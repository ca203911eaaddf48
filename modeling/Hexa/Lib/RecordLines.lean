/-
Texts of records, one a line: which records can be read from a text, and what
whole and cut lines at its end add to them.
-/
import Mathlib

namespace Hexa

open List

universe u v

/-- How a record is written as a line, and read from one. -/
structure RecordFormat (Symbol : Type u) (Record : Type v) where
  separator : Symbol
  encode : Record → List Symbol
  decode : List Symbol → Option Record

namespace RecordFormat

variable {Symbol : Type u} {Record : Type v} (format : RecordFormat Symbol Record)

/-- A line is read as what was written, and no shorter part of it is read. -/
structure Lawful : Prop where
  separator_notMem : ∀ record, format.separator ∉ format.encode record
  decode_encode : ∀ record, format.decode (format.encode record) = some record
  decode_cut : ∀ record count, count < (format.encode record).length →
    format.decode ((format.encode record).take count) = none
  decode_nil : format.decode [] = none

/-- A record with the separator that ends it. -/
def line (record : Record) : List Symbol := format.encode record ++ [format.separator]

/-- Nothing has been written of the last line. -/
def AtLineStart (text : List Symbol) : Prop :=
  text = [] ∨ ∃ lines, text = lines ++ [format.separator]

variable [BEq Symbol]

/-- The records that can be read from a text. -/
def records (format : RecordFormat Symbol Record) (text : List Symbol) : List Record :=
  (text.splitOn format.separator).filterMap format.decode

variable [LawfulBEq Symbol] {format : RecordFormat Symbol Record} {text : List Symbol}

theorem records_append_separator (first second : List Symbol) :
    format.records (first ++ format.separator :: second) =
      format.records first ++ format.records second := by
  rw [records, List.splitOn, splitOnP_append_cons _ _ (by simp), filterMap_append]
  rfl

theorem records_of_notMem (hnot : format.separator ∉ text) :
    format.records text = (format.decode text).toList := by
  rw [records, List.splitOn, splitOnP_eq_singleton]
  · cases h : format.decode text <;> simp [h]
  · intro symbol hmem
    simp only [beq_eq_false_iff_ne]
    exact fun heq => hnot (heq ▸ hmem)

variable (hformat : format.Lawful)
include hformat

theorem Lawful.records_nil : format.records [] = [] := by
  rw [records_of_notMem not_mem_nil, hformat.decode_nil]
  rfl

/-- A line break at the end adds nothing. -/
theorem Lawful.records_terminate (text : List Symbol) :
    format.records (text ++ [format.separator]) = format.records text := by
  rw [records_append_separator, hformat.records_nil, append_nil]

variable (hstart : format.AtLineStart text)
include hstart

/-- What follows the start of a line is read by itself. -/
theorem Lawful.records_append (rest : List Symbol) :
    format.records (text ++ rest) = format.records text ++ format.records rest := by
  rcases hstart with rfl | ⟨lines, rfl⟩
  · rw [hformat.records_nil]
    rfl
  · rw [hformat.records_terminate, append_assoc, singleton_append, records_append_separator]

theorem Lawful.records_append_line (record : Record) :
    format.records (text ++ format.line record) = format.records text ++ [record] := by
  rw [hformat.records_append hstart, line, hformat.records_terminate,
    records_of_notMem (hformat.separator_notMem record), hformat.decode_encode]
  rfl

/-- A line without its last two symbols adds no record. -/
theorem Lawful.records_append_cut (record : Record) {lost : Nat} (hlost : 2 ≤ lost) :
    format.records (text ++ (format.line record).take ((format.line record).length - lost)) =
      format.records text := by
  rw [hformat.records_append hstart]
  have hlength : (format.line record).length = (format.encode record).length + 1 := by
    rw [line, length_append, length_singleton]
  have htake : (format.line record).take
      ((format.line record).length - lost) =
      (format.encode record).take ((format.line record).length - lost) := by
    rw [line, take_append_of_le_length]
    rw [← line]
    omega
  rw [htake, records_of_notMem fun hmem => hformat.separator_notMem record (mem_of_mem_take hmem)]
  by_cases hempty : format.encode record = []
  · rw [hempty, take_nil, hformat.decode_nil]
    exact append_nil _
  · have hpos := length_pos_iff.mpr hempty
    rw [hformat.decode_cut record _ (by omega)]
    exact append_nil _

end RecordFormat

end Hexa
