/-
The lines of a text as `str::lines` yields them: pieces that end with a
newline, without the newline and a carriage return before it.
-/
import Mathlib

namespace Hexa

open List

/-- `split_inclusive('\n')`. -/
def splitInclusive : List Char → List (List Char)
  | [] => []
  | char :: rest =>
    if char = '\n' then [char] :: splitInclusive rest
    else
      match splitInclusive rest with
      | [] => [[char]]
      | piece :: pieces => (char :: piece) :: pieces

/-- A piece without its line terminator. -/
def stripTerminator (piece : List Char) : List Char :=
  if piece.getLast? = some '\n' then
    if piece.dropLast.getLast? = some '\r' then piece.dropLast.dropLast
    else piece.dropLast
  else piece

variable (text : List Char)

/-- `str::lines`. -/
def textLines : List (List Char) := (splitInclusive text).map stripTerminator

/-- The text is empty or its last line is terminated. -/
def Terminated : Prop := text = [] ∨ text.getLast? = some '\n'

theorem exists_splitInclusive_cons (char : Char) (rest : List Char) :
    ∃ piece pieces, splitInclusive (char :: rest) = piece :: pieces := by
  rw [splitInclusive]
  split_ifs
  · exact ⟨_, _, rfl⟩
  · split
    · exact ⟨_, _, rfl⟩
    · exact ⟨_, _, rfl⟩

theorem flatten_splitInclusive : (splitInclusive text).flatten = text := by
  induction text with
  | nil => rfl
  | cons char rest ih =>
    rw [splitInclusive]
    split_ifs
    · simp [ih]
    · split
      next hnil =>
        rw [hnil] at ih
        simp [← ih]
      next piece pieces hpieces =>
        rw [hpieces] at ih
        simp [← ih]

theorem splitInclusive_append {first : List Char} (hfirst : Terminated first)
    (second : List Char) :
    splitInclusive (first ++ second) = splitInclusive first ++ splitInclusive second := by
  induction first with
  | nil => rfl
  | cons char rest ih =>
    have hlast : (char :: rest).getLast? = some '\n' := by
      rcases hfirst with hempty | hlast
      · cases hempty
      · exact hlast
    cases rest with
    | nil =>
      obtain rfl : char = '\n' := by simpa using hlast
      simp [splitInclusive]
    | cons next rest =>
      have hrest : Terminated (next :: rest) := by
        right
        simpa [getLast?_cons_cons] using hlast
      obtain ⟨piece, pieces, hpieces⟩ := exists_splitInclusive_cons next rest
      rw [cons_append, splitInclusive, ih hrest, splitInclusive.eq_2 char (next :: rest), hpieces]
      split_ifs
      · rfl
      · rfl

variable {line : List Char}

theorem splitInclusive_line (hline : '\n' ∉ line) :
    splitInclusive (line ++ ['\n']) = [line ++ ['\n']] := by
  induction line with
  | nil => rfl
  | cons char line ih =>
    simp only [mem_cons, not_or] at hline
    rw [cons_append, splitInclusive, if_neg (Ne.symm hline.1), ih hline.2]

/-- A terminated line without a carriage return at its end. -/
theorem stripTerminator_line (hline : line.getLast? ≠ some '\r') :
    stripTerminator (line ++ ['\n']) = line := by
  simp [stripTerminator, hline]

/-- Appending a whole line to a terminated text appends it to the lines. -/
theorem textLines_append_line {text : List Char} (htext : Terminated text)
    (hnewline : '\n' ∉ line) (hreturn : line.getLast? ≠ some '\r') :
    textLines (text ++ (line ++ ['\n'])) = textLines text ++ [line] := by
  rw [textLines, splitInclusive_append htext, splitInclusive_line hnewline,
    map_append, map_singleton, stripTerminator_line hreturn]
  rfl

/-- Lines with a newline after each. -/
def unlines (lines : List (List Char)) : List Char := lines.flatMap (· ++ ['\n'])

@[simp]
theorem unlines_nil : unlines [] = [] := rfl

@[simp]
theorem unlines_cons (line : List Char) (lines : List (List Char)) :
    unlines (line :: lines) = line ++ '\n' :: unlines lines := by
  simp [unlines]

theorem intercalate_newline (lines : List (List Char)) (last : List Char) :
    List.intercalate ['\n'] (lines ++ [last]) = unlines lines ++ last := by
  induction lines with
  | nil => simp [List.intercalate]
  | cons line lines ih =>
    cases lines with
    | nil => simp [List.intercalate]
    | cons next rest =>
      have hstep : List.intercalate ['\n'] (line :: next :: rest ++ [last])
          = line ++ '\n' :: List.intercalate ['\n'] (next :: rest ++ [last]) := by
        simp [List.intercalate]
      rw [hstep, ih]
      simp

theorem splitInclusive_of_notMem {text : List Char} (htext : '\n' ∉ text) (hne : text ≠ []) :
    splitInclusive text = [text] := by
  induction text with
  | nil => exact absurd rfl hne
  | cons char text ih =>
    simp only [mem_cons, not_or] at htext
    rw [splitInclusive, if_neg (Ne.symm htext.1)]
    cases text with
    | nil => rfl
    | cons next rest => rw [ih htext.2 (by simp)]

theorem textLines_cons (hnewline : '\n' ∉ line) (hreturn : line.getLast? ≠ some '\r')
    (rest : List Char) : textLines (line ++ '\n' :: rest) = line :: textLines rest := by
  have hline : Terminated (line ++ ['\n']) := .inr (by simp)
  rw [append_cons, textLines, splitInclusive_append hline, splitInclusive_line hnewline,
    map_append, map_singleton, stripTerminator_line hreturn]
  rfl

/-- Whole lines, and a last one without its newline, read back. -/
theorem textLines_unlines_append {lines : List (List Char)} {last : List Char}
    (hlines : ∀ line ∈ lines, '\n' ∉ line ∧ line.getLast? ≠ some '\r') (hlast : '\n' ∉ last)
    (hne : last ≠ []) : textLines (unlines lines ++ last) = lines ++ [last] := by
  induction lines with
  | nil =>
    have hend : last.getLast? ≠ some '\n' := fun hmem => hlast (mem_of_getLast? hmem)
    simp [textLines, splitInclusive_of_notMem hlast hne, stripTerminator, hend]
  | cons line lines ih =>
    obtain ⟨⟨hnewline, hreturn⟩, hrest⟩ := forall_mem_cons.mp hlines
    rw [unlines_cons, append_assoc, cons_append,
      textLines_cons hnewline hreturn, ih hrest, cons_append]

theorem splitInclusive_unlines {lines : List (List Char)} (hlines : ∀ line ∈ lines, '\n' ∉ line) :
    splitInclusive (unlines lines) = lines.map (· ++ ['\n']) := by
  induction lines with
  | nil => rfl
  | cons line lines ih =>
    obtain ⟨hline, hrest⟩ := forall_mem_cons.mp hlines
    have hterminated : Terminated (line ++ ['\n']) := .inr (by simp)
    rw [unlines_cons, append_cons, splitInclusive_append hterminated,
      splitInclusive_line hline, ih hrest]
    rfl

end Hexa
