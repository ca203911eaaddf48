/-
The scanner that says where a pipe table may start in streamed markdown
(tui/src/streaming/table_holdback.rs), and the source read as a whole.
-/
import Hexa.Lib.Lines
import Hexa.Tui.TableDetect

namespace Hexa.TableHoldback

open List Option

open Hexa.Tui (FenceKind)

/-- What is known of one line, and the tracker of code fences. -/
class TableDetect where
  FenceTracker : Type
  new : FenceTracker
  advance : FenceTracker → Text → FenceTracker
  kind : FenceTracker → FenceKind
  stripBlockquotePrefix : Text → Text
  parseTableSegments : Text → Option (List Text)
  isTableHeaderLine : Text → Bool
  isTableDelimiterLine : Text → Bool

open TableDetect

/-- The functions of `table_detect.rs`. -/
instance : TableDetect where
  FenceTracker := Hexa.Tui.FenceTracker
  new := {}
  advance := Hexa.Tui.FenceTracker.advance
  kind := Hexa.Tui.FenceTracker.kind
  stripBlockquotePrefix := Hexa.Tui.stripBlockquotePrefix
  parseTableSegments := Hexa.Tui.parseTableSegments
  isTableHeaderLine := Hexa.Tui.isTableHeaderLine
  isTableDelimiterLine := Hexa.Tui.isTableDelimiterLine

inductive TableHoldbackState where
  | none
  | pendingHeader (headerStart : Nat)
  | confirmed (tableStart : Nat)

structure PreviousLineState where
  sourceStart : Nat
  fenceKind : FenceKind
  isHeader : Bool

section

variable [TableDetect]

structure TableHoldbackScanner where
  sourceOffset : Nat := 0
  fenceTracker : FenceTracker := new
  previousLine : Option PreviousLineState := none
  pendingHeaderStart : Option Nat := none
  confirmedTableStart : Option Nat := none

def tableCandidateText (line : Text) : Option Text :=
  let stripped := trim (stripBlockquotePrefix line)
  (parseTableSegments stripped).map fun _ => stripped

/-- A line outside the fences that are not markdown has this shape. -/
def candidateIs (shape : Text → Bool) (fenceKind : FenceKind) (line : Text) : Bool :=
  (if fenceKind = .other then none else tableCandidateText line).any shape

namespace TableHoldbackScanner

variable (scanner : TableHoldbackScanner)

def state : TableHoldbackState :=
  scanner.confirmedTableStart.elim
    (scanner.pendingHeaderStart.elim .none .pendingHeader) .confirmed

def pushLine (sourceLine : Text) : TableHoldbackScanner :=
  let line := if sourceLine.getLast? = some '\n' then sourceLine.dropLast else sourceLine
  let fenceKind := kind scanner.fenceTracker
  let isHeader := candidateIs isTableHeaderLine fenceKind line
  let isDelimiter := candidateIs isTableDelimiterLine fenceKind line
  let found := if scanner.confirmedTableStart = none then
      scanner.previousLine.filter fun previousLine => previousLine.fenceKind ≠ .other
        && fenceKind ≠ .other && previousLine.isHeader && isDelimiter
    else none
  let confirmed := (found.map (·.sourceStart)).or scanner.confirmedTableStart
  let pending := if found.isSome then none else scanner.pendingHeaderStart
  { sourceOffset := scanner.sourceOffset + utf8Len sourceLine
    fenceTracker := advance scanner.fenceTracker line
    previousLine := some ⟨scanner.sourceOffset, fenceKind, isHeader⟩
    pendingHeaderStart := if confirmed = none ∧ trim line ≠ [] then
        if fenceKind ≠ .other ∧ isHeader then some scanner.sourceOffset else none
      else pending
    confirmedTableStart := confirmed }

def pushSourceChunk (sourceChunk : Text) : TableHoldbackScanner :=
  (splitInclusive sourceChunk).foldl pushLine scanner

end TableHoldbackScanner

open TableHoldbackScanner

structure ParsedLine where
  text : Text
  fenceContext : FenceKind
  sourceStart : Nat

def parseLinesWithFenceState (tracker : FenceTracker) (sourceStart : Nat) :
    List Text → List ParsedLine
  | [] => []
  | line :: rest => ⟨line, kind tracker, sourceStart⟩ ::
      parseLinesWithFenceState (advance tracker line) (sourceStart + utf8Len line + 1) rest

def ParsedLine.is (shape : Text → Bool) (line : ParsedLine) : Bool :=
  candidateIs shape line.fenceContext line.text

/-- The first header that a delimiter directly follows. -/
def firstTable : List ParsedLine → Option Nat
  | header :: delimiter :: rest =>
    if header.is isTableHeaderLine && delimiter.is isTableDelimiterLine then
      some header.sourceStart
    else firstTable (delimiter :: rest)
  | _ => none

/-- The last line that is not blank, if it is a header. -/
def lastHeader (lines : List ParsedLine) : Option Nat :=
  ((lines.reverse.find? fun line => trim line.text ≠ []).filter
    (·.is isTableHeaderLine)).map (·.sourceStart)

/-- The state that the lines of a whole source call for. -/
def tableHoldbackState (source : List Text) : TableHoldbackState :=
  let lines := parseLinesWithFenceState new 0 source
  (firstTable lines).elim ((lastHeader lines).elim .none .pendingHeader) .confirmed

def ParsedLine.asPrevious (line : ParsedLine) : PreviousLineState :=
  ⟨line.sourceStart, line.fenceContext, line.is isTableHeaderLine⟩

/-- The scanner has read these lines. -/
structure Follows (lines : List ParsedLine) (scanner : TableHoldbackScanner) : Prop where
  previous : scanner.previousLine = lines.getLast?.map ParsedLine.asPrevious
  confirmed : scanner.confirmedTableStart = firstTable lines
  pending : firstTable lines = none → scanner.pendingHeaderStart = lastHeader lines

/-- The line before this one, if the two start a table. -/
def headerBefore (lines : List ParsedLine) (last : ParsedLine) : Option ParsedLine :=
  lines.getLast?.filter fun line => line.is isTableHeaderLine && last.is isTableDelimiterLine

variable {scanner : TableHoldbackScanner} {lines : List ParsedLine}

theorem firstTable_concat (last : ParsedLine) : firstTable (lines ++ [last]) =
    (firstTable lines).or ((headerBefore lines last).map (·.sourceStart)) := by
  fun_induction firstTable lines with
  | case1 header delimiter rest htable => simp [firstTable, htable]
  | case2 header delimiter rest htable ih => simpa [firstTable, htable, headerBefore] using ih
  | case3 lines hshort =>
    rcases lines with - | ⟨line, - | ⟨next, rest⟩⟩
    · rfl
    · simp only [headerBefore, firstTable, singleton_append, getLast?_singleton, filter_some]
      split <;> rfl
    · exact absurd rfl (hshort line next rest)

theorem lastHeader_concat (last : ParsedLine) : lastHeader (lines ++ [last]) =
    if trim last.text ≠ [] then if last.is isTableHeaderLine then some last.sourceStart else none
    else lastHeader lines := by
  rw [lastHeader, reverse_append, reverse_singleton, singleton_append, find?_cons]
  by_cases hblank : trim last.text = []
  · simp [hblank, lastHeader]
  · simp [hblank, Option.filter]

theorem pushLine_follows (hfollows : Follows lines scanner) (line : Text) :
    Follows (lines ++ [⟨line, kind scanner.fenceTracker, scanner.sourceOffset⟩])
      (scanner.pushLine (line ++ ['\n'])) := by
  obtain ⟨hprevious, hconfirmed, hpending⟩ := hfollows
  simp only [pushLine, getLast?_concat, dropLast_concat, if_true]
  set current : ParsedLine := ⟨line, kind scanner.fenceTracker, scanner.sourceOffset⟩
  have hfound : scanner.previousLine.filter (fun previousLine => previousLine.fenceKind ≠ .other
      && kind scanner.fenceTracker ≠ .other && previousLine.isHeader
      && candidateIs isTableDelimiterLine (kind scanner.fenceTracker) line) =
      (headerBefore lines current).map (·.asPrevious) := by
    rw [hprevious, headerBefore]
    cases lines.getLast? with
    | none => rfl
    | some earlier => grind [ParsedLine.is, ParsedLine.asPrevious, candidateIs]
  have hheader : (kind scanner.fenceTracker ≠ .other ∧
      candidateIs isTableHeaderLine (kind scanner.fenceTracker) line) ↔
      current.is isTableHeaderLine := by
    grind [ParsedLine.is, candidateIs]
  simp only [hfound, hconfirmed, hheader]
  refine ⟨by simp [current, ParsedLine.asPrevious, ParsedLine.is], ?_, fun hnone => ?_⟩
  · rw [firstTable_concat]
    cases firstTable lines <;> simp [Function.comp_def, ParsedLine.asPrevious]
  · rw [firstTable_concat, or_eq_none_iff, map_eq_none_iff] at hnone
    simp [lastHeader_concat, hnone, hpending hnone.1, current]

theorem pushLines_follows (hfollows : Follows lines scanner) (source : List Text) :
    Follows (lines ++ parseLinesWithFenceState scanner.fenceTracker scanner.sourceOffset source)
      ((source.map (· ++ ['\n'])).foldl pushLine scanner) := by
  induction source generalizing scanner lines with
  | nil => simpa [parseLinesWithFenceState] using hfollows
  | cons line rest ih =>
    have hnext := ih (pushLine_follows hfollows line)
    have hoffset : utf8Len (line ++ ['\n']) = utf8Len line + 1 := utf8Len_append line ['\n']
    simpa [parseLinesWithFenceState, pushLine, hoffset, Nat.add_assoc] using hnext

/-- However its lines are put into chunks, a source leaves the scanner in the
state that it calls for as a whole. -/
theorem pushSourceChunk_state (chunks : List (List {line : Text // '\n' ∉ line})) :
    ((chunks.map fun chunk => unlines (chunk.map (·.1))).foldl pushSourceChunk {}).state =
      tableHoldbackState (chunks.flatten.map (·.1)) := by
  have hlines (scanner : TableHoldbackScanner) :
      (chunks.map fun chunk => unlines (chunk.map (·.1))).foldl pushSourceChunk scanner =
        ((chunks.flatten.map (·.1)).map (· ++ ['\n'])).foldl pushLine scanner := by
    induction chunks generalizing scanner with
    | nil => rfl
    | cons chunk chunks ih =>
      have hwhole : ∀ line ∈ chunk.map (·.1), '\n' ∉ line := by simpa using fun _ hline _ => hline
      rw [map_cons, foldl_cons, ih, pushSourceChunk, splitInclusive_unlines hwhole,
        flatten_cons, map_append, map_append, foldl_append]
  have hstart : Follows [] ({} : TableHoldbackScanner) := ⟨rfl, rfl, fun _ => rfl⟩
  obtain ⟨-, hconfirmed, hpending⟩ := pushLines_follows hstart (chunks.flatten.map (·.1))
  rw [nil_append] at hconfirmed hpending
  rw [hlines, state, hconfirmed, tableHoldbackState]
  cases htable : firstTable (parseLinesWithFenceState new 0 (chunks.flatten.map (·.1))) with
  | none => rw [hpending htable]
  | some start => rfl

end

/-- The table in the fence of a shell script is none; the one behind it starts
at its header. -/
example :
    (([["```sh", "| a | b |", "|---|---|"], ["```", "> x | y"], ["> --- | ---", "> 1 | 2"]].map
      fun chunk => unlines (chunk.map String.toList)).foldl TableHoldbackScanner.pushSourceChunk
        ({} : TableHoldbackScanner)).state = .confirmed 30 :=
  rfl

end Hexa.TableHoldback
