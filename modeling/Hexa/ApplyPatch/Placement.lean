/-
Where the chunks of an update are placed in the lines of a file: the search
for one chunk, the cursor that moves from chunk to chunk, and what a chunk at
the end of the file is tied to.
-/
import Hexa.ApplyPatch.FileUpdate

namespace Hexa.ApplyPatch

open List Option

section Search

variable {lines pattern : List Text} {start index : Nat} {eof : Bool}
  {mode : ApplyPatchFileUpdateMode}

/-- Where a search begins that is asked to begin at `start`. -/
def searchStart (lines pattern : List Text) (start : Nat) (eof : Bool)
    (mode : ApplyPatchFileUpdateMode) : Nat :=
  match eof, mode with
  | false, _ => start
  | true, .normalizeToLf => lines.length - pattern.length
  | true, .preserveLineEndings => max (lines.length - pattern.length) start

/-- The search of `seek_sequence` from a line on, in all its tiers. -/
def searchTiers (lines pattern : List Text) (first : Nat) : Option Nat :=
  (searchFrom id lines pattern first).or
    ((searchFrom trimEnd lines pattern first).or
      ((searchFrom trim lines pattern first).or (searchFrom normalise lines pattern first)))

theorem seekSequence_of_ne_nil (hpattern : pattern ≠ []) :
    seekSequence lines pattern start eof mode =
      if lines.length < pattern.length then none
      else searchTiers lines pattern (searchStart lines pattern start eof mode) := by
  rw [seekSequence, if_neg hpattern]
  rfl

theorem searchFrom_bounds {simplify : Text → Text} {first : Nat}
    (hfound : searchFrom simplify lines pattern first = some index) :
    first ≤ index ∧ index ≤ lines.length - pattern.length := by
  have hmem := mem_of_find?_eq_some hfound
  rw [mem_drop_iff_getElem] at hmem
  obtain ⟨offset, hbound, hget⟩ := hmem
  rw [length_range] at hbound
  rw [getElem_range] at hget
  omega

theorem searchTiers_bounds {first : Nat} (hfound : searchTiers lines pattern first = some index) :
    first ≤ index ∧ index ≤ lines.length - pattern.length := by
  simp only [searchTiers, or_eq_some_iff] at hfound
  rcases hfound with h | ⟨-, h | ⟨-, h | ⟨-, h⟩⟩⟩ <;> exact searchFrom_bounds h

/-- A search that begins behind the last place finds nothing. -/
theorem searchTiers_eq_none {first : Nat} (hfirst : lines.length - pattern.length < first) :
    searchTiers lines pattern first = none := by
  rw [eq_none_iff_forall_ne_some]
  intro index hfound
  obtain ⟨hle, hbound⟩ := searchTiers_bounds hfound
  omega

theorem seekSequence_fits (hpattern : pattern ≠ [])
    (hfound : seekSequence lines pattern start eof mode = some index) :
    searchStart lines pattern start eof mode ≤ index ∧ index + pattern.length ≤ lines.length := by
  rw [seekSequence_of_ne_nil hpattern] at hfound
  obtain ⟨hlength, hfound⟩ := ite_none_left_eq_some.mp hfound
  obtain ⟨hfirst, hbound⟩ := searchTiers_bounds hfound
  exact ⟨hfirst, by omega⟩

/-- A search at the end of the file has one candidate. -/
theorem seekSequence_eof (hpattern : pattern ≠ [])
    (hfound : seekSequence lines pattern start true mode = some index) :
    index + pattern.length = lines.length := by
  obtain ⟨hfirst, hbound⟩ := seekSequence_fits hpattern hfound
  have hstart : lines.length - pattern.length ≤ searchStart lines pattern start true mode := by
    cases mode with
    | normalizeToLf => exact Nat.le_refl _
    | preserveLineEndings => exact Nat.le_max_left _ _
  omega

/-- Only the end of the file may be searched before the cursor, and only if
line endings are normalised. -/
theorem seekSequence_forward (hforward : eof = false ∨ mode = .preserveLineEndings)
    (hfound : seekSequence lines pattern start eof mode = some index) : start ≤ index := by
  by_cases hpattern : pattern = []
  · subst hpattern
    exact (some.inj hfound).le
  · refine le_trans ?_ (seekSequence_fits hpattern hfound).1
    rcases hforward with rfl | rfl
    · exact Nat.le_refl _
    · cases eof with
  | false => exact Nat.le_refl _
  | true => exact Nat.le_max_right _ _

theorem seekSequence_bound (hstart : start ≤ lines.length)
    (hfound : seekSequence lines pattern start eof mode = some index) :
    index + pattern.length ≤ lines.length := by
  by_cases hpattern : pattern = []
  · subst hpattern
    rw [← some.inj hfound]
    exact hstart
  · exact (seekSequence_fits hpattern hfound).2

/-- A place from a line on where the pattern stands, in one comparison. -/
structure Hit (lines pattern : List Text) (first : Nat) (simplify : Text → Text)
    (place : Nat) : Prop where
  start : first ≤ place
  fits : place + pattern.length ≤ lines.length
  same : matchesAt simplify lines pattern place = true

/-- The comparisons of `seek_sequence`, the strictest first. -/
def tiers : List (Text → Text) := [id, trimEnd, trim, normalise]

section

variable {first : Nat} {simplify : Text → Text} (hlength : pattern.length ≤ lines.length)
include hlength

theorem hit_iff {place : Nat} :
    Hit lines pattern first simplify place ↔
      place ∈ range' first (lines.length - pattern.length + 1 - first) ∧
        matchesAt simplify lines pattern place = true := by
  rw [mem_range'_1]
  constructor
  · rintro ⟨hstart, hfits, hsame⟩
    exact ⟨by omega, hsame⟩
  · rintro ⟨hmem, hsame⟩
    exact ⟨by omega, by omega, hsame⟩

theorem searchFrom_eq_none_iff :
    searchFrom simplify lines pattern first = none ↔
      ∀ place, ¬Hit lines pattern first simplify place := by
  simp [searchFrom, range_eq_range', drop_range', hit_iff hlength]

theorem searchFrom_eq_some_iff :
    searchFrom simplify lines pattern first = some index ↔
      Hit lines pattern first simplify index ∧
        ∀ place < index, ¬Hit lines pattern first simplify place := by
  simp only [searchFrom, range_eq_range', drop_range', find?_range'_eq_some, hit_iff hlength,
    mem_range'_1]
  constructor
  · rintro ⟨hsame, hmem, hbefore⟩
    refine ⟨⟨by omega, hsame⟩, fun place hlt hhit => ?_⟩
    have hmiss := hbefore place (by omega) hlt
    simp [hhit.2] at hmiss
  · rintro ⟨⟨hmem, hsame⟩, hbefore⟩
    refine ⟨hsame, by omega, fun place hle hlt => ?_⟩
    by_contra hhit
    exact hbefore place hlt ⟨by omega, by simpa using hhit⟩

end

/-- A search for no line stays where it is asked to begin.  Any other returns
the leftmost place in the strictest comparison that has one. -/
theorem seekSequence_strictest_leftmost (lines pattern : List Text) (start : Nat) (eof : Bool)
    (mode : ApplyPatchFileUpdateMode) :
    if pattern = [] then seekSequence lines pattern start eof mode = some start
    else
      let hit := Hit lines pattern (searchStart lines pattern start eof mode)
      (∀ index, seekSequence lines pattern start eof mode = some index ↔
        ∃ stricter tier looser, tiers = stricter ++ tier :: looser ∧
          (hit tier index ∧ ∀ place < index, ¬hit tier place) ∧
          ∀ other ∈ stricter, ∀ place, ¬hit other place) ∧
      (seekSequence lines pattern start eof mode = none ↔
        ∀ tier ∈ tiers, ∀ place, ¬hit tier place) := by
  split_ifs with hpattern
  · rw [seekSequence, if_pos hpattern]
  · rw [seekSequence_of_ne_nil hpattern]
    split_ifs with hshort
    · have hmiss : ∀ first tier place, ¬Hit lines pattern first tier place := by
        intro first tier place hhit
        have hfits := hhit.fits
        omega
      simp [hmiss]
    · have hsearch : ∀ first, searchTiers lines pattern first =
          tiers.findSome? (searchFrom · lines pattern first) := by
        intro first
        simp only [searchTiers, tiers, findSome?]
        cases searchFrom id lines pattern first <;>
          cases searchFrom trimEnd lines pattern first <;>
          cases searchFrom trim lines pattern first <;>
          cases searchFrom normalise lines pattern first <;> rfl
      have hlength : pattern.length ≤ lines.length := by omega
      simp only [hsearch, findSome?_eq_some_iff, findSome?_eq_none_iff,
        searchFrom_eq_some_iff hlength, searchFrom_eq_none_iff hlength, implies_true, and_self]

/-- Behind the last line the place of an empty pattern is not in the file. -/
theorem empty_pattern_out_of_bounds : seekSequence [] [] 1 false .normalizeToLf = some 1 := by
  decide

end Search

/-- A chunk with the line at which the search for it began, and with what it
replaces: the old lines from `start` on by the new ones. -/
structure Placement where
  chunk : UpdateFileChunk
  cursor : Nat
  start : Nat
  pattern : List Text
  newSlice : List Text

namespace Placement

variable (placement : Placement)

/-- The chunk has no old lines. -/
def IsInsertion : Prop := placement.chunk.oldLines = []

instance (placement : Placement) : Decidable placement.IsInsertion :=
  inferInstanceAs (Decidable (_ = _))

def stop : Nat := placement.start + placement.pattern.length

/-- Where the search for the next chunk begins. -/
def next : Nat := if placement.IsInsertion then placement.cursor else placement.stop

def range : Replacement := (placement.start, placement.pattern.length, placement.newSlice)

def replacements (mode : ApplyPatchFileUpdateMode) (placement : Placement) : List Replacement :=
  if placement.IsInsertion then [placement.range]
  else
    match mode with
    | .normalizeToLf => [placement.range]
    | .preserveLineEndings =>
      contextReplacements placement.start placement.pattern
        placement.newSlice placement.chunk.contextLineIndices 0 0

variable {placement : Placement}

theorem next_of_insertion (hins : placement.IsInsertion) : placement.next = placement.cursor :=
  if_pos hins

theorem next_of_found (hins : ¬ placement.IsInsertion) : placement.next = placement.stop :=
  if_neg hins

variable {mode : ApplyPatchFileUpdateMode}

theorem replacements_of_insertion (hins : placement.IsInsertion) :
    placement.replacements mode = [placement.range] :=
  if_pos hins

theorem replacements_of_found (hins : ¬ placement.IsInsertion) :
    placement.replacements mode =
      match mode with
      | .normalizeToLf => [placement.range]
      | .preserveLineEndings => contextReplacements placement.start placement.pattern
          placement.newSlice placement.chunk.contextLineIndices 0 0 :=
  if_neg hins

theorem replacements_normalizeToLf (placement : Placement) :
    placement.replacements .normalizeToLf = [placement.range] :=
  ite_self _

end Placement

section Placements

variable (lines : List Text) (path : Text) (mode : ApplyPatchFileUpdateMode)

/-- The placement of one chunk by the loop of `compute_replacements`. -/
def placeChunk (chunk : UpdateFileChunk) (lineIndex : Nat) : Except Text Placement :=
  match seekContext lines path mode lineIndex chunk.changeContext with
  | .error message => .error message
  | .ok cursor =>
    if chunk.oldLines = [] then .ok ⟨chunk, cursor, insertionIndex lines mode, [], chunk.newLines⟩
    else
      match findOldLines lines mode chunk cursor with
      | none =>
        .error ("Failed to find expected lines in ".toList ++ path ++
          ":\n".toList ++ ['\n'].intercalate chunk.oldLines)
      | some (start, pattern, newSlice) => .ok ⟨chunk, cursor, start, pattern, newSlice⟩

/-- The chunks that are placed, and the error that ended the loop. -/
def placements : List UpdateFileChunk → Nat → List Placement × Option Text
  | [], _ => ([], none)
  | chunk :: chunks, lineIndex =>
    match placeChunk lines path mode chunk lineIndex with
    | .error message => ([], some message)
    | .ok placement =>
      let (placed, failure) := placements chunks placement.next
      (placement :: placed, failure)

/-- What the loop returns for the chunks it has placed. -/
def loopResult (mode : ApplyPatchFileUpdateMode) :
    List Placement × Option Text → Except Text (List Replacement)
  | (_, some message) => .error message
  | (placed, none) => .ok (placed.flatMap (Placement.replacements mode))

theorem loopResult_cons (placement : Placement) (rest : List Placement × Option Text) :
    loopResult mode (placement :: rest.1, rest.2) =
      (loopResult mode rest).map (placement.replacements mode ++ ·) := by
  obtain ⟨placed, _ | message⟩ := rest <;> rfl

variable {result : List Placement × Option Text}

theorem loopResult_of_failure {message : Text} (hfailure : result.2 = some message) :
    loopResult mode result = .error message := by
  obtain ⟨placed, failure⟩ := result
  cases hfailure
  rfl

theorem loopResult_of_success (hfailure : result.2 = none) :
    loopResult mode result = .ok (result.1.flatMap (Placement.replacements mode)) := by
  obtain ⟨placed, failure⟩ := result
  cases hfailure
  rfl

theorem collectReplacements_eq (chunks : List UpdateFileChunk) (lineIndex : Nat) :
    collectReplacements lines path mode chunks lineIndex =
      loopResult mode (placements lines path mode chunks lineIndex) := by
  induction chunks generalizing lineIndex with
  | nil => rfl
  | cons chunk chunks ih =>
    rw [collectReplacements, placements, placeChunk]
    cases seekContext lines path mode lineIndex chunk.changeContext with
    | error message => rfl
    | ok cursor =>
      dsimp only
      by_cases hold : chunk.oldLines = []
      · rw [if_pos hold, if_pos hold, ih]
        have hins : Placement.IsInsertion ⟨chunk, cursor,
            insertionIndex lines mode, [], chunk.newLines⟩ := hold
        rw [loopResult_cons, Placement.next_of_insertion hins,
          Placement.replacements_of_insertion hins]
        rfl
      · rw [if_neg hold, if_neg hold]
        cases findOldLines lines mode chunk cursor with
      | none => rfl
      | some found =>
        obtain ⟨start, pattern, newSlice⟩ := found
        have hins : ¬ Placement.IsInsertion ⟨chunk, cursor, start, pattern, newSlice⟩ := hold
        dsimp only
        rw [ih, loopResult_cons, Placement.next_of_found hins,
          Placement.replacements_of_found hins]
        rfl

end Placements

section Spec

variable {lines : List Text} {path : Text} {mode : ApplyPatchFileUpdateMode} {lineIndex : Nat}

theorem seekContext_bounds {cursor : Nat} {context : Option Text}
    (hbound : lineIndex ≤ lines.length)
    (hseek : seekContext lines path mode lineIndex context = .ok cursor) :
    lineIndex ≤ cursor ∧ cursor ≤ lines.length := by
  cases context with
  | none =>
    cases hseek
    exact ⟨Nat.le_refl _, hbound⟩
  | some context =>
    rw [seekContext] at hseek
    cases hfound : seekSequence lines [context] lineIndex false mode with
    | none =>
      rw [hfound] at hseek
      cases hseek
    | some index =>
      rw [hfound] at hseek
      cases hseek
      have hforward := seekSequence_forward (.inl rfl) hfound
      have hstop := seekSequence_bound hbound hfound
      exact ⟨hforward.trans (Nat.le_succ _), hstop⟩

/-- What is found for a chunk: its lines, or all but an empty last one. -/
structure Found (lines : List Text) (mode : ApplyPatchFileUpdateMode)
    (placement : Placement) : Prop where
  seek : seekSequence lines placement.pattern placement.cursor
    placement.chunk.isEndOfFile mode = some placement.start
  taken : (placement.pattern = placement.chunk.oldLines ∧
      placement.newSlice = placement.chunk.newLines) ∨
    (seekSequence lines placement.chunk.oldLines placement.cursor
        placement.chunk.isEndOfFile mode = none ∧
      placement.chunk.oldLines = placement.pattern ++ [[]] ∧
      (placement.newSlice = placement.chunk.newLines ∨
        placement.chunk.newLines = placement.newSlice ++ [[]]))

theorem getLast?_eq_some_nil {texts : List Text} (hlast : texts.getLast? = some []) :
    texts = texts.dropLast ++ [[]] := by
  obtain ⟨front, rfl⟩ := getLast?_eq_some_iff.mp hlast
  rw [dropLast_concat]

theorem findOldLines_found {chunk : UpdateFileChunk} {cursor start : Nat}
    {pattern newSlice : List Text}
    (hfind : findOldLines lines mode chunk cursor = some (start, pattern, newSlice)) :
    Found lines mode ⟨chunk, cursor, start, pattern, newSlice⟩ := by
  rw [findOldLines] at hfind
  cases hseek : seekSequence lines chunk.oldLines cursor chunk.isEndOfFile mode with
  | some index =>
    rw [hseek] at hfind
    cases hfind
    exact ⟨hseek, .inl ⟨rfl, rfl⟩⟩
  | none =>
    rw [hseek] at hfind
    obtain ⟨hlast, hfind⟩ := ite_none_right_eq_some.mp hfind
    obtain ⟨index, hindex, heq⟩ := map_eq_some_iff.mp hfind
    cases heq
    refine ⟨hindex, .inr ⟨hseek, getLast?_eq_some_nil hlast, ?_⟩⟩
    by_cases hnew : chunk.newLines.getLast? = some []
    · rw [if_pos hnew]
      exact .inr (getLast?_eq_some_nil hnew)
    · rw [if_neg hnew]
      exact .inl rfl

/-- What the loop has done for a chunk that it reached at `lineIndex`. -/
structure Placed (lines : List Text) (mode : ApplyPatchFileUpdateMode)
    (lineIndex : Nat) (placement : Placement) : Prop where
  le_cursor : lineIndex ≤ placement.cursor
  cursor_le : placement.cursor ≤ lines.length
  insertion : placement.IsInsertion →
    placement.start = insertionIndex lines mode ∧ placement.pattern = [] ∧
      placement.newSlice = placement.chunk.newLines
  found : ¬ placement.IsInsertion → Found lines mode placement

variable {placement : Placement}

theorem placeChunk_placed {chunk : UpdateFileChunk} (hbound : lineIndex ≤ lines.length)
    (hplace : placeChunk lines path mode chunk lineIndex = .ok placement) :
    placement.chunk = chunk ∧ Placed lines mode lineIndex placement := by
  rw [placeChunk] at hplace
  cases hcontext : seekContext lines path mode lineIndex chunk.changeContext with
  | error message =>
    rw [hcontext] at hplace
    cases hplace
  | ok cursor =>
    obtain ⟨hle, hcursor⟩ := seekContext_bounds hbound hcontext
    rw [hcontext] at hplace
    dsimp only at hplace
    by_cases hold : chunk.oldLines = []
    · rw [if_pos hold] at hplace
      cases hplace
      exact ⟨rfl, hle, hcursor, fun _ => ⟨rfl, rfl, rfl⟩, fun hnot => absurd hold hnot⟩
    · rw [if_neg hold] at hplace
      cases hfind : findOldLines lines mode chunk cursor with
    | none =>
      rw [hfind] at hplace
      cases hplace
    | some found =>
      rw [hfind] at hplace
      cases hplace
      exact ⟨rfl, hle, hcursor, fun hins => absurd hins hold, fun _ => findOldLines_found hfind⟩

theorem insertionIndex_le : insertionIndex lines mode ≤ lines.length := by
  cases mode with
  | normalizeToLf =>
    rw [insertionIndex]
    split
    · exact Nat.sub_le _ _
    · exact Nat.le_refl _
  | preserveLineEndings => exact Nat.le_refl _

namespace Placed

variable {lineIndex : Nat} {placement : Placement}

section

variable (hplaced : Placed lines mode lineIndex placement)
include hplaced

theorem stop_le : placement.stop ≤ lines.length := by
  by_cases hins : placement.IsInsertion
  · obtain ⟨hstart, hpattern, -⟩ := hplaced.insertion hins
    rw [Placement.stop, hpattern, hstart]
    exact insertionIndex_le
  · exact seekSequence_bound hplaced.cursor_le (hplaced.found hins).seek

theorem next_le : placement.next ≤ lines.length := by
  rw [Placement.next]
  split
  · exact hplaced.cursor_le
  · exact hplaced.stop_le

/-- The old lines are not empty unless the one old line was empty. -/
theorem pattern_eq_nil (hins : ¬ placement.IsInsertion) (hpattern : placement.pattern = []) :
    placement.chunk.oldLines = [[]] ∧
      seekSequence lines [[]] placement.cursor placement.chunk.isEndOfFile mode = none ∧
      placement.start = placement.cursor := by
  obtain ⟨hseek, ⟨htaken, -⟩ | ⟨hnone, hold, -⟩⟩ := hplaced.found hins
  · exact absurd (htaken.symm.trans hpattern) hins
  · rw [hpattern] at hold
    rw [hold] at hnone
    rw [hpattern] at hseek
    exact ⟨hold, hnone, (some.inj hseek).symm⟩

end

end Placed

/-- Placements that follow each other from a line on. -/
inductive PlacedFrom (lines : List Text) (mode : ApplyPatchFileUpdateMode) :
    Nat → List Placement → Prop where
  | nil (lineIndex : Nat) : PlacedFrom lines mode lineIndex []
  | cons {lineIndex : Nat} {placement : Placement} {rest : List Placement}
      (hplaced : Placed lines mode lineIndex placement)
      (hrest : PlacedFrom lines mode placement.next rest) :
      PlacedFrom lines mode lineIndex (placement :: rest)

theorem placements_placedFrom (chunks : List UpdateFileChunk)
    (hbound : lineIndex ≤ lines.length) :
    PlacedFrom lines mode lineIndex (placements lines path mode chunks lineIndex).1 := by
  induction chunks generalizing lineIndex with
  | nil => exact .nil _
  | cons chunk chunks ih =>
    rw [placements]
    cases hplace : placeChunk lines path mode chunk lineIndex with
    | error message => exact .nil _
    | ok placement =>
      have hplaced := (placeChunk_placed hbound hplace).2
      exact .cons hplaced (ih hplaced.next_le)

theorem PlacedFrom.exists_placed {placed : List Placement}
    (hplaced : PlacedFrom lines mode lineIndex placed) (hmem : placement ∈ placed) :
    ∃ lineIndex, Placed lines mode lineIndex placement := by
  induction hplaced with
  | nil => exact absurd hmem not_mem_nil
  | cons hhead _ ih =>
    rcases mem_cons.mp hmem with rfl | hrest
    · exact ⟨_, hhead⟩
    · exact ih hrest

end Spec

section

variable {lines : List Text} {mode : ApplyPatchFileUpdateMode}

/-- The matched old lines end at the last line of the file. -/
def Placement.AtEnd (lines : List Text) (placement : Placement) : Prop :=
  placement.stop = lines.length

instance (placement : Placement) : Decidable (placement.AtEnd lines) :=
  inferInstanceAs (Decidable (_ = _))

theorem Placed.atEnd_iff {lineIndex : Nat} {placement : Placement}
    (hplaced : Placed lines mode lineIndex placement) (hins : ¬ placement.IsInsertion)
    (heof : placement.chunk.isEndOfFile = true) :
    placement.AtEnd lines ↔
      (placement.chunk.oldLines = [[]] →
        seekSequence lines [[]] placement.cursor true mode = none →
          placement.cursor = lines.length) := by
  by_cases hpattern : placement.pattern = []
  · obtain ⟨hold, hnone, hstart⟩ := hplaced.pattern_eq_nil hins hpattern
    rw [heof] at hnone
    rw [Placement.AtEnd, Placement.stop, hpattern, hstart]
    exact ⟨fun hend _ _ => hend, fun hcond => hcond hold hnone⟩
  · have hseek := (hplaced.found hins).seek
    rw [heof] at hseek
    refine ⟨fun _ hold hnone => ?_, fun _ => seekSequence_eof hpattern hseek⟩
    -- The one empty line was found directly, or dropped from the pattern.
    rcases (hplaced.found hins).taken with ⟨htaken, -⟩ | ⟨-, hsplit, -⟩
    · rw [htaken, hold, hnone] at hseek
      cases hseek
    · rw [hold] at hsplit
      exact absurd (append_eq_singleton_iff.mp hsplit.symm) (by simp [hpattern])

/-- Every chunk at the end of the file that is placed ends at its last line,
exactly if no such chunk has one empty line as its old lines while the file
does not end with a blank line and lines follow the cursor. -/
theorem end_of_file_anchored_iff (lines : List Text) (path : Text)
    (mode : ApplyPatchFileUpdateMode) (chunks : List UpdateFileChunk) :
    (∀ placement ∈ (placements lines path mode chunks 0).1,
      placement.chunk.isEndOfFile = true → ¬ placement.IsInsertion → placement.AtEnd lines) ↔
    ∀ placement ∈ (placements lines path mode chunks 0).1, placement.chunk.isEndOfFile = true →
        placement.chunk.oldLines = [[]] →
        seekSequence lines [[]] placement.cursor true mode = none →
          placement.cursor = lines.length := by
  refine forall₂_congr fun placement hmem => forall_congr' fun heof => ?_
  obtain ⟨lineIndex, hplaced⟩ := (placements_placedFrom chunks (Nat.zero_le _)).exists_placed hmem
  constructor
  · intro hend hold
    have hins : ¬ placement.IsInsertion := by
      rw [Placement.IsInsertion, hold]
      exact cons_ne_nil _ _
    exact (hplaced.atEnd_iff hins heof).mp (hend hins) hold
  · intro hcond hins
    exact (hplaced.atEnd_iff hins heof).mpr hcond

/-- An empty line is to be replaced at the end of a file of two lines; the new
line goes to the front. -/
theorem end_of_file_chunk_at_front :
    ¬ ∀ placement ∈ (placements ["a".toList, "b".toList] [] .normalizeToLf
        [⟨none, [[]], ["x".toList], [], true⟩] 0).1,
      placement.chunk.isEndOfFile = true → ¬ placement.IsInsertion →
        placement.AtEnd ["a".toList, "b".toList] := by
  decide

end

end Hexa.ApplyPatch
