/-
Updates that normalise line endings: when the ranges that the chunks replace
are disjoint and in the order of the chunks, and what the file is then.
-/
import Hexa.Lib.Splice
import Hexa.ApplyPatch.Placement

namespace Hexa.ApplyPatch

open List Placement

section

variable {lines : List Text} {mode : ApplyPatchFileUpdateMode} {lineIndex : Nat}
  {placement : Placement} {placed : List Placement}

theorem Placed.le_next (hplaced : Placed lines mode lineIndex placement) :
    lineIndex ≤ placement.next := by
  by_cases hins : placement.IsInsertion
  · rw [next_of_insertion hins]
    exact hplaced.le_cursor
  · rw [next_of_found hins]
    refine hplaced.le_cursor.trans ?_
    have hseek := (hplaced.found hins).seek
    by_cases hpattern : placement.pattern = []
    · rw [stop, (hplaced.pattern_eq_nil hins hpattern).2.2]
      exact Nat.le_add_right _ _
    · cases heof : placement.chunk.isEndOfFile with
  | true =>
    rw [heof] at hseek
    rw [stop, seekSequence_eof hpattern hseek]
    exact hplaced.cursor_le
  | false =>
    rw [heof] at hseek
    exact (seekSequence_forward (.inl rfl) hseek).trans (Nat.le_add_right _ _)

theorem PlacedFrom.le_cursor (hplaced : PlacedFrom lines mode lineIndex placed)
    (hmem : placement ∈ placed) : lineIndex ≤ placement.cursor := by
  induction hplaced with
  | nil => exact absurd hmem not_mem_nil
  | cons hhead _ ih =>
    rcases mem_cons.mp hmem with rfl | hrest
    · exact hhead.le_cursor
    · exact hhead.le_next.trans (ih hrest)

/-- The search for a chunk begins behind the old lines of all earlier ones. -/
theorem PlacedFrom.stop_le_cursor (hplaced : PlacedFrom lines mode lineIndex placed) :
    placed.Pairwise fun earlier later => ¬ earlier.IsInsertion → earlier.stop ≤ later.cursor := by
  induction hplaced with
  | nil => exact .nil
  | cons hhead hrest ih =>
    refine pairwise_cons.mpr ⟨?_, ih⟩
    intro later hlater hins
    rw [← next_of_found hins]
    exact hrest.le_cursor hlater

end

/-- The old lines that are looked for: without an empty last one where they are
not found with it. -/
def soughtLines (lines : List Text) (chunk : UpdateFileChunk) (cursor : Nat) : List Text :=
  if seekSequence lines chunk.oldLines cursor chunk.isEndOfFile .normalizeToLf = none then
    chunk.oldLines.dropLast
  else chunk.oldLines

/-- There is room for a chunk: `used` is the cursor that the last chunk with
old lines has left, and `inserted` says that one without old lines was there. -/
def HasRoom (lines : List Text) (used : Nat) (inserted : Bool) (chunk : UpdateFileChunk)
    (cursor : Nat) : Prop :=
  if chunk.oldLines = [] then used ≤ insertionIndex lines .normalizeToLf
  else
    (chunk.isEndOfFile = true →
      used + (soughtLines lines chunk cursor).length ≤ lines.length) ∧
    (inserted = true → ∀ index < insertionIndex lines .normalizeToLf,
      seekSequence lines (soughtLines lines chunk cursor) cursor chunk.isEndOfFile
        .normalizeToLf ≠ some index)

instance (lines : List Text) (used : Nat) (inserted : Bool) (chunk : UpdateFileChunk)
    (cursor : Nat) : Decidable (HasRoom lines used inserted chunk cursor) :=
  inferInstanceAs (Decidable (ite _ _ _))

/-- There is room for each of the chunks when the loop comes to it. -/
def RoomForAll (lines : List Text) (used : Nat) (inserted : Bool) : List Placement → Prop
  | [] => True
  | placement :: rest =>
    HasRoom lines used inserted placement.chunk placement.cursor ∧
      RoomForAll lines (if placement.IsInsertion then used else placement.next)
        (inserted || placement.IsInsertion) rest

instance (lines : List Text) (used : Nat) (inserted : Bool) (placed : List Placement) :
    Decidable (RoomForAll lines used inserted placed) := by
  induction placed generalizing used inserted with
  | nil => exact instDecidableTrue
  | cons placement rest ih => exact @instDecidableAnd _ _ _ (ih _ _)

section

variable {lines : List Text} {placement : Placement} {lineIndex used : Nat}

theorem Placed.soughtLines_eq (hplaced : Placed lines .normalizeToLf lineIndex placement)
    (hins : ¬ placement.IsInsertion) :
    soughtLines lines placement.chunk placement.cursor = placement.pattern := by
  obtain ⟨hseek, ⟨hpattern, -⟩ | ⟨hnone, hold, -⟩⟩ := hplaced.found hins
  · rw [hpattern] at hseek
    rw [soughtLines, if_neg (by simp [hseek]), hpattern]
  · rw [soughtLines, if_pos hnone, hold, dropLast_concat]

/-- A chunk is behind what was placed before exactly if there is room. -/
theorem Placed.hasRoom_iff (hplaced : Placed lines .normalizeToLf lineIndex placement)
    (hused : used ≤ lineIndex) (inserted : Bool) :
    HasRoom lines used inserted placement.chunk placement.cursor ↔
      used ≤ placement.start ∧
        (inserted = true → insertionIndex lines .normalizeToLf ≤ placement.start) := by
  by_cases hins : placement.IsInsertion
  · have hold : placement.chunk.oldLines = [] := hins
    rw [HasRoom, if_pos hold, (hplaced.insertion hins).1]
    exact ⟨fun h => ⟨h, fun _ => le_rfl⟩, And.left⟩
  · have hold : placement.chunk.oldLines ≠ [] := hins
    have hseek := (hplaced.found hins).seek
    rw [HasRoom, if_neg hold, hplaced.soughtLines_eq hins, hseek]
    refine and_congr ?_ (imp_congr_right fun _ => ?_)
    · have hcursor := hused.trans hplaced.le_cursor
      have hbound := hplaced.cursor_le
      by_cases hpattern : placement.pattern = []
      · rw [hpattern, (hplaced.pattern_eq_nil hins hpattern).2.2]
        exact ⟨fun _ => hcursor, fun _ _ => hcursor.trans hbound⟩
      · cases heof : placement.chunk.isEndOfFile with
        | true =>
          rw [heof] at hseek
          have hend := seekSequence_eof hpattern hseek
          simp only [true_imp_iff]
          omega
        | false =>
          rw [heof] at hseek
          have hforward := seekSequence_forward (.inl rfl) hseek
          exact ⟨fun _ => hcursor.trans hforward, nofun⟩
    · refine ⟨fun hnone => not_lt.mp fun hlt => hnone _ hlt rfl, ?_⟩
      rintro hle index hlt heq
      exact absurd (Option.some.inj heq ▸ hlt) (not_lt.mpr hle)

/-- The chunks are behind each other, and behind what was placed before them,
exactly if there is room for each. -/
theorem PlacedFrom.roomForAll_iff {placed : List Placement}
    (hplaced : PlacedFrom lines .normalizeToLf lineIndex placed) (hused : used ≤ lineIndex)
    (inserted : Bool) :
    RoomForAll lines used inserted placed ↔
      (∀ placement ∈ placed, used ≤ placement.start ∧
        (inserted = true → insertionIndex lines .normalizeToLf ≤ placement.start)) ∧
      (placed.map Placement.range).Pairwise RangeEdit.Before := by
  induction hplaced generalizing used inserted with
  | nil => simp [RoomForAll]
  | @cons lineIndex placement rest hhead hrest ih =>
    have hnext := hused.trans hhead.le_next
    rw [RoomForAll, hhead.hasRoom_iff hused, map_cons, pairwise_cons, forall_mem_cons,
      forall_mem_map]
    by_cases hins : placement.IsInsertion
    · have hstop : placement.stop = insertionIndex lines .normalizeToLf := by
        rw [stop, (hhead.insertion hins).1, (hhead.insertion hins).2.1]
        rfl
      rw [if_pos hins, decide_eq_true hins, Bool.or_true, ih hnext]
      change _ ↔ _ ∧ (∀ later ∈ rest, placement.stop ≤ later.start) ∧ _
      rw [hstop]
      simp only [true_imp_iff, forall_and]
      tauto
    · have hstop : used ≤ placement.stop := by
        rwa [← next_of_found hins]
      rw [if_neg hins, decide_eq_false hins, Bool.or_false, ih le_rfl]
      change _ ↔ _ ∧ (∀ later ∈ rest, placement.stop ≤ later.start) ∧ _
      rw [next_of_found hins]
      constructor
      · rintro ⟨hroom, hbehind, hpair⟩
        exact ⟨⟨hroom, fun later hlater => ⟨hstop.trans (hbehind later hlater).1,
          (hbehind later hlater).2⟩⟩, fun later hlater => (hbehind later hlater).1, hpair⟩
      · rintro ⟨⟨hroom, hbehind⟩, hbefore, hpair⟩
        exact ⟨hroom, fun later hlater => ⟨hbefore later hlater, (hbehind later hlater).2⟩, hpair⟩

end

section Update

variable {lines : List Text} {path : Text} {chunks : List UpdateFileChunk}
  {mode : ApplyPatchFileUpdateMode}

theorem placements_chunks {lineIndex : Nat} (hbound : lineIndex ≤ lines.length)
    (hnone : (placements lines path mode chunks lineIndex).2 = none) :
    (placements lines path mode chunks lineIndex).1.map chunk = chunks := by
  induction chunks generalizing lineIndex with
  | nil => rfl
  | cons chunk chunks ih =>
    rw [placements] at hnone ⊢
    cases hplace : placeChunk lines path mode chunk lineIndex with
    | error message =>
      rw [hplace] at hnone
      cases hnone
    | ok placement =>
      rw [hplace] at hnone
      obtain ⟨hchunk, hplaced⟩ := placeChunk_placed hbound hplace
      have hrest := ih hplaced.next_le hnone
      rw [map_cons, hrest, hchunk]

/-- The loop has placed every chunk, and its replacements are sorted. -/
theorem computeReplacements_ok {replacements : List Replacement}
    (hok : computeReplacements lines path mode chunks = .ok replacements) :
    (placements lines path mode chunks 0).2 = none ∧
      replacements = ((placements lines path mode chunks 0).1.flatMap
        (Placement.replacements mode)).insertionSort
          (fun first second => first.1 ≤ second.1) := by
  rw [computeReplacements, collectReplacements_eq] at hok
  cases hfailure : (placements lines path mode chunks 0).2 with
  | some message =>
    rw [loopResult_of_failure mode hfailure] at hok
    cases hok
  | none =>
    rw [loopResult_of_success mode hfailure] at hok
    exact ⟨rfl, (Except.ok.inj hok).symm⟩

/-- The chunks as they are placed when line endings are normalised. -/
def lfPlacements (lines : List Text) (path : Text) (chunks : List UpdateFileChunk) :
    List Placement :=
  (placements lines path .normalizeToLf chunks 0).1

/-- In order, the replacements are carried out as they stand. -/
theorem spliced_applyReplacements {edits : List Replacement}
    (hedits : EditsWithin 0 lines.length edits) :
    Spliced id 0 lines edits (applyReplacements lines
      (edits.insertionSort fun first second => first.1 ≤ second.1)) := by
  rw [← Nat.zero_add lines.length] at hedits
  have hspliced : Spliced id 0 lines edits (splice id lines 0 edits) := .of_within hedits
  have hresult : applyReplacements lines edits = splice id lines 0 edits :=
    Spliced.foldr_eq hspliced (Nat.zero_le _)
  rw [insertionSort_of_before hedits.ordered, hresult]
  exact hspliced

/-- The chunks of an update that succeeds replace disjoint ranges in their own
order, and leave the file outside the ranges as it was, exactly if there is room
for each when the loop comes to it. -/
theorem normalised_update_in_order_iff (lines : List Text) (path : Text)
    (chunks : List UpdateFileChunk) {replacements : List Replacement}
    (hok : computeReplacements lines path .normalizeToLf chunks = .ok replacements) :
    (lfPlacements lines path chunks).map Placement.chunk = chunks ∧
      (∀ placement ∈ lfPlacements lines path chunks,
        placement.newSlice = placement.chunk.newLines ∨
          placement.chunk.newLines = placement.newSlice ++ [[]]) ∧
      replacements.Perm ((lfPlacements lines path chunks).map Placement.range) ∧
      ((((lfPlacements lines path chunks).map Placement.range).Pairwise RangeEdit.Before ∧
        Spliced id 0 lines
          ((lfPlacements lines path chunks).map Placement.range)
          (applyReplacements lines replacements)) ↔
        RoomForAll lines 0 false (lfPlacements lines path chunks)) := by
  obtain ⟨hnone, hsorted⟩ := computeReplacements_ok hok
  have hplaced :
      PlacedFrom lines .normalizeToLf 0 (lfPlacements lines path chunks) :=
    placements_placedFrom chunks (Nat.zero_le _)
  rw [funext Placement.replacements_normalizeToLf, ← map_eq_flatMap] at hsorted
  refine ⟨placements_chunks (Nat.zero_le _) hnone, ?_, ?_, ?_⟩
  · intro placement hmem
    obtain ⟨_, h⟩ := hplaced.exists_placed hmem
    by_cases hins : placement.IsInsertion
    · exact .inl (h.insertion hins).2.2
    · rcases (h.found hins).taken with ⟨-, hnew⟩ | ⟨-, -, hnew⟩
      · exact .inl hnew
      · exact hnew
  · rw [hsorted]
    exact perm_insertionSort _ _
  · have hroom := hplaced.roomForAll_iff (Nat.zero_le 0) false
    simp only [Nat.zero_le, Bool.false_eq_true, false_imp_iff, and_self, implies_true,
      true_and] at hroom
    rw [hroom]
    refine ⟨And.left, fun hordered => ⟨hordered, ?_⟩⟩
    rw [hsorted]
    refine spliced_applyReplacements ⟨hordered, fun _ _ => Nat.zero_le _, ?_⟩
    rw [forall_mem_map]
    intro placement hmem
    obtain ⟨_, h⟩ := hplaced.exists_placed hmem
    exact h.stop_le

/-- A line in the middle and the last line. -/
theorem normalised_update_in_order_two :
    ∃ replacements, computeReplacements
        ["a".toList, "b".toList, "c".toList] [] .normalizeToLf
        [⟨none, ["b".toList], ["x".toList], [], false⟩,
          ⟨none, ["c".toList], [], [], true⟩] = .ok replacements ∧
      Spliced id 0 ["a".toList, "b".toList, "c".toList]
        [(1, 1, ["x".toList]), (2, 1, [])]
        (applyReplacements ["a".toList, "b".toList, "c".toList] replacements) := by
  refine ⟨_, rfl, ?_⟩
  have hiff := (normalised_update_in_order_iff
    ["a".toList, "b".toList, "c".toList] []
    [⟨none, ["b".toList], ["x".toList], [], false⟩, ⟨none, ["c".toList], [], [], true⟩] rfl).2.2.2
  exact (hiff.mpr (by decide)).2

/-- Both chunks are found at the same line, and the second one is lost. -/
theorem end_of_file_chunk_overwritten :
    ∃ replacements, computeReplacements ["a".toList] [] .normalizeToLf
        [⟨none, ["a".toList], ["b".toList], [], false⟩,
          ⟨none, ["a".toList], ["c".toList], [], true⟩] = .ok replacements ∧
      ¬ replacements.Pairwise RangeEdit.Before ∧
      applyReplacements ["a".toList] replacements = ["b".toList] :=
  ⟨_, rfl, by decide, rfl⟩

end Update

end Hexa.ApplyPatch
