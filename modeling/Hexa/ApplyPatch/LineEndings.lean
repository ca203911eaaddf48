/-
Updates that preserve line endings: the replacements lie in the file in order,
and every line outside them keeps its text and its ending.
-/
import Hexa.ApplyPatch.ChunkOrder
import Hexa.ApplyPatch.ParsedChunks

namespace Hexa.ApplyPatch

open List hiding range
open Placement

section

variable {start oldStart newStart : Nat} {pattern newSlice : List Text}
  {contexts : List (Nat × Nat)}

theorem contextReplacements_rest_within (hold : oldStart ≤ pattern.length) :
    EditsWithin (start + oldStart) (start + pattern.length)
      (contextReplacements.rest start pattern newSlice oldStart newStart) := by
  rw [contextReplacements.rest]
  split
  · exact .singleton (Nat.le_refl _) (by dsimp only; omega)
  · exact .nil

theorem contextReplacements_within
    (hincreasing : contexts.Pairwise fun first second => first.1 < second.1 ∧ first.2 < second.2)
    (hlow : ∀ context ∈ contexts, oldStart ≤ context.1) (hold : oldStart ≤ pattern.length) :
    EditsWithin (start + oldStart) (start + pattern.length)
      (contextReplacements start pattern newSlice contexts oldStart newStart) := by
  induction contexts generalizing oldStart newStart with
  | nil => exact contextReplacements_rest_within hold
  | cons context contexts ih =>
    obtain ⟨oldContext, newContext⟩ := context
    obtain ⟨hlater, htail⟩ := pairwise_cons.mp hincreasing
    have hle : oldStart ≤ oldContext := hlow _ mem_cons_self
    rw [contextReplacements]
    split
    · exact contextReplacements_rest_within hold
    case isFalse hinside =>
      have hinside : oldContext < pattern.length := by
        simp only [Bool.or_eq_true, decide_eq_true_eq] at hinside
        omega
      have hrest := @ih (oldContext + 1) (newContext + 1) htail
        (fun later hmem => (hlater later hmem).1) hinside
      have hmid : start + oldContext ≤ start + (oldContext + 1) := by omega
      refine EditsWithin.append ?_ (hrest.mono hmid) (by omega) (by omega)
      split
      · exact .singleton (Nat.le_refl _) (by dsimp only; omega)
      · exact .nil

end

section Preserving

variable {lines : List Text} {lineIndex : Nat} {placement : Placement} {placed : List Placement}

/-- The search never goes back. -/
theorem Placed.cursor_le_start (hplaced : Placed lines .preserveLineEndings lineIndex placement)
    (hins : ¬ placement.IsInsertion) : placement.cursor ≤ placement.start :=
  seekSequence_forward (.inr rfl) (hplaced.found hins).seek

/-- Between its context lines a chunk replaces parts of its old lines. -/
theorem Placement.replacements_within (hins : ¬ placement.IsInsertion)
    (hcontext : placement.chunk.ContextInOrder) :
    EditsWithin placement.start placement.stop (placement.replacements .preserveLineEndings) := by
  rw [replacements_of_found hins]
  exact contextReplacements_within hcontext.increasing (fun _ _ => Nat.zero_le _) (Nat.zero_le _)

theorem PlacedFrom.replacements_bounds
    (hplaced : PlacedFrom lines .preserveLineEndings lineIndex placed)
    (hbound : lineIndex ≤ lines.length)
    (hcontext : ∀ placement ∈ placed, placement.chunk.ContextInOrder) :
    ∀ edit ∈ placed.flatMap (replacements .preserveLineEndings),
      lineIndex ≤ edit.1 ∧ edit.1 + edit.2.1 ≤ lines.length := by
  induction hplaced with
  | nil => exact forall_mem_nil _
  | @cons lineIndex placement rest hhead hrest ih =>
    obtain ⟨hchunk, htail⟩ := forall_mem_cons.mp hcontext
    refine forall_mem_append.mpr ⟨?_, ?_⟩
    · by_cases hins : placement.IsInsertion
      · obtain ⟨hstart, hpattern, -⟩ := hhead.insertion hins
        rw [replacements_of_insertion hins, forall_mem_singleton, range, hpattern, hstart]
        exact ⟨hbound, Nat.le_refl _⟩
      · have hown := replacements_within hins hchunk
        have hcursor := hhead.cursor_le_start hins
        have hle := hhead.le_cursor
        have hstop := hhead.stop_le
        intro edit hmem
        have hlow := hown.low_le edit hmem
        have hhigh := hown.le_high edit hmem
        omega
    · intro edit hmem
      obtain ⟨hlow, hhigh⟩ := ih hhead.next_le htail edit hmem
      exact ⟨hhead.le_next.trans hlow, hhigh⟩

/-- The replacements are apart; only those of insertions are not in order. -/
theorem PlacedFrom.replacements_apart
    (hplaced : PlacedFrom lines .preserveLineEndings lineIndex placed)
    (hcontext : ∀ placement ∈ placed, placement.chunk.ContextInOrder) :
    (placed.flatMap (replacements .preserveLineEndings)).Pairwise RangeEdit.Apart := by
  induction hplaced with
  | nil => exact .nil
  | @cons lineIndex placement rest hhead hrest ih =>
    obtain ⟨hchunk, htail⟩ := forall_mem_cons.mp hcontext
    have hlater := hrest.replacements_bounds hhead.next_le htail
    rw [flatMap_cons]
    by_cases hins : placement.IsInsertion
    · obtain ⟨hstart, hpattern, -⟩ := hhead.insertion hins
      rw [replacements_of_insertion hins]
      refine pairwise_cons.mpr ⟨?_, ih htail⟩
      intro edit hmem
      refine .inr ⟨congrArg List.length hpattern, ?_⟩
      rw [range, hstart]
      exact (hlater edit hmem).2
    · have hown := replacements_within hins hchunk
      refine pairwise_append.mpr ⟨hown.ordered.imp fun h => .inl h, ih htail, ?_⟩
      intro first hfirst second hsecond
      have hlow := (hlater second hsecond).1
      rw [next_of_found hins] at hlow
      exact .inl ((hown.le_high first hfirst).trans hlow)

theorem computeReplacements_within {path : Text} {chunks : List UpdateFileChunk}
    {replacements : List Replacement} (hcontext : ∀ chunk ∈ chunks, chunk.ContextInOrder)
    (hok : computeReplacements lines path .preserveLineEndings chunks = .ok replacements) :
    EditsWithin 0 lines.length replacements := by
  obtain ⟨hnone, hsorted⟩ := computeReplacements_ok hok
  have hplaced : PlacedFrom lines .preserveLineEndings 0
      (placements lines path .preserveLineEndings chunks 0).1 :=
    placements_placedFrom chunks (Nat.zero_le _)
  have hcontext' : ∀ placement ∈
      (placements lines path .preserveLineEndings chunks 0).1,
      placement.chunk.ContextInOrder := by
    intro placement hmem
    apply hcontext
    rw [← placements_chunks (Nat.zero_le _) hnone]
    exact mem_map_of_mem hmem
  subst hsorted
  refine ⟨pairwise_before_insertionSort (hplaced.replacements_apart hcontext'),
    fun _ _ => Nat.zero_le _, fun edit hmem => ?_⟩
  exact (hplaced.replacements_bounds (Nat.zero_le _) hcontext' edit
    ((mem_insertionSort _).mp hmem)).2

end Preserving

namespace SourceFile

/-- The lines of the file, with the preferred ending for a last line that has
none. -/
def withFinalEnding (file : SourceFile) : List SourceLine :=
  match file.lines.getLast? with
  | some ⟨text, none⟩ => file.lines.dropLast ++ [⟨text, some file.preferredEnding⟩]
  | _ => file.lines

/-- Only the last line may have no ending. -/
theorem parseLines_ending (current text : Text) :
    ∀ line ∈ (parseLines current text).dropLast, line.ending.isSome := by
  fun_induction parseLines current text with
  | case1 | case2 => exact forall_mem_nil _
  | case3 current rest ih | case4 current rest _ ih | case5 current rest ih =>
    revert ih
    cases parseLines [] rest with
    | nil => exact fun _ => forall_mem_nil _
    | cons next others => exact fun ih => forall_mem_cons.mpr ⟨rfl, ih⟩
  | case6 current char rest _ _ _ ih => exact ih

/-- A line with an ending, its own if it has one. -/
def terminate (preferred : LineEnding) (line : SourceLine) : SourceLine :=
  { line with ending := some (line.ending.getD preferred) }

theorem terminate_of_isSome {preferred : LineEnding} {line : SourceLine}
    (hline : line.ending.isSome) : terminate preferred line = line := by
  obtain ⟨text, _ | ending⟩ := line
  · cases hline
  · rfl

theorem map_terminate {file : SourceFile}
    (hending : ∀ line ∈ file.lines.dropLast, line.ending.isSome) :
    file.lines.map (terminate file.preferredEnding) = file.withFinalEnding := by
  obtain ⟨lines, preferred⟩ := file
  rcases eq_nil_or_concat lines with rfl | ⟨front, last, rfl⟩
  · rfl
  · rw [concat_eq_append, dropLast_concat] at hending
    have hfront : front.map (terminate preferred) = front := by
      conv => rhs; rw [← map_id front]
      exact map_congr_left fun line hmem => terminate_of_isSome (hending line hmem)
    obtain ⟨text, ending⟩ := last
    rw [withFinalEnding]
    rw [concat_eq_append, getLast?_concat, dropLast_concat, map_append, hfront]
    cases ending with
  | none | some ending => rfl

theorem replaceLines_eq_splice (preferred : LineEnding) (source : List SourceLine) (index : Nat)
    (edits : List Replacement) :
    replaceLines preferred source index edits =
      splice (fun text => ⟨text, some preferred⟩) source index edits := by
  induction edits generalizing source index with
  | nil => rfl
  | cons edit edits ih => rw [replaceLines, splice, ih]

/-- In order, the replacements are all that changes, apart from the ending of
the last line. -/
theorem spliced_applyReplacements {file : SourceFile} {edits : List Replacement}
    (hending : ∀ line ∈ file.lines.dropLast, line.ending.isSome)
    (hedits : EditsWithin 0 file.lines.length edits) :
    Spliced (fun text => ⟨text, some file.preferredEnding⟩) 0
      file.withFinalEnding edits (file.applyReplacements edits).lines := by
  rw [← Nat.zero_add file.lines.length] at hedits
  have hspliced : Spliced
      (fun text => SourceLine.mk text (some file.preferredEnding)) 0
      file.lines edits _ := .of_within hedits
  have hmapped := hspliced.map (terminate file.preferredEnding)
  rw [map_terminate hending] at hmapped
  rw [applyReplacements, replaceLines_eq_splice]
  exact hmapped

end SourceFile

/-- An update that succeeds replaces ranges of lines that lie in the file in
order; all other lines keep their text and their ending, except that a last
line without ending gets the preferred one. -/
theorem preserving_update_replaces (contents path : Text)
    {chunks : List UpdateFileChunk} {replacements : List Replacement}
    (hparsed : ∀ chunk ∈ chunks, chunk.Parsed)
    (hok : computeReplacements (SourceFile.parse contents).lineTexts path
      .preserveLineEndings chunks = .ok replacements) :
    EditsWithin 0 (SourceFile.parse contents).lines.length replacements ∧
      ∃ lines : List SourceLine, Spliced
          (fun text => ⟨text, some (SourceFile.parse contents).preferredEnding⟩)
          0 (SourceFile.parse contents).withFinalEnding replacements lines ∧
        newContents .preserveLineEndings path contents chunks =
          .ok (SourceFile.mk lines (SourceFile.parse contents).preferredEnding).intoContents := by
  have hwithin := computeReplacements_within
    (fun chunk hmem => (hparsed chunk hmem).contextInOrder) hok
  rw [SourceFile.lineTexts, length_map] at hwithin
  have hending : ∀ line ∈ (SourceFile.parse contents).lines.dropLast,
      line.ending.isSome := SourceFile.parseLines_ending [] contents
  refine ⟨hwithin, _, SourceFile.spliced_applyReplacements hending hwithin, ?_⟩
  rw [newContents, hok]
  rfl

/-- A line is replaced in a file with endings of both kinds, and the last line
gets one. -/
theorem preserving_update_replaces_middle :
    ∃ replacements lines, Spliced (fun text => ⟨text, some .crLf⟩) 0
        (SourceFile.parse "a\r\nb\nc".toList).withFinalEnding replacements
        lines ∧
      newContents .preserveLineEndings [] "a\r\nb\nc".toList
        [⟨none, ["b".toList], ["x".toList], [], false⟩] =
          .ok (SourceFile.mk lines .crLf).intoContents := by
  have hchunk : UpdateFileChunk.Parsed ⟨none, ["b".toList], ["x".toList], [], false⟩ :=
    ⟨("*** Begin Patch\n*** Update File: f\n@@\n-b\n+x\n" ++
      "*** End Patch").toList, .strict, _, _, _, _, rfl,
      mem_cons_self, mem_cons_self⟩
  obtain ⟨-, lines, hlines⟩ := preserving_update_replaces
    "a\r\nb\nc".toList [] (forall_mem_singleton.mpr hchunk) rfl
  exact ⟨_, lines, hlines⟩

/-- The last line is kept and nothing is put behind it, and it still gets an
ending. -/
theorem unterminated_line_gains_ending :
    computeReplacements (SourceFile.parse "a\nb".toList).lineTexts []
        .preserveLineEndings [⟨none, ["a".toList], ["x".toList], [], false⟩] =
      .ok [(0, 1, ["x".toList])] ∧
    newContents .preserveLineEndings [] "a\nb".toList
        [⟨none, ["a".toList], ["x".toList], [], false⟩] =
      .ok "x\nb\n".toList :=
  ⟨rfl, rfl⟩

end Hexa.ApplyPatch
