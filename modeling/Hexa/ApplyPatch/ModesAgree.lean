/-
The two ways to treat line endings, on files whose lines end with a line feed:
both find the chunks at the same places and build the same lines, and differ
only in an empty last line.
-/
import Hexa.ApplyPatch.LineEndings

namespace Hexa.ApplyPatch

open List hiding range
open Placement SourceFile

section Lines

/-- Without an empty piece at the end. -/
def dropEmptyLast (pieces : List Text) : List Text :=
  if pieces.getLast? = some [] then pieces.dropLast else pieces

/-- The lines of a file whose lines end with a line feed. -/
def lfLines (contents : Text) : List Text := dropEmptyLast (contents.splitOn '\n')

theorem dropEmptyLast_cons (piece : Text) {pieces : List Text} (hpieces : pieces ≠ []) :
    dropEmptyLast (piece :: pieces) = piece :: dropEmptyLast pieces := by
  obtain ⟨next, rest, rfl⟩ := exists_cons_of_ne_nil hpieces
  rw [dropEmptyLast, dropEmptyLast, getLast?_cons_cons]
  split <;> rfl

theorem parseLines_texts (current text : Text) (hlf : '\r' ∉ text) :
    (parseLines current text).map (·.text) =
      dropEmptyLast ((text.splitOn '\n').modifyHead (current ++ ·)) := by
  fun_induction parseLines current text with
  | case1 => rfl
  | case2 current hcurrent =>
    have hne : (some current : Option Text) ≠ some [] := fun h => hcurrent (Option.some.inj h)
    simp [dropEmptyLast, hne]
  | case3 current rest ih | case4 current rest _ ih => exact absurd mem_cons_self hlf
  | case5 current rest ih =>
    have hrest := ih (fun h => hlf (mem_cons_of_mem _ h))
    have hid : ((rest.splitOn '\n').modifyHead ([] ++ ·)) =
        rest.splitOn '\n' := congrFun modifyHead_id _
    have hsplit : ('\n' :: rest).splitOn '\n' = [] :: rest.splitOn '\n' := by rfl
    have hne : rest.splitOn '\n' ≠ [] := splitOnP_ne_nil _ _
    rw [hid] at hrest
    rw [map_cons, hrest, hsplit, modifyHead_cons, dropEmptyLast_cons _ hne, append_nil]
  | case6 current char rest hcrlf hcr hnewline ih =>
    have hrest := ih (fun h => hlf (mem_cons_of_mem _ h))
    have hsplit : (char :: rest).splitOn '\n' = (rest.splitOn '\n').modifyHead (char :: ·) := by
      rw [List.splitOn, splitOnP_cons_eq_if_modifyHead, if_neg (by simpa using hnewline)]
      rfl
    rw [hrest, hsplit, modifyHead_modifyHead]
    congr 2
    funext piece
    exact append_assoc current [char] piece

theorem lineTexts_parse {contents : Text} (hlf : '\r' ∉ contents) :
    (parse contents).lineTexts = lfLines contents := by
  rw [lineTexts, parse]
  rw [parseLines_texts [] contents hlf]
  exact congrArg _ (congrFun modifyHead_id _)

theorem parseLines_lf (current text : Text) (hlf : '\r' ∉ text) :
    ∀ line ∈ parseLines current text, line.ending.getD .lf = .lf := by
  fun_induction parseLines current text with
  | case1 => exact forall_mem_nil _
  | case2 current hcurrent => exact forall_mem_singleton.mpr rfl
  | case3 current rest ih | case4 current rest _ ih => exact absurd mem_cons_self hlf
  | case5 current rest ih =>
    exact forall_mem_cons.mpr ⟨rfl, ih (fun h => hlf (mem_cons_of_mem _ h))⟩
  | case6 current char rest _ _ _ ih => exact ih (fun h => hlf (mem_cons_of_mem _ h))

theorem preferredEnding_parse {contents : Text} (hlf : '\r' ∉ contents) :
    (parse contents).preferredEnding = .lf := by
  have hlines := parseLines_lf [] contents hlf
  rw [parse]
  cases hfound : (parseLines [] contents).findSome? (·.ending) with
  | none => rfl
  | some ending =>
    obtain ⟨line, hmem, hending⟩ := exists_of_findSome?_eq_some hfound
    have hline := hlines line hmem
    rw [hending] at hline
    exact hline

/-- The contents of a file in which every line ends with a line feed. -/
theorem intoContents_eq_unlines {lines : List SourceLine}
    (hlines : ∀ line ∈ lines, line.ending = some .lf) :
    (mk lines .lf).intoContents = unlines (lines.map (·.text)) := by
  induction lines with
  | nil => rfl
  | cons line lines ih =>
    obtain ⟨hline, hrest⟩ := forall_mem_cons.mp hlines
    have htail := ih hrest
    rw [intoContents] at htail ⊢
    rw [flatMap_cons, htail, hline, map_cons, unlines_cons, append_assoc]
    rfl

theorem intercalate_eq_unlines (lines : List Text) :
    ['\n'].intercalate
      (if lines.getLast? = some [] then lines else lines ++ [[]]) =
      unlines (dropEmptyLast lines) := by
  rw [dropEmptyLast]
  split
  case isTrue hlast =>
    conv => lhs; rw [getLast?_eq_some_nil hlast]
    rw [intercalate_newline, append_nil]
  · rw [intercalate_newline, append_nil]

end Lines

section SamePlaces

variable {lines pattern : List Text} {path : Text} {start cursor : Nat} {eof : Bool}
  {chunk : UpdateFileChunk}

/-- The end of the file is searched alike unless that means to go back. -/
theorem seekSequence_modes
    (hforward : ∀ index ∈ seekSequence lines pattern start eof .normalizeToLf, start ≤ index) :
    seekSequence lines pattern start eof .preserveLineEndings =
      seekSequence lines pattern start eof .normalizeToLf := by
  cases eof with
  | false => rfl
  | true =>
    by_cases hpattern : pattern = []
    · subst hpattern
      rfl
    · rw [seekSequence_of_ne_nil hpattern] at hforward
      rw [seekSequence_of_ne_nil hpattern, seekSequence_of_ne_nil hpattern]
      by_cases hlength : lines.length < pattern.length
      · rw [if_pos hlength, if_pos hlength]
      · rw [if_neg hlength] at hforward ⊢
        rw [if_neg hlength, searchStart, searchStart]
        rcases Nat.le_total start (lines.length - pattern.length) with hle | hle
        · rw [Nat.max_eq_left hle]
        · rw [Nat.max_eq_right hle]
          rcases Nat.eq_or_lt_of_le hle with heq | hlt
          · rw [heq]
          · rw [searchTiers_eq_none hlt, eq_comm, Option.eq_none_iff_forall_ne_some]
            intro index hfound
            have hstart := hforward index hfound
            have hbound := (searchTiers_bounds hfound).2
            omega

theorem findOldLines_modes
    (hforward : ∀ found ∈ findOldLines lines .normalizeToLf chunk cursor, cursor ≤ found.1) :
    findOldLines lines .preserveLineEndings chunk cursor =
      findOldLines lines .normalizeToLf chunk cursor := by
  rw [findOldLines, findOldLines]
  rw [findOldLines] at hforward
  cases hseek : seekSequence lines chunk.oldLines cursor chunk.isEndOfFile .normalizeToLf with
  | some index =>
    rw [hseek] at hforward
    rw [seekSequence_modes, hseek]
    rw [hseek]
    rintro found ⟨⟩
    exact hforward _ rfl
  | none =>
    rw [hseek] at hforward
    have hdirect : ∀ index ∈ seekSequence lines chunk.oldLines cursor
        chunk.isEndOfFile .normalizeToLf, cursor ≤ index := by
      rw [hseek]
      rintro _ ⟨⟩
    rw [seekSequence_modes hdirect, hseek]
    dsimp only
    split
    case isTrue hlast =>
      rw [if_pos hlast] at hforward
      rw [seekSequence_modes]
      intro index hindex
      exact hforward _ (Option.mem_map_of_mem _ hindex)
    · rfl

variable {lineIndex : Nat}

theorem seekContext_modes (context : Option Text) :
    seekContext lines path .preserveLineEndings lineIndex context =
      seekContext lines path .normalizeToLf lineIndex context := by
  cases context <;> rfl

theorem placeChunk_modes (hforward : ∀ placement,
      placeChunk lines path .normalizeToLf chunk lineIndex = .ok placement →
        ¬ placement.IsInsertion → placement.cursor ≤ placement.start)
    (hinsertion : ∀ placement,
      placeChunk lines path .normalizeToLf chunk lineIndex = .ok placement →
        placement.IsInsertion → lines.getLast? ≠ some []) :
    placeChunk lines path .preserveLineEndings chunk lineIndex =
      placeChunk lines path .normalizeToLf chunk lineIndex := by
  rw [placeChunk] at hforward hinsertion
  rw [placeChunk, placeChunk, seekContext_modes]
  cases hcontext : seekContext lines path .normalizeToLf lineIndex chunk.changeContext with
  | error message => rfl
  | ok cursor =>
    rw [hcontext] at hforward hinsertion
    dsimp only at hforward hinsertion ⊢
    by_cases hold : chunk.oldLines = []
    · rw [if_pos hold] at hinsertion
      rw [if_pos hold, if_pos hold, insertionIndex, insertionIndex]
      rw [if_neg (hinsertion _ rfl hold)]
    · rw [if_neg hold] at hforward
      rw [if_neg hold, if_neg hold, findOldLines_modes]
      rintro ⟨start, pattern, newSlice⟩ hfound
      rw [Option.mem_def.mp hfound] at hforward
      exact hforward _ rfl hold

/-- Both modes place the chunks alike. -/
theorem placements_modes {chunks : List UpdateFileChunk}
    (hforward : ∀ placement ∈ (placements lines path .normalizeToLf chunks lineIndex).1,
      ¬ placement.IsInsertion → placement.cursor ≤ placement.start)
    (hinsertion : ∀ placement ∈ (placements lines path .normalizeToLf chunks lineIndex).1,
      placement.IsInsertion → lines.getLast? ≠ some []) :
    placements lines path .preserveLineEndings chunks lineIndex =
      placements lines path .normalizeToLf chunks lineIndex := by
  induction chunks generalizing lineIndex with
  | nil => rfl
  | cons chunk chunks ih =>
    rw [placements] at hforward hinsertion
    rw [placements, placements]
    cases hplace : placeChunk lines path .normalizeToLf chunk lineIndex with
    | error message =>
      rw [placeChunk_modes, hplace]
      · intro _ hok
        cases hplace.symm.trans hok
      · intro _ hok
        cases hplace.symm.trans hok
    | ok placement =>
      rw [hplace] at hforward hinsertion
      obtain ⟨hhead, htail⟩ := forall_mem_cons.mp hforward
      obtain ⟨hhead', htail'⟩ := forall_mem_cons.mp hinsertion
      have hsame := placeChunk_modes (fun _ hok => Except.ok.inj (hplace.symm.trans hok) ▸ hhead)
        (fun _ hok => Except.ok.inj (hplace.symm.trans hok) ▸ hhead')
      rw [hsame, hplace]
      dsimp only
      rw [ih htail htail']

end SamePlaces

section SameLines

variable {lines : List Text} {placement : Placement}

/-- The context lines of a chunk stand in the file as they are written. -/
def Placement.ContextExact (lines : List Text) (placement : Placement) : Prop :=
  ∀ indices ∈ placement.chunk.contextLineIndices,
    indices.1 < placement.pattern.length →
    indices.2 < placement.newSlice.length →
      lines[placement.start + indices.1]? = placement.newSlice[indices.2]?

instance (placement : Placement) : Decidable (placement.ContextExact lines) :=
  inferInstanceAs (Decidable (∀ indices ∈ _, _))

section

variable {start oldStart newStart : Nat} {pattern newSlice block : List Text}
  {contexts : List (Nat × Nat)}

theorem contextReplacements_rest_spliced (hlength : block.length = pattern.length)
    (hold : oldStart ≤ pattern.length) :
    Spliced id (start + oldStart) (block.drop oldStart)
      (contextReplacements.rest start pattern newSlice oldStart newStart)
      (newSlice.drop newStart) := by
  rw [contextReplacements.rest]
  split
  · apply Spliced.replace_all
    rw [length_drop, hlength]
  case isFalse hsame =>
    simp only [Bool.or_eq_true, decide_eq_true_eq, not_or, Decidable.not_not] at hsame
    obtain ⟨rfl, rfl⟩ := hsame
    rw [← hlength, drop_length, drop_length]
    exact .keep _ _

/-- What stands before a line and what stands behind it. -/
theorem drop_eq_segment {texts : List Text} {first index : Nat} {text : Text}
    (hle : first ≤ index) (htext : texts[index]? = some text) :
    texts.drop first = (texts.take index).drop first ++ text :: texts.drop (index + 1) := by
  obtain ⟨hlt, rfl⟩ := List.getElem?_eq_some_iff.mp htext
  rw [← drop_eq_getElem_cons hlt]
  conv => lhs; rw [← take_append_drop index texts]
  rw [drop_append_of_le_length]
  rw [length_take]
  omega

/-- Context lines as written: the replacements between them make the old lines
the new ones. -/
theorem contextReplacements_spliced (hlength : block.length = pattern.length)
    (hincreasing : contexts.Pairwise fun first second => first.1 < second.1 ∧ first.2 < second.2)
    (hlow : ∀ context ∈ contexts, oldStart ≤ context.1 ∧ newStart ≤ context.2)
    (hexact : ∀ context ∈ contexts, context.1 < pattern.length →
      context.2 < newSlice.length → block[context.1]? = newSlice[context.2]?)
    (hold : oldStart ≤ pattern.length) (hnew : newStart ≤ newSlice.length) :
    Spliced id (start + oldStart) (block.drop oldStart)
      (contextReplacements start pattern newSlice contexts oldStart newStart)
      (newSlice.drop newStart) := by
  induction contexts generalizing oldStart newStart with
  | nil => exact contextReplacements_rest_spliced hlength hold
  | cons context contexts ih =>
    obtain ⟨oldContext, newContext⟩ := context
    obtain ⟨hlater, htail⟩ := pairwise_cons.mp hincreasing
    obtain ⟨hfirst, hlow⟩ := forall_mem_cons.mp hlow
    obtain ⟨hline, hexact⟩ := forall_mem_cons.mp hexact
    rw [contextReplacements]
    split
    · exact contextReplacements_rest_spliced hlength hold
    case isFalse hinside =>
      simp only [Bool.or_eq_true, decide_eq_true_eq, not_or, Nat.not_le] at hinside
      obtain ⟨text, hnewText⟩ : ∃ text, newSlice[newContext]? = some text :=
        ⟨_, getElem?_eq_getElem hinside.2⟩
      have holdText := (hline hinside.1 hinside.2).trans hnewText
      rw [drop_eq_segment hfirst.1 holdText, drop_eq_segment hfirst.2 hnewText]
      have hrest := @ih (oldContext + 1) (newContext + 1) htail hlater hexact hinside.1 hinside.2
      have hsegment : ((block.take oldContext).drop oldStart).length = oldContext - oldStart := by
        rw [length_drop, length_take]
        omega
      refine Spliced.append ?_ ?_
      · split
        · exact .replace_all hsegment
        case isFalse hsame =>
          simp only [Bool.or_eq_true, decide_eq_true_eq, not_or, Decidable.not_not] at hsame
          obtain ⟨rfl, rfl⟩ := hsame
          rw [drop_eq_nil_of_le (length_take_le _ _), drop_eq_nil_of_le (length_take_le _ _)]
          exact .keep _ _
      · rw [hsegment]
        have hindex : start + oldStart + (oldContext - oldStart) = start + oldContext := by omega
        rw [hindex]
        have hkept : Spliced id (start + oldContext + [text].length) _ _ _ := hrest
        exact hkept.kept_append

end

/-- The lines that a placement replaces. -/
def Placement.block (lines : List Text) (placement : Placement) : List Text :=
  (lines.drop placement.start).take placement.pattern.length

variable {lineIndex : Nat} {placed : List Placement} {mode : ApplyPatchFileUpdateMode}

theorem Placed.length_block (hplaced : Placed lines mode lineIndex placement) :
    (placement.block lines).length = placement.pattern.length := by
  have hstop := hplaced.stop_le
  rw [stop] at hstop
  rw [block, length_take, length_drop]
  omega

theorem Placed.range_spliced (hplaced : Placed lines mode lineIndex placement) :
    Spliced id placement.start (placement.block lines) [placement.range] placement.newSlice :=
  .replace_all hplaced.length_block

theorem Placed.replacements_spliced
    (hplaced : Placed lines .preserveLineEndings lineIndex placement)
    (hcontext : placement.chunk.ContextInOrder) (hexact : placement.ContextExact lines) :
    Spliced id placement.start (placement.block lines)
      (placement.replacements .preserveLineEndings) placement.newSlice := by
  by_cases hins : placement.IsInsertion
  · rw [replacements_of_insertion hins]
    exact hplaced.range_spliced
  · rw [replacements_of_found hins]
    refine contextReplacements_spliced hplaced.length_block hcontext.increasing
      (fun _ _ => ⟨Nat.zero_le _, Nat.zero_le _⟩) ?_ (Nat.zero_le _) (Nat.zero_le _)
    intro indices hmem hold hnew
    rw [← hexact indices hmem hold hnew, block, getElem?_take_of_lt hold, getElem?_drop]

/-- A placement before the end of the file. -/
abbrev Placement.Inside (lines : List Text) (placement : Placement) : Prop :=
  placement.start < lines.length

theorem Placed.not_insertion (hplaced : Placed lines .preserveLineEndings lineIndex placement)
    (hinside : placement.Inside lines) : ¬ placement.IsInsertion := by
  intro hins
  rw [Placement.Inside, (hplaced.insertion hins).1] at hinside
  exact Nat.lt_irrefl _ hinside

theorem Placed.at_end (hplaced : Placed lines mode lineIndex placement)
    (hnot : ¬ placement.Inside lines) :
    placement.start = lines.length ∧ placement.pattern = [] := by
  have hstop := hplaced.stop_le
  rw [stop] at hstop
  exact ⟨by omega, eq_nil_of_length_eq_zero (by omega)⟩

/-- Edits of its own for each placement: in its range, or at the end of the
file. -/
structure OwnEdits (lines : List Text) (own : Placement → List Replacement)
    (placed : List Placement) : Prop where
  inside : ∀ placement ∈ placed, placement.Inside lines →
    EditsWithin placement.start placement.stop (own placement)
  atEnd : ∀ placement ∈ placed, ¬ placement.Inside lines →
    own placement = [] ∨ ∃ new, own placement = [(lines.length, 0, new)]
  afterInsertion : placed.Pairwise fun earlier later =>
    earlier.IsInsertion → later.Inside lines → ∀ edit ∈ own later, edit.1 < lines.length

variable {own : Placement → List Replacement}

theorem OwnEdits.of_cons (hown : OwnEdits lines own (placement :: placed)) :
    OwnEdits lines own placed :=
  ⟨(forall_mem_cons.mp hown.inside).2,
    (forall_mem_cons.mp hown.atEnd).2,
    (pairwise_cons.mp hown.afterInsertion).2⟩

theorem OwnEdits.eq_end (hown : OwnEdits lines own placed) (hmem : placement ∈ placed)
    (hnot : ¬ placement.Inside lines) : ∀ edit ∈ own placement, edit.1 = lines.length := by
  rcases hown.atEnd placement hmem hnot with hnone | ⟨new, hone⟩
  · rw [hnone]
    exact forall_mem_nil _
  · rw [hone]
    exact forall_mem_singleton.mpr rfl

/-- The lines of the file after all placements. -/
def updatedLines (lines : List Text) (placed : List Placement) : List Text :=
  splice id lines 0 ((placed.filter (·.Inside lines)).map Placement.range) ++
    (placed.filter (¬ ·.Inside lines)).flatMap Placement.newSlice

theorem spliced_at_end
    (hown : ∀ placement ∈ placed, Spliced id lines.length [] (own placement) placement.newSlice) :
    Spliced id lines.length [] (placed.flatMap own) (placed.flatMap newSlice) := by
  induction placed with
  | nil => exact .keep _ _
  | cons placement placed ih =>
    obtain ⟨hhead, htail⟩ := forall_mem_cons.mp hown
    exact hhead.append (ih htail)

theorem contextReplacements_nil (start : Nat) (newSlice : List Text)
    (contexts : List (Nat × Nat)) :
    contextReplacements start [] newSlice contexts 0 0 = [] ∨
      contextReplacements start [] newSlice contexts 0 0 = [(start, 0, newSlice)] := by
  have hrest : contextReplacements start [] newSlice contexts 0 0 =
      contextReplacements.rest start [] newSlice 0 0 := by
    cases contexts with
    | nil => rfl
    | cons context contexts => exact if_pos rfl
  rw [hrest, contextReplacements.rest]
  split
  · exact .inr rfl
  · exact .inl rfl

section PlacedFrom

variable (hplaced : PlacedFrom lines .preserveLineEndings lineIndex placed)
include hplaced

/-- The ranges before the end of the file are in order. -/
theorem PlacedFrom.inside_within : EditsWithin 0 lines.length
      ((placed.filter (·.Inside lines)).map range) := by
  refine ⟨?_, fun _ _ => Nat.zero_le _, ?_⟩
  · rw [pairwise_map]
    have hcursor := (List.Pairwise.and_mem.mp hplaced.stop_le_cursor).filter (·.Inside lines)
    refine (List.Pairwise.and_mem.mp hcursor).imp ?_
    rintro earlier later ⟨hearlier', hlater', hearlier, hlater, hle⟩
    obtain ⟨_, hfirst⟩ := hplaced.exists_placed hearlier
    obtain ⟨_, hsecond⟩ := hplaced.exists_placed hlater
    have hinside := of_decide_eq_true (mem_filter.mp hearlier').2
    have hinside' := of_decide_eq_true (mem_filter.mp hlater').2
    exact (hle (hfirst.not_insertion hinside)).trans
      (hsecond.cursor_le_start (hsecond.not_insertion hinside'))
  · rw [forall_mem_map]
    intro placement hmem
    obtain ⟨_, h⟩ := hplaced.exists_placed (mem_filter.mp hmem).1
    exact h.stop_le

section

variable (hown : OwnEdits lines own placed)
include hown

theorem OwnEdits.low_le (hbound : lineIndex ≤ lines.length) :
    ∀ edit ∈ placed.flatMap own, lineIndex ≤ edit.1 := by
  intro edit hmem
  obtain ⟨placement, hplacement, hedit⟩ := mem_flatMap.mp hmem
  obtain ⟨_, h⟩ := hplaced.exists_placed hplacement
  by_cases hinside : placement.Inside lines
  · have hlow := (hown.inside placement hplacement hinside).low_le edit hedit
    have hcursor := h.cursor_le_start (h.not_insertion hinside)
    have hle := hplaced.le_cursor hplacement
    omega
  · rw [hown.eq_end hplacement hinside edit hedit]
    exact hbound

/-- Sorting moves what is inserted at the end behind all the rest. -/
theorem OwnEdits.insertionSort_flatMap :
    (placed.flatMap own).insertionSort (fun first second => first.1 ≤ second.1) =
      (placed.filter (·.Inside lines)).flatMap own ++
        (placed.filter (¬ ·.Inside lines)).flatMap own := by
  induction hplaced with
  | nil => rfl
  | @cons lineIndex placement rest hhead hrest ih =>
    have htail := ih hown.of_cons
    have hlater := hown.of_cons.low_le hrest hhead.next_le
    rw [flatMap_cons]
    by_cases hinside : placement.Inside lines
    · have hins := hhead.not_insertion hinside
      have hwithin := hown.inside placement mem_cons_self hinside
      rw [next_of_found hins] at hlater
      rw [filter_cons_of_pos (by simpa using hinside),
        filter_cons_of_neg (by simpa using hinside), flatMap_cons, append_assoc, ← htail]
      apply insertionSort_append_of_le hwithin.ordered
      intro edit hedit later hmem
      have hhigh := hwithin.le_high edit hedit
      have hlow := hlater later hmem
      omega
    · rw [filter_cons_of_neg (by simpa using hinside),
        filter_cons_of_pos (by simpa using hinside), flatMap_cons]
      rcases hown.atEnd placement mem_cons_self hinside with
        hnone | ⟨new, hone⟩
      · rw [hnone, nil_append, nil_append, htail]
      · rw [hone, singleton_append, insertionSort_cons, htail]
        apply orderedInsert_between
        · intro edit hmem
          obtain ⟨later, hlater', hedit⟩ := mem_flatMap.mp hmem
          obtain ⟨hmem', hinside'⟩ := mem_filter.mp hlater'
          have hinside' := of_decide_eq_true hinside'
          by_cases hins : placement.IsInsertion
          · exact (pairwise_cons.mp hown.afterInsertion).1 later hmem' hins hinside' edit hedit
          · -- The cursor is at the end, so nothing is found before it.
            obtain ⟨_, h⟩ := hrest.exists_placed hmem'
            have hle := hrest.le_cursor hmem'
            have hcursor := h.cursor_le_start (h.not_insertion hinside')
            rw [next_of_found hins, stop] at hle
            omega
        · intro edit hmem
          obtain ⟨later, hlater', hedit⟩ := mem_flatMap.mp hmem
          obtain ⟨hmem', hinside'⟩ := mem_filter.mp hlater'
          exact (hown.eq_end (mem_cons_of_mem _ hmem') (of_decide_eq_true hinside') edit hedit).ge

/-- However each placement edits its own lines, the file becomes the same. -/
theorem OwnEdits.spliced (heffect : ∀ placement ∈ placed, Spliced id
    placement.start (placement.block lines) (own placement) placement.newSlice)
    :
    Spliced id 0 lines
      ((placed.flatMap own).insertionSort (fun first second => first.1 ≤ second.1))
      (updatedLines lines placed) := by
  rw [hown.insertionSort_flatMap hplaced]
  have hinside : Spliced id 0 (lines.drop 0) _ _ :=
    Spliced.flatMap_of_ranges hplaced.inside_within
      (fun placement hmem => heffect placement (mem_filter.mp hmem).1)
  have hend := @spliced_at_end lines
    (placed.filter (¬ ·.Inside lines)) own (by
      intro placement hmem
      obtain ⟨hmem, hnot⟩ := mem_filter.mp hmem
      obtain ⟨_, h⟩ := hplaced.exists_placed hmem
      have heffect := heffect placement hmem
      rw [block, (h.at_end (of_decide_eq_true hnot)).1, drop_length, take_nil] at heffect
      exact heffect)
  have hwhole := hinside.append (by rwa [Nat.zero_add])
  rwa [append_nil] at hwhole

end

theorem PlacedFrom.ownEdits_range :
    OwnEdits lines (fun placement => [placement.range]) placed := by
  refine ⟨fun placement _ _ => ?_, fun placement hmem hnot => ?_, ?_⟩
  · exact .singleton (Nat.le_refl _) (Nat.le_refl _)
  · obtain ⟨_, h⟩ := hplaced.exists_placed hmem
    obtain ⟨hstart, hpattern⟩ := h.at_end hnot
    exact .inr ⟨placement.newSlice, by rw [range, hstart, hpattern]; rfl⟩
  · apply pairwise_of_forall
    intro earlier later _ hinside
    rw [forall_mem_singleton]
    exact hinside

theorem PlacedFrom.ownEdits_replacements
    (hcontext : ∀ placement ∈ placed, placement.chunk.ContextInOrder)
    (happended : placed.Pairwise fun earlier later => earlier.IsInsertion → later.Inside lines →
        ∀ edit ∈ later.replacements .preserveLineEndings, edit.1 < lines.length) :
    OwnEdits lines (replacements .preserveLineEndings) placed := by
  refine ⟨fun placement hmem hinside => ?_, fun placement hmem hnot => ?_, happended⟩
  · obtain ⟨_, h⟩ := hplaced.exists_placed hmem
    exact replacements_within (h.not_insertion hinside) (hcontext placement hmem)
  · by_cases hins : placement.IsInsertion
    · rw [replacements_of_insertion hins]
      exact hplaced.ownEdits_range.atEnd placement hmem hnot
    · obtain ⟨_, h⟩ := hplaced.exists_placed hmem
      obtain ⟨hstart, hpattern⟩ := h.at_end hnot
      rw [replacements_of_found hins]
      rw [hpattern, hstart]
      exact (contextReplacements_nil _ _ _).imp_right fun h => ⟨_, h⟩

end PlacedFrom

end SameLines

section Agreement

/-- What the two modes treat alike, for the chunks of an update as they are
placed. -/
structure TreatedAlike (lines : List Text) (placed : List Placement) :
    Prop where
  /-- No chunk is found before the line at which the search for it begins. -/
  forward : ∀ placement ∈ placed, ¬ placement.IsInsertion → placement.cursor ≤ placement.start
  /-- Nothing is inserted at the end of a file with an empty last line. -/
  insertion : ∀ placement ∈ placed, placement.IsInsertion → lines.getLast? ≠ some []
  /-- Context lines stand in the file as they are written. -/
  context : ∀ placement ∈ placed, placement.ContextExact lines
  /-- After an insertion no chunk adds lines behind the last line. -/
  appended : placed.Pairwise fun earlier later =>
    earlier.IsInsertion → later.Inside lines →
      ∀ edit ∈ later.replacements .preserveLineEndings, edit.1 < lines.length

variable {lines : List Text} {path : Text} {chunks : List UpdateFileChunk}
  {placed : List Placement}

theorem newContents_normalizeToLf (contents : Text) :
    newContents .normalizeToLf path contents chunks =
      (computeReplacements (lfLines contents) path .normalizeToLf chunks).map
        (fun replacements => unlines (dropEmptyLast
          (applyReplacements (lfLines contents) replacements))) := by
  exact congrArg (Except.map · _) (funext fun replacements => intercalate_eq_unlines _)

theorem newContents_preserveLineEndings {contents : Text} (hlf : '\r' ∉ contents) :
    newContents .preserveLineEndings path contents chunks =
      (computeReplacements (lfLines contents) path .preserveLineEndings
        chunks).map
        (fun replacements => unlines (splice id (lfLines contents) 0 replacements)) := by
  rw [← lineTexts_parse hlf]
  refine congrArg (Except.map · _) (funext fun replacements => ?_)
  have hlines : ∀ line ∈
      ((parse contents).applyReplacements replacements).lines,
      line.ending = some .lf := by
    rw [SourceFile.applyReplacements, SourceFile.replaceLines_eq_splice,
      preferredEnding_parse hlf]
    refine forall_mem_map.mpr fun line hmem => congrArg some ?_
    exact forall_mem_splice (parseLines_lf [] contents hlf) (fun _ => rfl) _ _ line hmem
  have hcontents := intoContents_eq_unlines hlines
  refine hcontents.trans (congrArg unlines ?_)
  rw [SourceFile.applyReplacements, SourceFile.replaceLines_eq_splice, map_map]
  exact map_splice _ _ _ _ _

section

variable (hplaced : PlacedFrom lines .preserveLineEndings 0 placed)
include hplaced

theorem applyReplacements_eq_updatedLines :
    applyReplacements lines
      ((placed.flatMap (replacements .normalizeToLf)).insertionSort
        (fun first second => first.1 ≤ second.1)) =
      updatedLines lines placed := by
  have hspliced := hplaced.ownEdits_range.spliced hplaced
    (fun placement hmem => by
      obtain ⟨_, h⟩ := hplaced.exists_placed hmem
      exact h.range_spliced)
  rw [funext replacements_normalizeToLf]
  exact Spliced.foldr_eq hspliced (Nat.zero_le _)

end

/-- On a file without carriage returns both modes fail, or both succeed with
the same lines, of which the one that normalises drops an empty last one; as
long as the chunks are treated alike. -/
theorem modes_agree_on_lf_files (contents path : Text) {chunks : List UpdateFileChunk}
    (hlf : '\r' ∉ contents) (hparsed : ∀ chunk ∈ chunks, chunk.Parsed)
    (halike : TreatedAlike (lfLines contents) (lfPlacements (lfLines contents) path chunks)) :
    (∃ message, newContents .normalizeToLf path contents chunks = .error message ∧
        newContents .preserveLineEndings path contents chunks = .error message) ∨
    ∃ lines : List Text,
      newContents .preserveLineEndings path contents chunks = .ok (unlines lines) ∧
      newContents .normalizeToLf path contents chunks = .ok (unlines (dropEmptyLast lines)) := by
  have hsame : placements (lfLines contents) path .preserveLineEndings chunks
      0 = placements (lfLines contents) path .normalizeToLf chunks 0 :=
    placements_modes halike.forward halike.insertion
  have hplaced : PlacedFrom (lfLines contents) .preserveLineEndings 0
      (lfPlacements (lfLines contents) path chunks) := by
    rw [lfPlacements, ← hsame]
    exact placements_placedFrom chunks (Nat.zero_le _)
  rw [newContents_normalizeToLf, newContents_preserveLineEndings hlf, computeReplacements,
    computeReplacements, collectReplacements_eq, collectReplacements_eq, hsame]
  cases hfailure : (placements (lfLines contents) path .normalizeToLf chunks 0).2 with
  | some message =>
    left
    exact ⟨message, by rw [loopResult_of_failure _ hfailure]; rfl,
      by rw [loopResult_of_failure _ hfailure]; rfl⟩
  | none =>
    right
    have hcontext : ∀ placement ∈
        lfPlacements (lfLines contents) path chunks,
        placement.chunk.ContextInOrder := by
      intro placement hmem
      apply UpdateFileChunk.Parsed.contextInOrder
      apply hparsed
      rw [← placements_chunks (Nat.zero_le _) hfailure]
      exact mem_map_of_mem hmem
    rw [loopResult_of_success _ hfailure, loopResult_of_success _ hfailure]
    refine ⟨updatedLines (lfLines contents) (lfPlacements (lfLines contents) path chunks), ?_, ?_⟩
    · have hown := hplaced.ownEdits_replacements hcontext halike.appended
      refine congrArg (fun lines => Except.ok (unlines lines))
        (hown.spliced hplaced fun placement hmem => ?_).splice_eq
      obtain ⟨_, h⟩ := hplaced.exists_placed hmem
      exact h.replacements_spliced (hcontext placement hmem) (halike.context placement hmem)
    · exact congrArg (fun lines => Except.ok (unlines (dropEmptyLast lines)))
        (applyReplacements_eq_updatedLines hplaced)

/-- A line behind a context line is replaced. -/
theorem modes_agree_on_lf_files_two :
    ∃ lines : List Text, newContents .preserveLineEndings [] "a\nb\n".toList
        [⟨none, ["a".toList, "b".toList], ["a".toList, "c".toList], [(0, 0)],
          false⟩] = .ok (unlines lines) ∧
      newContents .normalizeToLf [] "a\nb\n".toList
        [⟨none, ["a".toList, "b".toList], ["a".toList, "c".toList], [(0, 0)],
          false⟩] = .ok (unlines (dropEmptyLast lines)) := by
  have hchunk : UpdateFileChunk.Parsed
      ⟨none, ["a".toList, "b".toList], ["a".toList, "c".toList], [(0, 0)], false⟩ :=
    ⟨("*** Begin Patch\n*** Update File: f\n@@\n a\n-b\n+c\n" ++
      "*** End Patch").toList, .strict, _, _, _, _, rfl,
      mem_cons_self, mem_cons_self⟩
  obtain ⟨message, herror, -⟩ | hlines := modes_agree_on_lf_files "a\nb\n".toList [] (by decide)
      (forall_mem_singleton.mpr hchunk)
      ⟨by decide, by decide, by decide, by decide⟩
  · exact nomatch herror
  · exact hlines

/-- The new contents in the mode that normalises and in the one that does
not. -/
def contentsInModes (contents : String) (chunks : List UpdateFileChunk) :
    Except Text Text × Except Text Text :=
  (newContents .normalizeToLf [] contents.toList chunks,
    newContents .preserveLineEndings [] contents.toList chunks)

/-- Of two line feeds at the end, normalising leaves one.  Each of the other
inputs breaks one condition: a chunk at the end of the file is found before the
line at which its search begins, lines are inserted behind an empty last line,
a context line has a space at its end, and lines are added behind the last line
after an insertion. -/
theorem modes_differ_in_empty_last_line :
    contentsInModes "a\n\n" [⟨none, ["a".toList], ["b".toList], [], false⟩] =
        (.ok "b\n".toList, .ok "b\n\n".toList) ∧
      contentsInModes "a\nb\n" [⟨none, ["b".toList], ["c".toList], [], false⟩,
          ⟨none, ["b".toList], ["d".toList], [], true⟩] =
        (.ok "a\nc\n".toList, .error "Failed to find expected lines in :\nb".toList) ∧
      contentsInModes "a\n\n" [⟨none, [], ["b".toList], [], false⟩] =
        (.ok "a\nb\n".toList, .ok "a\n\nb\n".toList) ∧
      contentsInModes "a \nb\n"
          [⟨none, ["a".toList, "b".toList], ["a".toList, "c".toList], [(0, 0)], false⟩] =
        (.ok "a\nc\n".toList, .ok "a \nc\n".toList) ∧
      contentsInModes "a\n" [⟨none, [], ["x".toList], [], false⟩,
          ⟨none, ["a".toList], ["a".toList, "y".toList], [(0, 0)], false⟩] =
        (.ok "a\ny\nx\n".toList, .ok "a\nx\ny\n".toList) :=
  ⟨rfl, rfl, rfl, rfl, rfl⟩

end Agreement

end Hexa.ApplyPatch
