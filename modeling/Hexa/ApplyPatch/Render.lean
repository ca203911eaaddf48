/-
The patch format as a text: how hunks are written down in the documented
grammar, and that the parser reads back what was written.
-/
import Hexa.ApplyPatch.Parser

namespace Hexa.ApplyPatch

open List

/-- A line of a change. -/
inductive ChangeLine where
  | context (text : Text)
  | added (text : Text)
  | removed (text : Text)
  deriving Repr, DecidableEq

def ChangeLine.render : ChangeLine → Text
  | .context text => ' ' :: text
  | .added text => '+' :: text
  | .removed text => '-' :: text

def ChangeLine.text : ChangeLine → Text
  | .context text => text
  | .added text => text
  | .removed text => text

/-- The lines of a change from their two sides, each context line at the place
that its indices give. -/
def changeLines : List (Nat × Nat) → Nat → Nat → List Text → List Text → List ChangeLine
  | [], _, _, old, new => old.map .removed ++ new.map .added
  | (oldIndex, newIndex) :: indices, oldCount, newCount, old, new =>
    (old.take (oldIndex - oldCount)).map .removed ++
      (new.take (newIndex - newCount)).map .added ++
      .context ((old.drop (oldIndex - oldCount)).headD []) ::
        changeLines indices (oldIndex + 1) (newIndex + 1)
          (old.drop (oldIndex - oldCount + 1))
          (new.drop (newIndex - newCount + 1))

namespace UpdateFileChunk

variable (chunk : UpdateFileChunk)

def contextMarker : Text :=
  match chunk.changeContext with
  | none => emptyChangeContextMarker
  | some context => changeContextMarker ++ context

def changes : List ChangeLine :=
  changeLines chunk.contextLineIndices 0 0 chunk.oldLines chunk.newLines

def render : List Text :=
  chunk.contextMarker :: chunk.changes.map ChangeLine.render ++
    if chunk.isEndOfFile then [eofMarker] else []

end UpdateFileChunk

/-- The lines of the contents of a file, each up to its newline. -/
def contentLines (contents : Text) : List Text := (splitInclusive contents).map List.dropLast

def Hunk.render : Hunk → List Text
  | .addFile path contents => (addFileMarker ++ path) :: (contentLines contents).map ('+' :: ·)
  | .deleteFile path => [deleteFileMarker ++ path]
  | .updateFile path movePath chunks =>
    (updateFileMarker ++ path) :: movePath.toList.map (moveToMarker ++ ·) ++
      chunks.flatMap UpdateFileChunk.render

variable (environmentId : Option Text) (hunks : List Hunk)

/-- The lines of a patch before its last one. -/
def openingLines : List Text :=
  beginPatchMarker ::
    environmentId.toList.map (environmentIdMarker ++ ' ' :: ·) ++ hunks.flatMap Hunk.render

def patchLines : List Text := openingLines environmentId hunks ++ [endPatchMarker]

def renderPatch : Text := unlines (patchLines environmentId hunks)

/-- The patch in a heredoc. -/
def renderHeredoc (opener : Text) (environmentId : Option Text) (hunks : List Hunk) : Text :=
  unlines (opener :: patchLines environmentId hunks ++ [heredocCloser])

/-- A path, a context or an environment id: not empty, on one line and without
white space around it. -/
@[mk_iff]
structure NameText (text : Text) : Prop where
  ne_nil : text ≠ []
  oneLine : '\n' ∉ text
  trimmed : trim text = text

instance : DecidablePred NameText := fun text =>
  decidable_of_iff' _ (nameText_iff text)

/-- A line that a line break of either kind ends unambiguously. -/
@[mk_iff]
structure PlainLine (line : Text) : Prop where
  oneLine : '\n' ∉ line
  noReturn : line.getLast? ≠ some '\r'

instance : DecidablePred PlainLine := fun line =>
  decidable_of_iff' _ (plainLine_iff line)

/-- The indices pair equal lines of the two sides, in order. -/
def ContextAligned : List (Nat × Nat) → Nat → Nat → List Text → List Text → Prop
  | [], _, _, _, _ => True
  | (oldIndex, newIndex) :: indices, oldCount, newCount, old, new =>
    oldCount ≤ oldIndex ∧ newCount ≤ newIndex ∧
      (∃ line, old[oldIndex - oldCount]? = some line ∧ new[newIndex - newCount]? = some line) ∧
      ContextAligned indices (oldIndex + 1) (newIndex + 1)
        (old.drop (oldIndex - oldCount + 1))
        (new.drop (newIndex - newCount + 1))

structure UpdateFileChunk.WellFormed (chunk : UpdateFileChunk) : Prop where
  context : ∀ context ∈ chunk.changeContext, NameText context
  notEmpty : chunk.isEmpty = false
  oldLines : ∀ line ∈ chunk.oldLines, PlainLine line
  newLines : ∀ line ∈ chunk.newLines, PlainLine line
  aligned : ContextAligned chunk.contextLineIndices 0 0 chunk.oldLines chunk.newLines

def Hunk.WellFormed : Hunk → Prop
  | .addFile path contents =>
    NameText path ∧ ∃ lines, contents = unlines lines ∧ ∀ line ∈ lines, PlainLine line
  | .deleteFile path => NameText path
  | .updateFile path movePath chunks =>
    NameText path ∧ (∀ target ∈ movePath, NameText target) ∧
      chunks ≠ [] ∧ ∀ chunk ∈ chunks, chunk.WellFormed

theorem contentLines_unlines {lines : List Text} (hlines : ∀ line ∈ lines, PlainLine line) :
    contentLines (unlines lines) = lines := by
  rw [contentLines, splitInclusive_unlines (fun line hmem => (hlines line hmem).oneLine), map_map]
  exact (map_congr_left (fun line _ => dropLast_concat)).trans (map_id lines)

theorem NameText.endsVisible {text : Text} (hname : NameText text) : EndsVisible text :=
  endsVisible_of_trim hname.trimmed hname.ne_nil

/-- A name behind a marker. -/
theorem NameText.plain {text : Text} (hname : NameText text) {lead : Text} (hlead : '\n' ∉ lead) :
    PlainLine (lead ++ text) := by
  refine ⟨?_, (hname.endsVisible.append lead).getLast?_ne (by decide)⟩
  rw [mem_append, not_or]
  exact ⟨hlead, hname.oneLine⟩

variable {line : Text}

theorem PlainLine.cons (hplain : PlainLine line) {char : Char} (hnewline : char ≠ '\n')
    (hreturn : char ≠ '\r') : PlainLine (char :: line) := by
  refine ⟨?_, ?_⟩
  · rw [mem_cons, not_or]
    exact ⟨hnewline.symm, hplain.oneLine⟩
  · cases line with
  | nil => simpa using hreturn
  | cons next rest => exact hplain.noReturn

section Plain

/-! Every written line is plain, so the two levels of line splitting agree. -/

theorem text_mem_of_changeLines {indices : List (Nat × Nat)} {oldCount newCount : Nat}
    {old new : List Text} (haligned : ContextAligned indices oldCount newCount old new)
    {line : ChangeLine} (hline : line ∈ changeLines indices oldCount newCount old new) :
    line.text ∈ old ∨ line.text ∈ new := by
  induction indices generalizing oldCount newCount old new with
  | nil =>
    simp only [changeLines, mem_append, mem_map] at hline
    rcases hline with ⟨text, hmem, rfl⟩ | ⟨text, hmem, rfl⟩
    · exact .inl hmem
    · exact .inr hmem
  | cons index indices ih =>
    obtain ⟨-, -, ⟨shared, hold, -⟩, hrest⟩ := haligned
    simp only [changeLines, mem_append, mem_map, mem_cons] at hline
    rcases hline with (⟨text, hmem, rfl⟩ | ⟨text, hmem, rfl⟩) | rfl | hlater
    · exact .inl (mem_of_mem_take hmem)
    · exact .inr (mem_of_mem_take hmem)
    · left
      rw [headD_eq_head?_getD, head?_drop, hold]
      exact mem_of_getElem? hold
    · rcases ih hrest hlater with hmem | hmem
      · exact .inl (mem_of_mem_drop hmem)
      · exact .inr (mem_of_mem_drop hmem)

theorem ChangeLine.render_plain {line : ChangeLine} (hplain : PlainLine line.text) :
    PlainLine line.render := by
  cases line with
  | context text | added text | removed text =>
    exact PlainLine.cons hplain (by decide) (by decide)

theorem UpdateFileChunk.render_plain {chunk : UpdateFileChunk} (hchunk : chunk.WellFormed)
    (hline : line ∈ chunk.render) : PlainLine line := by
  simp only [render, mem_append, mem_cons, mem_map] at hline
  rcases hline with (rfl | ⟨change, hchange, rfl⟩) | heof
  · rw [contextMarker]
    split
    · exact ⟨by decide, by decide⟩
    next context hcontext => exact (hchunk.context context hcontext).plain (by decide)
  · apply ChangeLine.render_plain
    rcases text_mem_of_changeLines hchunk.aligned hchange with hmem | hmem
    · exact hchunk.oldLines _ hmem
    · exact hchunk.newLines _ hmem
  · split at heof
    · rw [mem_singleton.mp heof]
      exact ⟨by decide, by decide⟩
    · cases heof

theorem Hunk.render_plain {hunk : Hunk} (hhunk : hunk.WellFormed) (hline : line ∈ hunk.render) :
    PlainLine line := by
  cases hunk with
  | addFile path contents =>
    obtain ⟨hpath, lines, rfl, hlines⟩ := hhunk
    rw [render, contentLines_unlines hlines] at hline
    rcases mem_cons.mp hline with rfl | hline
    · exact hpath.plain (by decide)
    · obtain ⟨added, hadded, rfl⟩ := mem_map.mp hline
      exact (hlines added hadded).cons (by decide) (by decide)
  | deleteFile path =>
    rw [mem_singleton.mp hline]
    exact NameText.plain hhunk (by decide)
  | updateFile path movePath chunks =>
    obtain ⟨hpath, hmove, -, hchunks⟩ := hhunk
    simp only [render, mem_append, mem_cons, mem_map, Option.mem_toList, mem_flatMap] at hline
    rcases hline with (rfl | ⟨target, htarget, rfl⟩) | ⟨chunk, hmem, hline⟩
    · exact hpath.plain (by decide)
    · exact (hmove target htarget).plain (by decide)
    · exact UpdateFileChunk.render_plain (hchunks chunk hmem) hline

theorem openingLines_plain {environmentId : Option Text} {hunks : List Hunk}
    (henvironment : ∀ name ∈ environmentId, NameText name)
    (hhunks : ∀ hunk ∈ hunks, hunk.WellFormed) (hline : line ∈ openingLines environmentId hunks) :
    PlainLine line := by
  simp only [openingLines, mem_append, mem_cons, mem_map, Option.mem_toList, mem_flatMap] at hline
  rcases hline with (rfl | ⟨name, hname, rfl⟩) | ⟨hunk, hmem, hline⟩
  · exact ⟨by decide, by decide⟩
  · have hlead : '\n' ∉ environmentIdMarker ++ [' '] := by decide
    simpa using (henvironment name hname).plain hlead
  · exact Hunk.render_plain (hhunks hunk hmem) hline

end Plain

end Hexa.ApplyPatch
