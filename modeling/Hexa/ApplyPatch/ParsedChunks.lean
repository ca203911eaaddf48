/-
What every chunk from the parser keeps: the indices of its context lines point
to equal lines of the two sides, and grow on both.
-/
import Hexa.ApplyPatch.HunkSteps

namespace Hexa.ApplyPatch

open List

structure UpdateFileChunk.ContextInOrder (chunk : UpdateFileChunk) : Prop where
  paired : ∀ indices ∈ chunk.contextLineIndices, ∃ line,
    chunk.oldLines[indices.1]? = some line ∧ chunk.newLines[indices.2]? = some line
  increasing : chunk.contextLineIndices.Pairwise fun first second =>
    first.1 < second.1 ∧ first.2 < second.2

namespace UpdateFileChunk

variable {chunk : UpdateFileChunk} {line : Text}

theorem ContextInOrder.of_no_context (hnone : chunk.contextLineIndices = []) :
    chunk.ContextInOrder := by
  constructor
  · rw [hnone]
    exact forall_mem_nil _
  · rw [hnone]
    exact .nil

theorem ContextInOrder.getElem?_append {first second : List Text} {index : Nat}
    (hline : first[index]? = some line) : (first ++ second)[index]? = some line := by
  rw [List.getElem?_append_left (List.getElem?_eq_some_iff.mp hline).1, hline]

theorem ContextInOrder.pushContextLine (hchunk : chunk.ContextInOrder) :
    (chunk.pushContextLine line).ContextInOrder := by
  constructor
  · refine forall_mem_append.mpr ⟨?_, ?_⟩
    · intro indices hmem
      obtain ⟨text, hold, hnew⟩ := hchunk.paired indices hmem
      exact ⟨text, getElem?_append hold, getElem?_append hnew⟩
    · rw [forall_mem_singleton]
      exact ⟨line, getElem?_concat_length, getElem?_concat_length⟩
  · refine pairwise_append.mpr ⟨hchunk.increasing, pairwise_singleton _ _, ?_⟩
    intro indices hmem
    rw [forall_mem_singleton]
    obtain ⟨text, hold, hnew⟩ := hchunk.paired indices hmem
    exact ⟨(List.getElem?_eq_some_iff.mp hold).1, (List.getElem?_eq_some_iff.mp hnew).1⟩

theorem ContextInOrder.pushNewLine (hchunk : chunk.ContextInOrder) :
    (chunk.pushNewLine line).ContextInOrder := by
  refine ⟨fun indices hmem => ?_, hchunk.increasing⟩
  obtain ⟨text, hold, hnew⟩ := hchunk.paired indices hmem
  exact ⟨text, hold, getElem?_append hnew⟩

theorem ContextInOrder.pushOldLine (hchunk : chunk.ContextInOrder) :
    (chunk.pushOldLine line).ContextInOrder := by
  refine ⟨fun indices hmem => ?_, hchunk.increasing⟩
  obtain ⟨text, hold, hnew⟩ := hchunk.paired indices hmem
  exact ⟨text, getElem?_append hold, hnew⟩

end UpdateFileChunk

def Hunk.ContextInOrder : Hunk → Prop
  | .addFile _ _ => True
  | .deleteFile _ => True
  | .updateFile _ _ chunks => ∀ chunk ∈ chunks, chunk.ContextInOrder

namespace StreamingPatchParser

def ContextInOrder (parser : StreamingPatchParser) : Prop :=
  ∀ hunk ∈ parser.state.hunks, hunk.ContextInOrder

end StreamingPatchParser

theorem ChunkStep.contextInOrder {chunk next : UpdateFileChunk} (hstep : ChunkStep chunk next)
    (hchunk : chunk.ContextInOrder) : next.ContextInOrder := by
  cases hstep with
  | context line => exact hchunk.pushContextLine
  | added line => exact hchunk.pushNewLine
  | removed line => exact hchunk.pushOldLine
  | endOfFile => exact ⟨hchunk.paired, hchunk.increasing⟩

theorem ChunksStep.contextInOrder {chunks next : List UpdateFileChunk}
    (hstep : ChunksStep chunks next) (hchunks : ∀ chunk ∈ chunks, chunk.ContextInOrder) :
    ∀ chunk ∈ next, chunk.ContextInOrder := by
  cases hstep with
  | opened context =>
    exact forall_mem_append.mpr ⟨hchunks, forall_mem_singleton.mpr (.of_no_context rfl)⟩
  | first hnone hstep =>
    exact forall_mem_singleton.mpr (hstep.contextInOrder (.of_no_context rfl))
  | last hlast hstep =>
    exact forall_mem_append.mpr
      ⟨fun other hmem => hchunks other (dropLast_subset _ hmem),
        forall_mem_singleton.mpr (hstep.contextInOrder (hchunks _ (mem_of_getLast? hlast)))⟩

theorem HunksStep.contextInOrder {hunks next : List Hunk} (hstep : HunksStep hunks next)
    (hhunks : ∀ hunk ∈ hunks, hunk.ContextInOrder) : ∀ hunk ∈ next, hunk.ContextInOrder := by
  cases hstep with
  | stay => exact hhunks
  | @opened hunk hopened =>
    refine forall_mem_append.mpr ⟨hhunks, forall_mem_singleton.mpr ?_⟩
    cases hunk with
    | addFile path contents | deleteFile path => trivial
    | updateFile path movePath chunks =>
      rw [hopened.2]
      exact forall_mem_nil _
  | last hlast hstep =>
    refine forall_mem_append.mpr
      ⟨fun other hmem => hhunks other (dropLast_subset _ hmem), forall_mem_singleton.mpr ?_⟩
    have hhunk := hhunks _ (mem_of_getLast? hlast)
    cases hstep with
    | added path contents line => trivial
    | moved path target chunks => exact hhunk
    | changed hstep => exact hstep.contextInOrder hhunk

theorem StreamingPatchParser.ContextInOrder.leads {parser next : StreamingPatchParser}
    (hparser : parser.ContextInOrder)
    (hsteps : Relation.ReflTransGen HunksStep parser.state.hunks next.state.hunks) :
    next.ContextInOrder := by
  unfold StreamingPatchParser.ContextInOrder
  generalize next.state.hunks = hunks at hsteps ⊢
  induction hsteps with
  | refl => exact hparser
  | tail _ hstep ih => exact hstep.contextInOrder ih

/-- A chunk of an update in a patch that the parser accepts. -/
def UpdateFileChunk.Parsed (chunk : UpdateFileChunk) : Prop :=
  ∃ (patch : Text) (mode : ParseMode) (args : ApplyPatchArgs) (path : Text)
    (movePath : Option Text) (chunks : List UpdateFileChunk),
    parsePatchText patch mode = .ok args ∧
      .updateFile path movePath chunks ∈ args.hunks ∧ chunk ∈ chunks

theorem parsePatchText_contextInOrder {patch : Text} {mode : ParseMode} {args : ApplyPatchArgs}
    (hparse : parsePatchText patch mode = .ok args) :
    ∀ hunk ∈ args.hunks, hunk.ContextInOrder := by
  rw [parsePatchText] at hparse
  split at hparse
  · cases hparse
  case h_2 patchLines _ =>
    dsimp only at hparse
    have hstart : StreamingPatchParser.ContextInOrder {} := forall_mem_nil _
    have hpush := StreamingPatchParser.pushDelta_leads {} (List.intercalate ['\n'] patchLines)
    split at hparse
    · cases hparse
    case h_2 parser hparser =>
      rw [hparser] at hpush
      have hfinish := parser.finish_leads
      split at hparse
      · cases hparse
      case h_2 finished hfinished =>
        rw [hfinished] at hfinish
        cases hparse
        exact (hstart.leads hpush).leads hfinish

theorem UpdateFileChunk.Parsed.contextInOrder {chunk : UpdateFileChunk} (hparsed : chunk.Parsed) :
    chunk.ContextInOrder := by
  obtain ⟨patch, mode, args, path, movePath, chunks, hparse, hhunk, hmem⟩ := hparsed
  exact parsePatchText_contextInOrder hparse _ hhunk chunk hmem

end Hexa.ApplyPatch
