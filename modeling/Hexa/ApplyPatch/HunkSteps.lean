/-
What a line of a patch does to the hunks: it opens a hunk or adds to the last
one.  However a text is cut into deltas, the parser reads the same hunks, and
those that it returns on the way only grow.
-/
import Hexa.Lib.Growth
import Hexa.Lib.Outcomes
import Hexa.ApplyPatch.Parser

namespace Hexa.ApplyPatch

open List hiding range
open Relation (ReflTransGen)

/-- A line for the last chunk of an update. -/
inductive ChunkStep (chunk : UpdateFileChunk) : UpdateFileChunk → Prop where
  | context (line : Text) : ChunkStep chunk (chunk.pushContextLine line)
  | added (line : Text) : ChunkStep chunk (chunk.pushNewLine line)
  | removed (line : Text) : ChunkStep chunk (chunk.pushOldLine line)
  | endOfFile : ChunkStep chunk { chunk with isEndOfFile := true }

inductive ChunksStep (chunks : List UpdateFileChunk) :
    List UpdateFileChunk → Prop where
  | opened (changeContext : Option Text) : ChunksStep chunks
      (chunks ++ [{ UpdateFileChunk.empty with changeContext }])
  | first {chunk : UpdateFileChunk} (hnone : chunks = [])
      (hstep : ChunkStep .empty chunk) : ChunksStep chunks [chunk]
  | last {chunk next : UpdateFileChunk} (hlast : chunks.getLast? = some chunk)
      (hstep : ChunkStep chunk next) :
      ChunksStep chunks (chunks.dropLast ++ [next])

inductive HunkStep : Hunk → Hunk → Prop where
  | added (path contents line : Text) : HunkStep (.addFile path contents)
      (.addFile path (contents ++ line ++ ['\n']))
  | moved (path target : Text) (chunks : List UpdateFileChunk) :
      HunkStep (.updateFile path none chunks) (.updateFile path (some target) chunks)
  | changed {path : Text} {movePath : Option Text}
      {chunks next : List UpdateFileChunk} (hstep : ChunksStep chunks next) :
      HunkStep (.updateFile path movePath chunks) (.updateFile path movePath next)

/-- A hunk right after its header. -/
def Hunk.Opened : Hunk → Prop
  | .addFile _ contents => contents = []
  | .deleteFile _ => True
  | .updateFile _ movePath chunks => movePath = none ∧ chunks = []

inductive HunksStep (hunks : List Hunk) : List Hunk → Prop where
  | stay : HunksStep hunks hunks
  | opened {hunk : Hunk} (hopened : hunk.Opened) :
      HunksStep hunks (hunks ++ [hunk])
  | last {hunk next : Hunk} (hlast : hunks.getLast? = some hunk)
      (hstep : HunkStep hunk next) : HunksStep hunks (hunks.dropLast ++ [next])

namespace StreamingPatchParser

/-- The parser that a line leads to, if it is accepted. -/
abbrev Accepts (next : StreamingPatchParser → Prop) :
    Except ParseError StreamingPatchParser → Prop :=
  Ensures (fun _ => True) next

def LineEffect (parser next : StreamingPatchParser) : Prop :=
  next.lineBuffer = parser.lineBuffer ∧ HunksStep parser.state.hunks next.state.hunks

variable {parser next : StreamingPatchParser} {line trimmed path : Text}

theorem headerNext_effect (hnext : parser.headerNext trimmed = some next) :
    LineEffect parser next := by
  rw [headerNext] at hnext
  split at hnext
  · cases hnext
    exact ⟨rfl, .stay⟩
  · split at hnext
    · cases hnext
      exact ⟨rfl, .opened rfl⟩
    · split at hnext
      · cases hnext
        exact ⟨rfl, .opened trivial⟩
      · obtain ⟨path, -, rfl⟩ := Option.map_eq_some_iff.mp hnext
        exact ⟨rfl, .opened ⟨rfl, rfl⟩⟩

/-- A line that is no header is handled as the mode asks. -/
theorem afterHeaders_effect {other : Except ParseError StreamingPatchParser}
    (hother : Accepts (LineEffect parser) other) :
    Accepts (LineEffect parser)
      (match parser.handleHunkHeadersAndEndPatch trimmed with
      | .error error => .error error
      | .ok (some next) => .ok next
      | .ok none => other) := by
  unfold handleHunkHeadersAndEndPatch
  cases (if parser.state.mode = .startedPatch then
      stripPrefix environmentIdMarker trimmed else none) with
  | some rest =>
    simp only [handleEnvironmentId]
    split_ifs <;> first | trivial | exact ⟨rfl, .stay⟩
  | none =>
    cases hheader : parser.headerNext trimmed with
    | none => exact hother
    | some next =>
      cases hempty : parser.ensureUpdateHunkIsNotEmpty trimmed with
      | error error => trivial
      | ok _ => exact headerNext_effect hheader

theorem chunksStep_pushChangeLine {chunks : List UpdateFileChunk}
    {push : UpdateFileChunk → UpdateFileChunk} (hpush : ∀ chunk, ChunkStep chunk (push chunk)) :
    ChunksStep chunks (pushChangeLine push chunks) := by
  rw [pushChangeLine]
  split
  next hnone => exact .first (getLast?_eq_none_iff.mp hnone) (hpush _)
  next chunk hlast => exact .last hlast (hpush chunk)

theorem processUpdateLine_effect {movePath : Option Text} {chunks : List UpdateFileChunk}
    (hlast : parser.state.hunks.getLast? = some (.updateFile path movePath chunks)) :
    Accepts (LineEffect parser) (parser.processUpdateLine line path movePath chunks) := by
  have hset : ∀ {next}, ChunksStep chunks next →
      LineEffect parser (parser.setLastHunk (.updateFile path movePath next)) :=
    fun hstep => ⟨rfl, .last hlast (.changed hstep)⟩
  unfold processUpdateLine
  dsimp only
  split
  · exact ⟨rfl, .stay⟩
  · split
    · trivial
    · split
      next hmove =>
        simp only [Bool.and_eq_true, Option.isNone_iff_eq_none] at hmove
        rw [hmove.1.2] at hlast
        exact ⟨rfl, .last hlast (.moved path _ chunks)⟩
      · split
        · trivial
        · split
          · exact hset (.opened none)
          · split
            · exact hset (.opened _)
            · split
              · split
                · exact ⟨rfl, .stay⟩
                next chunk hchunk =>
                  split
                  · trivial
                  · exact hset (.last hchunk .endOfFile)
              · split
                · exact hset (chunksStep_pushChangeLine fun _ => .context [])
                · exact hset (chunksStep_pushChangeLine fun _ => .context _)
                · exact hset (chunksStep_pushChangeLine fun _ => .added _)
                · exact hset (chunksStep_pushChangeLine fun _ => .removed _)
                · split <;> trivial

theorem processLine_effect (parser : StreamingPatchParser) (line : Text) :
    Accepts (LineEffect parser) (parser.processLine line) := by
  unfold processLine
  dsimp only
  split
  · split
    · exact ⟨rfl, .stay⟩
    · trivial
  · exact afterHeaders_effect trivial
  · apply afterHeaders_effect
    split
    next hlast => exact ⟨rfl, .last hlast (.added ..)⟩
    · trivial
  · exact afterHeaders_effect trivial
  · apply afterHeaders_effect
    split
    next hlast => exact processUpdateLine_effect hlast
    · trivial
  · split
    · exact ⟨rfl, .stay⟩
    · trivial

/-- The parser is reached by lines. -/
abbrev Leads (parser : StreamingPatchParser) : Except ParseError StreamingPatchParser → Prop :=
  Accepts fun next => ReflTransGen HunksStep parser.state.hunks next.state.hunks

variable (parser : StreamingPatchParser)

theorem feedLine_leads (line : Text) : parser.Leads (parser.feedLine line) :=
  (processLine_effect _ line).imp (fun _ => id) (fun _ h => .single h.2)

theorem pushDelta_leads (delta : Text) : parser.Leads (parser.pushDelta delta) := by
  induction delta generalizing parser with
  | nil => exact .refl
  | cons char delta ih =>
    rw [pushDelta]
    split
    · have hline := parser.feedLine_leads (stripCarriageReturn parser.lineBuffer)
      cases hresult : parser.feedLine (stripCarriageReturn parser.lineBuffer) with
      | error error => trivial
      | ok next =>
        rw [hresult] at hline
        exact (ih next).imp (fun _ => id) (fun _ h => .trans hline h)
    · exact ih _

theorem finish_leads : parser.Leads parser.finish := by
  have hlast : parser.Leads parser.feedLastLine := by
    rw [feedLastLine]
    split
    · exact .refl
    · split
      · dsimp only
        cases ensureUpdateHunkIsNotEmpty _ endPatchMarker with
        | error error => trivial
        | ok _ => exact .refl
      · exact parser.feedLine_leads _
  rw [finish]
  cases hresult : parser.feedLastLine with
  | error error => trivial
  | ok next =>
    rw [hresult] at hlast
    dsimp only
    split
    · exact hlast
    · trivial

end StreamingPatchParser

/-- The lines of a chunk have grown; it may have been marked as the end of the
file. -/
structure UpdateFileChunk.Grows (chunk next : UpdateFileChunk) : Prop where
  changeContext_eq : next.changeContext = chunk.changeContext
  oldLines : chunk.oldLines <+: next.oldLines
  newLines : chunk.newLines <+: next.newLines
  contexts : chunk.contextLineIndices <+: next.contextLineIndices
  endOfFile : chunk.isEndOfFile → next.isEndOfFile

/-- The contents or the chunks of a hunk have grown; an update may have got
the target of a move. -/
def Hunk.Grows : Hunk → Hunk → Prop
  | .addFile path contents, .addFile path' contents' => path' = path ∧ contents <+: contents'
  | .deleteFile path, .deleteFile path' => path' = path
  | .updateFile path movePath chunks, .updateFile path' movePath' chunks' =>
    path' = path ∧ (movePath = none ∨ movePath' = movePath) ∧
      LastGrows UpdateFileChunk.Grows chunks chunks'
  | _, _ => False

theorem UpdateFileChunk.Grows.refl (chunk : UpdateFileChunk) : chunk.Grows chunk :=
  ⟨rfl, prefix_rfl, prefix_rfl, prefix_rfl, id⟩

theorem UpdateFileChunk.Grows.trans {first second third : UpdateFileChunk}
    (hfirst : first.Grows second) (hsecond : second.Grows third) : first.Grows third :=
  ⟨hsecond.1.trans hfirst.1, hfirst.2.trans hsecond.2, hfirst.3.trans hsecond.3,
    hfirst.4.trans hsecond.4, hsecond.5 ∘ hfirst.5⟩

theorem ChunkStep.grows {chunk next : UpdateFileChunk} (hstep : ChunkStep chunk next) :
    chunk.Grows next := by
  cases hstep with
  | context line => exact ⟨rfl, prefix_append .., prefix_append .., prefix_append .., id⟩
  | added line => exact ⟨rfl, prefix_rfl, prefix_append .., prefix_rfl, id⟩
  | removed line => exact ⟨rfl, prefix_append .., prefix_rfl, prefix_rfl, id⟩
  | endOfFile => exact ⟨rfl, prefix_rfl, prefix_rfl, prefix_rfl, fun _ => rfl⟩

theorem ChunksStep.grows {chunks next : List UpdateFileChunk} (hstep : ChunksStep chunks next) :
    LastGrows UpdateFileChunk.Grows chunks next := by
  cases hstep with
  | opened context => exact lastGrows_append .refl chunks _
  | first hnone hstep =>
    subst hnone
    exact lastGrows_append .refl [] _
  | last hlast hstep => exact lastGrows_setLast hlast hstep.grows

theorem Hunk.Grows.refl (hunk : Hunk) : hunk.Grows hunk := by
  cases hunk with
  | addFile path contents => exact ⟨rfl, prefix_rfl⟩
  | deleteFile path => exact rfl
  | updateFile path movePath chunks =>
    have hchunks := lastGrows_append UpdateFileChunk.Grows.refl chunks []
    rw [append_nil] at hchunks
    exact ⟨rfl, .inr rfl, hchunks⟩

theorem Hunk.Grows.trans {first second third : Hunk} (hfirst : first.Grows second)
    (hsecond : second.Grows third) : first.Grows third := by
  cases first <;> cases second <;> cases third <;>
    first | exact hfirst.elim | exact hsecond.elim | skip
  · exact ⟨hsecond.1.trans hfirst.1, hfirst.2.trans hsecond.2⟩
  · exact Eq.trans hsecond hfirst
  · refine ⟨hsecond.1.trans hfirst.1, ?_, hfirst.2.2.trans .trans hsecond.2.2⟩
    rcases hfirst.2.1 with hnone | hsame
    · exact .inl hnone
    · rw [← hsame]
      exact hsecond.2.1

theorem HunkStep.grows {hunk next : Hunk} (hstep : HunkStep hunk next) : hunk.Grows next := by
  cases hstep with
  | added path contents line => exact ⟨rfl, by simp⟩
  | moved path target chunks =>
    exact ⟨rfl, .inl rfl, (Hunk.Grows.refl (.updateFile path none chunks)).2.2⟩
  | changed hstep => exact ⟨rfl, .inr rfl, hstep.grows⟩

theorem lastGrows_of_steps {hunks next : List Hunk} (hsteps : ReflTransGen HunksStep hunks next) :
    LastGrows Hunk.Grows hunks next := by
  induction hsteps with
  | refl =>
    have hsame := lastGrows_append Hunk.Grows.refl hunks []
    rwa [append_nil] at hsame
  | tail _ hstep ih =>
    cases hstep with
    | stay => exact ih
    | opened hopened => exact ih.trans .trans (lastGrows_append .refl _ _)
    | last hlast hstep => exact ih.trans .trans (lastGrows_setLast hlast hstep.grows)

namespace StreamingPatchParser

theorem pushDelta_append (parser : StreamingPatchParser) (first second : Text) :
    parser.pushDelta (first ++ second) =
      parser.pushDelta first >>= fun next => next.pushDelta second := by
  induction first generalizing parser with
  | nil => rfl
  | cons char first ih =>
    rw [cons_append, pushDelta, pushDelta]
    split
    · cases parser.feedLine (stripCarriageReturn parser.lineBuffer) with
      | error error => rfl
      | ok next => exact ih next
    · exact ih _

theorem foldlM_pushDelta (parser : StreamingPatchParser) (deltas : List Text) :
    deltas.foldlM pushDelta parser = parser.pushDelta deltas.flatten := by
  induction deltas generalizing parser with
  | nil => rfl
  | cons delta deltas ih =>
    rw [flatten_cons, pushDelta_append]
    exact bind_congr fun next => ih next

/-- Deltas lead to the hunks or to the error of the whole text, and each
returned list of hunks is an extension of the one before. -/
theorem deltas_agree_with_whole_text :
    (∀ deltas : List Text, (deltas.foldlM pushDelta {} >>= finish).map (·.state.hunks) =
        (pushDelta {} deltas.flatten >>= finish).map (·.state.hunks)) ∧
    ∀ parser : StreamingPatchParser,
      (∀ delta, Accepts (fun next =>
          LastGrows Hunk.Grows parser.state.hunks next.state.hunks)
        (parser.pushDelta delta)) ∧
      Accepts (fun next => LastGrows Hunk.Grows parser.state.hunks next.state.hunks)
        parser.finish := by
  refine ⟨fun deltas => by rw [foldlM_pushDelta], fun parser => ⟨?_, ?_⟩⟩
  · intro delta
    exact (parser.pushDelta_leads delta).imp (fun _ => id) (fun _ => lastGrows_of_steps)
  · exact parser.finish_leads.imp (fun _ => id) (fun _ => lastGrows_of_steps)

end StreamingPatchParser

end Hexa.ApplyPatch
