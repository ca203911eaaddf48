/-
Reassembly sees one client at a time: what becomes of an envelope depends on
the assembly and the chunk cursor of its own client, whatever the assemblies
of other clients are.
-/
import Hexa.RemoteControl.Segment

namespace Hexa.RemoteControl

variable {Message : Type} {forwarded : ClientEnvelope Message}

namespace Assemblies

variable {first second : Assemblies} {clientId : ClientId}

theorem shouldIgnoreChunk_congr (hown : second.lookup clientId = first.lookup clientId)
    (streamId : StreamId) (seqId segmentId : Nat) :
    second.shouldIgnoreChunk clientId streamId seqId segmentId =
      first.shouldIgnoreChunk clientId streamId seqId segmentId := by
  rw [shouldIgnoreChunk, hown, shouldIgnoreChunk]

section

variable (assemblies : Assemblies) (clientId : ClientId) (streamId : StreamId)

theorem lookup_removeAssembly :
    (assemblies.removeAssembly clientId streamId).lookup clientId =
      (assemblies.lookup clientId).filter (fun assembly => assembly.streamId ≠ streamId) := by
  unfold removeAssembly
  cases hown : assemblies.lookup clientId with
  | none => simp [hown]
  | some assembly =>
    by_cases hstream : assembly.streamId = streamId
    · simp [hstream, Option.filter]
    · simp [hstream, hown, Option.filter]

theorem lookup_prepare (metadata : ClientSegmentMetadata) (now : Nat) :
    let prepared := assemblies.prepare clientId streamId metadata now
    prepared.1.lookup clientId = some prepared.2 ∧ prepared.2.streamId = streamId := by
  simp only [prepare]
  split
  next assembly hown =>
    split_ifs with hstream
    · exact ⟨hown, hstream⟩
    · exact ⟨AList.lookup_insert _, rfl⟩
  · exact ⟨AList.lookup_insert _, rfl⟩

end

theorem prepare_congr (hown : second.lookup clientId = first.lookup clientId)
    (streamId : StreamId) (metadata : ClientSegmentMetadata) (now : Nat) :
    (second.prepare clientId streamId metadata now).2 =
      (first.prepare clientId streamId metadata now).2 := by
  simp only [prepare, hown]
  split
  · split_ifs <;> rfl
  · rfl

variable {envelope : ClientEnvelope Message} (codec : Codec Message) (assemblies : Assemblies)

/-- A chunk that is neither late nor invalid: what becomes of the assembly of
its client, and what is observed. -/
theorem observe_chunk {segmentId segmentCount messageSizeBytes : Nat} {chunk : List UInt8}
    {seqId : Nat} {streamId : StreamId} (now : Nat)
    (hevent : envelope.event = .clientMessageChunk segmentId segmentCount messageSizeBytes chunk)
    (hseqId : envelope.seqId = some seqId) (hstream : envelope.streamId = some streamId)
    (hwanted : assemblies.shouldIgnoreChunk envelope.clientId streamId seqId segmentId = false)
    (hvalid : invalidChunk segmentId segmentCount messageSizeBytes chunk = false) :
    let metadata := ⟨seqId, segmentCount, messageSizeBytes⟩
    let prepared := (assemblies.prepare envelope.clientId streamId metadata now).2
    let observed := assemblies.observe codec envelope now
    (observed.1.lookup envelope.clientId, observed.2) =
      match prepared.update codec metadata segmentId chunk now with
      | .pending extended => (some extended, .pending)
      | .keep => (some prepared, .pending)
      | .ignore => (some prepared, .dropped)
      | .drop => (none, .dropped)
      | .complete message =>
        (none, .forward { envelope with
          event := .clientMessage message }) := by
  intro metadata prepared observed
  obtain ⟨hkept, hownStream⟩ := lookup_prepare assemblies envelope.clientId streamId metadata now
  have hremoved : ((assemblies.prepare envelope.clientId streamId metadata
      now).1.removeAssembly envelope.clientId streamId).lookup envelope.clientId = none := by
    rw [lookup_removeAssembly, hkept]
    simp [hownStream]
  simp only [observed, observe, hevent, hseqId, hstream, hwanted, hvalid]
  cases prepared.update codec metadata segmentId chunk now with
  | pending extended => simp
  | keep | ignore => exact congrArg (·, _) hkept
  | drop | complete message => exact congrArg (·, _) hremoved

theorem observe_other (envelope : ClientEnvelope Message) (now : Nat)
    (hevent : ∀ segmentId segmentCount messageSizeBytes chunk,
      envelope.event ≠ .clientMessageChunk segmentId segmentCount messageSizeBytes chunk) :
    assemblies.observe codec envelope now = (assemblies, .forward envelope) := by
  unfold observe
  split
  next heq => exact absurd heq (hevent _ _ _ _)
  · rfl

/-- Two tables with the same assembly of a client observe the same. -/
theorem observe_congr (hown : second.lookup envelope.clientId = first.lookup envelope.clientId)
    (now : Nat) : let before := first.observe codec envelope now
    let after := second.observe codec envelope now
    (after.1.lookup envelope.clientId, after.2) =
      (before.1.lookup envelope.clientId, before.2) := by
  intro before after
  cases hevent : envelope.event with
  | clientMessageChunk segmentId segmentCount messageSizeBytes chunk =>
    rcases hseqId : envelope.seqId with _ | seqId
    · simp [before, after, observe, hevent, hseqId, hown]
    · rcases hstream : envelope.streamId with _ | streamId
      · simp [before, after, observe, hevent, hstream, hown]
      · have hignored := shouldIgnoreChunk_congr hown streamId seqId segmentId
        rcases hlate : first.shouldIgnoreChunk envelope.clientId streamId seqId
          segmentId with _ | _ <;> rw [hlate] at hignored
        · rcases hvalid : invalidChunk segmentId segmentCount messageSizeBytes chunk with _ | _
          · have hbefore := observe_chunk codec first now hevent hseqId hstream hlate hvalid
            have hafter := observe_chunk codec second now hevent hseqId hstream hignored hvalid
            simp only [prepare_congr hown] at hafter
            exact hafter.trans hbefore.symm
          · simp [before, after, observe, hevent, hseqId, hstream, hlate,
              hignored, hvalid, lookup_removeAssembly, hown]
        · simp [before, after, observe, hevent, hseqId, hstream, hlate, hignored, hown]
  | _ =>
    have hother : ∀ assemblies : Assemblies,
        assemblies.observe codec envelope now = (assemblies, .forward envelope) :=
      fun assemblies => observe_other codec assemblies envelope now (by simp [hevent])
    simp only [before, after, hother, hown]

/-- A message that comes from chunks has a seq id and a stream, and its
assembly is gone. -/
theorem observe_chunk_forward {now : Nat}
    (hforward : (assemblies.observe codec envelope now).2 = .forward forwarded) :
    forwarded = envelope ∧ (assemblies.observe codec envelope now).1 = assemblies ∨
      ∃ message seqId streamId, envelope.seqId = some seqId ∧
        envelope.streamId = some streamId ∧
        forwarded = { envelope with event := .clientMessage message } ∧
        (assemblies.observe codec envelope now).1.lookup envelope.clientId = none := by
  cases hevent : envelope.event with
  | clientMessageChunk segmentId segmentCount messageSizeBytes chunk =>
    right
    rcases hseqId : envelope.seqId with _ | seqId
    · simp [observe, hevent, hseqId] at hforward
    · rcases hstream : envelope.streamId with _ | streamId
      · simp [observe, hevent, hstream] at hforward
      · rcases hlate : assemblies.shouldIgnoreChunk envelope.clientId streamId
          seqId segmentId with _ | _
        · rcases hvalid : invalidChunk segmentId segmentCount messageSizeBytes chunk with _ | _
          · have hobserved :=
              observe_chunk codec assemblies now hevent hseqId hstream hlate hvalid
            simp only [hforward] at hobserved
            split at hobserved <;> simp only [Prod.mk.injEq, reduceCtorEq,
              and_false, ClientSegmentObservation.forward.injEq] at hobserved
            next message hupdate =>
              refine ⟨message, seqId, streamId, rfl, rfl, ?_, hobserved.1⟩
              rw [hobserved.2, hseqId, hstream]
          · simp [observe, hevent, hseqId, hstream, hlate, hvalid] at hforward
        · simp [observe, hevent, hseqId, hstream, hlate] at hforward
  | _ =>
    left
    rw [observe_other codec assemblies envelope now (by simp [hevent])] at hforward ⊢
    cases hforward
    exact ⟨rfl, rfl⟩

end Assemblies

namespace WebsocketState

variable (codec : Codec Message)

/-- Observing moves no chunk cursor. -/
theorem cursors_observeClientMessage (state : WebsocketState) (envelope : ClientEnvelope Message)
    (wireSizeBytes now : Nat) :
    let observed := (state.observeClientMessage codec envelope wireSizeBytes now).1
    observed.lastCompletedClientChunkSeqIdByStream = state.lastCompletedClientChunkSeqIdByStream ∧
      observed.subscribeCursor = state.subscribeCursor := by
  simp only [observeClientMessage]
  split_ifs
  · exact ⟨rfl, rfl⟩
  · split <;> exact ⟨rfl, rfl⟩
  · exact ⟨rfl, rfl⟩

variable {envelope : ClientEnvelope Message}

/-- Two states with the same assembly of a client, and for which the chunk is
equally new, observe the same. -/
theorem observeClientMessage_congr {first second : WebsocketState}
    (hown : second.clientSegmentReassembler.lookup envelope.clientId =
      first.clientSegmentReassembler.lookup envelope.clientId)
    (hcompleted : second.alreadyCompleted (clientMessageKey envelope) =
      first.alreadyCompleted (clientMessageKey envelope))
    (wireSizeBytes now : Nat) :
    let before := first.observeClientMessage codec envelope wireSizeBytes now
    let after := second.observeClientMessage codec envelope wireSizeBytes now
    after.1.clientSegmentReassembler.lookup envelope.clientId =
        before.1.clientSegmentReassembler.lookup envelope.clientId ∧
      after.2 = before.2 := by
  have hassembled : second.alreadyAssembled envelope =
      first.alreadyAssembled envelope := by
    unfold alreadyAssembled
    split
    · exact Assemblies.shouldIgnoreChunk_congr hown _ _ _
    · rfl
  simp only [observeClientMessage, hcompleted, hassembled]
  split_ifs
  · exact ⟨hown, rfl⟩
  · split
    · simp [invalidateStream, Assemblies.lookup_removeAssembly, hown]
    · exact ⟨hown, rfl⟩
  · exact Prod.mk.inj (Assemblies.observe_congr codec hown now)

/-- A message that is forwarded was not completed before; if it came in
chunks, its client has no assembly any more. -/
theorem observeClientMessage_forward {state : WebsocketState} {wireSizeBytes now : Nat}
    (hforward : (state.observeClientMessage codec envelope wireSizeBytes
      now).2 = .forward forwarded) :
    state.alreadyCompleted (clientMessageKey envelope) = false ∧
      (forwarded = envelope ∨ ∃ message seqId streamId, envelope.seqId = some seqId ∧
          envelope.streamId = some streamId ∧
          forwarded = { envelope with event := .clientMessage message } ∧
          (state.observeClientMessage codec envelope wireSizeBytes
            now).1.clientSegmentReassembler.lookup envelope.clientId = none) := by
  revert hforward
  simp only [observeClientMessage]
  split_ifs with hold hlarge
  · simp
  · split <;> simp
  · intro hforward
    have hnew : state.alreadyCompleted (clientMessageKey envelope) = false :=
      (by simpa using hold : _ = false ∧ state.alreadyAssembled envelope = false).1
    refine ⟨hnew, ?_⟩
    rcases Assemblies.observe_chunk_forward codec _ hforward with
      ⟨hsame, -⟩ | hassembled
    · exact .inl hsame
    · exact .inr hassembled

end WebsocketState

end Hexa.RemoteControl
