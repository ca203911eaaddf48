/-
Envelopes of remote-control clients, and the reassembly of messages that
arrive in segments.
-/
import Mathlib

namespace Hexa.RemoteControl

structure ClientId where
  value : String
  deriving Repr, DecidableEq

structure StreamId where
  value : String
  deriving Repr, DecidableEq

inductive ClientEvent (Message : Type) where
  | clientMessage (message : Message)
  | clientMessageChunk (segmentId segmentCount messageSizeBytes : Nat)
      (messageChunkBase64 : List UInt8)
  | ack (segmentId : Option Nat)
  | ping
  | clientClosed

structure ClientEnvelope (Message : Type) where
  event : ClientEvent Message
  clientId : ClientId
  streamId : Option StreamId
  seqId : Option Nat
  cursor : Option String

/-- The crates that read a message: base64 into a slice of a given room, and
the JSON of a JSON-RPC message; and whether a message is `initialize`. -/
structure Codec (Message : Type) where
  decodedLenEstimate : Nat → Nat
  decodeSlice : List UInt8 → Nat → Option (List UInt8)
  parseMessage : List UInt8 → Option Message
  startsConnection : Message → Bool

def segmentMaxBytes : Nat := 150 * 1024

def reassembledMaxBytes : Nat := 100 * 1024 * 1024

def segmentCountMax : Nat := 1024

def segmentAssemblyMaxCount : Nat := 128

structure ClientSegmentMetadata where
  seqId : Nat
  segmentCount : Nat
  messageSizeBytes : Nat
  deriving Repr, DecidableEq

structure ClientSegmentAssembly where
  streamId : StreamId
  metadata : ClientSegmentMetadata
  raw : List UInt8
  nextSegmentId : Nat
  lastChunkSeenAt : Nat
  deriving Repr, DecidableEq

abbrev Assemblies := AList (fun _ : ClientId => ClientSegmentAssembly)

inductive ClientSegmentObservation (Message : Type) where
  | forward (envelope : ClientEnvelope Message)
  | pending
  | dropped

namespace Assemblies

variable (assemblies : Assemblies) (clientId : ClientId) (streamId : StreamId)

def shouldIgnoreChunk (seqId segmentId : Nat) : Bool :=
  match assemblies.lookup clientId with
  | none => false
  | some assembly =>
    assembly.streamId == streamId &&
      (seqId < assembly.metadata.seqId ||
        (seqId == assembly.metadata.seqId && segmentId < assembly.nextSegmentId))

def removeAssembly : Assemblies :=
  match assemblies.lookup clientId with
  | none => assemblies
  | some assembly =>
    if assembly.streamId = streamId then assemblies.erase clientId
    else assemblies

/-- The first of the entries that were least recently extended. -/
def oldest : List (Sigma fun _ : ClientId => ClientSegmentAssembly) →
    Option (Sigma fun _ : ClientId => ClientSegmentAssembly)
  | [] => none
  | entry :: rest =>
    match oldest rest with
    | none => some entry
    | some other =>
      if other.2.lastChunkSeenAt < entry.2.lastChunkSeenAt then some other
      else some entry

/-- The loop of `evict_assemblies_if_full`; each round removes one entry. -/
def evictRounds : Nat → Assemblies → Assemblies
  | 0, assemblies => assemblies
  | rounds + 1, assemblies =>
    if segmentAssemblyMaxCount ≤ assemblies.entries.length then
      match oldest assemblies.entries with
      | none => assemblies
      | some entry => evictRounds rounds (assemblies.erase entry.1)
    else assemblies

def evictAssembliesIfFull : Assemblies := evictRounds assemblies.entries.length assemblies

/-- The assembly that a chunk is added to: that of its client if it is of the
same stream, and a new one otherwise. -/
def prepare (metadata : ClientSegmentMetadata) (now : Nat) : Assemblies × ClientSegmentAssembly :=
  let fresh : ClientSegmentAssembly := {
    streamId
    metadata
    raw := []
    nextSegmentId := 0
    lastChunkSeenAt := now }
  match assemblies.lookup clientId with
  | some assembly =>
    if assembly.streamId = streamId then (assemblies, assembly)
    else (assemblies.insert clientId fresh, fresh)
  | none => (assemblies.evictAssembliesIfFull.insert clientId fresh, fresh)

end Assemblies

inductive AssemblyUpdate (Message : Type) where
  | pending (assembly : ClientSegmentAssembly)
  | keep
  | ignore
  | drop
  | complete (message : Message)

section

variable {Message : Type} (codec : Codec Message) (assembly : ClientSegmentAssembly)
  (metadata : ClientSegmentMetadata)

/-- The chunk that is next in order is decoded behind what is there. -/
def ClientSegmentAssembly.extend (chunk : List UInt8) (now : Nat) : AssemblyUpdate Message :=
  let chunkEnd := min metadata.messageSizeBytes
    (assembly.raw.length + codec.decodedLenEstimate chunk.length)
  match codec.decodeSlice chunk (chunkEnd - assembly.raw.length) with
  | none => .drop
  | some decoded =>
    let extended := { assembly with
      raw := assembly.raw ++ decoded
      nextSegmentId := assembly.nextSegmentId + 1
      lastChunkSeenAt := now }
    if extended.nextSegmentId < metadata.segmentCount then .pending extended
    else if extended.raw.length ≠ metadata.messageSizeBytes then .drop
    else
      match codec.parseMessage extended.raw with
      | some message => .complete message
      | none => .drop

def ClientSegmentAssembly.update (segmentId : Nat) (chunk : List UInt8) (now : Nat) :
    AssemblyUpdate Message :=
  if metadata.seqId < assembly.metadata.seqId then .ignore
  else if assembly.metadata ≠ metadata then .drop
  else if segmentId < assembly.nextSegmentId then .keep
  else if segmentId ≠ assembly.nextSegmentId then .drop
  else assembly.extend codec metadata chunk now

def invalidChunk (segmentId segmentCount messageSizeBytes : Nat) (chunk : List UInt8) : Bool :=
  segmentCount == 0 || segmentCountMax < segmentCount ||
    segmentCount ≤ segmentId || messageSizeBytes == 0 ||
    reassembledMaxBytes < messageSizeBytes || chunk.isEmpty

/-- `ClientSegmentReassembler::observe`. -/
def Assemblies.observe (assemblies : Assemblies) (envelope : ClientEnvelope Message) (now : Nat) :
    Assemblies × ClientSegmentObservation Message :=
  match envelope.event with
  | .clientMessageChunk segmentId segmentCount messageSizeBytes chunk =>
    match envelope.seqId, envelope.streamId with
    | some seqId, some streamId =>
      let metadata := { seqId, segmentCount, messageSizeBytes }
      if assemblies.shouldIgnoreChunk envelope.clientId streamId seqId segmentId then
        (assemblies, .dropped)
      else if invalidChunk segmentId segmentCount messageSizeBytes chunk
      then
        (assemblies.removeAssembly envelope.clientId streamId, .dropped)
      else
        let prepared := assemblies.prepare envelope.clientId streamId metadata now
        match prepared.2.update codec metadata segmentId chunk now with
        | .pending extended => (prepared.1.insert envelope.clientId extended, .pending)
        | .keep => (prepared.1, .pending)
        | .ignore => (prepared.1, .dropped)
        | .drop => (prepared.1.removeAssembly envelope.clientId streamId, .dropped)
        | .complete message =>
          (prepared.1.removeAssembly envelope.clientId streamId,
            .forward { envelope with event := .clientMessage message })
    | _, _ => (assemblies, .dropped)
  | _ => (assemblies, .forward envelope)

end

/-- The part of `WebsocketState` that inbound envelopes work on. -/
structure WebsocketState where
  subscribeCursor : Option String
  lastCompletedClientChunkSeqIdByStream : AList (fun _ : ClientId × Option StreamId => Nat)
  clientSegmentReassembler : Assemblies

namespace WebsocketState

def empty : WebsocketState := ⟨none, ∅, ∅⟩

variable {Message : Type}

/-- The key of a chunk that carries a seq id. -/
def clientMessageKey (envelope : ClientEnvelope Message) :
    Option ((ClientId × Option StreamId) × Nat) :=
  match envelope.event, envelope.seqId with
  | .clientMessageChunk .., some seqId => some ((envelope.clientId, envelope.streamId), seqId)
  | _, _ => none

variable (state : WebsocketState)

/-- The chunk belongs to a message that was completed before. -/
def alreadyCompleted (key : Option ((ClientId × Option StreamId) × Nat)) : Bool :=
  match key with
  | none => false
  | some (stream, seqId) =>
    match state.lastCompletedClientChunkSeqIdByStream.lookup stream with
    | none => false
    | some lastSeqId => seqId ≤ lastSeqId

variable (envelope : ClientEnvelope Message)

/-- The reassembler has the chunk already. -/
def alreadyAssembled : Bool :=
  match envelope.event, envelope.seqId, envelope.streamId with
  | .clientMessageChunk segmentId .., some seqId, some streamId =>
    state.clientSegmentReassembler.shouldIgnoreChunk envelope.clientId streamId seqId segmentId
  | _, _, _ => false

variable (clientId : ClientId)

def invalidateStream (streamId : StreamId) : WebsocketState :=
  { state with
    clientSegmentReassembler := state.clientSegmentReassembler.removeAssembly clientId streamId }

def observeClientMessage (codec : Codec Message) (state : WebsocketState)
    (envelope : ClientEnvelope Message) (wireSizeBytes now : Nat) :
    WebsocketState × ClientSegmentObservation Message :=
  let key := clientMessageKey envelope
  if state.alreadyCompleted key || state.alreadyAssembled envelope then (state, .dropped)
  else if key.isSome && segmentMaxBytes < wireSizeBytes then
    match envelope.streamId with
    | some streamId => (state.invalidateStream envelope.clientId streamId, .dropped)
    | none => (state, .dropped)
  else
    let observed := state.clientSegmentReassembler.observe codec envelope now
    ({ state with clientSegmentReassembler := observed.1 }, observed.2)

/-- The completed chunk cursor moves after the tracker took the message. -/
def recordClientMessageDelivery (key : Option ((ClientId × Option StreamId) × Nat)) :
    WebsocketState :=
  { state with
    subscribeCursor := envelope.cursor.or state.subscribeCursor
    lastCompletedClientChunkSeqIdByStream :=
      match key with
      | none => state.lastCompletedClientChunkSeqIdByStream
      | some (stream, seqId) => state.lastCompletedClientChunkSeqIdByStream.insert stream seqId }

def invalidateClientMessageStream (streamId : StreamId) : WebsocketState :=
  { state with
    lastCompletedClientChunkSeqIdByStream :=
      state.lastCompletedClientChunkSeqIdByStream.erase (clientId, some streamId) }

/-- The keys of a client are removed one by one. -/
def invalidateClientMessageClient : WebsocketState :=
  { state with
    lastCompletedClientChunkSeqIdByStream :=
      (state.lastCompletedClientChunkSeqIdByStream.keys.filter
        (fun stream => stream.1 == clientId)).foldl
          (fun cursors stream => cursors.erase stream)
          state.lastCompletedClientChunkSeqIdByStream }

def invalidateClient : WebsocketState :=
  { state with
    clientSegmentReassembler := state.clientSegmentReassembler.erase clientId }

end WebsocketState

end Hexa.RemoteControl
