/-
The executor's multiplexed relay loop.  One physical relay carries many
virtual streams; a stream is served only after its Noise handshake has been
read and the registry has authorized the harness key.  The registry checks run
beside the loop, so their results arrive in any order.
-/
import Hexa.Lib.Runs
import Hexa.NoiseRelay.Delivery

namespace Hexa.NoiseRelay

def relayMessageFrameVersion : Nat := 1
def maxActiveNoiseRelayStreams : Nat := 128
def maxFailedNoiseHandshakes : Nat := 8
def maxHarnessKeyAuthorizationBytes : Nat := 4096
def maxPendingHandshakeValidations : Nat := 32

def noiseRelayResetReason : Text := "noise_relay_protocol_error".toList

/-- The body of a frame of the relay protocol.  Acknowledgements, resumptions
and heartbeats carry nothing that the executor reads. -/
inductive RelayBody where
  | data (segmentIndex segmentCount : Nat) (data : RelayData)
  | ackFrame
  | resume
  | reset (reason : Text)
  | heartbeat
  | handshake (payload : Bytes)
  deriving Repr, DecidableEq

structure RelayMessageFrame where
  version : Nat
  streamId : Text
  body : Option RelayBody
  deriving Repr, DecidableEq

inductive RelayFrameBodyKind where
  | data | ack | resume | reset | heartbeat | handshake
  deriving Repr, DecidableEq

namespace RelayMessageFrame

def ofHandshake (streamId : Text) (payload : Bytes) : RelayMessageFrame :=
  ⟨relayMessageFrameVersion, streamId, some (.handshake payload)⟩

def ofReset (streamId reason : Text) : RelayMessageFrame :=
  ⟨relayMessageFrameVersion, streamId, some (.reset reason)⟩

variable (frame : RelayMessageFrame)

def validate : Except ExecServerError RelayFrameBodyKind :=
  if frame.version ≠ relayMessageFrameVersion then
    .error (.protocol ("unsupported relay message frame version " ++ toString frame.version))
  else if trim frame.streamId = [] then
    .error (.protocol "relay message frame is missing stream_id")
  else
    match frame.body with
    | some (.data segmentIndex segmentCount data) =>
      if segmentIndex ≠ 0 ∨ segmentCount ≠ 1 ∨ data.payload = [] then
        .error (.protocol "relay data message frame is missing required fields")
      else .ok .data
    | some .ackFrame => .ok .ack
    | some .resume => .ok .resume
    | some (.reset reason) =>
      if reason = [] then .error (.protocol "relay reset message frame is missing reason")
      else .ok .reset
    | some .heartbeat => .ok .heartbeat
    | some (.handshake payload) =>
      if payload = [] then .error (.protocol "relay handshake message frame is missing payload")
      else .ok .handshake
    | none => .error (.protocol "relay message frame is missing body")

def intoData : Except ExecServerError RelayData :=
  match frame.validate with
  | .error error => .error error
  | .ok kind =>
    if kind ≠ .data then .error (.protocol "expected relay data message frame")
    else
      match frame.body with
      | some (.data _ _ data) => .ok data
      | _ => .error (.protocol "expected relay data message frame")

def intoHandshakePayload : Except ExecServerError Bytes :=
  match frame.validate with
  | .error error => .error error
  | .ok kind =>
    if kind ≠ .handshake then .error (.protocol "expected relay handshake message frame")
    else
      match frame.body with
      | some (.handshake payload) => .ok payload
      | _ => .error (.protocol "expected relay handshake message frame")

end RelayMessageFrame

structure NoiseChannelPublicKey where
  suite : Text
  x25519PublicKey : Text
  mlkem768PublicKey : Text
  deriving Repr, DecidableEq

/-- A read handshake request.  The state of the Noise library is left out:
completing the handshake is an outcome of the step that does it. -/
structure PendingResponderHandshake where
  initiatorPublicKey : NoiseChannelPublicKey
  payload : Bytes
  deriving Repr, DecidableEq

/-- Reading a handshake request, with the executor's identity and the prologue
of the stream. -/
abbrev ReadRequest := Text → Bytes → Except String PendingResponderHandshake

structure PendingHandshake where
  validationId : Nat
  handshake : PendingResponderHandshake
  deriving Repr, DecidableEq

/-- A registry check on its way.  Its result names the same stream and
validation. -/
structure ValidationTask where
  streamId : Text
  validationId : Nat
  harnessPublicKey : NoiseChannelPublicKey
  authorization : String
  deriving Repr, DecidableEq

/-- An entry of the active stream table. -/
structure ActiveStream where
  instanceId : Nat
  transport : NoiseTransport
  reader : NoiseVirtualStream

inductive RendezvousDisconnectReason where
  | peerClose | readError | writeError | pongTimeout | localShutdown
  deriving Repr, DecidableEq

/-- The locals of `run_multiplexed_environment`.  `outgoing` is what the loop
offered to the physical writer, and `disconnected` holds the reason once the
loop has ended. -/
structure MultiplexedEnvironment where
  streams : AList (fun _ : Text => ActiveStream) := ∅
  pendingHandshakes : AList (fun _ : Text => PendingHandshake) := ∅
  validationTasks : List ValidationTask := []
  failedHandshakes : Nat := 0
  nextValidationId : Nat := 0
  outgoing : List RelayMessageFrame := []
  disconnected : Option RendezvousDisconnectReason := none

/-- What `websocket_stream.next()` returns.  A binary message comes with the
outcome of decoding it. -/
inductive WebSocketMessage where
  | binary (decoded : Except ExecServerError RelayMessageFrame)
  | text
  | ping
  | pong
  | close
  | failed
  | ended

/-- What the loop selects on.  The outcomes of the Noise library, of the
registry and of the bounded queues come with the event that meets them. -/
inductive Event where
  | writerEnded (reason : RendezvousDisconnectReason)
  | closedStream (streamId : Text) (instanceId : Nat)
  | validated (task : ValidationTask) (result : Except ExecServerError Unit)
      (completed : Except String (NoiseTransport × Bytes)) (queued : Bool)
  | validationFailed (task : ValidationTask)
  | incoming (message : WebSocketMessage) (handler : Handler)

namespace MultiplexedEnvironment

variable (state : MultiplexedEnvironment)

def sendReset (streamId : Text) : MultiplexedEnvironment :=
  { state with
    outgoing := state.outgoing ++ [.ofReset streamId noiseRelayResetReason] }

def disconnect (reason : RendezvousDisconnectReason) : MultiplexedEnvironment :=
  { state with disconnected := some reason }

/-- `failed_handshake_budget_exhausted`, and leaving the loop if it is. -/
def chargeFailure : MultiplexedEnvironment :=
  let charged := { state with failedHandshakes := state.failedHandshakes + 1 }
  if charged.failedHandshakes ≥ maxFailedNoiseHandshakes then charged.disconnect .localShutdown
  else charged

def dropStream (streamId : Text) : MultiplexedEnvironment :=
  { state with streams := state.streams.erase streamId }

def dropPending (streamId : Text) : MultiplexedEnvironment :=
  { state with pendingHandshakes := state.pendingHandshakes.erase streamId }

variable (task : ValidationTask)

/-- `join_next` takes a finished task out of the set. -/
def joinTask : MultiplexedEnvironment :=
  { state with validationTasks := state.validationTasks.erase task }

/-- A notification that a virtual stream has ended. -/
def onClosedStream (streamId : Text) (instanceId : Nat) : MultiplexedEnvironment :=
  match state.streams.lookup streamId with
  | none => state
  | some stream =>
    if stream.instanceId = instanceId then (state.dropStream streamId).sendReset streamId
    else state

/-- The registry has authorized the key of a handshake that is no longer
pending. -/
def activate (completed : Except String (NoiseTransport × Bytes)) (queued : Bool) :
    MultiplexedEnvironment :=
  if state.streams.keys.length ≥ maxActiveNoiseRelayStreams then state.sendReset task.streamId
  else
    match completed with
    | .error _ => (state.sendReset task.streamId).chargeFailure
    | .ok (transport, response) =>
      -- The handshake reply goes out before the stream is served.
      if queued then
        { state with
          outgoing := state.outgoing ++ [.ofHandshake task.streamId response]
          streams := state.streams.insert task.streamId ⟨task.validationId, transport, {}⟩ }
      else state.disconnect .localShutdown

/-- A registry check has returned. -/
def onValidated (result : Except ExecServerError Unit)
    (completed : Except String (NoiseTransport × Bytes)) (queued : Bool) :
    MultiplexedEnvironment :=
  let joined := state.joinTask task
  match state.pendingHandshakes.lookup task.streamId with
  | none => joined
  | some pending =>
    if pending.validationId = task.validationId then
      let taken := joined.dropPending task.streamId
      match result with
      | .error _ => (taken.sendReset task.streamId).chargeFailure
      | .ok () => taken.activate task completed queued
    else joined

/-- A registry check has failed without a result. -/
def onValidationFailed : MultiplexedEnvironment :=
  let streamIds := state.pendingHandshakes.keys
  streamIds.foldl sendReset { state.joinTask task with pendingHandshakes := ∅ }

/-- The authorization that a handshake request carries. -/
def readAuthorization (payload : Bytes) : Option String :=
  match String.fromUTF8? ⟨payload.toArray⟩ with
  | some authorization =>
    if authorization.utf8ByteSize ≤ maxHarnessKeyAuthorizationBytes then some authorization
    else none
  | none => none

variable (readRequest : ReadRequest) (state : MultiplexedEnvironment)

/-- The responder's part of a handshake, up to the registry check. -/
def startHandshake (streamId : Text) (request : Bytes) : MultiplexedEnvironment :=
  match readRequest streamId request with
  | .error _ => (state.sendReset streamId).chargeFailure
  | .ok pending =>
    match readAuthorization pending.payload with
    | none => (state.sendReset streamId).chargeFailure
    | some authorization =>
      let validationId := state.nextValidationId
      { state with
        nextValidationId := validationId + 1
        pendingHandshakes := state.pendingHandshakes.insert streamId
          ⟨validationId, { pending with payload := [] }⟩
        validationTasks := state.validationTasks ++
          [⟨streamId, validationId, pending.initiatorPublicKey, authorization⟩] }

def onHandshake (frame : RelayMessageFrame) : MultiplexedEnvironment :=
  if frame.streamId ∈ state.streams then state.sendReset frame.streamId
  else if frame.streamId ∈ state.pendingHandshakes then
    ((state.dropPending frame.streamId).sendReset frame.streamId).chargeFailure
  else if state.streams.keys.length ≥ maxActiveNoiseRelayStreams then
    state.sendReset frame.streamId
  else if state.validationTasks.length ≥ maxPendingHandshakeValidations then
    state.sendReset frame.streamId
  else
    match frame.intoHandshakePayload with
    | .error _ => state.sendReset frame.streamId
    | .ok request => startHandshake readRequest state frame.streamId request

variable (handler : Handler) (frame : RelayMessageFrame)

def onData : MultiplexedEnvironment :=
  match state.streams.lookup frame.streamId with
  | none =>
    let dropped := (state.dropPending frame.streamId).sendReset frame.streamId
    if frame.streamId ∈ state.pendingHandshakes then dropped.chargeFailure
    else dropped
  | some stream =>
    match frame.intoData with
    | .error _ => (state.dropStream frame.streamId).sendReset frame.streamId
    | .ok data =>
      match receiveData stream.transport handler stream.reader data with
      | (_, .error _) => (state.dropStream frame.streamId).sendReset frame.streamId
      | (reader, .ok ()) =>
        { state with
          streams := state.streams.insert frame.streamId { stream with reader } }

def onReset : MultiplexedEnvironment :=
  (state.dropPending frame.streamId).dropStream frame.streamId

/-- A decoded frame of the peer. -/
def onFrame : MultiplexedEnvironment :=
  match frame.validate with
  | .error _ => state
  | .ok .handshake => onHandshake readRequest state frame
  | .ok .data => state.onData handler frame
  | .ok .reset => state.onReset frame
  | .ok .ack => state
  | .ok .resume => state
  | .ok .heartbeat => state

def onMessage :
    WebSocketMessage → MultiplexedEnvironment
  | .binary (.ok frame) => onFrame readRequest state handler frame
  | .binary (.error _) => state
  | .close => state.disconnect .peerClose
  | .ended => state.disconnect .peerClose
  | .failed => state.disconnect .readError
  | .text => state
  | .ping => state
  | .pong => state

/-- One turn of the loop. -/
def step :
    Event → MultiplexedEnvironment
  | .writerEnded reason => state.disconnect reason
  | .closedStream streamId instanceId => state.onClosedStream streamId instanceId
  | .validated task result completed queued => state.onValidated task result completed queued
  | .validationFailed task => state.onValidationFailed task
  | .incoming message handler => onMessage readRequest state handler message

end MultiplexedEnvironment

/-- Only a task of the set can finish. -/
def Event.Enabled (state : MultiplexedEnvironment) : Event → Prop
  | .validated task _ _ _ => task ∈ state.validationTasks
  | .validationFailed task => task ∈ state.validationTasks
  | .writerEnded _ => True
  | .closedStream _ _ => True
  | .incoming _ _ => True

/-- A turn of the loop that the events allow. -/
def Turn (readRequest : ReadRequest) (state : MultiplexedEnvironment) (event : Event)
    (next : MultiplexedEnvironment) : Prop :=
  state.disconnected = none ∧ event.Enabled state ∧ next = state.step readRequest event

end Hexa.NoiseRelay
