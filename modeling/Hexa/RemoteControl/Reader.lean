/-
The reader of the remote-control websocket: one turn of its loop, on the
tracker and the reassembly state that it shares with later readers.
-/
import Hexa.RemoteControl.ClientTracker

namespace Hexa.RemoteControl

/-- What a reader works on.  It outlives the reader, which ends at an error
and is started again for the next websocket. -/
structure Reader (Message : Type) where
  tracker : ClientTracker Message
  state : WebsocketState

/-- What a turn of the loop takes up, with the outcomes of its sends. -/
inductive Input (Message : Type) where
  | envelope (envelope : ClientEnvelope Message) (wireSizeBytes now : Nat)
      (random : StreamId) (sends : Sends)
  | taskEnded (key : ClientKey) (connectionId : ConnectionId) (closed : SendOutcome)
  | taskPanicked (key : ClientKey) (connectionId : ConnectionId)
  | idleSweep (now : Nat) (keys : List ClientKey) (outcomes : ClientKey → SendOutcome)
  | shutdown (keys : List ClientKey) (outcomes : ClientKey → SendOutcome)
  | closedSent (connectionId : ConnectionId)
  | closedFailed (connectionId : ConnectionId)

namespace WebsocketState

variable {Message : Type}

/-- The stream is gone: its assembly and its chunk cursor go too. -/
def forgetStream (state : WebsocketState) (key : ClientKey) : WebsocketState :=
  (state.invalidateStream key.1 key.2).invalidateClientMessageStream key.1 key.2

/-- After `ClientClosed`, for one stream or for the whole client. -/
def afterDelivery (state : WebsocketState) (envelope : ClientEnvelope Message) : WebsocketState :=
  match envelope.event, envelope.streamId with
  | .clientClosed, some streamId => state.forgetStream (envelope.clientId, streamId)
  | .clientClosed, none =>
    (state.invalidateClient envelope.clientId).invalidateClientMessageClient envelope.clientId
  | _, _ => state

end WebsocketState

namespace Reader

variable {Message : Type}

def new : Reader Message := ⟨ClientTracker.new, WebsocketState.empty⟩

/-- A turn that takes up an envelope. -/
def receive (codec : Codec Message) (reader : Reader Message) (envelope : ClientEnvelope Message)
    (wireSizeBytes now : Nat) (random : StreamId) (sends : Sends) : Reader Message × Outcome :=
  match reader.state.observeClientMessage codec envelope wireSizeBytes now with
  | (state, .forward forwarded) =>
    match reader.tracker.handleMessage codec forwarded now random sends with
    | (tracker, .done) =>
      (⟨tracker, (state.recordClientMessageDelivery forwarded
        (WebsocketState.clientMessageKey envelope)).afterDelivery forwarded⟩, .done)
    | (tracker, outcome) => (⟨tracker, state⟩, outcome)
  | (state, _) => ({ reader with state }, .done)

variable (reader : Reader Message)

/-- A turn that takes up the end of an outbound task.  The task is known only
by the key that it returns. -/
def taskEnded (key : ClientKey) (connectionId : ConnectionId) (closed : SendOutcome) :
    Reader Message × Outcome :=
  let joined := { reader.tracker with
    tasks := reader.tracker.tasks.erase (key, connectionId) }
  match joined.closeClient key closed with
  | (tracker, .done) => (⟨tracker, reader.state.forgetStream key⟩, .done)
  | (tracker, outcome) => ({ reader with tracker }, outcome)

/-- A turn of the idle sweep, with the keys that have expired. -/
def idleSweep (keys : List ClientKey) (outcomes : ClientKey → SendOutcome) :
    Reader Message × Outcome :=
  match reader.tracker.closeExpiredClients outcomes keys with
  | (tracker, .done) => (⟨tracker, keys.foldl WebsocketState.forgetStream reader.state⟩, .done)
  | (tracker, outcome) => ({ reader with tracker }, outcome)

variable (codec : Codec Message)

def turn (reader : Reader Message) :
    Input Message → Reader Message
  | .envelope envelope wireSizeBytes now random sends =>
    (reader.receive codec envelope wireSizeBytes now random sends).1
  | .taskEnded key connectionId closed => (reader.taskEnded key connectionId closed).1
  | .taskPanicked key connectionId =>
    { reader with tracker := { reader.tracker with
        tasks := reader.tracker.tasks.erase (key, connectionId) } }
  | .idleSweep _ keys outcomes => (reader.idleSweep keys outcomes).1
  | .shutdown keys outcomes =>
    { reader with tracker := (reader.tracker.shutdown outcomes keys).1 }
  | .closedSent connectionId =>
    { reader with tracker := { reader.tracker with
        closing := reader.tracker.closing.erase connectionId
        transport := reader.tracker.transport ++ [.connectionClosed connectionId] } }
  | .closedFailed connectionId =>
    { reader with tracker := { reader.tracker with
        closing := reader.tracker.closing.erase connectionId } }

variable {envelope : ClientEnvelope Message} {wireSizeBytes : Nat}

section

variable (reader : Reader Message) {now : Nat} (random : StreamId) (sends : Sends)

/-- A turn for an envelope that is forwarded: the tracker and the outcome are
those of `handle_message`, and the state goes on only when it succeeds. -/
theorem receive_forward {forwarded : ClientEnvelope Message} (hforward :
    (reader.state.observeClientMessage codec envelope wireSizeBytes now).2 =
    .forward forwarded) :
    let handled := reader.tracker.handleMessage codec forwarded now random sends
    let result := reader.receive codec envelope wireSizeBytes now random sends
    result.1.tracker = handled.1 ∧ result.2 = handled.2 ∧
      (handled.2 ≠ .done → result.1.state =
        (reader.state.observeClientMessage codec envelope wireSizeBytes now).1) := by
  simp only [receive]
  split
  next state other heq =>
    rw [heq] at hforward
    cases hforward
    rw [heq]
    split
    next tracker hhandled =>
      rw [hhandled]
      exact ⟨rfl, rfl, fun hfailed => absurd rfl hfailed⟩
    next tracker outcome _ hhandled =>
      rw [hhandled]
      exact ⟨rfl, rfl, fun _ => rfl⟩
  next state observation hnot heq =>
    rw [heq] at hforward
    exact absurd hforward (hnot forwarded)

/-- The tracker after an envelope that is kept or dropped. -/
theorem tracker_receive_other (hother : ∀ forwarded,
    (reader.state.observeClientMessage codec envelope wireSizeBytes now).2 ≠
    .forward forwarded) :
    (reader.receive codec envelope wireSizeBytes now random
      sends).1.tracker = reader.tracker := by
  unfold receive
  split
  next state forwarded heq =>
    rw [heq] at hother
    exact absurd rfl (hother forwarded)
  · rfl

end

theorem tracker_taskEnded (key : ClientKey) (connectionId : ConnectionId) (closed : SendOutcome) :
    (reader.taskEnded key connectionId closed).1.tracker =
      (ClientTracker.closeClient { reader.tracker with
        tasks := reader.tracker.tasks.erase (key, connectionId) } key closed).1 := by
  simp only [taskEnded]
  split
  next tracker hclosed => rw [hclosed]
  next tracker outcome _ hclosed => rw [hclosed]

theorem tracker_idleSweep (keys : List ClientKey) (outcomes : ClientKey → SendOutcome) :
    (reader.idleSweep keys outcomes).1.tracker =
      (reader.tracker.closeExpiredClients outcomes keys).1 := by
  unfold idleSweep
  split
  next tracker hswept => rw [hswept]
  next tracker outcome _ hswept => rw [hswept]

/-- A task ends once, and a detached send ends once; a sweep takes the keys
that have expired and a shutdown takes all, each in some order. -/
def Enabled : Input Message → Prop
  | .taskEnded key connectionId _ => (key, connectionId) ∈ reader.tracker.tasks
  | .taskPanicked key connectionId => (key, connectionId) ∈ reader.tracker.tasks
  | .closedSent connectionId => connectionId ∈ reader.tracker.closing
  | .closedFailed connectionId => connectionId ∈ reader.tracker.closing
  | .idleSweep now keys _ => keys.Perm (reader.tracker.expiredClients now)
  | .shutdown keys _ => keys.Perm reader.tracker.clients.keys
  | .envelope .. => True

def Step (first : Reader Message) (input : Input Message) (second : Reader Message) : Prop :=
  first.Enabled input ∧ second = first.turn codec input

end Reader

end Hexa.RemoteControl
