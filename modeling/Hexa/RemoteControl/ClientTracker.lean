/-
The tracker of remote-control clients: connections by client and stream, the
outbound tasks that serve them, and the events that the transport is sent.
-/
import Hexa.Lib.Runs
import Hexa.RemoteControl.Segment

namespace Hexa.RemoteControl

open Function AList

abbrev ClientKey := ClientId × StreamId

/-- Ids of a `u64` counter, which is taken not to wrap around. -/
abbrev ConnectionId := Nat

structure ClientState where
  connectionId : ConnectionId
  lastActivityAt : Nat
  lastInboundSeqId : Option Nat
  deriving Repr, DecidableEq

/-- What the transport is sent.  The seq id of a message is that of its
envelope; the transport does not see it. -/
inductive TransportEvent (Message : Type) where
  | connectionOpened (connectionId : ConnectionId)
  | connectionClosed (connectionId : ConnectionId)
  | incomingMessage (connectionId : ConnectionId) (message : Message) (seqId : Option Nat)

/-- How a send ends: it is taken, it fails or times out, or the worker is
aborted while it waits. -/
inductive SendOutcome where
  | sent
  | failed
  | aborted
  deriving Repr, DecidableEq

/-- How a call ends: with `Ok`, with `Err(Stopped)`, or by an abort. -/
inductive Outcome where
  | done
  | stopped
  | aborted
  deriving Repr, DecidableEq

/-- The outcomes of the sends that one call may make. -/
structure Sends where
  closed : SendOutcome
  opened : SendOutcome
  message : SendOutcome
  deriving Repr, DecidableEq

/-- Every send succeeds. -/
def Sends.all : Sends := ⟨.sent, .sent, .sent⟩

/-- `ClientTracker`.  A task of the join set is kept with the connection that
it serves; `closing` are the detached sends of `ConnectionClosed` that are
still waiting, and `transport` is what the transport has been sent. -/
structure ClientTracker (Message : Type) where
  clients : AList (fun _ : ClientKey => ClientState)
  legacyStreamIds : AList (fun _ : ClientId => StreamId)
  tasks : List (ClientKey × ConnectionId)
  nextConnectionId : ConnectionId
  closing : List ConnectionId
  transport : List (TransportEvent Message)

def clientIdleTimeout : Nat := 10 * 60

def remoteControlClientIsAlive (client : ClientState) (now : Nat) : Bool :=
  now - client.lastActivityAt < clientIdleTimeout

namespace ClientTracker

variable {Message : Type}

def new : ClientTracker Message := ⟨∅, ∅, [], 0, [], []⟩

variable (tracker : ClientTracker Message)

def sendTransportEvent (event : TransportEvent Message) (outcome : SendOutcome) :
    ClientTracker Message × Outcome :=
  match outcome with
  | .sent => ({ tracker with transport := tracker.transport ++ [event] }, .done)
  | .failed => (tracker, .stopped)
  | .aborted => (tracker, .aborted)

/-- `send_connection_closed`: the send is detached, so that it outlives an
abort of the caller. -/
def sendConnectionClosed (connectionId : ConnectionId) (outcome : SendOutcome) :
    ClientTracker Message × Outcome :=
  match outcome with
  | .aborted => ({ tracker with closing := connectionId :: tracker.closing }, .aborted)
  | outcome => tracker.sendTransportEvent (.connectionClosed connectionId) outcome

variable (key : ClientKey)

def removeClient : ClientTracker Message :=
  { tracker with
    clients := tracker.clients.erase key
    legacyStreamIds :=
      if tracker.legacyStreamIds.lookup key.1 = some key.2 then
        tracker.legacyStreamIds.erase key.1
      else tracker.legacyStreamIds }

def closeClient (outcome : SendOutcome) : ClientTracker Message × Outcome :=
  match tracker.clients.lookup key with
  | none => (tracker, .done)
  | some client => (tracker.removeClient key).sendConnectionClosed client.connectionId outcome

def updateClient (update : ClientState → ClientState) : ClientTracker Message :=
  match tracker.clients.lookup key with
  | none => tracker
  | some client => { tracker with clients := tracker.clients.insert key (update client) }

/-- `last_activity_at = now`. -/
def touch (now : Nat) : ClientTracker Message :=
  tracker.updateClient key (fun client => { client with lastActivityAt := now })

def recordInboundMessageDelivery (seqId : Option Nat) : ClientTracker Message :=
  match seqId with
  | none => tracker
  | some seqId =>
    tracker.updateClient key (fun client => { client with lastInboundSeqId := some seqId })

/-- A message with a seq id that is not above the last one delivered. -/
def isDuplicate (seqId : Option Nat) : Bool :=
  match seqId, (tracker.clients.lookup key).bind (·.lastInboundSeqId) with
  | some seqId, some lastSeqId => seqId ≤ lastSeqId
  | _, _ => false

/-- The entries that a new connection makes in the tables. -/
def register (connectionId : ConnectionId) (now : Nat) (isLegacyStreamId : Bool) :
    ClientTracker Message :=
  { tracker with
    tasks := tracker.tasks ++ [(key, connectionId)]
    clients := tracker.clients.insert key ⟨connectionId, now, none⟩
    legacyStreamIds :=
      if isLegacyStreamId then tracker.legacyStreamIds.insert key.1 key.2
      else tracker.legacyStreamIds }

def takeConnectionId : ClientTracker Message :=
  { tracker with nextConnectionId := tracker.nextConnectionId + 1 }

/-- The end of `handle_message` for `initialize`, once the key is free. -/
def openConnection (message : Message) (seqId : Option Nat) (isLegacyStreamId : Bool) (now : Nat)
    (sends : Sends) : ClientTracker Message × Outcome :=
  let connectionId := tracker.nextConnectionId
  match tracker.takeConnectionId.sendTransportEvent
      (.connectionOpened connectionId) sends.opened with
  | (tracker, .done) =>
    match (tracker.register key connectionId now
        isLegacyStreamId).sendTransportEvent
          (.incomingMessage connectionId message seqId) sends.message with
    | (tracker, .done) =>
      if isLegacyStreamId then (tracker, .done)
      else (tracker.recordInboundMessageDelivery key seqId, .done)
    | (tracker, .stopped) =>
      let removed := tracker.removeClient key
      ({ removed with closing := connectionId :: removed.closing }, .stopped)
    | (tracker, .aborted) => (tracker, .aborted)
  | (tracker, outcome) => (tracker, outcome)

/-- A message for a connection that is open. -/
def deliver (client : ClientState) (message : Message) (seqId : Option Nat) (now : Nat)
    (outcome : SendOutcome) : ClientTracker Message × Outcome :=
  match (tracker.touch key now).sendTransportEvent
      (.incomingMessage client.connectionId message seqId) outcome with
  | (tracker, .done) => (tracker.recordInboundMessageDelivery key seqId, .done)
  | (tracker, outcome) => (tracker, outcome)

variable (codec : Codec Message)

def handleClientMessage (tracker : ClientTracker Message) (key : ClientKey) (message : Message)
    (seqId : Option Nat) (isLegacyStreamId : Bool) (now : Nat) (sends : Sends) :
    ClientTracker Message × Outcome :=
  let isInitialize := codec.startsConnection message
  if tracker.isDuplicate key seqId && !isInitialize then (tracker, .done)
  else if isInitialize then
    -- An open connection of the key is closed first.
    match tracker.closeClient key sends.closed with
    | (tracker, .done) => tracker.openConnection key message seqId isLegacyStreamId now sends
    | (tracker, outcome) => (tracker, outcome)
  else
    match tracker.clients.lookup key with
    | some client => tracker.deliver key client message seqId now sends.message
    | none => (tracker, .done)

def isInitialize (event : ClientEvent Message) : Bool :=
  match event with
  | .clientMessage message => codec.startsConnection message
  | _ => false

/-- The stream of an envelope.  A client without stream ids has the one that
its `initialize` was given. -/
def resolveStreamId (tracker : ClientTracker Message) (envelope : ClientEnvelope Message)
    (random : StreamId) : StreamId :=
  match envelope.streamId with
  | some streamId => streamId
  | none =>
    (tracker.legacyStreamIds.lookup envelope.clientId).getD
      (match envelope.event with
      | .clientMessage message => if codec.startsConnection message then random else ⟨""⟩
      | .ping => random
      | _ => ⟨""⟩)

/-- An `initialize` without a stream id takes the client's entry out. -/
def takeLegacyStreamId (tracker : ClientTracker Message) (envelope : ClientEnvelope Message) :
    ClientTracker Message :=
  if envelope.streamId.isNone && isInitialize codec envelope.event then
    { tracker with
      legacyStreamIds := tracker.legacyStreamIds.erase envelope.clientId }
  else tracker

def handleMessage (tracker : ClientTracker Message) (envelope : ClientEnvelope Message)
    (now : Nat) (random : StreamId) (sends : Sends) : ClientTracker Message × Outcome :=
  let streamId := tracker.resolveStreamId codec envelope random
  let tracker := tracker.takeLegacyStreamId codec envelope
  let key := (envelope.clientId, streamId)
  if streamId.value = "" then (tracker, .done)
  else
    match envelope.event with
    | .clientMessage message =>
      tracker.handleClientMessage codec key message envelope.seqId
        envelope.streamId.isNone now sends
    | .clientMessageChunk .. => (tracker, .done)
    | .ack _ => (tracker, .done)
    | .ping => (tracker.touch key now, .done)
    | .clientClosed => tracker.closeClient key sends.closed

def expiredClients (now : Nat) : List ClientKey :=
  (tracker.clients.entries.filter (fun entry =>
    !remoteControlClientIsAlive entry.2 now)).map (·.1)

/-- The loop of `close_expired_clients`, which stops at the first error.  The
keys come in the order of the hash map, which is not fixed. -/
def closeExpiredClients (outcomes : ClientKey → SendOutcome) :
    List ClientKey → ClientTracker Message → ClientTracker Message × Outcome
  | [], tracker => (tracker, .done)
  | key :: keys, tracker =>
    match tracker.closeClient key (outcomes key) with
    | (tracker, .done) => closeExpiredClients outcomes keys tracker
    | (tracker, outcome) => (tracker, outcome)

/-- The loop of `shutdown`, which goes on after an error. -/
def closeAllClients (outcomes : ClientKey → SendOutcome) :
    List ClientKey → ClientTracker Message → ClientTracker Message × Outcome
  | [], tracker => (tracker, .done)
  | key :: keys, tracker =>
    match tracker.closeClient key (outcomes key) with
    | (tracker, .aborted) => (tracker, .aborted)
    | (tracker, _) => closeAllClients outcomes keys tracker

/-- `shutdown` closes the clients and waits for the outbound tasks. -/
def shutdown (outcomes : ClientKey → SendOutcome) (keys : List ClientKey)
    (tracker : ClientTracker Message) : ClientTracker Message × Outcome :=
  match closeAllClients outcomes keys tracker with
  | (tracker, .done) => ({ tracker with tasks := [] }, .done)
  | (tracker, outcome) => (tracker, outcome)

/-- The connection of a key, with the last seq id delivered on it. -/
def slot : Option (ConnectionId × Option Nat) :=
  (tracker.clients.lookup key).map (fun client => (client.connectionId, client.lastInboundSeqId))

section

variable (tracker : ClientTracker Message)

@[simp]
theorem slot_sendConnectionClosed (connectionId : ConnectionId) (outcome : SendOutcome) :
    (tracker.sendConnectionClosed connectionId outcome).1.slot = tracker.slot := by
  cases outcome <;> rfl

section

variable (key : ClientKey)

theorem slot_removeClient :
    (tracker.removeClient key).slot = Function.update tracker.slot key none := by
  funext other
  simp only [slot, removeClient, update_apply]
  split_ifs with hother
  · rw [hother, lookup_erase]
    rfl
  · rw [lookup_erase_ne hother]

theorem slot_closeClient (outcome : SendOutcome) :
    (tracker.closeClient key outcome).1.slot = Function.update tracker.slot key none := by
  simp only [closeClient]
  split
  next habsent =>
    funext other
    simp only [update_apply]
    split_ifs with hother
    · subst hother
      simp [slot, habsent]
    · rfl
  · rw [slot_sendConnectionClosed, slot_removeClient]

theorem slot_updateClient (update : ClientState → ClientState)
    (hconnection : ∀ client, (update client).connectionId = client.connectionId) :
    (tracker.updateClient key update).slot = Function.update tracker.slot key
        ((tracker.clients.lookup key).map (fun client =>
          (client.connectionId, (update client).lastInboundSeqId))) := by
  funext other
  simp only [updateClient, update_apply]
  split
  next habsent =>
    split_ifs with hother
    · subst hother
      simp [slot, habsent]
    · rfl
  next client hclient =>
    split_ifs with hother
    · subst hother
      simp [slot, hclient, hconnection]
    · simp [slot, lookup_insert_ne hother]

@[simp]
theorem slot_touch (now : Nat) : (tracker.touch key now).slot = tracker.slot := by
  have hupdated := slot_updateClient tracker key
    (fun client => { client with lastActivityAt := now }) (fun _ => rfl)
  exact hupdated.trans (update_eq_self key tracker.slot)

theorem slot_recordInboundMessageDelivery (seqId : Option Nat) :
    (tracker.recordInboundMessageDelivery key seqId).slot =
      Function.update tracker.slot key ((tracker.slot key).map (fun slot =>
        (slot.1, seqId.or slot.2))) := by
  cases seqId with
  | none =>
    funext other
    simp only [recordInboundMessageDelivery, update_apply]
    split_ifs with hother
    · subst hother
      cases hslot : tracker.slot other <;> simp
    · rfl
  | some seqId =>
    have hupdated := slot_updateClient tracker key
      (fun client => { client with lastInboundSeqId := some seqId })
      (fun _ => rfl)
    simpa [recordInboundMessageDelivery, slot, comp_def] using hupdated

theorem slot_register (connectionId : ConnectionId) (now : Nat) (isLegacyStreamId : Bool) :
    (tracker.register key connectionId now isLegacyStreamId).slot =
      Function.update tracker.slot key (some (connectionId, none)) := by
  funext other
  simp only [register, slot, update_apply]
  split_ifs with hother
  · rw [hother, lookup_insert]
    rfl
  · rw [lookup_insert_ne hother]

end

end

variable (codec : Codec Message) (tracker : ClientTracker Message)

@[simp]
theorem slot_takeLegacyStreamId (envelope : ClientEnvelope Message) :
    (tracker.takeLegacyStreamId codec envelope).slot = tracker.slot := by
  simp only [takeLegacyStreamId]
  split_ifs <;> rfl

variable {key other : ClientKey} (tracker : ClientTracker Message)

theorem slot_openConnection_ne (message : Message) (seqId : Option Nat) (isLegacyStreamId : Bool)
    (now : Nat) (sends : Sends) (hother : other ≠ key) :
    (tracker.openConnection key message seqId isLegacyStreamId now
      sends).1.slot other = tracker.slot other := by
  have hregistered : ∀ opened : ClientTracker Message,
      (opened.register key tracker.nextConnectionId now
        isLegacyStreamId).slot other = opened.slot other := by
    intro opened
    rw [slot_register, update_of_ne hother]
  cases hopened : sends.opened <;> cases hmessage : sends.message <;>
    simp only [openConnection, sendTransportEvent, hopened, hmessage]
  case sent.sent =>
    split_ifs
    · exact hregistered _
    · rw [slot_recordInboundMessageDelivery, update_of_ne hother]
      exact hregistered _
  case sent.failed =>
    change ((ClientTracker.register _ key _ now isLegacyStreamId).removeClient key).slot other = _
    rw [slot_removeClient, update_of_ne hother]
    exact hregistered _
  case sent.aborted => exact hregistered _
  all_goals rfl

/-- The connection that is open for a key. -/
def openAt (key : ClientKey) : Option ConnectionId := (tracker.slot key).map Prod.fst

theorem openAt_of_slot_eq {first second : ClientTracker Message}
    (hslot : second.slot key = first.slot key) : second.openAt key = first.openAt key := by
  rw [openAt, hslot, openAt]

theorem openAt_deliver (key : ClientKey) (client : ClientState) (message : Message)
    (seqId : Option Nat) (now : Nat) (outcome : SendOutcome) (other : ClientKey) :
    (tracker.deliver key client message seqId now outcome).1.openAt other =
      tracker.openAt other := by
  have htouched : (tracker.touch key now).openAt other = tracker.openAt other := by
    rw [openAt, slot_touch, openAt]
  cases outcome with
  | sent =>
    rw [← htouched]
    simp only [deliver, sendTransportEvent, openAt,
      slot_recordInboundMessageDelivery, update_apply]
    split_ifs with hother
    · subst hother
      rw [Option.map_map]
      rfl
    · rfl
  | failed | aborted => exact htouched

section

variable (codec : Codec Message) (tracker : ClientTracker Message)

/-- Only `initialize` closes or opens a connection, and only for its key. -/
theorem openAt_handleClientMessage (message : Message) (seqId : Option Nat)
    (isLegacyStreamId : Bool) (now : Nat) (sends : Sends)
    (hkept : other ≠ key ∨ codec.startsConnection message = false) :
    (tracker.handleClientMessage codec key message seqId isLegacyStreamId now
      sends).1.openAt other = tracker.openAt other := by
  simp only [handleClientMessage]
  split_ifs with hduplicate hinitialize
  · rfl
  · have hother : other ≠ key := by
      rcases hkept with hother | hplain
      · exact hother
      · simp [hplain] at hinitialize
    have hclosed : (tracker.closeClient key sends.closed).1.slot other = tracker.slot other := by
      rw [slot_closeClient, update_of_ne hother]
    split
    next closed heq =>
      rw [heq] at hclosed
      exact openAt_of_slot_eq ((slot_openConnection_ne _ _ _ _ _ _ hother).trans hclosed)
    next closed outcome _ heq =>
      rw [heq] at hclosed
      exact openAt_of_slot_eq hclosed
  · split
    · exact openAt_deliver tracker _ _ _ _ _ _ other
    · rfl

theorem openAt_takeLegacyStreamId (envelope : ClientEnvelope Message) (key : ClientKey) :
    (tracker.takeLegacyStreamId codec envelope).openAt key = tracker.openAt key := by
  rw [openAt, slot_takeLegacyStreamId, openAt]

end

variable (envelope : ClientEnvelope Message)

/-- The key that an envelope is for. -/
def keyOf (random : StreamId) : ClientKey :=
  (envelope.clientId, tracker.resolveStreamId codec envelope random)

/-- An envelope closes a connection of its own key, by `initialize` or
`ClientClosed`. -/
theorem openAt_handleMessage (now : Nat) (random : StreamId) (sends : Sends)
    (hkept : other ≠ tracker.keyOf codec envelope random ∨ (isInitialize codec
    envelope.event = false ∧ envelope.event ≠ .clientClosed)) :
    (tracker.handleMessage codec envelope now random sends).1.openAt other =
      tracker.openAt other := by
  have hlegacy := openAt_takeLegacyStreamId codec tracker envelope other
  unfold keyOf at hkept
  simp only [handleMessage]
  split_ifs
  · exact hlegacy
  · split
    next message hevent =>
      rw [openAt_handleClientMessage, hlegacy]
      rcases hkept with hother | ⟨hplain, -⟩
      · exact .inl hother
      · simp only [hevent] at hplain
        exact .inr hplain
    · exact hlegacy
    · exact hlegacy
    · rw [openAt, slot_touch]
      exact hlegacy
    next hevent =>
      rcases hkept with hother | ⟨-, hopen⟩
      · rw [openAt, slot_closeClient, update_of_ne hother]
        exact hlegacy
      · exact absurd hevent hopen

theorem openAt_closeExpiredClients (outcomes : ClientKey → SendOutcome) (keys : List ClientKey)
    (tracker : ClientTracker Message) (hother : other ∉ keys) :
    (closeExpiredClients outcomes keys tracker).1.openAt other = tracker.openAt other := by
  induction keys generalizing tracker with
  | nil => rfl
  | cons key keys ih =>
    simp only [List.mem_cons, not_or] at hother
    have hclosed : (tracker.closeClient key (outcomes key)).1.openAt other =
        tracker.openAt other := by
      rw [openAt, slot_closeClient, update_of_ne hother.1, openAt]
    simp only [closeExpiredClients]
    split
    next closed heq =>
      rw [heq] at hclosed
      exact (ih closed hother.2).trans hclosed
    next closed outcome _ heq =>
      rw [heq] at hclosed
      exact hclosed

theorem mem_expiredClients (now : Nat) (hexpired : key ∈ tracker.expiredClients now) :
    ∃ client, tracker.clients.lookup key = some client ∧
      remoteControlClientIsAlive client now = false := by
  simp only [expiredClients, List.mem_map, List.mem_filter] at hexpired
  obtain ⟨⟨found, client⟩, ⟨hmem, hidle⟩, rfl⟩ := hexpired
  exact ⟨client, mem_lookup_iff.mpr hmem, by simpa using hidle⟩

end ClientTracker

end Hexa.RemoteControl
