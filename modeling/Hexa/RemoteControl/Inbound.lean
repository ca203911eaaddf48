/-
Delivery of inbound messages: in what order the transport sees them, and what
becomes of a message whose forwarding fails.
-/
import Hexa.RemoteControl.Isolation
import Hexa.RemoteControl.Reassembly

namespace Hexa.RemoteControl

open List WebsocketState

variable {Message : Type}

/-- The transport has taken a message as the last event of a call. -/
def Accepted (tracker : ClientTracker Message) (outcome : Outcome) (message : Message)
    (seqId : Option Nat) : Prop :=
  outcome = .done ∧ ∃ before connectionId, tracker.transport =
    before ++ [.incomingMessage connectionId message seqId]

namespace ClientTracker

section

variable (tracker : ClientTracker Message) (key : ClientKey)

theorem transport_updateClient (update : ClientState → ClientState) :
    (tracker.updateClient key update).transport = tracker.transport := by
  unfold updateClient
  split <;> rfl

theorem transport_recordInboundMessageDelivery (seqId : Option Nat) :
    (tracker.recordInboundMessageDelivery key seqId).transport = tracker.transport := by
  cases seqId with
  | none => rfl
  | some seqId => exact transport_updateClient _ _ _

/-- A connection is opened when every send succeeds. -/
theorem openConnection_accepted (message : Message) (seqId : Option Nat) (isLegacyStreamId : Bool)
    (now : Nat) :
    let result := tracker.openConnection key message seqId isLegacyStreamId now .all
    Accepted result.1 result.2 message seqId := by
  simp only [openConnection]
  split_ifs
  · exact ⟨rfl, _, _, rfl⟩
  · exact ⟨rfl, _, _, transport_recordInboundMessageDelivery _ _ _⟩

theorem deliver_accepted (client : ClientState) (message : Message) (seqId : Option Nat)
    (now : Nat) :
    let result := tracker.deliver key client message seqId now .sent
    Accepted result.1 result.2 message seqId :=
  ⟨rfl, _, _, transport_recordInboundMessageDelivery _ _ _⟩

end

variable {message : Message} {key : ClientKey} {seqId : Option Nat}

/-- `initialize` is accepted, and so is a message on an open connection that
is above the last one. -/
theorem handleClientMessage_accepted (codec : Codec Message)
    (tracker : ClientTracker Message) (isLegacyStreamId : Bool) (now : Nat)
    (hready : codec.startsConnection message = true ∨
      ((tracker.openAt key).isSome ∧ tracker.isDuplicate key seqId = false)) :
    let result := tracker.handleClientMessage codec key message seqId isLegacyStreamId now .all
    Accepted result.1 result.2 message seqId := by
  simp only [handleClientMessage]
  split_ifs with hduplicate hstarts
  · rcases hready with hstarts | ⟨-, hnew⟩
    · simp [hstarts] at hduplicate
    · simp [hnew] at hduplicate
  · have hclosed : (tracker.closeClient key .sent).2 = .done := by
      unfold closeClient
      split <;> rfl
    split
    · exact openConnection_accepted _ _ _ _ _ _
    next closed outcome hnot heq =>
      rw [show Sends.all.closed = .sent from rfl] at heq
      rw [heq] at hclosed
      exact absurd hclosed hnot
  · split
    · exact deliver_accepted _ _ _ _ _ _
    next habsent =>
      rcases hready with hinitialize | ⟨hopen, -⟩
      · exact absurd hinitialize hstarts
      · simp [openAt, slot, habsent] at hopen

variable {first second : ClientTracker Message}

theorem isDuplicate_congr (seqId : Option Nat) (hslot : second.slot key = first.slot key) :
    second.isDuplicate key seqId = first.isDuplicate key seqId := by
  have hlast : ∀ tracker : ClientTracker Message,
      (tracker.clients.lookup key).bind (·.lastInboundSeqId) =
        (tracker.slot key).bind Prod.snd := by
    intro tracker
    cases hclient : tracker.clients.lookup key <;> simp [slot, hclient]
  simp only [isDuplicate, hlast, hslot]

/-- Whatever fresh stream id is drawn, the message goes to an open connection
as a new one, or opens a connection. -/
def Ready (codec : Codec Message) (tracker : ClientTracker Message)
    (envelope : ClientEnvelope Message) : Prop :=
  ∀ random : StreamId, random.value ≠ "" →
    (tracker.resolveStreamId codec envelope random).value ≠ "" ∧
    (isInitialize codec envelope.event = true ∨
      ((tracker.openAt (tracker.keyOf codec envelope random)).isSome ∧
        tracker.isDuplicate (tracker.keyOf codec envelope random) envelope.seqId = false))

variable {codec : Codec Message} {tracker : ClientTracker Message}
  {envelope : ClientEnvelope Message} {random : StreamId}

theorem Ready.accepted (hready : tracker.Ready codec envelope)
    (hmessage : envelope.event = .clientMessage message) (now : Nat)
    (hrandom : random.value ≠ "") :
    let result := tracker.handleMessage codec envelope now random .all
    Accepted result.1 result.2 message envelope.seqId := by
  obtain ⟨hstream, hready⟩ := hready random hrandom
  simp only [handleMessage, if_neg hstream, hmessage]
  apply handleClientMessage_accepted
  rw [hmessage] at hready
  rcases hready with hstarts | ⟨hopen, hnew⟩
  · exact .inl hstarts
  · refine .inr ⟨?_, ?_⟩
    · rw [openAt_takeLegacyStreamId]
      exact hopen
    · refine Eq.trans ?_ hnew
      exact isDuplicate_congr _ (congrFun (slot_takeLegacyStreamId codec tracker envelope) _)

/-- Nothing that is recorded or sent in between is a delivery. -/
structure Unrecorded (first second : ClientTracker Message) : Prop where
  slots : ∀ key connectionId last,
    second.slot key = some (connectionId, some last) →
    first.slot key = some (connectionId, some last)
  messages : second.transport.filter TransportEvent.isMessage =
    first.transport.filter TransportEvent.isMessage

theorem Unrecorded.of_slot_eq (hslot : second.slot = first.slot)
    (htransport : second.transport = first.transport) : Unrecorded first second :=
  ⟨fun _ _ _ hrecorded => hslot ▸ hrecorded, by rw [htransport]⟩

theorem Unrecorded.trans {third : ClientTracker Message} (hfirst : Unrecorded first second)
    (hsecond : Unrecorded second third) : Unrecorded first third :=
  ⟨fun key connectionId last hrecorded => hfirst.slots key connectionId last
    (hsecond.slots key connectionId last hrecorded),
    hsecond.messages.trans hfirst.messages⟩

section

variable (tracker : ClientTracker Message) (key : ClientKey)

theorem unrecorded_removeClient : Unrecorded tracker (tracker.removeClient key) := by
  refine ⟨?_, rfl⟩
  intro other connectionId last hrecorded
  rw [slot_removeClient, Function.update_apply] at hrecorded
  split_ifs at hrecorded
  exact hrecorded

theorem unrecorded_closeClient (outcome : SendOutcome) :
    Unrecorded tracker (tracker.closeClient key outcome).1 := by
  unfold closeClient
  split
  · exact Unrecorded.of_slot_eq rfl rfl
  · have hremoved := unrecorded_removeClient tracker key
    refine hremoved.trans ⟨?_, ?_⟩
    · rw [slot_sendConnectionClosed]
      exact fun _ _ _ => id
    · cases outcome <;>
        simp [sendConnectionClosed, sendTransportEvent, TransportEvent.isMessage]

theorem unrecorded_register (connectionId : ConnectionId) (now : Nat) (isLegacyStreamId : Bool) :
    Unrecorded tracker (tracker.register key connectionId now isLegacyStreamId) := by
  refine ⟨?_, rfl⟩
  intro other otherId last hrecorded
  rw [slot_register, Function.update_apply] at hrecorded
  split_ifs at hrecorded
  · simp at hrecorded
  · exact hrecorded

end

variable {now : Nat} {sends : Sends}

theorem unrecorded_openConnection (tracker : ClientTracker Message) {isLegacyStreamId : Bool}
    (hfailed : (tracker.openConnection key message seqId isLegacyStreamId now sends).2 ≠ .done) :
    Unrecorded tracker (tracker.openConnection key message seqId
      isLegacyStreamId now sends).1 := by
  have hopened : Unrecorded tracker { tracker.takeConnectionId with
      transport := tracker.transport ++ [.connectionOpened tracker.nextConnectionId] } :=
    ⟨fun _ _ _ => id, by simp [TransportEvent.isMessage]⟩
  have hregistered := hopened.trans (unrecorded_register _ key
    tracker.nextConnectionId now isLegacyStreamId)
  revert hfailed
  cases hopen : sends.opened <;> cases hmessage : sends.message <;>
    simp only [openConnection, sendTransportEvent, hopen, hmessage] <;>
    intro hfailed
  case sent.sent =>
    split_ifs at hfailed <;> exact absurd rfl hfailed
  case sent.failed =>
    have hremoved := hregistered.trans (unrecorded_removeClient _ key)
    exact hremoved.trans (Unrecorded.of_slot_eq rfl rfl)
  case sent.aborted => exact hregistered
  all_goals exact Unrecorded.of_slot_eq rfl rfl

theorem deliver_failed (tracker : ClientTracker Message) {client : ClientState}
    {outcome : SendOutcome}
    (hfailed : (tracker.deliver key client message seqId now outcome).2 ≠ .done) :
    (tracker.deliver key client message seqId now outcome).1 = tracker.touch key now := by
  cases outcome with
  | sent => exact absurd rfl hfailed
  | failed | aborted => rfl

theorem unrecorded_handleMessage (codec : Codec Message) (tracker : ClientTracker Message)
    (hfailed : (tracker.handleMessage codec envelope now random sends).2 ≠ .done) :
    Unrecorded tracker (tracker.handleMessage codec envelope now random sends).1 := by
  have hlegacy : Unrecorded tracker (tracker.takeLegacyStreamId codec envelope) := by
    refine Unrecorded.of_slot_eq (slot_takeLegacyStreamId codec _ _) ?_
    unfold takeLegacyStreamId
    split_ifs <;> rfl
  revert hfailed
  simp only [handleMessage, handleClientMessage]
  split_ifs
  · exact fun hfailed => absurd rfl hfailed
  · intro hfailed
    apply hlegacy.trans
    revert hfailed
    split
    · split_ifs
      · exact fun hfailed => absurd rfl hfailed
      · have hclosed := unrecorded_closeClient
          (tracker.takeLegacyStreamId codec envelope)
          (envelope.clientId, tracker.resolveStreamId codec envelope random)
          sends.closed
        split
        next closed heq =>
          rw [heq] at hclosed
          exact fun hfailed => hclosed.trans (unrecorded_openConnection closed hfailed)
        next closed outcome _ heq =>
          rw [heq] at hclosed
          exact fun _ => hclosed
      · split
        · intro hfailed
          rw [deliver_failed _ hfailed]
          exact .of_slot_eq (slot_touch _ _ _) (transport_updateClient _ _ _)
        · exact fun hfailed => absurd rfl hfailed
    · exact fun hfailed => absurd rfl hfailed
    · exact fun hfailed => absurd rfl hfailed
    · exact fun hfailed => absurd rfl hfailed
    · exact fun _ => unrecorded_closeClient _ _ _

section

variable (tracker : ClientTracker Message) (key : ClientKey)

theorem legacy_closeClient (outcome : SendOutcome)
    (hnone : tracker.legacyStreamIds.lookup key.1 = none) :
    (tracker.closeClient key outcome).1.legacyStreamIds.lookup key.1 = none := by
  have hremoved : (tracker.removeClient key).legacyStreamIds.lookup key.1 =
      none := by
    simp [removeClient, hnone]
  unfold closeClient
  split
  · exact hnone
  · cases outcome <;> exact hremoved

/-- A failed `initialize` leaves the client with no stream or the one that it
was for. -/
theorem legacy_openConnection (message : Message) (seqId : Option Nat) (isLegacyStreamId : Bool)
    (now : Nat) (sends : Sends) (hnone : tracker.legacyStreamIds.lookup key.1 = none)
    (hfailed : (tracker.openConnection key message seqId isLegacyStreamId now sends).2 ≠ .done) :
    ∀ streamId ∈ (tracker.openConnection key message seqId isLegacyStreamId
      now sends).1.legacyStreamIds.lookup key.1, streamId = key.2 := by
  have hregistered : ∀ opened : ClientTracker Message,
      opened.legacyStreamIds = tracker.legacyStreamIds →
      ∀ streamId ∈ (opened.register key tracker.nextConnectionId now
        isLegacyStreamId).legacyStreamIds.lookup key.1, streamId = key.2 := by
    intro opened hopened streamId hstream
    simp only [register, hopened] at hstream
    split_ifs at hstream
    · simpa using hstream.symm
    · simp [hnone] at hstream
  revert hfailed
  cases hopen : sends.opened <;> cases hmessage : sends.message <;>
    simp only [openConnection, sendTransportEvent, hopen, hmessage] <;>
    intro hfailed streamId hstream
  case sent.sent => split_ifs at hfailed <;> exact absurd rfl hfailed
  case sent.failed =>
    simp only [removeClient] at hstream
    split_ifs at hstream
    · simp at hstream
    · exact hregistered _ rfl streamId hstream
  case sent.aborted => exact hregistered _ rfl streamId hstream
  all_goals exact absurd (hstream.symm.trans hnone) (by simp)

end

/-- `initialize` needs a stream id and nothing else. -/
theorem ready_of_starts (hstarts : isInitialize codec envelope.event = true)
    (hstream : ∀ streamId ∈ envelope.streamId, streamId.value ≠ "")
    (hlegacy : envelope.streamId = none → ∀ streamId ∈
      tracker.legacyStreamIds.lookup envelope.clientId,
        streamId.value ≠ "") : tracker.Ready codec envelope := by
  intro random hrandom
  refine ⟨?_, .inl hstarts⟩
  unfold resolveStreamId
  cases hgiven : envelope.streamId with
  | some streamId => exact hstream streamId hgiven
  | none =>
    cases hfound : tracker.legacyStreamIds.lookup envelope.clientId with
    | some streamId => simpa using hlegacy hgiven streamId hfound
    | none =>
      unfold isInitialize at hstarts
      split at hstarts
      next message hevent => simpa [hevent, hstarts] using hrandom
      · simp at hstarts

/-- A message is ready as long as nothing changes for its client. -/
theorem Ready.congr (hready : first.Ready codec envelope)
    (hslots : ∀ streamId, second.slot (envelope.clientId, streamId) =
      first.slot (envelope.clientId, streamId))
    (hlegacy : second.legacyStreamIds.lookup envelope.clientId =
      first.legacyStreamIds.lookup envelope.clientId) : second.Ready codec envelope := by
  intro random hrandom
  have hkey : second.keyOf codec envelope random =
      first.keyOf codec envelope random := by
    simp [keyOf, resolveStreamId, hlegacy]
  have hslot := hslots (first.keyOf codec envelope random).2
  obtain ⟨hstream, hready⟩ := hready random hrandom
  refine ⟨?_, ?_⟩
  · rw [show second.resolveStreamId codec envelope random = _ from congrArg Prod.snd hkey]
    exact hstream
  · rw [hkey]
    rcases hready with hstarts | ⟨hopen, hnew⟩
    · exact .inl hstarts
    · exact .inr ⟨(congrArg Option.isSome (openAt_of_slot_eq hslot)).trans
        hopen, (isDuplicate_congr _ hslot).trans hnew⟩

/-- A message that is above the last one of its open connection. -/
theorem ready_of_open (hmessage : envelope.event = .clientMessage message)
    (hplain : codec.startsConnection message = false)
    (hstream : (tracker.resolveStreamId codec envelope random).value ≠ "") {client : ClientState}
    (hclient : tracker.clients.lookup (tracker.keyOf codec envelope random) = some client)
    (hnew : tracker.isDuplicate (tracker.keyOf codec envelope random) envelope.seqId = false) :
    tracker.Ready codec envelope := by
  intro other _
  -- No stream id is drawn, so that another one changes nothing.
  have hresolved : tracker.resolveStreamId codec envelope other =
      tracker.resolveStreamId codec envelope random := by
    simp [resolveStreamId, hmessage, hplain]
  have hkey : tracker.keyOf codec envelope other = tracker.keyOf codec envelope random := by
    rw [keyOf, hresolved, keyOf]
  rw [hresolved, hkey]
  refine ⟨hstream, .inr ⟨?_, hnew⟩⟩
  simp [openAt, slot, hclient]

/-- After a failure the message is ready to be sent again. -/
theorem ready_of_failed (codec : Codec Message) (tracker : ClientTracker Message)
    (hmessage : envelope.event = .clientMessage message)
    (hfailed : (tracker.handleMessage codec envelope now random sends).2 ≠ .done) :
    (tracker.handleMessage codec envelope now random sends).1.Ready codec envelope := by
  have hevent : isInitialize codec envelope.event = codec.startsConnection message := by
    rw [hmessage]
    rfl
  revert hfailed
  simp only [handleMessage, handleClientMessage, hmessage]
  split_ifs with hstream hduplicate hstarts
  · exact fun hfailed => absurd rfl hfailed
  · exact fun hfailed => absurd rfl hfailed
  · have hgiven : ∀ streamId ∈ envelope.streamId, streamId.value ≠ "" := by
      intro streamId hsome
      simpa [resolveStreamId, Option.mem_def.mp hsome] using hstream
    have hclosed := legacy_closeClient
      (tracker.takeLegacyStreamId codec envelope)
      (envelope.clientId, tracker.resolveStreamId codec envelope random)
      sends.closed
    have hnone : envelope.streamId = none →
        (tracker.takeLegacyStreamId codec envelope).legacyStreamIds.lookup
          envelope.clientId = none := by
      intro hnone
      simp [takeLegacyStreamId, hnone, hevent, hstarts]
    split
    next closed heq =>
      rw [heq] at hclosed
      intro hfailed
      apply ready_of_starts (hevent.trans hstarts) hgiven
      intro habsent streamId hfound
      have hsame := legacy_openConnection closed _ message _ _ _ _
        (hclosed (hnone habsent)) hfailed streamId hfound
      rw [hsame]
      exact hstream
    next closed outcome _ heq =>
      rw [heq] at hclosed
      intro _
      apply ready_of_starts (hevent.trans hstarts) hgiven
      intro habsent streamId hfound
      simp [hclosed (hnone habsent)] at hfound
  · have hplain : codec.startsConnection message = false := by simpa using hstarts
    have hkept : tracker.takeLegacyStreamId codec envelope = tracker := by
      simp [takeLegacyStreamId, hevent, hplain]
    rw [hkept] at hduplicate ⊢
    split
    next client hclient =>
      intro hfailed
      rw [deliver_failed _ hfailed]
      have hready : tracker.Ready codec envelope :=
        ready_of_open hmessage hplain hstream hclient (by simpa [hplain, keyOf] using hduplicate)
      apply hready.congr
      · exact fun streamId => congrFun (slot_touch tracker _ now) _
      · unfold touch updateClient
        split <;> rfl
    · exact fun hfailed => absurd rfl hfailed

end ClientTracker

/-- An envelope that arrives, with the stream id that would be drawn. -/
structure Arrival (Message : Type) where
  envelope : ClientEnvelope Message
  wireSizeBytes : Nat
  now : Nat
  random : StreamId
  random_ne : random.value ≠ ""

/-- The message that arrivals amount to, if they are pending up to the last
one and that one is forwarded. -/
def WebsocketState.assembled (codec : Codec Message) :
    WebsocketState → List (Arrival Message) → Option (ClientEnvelope Message)
  | _, [] => none
  | state, arrival :: rest =>
    match state.observeClientMessage codec arrival.envelope arrival.wireSizeBytes arrival.now with
    | (_, .forward carried) => if rest.isEmpty then some carried else none
    | (state, .pending) => assembled codec state rest
    | (_, .dropped) => none

/-- The turns for arrivals one after another, with sends that succeed. -/
def Reader.receiveAll (codec : Codec Message) :
    Reader Message → List (Arrival Message) → Reader Message × Outcome
  | reader, [] => (reader, .done)
  | reader, arrival :: rest =>
    match reader.receive codec arrival.envelope arrival.wireSizeBytes
        arrival.now arrival.random .all with
    | (reader, .done) => receiveAll codec reader rest
    | (reader, outcome) => (reader, outcome)

namespace WebsocketState

variable (codec : Codec Message) (arrivals : List (Arrival Message))

/-- Arrivals of one client whose message was not completed before amount to
the same message in states with the same assembly of that client. -/
theorem assembled_congr {clientId : ClientId} (first second : WebsocketState)
    (hclient : ∀ arrival ∈ arrivals, arrival.envelope.clientId = clientId) (hown
    : second.clientSegmentReassembler.lookup clientId =
    first.clientSegmentReassembler.lookup clientId) (hfirst : ∀ arrival ∈
    arrivals, first.alreadyCompleted (clientMessageKey arrival.envelope) =
    false) (hsecond : ∀ arrival ∈ arrivals, second.alreadyCompleted
    (clientMessageKey arrival.envelope) = false) :
    second.assembled codec arrivals = first.assembled codec arrivals := by
  induction arrivals generalizing first second with
  | nil => rfl
  | cons arrival rest ih =>
    have hhead := hclient arrival mem_cons_self
    subst hhead
    obtain ⟨hlookup, hobservation⟩ := observeClientMessage_congr codec hown
      ((hsecond arrival mem_cons_self).trans (hfirst arrival mem_cons_self).symm)
      arrival.wireSizeBytes arrival.now
    have hcursors : ∀ state : WebsocketState,
        (∀ later ∈ arrival :: rest, state.alreadyCompleted
          (clientMessageKey later.envelope) = false) →
        ∀ later ∈ rest, (state.observeClientMessage codec arrival.envelope
          arrival.wireSizeBytes arrival.now).1.alreadyCompleted
            (clientMessageKey later.envelope) = false := by
      intro state hnew later hlater
      have hkept := cursors_observeClientMessage codec state
        arrival.envelope arrival.wireSizeBytes arrival.now
      rw [← hnew later (mem_cons_of_mem _ hlater)]
      simp only [alreadyCompleted, hkept.1]
    have hrest := ih _ _ (fun later hlater => hclient later (mem_cons_of_mem _ hlater)) hlookup
      (hcursors first hfirst) (hcursors second hsecond)
    simp only [assembled]
    revert hrest hobservation
    rcases first.observeClientMessage codec arrival.envelope
      arrival.wireSizeBytes arrival.now with ⟨firstState, firstObserved⟩
    rcases second.observeClientMessage codec arrival.envelope
      arrival.wireSizeBytes arrival.now with ⟨secondState, secondObserved⟩
    intro hobservation hrest
    cases hobservation
    cases firstObserved with
    | forward carried | dropped => rfl
    | pending => exact hrest

/-- The message has the client, the stream and the seq id of an arrival. -/
theorem assembled_source (state : WebsocketState) {carried : ClientEnvelope Message}
    (hassembled : state.assembled codec arrivals = some carried) :
    ∃ arrival ∈ arrivals, carried.clientId = arrival.envelope.clientId ∧
      carried.streamId = arrival.envelope.streamId ∧
      carried.seqId = arrival.envelope.seqId := by
  induction arrivals generalizing state with
  | nil => simp [assembled] at hassembled
  | cons arrival rest ih =>
    simp only [assembled] at hassembled
    split at hassembled
    next last forwarded heq =>
      split_ifs at hassembled
      cases hassembled
      refine ⟨arrival, mem_cons_self, ?_⟩
      have hforward := observeClientMessage_forward codec (congrArg Prod.snd heq)
      rcases hforward.2 with rfl | ⟨message, _, _, -, -, rfl, -⟩ <;>
        exact ⟨rfl, rfl, rfl⟩
    next last heq =>
      obtain ⟨source, hsource, hsame⟩ := ih last hassembled
      exact ⟨source, mem_cons_of_mem _ hsource, hsame⟩
    · simp at hassembled

end WebsocketState

variable (codec : Codec Message) {message : Message}

/-- Arrivals that amount to a message which is ready are accepted. -/
theorem Reader.receiveAll_accepted (arrivals : List (Arrival Message)) (reader : Reader Message)
    {carried : ClientEnvelope Message}
    (hassembled : reader.state.assembled codec arrivals = some carried)
    (hmessage : carried.event = .clientMessage message)
    (hready : reader.tracker.Ready codec carried) :
    Accepted (reader.receiveAll codec arrivals).1.tracker
      (reader.receiveAll codec arrivals).2 message carried.seqId := by
  induction arrivals generalizing reader with
  | nil => simp [assembled] at hassembled
  | cons arrival rest ih =>
    simp only [assembled] at hassembled
    split at hassembled
    next last forwarded heq =>
      split_ifs at hassembled with hrest
      cases hassembled
      obtain ⟨htracker, houtcome, -⟩ := receive_forward codec reader
        arrival.random .all (congrArg Prod.snd heq)
      have haccepted := hready.accepted hmessage arrival.now arrival.random_ne
      simp only [← htracker, ← houtcome] at haccepted
      rw [isEmpty_iff.mp hrest]
      simp only [receiveAll]
      split
      next later hdone =>
        rw [hdone] at haccepted
        exact haccepted
      next later outcome _ hfailed =>
        rw [hfailed] at haccepted
        exact haccepted
    next last heq =>
      simp only [receiveAll, receive, heq]
      exact ih { reader with state := last } hassembled hready
    · simp at hassembled

namespace Reader

/-- Between two states nothing is recorded as delivered: not by a connection,
not by a chunk cursor, and not by the cursor of the subscription. -/
structure Unrecorded (first second : Reader Message) : Prop where
  tracker : ClientTracker.Unrecorded first.tracker second.tracker
  chunkCursors : second.state.lastCompletedClientChunkSeqIdByStream =
    first.state.lastCompletedClientChunkSeqIdByStream
  subscribeCursor : second.state.subscribeCursor = first.state.subscribeCursor

/-- The reader takes the message when it is sent again: its connection is open
and has delivered nothing that is as late, or it opens one; and, if it comes in
segments, no segment of its client waits and none as late has been completed. -/
structure Open (codec : Codec Message) (reader : Reader Message)
    (envelope forwarded : ClientEnvelope Message) : Prop where
  ready : reader.tracker.Ready codec forwarded
  unassembled : (WebsocketState.clientMessageKey envelope).isSome = true →
    reader.state.clientSegmentReassembler.lookup envelope.clientId = none
  uncompleted : reader.state.alreadyCompleted (WebsocketState.clientMessageKey envelope) = false

/-- A message is sent again: in one piece, or in segments that amount to it on
their own. -/
inductive Resends (codec : Codec Message) (envelope forwarded : ClientEnvelope Message) :
    List (Arrival Message) → Prop where
  | plain (arrival : Arrival Message) (hplain : forwarded = envelope)
      (hagain : arrival.envelope = envelope) :
      Resends codec envelope forwarded [arrival]
  | segments (arrivals : List (Arrival Message))
      (carried : ClientEnvelope Message)
      (hchunk : (WebsocketState.clientMessageKey envelope).isSome = true)
      (hsame : ∀ arrival ∈ arrivals,
        arrival.envelope.clientId = envelope.clientId ∧
        arrival.envelope.streamId = envelope.streamId ∧
        arrival.envelope.seqId = envelope.seqId)
      (hassembled : WebsocketState.empty.assembled codec arrivals = some carried)
      (hagain : carried.event = forwarded.event) :
      Resends codec envelope forwarded arrivals

variable {envelope : ClientEnvelope Message}

variable {arrivals : List (Arrival Message)}

/-- Chunks that amount to a message on their own do so where they meet no
assembly of their client and no cursor that is past them. -/
theorem assembled_segments {state : WebsocketState}
    (hchunk : (clientMessageKey envelope).isSome = true) (hsame : ∀ arrival ∈ arrivals,
      arrival.envelope.clientId = envelope.clientId ∧
      arrival.envelope.streamId = envelope.streamId ∧
      arrival.envelope.seqId = envelope.seqId)
    (hgone : state.clientSegmentReassembler.lookup envelope.clientId = none)
    (hnew : state.alreadyCompleted (clientMessageKey envelope) = false) :
    state.assembled codec arrivals = empty.assembled codec arrivals := by
  apply assembled_congr codec arrivals _ _ (fun arrival hmem => (hsame arrival hmem).1)
  · rw [hgone]
    rfl
  · intro arrival _
    unfold alreadyCompleted
    split <;> rfl
  · intro arrival hmem
    obtain ⟨hclient, hstream, hseqId⟩ := hsame arrival hmem
    have hkeys : clientMessageKey arrival.envelope = none ∨
        clientMessageKey arrival.envelope = clientMessageKey envelope := by
      unfold clientMessageKey at hchunk ⊢
      rw [hclient, hstream, hseqId]
      split at hchunk
      next hseq =>
        rw [hseq]
        cases arrival.envelope.event <;> simp
      · simp at hchunk
    rcases hkeys with hnone | hkey
    · rw [hnone]
      rfl
    · rw [hkey, hnew]

variable {forwarded : ClientEnvelope Message}

/-- What is sent again amounts to the message that was forwarded. -/
theorem assembled_resent {reader third : Reader Message} {wireSizeBytes now : Nat}
    (hforward : (reader.state.observeClientMessage codec envelope
      wireSizeBytes now).2 = .forward forwarded)
    (hmessage : forwarded.event = .clientMessage message)
    (hopen : third.Open codec envelope forwarded)
    (hresends : Resends codec envelope forwarded arrivals) :
    ∃ cursor, third.state.assembled codec arrivals = some { forwarded with cursor } := by
  obtain ⟨-, hsource⟩ := observeClientMessage_forward codec hforward
  cases hresends with
  | plain arrival hplain hagain =>
    subst hplain hagain
    refine ⟨arrival.envelope.cursor, ?_⟩
    simp [assembled, observeClientMessage, clientMessageKey,
      alreadyCompleted, alreadyAssembled, hmessage, Assemblies.observe]
    rw [← hmessage]
  | segments arrivals carried hchunk hall hassembled hagain =>
    rcases hsource with rfl | ⟨_, _, _, -, -, hforwarded, -⟩
    · simp [clientMessageKey, hmessage] at hchunk
    · rw [assembled_segments codec hchunk hall (hopen.unassembled hchunk) hopen.uncompleted,
        hassembled]
      obtain ⟨source, hmem, hclient, hstream, hseqId⟩ :=
        assembled_source codec arrivals _ hassembled
      obtain ⟨hsourceClient, hsourceStream, hsourceSeqId⟩ := hall source hmem
      refine ⟨carried.cursor, ?_⟩
      obtain ⟨event, clientId, streamId, seqId, cursor⟩ := carried
      simp only at hagain hclient hstream hseqId
      rw [hagain, hclient, hstream, hseqId, hsourceClient, hsourceStream, hsourceSeqId,
        hforwarded]

/-- Right after the failure the message can be sent again. -/
theorem open_of_failed (reader : Reader Message) {wireSizeBytes now : Nat}
    {random : StreamId} {sends : Sends}
    (hforward : (reader.state.observeClientMessage codec envelope
      wireSizeBytes now).2 = .forward forwarded)
    (hmessage : forwarded.event = .clientMessage message)
    (hfailed : (reader.receive codec envelope wireSizeBytes now random sends).2 ≠ .done) :
    (reader.receive codec envelope wireSizeBytes now random sends).1.Open codec envelope
      forwarded := by
  obtain ⟨htracker, houtcome, hstate⟩ := receive_forward codec reader random sends hforward
  rw [houtcome] at hfailed
  obtain ⟨hnew, hsource⟩ := observeClientMessage_forward codec hforward
  refine ⟨?_, ?_, ?_⟩
  · rw [htracker]
    exact ClientTracker.ready_of_failed codec reader.tracker hmessage hfailed
  · intro hchunk
    rcases hsource with rfl | ⟨_, _, _, -, -, -, hgone⟩
    · simp [clientMessageKey, hmessage] at hchunk
    · rw [hstate hfailed, hgone]
  · rw [← hnew, hstate hfailed]
    unfold clientMessageKey
    split
    · simp only [alreadyCompleted, (cursors_observeClientMessage codec _ _ _ _).1]
    · rfl

/-- In whatever state the reader takes it, the message is accepted when it is
sent again. -/
theorem resent_accepted {reader third : Reader Message} {wireSizeBytes now : Nat}
    (hforward : (reader.state.observeClientMessage codec envelope
      wireSizeBytes now).2 = .forward forwarded)
    (hmessage : forwarded.event = .clientMessage message)
    (hopen : third.Open codec envelope forwarded)
    (hresends : Resends codec envelope forwarded arrivals) :
    Accepted (third.receiveAll codec arrivals).1.tracker
      (third.receiveAll codec arrivals).2 message envelope.seqId := by
  obtain ⟨-, hsource⟩ := observeClientMessage_forward codec hforward
  have hseqId : forwarded.seqId = envelope.seqId := by
    rcases hsource with rfl | ⟨_, _, _, -, -, rfl, -⟩ <;> rfl
  obtain ⟨cursor, hassembled⟩ := assembled_resent codec hforward hmessage hopen hresends
  have haccepted := receiveAll_accepted codec arrivals third hassembled hmessage hopen.ready
  rwa [hseqId] at haccepted

/-- In every state that a run reaches, no two client streams share a connection
and no connection id is given twice; while a connection is open, or its close
waits, the transport has seen it open and messages at most. -/
theorem connections_exclusive {codec : Codec Message} {reader : Reader Message}
    {inputs : List (Input Message)} (hrun : Run (Step codec) Reader.new inputs reader) :
    reader.tracker.ledger.Registry ∧ reader.tracker.ledger.Logged := by
  obtain ⟨hregistry, hlogged, -⟩ := consistent_of_run hrun
  exact ⟨hregistry, hlogged⟩

end Reader

namespace Witness

/-- A chunk of a message of the phone that has two bytes. -/
def piece (seqId segmentId : Nat) (byte : UInt8) : ClientEnvelope Bool :=
  ⟨.clientMessageChunk segmentId 2 2 [byte], phone.1, some phone.2, some seqId, none⟩

def pieces : List (Arrival Bool) :=
  [⟨piece 5 0 0, 1, 0, ⟨"random"⟩, by decide⟩, ⟨piece 5 1 7, 1, 0, ⟨"random"⟩, by decide⟩]

/-- The phone is connected, and half of a message has arrived. -/
def halfway : Reader Bool :=
  (Reader.new.turn plainCodec (arrives (plain true 0))).turn plainCodec (arrives (piece 5 0 0))

/-- The turn for the other half, whose send times out. -/
def timedOut : Reader Bool × Outcome :=
  halfway.receive plainCodec (piece 5 1 7) 1 0 ⟨"random"⟩ ⟨.sent, .sent, .failed⟩

/-- A message of a second client, which connects. -/
def tabletConnects (message : SendOutcome) : Input Bool :=
  .envelope ⟨.clientMessage true, ⟨"tablet"⟩, some ⟨"main"⟩, some 0, none⟩ 0 0 ⟨"random"⟩
    ⟨.sent, .sent, message⟩

/-- The first connection of the tablet waits for its close when the phone and
the tablet are connected. -/
theorem connections_exclusive_tablet :
    ∃ reader, Run (Reader.Step plainCodec) Reader.new
        [arrives (plain true 0), tabletConnects .failed, tabletConnects .sent] reader ∧
      reader.tracker.openAt phone = some 0 ∧ reader.tracker.closing = [1] ∧
      reader.tracker.openAt (⟨"tablet"⟩, ⟨"main"⟩) = some 2 ∧
      reader.tracker.ledger.Registry ∧ reader.tracker.ledger.Logged := by
  have hrun : Run (Reader.Step plainCodec) Reader.new
      [arrives (plain true 0), tabletConnects .failed, tabletConnects .sent] _ :=
    Run.cons ⟨trivial, rfl⟩ (Run.cons ⟨trivial, rfl⟩ (Run.single ⟨trivial, rfl⟩))
  exact ⟨_, hrun, rfl, rfl, rfl, Reader.connections_exclusive hrun⟩

theorem pieces_resend : Reader.Resends plainCodec (piece 5 1 7)
    { piece 5 1 7 with event := .clientMessage false } pieces := by
  refine Reader.Resends.segments pieces _ rfl ?_ rfl rfl
  intro arrival hmem
  simp only [pieces, mem_cons, not_mem_nil, or_false] at hmem
  rcases hmem with rfl | rfl <;> exact ⟨rfl, rfl, rfl⟩

end Witness

end Hexa.RemoteControl
