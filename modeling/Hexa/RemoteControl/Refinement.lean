/-
The client tracker refines the ledger: each turn of the reader is a history of
ledger steps, so that the invariant of the ledger holds in every run.
-/
import Hexa.RemoteControl.Ledger
import Hexa.RemoteControl.Reader

namespace Hexa.RemoteControl

open Relation ClientTracker ReflTransGen Ledger.Step Function

variable {Message : Type}

/-- The ledger that a tracker keeps. -/
def ClientTracker.ledger (tracker : ClientTracker Message) : Ledger ClientKey Message :=
  ⟨tracker.slot, tracker.nextConnectionId, tracker.closing, tracker.transport⟩

abbrev History (codec : Codec Message) :
    Ledger ClientKey Message → Ledger ClientKey Message → Prop :=
  ReflTransGen (Ledger.Step codec.startsConnection)

namespace ClientTracker

variable (codec : Codec Message) (tracker : ClientTracker Message) (key : ClientKey)

theorem ledger_removeClient :
    (tracker.removeClient key).ledger = tracker.ledger.setSlot key none := by
  rw [ledger, slot_removeClient]
  rfl

theorem ledger_updateClient (update : ClientState → ClientState) :
    (tracker.updateClient key update).ledger =
      { tracker.ledger with
        slots := (tracker.updateClient key update).slot } := by
  unfold updateClient
  split <;> rfl

theorem ledger_touch (now : Nat) : (tracker.touch key now).ledger = tracker.ledger := by
  have hslot := slot_touch tracker key now
  rw [touch] at hslot ⊢
  rw [ledger_updateClient, hslot]
  rfl

variable {key : ClientKey}

section

variable (tracker : ClientTracker Message)

theorem ledger_recordInboundMessageDelivery {connectionId : ConnectionId} {last : Option Nat}
    (hslot : tracker.slot key = some (connectionId, last)) (seqId : Option Nat) :
    (tracker.recordInboundMessageDelivery key seqId).ledger =
      tracker.ledger.setSlot key (some (connectionId, seqId.or last)) := by
  have hrecorded := slot_recordInboundMessageDelivery tracker key seqId
  rw [hslot] at hrecorded
  have hother : (tracker.recordInboundMessageDelivery key seqId).ledger =
      { tracker.ledger with
        slots := (tracker.recordInboundMessageDelivery key seqId).slot } := by
    cases seqId with
    | none => rfl
    | some seqId => exact ledger_updateClient _ _ _
  rw [hother, hrecorded]
  rfl

/-- `ConnectionClosed` is sent, is left to a detached task, or is lost. -/
theorem history_closeClient (key : ClientKey) (outcome : SendOutcome) :
    History codec tracker.ledger (tracker.closeClient key outcome).1.ledger := by
  unfold closeClient
  split
  · exact refl
  next client hclient =>
    have hremoved := ledger_removeClient tracker key
    have hopen : tracker.ledger.openAt key = some client.connectionId := by
      simp [Ledger.openAt, ledger, slot, hclient]
    apply single
    cases outcome with
    | sent =>
      change Ledger.Step _ _ ((tracker.removeClient key).ledger.emit _)
      rw [hremoved]
      exact closed key client.connectionId hopen
    | failed =>
      change Ledger.Step _ _ (tracker.removeClient key).ledger
      rw [hremoved]
      exact dropped key
    | aborted =>
      change Ledger.Step _ _ ((tracker.removeClient key).ledger.push _)
      rw [hremoved]
      exact closedLater key client.connectionId hopen

/-- A connection is opened for a key that has none. -/
theorem history_openConnection {message : Message} (seqId : Option Nat) (isLegacyStreamId : Bool)
    (now : Nat) (sends : Sends) (hfree : tracker.slot key = none)
    (hstarts : codec.startsConnection message = true) :
    History codec tracker.ledger
      (tracker.openConnection key message seqId isLegacyStreamId now sends).1.ledger := by
  have hunopened : History codec tracker.ledger tracker.takeConnectionId.ledger := single unopened
  let opened : ClientTracker Message :=
    { tracker.takeConnectionId with transport := tracker.transport ++
        [.connectionOpened tracker.nextConnectionId] }
  let registered := opened.register key tracker.nextConnectionId now isLegacyStreamId
  have hslot : registered.slot key = some (tracker.nextConnectionId, none) := by
    rw [slot_register, update_self]
  have hregistered : History codec tracker.ledger registered.ledger := by
    have hledger : registered.ledger =
        ((tracker.ledger.take.emit (.connectionOpened
          tracker.ledger.nextConnectionId)).setSlot key
            (some (tracker.ledger.nextConnectionId, none))) := by
      rw [ledger, slot_register]
      rfl
    rw [hledger]
    exact single (Ledger.Step.opened key hfree)
  let told : ClientTracker Message := { registered with transport := registered.transport ++
        [.incomingMessage tracker.nextConnectionId message seqId] }
  have htold : ∀ last, Ledger.Step codec.startsConnection registered.ledger
      (told.ledger.setSlot key (some (tracker.nextConnectionId, last))) :=
    fun last => initialized key _ message seqId last hslot hstarts
  cases hopened : sends.opened <;> cases hmessage : sends.message <;>
    simp only [openConnection, hopened, hmessage]
  case sent.sent =>
    apply hregistered.tail
    change Ledger.Step _ _ (if isLegacyStreamId = true then (told, Outcome.done)
      else (told.recordInboundMessageDelivery key seqId, .done)).1.ledger
    split_ifs
    · have hsame : told.ledger.setSlot key
          (some (tracker.nextConnectionId, none)) = told.ledger := by
        rw [← hslot]
        exact congrArg (fun slots => { told.ledger with slots }) (update_eq_self key told.slot)
      exact hsame ▸ htold none
    · rw [ledger_recordInboundMessageDelivery told hslot]
      exact htold _
  case sent.failed =>
    apply hregistered.tail
    change Ledger.Step _ _ ((registered.removeClient key).ledger.push tracker.nextConnectionId)
    rw [ledger_removeClient]
    refine closedLater key _ ?_
    simp [Ledger.openAt, ledger, hslot]
  case sent.aborted => exact hregistered
  all_goals exact hunopened

/-- A message that is not a duplicate is sent on the connection of its key. -/
theorem history_deliver {client : ClientState} {message : Message} {seqId : Option Nat}
    (now : Nat) (outcome : SendOutcome) (hclient : tracker.clients.lookup key = some client)
    (hplain : codec.startsConnection message = false)
    (hnew : tracker.isDuplicate key seqId = false) :
    History codec tracker.ledger
      (tracker.deliver key client message seqId now outcome).1.ledger := by
  have htouched := ledger_touch tracker key now
  have hslot : tracker.slot key = some (client.connectionId, client.lastInboundSeqId) := by
    simp [slot, hclient]
  cases outcome with
  | sent =>
    have hrising : ∀ new ∈ seqId, ∀ old ∈ client.lastInboundSeqId, old < new := by
      intro new hseqId old hlast
      simpa [isDuplicate, hclient, Option.mem_def.mp hseqId, Option.mem_def.mp hlast] using hnew
    have hsent : slot { tracker.touch key now with
        transport := (tracker.touch key now).transport ++
          [.incomingMessage client.connectionId message seqId] } key =
          some (client.connectionId, client.lastInboundSeqId) := by
      rw [← hslot, ← slot_touch tracker key now]
      rfl
    apply single
    simp only [deliver, sendTransportEvent]
    rw [ledger_recordInboundMessageDelivery _ hsent]
    change Ledger.Step _ _ (((tracker.touch key now).ledger.emit _).setSlot _ _)
    rw [htouched]
    exact Ledger.Step.message key _ message seqId _ hslot hplain hrising
  | failed | aborted => exact htouched ▸ refl

theorem history_handleClientMessage (key : ClientKey) (message : Message) (seqId : Option Nat)
    (isLegacyStreamId : Bool) (now : Nat) (sends : Sends) :
    History codec tracker.ledger
      (tracker.handleClientMessage codec key message seqId isLegacyStreamId
        now sends).1.ledger := by
  simp only [handleClientMessage]
  split_ifs with hduplicate hstarts
  · exact refl
  · have hclosed := history_closeClient codec tracker key sends.closed
    have hfree := slot_closeClient tracker key sends.closed
    split
    next closed heq =>
      rw [heq] at hclosed hfree
      apply hclosed.trans
      apply history_openConnection codec closed seqId _ _ _ _ hstarts
      rw [hfree, update_self]
    next closed outcome _ heq =>
      rw [heq] at hclosed
      exact hclosed
  · have hplain : codec.startsConnection message = false := by simpa using hstarts
    split
    next client hclient =>
      apply history_deliver codec tracker now _ hclient hplain
      simpa [hplain] using hduplicate
    · exact refl

theorem history_handleMessage (envelope : ClientEnvelope Message) (now : Nat) (random : StreamId)
    (sends : Sends) :
    History codec tracker.ledger
      (tracker.handleMessage codec envelope now random sends).1.ledger := by
  have hlegacy : (tracker.takeLegacyStreamId codec envelope).ledger = tracker.ledger := by
    unfold takeLegacyStreamId
    split_ifs <;> rfl
  simp only [handleMessage]
  rw [← hlegacy]
  split_ifs
  · exact refl
  · split
    · exact history_handleClientMessage codec _ _ _ _ _ _ _
    · exact refl
    · exact refl
    · exact (ledger_touch _ _ _).symm ▸ refl
    · exact history_closeClient codec _ _ _

end

section

variable (outcomes : ClientKey → SendOutcome)

variable (keys : List ClientKey) (tracker : ClientTracker Message)

theorem history_closeExpiredClients :
    History codec tracker.ledger (closeExpiredClients outcomes keys tracker).1.ledger := by
  induction keys generalizing tracker with
  | nil => exact refl
  | cons key keys ih =>
    have hclosed := history_closeClient codec tracker key (outcomes key)
    simp only [closeExpiredClients]
    split
    next closed heq =>
      rw [heq] at hclosed
      exact hclosed.trans (ih closed)
    next closed outcome _ heq =>
      rw [heq] at hclosed
      exact hclosed

theorem history_closeAllClients :
    History codec tracker.ledger (closeAllClients outcomes keys tracker).1.ledger := by
  induction keys generalizing tracker with
  | nil => exact refl
  | cons key keys ih =>
    have hclosed := history_closeClient codec tracker key (outcomes key)
    simp only [closeAllClients]
    split
    next closed heq =>
      rw [heq] at hclosed
      exact hclosed
    next closed outcome _ heq =>
      rw [heq] at hclosed
      exact hclosed.trans (ih closed)

end

end ClientTracker

namespace Reader

/-- A turn of the reader is a history of the ledger. -/
theorem Step.history {codec : Codec Message} {first second : Reader Message}
    {input : Input Message} (hstep : Step codec first input second) :
    History codec first.tracker.ledger second.tracker.ledger := by
  obtain ⟨henabled, rfl⟩ := hstep
  cases input with
  | envelope envelope wireSizeBytes now random sends =>
    simp only [turn]
    by_cases hforward : ∃ forwarded, (first.state.observeClientMessage codec
        envelope wireSizeBytes now).2 = .forward forwarded
    · obtain ⟨forwarded, hforward⟩ := hforward
      rw [(receive_forward codec first random sends hforward).1]
      exact history_handleMessage codec _ _ _ _ _
    · rw [tracker_receive_other codec first random sends (not_exists.mp hforward)]
  | taskEnded key connectionId closed =>
    simp only [turn, tracker_taskEnded]
    exact history_closeClient codec { first.tracker with
      tasks := first.tracker.tasks.erase (key, connectionId) } key closed
  | taskPanicked key connectionId => exact refl
  | idleSweep now keys outcomes =>
    simp only [turn, tracker_idleSweep]
    exact history_closeExpiredClients codec outcomes keys _
  | shutdown keys outcomes =>
    have hhistory := history_closeAllClients codec outcomes keys first.tracker
    simp only [turn, shutdown]
    split
    next closed heq =>
      rw [heq] at hhistory
      exact hhistory
    next closed outcome _ heq =>
      rw [heq] at hhistory
      exact hhistory
  | closedSent connectionId => exact single (sent connectionId henabled)
  | closedFailed connectionId => exact single (lost connectionId)

/-- The ledger of every reader that a run reaches is consistent. -/
theorem consistent_of_run {codec : Codec Message} {reader : Reader Message}
    {inputs : List (Input Message)} (hrun : Run (Step codec) Reader.new inputs reader) :
    reader.tracker.ledger.Consistent codec.startsConnection := by
  have hkeeps : ∀ first input second, Step codec first input second →
      first.tracker.ledger.Consistent codec.startsConnection →
      second.tracker.ledger.Consistent codec.startsConnection :=
    fun first input second hstep hfirst => hfirst.history hstep.history
  exact Run.invariant hkeeps hrun Ledger.consistent_new

end Reader

end Hexa.RemoteControl
