/-
Which turns of the reader close a connection.  The end of an outbound task is
attributed by its key alone, so the task of a connection that was replaced
closes the replacement.
-/
import Hexa.RemoteControl.Refinement

namespace Hexa.RemoteControl

open ClientTracker

variable {Message : Type}

namespace Reader

/-- The causes for which the connection of a key may be closed: `initialize`
or `ClientClosed` for the key, the end of the connection's own task, its own
idle timeout, and shutdown. -/
def ClosedBy (codec : Codec Message) (reader : Reader Message) (key : ClientKey)
    (client : ClientState) : Input Message → Prop
  | .envelope envelope wireSizeBytes now random _ =>
    ∃ forwarded, (reader.state.observeClientMessage codec envelope
        wireSizeBytes now).2 = .forward forwarded ∧
      reader.tracker.keyOf codec forwarded random = key ∧
      (ClientTracker.isInitialize codec forwarded.event = true ∨ forwarded.event = .clientClosed)
  | .taskEnded ended connectionId _ => ended = key ∧ connectionId = client.connectionId
  | .idleSweep now _ _ => remoteControlClientIsAlive client now = false
  | .shutdown _ _ => True
  | .taskPanicked _ _ | .closedSent _ | .closedFailed _ => False

/-- A connection that is open before a turn is closed by one of its causes, or
it is open after the turn and no `ConnectionClosed` has been sent for it. -/
def Isolated (codec : Codec Message) (first : Reader Message) (input : Input Message)
    (second : Reader Message) : Prop :=
  ∀ key client, first.tracker.clients.lookup key = some client →
    first.ClosedBy codec key client input ∨
      (second.tracker.openAt key = some client.connectionId ∧
        .connectionClosed client.connectionId ∉ second.tracker.transport)

/-- The end of a task is taken up while its key has no connection, or still
has the one that the task serves. -/
def Attributed (reader : Reader Message) : Input Message → Prop
  | .taskEnded key connectionId _ =>
    ∀ client, reader.tracker.clients.lookup key = some client → client.connectionId = connectionId
  | _ => True

theorem openAt_taskEnded (reader : Reader Message) (key : ClientKey) (connectionId : ConnectionId)
    (closed : SendOutcome) (other : ClientKey) :
    (reader.taskEnded key connectionId closed).1.tracker.openAt other =
      if other = key then none else reader.tracker.openAt other := by
  rw [tracker_taskEnded, openAt, slot_closeClient, Function.update_apply]
  split_ifs <;> rfl

/-- An attributed turn keeps open what none of the causes closes. -/
theorem openAt_turn {codec : Codec Message} {reader : Reader Message} {input : Input Message}
    (henabled : reader.Enabled input) (hattributed : reader.Attributed input) {key : ClientKey}
    {client : ClientState} (hclient : reader.tracker.clients.lookup key = some client)
    (hcause : ¬ reader.ClosedBy codec key client input) :
    (reader.turn codec input).tracker.openAt key = reader.tracker.openAt key := by
  cases input with
  | envelope envelope wireSizeBytes now random sends =>
    simp only [turn]
    by_cases hforward : ∃ forwarded, (reader.state.observeClientMessage codec
        envelope wireSizeBytes now).2 = .forward forwarded
    · obtain ⟨forwarded, hforward⟩ := hforward
      rw [(receive_forward codec reader random sends hforward).1]
      apply openAt_handleMessage
      by_cases hkey : reader.tracker.keyOf codec forwarded random = key
      · right
        constructor
        · rw [← Bool.not_eq_true]
          exact fun hstarts => hcause ⟨forwarded, hforward, hkey, .inl hstarts⟩
        · exact fun hclosed => hcause ⟨forwarded, hforward, hkey, .inr hclosed⟩
      · exact .inl (Ne.symm hkey)
    · rw [tracker_receive_other codec reader random sends (not_exists.mp hforward)]
  | taskEnded ended connectionId closed =>
    simp only [turn]
    rw [openAt_taskEnded, if_neg]
    rintro rfl
    exact hcause ⟨rfl, (hattributed client hclient).symm⟩
  | taskPanicked ended connectionId | closedSent connectionId
  | closedFailed connectionId => rfl
  | idleSweep now keys outcomes =>
    simp only [turn, tracker_idleSweep]
    apply openAt_closeExpiredClients
    intro hswept
    obtain ⟨found, hfound, hidle⟩ := mem_expiredClients _ now (henabled.mem_iff.mp hswept)
    rw [hclient] at hfound
    cases hfound
    exact hcause hidle
  | shutdown keys outcomes => exact absurd trivial hcause

/-- In every state that a run reaches, a turn closes connections for their own
causes only exactly when the end of a task is not taken for that of another
connection. -/
theorem isolated_iff_attributed {codec : Codec Message} {reader second : Reader Message}
    {inputs : List (Input Message)} {input : Input Message}
    (hrun : Run (Step codec) Reader.new inputs reader) (hstep : Step codec reader input second) :
    Isolated codec reader input second ↔ reader.Attributed input := by
  have hconsistent := consistent_of_run (hrun.append (Run.single hstep))
  obtain ⟨henabled, rfl⟩ := hstep
  constructor
  · intro hisolated
    cases input with
    | taskEnded key connectionId closed =>
      intro client hclient
      rcases hisolated key client hclient with ⟨-, hcause⟩ | ⟨hopen, -⟩
      · exact hcause.symm
      · simp [turn, openAt_taskEnded] at hopen
    | _ => trivial
  · intro hattributed key client hclient
    by_cases hcause : reader.ClosedBy codec key client input
    · exact .inl hcause
    · right
      have hopen := openAt_turn henabled hattributed hclient hcause
      rw [openAt, openAt, slot, slot, hclient] at hopen
      exact ⟨hopen, hconsistent.logged.closed_notMem (.inl ⟨key, hopen⟩)⟩

end Reader

namespace Witness

/-- Messages that are `initialize` or not, sent without an encoding. -/
def plainCodec : Codec Bool where
  decodedLenEstimate := id
  decodeSlice := fun chunk _ => some chunk
  parseMessage := fun raw => raw.head?.map (fun byte => byte == 1)
  startsConnection := id

def phone : ClientKey := (⟨"phone"⟩, ⟨"main"⟩)

/-- A plain message of the phone. -/
def plain (message : Bool) (seqId : Nat) : ClientEnvelope Bool :=
  ⟨.clientMessage message, phone.1, some phone.2, some seqId, none⟩

def arrives (envelope : ClientEnvelope Bool) : Input Bool :=
  .envelope envelope 0 0 ⟨"random"⟩ .all

/-- The phone is connected, and connected again on the same stream. -/
def reconnected : Reader Bool :=
  (Reader.new.turn plainCodec (arrives (plain true 0))).turn plainCodec (arrives (plain true 0))

theorem reconnected_run :
    Run (Reader.Step plainCodec) Reader.new
      [arrives (plain true 0), arrives (plain true 0)] reconnected :=
  Run.cons ⟨trivial, rfl⟩ (Run.single ⟨trivial, rfl⟩)

theorem reconnected_tasks : reconnected.tracker.tasks = [(phone, 0), (phone, 1)] := by
  decide

theorem own_task_closes_connection :
    reconnected.tracker.openAt phone = some 1 ∧
      Reader.Isolated plainCodec reconnected (.taskEnded phone 1 .sent)
        (reconnected.turn plainCodec (.taskEnded phone 1 .sent)) := by
  refine ⟨by decide, ?_⟩
  apply (Reader.isolated_iff_attributed reconnected_run
    ⟨by simp [Reader.Enabled, reconnected_tasks], rfl⟩).mpr
  intro client hclient
  cases hclient
  rfl

/-- The task of the first connection ends after the second was opened. -/
theorem stale_task_closes_replacement :
    ∃ second, Run (Reader.Step plainCodec) Reader.new
        [arrives (plain true 0), arrives (plain true 0)] reconnected ∧
      Reader.Step plainCodec reconnected (.taskEnded phone 0 .sent) second ∧
      reconnected.tracker.openAt phone = some 1 ∧
      second.tracker.openAt phone = none ∧
      ¬ Reader.Isolated plainCodec reconnected (.taskEnded phone 0 .sent) second := by
  refine ⟨_, reconnected_run,
    ⟨by simp [Reader.Enabled, reconnected_tasks], rfl⟩, by decide, by decide,
    ?_⟩
  intro hisolated
  rcases hisolated phone ⟨1, 0, some 0⟩ (by decide) with ⟨-, hcause⟩ | hopen
  · cases hcause
  · exact absurd hopen.1 (by decide)

end Witness

end Hexa.RemoteControl
