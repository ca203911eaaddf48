/-
What a turn of the multiplexed loop does to its tables, said once, and what
follows for every run: a served stream went through a handshake of its own that
the registry authorized while it was pending, and what is late for one instance
of a stream id leaves the next instance alone.
-/
import Hexa.NoiseRelay.Multiplexer

namespace Hexa.NoiseRelay

open List AList

/-- The tables of the loop, without its count of failures and its output. -/
structure Tables where
  streams : AList (fun _ : Text => ActiveStream)
  pendingHandshakes : AList (fun _ : Text => PendingHandshake)
  validationTasks : List ValidationTask
  nextValidationId : Nat

namespace MultiplexedEnvironment

variable (state : MultiplexedEnvironment)

def tables : Tables :=
  ⟨state.streams, state.pendingHandshakes, state.validationTasks, state.nextValidationId⟩

section

variable (state : MultiplexedEnvironment)

@[simp]
theorem tables_sendReset (streamId : Text) :
    (state.sendReset streamId).tables = state.tables := rfl

@[simp]
theorem tables_chargeFailure : state.chargeFailure.tables = state.tables := by
  simp only [chargeFailure]
  split_ifs <;> rfl

@[simp]
theorem failedHandshakes_chargeFailure :
    state.chargeFailure.failedHandshakes = state.failedHandshakes + 1 := by
  simp only [chargeFailure]
  split_ifs <;> rfl

end

/-- A loop that still runs has not used up its failure budget. -/
def WithinBudget : Prop :=
  state.disconnected = none → state.failedHandshakes < maxFailedNoiseHandshakes

theorem withinBudget_chargeFailure : state.chargeFailure.WithinBudget := by
  intro hrunning
  simp only [chargeFailure] at hrunning ⊢
  split_ifs at hrunning ⊢ with hspent
  · cases hrunning
  · exact Nat.lt_of_not_ge hspent

theorem foldl_sendReset (streamIds : List Text) (state : MultiplexedEnvironment) :
    (streamIds.foldl sendReset state).tables = state.tables ∧
      (streamIds.foldl sendReset state).failedHandshakes = state.failedHandshakes := by
  induction streamIds generalizing state with
  | nil => exact ⟨rfl, rfl⟩
  | cons streamId streamIds ih => exact ih (state.sendReset streamId)

end MultiplexedEnvironment

open MultiplexedEnvironment KeyedTable

/-- The event is a valid frame of a kind for a stream. -/
def Event.Carries (kind : RelayFrameBodyKind) (streamId : Text) (event : Event) : Prop :=
  ∃ frame handler, event = .incoming (.binary (.ok frame)) handler ∧
    frame.validate = .ok kind ∧ frame.streamId = streamId

/-- The event ends a pending handshake of the stream: a reset, a second
handshake that supersedes it, data before it is complete, or the loss of a
registry check, on which the loop gives up every pending handshake. -/
def Event.Cancels (streamId : Text) (event : Event) : Prop :=
  event.Carries .reset streamId ∨ event.Carries .handshake streamId ∨
    event.Carries .data streamId ∨ ∃ task, event = .validationFailed task

/-- The event makes the loop read a handshake request. -/
def startsHandshake (state : MultiplexedEnvironment) : Event → Bool
  | .incoming (.binary (.ok frame)) _ =>
    match frame.validate with
    | .ok .handshake =>
      frame.streamId ∉ state.streams ∧
        frame.streamId ∉ state.pendingHandshakes ∧
        state.streams.keys.length < maxActiveNoiseRelayStreams ∧
        state.validationTasks.length < maxPendingHandshakeValidations
    | _ => false
  | _ => false

/-- What a turn does: whether it reads a handshake request, the tables after
it, and the failures it charges. -/
inductive Effect (state : MultiplexedEnvironment) :
    Event → Bool → Tables → Nat → Prop where
  | idle {event : Event} : Effect state event false state.tables 0
  | refused {event : Event} : Effect state event true state.tables 1
  | started {event : Event} {streamId : Text}
      (handshake : PendingResponderHandshake)
      (harnessPublicKey : NoiseChannelPublicKey) (authorization : String)
      (hframe : event.Carries .handshake streamId)
      (hstreams : streamId ∉ state.streams)
      (hpending : streamId ∉ state.pendingHandshakes)
      (htasks : state.validationTasks.length < maxPendingHandshakeValidations) :
      Effect state event true
        { state.tables with
          nextValidationId := state.nextValidationId + 1
          pendingHandshakes := state.pendingHandshakes.insert streamId
            ⟨state.nextValidationId, handshake⟩
          validationTasks := state.validationTasks ++
            [⟨streamId, state.nextValidationId, harnessPublicKey, authorization⟩] } 0
  | canceled {event : Event} {streamId : Text}
      (hframe : event.Carries .handshake streamId ∨ event.Carries .data streamId)
      (hpending : streamId ∈ state.pendingHandshakes) :
      Effect state event false
        { state.tables with
          pendingHandshakes := state.pendingHandshakes.erase streamId } 1
  | reset {event : Event} {streamId : Text}
      (hframe : event.Carries .reset streamId) :
      Effect state event false
        { state.tables with
          streams := state.streams.erase streamId
          pendingHandshakes := state.pendingHandshakes.erase streamId } 0
  | closed {event : Event} {streamId : Text} {stream : ActiveStream}
      (hstream : state.streams.lookup streamId = some stream)
      (hevent : event = .closedStream streamId stream.instanceId ∨ event.Carries .data streamId) :
      Effect state event false { state.tables with streams := state.streams.erase streamId } 0
  | received {event : Event} {streamId : Text} {stream : ActiveStream}
      (reader : NoiseVirtualStream)
      (hframe : event.Carries .data streamId)
      (hstream : state.streams.lookup streamId = some stream) :
      Effect state event false
        { state.tables with
          streams := state.streams.insert streamId { stream with reader } } 0
  | stale {task : ValidationTask} {result : Except ExecServerError Unit}
      {completed : Except String (NoiseTransport × Bytes)} {queued : Bool}
      (hstale : ∀ pending, state.pendingHandshakes.lookup task.streamId = some pending →
          pending.validationId ≠ task.validationId) :
      Effect state (.validated task result completed queued) false
        { state.tables with
          validationTasks := state.validationTasks.erase task } 0
  | settled {task : ValidationTask} {result : Except ExecServerError Unit}
      {completed : Except String (NoiseTransport × Bytes)} {queued : Bool}
      {pending : PendingHandshake} {charged : Nat}
      (hpending : state.pendingHandshakes.lookup task.streamId = some pending)
      (hcurrent : pending.validationId = task.validationId)
      (hcharged : charged = 1 ∨ charged = 0 ∧ result = .ok ()) :
      Effect state (.validated task result completed queued) false
        { state.tables with
          pendingHandshakes := state.pendingHandshakes.erase task.streamId
          validationTasks := state.validationTasks.erase task } charged
  | activated {task : ValidationTask}
      {completed : Except String (NoiseTransport × Bytes)}
      {pending : PendingHandshake} (transport : NoiseTransport)
      (hpending : state.pendingHandshakes.lookup task.streamId = some pending)
      (hcurrent : pending.validationId = task.validationId)
      (hroom : state.streams.keys.length < maxActiveNoiseRelayStreams) :
      Effect state (.validated task (.ok ()) completed true) false
        { state.tables with
          streams := state.streams.insert task.streamId ⟨task.validationId, transport, {}⟩
          pendingHandshakes := state.pendingHandshakes.erase task.streamId
          validationTasks := state.validationTasks.erase task } 0
  | cleared {task : ValidationTask} :
      Effect state (.validationFailed task) false
        { state.tables with
          pendingHandshakes := ∅
          validationTasks := state.validationTasks.erase task } 0

/-- `Effect` for the state after a turn.  A charge that exhausts the budget
ends the loop. -/
def Performs (state : MultiplexedEnvironment) (event : Event) (next : MultiplexedEnvironment) :
    Prop :=
  ∃ charged, Effect state event (startsHandshake state event) next.tables charged ∧
      next.failedHandshakes = state.failedHandshakes + charged ∧
      (charged = 0 ∨ next.WithinBudget)

variable {frame : RelayMessageFrame}

theorem RelayMessageFrame.intoHandshakePayload_of_validate
    (hvalid : frame.validate = .ok .handshake) :
    ∃ request, frame.intoHandshakePayload = .ok request := by
  simp only [intoHandshakePayload, hvalid]
  simp only [validate] at hvalid
  split_ifs at hvalid
  split at hvalid
  all_goals first | split_ifs at hvalid | skip
  all_goals cases hvalid
  next payload hbody _ => exact ⟨payload, by simp [hbody]⟩

/-- A failure is charged with a reset of the stream. -/
theorem performs_charged {state before : MultiplexedEnvironment} {event : Event} {streamId : Text}
    {opened : Bool} (hstarts : startsHandshake state event = opened)
    (hcount : before.failedHandshakes = state.failedHandshakes)
    (heffect : Effect state event opened before.tables 1) :
    Performs state event (before.sendReset streamId).chargeFailure := by
  refine ⟨1, ?_, by simp [sendReset, hcount], .inr (withinBudget_chargeFailure _)⟩
  rw [hstarts, tables_chargeFailure]
  exact heffect

variable (state : MultiplexedEnvironment)

theorem onClosedStream_performs (streamId : Text) (instanceId : Nat) :
    Performs state (.closedStream streamId instanceId)
      (state.onClosedStream streamId instanceId) := by
  simp only [onClosedStream]
  split
  · exact ⟨0, .idle, rfl, .inl rfl⟩
  next stream hstream =>
    split_ifs with hinstance
    · subst hinstance
      exact ⟨0, .closed hstream (.inl rfl), rfl, .inl rfl⟩
    · exact ⟨0, .idle, rfl, .inl rfl⟩

theorem onValidated_performs (task : ValidationTask) (result : Except ExecServerError Unit)
    (completed : Except String (NoiseTransport × Bytes)) (queued : Bool) :
    Performs state (.validated task result completed queued)
      (state.onValidated task result completed queued) := by
  simp only [onValidated]
  split
  next hnone =>
    refine ⟨0, .stale ?_, rfl, .inl rfl⟩
    intro pending hpending
    rw [hnone] at hpending
    cases hpending
  next pending hpending =>
    split_ifs with hcurrent
    · cases result with
      | error error => exact performs_charged rfl rfl (.settled hpending hcurrent (.inl rfl))
      | ok _ =>
        simp only [activate]
        split
        · exact ⟨0, .settled hpending hcurrent (.inr ⟨rfl, rfl⟩), rfl, .inl rfl⟩
        next hroom =>
          cases completed with
          | error error => exact performs_charged rfl rfl (.settled hpending hcurrent (.inl rfl))
          | ok reply =>
            cases queued with
            | true =>
              exact ⟨0, .activated reply.1 hpending hcurrent
                (Nat.lt_of_not_ge hroom), rfl, .inl rfl⟩
            | false => exact ⟨0, .settled hpending hcurrent (.inr ⟨rfl, rfl⟩), rfl, .inl rfl⟩
    · refine ⟨0, .stale ?_, rfl, .inl rfl⟩
      intro found hfound
      obtain rfl : pending = found := by simpa [hpending] using hfound
      exact hcurrent

theorem onValidationFailed_performs (task : ValidationTask) :
    Performs state (.validationFailed task) (state.onValidationFailed task) := by
  obtain ⟨htables, hfailed⟩ := foldl_sendReset state.pendingHandshakes.keys
    { state.joinTask task with pendingHandshakes := ∅ }
  refine ⟨0, ?_, hfailed, .inl rfl⟩
  rw [onValidationFailed, htables]
  exact .cleared

variable {readRequest : ReadRequest} {state : MultiplexedEnvironment} {event : Event}
  {streamId : Text}

theorem onHandshake_performs (readRequest : ReadRequest) (state : MultiplexedEnvironment)
    (handler : Handler) (hvalid : frame.validate = .ok .handshake) :
    Performs state (.incoming (.binary (.ok frame)) handler)
      (onHandshake readRequest state frame) := by
  have hframe : Event.Carries .handshake frame.streamId
      (.incoming (.binary (.ok frame)) handler) :=
    ⟨frame, handler, rfl, hvalid, rfl⟩
  have hstarts : startsHandshake state
      (.incoming (.binary (.ok frame)) handler) =
        decide (frame.streamId ∉ state.streams ∧
          frame.streamId ∉ state.pendingHandshakes ∧
          state.streams.keys.length < maxActiveNoiseRelayStreams ∧
          state.validationTasks.length < maxPendingHandshakeValidations) := by
    simp only [startsHandshake, hvalid]
  simp only [onHandshake]
  split_ifs with hstreams hpending hroom htasks
  · exact ⟨0, by simpa [hstarts, hstreams] using Effect.idle, rfl, .inl rfl⟩
  · exact performs_charged (by simp [hstarts, hpending]) rfl (.canceled (.inl hframe) hpending)
  · have hfull := Nat.not_lt_of_ge hroom
    exact ⟨0, by simpa [hstarts, hfull] using Effect.idle, rfl, .inl rfl⟩
  · have hfull := Nat.not_lt_of_ge htasks
    exact ⟨0, by simpa [hstarts, hfull] using Effect.idle, rfl, .inl rfl⟩
  · obtain ⟨request, hrequest⟩ := RelayMessageFrame.intoHandshakePayload_of_validate hvalid
    simp only [hrequest]
    have hcharged : startsHandshake state (.incoming (.binary (.ok frame)) handler) = true := by
      rw [hstarts, decide_eq_true_eq]
      exact ⟨hstreams, hpending, Nat.lt_of_not_ge hroom, Nat.lt_of_not_ge htasks⟩
    rw [startHandshake]
    split
    · exact performs_charged hcharged rfl .refused
    next handshake _ =>
      split
      · exact performs_charged hcharged rfl .refused
      next authorization _ =>
        exact ⟨0, hcharged ▸ .started _ handshake.initiatorPublicKey
          authorization hframe hstreams hpending
          (Nat.lt_of_not_ge htasks), rfl, .inl rfl⟩

theorem onData_performs (state : MultiplexedEnvironment) (handler : Handler)
    (hvalid : frame.validate = .ok .data) :
    Performs state (.incoming (.binary (.ok frame)) handler) (state.onData handler frame) := by
  have hframe : Event.Carries .data frame.streamId (.incoming (.binary (.ok frame)) handler) :=
    ⟨frame, handler, rfl, hvalid, rfl⟩
  have hstarts : startsHandshake state (.incoming (.binary (.ok frame)) handler) = false := by
    simp only [startsHandshake, hvalid]
  rw [onData]
  split
  · split_ifs with hpending
    · exact performs_charged hstarts rfl (.canceled (.inr hframe) hpending)
    · rw [Performs, hstarts, dropPending, KeyedTable.erase_of_notMem hpending]
      exact ⟨0, .idle, rfl, .inl rfl⟩
  next stream hstream =>
    rw [Performs, hstarts]
    split
    · exact ⟨0, .closed hstream (.inr hframe), rfl, .inl rfl⟩
    · split
      · exact ⟨0, .closed hstream (.inr hframe), rfl, .inl rfl⟩
      next reader _ => exact ⟨0, .received reader hframe hstream, rfl, .inl rfl⟩

theorem onReset_performs (state : MultiplexedEnvironment) (handler : Handler)
    (hvalid : frame.validate = .ok .reset) :
    Performs state (.incoming (.binary (.ok frame)) handler) (state.onReset frame) := by
  have hstarts : startsHandshake state (.incoming (.binary (.ok frame)) handler) = false := by
    simp only [startsHandshake, hvalid]
  rw [Performs, hstarts]
  exact ⟨0, .reset ⟨frame, handler, rfl, hvalid, rfl⟩, rfl, .inl rfl⟩

section

variable (readRequest : ReadRequest) (state : MultiplexedEnvironment)

theorem onMessage_performs (handler : Handler) (message : WebSocketMessage) :
    Performs state (.incoming message handler) (onMessage readRequest state handler message) := by
  cases message with
  | binary decoded =>
    cases decoded with
    | error error => exact ⟨0, .idle, rfl, .inl rfl⟩
    | ok frame =>
      simp only [onMessage, onFrame]
      split
      case h_2 hvalid => exact onHandshake_performs _ _ _ hvalid
      case h_3 hvalid => exact onData_performs _ _ hvalid
      case h_4 hvalid => exact onReset_performs _ _ hvalid
      all_goals
        next hvalid =>
          refine ⟨0, ?_, rfl, .inl rfl⟩
          simp only [startsHandshake, hvalid]
          exact .idle
  | text | ping | pong | close | failed | ended => exact ⟨0, .idle, rfl, .inl rfl⟩

theorem step_performs (event : Event) : Performs state event (state.step readRequest event) := by
  cases event with
  | writerEnded reason => exact ⟨0, .idle, rfl, .inl rfl⟩
  | closedStream streamId instanceId => exact onClosedStream_performs state streamId instanceId
  | validated task result completed queued =>
    exact onValidated_performs state task result completed queued
  | validationFailed task => exact onValidationFailed_performs state task
  | incoming message handler => exact onMessage_performs readRequest state handler message

end

/-- What holds of the tables in every state of the loop. -/
structure Tables.Consistent (tables : Tables) : Prop where
  disjoint : ∀ streamId ∈ tables.pendingHandshakes, streamId ∉ tables.streams
  streams_le : tables.streams.keys.length ≤ maxActiveNoiseRelayStreams
  tasks_le : tables.validationTasks.length ≤ maxPendingHandshakeValidations
  checked : ∀ streamId pending, tables.pendingHandshakes.lookup streamId = some pending →
      ∃ task ∈ tables.validationTasks, task.streamId = streamId ∧
        task.validationId = pending.validationId
  numbered : ∀ task ∈ tables.validationTasks, task.validationId < tables.nextValidationId
  distinct : (tables.validationTasks.map ValidationTask.validationId).Nodup

theorem consistent_initial : Tables.Consistent ({} : MultiplexedEnvironment).tables := by
  refine ⟨?_, by decide, by decide, nofun, nofun, nodup_nil⟩
  intro streamId hmem
  exact absurd hmem (notMem_empty streamId)

variable {tables : Tables}

/-- Pending handshakes can be given up, with the tasks of none left over. -/
theorem Tables.Consistent.shrink (hconsistent : tables.Consistent)
    {streams : AList (fun _ : Text => ActiveStream)}
    {pendingHandshakes : AList (fun _ : Text => PendingHandshake)}
    {validationTasks : List ValidationTask}
    (hstreams : ∀ streamId ∈ streams, streamId ∈ tables.streams)
    (hlength : streams.keys.length ≤ tables.streams.keys.length)
    (htasks : validationTasks.Sublist tables.validationTasks) (hpending : ∀ streamId pending,
      pendingHandshakes.lookup streamId = some pending →
        tables.pendingHandshakes.lookup streamId = some pending ∧
          ∀ task ∈ tables.validationTasks, task.streamId = streamId →
            task.validationId = pending.validationId → task ∈ validationTasks) :
    Tables.Consistent { tables with streams, pendingHandshakes, validationTasks } := by
  refine ⟨?_, hlength.trans hconsistent.streams_le,
    htasks.length_le.trans hconsistent.tasks_le, ?_, ?_, ?_⟩
  · intro streamId hmem hactive
    obtain ⟨pending, hfound⟩ := exists_lookup hmem
    exact hconsistent.disjoint streamId (mem_of_lookup (hpending streamId pending hfound).1)
      (hstreams streamId hactive)
  · intro streamId pending hfound
    obtain ⟨hbefore, hkept⟩ := hpending streamId pending hfound
    obtain ⟨task, htask, hstream, hid⟩ := hconsistent.checked streamId pending hbefore
    exact ⟨task, hkept task htask hstream hid, hstream, hid⟩
  · intro task hmem
    exact hconsistent.numbered task (htasks.subset hmem)
  · exact hconsistent.distinct.sublist (htasks.map _)

variable {task : ValidationTask}

/-- The tasks of the pending handshakes survive the task that has finished. -/
theorem mem_erase_of_not_current {finished : ValidationTask} {tasks : List ValidationTask}
    (hmem : task ∈ tasks)
    (hother : task.streamId = finished.streamId → task.validationId ≠ finished.validationId) :
    task ∈ tasks.erase finished := by
  apply (mem_erase_of_ne _).mpr hmem
  rintro rfl
  exact hother rfl rfl

theorem Tables.Consistent.started (hconsistent : tables.Consistent)
    (handshake : PendingResponderHandshake) (harnessPublicKey : NoiseChannelPublicKey)
    (authorization : String) (hstreams : streamId ∉ tables.streams)
    (htasks : tables.validationTasks.length < maxPendingHandshakeValidations) :
    Tables.Consistent
      { tables with
        nextValidationId := tables.nextValidationId + 1
        pendingHandshakes := tables.pendingHandshakes.insert streamId
          ⟨tables.nextValidationId, handshake⟩
        validationTasks := tables.validationTasks ++
          [⟨streamId, tables.nextValidationId, harnessPublicKey, authorization⟩] } := by
  refine ⟨?_, hconsistent.streams_le, ?_, ?_, ?_, ?_⟩
  · intro other hmem
    rcases (mem_insert _).mp hmem with rfl | hmem
    · exact hstreams
    · exact hconsistent.disjoint other hmem
  · simpa [Nat.succ_le_iff] using htasks
  · intro other pending hfound
    by_cases hother : other = streamId
    · subst hother
      obtain rfl : _ = pending := by simpa using hfound
      exact ⟨⟨other, tables.nextValidationId, harnessPublicKey, authorization⟩, by simp, rfl, rfl⟩
    · rw [lookup_insert_ne hother] at hfound
      obtain ⟨task, htask, hkey⟩ := hconsistent.checked other pending hfound
      exact ⟨task, mem_append_left _ htask, hkey⟩
  · exact forall_mem_append.mpr ⟨fun task hmem =>
      Nat.lt_succ_of_lt (hconsistent.numbered task hmem),
      forall_mem_singleton.mpr (Nat.lt_succ_self _)⟩
  · rw [map_append, nodup_append]
    refine ⟨hconsistent.distinct, nodup_singleton _, ?_⟩
    intro left hleft right hright
    obtain ⟨task, htask, rfl⟩ := mem_map.mp hleft
    obtain rfl : right = tables.nextValidationId := by simpa using hright
    exact Nat.ne_of_lt (hconsistent.numbered task htask)

/-- A handshake whose task has finished becomes an active stream. -/
theorem Tables.Consistent.activated (hconsistent : tables.Consistent)
    (hpending : streamId ∉ tables.pendingHandshakes) (hstreams : streamId ∉ tables.streams)
    (stream : ActiveStream) (hroom : tables.streams.keys.length < maxActiveNoiseRelayStreams) :
    Tables.Consistent { tables with streams := tables.streams.insert streamId stream } := by
  refine ⟨?_, ?_, hconsistent.tasks_le, hconsistent.checked,
    hconsistent.numbered, hconsistent.distinct⟩
  · intro other hmem hactive
    rcases (mem_insert _).mp hactive with rfl | hactive
    · exact hpending hmem
    · exact hconsistent.disjoint other hmem hactive
  · exact (length_keys_insert_of_notMem hstreams stream).trans_le hroom

variable {after : Tables} {opened : Bool} {charged : Nat}

theorem Tables.Consistent.keep (hconsistent : state.tables.Consistent)
    (heffect : Effect state event opened after charged) : after.Consistent := by
  -- A pending handshake of another stream keeps its entry and its task.
  have hkept : ∀ {finished : ValidationTask} streamId pending,
      (state.pendingHandshakes.erase finished.streamId).lookup streamId = some pending →
      state.pendingHandshakes.lookup streamId = some pending ∧
        ∀ task ∈ state.validationTasks, task.streamId = streamId →
          task.validationId = pending.validationId →
          task ∈ state.validationTasks.erase finished := by
    intro finished streamId pending hfound
    obtain ⟨hother, hfound⟩ := lookup_of_lookup_erase hfound
    refine ⟨hfound, fun task htask hstream _ => ?_⟩
    exact mem_erase_of_not_current htask (fun hsame => absurd (hstream.symm.trans hsame) hother)
  cases heffect with
  | idle | refused => exact hconsistent
  | started handshake key authorization hframe hstreams hpending htasks =>
    exact hconsistent.started handshake key authorization hstreams htasks
  | canceled hframe hpending =>
    apply hconsistent.shrink (fun _ hmem => hmem) (Nat.le_refl _) (List.Sublist.refl _)
    intro streamId pending hfound
    exact ⟨(lookup_of_lookup_erase hfound).2, fun task htask _ _ => htask⟩
  | reset hframe =>
    apply hconsistent.shrink (fun _ hmem => (mem_erase.mp hmem).2)
      (length_keys_erase_le _ _) (List.Sublist.refl _)
    intro streamId pending hfound
    exact ⟨(lookup_of_lookup_erase hfound).2, fun task htask _ _ => htask⟩
  | closed hstream hevent =>
    exact hconsistent.shrink (fun _ hmem => (mem_erase.mp hmem).2) (length_keys_erase_le _ _)
      (List.Sublist.refl _) (fun _ _ hfound => ⟨hfound, fun task htask _ _ => htask⟩)
  | received reader hframe hstream =>
    have hactive := mem_of_lookup hstream
    apply hconsistent.shrink _ (length_keys_insert_of_mem hactive _).le (List.Sublist.refl _)
      (fun _ _ hfound => ⟨hfound, fun task htask _ _ => htask⟩)
    intro streamId hmem
    rcases (mem_insert _).mp hmem with rfl | hmem
    · exact hactive
    · exact hmem
  | stale hstale =>
    apply hconsistent.shrink (fun _ hmem => hmem) (Nat.le_refl _) erase_sublist
    intro streamId pending hfound
    refine ⟨hfound, fun task htask hstream hid => ?_⟩
    apply mem_erase_of_not_current htask
    intro hsame
    rw [hid]
    exact hstale pending (hsame ▸ hstream ▸ hfound)
  | settled hpending hcurrent hcharged =>
    exact hconsistent.shrink (fun _ hmem => hmem) (Nat.le_refl _) erase_sublist hkept
  | @activated task completed pending transport hpending hcurrent hroom =>
    have htaken := hconsistent.shrink (fun _ hmem => hmem) (Nat.le_refl _)
      (erase_sublist (a := task)) hkept
    apply htaken.activated _ _ _ hroom
    · exact fun hmem => (mem_erase.mp hmem).1 rfl
    · exact hconsistent.disjoint _ (mem_of_lookup hpending)
  | cleared =>
    apply hconsistent.shrink (fun _ hmem => hmem) (Nat.le_refl _) erase_sublist
    exact nofun

variable {next : MultiplexedEnvironment}

theorem turn_consistent (hturn : Turn readRequest state event next)
    (hconsistent : state.tables.Consistent) : next.tables.Consistent := by
  obtain ⟨-, -, rfl⟩ := hturn
  obtain ⟨charged, heffect, -⟩ := step_performs readRequest state event
  exact hconsistent.keep heffect

variable {events : List Event}

theorem run_consistent (hrun : Run (Turn readRequest) {} events state) :
    state.tables.Consistent :=
  hrun.invariant (fun _ _ _ hturn => turn_consistent hturn) consistent_initial

/-- A pending handshake does not outlive an event that ends it. -/
theorem notMem_pending_of_cancels (hstreams : streamId ∉ state.streams)
    (hpending : streamId ∈ state.pendingHandshakes) (hcancels : event.Cancels streamId) :
    streamId ∉ (state.step readRequest event).tables.pendingHandshakes := by
  have herased : streamId ∉ (state.dropPending streamId).tables.pendingHandshakes :=
    fun hmem => (mem_erase.mp hmem).1 rfl
  rcases hcancels with hframe | hframe | hframe | ⟨task, rfl⟩
  · obtain ⟨frame, handler, rfl, hvalid, rfl⟩ := hframe
    simp only [step, onMessage, onFrame, hvalid]
    exact herased
  · obtain ⟨frame, handler, rfl, hvalid, rfl⟩ := hframe
    simpa only [step, onMessage, onFrame, hvalid, onHandshake, hstreams, hpending, if_true,
      if_false, tables_chargeFailure, tables_sendReset] using herased
  · obtain ⟨frame, handler, rfl, hvalid, rfl⟩ := hframe
    simpa only [step, onMessage, onFrame, hvalid, onData, lookup_eq_none.mpr hstreams, hpending,
      if_true, tables_chargeFailure, tables_sendReset] using herased
  · rw [step, onValidationFailed, (foldl_sendReset _ _).1]
    exact notMem_empty streamId

/-- The registry check was started by a handshake of its stream, and no event
since has ended that handshake. -/
def Opened (readRequest : ReadRequest) (events : List Event) (task : ValidationTask) : Prop :=
  ∃ before handshake between start, events = before ++ handshake :: between ∧
      Run (Turn readRequest) {} before start ∧
      handshake.Carries .handshake task.streamId ∧
      task ∉ start.validationTasks ∧
      task ∈ (start.step readRequest handshake).validationTasks ∧
      ∀ event ∈ between, ¬event.Cancels task.streamId

/-- The instance of the stream was created by a handshake whose own registry
check returned before anything ended the handshake. -/
def Authorized (readRequest : ReadRequest) (events : List Event) (streamId : Text)
    (instanceId : Nat) : Prop :=
  ∃ before task completed after,
    events = before ++ .validated task (.ok ()) completed true :: after ∧
      Opened readRequest before task ∧ task.streamId = streamId ∧
      task.validationId = instanceId

theorem Opened.snoc (hopened : Opened readRequest events task)
    (hevent : ¬event.Cancels task.streamId) : Opened readRequest (events ++ [event]) task := by
  obtain ⟨before, handshake, between, start, rfl, hrun, hframe, hfresh,
    htask, hbetween⟩ := hopened
  refine ⟨before, handshake, between ++ [event], start, by simp, hrun, hframe, hfresh, htask, ?_⟩
  exact forall_mem_append.mpr ⟨hbetween, forall_mem_singleton.mpr hevent⟩

variable {instanceId : Nat}

theorem Authorized.snoc (hauthorized : Authorized readRequest events streamId instanceId)
    (event : Event) : Authorized readRequest (events ++ [event]) streamId instanceId := by
  obtain ⟨before, task, completed, after, rfl, hopened⟩ := hauthorized
  exact ⟨before, task, completed, after ++ [event], by simp, hopened⟩

variable (heffect : Effect state event opened after charged)
include heffect in
/-- An entry of the pending table was there before the turn, or the turn
started its handshake. -/
theorem Effect.pending_cases {pending : PendingHandshake}
    (hpending : after.pendingHandshakes.lookup streamId = some pending) :
    state.pendingHandshakes.lookup streamId = some pending ∨
      (event.Carries .handshake streamId ∧
        ∃ task ∈ after.validationTasks, task.streamId = streamId ∧
          task.validationId = pending.validationId ∧
          task.validationId = state.nextValidationId) := by
  cases heffect with
  | idle | refused | closed | received | stale => exact .inl hpending
  | @started _ other handshake key authorization hframe =>
    by_cases hother : streamId = other
    · subst hother
      obtain rfl : _ = pending := by simpa using hpending
      exact .inr ⟨hframe, ⟨streamId, state.nextValidationId, key,
        authorization⟩, by simp, rfl, rfl, rfl⟩
    · rw [lookup_insert_ne hother] at hpending
      exact .inl hpending
  | canceled | reset | settled | activated => exact .inl (lookup_of_lookup_erase hpending).2
  | cleared => cases hpending

include heffect in
/-- An entry of the active table is an instance from before the turn, or the
turn brought the result of its own registry check. -/
theorem Effect.streams_cases {stream : ActiveStream}
    (hstream : after.streams.lookup streamId = some stream) :
    (∃ before, state.streams.lookup streamId = some before ∧
        before.instanceId = stream.instanceId) ∨
      ∃ task completed pending, event = .validated task (.ok ()) completed true ∧
          task.streamId = streamId ∧ task.validationId = stream.instanceId ∧
          state.pendingHandshakes.lookup streamId = some pending ∧
          pending.validationId = task.validationId := by
  cases heffect with
  | idle | refused | started | canceled | stale | settled | cleared =>
    exact .inl ⟨stream, hstream, rfl⟩
  | reset | closed => exact .inl ⟨stream, (lookup_of_lookup_erase hstream).2, rfl⟩
  | @received _ other before reader hframe hbefore =>
    by_cases hother : streamId = other
    · subst hother
      obtain rfl : _ = stream := by simpa using hstream
      exact .inl ⟨before, hbefore, rfl⟩
    · rw [lookup_insert_ne hother] at hstream
      exact .inl ⟨stream, hstream, rfl⟩
  | @activated task completed pending transport hpending hcurrent =>
    by_cases hother : streamId = task.streamId
    · subst hother
      obtain rfl : _ = stream := by simpa using hstream
      exact .inr ⟨task, completed, pending, rfl, rfl, rfl, hpending, hcurrent⟩
    · rw [lookup_insert_ne hother] at hstream
      exact .inl ⟨stream, hstream, rfl⟩

/-- The origin of the entries of both tables in the events so far. -/
structure Origins (readRequest : ReadRequest) (events : List Event)
    (state : MultiplexedEnvironment) : Prop where
  pending : ∀ streamId pending, state.pendingHandshakes.lookup streamId = some pending →
      ∀ task ∈ state.validationTasks, task.streamId = streamId →
        task.validationId = pending.validationId → Opened readRequest events task
  active : ∀ streamId stream, state.streams.lookup streamId = some stream →
    Authorized readRequest events streamId stream.instanceId

include heffect in
theorem Effect.mem_validationTasks (htask : task ∈ after.validationTasks) :
    task ∈ state.validationTasks ∨ task.validationId = state.nextValidationId := by
  cases heffect with
  | started handshake key authorization =>
    rcases mem_append.mp htask with htask | htask
    · exact .inl htask
    · rw [mem_singleton.mp htask]
      exact .inr rfl
  | stale | settled | activated | cleared => exact .inl (mem_of_mem_erase htask)
  | idle | refused | canceled | reset | closed | received => exact .inl htask

theorem Origins.pending_turn (hrun : Run (Turn readRequest) {} events state)
    (horigins : Origins readRequest events state) (hturn : Turn readRequest state event next)
    (streamId : Text) (pending : PendingHandshake)
    (hpending : next.pendingHandshakes.lookup streamId = some pending) (task : ValidationTask)
    (htask : task ∈ next.validationTasks) (hstream : task.streamId = streamId)
    (hid : task.validationId = pending.validationId) :
    Opened readRequest (events ++ [event]) task := by
  have hconsistent := run_consistent hrun
  have hnext := turn_consistent hturn hconsistent
  obtain ⟨-, -, rfl⟩ := hturn
  obtain ⟨charged, heffect, -⟩ := step_performs readRequest state event
  rcases heffect.pending_cases hpending with hbefore | ⟨hframe, hnew⟩
  · -- An older handshake: its task is older too, and nothing has ended it.
    obtain ⟨older, holder, -, holderId⟩ := hconsistent.checked streamId pending hbefore
    have hlt : task.validationId < state.nextValidationId := by
      rw [hid, ← holderId]
      exact hconsistent.numbered older holder
    rcases heffect.mem_validationTasks htask with hmem | hfresh
    · apply (horigins.pending streamId pending hbefore task hmem hstream hid).snoc
      intro hcancels
      have hactive := hconsistent.disjoint streamId (mem_of_lookup hbefore)
      exact notMem_pending_of_cancels hactive (mem_of_lookup hbefore)
        (hstream ▸ hcancels) (mem_of_lookup hpending)
    · exact absurd hfresh hlt.ne
  · -- The handshake of this turn: its task has the next validation id.
    obtain ⟨started, hstarted, hstartedStream, hstartedId, hfresh⟩ := hnew
    obtain rfl := inj_on_of_nodup_map hnext.distinct htask hstarted (hid.trans hstartedId.symm)
    refine ⟨events, event, [], state, rfl, hrun, hstream ▸ hframe, ?_, htask, by simp⟩
    intro hmem
    exact absurd hfresh (hconsistent.numbered task hmem).ne

theorem Origins.active_turn (horigins : Origins readRequest events state)
    (hturn : Turn readRequest state event next) (streamId : Text) (stream : ActiveStream)
    (hstream : next.streams.lookup streamId = some stream) :
    Authorized readRequest (events ++ [event]) streamId stream.instanceId := by
  obtain ⟨-, henabled, rfl⟩ := hturn
  obtain ⟨charged, heffect, -⟩ := step_performs readRequest state event
  rcases heffect.streams_cases hstream with ⟨before, hbefore, hid⟩ | hresult
  · rw [← hid]
    exact (horigins.active streamId before hbefore).snoc event
  · obtain ⟨task, completed, pending, rfl, hkey, hid, hpending, hcurrent⟩ := hresult
    have hopened := horigins.pending streamId pending hpending task henabled hkey hcurrent.symm
    exact ⟨events, task, completed, [], rfl, hopened, hkey, hid⟩

theorem run_origins (hrun : Run (Turn readRequest) {} events state) :
    Origins readRequest events state := by
  refine hrun.history ⟨nofun, nofun⟩ ?_
  intro before state event next hbefore horigins hturn
  exact ⟨horigins.pending_turn hbefore hturn, horigins.active_turn hturn⟩

/-- The notice of an ended stream, or the result of a registry check, for one
instance of a stream. -/
def Event.BelongsTo (streamId : Text) (instanceId : Nat) : Event → Prop
  | .closedStream closedId closedInstance => closedId = streamId ∧ closedInstance = instanceId
  | .validated task _ _ _ => task.streamId = streamId ∧ task.validationId = instanceId
  | .writerEnded _ => False
  | .validationFailed _ => False
  | .incoming _ _ => False

theorem Event.BelongsTo.not_carries (hbelongs : event.BelongsTo streamId instanceId)
    {kind : RelayFrameBodyKind} {other : Text} : ¬event.Carries kind other := by
  rintro ⟨frame, handler, rfl, -⟩
  exact hbelongs

/-- What such an event leaves alone: everything but its own instance. -/
structure LeavesOthers (streamId : Text) (instanceId : Nat) (state next : Tables) : Prop where
  active : ∀ other stream, state.streams.lookup other = some stream →
    other ≠ streamId ∨ stream.instanceId ≠ instanceId → next.streams.lookup other = some stream
  pending : ∀ other pending, state.pendingHandshakes.lookup other = some pending →
      other ≠ streamId ∨ pending.validationId ≠ instanceId →
        next.pendingHandshakes.lookup other = some pending
  activated : ∀ other stream, next.streams.lookup other = some stream →
    state.streams.lookup other = none → other = streamId ∧ stream.instanceId = instanceId ∧
        ∃ pending, state.pendingHandshakes.lookup streamId = some pending ∧
          pending.validationId = instanceId

/-- Taking the entry of the current instance out of a table. -/
theorem lookup_erase_of_other {Entry : Type} {idOf : Entry → Nat}
    {table : AList (fun _ : Text => Entry)} {current : Entry}
    (hcurrent : table.lookup streamId = some current) (hid : idOf current = instanceId)
    (other : Text) (entry : Entry) (hentry : table.lookup other = some entry)
    (hother : other ≠ streamId ∨ idOf entry ≠ instanceId) :
    (table.erase streamId).lookup other = some entry := by
  have hne : other ≠ streamId := by
    rcases hother with hother | hother
    · exact hother
    · rintro rfl
      rw [hcurrent, Option.some.injEq] at hentry
      exact hother (hentry ▸ hid)
  rwa [lookup_erase_ne hne]

include heffect in
theorem Effect.leavesOthers (hconsistent : state.tables.Consistent)
    (hbelongs : event.BelongsTo streamId instanceId) :
    LeavesOthers streamId instanceId state.tables after := by
  cases heffect with
  | idle | refused | stale =>
    refine ⟨fun _ _ hfound _ => hfound, fun _ _ hfound _ => hfound, ?_⟩
    intro other stream hfound hnone
    cases hfound.symm.trans hnone
  | started _ _ _ hframe | reset hframe | received reader hframe =>
    exact absurd hframe hbelongs.not_carries
  | canceled hframe => exact (hframe.elim hbelongs.not_carries hbelongs.not_carries).elim
  | @closed _ closedId closing hstream hevent =>
    rcases hevent with rfl | hframe
    · obtain ⟨rfl, rfl⟩ := hbelongs
      refine ⟨lookup_erase_of_other hstream rfl, fun _ _ hfound _ => hfound,
        fun other stream hfound hnone => ?_⟩
      have hbefore := (lookup_of_lookup_erase hfound).2
      cases hbefore.symm.trans hnone
    · exact absurd hframe hbelongs.not_carries
  | settled hpending hcurrent =>
    obtain ⟨rfl, rfl⟩ := hbelongs
    refine ⟨fun _ _ hfound _ => hfound, lookup_erase_of_other hpending hcurrent,
      fun other stream hfound hnone => ?_⟩
    cases hfound.symm.trans hnone
  | @activated task completed current transport hpending hcurrent =>
    obtain ⟨rfl, rfl⟩ := hbelongs
    have hinactive := hconsistent.disjoint _ (mem_of_lookup hpending)
    refine ⟨?_, lookup_erase_of_other hpending hcurrent, ?_⟩
    · intro other stream hfound _
      have hne : other ≠ task.streamId := by
        rintro rfl
        exact hinactive (mem_of_lookup hfound)
      exact (lookup_insert_ne hne).trans hfound
    · intro other stream hfound hnone
      by_cases hother : other = task.streamId
      · subst hother
        obtain rfl : _ = stream := by simpa using hfound
        exact ⟨rfl, rfl, current, hpending, hcurrent⟩
      · rw [lookup_insert_ne hother] at hfound
        cases hfound.symm.trans hnone
  | cleared => exact absurd hbelongs id

/-- In every state that the loop reaches, whatever the order of its events:
a served stream has been authorized by the check of its own handshake, no
stream is served while its handshake is pending, the table of served streams
is within its limit, and a late notice or result touches only the instance to
which it belongs. -/
theorem served_streams_authorized (readRequest : ReadRequest) (events : List Event)
    (state : MultiplexedEnvironment) (hrun : Run (Turn readRequest) {} events state) :
    (∀ streamId stream, state.streams.lookup streamId = some stream →
      Authorized readRequest events streamId stream.instanceId) ∧
    (∀ streamId ∈ state.pendingHandshakes, streamId ∉ state.streams) ∧
    state.streams.keys.length ≤ maxActiveNoiseRelayStreams ∧
    ∀ event next, Turn readRequest state event next →
      ∀ streamId instanceId, event.BelongsTo streamId instanceId →
        LeavesOthers streamId instanceId state.tables next.tables := by
  have hconsistent := run_consistent hrun
  refine ⟨(run_origins hrun).active, hconsistent.disjoint, hconsistent.streams_le, ?_⟩
  intro event next hturn streamId instanceId hbelongs
  obtain ⟨-, -, rfl⟩ := hturn
  obtain ⟨charged, heffect, -⟩ := step_performs readRequest state event
  exact heffect.leavesOthers hconsistent hbelongs

namespace Witness

/-- An executor that can read every request. -/
def readsAll : ReadRequest := fun _ _ => .ok ⟨⟨[], [], []⟩, []⟩

def handshakeFrom (streamId : Text) : Event :=
  .incoming (.binary (.ok (.ofHandshake streamId [0]))) (fun _ _ => .ok ())

def taskOf (streamId : Text) (validationId : Nat) : ValidationTask :=
  ⟨streamId, validationId, ⟨[], [], []⟩, ""⟩

def plainTransport : NoiseTransport := ⟨fun _ record => some record, fun _ record => .ok record⟩

/-- A handshake and the result of its registry check. -/
def admission : List Event :=
  [handshakeFrom ['a'], .validated (taskOf ['a'] 0) (.ok ()) (.ok (plainTransport, [])) true]

def admitted : MultiplexedEnvironment := admission.foldl (step readsAll) {}

theorem admission_runs : Run (Turn readsAll) {} admission admitted :=
  .cons ⟨rfl, trivial, rfl⟩ (.cons ⟨rfl, mem_singleton_self _, rfl⟩ (.nil _))

theorem admitted_authorized :
    ['a'] ∈ admitted.streams ∧ Authorized readsAll admission ['a'] 0 := by
  refine ⟨by decide, ?_⟩
  exact (served_streams_authorized readsAll admission admitted
    admission_runs).1 ['a'] ⟨0, plainTransport, {}⟩ rfl

end Witness

end Hexa.NoiseRelay
