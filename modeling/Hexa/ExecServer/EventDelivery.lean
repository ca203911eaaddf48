/-
A client session over a whole run: notifications that are lost, repeated and
reordered, recovery from read responses, and failures of the connection.
-/
import Hexa.ExecServer.ProcessReads

namespace Hexa.ExecServer

open List ExecProcessEvent AList

/-- The published events are a beginning of the history, maybe followed by one
failure. -/
def Delivered (history : ProcessHistory) (events : List ExecProcessEvent) : Prop :=
  ∃ (count : Nat) (failure : Option Text), count ≤ history.events.length ∧
    events.map ExecProcessEvent.plain = (history.events.take count).map ExecProcessEvent.plain ++
        (failure.map ExecProcessEvent.failed).toList

namespace SessionState

variable {history : ProcessHistory} {start session : SessionState} {response : ReadResponse}

theorem Follows.delivered (hfollows : Follows history session) :
    Delivered history session.events :=
  ⟨session.lastPublishedSeq, session.orderedEvents.failure, hfollows.last_le, hfollows.events⟩

section

variable {base : List ExecProcessEvent} {loop : RecoveryLoop}

/-- What was published stays published. -/
def Extends (base : List ExecProcessEvent) : Except RecoveryError RecoveryLoop → Prop :=
  Ensures (fun error => base <+: error.session.events) (fun loop => base <+: loop.session.events)

variable (hbase : base <+: loop.session.events) (response)
include hbase

theorem RecoveryLoop.extends_publish (event : ExecProcessEvent) :
    Extends base (loop.publish event) := by
  rw [RecoveryLoop.publish]
  split
  · exact hbase
  next ordered _ =>
    have hnext : base <+: ({ loop.session with
      orderedEvents := ordered } : SessionState).events := hbase
    exact prefix_publishLoop hnext _ _

theorem RecoveryLoop.extends_inferExit (chunk : ProcessOutputChunk) :
    Extends base (loop.inferExit response chunk) := by
  rw [RecoveryLoop.inferExit]
  split
  · split
    · exact hbase
    · exact (RecoveryLoop.extends_publish hbase _).map fun _ hnext => hnext
  · exact hbase

theorem RecoveryLoop.extends_recoverChunk (chunk : ProcessOutputChunk) :
    Extends base (loop.recoverChunk response chunk) := by
  rw [RecoveryLoop.recoverChunk]
  split
  · exact hbase
  · refine (RecoveryLoop.extends_inferExit response hbase chunk).bind fun next hnext => ?_
    split
    · exact RecoveryLoop.extends_publish hnext _
    · exact hnext

theorem RecoveryLoop.extends_recoverChunks (chunks : List ProcessOutputChunk) :
    Extends base (loop.recoverChunks response chunks) := by
  induction chunks generalizing loop with
  | nil => exact hbase
  | cons chunk chunks ih =>
    exact (RecoveryLoop.extends_recoverChunk response hbase chunk).bind fun next hnext => ih hnext

theorem RecoveryLoop.extends_recoverClosed : Extends base (loop.recoverClosed response) := by
  rw [RecoveryLoop.recoverClosed]
  split
  · split <;> exact hbase
  · exact hbase

theorem RecoveryLoop.extends_recoverMissing : Extends base (loop.recoverMissing response) := by
  rw [RecoveryLoop.recoverMissing]
  split
  · split
    · exact hbase
    · split
      · exact hbase
      · exact RecoveryLoop.extends_publish hbase _
  · split
    · exact hbase
    · exact prefix_publishLoop hbase _ _

end

section Wrong

variable {seen rest : List ProcessOutputChunk} {loop : RecoveryLoop} {missing : Nat}

/-- An exit event was published in the place of `missing`. -/
def ExitAt (missing : Nat) (session : SessionState) : Prop :=
  ∃ event, session.events[missing - 1]? = some event ∧ event.isExited = true

theorem ExitAt.of_prefix {second : SessionState} (hexit : session.ExitAt missing)
    (hevents : session.events <+: second.events) : second.ExitAt missing := by
  obtain ⟨event, hevent, hexited⟩ := hexit
  refine ⟨event, ?_, hexited⟩
  obtain ⟨more, hmore⟩ := hevents
  rw [← hmore, List.getElem?_append_left (List.getElem?_eq_some_iff.mp hevent).1]
  exact hevent

theorem ExitAt.ensures {Result : Type} {view : Result → SessionState}
    (hexit : session.ExitAt missing) {outcome : Except RecoveryError Result}
    (houtcome : Ensures (fun error => session.events <+: error.session.events)
      (fun result => session.events <+: (view result).events) outcome) :
    Ensures (fun error => error.session.ExitAt missing)
      (fun result => (view result).ExitAt missing) outcome :=
  houtcome.imp (fun _ hevents => hexit.of_prefix hevents) fun _ hevents => hexit.of_prefix hevents

/-- The next event goes straight through the buffer. -/
theorem RecoveryLoop.publish_next {event : ExecProcessEvent} (hdrained : loop.session.Drained)
    (hseq : event.seq = some (loop.session.lastPublishedSeq + 1))
    (hbytes : pendingProcessEventBytes event ≤ maxPendingProcessEventBytes) :
    ∃ next, loop.publish event = .ok next ∧
      loop.session.events ++ [event] <+: next.session.events := by
  obtain ⟨ordered, hinsert⟩ := OrderedSessionEvents.insertPending_next hseq hbytes
  rw [RecoveryLoop.publish, hinsert]
  refine ⟨_, rfl, ?_⟩
  rcases OrderedSessionEvents.insertPending_ok hseq hinsert with
    ⟨hmem, -⟩ | ⟨-, hordered⟩
  · exact absurd hmem hdrained
  · have hlookup : ordered.pending.lookup (ordered.lastPublishedSeq + 1) = some event := by
      rw [hordered]
      exact lookup_insert _
    exact @publishReady_events { loop.session with orderedEvents := ordered } event hlookup

/-- An exit that is known and has no event yet is published as the next event. -/
theorem Recovering.inferExit_next (hreads : Reads history response)
    (hexited : response.exited = true) (hloop : Recovering history start response seen loop)
    (hknown : loop.exitKnown = false) {chunk : ProcessOutputChunk}
    (hgap : loop.session.lastPublishedSeq + 1 < chunk.seq) :
    ∃ next : RecoveryLoop, loop.inferExit response chunk = .ok { next with exitKnown := true } ∧
      next.session.ExitAt (loop.session.lastPublishedSeq + 1) := by
  obtain ⟨exitCode, hexitCode, -, -⟩ := hreads.exited hexited
  obtain ⟨next, hpublish, more, hmore⟩ := @RecoveryLoop.publish_next loop
    (.exited _ exitCode (some response.sandboxDenied)) hloop.good.drained rfl (Nat.zero_le _)
  refine ⟨next, ?_, .exited (loop.session.lastPublishedSeq + 1) exitCode
    (some response.sandboxDenied), ?_, rfl⟩
  · rw [RecoveryLoop.inferExit, if_pos ⟨hexited, hknown, hgap⟩, hexitCode]
    simp only [hpublish]
    rfl
  · have hlength := length_events hloop.good.follows hloop.failure
    rw [← hmore, Nat.add_sub_cancel, append_assoc,
      getElem?_append_right (Nat.le_of_eq hlength), hlength, Nat.sub_self]
    rfl

/-- A chunk that leaves no gap is published or passed over. -/
theorem Recovering.publish_chunk (hreads : Reads history response)
    (hloop : Recovering history start response seen loop) {chunk : ProcessOutputChunk}
    (hmem : chunk ∈ response.chunks)
    (hgap : ¬ loop.session.lastPublishedSeq + 1 < chunk.seq) :
    ∃ next, (if loop.session.lastPublishedSeq < chunk.seq then
      loop.publish (.output chunk) else .ok loop) = .ok next := by
  split
  next hnew =>
    have hseq : (output chunk).seq = some (loop.session.lastPublishedSeq + 1) := by
      change some chunk.seq = _
      congr 1
      omega
    obtain ⟨next, hpublish, -⟩ := RecoveryLoop.publish_next
      hloop.good.drained hseq (hreads.chunk_bytes chunk hmem)
    exact ⟨next, hpublish⟩
  · exact ⟨loop, rfl⟩

variable (hreads : Reads history response) (hexited : response.exited = true)
  (hearlier : ∀ earlier < missing, start.Has earlier ∨
    earlier ∈ response.chunks.map ProcessOutputChunk.seq)
  (hmissing : ¬ start.Has missing)
  (hnotChunk : missing ∉ response.chunks.map ProcessOutputChunk.seq)
include hreads hexited hearlier hmissing hnotChunk

/-- The loop takes the first missing event for the exit. -/
theorem Recovering.exitAt_of_missing (hloop : Recovering history start response seen loop)
    (hknown : loop.exitKnown = false) (hchunks : response.chunks = seen ++ rest)
    (hlater : ∃ chunk ∈ rest, missing < chunk.seq) :
    Ensures (fun error => error.session.ExitAt missing)
      (fun next => next.session.ExitAt missing)
      (loop.recoverChunks response rest) := by
  induction rest generalizing seen loop with
  | nil =>
    obtain ⟨chunk, hmem, -⟩ := hlater
    cases hmem
  | cons chunk rest ih =>
    have hmem : chunk ∈ response.chunks := by simp [hchunks]
    obtain ⟨hhas, -⟩ := hloop.unknown hexited hknown
    have hlast : loop.session.lastPublishedSeq < missing := by
      have hnot : ¬ loop.session.Has missing := by
        rw [hhas]
        rintro (hold | hseen)
        · exact hmissing hold
        · refine hnotChunk ?_
          rw [hchunks, map_append]
          exact mem_append_left _ hseen
      exact Nat.lt_of_not_le fun hle => hnot (.inl hle)
    rw [RecoveryLoop.recoverChunks, RecoveryLoop.recoverChunk,
      if_neg (Nat.not_lt.mpr (hreads.chunk_le chunk hmem))]
    by_cases hgap : loop.session.lastPublishedSeq + 1 < chunk.seq
    · -- the next event is the missing one
      obtain ⟨hnext, hnextChunk⟩ := hloop.next_notMem hreads hchunks hexited hknown hgap
      have hsame : loop.session.lastPublishedSeq + 1 = missing := by
        rcases Nat.lt_or_eq_of_le (Nat.succ_le_of_lt hlast) with hless | heq
        · exact absurd (hearlier _ hless) (not_or.mpr ⟨hnext, hnextChunk⟩)
        · exact heq
      obtain ⟨next, hinfer, hexitAt⟩ := hloop.inferExit_next hreads hexited hknown hgap
      rw [hsame] at hexitAt
      have htaken : Ensures (fun error : RecoveryError => error.session.ExitAt missing)
          (fun last : RecoveryLoop => last.session.ExitAt missing)
          (if next.session.lastPublishedSeq < chunk.seq then
            RecoveryLoop.publish { next with exitKnown := true } (.output chunk)
          else .ok { next with exitKnown := true }) := by
        split
        · exact hexitAt.ensures (RecoveryLoop.extends_publish prefix_rfl _)
        · exact hexitAt
      rw [hinfer]
      exact htaken.bind fun last hlast => hlast.ensures
        (RecoveryLoop.extends_recoverChunks response prefix_rfl rest)
    · -- the chunk is one that follows what was published
      have hsecond : ∃ chunk ∈ rest, missing < chunk.seq := by
        obtain ⟨other, hother, hotherSeq⟩ := hlater
        rcases mem_cons.mp hother with rfl | hrest
        · omega
        · exact ⟨other, hrest, hotherSeq⟩
      have htake := hloop.takeChunk hreads hmem
      obtain ⟨next, hnext⟩ := hloop.publish_chunk hreads hmem hgap
      rw [hnext] at htake
      have hinfer : loop.inferExit response chunk = .ok loop := by
        rw [RecoveryLoop.inferExit, if_neg fun hinfer => hgap hinfer.2.2]
      rw [hinfer]
      change Ensures _ _ ((if _ then _ else _) >>= _)
      rw [hnext]
      exact ih htake.1 (htake.2.trans hknown) (by simp [hchunks]) hsecond

end Wrong

section Exact

variable {missing : Nat}

/-- The place of the close event is free or taken by it. -/
theorem Follows.not_closeConflict (hfollows : Follows history session)
    (hreads : Reads history response) : ¬ session.closeConflict response := by
  rintro ⟨hclosed, hconflict⟩
  have htarget := hreads.closed hclosed
  rw [htarget] at hconflict
  rcases hconflict with hpending | ⟨chunk, hmem, hseq⟩
  · cases hevent : session.orderedEvents.pending.lookup history.events.length with
    | none =>
      rw [hevent] at hpending
      cases hpending
    | some event =>
      obtain ⟨-, hplain⟩ := hfollows.pending _ _ hevent
      rw [history.plainAt_length] at hplain
      have hisClosed : event.isClosed = true := by
        rw [← isClosed_plain, ← Option.some.inj hplain]
        rfl
      rw [hevent] at hpending
      simp [hisClosed] at hpending
  · have hchunk := hreads.chunk_at chunk hmem
    rw [hseq, history.plainAt_length] at hchunk
    cases hchunk

/-- An exit that was published in the place of another event is not of the
history. -/
theorem exitAt_of_delivered (hdelivered : Delivered history session.events) (hpos : 0 < missing)
    (hexit : session.ExitAt missing) : missing = history.exitSeq := by
  obtain ⟨count, failure, hcount, hevents⟩ := hdelivered
  obtain ⟨event, hevent, hexited⟩ := hexit
  have hplain : (session.events.map ExecProcessEvent.plain)[missing - 1]? = some event.plain := by
    rw [getElem?_map, hevent]
    rfl
  rw [hevents] at hplain
  have hlength : ((history.events.take count).map ExecProcessEvent.plain).length = count := by
    rw [length_map, length_take, Nat.min_eq_left hcount]
  rcases Nat.lt_or_ge (missing - 1) count with hlt | hge
  · rw [getElem?_append_left (by omega), getElem?_map, getElem?_take_of_lt hlt] at hplain
    rw [← isExited_plain] at hexited
    exact (ProcessHistory.isExited_iff hpos hplain).mp hexited
  · rw [getElem?_append_right (by omega)] at hplain
    have hmem := mem_of_getElem? hplain
    cases failure with
  | none => cases hmem
  | some message =>
    have hfailed := mem_singleton.mp hmem
    rw [← isExited_plain, hfailed] at hexited
    cases hexited

/-- Recovery from a response in which the first gap is not the exit breaks
the order. -/
theorem Follows.gapIsExit_of_delivered (hfollows : Follows history session)
    (hdrained : session.Drained) (hreads : Reads history response)
    (hdelivered : Delivered history (session.handleRecovery response).events) :
    GapIsExit history session response := by
  intro hended htarget hexited hknown missing hearlier hmissing hnotChunk hlater
  have hpos : 0 < missing := Nat.pos_of_ne_zero fun hzero => hmissing (.inl (by omega))
  have hstart := recovering_start hfollows hdrained hended response
  have hloopKnown : (session.recoveryLoop response).exitKnown = false := by
    obtain ⟨hpublished, hpending⟩ := not_or.mp hknown
    change (_ || _) = false
    rw [Bool.or_eq_false_iff]
    exact ⟨Bool.not_eq_true _ ▸ hpublished, Bool.not_eq_true _ ▸ hpending⟩
  have hensures : Ensures (fun error => error.session.ExitAt missing)
      (fun result : SessionState × Bool => result.1.ExitAt missing)
      (session.recoverEvents response) := by
    rw [recoverEvents, hreads.failure]
    simp only [if_neg (not_or.mpr ⟨hended, Nat.not_le.mpr htarget⟩),
      if_neg (hfollows.not_closeConflict hreads)]
    refine (hstart.exitAt_of_missing hreads hexited hearlier hmissing hnotChunk
      hloopKnown rfl hlater).bind fun chunks hchunks => ?_
    refine (hchunks.ensures (RecoveryLoop.extends_recoverClosed response
      prefix_rfl)).bind fun closing hclosing => ?_
    refine (hclosing.ensures (RecoveryLoop.extends_recoverMissing response
      prefix_rfl)).bind fun last hlast => ?_
    exact hlast
  apply exitAt_of_delivered hdelivered hpos
  rw [SessionState.handleRecovery]
  cases hresult : session.recoverEvents response with
  | ok result | error error =>
    rw [hresult] at hensures
    exact hensures

end Exact

section Runs

/-- What reaches a session: notifications of the server, read responses, and
failures of the connection or of the recovery. -/
inductive Action where
  | notify (event : ExecProcessEvent)
  | recover (response : ReadResponse)
  | fail (message : Text)

def perform (session : SessionState) : Action → SessionState
  | .notify event => session.handleNotification event
  | .recover response => session.handleRecovery response
  | .fail message => session.setFailure message

/-- The notifications are of events of the history, in any order and number,
and the responses are of the server, in any order and at any time. -/
def Admitted (history : ProcessHistory) : Action → Prop
  | .notify event => event ∈ history.events
  | .recover response => ServerRead history response
  | .fail _ => True

structure Step (history : ProcessHistory) (first : SessionState)
    (action : Action) (second : SessionState) : Prop where
  admitted : Admitted history action
  performed : second = first.perform action

/-- No response lets the session mistake an evicted output for the exit. -/
def ExitInGap (history : ProcessHistory) (session : SessionState) :
    Action → Prop
  | .recover response => GapIsExit history session response
  | _ => True

variable {first second : SessionState} {action : Action}

theorem step_deterministic (session : SessionState) (action : Action)
    (first second : SessionState) (hfirst : Step history session action first)
    (hsecond : Step history session action second) : first = second :=
  hfirst.performed.trans hsecond.performed.symm

section

variable (hstep : Step history first action second)
  (hfirst : Follows history first ∧ first.Drained)
include hstep hfirst

theorem step_follows (hgap : ExitInGap history first action) :
    Follows history second ∧ second.Drained := by
  obtain ⟨hadmitted, rfl⟩ := hstep
  cases action with
  | notify event => exact hfirst.1.handleNotification hfirst.2 hadmitted
  | recover response => exact hfirst.1.handleRecovery hfirst.2 (ServerRead.reads hadmitted) hgap
  | fail message => exact ⟨hfirst.1.setFailure message, drained_setFailure hfirst.2 message⟩

theorem step_gap (hdelivered : Delivered history second.events) :
    ExitInGap history first action := by
  obtain ⟨hadmitted, rfl⟩ := hstep
  cases action with
  | notify event | fail message => trivial
  | recover response =>
    exact hfirst.1.gapIsExit_of_delivered hfirst.2 (ServerRead.reads hadmitted) hdelivered

end

/-- After a failure nothing is published. -/
theorem step_ended (hstep : Step history first action second)
    (hfailure : first.orderedEvents.failure ≠ none) :
    second.events = first.events ∧ second.orderedEvents.failure ≠ none := by
  obtain ⟨hadmitted, rfl⟩ := hstep
  have hended : first.Ended := .inl hfailure
  cases action with
  | notify event =>
    obtain ⟨index, hindex⟩ := mem_iff_getElem?.mp hadmitted
    have hseq := history.consecutive _ _ hindex
    simp only [perform, SessionState.handleNotification, publishOrderedEvent, hseq, hended]
    exact ⟨rfl, hfailure⟩
  | recover response =>
    have hresponse := (ServerRead.reads hadmitted).failure
    simp only [perform, SessionState.handleRecovery, recoverEvents,
      hresponse, hended, true_or, if_true]
    exact ⟨trivial, hfailure⟩
  | fail message =>
    simp only [perform, SessionState.setFailure, hended, if_true]
    exact ⟨trivial, hfailure⟩

theorem run_ended {actions : List Action} {last : SessionState}
    (hrun : Run (Step history) first actions last)
    (hfailure : first.orderedEvents.failure ≠ none) : last.events = first.events := by
  induction hrun with
  | nil state => rfl
  | cons hstep hrest ih =>
    obtain ⟨hevents, hnext⟩ := step_ended hstep hfailure
    exact (ih hnext).trans hevents

/-- A failure among the published events has stopped the session. -/
theorem Follows.failure_of_mem (hfollows : Follows history session) {message : Text}
    (hmem : .failed message ∈ session.events) : session.orderedEvents.failure ≠ none := by
  intro hfailure
  have hevents := hfollows.events
  rw [hfailure] at hevents
  have hplain : ExecProcessEvent.failed message ∈ session.events.map ExecProcessEvent.plain :=
    mem_map.mpr ⟨_, hmem, rfl⟩
  rw [hevents, Option.map_none, Option.toList_none, append_nil] at hplain
  obtain ⟨event, hevent, heq⟩ := mem_map.mp hplain
  obtain ⟨index, hindex⟩ := mem_iff_getElem?.mp (mem_of_mem_take hevent)
  have hseq := history.consecutive _ _ hindex
  rw [← seq_plain, heq] at hseq
  cases hseq

/-- The published events are a beginning of the history, and if a failure has
ended them, nothing more is published. -/
structure InOrder (history : ProcessHistory) (session : SessionState) :
    Prop where
  delivered : Delivered history session.events
  ended : ∀ message, .failed message ∈ session.events →
    ∀ actions later, Run (Step history) session actions later → later.events = session.events

/-- A session publishes in order at every moment of a run exactly if no response
makes it mistake an evicted output for the exit. -/
theorem process_events_delivered (history : ProcessHistory) (actions : List Action)
    (last : SessionState) (hrun : Run (Step history) {} actions last) :
    (∀ before state, before <+: actions →
        Run (Step history) {} before state → InOrder history state) ↔
      Run (Guarded (Step history) (ExitInGap history)) {} actions last := by
  have hinitial : Follows history {} ∧ Drained {} := ⟨follows_initial history, notMem_empty _⟩
  refine @Run.always_iff_guarded_of_strong _ _ (Step history) _ _ _
    (InOrder history) (ExitInGap history)
    (fun state => Follows history state ∧ state.Drained)
    step_deterministic ?_ ?_ ?_ hrun hinitial
  · rintro state ⟨hfollows, -⟩
    refine ⟨hfollows.delivered, fun message hmem actions later hlater => ?_⟩
    exact run_ended hlater (hfollows.failure_of_mem hmem)
  · intro first action second hstep hfirst hsecond
    exact step_gap hstep hfirst hsecond.delivered
  · intro first action second hstep hfirst hgap
    exact step_follows hstep hfirst hgap

/-- Output and exit are lost on the way and read after the reconnection. -/
private def lostHistory : ProcessHistory where
  events := [.output ⟨1, .stdout, [97]⟩, .exited 2 0 (some false), .closed 3]
  consecutive := by
    rintro (_ | _ | _ | index) event hevent <;> cases hevent <;> rfl
  exit_exists := ⟨.exited 2 0 (some false), by simp, rfl⟩
  exit_unique := by
    rintro (_ | _ | _ | first) (_ | _ | _ | second) event other hevent hother
      hexited hotherExited <;> cases hevent <;> cases hother <;> trivial
  closed_iff := by
    rintro (_ | _ | _ | index) event hevent <;> cases hevent <;> simp [ExecProcessEvent.isClosed]

private def lostResponse : ReadResponse where
  chunks := [⟨1, .stdout, [97]⟩]
  nextSeq := 3
  exited := true
  exitCode := some 0
  closed := false
  failure := none
  sandboxDenied := false

private theorem lostResponse_read : ServerRead lostHistory lostResponse :=
  ⟨0, 2, [⟨1, .stdout, [97]⟩], by decide, suffix_rfl, by decide, rfl, rfl, rfl, rfl, rfl, rfl⟩

private theorem lostResponse_gap : ExitInGap lostHistory {} (.recover lostResponse) := by
  intro _ _ _ _ seq _ hmissing _ hlater
  obtain ⟨chunk, hmem, hseq⟩ := hlater
  obtain rfl := mem_singleton.mp hmem
  exact absurd (.inl (Nat.le_of_lt_succ hseq)) hmissing

theorem process_events_delivered_recovered :
    ∃ last, Run (Step lostHistory) {} [.recover lostResponse] last ∧
      InOrder lostHistory last ∧ last.events =
        [.output ⟨1, .stdout, [97]⟩, .exited 2 0 (some false)] := by
  have hstep : Step lostHistory {} (.recover lostResponse)
      (perform {} (.recover lostResponse)) := ⟨lostResponse_read, rfl⟩
  refine ⟨_, Run.single hstep, ?_, by decide⟩
  exact (process_events_delivered _ _ _ (Run.single hstep)).mpr
    (Run.single ⟨hstep, lostResponse_gap⟩) _ _ prefix_rfl (Run.single hstep)

section

variable (bytes : Bytes)

/-- Two chunks of output, of which the second fills what is retained. -/
private def evictedHistory : ProcessHistory where
  events := [.output ⟨1, .stdout, [97]⟩, .output ⟨2, .stdout, bytes⟩,
    .exited 3 0 (some false), .closed 4]
  consecutive := by
    rintro (_ | _ | _ | _ | index) event hevent <;> cases hevent <;> rfl
  exit_exists := ⟨.exited 3 0 (some false), by simp, rfl⟩
  exit_unique := by
    rintro (_ | _ | _ | _ | first) (_ | _ | _ | _ | second) event other hevent
      hother hexited hotherExited <;> cases hevent <;> cases hother <;> trivial
  closed_iff := by
    rintro (_ | _ | _ | _ | index) event hevent <;> cases hevent <;> simp
      [ExecProcessEvent.isClosed]

private def evictedProcess : ServerProcess where
  process :=
    { output := [⟨2, .stdout, bytes⟩]
      retainedBytes := bytes.length
      nextSeq := 3
      openStreams := 1 }
  log := [.output ⟨1, .stdout, [97]⟩, .output ⟨2, .stdout, bytes⟩]

private def exitedProcess : ServerProcess where
  process := { (evictedProcess bytes).process with
    nextSeq := 4
    exitCode := some 0 }
  log := (evictedProcess bytes).log ++ [.exited 3 0 (some false)]

variable {bytes}

/-- The server drops the first chunk when the second arrives. -/
private theorem evicted_run (hbytes : bytes.length = retainedOutputBytesPerProcess) :
    Run ServerProcess.Step ⟨{ openStreams := 1 }, []⟩
      [.output .stdout [97], .output .stdout bytes, .exit 0 false]
      (exitedProcess bytes) := by
  have hfirst : ServerProcess.Step ⟨{ openStreams := 1 }, []⟩
      (.output .stdout [97])
      ⟨{ output := [⟨1, .stdout, [97]⟩]
         retainedBytes := 1
         nextSeq := 2
         openStreams := 1 }, [.output ⟨1, .stdout, [97]⟩]⟩ := rfl
  have hlast : ServerProcess.Step (evictedProcess bytes) (.exit 0 false)
      (exitedProcess bytes) := rfl
  refine Run.cons hfirst (Run.cons ?_ (Run.single hlast))
  simp [ServerProcess.Step, ServerProcess.perform, RunningProcess.streamOutput,
    RunningProcess.evict, evictedProcess, hbytes, retainedOutputChunksPerProcess]

end

/-- The exit event is published before the output that was evicted. -/
theorem exit_in_place_of_output :
    ¬ ∀ history actions last, Run (Step history) {} actions last → InOrder history last := by
  intro hall
  obtain ⟨bytes, hbytes⟩ : ∃ bytes : Bytes, bytes.length = retainedOutputBytesPerProcess :=
    ⟨List.replicate _ 0, length_replicate⟩
  have hread : ServerRead (evictedHistory bytes)
      ((exitedProcess bytes).process.execRead 0 none) :=
    ((ServerProcess.recorded_initial 1).run (evicted_run hbytes)).serverRead ⟨[.closed 4], rfl⟩ 0
  have hstep : Step (evictedHistory bytes) {} (.recover _)
      (perform {} (.recover _)) := ⟨hread, rfl⟩
  have horder := hall _ _ _ (Run.single hstep)
  have hgap := (follows_initial _).gapIsExit_of_delivered
    (notMem_empty _) hread.reads horder.delivered
  have hknown : ¬ ExitKnown {} ((exitedProcess bytes).process.execRead 0 none) := by
    rintro (hpublished | hpending)
    · cases hpublished
    · cases hpending
  have hmissing : ¬ Has {} 1 := by
    rintro (hpublished | hpending)
    · exact absurd hpublished (Nat.not_succ_le_zero 0)
    · exact notMem_empty _ hpending
  have hchunks : 1 ∉ [2] := by decide
  have hexitSeq := hgap (by decide) (Nat.zero_lt_succ _) rfl hknown 1
    (fun earlier hearlier => .inl (.inl (Nat.le_of_lt_succ hearlier)))
    hmissing hchunks ⟨_, mem_cons_self, Nat.lt_succ_self 1⟩
  cases hexitSeq

end Runs

end SessionState

end Hexa.ExecServer
