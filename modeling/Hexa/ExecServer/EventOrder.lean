/-
What a client session has published is a beginning of the history of the
process, and what it holds back fits the rest of it.
-/
import Hexa.ExecServer.ProcessEvents

namespace Hexa.ExecServer

open List KeyedTable ExecProcessEvent AList Option

namespace ExecProcessEvent

/-- The event without what it says about the sandbox. -/
def plain : ExecProcessEvent → ExecProcessEvent
  | exited seq exitCode _ => exited seq exitCode none
  | event => event

variable (event : ExecProcessEvent)

@[simp] theorem isExited_plain : event.plain.isExited = event.isExited := by
  cases event <;> rfl

@[simp] theorem isClosed_plain : event.plain.isClosed = event.isClosed := by
  cases event <;> rfl

@[simp] theorem seq_plain : event.plain.seq = event.seq := by
  cases event <;> rfl

end ExecProcessEvent

/-- The events of a process, numbered from 1, with one exit and the close at
the end. -/
structure ProcessHistory where
  events : List ExecProcessEvent
  consecutive : ∀ (index : Nat) (event : ExecProcessEvent),
    events[index]? = some event → event.seq = some (index + 1)
  exit_exists : ∃ event ∈ events, event.isExited = true
  exit_unique : ∀ (first second : Nat) (event other : ExecProcessEvent),
    events[first]? = some event → events[second]? = some other →
    event.isExited = true → other.isExited = true → first = second
  closed_iff : ∀ (index : Nat) (event : ExecProcessEvent),
    events[index]? = some event →
    (event.isClosed = true ↔ index + 1 = events.length)

namespace ProcessHistory

variable (history : ProcessHistory)

/-- The event with a sequence number, what it says of the sandbox aside. -/
def plainAt (seq : Nat) : Option ExecProcessEvent :=
  (history.events[seq - 1]?).map ExecProcessEvent.plain

def exitSeq : Nat := history.events.findIdx ExecProcessEvent.isExited + 1

theorem exit_lt : history.exitSeq - 1 < history.events.length := by
  obtain ⟨event, hmem, hexit⟩ := history.exit_exists
  have hlt := findIdx_lt_length_of_exists ⟨event, hmem, hexit⟩
  exact hlt

theorem exit_event :
    ∃ event, history.events[history.exitSeq - 1]? = some event ∧ event.isExited = true :=
  ⟨_, getElem?_eq_getElem history.exit_lt, findIdx_getElem⟩

variable {history} {seq : Nat} {event : ExecProcessEvent}

theorem le_length_of_plainAt (hevent : history.plainAt seq = some event) :
    seq ≤ history.events.length := by
  obtain ⟨original, horiginal, -⟩ := map_eq_some_iff.mp hevent
  have hlt := (List.getElem?_eq_some_iff.mp horiginal).1
  omega

theorem isExited_iff (hpos : 0 < seq) (hevent : history.plainAt seq = some event) :
    event.isExited = true ↔ seq = history.exitSeq := by
  obtain ⟨original, horiginal, rfl⟩ := map_eq_some_iff.mp hevent
  obtain ⟨exit, hexit, hexited⟩ := history.exit_event
  have hexitPos : 0 < history.exitSeq := Nat.succ_pos _
  rw [isExited_plain]
  constructor
  · intro hisExited
    have hindex := history.exit_unique _ _ _ _ horiginal hexit hisExited hexited
    omega
  · rintro rfl
    rw [horiginal] at hexit
    obtain rfl := some.inj hexit
    exact hexited

theorem isClosed_iff (hpos : 0 < seq) (hevent : history.plainAt seq = some event) :
    event.isClosed = true ↔ seq = history.events.length := by
  obtain ⟨original, horiginal, rfl⟩ := map_eq_some_iff.mp hevent
  rw [isClosed_plain, history.closed_iff _ _ horiginal]
  omega

/-- One more event of the history. -/
theorem take_succ_map (hevent : history.plainAt (seq + 1) = some event) :
    (history.events.take (seq + 1)).map plain =
      (history.events.take seq).map plain ++ [event] := by
  obtain ⟨original, horiginal, rfl⟩ := map_eq_some_iff.mp hevent
  rw [Nat.add_sub_cancel] at horiginal
  rw [take_add_one, horiginal, map_append]
  rfl

end ProcessHistory

namespace OrderedSessionEvents

variable {ordered second : OrderedSessionEvents} {event : ExecProcessEvent} {seq : Nat}

/-- An event is put into the buffer, unless there is one with its number. -/
theorem insertPending_ok (hseq : event.seq = some seq)
    (hinsert : ordered.insertPending event = .ok second) :
    (seq ∈ ordered.pending ∧ second = ordered) ∨
      (seq ∉ ordered.pending ∧ second = { ordered with
        pending := ordered.pending.insert seq event
        pendingBytes := ordered.pendingBytes + pendingProcessEventBytes event }) := by
  rw [insertPending, hseq] at hinsert
  simp only at hinsert
  split at hinsert
  next hmem =>
    obtain rfl := Except.ok.inj hinsert
    exact .inl ⟨hmem, rfl⟩
  next hmem =>
    split at hinsert
    · cases hinsert
    · split at hinsert
      · cases hinsert
      · split at hinsert
        · cases hinsert
        · obtain rfl := Except.ok.inj hinsert
          exact .inr ⟨hmem, rfl⟩

/-- The next expected event always fits, if it is not too large itself. -/
theorem insertPending_next (hseq : event.seq = some (ordered.lastPublishedSeq + 1))
    (hbytes : pendingProcessEventBytes event ≤ maxPendingProcessEventBytes) :
    ∃ second, ordered.insertPending event = .ok second := by
  rw [insertPending, hseq]
  simp only [not_true_eq_false]
  split
  · exact ⟨_, rfl⟩
  · rw [if_neg (Nat.not_lt.mpr hbytes)]
    exact ⟨_, rfl⟩

end OrderedSessionEvents

namespace SessionState

/-- The session has published the event, or holds it back. -/
def Has (session : SessionState) (seq : Nat) : Prop :=
  seq ≤ session.lastPublishedSeq ∨ seq ∈ session.orderedEvents.pending

/-- The session follows the history, and what it holds back is of it. -/
structure Follows (history : ProcessHistory) (session : SessionState) :
    Prop where
  last_le : session.lastPublishedSeq ≤ history.events.length
  events : session.events.map ExecProcessEvent.plain =
    (history.events.take session.lastPublishedSeq).map
      ExecProcessEvent.plain ++
      (session.orderedEvents.failure.map ExecProcessEvent.failed).toList
  pending : ∀ seq event, session.orderedEvents.pending.lookup seq = some event →
      session.lastPublishedSeq < seq ∧ history.plainAt seq = some event.plain
  exit_iff : session.orderedEvents.exitPublished = true ↔
    history.exitSeq ≤ session.lastPublishedSeq
  closed_iff : session.orderedEvents.closedPublished = true ↔
    session.lastPublishedSeq = history.events.length
  failed : session.orderedEvents.failure ≠ none → session.orderedEvents.pending = ∅

/-- The next event is not there yet. -/
def Drained (session : SessionState) : Prop :=
  session.lastPublishedSeq + 1 ∉ session.orderedEvents.pending

variable {history : ProcessHistory} {session : SessionState} {event : ExecProcessEvent}
  {seq : Nat}

open ProcessHistory

theorem follows_initial (history : ProcessHistory) : Follows history {} where
  last_le := Nat.zero_le _
  events := rfl
  pending seq event hpending := by cases hpending
  exit_iff := by simp [exitSeq, lastPublishedSeq]
  closed_iff := by
    have hlt := history.exit_lt
    simp only [lastPublishedSeq, Bool.false_eq_true, false_iff]
    omega
  failed hfailure := absurd rfl hfailure

section Publish

variable (hnext : session.orderedEvents.pending.lookup
  (session.orderedEvents.lastPublishedSeq + 1) = some event)
include hnext in
theorem has_publishNext (seq : Nat) : (session.publishNext event).Has seq ↔ session.Has seq := by
  have hmem := mem_of_lookup hnext
  change seq ≤ session.orderedEvents.lastPublishedSeq + 1 ∨
    seq ∈ session.orderedEvents.pending.erase _ ↔
    seq ≤ session.orderedEvents.lastPublishedSeq ∨ _
  rw [mem_erase]
  constructor
  · rintro (hle | ⟨-, hpending⟩)
    · rcases Nat.lt_or_eq_of_le hle with hlt | rfl
      · exact .inl (Nat.le_of_lt_succ hlt)
      · exact .inr hmem
    · exact .inr hpending
  · rintro (hle | hpending)
    · exact .inl (Nat.le_succ_of_le hle)
    · by_cases hseq : seq = session.orderedEvents.lastPublishedSeq + 1
      · exact .inl (Nat.le_of_eq hseq)
      · exact .inr ⟨hseq, hpending⟩

/-- What a round of publishing leads to. -/
structure Published (history : ProcessHistory) (session second : SessionState) :
    Prop where
  follows : Follows history second
  failure : second.orderedEvents.failure = none
  has_iff : ∀ seq, second.Has seq ↔ session.Has seq
  events : session.events <+: second.events
  last_le : session.lastPublishedSeq ≤ second.lastPublishedSeq

theorem publishLoop_drained (rounds : Nat) (closed : Bool)
    (hrounds : session.orderedEvents.pending.keys.length ≤ rounds) :
    (publishLoop rounds session closed).1.Drained := by
  induction rounds generalizing session closed with
  | zero =>
    have hkeys := length_eq_zero_iff.mp (Nat.le_zero.mp hrounds)
    intro hmem
    have hkey := AList.mem_keys.mp hmem
    change _ ∈ session.orderedEvents.pending.keys at hkey
    rw [hkeys] at hkey
    cases hkey
  | succ rounds ih =>
    rw [publishLoop]
    split
    next hnext => exact lookup_eq_none.mp hnext
    next event hnext =>
      apply ih
      have hlength := length_keys_erase (mem_of_lookup hnext)
      change (session.orderedEvents.pending.erase _).keys.length ≤ rounds
      omega

theorem prefix_publishLoop {base : List ExecProcessEvent} (hbase : base <+: session.events)
    (rounds : Nat) (closed : Bool) : base <+: (publishLoop rounds session closed).1.events := by
  induction rounds generalizing session closed with
  | zero => exact hbase
  | succ rounds ih =>
    rw [publishLoop]
    split
    · exact hbase
    · apply ih
      exact hbase.trans (prefix_append _ _)

include hnext in
/-- The first event to be published is the next one. -/
theorem publishReady_events : session.events ++ [event] <+: session.publishReady.1.events := by
  have hlength := length_keys_erase (mem_of_lookup hnext)
  have hpublished : session.events ++ [event] <+: (session.publishNext event).events := prefix_rfl
  rw [publishReady, ← hlength, publishLoop, hnext]
  exact prefix_publishLoop hpublished _ _

theorem publishReady_drained : session.publishReady.1.Drained :=
  publishLoop_drained _ _ (Nat.le_refl _)

variable (hfollows : Follows history session) (hfailure : session.orderedEvents.failure = none)
include hfollows hfailure

theorem length_events : session.events.length = session.lastPublishedSeq := by
  have hlength := congrArg List.length hfollows.events
  have hle := hfollows.last_le
  rw [hfailure] at hlength
  simp only [length_map, length_append, length_take, map_none, toList_none, length_nil] at hlength
  omega

theorem Follows.publishNext (hnext : session.orderedEvents.pending.lookup
      (session.orderedEvents.lastPublishedSeq + 1) = some event) :
    Follows history (session.publishNext event) := by
  obtain ⟨-, hevent⟩ := hfollows.pending _ _ hnext
  have hpos : 0 < session.orderedEvents.lastPublishedSeq + 1 := Nat.succ_pos _
  have hexited := isExited_iff hpos hevent
  have hclosed := isClosed_iff hpos hevent
  rw [isExited_plain] at hexited
  rw [isClosed_plain] at hclosed
  have hle := le_length_of_plainAt hevent
  refine ⟨hle, ?_, fun seq other hother => ?_, ?_, ?_, fun hfailed => absurd hfailure hfailed⟩
  · have hevents := hfollows.events
    rw [hfailure] at hevents
    change (session.events ++ [event]).map _ = (history.events.take
      (session.orderedEvents.lastPublishedSeq + 1)).map _ ++
      (session.orderedEvents.failure.map _).toList
    rw [hfailure, take_succ_map hevent, map_append, hevents]
    simp [lastPublishedSeq]
  · obtain ⟨hne, hold⟩ := lookup_of_lookup_erase hother
    obtain ⟨hlt, hplain⟩ := hfollows.pending _ _ hold
    refine ⟨?_, hplain⟩
    rw [lastPublishedSeq] at hlt
    change session.orderedEvents.lastPublishedSeq + 1 < seq
    omega
  · have hexit := hfollows.exit_iff
    rw [lastPublishedSeq] at hexit
    change (session.orderedEvents.exitPublished || event.isExited) = true ↔
      history.exitSeq ≤ session.orderedEvents.lastPublishedSeq + 1
    rw [Bool.or_eq_true, hexit, hexited]
    omega
  · have hclose := hfollows.closed_iff
    rw [lastPublishedSeq] at hclose
    change (session.orderedEvents.closedPublished || event.isClosed) = true ↔
      session.orderedEvents.lastPublishedSeq + 1 = history.events.length
    rw [Bool.or_eq_true, hclose, hclosed]
    omega

theorem publishLoop_published (rounds : Nat) (closed : Bool) :
    Published history session (publishLoop rounds session closed).1 := by
  induction rounds generalizing session closed with
  | zero => exact ⟨hfollows, hfailure, fun _ => Iff.rfl, prefix_rfl, Nat.le_refl _⟩
  | succ rounds ih =>
    rw [publishLoop]
    split
    · exact ⟨hfollows, hfailure, fun _ => Iff.rfl, prefix_rfl, Nat.le_refl _⟩
    next event hnext =>
      have hrest := ih (hfollows.publishNext hfailure hnext) hfailure (closed || event.isClosed)
      refine ⟨hrest.follows, hrest.failure, fun seq => ?_, ?_, ?_⟩
      · rw [hrest.has_iff, has_publishNext hnext]
      · exact (prefix_append _ _).trans hrest.events
      · exact (Nat.le_succ _).trans hrest.last_le

theorem publishReady_published : Published history session session.publishReady.1 :=
  publishLoop_published hfollows hfailure _ _

end Publish

section

variable {second : OrderedSessionEvents} (hfollows : Follows history session)
  (hfailure : session.orderedEvents.failure = none) (hseq : event.seq = some seq)
  (hlast : session.lastPublishedSeq < seq) (hevent : history.plainAt seq = some event.plain)
  (hinsert : session.orderedEvents.insertPending event = .ok second)
include hfollows hfailure hseq hlast hevent hinsert

/-- The buffer after an event of the history was put into it. -/
theorem Follows.insertPending :
    Follows history { session with orderedEvents := second } ∧
      second.failure = none ∧
      second.lastPublishedSeq = session.lastPublishedSeq ∧
      (∀ other, ({ session with orderedEvents := second } :
        SessionState).Has other ↔ session.Has other ∨ other = seq) := by
  rcases OrderedSessionEvents.insertPending_ok hseq hinsert with
    ⟨hmem, rfl⟩ | ⟨hmem, rfl⟩
  · refine ⟨hfollows, hfailure, rfl, fun other => ⟨.inl, ?_⟩⟩
    rintro (hhas | rfl)
    · exact hhas
    · exact .inr hmem
  · refine ⟨⟨hfollows.last_le, hfollows.events, fun other found hfound => ?_,
      hfollows.exit_iff, hfollows.closed_iff,
      fun hfailed => absurd hfailure hfailed⟩, hfailure, rfl, fun other => ?_⟩
    · by_cases hother : other = seq
      · subst hother
        rw [lookup_insert] at hfound
        obtain rfl := some.inj hfound
        exact ⟨hlast, hevent⟩
      · rw [lookup_insert_ne hother] at hfound
        exact hfollows.pending other found hfound
    · change _ ∨ other ∈ insert seq event _ ↔ _
      rw [mem_insert, Has]
      tauto

/-- What the session knows after an event was put in and what is ready was
published. -/
theorem Follows.insert_publish :
    Published history { session with orderedEvents := second }
      ({ session with orderedEvents := second } : SessionState).publishReady.1 :=
  publishReady_published
    (hfollows.insertPending hfailure hseq hlast hevent hinsert).1
    (hfollows.insertPending hfailure hseq hlast hevent hinsert).2.1

end

theorem Follows.setFailure (hfollows : Follows history session) (message : Text) :
    Follows history (session.setFailure message) := by
  rw [SessionState.setFailure]
  split
  · exact hfollows
  next hended =>
    have hfailure : session.orderedEvents.failure = none := by
      by_contra hfailure
      exact hended (.inl hfailure)
    refine ⟨hfollows.last_le, ?_, nofun, hfollows.exit_iff, hfollows.closed_iff, fun _ => rfl⟩
    have hevents := hfollows.events
    rw [hfailure] at hevents
    rw [map_append, hevents]
    simp [lastPublishedSeq, plain]

theorem drained_setFailure (hdrained : session.Drained) (message : Text) :
    (session.setFailure message).Drained := by
  rw [SessionState.setFailure]
  split
  · exact hdrained
  · exact notMem_empty _

theorem Follows.noteChange (hfollows : Follows history session) (seq : Nat) :
    Follows history (session.noteChange seq) :=
  ⟨hfollows.last_le, hfollows.events, hfollows.pending, hfollows.exit_iff,
    hfollows.closed_iff, hfollows.failed⟩

/-- A notification of an event of the history, at any time. -/
theorem Follows.handleNotification (hfollows : Follows history session)
    (hdrained : session.Drained) (hmem : event ∈ history.events) :
    Follows history (session.handleNotification event) ∧
      (session.handleNotification event).Drained := by
  obtain ⟨index, hindex⟩ := mem_iff_getElem?.mp hmem
  have hseq := history.consecutive _ _ hindex
  have hevent : history.plainAt (index + 1) = some event.plain := by
    rw [plainAt, Nat.add_sub_cancel, hindex]
    rfl
  rw [SessionState.handleNotification, publishOrderedEvent, hseq]
  by_cases hskip : session.Ended ∨ index + 1 ≤ session.lastPublishedSeq
  · simp only [hskip]
    exact ⟨hfollows.noteChange _, hdrained⟩
  · obtain ⟨hended, hlast⟩ := not_or.mp hskip
    have hfailure : session.orderedEvents.failure = none := by
      by_contra hfailure
      exact hended (.inl hfailure)
    simp only [hskip]
    cases hinsert : session.orderedEvents.insertPending event with
  | error message => exact ⟨hfollows.setFailure message, drained_setFailure hdrained message⟩
  | ok ordered =>
    have hpublished := hfollows.insert_publish hfailure hseq
      (Nat.lt_of_not_le hlast) hevent hinsert
    exact ⟨hpublished.follows.noteChange _, publishReady_drained⟩

end SessionState

end Hexa.ExecServer
