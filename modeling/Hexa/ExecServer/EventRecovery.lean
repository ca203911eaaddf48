/-
Recovery from a read response: where the exit event was, and when the place
that is taken for it is the right one.
-/
import Hexa.Lib.Outcomes
import Hexa.ExecServer.EventOrder

namespace Hexa.ExecServer

open List ExecProcessEvent OrderedSessionEvents AList

/-- What a read response says of the history. -/
structure Reads (history : ProcessHistory) (response : ReadResponse) :
    Prop where
  chunk_at : ∀ chunk ∈ response.chunks, history.plainAt chunk.seq = some (.output chunk)
  chunk_pos : ∀ chunk ∈ response.chunks, 0 < chunk.seq
  chunk_le : ∀ chunk ∈ response.chunks, chunk.seq ≤ response.nextSeq - 1
  chunk_bytes : ∀ chunk ∈ response.chunks, chunk.chunk.length ≤ maxPendingProcessEventBytes
  sorted : response.chunks.Pairwise fun first second => first.seq < second.seq
  exited : response.exited = true → ∃ exitCode, response.exitCode = some exitCode ∧
      history.plainAt history.exitSeq = some (.exited history.exitSeq exitCode none) ∧
      history.exitSeq ≤ response.nextSeq - 1
  closed : response.closed = true → response.nextSeq - 1 = history.events.length
  failure : response.failure = none

/-- The close event is the last one. -/
theorem ProcessHistory.plainAt_length (history : ProcessHistory) :
    history.plainAt history.events.length = some (.closed history.events.length) := by
  have hlt := history.exit_lt
  have hlast : history.events.length - 1 < history.events.length := by omega
  have hget := getElem?_eq_getElem hlast
  have hclosed := (history.closed_iff _ _ hget).mpr (by omega)
  have hseq := history.consecutive _ _ hget
  rw [ProcessHistory.plainAt, hget]
  cases hevent : history.events[history.events.length - 1] with
  | closed seq =>
    rw [hevent] at hseq
    have hseq' : seq = history.events.length - 1 + 1 := Option.some.inj hseq
    rw [hseq', Nat.sub_add_cancel (by omega)]
    rfl
  | output chunk | exited seq exitCode denied | failed message =>
    simp [hevent, isClosed] at hclosed

theorem ProcessHistory.exitSeq_lt_length (history : ProcessHistory) :
    history.exitSeq < history.events.length := by
  have hlt := history.exit_lt
  have hpos : 0 < history.exitSeq := Nat.succ_pos _
  rcases Nat.lt_or_eq_of_le (show history.exitSeq ≤ history.events.length by
    omega) with hless | heq
  · exact hless
  · have hlast := history.plainAt_length
    rw [← heq] at hlast
    have hexited := (ProcessHistory.isExited_iff hpos hlast).mpr rfl
    cases hexited

namespace OrderedSessionEvents

variable {ordered : OrderedSessionEvents} {first last seq : Nat} {event : ExecProcessEvent}

theorem mem_range_iff :
    (seq, event) ∈ ordered.range first last ↔
      first ≤ seq ∧ seq ≤ last ∧ ordered.pending.lookup seq = some event := by
  simp only [range, mem_filterMap, mem_range'_1, Option.map_eq_some_iff, Prod.mk.injEq]
  constructor
  · rintro ⟨other, ⟨hfirst, hlast⟩, found, hfound, rfl, rfl⟩
    exact ⟨hfirst, by omega, hfound⟩
  · rintro ⟨hfirst, hlast, hfound⟩
    exact ⟨seq, ⟨hfirst, by omega⟩, event, hfound, rfl, rfl⟩

theorem pendingExit_some {target : Nat} (hexit : ordered.pendingExit target = some (seq, event)) :
    ordered.pending.lookup seq = some event ∧ event.isExited = true := by
  have hmem := mem_of_find?_eq_some hexit
  have hexited := @List.find?_some _ _ _ _ hexit
  exact ⟨(mem_range_iff.mp hmem).2.2, hexited⟩

theorem mem_notePendingExit (ordered : OrderedSessionEvents) (target : Nat) (denied : Bool)
    (seq : Nat) :
    seq ∈ (ordered.notePendingExit target denied).pending ↔ seq ∈ ordered.pending := by
  rw [notePendingExit]
  cases hexit : ordered.pendingExit target with
  | none => rfl
  | some entry =>
    have hmem := KeyedTable.mem_of_lookup (pendingExit_some hexit).1
    rw [mem_insert]
    constructor
    · rintro (rfl | hseq)
      · exact hmem
      · exact hseq
    · exact .inr

section Missing

variable (ordered)

/-- The pending events with the given numbers. -/
def pendingOf (seqs : List Nat) : List (Nat × ExecProcessEvent) :=
  seqs.filterMap fun seq => (ordered.pending.lookup seq).map fun event => (seq, event)

/-- Every number is pending or missing. -/
theorem length_pendingOf_add (seqs : List Nat) :
    (ordered.pendingOf seqs).length +
      (seqs.filter fun seq => seq ∉ ordered.pending).length = seqs.length := by
  induction seqs with
  | nil => rfl
  | cons seq seqs ih =>
    rw [pendingOf] at ih ⊢
    cases hseq : ordered.pending.lookup seq with
    | none =>
      have hmem := lookup_eq_none.mp hseq
      simp only [filterMap_cons, hseq, Option.map_none, hmem, not_false_eq_true,
        decide_true, filter_cons_of_pos, length_cons]
      omega
    | some event =>
      have hmem := KeyedTable.mem_of_lookup hseq
      simp only [filterMap_cons, hseq, Option.map_some, hmem, not_true_eq_false, decide_false,
        Bool.false_eq_true, not_false_eq_true, filter_cons_of_neg, length_cons]
      omega

theorem firstMissingFrom_of_notMem {seqs : List Nat} {expected : Nat} (hmem : expected ∉ seqs) :
    firstMissingFrom seqs expected = expected := by
  cases seqs with
  | nil => rfl
  | cons seq seqs =>
    rw [firstMissingFrom, if_pos]
    rintro rfl
    exact hmem mem_cons_self

/-- The number that is found first: all before it are pending, and it is
missing itself, unless nothing is. -/
theorem firstMissingFrom_spec (first count : Nat) :
    let found := firstMissingFrom ((ordered.pendingOf (range' first count)).map Prod.fst) first
    first ≤ found ∧
      (∀ seq, first ≤ seq → seq < found → seq ∈ ordered.pending) ∧
      (found < first + count → found ∉ ordered.pending) := by
  induction count generalizing first with
  | zero =>
    refine ⟨Nat.le_refl _, fun seq hfirst hlast => ?_, fun hlt => ?_⟩
    · exact absurd (Nat.lt_of_le_of_lt hfirst hlast) (Nat.lt_irrefl _)
    · exact absurd hlt (Nat.lt_irrefl _)
  | succ count ih =>
    rw [range'_succ, pendingOf, filterMap_cons]
    cases hseq : ordered.pending.lookup first with
    | none =>
      have hnot : first ∉ (ordered.pendingOf (range' (first + 1) count)).map Prod.fst := by
        intro hmem
        obtain ⟨entry, hentry, rfl⟩ := mem_map.mp hmem
        obtain ⟨seq, hrange, hfound⟩ := mem_filterMap.mp hentry
        obtain ⟨event, -, rfl⟩ := Option.map_eq_some_iff.mp hfound
        have hle := (mem_range'_1.mp hrange).1
        exact absurd hle (Nat.not_succ_le_self _)
      simp only [Option.map_none]
      rw [← pendingOf, firstMissingFrom_of_notMem hnot]
      refine ⟨Nat.le_refl _, fun seq hfirst hlast => ?_, fun _ => ?_⟩
      · exact absurd (Nat.lt_of_le_of_lt hfirst hlast) (Nat.lt_irrefl _)
      · exact lookup_eq_none.mp hseq
    | some event =>
      obtain ⟨hle, hall, hmissing⟩ := ih (first + 1)
      simp only [Option.map_some, map_cons]
      rw [← pendingOf, firstMissingFrom, if_neg (not_not.mpr rfl)]
      refine ⟨by omega, fun seq hfirst hlast => ?_, fun hlt => ?_⟩
      · rcases Nat.eq_or_lt_of_le hfirst with rfl | hlater
        · exact KeyedTable.mem_of_lookup hseq
        · exact hall seq hlater hlast
      · exact hmissing (by omega)

/-- Where exactly one event is missing, it is the one that is found. -/
theorem firstMissingSeq_eq {target missing : Nat} (hcount : target - ordered.lastPublishedSeq -
      (ordered.range (ordered.lastPublishedSeq + 1) target).length = 1)
    (hlast : ordered.lastPublishedSeq < missing) (htarget : missing ≤ target)
    (hmissing : missing ∉ ordered.pending) : ordered.firstMissingSeq target = missing := by
  have hcountEq : target + 1 - (ordered.lastPublishedSeq + 1) =
      target - ordered.lastPublishedSeq := by omega
  have hlength := ordered.length_pendingOf_add
    (range' (ordered.lastPublishedSeq + 1) (target - ordered.lastPublishedSeq))
  obtain ⟨hle, hall, hfound⟩ := ordered.firstMissingFrom_spec
    (ordered.lastPublishedSeq + 1) (target - ordered.lastPublishedSeq)
  rw [range, hcountEq, ← pendingOf] at hcount
  rw [firstMissingSeq, range, hcountEq, ← pendingOf]
  generalize firstMissingFrom _ _ = found at hle hall hfound ⊢
  have hfoundLe : found ≤ missing := by
    by_contra hlater
    exact hmissing (hall missing hlast (Nat.lt_of_not_le hlater))
  have hfoundMissing := hfound (by omega)
  rw [length_range'] at hlength
  obtain ⟨only, honly⟩ := length_eq_one_iff.mp
    (show ((range' (ordered.lastPublishedSeq + 1)
      (target - ordered.lastPublishedSeq)).filter
      fun seq => seq ∉ ordered.pending).length = 1 by omega)
  have hmember (seq : Nat) (hfirst : ordered.lastPublishedSeq + 1 ≤ seq)
      (hend : seq ≤ target) (hnot : seq ∉ ordered.pending) : seq = only := by
    have hmem : seq ∈ (range' (ordered.lastPublishedSeq + 1)
        (target - ordered.lastPublishedSeq)).filter
        fun seq => seq ∉ ordered.pending := by
      rw [mem_filter, mem_range'_1]
      exact ⟨⟨hfirst, by omega⟩, decide_eq_true hnot⟩
    rw [honly] at hmem
    exact mem_singleton.mp hmem
  rw [hmember found hle (hfoundLe.trans htarget) hfoundMissing,
    hmember missing hlast htarget hmissing]

end Missing

end OrderedSessionEvents

namespace SessionState

variable {history : ProcessHistory} {start session : SessionState} {response : ReadResponse}

/-- The exit event is published or held back, as `recover_events` sees it. -/
def ExitKnown (session : SessionState) (response : ReadResponse) : Prop :=
  session.orderedEvents.exitPublished = true ∨
    (session.orderedEvents.pendingExit (response.nextSeq - 1)).isSome = true

/-- The first event that is neither known nor in the response is the exit, if
the exit has happened and is not known, and a later chunk is in the response. -/
def GapIsExit (history : ProcessHistory) (session : SessionState) (response : ReadResponse) :
    Prop :=
  ¬ session.Ended → session.lastPublishedSeq < response.nextSeq - 1 →
  response.exited = true → ¬ session.ExitKnown response →
  ∀ seq, (∀ earlier < seq, session.Has earlier ∨
      earlier ∈ response.chunks.map ProcessOutputChunk.seq) →
    ¬ session.Has seq →
    seq ∉ response.chunks.map ProcessOutputChunk.seq →
    (∃ chunk ∈ response.chunks, seq < chunk.seq) →
    seq = history.exitSeq

section

theorem Follows.notePendingExit (hfollows : Follows history session) (target : Nat)
    (denied : Bool) :
    Follows history { session with
      orderedEvents := session.orderedEvents.notePendingExit target denied } := by
  rw [OrderedSessionEvents.notePendingExit]
  cases hexit : session.orderedEvents.pendingExit target with
  | none => exact hfollows
  | some entry =>
    obtain ⟨seq, event⟩ := entry
    obtain ⟨hpending, -⟩ := pendingExit_some hexit
    refine ⟨hfollows.last_le, hfollows.events, fun other found hfound => ?_,
      hfollows.exit_iff, hfollows.closed_iff, fun hfailed => ?_⟩
    · by_cases hother : other = seq
      · subst hother
        rw [lookup_insert] at hfound
        obtain rfl := Option.some.inj hfound
        rw [show (event.noteDenied denied).plain = event.plain by
          cases event <;> rfl]
        exact hfollows.pending _ _ hpending
      · rw [lookup_insert_ne hother] at hfound
        exact hfollows.pending other found hfound
    · have hempty := hfollows.failed hfailed
      rw [hempty] at hpending
      cases hpending

/-- An exit event that is not known is neither published nor held back. -/
theorem Follows.not_has_exit (hfollows : Follows history session)
    (hreads : Reads history response) (hexited : response.exited = true)
    (hknown : ¬ session.ExitKnown response) : ¬ session.Has history.exitSeq := by
  obtain ⟨exitCode, -, hexit, htarget⟩ := hreads.exited hexited
  rintro (hpublished | hpending)
  · exact hknown (.inl (hfollows.exit_iff.mpr hpublished))
  · obtain ⟨event, hevent⟩ := KeyedTable.exists_lookup hpending
    obtain ⟨-, hplain⟩ := hfollows.pending _ _ hevent
    rw [hexit] at hplain
    have hisExited : event.isExited = true := by
      rw [← isExited_plain, ← Option.some.inj hplain]
      rfl
    refine hknown (.inr ?_)
    rw [pendingExit, find?_isSome]
    exact ⟨(_, event), mem_range_iff.mpr ⟨Nat.zero_le _, htarget, hevent⟩, hisExited⟩

end

section Loop

/-- The session keeps to the history and is ready for the next event. -/
structure Good (history : ProcessHistory) (start session : SessionState) :
    Prop where
  follows : Follows history session
  drained : session.Drained
  events : start.events <+: session.events

/-- What the loop knows after the chunks in `seen`.  As long as the exit is not
known, the session has nothing but what it had and these chunks. -/
structure Recovering (history : ProcessHistory) (start : SessionState)
    (response : ReadResponse) (seen : List ProcessOutputChunk) (loop : RecoveryLoop) : Prop where
  good : Good history start loop.session
  failure : loop.session.orderedEvents.failure = none
  unknown : response.exited = true → loop.exitKnown = false →
    (∀ seq, loop.session.Has seq ↔ start.Has seq ∨ seq ∈ seen.map ProcessOutputChunk.seq) ∧
    ¬ start.ExitKnown response

variable {seen rest : List ProcessOutputChunk} {loop : RecoveryLoop} {event : ExecProcessEvent}
  {seq : Nat} {chunk : ProcessOutputChunk}

theorem recovering_start (hfollows : Follows history start) (hdrained : start.Drained)
    (hended : ¬ start.Ended) (response : ReadResponse) :
    Recovering history start response [] (start.recoveryLoop response) := by
  have hfailure : start.orderedEvents.failure = none := by
    by_contra hfailure
    exact hended (.inl hfailure)
  have hsame (seq : Nat) := start.orderedEvents.mem_notePendingExit
    (response.nextSeq - 1) response.sandboxDenied seq
  have hkept : (start.orderedEvents.notePendingExit (response.nextSeq - 1)
      response.sandboxDenied).lastPublishedSeq = start.orderedEvents.lastPublishedSeq ∧
      (start.orderedEvents.notePendingExit (response.nextSeq - 1)
        response.sandboxDenied).failure = start.orderedEvents.failure := by
    rw [OrderedSessionEvents.notePendingExit]
    split <;> exact ⟨rfl, rfl⟩
  refine ⟨⟨hfollows.notePendingExit _ _, ?_, prefix_rfl⟩,
    hkept.2.trans hfailure, fun _ hknown => ⟨fun seq => ?_, ?_⟩⟩
  · intro hmem
    change (start.orderedEvents.notePendingExit _ _).lastPublishedSeq + 1 ∈ _ at hmem
    rw [hkept.1] at hmem
    exact hdrained ((hsame _).mp hmem)
  · change seq ≤ (start.orderedEvents.notePendingExit _ _).lastPublishedSeq ∨
      seq ∈ (start.orderedEvents.notePendingExit _ _).pending ↔ _
    rw [hkept.1, hsame]
    simp [Has, lastPublishedSeq]
  · change (_ || _) = false at hknown
    rw [Bool.or_eq_false_iff] at hknown
    rintro (hpublished | hpending)
    · rw [hknown.1] at hpublished
      cases hpublished
    · rw [hknown.2] at hpending
      cases hpending

open RecoveryLoop

/-- An event of the history goes into the buffer, and what is ready is
published. -/
theorem RecoveryLoop.publish_ensures (hgood : Good history start loop.session)
    (hfailure : loop.session.orderedEvents.failure = none) (hseq : event.seq = some seq)
    (hlast : loop.session.lastPublishedSeq < seq)
    (hevent : history.plainAt seq = some event.plain) :
    Ensures (fun error => Good history start error.session)
      (fun next => Good history start next.session ∧
        next.session.orderedEvents.failure = none ∧
        next.exitKnown = loop.exitKnown ∧
        ∀ other, next.session.Has other ↔ loop.session.Has other ∨ other = seq)
      (loop.publish event) := by
  rw [publish]
  cases hinsert : loop.session.orderedEvents.insertPending event with
  | error message => exact hgood
  | ok ordered =>
    have hpublished := hgood.follows.insert_publish hfailure hseq hlast hevent hinsert
    obtain ⟨-, -, -, hhas⟩ := hgood.follows.insertPending hfailure hseq hlast hevent hinsert
    refine ⟨⟨hpublished.follows, publishReady_drained,
      hgood.events.trans hpublished.events⟩, hpublished.failure, rfl,
      fun other => ?_⟩
    rw [hpublished.has_iff, hhas]

section Chunks

variable (hreads : Reads history response)
include hreads

/-- With the exit unknown, the next event is not in the response if the next
chunk is a later one. -/
theorem Recovering.next_notMem (hloop : Recovering history start response seen loop)
    (hchunks : response.chunks = seen ++ chunk :: rest) (hexited : response.exited = true)
    (hknown : loop.exitKnown = false) (hgap : loop.session.lastPublishedSeq + 1 < chunk.seq) :
    ¬ start.Has (loop.session.lastPublishedSeq + 1) ∧
      loop.session.lastPublishedSeq + 1 ∉ response.chunks.map ProcessOutputChunk.seq := by
  obtain ⟨hhas, -⟩ := hloop.unknown hexited hknown
  have hnext : ¬ loop.session.Has (loop.session.lastPublishedSeq + 1) := by
    rintro (hle | hmem)
    · exact absurd hle (Nat.not_succ_le_self _)
    · exact hloop.good.drained hmem
  rw [hhas] at hnext
  obtain ⟨hstart, hseen⟩ := not_or.mp hnext
  refine ⟨hstart, fun hmem => ?_⟩
  have hsorted := hreads.sorted
  rw [hchunks] at hmem hsorted
  rw [map_append, map_cons, mem_append, mem_cons] at hmem
  rcases hmem with hmem | hhead | hrest
  · exact hseen hmem
  · omega
  · obtain ⟨other, hother, hseq⟩ := mem_map.mp hrest
    have hlater := rel_of_pairwise_cons (pairwise_append.mp hsorted).2.1 hother
    omega

/-- A chunk is published, unless it was before. -/
theorem Recovering.takeChunk (hloop : Recovering history start response seen loop)
    (hmem : chunk ∈ response.chunks) :
    Ensures (fun error => Good history start error.session)
      (fun next => Recovering history start response (seen ++ [chunk]) next ∧
        next.exitKnown = loop.exitKnown)
      (if loop.session.lastPublishedSeq < chunk.seq then
        loop.publish (.output chunk) else .ok loop) := by
  have hevent : history.plainAt chunk.seq =
      some (output chunk).plain := hreads.chunk_at chunk hmem
  split
  next hlast =>
    refine (publish_ensures hloop.good hloop.failure rfl hlast
      hevent).imp (fun _ herror => herror) fun next hnext => ?_
    obtain ⟨hgood, hfailure, hknown, hhas⟩ := hnext
    refine ⟨⟨hgood, hfailure, fun hexited hnextKnown => ?_⟩, hknown⟩
    rw [hknown] at hnextKnown
    obtain ⟨hloopHas, hstart⟩ := hloop.unknown hexited hnextKnown
    refine ⟨fun seq => ?_, hstart⟩
    rw [hhas, hloopHas, or_assoc]
    simp
  next hlast =>
    refine ⟨⟨hloop.good, hloop.failure, fun hexited hknown => ?_⟩, rfl⟩
    obtain ⟨hhas, hstart⟩ := hloop.unknown hexited hknown
    refine ⟨fun seq => ?_, hstart⟩
    rw [hhas, map_append, mem_append]
    constructor
    · exact Or.imp_right .inl
    · rintro (hold | hseen | hchunk)
      · exact .inl hold
      · exact .inr hseen
      · obtain rfl := mem_singleton.mp hchunk
        exact (hhas _).mp (.inl (Nat.le_of_not_lt hlast))

variable (hgap : GapIsExit history start response) (hended : ¬ start.Ended)
  (htarget : start.lastPublishedSeq < response.nextSeq - 1)
include hgap hended htarget

section

variable (hloop : Recovering history start response seen loop)
include hloop

theorem Recovering.inferExit (hchunks : response.chunks = seen ++ chunk :: rest) :
    Ensures (fun error => Good history start error.session)
      (fun next => Recovering history start response seen next)
      (loop.inferExit response chunk) := by
  rw [RecoveryLoop.inferExit]
  split
  next hinfer =>
    obtain ⟨hexited, hknown, hlater⟩ := hinfer
    obtain ⟨hhas, hstart⟩ := hloop.unknown hexited hknown
    obtain ⟨hstartNext, hnotChunk⟩ := hloop.next_notMem hreads hchunks hexited hknown hlater
    have hexitSeq : loop.session.lastPublishedSeq + 1 = history.exitSeq := by
      apply hgap hended htarget hexited hstart _ _ hstartNext hnotChunk
      · exact ⟨chunk, by simp [hchunks], hlater⟩
      · intro earlier hearlier
        have hpublished := (hhas earlier).mp (.inl (Nat.le_of_lt_succ hearlier))
        refine hpublished.imp_right fun hseen => ?_
        rw [hchunks, map_append]
        exact mem_append_left _ hseen
    obtain ⟨exitCode, hexitCode, hexit, -⟩ := hreads.exited hexited
    rw [hexitCode]
    refine (publish_ensures hloop.good hloop.failure rfl
      (Nat.lt_succ_self _) ?_).map fun next hnext => ?_
    · change history.plainAt (loop.session.lastPublishedSeq + 1) =
        some (.exited (loop.session.lastPublishedSeq + 1) exitCode none)
      rw [hexitSeq]
      exact hexit
    · obtain ⟨hgood, hfailure, -, -⟩ := hnext
      exact ⟨hgood, hfailure, fun _ hfalse => by cases hfalse⟩
  · exact hloop

theorem Recovering.recoverChunk (hchunks : response.chunks = seen ++ chunk :: rest) :
    Ensures (fun error => Good history start error.session)
      (fun next => Recovering history start response (seen ++ [chunk]) next)
      (loop.recoverChunk response chunk) := by
  have hmem : chunk ∈ response.chunks := by simp [hchunks]
  rw [RecoveryLoop.recoverChunk]
  split
  · exact hloop.good
  · refine (hloop.inferExit hreads hgap hended htarget hchunks).bind fun next hinferred => ?_
    exact (hinferred.takeChunk hreads hmem).imp (fun _ herror => herror) fun last hlast => hlast.1

theorem Recovering.recoverChunks (hchunks : response.chunks = seen ++ rest) :
    Ensures (fun error => Good history start error.session)
      (fun next => Recovering history start response response.chunks next)
      (loop.recoverChunks response rest) := by
  induction rest generalizing seen loop with
  | nil =>
    rw [append_nil] at hchunks
    rw [hchunks]
    exact hloop
  | cons chunk rest ih =>
    refine (hloop.recoverChunk hreads hgap hended htarget hchunks).bind fun next hnext => ?_
    exact ih hnext (by simp [hchunks])

end

end Chunks

/-- The loop with the close event in the buffer.  Only that can be ready to be
published. -/
structure Closing (history : ProcessHistory) (start : SessionState)
    (response : ReadResponse) (loop : RecoveryLoop) : Prop where
  follows : Follows history loop.session
  failure : loop.session.orderedEvents.failure = none
  events : start.events <+: loop.session.events
  unknown : response.exited = true → loop.exitKnown = false → ¬ loop.session.Has history.exitSeq
  ready : loop.session.lastPublishedSeq + 1 ∈ loop.session.orderedEvents.pending →
      response.nextSeq - 1 = loop.session.lastPublishedSeq + 1 ∧
        response.nextSeq - 1 = history.events.length

section

variable (hfollows : Follows history start) (hreads : Reads history response)
  (hloop : Recovering history start response response.chunks loop)
include hfollows hreads hloop

/-- The chunks are no exits, so an unknown exit stays unknown. -/
theorem Recovering.not_has_exit (hexited : response.exited = true)
    (hknown : loop.exitKnown = false) : ¬ loop.session.Has history.exitSeq := by
  obtain ⟨hhas, hstart⟩ := hloop.unknown hexited hknown
  rw [hhas]
  rintro (hold | hchunk)
  · exact hfollows.not_has_exit hreads hexited hstart hold
  · obtain ⟨chunk, hmem, hseq⟩ := mem_map.mp hchunk
    exact nomatch (ProcessHistory.isExited_iff (hreads.chunk_pos chunk hmem)
      (hreads.chunk_at chunk hmem)).mpr hseq

theorem Recovering.recoverClosed :
    Ensures (fun error => Good history start error.session)
      (fun next => Closing history start response next)
      (loop.recoverClosed response) := by
  have hexit := fun hexited hknown => hloop.not_has_exit hfollows hreads hexited hknown
  rw [RecoveryLoop.recoverClosed]
  split
  next hclosing =>
    obtain ⟨hclosed, hpublished, -⟩ := hclosing
    have htarget := hreads.closed hclosed
    have hlast : loop.session.lastPublishedSeq < response.nextSeq - 1 := by
      rw [htarget]
      refine Nat.lt_of_le_of_ne hloop.good.follows.last_le fun heq => ?_
      rw [hloop.good.follows.closed_iff.mpr heq] at hpublished
      cases hpublished
    have hevent : history.plainAt (response.nextSeq - 1) =
        some (closed (response.nextSeq - 1)).plain := by
      rw [htarget]
      exact history.plainAt_length
    cases hinsert : loop.session.orderedEvents.insertPending (.closed (response.nextSeq - 1)) with
    | error message => exact hloop.good
    | ok ordered =>
      obtain ⟨hnext, hfailure, hsame, hhas⟩ :=
        hloop.good.follows.insertPending hloop.failure rfl hlast hevent hinsert
      refine ⟨hnext, hfailure, hloop.good.events, fun hexited hknown => ?_, fun hready => ?_⟩
      · rw [hhas, htarget]
        rintro (hold | heq)
        · exact hexit hexited hknown hold
        · exact absurd heq (Nat.ne_of_lt history.exitSeq_lt_length)
      · change ordered.lastPublishedSeq + 1 ∈ ordered.pending at hready
        change _ = ordered.lastPublishedSeq + 1 ∧ _
        rw [hsame] at hready ⊢
        refine ⟨?_, htarget⟩
        rcases (hhas _).mp (.inr hready) with hold | heq
        · rcases hold with hle | hmem
          · exact absurd hle (Nat.not_succ_le_self _)
          · exact absurd hmem hloop.good.drained
        · exact heq.symm
  · exact ⟨hloop.good.follows, hloop.failure, hloop.good.events, hexit,
      fun hready => absurd hready hloop.good.drained⟩

end

theorem Closing.recoverMissing (hreads : Reads history response)
    (hloop : Closing history start response loop) :
    Ensures (fun error => Good history start error.session)
      (fun next => Good history start next.session)
      (loop.recoverMissing response) := by
  rw [RecoveryLoop.recoverMissing]
  split
  next hunknown =>
    obtain ⟨hexited, hknown⟩ := hunknown
    have hdrained : loop.session.Drained := by
      intro hready
      obtain ⟨htarget, hlength⟩ := hloop.ready hready
      have hlt := history.exitSeq_lt_length
      exact hloop.unknown hexited hknown (.inl (by omega))
    have hgood : Good history start loop.session := ⟨hloop.follows, hdrained, hloop.events⟩
    split
    · exact hgood
    next hcount =>
      obtain ⟨exitCode, hexitCode, hexit, htarget⟩ := hreads.exited hexited
      obtain ⟨hlast, hpending⟩ := not_or.mp (hloop.unknown hexited hknown)
      have hevent : history.plainAt history.exitSeq =
          some (exited history.exitSeq exitCode (some response.sandboxDenied)).plain := hexit
      have hseq := loop.session.orderedEvents.firstMissingSeq_eq
        (not_not.mp hcount) (Nat.lt_of_not_le hlast) htarget hpending
      rw [hexitCode, hseq]
      refine (publish_ensures hgood hloop.failure rfl (Nat.lt_of_not_le hlast) hevent).imp
        (fun _ herror => herror) fun next hnext => hnext.1
  · split
    next hmissing =>
      -- an event that is ready is the close event, and nothing is missing
      have hdrained : loop.session.Drained := by
        intro hready
        obtain ⟨htarget, -⟩ := hloop.ready hready
        obtain ⟨event, hevent⟩ := KeyedTable.exists_lookup hready
        have hmem := mem_range_iff.mpr ⟨Nat.le_refl _, Nat.le_of_eq htarget.symm, hevent⟩
        rw [lastPublishedSeq] at hmem htarget
        have hpos := length_pos_of_mem hmem
        omega
      exact ⟨hloop.follows, hdrained, hloop.events⟩
    · have hpublished := publishReady_published hloop.follows hloop.failure
      exact ⟨hpublished.follows, publishReady_drained, hloop.events.trans hpublished.events⟩

/-- Recovery keeps to the history, whether it succeeds or not. -/
theorem Follows.handleRecovery (hfollows : Follows history session) (hdrained : session.Drained)
    (hreads : Reads history response) (hgap : GapIsExit history session response) :
    Follows history (session.handleRecovery response) ∧
      (session.handleRecovery response).Drained := by
  have hensures : Ensures (fun error => Good history session error.session)
      (fun result : SessionState × Bool => Good history session result.1)
      (session.recoverEvents response) := by
    rw [recoverEvents, hreads.failure]
    simp only
    split
    · exact ⟨hfollows, hdrained, prefix_rfl⟩
    next hactive =>
      obtain ⟨hended, htarget⟩ := not_or.mp hactive
      have hstart := recovering_start hfollows hdrained hended response
      split
      · exact hstart.good
      · refine (hstart.recoverChunks hreads hgap hended
          (Nat.lt_of_not_le htarget) rfl).bind fun chunks hchunks => ?_
        refine (hchunks.recoverClosed hfollows hreads).bind fun closing hclosing => ?_
        refine (hclosing.recoverMissing hreads).bind fun last hlast => ?_
        exact ⟨hlast.follows.noteChange _, hlast.drained, hlast.events⟩
  rw [SessionState.handleRecovery]
  cases hresult : session.recoverEvents response with
  | ok result | error error =>
    rw [hresult] at hensures
    exact ⟨hensures.follows, hensures.drained⟩

end Loop

end SessionState

end Hexa.ExecServer
