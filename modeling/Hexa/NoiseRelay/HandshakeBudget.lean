/-
The failure budget of the multiplexed relay loop.  Every handshake request that
the loop reads is charged or pending, so that the budget bounds their number,
as long as no pending handshake is given up without a charge.
-/
import Hexa.NoiseRelay.StreamTable

namespace Hexa.NoiseRelay

open List MultiplexedEnvironment KeyedTable

/-- How many handshake requests the loop reads while it handles the events. -/
def startedHandshakes (readRequest : ReadRequest) :
    MultiplexedEnvironment → List Event → Nat
  | _, [] => 0
  | state, event :: events =>
    (startsHandshake state event).toNat +
      startedHandshakes readRequest (state.step readRequest event) events

/-- The registry authorizes a key. -/
def Event.Succeeds (event : Event) : Prop :=
  ∃ task completed queued, event = .validated task (.ok ()) completed queued

/-- No reset meets a pending handshake, and no registry check is lost while
handshakes are pending: the loop gives up a handshake on neither without a
charge. -/
def ChargesFailures (state : MultiplexedEnvironment) (event : Event) : Prop :=
  (∀ streamId, event.Carries .reset streamId → streamId ∉ state.pendingHandshakes) ∧
  ∀ task, event = .validationFailed task → state.pendingHandshakes = ∅

variable {state : MultiplexedEnvironment} {event : Event}

section

variable {opened : Bool} {after : Tables} {charged : Nat}
  (heffect : Effect state event opened after charged)
include heffect

theorem Effect.charged_le : charged ≤ 1 := by
  cases heffect with
  | settled _ _ hcharged =>
    rcases hcharged with rfl | ⟨rfl, -⟩
    · exact Nat.le_refl 1
    · exact Nat.zero_le 1
  | _ => decide

/-- A turn keeps the balance: what it reads becomes pending or is charged. -/
theorem Effect.balance (hcharges : ChargesFailures state event) (hfails : ¬event.Succeeds) :
    opened.toNat + state.pendingHandshakes.keys.length =
      charged + after.pendingHandshakes.keys.length := by
  cases heffect with
  | idle | refused | closed | received | stale => rfl
  | started handshake key authorization hframe hstreams hpending =>
    rw [length_keys_insert_of_notMem hpending]
    exact (Nat.add_comm _ _).trans (Nat.zero_add _).symm
  | canceled hframe hpending =>
    rw [← length_keys_erase hpending]
    exact (Nat.zero_add _).trans (Nat.add_comm _ _)
  | reset hframe =>
    rw [erase_of_notMem (hcharges.1 _ hframe)]
    rfl
  | @settled task result completed queued pending _ hpending _ hcharged =>
    rcases hcharged with rfl | ⟨-, rfl⟩
    · rw [← length_keys_erase (mem_of_lookup hpending)]
      exact (Nat.zero_add _).trans (Nat.add_comm _ _)
    · exact absurd ⟨task, completed, queued, rfl⟩ hfails
  | @activated task completed => exact absurd ⟨task, completed, true, rfl⟩ hfails
  | @cleared task =>
    rw [hcharges.2 task rfl]
    rfl

end

variable {readRequest : ReadRequest}

/-- Every handshake request read in the run is charged or pending at its
end. -/
theorem run_balance {first last : MultiplexedEnvironment} {events : List Event}
    (hrun : Run (Guarded (Turn readRequest) ChargesFailures) first events last)
    (hfails : ∀ event ∈ events, ¬event.Succeeds) :
    startedHandshakes readRequest first events + first.failedHandshakes +
        first.pendingHandshakes.keys.length =
      last.failedHandshakes + last.pendingHandshakes.keys.length := by
  induction hrun with
  | nil state => simp [startedHandshakes]
  | @cons first second last event events hstep hrest ih =>
    obtain ⟨⟨-, -, rfl⟩, hcharges⟩ := hstep
    obtain ⟨charged, heffect, hfailed, -⟩ := step_performs readRequest first event
    have hstep := heffect.balance hcharges (hfails event mem_cons_self)
    have hlater := ih (fun other hmem => hfails other (mem_cons_of_mem event hmem))
    change _ = charged + (first.step readRequest event).pendingHandshakes.keys.length at hstep
    rw [startedHandshakes]
    omega

/-- Each pending handshake has a registry check of its own on its way. -/
theorem Tables.Consistent.pending_le {tables : Tables} (hconsistent : tables.Consistent) :
    tables.pendingHandshakes.keys.length ≤ maxPendingHandshakeValidations := by
  have hsubset : tables.pendingHandshakes.keys ⊆
      tables.validationTasks.map ValidationTask.streamId := by
    intro streamId hmem
    obtain ⟨pending, hpending⟩ := exists_lookup (AList.mem_keys.mpr hmem)
    obtain ⟨task, htask, hstream, -⟩ := hconsistent.checked streamId pending hpending
    exact mem_map.mpr ⟨task, htask, hstream⟩
  have hle := (tables.pendingHandshakes.keys_nodup.subperm hsubset).length_le
  rw [length_map] at hle
  exact hle.trans hconsistent.tasks_le

/-- The loop ends with the charge that exhausts the budget. -/
theorem turn_withinBudget {next : MultiplexedEnvironment}
    (hturn : Turn readRequest state event next) (hwithin : state.WithinBudget) :
    next.failedHandshakes ≤ maxFailedNoiseHandshakes ∧ next.WithinBudget := by
  obtain ⟨hrunning, -, rfl⟩ := hturn
  have hlt := hwithin hrunning
  obtain ⟨charged, heffect, hfailed, hbudget⟩ := step_performs readRequest state event
  have hcharged := heffect.charged_le
  refine ⟨by omega, ?_⟩
  rcases hbudget with rfl | hbudget
  · intro _
    rw [hfailed]
    exact hlt
  · exact hbudget

theorem run_withinBudget {events : List Event} (hrun : Run (Turn readRequest) {} events state) :
    state.failedHandshakes ≤ maxFailedNoiseHandshakes ∧ state.WithinBudget := by
  have hkeeps : ∀ first event second, Turn readRequest first event second →
      (first.failedHandshakes ≤ maxFailedNoiseHandshakes ∧ first.WithinBudget) →
      second.failedHandshakes ≤ maxFailedNoiseHandshakes ∧ second.WithinBudget :=
    fun _ _ _ hturn hfirst => turn_withinBudget hturn hfirst.2
  exact hrun.invariant hkeeps ⟨by decide, fun _ => by decide⟩

/-- In every state that the loop reaches, whatever it is sent: each pending
handshake has a registry check of its own under way, and the handshakes, the
checks and the failures are within their limits. -/
theorem validations_bounded {events : List Event}
    (hrun : Run (Turn readRequest) {} events state) :
    state.tables.Consistent ∧
      state.pendingHandshakes.keys.length ≤ maxPendingHandshakeValidations ∧
      state.failedHandshakes ≤ maxFailedNoiseHandshakes := by
  have hconsistent := run_consistent hrun
  exact ⟨hconsistent, hconsistent.pending_le, (run_withinBudget hrun).1⟩

namespace Witness

/-- A stream is served, and the key of a second one is being checked. -/
def checking : MultiplexedEnvironment :=
  (admission ++ [handshakeFrom ['b']]).foldl (step readsAll) {}

theorem checking_runs : Run (Turn readsAll) {} (admission ++ [handshakeFrom ['b']]) checking :=
  admission_runs.append (.cons ⟨rfl, trivial, rfl⟩ (.nil _))

end Witness

theorem validations_bounded_admitted :
    Witness.checking.pendingHandshakes.keys = [['b']] ∧
      Witness.checking.validationTasks = [Witness.taskOf ['b'] 1] ∧
      Witness.checking.tables.Consistent ∧
      Witness.checking.pendingHandshakes.keys.length ≤ maxPendingHandshakeValidations ∧
      Witness.checking.failedHandshakes ≤ maxFailedNoiseHandshakes :=
  ⟨rfl, rfl, validations_bounded Witness.checking_runs⟩

/-- While no key is authorized, the handshake requests that the loop reads are
charged or still pending, and there are boundedly many of them. -/
theorem started_handshakes_bounded (readRequest : ReadRequest) (events : List Event)
    (state : MultiplexedEnvironment)
    (hrun : Run (Guarded (Turn readRequest) ChargesFailures) {} events state)
    (hfails : ∀ event ∈ events, ¬event.Succeeds) :
    startedHandshakes readRequest {} events =
        state.failedHandshakes + state.pendingHandshakes.keys.length ∧
      startedHandshakes readRequest {} events ≤
        maxFailedNoiseHandshakes + maxPendingHandshakeValidations := by
  have hbalance := run_balance hrun hfails
  have hturns := hrun.unguarded
  have hfailed := (run_withinBudget hturns).1
  have hpending := (run_consistent hturns).pending_le
  have hstarted : startedHandshakes readRequest {} events =
      state.failedHandshakes + state.pendingHandshakes.keys.length := by
    simpa using hbalance
  refine ⟨hstarted, ?_⟩
  rw [hstarted]
  exact Nat.add_le_add hfailed hpending

namespace Witness

def resetOf (streamId : Text) : Event :=
  .incoming (.binary (.ok (.ofReset streamId ['r']))) (fun _ _ => .ok ())

/-- The registry rejects the key of a handshake. -/
def rejected (validationId : Nat) : Event :=
  .validated (taskOf ['a'] validationId) (.error (.protocol "rejected")) (.error "") false

def rejection : List Event := [handshakeFrom ['a'], rejected 0]

/-- A handshake, a reset while it is pending, and the late result. -/
def uncharged (validationId : Nat) : List Event :=
  [handshakeFrom ['a'], resetOf ['a'], rejected validationId]

variable (validationId : Nat)

theorem uncharged_fails : ∀ event ∈ uncharged validationId, ¬event.Succeeds := by
  intro event hmem
  simp only [uncharged, mem_cons, not_mem_nil, or_false] at hmem
  rcases hmem with rfl | rfl | rfl
  · rintro ⟨task, completed, queued, ⟨⟩⟩
  · rintro ⟨task, completed, queued, ⟨⟩⟩
  · rintro ⟨task, completed, queued, ⟨⟩⟩

theorem rejection_charged :
    startedHandshakes readsAll {} rejection ≤ 40 ∧
      (rejection.foldl (step readsAll) {}).failedHandshakes = 1 := by
  have hhandshake : ChargesFailures {} (handshakeFrom ['a']) := by
    refine ⟨fun streamId _ => AList.notMem_empty streamId, ?_⟩
    rintro task ⟨⟩
  have hrejected : ∀ state, ChargesFailures state (rejected 0) := by
    intro state
    refine ⟨?_, ?_⟩
    · rintro streamId ⟨frame, handler, ⟨⟩, -⟩
    · rintro task ⟨⟩
  refine ⟨?_, rfl⟩
  apply (started_handshakes_bounded readsAll rejection (rejection.foldl (step readsAll) {}) _ _).2
  · exact .cons ⟨⟨rfl, trivial, rfl⟩, hhandshake⟩
      (.cons ⟨⟨rfl, mem_singleton_self _, rfl⟩, hrejected _⟩ (.nil _))
  · have hsublist : rejection.Sublist (uncharged 0) := ((Sublist.refl _).cons _).cons_cons _
    exact fun event hmem => uncharged_fails 0 event (hsublist.subset hmem)

theorem uncharged_last :
    (uncharged validationId).foldl (step readsAll) { nextValidationId := validationId } =
      { nextValidationId := validationId + 1 } := by
  change ({ nextValidationId := validationId + 1
            validationTasks := [taskOf ['a'] validationId].erase
              (taskOf ['a'] validationId) } : MultiplexedEnvironment) = _
  rw [erase_cons_head]

theorem uncharged_runs :
    Run (Turn readsAll) { nextValidationId := validationId }
      (uncharged validationId) { nextValidationId := validationId + 1 } :=
  .cons ⟨rfl, trivial, rfl⟩
    (.cons ⟨rfl, trivial, rfl⟩
      (.cons ⟨rfl, mem_singleton_self _, (uncharged_last validationId).symm⟩ (.nil _)))

theorem startedHandshakes_uncharged (later : List Event) :
    startedHandshakes readsAll { nextValidationId := validationId }
        (uncharged validationId ++ later) =
      1 + startedHandshakes readsAll { nextValidationId := validationId + 1 } later := by
  have hlast := uncharged_last validationId
  simp only [uncharged, foldl_cons, foldl_nil] at hlast
  simp only [uncharged, cons_append, nil_append, startedHandshakes, hlast]
  change 1 + (0 + (0 + _)) = _
  rw [Nat.zero_add, Nat.zero_add]

/-- Repeating the three events, without an authorized key or a charge. -/
theorem exists_uncharged_run (rounds validationId : Nat) :
    ∃ events state, Run (Turn readsAll) { nextValidationId := validationId } events state ∧
        (∀ event ∈ events, ¬event.Succeeds) ∧ state.disconnected = none ∧
        startedHandshakes readsAll { nextValidationId := validationId } events = rounds := by
  induction rounds generalizing validationId with
  | zero => exact ⟨[], _, .nil _, by simp, rfl, rfl⟩
  | succ rounds ih =>
    obtain ⟨later, state, hrun, hfails, hrunning, hcount⟩ := ih (validationId + 1)
    refine ⟨uncharged validationId ++ later, state,
      (uncharged_runs validationId).append hrun, ?_, hrunning, ?_⟩
    · exact forall_mem_append.mpr ⟨uncharged_fails validationId, hfails⟩
    · rw [startedHandshakes_uncharged, hcount, Nat.add_comm]

/-- No constant bounds the handshakes that are started. -/
theorem handshakes_unbounded :
    ¬∃ bound, ∀ events state, Run (Turn readsAll) {} events state →
      (∀ event ∈ events, ¬event.Succeeds) → state.disconnected = none →
      startedHandshakes readsAll {} events ≤ bound := by
  rintro ⟨bound, hbound⟩
  obtain ⟨events, state, hrun, hfails, hrunning, hcount⟩ := exists_uncharged_run (bound + 1) 0
  have hle := hbound events state hrun hfails hrunning
  omega

end Witness

end Hexa.NoiseRelay
