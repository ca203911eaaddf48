/-
The threads of agents that are kept loaded, at most as many as the capacity.
A task that wants a slot takes the thread used least recently out of the list,
looks at it without the lock, and may put it back.
-/
import Hexa.Lib.KeyedTable
import Hexa.Lib.Runs

namespace Hexa.Agent

open List KeyedTable Option

structure V2ResidencyState (ThreadId : Type) where
  residents : List ThreadId := []
  pendingSlots : Nat := 0

variable {ThreadId : Type}

/-- The slots that are taken. -/
def V2ResidencyState.occupied (state : V2ResidencyState ThreadId) : Nat :=
  state.residents.length + state.pendingSlots

/-- Where a call of `reserve_slot` is, between two of its critical sections;
at last its slot is out, until it is committed or dropped. -/
inductive ReservePhase (ThreadId : Type) where
  | trying
  | counting
  | scanning (left : Nat)
  | examining (candidate : ThreadId) (left : Nat)
  | holding

structure ReserveTask (ThreadId : Type) where
  protectedThread : Option ThreadId
  phase : ReservePhase ThreadId

def ReserveTask.isHolding (task : ReserveTask ThreadId) : Bool :=
  match task.phase with
  | .holding => true
  | _ => false

def ReserveTask.isExamining (task : ReserveTask ThreadId) : Bool :=
  match task.phase with
  | .examining _ _ => true
  | _ => false

/-- What became of a candidate: it was not loaded as a resident any more, it
could not be unloaded or shut down, or it was unloaded. -/
inductive Examined where
  | gone
  | kept
  | unloaded

structure ResidencySystem (ThreadId : Type) where
  residency : V2ResidencyState ThreadId := {}
  tasks : KeyedTable Nat (ReserveTask ThreadId) := ∅

/-- The critical sections, with the task that runs them. -/
inductive ResidencyAction (ThreadId : Type) where
  | start (task : Nat) (protectedThread : Option ThreadId)
  | tryReserve (task : Nat)
  | count (task : Nat)
  | pop (task : Nat)
  | examined (task : Nat) (outcome : Examined)
  | commit (task : Nat) (thread : ThreadId)
  | release (task : Nat)
  | touch (thread : ThreadId)
  | forget (thread : ThreadId)

namespace ResidencySystem

variable (system : ResidencySystem ThreadId)

def setPhase (task : Nat) (running : ReserveTask ThreadId) (phase : ReservePhase ThreadId) :
    ResidencySystem ThreadId :=
  { system with tasks := system.tasks.insert task { running with phase } }

def endTask (task : Nat) : ResidencySystem ThreadId :=
  { system with tasks := system.tasks.erase task }

/-- The slots that are out. -/
def holding : Nat := system.tasks.countWhere ReserveTask.isHolding

/-- The candidates out of the list that tasks look at. -/
def examining : Nat := system.tasks.countWhere ReserveTask.isExamining

variable {system : ResidencySystem ThreadId} {task : Nat} {running : ReserveTask ThreadId}

section

variable (hrunning : system.tasks.lookup task = some running)
include hrunning

theorem holding_setPhase (phase : ReservePhase ThreadId) :
    (system.setPhase task running phase).holding + running.isHolding.toNat =
      system.holding + ({ running with phase } : ReserveTask ThreadId).isHolding.toNat :=
  countWhere_insert_of_lookup hrunning _

theorem examining_setPhase (phase : ReservePhase ThreadId) :
    (system.setPhase task running phase).examining + running.isExamining.toNat =
      system.examining + ({ running with phase } : ReserveTask ThreadId).isExamining.toNat :=
  countWhere_insert_of_lookup hrunning _

theorem holding_endTask :
    (system.endTask task).holding + running.isHolding.toNat = system.holding :=
  countWhere_erase_of_lookup hrunning

theorem examining_endTask :
    (system.endTask task).examining + running.isExamining.toNat = system.examining :=
  countWhere_erase_of_lookup hrunning

end

end ResidencySystem

variable [DecidableEq ThreadId] (residents : List ThreadId)

def touchResident (thread : ThreadId) : List ThreadId :=
  residents.filter (fun resident => resident ≠ thread) ++ [thread]

/-- The loop of `pop_lru_candidate`: what stays, and the candidate. -/
def popCandidate (protectedThread : Option ThreadId) :
    Nat → List ThreadId → List ThreadId × Option ThreadId
  | 0, residents => (residents, none)
  | _ + 1, [] => ([], none)
  | scans + 1, candidate :: residents =>
    if some candidate = protectedThread then
      popCandidate protectedThread scans (residents ++ [candidate])
    else (residents, some candidate)

variable {thread : ThreadId}

theorem length_touchResident_of_notMem {residents : List ThreadId} (hmem : thread ∉ residents) :
    (touchResident residents thread).length = residents.length + 1 := by
  have hfilter : residents.filter (fun resident => resident ≠ thread) =
      residents := by
    rw [filter_eq_self]
    intro resident hresident
    exact decide_eq_true (fun heq => hmem (heq ▸ hresident))
  rw [touchResident, hfilter, length_append, length_singleton]

theorem length_touchResident_le (thread : ThreadId) :
    (touchResident residents thread).length ≤ residents.length + 1 := by
  rw [touchResident, length_append]
  exact Nat.succ_le_succ (length_filter_le _ _)

theorem length_touchResident_of_mem {residents : List ThreadId} (hmem : thread ∈ residents) :
    (touchResident residents thread).length ≤ residents.length := by
  rw [touchResident, length_append]
  refine length_filter_lt_length_iff_exists.mpr ⟨thread, hmem, ?_⟩
  simp

/-- The candidate is what the list lost. -/
theorem length_popCandidate (protectedThread : Option ThreadId) (scans : Nat)
    (residents : List ThreadId) :
    (popCandidate protectedThread scans residents).1.length +
        (popCandidate protectedThread scans residents).2.toList.length =
      residents.length := by
  induction scans generalizing residents with
  | zero => rfl
  | succ scans ih =>
    cases residents with
    | nil => rfl
    | cons candidate residents =>
      rw [popCandidate]
      split_ifs with hprotected
      · rw [ih, length_append]
        rfl
      · rfl

namespace V2ResidencyState

variable (state : V2ResidencyState ThreadId)

/-- The state with one more pending slot, unless the capacity is reached. -/
def tryReservePendingSlot (capacity : Nat) : Option (V2ResidencyState ThreadId) :=
  if state.residents.length + state.pendingSlots ≥ capacity then none
  else some { state with pendingSlots := state.pendingSlots + 1 }

def popLruCandidate (protectedThread : Option ThreadId) :
    V2ResidencyState ThreadId × Option ThreadId :=
  let (residents, candidate) :=
    popCandidate protectedThread state.residents.length state.residents
  ({ state with residents }, candidate)

variable (thread : ThreadId)

def touch : V2ResidencyState ThreadId :=
  { state with residents := touchResident state.residents thread }

def remove : V2ResidencyState ThreadId :=
  { state with
    residents := state.residents.filter (fun resident => resident ≠ thread) }

def commitSlot : V2ResidencyState ThreadId :=
  { residents := touchResident state.residents thread
    pendingSlots := state.pendingSlots - 1 }

def releasePendingSlot : V2ResidencyState ThreadId :=
  { state with pendingSlots := state.pendingSlots - 1 }

end V2ResidencyState

namespace ResidencySystem

def perform (capacity : Nat) (system : ResidencySystem ThreadId)
    (action : ResidencyAction ThreadId) : Option (ResidencySystem ThreadId) :=
  match action with
  | .start task protectedThread =>
    if (system.tasks.lookup task).isSome then none
    else some { system with
      tasks := system.tasks.insert task ⟨protectedThread, .trying⟩ }
  | .tryReserve task => do
      let running ← system.tasks.lookup task
      match running.phase with
      | .trying =>
        match system.residency.tryReservePendingSlot capacity with
        | some residency => some { system.setPhase task running .holding with residency }
        | none => some (system.setPhase task running .counting)
      | _ => none
  | .count task => do
      let running ← system.tasks.lookup task
      match running.phase with
      | .counting =>
        some (system.setPhase task running (.scanning system.residency.residents.length))
      | _ => none
  | .pop task => do
      let running ← system.tasks.lookup task
      match running.phase with
      | .scanning 0 => some (system.endTask task)
      | .scanning (left + 1) =>
        match system.residency.popLruCandidate running.protectedThread with
        | (residency, some candidate) =>
          some { system.setPhase task running (.examining candidate left) with residency }
        | (residency, none) => some { system.endTask task with residency }
      | _ => none
  | .examined task outcome => do
      let running ← system.tasks.lookup task
      match running.phase, outcome with
      | .examining _ left, .gone => some (system.setPhase task running (.scanning left))
      | .examining candidate left, .kept =>
        some { system.setPhase task running (.scanning left) with
          residency := system.residency.touch candidate }
      | .examining _ _, .unloaded => some (system.setPhase task running .trying)
      | _, _ => none
  | .commit task thread => do
      let running ← system.tasks.lookup task
      match running.phase with
      | .holding =>
        some { system.endTask task with
          residency := system.residency.commitSlot thread }
      | _ => none
  | .release task => do
      let running ← system.tasks.lookup task
      match running.phase with
      | .holding =>
        some { system.endTask task with
          residency := system.residency.releasePendingSlot }
      | _ => none
  | .touch thread => some { system with residency := system.residency.touch thread }
  | .forget thread => some { system with residency := system.residency.remove thread }

def Step (capacity : Nat) (system : ResidencySystem ThreadId) (action : ResidencyAction ThreadId)
    (next : ResidencySystem ThreadId) : Prop :=
  perform capacity system action = some next

/-- The thread that an action touches without a slot for it. -/
def touched (system : ResidencySystem ThreadId) :
    ResidencyAction ThreadId → Option ThreadId
  | .touch thread => some thread
  | .examined task .kept =>
    (system.tasks.lookup task).bind (fun running =>
      match running.phase with
      | .examining candidate _ => some candidate
      | _ => none)
  | _ => none

/-- A thread that is touched is a resident, or there is room for it. -/
def TouchesWithin (capacity : Nat) (system : ResidencySystem ThreadId)
    (action : ResidencyAction ThreadId) : Prop :=
  ∀ thread, system.touched action = some thread →
    thread ∈ system.residency.residents ∨ system.residency.occupied < capacity

instance (capacity : Nat) (system : ResidencySystem ThreadId)
    (action : ResidencyAction ThreadId) :
    Decidable (TouchesWithin capacity system action) :=
  match htouched : system.touched action with
  | none => isTrue (fun thread hthread => by
      rw [htouched] at hthread
      cases hthread)
  | some thread => decidable_of_iff
      (thread ∈ system.residency.residents ∨ system.residency.occupied < capacity) (by
      rw [TouchesWithin, htouched]
      simp only [Option.some.injEq, forall_eq'])

variable {capacity : Nat} {system next : ResidencySystem ThreadId}
  {action : ResidencyAction ThreadId}

/-- What a step does to the residents and to the tasks that hold a slot or
look at a candidate. -/
inductive Effect (capacity : Nat) (system : ResidencySystem ThreadId)
    (action : ResidencyAction ThreadId) (next : ResidencySystem ThreadId) :
    Option ThreadId → Prop where
  | idle (hresidents : next.residency.residents.length = system.residency.residents.length)
      (hpending : next.residency.pendingSlots = system.residency.pendingSlots)
      (hholding : next.holding = system.holding)
      (hexamining : next.examining ≤ system.examining) :
      Effect capacity system action next none
  | reserve (task : Nat) (haction : action = .tryReserve task)
      (hroom : system.residency.occupied < capacity)
      (hresidents : next.residency.residents = system.residency.residents)
      (hpending :
        next.residency.pendingSlots = system.residency.pendingSlots + 1)
      (hholding : next.holding = system.holding + 1)
      (hexamining : next.examining = system.examining) :
      Effect capacity system action next none
  | pop (hresidents : next.residency.residents.length + 1 = system.residency.residents.length)
      (hpending : next.residency.pendingSlots = system.residency.pendingSlots)
      (hholding : next.holding = system.holding)
      (hexamining : next.examining = system.examining + 1) :
      Effect capacity system action next none
  | putBack (thread : ThreadId)
      (hresidency : next.residency = system.residency.touch thread)
      (hholding : next.holding = system.holding)
      (hexamining : next.examining + 1 = system.examining) :
      Effect capacity system action next (some thread)
  | commit (thread : ThreadId)
      (hresidency : next.residency = system.residency.commitSlot thread)
      (hholding : next.holding + 1 = system.holding)
      (hexamining : next.examining = system.examining) :
      Effect capacity system action next none
  | release (hresidency : next.residency = system.residency.releasePendingSlot)
      (hholding : next.holding + 1 = system.holding)
      (hexamining : next.examining = system.examining) :
      Effect capacity system action next none
  | touch (thread : ThreadId) (haction : action = .touch thread)
      (hresidency : next.residency = system.residency.touch thread)
      (hholding : next.holding = system.holding)
      (hexamining : next.examining = system.examining) :
      Effect capacity system action next (some thread)
  | forget (thread : ThreadId)
      (hresidency : next.residency = system.residency.remove thread)
      (hholding : next.holding = system.holding)
      (hexamining : next.examining = system.examining) :
      Effect capacity system action next none

variable (hstep : Step capacity system action next)

open V2ResidencyState

include hstep in
theorem step_effect : Effect capacity system action next (system.touched action) := by
  rw [Step] at hstep
  cases action with
  | start task protectedThread =>
    rw [perform] at hstep
    split_ifs at hstep with htask
    have hnone := AList.lookup_eq_none.mp (not_isSome_iff_eq_none.mp htask)
    cases hstep
    have hinsert : ∀ test : ReserveTask ThreadId → Bool,
        test ⟨protectedThread, .trying⟩ = false →
        countWhere test (system.tasks.insert task
          ⟨protectedThread, .trying⟩) = countWhere test system.tasks := by
      intro test htest
      rw [countWhere_insert, erase_of_notMem hnone, htest]
      rfl
    exact .idle rfl rfl (hinsert ReserveTask.isHolding rfl)
      (Nat.le_of_eq (hinsert ReserveTask.isExamining rfl))
  | tryReserve task =>
    obtain ⟨⟨protectedThread, phase⟩, hrunning, hstep⟩ := bind_eq_some_iff.mp hstep
    cases phase with
    | trying =>
      simp only [tryReservePendingSlot] at hstep
      split_ifs at hstep with hfull
      · cases hstep
        exact .idle rfl rfl (holding_setPhase hrunning .counting)
          (Nat.le_of_eq (examining_setPhase hrunning .counting))
      · cases hstep
        exact .reserve task rfl (Nat.lt_of_not_le hfull) rfl rfl
          (holding_setPhase hrunning .holding) (examining_setPhase hrunning .holding)
    | _ => cases hstep
  | count task =>
    obtain ⟨⟨protectedThread, phase⟩, hrunning, hstep⟩ := bind_eq_some_iff.mp hstep
    cases phase with
    | counting =>
      cases hstep
      have hholding := holding_setPhase hrunning (.scanning system.residency.residents.length)
      have hexamining := examining_setPhase hrunning (.scanning system.residency.residents.length)
      exact .idle rfl rfl hholding (Nat.le_of_eq hexamining)
    | _ => cases hstep
  | pop task =>
    obtain ⟨⟨protectedThread, phase⟩, hrunning, hstep⟩ := bind_eq_some_iff.mp hstep
    cases phase with
    | scanning left =>
      cases left with
      | zero =>
        cases hstep
        exact .idle rfl rfl (holding_endTask hrunning) (Nat.le_of_eq (examining_endTask hrunning))
      | succ left =>
        have hlength := length_popCandidate protectedThread
          system.residency.residents.length system.residency.residents
        simp only [popLruCandidate] at hstep
        cases hcandidate : (popCandidate protectedThread
            system.residency.residents.length
            system.residency.residents).2 with
        | none =>
          rw [hcandidate] at hstep hlength
          cases hstep
          exact .idle hlength rfl (holding_endTask hrunning)
            (Nat.le_of_eq (examining_endTask hrunning))
        | some candidate =>
          rw [hcandidate] at hstep hlength
          cases hstep
          exact .pop hlength rfl (holding_setPhase hrunning (.examining candidate left))
            (examining_setPhase hrunning (.examining candidate left))
    | _ => cases hstep
  | examined task outcome =>
    obtain ⟨⟨protectedThread, phase⟩, hrunning, hstep⟩ := bind_eq_some_iff.mp hstep
    cases phase with
    | examining candidate left =>
      cases outcome with
      | gone =>
        cases hstep
        have hexamining := examining_setPhase hrunning (.scanning left)
        exact .idle rfl rfl (holding_setPhase hrunning (.scanning left)) (Nat.le.intro hexamining)
      | kept =>
        cases hstep
        have htouched : system.touched (.examined task .kept) = some candidate := by
          simp only [touched, hrunning, bind_some]
        rw [htouched]
        exact .putBack candidate rfl (holding_setPhase hrunning (.scanning left))
          (examining_setPhase hrunning (.scanning left))
      | unloaded =>
        cases hstep
        have hexamining := examining_setPhase hrunning .trying
        exact .idle rfl rfl (holding_setPhase hrunning .trying) (Nat.le.intro hexamining)
    | _ => cases hstep
  | commit task thread =>
    obtain ⟨⟨protectedThread, phase⟩, hrunning, hstep⟩ := bind_eq_some_iff.mp hstep
    cases phase with
    | holding =>
      cases hstep
      exact .commit thread rfl (holding_endTask hrunning) (examining_endTask hrunning)
    | _ => cases hstep
  | release task =>
    obtain ⟨⟨protectedThread, phase⟩, hrunning, hstep⟩ := bind_eq_some_iff.mp hstep
    cases phase with
    | holding =>
      cases hstep
      exact .release rfl (holding_endTask hrunning) (examining_endTask hrunning)
    | _ => cases hstep
  | touch thread =>
    cases hstep
    exact .touch thread rfl rfl rfl rfl
  | forget thread =>
    cases hstep
    exact .forget thread rfl rfl rfl

include hstep in
/-- The pending slots are those that tasks hold. -/
theorem step_pending (hpending : system.residency.pendingSlots = system.holding) :
    next.residency.pendingSlots = next.holding := by
  have heffect := step_effect hstep
  generalize system.touched action = touched at heffect
  cases heffect with
  | idle _ hslots hholding _ | reserve task _ _ _ hslots hholding _
  | pop _ hslots hholding _ => rw [hslots, hpending, hholding]
  | putBack thread hresidency hholding _
  | touch thread _ hresidency hholding _ | forget thread hresidency hholding _ =>
    rw [hresidency, hholding]
    exact hpending
  | commit thread hresidency hholding _ =>
    rw [hresidency, commitSlot, hpending, ← hholding]
    rfl
  | release hresidency hholding _ =>
    rw [hresidency, releasePendingSlot, hpending, ← hholding]
    rfl

variable {residency : V2ResidencyState ThreadId}

/-- A thread that is touched takes a slot unless it is a resident. -/
theorem occupied_touch_le_iff (hwithin : residency.occupied ≤ capacity) :
    (residency.touch thread).occupied ≤ capacity ↔
      thread ∈ residency.residents ∨ residency.occupied < capacity := by
  rw [occupied, touch]
  by_cases hmem : thread ∈ residency.residents
  · have hlength := length_touchResident_of_mem hmem
    refine iff_of_true (Nat.le_trans ?_ hwithin) (.inl hmem)
    exact Nat.add_le_add_right hlength _
  · rw [length_touchResident_of_notMem hmem, Nat.add_right_comm]
    exact ⟨.inr, fun hor => hor.resolve_left hmem⟩

/-- A commit passes on a slot that is pending. -/
theorem occupied_commitSlot_le (hpending : 0 < residency.pendingSlots) :
    (residency.commitSlot thread).occupied ≤ residency.occupied := by
  have hlength := length_touchResident_le residency.residents thread
  rw [occupied, occupied, commitSlot]
  dsimp only
  omega

theorem occupied_remove_le (residency : V2ResidencyState ThreadId) (thread : ThreadId) :
    (residency.remove thread).occupied ≤ residency.occupied :=
  Nat.add_le_add_right (length_filter_le _ _) _

include hstep in
theorem step_occupied_iff (hpending : system.residency.pendingSlots = system.holding)
    (hwithin : system.residency.occupied ≤ capacity) :
    next.residency.occupied ≤ capacity ↔ TouchesWithin capacity system action := by
  have heffect := step_effect hstep
  cases htouched : system.touched action with
  | none =>
    refine iff_of_true ?_ (fun thread hthread => ?_)
    · rw [htouched] at heffect
      cases heffect with
      | idle hresidents hslots _ _ => rwa [occupied, hresidents, hslots]
      | reserve task _ hroom hresidents hslots _ _ =>
        rw [occupied, hresidents, hslots]
        exact hroom
      | pop hresidents hslots _ _ =>
        rw [occupied] at hwithin ⊢
        omega
      | commit thread hresidency hholding _ =>
        rw [hresidency]
        refine Nat.le_trans (occupied_commitSlot_le ?_) hwithin
        rw [hpending, ← hholding]
        exact Nat.succ_pos _
      | release hresidency hholding _ =>
        rw [hresidency]
        refine Nat.le_trans ?_ hwithin
        exact Nat.add_le_add_left (Nat.sub_le _ _) _
      | forget thread hresidency _ _ =>
        rw [hresidency]
        exact Nat.le_trans (occupied_remove_le _ _) hwithin
    · rw [htouched] at hthread
      cases hthread
  | some thread =>
    have hresidency : next.residency = system.residency.touch thread := by
      rw [htouched] at heffect
      cases heffect with
      | putBack _ hresidency _ _ | touch _ _ hresidency _ _ => exact hresidency
    rw [hresidency, occupied_touch_le_iff hwithin, TouchesWithin, htouched]
    simp only [some.injEq, forall_eq']

theorem step_deterministic (system : ResidencySystem ThreadId) (action : ResidencyAction ThreadId)
    (first second) (hfirst : Step capacity system action first)
    (hsecond : Step capacity system action second) : first = second :=
  some.inj (hfirst.symm.trans hsecond)

/-- A slot is reserved only if there is room for it beside the candidates that
tasks look at, and only residents are touched. -/
def CountsExamined (capacity : Nat) (system : ResidencySystem ThreadId) :
    ResidencyAction ThreadId → Prop
  | .tryReserve _ => system.residency.occupied < capacity →
      system.residency.occupied + system.examining < capacity
  | .touch thread => thread ∈ system.residency.residents
  | _ => True

include hstep in
theorem step_examining_le (hcounts : CountsExamined capacity system action)
    (hpending : system.residency.pendingSlots = system.holding)
    (hwithin : system.residency.occupied + system.examining ≤ capacity) :
    next.residency.occupied + next.examining ≤ capacity := by
  have heffect := step_effect hstep
  generalize system.touched action = touched at heffect
  cases heffect with
  | idle hresidents hslots _ hexamining | pop hresidents hslots _ hexamining =>
    rw [occupied] at hwithin ⊢
    omega
  | reserve task haction hroom hresidents hslots _ hexamining =>
    subst haction
    have hlt := hcounts hroom
    rw [occupied] at hlt ⊢
    rw [hresidents]
    omega
  | putBack thread hresidency _ hexamining =>
    have hlength := length_touchResident_le system.residency.residents thread
    rw [hresidency]
    rw [occupied] at hwithin ⊢
    rw [touch]
    dsimp only
    omega
  | commit thread hresidency hholding hexamining =>
    have hpositive : 0 < system.residency.pendingSlots := by omega
    have hle : (system.residency.commitSlot thread).occupied ≤
        system.residency.occupied := occupied_commitSlot_le hpositive
    rw [hresidency]
    omega
  | release hresidency _ hexamining =>
    have hle : system.residency.releasePendingSlot.occupied ≤ system.residency.occupied :=
      Nat.add_le_add_left (Nat.sub_le _ _) _
    rw [hresidency]
    omega
  | touch thread haction hresidency _ hexamining =>
    subst haction
    have hlength := length_touchResident_of_mem hcounts
    have hle : (system.residency.touch thread).occupied ≤ system.residency.occupied :=
      Nat.add_le_add_right hlength _
    rw [hresidency]
    omega
  | forget thread hresidency _ hexamining =>
    have hle := occupied_remove_le system.residency thread
    rw [hresidency]
    omega

/-- If reservations counted the candidates that are looked at, the residents
would stay within the capacity. -/
theorem occupied_le_of_countsExamined {actions : List (ResidencyAction ThreadId)}
    (hrun : Run (Guarded (Step capacity) (CountsExamined capacity)) {} actions system) :
    system.residency.occupied ≤ capacity := by
  have hkeeps : ∀ (first : ResidencySystem ThreadId) action second,
      Guarded (Step capacity) (CountsExamined capacity) first action second →
      first.residency.pendingSlots = first.holding ∧
        first.residency.occupied + first.examining ≤ capacity →
      second.residency.pendingSlots = second.holding ∧
        second.residency.occupied + second.examining ≤ capacity :=
    fun first action second hstep hfirst =>
      ⟨step_pending hstep.1 hfirst.1, step_examining_le hstep.1 hstep.2 hfirst.1 hfirst.2⟩
  have hlast := hrun.invariant hkeeps ⟨rfl, Nat.zero_le capacity⟩
  exact Nat.le_trans (Nat.le_add_right _ _) hlast.2

/-- The residents and the pending slots stay within the capacity all along a
run exactly if the threads it touches are residents or find room. -/
theorem residency_capacity {actions : List (ResidencyAction ThreadId)}
    (hrun : Run (Step capacity) {} actions system) :
    (∀ before state, before <+: actions → Run (Step capacity) {} before state →
        state.residency.occupied ≤ capacity) ↔
      Run (Guarded (Step capacity) (TouchesWithin capacity)) {} actions system :=
  hrun.always_iff_guarded step_deterministic
    (fun _ _ _ => step_pending) (fun _ _ _ => step_occupied_iff) rfl
    (Nat.zero_le capacity)

omit [DecidableEq ThreadId]

/-- A task takes a slot for thread 7; a second finds it busy, and puts it back
before the first is done. -/
def keepBusyResident : List (ResidencyAction Nat) :=
  [.start 0 none, .tryReserve 0, .commit 0 7, .start 1 none, .tryReserve 1,
    .count 1, .pop 1, .examined 1 .kept]

theorem residency_capacity_keepBusyResident :
    ∃ system, Run (Guarded (Step 1) (TouchesWithin 1)) {} keepBusyResident
        system ∧ system.residency.occupied ≤ 1 := by
  have hguarded := Run.guarded_of_performAll (rfl : performAll
    (fun system action => if TouchesWithin 1 system action then
      perform 1 system action else none) {} keepBusyResident = some _)
  have hrun := hguarded.unguarded
  refine ⟨_, hguarded, ?_⟩
  exact (residency_capacity hrun).mpr hguarded _ _ (prefix_refl _) hrun

theorem occupied_le_of_countsExamined_keepBusyResident :
    ∃ system : ResidencySystem Nat, system.residency.residents = [7] ∧
      system.examining = 0 ∧ system.residency.occupied ≤ 1 := by
  have hrun : Run (Guarded (Step 1) (CountsExamined 1)) ({} : ResidencySystem Nat)
      keepBusyResident _ :=
    .cons ⟨rfl, trivial⟩ (.cons ⟨rfl, fun _ => by decide⟩ (.cons ⟨rfl, trivial⟩
      (.cons ⟨rfl, trivial⟩ (.cons ⟨rfl, fun hroom => absurd hroom (by decide)⟩
        (.cons ⟨rfl, trivial⟩ (.cons ⟨rfl, trivial⟩ (.single ⟨rfl, trivial⟩)))))))
  exact ⟨_, rfl, rfl, occupied_le_of_countsExamined hrun⟩

/-- While one task looks at the only resident, another takes its place. -/
def reserveWhileExamined : List (ResidencyAction Nat) :=
  [.start 0 none, .tryReserve 0, .commit 0 7, .start 1 none, .tryReserve 1,
    .count 1, .start 2 none, .pop 1, .tryReserve 2, .examined 1 .kept]

theorem capacity_exceeded_by_putBack :
    ∃ system, Run (Step 1) {} reserveWhileExamined system ∧
      system.residency.residents = [7] ∧ system.residency.pendingSlots = 1 :=
  ⟨_, Run.of_performAll (rfl : performAll (perform 1) {} reserveWhileExamined = some _), rfl, rfl⟩

end ResidencySystem

end Hexa.Agent
