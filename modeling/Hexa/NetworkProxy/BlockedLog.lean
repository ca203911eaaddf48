/-
The log of blocked requests under concurrency.  Two calls write back a state
whose log they read in an earlier section; the log is exact in every run in
which no such write-back is stale.
-/
import Hexa.NetworkProxy.Constraints
import Hexa.NetworkProxy.Runtime

namespace Hexa.NetworkProxy

open List ConfigState

section Log

variable {P : Platform} {Entry : Type} (world : World P Entry)

/-- Every record made is in exactly one place, and the total counts them. -/
structure LogExact : Prop where
  accounted : (world.drained ++ world.evicted ++ world.shared.blocked).Perm world.records
  serials : world.records.map Prod.fst = List.range world.records.length
  total : world.shared.blockedTotal = world.records.length

/-- The condition on a step of a task: the log that it writes back is still
the log of the shared state, a forced reload brings the current total, and the
total of a new record does not saturate. -/
def Undisturbed (label : Nat × Event Entry) : Prop :=
  match world.tasks label.1 with
  | .reloadWrite _ newState =>
    newState.blocked = world.shared.blocked ∧ newState.blockedTotal = world.shared.blockedTotal
  | .domainCommit _ _ previousCfg constraints newState =>
    world.shared.constraints = constraints →
      world.shared.config = previousCfg →
      newState.blocked = world.shared.blocked ∧ newState.blockedTotal = world.shared.blockedTotal
  | .forceWrite loaded => loaded.blockedTotal = world.shared.blockedTotal
  | .body (.recordBlocked _) => world.shared.blockedTotal < 2 ^ 64 - 1
  | _ => True

/-- The parts of a world that the log is about. -/
def World.log :
    List (Record Entry) × Nat × List (Record Entry) × List (Record Entry) × List (Record Entry) :=
  (world.shared.blocked, world.shared.blockedTotal, world.records, world.drained, world.evicted)

@[simp]
theorem log_setTask (id : Nat) (task : Task P (Record Entry) Entry) :
    (world.setTask id task).log = world.log :=
  rfl

variable {world : World P Entry}

theorem log_setShared {shared : ConfigState P (Record Entry)}
    (hblocked : shared.blocked = world.shared.blocked)
    (htotal : shared.blockedTotal = world.shared.blockedTotal) :
    (world.setShared shared).log = world.log := by
  simp [World.log, World.setShared, hblocked, htotal]

variable {first second : World P Entry}

theorem LogExact.of_log_eq (hlog : second.log = first.log) (hexact : LogExact first) :
    LogExact second := by
  simp only [World.log, Prod.mk.injEq] at hlog
  obtain ⟨hblocked, htotal, hrecords, hdrained, hevicted⟩ := hlog
  refine ⟨?_, ?_, ?_⟩
  · rw [hblocked, hrecords, hdrained, hevicted]
    exact hexact.accounted
  · rw [hrecords]
    exact hexact.serials
  · rw [htotal, hrecords]
    exact hexact.total

variable {loads : ConfigState P (Record Entry) → Prop} {label : Nat × Event Entry}

/-- An undisturbed step keeps the log, makes a record, or drains. -/
theorem step_log_cases (hstep : Step loads first label second)
    (hcondition : Undisturbed first label) :
    second.log = first.log ∨
    (∃ entry, first.shared.blockedTotal < 2 ^ 64 - 1 ∧ second.log = (first.record entry).log) ∨
    second.log = first.drain.log := by
  cases hstep with
  | reloadWrite htask =>
    simp only [Undisturbed, htask] at hcondition
    exact Or.inl (log_setShared hcondition.1 hcondition.2)
  | domainCommit htask hconstraints hconfig =>
    simp only [Undisturbed, htask] at hcondition
    obtain ⟨hblocked, htotal⟩ := hcondition hconstraints hconfig
    exact Or.inl (log_setShared hblocked htotal)
  | forceWrite htask =>
    simp only [Undisturbed, htask] at hcondition
    left
    rw [log_setTask]
    exact log_setShared rfl hcondition
  | recordBlocked htask =>
    simp only [Undisturbed, htask] at hcondition
    exact Or.inr (Or.inl ⟨_, hcondition, rfl⟩)
  | drainBlocked htask => exact Or.inr (Or.inr rfl)
  | replaceConfigState htask | modeCommit htask hsame => exact Or.inl (log_setShared rfl rfl)
  | _ => exact Or.inl rfl

theorem popFrontWhileOver_append (limit : Nat) (records : List (Record Entry)) :
    (popFrontWhileOver limit records).1 ++ (popFrontWhileOver limit records).2 = records := by
  induction records with
  | nil => rfl
  | cons oldest rest ih =>
    simp only [popFrontWhileOver]
    split_ifs
    · simp [ih]
    · rfl

theorem logExact_record (entry : Entry) (htotal : world.shared.blockedTotal < 2 ^ 64 - 1)
    (hexact : LogExact world) :
    LogExact (world.record entry) where
  accounted := by
    let record := (world.records.length, entry)
    have hparts := popFrontWhileOver_append maxBlockedEvents (world.shared.blocked ++ [record])
    have hbuffer : (world.record entry).drained ++
        (world.record entry).evicted ++ (world.record entry).shared.blocked =
        (world.drained ++ world.evicted ++ world.shared.blocked) ++ [record] := by
      simp only [World.record, pushBlocked, withLog, append_assoc]
      rw [hparts]
    rw [hbuffer]
    exact hexact.accounted.append_right [record]
  serials := by
    simp [World.record, hexact.serials, range_succ]
  total := by
    have hcount := hexact.total
    simp only [World.record, pushBlocked, withLog,
      saturatingSucc, length_append, length_singleton]
    omega

theorem logExact_drain (hexact : LogExact world) : LogExact world.drain where
  accounted := by
    have hmoved : (world.drain.drained ++ world.drain.evicted ++
        world.drain.shared.blocked).Perm
        (world.drained ++ world.evicted ++ world.shared.blocked) := by
      simp only [World.drain, withLog, append_nil, append_assoc]
      exact (perm_append_comm).append_left world.drained
    exact hmoved.trans hexact.accounted
  serials := hexact.serials
  total := hexact.total

theorem logExact_step (hstep : Guarded (Step loads) Undisturbed first label second)
    (hexact : LogExact first) : LogExact second := by
  rcases step_log_cases hstep.1 hstep.2 with
    hsame | ⟨entry, htotal, hrecord⟩ | hdrain
  · exact hexact.of_log_eq hsame
  · exact (logExact_record entry htotal hexact).of_log_eq hrecord
  · exact (logExact_drain hexact).of_log_eq hdrain

/-- In every state of a run of undisturbed steps, each record was returned by
one drain, or is in the buffer, or was evicted, and only one of these once;
and the total is the number of records made. -/
theorem blocked_log_exact (loads : ConfigState P (Record Entry) → Prop)
    (state : ConfigState P (Record Entry)) (hblocked : state.blocked = [])
    (htotal : state.blockedTotal = 0) (labels : List (Nat × Event Entry)) (world : World P Entry)
    (hrun : Run (Guarded (Step loads) Undisturbed) (World.initial state) labels world) :
    (world.drained ++ world.evicted ++ world.shared.blocked).Nodup ∧
    (∀ record, record ∈ world.records ↔ record ∈ world.drained ∨
      record ∈ world.evicted ∨ record ∈ world.shared.blocked) ∧
    world.shared.blockedTotal = world.records.length := by
  have hinitial : LogExact (World.initial state) := by
    refine ⟨?_, rfl, htotal⟩
    simp [World.initial, hblocked]
  have hexact : LogExact world := hrun.invariant (fun _ _ _ hstep => logExact_step hstep) hinitial
  have hrecords : world.records.Nodup := by
    apply List.Nodup.of_map Prod.fst
    rw [hexact.serials]
    exact nodup_range
  refine ⟨hexact.accounted.nodup_iff.mpr hrecords, ?_, hexact.total⟩
  intro record
  rw [← hexact.accounted.mem_iff, mem_append, mem_append, or_assoc]

end Log

namespace Witness

/-- The state built from the default configuration. -/
def defaultState : ConfigState platform (Record Unit) where
  config := {}
  brokerageCreatedDefaultAllowlist := false
  allowSet := {}
  denySet := {}
  mitm := none
  mitmHooks := ()
  constraints := {}
  blocked := []
  blockedTotal := 0

/-- A reloader that never has a new state. -/
def static (_ : ConfigState platform (Record Unit)) : Prop := False

def exampleHost : Text := "example.com".toList

theorem hosts_parsed (host : Text) (target : DomainListKind)
    (hcall : Call.updateDomainList exampleHost .allow =
      (Call.updateDomainList host target : Call platform (Record Unit) Unit)) :
    ∃ input, parseHost input = .ok host := by
  cases hcall
  exact ⟨exampleHost, by rfl⟩

/-- Task 0 updates the allowlist, and task 1 records a request before the
update takes its snapshot. -/
theorem record_before_update_accounted :
    ∃ world : World platform Unit, world.records = [(0, ())] ∧
      world.shared.blocked = [(0, ())] ∧
      DomainListKind.allow.entries world.shared.config = [exampleHost] ∧
      (world.drained ++ world.evicted ++ world.shared.blocked).Nodup := by
  have hrun : ∃ world, Run (Guarded (Step static) Undisturbed)
      (World.initial defaultState)
      [(0, .internal), (0, .internal), (1, .internal), (1, .internal),
        (1, .recorded (0, ())), (0, .internal),
        (0, .domainUpdated exampleHost .allow)] world ∧
      world.records = [(0, ())] ∧ world.shared.blocked = [(0, ())] ∧
      DomainListKind.allow.entries world.shared.config = [exampleHost] := by
    have htotal : 0 < 2 ^ 64 - 1 := by decide
    exact ⟨_, Run.cons ⟨Step.call (.updateDomainList exampleHost .allow) rfl
      hosts_parsed (by simp), trivial⟩
      (Run.cons ⟨Step.reloadNone rfl, trivial⟩
      (Run.cons ⟨Step.call (.recordBlocked ()) rfl (by simp) (by simp), trivial⟩
      (Run.cons ⟨Step.reloadNone rfl, trivial⟩
      (Run.cons ⟨Step.recordBlocked rfl, htotal⟩
      (Run.cons ⟨Step.domainSnapshot () rfl rfl, trivial⟩
      (Run.cons ⟨Step.domainCommit rfl rfl rfl, fun _ _ => ⟨rfl, rfl⟩⟩
        (Run.nil _))))))), rfl, rfl, rfl⟩
  obtain ⟨world, hrun, hrecords, hblocked, hentries⟩ := hrun
  exact ⟨world, hrecords, hblocked, hentries,
    (blocked_log_exact static defaultState rfl rfl _ world hrun).1⟩

/-- Task 1 records a request after task 0 took its snapshot of the log; the
write-back of task 0 loses the record. -/
theorem record_lost_by_stale_update :
    ∃ labels, ∃ world : World platform Unit,
      Run (Step static) (World.initial defaultState) labels world ∧
      (0, ()) ∈ world.records ∧ (0, ()) ∉ world.drained ∧
      (0, ()) ∉ world.evicted ∧ (0, ()) ∉ world.shared.blocked ∧
      world.shared.blockedTotal ≠ world.records.length := by
  refine ⟨[(0, .internal), (0, .internal), (0, .internal), (1, .internal),
      (1, .internal), (1, .recorded (0, ())),
      (0, .domainUpdated exampleHost .allow)], _,
    Run.cons (Step.call (.updateDomainList exampleHost .allow) rfl
      hosts_parsed (by simp)) (Run.cons (Step.reloadNone rfl)
    (Run.cons (Step.domainSnapshot () rfl rfl)
    (Run.cons (Step.call (.recordBlocked ()) rfl (by simp) (by simp))
    (Run.cons (Step.reloadNone rfl) (Run.cons (Step.recordBlocked rfl)
    (Run.cons (Step.domainCommit rfl rfl rfl) (Run.nil _))))))),
    ?_, ?_, ?_, ?_, ?_⟩
  all_goals decide

end Witness

end Hexa.NetworkProxy
