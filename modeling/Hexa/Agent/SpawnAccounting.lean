/-
What the counter of the agent registry stands for.  It never falls behind the
agents and reservations it counts, and is ahead of them by the agents that
commits have displaced.
-/
import Hexa.Agent.SpawnRegistry

namespace Hexa.Agent

open KeyedTable AgentMetadata ActiveAgents Option AList

variable {ThreadId : Type} [DecidableEq ThreadId]

namespace ActiveAgents

/-- The two tables name each other. -/
structure Consistent (agents : ActiveAgents ThreadId) : Prop where
  owned : ∀ thread key, agents.threadPaths.lookup thread = some key →
    ∃ metadata, agents.agentTree.lookup key = some metadata ∧ metadata.agentId = some thread
  indexed : ∀ key metadata thread,
    agents.agentTree.lookup key = some metadata →
    metadata.agentId = some thread →
    agents.threadPaths.lookup thread = some key

/-- The commit registers an agent that counts, and displaces none: neither its
thread nor its key is that of a live agent. -/
def Fresh (agents : ActiveAgents ThreadId) (metadata : AgentMetadata ThreadId) : Prop :=
  metadata.isLive = true ∧ ∀ thread, metadata.agentId = some thread →
    (∀ key, agents.threadPaths.lookup thread = some key →
      (agents.agentTree.lookup key).any AgentMetadata.isLive = false) ∧
    (agents.agentTree.lookup (metadata.key thread)).any AgentMetadata.isLive = false

variable {agents : ActiveAgents ThreadId} {thread : ThreadId} {key other : AgentKey ThreadId}
  {metadata : AgentMetadata ThreadId}

/-- What is left of the tree when a thread takes a key. -/
theorem lookup_withoutPrevious :
    (agents.withoutPrevious thread key).lookup other = some metadata ↔
      agents.agentTree.lookup other = some metadata ∧
        (agents.threadPaths.lookup thread = some other → other = key) := by
  rw [withoutPrevious]
  cases hprevious : agents.threadPaths.lookup thread with
  | none => simp
  | some previous =>
    by_cases hkey : previous = key
    · simp only [hkey, ne_eq, some.injEq]
      exact ⟨fun hlookup => ⟨hlookup, Eq.symm⟩, And.left⟩
    · simp only [hkey, ne_eq, not_false_eq_true, if_true, some.injEq]
      constructor
      · intro hlookup
        obtain ⟨hne, hlookup⟩ := lookup_of_lookup_erase hlookup
        exact ⟨hlookup, fun heq => absurd heq.symm hne⟩
      · rintro ⟨hlookup, hsame⟩
        rw [lookup_erase_ne, hlookup]
        rintro rfl
        exact hkey (hsame rfl)

/-- A thread keeps its place in the tree if it takes the key it has. -/
theorem lookup_withoutPrevious_self :
    (agents.withoutPrevious thread key).lookup key = agents.agentTree.lookup key := by
  ext metadata
  rw [lookup_withoutPrevious]
  exact ⟨And.left, fun hlookup => ⟨hlookup, fun _ => rfl⟩⟩

theorem countWhere_withoutPrevious (agents : ActiveAgents ThreadId) (thread : ThreadId)
    (key : AgentKey ThreadId) :
    ∃ lost : Nat, (agents.withoutPrevious thread key).countWhere isLive +
          lost = agents.agentTree.countWhere isLive ∧
      (lost = 0 ↔ ∀ previous, agents.threadPaths.lookup thread =
        some previous → previous ≠ key →
        (agents.agentTree.lookup previous).any isLive = false) := by
  rw [withoutPrevious]
  cases hprevious : agents.threadPaths.lookup thread with
  | none => exact ⟨0, rfl, by simp⟩
  | some previous =>
    by_cases hkey : previous = key
    · refine ⟨0, by simp [hkey], ?_⟩
      simp [hkey]
    · refine ⟨((agents.agentTree.lookup previous).any isLive).toNat, ?_, by simp [hkey]⟩
      simp only [hkey, ne_eq]
      exact countWhere_erase agents.agentTree previous

/-- How many live agents a commit displaces, and one more if what it registers
is not counted. -/
theorem countWhere_registerSpawnedThread (agents : ActiveAgents ThreadId)
    (metadata : AgentMetadata ThreadId) :
    ∃ lost : Nat, (agents.registerSpawnedThread metadata).agentTree.countWhere isLive + lost =
        agents.agentTree.countWhere isLive + 1 ∧
      (lost = 0 ↔ agents.Fresh metadata) := by
  cases hthread : metadata.agentId with
  | none =>
    refine ⟨1, by simp [registerSpawnedThread, hthread], ?_⟩
    simp [Fresh, isLive, hthread]
  | some thread =>
    let key := metadata.key thread
    let tree := agents.withoutPrevious thread key
    have hafter : (agents.registerSpawnedThread metadata).agentTree =
        tree.insert key metadata := by
      simp [registerSpawnedThread, hthread, tree, key]
    have hinsert := @countWhere_insert _ _ _ isLive tree key metadata
    have herase := @countWhere_erase _ _ _ isLive tree key
    rw [show tree.lookup key = agents.agentTree.lookup key from
      lookup_withoutPrevious_self] at herase
    obtain ⟨moved, hmoved, hmovedIff⟩ := countWhere_withoutPrevious agents thread key
    change tree.countWhere isLive + moved = _ at hmoved
    refine ⟨moved + ((agents.agentTree.lookup key).any
      isLive).toNat + (!metadata.isLive).toNat, ?_, ?_⟩
    · have hlive : metadata.isLive.toNat + (!metadata.isLive).toNat = 1 := by
        cases metadata.isLive <;> rfl
      rw [hafter]
      omega
    · rw [Nat.add_eq_zero_iff, Nat.add_eq_zero_iff, hmovedIff, Fresh]
      simp only [Bool.toNat_eq_zero, Bool.not_eq_false', hthread, some.injEq, forall_eq']
      constructor
      · rintro ⟨⟨hprevious, hkey⟩, hlive⟩
        refine ⟨hlive, fun previous hlookup => ?_, hkey⟩
        by_cases hsame : previous = key
        · rw [hsame]
          exact hkey
        · exact hprevious previous hlookup hsame
      · rintro ⟨hlive, hprevious, hkey⟩
        exact ⟨⟨fun previous hlookup _ => hprevious previous hlookup, hkey⟩, hlive⟩

section

variable (hagents : agents.Consistent)
include hagents

theorem lookup_threadPaths_iff :
    agents.threadPaths.lookup thread = some key ↔
      (agents.agentTree.lookup key).bind (·.agentId) = some thread := by
  rw [bind_eq_some_iff]
  constructor
  · exact hagents.owned thread key
  · rintro ⟨metadata, hlookup, hid⟩
    exact hagents.indexed key metadata thread hlookup hid

/-- The threads that still have their place when a thread takes a key. -/
theorem lookup_registered (hthread : metadata.agentId = some thread) {owner : ThreadId} :
    (agents.registerSpawnedThread metadata).threadPaths.lookup owner = some other ↔
      owner = thread ∧ other = metadata.key thread ∨
        owner ≠ thread ∧ other ≠ metadata.key thread ∧
          agents.threadPaths.lookup owner = some other := by
  simp only [registerSpawnedThread, hthread, lookup_withoutPrevious_self]
  set key := metadata.key thread
  have howns := fun owner => @lookup_threadPaths_iff _ _ agents owner key hagents
  have hinsert : (agents.threadPaths.insert thread key).lookup owner =
      some other ↔ owner = thread ∧ other = key ∨
        owner ≠ thread ∧ agents.threadPaths.lookup owner = some other := by
    by_cases howner : owner = thread
    · rw [howner]
      simp [eq_comm]
    · simp [howner]
  cases hprevious : (agents.agentTree.lookup key).bind (·.agentId) with
  | none =>
    simp only [hinsert]
    refine or_congr_right (and_congr_right fun _ => ?_)
    refine ⟨fun hlookup => ⟨?_, hlookup⟩, And.right⟩
    rintro rfl
    rw [(howns owner).mp hlookup] at hprevious
    cases hprevious
  | some previous =>
    by_cases hsame : previous = thread
    · simp only [hsame, ne_eq, not_true_eq_false, if_false, hinsert]
      refine or_congr_right (and_congr_right fun howner => ?_)
      refine ⟨fun hlookup => ⟨?_, hlookup⟩, And.right⟩
      rintro rfl
      rw [(howns owner).mp hlookup, some.injEq] at hprevious
      exact howner (hprevious.trans hsame)
    · simp only [hsame, ne_eq, not_false_eq_true, if_true]
      by_cases howner : owner = previous
      · rw [howner]
        have hlookup := (howns previous).mpr hprevious
        simp [hsame, hlookup, eq_comm]
      · rw [lookup_erase_ne howner, hinsert]
        refine or_congr_right (and_congr_right fun _ => ?_)
        refine ⟨fun hlookup => ⟨?_, hlookup⟩, And.right⟩
        rintro rfl
        rw [(howns owner).mp hlookup, some.injEq] at hprevious
        exact howner hprevious

theorem consistent_registerSpawnedThread (metadata : AgentMetadata ThreadId) :
    (agents.registerSpawnedThread metadata).Consistent := by
  cases hthread : metadata.agentId with
  | none => simpa [registerSpawnedThread, hthread] using hagents
  | some thread =>
    have htree : ∀ key found,
        (agents.registerSpawnedThread metadata).agentTree.lookup key = some found ↔
          key = metadata.key thread ∧ found = metadata ∨ key ≠ metadata.key thread ∧
              agents.agentTree.lookup key = some found ∧
              agents.threadPaths.lookup thread ≠ some key := by
      intro key found
      simp only [registerSpawnedThread, hthread]
      by_cases hkey : key = metadata.key thread
      · rw [hkey]
        simp [eq_comm]
      · rw [lookup_insert_ne hkey, lookup_withoutPrevious]
        simp [hkey]
    refine ⟨fun owner key hlookup => ?_, fun key found owner hfound howner => ?_⟩
    · rcases (lookup_registered hagents hthread).mp hlookup with
        ⟨rfl, rfl⟩ | ⟨howner, hkey, hlookup⟩
      · exact ⟨metadata, (htree _ _).mpr (.inl ⟨rfl, rfl⟩), hthread⟩
      · obtain ⟨found, hfound, hid⟩ := hagents.owned owner key hlookup
        refine ⟨found, (htree _ _).mpr (.inr ⟨hkey, hfound, ?_⟩), hid⟩
        intro hprevious
        obtain ⟨same, hsame, hother⟩ := hagents.owned thread key hprevious
        rw [hfound, some.injEq] at hsame
        rw [← hsame, hid, some.injEq] at hother
        exact howner hother
    · apply (lookup_registered hagents hthread).mpr
      rcases (htree _ _).mp hfound with ⟨rfl, rfl⟩ | ⟨hkey, hfound, hmoved⟩
      · rw [hthread, some.injEq] at howner
        exact .inl ⟨howner.symm, rfl⟩
      · have hlookup := hagents.indexed key found owner hfound howner
        refine .inr ⟨?_, hkey, hlookup⟩
        rintro rfl
        exact hmoved hlookup

/-- A removed agent is one that its thread owned. -/
theorem countWhere_removeThread :
    (agents.removeThread thread).1.agentTree.countWhere isLive +
        (agents.removeThread thread).2.toNat =
      agents.agentTree.countWhere isLive := by
  rw [removeThread]
  cases hkey : agents.threadPaths.lookup thread with
  | none => rfl
  | some key =>
    obtain ⟨metadata, hlookup, hid⟩ := hagents.owned thread key hkey
    have hlive : metadata.isLive = !metadata.isRoot := by simp [isLive, hid]
    have herase := @countWhere_erase _ _ _ isLive agents.agentTree key
    rw [hlookup, any_some, hlive] at herase
    simp only [hlookup]
    exact herase

theorem consistent_removeThread : (agents.removeThread thread).1.Consistent := by
  rw [removeThread]
  cases hkey : agents.threadPaths.lookup thread with
  | none => exact hagents
  | some key =>
    obtain ⟨metadata, hlookup, hid⟩ := hagents.owned thread key hkey
    simp only [hlookup]
    constructor
    · intro owner place hplace
      obtain ⟨howner, hplace⟩ := lookup_of_lookup_erase hplace
      obtain ⟨found, hfound, hfoundId⟩ := hagents.owned owner place hplace
      refine ⟨found, ?_, hfoundId⟩
      rw [lookup_erase_ne, hfound]
      rintro rfl
      rw [hlookup, some.injEq] at hfound
      rw [← hfound, hid, some.injEq] at hfoundId
      exact howner hfoundId.symm
    · intro place found owner hfound hfoundId
      obtain ⟨hplace, hfound⟩ := lookup_of_lookup_erase hfound
      have howned := hagents.indexed place found owner hfound hfoundId
      rw [lookup_erase_ne, howned]
      rintro rfl
      rw [hkey, some.injEq] at howned
      exact hplace howned.symm

/-- Paths that are taken and given back have no thread. -/
theorem consistent_reserveAgentPath {path : AgentPath} {reserved : ActiveAgents ThreadId}
    (hreserved : agents.reserveAgentPath path = some reserved) :
    reserved.Consistent ∧
      reserved.agentTree.countWhere isLive = agents.agentTree.countWhere isLive := by
  rw [reserveAgentPath] at hreserved
  split_ifs at hreserved with htaken
  cases hreserved
  have hvacant : agents.agentTree.lookup (.path path) = none := by simpa using htaken
  refine ⟨⟨fun owner key howner => ?_, fun key found owner hfound hid => ?_⟩, ?_⟩
  · obtain ⟨found, hfound, hid⟩ := hagents.owned owner key howner
    refine ⟨found, ?_, hid⟩
    rw [lookup_insert_ne, hfound]
    rintro rfl
    rw [hvacant] at hfound
    cases hfound
  · by_cases hkey : key = .path path
    · rw [hkey, lookup_insert, some.injEq] at hfound
      rw [← hfound] at hid
      cases hid
    · rw [lookup_insert_ne hkey] at hfound
      exact hagents.indexed key found owner hfound hid
  · have herase := @countWhere_erase _ _ _ isLive agents.agentTree (.path path)
    rw [hvacant] at herase
    exact herase

theorem consistent_releaseReservedAgentPath (path : AgentPath) :
    (agents.releaseReservedAgentPath path).Consistent ∧
      (agents.releaseReservedAgentPath path).agentTree.countWhere isLive =
        agents.agentTree.countWhere isLive := by
  rw [releaseReservedAgentPath]
  split_ifs with hreserved
  · obtain ⟨placeholder, hplaceholder, hnone⟩ := (any_eq_true _ _).mp hreserved
    rw [isNone_iff_eq_none] at hnone
    refine ⟨⟨fun owner key howner => ?_, fun key found owner hfound hid => ?_⟩, ?_⟩
    · obtain ⟨found, hfound, hid⟩ := hagents.owned owner key howner
      refine ⟨found, ?_, hid⟩
      rw [lookup_erase_ne, hfound]
      rintro rfl
      rw [hplaceholder, some.injEq] at hfound
      rw [← hfound, hnone] at hid
      cases hid
    · exact hagents.indexed key found owner (lookup_of_lookup_erase hfound).2 hid
    · have herase := @countWhere_erase _ _ _ isLive agents.agentTree (.path path)
      rw [hplaceholder, any_some, isLive, hnone] at herase
      exact herase
  · exact ⟨hagents, rfl⟩

end

end ActiveAgents

/-- The reservation of a slot is made with the limit. -/
def SpawnAction.LimitedTo (limit : Nat) (action : SpawnAction ThreadId) : Prop :=
  ∀ slot maxThreads, action = .reserveSpawnSlot slot maxThreads → maxThreads = some limit

namespace SpawnState

/-- By how much the counter is ahead of what it counts. -/
def surplus (state : SpawnState ThreadId) : Int :=
  state.totalCount - (state.registered + state.outstanding + state.releasing : Nat)

/-- Commits meet the condition under which they displace nobody. -/
def CommitsFresh (state : SpawnState ThreadId) (action : SpawnAction ThreadId) : Prop :=
  ∀ slot metadata, action = .commit slot metadata → state.agents.Fresh metadata

/-- What an action does to the balance of the registry. -/
structure Keeps (state : SpawnState ThreadId) (action : SpawnAction ThreadId)
    (next : SpawnState ThreadId) : Prop where
  consistent : next.agents.Consistent
  surplus_le : state.surplus ≤ next.surplus
  surplus_eq_iff : next.surplus = state.surplus ↔ CommitsFresh state action

open Keeps

/-- The actions other than commits. -/
theorem Keeps.of_balance {state next : SpawnState ThreadId} {action : SpawnAction ThreadId}
    (hconsistent : next.agents.Consistent) (hbalance : next.surplus = state.surplus)
    (hother : ∀ slot metadata, action ≠ .commit slot metadata := by exact nofun) :
    Keeps state action next where
  consistent := hconsistent
  surplus_le := Int.le_of_eq hbalance.symm
  surplus_eq_iff := ⟨fun _ slot metadata hcommit =>
    absurd hcommit (hother slot metadata), fun _ => hbalance⟩

variable {state next : SpawnState ThreadId} {action : SpawnAction ThreadId}

theorem outstanding_insert_of_mem {slot : Nat} {held found : SpawnReservation}
    (hfound : state.reservations.lookup slot = some found) :
    (state.reservations.insert slot held).keys.length = state.reservations.keys.length :=
  length_keys_insert_of_mem (mem_of_lookup hfound) held

theorem step_keeps (hagents : state.agents.Consistent) (hstep : Step state action next) :
    Keeps state action next := by
  rw [Step] at hstep
  cases action with
  | reserveSpawnSlot slot maxThreads =>
    simp only [perform] at hstep
    split_ifs at hstep with hfree hadmits
    · cases hstep
      have hslot : slot ∉ state.reservations := by
        rw [← lookup_eq_none]
        simpa using hfree
      refine of_balance hagents ?_
      simp only [surplus, registered, outstanding, length_keys_insert_of_notMem hslot]
      omega
    · cases hstep
      exact of_balance hagents rfl
  | reserveAgentPath slot path =>
    simp only [perform] at hstep
    split at hstep
    next hslot =>
      split at hstep
      next agents hreserved =>
        cases hstep
        obtain ⟨hconsistent, hcount⟩ := consistent_reserveAgentPath hagents hreserved
        refine of_balance hconsistent ?_
        simp only [surplus, registered, outstanding, hcount, outstanding_insert_of_mem hslot]
      · cases hstep
        exact of_balance hagents rfl
    · cases hstep
  | commit slot metadata =>
    simp only [perform] at hstep
    split at hstep
    next hslot =>
      cases hstep
      obtain ⟨lost, hcount, hlost⟩ := state.agents.countWhere_registerSpawnedThread metadata
      have hslots := length_keys_erase (mem_of_lookup hslot)
      refine ⟨consistent_registerSpawnedThread hagents metadata, ?_, ?_⟩
      · simp only [surplus, registered, outstanding]
        omega
      · have hfresh : CommitsFresh state (.commit slot metadata) ↔ lost = 0 := by
          rw [hlost]
          refine ⟨fun hfresh => hfresh slot metadata rfl, ?_⟩
          rintro hfresh _ _ ⟨rfl, rfl⟩
          exact hfresh
        rw [hfresh]
        simp only [surplus, registered, outstanding]
        omega
    · cases hstep
  | drop slot =>
    simp only [perform] at hstep
    split at hstep
    next path hslot =>
      cases hstep
      have hslots := @outstanding_insert_of_mem _ _ state slot .dropping _ hslot
      cases path with
      | none =>
        refine of_balance hagents ?_
        simp only [surplus, registered, outstanding, hslots]
      | some path =>
        obtain ⟨hconsistent, hcount⟩ := consistent_releaseReservedAgentPath hagents path
        refine of_balance hconsistent ?_
        simp only [surplus, registered, outstanding, hslots, hcount]
    · cases hstep
  | uncountDropped slot =>
    simp only [perform] at hstep
    split at hstep
    next hslot =>
      cases hstep
      have hslots := length_keys_erase (mem_of_lookup hslot)
      refine of_balance hagents ?_
      simp only [surplus, registered, outstanding]
      omega
    · cases hstep
  | releaseSpawnedThread thread =>
    simp only [perform] at hstep
    cases hstep
    have hcount := @countWhere_removeThread _ _ state.agents thread hagents
    refine of_balance (consistent_removeThread hagents) ?_
    simp only [surplus, registered, outstanding]
    omega
  | uncountReleased =>
    simp only [perform] at hstep
    split_ifs at hstep with hnone
    cases hstep
    refine of_balance hagents ?_
    simp only [surplus, registered, outstanding]
    omega

/-- The root thread comes into an empty registry as any other would. -/
theorem initial_consistent (root : Option ThreadId) : (initial root).agents.Consistent := by
  have hempty : ({} : ActiveAgents ThreadId).Consistent := ⟨nofun, nofun⟩
  cases root with
  | none => exact hempty
  | some root => exact consistent_registerSpawnedThread hempty ⟨some root, some .root⟩

/-- The counter never falls behind in a run, and stays where it is exactly if
every commit of the run is a fresh one. -/
theorem run_surplus {first last : SpawnState ThreadId} {actions : List (SpawnAction ThreadId)}
    (hrun : Run Step first actions last) (hagents : first.agents.Consistent) :
    first.surplus ≤ last.surplus ∧
      (last.surplus = first.surplus ↔ Run (Guarded Step CommitsFresh) first actions last) := by
  induction hrun with
  | nil state => exact ⟨Int.le_refl _, fun _ => Run.nil state, fun _ => rfl⟩
  | @cons first second last action actions hstep hrest ih =>
    have hkeeps := step_keeps hagents hstep
    obtain ⟨hle, hiff⟩ := ih hkeeps.consistent
    refine ⟨Int.le_trans hkeeps.surplus_le hle, fun heq => ?_, fun hguarded => ?_⟩
    · have hsecond : second.surplus = first.surplus :=
        Int.le_antisymm (heq ▸ hle) hkeeps.surplus_le
      exact Run.cons ⟨hstep, hkeeps.surplus_eq_iff.mp hsecond⟩ (hiff.mp (heq.trans hsecond.symm))
    · cases hguarded with
    | cons hfirst hlater =>
      have hsame := some.inj (hstep.symm.trans hfirst.1)
      rw [← hsame] at hlater
      exact (hiff.mpr hlater).trans (hkeeps.surplus_eq_iff.mpr hfirst.2)

/-- No action brings the counter over a limit that slots are reserved with. -/
theorem step_limited {limit : Nat} (hstep : Step state action next)
    (hlimited : action.LimitedTo limit) (hle : state.totalCount ≤ limit) :
    next.totalCount ≤ limit := by
  rw [Step] at hstep
  cases action with
  | reserveSpawnSlot slot maxThreads =>
    obtain rfl := hlimited slot maxThreads rfl
    simp only [perform] at hstep
    split_ifs at hstep with hfree hadmits
    · cases hstep
      have hlt : state.totalCount < limit := by simpa [admits] using hadmits
      exact hlt
    · cases hstep
      exact hle
  | reserveAgentPath slot path =>
    simp only [perform] at hstep
    split at hstep
    · split at hstep <;> cases hstep <;> exact hle
    · cases hstep
  | commit slot metadata | drop slot =>
    simp only [perform] at hstep
    split at hstep <;> cases hstep
    exact hle
  | uncountDropped slot =>
    simp only [perform] at hstep
    split at hstep <;> cases hstep
    exact Int.le_trans (Int.sub_le_self _ (by decide)) hle
  | releaseSpawnedThread thread =>
    cases hstep
    exact hle
  | uncountReleased =>
    simp only [perform] at hstep
    split_ifs at hstep
    cases hstep
    exact Int.le_trans (Int.sub_le_self _ (by decide)) hle

/-- The counter never underflows nor exceeds the limit that slots are reserved
with.  It is the number of registered agents and reservations exactly if no
commit of the run displaced an agent or registered none, and no release call
is between the removal of its agent and the counter. -/
theorem spawn_accounting {root : Option ThreadId} {actions : List (SpawnAction ThreadId)}
    (hrun : Run Step (initial root) actions state) :
    0 ≤ state.totalCount ∧
      (∀ limit : Nat, (∀ action ∈ actions, action.LimitedTo limit) → state.totalCount ≤ limit) ∧
      (state.totalCount = (state.registered + state.outstanding : Nat) ↔
        Run (Guarded Step CommitsFresh) (initial root) actions state ∧ state.releasing = 0) := by
  obtain ⟨hle, hiff⟩ := run_surplus hrun (initial_consistent root)
  rw [show (initial root).surplus = 0 by cases root <;> rfl] at hle hiff
  have htotal : state.surplus = state.totalCount -
      (state.registered + state.outstanding + state.releasing : Nat) := rfl
  refine ⟨by omega, fun limit hlimited => ?_, ?_⟩
  · have hkeeps : ∀ (first : SpawnState ThreadId) action second,
        Step first action second → action.LimitedTo limit →
        first.totalCount ≤ limit → second.totalCount ≤ limit :=
      fun first action second => step_limited
    refine hrun.keeps hkeeps hlimited ?_
    cases root <;> exact Int.natCast_nonneg limit
  · rw [← hiff]
    omega

/-- In every run the two tables of the registry agree: a thread leads to the
agent that it runs, and every agent that runs is found by its thread. -/
theorem thread_index_exact {root : Option ThreadId} {actions : List (SpawnAction ThreadId)}
    (hrun : Run Step (initial root) actions state) : state.agents.Consistent :=
  @Run.invariant _ _ _ (fun state : SpawnState ThreadId => state.agents.Consistent)
    (fun _ _ _ hstep hfirst => (step_keeps hfirst hstep).consistent) _ _ _ hrun
    (initial_consistent root)

omit [DecidableEq ThreadId]

/-- An agent with a path, and a reservation that is dropped. -/
def spawnAndDrop : List (SpawnAction Nat) :=
  [.reserveSpawnSlot 0 (some 2), .reserveSpawnSlot 1 (some 2),
    .reserveAgentPath 0 ⟨"/root/a".toList⟩,
    .commit 0 ⟨some 7, some ⟨"/root/a".toList⟩⟩, .drop 1, .uncountDropped 1]

theorem spawn_accounting_spawnAndDrop :
    ∃ state, Run (Guarded Step CommitsFresh) (initial (some 1)) spawnAndDrop
        state ∧ state.releasing = 0 ∧ state.totalCount = 1 ∧ state.totalCount ≤ 2 := by
  have hrun := Run.of_performAll (rfl : performAll perform (initial (some 1))
    spawnAndDrop = some _)
  obtain ⟨-, hlimit, hiff⟩ := spawn_accounting hrun
  obtain ⟨hguarded, hreleasing⟩ := hiff.mp rfl
  refine ⟨_, hguarded, hreleasing, rfl, hlimit 2 ?_⟩
  simp [spawnAndDrop, SpawnAction.LimitedTo]

theorem thread_index_exact_spawnAndDrop :
    ∃ state, Run Step (initial (some 1)) spawnAndDrop state ∧ state.agents.Consistent := by
  have hrun := Run.of_performAll (rfl : performAll perform (initial (some 1))
    spawnAndDrop = some _)
  exact ⟨_, hrun, thread_index_exact hrun⟩

/-- Two reservations committed for one thread. -/
def spawnTwice : List (SpawnAction Nat) :=
  [.reserveSpawnSlot 0 (some 2), .reserveSpawnSlot 1 (some 2),
    .commit 0 ⟨some 7, none⟩, .commit 1 ⟨some 7, none⟩]

/-- The first of the two agents is gone and still counted. -/
theorem displaced_agent_counted :
    ∃ state, Run Step (initial (some 1)) spawnTwice state ∧
      state.releasing = 0 ∧ state.totalCount = 2 ∧
      state.registered + state.outstanding = 1 :=
  ⟨_, Run.of_performAll (rfl : performAll perform (initial (some 1))
    spawnTwice = some _), rfl, rfl, rfl⟩

end SpawnState

end Hexa.Agent
