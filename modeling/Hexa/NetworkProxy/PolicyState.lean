/-
The policy part of the shared state: its compiled sets belong to its own
configuration, its configuration meets its constraints, and an update that
returned is not lost to a concurrent one.
-/
import Hexa.NetworkProxy.BlockedLog

namespace Hexa.NetworkProxy

open List NetworkProxyConfig

section Entries

variable (entries : List NetworkDomainPermissionEntry) (entry : NetworkDomainPermissionEntry)

/-- The entry is the strongest one for its pattern. -/
def Strongest : Prop :=
  entry ∈ entries ∧ ∀ other ∈ entries, other.pattern = entry.pattern →
    other.permission.rank ≤ entry.permission.rank

theorem rank_injective {left right : NetworkDomainPermission} (hrank : left.rank = right.rank) :
    left = right := by
  cases left <;> cases right <;> simp_all [NetworkDomainPermission.rank]

variable {entries : List NetworkDomainPermissionEntry}

theorem exists_strongest {entry : NetworkDomainPermissionEntry} (hmem : entry ∈ entries) :
    ∃ strongest, Strongest entries strongest ∧ strongest.pattern = entry.pattern := by
  let same := (entries.filter (·.pattern = entry.pattern)).toFinset
  have hsame : same.Nonempty := ⟨entry, by simp [same, hmem]⟩
  obtain ⟨strongest, hstrongest, hmax⟩ := same.exists_max_image (·.permission.rank) hsame
  simp only [same, mem_toFinset, mem_filter, decide_eq_true_eq] at hstrongest hmax
  refine ⟨strongest, ⟨hstrongest.1, ?_⟩, hstrongest.2⟩
  intro other hother hpattern
  exact hmax other ⟨hother, hpattern.trans hstrongest.2⟩

theorem strongest_append_singleton {added entry : NetworkDomainPermissionEntry} :
    Strongest (entries ++ [added]) entry ↔
      (entry = added ∧ ∀ other ∈ entries, other.pattern = added.pattern →
        other.permission.rank ≤ added.permission.rank) ∨
      (Strongest entries entry ∧ (added.pattern = entry.pattern →
        added.permission.rank ≤ entry.permission.rank)) := by
  simp only [Strongest, mem_append, mem_singleton]
  constructor
  · rintro ⟨hmem | rfl, hmax⟩
    · exact .inr ⟨⟨hmem, fun other hother => hmax other (.inl hother)⟩, hmax added (.inr rfl)⟩
    · exact .inl ⟨rfl, fun other hother => hmax other (.inl hother)⟩
  · rintro (⟨rfl, hmax⟩ | ⟨⟨hmem, hmax⟩, hadded⟩)
    · refine ⟨.inr rfl, ?_⟩
      rintro other (hother | rfl) hpattern
      · exact hmax other hother hpattern
      · exact Nat.le_refl _
    · refine ⟨.inl hmem, ?_⟩
      rintro other (hother | rfl) hpattern
      · exact hmax other hother hpattern
      · exact hadded hpattern

theorem mem_addEffectiveEntry {effective : List NetworkDomainPermissionEntry}
    (heffective : ∀ entry, entry ∈ effective ↔ Strongest entries entry)
    (added entry : NetworkDomainPermissionEntry) :
    entry ∈ addEffectiveEntry effective added ↔ Strongest (entries ++ [added]) entry := by
  rw [strongest_append_singleton]
  simp only [addEffectiveEntry, any_eq_true, beq_iff_eq]
  split_ifs with hknown
  · -- The pattern is known: its entry is kept or gives way to the new one.
    obtain ⟨known, hmem, hpattern⟩ := hknown
    have hstrongest := (heffective known).mp hmem
    simp only [mem_map]
    constructor
    · rintro ⟨old, hold, hentry⟩
      have holdStrongest := (heffective old).mp hold
      split_ifs at hentry with hreplaced
      · left
        refine ⟨hentry.symm, ?_⟩
        intro other hother hsame
        have := holdStrongest.2 other hother (hsame.trans hreplaced.1.symm)
        omega
      · subst hentry
        refine .inr ⟨holdStrongest, fun hsame => ?_⟩
        by_contra hlt
        exact hreplaced ⟨hsame.symm, by omega⟩
    · rintro (⟨rfl, hmax⟩ | ⟨hentry, hadded⟩)
      · by_cases hlt : known.permission.rank < entry.permission.rank
        · exact ⟨known, hmem, by simp [hpattern, hlt]⟩
        · refine ⟨known, hmem, ?_⟩
          have hle := hmax known hstrongest.1 hpattern
          have hpermission : known.permission = entry.permission := rank_injective (by omega)
          cases known
          simp_all
      · refine ⟨entry, (heffective entry).mpr hentry, ?_⟩
        split_ifs with hreplaced
        · have := hadded hreplaced.1.symm
          omega
        · rfl
  · -- The pattern is new.
    have hfresh : ∀ other ∈ entries, other.pattern ≠ added.pattern := by
      intro other hother hsame
      obtain ⟨strongest, hstrongest, hpattern⟩ := exists_strongest hother
      exact hknown ⟨strongest, (heffective strongest).mpr hstrongest, hpattern.trans hsame⟩
    rw [mem_append, mem_singleton, heffective]
    constructor
    · rintro (hentry | rfl)
      · exact .inr ⟨hentry, fun hsame => absurd hsame.symm (hfresh entry hentry.1)⟩
      · exact .inl ⟨rfl, fun other hother hsame => absurd hsame (hfresh other hother)⟩
    · rintro (⟨rfl, -⟩ | ⟨hentry, -⟩)
      · exact .inr rfl
      · exact .inl hentry

/-- The effective entries are the strongest ones. -/
theorem mem_effectiveEntries : entry ∈ effectiveEntries entries ↔ Strongest entries entry := by
  induction entries using List.reverseRecOn generalizing entry with
  | nil => simp [effectiveEntries, Strongest]
  | append_singleton entries added ih =>
    rw [effectiveEntries, foldl_append]
    exact mem_addEffectiveEntry ih added entry

variable {Hook : Type} (config : NetworkProxyConfig Hook)

theorem mem_domainEntries (permission : NetworkDomainPermission) (pattern : Text) :
    pattern ∈ (config.domainEntries permission).getD [] ↔
      Strongest (config.domains.getD []) ⟨pattern, permission⟩ := by
  have hlist : (config.domainEntries permission).getD [] = config.domainEntryList permission := by
    simp only [domainEntries]
    split_ifs with hempty
    · exact hempty.symm
    · rfl
  rw [hlist, ← mem_effectiveEntries, domainEntryList]
  cases config.domains with
  | none => simp [effectiveEntries]
  | some entries =>
    simp only [mem_map, mem_filter, beq_iff_eq]
    constructor
    · rintro ⟨entry, ⟨hmem, rfl⟩, rfl⟩
      exact hmem
    · intro hmem
      exact ⟨_, ⟨hmem, rfl⟩, rfl⟩

theorem mem_deniedDomains (pattern : Text) :
    pattern ∈ config.deniedDomains.getD [] ↔ ⟨pattern, .deny⟩ ∈ config.domains.getD [] := by
  rw [deniedDomains, mem_domainEntries]
  constructor
  · exact fun hstrongest => hstrongest.1
  · intro hmem
    refine ⟨hmem, fun other _ _ => ?_⟩
    cases other.permission <;> simp [NetworkDomainPermission.rank]

theorem someIfNonempty_getD : (someIfNonempty entries).getD [] = entries := by
  simp only [someIfNonempty]
  split_ifs with hempty
  · exact hempty.symm
  · rfl

end Entries

theorem validateNonGlobalWildcardDomainPatterns_eq_ok_iff {fieldName : String}
    {patterns : List Text} :
    validateNonGlobalWildcardDomainPatterns fieldName patterns = .ok () ↔
      ∀ pattern ∈ patterns, isGlobalWildcardDomainPattern pattern = false := by
  simp only [validateNonGlobalWildcardDomainPatterns]
  cases hfind : patterns.find? isGlobalWildcardDomainPattern with
  | none => simpa using hfind
  | some pattern =>
    simp only [reduceCtorEq, false_iff, not_forall]
    exact ⟨pattern, mem_of_find?_eq_some hfind, by simp [find?_some hfind]⟩

/-- The check of the denylist looks at it as a set. -/
theorem validateManagedDenylist_congr {constraints : NetworkProxyConstraints}
    {left right : List Text} (hsame : ∀ entry, entry ∈ left ↔ entry ∈ right)
    (hleft : validateManagedDenylist constraints left = .ok ()) :
    validateManagedDenylist constraints right = .ok () := by
  have hlowered : ∀ entry, entry ∈ lowered left ↔ entry ∈ lowered right := by
    intro entry
    simp [lowered, hsame]
  simp only [validateManagedDenylist] at hleft ⊢
  split at hleft
  · rfl
  next managed hmanaged =>
    rw [bind_eq_ok_iff] at hleft ⊢
    obtain ⟨_, hscoped, hleft⟩ := hleft
    refine ⟨(), hscoped, ?_⟩
    simp only [validateDeniedDomains, hlowered] at hleft ⊢
    split at hleft
    · split_ifs at hleft ⊢
      rfl
    · exact hleft

section Build

variable {P : Platform} {Blocked : Type}

/-- The configuration needs no change for its credential broker. -/
structure BrokerSettled (config : NetworkProxyConfig P.Hook)
    (constraints : NetworkProxyConstraints) : Prop where
  enabled : brokerageCreatedProxy config = false
  permitted : constraints.enabled = some false → config.credentialBroker = false

/-- The policy part of a state is consistent. -/
structure PolicyOk (state : ConfigState P Blocked) : Prop where
  allowCompiled : compileAllowlistGlobset P.glob
    (state.config.allowedDomains.getD []) = .ok state.allowSet
  denyCompiled : compileDenylistGlobset P.glob
    (state.config.deniedDomains.getD []) = .ok state.denySet
  meets : validatePolicyAgainstConstraints state.config state.constraints = .ok ()
  settled : BrokerSettled state.config state.constraints

/-- The states that callers hand in: built from a configuration that the check
accepted. -/
def BuiltFromValidated (state : ConfigState P Blocked) : Prop :=
  ∃ outside config constraints, validatePolicyAgainstConstraints config constraints = .ok () ∧
      buildConfigState outside config constraints = .ok state

variable {config : NetworkProxyConfig P.Hook} {constraints : NetworkProxyConstraints}
  {state : ConfigState P Blocked}

/-- What a build that succeeded has done. -/
theorem buildConfigState_eq_ok {outside : P.Outside}
    (hbuild : buildConfigState outside config constraints = .ok state) :
    state.config = brokered (withoutForbiddenBroker config constraints) constraints ∧
    state.constraints = constraints ∧
    compileAllowlistGlobset P.glob (state.config.allowedDomains.getD []) = .ok state.allowSet ∧
    compileDenylistGlobset P.glob (state.config.deniedDomains.getD []) = .ok state.denySet ∧
    validateNonGlobalWildcardDomainPatterns "network.denied_domains"
      (state.config.deniedDomains.getD []) = .ok () ∧
    validateMitmHookConfig state.config = .ok () := by
  simp only [buildConfigState, bind_eq_ok_iff, mapError_eq_ok_iff, Except.ok.injEq] at hbuild
  obtain ⟨_, -, _, -, _, hscoped, denySet, hdeny, allowSet, hallow, mitmHooks,
    hhooks, mitm, -, rfl⟩ := hbuild
  refine ⟨rfl, rfl, hallow, hdeny, hscoped, ?_⟩
  simp only [compileMitmHooks] at hhooks
  split at hhooks
  · cases hhooks
  next hvalid => exact hvalid

theorem brokered_eq_self (hsettled : BrokerSettled config constraints) :
    brokered (withoutForbiddenBroker config constraints) constraints = config := by
  have hwithout : withoutForbiddenBroker config constraints = config := by
    simp only [withoutForbiddenBroker]
    split_ifs with hdisabled
    · rw [← hsettled.permitted hdisabled]
    · rfl
  rw [hwithout]
  simp [brokered, createdDefaultAllowlist, hsettled.enabled]

section

variable (config : NetworkProxyConfig P.Hook) (constraints : NetworkProxyConstraints)

theorem withoutForbiddenBroker_permitted (hdisabled : constraints.enabled = some false) :
    (withoutForbiddenBroker config constraints).credentialBroker = false := by
  simp [withoutForbiddenBroker, hdisabled]

theorem mem_deniedDomains_setAllowedDomains (pattern : Text) :
    pattern ∈ (config.setAllowedDomains [['*']]).deniedDomains.getD [] ↔
      pattern ∈ config.deniedDomains.getD [] := by
  rw [mem_deniedDomains, mem_deniedDomains]
  simp only [setAllowedDomains, setDomainEntries, someIfNonempty_getD, foldl_cons, addDomainEntry]
  split_ifs
  · simp
  · simp

theorem mem_deniedDomains_brokered (pattern : Text) :
    pattern ∈ (brokered config constraints).deniedDomains.getD [] ↔
      pattern ∈ config.deniedDomains.getD [] := by
  simp only [brokered]
  split_ifs
  · exact mem_deniedDomains_setAllowedDomains _ pattern
  · exact mem_deniedDomains_setAllowedDomains _ pattern
  · exact Iff.rfl
  · exact Iff.rfl

theorem brokered_settled :
    BrokerSettled
      (brokered (withoutForbiddenBroker config constraints) constraints)
      constraints where
  enabled := by
    simp only [brokered]
    split_ifs with hdefault hcreated hcreated
    · simp [brokerageCreatedProxy, setAllowedDomains, setDomainEntries]
    · simpa [brokerageCreatedProxy, setAllowedDomains, setDomainEntries] using hcreated
    · simp [brokerageCreatedProxy]
    · simpa using hcreated
  permitted := by
    intro hdisabled
    have hbroker := withoutForbiddenBroker_permitted config constraints hdisabled
    simp [brokered, createdDefaultAllowlist, brokerageCreatedProxy, hbroker]

end

/-- Only two checks look at the switch of the proxy and at the mode, and none
at the credential broker. -/
theorem MeetsConstraints.change (hmeets : MeetsConstraints config constraints)
    (enabled credentialBroker : Bool) (mode : NetworkMode)
    (henabled : requireDisabled "network.enabled" enabled
      (constraints.enabled.getD true) = .ok ())
    (hmode : validateMode mode constraints.mode = .ok ()) :
    MeetsConstraints { config with enabled, credentialBroker, mode } constraints :=
  ⟨hmeets.hooks, hmeets.deniedScoped, henabled, hmode, hmeets.upstream,
    hmeets.loopback, hmeets.allUnixSockets, hmeets.localBinding,
    hmeets.allowlist, hmeets.denylist, hmeets.unixSockets⟩

/-- The changes for the credential broker stay within the constraints. -/
theorem brokered_meets
    (hpermitted : constraints.enabled = some false → config.credentialBroker = false)
    (hmeets : MeetsConstraints config constraints) :
    MeetsConstraints (brokered config constraints) constraints := by
  by_cases hcreated : brokerageCreatedProxy config = true
  · have hon : constraints.enabled.getD true = true := by
      cases henabled : constraints.enabled with
      | none => rfl
      | some enabled =>
        cases enabled with
        | true => rfl
        | false =>
          have hoff := hpermitted henabled
          simp [brokerageCreatedProxy, hoff] at hcreated
    have henabledOk : requireDisabled "network.enabled" true
        (constraints.enabled.getD true) = .ok () := by
      simp [requireDisabled, hon]
    have henabled : MeetsConstraints { config with enabled := true }
        constraints :=
      hmeets.change true config.credentialBroker config.mode henabledOk hmeets.mode
    have hdenied := mem_deniedDomains_brokered config constraints
    simp only [brokered] at hdenied ⊢
    split_ifs at hdenied ⊢ with hdefault
    · have hunmanaged : constraints.allowedDomains = none := by
        simp only [createdDefaultAllowlist, Bool.and_eq_true,
          Option.isNone_iff_eq_none] at hdefault
        exact hdefault.2
      refine ⟨henabled.hooks, ?_, henabled.enabled, henabled.mode,
        henabled.upstream, henabled.loopback, henabled.allUnixSockets,
        henabled.localBinding, ?_, ?_, henabled.unixSockets⟩
      · rw [validateNonGlobalWildcardDomainPatterns_eq_ok_iff]
        intro pattern hpattern
        exact validateNonGlobalWildcardDomainPatterns_eq_ok_iff.mp
          hmeets.deniedScoped pattern ((hdenied pattern).mp hpattern)
      · simp [validateManagedAllowlist, hunmanaged]
      · exact validateManagedDenylist_congr (fun entry => (hdenied entry).symm) hmeets.denylist
    · exact henabled
  · have hunchanged : brokered config constraints = config := by
      simp [brokered, createdDefaultAllowlist, hcreated]
    rw [hunchanged]
    exact hmeets

theorem withoutForbiddenBroker_meets (hmeets : MeetsConstraints config constraints) :
    MeetsConstraints (withoutForbiddenBroker config constraints) constraints := by
  simp only [withoutForbiddenBroker]
  split_ifs
  · exact hmeets.change config.enabled false config.mode hmeets.enabled hmeets.mode
  · exact hmeets

/-- A state built from an accepted configuration is consistent. -/
theorem BuiltFromValidated.policyOk (hbuilt : BuiltFromValidated state) : PolicyOk state := by
  obtain ⟨outside, config, constraints, hvalid, hbuild⟩ := hbuilt
  obtain ⟨hconfig, hconstraints, hallow, hdeny, -, -⟩ := buildConfigState_eq_ok hbuild
  refine ⟨hallow, hdeny, ?_, ?_⟩
  · rw [hconfig, hconstraints, validatePolicyAgainstConstraints_eq_ok_iff]
    apply brokered_meets
    · exact withoutForbiddenBroker_permitted config constraints
    · exact withoutForbiddenBroker_meets (validatePolicyAgainstConstraints_eq_ok_iff.mp hvalid)
  · rw [hconfig, hconstraints]
    exact brokered_settled config constraints

end Build

variable {mode : NetworkMode}

section Updates

variable {P : Platform} {Blocked : Type}

/-- The configuration lists the host, as it stands or in another spelling. -/
def Present (host : Text) (target : DomainListKind) (config : NetworkProxyConfig P.Hook) : Prop :=
  ∃ entry ∈ target.entries config, entry = host ∨ normalizeHost entry = host

theorem mem_entries (target : DomainListKind) (config : NetworkProxyConfig P.Hook)
    (pattern : Text) :
    pattern ∈ target.entries config ↔
      Strongest (config.domains.getD []) ⟨pattern, target.permission⟩ := by
  cases target with
  | allow => exact mem_domainEntries config .allow pattern
  | deny => exact mem_domainEntries config .deny pattern

section

variable (config : NetworkProxyConfig P.Hook) (host : Text) (target : DomainListKind)
include host

theorem domains_domainCandidate :
    (domainCandidate config host target).domains.getD [] =
      (config.domains.getD []).filter (fun entry =>
        normalizeHost entry.pattern ≠ normalizeHost host) ++
        [⟨host, target.permission⟩] := by
  rw [domainCandidate, upsertDomainPermission, someIfNonempty_getD]

theorem present_domainCandidate : Present host target (domainCandidate config host target) := by
  refine ⟨host, ?_, .inl rfl⟩
  rw [mem_entries, domains_domainCandidate, strongest_append_singleton]
  refine .inl ⟨rfl, fun other hother hpattern => ?_⟩
  -- Every old entry for the pattern is filtered out.
  simp only [mem_filter, decide_eq_true_eq] at hother
  exact absurd (by rw [hpattern]) hother.2

end

variable {target : DomainListKind} {host : Text} {config : NetworkProxyConfig P.Hook}

theorem Present.domainCandidate {other : Text} {kind : DomainListKind}
    (hpresent : Present host target config) (hhost : normalizeHost other ≠ normalizeHost host)
    (hspelling : normalizeHost other ≠ host) :
    Present host target (domainCandidate config other kind) := by
  obtain ⟨entry, hentry, hsame⟩ := hpresent
  have hdistinct : normalizeHost entry ≠ normalizeHost other := by
    rcases hsame with rfl | rfl
    · exact hhost.symm
    · exact hspelling.symm
  refine ⟨entry, ?_, hsame⟩
  rw [mem_entries] at hentry
  rw [mem_entries, domains_domainCandidate, strongest_append_singleton]
  refine .inr ⟨⟨?_, ?_⟩, ?_⟩
  · exact mem_filter.mpr ⟨hentry.1, by simpa using hdistinct⟩
  · intro found hfound hpattern
    exact hentry.2 found (mem_filter.mp hfound).1 hpattern
  · intro hpattern
    simp only at hpattern
    exact absurd (by rw [hpattern]) hdistinct

theorem present_of_alreadyListed (hlisted : alreadyListed config host target = true) :
    Present host target config := by
  simp only [alreadyListed, Bool.and_eq_true, any_eq_true, beq_iff_eq] at hlisted
  obtain ⟨⟨entry, hentry, hnormal⟩, -⟩ := hlisted
  exact ⟨entry, hentry, .inr hnormal⟩

variable {state : ConfigState P Blocked}

/-- What a prepared update stores. -/
theorem prepareDomainUpdate_ready {outside : P.Outside} {newState : ConfigState P Blocked}
    (hstate : PolicyOk state)
    (hprepared : prepareDomainUpdate outside state host target = .ready newState) :
    PolicyOk newState ∧ newState.constraints = state.constraints ∧
      newState.config = domainCandidate state.config host target := by
  simp only [prepareDomainUpdate] at hprepared
  split_ifs at hprepared
  split at hprepared
  · cases hprepared
  next hvalid =>
    split at hprepared
    · cases hprepared
    next built hbuild =>
      cases hprepared
      have hok := BuiltFromValidated.policyOk ⟨outside, _, _, hvalid, hbuild⟩
      obtain ⟨hconfig, hconstraints, -⟩ := buildConfigState_eq_ok hbuild
      have hsettled : BrokerSettled (domainCandidate state.config host target)
          state.constraints := ⟨hstate.settled.enabled,
        hstate.settled.permitted⟩
      refine ⟨⟨hok.allowCompiled, hok.denyCompiled, hok.meets, hok.settled⟩, hconstraints, ?_⟩
      exact hconfig.trans (brokered_eq_self hsettled)

theorem prepareDomainUpdate_present {outside : P.Outside}
    (hprepared : prepareDomainUpdate outside state host target = .present) :
    Present host target state.config := by
  simp only [prepareDomainUpdate] at hprepared
  split_ifs at hprepared with hlisted
  · exact present_of_alreadyListed hlisted
  · split at hprepared
    · cases hprepared
    · split at hprepared <;> cases hprepared

theorem PolicyOk.withMode (hstate : PolicyOk state)
    (hmode : validateMode mode state.constraints.mode = .ok ()) :
    PolicyOk (state.withMode mode) := by
  have hmeets := validatePolicyAgainstConstraints_eq_ok_iff.mp hstate.meets
  refine ⟨hstate.allowCompiled, hstate.denyCompiled, ?_,
    ⟨hstate.settled.enabled, hstate.settled.permitted⟩⟩
  rw [validatePolicyAgainstConstraints_eq_ok_iff]
  exact hmeets.change state.config.enabled state.config.credentialBroker mode hmeets.enabled hmode

theorem PolicyOk.withLog (hstate : PolicyOk state) (blocked : List Blocked) (total : Nat) :
    PolicyOk (state.withLog blocked total) :=
  ⟨hstate.allowCompiled, hstate.denyCompiled, hstate.meets,
    ⟨hstate.settled.enabled, hstate.settled.permitted⟩⟩

end Updates

section Worlds

variable {P : Platform} {Entry : Type}

/-- The state that a call brings along is consistent. -/
def CallOk : Call P (Record Entry) Entry → Prop
  | .replaceConfigState newState => PolicyOk newState
  | _ => True

/-- What a task carries from one section to the next is consistent. -/
def TaskOk : Task P (Record Entry) Entry → Prop
  | .reloading call => CallOk call
  | .body call => CallOk call
  | .reloadSnapshot call loaded => CallOk call ∧ PolicyOk loaded
  | .reloadWrite call newState => CallOk call ∧ PolicyOk newState
  | .modeCommit mode constraints => validateMode mode constraints.mode = .ok ()
  | .domainCommit host target previousCfg constraints newState =>
    PolicyOk newState ∧ newState.constraints = constraints ∧
      newState.config = domainCandidate previousCfg host target
  | .forceWrite loaded => PolicyOk loaded
  | .idle => True
  | .forcing => True

structure PolicyInvariant (world : World P Entry) : Prop where
  shared : PolicyOk world.shared
  tasks : ∀ id, TaskOk (world.tasks id)

variable {world : World P Entry}

section

variable (hinvariant : PolicyInvariant world)
include hinvariant

variable {task : Task P (Record Entry) Entry}

theorem PolicyInvariant.setTask (id : Nat) (htask : TaskOk task) :
    PolicyInvariant (world.setTask id task) where
  shared := hinvariant.shared
  tasks other := by
    simp only [World.setTask, Function.update_apply]
    split_ifs
    · exact htask
    · exact hinvariant.tasks other

theorem PolicyInvariant.setShared {shared : ConfigState P (Record Entry)}
    (hshared : PolicyOk shared) : PolicyInvariant (world.setShared shared) :=
  ⟨hshared, hinvariant.tasks⟩

theorem PolicyInvariant.record (entry : Entry) : PolicyInvariant (world.record entry) :=
  ⟨hinvariant.shared.withLog _ _, hinvariant.tasks⟩

theorem PolicyInvariant.drain : PolicyInvariant world.drain :=
  ⟨hinvariant.shared.withLog _ _, hinvariant.tasks⟩

theorem PolicyInvariant.of_task {id : Nat} (htask : world.tasks id = task) : TaskOk task :=
  htask ▸ hinvariant.tasks id

end

variable {loads : ConfigState P (Record Entry) → Prop}
  (hloads : ∀ state, loads state → BuiltFromValidated state)
include hloads

variable {first second : World P Entry} {label : Nat × Event Entry}
  (hstep : Step loads first label second)
include hstep in
theorem policyInvariant_step (hinvariant : PolicyInvariant first) : PolicyInvariant second := by
  cases hstep with
  | call call hidle hhost hstate =>
    apply hinvariant.setTask
    cases call with
    | replaceConfigState newState => exact (hloads newState (hstate newState rfl)).policyOk
    | _ => trivial
  | invalidHost input error hidle hparse => exact hinvariant
  | reloadFailed message htask | read htask
  | modeRejected error htask hinvalid | modeRetry htask hchanged
  | domainPresent outside htask hprepared
  | domainFailed outside htask hprepared | domainRetry htask hchanged
  | force hidle | forceFailed message htask => exact hinvariant.setTask _ trivial
  | reloadNone htask =>
    have hcall : CallOk _ := hinvariant.of_task htask
    exact hinvariant.setTask _ hcall
  | reloadSome loaded htask hloaded =>
    exact hinvariant.setTask _ ⟨hinvariant.of_task htask, (hloads loaded hloaded).policyOk⟩
  | reloadSnapshot htask =>
    obtain ⟨hcall, hloaded⟩ := hinvariant.of_task htask
    exact hinvariant.setTask _ ⟨hcall, hloaded.withLog _ _⟩
  | reloadWrite htask =>
    obtain ⟨hcall, hnew⟩ := hinvariant.of_task htask
    exact (hinvariant.setShared hnew).setTask _ hcall
  | recordBlocked htask => exact (hinvariant.record _).setTask _ trivial
  | drainBlocked htask => exact hinvariant.drain.setTask _ trivial
  | replaceConfigState htask =>
    have hnew : PolicyOk _ := hinvariant.of_task htask
    exact (hinvariant.setShared (hnew.withLog _ _)).setTask _ trivial
  | modeSnapshot htask hvalid =>
    apply hinvariant.setTask
    exact (validatePolicyAgainstConstraints_eq_ok_iff.mp hvalid).mode
  | modeCommit htask hsame =>
    have hmode := hinvariant.of_task htask
    rw [← hsame] at hmode
    exact (hinvariant.setShared (hinvariant.shared.withMode hmode)).setTask _ trivial
  | domainSnapshot outside htask hprepared =>
    exact hinvariant.setTask _ (prepareDomainUpdate_ready hinvariant.shared hprepared)
  | domainCommit htask hconstraints hconfig =>
    obtain ⟨hnew, -, -⟩ := hinvariant.of_task htask
    exact (hinvariant.setShared hnew).setTask _ trivial
  | forceLoaded loaded htask hloaded =>
    exact hinvariant.setTask _ (hloads loaded hloaded).policyOk
  | forceWrite htask =>
    have hloaded : PolicyOk _ := hinvariant.of_task htask
    exact (hinvariant.setShared (hloaded.withLog _ _)).setTask _ trivial

omit hloads

/-- The steps after which a listed host may be gone: a reload, a replacement,
or an update of the same host to another list or spelling. -/
def Overrides (host : Text) (target : DomainListKind) : Event Entry → Prop
  | .reloaded => True
  | .replaced => True
  | .domainUpdated other kind =>
    (normalizeHost other = normalizeHost host ∨
      normalizeHost other = host) ∧ ¬(other = host ∧ kind = target)
  | _ => False

/-- The steps after which a mode may be gone. -/
def OverridesMode (mode : NetworkMode) : Event Entry → Prop
  | .reloaded => True
  | .replaced => True
  | .modeSet other => other ≠ mode
  | _ => False

include hstep in
/-- A step leaves the configuration, takes one that is loaded, sets the mode,
or adds a domain to the current configuration. -/
theorem step_config_cases (hinvariant : PolicyInvariant first) :
    second.shared.config = first.shared.config ∧
      (∀ mode, label.2 ≠ .modeSet mode) ∧
      (∀ host target, label.2 = .domainUpdated host target →
        Present host target first.shared.config) ∨
    label.2 = .reloaded ∨ label.2 = .replaced ∨
    (∃ mode, label.2 = .modeSet mode ∧ second.shared.config = { first.shared.config with mode }) ∨
    (∃ host target, label.2 = .domainUpdated host target ∧
      second.shared.config = domainCandidate first.shared.config host target) := by
  cases hstep with
  | reloadWrite htask | replaceConfigState htask | forceWrite htask => simp
  | modeCommit htask hsame => exact .inr (.inr (.inr (.inl ⟨_, rfl, rfl⟩)))
  | domainCommit htask hconstraints hconfig =>
    obtain ⟨-, -, hnew⟩ := hinvariant.of_task htask
    subst hconfig
    exact .inr (.inr (.inr (.inr ⟨_, _, rfl, hnew⟩)))
  | domainPresent outside htask hprepared =>
    refine .inl ⟨rfl, by simp, ?_⟩
    intro host target hevent
    cases hevent
    exact prepareDomainUpdate_present hprepared
  | _ => exact .inl ⟨rfl, by simp, by simp⟩

theorem present_of_updated {id : Nat} {host : Text} {target : DomainListKind}
    (hstep : Step loads first (id, .domainUpdated host target) second)
    (hinvariant : PolicyInvariant first) : Present host target second.shared.config := by
  rcases step_config_cases hstep hinvariant with
    ⟨hsame, -, hlisted⟩ | hevent | hevent | ⟨mode, hevent, -⟩ | ⟨other, kind, hevent, hconfig⟩
  · rw [hsame]
    exact hlisted host target rfl
  · cases hevent
  · cases hevent
  · cases hevent
  · cases hevent
    rw [hconfig]
    exact present_domainCandidate first.shared.config host target

include hstep in
theorem present_step {host : Text} {target : DomainListKind}
    (hkept : ¬Overrides host target label.2) (hinvariant : PolicyInvariant first)
    (hpresent : Present host target first.shared.config) :
    Present host target second.shared.config := by
  rcases step_config_cases hstep hinvariant with
    ⟨hsame, -, -⟩ | hevent | hevent | ⟨mode, -, hconfig⟩ | ⟨other, kind, hevent, hconfig⟩
  · rwa [hsame]
  · simp [hevent, Overrides] at hkept
  · simp [hevent, Overrides] at hkept
  · rw [hconfig]
    exact hpresent
  · rw [hconfig]
    simp only [hevent, Overrides, not_and_or, not_or, not_not] at hkept
    rcases hkept with ⟨hhost, hspelling⟩ | ⟨rfl, rfl⟩
    · exact hpresent.domainCandidate hhost hspelling
    · exact present_domainCandidate first.shared.config other kind

theorem mode_of_set {id : Nat} (hstep : Step loads first (id, .modeSet mode) second)
    (hinvariant : PolicyInvariant first) : second.shared.config.mode = mode := by
  rcases step_config_cases hstep hinvariant with
    ⟨-, hother, -⟩ | hevent | hevent | ⟨other, hevent, hconfig⟩ | ⟨other, kind, hevent, -⟩
  · exact absurd rfl (hother mode)
  · cases hevent
  · cases hevent
  · cases hevent
    rw [hconfig]
  · cases hevent

include hstep in
theorem mode_step (hkept : ¬OverridesMode mode label.2) (hinvariant : PolicyInvariant first)
    (hmode : first.shared.config.mode = mode) : second.shared.config.mode = mode := by
  rcases step_config_cases hstep hinvariant with
    ⟨hsame, -, -⟩ | hevent | hevent | ⟨other, hevent, hconfig⟩ | ⟨other, kind, -, hconfig⟩
  · rwa [hsame]
  · simp [hevent, OverridesMode] at hkept
  · simp [hevent, OverridesMode] at hkept
  · rw [hconfig]
    simpa [hevent, OverridesMode] using hkept
  · rw [hconfig]
    exact hmode

include hloads

variable {labels : List (Nat × Event Entry)}

/-- What a step establishes and steps with admitted labels keep holds after
every run of such steps. -/
theorem kept_after_step (property : NetworkProxyConfig P.Hook → Prop)
    (admitted : Event Entry → Prop)
    (hkeeps : ∀ first label second, Step loads first label second →
      admitted label.2 → PolicyInvariant first →
      property first.shared.config → property second.shared.config)
    {last : World P Entry} (hrun : Run (Step loads) first labels last)
    (hadmitted : ∀ label ∈ labels, admitted label.2)
    (hinvariant : PolicyInvariant first) (hfirst : property first.shared.config)
    : property last.shared.config := by
  have hboth : PolicyInvariant last ∧ property last.shared.config := by
    apply hrun.keeps _ hadmitted ⟨hinvariant, hfirst⟩
    rintro first label second hstep hlabel ⟨hfirst, hproperty⟩
    exact ⟨policyInvariant_step hloads hstep hfirst,
      hkeeps first label second hstep hlabel hfirst hproperty⟩
  exact hboth.2

/-- In every interleaving, the compiled sets are those of the configuration
and the configuration meets its constraints; and a domain or a mode that an
update returned stays until a reload, a replacement or a conflicting
update. -/
theorem policy_state_consistent (state : ConfigState P (Record Entry))
    (hstate : BuiltFromValidated state) (before : List (Nat × Event Entry))
    (world : World P Entry) (hbefore : Run (Step loads) (World.initial state) before world) :
    PolicyOk world.shared ∧
    (∀ id host target updated after last,
      Step loads world (id, .domainUpdated host target) updated →
      Run (Step loads) updated after last →
      (∀ label ∈ after, ¬Overrides host target label.2) →
      Present host target last.shared.config) ∧
    (∀ id mode updated after last,
      Step loads world (id, .modeSet mode) updated →
      Run (Step loads) updated after last →
      (∀ label ∈ after, ¬OverridesMode mode label.2) →
      last.shared.config.mode = mode) := by
  have hinvariant : PolicyInvariant world :=
    hbefore.invariant (fun _ _ _ hstep => policyInvariant_step hloads hstep)
      ⟨hstate.policyOk, fun _ => trivial⟩
  refine ⟨hinvariant.shared, ?_, ?_⟩
  · intro id host target updated after last hstep hafter hkept
    exact kept_after_step hloads (Present host target)
      (fun event => ¬Overrides host target event)
      (fun _ _ _ hnext hlabel hnow => present_step hnext hlabel hnow) hafter
      hkept (policyInvariant_step hloads hstep hinvariant)
      (present_of_updated hstep hinvariant)
  · intro id mode updated after last hstep hafter hkept
    exact kept_after_step hloads (fun config => config.mode = mode)
      (fun event => ¬OverridesMode mode event)
      (fun _ _ _ hnext hlabel hnow => mode_step hnext hlabel hnow) hafter
      hkept (policyInvariant_step hloads hstep hinvariant)
      (mode_of_set hstep hinvariant)

end Worlds

namespace Witness

/-- Task 0 takes the snapshot for a new domain, task 1 sets the mode, and
task 0 notices, starts over and commits. -/
theorem interleaved_updates : ∃ ready moded again last,
    Run (Step static) (World.initial defaultState)
      [(0, .internal), (0, .internal), (0, .internal), (1, .internal),
        (1, .internal), (1, .internal)] ready ∧
    Step static ready (1, .modeSet .limited) moded ∧
    Run (Step static) moded [(0, .internal), (0, .internal), (0, .internal)] again ∧
    Step static again (0, .domainUpdated exampleHost .allow) last :=
  ⟨_, _, _, _,
    Run.cons (Step.call (.updateDomainList exampleHost .allow) rfl
      hosts_parsed (by simp)) (Run.cons (Step.reloadNone rfl)
    (Run.cons (Step.domainSnapshot () rfl rfl)
    (Run.cons (Step.call (.setNetworkMode .limited) rfl (by simp) (by simp))
    (Run.cons (Step.reloadNone rfl)
    (Run.cons (Step.modeSnapshot rfl rfl) (Run.nil _)))))),
    Step.modeCommit rfl rfl,
    Run.cons (Step.domainRetry rfl (.inr (by decide)))
    (Run.cons (Step.reloadNone rfl)
    (Run.cons (Step.domainSnapshot () rfl rfl) (Run.nil _))),
    Step.domainCommit rfl rfl rfl⟩

/-- Neither of two concurrent updates is lost. -/
theorem concurrent_updates_both_present :
    ∃ world : World platform Unit, PolicyOk world.shared ∧
      Present exampleHost .allow world.shared.config ∧
      world.shared.config.mode = .limited := by
  have hloads : ∀ state, static state → BuiltFromValidated state := fun _ hstate => hstate.elim
  have hstate : BuiltFromValidated defaultState := ⟨(), {}, {}, by rfl, by rfl⟩
  obtain ⟨ready, moded, again, last, hready, hmoded, hagain, hlast⟩ := interleaved_updates
  have hbefore := (hready.append (Run.single hmoded)).append hagain
  have hwhole := hbefore.append (Run.single hlast)
  obtain ⟨-, -, hmode⟩ := policy_state_consistent hloads defaultState hstate _ ready hready
  obtain ⟨-, hdomain, -⟩ := policy_state_consistent hloads defaultState hstate _ again hbefore
  obtain ⟨hpolicy, -, -⟩ := policy_state_consistent hloads defaultState hstate _ last hwhole
  refine ⟨last, hpolicy, ?_, ?_⟩
  · exact hdomain 0 exampleHost .allow last [] last hlast (Run.nil last) (by simp)
  · exact hmode 1 .limited moded _ last hmoded
      (hagain.append (Run.single hlast)) (by simp [OverridesMode])

end Witness

end Hexa.NetworkProxy
