/-
What a child process is told of the credentials: the names of the variables
that have one, and dummies.
-/
import Hexa.NetworkProxy.CredentialBroker

namespace Hexa.NetworkProxy

open List Option

namespace CredentialBrokerState

/-- No dummy can be confused with a real credential, or a part of one. -/
def DummiesApart (credentials : List CredentialRecord) : Prop :=
  ∀ dummy ∈ credentials, ∀ real ∈ credentials, WordsApart dummy.dummyValue real.realValue

instance (credentials : List CredentialRecord) : Decidable (DummiesApart credentials) :=
  inferInstanceAs (Decidable (∀ dummy ∈ credentials, ∀ real ∈ credentials,
    WordsApart dummy.dummyValue real.realValue))

/-- A value is not the credential, and does not hold it if it is long. -/
structure Clean (value real : Text) : Prop where
  differs : value ≠ real
  notPart : minEmbeddedCredentialLength ≤ utf8Len real → ¬ real <:+: value

theorem Clean.of_apart {dummy real : Text} (hapart : WordsApart dummy real) :
    Clean dummy real where
  differs heq := hapart.notPart (heq ▸ infix_rfl)
  notPart _ := hapart.notWhole

section

variable {credential : CredentialRecord} {found : Text × Bool}

/-- After its turn a credential is gone from the value. -/
theorem clean_virtualizeCredential
    (hapart : WordsApart credential.dummyValue credential.realValue) :
    Clean (virtualizeCredential found credential).1 credential.realValue := by
  rw [virtualizeCredential]
  split_ifs with hsame hpart
  · exact Clean.of_apart hapart
  · have hgone := not_infix_replaceWord hapart found.1
    exact ⟨fun heq => hgone ⟨[], [], by simpa using heq.symm⟩, fun _ => hgone⟩
  · exact ⟨hsame, fun hlong hinfix => hpart ⟨hlong, hinfix⟩⟩

/-- The turn of one credential does not bring another one back. -/
theorem Clean.virtualizeCredential {real : Text} (hclean : Clean found.1 real)
    (hapart : WordsApart credential.dummyValue real) :
    Clean (virtualizeCredential found credential).1 real := by
  rw [CredentialBrokerState.virtualizeCredential]
  split_ifs with hsame hpart
  · exact Clean.of_apart hapart
  · refine ⟨fun heq => hapart.notPart ?_, fun hlong hinfix => ?_⟩
    · have hne : credential.realValue ≠ [] := by
        intro hnil
        rw [hnil] at hpart
        exact absurd hpart.1 (by decide)
      rw [← heq]
      exact infix_replaceWord hne hpart.2
    · exact hclean.notPart hlong (infix_of_infix_replaceWord hapart hinfix)
  · exact hclean

theorem clean_virtualizeValue {credentials : List CredentialRecord}
    (hapart : DummiesApart credentials) (value : Text) :
    ∀ real ∈ credentials, Clean (virtualizeValue credentials value).1 real.realValue := by
  -- What has had its turn stays gone while the rest have theirs.
  have hturns : ∀ (turns : List CredentialRecord) (found : Text × Bool),
      turns ⊆ credentials →
      ∀ real ∈ credentials, (real ∈ turns ∨ Clean found.1 real.realValue) →
        Clean (turns.foldl CredentialBrokerState.virtualizeCredential found).1
          real.realValue := by
    intro turns
    induction turns with
    | nil =>
      intro found _ real _ hreal
      exact hreal.resolve_left not_mem_nil
    | cons credential turns ih =>
      intro found hturns real hreal hcases
      obtain ⟨hcredential, hturns⟩ := cons_subset.mp hturns
      refine ih _ hturns real hreal ?_
      rcases hcases with hmem | hclean
      · rcases mem_cons.mp hmem with rfl | hlater
        · exact .inr (clean_virtualizeCredential (hapart _ hreal _ hreal))
        · exact .inl hlater
      · exact .inr (hclean.virtualizeCredential (hapart credential hcredential real hreal))
  exact fun real hreal => hturns credentials _ (List.Subset.refl _) real hreal (.inl hreal)

end

theorem mem_prioritizedCredentials {crates : BrokerCrates} {state : CredentialBrokerState}
    {env : Env} {credential : CredentialRecord} :
    credential ∈ state.prioritizedCredentials crates env ↔ credential ∈ state.credentials :=
  mem_insertionSort _

/-- The variable has a dummy that is registered for it. -/
def HasDummy (state : CredentialBrokerState) (env : Env) (key : Text) : Prop :=
  ∃ credential ∈ state.credentials, credential.envVar = key ∧
    env.lookup key = some credential.dummyValue

instance (state : CredentialBrokerState) (env : Env) : DecidablePred (state.HasDummy env) :=
  fun key => inferInstanceAs (Decidable (∃ credential ∈ state.credentials,
    credential.envVar = key ∧ env.lookup key = some credential.dummyValue))

section Marker

variable (state : CredentialBrokerState) (env : Env)

theorem brokeredCredentials_eq :
    state.brokeredCredentials env =
      (credentialEnvKeys.filter (fun key => state.HasDummy env key)).filterMap
        (fun key => (env.lookup key).map (fun value => (key, value))) := by
  rw [brokeredCredentials, filterMap_filter]
  refine filterMap_congr fun key _ => ?_
  cases hvalue : env.lookup key with
  | none => simp
  | some value =>
    have hdummy : state.credentials.any (fun credential =>
        credential.envVar = key && credential.dummyValue = value) = true ↔
        state.HasDummy env key := by
      simp only [HasDummy, hvalue, List.any_eq_true, Bool.and_eq_true, decide_eq_true_eq,
        some.injEq, eq_comm (a := value)]
    simp only [bind_some, map_some, hdummy, decide_eq_true_eq]

/-- The marker lists the credential variables that have a dummy. -/
theorem brokeredCredentials_keys :
    (state.brokeredCredentials env).map Prod.fst =
      credentialEnvKeys.filter (fun key => state.HasDummy env key) := by
  rw [brokeredCredentials_eq, map_filterMap]
  refine (filterMap_congr fun key hkey => ?_).trans filterMap_some
  obtain ⟨credential, -, -, hvalue⟩ : state.HasDummy env key := by
    simpa using (mem_filter.mp hkey).2
  simp [hvalue]

theorem lookup_of_mem_brokeredCredentials {pair : Text × Text}
    (hpair : pair ∈ state.brokeredCredentials env) : env.lookup pair.1 = some pair.2 := by
  rw [brokeredCredentials_eq] at hpair
  obtain ⟨key, -, hkey⟩ := mem_filterMap.mp hpair
  obtain ⟨value, hvalue, rfl⟩ := map_eq_some_iff.mp hkey
  exact hvalue

/-- The marker itself is no credential variable. -/
theorem lookup_updateBrokeredCredentialsMarker {key : Text} (hkey : key ∈ credentialEnvKeys) :
    (state.updateBrokeredCredentialsMarker env).lookup key = env.lookup key := by
  have hother : brokeredCredentialsEnvKey ∉ credentialEnvKeys := by decide +kernel
  exact AList.lookup_insert_ne fun heq => hother (heq ▸ hkey)

end Marker

/-- In the environment of a child no variable but the broker's own marker has a
value that is a credential, or holds a long one; the marker lists the credential
variables that have a dummy, with these. -/
theorem child_env_has_no_credential (crates : BrokerCrates) (env after : Env)
    (state next : CredentialBrokerState) (henabled : state.enabled = true)
    (hvirtualize : state.virtualizeChildEnv crates env = some (next, after))
    (hapart : DummiesApart next.credentials) :
    (∀ key value, after.lookup key = some value →
      key ≠ brokeredCredentialsEnvKey → ∀ credential ∈ next.credentials,
        value ≠ credential.realValue ∧
        (minEmbeddedCredentialLength ≤ utf8Len credential.realValue →
          ¬ credential.realValue <:+: value)) ∧
    ∃ brokered, after.lookup brokeredCredentialsEnvKey =
        some (brokeredCredentialsMarker brokered) ∧
      brokered.map Prod.fst = credentialEnvKeys.filter (fun key => next.HasDummy after key) ∧
      ∀ pair ∈ brokered, after.lookup pair.1 = some pair.2 := by
  rw [virtualizeChildEnv, if_pos henabled] at hvirtualize
  obtain ⟨⟨registered, seen⟩, -, hlast⟩ := map_eq_some_iff.mp hvirtualize
  obtain ⟨rfl, rfl⟩ := Prod.mk.inj hlast
  refine ⟨fun key value hvalue hkey credential hmem => ?_, _, AList.lookup_insert _, ?_, ?_⟩
  · rw [updateBrokeredCredentialsMarker, AList.lookup_insert_ne hkey,
      KeyedTable.lookup_mapValues] at hvalue
    obtain ⟨before, -, rfl⟩ := map_eq_some_iff.mp hvalue
    have hordered : DummiesApart (registered.prioritizedCredentials crates seen) := by
      intro dummy hdummy real hreal
      exact hapart dummy (mem_prioritizedCredentials.mp hdummy) real
        (mem_prioritizedCredentials.mp hreal)
    have hclean := clean_virtualizeValue hordered before credential
      (mem_prioritizedCredentials.mpr hmem)
    exact ⟨hclean.differs, hclean.notPart⟩
  · rw [brokeredCredentials_keys]
    refine filter_congr fun key hkey => decide_eq_decide.mpr ?_
    rw [HasDummy, HasDummy, lookup_updateBrokeredCredentialsMarker _ _ hkey]
  · intro pair hpair
    have hkey : pair.1 ∈ credentialEnvKeys := by
      have hmem := mem_map_of_mem hpair (f := Prod.fst)
      rw [brokeredCredentials_keys] at hmem
      exact (mem_filter.mp hmem).1
    rw [lookup_updateBrokeredCredentialsMarker _ _ hkey]
    exact lookup_of_mem_brokeredCredentials _ _ hpair

end CredentialBrokerState

/-- A token in its own variable and, with other text, in another one. -/
def embeddedEnv : Env :=
  ((∅ : Env).insert "GH_TOKEN".toList "ghp_realrealreal".toList).insert
    "URL".toList "https://ghp_realrealreal@github.com".toList

theorem child_env_has_no_credential_embedded :
    ∃ next after, (CredentialBrokerState.new true [[]]).virtualizeChildEnv
        visibleCrates embeddedEnv = some (next, after) ∧
      next.credentials.map CredentialRecord.realValue = ["ghp_realrealreal".toList] ∧
      (∀ key value, after.lookup key = some value →
        key ≠ brokeredCredentialsEnvKey →
        ∀ credential ∈ next.credentials, value ≠ credential.realValue ∧
          (minEmbeddedCredentialLength ≤ utf8Len credential.realValue →
            ¬ credential.realValue <:+: value)) ∧
      credentialEnvKeys.filter (fun key => next.HasDummy after key) = ["GH_TOKEN".toList] ∧
      ∃ brokered, after.lookup brokeredCredentialsEnvKey =
          some (CredentialBrokerState.brokeredCredentialsMarker brokered) ∧
        brokered.map Prod.fst = credentialEnvKeys.filter (fun key => next.HasDummy after key) ∧
        ∀ pair ∈ brokered, after.lookup pair.1 = some pair.2 := by
  have hreturns : ((CredentialBrokerState.new true
      [[]]).virtualizeChildEnv visibleCrates embeddedEnv).any (fun result =>
        decide (result.1.credentials.map CredentialRecord.realValue =
            ["ghp_realrealreal".toList] ∧
          CredentialBrokerState.DummiesApart result.1.credentials ∧
          credentialEnvKeys.filter (fun key => result.1.HasDummy result.2 key) =
            ["GH_TOKEN".toList])) = true := by
    decide +kernel
  cases hvirtualize : (CredentialBrokerState.new true
      [[]]).virtualizeChildEnv visibleCrates embeddedEnv with
  | none =>
    rw [hvirtualize] at hreturns
    exact nomatch hreturns
  | some result =>
    rw [hvirtualize, any_some, decide_eq_true_eq] at hreturns
    have hchild := CredentialBrokerState.child_env_has_no_credential visibleCrates embeddedEnv
      result.2 _ result.1 rfl hvirtualize hreturns.2.1
    exact ⟨result.1, result.2, rfl, hreturns.1, hchild.1, hreturns.2.2, hchild.2⟩

/-- A broker that has seen a credential that is a pair of brackets. -/
def bracketState : CredentialBrokerState :=
  let credential : CredentialRecord := {
    envVar := "OPENAI_API_KEY".toList
    provider := .openai
    hostBinding := .exactHost openaiApiHost
    realValue := "[]".toList
    dummyValue := "sk-".toList ++ List.replicate 48 'A' }
  { enabled := true, credentials := [credential], draws := []
    issued := [credential] }

/-- For a child without credentials the marker is an empty list, and that text
may be a credential. -/
theorem marker_equals_credential :
    performAll (CredentialBrokerState.perform visibleCrates) (.new true [[]])
        ([.virtualizeChildEnv ((∅ : Env).insert "OPENAI_API_KEY".toList
          "[]".toList)] : List (BrokerCall Unit)) = some bracketState ∧
      (bracketState.virtualizeChildEnv visibleCrates ∅).any (fun result =>
        decide (CredentialBrokerState.DummiesApart result.1.credentials ∧
          ∃ credential ∈ result.1.credentials,
            result.2.lookup brokeredCredentialsEnvKey = some credential.realValue)) = true := by
  decide +kernel

end Hexa.NetworkProxy
