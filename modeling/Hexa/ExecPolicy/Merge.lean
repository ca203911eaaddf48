/-
Overlaying the managed requirements on the user's policy.  The merge keeps
every rule and takes the strictest match, but a match on the literal program
token, or a `host_executable` entry of the user, can keep the managed rules
for a base name from being consulted.  The main result says exactly when.
-/
import Hexa.ExecPolicy.Policy

namespace Hexa.ExecPolicy

open List AList

universe u

variable {Path : Type u}

/-- The strictest decision among the matches. -/
def strictest (matched : List (RuleMatch Path)) : Decision :=
  (matched.map RuleMatch.decision).foldr max .allow

@[simp]
theorem strictest_nil : strictest ([] : List (RuleMatch Path)) = .allow := rfl

@[simp]
theorem strictest_cons (head : RuleMatch Path) (tail : List (RuleMatch Path)) :
    strictest (head :: tail) = max head.decision (strictest tail) := rfl

section

variable (matched : List (RuleMatch Path)) (bound : Decision)

theorem strictest_le_iff : strictest matched ≤ bound ↔ ∀ m ∈ matched, m.decision ≤ bound := by
  induction matched with
  | nil => simp
  | cons head tail ih => simp [ih]

theorem lt_strictest_iff : bound < strictest matched ↔ ∃ m ∈ matched, bound < m.decision := by
  rw [← not_le, strictest_le_iff]
  push Not
  rfl

end

variable {matched : List (RuleMatch Path)}

theorem strictest_lt_iff (hmatched : matched ≠ []) (bound : Decision) :
    strictest matched < bound ↔ ∀ m ∈ matched, m.decision < bound := by
  induction matched with
  | nil => exact absurd rfl hmatched
  | cons head tail ih =>
    cases tail with
    | nil =>
      simp only [strictest_cons, strictest_nil, mem_singleton,
        forall_eq, max_eq_left (Decision.allow_le _)]
    | cons next rest =>
      rw [strictest_cons, max_lt_iff, ih (by simp)]
      simp

theorem strictest_append (first second : List (RuleMatch Path)) :
    strictest (first ++ second) = max (strictest first) (strictest second) := by
  apply le_antisymm
  · rw [strictest_le_iff]
    intro m hm
    rcases mem_append.mp hm with hfirst | hsecond
    · exact le_max_of_le_left ((strictest_le_iff first _).mp le_rfl m hfirst)
    · exact le_max_of_le_right ((strictest_le_iff second _).mp le_rfl m hsecond)
  · apply max_le
    · rw [strictest_le_iff]
      intro m hm
      exact (strictest_le_iff _ _).mp le_rfl m (mem_append_left _ hm)
    · rw [strictest_le_iff]
      intro m hm
      exact (strictest_le_iff _ _).mp le_rfl m (mem_append_right _ hm)

/-- Matches that differ by allow decisions only have the same strictest
one. -/
theorem strictest_eq_of_allow {first second : List (RuleMatch Path)}
    (hsub : ∀ m ∈ first, m ∈ second) (hextra : ∀ m ∈ second, m ∈ first ∨ m.decision = .allow) :
    strictest first = strictest second := by
  apply le_antisymm
  · rw [strictest_le_iff]
    intro m hm
    exact (strictest_le_iff second _).mp le_rfl m (hsub m hm)
  · rw [strictest_le_iff]
    intro m hm
    rcases hextra m hm with hfirst | hallow
    · exact (strictest_le_iff first _).mp le_rfl m hfirst
    · rw [hallow]
      exact Decision.allow_le _

theorem strictest_eq_allow (hallow : ∀ m ∈ matched, m.decision = .allow) :
    strictest matched = .allow := by
  apply le_antisymm
  · rw [strictest_le_iff]
    intro m hm
    rw [hallow m hm]
  · exact Decision.allow_le _

theorem max?_decision_eq (hmatched : matched ≠ []) :
    (matched.map RuleMatch.decision).max? = some (strictest matched) := by
  induction matched with
  | nil => exact absurd rfl hmatched
  | cons head tail ih =>
    rw [map_cons, max?_cons]
    cases tail with
    | nil => simp
    | cons next rest =>
      rw [ih (by simp)]
      rfl

/-- The evaluation of a non-empty list of matches. -/
theorem Evaluation.fromMatches_eq (hmatched : matched ≠ []) :
    Evaluation.fromMatches matched =
      some { decision := strictest matched, matchedRules := matched } := by
  rw [Evaluation.fromMatches, max?_decision_eq hmatched]
  rfl

namespace Policy

variable {paths : HostPaths Path} {policy user managed : Policy Path} {cmd : List String}
  {fallback : List String → Decision}

@[simp]
theorem rulesFor_mergeOverlay (program : String) :
    (user.mergeOverlay managed).rulesFor program =
      user.rulesFor program ++ managed.rulesFor program := by
  simp [rulesFor, mergeOverlay]

theorem exactMatches_mergeOverlay :
    (user.mergeOverlay managed).exactMatches cmd =
      user.exactMatches cmd ++ managed.exactMatches cmd := by
  cases cmd with
  | nil => rfl
  | cons first args => simp [exactMatches, matchExactRules]

variable [DecidableEq Path]

theorem matches_of_exact (hexact : policy.exactMatches cmd ≠ [])
    (fallback? : Option (List String → Decision)) (resolve : Bool) :
    policy.matchesForCommandWithOptions paths cmd fallback? resolve =
      policy.exactMatches cmd := by
  simp only [matchesForCommandWithOptions]
  cases hmatched : policy.exactMatches cmd with
  | nil => exact absurd hmatched hexact
  | cons head tail => rfl

theorem matches_of_none (hexact : policy.exactMatches cmd = [])
    (hhost : policy.matchHostExecutableRules paths cmd = []) :
    policy.matchesForCommandWithOptions paths cmd (some fallback) true =
      [.heuristicsRuleMatch cmd (fallback cmd)] := by
  simp [matchesForCommandWithOptions, hexact, hhost]

/-- A fallback makes every evaluation succeed. -/
theorem matches_ne_nil (resolve : Bool) :
    policy.matchesForCommandWithOptions paths cmd (some fallback) resolve ≠ [] := by
  simp only [matchesForCommandWithOptions]
  split
  · simp
  · rename_i hne
    intro hempty
    exact hne fallback hempty rfl

/-- The decision on a command as core asks for it, with resolution of host
executables. -/
def decisionFor (paths : HostPaths Path) (policy : Policy Path) (cmd : List String)
    (fallback : List String → Decision) : Decision :=
  strictest (policy.matchesForCommandWithOptions paths cmd (some fallback) true)

theorem checkWithOptions_eq :
    policy.checkWithOptions paths cmd fallback true =
      some {
        decision := policy.decisionFor paths cmd fallback
        matchedRules := policy.matchesForCommandWithOptions paths cmd (some fallback) true } :=
  Evaluation.fromMatches_eq (matches_ne_nil true)

theorem admitsProgram_mergeOverlay (basename : String) (program : Path) :
    (user.mergeOverlay managed).admitsProgram basename program =
      if managed.hostExecutablesByName.lookup basename = none then
        user.admitsProgram basename program
      else managed.admitsProgram basename program := by
  cases hentry : managed.hostExecutablesByName.lookup basename with
  | none =>
    have hlookup : (user.mergeOverlay managed).hostExecutablesByName.lookup
        basename = user.hostExecutablesByName.lookup basename :=
      lookup_union_right (lookup_eq_none.mp hentry)
    simp [admitsProgram, hlookup]
  | some listed =>
    have hlookup : (user.mergeOverlay managed).hostExecutablesByName.lookup
        basename = managed.hostExecutablesByName.lookup basename :=
      lookup_union_left (lookup_isSome.mp (by rw [hentry]; rfl))
    simp [admitsProgram, hlookup]

/-- The matches of the rules for a base name, before the program is checked
against the `host_executable` entry. -/
def basenameMatches (policy : Policy Path) (basename : String) (program : Path)
    (args : List String) : List (RuleMatch Path) :=
  (policy.rulesFor basename).filterMap (fun rule =>
    (rule.matches (basename :: args)).map (RuleMatch.withResolvedProgram program))

theorem matchHostExecutableRules_eq {first basename : String} {args : List String}
    {program : Path} (hprogram : paths.absolutePath first = some program)
    (hbasename : paths.lookupKey program = some basename) :
    policy.matchHostExecutableRules paths (first :: args) =
      if policy.admitsProgram basename program then policy.basenameMatches basename program args
      else [] := by
  simp only [matchHostExecutableRules, hprogram, hbasename, basenameMatches]

/-- A match through the base name resolves the program and passes its
`host_executable` entry. -/
theorem exists_of_host_ne_nil (hhost : policy.matchHostExecutableRules paths cmd ≠ []) :
    ∃ first args program basename, cmd = first :: args ∧ paths.absolutePath first = some program ∧
        paths.lookupKey program = some basename ∧
        policy.admitsProgram basename program = true := by
  cases cmd with
  | nil => exact absurd rfl hhost
  | cons first args =>
    cases hprogram : paths.absolutePath first with
    | none => simp [matchHostExecutableRules, hprogram] at hhost
    | some program =>
      cases hbasename : paths.lookupKey program with
      | none => simp [matchHostExecutableRules, hprogram, hbasename] at hhost
      | some basename =>
        refine ⟨first, args, program, basename, rfl, hprogram, hbasename, ?_⟩
        by_contra hnot
        rw [matchHostExecutableRules_eq hprogram hbasename, if_neg hnot] at hhost
        exact hhost rfl

/-- The user's `host_executable` entry hides the managed rules for the base
name of the command's program, for which the requirements have no entry. -/
def ExcludesProgram (paths : HostPaths Path) (user managed : Policy Path) (cmd : List String) :
    Prop :=
  ∃ first args program basename, cmd = first :: args ∧ paths.absolutePath first = some program ∧
      paths.lookupKey program = some basename ∧
      managed.hostExecutablesByName.lookup basename = none ∧
      user.admitsProgram basename program = false

/-- An excluded program matches nothing in the merged policy. -/
theorem host_mergeOverlay_of_excludes (hexcludes : ExcludesProgram paths user managed cmd) :
    (user.mergeOverlay managed).matchHostExecutableRules paths cmd = [] := by
  obtain ⟨first, args, program, basename, rfl, hprogram, hbasename, hentry, huser⟩ := hexcludes
  rw [matchHostExecutableRules_eq hprogram hbasename]
  simp [admitsProgram_mergeOverlay, hentry, huser]

/-- Any other program that a managed rule matches sees the matches of both
layers. -/
theorem host_mergeOverlay_of_not_excludes
    (hhost : managed.matchHostExecutableRules paths cmd ≠ [])
    (hexcludes : ¬ ExcludesProgram paths user managed cmd) :
    ∃ users, (user.mergeOverlay managed).matchHostExecutableRules paths cmd =
      users ++ managed.matchHostExecutableRules paths cmd := by
  obtain ⟨first, args, program, basename, rfl, hprogram, hbasename,
    hadmits⟩ := exists_of_host_ne_nil hhost
  have hmerged : (user.mergeOverlay managed).admitsProgram basename program =
      true := by
    rw [admitsProgram_mergeOverlay]
    split
    · rename_i hentry
      by_contra hnot
      exact hexcludes ⟨first, args, program, basename, rfl, hprogram,
        hbasename, hentry, by simpa using hnot⟩
    · exact hadmits
  refine ⟨user.basenameMatches basename program args, ?_⟩
  rw [matchHostExecutableRules_eq hprogram hbasename,
    matchHostExecutableRules_eq hprogram hbasename, if_pos hmerged, if_pos hadmits]
  simp [basenameMatches]

/-- A rule layer of the user takes precedence over the managed rules on a
command that these match through the base name of its program only: a laxer
match on the literal program token, or an excluding `host_executable` entry
that leaves the command to a laxer fallback. -/
def UserPreempts (paths : HostPaths Path) (user managed : Policy Path) (cmd : List String)
    (fallback : List String → Decision) : Prop :=
  managed.exactMatches cmd = [] ∧ ∃ rule ∈ managed.matchHostExecutableRules paths cmd,
      (user.exactMatches cmd ≠ [] ∧
        ∀ other ∈ user.exactMatches cmd, other.decision < rule.decision) ∨
      (user.exactMatches cmd = [] ∧
        ExcludesProgram paths user managed cmd ∧
        fallback cmd < rule.decision)

/-- The strictest managed match through the base name. -/
theorem decisionFor_of_host (hexact : policy.exactMatches cmd = [])
    (hhost : policy.matchHostExecutableRules paths cmd ≠ []) :
    policy.decisionFor paths cmd fallback =
      strictest (policy.matchHostExecutableRules paths cmd) := by
  simp only [decisionFor, matchesForCommandWithOptions, hexact]
  cases hmatched : policy.matchHostExecutableRules paths cmd with
  | nil => exact absurd hmatched hhost
  | cons head tail => rfl

theorem decisionFor_of_exact (hexact : policy.exactMatches cmd ≠ []) :
    policy.decisionFor paths cmd fallback = strictest (policy.exactMatches cmd) := by
  rw [decisionFor, matches_of_exact hexact]

theorem decisionFor_of_none (hexact : policy.exactMatches cmd = [])
    (hhost : policy.matchHostExecutableRules paths cmd = []) :
    policy.decisionFor paths cmd fallback = fallback cmd := by
  rw [decisionFor, matches_of_none hexact hhost, strictest_cons,
    strictest_nil, max_eq_left (Decision.allow_le _)]
  rfl

theorem decisionFor_lt_iff
    (hmatch : managed.matchesForCommandWithOptions paths cmd none true ≠ []) :
    (user.mergeOverlay managed).decisionFor paths cmd fallback <
        managed.decisionFor paths cmd fallback ↔
      UserPreempts paths user managed cmd fallback := by
  by_cases hexact : managed.exactMatches cmd = []
  · -- Only the base name matches, so the merged lookup has to get that far.
    have hhost : managed.matchHostExecutableRules paths cmd ≠ [] := by
      intro hnone
      simp [matchesForCommandWithOptions, hexact, hnone] at hmatch
    rw [decisionFor_of_host hexact hhost]
    by_cases huser : user.exactMatches cmd = []
    · have hmerged : (user.mergeOverlay managed).exactMatches cmd = [] := by
        simp [exactMatches_mergeOverlay, hexact, huser]
      by_cases hexcludes : ExcludesProgram paths user managed cmd
      · rw [decisionFor_of_none hmerged
          (host_mergeOverlay_of_excludes hexcludes), lt_strictest_iff]
        simp [UserPreempts, hexact, huser, hexcludes]
      · obtain ⟨users, hsplit⟩ := host_mergeOverlay_of_not_excludes hhost hexcludes
        rw [decisionFor_of_host hmerged (by simp [hsplit, hhost]), hsplit, strictest_append]
        simp [UserPreempts, huser, hexcludes]
    · rw [decisionFor_of_exact (by simp [exactMatches_mergeOverlay, huser]),
        exactMatches_mergeOverlay, lt_strictest_iff]
      simp [UserPreempts, hexact, huser, strictest_lt_iff huser]
  · rw [decisionFor_of_exact hexact,
      decisionFor_of_exact (by simp [exactMatches_mergeOverlay, hexact]),
      exactMatches_mergeOverlay, strictest_append]
    simp [UserPreempts, hexact]

end Policy

/-- On a command that a managed rule matches, the merged policy is at least as
strict as the requirements alone unless a layer of the user preempts them. -/
theorem mergeOverlay_at_least_as_strict_iff [DecidableEq Path] (paths : HostPaths Path)
    (user managed : Policy Path) (cmd : List String) (fallback : List String → Decision)
    (hmatch : managed.matchesForCommandWithOptions paths cmd none true ≠ []) :
    (∃ alone merged, managed.checkWithOptions paths cmd fallback true = some alone ∧
        (user.mergeOverlay managed).checkWithOptions paths cmd fallback true = some merged ∧
        alone.decision ≤ merged.decision) ↔
      ¬ Policy.UserPreempts paths user managed cmd fallback := by
  rw [← Policy.decisionFor_lt_iff hmatch, not_lt]
  simp only [Policy.checkWithOptions_eq, Option.some.injEq]
  constructor
  · rintro ⟨alone, merged, rfl, rfl, hle⟩
    exact hle
  · intro hle
    exact ⟨_, _, rfl, rfl, hle⟩

namespace Witness

/-- A Unix host with `/work` as its current directory. -/
def hostPaths : HostPaths (List (List Char)) :=
  posixHostPaths (some ["work".toList]) (some ["root".toList])

/-- A policy of allow and forbid rules, without host executables. -/
def policyOf (rules : List (List String × Decision)) :
    Policy (List (List Char)) where
  rulesByProgram := rules.filterMap (fun rule =>
    match rule.1 with
    | [] => none
    | first :: rest =>
      some (first,
        { pattern := { first, rest := rest.map .single }
          decision := rule.2
          justification := none }))

/-- The user allows one binary, the requirements forbid a subcommand. -/
def userPolicy : Policy (List (List Char)) := policyOf [(["/usr/bin/git"], .allow)]

def managedPolicy : Policy (List (List Char)) := policyOf [(["git", "push"], .forbidden)]

/-- The managed rule matches, and the merged policy still allows. -/
theorem user_path_rule_weakens_managed_rule :
    managedPolicy.matchesForCommandWithOptions hostPaths ["/usr/bin/git", "push"] none true ≠ [] ∧
      ((managedPolicy.checkWithOptions hostPaths ["/usr/bin/git", "push"]
        (fun _ => .prompt) true).map Evaluation.decision = some .forbidden) ∧
      (((userPolicy.mergeOverlay managedPolicy).checkWithOptions hostPaths
        ["/usr/bin/git", "push"] (fun _ => .prompt) true).map
          Evaluation.decision = some .allow) := by
  decide

/-- The relative program has no rule of its own, so both layers see it. -/
theorem managed_rule_holds_for_relative_program :
    ∃ alone merged, managedPolicy.checkWithOptions hostPaths ["./git", "push"]
          (fun _ => .prompt) true = some alone ∧
        (userPolicy.mergeOverlay managedPolicy).checkWithOptions hostPaths
          ["./git", "push"] (fun _ => .prompt) true = some merged ∧
        alone.decision ≤ merged.decision := by
  refine (mergeOverlay_at_least_as_strict_iff hostPaths userPolicy
    managedPolicy ["./git", "push"] (fun _ => .prompt) (by decide)).mpr ?_
  rintro ⟨-, rule, -, ⟨huser, -⟩ | ⟨-, hexcludes, -⟩⟩
  · exact huser (by decide)
  · obtain ⟨_, _, program, basename, -, -, -, -, hadmits⟩ := hexcludes
    cases hadmits

end Witness

end Hexa.ExecPolicy
