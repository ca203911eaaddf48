/-
Persisting an approved command prefix: the rules file gets a line, and the
policy in memory gets the rule unless it already allows the prefix.  The file
and the memory then decide every command alike as long as a skipped rule is
redundant.
-/
import Hexa.ExecPolicy.PrefixRules

namespace Hexa.ExecPolicy

open List Option

universe u

variable {Path : Type u}

inductive AmendError where
  | emptyPrefix
  deriving Repr, DecidableEq

def blockingAppendAllowPrefixRule (contents : List Char) (tokens : List String) :
    Except AmendError (List Char) :=
  match tokens with
  | [] => .error .emptyPrefix
  | _ :: _ => .ok (appendLockedLine contents (allowRuleLine tokens))

inductive ExecPolicyUpdateError where
  | appendRule (source : AmendError)
  | addRule (source : Error)
  deriving Repr, DecidableEq

/-- The policy in memory beside the text of the rules file it came from. -/
structure ExecPolicyManager (Path : Type u) where
  rulesFile : List Char
  policy : Policy Path

def isPolicyMatch : RuleMatch Path → Bool
  | .prefixRuleMatch .. => true
  | .heuristicsRuleMatch .. => false

section

variable [DecidableEq Path]

/-- The test that skips the update in memory. -/
def alreadyAllowed (paths : HostPaths Path) (policy : Policy Path) (command : List String) :
    Bool :=
  match policy.checkMultipleWithOptions paths [command] (fun _ => .forbidden) true with
  | none => false
  | some evaluation =>
    evaluation.decision = .allow &&
      evaluation.matchedRules.any (fun ruleMatch =>
        isPolicyMatch ruleMatch && ruleMatch.decision = .allow)

def appendAmendmentAndUpdate (paths : HostPaths Path) (manager : ExecPolicyManager Path)
    (command : List String) : Except ExecPolicyUpdateError (ExecPolicyManager Path) :=
  match blockingAppendAllowPrefixRule manager.rulesFile command with
  | .error error => .error (.appendRule error)
  | .ok rulesFile =>
    if alreadyAllowed paths manager.policy command then .ok { manager with rulesFile }
    else
      match manager.policy.addPrefixRule command .allow with
      | .error error => .error (.addRule error)
      | .ok policy => .ok { rulesFile, policy }

end

/-- The entry that an amendment adds to the multimap. -/
def allowEntry (program : String) (args : List String) : String × PrefixRule :=
  (program,
    { pattern := { first := program, rest := args.map .single }
      decision := .allow
      justification := none })

def Policy.withEntry (policy : Policy Path) (entry : String × PrefixRule) : Policy Path :=
  { policy with rulesByProgram := policy.rulesByProgram ++ [entry] }

@[simp]
theorem addPrefixRule_allow (policy : Policy Path) (program : String) (args : List String) :
    policy.addPrefixRule (program :: args) .allow =
      .ok (policy.withEntry (allowEntry program args)) := rfl

/-- The Starlark reader of rules files.  `bindsBuiltin` holds of a text that
leaves the name `prefix_rule` with the builtin, so that a line after it adds a
rule. -/
structure RulesReader (Path : Type u) where
  parse : List Char → Option (Policy Path)
  bindsBuiltin : List Char → Prop
  parse_append : ∀ contents policy program args,
    bindsBuiltin contents → parse contents = some policy →
    allowRuleLine (program :: args) ∉ textLines contents →
      parse (appendLockedLine contents (allowRuleLine (program :: args))) =
          some (policy.withEntry (allowEntry program args)) ∧
        bindsBuiltin (appendLockedLine contents (allowRuleLine (program :: args)))

variable {program : String} {args : List String}

/-- A pattern that matches a command matches every longer one. -/
theorem matchesPrefix_append {pattern : PrefixPattern}
    (hmatch : pattern.matchesPrefix (program :: args) ≠ none) (rest : List String) :
    pattern.matchesPrefix (program :: (args ++ rest)) ≠ none := by
  obtain ⟨start, hstart⟩ := ne_none_iff_exists'.mp hmatch
  obtain ⟨hleads, hmeets⟩ := matchesPrefix_eq_some_iff.mp hstart
  have hlonger := matchesPrefix_eq_some_iff.mpr ⟨hleads.trans (prefix_append _ rest), hmeets⟩
  exact hlonger.trans_ne (some_ne_none start)

/-- A pattern of single tokens matches exactly the commands that begin with
them. -/
theorem exists_append_of_matchesPrefix {first : String} {tokens : List String}
    (hmatch : PrefixPattern.matchesPrefix
      { first, rest := tokens.map .single } (program :: args) ≠ none) :
    ∃ rest, args = tokens ++ rest := by
  obtain ⟨start, hstart⟩ := ne_none_iff_exists'.mp hmatch
  obtain ⟨⟨rest, hcmd⟩, hmeets⟩ := matchesPrefix_eq_some_iff.mp hstart
  cases hmeets with
  | @cons _ word _ tail hword hrest =>
    have hsame : List.Forall₂ Eq tokens tail :=
      (forall₂_map_left_iff.mp hrest).imp fun _ _ hmem => (mem_singleton.mp hmem).symm
    rw [forall₂_eq_eq_eq] at hsame
    exact ⟨rest, hsame ▸ (List.cons.inj hcmd).2.symm⟩

namespace Policy

variable {paths : HostPaths Path} {policy memory file : Policy Path} {program : String}
  {rule : PrefixRule} {cmd : List String} {m : RuleMatch Path}

theorem decision_of_matches (hmatch : rule.matches cmd = some m) :
    m.decision = rule.decision := by
  obtain ⟨matchedPrefix, -, rfl⟩ := map_eq_some_iff.mp hmatch
  rfl

theorem matchesPrefix_ne_none (hmatch : rule.matches cmd = some m) :
    rule.pattern.matchesPrefix cmd ≠ none := by
  obtain ⟨matchedPrefix, hprefixed, -⟩ := map_eq_some_iff.mp hmatch
  simp [hprefixed]

theorem exists_matches_of_ne_none (hmatch : rule.pattern.matchesPrefix cmd ≠ none) :
    ∃ m : RuleMatch Path, rule.matches cmd = some m := by
  obtain ⟨matchedPrefix, hmatched⟩ := ne_none_iff_exists'.mp hmatch
  exact ⟨_, by rw [PrefixRule.matches, hmatched]; rfl⟩

variable {args : List String}

theorem exact_mono (hrules : ∀ entry ∈ memory.rulesByProgram, entry ∈ file.rulesByProgram)
    (hm : m ∈ memory.exactMatches cmd) : m ∈ file.exactMatches cmd := by
  obtain ⟨first, args, rule, rfl, hrule, hmatch⟩ := mem_exactMatches_iff.mp hm
  exact mem_exactMatches_iff.mpr ⟨first, args, rule, rfl, hrules _ hrule, hmatch⟩

variable [DecidableEq Path]

theorem mem_host_iff :
    m ∈ policy.matchHostExecutableRules paths cmd ↔
      ∃ first args program basename rule found, cmd = first :: args ∧
        paths.absolutePath first = some program ∧
        paths.lookupKey program = some basename ∧
        policy.admitsProgram basename program = true ∧
        (basename, rule) ∈ policy.rulesByProgram ∧
        rule.matches (basename :: args) = some found ∧
        m = found.withResolvedProgram program := by
  constructor
  · intro hmem
    obtain ⟨first, args, program, basename, rfl, hprogram, hbasename,
      hadmits⟩ := exists_of_host_ne_nil (ne_nil_of_mem hmem)
    rw [matchHostExecutableRules_eq hprogram hbasename, if_pos hadmits,
      basenameMatches, mem_filterMap] at hmem
    obtain ⟨rule, hrule, hmatch⟩ := hmem
    obtain ⟨found, hfound, rfl⟩ := map_eq_some_iff.mp hmatch
    exact ⟨first, args, program, basename, rule, found, rfl, hprogram,
      hbasename, hadmits, mem_rulesFor_iff.mp hrule, hfound, rfl⟩
  · rintro ⟨first, args, program, basename, rule, found, rfl, hprogram,
      hbasename, hadmits, hrule, hfound, rfl⟩
    rw [matchHostExecutableRules_eq hprogram hbasename, if_pos hadmits,
      basenameMatches, mem_filterMap]
    exact ⟨rule, mem_rulesFor_iff.mpr hrule, by rw [hfound]; rfl⟩

theorem host_mono (hrules : ∀ entry ∈ memory.rulesByProgram, entry ∈ file.rulesByProgram)
    (hhosts : file.hostExecutablesByName = memory.hostExecutablesByName)
    (hm : m ∈ memory.matchHostExecutableRules paths cmd) :
    m ∈ file.matchHostExecutableRules paths cmd := by
  obtain ⟨first, args, program, basename, rule, found, rfl, hprogram,
    hbasename, hadmits, hrule, hfound, rfl⟩ := mem_host_iff.mp hm
  refine mem_host_iff.mpr ⟨first, args, program, basename, rule, found, rfl,
    hprogram, hbasename, ?_, hrules _ hrule, hfound, rfl⟩
  rw [admitsProgram, hhosts]
  exact hadmits

/-- Adding this allow entry to a policy changes no decision.  Where it matches
the literal program, the policy matches literally too, or through the base name
with allow rules only.  Where it matches through the base name, the policy
matches as well. -/
structure Redundant (paths : HostPaths Path) (policy : Policy Path)
    (entry : String × PrefixRule) : Prop where
  allows : entry.2.decision = .allow
  literal : ∀ args, entry.2.pattern.matchesPrefix (entry.1 :: args) ≠ none →
    policy.exactMatches (entry.1 :: args) ≠ [] ∨
      (policy.matchHostExecutableRules paths (entry.1 :: args) ≠ [] ∧
        ∀ m ∈ policy.matchHostExecutableRules paths (entry.1 :: args), m.decision = .allow)
  basename : ∀ first args program,
    paths.absolutePath first = some program →
    paths.lookupKey program = some entry.1 →
    policy.admitsProgram entry.1 program = true →
    entry.2.pattern.matchesPrefix (entry.1 :: args) ≠ none →
      policy.exactMatches (first :: args) ≠ [] ∨
        policy.matchHostExecutableRules paths (first :: args) ≠ []

/-- The policy in memory and the one in the file have the same rules, up to
entries of the file that are redundant in memory. -/
structure Mirrors (paths : HostPaths Path) (memory file : Policy Path) :
    Prop where
  hosts_eq : file.hostExecutablesByName = memory.hostExecutablesByName
  mem_file : ∀ entry ∈ memory.rulesByProgram, entry ∈ file.rulesByProgram
  mem_memory : ∀ entry ∈ file.rulesByProgram,
    entry ∈ memory.rulesByProgram ∨ Redundant paths memory entry

theorem mirrors_refl (policy : Policy Path) : Mirrors paths policy policy :=
  ⟨rfl, fun _ hentry => hentry, fun _ hentry => .inl hentry⟩

section

variable (hmirrors : Mirrors paths memory file)
include hmirrors

/-- A literal match of the file is a match of the memory or comes from a
redundant entry. -/
theorem Mirrors.exact_cases (hm : m ∈ file.exactMatches cmd) :
    m ∈ memory.exactMatches cmd ∨ (m.decision = .allow ∧ (memory.exactMatches cmd ≠ [] ∨
          (memory.matchHostExecutableRules paths cmd ≠ [] ∧
            ∀ other ∈ memory.matchHostExecutableRules paths cmd, other.decision = .allow))) := by
  obtain ⟨first, args, rule, rfl, hrule, hmatch⟩ := mem_exactMatches_iff.mp hm
  rcases hmirrors.mem_memory _ hrule with hmemory | hredundant
  · exact .inl (mem_exactMatches_iff.mpr ⟨first, args, rule, rfl, hmemory, hmatch⟩)
  · refine .inr ⟨?_, hredundant.literal args ?_⟩
    · rw [decision_of_matches hmatch]
      exact hredundant.allows
    · exact matchesPrefix_ne_none hmatch

theorem Mirrors.host_cases (hm : m ∈ file.matchHostExecutableRules paths cmd) :
    m ∈ memory.matchHostExecutableRules paths cmd ∨
      (m.decision = .allow ∧
        (memory.exactMatches cmd ≠ [] ∨ memory.matchHostExecutableRules paths cmd ≠ [])) := by
  obtain ⟨first, args, program, basename, rule, found, rfl, hprogram,
    hbasename, hadmits, hrule, hfound, rfl⟩ := mem_host_iff.mp hm
  rw [admitsProgram, hmirrors.hosts_eq] at hadmits
  rcases hmirrors.mem_memory _ hrule with hmemory | hredundant
  · exact .inl (mem_host_iff.mpr ⟨first, args, program, basename, rule,
      found, rfl, hprogram, hbasename, hadmits, hmemory, hfound, rfl⟩)
  · refine .inr ⟨?_, hredundant.basename first args program hprogram hbasename hadmits ?_⟩
    · rw [RuleMatch.decision_withResolvedProgram, decision_of_matches hfound]
      exact hredundant.allows
    · exact matchesPrefix_ne_none hfound

/-- Mirrored policies decide every command alike. -/
theorem Mirrors.decisionFor_eq (cmd : List String) (fallback : List String → Decision) :
    memory.decisionFor paths cmd fallback = file.decisionFor paths cmd fallback := by
  have hexact {m : RuleMatch Path} (hm : m ∈ memory.exactMatches cmd) :=
    exact_mono hmirrors.mem_file hm
  have hhosts {m : RuleMatch Path} (hm : m ∈ memory.matchHostExecutableRules paths cmd) :=
    host_mono hmirrors.mem_file hmirrors.hosts_eq hm
  by_cases hmemory : memory.exactMatches cmd = []
  · by_cases hfile : file.exactMatches cmd = []
    · -- Neither matches literally, so both go through the base name.
      by_cases hhost : memory.matchHostExecutableRules paths cmd = []
      · have hfileHost : file.matchHostExecutableRules paths cmd = [] := by
          apply eq_nil_iff_forall_not_mem.mpr
          intro m hm
          rcases hmirrors.host_cases hm with hmem | ⟨-, hexact | hne⟩
          · rw [hhost] at hmem
            cases hmem
          · exact hexact hmemory
          · exact hne hhost
        rw [decisionFor_of_none hmemory hhost, decisionFor_of_none hfile hfileHost]
      · have hfileHost : file.matchHostExecutableRules paths cmd ≠ [] := by
          obtain ⟨m, hm⟩ := exists_mem_of_ne_nil _ hhost
          exact ne_nil_of_mem (hhosts hm)
        rw [decisionFor_of_host hmemory hhost, decisionFor_of_host hfile hfileHost]
        refine strictest_eq_of_allow (fun m => hhosts) ?_
        intro m hm
        rcases hmirrors.host_cases hm with hmem | ⟨hallow, -⟩
        · exact .inl hmem
        · exact .inr hallow
    · -- Only entries that the memory lacks match literally.
      have hextra : ∀ m ∈ file.exactMatches cmd, m.decision = .allow ∧
          (memory.matchHostExecutableRules paths cmd ≠ [] ∧
            ∀ other ∈ memory.matchHostExecutableRules paths cmd, other.decision = .allow) := by
        intro m hm
        rcases hmirrors.exact_cases hm with hmem | ⟨hallow, hexact | hhost⟩
        · rw [hmemory] at hmem
          cases hmem
        · exact absurd hmemory hexact
        · exact ⟨hallow, hhost⟩
      obtain ⟨m, hm⟩ := exists_mem_of_ne_nil _ hfile
      obtain ⟨-, hhost, hallow⟩ := hextra m hm
      rw [decisionFor_of_host hmemory hhost, decisionFor_of_exact hfile,
        strictest_eq_allow hallow,
        strictest_eq_allow (fun other hother => (hextra other hother).1)]
  · have hfile : file.exactMatches cmd ≠ [] := by
      obtain ⟨m, hm⟩ := exists_mem_of_ne_nil _ hmemory
      exact ne_nil_of_mem (hexact hm)
    rw [decisionFor_of_exact hmemory, decisionFor_of_exact hfile]
    refine strictest_eq_of_allow (fun m => hexact) ?_
    intro m hm
    rcases hmirrors.exact_cases hm with hmem | ⟨hallow, -⟩
    · exact .inl hmem
    · exact .inr hallow

end

theorem host_ne_nil_of_mem {first basename : String} {program : Path}
    (hprogram : paths.absolutePath first = some program)
    (hbasename : paths.lookupKey program = some basename)
    (hadmits : policy.admitsProgram basename program = true)
    (hrule : (basename, rule) ∈ policy.rulesByProgram)
    (hmatch : rule.pattern.matchesPrefix (basename :: args) ≠ none) :
    policy.matchHostExecutableRules paths (first :: args) ≠ [] := by
  obtain ⟨m, hm⟩ := exists_matches_of_ne_none hmatch
  exact ne_nil_of_mem (mem_host_iff.mpr
    ⟨first, args, program, basename, rule, m, rfl, hprogram, hbasename, hadmits, hrule, hm, rfl⟩)

/-- A match through the base name stays when the command gets longer. -/
theorem host_append_ne_nil (hhost : policy.matchHostExecutableRules paths (program :: args) ≠ [])
    (rest : List String) :
    policy.matchHostExecutableRules paths (program :: (args ++ rest)) ≠ [] := by
  obtain ⟨m, hm⟩ := exists_mem_of_ne_nil _ hhost
  obtain ⟨first, args', path, basename, rule, found, hcmd, hpath, hbasename,
    hadmits, hrule, hfound, -⟩ := mem_host_iff.mp hm
  cases hcmd
  exact host_ne_nil_of_mem hpath hbasename hadmits hrule
    (matchesPrefix_append (matchesPrefix_ne_none hfound) rest)

/-- An amendment that a rule matches literally is redundant. -/
theorem redundant_of_exact (hexact : policy.exactMatches (program :: args) ≠ []) :
    Redundant paths policy (allowEntry program args) := by
  obtain ⟨m, hm⟩ := exists_mem_of_ne_nil _ hexact
  obtain ⟨first, args', rule, hcmd, hrule, hmatch⟩ := mem_exactMatches_iff.mp hm
  cases hcmd
  refine ⟨rfl, ?_, ?_⟩
  · intro longer hlonger
    obtain ⟨rest, rfl⟩ := exists_append_of_matchesPrefix hlonger
    obtain ⟨m, hm⟩ := exists_matches_of_ne_none
      (matchesPrefix_append (matchesPrefix_ne_none hmatch) rest)
    exact .inl (ne_nil_of_mem (mem_exactMatches_iff.mpr ⟨_, _, rule, rfl, hrule, hm⟩))
  · intro first longer path hpath hbasename hadmits hlonger
    obtain ⟨rest, rfl⟩ := exists_append_of_matchesPrefix hlonger
    exact .inr (host_ne_nil_of_mem hpath hbasename hadmits hrule
      (matchesPrefix_append (matchesPrefix_ne_none hmatch) rest))

/-- Nothing is lost by leaving the amendment out of a policy that allows it
through the base name of its program: no stricter rule is reached through the
base name by a longer command that has no literal match, and where the program
token itself is a base name the policy has a match already. -/
structure SafeSkip (paths : HostPaths Path) (policy : Policy Path)
    (program : String) (args : List String) : Prop where
  noStricter : ∀ rest, policy.exactMatches (program :: (args ++ rest)) = [] →
    ∀ m ∈ policy.matchHostExecutableRules paths (program :: (args ++ rest)), m.decision = .allow
  asBasename : ∀ first rest path, paths.absolutePath first = some path →
    paths.lookupKey path = some program →
    policy.admitsProgram program path = true →
      policy.exactMatches (first :: (args ++ rest)) ≠ [] ∨
        policy.matchHostExecutableRules paths (first :: (args ++ rest)) ≠ []

theorem SafeSkip.redundant (hskip : SafeSkip paths policy program args)
    (hhost : policy.matchHostExecutableRules paths (program :: args) ≠ []) :
    Redundant paths policy (allowEntry program args) := by
  refine ⟨rfl, ?_, ?_⟩
  · intro longer hlonger
    obtain ⟨rest, rfl⟩ := exists_append_of_matchesPrefix hlonger
    by_cases hexact : policy.exactMatches (program :: (args ++ rest)) = []
    · exact .inr ⟨host_append_ne_nil hhost rest, hskip.noStricter rest hexact⟩
    · exact .inl hexact
  · intro first longer path hpath hbasename hadmits hlonger
    obtain ⟨rest, rfl⟩ := exists_append_of_matchesPrefix hlonger
    exact hskip.asBasename first rest path hpath hbasename hadmits

variable {entry : String × PrefixRule}

theorem decision_of_host_withEntry (hentry : entry.2.decision = .allow)
    (hallow : ∀ m ∈ policy.matchHostExecutableRules paths cmd, m.decision = .allow) :
    ∀ m ∈ (policy.withEntry entry).matchHostExecutableRules paths cmd, m.decision = .allow := by
  intro m hm
  obtain ⟨first, args, program, basename, rule, found, rfl, hprogram,
    hbasename, hadmits, hrule, hfound, rfl⟩ := mem_host_iff.mp hm
  rcases mem_append.mp hrule with hold | hnew
  · exact hallow _ (mem_host_iff.mpr ⟨first, args, program, basename, rule,
      found, rfl, hprogram, hbasename, hadmits, hold, hfound, rfl⟩)
  · rw [RuleMatch.decision_withResolvedProgram, decision_of_matches hfound]
    rw [mem_singleton] at hnew
    rw [← hentry, ← hnew]

/-- Further allow entries leave a redundant entry redundant. -/
theorem Redundant.withEntry {other : String × PrefixRule}
    (hredundant : Redundant paths policy entry) (hother : other.2.decision = .allow) :
    Redundant paths (policy.withEntry other) entry := by
  have hexact : ∀ cmd, policy.exactMatches cmd ≠ [] →
      (policy.withEntry other).exactMatches cmd ≠ [] := by
    intro cmd hne
    obtain ⟨m, hm⟩ := exists_mem_of_ne_nil _ hne
    exact ne_nil_of_mem (exact_mono (fun _ => mem_append_left _) hm)
  have hhost : ∀ cmd, policy.matchHostExecutableRules paths cmd ≠ [] →
      (policy.withEntry other).matchHostExecutableRules paths cmd ≠ [] := by
    intro cmd hne
    obtain ⟨m, hm⟩ := exists_mem_of_ne_nil _ hne
    exact ne_nil_of_mem (host_mono (fun _ => mem_append_left _) rfl hm)
  refine ⟨hredundant.allows, ?_, ?_⟩
  · intro args hmatch
    rcases hredundant.literal args hmatch with hne | ⟨hne, hallow⟩
    · exact .inl (hexact _ hne)
    · exact .inr ⟨hhost _ hne, decision_of_host_withEntry hother hallow⟩
  · intro first args program hprogram hbasename hadmits hmatch
    rcases hredundant.basename first args program hprogram hbasename hadmits hmatch with hne | hne
    · exact .inl (hexact _ hne)
    · exact .inr (hhost _ hne)

variable (hmirrors : Mirrors paths memory file)
include hmirrors

/-- Both sides get the entry. -/
theorem Mirrors.withEntry_both (hentry : entry.2.decision = .allow) :
    Mirrors paths (memory.withEntry entry) (file.withEntry entry) := by
  refine ⟨hmirrors.hosts_eq, ?_, ?_⟩
  · intro other hother
    rcases mem_append.mp hother with hold | hnew
    · exact mem_append_left _ (hmirrors.mem_file other hold)
    · exact mem_append_right _ hnew
  · intro other hother
    rcases mem_append.mp hother with hold | hnew
    · rcases hmirrors.mem_memory other hold with hmemory | hredundant
      · exact .inl (mem_append_left _ hmemory)
      · exact .inr (hredundant.withEntry hentry)
    · exact .inl (mem_append_right _ hnew)

/-- Only the memory gets an entry that the file has. -/
theorem Mirrors.withEntry_memory (hentry : entry.2.decision = .allow)
    (hfile : entry ∈ file.rulesByProgram) : Mirrors paths (memory.withEntry entry) file := by
  refine ⟨hmirrors.hosts_eq, ?_, ?_⟩
  · exact forall_mem_append.mpr ⟨hmirrors.mem_file, forall_mem_singleton.mpr hfile⟩
  · intro other hother
    rcases hmirrors.mem_memory other hother with hmemory | hredundant
    · exact .inl (mem_append_left _ hmemory)
    · exact .inr (hredundant.withEntry hentry)

/-- Only the file gets an entry that is redundant in memory. -/
theorem Mirrors.withEntry_file (hredundant : Redundant paths memory entry) :
    Mirrors paths memory (file.withEntry entry) := by
  refine ⟨hmirrors.hosts_eq, ?_, ?_⟩
  · intro other hother
    exact mem_append_left _ (hmirrors.mem_file other hother)
  · exact forall_mem_append.mpr ⟨hmirrors.mem_memory, forall_mem_singleton.mpr (.inr hredundant)⟩

end Policy

section

variable [DecidableEq Path] {paths : HostPaths Path} {reader : RulesReader Path}

/-- The condition on one amendment.  If the memory is left alone, then the
amendment has a literal match or the skip is safe; and if the memory changes
while the line stands in the file, then the file's policy has the rule. -/
structure SafeAmendment (paths : HostPaths Path) (reader : RulesReader Path)
    (manager : ExecPolicyManager Path) (program : String) (args : List String) : Prop where
  skip : alreadyAllowed paths manager.policy (program :: args) = true →
    manager.policy.exactMatches (program :: args) = [] →
      Policy.SafeSkip paths manager.policy program args
  present : alreadyAllowed paths manager.policy (program :: args) = false →
    allowRuleLine (program :: args) ∈ textLines manager.rulesFile →
      ∀ file, reader.parse manager.rulesFile = some file →
        allowEntry program args ∈ file.rulesByProgram

/-- A successful amendment that meets the condition. -/
def SafeStep (paths : HostPaths Path) (reader : RulesReader Path)
    (before after : ExecPolicyManager Path) : Prop :=
  ∃ program args, SafeAmendment paths reader before program args ∧
    appendAmendmentAndUpdate paths before (program :: args) = .ok after

/-- The file parses to a policy that the memory mirrors. -/
structure InSync (paths : HostPaths Path) (reader : RulesReader Path)
    (manager : ExecPolicyManager Path) : Prop where
  bindsBuiltin : reader.bindsBuiltin manager.rulesFile
  mirrors : ∃ file, reader.parse manager.rulesFile = some file ∧
    Policy.Mirrors paths manager.policy file

theorem SafeAmendment.redundant {manager : ExecPolicyManager Path} {program : String}
    {args : List String} (hsafe : SafeAmendment paths reader manager program args)
    (hallowed : alreadyAllowed paths manager.policy (program :: args) = true) :
    Policy.Redundant paths manager.policy (allowEntry program args) := by
  by_cases hexact : manager.policy.exactMatches (program :: args) = []
  · refine (hsafe.skip hallowed hexact).redundant fun hhost => ?_
    have hmatches : manager.policy.matchesForCommandWithOptions paths
        (program :: args) (some (fun _ => .forbidden)) true =
        [.heuristicsRuleMatch (program :: args) .forbidden] :=
      Policy.matches_of_none hexact hhost
    simp [alreadyAllowed, Policy.checkMultipleWithOptions, hmatches,
      Evaluation.fromMatches, RuleMatch.decision] at hallowed
  · exact Policy.redundant_of_exact hexact

theorem SafeStep.inSync {before after : ExecPolicyManager Path}
    (hstep : SafeStep paths reader before after) (hsync : InSync paths reader before) :
    InSync paths reader after := by
  obtain ⟨program, args, hsafe, hupdate⟩ := hstep
  obtain ⟨hbinds, file, hparse, hmirrors⟩ := hsync
  have hentry : (allowEntry program args).2.decision = .allow := rfl
  simp only [appendAmendmentAndUpdate, blockingAppendAllowPrefixRule] at hupdate
  by_cases hline : allowRuleLine (program :: args) ∈ textLines before.rulesFile
  · rw [appendLockedLine_of_mem hline] at hupdate
    by_cases hallowed : alreadyAllowed paths before.policy (program :: args) = true
    · rw [if_pos hallowed] at hupdate
      cases hupdate
      exact ⟨hbinds, file, hparse, hmirrors⟩
    · rw [if_neg hallowed] at hupdate
      cases hupdate
      have hfile := hsafe.present (by simpa using hallowed) hline file hparse
      exact ⟨hbinds, file, hparse, hmirrors.withEntry_memory hentry hfile⟩
  · obtain ⟨hreparse, hbindsNext⟩ := reader.parse_append _ _ program args hbinds hparse hline
    by_cases hallowed : alreadyAllowed paths before.policy (program :: args) = true
    · rw [if_pos hallowed] at hupdate
      cases hupdate
      exact ⟨hbindsNext, _, hreparse, hmirrors.withEntry_file (hsafe.redundant hallowed)⟩
    · rw [if_neg hallowed] at hupdate
      cases hupdate
      exact ⟨hbindsNext, _, hreparse, hmirrors.withEntry_both hentry⟩

end

/-- Start from a rules file that parses to the policy in memory and let every
amendment meet the condition.  In every state that is reached, the rules file
parses, and its policy gives the decision of the policy in memory on every
command. -/
theorem amended_file_agrees_with_memory [DecidableEq Path] (paths : HostPaths Path)
    (reader : RulesReader Path) (start state : ExecPolicyManager Path)
    (hbinds : reader.bindsBuiltin start.rulesFile)
    (hparse : reader.parse start.rulesFile = some start.policy)
    (hrun : Relation.ReflTransGen (SafeStep paths reader) start state) :
    ∃ file, reader.parse state.rulesFile = some file ∧ ∀ cmd fallback,
        (state.policy.checkWithOptions paths cmd fallback true).map Evaluation.decision =
          (file.checkWithOptions paths cmd fallback true).map Evaluation.decision := by
  have hsync : InSync paths reader state := by
    induction hrun with
    | refl => exact ⟨hbinds, _, hparse, Policy.mirrors_refl _⟩
    | tail _ hstep ih => exact hstep.inSync ih
  obtain ⟨-, file, hfile, hmirrors⟩ := hsync
  refine ⟨file, hfile, ?_⟩
  intro cmd fallback
  simp [Policy.checkWithOptions_eq, hmirrors.decisionFor_eq cmd fallback]

namespace Witness

/-- The multimap entry of a written line. -/
def readRuleEntry (line : List Char) : Option (String × PrefixRule) :=
  match readRuleLine line with
  | some (first :: rest, decision) =>
    some (first,
      { pattern := { first, rest := rest.map .single }
        decision
        justification := none })
  | _ => none

def readRules (contents : List Char) : Option (Policy (List (List Char))) :=
  ((textLines contents).mapM readRuleEntry).map (fun rulesByProgram => { rulesByProgram })

theorem readRules_eq {contents : List Char} {entries : List (String × PrefixRule)}
    (hentries : (textLines contents).mapM readRuleEntry = some entries) :
    readRules contents = some { rulesByProgram := entries } := by
  rw [readRules, hentries]
  rfl

/-- A reader of files that hold written lines only. -/
def writtenRulesReader : RulesReader (List (List Char)) where
  parse := readRules
  bindsBuiltin := Terminated
  parse_append := by
    intro contents policy program args hcontents hparse hline
    obtain ⟨entries, hentries, rfl⟩ := map_eq_some_iff.mp hparse
    rw [appendLockedLine_of_terminated hcontents hline]
    refine ⟨readRules_eq ?_, .inr (by simp)⟩
    have hentry : readRuleEntry (allowRuleLine (program :: args)) =
        some (allowEntry program args) := by
      rw [readRuleEntry, readRuleLine_allowRuleLine (by simp)]
      rfl
    rw [textLines_append_line hcontents (newline_notMem_allowRuleLine _)
      (by simp [allowRuleLine, ← append_assoc]), mapM_append, hentries]
    simp [hentry]

/-- Two rules of the user: `git` is allowed, one way to call it is not. -/
@[irreducible]
def gitRulesFile : List Char :=
  ("prefix_rule(pattern=[\x22git\x22], decision=\x22allow\x22)\n" ++
    "prefix_rule(pattern=[\x22git\x22, \x22status\x22, \x22--bad\x22], " ++
    "decision=\x22forbidden\x22)\n").toList

def gitPolicy : Policy (List (List Char)) :=
  policyOf [(["git"], .allow), (["git", "status", "--bad"], .forbidden)]

theorem readRules_gitRulesFile : readRules gitRulesFile = some gitPolicy :=
  readRules_eq (by decide +kernel)

theorem terminated_gitRulesFile : Terminated gitRulesFile := .inr (by decide +kernel)

/-- The amendment is allowed through its base name, so the memory stays as it
is; in the file it then hides the stricter rule. -/
theorem skipped_amendment_changes_file_decision :
    writtenRulesReader.bindsBuiltin gitRulesFile ∧
      writtenRulesReader.parse gitRulesFile = some gitPolicy ∧
      ∃ after file, appendAmendmentAndUpdate hostPaths ⟨gitRulesFile, gitPolicy⟩
            ["/usr/bin/git", "status"] = .ok after ∧
          writtenRulesReader.parse after.rulesFile = some file ∧
          (after.policy.checkWithOptions hostPaths
            ["/usr/bin/git", "status", "--bad"] (fun _ => .prompt) true).map
              Evaluation.decision = some .forbidden ∧
          (file.checkWithOptions hostPaths
            ["/usr/bin/git", "status", "--bad"] (fun _ => .prompt) true).map
              Evaluation.decision = some .allow := by
  have hallowed : alreadyAllowed hostPaths gitPolicy ["/usr/bin/git", "status"] = true := by
    decide +kernel
  have hline : allowRuleLine ["/usr/bin/git", "status"] ∉ textLines gitRulesFile := by
    decide +kernel
  refine ⟨terminated_gitRulesFile, readRules_gitRulesFile,
    ⟨appendLockedLine gitRulesFile (allowRuleLine ["/usr/bin/git", "status"]), gitPolicy⟩,
    gitPolicy.withEntry (allowEntry "/usr/bin/git" ["status"]), ?_, ?_, ?_, ?_⟩
  · simp only [appendAmendmentAndUpdate, blockingAppendAllowPrefixRule, hallowed, if_true]
  · exact (writtenRulesReader.parse_append _ _ "/usr/bin/git" ["status"]
      terminated_gitRulesFile readRules_gitRulesFile hline).1
  · decide +kernel
  · decide +kernel

/-- A new prefix and then a longer one, which needs no rule of its own. -/
theorem literal_amendments_keep_agreement :
    ∃ file, writtenRulesReader.parse
        (appendLockedLine (appendLockedLine gitRulesFile
          (allowRuleLine ["ls"])) (allowRuleLine ["ls", "-l"])) = some file ∧
      ∀ cmd fallback,
        ((gitPolicy.withEntry (allowEntry "ls" [])).checkWithOptions hostPaths
            cmd fallback true).map Evaluation.decision =
          (file.checkWithOptions hostPaths cmd fallback true).map Evaluation.decision := by
  have hnew : alreadyAllowed hostPaths gitPolicy ["ls"] = false := by decide +kernel
  have hskip : alreadyAllowed hostPaths
      (gitPolicy.withEntry (allowEntry "ls" [])) ["ls", "-l"] = true := by
    decide +kernel
  have hfirst : SafeStep hostPaths writtenRulesReader
      ⟨gitRulesFile, gitPolicy⟩
      ⟨appendLockedLine gitRulesFile (allowRuleLine ["ls"]),
        gitPolicy.withEntry (allowEntry "ls" [])⟩ := by
    refine ⟨"ls", [], ⟨?_, ?_⟩, ?_⟩
    · intro hallowed
      cases hallowed
    · intro _ hline
      exact absurd hline (by decide +kernel)
    · simp [appendAmendmentAndUpdate, blockingAppendAllowPrefixRule, hnew]
  have hsecond : SafeStep hostPaths writtenRulesReader
      ⟨appendLockedLine gitRulesFile (allowRuleLine ["ls"]),
        gitPolicy.withEntry (allowEntry "ls" [])⟩
      ⟨appendLockedLine (appendLockedLine gitRulesFile (allowRuleLine ["ls"]))
        (allowRuleLine ["ls", "-l"]),
        gitPolicy.withEntry (allowEntry "ls" [])⟩ := by
    refine ⟨"ls", ["-l"], ⟨?_, ?_⟩, ?_⟩
    · intro _ hexact
      exact absurd hexact (by decide +kernel)
    · intro hallowed
      cases hallowed
    · simp [appendAmendmentAndUpdate, blockingAppendAllowPrefixRule, hskip]
  exact amended_file_agrees_with_memory hostPaths writtenRulesReader
    ⟨gitRulesFile, gitPolicy⟩ _ terminated_gitRulesFile readRules_gitRulesFile
    ((Relation.ReflTransGen.single hfirst).tail hsecond)

end Witness

end Hexa.ExecPolicy
