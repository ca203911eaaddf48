/-
Policies from `prefix_rule` declarations: one rule for each alternative of the
first token, looked up by the program, decides like the declared patterns.
-/
import Hexa.ExecPolicy.Merge
import Hexa.ExecPolicy.RulesText

namespace Hexa.ExecPolicy

open List

universe u

variable {Path : Type u}

/-- The errors of `prefix_rule`, by their variant. -/
inductive RuleError where
  | invalidDecision (raw : String)
  | invalidPattern (message : String)
  | invalidRule (message : String)
  deriving DecidableEq

/-- A value in a pattern: a string, a list of strings and of other values, or
another value.  Of other values only the type is known. -/
inductive PatternValue where
  | text (value : String)
  | list (values : List (Except String String))
  | other (type : String)

def parsePatternToken : PatternValue → Except RuleError PatternToken
  | .text value => .ok (.single value)
  | .list values => do
    let tokens ← values.mapM (·.mapError fun type => .invalidPattern
      ("pattern alternative must be a string (got " ++ type ++ ")"))
    match tokens with
    | [] => .error (.invalidPattern "pattern alternatives cannot be empty")
    | [single] => .ok (.single single)
    | tokens => .ok (.alts tokens)
  | .other type => .error (.invalidPattern
    ("pattern element must be a string or list of strings (got " ++ type ++ ")"))

def parsePattern (pattern : List PatternValue) :
    Except RuleError (List PatternToken) := do
  let tokens ← pattern.mapM parsePatternToken
  if tokens = [] then .error (.invalidPattern "pattern cannot be empty")
  else .ok tokens

/-- `PatternToken::alternatives`. -/
def PatternToken.alternatives : PatternToken → List String
  | .single expected => [expected]
  | .alts alternatives => alternatives

/-- The arguments of `prefix_rule` but for the examples, which can only refuse
a file. -/
structure PrefixRuleCall where
  pattern : List PatternValue
  decision : Option String
  justification : Option String

/-- A checked declaration. -/
structure DeclaredRule where
  first : PatternToken
  rest : List PatternToken
  decision : Decision
  justification : Option String

def PrefixRuleCall.parse (call : PrefixRuleCall) :
    Except RuleError DeclaredRule := do
  let decision ← match call.decision with
    | some raw => match Decision.parse raw.toList with
      | some decision => .ok decision
      | none => .error (.invalidDecision raw)
    | none => .ok .allow
  let justification ← match call.justification with
    | some raw =>
      if trim raw.toList = [] then .error (.invalidRule "justification cannot be empty")
      else .ok (some raw)
    | none => .ok none
  match ← parsePattern call.pattern with
  | [] => .error (.invalidPattern "pattern cannot be empty")
  | first :: rest => return ⟨first, rest, decision, justification⟩

/-- The rules of a declaration, under their programs. -/
def DeclaredRule.entries (declared : DeclaredRule) : List (String × PrefixRule) :=
  declared.first.alternatives.map fun head =>
    (head, ⟨⟨head, declared.rest⟩, declared.decision, declared.justification⟩)

def prefixRule (policy : Policy Path) (call : PrefixRuleCall) : Except RuleError (Policy Path) :=
  call.parse.map fun declared =>
    { policy with
      rulesByProgram := policy.rulesByProgram ++ declared.entries }

/-- The words of a command meet the tokens of a pattern one by one. -/
def Meets : List PatternToken → List String → Prop :=
  List.Forall₂ fun token word => word ∈ token.alternatives

variable {cmd start : List String}

theorem meets_prefix_iff {tokens : List PatternToken} :
    start <+: cmd ∧ Meets tokens start ↔ tokens.length ≤ cmd.length ∧
        (tokens.zip cmd).all (fun pair => pair.1.matches pair.2) = true ∧
        start = cmd.take tokens.length := by
  induction tokens generalizing cmd start with
  | nil =>
    rw [Meets, forall₂_nil_left_iff]
    constructor
    · rintro ⟨-, rfl⟩
      simp
    · rintro ⟨-, -, rfl⟩
      simp
  | cons token tokens ih =>
    have hmatches : ∀ word, token.matches word = true ↔ word ∈ token.alternatives := by
      intro word
      cases token with
      | single expected =>
        rw [PatternToken.matches, beq_iff_eq, eq_comm]
        exact mem_singleton.symm
      | alts alternatives => simp [PatternToken.matches, PatternToken.alternatives]
    cases cmd with
    | nil =>
      refine iff_of_false ?_ (by simp)
      rintro ⟨hstart, hmeets⟩
      rw [prefix_nil.mp hstart] at hmeets
      cases hmeets
    | cons word cmd =>
      cases start with
      | nil => exact iff_of_false (nomatch ·.2) (by simp)
      | cons first start =>
        rw [cons_prefix_cons, Meets, forall₂_cons]
        simp only [length_cons, Nat.add_le_add_iff_right, zip_cons_cons,
          all_cons, Bool.and_eq_true, hmatches, take_succ_cons, List.cons.injEq]
        constructor
        · rintro ⟨⟨rfl, hstart⟩, hfirst, hmeets⟩
          obtain ⟨hlength, hall, heq⟩ := ih.mp ⟨hstart, hmeets⟩
          exact ⟨hlength, ⟨hfirst, hall⟩, rfl, heq⟩
        · rintro ⟨hlength, ⟨hfirst, hall⟩, rfl, heq⟩
          obtain ⟨hstart, hmeets⟩ := ih.mpr ⟨hlength, hall, heq⟩
          exact ⟨⟨rfl, hstart⟩, hfirst, hmeets⟩

/-- What a pattern matches: a start of the command that meets its tokens. -/
theorem matchesPrefix_eq_some_iff {pattern : PrefixPattern} :
    pattern.matchesPrefix cmd = some start ↔
      start <+: cmd ∧ Meets (.single pattern.first :: pattern.rest) start := by
  rw [meets_prefix_iff]
  cases cmd with
  | nil => simp [PrefixPattern.matchesPrefix]
  | cons program args =>
    simp only [PrefixPattern.matchesPrefix]
    split_ifs with hshort hall
    · refine iff_of_false nofun ?_
      rintro ⟨hlength, hall, -⟩
      simp [PatternToken.matches] at hlength hall
      rcases hshort with hlt | hne
      · omega
      · exact hne hall.1.symm
    · push Not at hshort
      obtain ⟨hlength, rfl⟩ := hshort
      constructor
      · rintro ⟨⟩
        exact ⟨Nat.succ_le_succ hlength, by simpa [PatternToken.matches] using hall, rfl⟩
      · rintro ⟨-, -, rfl⟩
        rfl
    · refine iff_of_false nofun ?_
      rintro ⟨-, hmatched, -⟩
      rw [zip_cons_cons, all_cons, Bool.and_eq_true] at hmatched
      exact hall hmatched.2

namespace Policy

variable {policy : Policy Path} {program : String} {rule : PrefixRule} {m : RuleMatch Path}

theorem mem_rulesFor_iff :
    rule ∈ policy.rulesFor program ↔ (program, rule) ∈ policy.rulesByProgram := by
  simp [rulesFor]

theorem mem_exactMatches_iff :
    m ∈ policy.exactMatches cmd ↔ ∃ first args rule, cmd = first :: args ∧
        (first, rule) ∈ policy.rulesByProgram ∧ rule.matches cmd = some m := by
  cases cmd with
  | nil => simp [exactMatches, matchExactRules]
  | cons first args =>
    simp only [exactMatches, matchExactRules, Option.getD_some, mem_filterMap, mem_rulesFor_iff]
    constructor
    · rintro ⟨rule, hrule, hmatch⟩
      exact ⟨first, args, rule, rfl, hrule, hmatch⟩
    · rintro ⟨first', args', rule, hcmd, hrule, hmatch⟩
      cases hcmd
      exact ⟨rule, hrule, hmatch⟩

end Policy

/-- A start of the command meets the pattern of a declared rule. -/
structure Hits (calls : List PrefixRuleCall) (cmd : List String)
    (declared : DeclaredRule) (start : List String) : Prop where
  call : ∃ call ∈ calls, call.parse = .ok declared
  leads : start <+: cmd
  meets : Meets (declared.first :: declared.rest) start

/-- What is reported for a command: the rules whose pattern meets a start of
it, or the fallback if there is none. -/
def Reported (calls : List PrefixRuleCall) (fallback : List String → Decision) (cmd : List String)
    (m : RuleMatch Path) : Prop :=
  (∃ declared start, Hits calls cmd declared start ∧ m = .prefixRuleMatch start
      declared.decision none declared.justification) ∨
    (∀ declared start, ¬Hits calls cmd declared start) ∧
      m = .heuristicsRuleMatch cmd (fallback cmd)

variable {calls : List PrefixRuleCall} {policy initial : Policy Path}

theorem mem_rulesByProgram_iff {entry : String × PrefixRule}
    (hpolicy : calls.foldlM prefixRule initial = .ok policy) :
    entry ∈ policy.rulesByProgram ↔ entry ∈ initial.rulesByProgram ∨
      ∃ declared, (∃ call ∈ calls, call.parse = .ok declared) ∧ entry ∈ declared.entries := by
  induction calls generalizing initial with
  | nil =>
    cases hpolicy
    simp
  | cons call calls ih =>
    rw [foldlM_cons, prefixRule] at hpolicy
    cases hcall : call.parse with
    | error error =>
      rw [hcall] at hpolicy
      cases hpolicy
    | ok declared =>
      rw [hcall] at hpolicy
      rw [ih hpolicy]
      simp [hcall, or_and_right, exists_or, or_assoc]

variable {m : RuleMatch Path}

/-- The rules under the program of a command are all that meet it. -/
theorem mem_exactMatches_iff_hits
    (hpolicy : calls.foldlM prefixRule ({} : Policy Path) = .ok policy) :
    m ∈ policy.exactMatches cmd ↔ ∃ declared start,
      Hits calls cmd declared start ∧ m = .prefixRuleMatch start
        declared.decision none declared.justification := by
  rw [Policy.mem_exactMatches_iff]
  constructor
  · rintro ⟨program, args, rule, rfl, hrule, hmatch⟩
    obtain ⟨declared, hcall, hentry⟩ :=
      ((mem_rulesByProgram_iff hpolicy).mp hrule).resolve_left not_mem_nil
    obtain ⟨head, hhead, heq⟩ := mem_map.mp hentry
    cases heq
    obtain ⟨start, hstart, rfl⟩ := Option.map_eq_some_iff.mp hmatch
    obtain ⟨hleads, hmeets⟩ := matchesPrefix_eq_some_iff.mp hstart
    cases hmeets with
    | cons hword hrest =>
      obtain rfl := mem_singleton.mp hword
      exact ⟨declared, _, ⟨hcall, hleads, .cons hhead hrest⟩, rfl⟩
  · rintro ⟨declared, start, ⟨hcall, hleads, hmeets⟩, rfl⟩
    cases hmeets with
  | @cons _ word _ tail hword hrest =>
    obtain ⟨rest, rfl⟩ := hleads
    refine ⟨word, tail ++ rest, _, rfl, (mem_rulesByProgram_iff hpolicy).mpr
      (.inr ⟨declared, hcall, mem_map_of_mem hword⟩), ?_⟩
    have hmatched : PrefixPattern.matchesPrefix ⟨word, declared.rest⟩
        (word :: tail ++ rest) = some (word :: tail) :=
      matchesPrefix_eq_some_iff.mpr ⟨prefix_append _ _, .cons mem_cons_self hrest⟩
    rw [PrefixRule.matches, hmatched]
    rfl

/-- Commands are decided by the strictest of the rules whose pattern meets a
start of one of them, and of the fallback for those without such a rule. -/
theorem check_multiple_strictest [DecidableEq Path]
    (hpolicy : calls.foldlM prefixRule ({} : Policy Path) = .ok policy) (paths : HostPaths Path)
    (fallback : List String → Decision) {commands : List (List String)}
    (hcommands : commands ≠ []) :
    ∃ decision reports, policy.checkMultipleWithOptions paths commands fallback false =
        some ⟨decision, commands.flatMap reports⟩ ∧
      (∀ cmd m, m ∈ reports cmd ↔ Reported calls fallback cmd m) ∧
      IsGreatest {decision | ∃ cmd ∈ commands, ∃ m : RuleMatch Path,
        Reported calls fallback cmd m ∧ m.decision = decision} decision := by
  let reports (cmd : List String) : List (RuleMatch Path) :=
    policy.matchesForCommandWithOptions paths cmd (some fallback) false
  have hreports : ∀ cmd m, m ∈ reports cmd ↔ Reported calls fallback cmd m := by
    intro cmd m
    have hnil : policy.exactMatches cmd = [] ↔
        ∀ declared start, ¬Hits calls cmd declared start := by
      simp only [eq_nil_iff_forall_not_mem, mem_exactMatches_iff_hits hpolicy]
      exact ⟨fun hnone declared start hhits => hnone _ ⟨declared, start, hhits,
        rfl⟩, fun hnone m ⟨declared, start, hhits, _⟩ => hnone declared start hhits⟩
    rw [Reported, ← mem_exactMatches_iff_hits hpolicy, ← hnil]
    by_cases hexact : policy.exactMatches cmd = []
    · simp [reports, Policy.matchesForCommandWithOptions, hexact]
    · simp [reports, Policy.matches_of_exact hexact, hexact]
  have hne : commands.flatMap reports ≠ [] := by
    rw [ne_eq, flatMap_eq_nil_iff]
    obtain ⟨cmd, hcmd⟩ := exists_mem_of_ne_nil _ hcommands
    exact fun hnil => Policy.matches_ne_nil false (hnil cmd hcmd)
  have hmax := max?_decision_eq hne
  refine ⟨_, reports, Evaluation.fromMatches_eq hne, hreports, ?_, ?_⟩
  · obtain ⟨m, hm, hdecision⟩ := mem_map.mp (max?_mem hmax)
    obtain ⟨cmd, hcmd, hm⟩ := mem_flatMap.mp hm
    exact ⟨cmd, hcmd, m, (hreports cmd m).mp hm, hdecision⟩
  · rintro _ ⟨cmd, hcmd, m, hreported, rfl⟩
    exact (strictest_le_iff _ _).mp le_rfl m (mem_flatMap.mpr
      ⟨cmd, hcmd, (hreports cmd m).mpr hreported⟩)

/-- `prefix_rule(pattern=[["git", "hg"], "push"])`. -/
def allowedPush : PrefixRuleCall := ⟨[.list [.ok "git", .ok "hg"], .text "push"], none, none⟩

/-- The rule allows the push and the fallback asks about the listing, which is
stricter. -/
theorem check_multiple_strictest_push :
    ∃ (policy : Policy Unit) (reports : List String → List (RuleMatch Unit)),
      [allowedPush].foldlM prefixRule {} = .ok policy ∧
        policy.checkMultipleWithOptions ⟨fun _ => none, fun _ => none⟩
          [["hg", "push"], ["ls"]] (fun _ => .prompt) false =
            some ⟨.prompt, [["hg", "push"], ["ls"]].flatMap reports⟩ ∧
        (∀ cmd m, m ∈ reports cmd ↔ Reported [allowedPush] (fun _ => .prompt) cmd m) ∧
        IsGreatest {decision | ∃ cmd ∈ [["hg", "push"], ["ls"]], ∃ m : RuleMatch Unit,
          Reported [allowedPush] (fun _ => .prompt) cmd m ∧ m.decision = decision} .prompt := by
  have hpolicy : [allowedPush].foldlM prefixRule ({} : Policy Unit) = .ok _ :=
    rfl
  obtain ⟨decision, reports, hcheck, hreports, hgreatest⟩ := check_multiple_strictest hpolicy
    ⟨fun _ => none, fun _ => none⟩ (fun _ => .prompt)
    (cons_ne_nil ["hg", "push"] [["ls"]])
  have hdecision : some decision = some .prompt :=
    (congrArg (Option.map Evaluation.decision) hcheck).symm
  cases hdecision
  exact ⟨_, reports, hpolicy, hcheck, hreports, hgreatest⟩

/-- No commands, no evaluation: the source panics. -/
theorem check_multiple_of_no_commands :
    ({} : Policy Unit).checkMultipleWithOptions ⟨fun _ => none, fun _ => none⟩
      [] (fun _ => .allow) false = none := rfl

end Hexa.ExecPolicy
