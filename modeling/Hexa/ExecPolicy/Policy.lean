/-
Command execution rules: prefix patterns keyed by the program token, matching
with resolution of absolute programs to their base name, evaluation to the
strictest decision, and the overlay of one policy on another.
-/
import Mathlib

namespace Hexa.ExecPolicy

universe u

inductive Decision where
  | allow
  | prompt
  | forbidden
  deriving Repr, DecidableEq

/-- The declaration order of the variants, which the derived `Ord` uses. -/
def Decision.rank : Decision → Nat
  | .allow => 0
  | .prompt => 1
  | .forbidden => 2

theorem Decision.rank_injective : Function.Injective Decision.rank := by
  intro first second hrank
  cases first <;> cases second <;> first | rfl | cases hrank

instance : LinearOrder Decision := LinearOrder.lift' Decision.rank Decision.rank_injective

@[simp]
theorem Decision.allow_le (decision : Decision) : .allow ≤ decision := Nat.zero_le decision.rank

inductive Error where
  | invalidPattern (message : String)
  deriving Repr, DecidableEq

inductive PatternToken where
  | single (expected : String)
  | alts (alternatives : List String)
  deriving Repr, DecidableEq

def PatternToken.matches : PatternToken → String → Bool
  | .single expected, token => expected == token
  | .alts alternatives, token => alternatives.any (· == token)

structure PrefixPattern where
  first : String
  rest : List PatternToken
  deriving Repr, DecidableEq

def PrefixPattern.matchesPrefix (pattern : PrefixPattern) (cmd : List String) :
    Option (List String) :=
  match cmd with
  | [] => none
  | program :: args =>
    if args.length < pattern.rest.length ∨ program ≠ pattern.first then none
    else if (pattern.rest.zip args).all (fun pair =>
        pair.1.matches pair.2) then
      some (program :: args.take pattern.rest.length)
    else none

structure PrefixRule where
  pattern : PrefixPattern
  decision : Decision
  justification : Option String
  deriving Repr, DecidableEq

inductive NetworkRuleProtocol where
  | http
  | https
  | socks5Tcp
  | socks5Udp
  deriving Repr, DecidableEq

structure NetworkRule where
  host : String
  protocol : NetworkRuleProtocol
  decision : Decision
  justification : Option String
  deriving Repr, DecidableEq

inductive RuleMatch (Path : Type u) where
  | prefixRuleMatch (matchedPrefix : List String) (decision : Decision)
      (resolvedProgram : Option Path) (justification : Option String)
  | heuristicsRuleMatch (command : List String) (decision : Decision)
  deriving Repr, DecidableEq

namespace RuleMatch

variable {Path : Type u}

def decision : RuleMatch Path → Decision
  | .prefixRuleMatch _ decision _ _ => decision
  | .heuristicsRuleMatch _ decision => decision

def withResolvedProgram (program : Path) : RuleMatch Path → RuleMatch Path
  | .prefixRuleMatch matchedPrefix decision _ justification =>
    .prefixRuleMatch matchedPrefix decision (some program) justification
  | other => other

@[simp]
theorem decision_withResolvedProgram (program : Path) (ruleMatch : RuleMatch Path) :
    (ruleMatch.withResolvedProgram program).decision = ruleMatch.decision := by
  cases ruleMatch <;> rfl

end RuleMatch

def PrefixRule.matches {Path : Type u} (rule : PrefixRule) (cmd : List String) :
    Option (RuleMatch Path) :=
  (rule.pattern.matchesPrefix cmd).map (fun matchedPrefix =>
    .prefixRuleMatch matchedPrefix rule.decision none rule.justification)

/-- How a program token becomes an absolute path, and a path the key of the
rules for its base name.  Both depend on the platform. -/
structure HostPaths (Path : Type u) where
  absolutePath : String → Option Path
  lookupKey : Path → Option String

variable (currentDir home : Option (List (List Char)))

namespace Posix

/-- The components of a path without empty and `.` components. -/
def components (raw : List Char) : List (List Char) :=
  (raw.splitOn '/').filter (fun part => part ≠ [] ∧ part ≠ ['.'])

/-- `normalize_path`: a `..` component removes the one before it. -/
def normalize (parts : List (List Char)) : List (List Char) :=
  parts.foldl (fun normalized part =>
    if part = ['.', '.'] then normalized.dropLast else normalized ++ [part]) []

/-- `maybe_expand_home_directory` followed by `absolutize`. -/
def absolutize (raw : List Char) : Option (List (List Char)) :=
  match raw, home with
  | ['~'], some home => some (normalize home)
  | '~' :: '/' :: rest, some home => some (normalize (home ++ components rest))
  | '/' :: rest, _ => some (normalize (components rest))
  | _, _ => currentDir.map (fun dir => normalize (dir ++ components raw))

end Posix

/-- The paths of a Unix host with the given current and home directories.  A
path is the list of its components. -/
def posixHostPaths :
    HostPaths (List (List Char)) where
  absolutePath raw := Posix.absolutize currentDir home raw.toList
  lookupKey path := path.getLast?.map String.ofList

/-- `Policy`.  The multimap is the list of its insertions. -/
structure Policy (Path : Type u) where
  rulesByProgram : List (String × PrefixRule) := []
  networkRules : List NetworkRule := []
  hostExecutablesByName : AList (fun _ : String => List Path) := ∅

/-- `Evaluation`. -/
structure Evaluation (Path : Type u) where
  decision : Decision
  matchedRules : List (RuleMatch Path)
  deriving DecidableEq

/-- `Evaluation::from_matches`; no match at all is the panic of the source. -/
def Evaluation.fromMatches {Path : Type u} (matchedRules : List (RuleMatch Path)) :
    Option (Evaluation Path) :=
  (matchedRules.map RuleMatch.decision).max?.map (fun decision => { decision, matchedRules })

namespace Policy

variable {Path : Type u} [DecidableEq Path] (policy : Policy Path)

/-- `rules_by_program.get_vec`, with the empty list for no entry. -/
def rulesFor (program : String) : List PrefixRule :=
  (policy.rulesByProgram.filter (fun entry => entry.1 == program)).map (·.2)

def addPrefixRule (tokens : List String) (decision : Decision) : Except Error (Policy Path) :=
  match tokens with
  | [] => .error (.invalidPattern "prefix cannot be empty")
  | first :: rest =>
    let rule : PrefixRule :=
      { pattern := { first, rest := rest.map .single }
        decision
        justification := none }
    .ok { policy with
      rulesByProgram := policy.rulesByProgram ++ [(first, rule)] }

def mergeOverlay (policy overlay : Policy Path) : Policy Path where
  rulesByProgram := policy.rulesByProgram ++ overlay.rulesByProgram
  networkRules := policy.networkRules ++ overlay.networkRules
  hostExecutablesByName := overlay.hostExecutablesByName ∪ policy.hostExecutablesByName

def matchExactRules (cmd : List String) : Option (List (RuleMatch Path)) :=
  match cmd with
  | [] => none
  | first :: _ => some ((policy.rulesFor first).filterMap (fun rule => rule.matches cmd))

/-- The `host_executable` entry for a base name admits the program. -/
def admitsProgram (basename : String) (program : Path) : Bool :=
  match policy.hostExecutablesByName.lookup basename with
  | none => true
  | some paths => paths.any (fun path => path = program)

variable (paths : HostPaths Path) (policy : Policy Path) (cmd : List String)

def matchHostExecutableRules : List (RuleMatch Path) :=
  match cmd with
  | [] => []
  | first :: args =>
    match paths.absolutePath first with
    | none => []
    | some program =>
      match paths.lookupKey program with
      | none => []
      | some basename =>
        if policy.admitsProgram basename program then
          (policy.rulesFor basename).filterMap (fun rule =>
            (rule.matches (basename :: args)).map (RuleMatch.withResolvedProgram program))
        else []

/-- `match_exact_rules` with no program token counted as no match. -/
def exactMatches : List (RuleMatch Path) := (policy.matchExactRules cmd).getD []

def matchesForCommandWithOptions (heuristicsFallback : Option (List String → Decision))
    (resolveHostExecutables : Bool) : List (RuleMatch Path) :=
  let matchedRules :=
    if policy.exactMatches cmd ≠ [] then policy.exactMatches cmd
    else if resolveHostExecutables then policy.matchHostExecutableRules paths cmd
    else []
  match matchedRules, heuristicsFallback with
  | [], some fallback => [.heuristicsRuleMatch cmd (fallback cmd)]
  | _, _ => matchedRules

def checkWithOptions (heuristicsFallback : List String → Decision)
    (resolveHostExecutables : Bool) : Option (Evaluation Path) :=
  Evaluation.fromMatches (policy.matchesForCommandWithOptions paths cmd
    (some heuristicsFallback) resolveHostExecutables)

def checkMultipleWithOptions (commands : List (List String))
    (heuristicsFallback : List String → Decision) (resolveHostExecutables : Bool) :
    Option (Evaluation Path) :=
  Evaluation.fromMatches (commands.flatMap (fun cmd =>
    policy.matchesForCommandWithOptions paths cmd (some heuristicsFallback)
      resolveHostExecutables))

end Policy

end Hexa.ExecPolicy
