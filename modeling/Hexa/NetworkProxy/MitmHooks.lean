/-
Which hook a request matches, and what the match says of parameters and
headers that occur more than once.
-/
import Hexa.Lib.KeyedTable
import Hexa.Lib.PercentEncoding
import Hexa.NetworkProxy.Policy

namespace Hexa.NetworkProxy

open List

/-- The scan of `is_safe_segment_for_authorization`, with the dots so far and
whether there was anything else. -/
def scanSegment (dots : Nat) (nonDot : Bool) : Bytes → Bool
  | [] => nonDot || !(dots == 1 || dots == 2)
  | byte :: rest =>
    if byte = 0x2e then scanSegment (dots + 1) nonDot rest
    else if byte = 0x5c then false
    else if byte = percent then
      match rest with
      | high :: low :: rest =>
        match hexByteValue high, hexByteValue low with
        | some high, some low =>
          let decoded := high * 16 + low
          if decoded = 0x25 ∨ decoded = 0x2f ∨ decoded = 0x5c then false
          else if decoded = 0x2e then scanSegment (dots + 1) nonDot rest
          else scanSegment dots true rest
        | _, _ => false
      | _ => false
    else scanSegment dots true rest

def isSafeForAuthorization (path : Bytes) : Bool := (path.splitOn 0x2f).all (scanSegment 0 false)

inductive PathMatcher (Glob : Type) where
  | leading (text : Bytes)
  | glob (matcher : Glob)

inductive ValueMatcher (Glob : Type) where
  | exactly (value : Bytes)
  | glob (matcher : Glob)

/-- A `QueryConstraint` or a `HeaderConstraint`. -/
structure ValueConstraint (Glob : Type) where
  name : Bytes
  allowedValues : List (ValueMatcher Glob)

structure MitmHook (Glob Actions : Type) where
  methods : List Text
  pathPrefixes : List (PathMatcher Glob)
  query : List (ValueConstraint Glob)
  headers : List (ValueConstraint Glob)
  actions : Actions

inductive HookEvaluation (Actions : Type) where
  | noHooksForHost
  | matched (actions : Actions)
  | hookedHostNoMatch
  deriving DecidableEq

structure HookRequest where
  method : Text
  path : Bytes
  query : Option Bytes
  headers : List (Bytes × Bytes)

def valuesOf (name : Bytes) (pairs : List (Bytes × Bytes)) : List Bytes :=
  (pairs.filter (·.1 == name)).map Prod.snd

/-- `HeaderValue::to_str` accepts visible characters and tabs. -/
def isVisibleByte (byte : UInt8) : Bool := 32 ≤ byte.toNat && byte.toNat < 127 || byte == 9

section

variable {Glob Actions : Type} (isMatch : Glob → Bytes → Bool)
  (parseForm : Bytes → List (Bytes × Bytes))

def PathMatcher.matches (candidate : Bytes) : PathMatcher Glob → Bool
  | .leading text => text.isPrefixOf candidate
  | .glob matcher => isMatch matcher candidate

def ValueMatcher.matches (candidate : Bytes) : ValueMatcher Glob → Bool
  | .exactly value => value == candidate
  | .glob matcher => isMatch matcher candidate

def ValueConstraint.allowsQuery (constraint : ValueConstraint Glob) (candidate : Bytes) : Bool :=
  constraint.allowedValues.any (·.matches isMatch candidate)

def ValueConstraint.allowsHeader (constraint : ValueConstraint Glob) (value : Bytes) : Bool :=
  constraint.allowedValues.isEmpty ||
    value.all isVisibleByte && constraint.allowsQuery isMatch value

variable (request : HookRequest) (hook : MitmHook Glob Actions)

def HookRequest.queryPairs : List (Bytes × Bytes) := parseForm (request.query.getD [])

def hookMatches : Bool :=
  hook.methods.contains (request.method.map Char.toUpper) &&
    isSafeForAuthorization request.path &&
    hook.pathPrefixes.any (·.matches isMatch request.path) &&
    hook.query.all (fun constraint =>
      (valuesOf constraint.name (request.queryPairs parseForm)).any
        (constraint.allowsQuery isMatch)) &&
    hook.headers.all (fun constraint =>
      (valuesOf constraint.name request.headers).any (constraint.allowsHeader isMatch))

def matchedHook (hooks : List (MitmHook Glob Actions)) : Option (MitmHook Glob Actions) :=
  hooks.find? (hookMatches isMatch parseForm request)

def evaluateMitmHooks (hooksByHost : KeyedTable Text (List (MitmHook Glob Actions)))
    (host : Text) : HookEvaluation Actions :=
  match hooksByHost.lookup (normalizeHost host) with
  | none => .noHooksForHost
  | some hooks =>
    match matchedHook isMatch parseForm request hooks with
    | some hook => .matched hook.actions
    | none => .hookedHostNoMatch

/-- A relation between occurrences, for every constrained name. -/
def ForOccurrences (relates : (Bytes → Bool) → List Bytes → Prop) : Prop :=
  (∀ constraint ∈ hook.query, relates (constraint.allowsQuery isMatch)
    (valuesOf constraint.name (request.queryPairs parseForm))) ∧
  ∀ constraint ∈ hook.headers, relates (constraint.allowsHeader isMatch)
    (valuesOf constraint.name request.headers)

/-- The request repeats no name that the hook constrains. -/
def NamesOnce : Prop :=
  (∀ constraint ∈ hook.query,
    ((request.queryPairs parseForm).map Prod.fst).count constraint.name ≤ 1) ∧
  ∀ constraint ∈ hook.headers, (request.headers.map Prod.fst).count constraint.name ≤ 1

end

/-- Whichever occurrence is used, it is allowed. -/
def AllAllowed (allows : Bytes → Bool) (values : List Bytes) : Prop :=
  ∀ value ∈ values, allows value = true

/-- No value that is not allowed comes with a second occurrence. -/
def RepeatsAllowed (allows : Bytes → Bool) (values : List Bytes) : Prop :=
  1 < values.length → ∀ value ∈ values, allows value = true

theorem allAllowed_iff_repeatsAllowed {allows : Bytes → Bool} {values : List Bytes}
    (hsome : values.any allows = true) :
    AllAllowed allows values ↔ RepeatsAllowed allows values := by
  constructor
  · intro hall _
    exact hall
  · intro hrepeats value hvalue
    by_cases hlong : 1 < values.length
    · exact hrepeats hlong value hvalue
    · -- the allowed occurrence is the only one
      obtain ⟨allowed, hallowed, htrue⟩ := any_eq_true.mp hsome
      obtain ⟨only, rfl⟩ := length_eq_one_iff.mp
        (Nat.le_antisymm (Nat.not_lt.mp hlong) (length_pos_of_mem hvalue))
      rw [mem_singleton.mp hvalue, ← mem_singleton.mp hallowed, htrue]

theorem length_valuesOf (name : Bytes) (pairs : List (Bytes × Bytes)) :
    (valuesOf name pairs).length = (pairs.map Prod.fst).count name := by
  rw [valuesOf, length_map, ← countP_eq_length_filter, count, countP_map]
  rfl

section

variable {Glob Actions : Type} {isMatch : Glob → Bytes → Bool}
  {parseForm : Bytes → List (Bytes × Bytes)} {request : HookRequest}

/-- The constraints of the hook that a request matches hold whichever
occurrence of a repeated parameter or header is used, exactly if no constrained
name is repeated with a value that is not allowed; so they hold if the request
repeats no constrained name. -/
theorem matched_constraints_hold_iff
    {hooksByHost : KeyedTable Text (List (MitmHook Glob Actions))} {host : Text}
    {actions : Actions}
    (hmatched : evaluateMitmHooks isMatch parseForm request hooksByHost host = .matched actions) :
    ∃ hooks hook, hooksByHost.lookup (normalizeHost host) = some hooks ∧
      matchedHook isMatch parseForm request hooks = some hook ∧
      hook.actions = actions ∧
      (ForOccurrences isMatch parseForm request hook AllAllowed ↔
        ForOccurrences isMatch parseForm request hook RepeatsAllowed) ∧
      (NamesOnce parseForm request hook →
        ForOccurrences isMatch parseForm request hook AllAllowed) := by
  unfold evaluateMitmHooks at hmatched
  cases hhooks : hooksByHost.lookup (normalizeHost host) with
  | none => simp [hhooks] at hmatched
  | some hooks =>
    cases hfound : matchedHook isMatch parseForm request hooks with
    | none => simp [hhooks, hfound] at hmatched
    | some hook =>
      simp only [hhooks, hfound, HookEvaluation.matched.injEq] at hmatched
      have hmatches := find?_some hfound
      simp only [hookMatches, Bool.and_eq_true, all_eq_true] at hmatches
      have hiff : ForOccurrences isMatch parseForm request hook AllAllowed ↔
          ForOccurrences isMatch parseForm request hook RepeatsAllowed :=
        and_congr
          (forall₂_congr fun constraint hmem =>
            allAllowed_iff_repeatsAllowed (hmatches.1.2 constraint hmem))
          (forall₂_congr fun constraint hmem =>
            allAllowed_iff_repeatsAllowed (hmatches.2 constraint hmem))
      refine ⟨hooks, hook, rfl, hfound, hmatched, hiff, fun honce => hiff.mpr ⟨?_, ?_⟩⟩
      · intro constraint hmem hlong
        rw [length_valuesOf] at hlong
        exact absurd (honce.1 constraint hmem) (Nat.not_le.mpr hlong)
      · intro constraint hmem hlong
        rw [length_valuesOf] at hlong
        exact absurd (honce.2 constraint hmem) (Nat.not_le.mpr hlong)

end

namespace Witness

/-- What the crate reads from a query without `%`, `+` and empty parts. -/
def plainForm (query : Bytes) : List (Bytes × Bytes) :=
  (query.splitOn 0x26).map (fun part =>
    (part.takeWhile (· != 0x3d), (part.dropWhile (· != 0x3d)).tail))

/-- A hook for `GET` requests in which the parameter `a` is `1`. -/
def parameterHook : MitmHook Empty Unit :=
  ⟨["GET".toList], [.leading [0x2f]], [⟨[97], [.exactly [49]]⟩], [], ()⟩

def hookedHosts : KeyedTable Text (List (MitmHook Empty Unit)) :=
  (∅ : KeyedTable Text _).insert ['h'] [parameterHook]

def asking (query : Bytes) : HookRequest := ⟨"GET".toList, [0x2f], some query, []⟩

/-- The request `/?a=1&b=2&b=3`. -/
theorem single_parameter_holds :
    ForOccurrences nofun plainForm
      (asking [97, 0x3d, 49, 0x26, 98, 0x3d, 50, 0x26, 98, 0x3d, 51]) parameterHook
      AllAllowed := by
  obtain ⟨hooks, hook, hhooks, hhook, -, -, honce⟩ :=
    @matched_constraints_hold_iff Empty Unit nofun plainForm
      (asking [97, 0x3d, 49, 0x26, 98, 0x3d, 50, 0x26, 98, 0x3d, 51]) hookedHosts ['h'] ()
      (by decide)
  obtain rfl := Option.some.inj hhooks
  obtain rfl := Option.some.inj hhook
  refine honce ⟨fun constraint hmem => ?_, nofun⟩
  rw [mem_singleton.mp hmem]
  decide

/-- The request `/?a=1&a=2` matches although its second value is not
allowed. -/
theorem repeated_parameter_matches :
    evaluateMitmHooks nofun plainForm
        (asking [97, 0x3d, 49, 0x26, 97, 0x3d, 50]) hookedHosts ['h'] =
        .matched () ∧
      ¬ ForOccurrences nofun plainForm
        (asking [97, 0x3d, 49, 0x26, 97, 0x3d, 50]) parameterHook
        AllAllowed := by
  refine ⟨by decide, fun hall => ?_⟩
  have hsecond := hall.1 _ mem_cons_self [50] (by decide)
  exact absurd hsecond (by decide)

end Witness

end Hexa.NetworkProxy
