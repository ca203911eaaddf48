/-
Rules that give modes to subtrees, and rules that guard names in them.  A path has the mode of the
most specific rule above it, and of rules for the same place the greatest mode.
-/
import Mathlib

namespace Hexa

open List

universe u v

variable {Name : Type u} {Mode : Type v}

/-- A mode for the subtree of a place. -/
structure PathRule (Name : Type u) (Mode : Type v) where
  place : List Name
  mode : Mode

section Decides

variable [LinearOrder Mode]

/-- More specific, or of a greater mode for the same place. -/
def PathRule.key (rule : PathRule Name Mode) : ℕ ×ₗ Mode := toLex (rule.place.length, rule.mode)

/-- The rule that decides a path. -/
structure Decides (rules : List (PathRule Name Mode)) (path : List Name)
    (rule : PathRule Name Mode) : Prop where
  mem : rule ∈ rules
  covers : rule.place <+: path
  key_le : ∀ other ∈ rules, other.place <+: path → other.key ≤ rule.key

variable {rules : List (PathRule Name Mode)} {path : List Name} {rule other : PathRule Name Mode}

/-- Two rules that decide a path have the same mode. -/
theorem Decides.mode_unique (hrule : Decides rules path rule)
    (hother : Decides rules path other) : rule.mode = other.mode := by
  have hkey := le_antisymm (hother.key_le rule hrule.mem hrule.covers)
    (hrule.key_le other hother.mem hother.covers)
  exact congrArg (fun key => (ofLex key).2) hkey

/-- Some rule decides a path that any covers. -/
theorem exists_decides (hmem : rule ∈ rules) (hcovers : rule.place <+: path) :
    ∃ decider, Decides rules path decider ∧ rule.key ≤ decider.key := by
  classical
  let above := rules.filter (fun rule => decide (rule.place <+: path))
  have hrule : rule ∈ above := mem_filter.mpr ⟨hmem, by simpa using hcovers⟩
  cases hmax : above.argmax PathRule.key with
  | none =>
    rw [argmax_eq_none.mp hmax] at hrule
    cases hrule
  | some decider =>
    obtain ⟨hin, hover⟩ := mem_filter.mp (argmax_mem hmax)
    have hle : ∀ other ∈ rules, other.place <+: path → other.key ≤ decider.key := by
      intro other hother hleading
      refine le_of_mem_argmax (mem_filter.mpr ⟨hother, ?_⟩) hmax
      simpa using hleading
    exact ⟨decider, ⟨hin, by simpa using hover, hle⟩, hle rule hmem hcovers⟩

/-- A rule decides all that lies between its place and a path it decides. -/
theorem Decides.between (hdecides : Decides rules path rule) {middle : List Name}
    (hbelow : rule.place <+: middle) (habove : middle <+: path) : Decides rules middle rule where
  mem := hdecides.mem
  covers := hbelow
  key_le other hother hcovers := hdecides.key_le other hother (hcovers.trans habove)

/-- Further down a path the mode changes only by a rule for a place below. -/
theorem Decides.mode_eq_or_below {place : List Name} (hplace : Decides rules place rule)
    (hpath : Decides rules path other) (habove : place <+: path) :
    other.mode = rule.mode ∨ place.length < other.place.length := by
  by_cases hlength : other.place.length ≤ place.length
  · have hcovers : other.place <+: place := prefix_of_prefix_length_le hpath.covers habove hlength
    exact .inl ((hpath.between hcovers habove).mode_unique hplace)
  · exact .inr (Nat.lt_of_not_le hlength)

section

variable [DecidableEq Name]

/-- The mode of a path; the default one without a rule. -/
def modeAt (default : Mode) (rules : List (PathRule Name Mode)) (path : List Name) : Mode :=
  ((rules.filter (fun rule => rule.place <+: path)).argmax
    PathRule.key).elim default PathRule.mode

variable {default : Mode}

theorem Decides.modeAt_eq (hdecides : Decides rules path rule) :
    modeAt default rules path = rule.mode := by
  rw [modeAt]
  cases hmax : (rules.filter (fun rule => rule.place <+: path)).argmax PathRule.key with
  | none =>
    have hmem : rule ∈ rules.filter (fun rule => rule.place <+: path) :=
      mem_filter.mpr ⟨hdecides.mem, by simpa using hdecides.covers⟩
    rw [argmax_eq_none.mp hmax] at hmem
    cases hmem
  | some decider =>
    obtain ⟨hmem, hcovers⟩ := mem_filter.mp (argmax_mem hmax)
    have hdecider : Decides rules path decider :=
      ⟨hmem, by simpa using hcovers, fun other hother hover =>
        le_of_mem_argmax (mem_filter.mpr ⟨hother, by simpa using hover⟩) hmax⟩
    exact hdecider.mode_unique hdecides

theorem modeAt_eq_default (hnone : ∀ rule ∈ rules, ¬rule.place <+: path) :
    modeAt default rules path = default := by
  have hempty : rules.filter (fun rule => rule.place <+: path) = [] := by
    rw [filter_eq_nil_iff]
    intro rule hrule
    simpa using hnone rule hrule
  rw [modeAt, hempty]
  rfl

/-- A mode other than the default one comes from a rule. -/
theorem exists_decides_of_modeAt_ne (hne : modeAt default rules path ≠ default) :
    ∃ rule, Decides rules path rule ∧ rule.mode = modeAt default rules path := by
  by_cases hcovered : ∃ rule ∈ rules, rule.place <+: path
  · obtain ⟨rule, hrule, hcovers⟩ := hcovered
    obtain ⟨decider, hdecider, -⟩ := exists_decides hrule hcovers
    exact ⟨decider, hdecider, hdecider.modeAt_eq.symm⟩
  · push Not at hcovered
    exact absurd (modeAt_eq_default hcovered) hne

end

end Decides

/-! Guarded names below the places of rules.  A rule of the opening mode guards
the directories of certain names right below its place, and a rule of that
mode at or below such a directory opens it again.  Of the rules that guard a
path only the first one counts. -/

open PathRule

variable [DecidableEq Name] [LinearOrder Mode] (opening : Mode) (names : List Name)

/-- The path lies in a guarded directory of the rule. -/
def PathRule.Guards (path : List Name) (rule : PathRule Name Mode) : Prop :=
  rule.mode = opening ∧ ∃ name ∈ names, rule.place ++ [name] <+: path

instance (opening : Mode) (names path : List Name) (rule : PathRule Name Mode) :
    Decidable (rule.Guards opening names path) :=
  @instDecidableAnd _ _ inferInstance (decidableBEx _ _)

variable (rules : List (PathRule Name Mode))

def firstGuard (path : List Name) : Option (PathRule Name Mode) :=
  rules.find? (fun rule => rule.Guards opening names path)

/-- The directory right below the place of the rule, towards the path. -/
def PathRule.guard (rule : PathRule Name Mode) (path : List Name) : List Name :=
  path.take (rule.place.length + 1)

/-- A rule of the opening mode between the directory and the path. -/
def Opens (path guard : List Name) : Prop :=
  ∃ rule ∈ rules, rule.mode = opening ∧ guard <+: rule.place ∧ rule.place <+: path

/-- The first guarded directory around the path is opened, if there is one. -/
def Unguarded (path : List Name) : Prop :=
  ∀ rule, firstGuard opening names rules path = some rule →
    Opens opening rules path (rule.guard path)

variable {opening : Mode} {names : List Name} {rules : List (PathRule Name Mode)}
  {path middle : List Name} {rule : PathRule Name Mode}

section

omit [DecidableEq Name] [LinearOrder Mode]

theorem PathRule.guard_eq {name : Name} (hcovers : rule.place ++ [name] <+: path) :
    rule.guard path = rule.place ++ [name] := by
  rw [PathRule.guard, prefix_iff_eq_take.mp hcovers]
  simp

theorem PathRule.guard_prefix : rule.guard path <+: path := take_prefix _ _

/-- Between the guarded directory and the path the directory is the same. -/
theorem PathRule.guard_between (hbelow : rule.guard path <+: middle) (habove : middle <+: path) :
    rule.guard middle = rule.guard path := by
  have hle := hbelow.length_le
  have hshort := habove.length_le
  have hlength : (rule.guard middle).length = (rule.guard path).length := by
    simp only [PathRule.guard, length_take] at hle ⊢
    omega
  refine (prefix_of_prefix_length_le
    ( guard_prefix.trans habove) guard_prefix
    hlength.le).eq_of_length hlength

theorem PathRule.Guards.mono (hguards : rule.Guards opening names middle)
    (habove : middle <+: path) : rule.Guards opening names path := by
  obtain ⟨hmode, name, hname, hcovers⟩ := hguards
  exact ⟨hmode, name, hname, hcovers.trans habove⟩

theorem PathRule.Guards.between (hguards : rule.Guards opening names path)
    (hbelow : rule.guard path <+: middle) : rule.Guards opening names middle := by
  obtain ⟨hmode, name, hname, hcovers⟩ := hguards
  exact ⟨hmode, name, hname, guard_eq hcovers ▸ hbelow⟩

theorem Opens.mono {guard : List Name} (hopens : Opens opening rules middle guard)
    (habove : middle <+: path) : Opens opening rules path guard := by
  obtain ⟨rule, hrule, hmode, hbelow, hcovers⟩ := hopens
  exact ⟨rule, hrule, hmode, hbelow, hcovers.trans habove⟩

end

theorem firstGuard_eq_some :
    firstGuard opening names rules path = some rule ↔
      rule.Guards opening names path ∧ ∃ before after,
        rules = before ++ rule :: after ∧
        ∀ other ∈ before, ¬other.Guards opening names path := by
  rw [firstGuard, find?_eq_some_iff_append]
  simp

/-- What opens a place between the guarded directory and the path opens the
path. -/
theorem Unguarded.opens (hmiddle : Unguarded opening names rules middle)
    (hfirst : firstGuard opening names rules path = some rule)
    (hbelow : rule.guard path <+: middle) (habove : middle <+: path) :
    Opens opening rules path (rule.guard path) := by
  obtain ⟨hguards, before, after, hsplit, hnone⟩ := firstGuard_eq_some.mp hfirst
  have hopens := hmiddle rule (firstGuard_eq_some.mpr ⟨hguards.between hbelow,
    before, after, hsplit, fun other hother hmiddle => hnone other hother (hmiddle.mono habove)⟩)
  rw [guard_between hbelow habove] at hopens
  exact hopens.mono habove

end Hexa
