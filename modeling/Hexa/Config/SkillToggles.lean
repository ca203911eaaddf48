/-
Turning a skill on and off in the configuration document: which overrides the
edit writes and drops, for every form their list can be written in.
-/
import Hexa.Lib.RustStr

namespace Hexa.SkillConfig

open List

/-- Paths as `PathBuf` compares them, with `normalize_skill_config_path`. -/
class SkillPaths (Path : Type) where
  normalize : Path → Path
  normalize_normalize : ∀ path, normalize (normalize path) = normalize path

inductive Selector (Path : Type)
  | name (name : Text)
  | path (path : Path)
  deriving DecidableEq

/-- The strings under `path` and `name` and the boolean under `enabled`. -/
structure Override (Path : Type) where
  path : Option Path := none
  name : Option Text := none
  enabled : Option Bool := none
  deriving DecidableEq

/-- What stands under `skills.config`: an array of tables, or any other item
with the tables of an inline array. -/
inductive ConfigItem (Path : Type)
  | arrayOfTables (overrides : List (Override Path))
  | value (overrides : List (Override Path))

structure SkillsTable (Path : Type) where
  config : Option (ConfigItem Path) := none
  otherKeys : List Text := []

/-- What stands under `skills`. -/
inductive SkillsItem (Path : Type)
  | table (skills : SkillsTable Path)
  | inlineTable (skills : SkillsTable Path)
  | value
  | arrayOfTables

variable {Path : Type} (selector : Selector Path) (enabled : Bool)

def ensureTableForWrite : SkillsItem Path → Option (SkillsTable Path)
  | .table skills | .inlineTable skills => some skills
  | .value => some {}
  | .arrayOfTables => none

/-- `write_skill_config_selector`, and `enabled = false`. -/
def disable (table : Override Path) : Override Path :=
  match selector with
  | .name name => { table with path := none, name, enabled := some false }
  | .path path => { table with path, name := none, enabled := some false }

variable [SkillPaths Path]

def selectorFromTable (table : Override Path) : Option (Selector Path) :=
  match table.path.map SkillPaths.normalize,
    (table.name.map trim).filter (fun name => name ≠ []) with
  | some path, none => some (.path path)
  | none, some name => some (.name name)
  | _, _ => none

/-- A selector as the edit compares it. -/
def normalized : Selector Path → Selector Path
  | .name name => .name (trim name)
  | .path path => .path (SkillPaths.normalize path)

variable {selector} in
theorem selector_disable (hvalid : normalized selector ≠ .name []) (table : Override Path) :
    selectorFromTable (disable (normalized selector) table) = some (normalized selector) := by
  cases selector with
  | name name =>
    have hname : trim name ≠ [] := by simpa [normalized] using hvalid
    simp [normalized, disable, selectorFromTable, trim_trim, hname, Option.filter]
  | path path => simp [normalized, disable, selectorFromTable, SkillPaths.normalize_normalize]

variable [DecidableEq Path]

/-- The edit of the first override that has the selector. -/
def toggleOverrides : List (Override Path) → List (Override Path) × Bool
  | [] => if enabled then ([], false) else ([disable selector {}], true)
  | table :: rest =>
    if selectorFromTable table = some selector then
      (if enabled then rest else disable selector table :: rest, true)
    else (table :: (toggleOverrides rest).1, (toggleOverrides rest).2)

/-- The edit of the table under `skills`. -/
def editSkills (skills : SkillsTable Path) : Option (SkillsItem Path) × Bool :=
  let list := match skills.config with
    | some (.arrayOfTables overrides) => some overrides
    | _ => if enabled then none else some []
  match list with
  | none => (some (.table skills), false)
  | some overrides =>
    let (rest, mutated) := toggleOverrides selector enabled overrides
    if enabled ∧ mutated ∧ rest = [] then
      (if skills.otherKeys = [] then none else some (.table { skills with config := none }), true)
    else (some (.table { skills with config := some (.arrayOfTables rest) }), mutated)

/-- The edit of what stands under `skills`; the rest of the document stays. -/
def setSkillConfig (skills : Option (SkillsItem Path)) : Option (SkillsItem Path) × Bool :=
  if normalized selector = .name [] then (skills, false)
  else match skills.bind ensureTableForWrite with
    | some table => editSkills (normalized selector) enabled table
    | none => if enabled then (skills, false)
      else editSkills (normalized selector) enabled {}

def skillsTable (skills : Option (SkillsItem Path)) : SkillsTable Path :=
  (skills.bind ensureTableForWrite).getD {}

/-- The overrides of a table, however they are written. -/
def overrides (skills : SkillsTable Path) : List (Override Path) :=
  match skills.config with
  | some (.arrayOfTables overrides) | some (.value overrides) => overrides
  | none => []

def overridesOf (overrides : List (Override Path)) : List (Override Path) :=
  overrides.filter (selectorFromTable · = some selector)

def Disabling (overrides : List (Override Path)) : Prop :=
  ∃ table ∈ overrides, table.enabled = some false

/-- The edit did what it is for, and nothing to the other selectors. -/
structure Toggled (before after : List (Override Path)) : Prop where
  effect : Disabling (overridesOf selector after) ↔ enabled = false
  frame : ∀ other ≠ selector, overridesOf other after = overridesOf other before

/-- What the table must be like for the edit to be exact. -/
def Toggleable (skills : SkillsTable Path) : Prop :=
  match skills.config with
  | some (.value list) =>
    if enabled then ¬Disabling (overridesOf selector list)
    else ∀ other ≠ selector, overridesOf other list = []
  | _ => enabled = true → ¬Disabling (overridesOf selector (overrides skills)).tail

section

variable {selector} (list : List (Override Path))

/-- The edit works on the first override of its selector. -/
theorem overridesOf_toggled
    (hwritten : ∀ table, selectorFromTable (disable selector table) = some selector) :
    overridesOf selector (toggleOverrides selector enabled list).1 =
      (if enabled then [] else [disable selector ((overridesOf selector list).headD {})]) ++
      (overridesOf selector list).tail ∧
    ∀ other ≠ selector, overridesOf other
      (toggleOverrides selector enabled list).1 = overridesOf other list := by
  simp only [overridesOf]
  induction list with
  | nil =>
    cases enabled <;> simp +contextual [toggleOverrides, hwritten, eq_comm]
  | cons table rest ih =>
    rw [toggleOverrides]
    by_cases htable : selectorFromTable table = some selector
    · cases enabled <;> simp +contextual [htable, hwritten, eq_comm]
    · rw [if_neg htable]
      simp only [filter_cons, htable, decide_false, Bool.false_eq_true, if_false]
      refine ⟨ih.1, fun other hother => ?_⟩
      rw [ih.2 other hother]

theorem toggleOverrides_toggled_iff
    (hwritten : ∀ table, selectorFromTable (disable selector table) = some selector) :
    Toggled selector enabled list (toggleOverrides selector enabled list).1 ↔
      (enabled = true → ¬Disabling (overridesOf selector list).tail) := by
  obtain ⟨hself, hframe⟩ := overridesOf_toggled enabled list hwritten
  cases enabled
  · refine ⟨fun _ => nofun, fun _ => ⟨⟨fun _ => rfl, fun _ => ?_⟩, hframe⟩⟩
    rw [hself]
    exact ⟨_, mem_cons_self, by cases selector <;> rfl⟩
  · change overridesOf selector _ = (overridesOf selector list).tail at hself
    rw [← hself]
    refine ⟨fun htoggled _ hleft => ?_, fun hnone => ⟨?_, hframe⟩⟩
    · exact nomatch htoggled.effect.mp hleft
    · exact ⟨fun hleft => absurd hleft (hnone rfl), nofun⟩

theorem overrides_editSkills (keys : List Text) :
    overrides (skillsTable (editSkills selector enabled
      ⟨some (.arrayOfTables list), keys⟩).1) =
      (toggleOverrides selector enabled list).1 := by
  simp only [editSkills]
  split_ifs with hempty hkeys
  · exact hempty.2.2.symm
  · exact hempty.2.2.symm
  · rfl

/-- An edit is exact if and only if its document allows it. -/
theorem setSkillConfig_toggled_iff (hvalid : normalized selector ≠ .name [])
    (skills : Option (SkillsItem Path)) :
    Toggled (normalized selector) enabled (overrides (skillsTable skills))
      (overrides (skillsTable (setSkillConfig selector enabled skills).1)) ↔
    Toggleable (normalized selector) enabled (skillsTable skills) := by
  have hwritten := selector_disable hvalid
  have hedit : skillsTable (setSkillConfig selector enabled skills).1 =
      skillsTable (editSkills (normalized selector) enabled (skillsTable skills)).1 := by
    rw [setSkillConfig, if_neg hvalid]
    cases htable : skills.bind ensureTableForWrite with
    | some table => simp [skillsTable, htable]
    | none => cases enabled <;> simp [skillsTable, htable, editSkills, ensureTableForWrite]
  rw [hedit]
  obtain ⟨_ | list | list, keys⟩ := skillsTable skills
  · cases enabled <;> exact toggleOverrides_toggled_iff _ [] hwritten
  · rw [overrides_editSkills]
    exact toggleOverrides_toggled_iff enabled list hwritten
  · cases enabled
    · have hnew := (toggleOverrides_toggled_iff false [] hwritten).mpr nofun
      refine ⟨fun htoggled other hother => ?_, fun hothers => ⟨hnew.effect, ?_⟩⟩
      · exact (htoggled.frame other hother).symm.trans (hnew.frame other hother)
      · intro other hother
        exact (hnew.frame other hother).trans (hothers other hother).symm
    · refine ⟨fun htoggled hleft => ?_, fun hnone => ⟨?_, fun _ _ => rfl⟩⟩
      · exact nomatch htoggled.effect.mp hleft
      · exact ⟨fun hleft => absurd hleft hnone, nofun⟩

end

instance : SkillPaths Empty := ⟨id, fun _ => rfl⟩

def off (name : Char) : Override Empty := { name := some [name], enabled := some false }

def document (item : ConfigItem Empty) : Option (SkillsItem Empty) :=
  some (.table { config := some item })

theorem listed_overrides_toggled :
    Toggled (normalized (.name ['a'])) true [off 'a', off 'b']
      (overrides (skillsTable (setSkillConfig (.name ['a']) true
        (document (.arrayOfTables [off 'a', off 'b']))).1)) := by
  refine (setSkillConfig_toggled_iff true (by decide)
    (document (.arrayOfTables [off 'a', off 'b']))).mpr ?_
  exact fun _ ⟨_, hmem, _⟩ => nomatch hmem

/-- Of two entries one is left; an inline array is given up as a whole. -/
theorem repeated_and_inline_overrides_not_toggled :
    overridesOf (.name ['a']) (overrides (skillsTable
      (setSkillConfig (.name ['a']) true
        (document (.arrayOfTables [off 'a', off 'a']))).1)) = [off 'a'] ∧
    overridesOf (.name ['b']) (overrides (skillsTable
      (setSkillConfig (.name ['a']) false (document (.value [off 'a', off 'b']))).1)) = [] := by
  decide

end Hexa.SkillConfig
