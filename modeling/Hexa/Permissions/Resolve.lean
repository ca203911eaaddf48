/-
What `resolveAccess` computes: the access of a covering entry that no other
covering entry exceeds in depth and precedence.
-/
import Hexa.Permissions.Policy

namespace Hexa.Permissions

open List FileSystemSandboxPolicy

variable [UrlCrates]

/-- Every place is opaque or shows its components. -/
def Unambiguous (entries : List (PathUri × FileSystemAccessMode)) : Prop :=
  ∀ entry ∈ entries, entry.1.isOpaque = true ∨ entry.1.lexicalDepth.isSome

variable {entries : List (PathUri × FileSystemAccessMode)}

theorem isSome_withDepths : (withDepths entries).isSome ↔ Unambiguous entries := by
  induction entries with
  | nil => simp [withDepths, Unambiguous]
  | cons entry entries ih =>
    obtain ⟨root, access⟩ := entry
    rw [Unambiguous, forall_mem_cons, ← Unambiguous, ← ih, withDepths]
    cases hdepth : root.lexicalDepth with
    | some depth => simp
    | none =>
      cases hopaque : root.isOpaque with
      | true | false => simp

theorem mem_withDepths {deep : List (PathUri × FileSystemAccessMode × Nat)}
    (hdeep : withDepths entries = some deep) (root : PathUri) (access : FileSystemAccessMode)
    (depth : Nat) :
    (root, access, depth) ∈ deep ↔ (root, access) ∈ entries ∧ root.lexicalDepth = some depth := by
  induction entries generalizing deep with
  | nil =>
    cases hdeep
    simp
  | cons entry entries ih =>
    obtain ⟨first, mode⟩ := entry
    rw [withDepths] at hdeep
    cases hfirst : first.lexicalDepth with
    | some firstDepth =>
      rw [hfirst] at hdeep
      obtain ⟨rest, hrest, rfl⟩ := Option.map_eq_some_iff.mp hdeep
      simp only [mem_cons, ih hrest, Prod.mk.injEq]
      constructor
      · rintro (⟨rfl, rfl, rfl⟩ | ⟨hmem, hdepth⟩)
        · exact ⟨.inl ⟨rfl, rfl⟩, hfirst⟩
        · exact ⟨.inr hmem, hdepth⟩
      · rintro ⟨⟨rfl, rfl⟩ | hmem, hdepth⟩
        · rw [hfirst, Option.some.injEq] at hdepth
          exact .inl ⟨rfl, rfl, hdepth.symm⟩
        · exact .inr ⟨hmem, hdepth⟩
    | none =>
      simp only [hfirst] at hdeep
      split_ifs at hdeep
      rw [ih hdeep, mem_cons]
      constructor
      · rintro ⟨hmem, hdepth⟩
        exact ⟨.inr hmem, hdepth⟩
      · rintro ⟨⟨rfl, rfl⟩ | hmem, hdepth⟩
        · rw [hfirst] at hdepth
          cases hdepth
        · exact ⟨hmem, hdepth⟩

/-- The entry is one of the most specific ones at or above the path. -/
structure Governs (entries : List (PathUri × FileSystemAccessMode))
    (path root : PathUri) (access : FileSystemAccessMode) (depth : Nat) :
    Prop where
  mem : (root, access) ∈ entries
  covers : path.startsWith root = true
  depth_eq : root.lexicalDepth = some depth
  key_le : ∀ other mode otherDepth, (other, mode) ∈ entries →
    path.startsWith other = true → other.lexicalDepth = some otherDepth →
    toLex (otherDepth, mode) ≤ toLex (depth, access)

variable {policy : FileSystemSandboxPolicy} {path : PathUri}
  {context : FileSystemSandboxPolicyContext} {access : FileSystemAccessMode} {root : PathUri}
  {entry : FileSystemSandboxEntry}

theorem mem_resolved :
    (root, access) ∈ entry.resolved context ↔
      entry.access = access ∧ root ∈ entry.path.places context ∧
        root.inferPathConvention = context.cwd.inferPathConvention := by
  simp only [FileSystemSandboxEntry.resolved, mem_map, mem_filter,
    decide_eq_true_eq, Prod.mk.injEq]
  constructor
  · rintro ⟨place, hplace, rfl, rfl⟩
    exact ⟨rfl, hplace⟩
  · rintro ⟨rfl, hplace⟩
    exact ⟨root, hplace, rfl, rfl⟩

theorem access_of_mem_resolved {found : PathUri × FileSystemAccessMode}
    (hfound : found ∈ entry.resolved context) : found.2 = entry.access :=
  (mem_resolved.mp hfound).1.symm

/-- An entry of the policy, resolved. -/
theorem mem_resolvedEntries :
    (root, access) ∈ policy.resolvedEntries context ↔
      ∃ entry ∈ policy.entries, entry.access = access ∧
        root ∈ entry.path.places context ∧
        root.inferPathConvention = context.cwd.inferPathConvention := by
  simp only [resolvedEntries, mem_flatMap, mem_resolved]

/-- The path can be judged in the context. -/
structure Admissible (policy : FileSystemSandboxPolicy) (path : PathUri)
    (context : FileSystemSandboxPolicyContext) : Prop where
  convention : ∃ convention,
    context.cwd.inferPathConvention = some convention ∧ path.inferPathConvention = some convention
  lexical : path.lexicalDepth.isSome
  cwd_lexical : context.cwd.lexicalDepth.isSome
  unambiguous : Unambiguous (policy.resolvedEntries context)

section

variable (hkind : policy.kind = .restricted)
include hkind

/-- What cannot be judged is denied. -/
theorem resolveAccess_of_not_admissible (hnot : ¬Admissible policy path context) :
    policy.resolveAccess path context = .deny := by
  simp only [resolveAccess, hkind]
  split
  · rfl
  next convention hconvention =>
    split_ifs with hbad
    · rfl
    · simp only [not_or, not_not, Option.isNone_iff_eq_none, ← Option.isSome_iff_ne_none] at hbad
      obtain ⟨hpath, hlexical, hcwd⟩ := hbad
      split
      · rfl
      next deep hdeep =>
        refine absurd ⟨⟨convention, hconvention, hpath⟩, hlexical, hcwd, ?_⟩ hnot
        exact isSome_withDepths.mp (by rw [hdeep]; rfl)

/-- The governing entry gives the access; without one, there is none. -/
theorem resolveAccess_of_admissible (hadmissible : Admissible policy path context) :
    (∃ root depth, Governs (policy.resolvedEntries context) path root
        (policy.resolveAccess path context) depth) ∨
      policy.resolveAccess path context = .deny ∧
        ∀ root access, (root, access) ∈ policy.resolvedEntries context →
          root.lexicalDepth.isSome → path.startsWith root = false := by
  obtain ⟨⟨convention, hcontext, hpath⟩, hlexical, hcwd, hclear⟩ := hadmissible
  obtain ⟨deep, hdeep⟩ := Option.isSome_iff_exists.mp (isSome_withDepths.mpr hclear)
  have hok : ¬(path.inferPathConvention ≠ some convention ∨
      path.lexicalDepth.isNone ∨ context.cwd.lexicalDepth.isNone) := by
    simp [hpath, Option.isSome_iff_ne_none.mp hlexical, Option.isSome_iff_ne_none.mp hcwd]
  have hresolve : policy.resolveAccess path context =
      ((deep.filter (path.startsWith ·.1)).argmax
        (fun entry => toLex (entry.2.2, entry.2.1))).elim .deny (·.2.1) := by
    simp only [resolveAccess, hkind, hcontext, if_neg hok, hdeep]
  rw [hresolve]
  cases hmax : (deep.filter (path.startsWith ·.1)).argmax
      (fun entry => toLex (entry.2.2, entry.2.1)) with
  | none =>
    right
    refine ⟨rfl, fun root access hmem hsome => ?_⟩
    obtain ⟨depth, hdepth⟩ := Option.isSome_iff_exists.mp hsome
    have hin := (mem_withDepths hdeep root access depth).mpr ⟨hmem, hdepth⟩
    have hnone := filter_eq_nil_iff.mp (argmax_eq_none.mp hmax) _ hin
    simpa using hnone
  | some entry =>
    left
    obtain ⟨root, access, depth⟩ := entry
    obtain ⟨hin, hcovers⟩ := mem_filter.mp (argmax_mem hmax)
    obtain ⟨hmem, hdepth⟩ := (mem_withDepths hdeep _ _ _).mp hin
    refine ⟨root, depth, hmem, hcovers, hdepth, ?_⟩
    intro other mode otherDepth hother hover hotherDepth
    have hin : (other, mode, otherDepth) ∈ deep.filter (path.startsWith ·.1) :=
      mem_filter.mpr ⟨(mem_withDepths hdeep _ _ _).mpr ⟨hother, hotherDepth⟩, hover⟩
    have hle := le_of_mem_argmax hin hmax
    exact hle

/-- Any governing entry gives the access. -/
theorem Governs.resolveAccess_eq (hadmissible : Admissible policy path context) {depth : Nat}
    (hgoverns : Governs (policy.resolvedEntries context) path root access depth) :
    policy.resolveAccess path context = access := by
  rcases resolveAccess_of_admissible hkind hadmissible with
    ⟨other, otherDepth, hother⟩ | ⟨-, hnone⟩
  · have hkey := le_antisymm (hgoverns.key_le _ _ _ hother.mem hother.covers hother.depth_eq)
      (hother.key_le _ _ _ hgoverns.mem hgoverns.covers hgoverns.depth_eq)
    exact congrArg (fun key => (ofLex key).2) hkey
  · have hsome : root.lexicalDepth.isSome := by simp [hgoverns.depth_eq]
    have hcovers := hnone root access hgoverns.mem hsome
    rw [hgoverns.covers] at hcovers
    cases hcovers

theorem admissible_of_resolveAccess (hne : policy.resolveAccess path context ≠ .deny) :
    Admissible policy path context := by
  by_contra hnot
  exact hne (resolveAccess_of_not_admissible hkind hnot)

end

theorem Governs.congr {others : List (PathUri × FileSystemAccessMode)}
    (hmem : ∀ entry, entry ∈ others ↔ entry ∈ entries) {depth : Nat}
    (hgoverns : Governs entries path root access depth) :
    Governs others path root access depth where
  mem := (hmem _).mpr hgoverns.mem
  covers := hgoverns.covers
  depth_eq := hgoverns.depth_eq
  key_le other mode otherDepth hother :=
    hgoverns.key_le other mode otherDepth ((hmem _).mp hother)

/-- The access depends on the resolved entries only, not on their order or
number. -/
theorem resolveAccess_congr {other : FileSystemSandboxPolicy}
    (hkind : policy.kind = .restricted) (hother : other.kind = .restricted)
    (hmem : ∀ entry, entry ∈ other.resolvedEntries context ↔
      entry ∈ policy.resolvedEntries context) :
    other.resolveAccess path context = policy.resolveAccess path context := by
  by_cases hadmissible : Admissible policy path context
  · have hotherAdmissible : Admissible other path context := { hadmissible with
        unambiguous := fun entry hentry =>
          hadmissible.unambiguous entry ((hmem entry).mp hentry) }
    rcases resolveAccess_of_admissible hkind hadmissible with
      ⟨root, depth, hgoverns⟩ | ⟨hdeny, hnone⟩
    · exact (hgoverns.congr hmem).resolveAccess_eq hother hotherAdmissible
    · rcases resolveAccess_of_admissible hother hotherAdmissible with
        ⟨root, depth, hgoverns⟩ | ⟨hotherDeny, -⟩
      · have hcovers := hnone root _ ((hmem _).mp hgoverns.mem) (by simp [hgoverns.depth_eq])
        rw [hgoverns.covers] at hcovers
        cases hcovers
      · rw [hdeny, hotherDeny]
  · have hotherNot : ¬Admissible other path context := fun hadm =>
      hadmissible { hadm with
        unambiguous := fun entry hentry => hadm.unambiguous entry ((hmem entry).mpr hentry) }
    rw [resolveAccess_of_not_admissible hkind hadmissible,
      resolveAccess_of_not_admissible hother hotherNot]

end Hexa.Permissions
