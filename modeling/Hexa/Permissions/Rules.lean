/-
The resolved entries of a policy as rules for the subtrees of their places.
The access of a path is the mode that the rules give its components.
-/
import Hexa.Lib.PathRules
import Hexa.Permissions.Lexical
import Hexa.Permissions.Resolve

namespace Hexa.Permissions

open FileSystemSandboxPolicy FileUrl PathUri Option Bool

variable [UrlCrates]

namespace PathUri

/-- The components that a URI shows. -/
def components : PathUri → Option (List (Option Bytes))
  | fallback _ => none
  | file url => if url.containmentPathSegments.isSome then some url.components else none

def IsText : PathUri → Prop
  | fallback _ => True
  | file url => url.IsText

variable {path base : PathUri} {place basePlace : List (Option Bytes)}

theorem isText_of_posix (hposix : path.inferPathConvention = some .posix) : path.IsText := by
  cases path with
  | fallback bytes => trivial
  | file url => exact isText_of_posix (some.inj hposix)

theorem components_eq_some :
    path.components = some place ↔
      ∃ url, path = file url ∧ url.IsPlain ∧ url.components = place := by
  cases path with
  | fallback bytes => simp [components]
  | file url =>
    rw [components]
    constructor
    · intro hplace
      split_ifs at hplace with hsome
      exact ⟨url, rfl, isPlain_of_isSome hsome, some.inj hplace⟩
    · rintro ⟨other, heq, hplain, rfl⟩
      obtain rfl := file.inj heq
      rw [if_pos (by rw [show _ = _ from hplain]; rfl)]

theorem lexicalDepth_of_components (hplace : path.components = some place) :
    path.lexicalDepth = some (place.length - 1) := by
  obtain ⟨url, rfl, hplain, rfl⟩ := components_eq_some.mp hplace
  rw [lexicalDepth, show _ = _ from hplain, length_components]
  rfl

theorem components_ne_nil (hplace : path.components = some place) : 0 < place.length := by
  obtain ⟨url, -, -, rfl⟩ := components_eq_some.mp hplace
  exact Nat.succ_pos _

theorem exists_components (hlexical : path.lexicalDepth.isSome) :
    ∃ place, path.components = some place := by
  cases path with
  | fallback bytes => cases hlexical
  | file url =>
    rw [lexicalDepth, isSome_map] at hlexical
    exact ⟨url.components, if_pos hlexical⟩

theorem startsWith_iff (hconvention : path.inferPathConvention = base.inferPathConvention)
    (hplace : path.components = some place) (hbase : base.components = some basePlace)
    (htext : base.IsText) : path.startsWith base = true ↔ basePlace <+: place := by
  obtain ⟨url, rfl, hplain, rfl⟩ := components_eq_some.mp hplace
  obtain ⟨baseUrl, rfl, hbasePlain, rfl⟩ := components_eq_some.mp hbase
  exact startsWith_file_iff hplain hbasePlain (some.inj hconvention) htext

theorem startsWith_iff_of_posix (hpath : path.inferPathConvention = some .posix)
    (hposix : base.inferPathConvention = some .posix) (hplace : path.components = some place)
    (hbase : base.components = some basePlace) :
    path.startsWith base = true ↔ basePlace <+: place :=
  startsWith_iff (hpath.trans hposix.symm) hplace hbase (isText_of_posix hposix)

/-- Only places that show their components contain a path that does. -/
theorem exists_components_of_startsWith (hplace : path.components = some place)
    (hcovers : path.startsWith base = true) : ∃ basePlace, base.components = some basePlace := by
  obtain ⟨url, rfl, hplain, rfl⟩ := components_eq_some.mp hplace
  cases base with
  | fallback bytes => simp [startsWith, same] at hcovers
  | file baseUrl =>
    by_contra hnone
    push Not at hnone
    have hsegments : baseUrl.containmentPathSegments = none := by
      by_contra hsome
      exact hnone _ (if_pos (isSome_iff_ne_none.mpr hsome))
    simp only [startsWith, same, or_eq_true, and_eq_true,
      decide_eq_true_eq, file.injEq, beq_iff_eq] at hcovers
    rcases hcovers with (rfl | ⟨⟨hsome, -⟩, hidentity⟩) | ⟨-, hmatch⟩
    · rw [show _ = _ from hplain] at hsegments
      cases hsegments
    · rw [hidentity] at hsome
      exact absurd hsegments (segments_ne_none_of_identity hsome)
    · split at hmatch <;> simp_all

end PathUri

/-- The entries that show their components, as rules. -/
def rulesOf (entries : List (PathUri × FileSystemAccessMode)) :
    List (PathRule (Option Bytes) FileSystemAccessMode) :=
  entries.filterMap (fun entry => entry.1.components.map (fun place => ⟨place, entry.2⟩))

variable {rule : PathRule (Option Bytes) FileSystemAccessMode}

theorem mem_rulesOf {entries : List (PathUri × FileSystemAccessMode)} :
    rule ∈ rulesOf entries ↔
      ∃ root, (root, rule.mode) ∈ entries ∧ root.components = some rule.place := by
  simp only [rulesOf, List.mem_filterMap, map_eq_some_iff]
  constructor
  · rintro ⟨⟨root, access⟩, hmem, place, hplace, rfl⟩
    exact ⟨root, hmem, hplace⟩
  · rintro ⟨root, hmem, hplace⟩
    exact ⟨_, hmem, rule.place, hplace, rfl⟩

variable {policy : FileSystemSandboxPolicy} {path : PathUri}
  {context : FileSystemSandboxPolicyContext} {place : List (Option Bytes)}

/-- The rules of a policy in a context. -/
def FileSystemSandboxPolicy.rules (policy : FileSystemSandboxPolicy)
    (context : FileSystemSandboxPolicyContext) :
    List (PathRule (Option Bytes) FileSystemAccessMode) :=
  rulesOf (policy.resolvedEntries context)

/-- The places of a policy are texts. -/
def TextPlaces (policy : FileSystemSandboxPolicy) (context : FileSystemSandboxPolicyContext) :
    Prop :=
  ∀ entry ∈ policy.resolvedEntries context, entry.1.IsText

theorem textPlaces_of_posix (hposix : context.cwd.inferPathConvention = some .posix) :
    TextPlaces policy context := by
  rintro ⟨root, access⟩ hentry
  obtain ⟨-, -, -, -, hconvention⟩ := mem_resolvedEntries.mp hentry
  exact isText_of_posix (hconvention.trans hposix)

section

variable (htext : TextPlaces policy context) (hpath : path.inferPathConvention =
  context.cwd.inferPathConvention) (hplace : path.components = some place)
include htext hpath hplace

/-- An entry above a path, among the rules. -/
theorem exists_rule {root : PathUri} {access : FileSystemAccessMode}
    (hroot : (root, access) ∈ policy.resolvedEntries context)
    (hcovers : path.startsWith root = true) :
    ∃ rule ∈ policy.rules context, rule.mode = access ∧
      root.components = some rule.place ∧ rule.place <+: place := by
  obtain ⟨rootPlace, hrootPlace⟩ := exists_components_of_startsWith hplace hcovers
  obtain ⟨-, -, -, -, hconvention⟩ := mem_resolvedEntries.mp hroot
  refine ⟨⟨rootPlace, access⟩, mem_rulesOf.mpr ⟨root, hroot, hrootPlace⟩, rfl, hrootPlace, ?_⟩
  exact (startsWith_iff (hpath.trans hconvention.symm) hplace
    hrootPlace (htext _ hroot)).mp hcovers

/-- A rule above a path, among the entries. -/
theorem exists_entry (hrule : rule ∈ policy.rules context) (hcovers : rule.place <+: place) :
    ∃ root, (root, rule.mode) ∈ policy.resolvedEntries context ∧
      root.components = some rule.place ∧ path.startsWith root = true := by
  obtain ⟨root, hroot, hrootPlace⟩ := mem_rulesOf.mp hrule
  obtain ⟨-, -, -, -, hconvention⟩ := mem_resolvedEntries.mp hroot
  refine ⟨root, hroot, hrootPlace, ?_⟩
  exact (startsWith_iff (hpath.trans hconvention.symm) hplace
    hrootPlace (htext _ hroot)).mpr hcovers

end

/-- The access of a path is the mode of its components. -/
theorem resolveAccess_eq_modeAt (hkind : policy.kind = .restricted)
    (hadmissible : Admissible policy path context) (htext : TextPlaces policy context)
    (hplace : path.components = some place) :
    policy.resolveAccess path context = modeAt .deny (policy.rules context) place := by
  have hpath : path.inferPathConvention = context.cwd.inferPathConvention := by
    obtain ⟨convention, hcontext, hpath⟩ := hadmissible.convention
    rw [hpath, hcontext]
  rcases resolveAccess_of_admissible hkind hadmissible with
    ⟨root, depth, hgoverns⟩ | ⟨hdeny, hnone⟩
  · obtain ⟨rule, hrule, hmode, hrootPlace, hcovers⟩ :=
      exists_rule htext hpath hplace hgoverns.mem hgoverns.covers
    have hdecides : Decides (policy.rules context) place rule := by
      refine ⟨hrule, hcovers, fun other hother hover => ?_⟩
      obtain ⟨otherRoot, hotherRoot, hotherPlace, hstarts⟩ :=
        exists_entry htext hpath hplace hother hover
      have hle := hgoverns.key_le otherRoot other.mode _ hotherRoot hstarts
        (lexicalDepth_of_components hotherPlace)
      have hdepth := lexicalDepth_of_components hrootPlace
      rw [hgoverns.depth_eq, some.injEq] at hdepth
      rw [← hmode] at hle
      have hotherPos := components_ne_nil hotherPlace
      have hrootPos := components_ne_nil hrootPlace
      rw [Prod.Lex.toLex_le_toLex] at hle
      rw [PathRule.key, PathRule.key, Prod.Lex.toLex_le_toLex]
      exact hle.imp (fun h => by omega) fun h => ⟨by omega, h.2⟩
    rw [hdecides.modeAt_eq, hmode]
  · rw [hdeny, modeAt_eq_default]
    intro rule hrule hcovers
    obtain ⟨root, hroot, hrootPlace, hstarts⟩ := exists_entry htext hpath hplace hrule hcovers
    have hfalse := hnone root rule.mode hroot (by rw [lexicalDepth_of_components hrootPlace]; rfl)
    rw [hstarts] at hfalse
    cases hfalse

end Hexa.Permissions
