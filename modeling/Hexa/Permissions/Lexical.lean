/-
URIs by their components: the authority, and what each segment stands for.
Containment is the prefix relation of the components.
-/
import Hexa.Permissions.Policy

namespace Hexa.Permissions

open List FileUrl UrlCrates

variable [UrlCrates]

/-- What a segment stands for, up to case on Windows. -/
def segmentKey (convention : PathConvention) (segment : Bytes) : Bytes :=
  match convention with
  | .posix => decodeBinary segment
  | .windows => (decodeUriPath segment).map asciiLower

variable {convention : PathConvention}

theorem segmentKey_eq_nil {segment : Bytes} :
    segmentKey convention segment = [] ↔ segment = [] := by
  cases convention with
  | posix => exact decodeBinary_eq_nil
  | windows =>
    rw [segmentKey, map_eq_nil_iff, decodeUriPath]
    split_ifs
    · exact decodeBinary_eq_nil
    · rfl

/-- Segments that decode alike up to case and are texts stand for the same. -/
theorem segmentKey_of_decodeBinary {left right : Bytes}
    (hright : isUtf8 (decodeBinary right) = true)
    (heq : (decodeBinary left).map asciiLower = (decodeBinary right).map asciiLower) :
    segmentKey .windows left = segmentKey .windows right := by
  have hleft := isUtf8_of_map_asciiLower heq hright
  rw [segmentKey, segmentKey, decodeUriPath, decodeUriPath, if_pos hleft, if_pos hright, heq]

/-- Segments that are spelled alike up to case stand for the same. -/
theorem segmentKey_of_eqIgnoreAsciiCase {left right : Bytes}
    (heq : left.map asciiLower = right.map asciiLower) :
    segmentKey .windows left = segmentKey .windows right := by
  have hdecoded : (decodeBinary left).map asciiLower = (decodeBinary right).map asciiLower := by
    rw [map_asciiLower_decodeBinary, heq, ← map_asciiLower_decodeBinary]
  by_cases hright : isUtf8 (decodeBinary right) = true
  · exact segmentKey_of_decodeBinary hright hdecoded
  · have hleft : ¬isUtf8 (decodeBinary left) = true := fun hleft =>
      hright (isUtf8_of_map_asciiLower hdecoded.symm hleft)
    rw [segmentKey, segmentKey, decodeUriPath, decodeUriPath, if_neg hleft, if_neg hright, heq]

theorem segmentsEqual_iff {path base : Bytes} :
    segmentsEqual convention path base = true ↔
      segmentKey convention path = segmentKey convention base := by
  cases convention with
  | posix => simp [segmentsEqual, segmentKey]
  | windows =>
    simp only [segmentsEqual, eqIgnoreAsciiCase, Bool.or_eq_true, beq_iff_eq]
    exact ⟨fun hor => hor.elim segmentKey_of_eqIgnoreAsciiCase id, .inr⟩

theorem nativePathSegmentsStartWith_iff {path base : List Bytes} :
    nativePathSegmentsStartWith convention path base = true ↔ base.map (segmentKey convention) <+:
        path.map (segmentKey convention) := by
  induction base generalizing path with
  | nil => simp [nativePathSegmentsStartWith]
  | cons first base ih =>
    cases path with
    | nil => simp [nativePathSegmentsStartWith]
    | cons segment path =>
      rw [map_cons, map_cons, cons_prefix_cons, ← @ih path,
        eq_comm (a := segmentKey convention first), ← segmentsEqual_iff]
      simp only [nativePathSegmentsStartWith, length_cons,
        Nat.add_le_add_iff_right, zip_cons_cons, all_cons, Bool.and_eq_true]
      tauto

namespace FileUrl

/-- The components of a URL. -/
def components (url : FileUrl) : List (Option Bytes) :=
  url.host :: (url.names.map (segmentKey url.convention)).map some

/-- No segment hides a separator. -/
def IsPlain (url : FileUrl) : Prop := url.containmentPathSegments = some url.names

variable {url : FileUrl}

theorem isPlain_of_isSome (hsome : url.containmentPathSegments.isSome) : url.IsPlain := by
  rw [IsPlain, containmentPathSegments]
  rw [containmentPathSegments] at hsome
  split_ifs with hbad
  · rw [if_pos hbad] at hsome
    cases hsome
  · rfl

theorem length_components (url : FileUrl) : url.components.length = url.names.length + 1 := by
  simp [components]

/-- Every segment of a Windows path is a text.  Of other segments, equal URIs
may be spelled in ways that containment tells apart. -/
def IsText (url : FileUrl) : Prop :=
  url.convention = .windows → ∀ segment ∈ url.segments, isUtf8 (decodeBinary segment) = true

theorem windowsIdentity_eq_some {identity : List Bytes}
    (hidentity : url.windowsIdentity = some identity) :
    url.convention = .windows ∧ identity =
      url.segments.map (fun segment => (decodeBinary segment).map asciiLower) := by
  rw [windowsIdentity] at hidentity
  split_ifs at hidentity with hbad
  rw [not_or, not_not] at hbad
  exact ⟨hbad.1, (Option.some.inj hidentity).symm⟩

/-- A URL with an identity hides no separator. -/
theorem segments_ne_none_of_identity (hsome : url.windowsIdentity.isSome) :
    url.containmentPathSegments ≠ none := by
  rw [windowsIdentity] at hsome
  split_ifs at hsome with hbad
  · cases hsome
  · rw [not_or, not_not] at hbad
    rw [containmentPathSegments, if_neg]
    · exact Option.some_ne_none _
    · rw [hbad.1]
      intro hany
      obtain ⟨segment, hsegment, hhides⟩ := any_eq_true.mp hany
      exact hbad.2 (any_eq_true.mpr ⟨segment, mem_of_mem_filter hsegment, hhides⟩)

theorem map_segmentKey_names (url : FileUrl) (convention : PathConvention) :
    url.names.map (segmentKey convention) =
      (url.segments.map (segmentKey convention)).filter (· ≠ []) := by
  rw [filter_map]
  refine congrArg _ (filter_congr fun segment _ => ?_)
  simp [segmentKey_eq_nil]

/-- Equal URLs up to case have the same components. -/
theorem components_of_windowsIdentity {left right : FileUrl} (htext : right.IsText)
    (hsome : left.windowsIdentity.isSome) (hhost : left.host = right.host)
    (heq : left.windowsIdentity = right.windowsIdentity) :
    left.components = right.components := by
  obtain ⟨identity, hidentity⟩ := Option.isSome_iff_exists.mp hsome
  obtain ⟨hleft, hleftId⟩ := windowsIdentity_eq_some hidentity
  obtain ⟨hright, hrightId⟩ := windowsIdentity_eq_some (heq ▸ hidentity)
  have hsegments : left.segments.map (segmentKey .windows) =
      right.segments.map (segmentKey .windows) := by
    rw [hleftId] at hrightId
    refine ext_getElem (by simpa using congrArg List.length hrightId) ?_
    intro index hindex hother
    rw [getElem_map, getElem_map]
    refine segmentKey_of_decodeBinary (htext hright _ (getElem_mem _)) ?_
    have hat := congrArg (·[index]?) hrightId
    simpa [show index < left.segments.length by simpa using hindex,
      show index < right.segments.length by simpa using hother] using hat
  rw [components, components, hhost, hleft, hright, map_segmentKey_names,
    map_segmentKey_names, hsegments]

end FileUrl

namespace PathUri

theorem components_of_same {left right : FileUrl} (htext : right.IsText)
    (hsame : (file left).same (file right) = true) : left.components = right.components := by
  simp only [same, Bool.or_eq_true, Bool.and_eq_true, beq_iff_eq,
    decide_eq_true_eq, file.injEq] at hsame
  rcases hsame with rfl | ⟨⟨hsome, hhost⟩, heq⟩
  · rfl
  · exact components_of_windowsIdentity htext hsome hhost heq

/-- Containment is the prefix relation of the components. -/
theorem startsWith_file_iff {path base : FileUrl} (hpath : path.IsPlain) (hbase : base.IsPlain)
    (hconvention : path.convention = base.convention) (htext : base.IsText) :
    (file path).startsWith (file base) = true ↔ base.components <+: path.components := by
  have hlexical : (path.host == base.host &&
      path.convention == base.convention &&
      nativePathSegmentsStartWith path.convention path.names base.names) =
        true ↔ base.components <+: path.components := by
    rw [components, components, cons_prefix_cons, ← hconvention,
      prefix_map_iff_of_injective (Option.some_injective _), ← nativePathSegmentsStartWith_iff]
    simp [eq_comm (a := base.host)]
  rw [startsWith, Bool.or_eq_true, ← hlexical]
  simp only [show path.containmentPathSegments = some path.names from hpath,
    show base.containmentPathSegments = some base.names from hbase]
  refine ⟨fun hor => hor.elim (fun hsame => ?_) id, .inr⟩
  rw [hlexical]
  exact (components_of_same htext hsame).symm ▸ prefix_rfl

/-- The URI follows a convention and shows its components. -/
structure Shows (path : PathUri) (convention : PathConvention) (url : FileUrl) : Prop where
  eq_file : path = file url
  convention : url.convention = convention
  plain : url.IsPlain

variable {path base : PathUri} {convention : PathConvention} {url baseUrl : FileUrl}

theorem exists_shows (hconvention : path.inferPathConvention = some convention)
    (hlexical : path.lexicalDepth.isSome) : ∃ url, path.Shows convention url := by
  cases path with
  | fallback bytes => cases hlexical
  | file url =>
    refine ⟨url, rfl, Option.some.inj hconvention, ?_⟩
    apply isPlain_of_isSome
    simpa [lexicalDepth] using hlexical

variable (hpath : path.Shows convention url)
include hpath

theorem Shows.lexicalDepth_eq : path.lexicalDepth = some url.names.length := by
  rw [hpath.eq_file, lexicalDepth, show _ = _ from hpath.plain]
  rfl

theorem Shows.startsWith_iff (hbase : base.Shows convention baseUrl) (htext : baseUrl.IsText) :
    path.startsWith base = true ↔ baseUrl.components <+: url.components := by
  rw [hpath.eq_file, hbase.eq_file]
  exact startsWith_file_iff hpath.plain hbase.plain
    (hpath.convention.trans hbase.convention.symm) htext

end PathUri

/-! POSIX paths. -/

theorem filter_popIfEmpty (segments : List Bytes) :
    (popIfEmpty segments).filter (· ≠ []) = segments.filter (· ≠ []) := by
  rw [popIfEmpty_eq]
  split_ifs with hlast
  · obtain ⟨init, hinit⟩ := getLast?_eq_some_iff.mp hlast.2
    rw [hinit]
    simp
  · rfl

namespace FileUrl

variable {url : FileUrl}

section

variable (hposix : url.convention = .posix)
include hposix

theorem isText_of_posix : url.IsText := by
  intro hwindows
  rw [hposix] at hwindows
  cases hwindows

theorem host_of_posix : url.host = none := by
  rw [convention] at hposix
  split_ifs at hposix with hhost
  simpa using hhost

/-- A path above a POSIX path is one. -/
theorem posix_of_prefix {upper : FileUrl} (hhost : upper.host = url.host)
    (hleading : upper.names <+: url.names) : upper.convention = .posix := by
  have hnone := host_of_posix hposix
  rw [convention, hhost, hnone]
  rw [convention, hnone] at hposix
  obtain ⟨rest, hrest⟩ := hleading
  cases hnames : upper.names with
  | nil => rfl
  | cons name names =>
    rw [← hrest, hnames] at hposix
    exact hposix

end

theorem prefix_names_popped : url.popped.names <+: url.names := by
  have hpop : pop (popIfEmpty url.segments) = [[]] ∨
      pop (popIfEmpty url.segments) <+: url.segments := by
    rw [pop_eq]
    split_ifs
    · exact .inl rfl
    · right
      refine ( dropLast_prefix _).trans ?_
      rw [popIfEmpty_eq]
      split_ifs
      · exact dropLast_prefix _
      · exact prefix_rfl
  rcases hpop with hempty | hleading
  · change (pop (popIfEmpty url.segments)).filter _ <+: _
    rw [hempty]
    exact nil_prefix
  · exact hleading.filter _

theorem length_segments_popped :
    url.popped.names = [] ∨ url.popped.segments.length < url.segments.length := by
  have hle : (popIfEmpty url.segments).length ≤ url.segments.length := by
    rw [popIfEmpty_eq]
    split_ifs
    · simp
    · exact le_rfl
  simp only [popped, pop_eq]
  split_ifs with hshort
  · exact .inl rfl
  · right
    rw [length_dropLast]
    omega

/-- At most one name is taken away. -/
theorem length_names_popped : url.names.length ≤ url.popped.names.length + 1 := by
  have hdrop : ∀ segments : List Bytes,
      (segments.filter (· ≠ [])).length ≤ (segments.dropLast.filter (· ≠ [])).length + 1 := by
    intro segments
    rcases eq_nil_or_concat segments with rfl | ⟨init, last, rfl⟩
    · simp
    · rw [concat_eq_append, dropLast_concat, filter_append, length_append]
      exact Nat.add_le_add_left (length_filter_le _ [last]) _
  change (url.segments.filter (· ≠ [])).length ≤
    ((pop (popIfEmpty url.segments)).filter (· ≠ [])).length + 1
  rw [← filter_popIfEmpty, pop_eq]
  split_ifs with hshort
  · exact (length_filter_le _ _).trans (hshort.trans (by omega))
  · exact hdrop _

/-- The parent follows the convention of the path. -/
theorem convention_popped (hdeep : anchorDepth url.convention < url.names.length) :
    url.popped.convention = url.convention := by
  cases hconvention : url.convention with
  | posix => exact posix_of_prefix hconvention rfl prefix_names_popped
  | windows =>
    have hhead : url.popped.names.head? = url.names.head? := by
      obtain ⟨rest, hrest⟩ := @prefix_names_popped _ url
      have hlength := @length_names_popped _ url
      rw [hconvention, anchorDepth] at hdeep
      rw [← hrest, head?_append_of_ne_nil]
      exact ne_nil_of_length_pos (by omega)
    rw [← hconvention, convention, hhead]
    rfl

/-- The last ancestor is the root of the path. -/
theorem lastAncestor_spec {steps : Nat} (hsteps : url.names = [] ∨ url.segments.length ≤ steps) :
    (url.lastAncestor steps).host = url.host ∧
      (url.lastAncestor steps).convention = url.convention ∧
      (url.lastAncestor steps).names <+: url.names ∧
      (url.lastAncestor steps).names.length ≤ anchorDepth url.convention := by
  induction steps generalizing url with
  | zero =>
    refine ⟨rfl, rfl, prefix_rfl, ?_⟩
    have hnames : url.names = [] := hsteps.elim id fun hlength => by
      rw [names, length_eq_zero_iff.mp (Nat.le_zero.mp hlength)]
      rfl
    rw [lastAncestor, hnames]
    exact Nat.zero_le _
  | succ steps ih =>
    rw [lastAncestor, parent]
    split_ifs with hroot
    · exact ⟨rfl, rfl, prefix_rfl, hroot⟩
    · have hpopped : url.popped.names = [] ∨ url.popped.segments.length ≤ steps := by
        rcases hsteps with hnames | hlength
        · rw [hnames] at hroot
          exact absurd (Nat.zero_le _) hroot
        · exact length_segments_popped.imp id (fun hlt => by omega)
      obtain ⟨hhost, hconvention, hnames, hlength⟩ := ih hpopped
      have hsame := convention_popped (Nat.lt_of_not_le hroot)
      exact ⟨hhost, hconvention.trans hsame, hnames.trans prefix_names_popped, hsame ▸ hlength⟩

/-- What is above a plain URL is plain. -/
theorem isPlain_of_prefix {upper : FileUrl} (hplain : url.IsPlain)
    (hconvention : upper.convention = url.convention) (hleading : upper.names <+: url.names) :
    upper.IsPlain := by
  apply isPlain_of_isSome
  rw [containmentPathSegments, if_neg]
  · rfl
  · intro hany
    obtain ⟨segment, hsegment, hhides⟩ := any_eq_true.mp hany
    rw [hconvention] at hhides
    rw [IsPlain, containmentPathSegments, if_pos (any_eq_true.mpr
      ⟨segment, hleading.subset hsegment, hhides⟩)] at hplain
    cases hplain

end FileUrl

namespace PathUri

theorem Shows.startsWith_posix {path base : PathUri} {pathUrl baseUrl : FileUrl}
    (hpath : path.Shows .posix pathUrl) (hbase : base.Shows .posix baseUrl) :
    path.startsWith base = true ↔ baseUrl.components <+: pathUrl.components :=
  hpath.startsWith_iff hbase (isText_of_posix hbase.convention)

end PathUri

variable {context : FileSystemSandboxPolicyContext}

/-- The root of a context. -/
theorem fileSystemRoot_shows {cwd : FileUrl} (hcwd : context.cwd.Shows convention cwd) :
    ∃ root url, fileSystemRoot context = some root ∧
      root.Shows convention url ∧ url.host = cwd.host ∧
      url.names.length ≤ anchorDepth convention := by
  obtain ⟨hhost, hconvention, hnames, hlength⟩ :=
    lastAncestor_spec (.inr (le_refl cwd.segments.length))
  refine ⟨_, cwd.lastAncestor cwd.segments.length, ?_,
    ⟨rfl, hconvention.trans hcwd.convention,
      isPlain_of_prefix hcwd.plain hconvention hnames⟩, hhost,
    hcwd.convention ▸ hlength⟩
  rw [fileSystemRoot, hcwd.lexicalDepth_eq, hcwd.eq_file]
  rfl

theorem fileSystemRoot_posix {cwd : FileUrl} (hcwd : context.cwd.Shows .posix cwd) :
    ∃ root url, fileSystemRoot context = some root ∧ root.Shows .posix url ∧
      url.names = [] ∧ url.host = none := by
  obtain ⟨root, url, hroot, hshows, -, hlength⟩ := fileSystemRoot_shows hcwd
  exact ⟨root, url, hroot, hshows,
    length_eq_zero_iff.mp (Nat.le_zero.mp hlength),
    host_of_posix hshows.convention⟩

end Hexa.Permissions
