/-
Metadata of writable places on POSIX, read as guarded names of the rules of a
policy.
-/
import Hexa.Permissions.Metadata
import Hexa.Permissions.Rules

namespace Hexa.Permissions

open List FileSystemSandboxPolicy PathUri FileUrl UrlCrates

/-- The metadata names as components. -/
def metadataNames : List (Option Bytes) :=
  protectedMetadataPathNames.map (fun name => some (utf8 name))

variable {segments : List Bytes}

/-- The first name of a POSIX path is no drive, so nothing is respelled. -/
theorem normalizedDrive_eq_self (hhead : ∀ name, (segments.filter (· ≠ [])).head? = some name →
      isWindowsDriveUriSegment name = false) : normalizedDrive segments = segments := by
  induction segments with
  | nil => rfl
  | cons segment segments ih =>
    rw [normalizedDrive]
    split_ifs with hempty hdrive
    · rw [ih fun name hname => hhead name (by simpa [hempty] using hname)]
    · have hno := hhead segment (by simp [hempty])
      rw [hdrive] at hno
      cases hno
    · rfl

theorem normalizedDrive_drive {drive : Bytes} (hdrive : isWindowsDriveUriSegment drive = true) :
    normalizedDrive (drive :: segments) = upperDrive drive :: segments := by
  rw [normalizedDrive, if_neg, if_pos hdrive]
  rintro rfl
  cases hdrive

variable [UrlCrates]

theorem tryFrom_eq_some {host : Option Bytes} {uri : PathUri}
    (htry : tryFrom host segments = some uri) :
    ∃ url, uri = file url ∧
      url.host = (if host = some (ascii "localhost") then none else host) ∧
      url.segments =
        if url.host.isSome then segments else normalizedDrive segments := by
  obtain ⟨hvalid, hfile⟩ := Option.dite_none_right_eq_some.mp htry
  exact ⟨_, (Option.some.inj hfile).symm, rfl, rfl⟩

theorem encodeSegment_ne_nil {bytes : Bytes} (hne : bytes ≠ []) : encodeSegment bytes ≠ [] := by
  intro hnil
  have hdecoded := decodeBinary_encodeSegment bytes
  rw [hnil, decodeBinary_eq_nil.mpr rfl] at hdecoded
  exact hne hdecoded.symm

/-- A pushed name is added to the names. -/
theorem filter_push {component : Text} (hne : encodeSegment (utf8 component) ≠ []) :
    (push segments component).filter (· ≠ []) =
      segments.filter (· ≠ []) ++ [encodeSegment (utf8 component)] := by
  rw [push_eq, filter_append]
  congr 1
  · split_ifs with hempty
    · rw [hempty]
      rfl
    · rfl
  · simp [hne]

variable {url : FileUrl}

theorem convention_eq_posix (hhost : url.host = none)
    (hhead : ∀ name, url.names.head? = some name → isWindowsDriveUriSegment name = false) :
    url.convention = .posix := by
  rw [convention, hhost]
  cases hnames : url.names.head? with
  | none => rfl
  | some name => simp [hhead name hnames]

theorem noDrive_of_posix (hposix : url.convention = .posix) :
    ∀ first ∈ url.names.head?, isWindowsDriveUriSegment first = false := by
  intro first hfirst
  rw [convention, host_of_posix hposix, Option.mem_def.mp hfirst] at hposix
  simpa using hposix

/-- A name that can stand as one component of a POSIX path. -/
structure PlainName (name : Text) : Prop where
  ne_nil : name ≠ []
  ne_dot : name ≠ ['.']
  ne_dotDot : name ≠ ['.', '.']
  noSlash : '/' ∉ name
  noNul : '\x00' ∉ name
  bytes_noNul : 0 ∉ utf8 name
  encoded_ne_nil : encodeSegment (utf8 name) ≠ []
  noDrive : isWindowsDriveUriSegment (encodeSegment (utf8 name)) = false
  bytes_noSlash : slash ∉ utf8 name

variable {name : Text}

theorem plainName_metadata (hname : name ∈ protectedMetadataPathNames) : PlainName name := by
  have hunreserved : ∀ name ∈ protectedMetadataPathNames,
      (utf8 name).all isUnreserved = true := by decide
  have hencoded := encodeSegment_unreserved _ (hunreserved name hname)
  simp only [protectedMetadataPathNames, mem_cons, not_mem_nil, or_false] at hname
  rcases hname with rfl | rfl | rfl
  all_goals constructor <;> first | decide | (rw [hencoded]; decide)

theorem isPlain_iff (hposix : url.convention = .posix) :
    url.IsPlain ↔ ∀ name ∈ url.names, slash ∉ decodeBinary name := by
  have hseparator : ∀ name : Bytes, (decodeBinary name).any
      (isSeparator .posix) = true ↔ slash ∈ decodeBinary name := by
    intro name
    simp [isSeparator]
  rw [FileUrl.IsPlain, containmentPathSegments, hposix]
  simp only [any_eq_true, hseparator]
  constructor
  · intro hsome name hname hslash
    rw [if_pos ⟨name, hname, hslash⟩] at hsome
    cases hsome
  · intro hnone
    rw [if_neg]
    rintro ⟨name, hname, hslash⟩
    exact hnone name hname hslash

theorem components_posix (hposix : url.convention = .posix) :
    url.components = none :: url.names.map (fun name => some (decodeBinary name)) := by
  rw [FileUrl.components, FileUrl.host_of_posix hposix, hposix, map_map]
  rfl

/-- A plain name pushed onto a POSIX URL. -/
theorem exists_pushed (hname : PlainName name) (hposix : url.convention = .posix)
    (hplain : url.IsPlain) :
    ∃ pushed, tryFrom none (push (popIfEmpty url.segments) name) =
        some (.file pushed) ∧ pushed.convention = .posix ∧ pushed.IsPlain ∧
      pushed.components = url.components ++ [some (utf8 name)] := by
  have hnames : (push (popIfEmpty url.segments) name).filter (· ≠ []) =
      url.names ++ [encodeSegment (utf8 name)] := by
    rw [filter_push hname.encoded_ne_nil, filter_popIfEmpty]
    rfl
  have hvalid : ∀ segment ∈ push (popIfEmpty url.segments) name, 0 ∉ decodeBinary segment := by
    intro segment hsegment
    rw [push_eq, mem_append, mem_singleton] at hsegment
    rcases hsegment with hsegment | rfl
    · split_ifs at hsegment
      · cases hsegment
      · exact url.noNul segment (mem_of_mem_popIfEmpty hsegment)
    · rw [decodeBinary_encodeSegment]
      exact hname.bytes_noNul
  have hhead : ∀ first, ((push (popIfEmpty url.segments) name).filter
      (· ≠ [])).head? = some first →
      isWindowsDriveUriSegment first = false := by
    intro first hfirst
    rw [hnames, head?_append, Option.or_eq_some_iff] at hfirst
    rcases hfirst with hfirst | ⟨-, hfirst⟩
    · exact noDrive_of_posix hposix first hfirst
    · cases hfirst
      exact hname.noDrive
  have hpushed := @convention_eq_posix _ ⟨none, _, hvalid⟩ rfl hhead
  refine ⟨⟨none, _, hvalid⟩, ?_, hpushed, (isPlain_iff hpushed).mpr fun first hfirst => ?_, ?_⟩
  · rw [tryFrom]
    simp only [reduceCtorEq, ↓reduceIte, Option.isSome_none, normalizedDrive_eq_self hhead]
    rw [dif_pos hvalid]
  · rw [names, hnames, mem_append, mem_singleton] at hfirst
    rcases hfirst with hfirst | rfl
    · exact (isPlain_iff hposix).mp hplain first hfirst
    · rw [decodeBinary_encodeSegment]
      exact hname.bytes_noSlash
  · rw [components_posix hpushed, components_posix hposix, names,
      hnames, map_append, map_singleton, decodeBinary_encodeSegment]
    rfl

variable {root path : PathUri} {url : FileUrl}

theorem fromAbsoluteNativePath_relative (hslash : '/' ∉ name) :
    fromAbsoluteNativePath name .posix = none := by
  rw [fromAbsoluteNativePath]
  cases name with
  | nil => rfl
  | cons first rest =>
    have hfirst : first ≠ '/' := fun heq => hslash (heq ▸ mem_cons_self)
    simp only [parsePosixPath]
    split
    next heq => exact absurd (List.cons.inj heq).1 hfirst
    · rfl

/-- A plain name below a POSIX place. -/
theorem join_plainName (hname : PlainName name) (hroot : root.Shows .posix url) :
    ∃ joined, root.join name = some (.file joined) ∧
      joined.convention = .posix ∧ joined.IsPlain ∧
      joined.components = url.components ++ [some (utf8 name)] := by
  obtain ⟨rfl, hposix, hplain⟩ := hroot
  obtain ⟨joined, hjoined, hspec⟩ := exists_pushed hname hposix hplain
  refine ⟨joined, ?_, hspec⟩
  rw [join, if_neg hname.noNul, if_neg hname.ne_nil]
  simp only [inferPathConvention, hposix, fromAbsoluteNativePath_relative hname.noSlash,
    withoutDrive, Option.bind_some, joinRelative, isWindowsRootRelative,
    FileUrl.host_of_posix hposix, splitOn_eq_singleton hname.noSlash, foldl_cons]
  rw [relativeComponent, if_neg (by
      rw [not_or]
      exact ⟨hname.ne_nil, hname.ne_dot⟩), if_neg hname.ne_dotDot]
  exact hjoined

section

variable (hname : name ∈ protectedMetadataPathNames)
  (hposix : root.inferPathConvention = some .posix)
include hname hposix

/-- A metadata directory of a POSIX place. -/
theorem joinDescendant_metadata {place : List (Option Bytes)}
    (hplace : root.components = some place) :
    ∃ guarded, root.joinDescendant name = some guarded ∧
      guarded.inferPathConvention = some .posix ∧
      guarded.components = some (place ++ [some (utf8 name)]) := by
  have hplain := plainName_metadata hname
  obtain ⟨url, rfl, hurl, rfl⟩ := components_eq_some.mp hplace
  obtain ⟨joined, hjoin, hconvention, hjoined, hcomponents⟩ :=
    join_plainName hplain ⟨rfl, Option.some.inj hposix, hurl⟩
  have hshown : (file joined).components = some (url.components ++ [some (utf8 name)]) :=
    components_eq_some.mpr ⟨joined, rfl, hjoined, hcomponents⟩
  have hfile : (file joined).inferPathConvention = some .posix := congrArg some hconvention
  refine ⟨.file joined, ?_, hfile, hshown⟩
  have hbelow := (startsWith_iff_of_posix hfile hposix hshown hplace).mpr (prefix_append _ _)
  have hhead : ¬(name.head? == some '/') = true := by
    intro hslash
    exact hplain.noSlash (mem_of_mem_head? (by simpa using hslash))
  rw [joinDescendant, hjoin, Option.filter_some]
  simp only [hbelow, hposix]
  simpa using hhead

/-- Only metadata of places that show their components is looked at. -/
theorem joinDescendant_of_unshown (hunshown : root.isOpaque = true) :
    root.joinDescendant name = none := by
  cases root with
  | file url => cases hunshown
  | fallback bytes =>
    have hplain := plainName_metadata hname
    rw [joinDescendant, join, if_neg hplain.noNul, if_neg hplain.ne_nil, hposix]
    simp only [fromAbsoluteNativePath_relative hplain.noSlash]
    rfl

end

section Guards

variable {place full : List (Option Bytes)} (hpath : path.inferPathConvention = some .posix)
  (hfull : path.components = some full)
include hpath hfull

section

variable (hposix : root.inferPathConvention = some .posix) (hplace : root.components = some place)
include hposix hplace

/-- The metadata directory found is the one towards the path. -/
theorem components_of_guardedMetadata {guarded : PathUri} {name : Text}
    (hsome : guardedMetadata path root = some (guarded, name)) :
    some (utf8 name) ∈ metadataNames ∧ place ++ [some (utf8 name)] <+: full ∧
      guarded.inferPathConvention = some .posix ∧
      guarded.components = some (place ++ [some (utf8 name)]) := by
  obtain ⟨hname, hjoin, hcovers⟩ := guardedMetadata_eq_some hsome
  obtain ⟨known, hknown, hconvention, hcomponents⟩ := joinDescendant_metadata hname hposix hplace
  obtain rfl := Option.some.inj (hknown.symm.trans hjoin)
  refine ⟨mem_map_of_mem hname, ?_, hconvention, hcomponents⟩
  exact (startsWith_iff_of_posix hpath hconvention hfull hcomponents).mp hcovers

theorem guardedMetadata_eq_none_iff :
    guardedMetadata path root = none ↔ ¬∃ name ∈ metadataNames, place ++ [name] <+: full := by
  constructor
  · rintro hnone ⟨component, hcomponent, hcovers⟩
    obtain ⟨name, hname, rfl⟩ := mem_map.mp hcomponent
    obtain ⟨guarded, hjoin, hconvention, hcomponents⟩ :=
      joinDescendant_metadata hname hposix hplace
    have hsome := isSome_guardedMetadata hname hjoin
      ((startsWith_iff_of_posix hpath hconvention hfull hcomponents).mpr hcovers)
    rw [hnone] at hsome
    cases hsome
  · intro hnone
    cases hguarded : guardedMetadata path root with
  | none => rfl
  | some found =>
    obtain ⟨hname, hcovers, -⟩ := components_of_guardedMetadata hpath hfull hposix hplace hguarded
    exact absurd ⟨_, hname, hcovers⟩ hnone

end

variable {entries : List (PathUri × FileSystemAccessMode)}

/-- The metadata directory found first is that of the first guarding rule. -/
theorem firstGuard_rulesOf (hposix : ∀ entry ∈ entries, entry.1.inferPathConvention = some .posix)
    (hclear : Unambiguous entries) :
    ((entries.filter (·.2.canWrite)).findSome? (guardedMetadata path ·.1)).bind (·.1.components) =
      (firstGuard .write metadataNames (rulesOf entries) full).map (·.guard full) := by
  induction entries with
  | nil => rfl
  | cons entry entries ih =>
    obtain ⟨root, access⟩ := entry
    obtain ⟨hroot, hposix⟩ := forall_mem_cons.mp hposix
    obtain ⟨hshown, hclear⟩ := forall_mem_cons.mp hclear
    have ih := ih hposix hclear
    have hskip : ∀ rule : PathRule (Option Bytes) FileSystemAccessMode,
        ¬rule.Guards .write metadataNames full →
        firstGuard .write metadataNames (rule :: rulesOf entries) full =
          firstGuard .write metadataNames (rulesOf entries) full :=
      fun rule hnot => by simp [firstGuard, hnot]
    cases hplace : root.components with
    | none =>
      have hnone : guardedMetadata path root = none := by
        have hunshown : root.isOpaque = true := hshown.resolve_right
          fun hlexical => by
            obtain ⟨place, hsome⟩ := exists_components hlexical
            rw [hplace] at hsome
            cases hsome
        rw [guardedMetadata, findSome?_eq_none_iff]
        intro name hname
        rw [joinDescendant_of_unshown hname hroot hunshown]
        rfl
      have hrules : rulesOf ((root, access) :: entries) =
          rulesOf entries := by simp [rulesOf, hplace]
      rw [hrules, ← ih, filter_cons]
      split_ifs
      · rw [findSome?_cons, hnone]
      · rfl
    | some place =>
      have hrules : rulesOf ((root, access) :: entries) =
          ⟨place, access⟩ :: rulesOf entries := by simp [rulesOf, hplace]
      have hiff := guardedMetadata_eq_none_iff hpath hfull hroot hplace
      rw [hrules, filter_cons]
      split_ifs with hwrite
      · cases hguarded : guardedMetadata path root with
        | none =>
          rw [findSome?_cons, hguarded, ih, hskip]
          exact fun hguards => hiff.mp hguarded hguards.2
        | some found =>
          obtain ⟨hname, hcovers, -, hcomponents⟩ :=
            components_of_guardedMetadata hpath hfull hroot hplace hguarded
          have hguards : PathRule.Guards .write metadataNames full ⟨place, access⟩ :=
            ⟨by simpa using hwrite, _, hname, hcovers⟩
          simp only [findSome?_cons, hguarded, firstGuard, find?_cons, decide_true, hguards,
            Option.bind_some, Option.map_some, hcomponents]
          rw [PathRule.guard_eq hcovers]
      · rw [ih, hskip]
        exact fun hguards => hwrite (by simp [show access = .write from
          hguards.1])

theorem opensMetadata_iff {guarded : PathUri} {guard : List (Option Bytes)}
    (hposix : ∀ entry ∈ entries, entry.1.inferPathConvention = some .posix)
    (hguarded : guarded.inferPathConvention = some .posix)
    (hguard : guarded.components = some guard) :
    opensMetadata entries path guarded = true ↔ Opens .write (rulesOf entries) full guard := by
  simp only [opensMetadata, any_eq_true, Bool.and_eq_true, FileSystemAccessMode.canWrite_eq_true]
  constructor
  · rintro ⟨⟨root, access⟩, hmem, ⟨hwrite, hover⟩, hunder⟩
    obtain ⟨place, hplace⟩ := exists_components_of_startsWith hfull hover
    have hroot := hposix _ hmem
    exact ⟨⟨place, access⟩, mem_rulesOf.mpr ⟨root, hmem, hplace⟩, hwrite,
      (startsWith_iff_of_posix hroot hguarded hplace hguard).mp hunder,
      (startsWith_iff_of_posix hpath hroot hfull hplace).mp hover⟩
  · rintro ⟨rule, hrule, hwrite, hunder, hover⟩
    obtain ⟨root, hmem, hplace⟩ := mem_rulesOf.mp hrule
    have hroot := hposix _ hmem
    exact ⟨(root, rule.mode), hmem,
      ⟨hwrite, (startsWith_iff_of_posix hpath hroot hfull hplace).mpr hover⟩,
      (startsWith_iff_of_posix hroot hguarded hplace hguard).mpr hunder⟩

variable {policy : FileSystemSandboxPolicy} {context : FileSystemSandboxPolicyContext}

variable (hkind : policy.kind = .restricted)
  (hcwd : context.cwd.inferPathConvention = some .posix)
include hkind hcwd

theorem isNone_metadataWriteDenial_iff (hclear : Unambiguous (policy.resolvedEntries context)) :
    (policy.metadataWriteDenial path context).isNone ↔
      Unguarded .write metadataNames (policy.rules context) full := by
  have hposix : ∀ entry ∈ policy.resolvedEntries context,
      entry.1.inferPathConvention = some .posix := by
    rintro ⟨root, access⟩ hentry
    obtain ⟨-, -, -, -, hconvention⟩ := mem_resolvedEntries.mp hentry
    exact hconvention.trans hcwd
  have hfirst := firstGuard_rulesOf hpath hfull hposix hclear
  rw [← FileSystemSandboxPolicy.rules] at hfirst
  rw [metadataWriteDenial, if_neg (by simp [hkind]), Unguarded]
  cases hfound : ((policy.resolvedEntries context).filter
      (·.2.canWrite)).findSome? (guardedMetadata path ·.1) with
  | none =>
    rw [hfound] at hfirst
    have hnone := Option.map_eq_none_iff.mp hfirst.symm
    simp [hfound, hnone]
  | some found =>
    obtain ⟨⟨root, access⟩, hmem, hguarded⟩ := exists_of_findSome?_eq_some hfound
    have hroot := hposix _ (mem_of_mem_filter hmem)
    have hshown : ∃ place, root.components = some place := by
      refine exists_components ?_
      refine (hclear _ (mem_of_mem_filter hmem)).resolve_left fun hunshown => ?_
      obtain ⟨hname, hjoin, -⟩ := guardedMetadata_eq_some hguarded
      rw [joinDescendant_of_unshown hname hroot hunshown] at hjoin
      cases hjoin
    obtain ⟨place, hplace⟩ := hshown
    obtain ⟨-, -, hconvention, hcomponents⟩ :=
      components_of_guardedMetadata hpath hfull hroot hplace hguarded
    rw [hfound, Option.bind_some, hcomponents] at hfirst
    obtain ⟨rule, hrule, hguard⟩ := Option.map_eq_some_iff.mp hfirst.symm
    have hopens := opensMetadata_iff hpath hfull hposix hconvention hcomponents
    rw [← FileSystemSandboxPolicy.rules] at hopens
    simp only [hfound, Option.bind_some, hrule, Option.some.injEq, forall_eq', hguard, ← hopens]
    split_ifs with hopen
    · simp [hopen]
    · simp [hopen]

/-- Writing as the rules of the policy allow it. -/
theorem canWritePath_iff_rules (hadmissible : Admissible policy path context) :
    policy.canWritePath path context = true ↔ modeAt .deny (policy.rules context) full = .write ∧
        (policy.hasFullDiskWriteAccessWithContext context = true ∨
          Unguarded .write metadataNames (policy.rules context) full) := by
  rw [canWritePath, Bool.and_eq_true, Bool.or_eq_true, FileSystemAccessMode.canWrite_eq_true,
    isNone_metadataWriteDenial_iff hpath hfull hkind hcwd hadmissible.unambiguous,
    resolveAccess_eq_modeAt hkind hadmissible (textPlaces_of_posix hcwd) hfull]

end Guards

end Hexa.Permissions
