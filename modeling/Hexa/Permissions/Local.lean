/-
Policies on the paths of the local host, a Unix one: native paths, their URIs,
and the questions an executor asks about them.  File systems here have no
symbolic links, so that every path is its own canonical form.
-/
import Hexa.Permissions.MetadataRules

namespace Hexa.Permissions

open List FileSystemSandboxPolicy UrlCrates

/-- The byte `~`. -/
def tilde : UInt8 := 0x7e

/-- One component of a normalized path. -/
structure IsName (name : Bytes) : Prop where
  ne_nil : name ≠ []
  ne_dot : name ≠ ascii "."
  ne_dotDot : name ≠ ascii ".."
  noSlash : slash ∉ name

instance (name : Bytes) : Decidable (IsName name) :=
  decidable_of_iff
    (name ≠ [] ∧ name ≠ ascii "." ∧ name ≠ ascii ".." ∧ slash ∉ name)
    ⟨fun ⟨hne, hdot, hdotDot, hslash⟩ => ⟨hne, hdot, hdotDot, hslash⟩,
      fun hname => ⟨hname.1, hname.2, hname.3, hname.4⟩⟩

/-- An absolute path without `.` and `..`. -/
@[ext]
structure AbsolutePathBuf where
  names : List Bytes
  valid : ∀ name ∈ names, IsName name
  deriving DecidableEq

/-- `Path::components` of an absolute path, behind the root. -/
def nativeComponents (path : Bytes) : List Bytes :=
  (path.splitOn slash).filter (fun component => component ≠ [] ∧ component ≠ ascii ".")

def normalizeComponent (names : List Bytes) (component : Bytes) : List Bytes :=
  if component = ascii ".." then names.dropLast else names ++ [component]

variable {path : Bytes} {component : Bytes}

theorem slash_notMem_of_mem_splitOn (hcomponent : component ∈ path.splitOn slash) :
    slash ∉ component := by
  induction path generalizing component with
  | nil =>
    rw [splitOn_nil, mem_singleton] at hcomponent
    rw [hcomponent]
    exact not_mem_nil
  | cons byte path ih =>
    rw [splitOn_cons_eq_if_modifyHead] at hcomponent
    split_ifs at hcomponent with hslash
    · rcases mem_cons.mp hcomponent with rfl | hrest
      · exact not_mem_nil
      · exact ih hrest
    · obtain ⟨first, rest, hsplit⟩ := exists_cons_of_ne_nil (splitOn_ne_nil slash path)
      rw [hsplit] at hcomponent
      rcases mem_cons.mp hcomponent with rfl | hrest
      · intro hmem
        rcases mem_cons.mp hmem with rfl | hmem
        · simp at hslash
        · exact ih (hsplit ▸ mem_cons_self) hmem
      · exact ih (hsplit ▸ mem_cons_of_mem _ hrest)

variable {names : List Bytes} {components : List Bytes}

theorem valid_foldl_normalize (hcomponents : ∀ component ∈ components, component ≠ [] ∧
      component ≠ ascii "." ∧ slash ∉ component)
    (hnames : ∀ name ∈ names, IsName name) :
    ∀ name ∈ components.foldl normalizeComponent names, IsName name := by
  induction components generalizing names with
  | nil => exact hnames
  | cons component components ih =>
    obtain ⟨⟨hne, hdot, hslash⟩, hrest⟩ := forall_mem_cons.mp hcomponents
    apply ih hrest
    intro name hname
    rw [normalizeComponent] at hname
    split_ifs at hname with hdotDot
    · exact hnames name (dropLast_subset _ hname)
    · rcases mem_append.mp hname with hmem | hmem
      · exact hnames name hmem
      · rw [mem_singleton.mp hmem]
        exact ⟨hne, hdot, hdotDot, hslash⟩

theorem nativeComponents_valid (hcomponent : component ∈ nativeComponents path) :
    component ≠ [] ∧ component ≠ ascii "." ∧ slash ∉ component := by
  obtain ⟨hmem, hkept⟩ := mem_filter.mp hcomponent
  obtain ⟨hne, hdot⟩ := of_decide_eq_true hkept
  exact ⟨hne, hdot, slash_notMem_of_mem_splitOn hmem⟩

namespace AbsolutePathBuf

def root : AbsolutePathBuf := ⟨[], by simp⟩

/-- `absolutize_from`: a relative path behind the base, normalized. -/
def descend (base : AbsolutePathBuf) (path : Bytes) : AbsolutePathBuf where
  names := (nativeComponents path).foldl normalizeComponent base.names
  valid := valid_foldl_normalize (fun _ => nativeComponents_valid) base.valid

def asPath (path : AbsolutePathBuf) : Bytes :=
  if path.names = [] then [slash] else path.names.flatMap (slash :: ·)

/-- `Path::starts_with`. -/
def startsWith (path base : AbsolutePathBuf) : Bool := base.names.isPrefixOf path.names

end AbsolutePathBuf

inductive LocalFileKind where
  | directory
  | file
  | other
  deriving DecidableEq

/-- What the code asks of the host: the environment and the file system. -/
structure LocalHost where
  currentDir : Option AbsolutePathBuf
  homeDir : Option Bytes
  tmpdir : Option Bytes
  kind : AbsolutePathBuf → Option LocalFileKind

namespace LocalHost

variable (host : LocalHost)

def isDir (path : AbsolutePathBuf) : Bool := host.kind path = some .directory

def isFile (path : AbsolutePathBuf) : Bool := host.kind path = some .file

end LocalHost

def isAbsolutePath (path : Bytes) : Bool := path.head? = some slash

/-- `PathBuf::join` with a relative path. -/
def joinNative (base path : Bytes) : Bytes :=
  if base = [] ∨ base.getLast? = some slash then base ++ path
  else base ++ slash :: path

variable (host : LocalHost)

def maybeExpandHomeDirectory (path : Bytes) : Bytes :=
  match path, host.homeDir with
  | first :: rest, some home =>
    if first = tilde ∧ isUtf8 path then
      match rest with
      | [] => home
      | separator :: rest =>
        if separator = slash then joinNative home (rest.dropWhile (· = slash))
        else path
    else path
  | _, _ => path

namespace AbsolutePathBuf

def resolvePathAgainstBase (path : Bytes) (base : AbsolutePathBuf) : AbsolutePathBuf :=
  let expanded := maybeExpandHomeDirectory host path
  if isAbsolutePath expanded then root.descend expanded
  else base.descend expanded

def fromAbsolutePath (path : Bytes) : Option AbsolutePathBuf :=
  let expanded := maybeExpandHomeDirectory host path
  if isAbsolutePath expanded then some (root.descend expanded)
  else host.currentDir.map (·.descend expanded)

def fromAbsolutePathChecked (path : Bytes) : Option AbsolutePathBuf :=
  let expanded := maybeExpandHomeDirectory host path
  if isAbsolutePath expanded then some (root.descend expanded) else none

def join (base : AbsolutePathBuf) (path : Text) : AbsolutePathBuf :=
  resolvePathAgainstBase host (utf8 path) base

end AbsolutePathBuf

section Uris

variable [UrlCrates]

namespace PathUri

/-- `Url::from_file_path`, cut at the slashes. -/
def nativeSegments (path : AbsolutePathBuf) : List Bytes :=
  if path.names = [] then [[]]
  else path.names.map encodeSegment

def fromAbsPath (path : AbsolutePathBuf) : PathUri :=
  match tryFrom none (nativeSegments path) with
  | some uri =>
    if !uri.hostIsEmpty ∧ uri.inferPathConvention = some .posix then uri
    else fallback path.asPath
  | none => fallback path.asPath

/-- A slash that `to_file_path` may add at the end names nothing. -/
def toAbsPath (uri : PathUri) : Option AbsolutePathBuf :=
  if uri.inferPathConvention ≠ some .posix then none
  else
    match uri with
    | fallback bytes =>
      (AbsolutePathBuf.fromAbsolutePathChecked host bytes).filter
        (fun path => (fromAbsPath path).same uri)
    | file url =>
      AbsolutePathBuf.fromAbsolutePathChecked host
        (url.segments.flatMap (slash :: decodeBinary ·))

end PathUri

def localTemporaryDirectories : List PathUri :=
  match host.tmpdir with
  | some tmpdir =>
    if tmpdir = [] then []
    else ((AbsolutePathBuf.fromAbsolutePath host tmpdir).map PathUri.fromAbsPath).toList
  | none => []

def localContext (cwd : AbsolutePathBuf) : FileSystemSandboxPolicyContext where
  cwd := .fromAbsPath cwd
  workspaceRoots := [.fromAbsPath cwd]
  temporaryDirectories := some (localTemporaryDirectories host)

def resolveCandidatePath (path : Bytes) (cwd : AbsolutePathBuf) : Option AbsolutePathBuf :=
  if isAbsolutePath path then AbsolutePathBuf.fromAbsolutePath host path
  else some (AbsolutePathBuf.resolvePathAgainstBase host path cwd)

/-- A question about a native path, asked in the context of the host. -/
def withLocalPolicyContext {Answer : Type} (path cwd : Bytes)
    (evaluate : PathUri → FileSystemSandboxPolicyContext → Answer) :
    Option Answer := do
  let cwd ← AbsolutePathBuf.fromAbsolutePath host cwd
  let path ← resolveCandidatePath host path cwd
  return evaluate (.fromAbsPath path) (localContext host cwd)

namespace FileSystemSandboxPolicy

variable (host : LocalHost) (policy : FileSystemSandboxPolicy) (path cwd : Bytes)

def canWriteLocalPathWithCwd : Bool :=
  (withLocalPolicyContext host path cwd policy.canWritePath).getD false

end FileSystemSandboxPolicy

end Uris

/-! Native paths and the components of their URIs. -/

namespace AbsolutePathBuf

/-- The components of a path, as a URI shows them. -/
def place (path : AbsolutePathBuf) : List (Option Bytes) := none :: path.names.map some

theorem place_prefix_iff {path base : AbsolutePathBuf} :
    base.place <+: path.place ↔ base.names <+: path.names := by
  rw [place, place, cons_prefix_cons]
  simp only [true_and]
  exact prefix_map_iff_of_injective (Option.some_injective _)

theorem startsWith_iff {path base : AbsolutePathBuf} :
    path.startsWith base = true ↔ base.place <+: path.place := by
  rw [place_prefix_iff, startsWith, isPrefixOf_iff_prefix]

end AbsolutePathBuf

/-- Names are kept as they are. -/
theorem foldl_normalize_of_names (hnames : ∀ component ∈ components, component ≠ ascii "..") :
    components.foldl normalizeComponent names = names ++ components := by
  induction components generalizing names with
  | nil => simp
  | cons component components ih =>
    obtain ⟨hne, hrest⟩ := forall_mem_cons.mp hnames
    rw [foldl_cons, normalizeComponent, if_neg hne, ih hrest, append_assoc]
    rfl

theorem splitOn_names {first : Bytes} (hfirst : slash ∉ first)
    (hnames : ∀ name ∈ names, IsName name) :
    (first ++ names.flatMap (slash :: ·)).splitOn slash = first :: names := by
  induction names generalizing first with
  | nil => simp [splitOn_eq_singleton hfirst]
  | cons name names ih =>
    obtain ⟨hname, hrest⟩ := forall_mem_cons.mp hnames
    rw [flatMap_cons, cons_append, splitOn_append_cons_self_of_not_mem hfirst,
      ih hname.noSlash hrest]

open AbsolutePathBuf

theorem nativeComponents_asPath (path : AbsolutePathBuf) :
    nativeComponents path.asPath = path.names := by
  have hkept : path.names.filter (fun component =>
      component ≠ [] ∧ component ≠ ascii ".") = path.names := by
    rw [filter_eq_self]
    intro name hname
    have hvalid := path.valid name hname
    simp [hvalid.ne_nil, hvalid.ne_dot]
  rw [nativeComponents, asPath]
  split_ifs with hroot
  · rw [hroot]
    decide
  · have hsplit := splitOn_names (not_mem_nil (a := slash)) path.valid
    rw [nil_append] at hsplit
    rw [hsplit, filter_cons_of_neg (by simp), hkept]

/-- A path without `..` is its components. -/
theorem descend_root_names (hnames : ascii ".." ∉ nativeComponents path) :
    (root.descend path).names = nativeComponents path := by
  refine foldl_normalize_of_names ?_
  rintro component hcomponent rfl
  exact hnames hcomponent

theorem descend_root_asPath (path : AbsolutePathBuf) : root.descend path.asPath = path := by
  apply AbsolutePathBuf.ext
  rw [descend_root_names, nativeComponents_asPath]
  rw [nativeComponents_asPath]
  intro hmem
  exact (path.valid _ hmem).ne_dotDot rfl

/-- An absolute path begins with no `~`. -/
theorem maybeExpandHomeDirectory_absolute {host : LocalHost}
    (habsolute : isAbsolutePath path = true) : maybeExpandHomeDirectory host path = path := by
  cases path with
  | nil => rfl
  | cons first rest =>
    obtain rfl : first = slash := by simpa [isAbsolutePath] using habsolute
    have htilde : ¬(slash = tilde ∧ isUtf8 (slash :: rest) = true) :=
      fun hboth => absurd hboth.1 (by decide)
    cases hhome : host.homeDir with
    | none => simp only [maybeExpandHomeDirectory, hhome]
    | some home => simp only [maybeExpandHomeDirectory, hhome, if_neg htilde]

theorem isAbsolutePath_asPath (path : AbsolutePathBuf) : isAbsolutePath path.asPath = true := by
  rw [asPath]
  split_ifs with hroot
  · rfl
  · obtain ⟨name, names, hnames⟩ := exists_cons_of_ne_nil hroot
    rw [hnames]
    rfl

theorem upper_alphabetic {byte : UInt8} (halphabetic : isAsciiAlphabetic byte = true) :
    isAsciiAlphabetic (if 97 ≤ byte.toNat ∧ byte.toNat ≤ 122 then byte - 32
      else byte) = true := by
  split_ifs with hlower
  · have hle : (32 : UInt8) ≤ byte := by exact le_trans (by decide) hlower.1
    have hsub := UInt8.toNat_sub_of_le byte 32 hle
    have hthirtyTwo : (32 : UInt8).toNat = 32 := rfl
    simp only [isAsciiAlphabetic, Bool.or_eq_true, Bool.and_eq_true, decide_eq_true_eq]
    omega
  · exact halphabetic

theorem upperDrive_drive {segment : Bytes} (hdrive : isWindowsDriveUriSegment segment = true) :
    isWindowsDriveUriSegment (upperDrive segment) = true := by
  match segment with
  | [drive, byte] =>
    simp only [isWindowsDriveUriSegment, upperDrive, Bool.and_eq_true] at hdrive ⊢
    exact ⟨upper_alphabetic hdrive.1, hdrive.2⟩
  | [drive, first, second, third] =>
    simp only [isWindowsDriveUriSegment, upperDrive, Bool.and_eq_true] at hdrive ⊢
    exact ⟨⟨⟨upper_alphabetic hdrive.1.1.1, hdrive.1.1.2⟩, hdrive.1.2⟩, hdrive.2⟩
  | [] | [_] | [_, _, _] | _ :: _ :: _ :: _ :: _ :: _ => cases hdrive

variable [UrlCrates]

namespace PathUri

variable {path : AbsolutePathBuf}

theorem filter_nativeSegments :
    (nativeSegments path).filter (· ≠ []) = path.names.map encodeSegment := by
  rw [nativeSegments]
  split_ifs with hroot
  · rw [hroot]
    rfl
  · rw [filter_eq_self]
    intro segment hsegment
    obtain ⟨name, hname, rfl⟩ := mem_map.mp hsegment
    simpa using encodeSegment_ne_nil (path.valid name hname).ne_nil

/-- Segments that begin with a drive make a Windows path. -/
theorem convention_of_drive {segment : Bytes} {segments : List Bytes} {url : FileUrl}
    (hdrive : isWindowsDriveUriSegment segment = true) (hhost : url.host = none)
    (hsegments : url.segments = normalizedDrive (segment :: segments)) :
    url.convention = .windows := by
  have hupper := upperDrive_drive hdrive
  have hhead : url.names.head? = some (upperDrive segment) := by
    have hupperNe : upperDrive segment ≠ [] := fun hnil => by
      rw [hnil] at hupper
      cases hupper
    rw [FileUrl.names, hsegments, normalizedDrive_drive hdrive,
      filter_cons_of_pos (by simpa using hupperNe)]
    rfl
  rw [FileUrl.convention, hhost, hhead]
  simp [hupper]

/-- The first segment of a path with a POSIX URL is no drive. -/
theorem noDrive_nativeSegments {url : FileUrl} (hposix : url.convention = .posix)
    (hhost : url.host = none) (hsegments : url.segments = normalizedDrive (nativeSegments path)) :
    ∀ segment, ((nativeSegments path).filter (· ≠ [])).head? = some segment →
      isWindowsDriveUriSegment segment = false := by
  intro segment hsegment
  by_contra hdrive
  rw [Bool.not_eq_false] at hdrive
  rw [filter_nativeSegments] at hsegment
  cases hnames : path.names with
  | nil =>
    rw [hnames] at hsegment
    cases hsegment
  | cons name names =>
    rw [hnames, map_cons, head?_cons, Option.some.injEq] at hsegment
    rw [nativeSegments, hnames, map_cons, hsegment] at hsegments
    rw [convention_of_drive hdrive hhost hsegments] at hposix
    cases hposix

/-- A path with its own URI shows its components there; any other has a URI
that shows nothing. -/
theorem fromAbsPath_cases (path : AbsolutePathBuf) :
    fromAbsPath path = fallback path.asPath ∨
      (fromAbsPath path).inferPathConvention = some .posix ∧
        (fromAbsPath path).components = some path.place := by
  cases htry : tryFrom none (nativeSegments path) with
  | none => exact .inl (by simp only [fromAbsPath, htry])
  | some uri =>
    by_cases hposix : !uri.hostIsEmpty ∧ uri.inferPathConvention = some .posix
    · right
      simp only [fromAbsPath, htry, if_pos hposix]
      refine ⟨hposix.2, ?_⟩
      obtain ⟨url, rfl, hhost, hsegments⟩ := tryFrom_eq_some htry
      rw [hhost] at hsegments
      have hconvention : url.convention = .posix := Option.some.inj hposix.2
      have hnames : url.names = path.names.map encodeSegment := by
        rw [FileUrl.names, hsegments, normalizedDrive_eq_self
          (noDrive_nativeSegments hconvention hhost hsegments)]
        exact filter_nativeSegments
      refine components_eq_some.mpr ⟨url, rfl,
        (isPlain_iff hconvention).mpr fun segment hsegment => ?_, ?_⟩
      · rw [hnames] at hsegment
        obtain ⟨name, hname, rfl⟩ := mem_map.mp hsegment
        rw [decodeBinary_encodeSegment]
        exact (path.valid name hname).noSlash
      · rw [components_posix hconvention, hnames, map_map, place]
        simp only [Function.comp_def, decodeBinary_encodeSegment]
    · exact .inl (by simp only [fromAbsPath, htry, if_neg hposix])

theorem inferPathConvention_fromAbsPath (path : AbsolutePathBuf) :
    (fromAbsPath path).inferPathConvention = some .posix := by
  rcases fromAbsPath_cases path with hfallback | ⟨hposix, -⟩
  · have habsolute := isAbsolutePath_asPath path
    rw [isAbsolutePath, decide_eq_true_eq] at habsolute
    rw [hfallback]
    exact if_pos habsolute
  · exact hposix

/-- What a URI of a native path shows are the components of the path. -/
theorem components_fromAbsPath (hlexical : (fromAbsPath path).lexicalDepth.isSome) :
    (fromAbsPath path).components = some path.place := by
  rcases fromAbsPath_cases path with hfallback | ⟨-, hcomponents⟩
  · rw [hfallback] at hlexical
    cases hlexical
  · exact hcomponents

end PathUri

section

variable {host : LocalHost} {policy : FileSystemSandboxPolicy} {cwd : Bytes}
  {base : AbsolutePathBuf} {path : Bytes}
  (hcwd : AbsolutePathBuf.fromAbsolutePath host cwd = some base)

theorem cwd_posix : (localContext host base).cwd.inferPathConvention = some .posix :=
  PathUri.inferPathConvention_fromAbsPath base

include hcwd in
theorem canWriteLocal_absolute (habsolute : isAbsolutePath path = true) :
    policy.canWriteLocalPathWithCwd host path cwd =
      policy.canWritePath (.fromAbsPath (root.descend path)) (localContext host base) := by
  simp only [canWriteLocalPathWithCwd, withLocalPolicyContext, hcwd, resolveCandidatePath]
  simp only [fromAbsolutePath, maybeExpandHomeDirectory_absolute habsolute, habsolute]
  rfl

include hcwd in
theorem canWriteLocal_asPath (path : AbsolutePathBuf) :
    policy.canWriteLocalPathWithCwd host path.asPath cwd =
      policy.canWritePath (.fromAbsPath path) (localContext host base) := by
  rw [canWriteLocal_absolute hcwd (isAbsolutePath_asPath path), descend_root_asPath]

end

end Hexa.Permissions
