/-
The writable roots of a policy, as sandboxes get them: each root with paths
below it that stay read-only and names that must not be written right below.
A root is described by itself, so what another root protects is lost.
-/
import Hexa.Permissions.Local

namespace Hexa.Permissions

open List FileSystemSandboxPolicy

section Roots

variable [UrlCrates]

structure ResolvedFileSystemEntry where
  path : AbsolutePathBuf
  access : FileSystemAccessMode

variable (host : LocalHost)

/-- The name of the temporary directory in the environment, if it is set. -/
def tmpdirPath : Option AbsolutePathBuf :=
  match host.tmpdir with
  | some tmpdir => if tmpdir = [] then none else AbsolutePathBuf.fromAbsolutePath host tmpdir
  | none => none

def slashTmpPath : AbsolutePathBuf := ⟨[ascii "tmp"], by decide⟩

def resolveFileSystemSpecialPath (value : FileSystemSpecialPath) (cwd : Option AbsolutePathBuf) :
    Option AbsolutePathBuf :=
  match value with
  | .root => none
  | .minimal => none
  | .unknown _ _ => none
  | .projectRoots none => cwd
  | .projectRoots (some subpath) => cwd.map (·.join host subpath)
  | .tmpdir => tmpdirPath host
  | .slashTmp => if host.isDir slashTmpPath then some slashTmpPath else none

def resolveEntryPath (path : FileSystemPath) (cwd : Option AbsolutePathBuf) :
    Option AbsolutePathBuf :=
  match path with
  | .special .root => cwd.map (fun _ => AbsolutePathBuf.root)
  | .special value => resolveFileSystemSpecialPath host value cwd
  | .path path => path.toAbsPath host
  | .globPattern _ => none

/-- A git pointer file would add the directory it names. -/
def defaultReadOnlySubpathsForWritableRoot (root : AbsolutePathBuf)
    (protectMissingDotCodex : Bool) : List AbsolutePathBuf :=
  let git := root.join host ".git".toList
  let agents := root.join host ".agents".toList
  let codex := root.join host ".hexa".toList
  ((if host.isDir git || host.isFile git then [git] else []) ++
    (if host.isDir agents then [agents] else []) ++
    (if protectMissingDotCodex || host.isDir codex then [codex] else [])).eraseDups

structure WritableRoot where
  root : AbsolutePathBuf
  readOnlySubpaths : List AbsolutePathBuf
  protectedMetadataNames : List Text

namespace WritableRoot

def pathContainsProtectedMetadataName (root : WritableRoot) (path : Bytes) : Bool :=
  match (nativeComponents path)[root.root.names.length]? with
  | some first => root.protectedMetadataNames.any (first = utf8 ·)
  | none => false

/-- The components of the path are compared as they are, `..` included. -/
def isPathWritable (root : WritableRoot) (path : Bytes) : Bool :=
  let startsWith := fun (base : AbsolutePathBuf) =>
    isAbsolutePath path && base.names.isPrefixOf (nativeComponents path)
  startsWith root.root && !root.readOnlySubpaths.any startsWith &&
    !root.pathContainsProtectedMetadataName path

end WritableRoot

namespace FileSystemSandboxPolicy

def hasFullDiskWriteAccess (policy : FileSystemSandboxPolicy) : Bool :=
  policy.hasFullDiskWriteAccessForConvention (some .posix)

def resolvedEntriesWithCwd (policy : FileSystemSandboxPolicy) (cwd : Bytes) :
    List ResolvedFileSystemEntry :=
  policy.entries.filterMap (fun entry =>
    (resolveEntryPath host entry.path
      (AbsolutePathBuf.fromAbsolutePath host cwd)).map (fun path => ⟨path, entry.access⟩))

variable (host : LocalHost) (policy : FileSystemSandboxPolicy) (root : AbsolutePathBuf)
  (cwd : Bytes)

def protectedMetadataNamesForWritableRoot : List Text :=
  protectedMetadataPathNames.filter (fun name =>
    !policy.canWriteLocalPathWithCwd host (root.join host name).asPath cwd)

/-- The non-write entries strictly below the root. -/
def carveouts : List AbsolutePathBuf :=
  ((policy.resolvedEntriesWithCwd host cwd).filter (fun entry =>
    !entry.access.canWrite &&
      !policy.canWriteLocalPathWithCwd host entry.path.asPath cwd &&
      entry.path ≠ root && entry.path.startsWith root)).map (·.path)

def writableRoot (root : AbsolutePathBuf) : WritableRoot where
  root := root
  readOnlySubpaths := (((defaultReadOnlySubpathsForWritableRoot host root
      (AbsolutePathBuf.fromAbsolutePath host cwd = some root)).filter
        (fun path => !(policy.resolvedEntriesWithCwd host cwd).any
          (·.path = path))) ++ policy.carveouts host root cwd).eraseDups
  protectedMetadataNames := policy.protectedMetadataNamesForWritableRoot host root cwd

/-- Two spellings of one root would be protected together; without symbolic
links there are none. -/
def getWritableRootsWithCwd : List WritableRoot :=
  if policy.hasFullDiskWriteAccess then []
  else
    (((policy.resolvedEntriesWithCwd host cwd).filter (fun entry =>
      entry.access.canWrite && policy.canWriteLocalPathWithCwd host entry.path.asPath cwd)).map
          (·.path)).eraseDups.map (policy.writableRoot host cwd)

/-- The rules of the policy in the context of the host. -/
def localRules : List (PathRule (Option Bytes) FileSystemAccessMode) :=
  ((AbsolutePathBuf.fromAbsolutePath host cwd).map
    (fun base => policy.rules (localContext host base))).getD []

end FileSystemSandboxPolicy

/-- The roots can speak for the policy about a path: the path has a URI, the
entry that decides it is known to the roots, and the first place whose
metadata the path lies in is not below another writable one. -/
structure Represented (host : LocalHost)
    (policy : FileSystemSandboxPolicy) (cwd : Bytes) (path : AbsolutePathBuf) :
    Prop where
  shown : (PathUri.fromAbsPath path).lexicalDepth.isSome
  carved : ∀ rule, Decides (policy.localRules host cwd) path.place rule →
    rule.mode ≠ .write →
    ∃ entry ∈ policy.resolvedEntriesWithCwd host cwd,
      entry.access ≠ .write ∧ entry.path.place = rule.place
  unnested : ∀ rule,
    firstGuard .write metadataNames (policy.localRules host cwd) path.place = some rule →
    Opens .write (policy.localRules host cwd) path.place (rule.guard path.place) ∨
      ∀ entry ∈ policy.resolvedEntriesWithCwd host cwd,
        entry.access = .write → entry.path.place <+: rule.place →
        entry.path.place = rule.place

variable {host : LocalHost} {policy : FileSystemSandboxPolicy} {cwd : Bytes}
  {base root path : AbsolutePathBuf}

theorem fullDisk_localContext :
    policy.hasFullDiskWriteAccessWithContext (localContext host base) =
      policy.hasFullDiskWriteAccess := by
  rw [hasFullDiskWriteAccessWithContext, cwd_posix, hasFullDiskWriteAccess]

/-- Writing on the host, by the rules. -/
theorem canWriteLocal_iff (hkind : policy.kind = .restricted)
    (hfull : policy.hasFullDiskWriteAccess = false)
    (hcwd : AbsolutePathBuf.fromAbsolutePath host cwd = some base) :
    policy.canWriteLocalPathWithCwd host path.asPath cwd = true ↔
      Admissible policy (.fromAbsPath path) (localContext host base) ∧
        modeAt .deny (policy.localRules host cwd) path.place = .write ∧
        Unguarded .write metadataNames (policy.localRules host cwd) path.place := by
  rw [canWriteLocal_asPath hcwd, localRules, hcwd, Option.map_some, Option.getD_some]
  have hrules : Admissible policy (.fromAbsPath path)
      (localContext host base) → _ := fun hadmissible =>
    canWritePath_iff_rules (PathUri.inferPathConvention_fromAbsPath path)
      (PathUri.components_fromAbsPath hadmissible.lexical) hkind cwd_posix
      hadmissible
  rw [fullDisk_localContext, hfull] at hrules
  simp only [Bool.false_eq_true, false_or] at hrules
  constructor
  · intro hwrite
    have hresolve : policy.resolveAccess (.fromAbsPath path)
        (localContext host base) = .write := by
      rw [canWritePath, Bool.and_eq_true] at hwrite
      simpa using hwrite.1
    have hadmissible := admissible_of_resolveAccess hkind (by rw [hresolve]; rintro ⟨⟩)
    exact ⟨hadmissible, (hrules hadmissible).mp hwrite⟩
  · rintro ⟨hadmissible, hboth⟩
    exact (hrules hadmissible).mpr hboth

omit [UrlCrates] in
theorem place_join_metadata {name : Text} (hname : name ∈ protectedMetadataPathNames) :
    (root.join host name).place = root.place ++ [some (utf8 name)] := by
  have hnames : (root.join host name).names = root.names ++ [utf8 name] := by
    simp only [protectedMetadataPathNames, mem_cons, not_mem_nil, or_false] at hname
    rw [AbsolutePathBuf.join, AbsolutePathBuf.resolvePathAgainstBase]
    cases hhome : host.homeDir with
    | none | some home =>
      rcases hname with rfl | rfl | rfl <;>
        simp only [maybeExpandHomeDirectory, hhome] <;> rfl
  rw [AbsolutePathBuf.place, hnames, map_append]
  rfl

theorem mem_getWritableRoots {writable : WritableRoot}
    (hmem : writable ∈ policy.getWritableRootsWithCwd host cwd) :
    policy.hasFullDiskWriteAccess = false ∧ ∃ entry ∈ policy.resolvedEntriesWithCwd host cwd,
        entry.access = .write ∧
        policy.canWriteLocalPathWithCwd host entry.path.asPath cwd = true ∧
        writable = policy.writableRoot host cwd entry.path := by
  rw [getWritableRootsWithCwd] at hmem
  split_ifs at hmem with hfull
  · cases hmem
  · obtain ⟨root, hroot, rfl⟩ := mem_map.mp hmem
    obtain ⟨entry, hentry, rfl⟩ := mem_map.mp (mem_eraseDups.mp hroot)
    obtain ⟨hentry, hwrite⟩ := mem_filter.mp hentry
    rw [Bool.and_eq_true, FileSystemAccessMode.canWrite_eq_true] at hwrite
    exact ⟨by simpa using hfull, entry, hentry, hwrite.1, hwrite.2, rfl⟩

/-- What a root says of a path: it lies below the root and not below what is
carved out, and begins with no protected name. -/
theorem of_isPathWritable {raw : Bytes} (hnames : ascii ".." ∉ nativeComponents raw)
    (hwritable : (policy.writableRoot host cwd root).isPathWritable raw = true) :
    isAbsolutePath raw = true ∧
      root.place <+: (AbsolutePathBuf.root.descend raw).place ∧
      (∀ entry ∈ policy.resolvedEntriesWithCwd host cwd,
        entry.access ≠ .write →
        policy.canWriteLocalPathWithCwd host entry.path.asPath cwd = false →
        entry.path ≠ root → root.place <+: entry.path.place →
        ¬entry.path.place <+: (AbsolutePathBuf.root.descend raw).place) ∧
      ∀ name ∈ protectedMetadataPathNames,
        policy.canWriteLocalPathWithCwd host (root.join host name).asPath cwd = false →
        ¬root.place ++ [some (utf8 name)] <+: (AbsolutePathBuf.root.descend raw).place := by
  have hcomponents := descend_root_names hnames
  simp only [WritableRoot.isPathWritable, Bool.and_eq_true, Bool.not_eq_true', any_eq_false,
    isPrefixOf_iff_prefix, ← hcomponents, ← AbsolutePathBuf.place_prefix_iff] at hwritable
  obtain ⟨⟨⟨habsolute, hbelow⟩, hreadOnly⟩, hprotected⟩ := hwritable
  refine ⟨habsolute, hbelow, ?_, ?_⟩
  · intro entry hentry hread hdenied hne hunder hcovers
    refine hreadOnly entry.path ?_ ⟨habsolute, hcovers⟩
    apply mem_eraseDups.mpr
    apply mem_append_right
    refine mem_map_of_mem (mem_filter.mpr ⟨hentry, ?_⟩)
    have hcanWrite : entry.access.canWrite = false := Bool.eq_false_iff.mpr (by simpa using hread)
    have hstarts := AbsolutePathBuf.startsWith_iff.mpr hunder
    simp [hcanWrite, hdenied, hne, hstarts]
  · intro name hname hdenied hcovers
    have hmem : name ∈ (policy.writableRoot host cwd root).protectedMetadataNames :=
      mem_filter.mpr ⟨hname, by simp [hdenied]⟩
    obtain ⟨rest, hrest⟩ := hcovers
    have hfirst : (nativeComponents raw)[root.names.length]? = some (utf8 name) := by
      rw [← hcomponents]
      have hat := congrArg (·[root.names.length + 1]?) hrest
      simpa [AbsolutePathBuf.place] using hat.symm
    change (match (nativeComponents raw)[root.names.length]? with
      | some first => _
      | none => false) = false at hprotected
    rw [hfirst] at hprotected
    have hany := any_eq_false.mp hprotected name hmem
    simp at hany

section

variable (hkind : policy.kind = .restricted) (hfull : policy.hasFullDiskWriteAccess = false)
  (hcwd : AbsolutePathBuf.fromAbsolutePath host cwd = some base)
include hkind hfull hcwd

/-- Below a root that speaks for the policy every path may be written, unless
a metadata directory further up is guarded. -/
theorem modeAt_of_represented (hrootWrite : modeAt .deny (policy.localRules host
    cwd) root.place = .write) (hbelow : root.place <+: path.place) (hcarved : ∀
    entry ∈ policy.resolvedEntriesWithCwd host cwd, entry.access ≠ .write →
    policy.canWriteLocalPathWithCwd host entry.path.asPath cwd = false →
    entry.path ≠ root → root.place <+: entry.path.place → ¬entry.path.place <+:
    path.place) (hrepresented : Represented host policy cwd path) :
    modeAt .deny (policy.localRules host cwd) path.place = .write := by
  obtain ⟨upper, hupper, hmode⟩ := exists_decides_of_modeAt_ne
    (show modeAt .deny (policy.localRules host cwd) root.place ≠ .deny by
      rw [hrootWrite]; exact (nofun))
  obtain ⟨lower, hlower, -⟩ := exists_decides hupper.mem (hupper.covers.trans hbelow)
  rw [hlower.modeAt_eq]
  by_contra hread
  obtain ⟨entry, hentry, haccess, hplace⟩ := hrepresented.carved lower hlower hread
  have hcovers : entry.path.place <+: path.place := hplace ▸ hlower.covers
  -- The decider lies strictly below the root, so it is carved out.
  have hdeeper : root.place.length < lower.place.length := by
    rcases hupper.mode_eq_or_below hlower hbelow with hsame | hdeeper
    · rw [hsame, hmode, hrootWrite] at hread
      exact absurd rfl hread
    · exact hdeeper
  have hdenied : policy.canWriteLocalPathWithCwd host entry.path.asPath cwd = false := by
    rw [Bool.eq_false_iff, ne_eq, canWriteLocal_iff hkind hfull hcwd]
    rintro ⟨-, hwrite, -⟩
    have hat : Decides (policy.localRules host cwd) entry.path.place lower :=
      hlower.between (hplace ▸ prefix_rfl) hcovers
    rw [hat.modeAt_eq] at hwrite
    exact hread hwrite
  refine hcarved entry hentry haccess hdenied ?_ ?_ hcovers
  · rintro rfl
    rw [hplace] at hdeeper
    exact lt_irrefl _ hdeeper
  · exact prefix_of_prefix_length_le hbelow hcovers (hplace ▸ hdeeper.le)

/-- Below a root that speaks for the policy no metadata directory around the
path is left closed. -/
theorem unguarded_of_represented {entry : ResolvedFileSystemEntry} (hentry :
    entry ∈ policy.resolvedEntriesWithCwd host cwd) (haccess : entry.access =
    .write) (hopen : Unguarded .write metadataNames (policy.localRules host cwd)
    entry.path.place) (hbelow : entry.path.place <+: path.place) (hprotected : ∀
    name ∈ protectedMetadataPathNames, policy.canWriteLocalPathWithCwd host
    (entry.path.join host name).asPath cwd = false → ¬entry.path.place ++ [some
    (utf8 name)] <+: path.place) (hrepresented : Represented host policy cwd
    path) : Unguarded .write metadataNames (policy.localRules host cwd) path.place := by
  intro rule hfirst
  rcases hrepresented.unnested rule hfirst with hopens | hunnested
  · exact hopens
  · obtain ⟨-, component, hcomponent, hcovers⟩ := (firstGuard_eq_some.mp hfirst).1
    have hguard := PathRule.guard_eq hcovers
    by_cases hdeep : (rule.guard path.place).length ≤ entry.path.place.length
    · -- The directory lies above the root, which is not guarded.
      exact hopen.opens hfirst (prefix_of_prefix_length_le
        PathRule.guard_prefix hbelow hdeep) hbelow
    · -- It lies right below the root, among its protected names.
      have hlength : entry.path.place.length ≤ rule.place.length := by
        rw [hguard, length_append] at hdeep
        simp only [length_singleton] at hdeep
        omega
      have hsame := hunnested entry hentry haccess
        (prefix_of_prefix_length_le hbelow ((prefix_append _ _).trans hcovers) hlength)
      obtain ⟨name, hname, rfl⟩ := mem_map.mp hcomponent
      rw [← hsame] at hcovers hguard
      have hjoined := @place_join_metadata host entry.path name hname
      by_cases hwrite : policy.canWriteLocalPathWithCwd host
          (entry.path.join host name).asPath cwd = true
      · obtain ⟨-, -, hunguarded⟩ := (canWriteLocal_iff hkind hfull hcwd).mp hwrite
        rw [hjoined] at hunguarded
        exact hunguarded.opens hfirst (hguard ▸ prefix_rfl) hcovers
      · exact absurd hcovers (hprotected name hname (by simpa using hwrite))

end

/-- A path without `..` that a writable root lets be written may be written,
exactly if the roots can speak for the policy about it. -/
theorem canWriteLocal_iff_represented {raw : Bytes} {writable : WritableRoot}
    (hkind : policy.kind = .restricted) (hnames : ascii ".." ∉ nativeComponents raw)
    (hroot : writable ∈ policy.getWritableRootsWithCwd host cwd)
    (hwritable : writable.isPathWritable raw = true) :
    policy.canWriteLocalPathWithCwd host raw cwd = true ↔
      Represented host policy cwd (AbsolutePathBuf.root.descend raw) := by
  obtain ⟨hfull, entry, hentry, haccess, hentryWrite, rfl⟩ := mem_getWritableRoots hroot
  obtain ⟨base, hcwd⟩ : ∃ base, AbsolutePathBuf.fromAbsolutePath host cwd = some base := by
    rw [← Option.ne_none_iff_exists']
    intro hnone
    simp [canWriteLocalPathWithCwd, withLocalPolicyContext, hnone] at hentryWrite
  obtain ⟨hadmissible, hrootMode, hrootOpen⟩ :=
    (canWriteLocal_iff hkind hfull hcwd).mp hentryWrite
  obtain ⟨habsolute, hbelow, hcarved, hprotected⟩ := of_isPathWritable hnames hwritable
  rw [canWriteLocal_absolute hcwd habsolute, ← canWriteLocal_asPath hcwd,
    canWriteLocal_iff hkind hfull hcwd]
  constructor
  · rintro ⟨hpath, hmode, hopen⟩
    refine ⟨hpath.lexical, fun rule hrule hread => ?_,
      fun rule hfirst => .inl (hopen rule hfirst)⟩
    rw [hrule.modeAt_eq] at hmode
    exact absurd hmode hread
  · intro hrepresented
    exact ⟨{ hadmissible with
        convention := ⟨.posix, cwd_posix, PathUri.inferPathConvention_fromAbsPath _⟩
        lexical := hrepresented.shown },
      modeAt_of_represented hkind hfull hcwd hrootMode hbelow hcarved hrepresented,
      unguarded_of_represented hkind hfull hcwd hentry haccess hrootOpen
        hbelow hprotected hrepresented⟩

/-- A path that a writable root lets be written may be written, exactly if the
roots can speak for the policy about it.  Where the path has `..` in it, a root
must let the normalized path be written, too. -/
theorem writable_root_sound_iff {raw : Bytes} {writable : WritableRoot}
    (hkind : policy.kind = .restricted)
    (hroot : writable ∈ policy.getWritableRootsWithCwd host cwd)
    (hwritable : writable.isPathWritable raw = true)
    (hnormal : ascii ".." ∈ nativeComponents raw →
      ∃ other ∈ policy.getWritableRootsWithCwd host cwd,
        other.isPathWritable (AbsolutePathBuf.root.descend raw).asPath = true) :
    policy.canWriteLocalPathWithCwd host raw cwd = true ↔
      Represented host policy cwd (AbsolutePathBuf.root.descend raw) := by
  by_cases hnames : ascii ".." ∈ nativeComponents raw
  · obtain ⟨other, hother, hlets⟩ := hnormal hnames
    have habsolute : isAbsolutePath raw = true := by
      simp only [WritableRoot.isPathWritable, Bool.and_eq_true] at hwritable
      exact hwritable.1.1.1
    -- The policy is asked about the normalized path, whose names have no `..`.
    have hnormalized : ascii ".." ∉
        nativeComponents (AbsolutePathBuf.root.descend raw).asPath := by
      rw [nativeComponents_asPath]
      exact fun hmem => ((AbsolutePathBuf.root.descend raw).valid _ hmem).ne_dotDot rfl
    have hsame : policy.canWriteLocalPathWithCwd host raw cwd =
        policy.canWriteLocalPathWithCwd host (AbsolutePathBuf.root.descend raw).asPath cwd := by
      cases hcwd : AbsolutePathBuf.fromAbsolutePath host cwd with
      | none => simp [canWriteLocalPathWithCwd, withLocalPolicyContext, hcwd]
      | some base => rw [canWriteLocal_absolute hcwd habsolute, canWriteLocal_asPath hcwd]
    rw [hsame, canWriteLocal_iff_represented hkind hnormalized hother hlets, descend_root_asPath]
  · exact canWriteLocal_iff_represented hkind hnames hroot hwritable

end Roots

attribute [local instance] keptHosts

/-- A host with nothing in its environment on which everything is a
directory. -/
def bareHost : LocalHost where
  currentDir := none
  homeDir := none
  tmpdir := none
  kind _ := some .directory

/-- Writing below `/w`. -/
def writesBelowW : FileSystemSandboxPolicy := restricted [accessAt (localUri [ascii "w"]) .write]

theorem writable_root_sound_below_w :
    ∃ writable ∈ writesBelowW.getWritableRootsWithCwd bareHost (ascii "/"),
      writable.isPathWritable (ascii "/w/x/../y") = true ∧
      writesBelowW.canWriteLocalPathWithCwd bareHost (ascii "/w/x/../y") (ascii "/") = true := by
  refine ⟨_, mem_singleton_self _, by decide, ?_⟩
  refine (@writable_root_sound_iff _ bareHost writesBelowW (ascii "/")
    (ascii "/w/x/../y") _ rfl (mem_singleton_self _) (by decide)
    (fun _ => ⟨_, mem_singleton_self _, by decide⟩)).mpr
    ⟨by decide, ?_, ?_⟩
  · intro rule hrule hread
    obtain rfl := mem_singleton.mp hrule.mem
    exact absurd rfl hread
  · intro rule hfirst
    cases hfirst

/-- Writing below `/w`, and once more below `/w/a`. -/
def nestedRoots : FileSystemSandboxPolicy :=
  restricted [accessAt (localUri [ascii "w"]) .write,
    accessAt (localUri [ascii "w", ascii "a"]) .write]

/-- The outer root does not know of the metadata of the inner one. -/
theorem nested_root_overlooked :
    nestedRoots.kind = .restricted ∧
      (∃ writable ∈ nestedRoots.getWritableRootsWithCwd bareHost (ascii "/"),
        writable.isPathWritable (ascii "/w/a/.git/config") = true) ∧
      nestedRoots.canWriteLocalPathWithCwd bareHost
        (ascii "/w/a/.git/config") (ascii "/") = false := by
  refine ⟨rfl, ⟨_, .head _, by decide⟩, by decide⟩

end Hexa.Permissions
