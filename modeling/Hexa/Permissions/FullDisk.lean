/-
Full-disk write access is read off the entries before any of them is resolved.
On POSIX contexts the entries then give write access to every path; a Windows
context also has paths on other drives and shares, which no entry covers.
-/
import Hexa.Permissions.Lexical
import Hexa.Permissions.Resolve

namespace Hexa.Permissions

open List FileSystemSandboxPolicy FileSystemPath PathUri Bool UrlCrates

section FullDisk

variable [UrlCrates] {policy : FileSystemSandboxPolicy} {context : FileSystemSandboxPolicyContext}

/-- The entries of a policy with full-disk write access. -/
theorem entries_of_fullDisk (hkind : policy.kind = .restricted)
    (hfull : policy.hasFullDiskWriteAccessWithContext context = true) :
    ∃ convention, context.cwd.inferPathConvention = some convention ∧
      (∃ entry ∈ policy.entries, entry.path = .special .root ∧ entry.access = .write) ∧
      ∀ entry ∈ policy.entries, policy.isWriteNarrowing convention entry = false := by
  simp only [hasFullDiskWriteAccessWithContext,
    hasFullDiskWriteAccessForConvention, hkind] at hfull
  obtain ⟨convention, hconvention⟩ :
      ∃ convention, context.cwd.inferPathConvention = some convention := by
    cases hcwd : context.cwd.inferPathConvention with
    | none =>
      rw [hcwd] at hfull
      cases hfull
    | some convention => exact ⟨convention, rfl⟩
  rw [hconvention] at hfull
  simp only [hasRootAccess, hasWriteNarrowingEntries, hkind, beq_self_eq_true, Bool.true_and,
    Option.any_some, Bool.and_eq_true, Bool.not_eq_true', any_eq_true, any_eq_false] at hfull
  obtain ⟨⟨entry, hentry, hroot⟩, hnarrow⟩ := hfull
  refine ⟨convention, hconvention, ⟨entry, hentry, ?_⟩,
    fun other hother => by simpa using hnarrow other hother⟩
  split at hroot
  next hpath => exact ⟨hpath, by simpa using hroot⟩
  · cases hroot

/-- One segment that is written as it is read. -/
theorem noNul_singleton {name : Bytes} (hpercent : percent ∉ name) (hnul : 0 ∉ name) :
    ∀ segment ∈ [name], 0 ∉ decodeBinary segment := by
  intro segment hsegment
  rwa [mem_singleton.mp hsegment, decodeBinary_plain name hpercent]

/-- The place of `/tmp` in a POSIX context. -/
def slashTmpUrl : FileUrl where
  host := none
  segments := [ascii "tmp"]
  noNul := noNul_singleton (by decide) (by decide)

theorem decodeBinary_tmp : decodeBinary (ascii "tmp") = ascii "tmp" :=
  decodeBinary_plain _ (by decide)

theorem shows_slashTmp : (file slashTmpUrl).Shows .posix slashTmpUrl where
  eq_file := rfl
  convention := rfl
  plain := by
    have hnames : slashTmpUrl.names = [ascii "tmp"] := rfl
    rw [FileUrl.IsPlain, FileUrl.containmentPathSegments, hnames, any_cons, any_nil,
      decodeBinary_tmp]
    rfl

variable {url : FileUrl} {path : PathUri}

/-- A path that `/tmp` matches lies where `/tmp` does. -/
theorem components_of_matches_slashTmp (hpath : path.Shows .posix url)
    (hmatches : specialPathMatchesPathUri .slashTmp path = true) :
    url.components = slashTmpUrl.components := by
  have hdepth := hpath.lexicalDepth_eq
  obtain ⟨rfl, hposix, -⟩ := hpath
  simp only [specialPathMatchesPathUri, hdepth, basename,
    and_eq_true, beq_iff_eq, Option.some.injEq] at hmatches
  obtain ⟨⟨-, hlength⟩, hbasename⟩ := hmatches
  obtain ⟨name, hname⟩ := length_eq_one_iff.mp hlength
  have hdecoded : decodeBinary name = ascii "tmp" := by
    rw [hname, getLast?_singleton, Option.map_some, Option.some.injEq, decodeUriPath] at hbasename
    split_ifs at hbasename
    · exact hbasename
    · rw [hbasename]
      exact decodeBinary_tmp
  have hnames : slashTmpUrl.names = [ascii "tmp"] := rfl
  rw [FileUrl.components, FileUrl.components, FileUrl.host_of_posix hposix, hname, hposix,
    shows_slashTmp.convention, hnames]
  simp only [map_cons, map_nil, segmentKey, hdecoded, decodeBinary_tmp]
  rfl

/-- A POSIX path that the root matches is the root. -/
theorem components_of_matches_root (hpath : path.Shows .posix url)
    (hmatches : specialPathMatchesPathUri .root path = true) : url.components = [none] := by
  obtain ⟨rfl, hposix, -⟩ := hpath
  simp only [specialPathMatchesPathUri, parent, FileUrl.parent, hposix, and_eq_true] at hmatches
  have hnames : url.names = [] := by
    by_contra hne
    have hlength : ¬url.names.length ≤ anchorDepth .posix := by simpa [anchorDepth] using hne
    rw [if_neg hlength] at hmatches
    cases hmatches.2
  rw [FileUrl.components, FileUrl.host_of_posix hposix, hnames]
  rfl

theorem components_of_root {root : PathUri} {cwd : FileUrl} (hcwd : context.cwd.Shows .posix cwd)
    (hroot : fileSystemRoot context = some root) (hposix : root.Shows .posix url) :
    url.components = [none] := by
  obtain ⟨known, knownUrl, hknown, ⟨rfl, -, -⟩, hnames, hhost⟩ := fileSystemRoot_posix hcwd
  obtain ⟨rfl, -, -⟩ := hposix
  rw [hknown, Option.some.injEq, file.injEq] at hroot
  rw [← hroot, FileUrl.components, hnames, hhost]
  rfl

/-- Only Windows paths are equal without being spelled alike. -/
theorem eq_of_same_posix {left right : PathUri} (hsame : left.same right = true)
    (hposix : right.Shows .posix url) : left = right := by
  obtain ⟨rfl, hconvention, -⟩ := hposix
  cases left with
  | fallback bytes => simp [same] at hsame
  | file left =>
    simp only [same, or_eq_true, decide_eq_true_eq, and_eq_true, beq_iff_eq] at hsame
    rcases hsame with hequal | ⟨⟨hsome, -⟩, hidentity⟩
    · exact hequal
    · have hnone : url.windowsIdentity = none := by
        rw [FileUrl.windowsIdentity, if_pos (.inl (by simp [hconvention]))]
      rw [hidentity, hnone] at hsome
      cases hsome

omit [UrlCrates] in
theorem eq_of_specialPathsShareTarget {left right : FileSystemSpecialPath}
    (hshare : specialPathsShareTarget left right = true) : left = right := by
  cases left <;> cases right <;> simp_all [specialPathsShareTarget]

/-- What `/tmp` is read as. -/
theorem parsePosixPath_slashTmp : parsePosixPath "/tmp".toList = some (.file slashTmpUrl) := by
  have hpushed : [['t', 'm', 'p']].foldl push [[]] = [ascii "tmp"] := by
    have hbytes : utf8 ['t', 'm', 'p'] = ascii "tmp" := rfl
    rw [foldl_cons, foldl_nil, push_eq, hbytes, encodeSegment_unreserved _ rfl]
    rfl
  have hparsed : parsePosixPath "/tmp".toList =
      tryFrom none ([['t', 'm', 'p']].foldl push [[]]) := rfl
  rw [hparsed, hpushed]
  exact dif_pos slashTmpUrl.noNul

theorem join_slashTmp {cwd : PathUri} (hposix : cwd.inferPathConvention = some .posix) :
    cwd.join "/tmp".toList = some (.file slashTmpUrl) := by
  have habsolute : fromAbsoluteNativePath "/tmp".toList .posix = some (.file slashTmpUrl) := by
    rw [fromAbsoluteNativePath]
    simp only [parsePosixPath_slashTmp]
    rfl
  rw [join, if_neg (by decide), if_neg (by decide), hposix]
  simp only [habsolute]

/-- The places of two paths with one target, on POSIX. -/
theorem exists_place_of_shareTarget {cwd : FileUrl} (hcwd : context.cwd.Shows .posix cwd)
    {candidate path : FileSystemPath}
    (hshare : fileSystemPathsShareTarget candidate path .posix = true) {root : PathUri}
    (hroot : root ∈ path.places context) (hposix : root.Shows .posix url) :
    ∃ other otherUrl, other ∈ candidate.places context ∧
      other.Shows .posix otherUrl ∧ otherUrl.components = url.components := by
  have hcontext : context.cwd.inferPathConvention = some .posix := by
    rw [hcwd.eq_file]
    exact congrArg some hcwd.convention
  have hlexical : ∀ {path : PathUri} {value},
      path.inferPathConvention = some .posix →
      specialPathMatchesPathUri value path = true →
      ∃ url, path.Shows .posix url := by
    intro path value hpath hmatches
    refine exists_shows hpath ?_
    cases value <;> simp_all [specialPathMatchesPathUri]
  cases candidate with
  | path candidate =>
    cases path with
    | path path =>
      obtain rfl : root = path := by simpa [places] using hroot
      exact ⟨root, url, by
        simp [places, eq_of_same_posix hshare hposix],
        hposix, rfl⟩
    | globPattern pattern => cases hshare
    | special value =>
      simp only [fileSystemPathsShareTarget, and_eq_true, beq_iff_eq] at hshare
      obtain ⟨other, hother⟩ := hlexical hshare.1 hshare.2
      refine ⟨candidate, other, by simp [places], hother, ?_⟩
      cases value with
      | root =>
        have hplace : fileSystemRoot context = some root := by simpa [places] using hroot
        rw [components_of_matches_root hother hshare.2, components_of_root hcwd hplace hposix]
      | slashTmp =>
        rw [places, if_pos hcontext, join_slashTmp hcontext] at hroot
        obtain rfl : root = .file slashTmpUrl := by simpa using hroot
        obtain ⟨heq, -, -⟩ := hposix
        rw [file.injEq] at heq
        rw [components_of_matches_slashTmp hother hshare.2, heq]
      | minimal | projectRoots subpath | tmpdir | unknown name subpath => cases hshare.2
  | globPattern candidate =>
    cases path with
    | path path | special value => cases hshare
    | globPattern pattern => simp [places] at hroot
  | special value =>
    cases path with
    | path path =>
      simp only [fileSystemPathsShareTarget, and_eq_true] at hshare
      obtain rfl : root = path := by simpa [places] using hroot
      cases value with
      | root =>
        obtain ⟨known, knownUrl, hknown, hplace, -, -⟩ := fileSystemRoot_posix hcwd
        refine ⟨known, knownUrl, by simp [places, hknown], hplace, ?_⟩
        rw [components_of_matches_root hposix hshare.2, components_of_root hcwd hknown hplace]
      | slashTmp =>
        refine ⟨.file slashTmpUrl, slashTmpUrl, ?_, shows_slashTmp,
          (components_of_matches_slashTmp hposix hshare.2).symm⟩
        rw [places, if_pos hcontext, join_slashTmp hcontext]
        simp
      | minimal | projectRoots subpath | tmpdir | unknown name subpath => cases hshare.2
    | globPattern pattern => cases hshare
    | special other =>
      obtain rfl := eq_of_specialPathsShareTarget hshare
      exact ⟨root, url, hroot, hposix, rfl⟩

/-- What keeps an entry without write access from narrowing the policy. -/
theorem exists_override {entry root : FileSystemSandboxEntry} (hroot : root ∈ policy.entries)
    (hrootPath : root.path = .special .root) (hrootAccess : root.access = .write)
    (hnarrow : policy.isWriteNarrowing .posix entry = false) (haccess : entry.access ≠ .write)
    (hplaces : entry.path.places context ≠ []) :
    ∃ candidate ∈ policy.entries, candidate.access = .write ∧
      entry.access < .write ∧
      fileSystemPathsShareTarget candidate.path entry.path .posix = true := by
  have hoverride : policy.hasSameTargetWriteOverride entry .posix = true →
      ∃ candidate ∈ policy.entries, candidate.access = .write ∧
        entry.access < .write ∧
        fileSystemPathsShareTarget candidate.path entry.path .posix = true := by
    intro hsome
    simp only [hasSameTargetWriteOverride, any_eq_true, and_eq_true,
      FileSystemAccessMode.canWrite_eq_true, decide_eq_true_eq] at hsome
    obtain ⟨candidate, hmem, ⟨hwrite, hlt⟩, hshare⟩ := hsome
    exact ⟨candidate, hmem, hwrite, hwrite ▸ hlt, hshare⟩
  have hcannot : entry.access.canWrite = false := by
    rw [eq_false_iff, ne_eq, FileSystemAccessMode.canWrite_eq_true]
    exact haccess
  rw [isWriteNarrowing, if_neg (by simp [hcannot])] at hnarrow
  cases hpath : entry.path with
  | path path =>
    rw [hpath] at hnarrow
    exact hpath ▸ hoverride (by simpa using hnarrow)
  | globPattern pattern =>
    rw [hpath] at hnarrow
    cases hnarrow
  | special value =>
    rw [hpath] at hnarrow hplaces
    cases value with
    | root =>
      refine ⟨root, hroot, hrootAccess, ?_, by rw [hrootPath]; rfl⟩
      cases hmode : entry.access with
      | read => decide
      | write => exact absurd hmode haccess
      | deny => simp [hmode] at hnarrow
    | minimal | unknown name subpath => exact absurd rfl hplaces
    | projectRoots subpath | tmpdir | slashTmp => exact hpath ▸ hoverride (by simpa using hnarrow)

/-- In a POSIX context whose places can be judged, full-disk write access is
write access to every path. -/
theorem resolveAccess_of_fullDisk (hkind : policy.kind = .restricted)
    (hfull : policy.hasFullDiskWriteAccessWithContext context = true)
    (hposix : context.cwd.inferPathConvention = some .posix)
    (hlexical : context.cwd.lexicalDepth.isSome)
    (hclear : Unambiguous (policy.resolvedEntries context))
    (hpath : path.inferPathConvention = some .posix) (hpathLexical : path.lexicalDepth.isSome) :
    policy.resolveAccess path context = .write := by
  obtain ⟨cwd, hcwd⟩ := exists_shows hposix hlexical
  obtain ⟨pathUrl, hpathUrl⟩ := exists_shows hpath hpathLexical
  obtain ⟨convention, hconvention, ⟨entry, hentry, hroot, hwrite⟩, hnarrow⟩ :=
    entries_of_fullDisk hkind hfull
  obtain rfl : PathConvention.posix = convention := by
    rw [hposix] at hconvention
    exact Option.some.inj hconvention
  have hin : ∀ {root : PathUri} {url : FileUrl} {entry}, root.Shows .posix url →
      entry ∈ policy.entries → entry.access = .write →
      root ∈ entry.path.places context →
      (root, .write) ∈ policy.resolvedEntries context := by
    rintro root url entry ⟨rfl, hurl, -⟩ hentry haccess hplace
    refine mem_resolvedEntries.mpr ⟨entry, hentry, haccess, hplace, ?_⟩
    rw [hposix]
    exact congrArg some hurl
  rcases resolveAccess_of_admissible hkind
      ⟨⟨.posix, hposix, hpath⟩, hpathLexical, hlexical, hclear⟩ with
    ⟨root, depth, hgoverns⟩ | ⟨-, hnone⟩
  · by_contra haccess
    obtain ⟨narrow, hmem, heq, hplace, hsame⟩ := mem_resolvedEntries.mp hgoverns.mem
    obtain ⟨url, hurl⟩ := exists_shows (hsame.trans hposix) (by rw [hgoverns.depth_eq]; rfl)
    obtain ⟨candidate, hcandidate, hcan, hlt, hshare⟩ :=
      exists_override hentry hroot hwrite (hnarrow narrow hmem)
        (heq ▸ haccess) (ne_nil_of_mem hplace)
    obtain ⟨other, otherUrl, hother, hotherUrl, hcomponents⟩ :=
      exists_place_of_shareTarget hcwd hshare hplace hurl
    have hover : path.startsWith other = true := by
      rw [hpathUrl.startsWith_posix hotherUrl, hcomponents, ← hpathUrl.startsWith_posix hurl]
      exact hgoverns.covers
    have hdepth : other.lexicalDepth = some depth := by
      have hlength := congrArg List.length hcomponents
      rw [FileUrl.length_components, FileUrl.length_components] at hlength
      rw [← hgoverns.depth_eq, hotherUrl.lexicalDepth_eq,
        hurl.lexicalDepth_eq, Nat.add_right_cancel hlength]
    have hle := hgoverns.key_le other .write depth
      (hin hotherUrl hcandidate hcan hother) hover hdepth
    rw [Prod.Lex.toLex_le_toLex] at hle
    rcases hle with hdeeper | ⟨-, hmode⟩
    · exact absurd hdeeper (lt_irrefl _)
    · exact absurd hlt (not_lt.mpr (heq ▸ hmode))
  · obtain ⟨root, url, hplace, hurl, hnames, hhost⟩ := fileSystemRoot_posix hcwd
    have hfalse := hnone root .write (hin hurl hentry hwrite (by simp [hroot, places, hplace]))
      (by rw [hurl.lexicalDepth_eq]; rfl)
    have hcovers : path.startsWith root = true := by
      rw [hpathUrl.startsWith_posix hurl, FileUrl.components, hnames, hhost,
        FileUrl.components, FileUrl.host_of_posix hpathUrl.convention]
      simp
    rw [hcovers] at hfalse
    cases hfalse

/-- A share of a host with a long name. -/
def shareUrl (length : Nat) : FileUrl where
  host := some (List.replicate (length + 1) 0x61)
  segments := [ascii "share"]
  noNul := noNul_singleton (by decide) (by decide)

/-- What lies below a place is on the host of that place. -/
theorem host_of_startsWith {base : PathUri} (hcovers : (file url).startsWith base = true) :
    ∃ baseUrl, base = .file baseUrl ∧ baseUrl.host = url.host := by
  cases base with
  | fallback bytes => simp [startsWith, same] at hcovers
  | file baseUrl =>
    refine ⟨baseUrl, rfl, ?_⟩
    simp only [startsWith, same, or_eq_true, and_eq_true,
      decide_eq_true_eq, file.injEq, beq_iff_eq] at hcovers
    rcases hcovers with (heq | ⟨⟨-, hhost⟩, -⟩) | ⟨⟨hhost, -⟩, -⟩
    · rw [heq]
    · exact hhost.symm
    · exact hhost.symm

/-- Some share lies below none of the places. -/
theorem exists_uncovered_share (entries : List (PathUri × FileSystemAccessMode)) :
    ∃ length, ∀ entry ∈ entries, (file (shareUrl length)).startsWith entry.1 = false := by
  let lengths : List Nat := entries.map (fun entry =>
    match entry.1 with
    | .file url => (url.host.getD []).length - 1
    | .fallback _ => 0)
  obtain ⟨length, hfresh⟩ := Infinite.exists_notMem_finset lengths.toFinset
  refine ⟨length, fun entry hentry => ?_⟩
  rw [eq_false_iff]
  intro hcovers
  obtain ⟨url, hurl, hhost⟩ := host_of_startsWith hcovers
  refine hfresh (mem_toFinset.mpr (mem_map.mpr ⟨entry, hentry, ?_⟩))
  simp [hurl, hhost, shareUrl]

/-- Full-disk write access is write access to every path exactly if the
context is a POSIX one and its places can be judged. -/
theorem fullDisk_writes_everywhere_iff (hkind : policy.kind = .restricted)
    (hfull : policy.hasFullDiskWriteAccessWithContext context = true) :
    (∀ path : PathUri,
        path.inferPathConvention = context.cwd.inferPathConvention →
        path.lexicalDepth.isSome →
        policy.resolveAccess path context = .write) ↔
      context.cwd.inferPathConvention = some .posix ∧
        context.cwd.lexicalDepth.isSome ∧
        Unambiguous (policy.resolvedEntries context) := by
  constructor
  · intro hall
    obtain ⟨convention, hconvention, -, -⟩ := entries_of_fullDisk hkind hfull
    have hadmissible : ∀ {path : PathUri},
        path.inferPathConvention = context.cwd.inferPathConvention →
        path.lexicalDepth.isSome → Admissible policy path context := by
      intro path hpath hlexical
      refine admissible_of_resolveAccess hkind ?_
      rw [hall path hpath hlexical]
      decide
    cases convention with
    | posix =>
      have hroot := @hadmissible (.file ⟨none, [[]], noNul_singleton not_mem_nil not_mem_nil⟩)
        (by rw [hconvention]; rfl) rfl
      exact ⟨hconvention, hroot.cwd_lexical, hroot.unambiguous⟩
    | windows =>
      -- No entry covers a share of another host.
      obtain ⟨length, hnone⟩ := exists_uncovered_share (policy.resolvedEntries context)
      have hshare : (PathUri.file (shareUrl length)).inferPathConvention =
          context.cwd.inferPathConvention := by
        rw [hconvention]
        rfl
      have hlexical : (PathUri.file (shareUrl length)).lexicalDepth.isSome := by
        have hnames : (shareUrl length).names = [ascii "share"] := rfl
        rw [lexicalDepth, FileUrl.containmentPathSegments, hnames, any_cons, any_nil,
          decodeBinary_plain _ (by decide)]
        rfl
      rcases resolveAccess_of_admissible hkind (hadmissible hshare hlexical) with
        ⟨root, depth, hgoverns⟩ | ⟨hdeny, -⟩
      · have hcovers := hnone _ hgoverns.mem
        rw [hgoverns.covers] at hcovers
        cases hcovers
      · rw [hall _ hshare hlexical] at hdeny
        cases hdeny
  · rintro ⟨hposix, hlexical, hclear⟩ path hpath hpathLexical
    exact resolveAccess_of_fullDisk hkind hfull hposix hlexical hclear
      (hpath.trans hposix) hpathLexical

end FullDisk

/-- The crates with a parser that keeps every host. -/
abbrev keptHosts : UrlCrates := documentedCrates (fun host => some (utf8 host))

attribute [local instance] keptHosts

/-- Write access from the root on. -/
def rootWrite : FileSystemSandboxPolicy :=
  .restricted [{ path := .special .root, access := .write }]

/-- A context with a working directory only. -/
def contextAt (cwd : PathUri) : FileSystemSandboxPolicyContext where
  cwd := cwd
  workspaceRoots := []
  temporaryDirectories := none

/-- An entry for a path. -/
def accessAt (path : PathUri) (access : FileSystemAccessMode) :
    FileSystemSandboxEntry where
  path := .path path
  access := access

/-- The URI of a path without a host. -/
def localUri (names : List Bytes) (noNul : ∀ name ∈ names, 0 ∉ decodeBinary name := by decide) :
    PathUri :=
  .file ⟨none, names, noNul⟩

/-- `file:///work`, `file:///C:/work` and `file:///D:/data`. -/
def posixWork : PathUri := localUri [ascii "work"]

@[inherit_doc posixWork]
def windowsWork : PathUri := localUri [ascii "C:", ascii "work"]

@[inherit_doc posixWork]
def windowsData : PathUri := localUri [ascii "D:", ascii "data"]

theorem fullDisk_writes_everywhere_posix :
    rootWrite.hasFullDiskWriteAccessWithContext (contextAt posixWork) = true ∧ ∀ path : PathUri,
        path.inferPathConvention = posixWork.inferPathConvention →
        path.lexicalDepth.isSome →
        rootWrite.resolveAccess path (contextAt posixWork) = .write := by
  refine ⟨by decide, ?_⟩
  refine (@fullDisk_writes_everywhere_iff _ rootWrite (contextAt posixWork)
    rfl (by decide)).mpr ⟨by decide, by decide, ?_⟩
  intro entry hentry
  have hroot : entry ∈ [(localUri [[]], .write)] := hentry
  obtain rfl := mem_singleton.mp hroot
  exact .inr (by decide)

/-- The root of a Windows context is the root of one drive. -/
theorem fullDisk_misses_drive :
    rootWrite.hasFullDiskWriteAccessWithContext (contextAt windowsWork) = true ∧
      windowsData.inferPathConvention = (contextAt windowsWork).cwd.inferPathConvention ∧
      windowsData.lexicalDepth.isSome ∧
      rootWrite.resolveAccess windowsData (contextAt windowsWork) = .deny := by
  decide

end Hexa.Permissions
