/-
Protected metadata below the writable places of a policy.  A denied write is
found by a first match, so what counts is the order of the entries whenever
one of the metadata directories around a path is opened and another is not.
-/
import Hexa.Permissions.FullDisk

namespace Hexa.Permissions

open List FileSystemSandboxPolicy

section Protected

variable [UrlCrates] {policy : FileSystemSandboxPolicy} {path : PathUri}
  {context : FileSystemSandboxPolicyContext}

/-- Every metadata directory around the path is opened by a write entry. -/
def MetadataOpened (policy : FileSystemSandboxPolicy) (path : PathUri)
    (context : FileSystemSandboxPolicyContext) : Prop :=
  ∀ root, (root, .write) ∈ policy.resolvedEntries context →
    ∀ name ∈ protectedMetadataPathNames, ∀ guarded,
      root.joinDescendant name = some guarded →
      path.startsWith guarded = true →
      opensMetadata (policy.resolvedEntries context) path guarded = true

/-- The first metadata directory of an entry's places around the path. -/
def FileSystemSandboxEntry.guarded (entry : FileSystemSandboxEntry) (path : PathUri)
    (context : FileSystemSandboxPolicyContext) : Option (PathUri × Text) :=
  (entry.resolved context).findSome? (guardedMetadata path ·.1)

variable {root : PathUri} {name : Text} {guarded : PathUri}

theorem guardedMetadata_eq_some (hsome : guardedMetadata path root = some (guarded, name)) :
    name ∈ protectedMetadataPathNames ∧
      root.joinDescendant name = some guarded ∧
      path.startsWith guarded = true := by
  obtain ⟨candidate, hmem, hbind⟩ := exists_of_findSome?_eq_some hsome
  obtain ⟨descendant, hjoin, hif⟩ := Option.bind_eq_some_iff.mp hbind
  split_ifs at hif with hcovers
  cases hif
  exact ⟨hmem, hjoin, hcovers⟩

theorem isSome_guardedMetadata (hname : name ∈ protectedMetadataPathNames)
    (hjoin : root.joinDescendant name = some guarded) (hcovers : path.startsWith guarded = true) :
    (guardedMetadata path root).isSome := by
  rw [guardedMetadata, findSome?_isSome_iff]
  exact ⟨name, hname, by simp [hjoin, hcovers]⟩

/-- The places of the write entries are searched entry by entry. -/
theorem findSome_resolvedEntries (entries : List FileSystemSandboxEntry) :
    ((entries.flatMap (·.resolved context)).filter (·.2.canWrite)).findSome?
        (guardedMetadata path ·.1) =
      (entries.filter (·.access.canWrite)).findSome? (·.guarded path context) := by
  induction entries with
  | nil => rfl
  | cons entry entries ih =>
    rw [flatMap_cons, filter_append, findSome?_append, ih]
    cases hwrite : entry.access.canWrite with
    | true =>
      have hall : (entry.resolved context).filter (·.2.canWrite) = entry.resolved context := by
        rw [filter_eq_self]
        intro found hfound
        rw [access_of_mem_resolved hfound, hwrite]
      rw [hall, filter_cons, if_pos hwrite, findSome?_cons, FileSystemSandboxEntry.guarded]
      cases (entry.resolved context).findSome? (guardedMetadata path ·.1) <;> rfl
    | false =>
      have hnone : (entry.resolved context).filter (·.2.canWrite) = [] := by
        rw [filter_eq_nil_iff]
        intro found hfound
        simp [access_of_mem_resolved hfound, hwrite]
      rw [hnone, filter_cons_of_neg (by simp [hwrite])]
      rfl

/-- Without full-disk write access a write is allowed if the first metadata
directory found is opened. -/
theorem canWritePath_iff (hkind : policy.kind = .restricted)
    (hfull : policy.hasFullDiskWriteAccessWithContext context = false) :
    policy.canWritePath path context = true ↔ policy.resolveAccess path context = .write ∧
        ∀ guarded name, (policy.entries.filter (·.access.canWrite)).findSome?
            (·.guarded path context) = some (guarded, name) →
          opensMetadata (policy.resolvedEntries context) path guarded = true := by
  rw [canWritePath, hfull, Bool.and_eq_true, FileSystemAccessMode.canWrite_eq_true,
    metadataWriteDenial, if_neg (by simp [hkind])]
  simp only [resolvedEntries, findSome_resolvedEntries]
  refine and_congr_right fun _ => ?_
  cases (policy.entries.filter (·.access.canWrite)).findSome? (·.guarded path context) with
  | none => simp
  | some found =>
    obtain ⟨guarded, name⟩ := found
    by_cases hopen : opensMetadata
        (policy.entries.flatMap (·.resolved context)) path guarded = true
    · simp [hopen]
    · simp [hopen]

section

variable {entries : List FileSystemSandboxEntry}

/-- The same entries in another order. -/
def reordered (policy : FileSystemSandboxPolicy) (entries : List FileSystemSandboxEntry) :
    FileSystemSandboxPolicy :=
  { policy with entries := entries }

theorem mem_resolvedEntries_reordered (hperm : entries.Perm policy.entries)
    (found : PathUri × FileSystemAccessMode) :
    found ∈ (reordered policy entries).resolvedEntries context ↔
      found ∈ policy.resolvedEntries context := by
  simp only [resolvedEntries, reordered, mem_flatMap, hperm.mem_iff]

theorem any_of_perm {left right : List FileSystemSandboxEntry} (hperm : left.Perm right)
    (test : FileSystemSandboxEntry → Bool) : left.any test = right.any test := by
  rw [Bool.eq_iff_iff, any_eq_true, any_eq_true]
  simp only [hperm.mem_iff]

theorem fullDisk_reordered (hperm : entries.Perm policy.entries) :
    (reordered policy entries).hasFullDiskWriteAccessWithContext context =
      policy.hasFullDiskWriteAccessWithContext context := by
  have hnarrow : ∀ convention, (reordered policy entries).isWriteNarrowing
      convention = policy.isWriteNarrowing convention := by
    intro convention
    funext entry
    simp only [isWriteNarrowing, hasSameTargetWriteOverride, reordered, any_of_perm hperm]
  simp only [hasFullDiskWriteAccessWithContext, hasFullDiskWriteAccessForConvention,
    hasRootAccess, hasWriteNarrowingEntries, hnarrow]
  simp only [reordered, any_of_perm hperm]

/-- What is asked of a reordered policy, in terms of the policy. -/
theorem canWritePath_reordered_iff (hperm : entries.Perm policy.entries)
    (hkind : policy.kind = .restricted)
    (hfull : policy.hasFullDiskWriteAccessWithContext context = false) :
    (reordered policy entries).canWritePath path context = true ↔
      policy.resolveAccess path context = .write ∧
        ∀ guarded name, (entries.filter (·.access.canWrite)).findSome?
            (·.guarded path context) = some (guarded, name) →
          opensMetadata (policy.resolvedEntries context) path guarded = true := by
  have hopens : ∀ guarded, opensMetadata
      ((reordered policy entries).resolvedEntries context) path guarded =
        opensMetadata (policy.resolvedEntries context) path guarded := by
    intro guarded
    rw [Bool.eq_iff_iff, opensMetadata, opensMetadata, any_eq_true, any_eq_true]
    simp only [mem_resolvedEntries_reordered hperm]
  have hreordered : (reordered policy entries).kind = .restricted := hkind
  rw [canWritePath_iff hreordered ((fullDisk_reordered hperm).trans hfull),
    resolveAccess_congr hkind hreordered (mem_resolvedEntries_reordered hperm)]
  simp only [hopens]
  rfl

/-- With an entry in front whose guarded directory is opened, the write is
allowed. -/
theorem canWritePath_in_front {entry : FileSystemSandboxEntry}
    (hperm : (entry :: entries).Perm policy.entries) (hkind : policy.kind = .restricted)
    (hfull : policy.hasFullDiskWriteAccessWithContext context = false)
    (hresolve : policy.resolveAccess path context = .write) (hwrite : entry.access = .write)
    (hguarded : entry.guarded path context = some (guarded, name))
    (hopen : opensMetadata (policy.resolvedEntries context) path guarded = true) :
    (reordered policy (entry :: entries)).canWritePath path context = true := by
  rw [canWritePath_reordered_iff hperm hkind hfull]
  refine ⟨hresolve, fun other otherName hfound => ?_⟩
  rw [filter_cons, if_pos (by simp [hwrite]), findSome?_cons, hguarded] at hfound
  cases hfound
  exact hopen

/-- If the first guarded directory is opened but no entry guards an opened one,
nothing is guarded. -/
theorem metadataOpened_of_first (hperm : entries.Perm policy.entries)
    (hclosed : ∀ entry ∈ policy.entries, entry.access = .write → ∀ guarded name,
      entry.guarded path context = some (guarded, name) →
      opensMetadata (policy.resolvedEntries context) path guarded = false)
    (hfirst : ∀ guarded name, (entries.filter (·.access.canWrite)).findSome?
        (·.guarded path context) = some (guarded, name) →
      opensMetadata (policy.resolvedEntries context) path guarded = true) :
    MetadataOpened policy path context := by
  intro root hroot name hname guarded hjoin hcovers
  obtain ⟨entry, hentry, hplace⟩ := mem_flatMap.mp hroot
  have hany : ((entries.filter (·.access.canWrite)).findSome?
      (·.guarded path context)).isSome := by
    refine findSome?_isSome_iff.mpr
      ⟨entry, mem_filter.mpr ⟨hperm.mem_iff.mpr hentry, ?_⟩, ?_⟩
    · rw [← access_of_mem_resolved hplace]
      rfl
    · exact findSome?_isSome_iff.mpr ⟨_, hplace, isSome_guardedMetadata hname hjoin hcovers⟩
  obtain ⟨⟨found, foundName⟩, hfound⟩ := Option.isSome_iff_exists.mp hany
  obtain ⟨first, hmem, hguarded⟩ := exists_of_findSome?_eq_some hfound
  obtain ⟨hmem, hwrite⟩ := mem_filter.mp hmem
  have hnot := hclosed first (hperm.mem_iff.mp hmem)
    (by simpa using hwrite) found foundName hguarded
  rw [hfirst found foundName hfound] at hnot
  cases hnot

theorem MetadataOpened.first (hopened : MetadataOpened policy path context)
    (hperm : entries.Perm policy.entries)
    (hfound : (entries.filter (·.access.canWrite)).findSome?
      (·.guarded path context) = some (guarded, name)) :
    opensMetadata (policy.resolvedEntries context) path guarded = true := by
  obtain ⟨entry, hmem, hguarded⟩ := exists_of_findSome?_eq_some hfound
  obtain ⟨hmem, hwrite⟩ := mem_filter.mp hmem
  obtain ⟨⟨root, access⟩, hroot, hsome⟩ := exists_of_findSome?_eq_some hguarded
  obtain rfl : access = .write := (access_of_mem_resolved hroot).trans (by simpa using hwrite)
  obtain ⟨hname, hjoin, hcovers⟩ := guardedMetadata_eq_some hsome
  exact hopened root (mem_flatMap.mpr
    ⟨entry, hperm.mem_iff.mp hmem, hroot⟩) name hname guarded hjoin hcovers

end

/-- The answer for a path protects its metadata, in every order of the
entries, exactly if no reordering can hide a metadata directory that is not
opened behind one that is. -/
theorem metadata_protected_iff (hkind : policy.kind = .restricted)
    (hfull : policy.hasFullDiskWriteAccessWithContext context = false) :
    ((policy.canWritePath path context = true → MetadataOpened policy path context) ∧
      ∀ entries : List FileSystemSandboxEntry, entries.Perm policy.entries →
        (reordered policy entries).canWritePath path context = policy.canWritePath path context) ↔
      (policy.resolveAccess path context = .write → MetadataOpened policy path context ∨
          ∀ entry ∈ policy.entries, entry.access = .write → ∀ guarded name,
              entry.guarded path context = some (guarded, name) →
              opensMetadata (policy.resolvedEntries context) path guarded = false) := by
  constructor
  · rintro ⟨hprotected, horder⟩ hresolve
    by_contra hneither
    rw [not_or] at hneither
    obtain ⟨hclosed, hopened⟩ := hneither
    push Not at hopened
    obtain ⟨entry, hentry, hwrite, guarded, name, hguarded, hopen⟩ := hopened
    -- With this entry in front the write is allowed.
    obtain ⟨before, after, hsplit⟩ := append_of_mem hentry
    have hperm : (entry :: (before ++ after)).Perm policy.entries := by
      rw [hsplit]
      exact perm_middle.symm
    have hallowed := canWritePath_in_front hperm hkind hfull hresolve hwrite hguarded
      (by simpa using hopen)
    rw [horder _ hperm] at hallowed
    exact hclosed (hprotected hallowed)
  · intro hcondition
    have hanswer : ∀ entries : List FileSystemSandboxEntry,
        entries.Perm policy.entries →
        ((reordered policy entries).canWritePath path context = true ↔
          policy.resolveAccess path context = .write ∧ MetadataOpened policy path context) := by
      intro entries hperm
      rw [canWritePath_reordered_iff hperm hkind hfull]
      refine and_congr_right fun hresolve => ?_
      constructor
      · intro hfirst
        rcases hcondition hresolve with hopened | hclosed
        · exact hopened
        · exact metadataOpened_of_first hperm hclosed hfirst
      · intro hopened guarded name hfound
        exact hopened.first hperm hfound
    have hself := hanswer policy.entries (List.Perm.refl _)
    refine ⟨fun hallowed => (hself.mp hallowed).2, fun entries hperm => ?_⟩
    rw [Bool.eq_iff_iff, hanswer entries hperm]
    exact hself.symm

end Protected

attribute [local instance] keptHosts

/-- Writing below `/a` but for `/a/b`, with a place of its own at `/a/c`; and
the configuration of `/a`. -/
def writesBelowA : FileSystemSandboxPolicy :=
  restricted [accessAt (localUri [ascii "a"]) .write,
    accessAt (localUri [ascii "a", ascii "b"]) .read,
    accessAt (localUri [ascii "a", ascii "c"]) .write]

@[inherit_doc writesBelowA]
def configOfA : PathUri := localUri [ascii "a", ascii ".git", ascii "config"]

theorem metadata_protected_below_a :
    writesBelowA.hasFullDiskWriteAccessWithContext (contextAt posixWork) = false ∧
      ∀ entries : List FileSystemSandboxEntry,
        entries.Perm writesBelowA.entries →
        (reordered writesBelowA entries).canWritePath configOfA (contextAt posixWork) =
          writesBelowA.canWritePath configOfA (contextAt posixWork) := by
  refine ⟨by decide, ?_⟩
  refine ((@metadata_protected_iff _ writesBelowA configOfA
    (contextAt posixWork) rfl (by decide)).mpr fun _ => .inr ?_).2
  refine forall_mem_cons.mpr ⟨?_, forall_mem_cons.mpr ⟨nofun, forall_mem_singleton.mpr ?_⟩⟩
  · intro _ guarded name hguarded
    have hgit : (some (localUri [ascii "a", ascii ".git"], ".git".toList) :
        Option (PathUri × Text)) = some (guarded, name) := hguarded
    cases hgit
    decide
  · intro _ guarded name hguarded
    have hnone : (none : Option (PathUri × Text)) = some (guarded, name) := hguarded
    cases hnone

/-- The places `/a` and `/a/.git/x`. -/
def nestedWrites : List FileSystemSandboxEntry :=
  [accessAt (localUri [ascii "a"]) .write,
    accessAt (localUri [ascii "a", ascii ".git", ascii "x"]) .write]

def nestedMetadata : PathUri :=
  localUri [ascii "a", ascii ".git", ascii "x", ascii ".git", ascii "y"]

/-- The metadata directory of the inner place is not looked at. -/
theorem nested_metadata_written :
    (restricted nestedWrites).hasFullDiskWriteAccessWithContext (contextAt posixWork) = false ∧
      (restricted nestedWrites).canWritePath nestedMetadata (contextAt posixWork) = true ∧
      ¬MetadataOpened (restricted nestedWrites) nestedMetadata (contextAt posixWork) ∧
      (restricted nestedWrites.reverse).canWritePath nestedMetadata
        (contextAt posixWork) = false := by
  refine ⟨by decide, by decide, fun hopened => ?_, by decide⟩
  have hopen := hopened
    (localUri [ascii "a", ascii ".git", ascii "x"]) (.tail _ (.head _))
    ".git".toList (by decide)
    (localUri [ascii "a", ascii ".git", ascii "x", ascii ".git"])
    (by decide) (by decide)
  revert hopen
  decide

end Hexa.Permissions
