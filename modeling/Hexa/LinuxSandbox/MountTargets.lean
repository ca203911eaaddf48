/-
Synthetic mount targets: the empty files and directories that bubblewrap makes
on the host where a protected path is missing, and the registry by which the
sandboxes that share such a path decide who removes it.
-/
import Hexa.Lib.KeyedTable
import Hexa.Lib.Runs
import Hexa.Permissions.Policy

namespace Hexa.LinuxSandbox

open List Option

universe u

structure FileIdentity where
  dev : Nat
  ino : Nat
deriving DecidableEq

inductive FileType where
  | file
  | directory
  | other
deriving DecidableEq

/-- What the host has at a path; `len` counts the bytes of a file and the
entries of a directory. -/
structure Metadata where
  fileType : FileType
  len : Nat
  identity : FileIdentity
deriving DecidableEq

inductive SyntheticMountTargetKind where
  | emptyFile
  | emptyDirectory
deriving DecidableEq

/-- A mount target at the path that the registry is about. -/
structure SyntheticMountTarget where
  kind : SyntheticMountTargetKind
  preExistingPath : Option FileIdentity
deriving DecidableEq

namespace SyntheticMountTarget

def missing : SyntheticMountTarget := ⟨.emptyFile, none⟩

def missingEmptyDirectory : SyntheticMountTarget := ⟨.emptyDirectory, none⟩

def existingEmptyFile (metadata : Metadata) : SyntheticMountTarget :=
  ⟨.emptyFile, some metadata.identity⟩

def existingEmptyDirectory (metadata : Metadata) : SyntheticMountTarget :=
  ⟨.emptyDirectory, some metadata.identity⟩

def preservesPreExistingPath (target : SyntheticMountTarget) : Bool :=
  target.preExistingPath.isSome

def shouldRemoveAfterBwrap (target : SyntheticMountTarget) (metadata : Metadata) : Bool :=
  (match target.kind with
    | .emptyFile => metadata.fileType = .file && metadata.len = 0
    | .emptyDirectory => metadata.fileType = .directory) &&
  (match target.preExistingPath with
    | some preExisting => preExisting ≠ metadata.identity
    | none => true)

end SyntheticMountTarget

/-- What is at the path after `remove_synthetic_mount_target`. -/
def removeSyntheticMountTarget (target : SyntheticMountTarget) (atPath : Option Metadata) :
    Option Metadata :=
  atPath.filter fun metadata =>
    !(target.shouldRemoveAfterBwrap metadata &&
      -- `remove_dir` fails on a directory that has entries
      (target.kind = .emptyFile || metadata.len = 0))

/-- The rule of its policy for which a process looks at the path: a read-only
subpath that is the path or lies below it, or a deny-read root there. -/
inductive Carveout where
  | readOnly
  | readOnlyBelow
  | unreadable
deriving DecidableEq

/-- The empty file or directory at a protected metadata path. -/
def transientEmptyMetadataPath (name : Text) (metadata : Metadata) :
    Option SyntheticMountTarget :=
  if name ∉ Permissions.protectedMetadataPathNames ∨ metadata.len ≠ 0
  then none
  else match metadata.fileType with
    | .file => some (.existingEmptyFile metadata)
    | .directory => some (.existingEmptyDirectory metadata)
    | .other => none

/-- The target that a process plans for a path of this last name below a
writable root, if it plans one. -/
def plannedTarget (name : Text) (carveout : Carveout) :
    Option Metadata → Option SyntheticMountTarget
  | none =>
    some (if carveout ≠ .unreadable ∧ name ∈ Permissions.protectedMetadataPathNames
      then .missingEmptyDirectory else .missing)
  | some metadata =>
    if carveout = .readOnly then transientEmptyMetadataPath name metadata
    else none

inductive Marker where
  | synthetic
  | existing
deriving DecidableEq

def syntheticMountMarkerContents (target : SyntheticMountTarget) : Marker :=
  if target.preservesPreExistingPath then .existing else .synthetic

/-- The host path and the processes that use it: those still building their
arguments, and those registered, each with a marker file for its target. -/
structure MountHost (Pid : Type u) where
  atPath : Option Metadata
  usedIdentities : List FileIdentity
  building : KeyedTable Pid SyntheticMountTarget
  registered : KeyedTable Pid SyntheticMountTarget

inductive MountStep (Pid : Type u) where
  | inspect (pid : Pid) (carveout : Carveout)
  | register (pid : Pid)
  | create (pid : Pid) (identity : FileIdentity)
  | cleanup (pid : Pid)

namespace MountHost

variable {Pid : Type u} (host : MountHost Pid)

def hasActiveSyntheticOwner : Bool :=
  host.registered.entries.any fun entry => syntheticMountMarkerContents entry.2 = .synthetic

/-- The target that `register_synthetic_mount_targets` records. -/
def registration (target : SyntheticMountTarget) : SyntheticMountTarget :=
  if target.preservesPreExistingPath && host.hasActiveSyntheticOwner then
    match target.kind with
    | .emptyFile => .missing
    | .emptyDirectory => .missingEmptyDirectory
  else target

/-- The empty file or directory that bubblewrap makes for a target. -/
def made (kind : SyntheticMountTargetKind) (identity : FileIdentity) : Metadata :=
  match kind with
  | .emptyFile => ⟨.file, 0, identity⟩
  | .emptyDirectory => ⟨.directory, 0, identity⟩

theorem identity_made (kind : SyntheticMountTargetKind) (identity : FileIdentity) :
    (made kind identity).identity = identity := by
  cases kind <;> rfl

/-- No process uses the path. -/
def Idle : Prop := host.building = ∅ ∧ host.registered = ∅

variable [DecidableEq Pid]

/-- One step of a process. The registry lock makes a registration and a
cleanup one step each; a new file or directory has an identity not used
before. -/
def perform (name : Text) (host : MountHost Pid) :
    MountStep Pid → Option (MountHost Pid)
  | .inspect pid carveout =>
    if pid ∈ host.building ∨ pid ∈ host.registered then none
    else (plannedTarget name carveout host.atPath).map fun target =>
      { host with building := host.building.insert pid target }
  | .register pid =>
    (host.building.lookup pid).map fun target =>
      { host with
        building := host.building.erase pid
        registered := host.registered.insert pid (host.registration target) }
  | .create pid identity =>
    (host.registered.lookup pid).bind fun target =>
      if host.atPath.isSome then some host
      else if identity ∈ host.usedIdentities then none
      else some { host with
        atPath := some (made target.kind identity)
        usedIdentities := identity :: host.usedIdentities }
  | .cleanup pid =>
    (host.registered.lookup pid).map fun target =>
      { host with
        registered := host.registered.erase pid
        atPath := if (host.registered.erase pid).entries = []
          then removeSyntheticMountTarget target host.atPath
          else host.atPath }

/-- A registration joins processes whose targets have its own kind, and does
not take what another sandbox made, and is still there, for what the path had
before the first of them. -/
def SafeRegistration (initial : Option Metadata) (host : MountHost Pid) :
    MountStep Pid → Prop
  | .register pid => ∀ target ∈ host.building.lookup pid,
      KeyedTable.Every (fun other => other.kind = target.kind) host.registered ∧
      (initial = none → host.hasActiveSyntheticOwner = false →
        ∀ metadata ∈ host.atPath, target.preExistingPath ≠ some metadata.identity)
  | _ => True

instance (initial : Option Metadata) (host : MountHost Pid) :
    (step : MountStep Pid) → Decidable (host.SafeRegistration initial step)
  | .register pid => by
    unfold SafeRegistration KeyedTable.Every; infer_instance
  | .inspect _ _ => isTrue trivial
  | .create _ _ => isTrue trivial
  | .cleanup _ => isTrue trivial

end MountHost

variable {target : SyntheticMountTarget} {identity : FileIdentity}

open SyntheticMountTarget

theorem removeSyntheticMountTarget_made (hidentity : target.preExistingPath ≠ identity) :
    removeSyntheticMountTarget target (some (MountHost.made target.kind identity)) = none := by
  obtain ⟨kind, preExisting⟩ := target
  cases kind <;> cases preExisting <;>
    simp_all [removeSyntheticMountTarget, MountHost.made, shouldRemoveAfterBwrap]

variable {metadata : Metadata}

theorem preExistingPath_plannedTarget {name : Text} {carveout : Carveout}
    {atPath : Option Metadata} (htarget : plannedTarget name carveout atPath = some target) :
    target.preExistingPath = atPath.map Metadata.identity := by
  cases atPath with
  | none =>
    obtain rfl := some.inj htarget
    split <;> rfl
  | some metadata =>
    obtain ⟨-, htarget⟩ := ite_none_right_eq_some.mp htarget
    obtain ⟨-, htarget⟩ := ite_none_left_eq_some.mp htarget
    split at htarget <;> cases htarget <;> rfl

namespace MountHost

variable {Pid : Type u} (host : MountHost Pid) (target : SyntheticMountTarget)

theorem kind_registration : (host.registration target).kind = target.kind := by
  unfold registration
  split
  · cases hkind : target.kind <;> rfl
  · rfl

/-- A registration forgets what was at the path exactly if a process with a
synthetic marker is registered. -/
theorem preExistingPath_registration :
    (host.registration target).preExistingPath =
      if host.hasActiveSyntheticOwner then none
      else target.preExistingPath := by
  obtain ⟨kind, preExisting⟩ := target
  cases hsynthetic : host.hasActiveSyntheticOwner <;> cases preExisting <;>
    cases kind <;> simp [registration, hsynthetic, preservesPreExistingPath,
      missing, missingEmptyDirectory]

/-- The path has what it had at first, and every process that uses it knows
so. -/
structure Kept (metadata : Metadata) (host : MountHost Pid) : Prop where
  atPath : host.atPath = some metadata
  building : KeyedTable.Every
    (fun target => target.preExistingPath = some metadata.identity)
    host.building
  registered : KeyedTable.Every
    (fun target => target.preExistingPath = some metadata.identity)
    host.registered

/-- No registered process takes `identity`, which a sandbox made for a target
of the kind, for what the path had before. -/
structure MadeAt (kind : SyntheticMountTargetKind) (identity : FileIdentity) :
    Prop where
  atPath : host.atPath = some (made kind identity)
  used : identity ∈ host.usedIdentities
  registered_ne : host.registered.entries ≠ []
  foreign : KeyedTable.Every
    (fun target => target.preExistingPath ≠ some identity) host.registered

/-- The path was absent at first, and what is there now is the work of the
registered processes, which agree on its kind. -/
structure Restorable : Prop where
  building : KeyedTable.Every
    (fun target => ∀ identity ∈ target.preExistingPath,
      identity ∈ host.usedIdentities) host.building
  registered : KeyedTable.Every
    (fun target => ∀ identity ∈ target.preExistingPath,
      identity ∈ host.usedIdentities) host.registered
  path : ∃ kind, KeyedTable.Every (fun target => target.kind = kind) host.registered ∧
    (host.atPath = none ∨ ∃ identity, host.MadeAt kind identity)

theorem Kept.hasActiveSyntheticOwner {host : MountHost Pid} (hkept : host.Kept metadata) :
    host.hasActiveSyntheticOwner = false := by
  refine any_eq_false.mpr fun entry hentry => ?_
  simp [syntheticMountMarkerContents, hkept.registered entry hentry, preservesPreExistingPath]

variable {target : SyntheticMountTarget}

variable [DecidableEq Pid] {name : Text} {host next : MountHost Pid} {step : MountStep Pid}

theorem Kept.perform (hkept : host.Kept metadata) (hstep : host.perform name step = some next) :
    next.Kept metadata := by
  cases step with
  | inspect pid carveout =>
    obtain ⟨-, hstep⟩ := ite_none_left_eq_some.mp hstep
    obtain ⟨target, htarget, rfl⟩ := map_eq_some_iff.mp hstep
    have hplanned := preExistingPath_plannedTarget htarget
    rw [hkept.atPath] at hplanned
    exact ⟨hkept.atPath, hkept.building.insert pid hplanned, hkept.registered⟩
  | register pid =>
    obtain ⟨target, htarget, rfl⟩ := map_eq_some_iff.mp hstep
    have hregistration := host.preExistingPath_registration target
    rw [hkept.hasActiveSyntheticOwner, hkept.building.of_lookup htarget] at hregistration
    exact ⟨hkept.atPath, hkept.building.erase pid, hkept.registered.insert pid hregistration⟩
  | create pid identity =>
    obtain ⟨target, -, hstep⟩ := bind_eq_some_iff.mp hstep
    rw [hkept.atPath] at hstep
    obtain rfl := some.inj hstep
    exact hkept
  | cleanup pid =>
    obtain ⟨target, htarget, rfl⟩ := map_eq_some_iff.mp hstep
    refine ⟨?_, hkept.building, hkept.registered.erase pid⟩
    simp [hkept.atPath, removeSyntheticMountTarget,
      hkept.registered.of_lookup htarget, shouldRemoveAfterBwrap]

section

variable (hrestorable : host.Restorable)
include hrestorable

theorem Restorable.register {pid : Pid} (htarget : host.building.lookup pid = some target)
    (hsafe : host.SafeRegistration none (.register pid)) :
    Restorable { host with
      building := host.building.erase pid
      registered := host.registered.insert pid (host.registration target) } := by
  obtain ⟨hkinds, hforeign⟩ := hsafe target htarget
  obtain ⟨kind, hkind, hpath⟩ := hrestorable.path
  have hknown := hrestorable.building.of_lookup htarget
  have hsubset : ∀ identity ∈ (host.registration target).preExistingPath,
      host.hasActiveSyntheticOwner = false ∧ target.preExistingPath = some identity := by
    intro identity hidentity
    rw [preExistingPath_registration] at hidentity
    split at hidentity
    · cases hidentity
    · rename_i howner
      exact ⟨Bool.eq_false_iff.mpr howner, hidentity⟩
  refine ⟨hrestorable.building.erase pid,
    hrestorable.registered.insert pid fun identity hidentity =>
      hknown identity (hsubset identity hidentity).2,
    target.kind, hkinds.insert pid (host.kind_registration target), ?_⟩
  rcases hpath with hnone | ⟨identity, hmade⟩
  · exact .inl hnone
  · -- some process is registered, so the kinds that it and the target have agree
    obtain ⟨entry, hentry⟩ := exists_mem_of_ne_nil _ hmade.registered_ne
    have hsame : kind = target.kind := (hkind entry hentry).symm.trans (hkinds entry hentry)
    subst hsame
    refine .inr ⟨identity, hmade.atPath, hmade.used, cons_ne_nil _ _,
      hmade.foreign.insert pid fun hpre => ?_⟩
    obtain ⟨howner, htaken⟩ := hsubset identity hpre
    refine hforeign rfl howner _ hmade.atPath ?_
    rw [htaken, identity_made]

theorem Restorable.create {pid : Pid} (htarget : host.registered.lookup pid = some target)
    (hfresh : identity ∉ host.usedIdentities) :
    Restorable { host with
      atPath := some (made target.kind identity)
      usedIdentities := identity :: host.usedIdentities } := by
  obtain ⟨kind, hkind, -⟩ := hrestorable.path
  refine ⟨fun entry hentry other hother => mem_cons_of_mem _
      (hrestorable.building entry hentry other hother),
    fun entry hentry other hother => mem_cons_of_mem _
      (hrestorable.registered entry hentry other hother),
    kind, hkind, .inr ⟨identity, ?_, mem_cons_self, ?_, ?_⟩⟩
  · rw [hkind.of_lookup htarget]
  · exact ne_nil_of_mem (AList.mem_lookup_iff.mp htarget)
  · intro entry hentry hpre
    exact hfresh (hrestorable.registered entry hentry identity hpre)

theorem Restorable.cleanup {pid : Pid} (htarget : host.registered.lookup pid = some target) :
    Restorable { host with
      registered := host.registered.erase pid
      atPath := if (host.registered.erase pid).entries = []
        then removeSyntheticMountTarget target host.atPath
        else host.atPath } := by
  obtain ⟨kind, hkind, hpath⟩ := hrestorable.path
  refine ⟨hrestorable.building, hrestorable.registered.erase pid, kind, hkind.erase pid, ?_⟩
  rcases hpath with hnone | ⟨identity, hmade⟩
  · left
    simp only [hnone, removeSyntheticMountTarget, filter_none, ite_self]
  · by_cases hlast : (host.registered.erase pid).entries = []
    · left
      rw [if_pos hlast, hmade.atPath, ← hkind.of_lookup htarget]
      exact removeSyntheticMountTarget_made (hmade.foreign.of_lookup htarget)
    · right
      rw [if_neg hlast]
      exact ⟨identity, hmade.atPath, hmade.used, hlast, hmade.foreign.erase pid⟩

theorem Restorable.perform (hstep : host.perform name step = some next)
    (hsafe : host.SafeRegistration none step) : next.Restorable := by
  cases step with
  | inspect pid carveout =>
    obtain ⟨-, hstep⟩ := ite_none_left_eq_some.mp hstep
    obtain ⟨target, htarget, rfl⟩ := map_eq_some_iff.mp hstep
    obtain ⟨kind, hkind, hpath⟩ := hrestorable.path
    refine ⟨hrestorable.building.insert pid fun identity hidentity => ?_,
      hrestorable.registered, kind, hkind, hpath.imp_right fun ⟨made, hmade⟩ =>
        ⟨made, hmade.atPath, hmade.used, hmade.registered_ne, hmade.foreign⟩⟩
    rw [preExistingPath_plannedTarget htarget] at hidentity
    obtain ⟨metadata, hmetadata, rfl⟩ := map_eq_some_iff.mp hidentity
    rcases hpath with hnone | ⟨identity, hmade⟩
    · cases hnone.symm.trans hmetadata
    · obtain rfl := some.inj (hmade.atPath.symm.trans hmetadata)
      rw [identity_made]
      exact hmade.used
  | register pid =>
    obtain ⟨target, htarget, rfl⟩ := map_eq_some_iff.mp hstep
    exact hrestorable.register htarget hsafe
  | create pid identity =>
    obtain ⟨target, htarget, hstep⟩ := bind_eq_some_iff.mp hstep
    split at hstep
    · obtain rfl := some.inj hstep
      exact hrestorable
    · obtain ⟨hfresh, hstep⟩ := ite_none_left_eq_some.mp hstep
      obtain rfl := some.inj hstep
      exact hrestorable.create htarget hfresh
  | cleanup pid =>
    obtain ⟨target, htarget, rfl⟩ := map_eq_some_iff.mp hstep
    exact hrestorable.cleanup htarget

end

/-- When every process has cleaned up after a run of safe registrations, the
path is as it was before the first process. -/
theorem path_restored_of_safe_registrations {start : MountHost Pid}
    {steps : List (MountStep Pid)} (hstart : start.Idle)
    (hrun : Run (Guarded (fun host step next =>
      host.perform name step = some next)
      (SafeRegistration start.atPath)) start steps host)
    (hdone : host.Idle) : host.atPath = start.atPath := by
  obtain ⟨hbuilding, hregistered⟩ := hstart
  cases hinitial : start.atPath with
  | some metadata =>
    have hkept : start.Kept metadata := by
      refine ⟨hinitial, ?_, ?_⟩ <;> simp [KeyedTable.Every, *]
    exact (hrun.invariant (fun _ _ _ hstep hkept => hkept.perform hstep.1) hkept).atPath
  | none =>
    rw [hinitial] at hrun
    have hrestorable : start.Restorable := by
      refine ⟨?_, ?_, .emptyFile, ?_, .inl hinitial⟩ <;>
        simp [KeyedTable.Every, *]
    obtain ⟨kind, -, hnone | ⟨identity, hmade⟩⟩ := (hrun.invariant
      (fun _ _ _ hstep hold => hold.perform hstep.1 hstep.2) hrestorable).path
    · exact hnone
    · exact absurd (by rw [hdone.2]; rfl) hmade.registered_ne

end MountHost

/-- Two processes share the directory that the first of them made. -/
def sharedDirectory : List (MountStep Nat) :=
  [.inspect 1 .readOnly, .register 1, .create 1 ⟨0, 7⟩,
    .inspect 2 .readOnly, .register 2, .cleanup 1, .cleanup 2]

theorem path_restored_after_sharedDirectory : ∃ host : MountHost Nat,
    performAll (MountHost.perform ".git".toList) ⟨none, [], ∅, ∅⟩
      sharedDirectory = some host ∧ host.Idle ∧ host.atPath = none := by
  refine ⟨⟨none, [⟨0, 7⟩], ∅, ∅⟩, rfl, ⟨rfl, rfl⟩, ?_⟩
  exact @MountHost.path_restored_of_safe_registrations _ _ ".git".toList _ ⟨none, [], ∅, ∅⟩
    sharedDirectory ⟨rfl, rfl⟩ (Run.guarded_of_performAll (by rfl)) ⟨rfl, rfl⟩

/-- The path is absent at first. Process 2 sees the directory of process 1 and
registers only after it is gone; what it makes then, process 3 takes for what
was there before and leaves on the host. -/
theorem leftover_directory_of_stale_inspection :
    (performAll (MountHost.perform ".git".toList)
      (⟨none, [], ∅, ∅⟩ : MountHost Nat)
      [.inspect 1 .readOnly, .register 1, .create 1 ⟨0, 7⟩,
        .inspect 2 .readOnly, .cleanup 1, .register 2, .create 2 ⟨0, 8⟩,
        .inspect 3 .readOnly, .register 3, .cleanup 2, .cleanup 3]) =
      some ⟨some ⟨.directory, 0, ⟨0, 8⟩⟩, [⟨0, 8⟩, ⟨0, 7⟩], ∅, ∅⟩ := by
  rfl

end Hexa.LinuxSandbox
