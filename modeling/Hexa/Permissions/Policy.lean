/-
File system sandbox policies: how entries resolve in a context, which access
they give a path, and when writing is unrestricted or kept from metadata.
-/
import Hexa.Permissions.PathUri

namespace Hexa.Permissions

/-- In the order of precedence between equally specific entries. -/
inductive FileSystemAccessMode where
  | read
  | write
  | deny
  deriving Repr, DecidableEq

namespace FileSystemAccessMode

def precedence : FileSystemAccessMode → Nat
  | read => 0
  | write => 1
  | deny => 2

theorem precedence_injective : Function.Injective precedence := by
  intro left right heq
  cases left <;> cases right <;> cases heq <;> rfl

instance : LinearOrder FileSystemAccessMode := LinearOrder.lift' precedence precedence_injective

def canWrite : FileSystemAccessMode → Bool
  | write => true
  | _ => false

variable {access : FileSystemAccessMode}

@[simp]
theorem canWrite_eq_true : access.canWrite = true ↔ access = write := by
  cases access <;> simp [canWrite]

end FileSystemAccessMode

inductive FileSystemSpecialPath where
  | root
  | minimal
  | projectRoots (subpath : Option Text)
  | tmpdir
  | slashTmp
  | unknown (path : Text) (subpath : Option Text)
  deriving Repr, DecidableEq

variable [UrlCrates]

inductive FileSystemPath where
  | path (path : PathUri)
  | globPattern (pattern : Text)
  | special (value : FileSystemSpecialPath)

structure FileSystemSandboxEntry where
  path : FileSystemPath
  access : FileSystemAccessMode

inductive FileSystemSandboxKind where
  | restricted
  | unrestricted
  | externalSandbox
  deriving Repr, DecidableEq

structure FileSystemSandboxPolicy where
  kind : FileSystemSandboxKind
  globScanMaxDepth : Option Nat := none
  entries : List FileSystemSandboxEntry := []

/-- The paths of an executor against which special paths are read. -/
structure FileSystemSandboxPolicyContext where
  cwd : PathUri
  workspaceRoots : List PathUri
  temporaryDirectories : Option (List PathUri)

def fileSystemRoot (context : FileSystemSandboxPolicyContext) : Option PathUri :=
  if context.cwd.lexicalDepth.isNone then none
  else some context.cwd.lastAncestor

def protectedMetadataPathNames : List Text := [".git".toList, ".agents".toList, ".hexa".toList]

/-- Special paths that mean the same without a directory to read them
against. -/
def specialPathMatchesPathUri (value : FileSystemSpecialPath) (path : PathUri) : Bool :=
  match value with
  | .root => path.lexicalDepth.isSome && path.parent.isNone
  | .slashTmp =>
    path.inferPathConvention == some .posix &&
      path.lexicalDepth == some 1 && path.basename == some (ascii "tmp")
  | _ => false

def specialPathsShareTarget (left right : FileSystemSpecialPath) : Bool :=
  match left, right with
  | .root, .root => true
  | .minimal, .minimal => true
  | .tmpdir, .tmpdir => true
  | .slashTmp, .slashTmp => true
  | .projectRoots left, .projectRoots right => left == right
  | .unknown left leftSubpath, .unknown right rightSubpath =>
    left == right && leftSubpath == rightSubpath
  | _, _ => false

/-- Two configured paths name the same place before any prefix matching. -/
def fileSystemPathsShareTarget (left right : FileSystemPath) (convention : PathConvention) :
    Bool :=
  match left, right with
  | .path left, .path right => left == right
  | .special left, .special right => specialPathsShareTarget left right
  | .path path, .special value =>
    path.inferPathConvention == some convention && specialPathMatchesPathUri value path
  | .special value, .path path =>
    path.inferPathConvention == some convention && specialPathMatchesPathUri value path
  | .globPattern left, .globPattern right => left == right
  | .globPattern _, _ => false
  | _, .globPattern _ => false

/-- The place below a workspace root. -/
def projectRootPath (subpath : Option Text) (root : PathUri) : Option PathUri :=
  match subpath with
  | some subpath => root.join subpath
  | none => some root

/-- The places a configured path stands for in a context. -/
def FileSystemPath.places (path : FileSystemPath) (context : FileSystemSandboxPolicyContext) :
    List PathUri :=
  match path with
  | .path path => [path]
  | .globPattern _ => []
  | .special .root => (fileSystemRoot context).toList
  | .special (.projectRoots subpath) => context.workspaceRoots.filterMap (projectRootPath subpath)
  | .special .tmpdir => context.temporaryDirectories.getD []
  | .special .slashTmp =>
    if context.cwd.inferPathConvention = some .posix then (context.cwd.join "/tmp".toList).toList
    else []
  | .special .minimal => []
  | .special (.unknown _ _) => []

/-- An entry with its places, of those that follow the convention. -/
def FileSystemSandboxEntry.resolved (entry : FileSystemSandboxEntry)
    (context : FileSystemSandboxPolicyContext) : List (PathUri × FileSystemAccessMode) :=
  ((entry.path.places context).filter (fun path =>
    path.inferPathConvention = context.cwd.inferPathConvention)).map
      (fun path => (path, entry.access))

/-- The places that have components, with their depth.  An opaque place has no
part in containment; any other ambiguous one spoils the policy. -/
def withDepths : List (PathUri × FileSystemAccessMode) →
    Option (List (PathUri × FileSystemAccessMode × Nat))
  | [] => some []
  | (root, access) :: entries =>
    match root.lexicalDepth with
    | some depth => (withDepths entries).map ((root, access, depth) :: ·)
    | none => if root.isOpaque then withDepths entries else none

namespace FileSystemSandboxPolicy

def restricted (entries : List FileSystemSandboxEntry) : FileSystemSandboxPolicy :=
  { kind := .restricted, entries }

variable (policy : FileSystemSandboxPolicy)

def hasRootAccess (predicate : FileSystemAccessMode → Bool) : Bool :=
  policy.kind == .restricted &&
    policy.entries.any (fun entry =>
      match entry.path with
      | .special .root => predicate entry.access
      | _ => false)

/-- A write entry with higher precedence for the same target. -/
def hasSameTargetWriteOverride (entry : FileSystemSandboxEntry) (convention : PathConvention) :
    Bool :=
  policy.entries.any (fun candidate =>
    candidate.access.canWrite && decide (entry.access < candidate.access) &&
      fileSystemPathsShareTarget candidate.path entry.path convention)

def isWriteNarrowing (convention : PathConvention) (entry : FileSystemSandboxEntry) : Bool :=
  if entry.access.canWrite then false
  else
    match entry.path with
    | .path _ => !policy.hasSameTargetWriteOverride entry convention
    | .globPattern _ => true
    | .special .root => entry.access == .deny
    | .special .slashTmp =>
      if convention = .windows then false
      else !policy.hasSameTargetWriteOverride entry convention
    | .special .minimal => false
    | .special (.unknown _ _) => false
    | .special _ => !policy.hasSameTargetWriteOverride entry convention

def hasWriteNarrowingEntries (convention : PathConvention) : Bool :=
  policy.kind == .restricted && policy.entries.any (policy.isWriteNarrowing convention)

def hasFullDiskWriteAccessForConvention (convention : Option PathConvention) : Bool :=
  match policy.kind with
  | .unrestricted => true
  | .externalSandbox => true
  | .restricted =>
    convention.any (fun convention =>
      policy.hasRootAccess FileSystemAccessMode.canWrite &&
        !policy.hasWriteNarrowingEntries convention)

def hasFullDiskWriteAccessWithContext (context : FileSystemSandboxPolicyContext) : Bool :=
  policy.hasFullDiskWriteAccessForConvention context.cwd.inferPathConvention

def resolvedEntries (context : FileSystemSandboxPolicyContext) :
    List (PathUri × FileSystemAccessMode) :=
  policy.entries.flatMap (·.resolved context)

/-- The access of the most specific entry at or above the path. -/
def resolveAccess (path : PathUri) (context : FileSystemSandboxPolicyContext) :
    FileSystemAccessMode :=
  match policy.kind with
  | .unrestricted => .write
  | .externalSandbox => .write
  | .restricted =>
    match context.cwd.inferPathConvention with
    | none => .deny
    | some convention =>
      if path.inferPathConvention ≠ some convention ∨
          path.lexicalDepth.isNone ∨ context.cwd.lexicalDepth.isNone then
        .deny
      else
        match withDepths (policy.resolvedEntries context) with
        | none => .deny
        | some entries =>
          let above := entries.filter (path.startsWith ·.1)
          (above.argmax (fun entry => toLex (entry.2.2, entry.2.1))).elim .deny (·.2.1)

/-- The metadata directory of a place that contains the path. -/
def guardedMetadata (path root : PathUri) : Option (PathUri × Text) :=
  protectedMetadataPathNames.findSome? (fun name =>
    (root.joinDescendant name).bind (fun guarded =>
      if path.startsWith guarded then some (guarded, name) else none))

/-- A write entry at or below the metadata directory covers the path. -/
def opensMetadata (entries : List (PathUri × FileSystemAccessMode)) (path guarded : PathUri) :
    Bool :=
  entries.any (fun entry =>
    entry.2.canWrite && path.startsWith entry.1 && entry.1.startsWith guarded)

/-- The metadata name for which a write to the path is denied.  Only the first
write entry with the path in its metadata counts. -/
def metadataWriteDenial (path : PathUri) (context : FileSystemSandboxPolicyContext) :
    Option Text :=
  if policy.kind ≠ .restricted then none
  else
    let entries := policy.resolvedEntries context
    ((entries.filter (·.2.canWrite)).findSome?
      (guardedMetadata path ·.1)).bind (fun found =>
        if opensMetadata entries path found.1 then none else some found.2)

def canWritePath (path : PathUri) (context : FileSystemSandboxPolicyContext) : Bool :=
  (policy.resolveAccess path context).canWrite &&
    (policy.hasFullDiskWriteAccessWithContext context ||
      (policy.metadataWriteDenial path context).isNone)

end FileSystemSandboxPolicy

end Hexa.Permissions
