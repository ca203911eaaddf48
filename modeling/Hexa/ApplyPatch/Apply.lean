/-
Applying the hunks of a patch to the files, one after another.  Every call to
the file system may fail; what a failed call leaves behind is a parameter.
-/
import Hexa.Lib.FileTree
import Hexa.ApplyPatch.FileUpdate
import Hexa.Permissions.PathUri

namespace Hexa.ApplyPatch

open Permissions

structure ApplyPatchOptions where
  updateFileMode : ApplyPatchFileUpdateMode
  followSymlinks : Bool

/-- The errors of the executor; `message` is one that has no type of its
own. -/
inductive ApplyPatchError where
  | parseError (message : Text)
  | ioError (context : Text) (source : IoErrorKind)
  | computeReplacements (message : Text)
  | pathUri
  | message (message : Text)
  deriving DecidableEq

variable [UrlCrates]

/-- What the host makes of a URI: `to_abs_path`, as the names from the root,
and `inferred_native_path_string`. -/
structure NativePaths where
  toAbsPath : PathUri → Option FilePath
  inferredNativePathString : PathUri → Text

namespace Hunk

/-- The path that a hunk is reported under. -/
def path : Hunk → Text
  | .addFile path _ => path
  | .deleteFile path => path
  | .updateFile path movePath _ => movePath.getD path

/-- The path that a hunk is read from. -/
def sourcePath : Hunk → Text
  | .addFile path _ => path
  | .deleteFile path => path
  | .updateFile path _ _ => path

def resolvePath (cwd : PathUri) (hunk : Hunk) : Option PathUri :=
  cwd.join hunk.sourcePath

end Hunk

section

universe u

variable (Path : Type u)

inductive AppliedPatchFileChange where
  | add (content : Text) (overwrittenContent : Option Text)
  | delete (content : Text)
  | update (movePath : Option Path) (oldContent : Text)
      (overwrittenMoveContent : Option Text) (newContent : Text)

structure AppliedPatchChange where
  path : Path
  change : AppliedPatchFileChange Path

structure AppliedPatchDelta where
  changes : List (AppliedPatchChange Path)
  exact : Bool

namespace AppliedPatchDelta

def empty : AppliedPatchDelta Path := ⟨[], true⟩

variable {Path}

def push (delta : AppliedPatchDelta Path) (exact : Bool) (path : Path)
    (change : AppliedPatchFileChange Path) : AppliedPatchDelta Path :=
  ⟨delta.changes ++ [⟨path, change⟩], exact⟩

end AppliedPatchDelta

structure AffectedPaths where
  added : List Text
  modified : List Text
  deleted : List Text

end

section

/-- How a write fails: before the file is opened, or with something else in
it. -/
inductive WriteFault where
  | none
  | untouched
  | leaves (content : FileContent)

/-- How a removal fails: the file stays, or it is gone all the same. -/
inductive RemoveFault where
  | none
  | kept
  | removed

/-- The calls that fail while a hunk is applied, by the order in which they
are made.  A directory that cannot be made may leave some of those above
it. -/
structure Faults where
  metadata : Bool := false
  read : Bool := false
  targetMetadata : Bool := false
  targetRead : Bool := false
  write : WriteFault := .none
  createDirectory : Option Nat := none
  rewrite : WriteFault := .none
  check : Bool := false
  remove : RemoveFault := .none
  recheck : Bool := false

end

section

variable (native : NativePaths) (follow : Bool) (path : PathUri) (tree : FileTree)

/-- A call at the place of a URI, which fails if there is none on the host. -/
def callAt {Result : Type} (call : FilePath → Except IoErrorKind Result) :
    Except IoErrorKind Result :=
  match native.toAbsPath path with
  | some place => call place
  | none => .error .other

def readFileText (failed : Bool) : Except IoErrorKind Text :=
  if failed then .error .other else callAt native path (tree.readText follow)

def getMetadata (failed : Bool) : Except IoErrorKind FileMetadata :=
  if failed then .error .other else callAt native path (tree.metadata follow)

/-- The tree after a call, which is the old one if the call fails. -/
def attempt (result : Except IoErrorKind FileTree) : FileTree × Option IoErrorKind :=
  match result with
  | .ok next => (next, none)
  | .error kind => (tree, some kind)

def writeFile (fault : WriteFault) (content : Text) : FileTree × Option IoErrorKind :=
  match fault with
  | .none => attempt tree (callAt native path (tree.write follow · (.text content)))
  | .untouched => (tree, some .other)
  | .leaves left =>
    ((attempt tree (callAt native path (tree.write follow · left))).1, some .other)

def createDirectory (fault : Option Nat) : FileTree × Option IoErrorKind :=
  match fault with
  | none => attempt tree (callAt native path (tree.createDirectories follow))
  | some made =>
    ((attempt tree (callAt native path (fun place =>
      tree.createDirectories follow (place.take made)))).1, some .other)

def removeFile (fault : RemoveFault) : FileTree × Option IoErrorKind :=
  match fault with
  | .none => attempt tree (callAt native path (tree.remove follow))
  | .kept => (tree, some .other)
  | .removed => ((attempt tree (callAt native path (tree.remove follow))).1, some .other)

end

section

variable (native : NativePaths) (faults : Faults) (follow : Bool) (path : PathUri)
  (tree : FileTree)

/-- The delta stays exact only for a regular file, or for nothing at all. -/
def noteExistingPathDeltaSupport (failed exact : Bool) : Bool :=
  match getMetadata native follow path tree failed with
  | .ok metadata => if metadata.isFile && !metadata.isSymlink then exact
      else false
  | .error .notFound => exact
  | .error .other => false

def readOptionalFileTextForDelta (metadataFailed readFailed exact : Bool) : Bool × Option Text :=
  let noted := noteExistingPathDeltaSupport native follow path tree metadataFailed exact
  match readFileText native follow path tree readFailed with
  | .ok content => (noted, some content)
  | .error .notFound => (noted, none)
  | .error .other => (false, none)

def writeFailure (kind : IoErrorKind) : ApplyPatchError :=
  .ioError ("Failed to write file ".toList ++ (native.inferredNativePathString path)) kind

/-- The root has no parent to make. -/
def createParent : FileTree × Option IoErrorKind :=
  match path.parent with
  | none => (tree, none)
  | some parent => createDirectory native follow parent tree faults.createDirectory

def writeFileWithMissingParentRetry (content : Text) : FileTree × Option ApplyPatchError :=
  match writeFile native follow path tree faults.write content with
  | (written, none) => (written, none)
  | (failed, some .other) => (failed, some (writeFailure native path .other))
  | (failed, some .notFound) =>
    match createParent native faults follow path failed with
    | (created, some kind) =>
      (created, some (.ioError
        ("Failed to create parent directories for ".toList ++
          (native.inferredNativePathString path)) kind))
    | (created, none) =>
      match writeFile native follow path created faults.rewrite content with
      | (written, none) => (written, none)
      | (failed, some kind) => (failed, some (writeFailure native path kind))

def ensureNotDirectory : Option IoErrorKind :=
  match getMetadata native follow path tree faults.check with
  | .error kind => some kind
  | .ok metadata => if metadata.isDirectory then some .other else none

def removeFailureWasSideEffectFree (expectedContent : Option Text) : Bool :=
  match expectedContent with
  | none => false
  | some expected =>
    match readFileText native follow path tree faults.recheck with
    | .ok content => content == expected
    | .error _ => false

/-- The removal of a file that is expected to have this text, with its effect
on the exactness of the delta. -/
def removeExpected (context : Text) (expectedContent : Option Text) (exact : Bool) :
    FileTree × Bool × Option ApplyPatchError :=
  match ensureNotDirectory native faults follow path tree with
  | some kind => (tree, exact, some (.ioError context kind))
  | none =>
    match removeFile native follow path tree faults.remove with
    | (removed, none) => (removed, exact, none)
    | (failed, some kind) =>
      (failed,
        exact && removeFailureWasSideEffectFree native faults follow path failed expectedContent,
        some (.ioError context kind))

/-- The contents of a file, and those that its chunks make of it. -/
def deriveNewContentsFromChunks (mode : ApplyPatchFileUpdateMode) (failed : Bool)
    (chunks : List UpdateFileChunk) : Except ApplyPatchError (Text × Text) :=
  match readFileText native follow path tree failed with
  | .error kind =>
    .error (.ioError
      ("Failed to read file to update ".toList ++ (native.inferredNativePathString path)) kind)
  | .ok original =>
    match newContents mode (native.inferredNativePathString path) original chunks with
    | .error message => .error (.computeReplacements message)
    | .ok contents => .ok (original, contents)

end

/-- What the loop over the hunks works on. -/
structure Progress where
  tree : FileTree
  delta : AppliedPatchDelta PathUri
  affected : AffectedPaths

namespace Progress

def start (tree : FileTree) : Progress := ⟨tree, .empty PathUri, ⟨[], [], []⟩⟩

variable (native : NativePaths) (options : ApplyPatchOptions) (faults : Faults) (path : PathUri)
  (affectedPath : Text) (progress : Progress)

/-- The hunk ends with an error, and so does the loop. -/
def fail (tree : FileTree) (exact : Bool) (error : ApplyPatchError) :
    Progress × Option ApplyPatchError :=
  ({ progress with tree, delta := { progress.delta with exact } }, some error)

def addFile (contents : Text) : Progress × Option ApplyPatchError :=
  let read := readOptionalFileTextForDelta native options.followSymlinks path
    progress.tree faults.targetMetadata faults.targetRead progress.delta.exact
  match writeFileWithMissingParentRetry native faults options.followSymlinks path
      progress.tree contents with
  | (failed, some error) => progress.fail failed false error
  | (written, none) =>
    ({ tree := written
       delta := progress.delta.push read.1 path (.add contents read.2)
       affected := { progress.affected with
         added := progress.affected.added ++ [affectedPath] } }, none)

def deleteFile : Progress × Option ApplyPatchError :=
  let noted := noteExistingPathDeltaSupport native options.followSymlinks path
    progress.tree faults.metadata progress.delta.exact
  let deletedContent := (readFileText native options.followSymlinks path progress.tree
    faults.read).toOption
  match removeExpected native faults options.followSymlinks path progress.tree
      ("Failed to delete file ".toList ++ (native.inferredNativePathString path)) deletedContent
      (noted && deletedContent.isSome) with
  | (failed, exact, some error) => progress.fail failed exact error
  | (removed, exact, none) =>
    ({ tree := removed
       delta := match deletedContent with
         | some content => progress.delta.push exact path (.delete content)
         | none => { progress.delta with exact }
       affected := { progress.affected with
         deleted := progress.affected.deleted ++ [affectedPath] } }, none)

/-- The contents of a moved file are at its destination before the original
is removed. -/
def moveFile (destination : PathUri) (exact : Bool) (originalContents newContents : Text) :
    Progress × Option ApplyPatchError :=
  let read := readOptionalFileTextForDelta native options.followSymlinks destination
    progress.tree faults.targetMetadata faults.targetRead exact
  match writeFileWithMissingParentRetry native faults options.followSymlinks
      destination progress.tree newContents with
  | (failed, some error) => progress.fail failed false error
  | (written, none) =>
    let pushed := progress.delta.push read.1 destination (.add newContents read.2)
    match removeExpected native faults options.followSymlinks path written
        ("Failed to remove original ".toList ++ (native.inferredNativePathString path))
        (some originalContents) pushed.exact with
    | (failed, exact, some error) =>
      ({ progress with tree := failed, delta := { pushed with exact } }, some error)
    | (removed, exact, none) =>
      ({ tree := removed
         delta := progress.delta.push exact path
           (.update (some destination) originalContents read.2 newContents)
         affected := { progress.affected with
           modified := progress.affected.modified ++ [affectedPath] } },
        none)

def rewriteFile (exact : Bool) (originalContents newContents : Text) :
    Progress × Option ApplyPatchError :=
  match writeFile native options.followSymlinks path progress.tree faults.write newContents with
  | (failed, some kind) => progress.fail failed false (writeFailure native path kind)
  | (written, none) =>
    ({ tree := written
       delta := progress.delta.push exact path (.update none originalContents none newContents)
       affected := { progress.affected with
         modified := progress.affected.modified ++ [affectedPath] } }, none)

def updateFile (cwd : PathUri) (movePath : Option Text) (chunks : List UpdateFileChunk) :
    Progress × Option ApplyPatchError :=
  let noted := noteExistingPathDeltaSupport native options.followSymlinks path
    progress.tree faults.metadata progress.delta.exact
  match deriveNewContentsFromChunks native options.followSymlinks path progress.tree
      options.updateFileMode faults.read chunks with
  | .error error => progress.fail progress.tree noted error
  | .ok (originalContents, newContents) =>
    match movePath with
    | none =>
      progress.rewriteFile native options faults path affectedPath noted originalContents
        newContents
    | some destination =>
      match cwd.join destination with
      | none => progress.fail progress.tree noted .pathUri
      | some destination =>
        progress.moveFile native options faults path affectedPath destination
          noted originalContents newContents

end Progress

section

variable (native : NativePaths) (options : ApplyPatchOptions) (cwd : PathUri)

/-- One round of the loop of `apply_hunks_to_files`. -/
def applyHunk (faults : Faults) (hunk : Hunk)
    (progress : Progress) : Progress × Option ApplyPatchError :=
  match hunk.resolvePath cwd with
  | none => (progress, some .pathUri)
  | some path =>
    match hunk with
    | .addFile _ contents => progress.addFile native options faults path hunk.path contents
    | .deleteFile _ => progress.deleteFile native options faults path hunk.path
    | .updateFile _ movePath chunks =>
      progress.updateFile native options faults path hunk.path cwd movePath chunks

/-- The loop over the hunks, with the calls that fail in each round. -/
def applyHunks :
    (Nat → Faults) → List Hunk → Progress → Progress × Option ApplyPatchError
  | _, [], progress => (progress, none)
  | faults, hunk :: hunks, progress =>
    match applyHunk native options cwd (faults 0) hunk progress with
    | (next, none) => applyHunks (fun round => faults (round + 1)) hunks next
    | (failed, some error) => (failed, some error)

/-- `apply_hunks_to_files`: the files and the delta at the end, and the error
that ended the loop early. -/
def applyHunksToFiles (faults : Nat → Faults) (hunks : List Hunk) (tree : FileTree) :
    Progress × Option ApplyPatchError :=
  if hunks = [] then (.start tree, some (.message "No files were modified.".toList))
  else applyHunks native options cwd faults hunks (.start tree)

end

end Hexa.ApplyPatch
