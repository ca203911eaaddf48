/-
The net text diff of a turn, kept from the deltas of the applied patches
without reading the files again.
-/
import Hexa.Lib.KeyedTable
import Hexa.ApplyPatch.Apply

namespace Hexa.TurnDiff

open ApplyPatch

def zeroOid : Text := List.replicate 40 '0'

def devNull : Text := "/dev/null".toList

def regularFileMode : Text := "100644".toList

/-- A text and the count of texts that were tracked before it. -/
structure TrackedContent where
  content : Text
  revision : Nat
  deriving DecidableEq

structure TrackedPath where
  environmentId : Text
  path : FilePath
  deriving DecidableEq

structure DiffCacheKey where
  leftPath : TrackedPath
  leftRevision : Option Nat
  rightPath : TrackedPath
  rightRevision : Option Nat
  deriving DecidableEq

structure TurnDiffTracker where
  valid : Bool := true
  displayRootsByEnvironment : KeyedTable Text FilePath := ∅
  baselineByPath : KeyedTable TrackedPath TrackedContent := ∅
  currentByPath : KeyedTable TrackedPath TrackedContent := ∅
  originByCurrentPath : KeyedTable TrackedPath TrackedPath := ∅
  nextRevision : Nat := 0
  renderedDiffs : KeyedTable DiffCacheKey (Option Text) := ∅
  unifiedDiff : Option Text := none

/-- The crates that a diff is rendered with.  A line diff stops at a time
limit, so two calls with the same texts need not agree. -/
structure DiffCrates where
  sha1 : Text → Text
  diffLines (old new : Text) (contextRadius : Nat) (oldHeader newHeader : Text) : Text

/-- The order in which the entries of the hash maps come up in one refresh:
a destination with its origin, and the paths to diff. -/
structure IterationOrder where
  origins : List (TrackedPath × TrackedPath)
  paths : List TrackedPath

/-- `PathUri::inferred_native_path_string` for POSIX paths. -/
def nativePathString (path : FilePath) : Text := '/' :: ['/'].intercalate path

/-- `PathUri::relative_path_from` for POSIX paths. -/
def relativePathFrom (base path : FilePath) : Option Text :=
  if base <+: path then some (['/'].intercalate (path.drop base.length))
  else none

def gitBlobOid (crates : DiffCrates) (content : Text) : Text :=
  crates.sha1 ("blob ".toList ++ (toString (utf8Len content)).toList ++ ['\x00'] ++ content)

namespace TurnDiffTracker

variable (tracker : TurnDiffTracker)

def withEnvironmentDisplayRoots (displayRoots : List (Text × FilePath)) : TurnDiffTracker :=
  { displayRootsByEnvironment := KeyedTable.collect displayRoots }

def getUnifiedDiff : Option Text := tracker.unifiedDiff

def invalidate : TurnDiffTracker :=
  { tracker with valid := false, renderedDiffs := ∅, unifiedDiff := none }

section

variable (path : TrackedPath)

/-- What the path had before its first change of the turn.  Each kind of
change asks for it in the same way. -/
def recordBaseline : Option Text → TurnDiffTracker
  | none => tracker
  | some content =>
    if path ∉ tracker.currentByPath ∧ path ∉ tracker.baselineByPath then
      { tracker with
        baselineByPath := tracker.baselineByPath.insert path ⟨content, tracker.nextRevision⟩
        nextRevision := tracker.nextRevision + 1 }
    else tracker

def setCurrent (content : Text) : TurnDiffTracker :=
  { tracker with
    currentByPath := tracker.currentByPath.insert path ⟨content, tracker.nextRevision⟩
    nextRevision := tracker.nextRevision + 1 }

def removeCurrent : TurnDiffTracker :=
  { tracker with currentByPath := tracker.currentByPath.erase path }

def removeOrigin : TurnDiffTracker :=
  { tracker with
    originByCurrentPath := tracker.originByCurrentPath.erase path }

def setOrigin (path origin : TrackedPath) : TurnDiffTracker :=
  { tracker with
    originByCurrentPath := tracker.originByCurrentPath.insert path origin }

def applyAdd (content : Text) (overwrittenContent : Option Text) : TurnDiffTracker :=
  ((tracker.removeOrigin path).recordBaseline path overwrittenContent).setCurrent path content

-- The source takes the current entry out first and asks whether there was
-- one; the test inside `recordBaseline` asks the same before it is taken out.
def applyDelete (content : Text) : TurnDiffTracker :=
  ((tracker.recordBaseline path (some content)).removeCurrent path).removeOrigin path

/-- The file that was at `source`, which came from `origin`, is put at
`destination`. -/
def moveCurrent (source destination : TrackedPath) (newContent : Text) : TurnDiffTracker :=
  let origin := (tracker.originByCurrentPath.lookup source).getD source
  let moved := ((((tracker.removeOrigin source).removeCurrent source).setCurrent
      destination newContent).removeOrigin destination)
  if destination ≠ origin then moved.setOrigin destination origin else moved

def applyUpdate (sourcePath : TrackedPath) (movePath : Option TrackedPath) (oldContent : Text)
    (overwrittenMoveContent : Option Text) (newContent : Text) : TurnDiffTracker :=
  let recorded := tracker.recordBaseline sourcePath (some oldContent)
  match movePath with
  | some destPath =>
    (recorded.recordBaseline destPath overwrittenMoveContent).moveCurrent
      sourcePath destPath newContent
  | none => recorded.setCurrent sourcePath newContent

def applyChange (environmentId : Text) (change : AppliedPatchChange FilePath) : TurnDiffTracker :=
  match change.change with
  | .add content overwritten => tracker.applyAdd ⟨environmentId, change.path⟩ content overwritten
  | .delete content => tracker.applyDelete ⟨environmentId, change.path⟩ content
  | .update movePath oldContent overwritten newContent =>
    tracker.applyUpdate ⟨environmentId, change.path⟩
      (movePath.map fun path => ⟨environmentId, path⟩) oldContent
      overwritten newContent

def applyChanges (environmentId : Text) (changes : List (AppliedPatchChange FilePath)) :
    TurnDiffTracker :=
  changes.foldl (fun tracker change => tracker.applyChange environmentId change) tracker

end

variable (path : TrackedPath)

section

def displayPath : Text :=
  let display := ((tracker.displayRootsByEnvironment.lookup path.environmentId).bind
      fun root => relativePathFrom root path.path).getD (nativePathString path.path)
  if 1 < tracker.displayRootsByEnvironment.keys.length ∧ path.environmentId ≠ [] then
    path.environmentId ++ '/' :: display
  else display

/-- The display path with `/` for every `\`, as a git diff has it. -/
def gitPath : Text := (tracker.displayPath path).map fun char => if char = '\\' then '/' else char

def renderDiff (crates : DiffCrates) (leftPath : TrackedPath) (leftContent : Option Text)
    (rightPath : TrackedPath) (rightContent : Option Text) : Option Text :=
  if leftContent = rightContent then none
  else
    let leftDisplay := tracker.gitPath leftPath
    let rightDisplay := tracker.gitPath rightPath
    let leftOid := leftContent.elim zeroOid (gitBlobOid crates)
    let rightOid := rightContent.elim zeroOid (gitBlobOid crates)
    let first := "diff --git a/".toList ++ leftDisplay ++ " b/".toList ++
      rightDisplay ++ ['\n']
    let mode : Option Text :=
      match leftContent, rightContent with
      | none, some _ => some ("new file mode ".toList ++ regularFileMode ++ ['\n'])
      | some _, none => some ("deleted file mode ".toList ++ regularFileMode ++ ['\n'])
      | some _, some _ => some []
      | none, none => none
    let oldHeader := if leftContent.isSome then "a/".toList ++ leftDisplay else devNull
    let newHeader := if rightContent.isSome then "b/".toList ++ rightDisplay else devNull
    mode.map fun mode =>
      first ++ mode ++ "index ".toList ++ leftOid ++ "..".toList ++ rightOid ++
        ['\n'] ++ crates.diffLines (leftContent.getD []) (rightContent.getD [])
          3 oldHeader newHeader

/-- A file that is gone from where it was at the start of the turn and is now
where no file was. -/
def IsRename (destination origin : TrackedPath) : Prop :=
  destination ≠ origin ∧ origin ∉ tracker.currentByPath ∧
    destination ∈ tracker.currentByPath ∧ origin ∈ tracker.baselineByPath ∧
    destination ∉ tracker.baselineByPath

instance (destination origin : TrackedPath) : Decidable (tracker.IsRename destination origin) :=
  inferInstanceAs (Decidable (_ ∧ _))

/-- Destinations by origin.  Of two destinations with one origin the one that
comes up later is kept. -/
def renamePairs (origins : List (TrackedPath × TrackedPath)) :
    KeyedTable TrackedPath TrackedPath :=
  KeyedTable.collect (origins.filterMap fun entry =>
    if tracker.IsRename entry.1 entry.2 then some (entry.2, entry.1) else none)

end

section

/-- The variables of the loop over the paths. -/
structure RefreshLoop where
  handled : List TrackedPath := []
  previousDiffs : KeyedTable DiffCacheKey (Option Text)
  renderedDiffs : KeyedTable DiffCacheKey (Option Text) := ∅
  aggregated : Text := []

def pushDiff (aggregated : Text) : Option Text → Text
  | none => aggregated
  | some diff =>
    if (aggregated ++ diff).getLast? = some '\n' then aggregated ++ diff
    else aggregated ++ diff ++ ['\n']

def cacheKey (leftPath rightPath : TrackedPath) : DiffCacheKey where
  leftPath := leftPath
  leftRevision := (tracker.baselineByPath.lookup leftPath).map TrackedContent.revision
  rightPath := rightPath
  rightRevision := (tracker.currentByPath.lookup rightPath).map TrackedContent.revision

def baselineText : Option Text := (tracker.baselineByPath.lookup path).map TrackedContent.content

def currentText : Option Text := (tracker.currentByPath.lookup path).map TrackedContent.content

variable (crates : DiffCrates)

/-- The diff of two paths: the cached one, or a new one. -/
def diffPaths (leftPath rightPath : TrackedPath) (loop : RefreshLoop) : RefreshLoop :=
  let key := tracker.cacheKey leftPath rightPath
  let rendered := (loop.previousDiffs.lookup key).getD
    (tracker.renderDiff crates leftPath (tracker.baselineText leftPath)
      rightPath (tracker.currentText rightPath))
  { loop with
    previousDiffs := loop.previousDiffs.erase key
    renderedDiffs := loop.renderedDiffs.insert key rendered
    aggregated := pushDiff loop.aggregated rendered }

def refreshPath (renamePairs : KeyedTable TrackedPath TrackedPath) (loop : RefreshLoop)
    (path : TrackedPath) : RefreshLoop :=
  if path ∈ loop.handled then loop
  else
    let loop := { loop with handled := path :: loop.handled }
    if path ∈ renamePairs.entries.map Sigma.snd then loop
    else
      match renamePairs.lookup path with
      | some dest =>
        tracker.diffPaths crates path dest { loop with handled := dest :: loop.handled }
      | none => tracker.diffPaths crates path path loop

def refreshUnifiedDiff (order : IterationOrder) : TurnDiffTracker :=
  let renamePairs := tracker.renamePairs order.origins
  let paths := (order.paths.insertionSort fun first second =>
    tracker.displayPath first ≤ tracker.displayPath second).destutter (· ≠ ·)
  let loop := paths.foldl (tracker.refreshPath crates renamePairs)
    { previousDiffs := tracker.renderedDiffs }
  { tracker with
    renderedDiffs := loop.renderedDiffs
    unifiedDiff := if loop.aggregated = [] then none else some loop.aggregated }

/-- The order is one of the entries that the maps have. -/
structure Enumerates (order : IterationOrder) : Prop where
  origins : order.origins.Perm
    (tracker.originByCurrentPath.entries.map fun entry => (entry.1, entry.2))
  paths : order.paths.Perm (tracker.baselineByPath.keys ++ tracker.currentByPath.keys)

end

/-- `track_delta`, with the order that the maps are gone through in. -/
def trackDelta (crates : DiffCrates) (order : IterationOrder) (environmentId : Text)
    (delta : AppliedPatchDelta FilePath) : TurnDiffTracker :=
  if tracker.valid = false then tracker
  else if delta.exact = false then tracker.invalidate
  else (tracker.applyChanges environmentId delta.changes).refreshUnifiedDiff crates order

end TurnDiffTracker

end Hexa.TurnDiff
