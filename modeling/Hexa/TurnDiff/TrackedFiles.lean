/-
The baseline and the current entry of every path that a turn has touched, for
deltas that are consistent with the files as they change.
-/
import Hexa.ApplyPatch.Delta
import Hexa.TurnDiff.Tracker

namespace Hexa.TurnDiff

open List ApplyPatch Function AList

/-- The text files of all environments. -/
abbrev TurnFiles := TrackedPath → Option Text

section

/-- The changes of a delta, whose paths are those of the files. -/
def placeJournal : Journal (FilePath → Option Text) (AppliedPatchChange FilePath) :=
  textJournal some

/-- The files of one environment. -/
def TurnFiles.of (files : TurnFiles) (environmentId : Text) : FilePath → Option Text :=
  fun path => files ⟨environmentId, path⟩

/-- The change is made to the files of one environment. -/
def redoIn (environmentId : Text) (files : TurnFiles) (change : AppliedPatchChange FilePath) :
    TurnFiles :=
  fun path =>
    if path.environmentId = environmentId then
      placeJournal.redo change (files.of environmentId) path.path
    else files path

/-- The old contents that the change records are those of the files: making
the change and taking it back leads to them again. -/
def ConsistentWith (environmentId : Text) (files : TurnFiles)
    (change : AppliedPatchChange FilePath) : Prop :=
  placeJournal.undo change (placeJournal.redo change (files.of environmentId)) =
    files.of environmentId

/-- Every change is consistent with the files that the ones before it left. -/
def AllConsistent (environmentId : Text) :
    TurnFiles → List (AppliedPatchChange FilePath) → Prop
  | _, [] => True
  | files, change :: changes =>
    ConsistentWith environmentId files change ∧
      AllConsistent environmentId (redoIn environmentId files change) changes

def changedPaths (change : AppliedPatchChange FilePath) : List FilePath :=
  match change.change with
  | .update (some destination) _ _ _ => [change.path, destination]
  | _ => [change.path]

def Touches (environmentId : Text) (change : AppliedPatchChange FilePath) (path : TrackedPath) :
    Prop :=
  path.environmentId = environmentId ∧ path.path ∈ changedPaths change

variable {change : AppliedPatchChange FilePath} {path : FilePath}

theorem redo_eq_of_mem (hmem : path ∈ changedPaths change)
    (first second : FilePath → Option Text) :
    placeJournal.redo change first path = placeJournal.redo change second path := by
  obtain ⟨source, _ | _ | ⟨_ | destination, old, overwritten, new⟩⟩ := change
  all_goals
    simp only [changedPaths] at hmem
    simp only [placeJournal, placeJournal, textJournal, setText, setText]
    grind

theorem redo_eq_of_notMem (hmem : path ∉ changedPaths change) (files : FilePath → Option Text) :
    placeJournal.redo change files path = files path := by
  obtain ⟨source, _ | _ | ⟨_ | destination, old, overwritten, new⟩⟩ := change
  all_goals
    simp only [changedPaths] at hmem
    simp only [placeJournal, placeJournal, textJournal, setText, setText]
    grind

end

namespace TurnDiffTracker

variable (tracker : TurnDiffTracker)

section Texts

variable (path origin : TrackedPath) (content : Text)

theorem notMem_current_iff : path ∉ tracker.currentByPath ↔ tracker.currentText path = none := by
  rw [currentText, Option.map_eq_none_iff, lookup_eq_none]

theorem notMem_baseline_iff :
    path ∉ tracker.baselineByPath ↔ tracker.baselineText path = none := by
  rw [baselineText, Option.map_eq_none_iff, lookup_eq_none]

@[simp] theorem currentText_setCurrent :
    (tracker.setCurrent path content).currentText =
      update tracker.currentText path (some content) := by
  funext other
  by_cases hpath : other = path
  · subst hpath
    simp [currentText, setCurrent]
  · simp [currentText, setCurrent, lookup_insert_ne hpath, hpath]

@[simp] theorem currentText_removeCurrent :
    (tracker.removeCurrent path).currentText = update tracker.currentText path none := by
  funext other
  by_cases hpath : other = path
  · subst hpath
    simp [currentText, removeCurrent]
  · simp [currentText, removeCurrent, lookup_erase_ne hpath, hpath]

@[simp] theorem currentText_removeOrigin :
    (tracker.removeOrigin path).currentText = tracker.currentText :=
  rfl

@[simp] theorem currentText_setOrigin :
    (tracker.setOrigin path origin).currentText = tracker.currentText :=
  rfl

@[simp] theorem currentText_recordBaseline (content : Option Text) :
    (tracker.recordBaseline path content).currentText = tracker.currentText := by
  cases content with
  | none => rfl
  | some content =>
    rw [recordBaseline]
    split <;> rfl

@[simp] theorem baselineText_setCurrent :
    (tracker.setCurrent path content).baselineText = tracker.baselineText :=
  rfl

@[simp] theorem baselineText_removeCurrent :
    (tracker.removeCurrent path).baselineText = tracker.baselineText :=
  rfl

@[simp] theorem baselineText_removeOrigin :
    (tracker.removeOrigin path).baselineText = tracker.baselineText :=
  rfl

@[simp] theorem baselineText_setOrigin :
    (tracker.setOrigin path origin).baselineText = tracker.baselineText :=
  rfl

/-- A text is noted for the path alone, and only if nothing is known of it. -/
theorem baselineText_recordBaseline (content : Option Text) (other : TrackedPath) :
    (tracker.recordBaseline path content).baselineText other =
      if other = path ∧ tracker.baselineText path = none ∧
        tracker.currentText path = none then content
      else tracker.baselineText other := by
  cases content with
  | none => grind [recordBaseline]
  | some content =>
    rw [recordBaseline]
    simp only [notMem_current_iff, notMem_baseline_iff]
    by_cases hpath : other = path
    · split <;> grind [baselineText, lookup_insert]
    · split <;> grind [baselineText, lookup_insert_ne]

@[simp] theorem currentText_moveCurrent (source : TrackedPath) :
    (tracker.moveCurrent source path content).currentText =
      update (update tracker.currentText source none) path (some content) := by
  rw [moveCurrent]
  split <;> simp

@[simp] theorem baselineText_moveCurrent (source : TrackedPath) :
    (tracker.moveCurrent source path content).baselineText = tracker.baselineText := by
  rw [moveCurrent]
  split <;> simp

end Texts

section

variable (environmentId : Text) (change : AppliedPatchChange FilePath)

theorem update_of_environment {files : TurnFiles} (path : FilePath) (content : Option Text)
    (other : TrackedPath) :
    update files ⟨environmentId, path⟩ content other =
      if other.environmentId = environmentId then
        update (files.of environmentId) path content other.path
      else files other := by
  obtain ⟨otherId, otherPath⟩ := other
  simp only [update_apply, TurnFiles.of]
  grind

/-- The current entries change as the files do. -/
theorem currentText_applyChange :
    (tracker.applyChange environmentId change).currentText =
      redoIn environmentId tracker.currentText change := by
  funext other
  rw [applyChange, redoIn]
  obtain ⟨source, content | content | ⟨_ | destination, old, overwritten, new⟩⟩ := change
  · simp [applyAdd, placeJournal, textJournal, setText, update_of_environment]
  · simp [applyDelete, placeJournal, textJournal, setText, update_of_environment]
  · simp [applyUpdate, placeJournal, textJournal, setText, update_of_environment]
  · obtain ⟨otherId, otherPath⟩ := other
    simp only [applyUpdate, placeJournal, textJournal, setText, Option.map_some,
      currentText_moveCurrent, currentText_recordBaseline, update_apply, TurnFiles.of]
    grind

/-- A path of the change of which nothing was known gets the old content
that the change records. -/
theorem baselineText_applyChange_of_touches {path : TrackedPath}
    (htouches : Touches environmentId change path) (files : FilePath → Option Text) :
    (tracker.applyChange environmentId change).baselineText path =
      if tracker.baselineText path = none ∧ tracker.currentText path = none then
        placeJournal.undo change files path.path
      else tracker.baselineText path := by
  obtain ⟨otherId, otherPath⟩ := path
  obtain ⟨rfl, hmem⟩ := htouches
  obtain ⟨source, content | content | ⟨_ | destination, old, overwritten, new⟩⟩ := change
  all_goals
    simp only [changedPaths, mem_cons, not_mem_nil, or_false] at hmem
  · subst hmem
    simp [applyChange, applyAdd, baselineText_recordBaseline, placeJournal, textJournal, setText]
  · subst hmem
    simp [applyChange, applyDelete, baselineText_recordBaseline, placeJournal, textJournal,
      setText]
  · subst hmem
    simp [applyChange, applyUpdate, baselineText_recordBaseline, placeJournal, textJournal,
      setText]
  · simp only [applyChange, applyUpdate, Option.map_some, baselineText_moveCurrent,
      baselineText_recordBaseline, currentText_recordBaseline, placeJournal, textJournal, setText]
    grind

theorem baselineText_applyChange_of_not_touches {path : TrackedPath}
    (htouches : ¬ Touches environmentId change path) :
    (tracker.applyChange environmentId change).baselineText path = tracker.baselineText path := by
  obtain ⟨source, content | content | ⟨_ | destination, old, overwritten, new⟩⟩ := change
  all_goals
    simp only [Touches, changedPaths] at htouches
    simp only [applyChange, applyAdd, applyDelete, applyUpdate, Option.map_some, Option.map_none,
      baselineText_moveCurrent, baselineText_setCurrent, baselineText_removeCurrent,
      baselineText_removeOrigin, baselineText_recordBaseline]
    grind

end

section

theorem valid_recordBaseline (path : TrackedPath) (content : Option Text) :
    (tracker.recordBaseline path content).valid = tracker.valid := by
  cases content with
  | none => rfl
  | some content =>
    rw [recordBaseline]
    split <;> rfl

theorem valid_moveCurrent (source destination : TrackedPath) (content : Text) :
    (tracker.moveCurrent source destination content).valid = tracker.valid := by
  rw [moveCurrent]
  split <;> rfl

theorem valid_applyChange (environmentId : Text) (change : AppliedPatchChange FilePath) :
    (tracker.applyChange environmentId change).valid = tracker.valid := by
  obtain ⟨source, content | content | ⟨_ | destination, old, overwritten, new⟩⟩ := change
  · exact valid_recordBaseline _ _ _
  · exact valid_recordBaseline _ _ _
  · exact valid_recordBaseline _ _ _
  · refine (valid_moveCurrent _ _ _ _).trans ?_
    rw [valid_recordBaseline, valid_recordBaseline]

theorem valid_applyChanges (environmentId : Text) (changes : List (AppliedPatchChange FilePath)) :
    (tracker.applyChanges environmentId changes).valid = tracker.valid := by
  induction changes generalizing tracker with
  | nil => rfl
  | cons change changes ih => exact (ih _).trans (valid_applyChange _ _ _)

end

/-- What the tracker knows of the files: of every touched path what it had at
the start of the turn and what it has now, of the others nothing. -/
structure Tracks (initial files : TurnFiles) (touched : Set TrackedPath) :
    Prop where
  baseline : ∀ path ∈ touched, tracker.baselineText path = initial path
  current : ∀ path ∈ touched, tracker.currentText path = files path
  untouched : ∀ path ∉ touched, tracker.baselineText path = none ∧
    tracker.currentText path = none ∧ files path = initial path

variable {tracker} {initial files : TurnFiles} {touched : Set TrackedPath} {environmentId : Text}
  {change : AppliedPatchChange FilePath} {path : TrackedPath}
  (htracks : tracker.Tracks initial files touched)
include htracks in
/-- A path of which nothing is known is as it was at the start. -/
theorem Tracks.unknown (hbaseline : tracker.baselineText path = none)
    (hcurrent : tracker.currentText path = none) : files path = initial path := by
  by_cases hpath : path ∈ touched
  · rw [← htracks.current path hpath, ← htracks.baseline path hpath, hbaseline, hcurrent]
  · exact (htracks.untouched path hpath).2.2

include htracks in
theorem Tracks.known (hknown : ¬ (tracker.baselineText path = none ∧
      tracker.currentText path = none)) : tracker.baselineText path = initial path := by
  by_cases hpath : path ∈ touched
  · exact htracks.baseline path hpath
  · obtain ⟨hbaseline, hcurrent, -⟩ := htracks.untouched path hpath
    exact absurd ⟨hbaseline, hcurrent⟩ hknown

theorem redoIn_of_not_touches (htouches : ¬ Touches environmentId change path) :
    redoIn environmentId files change path = files path := by
  rw [redoIn]
  split
  next hid =>
    subst hid
    rw [redo_eq_of_notMem (fun hmem => htouches ⟨rfl, hmem⟩)]
    rfl
  · rfl

include htracks in
theorem Tracks.applyChange (hconsistent : ConsistentWith environmentId files change) :
    (tracker.applyChange environmentId change).Tracks initial
      (redoIn environmentId files change)
      (touched ∪ {path | Touches environmentId change path}) := by
  have hbaseline (path : TrackedPath)
      (htouches : Touches environmentId change path) :
      (tracker.applyChange environmentId change).baselineText path = initial path := by
    rw [baselineText_applyChange_of_touches _ _ _ htouches, hconsistent]
    split
    next hunknown =>
      obtain ⟨rfl, -⟩ := htouches
      exact htracks.unknown hunknown.1 hunknown.2
    next hknown => exact htracks.known hknown
  refine ⟨fun path hpath => ?_, fun path hpath => ?_, fun path hpath => ?_⟩
  · by_cases htouches : Touches environmentId change path
    · exact hbaseline path htouches
    · rw [baselineText_applyChange_of_not_touches _ _ _ htouches]
      exact htracks.baseline path (hpath.resolve_right htouches)
  · rw [currentText_applyChange]
    by_cases htouches : Touches environmentId change path
    · rw [redoIn, redoIn, if_pos htouches.1, if_pos htouches.1]
      exact redo_eq_of_mem htouches.2 _ _
    · rw [redoIn_of_not_touches htouches, redoIn_of_not_touches htouches]
      exact htracks.current path (hpath.resolve_right htouches)
  · have htouches : ¬ Touches environmentId change path := fun htouches => hpath (.inr htouches)
    rw [baselineText_applyChange_of_not_touches _ _ _ htouches, currentText_applyChange,
      redoIn_of_not_touches htouches, redoIn_of_not_touches htouches]
    exact htracks.untouched path fun hmem => hpath (.inl hmem)

/-- The paths that a list of changes names. -/
def touchedBy (environmentId : Text) (changes : List (AppliedPatchChange FilePath)) :
    Set TrackedPath :=
  {path | ∃ change ∈ changes, Touches environmentId change path}

include htracks in
theorem Tracks.applyChanges {changes : List (AppliedPatchChange FilePath)}
    (hconsistent : AllConsistent environmentId files changes) :
    (tracker.applyChanges environmentId changes).Tracks initial
      (changes.foldl (redoIn environmentId) files)
      (touched ∪ touchedBy environmentId changes) := by
  induction changes generalizing tracker files touched with
  | nil =>
    have htouched : touched ∪ touchedBy environmentId [] = touched := by simp [touchedBy]
    rw [htouched]
    exact htracks
  | cons change changes ih =>
    have hnext := ih (htracks.applyChange hconsistent.1) hconsistent.2
    have htouched : touched ∪ touchedBy environmentId (change :: changes) =
        touched ∪ {path | Touches environmentId change path} ∪
          touchedBy environmentId changes := by
      ext path
      simp [touchedBy, or_assoc]
    rw [htouched]
    exact hnext

end TurnDiffTracker

end Hexa.TurnDiff
