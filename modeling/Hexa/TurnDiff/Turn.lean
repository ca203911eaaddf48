/-
A turn: exact deltas, one after another, each consistent with the files that
the ones before it left.
-/
import Hexa.TurnDiff.NetDiff

namespace Hexa.TurnDiff

open ApplyPatch TurnDiffTracker

structure TurnState where
  tracker : TurnDiffTracker
  files : TurnFiles

/-- A delta that is tracked, what the crates answer meanwhile, and the order
that the maps are gone through in. -/
structure TurnAction where
  environmentId : Text
  delta : AppliedPatchDelta FilePath
  crates : DiffCrates
  order : IterationOrder

namespace TurnState

structure Step (first : TurnState) (action : TurnAction) (second : TurnState) :
    Prop where
  exact : action.delta.exact = true
  consistent : AllConsistent action.environmentId first.files action.delta.changes
  order : (first.tracker.applyChanges action.environmentId
    action.delta.changes).Enumerates action.order
  tracker : second.tracker = first.tracker.trackDelta action.crates
    action.order action.environmentId action.delta
  files : second.files = action.delta.changes.foldl (redoIn action.environmentId) first.files

variable (displayRoots : List (Text × FilePath))

/-- The start of a turn. -/
def start (initial : TurnFiles) : TurnState :=
  ⟨TurnDiffTracker.withEnvironmentDisplayRoots displayRoots, initial⟩

/-- The paths that the deltas of a turn have changed. -/
def touchedIn (actions : List TurnAction) : Set TrackedPath :=
  {path | ∃ action ∈ actions, path ∈ TurnDiffTracker.touchedBy
    action.environmentId action.delta.changes}

/-- The changes of a turn, the latest first. -/
def madeIn (actions : List TurnAction) : List TurnChange :=
  (actions.reverse.map fun action => madeBy action.environmentId action.delta.changes).flatten

/-- What holds between two deltas. -/
structure Tracked (initial : TurnFiles) (touched : Set TrackedPath) (made : List TurnChange)
    (state : TurnState) : Prop where
  valid : state.tracker.valid = true
  tracks : state.tracker.Tracks initial state.files touched
  traces : state.tracker.TracesMoves made
  stamped : ∃ text, state.tracker.Stamped text
  diff : state.tracker.unifiedDiff = none ↔
    ∀ path ∈ touched, Back made initial state.files path

theorem start_tracked (initial : TurnFiles) :
    Tracked initial ∅ [] (start displayRoots initial) where
  valid := rfl
  tracks := ⟨fun _ hpath => hpath.elim, fun _ hpath => hpath.elim, fun _ _ => ⟨rfl, rfl, rfl⟩⟩
  traces _ := (if_pos rfl).symm
  stamped := by
    refine ⟨fun _ => [], ⟨?_, nofun⟩⟩
    rintro _ ⟨_, hbaseline | hcurrent⟩
    · cases hbaseline
    · cases hcurrent
  diff := ⟨fun _ _ hpath => hpath.elim, fun _ => rfl⟩

variable {initial : TurnFiles} {touched : Set TrackedPath} {made : List TurnChange}
  {first second : TurnState} {action : TurnAction}

theorem Tracked.step (htracked : Tracked initial touched made first)
    (hstep : Step first action second) :
    Tracked initial (touched ∪ touchedBy action.environmentId action.delta.changes)
      (madeBy action.environmentId action.delta.changes ++ made) second := by
  obtain ⟨text, hstamped⟩ := htracked.stamped
  obtain ⟨text, hchanged⟩ := hstamped.applyChanges action.environmentId action.delta.changes
  have htracks := htracked.tracks.applyChanges hstep.consistent
  have htraces := htracked.traces.applyChanges action.environmentId action.delta.changes
  have hrefreshed := hchanged.refreshUnifiedDiff action.crates hstep.order
  have htracker : second.tracker =
      (first.tracker.applyChanges action.environmentId
        action.delta.changes).refreshUnifiedDiff action.crates action.order := by
    rw [hstep.tracker, trackDelta, htracked.valid, hstep.exact]
    rfl
  obtain ⟨tracker, files⟩ := second
  obtain rfl := htracker
  obtain rfl := hstep.files
  refine ⟨?_, ⟨htracks.baseline, htracks.current, htracks.untouched⟩, htraces,
    ⟨text, hrefreshed.1⟩, ?_⟩
  · exact (valid_applyChanges _ _ _).trans htracked.valid
  · rw [hrefreshed.2,
      allUndone_iff_back htracks (keepsOne_renamePairs htracks htraces hstep.order)]

theorem touchedIn_cons (action : TurnAction) (actions : List TurnAction) :
    touchedIn (action :: actions) = touchedBy
      action.environmentId action.delta.changes ∪ touchedIn actions := by
  ext path
  simp [touchedIn]

theorem madeIn_cons (action : TurnAction) (actions : List TurnAction) :
    madeIn (action :: actions) =
      madeIn actions ++ madeBy action.environmentId action.delta.changes := by
  simp [madeIn]

theorem Tracked.run {last : TurnState} {actions : List TurnAction}
    (htracked : Tracked initial touched made first) (hrun : Run Step first actions last) :
    Tracked initial (touched ∪ touchedIn actions) (madeIn actions ++ made) last := by
  induction hrun generalizing touched made with
  | nil state =>
    have htouched : touched ∪ touchedIn [] = touched := by simp [touchedIn]
    rw [htouched]
    exact htracked
  | cons hstep hrest ih =>
    rw [touchedIn_cons, ← Set.union_assoc, madeIn_cons, List.append_assoc]
    exact ih (htracked.step hstep)

/-- After every delta the tracker has the initial and the present content of
every touched path, and there is no diff exactly if all of them are back, a
rename that kept its content aside. -/
theorem turn_diff_tracks (displayRoots : List (Text × FilePath)) (initial : TurnFiles)
    (actions : List TurnAction) (last : TurnState)
    (hrun : Run Step (start displayRoots initial) actions last) :
    (∀ path ∈ touchedIn actions, last.tracker.baselineText path = initial path ∧
        last.tracker.currentText path = last.files path) ∧
      (last.tracker.getUnifiedDiff = none ↔ ∀ path ∈ touchedIn actions,
        Back (madeIn actions) initial last.files path) := by
  have htracked := (start_tracked displayRoots initial).run hrun
  rw [Set.empty_union, List.append_nil] at htracked
  refine ⟨fun path hpath => ⟨?_, ?_⟩, htracked.diff⟩
  · exact htracked.tracks.baseline path hpath
  · exact htracked.tracks.current path hpath

section

/-- Crates for runs that need no rendering. -/
private def idleCrates : DiffCrates where
  sha1 := id
  diffLines _ _ _ _ _ := []

private def oldPlace : TrackedPath := ⟨[], ["old".toList]⟩

private def newPlace : TrackedPath := ⟨[], ["new".toList]⟩

private def beforeRename : TurnFiles :=
  Function.update (fun _ => none) oldPlace (some "same".toList)

/-- The file is moved, its content unchanged. -/
private def renameAction : TurnAction where
  environmentId := []
  delta := ⟨[⟨oldPlace.path, .update (some newPlace.path) "same".toList none
    "same".toList⟩], true⟩
  crates := idleCrates
  order := ⟨[(newPlace, oldPlace)], [oldPlace, newPlace]⟩

private def afterRename : TurnState where
  tracker := (start [] beforeRename).tracker.trackDelta renameAction.crates
    renameAction.order renameAction.environmentId renameAction.delta
  files := renameAction.delta.changes.foldl (redoIn renameAction.environmentId) beforeRename

private theorem rename_run : Run Step (start [] beforeRename) [renameAction] afterRename := by
  refine Run.single ⟨rfl, ⟨?_, trivial⟩, ⟨?_, ?_⟩, rfl, rfl⟩
  · funext path
    by_cases hold : path = oldPlace.path
    · subst hold
      rfl
    · by_cases hnew : path = newPlace.path
      · subst hnew
        rfl
      · simp [placeJournal, textJournal, setText, hold, hnew]
  · decide
  · decide

private theorem rename_unifiedDiff : afterRename.tracker.getUnifiedDiff = none := by
  decide

theorem turn_diff_tracks_rename :
    Run Step (start [] beforeRename) [renameAction] afterRename ∧
      ∀ path ∈ touchedIn [renameAction],
        Back (madeIn [renameAction]) beforeRename afterRename.files path :=
  ⟨rename_run, (turn_diff_tracks _ _ _ _ rename_run).2.mp rename_unifiedDiff⟩

/-- A rename has no diff although the old path is gone. -/
theorem no_diff_after_rename :
    ¬ ∀ displayRoots initial actions last,
      Run Step (start displayRoots initial) actions last →
      (last.tracker.getUnifiedDiff = none ↔
        ∀ path ∈ touchedIn actions, last.files path = initial path) := by
  intro hall
  have hback := (hall _ _ _ _ rename_run).mp rename_unifiedDiff oldPlace
    ⟨renameAction, List.mem_cons_self, _, List.mem_cons_self, rfl, List.mem_cons_self⟩
  cases hback

end

end TurnState

end Hexa.TurnDiff
