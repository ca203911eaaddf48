/-
When a turn has no diff.  Revisions stand for texts, so a cached rendering is
the one of the texts that are there now; what is left is the pairing of the
paths that were renamed.
-/
import Hexa.Lib.Runs
import Hexa.TurnDiff.TrackedFiles

namespace Hexa.TurnDiff

open List ApplyPatch AList Function

section

variable {Item : Type} [DecidableEq Item] {items : List Item}

/-- Taking out adjacent repetitions keeps every member. -/
theorem mem_destutter'_ne {item head : Item} :
    item ∈ items.destutter' (· ≠ ·) head ↔ item = head ∨ item ∈ items := by
  induction items generalizing head with
  | nil => simp
  | cons next items ih =>
    rw [destutter'_cons]
    split
    · rw [mem_cons, mem_cons, ih]
    next hsame =>
      obtain rfl := not_not.mp hsame
      rw [mem_cons, ih]
      tauto

theorem mem_destutter_ne {item : Item} : item ∈ items.destutter (· ≠ ·) ↔ item ∈ items := by
  cases items with
  | nil => rfl
  | cons head items => rw [destutter_cons', mem_destutter'_ne, mem_cons]

end

namespace TurnDiffTracker

section Stamps

/-- A cached rendering is of the texts that its revisions stand for: there is
none exactly if they are the same, and none is empty. -/
structure CacheEntry (text : Nat → Text) (nextRevision : Nat)
    (key : DiffCacheKey) (value : Option Text) : Prop where
  left_lt : ∀ revision ∈ key.leftRevision, revision < nextRevision
  right_lt : ∀ revision ∈ key.rightRevision, revision < nextRevision
  none_iff : value = none ↔ key.leftRevision.map text = key.rightRevision.map text
  ne_empty : value ≠ some []

variable (tracker : TurnDiffTracker)

def Holds (content : TrackedContent) : Prop :=
  ∃ path, tracker.baselineByPath.lookup path = some content ∨
    tracker.currentByPath.lookup path = some content

/-- Every revision given out so far stands for one text. -/
structure Stamped (text : Nat → Text) : Prop where
  known : ∀ content, tracker.Holds content →
    content.revision < tracker.nextRevision ∧ text content.revision = content.content
  cached : ∀ key value, tracker.renderedDiffs.lookup key = some value →
    CacheEntry text tracker.nextRevision key value

variable {tracker} {text : Nat → Text}

theorem CacheEntry.update {nextRevision : Nat} {key : DiffCacheKey} {value : Option Text}
    (hentry : CacheEntry text nextRevision key value) (content : Text) :
    CacheEntry (Function.update text nextRevision content) (nextRevision + 1) key value where
  left_lt revision hrevision := Nat.lt_succ_of_lt (hentry.left_lt revision hrevision)
  right_lt revision hrevision := Nat.lt_succ_of_lt (hentry.right_lt revision hrevision)
  none_iff := by
    have hsame (known : Option Nat)
        (hlt : ∀ revision ∈ known, revision < nextRevision) :
        known.map (Function.update text nextRevision content) = known.map text := by
      refine Option.map_congr fun revision hrevision => ?_
      exact update_of_ne (Nat.ne_of_lt (hlt revision hrevision)) _ _
    rw [hsame _ hentry.left_lt, hsame _ hentry.right_lt]
    exact hentry.none_iff
  ne_empty := hentry.ne_empty

/-- Nothing new is held. -/
theorem Stamped.of_subset {second : TurnDiffTracker} (hstamped : tracker.Stamped text)
    (hnext : second.nextRevision = tracker.nextRevision)
    (hcache : second.renderedDiffs = tracker.renderedDiffs)
    (hholds : ∀ content, second.Holds content → tracker.Holds content) :
    second.Stamped text where
  known content hcontent := by
    rw [hnext]
    exact hstamped.known content (hholds content hcontent)
  cached := by
    rw [hnext, hcache]
    exact hstamped.cached

/-- A text is held under a revision of its own. -/
theorem Stamped.of_fresh {second : TurnDiffTracker} {content : Text}
    (hstamped : tracker.Stamped text) (hnext : second.nextRevision = tracker.nextRevision + 1)
    (hcache : second.renderedDiffs = tracker.renderedDiffs)
    (hholds : ∀ held, second.Holds held → tracker.Holds held ∨
      held = ⟨content, tracker.nextRevision⟩) :
    second.Stamped (Function.update text tracker.nextRevision content) where
  known held hheld := by
    rw [hnext]
    rcases hholds held hheld with hold | rfl
    · obtain ⟨hlt, htext⟩ := hstamped.known held hold
      refine ⟨Nat.lt_succ_of_lt hlt, ?_⟩
      rw [update_of_ne (Nat.ne_of_lt hlt), htext]
    · exact ⟨Nat.lt_succ_self _, update_self _ _ _⟩
  cached key value hvalue := by
    rw [hcache] at hvalue
    rw [hnext]
    exact (hstamped.cached key value hvalue).update content

theorem lookup_insert_cases {Key Value : Type} [DecidableEq Key] {table : KeyedTable Key Value}
    {key other : Key} {value found : Value}
    (hfound : (table.insert key value).lookup other = some found) :
    table.lookup other = some found ∨ found = value := by
  by_cases hkey : other = key
  · rw [hkey, lookup_insert] at hfound
    exact .inr (Option.some.inj hfound).symm
  · rw [lookup_insert_ne hkey] at hfound
    exact .inl hfound

section

variable (hstamped : tracker.Stamped text)
include hstamped

variable (path : TrackedPath)

theorem Stamped.recordBaseline (content : Option Text) :
    ∃ text, (tracker.recordBaseline path content).Stamped text := by
  cases content with
  | none => exact ⟨text, hstamped⟩
  | some content =>
    rw [TurnDiffTracker.recordBaseline]
    split
    · refine ⟨_, @Stamped.of_fresh _ _ _ content hstamped rfl rfl ?_⟩
      rintro held ⟨other, hbaseline | hcurrent⟩
      · rcases lookup_insert_cases hbaseline with hold | hnew
        · exact .inl ⟨other, .inl hold⟩
        · exact .inr hnew
      · exact .inl ⟨other, .inr hcurrent⟩
    · exact ⟨text, hstamped⟩

theorem Stamped.setCurrent (content : Text) :
    ∃ text, (tracker.setCurrent path content).Stamped text := by
  refine ⟨_, @Stamped.of_fresh _ _ _ content hstamped rfl rfl ?_⟩
  rintro held ⟨other, hbaseline | hcurrent⟩
  · exact .inl ⟨other, .inl hbaseline⟩
  · rcases lookup_insert_cases hcurrent with hold | hnew
    · exact .inl ⟨other, .inr hold⟩
    · exact .inr hnew

theorem Stamped.removeCurrent : (tracker.removeCurrent path).Stamped text := by
  refine hstamped.of_subset rfl rfl ?_
  rintro held ⟨other, hbaseline | hcurrent⟩
  · exact ⟨other, .inl hbaseline⟩
  · exact ⟨other, .inr (KeyedTable.lookup_of_lookup_erase hcurrent).2⟩

theorem Stamped.removeOrigin : (tracker.removeOrigin path).Stamped text :=
  hstamped.of_subset rfl rfl fun _ hheld => hheld

theorem Stamped.setOrigin (path origin : TrackedPath) :
    (tracker.setOrigin path origin).Stamped text :=
  hstamped.of_subset rfl rfl fun _ hheld => hheld

theorem Stamped.moveCurrent (source destination : TrackedPath) (content : Text) :
    ∃ text, (tracker.moveCurrent source destination content).Stamped text := by
  obtain ⟨text, hmoved⟩ := Stamped.setCurrent
    ((hstamped.removeOrigin source).removeCurrent source) destination content
  rw [TurnDiffTracker.moveCurrent]
  split
  · exact ⟨text, (hmoved.removeOrigin _).setOrigin _ _⟩
  · exact ⟨text, hmoved.removeOrigin _⟩

theorem Stamped.applyChange (environmentId : Text) (change : AppliedPatchChange FilePath) :
    ∃ text, (tracker.applyChange environmentId change).Stamped text := by
  rw [TurnDiffTracker.applyChange]
  cases change.change with
  | add content overwritten =>
    obtain ⟨text, hrecorded⟩ := (hstamped.removeOrigin _).recordBaseline _ overwritten
    exact hrecorded.setCurrent _ content
  | delete content =>
    obtain ⟨text, hrecorded⟩ := hstamped.recordBaseline _ (some content)
    exact ⟨text, (hrecorded.removeCurrent _).removeOrigin _⟩
  | update movePath oldContent overwritten newContent =>
    obtain ⟨text, hrecorded⟩ := hstamped.recordBaseline _ (some oldContent)
    cases movePath with
    | none => exact hrecorded.setCurrent _ newContent
    | some destination =>
      obtain ⟨text, hboth⟩ := hrecorded.recordBaseline _ overwritten
      exact hboth.moveCurrent _ _ newContent

theorem Stamped.applyChanges (environmentId : Text)
    (changes : List (AppliedPatchChange FilePath)) :
    ∃ text, (tracker.applyChanges environmentId changes).Stamped text := by
  induction changes generalizing tracker text with
  | nil => exact ⟨text, hstamped⟩
  | cons change changes ih =>
    obtain ⟨text, hchanged⟩ := hstamped.applyChange environmentId change
    exact ih hchanged

end

end Stamps

section Refresh

variable {tracker : TurnDiffTracker} {text : Nat → Text} (crates : DiffCrates)

theorem renderDiff_spec (leftPath rightPath : TrackedPath)
    (leftContent rightContent : Option Text) :
    let rendered := tracker.renderDiff crates leftPath leftContent rightPath rightContent
    (rendered = none ↔ leftContent = rightContent) ∧ rendered ≠ some [] := by
  unfold renderDiff
  cases leftContent <;> cases rightContent <;> simp

theorem pushDiff_eq_nil_iff {aggregated : Text} {rendered : Option Text}
    (hrendered : rendered ≠ some []) :
    pushDiff aggregated rendered = [] ↔ aggregated = [] ∧ rendered = none := by
  cases rendered with
  | none => simp [pushDiff]
  | some diff =>
    have hdiff : diff ≠ [] := fun hdiff => hrendered (by rw [hdiff])
    rw [pushDiff]
    split <;> simp [hdiff]

/-- The revisions of a key stand for the texts that are compared. -/
theorem Stamped.map_text (hstamped : tracker.Stamped text) (leftPath rightPath : TrackedPath) :
    (tracker.cacheKey leftPath rightPath).leftRevision.map text = tracker.baselineText leftPath ∧
      (tracker.cacheKey leftPath rightPath).rightRevision.map text =
        tracker.currentText rightPath := by
  rw [cacheKey, Option.map_map, Option.map_map]
  refine ⟨Option.map_congr fun content hcontent => ?_,
    Option.map_congr fun content hcontent => ?_⟩
  · exact (hstamped.known content ⟨leftPath, .inl hcontent⟩).2
  · exact (hstamped.known content ⟨rightPath, .inr hcontent⟩).2

theorem Stamped.rendered (hstamped : tracker.Stamped text) (leftPath rightPath : TrackedPath) :
    CacheEntry text tracker.nextRevision (tracker.cacheKey leftPath rightPath)
      (tracker.renderDiff crates leftPath (tracker.baselineText leftPath)
        rightPath (tracker.currentText rightPath)) where
  left_lt revision hrevision := by
    obtain ⟨content, hcontent, rfl⟩ := Option.mem_map.mp hrevision
    exact (hstamped.known content ⟨leftPath, .inl hcontent⟩).1
  right_lt revision hrevision := by
    obtain ⟨content, hcontent, rfl⟩ := Option.mem_map.mp hrevision
    exact (hstamped.known content ⟨rightPath, .inr hcontent⟩).1
  none_iff := by
    obtain ⟨hleft, hright⟩ := hstamped.map_text leftPath rightPath
    rw [(renderDiff_spec crates _ _ _ _).1, hleft, hright]
  ne_empty := (renderDiff_spec crates _ _ _ _).2

variable (tracker text) (pairs : KeyedTable TrackedPath TrackedPath)

/-- The path needs no diff: it has what it had, or what it had is at the
destination that it is paired with. -/
def Undone (path : TrackedPath) : Prop :=
  tracker.baselineText path = tracker.currentText ((pairs.lookup path).getD path)

/-- No known path needs a diff; a destination is looked at with its origin. -/
def AllUndone : Prop :=
  ∀ path, path ∈ tracker.baselineByPath ∨ path ∈ tracker.currentByPath →
    (¬ ∃ origin, pairs.lookup origin = some path) → tracker.Undone pairs path

/-- What the loop knows after the paths in `seen`. -/
structure LoopInvariant (pairs : KeyedTable TrackedPath TrackedPath)
    (seen : List TrackedPath) (loop : RefreshLoop) : Prop where
  previous : ∀ key value, loop.previousDiffs.lookup key = some value →
    CacheEntry text tracker.nextRevision key value
  rendered : ∀ key value, loop.renderedDiffs.lookup key = some value →
    CacheEntry text tracker.nextRevision key value
  handled : ∀ path ∈ loop.handled, path ∈ seen ∨ ∃ origin, pairs.lookup origin = some path
  aggregated : loop.aggregated = [] ↔ ∀ path ∈ seen,
    (¬ ∃ origin, pairs.lookup origin = some path) → tracker.Undone pairs path

variable {tracker text} {pairs : KeyedTable TrackedPath TrackedPath} {seen : List TrackedPath}
  {loop : RefreshLoop} {path : TrackedPath}

theorem mem_values_iff :
    path ∈ pairs.entries.map Sigma.snd ↔ ∃ origin, pairs.lookup origin = some path := by
  rw [mem_map]
  constructor
  · rintro ⟨⟨origin, dest⟩, hentry, rfl⟩
    exact ⟨origin, mem_lookup_iff.mpr hentry⟩
  · rintro ⟨origin, hlookup⟩
    exact ⟨⟨origin, path⟩, mem_lookup_iff.mp hlookup, rfl⟩

section

variable (hloop : tracker.LoopInvariant text pairs seen loop)
include hloop

/-- A path that is passed over adds no diff. -/
theorem LoopInvariant.skip (hskip : path ∈ seen ∨ ∃ origin, pairs.lookup origin = some path)
    (handled : List TrackedPath)
    (hhandled : ∀ other ∈ handled, other = path ∨ other ∈ loop.handled) :
    tracker.LoopInvariant text pairs (seen ++ [path]) { loop with handled := handled } where
  previous := hloop.previous
  rendered := hloop.rendered
  handled other hother := by
    rw [mem_append, mem_singleton]
    rcases hhandled other hother with rfl | hold
    · exact .inl (.inr rfl)
    · exact (hloop.handled other hold).imp_left .inl
  aggregated := by
    rw [hloop.aggregated]
    refine ⟨fun hall other hother hdest => ?_, fun hall other hother =>
      hall other (mem_append_left _ hother)⟩
    rcases mem_append.mp hother with hold | hlast
    · exact hall other hold hdest
    · obtain rfl := mem_singleton.mp hlast
      exact hall other (hskip.resolve_right hdest) hdest

theorem LoopInvariant.diff (hstamped : tracker.Stamped text)
    (hdest : ¬ ∃ origin, pairs.lookup origin = some path) {right : TrackedPath}
    (hright : (pairs.lookup path).getD path = right)
    (handled : List TrackedPath) (hhandled : ∀ other ∈ handled, other = path ∨
      other ∈ loop.handled ∨ pairs.lookup path = some other) :
    tracker.LoopInvariant text pairs (seen ++ [path])
      (tracker.diffPaths crates path right { loop with handled := handled }) := by
  let key := tracker.cacheKey path right
  -- the rendering is of the present texts, whether it is cached or not
  have hentry : CacheEntry text tracker.nextRevision key
      ((loop.previousDiffs.lookup key).getD
        (tracker.renderDiff crates path (tracker.baselineText path) right
          (tracker.currentText right))) := by
    cases hcached : loop.previousDiffs.lookup key with
    | none => exact hstamped.rendered crates _ _
    | some value => exact hloop.previous _ value hcached
  refine ⟨fun key value hvalue => ?_, fun key value hvalue => ?_, fun other hother => ?_, ?_⟩
  · exact hloop.previous key value (KeyedTable.lookup_of_lookup_erase hvalue).2
  · by_cases hkey : key = tracker.cacheKey path right
    · rw [diffPaths, hkey, lookup_insert] at hvalue
      rw [hkey, ← Option.some.inj hvalue]
      exact hentry
    · rw [diffPaths, lookup_insert_ne hkey] at hvalue
      exact hloop.rendered key value hvalue
  · rw [mem_append, mem_singleton]
    rcases hhandled other hother with rfl | hold | hpair
    · exact .inl (.inr rfl)
    · exact (hloop.handled other hold).imp_left .inl
    · exact .inr ⟨path, hpair⟩
  · obtain ⟨hbefore, hafter⟩ := hstamped.map_text path right
    rw [diffPaths, pushDiff_eq_nil_iff hentry.ne_empty, hentry.none_iff,
      hbefore, hafter, hloop.aggregated, ← hright]
    constructor
    · rintro ⟨hall, hsame⟩ other hother hotherDest
      rcases mem_append.mp hother with hold | hlast
      · exact hall other hold hotherDest
      · obtain rfl := mem_singleton.mp hlast
        exact hsame
    · intro hall
      refine ⟨fun other hother => hall other (mem_append_left _ hother),
        hall path (mem_append_right _ mem_cons_self) hdest⟩

theorem LoopInvariant.refreshPath (hstamped : tracker.Stamped text) (path : TrackedPath) :
    tracker.LoopInvariant text pairs (seen ++ [path])
      (tracker.refreshPath crates pairs loop path) := by
  rw [TurnDiffTracker.refreshPath]
  split
  next hhandled =>
    exact hloop.skip (hloop.handled path hhandled) loop.handled fun other hother => .inr hother
  · split
    next hdest =>
      exact hloop.skip (.inr (mem_values_iff.mp hdest)) _ fun other hother => mem_cons.mp hother
    next hdest =>
      rw [mem_values_iff] at hdest
      split
      next dest hpair =>
        exact hloop.diff crates hstamped hdest (by rw [hpair]; rfl)
          (dest :: path :: loop.handled) (by grind)
      next hpair =>
        exact hloop.diff crates hstamped hdest (by rw [hpair]; rfl)
          (path :: loop.handled) (by grind)

theorem LoopInvariant.refreshPaths (hstamped : tracker.Stamped text) (paths : List TrackedPath) :
    tracker.LoopInvariant text pairs (seen ++ paths)
      (paths.foldl (tracker.refreshPath crates pairs) loop) := by
  induction paths generalizing seen loop with
  | nil =>
    rw [append_nil]
    exact hloop
  | cons path paths ih =>
    have hnext := ih (hloop.refreshPath crates hstamped path)
    rw [append_assoc] at hnext
    exact hnext

end

/-- A refresh leaves a cache for the texts that are there, and no diff exactly
if no known path needs one. -/
theorem Stamped.refreshUnifiedDiff (hstamped : tracker.Stamped text) {order : IterationOrder}
    (horder : tracker.Enumerates order) :
    (tracker.refreshUnifiedDiff crates order).Stamped text ∧
      ((tracker.refreshUnifiedDiff crates order).unifiedDiff = none ↔
        tracker.AllUndone (tracker.renamePairs order.origins)) := by
  have hstart : tracker.LoopInvariant text (tracker.renamePairs order.origins)
      [] { previousDiffs := tracker.renderedDiffs } :=
    ⟨hstamped.cached, nofun, nofun, by simp⟩
  have hloop := hstart.refreshPaths crates hstamped
    ((order.paths.insertionSort fun first second =>
      tracker.displayPath first ≤ tracker.displayPath second).destutter (· ≠ ·))
  refine ⟨⟨hstamped.known, hloop.rendered⟩, ?_⟩
  rw [TurnDiffTracker.refreshUnifiedDiff]
  simp only [ite_eq_left_iff, reduceCtorEq, imp_false, not_not]
  rw [hloop.aggregated]
  simp only [AllUndone, nil_append, mem_destutter_ne, mem_insertionSort,
    horder.paths.mem_iff, mem_append, AList.mem_keys]

end Refresh

section Origins

/-- A change of the turn. -/
structure TurnChange where
  environmentId : Text
  change : AppliedPatchChange FilePath

/-- Where the file at a path came from, followed back through the changes of
the turn, the latest first: to the source of a move, and not beyond the change
that put a new file there or left none. -/
def cameFrom : List TurnChange → TrackedPath → TrackedPath
  | [], path => path
  | made :: earlier, path =>
    if path.environmentId ≠ made.environmentId then cameFrom earlier path
    else
      match made.change.change with
      | .update none _ _ _ => cameFrom earlier path
      | .update (some destination) _ _ _ =>
        if path.path = destination then cameFrom earlier ⟨made.environmentId, made.change.path⟩
        else if path.path = made.change.path then path
        else cameFrom earlier path
      | _ => if path.path = made.change.path then path else cameFrom earlier path

variable (tracker : TurnDiffTracker)

def originOf (path : TrackedPath) : Option TrackedPath :=
  tracker.originByCurrentPath.lookup path

/-- The tracker has an origin for the files that were moved away from it. -/
def TracesMoves (made : List TurnChange) : Prop :=
  ∀ path, tracker.originOf path =
    if cameFrom made path = path then none else some (cameFrom made path)

variable (path : TrackedPath)

theorem originOf_removeOrigin :
    (tracker.removeOrigin path).originOf = update tracker.originOf path none := by
  funext other
  by_cases hpath : other = path
  · subst hpath
    simp [originOf, removeOrigin]
  · simp [originOf, removeOrigin, lookup_erase_ne hpath, hpath]

theorem originOf_setOrigin (origin : TrackedPath) :
    (tracker.setOrigin path origin).originOf = update tracker.originOf path (some origin) := by
  funext other
  by_cases hpath : other = path
  · subst hpath
    simp [originOf, setOrigin]
  · simp [originOf, setOrigin, lookup_insert_ne hpath, hpath]

theorem originOf_recordBaseline (content : Option Text) :
    (tracker.recordBaseline path content).originOf = tracker.originOf := by
  cases content with
  | none => rfl
  | some content =>
    rw [recordBaseline]
    split <;> rfl

theorem originOf_moveCurrent (source : TrackedPath) (content : Text) :
    (tracker.moveCurrent source path content).originOf =
      update (update tracker.originOf source none) path
        (if path ≠ (tracker.originOf source).getD source then
          some ((tracker.originOf source).getD source) else none) := by
  have hlookup : tracker.originByCurrentPath.lookup source = tracker.originOf source := rfl
  -- the current entries are set between the two removals
  have hmoved : (((((tracker.removeOrigin source).removeCurrent source).setCurrent
      path content).removeOrigin path)).originOf =
      update (update tracker.originOf source none) path none := by
    rw [originOf_removeOrigin]
    exact congrArg (fun origins => update origins path none) (originOf_removeOrigin _ _)
  simp only [moveCurrent, hlookup]
  split
  · rw [originOf_setOrigin, hmoved, update_idem]
  · rw [hmoved]

variable {tracker} {made : List TurnChange}

theorem TracesMoves.applyChange
    (htraces : tracker.TracesMoves made) (environmentId : Text)
    (change : AppliedPatchChange FilePath) :
    (tracker.applyChange environmentId change).TracesMoves (⟨environmentId, change⟩ :: made) := by
  have horigin : ∀ path, (tracker.originOf path).getD path = cameFrom made path := by
    intro path
    rw [htraces path]
    split <;> simp_all
  rintro ⟨otherId, other⟩
  have hother := htraces ⟨otherId, other⟩
  obtain ⟨source, ⟨content, overwritten⟩ | content |
    ⟨_ | destination, old, overwritten, new⟩⟩ := change
  · have hremoved : (tracker.applyChange environmentId
        ⟨source, .add content overwritten⟩).originOf =
        update tracker.originOf ⟨environmentId, source⟩ none := by
      rw [← originOf_removeOrigin]
      exact originOf_recordBaseline _ _ _
    rw [hremoved, update_apply]
    grind [cameFrom]
  · have hremoved : (tracker.applyChange environmentId ⟨source, .delete content⟩).originOf =
        update tracker.originOf ⟨environmentId, source⟩ none := by
      refine (originOf_removeOrigin _ _).trans ?_
      exact congrArg (fun origins : TrackedPath → Option TrackedPath => update origins _ none)
        (originOf_recordBaseline _ _ _)
    rw [hremoved, update_apply]
    grind [cameFrom]
  · have hkept : (tracker.applyChange environmentId
        ⟨source, .update none old overwritten new⟩).originOf = tracker.originOf :=
      originOf_recordBaseline _ _ _
    rw [hkept]
    grind [cameFrom]
  · have hmoved : (tracker.applyChange environmentId
        ⟨source, .update (some destination) old overwritten new⟩).originOf =
        update (update tracker.originOf ⟨environmentId, source⟩ none) ⟨environmentId, destination⟩
          (if ⟨environmentId, destination⟩ ≠ cameFrom made ⟨environmentId, source⟩ then
            some (cameFrom made ⟨environmentId, source⟩) else none) := by
      refine (originOf_moveCurrent _ _ _ _).trans ?_
      rw [originOf_recordBaseline, originOf_recordBaseline, horigin]
    rw [hmoved, update_apply, update_apply]
    grind [cameFrom]

/-- The changes of a delta before those of the turn so far, the latest first. -/
def madeBy (environmentId : Text) (changes : List (AppliedPatchChange FilePath)) :
    List TurnChange :=
  (changes.map (TurnChange.mk environmentId)).reverse

theorem TracesMoves.applyChanges (htraces : tracker.TracesMoves made) (environmentId : Text)
    (changes : List (AppliedPatchChange FilePath)) :
    (tracker.applyChanges environmentId changes).TracesMoves
      (madeBy environmentId changes ++ made) := by
  induction changes generalizing tracker made with
  | nil => exact htraces
  | cons change changes ih =>
    have hnext := ih (htraces.applyChange environmentId change)
    rw [madeBy, map_cons, reverse_cons, append_assoc]
    exact hnext

end Origins
section Renames

variable (made : List TurnChange) (initial files : TurnFiles)

/-- A rename of the turn: the file at the destination, where none was, came
from the origin, where it was at the start and none is now. -/
structure Renamed (origin destination : TrackedPath) : Prop where
  came : cameFrom made destination = origin
  initial_origin : initial origin ≠ none
  files_origin : files origin = none
  initial_destination : initial destination = none
  files_destination : files destination ≠ none

/-- The only rename of its origin. -/
def RenamedOnly (origin destination : TrackedPath) : Prop :=
  Renamed made initial files origin destination ∧
    ∀ other, Renamed made initial files origin other → other = destination

/-- The path has its initial content or non-existence back, or it is one end of
the only rename of its origin, whose content is at the destination. -/
def Back (path : TrackedPath) : Prop :=
  files path = initial path ∨
    (∃ destination, RenamedOnly made initial files path destination ∧
      files destination = initial path) ∨
    ∃ origin, RenamedOnly made initial files origin path ∧ files path = initial origin

/-- The pairs keep one rename of every origin. -/
structure KeepsOne (pairs : KeyedTable TrackedPath TrackedPath) : Prop where
  renamed : ∀ {origin destination},
    pairs.lookup origin = some destination → Renamed made initial files origin destination
  lookup : ∀ {origin destination}, Renamed made initial files origin destination →
    ∃ kept, pairs.lookup origin = some kept

variable {made initial files} {tracker : TurnDiffTracker} {order : IterationOrder}
  {origin destination path : TrackedPath} {touched : Set TrackedPath}

theorem Renamed.gone (hrenamed : Renamed made initial files origin destination) :
    files origin ≠ initial origin := by
  rw [hrenamed.files_origin]
  exact hrenamed.initial_origin.symm

theorem Renamed.arrived (hrenamed : Renamed made initial files origin destination) :
    files destination ≠ initial destination := by
  rw [hrenamed.initial_destination]
  exact hrenamed.files_destination

section

variable (htracks : tracker.Tracks initial files touched)
include htracks

theorem Tracks.mem_touched
    (hknown : path ∈ tracker.baselineByPath ∨ path ∈ tracker.currentByPath) : path ∈ touched := by
  by_contra hpath
  obtain ⟨hbaseline, hcurrent, -⟩ := htracks.untouched path hpath
  rw [← notMem_baseline_iff] at hbaseline
  rw [← notMem_current_iff] at hcurrent
  exact hknown.elim hbaseline hcurrent

theorem Tracks.touched_of_ne (hne : files path ≠ initial path) : path ∈ touched := by
  by_contra hpath
  exact hne (htracks.untouched path hpath).2.2

theorem Tracks.known_of_ne (hne : files path ≠ initial path) :
    path ∈ tracker.baselineByPath ∨ path ∈ tracker.currentByPath := by
  have hpath := htracks.touched_of_ne hne
  by_contra hunknown
  obtain ⟨hbaseline, hcurrent⟩ := not_or.mp hunknown
  rw [notMem_baseline_iff, htracks.baseline path hpath] at hbaseline
  rw [notMem_current_iff, htracks.current path hpath] at hcurrent
  exact hne (hcurrent.trans hbaseline.symm)

/-- The pairing test of the tracker, seen in the files. -/
theorem Tracks.isRename_iff :
    tracker.IsRename destination origin ↔ initial origin ≠ none ∧ files origin = none ∧
      initial destination = none ∧ files destination ≠ none := by
  constructor
  · rintro ⟨-, horigin, hdestination, hbaseline, habsent⟩
    have hfirst := htracks.mem_touched (.inl hbaseline)
    have hsecond := htracks.mem_touched (.inr hdestination)
    rw [← htracks.baseline _ hfirst, ← htracks.current _ hfirst, ← htracks.baseline _ hsecond,
      ← htracks.current _ hsecond, ← notMem_current_iff, ← notMem_baseline_iff]
    exact ⟨fun hnone => (notMem_baseline_iff _ _).mpr hnone hbaseline, horigin, habsent,
      fun hnone => (notMem_current_iff _ _).mpr hnone hdestination⟩
  · rintro ⟨hinitial, hfiles, habsent, hpresent⟩
    have hfirst : origin ∈ touched := htracks.touched_of_ne (by rw [hfiles]; exact hinitial.symm)
    have hsecond : destination ∈ touched := htracks.touched_of_ne (by rwa [habsent])
    rw [← htracks.baseline _ hfirst] at hinitial
    rw [← htracks.current _ hfirst, ← notMem_current_iff] at hfiles
    rw [← htracks.baseline _ hsecond] at habsent
    rw [← htracks.current _ hsecond] at hpresent
    refine ⟨?_, hfiles, ?_, ?_, (notMem_baseline_iff _ _).mpr habsent⟩
    · rintro rfl
      exact hinitial habsent
    · by_contra hmissing
      exact hpresent ((notMem_current_iff _ _).mp hmissing)
    · by_contra hmissing
      exact hinitial ((notMem_baseline_iff _ _).mp hmissing)

theorem mem_renames_iff (htraces : tracker.TracesMoves made) (horder : tracker.Enumerates order) :
    (origin, destination) ∈ (order.origins.filterMap fun entry =>
      if tracker.IsRename entry.1 entry.2 then some (entry.2, entry.1)
      else none) ↔ Renamed made initial files origin destination := by
  have hlookup : tracker.originOf destination = some origin ↔
      cameFrom made destination = origin ∧ origin ≠ destination := by
    rw [htraces destination]
    grind
  simp only [mem_filterMap, Option.ite_none_right_eq_some,
    Option.some.injEq, Prod.mk.injEq, horder.origins.mem_iff, mem_map]
  constructor
  · rintro ⟨_, ⟨entry, hentry, rfl⟩, hrename, rfl, rfl⟩
    obtain ⟨hinitial, hfiles, habsent, hpresent⟩ := htracks.isRename_iff.mp hrename
    exact ⟨(hlookup.mp (mem_lookup_iff.mpr hentry)).1, hinitial, hfiles, habsent, hpresent⟩
  · rintro ⟨hcame, hinitial, hfiles, habsent, hpresent⟩
    have hother : origin ≠ destination := by
      rintro rfl
      exact hinitial habsent
    exact ⟨_, ⟨_, mem_lookup_iff.mp (hlookup.mpr ⟨hcame, hother⟩), rfl⟩,
      htracks.isRename_iff.mpr ⟨hinitial, hfiles, habsent, hpresent⟩, rfl, rfl⟩

theorem keepsOne_renamePairs (htraces : tracker.TracesMoves made)
    (horder : tracker.Enumerates order) :
    KeepsOne made initial files (tracker.renamePairs order.origins) where
  renamed hpair :=
    (mem_renames_iff htracks htraces horder).mp (KeyedTable.mem_of_lookup_collect hpair)
  lookup hrenamed :=
    KeyedTable.exists_lookup_collect ((mem_renames_iff htracks htraces horder).mpr hrenamed)

variable {pairs : KeyedTable TrackedPath TrackedPath}
  (hpairs : KeepsOne made initial files pairs)
include hpairs

omit htracks in
theorem lookup_eq_none_of_initial (hinitial : initial path = none) :
    pairs.lookup path = none := by
  cases hpair : pairs.lookup path with
  | none => rfl
  | some destination => exact absurd hinitial (hpairs.renamed hpair).initial_origin

/-- Without a diff the kept destination of an origin is its only one: another
one would be a new file, with a diff of its own. -/
theorem renamedOnly_of_allUndone (hall : tracker.AllUndone pairs)
    (hpair : pairs.lookup origin = some destination) :
    RenamedOnly made initial files origin destination ∧ files destination = initial origin := by
  have hrenamed := hpairs.renamed hpair
  refine ⟨⟨hrenamed, fun other hother => ?_⟩, ?_⟩
  · have hmem := htracks.touched_of_ne hother.arrived
    by_contra hne
    have hnot : ¬ ∃ source, pairs.lookup source = some other := by
      rintro ⟨source, hsource⟩
      obtain rfl := (hpairs.renamed hsource).came.symm.trans hother.came
      exact hne (Option.some.inj (hsource.symm.trans hpair))
    have hundone := hall other (htracks.known_of_ne hother.arrived) hnot
    rw [Undone, lookup_eq_none_of_initial hpairs hother.initial_destination, Option.getD_none,
      htracks.baseline _ hmem, htracks.current _ hmem] at hundone
    exact hother.arrived hundone.symm
  · have hnot : ¬ ∃ source, pairs.lookup source = some origin := by
      rintro ⟨source, hsource⟩
      exact hrenamed.initial_origin (hpairs.renamed hsource).initial_destination
    have hundone := hall origin (htracks.known_of_ne hrenamed.gone) hnot
    rw [Undone, hpair, Option.getD_some, htracks.baseline _ (htracks.touched_of_ne hrenamed.gone),
      htracks.current _ (htracks.touched_of_ne hrenamed.arrived)] at hundone
    exact hundone.symm

/-- The kept pairs have no diff exactly if every touched path is back, whatever
order the maps were gone through in. -/
theorem allUndone_iff_back :
    tracker.AllUndone pairs ↔ ∀ path ∈ touched, Back made initial files path := by
  constructor
  · intro hall path hpath
    by_cases hsame : files path = initial path
    · exact .inl hsame
    · have hknown := htracks.known_of_ne hsame
      by_cases hdest : ∃ origin, pairs.lookup origin = some path
      · obtain ⟨origin, hpair⟩ := hdest
        exact .inr (.inr ⟨origin, renamedOnly_of_allUndone htracks hpairs hall hpair⟩)
      · cases hpair : pairs.lookup path with
    | some destination =>
      exact .inr (.inl ⟨destination, renamedOnly_of_allUndone htracks hpairs hall hpair⟩)
    | none =>
      have hundone := hall path hknown hdest
      rw [Undone, hpair, Option.getD_none, htracks.baseline _ hpath,
        htracks.current _ hpath] at hundone
      exact absurd hundone.symm hsame
  · intro hback path hknown hdest
    have hpath := htracks.mem_touched hknown
    cases hpair : pairs.lookup path with
    | some destination =>
      have hrenamed := hpairs.renamed hpair
      rw [Undone, hpair, Option.getD_some, htracks.baseline _ hpath,
        htracks.current _ (htracks.touched_of_ne hrenamed.arrived)]
      rcases hback path hpath with hsame | ⟨other, honly, hcontent⟩ | ⟨source, honly, -⟩
      · exact absurd (hsame.symm.trans hrenamed.files_origin) hrenamed.initial_origin
      · rw [honly.2 destination hrenamed]
        exact hcontent.symm
      · exact absurd honly.1.initial_destination hrenamed.initial_origin
    | none =>
      rw [Undone, hpair, Option.getD_none, htracks.baseline _ hpath, htracks.current _ hpath]
      rcases hback path hpath with hsame | ⟨other, honly, -⟩ | ⟨source, honly, -⟩
      · exact hsame.symm
      · obtain ⟨kept, hkept⟩ := hpairs.lookup honly.1
        rw [hpair] at hkept
        cases hkept
      · obtain ⟨kept, hkept⟩ := hpairs.lookup honly.1
        have hkeptPath := honly.2 kept (hpairs.renamed hkept)
        rw [hkeptPath] at hkept
        exact absurd ⟨source, hkept⟩ hdest

end

end Renames

end TurnDiffTracker

end Hexa.TurnDiff
