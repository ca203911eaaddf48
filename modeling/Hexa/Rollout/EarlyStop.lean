/-
What the scan loses by stopping early: nothing but the number of a context
window that only an older segment knows.
-/
import Hexa.Rollout.ReverseScan

namespace Hexa.Rollout

open List ReplayMetadata Option

variable (segments : List ActiveReplaySegment)

section

theorem foldl_or_eq_findSome? {Known Segment : Type} (given : Segment → Option Known)
    (known : Option Known) (segments : List Segment) :
    segments.foldl (fun known segment => known.or (given segment)) known =
      known.or (segments.findSome? given) := by
  induction segments generalizing known with
  | nil => simp
  | cons segment segments ih =>
    rw [foldl_cons, ih, findSome?_cons, Option.or_assoc]
    cases given segment <;> rfl

/-- The window of the newest segment that has one. -/
def newestWindow : Option ReconstructedWindow := segments.findSome? ActiveReplaySegment.window

theorem newestWindow_append (newer older : List ActiveReplaySegment) :
    newestWindow (newer ++ older) = (newestWindow newer).or (newestWindow older) :=
  findSome?_append

variable (known : ReplayMetadata) (segments : List ActiveReplaySegment)

theorem window_foldl_absorb :
    (segments.foldl absorb known).window = known.window.or (newestWindow segments) := by
  rw [newestWindow, ← foldl_or_eq_findSome?]
  exact (foldl_hom window (fun _ _ => rfl)).symm

theorem baseCompaction_foldl_absorb :
    (segments.foldl absorb known).baseCompaction =
      known.baseCompaction.or (segments.findSome? ActiveReplaySegment.baseCompaction) := by
  rw [← foldl_or_eq_findSome?]
  exact (foldl_hom baseCompaction (fun _ _ => rfl)).symm

theorem previousTurnSettings_foldl_absorb :
    (segments.foldl absorb known).previousTurnSettings =
      known.previousTurnSettings.or (segments.findSome? ActiveReplaySegment.givenSettings) := by
  rw [← foldl_or_eq_findSome?]
  exact (foldl_hom previousTurnSettings (fun _ _ => rfl)).symm

theorem worldStateReplay_foldl_absorb :
    (segments.foldl absorb known).worldStateReplay =
      known.worldStateReplay ++ segments.flatMap ActiveReplaySegment.worldStateReplay := by
  induction segments generalizing known with
  | nil => simp
  | cons segment segments ih => rw [foldl_cons, ih, absorb, flatMap_cons, append_assoc]

theorem TurnReferenceContextItem.or_eq_neverSet {first second : TurnReferenceContextItem} :
    first.or second = .neverSet ↔ first = .neverSet ∧ second = .neverSet := by
  cases first <;> simp [TurnReferenceContextItem.or]

theorem referenceContextItem_foldl_absorb_eq_neverSet :
    (segments.foldl absorb known).referenceContextItem = .neverSet ↔
      known.referenceContextItem = .neverSet ∧
        ∀ segment ∈ segments, segment.givenReference = .neverSet := by
  induction segments generalizing known with
  | nil => simp
  | cons segment segments ih =>
    rw [foldl_cons, ih, forall_mem_cons, absorb,
      TurnReferenceContextItem.or_eq_neverSet, and_assoc]

variable {known}

theorem referenceContextItem_foldl_absorb_of_ne
    (hknown : known.referenceContextItem ≠ .neverSet) :
    (segments.foldl absorb known).referenceContextItem = known.referenceContextItem := by
  induction segments generalizing known with
  | nil => rfl
  | cons segment segments ih =>
    have habsorb : (known.absorb segment).referenceContextItem = known.referenceContextItem := by
      rw [absorb]
      cases hreference : known.referenceContextItem with
      | neverSet => exact absurd hreference hknown
      | cleared | latest item => rfl
    rw [foldl_cons, ih (by rwa [habsorb]), habsorb]

end

/-- Segments that between them hold a checkpoint with a history of its own,
settings with a context baseline, and a decision about the reference. -/
structure SettledBy (segments : List ActiveReplaySegment) : Prop where
  checkpoint : ∃ segment ∈ segments, segment.baseCompaction.isSome = true
  settings : ∃ segment ∈ segments, segment.givenSettings.isSome = true
  reference : ∃ segment ∈ segments, segment.givenReference ≠ .neverSet

theorem settled_foldl_absorb_iff :
    (segments.foldl absorb {}).settled = true ↔ SettledBy segments := by
  have hreference := referenceContextItem_foldl_absorb_eq_neverSet {} segments
  rw [settled, baseCompaction_foldl_absorb, previousTurnSettings_foldl_absorb,
    Bool.and_eq_true, Bool.and_eq_true, decide_eq_true_eq, ne_eq, hreference,
    none_or, none_or, findSome?_isSome_iff, findSome?_isSome_iff]
  constructor
  · rintro ⟨⟨hcheckpoint, hsettings⟩, hnot⟩
    refine ⟨hcheckpoint, hsettings, ?_⟩
    by_contra hall
    exact hnot ⟨rfl, fun segment hmem => by_contra fun hne => hall ⟨segment, hmem, hne⟩⟩
  · intro hsettled
    refine ⟨⟨hsettled.checkpoint, hsettled.settings⟩, fun hall => ?_⟩
    obtain ⟨segment, hmem, hne⟩ := hsettled.reference
    exact hne (hall.2 segment hmem)

/-- A segment takes its checkpoint from a compaction of the rollout, which the
records of the world hold, and whose window it has if there is one. -/
structure SegmentSound (items : List RolloutItem) (segment : ActiveReplaySegment) : Prop where
  compacted : ∀ checkpoint, segment.baseCompaction = some checkpoint →
    WorldStateRecord.compacted ∈ segment.worldStateReplay
  recorded : ∀ checkpoint, segment.baseCompaction = some checkpoint →
    RolloutItem.compacted checkpoint.compacted ∈ items
  window : ∀ checkpoint, segment.baseCompaction = some checkpoint →
    segment.window = none → checkpoint.compacted.windowNumber = none

section

variable {rules : ReplayRules} {items : List RolloutItem}

theorem sound_empty : SegmentSound items {} := ⟨nofun, nofun, nofun⟩

variable {segment : ActiveReplaySegment}

section

variable (hsound : SegmentSound items segment)
include hsound

/-- An update that keeps the checkpoint, the window and the records of the
world keeps a segment sound. -/
theorem SegmentSound.congr {next : ActiveReplaySegment}
    (hbase : next.baseCompaction = segment.baseCompaction)
    (hwindow : next.window = segment.window)
    (hworld : segment.worldStateReplay ⊆ next.worldStateReplay) :
    SegmentSound items next where
  compacted checkpoint hcheckpoint := hworld (hsound.compacted checkpoint (hbase ▸ hcheckpoint))
  recorded checkpoint hcheckpoint := hsound.recorded checkpoint (hbase ▸ hcheckpoint)
  window checkpoint hcheckpoint hnone :=
    hsound.window checkpoint (hbase ▸ hcheckpoint) (hwindow ▸ hnone)

theorem SegmentSound.scanCompacted {compacted : CompactedItem}
    (hitem : RolloutItem.compacted compacted ∈ items) (suffix : List RolloutItem) :
    SegmentSound items (segment.scanCompacted rules suffix compacted) := by
  -- The checkpoint is the one found before, or this compaction.
  have hcases : ∀ checkpoint,
      (segment.scanCompacted rules suffix compacted).baseCompaction = some checkpoint →
      segment.baseCompaction = some checkpoint ∨ checkpoint.compacted = compacted := by
    intro checkpoint hcheckpoint
    rcases or_eq_some_iff.mp hcheckpoint with hbefore | ⟨-, hnow⟩
    · exact .inl hbefore
    · obtain ⟨-, hsome⟩ := ite_none_right_eq_some.mp hnow
      exact .inr (some.inj hsome ▸ rfl)
  refine ⟨fun _ _ => ?_, fun checkpoint hcheckpoint => ?_, fun checkpoint hcheckpoint hnone => ?_⟩
  · exact mem_append_right _ mem_cons_self
  · rcases hcases checkpoint hcheckpoint with hbefore | hnow
    · exact hsound.recorded checkpoint hbefore
    · rwa [hnow]
  · obtain ⟨hwindow, hcompacted⟩ := or_eq_none_iff.mp hnone
    rcases hcases checkpoint hcheckpoint with hbefore | hnow
    · exact hsound.window checkpoint hbefore hwindow
    · rw [hnow]
      exact map_eq_none_iff.mp hcompacted

theorem SegmentSound.scanTurnContext (context : TurnContextItem) :
    SegmentSound items (segment.scanTurnContext context) := by
  rw [ActiveReplaySegment.scanTurnContext]
  split_ifs <;> exact hsound.congr rfl rfl (List.Subset.refl _)

end

theorem SegmentSound.update {suffix : List RolloutItem} {item : RolloutItem}
    {next : ActiveReplaySegment} (hitem : item ∈ items)
    (hupdate : ReverseScan.SegmentUpdate rules suffix item segment next)
    (hsound : SegmentSound items segment) : SegmentSound items next := by
  cases hupdate with
  | compacted compacted => exact hsound.scanCompacted hitem suffix
  | turnContext context => exact hsound.scanTurnContext context
  | worldState item => exact hsound.congr rfl rfl (subset_append_left _ _)
  | marked turnId countsAsUserTurn => exact hsound.congr rfl rfl (List.Subset.refl _)

theorem sound_of_mem_survivingSegments (hsegment : segment ∈ survivingSegments rules items) :
    SegmentSound items segment := by
  have hstart : ∀ segment ∈ ({} : ReverseScan).activeSegment,
      SegmentSound items segment := fun _ hnone => (nomatch hnone)
  refine ReverseScan.forall_survivingFrom sound_empty ?_ hstart segment hsegment
  intro suffix item segment next hitem hupdate hsound
  exact hsound.update (mem_reverse.mp hitem) hupdate

end

/-- After a compaction the state of the world before it plays no part. -/
theorem foldl_replayWorldState_of_mem {rules : ReplayRules} {records : List WorldStateRecord}
    (hmem : WorldStateRecord.compacted ∈ records) (first second : Option Text) :
    records.foldl (replayWorldState rules) first =
      records.foldl (replayWorldState rules) second := by
  induction records generalizing first second with
  | nil => simp at hmem
  | cons record records ih =>
    rcases mem_cons.mp hmem with rfl | hmem
    · rfl
    · exact ih hmem _ _

section Unobservable

variable {rules : ReplayRules} {items : List RolloutItem} {newer : List ActiveReplaySegment}

/-- Where segments with a checkpoint have no window, the rollout has a
compaction without one, and its first window is not asked for. -/
theorem initialWindow_eq_none (hsound : ∀ segment ∈ newer, SegmentSound items segment)
    (hsettled : SettledBy newer) (hwindow : newestWindow newer = none) :
    initialWindow rules items = none := by
  obtain ⟨segment, hmem, hbase⟩ := hsettled.checkpoint
  obtain ⟨checkpoint, hcheckpoint⟩ := isSome_iff_exists.mp hbase
  have hnone := findSome?_eq_none_iff.mp hwindow segment hmem
  have hlegacy := (hsound segment hmem).window checkpoint hcheckpoint hnone
  have hrecorded := (hsound segment hmem).recorded checkpoint hcheckpoint
  rw [initialWindow, if_pos]
  refine any_eq_true.mpr ⟨_, hrecorded, ?_⟩
  rw [isCompactionWithoutWindow, hlegacy]
  rfl

variable {older : List ActiveReplaySegment}

/-- Segments after a settled stretch can change the window only. -/
theorem hydrate_foldl_absorb_eq_iff (hsound : ∀ segment ∈ newer, SegmentSound items segment)
    (hsettled : SettledBy newer) :
    hydrate rules items (newer.foldl absorb {}) =
        hydrate rules items ((newer ++ older).foldl absorb {}) ↔
      (newestWindow newer).isSome = true ∨
        ∀ window ∈ newestWindow older, window = fallbackWindow items := by
  obtain ⟨known, hknown⟩ : ∃ known, newer.foldl absorb {} = known := ⟨_, rfl⟩
  have hnewest : known.window = newestWindow newer := by
    rw [← hknown, window_foldl_absorb, none_or]
  have hstop := (settled_foldl_absorb_iff newer).mpr hsettled
  rw [hknown, settled, Bool.and_eq_true, Bool.and_eq_true, decide_eq_true_eq] at hstop
  obtain ⟨⟨hbase, hsettings⟩, hreference⟩ := hstop
  obtain ⟨checkpoint, hcheckpoint⟩ := isSome_iff_exists.mp hbase
  obtain ⟨settings, hsettings⟩ := isSome_iff_exists.mp hsettings
  have hworld : WorldStateRecord.compacted ∈ known.worldStateReplay := by
    obtain ⟨segment, hmem, hsegment⟩ := hsettled.checkpoint
    obtain ⟨found, hfound⟩ := isSome_iff_exists.mp hsegment
    rw [← hknown, worldStateReplay_foldl_absorb]
    refine mem_append_right _ (mem_flatMap.mpr ⟨segment, hmem, ?_⟩)
    exact (hsound segment hmem).compacted found hfound
  -- Only the windows of the two reconstructions are left to compare.
  have hfields : hydrate rules items known = hydrate rules items (older.foldl absorb known) ↔
      (known.window.or (initialWindow rules items)).getD (fallbackWindow items) =
        ((known.window.or (newestWindow older)).or
          (initialWindow rules items)).getD (fallbackWindow items) := by
    have hreplay : known.worldStateReplay.reverse.foldl (replayWorldState rules) none =
        (known.worldStateReplay ++ older.flatMap
          ActiveReplaySegment.worldStateReplay).reverse.foldl
          (replayWorldState rules) none := by
      rw [reverse_append, foldl_append]
      exact foldl_replayWorldState_of_mem (mem_reverse.mpr hworld) _ _
    simp only [hydrate, hydratedReference, baseCompaction_foldl_absorb,
      previousTurnSettings_foldl_absorb, window_foldl_absorb,
      worldStateReplay_foldl_absorb, hreplay, hcheckpoint, hsettings,
      some_or, referenceContextItem_foldl_absorb_of_ne older hreference,
      RolloutReconstruction.mk.injEq, true_and]
    exact ReconstructedWindow.ext_iff.symm
  rw [foldl_append, hknown, hfields, hnewest]
  cases hwindow : newestWindow newer with
  | some window => simp
  | none =>
    rw [initialWindow_eq_none hsound hsettled hwindow]
    cases newestWindow older with
    | none => simp
    | some window => simp [eq_comm]

/-- Where the newest surviving segments settle what is looked for, one of them
has the number of the window, or no older one has another than the count of
compactions. -/
def WindowSettled (rules : ReplayRules) (items : List RolloutItem) : Prop :=
  ∀ newer older, survivingSegments rules items = newer ++ older →
    SettledBy newer →
    (newestWindow newer).isSome = true ∨
      ∀ window ∈ newestWindow older, window = fallbackWindow items

/-- It is enough to look at the first settled stretch. -/
theorem windowSettled_iff (hsplit : survivingSegments rules items = newer ++ older)
    (hstretch : ReverseScan.FirstStretch settled {} newer older) :
    WindowSettled rules items ↔
      (SettledBy newer → (newestWindow newer).isSome = true ∨
        ∀ window ∈ newestWindow older, window = fallbackWindow items) := by
  refine ⟨fun hall hsettled => hall newer older hsplit hsettled, ?_⟩
  intro hfirst longer rest hother hsettled
  -- A settled stretch is no shorter than the first one.
  have hprefix : newer <+: longer := by
    have hnewer : newer <+: newer ++ older := prefix_append _ _
    have hlonger : longer <+: newer ++ older := ⟨rest, hother.symm.trans hsplit⟩
    rcases prefix_or_prefix_of_prefix hnewer hlonger with hle | hle
    · exact hle
    · by_cases heq : longer = newer
      · exact heq ▸ prefix_refl _
      · have hnot := hstretch.first longer hle heq
        rw [(settled_foldl_absorb_iff longer).mpr hsettled] at hnot
        exact nomatch hnot
  obtain ⟨middle, rfl⟩ := hprefix
  rcases hstretch.met with rfl | hmet
  · -- The scan took in every segment, so none is older.
    have hnil : middle ++ rest = [] := by
      rw [hsplit, append_assoc] at hother
      exact (append_cancel_left hother).symm
    rw [(append_eq_nil_iff.mp hnil).2]
    exact .inr nofun
  · have hmiddle : older = middle ++ rest := by
      rw [hsplit, append_assoc] at hother
      exact append_cancel_left hother
    rcases hfirst ((settled_foldl_absorb_iff newer).mp hmet) with hsome | hrest
    · rw [newestWindow_append, isSome_or, hsome]
      exact .inl rfl
    · rw [hmiddle, newestWindow_append] at hrest
      rw [newestWindow_append]
      cases hwindow : newestWindow middle with
  | some window => simp
  | none =>
    rw [hwindow] at hrest
    exact .inr hrest

/-- What is reconstructed comes from the newest surviving segments, up to where
they first settle what is looked for. -/
theorem reconstruct_eq_hydrate_stretch (rules : ReplayRules) (items : List RolloutItem) :
    ∃ newer older, survivingSegments rules items = newer ++ older ∧
      reconstructHistoryFromRollout rules items = hydrate rules items (newer.foldl absorb {}) ∧
      ReverseScan.FirstStretch settled {} newer older := by
  obtain ⟨newer, older, hsplit, hknown, hstretch⟩ :=
    @ReverseScan.known_scanBackwards_stopping rules [] settled {} items.reverse rfl
  refine ⟨newer, older, hsplit, ?_, hstretch⟩
  rw [reconstructHistoryFromRollout, reconstructStopping, hknown]

theorem sound_of_mem_stretch (hsplit : survivingSegments rules items = newer ++ older) :
    ∀ segment ∈ newer, SegmentSound items segment := by
  intro segment hmem
  apply @sound_of_mem_survivingSegments rules
  rw [hsplit]
  exact mem_append_left _ hmem

/-- Stopping early changes nothing of what is reconstructed, exactly if it does
not lose the number of the window. -/
theorem early_stop_unobservable_iff (rules : ReplayRules) (items : List RolloutItem) :
    reconstructHistoryFromRollout rules items = reconstructStopping rules (fun _ => false) items ↔
      WindowSettled rules items := by
  obtain ⟨newer, older, hsplit, hknown, hstretch⟩ := reconstruct_eq_hydrate_stretch rules items
  rw [windowSettled_iff hsplit hstretch, hknown, reconstructStopping,
    ReverseScan.known_scanBackwards_finish, ← survivingSegments, hsplit]
  rcases hstretch.met with rfl | hmet
  · simp [newestWindow]
  · have hsettled := (settled_foldl_absorb_iff newer).mp hmet
    rw [hydrate_foldl_absorb_eq_iff (sound_of_mem_stretch hsplit) hsettled]
    exact ⟨fun hwindow _ => hwindow, fun hwindow => hwindow hsettled⟩

/-- Rules of a session without contextual fragments. -/
def plainRules : ReplayRules where
  isContextualUserFragment _ := false
  isContextualDevFragment _ := false
  isInterAgentCommunicationText _ := false
  isRebuiltText _ := false
  truncateFunctionOutput _ output := output
  buildCompactedHistory _ message :=
    [⟨.message { role := .user, content := [.inputText message] }, none⟩]
  parseUuidV7 _ := none
  applyMergePatch _ patch := patch

/-- A turn with a user message and a compaction with a history of its own. -/
def compactedTurn (turnId : Text) (windowNumber : Option Nat) : List RolloutItem :=
  [.eventMsg (.turnStarted { turnId }),
    .eventMsg (.userMessage { message := turnId }),
    .turnContext { turnId := some turnId, model := [] },
    .compacted { replacementHistory := some [], windowNumber },
    .eventMsg (.turnComplete { turnId })]

def numberedThenLegacy : List RolloutItem :=
  compactedTurn ['a'] (some 5) ++ compactedTurn ['b'] none

/-- The newer compaction says nothing of its window, and the scan stops before
it comes to the older one, which does. -/
theorem early_stop_loses_window :
    (reconstructHistoryFromRollout plainRules numberedThenLegacy).windowNumber = 2 ∧
      (reconstructStopping plainRules (fun _ => false) numberedThenLegacy).windowNumber = 5 := by
  decide

end Unobservable

end Hexa.Rollout
