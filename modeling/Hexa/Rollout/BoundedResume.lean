/-
Resuming a paginated rollout from its newest records: a scan of its own says
when enough of them have been read.
-/
import Hexa.Rollout.TurnRecords

namespace Hexa.Rollout

open List ActiveReplaySegment

inductive ModelContextScanProgress where
  /-- The reader should provide the next older record. -/
  | continueScan
  /-- The scan has collected a safe bounded suffix. -/
  | complete
  deriving DecidableEq

structure ActiveTurnSegment where
  turnId : Option Text := none
  hasUserTurn : Bool := false
  hasTurnContext : Bool := false
  hasFullWorldState : Bool := false
  sawCompaction : Bool := false
  deriving DecidableEq

structure ModelContextScan where
  itemsNewestFirst : List RolloutItem := []
  sawCompaction : Bool := false
  sawCompletedTurnContext : Bool := false
  mustScanToStart : Bool := false
  activeSegment : ActiveTurnSegment := {}
  deriving DecidableEq

variable (rules : ReplayRules)

def responseItemCountsAsUserTurn :
    ResponseItem → Bool
  | .agentMessage _ => true
  | .message message =>
    decide (message.role = .assistant) && isInterAgentInstructionContent rules message.content
  | _ => false

namespace ActiveTurnSegment

def observeItemCompleted (turnId : Text) (item : TurnItem) (segment : ActiveTurnSegment) :
    ActiveTurnSegment :=
  let segment := { segment with turnId := segment.turnId.or (some turnId) }
  if turnIdsAreCompatible segment.turnId (some turnId) then
    { segment with
      hasUserTurn := segment.hasUserTurn || decide (item.kind = .userMessage) }
  else segment

def observeTurnContext (context : TurnContextItem) (segment : ActiveTurnSegment) :
    ActiveTurnSegment :=
  let segment := { segment with turnId := segment.turnId.or context.turnId }
  if turnIdsAreCompatible segment.turnId context.turnId then
    { segment with hasTurnContext := true }
  else segment

end ActiveTurnSegment

namespace ModelContextScan

variable (scan : ModelContextScan)

def hasBoundedCutoff : Bool :=
  !scan.mustScanToStart && scan.sawCompaction && scan.sawCompletedTurnContext

def finalizeActiveSegment : ModelContextScan :=
  { scan with
    sawCompletedTurnContext := scan.sawCompletedTurnContext ||
      (scan.activeSegment.hasTurnContext &&
        (scan.activeSegment.hasUserTurn || scan.activeSegment.hasFullWorldState))
    activeSegment := {} }

def updateSegment (update : ActiveTurnSegment → ActiveTurnSegment) : ModelContextScan :=
  { scan with activeSegment := update scan.activeSegment }

/-- What a record tells a scan that may still stop early. -/
def observeItem :
    RolloutItem → ModelContextScan
  | .compacted compacted =>
    if compacted.replacementHistory.isNone || compacted.windowNumber.isNone
    then { scan with mustScanToStart := true }
    else { scan with
      sawCompaction := true
      activeSegment := { scan.activeSegment with sawCompaction := true } }
  | .eventMsg (.threadRolledBack _) => { scan with mustScanToStart := true }
  | .eventMsg (.itemCompleted turnId item) =>
    scan.updateSegment (ActiveTurnSegment.observeItemCompleted turnId item)
  | .eventMsg (.turnComplete event) =>
    scan.updateSegment (fun segment =>
      { segment with turnId := segment.turnId.or (some event.turnId) })
  | .eventMsg (.turnAborted event) =>
    scan.updateSegment (fun segment => { segment with turnId := segment.turnId.or event.turnId })
  | .eventMsg (.turnStarted event) =>
    if turnIdsAreCompatible scan.activeSegment.turnId (some event.turnId)
    then scan.finalizeActiveSegment
    else scan
  | .turnContext context => scan.updateSegment (ActiveTurnSegment.observeTurnContext context)
  | .responseItem envelope =>
    scan.updateSegment (fun segment =>
      { segment with
        hasUserTurn := segment.hasUserTurn || responseItemCountsAsUserTurn rules envelope.item })
  | .interAgentCommunication _ =>
    scan.updateSegment (fun segment => { segment with hasUserTurn := true })
  | .eventMsg (.userMessage _) =>
    scan.updateSegment (fun segment => { segment with hasUserTurn := true })
  | .worldState item =>
    scan.updateSegment (fun segment =>
      { segment with
        hasFullWorldState := segment.hasFullWorldState || (item.full && !segment.sawCompaction) })
  | _ => scan

def observe (item : RolloutItem) : ModelContextScan × ModelContextScanProgress :=
  if scan.mustScanToStart then (scan, .continueScan)
  else
    let next := scan.observeItem rules item
    (next, if next.hasBoundedCutoff then .complete else .continueScan)

def push (item : RolloutItem) : ModelContextScan × ModelContextScanProgress :=
  let (next, progress) := scan.observe rules item
  ({ next with itemsNewestFirst := next.itemsNewestFirst ++ [item] }, progress)

/-- The reader's loop: records are pushed until the scan is complete. -/
def pushAll (rules : ReplayRules) :
    ModelContextScan → List RolloutItem → ModelContextScan
  | scan, [] => scan
  | scan, item :: older =>
    match scan.push rules item with
    | (next, .complete) => next
    | (next, .continueScan) => pushAll rules next older

def finish (contextWindow : Option Text) (scan : ModelContextScan) : List RolloutItem :=
  let items := scan.itemsNewestFirst.reverse
  if scan.hasBoundedCutoff then .sessionMeta contextWindow :: items else items

end ModelContextScan

def isSessionMeta : RolloutItem → Bool
  | .sessionMeta _ => true
  | _ => false

/-- The records of a lineage, newest first; a segment has its session meta at
its head and adds what comes after. -/
def lineageNewestFirst (segments : List (List RolloutItem)) : List RolloutItem :=
  segments.reverse.flatMap (fun segment =>
    segment.reverse.takeWhile (fun item => !isSessionMeta item))

/-- The scan of a lineage when the reader stops. -/
def scannedLineage (segments : List (List RolloutItem)) : ModelContextScan :=
  ModelContextScan.pushAll rules {} (lineageNewestFirst segments)

variable (contextWindow : Option Text) (segments : List (List RolloutItem))

def scanModelContextFromLineage : List RolloutItem :=
  let items := (scannedLineage rules segments).finish contextWindow
  if items.head?.any isSessionMeta then items
  else .sessionMeta contextWindow :: items

/-- The complete rollout, under the session meta of the thread. -/
def completeReplay : List RolloutItem :=
  .sessionMeta contextWindow :: (lineageNewestFirst segments).reverse

/-- A record after which the scan goes on to the start of the rollout. -/
def disablesCutoff : RolloutItem → Bool
  | .compacted compacted => compacted.replacementHistory.isNone || compacted.windowNumber.isNone
  | item => ReverseScan.isRollback item

namespace ModelContextScan

variable {rules : ReplayRules}

/-- What the flags of a scan say of the records that it has read. -/
structure Observed (scan : ModelContextScan) : Prop where
  plain : scan.mustScanToStart = false →
    ∀ item ∈ scan.itemsNewestFirst, disablesCutoff item = false
  compacted : scan.sawCompaction = true → ∃ item ∈ scan.itemsNewestFirst, isCompaction item = true

/-- A record ends the search for a cutoff, is a compaction that a resume can
start from, or changes what is known of the turns. -/
inductive ObserveStep (rules : ReplayRules) (scan : ModelContextScan)
    (item : RolloutItem) : Prop where
  | disabled (hitem : disablesCutoff item = true)
      (hobserve : scan.observeItem rules item = { scan with mustScanToStart := true })
  | compacted (segment : ActiveTurnSegment)
      (hitem : disablesCutoff item = false)
      (hcompaction : isCompaction item = true)
      (hobserve : scan.observeItem rules item =
        { scan with sawCompaction := true, activeSegment := segment })
  | turns (completed : Bool) (segment : ActiveTurnSegment)
      (hitem : disablesCutoff item = false)
      (hobserve : scan.observeItem rules item =
        { scan with
          sawCompletedTurnContext := completed, activeSegment := segment })

theorem observeStep (scan : ModelContextScan) (item : RolloutItem) :
    ObserveStep rules scan item := by
  cases item with
  | compacted compacted =>
    by_cases hlegacy : (compacted.replacementHistory.isNone ||
        compacted.windowNumber.isNone) = true
    · exact .disabled hlegacy (if_pos hlegacy)
    · exact .compacted _ (Bool.eq_false_iff.mpr hlegacy) rfl (if_neg hlegacy)
  | eventMsg event =>
    cases event with
    | threadRolledBack numTurns => exact .disabled rfl rfl
    | turnStarted event =>
      by_cases hcompatible : turnIdsAreCompatible
          scan.activeSegment.turnId (some event.turnId) = true
      · exact .turns _ _ rfl (if_pos hcompatible)
      · exact .turns _ _ rfl (if_neg hcompatible)
    | _ => exact .turns _ _ rfl rfl
  | _ => exact .turns _ _ rfl rfl

theorem Observed.push {scan : ModelContextScan} (hobserved : scan.Observed) (item : RolloutItem) :
    (scan.push rules item).1.Observed ∧
      (scan.push rules item).1.itemsNewestFirst = scan.itemsNewestFirst ++ [item] := by
  have hseen : scan.sawCompaction = true →
      ∃ other ∈ scan.itemsNewestFirst ++ [item], isCompaction other = true := by
    intro hsaw
    obtain ⟨other, hmem, hother⟩ := hobserved.compacted hsaw
    exact ⟨other, mem_append_left _ hmem, hother⟩
  have hplain : scan.mustScanToStart = false → disablesCutoff item = false →
      ∀ other ∈ scan.itemsNewestFirst ++ [item], disablesCutoff other = false := by
    intro hgoes hitem
    rw [forall_mem_append, forall_mem_singleton]
    exact ⟨hobserved.plain hgoes, hitem⟩
  rw [ModelContextScan.push, observe]
  split_ifs with hmust
  · exact ⟨⟨fun hgoes => absurd (hmust.symm.trans hgoes) (by decide), hseen⟩, rfl⟩
  · cases @observeStep rules scan item with
  | disabled hitem hobserve =>
    rw [hobserve]
    exact ⟨⟨nofun, hseen⟩, rfl⟩
  | compacted segment hitem hcompaction hobserve =>
    rw [hobserve]
    refine ⟨⟨fun hgoes => hplain hgoes hitem, fun _ => ?_⟩, rfl⟩
    exact ⟨item, mem_append_right _ mem_cons_self, hcompaction⟩
  | turns completed segment hitem hobserve =>
    rw [hobserve]
    exact ⟨⟨fun hgoes => hplain hgoes hitem, hseen⟩, rfl⟩

theorem Observed.pushAll {scan : ModelContextScan} (hobserved : scan.Observed)
    (items : List RolloutItem) :
    (scan.pushAll rules items).Observed ∧ (scan.pushAll rules items).itemsNewestFirst <+:
        scan.itemsNewestFirst ++ items := by
  induction items generalizing scan with
  | nil => exact ⟨hobserved, prefix_append _ _⟩
  | cons item older ih =>
    obtain ⟨hnext, hitems⟩ := @Observed.push rules scan hobserved item
    rw [ModelContextScan.pushAll, append_cons, ← hitems]
    split
    case h_1 next hpush =>
      rw [hpush] at hnext ⊢
      exact ⟨hnext, prefix_append _ _⟩
    case h_2 next hpush =>
      rw [hpush] at hnext ⊢
      exact ih hnext

end ModelContextScan

/-- Records that a resume can start from: there is a compaction, and every one
has a history of its own and a number for its window. -/
structure Bounded (newestFirst : List RolloutItem) : Prop where
  plain : ∀ item ∈ newestFirst, disablesCutoff item = false
  compacted : ∃ item ∈ newestFirst, isCompaction item = true

section

variable {rules : ReplayRules} {segments : List (List RolloutItem)}

theorem observed_scannedLineage :
    (scannedLineage rules segments).Observed ∧
      (scannedLineage rules segments).itemsNewestFirst <+: lineageNewestFirst segments := by
  have hstart : ModelContextScan.Observed {} := ⟨nofun, nofun⟩
  exact hstart.pushAll (lineageNewestFirst segments)

theorem bounded_of_hasBoundedCutoff
    (hcutoff : (scannedLineage rules segments).hasBoundedCutoff = true) :
    Bounded (scannedLineage rules segments).itemsNewestFirst := by
  obtain ⟨hobserved, -⟩ := @observed_scannedLineage rules segments
  rw [ModelContextScan.hasBoundedCutoff, Bool.and_eq_true, Bool.and_eq_true,
    Bool.not_eq_true'] at hcutoff
  exact ⟨hobserved.plain hcutoff.1.1, hobserved.compacted hcutoff.1.2⟩

theorem scanModelContextFromLineage_eq
    (hcutoff : (scannedLineage rules segments).hasBoundedCutoff = true) :
    scanModelContextFromLineage rules contextWindow segments = .sessionMeta contextWindow ::
        (scannedLineage rules segments).itemsNewestFirst.reverse := by
  rw [scanModelContextFromLineage, ModelContextScan.finish, if_pos hcutoff]
  rfl

end

section Resumed

open ReverseScan

variable {rules : ReplayRules} {collected : List RolloutItem}

theorem gathered_none {Value : Type} {op : Value → Value → Value} {unit : Value}
    [Std.LawfulIdentity op unit] {given : List RolloutItem → RolloutItem → Value}
    {suffix older : List RolloutItem} {item : RolloutItem} (hitem : given suffix item = unit) :
    gathered op unit given suffix (item :: older) =
      gathered op unit given (item :: suffix) older := by
  rw [gathered, hitem]
  exact Std.LawfulLeftIdentity.left_id _

/-- The newest compaction of bounded records is the checkpoint; it has the
number of its window, and nothing of the world before it counts. -/
theorem Bounded.exists_newest (hbounded : Bounded collected) (suffix : List RolloutItem) :
    ∃ checkpoint window,
      gathered Option.or none checkpointAt suffix collected = some checkpoint ∧
      gathered Option.or none (windowAt rules) suffix collected = some window ∧
      checkpoint.compacted.windowNumber.isSome = true ∧
      checkpoint.suffix ⊆ collected ++ suffix ∧
      .compacted ∈ gathered (· ++ ·) [] worldRecordAt suffix collected := by
  obtain ⟨hplain, hcompacted⟩ := hbounded
  induction collected generalizing suffix with
  | nil => simp at hcompacted
  | cons item older ih =>
    obtain ⟨hitem, hplain⟩ := forall_mem_cons.mp hplain
    cases hkind : isCompaction item with
    | true =>
      obtain ⟨compacted, rfl⟩ : ∃ compacted, item = .compacted compacted :=
        by cases item <;> simp [isCompaction] at hkind ⊢
      obtain ⟨hhistory, hnumber⟩ := Bool.or_eq_false_iff.mp hitem
      rw [Option.isNone_eq_false_iff] at hhistory hnumber
      obtain ⟨window, hwindow⟩ : ∃ window,
          windowAt rules suffix (.compacted compacted) = some window := by
        rw [← Option.isSome_iff_exists, windowAt, compactedWindow, Option.isSome_map]
        exact hnumber
      refine ⟨⟨compacted, suffix⟩, window, ?_, ?_, hnumber,
        subset_append_right _ _, mem_cons_self⟩
      · rw [gathered, checkpointAt, if_pos hhistory]
        rfl
      · rw [gathered, hwindow]
        rfl
    | false =>
      obtain ⟨hcheckpoint, hwindow⟩ : checkpointAt suffix item = none ∧
          windowAt rules suffix item = none := by
        cases item with
        | compacted compacted => cases hkind
        | _ => exact ⟨rfl, rfl⟩
      have hothers : ∃ other ∈ older, isCompaction other = true := by
        simpa [hkind] using hcompacted
      obtain ⟨checkpoint, window, hfound, hnumbered, hnumber, hsuffix,
        hworld⟩ := ih (item :: suffix) hplain hothers
      refine ⟨checkpoint, window, (gathered_none hcheckpoint).trans hfound,
        (gathered_none hwindow).trans hnumbered, hnumber, ?_,
        mem_append_right _ hworld⟩
      intro other hother
      rcases mem_append.mp (hsuffix hother) with hmem | hmem
      · exact mem_cons_of_mem _ (mem_append_left _ hmem)
      · rcases mem_cons.mp hmem with rfl | hmem
        · exact mem_cons_self
        · exact mem_cons_of_mem _ (mem_append_right _ hmem)

/-- What is resumed from bounded records, newest first, with the settings and
the reference that the turns give. -/
def resumedFrom (rules : ReplayRules) (collected : List RolloutItem)
    (settings : Option PreviousTurnSettings) (reference : Option TurnContextItem) :
    RolloutReconstruction :=
  let checkpoint := gathered Option.or none checkpointAt [] collected
  let records := gathered (· ++ ·) [] worldRecordAt [] collected
  let window := (gathered Option.or none (windowAt rules) [] collected).getD ⟨0, none, none, none⟩
  { history := (materializedHistory rules collected.reverse checkpoint).map
      HistoryEntry.envelope
    previousTurnSettings := settings
    referenceContextItem := reference
    worldStateBaseline := records.reverse.foldl (replayWorldState rules) none
    windowNumber := window.number
    firstWindowId := window.firstId
    previousWindowId := window.previousId
    windowId := window.id }

theorem Bounded.isRollback (hbounded : Bounded collected) :
    ∀ item ∈ collected, isRollback item = false := by
  intro item hmem
  have hplain := hbounded.plain item hmem
  cases item with
  | compacted compacted => rfl
  | _ => exact hplain

theorem Bounded.isLegacyCompaction (hbounded : Bounded collected) :
    ∀ item ∈ collected, isLegacyCompaction item = false := by
  intro item hmem
  have hplain := hbounded.plain item hmem
  cases item with
  | compacted compacted => exact (Bool.or_eq_false_iff.mp hplain).1
  | _ => rfl

/-- Of the records before the bounded ones only the settings and the reference
can be seen in what is resumed. -/
theorem reconstruct_of_bounded (hbounded : Bounded collected) {items older : List RolloutItem}
    (hsplit : items.reverse = collected ++ older)
    (hrollback : ∀ item ∈ items, ReverseScan.isRollback item = false) :
    reconstructHistoryFromRollout rules items = resumedFrom rules collected
        (newestSettings (survivingSegments rules items))
        (newestReference (survivingSegments rules items)).latestItem := by
  obtain ⟨checkpoint, window, hfound, hnumbered, hnumber, hsuffix, hworld⟩ :=
    @Bounded.exists_newest rules collected hbounded []
  rw [append_nil] at hsuffix
  have hbase : (survivingSegments rules items).findSome? baseCompaction = some checkpoint := by
    rw [findSome?_eq_foldr_or, gathers_baseCompaction.foldr_survivingSegments hrollback, hsplit,
      gathered_append, hfound]
    rfl
  have hwindow : newestWindow (survivingSegments rules items) = some window := by
    rw [newestWindow, findSome?_eq_foldr_or, gathers_window.foldr_survivingSegments hrollback,
      hsplit, gathered_append, hnumbered]
    rfl
  have hlegacy : checkpoint.suffix.any Rollout.isLegacyCompaction = false := by
    rw [any_eq_false]
    intro item hmem
    rw [hbounded.isLegacyCompaction item (hsuffix hmem)]
    exact Bool.false_ne_true
  rw [reconstruct_eq_hydrate_survivingSegments hbase hnumber, hydrate, resumedFrom]
  simp only [window_foldl_absorb, baseCompaction_foldl_absorb, previousTurnSettings_foldl_absorb,
    worldStateReplay_foldl_absorb, worldStateReplay_survivingSegments hrollback, hbase, hwindow,
    hfound, hnumbered, hsplit, gathered_append, Option.none_or, Option.some_or, Option.getD_some,
    nil_append, RolloutReconstruction.mk.injEq, and_true]
  refine ⟨?_, rfl, ?_, ?_⟩
  · refine envelopes_replayItems ?_ rfl _ _
    exact fun item hmem => hbounded.isRollback item (hsuffix hmem)
  · rw [hydratedReference, baseCompaction_foldl_absorb, hbase]
    exact if_neg (Bool.eq_false_iff.mp hlegacy)
  · rw [reverse_append, foldl_append]
    exact foldl_replayWorldState_of_mem (mem_reverse.mpr hworld) _ _

end Resumed

section Turns

open ReverseScan

variable {rules : ReplayRules} {turn rest : List RolloutItem}

/-- A turn stays a baseline when older records of it come to light. -/
theorem isBaselineTurn_append (hbaseline : isBaselineTurn rules turn = true) :
    isBaselineTurn rules (turn ++ rest) = true := by
  rw [isBaselineTurn, Bool.or_eq_true] at hbaseline ⊢
  refine hbaseline.imp (fun hany => ?_) fun hfull => ?_
  · rw [any_append, hany, Bool.true_or]
  · obtain ⟨item, hmem, hitem⟩ := any_eq_true.mp hfull
    refine any_eq_true.mpr ⟨item, ?_, hitem⟩
    rw [takeWhile_append]
    split
    · exact mem_append_left _ (takeWhile_subset _ hmem)
    · exact hmem

theorem oldestSettings_append_isSome (hsettings : (oldestSettings turn).isSome = true) :
    (oldestSettings (turn ++ rest)).isSome = true := by
  rw [oldestSettings, Option.isSome_map, getLast?_isSome] at hsettings ⊢
  rw [marksFrom_append, filterMap_append]
  exact append_ne_nil_of_left_ne_nil hsettings _

theorem settingsOfTurn_isSome :
    (settingsOfTurn rules turn).isSome = true ↔
      isBaselineTurn rules turn = true ∧ (oldestSettings turn).isSome = true := by
  rw [settingsOfTurn]
  split_ifs with hbaseline <;> simp [hbaseline]

/-- Where the collected part of a turn gives settings, the whole turn gives
those of its oldest context. -/
theorem settingsOfTurn_append (hsettings : (settingsOfTurn rules turn).isSome = true) :
    settingsOfTurn rules turn = oldestSettings turn ∧
      settingsOfTurn rules (turn ++ rest) = oldestSettings (turn ++ rest) := by
  have hbaseline := (settingsOfTurn_isSome.mp hsettings).1
  rw [settingsOfTurn, if_pos hbaseline, settingsOfTurn, if_pos (isBaselineTurn_append hbaseline)]
  exact ⟨rfl, rfl⟩

/-- A context of a baseline turn decides about the reference, too. -/
theorem referenceOfTurn_ne_of_settings (hsettings : (settingsOfTurn rules turn).isSome = true) :
    referenceOfTurn rules turn ≠ .neverSet := by
  obtain ⟨hbaseline, hcontext⟩ := settingsOfTurn_isSome.mp hsettings
  rw [referenceOfTurn]
  cases hmarks : marksFrom none turn with
  | nil =>
    rw [oldestSettings, hmarks] at hcontext
    cases hcontext
  | cons mark marks =>
    have hset := ne_neverSet_of_mem_marksFrom (hmarks ▸ mem_cons_self)
    cases mark with
    | neverSet => exact absurd rfl hset
    | cleared =>
      intro hcleared
      cases hcleared
    | latest context => simp [hbaseline]

/-- What the collected part of a turn decides stays decided. -/
theorem referenceOfTurn_append (hreference : referenceOfTurn rules turn ≠ .neverSet) :
    referenceOfTurn rules (turn ++ rest) = referenceOfTurn rules turn := by
  unfold referenceOfTurn at hreference ⊢
  rw [marksFrom_append, head?_append]
  cases hhead : (marksFrom none turn).head? with
  | none =>
    rw [hhead] at hreference
    exact absurd rfl hreference
  | some mark =>
    rw [hhead] at hreference
    cases mark with
    | cleared => rfl
    | neverSet | latest context =>
      simp only [Option.some_or] at hreference ⊢
      split_ifs at hreference with hbaseline
      · rw [if_pos hbaseline, if_pos (isBaselineTurn_append hbaseline)]
      · exact absurd rfl hreference

variable (rules) {turns newer older : List (List RolloutItem)}

theorem referenceOfTurns_cons :
    referenceOfTurns rules (turn :: turns) =
      (referenceOfTurn rules turn).or (referenceOfTurns rules turns) :=
  rfl

theorem referenceOfTurns_append :
    referenceOfTurns rules (newer ++ older) =
      (referenceOfTurns rules newer).or (referenceOfTurns rules older) := by
  induction newer with
  | nil => rfl
  | cons turn newer ih =>
    rw [cons_append, referenceOfTurns_cons, ih, referenceOfTurns_cons,
      TurnReferenceContextItem.or_assoc]

theorem referenceOfTurns_eq_neverSet :
    referenceOfTurns rules turns = .neverSet ↔
      ∀ turn ∈ turns, referenceOfTurn rules turn = .neverSet := by
  induction turns with
  | nil => simp [referenceOfTurns]
  | cons turn turns ih =>
    rw [forall_mem_cons, ← ih, referenceOfTurns_cons, TurnReferenceContextItem.or_eq_neverSet]

/-- The newest turn that decides about the reference clears it, if any does. -/
def OnlyClears (turns : List (List RolloutItem)) : Prop :=
  ∀ turn ∈ turns.find? (fun turn => referenceOfTurn rules turn ≠ .neverSet),
    referenceOfTurn rules turn = .cleared

theorem onlyClears_iff :
    OnlyClears rules turns ↔ (referenceOfTurns rules turns).latestItem = none := by
  rw [OnlyClears]
  induction turns with
  | nil => simp [referenceOfTurns]
  | cons turn turns ih =>
    rw [referenceOfTurns_cons]
    cases hturn : referenceOfTurn rules turn with
    | neverSet =>
      rw [find?_cons_of_neg (by simp [hturn])]
      exact ih
    | cleared =>
      rw [find?_cons_of_pos (by simp [hturn])]
      simp [hturn, TurnReferenceContextItem.or]
    | latest context =>
      rw [find?_cons_of_pos (by simp [hturn])]
      simp [hturn, TurnReferenceContextItem.or]

section

variable (collected older : List RolloutItem)

/-- No older record changes the settings: those of the open turn are of its
oldest context, and if it gives none no turn from it on does. -/
def SettingsCollected : Prop :=
  let opened := openTurn [] collected
  let whole := opened ++ restOfTurn opened older
  if (settingsOfTurn rules opened).isSome then oldestSettings whole = oldestSettings opened
  else ∀ turn ∈ whole :: earlierTurns opened older, settingsOfTurn rules turn = none

/-- No older record changes the reference. -/
def ReferenceCollected : Prop :=
  let opened := openTurn [] collected
  let whole := opened ++ restOfTurn opened older
  (∃ turn ∈ closedTurns [] collected ++ [opened], referenceOfTurn rules turn ≠ .neverSet) ∨
    OnlyClears rules (whole :: earlierTurns opened older)

/-- A turn that lies wholly in the collected records gives settings, or no older
record changes them or the reference. -/
def EnoughCollected : Prop :=
  (∃ turn ∈ closedTurns [] collected, (settingsOfTurn rules turn).isSome = true) ∨
    SettingsCollected rules collected older ∧ ReferenceCollected rules collected older

end

variable {rules} {collected older : List RolloutItem}

theorem settingsCollected_iff
    (hclosed : (closedTurns [] collected).findSome? (settingsOfTurn rules) = none) :
    SettingsCollected rules collected older ↔
      (allTurns [] collected).findSome? (settingsOfTurn rules) =
        (allTurns [] (collected ++ older)).findSome? (settingsOfTurn rules) := by
  rw [allTurns_append, allTurns_eq (openTurn [] collected), findSome?_append, hclosed,
    allTurns, findSome?_append, hclosed, Option.none_or, Option.none_or, findSome?_singleton,
    SettingsCollected]
  generalize openTurn [] collected = opened
  split_ifs with hopened
  · obtain ⟨hpart, hwhole⟩ :=
      @settingsOfTurn_append rules opened (restOfTurn opened older) hopened
    have hsome := @oldestSettings_append_isSome opened (restOfTurn opened older)
      (settingsOfTurn_isSome.mp hopened).2
    obtain ⟨settings, hsettings⟩ := Option.isSome_iff_exists.mp hsome
    rw [findSome?_cons, hwhole, hpart, hsettings, eq_comm]
  · rw [Option.not_isSome_iff_eq_none.mp hopened, eq_comm, findSome?_eq_none_iff]

theorem referenceCollected_iff :
    ReferenceCollected rules collected older ↔
      (referenceOfTurns rules (allTurns [] collected)).latestItem =
        (referenceOfTurns rules (allTurns [] (collected ++ older))).latestItem := by
  rw [allTurns_append, allTurns_eq (openTurn [] collected), allTurns, referenceOfTurns_append,
    referenceOfTurns_append, ReferenceCollected, onlyClears_iff]
  generalize openTurn [] collected = opened
  generalize closedTurns [] collected = closed
  have hopened : referenceOfTurns rules [opened] = referenceOfTurn rules opened :=
    TurnReferenceContextItem.or_neverSet _
  by_cases hdecided : ∃ turn ∈ closed ++ [opened], referenceOfTurn rules turn ≠ .neverSet
  · simp only [hdecided, true_or, true_iff]
    by_cases hclosed : referenceOfTurns rules closed = .neverSet
    · have hopen : referenceOfTurn rules opened ≠ .neverSet := by
        obtain ⟨turn, hmem, hturn⟩ := hdecided
        rcases mem_append.mp hmem with hold | hlast
        · exact absurd ((referenceOfTurns_eq_neverSet rules).mp hclosed turn hold) hturn
        · rwa [mem_singleton.mp hlast] at hturn
      rw [hclosed, hopened, referenceOfTurns_cons, referenceOfTurn_append hopen]
      cases hreference : referenceOfTurn rules opened with
      | neverSet => exact absurd hreference hopen
      | cleared | latest context => rfl
    · cases hreference : referenceOfTurns rules closed with
      | neverSet => exact absurd hreference hclosed
      | cleared | latest context => rfl
  · have hnever : ∀ turn ∈ closed ++ [opened], referenceOfTurn rules turn = .neverSet :=
      fun turn hmem => by_contra fun hturn => hdecided ⟨turn, hmem, hturn⟩
    obtain ⟨hclosed, hopen⟩ := forall_mem_append.mp hnever
    rw [(referenceOfTurns_eq_neverSet rules).mpr hclosed, hopened,
      hopen opened (mem_singleton.mpr rfl)]
    simp only [hdecided, false_or]
    exact eq_comm

theorem enoughCollected_iff :
    EnoughCollected rules collected older ↔
      (allTurns [] collected).findSome? (settingsOfTurn rules) =
        (allTurns [] (collected ++ older)).findSome? (settingsOfTurn rules) ∧
      (referenceOfTurns rules (allTurns [] collected)).latestItem =
        (referenceOfTurns rules (allTurns [] (collected ++ older))).latestItem := by
  rw [EnoughCollected, ← findSome?_isSome_iff]
  cases hclosed : (closedTurns [] collected).findSome? (settingsOfTurn rules) with
  | none => simp [settingsCollected_iff hclosed, referenceCollected_iff]
  | some settings =>
    obtain ⟨turn, hmem, hturn⟩ := exists_of_findSome?_eq_some hclosed
    have hreference := referenceOfTurn_ne_of_settings (Option.isSome_of_eq_some hturn)
    refine iff_of_true (.inl rfl) ⟨?_, ?_⟩
    · rw [allTurns_append, findSome?_append, hclosed, allTurns, findSome?_append, hclosed]
      rfl
    · exact referenceCollected_iff.mp (.inl ⟨turn, mem_append_left _ hmem, hreference⟩)

end Turns

theorem resumedFrom_injective {rules : ReplayRules} {collected : List RolloutItem}
    {settings otherSettings : Option PreviousTurnSettings}
    {reference otherReference : Option TurnContextItem} :
    resumedFrom rules collected settings reference =
        resumedFrom rules collected otherSettings otherReference ↔
      settings = otherSettings ∧ reference = otherReference := by
  constructor
  · intro hsame
    exact ⟨congrArg RolloutReconstruction.previousTurnSettings hsame,
      congrArg RolloutReconstruction.referenceContextItem hsame⟩
  · rintro ⟨rfl, rfl⟩
    rfl

theorem reconstruct_sessionMeta {rules : ReplayRules} {collected older : List RolloutItem}
    (hbounded : Bounded collected)
    (hrollback : ∀ item ∈ collected ++ older, ReverseScan.isRollback item = false)
    (contextWindow : Option Text) :
    reconstructHistoryFromRollout rules
        (.sessionMeta contextWindow :: (collected ++ older).reverse) =
      resumedFrom rules collected
        ((allTurns [] (collected ++ older)).findSome? (settingsOfTurn rules))
        (referenceOfTurns rules (allTurns [] (collected ++ older))).latestItem := by
  rw [← newestSettings_sessionMeta hrollback, ← newestReference_sessionMeta hrollback]
  refine reconstruct_of_bounded hbounded (by rw [reverse_cons, reverse_reverse, append_assoc]) ?_
  rw [forall_mem_cons]
  exact ⟨rfl, fun item hmem => hrollback item (mem_reverse.mp hmem)⟩

/-- Resuming from the collected records is resuming from the complete rollout,
exactly if they hold enough turns. -/
theorem bounded_resume_eq_full_iff (rules : ReplayRules) (contextWindow : Option Text)
    (segments : List (List RolloutItem))
    (hrollback : ∀ item ∈ lineageNewestFirst segments, ReverseScan.isRollback item = false)
    (hcutoff : (scannedLineage rules segments).hasBoundedCutoff = true) :
    reconstructHistoryFromRollout rules
        (scanModelContextFromLineage rules contextWindow segments) =
        reconstructHistoryFromRollout rules (completeReplay contextWindow segments) ↔
      EnoughCollected rules (scannedLineage rules segments).itemsNewestFirst
        ((lineageNewestFirst segments).drop
          (scannedLineage rules segments).itemsNewestFirst.length) := by
  have hbounded := bounded_of_hasBoundedCutoff hcutoff
  obtain ⟨older, hsplit⟩ := (@observed_scannedLineage rules segments).2
  rw [scanModelContextFromLineage_eq contextWindow hcutoff, completeReplay]
  generalize (scannedLineage rules segments).itemsNewestFirst = collected at hbounded hsplit ⊢
  rw [← hsplit] at hrollback ⊢
  have hpart := @reconstruct_sessionMeta rules collected [] hbounded
    (by rw [append_nil]; exact hbounded.isRollback) contextWindow
  rw [append_nil] at hpart
  rw [hpart, reconstruct_sessionMeta hbounded hrollback,
    resumedFrom_injective, drop_left, enoughCollected_iff]

/-- A text between the marks of a fragment of context. -/
def markedText : Text := "<environment_context></environment_context>".toList

def fragmentRules : ReplayRules :=
  { plainRules with
    isContextualUserFragment := fun content => decide (content = .inputText markedText) }

/-- A turn of a paginated rollout that a user's message begins. -/
def paginatedTurn (turnId text : Text) : List RolloutItem :=
  [.eventMsg (.turnStarted { turnId }),
    .turnContext { turnId := some turnId, model := turnId },
    .responseItem ⟨.message { role := .user, content := [.inputText text] }, none⟩,
    .eventMsg (.itemCompleted turnId ⟨[], .userMessage, text⟩),
    .eventMsg (.turnComplete { turnId })]

/-- A turn that only compacts. -/
def compactionTurn (turnId : Text) : List RolloutItem :=
  [.eventMsg (.turnStarted { turnId }),
    .compacted { replacementHistory := some [], windowNumber := some 1 },
    .eventMsg (.turnComplete { turnId })]

/-- Two turns and a compaction, where the second text is given. -/
def twoTurnsCompacted (text : Text) : List RolloutItem :=
  paginatedTurn ['a'] ['h'] ++ paginatedTurn ['b'] text ++ compactionTurn ['c']

theorem bounded_resume_eq_full_plain_text :
    (scannedLineage fragmentRules [twoTurnsCompacted ['h']]).itemsNewestFirst.length = 8 ∧
      (lineageNewestFirst [twoTurnsCompacted ['h']]).length = 13 ∧
      reconstructHistoryFromRollout fragmentRules
          (scanModelContextFromLineage fragmentRules none [twoTurnsCompacted ['h']]) =
        reconstructHistoryFromRollout fragmentRules
          (completeReplay none [twoTurnsCompacted ['h']]) :=
  ⟨by decide, by decide, (bounded_resume_eq_full_iff fragmentRules none _
    (by decide) (by decide)).mpr (.inl (by decide))⟩

/-- The scan takes the second turn for a user's turn and stops, but what the
user wrote there is a fragment of context, and the turn does not count. -/
theorem bounded_resume_loses_settings :
    (scannedLineage fragmentRules [twoTurnsCompacted markedText]).hasBoundedCutoff = true ∧
      (reconstructHistoryFromRollout fragmentRules
        (scanModelContextFromLineage fragmentRules none
          [twoTurnsCompacted markedText])).previousTurnSettings = none ∧
      (reconstructHistoryFromRollout fragmentRules
        (completeReplay none [twoTurnsCompacted markedText])).previousTurnSettings =
        some ⟨['a'], none, none⟩ := by
  decide

end Hexa.Rollout
