/-
The turns of a rollout as its records tell them: where a turn begins, which
contexts belong to it, and what a resume takes from it.  All records are
newest first.
-/
import Hexa.Rollout.PlainReplay

namespace Hexa.Rollout

open List ReverseScan

/-- The id of a turn that a record of it tells. -/
@[simp]
def turnIdOf : RolloutItem → Option Text
  | .eventMsg (.turnComplete event) => some event.turnId
  | .eventMsg (.turnAborted event) => event.turnId
  | .turnContext context => context.turnId
  | _ => none

/-- The record is the start of the turn that has the newer records. -/
def startsTurn (turn : List RolloutItem) : RolloutItem → Bool
  | .eventMsg (.turnStarted event) =>
    turnIdsAreCompatible (turn.findSome? turnIdOf) (some event.turnId)
  | _ => false

/-- The turns whose start is among the records, where the newest one has some
records before them. -/
def closedTurns : List RolloutItem → List RolloutItem → List (List RolloutItem)
  | _, [] => []
  | turn, item :: older =>
    if startsTurn turn item then turn :: closedTurns [] older
    else closedTurns (turn ++ [item]) older

/-- The records of the turn that the oldest record lies in, if it is not a
start. -/
def openTurn : List RolloutItem → List RolloutItem → List RolloutItem
  | turn, [] => turn
  | turn, item :: older =>
    if startsTurn turn item then openTurn [] older else openTurn (turn ++ [item]) older

def allTurns (turn items : List RolloutItem) : List (List RolloutItem) :=
  closedTurns turn items ++ [openTurn turn items]

theorem allTurns_append (turn newer older : List RolloutItem) :
    allTurns turn (newer ++ older) =
      closedTurns turn newer ++ allTurns (openTurn turn newer) older := by
  induction newer generalizing turn with
  | nil => rfl
  | cons item newer ih =>
    simp only [allTurns, cons_append, closedTurns, openTurn] at ih ⊢
    split
    · rw [cons_append, ih, cons_append]
    · exact ih _

/-- The records that follow for a turn. -/
def restOfTurn : List RolloutItem → List RolloutItem → List RolloutItem
  | _, [] => []
  | turn, item :: older =>
    if startsTurn turn item then [] else item :: restOfTurn (turn ++ [item]) older

/-- The turns before it. -/
def earlierTurns : List RolloutItem → List RolloutItem → List (List RolloutItem)
  | _, [] => []
  | turn, item :: older =>
    if startsTurn turn item then allTurns [] older else earlierTurns (turn ++ [item]) older

theorem allTurns_eq (turn items : List RolloutItem) :
    allTurns turn items = (turn ++ restOfTurn turn items) :: earlierTurns turn items := by
  induction items generalizing turn with
  | nil => simp [allTurns, closedTurns, openTurn, restOfTurn, earlierTurns]
  | cons item older ih =>
    simp only [allTurns, closedTurns, openTurn, restOfTurn, earlierTurns] at ih ⊢
    split
    · rw [append_nil, cons_append]
    · rw [ih, append_assoc, singleton_append]

/-- What a record of a turn does to the reference, where the newer records have
told the id of the turn. -/
@[simp]
def markOf (turnId : Option Text) : RolloutItem → Option TurnReferenceContextItem
  | .compacted _ => some .cleared
  | .turnContext context =>
    if turnIdsAreCompatible (turnId.or context.turnId) context.turnId then some (.latest context)
    else none
  | _ => none

def marksFrom : Option Text → List RolloutItem → List TurnReferenceContextItem
  | _, [] => []
  | turnId, item :: older =>
    (markOf turnId item).toList ++ marksFrom (turnId.or (turnIdOf item)) older

theorem marksFrom_append (turnId : Option Text) (newer older : List RolloutItem) :
    marksFrom turnId (newer ++ older) =
      marksFrom turnId newer ++ marksFrom (turnId.or (newer.findSome? turnIdOf)) older := by
  induction newer generalizing turnId with
  | nil => simp [marksFrom]
  | cons item newer ih =>
    rw [cons_append, marksFrom, ih, marksFrom, append_assoc, findSome?_cons, Option.or_assoc]
    cases turnIdOf item <;> rfl

@[simp]
def TurnReferenceContextItem.latestItem :
    TurnReferenceContextItem → Option TurnContextItem
  | .latest item => some item
  | _ => none

def TurnContextItem.settings (context : TurnContextItem) : PreviousTurnSettings where
  model := context.model
  compHash := context.compHash
  realtimeActive := context.realtimeActive

section

variable (rules : ReplayRules) (turn : List RolloutItem)

/-- A record that makes its turn one of the user or of another agent. -/
@[simp]
def beginsUserTurn : RolloutItem → Bool
  | .eventMsg (.userMessage _) => true
  | .responseItem envelope => isUserTurnBoundary rules envelope.item
  | .interAgentCommunication _ => true
  | _ => false

def isFullWorldState : RolloutItem → Bool
  | .worldState item => item.full
  | _ => false

/-- A turn of the user, or one with the full state of the world after its last
compaction. -/
def isBaselineTurn : Bool :=
  turn.any (beginsUserTurn rules) ||
    (turn.takeWhile fun item => !isCompaction item).any isFullWorldState

/-- The settings of the oldest context of a turn. -/
def oldestSettings : Option PreviousTurnSettings :=
  ((marksFrom none turn).filterMap TurnReferenceContextItem.latestItem).getLast?.map
    TurnContextItem.settings

def settingsOfTurn : Option PreviousTurnSettings :=
  if isBaselineTurn rules turn then oldestSettings turn else none

/-- The newest mark of a turn; one that is no baseline can only clear. -/
def referenceOfTurn : TurnReferenceContextItem :=
  match (marksFrom none turn).head? with
  | some .cleared => .cleared
  | some mark => if isBaselineTurn rules turn then mark else .neverSet
  | none => .neverSet

/-- The segment of a turn has what the records of the turn tell. -/
structure Summarises (segment : ActiveReplaySegment) : Prop where
  turnId : segment.turnId = turn.findSome? turnIdOf
  counts : segment.countsAsUserTurn = turn.any (beginsUserTurn rules)
  settings : segment.previousTurnSettings = oldestSettings turn
  reference : segment.referenceContextItem = (marksFrom none turn).head?.getD .neverSet
  world : segment.worldStateReplay = turn.filterMap worldStateRecord

end

variable {rules : ReplayRules} {turn : List RolloutItem} {segment : ActiveReplaySegment}

theorem summarises_empty : Summarises rules [] {} := ⟨rfl, rfl, rfl, rfl, rfl⟩

theorem any_full_takeWhile :
    ((turn.filterMap worldStateRecord).takeWhile (fun record =>
      decide (record ≠ .compacted))).any (fun record =>
        match record with
        | .worldState item => item.full
        | .compacted => false) =
      (turn.takeWhile fun item => !isCompaction item).any isFullWorldState := by
  induction turn with
  | nil => rfl
  | cons item turn ih =>
    cases item with
    | compacted compacted => rfl
    | worldState item => exact congrArg (item.full || ·) ih
    | _ => exact ih

theorem Summarises.hasContextBaseline (hsummary : Summarises rules turn segment) :
    segment.hasContextBaseline = isBaselineTurn rules turn := by
  rw [ActiveReplaySegment.hasContextBaseline, hsummary.counts, hsummary.world, isBaselineTurn]
  exact congrArg (turn.any (beginsUserTurn rules) || ·) any_full_takeWhile

theorem Summarises.givenSettings (hsummary : Summarises rules turn segment) :
    segment.givenSettings = settingsOfTurn rules turn := by
  rw [ActiveReplaySegment.givenSettings, hsummary.hasContextBaseline, hsummary.settings,
    settingsOfTurn]

theorem Summarises.givenReference (hsummary : Summarises rules turn segment) :
    segment.givenReference = referenceOfTurn rules turn := by
  rw [ActiveReplaySegment.givenReference, hsummary.hasContextBaseline, hsummary.reference,
    referenceOfTurn]
  cases (marksFrom none turn).head? with
  | none => simp
  | some mark =>
    cases mark with
    | cleared => simp
    | neverSet => simp
    | latest context => simp

theorem oldestSettings_concat (item : RolloutItem) :
    oldestSettings (turn ++ [item]) =
      (((markOf (turn.findSome? turnIdOf) item).bind
        TurnReferenceContextItem.latestItem).map TurnContextItem.settings).or
        (oldestSettings turn) := by
  rw [oldestSettings, marksFrom_append, filterMap_append, Option.none_or, marksFrom, marksFrom,
    append_nil, oldestSettings]
  cases markOf (turn.findSome? turnIdOf) item with
  | none => simp
  | some mark => cases mark <;> simp

theorem ne_neverSet_of_mem_marksFrom {turnId : Option Text} {mark : TurnReferenceContextItem}
    (hmem : mark ∈ marksFrom turnId turn) : mark ≠ .neverSet := by
  induction turn generalizing turnId with
  | nil => cases hmem
  | cons item turn ih =>
    rcases mem_append.mp hmem with hmark | hrest
    · rintro rfl
      rw [Option.mem_toList] at hmark
      cases item <;> simp [markOf] at hmark
    · exact ih hrest

theorem newestMark_concat (item : RolloutItem) :
    (marksFrom none (turn ++ [item])).head?.getD .neverSet =
      ((marksFrom none turn).head?.getD .neverSet).or
        ((markOf (turn.findSome? turnIdOf) item).getD .neverSet) := by
  rw [marksFrom_append, Option.none_or, marksFrom, marksFrom, append_nil, head?_append]
  cases hhead : (marksFrom none turn).head? with
  | none => cases markOf (turn.findSome? turnIdOf) item <;> rfl
  | some mark =>
    have hset := ne_neverSet_of_mem_marksFrom (mem_of_head? hhead)
    cases mark with
    | neverSet => exact absurd rfl hset
    | cleared | latest context => rfl

/-- What a record adds to the segment of its turn. -/
structure Adds (rules : ReplayRules) (item : RolloutItem) (segment next : ActiveReplaySegment) :
    Prop where
  turnId : next.turnId = segment.turnId.or (turnIdOf item)
  counts : next.countsAsUserTurn = (segment.countsAsUserTurn || beginsUserTurn rules item)
  settings : next.previousTurnSettings =
    (((markOf segment.turnId item).bind TurnReferenceContextItem.latestItem).map
      TurnContextItem.settings).or segment.previousTurnSettings
  reference : next.referenceContextItem =
    segment.referenceContextItem.or ((markOf segment.turnId item).getD .neverSet)
  world : next.worldStateReplay = segment.worldStateReplay ++ (worldStateRecord item).toList

theorem Summarises.adds {item : RolloutItem} {next : ActiveReplaySegment}
    (hsummary : Summarises rules turn segment) (hadds : Adds rules item segment next) :
    Summarises rules (turn ++ [item]) next := by
  obtain ⟨hturnId, hcounts, hsettings, hreference, hworld⟩ := hadds
  rw [hsummary.turnId] at hturnId hsettings hreference
  refine ⟨?_, ?_, ?_, ?_, ?_⟩
  · rw [hturnId, findSome?_append, findSome?_cons]
    cases turnIdOf item <;> rfl
  · rw [hcounts, hsummary.counts, any_append, any_cons, any_nil, Bool.or_false]
  · rw [hsettings, hsummary.settings, oldestSettings_concat]
  · rw [hreference, hsummary.reference, newestMark_concat]
  · rw [hworld, hsummary.world, filterMap_append]
    cases hrecord : worldStateRecord item <;> simp [hrecord]

@[simp]
theorem TurnReferenceContextItem.or_neverSet (mark : TurnReferenceContextItem) :
    mark.or .neverSet = mark := by
  cases mark <;> rfl

/-- A record that does not start the turn adds to its segment. -/
theorem adds_scanItem (scan : ReverseScan) (suffix : List RolloutItem) {item : RolloutItem}
    (hstart : ∀ event, item = .eventMsg (.turnStarted event) → scan.closedBy event = none) :
    Adds rules item (scan.activeSegment.getD {})
      ((scan.scanItem rules suffix item).activeSegment.getD {}) := by
  cases item with
  | compacted compacted =>
    constructor <;>
      simp [scanItem, updateSegment, ActiveReplaySegment.scanCompacted, worldStateRecord]
  | turnContext context =>
    simp only [scanItem, updateSegment, Option.getD_some, ActiveReplaySegment.scanTurnContext]
    split
    next hcompatible =>
      constructor <;> simp [worldStateRecord, hcompatible, TurnContextItem.settings]
    next hcompatible =>
      constructor <;> simp [worldStateRecord, hcompatible]
  | eventMsg event =>
    cases event with
    | turnStarted event =>
      have hopen : scan.scanItem rules suffix (.eventMsg (.turnStarted event)) = scan := by
        rw [scanItem, hstart event rfl]
      rw [hopen]
      constructor <;> simp [worldStateRecord]
    | turnAborted event =>
      simp only [scanItem, scanTurnAborted]
      split
      next segment hactive =>
        constructor <;> simp [hactive, worldStateRecord]
      next hactive =>
        split
        next turnId hid =>
          constructor <;> simp [hactive, hid, worldStateRecord]
        next hid =>
          constructor <;> simp [hactive, hid, worldStateRecord]
    | _ =>
      constructor <;> simp [scanItem, updateSegment, worldStateRecord]
  | _ =>
    constructor <;> simp [scanItem, updateSegment, worldStateRecord]

theorem summarises_getD_none {scan : ReverseScan} (hclosed : scan.activeSegment = none) :
    Summarises rules [] (scan.activeSegment.getD {}) := by
  rw [hclosed]
  exact summarises_empty

/-- A start closes the segment of its turn, if the turn has one. -/
theorem closedBy_eq {scan : ReverseScan} {event : TurnStartedEvent}
    (hsummary : Summarises rules turn (scan.activeSegment.getD {})) :
    scan.closedBy event =
      if startsTurn turn (.eventMsg (.turnStarted event)) then scan.activeSegment else none := by
  rw [startsTurn, ← hsummary.turnId, closedBy]
  cases scan.activeSegment with
  | none => simp
  | some segment => simp [Option.filter]

theorem exists_event_of_startsTurn {item : RolloutItem} (hstarts : startsTurn turn item = true) :
    ∃ event, item = .eventMsg (.turnStarted event) := by
  unfold startsTurn at hstarts
  split at hstarts
  · exact ⟨_, rfl⟩
  · cases hstarts

/-- A record that does not start the turn closes no segment. -/
theorem closedBy_eq_none_of_not_startsTurn {scan : ReverseScan} {item : RolloutItem}
    (hsummary : Summarises rules turn (scan.activeSegment.getD {}))
    (hstarts : startsTurn turn item = false) (event : TurnStartedEvent)
    (hitem : item = .eventMsg (.turnStarted event)) : scan.closedBy event = none := by
  subst hitem
  rw [closedBy_eq hsummary, hstarts]
  rfl

theorem allTurns_cons_start {item : RolloutItem} {older : List RolloutItem}
    (hstarts : startsTurn turn item = true) :
    allTurns turn (item :: older) = turn :: allTurns [] older := by
  rw [allTurns, closedTurns, openTurn, if_pos hstarts, if_pos hstarts]
  rfl

theorem allTurns_cons_inside {item : RolloutItem} {older : List RolloutItem}
    (hstarts : startsTurn turn item = false) :
    allTurns turn (item :: older) = allTurns (turn ++ [item]) older := by
  rw [allTurns, closedTurns, openTurn, hstarts]
  rfl

section Fold

variable {Value : Type} {op : Value → Value → Value} {unit : Value}
  {view : ActiveReplaySegment → Value} {viewTurn : List RolloutItem → Value}

/-- What the segments tell, one after another, is what the turns tell. -/
theorem foldr_survivingFrom_eq_turns (hleft : ∀ value, op unit value = value)
    (hright : ∀ value, op value unit = value) (hempty : view {} = unit)
    (hview : ∀ turn segment, Summarises rules turn segment → view segment = viewTurn turn)
    {suffix older : List RolloutItem} {scan : ReverseScan} {turn : List RolloutItem}
    (hpending : scan.pendingRollbackTurns = 0)
    (hsummary : Summarises rules turn (scan.activeSegment.getD {}))
    (hrollback : ∀ item ∈ older, isRollback item = false) :
    (survivingFrom rules suffix scan older).foldr (fun segment value => op (view segment) value)
        unit =
      (allTurns turn older).foldr (fun turn value => op (viewTurn turn) value) unit := by
  induction older generalizing suffix scan turn with
  | nil =>
    rw [survivingFrom, survivingLast, if_pos hpending]
    simp only [allTurns, closedTurns, openTurn, nil_append, foldr_cons, foldr_nil]
    rw [← hview turn _ hsummary]
    cases scan.activeSegment with
    | none => exact (hright _).symm ▸ hempty.symm
    | some segment => rfl
  | cons item older ih =>
    obtain ⟨hitem, hrest⟩ := forall_mem_cons.mp hrollback
    rw [survivingFrom, foldr_append]
    cases hstarts : startsTurn turn item with
    | true =>
      obtain ⟨event, rfl⟩ := exists_event_of_startsTurn hstarts
      have hclosed : scan.closedBy event = scan.activeSegment := by
        rw [closedBy_eq hsummary, if_pos hstarts]
      rw [allTurns_cons_start hstarts, foldr_cons, surviving, if_pos hpending, hclosed, scanItem,
        hclosed, ← hview turn _ hsummary]
      cases hactive : scan.activeSegment with
      | none =>
        rw [Option.getD_none, hempty, hleft]
        exact ih hpending (summarises_getD_none hactive) hrest
      | some segment =>
        refine congrArg (op (view segment)) (ih ?_ (summarises_getD_none ?_) hrest)
        · rw [pendingRollbackTurns_finalize, hpending]
          exact ite_self 0
        · exact activeSegment_finalize _ _
    | false =>
      have hopen := closedBy_eq_none_of_not_startsTurn hsummary hstarts
      have hsurviving : scan.surviving item = none := by
        unfold surviving
        split
        · rw [hopen _ rfl, ite_self]
        · rfl
      rw [allTurns_cons_inside hstarts, hsurviving]
      refine ih ?_ (hsummary.adds (adds_scanItem scan suffix hopen)) hrest
      cases @scanStep rules suffix scan item with
      | closed event segment hevent hclosed hscan =>
        rw [hopen event hevent] at hclosed
        cases hclosed
      | updated next hupdate hscan _ =>
        rw [hscan]
        exact hpending
      | skipped pendingRollbackTurns _ hsame hscan _ =>
        rw [hscan]
        exact (hsame hitem).trans hpending

end Fold

/-- The turns of a rollout with its session meta at the head. -/
theorem survivingFrom_sessionMeta (contextWindow : Option Text) (suffix : List RolloutItem)
    (scan : ReverseScan) (items : List RolloutItem) :
    survivingFrom rules suffix scan (items ++ [.sessionMeta contextWindow]) =
      survivingFrom rules suffix scan items := by
  induction items generalizing suffix scan with
  | nil => rfl
  | cons item items ih => rw [cons_append, survivingFrom, ih, survivingFrom]

def newestSettings (segments : List ActiveReplaySegment) : Option PreviousTurnSettings :=
  segments.findSome? ActiveReplaySegment.givenSettings

def newestReference (segments : List ActiveReplaySegment) : TurnReferenceContextItem :=
  (segments.foldl ReplayMetadata.absorb {}).referenceContextItem

/-- The newest turn that decides about the reference. -/
def referenceOfTurns (rules : ReplayRules) (turns : List (List RolloutItem)) :
    TurnReferenceContextItem :=
  turns.foldr (fun turn reference => (referenceOfTurn rules turn).or reference) .neverSet

theorem TurnReferenceContextItem.or_assoc (first second third : TurnReferenceContextItem) :
    (first.or second).or third = first.or (second.or third) := by
  cases first <;> rfl

theorem referenceContextItem_foldl_absorb (segments : List ActiveReplaySegment)
    (known : ReplayMetadata) :
    (segments.foldl ReplayMetadata.absorb known).referenceContextItem =
      known.referenceContextItem.or
        (segments.foldr (fun segment reference => segment.givenReference.or reference)
          .neverSet) := by
  induction segments generalizing known with
  | nil => exact (TurnReferenceContextItem.or_neverSet _).symm
  | cons segment segments ih =>
    rw [foldl_cons, ih, foldr_cons, ReplayMetadata.absorb, TurnReferenceContextItem.or_assoc]

variable {contextWindow : Option Text} {items : List RolloutItem}
  (hrollback : ∀ item ∈ items, isRollback item = false)
include hrollback

theorem newestSettings_sessionMeta :
    newestSettings (survivingSegments rules (.sessionMeta contextWindow :: items.reverse)) =
      (allTurns [] items).findSome? (settingsOfTurn rules) := by
  rw [newestSettings, survivingSegments, reverse_cons, reverse_reverse, survivingFrom_sessionMeta,
    findSome?_eq_foldr_or, findSome?_eq_foldr_or]
  exact foldr_survivingFrom_eq_turns (fun _ => Option.none_or) (fun _ => Option.or_none) rfl
    (fun _ _ hsummary => hsummary.givenSettings) rfl summarises_empty hrollback

theorem newestReference_sessionMeta :
    newestReference (survivingSegments rules (.sessionMeta contextWindow :: items.reverse)) =
      referenceOfTurns rules (allTurns [] items) := by
  rw [newestReference, referenceContextItem_foldl_absorb, survivingSegments, reverse_cons,
    reverse_reverse, survivingFrom_sessionMeta]
  exact foldr_survivingFrom_eq_turns (fun _ => rfl) TurnReferenceContextItem.or_neverSet rfl
    (fun _ _ hsummary => hsummary.givenReference) rfl summarises_empty hrollback

end Hexa.Rollout
