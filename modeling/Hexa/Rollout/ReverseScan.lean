/-
Resuming from a rollout: a scan from the newest record to the oldest finds the
checkpoint and the metadata to resume from, and the tail is replayed forwards.
-/
import Hexa.Rollout.ModelHistory

namespace Hexa.Rollout

open List Option

structure PreviousTurnSettings where
  model : Text
  compHash : Option Text
  realtimeActive : Option Bool
  deriving DecidableEq

@[ext] structure ReconstructedWindow where
  number : Nat
  firstId : Option Text
  previousId : Option Text
  id : Option Text
  deriving DecidableEq

inductive TurnReferenceContextItem where
  /-- No baseline is known to have been established. -/
  | neverSet
  /-- A baseline was invalidated by a later compaction. -/
  | cleared
  | latest (item : TurnContextItem)
  deriving DecidableEq

/-- A compaction with a history of its own, and the records after it. -/
structure ReplayCheckpoint where
  compacted : CompactedItem
  suffix : List RolloutItem
  deriving DecidableEq

/-- The records that the state of the world is rebuilt from. -/
inductive WorldStateRecord where
  | compacted
  | worldState (item : WorldStateItem)
  deriving DecidableEq

/-- A turn while it is scanned; the records of the world are newest first. -/
structure ActiveReplaySegment where
  turnId : Option Text := none
  countsAsUserTurn : Bool := false
  previousTurnSettings : Option PreviousTurnSettings := none
  referenceContextItem : TurnReferenceContextItem := .neverSet
  worldStateReplay : List WorldStateRecord := []
  baseCompaction : Option ReplayCheckpoint := none
  window : Option ReconstructedWindow := none
  deriving DecidableEq

def turnIdsAreCompatible (activeTurnId itemTurnId : Option Text) : Bool :=
  activeTurnId.all (fun turnId => itemTurnId.all (fun itemTurnId => itemTurnId = turnId))

/-- The reference that is known already, or else the other one. -/
def TurnReferenceContextItem.or : TurnReferenceContextItem →
    TurnReferenceContextItem → TurnReferenceContextItem
  | .neverSet, other => other
  | known, _ => known

variable (rules : ReplayRules) (suffix : List RolloutItem)

namespace ActiveReplaySegment

variable (segment : ActiveReplaySegment)

def hasContextBaseline : Bool :=
  segment.countsAsUserTurn ||
    (segment.worldStateReplay.takeWhile (fun record =>
      decide (record ≠ .compacted))).any (fun record =>
        match record with
        | .worldState item => item.full
        | .compacted => false)

/-- The settings that a segment gives if it survives. -/
def givenSettings : Option PreviousTurnSettings :=
  if segment.hasContextBaseline then segment.previousTurnSettings else none

/-- The reference that a segment gives if it survives. -/
def givenReference : TurnReferenceContextItem :=
  if segment.hasContextBaseline ∨ segment.referenceContextItem = .cleared then
    segment.referenceContextItem
  else .neverSet

def compactedWindow (compacted : CompactedItem) : Option ReconstructedWindow :=
  compacted.windowNumber.map (fun number => {
    number
    firstId := compacted.firstWindowId.bind rules.parseUuidV7
    previousId := compacted.previousWindowId.bind rules.parseUuidV7
    id := compacted.windowId.bind rules.parseUuidV7 })

def scanCompacted (compacted : CompactedItem) (segment : ActiveReplaySegment) :
    ActiveReplaySegment :=
  { segment with
    worldStateReplay := segment.worldStateReplay ++ [.compacted]
    window := segment.window.or (compactedWindow rules compacted)
    referenceContextItem := segment.referenceContextItem.or .cleared
    baseCompaction := segment.baseCompaction.or
      (if compacted.replacementHistory.isSome then some ⟨compacted, suffix⟩
      else none) }

def scanTurnContext (context : TurnContextItem) (segment : ActiveReplaySegment) :
    ActiveReplaySegment :=
  let segment := { segment with turnId := segment.turnId.or context.turnId }
  if turnIdsAreCompatible segment.turnId context.turnId then
    { segment with
      previousTurnSettings := some {
        model := context.model
        compHash := context.compHash
        realtimeActive := context.realtimeActive }
      referenceContextItem := segment.referenceContextItem.or (.latest context) }
  else segment

end ActiveReplaySegment

/-- What the segments finalized so far have told. -/
structure ReplayMetadata where
  baseCompaction : Option ReplayCheckpoint := none
  previousTurnSettings : Option PreviousTurnSettings := none
  referenceContextItem : TurnReferenceContextItem := .neverSet
  worldStateReplay : List WorldStateRecord := []
  window : Option ReconstructedWindow := none
  deriving DecidableEq

/-- What is known stays; a surviving segment gives the rest. -/
def ReplayMetadata.absorb (known : ReplayMetadata) (segment : ActiveReplaySegment) :
    ReplayMetadata where
  baseCompaction := known.baseCompaction.or segment.baseCompaction
  previousTurnSettings := known.previousTurnSettings.or segment.givenSettings
  referenceContextItem := known.referenceContextItem.or segment.givenReference
  worldStateReplay := known.worldStateReplay ++ segment.worldStateReplay
  window := known.window.or segment.window

/-- The stopping condition of the scan. -/
def ReplayMetadata.settled (known : ReplayMetadata) : Bool :=
  known.baseCompaction.isSome && known.previousTurnSettings.isSome &&
    decide (known.referenceContextItem ≠ .neverSet)

def finalizeActiveSegment (segment : ActiveReplaySegment) (known : ReplayMetadata)
    (pendingRollbackTurns : Nat) : ReplayMetadata × Nat :=
  if pendingRollbackTurns > 0 then
    (known, if segment.countsAsUserTurn then pendingRollbackTurns - 1 else pendingRollbackTurns)
  else (known.absorb segment, pendingRollbackTurns)

structure ReverseScan where
  known : ReplayMetadata := {}
  pendingRollbackTurns : Nat := 0
  activeSegment : Option ActiveReplaySegment := none
  deriving DecidableEq

namespace ReverseScan

variable (scan : ReverseScan)

def updateSegment (update : ActiveReplaySegment → ActiveReplaySegment) : ReverseScan :=
  { scan with activeSegment := some (update (scan.activeSegment.getD {})) }

def finalize (segment : ActiveReplaySegment) : ReverseScan :=
  let (known, pendingRollbackTurns) :=
    finalizeActiveSegment segment scan.known scan.pendingRollbackTurns
  { known, pendingRollbackTurns, activeSegment := none }

/-- The segment that a start of a turn closes. -/
def closedBy (event : TurnStartedEvent) : Option ActiveReplaySegment :=
  scan.activeSegment.filter (fun segment =>
    turnIdsAreCompatible segment.turnId (some event.turnId))

def scanTurnAborted (event : TurnAbortedEvent) : ReverseScan :=
  match scan.activeSegment with
  | some segment =>
    { scan with
      activeSegment := some { segment with turnId := segment.turnId.or event.turnId } }
  | none =>
    match event.turnId with
    | some turnId => { scan with activeSegment := some { turnId := some turnId } }
    | none => scan

def scanItem (scan : ReverseScan) :
    RolloutItem → ReverseScan
  | .compacted compacted =>
    scan.updateSegment (ActiveReplaySegment.scanCompacted rules suffix compacted)
  | .eventMsg (.threadRolledBack numTurns) =>
    { scan with
      pendingRollbackTurns := scan.pendingRollbackTurns + numTurns }
  | .eventMsg (.turnComplete event) =>
    scan.updateSegment (fun segment =>
      { segment with turnId := segment.turnId.or (some event.turnId) })
  | .eventMsg (.turnAborted event) => scan.scanTurnAborted event
  | .eventMsg (.userMessage _) =>
    scan.updateSegment (fun segment => { segment with countsAsUserTurn := true })
  | .turnContext context => scan.updateSegment (ActiveReplaySegment.scanTurnContext context)
  | .worldState item =>
    scan.updateSegment (fun segment =>
      { segment with
        worldStateReplay := segment.worldStateReplay ++ [.worldState item] })
  | .eventMsg (.turnStarted event) =>
    match scan.closedBy event with
    | some segment => scan.finalize segment
    | none => scan
  | .responseItem envelope =>
    scan.updateSegment (fun segment =>
      { segment with
        countsAsUserTurn := segment.countsAsUserTurn || isUserTurnBoundary rules envelope.item })
  | .interAgentCommunication _ =>
    scan.updateSegment (fun segment => { segment with countsAsUserTurn := true })
  | _ => scan

/-- The scan over records, newest first, that ends early where the metadata
meets a condition; the suffix is what has been scanned. -/
def scanBackwards (rules : ReplayRules) (stop : ReplayMetadata → Bool) :
    List RolloutItem → ReverseScan → List RolloutItem → ReverseScan
  | _, scan, [] => scan
  | suffix, scan, item :: older =>
    let next := scan.scanItem rules suffix item
    if stop next.known then next
    else scanBackwards rules stop (item :: suffix) next older

/-- The segment that is still open when the scan ends is finalized too. -/
def finish : ReverseScan :=
  match scan.activeSegment with
  | some segment => scan.finalize segment
  | none => scan

end ReverseScan

structure RolloutReconstruction where
  history : List ResponseItemEnvelope
  previousTurnSettings : Option PreviousTurnSettings
  referenceContextItem : Option TurnContextItem
  worldStateBaseline : Option Text
  windowNumber : Nat
  firstWindowId : Option Text
  previousWindowId : Option Text
  windowId : Option Text
  deriving DecidableEq

def isLegacyCompaction : RolloutItem → Bool
  | .compacted compacted => compacted.replacementHistory.isNone
  | _ => false

def isCompactionWithoutWindow : RolloutItem → Bool
  | .compacted compacted => compacted.windowNumber.isNone
  | _ => false

def isCompaction : RolloutItem → Bool
  | .compacted _ => true
  | _ => false

section

variable (rules : ReplayRules) (items : List RolloutItem)

/-- The window that the session began with. -/
def initialWindow : Option ReconstructedWindow :=
  if items.any isCompactionWithoutWindow then none
  else items.findSome? (fun item =>
    match item with
    | .sessionMeta contextWindow =>
      (contextWindow.bind rules.parseUuidV7).map (fun id => ⟨0, some id, none, some id⟩)
    | _ => none)

def fallbackWindow : ReconstructedWindow := ⟨items.countP isCompaction, none, none, none⟩

/-- One record of the world, in the order that they were written. -/
def replayWorldState (baseline : Option Text) :
    WorldStateRecord → Option Text
  | .compacted => none
  | .worldState item =>
    if item.full then some item.state
    else baseline.map (fun state => rules.applyMergePatch state item.state)

/-- The history from the checkpoint that was found, or from the start. -/
def materializedHistory (baseCompaction : Option ReplayCheckpoint) : List HistoryEntry :=
  let suffix := match baseCompaction with
    | some checkpoint => checkpoint.suffix
    | none => items
  let initial := (baseCompaction.bind (fun checkpoint =>
    checkpoint.compacted.replacementHistory)).getD []
  replayItems rules (initial.map (fun envelope => ⟨envelope, none⟩))
    (items.length - suffix.length) suffix

def hydratedReference (known : ReplayMetadata) : Option TurnContextItem :=
  let suffix := match known.baseCompaction with
    | some checkpoint => checkpoint.suffix
    | none => items
  if suffix.any isLegacyCompaction then none
  else match known.referenceContextItem with
    | .latest item => some item
    | _ => none

def hydrate (known : ReplayMetadata) : RolloutReconstruction :=
  let window := (known.window.or (initialWindow rules items)).getD (fallbackWindow items)
  { history := (materializedHistory rules items known.baseCompaction).map
      HistoryEntry.envelope
    previousTurnSettings := known.previousTurnSettings
    referenceContextItem := hydratedReference items known
    worldStateBaseline := known.worldStateReplay.reverse.foldl (replayWorldState rules) none
    windowNumber := window.number
    firstWindowId := window.firstId
    previousWindowId := window.previousId
    windowId := window.id }

/-- What a scan with a stopping condition reconstructs. -/
def reconstructStopping (stop : ReplayMetadata → Bool) (items : List RolloutItem) :
    RolloutReconstruction :=
  let scan := ReverseScan.scanBackwards rules stop [] {} items.reverse
  hydrate rules items scan.finish.known

def reconstructHistoryFromRollout : RolloutReconstruction :=
  reconstructStopping rules ReplayMetadata.settled items

end

namespace ReverseScan

variable {rules : ReplayRules} (scan : ReverseScan)

/-- The segment that survives and is handed over at a record. -/
def surviving : RolloutItem → Option ActiveReplaySegment
  | .eventMsg (.turnStarted event) =>
    if scan.pendingRollbackTurns = 0 then scan.closedBy event else none
  | _ => none

/-- The segment that survives and is handed over when the scan ends. -/
def survivingLast : Option ActiveReplaySegment :=
  if scan.pendingRollbackTurns = 0 then scan.activeSegment else none

section

variable (segment : ActiveReplaySegment)

theorem known_finalize :
    (scan.finalize segment).known =
      if scan.pendingRollbackTurns = 0 then scan.known.absorb segment
      else scan.known := by
  rw [finalize, finalizeActiveSegment]
  by_cases hpending : scan.pendingRollbackTurns = 0
  · simp [hpending]
  · simp [hpending, Nat.pos_of_ne_zero hpending]

theorem pendingRollbackTurns_finalize :
    (scan.finalize segment).pendingRollbackTurns =
      if segment.countsAsUserTurn then scan.pendingRollbackTurns - 1
      else scan.pendingRollbackTurns := by
  rw [finalize, finalizeActiveSegment]
  by_cases hpending : scan.pendingRollbackTurns = 0
  · simp [hpending]
  · simp [Nat.pos_of_ne_zero hpending]

theorem activeSegment_finalize :
    (scan.finalize segment).activeSegment = none := rfl

end

variable (suffix : List RolloutItem)

/-- The record of the world that a record of the rollout is replayed as. -/
def worldStateRecord : RolloutItem → Option WorldStateRecord
  | .compacted _ => some .compacted
  | .worldState item => some (.worldState item)
  | _ => none

def isRollback : RolloutItem → Bool
  | .eventMsg (.threadRolledBack _) => true
  | _ => false

/-- What a record does to the open segment. -/
inductive SegmentUpdate (rules : ReplayRules) (suffix : List RolloutItem) :
    RolloutItem → ActiveReplaySegment → ActiveReplaySegment → Prop where
  | compacted (compacted : CompactedItem) (segment : ActiveReplaySegment) :
      SegmentUpdate rules suffix (.compacted compacted) segment
        (segment.scanCompacted rules suffix compacted)
  | turnContext (context : TurnContextItem) (segment : ActiveReplaySegment) :
      SegmentUpdate rules suffix (.turnContext context) segment (segment.scanTurnContext context)
  | worldState (item : WorldStateItem) (segment : ActiveReplaySegment) :
      SegmentUpdate rules suffix (.worldState item) segment
        { segment with
          worldStateReplay := segment.worldStateReplay ++ [.worldState item] }
  | marked {item : RolloutItem} (segment : ActiveReplaySegment)
      (turnId : Option Text) (countsAsUserTurn : Bool)
      (hitem : worldStateRecord item = none) :
      SegmentUpdate rules suffix item segment { segment with turnId, countsAsUserTurn }

/-- A record closes the open segment, changes it, or leaves it alone. -/
inductive ScanStep (rules : ReplayRules) (suffix : List RolloutItem)
    (scan : ReverseScan) (item : RolloutItem) : Prop where
  | closed (event : TurnStartedEvent) (segment : ActiveReplaySegment)
      (hitem : item = .eventMsg (.turnStarted event))
      (hclosed : scan.closedBy event = some segment)
      (hscan : scan.scanItem rules suffix item = scan.finalize segment)
  | updated (next : ActiveReplaySegment)
      (hupdate : SegmentUpdate rules suffix item (scan.activeSegment.getD {}) next)
      (hscan : scan.scanItem rules suffix item = { scan with activeSegment := some next })
      (hsurviving : scan.surviving item = none)
  | skipped (pendingRollbackTurns : Nat)
      (hitem : worldStateRecord item = none)
      (hpending : isRollback item = false → pendingRollbackTurns = scan.pendingRollbackTurns)
      (hscan : scan.scanItem rules suffix item = { scan with pendingRollbackTurns })
      (hsurviving : scan.surviving item = none)

theorem scanStep (scan : ReverseScan) (item : RolloutItem) : ScanStep rules suffix scan item := by
  cases item with
  | compacted compacted => exact .updated _ (.compacted _ _) rfl rfl
  | turnContext context => exact .updated _ (.turnContext _ _) rfl rfl
  | worldState item => exact .updated _ (.worldState _ _) rfl rfl
  | responseItem envelope | interAgentCommunication communication =>
    exact .updated _ (.marked _ _ _ rfl) rfl rfl
  | eventMsg event =>
    cases event with
    | turnComplete event | userMessage event => exact .updated _ (.marked _ _ _ rfl) rfl rfl
    | threadRolledBack numTurns => exact .skipped _ rfl nofun rfl rfl
    | turnAborted event =>
      have hscan : scan.scanItem rules suffix
          (.eventMsg (.turnAborted event)) = scan.scanTurnAborted event :=
        rfl
      rw [scanTurnAborted] at hscan
      split at hscan
      case h_1 segment hactive =>
        refine .updated _ ?_ hscan rfl
        rw [hactive]
        exact .marked segment _ _ rfl
      case h_2 hactive =>
        split at hscan
        · refine .updated _ ?_ hscan rfl
          rw [hactive]
          exact .marked {} _ false rfl
        · exact .skipped _ rfl (fun _ => rfl) hscan rfl
    | turnStarted event =>
      cases hclosed : scan.closedBy event with
      | some segment =>
        refine .closed event segment rfl hclosed ?_
        rw [scanItem, hclosed]
      | none =>
        refine .skipped _ rfl (fun _ => rfl) ?_ ?_
        · rw [scanItem, hclosed]
        · rw [surviving, hclosed, ite_self]
    | _ => exact .skipped _ rfl (fun _ => rfl) rfl rfl
  | _ => exact .skipped _ rfl (fun _ => rfl) rfl rfl

/-- A record changes the metadata only where it hands a segment over, and no
segment is open then. -/
theorem scanItem_known (scan : ReverseScan) (item : RolloutItem) :
    (scan.surviving item = none ∧ (scan.scanItem rules suffix item).known = scan.known) ∨
      ∃ segment, scan.surviving item = some segment ∧
        (scan.scanItem rules suffix item).known = scan.known.absorb segment ∧
        (scan.scanItem rules suffix item).activeSegment = none := by
  cases @scanStep rules suffix scan item with
  | closed event segment hitem hclosed hscan =>
    subst hitem
    rw [hscan, surviving, hclosed, known_finalize, activeSegment_finalize]
    by_cases hpending : scan.pendingRollbackTurns = 0 <;> simp [hpending]
  | updated next _ hscan hsurviving
  | skipped pendingRollbackTurns _ _ hscan hsurviving =>
    refine .inl ⟨hsurviving, ?_⟩
    rw [hscan]

/-- The segments that survive a scan, newest first. -/
def survivingFrom (rules : ReplayRules) : List RolloutItem → ReverseScan →
    List RolloutItem → List ActiveReplaySegment
  | _, scan, [] => scan.survivingLast.toList
  | suffix, scan, item :: older =>
    (scan.surviving item).toList ++ survivingFrom rules (item :: suffix)
      (scan.scanItem rules suffix item) older

variable {segment : ActiveReplaySegment} {scan : ReverseScan}

theorem activeSegment_of_closedBy {event : TurnStartedEvent}
    (hclosed : scan.closedBy event = some segment) : scan.activeSegment = some segment :=
  (filter_eq_some_iff.mp hclosed).1

theorem activeSegment_of_surviving {item : RolloutItem}
    (hsegment : scan.surviving item = some segment) : scan.activeSegment = some segment := by
  unfold surviving at hsegment
  split at hsegment
  · exact activeSegment_of_closedBy (ite_none_right_eq_some.mp hsegment).2
  · exact nomatch hsegment

/-- What holds of an empty segment and is kept by every record holds of the
segments that survive. -/
theorem forall_survivingFrom {Holds : ActiveReplaySegment → Prop}
    (hempty : Holds {}) {older : List RolloutItem}
    (hupdate : ∀ suffix item segment next, item ∈ older →
      SegmentUpdate rules suffix item segment next →
      Holds segment → Holds next) {suffix : List RolloutItem}
    (hactive : ∀ segment ∈ scan.activeSegment, Holds segment) :
    ∀ segment ∈ survivingFrom rules suffix scan older, Holds segment := by
  induction older generalizing suffix scan with
  | nil =>
    intro segment hsegment
    rw [survivingFrom, mem_toList] at hsegment
    exact hactive segment (ite_none_right_eq_some.mp hsegment).2
  | cons item older ih =>
    rw [survivingFrom, forall_mem_append]
    refine ⟨fun segment hsegment => ?_, ih ?_ ?_⟩
    · rw [mem_toList] at hsegment
      exact hactive segment (activeSegment_of_surviving hsegment)
    · intro suffix item segment next hitem
      exact hupdate suffix item segment next (mem_cons_of_mem _ hitem)
    · cases @scanStep rules suffix scan item with
    | closed event segment hitem hclosed hscan =>
      rw [hscan]
      exact fun _ hnone => nomatch hnone
    | updated next hnext hscan hsurviving =>
      rw [hscan]
      rintro segment hsegment
      obtain rfl := Option.some.inj hsegment
      refine hupdate _ _ _ _ mem_cons_self hnext ?_
      cases hsome : scan.activeSegment with
      | none => exact hempty
      | some segment => exact hactive segment hsome
    | skipped pendingRollbackTurns hitem hpending hscan hsurviving =>
      rw [hscan]
      exact hactive

theorem known_finish (scan : ReverseScan) :
    scan.finish.known = scan.survivingLast.toList.foldl ReplayMetadata.absorb scan.known := by
  rw [finish, survivingLast]
  cases scan.activeSegment with
  | none => simp
  | some segment =>
    simp only [known_finalize]
    split_ifs <;> rfl

/-- A scan to the oldest record takes in every segment that survives. -/
theorem known_scanBackwards_finish (scan : ReverseScan) (older : List RolloutItem) :
    (scanBackwards rules (fun _ => false) suffix scan older).finish.known =
      (survivingFrom rules suffix scan older).foldl ReplayMetadata.absorb scan.known := by
  induction older generalizing suffix scan with
  | nil => exact known_finish scan
  | cons item older ih =>
    rw [scanBackwards, if_neg (by decide), ih, survivingFrom]
    rcases @scanItem_known rules suffix scan item with
      ⟨hnone, hknown⟩ | ⟨segment, hsome, hknown, -⟩
    · rw [hnone, hknown]
      rfl
    · rw [hsome, hknown]
      rfl

/-- A stretch of segments that ends where a condition is first met, or else
is the whole. -/
structure FirstStretch (stop : ReplayMetadata → Bool) (known : ReplayMetadata)
    (newer rest : List ActiveReplaySegment) : Prop where
  met : rest = [] ∨ stop (newer.foldl ReplayMetadata.absorb known) = true
  first : ∀ before, before <+: newer → before ≠ newer →
    stop (before.foldl ReplayMetadata.absorb known) = false

theorem FirstStretch.cons {stop : ReplayMetadata → Bool} {known : ReplayMetadata}
    {newer rest : List ActiveReplaySegment} (hknown : stop known = false)
    (hstretch : FirstStretch stop (known.absorb segment) newer rest) :
    FirstStretch stop known (segment :: newer) rest := by
  refine ⟨hstretch.met, fun before hbefore hproper => ?_⟩
  cases before with
  | nil => exact hknown
  | cons head before =>
    obtain ⟨rfl, htail⟩ := cons_prefix_cons.mp hbefore
    exact hstretch.first before htail (fun heq => hproper (heq ▸ rfl))

/-- A scan that ends where a condition is first met takes in the newest of
them, up to there. -/
theorem known_scanBackwards_stopping {stop : ReplayMetadata → Bool} (scan : ReverseScan)
    (older : List RolloutItem) (hstart : stop scan.known = false) :
    ∃ newer rest,
      survivingFrom rules suffix scan older = newer ++ rest ∧
      (scanBackwards rules stop suffix scan older).finish.known =
        newer.foldl ReplayMetadata.absorb scan.known ∧
      FirstStretch stop scan.known newer rest := by
  induction older generalizing suffix scan with
  | nil =>
    refine ⟨_, [], (append_nil _).symm, known_finish scan, .inl rfl,
      fun before hbefore hproper => ?_⟩
    -- At most one segment is left, so a shorter stretch is empty.
    have hshort : before.length < scan.survivingLast.toList.length :=
      lt_of_le_of_ne hbefore.length_le (fun heq => hproper (hbefore.eq_of_length heq))
    have hone : scan.survivingLast.toList.length ≤ 1 := by
      cases scan.survivingLast <;> simp
    obtain rfl : before = [] := length_eq_zero_iff.mp (by omega)
    exact hstart
  | cons item older ih =>
    rw [scanBackwards, survivingFrom]
    rcases @scanItem_known rules suffix scan item with
      ⟨hnone, hknown⟩ | ⟨segment, hsome, hknown, hactive⟩
    · have hgoes : stop (scan.scanItem rules suffix item).known = false := by rw [hknown, hstart]
      obtain ⟨newer, rest, hsplit, hnewer, hstretch⟩ :=
        ih (item :: suffix) (scan.scanItem rules suffix item) hgoes
      simp only [hgoes]
      rw [hknown] at hnewer hstretch
      exact ⟨newer, rest, by rw [hnone, hsplit]; rfl, hnewer, hstretch⟩
    · by_cases hstop : stop (scan.scanItem rules suffix item).known = true
      · refine ⟨[segment], _, by rw [hsome]; rfl, ?_, ?_⟩
        · rw [if_pos hstop, finish, hactive, hknown]
          rfl
        · rw [hknown] at hstop
          refine FirstStretch.cons hstart ⟨.inr hstop, ?_⟩
          intro before hbefore hproper
          exact absurd (prefix_nil.mp hbefore) hproper
      · obtain ⟨newer, rest, hsplit, hnewer, hstretch⟩ :=
          ih (item :: suffix) (scan.scanItem rules suffix item) (Bool.eq_false_iff.mpr hstop)
        rw [if_neg hstop]
        rw [hknown] at hnewer hstretch
        exact ⟨segment :: newer, rest, by rw [hsome, hsplit]; rfl, hnewer, hstretch.cons hstart⟩

end ReverseScan

/-- The segments of a rollout that survive its rollbacks, newest first. -/
def survivingSegments (items : List RolloutItem) : List ActiveReplaySegment :=
  ReverseScan.survivingFrom rules [] {} items.reverse

end Hexa.Rollout
