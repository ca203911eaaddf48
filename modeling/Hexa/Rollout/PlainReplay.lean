/-
What a rollout without rollbacks is resumed from: its newest checkpoint, its
newest window and all of its records of the world, whatever its turns are.
-/
import Hexa.Rollout.EarlyStop

namespace Hexa.Rollout

open List ActiveReplaySegment Std.LawfulLeftIdentity Option

namespace ReverseScan

section Gathered

variable {Value : Type} (op : Value → Value → Value) (unit : Value)

/-- What the records give in all, newest first, where a record is read together
with the records after it. -/
def gathered (given : List RolloutItem → RolloutItem → Value) :
    List RolloutItem → List RolloutItem → Value
  | _, [] => unit
  | suffix, item :: older => op (given suffix item) (gathered given (item :: suffix) older)

variable {op unit} [Std.Associative op] [Std.LawfulIdentity op unit]
  {given : List RolloutItem → RolloutItem → Value}

theorem gathered_append (suffix newer older : List RolloutItem) :
    gathered op unit given suffix (newer ++ older) = op (gathered op unit given suffix newer)
        (gathered op unit given (newer.reverse ++ suffix) older) := by
  induction newer generalizing suffix with
  | nil => exact (left_id _).symm
  | cons item newer ih =>
    rw [cons_append, gathered, ih, gathered, @Std.Associative.assoc _ op _,
      reverse_cons, append_assoc, singleton_append]

variable {rules : ReplayRules} {view : ActiveReplaySegment → Value}

variable (rules op unit view given) in
/-- A part of the segments that the compactions and the records of the world
add to, and nothing else. -/
structure Gathers : Prop where
  empty : view {} = unit
  compacted : ∀ suffix compacted segment, view (segment.scanCompacted rules suffix compacted) =
      op (view segment) (given suffix (.compacted compacted))
  worldState : ∀ suffix item (segment : ActiveReplaySegment),
    view { segment with
        worldStateReplay := segment.worldStateReplay ++ [.worldState item] } =
      op (view segment) (given suffix (.worldState item))
  turnContext : ∀ context segment, view (segment.scanTurnContext context) = view segment
  marked : ∀ (segment : ActiveReplaySegment) turnId countsAsUserTurn,
    view { segment with turnId, countsAsUserTurn } = view segment
  other : ∀ suffix item, worldStateRecord item = none → given suffix item = unit

section

variable (hgathers : Gathers op unit given rules view)
include hgathers

omit [Std.Associative op] in
theorem Gathers.update {suffix : List RolloutItem} {item : RolloutItem}
    {segment next : ActiveReplaySegment}
    (hupdate : SegmentUpdate rules suffix item segment next) :
    view next = op (view segment) (given suffix item) := by
  have hright : ∀ value : Value, op value unit = value := Std.LawfulRightIdentity.right_id
  cases hupdate with
  | compacted compacted => exact hgathers.compacted _ _ _
  | worldState item => exact hgathers.worldState _ _ _
  | turnContext context => rw [hgathers.turnContext, hgathers.other _ _ rfl, hright]
  | marked segment turnId countsAsUserTurn hitem =>
    rw [hgathers.marked, hgathers.other _ _ hitem, hright]

/-- Without rollbacks no segment is lost, so what the segments hold of the
records is what the records give. -/
theorem Gathers.foldr_survivingFrom {suffix older : List RolloutItem} {scan : ReverseScan}
    (hpending : scan.pendingRollbackTurns = 0)
    (hrollback : ∀ item ∈ older, isRollback item = false) :
    (survivingFrom rules suffix scan older).foldr
        (fun segment value => op (view segment) value) unit =
      op (view (scan.activeSegment.getD {})) (gathered op unit given suffix older) := by
  have hright : ∀ value : Value, op value unit = value := Std.LawfulRightIdentity.right_id
  have hleft : ∀ value : Value, op unit value = value := left_id
  induction older generalizing suffix scan with
  | nil =>
    rw [survivingFrom, survivingLast, if_pos hpending, gathered, hright]
    cases scan.activeSegment with
    | none => exact hgathers.empty.symm
    | some segment => exact hright _
  | cons item older ih =>
    obtain ⟨hitem, hrollback⟩ := forall_mem_cons.mp hrollback
    rw [survivingFrom, gathered, foldr_append]
    cases @scanStep rules suffix scan item with
    | closed event segment hevent hclosed hscan =>
      have hsurviving : scan.surviving item = some segment := by
        rw [hevent, surviving, if_pos hpending, hclosed]
      have hnext : (scan.finalize segment).pendingRollbackTurns = 0 := by
        rw [pendingRollbackTurns_finalize, hpending]
        exact ite_self 0
      rw [hsurviving, hscan, activeSegment_of_closedBy hclosed,
        hgathers.other suffix item (by rw [hevent]; rfl), ih hnext hrollback,
        activeSegment_finalize, getD_none, hgathers.empty]
      rfl
    | updated next hnext hscan hsurviving =>
      have hrest := @ih (item :: suffix) { scan with
        activeSegment := some next } hpending hrollback
      rw [hsurviving, hscan, hrest, ← @Std.Associative.assoc _ op _, ← hgathers.update hnext]
      rfl
    | skipped pendingRollbackTurns hother hsame hscan hsurviving =>
      rw [hsurviving, hscan, hgathers.other suffix item hother, hleft]
      exact ih ((hsame hitem).trans hpending) hrollback

theorem Gathers.foldr_survivingSegments {items : List RolloutItem}
    (hrollback : ∀ item ∈ items, isRollback item = false) :
    (survivingSegments rules items).foldr (fun segment value => op (view segment) value) unit =
      gathered op unit given [] items.reverse := by
  refine (hgathers.foldr_survivingFrom rfl ?_).trans ?_
  · simpa using hrollback
  · show op (view {}) _ = _
    rw [hgathers.empty]
    exact left_id _

end

end Gathered

end ReverseScan

open ReverseScan

section

variable {rules : ReplayRules} {items : List RolloutItem}

/-- The checkpoint that a compaction with a history of its own is. -/
def checkpointAt (suffix : List RolloutItem) :
    RolloutItem → Option ReplayCheckpoint
  | .compacted compacted =>
    if compacted.replacementHistory.isSome then some ⟨compacted, suffix⟩
    else none
  | _ => none

def windowAt (rules : ReplayRules) (_ : List RolloutItem) :
    RolloutItem → Option ReconstructedWindow
  | .compacted compacted => ActiveReplaySegment.compactedWindow rules compacted
  | _ => none

def worldRecordAt (_ : List RolloutItem) (item : RolloutItem) : List WorldStateRecord :=
  (worldStateRecord item).toList

theorem scanTurnContext_keeps (context : TurnContextItem) (segment : ActiveReplaySegment) :
    (segment.scanTurnContext context).baseCompaction = segment.baseCompaction ∧
      (segment.scanTurnContext context).window = segment.window ∧
      (segment.scanTurnContext context).worldStateReplay = segment.worldStateReplay := by
  rw [scanTurnContext]
  split_ifs <;> exact ⟨rfl, rfl, rfl⟩

theorem gathers_baseCompaction : Gathers Option.or none checkpointAt rules baseCompaction where
  empty := rfl
  compacted _ _ _ := rfl
  worldState _ _ _ := (or_none).symm
  turnContext context segment := (scanTurnContext_keeps context segment).1
  marked _ _ _ := rfl
  other _ item hitem := by
    cases item with
    | compacted compacted => exact nomatch hitem
    | _ => rfl

theorem gathers_window : Gathers Option.or none (windowAt rules) rules window where
  empty := rfl
  compacted _ _ _ := rfl
  worldState _ _ _ := (or_none).symm
  turnContext context segment := (scanTurnContext_keeps context segment).2.1
  marked _ _ _ := rfl
  other _ item hitem := by
    cases item with
    | compacted compacted => exact nomatch hitem
    | _ => rfl

theorem gathers_worldStateReplay : Gathers (· ++ ·) [] worldRecordAt rules
    worldStateReplay where
  empty := rfl
  compacted _ _ _ := rfl
  worldState _ _ _ := rfl
  turnContext context segment := (scanTurnContext_keeps context segment).2.2
  marked _ _ _ := rfl
  other _ _ hitem := by rw [worldRecordAt, hitem]; rfl

theorem findSome?_eq_foldr_or {Segment Value : Type} (given : Segment → Option Value)
    (segments : List Segment) :
    segments.findSome? given =
      segments.foldr (fun segment value => (given segment).or value) none := by
  induction segments with
  | nil => rfl
  | cons segment segments ih =>
    rw [findSome?_cons, foldr_cons, ← ih]
    cases given segment <;> rfl

variable (hrollback : ∀ item ∈ items, isRollback item = false)
include hrollback

theorem worldStateReplay_survivingSegments :
    (survivingSegments rules items).flatMap worldStateReplay =
      gathered (· ++ ·) [] worldRecordAt [] items.reverse := by
  rw [← gathers_worldStateReplay.foldr_survivingSegments hrollback]
  induction survivingSegments rules items with
  | nil => rfl
  | cons segment segments ih => rw [flatMap_cons, ih, foldr_cons]

end

section

variable {rules : ReplayRules}

/-- Without rollbacks it does not matter where in the rollout the replayed
records stand. -/
theorem envelopes_replayItems {items : List RolloutItem}
    (hrollback : ∀ item ∈ items, isRollback item = false) {first second : List HistoryEntry}
    (hsame : first.map HistoryEntry.envelope = second.map HistoryEntry.envelope)
    (start other : Nat) :
    (replayItems rules first start items).map HistoryEntry.envelope =
      (replayItems rules second other items).map HistoryEntry.envelope := by
  induction items generalizing first second start other with
  | nil => exact hsame
  | cons item items ih =>
    obtain ⟨hitem, hrollback⟩ := forall_mem_cons.mp hrollback
    apply ih hrollback
    cases item with
    | responseItem envelope | interAgentCommunication communication =>
      rw [replayItem, replayItem, recordItem, recordItem]
      split_ifs
      · rw [map_append, map_append, hsame]
        rfl
      · exact hsame
    | compacted compacted =>
      rw [replayItem, replayItem]
      cases compacted.replacementHistory with
      | some history => exact hsame
      | none => simp only [hsame]
    | eventMsg event =>
      cases event with
      | threadRolledBack numTurns => exact nomatch hitem
      | _ => exact hsame
    | _ => exact hsame

end

section

variable {rules : ReplayRules} {items : List RolloutItem}

/-- Where the newest checkpoint has a number for its window, all surviving
segments together tell what the newest of them tell. -/
theorem reconstruct_eq_hydrate_survivingSegments {checkpoint : ReplayCheckpoint}
    (hbase : (survivingSegments rules items).findSome? baseCompaction = some checkpoint)
    (hnumber : checkpoint.compacted.windowNumber.isSome = true) :
    reconstructHistoryFromRollout rules items =
      hydrate rules items ((survivingSegments rules items).foldl ReplayMetadata.absorb {}) := by
  obtain ⟨newer, older, hsplit, hknown, hstretch⟩ := reconstruct_eq_hydrate_stretch rules items
  rw [hknown, hsplit]
  rcases hstretch.met with rfl | hmet
  · rw [append_nil]
  · have hsettled := (settled_foldl_absorb_iff newer).mp hmet
    have hsound := sound_of_mem_stretch hsplit
    refine (hydrate_foldl_absorb_eq_iff hsound hsettled).mpr (.inl ?_)
    -- The newest stretch has a checkpoint, so it has the newest one.
    have hnewer : newer.findSome? baseCompaction = some checkpoint := by
      obtain ⟨found, hfound⟩ :=
        isSome_iff_exists.mp (findSome?_isSome_iff.mpr hsettled.checkpoint)
      rw [hsplit, findSome?_append, hfound] at hbase
      exact hfound.trans hbase
    obtain ⟨segment, hmem, hsegment⟩ := exists_of_findSome?_eq_some hnewer
    rw [newestWindow, findSome?_isSome_iff]
    refine ⟨segment, hmem, isSome_iff_ne_none.mpr fun hnone => ?_⟩
    rw [(hsound segment hmem).window checkpoint hsegment hnone] at hnumber
    cases hnumber

end

end Hexa.Rollout
