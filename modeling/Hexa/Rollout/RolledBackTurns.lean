/-
Which turns a rollback takes back.  The reverse scan counts turns and the
history counts user-turn boundaries.  Read from the newest record on, both are
counts of what the rollbacks still owe, and the two replays agree exactly if
the counts run out together.
-/
import Hexa.Rollout.TurnRecords

namespace Hexa.Rollout

open List ReverseScan

section

variable (rules : ReplayRules)

/-- A record that enters the history as a user-turn boundary. -/
def isBoundaryRecord : RolloutItem → Bool
  | .responseItem envelope => isUserTurnBoundary rules envelope.item
  | .interAgentCommunication _ => true
  | _ => false

/-- A segment of the reverse scan: the positions of its boundaries, and
whether the scan takes it as surviving. -/
structure SegmentOutcome where
  boundaries : List Nat
  survives : Bool
  deriving DecidableEq

def ReverseScan.closes (scan : ReverseScan) :
    RolloutItem → Option ActiveReplaySegment
  | .eventMsg (.turnStarted event) => scan.closedBy event
  | _ => none

/-- The segments of a scan, newest first; the members are the boundaries that
the open segment has so far. -/
def outcomesFrom : List RolloutItem → ReverseScan → List Nat →
    List RolloutItem → List SegmentOutcome
  | _, scan, members, [] =>
    scan.activeSegment.toList.map (fun _ => ⟨members, decide (scan.pendingRollbackTurns = 0)⟩)
  | suffix, scan, members, item :: older =>
    let next := scan.scanItem rules suffix item
    match scan.closes item with
    | some _ =>
      ⟨members, decide (scan.pendingRollbackTurns = 0)⟩ ::
        outcomesFrom (item :: suffix) next [] older
    | none =>
      outcomesFrom (item :: suffix) next
        (if isBoundaryRecord rules item then older.length :: members
        else members) older

variable (items : List RolloutItem)

def segmentOutcomes : List SegmentOutcome := outcomesFrom rules [] {} [] items.reverse

/-- The positions of the boundaries that survive when the records are replayed
forwards. -/
def survivingBoundaries : List Nat :=
  (boundaries rules (replayItems rules [] 0 items)).filterMap HistoryEntry.record

/-- The segments that the scan takes as surviving are those whose boundaries
survive in the history. -/
def TurnsAgree : Prop :=
  ∀ outcome ∈ segmentOutcomes rules items, ∀ position ∈ outcome.boundaries,
    (outcome.survives = true ↔ position ∈ survivingBoundaries rules items)

end

def rolledBackTurns : RolloutItem → Nat
  | .eventMsg (.threadRolledBack numTurns) => numTurns
  | _ => 0

section

variable (rules : ReplayRules)

/-- How many of the older boundaries are owed to the rollbacks that have been
read; `none` stands for all of them, where the history is rebuilt. -/
def owedAfter (owed : Option Nat) (item : RolloutItem) : Option Nat :=
  if isLegacyCompaction item then none
  else if isBoundaryRecord rules item then owed.map (· - 1)
  else owed.map (· + rolledBackTurns item)

/-- Each boundary among the records is met with nothing owed if they are kept,
and with something owed if they are not. -/
def meetsBoundaries (kept : Bool) : Option Nat → List RolloutItem → Bool
  | _, [] => true
  | owed, item :: older =>
    (!isBoundaryRecord rules item || decide (owed = some 0) == kept) &&
      meetsBoundaries kept (owedAfter rules owed item) older

/-- The turns and the boundaries that the rollbacks owe run out together, turn
by turn from the newest one: a turn that is not owed has no boundary that is,
and a turn that is owed has only boundaries that are. -/
def runOutTogether : Nat → Option Nat → List (List RolloutItem) → Bool
  | _, _, [] => true
  | turns, owed, turn :: older =>
    let pending := turns + (turn.map rolledBackTurns).sum
    meetsBoundaries rules (decide (pending = 0)) owed turn &&
      runOutTogether (if turn.any (beginsUserTurn rules) then pending - 1 else pending)
        (turn.foldl (owedAfter rules) owed) older

end

section History

variable {rules : ReplayRules}

/-- What is left of entries, oldest first, when some of them are owed. -/
def leftOf {Entry : Type} (entries : List Entry) : Option Nat → List Entry
  | some count => entries.take (entries.length - count)
  | none => []

section

variable {Entry : Type} (entries : List Entry)

theorem leftOf_zero : leftOf entries (some 0) = entries := take_length

theorem leftOf_subset (owed : Option Nat) : leftOf entries owed ⊆ entries := by
  cases owed with
  | none => exact nil_subset _
  | some count => exact take_subset _ _

theorem leftOf_leftOf (first second : Nat) :
    leftOf (leftOf entries (some first)) (some second) =
      leftOf entries (some (second + first)) := by
  simp only [leftOf, take_take, length_take]
  congr 1
  omega

theorem leftOf_concat (last : Entry) (count : Nat) :
    leftOf (entries ++ [last]) (some count) =
      leftOf entries (some (count - 1)) ++ if count = 0 then [last] else [] := by
  cases count with
  | zero => simp [leftOf]
  | succ count =>
    rw [leftOf, leftOf, if_neg (Nat.succ_ne_zero count), append_nil, length_append,
      take_append_of_le_length (by simp)]
    simp

end

variable (rules) in
/-- What the records owe of the boundaries before them. -/
def owedBy (items : List RolloutItem) : Option Nat :=
  items.foldr (fun item owed => owedAfter rules owed item) (some 0)

variable (rules) in
/-- The positions of the boundaries that nothing after them owes. -/
def keptPositions : Nat → List RolloutItem → List Nat
  | _, [] => []
  | start, item :: later =>
    (if isBoundaryRecord rules item ∧ owedBy rules later = some 0 then [start] else []) ++
      keptPositions (start + 1) later

theorem isUserTurnBoundary_processed (envelope : ResponseItemEnvelope) :
    isUserTurnBoundary rules (processed rules envelope).item =
      isUserTurnBoundary rules envelope.item := by
  rw [processed]
  split
  · rename_i hitem
    rw [hitem]
    rfl
  · rfl

/-- A boundary is never kept out of the history. -/
theorem isApiMessage_of_isUserTurnBoundary {item : ResponseItem}
    (hitem : isUserTurnBoundary rules item = true) (metadata : Option CodexHarnessMetadata) :
    isApiMessage item metadata = true := by
  cases item with
  | message message =>
    rw [isApiMessage, decide_eq_true_eq]
    rintro hrole
    simp [isUserTurnBoundary, hrole] at hitem
  | agentMessage message => rfl
  | _ => simp [isUserTurnBoundary] at hitem

theorem boundaries_recordItem (history : List HistoryEntry) (envelope : ResponseItemEnvelope)
    (record : Nat) :
    (boundaries rules (recordItem rules history envelope record)).map HistoryEntry.record =
      (boundaries rules history).map HistoryEntry.record ++
        if isUserTurnBoundary rules envelope.item then [some record]
        else [] := by
  have hprocessed := @isUserTurnBoundary_processed rules envelope
  rw [recordItem]
  by_cases hboundary : isUserTurnBoundary rules envelope.item = true
  · rw [if_pos (isApiMessage_of_isUserTurnBoundary hboundary _)]
    simp [boundaries, HistoryEntry.isBoundary, hprocessed, hboundary]
  · rw [if_neg hboundary, append_nil]
    split_ifs
    · simp [boundaries, HistoryEntry.isBoundary, hprocessed, hboundary]
    · rfl

variable (history : List HistoryEntry) (record : Nat)

/-- A record takes as many boundaries from the history as it rolls back, and
adds itself if it is one. -/
theorem boundaries_replayItem {item : RolloutItem} (hlegacy : isLegacyCompaction item = false) :
    (boundaries rules (replayItem rules history record item)).map HistoryEntry.record =
      leftOf ((boundaries rules history).map HistoryEntry.record) (some (rolledBackTurns item)) ++
        if isBoundaryRecord rules item then [some record] else [] := by
  have hsame : (boundaries rules history).map HistoryEntry.record =
      leftOf ((boundaries rules history).map HistoryEntry.record) (some 0) ++
        if false then [some record] else [] := by
    rw [leftOf_zero, if_neg (by decide), append_nil]
  cases item with
  | responseItem envelope =>
    refine (boundaries_recordItem history envelope record).trans ?_
    exact congrArg (· ++ _) (leftOf_zero _).symm
  | interAgentCommunication communication =>
    refine (boundaries_recordItem history _ record).trans ?_
    exact congrArg (· ++ _) (leftOf_zero _).symm
  | compacted compacted =>
    obtain ⟨replacement, hreplacement⟩ :=
      Option.isSome_iff_exists.mp (Option.isNone_eq_false_iff.mp hlegacy)
    rw [replayItem, hreplacement]
    exact hsame
  | eventMsg event =>
    cases event with
    | threadRolledBack numTurns =>
      rw [replayItem, boundaries_dropLastNUserTurns, map_take]
      simp [isBoundaryRecord, leftOf, rolledBackTurns]
    | _ => exact hsame
  | _ => exact hsame

/-- Nothing of a rebuilt history is a record of the rollout. -/
theorem record_of_mem_legacy {item : RolloutItem} (hlegacy : isLegacyCompaction item = true)
    {entry : Option Nat}
    (hentry : entry ∈ (boundaries rules (replayItem rules history record item)).map
      HistoryEntry.record) : entry = none := by
  cases item with
  | compacted compacted =>
    rw [replayItem, Option.isNone_iff_eq_none.mp hlegacy] at hentry
    obtain ⟨rebuilt, hrebuilt, rfl⟩ := mem_map.mp hentry
    obtain ⟨envelope, -, rfl⟩ := mem_map.mp (mem_filter.mp hrebuilt).1
    rfl
  | _ => cases hlegacy

theorem isBoundaryRecord_of_legacy {item : RolloutItem}
    (hlegacy : isLegacyCompaction item = true) : isBoundaryRecord rules item = false := by
  cases item with
  | compacted compacted => rfl
  | _ => cases hlegacy

theorem rolledBackTurns_of_boundary {item : RolloutItem}
    (hboundary : isBoundaryRecord rules item = true) : rolledBackTurns item = 0 := by
  cases item with
  | eventMsg event => cases hboundary
  | _ => rfl

/-- What later records leave of the boundaries after a record. -/
theorem leftOf_replayItem (item : RolloutItem) (owed : Option Nat) :
    (leftOf ((boundaries rules (replayItem rules history record item)).map
        HistoryEntry.record) owed).filterMap id =
      (leftOf ((boundaries rules history).map HistoryEntry.record)
        (owedAfter rules owed item)).filterMap id ++
        if isBoundaryRecord rules item ∧ owed = some 0 then [record] else [] := by
  cases hlegacy : isLegacyCompaction item with
  | true =>
    rw [owedAfter, if_pos hlegacy, isBoundaryRecord_of_legacy hlegacy]
    simp only [Bool.false_eq_true, false_and, if_false, append_nil, leftOf, filterMap_nil]
    exact filterMap_eq_nil_iff.mpr fun entry hentry =>
      record_of_mem_legacy history record hlegacy (leftOf_subset _ owed hentry)
  | false =>
    rw [boundaries_replayItem history record hlegacy, owedAfter, hlegacy]
    cases owed with
    | none => simp [leftOf]
    | some count =>
      cases hboundary : isBoundaryRecord rules item with
      | true =>
        rw [rolledBackTurns_of_boundary hboundary, leftOf_zero, if_pos rfl, leftOf_concat,
          filterMap_append]
        by_cases hcount : count = 0
        · simp [hcount]
        · simp [hcount]
      | false => simp [leftOf_leftOf]

theorem filterMap_replayItems (items : List RolloutItem) :
    ((boundaries rules (replayItems rules history record items)).map
        HistoryEntry.record).filterMap id =
      (leftOf ((boundaries rules history).map HistoryEntry.record)
        (owedBy rules items)).filterMap id ++ keptPositions rules record items := by
  induction items generalizing history record with
  | nil => rw [replayItems, owedBy, foldr_nil, leftOf_zero, keptPositions, append_nil]
  | cons item later ih =>
    rw [replayItems, ih, leftOf_replayItem, append_assoc]
    rfl

theorem survivingBoundaries_eq (items : List RolloutItem) :
    survivingBoundaries rules items = keptPositions rules 0 items := by
  have hreplay := @filterMap_replayItems rules [] 0 items
  rw [filterMap_map] at hreplay
  rw [survivingBoundaries]
  refine hreplay.trans ?_
  cases owedBy rules items <;> simp [leftOf, boundaries]

theorem le_of_mem_keptPositions {start position : Nat} {items : List RolloutItem}
    (hposition : position ∈ keptPositions rules start items) : start ≤ position := by
  induction items generalizing start with
  | nil => cases hposition
  | cons item later ih =>
    rcases mem_append.mp hposition with hhere | hlater
    · split_ifs at hhere
      · exact (mem_singleton.mp hhere).ge
      · cases hhere
    · have := ih hlater
      omega

/-- A boundary survives if nothing is owed after it. -/
theorem mem_keptPositions (start : Nat) (before later : List RolloutItem) (item : RolloutItem) :
    start + before.length ∈ keptPositions rules start (before ++ item :: later) ↔
      isBoundaryRecord rules item = true ∧ owedBy rules later = some 0 := by
  induction before generalizing start with
  | nil =>
    have hlater : start ∉ keptPositions rules (start + 1) later := by
      intro hmem
      have := le_of_mem_keptPositions hmem
      omega
    rw [nil_append, keptPositions, mem_append, length_nil, Nat.add_zero]
    split_ifs with hkept
    · simp [hkept]
    · simp [hkept, hlater]
  | cons first before ih =>
    rw [cons_append, keptPositions, mem_append, length_cons]
    have hrest := ih (start + 1)
    rw [Nat.add_assoc, Nat.add_comm 1] at hrest
    rw [hrest]
    split_ifs <;> simp

theorem mem_survivingBoundaries (before later : List RolloutItem) (item : RolloutItem) :
    before.length ∈ survivingBoundaries rules (before ++ item :: later) ↔
      isBoundaryRecord rules item = true ∧ owedBy rules later = some 0 := by
  have hmem := @mem_keptPositions rules 0 before later item
  rwa [Nat.zero_add, ← survivingBoundaries_eq] at hmem

end History

section Scan

variable {rules : ReplayRules}

section

variable {scan : ReverseScan} {item : RolloutItem} (suffix : List RolloutItem)
  (hopen : ∀ event, item = .eventMsg (.turnStarted event) → scan.closedBy event = none)
include hopen

theorem pendingRollbackTurns_scanItem :
    (scan.scanItem rules suffix item).pendingRollbackTurns =
      scan.pendingRollbackTurns + rolledBackTurns item := by
  cases item with
  | eventMsg event =>
    cases event with
    | turnStarted event =>
      rw [scanItem, hopen event rfl]
      rfl
    | turnAborted event =>
      rw [scanItem, scanTurnAborted]
      split
      · rfl
      · split <;> rfl
    | _ => rfl
  | _ => rfl

/-- A boundary leaves the turn that it stands in open. -/
theorem closed_of_scanItem_closed
    (hclosed : (scan.scanItem rules suffix item).activeSegment = none) :
    scan.activeSegment = none ∧ isBoundaryRecord rules item = false := by
  cases item with
  | eventMsg event =>
    refine ⟨?_, rfl⟩
    cases event with
    | turnStarted event => rwa [scanItem, hopen event rfl] at hclosed
    | turnAborted event =>
      rw [scanItem, scanTurnAborted] at hclosed
      split at hclosed
      · cases hclosed
      next hactive => exact hactive
    | turnComplete event | userMessage event => cases hclosed
    | _ => exact hclosed
  | responseItem envelope | interAgentCommunication communication => cases hclosed
  | compacted compacted | turnContext context | worldState item => cases hclosed
  | _ => exact ⟨hclosed, rfl⟩

end

theorem meetsBoundaries_concat (kept : Bool) (owed : Option Nat) (turn : List RolloutItem)
    (item : RolloutItem) :
    meetsBoundaries rules kept owed (turn ++ [item]) =
      (meetsBoundaries rules kept owed turn && (!isBoundaryRecord rules item ||
        decide (turn.foldl (owedAfter rules) owed = some 0) == kept)) := by
  induction turn generalizing owed with
  | nil => exact Bool.and_comm _ _
  | cons first turn ih =>
    rw [cons_append, meetsBoundaries, ih, meetsBoundaries, Bool.and_assoc]
    rfl

variable {items : List RolloutItem}

/-- The scan has read some records of a turn, which it came to with turns and
boundaries owed. -/
structure Reading (rules : ReplayRules) (items : List RolloutItem) (turns : Nat)
    (owed : Option Nat) (turn suffix : List RolloutItem) (scan : ReverseScan)
    (members : List Nat) : Prop where
  summary : Summarises rules turn (scan.activeSegment.getD {})
  pending : scan.pendingRollbackTurns = turns + (turn.map rolledBackTurns).sum
  taken : owedBy rules suffix = turn.foldl (owedAfter rules) owed
  meets : ∀ kept : Bool, (∀ position ∈ members,
    (kept = true ↔ position ∈ survivingBoundaries rules items)) ↔
      meetsBoundaries rules kept owed turn = true
  closed : scan.activeSegment = none → members = []

variable {turns : Nat} {owed : Option Nat} {turn suffix older : List RolloutItem}
  {scan : ReverseScan} {members : List Nat} {item : RolloutItem}

theorem Reading.add (hreading : Reading rules items turns owed turn suffix scan members)
    (hitems : items = older.reverse ++ item :: suffix)
    (hopen : ∀ event, item = .eventMsg (.turnStarted event) → scan.closedBy event = none) :
    Reading rules items turns owed (turn ++ [item]) (item :: suffix)
      (scan.scanItem rules suffix item)
      (if isBoundaryRecord rules item then older.length :: members else members) where
  summary := hreading.summary.adds (adds_scanItem scan suffix hopen)
  pending := by
    rw [pendingRollbackTurns_scanItem suffix hopen, hreading.pending]
    simp [Nat.add_assoc]
  taken := by
    rw [foldl_append, foldl_cons, foldl_nil, ← hreading.taken]
    rfl
  meets kept := by
    rw [meetsBoundaries_concat, Bool.and_eq_true, ← hreading.meets kept, ← hreading.taken]
    cases hboundary : isBoundaryRecord rules item with
    | false => simp
    | true =>
      have hhere := @mem_survivingBoundaries rules older.reverse suffix item
      rw [← hitems, length_reverse, hboundary] at hhere
      rw [if_pos rfl, forall_mem_cons, hhere, and_comm]
      cases kept <;> simp
  closed hclosed := by
    obtain ⟨hbefore, hboundary⟩ := closed_of_scanItem_closed suffix hopen hclosed
    rw [if_neg (by simp [hboundary]), hreading.closed hbefore]

/-- The start of a turn takes one of the owed turns, if it is a user turn. -/
theorem Reading.next (hreading : Reading rules items turns owed turn suffix scan members)
    {event : TurnStartedEvent} (hclosed : scan.closedBy event = scan.activeSegment) :
    Reading rules items
      (if turn.any (beginsUserTurn rules) then scan.pendingRollbackTurns - 1
        else scan.pendingRollbackTurns)
      (turn.foldl (owedAfter rules) owed) [] (.eventMsg (.turnStarted event) :: suffix)
      (scan.scanItem rules suffix (.eventMsg (.turnStarted event))) [] := by
  have howed : owedBy rules (.eventMsg (.turnStarted event) :: suffix) =
      turn.foldl (owedAfter rules) owed := by
    rw [← hreading.taken]
    show (owedBy rules suffix).map (· + 0) = _
    simp
  have hcounts := hreading.summary.counts
  rw [scanItem, hclosed]
  cases hactive : scan.activeSegment with
  | none =>
    rw [hactive, Option.getD_none] at hcounts
    refine ⟨summarises_getD_none hactive, ?_, howed, fun _ => ?_, fun _ => rfl⟩
    · rw [← hcounts]
      rfl
    · simp [meetsBoundaries]
  | some segment =>
    rw [hactive, Option.getD_some] at hcounts
    refine ⟨summarises_getD_none rfl, ?_, howed, fun _ => ?_, fun _ => rfl⟩
    · rw [← hcounts]
      exact pendingRollbackTurns_finalize scan segment
    · simp [meetsBoundaries]

/-- The segments of the scan agree with the history exactly if what is owed
runs out together over the turns. -/
theorem Reading.agree_iff (hreading : Reading rules items turns owed turn suffix scan members)
    (hitems : items = older.reverse ++ suffix) :
    (∀ outcome ∈ outcomesFrom rules suffix scan members older, ∀ position ∈ outcome.boundaries,
        (outcome.survives = true ↔ position ∈ survivingBoundaries rules items)) ↔
      runOutTogether rules turns owed (allTurns turn older) = true := by
  induction older generalizing turns owed turn suffix scan members with
  | nil =>
    have hmembers := hreading.meets (decide (scan.pendingRollbackTurns = 0))
    simp only [allTurns, closedTurns, openTurn, nil_append, runOutTogether, Bool.and_true,
      ← hreading.pending]
    rw [← hmembers, outcomesFrom]
    cases hactive : scan.activeSegment with
    | none => simp [hreading.closed hactive]
    | some segment => simp
  | cons item older ih =>
    have hsplit : items = older.reverse ++ item :: suffix := by simpa using hitems
    cases hstarts : startsTurn turn item with
    | true =>
      obtain ⟨event, rfl⟩ := exists_event_of_startsTurn hstarts
      have hclosed : scan.closedBy event = scan.activeSegment := by
        rw [closedBy_eq hreading.summary, if_pos hstarts]
      rw [allTurns_cons_start hstarts, runOutTogether, ← hreading.pending, Bool.and_eq_true,
        ← hreading.meets, ← ih (hreading.next hclosed) (by simpa using hitems), outcomesFrom,
        closes, hclosed]
      cases hactive : scan.activeSegment with
      | none => simp [hreading.closed hactive, isBoundaryRecord]
      | some segment => simp
    | false =>
      have hopen := closedBy_eq_none_of_not_startsTurn hreading.summary hstarts
      have hcloses : scan.closes item = none := by
        unfold closes
        split
        · exact hopen _ rfl
        · rfl
      rw [allTurns_cons_inside hstarts, outcomesFrom, hcloses]
      exact ih (hreading.add hsplit hopen) (by simpa using hitems)

end Scan

/-- Rules under which a user message is always a boundary. -/
def userRules : ReplayRules where
  isContextualUserFragment _ := false
  isContextualDevFragment _ := false
  isInterAgentCommunicationText _ := false
  isRebuiltText _ := false
  truncateFunctionOutput _ output := output
  buildCompactedHistory _ _ := []
  parseUuidV7 _ := none
  applyMergePatch _ patch := patch

def userRecord (text : Text) : RolloutItem :=
  .responseItem ⟨.message { role := .user, content := [.inputText text] }, none⟩

/-- A turn of one message, one that was steered by a second message, and a
rollback of two turns. -/
def steeredTurnRolledBack : List RolloutItem :=
  [.eventMsg (.turnStarted { turnId := ['a'] }), userRecord ['x'],
    .eventMsg (.turnStarted { turnId := ['b'] }), userRecord ['y'], userRecord ['z'],
    .eventMsg (.threadRolledBack 2)]

/-- A turn that a foreign event has ended, before one that is rolled back. -/
example :
    runOutTogether userRules 0 (some 0) (allTurns []
      [.eventMsg (.turnStarted { turnId := ['a'] }), userRecord ['x'],
        .eventMsg (.turnComplete { turnId := ['c'] }),
        .eventMsg (.turnStarted { turnId := ['b'] }), userRecord ['y'],
        .eventMsg (.threadRolledBack 1)].reverse) = true := by
  decide

end Hexa.Rollout
