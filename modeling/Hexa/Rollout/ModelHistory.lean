/-
The history that the model is sent: how records enter it, and how a rollback
cuts it at a user-turn boundary.
-/
import Hexa.Rollout.Records

namespace Hexa.Rollout

open List Option

/-- What the replay asks of the registry of contextual fragments, of the JSON
and UUID parsers, of the truncation policy and of legacy compaction. -/
structure ReplayRules where
  isContextualUserFragment : ContentItem → Bool
  isContextualDevFragment : ContentItem → Bool
  isInterAgentCommunicationText : Text → Bool
  /-- Model switches and persistent modes, which the next step rebuilds. -/
  isRebuiltText : Text → Bool
  truncateFunctionOutput : Option Nat → Text → Text
  buildCompactedHistory : List ResponseItemEnvelope → Text → List ResponseItemEnvelope
  parseUuidV7 : Text → Option Text
  applyMergePatch : Text → Text → Text

def ResponseItem.stampedTurnId : ResponseItem → Option Text
  | .message stamped => stamped.turnId
  | .agentMessage stamped => stamped.turnId
  | .fixed _ _ turnId => turnId
  | _ => none

def ResponseItem.turnId (item : ResponseItem) : Option Text := item.stampedTurnId.filter (· ≠ [])

section

variable (rules : ReplayRules) (content : List ContentItem)

def isContextualUserMessageContent : Bool := content.any rules.isContextualUserFragment

def isContextualDevMessageContent : Bool := content.any rules.isContextualDevFragment

def isInterAgentInstructionContent : List ContentItem → Bool
  | [.inputText text] => rules.isInterAgentCommunicationText text
  | [.outputText text] => rules.isInterAgentCommunicationText text
  | _ => false

def isUserTurnBoundary : ResponseItem → Bool
  | .agentMessage _ => true
  | .message message =>
    match message.role with
    | .user => !isContextualUserMessageContent rules message.content
    | .assistant => isInterAgentInstructionContent rules message.content
    | _ => false
  | _ => false

/-- Context updates stand directly above the turn that they are for. -/
def isPreTurnContextUpdate : ResponseItem → Bool
  | .message message =>
    match message.role with
    | .developer => isContextualDevMessageContent rules message.content
    | .user => isContextualUserMessageContent rules message.content
    | _ => false
  | _ => false

theorem isUserTurnBoundary_of_isPreTurnContextUpdate {item : ResponseItem}
    (hitem : isPreTurnContextUpdate rules item = true) :
    isUserTurnBoundary rules item = false := by
  cases item with
  | message message =>
    simp only [isPreTurnContextUpdate, isUserTurnBoundary] at hitem ⊢
    split at hitem <;> simp_all
  | _ => simp [isPreTurnContextUpdate] at hitem

end

/-- An envelope of the history and the position of its record in the rollout,
which the source does not keep. -/
structure HistoryEntry where
  envelope : ResponseItemEnvelope
  record : Option Nat
  deriving DecidableEq

def isApiMessage (item : ResponseItem) (metadata : Option CodexHarnessMetadata) : Bool :=
  match item with
  | .message message => decide (message.role ≠ .system)
  | .configurationUpdate _ => metadata.any CodexHarnessMetadata.harnessAuthoredConfiguration
  | .compactionTrigger => false
  | .other => false
  | _ => true

section History

variable (rules : ReplayRules)

def processed (envelope : ResponseItemEnvelope) : ResponseItemEnvelope :=
  match envelope.item with
  | .toolOutput kind callId output =>
    let limit := envelope.metadata.bind CodexHarnessMetadata.fallbackTokenLimitOverride
    { envelope with
      item := .toolOutput kind callId (rules.truncateFunctionOutput limit output) }
  | _ => envelope

variable (history : List HistoryEntry)

def recordItem (envelope : ResponseItemEnvelope) (record : Nat) : List HistoryEntry :=
  if isApiMessage envelope.item envelope.metadata then
    history ++ [⟨processed rules envelope, some record⟩]
  else history

def HistoryEntry.isBoundary (entry : HistoryEntry) : Bool :=
  isUserTurnBoundary rules entry.envelope.item

def HistoryEntry.isContextUpdate (entry : HistoryEntry) : Bool :=
  isPreTurnContextUpdate rules entry.envelope.item

/-- The positions of the boundaries in a history that begins at a position. -/
def userMessagePositions : Nat → List HistoryEntry → List Nat
  | _, [] => []
  | start, entry :: entries =>
    if entry.isBoundary rules then start :: userMessagePositions (start + 1) entries
    else userMessagePositions (start + 1) entries

/-- Walks back from a cut over the context updates above it. -/
def trimPreTurnContextUpdates (snapshot : List HistoryEntry) (firstInstructionTurn : Nat) :
    Nat → Nat
  | 0 => 0
  | cut + 1 =>
    if firstInstructionTurn < cut + 1 ∧
        snapshot[cut]?.any (HistoryEntry.isContextUpdate rules) then
      trimPreTurnContextUpdates snapshot firstInstructionTurn cut
    else cut + 1

/-- The content of a message with the kind of each part. -/
def annotatedContent (message : Message) : List (ContentItem × Text) :=
  let kinds := message.contentItemKinds.getD []
  message.content.zip (kinds ++ List.replicate message.content.length "unknown".toList)

def isRebuiltContent : ContentItem → Bool
  | .inputText text => rules.isRebuiltText text
  | _ => false

/-- A message without the content that the next step rebuilds. -/
def withoutRebuiltContent (message : Message) : Option Message :=
  let content := (annotatedContent message).filter (fun part => !isRebuiltContent rules part.1)
  if content.isEmpty then none
  else some { message with
    content := content.map Prod.fst
    contentItemKinds := some (content.map Prod.snd) }

/-- What stays of an entry above the first turn when that turn is removed. -/
def stripFirstTurn (firstTurnId : Text) (entry : HistoryEntry) : Option HistoryEntry :=
  match entry.envelope.item with
  | .message message =>
    if (ResponseItem.message message).turnId = some firstTurnId ∧ message.role = .developer then
      (withoutRebuiltContent rules message).map (fun message =>
        { entry with
          envelope := { entry.envelope with item := .message message } })
    else some entry
  | _ => some entry

/-- Where a rollback cuts, before context updates are walked over. -/
def rollbackCut (first : Nat) (positions : List Nat) (numTurns : Nat) : Nat :=
  if numTurns ≥ positions.length then first
  else positions.getD (positions.length - numTurns) first

def dropLastNUserTurns (numTurns : Nat) : List HistoryEntry :=
  if numTurns = 0 then history
  else
    let positions := userMessagePositions rules 0 history
    match positions with
    | [] => history
    | first :: _ =>
      let cut := trimPreTurnContextUpdates rules history first
        (rollbackCut first positions numTurns)
      let retained := history.take cut
      match history[first]?.bind (fun entry => entry.envelope.item.turnId) with
      | some firstTurnId =>
        if cut = first then retained.filterMap (stripFirstTurn rules firstTurnId)
        else retained
      | none => retained

/-- One record of the tail that is replayed forwards. A checkpoint with a
history of its own that is met here belongs to a turn that was rolled back. -/
def replayItem (record : Nat) :
    RolloutItem → List HistoryEntry
  | .responseItem envelope => recordItem rules history envelope record
  | .interAgentCommunication communication =>
    recordItem rules history ⟨communication.toModelInputItem, none⟩ record
  | .compacted item =>
    match item.replacementHistory with
    | some _ => history
    | none =>
      (rules.buildCompactedHistory (history.map HistoryEntry.envelope)
        item.message).map (fun envelope => ⟨envelope, none⟩)
  | .eventMsg (.threadRolledBack numTurns) => dropLastNUserTurns rules history numTurns
  | _ => history

def replayItems (history : List HistoryEntry) (record : Nat) :
    List RolloutItem → List HistoryEntry
  | [] => history
  | item :: items => replayItems (replayItem rules history record item) (record + 1) items

end History

section Cut

variable {rules : ReplayRules} {history before after : List HistoryEntry}
  {entry boundary : HistoryEntry} {numTurns : Nat} {firstTurnId : Text}

/-- The boundaries of a history, oldest first. -/
def boundaries (rules : ReplayRules) (history : List HistoryEntry) : List HistoryEntry :=
  history.filter (HistoryEntry.isBoundary rules)

theorem boundaries_append (first second : List HistoryEntry) :
    boundaries rules (first ++ second) = boundaries rules first ++ boundaries rules second :=
  filter_append ..

theorem length_userMessagePositions (start : Nat) (history : List HistoryEntry) :
    (userMessagePositions rules start history).length = (boundaries rules history).length := by
  induction history generalizing start with
  | nil => rfl
  | cons entry entries ih =>
    rw [userMessagePositions, boundaries, filter_cons]
    split_ifs <;> simp [ih, boundaries]

theorem userMessagePositions_append (start : Nat) (first second : List HistoryEntry) :
    userMessagePositions rules start (first ++ second) = userMessagePositions rules start first ++
        userMessagePositions rules (start + first.length) second := by
  induction first generalizing start with
  | nil => rfl
  | cons entry entries ih =>
    rw [cons_append, userMessagePositions, userMessagePositions, ih,
      Nat.add_assoc, Nat.add_comm 1]
    split_ifs <;> rfl

/-- Every boundary has as many boundaries before it as its index says. -/
theorem exists_boundary_at {index : Nat} (hindex : index < (boundaries rules history).length) :
    ∃ before entry after, history = before ++ entry :: after ∧
      entry.isBoundary rules = true ∧ (boundaries rules before).length = index := by
  induction history generalizing index with
  | nil => cases hindex
  | cons entry entries ih =>
    by_cases hentry : entry.isBoundary rules = true
    · cases index with
      | zero => exact ⟨[], entry, entries, rfl, hentry, rfl⟩
      | succ index =>
        rw [boundaries, filter_cons_of_pos hentry] at hindex
        obtain ⟨before, found, after, rfl, hfound, rfl⟩ := ih (Nat.lt_of_succ_lt_succ hindex)
        exact ⟨entry :: before, found, after, rfl, hfound, by simp [boundaries, hentry]⟩
    · rw [boundaries, filter_cons_of_neg hentry] at hindex
      obtain ⟨before, found, after, rfl, hfound, rfl⟩ := ih hindex
      exact ⟨entry :: before, found, after, rfl, hfound, by simp [boundaries, hentry]⟩

/-- The walk reads nothing behind the cut. -/
theorem trimPreTurnContextUpdates_append {cut : Nat} (first : Nat) (hcut : cut ≤ history.length) :
    trimPreTurnContextUpdates rules (history ++ after) first cut =
      trimPreTurnContextUpdates rules history first cut := by
  induction cut with
  | zero => rfl
  | succ cut ih =>
    rw [trimPreTurnContextUpdates, trimPreTurnContextUpdates,
      getElem?_append_left hcut, ih (Nat.le_of_succ_le hcut)]

theorem trimPreTurnContextUpdates_le (history : List HistoryEntry) (first cut : Nat) :
    trimPreTurnContextUpdates rules history first cut ≤ cut := by
  induction cut with
  | zero => rfl
  | succ cut ih =>
    rw [trimPreTurnContextUpdates]
    split_ifs
    · exact Nat.le_succ_of_le ih
    · rfl

/-- A cut that is walked back over context updates loses no boundary. -/
theorem boundaries_take_trim (history : List HistoryEntry) (first cut : Nat) :
    boundaries rules (history.take (trimPreTurnContextUpdates rules history first cut)) =
      boundaries rules (history.take cut) := by
  induction cut with
  | zero => rfl
  | succ cut ih =>
    rw [trimPreTurnContextUpdates]
    split_ifs with hupdate
    · rw [ih, take_add_one, boundaries, boundaries]
      cases hentry : history[cut]? with
      | none => simp
      | some entry =>
        have hcontext : entry.isContextUpdate rules = true := by simpa [hentry] using hupdate.2
        have hplain : entry.isBoundary rules = false :=
          isUserTurnBoundary_of_isPreTurnContextUpdate rules hcontext
        simp [hplain]
    · rfl

theorem role_withoutRebuiltContent {message kept : Message}
    (hkept : withoutRebuiltContent rules message = some kept) : kept.role = message.role := by
  obtain ⟨-, hsome⟩ := ite_none_left_eq_some.mp hkept
  obtain rfl := some.inj hsome
  rfl

/-- What is stripped above the first turn are developer messages. -/
theorem boundaries_stripFirstTurn_toList (firstTurnId : Text) (entry : HistoryEntry) :
    boundaries rules (stripFirstTurn rules firstTurnId entry).toList =
      boundaries rules [entry] := by
  rw [stripFirstTurn]
  split
  · rename_i message hmessage
    split_ifs with hdeveloper
    · have hentry : entry.isBoundary rules = false := by
        rw [HistoryEntry.isBoundary, hmessage, isUserTurnBoundary, hdeveloper.2]
      cases hkept : withoutRebuiltContent rules message with
      | none => simp [boundaries, hentry]
      | some kept =>
        have hrole := role_withoutRebuiltContent hkept
        rw [boundaries, boundaries, filter_singleton, hentry]
        simp [HistoryEntry.isBoundary, isUserTurnBoundary, hrole, hdeveloper.2]
    · rfl
  · rfl

theorem boundaries_filterMap_stripFirstTurn (firstTurnId : Text) (history : List HistoryEntry) :
    boundaries rules (history.filterMap (stripFirstTurn rules firstTurnId)) =
      boundaries rules history := by
  induction history with
  | nil => rfl
  | cons entry entries ih =>
    have hhead := @boundaries_stripFirstTurn_toList rules firstTurnId entry
    rw [← singleton_append, filterMap_append, boundaries_append, boundaries_append, ih, ← hhead]
    rfl

/-- What a rollback to a boundary keeps of the entries before it. -/
def keptBefore (rules : ReplayRules) (before : List HistoryEntry) (boundary : HistoryEntry) :
    List HistoryEntry :=
  match userMessagePositions rules 0 before with
  | [] => before.filterMap (boundary.envelope.item.turnId.elim some (stripFirstTurn rules))
  | first :: _ => before.take (trimPreTurnContextUpdates rules before first before.length)

theorem boundaries_keptBefore (before : List HistoryEntry) (boundary : HistoryEntry) :
    boundaries rules (keptBefore rules before boundary) = boundaries rules before := by
  rw [keptBefore]
  split
  · cases boundary.envelope.item.turnId with
    | none => rw [elim_none, filterMap_some]
    | some turnId => exact boundaries_filterMap_stripFirstTurn turnId before
  · rw [boundaries_take_trim, take_length]

theorem dropLastNUserTurns_of_no_boundary
    (hnone : boundaries rules history = []) (numTurns : Nat) :
    dropLastNUserTurns rules history numTurns = history := by
  have hlength := @length_userMessagePositions rules 0 history
  rw [hnone, length_nil, length_eq_zero_iff] at hlength
  rw [dropLastNUserTurns, hlength]
  split_ifs <;> rfl

/-- A rollback cuts at the boundary that the count from the end names. -/
theorem dropLastNUserTurns_eq_keptBefore (hturns : numTurns ≠ 0)
    (hboundary : boundary.isBoundary rules = true) (hcount : (boundaries rules before).length =
      (boundaries rules (before ++ boundary :: after)).length - numTurns) :
    dropLastNUserTurns rules (before ++ boundary :: after) numTurns =
      keptBefore rules before boundary := by
  rw [← @length_userMessagePositions rules 0, ← @length_userMessagePositions rules 0] at hcount
  rw [dropLastNUserTurns, if_neg hturns]
  rw [userMessagePositions_append, userMessagePositions, if_pos hboundary,
    Nat.zero_add] at hcount ⊢
  rw [keptBefore]
  cases hpositions : userMessagePositions rules 0 before with
  | nil =>
    have hstop : trimPreTurnContextUpdates rules (before ++ boundary :: after)
        before.length before.length = before.length := by
      cases before.length with
      | zero => rfl
      | succ length => exact if_neg (by simp)
    rw [hpositions, length_nil, nil_append, eq_comm, Nat.sub_eq_zero_iff_le] at hcount
    simp only [nil_append]
    rw [rollbackCut, if_pos hcount, hstop, take_left,
      getElem?_append_right le_rfl, Nat.sub_self, getElem?_cons_zero, bind_some]
    cases boundary.envelope.item.turnId with
    | none => exact filterMap_some.symm
    | some firstTurnId => exact if_pos rfl
  | cons first others =>
    rw [hpositions, length_append] at hcount
    have hindex : (first :: others ++ before.length :: userMessagePositions
        rules (before.length + 1) after).length - numTurns = (first :: others).length := by
      rw [length_append, ← hcount]
    simp only [cons_append] at hindex ⊢
    rw [rollbackCut, hindex, if_neg (by
        simp only [length_cons, length_append] at hcount ⊢; omega),
      getD_eq_getElem?_getD, ← cons_append, getElem?_append_right le_rfl,
      Nat.sub_self, getElem?_cons_zero, getD_some,
      trimPreTurnContextUpdates_append _ le_rfl,
      take_append_of_le_length (trimPreTurnContextUpdates_le ..)]
    split
    · rw [if_neg (fun hcut => ?_)]
      -- the first turn stays, so the cut is behind it
      have hkept := @boundaries_take_trim rules before first before.length
      have hlength := @length_userMessagePositions rules 0 before
      rw [hpositions] at hlength
      obtain ⟨above, entry, rest, rfl, hentry, hnone⟩ :=
        exists_boundary_at (Nat.lt_of_lt_of_eq (Nat.succ_pos _) hlength)
      have habove := @length_userMessagePositions rules 0 above
      rw [hnone, length_eq_zero_iff] at habove
      rw [userMessagePositions_append, habove, userMessagePositions,
        if_pos hentry, Nat.zero_add] at hpositions
      rw [hcut, ← (cons.inj hpositions).1, take_left, take_length] at hkept
      rw [← hkept, hnone] at hlength
      cases hlength
    · rfl

theorem exists_keptBefore (hturns : numTurns ≠ 0) (hsome : boundaries rules history ≠ []) :
    ∃ before boundary after, history = before ++ boundary :: after ∧
      (boundaries rules before).length = (boundaries rules history).length - numTurns ∧
      boundary.isBoundary rules = true ∧
      dropLastNUserTurns rules history numTurns = keptBefore rules before boundary := by
  have hpos := length_pos_iff.mpr hsome
  obtain ⟨before, boundary, after, rfl, hboundary, hcount⟩ :=
    exists_boundary_at (Nat.sub_lt hpos (Nat.pos_of_ne_zero hturns))
  exact ⟨before, boundary, after, rfl, hcount, hboundary,
    dropLastNUserTurns_eq_keptBefore hturns hboundary hcount⟩

/-- A rollback takes away the last boundaries, as many as it names. -/
theorem boundaries_dropLastNUserTurns (history : List HistoryEntry) (numTurns : Nat) :
    boundaries rules (dropLastNUserTurns rules history numTurns) =
      (boundaries rules history).take ((boundaries rules history).length - numTurns) := by
  by_cases hnone : boundaries rules history = []
  · rw [dropLastNUserTurns_of_no_boundary hnone, hnone, take_nil]
  · by_cases hturns : numTurns = 0
    · rw [hturns, dropLastNUserTurns, if_pos rfl, Nat.sub_zero, take_length]
    · obtain ⟨before, boundary, after, hsplit, hcount, -, hdrop⟩ := exists_keptBefore hturns hnone
      rw [hdrop, boundaries_keptBefore, ← hcount, hsplit, boundaries_append, take_left]

theorem keptBefore_isPrefix (hsome : boundaries rules before ≠ []) (boundary : HistoryEntry) :
    keptBefore rules before boundary <+: before := by
  have hlength := @length_userMessagePositions rules 0 before
  rw [keptBefore]
  split
  next hpositions =>
    rw [hpositions, eq_comm, length_nil, length_eq_zero_iff] at hlength
    exact absurd hlength hsome
  · exact take_prefix ..

theorem dropLastNUserTurns_dropLastNUserTurns (history : List HistoryEntry)
    (numTurns more : Nat) :
    dropLastNUserTurns rules (dropLastNUserTurns rules history numTurns) more =
      dropLastNUserTurns rules history (numTurns + more) := by
  by_cases hnone : boundaries rules history = []
  · simp only [dropLastNUserTurns_of_no_boundary hnone]
  · by_cases hturns : numTurns = 0
    · rw [hturns, Nat.zero_add]
      rfl
    · obtain ⟨before, boundary, after, hsplit, hcount, hboundary, hdrop⟩ :=
        exists_keptBefore hturns hnone
      have hkept := @boundaries_keptBefore rules before boundary
      by_cases hall : boundaries rules before = []
      · -- no turn is left to take back
        rw [hall, length_nil, hsplit] at hcount
        rw [hdrop, dropLastNUserTurns_of_no_boundary (hkept.trans hall), hsplit,
          dropLastNUserTurns_eq_keptBefore (by omega) hboundary]
        rw [hall, length_nil]
        omega
      · by_cases hmore : more = 0
        · rw [hmore]
          rfl
        · -- the second cut is at a boundary of the first result
          obtain ⟨later, hlater⟩ := keptBefore_isPrefix hall boundary
          obtain ⟨first, second, rest, hfirst, hless, hsecond, hagain⟩ :=
            exists_keptBefore hmore (hkept.symm ▸ hall)
          have hwhole : history =
              first ++ second :: (rest ++ (later ++ boundary :: after)) := by
            rw [hsplit, ← hlater, hfirst]
            simp
          rw [hdrop, hagain, hwhole, dropLastNUserTurns_eq_keptBefore (by omega) hsecond]
          rw [← hwhole, hless, hkept, hcount, Nat.sub_sub]

/-- A developer message of the turn. -/
def HistoryEntry.IsInstruction (turnId : Text) (message : Message) (entry : HistoryEntry) :
    Prop :=
  entry.envelope.item = .message message ∧ message.role = .developer ∧
    entry.envelope.item.turnId = some turnId

/-- What may become of an entry above the first turn, if that turn is taken
back: a developer message of the turn loses the parts that the next step
rebuilds, and goes if it has no other; everything else stays as it is. -/
inductive StaysAbove (rules : ReplayRules) :
    Option Text → HistoryEntry → Option HistoryEntry → Prop where
  | whole {turnId entry}
      (hother : ∀ id message, turnId = some id → ¬entry.IsInstruction id message) :
      StaysAbove rules turnId entry (some entry)
  | rebuilt {id entry message} (hinstruction : entry.IsInstruction id message)
      (hparts : message.content.all (isRebuiltContent rules)) :
      StaysAbove rules (some id) entry none
  | parts {id entry message} (hinstruction : entry.IsInstruction id message)
      (hparts : ¬message.content.all (isRebuiltContent rules)) (kinds : List Text) :
      StaysAbove rules (some id) entry (some { entry with
        envelope := { entry.envelope with
          item := .message { message with
            content := message.content.filter (fun part => !isRebuiltContent rules part)
            contentItemKinds := some kinds } } })

theorem staysAbove_stripFirstTurn (turnId : Text) (entry : HistoryEntry) :
    StaysAbove rules (some turnId) entry (stripFirstTurn rules turnId entry) := by
  rw [stripFirstTurn]
  split
  · rename_i message hmessage
    split_ifs with hdeveloper
    · have hinstruction : entry.IsInstruction turnId message :=
        ⟨hmessage, hdeveloper.2, hmessage ▸ hdeveloper.1⟩
      have hparts : (annotatedContent message).map Prod.fst = message.content :=
        map_fst_zip (by simp)
      have hkept : ((annotatedContent message).filter
          (fun part => !isRebuiltContent rules part.1)).map Prod.fst =
            message.content.filter (fun part => !isRebuiltContent rules part) := by
        rw [← hparts, List.filter_map]
        rfl
      rw [withoutRebuiltContent]
      split_ifs with hempty
      · refine .rebuilt hinstruction ?_
        rw [List.isEmpty_iff] at hempty
        rw [hempty, map_nil, eq_comm, filter_eq_nil_iff] at hkept
        simpa using hkept
      · rw [Option.map_some, hkept]
        refine .parts hinstruction (fun hall => hempty ?_) _
        rw [List.isEmpty_iff, ← map_eq_nil_iff, hkept, filter_eq_nil_iff]
        simpa using hall
    · refine .whole fun id other hid hother => hdeveloper ?_
      obtain rfl := some.inj hid
      obtain ⟨hitem, hrole, hturn⟩ := hother
      rw [hmessage, ResponseItem.message.injEq] at hitem
      exact ⟨hmessage ▸ hturn, hitem ▸ hrole⟩
  · rename_i hitem
    exact .whole fun id message _ hother => hitem message hother.1

/-- The turn that a rollback takes back above all others, if it takes back
every turn. -/
def firstTakenBack (rules : ReplayRules) (history : List HistoryEntry) (numTurns : Nat) :
    Option Text :=
  if (boundaries rules history).length ≤ numTurns then
    (history.find? (HistoryEntry.isBoundary rules)).bind (fun entry => entry.envelope.item.turnId)
  else none

/-- Above the first turn a rollback strips the turn it takes back. -/
theorem dropLastNUserTurns_above (history : List HistoryEntry) (numTurns : Nat) :
    (history.takeWhile (fun entry => !entry.isBoundary rules)).filterMap
      ((firstTakenBack rules history numTurns).elim some (stripFirstTurn rules)) <+:
        dropLastNUserTurns rules history numTurns := by
  by_cases hnone : boundaries rules history = []
  · have hfind : history.find? (HistoryEntry.isBoundary rules) = none := by
      simpa [boundaries] using hnone
    rw [firstTakenBack, hfind, bind_none, ite_self, elim_none, filterMap_some,
      dropLastNUserTurns_of_no_boundary hnone]
    exact takeWhile_prefix _
  · by_cases hturns : numTurns = 0
    · have hleft : ¬(boundaries rules history).length ≤ numTurns := by
        rwa [hturns, Nat.le_zero, length_eq_zero_iff]
      rw [firstTakenBack, if_neg hleft, elim_none, filterMap_some, dropLastNUserTurns,
        if_pos hturns]
      exact takeWhile_prefix _
    · obtain ⟨before, boundary, after, hsplit, hcount, hboundary, hdrop⟩ :=
        exists_keptBefore hturns hnone
      have hkept := @boundaries_keptBefore rules before boundary
      by_cases hall : boundaries rules before = []
      · have hpositions : userMessagePositions rules 0 before = [] := by
          rw [← length_eq_zero_iff, length_userMessagePositions, hall, length_nil]
        have hplain : ∀ entry ∈ before, ¬entry.isBoundary rules = true :=
          filter_eq_nil_iff.mp hall
        rw [hall, length_nil, eq_comm, Nat.sub_eq_zero_iff_le] at hcount
        refine ⟨[], ?_⟩
        rw [append_nil, hdrop, keptBefore, hpositions, firstTakenBack, if_pos hcount, hsplit,
          takeWhile_append_of_pos (by simpa using hplain),
          takeWhile_cons_of_neg (by simpa using hboundary), append_nil, find?_append,
          find?_eq_none.mpr hplain, none_or, find?_cons_of_pos hboundary, bind_some]
      · have hleft : ¬(boundaries rules history).length ≤ numTurns := by
          rw [← length_eq_zero_iff] at hall
          omega
        rw [firstTakenBack, if_neg hleft, hdrop, elim_none, filterMap_some]
        rcases prefix_or_prefix_of_prefix ( takeWhile_prefix _)
          ((keptBefore_isPrefix hall boundary).trans (hsplit ▸ prefix_append ..))
          with habove | hwithin
        · exact habove
        · -- a result within it would have no turn at all
          refine absurd (hkept.symm.trans (filter_eq_nil_iff.mpr ?_)) hall
          intro entry hentry
          simpa using mem_takeWhile_imp (hwithin.subset hentry)

/-- Rollbacks in a row are one rollback.  It takes back the last turns, as many
as it names, and keeps the boundaries of the others; of what stands above the
first turn, a rollback of all turns takes what the next step rebuilds for that
turn, and any other takes nothing. -/
theorem rollbacks_compose (rules : ReplayRules) (history : List HistoryEntry)
    (numTurns more : Nat) :
    let result := dropLastNUserTurns rules history numTurns
    dropLastNUserTurns rules result more = dropLastNUserTurns rules history (numTurns + more) ∧
      boundaries rules result =
        (boundaries rules history).take ((boundaries rules history).length - numTurns) ∧
      ∃ kept, Forall₂ (StaysAbove rules (firstTakenBack rules history numTurns))
          (history.takeWhile (fun entry => !entry.isBoundary rules)) kept ∧
        kept.reduceOption <+: result := by
  refine ⟨dropLastNUserTurns_dropLastNUserTurns history numTurns more,
    boundaries_dropLastNUserTurns history numTurns,
    (history.takeWhile (fun entry => !entry.isBoundary rules)).map
      ((firstTakenBack rules history numTurns).elim some (stripFirstTurn rules)), ?_, ?_⟩
  · rw [forall₂_map_right_iff, forall₂_same]
    intro entry _
    cases firstTakenBack rules history numTurns with
    | none => exact .whole nofun
    | some turnId => exact staysAbove_stripFirstTurn turnId entry
  · rw [reduceOption, filterMap_map]
    exact dropLastNUserTurns_above history numTurns

end Cut

end Hexa.Rollout
