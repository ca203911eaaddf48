/-
The retained context beside everything it was told: it keeps its limits in
every run, and is honest when it says that a family is complete.
-/
import Hexa.History.RetainedContext
import Hexa.Lib.Runs

namespace Hexa.History

open RetainedContext

/-- The records that were accepted and neither replaced nor rolled back, in
full. -/
structure LiveRecords where
  verifiedAnswers : List (Ordered VerifiedAnswer) := []
  userMessages : List (Ordered RetainedUserMessage) := []

namespace LiveRecords

variable (live : LiveRecords)

def recordUserMessage (entry : Ordered RetainedUserMessage) : LiveRecords where
  verifiedAnswers := live.verifiedAnswers
  userMessages := (userMessageKind.put live.userMessages entry).getD live.userMessages

def record (entry : Ordered VerifiedAnswer) :
    LiveRecords where
  verifiedAnswers := (verifiedAnswerKind.put live.verifiedAnswers entry).getD live.verifiedAnswers
  userMessages := live.userMessages

/-- Back to the boundary or, where it is not known, without the turns. -/
def rollback (turnIds : List Text) (firstRemovedMessageId : Option Text)
    (acceptanceOrder : Option Nat) : LiveRecords :=
  match rollbackOrder live.userMessages firstRemovedMessageId acceptanceOrder with
  | some order =>
    { verifiedAnswers := live.verifiedAnswers.filter
        (fun entry => entry.order < order)
      userMessages := live.userMessages.filter (fun entry => entry.order < order) }
  | none =>
    { verifiedAnswers := live.verifiedAnswers.filter
        (fun entry => entry.value.turnId ∉ turnIds)
      userMessages := live.userMessages.filter (fun entry => entry.value.turnId ∉ turnIds) }

end LiveRecords

/-- The context in use, the records it stands for, and the contexts that were
saved. -/
structure RetainedHistory where
  context : RetainedContext := {}
  live : LiveRecords := {}
  saved : List RetainedContext := []

inductive RetainedAction where
  | reserveOrder
  | markUserMessagesIncomplete
  | recordUserMessage (message : RetainedUserMessage) (acceptanceOrder : Option Nat)
  | record (answer : VerifiedAnswer) (acceptanceOrder : Option Nat)
  | rollback (turnIds : List Text) (firstRemovedMessageId : Option Text)
      (acceptanceOrder : Option Nat)
  | checkpoint
  | restore (checkpoint : Option Nat)

namespace RetainedHistory

variable (history : RetainedHistory) (action : RetainedAction)

/-- A restore changes the context alone: what was accepted stays so. -/
def perform : Option RetainedHistory :=
  match action with
  | .reserveOrder => some { history with context := history.context.reserveOrder.1 }
  | .markUserMessagesIncomplete =>
    some { history with context := history.context.markUserMessagesIncomplete }
  | .recordUserMessage message acceptanceOrder =>
    some { history with
      context := history.context.recordUserMessage message acceptanceOrder
      live := history.live.recordUserMessage
        ⟨history.context.recordOrder acceptanceOrder, message⟩ }
  | .record answer acceptanceOrder =>
    some { history with
      context := (history.context.record answer acceptanceOrder).1
      live := history.live.record ⟨history.context.recordOrder acceptanceOrder, answer⟩ }
  | .rollback turnIds firstRemovedMessageId acceptanceOrder =>
    some { history with
      context := history.context.rollback turnIds firstRemovedMessageId acceptanceOrder
      live := history.live.rollback turnIds firstRemovedMessageId acceptanceOrder }
  | .checkpoint => some { history with saved := history.context :: history.saved }
  | .restore none => some { history with context := RetainedContext.restore none }
  | .restore (some index) =>
    history.saved[index]?.map fun saved =>
      { history with context := RetainedContext.restore (some saved) }

def Step (next : RetainedHistory) : Prop := history.perform action = some next

end RetainedHistory

/-- Each family of a context is incomplete or has what is live. -/
def RetainedContext.Holds (context : RetainedContext) (live : LiveRecords) : Prop :=
  context.verifiedAnswers.Covers verifiedAnswerKind live.verifiedAnswers ∧
    context.userMessages.Covers userMessageKind live.userMessages

/-- No live record is lost for want of a checkpoint or with an older one, and
ids that were cut do not change which records an action finds. -/
def RetainedHistory.KeepsApart (history : RetainedHistory) (action : RetainedAction) : Prop :=
  let context := history.context
  let live := history.live
  match action with
  | .recordUserMessage message _ => context.userMessages.incomplete = false →
    userMessageKind.Agrees context.userMessages.items live.userMessages message
  | .record answer _ => context.verifiedAnswers.incomplete = false →
    verifiedAnswerKind.Agrees context.verifiedAnswers.items live.verifiedAnswers answer
  | .rollback turnIds first order =>
    rollbackOrder context.userMessages.items first order =
        rollbackOrder live.userMessages first order ∧
      (rollbackOrder live.userMessages first order = none →
        (∀ entry ∈ live.verifiedAnswers,
          entry.value.bound.turnId ∈ turnIds ↔ entry.value.turnId ∈ turnIds) ∧
        ∀ entry ∈ live.userMessages,
          entry.value.bound.turnId ∈ turnIds ↔ entry.value.turnId ∈ turnIds)
  | .restore none => live.verifiedAnswers = []
  | .restore (some index) => ∀ saved, history.saved[index]? = some saved → saved.Holds live
  | _ => True

namespace RetainedContext

open BoundedLog

/-- What holds of a context in every run. -/
structure Sound (context : RetainedContext) : Prop where
  verifiedAnswers : Good verifiedAnswerLimits verifiedAnswerKind context.verifiedAnswers
  userMessages : Good userMessageLimits userMessageKind context.userMessages

theorem sound_empty : Sound {} := ⟨Good.empty false, Good.empty false⟩

section

variable (context : RetainedContext)

section

variable (message : RetainedUserMessage) (acceptanceOrder : Option Nat)

theorem userMessages_recordUserMessage :
    (context.recordUserMessage message acceptanceOrder).userMessages =
      (context.userMessages.record userMessageLimits userMessageKind
        ⟨context.recordOrder acceptanceOrder, message⟩).getD
        context.userMessages := by
  rw [recordUserMessage]
  cases context.userMessages.record userMessageLimits userMessageKind
    ⟨context.recordOrder acceptanceOrder, message⟩ <;> rfl

theorem verifiedAnswers_recordUserMessage :
    (context.recordUserMessage message acceptanceOrder).verifiedAnswers =
      context.verifiedAnswers := by
  rw [recordUserMessage]
  cases context.userMessages.record userMessageLimits userMessageKind
    ⟨context.recordOrder acceptanceOrder, message⟩ <;> rfl

end

variable (answer : VerifiedAnswer) (acceptanceOrder : Option Nat)

theorem verifiedAnswers_record :
    (context.record answer acceptanceOrder).1.verifiedAnswers =
      (context.verifiedAnswers.record verifiedAnswerLimits verifiedAnswerKind
        ⟨context.recordOrder acceptanceOrder, answer⟩).getD
        context.verifiedAnswers := by
  rw [RetainedContext.record]
  cases context.verifiedAnswers.record verifiedAnswerLimits verifiedAnswerKind
    ⟨context.recordOrder acceptanceOrder, answer⟩ <;> rfl

theorem userMessages_record :
    (context.record answer acceptanceOrder).1.userMessages = context.userMessages := by
  rw [RetainedContext.record]
  cases context.verifiedAnswers.record verifiedAnswerLimits verifiedAnswerKind
    ⟨context.recordOrder acceptanceOrder, answer⟩ <;> rfl

end

section

variable {context : RetainedContext} (hsound : context.Sound)
include hsound

theorem Sound.recordUserMessage (message : RetainedUserMessage) (acceptanceOrder : Option Nat) :
    (context.recordUserMessage message acceptanceOrder).Sound := by
  constructor
  · rw [verifiedAnswers_recordUserMessage]
    exact hsound.verifiedAnswers
  · rw [userMessages_recordUserMessage]
    exact hsound.userMessages.recordD _

theorem Sound.record (answer : VerifiedAnswer) (acceptanceOrder : Option Nat) :
    (context.record answer acceptanceOrder).1.Sound := by
  constructor
  · rw [verifiedAnswers_record]
    exact hsound.verifiedAnswers.recordD _
  · rw [userMessages_record]
    exact hsound.userMessages

theorem Sound.rollback (turnIds : List Text) (first : Option Text) (order : Option Nat) :
    (context.rollback turnIds first order).Sound := by
  rw [RetainedContext.rollback]
  cases rollbackOrder context.userMessages.items first order with
  | some boundary => exact ⟨hsound.1.keepWhere _, hsound.2.keepWhere _⟩
  | none => exact ⟨hsound.1.keepWhere _, (hsound.2.keepWhere _).withIncomplete _⟩

/-- A checkpoint is restored as it was. -/
theorem Sound.restored :
    (restore (some context)).verifiedAnswers = context.verifiedAnswers ∧
      (restore (some context)).userMessages = context.userMessages :=
  ⟨hsound.1.restore_eq, hsound.2.restore_eq⟩

theorem Sound.restore : (restore (some context)).Sound := by
  obtain ⟨hanswers, hmessages⟩ := hsound.restored
  constructor
  · rw [hanswers]
    exact hsound.verifiedAnswers
  · rw [hmessages]
    exact hsound.userMessages

theorem Holds.restore {live : LiveRecords} (hholds : context.Holds live) :
    (RetainedContext.restore (some context)).Holds live := by
  obtain ⟨hanswers, hmessages⟩ := hsound.restored
  rw [Holds, hanswers, hmessages]
  exact hholds

end

theorem Holds.rollback {context : RetainedContext} {live : LiveRecords}
    (hholds : context.Holds live) {turnIds : List Text} {first : Option Text} {order : Option Nat}
    (horder : rollbackOrder context.userMessages.items first order =
      rollbackOrder live.userMessages first order)
    (hturns : rollbackOrder live.userMessages first order = none →
      (∀ entry ∈ live.verifiedAnswers,
        entry.value.bound.turnId ∈ turnIds ↔ entry.value.turnId ∈ turnIds) ∧
      ∀ entry ∈ live.userMessages,
        entry.value.bound.turnId ∈ turnIds ↔ entry.value.turnId ∈ turnIds) :
    (context.rollback turnIds first order).Holds (live.rollback turnIds first order) := by
  rw [RetainedContext.rollback, LiveRecords.rollback, horder]
  cases hboundary : rollbackOrder live.userMessages first order with
  | some boundary =>
    constructor
    · refine hholds.1.keepWhere fun entry _ hkept => ?_
      rwa [Ordered.order_mapValue]
    · refine hholds.2.keepWhere fun entry _ hkept => ?_
      rwa [Ordered.order_mapValue]
  | none =>
    obtain ⟨hanswers, hmessages⟩ := hturns hboundary
    constructor
    · refine hholds.1.keepWhere fun entry hmem hkept => ?_
      rw [decide_eq_true_eq] at hkept ⊢
      exact fun hturn => hkept ((hanswers entry hmem).mp hturn)
    · have hkept : Covers userMessageKind
          (context.userMessages.keepWhere (fun entry => entry.value.turnId ∉ turnIds))
          (live.userMessages.filter (fun entry => entry.value.turnId ∉ turnIds)) := by
        refine hholds.2.keepWhere fun entry hmem hkept => ?_
        rw [decide_eq_true_eq] at hkept ⊢
        exact fun hturn => hkept ((hmessages entry hmem).mp hturn)
      exact hkept.withIncomplete _

end RetainedContext

namespace RetainedHistory

open BoundedLog RetainedContext

/-- What holds in every run. -/
structure Sound (history : RetainedHistory) : Prop where
  context : history.context.Sound
  liveAnswers : verifiedAnswerKind.Unique history.live.verifiedAnswers
  liveMessages : userMessageKind.Unique history.live.userMessages
  saved : ∀ saved ∈ history.saved, saved.Sound

variable {history next : RetainedHistory} {action : RetainedAction}
  {actions : List RetainedAction}

theorem step_sound (hstep : Step history action next) (hsound : Sound history) : Sound next := by
  obtain ⟨hcontext, hanswers, hmessages, hsaved⟩ := hsound
  cases action with
  | reserveOrder =>
    cases hstep
    exact ⟨⟨hcontext.1, hcontext.2⟩, hanswers, hmessages, hsaved⟩
  | markUserMessagesIncomplete =>
    cases hstep
    exact ⟨⟨hcontext.1, hcontext.2.withIncomplete true⟩, hanswers, hmessages, hsaved⟩
  | recordUserMessage message acceptanceOrder =>
    cases hstep
    exact ⟨hcontext.recordUserMessage _ _, hanswers, hmessages.putD _, hsaved⟩
  | record answer acceptanceOrder =>
    cases hstep
    exact ⟨hcontext.record _ _, hanswers.putD _, hmessages, hsaved⟩
  | rollback turnIds first order =>
    cases hstep
    have hlive : verifiedAnswerKind.Unique
          (history.live.rollback turnIds first order).verifiedAnswers ∧
        userMessageKind.Unique (history.live.rollback turnIds first order).userMessages := by
      rw [LiveRecords.rollback]
      cases rollbackOrder history.live.userMessages first order with
      | some boundary | none =>
        exact ⟨hanswers.sublist List.filter_sublist, hmessages.sublist List.filter_sublist⟩
    exact ⟨hcontext.rollback _ _ _, hlive.1, hlive.2, hsaved⟩
  | checkpoint =>
    cases hstep
    exact ⟨hcontext, hanswers, hmessages, List.forall_mem_cons.mpr ⟨hcontext, hsaved⟩⟩
  | restore checkpoint =>
    cases checkpoint with
    | none =>
      cases hstep
      exact ⟨⟨Good.empty false, Good.empty true⟩, hanswers, hmessages, hsaved⟩
    | some index =>
      obtain ⟨saved, hindex, rfl⟩ := Option.map_eq_some_iff.mp hstep
      exact ⟨(hsaved saved (List.mem_of_getElem? hindex)).restore, hanswers, hmessages, hsaved⟩

theorem run_sound (hrun : Run Step {} actions history) : Sound history := by
  have hkeeps : ∀ (first : RetainedHistory) action second,
      Step first action second → Sound first → Sound second :=
    fun _ _ _ => step_sound
  exact hrun.invariant hkeeps ⟨sound_empty, .nil, .nil, nofun⟩

theorem step_holds (hsound : Sound history) (hstep : Guarded Step KeepsApart history action next)
    (hholds : history.context.Holds history.live) : next.context.Holds next.live := by
  obtain ⟨hstep, hapart⟩ := hstep
  cases action with
  | reserveOrder | checkpoint =>
    cases hstep
    exact hholds
  | markUserMessagesIncomplete =>
    cases hstep
    exact ⟨hholds.1, .inl rfl⟩
  | recordUserMessage message acceptanceOrder =>
    cases hstep
    rw [Holds, verifiedAnswers_recordUserMessage, userMessages_recordUserMessage]
    exact ⟨hholds.1, hholds.2.record hsound.context.userMessages hsound.liveMessages hapart⟩
  | record answer acceptanceOrder =>
    cases hstep
    rw [Holds, verifiedAnswers_record, userMessages_record]
    exact ⟨hholds.1.record hsound.context.verifiedAnswers hsound.liveAnswers hapart, hholds.2⟩
  | rollback turnIds first order =>
    cases hstep
    exact hholds.rollback hapart.1 hapart.2
  | restore checkpoint =>
    cases checkpoint with
    | none =>
      cases hstep
      have hlive : history.live.verifiedAnswers = [] := hapart
      refine ⟨.inr ?_, .inl rfl⟩
      rw [hlive]
      nofun
    | some index =>
      obtain ⟨saved, hindex, rfl⟩ := Option.map_eq_some_iff.mp hstep
      exact (hapart saved hindex).restore (hsound.saved saved (List.mem_of_getElem? hindex))

theorem run_holds (hrun : Run (Guarded Step KeepsApart) {} actions history) :
    history.context.Holds history.live := by
  have hkeeps : ∀ (first : RetainedHistory) action second,
      Guarded Step KeepsApart first action second →
      Sound first ∧ first.context.Holds first.live →
      Sound second ∧ second.context.Holds second.live :=
    fun _ _ _ hstep hfirst =>
      ⟨step_sound hstep.1 hfirst.1, step_holds hfirst.1 hstep hfirst.2⟩
  exact (hrun.invariant hkeeps
    ⟨⟨sound_empty, .nil, .nil, nofun⟩, .inr nofun, .inr nofun⟩).2

/-- The families keep their limits and the order of acceptance in every run.
If restored checkpoints had what is live and cut ids were told apart, a family
that says it is complete has every live record in full. -/
theorem retained_context_honest (hrun : Run Step {} actions history) :
    (verifiedAnswerLimits.Fits history.context.verifiedAnswers.items ∧
      InOrder history.context.verifiedAnswers.items) ∧
    (userMessageLimits.Fits history.context.userMessages.items ∧
      InOrder history.context.userMessages.items) ∧
    (Run (Guarded Step KeepsApart) {} actions history →
      (history.context.verifiedAnswersComplete = true →
        ∀ entry ∈ history.live.verifiedAnswers,
          entry ∈ history.context.verifiedAnswers.items) ∧
      (history.context.userMessagesComplete = true →
        ∀ entry ∈ history.live.userMessages,
          entry ∈ history.context.userMessages.items)) := by
  have hsound := run_sound hrun
  obtain ⟨hanswers, hmessages⟩ := hsound.context
  refine ⟨⟨hanswers.fits, hanswers.inOrder⟩, ⟨hmessages.fits, hmessages.inOrder⟩,
    fun hguarded => ?_⟩
  have hholds := run_holds hguarded
  exact ⟨fun hcomplete entry => hholds.1.mem hcomplete,
    fun hcomplete entry => hholds.2.mem hcomplete⟩

def publishAnswer : VerifiedAnswer :=
  ⟨"turn-1".toList, "ask-1".toList, [⟨"Publish?".toList, "Yes, but never publicly.".toList⟩]⟩

def afterAnswer : RetainedContext where
  verifiedAnswers := ⟨[⟨0, publishAnswer⟩], false⟩
  nextOrder := 1

theorem step_publishAnswer :
    Step {} (.record publishAnswer none) ⟨afterAnswer, ⟨[⟨0, publishAnswer⟩], []⟩, []⟩ := by
  rw [Step, perform, show (RetainedContext.record {} publishAnswer none).1 = afterAnswer by
    decide +kernel]
  rfl

/-- An answer in a checkpoint that is restored. -/
def answerRestored : List RetainedAction :=
  [.record publishAnswer none, .checkpoint, .restore (some 0)]

theorem retained_context_honest_answerRestored :
    ∃ history, Run (Guarded Step KeepsApart) {} answerRestored history ∧
      history.live.verifiedAnswers = [⟨0, publishAnswer⟩] ∧
      ⟨0, publishAnswer⟩ ∈ history.context.verifiedAnswers.items := by
  let answered : RetainedHistory := ⟨afterAnswer, ⟨[⟨0, publishAnswer⟩], []⟩, [afterAnswer]⟩
  have hrestore : Step answered (.restore (some 0)) answered := by
    change some (RetainedHistory.mk (RetainedContext.restore (some afterAnswer)) _ _) = _
    rw [show restore (some afterAnswer) = afterAnswer by decide +kernel]
  have hheld : KeepsApart answered (.restore (some 0)) := by
    rintro saved hsaved
    obtain rfl := Option.some.inj hsaved
    refine ⟨.inr fun entry hmem => ?_, .inr nofun⟩
    rw [List.mem_singleton.mp hmem]
    decide +kernel
  have hguarded : Run (Guarded Step KeepsApart) {} answerRestored answered :=
    .cons ⟨step_publishAnswer, fun _ => ⟨nofun, nofun, nofun⟩⟩
      (.cons ⟨rfl, trivial⟩ (.cons ⟨hrestore, hheld⟩ (.nil _)))
  refine ⟨_, hguarded, rfl, ?_⟩
  have hhonest := (retained_context_honest hguarded.unguarded).2.2 hguarded
  exact hhonest.1 rfl _ List.mem_cons_self

/-- An answer, and a restore without a checkpoint. -/
def answerLost : List RetainedAction := [.record publishAnswer none, .restore none]

theorem complete_without_answer :
    ∃ history, Run Step {} answerLost history ∧
      history.live.verifiedAnswers = [⟨0, publishAnswer⟩] ∧
      history.context.verifiedAnswersComplete = true ∧
      history.context.verifiedAnswers.items = [] :=
  ⟨_, .cons step_publishAnswer (.cons rfl (.nil _)), rfl, rfl, rfl⟩

end RetainedHistory

end Hexa.History
