/-
What the host keeps of user messages and verified answers outside the model's
summaries: two bounded logs with a common count of acceptance.
-/
import Hexa.Lib.BoundedLog
import Hexa.Lib.JsonText

namespace Hexa.History

open List

def maxFamilyRecords : Nat := 8

def maxRecordBytes : Nat := 16384

def maxFamilyBytes : Nat := 65536

/-- How much of an id is kept of a record that is too large. -/
def maxIdBytes : Nat := 1024

structure VerifiedQuestionAnswer where
  question : Text
  answer : Text
  deriving DecidableEq

structure VerifiedAnswer where
  turnId : Text
  callId : Text
  questions : List VerifiedQuestionAnswer
  deriving DecidableEq

structure RetainedUserMessage where
  turnId : Text
  messageId : Option Text
  text : Text
  complete : Bool
  deriving DecidableEq

def VerifiedQuestionAnswer.json (pair : VerifiedQuestionAnswer) : Text :=
  jsonObject [("question".toList, jsonString pair.question),
    ("answer".toList, jsonString pair.answer)]

variable (answer : VerifiedAnswer)

def VerifiedAnswer.fields : List (Text × Text) :=
  [("turn_id".toList, jsonString answer.turnId),
    ("call_id".toList, jsonString answer.callId),
    ("questions".toList, jsonArray (answer.questions.map VerifiedQuestionAnswer.json))]

variable (message : RetainedUserMessage)

def RetainedUserMessage.fields : List (Text × Text) :=
  [("turn_id".toList, jsonString message.turnId),
    ("message_id".toList, jsonOption message.messageId),
    ("text".toList, jsonString message.text),
    ("complete".toList, jsonBool message.complete)]

/-- The record without its content and with its ids cut. -/
def VerifiedAnswer.withoutContent : VerifiedAnswer where
  turnId := truncateAt maxIdBytes answer.turnId
  callId := truncateAt maxIdBytes answer.callId
  questions := []

def RetainedUserMessage.withoutContent : RetainedUserMessage where
  turnId := truncateAt maxIdBytes message.turnId
  messageId := message.messageId.map (truncateAt maxIdBytes)
  text := []
  complete := false

def VerifiedAnswer.bound : VerifiedAnswer :=
  if utf8Len (jsonObject answer.fields) > maxRecordBytes then answer.withoutContent
  else answer

def RetainedUserMessage.bound : RetainedUserMessage :=
  if utf8Len (jsonObject message.fields) > maxRecordBytes then message.withoutContent
  else message

/-- Cut ids take at most six bytes of text for each of theirs. -/
theorem utf8Len_jsonString_truncateAt_le (id : Text) :
    utf8Len (jsonString (truncateAt maxIdBytes id)) ≤ 6146 := by
  have hstring := utf8Len_jsonString_le (truncateAt maxIdBytes id)
  have hid := utf8Len_truncateAt_le maxIdBytes id
  rw [maxIdBytes] at hid hstring ⊢
  omega

theorem VerifiedAnswer.utf8Len_withoutContent_le :
    utf8Len (jsonObject answer.withoutContent.fields) ≤ maxRecordBytes := by
  have hturn := utf8Len_jsonString_truncateAt_le answer.turnId
  have hcall := utf8Len_jsonString_truncateAt_le answer.callId
  have hnames : utf8Len (jsonString "turn_id".toList) = 9 ∧
      utf8Len (jsonString "call_id".toList) = 9 ∧
      utf8Len (jsonString "questions".toList) = 11 ∧
      utf8Len (jsonArray []) = 2 := ⟨rfl, rfl, rfl, rfl⟩
  simp only [utf8Len_jsonObject, fields, withoutContent, map_cons, map_nil, sum_cons, sum_nil,
    length_cons, length_nil, utf8Len_jsonField, maxRecordBytes]
  omega

theorem RetainedUserMessage.utf8Len_withoutContent_le :
    utf8Len (jsonObject message.withoutContent.fields) ≤ maxRecordBytes := by
  have hturn := utf8Len_jsonString_truncateAt_le message.turnId
  have hid : utf8Len (jsonOption (message.messageId.map (truncateAt maxIdBytes))) ≤ 6146 := by
    cases message.messageId with
    | none => decide
    | some id => exact utf8Len_jsonString_truncateAt_le id
  have hnames : utf8Len (jsonString "turn_id".toList) = 9 ∧
      utf8Len (jsonString "message_id".toList) = 12 ∧
      utf8Len (jsonString "text".toList) = 6 ∧
      utf8Len (jsonString "complete".toList) = 10 ∧
      utf8Len (jsonString []) = 2 ∧ utf8Len (jsonBool false) = 5 :=
    ⟨rfl, rfl, rfl, rfl, rfl, rfl⟩
  simp only [utf8Len_jsonObject, fields, withoutContent, map_cons, map_nil, sum_cons, sum_nil,
    length_cons, length_nil, utf8Len_jsonField, maxRecordBytes]
  omega

theorem VerifiedAnswer.bound_of_small {answer : VerifiedAnswer}
    (hsmall : utf8Len (jsonObject answer.fields) ≤ maxRecordBytes) : answer.bound = answer := by
  rw [bound, if_neg (Nat.not_lt.mpr hsmall)]

theorem VerifiedAnswer.bound_bound : answer.bound.bound = answer.bound := by
  apply bound_of_small
  rw [bound]
  split_ifs with hlarge
  · exact answer.utf8Len_withoutContent_le
  · exact Nat.not_lt.mp hlarge

theorem RetainedUserMessage.bound_of_small {message : RetainedUserMessage}
    (hsmall : utf8Len (jsonObject message.fields) ≤ maxRecordBytes) :
    message.bound = message := by
  rw [bound, if_neg (Nat.not_lt.mpr hsmall)]

theorem RetainedUserMessage.bound_bound : message.bound.bound = message.bound := by
  apply bound_of_small
  rw [bound]
  split_ifs with hlarge
  · exact message.utf8Len_withoutContent_le
  · exact Nat.not_lt.mp hlarge

def verifiedAnswerKind : RecordKind VerifiedAnswer where
  same first second := decide (first.turnId = second.turnId) &&
      decide (first.callId = second.callId)
  cut := VerifiedAnswer.bound
  complete answer := !answer.questions.isEmpty
  same_comm first second := by
    simp only [eq_comm]
  same_trans {first second third} hfirst hsecond := by
    simp only [Bool.and_eq_true, decide_eq_true_eq] at hfirst hsecond ⊢
    exact ⟨hfirst.1.trans hsecond.1, hfirst.2.trans hsecond.2⟩
  cut_cut := VerifiedAnswer.bound_bound
  cut_eq_self {answer} hcomplete := by
    rw [VerifiedAnswer.bound] at hcomplete ⊢
    split_ifs at hcomplete ⊢
    · cases hcomplete
    · rfl

def userMessageKind : RecordKind RetainedUserMessage where
  same first second := second.messageId.isSome && decide (first.messageId = second.messageId)
  cut := RetainedUserMessage.bound
  complete message := message.complete
  same_comm first second := by
    by_cases hid : first.messageId = second.messageId
    · simp [hid]
    · simp [hid, Ne.symm hid]
  same_trans {first second third} hfirst hsecond := by
    simp only [Bool.and_eq_true, decide_eq_true_eq] at hfirst hsecond ⊢
    exact ⟨hsecond.1, hfirst.2.trans hsecond.2⟩
  cut_cut := RetainedUserMessage.bound_bound
  cut_eq_self {message} hcomplete := by
    rw [RetainedUserMessage.bound] at hcomplete ⊢
    split_ifs at hcomplete ⊢
    · cases hcomplete
    · rfl

/-- The limits of a family, whose records have the given fields. -/
def familyLimits {Value : Type} (fields : Value → List (Text × Text)) :
    LogLimits Value where
  records := maxFamilyRecords
  bytes := maxFamilyBytes
  size items := utf8Len (jsonArray (items.map (fun entry =>
    jsonObject (("order".toList, jsonNat entry.order) :: fields entry.value))))
  size_sublist hpart := utf8Len_jsonArray_sublist (hpart.map _)
  size_nil := (by decide : utf8Len (jsonArray []) ≤ maxFamilyBytes)

abbrev verifiedAnswerLimits : LogLimits VerifiedAnswer := familyLimits VerifiedAnswer.fields

abbrev userMessageLimits : LogLimits RetainedUserMessage :=
  familyLimits RetainedUserMessage.fields

structure RetainedContext where
  verifiedAnswers : BoundedLog VerifiedAnswer := {}
  userMessages : BoundedLog RetainedUserMessage := {}
  nextOrder : Nat := 0
  deriving DecidableEq

/-- One more, up to the greatest `u64`. -/
def saturatingSucc (order : Nat) : Nat := min (order + 1) (2 ^ 64 - 1)

namespace RetainedContext

variable (context : RetainedContext)

def reserveOrder : RetainedContext × Nat :=
  ({ context with nextOrder := saturatingSucc context.nextOrder }, context.nextOrder)

def recordOrder (acceptanceOrder : Option Nat) : Nat := acceptanceOrder.getD context.nextOrder

def verifiedAnswersComplete : Bool := context.verifiedAnswers.isComplete verifiedAnswerKind

def userMessagesComplete : Bool := context.userMessages.isComplete userMessageKind

def markUserMessagesIncomplete : RetainedContext :=
  { context with
    userMessages := { context.userMessages with incomplete := true } }

def recordUserMessage (message : RetainedUserMessage) (acceptanceOrder : Option Nat) :
    RetainedContext :=
  let order := context.recordOrder acceptanceOrder
  match context.userMessages.record userMessageLimits userMessageKind ⟨order, message⟩ with
  | none => context
  | some userMessages =>
    { context with
      userMessages
      nextOrder := max context.nextOrder (saturatingSucc order) }

/-- The context, and whether the answer is new to it. -/
def record (answer : VerifiedAnswer) (acceptanceOrder : Option Nat) : RetainedContext × Bool :=
  let order := context.recordOrder acceptanceOrder
  match context.verifiedAnswers.record verifiedAnswerLimits
      verifiedAnswerKind ⟨order, answer⟩ with
  | none => (context, false)
  | some verifiedAnswers =>
    ({ context with
      verifiedAnswers
      nextOrder := max context.nextOrder (saturatingSucc order) }, true)

/-- Without a checkpoint the user messages before it are unknown. -/
def restore (checkpoint : Option RetainedContext) : RetainedContext :=
  let saved := checkpoint.getD { userMessages := { incomplete := true } }
  let raise := fun (next order : Nat) => max next (saturatingSucc order)
  { verifiedAnswers :=
      saved.verifiedAnswers.restore verifiedAnswerLimits verifiedAnswerKind
    userMessages := saved.userMessages.restore userMessageLimits userMessageKind
    nextOrder := (saved.userMessages.items.map Ordered.order).foldl raise
        ((saved.verifiedAnswers.items.map Ordered.order).foldl raise saved.nextOrder) }

end RetainedContext

variable (messages : List (Ordered RetainedUserMessage))

/-- The order of the message with an id. -/
def orderOfMessage (id : Text) : Option Nat :=
  (messages.find? (fun entry => entry.value.messageId = some id)).map Ordered.order

/-- The order from which a rollback takes records back, if it is known. -/
def rollbackOrder (firstRemovedMessageId : Option Text) (acceptanceOrder : Option Nat) :
    Option Nat :=
  acceptanceOrder.or (firstRemovedMessageId.bind (orderOfMessage messages))

def RetainedContext.rollback (context : RetainedContext) (turnIds : List Text)
    (firstRemovedMessageId : Option Text) (acceptanceOrder : Option Nat) : RetainedContext :=
  match rollbackOrder context.userMessages.items firstRemovedMessageId acceptanceOrder with
  | some order =>
    { context with
      verifiedAnswers := context.verifiedAnswers.keepWhere (fun entry => entry.order < order)
      userMessages := context.userMessages.keepWhere (fun entry => entry.order < order) }
  | none =>
    { context with
      verifiedAnswers := context.verifiedAnswers.keepWhere
        (fun entry => entry.value.turnId ∉ turnIds)
      userMessages := {
        items := context.userMessages.items.filter (fun entry => entry.value.turnId ∉ turnIds)
        incomplete := context.userMessages.incomplete ||
          (firstRemovedMessageId.isSome ||
            context.userMessages.items.any (fun entry => entry.value.turnId ∈ turnIds)) } }

end Hexa.History
