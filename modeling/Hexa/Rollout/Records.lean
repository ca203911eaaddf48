/-
The records of a rollout file: what the model was told, what was shown, and
the marks of turns, compactions and rollbacks between them.
-/
import Hexa.Lib.RustStr

namespace Hexa.Rollout

inductive Role where
  | user
  | developer
  | assistant
  | system
  | other (name : Text)
  deriving DecidableEq

inductive ContentItem where
  | inputText (text : Text)
  | inputImage (imageUrl : Text)
  | inputAudio (audioUrl : Text)
  | outputText (text : Text)
  deriving DecidableEq

inductive AgentMessageInputContent where
  | inputText (text : Text)
  | encryptedContent (encrypted : Text)
  deriving DecidableEq

/-- The items of the model's history whose content no replay reads. -/
inductive FixedKind where
  | additionalTools
  | functionCall
  | toolSearchCall
  | toolSearchOutput
  | customToolCall
  | localShellCall
  | reasoning
  | webSearchCall
  | imageGenerationCall
  | compaction
  | contextCompaction
  deriving DecidableEq

inductive ToolOutputKind where
  | functionCallOutput
  | customToolCallOutput
  deriving DecidableEq

/-- A message has a kind for each part of its content, if it has any. -/
structure Message where
  id : Option Text := none
  role : Role
  content : List ContentItem
  contentItemKinds : Option (List Text) := none
  turnId : Option Text := none
  deriving DecidableEq

structure AgentMessage where
  id : Option Text
  author : Text
  recipient : Text
  content : List AgentMessageInputContent
  turnId : Option Text := none
  deriving DecidableEq

inductive ResponseItem where
  | message (message : Message)
  | agentMessage (message : AgentMessage)
  | toolOutput (kind : ToolOutputKind) (callId output : Text)
  | configurationUpdate (update : Text)
  | compactionTrigger
  | fixed (kind : FixedKind) (payload : Text) (turnId : Option Text)
  | other
  deriving DecidableEq

structure CodexHarnessMetadata where
  harnessAuthoredConfiguration : Bool := false
  fallbackTokenLimitOverride : Option Nat := none
  deriving DecidableEq

structure ResponseItemEnvelope where
  item : ResponseItem
  metadata : Option CodexHarnessMetadata := none
  deriving DecidableEq

structure InterAgentCommunication where
  id : Option Text
  author : Text
  recipient : Text
  content : Text
  encryptedContent : Option Text
  triggerTurn : Bool
  turnId : Option Text := none
  deriving DecidableEq

def InterAgentCommunication.toModelInputItem (communication : InterAgentCommunication) :
    ResponseItem :=
  let content := match communication.encryptedContent with
    | some encrypted =>
      let messageType := if communication.triggerTurn then "NEW_TASK".toList else "MESSAGE".toList
      [.inputText ("Message Type: ".toList ++ messageType ++
          "\nTask name: ".toList ++ communication.recipient ++
          "\nSender: ".toList ++ communication.author ++
          "\nPayload:\n".toList),
        .encryptedContent encrypted]
    | none => [.inputText communication.content]
  .agentMessage {
    id := communication.id
    author := communication.author
    recipient := communication.recipient
    content
    turnId := communication.turnId }

structure CompactedItem where
  message : Text := []
  replacementHistory : Option (List ResponseItemEnvelope) := none
  windowNumber : Option Nat := none
  firstWindowId : Option Text := none
  previousWindowId : Option Text := none
  windowId : Option Text := none
  deriving DecidableEq

structure TurnContextItem where
  turnId : Option Text
  model : Text
  compHash : Option Text := none
  realtimeActive : Option Bool := none
  deriving DecidableEq

/-- A snapshot of the world, or a patch to the one before. -/
structure WorldStateItem where
  full : Bool
  state : Text
  deriving DecidableEq

structure UserMessageEvent where
  clientId : Option Text := none
  message : Text
  images : Option (List Text) := none
  imageDetails : List (Option Text) := []
  localImages : List Text := []
  localImageDetails : List (Option Text) := []
  audio : Option (List Text) := none
  localAudio : List Text := []
  textElements : List Text := []
  deriving DecidableEq

inductive CodexErrorInfo where
  | threadRollbackFailed
  | activeTurnNotSteerable
  | other (name : Text)
  deriving DecidableEq

structure TurnError where
  message : Text
  codexErrorInfo : Option CodexErrorInfo := none
  deriving DecidableEq

inductive ToolKind where
  | webSearch
  | commandExecution
  | fileChange
  | dynamicToolCall
  | mcpToolCall
  | imageView
  | imageGeneration
  | collabAgentToolCall
  | subAgentActivity
  deriving DecidableEq

/-- What is shown of a tool call, apart from its id. -/
structure ToolItem where
  kind : ToolKind
  details : Text
  deriving DecidableEq

/-- The events that show a tool call. -/
inductive ToolEventName where
  | webSearchBegin
  | webSearchEnd
  | execCommandBegin
  | execCommandEnd
  | applyPatchApprovalRequest
  | patchApplyBegin
  | patchApplyEnd
  | dynamicToolCallRequest
  | dynamicToolCallResponse
  | mcpToolCallBegin
  | mcpToolCallEnd
  | viewImageToolCall
  | imageGenerationBegin
  | imageGenerationEnd
  | collabAgentSpawnBegin
  | collabAgentSpawnEnd
  | collabAgentInteractionBegin
  | collabAgentInteractionEnd
  | subAgentActivity
  | collabWaitingBegin
  | collabWaitingEnd
  | collabCloseBegin
  | collabCloseEnd
  | collabResumeBegin
  | collabResumeEnd
  deriving DecidableEq

structure ToolEvent where
  turnId : Text
  callId : Text
  item : ToolItem
  deriving DecidableEq

inductive GuardianAssessmentStatus where
  | inProgress
  | denied
  | aborted
  | timedOut
  | approved
  deriving DecidableEq

/-- An assessment shows an item where its action is a command with a target. -/
structure GuardianAssessmentEvent where
  turnId : Text
  status : GuardianAssessmentStatus
  target : Option (Text × ToolItem)
  deriving DecidableEq

inductive TurnItemKind where
  | userMessage
  | functionCallOutput
  | hookPrompt
  | agentMessage
  | plan
  | reasoning
  | commandExecution
  | dynamicToolCall
  | collabAgentToolCall
  | subAgentActivity
  | webSearch
  | imageView
  | extension
  | imageGeneration
  | enteredReviewMode
  | exitedReviewMode
  | fileChange
  | mcpToolCall
  | contextCompaction
  deriving DecidableEq

structure TurnItem where
  id : Text
  kind : TurnItemKind
  text : Text
  deriving DecidableEq

structure TurnStartedEvent where
  turnId : Text
  startedAt : Option Int := none
  deriving DecidableEq

structure TurnCompleteEvent where
  turnId : Text
  error : Option TurnError := none
  completedAt : Option Int := none
  durationMs : Option Int := none
  deriving DecidableEq

structure TurnAbortedEvent where
  turnId : Option Text
  completedAt : Option Int := none
  durationMs : Option Int := none
  deriving DecidableEq

structure AgentMessageEvent where
  message : Text
  details : Text := []
  deriving DecidableEq

structure ReviewModeEvent where
  turnId : Option Text
  itemId : Option Text
  review : Option Text
  deriving DecidableEq

inductive EventMsg where
  | userMessage (event : UserMessageEvent)
  | agentMessage (event : AgentMessageEvent)
  | agentReasoning (text : Text)
  | agentReasoningRawContent (text : Text)
  | tool (name : ToolEventName) (event : ToolEvent)
  | guardianAssessment (event : GuardianAssessmentEvent)
  | contextCompacted
  | enteredReviewMode (event : ReviewModeEvent)
  | exitedReviewMode (event : ReviewModeEvent)
  | itemStarted (turnId : Text) (item : TurnItem)
  | itemCompleted (turnId : Text) (item : TurnItem)
  | error (error : TurnError)
  | threadRolledBack (numTurns : Nat)
  | turnAborted (event : TurnAbortedEvent)
  | turnStarted (event : TurnStartedEvent)
  | turnComplete (event : TurnCompleteEvent)
  | other
  deriving DecidableEq

inductive RolloutItem where
  | sessionMeta (contextWindow : Option Text)
  | responseItem (envelope : ResponseItemEnvelope)
  | interAgentCommunication (communication : InterAgentCommunication)
  | interAgentCommunicationMetadata
  | compacted (item : CompactedItem)
  | turnContext (item : TurnContextItem)
  | worldState (item : WorldStateItem)
  | realtimeItem
  | retainedContext (turnId callId : Text)
  | securityRiskScore
  | tokenUsageRecord (turnId : Text)
  | eventMsg (event : EventMsg)
  deriving DecidableEq

end Hexa.Rollout
