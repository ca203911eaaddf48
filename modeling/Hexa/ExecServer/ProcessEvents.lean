/-
The events of one remote process: the server numbers them and keeps a bounded
part of the output, a client session puts them in order again and reads what
it missed after it has reconnected.
-/
import Hexa.Lib.KeyedTable
import Hexa.Lib.RustStr

namespace Hexa.ExecServer

def retainedOutputBytesPerProcess : Nat := 1024 * 1024

def retainedOutputChunksPerProcess : Nat := 50000

def maxPendingProcessEvents : Nat := 256

def maxPendingProcessEventBytes : Nat := 1024 * 1024

inductive ExecOutputStream where
  | stdout
  | stderr
  | pty
  deriving DecidableEq

structure ProcessOutputChunk where
  seq : Nat
  stream : ExecOutputStream
  chunk : Bytes
  deriving DecidableEq

inductive ExecProcessEvent where
  | output (chunk : ProcessOutputChunk)
  | exited (seq : Nat) (exitCode : Int) (sandboxDenied : Option Bool)
  | closed (seq : Nat)
  | failed (message : Text)
  deriving DecidableEq

namespace ExecProcessEvent

def seq : ExecProcessEvent → Option Nat
  | output chunk => some chunk.seq
  | exited seq _ _ => some seq
  | closed seq => some seq
  | failed _ => none

def isExited : ExecProcessEvent → Bool
  | exited _ _ _ => true
  | _ => false

def isClosed : ExecProcessEvent → Bool
  | closed _ => true
  | _ => false

/-- An exit event is told whether the sandbox was the cause. -/
def noteDenied (denied : Bool) : ExecProcessEvent → ExecProcessEvent
  | exited seq exitCode known => exited seq exitCode (some (known.getD false || denied))
  | event => event

end ExecProcessEvent

structure ReadResponse where
  chunks : List ProcessOutputChunk
  nextSeq : Nat
  exited : Bool
  exitCode : Option Int
  closed : Bool
  failure : Option Text
  sandboxDenied : Bool
  deriving DecidableEq

section

/-- The fields of a running process that its events come from. -/
structure RunningProcess where
  output : List ProcessOutputChunk := []
  retainedBytes : Nat := 0
  nextSeq : Nat := 1
  exitCode : Option Int := none
  openStreams : Nat
  closed : Bool := false
  sandboxDenied : Bool := false

namespace RunningProcess

variable (process : RunningProcess)

/-- The loop that drops the oldest chunks of the retained output. -/
def evict : List ProcessOutputChunk → Nat → List ProcessOutputChunk × Nat
  | [], retainedBytes => ([], retainedBytes)
  | oldest :: rest, retainedBytes =>
    if retainedBytes > retainedOutputBytesPerProcess ∨
        (oldest :: rest).length > retainedOutputChunksPerProcess then
      evict rest (retainedBytes - oldest.chunk.length)
    else (oldest :: rest, retainedBytes)

/-- One round of `stream_output`. -/
def streamOutput (stream : ExecOutputStream) (chunk : Bytes) :
    RunningProcess × ExecProcessEvent :=
  let output : ProcessOutputChunk := ⟨process.nextSeq, stream, chunk⟩
  let evicted := evict (process.output ++ [output]) (process.retainedBytes + chunk.length)
  ({ process with
    output := evicted.1
    retainedBytes := evicted.2
    nextSeq := process.nextSeq + 1 }, .output output)

/-- `watch_exit`; whether the sandbox was the cause is told by `denied`. -/
def watchExit (exitCode : Int) (denied : Bool) : RunningProcess × ExecProcessEvent :=
  ({ process with
    nextSeq := process.nextSeq + 1
    exitCode := some exitCode
    sandboxDenied := denied },
    .exited process.nextSeq exitCode (some denied))

def finishOutputStream : RunningProcess := { process with openStreams := process.openStreams - 1 }

def maybeEmitClosed : RunningProcess × Option ExecProcessEvent :=
  if process.closed = true ∨ process.openStreams ≠ 0 ∨
      process.exitCode = none then (process, none)
  else ({ process with closed := true, nextSeq := process.nextSeq + 1 },
    some (.closed process.nextSeq))

/-- The loop of `exec_read` over the retained chunks: what it takes of them
with `maxBytes`, and the sequence number after the last one. -/
def takeChunks (maxBytes : Option Nat) :
    List ProcessOutputChunk → List ProcessOutputChunk → Nat → Nat → List ProcessOutputChunk × Nat
  | [], chunks, _, nextSeq => (chunks, nextSeq)
  | retained :: rest, chunks, totalBytes, nextSeq =>
    let total := totalBytes + retained.chunk.length
    if chunks ≠ [] ∧ maxBytes.any (· < total) then (chunks, nextSeq)
    else if maxBytes.any (· ≤ total) then (chunks ++ [retained], retained.seq + 1)
    else takeChunks maxBytes rest (chunks ++ [retained]) total (retained.seq + 1)

/-- The response of `exec_read`, once it no longer waits. -/
def execRead (afterSeq : Nat) (maxBytes : Option Nat) : ReadResponse :=
  let taken := takeChunks maxBytes
    (process.output.filter fun chunk => afterSeq < chunk.seq) [] 0
    process.nextSeq
  { chunks := taken.1
    nextSeq := if maxBytes = none then process.nextSeq else taken.2
    exited := process.exitCode.isSome
    exitCode := process.exitCode
    closed := process.closed
    failure := none
    sandboxDenied := process.sandboxDenied }

end RunningProcess

end

section Client

def pendingProcessEventBytes : ExecProcessEvent → Nat
  | .output chunk => chunk.chunk.length
  | .failed message => utf8Len message
  | .exited _ _ _ => 0
  | .closed _ => 0

structure OrderedSessionEvents where
  lastPublishedSeq : Nat := 0
  exitPublished : Bool := false
  closedPublished : Bool := false
  pending : KeyedTable Nat ExecProcessEvent := ∅
  pendingBytes : Nat := 0
  failure : Option Text := none

namespace OrderedSessionEvents

variable (ordered : OrderedSessionEvents)

/-- `BTreeMap::range`: the pending events from `first` to `last`. -/
def range (first last : Nat) : List (Nat × ExecProcessEvent) :=
  (List.range' first (last + 1 - first)).filterMap fun seq =>
    (ordered.pending.lookup seq).map fun event => (seq, event)

def insertPending (event : ExecProcessEvent) : Except Text OrderedSessionEvents :=
  match event.seq with
  | none => .error "cannot reorder an unsequenced process event".toList
  | some seq =>
    if seq ∈ ordered.pending then .ok ordered
    else
      let closesGap := seq = ordered.lastPublishedSeq + 1
      let eventBytes := pendingProcessEventBytes event
      let pendingBytes := ordered.pendingBytes + eventBytes
      if ¬ closesGap ∧ maxPendingProcessEvents ≤ ordered.pending.keys.length then
        .error ("process event reorder buffer exceeds ".toList ++
          (toString maxPendingProcessEvents).toList ++ " entries".toList)
      else if maxPendingProcessEventBytes < eventBytes then
        .error ("process event exceeds ".toList ++
          (toString maxPendingProcessEventBytes).toList ++ " bytes".toList)
      else if ¬ closesGap ∧ maxPendingProcessEventBytes < pendingBytes then
        .error ("process event reorder buffer exceeds ".toList ++
          (toString maxPendingProcessEventBytes).toList ++ " bytes".toList)
      else .ok { ordered with
        pending := ordered.pending.insert seq event
        pendingBytes := pendingBytes }

/-- The exit event among the pending ones up to `targetSeq`. -/
def pendingExit (targetSeq : Nat) : Option (Nat × ExecProcessEvent) :=
  (ordered.range 0 targetSeq).find? fun entry => entry.2.isExited

def notePendingExit (targetSeq : Nat) (sandboxDenied : Bool) : OrderedSessionEvents :=
  match ordered.pendingExit targetSeq with
  | none => ordered
  | some (seq, event) =>
    { ordered with
      pending := ordered.pending.insert seq (event.noteDenied sandboxDenied) }

/-- How far the pending events go on without a gap. -/
def firstMissingFrom : List Nat → Nat → Nat
  | [], expected => expected
  | seq :: rest, expected =>
    if seq ≠ expected then expected else firstMissingFrom rest (expected + 1)

def firstMissingSeq (targetSeq : Nat) : Nat :=
  firstMissingFrom
    ((ordered.range (ordered.lastPublishedSeq + 1) targetSeq).map Prod.fst)
    (ordered.lastPublishedSeq + 1)

end OrderedSessionEvents

/-- A client session: the events in their order, everything that it has
published, and the sequence number that its readers are woken with. -/
structure SessionState where
  orderedEvents : OrderedSessionEvents := {}
  events : List ExecProcessEvent := []
  wake : Nat := 0

namespace SessionState

variable (session : SessionState)

def lastPublishedSeq : Nat := session.orderedEvents.lastPublishedSeq

def noteChange (seq : Nat) : SessionState := { session with wake := max session.wake seq }

/-- The next event leaves the buffer. -/
def publishNext (event : ExecProcessEvent) : SessionState :=
  let ordered := session.orderedEvents
  let nextSeq := ordered.lastPublishedSeq + 1
  { session with
    orderedEvents := { ordered with
      lastPublishedSeq := nextSeq
      exitPublished := ordered.exitPublished || event.isExited
      closedPublished := ordered.closedPublished || event.isClosed
      pending := ordered.pending.erase nextSeq
      pendingBytes := ordered.pendingBytes - pendingProcessEventBytes event }
    events := session.events ++ [event] }

/-- The loop of `publish_ready`.  It takes an event out of the buffer in every
round, so it is given as many rounds as there are events. -/
def publishLoop : Nat → SessionState → Bool → SessionState × Bool
  | 0, session, publishedClosed => (session, publishedClosed)
  | rounds + 1, session, publishedClosed =>
    match session.orderedEvents.pending.lookup (session.orderedEvents.lastPublishedSeq + 1) with
    | none => (session, publishedClosed)
    | some event =>
      publishLoop rounds (session.publishNext event) (publishedClosed || event.isClosed)

def publishReady : SessionState × Bool :=
  publishLoop session.orderedEvents.pending.keys.length session false

/-- Nothing more is published. -/
def Ended : Prop :=
  session.orderedEvents.failure ≠ none ∨ session.orderedEvents.closedPublished = true

instance : Decidable session.Ended := inferInstanceAs (Decidable (_ ∨ _))

def publishOrderedEvent (event : ExecProcessEvent) : Except Text (SessionState × Bool) :=
  match event.seq with
  | none => .ok ({ session with events := session.events ++ [event] }, false)
  | some seq =>
    if session.Ended ∨ seq ≤ session.lastPublishedSeq then .ok (session, false)
    else
      (session.orderedEvents.insertPending event).map fun ordered =>
        { session with orderedEvents := ordered }.publishReady

def setFailure (message : Text) : SessionState :=
  if session.Ended then session
  else
    { orderedEvents := { session.orderedEvents with
        failure := some message
        pending := ∅
        pendingBytes := 0 }
      events := session.events ++ [.failed message]
      wake := session.wake + 1 }

/-- A notification of the server, as `handle_server_notification` and
`finish_process_event` deal with it. -/
def handleNotification (event : ExecProcessEvent) : SessionState :=
  match session.publishOrderedEvent event with
  | .ok (published, _) => published.noteChange (event.seq.getD 0)
  | .error message => session.setFailure message

/-- An error of `recover_events`, with what had been done before it. -/
structure RecoveryError where
  session : SessionState
  message : Text

/-- The variables of the loop over the recovered chunks. -/
structure RecoveryLoop where
  session : SessionState
  exitKnown : Bool
  publishedClosed : Bool := false

variable (loop : RecoveryLoop)

/-- The event goes into the buffer, and what is ready is published. -/
def RecoveryLoop.publish (event : ExecProcessEvent) : Except RecoveryError RecoveryLoop :=
  match loop.session.orderedEvents.insertPending event with
  | .error message => .error ⟨loop.session, message⟩
  | .ok ordered =>
    let published := { loop.session with orderedEvents := ordered }.publishReady
    .ok { loop with
      session := published.1
      publishedClosed := loop.publishedClosed || published.2 }

/-- A chunk beyond the next expected event: what lies between is taken for the
exit event, if that is not known yet. -/
def RecoveryLoop.inferExit (response : ReadResponse) (chunk : ProcessOutputChunk) :
    Except RecoveryError RecoveryLoop :=
  let nextSeq := loop.session.lastPublishedSeq + 1
  if response.exited = true ∧ loop.exitKnown = false ∧ nextSeq < chunk.seq then
    match response.exitCode with
    | none => .error ⟨loop.session,
        "recovering exited process did not include its exit code".toList⟩
    | some exitCode =>
      (loop.publish (.exited nextSeq exitCode
        (some response.sandboxDenied))).map fun loop => { loop with exitKnown := true }
  else .ok loop

variable (response : ReadResponse)

def RecoveryLoop.recoverChunk (chunk : ProcessOutputChunk) : Except RecoveryError RecoveryLoop :=
  let targetSeq := response.nextSeq - 1
  if targetSeq < chunk.seq then
    .error ⟨loop.session, "recovered process output sequence ".toList ++
      (toString chunk.seq).toList ++ " exceeds target sequence ".toList ++
      (toString targetSeq).toList⟩
  else do
    let loop ← loop.inferExit response chunk
    if loop.session.lastPublishedSeq < chunk.seq then loop.publish (.output chunk)
    else .ok loop

def RecoveryLoop.recoverChunks (response : ReadResponse) :
    RecoveryLoop → List ProcessOutputChunk → Except RecoveryError RecoveryLoop
  | loop, [] => .ok loop
  | loop, chunk :: chunks => do
      let loop ← loop.recoverChunk response chunk
      loop.recoverChunks response chunks

def recoveryGapError (targetSeq : Nat) : Text :=
  "process events are no longer retained while recovering through ".toList ++
    "sequence ".toList ++ (toString targetSeq).toList

/-- The close event of the response. -/
def RecoveryLoop.recoverClosed : Except RecoveryError RecoveryLoop :=
  let targetSeq := response.nextSeq - 1
  let ordered := loop.session.orderedEvents
  if response.closed = true ∧ ordered.closedPublished = false ∧
      ¬ (ordered.pending.lookup targetSeq).any ExecProcessEvent.isClosed then
    match ordered.insertPending (.closed targetSeq) with
    | .error message => .error ⟨loop.session, message⟩
    | .ok ordered =>
      .ok { loop with session := { loop.session with
        orderedEvents := ordered } }
  else .ok loop

/-- What is still missing: nothing, or the exit event alone. -/
def RecoveryLoop.recoverMissing : Except RecoveryError RecoveryLoop :=
  let targetSeq := response.nextSeq - 1
  let ordered := loop.session.orderedEvents
  let eventCount := targetSeq - ordered.lastPublishedSeq
  let retainedCount := (ordered.range (ordered.lastPublishedSeq + 1) targetSeq).length
  let missingCount := eventCount - retainedCount
  if response.exited = true ∧ loop.exitKnown = false then
    if missingCount ≠ 1 then .error ⟨loop.session, recoveryGapError targetSeq⟩
    else
      match response.exitCode with
      | none => .error ⟨loop.session,
          "recovering exited process did not include its exit code".toList⟩
      | some exitCode =>
        loop.publish (.exited (ordered.firstMissingSeq targetSeq) exitCode
          (some response.sandboxDenied))
  else if missingCount ≠ 0 then .error ⟨loop.session, recoveryGapError targetSeq⟩
  else
    let published := loop.session.publishReady
    .ok { loop with
      session := published.1
      publishedClosed := loop.publishedClosed || published.2 }

/-- The close event's place is taken by another event. -/
def closeConflict : Prop :=
  response.closed = true ∧
    ((session.orderedEvents.pending.lookup (response.nextSeq - 1)).any
        (fun event => ! event.isClosed) ∨
      ∃ chunk ∈ response.chunks, chunk.seq = response.nextSeq - 1)

instance (response : ReadResponse) : Decidable (session.closeConflict response) :=
  inferInstanceAs (Decidable (_ ∧ _))

/-- The loop with the exit event looked up among what is known. -/
def recoveryLoop : RecoveryLoop where
  session := { session with
    orderedEvents := session.orderedEvents.notePendingExit
      (response.nextSeq - 1) response.sandboxDenied }
  exitKnown := session.orderedEvents.exitPublished ||
    (session.orderedEvents.pendingExit (response.nextSeq - 1)).isSome

def recoverEvents : Except RecoveryError (SessionState × Bool) :=
  let targetSeq := response.nextSeq - 1
  match response.failure with
  | some message => .error ⟨session, "process failed while recovering: ".toList ++ message⟩
  | none =>
    if session.Ended ∨ targetSeq ≤ session.lastPublishedSeq then .ok (session, false)
    else
      let loop := session.recoveryLoop response
      if session.closeConflict response then
        .error ⟨loop.session, "process close sequence ".toList ++
          (toString targetSeq).toList ++
          " conflicts with recovered output".toList⟩
      else do
        let loop ← loop.recoverChunks response response.chunks
        let loop ← loop.recoverClosed response
        let loop ← loop.recoverMissing response
        return (loop.session.noteChange targetSeq, loop.publishedClosed)

/-- The session after a read response.  After an error it is failed in a step
of its own: the process is terminated first. -/
def handleRecovery : SessionState :=
  match session.recoverEvents response with
  | .ok (recovered, _) => recovered
  | .error error => error.session

end SessionState

end Client

end Hexa.ExecServer
