/-
The background writer of a rollout: items wait in a queue, the file is created
when it is first needed, and after a failed write it is opened again and the
rest of the queue is written once more.
-/
import Hexa.Lib.RecordLines

namespace Hexa.Rollout

universe u v w z

section

inductive RolloutOrdinalState where
  | legacy
  | paginated (next : Option Nat)
  deriving DecidableEq

namespace RolloutOrdinalState

def forNewRollout : Option Nat → RolloutOrdinalState
  | none => .legacy
  | some endOrdinalExclusive => .paginated (some endOrdinalExclusive)

/-- The ordinal of the next record; there is none if it has overflowed. -/
def current : RolloutOrdinalState → Option (Option Nat)
  | .legacy => some none
  | .paginated next => next.map some

def advance : RolloutOrdinalState → RolloutOrdinalState
  | .legacy => .legacy
  | .paginated next =>
    .paginated (next.bind fun ordinal =>
      if ordinal + 1 < 2 ^ 64 then some (ordinal + 1) else none)

end RolloutOrdinalState

end

/-- What the writer writes: the session meta with what is known of the
repository at that time, and the items of the session. -/
inductive WrittenItem (Meta : Type u) (Git : Type v) (Item : Type w) where
  | sessionMeta (session : Meta) (git : Option Git)
  | item (item : Item)
  deriving DecidableEq

structure RolloutLine (Time : Type z) (Payload : Type w) where
  timestamp : Time
  ordinal : Option Nat
  item : Payload
  deriving DecidableEq

/-- What the outside does at each input or output operation. A failed write
loses the last bytes of what was to be written. -/
structure Surroundings (Time : Type z) (Git : Type v) where
  /-- Opening fails, before or after the file is created. -/
  openFails : Nat → Option Bool
  terminateLoses : Nat → Option Nat
  recordLoses : Nat → Option Nat
  flushFails : Nat → Bool
  timestamp : Nat → Time
  git : Nat → Option Git

/-- The rollout file, and how many operations there have been. -/
structure Disk where
  file : Option (List UInt8)
  operations : Nat
  deriving DecidableEq

namespace Disk

variable (disk : Disk)

def contents : List UInt8 := disk.file.getD []

/-- One operation, with the contents of the file after it. -/
def written (contents : List UInt8) : Disk := ⟨some contents, disk.operations + 1⟩

/-- The file is created if it is missing. -/
def created : Disk := disk.written disk.contents

def skipped : Disk := { disk with operations := disk.operations + 1 }

/-- The bytes go to the end of the file, unless the write fails and loses the
last ones of them. -/
def append (bytes : List UInt8) : Option Nat → Bool × Disk
  | none => (true, disk.written (disk.contents ++ bytes))
  | some lost => (false, disk.written (disk.contents ++ bytes.take (bytes.length - lost)))

end Disk

structure RolloutWriterState (Meta : Type u) (Item : Type w) where
  writer : Bool
  deferredCreation : Bool
  pendingItems : List Item
  sessionMeta : Option Meta
  ordinalState : RolloutOrdinalState
  disk : Disk
  deriving DecidableEq

inductive RolloutCmd (Item : Type w) where
  | addItems (items : List Item)
  | persist
  | flush
  | shutdown

section Writer

variable {Meta : Type u} {Git : Type v} {Item : Type w} {Time : Type z}
  (format : RecordFormat UInt8 (RolloutLine Time (WrittenItem Meta Git Item)))
  (outside : Surroundings Time Git)

/-- `ensure_rollout_is_newline_terminated`. -/
def ensureNewlineTerminated (disk : Disk) : Bool × Disk :=
  if disk.contents = [] ∨ disk.contents.getLast? = some format.separator then (true, disk)
  else disk.append [format.separator] (outside.terminateLoses disk.operations)

def openLogFile (disk : Disk) : Bool × Disk :=
  match outside.openFails disk.operations with
  | some false => (false, disk.skipped)
  | some true => (false, disk.created)
  | none => ensureNewlineTerminated format outside disk.created

def writeRolloutItem (item : WrittenItem Meta Git Item) (ordinal : Option Nat) (disk : Disk) :
    Bool × Disk :=
  disk.append
    (format.line ⟨outside.timestamp disk.operations, ordinal, item⟩)
    (outside.recordLoses disk.operations)

namespace RolloutWriterState

/-- The state for a new rollout. -/
def new (session : Meta) (ordinalState : RolloutOrdinalState) : RolloutWriterState Meta Item :=
  ⟨false, true, [], some session, ordinalState, ⟨none, 0⟩⟩

variable (state : RolloutWriterState Meta Item)

def isDeferred : Bool := !state.writer && state.deferredCreation

def enterRecoveryMode : RolloutWriterState Meta Item := { state with writer := false }

def ensureWriterOpen : Bool × RolloutWriterState Meta Item :=
  if state.writer then (true, state)
  else
    match openLogFile format outside state.disk with
    | (false, disk) => (false, { state with disk })
    | (true, disk) => (true, { state with writer := true, deferredCreation := false, disk })

/-- A record is written with the ordinal that is next. -/
def writeNumbered (item : WrittenItem Meta Git Item) (state : RolloutWriterState Meta Item) :
    Bool × RolloutWriterState Meta Item :=
  match state.ordinalState.current with
  | none => (false, state)
  | some ordinal =>
    match writeRolloutItem format outside item ordinal state.disk with
    | (false, disk) => (false, { state with disk })
    | (true, disk) => (true, { state with ordinalState := state.ordinalState.advance, disk })

def writeSessionMetaIfNeeded : Bool × RolloutWriterState Meta Item :=
  match state.sessionMeta with
  | none => (true, state)
  | some session =>
    match state.writeNumbered format outside
        (.sessionMeta session (outside.git state.disk.operations)) with
    | (false, state) => (false, state)
    | (true, state) => (true, { state with sessionMeta := none })

/-- The loop of `write_pending_items_once`; what it has written is no longer
pending. -/
def writePendingItems : List Item → RolloutWriterState Meta Item →
    Bool × RolloutWriterState Meta Item
  | [], state => (true, { state with pendingItems := [] })
  | item :: items, state =>
    match state.writeNumbered format outside (.item item) with
    | (false, state) => (false, { state with pendingItems := item :: items })
    | (true, state) => writePendingItems items state

def writePendingOnce : Bool × RolloutWriterState Meta Item :=
  match state.ensureWriterOpen format outside with
  | (false, state) => (false, state)
  | (true, state) =>
    match state.writeSessionMetaIfNeeded format outside with
    | (false, state) => (false, state)
    | (true, state) =>
      match writePendingItems format outside state.pendingItems state with
      | (false, state) => (false, state)
      | (true, state) =>
        (!outside.flushFails state.disk.operations, { state with disk := state.disk.skipped })

def writePendingWithRecovery : Bool × RolloutWriterState Meta Item :=
  match state.writePendingOnce format outside with
  | (true, state) => (true, state)
  | (false, state) =>
    match state.enterRecoveryMode.writePendingOnce format outside with
    | (true, state) => (true, state)
    | (false, state) => (false, state.enterRecoveryMode)

def persist : Bool × RolloutWriterState Meta Item := state.writePendingWithRecovery format outside

/-- `flush`, and `shutdown`, which does the same. -/
def flush : Bool × RolloutWriterState Meta Item :=
  if state.isDeferred && state.pendingItems.isEmpty then (true, state)
  else state.writePendingWithRecovery format outside

def addItems (items : List Item) (state : RolloutWriterState Meta Item) :
    RolloutWriterState Meta Item :=
  { state with pendingItems := state.pendingItems ++ items }

def flushIfMaterialized : RolloutWriterState Meta Item :=
  if state.isDeferred then state
  else
    match state.flush format outside with
    | (true, state) => state
    | (false, state) => state.enterRecoveryMode

end RolloutWriterState

/-- The writer task, which ends with a shutdown that succeeds. -/
structure RolloutWriter (Meta : Type u) (Item : Type w) where
  state : RolloutWriterState Meta Item
  running : Bool
  deriving DecidableEq

namespace RolloutWriter

/-- One command, with what is reported for it. -/
def perform (writer : RolloutWriter Meta Item) (cmd : RolloutCmd Item) :
    RolloutWriter Meta Item × Option Bool :=
  if writer.running then
    match cmd with
    | .addItems items =>
      (⟨(writer.state.addItems items).flushIfMaterialized format outside, true⟩, none)
    | .persist =>
      let (success, state) := writer.state.persist format outside
      (⟨state, true⟩, some success)
    | .flush =>
      let (success, state) := writer.state.flush format outside
      (⟨state, true⟩, some success)
    | .shutdown =>
      let (success, state) := writer.state.flush format outside
      (⟨state, !success⟩, some success)
  else (writer, none)

def performAll (writer : RolloutWriter Meta Item) :
    List (RolloutCmd Item) → RolloutWriter Meta Item :=
  List.foldl (fun writer cmd => (writer.perform format outside cmd).1) writer

end RolloutWriter

end Writer

end Hexa.Rollout
