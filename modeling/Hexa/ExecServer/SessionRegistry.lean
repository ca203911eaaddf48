/-
The sessions of the exec server.  The map of sessions, the attachment of a
session and the sender of its process have a lock each, so the parts of an
attach, a detach or an expiry may come between those of another.
-/
import Hexa.Lib.KeyedTable
import Hexa.Lib.Runs

namespace Hexa.ExecServer

variable {SessionId ConnectionId : Type}

/-- There is a time of expiry only while no connection is attached. -/
structure AttachmentState (ConnectionId : Type) where
  currentConnectionId : Option ConnectionId
  detachedConnectionId : Option ConnectionId
  detachedExpiresAt : Option Nat
  detached : detachedExpiresAt.isSome → currentConnectionId = none

def AttachmentState.attached (connection : ConnectionId) : AttachmentState ConnectionId :=
  ⟨some connection, none, none, nofun⟩

/-- A session: the connection whose sender its process notifies, and the
detach that holds the lock of the attachment, its sender taken away. -/
structure SessionEntry (ConnectionId : Type) where
  attachment : AttachmentState ConnectionId
  notifications : Option ConnectionId
  detaching : Option ConnectionId := none

namespace SessionEntry

def new (connection : ConnectionId) : SessionEntry ConnectionId where
  attachment := .attached connection
  notifications := some connection

variable (entry : SessionEntry ConnectionId) (connection : ConnectionId)

def attach : SessionEntry ConnectionId := { entry with attachment := .attached connection }

def setNotificationSender (notifications : Option ConnectionId) : SessionEntry ConnectionId :=
  { entry with notifications }

/-- The first part of `detach`, for the attached connection. -/
def startDetach : SessionEntry ConnectionId :=
  { entry.setNotificationSender none with detaching := some connection }

def finishDetach (expiresAt : Nat) : SessionEntry ConnectionId :=
  { entry with
    attachment := ⟨none, some connection, some expiresAt, fun _ => rfl⟩
    detaching := none }

def hasActiveConnection : Bool := entry.attachment.currentConnectionId.isSome

def isExpired (now : Nat) : Bool :=
  entry.attachment.detachedExpiresAt.any (fun deadline => deadline ≤ now)

variable [DecidableEq ConnectionId] (entry : SessionEntry ConnectionId)

def isAttachedTo (connection : ConnectionId) : Bool :=
  entry.attachment.currentConnectionId = some connection

def isDetachedConnectionExpired (connection : ConnectionId) (now : Nat) : Bool :=
  entry.attachment.currentConnectionId.isNone &&
    entry.attachment.detachedConnectionId = some connection &&
    entry.attachment.detachedExpiresAt.any (fun deadline => deadline ≤ now)

end SessionEntry

/-- Why a session is shut down: an attach found it expired, the task that a
detach left behind did, or the registry is shut down. -/
inductive ShutdownCause (ConnectionId : Type) where
  | resumeExpired
  | expiry (connection : ConnectionId)
  | registry
  deriving DecidableEq

/-- How far the holder of the lock of the map is with a session. -/
inductive LockPhase (ConnectionId : Type) where
  | checkedExpiry (connection : ConnectionId)
  | checkedFree (connection : ConnectionId)
  | senderSet (connection : ConnectionId)
  | removing (cause : ShutdownCause ConnectionId)
  deriving DecidableEq

structure ExpiryTask (SessionId ConnectionId : Type) where
  session : SessionId
  connection : ConnectionId
  wakeAt : Nat
  deriving DecidableEq

/-- The registry with every session there was, the sessions that are about to
be shut down, the ids of connections drawn so far, and the time. -/
structure SessionRegistry (SessionId ConnectionId : Type) where
  sessions : List SessionId := []
  entries : KeyedTable SessionId (SessionEntry ConnectionId) := ∅
  lock : Option (SessionId × LockPhase ConnectionId) := none
  expiryTasks : List (ExpiryTask SessionId ConnectionId) := []
  doomed : List (SessionId × ShutdownCause ConnectionId) := []
  issued : List ConnectionId := []
  now : Nat := 0

/-- The critical sections.  A time that one of them has read is not after the
time at which it runs. -/
inductive RegistryAction (SessionId ConnectionId : Type) where
  | attachNew (session : SessionId) (connection : ConnectionId)
  | resumeLookup (session : SessionId) (connection : ConnectionId) (read : Nat)
  | resumeCheckFree
  | resumeSetSender
  | resumeAttach (session : SessionId) (connection : ConnectionId)
  | detach (session : SessionId) (connection : ConnectionId)
  | finishDetach (session : SessionId) (connection : ConnectionId) (read : Nat)
  | expireIfDetached (session : SessionId) (connection : ConnectionId) (wakeAt read : Nat)
  | remove (session : SessionId) (cause : ShutdownCause ConnectionId)
  | shutDownProcess (session : SessionId) (cause : ShutdownCause ConnectionId)
  | shutdown
  | tick (elapsed : Nat)

namespace SessionRegistry

variable [DecidableEq SessionId] [DecidableEq ConnectionId]
  (registry : SessionRegistry SessionId ConnectionId)

def get (session : SessionId) : Option (SessionEntry ConnectionId) :=
  if session ∈ registry.sessions then registry.entries.lookup session
  else none

def setEntry (session : SessionId) (entry : SessionEntry ConnectionId) :
    SessionRegistry SessionId ConnectionId :=
  { registry with entries := registry.entries.insert session entry }

/-- The registry after a critical section; none if it waits for a lock or does
not come in that state.  Ids are drawn that were not drawn before. -/
def perform (ttl : Nat) (registry : SessionRegistry SessionId ConnectionId) :
    RegistryAction SessionId ConnectionId → Option (SessionRegistry SessionId ConnectionId)
  | .attachNew session connection =>
    if registry.lock.isSome ∨ connection ∈ registry.issued ∨
        (registry.entries.lookup session).isSome then none
    else some { registry.setEntry session (.new connection) with
      sessions := session :: registry.sessions
      issued := connection :: registry.issued }
  | .resumeLookup session connection read =>
    if registry.lock.isSome ∨ connection ∈ registry.issued ∨ registry.now < read then none
    else
      let drawn := { registry with issued := connection :: registry.issued }
      match registry.get session with
      | none => some drawn
      | some entry =>
        if entry.detaching.isSome then none
        else if entry.isExpired read then
          some { drawn with
            lock := some (session, .removing .resumeExpired) }
        else some { drawn with
          lock := some (session, .checkedExpiry connection) }
  | .resumeCheckFree =>
    match registry.lock with
    | some (session, .checkedExpiry connection) => do
        let entry ← registry.entries.lookup session
        if entry.detaching.isSome then none
        else if entry.hasActiveConnection then some { registry with lock := none }
        else some { registry with
          lock := some (session, .checkedFree connection) }
    | _ => none
  | .resumeSetSender =>
    match registry.lock with
    | some (session, .checkedFree connection) => do
        let entry ← registry.entries.lookup session
        some { registry.setEntry session
            (entry.setNotificationSender (some connection)) with
          lock := some (session, .senderSet connection) }
    | _ => none
  | .resumeAttach session connection =>
    if registry.lock = some (session, .senderSet connection) then do
      let entry ← registry.entries.lookup session
      if entry.detaching.isSome then none
      else some { registry.setEntry session (entry.attach connection) with
        lock := none }
    else none
  | .detach session connection => do
      let entry ← registry.entries.lookup session
      if entry.detaching.isSome then none
      else if entry.attachment.currentConnectionId ≠ some connection then some registry
      else some (registry.setEntry session (entry.startDetach connection))
  | .finishDetach session connection read => do
      let entry ← registry.entries.lookup session
      if entry.detaching = some connection ∧ read ≤ registry.now then
        some { registry.setEntry session
            (entry.finishDetach connection (read + ttl)) with
          expiryTasks := ⟨session, connection, registry.now + ttl⟩ :: registry.expiryTasks }
      else none
  | .expireIfDetached session connection wakeAt read =>
    if registry.lock.isSome ∨ read < wakeAt ∨ registry.now < read ∨
        ⟨session, connection, wakeAt⟩ ∉ registry.expiryTasks then none
    else
      let ended := { registry with
        expiryTasks := registry.expiryTasks.erase ⟨session, connection, wakeAt⟩ }
      match registry.get session with
      | none => some ended
      | some entry =>
        if entry.detaching.isSome then none
        else if entry.isDetachedConnectionExpired connection read then
          some { ended with
            lock := some (session, .removing (.expiry connection)) }
        else some ended
  | .remove session cause =>
    if registry.lock = some (session, .removing cause) then
      some { registry with
        sessions := registry.sessions.erase session
        lock := none
        doomed := (session, cause) :: registry.doomed }
    else none
  | .shutDownProcess session cause =>
    if (session, cause) ∈ registry.doomed then
      some { registry with
        doomed := registry.doomed.erase (session, cause) }
    else none
  | .shutdown =>
    if registry.lock.isSome then none
    else some { registry with
      sessions := []
      doomed := registry.sessions.map (fun session => (session, .registry)) ++ registry.doomed }
  | .tick elapsed => some { registry with now := registry.now + elapsed }

def Step (ttl : Nat) (registry : SessionRegistry SessionId ConnectionId)
    (action : RegistryAction SessionId ConnectionId)
    (next : SessionRegistry SessionId ConnectionId) : Prop :=
  perform ttl registry action = some next

end SessionRegistry

/-- What an action is to a session. -/
inductive SessionEvent (ConnectionId : Type) where
  | quiet
  | attached (connection : ConnectionId)
  | shutDown
  | registryDown
  deriving DecidableEq

def SessionEvent.attaches : SessionEvent ConnectionId → Option ConnectionId
  | .attached connection => some connection
  | _ => none

theorem SessionEvent.attaches_ite (p : Prop) [Decidable p] (connection : ConnectionId) :
    (if p then SessionEvent.attached connection else .quiet).attaches =
      if p then some connection else none := by
  split_ifs <;> rfl

def SessionEvent.shutsDown : SessionEvent ConnectionId → Bool
  | .shutDown => true
  | _ => false

namespace RegistryAction

/-- The actions of a connection's detach and of the task it leaves behind. -/
inductive ActsFor (session : SessionId) (connection : ConnectionId) :
    RegistryAction SessionId ConnectionId → Prop where
  | detach : ActsFor session connection (.detach session connection)
  | finishDetach (read : Nat) :
      ActsFor session connection (.finishDetach session connection read)
  | expireIfDetached (wakeAt read : Nat) : ActsFor session connection
      (.expireIfDetached session connection wakeAt read)
  | remove : ActsFor session connection (.remove session (.expiry connection))
  | shutDownProcess : ActsFor session connection (.shutDownProcess session (.expiry connection))

variable [DecidableEq SessionId]

def eventAt (session : SessionId) :
    RegistryAction SessionId ConnectionId → SessionEvent ConnectionId
  | .attachNew other connection => if other = session then .attached connection else .quiet
  | .resumeAttach other connection => if other = session then .attached connection else .quiet
  | .shutDownProcess other _ => if other = session then .shutDown else .quiet
  | .shutdown => .registryDown
  | _ => .quiet

variable (actions : List (RegistryAction SessionId ConnectionId)) (session : SessionId)

/-- The connections attached to a session, in order. -/
def attachments : List ConnectionId :=
  actions.filterMap (fun action => (action.eventAt session).attaches)

/-- Another connection was attached after the given one. -/
def ResumedSince (connection : ConnectionId) : Prop :=
  ∃ before after, attachments actions session = before ++ connection :: after ∧ after ≠ []

def shutdowns : Nat := actions.countP (fun action => (action.eventAt session).shutsDown)

variable (actions : List (RegistryAction SessionId ConnectionId))
  (action : RegistryAction SessionId ConnectionId) (session : SessionId)

theorem attachments_concat :
    attachments (actions ++ [action]) session =
      attachments actions session ++ (action.eventAt session).attaches.toList := by
  cases hattaches : (action.eventAt session).attaches <;>
    simp [attachments, hattaches]

theorem shutdowns_concat :
    shutdowns (actions ++ [action]) session =
      shutdowns actions session + (action.eventAt session).shutsDown.toNat := by
  cases hshuts : (action.eventAt session).shutsDown <;>
    simp [shutdowns, hshuts]

theorem mem_concat_of_registryDown (hevent : action.eventAt session = .registryDown) :
    .shutdown ∈ actions ++ [action] := by
  cases action with
  | shutdown => exact List.mem_append_right _ List.mem_cons_self
  | attachNew other connection | resumeAttach other connection
  | shutDownProcess other cause =>
    simp only [eventAt] at hevent
    split_ifs at hevent
  | _ => cases hevent

end RegistryAction

end Hexa.ExecServer
