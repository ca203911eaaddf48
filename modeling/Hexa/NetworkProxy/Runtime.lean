/-
The shared state of the network proxy and the calls that work on it.  A call
is a sequence of sections, each under the lock; between two sections of a call
any other task may run.
-/
import Hexa.Lib.Runs
import Hexa.NetworkProxy.Config

namespace Hexa.NetworkProxy

/-- `Host::parse`. -/
def parseHost (input : Text) : Except String Text :=
  if normalizeHost input = [] then .error "host is empty"
  else .ok (normalizeHost input)

inductive DomainListKind where
  | allow
  | deny
  deriving Repr, DecidableEq

namespace DomainListKind

def listName : DomainListKind → String
  | .allow => "allowlist"
  | .deny => "denylist"

def constraintField : DomainListKind → String
  | .allow => "network.allowed_domains"
  | .deny => "network.denied_domains"

def permission : DomainListKind → NetworkDomainPermission
  | .allow => .allow
  | .deny => .deny

def opposite : DomainListKind → DomainListKind
  | .allow => .deny
  | .deny => .allow

def entries {Hook : Type} (kind : DomainListKind) (config : NetworkProxyConfig Hook) :
    List Text :=
  match kind with
  | .allow => config.allowedDomains.getD []
  | .deny => config.deniedDomains.getD []

def oppositeEntries {Hook : Type} (kind : DomainListKind) (config : NetworkProxyConfig Hook) :
    List Text :=
  kind.opposite.entries config

end DomainListKind

def maxBlockedEvents : Nat := 200

/-- `saturating_add(1)` on `u64`. -/
def saturatingSucc (total : Nat) : Nat := min (total + 1) (2 ^ 64 - 1)

/-- The loop that pops the oldest records while there are more than `limit`:
what is popped, and what stays. -/
def popFrontWhileOver {α : Type} (limit : Nat) : List α → List α × List α
  | [] => ([], [])
  | oldest :: rest =>
    if limit < (oldest :: rest).length then
      let parts := popFrontWhileOver limit rest
      (oldest :: parts.1, parts.2)
    else ([], oldest :: rest)

section

variable {P : Platform} {Blocked : Type} (state : ConfigState P Blocked)

def ConfigState.withLog (blocked : List Blocked) (blockedTotal : Nat) : ConfigState P Blocked :=
  { state with blocked, blockedTotal }

/-- The write section of `record_blocked`. -/
def ConfigState.pushBlocked (record : Blocked) : ConfigState P Blocked :=
  state.withLog (popFrontWhileOver maxBlockedEvents
    (state.blocked ++ [record])).2 (saturatingSucc state.blockedTotal)

def alreadyListed (config : NetworkProxyConfig P.Hook) (host : Text) (target : DomainListKind) :
    Bool :=
  (target.entries config).any (normalizeHost · == host) &&
    !(target.oppositeEntries config).any (normalizeHost · == host)

def domainCandidate (config : NetworkProxyConfig P.Hook) (host : Text) (target : DomainListKind) :
    NetworkProxyConfig P.Hook :=
  config.upsertDomainPermission host target.permission normalizeHost

/-- What `update_domain_list` does between its two sections. -/
inductive Prepared (P : Platform) (Blocked : Type) where
  | present
  | failed (message : String)
  | ready (newState : ConfigState P Blocked)

/-- The read section of `update_domain_list` with the work on its snapshot. -/
def prepareDomainUpdate (outside : P.Outside) (state : ConfigState P Blocked) (host : Text)
    (target : DomainListKind) : Prepared P Blocked :=
  if alreadyListed state.config host target then .present
  else
    let candidate := domainCandidate state.config host target
    match validatePolicyAgainstConstraints candidate state.constraints with
    | .error _ => .failed (target.constraintField ++ " constrained by managed config")
    | .ok () =>
      match buildConfigState outside candidate state.constraints with
      | .error _ => .failed ("failed to compile updated network " ++ target.listName)
      | .ok newState => .ready (newState.withLog state.blocked state.blockedTotal)

def ConfigState.withMode (mode : NetworkMode) : ConfigState P Blocked :=
  { state with config := { state.config with mode } }

end

/-- The calls on the shared state.  `read` stands for the calls that only look
at it, `updateDomainList` for a call whose host has been parsed. -/
inductive Call (P : Platform) (Blocked Entry : Type) where
  | recordBlocked (entry : Entry)
  | drainBlocked
  | setNetworkMode (mode : NetworkMode)
  | updateDomainList (host : Text) (target : DomainListKind)
  | replaceConfigState (newState : ConfigState P Blocked)
  | read

/-- Where a task is: in no call, in `reload_if_needed` at the start of a call,
after it, or between the two sections of an update or of `force_reload`. -/
inductive Task (P : Platform) (Blocked Entry : Type) where
  | idle
  | reloading (call : Call P Blocked Entry)
  | reloadSnapshot (call : Call P Blocked Entry) (loaded : ConfigState P Blocked)
  | reloadWrite (call : Call P Blocked Entry) (newState : ConfigState P Blocked)
  | body (call : Call P Blocked Entry)
  | modeCommit (mode : NetworkMode) (constraints : NetworkProxyConstraints)
  | domainCommit (host : Text) (target : DomainListKind)
      (previousCfg : NetworkProxyConfig P.Hook)
      (constraints : NetworkProxyConstraints)
      (newState : ConfigState P Blocked)
  | forcing
  | forceWrite (loaded : ConfigState P Blocked)

/-- A record carries its serial number, so that equal requests differ. -/
abbrev Record (Entry : Type) := Nat × Entry

/-- The shared state and the tasks, with the history of the log: the records
made, those returned by drains, and those evicted. -/
structure World (P : Platform) (Entry : Type) where
  shared : ConfigState P (Record Entry)
  tasks : Nat → Task P (Record Entry) Entry
  records : List (Record Entry)
  drained : List (Record Entry)
  evicted : List (Record Entry)

/-- What a step makes visible. -/
inductive Event (Entry : Type) where
  | internal
  | failed (message : String)
  | reloaded
  | replaced
  | recorded (record : Record Entry)
  | drained (records : List (Record Entry))
  | modeSet (mode : NetworkMode)
  | domainUpdated (host : Text) (target : DomainListKind)

section Steps

variable {P : Platform} {Entry : Type} (world : World P Entry)

def World.setTask (id : Nat) (task : Task P (Record Entry) Entry) : World P Entry :=
  { world with tasks := Function.update world.tasks id task }

def World.setShared (shared : ConfigState P (Record Entry)) : World P Entry :=
  { world with shared }

/-- The write section of `record_blocked`, with its history. -/
def World.record (entry : Entry) : World P Entry :=
  let record := (world.records.length, entry)
  { world with
    shared := world.shared.pushBlocked record
    records := world.records ++ [record]
    evicted := world.evicted ++ (popFrontWhileOver maxBlockedEvents
      (world.shared.blocked ++ [record])).1 }

/-- The write section of `drain_blocked`, with its history. -/
def World.drain : World P Entry :=
  { world with
    shared := world.shared.withLog [] world.shared.blockedTotal
    drained := world.drained ++ world.shared.blocked }

/-- One section of one task, or the return of the reloader that it waits for.
The reloader and the callers of `replace_config_state` hand in states for which
`loads` holds.  A step is labelled with its task. -/
inductive Step (loads : ConfigState P (Record Entry) → Prop) :
    World P Entry → Nat × Event Entry → World P Entry → Prop where
  | call {world id} (call : Call P (Record Entry) Entry)
      (hidle : world.tasks id = .idle)
      (hhost : ∀ host target, call = .updateDomainList host target →
        ∃ input, parseHost input = .ok host)
      (hstate : ∀ newState, call = .replaceConfigState newState → loads newState) :
      Step loads world (id, .internal) (world.setTask id (.reloading call))
  | invalidHost {world id} (input : Text) (error : String)
      (hidle : world.tasks id = .idle)
      (hparse : parseHost input = .error error) :
      Step loads world (id, .failed "invalid network host") world
  | reloadFailed {world id call} (message : String)
      (htask : world.tasks id = .reloading call) :
      Step loads world (id, .failed message) (world.setTask id .idle)
  | reloadNone {world id call} (htask : world.tasks id = .reloading call) :
      Step loads world (id, .internal) (world.setTask id (.body call))
  | reloadSome {world id call} (loaded : ConfigState P (Record Entry))
      (htask : world.tasks id = .reloading call) (hloads : loads loaded) :
      Step loads world (id, .internal) (world.setTask id (.reloadSnapshot call loaded))
  | reloadSnapshot {world id call loaded}
      (htask : world.tasks id = .reloadSnapshot call loaded) :
      Step loads world (id, .internal) (world.setTask id (.reloadWrite call
        (loaded.withLog world.shared.blocked world.shared.blockedTotal)))
  | reloadWrite {world id call newState}
      (htask : world.tasks id = .reloadWrite call newState) :
      Step loads world (id, .reloaded) ((world.setShared newState).setTask id (.body call))
  | recordBlocked {world id entry}
      (htask : world.tasks id = .body (.recordBlocked entry)) :
      Step loads world (id, .recorded (world.records.length, entry))
        ((world.record entry).setTask id .idle)
  | drainBlocked {world id} (htask : world.tasks id = .body .drainBlocked) :
      Step loads world (id, .drained world.shared.blocked) (world.drain.setTask id .idle)
  | replaceConfigState {world id newState}
      (htask : world.tasks id = .body (.replaceConfigState newState)) :
      Step loads world (id, .replaced) ((world.setShared (newState.withLog
        world.shared.blocked world.shared.blockedTotal)).setTask id .idle)
  | read {world id} (htask : world.tasks id = .body .read) :
      Step loads world (id, .internal) (world.setTask id .idle)
  | modeRejected {world id mode} (error : NetworkProxyConstraintError)
      (htask : world.tasks id = .body (.setNetworkMode mode))
      (hinvalid : validatePolicyAgainstConstraints
        { world.shared.config with mode } world.shared.constraints = .error error) :
      Step loads world
        (id, .failed "network.mode constrained by managed config")
        (world.setTask id .idle)
  | modeSnapshot {world id mode}
      (htask : world.tasks id = .body (.setNetworkMode mode))
      (hvalid : validatePolicyAgainstConstraints
        { world.shared.config with mode } world.shared.constraints = .ok ()) :
      Step loads world (id, .internal)
        (world.setTask id (.modeCommit mode world.shared.constraints))
  | modeRetry {world id mode constraints}
      (htask : world.tasks id = .modeCommit mode constraints)
      (hchanged : world.shared.constraints ≠ constraints) :
      Step loads world (id, .internal) (world.setTask id (.reloading (.setNetworkMode mode)))
  | modeCommit {world id mode constraints}
      (htask : world.tasks id = .modeCommit mode constraints)
      (hsame : world.shared.constraints = constraints) :
      Step loads world (id, .modeSet mode)
        ((world.setShared (world.shared.withMode mode)).setTask id .idle)
  | domainPresent {world id host target} (outside : P.Outside)
      (htask : world.tasks id = .body (.updateDomainList host target))
      (hprepared : prepareDomainUpdate outside world.shared host target = .present) :
      Step loads world (id, .domainUpdated host target) (world.setTask id .idle)
  | domainFailed {world id host target message} (outside : P.Outside)
      (htask : world.tasks id = .body (.updateDomainList host target))
      (hprepared : prepareDomainUpdate outside world.shared host target = .failed message) :
      Step loads world (id, .failed message) (world.setTask id .idle)
  | domainSnapshot {world id host target newState} (outside : P.Outside)
      (htask : world.tasks id = .body (.updateDomainList host target))
      (hprepared : prepareDomainUpdate outside world.shared host target = .ready newState) :
      Step loads world (id, .internal) (world.setTask id
        (.domainCommit host target world.shared.config world.shared.constraints newState))
  | domainRetry {world id host target previousCfg constraints newState}
      (htask : world.tasks id = .domainCommit host target previousCfg constraints newState)
      (hchanged : world.shared.constraints ≠ constraints ∨ world.shared.config ≠ previousCfg) :
      Step loads world (id, .internal)
        (world.setTask id (.reloading (.updateDomainList host target)))
  | domainCommit {world id host target previousCfg constraints newState}
      (htask : world.tasks id = .domainCommit host target previousCfg constraints newState)
      (hconstraints : world.shared.constraints = constraints)
      (hconfig : world.shared.config = previousCfg) :
      Step loads world (id, .domainUpdated host target)
        ((world.setShared newState).setTask id .idle)
  | force {world id} (hidle : world.tasks id = .idle) :
      Step loads world (id, .internal) (world.setTask id .forcing)
  | forceFailed {world id} (message : String)
      (htask : world.tasks id = .forcing) :
      Step loads world (id, .failed message) (world.setTask id .idle)
  | forceLoaded {world id} (loaded : ConfigState P (Record Entry))
      (htask : world.tasks id = .forcing) (hloads : loads loaded) :
      Step loads world (id, .internal) (world.setTask id (.forceWrite loaded))
  | forceWrite {world id loaded} (htask : world.tasks id = .forceWrite loaded) :
      Step loads world (id, .reloaded) ((world.setShared (loaded.withLog
        world.shared.blocked loaded.blockedTotal)).setTask id .idle)

/-- A shared state with no history and no call in progress. -/
def World.initial (state : ConfigState P (Record Entry)) : World P Entry where
  shared := state
  tasks _ := .idle
  records := []
  drained := []
  evicted := []

end Steps

end Hexa.NetworkProxy
