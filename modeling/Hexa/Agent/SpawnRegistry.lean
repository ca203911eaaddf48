/-
The registry of spawned agents and its counter.  The tables are changed under
a lock and the counter by itself, so the parts of two operations may come in
any order.
-/
import Hexa.Lib.KeyedTable
import Hexa.Lib.RustStr
import Hexa.Lib.Runs

namespace Hexa.Agent

structure AgentPath where
  text : Text
  deriving DecidableEq

def AgentPath.root : AgentPath := ⟨"/root".toList⟩

def AgentPath.isRoot (path : AgentPath) : Bool := path = root

/-- The key of an agent: its path or, for `thread:` and an id, its thread.
Paths begin with a slash, so the two are never the same text. -/
inductive AgentKey (ThreadId : Type) where
  | path (path : AgentPath)
  | thread (thread : ThreadId)
  deriving DecidableEq

structure AgentMetadata (ThreadId : Type) where
  agentId : Option ThreadId := none
  agentPath : Option AgentPath := none
  deriving DecidableEq

section

variable {ThreadId : Type} (metadata : AgentMetadata ThreadId)

def AgentMetadata.isRoot : Bool := metadata.agentPath.any AgentPath.isRoot

/-- The agents that `live_agents` lists. -/
def AgentMetadata.isLive : Bool := metadata.agentId.isSome && !metadata.isRoot

def AgentMetadata.key (thread : ThreadId) : AgentKey ThreadId :=
  match metadata.agentPath with
  | some path => .path path
  | none => .thread thread

end

structure ActiveAgents (ThreadId : Type) [DecidableEq ThreadId] where
  agentTree : KeyedTable (AgentKey ThreadId) (AgentMetadata ThreadId) := ∅
  threadPaths : KeyedTable ThreadId (AgentKey ThreadId) := ∅

variable {ThreadId : Type} [DecidableEq ThreadId]

namespace ActiveAgents

variable (agents : ActiveAgents ThreadId) (thread : ThreadId)

def registerRootThread : ActiveAgents ThreadId :=
  let metadata := (agents.agentTree.lookup (.path .root)).getD ⟨some thread, some .root⟩
  { agentTree := agents.agentTree.insert (.path .root) metadata
    threadPaths :=
      match metadata.agentId with
      | some thread => agents.threadPaths.insert thread (.path .root)
      | none => agents.threadPaths }

/-- The tree without the agent that the thread was before. -/
def withoutPrevious (key : AgentKey ThreadId) :
    KeyedTable (AgentKey ThreadId) (AgentMetadata ThreadId) :=
  match agents.threadPaths.lookup thread with
  | some previous =>
    if previous ≠ key then agents.agentTree.erase previous
    else agents.agentTree
  | none => agents.agentTree

def registerSpawnedThread (metadata : AgentMetadata ThreadId) : ActiveAgents ThreadId :=
  match metadata.agentId with
  | none => agents
  | some thread =>
    let key := metadata.key thread
    let paths := agents.threadPaths.insert thread key
    let tree := agents.withoutPrevious thread key
    { agentTree := tree.insert key metadata
      threadPaths :=
        match (tree.lookup key).bind (·.agentId) with
        | some previous => if previous ≠ thread then paths.erase previous else paths
        | none => paths }

/-- The part of `release_spawned_thread` under the lock: whether an agent was
removed that is counted. -/
def removeThread : ActiveAgents ThreadId × Bool :=
  match agents.threadPaths.lookup thread with
  | none => (agents, false)
  | some key =>
    let paths := agents.threadPaths.erase thread
    match agents.agentTree.lookup key with
    | none => ({ agents with threadPaths := paths }, false)
    | some metadata =>
      ({ agentTree := agents.agentTree.erase key, threadPaths := paths }, !metadata.isRoot)

/-- The tree with the path taken, unless it is already. -/
def reserveAgentPath (path : AgentPath) : Option (ActiveAgents ThreadId) :=
  if (agents.agentTree.lookup (.path path)).isSome then none
  else some { agents with
    agentTree := agents.agentTree.insert (.path path) ⟨none, some path⟩ }

def releaseReservedAgentPath (path : AgentPath) : ActiveAgents ThreadId :=
  if (agents.agentTree.lookup (.path path)).any (·.agentId.isNone) then
    { agents with agentTree := agents.agentTree.erase (.path path) }
  else agents

end ActiveAgents

/-- A reservation, held or on the way out: behind the lock of its drop, before
the counter. -/
inductive SpawnReservation where
  | held (reservedAgentPath : Option AgentPath)
  | dropping
  deriving DecidableEq

/-- The registry with the reservations that are out, and the number of release
calls that have removed a counted agent and not yet come to the counter. -/
structure SpawnState (ThreadId : Type) [DecidableEq ThreadId] where
  agents : ActiveAgents ThreadId := {}
  totalCount : Int := 0
  reservations : KeyedTable Nat SpawnReservation := ∅
  releasing : Nat := 0

/-- The steps that the tasks take, each atomic. -/
inductive SpawnAction (ThreadId : Type) where
  | reserveSpawnSlot (slot : Nat) (maxThreads : Option Nat)
  | reserveAgentPath (slot : Nat) (path : AgentPath)
  | commit (slot : Nat) (metadata : AgentMetadata ThreadId)
  | drop (slot : Nat)
  | uncountDropped (slot : Nat)
  | releaseSpawnedThread (thread : ThreadId)
  | uncountReleased

namespace SpawnState

variable (state : SpawnState ThreadId)

/-- The counter is below the limit; the loop of `try_increment_spawned` ends
with the exchange that saw such a value. -/
def admits (maxThreads : Option Nat) : Bool :=
  maxThreads.all (fun limit => state.totalCount < limit)

/-- The state after an action; none if there is no such reservation or call.
Refused reservations of slots and paths change nothing. -/
def perform :
    SpawnAction ThreadId → Option (SpawnState ThreadId)
  | .reserveSpawnSlot slot maxThreads =>
    if (state.reservations.lookup slot).isSome then none
    else if state.admits maxThreads then
      some { state with
        totalCount := state.totalCount + 1
        reservations := state.reservations.insert slot (.held none) }
    else some state
  | .reserveAgentPath slot path =>
    match state.reservations.lookup slot with
    | some (.held _) =>
      match state.agents.reserveAgentPath path with
      | some agents =>
        some { state with
          agents
          reservations := state.reservations.insert slot (.held (some path)) }
      | none => some state
    | _ => none
  | .commit slot metadata =>
    match state.reservations.lookup slot with
    | some (.held _) =>
      some { state with
        agents := state.agents.registerSpawnedThread metadata
        reservations := state.reservations.erase slot }
    | _ => none
  | .drop slot =>
    match state.reservations.lookup slot with
    | some (.held path) =>
      some { state with
        agents :=
          match path with
          | some path => state.agents.releaseReservedAgentPath path
          | none => state.agents
        reservations := state.reservations.insert slot .dropping }
    | _ => none
  | .uncountDropped slot =>
    match state.reservations.lookup slot with
    | some .dropping =>
      some { state with
        totalCount := state.totalCount - 1
        reservations := state.reservations.erase slot }
    | _ => none
  | .releaseSpawnedThread thread =>
    let (agents, counted) := state.agents.removeThread thread
    some { state with
      agents, releasing := state.releasing + counted.toNat }
  | .uncountReleased =>
    if state.releasing = 0 then none
    else some { state with
      totalCount := state.totalCount - 1
      releasing := state.releasing - 1 }

def Step (action : SpawnAction ThreadId) (next : SpawnState ThreadId) : Prop :=
  state.perform action = some next

/-- A new registry, with the root thread registered or not yet. -/
def initial (root : Option ThreadId) : SpawnState ThreadId where
  agents :=
    match root with
    | some thread => ActiveAgents.registerRootThread {} thread
    | none => {}

/-- The registered agents that are not the root and have a thread. -/
def registered : Nat := state.agents.agentTree.countWhere AgentMetadata.isLive

def outstanding : Nat := state.reservations.keys.length

end SpawnState

end Hexa.Agent
