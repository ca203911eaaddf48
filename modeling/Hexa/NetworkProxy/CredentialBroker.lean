/-
The credential broker of the network proxy: it keeps real credentials, gives
dummies for them to child processes, and puts the real ones back into requests
to the hosts that they are bound to.
-/
import Hexa.Lib.JsonText
import Hexa.Lib.Outcomes
import Hexa.Lib.Replace
import Hexa.Lib.Runs
import Hexa.NetworkProxy.Config
import Hexa.NetworkProxy.CredentialProviders

namespace Hexa.NetworkProxy

def credentialBrokerActiveEnvKey : Text := "CODEX_NETWORK_PROXY_CREDENTIAL_BROKER_ACTIVE".toList

def brokeredCredentialsEnvKey : Text := "CODEX_NETWORK_PROXY_BROKERED_CREDENTIALS".toList

def minEmbeddedCredentialLength : Nat := 16

structure CredentialRecord where
  envVar : Text
  provider : CredentialProvider
  hostBinding : CredentialHostBinding
  realValue : Text
  dummyValue : Text
  deriving DecidableEq

structure CredentialAlias where
  envVar : Text
  dummyValue : Text
  deriving DecidableEq

/-- The random numbers that are still to come, and the records of all times,
are not part of the state in the source. -/
structure CredentialBrokerState where
  enabled : Bool
  openaiApiHost : Option Text := none
  credentials : List CredentialRecord := []
  credentialAliases : List CredentialAlias := []
  draws : List (List Nat)
  issued : List CredentialRecord := []
  deriving DecidableEq

def CredentialRecord.matchesHost (host : Text) (credential : CredentialRecord) : Bool :=
  credential.hostBinding.matchesHost host

/-- The providers with their sources, in the order of the loops. -/
def credentialSources : List (CredentialProvider × CredentialSource) :=
  credentialProviders.flatMap (fun provider =>
    provider.sources.map (fun source => (provider, source)))

def credentialEnvKeys : List Text := credentialSources.flatMap (fun source => source.2.envVars)

namespace CredentialBrokerState

variable (state : CredentialBrokerState)

def isDummyValue (value : Text) : Bool :=
  state.credentials.any (fun credential => credential.dummyValue = value)

/-- Candidates are drawn until one differs from the real value and from every
dummy; without enough random numbers the loop does not end. -/
def drawDummy (state : CredentialBrokerState) (provider : CredentialProvider) (realValue : Text) :
    List (List Nat) → Option (Text × List (List Nat))
  | [] => none
  | random :: draws =>
    let candidate := provider.dummyValue random realValue
    if candidate ≠ realValue ∧ state.isDummyValue candidate = false then some (candidate, draws)
    else drawDummy state provider realValue draws

def register (envVar : Text) (provider : CredentialProvider) (hostBinding : CredentialHostBinding)
    (realValue : Text) : Option (Text × CredentialBrokerState) :=
  match state.credentials.find? (fun credential =>
      credential.envVar = envVar && credential.provider = provider &&
        credential.hostBinding = hostBinding &&
        credential.realValue = realValue) with
  | some existing => some (existing.dummyValue, state)
  | none =>
    (state.drawDummy provider realValue state.draws).map
      (fun (dummyValue, draws) =>
        let credential := ⟨envVar, provider, hostBinding, realValue, dummyValue⟩
        (dummyValue, { state with
          credentials := state.credentials ++ [credential]
          draws
          issued := state.issued ++ [credential] }))

def brokerableCredentialValue (crates : BrokerCrates) (env : Env) (state : CredentialBrokerState)
    (envVar : Text) (provider : CredentialProvider) : Option Text :=
  ((env.lookup envVar).map trim).filter (fun realValue =>
    realValue ≠ [] && !state.isDummyValue realValue &&
      (provider.requestHeaderValue crates realValue).isSome)

def configure {Hook : Type} (config : NetworkProxyConfig Hook) (state : CredentialBrokerState) :
    CredentialBrokerState :=
  let state :=
    if state.enabled ≠ config.credentialBroker then
      { state with
        enabled := config.credentialBroker
        credentials := []
        credentialAliases := [] }
    else state
  if state.openaiApiHost ≠ config.credentialBrokerOpenaiHost then
    { state with
      openaiApiHost := config.credentialBrokerOpenaiHost
      credentials := state.credentials.filter (fun credential =>
        !credential.provider.resetOnConfigurationChange) }
  else state

section

variable (crates : BrokerCrates) (parentEnv childEnv : Env)

/-- A credential of the parent that the child has under another name, or as a
part of some value. -/
def discoverEnvVar (provider : CredentialProvider) (hostBinding : CredentialHostBinding)
    (state : CredentialBrokerState) (envVar : Text) : Option CredentialBrokerState :=
  match state.brokerableCredentialValue crates parentEnv envVar provider with
  | none => some state
  | some realValue =>
    if childEnv.lookup envVar = some realValue then some state
    else if childEnv.entries.any (fun entry =>
        entry.2 = realValue ||
          (decide (minEmbeddedCredentialLength ≤ utf8Len realValue) &&
            decide (realValue <:+: entry.2))) then
      (state.register envVar provider hostBinding realValue).map Prod.snd
    else some state

def discoverSource (state : CredentialBrokerState)
    (source : CredentialProvider × CredentialSource) : Option CredentialBrokerState :=
  match source.2.hostBinding crates childEnv state.openaiApiHost with
  | none => some state
  | some hostBinding =>
    source.2.envVars.foldlM (discoverEnvVar crates parentEnv childEnv source.1 hostBinding) state

def discoverParentCredentials (state : CredentialBrokerState) : Option CredentialBrokerState :=
  if state.enabled then credentialSources.foldlM (discoverSource crates parentEnv childEnv) state
  else some state

end

section Virtualize

variable (crates : BrokerCrates) (env : Env)

/-- The real value behind a dummy that was issued for another variable. -/
def realValueOfDummy (state : CredentialBrokerState) (envVar : Text)
    (provider : CredentialProvider) (hostBinding : CredentialHostBinding) : Option Text :=
  (env.lookup envVar).bind (fun dummy =>
    (state.credentials.find? (fun credential =>
      credential.dummyValue = dummy && credential.provider = provider &&
        credential.envVar ≠ envVar && credential.hostBinding = hostBinding &&
        state.credentials.any (fun candidate =>
          candidate.envVar = envVar && candidate.provider = provider &&
            candidate.hostBinding = hostBinding &&
            candidate.realValue = credential.realValue))).map
      CredentialRecord.realValue)

def virtualizeEnvVar (provider : CredentialProvider) (hostBinding : CredentialHostBinding)
    (current : CredentialBrokerState × Env) (envVar : Text) :
    Option (CredentialBrokerState × Env) :=
  let (state, env) := current
  match (state.brokerableCredentialValue crates env envVar provider).or
      (state.realValueOfDummy env envVar provider hostBinding) with
  | none => some (state, env)
  | some realValue =>
    (state.register envVar provider hostBinding realValue).map
      (fun (dummyValue, next) => (next, env.insert envVar dummyValue))

def virtualizeSource (current : CredentialBrokerState × Env)
    (source : CredentialProvider × CredentialSource) : Option (CredentialBrokerState × Env) :=
  match source.2.hostBinding crates current.2 current.1.openaiApiHost with
  | none => some current
  | some hostBinding =>
    source.2.envVars.foldlM (virtualizeEnvVar crates source.1 hostBinding) current

/-- How soon a credential is looked for: the longest first, then those whose
dummy the environment has, then those bound by it. -/
def priority (state : CredentialBrokerState) (credential : CredentialRecord) :
    Nat × Bool × Bool :=
  let active := env.lookup credential.envVar = some credential.dummyValue
  let hasMatchingHostBinding := credential.provider.sources.any (fun source =>
    source.bindingEnvVars ≠ [] &&
      source.hostBinding crates env state.openaiApiHost = some credential.hostBinding)
  (utf8Len credential.realValue, active, hasMatchingHostBinding)

def outranks (first second : Nat × Bool × Bool) : Bool :=
  decide (second.1 < first.1) ||
    (first.1 = second.1 && ((first.2.1 && !second.2.1) ||
      (first.2.1 = second.2.1 && (first.2.2 || !second.2.2))))

/-- The source does not fix the order of credentials that rank alike. -/
def prioritizedCredentials (state : CredentialBrokerState) (env : Env) : List CredentialRecord :=
  state.credentials.insertionSort (fun first second =>
    let firstRank := state.priority crates env first
    let secondRank := state.priority crates env second
    outranks firstRank secondRank = true ∧ (outranks secondRank firstRank = true →
      crates.tieRank first.dummyValue ≤ crates.tieRank second.dummyValue))

/-- One credential in one value, and whether any has been found so far. -/
def virtualizeCredential (found : Text × Bool) (credential : CredentialRecord) : Text × Bool :=
  if found.1 = credential.realValue then (credential.dummyValue, true)
  else if minEmbeddedCredentialLength ≤ utf8Len credential.realValue ∧
      credential.realValue <:+: found.1 then
    (replaceWord credential.realValue credential.dummyValue found.1, true)
  else found

def virtualizeValue (credentials : List CredentialRecord) (value : Text) : Text × Bool :=
  credentials.foldl virtualizeCredential (value, false)

def addAlias (aliases : List CredentialAlias) (added : CredentialAlias) : List CredentialAlias :=
  if added ∈ aliases then aliases else aliases ++ [added]

/-- The credential variables whose values are dummies, with these. -/
def brokeredCredentials : List (Text × Text) :=
  credentialEnvKeys.filterMap (fun key =>
    (env.lookup key).bind (fun value =>
      if state.credentials.any (fun credential =>
          credential.envVar = key && credential.dummyValue = value) then
        some (key, value)
      else none))

def brokeredCredentialsMarker (brokered : List (Text × Text)) : Text :=
  jsonArray (brokered.map (fun pair => jsonArray [jsonString pair.1, jsonString pair.2]))

def updateBrokeredCredentialsMarker : Env :=
  env.insert brokeredCredentialsEnvKey (brokeredCredentialsMarker (state.brokeredCredentials env))

/-- The pass over all variables, once the credentials of the environment are
registered. -/
def virtualizeValues (state : CredentialBrokerState) (env : Env) : CredentialBrokerState × Env :=
  let credentials := state.prioritizedCredentials crates env
  let virtualized := env.mapValues (fun _ value => (virtualizeValue credentials value).1)
  let aliases := env.entries.filterMap (fun entry =>
    let result := virtualizeValue credentials entry.2
    if result.2 then some ⟨entry.1, result.1⟩ else none)
  let state := { state with
    credentialAliases := aliases.foldl addAlias state.credentialAliases }
  (state, state.updateBrokeredCredentialsMarker virtualized)

def virtualizeChildEnv (state : CredentialBrokerState) : Option (CredentialBrokerState × Env) :=
  if state.enabled then
    (credentialSources.foldlM (virtualizeSource crates)
      (state, env.insert credentialBrokerActiveEnvKey ['1'])).map
      (fun current => current.1.virtualizeValues crates current.2)
  else some (state, (env.erase credentialBrokerActiveEnvKey).erase brokeredCredentialsEnvKey)

end Virtualize

section

variable (crates : BrokerCrates)

/-- The credential in the place of a dummy for the same real value. -/
def translatedMatch (headers : HeaderMap) (host : Text) (credentials : List CredentialRecord)
    (credential : CredentialRecord) : Option (CredentialRecord × HeaderValue) :=
  ((credentials.filter (fun candidate =>
    candidate.provider = credential.provider &&
      candidate.realValue = credential.realValue &&
      candidate.matchesHost host)).findSome? (fun candidate =>
    credential.provider.translateRequestHeader crates headers
      candidate.dummyValue credential.realValue)).map
    (fun headerValue => (credential, headerValue))

def selectCredential (headers : HeaderMap) (host : Text) (credentials : List CredentialRecord) :
    Option (CredentialRecord × HeaderValue) :=
  match (credentials.filter (CredentialRecord.matchesHost host)).filterMap
      (translatedMatch crates headers host credentials) with
  | [] => none
  | matched :: others =>
    if others.all (fun other =>
        other.1.provider = matched.1.provider && other.1.realValue = matched.1.realValue) then
      some matched
    else none

def injectRequestHeaders (host : Text) (headers : HeaderMap) (state : CredentialBrokerState) :
    HeaderMap :=
  if state.enabled then
    match selectCredential crates headers (normalizeHost host) state.credentials with
    | some (credential, headerValue) =>
      credential.provider.insertRequestHeader headers headerValue
    | none => headers
  else headers

end

end CredentialBrokerState

/-- The calls of the broker. -/
inductive BrokerCall (Hook : Type) where
  | configure (config : NetworkProxyConfig Hook)
  | discoverParentCredentials (parentEnv childEnv : Env)
  | virtualizeChildEnv (env : Env)
  | injectRequestHeaders (host : Text) (headers : HeaderMap)

/-- The state after a call, if the call returns. -/
def CredentialBrokerState.perform {Hook : Type} (crates : BrokerCrates)
    (state : CredentialBrokerState) :
    BrokerCall Hook → Option CredentialBrokerState
  | .configure config => some (state.configure config)
  | .discoverParentCredentials parentEnv childEnv =>
    state.discoverParentCredentials crates parentEnv childEnv
  | .virtualizeChildEnv env => (state.virtualizeChildEnv crates env).map Prod.fst
  | .injectRequestHeaders _ _ => some state

def CredentialBrokerState.new (enabled : Bool) (draws : List (List Nat)) :
    CredentialBrokerState where
  enabled
  draws

end Hexa.NetworkProxy
