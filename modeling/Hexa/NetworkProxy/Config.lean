/-
The configuration of the network proxy, the managed constraints on it, the
check of one against the other, and the runtime state that is built from a
configuration.
-/
import Hexa.NetworkProxy.Policy

namespace Hexa.NetworkProxy

universe u

/-- The order of the variants is the precedence between duplicates. -/
inductive NetworkDomainPermission where
  | none
  | allow
  | deny
  deriving Repr, DecidableEq

def NetworkDomainPermission.rank : NetworkDomainPermission → Nat
  | .none => 0
  | .allow => 1
  | .deny => 2

structure NetworkDomainPermissionEntry where
  pattern : Text
  permission : NetworkDomainPermission
  deriving Repr, DecidableEq

inductive NetworkUnixSocketPermission where
  | allow
  | deny
  deriving Repr, DecidableEq

inductive NetworkMode where
  | limited
  | full
  deriving Repr, DecidableEq

def networkModeRank : NetworkMode → Nat
  | .limited => 0
  | .full => 1

/-- `NetworkProxyConfig`, over the type of configured hooks. -/
structure NetworkProxyConfig (Hook : Type u) where
  enabled : Bool := false
  proxyUrl : Text := "http://127.0.0.1:3128".toList
  enableSocks5 : Bool := true
  socksUrl : Text := "http://127.0.0.1:8081".toList
  enableSocks5Udp : Bool := true
  allowUpstreamProxy : Bool := true
  dangerouslyAllowNonLoopbackProxy : Bool := false
  dangerouslyAllowAllUnixSockets : Bool := false
  mode : NetworkMode := .full
  domains : Option (List NetworkDomainPermissionEntry) := none
  unixSockets : Option (List (Text × NetworkUnixSocketPermission)) := none
  allowLocalBinding : Bool := false
  mitm : Bool := false
  credentialBroker : Bool := false
  credentialBrokerOpenaiHost : Option Text := none
  dangerouslyAllowPlaintextCredentialInjection : Bool := false
  mitmHooks : List Hook := []
  deriving DecidableEq

/-- The loop of `effective_entries`: one entry a pattern, at its first place,
with the strongest permission. -/
def addEffectiveEntry (effective : List NetworkDomainPermissionEntry)
    (entry : NetworkDomainPermissionEntry) : List NetworkDomainPermissionEntry :=
  if effective.any (fun known => known.pattern == entry.pattern) then
    effective.map (fun known =>
      if known.pattern = entry.pattern ∧ known.permission.rank < entry.permission.rank then entry
      else known)
  else effective ++ [entry]

def effectiveEntries (entries : List NetworkDomainPermissionEntry) :
    List NetworkDomainPermissionEntry :=
  entries.foldl addEffectiveEntry []

namespace NetworkProxyConfig

variable {Hook : Type u} (config : NetworkProxyConfig Hook) (permission : NetworkDomainPermission)

/-- `domain_entries` before an empty list is turned into no list. -/
def domainEntryList : List Text :=
  match config.domains with
  | none => []
  | some entries =>
    ((effectiveEntries entries).filter (fun entry =>
      entry.permission == permission)).map (·.pattern)

def domainEntries : Option (List Text) :=
  if config.domainEntryList permission = [] then none
  else some (config.domainEntryList permission)

def allowedDomains : Option (List Text) := config.domainEntries .allow

def deniedDomains : Option (List Text) := config.domainEntries .deny

def allowUnixSockets : List Text :=
  ((config.unixSockets.getD []).filter (fun entry => entry.2 == .allow)).map (·.1)

variable (entries : List NetworkDomainPermissionEntry)

/-- `(!entries.is_empty()).then_some(entries)`. -/
def someIfNonempty : Option (List NetworkDomainPermissionEntry) :=
  if entries = [] then none else some entries

def upsertDomainPermission (host : Text) (permission : NetworkDomainPermission)
    (normalize : Text → Text) : NetworkProxyConfig Hook :=
  { config with
    domains := someIfNonempty
      ((config.domains.getD []).filter (fun entry =>
        normalize entry.pattern ≠ normalize host) ++
        [⟨host, permission⟩]) }

/-- The loop of `set_domain_entries`. -/
def addDomainEntry (pattern : Text) : List NetworkDomainPermissionEntry :=
  if ⟨pattern, permission⟩ ∈ entries then entries
  else entries ++ [⟨pattern, permission⟩]

def setDomainEntries (patterns : List Text) (permission : NetworkDomainPermission) :
    NetworkProxyConfig Hook :=
  { config with
    domains := someIfNonempty
      (patterns.foldl (addDomainEntry permission)
        ((config.domains.getD []).filter (fun entry => entry.permission ≠ permission))) }

def setAllowedDomains (patterns : List Text) : NetworkProxyConfig Hook :=
  config.setDomainEntries patterns .allow

end NetworkProxyConfig

structure NetworkProxyConstraints where
  enabled : Option Bool := none
  mode : Option NetworkMode := none
  allowUpstreamProxy : Option Bool := none
  dangerouslyAllowNonLoopbackProxy : Option Bool := none
  dangerouslyAllowAllUnixSockets : Option Bool := none
  allowedDomains : Option (List Text) := none
  allowlistExpansionEnabled : Option Bool := none
  deniedDomains : Option (List Text) := none
  denylistExpansionEnabled : Option Bool := none
  allowUnixSockets : Option (List Text) := none
  allowLocalBinding : Option Bool := none
  deriving Repr, DecidableEq

/-- A part of an error message: a text, or the debug form of a value. -/
inductive Shown where
  | text (message : String)
  | debugTexts (entries : List Text)
  | debugMode (mode : NetworkMode) (suffix : String)
  deriving Repr, DecidableEq

inductive NetworkProxyConstraintError where
  | invalidValue (fieldName : String) (candidate allowed : Shown)
  deriving Repr, DecidableEq

open NetworkProxyConstraintError

/-- What the proxy is built on: the `url` and `globset` crates, the paths of
the host system, and the parts of hook handling that no check here depends on.
`Outside` is what environment variables and files hold at the time of a
call. -/
structure Platform where
  Hook : Type
  MitmHooks : Type
  MitmState : Type
  Outside : Type
  hookDecidableEq : DecidableEq Hook
  url : UrlCrate
  glob : GlobCrate
  unixSocketPathOk : Text → Bool
  validateHook : Nat → Hook → Except String Unit
  compileHooks : Outside → List Hook → Except String MitmHooks
  newMitmState : Outside → Bool → Except String MitmState

instance (P : Platform) : DecidableEq P.Hook := P.hookDecidableEq

/-- The loop of `validate_mitm_hook_config`. -/
def validateHooks {P : Platform} : Nat → List P.Hook → Except String Unit
  | _, [] => .ok ()
  | index, hook :: hooks =>
    match P.validateHook index hook with
    | .error error => .error error
    | .ok () => validateHooks (index + 1) hooks

variable {P : Platform} (config : NetworkProxyConfig P.Hook)

def validateMitmHookConfig : Except String Unit :=
  if config.mitmHooks.isEmpty then .ok ()
  else if !config.mitm then .error "network.mitm_hooks requires network.mitm = true"
  else validateHooks 0 config.mitmHooks

def compileMitmHooks (outside : P.Outside) (config : NetworkProxyConfig P.Hook) :
    Except String P.MitmHooks :=
  match validateMitmHookConfig config with
  | .error error => .error error
  | .ok () => P.compileHooks outside config.mitmHooks

abbrev Check := Except NetworkProxyConstraintError Unit

/-- A switch that managed configuration turns off. -/
def requireDisabled (fieldName : String) (candidate permitted : Bool) : Check :=
  if candidate && !permitted then
    .error (invalidValue fieldName (.text "true") (.text "false (disabled by managed config)"))
  else .ok ()

def validateNonGlobalWildcardDomainPatterns (fieldName : String) (patterns : List Text) : Check :=
  match patterns.find? isGlobalWildcardDomainPattern with
  | some pattern =>
    .error (invalidValue fieldName (.text (String.ofList (trim pattern)))
      (.text ("exact hosts or scoped wildcards like *.example.com or " ++ "**.example.com")))
  | none => .ok ()

def validateMode (candidate : NetworkMode) (constraint : Option NetworkMode) : Check :=
  match constraint with
  | none => .ok ()
  | some maxMode =>
    if networkModeRank candidate > networkModeRank maxMode then
      .error (invalidValue "network.mode" (.debugMode candidate "")
        (.debugMode maxMode " or more restrictive"))
    else .ok ()

/-- The set of the entries in ASCII lower case. -/
def lowered (entries : List Text) : List Text := (entries.map toAsciiLowercase).dedup

/-- The allowlist against the managed one, with the three settings of
`allowlist_expansion_enabled`. -/
def validateAllowedDomains (url : UrlCrate) (expansion : Option Bool)
    (managed allowed denied : List Text) : Check :=
  match expansion with
  | some true =>
    let missing := (lowered managed).filter (fun entry =>
      entry ∉ lowered allowed ∧ entry ∉ lowered denied)
    if missing = [] then .ok ()
    else
      .error (invalidValue "network.allowed_domains"
        (.text "missing managed allowed_domains entries")
        (.debugTexts missing))
  | some false =>
    let expected := (lowered managed).filter (· ∉ lowered denied)
    if (∀ entry ∈ lowered allowed, entry ∈ expected) ∧
        (∀ entry ∈ expected, entry ∈ lowered allowed) then .ok ()
    else
      .error (invalidValue "network.allowed_domains" (.debugTexts allowed)
        (.text "must match managed allowed_domains"))
  | none =>
    let managedPatterns := managed.map (DomainPattern.parseForConstraints url)
    let invalid := allowed.filter (fun entry =>
      !managedPatterns.any (fun pattern =>
        pattern.allows (DomainPattern.parseForConstraints url entry)))
    if invalid = [] then .ok ()
    else
      .error (invalidValue "network.allowed_domains" (.debugTexts invalid)
        (.text "subset of managed allowed_domains"))

def validateDeniedDomains (expansion : Option Bool) (managed denied : List Text) : Check :=
  match expansion with
  | some false =>
    if (∀ entry ∈ lowered denied, entry ∈ lowered managed) ∧
        (∀ entry ∈ lowered managed, entry ∈ lowered denied) then .ok ()
    else
      .error (invalidValue "network.denied_domains" (.debugTexts denied)
        (.text "must match managed denied_domains"))
  | _ =>
    let missing := (lowered managed).filter (· ∉ lowered denied)
    if missing = [] then .ok ()
    else
      .error (invalidValue "network.denied_domains"
        (.text "missing managed denied_domains entries")
        (.debugTexts missing))

def validateManagedAllowlist (url : UrlCrate) (constraints : NetworkProxyConstraints)
    (allowed denied : List Text) : Check :=
  match constraints.allowedDomains with
  | none => .ok ()
  | some managed => do
      validateNonGlobalWildcardDomainPatterns "network.allowed_domains" managed
      validateAllowedDomains url constraints.allowlistExpansionEnabled managed allowed denied

variable (constraints : NetworkProxyConstraints)

def validateManagedDenylist (denied : List Text) : Check :=
  match constraints.deniedDomains with
  | none => .ok ()
  | some managed => do
      validateNonGlobalWildcardDomainPatterns "network.denied_domains" managed
      validateDeniedDomains constraints.denylistExpansionEnabled managed denied

def validateUnixSockets (managed allowed : List Text) : Check :=
  let invalid := allowed.filter (fun entry => toAsciiLowercase entry ∉ lowered managed)
  if invalid = [] then .ok ()
  else
    .error (invalidValue "network.allow_unix_sockets" (.debugTexts invalid)
      (.text "subset of managed allow_unix_sockets"))

def validateManagedUnixSockets (allowed : List Text) : Check :=
  match constraints.allowUnixSockets with
  | none => .ok ()
  | some managed => validateUnixSockets managed allowed

def invalidMitmHookConfiguration (error : String) : NetworkProxyConstraintError :=
  invalidValue "network.mitm_hooks" (.text error) (.text "valid MITM hook configuration")

def validatePolicyAgainstConstraints (constraints : NetworkProxyConstraints) : Check := do
  let allowed := config.allowedDomains.getD []
  let denied := config.deniedDomains.getD []
  (validateMitmHookConfig config).mapError invalidMitmHookConfiguration
  validateNonGlobalWildcardDomainPatterns "network.denied_domains" denied
  requireDisabled "network.enabled" config.enabled (constraints.enabled.getD true)
  validateMode config.mode constraints.mode
  requireDisabled "network.allow_upstream_proxy" config.allowUpstreamProxy
    (constraints.allowUpstreamProxy.getD true)
  requireDisabled "network.dangerously_allow_non_loopback_proxy"
    config.dangerouslyAllowNonLoopbackProxy
    (constraints.dangerouslyAllowNonLoopbackProxy.getD true)
  requireDisabled "network.dangerously_allow_all_unix_sockets"
    config.dangerouslyAllowAllUnixSockets
    (constraints.dangerouslyAllowAllUnixSockets.getD constraints.allowUnixSockets.isNone)
  requireDisabled "network.allow_local_binding" config.allowLocalBinding
    (constraints.allowLocalBinding.getD true)
  validateManagedAllowlist P.url constraints allowed denied
  validateManagedDenylist constraints denied
  validateManagedUnixSockets constraints config.allowUnixSockets

/-- `ConfigState`: a configuration with what is compiled from it, and the log
of blocked requests. -/
structure ConfigState (P : Platform) (Blocked : Type) where
  config : NetworkProxyConfig P.Hook
  brokerageCreatedDefaultAllowlist : Bool
  allowSet : GlobSet
  denySet : GlobSet
  mitm : Option P.MitmState
  mitmHooks : P.MitmHooks
  constraints : NetworkProxyConstraints
  blocked : List Blocked
  blockedTotal : Nat

inductive BuildError where
  | constraint (error : NetworkProxyConstraintError)
  | message (text : String)
  deriving Repr, DecidableEq

def validateUnixSocketAllowlistPaths : Except String Unit :=
  match config.allowUnixSockets.findIdx? (!P.unixSocketPathOk ·) with
  | some index => .error ("invalid network.allow_unix_sockets[" ++ toString index ++ "]")
  | none => .ok ()

section

variable {P : Platform} (config : NetworkProxyConfig P.Hook)
  (constraints : NetworkProxyConstraints)

/-- The credential broker is off where managed configuration disables the
proxy. -/
def withoutForbiddenBroker : NetworkProxyConfig P.Hook :=
  if constraints.enabled = some false then { config with credentialBroker := false }
  else config

def brokerageCreatedProxy : Bool := config.credentialBroker && !config.enabled

def createdDefaultAllowlist : Bool :=
  brokerageCreatedProxy config && config.allowedDomains.isNone &&
    constraints.allowedDomains.isNone

/-- The changes that `build_config_state` makes to a configuration for its
credential broker. -/
def brokered : NetworkProxyConfig P.Hook :=
  let enabled :=
    if brokerageCreatedProxy config then { config with enabled := true }
    else config
  if createdDefaultAllowlist config constraints then enabled.setAllowedDomains [['*']]
  else enabled

end

def requireMitmForBroker : Except String Unit :=
  if config.credentialBroker && !config.mitm then
    .error "network.credential_broker requires network.mitm = true"
  else .ok ()

def startMitm (outside : P.Outside) (config : NetworkProxyConfig P.Hook) :
    Except String (Option P.MitmState) :=
  if config.mitm then (P.newMitmState outside config.allowUpstreamProxy).map some
  else .ok none

def buildConfigState {Blocked : Type} (outside : P.Outside) (config : NetworkProxyConfig P.Hook)
    (constraints : NetworkProxyConstraints) :
    Except BuildError (ConfigState P Blocked) := do
  let requested := withoutForbiddenBroker config constraints
  let config := brokered requested constraints
  (validateUnixSocketAllowlistPaths config).mapError .message
  (requireMitmForBroker config).mapError .message
  let allowed := config.allowedDomains.getD []
  let denied := config.deniedDomains.getD []
  (validateNonGlobalWildcardDomainPatterns "network.denied_domains" denied).mapError .constraint
  let denySet ← (compileDenylistGlobset P.glob denied).mapError .message
  let allowSet ← (compileAllowlistGlobset P.glob allowed).mapError .message
  let mitmHooks ← (compileMitmHooks outside config).mapError .message
  let mitm ← (startMitm outside config).mapError .message
  .ok {
    config
    brokerageCreatedDefaultAllowlist := createdDefaultAllowlist requested constraints
    allowSet
    denySet
    mitm
    mitmHooks
    constraints
    blocked := []
    blockedTotal := 0 }

/-- What an accepted configuration satisfies, check by check. -/
structure MeetsConstraints {P : Platform} (config : NetworkProxyConfig P.Hook)
    (constraints : NetworkProxyConstraints) : Prop where
  hooks : validateMitmHookConfig config = .ok ()
  deniedScoped : validateNonGlobalWildcardDomainPatterns
    "network.denied_domains" (config.deniedDomains.getD []) = .ok ()
  enabled : requireDisabled "network.enabled" config.enabled
    (constraints.enabled.getD true) = .ok ()
  mode : validateMode config.mode constraints.mode = .ok ()
  upstream : requireDisabled "network.allow_upstream_proxy"
    config.allowUpstreamProxy
    (constraints.allowUpstreamProxy.getD true) = .ok ()
  loopback : requireDisabled "network.dangerously_allow_non_loopback_proxy"
    config.dangerouslyAllowNonLoopbackProxy
    (constraints.dangerouslyAllowNonLoopbackProxy.getD true) = .ok ()
  allUnixSockets : requireDisabled
    "network.dangerously_allow_all_unix_sockets"
    config.dangerouslyAllowAllUnixSockets
    (constraints.dangerouslyAllowAllUnixSockets.getD constraints.allowUnixSockets.isNone) = .ok ()
  localBinding : requireDisabled "network.allow_local_binding"
    config.allowLocalBinding
    (constraints.allowLocalBinding.getD true) = .ok ()
  allowlist : validateManagedAllowlist P.url constraints
    (config.allowedDomains.getD []) (config.deniedDomains.getD []) = .ok ()
  denylist : validateManagedDenylist constraints (config.deniedDomains.getD []) = .ok ()
  unixSockets : validateManagedUnixSockets constraints config.allowUnixSockets = .ok ()

theorem bind_eq_ok_iff {ε α β : Type} {first : Except ε α} {next : α → Except ε β} {result : β} :
    (first >>= next) = .ok result ↔ ∃ value, first = .ok value ∧ next value = .ok result := by
  cases first with
  | error error | ok value => simp [bind, Except.bind]

theorem mapError_eq_ok_iff {ε δ α : Type} {wrap : ε → δ} {result : Except ε α} {value : α} :
    result.mapError wrap = .ok value ↔ result = .ok value := by
  cases result with
  | error error | ok value => simp [Except.mapError]

theorem validatePolicyAgainstConstraints_eq_ok_iff {config : NetworkProxyConfig P.Hook}
    {constraints : NetworkProxyConstraints} :
    validatePolicyAgainstConstraints config constraints = .ok () ↔
      MeetsConstraints config constraints := by
  simp only [validatePolicyAgainstConstraints, bind_eq_ok_iff, mapError_eq_ok_iff]
  constructor
  · rintro ⟨_, hooks, _, deniedScoped, _, enabled, _, mode, _, upstream, _,
      loopback, _, allUnixSockets, _, localBinding, _, allowlist, _, denylist,
      unixSockets⟩
    exact ⟨hooks, deniedScoped, enabled, mode, upstream, loopback,
      allUnixSockets, localBinding, allowlist, denylist, unixSockets⟩
  · intro hmeets
    exact ⟨(), hmeets.hooks, (), hmeets.deniedScoped, (), hmeets.enabled, (),
      hmeets.mode, (), hmeets.upstream, (), hmeets.loopback, (),
      hmeets.allUnixSockets, (), hmeets.localBinding, (), hmeets.allowlist,
      (), hmeets.denylist, hmeets.unixSockets⟩

end Hexa.NetworkProxy
