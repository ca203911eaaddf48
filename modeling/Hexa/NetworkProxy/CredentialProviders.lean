/-
The credential providers of the network proxy: where a provider's credentials
are found, which hosts they are bound to, what a dummy for one looks like, and
how a dummy in a request header is translated.
-/
import Hexa.Lib.KeyedTable
import Hexa.NetworkProxy.Policy

namespace Hexa.NetworkProxy

open List

abbrev Env := KeyedTable Text Text

/-- The parts of a URL that are looked at. -/
structure ParsedUrl where
  scheme : Text
  username : Text
  password : Option Text
  host : Option Text

/-- What is asked of the URL, HTTP and base64 crates. -/
structure BrokerCrates where
  parseUrl : Text → Option ParsedUrl
  /-- The characters that `HeaderValue::from_str` accepts. -/
  isHeaderChar : Char → Bool
  decodeBase64 : Text → Option Bytes
  encodeBase64 : Bytes → Text
  /-- By dummies, what `sort_unstable_by_key` puts first of equal keys. -/
  tieRank : Text → Nat

def isVisibleAscii (char : Char) : Bool := (32 ≤ char.toNat && char.toNat < 127) || char == '\t'

variable (crates : BrokerCrates)

/-- Visible text is accepted in a header, and base64 is visible text. -/
structure BrokerCrates.Documented : Prop where
  visible : ∀ char, isVisibleAscii char = true → crates.isHeaderChar char = true
  encoded : ∀ bytes, ∀ char ∈ crates.encodeBase64 bytes, isVisibleAscii char = true

/-- A value of a header; a byte that is no text is the character of its
code. -/
abbrev HeaderValue := Text

def headerValueFromStr (text : Text) : Option HeaderValue :=
  if text.all crates.isHeaderChar then some text else none

def headerValueToStr (value : HeaderValue) : Option Text :=
  if value.all isVisibleAscii then some value else none

/-- Headers by their names; one name may have several values. -/
abbrev HeaderMap := List (Text × HeaderValue)

namespace HeaderMap

def get (name : Text) (headers : HeaderMap) : Option HeaderValue :=
  (headers.find? (fun header => header.1 = name)).map Prod.snd

/-- All values for a name, in order. -/
def getAll (name : Text) (headers : HeaderMap) : List HeaderValue :=
  (headers.filter (fun header => header.1 = name)).map Prod.snd

/-- The new value takes the place of all values that the name had. -/
def insert (name : Text) (value : HeaderValue) : HeaderMap → HeaderMap
  | [] => [(name, value)]
  | header :: rest =>
    if header.1 = name then (name, value) :: rest.filter (fun header => header.1 ≠ name)
    else header :: insert name value rest

theorem getAll_insert_of_ne {name other : Text} (hne : other ≠ name) (value : HeaderValue)
    (headers : HeaderMap) : getAll other (insert name value headers) = getAll other headers := by
  induction headers with
  | nil => simp [insert, getAll, hne.symm]
  | cons header rest ih =>
    rw [insert]
    split_ifs with hheader
    · rw [getAll, getAll, filter_cons_of_neg (by simpa using hne.symm),
        filter_cons_of_neg (by simpa [hheader] using hne.symm), filter_filter]
      congr 2
      funext header
      by_cases hother : header.1 = other <;> simp [hother, hne]
    · rw [getAll, getAll, filter_cons, filter_cons]
      split_ifs
      · rw [map_cons]
        exact congrArg _ ih
      · exact ih

end HeaderMap

def authorization : Text := "authorization".toList

inductive CredentialHostBinding where
  | exactHost (host : Text)
  | exactHosts (hosts : List Text)
  | hostPattern (exactHosts suffixes : List Text)
  deriving DecidableEq

def CredentialHostBinding.matchesHost (host : Text) :
    CredentialHostBinding → Bool
  | .exactHost expected => decide (host = expected)
  | .exactHosts expected => decide (host ∈ expected)
  | .hostPattern expected suffixes =>
    decide (host ∈ expected) || suffixes.any (fun suffix => suffix.isSuffixOf host)

structure CredentialSource where
  envVars : List Text
  bindingEnvVars : List Text
  hostBinding : BrokerCrates → Env → Option Text → Option CredentialHostBinding

/-- The providers, of which there is one value each. -/
inductive CredentialProvider where
  | github
  | openai
  deriving DecidableEq

def credentialProviders : List CredentialProvider := [.github, .openai]

section

def dummyAlphanumeric : Text :=
  "ABCDEFGHIJKLMNOPQRSTUVWXYZabcdefghijklmnopqrstuvwxyz0123456789".toList

def isAsciiAlphanumeric (byte : UInt8) : Bool :=
  (48 ≤ byte && byte ≤ 57) || (65 ≤ byte && byte ≤ 90) || (97 ≤ byte && byte ≤ 122)

/-- A text of the shape of the real value, with random letters and digits. -/
def shapedDummyValue (realValue lead : Text) (minimumLen : Nat) (random : List Nat) : Text :=
  let bytes := realValue.flatMap String.utf8EncodeChar
  let start := utf8Len lead
  let targetLen := max (max bytes.length minimumLen) (start + 16)
  let randomChar := fun index =>
    dummyAlphanumeric.getD (random.getD index 0 % dummyAlphanumeric.length) 'A'
  lead ++ (range' start (targetLen - start)).map (fun index =>
    match bytes[index]? with
    | some template =>
      if isAsciiAlphanumeric template then randomChar index
      else Char.ofNat template.toNat
    | none => randomChar index)

end

section

def githubCloudHosts : List Text :=
  ["api.github.com".toList, "github.com".toList, "uploads.github.com".toList]

def githubCloudHostSuffixes : List Text := [".ghe.com".toList]

def githubCloudBinding (_ : BrokerCrates) (_ : Env) (_ : Option Text) :
    Option CredentialHostBinding :=
  some (.hostPattern githubCloudHosts githubCloudHostSuffixes)

def githubCloudHost (host : Text) : Bool :=
  decide (host ∈ githubCloudHosts) ||
    githubCloudHostSuffixes.any (fun suffix => suffix.isSuffixOf host)

def githubHostHint (env : Env) : Option Text :=
  ((env.lookup "GH_HOST".toList).map normalizeHost).filter (· ≠ [])

def githubEnterpriseBinding (_ : BrokerCrates) (env : Env) (_ : Option Text) :
    Option CredentialHostBinding :=
  ((githubHostHint env).filter (fun host => !githubCloudHost host)).map
    CredentialHostBinding.exactHost

def githubTokenPrefixes : List Text :=
  ["github_pat_".toList, "ghp_".toList, "gho_".toList, "ghu_".toList,
    "ghs_".toList, "ghr_".toList]

def githubTokenPrefix (value : Text) : Text :=
  (githubTokenPrefixes.find? (fun lead => lead.isPrefixOf value)).getD "ghp_".toList

def utf8Bytes (text : Text) : Bytes := text.flatMap String.utf8EncodeChar

/-- The user and the password of decoded basic credentials. -/
def splitAtColon (decoded : Bytes) : Option (Bytes × Bytes) :=
  if 58 ∈ decoded then some (decoded.takeWhile (· ≠ 58), (decoded.dropWhile (· ≠ 58)).tail)
  else none

/-- A dummy as the user or the password of basic credentials. -/
def translateDecoded (decoded : Bytes) (expectedValue replacementValue : Text) : Option Bytes :=
  (splitAtColon decoded).bind (fun (user, password) =>
    if user = utf8Bytes expectedValue then some (utf8Bytes replacementValue ++ 58 :: password)
    else if password = utf8Bytes expectedValue then
      some (user ++ 58 :: utf8Bytes replacementValue)
    else none)

def translateBasic (scheme value : Text) (expectedValue replacementValue : Text) :
    Option HeaderValue := do
  let decoded ← crates.decodeBase64 value
  let translated ← translateDecoded decoded expectedValue replacementValue
  headerValueFromStr crates (scheme ++ ' ' :: crates.encodeBase64 translated)

def translateGithubHeader (headers : HeaderMap) (expectedValue replacementValue : Text) :
    Option HeaderValue := do
  let header ← (headers.get authorization).bind headerValueToStr
  let (scheme, value) ← splitOnce [' '] header
  let value := trim value
  if toAsciiLowercase scheme = "basic".toList then
    translateBasic crates scheme value expectedValue replacementValue
  else if (toAsciiLowercase scheme = "bearer".toList ∨
      toAsciiLowercase scheme = "token".toList) ∧ value = expectedValue then
    headerValueFromStr crates (scheme ++ ' ' :: replacementValue)
  else none

end

section

def openaiApiHost : Text := "api.openai.com".toList

def trustedCredentialBrokerHost (baseUrl : Text) : Option Text :=
  ((crates.parseUrl baseUrl).filter (fun url =>
    url.scheme = "https".toList && url.username = [] &&
      url.password.isNone)).bind (fun url => url.host.map normalizeHost)

def openaiHostBinding (env : Env) (configuredHost : Option Text) : Option CredentialHostBinding :=
  let named := configuredHost.toList ++ ((env.lookup
    "OPENAI_BASE_URL".toList).bind (trustedCredentialBrokerHost crates)).toList
  let hosts := named.foldl (fun hosts host =>
    if host ∈ hosts then hosts else hosts ++ [host]) [openaiApiHost]
  some (match hosts with
    | [host] => .exactHost host
    | _ => .exactHosts hosts)

def openaiApiKeyPrefix (value : Text) : Text :=
  match (stripPrefix "sk-".toList value).bind (splitOnce ['-']) with
  | some (before, _) => "sk-".toList ++ before ++ ['-']
  | none => "sk-".toList

end

namespace CredentialProvider

def sources : CredentialProvider → List CredentialSource
  | .github =>
    [{ envVars := ["GH_TOKEN".toList, "GITHUB_TOKEN".toList]
       bindingEnvVars := []
       hostBinding := githubCloudBinding },
      { envVars := ["GH_ENTERPRISE_TOKEN".toList, "GITHUB_ENTERPRISE_TOKEN".toList]
        bindingEnvVars := ["GH_HOST".toList]
        hostBinding := githubEnterpriseBinding }]
  | .openai =>
    [{ envVars := ["OPENAI_API_KEY".toList]
       bindingEnvVars := ["OPENAI_BASE_URL".toList]
       hostBinding := openaiHostBinding }]

def resetOnConfigurationChange : CredentialProvider → Bool
  | .github => false
  | .openai => true

def dummyValue (random : List Nat) (realValue : Text) :
    CredentialProvider → Text
  | .github => shapedDummyValue realValue (githubTokenPrefix realValue) 40 random
  | .openai => shapedDummyValue realValue (openaiApiKeyPrefix realValue) 51 random

/-- The value of a header with the credential itself; the providers do not
differ. -/
def requestHeaderValue (value : Text) :
    CredentialProvider → Option HeaderValue
  | .github => headerValueFromStr crates ("Bearer ".toList ++ value)
  | .openai => headerValueFromStr crates ("Bearer ".toList ++ value)

variable (headers : HeaderMap) (expectedValue replacementValue : Text)

def translateOpenaiHeader : Option HeaderValue :=
  match ((headers.get authorization).bind headerValueToStr).filter
      (fun header => decide (expectedValue <:+: header)) with
  | some _ => requestHeaderValue crates replacementValue .openai
  | none => none

def translateRequestHeader :
    CredentialProvider → Option HeaderValue
  | .github => translateGithubHeader crates headers expectedValue replacementValue
  | .openai => translateOpenaiHeader crates headers expectedValue replacementValue

def insertRequestHeader (value : HeaderValue) :
    CredentialProvider → HeaderMap
  | .github => headers.insert authorization value
  | .openai => headers.insert authorization value

end CredentialProvider

/-- Crates that know no URL and no base64. -/
def visibleCrates : BrokerCrates where
  parseUrl _ := none
  isHeaderChar := isVisibleAscii
  decodeBase64 _ := none
  encodeBase64 _ := []
  tieRank _ := 0

theorem visibleCrates_documented : visibleCrates.Documented := ⟨fun _ hvisible => hvisible, nofun⟩

end Hexa.NetworkProxy
