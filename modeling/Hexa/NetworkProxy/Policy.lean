/-
Host and domain patterns of the network proxy.  Enforcement normalises a
pattern and expands it to globs; the check against managed constraints parses
the same text on a path of its own.
-/
import Hexa.Lib.IpAddr

namespace Hexa.NetworkProxy

open IpAddr

/-- An address with a scope after the delimiter. -/
def scopedIpLiteral (delimiter host : Text) : Option Text :=
  (splitOnce delimiter host).bind (fun parts =>
    if isIpAddr parts.1 then some (parts.1 ++ '%' :: parts.2) else none)

variable (host : Text)

def normalizeIpLiteral : Option Text :=
  if isIpAddr host then some host
  else (scopedIpLiteral ['%', '2', '5'] host).or (scopedIpLiteral ['%'] host)

def normalizeDnsHostOrIpLiteral : Text :=
  let host := trimEndMatches '.' (toAsciiLowercase host)
  (normalizeIpLiteral host).getD host

/-- Trim whitespace, strip a port or brackets, lower the case. -/
def normalizeHost : Text :=
  let host := trim host
  match host with
  | '[' :: rest =>
    if ']' ∈ rest then normalizeDnsHostOrIpLiteral (rest.takeWhile (· ≠ ']'))
    else if host.count ':' = 1 then normalizeDnsHostOrIpLiteral (host.takeWhile (· ≠ ':'))
    else normalizeDnsHostOrIpLiteral host
  | _ =>
    if host.count ':' = 1 then normalizeDnsHostOrIpLiteral (host.takeWhile (· ≠ ':'))
    else normalizeDnsHostOrIpLiteral host

/-- The wildcard prefix `**.`, the wildcard prefix `*.`, or none. -/
inductive PatternKind where
  | apexAndSubdomains
  | subdomainsOnly
  | exact
  deriving Repr, DecidableEq

def PatternKind.lead : PatternKind → Text
  | .apexAndSubdomains => ['*', '*', '.']
  | .subdomainsOnly => ['*', '.']
  | .exact => []

variable (pattern : Text)

/-- The wildcard prefix of a pattern and what follows it. -/
def splitWildcard : PatternKind × Text :=
  match stripPrefix ['*', '*', '.'] pattern with
  | some domain => (.apexAndSubdomains, domain)
  | none =>
    match stripPrefix ['*', '.'] pattern with
    | some domain => (.subdomainsOnly, domain)
    | none => (.exact, pattern)

def normalizePattern : Text :=
  let pattern := trim pattern
  if pattern = ['*'] then ['*']
  else
    let parts := splitWildcard pattern
    parts.1.lead ++ normalizeHost parts.2

/-- `DomainPattern`: a kind and the domain it applies to. -/
structure DomainPattern where
  kind : PatternKind
  domain : Text
  deriving Repr, DecidableEq

namespace DomainPattern

/-- `DomainPattern::parse`.  A wildcard without a domain is the empty exact
pattern. -/
def parse (input : Text) : DomainPattern :=
  let parts := splitWildcard (trim input)
  match parts.1 with
  | .exact => ⟨.exact, parts.2⟩
  | kind => if trim parts.2 = [] then ⟨.exact, []⟩ else ⟨kind, trim parts.2⟩

end DomainPattern

/-- `expand_domain_pattern`: the globs that a pattern stands for. -/
def expandDomainPattern : List Text :=
  let parsed := DomainPattern.parse pattern
  match parsed.kind with
  | .exact => [parsed.domain]
  | .subdomainsOnly => ['?' :: '*' :: '.' :: parsed.domain]
  | .apexAndSubdomains => [parsed.domain, '?' :: '*' :: '.' :: parsed.domain]

def isGlobalWildcardDomainPattern : Bool :=
  (expandDomainPattern (normalizePattern pattern)).any (· == ['*'])

/-- The `url` crate's reading of a host, printed again. -/
structure UrlCrate where
  parseHost : Text → Option Text

/-- `parse_domain_for_constraints`.  A host that does not parse becomes the
empty text; a text with a wildcard or a scope is kept as it is. -/
def parseDomainForConstraints (url : UrlCrate) (domain : Text) : Text :=
  let domain := trimEndMatches '.' (trim domain)
  if domain = [] then []
  else
    let host :=
      if domain.head? = some '[' ∧ domain.getLast? = some ']' then domain.tail.dropLast
      else domain
    if '*' ∈ host ∨ '?' ∈ host ∨ '%' ∈ host then domain
    else (url.parseHost host).getD []

def DomainPattern.parseForConstraints (url : UrlCrate) (input : Text) : DomainPattern :=
  let input := trim input
  if input = [] then ⟨.exact, []⟩
  else
    let parts := splitWildcard input
    ⟨parts.1, parseDomainForConstraints url parts.2⟩

def normalizeDomain (domain : Text) : Text := toAsciiLowercase (trimEndMatches '.' domain)

def domainEq (left right : Text) : Bool := normalizeDomain left == normalizeDomain right

def isSubdomainOrEqual (child parent : Text) : Bool :=
  normalizeDomain child == normalizeDomain parent ||
    ('.' :: normalizeDomain parent).isSuffixOf (normalizeDomain child)

def isStrictSubdomain (child parent : Text) : Bool :=
  normalizeDomain child != normalizeDomain parent &&
    ('.' :: normalizeDomain parent).isSuffixOf (normalizeDomain child)

/-- `DomainPattern::allows`. -/
def DomainPattern.allows (managed candidate : DomainPattern) : Bool :=
  match managed.kind, candidate.kind with
  | .exact, .exact => domainEq candidate.domain managed.domain
  | .exact, _ => false
  | .subdomainsOnly, .exact => isStrictSubdomain candidate.domain managed.domain
  | .subdomainsOnly, .subdomainsOnly => isSubdomainOrEqual candidate.domain managed.domain
  | .subdomainsOnly, .apexAndSubdomains => isStrictSubdomain candidate.domain managed.domain
  | .apexAndSubdomains, _ => isSubdomainOrEqual candidate.domain managed.domain

/-- The `globset` crate with case-insensitive globs: the matcher of one glob,
and the assembly of valid globs to a set, which can fail with an error text. -/
structure GlobCrate where
  build : Text → Option (Text → Bool)
  assemble : List Text → Except String Unit

/-- A compiled set, kept as its globs. -/
structure GlobSet where
  globs : List Text := []
  deriving Repr, DecidableEq

variable (glob : GlobCrate)

def GlobSet.isMatch (set : GlobSet) (host : Text) : Bool :=
  set.globs.any (fun candidate =>
    match glob.build candidate with
    | some matcher => matcher host
    | none => false)

inductive GlobalWildcard where
  | allow
  | reject
  deriving Repr, DecidableEq

/-- The inner loop of `compile_globset_with_policy` over the expanded globs of
one pattern.  Globs that were added before are skipped. -/
def addCandidates (glob : GlobCrate) :
    List Text → List Text → Except String (List Text)
  | seen, [] => .ok seen
  | seen, candidate :: candidates =>
    if candidate ∈ seen then addCandidates glob seen candidates
    else if (glob.build candidate).isNone then
      .error ("invalid glob pattern: " ++ String.ofList candidate)
    else addCandidates glob (seen ++ [candidate]) candidates

/-- The outer loop of `compile_globset_with_policy`. -/
def addPatterns (glob : GlobCrate) (globalWildcard : GlobalWildcard) :
    List Text → List Text → Except String (List Text)
  | seen, [] => .ok seen
  | seen, pattern :: patterns =>
    if globalWildcard = .reject ∧ isGlobalWildcardDomainPattern pattern then
      .error ("unsupported global wildcard domain pattern \x22*\x22; use " ++
        "exact hosts or scoped wildcards like *.example.com or " ++
        "**.example.com")
    else
      match addCandidates glob seen (expandDomainPattern (normalizePattern pattern)) with
      | .error error => .error error
      | .ok seen => addPatterns glob globalWildcard seen patterns

variable (patterns : List Text)

def compileGlobsetWithPolicy (globalWildcard : GlobalWildcard) : Except String GlobSet :=
  match addPatterns glob globalWildcard [] patterns with
  | .error error => .error error
  | .ok globs =>
    match glob.assemble globs with
    | .error error => .error error
    | .ok () => .ok { globs }

def compileAllowlistGlobset : Except String GlobSet :=
  compileGlobsetWithPolicy glob patterns .allow

def compileDenylistGlobset : Except String GlobSet :=
  compileGlobsetWithPolicy glob patterns .reject

/-- The pattern that enforcement works with. -/
def enforcedPattern (entry : Text) : DomainPattern := DomainPattern.parse (normalizePattern entry)

end Hexa.NetworkProxy
