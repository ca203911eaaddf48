/-
The managed allowlist.  Enforcement compiles the globs of the entries, while
the check against managed constraints compares parsed patterns.  What the
check reads as enforcement does is contained in the managed globs; the rest is
contained only if a walk along its globs says so.
-/
import Hexa.Lib.Wildcard
import Hexa.NetworkProxy.Config

namespace Hexa.NetworkProxy

open List DomainPattern

/-- The globs that enforcement compiles for an entry. -/
def globsOf (entry : Text) : List Text := expandDomainPattern (normalizePattern entry)

section

variable {glob : GlobCrate}

theorem mem_addCandidates {seen candidates result : List Text}
    (hadd : addCandidates glob seen candidates = .ok result) (candidate : Text) :
    candidate ∈ result ↔ candidate ∈ seen ∨ candidate ∈ candidates := by
  induction candidates generalizing seen with
  | nil =>
    cases hadd
    simp
  | cons head rest ih =>
    simp only [addCandidates] at hadd
    split_ifs at hadd with hseen hinvalid
    · rw [ih hadd, mem_cons]
      constructor
      · rintro (hmem | hmem)
        · exact Or.inl hmem
        · exact Or.inr (Or.inr hmem)
      · rintro (hmem | rfl | hmem)
        · exact Or.inl hmem
        · exact Or.inl hseen
        · exact Or.inr hmem
    · rw [ih hadd, mem_append, mem_singleton, mem_cons, or_assoc]

theorem mem_addPatterns {globalWildcard : GlobalWildcard} {seen patterns result : List Text}
    (hadd : addPatterns glob globalWildcard seen patterns = .ok result) (candidate : Text) :
    candidate ∈ result ↔ candidate ∈ seen ∨ ∃ entry ∈ patterns, candidate ∈ globsOf entry := by
  induction patterns generalizing seen with
  | nil =>
    cases hadd
    simp
  | cons pattern patterns ih =>
    simp only [addPatterns] at hadd
    split_ifs at hadd with hglobal
    cases hcandidates : addCandidates glob seen
        (expandDomainPattern (normalizePattern pattern)) with
    | error error => simp [hcandidates] at hadd
    | ok added =>
      simp only [hcandidates] at hadd
      rw [ih hadd, mem_addCandidates hcandidates, or_assoc]
      simp [globsOf]

/-- A compiled set has the globs of its patterns. -/
theorem mem_compileGlobsetWithPolicy {globalWildcard : GlobalWildcard} {patterns : List Text}
    {set : GlobSet} (hcompile : compileGlobsetWithPolicy glob patterns globalWildcard = .ok set)
    (candidate : Text) :
    candidate ∈ set.globs ↔ ∃ entry ∈ patterns, candidate ∈ globsOf entry := by
  simp only [compileGlobsetWithPolicy] at hcompile
  cases hpatterns : addPatterns glob globalWildcard [] patterns with
  | error error => simp [hpatterns] at hcompile
  | ok globs =>
    simp only [hpatterns] at hcompile
    cases hassemble : glob.assemble globs with
    | error error => simp [hassemble] at hcompile
    | ok _ =>
      simp only [hassemble, Except.ok.injEq] at hcompile
      subst hcompile
      simpa using mem_addPatterns hpatterns candidate

/-- The glob lets the host through. -/
def GlobMatches (glob : GlobCrate) (candidate host : Text) : Prop :=
  ∃ matcher, glob.build candidate = some matcher ∧ matcher host = true

theorem isMatch_iff {set : GlobSet} {host : Text} :
    set.isMatch glob host = true ↔ ∃ candidate ∈ set.globs, GlobMatches glob candidate host := by
  simp only [GlobSet.isMatch, any_eq_true, GlobMatches]
  constructor
  · rintro ⟨candidate, hmem, hmatch⟩
    cases hbuild : glob.build candidate with
    | none => simp [hbuild] at hmatch
    | some matcher => exact ⟨candidate, hmem, matcher, hbuild, by
        simpa [hbuild] using hmatch⟩
  · rintro ⟨candidate, hmem, matcher, hbuild, hmatch⟩
    exact ⟨candidate, hmem, by simpa [hbuild] using hmatch⟩

/-- A compiled allowlist lets through what a glob of one of its entries does. -/
theorem isMatch_compiled_iff {patterns : List Text} {set : GlobSet} {host : Text}
    (hcompile : compileAllowlistGlobset glob patterns = .ok set) :
    set.isMatch glob host = true ↔ ∃ entry ∈ patterns, ∃ candidate ∈ globsOf entry,
      GlobMatches glob candidate host := by
  rw [isMatch_iff]
  constructor
  · rintro ⟨candidate, hmem, hmatch⟩
    obtain ⟨entry, hentry, hexpanded⟩ := (mem_compileGlobsetWithPolicy hcompile candidate).mp hmem
    exact ⟨entry, hentry, candidate, hexpanded, hmatch⟩
  · rintro ⟨entry, hentry, candidate, hexpanded, hmatch⟩
    refine ⟨candidate, ?_, hmatch⟩
    exact (mem_compileGlobsetWithPolicy hcompile candidate).mpr ⟨entry, hentry, hexpanded⟩

end

/-- The text has none of the characters that can separate the components of a
path. -/
def Unseparated (text : Text) : Prop := ∀ char ∈ text, char ≠ '/' ∧ char ≠ '\x5c'

instance (text : Text) : Decidable (Unseparated text) :=
  List.decidableBAll (fun char => char ≠ '/' ∧ char ≠ '\x5c') text

/-- What `globset` documents about case-insensitive globs: characters other
than its metacharacters are literal, `*` stands for any text and `?` for one
character; and where a complete glob stands in front of another, the two match
one after the other. -/
structure GlobCrate.Lawful (glob : GlobCrate) : Prop where
  plain : ∀ pattern, Plain pattern → glob.build pattern = some (wildcardMatch pattern)
  append : ∀ front back lead, Unseparated (front ++ back) → glob.build front = some lead →
    glob.build (front ++ back) = (glob.build back).map (matchJoined lead)

/-- Every host that the one allowlist lets through, the other does too. -/
def AllowsNoMore (glob : GlobCrate) (managed allowed : GlobSet) : Prop :=
  ∀ host, allowed.isMatch glob host = true → managed.isMatch glob host = true

/-- The check reads the entry as enforcement does. -/
structure ReadAlike (url : UrlCrate) (entry : Text) : Prop where
  kind : (parseForConstraints url entry).kind = (enforcedPattern entry).kind
  domain : normalizeDomain (parseForConstraints url entry).domain = (enforcedPattern entry).domain

/-- What the entry has in front of the domain of the managed one is a glob of
its own, which takes at least one character. -/
def LeadsUp (glob : GlobCrate) (parent entry : Text) : Prop :=
  ∀ front, (enforcedPattern entry).domain = front ++ '.' :: (enforcedPattern parent).domain →
    Unseparated (enforcedPattern entry).domain ∧
      ∃ lead, glob.build front = some lead ∧ lead [] = false

/-- The check reads the entry, or a managed entry that it finds it under, in
another way than enforcement. -/
def Misread (P : Platform) (managed : List Text) (entry : Text) : Prop :=
  ¬ReadAlike P.url entry ∨ ∃ parent ∈ managed,
    (parseForConstraints P.url parent).allows (parseForConstraints P.url entry) = true ∧
      ¬(ReadAlike P.url parent ∧ LeadsUp P.glob parent entry)

theorem alike_of_not_misread {P : Platform} {managed : List Text} {parent entry : Text}
    (hmisread : ¬Misread P managed entry) (hparent : parent ∈ managed)
    (hallows : (parseForConstraints P.url parent).allows
      (parseForConstraints P.url entry) = true) :
    ReadAlike P.url entry ∧ ReadAlike P.url parent ∧ LeadsUp P.glob parent entry := by
  obtain ⟨halike, hnone⟩ := not_or.mp hmisread
  refine ⟨not_not.mp halike, ?_⟩
  by_contra hother
  exact hnone ⟨parent, hparent, hallows, hother⟩

/-- The glob is a managed one, or the walk along it stays within the managed
globs. -/
def GlobCovered (managed : List Text) (candidate : Text) : Prop :=
  candidate ∈ managed.flatMap globsOf ∨ Plain candidate ∧
    wildcardCovers candidate ((managed.flatMap globsOf).filter (Plain ·)) = true

/-- The misread entries of the allowlist stand for covered globs all the
same. -/
def MisreadCovered (P : Platform) (managed allowed : List Text) : Prop :=
  ∀ entry ∈ allowed, Misread P managed entry →
    ∀ candidate ∈ globsOf entry, GlobCovered managed candidate

/-- The entries name domains without classes, alternatives, escapes and
separators. -/
def PlainEntries (entries : List Text) : Prop :=
  ∀ entry ∈ entries, Plain (enforcedPattern entry).domain

instance (entries : List Text) : Decidable (PlainEntries entries) :=
  List.decidableBAll (fun entry => Plain (enforcedPattern entry).domain) entries

variable {entry candidate parent : Text}

theorem mem_globsOf (hmem : candidate ∈ globsOf entry) :
    candidate = (enforcedPattern entry).domain ∨
      candidate = '?' :: '*' :: '.' :: (enforcedPattern entry).domain := by
  simp only [globsOf, expandDomainPattern] at hmem
  split at hmem
  · exact Or.inl (mem_singleton.mp hmem)
  · exact Or.inr (mem_singleton.mp hmem)
  · simpa [enforcedPattern] using hmem

theorem wildcard_mem_globsOf (hkind : (enforcedPattern entry).kind ≠ .exact) :
    '?' :: '*' :: '.' :: (enforcedPattern entry).domain ∈ globsOf entry := by
  simp only [globsOf, expandDomainPattern, enforcedPattern]
  split
  next hexact => exact absurd hexact hkind
  · simp
  · simp

theorem plain_of_mem_globsOf (hplain : Plain (enforcedPattern entry).domain)
    (hmem : candidate ∈ globsOf entry) : Plain candidate := by
  rcases mem_globsOf hmem with rfl | rfl
  · exact hplain
  · simpa [Plain, reservedChars] using hplain

/-- A managed pattern admits what lies below its wildcard, and its own domain
for the kinds of pattern that it includes. -/
theorem allows_cases {managed candidate : DomainPattern}
    (hallows : managed.allows candidate = true) :
    (managed.kind ≠ .exact ∧ '.' :: normalizeDomain managed.domain <:+
      normalizeDomain candidate.domain) ∨
    (normalizeDomain candidate.domain = normalizeDomain managed.domain ∧
      (candidate.kind = managed.kind ∨ managed.kind = .apexAndSubdomains)) := by
  obtain ⟨managedKind, managedDomain⟩ := managed
  obtain ⟨candidateKind, candidateDomain⟩ := candidate
  cases managedKind <;> cases candidateKind <;>
    simp_all [allows, domainEq, isSubdomainOrEqual, isStrictSubdomain, or_comm]

/-- An entry with the domain of the managed one, of a kind that the managed
one includes, stands for managed globs. -/
theorem mem_globsOf_of_same_domain
    (hdomain : (enforcedPattern entry).domain = (enforcedPattern parent).domain)
    (hkind : (enforcedPattern entry).kind = (enforcedPattern parent).kind ∨
      (enforcedPattern parent).kind = .apexAndSubdomains)
    (hmem : candidate ∈ globsOf entry) : candidate ∈ globsOf parent := by
  rcases hkind with hkind | hkind
  · simp only [enforcedPattern] at hdomain hkind
    simpa [globsOf, expandDomainPattern, hdomain, hkind] using hmem
  · have hdomains := mem_globsOf hmem
    rw [hdomain] at hdomains
    simp only [enforcedPattern] at hkind hdomains
    simpa [globsOf, expandDomainPattern, hkind] using hdomains

section

variable {glob : GlobCrate} (hglob : glob.Lawful) {host : Text}
include hglob

theorem globMatches_plain (hplain : Plain candidate) :
    GlobMatches glob candidate host ↔ wildcardMatch candidate host = true := by
  simp [GlobMatches, hglob.plain candidate hplain]

/-- A glob in front of another and the two matches one after the other. -/
theorem globMatches_append {front back : Text} {lead : Text → Bool}
    (hunseparated : Unseparated (front ++ back)) (hfront : glob.build front = some lead) :
    GlobMatches glob (front ++ back) host ↔
      ∃ head rest, host = head ++ rest ∧ lead head = true ∧ GlobMatches glob back rest := by
  rw [GlobMatches, hglob.append front back lead hunseparated hfront]
  constructor
  · rintro ⟨_, hbuild, hmatch⟩
    obtain ⟨tail, htail, rfl⟩ := Option.map_eq_some_iff.mp hbuild
    obtain ⟨head, rest, rfl, hhead, hrest⟩ := matchJoined_iff.mp hmatch
    exact ⟨head, rest, rfl, hhead, tail, htail, hrest⟩
  · rintro ⟨head, rest, rfl, hhead, tail, htail, hrest⟩
    exact ⟨_, Option.map_eq_some_iff.mpr ⟨tail, htail, rfl⟩,
      matchJoined_iff.mpr ⟨head, rest, rfl, hhead, hrest⟩⟩

/-- The wildcard above a domain takes any lead in front of what the domain
takes behind its dot. -/
theorem globMatches_wildcard {domain lead rest : Text} (hunseparated : Unseparated domain)
    (hlead : lead ≠ []) (hrest : GlobMatches glob ('.' :: domain) rest) :
    GlobMatches glob ('?' :: '*' :: '.' :: domain) (lead ++ rest) := by
  have hopening := hglob.plain ['?', '*'] (by decide)
  have hwhole : Unseparated (['?', '*'] ++ '.' :: domain) := by
    simpa [Unseparated] using hunseparated
  refine (globMatches_append hglob hwhole hopening).mpr ⟨lead, rest, rfl, ?_, hrest⟩
  obtain ⟨head, lead, rfl⟩ := exists_cons_of_ne_nil hlead
  exact (wildcardMatch_any _ _).mpr ⟨head, lead, rfl,
    (wildcardMatch_star _ _).mpr ⟨lead, [], by simp, rfl⟩⟩

/-- A glob of an entry that leads up to the domain of a managed wildcard lets
through no more than the wildcard. -/
theorem globMatches_of_leadsUp {front : Text} (hleads : LeadsUp glob parent entry)
    (hfront : (enforcedPattern entry).domain = front ++ '.' :: (enforcedPattern parent).domain)
    (hmem : candidate ∈ globsOf entry) (hmatch : GlobMatches glob candidate host) :
    GlobMatches glob ('?' :: '*' :: '.' :: (enforcedPattern parent).domain) host := by
  obtain ⟨hunseparated, lead, hlead, hempty⟩ := hleads front hfront
  have hparent : Unseparated (enforcedPattern parent).domain := by
    intro char hchar
    exact hunseparated char (by simp [hfront, hchar])
  rcases mem_globsOf hmem with rfl | rfl
  · rw [hfront] at hunseparated hmatch
    obtain ⟨head, rest, rfl, hhead, hrest⟩ :=
      (globMatches_append hglob hunseparated hlead).mp hmatch
    refine globMatches_wildcard hglob hparent ?_ hrest
    rintro rfl
    exact absurd hhead (by simp [hempty])
  · have hopening := hglob.plain ['?', '*', '.'] (by decide)
    have hwhole : Unseparated (['?', '*', '.'] ++ (enforcedPattern entry).domain) := by
      simpa [Unseparated] using hunseparated
    obtain ⟨opening, below, rfl, hopens, hbelow⟩ :=
      (globMatches_append hglob hwhole hopening).mp hmatch
    obtain ⟨first, opening, rfl, -⟩ := (wildcardMatch_any _ _).mp hopens
    rw [hfront] at hunseparated hbelow
    obtain ⟨head, rest, rfl, -, hrest⟩ :=
      (globMatches_append hglob hunseparated hlead).mp hbelow
    rw [← append_assoc]
    exact globMatches_wildcard hglob hparent (by simp) hrest

/-- What the check admits and does not misread lets through no more than the
managed entry. -/
theorem exists_managed_of_allows {url : UrlCrate} (hparent : ReadAlike url parent)
    (hentry : ReadAlike url entry) (hleads : LeadsUp glob parent entry)
    (hallows : (parseForConstraints url parent).allows (parseForConstraints url entry) = true)
    (hmem : candidate ∈ globsOf entry) (hmatch : GlobMatches glob candidate host) :
    ∃ cover ∈ globsOf parent, GlobMatches glob cover host := by
  have hcases := allows_cases hallows
  rw [hparent.kind, hparent.domain, hentry.kind, hentry.domain] at hcases
  rcases hcases with ⟨hkind, front, hfront⟩ | ⟨hdomain, hkind⟩
  · exact ⟨_, wildcard_mem_globsOf hkind,
      globMatches_of_leadsUp hglob hleads hfront.symm hmem hmatch⟩
  · exact ⟨candidate, mem_globsOf_of_same_domain hdomain hkind hmem, hmatch⟩

theorem exists_managed_of_covered {managed : List Text} (hcovered : GlobCovered managed candidate)
    (hmatch : GlobMatches glob candidate host) :
    ∃ parent ∈ managed, ∃ cover ∈ globsOf parent, GlobMatches glob cover host := by
  rcases hcovered with hmem | ⟨hplain, hcovers⟩
  · obtain ⟨parent, hparent, hmem⟩ := mem_flatMap.mp hmem
    exact ⟨parent, hparent, candidate, hmem, hmatch⟩
  · rw [globMatches_plain hglob hplain] at hmatch
    obtain ⟨cover, hcover, hmatch⟩ := exists_match_of_covers hcovers hmatch
    obtain ⟨hmem, hcoverPlain⟩ := mem_filter.mp hcover
    obtain ⟨parent, hparent, hmem⟩ := mem_flatMap.mp hmem
    exact ⟨parent, hparent, cover, hmem,
      (globMatches_plain hglob (of_decide_eq_true hcoverPlain)).mpr hmatch⟩

/-- Over plain entries, every glob that lets through no more than the managed
ones is covered.  No plain glob spells a slash, so that the walk is exact. -/
theorem covered_of_allowsNoMore {managed allowed : List Text} {managedSet allowedSet : GlobSet}
    (hmanaged : compileAllowlistGlobset glob managed = .ok managedSet)
    (hallowed : compileAllowlistGlobset glob allowed = .ok allowedSet)
    (hmanagedPlain : PlainEntries managed) (hallowedPlain : PlainEntries allowed)
    (hnoMore : AllowsNoMore glob managedSet allowedSet) (hentry : entry ∈ allowed)
    (hcandidate : candidate ∈ globsOf entry) : GlobCovered managed candidate := by
  have hplain := plain_of_mem_globsOf (hallowedPlain entry hentry) hcandidate
  have hspares : Spares '/' ((managed.flatMap globsOf).filter (Plain ·)) :=
    spares_slash (fun cover hcover => of_decide_eq_true (mem_filter.mp hcover).2)
  refine Or.inr ⟨hplain, covers_of_contained hspares ?_⟩
  intro host hmatch
  have haccepted : allowedSet.isMatch glob host = true := (isMatch_compiled_iff hallowed).mpr
    ⟨entry, hentry, candidate, hcandidate, (globMatches_plain hglob hplain).mpr hmatch⟩
  obtain ⟨parent, hparent, cover, hcover, hcoverMatch⟩ :=
    (isMatch_compiled_iff hmanaged).mp (hnoMore host haccepted)
  have hcoverPlain := plain_of_mem_globsOf (hmanagedPlain parent hparent) hcover
  refine ⟨cover, mem_filter.mpr ⟨?_, decide_eq_true hcoverPlain⟩, ?_⟩
  · exact mem_flatMap.mpr ⟨parent, hparent, hcover⟩
  · exact (globMatches_plain hglob hcoverPlain).mp hcoverMatch

end

theorem exists_managed_allows {P : Platform} {config : NetworkProxyConfig P.Hook}
    {constraints : NetworkProxyConstraints} {managed : List Text}
    (hvalid : validatePolicyAgainstConstraints config constraints = .ok ())
    (hexpansion : constraints.allowlistExpansionEnabled = none)
    (hmanaged : constraints.allowedDomains = some managed) :
    ∀ entry ∈ config.allowedDomains.getD [], ∃ parent ∈ managed,
      (parseForConstraints P.url parent).allows (parseForConstraints P.url entry) = true := by
  have hallowlist := (validatePolicyAgainstConstraints_eq_ok_iff.mp hvalid).allowlist
  simp only [validateManagedAllowlist, hmanaged, bind_eq_ok_iff, hexpansion,
    validateAllowedDomains] at hallowlist
  obtain ⟨_, -, hallowlist⟩ := hallowlist
  split_ifs at hallowlist with hinvalid
  intro entry hentry
  by_contra hnone
  have hmem : entry ∉ (config.allowedDomains.getD []).filter (fun entry =>
      !(managed.map (parseForConstraints P.url)).any
        (fun pattern => pattern.allows (parseForConstraints P.url entry))) := by
    rw [hinvalid]
    exact not_mem_nil
  apply hmem
  simp only [mem_filter, Bool.not_eq_true', any_map, any_eq_false]
  exact ⟨hentry, fun parent hparent hallows => hnone ⟨parent, hparent, hallows⟩⟩

namespace Witness

/-- Hosts are read in lower case; a colon outside brackets is rejected. -/
def url : UrlCrate where
  parseHost host := if host = [] ∨ ':' ∈ host then none else some (toAsciiLowercase host)

/-- Globs without classes, alternatives and escapes. -/
def glob : GlobCrate where
  build pattern :=
    if Plain pattern then some (wildcardMatch pattern) else none
  assemble _ := .ok ()

def platform : Platform where
  Hook := Empty
  MitmHooks := Unit
  MitmState := Unit
  Outside := Unit
  hookDecidableEq := inferInstance
  url := url
  glob := glob
  unixSocketPathOk path := path.head? = some '/'
  validateHook _ _ := .ok ()
  compileHooks _ _ := .ok ()
  newMitmState _ _ := .ok ()

theorem glob_lawful : glob.Lawful where
  plain pattern hplain := by simp [glob, hplain]
  append front back lead _ hfront := by
    simp only [glob, Option.ite_none_right_eq_some, Option.some.injEq] at hfront ⊢
    obtain ⟨hplain, rfl⟩ := hfront
    by_cases hback : Plain back
    · rw [if_pos (plain_append.mpr ⟨hplain, hback⟩), if_pos hback, wildcardMatch_joined]
      rfl
    · rw [if_neg (fun hwhole => hback (plain_append.mp hwhole).2), if_neg hback]
      rfl

/-- A configuration that allows the entries. -/
def allowing (entries : List String) : NetworkProxyConfig platform.Hook :=
  { domains := some (entries.map (fun entry => ⟨entry.toList, .allow⟩)) }

def managing (entries : List String) : NetworkProxyConstraints :=
  { allowedDomains := some (entries.map String.toList) }

end Witness

end Hexa.NetworkProxy
