/-
The hosts of network rules: which of them a second normalisation, as the
parser makes it of a rule that was appended to a rules file, leaves alone, and
so when a rule in memory and the rule in the file are for the same host.
-/
import Hexa.ExecPolicy.PrefixRules

namespace Hexa.ExecPolicy

open List

def isPort (port : Text) : Bool := !port.isEmpty && port.all Char.isDigit

/-- A host in brackets, which `stripped` follows the first of. -/
def bracketedHost (raw stripped : Text) : Except RuleError Text :=
  match splitOnce [']'] stripped with
  | none => .error (.invalidRule "network_rule host has an invalid bracketed IPv6 literal")
  | some (inside, rest) =>
    if rest ≠ [] ∧ ¬ (stripPrefix [':'] rest).any isPort then
      .error (.invalidRule
        ("network_rule host contains an unsupported suffix: " ++ String.ofList raw))
    else .ok inside

/-- The host without a port; the last colon is the only one. -/
def withoutPort (host : Text) : Text :=
  match splitOnce [':'] host with
  | some (candidate, port) =>
    if host.count ':' = 1 ∧ candidate ≠ [] ∧ isPort port then candidate
    else host
  | none => host

def hostBody (raw host : Text) : Except RuleError Text :=
  match stripPrefix ['['] host with
  | some stripped => bracketedHost raw stripped
  | none => .ok (withoutPort host)

/-- The last steps, from the place where the host has been found. -/
def normalizedBody (body : Text) : Except RuleError Text :=
  let normalized := toAsciiLowercase (trim (trimEndMatches '.' body))
  if normalized = [] then .error (.invalidRule "network_rule host cannot be empty")
  else if '*' ∈ normalized then
    .error (.invalidRule ("network_rule host must be a specific host; " ++
      "wildcards are not allowed"))
  else if normalized.any isWhiteSpace then
    .error (.invalidRule "network_rule host cannot contain whitespace")
  else .ok normalized

/-- A scheme is refused for the slashes behind it. -/
def normalizeNetworkRuleHost (raw : Text) : Except RuleError Text :=
  let host := trim raw
  if host = [] then .error (.invalidRule "network_rule host cannot be empty")
  else if '/' ∈ host ∨ '?' ∈ host ∨ '#' ∈ host then
    .error (.invalidRule ("network_rule host must be a hostname or IP " ++
      "literal (without scheme or path)"))
  else hostBody raw host >>= normalizedBody

section Rules

universe u

variable {Path : Type u}

def NetworkRuleProtocol.asPolicyString : NetworkRuleProtocol → Text
  | .http => "http".toList
  | .https => "https".toList
  | .socks5Tcp => "socks5_tcp".toList
  | .socks5Udp => "socks5_udp".toList

def NetworkRuleProtocol.parse (raw : Text) : Except RuleError NetworkRuleProtocol :=
  if raw = "http".toList then .ok .http
  else if raw ∈ ["https".toList, "https_connect".toList, "http-connect".toList] then .ok .https
  else if raw = "socks5_tcp".toList then .ok .socks5Tcp
  else if raw = "socks5_udp".toList then .ok .socks5Udp
  else .error (.invalidRule ("network_rule protocol must be one of http, https, socks5_tcp, " ++
    "socks5_udp (got " ++ String.ofList raw ++ ")"))

def parseNetworkRuleDecision (raw : Text) : Except RuleError Decision :=
  if raw = "deny".toList then .ok .forbidden
  else
    match Decision.parse raw with
    | some decision => .ok decision
    | none => .error (.invalidDecision (String.ofList raw))

/-- The check that all three ways to a network rule make. -/
def checkJustification (justification : Option Text) : Except RuleError Unit :=
  if justification.any (fun raw => trim raw = []) then
    .error (.invalidRule "justification cannot be empty")
  else .ok ()

/-- The rule that `add_network_rule` stores. -/
def storedNetworkRule (host : Text) (protocol : NetworkRuleProtocol) (decision : Decision)
    (justification : Option Text) : Except RuleError NetworkRule := do
  let host ← normalizeNetworkRuleHost host
  checkJustification justification
  .ok ⟨String.ofList host, protocol, decision, justification.map String.ofList⟩

def Policy.addNetworkRule (policy : Policy Path) (host : Text) (protocol : NetworkRuleProtocol)
    (decision : Decision) (justification : Option Text) : Except RuleError (Policy Path) :=
  (storedNetworkRule host protocol decision justification).map (fun rule =>
    { policy with networkRules := policy.networkRules ++ [rule] })

/-- How a rules file writes the decision of a network rule. -/
def networkDecisionText : Decision → Text
  | .allow => "allow".toList
  | .prompt => "prompt".toList
  | .forbidden => "deny".toList

@[irreducible]
def hostField : Text := "network_rule(host=".toList

@[irreducible]
def protocolField : Text := ", protocol=".toList

@[irreducible]
def networkDecisionField : Text := ", decision=".toList

@[irreducible]
def justificationField : Text := ", justification=".toList

def networkRuleLine (host : Text) (protocol : NetworkRuleProtocol) (decision : Decision)
    (justification : Option Text) : Text :=
  hostField ++ (jsonString host ++ (protocolField ++ (jsonString protocol.asPolicyString ++
    (networkDecisionField ++ (jsonString (networkDecisionText decision) ++
      (match justification with
      | some text => justificationField ++ (jsonString text ++ [')'])
      | none => [')']))))))

/-- `blocking_append_network_rule` on the text of the file. -/
def appendNetworkRule (contents host : Text) (protocol : NetworkRuleProtocol)
    (decision : Decision) (justification : Option Text) : Except RuleError Text := do
  let host ← normalizeNetworkRuleHost host
  checkJustification justification
  .ok (appendLockedLine contents (networkRuleLine host protocol decision justification))

/-- The arguments of `network_rule`. -/
structure NetworkRuleCall where
  host : Text
  protocol : Text
  decision : Text
  justification : Option Text

/-- A whole line of the form that is written. -/
def readNetworkRuleCall (line : Text) : Option NetworkRuleCall := do
  let text ← readLiteral hostField line
  let (host, text) ← readJsonString text
  let text ← readLiteral protocolField text
  let (protocol, text) ← readJsonString text
  let text ← readLiteral networkDecisionField text
  let (decision, text) ← readJsonString text
  if text = [')'] then some ⟨host, protocol, decision, none⟩
  else
    let text ← readLiteral justificationField text
    let (justification, text) ← readJsonString text
    if text = [')'] then some ⟨host, protocol, decision, some justification⟩ else none

/-- `network_rule`, as the parser of a rules file calls it. -/
def networkRule (call : NetworkRuleCall) : Except RuleError NetworkRule := do
  let protocol ← NetworkRuleProtocol.parse call.protocol
  let decision ← parseNetworkRuleDecision call.decision
  checkJustification call.justification
  let host ← normalizeNetworkRuleHost call.host
  .ok ⟨String.ofList host, protocol, decision, call.justification.map String.ofList⟩

end Rules

/-- What a normalised host is made of. -/
structure CleanHost (host : Text) : Prop where
  ne_nil : host ≠ []
  lower : ∀ char ∈ host, char.toLower = char
  visible : ∀ char ∈ host, isWhiteSpace char = false
  star : '*' ∉ host
  path : ¬ ('/' ∈ host ∨ '?' ∈ host ∨ '#' ∈ host)

variable {raw host body core : Text}

/-- A name, a colon and digits, without another colon. -/
def HasPort (text : Text) : Prop :=
  ∃ name port, text = name ++ ':' :: port ∧ name ≠ [] ∧ ':' ∉ name ∧ isPort port = true

theorem isDigit_iff {char : Char} :
    char.isDigit = true ↔ 48 ≤ char.toNat ∧ char.toNat ≤ 57 := by
  simp [Char.isDigit, UInt32.le_iff_toNat_le]

theorem isWhiteSpace_of_isDigit {char : Char} (hdigit : char.isDigit = true) :
    isWhiteSpace char = false := by
  rw [isDigit_iff] at hdigit
  simp [isWhiteSpace]
  omega

theorem toLower_of_toNat_lt {char : Char} (hlow : char.toNat < 65) : char.toLower = char := by
  rw [Char.toLower, dif_neg]
  rintro ⟨hupper, -⟩
  have hupper := UInt32.le_iff_toNat_le.mp hupper
  simp at hupper
  omega

theorem isPort_iff {port : Text} :
    isPort port = true ↔ port ≠ [] ∧ ∀ char ∈ port, char.isDigit = true := by
  simp [isPort]

theorem colon_notMem_of_isPort {port : Text} (hport : isPort port = true) : ':' ∉ port :=
  fun hmem => absurd ((isPort_iff.mp hport).2 _ hmem) (by decide)

theorem withoutPort_of_port {name port : Text} (hname : name ≠ []) (hcolon : ':' ∉ name)
    (hport : isPort port = true) : withoutPort (name ++ ':' :: port) = name := by
  have hcount : (name ++ ':' :: port).count ':' = 1 := by
    simp [count_eq_zero_of_not_mem hcolon,
      count_eq_zero_of_not_mem (colon_notMem_of_isPort hport)]
  rw [withoutPort, splitOnce_char.mpr ⟨rfl, hcolon⟩]
  exact if_pos ⟨hcount, hname, hport⟩

theorem withoutPort_of_not {text : Text} (hnone : ¬HasPort text) : withoutPort text = text := by
  rw [withoutPort]
  split
  next candidate port hsplit =>
    obtain ⟨rfl, hcolon⟩ := splitOnce_char.mp hsplit
    exact if_neg fun ⟨_, hname, hport⟩ => hnone ⟨candidate, port, rfl, hname, hcolon, hport⟩
  · rfl

theorem withoutPort_eq_self_iff {text : Text} : withoutPort text = text ↔ ¬HasPort text := by
  refine ⟨?_, withoutPort_of_not⟩
  rintro hself ⟨name, port, rfl, hname, hcolon, hport⟩
  rw [withoutPort_of_port hname hcolon hport] at hself
  simp at hself

theorem withoutPort_isPrefix (host : Text) : withoutPort host <+: host := by
  rw [withoutPort]
  split
  case h_1 candidate port hsplit =>
    split_ifs
    · exact splitOnce_isPrefix hsplit
    · exact prefix_rfl
  · exact prefix_rfl

theorem bracketedHost_isPrefix (hbody : bracketedHost raw host = .ok body) : body <+: host := by
  rw [bracketedHost] at hbody
  split at hbody
  · cases hbody
  case h_2 inside rest hsplit =>
    split_ifs at hbody
    cases hbody
    exact splitOnce_isPrefix hsplit

theorem hostBody_isInfix (hbody : hostBody raw host = .ok body) : body <:+: host := by
  rw [hostBody] at hbody
  split at hbody
  case h_1 stripped hstripped =>
    rw [stripPrefix_eq_some_iff.mp hstripped]
    exact (bracketedHost_isPrefix hbody).isInfix.trans (suffix_append _ _).isInfix
  case h_2 =>
    cases hbody
    exact (withoutPort_isPrefix host).isInfix

theorem stripPrefix_bracket (hhead : host.head? ≠ some '[') : stripPrefix ['['] host = none := by
  cases hstripped : stripPrefix ['['] host with
  | none => rfl
  | some rest =>
    rw [stripPrefix_eq_some_iff.mp hstripped] at hhead
    exact absurd rfl hhead

theorem hostBody_eq_self_iff :
    hostBody raw host = .ok host ↔ host.head? ≠ some '[' ∧ ¬HasPort host := by
  rw [← withoutPort_eq_self_iff, hostBody]
  by_cases hhead : host.head? = some '['
  · obtain ⟨rest, rfl⟩ := head?_eq_some_iff.mp hhead
    refine ⟨fun hbody => ?_, fun hnot => absurd rfl hnot.1⟩
    have hlength := (bracketedHost_isPrefix hbody).length_le
    exact absurd hlength (by simp)
  · rw [stripPrefix_bracket hhead]
    simp [hhead]

/-- What a successful normalisation has found. -/
theorem normalizeNetworkRuleHost_eq_ok (hok : normalizeNetworkRuleHost raw = .ok host) :
    ¬ ('/' ∈ trim raw ∨ '?' ∈ trim raw ∨ '#' ∈ trim raw) ∧
      ∃ body, hostBody raw (trim raw) = .ok body ∧
        host = toAsciiLowercase (trim (trimEndMatches '.' body)) ∧
        host ≠ [] ∧ '*' ∉ host ∧ ∀ char ∈ host, isWhiteSpace char = false := by
  simp only [normalizeNetworkRuleHost] at hok
  split_ifs at hok with hempty hpath
  cases hbody : hostBody raw (trim raw) with
  | error error =>
    rw [hbody] at hok
    cases hok
  | ok body =>
    rw [hbody] at hok
    change normalizedBody body = _ at hok
    simp only [normalizedBody] at hok
    split_ifs at hok with hnil hstar hspace
    cases hok
    refine ⟨hpath, body, rfl, rfl, hnil, hstar, ?_⟩
    simpa using hspace

theorem CleanHost.of_normalize (hok : normalizeNetworkRuleHost raw = .ok host) :
    CleanHost host := by
  obtain ⟨hpath, body, hbody, rfl, hnil, hstar, hvisible⟩ := normalizeNetworkRuleHost_eq_ok hok
  have hsource : ∀ char ∈ toAsciiLowercase (trim (trimEndMatches '.' body)),
      char.toNat < 97 → char ∈ trim raw := by
    intro char hmem hchar
    exact (hostBody_isInfix hbody).subset (mem_of_mem_trimEndMatches
      (mem_of_mem_trim (mem_of_mem_toAsciiLowercase hmem hchar)))
  refine ⟨hnil, ?_, hvisible, hstar, fun hmem => hpath ?_⟩
  · rw [toAsciiLowercase, forall_mem_map]
    exact fun char _ => toLower_toLower char
  · exact hmem.imp (hsource _ · (by decide))
      (Or.imp (hsource _ · (by decide)) (hsource _ · (by decide)))

/-- The host itself, as it is to be found in what is written. -/
structure PlainHost (core : Text) : Prop where
  ne_nil : core ≠ []
  visible : ∀ char ∈ core, isWhiteSpace char = false
  front : core.head? ≠ some '['
  back : core.getLast? ≠ some '.'
  port : ¬HasPort core

/-- The host with white space and then dots behind it. -/
def Padded (core body : Text) : Prop :=
  ∃ space dots, (∀ char ∈ space, isWhiteSpace char = true) ∧ (∀ char ∈ dots, char = '.') ∧
    body = core ++ space ++ dots

/-- How a host may be written: as it is or in brackets, and with a port. -/
inductive Written (core : Text) : Text → Prop where
  | alone {body : Text} (hbody : Padded core body) : Written core body
  | withPort {body port : Text} (hbody : Padded core body) (hcolon : ':' ∉ body)
      (hport : isPort port = true) : Written core (body ++ ':' :: port)
  | bracketed {lead body suffix : Text} (hlead : ∀ char ∈ lead, isWhiteSpace char = true)
      (hbody : Padded core body) (hclose : ']' ∉ body)
      (hsuffix : suffix = [] ∨ ∃ port, suffix = ':' :: port ∧ isPort port = true) :
      Written core ('[' :: (lead ++ body ++ ']' :: suffix))

theorem trimEndMatches_dots {text dots : Text} (hlast : text.getLast? ≠ some '.')
    (hdots : ∀ char ∈ dots, char = '.') : trimEndMatches '.' (text ++ dots) = text := by
  induction dots using List.reverseRecOn with
  | nil =>
    rw [append_nil, trimEndMatches, rdropWhile_eq_self_iff]
    intro hne hdot
    rw [getLast?_eq_some_getLast hne] at hlast
    exact hlast (congrArg some (beq_iff_eq.mp hdot))
  | append_singleton dots dot ih =>
    have hdot : (dot == '.') = true := beq_iff_eq.mpr (hdots dot (by simp))
    rw [← append_assoc, trimEndMatches, rdropWhile_concat, if_pos hdot]
    exact ih fun char hmem => hdots char (mem_append_left _ hmem)

section

variable (hcore : PlainHost core)
include hcore

theorem PlainHost.trim_padded {lead body : Text} (hlead : ∀ char ∈ lead, isWhiteSpace char = true)
    (hbody : Padded core body) : trim (trimEndMatches '.' (lead ++ body)) = core := by
  obtain ⟨space, dots, hspace, hdots, rfl⟩ := hbody
  have hlast : (lead ++ (core ++ space)).getLast? ≠ some '.' := by
    rcases eq_or_ne space [] with rfl | hne
    · rw [append_nil, getLast?_append_of_ne_nil _ hcore.ne_nil]
      exact hcore.back
    · rw [← append_assoc, getLast?_append_of_ne_nil _ hne]
      intro hdot
      exact absurd (hspace _ (mem_of_getLast? hdot)) (by decide)
  rw [← append_assoc, trimEndMatches_dots hlast hdots]
  obtain ⟨first, rest, hfirst⟩ := exists_cons_of_ne_nil hcore.ne_nil
  have hstart : StartsVisible core := ⟨first, rest, hfirst, hcore.visible _ (by simp [hfirst])⟩
  have hend : EndsVisible core := ⟨_, _, (dropLast_append_getLast hcore.ne_nil).symm,
    hcore.visible _ (getLast_mem _)⟩
  have hdrop : (lead ++ (core ++ space)).dropWhile isWhiteSpace =
      (core ++ space).dropWhile isWhiteSpace := dropWhile_append_of_pos hlead
  rw [trim, hdrop]
  exact trim_append hstart hend hspace

theorem PlainHost.not_hasPort {body : Text} (hbody : Padded core body) : ¬HasPort body := by
  rintro ⟨name, port, heq, hname, hcolon, hport⟩
  obtain ⟨space, dots, hspace, hdots, rfl⟩ := hbody
  obtain ⟨hne, hdigits⟩ := isPort_iff.mp hport
  have hlast : ∃ char, (core ++ space ++ dots).getLast? = some char ∧ char.isDigit = true := by
    refine ⟨port.getLast hne, ?_, hdigits _ (getLast_mem hne)⟩
    rw [heq, getLast?_append_of_ne_nil _ (by simp), getLast?_cons_of_ne_nil hne,
      getLast?_eq_some_getLast hne]
  obtain ⟨char, hchar, hdigit⟩ := hlast
  have hnodots : dots = [] := by
    by_contra hdots_ne
    rw [getLast?_append_of_ne_nil _ hdots_ne] at hchar
    rw [hdots _ (mem_of_getLast? hchar)] at hdigit
    exact absurd hdigit (by decide)
  subst hnodots
  rw [append_nil] at hchar heq
  have hnospace : space = [] := by
    by_contra hspace_ne
    rw [getLast?_append_of_ne_nil _ hspace_ne] at hchar
    exact absurd (hspace _ (mem_of_getLast? hchar)) (by simp [isWhiteSpace_of_isDigit hdigit])
  subst hnospace
  rw [append_nil] at heq
  exact hcore.port ⟨name, port, heq, hname, hcolon, hport⟩

theorem PlainHost.head?_padded {body : Text} (hbody : Padded core body) (suffix : Text) :
    (body ++ suffix).head? ≠ some '[' := by
  obtain ⟨space, dots, -, -, rfl⟩ := hbody
  obtain ⟨first, rest, hfirst⟩ := exists_cons_of_ne_nil hcore.ne_nil
  have hfront := hcore.front
  rw [hfirst] at hfront ⊢
  exact hfront

end

/-- A host that was accepted is left alone by a second normalisation exactly
if there is nothing more to take away. -/
theorem normalizeNetworkRuleHost_again (haccepted : normalizeNetworkRuleHost raw = .ok host) :
    normalizeNetworkRuleHost host = .ok host ↔ PlainHost host := by
  have hclean := CleanHost.of_normalize haccepted
  have htrim := trim_of_visible hclean.visible
  constructor
  · intro hagain
    obtain ⟨-, body, hbody, hhost, -⟩ := normalizeNetworkRuleHost_eq_ok hagain
    rw [htrim] at hbody
    -- Nothing is longer than the host, so no step has taken anything away.
    have hwithin := hostBody_isInfix hbody
    have hdots : trimEndMatches '.' body <+: body := rdropWhile_prefix _ _
    have hlength : host.length ≤ (trimEndMatches '.' body).length := by
      conv => lhs; rw [hhost, toAsciiLowercase, length_map]
      exact (( rdropWhile_prefix _ _).length_le).trans (dropWhile_sublist _).length_le
    obtain rfl := hwithin.eq_of_length
      (hwithin.length_le.antisymm (hlength.trans hdots.length_le))
    have hlast := hdots.eq_of_length (hdots.length_le.antisymm hlength)
    obtain ⟨hhead, hport⟩ := hostBody_eq_self_iff.mp hbody
    refine ⟨hclean.ne_nil, hclean.visible, hhead, fun hdot => ?_, hport⟩
    rw [trimEndMatches, rdropWhile_eq_self_iff] at hlast
    refine hlast hclean.ne_nil ?_
    rw [getLast?_eq_some_getLast hclean.ne_nil] at hdot
    simp [Option.some.inj hdot]
  · intro hplain
    have hbody := (@hostBody_eq_self_iff host host).mpr ⟨hplain.front, hplain.port⟩
    have hdots : trimEndMatches '.' host = host := by
      simpa using @trimEndMatches_dots host [] hplain.back (by simp)
    simp only [normalizeNetworkRuleHost, htrim, if_neg hclean.ne_nil, if_neg hclean.path, hbody]
    change normalizedBody host = _
    simp only [normalizedBody, hdots, htrim, toAsciiLowercase_eq_self_iff.mpr hclean.lower,
      if_neg hclean.ne_nil, if_neg hclean.star]
    rw [if_neg (by simpa using hclean.visible)]

/-- What is found in a written host has the host in it, but for white space and
dots. -/
theorem hostBody_written (hcore : PlainHost core) (hwritten : Written core host) :
    ∃ lead body, hostBody raw host = .ok (lead ++ body) ∧
      (∀ char ∈ lead, isWhiteSpace char = true) ∧ Padded core body := by
  cases hwritten with
  | alone hbody =>
    refine ⟨[], host, ?_, nofun, hbody⟩
    have hhead := hcore.head?_padded hbody []
    rw [append_nil] at hhead
    rw [hostBody, stripPrefix_bracket hhead, nil_append, withoutPort_of_not
      (hcore.not_hasPort hbody)]
  | @withPort body port hbody hcolon hport =>
    refine ⟨[], body, ?_, nofun, hbody⟩
    have hne : body ≠ [] := by
      obtain ⟨space, dots, -, -, rfl⟩ := hbody
      simp [hcore.ne_nil]
    rw [hostBody, stripPrefix_bracket (hcore.head?_padded hbody _), nil_append]
    exact congrArg Except.ok (withoutPort_of_port hne hcolon hport)
  | @bracketed lead body suffix hlead hbody hclose hsuffix =>
    refine ⟨lead, body, ?_, hlead, hbody⟩
    have hstripped : stripPrefix ['['] ('[' :: (lead ++ body ++ ']' :: suffix)) =
        some (lead ++ body ++ ']' :: suffix) := stripPrefix_eq_some_iff.mpr rfl
    have hinside : ']' ∉ lead ++ body := by
      rw [mem_append, not_or]
      exact ⟨fun hmem => absurd (hlead _ hmem) (by decide), hclose⟩
    rw [hostBody, hstripped]
    dsimp only
    rw [bracketedHost, splitOnce_char.mpr ⟨rfl, hinside⟩]
    refine if_neg fun ⟨hne, hport⟩ => hport ?_
    obtain ⟨port, rfl, hdigits⟩ := hsuffix.resolve_left hne
    rw [show stripPrefix [':'] (':' :: port) = some port from stripPrefix_eq_some_iff.mpr rfl]
    exact hdigits

section Lowercase

theorem eq_of_toLower {char other : Char} (hlow : other.toNat < 97)
    (heq : char.toLower = other) : char = other := by
  have hmem : other ∈ toAsciiLowercase [char] := by simp [toAsciiLowercase, heq]
  simpa [eq_comm] using mem_of_mem_toAsciiLowercase hmem hlow

theorem isDigit_toLower (char : Char) : char.toLower.isDigit = char.isDigit := by
  rw [Bool.eq_iff_iff]
  constructor
  · intro hlower
    rwa [← eq_of_toLower (by have := isDigit_iff.mp hlower; omega) rfl] at hlower
  · intro hdigit
    rwa [toLower_of_toNat_lt (by have := isDigit_iff.mp hdigit; omega)]

theorem isPort_toAsciiLowercase (port : Text) : isPort (toAsciiLowercase port) = isPort port := by
  simp [isPort, toAsciiLowercase, isDigit_toLower, all_map, Function.comp_def]

theorem mem_toAsciiLowercase_iff {char : Char} {text : Text} (hlow : char.toNat < 65) :
    char ∈ toAsciiLowercase text ↔ char ∈ text := by
  refine ⟨fun hmem => mem_of_mem_toAsciiLowercase hmem (hlow.trans (by decide)), fun hmem => ?_⟩
  exact mem_map.mpr ⟨char, hmem, toLower_of_toNat_lt hlow⟩

theorem hasPort_toAsciiLowercase : HasPort (toAsciiLowercase core) ↔ HasPort core := by
  constructor
  · rintro ⟨name, port, heq, hname, hcolon, hport⟩
    obtain ⟨front, back, rfl, rfl, hback⟩ := map_eq_append_iff.mp heq
    obtain ⟨char, digits, rfl, hchar, rfl⟩ := map_eq_cons_iff.mp hback
    rw [eq_of_toLower (by decide) hchar]
    exact ⟨front, digits, rfl, fun hnil => hname (by rw [hnil]; rfl),
      fun hmem => hcolon ((mem_toAsciiLowercase_iff (by decide)).mpr hmem),
      (isPort_toAsciiLowercase digits).symm.trans hport⟩
  · rintro ⟨name, port, rfl, hname, hcolon, hport⟩
    refine ⟨toAsciiLowercase name, toAsciiLowercase port, by simp [toAsciiLowercase], ?_,
      fun hmem => hcolon ((mem_toAsciiLowercase_iff (by decide)).mp hmem),
      (isPort_toAsciiLowercase port).trans hport⟩
    simpa [toAsciiLowercase] using hname

theorem isWhiteSpace_toLower (char : Char) : isWhiteSpace char.toLower = isWhiteSpace char := by
  rw [Char.toLower]
  split_ifs with hupper
  · have hlow := UInt32.le_iff_toNat_le.mp hupper.1
    have hhigh := UInt32.le_iff_toNat_le.mp hupper.2
    simp at hlow hhigh
    have hletter : ∀ other : Char, 65 ≤ other.toNat → other.toNat ≤ 122 →
        isWhiteSpace other = false := by
      intro other hge hle
      simp [isWhiteSpace]
      omega
    rw [hletter char hlow (by omega)]
    apply hletter
    · simp
      omega
    · simp
      omega
  · rfl

/-- Lowering the case leaves a character alone that is no letter. -/
theorem toLower_eq_iff {char other : Char} (hlow : other.toNat < 97)
    (hother : other.toLower = other) : char.toLower = other ↔ char = other :=
  ⟨eq_of_toLower hlow, fun heq => heq ▸ hother⟩

theorem plainHost_toAsciiLowercase : PlainHost (toAsciiLowercase core) ↔ PlainHost core := by
  have hfront : (toAsciiLowercase core).head? = some '[' ↔ core.head? = some '[' := by
    simp [toAsciiLowercase, toLower_eq_iff]
  have hback : (toAsciiLowercase core).getLast? = some '.' ↔ core.getLast? = some '.' := by
    simp [toAsciiLowercase, toLower_eq_iff]
  have hvisible : (∀ char ∈ toAsciiLowercase core, isWhiteSpace char = false) ↔
      ∀ char ∈ core, isWhiteSpace char = false := by
    simp [toAsciiLowercase, isWhiteSpace_toLower]
  have hnil : toAsciiLowercase core = [] ↔ core = [] := map_eq_nil_iff
  constructor
  · rintro ⟨hne, hspace, hhead, hlast, hport⟩
    exact ⟨mt hnil.mpr hne, hvisible.mp hspace, mt hfront.mpr hhead, mt hback.mpr hlast,
      mt hasPort_toAsciiLowercase.mpr hport⟩
  · rintro ⟨hne, hspace, hhead, hlast, hport⟩
    exact ⟨mt hnil.mp hne, hvisible.mpr hspace, mt hfront.mp hhead, mt hback.mp hlast,
      mt hasPort_toAsciiLowercase.mp hport⟩

end Lowercase

theorem exists_padding (text : Text) :
    ∃ lead space, (∀ char ∈ lead, isWhiteSpace char = true) ∧
      (∀ char ∈ space, isWhiteSpace char = true) ∧ text = lead ++ (trim text ++ space) := by
  refine ⟨text.takeWhile isWhiteSpace, (text.dropWhile isWhiteSpace).rtakeWhile isWhiteSpace,
    fun _ hmem => mem_takeWhile_imp hmem, fun _ hmem => mem_rtakeWhile_imp hmem, ?_⟩
  rw [trim, rdropWhile_append_rtakeWhile, takeWhile_append_dropWhile]

/-- A trimmed text has no white space in front. -/
theorem lead_eq_nil {text lead rest : Text} (htrim : trim text = lead ++ rest)
    (hlead : ∀ char ∈ lead, isWhiteSpace char = true) : lead = [] := by
  cases lead with
  | nil => rfl
  | cons char lead =>
    have hstart := trim_trim text
    rw [htrim, trim, cons_append, dropWhile_cons_of_pos (hlead char mem_cons_self)] at hstart
    have hlength := congrArg List.length hstart
    have hle := (( rdropWhile_prefix isWhiteSpace _).length_le).trans
      (dropWhile_sublist isWhiteSpace (l := lead ++ rest)).length_le
    rw [hlength, length_cons] at hle
    omega

/-- What was found in a host, with what stood around it. -/
theorem written_of_hostBody (hbody : hostBody raw (trim raw) = .ok body)
    (hcore : trim (trimEndMatches '.' body) = core) :
    Written core (trim raw) := by
  obtain ⟨lead, space, hlead, hspace, htext⟩ := exists_padding (trimEndMatches '.' body)
  have hdots : body = trimEndMatches '.' body ++ body.rtakeWhile (· == '.') :=
    rdropWhile_append_rtakeWhile.symm
  rw [htext, hcore, append_assoc] at hdots
  have hpadded : Padded core (core ++ space ++ body.rtakeWhile (· == '.')) :=
    ⟨space, _, hspace, fun char hmem => by simpa using mem_rtakeWhile_imp hmem, rfl⟩
  generalize core ++ space ++ body.rtakeWhile (· == '.') = padded at hdots hpadded
  subst hdots
  rw [hostBody] at hbody
  split at hbody
  next stripped hstripped =>
    rw [stripPrefix_eq_some_iff.mp hstripped]
    rw [bracketedHost] at hbody
    split at hbody
    · cases hbody
    next inside rest hsplit =>
      obtain ⟨rfl, hclose⟩ := splitOnce_char.mp hsplit
      split_ifs at hbody with hrest
      cases hbody
      refine .bracketed hlead hpadded (fun hmem => hclose (mem_append_right _ hmem)) ?_
      by_contra hsuffix
      rw [not_or] at hsuffix
      refine hrest ⟨hsuffix.1, fun hany => hsuffix.2 ?_⟩
      obtain ⟨port, hport, hdigits⟩ := (Option.any_eq_true ..).mp hany
      exact ⟨port, stripPrefix_eq_some_iff.mp hport, hdigits⟩
  next hstripped =>
    obtain hbody := Except.ok.inj hbody
    by_cases hport : HasPort (trim raw)
    · obtain ⟨name, port, heq, hname, hcolon, hport⟩ := hport
      rw [heq, withoutPort_of_port hname hcolon hport] at hbody
      subst hbody
      have hnil := lead_eq_nil (heq.trans (append_assoc _ _ _)) hlead
      subst hnil
      rw [heq]
      exact .withPort hpadded (by simpa using hcolon) hport
    · rw [withoutPort_of_not hport] at hbody
      have hnil := lead_eq_nil hbody hlead
      subst hnil
      rw [hbody]
      exact .alone hpadded

/-- The host is written so that nothing is left to take away from it. -/
def WrittenPlainly (raw : Text) : Prop := ∃ core, PlainHost core ∧ Written core (trim raw)

theorem plainHost_iff_writtenPlainly (haccepted : normalizeNetworkRuleHost raw = .ok host) :
    PlainHost host ↔ WrittenPlainly raw := by
  obtain ⟨-, body, hbody, rfl, hne, -⟩ := normalizeNetworkRuleHost_eq_ok haccepted
  rw [plainHost_toAsciiLowercase]
  constructor
  · exact fun hplain => ⟨_, hplain, written_of_hostBody hbody rfl⟩
  · rintro ⟨core, hplain, hwritten⟩
    obtain ⟨lead, padded, hfound, hlead, hpadded⟩ := hostBody_written hplain hwritten
    rw [hfound] at hbody
    rw [← Except.ok.inj hbody, hplain.trim_padded hlead hpadded]
    exact hplain

theorem readNetworkRuleCall_networkRuleLine (host : Text) (protocol : NetworkRuleProtocol)
    (decision : Decision) (justification : Option Text) :
    readNetworkRuleCall (networkRuleLine host protocol decision justification) =
      some ⟨host, protocol.asPolicyString, networkDecisionText decision, justification⟩ := by
  cases justification with
  | none =>
    simp only [readNetworkRuleCall, networkRuleLine, readLiteral_append,
      readJsonString_jsonString, Option.bind_eq_bind, Option.bind_some, if_true]
  | some text =>
    have hnot : justificationField ++ (jsonString text ++ [')']) ≠ [')'] := by
      intro heq
      have hlength := congrArg List.length heq
      simp [jsonString] at hlength
      omega
    simp only [readNetworkRuleCall, networkRuleLine, readLiteral_append,
      readJsonString_jsonString, Option.bind_eq_bind, Option.bind_some, if_neg hnot, if_true]

theorem networkRule_written {justification : Option Text} (host : Text)
    (protocol : NetworkRuleProtocol) (decision : Decision)
    (hjustification : checkJustification justification = .ok ()) :
    networkRule ⟨host, protocol.asPolicyString, networkDecisionText decision, justification⟩ =
      (normalizeNetworkRuleHost host).map (fun host =>
        ⟨String.ofList host, protocol, decision, justification.map String.ofList⟩) := by
  have hprotocol : NetworkRuleProtocol.parse protocol.asPolicyString = .ok protocol := by
    cases protocol with
    | http | https | socks5Tcp | socks5Udp => decide
  have hdecision : parseNetworkRuleDecision (networkDecisionText decision) = .ok decision := by
    cases decision with
    | allow | prompt | forbidden => decide +kernel
  simp only [networkRule, hprotocol, hdecision, hjustification]
  cases normalizeNetworkRuleHost host with
  | error error | ok host => rfl

theorem networkRuleLine_wholeLine (host : Text) (protocol : NetworkRuleProtocol)
    (decision : Decision) (justification : Option Text) :
    WholeLine (networkRuleLine host protocol decision justification) := by
  have hfields : '\n' ∉ hostField ∧ '\n' ∉ protocolField ∧ '\n' ∉ networkDecisionField ∧
      '\n' ∉ justificationField := by
    unfold hostField protocolField networkDecisionField justificationField
    decide
  cases justification with
  | none =>
    constructor
    · simp [networkRuleLine, hfields, newline_notMem_jsonString]
    · simp [networkRuleLine, ← append_assoc]
  | some text =>
    constructor
    · simp [networkRuleLine, hfields, newline_notMem_jsonString]
    · simp [networkRuleLine, ← append_assoc]

theorem mem_textLines_appendLockedLine {contents line : Text} (hline : WholeLine line) :
    line ∈ textLines (appendLockedLine contents line) := by
  by_cases hmem : line ∈ textLines contents
  · rwa [appendLockedLine_of_mem hmem]
  · rw [appendLockedLine, if_neg hmem]
    split_ifs with hcontents
    · rw [textLines_append_line (.inr (by simp)) hline.1 hline.2]
      simp
    · have hterminated : Terminated contents := by
        by_contra hnot
        exact hcontents (not_or.mp hnot)
      rw [textLines_append_line hterminated hline.1 hline.2]
      simp

/-- The host of a rule that `add_network_rule` stores is left alone by a second
normalisation, and the line that is appended for the same rule is read back as
that rule, exactly if the host is written so that nothing is left to take away
from it. -/
theorem network_rule_stable_iff {Path : Type*} {policy next : Policy Path} {raw : Text}
    {protocol : NetworkRuleProtocol} {decision : Decision} {justification : Option Text}
    (hadd : policy.addNetworkRule raw protocol decision justification = .ok next)
    (contents : Text) :
    ∃ rule line, next.networkRules = policy.networkRules ++ [rule] ∧
      normalizeNetworkRuleHost raw = .ok rule.host.toList ∧
      appendNetworkRule contents raw protocol decision justification =
        .ok (appendLockedLine contents line) ∧
      line ∈ textLines (appendLockedLine contents line) ∧
      (normalizeNetworkRuleHost rule.host.toList = .ok rule.host.toList ↔ WrittenPlainly raw) ∧
      ((readNetworkRuleCall line).map networkRule = some (.ok rule) ↔ WrittenPlainly raw) := by
  cases hhost : normalizeNetworkRuleHost raw with
  | error error =>
    simp only [Policy.addNetworkRule, storedNetworkRule, hhost] at hadd
    cases hadd
  | ok host =>
    cases hcheck : checkJustification justification with
    | error error =>
      simp only [Policy.addNetworkRule, storedNetworkRule, hhost, hcheck] at hadd
      cases hadd
    | ok checked =>
      simp only [Policy.addNetworkRule, storedNetworkRule, hhost, hcheck] at hadd
      obtain rfl := Except.ok.inj hadd
      have hagain := (normalizeNetworkRuleHost_again hhost).trans
        (plainHost_iff_writtenPlainly hhost)
      refine ⟨_, networkRuleLine host protocol decision justification, rfl, ?_, ?_,
        mem_textLines_appendLockedLine (networkRuleLine_wholeLine ..), ?_, ?_⟩
      · rw [String.toList_ofList]
      · simp only [appendNetworkRule, hhost, hcheck]
        rfl
      · rwa [String.toList_ofList]
      · rw [readNetworkRuleCall_networkRuleLine, Option.map_some,
          networkRule_written _ _ _ hcheck, ← hagain]
        cases normalizeNetworkRuleHost host with
        | error error => simp [Except.map]
        | ok again =>
          simp only [Except.map, Option.some.injEq, Except.ok.injEq, NetworkRule.mk.injEq,
            and_true]
          exact ⟨fun heq => by simpa using congrArg String.toList heq, congrArg _⟩

/-- A host with a dot and a port, for a rule with a reason. -/
theorem network_rule_stable_dot_port :
    ∃ rule : NetworkRule, ∃ line, rule.host.toList = ['a'] ∧
      appendNetworkRule [] " A.:80 ".toList .https .allow (some ['b']) =
        .ok (appendLockedLine [] line) ∧
      (readNetworkRuleCall line).map networkRule = some (.ok rule) := by
  have htrim : trim " A.:80 ".toList = ['A', '.'] ++ ':' :: ['8', '0'] := by decide +kernel
  have hplain : WrittenPlainly " A.:80 ".toList := by
    refine ⟨['A'], ⟨by simp, by simp [isWhiteSpace], by simp, by simp, ?_⟩, ?_⟩
    · rintro ⟨name, port, heq, hname, -⟩
      have hlength := congrArg List.length heq
      have hpos := length_pos_iff.mpr hname
      simp only [length_append, length_cons, length_nil] at hlength
      omega
    · rw [htrim]
      exact .withPort ⟨[], ['.'], by simp, by simp, rfl⟩ (by simp) rfl
  have hadd : ({} : Policy Unit).addNetworkRule " A.:80 ".toList .https .allow (some ['b']) =
      .ok { networkRules :=
        [⟨String.ofList ['a'], .https, .allow, some (String.ofList ['b'])⟩] } :=
    rfl
  obtain ⟨rule, line, hrules, -, happend, -, -, hread⟩ := network_rule_stable_iff hadd []
  obtain rfl := singleton_inj.mp hrules
  exact ⟨_, line, rfl, happend, hread.mpr hplain⟩

/-- The port in the brackets is taken away when the rule is read back. -/
theorem bracketed_port_read_back :
    normalizeNetworkRuleHost "[a:80]".toList = .ok "a:80".toList ∧
      normalizeNetworkRuleHost "a:80".toList = .ok "a".toList ∧
      (∃ rule, ({} : Policy Unit).addNetworkRule "[a:80]".toList .https .allow none =
          .ok { networkRules := [rule] } ∧ rule.host = String.ofList "a:80".toList) ∧
      ∃ rule, (readNetworkRuleCall (networkRuleLine "a:80".toList .https .allow none)).map
          networkRule = some (.ok rule) ∧ rule.host = String.ofList ['a'] := by
  refine ⟨by decide, by decide, ⟨_, rfl, rfl⟩, ?_⟩
  rw [readNetworkRuleCall_networkRuleLine, Option.map_some, networkRule_written _ _ _ rfl]
  exact ⟨_, rfl, rfl⟩

end Hexa.ExecPolicy
