/-
Where real credentials go: into the authorization header of a request to a
host that the credential is bound to, in the place of a dummy for it.
-/
import Hexa.NetworkProxy.CredentialBroker

namespace Hexa.NetworkProxy

open List CredentialProvider Option

section Carries

variable (crates : BrokerCrates) (headers : HeaderMap)

/-- The visible text of the authorization header. -/
def authorizationText : Option Text := (headers.get authorization).bind headerValueToStr

/-- A value is the user or the password of basic credentials. -/
def CarriesBasic (encoded value : Text) : Prop :=
  ∃ decoded user password, crates.decodeBase64 encoded = some decoded ∧
    splitAtColon decoded = some (user, password) ∧
    (user = utf8Bytes value ∨ password = utf8Bytes value)

/-- A request carries a value, in the way that a provider looks for it. -/
def Carries (value : Text) : CredentialProvider → Prop
  | .github =>
    ∃ header scheme rest, authorizationText headers = some header ∧
      splitOnce [' '] header = some (scheme, rest) ∧
      ((toAsciiLowercase scheme = "basic".toList ∧ CarriesBasic crates (trim rest) value) ∨
        ((toAsciiLowercase scheme = "bearer".toList ∨ toAsciiLowercase scheme = "token".toList) ∧
          trim rest = value))
  | .openai => ∃ header, authorizationText headers = some header ∧ value <:+: header

variable {crates headers} {dummy real : Text}

theorem headerValueFromStr_isSome {text : Text} :
    (headerValueFromStr crates text).isSome = true ↔
      ∀ char ∈ text, crates.isHeaderChar char = true := by
  rw [headerValueFromStr]
  split_ifs with hall
  · simpa using hall
  · simpa using hall

variable {provider : CredentialProvider}

theorem isVisibleAscii_of_authorizationText {header : Text}
    (hheader : authorizationText headers = some header) :
    ∀ char ∈ header, isVisibleAscii char = true := by
  obtain ⟨value, -, hvalue⟩ := bind_eq_some_iff.mp hheader
  obtain ⟨hall, hsame⟩ := ite_none_right_eq_some.mp hvalue
  obtain rfl := some.inj hsame
  exact all_eq_true.mp hall

theorem translateDecoded_isSome {decoded : Bytes} :
    (translateDecoded decoded dummy real).isSome = true ↔
      ∃ user password, splitAtColon decoded = some (user, password) ∧
        (user = utf8Bytes dummy ∨ password = utf8Bytes dummy) := by
  rw [translateDecoded]
  cases hcolon : splitAtColon decoded with
  | none => simp
  | some parts =>
    obtain ⟨user, password⟩ := parts
    rw [bind_some]
    dsimp only
    split_ifs with huser hpassword
    · simp [huser]
    · simp [hpassword]
    · simp [huser, hpassword]

/-- A translated header is of a request that carries the dummy. -/
theorem carries_of_translate {value : HeaderValue}
    (htranslate : provider.translateRequestHeader crates headers dummy real = some value) :
    Carries crates headers dummy provider := by
  cases provider with
  | github =>
    obtain ⟨header, hheader, htranslate⟩ := bind_eq_some_iff.mp htranslate
    obtain ⟨⟨scheme, rest⟩, hsplit, htranslate⟩ := bind_eq_some_iff.mp htranslate
    refine ⟨header, scheme, rest, hheader, hsplit, ?_⟩
    dsimp only at htranslate
    split_ifs at htranslate with hbasic hbearer
    · refine .inl ⟨hbasic, ?_⟩
      obtain ⟨decoded, hdecoded, htranslate⟩ := bind_eq_some_iff.mp htranslate
      obtain ⟨translated, htranslated, -⟩ := bind_eq_some_iff.mp htranslate
      obtain ⟨user, password, hcolon, hcarries⟩ :=
        translateDecoded_isSome.mp (isSome_of_eq_some htranslated)
      exact ⟨decoded, user, password, hdecoded, hcolon, hcarries⟩
    · exact .inr hbearer
  | openai =>
    rw [translateRequestHeader, translateOpenaiHeader] at htranslate
    split at htranslate
    · rename_i header hfilter
      obtain ⟨hheader, hcontains⟩ := filter_eq_some_iff.mp hfilter
      exact ⟨header, hheader, of_decide_eq_true hcontains⟩
    · exact nomatch htranslate

/-- A scheme that was read before a text that may stand in a header. -/
theorem headerValueFromStr_scheme (hcrates : crates.Documented) {header scheme rest text : Text}
    (hheader : authorizationText headers = some header)
    (hsplit : splitOnce [' '] header = some (scheme, rest))
    (htext : ∀ char ∈ text, crates.isHeaderChar char = true) :
    (headerValueFromStr crates (scheme ++ ' ' :: text)).isSome = true := by
  have hvisible := isVisibleAscii_of_authorizationText hheader
  rw [splitOnce_eq_some hsplit] at hvisible
  rw [headerValueFromStr_isSome, forall_mem_append, forall_mem_cons]
  refine ⟨fun char hmem => hcrates.visible char ?_, hcrates.visible ' ' (by decide), htext⟩
  exact hvisible char (mem_append_left _ (mem_append_left _ hmem))

/-- Where the credential may stand in a header, a dummy that is carried is
translated. -/
theorem translate_of_carries (hcrates : crates.Documented)
    (hreal : (provider.requestHeaderValue crates real).isSome = true)
    (hcarries : Carries crates headers dummy provider) :
    (provider.translateRequestHeader crates headers dummy real).isSome = true := by
  cases provider with
  | github =>
    obtain ⟨header, scheme, rest, hheader, hsplit, hcases⟩ := hcarries
    change ((authorizationText headers).bind _).isSome = true
    rw [hheader]
    change ((splitOnce [' '] header).bind _).isSome = true
    rw [hsplit, bind_some]
    dsimp only
    rcases hcases with ⟨hbasic, hcarries⟩ | ⟨hscheme, hvalue⟩
    · obtain ⟨decoded, user, password, hdecoded, hcolon, hcarries⟩ := hcarries
      obtain ⟨translated, htranslated⟩ := isSome_iff_exists.mp
        ((@translateDecoded_isSome dummy real decoded).mpr ⟨user, password, hcolon, hcarries⟩)
      rw [if_pos hbasic]
      change ((crates.decodeBase64 (trim rest)).bind _).isSome = true
      rw [hdecoded]
      change ((translateDecoded decoded dummy real).bind _).isSome = true
      rw [htranslated]
      refine headerValueFromStr_scheme hcrates hheader hsplit ?_
      exact fun char hmem => hcrates.visible char (hcrates.encoded translated char hmem)
    · have hbasic : toAsciiLowercase scheme ≠ "basic".toList := by
        rcases hscheme with hbearer | htoken
        · rw [hbearer]
          decide
        · rw [htoken]
          decide
      rw [if_neg hbasic, if_pos ⟨hscheme, hvalue⟩]
      refine headerValueFromStr_scheme hcrates hheader hsplit ?_
      exact (forall_mem_append.mp (headerValueFromStr_isSome.mp hreal)).2
  | openai =>
    obtain ⟨header, hheader, hcontains⟩ := hcarries
    have hfilter : (authorizationText headers).filter (fun header =>
        decide (dummy <:+: header)) = some header :=
      filter_eq_some_iff.mpr ⟨hheader, decide_eq_true hcontains⟩
    rw [translateRequestHeader, translateOpenaiHeader, ← authorizationText, hfilter]
    exact hreal

end Carries

namespace CredentialBrokerState

variable {crates : BrokerCrates}

/-- Every credential is one that was issued, and may stand in a header. -/
structure Sound (crates : BrokerCrates) (state : CredentialBrokerState) :
    Prop where
  issued : ∀ credential ∈ state.credentials, credential ∈ state.issued
  header : ∀ credential ∈ state.credentials,
    (credential.provider.requestHeaderValue crates credential.realValue).isSome = true

variable {state next : CredentialBrokerState} {provider : CredentialProvider}
  {hostBinding : CredentialHostBinding} {envVar realValue : Text}

theorem Sound.register (hsound : state.Sound crates) {dummyValue : Text}
    (hreal : (provider.requestHeaderValue crates realValue).isSome = true)
    (hregister : state.register envVar provider hostBinding realValue = some (dummyValue, next)) :
    next.Sound crates := by
  rw [CredentialBrokerState.register] at hregister
  split at hregister
  · obtain rfl := (Prod.mk.inj (some.inj hregister)).2
    exact hsound
  · obtain ⟨drawn, -, hnext⟩ := map_eq_some_iff.mp hregister
    obtain rfl := (Prod.mk.inj hnext).2
    refine ⟨fun credential hmem => ?_, fun credential hmem => ?_⟩
    · rcases mem_append.mp hmem with hold | hnew
      · exact mem_append_left _ (hsound.issued credential hold)
      · exact mem_append_right _ hnew
    · rcases mem_append.mp hmem with hold | hnew
      · exact hsound.header credential hold
      · obtain rfl := mem_singleton.mp hnew
        exact hreal

theorem Sound.of_credentials_subset (hsound : state.Sound crates)
    (hcredentials : next.credentials ⊆ state.credentials) (hissued : next.issued = state.issued) :
    next.Sound crates where
  issued credential hmem := hissued ▸ hsound.issued credential (hcredentials hmem)
  header credential hmem := hsound.header credential (hcredentials hmem)

theorem Sound.configure {Hook : Type} (hsound : state.Sound crates)
    (config : NetworkProxyConfig Hook) : (state.configure config).Sound crates := by
  rw [CredentialBrokerState.configure]
  split_ifs
  · exact hsound.of_credentials_subset (by simp) rfl
  · exact hsound.of_credentials_subset (by simp) rfl
  · exact hsound.of_credentials_subset filter_sublist.subset rfl
  · exact hsound

theorem header_of_brokerable {env : Env}
    (hbrokerable : state.brokerableCredentialValue crates env envVar provider = some realValue) :
    (provider.requestHeaderValue crates realValue).isSome = true := by
  obtain ⟨-, htest⟩ := filter_eq_some_iff.mp hbrokerable
  exact (Bool.and_eq_true_iff.mp htest).2

theorem Sound.discoverEnvVar {parentEnv childEnv : Env} (hsound : state.Sound crates)
    (hdiscover : discoverEnvVar crates parentEnv childEnv provider hostBinding
      state envVar = some next) : next.Sound crates := by
  rw [CredentialBrokerState.discoverEnvVar] at hdiscover
  split at hdiscover
  · obtain rfl := some.inj hdiscover
    exact hsound
  · rename_i realValue hbrokerable
    split_ifs at hdiscover
    · obtain rfl := some.inj hdiscover
      exact hsound
    · obtain ⟨⟨dummyValue, next⟩, hregister, rfl⟩ := map_eq_some_iff.mp hdiscover
      exact hsound.register (header_of_brokerable hbrokerable) hregister
    · obtain rfl := some.inj hdiscover
      exact hsound

theorem Sound.discoverParentCredentials {parentEnv childEnv : Env} (hsound : state.Sound crates)
    (hdiscover : state.discoverParentCredentials crates parentEnv childEnv = some next) :
    next.Sound crates := by
  rw [CredentialBrokerState.discoverParentCredentials] at hdiscover
  split_ifs at hdiscover
  · refine foldlM_keeps ?_ hdiscover hsound
    intro state source next _ hsource hsound
    rw [discoverSource] at hsource
    split at hsource
    · obtain rfl := some.inj hsource
      exact hsound
    · refine foldlM_keeps ?_ hsource hsound
      exact fun _ _ _ _ henvVar hsound => hsound.discoverEnvVar henvVar
  · obtain rfl := some.inj hdiscover
    exact hsound

theorem Sound.realValueOfDummy {env : Env} (hsound : state.Sound crates)
    (hdummy : state.realValueOfDummy env envVar provider hostBinding = some realValue) :
    (provider.requestHeaderValue crates realValue).isSome = true := by
  obtain ⟨dummy, -, hfound⟩ := bind_eq_some_iff.mp hdummy
  obtain ⟨credential, hfind, rfl⟩ := map_eq_some_iff.mp hfound
  have hheader := hsound.header credential (mem_of_find?_eq_some hfind)
  have hprovider : credential.provider = provider := by
    have htest := find?_some hfind
    simp only [Bool.and_eq_true, decide_eq_true_eq] at htest
    exact htest.1.1.1.2
  rwa [hprovider] at hheader

theorem Sound.virtualizeEnvVar {current next : CredentialBrokerState × Env}
    (hsound : current.1.Sound crates)
    (hvirtualize : virtualizeEnvVar crates provider hostBinding current envVar = some next) :
    next.1.Sound crates := by
  rw [CredentialBrokerState.virtualizeEnvVar] at hvirtualize
  split at hvirtualize
  · obtain rfl := some.inj hvirtualize
    exact hsound
  · rename_i realValue hreal
    obtain ⟨⟨dummyValue, registered⟩, hregister, rfl⟩ := map_eq_some_iff.mp hvirtualize
    refine Sound.register hsound ?_ hregister
    rcases or_eq_some_iff.mp hreal with hbrokerable | ⟨-, hdummy⟩
    · exact header_of_brokerable hbrokerable
    · exact Sound.realValueOfDummy hsound hdummy

theorem Sound.virtualizeChildEnv {env after : Env} (hsound : state.Sound crates)
    (hvirtualize : state.virtualizeChildEnv crates env = some (next, after)) :
    next.Sound crates := by
  rw [CredentialBrokerState.virtualizeChildEnv] at hvirtualize
  split_ifs at hvirtualize
  · obtain ⟨last, hfold, hlast⟩ := map_eq_some_iff.mp hvirtualize
    obtain rfl := (Prod.mk.inj hlast).1
    have hregistered : last.1.Sound crates := by
      refine @foldlM_keeps _ _ (fun current => current.1.Sound crates) _ _ ?_ _ _ hfold hsound
      rintro current source next - hsource hcurrent
      rw [virtualizeSource] at hsource
      split at hsource
      · obtain rfl := some.inj hsource
        exact hcurrent
      · refine
          @foldlM_keeps _ _ (fun current => current.1.Sound crates) _ _ ?_ _ _ hsource hcurrent
        exact fun _ _ _ _ henvVar hcurrent => hcurrent.virtualizeEnvVar henvVar
    exact hregistered.of_credentials_subset (List.Subset.refl _) rfl
  · obtain rfl := (Prod.mk.inj (some.inj hvirtualize)).1
    exact hsound

theorem Sound.perform {Hook : Type} {call : BrokerCall Hook} (hsound : state.Sound crates)
    (hperform : state.perform crates call = some next) : next.Sound crates := by
  cases call with
  | configure config =>
    obtain rfl := some.inj hperform
    exact hsound.configure config
  | discoverParentCredentials parentEnv childEnv =>
    exact hsound.discoverParentCredentials hperform
  | virtualizeChildEnv env =>
    obtain ⟨⟨next, after⟩, hvirtualize, rfl⟩ := map_eq_some_iff.mp hperform
    exact hsound.virtualizeChildEnv hvirtualize
  | injectRequestHeaders host headers =>
    obtain rfl := some.inj hperform
    exact hsound

section Select

variable {headers : HeaderMap} {host : Text} {credentials : List CredentialRecord}
  {credential : CredentialRecord}

theorem translatedMatch_eq_some {matched : CredentialRecord × HeaderValue}
    (hmatch : translatedMatch crates headers host credentials credential = some matched) :
    matched.1 = credential ∧ ∃ candidate ∈ credentials,
      candidate.provider = credential.provider ∧
      candidate.realValue = credential.realValue ∧
      candidate.matchesHost host = true ∧
      credential.provider.translateRequestHeader crates headers
        candidate.dummyValue credential.realValue = some matched.2 := by
  obtain ⟨value, hvalue, rfl⟩ := map_eq_some_iff.mp hmatch
  obtain ⟨candidate, hmem, htranslate⟩ := exists_of_findSome?_eq_some hvalue
  obtain ⟨hmem, htest⟩ := mem_filter.mp hmem
  simp only [Bool.and_eq_true, decide_eq_true_eq] at htest
  exact ⟨rfl, candidate, hmem, htest.1.1, htest.1.2, htest.2, htranslate⟩

/-- A credential whose own dummy is translated is among the matches. -/
theorem translatedMatch_isSome (hmem : credential ∈ credentials)
    (hhost : credential.matchesHost host = true)
    (htranslate : (credential.provider.translateRequestHeader crates headers
      credential.dummyValue credential.realValue).isSome = true) :
    ∃ value, translatedMatch crates headers host credentials credential =
      some (credential, value) := by
  have hfound : ((credentials.filter (fun candidate =>
      candidate.provider = credential.provider &&
        candidate.realValue = credential.realValue &&
        candidate.matchesHost host)).findSome? (fun candidate =>
      credential.provider.translateRequestHeader crates headers
        candidate.dummyValue credential.realValue)).isSome = true :=
    findSome?_isSome_iff.mpr ⟨credential, mem_filter.mpr ⟨hmem, by simp [hhost]⟩, htranslate⟩
  obtain ⟨value, hvalue⟩ := isSome_iff_exists.mp hfound
  exact ⟨value, by rw [translatedMatch, hvalue]; rfl⟩

variable {selected : CredentialRecord × HeaderValue}

/-- The selected credential is one of the matches, and all matches are for its
provider and its real value. -/
theorem selectCredential_eq_some
    (hselect : selectCredential crates headers host credentials = some selected) :
    (∃ credential ∈ credentials, credential.matchesHost host = true ∧
      translatedMatch crates headers host credentials credential = some selected) ∧
    ∀ credential ∈ credentials, credential.matchesHost host = true →
      ∀ matched, translatedMatch crates headers host credentials credential = some matched →
      matched.1.provider = selected.1.provider ∧ matched.1.realValue = selected.1.realValue := by
  rw [selectCredential] at hselect
  split at hselect
  · exact nomatch hselect
  · rename_i first others hmatches
    obtain ⟨hall, hfirst⟩ := ite_none_right_eq_some.mp hselect
    obtain rfl := some.inj hfirst
    have hmem : ∀ matched, matched ∈ first :: others ↔
        ∃ credential ∈ credentials, credential.matchesHost host = true ∧
          translatedMatch crates headers host credentials credential = some matched := by
      intro matched
      rw [← hmatches, mem_filterMap]
      simp only [mem_filter, and_assoc]
    refine ⟨(hmem first).mp mem_cons_self, ?_⟩
    intro credential hcredential hhost matched hmatched
    rcases mem_cons.mp ((hmem matched).mpr
      ⟨credential, hcredential, hhost, hmatched⟩) with rfl | hother
    · exact ⟨rfl, rfl⟩
    · simpa using all_eq_true.mp hall matched hother

/-- Where a credential is selected, every dummy that is carried to the host is
for its provider and its real value. -/
theorem selected_of_carries (hcrates : crates.Documented)
    (hselect : selectCredential crates headers host credentials = some selected)
    (hmem : credential ∈ credentials)
    (hheader : (credential.provider.requestHeaderValue crates credential.realValue).isSome = true)
    (hhost : credential.matchesHost host = true)
    (hcarries : Carries crates headers credential.dummyValue credential.provider) :
    (credential.provider, credential.realValue) =
      (selected.1.provider, selected.1.realValue) := by
  obtain ⟨value, hmatch⟩ := translatedMatch_isSome hmem hhost
    (translate_of_carries hcrates hheader hcarries)
  obtain ⟨hprovider, hreal⟩ := (selectCredential_eq_some hselect).2 credential hmem hhost _ hmatch
  exact Prod.ext hprovider hreal

end Select

/-- A request is given a real credential only in the place of a dummy that was
issued for it under a binding to the host; no other header changes; and where
dummies for different credentials are carried, the request stays as it is. -/
theorem injected_only_for_bound_host {Hook : Type}
    (hcrates : crates.Documented) {enabled : Bool} {draws : List (List Nat)}
    {calls : List (BrokerCall Hook)} {state : CredentialBrokerState}
    (hrun : performAll (CredentialBrokerState.perform crates)
      (.new enabled draws) calls = some state)
    (host : Text) (headers : HeaderMap) :
    (state.injectRequestHeaders crates host headers = headers ∨ ∃ credential ∈ state.issued,
        credential.hostBinding.matchesHost (normalizeHost host) = true ∧
        Carries crates headers credential.dummyValue credential.provider ∧
        ∃ value, credential.provider.translateRequestHeader crates headers
            credential.dummyValue credential.realValue = some value ∧
          state.injectRequestHeaders crates host headers = headers.insert authorization value) ∧
    (∀ name, name ≠ authorization →
      (state.injectRequestHeaders crates host headers).getAll name = headers.getAll name) ∧
    (∀ first ∈ state.credentials, ∀ second ∈ state.credentials,
      first.matchesHost (normalizeHost host) = true →
      second.matchesHost (normalizeHost host) = true →
      Carries crates headers first.dummyValue first.provider →
      Carries crates headers second.dummyValue second.provider →
      (first.provider, first.realValue) ≠ (second.provider, second.realValue) →
      state.injectRequestHeaders crates host headers = headers) := by
  have hsound : state.Sound crates := by
    refine Run.invariant ?_ (Run.of_performAll hrun) ?_
    · exact fun first call second hstep hfirst => hfirst.perform hstep
    · exact ⟨nofun, nofun⟩
  rw [injectRequestHeaders]
  split_ifs with henabled
  · cases hselect : selectCredential crates headers (normalizeHost host) state.credentials with
    | none => exact ⟨.inl rfl, fun _ _ => rfl, fun _ _ _ _ _ _ _ _ _ => rfl⟩
    | some selected =>
      obtain ⟨⟨credential, hmem, hhost, hmatch⟩, hsame⟩ := selectCredential_eq_some hselect
      obtain ⟨rfl, candidate, hcandidate, hprovider, hreal, hbound,
        htranslate⟩ := translatedMatch_eq_some hmatch
      have hinsert : ∀ provider : CredentialProvider,
          provider.insertRequestHeader headers selected.2 =
            headers.insert authorization selected.2 := by
        rintro (_ | _) <;> rfl
      dsimp only
      rw [hinsert]
      refine ⟨.inr ⟨candidate, hsound.issued candidate hcandidate, hbound,
        ?_, selected.2, ?_, rfl⟩, fun name hname => ?_, ?_⟩
      · rw [← hprovider] at htranslate
        exact carries_of_translate htranslate
      · rw [hprovider, hreal, htranslate]
      · exact HeaderMap.getAll_insert_of_ne hname _ _
      · intro first hfirst second hsecond hfirstHost hsecondHost hcarriesFirst
          hcarriesSecond hdiffer
        have hfirstSame := selected_of_carries hcrates hselect hfirst
          (hsound.header first hfirst) hfirstHost hcarriesFirst
        have hsecondSame := selected_of_carries hcrates hselect hsecond
          (hsound.header second hsecond) hsecondHost hcarriesSecond
        exact absurd (hfirstSame.trans hsecondSame.symm) hdiffer
  · exact ⟨.inl rfl, fun _ _ => rfl, fun _ _ _ _ _ _ _ _ _ => rfl⟩

end CredentialBrokerState

def tokenRecord : CredentialRecord where
  envVar := "GH_TOKEN".toList
  provider := .github
  hostBinding := .hostPattern githubCloudHosts githubCloudHostSuffixes
  realValue := "ghp_real".toList
  dummyValue := "ghp_".toList ++ List.replicate 36 'A'

/-- A broker that has given a dummy for one token to a child. -/
def tokenState : CredentialBrokerState where
  enabled := true
  credentials := [tokenRecord]
  draws := []
  issued := [tokenRecord]

def tokenEnv : Env := (∅ : Env).insert "GH_TOKEN".toList "ghp_real".toList

theorem injected_only_for_bound_host_token :
    tokenState.injectRequestHeaders visibleCrates "GitHub.com:443".toList
        [(authorization, "Bearer ".toList ++ tokenRecord.dummyValue)] =
      [(authorization, "Bearer ghp_real".toList)] ∧
    ∃ credential ∈ tokenState.issued,
      credential.hostBinding.matchesHost "github.com".toList = true ∧
      Carries visibleCrates
        [(authorization, "Bearer ".toList ++ tokenRecord.dummyValue)]
        credential.dummyValue credential.provider := by
  have hrun : performAll (CredentialBrokerState.perform visibleCrates)
      (.new true [[]])
      ([.virtualizeChildEnv tokenEnv] : List (BrokerCall Unit)) = some tokenState := by
    decide +kernel
  refine ⟨by decide +kernel, ?_⟩
  rcases (CredentialBrokerState.injected_only_for_bound_host
    visibleCrates_documented hrun "GitHub.com:443".toList
    [(authorization, "Bearer ".toList ++ tokenRecord.dummyValue)]).1 with
    hsame | ⟨credential, hissued, hhost, hcarries, -⟩
  · exact absurd hsame (by decide +kernel)
  · exact ⟨credential, hissued, hhost, hcarries⟩

end Hexa.NetworkProxy
