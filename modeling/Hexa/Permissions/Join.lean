/-
Joining a relative path to a file URI.  The names of the result are those of
the lexically normalized path, but its convention is read off its spelling
again, and a POSIX path can come to look like a Windows one.
-/
import Hexa.Permissions.MetadataRules

namespace Hexa.Permissions

open List FileUrl PathUri UrlCrates

/-- The components of a path text. -/
def PathConvention.components (convention : PathConvention) (path : Text) : List Text :=
  match convention with
  | .posix => path.splitOn '/'
  | .windows => path.splitOnP isWindowsSeparatorChar

/-- How many of the names of a URL `..` has taken away, and how many names stand
behind the rest. -/
def climbComponent (anchor depth : Nat) (state : Nat × Nat) (component : Text) : Nat × Nat :=
  if component = [] ∨ component = ['.'] then state
  else if component = ['.', '.'] then
    if anchor < depth - state.1 + state.2 then
      if state.2 = 0 then (state.1 + 1, 0) else (state.1, state.2 - 1)
    else state
  else (state.1, state.2 + 1)

/-- The segments of a path with these names and no empty ones between them. -/
def segmentsOf (names : List Bytes) : List Bytes := if names = [] then [[]] else names

/-- The segments without the empty one of the root. -/
def rooted (segments : List Bytes) : List Bytes := if segments = [[]] then [] else segments

theorem segmentsOf_rooted (segments : List Bytes) :
    segmentsOf (rooted segments) = segmentsOf segments := by
  rw [rooted]
  split_ifs with hroot
  · rw [hroot]
    rfl
  · rfl

theorem filter_segmentsOf (segments : List Bytes) :
    (segmentsOf segments).filter (· ≠ []) = segments.filter (· ≠ []) := by
  rw [segmentsOf]
  split_ifs with hempty
  · rw [hempty]
    rfl
  · rfl

theorem filter_rooted (segments : List Bytes) :
    (rooted segments).filter (· ≠ []) = segments.filter (· ≠ []) := by
  rw [← filter_segmentsOf (rooted segments), segmentsOf_rooted, filter_segmentsOf]

theorem dropLast_take_eq (names : List Bytes) {count : Nat} (hcount : count ≤ names.length) :
    (names.take count).dropLast = names.take (count - 1) := by
  rw [dropLast_eq_take, length_take, take_take]
  congr 1
  omega

/-- What is left of the names of a base has the length of what is left of its
segments exactly if no segment that went was empty. -/
theorem not_mem_drop_iff {base : List Bytes} {count : Nat}
    (hcount : count ≤ (base.filter (· ≠ [])).length) :
    [] ∉ base.drop (base.length - count) ↔
      ((base.take (base.length - count)).filter (· ≠ [])).length =
        (base.filter (· ≠ [])).length - count := by
  have hsplit : (base.filter (· ≠ [])).length =
      ((base.take (base.length - count)).filter (· ≠ [])).length +
        ((base.drop (base.length - count)).filter (· ≠ [])).length := by
    rw [← length_append, ← filter_append, take_append_drop]
  have hshort : (base.filter (· ≠ [])).length ≤ base.length := length_filter_le _ _
  have hdropped : (base.drop (base.length - count)).length = count := by
    rw [length_drop]
    omega
  have hall : [] ∉ base.drop (base.length - count) ↔
      ((base.drop (base.length - count)).filter (· ≠ [])).length =
        (base.drop (base.length - count)).length := by
    rw [length_filter_eq_length_iff]
    constructor
    · intro hnone segment hmem
      exact decide_eq_true fun hnil => hnone (hnil ▸ hmem)
    · intro hnames hmem
      exact absurd rfl (of_decide_eq_true (hnames [] hmem))
  rw [hall]
  omega

theorem length_names_normalizedDrive (segments : List Bytes) :
    ((normalizedDrive segments).filter (· ≠ [])).length = (segments.filter (· ≠ [])).length := by
  induction segments with
  | nil => rfl
  | cons segment segments ih =>
    rw [normalizedDrive]
    split_ifs with hempty hdrive
    · simpa [hempty] using ih
    · cases segment with
      | nil => exact absurd rfl hempty
      | cons byte rest => simp [upperDrive]
    · rfl

/-- A drive in upper case stays as it is. -/
theorem normalizedDrive_eq_self_iff (segments : List Bytes) :
    normalizedDrive segments = segments ↔ ∀ name ∈ (segments.filter (· ≠ [])).head?,
      isWindowsDriveUriSegment name = true → upperDrive name = name := by
  induction segments with
  | nil => simp [normalizedDrive]
  | cons segment segments ih =>
    rw [normalizedDrive]
    split_ifs with hempty hdrive
    · simpa [hempty] using ih
    · simp [hempty, hdrive]
    · simp [hempty, hdrive]

theorem components_nil (convention : PathConvention) : convention.components [] = [[]] := by
  cases convention <;> rfl

section Joined

variable [UrlCrates]

/-- One component of a relative path, applied to the names of a path. -/
def lexicalComponent (anchor : Nat) (names : List Bytes) (component : Text) : List Bytes :=
  if component = [] ∨ component = ['.'] then names
  else if component = ['.', '.'] then if anchor < names.length then names.dropLast else names
  else names ++ [encodeSegment (utf8 component)]

/-- The names of a URL and of a path behind its drive, normalized. -/
def FileUrl.lexicalJoin (url : FileUrl) (path : Text) : List Bytes :=
  let anchor := anchorDepth url.convention
  (url.convention.components path).foldl (lexicalComponent anchor)
    (if url.isWindowsRootRelative path then url.names.take anchor
    else url.names)

/-- The number of names of the URL that a path takes away, at most at one time. -/
def FileUrl.climbed (url : FileUrl) (path : Text) : Nat :=
  let anchor := anchorDepth url.convention
  ((url.convention.components path).foldl (climbComponent anchor url.names.length)
    (if url.isWindowsRootRelative path then url.names.length - anchor else 0, 0)).1

/-- None of the segments at the end of a URL that a path takes away is empty. -/
def FileUrl.ClimbsNames (url : FileUrl) (path : Text) : Prop :=
  [] ∉ (popIfEmpty url.segments).drop
    ((popIfEmpty url.segments).length - url.climbed path)

instance (url : FileUrl) (path : Text) : Decidable (url.ClimbsNames path) :=
  inferInstanceAs (Decidable (_ ∉ _))

/-- The result has the authority, the convention and the drive or share of the
URL, and otherwise the normalized names. -/
structure KeepsRoot (url : FileUrl) (path : Text) (result : FileUrl) :
    Prop where
  host : result.host = url.host
  convention : result.convention = url.convention
  root : url.names.take (anchorDepth url.convention) <+: result.names
  names : result.names = url.lexicalJoin path

variable {names : List Bytes} {anchor : Nat} {component : Text}

theorem pop_segmentsOf (names : List Bytes) :
    pop (segmentsOf names) = segmentsOf names.dropLast := by
  rw [pop_eq]
  match names with
  | [] | [_] => rfl
  | first :: second :: rest => rfl

theorem iterate_pop_segmentsOf (names : List Bytes) (count : Nat) :
    pop^[count] (segmentsOf names) = segmentsOf (names.take (names.length - count)) := by
  induction count generalizing names with
  | zero => rw [Nat.sub_zero, take_length]; rfl
  | succ count ih =>
    rw [Function.iterate_succ_apply, pop_segmentsOf, ih, length_dropLast,
      dropLast_eq_take, take_take]
    congr 2
    omega

/-- The segments of a base, the first ones of which have names added behind
them: what the edit has come to, and the lexical path beside it. -/
structure Edited (base names : List Bytes) (edit : List Bytes × Nat) (lexical : List Bytes)
    (climb : Nat × Nat) (added : List Bytes) : Prop where
  segments : edit.1 = segmentsOf (rooted (base.take (base.length - climb.1)) ++ added)
  depth : edit.2 = lexical.length
  lexical : lexical = names.take (names.length - climb.1) ++ added
  climbed : climb.1 ≤ names.length
  above : climb.2 = added.length
  added : [] ∉ added

omit [UrlCrates] in
theorem Edited.filter_segments {base names lexical added : List Bytes} {edit : List Bytes × Nat}
    {climb : Nat × Nat} (hedited : Edited base names edit lexical climb added) :
    edit.1.filter (· ≠ []) =
      (base.take (base.length - climb.1)).filter (· ≠ []) ++ added := by
  rw [hedited.segments, filter_segmentsOf, filter_append, filter_rooted]
  refine congrArg _ (filter_eq_self.mpr fun name hname => ?_)
  exact decide_eq_true fun hnil => hedited.added (hnil ▸ hname)

theorem encodeSegment_component_ne_nil (hcomponent : component ≠ []) :
    encodeSegment (utf8 component) ≠ [] := by
  refine encodeSegment_ne_nil fun hnil => hcomponent ?_
  cases component with
  | nil => rfl
  | cons char rest =>
    rw [utf8, flatMap_cons, append_eq_nil_iff] at hnil
    exact absurd hnil.1 String.utf8EncodeChar_ne_nil

variable {base lexical added : List Bytes} {edit : List Bytes × Nat} {climb : Nat × Nat}

theorem push_segmentsOf (hadded : [] ∉ added) (segments : List Bytes) (component : Text) :
    push (segmentsOf (rooted segments ++ added)) component =
      segmentsOf (rooted segments ++
        (added ++ [encodeSegment (utf8 component)])) := by
  have hfull : ∀ names : List Bytes, segmentsOf (names ++ [encodeSegment (utf8 component)]) =
      names ++ [encodeSegment (utf8 component)] :=
    fun names => if_neg (by simp)
  have hrooted : rooted segments ≠ [[]] := by
    rw [rooted]
    split_ifs with hroot
    · nofun
    · exact hroot
  rw [push_eq, ← append_assoc, hfull]
  cases hpath : rooted segments ++ added with
  | nil => rfl
  | cons first rest =>
    have hnonempty : first :: rest ≠ [[]] := by
      intro hroot
      rw [hroot] at hpath
      rcases append_eq_singleton_iff.mp hpath with ⟨-, hall⟩ | ⟨hall, -⟩
      · exact hadded (hall ▸ mem_singleton_self _)
      · exact hrooted hall
    exact congrArg (· ++ _) (if_neg hnonempty)

theorem Edited.step (hedited : Edited base names edit lexical climb added) (component : Text) :
    ∃ added, Edited base names (relativeComponent anchor edit component)
      (lexicalComponent anchor lexical component)
      (climbComponent anchor names.length climb component) added := by
  obtain ⟨hsegments, hdepth, hlexical, hclimbed, habove, hadded⟩ := hedited
  have hlength : lexical.length = names.length - climb.1 + climb.2 := by
    rw [hlexical, length_append, length_take, habove]
    omega
  rw [relativeComponent, lexicalComponent, climbComponent, ← hlength, hdepth]
  split_ifs with hskip hup hdeep hfirst
  · exact ⟨added, hsegments, hdepth, hlexical, hclimbed, habove, hadded⟩
  · -- a segment of the base goes
    obtain rfl := length_eq_zero_iff.mp (habove.symm.trans hfirst)
    rw [append_nil] at hsegments hlexical
    refine ⟨[], ?_, ?_, ?_, ?_, rfl, not_mem_nil⟩
    · rw [hsegments, segmentsOf_rooted, pop_segmentsOf, append_nil, segmentsOf_rooted,
        dropLast_take_eq _ (Nat.sub_le _ _), Nat.sub_sub]
    · rw [length_dropLast]
    · rw [hlexical, dropLast_take_eq _ (Nat.sub_le _ _), append_nil, Nat.sub_sub]
    · show climb.1 + 1 ≤ names.length
      omega
  · -- a name that was added goes
    obtain ⟨front, last, rfl⟩ : ∃ front last, added = front ++ [last] := by
      refine eq_nil_or_concat' added |>.resolve_left fun hnil => hfirst ?_
      rw [habove, hnil]
      rfl
    refine ⟨front, ?_, ?_, ?_, hclimbed, ?_, fun hmem => hadded (mem_append_left _ hmem)⟩
    · rw [hsegments, pop_segmentsOf, ← append_assoc, dropLast_concat]
    · rw [length_dropLast]
    · rw [hlexical, ← append_assoc, dropLast_concat]
    · show climb.2 - 1 = front.length
      rw [habove, length_append]
      rfl
  · exact ⟨added, hsegments, hdepth, hlexical, hclimbed, habove, hadded⟩
  · refine ⟨added ++ [encodeSegment (utf8 component)], ?_, ?_, ?_, hclimbed, ?_, ?_⟩
    · rw [hsegments, push_segmentsOf hadded]
    · rw [length_append]
      rfl
    · rw [hlexical, append_assoc]
    · rw [length_append, habove]
      rfl
    · rw [mem_append, mem_singleton, not_or]
      exact ⟨hadded, (encodeSegment_component_ne_nil fun hnil => hskip (.inl hnil)).symm⟩

theorem Edited.run (hedited : Edited base names edit lexical climb added) (anchor : Nat)
    (components : List Text) :
    ∃ added, Edited base names (components.foldl (relativeComponent anchor) edit)
      (components.foldl (lexicalComponent anchor) lexical)
      (components.foldl (climbComponent anchor names.length) climb) added := by
  induction components generalizing edit lexical climb added with
  | nil => exact ⟨added, hedited⟩
  | cons component components ih =>
    obtain ⟨next, hnext⟩ := hedited.step component
    exact ih hnext

/-- What lies at the root is not climbed over. -/
theorem foldl_lexicalComponent_root {root : List Bytes} (hshort : root.length ≤ anchor)
    (hroot : root <+: names) (components : List Text) :
    root <+: components.foldl (lexicalComponent anchor) names := by
  induction components generalizing names with
  | nil => exact hroot
  | cons component components ih =>
    apply ih
    rw [lexicalComponent]
    split_ifs with hskip hup hdeep
    · exact hroot
    · exact prefix_of_prefix_length_le hroot ( dropLast_prefix _) (by rw [length_dropLast]; omega)
    · exact hroot
    · exact hroot.trans ( prefix_append _ _)

variable {url : FileUrl} {path : Text}

theorem names_popIfEmpty (url : FileUrl) :
    (popIfEmpty url.segments).filter (· ≠ []) = url.names :=
  filter_popIfEmpty url.segments

theorem popIfEmpty_ne_nil (hsegments : url.segments ≠ []) : popIfEmpty url.segments ≠ [] := by
  rw [popIfEmpty_eq]
  split_ifs with hempty
  · intro hnil
    have hlength := congrArg length hnil
    rw [length_dropLast, length_nil] at hlength
    omega
  · exact hsegments

/-- A relative path edits the segments: some of the last ones go, and names are
added behind the others. -/
theorem joinRelative_eq (hsegments : url.segments ≠ []) (path : Text) :
    ∃ edit climb added, url.joinRelative path = tryFrom url.host edit.1 ∧
      climb.1 = url.climbed path ∧
      Edited (popIfEmpty url.segments) url.names edit (url.lexicalJoin path) climb added := by
  let anchor := anchorDepth url.convention
  -- a path from the root of its drive takes all names but the anchor away first
  let count := if url.isWindowsRootRelative path then url.names.length - anchor else 0
  have hstart : Edited (popIfEmpty url.segments) url.names
      (pop^[count] (popIfEmpty url.segments), url.names.length - count)
      (url.names.take (url.names.length - count)) (count, 0) [] := by
    have hcount : count ≤ url.names.length := by
      simp only [count]
      split <;> omega
    refine ⟨?_, ?_, (append_nil _).symm, hcount, rfl, not_mem_nil⟩
    · rw [append_nil, segmentsOf_rooted, ← iterate_pop_segmentsOf, segmentsOf,
        if_neg (popIfEmpty_ne_nil hsegments)]
    · rw [length_take]
      omega
  obtain ⟨added, hedited⟩ := hstart.run anchor (url.convention.components path)
  have hjoin : url.joinRelative path = tryFrom url.host
      ((url.convention.components path).foldl (relativeComponent anchor)
        (pop^[count] (popIfEmpty url.segments), url.names.length - count)).1 := by
    have hfirst : (if url.isWindowsRootRelative path then
        (pop^[url.names.length - anchor] (popIfEmpty url.segments), min url.names.length anchor)
        else (popIfEmpty url.segments, url.names.length)) =
        (pop^[count] (popIfEmpty url.segments), url.names.length - count) := by
      simp only [count]
      split
      · congr 1
        omega
      · rfl
    rw [← hfirst]
    rfl
  have hlexical : url.lexicalJoin path = (url.convention.components path).foldl
      (lexicalComponent anchor) (url.names.take (url.names.length - count)) := by
    have hfirst : (if url.isWindowsRootRelative path then url.names.take anchor
        else url.names) = url.names.take (url.names.length - count) := by
      simp only [count]
      split
      · rw [take_eq_take_iff]
        omega
      · rw [Nat.sub_zero, take_length]
    rw [← hfirst]
    rfl
  refine ⟨_, _, added, hjoin, rfl, ?_⟩
  rw [hlexical]
  exact hedited

section

variable {climb : Nat × Nat} {edit : List Bytes × Nat} {added : List Bytes}
  (hedited : Edited (popIfEmpty url.segments) url.names edit (url.lexicalJoin path) climb added)
  (hclimb : climb.1 = url.climbed path)
include hedited hclimb

theorem Edited.climbsNames_iff :
    url.ClimbsNames path ↔
      (edit.1.filter (· ≠ [])).length = (url.lexicalJoin path).length := by
  have hcount := hedited.climbed
  rw [hclimb, ← names_popIfEmpty] at hcount
  rw [ClimbsNames, not_mem_drop_iff hcount, hedited.filter_segments, hedited.lexical, hclimb,
    length_append, length_append, length_take, names_popIfEmpty]
  omega

theorem Edited.names_eq (hclimbs : url.ClimbsNames path) :
    edit.1.filter (· ≠ []) = url.lexicalJoin path := by
  have hcount := hedited.climbed
  rw [hclimb, ← names_popIfEmpty] at hcount
  rw [ClimbsNames, not_mem_drop_iff hcount, names_popIfEmpty] at hclimbs
  have hsplit : url.names = ((popIfEmpty url.segments).take
        ((popIfEmpty url.segments).length - url.climbed path)).filter (· ≠ []) ++
      ((popIfEmpty url.segments).drop
        ((popIfEmpty url.segments).length - url.climbed path)).filter (· ≠ []) := by
    rw [← filter_append, take_append_drop, names_popIfEmpty]
  rw [hedited.filter_segments, hedited.lexical, hclimb, ← hclimbs]
  conv_rhs => rw [hsplit, take_left]

end

theorem lexicalJoin_nil : url.lexicalJoin [] = url.names := by
  rw [lexicalJoin, components_nil]
  cases hconvention : url.convention <;> simp [lexicalComponent, isWindowsRootRelative]

theorem climbsNames_nil : url.ClimbsNames [] := by
  have hnone : url.climbed [] = 0 := by
    rw [climbed, components_nil]
    cases hconvention : url.convention <;> simp [climbComponent, isWindowsRootRelative]
  rw [ClimbsNames, hnone, Nat.sub_zero, drop_length]
  exact not_mem_nil

/-- A URI that was made has its drive in upper case. -/
theorem exists_drive (hspelled : url.segments = normalizedDrive url.segments)
    (hwindows : url.convention = .windows) (hnone : url.host = none) :
    ∃ drive names, url.names = drive :: names ∧
      isWindowsDriveUriSegment drive = true ∧ upperDrive drive = drive := by
  rw [convention, hnone] at hwindows
  cases hnames : url.names with
  | nil =>
    rw [hnames] at hwindows
    cases hwindows
  | cons drive names =>
    rw [hnames] at hwindows
    have hdrive : isWindowsDriveUriSegment drive = true := by simpa using hwindows
    refine ⟨drive, names, rfl, hdrive, ?_⟩
    refine (normalizedDrive_eq_self_iff _).mp hspelled.symm drive ?_ hdrive
    rw [← FileUrl.names, hnames]
    rfl

/-- What lies at the root of a URL is not climbed over. -/
theorem root_prefix_lexicalJoin (url : FileUrl) (path : Text) :
    url.names.take (anchorDepth url.convention) <+: url.lexicalJoin path := by
  refine foldl_lexicalComponent_root (length_take_le _ _) ?_ _
  split_ifs
  · exact prefix_rfl
  · exact take_prefix _ _

/-- Where the names are the normalized ones and a POSIX path gets no drive, the
segments are not respelled and the convention is the same. -/
theorem segments_of_lexicalJoin {result : FileUrl} {segments : List Bytes}
    (hspelled : url.segments =
      if url.host.isSome then url.segments else normalizedDrive url.segments)
    (hhost : result.host = url.host)
    (hresult : result.segments =
      if result.host.isSome then segments else normalizedDrive segments)
    (hnames : segments.filter (· ≠ []) = url.lexicalJoin path)
    (hfirst : url.convention = .posix → ∀ first ∈ (url.lexicalJoin path).head?,
      isWindowsDriveUriSegment first = false) :
    result.segments = segments ∧
      (result.names = url.lexicalJoin path → result.convention = url.convention) := by
  rw [hhost] at hresult
  cases hurl : url.host with
  | some host =>
    rw [hurl] at hresult hhost
    exact ⟨hresult, fun _ => by rw [convention, convention, hhost, hurl]; rfl⟩
  | none =>
    -- Without a host, the spelling of the first name is looked at again.
    rw [hurl] at hresult hspelled hhost
    cases hconvention : url.convention with
    | posix =>
      have hno := hfirst hconvention
      refine ⟨hresult.trans (normalizedDrive_eq_self ?_), fun hnamed => ?_⟩
      · rw [hnames]
        exact hno
      · exact convention_eq_posix hhost (hnamed ▸ hno)
    | windows =>
      obtain ⟨drive, names, hdrives, hdrive, hupper⟩ := exists_drive hspelled hconvention hurl
      have hroot := root_prefix_lexicalJoin url path
      rw [hconvention, hdrives] at hroot
      obtain ⟨later, hlater⟩ := hroot
      rw [← hlater] at hnames ⊢
      refine ⟨hresult.trans ((normalizedDrive_eq_self_iff _).mpr ?_), fun hnamed => ?_⟩
      · rw [hnames]
        rintro name hname -
        rwa [← Option.some.inj hname]
      · rw [convention, hhost, hnamed]
        exact if_pos hdrive

/-- A URI keeps its root under a relative path exactly if no `..` takes an empty
segment for a name, and a POSIX one does not get a drive in front. -/
theorem join_keepsRoot_iff {rest : Text} {joined : PathUri} (hsegments : url.segments ≠ [])
    (hmade : tryFrom url.host url.segments = some (file url))
    (hrelative : fromAbsoluteNativePath path url.convention = none)
    (hrest : url.withoutDrive path = some rest) (hjoin : (file url).join path = some joined) :
    (∃ result, joined = file result ∧ KeepsRoot url rest result) ↔
      url.ClimbsNames rest ∧
        (url.convention = .posix → ∀ first ∈ (url.lexicalJoin rest).head?,
          isWindowsDriveUriSegment first = false) := by
  rw [join] at hjoin
  split_ifs at hjoin with hnul hempty
  · cases hjoin
    have hnil : rest = [] := by
      rw [hempty, withoutDrive] at hrest
      split at hrest
      next hdrive => cases hdrive
      · exact (Option.some.inj hrest).symm
    rw [hnil, lexicalJoin_nil]
    refine ⟨fun _ => ⟨climbsNames_nil, noDrive_of_posix⟩, fun _ => ⟨url, rfl, rfl, rfl, ?_, ?_⟩⟩
    · exact take_prefix _ _
    · exact lexicalJoin_nil.symm
  · obtain ⟨edit, climb, added, hedit, hclimb, hedited⟩ := joinRelative_eq hsegments rest
    simp only [inferPathConvention, hrelative, hrest, Option.bind_some, hedit] at hjoin
    obtain ⟨result, rfl, hhost, hresult⟩ := tryFrom_eq_some hjoin
    obtain ⟨_, heq, hsame, hspelled⟩ := tryFrom_eq_some hmade
    cases heq
    rw [← hsame] at hhost
    constructor
    · rintro ⟨_, heq, hkept⟩
      cases heq
      refine ⟨(hedited.climbsNames_iff hclimb).mpr ?_, fun hposix => ?_⟩
      · rw [← hkept.names, FileUrl.names, hresult]
        split
        · rfl
        · exact (length_names_normalizedDrive _).symm
      · rw [← hkept.names]
        exact noDrive_of_posix (hkept.convention.trans hposix)
    · rintro ⟨hclimbed, hfirst⟩
      have hnames := hedited.names_eq hclimb hclimbed
      obtain ⟨hkept, hconvention⟩ :=
        segments_of_lexicalJoin hspelled hhost hresult hnames hfirst
      have hnamed : result.names = url.lexicalJoin rest := by
        rw [FileUrl.names, hkept, hnames]
      exact ⟨result, rfl, hhost, hconvention hnamed,
        hnamed ▸ root_prefix_lexicalJoin url rest, hnamed⟩

end Joined

attribute [local instance] keptHosts

/-- A drive joined to the POSIX root makes a Windows path, and behind an empty
segment `..` climbs one name less. -/
theorem joined_drive_changes_convention :
    (localUri [[]]).join "C:".toList = some (localUri [ascii "C:"]) ∧
    (localUri [[]]).inferPathConvention = some .posix ∧
    (localUri [ascii "C:"]).inferPathConvention = some .windows ∧
    (localUri [ascii "a", [], ascii "b"]).join "../..".toList =
      some (localUri [ascii "a"]) := by
  decide

theorem plain_join_keepsRoot :
    ∃ result, localUri [ascii "a", [], ascii "c"] = file result ∧
      KeepsRoot ⟨none, [ascii "a", [], ascii "b"], by decide⟩ "../c".toList result := by
  refine (join_keepsRoot_iff (by decide) rfl rfl rfl ?_).mpr ?_
  · decide
  · decide

end Hexa.Permissions
