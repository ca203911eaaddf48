/-
A streaming parser that hides inline tags and extracts what they enclose, and
the same result read off the whole text: its pieces between and within the
leftmost tags.
-/
import Hexa.Lib.Search

namespace Hexa.StreamParser

open List

universe u

/-- What a parser gives out for one pushed chunk, or at the end. -/
@[ext]
structure StreamTextChunk (Extracted : Type u) where
  visibleText : Text := []
  extracted : List Extracted := []

namespace StreamTextChunk

variable {Extracted : Type u}

instance : Append (StreamTextChunk Extracted) where
  append first second := ⟨first.visibleText ++ second.visibleText,
      first.extracted ++ second.extracted⟩

variable (first second : StreamTextChunk Extracted)

@[simp]
theorem visibleText_append :
    (first ++ second).visibleText = first.visibleText ++ second.visibleText := rfl

@[simp]
theorem extracted_append :
    (first ++ second).extracted = first.extracted ++ second.extracted := rfl

@[simp]
theorem empty_append (chunk : StreamTextChunk Extracted) :
    ({} : StreamTextChunk Extracted) ++ chunk = chunk := rfl

@[simp]
theorem append_empty (chunk : StreamTextChunk Extracted) :
    chunk ++ ({} : StreamTextChunk Extracted) = chunk := by
  ext1 <;> simp

end StreamTextChunk

variable {T : Type u}

structure ExtractedInlineTag (T : Type u) where
  tag : T
  content : Text

/-- A tag by its delimiters.  The constructor of the parser asserts that they
are not empty. -/
structure InlineTagSpec (T : Type u) where
  tag : T
  opening : Text
  closing : Text
  opening_ne : opening ≠ []
  closing_ne : closing ≠ []

structure ActiveTag (T : Type u) where
  tag : T
  close : Text
  close_ne : close ≠ []
  content : Text

structure InlineHiddenTagParser (T : Type u) where
  specs : List (InlineTagSpec T)
  pending : Text := []
  active : Option (ActiveTag T) := none

/-- An opening tag, with the text before and behind it. -/
structure FoundOpen (T : Type u) (pending : Text) where
  spec : InlineTagSpec T
  before : Text
  after : Text
  found : splitOnce spec.opening pending = some (before, after)

/-- Earlier, or longer at the same place. -/
def FoundOpen.isBetter {pending : Text} (left right : FoundOpen T pending) : Bool :=
  left.before.length < right.before.length ||
    (left.before.length == right.before.length &&
      right.spec.opening.length < left.spec.opening.length)

/-- The first occurrence of the tag. -/
def findOpen (pending : Text) (spec : InlineTagSpec T) : Option (FoundOpen T pending) :=
  match h : splitOnce spec.opening pending with
  | none => none
  | some (before, after) => some ⟨spec, before, after, h⟩

/-- `find_next_open`.  Of equal candidates the first one stays. -/
def findNextOpen (specs : List (InlineTagSpec T)) (pending : Text) :
    Option (FoundOpen T pending) :=
  (specs.filterMap (findOpen pending)).foldl (fun best candidate =>
    match best with
    | none => some candidate
    | some found => if candidate.isBetter found then some candidate else best)
    none

def maxOpenPrefixSuffixLen (specs : List (InlineTagSpec T)) (pending : Text) : Nat :=
  (specs.map (fun spec => longestSuffixPrefixLen pending spec.opening)).foldl max 0

theorem length_lt_of_splitOnce {delimiter text before after : Text}
    (hfound : splitOnce delimiter text = some (before, after)) (hne : delimiter ≠ []) :
    after.length < text.length := by
  have hlength := congrArg List.length (splitOnce_eq_some hfound)
  have hpos := length_pos_iff.mpr hne
  simp only [length_append] at hlength
  omega

/-- The loop of `push_str`. -/
def drain (specs : List (InlineTagSpec T)) (pending : Text) (active : Option (ActiveTag T))
    (out : StreamTextChunk (ExtractedInlineTag T)) :
    Text × Option (ActiveTag T) × StreamTextChunk (ExtractedInlineTag T) :=
  match active with
  | some tag =>
    match hfound : splitOnce tag.close pending with
    | some (before, after) =>
      have := length_lt_of_splitOnce hfound tag.close_ne
      drain specs after none
        { out with
          extracted := out.extracted ++ [⟨tag.tag, tag.content ++ before⟩] }
    | none =>
      let keep := longestSuffixPrefixLen pending tag.close
      let take := pending.length - keep
      (pending.drop take, some { tag with content := tag.content ++ pending.take take }, out)
  | none =>
    match findNextOpen specs pending with
    | some found =>
      have := length_lt_of_splitOnce found.found found.spec.opening_ne
      drain specs found.after
        (some ⟨found.spec.tag, found.spec.closing, found.spec.closing_ne, []⟩)
        { out with visibleText := out.visibleText ++ found.before }
    | none =>
      let keep := maxOpenPrefixSuffixLen specs pending
      let take := pending.length - keep
      (pending.drop take, none, { out with visibleText := out.visibleText ++ pending.take take })
termination_by pending.length

variable {tag : ActiveTag T}

section

variable {specs : List (InlineTagSpec T)} {pending : Text}
  (out : StreamTextChunk (ExtractedInlineTag T))

theorem drain_of_close {before after : Text}
    (hclose : splitOnce tag.close pending = some (before, after)) :
    drain specs pending (some tag) out = drain specs after none { out with
          extracted := out.extracted ++ [⟨tag.tag, tag.content ++ before⟩] } := by
  rw [drain.eq_def]
  simp only
  split
  next hfound =>
    rw [hclose] at hfound
    obtain ⟨rfl, rfl⟩ := hfound
    rfl
  next hnone => rw [hclose] at hnone; cases hnone

theorem drain_of_no_close (hclose : splitOnce tag.close pending = none) :
    drain specs pending (some tag) out = (pending.drop (givenLen pending tag.close),
        some { tag with content := tag.content ++ pending.take (givenLen pending tag.close) },
        out) := by
  rw [drain.eq_def]
  simp only
  split
  next hfound => rw [hclose] at hfound; cases hfound
  · rfl

theorem drain_of_open {found : FoundOpen T pending}
    (hopen : findNextOpen specs pending = some found) :
    drain specs pending none out = drain specs found.after
        (some ⟨found.spec.tag, found.spec.closing, found.spec.closing_ne, []⟩)
        { out with visibleText := out.visibleText ++ found.before } := by
  rw [drain.eq_def]
  simp only [hopen]

theorem drain_of_no_open (hopen : findNextOpen specs pending = none) :
    drain specs pending none out =
      (pending.drop (pending.length - maxOpenPrefixSuffixLen specs pending), none,
        { out with
          visibleText := out.visibleText ++ pending.take
            (pending.length - maxOpenPrefixSuffixLen specs pending) }) := by
  rw [drain.eq_def]
  simp only [hopen]

end

namespace InlineHiddenTagParser

def pushStr (parser : InlineHiddenTagParser T) (chunk : Text) :
    InlineHiddenTagParser T × StreamTextChunk (ExtractedInlineTag T) :=
  let (pending, active, out) := drain parser.specs (parser.pending ++ chunk) parser.active {}
  ({ parser with pending, active }, out)

def finish (parser : InlineHiddenTagParser T) :
    InlineHiddenTagParser T × StreamTextChunk (ExtractedInlineTag T) :=
  match parser.active with
  | some tag =>
    ({ parser with pending := [], active := none },
      { extracted := [⟨tag.tag, tag.content ++ parser.pending⟩] })
  | none => ({ parser with pending := [] }, { visibleText := parser.pending })

/-- A whole text in chunks, and then the end. -/
def run (parser : InlineHiddenTagParser T) :
    List Text → StreamTextChunk (ExtractedInlineTag T)
  | [] => parser.finish.2
  | chunk :: chunks => (parser.pushStr chunk).2 ++ (parser.pushStr chunk).1.run chunks

end InlineHiddenTagParser

/-- A piece of a text: outside of the tags, or a tag with its content, which
the end of the text may close. -/
inductive TagPiece where
  | visible (text : Text)
  | hidden (content : Text) (closed : Bool)
  deriving Repr, DecidableEq

section Reference

variable (spec : InlineTagSpec T)

/-- The pieces of a text, from its leftmost tags. -/
def tagPieces (text : Text) : List TagPiece :=
  match hopen : splitOnce spec.opening text with
  | none => [.visible text]
  | some (before, after) =>
    match hclose : splitOnce spec.closing after with
    | none => [.visible before, .hidden after false]
    | some (content, rest) =>
      have := length_lt_of_splitOnce hopen spec.opening_ne
      have := length_lt_of_splitOnce hclose spec.closing_ne
      .visible before :: .hidden content true :: tagPieces rest
termination_by text.length

/-- How a piece stands in the text. -/
def TagPiece.source : TagPiece → Text
  | .visible text => text
  | .hidden content closed => spec.opening ++ content ++ if closed then spec.closing else []

/-- What a piece contributes to the output. -/
def TagPiece.output : TagPiece → StreamTextChunk (ExtractedInlineTag T)
  | .visible text => { visibleText := text }
  | .hidden content _ => { extracted := [⟨spec.tag, content⟩] }

def outputOf (pieces : List TagPiece) : StreamTextChunk (ExtractedInlineTag T) :=
  pieces.foldr (fun piece out => piece.output spec ++ out) {}

/-- The whole-text result: the tags removed, and their contents. -/
def stripTags (text : Text) : StreamTextChunk (ExtractedInlineTag T) :=
  outputOf spec (tagPieces spec text)

theorem tagPieces_of_no_open {text : Text} (hopen : splitOnce spec.opening text = none) :
    tagPieces spec text = [.visible text] := by
  rw [tagPieces]
  split
  · rfl
  next hfound => rw [hopen] at hfound; cases hfound

theorem tagPieces_of_open {text before after : Text}
    (hopen : splitOnce spec.opening text = some (before, after)) :
    tagPieces spec text = .visible before ::
        match splitOnce spec.closing after with
        | none => [.hidden after false]
        | some (content, rest) => .hidden content true :: tagPieces spec rest
    := by
  rw [tagPieces]
  split
  next hnone => rw [hopen] at hnone; cases hnone
  next hfound =>
    rw [hopen] at hfound
    obtain ⟨rfl, rfl⟩ := hfound
    split
    next hnone => simp [hnone]
    next hclose => simp [hclose]

/-- The pieces are the text, cut. -/
theorem flatMap_source_tagPieces (text : Text) :
    (tagPieces spec text).flatMap (TagPiece.source spec) = text := by
  induction hlength : text.length using Nat.strongRecOn generalizing text with
  | ind length ih =>
    cases hopen : splitOnce spec.opening text with
    | none =>
      rw [tagPieces_of_no_open spec hopen]
      simp [TagPiece.source]
    | some parts =>
      obtain ⟨before, after⟩ := parts
      rw [tagPieces_of_open spec hopen, splitOnce_eq_some hopen]
      cases hclose : splitOnce spec.closing after with
      | none => simp [TagPiece.source]
      | some inner =>
        obtain ⟨content, rest⟩ := inner
        have hafter := length_lt_of_splitOnce hopen spec.opening_ne
        have hrest := length_lt_of_splitOnce hclose spec.closing_ne
        have hih := ih rest.length (by omega) rest rfl
        rw [splitOnce_eq_some hclose]
        simp [TagPiece.source, hih]

end Reference

section NextOpen

variable {specs : List (InlineTagSpec T)} {pending : Text}

/-- The leftmost opening, of these the longest, and of equal ones the first. -/
structure IsNextOpen (specs : List (InlineTagSpec T)) (found : FoundOpen T pending) : Prop where
  first : specs.find? (fun spec => spec.opening = found.spec.opening) = some found.spec
  best : ∀ spec ∈ specs, ∀ before after, splitOnce spec.opening pending = some (before, after) →
    found.before.length < before.length ∨ found.before.length = before.length ∧
      spec.opening.length ≤ found.spec.opening.length

theorem findOpen_eq_none {spec : InlineTagSpec T} (hnone : findOpen pending spec = none) :
    splitOnce spec.opening pending = none := by
  rw [findOpen] at hnone
  split at hnone
  next hfound => exact hfound
  · cases hnone

theorem findOpen_spec {spec : InlineTagSpec T} {found : FoundOpen T pending}
    (hfound : findOpen pending spec = some found) : found.spec = spec := by
  rw [findOpen] at hfound
  split at hfound
  · cases hfound
  · cases hfound
    rfl

theorem findNextOpen_concat (spec : InlineTagSpec T) :
    findNextOpen (specs ++ [spec]) pending =
      match findOpen pending spec with
      | none => findNextOpen specs pending
      | some candidate =>
        match findNextOpen specs pending with
        | none => some candidate
        | some found => if candidate.isBetter found then some candidate else some found := by
  cases hfound : findOpen pending spec with
  | none => simp [findNextOpen, hfound]
  | some candidate =>
    rw [findNextOpen, filterMap_append, foldl_append, ← findNextOpen]
    cases findNextOpen specs pending with
    | none => simp [hfound]
    | some found => simp [hfound]

/-- The last specification is the next opening if the others are worse. -/
theorem isNextOpen_concat {candidate : FoundOpen T pending}
    (hworse : ∀ spec ∈ specs, ∀ before after,
      splitOnce spec.opening pending = some (before, after) →
      candidate.before.length < before.length ∨ candidate.before.length = before.length ∧
        spec.opening.length < candidate.spec.opening.length) :
    IsNextOpen (specs ++ [candidate.spec]) candidate where
  first := by
    have hother : ∀ spec ∈ specs, ¬spec.opening = candidate.spec.opening := by
      intro spec hspec heq
      have hself := hworse spec hspec _ _ (heq ▸ candidate.found)
      rw [heq] at hself
      omega
    have hmiss : specs.find? (fun spec => spec.opening = candidate.spec.opening) = none :=
      find?_eq_none.mpr (by simpa using hother)
    simp [find?_append, hmiss]
  best spec hspec before after hsplit := by
    rcases mem_append.mp hspec with hmem | hmem
    · exact (hworse spec hmem before after hsplit).imp_right (And.imp_right Nat.le_of_lt)
    · rw [mem_singleton.mp hmem] at hsplit ⊢
      cases candidate.found.symm.trans hsplit
      exact .inr ⟨rfl, le_rfl⟩

/-- An opening stays the next one behind a specification that is not better. -/
theorem IsNextOpen.concat {found : FoundOpen T pending} (hnext : IsNextOpen specs found)
    {spec : InlineTagSpec T} (hworse : ∀ before after,
      splitOnce spec.opening pending = some (before, after) →
      found.before.length < before.length ∨ found.before.length = before.length ∧
        spec.opening.length ≤ found.spec.opening.length) :
    IsNextOpen (specs ++ [spec]) found where
  first := by simp [find?_append, hnext.first]
  best other hother before after hsplit := by
    rcases mem_append.mp hother with hmem | hmem
    · exact hnext.best other hmem before after hsplit
    · rw [mem_singleton.mp hmem] at hsplit ⊢
      exact hworse before after hsplit

theorem findNextOpen_spec (specs : List (InlineTagSpec T)) (pending : Text) :
    match findNextOpen specs pending with
    | none => ∀ spec ∈ specs, splitOnce spec.opening pending = none
    | some found => IsNextOpen specs found := by
  induction specs using reverseRecOn with
  | nil => simp [findNextOpen]
  | append_singleton specs spec ih =>
    rw [findNextOpen_concat]
    cases hopen : findOpen pending spec with
    | none =>
      have hnone := findOpen_eq_none hopen
      cases hnext : findNextOpen specs pending with
      | none =>
        rw [hnext] at ih
        simpa [hnone, or_imp, forall_and] using ih
      | some found =>
        rw [hnext] at ih
        exact ih.concat (by simp [hnone])
    | some candidate =>
      obtain rfl := findOpen_spec hopen
      have hself := candidate.found
      cases hnext : findNextOpen specs pending with
      | none =>
        rw [hnext] at ih
        refine isNextOpen_concat fun spec hspec before after hsplit => ?_
        rw [ih spec hspec] at hsplit
        cases hsplit
      | some found =>
        rw [hnext] at ih
        dsimp only
        split_ifs with hbetter
        · refine isNextOpen_concat fun spec hspec before after hsplit => ?_
          have hworse := ih.best spec hspec before after hsplit
          simp only [FoundOpen.isBetter, Bool.or_eq_true, Bool.and_eq_true, decide_eq_true_eq,
            beq_iff_eq] at hbetter
          omega
        · refine ih.concat fun before after hsplit => ?_
          cases hself.symm.trans hsplit
          simp only [FoundOpen.isBetter, Bool.or_eq_true, Bool.and_eq_true, decide_eq_true_eq,
            beq_iff_eq] at hbetter
          omega

theorem findNextOpen_eq_none (hnone : findNextOpen specs pending = none) :
    ∀ spec ∈ specs, splitOnce spec.opening pending = none := by
  have hspec := findNextOpen_spec specs pending
  rwa [hnone] at hspec

theorem findNextOpen_isNextOpen {found : FoundOpen T pending}
    (hfound : findNextOpen specs pending = some found) : IsNextOpen specs found := by
  have hspec := findNextOpen_spec specs pending
  rwa [hfound] at hspec

namespace IsNextOpen

variable {found : FoundOpen T pending} (hnext : IsNextOpen specs found)
include hnext

theorem mem : found.spec ∈ specs := mem_of_find?_eq_some hnext.first

theorem unique {other : FoundOpen T pending} (hother : IsNextOpen specs other) :
    found = other := by
  have hleft := hnext.best _ hother.mem _ _ other.found
  have hright := hother.best _ hnext.mem _ _ found.found
  have htext := (splitOnce_eq_some found.found).symm.trans (splitOnce_eq_some other.found)
  have hbefore : found.before.length = other.before.length := by omega
  rw [append_assoc, append_assoc] at htext
  obtain ⟨hsame, hrest⟩ := append_inj htext hbefore
  obtain ⟨hopening, hafter⟩ := append_inj hrest (by omega)
  have hspec : found.spec = other.spec := by
    have hfirst := hnext.first
    rw [hopening, hother.first] at hfirst
    exact (Option.some.inj hfirst).symm
  cases found
  cases other
  simp_all

theorem findNextOpen_eq : findNextOpen specs pending = some found := by
  cases hopen : findNextOpen specs pending with
  | none =>
    have hnone := findNextOpen_eq_none hopen _ hnext.mem
    rw [found.found] at hnone
    cases hnone
  | some other => rw [hnext.unique (findNextOpen_isNextOpen hopen)]

end IsNextOpen

/-- No opening stands within a proper beginning of another one. -/
def OpeningsApart (specs : List (InlineTagSpec T)) : Prop :=
  ∀ inner ∈ specs, ∀ outer ∈ specs, ¬inner.opening <:+: outer.opening.dropLast

/-- An opening that only later text completes, and that does not start behind
one that is there, has this one within a proper beginning. -/
theorem infix_dropLast_of_later {inner outer rest before after front back : Text}
    (hinner : pending = before ++ inner ++ after)
    (houter : pending ++ rest = front ++ outer ++ back) (hle : front.length ≤ before.length)
    (hnone : ¬outer <:+: pending) : inner <:+: outer.dropLast := by
  have hshort : pending.drop front.length <+: outer ++ back := by
    refine ⟨rest, ?_⟩
    rw [← drop_append_of_le_length (by simp [hinner]; omega), houter, append_assoc, drop_left]
  have hlt : (pending.drop front.length).length < outer.length := by
    by_contra hge
    have hwithin := prefix_of_prefix_length_le (prefix_append outer back) hshort (not_lt.mp hge)
    exact hnone (hwithin.isInfix.trans (drop_suffix _ _).isInfix)
  have hbegins : pending.drop front.length <+: outer.dropLast := by
    rw [dropLast_eq_take]
    refine prefix_take_iff.mpr ⟨?_, by omega⟩
    exact prefix_of_prefix_length_le hshort (prefix_append outer back) hlt.le
  refine IsInfix.trans ⟨before.drop front.length, after, ?_⟩ hbegins.isInfix
  rw [hinner, append_assoc, append_assoc, drop_append_of_le_length hle]

/-- With the openings apart, the next one stays the next when more text
arrives. -/
theorem findNextOpen_append {found : FoundOpen T pending} {rest : Text}
    (hopen : findNextOpen specs pending = some found) (hapart : rest = [] ∨ OpeningsApart specs) :
    findNextOpen specs (pending ++ rest) = some ⟨found.spec, found.before, found.after ++ rest,
      splitOnce_append found.found found.spec.opening_ne rest⟩ := by
  have hnext := findNextOpen_isNextOpen hopen
  refine IsNextOpen.findNextOpen_eq ⟨hnext.first, fun spec hspec before after hsplit => ?_⟩
  cases hold : splitOnce spec.opening pending with
  | some parts =>
    have hlonger := splitOnce_append hold spec.opening_ne rest
    cases hlonger.symm.trans hsplit
    exact hnext.best spec hspec _ _ hold
  | none =>
    rcases hapart with rfl | hapart
    · rw [append_nil, hold] at hsplit
      cases hsplit
    · left
      by_contra hge
      exact hapart _ hnext.mem spec hspec (infix_dropLast_of_later
        (splitOnce_eq_some found.found) (splitOnce_eq_some hsplit) (not_lt.mp hge)
        (splitOnce_eq_none hold))

theorem foldl_max_ge (sizes : List Nat) (start : Nat) :
    start ≤ sizes.foldl max start ∧ ∀ size ∈ sizes, size ≤ sizes.foldl max start := by
  induction sizes generalizing start with
  | nil => simp
  | cons size sizes ih =>
    obtain ⟨hstart, hsizes⟩ := ih (max start size)
    rw [foldl_cons]
    refine ⟨(le_max_left _ _).trans hstart, fun other hother => ?_⟩
    rcases mem_cons.mp hother with rfl | hmem
    · exact (le_max_right _ _).trans hstart
    · exact hsizes other hmem

/-- How much of a text without an opening becomes visible. -/
def visibleLen (specs : List (InlineTagSpec T)) (pending : Text) : Nat :=
  pending.length - maxOpenPrefixSuffixLen specs pending

theorem visibleLen_le_givenLen {spec : InlineTagSpec T} (hspec : spec ∈ specs) :
    visibleLen specs pending ≤ givenLen pending spec.opening := by
  have hle := (foldl_max_ge _ 0).2 _
    (mem_map_of_mem hspec : longestSuffixPrefixLen pending spec.opening ∈
      specs.map (fun spec => longestSuffixPrefixLen pending spec.opening))
  rw [visibleLen, givenLen, maxOpenPrefixSuffixLen]
  omega

section

variable (hopen : findNextOpen specs pending = none) (rest : Text)
include hopen

/-- The openings of a text without one are those of what is kept of it and of
what comes. -/
theorem splitOnce_append_of_no_open {spec : InlineTagSpec T} (hspec : spec ∈ specs) :
    splitOnce spec.opening (pending ++ rest) =
      (splitOnce spec.opening (pending.drop (visibleLen specs pending) ++ rest)).map
        (fun parts => (pending.take (visibleLen specs pending) ++ parts.1, parts.2)) :=
  splitOnce_append_of_kept (findNextOpen_eq_none hopen spec hspec)
    (visibleLen_le_givenLen hspec) rest

theorem findNextOpen_kept_none
    (hkept : findNextOpen specs (pending.drop (visibleLen specs pending) ++ rest) = none) :
    findNextOpen specs (pending ++ rest) = none := by
  cases hlater : findNextOpen specs (pending ++ rest) with
  | none => rfl
  | some found =>
    have hmem := (findNextOpen_isNextOpen hlater).mem
    have hsplit := splitOnce_append_of_no_open hopen rest hmem
    rw [findNextOpen_eq_none hkept _ hmem, found.found] at hsplit
    cases hsplit

theorem findNextOpen_kept_some
    {found : FoundOpen T (pending.drop (visibleLen specs pending) ++ rest)}
    (hkept : findNextOpen specs (pending.drop (visibleLen specs pending) ++ rest) = some found) :
    ∃ hfound, findNextOpen specs (pending ++ rest) = some ⟨found.spec,
      pending.take (visibleLen specs pending) ++ found.before, found.after, hfound⟩ := by
  have hnext := findNextOpen_isNextOpen hkept
  have hsplit := splitOnce_append_of_no_open hopen rest hnext.mem
  rw [found.found] at hsplit
  refine ⟨hsplit, IsNextOpen.findNextOpen_eq ⟨hnext.first, ?_⟩⟩
  intro spec hspec before after hlater
  rw [splitOnce_append_of_no_open hopen rest hspec] at hlater
  obtain ⟨⟨front, back⟩, hparts, heq⟩ := Option.map_eq_some_iff.mp hlater
  cases heq
  have hbest := hnext.best spec hspec front back hparts
  simp only [length_append]
  omega

end

end NextOpen

section Streaming

/-! The parser computes a result of the whole text if the openings are apart,
and only then. -/

variable (specs : List (InlineTagSpec T))

/-- The active tag behind an opening. -/
def opened (spec : InlineTagSpec T) : ActiveTag T := ⟨spec.tag, spec.closing, spec.closing_ne, []⟩

/-- The result for the text that is still to come, from the state between two
pushes. -/
def continued (active : Option (ActiveTag T)) (text : Text) :
    StreamTextChunk (ExtractedInlineTag T) :=
  match active with
  | some tag =>
    match hfound : splitOnce tag.close text with
    | none => { extracted := [⟨tag.tag, tag.content ++ text⟩] }
    | some (before, after) =>
      have := length_lt_of_splitOnce hfound tag.close_ne
      { extracted := [⟨tag.tag, tag.content ++ before⟩] } ++ continued none after
  | none =>
    match findNextOpen specs text with
    | none => { visibleText := text }
    | some found =>
      have := length_lt_of_splitOnce found.found found.spec.opening_ne
      { visibleText := found.before } ++ continued (some (opened found.spec)) found.after
termination_by text.length

theorem continued_some (tag : ActiveTag T) (text : Text) :
    continued specs (some tag) text =
      match splitOnce tag.close text with
      | none => { extracted := [⟨tag.tag, tag.content ++ text⟩] }
      | some (before, after) =>
        { extracted := [⟨tag.tag, tag.content ++ before⟩] } ++ continued specs none after := by
  rw [continued.eq_def]
  dsimp only
  split
  next hnone => simp [hnone]
  next hfound => simp [hfound]

theorem continued_none (text : Text) :
    continued specs none text =
      match findNextOpen specs text with
      | none => { visibleText := text }
      | some found =>
        { visibleText := found.before } ++
          continued specs (some (opened found.spec)) found.after := by
  rw [continued.eq_def]

variable {pending : Text}

/-- The pending text within a tag moves to the content, but for what may begin
the closing. -/
theorem continued_kept_active (hnone : splitOnce tag.close pending = none) (rest : Text) :
    continued specs (some tag) (pending ++ rest) = continued specs (some { tag with
          content := tag.content ++ pending.take (givenLen pending tag.close) })
        (pending.drop (givenLen pending tag.close) ++ rest) := by
  have hkept := splitOnce_append_of_kept hnone le_rfl rest
  simp only [continued_some, hkept]
  cases splitOnce tag.close (pending.drop (givenLen pending tag.close) ++ rest) with
  | none =>
    simp only [Option.map_none, append_assoc]
    rw [← append_assoc (List.take _ _), take_append_drop]
  | some parts => simp

/-- The pending text outside becomes visible, but for what may begin an
opening. -/
theorem continued_kept (hopen : findNextOpen specs pending = none) (rest : Text) :
    continued specs none (pending ++ rest) =
      { visibleText := pending.take (visibleLen specs pending) } ++
        continued specs none (pending.drop (visibleLen specs pending) ++ rest) := by
  rw [continued_none specs (pending.drop _ ++ rest)]
  cases hkept : findNextOpen specs (pending.drop (visibleLen specs pending) ++ rest) with
  | none =>
    rw [continued_none, findNextOpen_kept_none hopen rest hkept]
    ext1
    · simp only [StreamTextChunk.visibleText_append]
      rw [← append_assoc, take_append_drop]
    · rfl
  | some found =>
    obtain ⟨hfound, hlater⟩ := findNextOpen_kept_some hopen rest hkept
    rw [continued_none, hlater]
    ext1
    · simp
    · simp

/-- Nothing that can be decided is left pending. -/
def Settled (pending : Text) (active : Option (ActiveTag T)) : Prop :=
  match active with
  | none => findNextOpen specs pending = none
  | some tag => splitOnce tag.close pending = none

/-- The loop of a push decides what it can, gives out that part of the result,
and leaves the rest of it to what comes. -/
theorem drain_continued (pending : Text) (active : Option (ActiveTag T))
    (out : StreamTextChunk (ExtractedInlineTag T)) {rest : Text}
    (hapart : rest = [] ∨ OpeningsApart specs) :
    let drained := drain specs pending active out
    Settled specs drained.1 drained.2.1 ∧
      out ++ continued specs active (pending ++ rest) =
        drained.2.2 ++ continued specs drained.2.1 (drained.1 ++ rest) := by
  induction hlength : pending.length using Nat.strongRecOn generalizing pending active out with
  | ind length ih =>
    cases active with
    | some tag =>
      cases hclose : splitOnce tag.close pending with
      | some parts =>
        obtain ⟨before, after⟩ := parts
        have hlt := length_lt_of_splitOnce hclose tag.close_ne
        have hclosed := splitOnce_append hclose tag.close_ne rest
        rw [drain_of_close out hclose]
        obtain ⟨hsettled, hrest⟩ := ih after.length (hlength ▸ hlt) after none _ rfl
        refine ⟨hsettled, ?_⟩
        rw [← hrest, continued_some, hclosed]
        ext1 <;> simp
      | none =>
        rw [drain_of_no_close out hclose, continued_kept_active specs hclose]
        exact ⟨splitOnce_drop_of_kept hclose le_rfl, rfl⟩
    | none =>
      cases hopen : findNextOpen specs pending with
      | some found =>
        have hlt := length_lt_of_splitOnce found.found found.spec.opening_ne
        rw [drain_of_open out hopen]
        obtain ⟨hsettled, hrest⟩ := ih found.after.length (hlength ▸ hlt) found.after _ _ rfl
        refine ⟨hsettled, ?_⟩
        rw [← hrest, continued_none, findNextOpen_append hopen hapart]
        ext1 <;> simp [opened]
      | none =>
        rw [drain_of_no_open out hopen, ← visibleLen, continued_kept specs hopen]
        refine ⟨?_, by ext1 <;> simp⟩
        cases hkept : findNextOpen specs (pending.drop (visibleLen specs pending)) with
        | none => exact hkept
        | some found =>
          have hmem := (findNextOpen_isNextOpen hkept).mem
          have hnone := splitOnce_drop_of_kept (findNextOpen_eq_none hopen _ hmem)
            (visibleLen_le_givenLen hmem)
          rw [found.found] at hnone
          cases hnone

open InlineHiddenTagParser

/-- The chunks of a text have the result of the text, if the openings are apart
or the text comes in one chunk. -/
theorem run_continued {chunks : List Text} {active : Option (ActiveTag T)}
    (hsettled : Settled specs pending active)
    (hapart : chunks.length ≤ 1 ∨ OpeningsApart specs) :
    run ⟨specs, pending, active⟩ chunks =
      continued specs active (pending ++ chunks.flatten) := by
  induction chunks generalizing pending active with
  | nil =>
    rw [run, flatten_nil, append_nil]
    cases active with
    | none =>
      have hopen : findNextOpen specs pending = none := hsettled
      rw [continued_none, hopen]
      rfl
    | some tag =>
      have hclose : splitOnce tag.close pending = none := hsettled
      simp [finish, continued_some, hclose]
  | cons chunk chunks ih =>
    have hrest : chunks.flatten = [] ∨ OpeningsApart specs := by
      refine hapart.imp_left fun hlength => ?_
      have hnil : chunks = [] := by simpa using hlength
      rw [hnil, flatten_nil]
    obtain ⟨hsettled, hpush⟩ := drain_continued specs (pending ++ chunk) active {} hrest
    rw [StreamTextChunk.empty_append, append_assoc] at hpush
    rw [run, flatten_cons, hpush]
    simp only [pushStr]
    rw [ih hsettled (hapart.imp_left fun hlength => (Nat.le_succ _).trans hlength)]

theorem settled_start : Settled specs [] (none : Option (ActiveTag T)) := by
  cases hopen : findNextOpen specs [] with
  | none => exact hopen
  | some found =>
    have htext := splitOnce_eq_some found.found
    simp [found.spec.opening_ne] at htext

/-- With one tag the result is the text with its leftmost tags removed. -/
theorem continued_stripTags (spec : InlineTagSpec T) (text : Text) :
    continued [spec] none text = stripTags spec text := by
  induction hlength : text.length using Nat.strongRecOn generalizing text with
  | ind length ih =>
    have hsingle : findNextOpen [spec] text = findOpen text spec := by
      cases hfound : findOpen text spec with
      | none | some found => simp [findNextOpen, hfound]
    rw [continued_none, stripTags, hsingle]
    cases hopen : findOpen text spec with
    | none =>
      rw [tagPieces_of_no_open spec (findOpen_eq_none hopen)]
      simp [outputOf, TagPiece.output]
    | some found =>
      obtain rfl := findOpen_spec hopen
      have hafter := length_lt_of_splitOnce found.found found.spec.opening_ne
      rw [tagPieces_of_open found.spec found.found]
      simp only [continued_some, opened]
      cases hclose : splitOnce found.spec.closing found.after with
      | none => simp [outputOf, TagPiece.output]
      | some parts =>
        obtain ⟨content, rest⟩ := parts
        have hrest := length_lt_of_splitOnce hclose found.spec.closing_ne
        dsimp only
        rw [ih rest.length (by omega) rest rfl]
        simp [outputOf, TagPiece.output, stripTags]

theorem openingsApart_single (spec : InlineTagSpec T) : OpeningsApart [spec] := by
  intro inner hinner outer houter hinfix
  rw [mem_singleton.mp hinner, mem_singleton.mp houter] at hinfix
  have hpos := length_pos_iff.mpr spec.opening_ne
  have hlength := hinfix.length_le
  rw [length_dropLast] at hlength
  omega

theorem run_stripTags (spec : InlineTagSpec T) (chunks : List Text) :
    run { specs := [spec] } chunks = stripTags spec chunks.flatten := by
  rw [run_continued [spec] (settled_start [spec]) (.inr (openingsApart_single spec)), nil_append,
    continued_stripTags]

section Necessity

variable {specs}

/-- Of the openings around another one there is a longest. -/
theorem exists_longest_outer {inner outer : InlineTagSpec T} (houter : outer ∈ specs)
    (hinner : inner.opening <:+: outer.opening.dropLast) :
    ∃ longest ∈ specs, inner.opening <:+: longest.opening.dropLast ∧
      ∀ spec ∈ specs, longest.opening <+: spec.opening → spec.opening = longest.opening := by
  let around := specs.filter (fun spec => inner.opening <:+: spec.opening.dropLast)
  have hmem : outer ∈ around := mem_filter.mpr ⟨houter, by simpa using hinner⟩
  cases hmax : around.argmax (fun spec => spec.opening.length) with
  | none =>
    rw [argmax_eq_none.mp hmax] at hmem
    cases hmem
  | some longest =>
    obtain ⟨hlongest, haround⟩ := mem_filter.mp (argmax_mem hmax)
    rw [decide_eq_true_eq] at haround
    refine ⟨longest, hlongest, haround, fun spec hspec hleading => ?_⟩
    have hwithin : spec ∈ around := by
      refine mem_filter.mpr ⟨hspec, ?_⟩
      have hlength := hleading.length_le
      have hdropLast : longest.opening.dropLast <+: spec.opening.dropLast := by
        rw [dropLast_eq_take (l := spec.opening)]
        refine prefix_take_iff.mpr ⟨( dropLast_prefix _).trans hleading, ?_⟩
        rw [length_dropLast]
        omega
      rw [decide_eq_true_eq]
      exact haround.trans hdropLast.isInfix
    have hlength : spec.opening.length ≤ longest.opening.length :=
      le_of_mem_argmax (f := fun spec : InlineTagSpec T => spec.opening.length) hwithin hmax
    exact (hleading.eq_of_length_le hlength).symm

/-- A chunk that ends with the leftmost opening of a text opens this one. -/
theorem run_cut {text : Text} {found : FoundOpen T text}
    (hopen : findNextOpen specs text = some found) (rest : Text) :
    run { specs } [found.before ++ found.spec.opening, rest] =
      { visibleText := found.before } ++ continued specs (some (opened found.spec)) rest := by
  have hnext := findNextOpen_isNextOpen hopen
  have hcut : findNextOpen specs (found.before ++ found.spec.opening) =
      some ⟨found.spec, found.before, [], splitOnce_cut found.spec.opening_ne found.found⟩ := by
    refine IsNextOpen.findNextOpen_eq ⟨hnext.first, fun spec hspec before after hsplit => ?_⟩
    have hlonger := splitOnce_append hsplit spec.opening_ne found.after
    rw [← splitOnce_eq_some found.found] at hlonger
    exact hnext.best spec hspec _ _ hlonger
  have hclose : splitOnce (opened found.spec).close [] = none := by
    simp [splitOnce, (opened found.spec).close_ne]
  rw [run]
  simp only [pushStr, nil_append]
  rw [drain_of_open _ hcut, ← opened, drain_of_no_close _ hclose]
  have hsettled : Settled specs [] (some (opened found.spec)) := hclose
  have hrest := run_continued specs hsettled (.inl (length_singleton (a := rest)).le)
  rw [nil_append, flatten_singleton] at hrest
  rw [← hrest]
  simp [opened]

/-- A text that begins with an opening which no other one prolongs opens it. -/
theorem run_longest {longest : InlineTagSpec T} (hlongest : longest ∈ specs)
    (hmax : ∀ spec ∈ specs, longest.opening <+: spec.opening → spec.opening = longest.opening) :
    ∃ spec, ∀ rest, run { specs } [longest.opening ++ rest] =
      continued specs (some (opened spec)) rest := by
  cases hfirst : specs.find? (fun spec => spec.opening = longest.opening) with
  | none => simpa using find?_eq_none.mp hfirst longest hlongest
  | some spec =>
    have hspec : spec.opening = longest.opening := by simpa using find?_some hfirst
    refine ⟨spec, fun rest => ?_⟩
    have hfound : splitOnce spec.opening (longest.opening ++ rest) = some ([], rest) := by
      rw [hspec]
      exact splitOnce_start longest.opening_ne rest
    have hnext : findNextOpen specs (longest.opening ++ rest) =
        some ⟨spec, [], rest, hfound⟩ := by
      refine IsNextOpen.findNextOpen_eq ⟨by simpa only [hspec] using hfirst, ?_⟩
      intro other hother before after hsplit
      rcases eq_or_ne before [] with rfl | hbefore
      · refine .inr ⟨rfl, ?_⟩
        by_contra hlt
        have hleading : longest.opening <+: other.opening := by
          refine prefix_of_prefix_length_le (prefix_append _ rest)
            ⟨after, (splitOnce_eq_some hsplit).symm⟩ ?_
          rw [← hspec]
          exact (not_le.mp hlt).le
        rw [hmax other hother hleading, hspec] at hlt
        exact hlt le_rfl
      · exact .inl (length_pos_iff.mpr hbefore)
    rw [run_continued specs (settled_start specs) (.inl le_rfl), nil_append, flatten_singleton,
      continued_none, hnext]
    rfl

theorem exists_other_char (next : Char) (text : Text) :
    ∃ char, next ≠ char ∧ text ≠ [char] := by
  by_contra hnone
  have ha := mt (fun h => ⟨'a', h⟩) hnone
  have hb := mt (fun h => ⟨'b', h⟩) hnone
  have hc := mt (fun h => ⟨'c', h⟩) hnone
  grind

/-- A tag with some text before the one character of its content, and a tag
with just that character, have different results. -/
theorem continued_ne {first second : ActiveTag T} {char next : Char} {text : Text}
    (hfirst : first.content = []) (hsecond : second.content = [])
    (hclose : second.close ≠ [char]) (hchar : next ≠ char) :
    (continued specs (some first) (next :: text ++ [char])).extracted ≠
      (continued specs (some second) [char]).extracted := by
  have hnone : splitOnce second.close [char] = none := by
    cases hsplit : splitOnce second.close [char] with
    | none => rfl
    | some parts =>
      have htext := splitOnce_eq_some hsplit
      have hlength := congrArg List.length htext
      have hpos := length_pos_iff.mpr second.close_ne
      simp only [length_append, length_singleton] at hlength
      have hbefore : parts.1 = [] := length_eq_zero_iff.mp (by omega)
      have hafter : parts.2 = [] := length_eq_zero_iff.mp (by omega)
      rw [hbefore, hafter, nil_append, append_nil] at htext
      exact absurd htext.symm hclose
  rw [continued_some, continued_some, hnone]
  cases hsplit : splitOnce first.close (next :: text ++ [char]) with
  | none => simp [hfirst, hsecond]
  | some parts =>
    intro hsame
    have htext := splitOnce_eq_some hsplit
    simp only [hfirst, hsecond, nil_append, StreamTextChunk.extracted_append, cons_append,
      cons.injEq, ExtractedInlineTag.mk.injEq] at hsame
    rw [hsame.1.2] at htext
    simp [hchar] at htext

end Necessity

/-- The chunks of a text do not matter if and only if the openings are apart. -/
theorem run_split_invariant_iff :
    (∀ chunks, run { specs } chunks = run { specs } [chunks.flatten]) ↔ OpeningsApart specs := by
  constructor
  · intro hsame inner hinner outer houter hinfix
    obtain ⟨longest, hlongest, haround, hmax⟩ := exists_longest_outer houter hinfix
    obtain ⟨whole, hwhole⟩ := run_longest hlongest hmax
    cases hopen : findNextOpen specs longest.opening.dropLast with
    | none =>
      exact splitOnce_eq_none (findNextOpen_eq_none hopen inner hinner) haround
    | some found =>
      obtain ⟨last, hlast⟩ : ∃ last, longest.opening = longest.opening.dropLast ++ [last] :=
        ⟨_, (dropLast_append_getLast longest.opening_ne).symm⟩
      obtain ⟨next, tail, htail⟩ : ∃ next tail, found.after ++ [last] = next :: tail :=
        exists_cons_of_ne_nil (by simp)
      obtain ⟨char, hchar, hclose⟩ := exists_other_char next whole.closing
      have hchunks := hsame [found.before ++ found.spec.opening, next :: tail ++ [char]]
      have htext : [found.before ++ found.spec.opening, next :: tail ++ [char]].flatten =
          longest.opening ++ [char] := by
        calc [found.before ++ found.spec.opening, next :: tail ++ [char]].flatten
            = found.before ++ found.spec.opening ++ found.after ++ [last] ++ [char] := by
              simp [← htail]
          _ = longest.opening.dropLast ++ [last] ++ [char] := by
              rw [← splitOnce_eq_some found.found]
          _ = longest.opening ++ [char] := by rw [← hlast]
      rw [htext, run_cut hopen, hwhole] at hchunks
      exact continued_ne rfl rfl hclose hchar (congrArg (fun out => out.extracted) hchunks)
  · intro hapart chunks
    rw [run_continued specs (settled_start specs) (.inr hapart),
      run_continued specs (settled_start specs) (.inr hapart), flatten_singleton]

/-- An opening that begins another one, as the specifications allow. -/
private def nestedOpenings : List (InlineTagSpec Bool) :=
  [⟨false, "<a".toList, ">".toList, by decide, by decide⟩,
    ⟨true, "<ab".toList, ">".toList, by decide, by decide⟩]

/-- The shorter opening is taken when a chunk ends behind it, and the longer
one when the text comes as a whole. -/
theorem run_nestedOpenings_split :
    (run { specs := nestedOpenings } ["<a".toList, "b>".toList]).extracted.map
        (fun found => (found.tag, found.content)) = [(false, "b".toList)] ∧
      (run { specs := nestedOpenings } ["<ab>".toList]).extracted.map
        (fun found => (found.tag, found.content)) = [(true, [])] := by
  decide +kernel

end Streaming

end Hexa.StreamParser
