/-
Wildcard patterns with `*` and `?`, matched without regard to ASCII case.  The
language of a concatenated pattern is the concatenation of the languages, and
containment of a pattern in a list of patterns is decided by walking along it.
-/
import Hexa.Lib.RustStr

namespace Hexa

/-- `*` stands for any text, `?` for one character, and any other character
for itself. -/
def wildcardMatch : Text → Text → Bool
  | [], text => text.isEmpty
  | '*' :: pattern, text => text.tails.any (wildcardMatch pattern)
  | '?' :: _, [] => false
  | '?' :: pattern, _ :: text => wildcardMatch pattern text
  | _ :: _, [] => false
  | char :: pattern, head :: text => char.toLower == head.toLower && wildcardMatch pattern text

/-- The characters that a pattern language may give a meaning beside `*` and
`?`: classes, alternatives, escapes and path separators. -/
def reservedChars : List Char := ['[', ']', '{', '}', ',', '\x5c', '/']

def Plain (pattern : Text) : Prop := ∀ char ∈ pattern, char ∉ reservedChars

instance (pattern : Text) : Decidable (Plain pattern) :=
  List.decidableBAll (fun char => char ∉ reservedChars) pattern

theorem plain_append {left right : Text} : Plain (left ++ right) ↔ Plain left ∧ Plain right :=
  List.forall_mem_append

variable {pattern : Text}

theorem wildcardMatch_star (pattern text : Text) :
    wildcardMatch ('*' :: pattern) text = true ↔
      ∃ lead rest, text = lead ++ rest ∧ wildcardMatch pattern rest = true := by
  simp only [wildcardMatch, List.any_eq_true, List.mem_tails]
  constructor
  · rintro ⟨rest, ⟨lead, rfl⟩, hmatch⟩
    exact ⟨lead, rest, rfl, hmatch⟩
  · rintro ⟨lead, rest, rfl, hmatch⟩
    exact ⟨rest, ⟨lead, rfl⟩, hmatch⟩

theorem wildcardMatch_any (pattern text : Text) :
    wildcardMatch ('?' :: pattern) text = true ↔
      ∃ head rest, text = head :: rest ∧ wildcardMatch pattern rest = true := by
  cases text with
  | nil | cons head rest => simp [wildcardMatch]

theorem wildcardMatch_char {char : Char} (hstar : char ≠ '*') (hany : char ≠ '?')
    (pattern text : Text) :
    wildcardMatch (char :: pattern) text = true ↔
      ∃ head rest, text = head :: rest ∧ char.toLower = head.toLower ∧
        wildcardMatch pattern rest = true := by
  cases text with
  | nil | cons head rest => simp [wildcardMatch]

theorem wildcardMatch_append (left right text : Text) :
    wildcardMatch (left ++ right) text = true ↔
      ∃ lead rest, text = lead ++ rest ∧ wildcardMatch left lead = true ∧
        wildcardMatch right rest = true := by
  induction left generalizing text with
  | nil => simp [wildcardMatch]
  | cons char left ih =>
    rw [List.cons_append]
    by_cases hstar : char = '*'
    · subst char
      simp only [wildcardMatch_star, ih]
      constructor
      · rintro ⟨skipped, _, rfl, lead, rest, rfl, hleft, hright⟩
        exact ⟨skipped ++ lead, rest, by simp, ⟨skipped, lead, rfl, hleft⟩, hright⟩
      · rintro ⟨_, rest, rfl, ⟨skipped, lead, rfl, hleft⟩, hright⟩
        exact ⟨skipped, lead ++ rest, by simp, lead, rest, rfl, hleft, hright⟩
    · by_cases hany : char = '?'
      · subst char
        simp only [wildcardMatch_any, ih]
        constructor
        · rintro ⟨head, _, rfl, lead, rest, rfl, hleft, hright⟩
          exact ⟨head :: lead, rest, by simp, ⟨head, lead, rfl, hleft⟩, hright⟩
        · rintro ⟨_, rest, rfl, ⟨head, lead, rfl, hleft⟩, hright⟩
          exact ⟨head, lead ++ rest, by simp, lead, rest, rfl, hleft, hright⟩
      · simp only [wildcardMatch_char hstar hany, ih]
        constructor
        · rintro ⟨head, _, rfl, hchar, lead, rest, rfl, hleft, hright⟩
          exact ⟨head :: lead, rest, by simp, ⟨head, lead, rfl, hchar, hleft⟩, hright⟩
        · rintro ⟨_, rest, rfl, ⟨head, lead, rfl, hchar, hleft⟩, hright⟩
          exact ⟨head, lead ++ rest, by simp, hchar, lead, rest, rfl, hleft, hright⟩

/-- Two matchers one after the other. -/
def matchJoined (lead tail : Text → Bool) (text : Text) : Bool :=
  (List.range (text.length + 1)).any (fun count =>
    lead (text.take count) && tail (text.drop count))

theorem matchJoined_iff {lead tail : Text → Bool} {text : Text} :
    matchJoined lead tail text = true ↔
      ∃ front rest, text = front ++ rest ∧ lead front = true ∧ tail rest = true := by
  simp only [matchJoined, List.any_eq_true, List.mem_range, Bool.and_eq_true]
  constructor
  · rintro ⟨count, -, hlead, htail⟩
    exact ⟨_, _, (List.take_append_drop count text).symm, hlead, htail⟩
  · rintro ⟨front, rest, rfl, hlead, htail⟩
    exact ⟨front.length, by simp, by simpa using hlead, by simpa using htail⟩

theorem wildcardMatch_joined (left right : Text) :
    wildcardMatch (left ++ right) = matchJoined (wildcardMatch left) (wildcardMatch right) := by
  funext text
  rw [Bool.eq_iff_iff, wildcardMatch_append, matchJoined_iff]

/-- What may be left of a pattern behind a character that the pattern reads
with `*`, with `?` or with one of the characters that spell it. -/
def residuals (spells : Char → Bool) : Text → List Text
  | [] => []
  | '*' :: rest => ('*' :: rest) :: residuals spells rest
  | '?' :: rest => [rest]
  | head :: rest => if spells head then [rest] else []

/-- The characters that spell the character. -/
def spelling (char head : Char) : Bool := head.toLower == char.toLower

/-- Nothing spells a character that only `*` and `?` read. -/
def unspelled (_ : Char) : Bool := false

def allResiduals (spells : Char → Bool) (patterns : List Text) : List Text :=
  (patterns.flatMap (residuals spells)).dedup

/-- The walk along a pattern, with what is left of the covering patterns.  A
`*` is walked any number of times; beyond the length of the patterns nothing
is lost. -/
def wildcardCovers : Text → List Text → Bool
  | [], patterns => patterns.any (wildcardMatch · [])
  | '*' :: rest, patterns =>
    (List.range (patterns.flatten.length + 2)).all (fun count =>
      wildcardCovers rest ((allResiduals unspelled)^[count] patterns))
  | '?' :: rest, patterns => wildcardCovers rest (allResiduals unspelled patterns)
  | char :: rest, patterns => wildcardCovers rest (allResiduals (spelling char) patterns)

variable {spells : Char → Bool} {patterns : List Text} {left : Text}

theorem mem_allResiduals :
    left ∈ allResiduals spells patterns ↔
      ∃ pattern ∈ patterns, left ∈ residuals spells pattern := by
  simp [allResiduals]

theorem residuals_char {char : Char} (hstar : char ≠ '*') (hany : char ≠ '?') (rest : Text) :
    residuals spells (char :: rest) = if spells char then [rest] else [] := by
  simp [residuals]

theorem residuals_unspelled_subset (hleft : left ∈ residuals unspelled pattern) :
    left ∈ residuals spells pattern := by
  induction pattern with
  | nil => exact hleft
  | cons char rest ih =>
    by_cases hstar : char = '*'
    · subst char
      rcases List.mem_cons.mp hleft with rfl | hleft
      · exact List.mem_cons_self
      · exact List.mem_cons_of_mem _ (ih hleft)
    · by_cases hany : char = '?'
      · subst char
        exact hleft
      · simp [residuals_char hstar hany, unspelled] at hleft

theorem subset_of_mem_residuals (hleft : left ∈ residuals spells pattern) : left ⊆ pattern := by
  induction pattern with
  | nil => simp [residuals] at hleft
  | cons char rest ih =>
    by_cases hstar : char = '*'
    · subst char
      rcases List.mem_cons.mp hleft with rfl | hleft
      · exact List.Subset.refl _
      · exact List.subset_cons_of_subset _ (ih hleft)
    · by_cases hany : char = '?'
      · subst char
        cases List.mem_singleton.mp hleft
        exact List.subset_cons_self _ _
      · rw [residuals_char hstar hany] at hleft
        split_ifs at hleft
        · cases List.mem_singleton.mp hleft
          exact List.subset_cons_self _ _
        · simp at hleft

/-- A pattern reads a character and then a text if something left behind the
character reads the text. -/
theorem wildcardMatch_cons (pattern : Text) (char : Char) (text : Text) :
    wildcardMatch pattern (char :: text) = true ↔
      ∃ left ∈ residuals (spelling char) pattern, wildcardMatch left text = true := by
  induction pattern with
  | nil => simp [wildcardMatch, residuals]
  | cons head rest ih =>
    by_cases hstar : head = '*'
    · subst head
      have htails : wildcardMatch ('*' :: rest) (char :: text) = true ↔
          wildcardMatch rest (char :: text) = true ∨ wildcardMatch ('*' :: rest) text = true := by
        simp [wildcardMatch]
      rw [htails, ih]
      simp [residuals, or_comm]
    · by_cases hany : head = '?'
      · subst head
        simp [wildcardMatch, residuals]
      · rw [wildcardMatch_char hstar hany, residuals_char hstar hany]
        simp [spelling]

/-- No pattern spells the character. -/
def Spares (char : Char) (patterns : List Text) : Prop :=
  ∀ pattern ∈ patterns, ∀ head ∈ pattern, spelling char head = false

/-- No plain pattern spells a slash. -/
theorem spares_slash (hplain : ∀ pattern ∈ patterns, Plain pattern) : Spares '/' patterns := by
  intro pattern hpattern head hhead
  by_contra hspelling
  have hlower : head.toLower = '/' := by simpa [spelling] using hspelling
  have hlowered : '/' ∈ toAsciiLowercase [head] := by simp [toAsciiLowercase, hlower]
  have hslash := mem_of_mem_toAsciiLowercase hlowered (by decide)
  exact hplain pattern hpattern head hhead (List.mem_singleton.mp hslash ▸ by decide)

theorem spares_allResiduals {char : Char} (hspares : Spares char patterns) :
    Spares char (allResiduals spells patterns) := by
  intro left hleft head hhead
  obtain ⟨pattern, hpattern, hresidual⟩ := mem_allResiduals.mp hleft
  exact hspares pattern hpattern head (subset_of_mem_residuals hresidual hhead)

theorem residuals_of_spared {char : Char}
    (hspared : ∀ head ∈ pattern, spelling char head = false) :
    residuals (spelling char) pattern = residuals unspelled pattern := by
  induction pattern with
  | nil => rfl
  | cons head rest ih =>
    have hrest := ih (fun other hmem => hspared other (List.mem_cons_of_mem head hmem))
    by_cases hstar : head = '*'
    · subst head
      simp [residuals, hrest]
    · by_cases hany : head = '?'
      · subst head
        rfl
      · simp [residuals_char hstar hany, hspared head List.mem_cons_self, unspelled]

section Iterated

variable (count : Nat)

/-- What is left of the patterns behind as many characters that only `*` and
`?` read. -/
theorem mem_iterate_allResiduals :
    left ∈ (allResiduals unspelled)^[count] patterns ↔
      ∃ pattern ∈ patterns, left ∈ (allResiduals unspelled)^[count] [pattern] := by
  induction count generalizing patterns with
  | zero => simp
  | succ count ih =>
    simp only [Function.iterate_succ_apply]
    rw [ih]
    constructor
    · rintro ⟨middle, hmiddle, hleft⟩
      obtain ⟨pattern, hpattern, hmiddle⟩ := mem_allResiduals.mp hmiddle
      refine ⟨pattern, hpattern, ih.mpr ⟨middle, ?_, hleft⟩⟩
      exact mem_allResiduals.mpr ⟨pattern, List.mem_singleton_self _, hmiddle⟩
    · rintro ⟨pattern, hpattern, hleft⟩
      obtain ⟨middle, hmiddle, hleft⟩ := ih.mp hleft
      obtain ⟨_, hmem, hmiddle⟩ := mem_allResiduals.mp hmiddle
      cases List.mem_singleton.mp hmem
      exact ⟨middle, mem_allResiduals.mpr ⟨pattern, hpattern, hmiddle⟩, hleft⟩

theorem mem_iterate_allResiduals_succ :
    left ∈ (allResiduals unspelled)^[count + 1] [pattern] ↔
      ∃ middle ∈ residuals unspelled pattern,
        left ∈ (allResiduals unspelled)^[count] [middle] := by
  rw [Function.iterate_succ_apply, mem_iterate_allResiduals]
  simp [mem_allResiduals]

/-- Behind more characters than the pattern is long, nothing left of it is
lost with one more: what is left was reached through a `*`. -/
theorem iterate_allResiduals_grows (hlong : pattern.length < count)
    (hleft : left ∈ (allResiduals unspelled)^[count] [pattern]) :
    left ∈ (allResiduals unspelled)^[count + 1] [pattern] := by
  induction pattern generalizing count with
  | nil =>
    obtain ⟨count, rfl⟩ := Nat.exists_eq_add_of_lt hlong
    obtain ⟨middle, hmiddle, -⟩ := (mem_iterate_allResiduals_succ _).mp hleft
    simp [residuals] at hmiddle
  | cons head rest ih =>
    by_cases hstar : head = '*'
    · subst head
      exact (mem_iterate_allResiduals_succ count).mpr ⟨_, List.mem_cons_self, hleft⟩
    · obtain ⟨count, rfl⟩ := Nat.exists_eq_add_of_lt (Nat.zero_lt_of_lt hlong)
      obtain ⟨middle, hmiddle, hleft⟩ := (mem_iterate_allResiduals_succ _).mp hleft
      apply (mem_iterate_allResiduals_succ _).mpr
      by_cases hany : head = '?'
      · subst head
        cases List.mem_singleton.mp hmiddle
        exact ⟨_, List.mem_singleton_self _, ih _ (by simpa using hlong) hleft⟩
      · simp [residuals_char hstar hany, unspelled] at hmiddle

theorem mem_iterate_allResiduals_of_le {bound : Nat} (hbound : patterns.flatten.length < bound)
    (hle : bound ≤ count) (hleft : left ∈ (allResiduals unspelled)^[bound] patterns) :
    left ∈ (allResiduals unspelled)^[count] patterns := by
  obtain ⟨pattern, hpattern, hleft⟩ := (mem_iterate_allResiduals bound).mp hleft
  apply (mem_iterate_allResiduals count).mpr
  refine ⟨pattern, hpattern, ?_⟩
  have hlength := (List.sublist_flatten_of_mem hpattern).length_le
  induction count, hle using Nat.le_induction with
  | base => exact hleft
  | succ count hle ih => exact iterate_allResiduals_grows count (by omega) ih

end Iterated

theorem exists_match_of_allResiduals {char : Char} {text : Text}
    (hleft : left ∈ allResiduals spells patterns)
    (hspells : ∀ pattern, residuals spells pattern ⊆ residuals (spelling char) pattern)
    (hmatch : wildcardMatch left text = true) :
    ∃ pattern ∈ patterns, wildcardMatch pattern (char :: text) = true := by
  obtain ⟨pattern, hpattern, hresidual⟩ := mem_allResiduals.mp hleft
  refine ⟨pattern, hpattern, ?_⟩
  exact (wildcardMatch_cons pattern char text).mpr ⟨left, hspells pattern hresidual, hmatch⟩

theorem exists_match_of_iterate {text : Text} (lead : Text)
    (hleft : left ∈ (allResiduals unspelled)^[lead.length] patterns)
    (hmatch : wildcardMatch left text = true) :
    ∃ pattern ∈ patterns, wildcardMatch pattern (lead ++ text) = true := by
  induction lead generalizing patterns with
  | nil => exact ⟨left, hleft, hmatch⟩
  | cons char lead ih =>
    obtain ⟨middle, hmiddle, hmatch⟩ := ih hleft
    exact exists_match_of_allResiduals hmiddle (fun _ _ => residuals_unspelled_subset) hmatch

theorem exists_allResiduals_of_match {char : Char} {text : Text}
    (hmatch : ∃ pattern ∈ patterns, wildcardMatch pattern (char :: text) = true) :
    ∃ left ∈ allResiduals (spelling char) patterns, wildcardMatch left text = true := by
  obtain ⟨pattern, hpattern, hmatch⟩ := hmatch
  obtain ⟨left, hleft, hmatch⟩ := (wildcardMatch_cons pattern char text).mp hmatch
  exact ⟨left, mem_allResiduals.mpr ⟨pattern, hpattern, hleft⟩, hmatch⟩

section Spared

variable {char : Char} (hspares : Spares char patterns)
include hspares

theorem exists_unspelled_of_match {text : Text}
    (hmatch : ∃ pattern ∈ patterns, wildcardMatch pattern (char :: text) = true) :
    ∃ left ∈ allResiduals unspelled patterns, wildcardMatch left text = true := by
  obtain ⟨left, hleft, hmatch⟩ := exists_allResiduals_of_match hmatch
  obtain ⟨pattern, hpattern, hresidual⟩ := mem_allResiduals.mp hleft
  rw [residuals_of_spared (hspares pattern hpattern)] at hresidual
  exact ⟨left, mem_allResiduals.mpr ⟨pattern, hpattern, hresidual⟩, hmatch⟩

theorem exists_iterate_of_match {text : Text} (count : Nat)
    (hmatch : ∃ pattern ∈ patterns,
      wildcardMatch pattern (List.replicate count char ++ text) = true) :
    ∃ left ∈ (allResiduals unspelled)^[count] patterns, wildcardMatch left text = true := by
  induction count generalizing patterns with
  | zero => exact hmatch
  | succ count ih =>
    exact ih (spares_allResiduals hspares) (exists_unspelled_of_match hspares hmatch)

theorem spares_iterate (count : Nat) :
    Spares char ((allResiduals unspelled)^[count] patterns) := by
  induction count generalizing patterns with
  | zero => exact hspares
  | succ count ih => exact ih (spares_allResiduals hspares)

end Spared

theorem wildcardCovers_star (rest : Text) (patterns : List Text) :
    wildcardCovers ('*' :: rest) patterns = true ↔
      ∀ count < patterns.flatten.length + 2,
        wildcardCovers rest ((allResiduals unspelled)^[count] patterns) = true := by
  simp [wildcardCovers]

theorem wildcardCovers_char {char : Char} (hstar : char ≠ '*') (hany : char ≠ '?') (rest : Text)
    (patterns : List Text) :
    wildcardCovers (char :: rest) patterns =
      wildcardCovers rest (allResiduals (spelling char) patterns) := by
  simp [wildcardCovers]

/-- What the walk covers is contained in the patterns. -/
theorem exists_match_of_covers (hcovers : wildcardCovers pattern patterns = true) {text : Text}
    (hmatch : wildcardMatch pattern text = true) :
    ∃ cover ∈ patterns, wildcardMatch cover text = true := by
  induction pattern generalizing patterns text with
  | nil =>
    cases List.isEmpty_iff.mp hmatch
    simpa [wildcardCovers] using hcovers
  | cons char rest ih =>
    by_cases hstar : char = '*'
    · subst char
      obtain ⟨lead, tail, rfl, htail⟩ := (wildcardMatch_star rest text).mp hmatch
      rw [wildcardCovers_star] at hcovers
      by_cases hshort : lead.length < patterns.flatten.length + 2
      · obtain ⟨left, hleft, hmatch⟩ := ih (hcovers _ hshort) htail
        exact exists_match_of_iterate lead hleft hmatch
      · obtain ⟨left, hleft, hmatch⟩ := ih (hcovers _ (Nat.lt_succ_self _)) htail
        apply exists_match_of_iterate lead _ hmatch
        exact mem_iterate_allResiduals_of_le _ (Nat.lt_succ_self _) (by omega) hleft
    · by_cases hany : char = '?'
      · subst char
        obtain ⟨head, text, rfl, hmatch⟩ := (wildcardMatch_any rest text).mp hmatch
        obtain ⟨left, hleft, hmatch⟩ := ih hcovers hmatch
        exact exists_match_of_allResiduals hleft (fun _ _ => residuals_unspelled_subset) hmatch
      · obtain ⟨head, text, rfl, hlower, hmatch⟩ :=
          (wildcardMatch_char hstar hany rest text).mp hmatch
        rw [wildcardCovers_char hstar hany] at hcovers
        obtain ⟨left, hleft, hmatch⟩ := ih hcovers hmatch
        have hspelling : spelling char = spelling head := by
          funext other
          simp [spelling, hlower]
        rw [hspelling] at hleft
        exact exists_match_of_allResiduals hleft (fun _ => List.Subset.refl _) hmatch

/-- What is contained in the patterns, the walk covers, if there is a
character that no pattern spells. -/
theorem covers_of_contained {fresh : Char} (hspares : Spares fresh patterns)
    (hcontained : ∀ text, wildcardMatch pattern text = true →
      ∃ cover ∈ patterns, wildcardMatch cover text = true) :
    wildcardCovers pattern patterns = true := by
  induction pattern generalizing patterns with
  | nil => simpa [wildcardCovers] using hcontained [] rfl
  | cons char rest ih =>
    by_cases hstar : char = '*'
    · subst char
      rw [wildcardCovers_star]
      intro count _
      apply ih (spares_iterate hspares count)
      intro text hmatch
      apply exists_iterate_of_match hspares count
      exact hcontained _ ((wildcardMatch_star rest _).mpr ⟨_, text, rfl, hmatch⟩)
    · by_cases hany : char = '?'
      · subst char
        apply ih (spares_allResiduals hspares)
        intro text hmatch
        apply exists_unspelled_of_match hspares
        exact hcontained _ ((wildcardMatch_any rest _).mpr ⟨fresh, text, rfl, hmatch⟩)
      · rw [wildcardCovers_char hstar hany]
        apply ih (spares_allResiduals hspares)
        intro text hmatch
        apply exists_allResiduals_of_match
        exact hcontained _
          ((wildcardMatch_char hstar hany rest _).mpr ⟨char, text, rfl, rfl, hmatch⟩)

end Hexa
