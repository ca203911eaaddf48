/-
Searching a delimiter in a text that arrives in pieces.  The first occurrence
in what has arrived stays the first one, and where there is none yet, a
beginning of the delimiter at the end is all that has to be kept.
-/
import Hexa.Lib.RustStr

namespace Hexa

open List Option

/-- The longest proper prefix of a delimiter, of at most `bound` characters,
with which a text ends. -/
def longestSuffixPrefixFrom (text delimiter : Text) : Nat → Nat
  | 0 => 0
  | bound + 1 =>
    if (delimiter.take (bound + 1)).isSuffixOf text then bound + 1
    else longestSuffixPrefixFrom text delimiter bound

def longestSuffixPrefixLen (text delimiter : Text) : Nat :=
  longestSuffixPrefixFrom text delimiter (min text.length (delimiter.length - 1))

/-- How much of a text without the delimiter can be given out: all but what
may begin one. -/
def givenLen (text delimiter : Text) : Nat := text.length - longestSuffixPrefixLen text delimiter

variable {text delimiter : Text}

theorem longestSuffixPrefixFrom_max {count : Nat} (hsuffix : delimiter.take count <:+ text)
    {bound : Nat} (hbound : count ≤ bound) :
    count ≤ longestSuffixPrefixFrom text delimiter bound := by
  induction bound with
  | zero => exact hbound
  | succ bound ih =>
    rw [longestSuffixPrefixFrom]
    split_ifs with hfound
    · exact hbound
    · apply ih
      rcases Nat.lt_or_eq_of_le hbound with hlt | rfl
      · exact Nat.le_of_lt_succ hlt
      · exact absurd (isSuffixOf_iff_suffix.mpr hsuffix) hfound

theorem splitOnce_cons_of_start {char : Char} (hleading : delimiter <+: char :: text) :
    splitOnce delimiter (char :: text) = some ([], (char :: text).drop delimiter.length) := by
  rw [splitOnce, if_pos ( isPrefixOf_iff_prefix.mpr hleading)]

theorem splitOnce_cons_of_not_start {char : Char} (hleading : ¬delimiter <+: char :: text) :
    splitOnce delimiter (char :: text) =
      (splitOnce delimiter text).map (fun parts => (char :: parts.1, parts.2)) := by
  rw [splitOnce, if_neg (fun hfound => hleading ( isPrefixOf_iff_prefix.mp hfound))]

theorem splitOnce_start (hne : delimiter ≠ []) (rest : Text) :
    splitOnce delimiter (delimiter ++ rest) = some ([], rest) := by
  cases delimiter with
  | nil => exact absurd rfl hne
  | cons char tail =>
    rw [cons_append, splitOnce_cons_of_start ⟨rest, rfl⟩, ← cons_append, drop_left]

/-- Without a first occurrence there is none at all. -/
theorem splitOnce_eq_none (hnone : splitOnce delimiter text = none) : ¬delimiter <:+: text := by
  induction text with
  | nil =>
    intro hinfix
    rw [infix_nil.mp hinfix] at hnone
    simp [splitOnce] at hnone
  | cons char text ih =>
    by_cases hleading : delimiter <+: char :: text
    · rw [splitOnce_cons_of_start hleading] at hnone
      cases hnone
    · rw [splitOnce_cons_of_not_start hleading, map_eq_none_iff] at hnone
      intro hinfix
      rcases infix_cons_iff.mp hinfix with hfound | hfound
      · exact hleading hfound
      · exact ih hnone hfound

/-- The first occurrence stays the first when more text arrives. -/
theorem splitOnce_append {before after : Text}
    (hfound : splitOnce delimiter text = some (before, after)) (hne : delimiter ≠ [])
    (rest : Text) : splitOnce delimiter (text ++ rest) = some (before, after ++ rest) := by
  induction text generalizing before with
  | nil => simp [splitOnce, hne] at hfound
  | cons char text ih =>
    by_cases hleading : delimiter <+: char :: text
    · rw [splitOnce_cons_of_start hleading] at hfound
      obtain ⟨rfl, rfl⟩ := hfound
      have hlonger : delimiter <+: char :: (text ++ rest) :=
        hleading.trans (prefix_append (char :: text) rest)
      rw [cons_append, splitOnce_cons_of_start hlonger,
        ← cons_append, drop_append_of_le_length hleading.length_le]
    · rw [splitOnce_cons_of_not_start hleading] at hfound
      obtain ⟨⟨front, tail⟩, htext, hparts⟩ := map_eq_some_iff.mp hfound
      obtain ⟨rfl, rfl⟩ := Prod.mk.inj hparts
      -- An occurrence at the front would end within the old text.
      have hlonger : ¬delimiter <+: char :: (text ++ rest) := by
        intro hfront
        apply hleading
        apply prefix_of_prefix_length_le hfront (prefix_append (char :: text) rest)
        have hlength := congrArg List.length (splitOnce_eq_some htext)
        simp only [length_append] at hlength
        simp only [length_cons]
        omega
      rw [cons_append, splitOnce_cons_of_not_start hlonger, ih htext]
      rfl

/-- Nothing starts in the part of a text that is given out. -/
theorem splitOnce_append_of_no_start {given rest : Text}
    (hstart : ∀ suffix, suffix <:+ given → suffix ≠ [] → ¬delimiter <+: suffix ++ rest) :
    splitOnce delimiter (given ++ rest) =
      (splitOnce delimiter rest).map (fun parts => (given ++ parts.1, parts.2)) := by
  induction given with
  | nil => cases hrest : splitOnce delimiter rest <;> simp [hrest]
  | cons char given ih =>
    have hnot := hstart (char :: given) suffix_rfl (by simp)
    rw [cons_append] at hnot ⊢
    rw [splitOnce_cons_of_not_start hnot,
      ih (fun suffix hsuffix => hstart suffix (hsuffix.trans (suffix_cons char given))),
      Option.map_map]
    rfl

/-- A text without the delimiter can be given out but for the suffix that may
begin one, or for more than that. -/
theorem splitOnce_append_of_kept (hnone : splitOnce delimiter text = none) {count : Nat}
    (hcount : count ≤ givenLen text delimiter) (rest : Text) :
    splitOnce delimiter (text ++ rest) =
      (splitOnce delimiter (text.drop count ++ rest)).map
        (fun parts => (text.take count ++ parts.1, parts.2)) := by
  have hsplit : text ++ rest = text.take count ++ (text.drop count ++ rest) := by
    rw [← append_assoc, take_append_drop]
  rw [hsplit]
  apply splitOnce_append_of_no_start
  intro suffix hsuffix hne hleading
  -- What starts in the given part ends behind the text, so it is too long a
  -- beginning of the delimiter.
  have hwhole : suffix ++ text.drop count <:+ text := by
    obtain ⟨front, hfront⟩ := hsuffix
    exact ⟨front, by rw [← append_assoc, hfront, take_append_drop]⟩
  rw [← append_assoc] at hleading
  rcases Nat.lt_or_ge (suffix ++ text.drop count).length delimiter.length with hlt | hge
  · have hbegins : suffix ++ text.drop count <+: delimiter :=
      prefix_of_prefix_length_le (prefix_append _ rest) hleading hlt.le
    have hlength := hwhole.length_le
    have hle : _ ≤ longestSuffixPrefixLen text delimiter :=
      longestSuffixPrefixFrom_max (by rwa [← prefix_iff_eq_take.mp hbegins]) (by omega)
    have hgiven := hsuffix.length_le
    have hpos := length_pos_iff.mpr hne
    simp only [length_append, length_drop, length_take] at hle hgiven
    rw [givenLen] at hcount
    omega
  · have hwithin : delimiter <+: suffix ++ text.drop count :=
      prefix_of_prefix_length_le hleading (prefix_append _ rest) hge
    exact splitOnce_eq_none hnone (hwithin.isInfix.trans hwhole.isInfix)

theorem splitOnce_drop_of_kept (hnone : splitOnce delimiter text = none) {count : Nat}
    (hcount : count ≤ givenLen text delimiter) :
    splitOnce delimiter (text.drop count) = none := by
  have hkept := splitOnce_append_of_kept hnone hcount []
  rw [append_nil, append_nil, hnone] at hkept
  exact map_eq_none_iff.mp hkept.symm

/-- The first occurrence ends a text that is cut behind it. -/
theorem splitOnce_cut {before after : Text} (hne : delimiter ≠ [])
    (hfound : splitOnce delimiter text = some (before, after)) :
    splitOnce delimiter (before ++ delimiter) = some (before, []) := by
  have htext := splitOnce_eq_some hfound
  cases hcut : splitOnce delimiter (before ++ delimiter) with
  | none => exact absurd (suffix_append before delimiter).isInfix (splitOnce_eq_none hcut)
  | some parts =>
    obtain ⟨front, back⟩ := parts
    have hlonger := splitOnce_append hcut hne after
    rw [← htext, hfound] at hlonger
    obtain ⟨rfl, -⟩ := Prod.mk.inj (some.inj hlonger)
    have hback := splitOnce_eq_some hcut
    rw [self_eq_append_right] at hback
    rw [hback]

end Hexa
