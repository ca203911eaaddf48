/-
Replacing a word in a list by another: where the new word cannot be confused
with a third one, no occurrence of that is made, and none of the old is left.
-/
import Mathlib

namespace Hexa

open List

universe u

variable {Letter : Type u}

/-- Neither word is a part of the other, and no end of one is a beginning of
the other. -/
structure WordsApart (first second : List Letter) : Prop where
  notPart : ¬ first <:+: second
  notWhole : ¬ second <:+: first
  endNotStart : ∀ shared, shared ≠ [] → shared <:+ first → ¬ shared <+: second
  startNotEnd : ∀ shared, shared ≠ [] → shared <+: first → ¬ shared <:+ second

/-- A word that is apart from another stands before or after it. -/
theorem WordsApart.infix_append {new word left right : List Letter} (hapart : WordsApart new word)
    (hword : word <:+: left ++ (new ++ right)) : word <:+: left ∨ word <:+: right := by
  rcases infix_append_iff.mp hword with hleft | hrest | hsplit
  · exact .inl hleft
  · rcases infix_append_iff.mp hrest with hnew | hright | hsplit
    · exact absurd hnew hapart.notWhole
    · exact .inr hright
    · obtain ⟨before, after, rfl, hbefore, hafter⟩ := hsplit
      by_cases hnil : before = []
      · rw [hnil]
        exact .inr hafter.isInfix
      · exact absurd (prefix_append before after) (hapart.endNotStart before hnil hbefore)
  · obtain ⟨before, after, rfl, hbefore, hafter⟩ := hsplit
    by_cases hnil : after = []
    · rw [hnil, append_nil]
      exact .inl hbefore.isInfix
    · rcases prefix_or_prefix_of_prefix hafter (prefix_append new right) with hshort | hlong
      · exact absurd (suffix_append before after) (hapart.startNotEnd after hnil hshort)
      · exact absurd (hlong.isInfix.trans (suffix_append _ _).isInfix) hapart.notPart

variable [DecidableEq Letter]

instance (first second : List Letter) : Decidable (WordsApart first second) :=
  decidable_of_iff (¬ first <:+: second ∧ ¬ second <:+: first ∧
      (∀ shared ∈ first.tails, shared ≠ [] → ¬ shared <+: second) ∧
      ∀ shared ∈ first.inits, shared ≠ [] → ¬ shared <:+ second) (by
    simp only [mem_tails, mem_inits]
    constructor
    · rintro ⟨hpart, hwhole, hend, hstart⟩
      exact ⟨hpart, hwhole, fun shared hne hshared => hend shared hshared hne,
        fun shared hne hshared => hstart shared hshared hne⟩
    · rintro ⟨hpart, hwhole, hend, hstart⟩
      exact ⟨hpart, hwhole, fun shared hshared hne => hend shared hne hshared,
        fun shared hshared hne => hstart shared hne hshared⟩)

/-- The text without its first letters, where the old word is replaced from
left to right. -/
def replaceFrom (old new : List Letter) : Nat → List Letter → List Letter
  | _, [] => []
  | skipped + 1, _ :: rest => replaceFrom old new skipped rest
  | 0, letter :: rest =>
    if old <+: letter :: rest then new ++ replaceFrom old new (old.length - 1) rest
    else letter :: replaceFrom old new 0 rest

/-- Every occurrence of a word that is not empty is replaced; occurrences that
overlap with one before are left. -/
def replaceWord (old new text : List Letter) : List Letter := replaceFrom old new 0 text

variable {old new word : List Letter}

theorem infix_of_infix_replaceFrom (hapart : WordsApart new word) {skipped : Nat}
    {kept text : List Letter} (hword : word <:+: kept ++ replaceFrom old new skipped text) :
    word <:+: kept ++ text.drop skipped := by
  fun_induction replaceFrom old new skipped text generalizing kept with
  | case1 skipped => simpa using hword
  | case2 skipped letter rest ih => exact ih hword
  | case3 letter rest hold ih =>
    rcases hapart.infix_append hword with hkept | hrest
    · exact hkept.trans (prefix_append _ _).isInfix
    · have hdropped := @ih [] hrest
      refine hdropped.trans (List.IsSuffix.isInfix ?_)
      exact (drop_suffix _ rest).trans ((suffix_cons letter rest).trans (suffix_append _ _))
  | case4 letter rest hold ih =>
    rw [append_cons] at hword
    rw [drop_zero, append_cons]
    exact ih hword

/-- The replacement makes no new occurrence of a word. -/
theorem infix_of_infix_replaceWord (hapart : WordsApart new word) {text : List Letter}
    (hword : word <:+: replaceWord old new text) : word <:+: text :=
  @infix_of_infix_replaceFrom _ _ old new word hapart 0 [] text hword

/-- What has been kept so far does not begin an occurrence of the old word. -/
theorem not_infix_replaceFrom (hapart : WordsApart new old) {skipped : Nat}
    {kept text : List Letter}
    (hkept : ∀ tail, tail ≠ [] → tail <:+ kept → ¬ old <+: tail ++ text.drop skipped) :
    ¬ old <:+: kept ++ replaceFrom old new skipped text := by
  have hne : old ≠ [] := fun hnil => hapart.notWhole (hnil ▸ nil_infix)
  -- An occurrence in what was kept begins there.
  have hpart : ∀ (kept rest : List Letter), (∀ tail, tail ≠ [] →
      tail <:+ kept → ¬ old <+: tail ++ rest) → ¬ old <:+: kept := by
    intro kept rest hnone hinfix
    obtain ⟨tail, hstart, hend⟩ := infix_iff_prefix_suffix.mp hinfix
    refine hnone tail ?_ hend (hstart.trans (prefix_append _ _))
    rintro rfl
    exact hne (prefix_nil.mp hstart)
  fun_induction replaceFrom old new skipped text generalizing kept with
  | case1 skipped =>
    rw [append_nil]
    exact hpart kept _ hkept
  | case2 skipped letter rest ih => exact ih hkept
  | case3 letter rest hold ih =>
    intro hinfix
    rcases hapart.infix_append hinfix with hleft | hrest
    · exact hpart kept _ hkept hleft
    · refine @ih [] (fun tail hnil hsuffix => ?_) hrest
      exact absurd (suffix_nil.mp hsuffix) hnil
  | case4 letter rest hold ih =>
    rw [append_cons]
    apply ih
    intro tail hnil hsuffix hstart
    rcases suffix_concat_iff.mp hsuffix with rfl | ⟨front, rfl, hfront⟩
    · exact hnil rfl
    · rw [append_assoc] at hstart
      by_cases hempty : front = []
      · rw [hempty] at hstart
        exact hold hstart
      · exact hkept front hempty hfront hstart

/-- No occurrence of the old word is left. -/
theorem not_infix_replaceWord (hapart : WordsApart new old) (text : List Letter) :
    ¬ old <:+: replaceWord old new text := by
  refine @not_infix_replaceFrom _ _ old new hapart 0 [] text ?_
  intro tail hnil hsuffix
  exact absurd (suffix_nil.mp hsuffix) hnil

/-- Where there was an occurrence, the new word stands now. -/
theorem infix_replaceWord (hne : old ≠ []) {text : List Letter} (hold : old <:+: text) :
    new <:+: replaceWord old new text := by
  rw [replaceWord]
  induction text with
  | nil => exact absurd (infix_nil.mp hold) hne
  | cons letter rest ih =>
    rw [replaceFrom]
    split_ifs with hstart
    · exact (prefix_append _ _).isInfix
    · rcases infix_cons_iff.mp hold with hhere | hthere
      · exact absurd hhere hstart
      · exact (ih hthere).trans (suffix_cons _ _).isInfix

end Hexa
