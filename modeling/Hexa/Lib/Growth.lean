/-
Lists that grow at their end: elements are added, and only the last one may
itself grow.
-/
import Mathlib

namespace Hexa

universe u

variable {α : Type u} {grows : α → α → Prop} {first second third : List α}

/-- All elements but the last one are kept, and the last one has grown. -/
def LastGrows (grows : α → α → Prop) (before after : List α) : Prop :=
  ∀ init last, before = init ++ [last] →
    ∃ next rest, after = init ++ next :: rest ∧ grows last next

theorem lastGrows_append (hrefl : ∀ item, grows item item) (before added : List α) :
    LastGrows grows before (before ++ added) := by
  rintro init last rfl
  exact ⟨last, added, by simp, hrefl last⟩

theorem lastGrows_setLast {item next : α} (hlast : first.getLast? = some item)
    (hgrows : grows item next) : LastGrows grows first (first.dropLast ++ [next]) := by
  rintro init last rfl
  obtain rfl : last = item := by simpa using hlast
  exact ⟨next, [], by simp, hgrows⟩

theorem LastGrows.trans
    (htrans : ∀ {first second third}, grows first second → grows second third → grows first third)
    (hfirst : LastGrows grows first second) (hsecond : LastGrows grows second third) :
    LastGrows grows first third := by
  intro init last hinit
  obtain ⟨next, rest, hrest, hgrows⟩ := hfirst init last hinit
  rcases List.eq_nil_or_concat rest with rfl | ⟨front, final, rfl⟩
  · obtain ⟨later, others, hothers, hlater⟩ := hsecond init next hrest
    exact ⟨later, others, hothers, htrans hgrows hlater⟩
  · obtain ⟨later, others, hothers, -⟩ := hsecond (init ++ next :: front) final (by simp [hrest])
    exact ⟨next, front ++ later :: others, by simp [hothers], hgrows⟩

end Hexa
