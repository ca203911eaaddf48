/-
Cutting a list into consecutive pieces of bounded length, the way a byte
stream is cut into records.
-/
import Mathlib

namespace Hexa

universe u

variable {α : Type u}

/-- Consecutive pieces of length `size`, the last one possibly shorter.  An
empty list has no pieces. -/
def chunks (size : Nat) (items : List α) : List (List α) :=
  if _hstop : items = [] ∨ size = 0 then []
  else items.take size :: chunks size (items.drop size)
termination_by items.length
decreasing_by
  simp only [not_or] at _hstop
  have hpos : 0 < items.length := List.length_pos_iff.mpr _hstop.1
  simp only [List.length_drop]
  omega

@[simp]
theorem chunks_nil (size : Nat) : chunks size ([] : List α) = [] := by
  rw [chunks]
  simp

theorem chunks_of_ne_nil {size : Nat} {items : List α} (hsize : 0 < size) (hitems : items ≠ []) :
    chunks size items = items.take size :: chunks size (items.drop size) := by
  rw [chunks, dif_neg]
  simp only [not_or]
  exact ⟨hitems, Nat.ne_of_gt hsize⟩

/-- Every piece respects the bound. -/
theorem length_le_of_mem_chunks {size : Nat} {items : List α} {piece : List α}
    (hpiece : piece ∈ chunks size items) : piece.length ≤ size := by
  induction items using chunks.induct size with
  | case1 items hstop =>
    rw [chunks, dif_pos hstop] at hpiece
    simp at hpiece
  | case2 items hgo ih =>
    rw [chunks, dif_neg hgo, List.mem_cons] at hpiece
    rcases hpiece with rfl | hpiece
    · exact List.length_take_le size items
    · exact ih hpiece

/-- Putting the pieces back in order restores the list. -/
theorem flatten_chunks {size : Nat} (hsize : 0 < size) (items : List α) :
    (chunks size items).flatten = items := by
  induction items using chunks.induct size with
  | case1 items hstop =>
    rcases hstop with rfl | hzero
    · simp
    · omega
  | case2 items hgo ih => rw [chunks, dif_neg hgo, List.flatten_cons, ih, List.take_append_drop]

end Hexa
