/-
A journal of changes that can be made again and taken back.
-/
import Mathlib

namespace Hexa

structure Journal (State Change : Type) where
  redo : Change → State → State
  undo : Change → State → State

namespace Journal

variable {State Change : Type} (journal : Journal State Change)

def replay (changes : List Change) (state : State) : State :=
  changes.foldl (fun state change => journal.redo change state) state

/-- The last change is taken back first. -/
def rollBack (changes : List Change) (state : State) : State := changes.foldr journal.undo state

/-- The changes lead from the first state to the second, and back. -/
structure Records (changes : List Change) (first second : State) : Prop where
  replay_eq : journal.replay changes first = second
  rollBack_eq : journal.rollBack changes second = first

variable {journal}

theorem Records.nil (state : State) : journal.Records [] state state := ⟨rfl, rfl⟩

theorem Records.singleton {change : Change} {first second : State}
    (hredo : journal.redo change first = second) (hundo : journal.undo change second = first) :
    journal.Records [change] first second :=
  ⟨hredo, hundo⟩

theorem Records.append {changes more : List Change} {first second third : State}
    (hfirst : journal.Records changes first second)
    (hsecond : journal.Records more second third) :
    journal.Records (changes ++ more) first third where
  replay_eq := by
    rw [replay, List.foldl_append, ← replay, ← replay, hfirst.replay_eq, hsecond.replay_eq]
  rollBack_eq := by
    rw [rollBack, List.foldr_append, ← rollBack, ← rollBack,
      hsecond.rollBack_eq, hfirst.rollBack_eq]

end Journal

end Hexa
