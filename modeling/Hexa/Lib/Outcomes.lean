/-
What a computation that may fail leaves behind, on both of its ways out, and
how that goes through a sequence of such computations.
-/
import Mathlib

namespace Hexa

universe u v w

variable {Error : Type u} {Result : Type v} {Next : Type w}

/-- The result has the one property, or the error the other. -/
def Ensures (onError : Error → Prop) (onOk : Result → Prop) :
    Except Error Result → Prop
  | .ok result => onOk result
  | .error error => onError error

variable {onError : Error → Prop} {onOk : Result → Prop}

theorem Ensures.bind {Result Next : Type v} {onOk : Result → Prop} {onNext : Next → Prop}
    {outcome : Except Error Result} {next : Result → Except Error Next}
    (houtcome : Ensures onError onOk outcome)
    (hnext : ∀ result, onOk result → Ensures onError onNext (next result)) :
    Ensures onError onNext (outcome >>= next) := by
  cases outcome with
  | ok result => exact hnext result houtcome
  | error error => exact houtcome

section

variable {outcome : Except Error Result} (houtcome : Ensures onError onOk outcome)
include houtcome

theorem Ensures.map {onNext : Next → Prop} {next : Result → Next} (hnext : ∀
    result, onOk result → onNext (next result)) : Ensures onError onNext (outcome.map next) := by
  cases outcome with
  | ok result => exact hnext result houtcome
  | error error => exact houtcome

theorem Ensures.imp {onError' : Error → Prop} {onOk' : Result → Prop}
    (herror : ∀ error, onError error → onError' error)
    (hok : ∀ result, onOk result → onOk' result) : Ensures onError' onOk' outcome := by
  cases outcome with
  | ok result => exact hok result houtcome
  | error error => exact herror error houtcome

end

/-- What every step of a loop that may fail keeps holds at its end. -/
theorem foldlM_keeps {State : Type u} {Item : Type v}
    {property : State → Prop} {step : State → Item → Option State} {items : List Item}
    (hkeeps : ∀ state item next, item ∈ items →
      step state item = some next → property state → property next)
    {state last : State} (hfold : items.foldlM step state = some last)
    (hstate : property state) : property last := by
  induction items generalizing state with
  | nil =>
    obtain rfl := Option.some.inj hfold
    exact hstate
  | cons item items ih =>
    obtain ⟨next, hnext, hrest⟩ := Option.bind_eq_some_iff.mp hfold
    refine ih ?_ hrest (hkeeps state item next List.mem_cons_self hnext hstate)
    exact fun state item next hmem => hkeeps state item next (List.mem_cons_of_mem _ hmem)

end Hexa
