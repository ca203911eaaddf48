/-
Runs of a labelled transition system, and the rules by which a property of
one step becomes a property of every run.
-/
import Mathlib

namespace Hexa

open List Option

universe u v

variable {State : Type u} {Label : Type v}

/-- A run with the labels of its steps, in order. -/
inductive Run (step : State → Label → State → Prop) :
    State → List Label → State → Prop where
  | nil (state : State) : Run step state [] state
  | cons {first second last : State} {label : Label} {labels : List Label}
      (hstep : step first label second) (hrest : Run step second labels last) :
      Run step first (label :: labels) last

/-- The steps that meet a condition on the state before them. -/
def Guarded (step : State → Label → State → Prop) (condition : State → Label → Prop)
    (first : State) (label : Label) (second : State) : Prop :=
  step first label second ∧ condition first label

variable {step : State → Label → State → Prop} {first second last : State} {label : Label}
  {labels : List Label} {property : State → Prop} {condition : State → Label → Prop}

theorem Run.append {before after : List Label} (hbefore : Run step first before second)
    (hafter : Run step second after last) : Run step first (before ++ after) last := by
  induction hbefore with
  | nil state => exact hafter
  | cons hstep hrest ih => exact Run.cons hstep (ih hafter)

theorem Run.single (hstep : step first label second) : Run step first [label] second :=
  Run.cons hstep (Run.nil second)

/-- The state after a list of labels, if every one of them can be taken. -/
def performAll (perform : State → Label → Option State) :
    State → List Label → Option State
  | state, [] => some state
  | state, label :: labels =>
    (perform state label).bind (fun next => performAll perform next labels)

variable {perform : State → Label → Option State}

theorem Run.of_performAll (hall : performAll perform first labels = some last) :
    Run (fun state label next => perform state label = some next) first labels last := by
  induction labels generalizing first with
  | nil =>
    obtain rfl := Option.some.inj hall
    exact Run.nil _
  | cons label labels ih =>
    obtain ⟨next, hnext, hrest⟩ := bind_eq_some_iff.mp hall
    exact Run.cons hnext (ih hrest)

theorem Run.guarded_of_performAll [∀ state label, Decidable (condition state label)]
    (hall : performAll (fun state label =>
      if condition state label then perform state label else none) first
      labels = some last) :
    Run (Guarded (fun state label next => perform state label = some next)
      condition) first labels last := by
  induction labels generalizing first with
  | nil =>
    obtain rfl := Option.some.inj hall
    exact Run.nil _
  | cons label labels ih =>
    obtain ⟨next, hnext, hrest⟩ := bind_eq_some_iff.mp hall
    obtain ⟨hcondition, hstep⟩ := ite_none_right_eq_some.mp hnext
    exact Run.cons ⟨hstep, hcondition⟩ (ih hrest)

/-- A run of guarded steps is a run. -/
theorem Run.unguarded (hrun : Run (Guarded step condition) first labels last) :
    Run step first labels last := by
  induction hrun with
  | nil state => exact Run.nil state
  | cons hstep hrest ih => exact Run.cons hstep.1 ih

/-- What every step with an admitted label keeps holds after every run of such
steps. -/
theorem Run.keeps {admitted : Label → Prop}
    (hkeeps : ∀ first label second, step first label second →
      admitted label → property first → property second)
    {first last : State} {labels : List Label}
    (hrun : Run step first labels last)
    (hadmitted : ∀ label ∈ labels, admitted label)
    (hfirst : property first) : property last := by
  induction hrun with
  | nil state => exact hfirst
  | cons hstep hrest ih =>
    have hhead := hadmitted _ mem_cons_self
    apply ih (fun label hmem => hadmitted label (mem_cons_of_mem _ hmem))
    exact hkeeps _ _ _ hstep hhead hfirst

/-- An invariant of the steps holds in every state that a run reaches. -/
theorem Run.invariant
    (hkeeps : ∀ first label second, step first label second → property first → property second)
    {first last : State} {labels : List Label} (hrun : Run step first labels last)
    (hfirst : property first) : property last := by
  induction hrun with
  | nil state => exact hfirst
  | cons hstep hrest ih => exact ih (hkeeps _ _ _ hstep hfirst)

/-- Where a stronger property is kept by every step that meets the condition,
and a step that does not meet it breaks the weaker one, the weaker one holds
all along a run exactly if every step meets the condition. -/
theorem Run.always_iff_guarded_of_strong {strong : State → Prop}
    (hdeterministic : ∀ state label first second, step state label first →
      step state label second → first = second)
    (hweaken : ∀ state, strong state → property state)
    (hneeds : ∀ first label second, step first label second →
      strong first → property second → condition first label)
    (hkeeps : ∀ first label second, step first label second →
      strong first → condition first label → strong second)
    (hrun : Run step first labels last) (hfirst : strong first) :
    (∀ before state, before <+: labels → Run step first before state → property state) ↔
      Run (Guarded step condition) first labels last := by
  induction hrun with
  | nil state =>
    refine ⟨fun _ => Run.nil state, fun _ before other hbefore hother => ?_⟩
    obtain rfl := prefix_nil.mp hbefore
    cases hother
    exact hweaken _ hfirst
  | @cons first second last label labels hstep hrest ih =>
    constructor
    · intro halways
      have hcondition := hneeds _ _ _ hstep hfirst
        (halways [label] second ⟨labels, rfl⟩ (Run.single hstep))
      refine Run.cons ⟨hstep, hcondition⟩
        ((ih (hkeeps _ _ _ hstep hfirst hcondition)).mp fun before state hbefore hstate => ?_)
      exact halways (label :: before) state
        (cons_prefix_cons.mpr ⟨rfl, hbefore⟩) (Run.cons hstep hstate)
    · intro hguarded before state hbefore hstate
      cases hguarded with
    | cons hhead htail =>
      obtain rfl := hdeterministic _ _ _ _ hstep hhead.1
      cases hstate with
      | nil => exact hweaken _ hfirst
      | cons hbegin hstate =>
        obtain ⟨rfl, hrest⟩ := cons_prefix_cons.mp hbefore
        obtain rfl := hdeterministic _ _ _ _ hstep hbegin
        exact (ih (hkeeps _ _ _ hstep hfirst hhead.2)).mpr htail _ _ hrest hstate

/-- Where a step keeps a property exactly if it meets the condition, the
property holds all along a run exactly if every step meets the condition. -/
theorem Run.always_iff_guarded {invariant : State → Prop}
    (hdeterministic : ∀ state label first second, step state label first →
      step state label second → first = second)
    (hinvariant : ∀ first label second, step first label second →
      invariant first → invariant second)
    (hexact : ∀ first label second, step first label second →
      invariant first → property first →
      (property second ↔ condition first label))
    (hrun : Run step first labels last) (hfirst : invariant first)
    (hproperty : property first) :
    (∀ before state, before <+: labels → Run step first before state → property state) ↔
      Run (Guarded step condition) first labels last :=
  @Run.always_iff_guarded_of_strong _ _ step _ _ _ property condition
    (fun state => invariant state ∧ property state) hdeterministic
    (fun _ hstate => hstate.2)
    (fun _ _ _ hstep hstate hnext => (hexact _ _ _ hstep hstate.1 hstate.2).mp hnext)
    (fun _ _ _ hstep hstate hcondition =>
      ⟨hinvariant _ _ _ hstep hstate.1, (hexact _ _ _ hstep hstate.1 hstate.2).mpr hcondition⟩)
    hrun ⟨hfirst, hproperty⟩

/-- What holds at the start and is carried by every step of a run, together
with the labels so far, holds at the end of the run. -/
theorem Run.history {property : List Label → State → Prop}
    (hrun : Run step first labels last) (hfirst : property [] first)
    (hcarries : ∀ before state label next, Run step first before state →
      property before state → step state label next →
      property (before ++ [label]) next) : property labels last := by
  -- The induction is on what is left of the run.
  have hrest : ∀ middle rest, Run step middle rest last →
      ∀ before, Run step first before middle → property before middle →
      property (before ++ rest) last := by
    intro middle rest hrest
    induction hrest with
    | nil state =>
      intro before _ hbefore
      rwa [append_nil]
    | @cons middle next last label rest hstep hrest ih =>
      intro before hreach hbefore
      have hnext := hcarries before middle label next hreach hbefore hstep
      rw [append_cons]
      exact ih hrun _ (hreach.append (Run.single hstep)) hnext
  simpa using hrest first labels hrun [] (Run.nil first) hfirst

end Hexa
