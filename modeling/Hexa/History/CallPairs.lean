/-
The calls and outputs of a history.  Trimming it from the front takes away the
counterpart of the oldest item too, found by the id of the call.
-/
import Hexa.Lib.RustStr

namespace Hexa.History

open List Option

/-- What answers a call; a local shell call is answered as a function is. -/
inductive OutputKind where
  | function
  | toolSearch
  | customTool
  deriving DecidableEq

/-- The items; a payload stands for the fields of a call and for what is no
call nor output. -/
inductive ResponseItem (Payload : Type) where
  | functionCall (id : Option Text) (callId : Text) (payload : Payload)
  | localShellCall (id callId : Option Text) (payload : Payload)
  | toolSearchCall (id callId : Option Text) (payload : Payload)
  | customToolCall (id : Option Text) (callId : Text) (payload : Payload)
  | functionCallOutput (id callId name nameSpace : Option Text) (output : Text)
  | toolSearchOutput (id callId : Option Text) (status execution : Text) (tools : List Text)
  | customToolCallOutput (id : Option Text) (callId : Text) (name : Option Text) (output : Text)
  | other (payload : Payload)
  deriving DecidableEq

variable {Payload Snapshot : Type}

namespace ResponseItem

/-- What a call with an id is answered by. -/
def callKey : ResponseItem Payload → Option (OutputKind × Text)
  | .functionCall _ callId _ => some (.function, callId)
  | .localShellCall _ (some callId) _ => some (.function, callId)
  | .toolSearchCall _ (some callId) _ => some (.toolSearch, callId)
  | .customToolCall _ callId _ => some (.customTool, callId)
  | _ => none

/-- What an output with an id answers. -/
def outputKey : ResponseItem Payload → Option (OutputKind × Text)
  | .functionCallOutput _ (some callId) .. => some (.function, callId)
  | .toolSearchOutput _ (some callId) .. => some (.toolSearch, callId)
  | .customToolCallOutput _ callId .. => some (.customTool, callId)
  | _ => none

def isFunctionCall (callId : Text) : ResponseItem Payload → Bool
  | .functionCall _ existing _ => existing = callId
  | _ => false

def isLocalShellCall (callId : Text) : ResponseItem Payload → Bool
  | .localShellCall _ existing _ => existing = some callId
  | _ => false

end ResponseItem

open ResponseItem

section

variable (items : List (ResponseItem Payload))

def removeFirstMatching (predicate : ResponseItem Payload → Bool) : List (ResponseItem Payload) :=
  items.eraseP predicate

def removeCorrespondingFor :
    ResponseItem Payload → List (ResponseItem Payload)
  | .functionCall _ callId _ => removeFirstMatching items (outputKey · = some (.function, callId))
  | .functionCallOutput _ (some callId) .. =>
    if items.any (isFunctionCall callId) then removeFirstMatching items (isFunctionCall callId)
    else removeFirstMatching items (isLocalShellCall callId)
  | .toolSearchCall _ (some callId) _ =>
    removeFirstMatching items (outputKey · = some (.toolSearch, callId))
  | .toolSearchOutput _ (some callId) .. =>
    removeFirstMatching items (callKey · = some (.toolSearch, callId))
  | .customToolCall _ callId _ =>
    removeFirstMatching items (outputKey · = some (.customTool, callId))
  | .customToolCallOutput _ callId .. =>
    removeFirstMatching items (callKey · = some (.customTool, callId))
  | .localShellCall _ (some callId) _ =>
    removeFirstMatching items (outputKey · = some (.function, callId))
  | _ => items

/-- Every call has an output of its kind and every output a call. -/
def Paired : Prop :=
  ∀ key, (∃ call ∈ items, callKey call = some key) ↔ ∃ output ∈ items, outputKey output = some key

/-- Every id is on as many calls as outputs of a kind. -/
def Balanced : Prop :=
  ∀ key, items.countP (callKey · = some key) = items.countP (outputKey · = some key)

end

structure ContextManager (Payload Snapshot : Type) where
  items : List (ResponseItem Payload)
  worldStateBaseline : Option Snapshot := none

def ContextManager.removeFirstItem (history : ContextManager Payload Snapshot) :
    ContextManager Payload Snapshot :=
  match history.items with
  | [] => history
  | removed :: items => { items := removeCorrespondingFor items removed }

variable {items : List (ResponseItem Payload)} {removed : ResponseItem Payload}
  {key : OutputKind × Text}

theorem Balanced.paired (hbalanced : Balanced items) : Paired items := by
  intro key
  have hpositive := congrArg (0 < ·) (hbalanced key)
  simpa using hpositive

theorem callKey_of_outputKey (houtput : outputKey removed = some key) :
    callKey removed = none := by
  cases removed with
  | functionCallOutput | toolSearchOutput | customToolCallOutput => rfl
  | _ => cases houtput

theorem exists_removed {keyOf : ResponseItem Payload → Option (OutputKind × Text)}
    {predicate : ResponseItem Payload → Bool}
    (hkey : ∀ item, predicate item → keyOf item = some key)
    (hmem : ∃ item ∈ items, predicate item) :
    ∃ partner, keyOf partner = some key ∧
      items.Perm (partner :: removeFirstMatching items predicate) := by
  obtain ⟨item, hitem, hpredicate⟩ := hmem
  obtain ⟨partner, before, after, -, hpartner, rfl, hrest⟩ := exists_of_eraseP hitem hpredicate
  refine ⟨partner, hkey partner hpartner, ?_⟩
  rw [removeFirstMatching, hrest]
  exact perm_middle

/-- For a call the first output is removed that may be its own. -/
theorem removeCorrespondingFor_of_call (hcall : callKey removed = some key)
    (hmem : ∃ output ∈ items, outputKey output = some key) :
    ∃ partner, outputKey partner = some key ∧
      items.Perm (partner :: removeCorrespondingFor items removed) := by
  have hremoves : removeCorrespondingFor items removed =
      removeFirstMatching items (outputKey · = some key) := by
    unfold callKey at hcall
    split at hcall <;> cases hcall <;> rfl
  rw [hremoves]
  exact exists_removed (fun item => of_decide_eq_true) (by simpa using hmem)

/-- For an output the first call is removed that it may be of. -/
theorem removeCorrespondingFor_of_output (houtput : outputKey removed = some key)
    (hmem : ∃ call ∈ items, callKey call = some key) :
    ∃ partner, callKey partner = some key ∧
      items.Perm (partner :: removeCorrespondingFor items removed) := by
  unfold outputKey at houtput
  split at houtput
  case h_1 callId _ _ _ =>
    obtain rfl := Option.some.inj houtput
    rw [removeCorrespondingFor]
    split_ifs with hany
    · refine exists_removed (fun item hitem => ?_) (any_eq_true.mp hany)
      unfold isFunctionCall at hitem
      split at hitem <;> simp_all [callKey]
    · obtain ⟨call, hcall, hkey⟩ := hmem
      refine exists_removed (fun item hitem => ?_) ⟨call, hcall, ?_⟩
      · unfold isLocalShellCall at hitem
        split at hitem <;> simp_all [callKey]
      · unfold callKey at hkey
        split at hkey <;> simp_all [isFunctionCall, isLocalShellCall]
        simpa using hany _ hcall
  case h_4 => cases houtput
  all_goals
    obtain rfl := Option.some.inj houtput
    exact exists_removed (fun item => of_decide_eq_true) (by simpa using hmem)

/-- The items that are removed together are a call and an output of one id, or
one item that is neither. -/
theorem removeCorrespondingFor_spec (hpaired : Paired (removed :: items)) :
    ∃ partner : Option (ResponseItem Payload),
      items.Perm (partner.toList ++ removeCorrespondingFor items removed) ∧
      partner.bind callKey = outputKey removed ∧
      partner.bind outputKey = callKey removed := by
  cases houtput : outputKey removed with
  | some key =>
    have hcall := callKey_of_outputKey houtput
    have hmem := (hpaired key).mpr ⟨removed, mem_cons_self, houtput⟩
    obtain ⟨partner, hpartner, hperm⟩ :=
      removeCorrespondingFor_of_output houtput (by simpa [hcall] using hmem)
    refine ⟨some partner, hperm, hpartner, ?_⟩
    rw [hcall]
    by_contra hne
    obtain ⟨other, hother⟩ := ne_none_iff_exists'.mp hne
    cases (callKey_of_outputKey hother).symm.trans hpartner
  | none =>
    cases hcall : callKey removed with
    | some key =>
      have hmem := (hpaired key).mp ⟨removed, mem_cons_self, hcall⟩
      obtain ⟨partner, hpartner, hperm⟩ :=
        removeCorrespondingFor_of_call hcall (by simpa [houtput] using hmem)
      exact ⟨some partner, hperm, callKey_of_outputKey hpartner, hpartner⟩
    | none =>
      refine ⟨none, ?_, rfl, rfl⟩
      have hsame : removeCorrespondingFor items removed = items := by
        unfold removeCorrespondingFor
        split <;> simp_all [callKey, outputKey]
      rw [hsame]
      exact List.Perm.refl items

theorem balanced_removeCorrespondingFor_iff (hpaired : Paired (removed :: items)) :
    (removeCorrespondingFor items removed).length < (removed :: items).length ∧
      (Balanced (removeCorrespondingFor items removed) ↔ Balanced (removed :: items)) := by
  obtain ⟨partner, hperm, hcall, houtput⟩ := removeCorrespondingFor_spec hpaired
  refine ⟨?_, forall_congr' fun key => ?_⟩
  · rw [length_cons, hperm.length_eq, length_append]
    omega
  · simp only [countP_cons, hperm.countP_eq, countP_append]
    rw [← hcall, ← houtput]
    cases partner with
  | none => simp
  | some partner =>
    simp only [toList_some, countP_singleton, bind_some]
    omega

namespace ContextManager

/-- Trimming keeps calls and outputs paired for as long as it goes on exactly
if every id is on as many calls as outputs. -/
theorem removeFirstItem_paired_iff (history : ContextManager Payload Snapshot) :
    (∀ count, Paired (removeFirstItem^[count] history).items) ↔ Balanced history.items := by
  obtain ⟨items, baseline⟩ := history
  induction hlength : items.length using Nat.strong_induction_on generalizing items baseline with
  | _ length ih =>
    subst hlength
    cases items with
    | nil =>
      have hsame : ∀ count, removeFirstItem^[count]
          (⟨[], baseline⟩ : ContextManager Payload Snapshot) = ⟨[], baseline⟩ :=
        Function.iterate_fixed rfl
      simp [hsame, Paired, Balanced]
    | cons removed items =>
      rw [← Nat.and_forall_add_one]
      constructor
      · rintro ⟨hpaired, hlater⟩
        obtain ⟨hless, hiff⟩ := balanced_removeCorrespondingFor_iff hpaired
        exact hiff.mp ((ih _ hless _ _ rfl).mp hlater)
      · intro hbalanced
        obtain ⟨hless, hiff⟩ := balanced_removeCorrespondingFor_iff hbalanced.paired
        exact ⟨hbalanced.paired, (ih _ hless _ _ rfl).mpr (hiff.mpr hbalanced)⟩

/-- A call whose id is used twice, and the one output of both. -/
def calledTwice : ContextManager Unit Unit where
  items := [.functionCall none "a".toList (), .functionCall none "a".toList (),
    .functionCallOutput none (some "a".toList) none none []]

theorem removeFirstItem_calledTwice :
    Paired calledTwice.items ∧ ¬ Paired calledTwice.removeFirstItem.items := by
  refine ⟨fun key => ?_, fun hpaired => ?_⟩
  · simp [calledTwice, callKey, outputKey]
  · have houtput := (hpaired (.function, "a".toList)).mp ⟨_, mem_cons_self, rfl⟩
    obtain ⟨output, hmem, hkey⟩ := houtput
    obtain rfl := mem_singleton.mp hmem
    cases hkey

end ContextManager

end Hexa.History
