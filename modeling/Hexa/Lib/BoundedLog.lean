/-
Logs of ordered records with a limit on their number and size.  Records are
cut to size when they enter, replace the record of the same source, and are
given up oldest first; a log that says it is complete has every record of the
unbounded log it stands for.
-/
import Mathlib

namespace Hexa

open List

universe u

variable {Value : Type u}

structure Ordered (Value : Type u) where
  order : Nat
  value : Value
  deriving DecidableEq

variable (change : Value → Value) (entry : Ordered Value)

def Ordered.mapValue : Ordered Value := { entry with value := change entry.value }

open Ordered

@[simp]
theorem Ordered.order_mapValue : (entry.mapValue change).order = entry.order := rfl

/-- Limits on the records of a log, where fewer records are never larger. -/
structure LogLimits (Value : Type u) where
  records : Nat
  bytes : Nat
  size : List (Ordered Value) → Nat
  size_sublist : ∀ {part whole}, part.Sublist whole → size part ≤ size whole
  size_nil : size [] ≤ bytes

/-- Records with the same source replace each other.  A record that is too
large is cut, and then not complete. -/
structure RecordKind (Value : Type u) where
  same : Value → Value → Bool
  cut : Value → Value
  complete : Value → Bool
  same_comm : ∀ first second, same first second = same second first
  same_trans : ∀ {first second third}, same first second → same second third → same first third
  cut_cut : ∀ value, cut (cut value) = cut value
  cut_eq_self : ∀ {value}, complete (cut value) → cut value = value

structure BoundedLog (Value : Type u) where
  items : List (Ordered Value) := []
  incomplete : Bool := false
  deriving DecidableEq

namespace LogLimits

variable (limits : LogLimits Value)

def Fits (items : List (Ordered Value)) : Prop :=
  items.length ≤ limits.records ∧ limits.size items ≤ limits.bytes

instance (items : List (Ordered Value)) : Decidable (limits.Fits items) :=
  inferInstanceAs (Decidable (_ ∧ _))

/-- Give up records from the front until the rest fits; and whether any was
given up. -/
def evict : List (Ordered Value) → List (Ordered Value) × Bool
  | [] => ([], false)
  | item :: items =>
    if limits.Fits (item :: items) then (item :: items, false)
    else ((evict items).1, true)

variable {limits} {items part : List (Ordered Value)}

theorem Fits.sublist (hfits : limits.Fits items) (hpart : part.Sublist items) :
    limits.Fits part :=
  ⟨Nat.le_trans hpart.length_le hfits.1, Nat.le_trans (limits.size_sublist hpart) hfits.2⟩

theorem fits_evict : limits.Fits (limits.evict items).1 := by
  induction items with
  | nil => exact ⟨Nat.zero_le _, limits.size_nil⟩
  | cons item items ih =>
    rw [evict]
    split_ifs with hfits
    · exact hfits
    · exact ih

theorem evict_suffix : (limits.evict items).1 <:+ items := by
  induction items with
  | nil => exact suffix_rfl
  | cons item items ih =>
    rw [evict]
    split_ifs with hfits
    · exact suffix_rfl
    · exact ih.trans (suffix_cons item items)

theorem evict_of_fits (hfits : limits.Fits items) : limits.evict items = (items, false) := by
  cases items with
  | nil => rfl
  | cons item items => rw [evict, if_pos hfits]

theorem evict_eq_self (hkept : (limits.evict items).2 = false) :
    (limits.evict items).1 = items := by
  cases items with
  | nil => rfl
  | cons item items =>
    rw [evict] at hkept ⊢
    split_ifs at hkept ⊢ with hfits
    rfl

end LogLimits

namespace BoundedLog

variable (items : List (Ordered Value))

/-- In order of acceptance. -/
def InOrder : Prop := items.Pairwise (fun first second => first.order ≤ second.order)

def sorted : List (Ordered Value) :=
  items.insertionSort (fun first second => first.order ≤ second.order)

theorem inOrder_sorted : InOrder (sorted items) := by
  exact pairwise_insertionSort _ items

theorem sorted_perm : (sorted items).Perm items := perm_insertionSort _ items

variable (limits : LogLimits Value)

def bound (log : BoundedLog Value) : BoundedLog Value :=
  let (items, dropped) := limits.evict (sorted log.items)
  ⟨items, log.incomplete || dropped⟩

variable {limits} {log : BoundedLog Value}

theorem inOrder_bound : InOrder (log.bound limits).items :=
  (inOrder_sorted log.items).sublist LogLimits.evict_suffix.sublist

/-- A log that is complete after it was bounded was so before, and lost
nothing. -/
theorem bound_perm (hcomplete : (log.bound limits).incomplete = false) :
    log.incomplete = false ∧ (log.bound limits).items.Perm log.items := by
  have hor : (log.incomplete || (limits.evict (sorted log.items)).2) = false := hcomplete
  rw [Bool.or_eq_false_iff] at hor
  refine ⟨hor.1, ?_⟩
  change (limits.evict (sorted log.items)).1.Perm log.items
  rw [LogLimits.evict_eq_self hor.2]
  exact sorted_perm log.items

end BoundedLog

namespace RecordKind

variable [DecidableEq Value] (kind : RecordKind Value)

omit [DecidableEq Value] in
def isSource (entry existing : Ordered Value) : Bool := kind.same existing.value entry.value

/-- The record of a source, changed or new; none if it is there already. -/
def put (items : List (Ordered Value)) (entry : Ordered Value) : Option (List (Ordered Value)) :=
  if (items.find? (kind.isSource entry)).any
      (fun existing => existing.value = entry.value) then none
  else some (items.eraseP (kind.isSource entry) ++ [entry])

/-- One record for a source. -/
def Unique (items : List (Ordered Value)) : Prop :=
  items.Pairwise (fun first second => kind.same first.value second.value = false)

variable {kind} {items more : List (Ordered Value)} {entry : Ordered Value}

section

omit [DecidableEq Value]

theorem Unique.perm (hunique : kind.Unique items) (hperm : more.Perm items) :
    kind.Unique more := by
  refine (hperm.pairwise_iff fun {first second} hsame => ?_).mpr hunique
  rwa [kind.same_comm]

/-- Two records of one source are one. -/
theorem Unique.eq_of_same (hunique : kind.Unique items) {first second : Ordered Value}
    (hfirst : first ∈ items) (hsecond : second ∈ items)
    (hsame : kind.same first.value second.value = true) : first = second := by
  by_contra hne
  have hsymm : Std.Symm (fun first second : Ordered Value =>
      kind.same first.value second.value = false) :=
    ⟨fun first second hdistinct => by rwa [kind.same_comm]⟩
  have hdistinct := List.Pairwise.forall hunique hfirst hsecond hne
  rw [hsame] at hdistinct
  cases hdistinct

theorem same_of_isSource {first second : Ordered Value} (hfirst : kind.isSource entry first)
    (hsecond : kind.isSource entry second) : kind.same first.value second.value = true := by
  rw [isSource, kind.same_comm] at hsecond
  exact kind.same_trans hfirst hsecond

/-- Nothing else has the source of the first record that has it. -/
theorem Unique.eraseP_eq_filter (hunique : kind.Unique items) :
    items.eraseP (kind.isSource entry) =
      items.filter (fun existing => !kind.isSource entry existing) := by
  induction items with
  | nil => rfl
  | cons head items ih =>
    obtain ⟨hhead, hrest⟩ := pairwise_cons.mp hunique
    by_cases hsource : kind.isSource entry head = true
    · rw [eraseP_cons_of_pos hsource, filter_cons_of_neg (by simp [hsource])]
      refine (filter_eq_self.mpr fun other hother => ?_).symm
      rw [Bool.not_eq_true', ← Bool.not_eq_true]
      intro hsame
      have hboth := same_of_isSource hsource hsame
      rw [hhead other hother] at hboth
      cases hboth
    · rw [eraseP_cons_of_neg hsource, filter_cons_of_pos (by simpa using hsource), ih hrest]

end

variable (hunique : kind.Unique items)
include hunique

theorem put_eq_none_iff :
    kind.put items entry = none ↔
      ∃ existing ∈ items, kind.isSource entry existing = true ∧ existing.value = entry.value := by
  rw [put, ite_eq_left_iff]
  simp only [reduceCtorEq, imp_false, not_not]
  constructor
  · intro hany
    cases hfind : items.find? (kind.isSource entry) with
    | none =>
      rw [hfind] at hany
      cases hany
    | some existing =>
      rw [hfind, Option.any_some, decide_eq_true_eq] at hany
      exact ⟨existing, mem_of_find?_eq_some hfind, find?_some hfind, hany⟩
  · rintro ⟨existing, hmem, hsource, hvalue⟩
    cases hfind : items.find? (kind.isSource entry) with
  | none => exact absurd hsource (find?_eq_none.mp hfind existing hmem)
  | some found =>
    have hsame := same_of_isSource (find?_some hfind) hsource
    obtain rfl := hunique.eq_of_same (mem_of_find?_eq_some hfind) hmem hsame
    rw [Option.any_some, decide_eq_true_eq]
    exact hvalue

theorem put_eq_some (hput : kind.put items entry = some more) :
    more = items.filter (fun existing => !kind.isSource entry existing) ++ [entry] := by
  rw [put] at hput
  split_ifs at hput
  rw [← Option.some.inj hput, hunique.eraseP_eq_filter]

theorem Unique.put (hput : kind.put items entry = some more) : kind.Unique more := by
  rw [put_eq_some hunique hput]
  refine pairwise_append.mpr ⟨hunique.sublist filter_sublist,
    pairwise_singleton _ _, fun existing hexisting other hother => ?_⟩
  rw [mem_singleton.mp hother]
  simpa [isSource] using (mem_filter.mp hexisting).2

theorem Unique.putD (entry : Ordered Value) :
    kind.Unique ((kind.put items entry).getD items) := by
  cases hput : kind.put items entry with
  | none => exact hunique
  | some more => exact hunique.put hput

end RecordKind

namespace BoundedLog

section

variable [DecidableEq Value] (limits : LogLimits Value) (kind : RecordKind Value)

/-- The log with a record cut to size; none if the record is in it. -/
def record (log : BoundedLog Value) (entry : Ordered Value) : Option (BoundedLog Value) :=
  (kind.put log.items (entry.mapValue kind.cut)).map
    (fun items => bound limits ⟨items, log.incomplete⟩)

end

variable (limits : LogLimits Value) (kind : RecordKind Value) (log : BoundedLog Value)

/-- The log with all its records cut to size, as if they came anew. -/
def restore : BoundedLog Value :=
  bound limits ⟨log.items.map (Ordered.mapValue kind.cut), log.incomplete⟩

def keepWhere (keep : Ordered Value → Bool) : BoundedLog Value :=
  { log with items := log.items.filter keep }

def isComplete : Bool := !log.incomplete && log.items.all (fun entry => kind.complete entry.value)

/-- What holds of a log in use. -/
structure Good : Prop where
  inOrder : InOrder log.items
  fits : limits.Fits log.items
  unique : kind.Unique log.items
  isCut : ∀ entry ∈ log.items, kind.cut entry.value = entry.value

/-- The log has given up records, or has all those of the full log. -/
def Covers (full : List (Ordered Value)) : Prop :=
  log.incomplete = true ∨ ∀ entry ∈ full, entry.mapValue kind.cut ∈ log.items

variable {limits kind} {log next : BoundedLog Value} {full : List (Ordered Value)}
  {entry : Ordered Value}

theorem Good.empty (incomplete : Bool) : Good limits kind ⟨[], incomplete⟩ :=
  ⟨List.Pairwise.nil, ⟨Nat.zero_le _, limits.size_nil⟩, List.Pairwise.nil, nofun⟩

/-- Nothing but the records is asked of a log. -/
theorem Good.withIncomplete (hgood : Good limits kind log) (incomplete : Bool) :
    Good limits kind { log with incomplete } :=
  ⟨hgood.inOrder, hgood.fits, hgood.unique, hgood.isCut⟩

theorem Good.keepWhere (hgood : Good limits kind log) (keep : Ordered Value → Bool) :
    Good limits kind (log.keepWhere keep) :=
  ⟨hgood.inOrder.sublist filter_sublist,
    hgood.fits.sublist filter_sublist,
    hgood.unique.sublist filter_sublist,
    fun entry hmem => hgood.isCut entry (mem_of_mem_filter hmem)⟩

/-- A log in use is restored as it is. -/
theorem Good.restore_eq (hgood : Good limits kind log) : log.restore limits kind = log := by
  have hmap : log.items.map (mapValue kind.cut) = log.items := by
    refine (map_congr_left fun entry hmem => ?_).trans (map_id log.items)
    rw [mapValue, hgood.isCut entry hmem]
    rfl
  rw [restore, hmap, bound, sorted, hgood.inOrder.insertionSort_eq,
    LogLimits.evict_of_fits hgood.fits]
  simp

/-- A complete log has the records of the full log, none of them cut. -/
theorem Covers.mem (hcovers : Covers kind log full) (hcomplete : log.isComplete kind = true)
    (hmem : entry ∈ full) : entry ∈ log.items := by
  simp only [isComplete, Bool.and_eq_true, Bool.not_eq_true', all_eq_true] at hcomplete
  have hcut := hcovers.resolve_left (by simp [hcomplete.1]) entry hmem
  have hvalue := kind.cut_eq_self (hcomplete.2 _ hcut)
  rwa [mapValue, hvalue] at hcut

theorem Covers.keepWhere (hcovers : Covers kind log full) {keep keepFull : Ordered Value → Bool}
    (hkept : ∀ entry ∈ full, keepFull entry = true → keep (entry.mapValue kind.cut) = true) :
    Covers kind (log.keepWhere keep) (full.filter keepFull) := by
  refine hcovers.imp id fun hall entry hmem => ?_
  obtain ⟨hfull, hkeep⟩ := mem_filter.mp hmem
  exact mem_filter.mpr ⟨hall entry hfull, hkept entry hfull hkeep⟩

/-- A flag more is never wrong. -/
theorem Covers.withIncomplete (hcovers : Covers kind log full) (more : Bool) :
    Covers kind { log with incomplete := log.incomplete || more } full := by
  refine hcovers.imp (fun hincomplete => ?_) id
  rw [hincomplete, Bool.true_or]

end BoundedLog

/-- Cutting to size does not change which records of the full log have the
source of the value, or are the value, and a log that has the value has it
from the full log. -/
structure RecordKind.Agrees (kind : RecordKind Value) (items full : List (Ordered Value))
    (value : Value) : Prop where
  same : ∀ entry ∈ full,
    kind.same (kind.cut entry.value) (kind.cut value) = kind.same entry.value value
  eq : ∀ entry ∈ full, kind.same entry.value value = true →
    kind.cut entry.value = kind.cut value → entry.value = value
  held : ∀ entry ∈ items, kind.same entry.value (kind.cut value) = true →
    entry.value = kind.cut value → entry ∈ full.map (Ordered.mapValue kind.cut)

namespace BoundedLog

variable [DecidableEq Value] {limits : LogLimits Value} {kind : RecordKind Value}
  {log next : BoundedLog Value} {full : List (Ordered Value)} {entry : Ordered Value}

theorem Good.record (hgood : Good limits kind log)
    (hrecord : log.record limits kind entry = some next) : Good limits kind next := by
  obtain ⟨items, hput, rfl⟩ := Option.map_eq_some_iff.mp hrecord
  have hunique := hgood.unique.put hput
  have hitems := RecordKind.put_eq_some hgood.unique hput
  refine ⟨inOrder_bound, LogLimits.fits_evict, ?_, fun existing hmem => ?_⟩
  · exact (hunique.perm (sorted_perm items)).sublist LogLimits.evict_suffix.sublist
  · have hmem := (sorted_perm items).mem_iff.mp (LogLimits.evict_suffix.subset hmem)
    rw [hitems, mem_append, mem_singleton] at hmem
    rcases hmem with hold | rfl
    · exact hgood.isCut existing (mem_of_mem_filter hold)
    · exact kind.cut_cut entry.value

theorem Good.recordD (hgood : Good limits kind log) (entry : Ordered Value) :
    Good limits kind ((log.record limits kind entry).getD log) := by
  cases hrecord : log.record limits kind entry with
  | none => exact hgood
  | some next => exact hgood.record hrecord

theorem put_cut_eq_none_iff (hgood : Good limits kind log) (hunique : kind.Unique full)
    (hagrees : kind.Agrees log.items full entry.value)
    (hall : ∀ entry ∈ full, entry.mapValue kind.cut ∈ log.items) :
    kind.put log.items (entry.mapValue kind.cut) = none ↔ kind.put full entry = none := by
  rw [RecordKind.put_eq_none_iff hgood.unique, RecordKind.put_eq_none_iff hunique]
  constructor
  · rintro ⟨existing, hmem, hsource, hvalue⟩
    obtain ⟨original, horiginal, rfl⟩ := mem_map.mp (hagrees.held existing hmem hsource hvalue)
    have hsame : kind.same original.value entry.value = true :=
      (hagrees.same original horiginal).symm.trans hsource
    exact ⟨original, horiginal, hsame, hagrees.eq original horiginal hsame hvalue⟩
  · rintro ⟨original, horiginal, hsource, hvalue⟩
    refine ⟨original.mapValue kind.cut, hall original horiginal, ?_, ?_⟩
    · exact (hagrees.same original horiginal).trans hsource
    · exact congrArg kind.cut hvalue

/-- A log and its full log record alike. -/
theorem Covers.record (hcovers : Covers kind log full) (hgood : Good limits kind log)
    (hunique : kind.Unique full)
    (hagrees : log.incomplete = false → kind.Agrees log.items full entry.value) :
    Covers kind ((log.record limits kind entry).getD log) ((kind.put full entry).getD full) := by
  cases hlog : log.incomplete with
  | true =>
    left
    cases hrecord : log.record limits kind entry with
    | none => exact hlog
    | some next =>
      obtain ⟨items, -, rfl⟩ := Option.map_eq_some_iff.mp hrecord
      change (log.incomplete || _) = true
      rw [hlog, Bool.true_or]
  | false =>
    have hall := hcovers.resolve_left (by simp [hlog])
    have hnone := put_cut_eq_none_iff hgood hunique (hagrees hlog) hall
    cases hfull : kind.put full entry with
    | none =>
      rw [BoundedLog.record, hnone.mpr hfull]
      exact .inr hall
    | some more =>
      have hsome : kind.put log.items (entry.mapValue kind.cut) ≠ none := by
        rw [ne_eq, hnone, hfull]
        nofun
      obtain ⟨items, hitems⟩ := Option.ne_none_iff_exists'.mp hsome
      rw [BoundedLog.record, hitems, Option.map_some, Option.getD_some, Option.getD_some]
      by_cases hlost : (bound limits ⟨items, log.incomplete⟩).incomplete = true
      · exact .inl hlost
      · right
        intro original horiginal
        rw [(bound_perm (Bool.not_eq_true _ ▸ hlost)).2.mem_iff,
          RecordKind.put_eq_some hgood.unique hitems, mem_append, mem_filter, mem_singleton]
        rw [RecordKind.put_eq_some hunique hfull, mem_append, mem_filter, mem_singleton]
          at horiginal
        rcases horiginal with ⟨hold, hother⟩ | rfl
        · refine .inl ⟨hall original hold, ?_⟩
          rw [← hother]
          exact congrArg not ((hagrees hlog).same original hold)
        · exact .inr rfl

end BoundedLog

end Hexa
