/-
Lists in which ranges are replaced: edits in the order of the list, what they
leave of it, and the ways to carry them out.
-/
import Mathlib

namespace Hexa

open List

universe u v w

variable {α : Type u} {β : Type v} {γ : Type w}

/-- Where a range begins, how long it is, and what takes its place. -/
abbrev RangeEdit (β : Type v) := Nat × Nat × List β

namespace RangeEdit

/-- The first range ends where the second begins, or earlier. -/
def Before (first second : RangeEdit β) : Prop := first.1 + first.2.1 ≤ second.1

instance (first second : RangeEdit β) : Decidable (first.Before second) :=
  inferInstanceAs (Decidable (_ ≤ _))

/-- The ranges do not overlap; the first one may come second in the list if it
is empty. -/
def Apart (first second : RangeEdit β) : Prop :=
  first.Before second ∨ (first.2.1 = 0 ∧ second.Before first)

end RangeEdit

/-- Edits in order, in a part of the list. -/
structure EditsWithin (low high : Nat) (edits : List (RangeEdit β)) : Prop where
  ordered : edits.Pairwise RangeEdit.Before
  low_le : ∀ edit ∈ edits, low ≤ edit.1
  le_high : ∀ edit ∈ edits, edit.1 + edit.2.1 ≤ high

namespace EditsWithin

variable {low mid high : Nat} {edits more : List (RangeEdit β)} {edit : RangeEdit β}

theorem nil : EditsWithin low high ([] : List (RangeEdit β)) :=
  ⟨.nil, forall_mem_nil _, forall_mem_nil _⟩

theorem singleton (hlow : low ≤ edit.1) (hhigh : edit.1 + edit.2.1 ≤ high) :
    EditsWithin low high [edit] :=
  ⟨pairwise_singleton _ _, forall_mem_singleton.mpr hlow, forall_mem_singleton.mpr hhigh⟩

theorem append (hedits : EditsWithin low mid edits) (hmore : EditsWithin mid high more)
    (hlow : low ≤ mid) (hhigh : mid ≤ high) : EditsWithin low high (edits ++ more) := by
  refine ⟨pairwise_append.mpr ⟨hedits.ordered, hmore.ordered, ?_⟩, ?_, ?_⟩
  · intro first hfirst second hsecond
    exact (hedits.le_high first hfirst).trans (hmore.low_le second hsecond)
  · refine forall_mem_append.mpr ⟨hedits.low_le, ?_⟩
    exact fun edit hmem => hlow.trans (hmore.low_le edit hmem)
  · refine forall_mem_append.mpr ⟨?_, hmore.le_high⟩
    exact fun edit hmem => (hedits.le_high edit hmem).trans hhigh

theorem mono (hedits : EditsWithin mid high edits) (hlow : low ≤ mid) :
    EditsWithin low high edits :=
  ⟨hedits.ordered, fun edit hmem => hlow.trans (hedits.low_le edit hmem), hedits.le_high⟩

theorem of_cons (hedits : EditsWithin low high (edit :: edits)) :
    EditsWithin (edit.1 + edit.2.1) high edits :=
  ⟨(pairwise_cons.mp hedits.ordered).2,
    (pairwise_cons.mp hedits.ordered).1,
    (forall_mem_cons.mp hedits.le_high).2⟩

end EditsWithin

/-- The list from `index` on, with each range replaced by the new items and all
that is outside the ranges kept. -/
inductive Spliced (insert : β → α) :
    Nat → List α → List (RangeEdit β) → List α → Prop where
  | keep (index : Nat) (kept : List α) : Spliced insert index kept [] kept
  | replace {index start len : Nat} {kept old rest result : List α}
      {new : List β} {more : List (RangeEdit β)}
      (hstart : start = index + kept.length) (hlen : len = old.length)
      (hrest : Spliced insert (start + len) rest more result) :
      Spliced insert index (kept ++ old ++ rest) ((start, len, new) :: more)
        (kept ++ new.map insert ++ result)

/-- The edits carried out from the front. -/
def splice (insert : β → α) : List α → Nat → List (RangeEdit β) → List α
  | source, _, [] => source
  | source, index, (start, len, new) :: more =>
    source.take (start - index) ++ new.map insert ++
      splice insert (source.drop (start - index + len)) (start + len) more

theorem map_splice (insert : β → α) (f : α → γ) (source : List α) (index : Nat)
    (edits : List (RangeEdit β)) :
    (splice insert source index edits).map f =
      splice (f ∘ insert) (source.map f) index edits := by
  induction edits generalizing source index with
  | nil => rfl
  | cons edit edits ih =>
    rw [splice, splice, map_append, map_append, map_map, ih, map_take, map_drop]

theorem forall_mem_splice {insert : β → α} {p : α → Prop} {source : List α}
    (hsource : ∀ item ∈ source, p item) (hinsert : ∀ new, p (insert new)) (index : Nat)
    (edits : List (RangeEdit β)) : ∀ item ∈ splice insert source index edits, p item := by
  induction edits generalizing source index with
  | nil => exact hsource
  | cons edit edits ih =>
    refine forall_mem_append.mpr ⟨forall_mem_append.mpr
      ⟨fun item hmem => hsource item (mem_of_mem_take hmem), ?_⟩, ?_⟩
    · exact forall_mem_map.mpr fun item _ => hinsert item
    · exact ih (fun item hmem => hsource item (mem_of_mem_drop hmem)) _

namespace Spliced

variable {insert : β → α} {index : Nat} {source result : List α} {edits : List (RangeEdit β)}

theorem splice_eq (hspliced : Spliced insert index source edits result) :
    splice insert source index edits = result := by
  induction hspliced with
  | keep index kept => rfl
  | @replace index start len kept old rest result new more hstart hlen _ ih =>
    subst hstart hlen
    rw [splice, Nat.add_sub_cancel_left, append_assoc kept old, take_left,
      ← append_assoc, ← length_append, drop_left, ih]

theorem of_within (hedits : EditsWithin index (index + source.length) edits) :
    Spliced insert index source edits (splice insert source index edits) := by
  induction edits generalizing index source with
  | nil => exact .keep index source
  | cons edit edits ih =>
    obtain ⟨start, len, new⟩ := edit
    have hlow : index ≤ start := hedits.low_le _ mem_cons_self
    have hhigh : start + len ≤ index + source.length := hedits.le_high _ mem_cons_self
    have hsource : source = source.take (start - index) ++
        (source.drop (start - index)).take len ++
        source.drop (start - index + len) := by
      rw [append_assoc, ← drop_drop, take_append_drop, take_append_drop]
    conv => arg 3; rw [hsource]
    refine .replace ?_ ?_ (ih ?_)
    · rw [length_take]
      omega
    · rw [length_take, length_drop]
      omega
    · have hlength : start + len +
          (source.drop (start - index + len)).length =
          index + source.length := by
        rw [length_drop]
        omega
      rw [hlength]
      exact hedits.of_cons

/-- The whole of a part is replaced. -/
theorem replace_all {old new : List α} {len : Nat} (hlen : old.length = len) :
    Spliced id index old [(index, len, new)] new := by
  have hreplace : Spliced id index ([] ++ old ++ []) [(index, len, new)]
      ([] ++ new.map id ++ []) :=
    .replace rfl hlen.symm (.keep _ _)
  simpa only [nil_append, append_nil, map_id] using hreplace

/-- A kept front. -/
theorem kept_append {front : List α}
    (hspliced : Spliced insert (index + front.length) source edits result) :
    Spliced insert index (front ++ source) edits (front ++ result) := by
  cases hspliced with
  | keep => exact .keep _ _
  | replace hstart hlen hrest =>
    simp only [← append_assoc]
    refine .replace ?_ hlen hrest
    rw [hstart, length_append, Nat.add_assoc]

theorem append {source' result' : List α} {more : List (RangeEdit β)}
    (hspliced : Spliced insert index source edits result)
    (hmore : Spliced insert (index + source.length) source' more result') :
    Spliced insert index (source ++ source') (edits ++ more) (result ++ result') := by
  induction hspliced with
  | keep index kept => exact hmore.kept_append
  | @replace index start len kept old rest result new edits hstart hlen _ ih =>
    have hend : index + (kept ++ old ++ rest).length = start + len + rest.length := by
      simp only [length_append]
      omega
    rw [hend] at hmore
    simp only [append_assoc]
    simp only [← append_assoc]
    rw [append_assoc (kept ++ old), append_assoc (kept ++ _)]
    exact .replace hstart hlen (ih hmore)

theorem map (hspliced : Spliced insert index source edits result) (f : α → γ) :
    Spliced (f ∘ insert) index (source.map f) edits (result.map f) := by
  induction hspliced with
  | keep index kept => exact .keep _ _
  | replace hstart hlen _ ih =>
    simp only [map_append, map_map]
    exact .replace (by rw [hstart, length_map]) (by rw [hlen, length_map]) ih

/-- The edits carried out on the whole list from the last one to the first. -/
theorem foldr_eq {whole edited : List α} {edits : List (RangeEdit α)}
    (hspliced : Spliced id index (whole.drop index) edits edited)
    (hindex : index ≤ whole.length) :
    edits.foldr (fun edit list => list.take edit.1 ++ edit.2.2 ++ list.drop (edit.1 + edit.2.1))
      whole = whole.take index ++ edited := by
  generalize hsource : whole.drop index = source at hspliced
  induction hspliced with
  | keep index kept => rw [← hsource, foldr_nil, take_append_drop]
  | @replace index start len kept old rest edited new edits hstart hlen _ ih =>
    have hwhole : whole = whole.take index ++ (kept ++ old ++ rest) := by
      rw [← hsource, take_append_drop]
    have hlength : (whole.take index).length = index := length_take_of_le hindex
    have hcut : whole.take index ++ (kept ++ old ++ rest) =
        (whole.take index ++ kept ++ old) ++ rest := by
      simp only [append_assoc]
    have hfront : (whole.take index ++ kept ++ old).length = start + len := by
      rw [length_append, length_append, hlength, hstart, hlen]
    have hdrop : whole.drop (start + len) = rest := by rw [hwhole, hcut, drop_left' hfront]
    have htake : whole.take (start + len) = whole.take index ++ kept ++ old := by
      conv => lhs; rw [hwhole, hcut, take_left' hfront]
    have hend : start + len ≤ whole.length := by
      have := congrArg List.length hwhole
      simp only [length_append] at this
      omega
    rw [foldr_cons, ih hend hdrop, htake]
    have hstart' : (whole.take index ++ kept).length = start := by
      rw [length_append, hlength, hstart]
    rw [append_assoc (whole.take index ++ kept) old, take_left' hstart', ← append_assoc,
      drop_left' hfront, map_id, append_assoc, append_assoc, append_assoc]

theorem drop_eq_blocks (whole : List α) {index start : Nat} (len : Nat) (hle : index ≤ start) :
    whole.drop index = (whole.drop index).take (start - index) ++
      ((whole.drop start).take len ++ whole.drop (start + len)) := by
  have hstart : whole.drop start = (whole.drop index).drop (start - index) := by
    rw [drop_drop, Nat.add_sub_cancel' hle]
  rw [← drop_drop (i := len), take_append_drop, hstart, take_append_drop]

/-- Each range may be replaced by finer edits that have the same effect on
it. -/
theorem flatMap_of_ranges {whole : List α} {items : List γ}
    {range : γ → RangeEdit α} {own : γ → List (RangeEdit α)}
    (hwithin : EditsWithin index whole.length (items.map range))
    (hown : ∀ item ∈ items, Spliced id (range item).1
      ((whole.drop (range item).1).take (range item).2.1) (own item)
      (range item).2.2) :
    Spliced id index (whole.drop index) (items.flatMap own)
      (splice id (whole.drop index) index (items.map range)) := by
  induction items generalizing index with
  | nil => exact .keep _ _
  | cons item items ih =>
    obtain ⟨hitem, hitems⟩ := forall_mem_cons.mp hown
    have hlow : index ≤ (range item).1 := hwithin.low_le _ mem_cons_self
    have hhigh : (range item).1 + (range item).2.1 ≤ whole.length :=
      hwithin.le_high _ mem_cons_self
    have hrest := ih hwithin.of_cons hitems
    rw [map_cons]
    generalize range item = edit at hlow hhigh hrest hitem ⊢
    obtain ⟨start, len, new⟩ := edit
    dsimp only at hlow hhigh hrest hitem
    have hskip : (whole.drop index).drop (start - index + len) = whole.drop (start + len) := by
      rw [drop_drop]
      congr 1
      omega
    rw [splice, map_id, hskip, append_assoc]
    conv => arg 3; rw [drop_eq_blocks whole len hlow]
    apply Spliced.kept_append
    have hkept : index + ((whole.drop index).take (start - index)).length =
        start := by
      rw [length_take, length_drop]
      omega
    have hblock : start + ((whole.drop start).take len).length = start + len := by
      rw [length_take, length_drop]
      omega
    rw [hkept]
    apply hitem.append
    rw [hblock]
    exact hrest
end Spliced

section Sorting

variable {edits : List (RangeEdit β)}

theorem insertionSort_of_before (hedits : edits.Pairwise RangeEdit.Before) :
    edits.insertionSort (fun first second => first.1 ≤ second.1) = edits := by
  apply List.Pairwise.insertionSort_eq
  exact hedits.imp fun hbefore => (Nat.le_add_right _ _).trans hbefore

/-- One edit among others that it does not overlap. -/
theorem pairwise_before_orderedInsert {edit : RangeEdit β}
    (hapart : ∀ other ∈ edits, edit.Apart other) (hedits : edits.Pairwise RangeEdit.Before) :
    (edits.orderedInsert (fun first second => first.1 ≤ second.1)
      edit).Pairwise RangeEdit.Before := by
  induction edits with
  | nil => exact pairwise_singleton _ _
  | cons other edits ih =>
    obtain ⟨hother, htail⟩ := pairwise_cons.mp hedits
    by_cases hle : edit.1 ≤ other.1
    · rw [orderedInsert_cons, if_pos hle]
      refine pairwise_cons.mpr ⟨?_, hedits⟩
      intro later hlater
      have hstart : edit.1 ≤ later.1 := by
        rcases mem_cons.mp hlater with rfl | hmem
        · exact hle
        · exact hle.trans ((Nat.le_add_right _ _).trans (hother later hmem))
      rcases hapart later hlater with hbefore | ⟨hempty, -⟩
      · exact hbefore
      · rw [RangeEdit.Before, hempty]
        exact hstart
    · rw [orderedInsert_cons, if_neg hle]
      have hback : other.Before edit := by
        rcases hapart other mem_cons_self with hbefore | ⟨-, hbefore⟩
        · exact absurd ((Nat.le_add_right _ _).trans hbefore) hle
        · exact hbefore
      refine pairwise_cons.mpr ⟨?_, ih (forall_mem_cons.mp hapart).2 htail⟩
      intro later hlater
      rcases (mem_orderedInsert _).mp hlater with rfl | hmem
      · exact hback
      · exact hother later hmem

/-- Sorting by where the ranges begin puts edits that are apart in order. -/
theorem pairwise_before_insertionSort (hedits : edits.Pairwise RangeEdit.Apart) :
    (edits.insertionSort (fun first second => first.1 ≤ second.1)).Pairwise RangeEdit.Before := by
  induction edits with
  | nil => exact .nil
  | cons edit edits ih =>
    obtain ⟨hedit, htail⟩ := pairwise_cons.mp hedits
    apply pairwise_before_orderedInsert _ (ih htail)
    intro other hother
    exact hedit other ((mem_insertionSort _).mp hother)

variable {first second : List (RangeEdit β)}

/-- A front in order that nothing behind it begins before. -/
theorem insertionSort_append_of_le (hfirst : first.Pairwise RangeEdit.Before)
    (hle : ∀ edit ∈ first, ∀ later ∈ second, edit.1 ≤ later.1) :
    (first ++ second).insertionSort (fun first second => first.1 ≤ second.1) =
      first ++ second.insertionSort (fun first second => first.1 ≤ second.1) := by
  induction first with
  | nil => rfl
  | cons edit first ih =>
    obtain ⟨hedit, hrest⟩ := pairwise_cons.mp hfirst
    obtain ⟨hhead, htail⟩ := forall_mem_cons.mp hle
    rw [cons_append, insertionSort_cons_of_forall_rel, ih hrest htail, cons_append]
    refine forall_mem_append.mpr ⟨fun later hmem => ?_, hhead⟩
    exact (Nat.le_add_right _ _).trans (hedit later hmem)

theorem orderedInsert_between {edit : RangeEdit β}
    (hfirst : ∀ earlier ∈ first, earlier.1 < edit.1)
    (hsecond : ∀ later ∈ second, edit.1 ≤ later.1) :
    (first ++ second).orderedInsert (fun first second => first.1 ≤ second.1) edit =
      first ++ edit :: second := by
  induction first with
  | nil =>
    cases second with
    | nil => rfl
    | cons later second =>
      rw [nil_append, orderedInsert_cons, if_pos (hsecond later mem_cons_self), nil_append]
  | cons earlier first ih =>
    obtain ⟨hhead, htail⟩ := forall_mem_cons.mp hfirst
    rw [cons_append, orderedInsert_cons, if_neg (Nat.not_le.mpr hhead), ih htail, cons_append]

end Sorting

end Hexa
