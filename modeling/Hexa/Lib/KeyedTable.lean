/-
Tables of one value for a key: what a lookup says of an erased or inserted
entry, and how many entries there are.
-/
import Mathlib

namespace Hexa

open List AList

universe u v

variable {Key : Type u} {Value : Type v} [DecidableEq Key]

/-- A table of values for keys. -/
abbrev KeyedTable (Key : Type u) (Value : Type v) := AList (fun _ : Key => Value)

namespace KeyedTable

variable {table : KeyedTable Key Value} {key erased : Key} {value : Value}

theorem mem_of_lookup (hvalue : table.lookup key = some value) : key ∈ table :=
  lookup_isSome.mp (by rw [hvalue]; rfl)

theorem exists_lookup (hmem : key ∈ table) : ∃ value, table.lookup key = some value :=
  Option.isSome_iff_exists.mp (lookup_isSome.mpr hmem)

theorem lookup_of_lookup_erase (hvalue : (table.erase erased).lookup key = some value) :
    key ≠ erased ∧ table.lookup key = some value := by
  by_cases hkey : key = erased
  · rw [hkey, lookup_erase] at hvalue
    cases hvalue
  · rw [lookup_erase_ne hkey] at hvalue
    exact ⟨hkey, hvalue⟩

theorem erase_of_notMem (hmem : key ∉ table) : table.erase key = table :=
  ext (kerase_of_notMem_keys hmem)

theorem entries_perm_erase (hvalue : table.lookup key = some value) :
    table.entries.Perm (⟨key, value⟩ :: (table.erase key).entries) := by
  obtain ⟨found, before, after, hbefore, hentries, herased⟩ :=
    exists_of_kerase (mem_keys.mp (mem_of_lookup hvalue))
  have hfound : found = value := by
    rw [AList.lookup, hentries, dlookup_append, dlookup_eq_none.mpr hbefore,
      Option.none_or, dlookup_cons_eq, Option.some.injEq] at hvalue
    exact hvalue
  change _ ~ _ :: List.kerase key table.entries
  rw [herased, hentries, hfound]
  exact perm_middle

theorem length_keys_erase_le (table : KeyedTable Key Value) (key : Key) :
    (table.erase key).keys.length ≤ table.keys.length := by
  rw [keys_erase]
  exact length_erase_le

theorem length_keys_erase (hmem : key ∈ table) :
    (table.erase key).keys.length + 1 = table.keys.length := by
  have hperm := perm_cons_erase (mem_keys.mp hmem)
  rw [keys_erase]
  exact hperm.length_eq.symm

theorem length_keys_insert_of_notMem (hmem : key ∉ table) (value : Value) :
    (table.insert key value).keys.length = table.keys.length + 1 := by
  rw [keys_insert, ← keys_erase, erase_of_notMem hmem, length_cons]

theorem length_keys_insert_of_mem (hmem : key ∈ table) (value : Value) :
    (table.insert key value).keys.length = table.keys.length := by
  rw [keys_insert, ← keys_erase, length_cons, length_keys_erase hmem]

/-- The table of a list of entries; of two for one key the later is kept. -/
def collect (pairs : List (Key × Value)) : KeyedTable Key Value :=
  pairs.foldl (fun table pair => table.insert pair.1 pair.2) ∅

theorem collect_concat (pairs : List (Key × Value)) (pair : Key × Value) :
    collect (pairs ++ [pair]) = (collect pairs).insert pair.1 pair.2 := by
  rw [collect, foldl_append]
  rfl

theorem mem_of_lookup_collect {pairs : List (Key × Value)}
    (hvalue : (collect pairs).lookup key = some value) : (key, value) ∈ pairs := by
  induction pairs using List.reverseRecOn with
  | nil => cases hvalue
  | append_singleton pairs pair ih =>
    rw [collect_concat] at hvalue
    by_cases hkey : key = pair.1
    · subst hkey
      rw [lookup_insert] at hvalue
      obtain rfl := Option.some.inj hvalue
      exact mem_append_right _ mem_cons_self
    · rw [lookup_insert_ne hkey] at hvalue
      exact mem_append_left _ (ih hvalue)

theorem exists_lookup_collect {pairs : List (Key × Value)} (hmem : (key, value) ∈ pairs) :
    ∃ kept, (collect pairs).lookup key = some kept := by
  induction pairs using List.reverseRecOn with
  | nil => cases hmem
  | append_singleton pairs pair ih =>
    rw [collect_concat]
    by_cases hkey : key = pair.1
    · exact ⟨pair.2, by rw [hkey, lookup_insert]⟩
    · rw [lookup_insert_ne hkey]
      rcases mem_append.mp hmem with hold | hlast
      · exact ih hold
      · obtain rfl := mem_singleton.mp hlast
        exact absurd rfl hkey

/-- Every value of the table has the property. -/
def Every (property : Value → Prop) (table : KeyedTable Key Value) : Prop :=
  ∀ entry ∈ table.entries, property entry.2

section

variable {property : Value → Prop}

theorem Every.of_lookup (hevery : Every property table) (hvalue : table.lookup key = some value) :
    property value :=
  hevery ⟨key, value⟩ (mem_lookup_iff.mp hvalue)

theorem Every.erase (hevery : Every property table) (key : Key) :
    Every property (table.erase key) :=
  fun entry hentry => hevery entry ((kerase_sublist _ _).subset hentry)

theorem Every.insert (hevery : Every property table) (key : Key) (hvalue : property value) :
    Every property (table.insert key value) := by
  exact forall_mem_cons.mpr ⟨hvalue, hevery.erase key⟩

end

/-- How many values of the table pass the test. -/
def countWhere (test : Value → Bool) (table : KeyedTable Key Value) : Nat :=
  table.entries.countP (fun entry => test entry.2)

variable {test : Value → Bool}

/-- An erased value is counted no more. -/
theorem countWhere_erase (table : KeyedTable Key Value) (key : Key) :
    countWhere test (table.erase key) + ((table.lookup key).any test).toNat =
      countWhere test table := by
  cases hvalue : table.lookup key with
  | none =>
    rw [erase_of_notMem (lookup_eq_none.mp hvalue)]
    rfl
  | some value =>
    rw [countWhere, countWhere, (entries_perm_erase hvalue).countP_eq,
      countP_cons, Option.any_some]
    cases test value <;> rfl

theorem countWhere_insert (table : KeyedTable Key Value) (key : Key) (value : Value) :
    countWhere test (table.insert key value) =
      countWhere test (table.erase key) + (test value).toNat := by
  change (List.countP _ (_ :: List.kerase key table.entries)) =
    (List.kerase key table.entries).countP _ + _
  rw [countP_cons]
  cases test value <;> simp

theorem countWhere_erase_of_lookup (hvalue : table.lookup key = some value) :
    countWhere test (table.erase key) + (test value).toNat = countWhere test table := by
  rw [← countWhere_erase table key, hvalue, Option.any_some]

theorem countWhere_insert_of_lookup (hvalue : table.lookup key = some value) (other : Value) :
    countWhere test (table.insert key other) + (test value).toNat =
      countWhere test table + (test other).toNat := by
  rw [countWhere_insert, ← countWhere_erase_of_lookup hvalue]
  omega

variable (update : Key → Value → Value)

/-- The table with every value changed in its place. -/
def mapValues (table : KeyedTable Key Value) :
    KeyedTable Key Value where
  entries := table.entries.map (fun entry => ⟨entry.1, update entry.1 entry.2⟩)
  nodupKeys := by
    have hkeys := table.nodupKeys
    rw [List.NodupKeys, List.keys] at hkeys ⊢
    rwa [map_map]

theorem lookup_mapValues (table : KeyedTable Key Value) (key : Key) :
    (mapValues update table).lookup key = (table.lookup key).map (update key) := by
  rw [AList.lookup, AList.lookup, mapValues]
  dsimp only
  induction table.entries with
  | nil => rfl
  | cons entry entries ih =>
    obtain ⟨other, value⟩ := entry
    by_cases hkey : key = other
    · subst hkey
      rw [map_cons, dlookup_cons_eq, dlookup_cons_eq]
      rfl
    · rw [map_cons, dlookup_cons_ne _ _ hkey, dlookup_cons_ne _ _ hkey, ih]

end KeyedTable

end Hexa
