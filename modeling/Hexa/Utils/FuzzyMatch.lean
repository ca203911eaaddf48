/-
The fuzzy matcher: a greedy scan for the lowercased needle in the lowercased
haystack, and the characters of the haystack that it is made of.
-/
import Hexa.Lib.RustStr

namespace Hexa.FuzzyMatch

open List Function

/-- The characters that the scan finds for a needle, with their positions. -/
def scan : Text → List ((Char × Nat) × Nat) → Option (List ((Char × Nat) × Nat))
  | [], _ => some []
  | _ :: _, [] => none
  | char :: needle, found :: rest =>
    if found.1.1 = char then (scan needle rest).map (found :: ·) else scan (char :: needle) rest

def score (lowered : List (Char × Nat)) (needle : Text) (hits : List ((Char × Nat) × Nat)) :
    Int :=
  let first := match hits with
    | [] => 0
    | hit :: _ => lowered.findIdx (fun other => other.2 = hit.1.2)
  let last := (hits.getLast?.map Prod.snd).getD first
  max (last - first + 1 - needle.length) 0 - if first = 0 then 100 else 0

theorem scan_isSome_iff (needle : Text) (list : List ((Char × Nat) × Nat)) :
    (scan needle list).isSome ↔ needle <+ list.map (·.1.1) := by
  fun_induction scan needle list with
  | case1 => simp
  | case2 => simp
  | case3 needle found rest ih => simpa using ih
  | case4 char needle found rest hne ih =>
    rw [ih, map_cons, sublist_cons_iff]
    simp [Ne.symm hne]

theorem scan_spec {needle : Text} {list hits : List ((Char × Nat) × Nat)}
    (hscan : scan needle list = some hits) : hits <+ list ∧ hits.map (·.1.1) = needle := by
  fun_induction scan needle list generalizing hits with
  | case1 =>
    cases hscan
    simp
  | case2 => cases hscan
  | case3 needle found rest ih =>
    obtain ⟨tail, htail, rfl⟩ := Option.map_eq_some_iff.mp hscan
    obtain ⟨hsub, hmap⟩ := ih htail
    exact ⟨hsub.cons_cons found, by simp [hmap]⟩
  | case4 char needle found rest hne ih =>
    obtain ⟨hsub, hmap⟩ := ih hscan
    exact ⟨hsub.cons found, hmap⟩

/-- The case tables of Unicode, with `char::to_lowercase`. -/
class CaseTables where
  lower : Char → Text
  cased : Char → Bool
  caseIgnorable : Char → Bool
  lower_sigma : lower 'Σ' = ['σ']

open CaseTables

section

variable [CaseTables]

def caseIgnorableThenCased (text : Text) : Bool := (text.dropWhile caseIgnorable).head?.any cased

/-- Whether a sigma ends a word, with the text before it read backwards. -/
def isWordFinal (before rest : Text) : Bool :=
  caseIgnorableThenCased before && !caseIgnorableThenCased rest

/-- `str::to_lowercase` behind a text that is read backwards. -/
def lowercaseBehind (before : Text) : Text → Text
  | [] => []
  | char :: rest =>
    (if char = 'Σ' then [if isWordFinal before rest then 'ς' else 'σ'] else lower char) ++
      lowercaseBehind (char :: before) rest

def toLowercase (text : Text) : Text := lowercaseBehind [] text

/-- `lowered_chars` with `lowered_to_orig_char_idx`. -/
def loweredChars (haystack : Text) : List (Char × Nat) :=
  haystack.zipIdx.flatMap (fun (char, index) => (lower char).map (·, index))

def fuzzyMatch (haystack needle : Text) : Option (List Nat × Int) :=
  if needle = [] then some ([], 2 ^ 31 - 1)
  else
    (scan (toLowercase needle) (loweredChars haystack).zipIdx).map (fun hits =>
      (((hits.map (·.1.2)).insertionSort (· ≤ ·)).dedup,
        score (loweredChars haystack) (toLowercase needle) hits))

/-- The characters of the haystack at some positions, lowercased. -/
def expansionsAt (haystack : Text) (indices : List Nat) : Text :=
  (haystack.zipIdx.filter (·.2 ∈ indices)).flatMap (lower ·.1)

/-- The positions that a match reports, and what is found there. -/
structure Sound (haystack needle : Text) (indices : List Nat) : Prop where
  increasing : indices.Pairwise (· < ·)
  valid : ∀ index ∈ indices, index < haystack.length
  found : toLowercase needle <+ expansionsAt haystack indices

theorem filter_loweredChars (indices : List Nat) (list : List (Char × Nat)) :
    ((list.flatMap (fun (char, index) => (lower char).map (·, index))).filter
      (·.2 ∈ indices)).map Prod.fst = (list.filter (·.2 ∈ indices)).flatMap (lower ·.1) := by
  induction list with
  | nil => rfl
  | cons pair list ih =>
    rw [flatMap_cons, filter_append, map_append, ih]
    by_cases hmem : pair.2 ∈ indices
    · simp [hmem, filter_map, comp_def]
    · simp [hmem, filter_map, comp_def]

theorem fuzzyMatch_sound {haystack needle : Text} {indices : List Nat} {points : Int}
    (hmatch : fuzzyMatch haystack needle = some (indices, points)) :
    Sound haystack needle indices := by
  rw [fuzzyMatch] at hmatch
  split_ifs at hmatch with hempty
  · cases hmatch
    subst hempty
    exact ⟨.nil, nofun, nil_sublist _⟩
  · obtain ⟨hits, hscan, hresult⟩ := Option.map_eq_some_iff.mp hmatch
    obtain ⟨hsub, hneedle⟩ := scan_spec hscan
    have hlowered : hits.map Prod.fst <+ loweredChars haystack := by simpa using hsub.map Prod.fst
    obtain ⟨rfl, -⟩ := Prod.mk.inj hresult
    refine ⟨?_, fun index hindex => ?_, ?_⟩
    · have hsorted :=
        (pairwise_insertionSort (· ≤ ·) (hits.map (·.1.2))).sublist (dedup_sublist _)
      exact (hsorted.and (nodup_dedup _)).imp fun h => Nat.lt_of_le_of_ne h.1 h.2
    · rw [mem_dedup, mem_insertionSort, mem_map] at hindex
      obtain ⟨hit, hhit, rfl⟩ := hindex
      have hfrom := hlowered.subset (mem_map_of_mem hhit)
      simp only [loweredChars, mem_flatMap, mem_map] at hfrom
      obtain ⟨⟨char, position⟩, hzip, lowered, -, heq⟩ := hfrom
      rw [← heq]
      simpa using (mem_zipIdx hzip).2.1
    · rw [expansionsAt, ← filter_loweredChars, ← hneedle,
        show hits.map (·.1.1) = (hits.map Prod.fst).map Prod.fst by simp]
      have hkept := hlowered.filter (·.2 ∈ ((hits.map (·.1.2)).insertionSort (· ≤ ·)).dedup)
      rw [filter_eq_self.mpr] at hkept
      · exact hkept.map Prod.fst
      · intro pair hpair
        obtain ⟨hit, hhit, rfl⟩ := mem_map.mp hpair
        simpa using ⟨_, _, hhit⟩

variable {before text : Text}

/-- Without a sigma that ends a word, a text is lowercased by characters. -/
theorem lowercaseBehind_eq (hsigma : ∀ front rest, text = front ++ 'Σ' :: rest →
      isWordFinal (front.reverse ++ before) rest = false) :
    lowercaseBehind before text = text.flatMap lower := by
  induction text generalizing before with
  | nil => rfl
  | cons char rest ih =>
    have hrest : lowercaseBehind (char :: before) rest = rest.flatMap lower := by
      refine ih fun front tail heq => ?_
      simpa using hsigma (char :: front) tail (by rw [heq, cons_append])
    rw [lowercaseBehind, hrest, flatMap_cons]
    split_ifs with hchar hfinal
    · have hnot := hsigma [] rest (by rw [hchar, nil_append])
      simp [hfinal] at hnot
    · rw [hchar, lower_sigma]
    · rfl

theorem flatMap_lower_sublist {needle haystack : Text} (hsub : needle <+ haystack) :
    needle.flatMap lower <+ haystack.flatMap lower := by
  induction hsub with
  | slnil => exact .refl _
  | cons char _ ih => exact ih.trans (sublist_append_right _ _)
  | cons_cons char _ ih => exact ih.append_left _

theorem fuzzyMatch_isSome_iff (haystack needle : Text) :
    (fuzzyMatch haystack needle).isSome ↔ toLowercase needle <+ haystack.flatMap lower := by
  have hchars : (loweredChars haystack).zipIdx.map (·.1.1) = haystack.flatMap lower := by
    rw [← comp_def Prod.fst, ← map_map, zipIdx_map_fst, loweredChars, map_flatMap]
    simp [comp_def, ← flatMap_map Prod.fst lower]
  rw [fuzzyMatch]
  split_ifs with hempty
  · simp [hempty, toLowercase, lowercaseBehind]
  · rw [Option.isSome_map, scan_isSome_iff, hchars]

/-- What a match reports is there, and a match is found if and only if the
needle is in the haystack after both are lowercased; so it is if it was there
before, unless a sigma of it ends a word. -/
theorem fuzzy_match_sound_and_complete (haystack needle : Text) :
    (∀ indices points, fuzzyMatch haystack needle = some (indices, points) →
      Sound haystack needle indices) ∧
    ((fuzzyMatch haystack needle).isSome ↔ toLowercase needle <+ haystack.flatMap lower) ∧
    (needle <+ haystack → (∀ front rest, needle = front ++ 'Σ' :: rest →
      isWordFinal front.reverse rest = false) → (fuzzyMatch haystack needle).isSome) := by
  refine ⟨fun indices points => fuzzyMatch_sound, fuzzyMatch_isSome_iff haystack needle, ?_⟩
  intro hsub hsigma
  rw [fuzzyMatch_isSome_iff, toLowercase, lowercaseBehind_eq (by simpa using hsigma)]
  exact flatMap_lower_sublist hsub

end

/-- The tables for an alpha and a sigma. -/
instance : CaseTables where
  lower char := if char = 'Α' then ['α'] else if char = 'Σ' then ['σ'] else [char]
  cased char := char = 'Α' || char = 'Σ'
  caseIgnorable _ := false
  lower_sigma := rfl

theorem word_does_not_match_itself : fuzzyMatch ['Α', 'Σ'] ['Α', 'Σ'] = none := by
  decide

end Hexa.FuzzyMatch
