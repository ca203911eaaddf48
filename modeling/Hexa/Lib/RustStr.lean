/-
The operations of Rust's `str` that parsers use, on lists of characters.
-/
import Mathlib

namespace Hexa

open List

/-- A text as the list of its characters. -/
abbrev Text := List Char

instance : LawfulBEq Text := List.instLawfulBEq

/-- A byte buffer. -/
abbrev Bytes := List UInt8

/-- The Unicode property `White_Space`. -/
def isWhiteSpace (char : Char) : Bool :=
  let code := char.toNat
  (9 ≤ code && code ≤ 13) || code == 0x20 || code == 0x85 || code == 0xA0 ||
    code == 0x1680 || (0x2000 ≤ code && code ≤ 0x200A) || code == 0x2028 ||
    code == 0x2029 || code == 0x202F || code == 0x205F || code == 0x3000

def trimStart (text : Text) : Text := text.dropWhile isWhiteSpace

def trim (text : Text) : Text := (text.dropWhile isWhiteSpace).rdropWhile isWhiteSpace

/-- `trim_end_matches` with a character. -/
def trimEndMatches (char : Char) (text : Text) : Text := text.rdropWhile (· == char)

def toAsciiLowercase (text : Text) : Text := text.map Char.toLower

def stripPrefix (lead text : Text) : Option Text :=
  if lead.isPrefixOf text then some (text.drop lead.length) else none

/-- The text before and after the first occurrence of a delimiter. -/
def splitOnce (delimiter : Text) : Text → Option (Text × Text)
  | [] => if delimiter = [] then some ([], []) else none
  | char :: rest =>
    if delimiter.isPrefixOf (char :: rest) then some ([], (char :: rest).drop delimiter.length)
    else (splitOnce delimiter rest).map (fun parts => (char :: parts.1, parts.2))

/-- The length in bytes. -/
def utf8Len (text : Text) : Nat := (text.map Char.utf8Size).sum

/-- `truncate` at the `floor_char_boundary` of a number of bytes. -/
def truncateAt : Nat → Text → Text
  | _, [] => []
  | limit, char :: text =>
    if char.utf8Size ≤ limit then char :: truncateAt (limit - char.utf8Size) text
    else []

theorem utf8Len_cons (char : Char) (text : Text) :
    utf8Len (char :: text) = char.utf8Size + utf8Len text := by
  simp [utf8Len]

theorem utf8Len_append (first second : Text) :
    utf8Len (first ++ second) = utf8Len first + utf8Len second := by
  simp [utf8Len]

theorem utf8Len_truncateAt_le (limit : Nat) (text : Text) :
    utf8Len (truncateAt limit text) ≤ limit := by
  induction text generalizing limit with
  | nil => exact Nat.zero_le limit
  | cons char text ih =>
    rw [truncateAt]
    split_ifs with hfits
    · rw [utf8Len_cons]
      have hrest := ih (limit - char.utf8Size)
      omega
    · exact Nat.zero_le limit

variable {text : Text}

theorem stripPrefix_eq_some_iff {lead rest : Text} :
    stripPrefix lead text = some rest ↔ text = lead ++ rest := by
  simp only [stripPrefix]
  split_ifs with hlead
  · obtain ⟨tail, rfl⟩ := isPrefixOf_iff_prefix.mp hlead
    simp
  · simp only [false_iff]
    rintro rfl
    exact hlead ( isPrefixOf_iff_prefix.mpr (prefix_append lead rest))

theorem stripPrefix_cons_of_ne {left right : Char} (hne : left ≠ right) (lead text : Text) :
    stripPrefix (left :: lead) (right :: text) = none := by
  simp [stripPrefix, hne]

section

variable {delimiter before after : Text}
  (hsplit : splitOnce delimiter text = some (before, after))
include hsplit

theorem splitOnce_eq_some : text = before ++ delimiter ++ after := by
  induction text generalizing before with
  | nil =>
    simp only [splitOnce] at hsplit
    split_ifs at hsplit with hdelimiter
    obtain ⟨rfl, rfl⟩ := hsplit
    simp [hdelimiter]
  | cons char rest ih =>
    simp only [splitOnce] at hsplit
    split_ifs at hsplit with hlead
    · obtain ⟨rfl, rfl⟩ := hsplit
      obtain ⟨tail, htail⟩ := isPrefixOf_iff_prefix.mp hlead
      simp [← htail]
    · simp only [Option.map_eq_some_iff] at hsplit
      obtain ⟨⟨front, _⟩, hrest, rfl, rfl⟩ := hsplit
      simp [ih hrest]

theorem splitOnce_isPrefix : before <+: text := by
  rw [splitOnce_eq_some hsplit, append_assoc]
  exact prefix_append _ _

end

/-- The first occurrence of a character. -/
theorem splitOnce_char {char : Char} {text before after : Text} :
    splitOnce [char] text = some (before, after) ↔
      text = before ++ char :: after ∧ char ∉ before := by
  induction text generalizing before with
  | nil => simp [splitOnce]
  | cons next rest ih =>
    by_cases hnext : char = next
    · subst hnext
      cases before with
      | nil => simp [splitOnce, eq_comm]
      | cons first before =>
        simp only [splitOnce, isPrefixOf, beq_self_eq_true, Bool.true_and, if_true]
        constructor
        · intro h
          cases h
        · rintro ⟨h, hnot⟩
          rw [cons_append, List.cons.injEq] at h
          simp [h.1] at hnot
    · cases before with
      | nil =>
        simp [splitOnce, isPrefixOf, hnext, Ne.symm hnext]
      | cons first before =>
        simp only [splitOnce, isPrefixOf, beq_eq_false_iff_ne.mpr hnext, Bool.false_and,
          Bool.false_eq_true, if_false, Option.map_eq_some_iff, Prod.exists, Prod.mk.injEq,
          List.cons.injEq, cons_append, mem_cons, not_or]
        constructor
        · rintro ⟨front, back, hsplit, ⟨rfl, rfl⟩, rfl⟩
          obtain ⟨htext, hnot⟩ := ih.mp hsplit
          exact ⟨⟨rfl, htext⟩, hnext, hnot⟩
        · rintro ⟨⟨rfl, htext⟩, -, hnot⟩
          exact ⟨before, after, ih.mpr ⟨htext, hnot⟩, ⟨rfl, rfl⟩, rfl⟩
variable {char : Char}

theorem mem_of_mem_trim (hmem : char ∈ trim text) : char ∈ text :=
  (dropWhile_sublist isWhiteSpace).subset (( rdropWhile_prefix isWhiteSpace _).subset hmem)

theorem mem_of_mem_trimEndMatches {last : Char} (hmem : char ∈ trimEndMatches last text) :
    char ∈ text :=
  ( rdropWhile_prefix _ text).subset hmem

theorem toLower_toLower (char : Char) : char.toLower.toLower = char.toLower := by
  by_cases hupper : char.val ≥ 'A'.val ∧ char.val ≤ 'Z'.val
  · have hbound : ¬char.toLower.val ≤ 'Z'.val := by
      simp only [Char.toLower, hupper]
      have hlow := UInt32.le_iff_toNat_le.mp hupper.1
      have hhigh := UInt32.le_iff_toNat_le.mp hupper.2
      simp only [UInt32.le_iff_toNat_le]
      simp at hlow hhigh ⊢
      omega
    rw [Char.toLower, dif_neg (fun hrange => hbound hrange.2)]
  · simp only [Char.toLower, hupper, dite_false]

/-- Lowering the case brings in letters only. -/
theorem mem_of_mem_toAsciiLowercase (hmem : char ∈ toAsciiLowercase text)
    (hchar : char.toNat < 97) : char ∈ text := by
  obtain ⟨other, hother, rfl⟩ := mem_map.mp hmem
  rw [Char.toLower] at hchar ⊢
  split_ifs at hchar ⊢ with hupper
  · have hlow := UInt32.le_iff_toNat_le.mp hupper.1
    have hhigh := UInt32.le_iff_toNat_le.mp hupper.2
    simp at hlow hhigh hchar
    omega
  · exact hother

theorem trim_of_visible (hvisible : ∀ char ∈ text, isWhiteSpace char = false) :
    trim text = text := by
  rw [trim, dropWhile_eq_self_iff.mpr, rdropWhile_eq_self_iff]
  · exact fun hne => by simp [hvisible _ (getLast_mem hne)]
  · exact fun hpos => by simp [hvisible _ (getElem_mem hpos)]

theorem toAsciiLowercase_eq_self_iff :
    toAsciiLowercase text = text ↔ ∀ char ∈ text, char.toLower = char := by
  induction text with
  | nil => simp [toAsciiLowercase]
  | cons char rest ih =>
    simp only [toAsciiLowercase, map_cons, List.cons.injEq, forall_mem_cons] at ih ⊢
    rw [ih]

/-- The last character is visible. -/
def EndsVisible (text : Text) : Prop :=
  ∃ init last, text = init ++ [last] ∧ isWhiteSpace last = false

/-- The first character is visible. -/
def StartsVisible (text : Text) : Prop :=
  ∃ first rest, text = first :: rest ∧ isWhiteSpace first = false

theorem EndsVisible.append (hend : EndsVisible text) (lead : Text) :
    EndsVisible (lead ++ text) := by
  obtain ⟨init, last, rfl, hlast⟩ := hend
  exact ⟨lead ++ init, last, (append_assoc lead init [last]).symm, hlast⟩

theorem StartsVisible.append (hstart : StartsVisible text) (tail : Text) :
    StartsVisible (text ++ tail) := by
  obtain ⟨first, rest, rfl, hfirst⟩ := hstart
  exact ⟨first, rest ++ tail, rfl, hfirst⟩

theorem EndsVisible.ne_nil (hend : EndsVisible text) : text ≠ [] := by
  obtain ⟨init, last, rfl, -⟩ := hend
  simp

theorem EndsVisible.getLast?_ne (hend : EndsVisible text) (hchar : isWhiteSpace char = true) :
    text.getLast? ≠ some char := by
  obtain ⟨init, last, rfl, hlast⟩ := hend
  rw [getLast?_concat, Ne, Option.some.injEq]
  rintro rfl
  rw [hchar] at hlast
  cases hlast

theorem EndsVisible.rdropWhile_append {tail : Text} (hend : EndsVisible text)
    (htail : ∀ char ∈ tail, isWhiteSpace char = true) :
    (text ++ tail).rdropWhile isWhiteSpace = text := by
  induction tail using List.reverseRecOn with
  | nil =>
    obtain ⟨init, last, rfl, hlast⟩ := hend
    rw [append_nil]
    exact rdropWhile_concat_neg _ _ _ (by simp [hlast])
  | append_singleton tail char ih =>
    rw [← append_assoc, rdropWhile_concat_pos _ _ _ (htail char (by simp))]
    exact ih (fun other hmem => htail other (mem_append_left _ hmem))

/-- Trimming removes no more than the white space around a text. -/
theorem trim_append {tail : Text} (hstart : StartsVisible text) (hend : EndsVisible text)
    (htail : ∀ char ∈ tail, isWhiteSpace char = true) : trim (text ++ tail) = text := by
  obtain ⟨first, rest, hfirst, hvisible⟩ := hstart.append tail
  rw [trim, hfirst, dropWhile_cons_of_neg (by simp [hvisible]),
    ← hfirst, hend.rdropWhile_append htail]

theorem trim_eq_self (hstart : StartsVisible text) (hend : EndsVisible text) :
    trim text = text := by
  have hnothing : ∀ char ∈ ([] : Text), isWhiteSpace char = true := by simp
  simpa using trim_append hstart hend hnothing

theorem endsVisible_of_trim (htrim : trim text = text) (hne : text ≠ []) : EndsVisible text := by
  have hlast := rdropWhile_last_not isWhiteSpace (text.dropWhile isWhiteSpace)
  change ∀ h : trim text ≠ [], ¬isWhiteSpace ((trim text).getLast h) at hlast
  rw [htrim] at hlast
  exact ⟨text.dropLast, text.getLast hne,
    (dropLast_append_getLast hne).symm, by simpa using hlast hne⟩

theorem rdropWhile_prefix_append (front back : Text) :
    front.rdropWhile isWhiteSpace <+: (front ++ back).rdropWhile isWhiteSpace := by
  induction back using List.reverseRecOn with
  | nil => simp
  | append_singleton back char ih =>
    rw [← append_assoc, rdropWhile_concat]
    split_ifs
    · exact ih
    · exact ( rdropWhile_prefix _ front).trans
        ((prefix_append front back).trans (prefix_append _ _))

/-- Trimming a beginning of a text gives a beginning of the trimmed text. -/
theorem trim_prefix {front : Text} (hleading : front <+: text) : trim front <+: trim text := by
  obtain ⟨back, rfl⟩ := hleading
  rw [trim, trim, dropWhile_append]
  split_ifs with hempty
  · rw [List.isEmpty_iff] at hempty
    rw [hempty]
    exact nil_prefix
  · exact rdropWhile_prefix_append _ back

theorem trim_trim (text : Text) : trim (trim text) = trim text := by
  have hstart : (trim text).dropWhile isWhiteSpace = trim text := by
    rw [dropWhile_eq_self_iff]
    intro hpos
    have hfirst := ( rdropWhile_prefix isWhiteSpace (text.dropWhile isWhiteSpace)).getElem hpos
    exact hfirst ▸ dropWhile_get_zero_not isWhiteSpace text _
  rw [trim, hstart]
  exact rdropWhile_idempotent _ _

theorem trim_concat (hchar : isWhiteSpace char = true) : trim (text ++ [char]) = trim text := by
  rw [trim, trim, dropWhile_append]
  split_ifs with hempty
  · rw [List.isEmpty_iff] at hempty
    rw [hempty, List.dropWhile_cons_of_pos hchar]
    rfl
  · exact rdropWhile_concat_pos _ _ _ hchar

end Hexa
