/-
JSON texts as `serde_json` writes them without spaces: a reader that reads a
written string literal back, and how long the texts are.
-/
import Hexa.Lib.RustStr

namespace Hexa

open List

/-- The character `"`. -/
abbrev doubleQuote : Char := '\x22'

/-- The character `\`. -/
abbrev backslash : Char := '\x5c'

/-- A hexadecimal digit in lower case. -/
def hexDigit (value : Nat) : Char :=
  if value < 10 then Char.ofNat (48 + value) else Char.ofNat (87 + value)

def hexValue (digit : Char) : Option Nat :=
  if '0' ≤ digit ∧ digit ≤ '9' then some (digit.toNat - 48)
  else if 'a' ≤ digit ∧ digit ≤ 'f' then some (digit.toNat - 87)
  else none

variable (char : Char)

/-- Quotes, backslashes and control characters are escaped, everything else
stands for itself. -/
def jsonEscape : List Char :=
  if char = doubleQuote then [backslash, doubleQuote]
  else if char = backslash then [backslash, backslash]
  else if char = '\x08' then [backslash, 'b']
  else if char = '\x09' then [backslash, 't']
  else if char = '\x0a' then [backslash, 'n']
  else if char = '\x0c' then [backslash, 'f']
  else if char = '\x0d' then [backslash, 'r']
  else if char.toNat < 32 then
    [backslash, 'u', '0', '0', hexDigit (char.toNat / 16), hexDigit (char.toNat % 16)]
  else [char]

def jsonString (text : List Char) : List Char :=
  doubleQuote :: (text.flatMap jsonEscape ++ [doubleQuote])

/-- The character after a backslash. -/
def unescape : Option Char :=
  if char = doubleQuote then some doubleQuote
  else if char = backslash then some backslash
  else if char = 'b' then some '\x08'
  else if char = 't' then some '\x09'
  else if char = 'n' then some '\x0a'
  else if char = 'f' then some '\x0c'
  else if char = 'r' then some '\x0d'
  else none

/-- Read up to the closing quote.  The result is the string and what follows
the quote. -/
def readJsonBody : List Char → Option (List Char × List Char)
  | [] => none
  | '\x22' :: rest => some ([], rest)
  | '\x5c' :: 'u' :: '0' :: '0' :: high :: low :: rest =>
    match hexValue high, hexValue low with
    | some high, some low =>
      (readJsonBody rest).map (fun read => (Char.ofNat (16 * high + low) :: read.1, read.2))
    | _, _ => none
  | '\x5c' :: escaped :: rest =>
    match unescape escaped with
    | some char => (readJsonBody rest).map (fun read => (char :: read.1, read.2))
    | none => none
  | char :: rest => (readJsonBody rest).map (fun read => (char :: read.1, read.2))

def readJsonString : List Char → Option (List Char × List Char)
  | [] => none
  | char :: rest => if char = doubleQuote then readJsonBody rest else none

theorem readJsonBody_control {char : Char} (hchar : char.toNat < 32) (rest : List Char) :
    readJsonBody ([backslash, 'u', '0', '0', hexDigit (char.toNat / 16),
        hexDigit (char.toNat % 16)] ++ rest) =
      (readJsonBody rest).map (fun read => (char :: read.1, read.2)) := by
  have hback : char = Char.ofNat char.toNat := (Char.ofNat_toNat char).symm
  generalize char.toNat = code at hchar hback
  subst hback
  interval_cases code <;> rfl

/-- One escaped character reads back as the character. -/
theorem readJsonBody_jsonEscape (rest : List Char) :
    readJsonBody (jsonEscape char ++ rest) =
      (readJsonBody rest).map (fun read => (char :: read.1, read.2)) := by
  simp only [jsonEscape]
  split_ifs with hquote hback hb ht hn hf hr hcontrol
  · subst hquote
    rfl
  · subst hback
    rfl
  · subst hb
    rfl
  · subst ht
    rfl
  · subst hn
    rfl
  · subst hf
    rfl
  · subst hr
    rfl
  · exact readJsonBody_control hcontrol rest
  · exact readJsonBody.eq_5 char rest hquote
      (fun _ _ _ hchar _ => hback hchar) (fun _ _ hchar _ => hback hchar)

/-- A written literal reads back as the string it encodes. -/
theorem readJsonString_jsonString (text rest : List Char) :
    readJsonString (jsonString text ++ rest) = some (text, rest) := by
  have hbody : readJsonBody (text.flatMap jsonEscape ++ doubleQuote :: rest) =
      some (text, rest) := by
    induction text with
    | nil => rfl
    | cons char text ih =>
      rw [flatMap_cons, append_assoc, readJsonBody_jsonEscape, ih]
      rfl
  rw [jsonString, cons_append, append_assoc]
  exact hbody

theorem newline_notMem_jsonEscape : '\x0a' ∉ jsonEscape char := by
  simp only [jsonEscape]
  split_ifs with hquote hback hb ht hn hf hr hcontrol
  all_goals try decide
  · intro hmem
    have hlow : char.toNat % 16 < 16 := Nat.mod_lt _ (by decide)
    have hhigh : char.toNat / 16 < 2 := by omega
    generalize char.toNat / 16 = high at *
    generalize char.toNat % 16 = low at *
    interval_cases high <;> interval_cases low <;> revert hmem <;> decide
  · simpa using Ne.symm hn

theorem newline_notMem_jsonString (text : List Char) : '\x0a' ∉ jsonString text := by
  simp only [jsonString, mem_cons, mem_append, mem_flatMap, not_or, not_exists, not_and]
  exact ⟨by decide, fun char _ => newline_notMem_jsonEscape char, by decide⟩

variable (items : List Text)

def jsonArray : Text := '[' :: (List.intercalate [','] items ++ [']'])

def jsonField (field : Text × Text) : Text := jsonString field.1 ++ ':' :: field.2

def jsonObject (fields : List (Text × Text)) : Text :=
  '\x7b' :: (List.intercalate [','] (fields.map jsonField) ++ ['\x7d'])

def jsonBool (value : Bool) : Text := if value then "true".toList else "false".toList

def jsonNat (value : Nat) : Text := Nat.toDigits 10 value

def jsonOption (value : Option Text) : Text :=
  match value with
  | some text => jsonString text
  | none => "null".toList

theorem utf8Len_intercalate :
    utf8Len (List.intercalate [','] items) = (items.map utf8Len).sum + (items.length - 1) := by
  induction items with
  | nil => rfl
  | cons item items ih =>
    cases items with
    | nil => simp
    | cons second items =>
      rw [intercalate_cons_cons, utf8Len_append, utf8Len_append, ih]
      simp only [map_cons, sum_cons, length_cons]
      have hcomma : utf8Len [','] = 1 := rfl
      omega

theorem utf8Len_jsonArray :
    utf8Len (jsonArray items) = (items.map utf8Len).sum + (items.length - 1) + 2 := by
  rw [jsonArray, utf8Len_cons, utf8Len_append, utf8Len_intercalate]
  have hopen : Char.utf8Size '[' = 1 := rfl
  have hclose : utf8Len [']'] = 1 := rfl
  omega

theorem utf8Len_jsonObject (fields : List (Text × Text)) :
    utf8Len (jsonObject fields) =
      (fields.map (fun field => utf8Len (jsonField field))).sum + (fields.length - 1) + 2 := by
  rw [jsonObject, utf8Len_cons, utf8Len_append, utf8Len_intercalate, map_map, length_map]
  change 1 + (_ + 1) = _
  simp only [Function.comp_def]
  omega

theorem utf8Len_jsonField (name value : Text) :
    utf8Len (jsonField (name, value)) = utf8Len (jsonString name) + utf8Len value + 1 := by
  rw [jsonField, utf8Len_append]
  change utf8Len (jsonString name) + (1 + utf8Len value) = _
  omega

/-- An array of fewer items is not longer. -/
theorem utf8Len_jsonArray_sublist {part whole : List Text} (hpart : part.Sublist whole) :
    utf8Len (jsonArray part) ≤ utf8Len (jsonArray whole) := by
  rw [utf8Len_jsonArray, utf8Len_jsonArray]
  have hsum := (hpart.map utf8Len).sum_le_sum (fun _ _ => Nat.zero_le _)
  have hlength := hpart.length_le
  omega

theorem utf8Len_jsonEscape_le (char : Char) : utf8Len (jsonEscape char) ≤ 6 * char.utf8Size := by
  have hpos := Char.utf8Size_pos char
  have hpair : ∀ first second : Char, first.utf8Size = 1 →
      second.utf8Size = 1 → utf8Len [first, second] ≤ 6 * char.utf8Size := by
    intro first second hfirst hsecond
    rw [utf8Len_cons, utf8Len_cons, hfirst, hsecond]
    change 2 ≤ 6 * char.utf8Size
    omega
  have hhex : ∀ value < 16, (hexDigit value).utf8Size = 1 := by decide
  rw [jsonEscape]
  split_ifs with _ _ _ _ _ _ _ hcontrol
  · exact hpair _ _ rfl rfl
  · exact hpair _ _ rfl rfl
  · exact hpair _ _ rfl rfl
  · exact hpair _ _ rfl rfl
  · exact hpair _ _ rfl rfl
  · exact hpair _ _ rfl rfl
  · exact hpair _ _ rfl rfl
  · have hhigh := hhex (char.toNat / 16) (by omega)
    have hlow := hhex (char.toNat % 16) (Nat.mod_lt _ (by decide))
    simp only [utf8Len_cons, hhigh, hlow]
    change 6 ≤ 6 * char.utf8Size
    omega
  · change char.utf8Size ≤ 6 * char.utf8Size
    omega

theorem utf8Len_jsonString_le (text : Text) :
    utf8Len (jsonString text) ≤ 6 * utf8Len text + 2 := by
  have hbody : utf8Len (text.flatMap jsonEscape) ≤ 6 * utf8Len text := by
    induction text with
    | nil => exact Nat.le_refl 0
    | cons char text ih =>
      rw [flatMap_cons, utf8Len_append, utf8Len_cons]
      have hchar := utf8Len_jsonEscape_le char
      omega
  rw [jsonString, utf8Len_cons, utf8Len_append]
  have hquote : Char.utf8Size doubleQuote = 1 := rfl
  have hlast : utf8Len [doubleQuote] = 1 := rfl
  omega

end Hexa
