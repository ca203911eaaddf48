/-
Bytes of a URL in which `%` and two hex digits stand for a byte.
-/
import Hexa.Lib.RustStr

namespace Hexa

open List String

/-- The bytes of an ASCII text. -/
def ascii (text : String) : Bytes := text.toList.map (fun char => UInt8.ofNat char.toNat)

def percent : UInt8 := 0x25

def hexByteValue (digit : UInt8) : Option Nat :=
  if 48 ≤ digit.toNat ∧ digit.toNat ≤ 57 then some (digit.toNat - 48)
  else if 65 ≤ digit.toNat ∧ digit.toNat ≤ 70 then some (digit.toNat - 55)
  else if 97 ≤ digit.toNat ∧ digit.toNat ≤ 102 then some (digit.toNat - 87)
  else none

def hexByte (value : Nat) : UInt8 := UInt8.ofNat (if value < 10 then 48 + value else 55 + value)

/-- A `%` that is not followed by two hex digits stands for itself. -/
def percentDecode : Bytes → Bytes
  | byte :: high :: low :: rest =>
    if byte = percent then
      match hexByteValue high, hexByteValue low with
      | some high, some low => UInt8.ofNat (16 * high + low) :: percentDecode rest
      | _, _ => byte :: percentDecode (high :: low :: rest)
    else byte :: percentDecode (high :: low :: rest)
  | short => short

/-- The bytes that are not kept are written with `%`. -/
def percentEncode (kept : UInt8 → Bool) (bytes : Bytes) : Bytes :=
  bytes.flatMap (fun byte =>
    if kept byte then [byte]
    else [percent, hexByte (byte.toNat / 16), hexByte (byte.toNat % 16)])

theorem hexByteValue_hexByte {value : Nat} (hvalue : value < 16) :
    hexByteValue (hexByte value) = some value := by
  have hdigits : ∀ digit : Fin 16, hexByteValue (hexByte digit.val) = some digit.val := by decide
  exact hdigits ⟨value, hvalue⟩

variable {byte : UInt8}

theorem percentDecode_cons_of_ne (hne : byte ≠ percent) (rest : Bytes) :
    percentDecode (byte :: rest) = byte :: percentDecode rest := by
  match rest with
  | [] | [_] => rfl
  | _ :: _ :: _ => rw [percentDecode, if_neg hne]

theorem percentDecode_escape (byte : UInt8) (rest : Bytes) :
    percentDecode (percent :: hexByte (byte.toNat / 16) :: hexByte (byte.toNat % 16) :: rest) =
      byte :: percentDecode rest := by
  have hlt : byte.toNat < 256 := byte.toNat_lt_size
  have hvalue : 16 * (byte.toNat / 16) + byte.toNat % 16 = byte.toNat := by omega
  rw [percentDecode, hexByteValue_hexByte (by omega), hexByteValue_hexByte (by omega)]
  simp [hvalue]

/-- What is encoded reads back. -/
theorem percentDecode_percentEncode {kept : UInt8 → Bool} (hkept : kept percent = false)
    (bytes : Bytes) : percentDecode (percentEncode kept bytes) = bytes := by
  induction bytes with
  | nil => rfl
  | cons byte bytes ih =>
    rw [percentEncode, flatMap_cons]
    split_ifs with hbyte
    · have hne : byte ≠ percent := by
        rintro rfl
        rw [hkept] at hbyte
        cases hbyte
      rw [singleton_append, percentDecode_cons_of_ne hne]
      exact congrArg _ ih
    · exact (percentDecode_escape byte _).trans (congrArg _ ih)

variable {bytes : Bytes}

/-- What is kept is not encoded. -/
theorem percentEncode_of_kept {kept : UInt8 → Bool} (hkept : ∀ byte ∈ bytes, kept byte = true) :
    percentEncode kept bytes = bytes := by
  induction bytes with
  | nil => rfl
  | cons byte bytes ih =>
    obtain ⟨hbyte, hbytes⟩ := forall_mem_cons.mp hkept
    rw [percentEncode, flatMap_cons, if_pos hbyte]
    exact congrArg _ (ih hbytes)

/-- What holds no `%` stands for itself. -/
theorem percentDecode_of_notMem (hpercent : percent ∉ bytes) : percentDecode bytes = bytes := by
  induction bytes with
  | nil => rfl
  | cons byte bytes ih =>
    rw [mem_cons, not_or] at hpercent
    rw [percentDecode_cons_of_ne (Ne.symm hpercent.1), ih hpercent.2]

def asciiLower (byte : UInt8) : UInt8 :=
  if 65 ≤ byte.toNat ∧ byte.toNat ≤ 90 then byte + 32 else byte

def eqIgnoreAsciiCase (left right : Bytes) : Bool := left.map asciiLower == right.map asciiLower

def isAsciiAlphabetic (byte : UInt8) : Bool :=
  (65 ≤ byte.toNat && byte.toNat ≤ 90) || (97 ≤ byte.toNat && byte.toNat ≤ 122)

theorem percentDecode_eq_nil {segment : Bytes} : percentDecode segment = [] ↔ segment = [] := by
  match segment with
  | [] | [_] | [_, _] => simp [percentDecode]
  | byte :: high :: low :: rest =>
    rw [percentDecode]
    split_ifs
    · split
      · simp
      · simp
    · simp

theorem toNat_asciiLower (byte : UInt8) :
    (asciiLower byte).toNat =
      if 65 ≤ byte.toNat ∧ byte.toNat ≤ 90 then byte.toNat + 32
      else byte.toNat := by
  rw [asciiLower]
  split_ifs
  · have hadd : (32 : UInt8).toNat = 32 := rfl
    rw [UInt8.toNat_add]
    omega
  · rfl

theorem asciiLower_asciiLower (byte : UInt8) :
    asciiLower (asciiLower byte) = asciiLower byte := by
  rw [← UInt8.toNat_inj, toNat_asciiLower, toNat_asciiLower]
  split_ifs <;> omega

theorem asciiLower_eq_percent : asciiLower byte = percent ↔ byte = percent := by
  have hpercent : percent.toNat = 37 := rfl
  rw [← UInt8.toNat_inj, ← UInt8.toNat_inj, toNat_asciiLower]
  split_ifs <;> omega

theorem hexByteValue_asciiLower (digit : UInt8) :
    hexByteValue (asciiLower digit) = hexByteValue digit := by
  simp only [hexByteValue, toNat_asciiLower]
  split_ifs <;> first | rfl | omega

/-- Decoding first or ignoring case first makes no difference. -/
theorem map_asciiLower_percentDecode (bytes : Bytes) :
    (percentDecode bytes).map asciiLower =
      (percentDecode (bytes.map asciiLower)).map asciiLower := by
  induction hlength : bytes.length using Nat.strongRecOn generalizing bytes with
  | ind length ih =>
    match bytes with
    | [] => rfl
    | [_] | [_, _] => simp [percentDecode, asciiLower_asciiLower]
    | byte :: high :: low :: rest =>
      have hrest := ih rest.length (by rw [← hlength]; simp; omega) rest rfl
      have hmore := ih (high :: low :: rest).length
        (by rw [← hlength]; simp) (high :: low :: rest) rfl
      rw [map_cons, map_cons, map_cons, percentDecode, percentDecode]
      simp only [asciiLower_eq_percent, hexByteValue_asciiLower]
      split_ifs
      · split
        · simpa using hrest
        · simpa [asciiLower_asciiLower] using hmore
      · simpa [asciiLower_asciiLower] using hmore

/-- The bytes are the UTF-8 encoding of a text. -/
def isUtf8 (bytes : Bytes) : Bool := (String.fromUTF8? ⟨bytes.toArray⟩).isSome

theorem isUtf8_iff :
    isUtf8 bytes = true ↔ ∃ text : List Char, text.flatMap utf8EncodeChar = bytes := by
  have hsome : isUtf8 bytes = true ↔ (⟨bytes.toArray⟩ : ByteArray).IsValidUTF8 := by
    rw [isUtf8, fromUTF8?]
    split <;> simp_all
  rw [hsome]
  constructor
  · rintro ⟨text, htext⟩
    refine ⟨text, ?_⟩
    have hdata := congrArg (fun array => array.data.toList) htext
    simpa [List.utf8Encode] using hdata.symm
  · rintro ⟨text, rfl⟩
    refine ⟨text, ?_⟩
    rw [List.utf8Encode]
    apply ByteArray.ext
    simp

/-- A character is one small byte, or all of its bytes are large. -/
theorem utf8EncodeChar_cases (char : Char) :
    (∃ byte : UInt8, byte.toNat < 128 ∧ utf8EncodeChar char = [byte]) ∨
      ∀ byte ∈ utf8EncodeChar char, 128 ≤ byte.toNat := by
  rw [utf8EncodeChar]
  split_ifs with hone
  · refine .inl ⟨_, ?_, rfl⟩
    rw [UInt8.toNat_ofNat']
    omega
  · right
    simp only [mem_cons, not_mem_nil, or_false]
    rintro byte (rfl | rfl) <;> rw [UInt8.toNat_ofNat'] <;> omega
  · right
    simp only [mem_cons, not_mem_nil, or_false]
    rintro byte (rfl | rfl | rfl) <;> rw [UInt8.toNat_ofNat'] <;> omega
  · right
    simp only [mem_cons, not_mem_nil, or_false]
    rintro byte (rfl | rfl | rfl | rfl) <;> rw [UInt8.toNat_ofNat'] <;> omega

theorem exists_utf8EncodeChar (hbyte : byte.toNat < 128) :
    ∃ char, utf8EncodeChar char = [byte] := by
  refine ⟨Char.ofNat byte.toNat, ?_⟩
  have hvalid : byte.toNat.isValidChar := .inl (by omega)
  have hval : (Char.ofNat byte.toNat).val.toNat = byte.toNat := by
    simp only [Char.ofNat, dif_pos hvalid]
    rfl
  rw [utf8EncodeChar]
  simp only [hval]
  rw [if_pos (by omega)]
  simp

theorem asciiLower_lt : (asciiLower byte).toNat < 128 ↔ byte.toNat < 128 := by
  rw [toNat_asciiLower]
  split_ifs <;> omega

theorem asciiLower_of_le (hbyte : 128 ≤ byte.toNat) : asciiLower byte = byte := by
  rw [← UInt8.toNat_inj, toNat_asciiLower]
  split_ifs <;> omega

/-- Bytes that differ from a character in case only are one. -/
theorem exists_char_of_map_asciiLower {char : Char}
    (heq : bytes.map asciiLower = (utf8EncodeChar char).map asciiLower) :
    ∃ other, utf8EncodeChar other = bytes := by
  rcases utf8EncodeChar_cases char with ⟨byte, hbyte, hchar⟩ | hhigh
  · rw [hchar] at heq
    obtain ⟨other, rfl, hother⟩ := map_eq_singleton_iff.mp heq
    refine exists_utf8EncodeChar ?_
    rw [← asciiLower_lt, hother, asciiLower_lt]
    exact hbyte
  · have hkept : ∀ {high : Bytes}, (∀ byte ∈ high, 128 ≤ byte.toNat) →
        high.map asciiLower = high := fun hall =>
      (map_congr_left fun byte hbyte => asciiLower_of_le (hall byte hbyte)).trans (map_id' _)
    rw [hkept hhigh] at heq
    refine ⟨char, heq.symm.trans (hkept fun byte hbyte => ?_)⟩
    have hlower := hhigh (asciiLower byte) (heq ▸ mem_map_of_mem hbyte)
    exact Nat.le_of_not_lt fun hlt => absurd (asciiLower_lt.mpr hlt) (Nat.not_lt.mpr hlower)

/-- What differs from a text in case only is a text. -/
theorem isUtf8_of_map_asciiLower {other : Bytes}
    (heq : bytes.map asciiLower = other.map asciiLower) (hother : isUtf8 other = true) :
    isUtf8 bytes = true := by
  obtain ⟨text, rfl⟩ := isUtf8_iff.mp hother
  rw [isUtf8_iff]
  clear hother
  induction text generalizing bytes with
  | nil => exact ⟨[], (map_eq_nil_iff.mp heq).symm⟩
  | cons char text ih =>
    rw [flatMap_cons, map_append] at heq
    obtain ⟨first, rest, rfl, hfirst, hrest⟩ := map_eq_append_iff.mp heq
    obtain ⟨head, rfl⟩ := exists_char_of_map_asciiLower hfirst
    obtain ⟨tail, rfl⟩ := ih hrest
    exact ⟨head :: tail, flatMap_cons⟩

end Hexa
