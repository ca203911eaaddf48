/-
The textual forms of IP addresses that `IpAddr::from_str` accepts, read the
way the standard library's parser reads them.
-/
import Hexa.Lib.RustStr

namespace Hexa.IpAddr

/-- Digits of a number in a radix, at most `limit` of them, with what follows.
A number has a digit; without `zeroPrefix` it has no leading zero. -/
def readNumber (digit : Char → Option Nat) (radix limit : Nat) (zeroPrefix : Bool) (text : Text) :
    Option (Nat × Text) :=
  let digits := text.takeWhile (fun char => (digit char).isSome)
  let value := digits.foldl (fun acc char => acc * radix + (digit char).getD 0) 0
  if digits = [] ∨ limit < digits.length then none
  else if !zeroPrefix ∧ 1 < digits.length ∧ digits.head? = some '0' then none
  else some (value, text.drop digits.length)

def decimalDigit (char : Char) : Option Nat :=
  if '0' ≤ char ∧ char ≤ '9' then some (char.toNat - 48) else none

def hexadecimalDigit (char : Char) : Option Nat :=
  if '0' ≤ char ∧ char ≤ '9' then some (char.toNat - 48)
  else if 'a' ≤ char ∧ char ≤ 'f' then some (char.toNat - 87)
  else if 'A' ≤ char ∧ char ≤ 'F' then some (char.toNat - 55)
  else none

variable (text : Text)

/-- An octet of an IPv4 address. -/
def readOctet : Option Text :=
  match readNumber decimalDigit 10 3 false text with
  | some (value, rest) => if value ≤ 255 then some rest else none
  | none => none

def readChar (char : Char) : Text → Option Text
  | [] => none
  | head :: rest => if head = char then some rest else none

/-- Four octets; the rest of the text is returned. -/
def readIpv4 : Option Text := do
  let text ← readOctet text
  let text ← readOctet (← readChar '.' text)
  let text ← readOctet (← readChar '.' text)
  readOctet (← readChar '.' text)

/-- The separator before every group but the first. -/
def readSeparator (index : Nat) (text : Text) : Option Text :=
  if index = 0 then some text else readChar ':' text

/-- Up to `remaining` groups.  The result is their number, whether an embedded
IPv4 address ended them, and the rest of the text. -/
def readGroups : Nat → Nat → Text → Nat × Bool × Text
  | 0, index, text => (index, false, text)
  | remaining + 1, index, text =>
    match (readSeparator index text).bind readIpv4, decide (0 < remaining) with
    | some rest, true => (index + 2, true, rest)
    | _, _ =>
      match (readSeparator index text).bind (readNumber hexadecimalDigit 16 4 true) with
      | some (_, rest) => readGroups remaining (index + 1) rest
      | none => (index, false, text)

def isIpv4 : Bool := text.length ≤ 15 && readIpv4 text == some []

def isIpv6 : Bool :=
  match readGroups 8 0 text with
  | (headSize, headIpv4, rest) =>
    if headSize = 8 then rest.isEmpty
    else if headIpv4 then false
    else
      match (readChar ':' rest).bind (readChar ':') with
      | none => false
      | some rest => (readGroups (7 - headSize) 0 rest).2.2.isEmpty

/-- `text.parse::<IpAddr>().is_ok()`. -/
def isIpAddr : Bool := isIpv4 text || isIpv6 text

example : isIpAddr "127.0.0.1".toList ∧ isIpAddr "::1".toList ∧
    isIpAddr "::ffff:10.0.0.1".toList ∧ ¬ isIpAddr "256.0.0.1".toList ∧
    ¬ isIpAddr "01.0.0.1".toList ∧ ¬ isIpAddr "1::2::3".toList ∧
    ¬ isIpAddr "example.com".toList ∧ isIpAddr "1:2:3:4:5:6:7:8".toList ∧
    ¬ isIpAddr "1:2:3:4:5:6:7:8:9".toList := by
  decide

end Hexa.IpAddr
