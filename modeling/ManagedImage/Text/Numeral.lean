import ManagedImage.Bytes

/-!
# Numerals in section names

A section name that does not fit into its eight bytes is a reference to the string table: a decimal
number after one slash, a number in base 64 after two. Both are read with the most significant
digit first.

* `decimal` accepts one leading plus sign, and needs a digit.
* `base64?` has the digits `A`–`Z`, `a`–`z`, `0`–`9`, `+`, `/`; no digit at all stands for zero.
-/

namespace ManagedImage.Numeral

/-- Why a string is no decimal numeral. -/
inductive DecimalDefect
  | empty
  | invalidDigit
  deriving DecidableEq, Repr

namespace DecimalDefect

def message : DecimalDefect → String
  | .empty => "cannot parse integer from empty string"
  | .invalidDigit => "invalid digit found in string"

end DecimalDefect

/-- The value of a numeral whose digits stand for themselves under `digit?`, in base `base`. -/
def value? (base : Nat) (digit? : UInt8 → Option Nat) (digits : Bytes) : Option Nat :=
  digits.foldlM (fun value b => (digit? b).map (base * value + ·)) 0

def decimalDigit? (b : UInt8) : Option Nat :=
  if 0x30 ≤ b ∧ b ≤ 0x39 then some (b.toNat - 0x30) else none

def base64Digit? (b : UInt8) : Option Nat :=
  if 0x41 ≤ b ∧ b ≤ 0x5A then some (b.toNat - 0x41)
  else if 0x61 ≤ b ∧ b ≤ 0x7A then some (b.toNat - 0x61 + 26)
  else if 0x30 ≤ b ∧ b ≤ 0x39 then some (b.toNat - 0x30 + 52)
  else if b = 0x2B then some 62
  else if b = 0x2F then some 63
  else none

/-- Reads a decimal numeral; a plus sign may stand before the digits but not alone. -/
def decimal (text : Bytes) : Except DecimalDefect Nat :=
  match text with
  | [] => .error .empty
  | b :: rest =>
    let digits := if b = 0x2B ∧ rest ≠ [] then rest else text
    match value? 10 decimalDigit? digits with
    | some value => .ok value
    | none => .error .invalidDigit

/-- Reads a numeral in base 64. -/
def base64? (text : Bytes) : Option Nat := value? 64 base64Digit? text

example : decimal [0x2B, 0x31, 0x32] = .ok 12 := rfl
example : decimal [0x2B] = .error .invalidDigit := rfl
example : base64? [0x42, 0x41] = some 64 := by decide
example : base64? [] = some 0 := by decide

end ManagedImage.Numeral
