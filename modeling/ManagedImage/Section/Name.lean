import ManagedImage.Error
import ManagedImage.Text.Name
import ManagedImage.Text.Numeral

/-!
# Section names

A section name has room for eight bytes. A longer one lies in the string table, and the eight bytes
then hold a slash and the decimal number of its place there, or two slashes and that number in
base 64. A name that starts with a slash has to be such a reference; one that leads nowhere, or to
bytes that are no text, is no error and leaves the section its short name.
-/

namespace ManagedImage.SectionName

/-- The digits of a reference: the bytes of its field up to a zero byte, which must be text. -/
def digits (field : Bytes) : Except Error (Bytes × String) :=
  match field.untilNul.text? with
  | some text => .ok (field.untilNul, text)
  | none => .error (.malformed (.entity .nameNotText))

/-- The place in the string table that a name refers to, if it is a reference. -/
def reference? (name : Bytes) : Except Error (Option Nat) :=
  match name with
  | 0x2F :: 0x2F :: field => do
    let (digits, text) ← digits field
    match Numeral.base64? digits with
    | some place => return some place
    | none => throw (.malformed (.entity (.nameNotBase64 text)))
  | 0x2F :: field => do
    let (digits, text) ← digits field
    match Numeral.decimal digits with
    | .ok place => return some place
    | .error why => throw (.malformed (.entity (.nameNotDecimal text why)))
  | _ => return none

/-- The text at an offset, up to a zero byte or the end of the data. -/
def stringAt? (data : Bytes) (offset : Nat) : Option String :=
  if offset ≤ data.length then (Bytes.untilNul (data.drop offset)).text? else none

/-- The long name of a section, found in the data by way of a string table that starts at
`stringTable`. -/
def longName? (data : Bytes) (stringTable : Nat) (name : Bytes) : Except Error (Option String) := do
  match ← reference? name with
  | none => return none
  | some place => return stringAt? data (stringTable + place)

theorem reference?_of_head_ne {name : Bytes} (h : name.head? ≠ some 0x2F) :
    reference? name = .ok none := by
  unfold reference?
  split
  · exact absurd rfl h
  · exact absurd rfl h
  · rfl

end ManagedImage.SectionName
