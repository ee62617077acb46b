/-!
# Hexadecimal text

Messages show raw fields in base sixteen: upper case and filled up with zeros to a fixed width, or
lower case without filling. Neither form writes the `0x` that stands before it.
-/

namespace ManagedImage.Hex

/-- Lower-case digits, as few as the value needs. -/
def lower (value : Nat) : String := String.ofList (Nat.toDigits 16 value)

/-- Upper-case digits, at least `width` of them. -/
def upper (width value : Nat) : String :=
  String.ofList (((Nat.toDigits 16 value).map Char.toUpper).leftpad width '0')

example : lower 0xbeef = "beef" := by decide
example : upper 8 0x2080 = "00002080" := by decide
example : upper 0 0xC = "C" := by decide

end ManagedImage.Hex
