import ManagedImage.Bytes

/-!
# Text stored in an image

A name is stored as bytes that end at the first zero byte or at the end of their field. It is text
if these bytes are well-formed UTF-8: no overlong form, no surrogate, nothing above `U+10FFFF`.
-/

namespace ManagedImage.Bytes

/-- The bytes before the first zero byte. -/
def untilNul (bytes : Bytes) : Bytes := bytes.takeWhile (· ≠ 0)

/-- The text that the bytes spell in UTF-8, if they spell one. -/
def text? (bytes : Bytes) : Option String := String.fromUTF8? ⟨bytes.toArray⟩

example : text? [0xC3, 0xA9, 0x41] = some "éA" := by decide
example : text? [0xC0, 0x80] = none := by decide
example : text? [0xED, 0xA0, 0x80] = none := by decide

end ManagedImage.Bytes
