import ManagedImage.Bytes
import ManagedImage.Error
import ManagedImage.Width

/-!
# Byte sources

A source tells how many bytes it holds and hands out ranges of them. Asking may change its hidden
state, such as the position of a stream, so every answer comes with the source as it is afterwards.

A byte string is the source that has no hidden state: it hands out a range exactly when it holds all
of it (`Source.readAt_bytes`). `Cursor` is a source together with a position of its own.
-/

namespace ManagedImage

/-- Something that holds bytes and answers for ranges of them. -/
class Source (σ : Type) where
  size : σ → Except Error Nat × σ
  readAt : σ → (offset count : Nat) → Except Error Bytes × σ

namespace Source

instance : Source Bytes where
  size data := (.ok data.length, data)
  readAt data offset count :=
    match data.slice? offset count with
    | some field => (.ok field, data)
    | none => (.error .outOfBounds, data)

theorem size_bytes (data : Bytes) : Source.size data = (.ok data.length, data) := rfl

theorem readAt_bytes (data : Bytes) (offset count : Nat) :
    Source.readAt data offset count =
      if offset + count ≤ data.length then (.ok ((data.drop offset).take count), data)
      else (.error .outOfBounds, data) := by
  by_cases hFits : offset + count ≤ data.length
  · have hSlice : data.slice? offset count = some ((data.drop offset).take count) := if_pos hFits
    rw [if_pos hFits]
    simp only [Source.readAt, hSlice]
  · have hSlice : data.slice? offset count = none := if_neg hFits
    rw [if_neg hFits]
    simp only [Source.readAt, hSlice]

end Source

/-- A source and the position at which to read next. -/
structure Cursor (σ : Type) where
  source : σ
  position : Nat
  deriving DecidableEq, Repr

namespace Cursor

variable {σ : Type}

/-- The cursor at the start of a source. -/
def start (source : σ) : Cursor σ := ⟨source, 0⟩

def seek (cursor : Cursor σ) (position : Nat) : Cursor σ := { cursor with position := position }

/-- Moves on by `step` bytes, unless that leaves the 64-bit positions. -/
def advance? (cursor : Cursor σ) (step : Nat) : Option (Cursor σ) :=
  if cursor.position + step < addressSpace then some (cursor.seek (cursor.position + step))
  else none

end Cursor

end ManagedImage
