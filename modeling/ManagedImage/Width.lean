import ManagedImage.Bytes
import ManagedImage.Error

/-!
# Reading unsigned integers one after the other

A reader walks over a byte string with an offset. Each read takes an unsigned integer of one of four
widths and moves the offset behind it; a read that would pass the end, or whose end is no 64-bit
number, fails and leaves the offset where it was.

* `Width.readAt_eq_ok_iff`: a read succeeds exactly when its bytes are all there, and the number
  read is the one they write.
* `Width.readAt_error`: a read that fails found too few bytes and leaves the offset alone.
-/

namespace ManagedImage

/-- Offsets and positions are 64-bit numbers: they lie below this bound. -/
def addressSpace : Nat := 0x10000000000000000

/-- The widths of the unsigned integers in headers. -/
inductive Width
  | bits8
  | bits16
  | bits32
  | bits64
  deriving DecidableEq, Repr

namespace Width

/-- The number of bytes of an integer. -/
def size : Width → Nat
  | bits8 => 1
  | bits16 => 2
  | bits32 => 4
  | bits64 => 8

/-- Reads an integer at an offset, and gives the offset at which to go on. -/
def readAt (width : Width) (data : Bytes) (offset : Nat) : Except Error Nat × Nat :=
  if offset + width.size < addressSpace then
    match data.slice? offset width.size with
    | some field => (.ok (leValue field), offset + width.size)
    | none => (.error .outOfBounds, offset)
  else (.error .outOfBounds, offset)

/-- Reads the integer at the start of the data. -/
def read (width : Width) (data : Bytes) : Except Error Nat := (width.readAt data 0).1

theorem readAt_eq_ok_iff {width : Width} {data : Bytes} {offset value next : Nat} :
    width.readAt data offset = (.ok value, next) ↔
      offset + width.size < addressSpace ∧ next = offset + width.size ∧
        ∃ field, data.slice? offset width.size = some field ∧ leValue field = value := by
  unfold readAt
  split
  · rename_i hSpace
    cases hSlice : data.slice? offset width.size with
    | none => simp
    | some field => simp [hSpace, eq_comm, and_comm]
  · rename_i hSpace
    simp [hSpace]

theorem readAt_error {width : Width} {data : Bytes} {offset next : Nat} {error : Error}
    (h : width.readAt data offset = (.error error, next)) :
    error = .outOfBounds ∧ next = offset := by
  unfold readAt at h
  split at h
  · cases hSlice : data.slice? offset width.size with
    | none => simp_all
    | some field => simp [hSlice] at h
  · simp_all

end Width

end ManagedImage
