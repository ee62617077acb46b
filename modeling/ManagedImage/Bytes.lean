/-!
# Byte strings

An image is a list of bytes. Offsets and lengths are natural numbers, so a sum of them is exact.

* `Bytes.slice?` cuts out a range, and only a range that lies within the string.
* `Bytes.overwrite` and `Bytes.resize` edit a string; the first keeps its length, the second sets
  it.
* `leBytes` and `leValue` write and read a number with its least significant byte first:
  `leValue_leBytes` and `leBytes_leValue` say that each undoes the other on `w` bytes.
-/

namespace ManagedImage

/-- The contents of a file, a memory block or a stream. -/
abbrev Bytes := List UInt8

namespace Bytes

/-- The `count` bytes from `offset` on, if the string holds all of them. -/
def slice? (data : Bytes) (offset count : Nat) : Option Bytes :=
  if offset + count ≤ data.length then some ((data.drop offset).take count) else none

/-- Puts `patch` over the bytes from `offset` on; what would fall past the end is dropped. -/
def overwrite (data : Bytes) (offset : Nat) (patch : Bytes) : Bytes :=
  data.take offset ++ patch.take (data.length - offset) ++ data.drop (offset + patch.length)

/-- Cuts the string to `size` bytes, or fills it up with zeros. -/
def resize (data : Bytes) (size : Nat) : Bytes :=
  data.take size ++ List.replicate (size - data.length) 0

theorem slice?_eq_some_iff {data field : Bytes} {offset count : Nat} :
    data.slice? offset count = some field ↔
      offset + count ≤ data.length ∧ (data.drop offset).take count = field := by
  simp [slice?]

theorem slice?_eq_none_iff {data : Bytes} {offset count : Nat} :
    data.slice? offset count = none ↔ data.length < offset + count := by
  simp [slice?]

theorem length_of_slice? {data field : Bytes} {offset count : Nat}
    (h : data.slice? offset count = some field) : field.length = count := by
  obtain ⟨hFits, rfl⟩ := slice?_eq_some_iff.1 h
  simp only [List.length_take, List.length_drop]
  omega

@[simp] theorem length_overwrite (data patch : Bytes) (offset : Nat) :
    (overwrite data offset patch).length = data.length := by
  simp only [overwrite, List.length_append, List.length_take, List.length_drop]
  omega

@[simp] theorem length_resize (data : Bytes) (size : Nat) : (resize data size).length = size := by
  simp only [resize, List.length_append, List.length_take, List.length_replicate]
  omega

end Bytes

/-- The number that a byte string writes, least significant byte first. -/
def leValue : Bytes → Nat
  | [] => 0
  | b :: rest => b.toNat + 256 * leValue rest

/-- The lowest `width` bytes of a number, least significant byte first. -/
def leBytes : (width value : Nat) → Bytes
  | 0, _ => []
  | width + 1, value => UInt8.ofNat value :: leBytes width (value / 256)

/-- The numbers that `width` bytes write lie below this bound. -/
def leBound : (width : Nat) → Nat
  | 0 => 1
  | width + 1 => 256 * leBound width

@[simp] theorem length_leBytes (width value : Nat) : (leBytes width value).length = width := by
  induction width generalizing value with
  | zero => rfl
  | succ width ih => simp only [leBytes, List.length_cons, ih]

theorem leValue_leBytes (width value : Nat) :
    leValue (leBytes width value) = value % leBound width := by
  induction width generalizing value with
  | zero => simp only [leBytes, leValue, leBound, Nat.mod_one]
  | succ width ih =>
    have hHead : (UInt8.ofNat value).toNat = value % 256 := UInt8.toNat_ofNat'
    rw [leBytes, leValue, ih, hHead, leBound, Nat.mod_mul]

theorem leValue_leBytes_of_lt {width value : Nat} (h : value < leBound width) :
    leValue (leBytes width value) = value := by
  rw [leValue_leBytes, Nat.mod_eq_of_lt h]

theorem leValue_lt (bytes : Bytes) : leValue bytes < leBound bytes.length := by
  induction bytes with
  | nil => simp only [leValue, leBound, List.length_nil, Nat.lt_one_iff]
  | cons b rest ih =>
    have hb : b.toNat < 256 := b.toNat_lt
    simp only [leValue, leBound, List.length_cons]
    omega

theorem leBytes_leValue (bytes : Bytes) : leBytes bytes.length (leValue bytes) = bytes := by
  induction bytes with
  | nil => rfl
  | cons b rest ih =>
    have hb : b.toNat < 256 := b.toNat_lt
    have hHead : UInt8.ofNat (b.toNat + 256 * leValue rest) = b := by
      apply UInt8.toNat_inj.1
      rw [UInt8.toNat_ofNat']
      omega
    have hTail : (b.toNat + 256 * leValue rest) / 256 = leValue rest := by omega
    simp only [List.length_cons, leBytes, leValue, hHead, hTail, ih]

end ManagedImage
