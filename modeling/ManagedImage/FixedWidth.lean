import ManagedImage.Bytes
import ManagedImage.Error

/-!
# Values of fixed width

Header fields are stored one after the other, each in a fixed number of bytes. A type with such a
form is `FixedWidth`: it says how wide a value is and how to write and read one, and carries the
laws that make writing and reading inverse to each other.

* Unsigned integers are written with the least significant byte first.
* A pair is its parts in order, a vector its entries in order, and `FixedWidth.via` lays out a
  structure as the tuple of its fields in the order of the file.
* `FixedWidth.read?_eq_some_iff`: a value is read at an offset exactly when its bytes stand there.
-/

namespace ManagedImage

/-- A type whose values are written in a fixed number of bytes. -/
class FixedWidth (α : Type) where
  width : Nat
  encode : α → Bytes
  decode : Bytes → α
  length_encode : ∀ value, (encode value).length = width
  decode_encode : ∀ value, decode (encode value) = value
  encode_decode : ∀ bytes, bytes.length = width → encode (decode bytes) = bytes

namespace FixedWidth

variable {α β : Type}

attribute [simp] length_encode decode_encode

/-- Reads the value at `offset`, if the data hold all of its bytes. -/
def read? [FixedWidth α] (data : Bytes) (offset : Nat) : Option α :=
  (data.slice? offset (width α)).map decode

theorem read?_eq_some_iff [FixedWidth α] {data : Bytes} {offset : Nat} {value : α} :
    read? data offset = some value ↔ data.slice? offset (width α) = some (encode value) := by
  rw [read?, Option.map_eq_some_iff]
  constructor
  · rintro ⟨field, hField, rfl⟩
    rw [encode_decode field (Bytes.length_of_slice? hField), hField]
  · intro hField
    exact ⟨_, hField, decode_encode value⟩

/-- Reads the value at `offset`; data that end before it does are truncated. -/
def read [FixedWidth α] (data : Bytes) (offset : Nat) : Except Error α :=
  match read? data offset with
  | some value => .ok value
  | none => .error .outOfBounds

theorem read_eq_ok_iff [FixedWidth α] {data : Bytes} {offset : Nat} {value : α} :
    read data offset = .ok value ↔ data.slice? offset (width α) = some (encode value) := by
  rw [← read?_eq_some_iff, read]
  cases read? (α := α) data offset <;> simp

/-- Lays out a type as another one that holds the same information. -/
@[reducible] def via [FixedWidth α] (make : α → β) (parts : β → α)
    (parts_make : ∀ a, parts (make a) = a) (make_parts : ∀ b, make (parts b) = b) :
    FixedWidth β where
  width := width α
  encode b := encode (parts b)
  decode bytes := make (decode bytes)
  length_encode b := length_encode (parts b)
  decode_encode b := by rw [decode_encode, make_parts]
  encode_decode bytes h := by rw [parts_make, encode_decode bytes h]

/-- An unsigned integer of `size` bytes, least significant byte first. -/
@[reducible] def unsigned (size : Nat) (ofNat : Nat → α) (toNat : α → Nat)
    (ofNat_toNat : ∀ a, ofNat (toNat a) = a) (toNat_lt : ∀ a, toNat a < leBound size)
    (toNat_ofNat : ∀ n, n < leBound size → toNat (ofNat n) = n) : FixedWidth α where
  width := size
  encode a := leBytes size (toNat a)
  decode bytes := ofNat (leValue bytes)
  length_encode a := length_leBytes size (toNat a)
  decode_encode a := by rw [leValue_leBytes_of_lt (toNat_lt a), ofNat_toNat]
  encode_decode bytes h := by
    subst h
    rw [toNat_ofNat _ (leValue_lt bytes), leBytes_leValue]

instance : FixedWidth UInt8 :=
  unsigned 1 UInt8.ofNat UInt8.toNat (fun _ => UInt8.ofNat_toNat) UInt8.toNat_lt
    (fun _ h => UInt8.toNat_ofNat_of_lt' h)

instance : FixedWidth UInt16 :=
  unsigned 2 UInt16.ofNat UInt16.toNat (fun _ => UInt16.ofNat_toNat) UInt16.toNat_lt
    (fun _ h => UInt16.toNat_ofNat_of_lt' h)

instance : FixedWidth UInt32 :=
  unsigned 4 UInt32.ofNat UInt32.toNat (fun _ => UInt32.ofNat_toNat) UInt32.toNat_lt
    (fun _ h => UInt32.toNat_ofNat_of_lt' h)

instance : FixedWidth UInt64 :=
  unsigned 8 UInt64.ofNat UInt64.toNat (fun _ => UInt64.ofNat_toNat) UInt64.toNat_lt
    (fun _ h => UInt64.toNat_ofNat_of_lt' h)

instance [FixedWidth α] [FixedWidth β] : FixedWidth (α × β) where
  width := width α + width β
  encode p := encode p.1 ++ encode p.2
  decode bytes := (decode (bytes.take (width α)), decode (bytes.drop (width α)))
  length_encode p := by rw [List.length_append, length_encode, length_encode]
  decode_encode p := by
    rw [List.take_left' (length_encode p.1), List.drop_left' (length_encode p.1),
      decode_encode, decode_encode]
  encode_decode bytes h := by
    have hLeft : (bytes.take (width α)).length = width α := by
      rw [List.length_take]; omega
    have hRight : (bytes.drop (width α)).length = width β := by
      rw [List.length_drop]; omega
    rw [encode_decode _ hLeft, encode_decode _ hRight, List.take_append_drop]

/-- The first `count` values of a byte string, put behind those already read. -/
def decodeOnto [FixedWidth α] : (count : Nat) → Bytes → Array α → Array α
  | 0, _, done => done
  | count + 1, bytes, done =>
    decodeOnto count (bytes.drop (width α)) (done.push (decode (bytes.take (width α))))

theorem size_decodeOnto [FixedWidth α] (count : Nat) (bytes : Bytes) (done : Array α) :
    (decodeOnto count bytes done).size = done.size + count := by
  induction count generalizing bytes done with
  | zero => rfl
  | succ count ih =>
    rw [decodeOnto, ih, Array.size_push]
    omega

theorem toList_decodeOnto [FixedWidth α] (count : Nat) (bytes : Bytes) (done : Array α) :
    (decodeOnto count bytes done).toList = done.toList ++ (decodeOnto count bytes #[]).toList := by
  induction count generalizing bytes done with
  | zero => simp [decodeOnto]
  | succ count ih =>
    rw [decodeOnto, ih, decodeOnto, ih _ (#[].push _)]
    simp

theorem decodeOnto_flatMap_encode [FixedWidth α] (values : List α) :
    (decodeOnto values.length (values.flatMap encode) #[]).toList = values := by
  induction values with
  | nil => rfl
  | cons value rest ih =>
    rw [List.length_cons, List.flatMap_cons, decodeOnto, List.take_left' (length_encode value),
      List.drop_left' (length_encode value), decode_encode, toList_decodeOnto, ih]
    rfl

theorem flatMap_encode_decodeOnto [FixedWidth α] (count : Nat) (bytes : Bytes)
    (h : bytes.length = count * width α) :
    (decodeOnto (α := α) count bytes #[]).toList.flatMap encode = bytes := by
  induction count generalizing bytes with
  | zero => simp_all [decodeOnto]
  | succ count ih =>
    rw [Nat.succ_mul] at h
    have hHead : (bytes.take (width α)).length = width α := by
      rw [List.length_take]; omega
    have hRest : (bytes.drop (width α)).length = count * width α := by
      rw [List.length_drop]; omega
    rw [decodeOnto, toList_decodeOnto, List.flatMap_append, ih _ hRest]
    simp [encode_decode _ hHead]

instance {count : Nat} [FixedWidth α] : FixedWidth (Vector α count) where
  width := count * width α
  encode v := v.toList.flatMap encode
  decode bytes := ⟨decodeOnto count bytes #[], by rw [size_decodeOnto]; simp⟩
  length_encode v := by
    rw [List.length_flatMap]
    simp [List.map_const', Vector.length_toList]
  decode_encode v := by
    apply Vector.toList_inj.1
    have h := decodeOnto_flatMap_encode v.toList
    rw [Vector.length_toList] at h
    exact h
  encode_decode bytes h := flatMap_encode_decodeOnto count bytes h

end FixedWidth

end ManagedImage
