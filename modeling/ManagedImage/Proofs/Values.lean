import ManagedImage.FixedWidth

/-!
# Values at offsets

A value of fixed width is read off as many bytes at an offset. `FixedWidth.valueAt` is the value
that stands there, without the question whether the data reach so far.

* `FixedWidth.read_eq`: a read is the value at its offset where the data hold all of its bytes, and
  a truncated image elsewhere.
* `FixedWidth.valueAt_pair`, `FixedWidth.toList_valueAt_vector`: the parts of a pair and the entries
  of a vector are values behind each other.
* `Bytes.AgreeOn.valueAt_eq`: a value depends on its own bytes only, so two strings that agree on
  them hold the same value.
-/

namespace ManagedImage

/-! ## Agreement on a range -/

namespace Bytes

variable {a b c : Bytes} {start stop : Nat}

/-- From `start` up to `stop`, two strings hold the same bytes or end at the same place. -/
def AgreeOn (a b : Bytes) (start stop : Nat) : Prop :=
  ∀ i, start ≤ i → i < stop → a[i]? = b[i]?

theorem AgreeOn.trans (h : AgreeOn a b start stop) (h' : AgreeOn b c start stop) :
    AgreeOn a c start stop :=
  fun i hLow hHigh => (h i hLow hHigh).trans (h' i hLow hHigh)

theorem AgreeOn.mono {start' stop' : Nat} (h : AgreeOn a b start stop) (hStart : start ≤ start')
    (hStop : stop' ≤ stop) : AgreeOn a b start' stop' :=
  fun i hLow hHigh => h i (by omega) (by omega)

theorem AgreeOn.slice_eq {count : Nat} (h : AgreeOn a b start (start + count)) :
    (a.drop start).take count = (b.drop start).take count := by
  apply List.ext_getElem?
  intro i
  simp only [List.getElem?_take, List.getElem?_drop]
  split
  · exact h _ (by omega) (by omega)
  · rfl

/-- Strings that agree from their start on end at the same place, if they end within the range. -/
theorem AgreeOn.le_length_iff {size : Nat} (h : AgreeOn a b 0 stop) (hSize : size ≤ stop) :
    size ≤ a.length ↔ size ≤ b.length := by
  cases size with
  | zero => exact ⟨fun _ => Nat.zero_le _, fun _ => Nat.zero_le _⟩
  | succ last =>
    have hLast := h last (Nat.zero_le _) hSize
    rw [Nat.succ_le_iff, Nat.succ_le_iff, ← Nat.not_le, ← Nat.not_le,
      ← List.getElem?_eq_none_iff, ← List.getElem?_eq_none_iff, hLast]

theorem agreeOn_take (data : Bytes) {size : Nat} (h : stop ≤ size) :
    AgreeOn (data.take size) data start stop := by
  intro i _ hHigh
  rw [List.getElem?_take, if_pos (by omega)]

theorem agreeOn_append (data more : Bytes) (h : stop ≤ data.length) :
    AgreeOn (data ++ more) data start stop := by
  intro i _ hHigh
  rw [List.getElem?_append_left (by omega)]

theorem getElem?_overwrite (data patch : Bytes) (offset i : Nat) :
    (data.overwrite offset patch)[i]? =
      if offset ≤ i ∧ i < offset + patch.length ∧ i < data.length then patch[i - offset]?
      else data[i]? := by
  by_cases hInside : i < data.length
  · by_cases hFront : i < offset
    · rw [if_neg (by omega), overwrite, List.append_assoc,
        List.getElem?_append_left (by rw [List.length_take]; omega), List.getElem?_take,
        if_pos hFront]
    · have hTaken : (data.take offset).length = offset := by
        rw [List.length_take]
        omega
      rw [overwrite, List.append_assoc, List.getElem?_append_right (by omega), hTaken]
      by_cases hPatch : i < offset + patch.length
      · rw [if_pos (by omega), List.getElem?_append_left (by rw [List.length_take]; omega),
          List.getElem?_take, if_pos (by omega)]
      · have hPatched : (patch.take (data.length - offset)).length = patch.length := by
          rw [List.length_take]
          omega
        rw [if_neg (by omega), List.getElem?_append_right (by omega), hPatched, List.getElem?_drop]
        congr 1
        omega
  · rw [if_neg (by omega), List.getElem?_eq_none (by rw [length_overwrite]; omega),
      List.getElem?_eq_none (by omega)]

/-- What an edit does not touch stays. -/
theorem agreeOn_overwrite (data patch : Bytes) {offset : Nat}
    (h : stop ≤ offset ∨ offset + patch.length ≤ start) :
    AgreeOn (data.overwrite offset patch) data start stop := by
  intro i hLow hHigh
  rw [getElem?_overwrite, if_neg (by omega)]

/-- An edit that fits into the string stands there afterwards. -/
theorem slice_overwrite {data patch : Bytes} {offset : Nat}
    (h : offset + patch.length ≤ data.length) :
    ((data.overwrite offset patch).drop offset).take patch.length = patch := by
  apply List.ext_getElem?
  intro i
  rw [List.getElem?_take, List.getElem?_drop, getElem?_overwrite]
  split
  · rw [if_pos (by omega), Nat.add_sub_cancel_left]
  · rw [List.getElem?_eq_none (by omega)]

theorem overwrite_take (data patch : Bytes) (offset size : Nat) :
    overwrite (data.take size) offset patch = (data.overwrite offset patch).take size := by
  apply List.ext_getElem?
  intro i
  simp only [getElem?_overwrite, List.getElem?_take, List.length_take]
  by_cases hSize : i < size
  · simp only [hSize, if_true, Nat.lt_min, true_and]
  · simp only [hSize, if_false, Nat.lt_min, false_and, and_false]

end Bytes

/-! ## Values at offsets -/

namespace FixedWidth

variable {α β : Type} [FixedWidth α] [FixedWidth β]

/-- The value that the bytes at an offset spell. Where the data end before it does, it means
nothing. -/
def valueAt (α : Type) [FixedWidth α] (data : Bytes) (offset : Nat) : α :=
  decode ((data.drop offset).take (width α))

theorem read_eq (data : Bytes) (offset : Nat) :
    read (α := α) data offset =
      if offset + width α ≤ data.length then .ok (valueAt α data offset)
      else .error .outOfBounds := by
  unfold read read? Bytes.slice?
  split <;> rename_i h
  · by_cases hFits : offset + width α ≤ data.length
    · simp only [hFits, if_true, Option.map_some, Option.some.injEq] at h
      rw [if_pos hFits, ← h, valueAt]
    · simp [hFits] at h
  · by_cases hFits : offset + width α ≤ data.length
    · simp [hFits] at h
    · rw [if_neg hFits]

theorem read_of_le {data : Bytes} {offset : Nat} (h : offset + width α ≤ data.length) :
    read data offset = .ok (valueAt α data offset) := by
  rw [read_eq, if_pos h]

theorem read_of_lt {data : Bytes} {offset : Nat} (h : data.length < offset + width α) :
    read (α := α) data offset = .error .outOfBounds := by
  rw [read_eq, if_neg (by omega)]

/-- What is decoded at an offset encodes to the bytes there. -/
theorem slice?_eq_encode_valueAt {data : Bytes} {offset count : Nat} (hWidth : width α = count)
    (h : offset + count ≤ data.length) :
    data.slice? offset count = some (encode (valueAt α data offset)) := by
  subst hWidth
  exact read_eq_ok_iff.1 (read_of_le h)

/-- A value stands at an offset when its bytes do. -/
theorem valueAt_eq_iff {data : Bytes} {offset : Nat} {value : α}
    (h : offset + width α ≤ data.length) :
    valueAt α data offset = value ↔ (data.drop offset).take (width α) = encode value := by
  have hLength : ((data.drop offset).take (width α)).length = width α := by
    rw [List.length_take, List.length_drop]
    omega
  constructor
  · rintro rfl
    exact (encode_decode _ hLength).symm
  · intro hBytes
    rw [valueAt, hBytes, decode_encode]

/-- A value that is written where the data hold its bytes stands there afterwards. -/
theorem valueAt_overwrite {data : Bytes} {offset : Nat} (value : α)
    (h : offset + width α ≤ data.length) :
    valueAt α (data.overwrite offset (encode value)) offset = value := by
  rw [← length_encode value] at h
  rw [valueAt, ← length_encode value, Bytes.slice_overwrite h, decode_encode]

/-- A value beside one that is written stays. -/
theorem valueAt_overwrite_of_disjoint {data : Bytes} {offset place : Nat} (value : β)
    (h : place + width α ≤ offset ∨ offset + width β ≤ place) :
    valueAt α (data.overwrite offset (encode value)) place = valueAt α data place := by
  rw [← length_encode value] at h
  rw [valueAt, (Bytes.agreeOn_overwrite data (encode value) h).slice_eq, valueAt]

theorem valueAt_pair (data : Bytes) (offset : Nat) :
    valueAt (α × β) data offset = (valueAt α data offset, valueAt β data (offset + width α)) := by
  have hLeft : ((data.drop offset).take (width α + width β)).take (width α) =
      (data.drop offset).take (width α) := by
    rw [List.take_take, Nat.min_eq_left (by omega)]
  have hRight : ((data.drop offset).take (width α + width β)).drop (width α) =
      (data.drop (offset + width α)).take (width β) := by
    rw [List.drop_take, List.drop_drop, Nat.add_sub_cancel_left]
  show (decode (((data.drop offset).take (width α + width β)).take (width α)),
    decode (((data.drop offset).take (width α + width β)).drop (width α))) = _
  rw [hLeft, hRight]
  rfl

omit [FixedWidth α] in
theorem valueAt_via {_ : FixedWidth α} {γ : Type} (make : α → γ) (parts : γ → α)
    (parts_make : ∀ a, parts (make a) = a) (make_parts : ∀ c, make (parts c) = c) (data : Bytes)
    (offset : Nat) :
    @valueAt γ (via make parts parts_make make_parts) data offset =
      make (valueAt α data offset) := rfl

theorem toList_valueAt_vector (data : Bytes) (offset count : Nat) :
    (valueAt (Vector α count) data offset).toList =
      (List.range count).map fun i => valueAt α data (offset + i * width α) := by
  show (decodeOnto count ((data.drop offset).take (count * width α)) #[]).toList = _
  induction count generalizing offset with
  | zero => rfl
  | succ count ih =>
    have hHead : ((data.drop offset).take ((count + 1) * width α)).take (width α) =
        (data.drop offset).take (width α) := by
      rw [List.take_take, Nat.min_eq_left (by rw [Nat.succ_mul]; omega)]
    have hRest : ((data.drop offset).take ((count + 1) * width α)).drop (width α) =
        (data.drop (offset + width α)).take (count * width α) := by
      rw [List.drop_take, List.drop_drop, Nat.succ_mul, Nat.add_sub_cancel]
    rw [decodeOnto, toList_decodeOnto, hRest, ih, List.range_succ_eq_map, List.map_cons,
      List.map_map, hHead]
    simp only [List.push_toArray, List.nil_append, List.singleton_append, Nat.zero_mul,
      Nat.add_zero, valueAt]
    refine congrArg _ (List.map_congr_left fun i _ => ?_)
    simp only [Function.comp, Nat.succ_eq_add_one, Nat.succ_mul, Nat.add_comm (i * width α),
      Nat.add_assoc]

end FixedWidth

theorem Bytes.AgreeOn.valueAt_eq {α : Type} [FixedWidth α] {a b : Bytes} {offset : Nat}
    (h : a.AgreeOn b offset (offset + FixedWidth.width α)) :
    FixedWidth.valueAt α a offset = FixedWidth.valueAt α b offset := by
  rw [FixedWidth.valueAt, h.slice_eq, FixedWidth.valueAt]

end ManagedImage
