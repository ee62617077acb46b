import Mathlib.Data.List.Pairwise
import Mathlib.Order.CompletePartialOrder
import Mathlib.Order.Interval.Set.Disjoint
import ManagedImage.Section.Placement

/-!
# Translating addresses

An address in the loaded image is translated by the first section that holds it. Sections may
overlap, be empty, or run past the end of the 32-bit addresses; the ranges here are ranges of natural
numbers, in which nothing wraps.

* `Placement.addresses` and `Placement.places`: what a section spans in the loaded image and in the
  file. `Placement.IsFirst`: the first section of a list that holds an address.
* `Placement.wordSearch` is the search in machine words, which first picks the sections that cover
  the address and then looks for one whose subtraction goes through.
  `Placement.wordSearch_eq`: the second pass never passes over a section that the first one picked.
* `Placement.offsetOf_exact`: which addresses are translated, and to what.
* `Placement.offsetOf_of_disjoint`: the order of sections that are disjoint does not matter, and if
  they are disjoint in the file as well, no two addresses are translated to the same offset.
-/

namespace ManagedImage.Placement

variable {sections : List Placement} {p q : Placement} {rva rva' : UInt32} {index offset : Nat}

/-! ## Ranges of natural numbers -/

/-- How many addresses the section spans: its virtual size, or its raw size where that is zero. -/
def span (p : Placement) : Nat :=
  if p.virtualSize.toNat = 0 then p.rawSize.toNat else p.virtualSize.toNat

/-- The addresses of the section in the loaded image. -/
def addresses (p : Placement) : Set Nat :=
  Set.Ico p.virtualAddress.toNat (p.virtualAddress.toNat + p.span)

/-- The offsets in the file that stand for the addresses of the section. -/
def places (p : Placement) : Set Nat := Set.Ico p.rawPointer.toNat (p.rawPointer.toNat + p.span)

theorem toNat_extent (p : Placement) : p.extent.toNat = p.span := by
  have hZero : p.virtualSize = 0 ↔ p.virtualSize.toNat = 0 := UInt32.toNat_inj.symm
  unfold extent span
  by_cases hVirtual : p.virtualSize = 0
  · rw [if_pos hVirtual, if_pos (hZero.1 hVirtual)]
  · rw [if_neg hVirtual, if_neg fun h => hVirtual (hZero.2 h)]

theorem covers_iff_mem : p.covers rva = true ↔ rva.toNat ∈ p.addresses := by
  rw [covers_iff, toNat_extent]
  rfl

theorem covers_eq_false_iff : p.covers rva = false ↔ rva.toNat ∉ p.addresses := by
  rw [← covers_iff_mem, Bool.not_eq_true]

/-- A section holds the addresses of its range at the offsets of its range. -/
theorem fileOffset_mem_places (h : rva.toNat ∈ p.addresses) : p.fileOffset rva ∈ p.places := by
  obtain ⟨hStart, hStop⟩ := h
  unfold fileOffset places
  rw [Set.mem_Ico]
  omega

/-- Within one section, addresses and offsets have the same distances. -/
theorem fileOffset_add {k : Nat} (h : rva.toNat ∈ p.addresses) (hNext : rva'.toNat = rva.toNat + k) :
    p.fileOffset rva' = p.fileOffset rva + k := by
  have hStart := h.1
  unfold fileOffset
  omega

theorem fileOffset_injective (h : rva.toNat ∈ p.addresses) (h' : rva'.toNat ∈ p.addresses)
    (hSame : p.fileOffset rva = p.fileOffset rva') : rva = rva' := by
  have hStart := h.1
  have hStart' := h'.1
  unfold fileOffset at hSame
  apply UInt32.toNat_inj.1
  omega

/-! ## The first section that holds an address -/

/-- The section stands at the index, and is the first of the list that holds the address. -/
structure IsFirst (sections : List Placement) (rva : UInt32) (index : Nat) (p : Placement) :
    Prop where
  at_index : sections[index]? = some p
  holds : rva.toNat ∈ p.addresses
  first : ∀ j < index, ∀ q, sections[j]? = some q → rva.toNat ∉ q.addresses

theorem offsetOf_of_isFirst (h : IsFirst sections rva index p) :
    offsetOf sections rva = .ok (p.fileOffset rva) := by
  obtain ⟨hIndex, rfl⟩ := List.getElem?_eq_some_iff.1 h.at_index
  refine offsetOf_eq_ok_iff.2 ⟨sections.take index, sections[index], sections.drop (index + 1),
    ?_, fun q hq => ?_, covers_iff_mem.2 h.holds, rfl⟩
  · rw [← List.drop_eq_getElem_cons hIndex, List.take_append_drop]
  · obtain ⟨j, hj, rfl⟩ := List.mem_take_iff_getElem.1 hq
    exact covers_eq_false_iff.2 (h.first j (by omega) _ (List.getElem?_eq_getElem _))

theorem offsetOf_eq_ok_iff_isFirst :
    offsetOf sections rva = .ok offset ↔
      ∃ index p, IsFirst sections rva index p ∧
        offset = p.rawPointer.toNat + (rva.toNat - p.virtualAddress.toNat) := by
  constructor
  · intro h
    obtain ⟨before, p, after, rfl, hBefore, hCovers, rfl⟩ := offsetOf_eq_ok_iff.1 h
    refine ⟨before.length, p, ⟨?_, covers_iff_mem.1 hCovers, fun j hj q hq => ?_⟩, rfl⟩
    · rw [List.getElem?_append_right (Nat.le_refl _), Nat.sub_self, List.getElem?_cons_zero]
    · rw [List.getElem?_append_left hj] at hq
      exact covers_eq_false_iff.1 (hBefore q (List.mem_of_getElem? hq))
  · intro h
    obtain ⟨index, p, hFirst, rfl⟩ := h
    exact offsetOf_of_isFirst hFirst

theorem offsetOf_ok_iff :
    (∃ offset, offsetOf sections rva = .ok offset) ↔ ∃ p ∈ sections, rva.toNat ∈ p.addresses := by
  constructor
  · intro h
    obtain ⟨offset, h⟩ := h
    obtain ⟨before, p, after, rfl, -, hCovers, -⟩ := offsetOf_eq_ok_iff.1 h
    exact ⟨p, List.mem_append_right _ List.mem_cons_self, covers_iff_mem.1 hCovers⟩
  · intro h
    obtain ⟨p, hp, hHolds⟩ := h
    cases hOffset : offsetOf sections rva with
    | ok offset => exact ⟨offset, rfl⟩
    | error e =>
      have hNone := (offsetOf_eq_error_iff.1 hOffset).1 p hp
      exact absurd hHolds (covers_eq_false_iff.1 hNone)

theorem offsetOf_append (more : List Placement) (h : offsetOf sections rva = .ok offset) :
    offsetOf (sections ++ more) rva = .ok offset := by
  obtain ⟨before, p, after, rfl, hBefore, hCovers, rfl⟩ := offsetOf_eq_ok_iff.1 h
  exact offsetOf_eq_ok_iff.2
    ⟨before, p, after ++ more, List.append_assoc _ _ _, hBefore, hCovers, rfl⟩

/-! ## The search in machine words -/

/-- Whether the section covers the address, by a sum in 64 bits. -/
def wordCovers (rva : UInt32) (p : Placement) : Bool :=
  p.virtualAddress ≤ rva && rva.toUInt64 < p.virtualAddress.toUInt64 + p.extent.toUInt64

/-- The offset of the address by a sum in 64 bits, unless the address lies before the section. -/
def wordOffset? (rva : UInt32) (p : Placement) : Option UInt64 :=
  if rva < p.virtualAddress then none
  else some (p.rawPointer.toUInt64 + (rva - p.virtualAddress).toUInt64)

/-- Picks the sections that cover the address, and takes the first offset that one of them has. -/
def wordSearch (sections : List Placement) (rva : UInt32) : Option UInt64 :=
  (sections.filter (wordCovers rva)).findSome? (wordOffset? rva)

/-- In 64 bits, a sum of two 32-bit numbers is exact. -/
theorem toNat_toUInt64_add (a b : UInt32) :
    (a.toUInt64 + b.toUInt64).toNat = a.toNat + b.toNat := by
  have ha := a.toNat_lt
  have hb := b.toNat_lt
  rw [UInt64.toNat_add, UInt32.toNat_toUInt64, UInt32.toNat_toUInt64]
  exact Nat.mod_eq_of_lt (by omega)

theorem wordCovers_eq (rva : UInt32) (p : Placement) : wordCovers rva p = p.covers rva := by
  unfold wordCovers covers
  simp only [UInt64.lt_iff_toNat_lt, toNat_toUInt64_add, UInt32.toNat_toUInt64]

theorem wordOffset?_of_covers (h : p.covers rva = true) :
    (wordOffset? rva p).map UInt64.toNat = some (p.fileOffset rva) := by
  have hStart := (covers_iff.1 h).1
  have hNotBefore : ¬ rva < p.virtualAddress := by
    rw [UInt32.lt_iff_toNat_lt]
    omega
  rw [wordOffset?, if_neg hNotBefore, Option.map_some, toNat_toUInt64_add,
    UInt32.toNat_sub_of_le _ _ (UInt32.not_lt.1 hNotBefore)]
  rfl

/-- A section that covers the address has an offset for it, so the search ends at the first one. -/
theorem wordSearch_eq (sections : List Placement) (rva : UInt32) :
    (wordSearch sections rva).map UInt64.toNat = (offsetOf sections rva).toOption := by
  unfold wordSearch offsetOf
  induction sections with
  | nil => rfl
  | cons p rest ih =>
    rw [List.filter_cons, wordCovers_eq, List.find?_cons]
    cases hCovers : p.covers rva with
    | true =>
      have hOffset := wordOffset?_of_covers hCovers
      cases hWord : wordOffset? rva p with
      | none =>
        rw [hWord] at hOffset
        cases hOffset
      | some word =>
        rw [hWord] at hOffset
        rw [if_pos rfl, List.findSome?_cons, hWord]
        exact hOffset
    | false =>
      rw [if_neg Bool.false_ne_true, ih]
      cases rest.find? (·.covers rva) <;> rfl

/-! ## Which addresses are translated -/

/-- An address is translated by the first section that holds it, without wrapping, in machine words
as in natural numbers. Equal distances stay equal under one section, and sections behind the others
change nothing that was translated before. -/
theorem offsetOf_exact (sections : List Placement) (rva : UInt32) :
    ((∃ offset, offsetOf sections rva = .ok offset) ↔
      ∃ p ∈ sections, rva.toNat ∈ p.addresses) ∧
    (∀ offset, offsetOf sections rva = .ok offset ↔
      ∃ index p, IsFirst sections rva index p ∧
        offset = p.rawPointer.toNat + (rva.toNat - p.virtualAddress.toNat)) ∧
    (∀ offset, offsetOf sections rva = .ok offset → offset < 0x200000000) ∧
    ((∀ p ∈ sections, rva.toNat ∉ p.addresses) →
      offsetOf sections rva =
        .error (.malformed (.uncoveredAddress rva.toNat sections.length))) ∧
    (wordSearch sections rva).map UInt64.toNat = (offsetOf sections rva).toOption ∧
    (∀ (rva' : UInt32) (k index : Nat) (p : Placement), rva'.toNat = rva.toNat + k →
      IsFirst sections rva index p → IsFirst sections rva' index p →
        ∃ offset, offsetOf sections rva = .ok offset ∧
          offsetOf sections rva' = .ok (offset + k)) ∧
    ∀ (more : List Placement) (offset : Nat), offsetOf sections rva = .ok offset →
      offsetOf (sections ++ more) rva = .ok offset := by
  refine ⟨offsetOf_ok_iff, fun offset => offsetOf_eq_ok_iff_isFirst, fun offset h => ?_,
    fun hNone => ?_, wordSearch_eq sections rva, fun rva' k index p hNext hFirst hFirst' => ?_,
    fun more offset => offsetOf_append more⟩
  · obtain ⟨-, p, -, -, -, -, rfl⟩ := offsetOf_eq_ok_iff.1 h
    exact p.fileOffset_lt rva
  · exact offsetOf_eq_error_iff.2 ⟨fun p hp => covers_eq_false_iff.2 (hNone p hp), rfl⟩
  · refine ⟨p.fileOffset rva, offsetOf_of_isFirst hFirst, ?_⟩
    rw [offsetOf_of_isFirst hFirst', fileOffset_add hFirst.holds hNext]

/-- The first of two sections that hold an address wins, and a section may end behind the last
address. -/
example : offsetOf [⟨0x1000, 0x2000, 0x1000, 0x400⟩, ⟨0x1000, 0x2000, 0x1000, 0x800⟩] 0x2010 =
    .ok 0x410 ∧ offsetOf [⟨0x2000, 0xFFFFF000, 0, 0x200⟩] 0xFFFFFFFF = .ok 0x11FF := by decide

/-! ## Disjoint sections -/

/-- The sections have no address in common. -/
def AddressesDisjoint (sections : List Placement) : Prop :=
  sections.Pairwise fun p q => Disjoint p.addresses q.addresses

/-- The sections have no offset in the file in common. -/
def PlacesDisjoint (sections : List Placement) : Prop :=
  sections.Pairwise fun p q => Disjoint p.places q.places

instance symm_addresses : Std.Symm fun p q : Placement => Disjoint p.addresses q.addresses :=
  ⟨fun _ _ h => h.symm⟩

instance symm_places : Std.Symm fun p q : Placement => Disjoint p.places q.places :=
  ⟨fun _ _ h => h.symm⟩

/-- Where no other section has the address, being first is no distinction. -/
theorem offsetOf_of_mem (h : AddressesDisjoint sections) (hp : p ∈ sections)
    (hHolds : rva.toNat ∈ p.addresses) : offsetOf sections rva = .ok (p.fileOffset rva) := by
  obtain ⟨offset, hOffset⟩ := offsetOf_ok_iff.2 ⟨p, hp, hHolds⟩
  obtain ⟨before, q, after, hSplit, -, hCovers, rfl⟩ := offsetOf_eq_ok_iff.1 hOffset
  have hq : q ∈ sections := hSplit ▸ List.mem_append_right _ List.mem_cons_self
  by_cases hSame : p = q
  · rw [hOffset, hSame]
  · have hApart : Disjoint p.addresses q.addresses := List.Pairwise.forall h hp hq hSame
    exact absurd (covers_iff_mem.1 hCovers) (Set.disjoint_left.1 hApart hHolds)

theorem offsetOf_perm {other : List Placement} (h : AddressesDisjoint sections)
    (hPerm : sections.Perm other) (rva : UInt32) :
    offsetOf other rva = offsetOf sections rva := by
  have hOther : AddressesDisjoint other := (hPerm.pairwise_iff fun hApart => hApart.symm).1 h
  by_cases hHeld : ∃ p ∈ sections, rva.toNat ∈ p.addresses
  · obtain ⟨p, hp, hHolds⟩ := hHeld
    rw [offsetOf_of_mem h hp hHolds, offsetOf_of_mem hOther (hPerm.mem_iff.1 hp) hHolds]
  · have hNone : ∀ p ∈ sections, p.covers rva = false := fun p hp =>
      covers_eq_false_iff.2 fun hHolds => hHeld ⟨p, hp, hHolds⟩
    rw [offsetOf_eq_error_iff.2 ⟨hNone, rfl⟩, hPerm.length_eq]
    exact offsetOf_eq_error_iff.2 ⟨fun p hp => hNone p (hPerm.mem_iff.2 hp), rfl⟩

/-- Two addresses at one offset are held by one section, or by two that meet in the file. -/
theorem eq_of_offsetOf_eq (h : PlacesDisjoint sections) (hOffset : offsetOf sections rva = .ok offset)
    (hOffset' : offsetOf sections rva' = .ok offset) : rva = rva' := by
  obtain ⟨before, p, after, hSplit, -, hCovers, rfl⟩ := offsetOf_eq_ok_iff.1 hOffset
  obtain ⟨before', q, after', hSplit', -, hCovers', hSame⟩ := offsetOf_eq_ok_iff.1 hOffset'
  have hHolds := covers_iff_mem.1 hCovers
  have hHolds' := covers_iff_mem.1 hCovers'
  have hp : p ∈ sections := hSplit ▸ List.mem_append_right _ List.mem_cons_self
  have hq : q ∈ sections := hSplit' ▸ List.mem_append_right _ List.mem_cons_self
  by_cases hOne : p = q
  · subst hOne
    exact fileOffset_injective hHolds hHolds' hSame
  · have hApart : Disjoint p.places q.places := List.Pairwise.forall h hp hq hOne
    have hMeet : p.fileOffset rva ∈ q.places := hSame ▸ fileOffset_mem_places hHolds'
    exact absurd hMeet (Set.disjoint_left.1 hApart (fileOffset_mem_places hHolds))

/-- Disjoint sections translate alike in every order. If the offsets of their addresses are disjoint
too, the translation takes different addresses to different offsets. -/
theorem offsetOf_of_disjoint (h : AddressesDisjoint sections) :
    (∀ other, sections.Perm other → ∀ rva, offsetOf other rva = offsetOf sections rva) ∧
    (PlacesDisjoint sections → ∀ rva rva' offset, offsetOf sections rva = .ok offset →
      offsetOf sections rva' = .ok offset → rva = rva') :=
  ⟨fun _ hPerm rva => offsetOf_perm h hPerm rva,
    fun hPlaces _ _ _ hOffset hOffset' => eq_of_offsetOf_eq hPlaces hOffset hOffset'⟩

/-- A section that runs past the last address, one without a virtual size, and an empty one among the
addresses of the second. -/
def scattered : List Placement :=
  [⟨0x2000, 0xFFFFF000, 0, 0x200⟩, ⟨0, 0x2000, 0x1000, 0x4000⟩, ⟨0, 0x2800, 0, 0x4100⟩]

theorem addressesDisjoint_scattered : AddressesDisjoint scattered := by
  unfold AddressesDisjoint scattered addresses span
  simp only [List.pairwise_cons, Set.Ico_disjoint_Ico]
  decide

theorem placesDisjoint_scattered : PlacesDisjoint scattered := by
  unfold PlacesDisjoint scattered places span
  simp only [List.pairwise_cons, Set.Ico_disjoint_Ico]
  decide

theorem offsetOf_of_disjoint_scattered :
    (AddressesDisjoint scattered ∧ PlacesDisjoint scattered ∧ scattered.Perm scattered.reverse) ∧
    (∀ rva, offsetOf scattered.reverse rva = offsetOf scattered rva) ∧
    (∀ rva rva' offset, offsetOf scattered rva = .ok offset →
      offsetOf scattered rva' = .ok offset → rva = rva') ∧
    offsetOf scattered 0xFFFFFFFF = .ok 0x11FF ∧ offsetOf scattered 0x2900 = .ok 0x4900 := by
  have hPerm : scattered.Perm scattered.reverse := (List.reverse_perm _).symm
  obtain ⟨hOrder, hInjective⟩ := offsetOf_of_disjoint addressesDisjoint_scattered
  exact ⟨⟨addressesDisjoint_scattered, placesDisjoint_scattered, hPerm⟩, hOrder _ hPerm,
    hInjective placesDisjoint_scattered, by decide, by decide⟩

end ManagedImage.Placement
