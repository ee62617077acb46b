import ManagedImage.FixedWidth

/-!
# Where sections lie

A section is a range of the loaded image that is filled from a range of the file. Directories give
addresses in the loaded image, relative to its base; `Placement.offsetOf` turns such an address into
an offset in the file by way of the first section that covers it.

* `Placement.covers_iff`: a section covers `[virtualAddress, virtualAddress + extent)`, without
  wrapping at 32 bits.
* `Placement.offsetOf_eq_ok_iff`: the offset is that of the first section that covers the address.
-/

namespace ManagedImage

/-- Where a section lies in the loaded image and in the file. -/
structure Placement where
  virtualSize : UInt32
  virtualAddress : UInt32
  rawSize : UInt32
  rawPointer : UInt32
  deriving DecidableEq, Repr

namespace Placement

instance : FixedWidth Placement :=
  .via
    (fun (virtualSize, virtualAddress, rawSize, rawPointer) =>
      (⟨virtualSize, virtualAddress, rawSize, rawPointer⟩ : Placement))
    (fun p => (p.virtualSize, p.virtualAddress, p.rawSize, p.rawPointer))
    (fun _ => rfl) (fun _ => rfl)

/-- The number of addresses that a section spans. Some linkers leave the virtual size zero; the raw
size then stands in. -/
def extent (p : Placement) : UInt32 := if p.virtualSize = 0 then p.rawSize else p.virtualSize

/-- The address lies in the section. -/
def covers (p : Placement) (rva : UInt32) : Bool :=
  p.virtualAddress ≤ rva && rva.toNat < p.virtualAddress.toNat + p.extent.toNat

/-- The offset in the file at which the section holds an address that it covers. -/
def fileOffset (p : Placement) (rva : UInt32) : Nat :=
  p.rawPointer.toNat + (rva.toNat - p.virtualAddress.toNat)

/-- The offset in the file of an address in the loaded image. -/
def offsetOf (sections : List Placement) (rva : UInt32) : Except Error Nat :=
  match sections.find? (·.covers rva) with
  | some p => .ok (p.fileOffset rva)
  | none => .error (.malformed (.uncoveredAddress rva.toNat sections.length))

theorem covers_iff {p : Placement} {rva : UInt32} :
    p.covers rva = true ↔ p.virtualAddress.toNat ≤ rva.toNat ∧
      rva.toNat < p.virtualAddress.toNat + p.extent.toNat := by
  simp [covers, UInt32.le_iff_toNat_le]

theorem offsetOf_eq_ok_iff {sections : List Placement} {rva : UInt32} {offset : Nat} :
    offsetOf sections rva = .ok offset ↔
      ∃ before p after, sections = before ++ p :: after ∧ (∀ q ∈ before, q.covers rva = false) ∧
        p.covers rva = true ∧ offset = p.fileOffset rva := by
  unfold offsetOf
  constructor
  · intro h
    cases hFind : sections.find? (·.covers rva) with
    | none => simp [hFind] at h
    | some p =>
      simp only [hFind, Except.ok.injEq] at h
      obtain ⟨hCovers, before, after, hSplit, hBefore⟩ := List.find?_eq_some_iff_append.1 hFind
      exact ⟨before, p, after, hSplit, fun q hq => by simpa using hBefore q hq, hCovers, h.symm⟩
  · rintro ⟨before, p, after, hSplit, hBefore, hCovers, rfl⟩
    have hFind : sections.find? (·.covers rva) = some p :=
      List.find?_eq_some_iff_append.2
        ⟨hCovers, before, after, hSplit, fun q hq => by simp [hBefore q hq]⟩
    rw [hFind]

theorem offsetOf_eq_error_iff {sections : List Placement} {rva : UInt32} {error : Error} :
    offsetOf sections rva = .error error ↔
      (∀ p ∈ sections, p.covers rva = false) ∧
        error = .malformed (.uncoveredAddress rva.toNat sections.length) := by
  unfold offsetOf
  cases hFind : sections.find? (·.covers rva) with
  | none =>
    have hNone : ∀ p ∈ sections, p.covers rva = false := by simpa using hFind
    simp only [Except.error.injEq]
    exact ⟨fun h => ⟨hNone, h.symm⟩, fun h => h.2.symm⟩
  | some p =>
    have hCovers := List.find?_some hFind
    simp only [reduceCtorEq, false_iff, not_and]
    intro hNone
    exact absurd hCovers (by simp [hNone p (List.mem_of_find?_eq_some hFind)])

theorem fileOffset_lt (p : Placement) (rva : UInt32) : p.fileOffset rva < 0x200000000 := by
  have hPointer := p.rawPointer.toNat_lt
  have hRva := rva.toNat_lt
  simp only [fileOffset]
  omega

end Placement

end ManagedImage
