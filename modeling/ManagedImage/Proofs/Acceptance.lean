import ManagedImage.Proofs.SummaryStages

/-!
# Which images have a summary

The stages of a read taken together. An image in memory has a summary if and only if its headers are
well-formed, the directory of the runtime header is in use, a section holds the address in it, and
the twenty bytes behind the offset which the first such section gives are there and pass the check
that the options ask for.

* `Layout.FirstCovering` is the first section of the table that holds an address.
* `Summary.verdict_exact`: each of the three kinds of answer, and when it is given.
-/

namespace ManagedImage

namespace Layout

variable {options : Options} {image : Bytes}

/-- The section with the given index is the first that holds the address. -/
structure FirstCovering (options : Options) (image : Bytes) (rva : UInt32) (index : Nat) :
    Prop where
  inTable : index < (sectionCount options image).toNat
  start_le : (placement options image index).virtualAddress.toNat ≤ rva.toNat
  lt_stop : rva.toNat < (placement options image index).virtualAddress.toNat +
    (placement options image index).extent.toNat
  first : ∀ j < index, rva.toNat < (placement options image j).virtualAddress.toNat ∨
    (placement options image j).virtualAddress.toNat + (placement options image j).extent.toNat ≤
      rva.toNat

theorem find?_placements {rva : UInt32} {p : Placement} :
    (placements options image).find? (·.covers rva) = some p ↔
      ∃ index, FirstCovering options image rva index ∧ p = placement options image index := by
  have hBefore : ∀ j, (placement options image j).covers rva = false ↔
      rva.toNat < (placement options image j).virtualAddress.toNat ∨
        (placement options image j).virtualAddress.toNat +
          (placement options image j).extent.toNat ≤ rva.toNat := by
    intro j
    rw [← Bool.not_eq_true, Placement.covers_iff]
    omega
  unfold placements
  rw [List.find?_eq_some_iff_getElem]
  constructor
  · intro h
    obtain ⟨hCovers, index, hIndex, rfl, hFirst⟩ := h
    simp only [List.length_map, List.length_range] at hIndex
    simp only [List.getElem_map, List.getElem_range] at hCovers hFirst
    obtain ⟨hStart, hStop⟩ := Placement.covers_iff.1 hCovers
    refine ⟨index, ⟨hIndex, hStart, hStop, fun j hj => (hBefore j).1 ?_⟩, ?_⟩
    · simpa using hFirst j hj
    · rw [List.getElem_map, List.getElem_range]
  · intro h
    obtain ⟨index, ⟨hIndex, hStart, hStop, hFirst⟩, rfl⟩ := h
    refine ⟨Placement.covers_iff.2 ⟨hStart, hStop⟩, index, ?_, ?_, fun j hj => ?_⟩
    · rw [List.length_map, List.length_range]
      exact hIndex
    · rw [List.getElem_map, List.getElem_range]
    · rw [List.getElem_map, List.getElem_range, (hBefore j).2 (hFirst j hj)]
      rfl

theorem runtimeOffset_eq_ok_iff {offset : Nat} :
    runtimeOffset options image = .ok offset ↔
      ∃ index, FirstCovering options image (runtimeDirectory options image).rva index ∧
        offset = (placement options image index).rawPointer.toNat +
          ((runtimeDirectory options image).rva.toNat -
            (placement options image index).virtualAddress.toNat) := by
  unfold runtimeOffset Placement.offsetOf
  constructor
  · intro h
    split at h
    · rename_i p hFind
      obtain ⟨index, hFirst, rfl⟩ := find?_placements.1 hFind
      cases h
      exact ⟨index, hFirst, rfl⟩
    · cases h
  · intro h
    obtain ⟨index, hFirst, rfl⟩ := h
    rw [find?_placements.2 ⟨index, hFirst, rfl⟩]
    rfl

end Layout

open Layout

theorem Headers.ofImage_ok_iff_wellFormed {options : Options} {image : Bytes} :
    (∃ headers, ofImage options (.ofBytes image) = .ok headers) ↔ WellFormed options image := by
  constructor
  · intro h
    obtain ⟨headers, h⟩ := h
    exact (ofImage_eq_ok_iff.1 h).1
  · intro hWell
    exact ⟨_, ofImage_eq_ok_iff.2 ⟨hWell, hWell.table,
      SizedImage.reaches_ofBytes.2 (Nat.min_le_right _ _), rfl⟩⟩

namespace Summary

variable {options : Options} {image : Bytes}

theorem ofBytes_eq_ok_iff {summary : Summary} :
    ofBytes options image = .ok summary ↔
      WellFormed options image ∧ HasRuntimeDirectory options image ∧
        ∃ offset, runtimeOffset options image = .ok offset ∧ offset + 20 ≤ image.length ∧
          RuntimeAccepted options image offset ∧ summary = standing options image offset := by
  rw [ofBytes_eq, ofImage_eq_ok_iff, Headers.ofImage_ok_iff_wellFormed]
  rfl

/-- The same, where the offset of the runtime header is known. -/
theorem ofBytes_eq_ok_iff_at {summary : Summary} {offset : Nat}
    (hOffset : runtimeOffset options image = .ok offset) :
    ofBytes options image = .ok summary ↔
      WellFormed options image ∧ HasRuntimeDirectory options image ∧ offset + 20 ≤ image.length ∧
        RuntimeAccepted options image offset ∧ summary = standing options image offset := by
  rw [ofBytes_eq_ok_iff]
  refine and_congr_right fun _ => and_congr_right fun _ => ⟨fun h => ?_, fun h => ⟨offset, hOffset, h⟩⟩
  obtain ⟨offset', hOffset', h⟩ := h
  obtain rfl : offset' = offset := Except.ok.inj (hOffset'.symm.trans hOffset)
  exact h

theorem ofBytes_eq_notManaged_iff :
    ofBytes options image = .error .notManaged ↔
      WellFormed options image ∧ ¬ HasRuntimeDirectory options image := by
  rw [ofBytes_eq, ofImage_eq_notManaged_iff, Headers.ofImage_ok_iff_wellFormed]
  rfl

/-- The three kinds of answer: no runtime header is declared, or it is found and accepted, or the
image is at fault. -/
theorem verdict_exact (options : Options) (image : Bytes) :
    (ofBytes options image = .error .notManaged ↔
      WellFormed options image ∧ ¬ HasRuntimeDirectory options image) ∧
    (∀ summary, ofBytes options image = .ok summary ↔
      WellFormed options image ∧ HasRuntimeDirectory options image ∧
        ∃ index offset,
          FirstCovering options image (runtimeDirectory options image).rva index ∧
          offset = (placement options image index).rawPointer.toNat +
            ((runtimeDirectory options image).rva.toNat -
              (placement options image index).virtualAddress.toNat) ∧
          offset + 20 ≤ image.length ∧ RuntimeAccepted options image offset ∧
          summary = standing options image offset) ∧
    ∀ e, ofBytes options image = .error e →
      e = .notManaged ∨ e = .outOfBounds ∨ ∃ defect, e = .malformed defect := by
  refine ⟨ofBytes_eq_notManaged_iff, fun summary => ?_, fun e h => ?_⟩
  · rw [ofBytes_eq_ok_iff]
    refine and_congr_right fun _ => and_congr_right fun _ => ?_
    constructor
    · intro h
      obtain ⟨offset, hOffset, h⟩ := h
      obtain ⟨index, hFirst, hPlace⟩ := runtimeOffset_eq_ok_iff.1 hOffset
      exact ⟨index, offset, hFirst, hPlace, h⟩
    · intro h
      obtain ⟨index, offset, hFirst, hPlace, h⟩ := h
      exact ⟨offset, runtimeOffset_eq_ok_iff.2 ⟨index, hFirst, hPlace⟩, h⟩
  · rw [ofBytes_eq] at h
    rcases ofImage_error h with ⟨rfl, -⟩ | hFormat
    · exact .inl rfl
    · cases e with
      | outOfBounds => exact .inr (.inl rfl)
      | malformed defect => exact .inr (.inr ⟨defect, rfl⟩)
      | notFound | notManaged | failed | refused => cases hFormat

end Summary

/-! ## Two small images -/

/-- An image of zeros in which some fields are filled in. -/
def Bytes.ofFields (size : Nat) (fields : List (Nat × Bytes)) : Bytes :=
  fields.foldl (fun image field => image.overwrite field.1 field.2) (List.replicate size 0)

/-- A managed image with one section, whose runtime header directly follows the section table. -/
@[irreducible] def specimen : Bytes :=
  .ofFields 364 [(0, [0x4D, 0x5A]), (0x3C, [0x40]), (0x40, [0x50, 0x45, 0, 0, 0x4C, 1, 1]),
    (84, [216]), (88, [0x0B, 1]), (180, [15]), (296, [0, 0x20, 0, 0, 72]),
    (304, [0x2E, 0x74, 0x65, 0x78, 0x74, 0, 0, 0, 0, 16, 0, 0, 0, 0x20, 0, 0, 20, 0, 0, 0, 0x58, 1]),
    (344, [72, 0, 0, 0, 2, 0, 5, 0, 0x5C, 0x20, 0, 0, 16, 0, 0, 0, 1])]

theorem length_specimen : specimen.length = 364 := by decide +kernel

theorem runtimeOffset_specimen : runtimeOffset .strict specimen = .ok 344 := by decide +kernel

theorem Summary.ofBytes_specimen :
    ofBytes .strict specimen = .ok (standing .strict specimen 344) := by decide +kernel

example : Summary.standing .strict specimen 344 =
    ⟨.pe32, .i386, ⟨2, 5⟩, ⟨1⟩, ⟨0x205C, 16⟩⟩ := by decide +kernel

/-- An image that leaves its header offset zero, and ends with its section table. -/
@[irreducible] def offsetless : Bytes :=
  .ofFields 288 [(0, [0x4D, 0x5A]), (0x80, [0x50, 0x45, 0, 0, 0x4C, 1, 1]), (148, [96]),
    (152, [0x0B, 1]), (248, [0x2E, 0x72, 0x73, 0x72, 0x63])]

theorem Headers.read_offsetless :
    (read .standard).outcome offsetless = .ok (standing .standard (.ofBytes offsetless)) := by
  decide +kernel

end ManagedImage
