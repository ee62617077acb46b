import ManagedImage.Proofs.Acceptance

/-!
# Images that agree on their headers

What is read of an image depends on few of its bytes. This module says on which, for images whose
headers have their form.

* `Layout.SameLayout` says that two images have the same fields that fix the layout and lead to the
  runtime header; `Layout.Framed.sameLayout` gives it for images that agree on the bytes of these
  fields, and `Layout.AgreeOnHeaders` for images that agree on all that comes before the table.
* `Layout.SameLayout.framed`: the second image then has its headers in their form as well.
* `Summary.ofBytes_of_sameLayout`: besides the layout, a summary depends on the machine and on the
  twenty bytes of the runtime header.
-/

namespace ManagedImage

open FixedWidth (valueAt)

namespace Layout

variable {options : Options} {image image' : Bytes}

/-- The fields that fix the layout are the same, and so are those by which the runtime header is
found. -/
structure SameLayout (options : Options) (image image' : Bytes) : Prop where
  signatureOffset : signatureOffset options image' = signatureOffset options image
  sectionCount : sectionCount options image' = sectionCount options image
  optionalSize : optionalSize options image' = optionalSize options image
  magic : magic options image' = magic options image
  directoryCount : directoryCount options image' = directoryCount options image
  runtimeDirectory : 15 ≤ (Layout.directoryCount options image).toNat →
    runtimeDirectory options image' = runtimeDirectory options image
  placement : ∀ index < (Layout.sectionCount options image).toNat,
    placement options image' index = placement options image index

namespace SameLayout

variable (h : SameLayout options image image')
include h

theorem tableOffset : tableOffset options image' = tableOffset options image := by
  simp only [Layout.tableOffset, h.signatureOffset, h.optionalSize]

theorem tableEnd : tableEnd options image' = tableEnd options image := by
  simp only [Layout.tableEnd, h.tableOffset, h.sectionCount]

theorem entryOffset (index : Nat) :
    entryOffset options image' index = entryOffset options image index := by
  simp only [Layout.entryOffset, h.tableOffset]

theorem format : Layout.format options image' = Layout.format options image := by
  simp only [Layout.format, h.magic]

theorem hasRuntimeDirectory_iff :
    HasRuntimeDirectory options image' ↔ HasRuntimeDirectory options image := by
  unfold HasRuntimeDirectory
  rw [h.directoryCount]
  exact and_congr_right fun hCount => by rw [h.runtimeDirectory hCount]

theorem placements : placements options image' = placements options image := by
  unfold Layout.placements
  rw [h.sectionCount]
  exact List.map_congr_left fun index hIndex => h.placement index (List.mem_range.1 hIndex)

theorem runtimeOffset (hDirectory : HasRuntimeDirectory options image) :
    runtimeOffset options image' = runtimeOffset options image := by
  simp only [Layout.runtimeOffset, h.placements, h.runtimeDirectory hDirectory.1]

theorem framed (hFramed : Framed options image) (hMagic : image'.AgreeOn image 0 2)
    (hSignature : image'.AgreeOn image (Layout.signatureOffset options image)
      (Layout.signatureOffset options image + 4))
    (hStub : Stub.Legal (Headers.stub image' (Layout.signatureOffset options image)))
    (hTable : Layout.tableEnd options image ≤ image'.length) : Framed options image' := by
  have hEnd := @fileEnd_le_tableEnd options image
  have hBehind := hFramed.behind
  have hFirst : image'.take 2 = image.take 2 := @Bytes.AgreeOn.slice_eq _ _ 0 2 hMagic
  constructor
  case dosHeader => omega
  case dosMagic => rw [hFirst, hFramed.dosMagic]
  case fileHeader => rw [h.signatureOffset]; omega
  case signature => rw [h.signatureOffset, hSignature.slice_eq, hFramed.signature]
  case sectionLimit => rw [h.sectionCount]; exact hFramed.sectionLimit
  case table => rw [h.tableEnd]; exact hTable
  case magic => rw [h.magic]; exact hFramed.magic
  case directoryCount => rw [h.directoryCount]; exact hFramed.directoryCount
  case directories =>
    rw [h.format, h.directoryCount, h.optionalSize]
    exact hFramed.directories
  case behind => rw [h.signatureOffset]; exact hBehind
  case stub => rw [h.signatureOffset]; exact hStub

/-- The same layout with the same names in it has legal names again. -/
theorem names (hWell : WellFormed options image)
    (hNames : ∀ index < (Layout.sectionCount options image).toNat,
      image'.AgreeOn image (Layout.entryOffset options image index)
        (Layout.entryOffset options image index + 8)) :
    ∀ index < (Layout.sectionCount options image').toNat,
      SectionName.Legal (sectionName options image' index) := by
  intro index hIndex
  rw [h.sectionCount] at hIndex
  rw [sectionName, h.entryOffset, (hNames index hIndex).slice_eq]
  exact hWell.names index hIndex

end SameLayout

theorem signatureOffset_eq_of_agreeOn (h : image'.AgreeOn image 0x3C 0x40) :
    signatureOffset options image' = signatureOffset options image := by
  have hStored : storedOffset image' = storedOffset image := h.valueAt_eq
  have hAssumes : AssumesOffset options image' ↔ AssumesOffset options image := by
    simp only [AssumesOffset, hStored]
  unfold signatureOffset
  by_cases hTake : AssumesOffset options image
  · rw [if_pos hTake, if_pos (hAssumes.2 hTake)]
  · rw [if_neg hTake, if_neg fun h' => hTake (hAssumes.1 h'), hStored]

theorem stub_eq_of_agreeOn {peOffset : Nat} (h : image'.AgreeOn image 64 peOffset)
    (hBehind : 64 ≤ peOffset) : Headers.stub image' peOffset = Headers.stub image peOffset := by
  have hSize : DosHeader.size = 64 := rfl
  exact Bytes.AgreeOn.slice_eq (h.mono (Nat.le_of_eq hSize.symm) (by omega))

theorem Framed.sameLayout (h : Framed options image) (hOffset : image'.AgreeOn image 0x3C 0x40)
    (hHeaders : image'.AgreeOn image (signatureOffset options image + 6)
      (tableOffset options image))
    (hEntries : ∀ index < (sectionCount options image).toNat,
      image'.AgreeOn image (entryOffset options image index + 8)
        (entryOffset options image index + 24)) : SameLayout options image image' := by
  have hSignature := @signatureOffset_eq_of_agreeOn options _ _ hOffset
  have hTable : tableOffset options image =
    signatureOffset options image + 24 + (optionalSize options image).toNat := rfl
  have hDirectory : directoryOffset options image =
    signatureOffset options image + 24 + (Layout.format options image).fixedSize := rfl
  have hFixed : 96 ≤ (Layout.format options image).fixedSize := by
    cases Layout.format options image <;> decide
  have hDirectories := h.directories
  have hCount : sectionCount options image' = sectionCount options image := by
    unfold sectionCount
    rw [hSignature]
    exact (hHeaders.mono (Nat.le_refl _) (by show _ + 2 ≤ _; omega)).valueAt_eq
  have hSize : optionalSize options image' = optionalSize options image := by
    unfold optionalSize
    rw [hSignature]
    exact (hHeaders.mono (by omega) (by show _ + 2 ≤ _; omega)).valueAt_eq
  have hMagic : Layout.magic options image' = Layout.magic options image := by
    unfold Layout.magic
    rw [hSignature]
    exact (hHeaders.mono (by omega) (by show _ + 2 ≤ _; omega)).valueAt_eq
  have hPlace : directoryOffset options image' = directoryOffset options image := by
    simp only [directoryOffset, Layout.format, hSignature, hMagic]
  have hTableOffset : tableOffset options image' = tableOffset options image := by
    simp only [tableOffset, hSignature, hSize]
  constructor
  case signatureOffset => exact hSignature
  case sectionCount => exact hCount
  case optionalSize => exact hSize
  case magic => exact hMagic
  case directoryCount =>
    unfold Layout.directoryCount
    rw [hPlace]
    exact (hHeaders.mono (by omega) (by show _ + 4 ≤ _; omega)).valueAt_eq
  case runtimeDirectory =>
    intro hDeclared
    unfold runtimeDirectory
    rw [hPlace]
    exact (hHeaders.mono (by omega) (by show _ + 8 ≤ _; omega)).valueAt_eq
  case placement =>
    intro index hIndex
    have hEntry : entryOffset options image' index = entryOffset options image index := by
      simp only [entryOffset, hTableOffset]
    unfold placement
    rw [hEntry]
    exact (hEntries index hIndex).valueAt_eq

/-- The images hold the same bytes up to the section table, and the same placements in it. -/
structure AgreeOnHeaders (options : Options) (image image' : Bytes) : Prop where
  front : image'.AgreeOn image 0 (tableOffset options image)
  placements : ∀ index < (sectionCount options image).toNat,
    image'.AgreeOn image (entryOffset options image index + 8)
      (entryOffset options image index + 24)

namespace AgreeOnHeaders

variable (h : AgreeOnHeaders options image image')
include h

theorem agreeOn {start stop : Nat} (hStop : stop ≤ signatureOffset options image + 24) :
    image'.AgreeOn image start stop := by
  apply h.front.mono (Nat.zero_le _)
  simp only [tableOffset]
  omega

variable (hFramed : Framed options image)
include hFramed

theorem sameLayout : SameLayout options image image' := by
  have hBehind := hFramed.behind
  exact hFramed.sameLayout (h.agreeOn (by omega))
    (h.front.mono (Nat.zero_le _) (Nat.le_refl _)) h.placements

theorem machine_eq : machine options image' = machine options image :=
  (fileFields_eq_of_agreeOn (h.sameLayout hFramed).signatureOffset
    (h.agreeOn (Nat.le_refl _))).1

theorem framed (hTable : tableEnd options image ≤ image'.length) : Framed options image' := by
  have hBehind := hFramed.behind
  have hStub : Headers.stub image' (signatureOffset options image) =
      Headers.stub image (signatureOffset options image) :=
    stub_eq_of_agreeOn (h.agreeOn (by omega)) hBehind
  refine (h.sameLayout hFramed).framed hFramed (h.agreeOn (by omega))
    (h.agreeOn (by omega)) ?_ hTable
  rw [hStub]
  exact hFramed.stub

end AgreeOnHeaders

end Layout

open Layout

namespace Summary

variable {options : Options} {image image' : Bytes} {offset : Nat}

theorem standing_eq_of_agreeOn (hFormat : Layout.format options image' = Layout.format options image)
    (hMachine : Layout.machine options image' = Layout.machine options image)
    (hRuntime : image'.AgreeOn image offset (offset + 20)) :
    standing options image' offset = standing options image offset := by
  have h16 : ∀ place, offset ≤ place → place + 2 ≤ offset + 20 →
      valueAt UInt16 image' place = valueAt UInt16 image place :=
    fun place hStart hStop => (hRuntime.mono hStart hStop).valueAt_eq
  have h32 : ∀ place, offset ≤ place → place + 4 ≤ offset + 20 →
      valueAt UInt32 image' place = valueAt UInt32 image place :=
    fun place hStart hStop => (hRuntime.mono hStart hStop).valueAt_eq
  unfold standing
  rw [hFormat, hMachine, h16 (offset + 4) (by omega) (by omega),
    h16 (offset + 6) (by omega) (by omega), h32 (offset + 8) (by omega) (by omega),
    h32 (offset + 12) (by omega) (by omega), h32 (offset + 16) (by omega) (by omega)]

theorem runtimeAccepted_iff_of_agreeOn (hRuntime : image'.AgreeOn image offset (offset + 20)) :
    RuntimeAccepted options image' offset ↔ RuntimeAccepted options image offset := by
  have hSize : valueAt UInt32 image' offset = valueAt UInt32 image offset :=
    (hRuntime.mono (Nat.le_refl _) (by show _ + 4 ≤ _; omega)).valueAt_eq
  have hMajor : valueAt UInt16 image' (offset + 4) = valueAt UInt16 image (offset + 4) :=
    (hRuntime.mono (by omega) (by show _ + 2 ≤ _; omega)).valueAt_eq
  have hFlags : valueAt UInt32 image' (offset + 16) = valueAt UInt32 image (offset + 16) :=
    (hRuntime.mono (by omega) (by show _ + 4 ≤ _; omega)).valueAt_eq
  simp only [RuntimeAccepted, hSize, hMajor, hFlags]

/-- An accepted image with the same layout, machine and runtime header has the same summary. -/
theorem ofBytes_of_sameLayout {summary : Summary} (h : ofBytes options image = .ok summary)
    (hOffset : runtimeOffset options image = .ok offset)
    (hSame : SameLayout options image image') (hWell : WellFormed options image')
    (hMachine : Layout.machine options image' = Layout.machine options image)
    (hRuntime : image'.AgreeOn image offset (offset + 20)) (hFits : offset + 20 ≤ image'.length) :
    ofBytes options image' = .ok summary := by
  obtain ⟨-, hDirectory, -, hAccepted, rfl⟩ := (ofBytes_eq_ok_iff_at hOffset).1 h
  refine (ofBytes_eq_ok_iff_at ((hSame.runtimeOffset hDirectory).trans hOffset)).2
    ⟨hWell, hSame.hasRuntimeDirectory_iff.2 hDirectory, hFits, ?_, ?_⟩
  · exact (runtimeAccepted_iff_of_agreeOn hRuntime).2 hAccepted
  · exact (standing_eq_of_agreeOn hSame.format hMachine hRuntime).symm

theorem ofBytes_notManaged_of_sameLayout (h : ofBytes options image = .error .notManaged)
    (hSame : SameLayout options image image') (hWell : WellFormed options image') :
    ofBytes options image' = .error .notManaged := by
  obtain ⟨-, hDirectory⟩ := ofBytes_eq_notManaged_iff.1 h
  exact ofBytes_eq_notManaged_iff.2
    ⟨hWell, fun hPresent => hDirectory (hSame.hasRuntimeDirectory_iff.1 hPresent)⟩

end Summary

end ManagedImage
