import ManagedImage.Proofs.Agreement

/-!
# What the names of the sections decide

The runtime header is found by the sizes, addresses and raw pointers of the sections. Their names
play no part in this, but a name that starts with a slash refers to the string table, and the read
refuses an image with a reference that is no number.

* `Layout.DifferInNames`: two images that differ in nothing but the names of the sections.
* `Summary.sectionNames_decide`: such images have the same answer, unless a name of the second is an
  illegal reference; then that is what is wrong with it.
-/

namespace ManagedImage

open Layout

namespace Layout

variable {options : Options} {image image' : Bytes}

/-- Outside the names of the first image's sections, the images hold the same bytes. -/
structure DifferInNames (options : Options) (image image' : Bytes) : Prop where
  length_eq : image'.length = image.length
  same : ∀ place, (∀ index < (sectionCount options image).toNat,
    place < entryOffset options image index ∨ entryOffset options image index + 8 ≤ place) →
      image'[place]? = image[place]?

namespace DifferInNames

variable (h : DifferInNames options image image')
include h

theorem agreeOnHeaders : AgreeOnHeaders options image image' := by
  constructor
  case front =>
    intro place _ hPlace
    refine h.same place fun index _ => .inl ?_
    simp only [entryOffset]
    omega
  case placements =>
    intro index _ place hLow hHigh
    simp only [entryOffset] at hLow hHigh
    refine h.same place fun other _ => ?_
    simp only [entryOffset]
    omega

theorem agreeOn_behind {start stop : Nat} (hStart : tableEnd options image ≤ start) :
    image'.AgreeOn image start stop := by
  intro place hLow _
  refine h.same place fun index hIndex => .inr ?_
  simp only [tableEnd] at hStart
  simp only [entryOffset]
  omega

end DifferInNames

end Layout

namespace Summary

variable {options : Options} {image image' : Bytes}

/-- The answer is no summary, or one that is read off bytes behind the section table. -/
def ReadBehindTable (options : Options) (image : Bytes) : Prop :=
  ofBytes options image = .error .notManaged ∨
    ∃ summary offset, ofBytes options image = .ok summary ∧
      runtimeOffset options image = .ok offset ∧ tableEnd options image ≤ offset

theorem ReadBehindTable.framed (h : ReadBehindTable options image) : Framed options image := by
  rcases h with h | ⟨_, _, h, -⟩
  · exact (ofBytes_eq_notManaged_iff.1 h).1.toFramed
  · exact (ofBytes_eq_ok_iff.1 h).1.toFramed

/-- A framed image with an illegal name is malformed. -/
theorem ofBytes_of_illegal (h : Framed options image)
    (hNames : ¬ ∀ index < (sectionCount options image).toNat,
      SectionName.Legal (sectionName options image index)) :
    ∃ defect, ofBytes options image = .error (.malformed (.entity defect)) := by
  have hRead : Headers.ofImage options (.ofBytes image) = Headers.named options (.ofBytes image) :=
    Headers.ofImage_of_framed h h.table (SizedImage.reaches_ofBytes.2 (Nat.min_le_right _ _))
  cases hNamed : Headers.named options (.ofBytes image) with
  | ok headers =>
    have hLegal := (@Headers.named_eq_ok_iff options (.ofBytes image) h.table headers).1 hNamed
    exact absurd hLegal.1 hNames
  | error e =>
    obtain ⟨defect, rfl⟩ := Headers.blamesEntity_named e hNamed
    refine ⟨defect, ?_⟩
    rw [ofBytes_eq, ofImage, hRead, hNamed]
    rfl

/-- Legal names change nothing, and an illegal one is all that the second image is blamed for. -/
theorem sectionNames_decide (h : DifferInNames options image image')
    (hRead : ReadBehindTable options image) :
    ((∀ index < (sectionCount options image).toNat,
        SectionName.Legal (sectionName options image' index)) →
      ofBytes options image' = ofBytes options image) ∧
    ((∃ index < (sectionCount options image).toNat,
        ¬ SectionName.Legal (sectionName options image' index)) →
      ∃ defect, ofBytes options image' = .error (.malformed (.entity defect))) := by
  have hFramed := hRead.framed
  have hSame := h.agreeOnHeaders.sameLayout hFramed
  have hFramed' := h.agreeOnHeaders.framed hFramed (h.length_eq ▸ hFramed.table)
  constructor
  · intro hNames
    have hWell : WellFormed options image' := ⟨hFramed', hSame.sectionCount ▸ hNames⟩
    rcases hRead with hNative | ⟨summary, offset, hSummary, hOffset, hBehind⟩
    · rw [hNative]
      exact ofBytes_notManaged_of_sameLayout hNative hSame hWell
    · obtain ⟨-, -, offset', hOffset', hFits, -⟩ := ofBytes_eq_ok_iff.1 hSummary
      obtain rfl : offset' = offset := Except.ok.inj (hOffset'.symm.trans hOffset)
      rw [hSummary]
      refine ofBytes_of_sameLayout hSummary hOffset hSame hWell
        (h.agreeOnHeaders.machine_eq hFramed) (h.agreeOn_behind hBehind) ?_
      rw [h.length_eq]
      exact hFits
  · intro h
    obtain ⟨index, hIndex, hIllegal⟩ := h
    refine ofBytes_of_illegal hFramed' fun hNames => hIllegal (hNames index ?_)
    rw [hSame.sectionCount]
    exact hIndex

/-! ## The names of one section -/

/-- The small managed image with another name for its section. -/
def renamed (name : Bytes) : Bytes := specimen.overwrite 304 name

theorem sectionCount_specimen : (sectionCount .strict specimen).toNat = 1 := by decide +kernel

theorem differInNames_renamed {name : Bytes} (h : name.length = 8) :
    DifferInNames .strict specimen (renamed name) := by
  have hEntry : entryOffset .strict specimen 0 = 304 := by decide +kernel
  refine ⟨Bytes.length_overwrite _ _ _, fun place hOutside => ?_⟩
  have hFree := hOutside 0 (by rw [sectionCount_specimen]; exact Nat.zero_lt_one)
  rw [hEntry] at hFree
  refine Bytes.agreeOn_overwrite specimen name ?_ place (Nat.le_refl _) (Nat.lt_succ_self _)
  omega

theorem readBehindTable_specimen : ReadBehindTable .strict specimen :=
  .inr ⟨_, 344, ofBytes_specimen, runtimeOffset_specimen, by decide +kernel⟩

theorem legal_renamed : ∀ index < (sectionCount .strict specimen).toNat,
    SectionName.Legal (sectionName .strict (renamed [0x2F, 0x34, 0, 0, 0, 0, 0, 0]) index) := by
  intro index hIndex
  rw [sectionCount_specimen, Nat.lt_one_iff] at hIndex
  have hName : sectionName .strict (renamed [0x2F, 0x34, 0, 0, 0, 0, 0, 0]) 0 =
      [0x2F, 0x34, 0, 0, 0, 0, 0, 0] := by decide +kernel
  rw [hIndex, hName]
  exact SectionName.reference?_ok_iff.1 ⟨some 4, by decide +kernel⟩

theorem not_legal_renamed : ∃ index < (sectionCount .strict specimen).toNat,
    ¬ SectionName.Legal (sectionName .strict (renamed [0x2F, 0x78, 0, 0, 0, 0, 0, 0]) index) := by
  have hName : sectionName .strict (renamed [0x2F, 0x78, 0, 0, 0, 0, 0, 0]) 0 =
      [0x2F, 0x78, 0, 0, 0, 0, 0, 0] := by decide +kernel
  have hRefused : SectionName.reference? [0x2F, 0x78, 0, 0, 0, 0, 0, 0] =
      .error (.malformed (.entity (.nameNotDecimal "x" .invalidDigit))) := by decide +kernel
  refine ⟨0, by rw [sectionCount_specimen]; exact Nat.zero_lt_one, ?_⟩
  rw [hName, ← SectionName.reference?_ok_iff, hRefused]
  exact not_error_eq_ok

/-- `/4` and `/x` as names: the first is a reference, the second is not. -/
theorem sectionNames_decide_specimen :
    (DifferInNames .strict specimen (renamed [0x2F, 0x34, 0, 0, 0, 0, 0, 0]) ∧
      DifferInNames .strict specimen (renamed [0x2F, 0x78, 0, 0, 0, 0, 0, 0]) ∧
      ReadBehindTable .strict specimen) ∧
    ofBytes .strict (renamed [0x2F, 0x34, 0, 0, 0, 0, 0, 0]) = ofBytes .strict specimen ∧
    ∃ defect, ofBytes .strict (renamed [0x2F, 0x78, 0, 0, 0, 0, 0, 0]) =
      .error (.malformed (.entity defect)) :=
  have hLegal := @differInNames_renamed [0x2F, 0x34, 0, 0, 0, 0, 0, 0] rfl
  have hIllegal := @differInNames_renamed [0x2F, 0x78, 0, 0, 0, 0, 0, 0] rfl
  ⟨⟨hLegal, hIllegal, readBehindTable_specimen⟩,
    (sectionNames_decide hLegal readBehindTable_specimen).1 legal_renamed,
    (sectionNames_decide hIllegal readBehindTable_specimen).2 not_legal_renamed⟩

/-- Names are not free: a managed image is malformed once its section is called `/x`. -/
theorem sectionName_refused :
    DifferInNames .strict specimen (renamed [0x2F, 0x78, 0, 0, 0, 0, 0, 0]) ∧
      ReadBehindTable .strict specimen ∧
      ofBytes .strict specimen = .ok (standing .strict specimen 344) ∧
      ofBytes .strict (renamed [0x2F, 0x78, 0, 0, 0, 0, 0, 0]) =
        .error (.malformed (.entity (.nameNotDecimal "x" .invalidDigit))) :=
  ⟨differInNames_renamed rfl, readBehindTable_specimen, ofBytes_specimen, by decide +kernel⟩

end Summary

end ManagedImage
