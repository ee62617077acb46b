import ManagedImage.Proofs.Acceptance

/-!
# How tolerant options change an answer

The options loosen a read at three stages: a header offset of zero, the number of sections, and the
values of the runtime header. Looser options have an answer for more images and give no image
another one.

* `Options.Tighter`: the order of the options.
* `Layout.SameOffset`: two options find the signature at the same place, so they see the same
  layout. An image that is accepted has its signature behind the DOS header, so a stored offset of
  zero only leads to it where it is taken for the usual one (`Layout.Framed.offset_found`).
* `Summary.Objection`: what tighter options can have against an image that looser ones accept.
* `Summary.loosening_keeps`: an answer stays under looser options, and under tighter ones it is
  lost exactly by an objection, which makes the image malformed.
-/

namespace ManagedImage

open FixedWidth (valueAt)

/-- Whatever the first options tolerate, the second tolerate as well. -/
structure Options.Tighter (tight loose : Options) : Prop where
  runtimeHeader : loose.strictRuntimeHeader → tight.strictRuntimeHeader
  sections : tight.maxSections ≤ loose.maxSections
  offset : tight.zeroOffsetFallback → loose.zeroOffsetFallback

/-! ## The same layout under other options -/

namespace Layout

variable {options options' : Options} {image : Bytes}

/-- Both options find the signature at the same place. -/
def SameOffset (options options' : Options) (image : Bytes) : Prop :=
  signatureOffset options' image = signatureOffset options image

theorem signatureOffset_eq_zero (hZero : storedOffset image = 0)
    (hNone : options.zeroOffsetFallback = false) : signatureOffset options image = 0 := by
  have hAssumes : ¬ AssumesOffset options image := fun hAssumes =>
    Bool.noConfusion (hNone.symm.trans hAssumes.2)
  rw [signatureOffset, if_neg hAssumes, hZero]
  rfl

/-- The signature lies behind the DOS header, so an offset of zero has been taken for the usual
one. -/
theorem Framed.offset_found (h : Framed options image) :
    ¬ (storedOffset image = 0 ∧ options.zeroOffsetFallback = false) := by
  intro hLost
  have hBehind := h.behind
  rw [signatureOffset_eq_zero hLost.1 hLost.2] at hBehind
  omega

theorem sameOffset_of_tighter {tight loose : Options} (h : tight.Tighter loose)
    (hFound : ¬ (storedOffset image = 0 ∧ tight.zeroOffsetFallback = false)) :
    SameOffset tight loose image := by
  unfold SameOffset signatureOffset
  by_cases hZero : storedOffset image = 0
  · have hAssumed : tight.zeroOffsetFallback := Bool.of_not_eq_false fun hNone =>
      hFound ⟨hZero, hNone⟩
    rw [if_pos ⟨hZero, h.offset hAssumed⟩, if_pos ⟨hZero, hAssumed⟩]
  · rw [if_neg fun hAssumes => hZero hAssumes.1, if_neg fun hAssumes => hZero hAssumes.1]

namespace SameOffset

theorem symm (h : SameOffset options options' image) : SameOffset options' options image :=
  Eq.symm h

variable (h : SameOffset options options' image)
include h

theorem machine : machine options' image = machine options image := by
  rw [Layout.machine, h, Layout.machine]

theorem sectionCount : sectionCount options' image = sectionCount options image := by
  rw [Layout.sectionCount, h, Layout.sectionCount]

theorem optionalSize : optionalSize options' image = optionalSize options image := by
  rw [Layout.optionalSize, h, Layout.optionalSize]

theorem magic : magic options' image = magic options image := by
  rw [Layout.magic, h, Layout.magic]

theorem format : Layout.format options' image = Layout.format options image := by
  rw [Layout.format, h.magic, Layout.format]

theorem directoryOffset : directoryOffset options' image = directoryOffset options image := by
  rw [Layout.directoryOffset, h, h.format, Layout.directoryOffset]

theorem directoryCount : directoryCount options' image = directoryCount options image := by
  rw [Layout.directoryCount, h.directoryOffset, Layout.directoryCount]

theorem runtimeDirectory : runtimeDirectory options' image = runtimeDirectory options image := by
  rw [Layout.runtimeDirectory, h.directoryOffset, Layout.runtimeDirectory]

theorem hasRuntimeDirectory_iff :
    HasRuntimeDirectory options' image ↔ HasRuntimeDirectory options image := by
  rw [HasRuntimeDirectory, h.directoryCount, h.runtimeDirectory, HasRuntimeDirectory]

theorem tableEnd : tableEnd options' image = tableEnd options image := by
  rw [Layout.tableEnd, tableOffset, h, h.optionalSize, h.sectionCount, Layout.tableEnd, tableOffset]

theorem entryOffset (index : Nat) :
    entryOffset options' image index = entryOffset options image index := by
  rw [Layout.entryOffset, tableOffset, h, h.optionalSize, Layout.entryOffset, tableOffset]

theorem runtimeOffset : runtimeOffset options' image = runtimeOffset options image := by
  have hPlacement : placement options' image = placement options image := by
    funext index
    rw [placement, h.entryOffset, placement]
  rw [Layout.runtimeOffset, placements, h.runtimeDirectory, hPlacement, h.sectionCount,
    Layout.runtimeOffset, placements]

/-- Headers that are acceptable under one of the options are so under the other, if these accept
the number of sections. -/
theorem wellFormed (hWell : WellFormed options image)
    (hLimit : Layout.sectionCount options image ≤ options'.maxSections) :
    WellFormed options' image := by
  have hOffset : signatureOffset options' image = signatureOffset options image := h
  constructor
  case names =>
    intro index hIndex
    rw [h.sectionCount] at hIndex
    rw [sectionName, h.entryOffset]
    exact hWell.names index hIndex
  constructor
  case dosHeader => exact hWell.dosHeader
  case dosMagic => exact hWell.dosMagic
  case fileHeader => rw [hOffset]; exact hWell.fileHeader
  case signature => rw [hOffset]; exact hWell.signature
  case sectionLimit => rw [h.sectionCount]; exact hLimit
  case table => rw [h.tableEnd]; exact hWell.table
  case magic => rw [h.magic]; exact hWell.magic
  case directoryCount => rw [h.directoryCount]; exact hWell.directoryCount
  case directories =>
    rw [h.format, h.directoryCount, h.optionalSize]
    exact hWell.directories
  case behind => rw [hOffset]; exact hWell.behind
  case stub => rw [hOffset]; exact hWell.stub

end SameOffset

end Layout

open Layout

namespace Summary

variable {options options' : Options} {image : Bytes} {summary : Summary} {offset : Nat}

theorem standing_eq_of_sameOffset (h : SameOffset options options' image) :
    standing options' image offset = standing options image offset := by
  rw [standing, h.format, h.machine, standing]

theorem ofBytes_of_sameOffset (h : ofBytes options image = .ok summary)
    (hSame : SameOffset options options' image)
    (hLimit : sectionCount options image ≤ options'.maxSections)
    (hOffset : runtimeOffset options image = .ok offset)
    (hRuntime : RuntimeAccepted options image offset → RuntimeAccepted options' image offset) :
    ofBytes options' image = .ok summary := by
  obtain ⟨hWell, hDirectory, hFits, hAccepted, rfl⟩ := (ofBytes_eq_ok_iff_at hOffset).1 h
  exact (ofBytes_eq_ok_iff_at (hSame.runtimeOffset.trans hOffset)).2
    ⟨hSame.wellFormed hWell hLimit, hSame.hasRuntimeDirectory_iff.2 hDirectory, hFits,
      hRuntime hAccepted, (standing_eq_of_sameOffset hSame).symm⟩

/-! ## Refusals -/

theorem ofBytes_of_checkCoff {e : Error} (hLength : 64 ≤ image.length)
    (hMagic : image.take 2 = [0x4D, 0x5A])
    (hCoff : Headers.checkCoff options (.ofBytes image) = .error e) :
    ofBytes options image = .error e := by
  have hDos : Headers.checkDos (.ofBytes image) = .ok () := Headers.checkDos_eq_ok_iff.2
    ⟨SizedImage.reaches_ofBytes.2 hLength, (Headers.dosMagic_iff hLength).2 hMagic⟩
  rw [ofBytes_eq, ofImage, Headers.ofImage, hDos, hCoff]
  rfl

/-- Where the usual offset is not assumed, an offset of zero leads to the letters of the DOS
header. -/
theorem ofBytes_of_storedOffset (hLength : 64 ≤ image.length)
    (hMagic : image.take 2 = [0x4D, 0x5A]) (hZero : storedOffset image = 0)
    (hNone : options.zeroOffsetFallback = false) :
    ∃ defect, ofBytes options image = .error (.malformed defect) := by
  have hOffset := signatureOffset_eq_zero hZero hNone
  have hFile : signatureOffset options image + 24 ≤ image.length := by omega
  refine ⟨_, ofBytes_of_checkCoff hLength hMagic
    (Headers.checkCoff_of_signature (SizedImage.reaches_ofBytes.2 hFile) fun hIs => ?_)⟩
  have hFour := (Headers.signature_iff hFile).1 hIs
  rw [hOffset, List.drop_zero] at hFour
  have hTwo : (image.take 4).take 2 = image.take 2 := by
    rw [List.take_take]
    rfl
  rw [hMagic, hFour] at hTwo
  cases hTwo

/-- An image with too many sections is malformed. -/
theorem ofBytes_of_sectionCount (h : Framed options image)
    (hSame : SameOffset options options' image)
    (hLimit : options'.maxSections < sectionCount options image) :
    ∃ defect, ofBytes options' image = .error (.malformed defect) := by
  have hOffset : signatureOffset options' image = signatureOffset options image := hSame
  have hFile : signatureOffset options' image + 24 ≤ image.length := by
    rw [hOffset]
    exact h.fileHeader
  have hSignature : signature options' image = peSignature := by
    rw [Headers.signature_iff hFile, hOffset]
    exact h.signature
  refine ⟨_, ofBytes_of_checkCoff h.dosHeader h.dosMagic (Headers.checkCoff_of_sectionLimit
    (SizedImage.reaches_ofBytes.2 hFile) hSignature ?_)⟩
  rw [← hSame.sectionCount] at hLimit
  exact hLimit

/-- An image of which only the runtime header is refused is malformed. -/
theorem ofBytes_of_check {e : Error} (hWell : WellFormed options image)
    (hDirectory : HasRuntimeDirectory options image)
    (hOffset : runtimeOffset options image = .ok offset) (hFits : offset + 20 ≤ image.length)
    (hStrict : options.strictRuntimeHeader)
    (hCheck : (valueAt RuntimeHeader image offset).check = .error e) :
    ∃ defect, ofBytes options image = .error (.malformed defect) := by
  obtain ⟨headers, hHeaders⟩ := Headers.ofImage_ok_iff_wellFormed.2 hWell
  obtain ⟨defect, rfl⟩ := RuntimeHeader.blamesForm_check _ e hCheck
  refine ⟨defect, ?_⟩
  have hDirectory' : HasRuntimeDirectory options (SizedImage.ofBytes image).bytes := hDirectory
  rw [ofBytes_eq, ofImage_of_headers hHeaders, if_pos hDirectory']
  show (runtimeOffset options image >>= fun offset => runtimeAt options image offset >>= _) = _
  rw [hOffset]
  show (runtimeAt options image offset >>= _) = _
  rw [runtimeAt, FixedWidth.read_of_le hFits]
  show ((if options.strictRuntimeHeader = true then _ else _ : Except Error RuntimeHeader) >>= _) = _
  rw [if_pos hStrict, hCheck]
  rfl

/-! ## Looser options -/

/-- What tighter options can have against an image that looser ones accept, with its runtime header
at the given offset. -/
inductive Objection (tight loose : Options) (image : Bytes) (offset : Nat) : Prop
  /-- There are too many sections. -/
  | sectionCount (h : tight.maxSections < sectionCount loose image)
  /-- No header offset is written down, and the usual one is not assumed. -/
  | storedOffset (hZero : storedOffset image = 0) (hNone : tight.zeroOffsetFallback = false)
  /-- The runtime header is checked and fails. -/
  | runtimeHeader (hStrict : tight.strictRuntimeHeader)
    (hCheck : ∃ e, (valueAt RuntimeHeader image offset).check = .error e)

/-- Which values of the runtime header the check refuses. -/
theorem check_error_iff {header : RuntimeHeader} :
    (∃ e, header.check = .error e) ↔
      header.size ≠ 72 ∨ header.version.major = 0 ∨ header.flags.unknownBits ≠ 0 := by
  have hRefused : (∃ e, header.check = .error e) ↔ ¬ header.check = .ok () := by
    cases header.check <;> simp
  rw [hRefused, RuntimeHeader.check_eq_ok_iff]
  simp only [Classical.not_and_iff_not_or_not, ne_eq, Classical.not_not]

section Looser

variable {tight loose : Options} (h : tight.Tighter loose)
variable (hLoose : ofBytes loose image = .ok summary)
variable (hOffset : runtimeOffset loose image = .ok offset)
include h hLoose hOffset

theorem ofBytes_of_objection (hObjection : Objection tight loose image offset) :
    ∃ defect, ofBytes tight image = .error (.malformed defect) := by
  obtain ⟨hWell, hDirectory, hFits, -⟩ := (ofBytes_eq_ok_iff_at hOffset).1 hLoose
  -- the stages decide in their order, whichever objection is given
  by_cases hLost : storedOffset image = 0 ∧ tight.zeroOffsetFallback = false
  · exact ofBytes_of_storedOffset hWell.dosHeader hWell.dosMagic hLost.1 hLost.2
  have hSame := (sameOffset_of_tighter h hLost).symm
  by_cases hMany : tight.maxSections < sectionCount loose image
  · exact ofBytes_of_sectionCount hWell.toFramed hSame hMany
  rcases hObjection with hCount | ⟨hZero, hNone⟩ | ⟨hStrict, e, hCheck⟩
  · exact absurd hCount hMany
  · exact absurd ⟨hZero, hNone⟩ hLost
  · exact ofBytes_of_check (hSame.wellFormed hWell (UInt16.not_lt.1 hMany))
      (hSame.hasRuntimeDirectory_iff.2 hDirectory) (hSame.runtimeOffset.trans hOffset) hFits
      hStrict hCheck

theorem ofBytes_of_no_objection (hNone : ¬ Objection tight loose image offset) :
    ofBytes tight image = .ok summary := by
  have hSame := (sameOffset_of_tighter h fun hLost => hNone (.storedOffset hLost.1 hLost.2)).symm
  have hLimit : sectionCount loose image ≤ tight.maxSections :=
    UInt16.not_lt.1 fun hMany => hNone (.sectionCount hMany)
  refine ofBytes_of_sameOffset hLoose hSame hLimit hOffset fun _ =>
    runtimeAccepted_iff.2 fun hStrict => ?_
  cases hCheck : (valueAt RuntimeHeader image offset).check with
  | ok _ => rfl
  | error e => exact absurd (.runtimeHeader hStrict ⟨e, hCheck⟩) hNone

end Looser

/-- Looser options keep every summary and every image that is not managed. Tighter ones keep a
summary unless they have an objection to it, and then the image is malformed. -/
theorem loosening_keeps {tight loose : Options} (h : tight.Tighter loose) (image : Bytes) :
    (∀ summary, ofBytes tight image = .ok summary → ofBytes loose image = .ok summary) ∧
    (ofBytes tight image = .error .notManaged → ofBytes loose image = .error .notManaged) ∧
    (∀ summary, ofBytes loose image = .ok summary →
      ∃ offset, runtimeOffset loose image = .ok offset ∧
        (¬ Objection tight loose image offset → ofBytes tight image = .ok summary) ∧
        (Objection tight loose image offset →
          ∃ defect, ofBytes tight image = .error (.malformed defect))) ∧
    ∀ header : RuntimeHeader, (∃ e, header.check = .error e) ↔
      header.size ≠ 72 ∨ header.version.major = 0 ∨ header.flags.unknownBits ≠ 0 := by
  have hKept : WellFormed tight image →
      SameOffset tight loose image ∧ sectionCount tight image ≤ loose.maxSections := fun hWell =>
    ⟨sameOffset_of_tighter h hWell.offset_found, UInt16.le_trans hWell.sectionLimit h.sections⟩
  refine ⟨fun summary hTight => ?_, fun hTight => ?_, fun summary hLoose => ?_,
    fun _ => check_error_iff⟩
  · obtain ⟨hWell, -, offset, hOffset, -⟩ := ofBytes_eq_ok_iff.1 hTight
    obtain ⟨hSame, hLimit⟩ := hKept hWell
    exact ofBytes_of_sameOffset hTight hSame hLimit hOffset
      fun hAccepted hStrict => hAccepted (h.runtimeHeader hStrict)
  · obtain ⟨hWell, hDirectory⟩ := ofBytes_eq_notManaged_iff.1 hTight
    obtain ⟨hSame, hLimit⟩ := hKept hWell
    refine ofBytes_eq_notManaged_iff.2 ⟨hSame.wellFormed hWell hLimit, fun hPresent => ?_⟩
    exact hDirectory (hSame.hasRuntimeDirectory_iff.1 hPresent)
  · obtain ⟨-, -, offset, hOffset, -⟩ := ofBytes_eq_ok_iff.1 hLoose
    exact ⟨offset, hOffset, ofBytes_of_no_objection h hLoose hOffset,
      ofBytes_of_objection h hLoose hOffset⟩

/-! ### The presets on a small image -/

theorem tighter_strict_standard : Options.strict.Tighter .standard :=
  ⟨fun _ => rfl, by decide, fun _ => rfl⟩

/-- The small managed image with a runtime header that is one byte too long for the strict check. -/
@[irreducible] def oversized : Bytes := specimen.overwrite 344 [73]

theorem ofBytes_oversized :
    ofBytes .standard oversized = .ok (standing .standard oversized 344) := by decide +kernel

/-- Strict options refuse the longer header, and standard ones keep what strict ones accept. -/
theorem loosening_keeps_specimen :
    Options.strict.Tighter .standard ∧
      ofBytes .strict specimen = .ok (standing .strict specimen 344) ∧
      ofBytes .standard specimen = .ok (standing .strict specimen 344) ∧
      ofBytes .standard oversized = .ok (standing .standard oversized 344) ∧
      ∃ defect, ofBytes .strict oversized = .error (.malformed defect) := by
  have hKeeps := (loosening_keeps tighter_strict_standard specimen).1 _ ofBytes_specimen
  refine ⟨tighter_strict_standard, ofBytes_specimen, hKeeps, ofBytes_oversized, ?_⟩
  obtain ⟨offset, hOffset, -, hRefused⟩ :=
    (loosening_keeps tighter_strict_standard oversized).2.2.1 _ ofBytes_oversized
  have hPlace : runtimeOffset .standard oversized = .ok 344 := by decide +kernel
  obtain rfl : offset = 344 := Except.ok.inj (hOffset.symm.trans hPlace)
  refine hRefused (.runtimeHeader rfl ⟨.malformed (.runtimeHeaderSize 72 73), ?_⟩)
  decide +kernel

end Summary

end ManagedImage
