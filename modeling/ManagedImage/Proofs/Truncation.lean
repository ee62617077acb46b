import ManagedImage.Proofs.Agreement

/-!
# Truncated images

A managed image announces its headers, its section table and its runtime header. If it is cut off
before the end of one of them it is truncated, at whichever stage the read is then; if it is cut off
behind them nothing is lost, and bytes that follow it change nothing.

* `Headers.ofImage_of_cut`: an image that ends within its headers.
* `Summary.ofBytes_of_agreeOn`: an image that agrees with a managed one on its headers is read as
  far as the runtime header.
* `Summary.truncation_threshold`: how much of a managed image is needed to read its summary.
-/

namespace ManagedImage

open FixedWidth (valueAt)
open Layout

variable {options : Options} {image image' : Bytes} {offset n : Nat}

/-! ## Images that agree up to the end of the section table -/

namespace Layout

theorem agreeOnHeaders_of_agreeOn (hAgree : image'.AgreeOn image 0 (tableEnd options image)) :
    AgreeOnHeaders options image image' := by
  have hTableEnd : tableEnd options image =
    tableOffset options image + 40 * (sectionCount options image).toNat := rfl
  refine ⟨hAgree.mono (Nat.le_refl _) (by omega), fun index hIndex => ?_⟩
  unfold entryOffset
  exact hAgree.mono (Nat.zero_le _) (by omega)

theorem WellFormed.of_agreeOn (h : WellFormed options image)
    (hAgree : image'.AgreeOn image 0 (tableEnd options image))
    (hTable : tableEnd options image ≤ image'.length) : WellFormed options image' := by
  have hHeaders := agreeOnHeaders_of_agreeOn hAgree
  have hSame := hHeaders.sameLayout h.toFramed
  refine ⟨hHeaders.framed h.toFramed hTable, hSame.names h fun index hIndex => ?_⟩
  have hEntry := @entryOffset_add_le options image index hIndex
  exact hAgree.mono (Nat.zero_le _) (by omega)

end Layout

/-! ## Images that end within their headers -/

namespace Headers

section Cut

variable {cut : SizedImage}
variable (h : Framed options image) (hAgree : cut.bytes.AgreeOn image 0 cut.reach)
include h hAgree

theorem checkDos_of_cut (hDos : 64 ≤ cut.reach) : checkDos cut = .ok () := by
  have hMagic : valueAt UInt16 cut.bytes 0 = valueAt UInt16 image 0 :=
    (hAgree.mono (Nat.le_refl _) (by show 0 + 2 ≤ _; omega)).valueAt_eq
  refine checkDos_eq_ok_iff.2 ⟨SizedImage.reaches_iff.2 hDos, hMagic.trans ?_⟩
  exact (dosMagic_iff h.dosHeader).2 h.dosMagic

theorem checkCoff_of_cut (hDos : 64 ≤ cut.reach) (hShort : cut.reach < tableEnd options image) :
    checkCoff options cut = .error .outOfBounds := by
  have hOffset : signatureOffset options cut.bytes = signatureOffset options image :=
    signatureOffset_eq_of_agreeOn (hAgree.mono (Nat.zero_le _) hDos)
  unfold checkCoff
  rw [hOffset]
  by_cases hFile : signatureOffset options image + 24 ≤ cut.reach
  case neg => exact if_pos fun hReach => hFile (SizedImage.reaches_iff.1 hReach)
  have hSignature : signature options cut.bytes = peSignature := by
    refine Eq.trans ?_ ((signature_iff h.fileHeader).2 h.signature)
    unfold signature
    rw [hOffset]
    exact (hAgree.mono (Nat.zero_le _) (by show _ + 4 ≤ cut.reach; omega)).valueAt_eq
  obtain ⟨-, hCount, hSize⟩ :=
    fileFields_eq_of_agreeOn hOffset (hAgree.mono (Nat.zero_le _) hFile)
  have hEnd : tableEnd options cut.bytes = tableEnd options image := by
    simp only [tableEnd, tableOffset, hOffset, hSize, hCount]
  rw [if_neg (not_not_intro (SizedImage.reaches_iff.2 hFile)), if_neg (not_not_intro hSignature),
    hCount, if_neg (UInt16.not_lt.2 h.sectionLimit), hEnd]
  exact if_pos fun hReach => absurd (SizedImage.reaches_iff.1 hReach) (Nat.not_le.2 hShort)

/-- An image of which the bytes or the reported size end within its headers is truncated, whichever
stage notices. -/
theorem ofImage_of_cut (hShort : cut.reach < tableEnd options image) :
    ofImage options cut = .error .outOfBounds := by
  unfold ofImage
  by_cases hDos : 64 ≤ cut.reach
  · rw [checkDos_of_cut h hAgree hDos, checkCoff_of_cut h hAgree hDos hShort]
    rfl
  · have hFails : checkDos cut = .error .outOfBounds :=
      if_pos fun hReach => hDos (SizedImage.reaches_iff.1 hReach)
    rw [hFails]
    rfl

end Cut

end Headers

/-! ## How much of a managed image is needed -/

namespace Summary

variable {summary : Summary}

/-- A runtime header that is there can only be malformed. -/
theorem runtimeAt_eq_outOfBounds_iff :
    runtimeAt options image offset = .error .outOfBounds ↔ image.length < offset + 20 := by
  constructor
  · intro h
    rcases bind_eq_error_iff.1 h with hRead | ⟨runtime, -, h⟩
    · rw [FixedWidth.read_eq] at hRead
      split at hRead
      · cases hRead
      · rename_i hShort
        exact Nat.not_le.1 hShort
    · split at h
      · rcases bind_eq_error_iff.1 h with hCheck | ⟨_, -, h⟩
        · obtain ⟨_, hCheck⟩ := runtime.blamesForm_check _ hCheck
          cases hCheck
        · cases h
      · cases h
  · intro h
    rw [runtimeAt, FixedWidth.read_of_lt h]
    rfl

theorem ofBytes_of_agreeOn (h : ofBytes options image = .ok summary)
    (hOffset : runtimeOffset options image = .ok offset)
    (hHeaders : image'.AgreeOn image 0 (tableEnd options image))
    (hRuntime : image'.AgreeOn image offset (offset + 20))
    (hTable : tableEnd options image ≤ image'.length) (hFits : offset + 20 ≤ image'.length) :
    ofBytes options image' = .ok summary := by
  obtain ⟨hWell, -⟩ := ofBytes_eq_ok_iff.1 h
  have hAgree := agreeOnHeaders_of_agreeOn hHeaders
  exact ofBytes_of_sameLayout h hOffset (hAgree.sameLayout hWell.toFramed)
    (hWell.of_agreeOn hHeaders hTable) (hAgree.machine_eq hWell.toFramed) hRuntime hFits

theorem ofBytes_of_agreeOn_of_lt (h : ofBytes options image = .ok summary)
    (hOffset : runtimeOffset options image = .ok offset)
    (hHeaders : image'.AgreeOn image 0 (tableEnd options image))
    (hTable : tableEnd options image ≤ image'.length) (hShort : image'.length < offset + 20) :
    ofBytes options image' = .error .outOfBounds := by
  obtain ⟨hWell, hDirectory, -⟩ := ofBytes_eq_ok_iff.1 h
  have hSame := (agreeOnHeaders_of_agreeOn hHeaders).sameLayout hWell.toFramed
  obtain ⟨headers, hRead⟩ :=
    Headers.ofImage_ok_iff_wellFormed.2 (hWell.of_agreeOn hHeaders hTable)
  have hDirectory' : HasRuntimeDirectory options (SizedImage.ofBytes image').bytes :=
    hSame.hasRuntimeDirectory_iff.2 hDirectory
  rw [ofBytes_eq, ofImage_of_headers hRead, if_pos hDirectory']
  show (runtimeOffset options image' >>= fun offset => runtimeAt options image' offset >>= _) = _
  rw [hSame.runtimeOffset hDirectory, hOffset]
  show (runtimeAt options image' offset >>= _) = _
  rw [runtimeAt_eq_outOfBounds_iff.2 hShort]
  rfl

theorem ofBytes_take_of_lt (h : ofBytes options image = .ok summary)
    (hShort : n < tableEnd options image) :
    ofBytes options (image.take n) = .error .outOfBounds := by
  obtain ⟨hWell, -⟩ := ofBytes_eq_ok_iff.1 h
  have hReach : (SizedImage.ofBytes (image.take n)).reach ≤ n :=
    Nat.le_trans (Nat.min_le_left _ _) (List.length_take_le _ _)
  rw [ofBytes_eq]
  unfold ofImage
  rw [Headers.ofImage_of_cut hWell.toFramed (Bytes.agreeOn_take _ hReach) (by omega)]
  rfl

/-- A managed image can be cut off behind its section table and its runtime header, and nowhere
else. -/
theorem truncation_threshold (h : ofBytes options image = .ok summary) :
    ∃ offset, runtimeOffset options image = .ok offset ∧
      (∀ n ≤ image.length,
        (max (tableEnd options image) (offset + 20) ≤ n →
          ofBytes options (image.take n) = .ok summary) ∧
        (n < max (tableEnd options image) (offset + 20) →
          ofBytes options (image.take n) = .error .outOfBounds)) ∧
      ∀ more, ofBytes options (image ++ more) = .ok summary := by
  obtain ⟨hWell, -, offset, hOffset, hFits, -⟩ := ofBytes_eq_ok_iff.1 h
  have hTable := hWell.table
  refine ⟨offset, hOffset, fun n hn => ?_, fun more => ?_⟩
  · have hLength : (image.take n).length = n := by
      rw [List.length_take]
      omega
    constructor
    · intro hLong
      refine ofBytes_of_agreeOn h hOffset (Bytes.agreeOn_take _ (by omega))
        (Bytes.agreeOn_take _ (by omega)) ?_ ?_ <;> omega
    · intro hShort
      by_cases hHeaders : n < tableEnd options image
      · exact ofBytes_take_of_lt h hHeaders
      · refine ofBytes_of_agreeOn_of_lt h hOffset (Bytes.agreeOn_take _ (by omega)) ?_ ?_ <;> omega
  · have hLength : (image ++ more).length = image.length + more.length := List.length_append
    refine ofBytes_of_agreeOn h hOffset (Bytes.agreeOn_append _ _ hTable)
      (Bytes.agreeOn_append _ _ hFits) ?_ ?_ <;> omega

/-- The last byte of the small managed image belongs to its runtime header. -/
theorem truncation_threshold_specimen :
    ofBytes .strict specimen = .ok (standing .strict specimen 344) ∧
      (∀ n < 364, ofBytes .strict (specimen.take n) = .error .outOfBounds) ∧
      ∀ more, ofBytes .strict (specimen ++ more) = .ok (standing .strict specimen 344) := by
  obtain ⟨offset, hOffset, hTake, hMore⟩ := truncation_threshold ofBytes_specimen
  obtain rfl : offset = 344 := Except.ok.inj (hOffset.symm.trans runtimeOffset_specimen)
  refine ⟨ofBytes_specimen, fun n hn => (hTake n ?_).2 ?_, hMore⟩
  · rw [length_specimen]
    exact Nat.le_of_lt hn
  · exact Nat.lt_of_lt_of_le hn (Nat.le_max_right _ _)

end Summary

end ManagedImage
