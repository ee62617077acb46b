import ManagedImage.Proofs.Layout
import ManagedImage.Proofs.Memory

/-!
# The stages of reading the headers

The buffer that the headers are copied into always holds the front of the image, with the usual
offset put in if it is to be taken. So the stages of the read are questions about the image as a
whole: how far it reaches, and what stands at the offsets of its layout.

`Headers.ofImage` is the read written out in this form, over an image in memory of any reported
size; `Headers.yields_read` says that it is the read.
-/

namespace ManagedImage

open FixedWidth (valueAt)
open Layout

/-! ## The buffer holds the front of the image -/

section Buffer

variable {image : SizedImage} {bytes : Bytes} {filled stop : Nat}

theorem HeaderBuffer.yields_extend (hFilled : image.Reaches filled)
    (hLength : bytes.length = image.bytes.length) (hAgree : bytes.AgreeOn image.bytes filled stop)
    (hSpace : stop < addressSpace) (hStop : image.Reaches stop) :
    (HeaderBuffer.extend ⟨bytes.take filled, image.size⟩ stop).Yields image
      (.ok ⟨bytes.take (max filled stop), image.size⟩) := by
  have hTaken : (bytes.take filled).length = filled := by
    rw [List.length_take, hLength]
    exact Nat.min_eq_left hFilled.2
  unfold extend
  rw [hTaken]
  by_cases hThere : stop ≤ filled
  · rw [if_pos hThere, Nat.max_eq_left hThere]
    exact Procedure.yields_done _
  · have hSlice : (image.bytes.drop filled).take (stop - filled) =
        (bytes.drop filled).take (stop - filled) := by
      refine (Bytes.AgreeOn.slice_eq (hAgree.mono (Nat.le_refl _) ?_)).symm
      omega
    have hLimit : ¬ image.size < stop := Nat.not_lt.2 hStop.1
    have hFits : filled + (stop - filled) ≤ image.bytes.length := by
      have hEnd := hStop.2
      omega
    rw [if_neg hThere, if_neg hLimit, Nat.max_eq_right (by omega)]
    intro position
    obtain ⟨hOutcome, -⟩ := @Procedure.run_take image (stop - filled) filled (by omega)
    show (((Procedure.take (stop - filled)).bind _).run ⟨image, filled⟩).outcome = _
    rw [Procedure.run_bind, Procedure.followedBy, hOutcome, if_pos hFits, hSlice]
    show Except.ok (HeaderBuffer.mk (bytes.take filled ++ (bytes.drop filled).take (stop - filled))
      image.size) = _
    rw [← List.take_add, show filled + (stop - filled) = stop by omega]

theorem HeaderBuffer.yields_extend_error (hFilled : image.Reaches filled)
    (hLength : bytes.length = image.bytes.length) (hSpace : stop < addressSpace)
    (hStop : ¬ image.Reaches stop) :
    (HeaderBuffer.extend ⟨bytes.take filled, image.size⟩ stop).Yields image
      (.error .outOfBounds) := by
  have hTaken : (bytes.take filled).length = filled := by
    rw [List.length_take, hLength]
    exact Nat.min_eq_left hFilled.2
  have hBeyond : ¬ stop ≤ filled := fun hThere => hStop (hFilled.mono hThere)
  unfold extend
  rw [hTaken, if_neg hBeyond]
  by_cases hLimit : image.size < stop
  · rw [if_pos hLimit]
    exact Procedure.yields_done _
  · rw [if_neg hLimit]
    have hShort : ¬ filled + (stop - filled) ≤ image.bytes.length := fun hLong =>
      hStop ⟨by omega, by omega⟩
    intro position
    obtain ⟨hOutcome, -⟩ := @Procedure.run_take image (stop - filled) filled (by omega)
    show (((Procedure.take (stop - filled)).bind _).run ⟨image, filled⟩).outcome = _
    rw [Procedure.run_bind, Procedure.followedBy, hOutcome, if_neg hShort]

/-- A stage that first extends the buffer refuses images that do not reach so far. -/
theorem HeaderBuffer.yields_extend_bind {α β : Type} {next : HeaderBuffer → Procedure α}
    {rest : Except Error β} {f : β → α} (hFilled : image.Reaches filled)
    (hLength : bytes.length = image.bytes.length) (hAgree : bytes.AgreeOn image.bytes filled stop)
    (hSpace : stop < addressSpace)
    (hNext : image.Reaches stop →
      (next ⟨bytes.take (max filled stop), image.size⟩).Yields image (rest.map f)) :
    (HeaderBuffer.extend ⟨bytes.take filled, image.size⟩ stop >>= next).Yields image
      ((if ¬ image.Reaches stop then .error .outOfBounds else rest).map f) := by
  by_cases hStop : image.Reaches stop
  · rw [if_neg (not_not_intro hStop)]
    exact Procedure.yields_bind_ok (yields_extend hFilled hLength hAgree hSpace hStop)
      (hNext hStop)
  · rw [if_pos hStop]
    exact Procedure.yields_bind_error (yields_extend_error hFilled hLength hSpace hStop)

end Buffer

/-! ## The stages -/

namespace Headers

/-- The DOS header is there and is one. -/
def checkDos (image : SizedImage) : Except Error Unit :=
  if ¬ image.Reaches 64 then .error .outOfBounds
  else if valueAt UInt16 image.bytes 0 ≠ DosHeader.magic then
    .error (.malformed
      (.dosSignature DosHeader.magic.toNat (valueAt UInt16 image.bytes 0).toNat))
  else .ok ()

/-- The signature and the file header are there, the number of sections is accepted, and the image
reaches to the end of the section table. The buffer is then made to reach to the end of the largest
optional header, or to the reported size. -/
def checkCoff (options : Options) (image : SizedImage) : Except Error Unit :=
  if ¬ image.Reaches (signatureOffset options image.bytes + 24) then .error .outOfBounds
  else if signature options image.bytes ≠ peSignature then
    .error (.malformed (.entity (.signature (signature options image.bytes).toNat)))
  else if options.maxSections < sectionCount options image.bytes then
    .error (.malformed
      (.sectionLimit (sectionCount options image.bytes).toNat options.maxSections.toNat))
  else if ¬ image.Reaches (tableEnd options image.bytes) then .error .outOfBounds
  else if ¬ image.Reaches (min (signatureOffset options image.bytes + 264) image.size) then
    .error .outOfBounds
  else .ok ()

/-- How far the buffer reaches in the end. -/
def frontEnd (options : Options) (image : SizedImage) : Nat :=
  max (max (max 64 (signatureOffset options image.bytes + 24)) (tableEnd options image.bytes))
    (min (signatureOffset options image.bytes + 264) image.size)

/-- What the buffer holds in the end. -/
def front (options : Options) (image : SizedImage) : Bytes :=
  (assumed options image.bytes).take (frontEnd options image)

/-- The headers that the buffer holds in the end. -/
def decodeFront (options : Options) (image : SizedImage) : Except Error Headers := do
  let peOffset := signatureOffset options image.bytes
  let coff := fileHeader options image.bytes
  let (optional, directories) ← decodeOptional (front options image) peOffset coff
  let sections ← decodeSections (front options image) peOffset coff
  return ⟨dosHeader options image.bytes, coff, optional, directories, sections⟩

/-- The headers of an image in memory. -/
def ofImage (options : Options) (image : SizedImage) : Except Error Headers := do
  checkDos image
  checkCoff options image
  decodeFront options image

variable {options : Options} {image : SizedImage}

theorem checkDos_eq_ok_iff :
    checkDos image = .ok () ↔ image.Reaches 64 ∧ valueAt UInt16 image.bytes 0 = DosHeader.magic := by
  unfold checkDos
  split
  · simp_all
  split <;> simp_all

theorem checkCoff_eq_ok_iff :
    checkCoff options image = .ok () ↔
      image.Reaches (signatureOffset options image.bytes + 24) ∧
        signature options image.bytes = peSignature ∧
        ¬ options.maxSections < sectionCount options image.bytes ∧
        image.Reaches (tableEnd options image.bytes) ∧
        image.Reaches (min (signatureOffset options image.bytes + 264) image.size) := by
  unfold checkCoff
  repeat' split
  all_goals simp_all

theorem checkCoff_of_signature
    (hFile : image.Reaches (signatureOffset options image.bytes + 24))
    (hSignature : signature options image.bytes ≠ peSignature) :
    checkCoff options image =
      .error (.malformed (.entity (.signature (signature options image.bytes).toNat))) := by
  unfold checkCoff
  rw [if_neg (not_not_intro hFile), if_pos hSignature]

theorem checkCoff_of_sectionLimit
    (hFile : image.Reaches (signatureOffset options image.bytes + 24))
    (hSignature : signature options image.bytes = peSignature)
    (hLimit : options.maxSections < sectionCount options image.bytes) :
    checkCoff options image = .error (.malformed
      (.sectionLimit (sectionCount options image.bytes).toNat options.maxSections.toNat)) := by
  unfold checkCoff
  rw [if_neg (not_not_intro hFile), if_neg (not_not_intro hSignature), if_pos hLimit]

theorem read_dosHeader (h : image.Reaches 64) :
    FixedWidth.read (image.bytes.take 64) 0 = .ok (valueAt DosHeader image.bytes 0) := by
  have hFits : 0 + FixedWidth.width DosHeader ≤ (image.bytes.take 64).length := by
    rw [List.length_take]
    exact Nat.le_min.2 ⟨Nat.le_refl _, h.2⟩
  rw [FixedWidth.read_of_le hFits, (Bytes.agreeOn_take image.bytes (Nat.le_refl 64)).valueAt_eq]

theorem yields_readDos :
    (readDos options).Yields image ((checkDos image).map fun _ =>
      (dosHeader options image.bytes, ⟨(assumed options image.bytes).take 64, image.size⟩)) := by
  have hSignature := DosHeader.signature_valueAt image.bytes 0
  have hStored : (valueAt DosHeader image.bytes 0).peOffset = storedOffset image.bytes :=
    DosHeader.peOffset_valueAt _ _
  apply Procedure.yields_bind_ok Procedure.yields_sourceSize
  have hEmpty : image.Reaches 0 := ⟨Nat.zero_le _, Nat.zero_le _⟩
  refine @HeaderBuffer.yields_extend_bind image image.bytes 0 64 _ _ _ _ _ hEmpty rfl
    (fun _ _ _ => rfl) (by decide) fun hReach => ?_
  apply Procedure.yields_bind_ok (Procedure.yields_lift (read_dosHeader hReach))
  rw [← hSignature]
  refine Procedure.yields_guard fun _ => ?_
  rw [dosHeader_eq hReach.2]
  unfold assumed
  by_cases hAssumes : AssumesOffset options image.bytes
  · rw [if_pos hAssumes, if_pos hAssumes, if_pos (by rw [hStored]; exact hAssumes),
      ← Bytes.overwrite_take]
    exact Procedure.yields_bind_ok (Procedure.yields_log _) (Procedure.yields_done _)
  · rw [if_neg hAssumes, if_neg hAssumes, if_neg (by rw [hStored]; exact hAssumes)]
    exact Procedure.yields_done _

/-- What stands behind the start of the signature is read out of the buffer as it stands in the
image. -/
theorem read_take_assumed {α : Type} [FixedWidth α] {data : Bytes} {filled offset : Nat}
    (hFilled : filled ≤ data.length) (hFits : offset + FixedWidth.width α ≤ filled)
    (hBehind : signatureOffset options data ≤ offset) :
    FixedWidth.read ((assumed options data).take filled) offset = .ok (valueAt α data offset) := by
  have hLength : ((assumed options data).take filled).length = filled := by
    rw [List.length_take, length_assumed]
    omega
  rw [FixedWidth.read_of_le (by rw [hLength]; exact hFits),
    (Bytes.agreeOn_take _ hFits).valueAt_eq,
    (agreeOn_assumed (.inr (.inr hBehind))).valueAt_eq]

theorem yields_readCoff (hReach : image.Reaches 64) :
    (readCoff options (dosHeader options image.bytes)
        ⟨(assumed options image.bytes).take 64, image.size⟩).Yields image
      ((checkCoff options image).map fun _ =>
        (fileHeader options image.bytes, ⟨front options image, image.size⟩)) := by
  have hOffset := @signatureOffset_lt options image.bytes
  have hFileSpace : signatureOffset options image.bytes + 24 < addressSpace := by
    simp only [addressSpace]
    omega
  have hTableSpace : tableEnd options image.bytes < addressSpace :=
    Nat.lt_trans tableEnd_lt (by decide)
  have hRestSpace : min (signatureOffset options image.bytes + 264) image.size < addressSpace :=
    Nat.lt_of_le_of_lt (Nat.min_le_left _ _) (by simp only [addressSpace]; omega)
  have hAgree : ∀ {filled stop}, 64 ≤ filled →
      (assumed options image.bytes).AgreeOn image.bytes filled stop :=
    fun hFilled => agreeOn_assumed (.inr (.inl hFilled))
  unfold readCoff
  dsimp only
  rw [dosHeader_peOffset hReach.2, show CoffHeader.optionalOffset
    (signatureOffset options image.bytes) = signatureOffset options image.bytes + 24 from rfl]
  refine HeaderBuffer.yields_extend_bind hReach length_assumed (hAgree (Nat.le_refl _)) hFileSpace
    fun hFile => ?_
  have hFilled := hReach.max hFile
  have hEnd : signatureOffset options image.bytes + 24 ≤
      max 64 (signatureOffset options image.bytes + 24) := Nat.le_max_right _ _
  have hWord : FixedWidth.width UInt32 = 4 := rfl
  have hCoff : FixedWidth.width CoffHeader = 20 := rfl
  have hReadSignature : FixedWidth.read _ (signatureOffset options image.bytes) =
      .ok (signature options image.bytes) :=
    read_take_assumed hFilled.2 (by omega) (Nat.le_refl _)
  have hReadCoff : FixedWidth.read _
      (signatureOffset options image.bytes + FixedWidth.width UInt32) =
        .ok (fileHeader options image.bytes) :=
    read_take_assumed hFilled.2 (by omega) (Nat.le_add_right _ _)
  apply Procedure.yields_bind_ok (Procedure.yields_lift hReadSignature)
  refine Procedure.yields_guard fun _ => ?_
  apply Procedure.yields_bind_ok (Procedure.yields_lift hReadCoff)
  apply Procedure.yields_bind_ok (Procedure.yields_log _)
  rw [sectionCount_fileHeader, tableEnd_eq]
  refine Procedure.yields_guard fun _ => ?_
  refine HeaderBuffer.yields_extend_bind hFilled length_assumed (hAgree (Nat.le_max_left _ _))
    hTableSpace fun hTable => ?_
  refine HeaderBuffer.yields_extend_bind (hFilled.max hTable) length_assumed
    (hAgree (Nat.le_trans (Nat.le_max_left _ _) (Nat.le_max_left _ _))) hRestSpace fun _ => ?_
  exact Procedure.yields_done _

theorem yields_read : (read options).Yields image (ofImage options image) := by
  refine Procedure.yields_bind_map yields_readDos fun _ hDos => ?_
  have hReach : image.Reaches 64 := (checkDos_eq_ok_iff.1 hDos).1
  refine Procedure.yields_bind_map (yields_readCoff hReach) fun _ _ => ?_
  dsimp only
  rw [dosHeader_peOffset hReach.2]
  refine Procedure.yields_bind (Procedure.yields_lift rfl) fun _ _ => ?_
  apply Procedure.yields_bind_ok (Procedure.yields_log _)
  refine Procedure.yields_bind (Procedure.yields_lift rfl) fun _ _ => ?_
  exact Procedure.yields_bind_ok (Procedure.yields_log _) (Procedure.yields_done _)

/-- What is read of a byte string does not depend on where the cursor stood. -/
theorem outcome_run (options : Options) (image : Bytes) (position : Nat) :
    ((read options).run (⟨image, position⟩ : Cursor Bytes)).outcome =
      ofImage options (.ofBytes image) := by
  rw [((read options).run_bytes image position).1, yields_read position]

end Headers

end ManagedImage
