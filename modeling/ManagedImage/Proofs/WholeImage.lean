import ManagedImage.Proofs.Acceptance

/-!
# The buffer against the whole image

The headers are copied out of an image piece by piece and decoded from the copy, which ends where
the section table or the largest optional header ends. `Headers.readWhole` is the same read without
a copy: it has the whole image, and where the other one extends its buffer it only asks whether the
image is long enough.

* `Headers.decode_eq_of_agreeOn`: decoding looks at nothing behind the largest optional header and
  the section table, whatever sizes and counts the headers declare, unless a name refers to the
  string table.
* `Headers.agreeOn_front_assumed`: up to there, the buffer holds all that the image holds.
* `Headers.buffer_invisible`: so the two reads have the same outcome.
-/

namespace ManagedImage

open FixedWidth (valueAt)
open Layout

/-! ## What decoding looks at -/

section Agreement

variable {a b : Bytes} {offset stop : Nat}

theorem OptionalHeader.read_eq_of_agreeOn (h : a.AgreeOn b 0 stop) (hStop : offset + 112 ≤ stop) :
    read a offset = read b offset := by
  have hWord : FixedWidth.width UInt16 = 2 := rfl
  have hFixed : ∀ format : Format, format.fixedSize ≤ 112 := by
    intro format
    cases format <;> decide
  have hMagic : FixedWidth.valueAt UInt16 a offset = FixedWidth.valueAt UInt16 b offset :=
    (h.mono (Nat.zero_le _) (by omega)).valueAt_eq
  have hMagicFits : offset + 2 ≤ a.length ↔ offset + 2 ≤ b.length := h.le_length_iff (by omega)
  have hFits : ∀ format : Format,
      offset + format.fixedSize ≤ a.length ↔ offset + format.fixedSize ≤ b.length := by
    intro format
    have := hFixed format
    exact h.le_length_iff (by omega)
  have hValue : ∀ format, valueAt format a offset = valueAt format b offset := by
    intro format
    have := hFixed format
    exact valueAt_eq_of_agreeOn (h.mono (Nat.zero_le _) (by omega))
  simp only [read_eq, hMagic, hMagicFits, hFits, hValue]

/-- The buffer has room for sixteen directories behind the larger of the two fixed parts. -/
theorem OptionalHeader.readDirectories_eq_of_agreeOn (header : OptionalHeader)
    (h : a.AgreeOn b 0 stop) (hStop : offset + CoffHeader.largestOptionalHeader ≤ stop) :
    header.readDirectories a offset = header.readDirectories b offset := by
  have hLargest : CoffHeader.largestOptionalHeader = 112 + 16 * 8 := rfl
  have hWidth : FixedWidth.width DataDirectory = 8 := rfl
  have hFixed : header.format.fixedSize ≤ 112 := by
    cases header.format <;> decide
  rw [readDirectories_eq, readDirectories_eq]
  by_cases hMany : DataDirectory.maxCount < header.directoryCount.toNat
  · rw [if_pos hMany, if_pos hMany]
  · have hCount : header.directoryCount.toNat ≤ 16 := Nat.not_lt.1 hMany
    have hValues : ∀ i < header.directoryCount.toNat,
        FixedWidth.valueAt DataDirectory a (offset + header.format.fixedSize + i * 8) =
          FixedWidth.valueAt DataDirectory b (offset + header.format.fixedSize + i * 8) :=
      fun i hi => (h.mono (Nat.zero_le _) (by omega)).valueAt_eq
    rw [if_neg hMany, if_neg hMany,
      List.map_congr_left fun i hi => hValues i (List.mem_range.1 hi)]
    simp only [h.le_length_iff (show
      offset + header.format.fixedSize + header.directoryCount.toNat * 8 ≤ stop by omega)]

/-- A name that does not start with a slash is no reference, and needs no other bytes. -/
theorem Section.describedBy_of_head_ne {entry : SectionEntry}
    (h : entry.name.toList.head? ≠ some 0x2F) (data : Bytes) (stringTable : Nat) :
    describedBy data stringTable entry = ⟨entry, none⟩ := by
  unfold describedBy
  rw [SectionName.reference?_of_head_ne h]

theorem Section.readTable_eq_of_agreeOn {count : Nat} (stringTable : Nat) (h : a.AgreeOn b 0 stop)
    (hStop : offset + count * 40 ≤ stop)
    (hNames : offset + count * 40 ≤ b.length → ∀ i < count,
      (FixedWidth.valueAt SectionEntry b (offset + i * 40)).name.toList.head? ≠ some 0x2F) :
    readTable a offset count stringTable = readTable b offset count stringTable := by
  have hSize : CoffHeader.sectionEntrySize = 40 := rfl
  have hWidth : FixedWidth.width SectionEntry = 40 := rfl
  have hFitsIff : offset + count * 40 ≤ a.length ↔ offset + count * 40 ≤ b.length :=
    h.le_length_iff hStop
  rw [readTable_eq, readTable_eq, hSize]
  by_cases hFits : offset + count * 40 ≤ b.length
  · have hEntries : ∀ i ∈ List.range count,
        FixedWidth.valueAt SectionEntry a (offset + i * 40) =
          FixedWidth.valueAt SectionEntry b (offset + i * 40) := by
      intro i hi
      have hi := List.mem_range.1 hi
      exact (h.mono (Nat.zero_le _) (by omega)).valueAt_eq
    rw [if_pos (hFitsIff.2 hFits), if_pos hFits, List.map_congr_left hEntries, mapM_ofEntry,
      mapM_ofEntry]
    congr 2
    funext _
    refine List.map_congr_left fun entry hEntry => ?_
    obtain ⟨i, hi, rfl⟩ := List.mem_map.1 hEntry
    have hName := hNames hFits i (List.mem_range.1 hi)
    rw [describedBy_of_head_ne hName, describedBy_of_head_ne hName]
  · rw [if_neg fun hLong => hFits (hFitsIff.1 hLong), if_neg hFits]

end Agreement

namespace Layout

/-- No section of an image whose headers have their form has a name that starts with a slash. -/
def PlainNames (options : Options) (image : Bytes) : Prop :=
  Framed options image → ∀ index < (sectionCount options image).toNat,
    (sectionName options image index).head? ≠ some 0x2F

end Layout

/-! ## The reader of a whole image -/

namespace Headers

/-- Decodes what lies behind the file header, and puts all headers together. -/
def decode (data : Bytes) (dos : DosHeader) (coff : CoffHeader) : Except Error Headers := do
  let peOffset := dos.peOffset.toNat
  let (optional, directories) ← decodeOptional data peOffset coff
  let sections ← decodeSections data peOffset coff
  return ⟨dos, coff, optional, directories, sections⟩

/-- How far decoding looks: up to the end of the section table and of the largest optional header. -/
def decodedEnd (dos : DosHeader) (coff : CoffHeader) : Nat :=
  max (CoffHeader.optionalEnd dos.peOffset.toNat) (coff.tableEnd dos.peOffset.toNat)

/-- Reads what lies behind the DOS header of an image that is at hand as a whole. -/
def readBehindDos (options : Options) (whole : Bytes) (dos : DosHeader) : Except Error Headers :=
  let peOffset := dos.peOffset.toNat
  if whole.length < CoffHeader.optionalOffset peOffset then .error .outOfBounds
  else do
    let signature : UInt32 ← FixedWidth.read whole peOffset
    if signature ≠ peSignature then
      .error (.malformed (.entity (.signature signature.toNat)))
    else
      let coff : CoffHeader ← FixedWidth.read whole (peOffset + FixedWidth.width UInt32)
      if options.maxSections < coff.sectionCount then
        .error (.malformed (.sectionLimit coff.sectionCount.toNat options.maxSections.toNat))
      else if whole.length < coff.tableEnd peOffset then .error .outOfBounds
      else decode whole dos coff

/-- Reads the headers of an image that is at hand as a whole. -/
def readWhole (options : Options) (image : Bytes) : Except Error Headers :=
  if image.length < DosHeader.size then .error .outOfBounds
  else do
    let stored : DosHeader ← FixedWidth.read image 0
    if stored.signature ≠ DosHeader.magic then
      .error (.malformed (.dosSignature DosHeader.magic.toNat stored.signature.toNat))
    else
      let whole :=
        if stored.peOffset = 0 ∧ options.zeroOffsetFallback then
          image.overwrite DosHeader.peOffsetField (FixedWidth.encode DosHeader.usualPeOffset)
        else image
      let dos : DosHeader ← FixedWidth.read whole 0
      readBehindDos options whole dos

variable {options : Options} {image : Bytes}

theorem decodeOptional_eq_of_agreeOn {a b : Bytes} {peOffset : Nat} (coff : CoffHeader)
    (h : a.AgreeOn b 0 (CoffHeader.optionalEnd peOffset)) :
    decodeOptional a peOffset coff = decodeOptional b peOffset coff := by
  have hEnd : CoffHeader.optionalEnd peOffset = CoffHeader.optionalOffset peOffset + 240 := rfl
  have hOffset : CoffHeader.optionalOffset peOffset = peOffset + 24 := rfl
  have hSize : DosHeader.size = 64 := rfl
  have hStub : checkStub a peOffset = checkStub b peOffset := by
    unfold checkStub stub
    rw [(h.mono (Nat.zero_le _) (by omega)).slice_eq]
  unfold decodeOptional
  rw [hStub, OptionalHeader.read_eq_of_agreeOn h (by omega)]
  simp only [fun header => OptionalHeader.readDirectories_eq_of_agreeOn header h (Nat.le_refl _)]

/-- Strings that agree as far as decoding looks give the same headers. -/
theorem decode_eq_of_agreeOn {a b : Bytes} {dos : DosHeader} {coff : CoffHeader}
    (h : a.AgreeOn b 0 (decodedEnd dos coff))
    (hNames : ∀ optional directories,
      decodeOptional b dos.peOffset.toNat coff = .ok (optional, directories) →
      coff.tableEnd dos.peOffset.toNat ≤ b.length → ∀ i < coff.sectionCount.toNat,
        (valueAt SectionEntry b
          (coff.tableOffset dos.peOffset.toNat + i * 40)).name.toList.head? ≠ some 0x2F) :
    decode a dos coff = decode b dos coff := by
  unfold decode
  dsimp only
  rw [decodeOptional_eq_of_agreeOn coff (h.mono (Nat.le_refl _) (Nat.le_max_left _ _))]
  cases hOptional : decodeOptional b dos.peOffset.toNat coff with
  | error e => rfl
  | ok decoded =>
    have hSections : decodeSections a dos.peOffset.toNat coff =
        decodeSections b dos.peOffset.toNat coff :=
      Section.readTable_eq_of_agreeOn _ h (Nat.le_max_right _ _)
        (hNames decoded.1 decoded.2 hOptional)
    rw [ok_bind, ok_bind, hSections]

theorem read_assumed {α : Type} [FixedWidth α] {offset : Nat}
    (hFits : offset + FixedWidth.width α ≤ image.length)
    (hBehind : signatureOffset options image ≤ offset) :
    FixedWidth.read (assumed options image) offset = .ok (valueAt α image offset) := by
  rw [FixedWidth.read_of_le (by rw [length_assumed]; exact hFits),
    (agreeOn_assumed (.inr (.inr hBehind))).valueAt_eq]

theorem not_reaches_ofBytes {stop : Nat} :
    ¬ (SizedImage.ofBytes image).Reaches stop ↔ image.length < stop := by
  rw [SizedImage.reaches_ofBytes, Nat.not_le]

theorem checkDos_ofBytes (image : Bytes) :
    checkDos (.ofBytes image) =
      if image.length < 64 then .error .outOfBounds
      else if valueAt UInt16 image 0 ≠ DosHeader.magic then
        .error (.malformed (.dosSignature DosHeader.magic.toNat (valueAt UInt16 image 0).toNat))
      else .ok () := by
  unfold checkDos
  simp only [not_reaches_ofBytes]
  rfl

/-- The last extension of the buffer asks for no more than there is. -/
theorem checkCoff_ofBytes (options : Options) (image : Bytes) :
    checkCoff options (.ofBytes image) =
      if image.length < signatureOffset options image + 24 then .error .outOfBounds
      else if signature options image ≠ peSignature then
        .error (.malformed (.entity (.signature (signature options image).toNat)))
      else if options.maxSections < sectionCount options image then
        .error (.malformed
          (.sectionLimit (sectionCount options image).toNat options.maxSections.toNat))
      else if image.length < tableEnd options image then .error .outOfBounds
      else .ok () := by
  have hLast : ¬ image.length < min (signatureOffset options image + 264) image.length :=
    Nat.not_lt.2 (Nat.min_le_right _ _)
  unfold checkCoff
  simp only [not_reaches_ofBytes]
  show (if _ then _ else if _ then _ else if _ then _ else if _ then _ else
    if image.length < min (signatureOffset options image + 264) image.length then _ else _) = _
  rw [if_neg hLast]
  rfl

theorem patched_eq_assumed (options : Options) (image : Bytes) :
    (if (valueAt DosHeader image 0).peOffset = 0 ∧ options.zeroOffsetFallback then
      image.overwrite DosHeader.peOffsetField (FixedWidth.encode DosHeader.usualPeOffset)
    else image) = assumed options image := by
  unfold assumed
  rw [DosHeader.peOffset_valueAt]
  rfl

theorem readBehindDos_eq (hLength : 64 ≤ image.length) :
    readBehindDos options (assumed options image) (dosHeader options image) = (do
      checkCoff options (.ofBytes image)
      decode (assumed options image) (dosHeader options image) (fileHeader options image)) := by
  have hWord : FixedWidth.width UInt32 = 4 := rfl
  have hCoff : FixedWidth.width CoffHeader = 20 := rfl
  rw [checkCoff_ofBytes]
  unfold readBehindDos
  dsimp only
  rw [dosHeader_peOffset hLength, length_assumed, show CoffHeader.optionalOffset
    (signatureOffset options image) = signatureOffset options image + 24 from rfl]
  by_cases hFile : image.length < signatureOffset options image + 24
  · rw [if_pos hFile, if_pos hFile]
    rfl
  have hSignature : FixedWidth.read (assumed options image) (signatureOffset options image) =
      .ok (signature options image) :=
    read_assumed (by omega) (Nat.le_refl _)
  have hFileHeader : FixedWidth.read (assumed options image)
      (signatureOffset options image + FixedWidth.width UInt32) =
        .ok (fileHeader options image) :=
    read_assumed (by omega) (Nat.le_add_right _ _)
  rw [if_neg hFile, if_neg hFile, hSignature, ok_bind]
  by_cases hWrong : signature options image ≠ peSignature
  · rw [if_pos hWrong, if_pos hWrong]
    rfl
  rw [if_neg hWrong, if_neg hWrong, hFileHeader, ok_bind, sectionCount_fileHeader, tableEnd_eq]
  by_cases hMany : options.maxSections < sectionCount options image
  · rw [if_pos hMany, if_pos hMany]
    rfl
  rw [if_neg hMany, if_neg hMany]
  by_cases hTable : image.length < tableEnd options image
  · rw [if_pos hTable, if_pos hTable]
    rfl
  · rw [if_neg hTable, if_neg hTable, ok_bind]

/-- The checks of a whole image are those on an image under its true size. -/
theorem readWhole_eq (options : Options) (image : Bytes) :
    readWhole options image = (do
      checkDos (.ofBytes image)
      checkCoff options (.ofBytes image)
      decode (assumed options image) (dosHeader options image) (fileHeader options image)) := by
  rw [checkDos_ofBytes]
  unfold readWhole
  rw [show DosHeader.size = 64 from rfl]
  by_cases hShort : image.length < 64
  · rw [if_pos hShort, if_pos hShort]
    rfl
  have hLength : 64 ≤ image.length := Nat.not_lt.1 hShort
  have hStored : FixedWidth.read image 0 = .ok (valueAt DosHeader image 0) :=
    FixedWidth.read_of_le hLength
  rw [if_neg hShort, if_neg hShort, hStored, ok_bind, DosHeader.signature_valueAt]
  by_cases hMagic : valueAt UInt16 image 0 ≠ DosHeader.magic
  · rw [if_pos hMagic, if_pos hMagic]
    rfl
  have hWhole : FixedWidth.read (assumed options image) 0 = .ok (dosHeader options image) :=
    FixedWidth.read_of_le (by rw [length_assumed]; exact hLength)
  rw [if_neg hMagic, if_neg hMagic, ok_bind]
  dsimp only
  rw [patched_eq_assumed, hWhole, ok_bind, readBehindDos_eq hLength]

/-! ## The buffer -/

theorem decodedEnd_standing (h : 64 ≤ image.length) :
    decodedEnd (dosHeader options image) (fileHeader options image) =
      max (signatureOffset options image + 264) (tableEnd options image) := by
  rw [decodedEnd, dosHeader_peOffset h, tableEnd_eq]
  rfl

/-- Where the buffer ends before the decoding does, it ends with the image. -/
theorem agreeOn_front_assumed (h : 64 ≤ image.length) :
    (front options (.ofBytes image)).AgreeOn (assumed options image) 0
      (decodedEnd (dosHeader options image) (fileHeader options image)) := by
  intro place _ hPlace
  have hTable : tableEnd options image ≤ frontEnd options (.ofBytes image) :=
    @tableEnd_le_frontEnd options (.ofBytes image)
  have hOptional : min (signatureOffset options image + 264) image.length ≤
      frontEnd options (.ofBytes image) := Nat.le_max_right _ _
  rw [decodedEnd_standing h] at hPlace
  -- The buffer holds the section table, so only the optional header can be cut short.
  by_cases hHeld : place < frontEnd options (.ofBytes image)
  · exact Bytes.agreeOn_take _ (Nat.le_refl _) place (Nat.zero_le _) hHeld
  · have hEnd : (assumed options image).length ≤ place := by
      rw [length_assumed]
      omega
    have hEnd' : (front options (.ofBytes image)).length ≤ place :=
      Nat.le_trans (List.length_take_le _ _) (Nat.not_lt.1 hHeld)
    rw [List.getElem?_eq_none hEnd', List.getElem?_eq_none hEnd]

theorem decodeFront_ofBytes (h : 64 ≤ image.length) :
    decodeFront options (.ofBytes image) =
      decode (front options (.ofBytes image)) (dosHeader options image)
        (fileHeader options image) := by
  unfold decode
  rw [dosHeader_peOffset h]
  rfl

/-- In an image that has passed the checks, bytes behind the end of decoding make no difference. -/
theorem decode_eq_of_passed (hDos : checkDos (.ofBytes image) = .ok ())
    (hCoff : checkCoff options (.ofBytes image) = .ok ()) (hPlain : PlainNames options image)
    {data : Bytes} (h : data.AgreeOn (assumed options image) 0
      (decodedEnd (dosHeader options image) (fileHeader options image))) :
    decode data (dosHeader options image) (fileHeader options image) =
      decode (assumed options image) (dosHeader options image) (fileHeader options image) := by
  have hLength : 64 ≤ image.length := (checkDos_eq_ok_iff.1 hDos).1.2
  apply decode_eq_of_agreeOn h
  -- Names are looked at after the optional header, and by then the image is framed.
  intro optional directories hOptional hTable index hIndex
  have hBuffer := @agreeOn_front_assumed options image hLength
  rw [decodedEnd_standing hLength] at hBuffer
  rw [dosHeader_peOffset hLength] at hOptional hTable ⊢
  rw [tableEnd_eq, length_assumed] at hTable
  rw [sectionCount_fileHeader] at hIndex
  have hFront : decodeOptional (front options (.ofBytes image)) (signatureOffset options image)
      (fileHeader options image) = .ok (optional, directories) := by
    refine Eq.trans (decodeOptional_eq_of_agreeOn _ (hBuffer.mono (Nat.le_refl _) ?_)) hOptional
    exact Nat.le_max_left _ _
  have hFramed : Framed options image := framed_of_stages hDos hCoff hFront
  have hEntry : valueAt SectionEntry (assumed options image)
      (tableOffset options image + index * 40) = entry options image index := by
    rw [Nat.mul_comm]
    exact entry_assumed index
  rw [tableOffset_eq, hEntry, entry_name hIndex hTable]
  exact hPlain hFramed index hIndex

theorem ofImage_eq_readWhole (hPlain : PlainNames options image) :
    ofImage options (.ofBytes image) = readWhole options image := by
  rw [readWhole_eq]
  refine bind_congr_of_ok fun _ hDos => bind_congr_of_ok fun _ hCoff => ?_
  have hLength : 64 ≤ image.length := (checkDos_eq_ok_iff.1 hDos).1.2
  rw [decodeFront_ofBytes hLength]
  exact decode_eq_of_passed hDos hCoff hPlain (agreeOn_front_assumed hLength)

/-- The copy in the buffer cannot be told from the image. The read ends as that of the whole image
does. Once the buffer is filled it holds what the image holds up to the end of decoding, and no byte
behind that end has a part in the outcome. -/
theorem buffer_invisible (options : Options) (image : Bytes) (h : PlainNames options image) :
    (∀ position, ((read options).run ⟨image, position⟩).outcome = readWhole options image) ∧
    ∀ position position' dos coff buffer buffer',
      ((readDos options).run ⟨image, position⟩).outcome = .ok (dos, buffer) →
      ((readCoff options dos buffer).run ⟨image, position'⟩).outcome = .ok (coff, buffer') →
        buffer'.bytes.AgreeOn (assumed options image) 0 (decodedEnd dos coff) ∧
        ∀ data : Bytes, data.AgreeOn (assumed options image) 0 (decodedEnd dos coff) →
          decode data dos coff = readWhole options image := by
  constructor
  · intro position
    rw [((read options).run_bytes image position).1, yields_read position]
    exact ofImage_eq_readWhole h
  · intro position position' dos coff buffer buffer' hReadDos hReadCoff
    rw [((readDos options).run_bytes image position).1, yields_readDos position] at hReadDos
    obtain ⟨_, hDos, hPair⟩ := map_eq_ok_iff.1 hReadDos
    cases hPair
    have hReach := (checkDos_eq_ok_iff.1 hDos).1
    rw [((readCoff options _ _).run_bytes image position').1, yields_readCoff hReach position']
      at hReadCoff
    obtain ⟨_, hCoff, hPair⟩ := map_eq_ok_iff.1 hReadCoff
    cases hPair
    refine ⟨agreeOn_front_assumed hReach.2, fun data hData => ?_⟩
    rw [readWhole_eq, hDos, hCoff, ok_bind, ok_bind]
    exact decode_eq_of_passed hDos hCoff h hData

/-! ### A buffer that is shorter than the largest optional header -/

theorem sectionCount_offsetless : (sectionCount .standard offsetless).toNat = 1 := by
  decide +kernel

theorem plainNames_offsetless : PlainNames .standard offsetless := by
  intro _ index hIndex
  rw [sectionCount_offsetless, Nat.lt_one_iff] at hIndex
  rw [hIndex]
  decide +kernel

/-- The largest optional header would end at 392, and the image ends at 288. -/
theorem buffer_invisible_offsetless :
    PlainNames .standard offsetless ∧
      (read .standard).outcome offsetless = readWhole .standard offsetless ∧
      readWhole .standard offsetless = .ok (standing .standard (.ofBytes offsetless)) ∧
      decodedEnd (dosHeader .standard offsetless) (fileHeader .standard offsetless) = 392 ∧
      ∀ data : Bytes, data.AgreeOn (assumed .standard offsetless) 0 392 →
        decode data (dosHeader .standard offsetless) (fileHeader .standard offsetless) =
          readWhole .standard offsetless := by
  obtain ⟨hOutcome, hBuffer⟩ := buffer_invisible .standard offsetless plainNames_offsetless
  have hEnd : decodedEnd (dosHeader .standard offsetless) (fileHeader .standard offsetless) = 392 := by
    decide +kernel
  have hDos : ((readDos .standard).run ⟨offsetless, 0⟩).outcome =
      .ok (dosHeader .standard offsetless, ⟨(assumed .standard offsetless).take 64, 288⟩) := by
    decide +kernel
  have hCoff : ((readCoff .standard (dosHeader .standard offsetless)
      ⟨(assumed .standard offsetless).take 64, 288⟩).run ⟨offsetless, 0⟩).outcome =
      .ok (fileHeader .standard offsetless, ⟨assumed .standard offsetless, 288⟩) := by
    decide +kernel
  obtain ⟨-, hEnough⟩ := hBuffer 0 0 _ _ _ _ hDos hCoff
  rw [hEnd] at hEnough
  exact ⟨plainNames_offsetless, hOutcome 0, (hOutcome 0).symm.trans read_offsetless, hEnd, hEnough⟩

end Headers

end ManagedImage
