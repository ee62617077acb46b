import ManagedImage.Proofs.HeaderStages
import ManagedImage.Proofs.Outcome

/-!
# Headers that are accepted

The headers of an image are read exactly when they are well-formed and the image reaches to the end
of its section table, and then every part of the result stands at its offset in the image.

* `Headers.ofImage_eq_ok_iff` says so for an image of any reported size.
* `Headers.blamesImage_ofImage`: headers that are not accepted are a broken format.
-/

namespace ManagedImage

open FixedWidth (valueAt)
open Layout

namespace Headers

variable {options : Options} {image : SizedImage}

/-! ## What the buffer shows of the image -/

theorem length_front (h : frontEnd options image ≤ image.bytes.length) :
    (front options image).length = frontEnd options image := by
  rw [front, List.length_take, length_assumed]
  exact Nat.min_eq_left h

theorem agreeOn_front {start stop : Nat} (hStop : stop ≤ frontEnd options image)
    (hStart : 64 ≤ start ∨ signatureOffset options image.bytes ≤ start) :
    (front options image).AgreeOn image.bytes start stop :=
  (Bytes.agreeOn_take _ hStop).trans (agreeOn_assumed (.inr hStart))

theorem tableEnd_le_frontEnd : tableEnd options image.bytes ≤ frontEnd options image :=
  Nat.le_trans (Nat.le_max_right _ _) (Nat.le_max_left _ _)

theorem checkStub_front :
    checkStub (front options image) (signatureOffset options image.bytes) =
      checkStub image.bytes (signatureOffset options image.bytes) := by
  unfold checkStub
  by_cases hInside : signatureOffset options image.bytes < DosHeader.size
  · rw [if_pos hInside, if_pos hInside]
  · have hSize : DosHeader.size = 64 := rfl
    have hEnd : signatureOffset options image.bytes + 24 ≤ frontEnd options image :=
      Nat.le_trans (Nat.le_trans (Nat.le_max_right _ _) (Nat.le_max_left _ _)) (Nat.le_max_left _ _)
    have hAgree : (front options image).AgreeOn image.bytes DosHeader.size
        (DosHeader.size + (signatureOffset options image.bytes - DosHeader.size)) :=
      agreeOn_front (by omega) (.inl (Nat.le_refl _))
    rw [if_neg hInside, if_neg hInside, stub, stub, hAgree.slice_eq]

/-! ## The headers at their offsets -/

/-- The declared directories. -/
def directoriesOf (options : Options) (image : Bytes) : List DataDirectory :=
  (List.range (directoryCount options image).toNat).map fun index =>
    valueAt DataDirectory image (directoryOffset options image + 8 * index)

/-- The entries of the section table. -/
def entriesOf (options : Options) (image : Bytes) : List SectionEntry :=
  (List.range (sectionCount options image).toNat).map (entry options image)

/-- The headers as they stand in the image. Long section names are looked up in the buffer. -/
def standing (options : Options) (image : SizedImage) : Headers where
  dos := dosHeader options image.bytes
  coff := fileHeader options image.bytes
  optional := optionalHeader options image.bytes
  directories := directoriesOf options image.bytes
  sections := (entriesOf options image.bytes).map
    (Section.describedBy (front options image) (fileHeader options image.bytes).stringTable)

theorem decodeOptional_eq_ok_iff {data : Bytes} {peOffset : Nat} {coff : CoffHeader}
    {optional : OptionalHeader} {directories : List DataDirectory} :
    decodeOptional data peOffset coff = .ok (optional, directories) ↔
      checkStub data peOffset = .ok () ∧ coff.optionalHeaderSize ≠ 0 ∧
        OptionalHeader.read data (peOffset + 24) = .ok optional ∧
        optional.readDirectories data (peOffset + 24) = .ok directories ∧
        optional.format.fixedSize + optional.directoryCount.toNat * 8 ≤
          coff.optionalHeaderSize.toNat := by
  unfold decodeOptional
  rw [bind_eq_ok_iff]
  constructor
  · intro h
    obtain ⟨_, hStub, h⟩ := h
    split at h
    · cases h
    · rename_i hSize
      obtain ⟨optional', hOptional, h⟩ := bind_eq_ok_iff.1 h
      obtain ⟨directories', hDirectories, h⟩ := bind_eq_ok_iff.1 h
      obtain ⟨_, hFits, h⟩ := bind_eq_ok_iff.1 h
      cases h
      exact ⟨hStub, hSize, hOptional, hDirectories, checkDirectories_eq_ok_iff.1 hFits⟩
  · intro h
    obtain ⟨hStub, hSize, hOptional, hDirectories, hFits⟩ := h
    refine ⟨(), hStub, ?_⟩
    rw [if_neg hSize, bind_eq_ok_iff]
    refine ⟨optional, hOptional, bind_eq_ok_iff.2 ⟨directories, hDirectories, ?_⟩⟩
    exact bind_eq_ok_iff.2 ⟨(), checkDirectories_eq_ok_iff.2 hFits, rfl⟩

theorem tableOffset_le_frontEnd : tableOffset options image.bytes ≤ frontEnd options image :=
  Nat.le_trans (Nat.le_add_right _ _) tableEnd_le_frontEnd

theorem directories_front
    (h : directoryOffset options image.bytes + 8 * (directoryCount options image.bytes).toNat ≤
      frontEnd options image) :
    (List.range (directoryCount options image.bytes).toNat).map (fun index => valueAt DataDirectory
        (front options image) (directoryOffset options image.bytes + index * 8)) =
      directoriesOf options image.bytes := by
  refine List.map_congr_left fun index hIndex => ?_
  have hIndex := List.mem_range.1 hIndex
  have hOffset : directoryOffset options image.bytes = signatureOffset options image.bytes + 24 +
    (Layout.format options image.bytes).fixedSize := rfl
  have hWidth : FixedWidth.width DataDirectory = 8 := rfl
  rw [Nat.mul_comm]
  exact (agreeOn_front (by omega) (.inr (by omega))).valueAt_eq

/-- The optional header and its directories are those of the image. -/
theorem decodeOptional_front (hFront : frontEnd options image ≤ image.bytes.length)
    {optional : OptionalHeader} {directories : List DataDirectory} :
    decodeOptional (front options image) (signatureOffset options image.bytes)
        (fileHeader options image.bytes) = .ok (optional, directories) ↔
      checkStub image.bytes (signatureOffset options image.bytes) = .ok () ∧
        (magic options image.bytes = 0x10B ∨ magic options image.bytes = 0x20B) ∧
        (directoryCount options image.bytes).toNat ≤ 16 ∧
        (Layout.format options image.bytes).fixedSize +
          8 * (directoryCount options image.bytes).toNat ≤
            (optionalSize options image.bytes).toNat ∧
        optional = optionalHeader options image.bytes ∧
        directories = directoriesOf options image.bytes := by
  have hTable := @tableOffset_le_frontEnd options image
  have hTableOffset : tableOffset options image.bytes =
    signatureOffset options image.bytes + 24 + (optionalSize options image.bytes).toNat := rfl
  have hDirectoryOffset : directoryOffset options image.bytes =
    signatureOffset options image.bytes + 24 +
      (Layout.format options image.bytes).fixedSize := rfl
  have hWidth : FixedWidth.width UInt16 = 2 := rfl
  have hAgree : ∀ {stop}, stop ≤ frontEnd options image →
      (front options image).AgreeOn image.bytes (signatureOffset options image.bytes + 24) stop :=
    fun hStop => agreeOn_front hStop (.inr (by omega))
  have hHeader : ∀ {format : Format}, magic options image.bytes = format.magic →
      signatureOffset options image.bytes + 24 + format.fixedSize ≤ frontEnd options image →
      OptionalHeader.valueAt format (front options image)
        (signatureOffset options image.bytes + 24) = optionalHeader options image.bytes := by
    intro format hMagic hFixed
    rw [OptionalHeader.valueAt_eq_of_agreeOn (hAgree hFixed), optionalHeader,
      format_eq_of_magic hMagic]
  rw [decodeOptional_eq_ok_iff, checkStub_front, optionalSize_fileHeader, ← magic_eq_iff,
    OptionalHeader.read_eq_ok_iff, OptionalHeader.readDirectories_eq_ok_iff, length_front hFront]
  constructor
  · intro h
    obtain ⟨hStub, hSize, ⟨format, hMagic, hFixed, rfl⟩, ⟨hCount, hFits, rfl⟩, hDeclared⟩ := h
    have hMin : 2 ≤ format.fixedSize := by cases format <;> decide
    have hMagic' : magic options image.bytes = format.magic :=
      (hAgree (by omega)).valueAt_eq.symm.trans hMagic
    obtain rfl : Layout.format options image.bytes = format := format_eq_of_magic hMagic'
    simp only [hHeader hMagic' hFixed, optionalHeader_directoryCount, optionalHeader_format]
      at hCount hFits hDeclared ⊢
    exact ⟨hStub, hMagic', hCount, by omega, trivial, directories_front (by omega)⟩
  · intro h
    obtain ⟨hStub, hMagic, hCount, hDeclared, rfl, rfl⟩ := h
    have hMin : 2 ≤ (Layout.format options image.bytes).fixedSize := by
      cases Layout.format options image.bytes <;> decide
    have hSize : optionalSize options image.bytes ≠ 0 := by
      intro hZero
      rw [hZero] at hDeclared
      exact absurd hDeclared (by show ¬ _ ≤ 0; omega)
    rw [optionalHeader_directoryCount, optionalHeader_format]
    refine ⟨hStub, hSize, ⟨_, ?_, by omega, (hHeader hMagic (by omega)).symm⟩,
      ⟨hCount, by omega, (directories_front (by omega)).symm⟩, by omega⟩
    exact (hAgree (by omega)).valueAt_eq.trans hMagic

/-! ## The section table -/

/-- The sections are those of the image unless a name is a defective reference. -/
theorem decodeSections_front (hFront : frontEnd options image ≤ image.bytes.length) :
    decodeSections (front options image) (signatureOffset options image.bytes)
        (fileHeader options image.bytes) =
      ((entriesOf options image.bytes).mapM fun entry =>
        SectionName.reference? entry.name.toList).map fun _ => (standing options image).sections := by
  have hTable := @tableEnd_le_frontEnd options image
  have hTableEnd : tableEnd options image.bytes =
    tableOffset options image.bytes + 40 * (sectionCount options image.bytes).toNat := rfl
  have hTableOffset : tableOffset options image.bytes =
    signatureOffset options image.bytes + 24 + (optionalSize options image.bytes).toNat := rfl
  have hSize : CoffHeader.sectionEntrySize = 40 := rfl
  have hWidth : FixedWidth.width SectionEntry = 40 := rfl
  have hEntries : (List.range (sectionCount options image.bytes).toNat).map (fun index =>
      valueAt SectionEntry (front options image) (tableOffset options image.bytes + index * 40)) =
        entriesOf options image.bytes := by
    refine List.map_congr_left fun index hIndex => ?_
    have hIndex := List.mem_range.1 hIndex
    rw [Nat.mul_comm]
    exact (agreeOn_front (by omega) (.inr (by omega))).valueAt_eq
  unfold decodeSections
  rw [Section.readTable_eq, length_front hFront, tableOffset_eq, sectionCount_fileHeader, hSize,
    if_pos (by omega), hEntries, Section.mapM_ofEntry]
  rfl

theorem names_ok_iff (hTable : tableEnd options image.bytes ≤ image.bytes.length) :
    (∃ places, (entriesOf options image.bytes).mapM (fun entry =>
        SectionName.reference? entry.name.toList) = .ok places) ↔
      ∀ index < (sectionCount options image.bytes).toNat,
        SectionName.Legal (sectionName options image.bytes index) := by
  have hName : ∀ index < (sectionCount options image.bytes).toNat,
      (entry options image.bytes index).name.toList = sectionName options image.bytes index :=
    fun index hIndex => entry_name hIndex hTable
  rw [mapM_ok_iff]
  constructor
  · intro h index hIndex
    rw [← hName index hIndex, ← SectionName.reference?_ok_iff]
    exact h _ (List.mem_map.2 ⟨index, List.mem_range.2 hIndex, rfl⟩)
  · intro h e hEntry
    obtain ⟨index, hIndex, rfl⟩ := List.mem_map.1 hEntry
    rw [hName index (List.mem_range.1 hIndex), SectionName.reference?_ok_iff]
    exact h index (List.mem_range.1 hIndex)

/-! ## Acceptance -/

/-- The headers as they stand in the image, if the names of the sections are legal. -/
def named (options : Options) (image : SizedImage) : Except Error Headers :=
  ((entriesOf options image.bytes).mapM fun entry =>
    SectionName.reference? entry.name.toList).map fun _ => standing options image

theorem named_eq_ok_iff (hTable : tableEnd options image.bytes ≤ image.bytes.length)
    {headers : Headers} :
    named options image = .ok headers ↔
      (∀ index < (sectionCount options image.bytes).toNat,
        SectionName.Legal (sectionName options image.bytes index)) ∧
        headers = standing options image := by
  unfold named
  rw [← names_ok_iff hTable, map_eq_ok_iff]
  constructor
  · intro h
    obtain ⟨places, hNames, rfl⟩ := h
    exact ⟨⟨places, hNames⟩, rfl⟩
  · intro h
    obtain ⟨⟨places, hNames⟩, rfl⟩ := h
    exact ⟨places, hNames, rfl⟩

theorem blamesEntity_named : FailsAs BlamesEntity (named options image) := by
  intro e h
  have hNames := map_eq_error_iff.1 h
  exact failsAs_mapM (fun entry => SectionName.blamesEntity_reference? _) _ e hNames

theorem decodeFront_eq_named (hFront : frontEnd options image ≤ image.bytes.length)
    {optional : OptionalHeader} {directories : List DataDirectory}
    (hOptional : decodeOptional (front options image) (signatureOffset options image.bytes)
      (fileHeader options image.bytes) = .ok (optional, directories)) :
    decodeFront options image = named options image := by
  obtain ⟨-, -, -, -, rfl, rfl⟩ := (decodeOptional_front hFront).1 hOptional
  unfold decodeFront named
  dsimp only
  rw [hOptional, decodeSections_front hFront]
  cases (entriesOf options image.bytes).mapM fun entry =>
    SectionName.reference? entry.name.toList <;> rfl

theorem dosMagic_iff {data : Bytes} (h : 64 ≤ data.length) :
    valueAt UInt16 data 0 = DosHeader.magic ↔ data.take 2 = [0x4D, 0x5A] :=
  FixedWidth.valueAt_eq_iff (by show 0 + 2 ≤ _; omega)

theorem signature_iff {data : Bytes} (h : signatureOffset options data + 24 ≤ data.length) :
    signature options data = peSignature ↔
      (data.drop (signatureOffset options data)).take 4 = [0x50, 0x45, 0, 0] :=
  FixedWidth.valueAt_eq_iff (by show _ + 4 ≤ _; omega)

theorem checkStub_eq_ok_iff {data : Bytes} {peOffset : Nat} :
    checkStub data peOffset = .ok () ↔ 64 ≤ peOffset ∧ Stub.Legal (stub data peOffset) := by
  have hSize : DosHeader.size = 64 := rfl
  unfold checkStub
  split
  · refine ⟨fun h => ?_, fun h => by omega⟩
    cases h
  · rw [Stub.check_eq_ok_iff]
    exact ⟨fun h => ⟨by omega, h⟩, fun h => h.2⟩

/-- Only the names of its sections can spoil an image that is framed and reaches as far as its
headers. -/
theorem ofImage_of_framed (h : Framed options image.bytes)
    (hSize : tableEnd options image.bytes ≤ image.size)
    (hRest : image.Reaches (min (signatureOffset options image.bytes + 264) image.size)) :
    ofImage options image = named options image := by
  have hStub := checkStub_eq_ok_iff.2 ⟨h.behind, h.stub⟩
  have hTable : image.Reaches (tableEnd options image.bytes) := ⟨hSize, h.table⟩
  have hFile : image.Reaches (signatureOffset options image.bytes + 24) :=
    hTable.mono fileEnd_le_tableEnd
  have hReach : image.Reaches 64 := hFile.mono (Nat.le_trans h.behind (Nat.le_add_right _ _))
  have hFront := ((hReach.max hFile).max hTable).max hRest
  have hDos : checkDos image = .ok () :=
    checkDos_eq_ok_iff.2 ⟨hReach, (dosMagic_iff hReach.2).2 h.dosMagic⟩
  have hCoff : checkCoff options image = .ok () :=
    checkCoff_eq_ok_iff.2 ⟨hFile, (signature_iff hFile.2).2 h.signature,
      UInt16.not_lt.2 h.sectionLimit, hTable, hRest⟩
  unfold ofImage
  rw [hDos, hCoff]
  exact decodeFront_eq_named hFront.2
    ((decodeOptional_front hFront.2).2 ⟨hStub, h.magic, h.directoryCount, h.directories, rfl, rfl⟩)

/-- An image that passes every stage before the section table is framed. -/
theorem framed_of_stages (hDos : checkDos image = .ok ()) (hCoff : checkCoff options image = .ok ())
    {optional : OptionalHeader} {directories : List DataDirectory}
    (hOptional : decodeOptional (front options image) (signatureOffset options image.bytes)
      (fileHeader options image.bytes) = .ok (optional, directories)) :
    Framed options image.bytes := by
  obtain ⟨hReach, hDosMagic⟩ := checkDos_eq_ok_iff.1 hDos
  obtain ⟨hFile, hSignature, hLimit, hTable, hRest⟩ := checkCoff_eq_ok_iff.1 hCoff
  have hFront := ((hReach.max hFile).max hTable).max hRest
  obtain ⟨hStub, hMagic, hCount, hFits, -, -⟩ := (decodeOptional_front hFront.2).1 hOptional
  obtain ⟨hBehind, hStub⟩ := checkStub_eq_ok_iff.1 hStub
  exact ⟨hReach.2, (dosMagic_iff hReach.2).1 hDosMagic, hFile.2, (signature_iff hFile.2).1 hSignature,
    UInt16.not_lt.1 hLimit, hTable.2, hMagic, hCount, hFits, hBehind, hStub⟩

theorem framed_of_ofImage {headers : Headers} (h : ofImage options image = .ok headers) :
    Framed options image.bytes ∧ tableEnd options image.bytes ≤ image.size ∧
      image.Reaches (min (signatureOffset options image.bytes + 264) image.size) := by
  obtain ⟨_, hDos, h⟩ := bind_eq_ok_iff.1 h
  obtain ⟨_, hCoff, h⟩ := bind_eq_ok_iff.1 h
  obtain ⟨-, -, -, hTable, hRest⟩ := checkCoff_eq_ok_iff.1 hCoff
  obtain ⟨_, hOptional, -⟩ := bind_eq_ok_iff.1 h
  exact ⟨framed_of_stages hDos hCoff hOptional, hTable.1, hRest⟩

theorem ofImage_eq_ok_iff {headers : Headers} :
    ofImage options image = .ok headers ↔
      WellFormed options image.bytes ∧ tableEnd options image.bytes ≤ image.size ∧
        image.Reaches (min (signatureOffset options image.bytes + 264) image.size) ∧
        headers = standing options image := by
  constructor
  · intro h
    obtain ⟨hFramed, hSize, hRest⟩ := framed_of_ofImage h
    rw [ofImage_of_framed hFramed hSize hRest, named_eq_ok_iff hFramed.table] at h
    exact ⟨⟨hFramed, h.1⟩, hSize, hRest, h.2⟩
  · intro h
    obtain ⟨hWell, hSize, hRest, hHeaders⟩ := h
    rw [ofImage_of_framed hWell.toFramed hSize hRest]
    exact (named_eq_ok_iff hWell.table).2 ⟨hWell.names, hHeaders⟩

/-! ## Rejection -/

theorem blamesImage_checkStub (data : Bytes) (peOffset : Nat) :
    FailsAs BlamesImage (checkStub data peOffset) := by
  unfold checkStub Stub.check
  split
  · exact failsAs_error rfl
  · split
    · exact failsAs_ok _
    · dsimp only
      split
      · exact failsAs_error rfl
      · repeat' split
        all_goals first | exact failsAs_error rfl | exact failsAs_ok _

theorem blamesImage_decodeOptional (data : Bytes) (peOffset : Nat) (coff : CoffHeader) :
    FailsAs BlamesImage (decodeOptional data peOffset coff) := by
  unfold decodeOptional
  refine failsAs_bind (blamesImage_checkStub _ _) fun _ => ?_
  split
  · exact failsAs_error rfl
  refine failsAs_bind ?_ fun optional => failsAs_bind ?_ fun directories =>
    failsAs_bind ?_ fun _ => failsAs_ok _
  · rw [OptionalHeader.read_eq]
    split
    · split
      · exact failsAs_error rfl
      · split
        · exact failsAs_ok _
        · exact failsAs_error rfl
    · exact failsAs_error rfl
  · rw [OptionalHeader.readDirectories_eq]
    repeat' split
    all_goals first | exact failsAs_error rfl | exact failsAs_ok _
  · unfold checkDirectories
    split
    · exact failsAs_ok _
    · exact failsAs_error rfl

theorem blamesImage_decodeSections (data : Bytes) (peOffset : Nat) (coff : CoffHeader) :
    FailsAs BlamesImage (decodeSections data peOffset coff) := by
  unfold decodeSections
  rw [Section.readTable_eq]
  split
  · refine failsAs_mapM (fun entry => ?_) _
    refine failsAs_bind (failsAs_bind ((SectionName.blamesEntity_reference? _).mono
        BlamesEntity.blamesImage) fun place => ?_)
      fun _ => failsAs_ok _
    cases place <;> exact failsAs_ok _
  · exact failsAs_error rfl

theorem blamesImage_ofImage : FailsAs BlamesImage (ofImage options image) := by
  unfold ofImage decodeFront
  refine failsAs_bind ?_ fun _ => failsAs_bind ?_ fun _ =>
    failsAs_bind (blamesImage_decodeOptional _ _ _) fun _ =>
    failsAs_bind (blamesImage_decodeSections _ _ _) fun _ => failsAs_ok _
  · unfold checkDos
    repeat' split
    all_goals first | exact failsAs_error rfl | exact failsAs_ok _
  · unfold checkCoff
    repeat' split
    all_goals first | exact failsAs_error rfl | exact failsAs_ok _

end Headers

end ManagedImage
