import ManagedImage.Proofs.StubContents
import ManagedImage.Proofs.Truncation

/-!
# Images that end too early

A read that needs more bytes than there are ends as out of bounds. Every other answer rests on bytes
that are there, so it is final: it stays when the image is continued.

* `Truncates x y`: the computation `x` runs out of bytes, or it is `y`. It is closed under
  sequencing, so the read of an image is compared with that of a continued one stage by stage.
* `Layout.Required`: the ends that an image has to reach, as the fields that it holds tell them.
  `Layout.Required.le_length`: an image with a summary reaches all of them.
* `Summary.missing_bytes`: answers other than out of bounds are final, and an image that is out of
  bounds falls short of a required end or has a Rich header that is not made of whole words.
-/

namespace ManagedImage

open FixedWidth (valueAt)
open Layout

/-! ## Computations that run out of bytes -/

section Truncates

variable {α β : Type}

/-- The first computation runs out of bytes, or it is the second one. -/
def Truncates (x y : Except Error α) : Prop := x = .error .outOfBounds ∨ x = y

theorem Truncates.refl (x : Except Error α) : Truncates x x := .inr rfl

theorem Truncates.bind {x y : Except Error α} {f g : α → Except Error β} (h : Truncates x y)
    (hNext : ∀ a, x = .ok a → Truncates (f a) (g a)) : Truncates (x >>= f) (y >>= g) := by
  rcases h with rfl | rfl
  · exact .inl rfl
  · cases x with
    | error e => exact .inr rfl
    | ok a => exact hNext a rfl

/-- A stage that asks for bytes; what is there of the second input includes what is there of the
first. -/
theorem Truncates.of_short {P Q : Prop} [Decidable P] [Decidable Q] {x y : Except Error α}
    (hShort : Q → P) (h : ¬ P → Truncates x y) :
    Truncates (if P then .error .outOfBounds else x) (if Q then .error .outOfBounds else y) := by
  by_cases hP : P
  · rw [if_pos hP]
    exact .inl rfl
  · rw [if_neg hP, if_neg fun hQ => hP (hShort hQ)]
    exact h hP

/-- A stage that refuses both inputs in the same way. -/
theorem Truncates.guard {P : Prop} [Decidable P] {x y refusal : Except Error α}
    (h : ¬ P → Truncates x y) :
    Truncates (if P then refusal else x) (if P then refusal else y) := by
  by_cases hP : P
  · rw [if_pos hP, if_pos hP]
    exact .refl _
  · rw [if_neg hP, if_neg hP]
    exact h hP

end Truncates

section Decoding

variable {a b : Bytes}

theorem FixedWidth.truncates_read {α : Type} [FixedWidth α] (h : a <+: b) (offset : Nat) :
    Truncates (read (α := α) a offset) (read b offset) := by
  obtain ⟨more, rfl⟩ := h
  rw [read_eq]
  by_cases hFits : offset + width α ≤ a.length
  · have hLong : offset + width α ≤ (a ++ more).length := by
      rw [List.length_append]
      omega
    rw [if_pos hFits, read_of_le hLong, (Bytes.agreeOn_append a more hFits).valueAt_eq]
    exact .refl _
  · rw [if_neg hFits]
    exact .inl rfl

theorem OptionalHeader.truncates_read (h : a <+: b) (offset : Nat) :
    Truncates (read a offset) (read b offset) := by
  unfold read
  refine (FixedWidth.truncates_read h offset).bind fun magic _ => ?_
  cases Format.ofMagic? magic with
  | none => exact .refl _
  | some format =>
    cases format with
    | pe32 => exact (FixedWidth.truncates_read h offset).bind fun _ _ => .refl _
    | pe32Plus => exact (FixedWidth.truncates_read h offset).bind fun _ _ => .refl _

theorem OptionalHeader.truncates_readDirectories (header : OptionalHeader) (h : a <+: b)
    (offset : Nat) :
    Truncates (header.readDirectories a offset) (header.readDirectories b offset) := by
  unfold readDirectories
  dsimp only
  split
  · exact .refl _
  · exact (FixedWidth.truncates_read h _).bind fun _ _ => .refl _

/-- The stub is there as soon as the signature is. -/
theorem Headers.checkStub_continued {peOffset : Nat} (h : a <+: b) (hStub : peOffset ≤ a.length) :
    checkStub a peOffset = checkStub b peOffset := by
  obtain ⟨more, rfl⟩ := h
  unfold checkStub
  by_cases hInside : peOffset < DosHeader.size
  · rw [if_pos hInside, if_pos hInside]
  · have hAgree : (a ++ more).AgreeOn a 64 peOffset := Bytes.agreeOn_append a more hStub
    rw [if_neg hInside, if_neg hInside, stub_eq_of_agreeOn hAgree (Nat.not_lt.1 hInside)]

theorem Headers.truncates_decodeOptional {peOffset : Nat} (coff : CoffHeader) (h : a <+: b)
    (hStub : peOffset ≤ a.length) :
    Truncates (decodeOptional a peOffset coff) (decodeOptional b peOffset coff) := by
  unfold decodeOptional
  rw [checkStub_continued h hStub]
  refine (Truncates.refl _).bind fun _ _ => ?_
  split
  · exact .refl _
  · refine (OptionalHeader.truncates_read h _).bind fun optional _ => ?_
    exact (optional.truncates_readDirectories h _).bind fun _ _ => .refl _

end Decoding

/-! ## The ends that an image has to reach -/

namespace Layout

variable {options : Options} {image : Bytes}

/-- The image has to reach up to this end. Each end is told by fields that the image holds. -/
inductive Required (options : Options) (image : Bytes) : Nat → Prop
  | dosHeader : Required options image 64
  | fileHeader (hDos : 64 ≤ image.length) :
    Required options image (signatureOffset options image + 24)
  | sectionTable (hDos : 64 ≤ image.length)
    (hFile : signatureOffset options image + 24 ≤ image.length) :
    Required options image (tableEnd options image)
  | magic (hDos : 64 ≤ image.length) (hFile : signatureOffset options image + 24 ≤ image.length) :
    Required options image (signatureOffset options image + 26)
  | fixedPart (hDos : 64 ≤ image.length)
    (hMagic : signatureOffset options image + 26 ≤ image.length)
    (hLegal : Layout.magic options image = 0x10B ∨ Layout.magic options image = 0x20B) :
    Required options image (directoryOffset options image)
  | directories (hDos : 64 ≤ image.length) (hFixed : directoryOffset options image ≤ image.length)
    (hLegal : Layout.magic options image = 0x10B ∨ Layout.magic options image = 0x20B)
    (hCount : (directoryCount options image).toNat ≤ 16) :
    Required options image
      (directoryOffset options image + 8 * (directoryCount options image).toNat)
  | runtimeHeader {offset : Nat} (hDos : 64 ≤ image.length)
    (hTable : tableEnd options image ≤ image.length)
    (hLegal : Layout.magic options image = 0x10B ∨ Layout.magic options image = 0x20B)
    (hDirectories : directoryOffset options image + 8 * (directoryCount options image).toNat ≤
      image.length)
    (hDirectory : HasRuntimeDirectory options image)
    (hOffset : runtimeOffset options image = .ok offset) :
    Required options image (offset + 20)

theorem Required.le_length {stop : Nat} {summary : Summary} (h : Required options image stop)
    (hRead : Summary.ofBytes options image = .ok summary) : stop ≤ image.length := by
  obtain ⟨hWell, -, offset, hOffset, hFits, -⟩ := Summary.ofBytes_eq_ok_iff.1 hRead
  have hTable := hWell.table
  have hDirectories := hWell.directories
  have hTableEnd : tableEnd options image = signatureOffset options image + 24 +
    (optionalSize options image).toNat + 40 * (sectionCount options image).toNat := rfl
  have hDirectoryOffset : directoryOffset options image =
    signatureOffset options image + 24 + (Layout.format options image).fixedSize := rfl
  have hFixed : 96 ≤ (Layout.format options image).fixedSize := by
    cases Layout.format options image <;> decide
  cases h with
  | dosHeader => exact hWell.dosHeader
  | fileHeader => exact hWell.fileHeader
  | sectionTable => exact hTable
  | magic | fixedPart | directories => omega
  | runtimeHeader _ _ _ _ _ hOffset' =>
    obtain rfl := Except.ok.inj (hOffset.symm.trans hOffset')
    exact hFits

theorem assumed_continued (options : Options) (more : Bytes) (h : 64 ≤ image.length) :
    assumed options image <+: assumed options (image ++ more) := by
  have hStored : storedOffset (image ++ more) = storedOffset image :=
    (Bytes.agreeOn_append image more h : (image ++ more).AgreeOn image 0x3C 64).valueAt_eq
  have hAssumes : AssumesOffset options (image ++ more) ↔ AssumesOffset options image := by
    simp only [AssumesOffset, hStored]
  unfold assumed
  by_cases hTake : AssumesOffset options image
  · have hCut := Bytes.overwrite_take (image ++ more) (FixedWidth.encode DosHeader.usualPeOffset)
      DosHeader.peOffsetField image.length
    rw [List.take_left] at hCut
    rw [if_pos hTake, if_pos (hAssumes.2 hTake), hCut]
    exact List.take_prefix _ _
  · rw [if_neg hTake, if_neg fun h' => hTake (hAssumes.1 h')]
    exact List.prefix_append _ _

end Layout

/-! ## Answers that are final -/

namespace Summary

variable {options : Options} {image more : Bytes}

theorem decodeOptional_assumed (h : 64 ≤ image.length) (coff : CoffHeader) :
    Headers.decodeOptional (Headers.front options (.ofBytes image)) (signatureOffset options image)
        coff =
      Headers.decodeOptional (assumed options image) (signatureOffset options image) coff := by
  have hFront := @Headers.agreeOn_front_assumed options image h
  rw [Headers.decodedEnd_standing h] at hFront
  exact Headers.decodeOptional_eq_of_agreeOn coff
    (hFront.mono (Nat.le_refl _) (Nat.le_max_left _ _))

/-- The stages of the read, with the whole image in place of the buffer up to the optional header. -/
theorem ofBytes_stages (options : Options) (image : Bytes) :
    ofBytes options image = (do
      Headers.checkDos (.ofBytes image)
      Headers.checkCoff options (.ofBytes image)
      let _ ← Headers.decodeOptional (assumed options image) (signatureOffset options image)
        (fileHeader options image)
      let _ ← (Headers.entriesOf options image).mapM fun entry =>
        SectionName.reference? entry.name.toList
      behindHeaders options image) := by
  rw [ofBytes_eq, ofImage_stages]
  refine bind_congr_of_ok fun _ hDos => bind_congr_of_ok fun _ _ => ?_
  have hLength : 64 ≤ image.length := (Headers.checkDos_eq_ok_iff.1 hDos).1.2
  rw [← decodeOptional_assumed hLength]
  rfl

theorem truncates_checkDos (image more : Bytes) :
    Truncates (Headers.checkDos (.ofBytes image)) (Headers.checkDos (.ofBytes (image ++ more))) := by
  rw [Headers.checkDos_ofBytes, Headers.checkDos_ofBytes, List.length_append]
  refine .of_short (by omega) fun hLong => ?_
  have hMagic : valueAt UInt16 (image ++ more) 0 = valueAt UInt16 image 0 :=
    (Bytes.agreeOn_append image more (by show 0 + 2 ≤ _; omega)).valueAt_eq
  rw [hMagic]
  exact .refl _

theorem signatureOffset_append (options : Options) (more : Bytes) (h : 64 ≤ image.length) :
    signatureOffset options (image ++ more) = signatureOffset options image :=
  signatureOffset_eq_of_agreeOn (Bytes.agreeOn_append image more h)

theorem truncates_checkCoff (options : Options) (more : Bytes) (h : 64 ≤ image.length) :
    Truncates (Headers.checkCoff options (.ofBytes image))
      (Headers.checkCoff options (.ofBytes (image ++ more))) := by
  have hOffset := signatureOffset_append options more h
  rw [Headers.checkCoff_ofBytes, Headers.checkCoff_ofBytes, hOffset, List.length_append]
  refine .of_short (by omega) fun hFile => ?_
  have hFits : signatureOffset options image + 24 ≤ image.length := Nat.not_lt.1 hFile
  have hSignature : signature options (image ++ more) = signature options image := by
    rw [signature, signature, hOffset]
    exact (Bytes.agreeOn_append image more (by show _ + 4 ≤ _; omega)).valueAt_eq
  obtain ⟨-, hCount, hSize⟩ :=
    fileFields_eq_of_agreeOn hOffset (Bytes.agreeOn_append image more hFits)
  have hEnd : tableEnd options (image ++ more) = tableEnd options image := by
    simp only [tableEnd, tableOffset, hOffset, hSize, hCount]
  rw [hSignature, hCount, hEnd]
  exact .guard fun _ => .guard fun _ => .of_short (by omega) fun _ => .refl _

theorem entriesOf_append (hSame : SameLayout options image (image ++ more))
    (hTable : tableEnd options image ≤ image.length) :
    Headers.entriesOf options (image ++ more) = Headers.entriesOf options image := by
  unfold Headers.entriesOf
  rw [hSame.sectionCount]
  refine List.map_congr_left fun index hIndex => ?_
  have hEntry := entryOffset_add_le (List.mem_range.1 hIndex)
  rw [entry, entry, hSame.entryOffset]
  exact (Bytes.agreeOn_append image more (by show _ + 40 ≤ _; omega)).valueAt_eq

theorem truncates_runtimeAt (options : Options) (image more : Bytes) (offset : Nat) :
    Truncates (runtimeAt options image offset) (runtimeAt options (image ++ more) offset) :=
  (FixedWidth.truncates_read (List.prefix_append _ _) offset).bind fun _ _ => .refl _

theorem truncates_behindHeaders (hSame : SameLayout options image (image ++ more))
    (hMachine : Layout.machine options (image ++ more) = Layout.machine options image) :
    Truncates (behindHeaders options image) (behindHeaders options (image ++ more)) := by
  unfold behindHeaders
  by_cases hDirectory : HasRuntimeDirectory options image
  · rw [if_pos hDirectory, if_pos (hSame.hasRuntimeDirectory_iff.2 hDirectory),
      hSame.runtimeOffset hDirectory]
    refine (Truncates.refl _).bind fun offset _ => ?_
    refine (truncates_runtimeAt options image more offset).bind fun runtime hRuntime => ?_
    obtain ⟨hFits, -⟩ := runtimeAt_eq_ok_iff.1 hRuntime
    rw [standing_eq_of_agreeOn hSame.format hMachine (Bytes.agreeOn_append image more hFits)]
    exact .refl _
  · rw [if_neg hDirectory, if_neg fun h => hDirectory (hSame.hasRuntimeDirectory_iff.1 h)]
    exact .refl _

theorem truncates_append (options : Options) (image more : Bytes) :
    Truncates (ofBytes options image) (ofBytes options (image ++ more)) := by
  rw [ofBytes_stages, ofBytes_stages]
  refine (truncates_checkDos image more).bind fun _ hDos => ?_
  have hLength : 64 ≤ image.length := (Headers.checkDos_eq_ok_iff.1 hDos).1.2
  refine (truncates_checkCoff options more hLength).bind fun _ hCoff => ?_
  obtain ⟨hFile, -, -, hTable, -⟩ := Headers.checkCoff_eq_ok_iff.1 hCoff
  have hOffset := signatureOffset_append options more hLength
  have hFileHeader : fileHeader options (image ++ more) = fileHeader options image := by
    rw [fileHeader, fileHeader, hOffset]
    exact (Bytes.agreeOn_append image more hFile.2).valueAt_eq
  have hStub : signatureOffset options image ≤ (assumed options image).length := by
    rw [length_assumed]
    exact Nat.le_trans (Nat.le_add_right _ 24) hFile.2
  rw [hOffset, hFileHeader]
  refine (Headers.truncates_decodeOptional _ (assumed_continued options more hLength) hStub).bind
    fun decoded hOptional => ?_
  -- What is left is read of an image whose headers have their form.
  rw [← decodeOptional_assumed hLength] at hOptional
  have hFramed : Framed options image := Headers.framed_of_stages hDos hCoff hOptional
  have hAgree := agreeOnHeaders_of_agreeOn (Bytes.agreeOn_append image more hTable.2)
  have hSame := hAgree.sameLayout hFramed
  rw [entriesOf_append hSame hTable.2]
  exact (Truncates.refl _).bind fun _ _ =>
    truncates_behindHeaders hSame (hAgree.machine_eq hFramed)

/-! ## Answers for want of bytes -/

/-- The image ends before an end that it has to reach. -/
def EndsEarly (options : Options) (image : Bytes) : Prop :=
  ∃ stop, Required options image stop ∧ image.length < stop

theorem endsEarly_of_checkDos (h : Headers.checkDos (.ofBytes image) = .error .outOfBounds) :
    EndsEarly options image := by
  rw [Headers.checkDos_ofBytes] at h
  split at h
  · rename_i hShort
    exact ⟨64, .dosHeader, hShort⟩
  · split at h <;> cases h

theorem endsEarly_of_checkCoff (hDos : 64 ≤ image.length)
    (h : Headers.checkCoff options (.ofBytes image) = .error .outOfBounds) :
    EndsEarly options image := by
  rw [Headers.checkCoff_ofBytes] at h
  split at h
  · rename_i hShort
    exact ⟨_, .fileHeader hDos, hShort⟩
  rename_i hFile
  split at h
  · cases h
  split at h
  · cases h
  split at h
  · rename_i hShort
    exact ⟨_, .sectionTable hDos (Nat.not_lt.1 hFile), hShort⟩
  · cases h

theorem misaligned_of_checkStub
    (h : Headers.checkStub (assumed options image) (signatureOffset options image) =
      .error .outOfBounds) :
    Stub.Misaligned (Headers.stub image (signatureOffset options image)) := by
  unfold Headers.checkStub at h
  split at h
  · cases h
  · rename_i hBehind
    rw [stub_eq_of_agreeOn (agreeOn_assumed (.inr (.inl (Nat.le_refl 64)))) (Nat.not_lt.1 hBehind)]
      at h
    exact Stub.misaligned_of_check h

theorem magic_assumed :
    valueAt UInt16 (assumed options image) (signatureOffset options image + 24) =
      Layout.magic options image :=
  (agreeOn_assumed (.inr (.inr (Nat.le_add_right _ _)))).valueAt_eq

theorem endsEarly_of_optional (hDos : 64 ≤ image.length)
    (hFile : signatureOffset options image + 24 ≤ image.length)
    (h : OptionalHeader.read (assumed options image) (signatureOffset options image + 24) =
      .error .outOfBounds) : EndsEarly options image := by
  rw [OptionalHeader.read_eq, magic_assumed, length_assumed] at h
  split at h
  · rename_i hMagic
    split at h
    · cases h
    · rename_i format hFormat
      have hFormat := Format.ofMagic?_eq_some_iff.1 hFormat
      obtain rfl : Layout.format options image = format := format_eq_of_magic hFormat
      split at h
      · cases h
      · rename_i hShort
        exact ⟨_, .fixedPart hDos hMagic (magic_eq_iff.1 hFormat), Nat.not_le.1 hShort⟩
  · rename_i hShort
    exact ⟨_, .magic hDos hFile, Nat.not_le.1 hShort⟩

/-- An optional header that is read is that of the image. -/
theorem optionalHeader_of_read {optional : OptionalHeader}
    (h : OptionalHeader.read (assumed options image) (signatureOffset options image + 24) =
      .ok optional) :
    (Layout.magic options image = 0x10B ∨ Layout.magic options image = 0x20B) ∧
      directoryOffset options image ≤ image.length ∧ optional = optionalHeader options image := by
  obtain ⟨format, hFormat, hFits, rfl⟩ := OptionalHeader.read_eq_ok_iff.1 h
  rw [magic_assumed] at hFormat
  rw [length_assumed] at hFits
  obtain rfl : Layout.format options image = format := format_eq_of_magic hFormat
  refine ⟨magic_eq_iff.1 hFormat, hFits, ?_⟩
  exact OptionalHeader.valueAt_eq_of_agreeOn (agreeOn_assumed (.inr (.inr (Nat.le_add_right _ _))))

theorem endsEarly_of_directories (hDos : 64 ≤ image.length)
    (hFixed : directoryOffset options image ≤ image.length)
    (hLegal : Layout.magic options image = 0x10B ∨ Layout.magic options image = 0x20B)
    (h : (optionalHeader options image).readDirectories (assumed options image)
      (signatureOffset options image + 24) = .error .outOfBounds) : EndsEarly options image := by
  rw [OptionalHeader.readDirectories_eq, optionalHeader_directoryCount, optionalHeader_format,
    length_assumed, Nat.mul_comm] at h
  split at h
  · cases h
  rename_i hCount
  split at h
  · cases h
  · rename_i hShort
    exact ⟨_, .directories hDos hFixed hLegal (Nat.not_lt.1 hCount), Nat.not_le.1 hShort⟩

theorem endsEarly_or_misaligned (hDos : 64 ≤ image.length)
    (hFile : signatureOffset options image + 24 ≤ image.length)
    (h : Headers.decodeOptional (assumed options image) (signatureOffset options image)
      (fileHeader options image) = .error .outOfBounds) :
    EndsEarly options image ∨
      Stub.Misaligned (Headers.stub image (signatureOffset options image)) := by
  rcases bind_eq_error_iff.1 h with hStub | ⟨_, -, h⟩
  · exact .inr (misaligned_of_checkStub hStub)
  refine .inl ?_
  split at h
  · cases h
  rcases bind_eq_error_iff.1 h with hOptional | ⟨optional, hOptional, h⟩
  · exact endsEarly_of_optional hDos hFile hOptional
  obtain ⟨hLegal, hFixed, rfl⟩ := optionalHeader_of_read hOptional
  rcases bind_eq_error_iff.1 h with hDirectories | ⟨directories, -, h⟩
  · exact endsEarly_of_directories hDos hFixed hLegal hDirectories
  rcases bind_eq_error_iff.1 h with hOverrun | ⟨_, -, h⟩
  · unfold checkDirectories at hOverrun
    split at hOverrun <;> cases hOverrun
  · cases h

theorem endsEarly_of_behindHeaders (hFramed : Framed options image)
    (h : behindHeaders options image = .error .outOfBounds) : EndsEarly options image := by
  have hTable := hFramed.table
  have hDeclared := hFramed.directories
  have hDirectories :
      directoryOffset options image + 8 * (directoryCount options image).toNat ≤ image.length := by
    simp only [tableEnd, tableOffset] at hTable
    simp only [directoryOffset]
    omega
  unfold behindHeaders at h
  split at h
  · rename_i hDirectory
    rcases bind_eq_error_iff.1 h with hOffset | ⟨offset, hOffset, h⟩
    · cases (Placement.offsetOf_eq_error_iff.1 hOffset).2
    rcases bind_eq_error_iff.1 h with hRuntime | ⟨runtime, -, h⟩
    · refine ⟨offset + 20, .runtimeHeader hFramed.dosHeader hTable hFramed.magic hDirectories
        hDirectory hOffset, ?_⟩
      exact runtimeAt_eq_outOfBounds_iff.1 hRuntime
    · cases h
  · cases h

/-- An answer other than out of bounds is final. An image that is out of bounds falls short of an end
that its own fields tell, unless its Rich header is not made of whole words. -/
theorem missing_bytes (options : Options) (image : Bytes) :
    (ofBytes options image ≠ .error .outOfBounds →
      ∀ more, ofBytes options (image ++ more) = ofBytes options image) ∧
    (ofBytes options image = .error .outOfBounds →
      (∃ stop, Required options image stop ∧ image.length < stop) ∨
        Stub.Misaligned (Headers.stub image (signatureOffset options image))) := by
  constructor
  · intro h more
    rcases truncates_append options image more with hShort | hSame
    · exact absurd hShort h
    · exact hSame.symm
  · intro h
    rw [ofBytes_stages] at h
    rcases bind_eq_error_iff.1 h with hFails | ⟨_, hDos, h⟩
    · exact .inl (endsEarly_of_checkDos hFails)
    have hLength : 64 ≤ image.length := (Headers.checkDos_eq_ok_iff.1 hDos).1.2
    rcases bind_eq_error_iff.1 h with hFails | ⟨_, hCoff, h⟩
    · exact .inl (endsEarly_of_checkCoff hLength hFails)
    have hFile := (Headers.checkCoff_eq_ok_iff.1 hCoff).1.2
    rcases bind_eq_error_iff.1 h with hFails | ⟨decoded, hOptional, h⟩
    · exact endsEarly_or_misaligned hLength hFile hFails
    rw [← decodeOptional_assumed hLength] at hOptional
    have hFramed : Framed options image := Headers.framed_of_stages hDos hCoff hOptional
    rcases bind_eq_error_iff.1 h with hNames | ⟨_, -, h⟩
    · obtain ⟨_, hNames⟩ := failsAs_mapM (fun _ => SectionName.blamesEntity_reference? _) _ _ hNames
      cases hNames
    · exact .inl (endsEarly_of_behindHeaders hFramed h)

/-! ## A Rich header that is not made of whole words -/

/-- A start mark under the key zero, five bytes, and the end mark. -/
def misaligned : Bytes := [0x44, 0x61, 0x6E, 0x53, 0, 0, 0, 0, 0] ++ startless

theorem runtimeOffset_misaligned : runtimeOffset .strict (restubbed misaligned) = .ok 376 := by
  decide +kernel

theorem length_misaligned : (restubbed misaligned).length = 396 := by decide +kernel

theorem required_misaligned {stop : Nat} (h : Required .strict (restubbed misaligned) stop) :
    stop ≤ 396 := by
  cases h with
  | dosHeader => decide
  | fileHeader | sectionTable | magic | fixedPart | directories => decide +kernel
  | runtimeHeader _ _ _ _ _ hOffset =>
    obtain rfl := Except.ok.inj (hOffset.symm.trans runtimeOffset_misaligned)
    decide

/-- An image that is complete, and out of bounds all the same: it reaches every end that its fields
tell, the end of the runtime header is one of these, and no section refers to the string table. -/
theorem complete_but_outOfBounds :
    ofBytes .strict (restubbed misaligned) = .error .outOfBounds ∧
      (restubbed misaligned).length = 396 ∧
      Required .strict (restubbed misaligned) 396 ∧
      (∀ stop, Required .strict (restubbed misaligned) stop → stop ≤ 396) ∧
      ∀ index < (sectionCount .strict (restubbed misaligned)).toNat,
        (sectionName .strict (restubbed misaligned) index).head? ≠ some 0x2F := by
  refine ⟨by decide +kernel, length_misaligned, ?_, fun _ => required_misaligned, by decide +kernel⟩
  exact .runtimeHeader (by decide +kernel) (by decide +kernel) (by decide +kernel)
    (by decide +kernel) (by decide +kernel) runtimeOffset_misaligned

end Summary

end ManagedImage
