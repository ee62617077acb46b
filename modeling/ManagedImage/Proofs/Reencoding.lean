import ManagedImage.Proofs.Acceptance

/-!
# Writing headers back

Headers that have been read hold every byte of the image that they stand for. Each of them is
listed here as the numbers that it consists of, in the order of the file and with the number of
bytes that each of them takes; `written` puts such numbers down. The lists say on their own how a
header is laid out, and `encode_eq_written` shows for each of them that it is the layout in which
the header is read.

* `OptionalHeader.fields`: the two layouts of the optional header, by its format.
* `Headers.Reproduces`: what is written back is what stands in the image.
* `Headers.reproduces_of_read`: this holds of all headers that are read.
-/

namespace ManagedImage

open FixedWidth (valueAt)
open Layout

/-! ## Numbers behind each other -/

/-- Numbers, each with its width in bytes, written behind each other with their least significant
bytes first. -/
def written (fields : List (Nat × Nat)) : Bytes :=
  fields.flatMap fun field => leBytes field.1 field.2

theorem written_append (fields more : List (Nat × Nat)) :
    written (fields ++ more) = written fields ++ written more := List.flatMap_append

/-! ## The layouts of the headers -/

namespace DosHeader

def fields (h : DosHeader) : List (Nat × Nat) :=
  [(2, h.signature.toNat), (2, h.bytesOnLastPage.toNat), (2, h.pagesInFile.toNat),
    (2, h.relocations.toNat), (2, h.headerParagraphs.toNat), (2, h.minimumExtraParagraphs.toNat),
    (2, h.maximumExtraParagraphs.toNat), (2, h.initialSs.toNat), (2, h.initialSp.toNat),
    (2, h.checksum.toNat), (2, h.initialIp.toNat), (2, h.initialCs.toNat),
    (2, h.relocationTable.toNat), (2, h.overlayNumber.toNat)] ++
  h.reserved.toList.map (fun word => (2, word.toNat)) ++
  [(2, h.oemId.toNat), (2, h.oemInfo.toNat)] ++
  h.reserved2.toList.map (fun word => (2, word.toNat)) ++
  [(4, h.peOffset.toNat)]

theorem encode_eq_written (h : DosHeader) : FixedWidth.encode h = written h.fields := by
  have hWords : ∀ {count : Nat} (words : Vector UInt16 count),
      written (words.toList.map fun word => (2, word.toNat)) = FixedWidth.encode words :=
    fun words => List.flatMap_map ..
  simp only [fields, written_append, hWords, List.append_assoc]
  rfl

end DosHeader

namespace CoffHeader

def fields (h : CoffHeader) : List (Nat × Nat) :=
  [(2, h.machine.toNat), (2, h.sectionCount.toNat), (4, h.timeDateStamp.toNat),
    (4, h.symbolTable.toNat), (4, h.symbolCount.toNat), (2, h.optionalHeaderSize.toNat),
    (2, h.characteristics.toNat)]

theorem encode_eq_written (h : CoffHeader) : FixedWidth.encode h = written h.fields := rfl

end CoffHeader

namespace StandardFields

/-- The fields behind the magic number. -/
def fields (s : StandardFields) : List (Nat × Nat) :=
  [(1, s.linker.major.toNat), (1, s.linker.minor.toNat), (4, s.codeSize.toNat),
    (4, s.initializedDataSize.toNat), (4, s.uninitializedDataSize.toNat), (4, s.entryPoint.toNat),
    (4, s.codeBase.toNat)]

end StandardFields

namespace WindowsFields

/-- The fields for the loader; addresses and sizes in memory take `wordSize` bytes. -/
def fields (wordSize : Nat) (w : WindowsFields UInt64) : List (Nat × Nat) :=
  [(wordSize, w.imageBase.toNat), (4, w.sectionAlignment.toNat), (4, w.fileAlignment.toNat),
    (2, w.operatingSystemVersion.major.toNat), (2, w.operatingSystemVersion.minor.toNat),
    (2, w.imageVersion.major.toNat), (2, w.imageVersion.minor.toNat),
    (2, w.subsystemVersion.major.toNat), (2, w.subsystemVersion.minor.toNat),
    (4, w.win32Version.toNat), (4, w.imageSize.toNat), (4, w.headersSize.toNat),
    (4, w.checksum.toNat), (2, w.subsystem.toNat), (2, w.dllCharacteristics.toNat),
    (wordSize, w.stackReserve.toNat), (wordSize, w.stackCommit.toNat),
    (wordSize, w.heapReserve.toNat), (wordSize, w.heapCommit.toNat), (4, w.loaderFlags.toNat),
    (4, w.directoryCount.toNat)]

end WindowsFields

namespace OptionalHeader

/-- The fixed part, magic number included. The 32-bit layout has the base of the data and takes four
bytes where the 64-bit layout takes eight. -/
def fields (h : OptionalHeader) : List (Nat × Nat) :=
  match h.format with
  | .pe32 =>
    (2, 0x10B) :: h.standard.fields ++ (4, h.dataBase.toNat) :: h.windows.fields 4
  | .pe32Plus => (2, 0x20B) :: h.standard.fields ++ h.windows.fields 8

theorem encode_eq_written (h : OptionalHeader) : h.encode = written h.fields := by
  cases h with
  | pe32 standard dataBase windows =>
    -- A widened word still fits into the four bytes that it was read from.
    rfl
  | pe32Plus standard windows => rfl

end OptionalHeader

/-- A directory that is not in use is written as eight zero bytes. -/
def DataDirectory.fields : Option DataDirectory → List (Nat × Nat)
  | some d => [(4, d.rva.toNat), (4, d.size.toNat)]
  | none => [(8, 0)]

namespace SectionEntry

def fields (e : SectionEntry) : List (Nat × Nat) :=
  e.name.toList.map (fun byte => (1, byte.toNat)) ++
  [(4, e.placement.virtualSize.toNat), (4, e.placement.virtualAddress.toNat),
    (4, e.placement.rawSize.toNat), (4, e.placement.rawPointer.toNat), (4, e.relocations.toNat),
    (4, e.lineNumbers.toNat), (2, e.relocationCount.toNat), (2, e.lineNumberCount.toNat),
    (4, e.characteristics.toNat)]

theorem encode_eq_written (e : SectionEntry) : FixedWidth.encode e = written e.fields := by
  have hName : written (e.name.toList.map fun byte => (1, byte.toNat)) = FixedWidth.encode e.name :=
    List.flatMap_map ..
  rw [fields, written_append, hName]
  rfl

end SectionEntry

/-! ## What is written back stands in the image -/

theorem OptionalHeader.slice?_eq_encode_valueAt {format : Format} {data : Bytes} {offset : Nat}
    (hMagic : FixedWidth.valueAt UInt16 data offset = format.magic)
    (hFits : offset + format.fixedSize ≤ data.length) :
    data.slice? offset format.fixedSize = some (valueAt format data offset).encode := by
  cases format with
  | pe32 =>
    have hSlice := @FixedWidth.slice?_eq_encode_valueAt
      (UInt16 × StandardFields × UInt32 × WindowsFields UInt32) _ data offset _ rfl hFits
    simp only [FixedWidth.valueAt_pair, hMagic] at hSlice
    exact hSlice
  | pe32Plus =>
    have hSlice := @FixedWidth.slice?_eq_encode_valueAt
      (UInt16 × StandardFields × WindowsFields UInt64) _ data offset _ rfl hFits
    simp only [FixedWidth.valueAt_pair, hMagic] at hSlice
    exact hSlice

/-- A directory that is not in use has zeros for its fields. -/
theorem DataDirectory.encode_eq_written (d : DataDirectory) :
    FixedWidth.encode d = written (fields ((some d).filter (!·.isUnused))) := by
  by_cases hUnused : d.isUnused = true
  · obtain ⟨hRva, hSize⟩ : d.rva = 0 ∧ d.size = 0 := by simpa [isUnused] using hUnused
    rw [Option.filter_some, if_neg (by simp [hUnused])]
    show leBytes 4 d.rva.toNat ++ leBytes 4 d.size.toNat = _
    rw [hRva, hSize]
    rfl
  · rw [Option.filter_some, if_pos (by simpa using hUnused)]
    rfl

namespace Headers

/-- Written back, headers give the bytes of the image at their offsets, apart from a header offset
that was put in. The directories end before the section table begins, and the table has as many
sections as the file header says. -/
structure Reproduces (options : Options) (image : Bytes) (headers : Headers) : Prop where
  dos : written headers.dos.fields =
    if AssumesOffset options image then image.take 0x3C ++ [0x80, 0, 0, 0] else image.take 0x40
  coff : image.slice? (headers.peOffset + 4) 20 = some (written headers.coff.fields)
  optional : image.slice? (headers.peOffset + 24) headers.format.fixedSize =
    some (written headers.optional.fields)
  directory : ∀ index < headers.optional.directoryCount.toNat,
    image.slice? (headers.peOffset + 24 + headers.format.fixedSize + 8 * index) 8 =
      some (written (DataDirectory.fields (headers.directory? index)))
  undeclared : ∀ index, headers.optional.directoryCount.toNat ≤ index →
    headers.directory? index = none
  directoriesEnd : headers.peOffset + 24 + headers.format.fixedSize +
      8 * headers.optional.directoryCount.toNat ≤
    headers.peOffset + 24 + headers.coff.optionalHeaderSize.toNat
  sectionCount : headers.sections.length = headers.coff.sectionCount.toNat
  entry : ∀ (index : Nat) (h : index < headers.sections.length),
    image.slice? (headers.peOffset + 24 + headers.coff.optionalHeaderSize.toNat + 40 * index) 40 =
      some (written headers.sections[index].entry.fields)

variable {options : Options} {image : Bytes}

theorem written_dosHeader (h : 64 ≤ image.length) :
    written (dosHeader options image).fields =
      if AssumesOffset options image then image.take 0x3C ++ [0x80, 0, 0, 0]
      else image.take 0x40 := by
  have hSlice : (assumed options image).slice? 0 64 =
      some (FixedWidth.encode (dosHeader options image)) :=
    FixedWidth.slice?_eq_encode_valueAt rfl (by rw [length_assumed]; exact h)
  obtain ⟨-, hBytes⟩ := Bytes.slice?_eq_some_iff.1 hSlice
  rw [← DosHeader.encode_eq_written, ← hBytes, List.drop_zero]
  unfold assumed
  split
  · have hPatch : (FixedWidth.encode DosHeader.usualPeOffset).take
        (image.length - DosHeader.peOffsetField) = [0x80, 0, 0, 0] :=
      List.take_of_length_le (by show 4 ≤ image.length - 0x3C; omega)
    rw [Bytes.overwrite, hPatch]
    apply List.take_left'
    rw [List.length_append, List.length_take]
    show min 0x3C image.length + 4 = 64
    omega
  · rfl

theorem directory?_standing (index : Nat) :
    (standing options (.ofBytes image)).directory? index =
      if index < (directoryCount options image).toNat then
        (some (valueAt DataDirectory image (directoryOffset options image + 8 * index))).filter
          (!·.isUnused)
      else none := by
  have hDirectories : (standing options (.ofBytes image)).directories =
      directoriesOf options image := rfl
  rw [directory?, hDirectories, directoriesOf, List.getElem?_map]
  by_cases hDeclared : index < (directoryCount options image).toNat
  · rw [if_pos hDeclared, List.getElem?_range hDeclared]
    rfl
  · rw [if_neg hDeclared, List.getElem?_eq_none (by rw [List.length_range]; omega)]
    rfl

theorem map_entry_standing :
    (standing options (.ofBytes image)).sections.map (·.entry) = entriesOf options image := by
  show ((entriesOf options image).map _).map _ = _
  rw [List.map_map]
  exact List.map_id _

/-- Whatever the headers declare, what is read is what stands in the image. -/
theorem reproduces_standing (h : WellFormed options image) :
    Reproduces options image (standing options (.ofBytes image)) := by
  have hTable := h.table
  have hDirectories := h.directories
  have hTableEnd : tableEnd options image = signatureOffset options image + 24 +
    (optionalSize options image).toNat + 40 * (sectionCount options image).toNat := rfl
  have hPeOffset : (standing options (.ofBytes image)).peOffset = signatureOffset options image :=
    dosHeader_peOffset h.dosHeader
  have hFormat : (standing options (.ofBytes image)).format = Layout.format options image :=
    optionalHeader_format
  have hCount : (standing options (.ofBytes image)).optional.directoryCount =
      directoryCount options image := optionalHeader_directoryCount
  have hSize : (standing options (.ofBytes image)).coff.optionalHeaderSize =
      optionalSize options image := optionalSize_fileHeader
  have hSections : (standing options (.ofBytes image)).sections.length =
      (sectionCount options image).toNat := by
    rw [← List.length_map, map_entry_standing, entriesOf, List.length_map, List.length_range]
  constructor
  case dos => exact written_dosHeader h.dosHeader
  case coff =>
    rw [hPeOffset, ← CoffHeader.encode_eq_written]
    exact FixedWidth.slice?_eq_encode_valueAt rfl h.fileHeader
  case optional =>
    rw [hPeOffset, hFormat, ← OptionalHeader.encode_eq_written]
    exact OptionalHeader.slice?_eq_encode_valueAt (magic_eq_iff.2 h.magic) (by omega)
  case directory =>
    intro index hIndex
    rw [hCount] at hIndex
    rw [hPeOffset, hFormat, directory?_standing, if_pos hIndex, ← DataDirectory.encode_eq_written]
    exact FixedWidth.slice?_eq_encode_valueAt rfl (by omega)
  case undeclared =>
    intro index hIndex
    rw [hCount] at hIndex
    rw [directory?_standing, if_neg (Nat.not_lt.2 hIndex)]
  case directoriesEnd =>
    rw [hFormat, hCount, hSize]
    omega
  case sectionCount =>
    rw [hSections]
    exact congrArg UInt16.toNat sectionCount_fileHeader.symm
  case entry =>
    intro index hIndex
    rw [hSections] at hIndex
    have hEntry : (standing options (.ofBytes image)).sections[index].entry =
        entry options image index := by
      rw [← List.getElem_map Section.entry]
      · simp only [map_entry_standing, entriesOf, List.getElem_map, List.getElem_range]
      · rw [List.length_map, hSections]
        exact hIndex
    rw [hPeOffset, hSize, hEntry, ← SectionEntry.encode_eq_written]
    exact FixedWidth.slice?_eq_encode_valueAt rfl (by omega)

/-- Headers that have been read, wherever the cursor stood, can be written back over the image. -/
theorem reproduces_of_read {position : Nat} {headers : Headers}
    (h : ((read options).run ⟨image, position⟩).outcome = .ok headers) :
    Reproduces options image headers := by
  rw [((read options).run_bytes image position).1, yields_read position] at h
  obtain ⟨hWell, -, -, rfl⟩ := ofImage_eq_ok_iff.1 h
  exact reproduces_standing hWell

/-- Two images: one with a header offset that has to be put in, and one with directories. -/
theorem reproduces_of_read_specimens :
    ((read .standard).outcome offsetless = .ok (standing .standard (.ofBytes offsetless)) ∧
      written (dosHeader .standard offsetless).fields = offsetless.take 0x3C ++ [0x80, 0, 0, 0] ∧
      Reproduces .standard offsetless (standing .standard (.ofBytes offsetless))) ∧
    (read .strict).outcome specimen = .ok (standing .strict (.ofBytes specimen)) ∧
      Reproduces .strict specimen (standing .strict (.ofBytes specimen)) := by
  have hAssumes : AssumesOffset .standard offsetless := by decide +kernel
  have hRead : (read .strict).outcome specimen = .ok (standing .strict (.ofBytes specimen)) := by
    decide +kernel
  have hOffsetless := reproduces_of_read read_offsetless
  have hDos := hOffsetless.dos
  rw [if_pos hAssumes] at hDos
  exact ⟨⟨read_offsetless, hDos, hOffsetless⟩, hRead, reproduces_of_read hRead⟩

end Headers

end ManagedImage
