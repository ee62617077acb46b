import ManagedImage.Proofs.Legality
import ManagedImage.Proofs.Records

/-!
# Where the fields of an image stand

The offsets at which the headers of an image lie follow from a few of its fields. `Layout` names
these fields and offsets as functions of the whole image, whether or not the image is long enough to
hold them.

* `Layout.assumed` is the image with the usual header offset put in where none is written down and
  the options allow it. `Layout.agreeOn_assumed`: the headers of the portable executable stand in it
  as they stand in the image.
* `Layout.WellFormed` lists what makes the headers of an image acceptable; `Layout.Framed` leaves
  out what it asks of the names of the sections.
-/

namespace ManagedImage.Layout

open FixedWidth (valueAt)

/-! ## The fields that fix the layout -/

section Definitions

variable (options : Options) (image : Bytes)

/-- The offset of the signature as it is written down. -/
def storedOffset : UInt32 := valueAt UInt32 image 0x3C

/-- No offset is written down, and the usual one is to be taken. -/
def AssumesOffset : Prop := storedOffset image = 0 ∧ options.zeroOffsetFallback

instance : Decidable (AssumesOffset options image) := inferInstanceAs (Decidable (_ ∧ _))

/-- The image, with the usual offset put in if it is to be taken. -/
def assumed : Bytes :=
  if AssumesOffset options image then
    image.overwrite DosHeader.peOffsetField (FixedWidth.encode DosHeader.usualPeOffset)
  else image

/-- Where the signature of the portable executable stands. -/
def signatureOffset : Nat := if AssumesOffset options image then 0x80 else (storedOffset image).toNat

def machine : UInt16 := valueAt UInt16 image (signatureOffset options image + 4)

def sectionCount : UInt16 := valueAt UInt16 image (signatureOffset options image + 6)

/-- The size that the file header declares for the optional header. -/
def optionalSize : UInt16 := valueAt UInt16 image (signatureOffset options image + 20)

/-- Where the section table begins. -/
def tableOffset : Nat := signatureOffset options image + 24 + (optionalSize options image).toNat

/-- Where the section table ends. -/
def tableEnd : Nat := tableOffset options image + 40 * (sectionCount options image).toNat

/-- The magic number at the start of the optional header. -/
def magic : UInt16 := valueAt UInt16 image (signatureOffset options image + 24)

/-- The format of an image whose magic number selects one. -/
def format : Format := if magic options image = 0x20B then .pe32Plus else .pe32

/-- Where the directories begin. -/
def directoryOffset : Nat := signatureOffset options image + 24 + (format options image).fixedSize

/-- The number of directories, which is the last field before them. -/
def directoryCount : UInt32 := valueAt UInt32 image (directoryOffset options image - 4)

/-- The entry of the runtime header, which is there if enough directories are. -/
def runtimeDirectory : DataDirectory :=
  valueAt DataDirectory image (directoryOffset options image + 8 * 14)

/-- Where an entry of the section table stands. -/
def entryOffset (index : Nat) : Nat := tableOffset options image + 40 * index

/-- The eight bytes of a section's name. -/
def sectionName (index : Nat) : Bytes := (image.drop (entryOffset options image index)).take 8

def placement (index : Nat) : Placement :=
  valueAt Placement image (entryOffset options image index + 8)

/-- The placements of all sections, in the order of the table. -/
def placements : List Placement :=
  (List.range (sectionCount options image).toNat).map (placement options image)

/-- The runtime header's directory is declared and in use. -/
def HasRuntimeDirectory : Prop :=
  15 ≤ (directoryCount options image).toNat ∧ (runtimeDirectory options image).rva ≠ 0 ∧
    (runtimeDirectory options image).size ≠ 0

instance : Decidable (HasRuntimeDirectory options image) :=
  inferInstanceAs (Decidable (_ ∧ _))

/-- Where the runtime header stands, by way of the section table. -/
def runtimeOffset : Except Error Nat :=
  Placement.offsetOf (placements options image) (runtimeDirectory options image).rva

/-- The headers of an image are there and have their form, whatever its sections are called. -/
structure Framed : Prop where
  dosHeader : 64 ≤ image.length
  dosMagic : image.take 2 = [0x4D, 0x5A]
  fileHeader : signatureOffset options image + 24 ≤ image.length
  signature : (image.drop (signatureOffset options image)).take 4 = [0x50, 0x45, 0, 0]
  sectionLimit : sectionCount options image ≤ options.maxSections
  table : tableEnd options image ≤ image.length
  magic : magic options image = 0x10B ∨ magic options image = 0x20B
  directoryCount : (directoryCount options image).toNat ≤ 16
  directories : (format options image).fixedSize + 8 * (Layout.directoryCount options image).toNat ≤
    (optionalSize options image).toNat
  behind : 64 ≤ signatureOffset options image
  stub : Stub.Legal (Headers.stub image (signatureOffset options image))

/-- The headers of an image are acceptable. -/
structure WellFormed : Prop extends Framed options image where
  names : ∀ index < (sectionCount options image).toNat,
    SectionName.Legal (sectionName options image index)

/-! ## The records at their offsets -/

/-- The DOS header, with the usual offset if it is to be taken. -/
def dosHeader : DosHeader := valueAt DosHeader (assumed options image) 0

def signature : UInt32 := valueAt UInt32 image (signatureOffset options image)

def fileHeader : CoffHeader := valueAt CoffHeader image (signatureOffset options image + 4)

def optionalHeader : OptionalHeader :=
  .valueAt (format options image) image (signatureOffset options image + 24)

def entry (index : Nat) : SectionEntry := valueAt SectionEntry image (entryOffset options image index)

end Definitions

variable {options : Options} {image : Bytes} {start stop : Nat}

@[simp] theorem length_assumed : (assumed options image).length = image.length := by
  unfold assumed
  split
  · exact Bytes.length_overwrite _ _ _
  · rfl

theorem signatureOffset_lt : signatureOffset options image < 0x100000000 := by
  unfold signatureOffset
  split
  · decide
  · exact (storedOffset image).toNat_lt

/-- Putting in the usual offset changes four bytes of the DOS header, and with it the signature is
taken to lie behind them. -/
theorem agreeOn_assumed (h : stop ≤ 0x3C ∨ 0x40 ≤ start ∨ signatureOffset options image ≤ start) :
    (assumed options image).AgreeOn image start stop := by
  unfold assumed
  split
  · rename_i hAssumes
    have hOffset : signatureOffset options image = 0x80 := if_pos hAssumes
    apply Bytes.agreeOn_overwrite _ _
    rw [show (FixedWidth.encode DosHeader.usualPeOffset).length = 4 from rfl,
      show DosHeader.peOffsetField = 0x3C from rfl]
    omega
  · exact fun i _ _ => rfl

theorem storedOffset_assumed (h : 64 ≤ image.length) :
    (storedOffset (assumed options image)).toNat = signatureOffset options image := by
  unfold assumed signatureOffset
  split
  · have hSlice := @Bytes.slice_overwrite image (FixedWidth.encode DosHeader.usualPeOffset)
      DosHeader.peOffsetField h
    exact congrArg (fun field : Bytes => (FixedWidth.decode field : UInt32).toNat) hSlice
  · rfl

theorem dosHeader_peOffset (h : 64 ≤ image.length) :
    (dosHeader options image).peOffset.toNat = signatureOffset options image := by
  rw [dosHeader, DosHeader.peOffset_valueAt]
  exact storedOffset_assumed h

/-- The other fields of the DOS header are those of the image. -/
theorem dosHeader_eq (h : 64 ≤ image.length) :
    dosHeader options image =
      if AssumesOffset options image then
        { valueAt DosHeader image 0 with peOffset := DosHeader.usualPeOffset }
      else valueAt DosHeader image 0 := by
  have hOffset : valueAt UInt32 (assumed options image) DosHeader.peOffsetField =
      UInt32.ofNat (signatureOffset options image) := by
    rw [← storedOffset_assumed h]
    exact (UInt32.ofNat_toNat).symm
  rw [dosHeader, DosHeader.valueAt_eq_of_agreeOn (agreeOn_assumed (.inl (Nat.le_refl _))), hOffset]
  unfold signatureOffset
  split
  · rfl
  · rw [UInt32.ofNat_toNat, ← show (valueAt DosHeader image 0).peOffset = storedOffset image from
      DosHeader.peOffset_valueAt image 0]

theorem fileHeader_eq :
    fileHeader options image =
      ⟨machine options image, sectionCount options image,
        valueAt UInt32 image (signatureOffset options image + 8),
        valueAt UInt32 image (signatureOffset options image + 12),
        valueAt UInt32 image (signatureOffset options image + 16), optionalSize options image,
        valueAt UInt16 image (signatureOffset options image + 22)⟩ :=
  CoffHeader.valueAt_eq _ _

@[simp] theorem sectionCount_fileHeader :
    (fileHeader options image).sectionCount = sectionCount options image := by
  rw [fileHeader_eq]

@[simp] theorem optionalSize_fileHeader :
    (fileHeader options image).optionalHeaderSize = optionalSize options image := by
  rw [fileHeader_eq]

/-- The fields of the file header stand in the 24 bytes from the signature on. -/
theorem fileFields_eq_of_agreeOn {image' : Bytes}
    (hOffset : signatureOffset options image' = signatureOffset options image)
    (h : image'.AgreeOn image (signatureOffset options image)
      (signatureOffset options image + 24)) :
    machine options image' = machine options image ∧
      sectionCount options image' = sectionCount options image ∧
      optionalSize options image' = optionalSize options image := by
  have hFile : fileHeader options image' = fileHeader options image := by
    rw [fileHeader, fileHeader, hOffset]
    exact (h.mono (Nat.le_add_right _ _) (Nat.le_refl _)).valueAt_eq
  rw [fileHeader_eq, fileHeader_eq] at hFile
  obtain ⟨hMachine, hCount, -, -, -, hSize, -⟩ := CoffHeader.mk.inj hFile
  exact ⟨hMachine, hCount, hSize⟩

@[simp] theorem tableOffset_eq :
    CoffHeader.tableOffset (signatureOffset options image) (fileHeader options image) =
      tableOffset options image := by
  rw [CoffHeader.tableOffset, optionalSize_fileHeader]
  rfl

@[simp] theorem tableEnd_eq :
    CoffHeader.tableEnd (signatureOffset options image) (fileHeader options image) =
      tableEnd options image := by
  rw [CoffHeader.tableEnd, tableOffset_eq, sectionCount_fileHeader]
  exact congrArg _ (Nat.mul_comm _ _)

theorem fileEnd_le_tableEnd : signatureOffset options image + 24 ≤ tableEnd options image :=
  Nat.le_trans (Nat.le_add_right _ _) (Nat.le_add_right _ _)

theorem tableEnd_lt : tableEnd options image < 0x200000000 := by
  have hOffset := @signatureOffset_lt options image
  have hSize := (optionalSize options image).toNat_lt
  have hCount := (sectionCount options image).toNat_lt
  simp only [tableEnd, tableOffset]
  omega

theorem format_eq_of_magic {f : Format} (h : magic options image = f.magic) :
    Layout.format options image = f := by
  unfold Layout.format
  rw [h]
  cases f <;> rfl

theorem magic_eq_iff :
    magic options image = (Layout.format options image).magic ↔
      magic options image = 0x10B ∨ magic options image = 0x20B := by
  constructor
  · intro h
    rw [h]
    cases Layout.format options image
    · exact .inl rfl
    · exact .inr rfl
  · intro h
    rcases h with h | h
    · rw [@format_eq_of_magic _ _ .pe32 h]
      exact h
    · rw [@format_eq_of_magic _ _ .pe32Plus h]
      exact h

@[simp] theorem optionalHeader_format :
    (optionalHeader options image).format = Layout.format options image :=
  OptionalHeader.format_valueAt _ _ _

@[simp] theorem optionalHeader_directoryCount :
    (optionalHeader options image).directoryCount = directoryCount options image := by
  rw [optionalHeader, OptionalHeader.directoryCount_valueAt]
  rfl

@[simp] theorem entry_placement (index : Nat) :
    (entry options image index).placement = placement options image index :=
  SectionEntry.placement_valueAt _ _

theorem entryOffset_add_le {index : Nat} (h : index < (sectionCount options image).toNat) :
    entryOffset options image index + 40 ≤ tableEnd options image := by
  simp only [entryOffset, tableEnd]
  omega

theorem entry_name {index : Nat} (hIndex : index < (sectionCount options image).toNat)
    (hTable : tableEnd options image ≤ image.length) :
    (entry options image index).name.toList = sectionName options image index := by
  have hEntry := entryOffset_add_le hIndex
  exact SectionEntry.name_valueAt _ _ (by omega)

/-- Putting in the usual offset leaves the section table alone. -/
theorem entry_assumed (index : Nat) :
    valueAt SectionEntry (assumed options image) (entryOffset options image index) =
      entry options image index := by
  refine (agreeOn_assumed (.inr (.inr ?_))).valueAt_eq
  simp only [entryOffset, tableOffset]
  omega

end ManagedImage.Layout
