import ManagedImage.Header.Directory

/-!
# The optional header

A magic number selects one of two layouts. They differ in three ways: the 32-bit layout has a field
for the base of the data, and it stores the image base and the four stack and heap sizes in four
bytes where the 64-bit layout takes eight. `WindowsFields` has the width of these as a parameter.

The fixed part is 96 bytes in one layout and 112 in the other (`Format.fixedSize`); the directories
follow it and must end within the size that the file header declares (`checkDirectories`).
-/

namespace ManagedImage

/-! ## Formats -/

/-- The layout of an image. -/
inductive Format
  | pe32
  | pe32Plus
  deriving DecidableEq, Repr

namespace Format

def all : List Format := [pe32, pe32Plus]

def name : Format → String
  | pe32 => "PE32"
  | pe32Plus => "PE32Plus"

/-- The magic number at the start of the optional header. -/
def magic : Format → UInt16
  | pe32 => 0x10B
  | pe32Plus => 0x20B

def ofMagic? (magic : UInt16) : Option Format :=
  if magic = 0x10B then some pe32 else if magic = 0x20B then some pe32Plus else none

/-- The size of the optional header up to the directories. -/
def fixedSize : Format → Nat
  | pe32 => 96
  | pe32Plus => 112

theorem ofMagic?_eq_some_iff {magic : UInt16} {format : Format} :
    ofMagic? magic = some format ↔ magic = format.magic := by
  unfold ofMagic?
  cases format <;> simp only [Format.magic] <;> repeat' split
  all_goals simp_all

end Format

/-- Checks that `count` directories end within an optional header of the declared size. -/
def checkDirectories (format : Format) (count : UInt32) (headerSize : UInt16) : Except Error Unit :=
  if format.fixedSize + count.toNat * FixedWidth.width DataDirectory ≤ headerSize.toNat then .ok ()
  else .error (.malformed (.directoriesOverrun headerSize.toNat count.toNat))

theorem checkDirectories_eq_ok_iff {format : Format} {count : UInt32} {headerSize : UInt16} :
    checkDirectories format count headerSize = .ok () ↔
      format.fixedSize + count.toNat * 8 ≤ headerSize.toNat := by
  unfold checkDirectories
  rw [show FixedWidth.width DataDirectory = 8 from rfl]
  split <;> simp_all

/-! ## Fields -/

/-- A version number in two parts. -/
structure Version (α : Type) where
  major : α
  minor : α
  deriving DecidableEq, Repr

instance {α : Type} [FixedWidth α] : FixedWidth (Version α) :=
  .via (fun (major, minor) => (⟨major, minor⟩ : Version α)) (fun v => (v.major, v.minor))
    (fun _ => rfl) (fun _ => rfl)

/-- The fields behind the magic number that both layouts share. -/
structure StandardFields where
  linker : Version UInt8
  codeSize : UInt32
  initializedDataSize : UInt32
  uninitializedDataSize : UInt32
  entryPoint : UInt32
  codeBase : UInt32
  deriving DecidableEq, Repr

instance : FixedWidth StandardFields :=
  .via
    (fun (linker, code, initialized, uninitialized, entryPoint, codeBase) =>
      (⟨linker, code, initialized, uninitialized, entryPoint, codeBase⟩ : StandardFields))
    (fun s => (s.linker, s.codeSize, s.initializedDataSize, s.uninitializedDataSize, s.entryPoint,
      s.codeBase))
    (fun _ => rfl) (fun _ => rfl)

/-- The fields for the loader; addresses and sizes in memory are of type `Word`. -/
structure WindowsFields (Word : Type) where
  imageBase : Word
  sectionAlignment : UInt32
  fileAlignment : UInt32
  operatingSystemVersion : Version UInt16
  imageVersion : Version UInt16
  subsystemVersion : Version UInt16
  win32Version : UInt32
  imageSize : UInt32
  headersSize : UInt32
  checksum : UInt32
  subsystem : UInt16
  dllCharacteristics : UInt16
  stackReserve : Word
  stackCommit : Word
  heapReserve : Word
  heapCommit : Word
  loaderFlags : UInt32
  directoryCount : UInt32
  deriving DecidableEq, Repr

instance {Word : Type} [FixedWidth Word] : FixedWidth (WindowsFields Word) :=
  .via
    (fun (base, sectionAlignment, fileAlignment, os, image, subsystemVersion, win32, imageSize,
        headersSize, checksum, subsystem, dll, stackReserve, stackCommit, heapReserve, heapCommit,
        loader, directories) =>
      (⟨base, sectionAlignment, fileAlignment, os, image, subsystemVersion, win32, imageSize,
        headersSize, checksum, subsystem, dll, stackReserve, stackCommit, heapReserve, heapCommit,
        loader, directories⟩ : WindowsFields Word))
    (fun w => (w.imageBase, w.sectionAlignment, w.fileAlignment, w.operatingSystemVersion,
      w.imageVersion, w.subsystemVersion, w.win32Version, w.imageSize, w.headersSize, w.checksum,
      w.subsystem, w.dllCharacteristics, w.stackReserve, w.stackCommit, w.heapReserve,
      w.heapCommit, w.loaderFlags, w.directoryCount))
    (fun _ => rfl) (fun _ => rfl)

/-! ## The header -/

/-- The fixed part of the optional header, in the layout of its format. -/
inductive OptionalHeader
  | pe32 (standard : StandardFields) (dataBase : UInt32) (windows : WindowsFields UInt32)
  | pe32Plus (standard : StandardFields) (windows : WindowsFields UInt64)
  deriving DecidableEq, Repr

namespace OptionalHeader

def format : OptionalHeader → Format
  | pe32 .. => .pe32
  | pe32Plus .. => .pe32Plus

def standard : OptionalHeader → StandardFields
  | pe32 standard _ _ => standard
  | pe32Plus standard _ => standard

/-- The base of the data; the 64-bit layout has none. -/
def dataBase : OptionalHeader → UInt32
  | pe32 _ dataBase _ => dataBase
  | pe32Plus .. => 0

/-- The fields for the loader, with the 32-bit ones widened. -/
def windows : OptionalHeader → WindowsFields UInt64
  | pe32 _ _ windows =>
    { windows with
      imageBase := windows.imageBase.toUInt64
      stackReserve := windows.stackReserve.toUInt64
      stackCommit := windows.stackCommit.toUInt64
      heapReserve := windows.heapReserve.toUInt64
      heapCommit := windows.heapCommit.toUInt64 }
  | pe32Plus _ windows => windows

/-- The number of directories that the header declares. -/
def directoryCount : OptionalHeader → UInt32
  | pe32 _ _ windows => windows.directoryCount
  | pe32Plus _ windows => windows.directoryCount

/-- The bytes of the fixed part, magic number included. -/
def encode : OptionalHeader → Bytes
  | pe32 standard dataBase windows =>
    FixedWidth.encode (Format.pe32.magic, standard, dataBase, windows)
  | pe32Plus standard windows => FixedWidth.encode (Format.pe32Plus.magic, standard, windows)

/-- Reads the fixed part at an offset. -/
def read (data : Bytes) (offset : Nat) : Except Error OptionalHeader := do
  let magic : UInt16 ← FixedWidth.read data offset
  match Format.ofMagic? magic with
  | none => .error (.malformed (.magic magic.toNat))
  | some .pe32 =>
    let (_, standard, dataBase, windows) :
      UInt16 × StandardFields × UInt32 × WindowsFields UInt32 ← FixedWidth.read data offset
    return pe32 standard dataBase windows
  | some .pe32Plus =>
    let (_, standard, windows) :
      UInt16 × StandardFields × WindowsFields UInt64 ← FixedWidth.read data offset
    return pe32Plus standard windows

/-- Reads the declared directories behind the fixed part of a header at an offset. -/
def readDirectories (header : OptionalHeader) (data : Bytes) (offset : Nat) :
    Except Error (List DataDirectory) :=
  let count := header.directoryCount.toNat
  if DataDirectory.maxCount < count then
    .error (.malformed (.entity (.tooManyDirectories count)))
  else do
    let declared : Vector DataDirectory count ←
      FixedWidth.read data (offset + header.format.fixedSize)
    return declared.toList

end OptionalHeader

end ManagedImage
