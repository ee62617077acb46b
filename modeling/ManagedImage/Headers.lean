import ManagedImage.Header.Dos
import ManagedImage.Header.Stub
import ManagedImage.Options
import ManagedImage.Procedure

/-!
# The headers of an image

The headers lie at the front of an image, and each tells where the next one ends. They are copied
out of the source into a buffer that grows stage by stage and never beyond the size of the source,
so a bogus offset or count shows as a truncated image.

* `HeaderBuffer.extend` copies the bytes up to an offset that are still missing.
* `Headers.readDos` and `Headers.readCoff` fill the buffer; `Headers.decodeOptional` and
  `Headers.decodeSections` decode the rest of it. `Headers.read` joins these stages and writes the
  log records between them.
* `Headers.offsetOf` translates an address through the section table.
-/

namespace ManagedImage

/-! ## The buffer -/

/-- The front of an image, and the size of its source. -/
structure HeaderBuffer where
  bytes : Bytes
  limit : Nat
  deriving DecidableEq, Repr

/-- Makes the buffer reach up to `stop`. -/
def HeaderBuffer.extend (buffer : HeaderBuffer) (stop : Nat) : Procedure HeaderBuffer :=
  if stop ≤ buffer.bytes.length then return buffer
  else if buffer.limit < stop then Procedure.fail .outOfBounds
  else do
    Procedure.seekTo buffer.bytes.length
    let more ← Procedure.take (stop - buffer.bytes.length)
    return { buffer with bytes := buffer.bytes ++ more }

/-! ## The headers -/

/-- All headers of an image, and its section table. -/
structure Headers where
  dos : DosHeader
  coff : CoffHeader
  optional : OptionalHeader
  /-- The directories that the optional header declares. -/
  directories : List DataDirectory
  sections : List Section
  deriving DecidableEq, Repr

namespace Headers

/-- Where the signature of the portable executable stands. -/
def peOffset (headers : Headers) : Nat := headers.dos.peOffset.toNat

def format (headers : Headers) : Format := headers.optional.format

/-- A declared directory, if it is in use. -/
def directory? (headers : Headers) (index : Nat) : Option DataDirectory :=
  headers.directories[index]?.filter (!·.isUnused)

/-- The end of a directory's entry, counted from the start of the optional header. -/
def directoryEnd (headers : Headers) (index : Nat) : Nat :=
  headers.format.fixedSize + (index + 1) * FixedWidth.width DataDirectory

/-- The directory of the runtime header, if the image has one. -/
def runtimeDirectory? (headers : Headers) : Option DataDirectory :=
  DataDirectory.runtimeHeader? headers.directories

/-- The offset in the file of an address in the loaded image. -/
def offsetOf (headers : Headers) (rva : UInt32) : Except Error Nat :=
  Placement.offsetOf (headers.sections.map (·.entry.placement)) rva

/-- Reads the DOS header. Where the offset of the signature is zero and the options allow it, the
usual offset is put in its place, in the header and in the buffer. -/
def readDos (options : Options) : Procedure (DosHeader × HeaderBuffer) := do
  let limit ← Procedure.sourceSize
  let buffer ← HeaderBuffer.extend ⟨[], limit⟩ DosHeader.size
  let dos : DosHeader ← FixedWidth.read buffer.bytes 0
  if dos.signature ≠ DosHeader.magic then
    Procedure.fail (.malformed (.dosSignature DosHeader.magic.toNat dos.signature.toNat))
  else if dos.peOffset = 0 ∧ options.zeroOffsetFallback then do
    Procedure.log [.zeroOffset]
    let patch := FixedWidth.encode DosHeader.usualPeOffset
    return ({ dos with peOffset := DosHeader.usualPeOffset },
      { buffer with bytes := buffer.bytes.overwrite DosHeader.peOffsetField patch })
  else return (dos, buffer)

/-- Reads the signature and the file header, and extends the buffer up to the end of the section
table and, as far as the source goes, of the largest optional header. -/
def readCoff (options : Options) (dos : DosHeader) (buffer : HeaderBuffer) :
    Procedure (CoffHeader × HeaderBuffer) := do
  let peOffset := dos.peOffset.toNat
  let buffer ← buffer.extend (CoffHeader.optionalOffset peOffset)
  let signature : UInt32 ← FixedWidth.read buffer.bytes peOffset
  if signature ≠ peSignature then
    Procedure.fail (.malformed (.entity (.signature signature.toNat)))
  else
    let coff : CoffHeader ← FixedWidth.read buffer.bytes (peOffset + FixedWidth.width UInt32)
    Procedure.log [.fileHeader peOffset coff.machine coff.sectionCount]
    if options.maxSections < coff.sectionCount then
      Procedure.fail
        (.malformed (.sectionLimit coff.sectionCount.toNat options.maxSections.toNat))
    else
      let buffer ← buffer.extend (coff.tableEnd peOffset)
      let buffer ← buffer.extend (min (CoffHeader.optionalEnd peOffset) buffer.limit)
      return (coff, buffer)

/-- The bytes between the DOS header and the signature. -/
def stub (data : Bytes) (peOffset : Nat) : Bytes :=
  (data.drop DosHeader.size).take (peOffset - DosHeader.size)

/-- Checks that the signature does not lie inside the DOS header, and the form of the stub. -/
def checkStub (data : Bytes) (peOffset : Nat) : Except Error Unit :=
  if peOffset < DosHeader.size then .error (.malformed (.entity (.offsetBeforeStub peOffset)))
  else Stub.check (stub data peOffset)

/-- Decodes the optional header and its directories, and checks that they fit into the size that
the file header declares. -/
def decodeOptional (data : Bytes) (peOffset : Nat) (coff : CoffHeader) :
    Except Error (OptionalHeader × List DataDirectory) := do
  checkStub data peOffset
  if coff.optionalHeaderSize = 0 then throw (.malformed .noOptionalHeader)
  else
    let optional ← OptionalHeader.read data (CoffHeader.optionalOffset peOffset)
    let directories ← optional.readDirectories data (CoffHeader.optionalOffset peOffset)
    checkDirectories optional.format optional.directoryCount coff.optionalHeaderSize
    return (optional, directories)

/-- Decodes the section table. -/
def decodeSections (data : Bytes) (peOffset : Nat) (coff : CoffHeader) :
    Except Error (List Section) :=
  Section.readTable data (coff.tableOffset peOffset) coff.sectionCount.toNat coff.stringTable

/-- Reads all headers of an image. -/
def read (options : Options) : Procedure Headers := do
  let (dos, buffer) ← readDos options
  let (coff, buffer) ← readCoff options dos buffer
  let peOffset := dos.peOffset.toNat
  let (optional, directories) ← decodeOptional buffer.bytes peOffset coff
  Procedure.log [.optionalHeader optional.format optional.directoryCount]
  let sections ← decodeSections buffer.bytes peOffset coff
  Procedure.log (sections.mapIdx .sectionRead)
  return ⟨dos, coff, optional, directories, sections⟩

end Headers

end ManagedImage
