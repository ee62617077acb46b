import ManagedImage.FixedWidth

/-!
# The DOS header

An image starts with the 64-byte header of a DOS program. Its last field leads to the signature of
the portable executable; everything else in it only matters to DOS.
-/

namespace ManagedImage

/-- The DOS header, with its fields in the order of the file. -/
structure DosHeader where
  signature : UInt16
  bytesOnLastPage : UInt16
  pagesInFile : UInt16
  relocations : UInt16
  headerParagraphs : UInt16
  minimumExtraParagraphs : UInt16
  maximumExtraParagraphs : UInt16
  initialSs : UInt16
  initialSp : UInt16
  checksum : UInt16
  initialIp : UInt16
  initialCs : UInt16
  relocationTable : UInt16
  overlayNumber : UInt16
  reserved : Vector UInt16 4
  oemId : UInt16
  oemInfo : UInt16
  reserved2 : Vector UInt16 10
  /-- Where the signature of the portable executable stands. -/
  peOffset : UInt32
  deriving DecidableEq, Repr

namespace DosHeader

/-- The size of the header, and the lowest offset that a signature may have. -/
def size : Nat := 0x40

/-- Where the field `peOffset` stands. -/
def peOffsetField : Nat := 0x3C

/-- The letters `MZ`. -/
def magic : UInt16 := 0x5A4D

/-- Where linkers usually put the signature of the portable executable. -/
def usualPeOffset : UInt32 := 0x80

instance : FixedWidth DosHeader :=
  .via
    (fun (signature, lastPage, pages, relocations, header, minimum, maximum, ss, sp, checksum, ip,
        cs, table, overlay, reserved, oemId, oemInfo, reserved2, peOffset) =>
      (⟨signature, lastPage, pages, relocations, header, minimum, maximum, ss, sp, checksum, ip,
        cs, table, overlay, reserved, oemId, oemInfo, reserved2, peOffset⟩ : DosHeader))
    (fun h => (h.signature, h.bytesOnLastPage, h.pagesInFile, h.relocations, h.headerParagraphs,
      h.minimumExtraParagraphs, h.maximumExtraParagraphs, h.initialSs, h.initialSp, h.checksum,
      h.initialIp, h.initialCs, h.relocationTable, h.overlayNumber, h.reserved, h.oemId, h.oemInfo,
      h.reserved2, h.peOffset))
    (fun _ => rfl) (fun _ => rfl)

end DosHeader

end ManagedImage
