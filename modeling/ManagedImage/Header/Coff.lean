import ManagedImage.FixedWidth

/-!
# The file header

Behind the signature of the portable executable stands the 20-byte COFF file header. It fixes where
everything else begins: the optional header follows it directly, the section table follows the
optional header, and one entry of that table follows the other.

`CoffHeader.tableEnd_lt` bounds all of these offsets, far below the 64 bits of a file position.
-/

namespace ManagedImage

/-- The COFF file header, with its fields in the order of the file. -/
structure CoffHeader where
  machine : UInt16
  sectionCount : UInt16
  timeDateStamp : UInt32
  symbolTable : UInt32
  symbolCount : UInt32
  optionalHeaderSize : UInt16
  characteristics : UInt16
  deriving DecidableEq, Repr

/-- The letters `PE` and two zero bytes. -/
def peSignature : UInt32 := 0x4550

namespace CoffHeader

/-- The size of the signature and the file header behind it. -/
def signedSize : Nat := 24

/-- The size of one entry of the section table. -/
def sectionEntrySize : Nat := 40

/-- The size of one entry of the symbol table. -/
def symbolEntrySize : Nat := 18

/-- The largest optional header with all of its directories. -/
def largestOptionalHeader : Nat := 112 + 16 * 8

instance : FixedWidth CoffHeader :=
  .via
    (fun (machine, sections, stamp, symbols, symbolCount, optionalSize, characteristics) =>
      (⟨machine, sections, stamp, symbols, symbolCount, optionalSize, characteristics⟩ :
        CoffHeader))
    (fun h => (h.machine, h.sectionCount, h.timeDateStamp, h.symbolTable, h.symbolCount,
      h.optionalHeaderSize, h.characteristics))
    (fun _ => rfl) (fun _ => rfl)

/-- Where the optional header begins, for a signature at `peOffset`. -/
def optionalOffset (peOffset : Nat) : Nat := peOffset + signedSize

/-- Where the section table begins. -/
def tableOffset (peOffset : Nat) (coff : CoffHeader) : Nat :=
  optionalOffset peOffset + coff.optionalHeaderSize.toNat

/-- Where the section table ends. -/
def tableEnd (peOffset : Nat) (coff : CoffHeader) : Nat :=
  tableOffset peOffset coff + coff.sectionCount.toNat * sectionEntrySize

/-- Where the largest optional header would end. -/
def optionalEnd (peOffset : Nat) : Nat := optionalOffset peOffset + largestOptionalHeader

/-- Where the string table begins: behind the symbols. -/
def stringTable (coff : CoffHeader) : Nat :=
  coff.symbolTable.toNat + symbolEntrySize * coff.symbolCount.toNat

theorem tableEnd_lt (peOffset : UInt32) (coff : CoffHeader) :
    tableEnd peOffset.toNat coff < 0x200000000 := by
  have hOffset := peOffset.toNat_lt
  have hSize := coff.optionalHeaderSize.toNat_lt
  have hCount := coff.sectionCount.toNat_lt
  simp only [tableEnd, tableOffset, optionalOffset, signedSize, sectionEntrySize]
  omega

end CoffHeader

end ManagedImage
