import ManagedImage.FixedWidth
import ManagedImage.Header.Coff
import ManagedImage.Section.Name
import ManagedImage.Section.Placement

/-!
# The section table

The section table holds an entry of 40 bytes for each section. `Section.readTable` reads it and
looks long names up; the sections come in the order of the table, one for each entry.
-/

namespace ManagedImage

/-- An entry of the section table, with its fields in the order of the file. -/
structure SectionEntry where
  name : Vector UInt8 8
  placement : Placement
  relocations : UInt32
  lineNumbers : UInt32
  relocationCount : UInt16
  lineNumberCount : UInt16
  characteristics : UInt32
  deriving DecidableEq, Repr

instance : FixedWidth SectionEntry :=
  .via
    (fun (name, placement, relocations, lineNumbers, relocationCount, lineNumberCount,
        characteristics) =>
      (⟨name, placement, relocations, lineNumbers, relocationCount, lineNumberCount,
        characteristics⟩ : SectionEntry))
    (fun e => (e.name, e.placement, e.relocations, e.lineNumbers, e.relocationCount,
      e.lineNumberCount, e.characteristics))
    (fun _ => rfl) (fun _ => rfl)

/-- A section: its entry, and its long name if it has one. -/
structure Section where
  entry : SectionEntry
  longName : Option String
  deriving DecidableEq, Repr

namespace Section

/-- The name of a section, if it is text. -/
def name? (s : Section) : Option String :=
  match s.longName with
  | some name => some name
  | none => (Bytes.untilNul s.entry.name.toList).text?

/-- The section that an entry describes. -/
def ofEntry (data : Bytes) (stringTable : Nat) (entry : SectionEntry) : Except Error Section := do
  return ⟨entry, ← SectionName.longName? data stringTable entry.name.toList⟩

/-- Reads `count` sections from the table at an offset. -/
def readTable (data : Bytes) (offset count stringTable : Nat) : Except Error (List Section) :=
  if data.length / CoffHeader.sectionEntrySize < count then .error .outOfBounds
  else do
    let entries : Vector SectionEntry count ← FixedWidth.read data offset
    entries.toList.mapM (ofEntry data stringTable)

end Section

end ManagedImage
