import ManagedImage.FixedWidth

/-!
# Data directories

The optional header ends in an array of up to sixteen directories, each the address and the size of
a table somewhere in the loaded image. Number fourteen is the runtime header of a managed image.
-/

namespace ManagedImage

/-- Where a table lies in the loaded image. -/
structure DataDirectory where
  rva : UInt32
  size : UInt32
  deriving DecidableEq, Repr

namespace DataDirectory

/-- The most directories that an optional header can declare. -/
def maxCount : Nat := 16

/-- The number of the runtime header's directory. -/
def runtimeHeaderIndex : Nat := 14

instance : FixedWidth DataDirectory :=
  .via (fun (rva, size) => (⟨rva, size⟩ : DataDirectory)) (fun d => (d.rva, d.size))
    (fun _ => rfl) (fun _ => rfl)

/-- A directory is present when it has an address and a size. -/
def isPresent (d : DataDirectory) : Bool := d.rva != 0 && d.size != 0

/-- A directory is unused when it has neither. -/
def isUnused (d : DataDirectory) : Bool := d.rva == 0 && d.size == 0

/-- The runtime header's directory, if the declared directories reach it and it is present. -/
def runtimeHeader? (declared : List DataDirectory) : Option DataDirectory :=
  declared[runtimeHeaderIndex]?.filter isPresent

theorem isPresent_iff {d : DataDirectory} : d.isPresent = true ↔ d.rva ≠ 0 ∧ d.size ≠ 0 := by
  simp [isPresent]

end DataDirectory

end ManagedImage
