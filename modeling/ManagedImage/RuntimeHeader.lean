import ManagedImage.Procedure
import ManagedImage.RuntimeFlags

/-!
# The runtime header

The runtime header of a managed image begins with its size, the version of the runtime that it
needs, the place of the metadata, and the runtime flags. These 20 bytes are read field by field at
the position of a cursor: on a truncated image the cursor is left at the first field that does not
fit.

`RuntimeHeader.check` is the strict check of the values: size, version and flags.
-/

namespace ManagedImage

/-- The leading fields of the runtime header, in the order of the file. -/
structure RuntimeHeader where
  size : UInt32
  version : Version UInt16
  metadata : DataDirectory
  flags : RuntimeFlags
  deriving DecidableEq, Repr

namespace RuntimeHeader

/-- The size that a whole runtime header has. -/
def fullSize : UInt32 := 72

instance : FixedWidth RuntimeHeader :=
  .via
    (fun (size, version, metadata, flags) =>
      (⟨size, version, metadata, ⟨flags⟩⟩ : RuntimeHeader))
    (fun h => (h.size, h.version, h.metadata, h.flags.bits))
    (fun _ => rfl) (fun _ => rfl)

/-- Reads the header at the position, one field after the other. -/
def read : Procedure RuntimeHeader := do
  let size ← Procedure.value UInt32
  let major ← Procedure.value UInt16
  let minor ← Procedure.value UInt16
  let metadataRva ← Procedure.value UInt32
  let metadataSize ← Procedure.value UInt32
  let flags ← Procedure.value UInt32
  return ⟨size, ⟨major, minor⟩, ⟨metadataRva, metadataSize⟩, ⟨flags⟩⟩

/-- Accepts a header of the full size, for a runtime with a version, with defined flags only. -/
def check (header : RuntimeHeader) : Except Error Unit :=
  if header.size ≠ fullSize then
    .error (.malformed (.runtimeHeaderSize fullSize.toNat header.size.toNat))
  else if header.version.major = 0 then .error (.malformed .noRuntimeVersion)
  else if !header.flags.isKnown then
    .error (.malformed (.undefinedFlags header.flags.bits.toNat header.flags.unknownBits.toNat))
  else .ok ()

theorem width_eq : FixedWidth.width RuntimeHeader = 20 := rfl

theorem check_eq_ok_iff {header : RuntimeHeader} :
    header.check = .ok () ↔
      header.size = 72 ∧ header.version.major ≠ 0 ∧ header.flags.unknownBits = 0 := by
  unfold check fullSize RuntimeFlags.isKnown
  repeat' split
  all_goals simp_all

end RuntimeHeader

end ManagedImage
