/-!
# Reading options

How tolerant a read is. `Options.standard` accepts what loaders accept within a sane section count,
`Options.lenient` lifts that count to the most that the field can hold, and `Options.strict` also
insists on a well-formed runtime header and on a header offset that is written down.
-/

namespace ManagedImage

structure Options where
  /-- Check the size, version and flags of the runtime header. -/
  strictRuntimeHeader : Bool
  /-- The largest section count that is accepted. -/
  maxSections : UInt16
  /-- Take a header offset of zero for the usual one. -/
  zeroOffsetFallback : Bool
  deriving DecidableEq, Repr

namespace Options

def standard : Options := ⟨false, 96, true⟩

def lenient : Options := ⟨false, 65535, true⟩

def strict : Options := ⟨true, 96, false⟩

end Options

end ManagedImage
