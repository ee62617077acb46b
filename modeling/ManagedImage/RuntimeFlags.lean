import ManagedImage.Text.Hex

/-!
# Runtime flags

The runtime header ends in a word of 32 flag bits, seven of which have a meaning. Unknown bits are
kept: a flag word is its bits, and every operation on it is one on bits.

* `RuntimeFlag` names the seven flags in the order of their declaration.
* `RuntimeFlags.mem_flags_iff`: the named flags of a word are those whose bit is set in it.
-/

namespace ManagedImage

/-- The flags with a meaning. -/
inductive RuntimeFlag
  /-- The image holds intermediate language only. -/
  | ilOnly
  /-- The image can only be loaded into a 32-bit process. -/
  | requires32Bit
  | ilLibrary
  | strongNameSigned
  /-- The entry point is native code. -/
  | nativeEntryPoint
  | trackDebugData
  /-- The image prefers a 32-bit process but can do without. -/
  | prefers32Bit
  deriving DecidableEq, Repr

namespace RuntimeFlag

def all : List RuntimeFlag :=
  [ilOnly, requires32Bit, ilLibrary, strongNameSigned, nativeEntryPoint, trackDebugData,
    prefers32Bit]

/-- The bit that stands for a flag. -/
def mask : RuntimeFlag → UInt32
  | ilOnly => 0x1
  | requires32Bit => 0x2
  | ilLibrary => 0x4
  | strongNameSigned => 0x8
  | nativeEntryPoint => 0x10
  | trackDebugData => 0x10000
  | prefers32Bit => 0x20000

def name : RuntimeFlag → String
  | ilOnly => "ILONLY"
  | requires32Bit => "REQUIRES_32BIT"
  | ilLibrary => "IL_LIBRARY"
  | strongNameSigned => "STRONG_NAME_SIGNED"
  | nativeEntryPoint => "NATIVE_ENTRYPOINT"
  | trackDebugData => "TRACK_DEBUG_DATA"
  | prefers32Bit => "PREFERS_32BIT"

theorem mem_all (flag : RuntimeFlag) : flag ∈ all := by
  cases flag <;> decide

end RuntimeFlag

/-- A word of runtime flags, with all of its 32 bits. -/
structure RuntimeFlags where
  bits : UInt32
  deriving DecidableEq, Repr

namespace RuntimeFlags

/-- Every flag with a meaning. -/
def all : RuntimeFlags := ⟨0x3001F⟩

/-- Every bit of `flags` is set in the word. -/
def contains (word flags : RuntimeFlags) : Bool := word.bits &&& flags.bits == flags.bits

/-- Some bit of `flags` is set in the word. -/
def intersects (word flags : RuntimeFlags) : Bool := word.bits &&& flags.bits != 0

/-- The bit of `flag` is set. -/
def has (word : RuntimeFlags) (flag : RuntimeFlag) : Bool := word.contains ⟨flag.mask⟩

def isEmpty (word : RuntimeFlags) : Bool := word.bits == 0

/-- Every flag with a meaning is set; other bits may be as well. -/
def isAll (word : RuntimeFlags) : Bool := word.contains all

def union (a b : RuntimeFlags) : RuntimeFlags := ⟨a.bits ||| b.bits⟩

def intersection (a b : RuntimeFlags) : RuntimeFlags := ⟨a.bits &&& b.bits⟩

/-- The bits of `a` that are not in `b`. -/
def difference (a b : RuntimeFlags) : RuntimeFlags := ⟨a.bits &&& ~~~b.bits⟩

def symmetricDifference (a b : RuntimeFlags) : RuntimeFlags := ⟨a.bits ^^^ b.bits⟩

/-- The flags with a meaning that are set. -/
def truncate (word : RuntimeFlags) : RuntimeFlags := intersection word all

/-- The flags with a meaning that are not set. -/
def complement (word : RuntimeFlags) : RuntimeFlags := difference all word

/-- The bits without a meaning that are set. -/
def unknownBits (word : RuntimeFlags) : UInt32 := (difference word all).bits

def isKnown (word : RuntimeFlags) : Bool := word.unknownBits == 0

/-- The named flags that are set, in the order of their declaration. -/
def flags (word : RuntimeFlags) : List RuntimeFlag := RuntimeFlag.all.filter word.has

/-- The names of the flags that are set, then the unknown bits in one number if there are any. -/
def parts (word : RuntimeFlags) : List String :=
  word.flags.map RuntimeFlag.name ++
    (if word.isKnown then [] else ["0x" ++ Hex.lower word.unknownBits.toNat])

/-- The word for a reader who looks for single flags. -/
def render (word : RuntimeFlags) : String :=
  let parts := if word.isEmpty then ["0x0"] else word.parts
  "CorFlags(" ++ " | ".intercalate parts ++ ")"

theorem mem_flags_iff {word : RuntimeFlags} {flag : RuntimeFlag} :
    flag ∈ word.flags ↔ word.bits &&& flag.mask = flag.mask := by
  simp [flags, RuntimeFlag.mem_all, has, contains]

/-- A word is its known bits and its unknown bits. -/
theorem truncate_or_unknownBits (word : RuntimeFlags) :
    word.truncate.bits ||| word.unknownBits = word.bits := by
  apply UInt32.toBitVec_inj.1
  ext i hi
  simp only [truncate, unknownBits, intersection, difference, UInt32.toBitVec_or,
    UInt32.toBitVec_and, UInt32.toBitVec_not, BitVec.getElem_or, BitVec.getElem_and,
    BitVec.getElem_not]
  cases all.bits.toBitVec[i] <;> simp

example : render ⟨0x23⟩ = "CorFlags(ILONLY | REQUIRES_32BIT | 0x20)" := by decide
example : render ⟨0⟩ = "CorFlags(0x0)" := by decide

end RuntimeFlags

end ManagedImage
