import ManagedImage.Header.Machine
import ManagedImage.Header.Optional
import ManagedImage.RuntimeFlags

/-!
# Architectures

The processor that an image names follows from its machine type alone. The process that its assembly
can be loaded into follows from the format and the runtime flags: a 64-bit image is for 64-bit
processes, a 32-bit image is for any process if it holds intermediate language only and does not
insist on 32 bits.
-/

namespace ManagedImage

inductive ProcessorArchitecture
  | x86
  | ia64
  | amd64
  | arm
  | arm64
  | unknown
  deriving DecidableEq, Repr

namespace ProcessorArchitecture

def all : List ProcessorArchitecture := [x86, ia64, amd64, arm, arm64, unknown]

def name : ProcessorArchitecture → String
  | x86 => "X86"
  | ia64 => "IA64"
  | amd64 => "AMD64"
  | arm => "ARM"
  | arm64 => "ARM64"
  | unknown => "Unknown"

def ofMachine : Machine → ProcessorArchitecture
  | .i386 => x86
  | .amd64 => amd64
  | .ia64 => ia64
  | .arm | .thumb | .armNt => arm
  | .arm64 => arm64
  | .unknown _ => unknown

end ProcessorArchitecture

inductive AssemblyArchitecture
  /-- The assembly runs in any process. -/
  | msil
  | x86
  | x64
  deriving DecidableEq, Repr

namespace AssemblyArchitecture

def all : List AssemblyArchitecture := [msil, x86, x64]

def name : AssemblyArchitecture → String
  | msil => "MSIL"
  | x86 => "X86"
  | x64 => "X64"

def classify (format : Format) (flags : RuntimeFlags) : AssemblyArchitecture :=
  match format with
  | .pe32Plus => x64
  | .pe32 => if flags.has .requires32Bit || !flags.has .ilOnly then x86 else msil

theorem classify_eq_msil_iff {format : Format} {flags : RuntimeFlags} :
    classify format flags = msil ↔
      format = .pe32 ∧ flags.has .ilOnly = true ∧ flags.has .requires32Bit = false := by
  cases format <;> cases hOnly : flags.has .ilOnly <;> cases hNeeds : flags.has .requires32Bit <;>
    simp [classify, hOnly, hNeeds]

end AssemblyArchitecture

end ManagedImage
