/-!
# Machine types

The processor that an image was built for, as the file header numbers it. Numbers without a name are
kept, so `Machine.code_ofCode` loses nothing.
-/

namespace ManagedImage

inductive Machine
  | i386
  | amd64
  | ia64
  | arm
  | thumb
  | armNt
  | arm64
  | unknown (code : UInt16)
  deriving DecidableEq, Repr

namespace Machine

def ofCode (code : UInt16) : Machine :=
  if code = 0x14C then i386
  else if code = 0x8664 then amd64
  else if code = 0x200 then ia64
  else if code = 0x1C0 then arm
  else if code = 0x1C2 then thumb
  else if code = 0x1C4 then armNt
  else if code = 0xAA64 then arm64
  else unknown code

def code : Machine → UInt16
  | i386 => 0x14C
  | amd64 => 0x8664
  | ia64 => 0x200
  | arm => 0x1C0
  | thumb => 0x1C2
  | armNt => 0x1C4
  | arm64 => 0xAA64
  | unknown code => code

/-- The common name of a machine. -/
def name : Machine → String
  | i386 => "x86"
  | amd64 => "amd64"
  | ia64 => "ia64"
  | arm => "arm"
  | thumb => "thumb"
  | armNt => "armnt"
  | arm64 => "arm64"
  | unknown _ => "unknown"

/-- A name that also tells unknown machines apart. -/
def fullName : Machine → String
  | i386 => "I386"
  | amd64 => "Amd64"
  | ia64 => "Ia64"
  | arm => "Arm"
  | thumb => "Thumb"
  | armNt => "ArmNt"
  | arm64 => "Arm64"
  | unknown code => s!"Unknown({code.toNat})"

theorem code_ofCode (code : UInt16) : (ofCode code).code = code := by
  unfold ofCode
  repeat' split
  all_goals simp_all [Machine.code]

end Machine

end ManagedImage
