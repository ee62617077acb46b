import ManagedImage.Header.Optional
import ManagedImage.Section.Table
import ManagedImage.Text.Hex

/-!
# Log records

A read tells how far it has come by writing log records. A record holds the facts that it reports;
`Record.message` puts them into words.
-/

namespace ManagedImage

inductive LogLevel
  | debug
  | trace
  deriving DecidableEq, Repr

def LogLevel.name : LogLevel → String
  | .debug => "DEBUG"
  | .trace => "TRACE"

/-- A stage that a read has reached. -/
inductive Record
  | opening (path : String)
  | zeroOffset
  | fileHeader (peOffset : Nat) (machine sectionCount : UInt16)
  | optionalHeader (format : Format) (directoryCount : UInt32)
  | sectionRead (index : Nat) (contents : Section)
  | noRuntimeHeader (directoryCount : UInt32)
  | runtimeHeaderFound (directory : DataDirectory) (offset : Nat)
  | runtimeHeaderRead (version : Version UInt16) (flags : UInt32)
  deriving DecidableEq, Repr

namespace Record

/-- Records that come once per file or per section are on the finer level. -/
def level : Record → LogLevel
  | opening _ => .trace
  | sectionRead .. => .trace
  | _ => .debug

def message : Record → String
  | opening path => "Reading " ++ path
  | zeroOffset => "e_lfanew is zero, assuming 0x80"
  | fileHeader peOffset machine sectionCount =>
    "PE header at 0x" ++ Hex.upper 0 peOffset ++ ": machine 0x" ++ Hex.upper 4 machine.toNat ++
      s!", {sectionCount.toNat} sections"
  | optionalHeader format directoryCount =>
    s!"Optional header: {format.name}, {directoryCount.toNat} data directories"
  | sectionRead index contents =>
    let placement := contents.entry.placement
    s!"Section {index} '" ++ contents.name?.getD "<invalid>" ++
      "': rva 0x" ++ Hex.upper 8 placement.virtualAddress.toNat ++
      "+0x" ++ Hex.upper 0 placement.virtualSize.toNat ++
      ", raw 0x" ++ Hex.upper 8 placement.rawPointer.toNat ++
      "+0x" ++ Hex.upper 0 placement.rawSize.toNat
  | noRuntimeHeader directoryCount =>
    s!"No CLR runtime header ({directoryCount.toNat} data directories)"
  | runtimeHeaderFound directory offset =>
    "CLR runtime header at rva 0x" ++ Hex.upper 8 directory.rva.toNat ++
      " (file offset 0x" ++ Hex.upper 0 offset ++ s!"), {directory.size.toNat} bytes"
  | runtimeHeaderRead version flags =>
    s!"CLR header v{version.major.toNat}.{version.minor.toNat}, flags 0x" ++
      Hex.upper 8 flags.toNat

end Record

end ManagedImage
