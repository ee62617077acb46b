import ManagedImage.Summary.OfFile

/-!
# The report

The command line names files and may ask for strict reading with the flag `--strict`, which can
stand anywhere. The report has one block for each file in the order of the arguments: the path, and
below it the facts of the summary or one line about the error.
-/

namespace ManagedImage.Report

def strictFlag : String := "--strict"

def optionsOf (args : List String) : Options :=
  if strictFlag ∈ args then .strict else .standard

def pathsOf (args : List String) : List String := args.filter (· ≠ strictFlag)

/-- A flag as a digit. -/
def digit (set : Bool) : String := if set then "1" else "0"

/-- The facts of a summary, one a line. -/
def facts (summary : Summary) : List String :=
  let raw (width value : Nat) : String := "0x" ++ Hex.upper width value
  let flag (flag : RuntimeFlag) : String := digit (summary.flags.has flag)
  [ "  PE        : " ++ summary.format.name,
    "  Machine   : " ++ summary.machine.name ++ " (" ++ raw 4 summary.machine.code.toNat ++ ")",
    "  Arch      : " ++ summary.processor.name,
    "  Assembly  : " ++ summary.assembly.name,
    s!"  CLR Header: {summary.runtimeVersion.major.toNat}.{summary.runtimeVersion.minor.toNat}",
    "  CorFlags  : " ++ raw 8 summary.flags.bits.toNat,
    "  ILONLY    : " ++ flag .ilOnly,
    "  32BITREQ  : " ++ flag .requires32Bit,
    "  32BITPREF : " ++ flag .prefers32Bit,
    "  Signed    : " ++ flag .strongNameSigned,
    "  Metadata  : rva " ++ raw 8 summary.metadata.rva.toNat ++
      s!", {summary.metadata.size.toNat} bytes" ]

/-- The line about an error. -/
def errorLine (error : Error) : String :=
  match error.category with
  | .notManaged => "  not a managed image"
  | category => "  " ++ category.name ++ ": " ++ error.display

/-- The block for a path. -/
def block (path : String) (outcome : Except Error Summary) : List String :=
  match outcome with
  | .ok summary => path :: facts summary
  | .error error => [path, errorLine error]

/-- The whole report on the files that the arguments name, each looked up with `find`. -/
def lines (find : String → Lookup) (args : List String) : List String :=
  (pathsOf args).flatMap fun path =>
    block path (Summary.readLookup (optionsOf args) path (find path)).2

/-- What is written to the error output when no argument is given. -/
def usage (program : String) : List String :=
  [ "Usage: " ++ program ++ " [--strict] <executable>...",
    "",
    "Prints what CorFlags.exe would print for each managed executable:",
    "  • PE format and processor architecture",
    "  • CLR header version",
    "  • ILONLY / 32BITREQ / 32BITPREF / Signed flags" ]

theorem length_facts (summary : Summary) : (facts summary).length = 11 := rfl

end ManagedImage.Report
