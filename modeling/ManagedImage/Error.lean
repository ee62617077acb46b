import ManagedImage.Text.Hex
import ManagedImage.Text.Numeral

/-!
# Errors

An error states its cause. The texts shown to a user are derived from the causes here and nowhere
else.

* `Defect` lists what can be wrong with an image; `EntityDefect` those defects that concern the form
  of one entity of the image, which all have one lead-in.
* `Fault` is a failure that a byte source reports, `Refusal` one of the operating system about a
  path.
* `Error.message` is the bare text and `Error.display` the text with its lead-in; `Error.category`
  sorts errors for callers that only ask whether an image is broken, missing or native.
-/

namespace ManagedImage

/-! ## Failing sources -/

/-- The kinds of failure that a byte source tells apart. -/
inductive FaultKind
  | unexpectedEof
  | interrupted
  | permissionDenied
  | notFound
  | timedOut
  | invalidData
  | other
  deriving DecidableEq, Repr

/-- A failure of a byte source, in its own words. -/
structure Fault where
  kind : FaultKind
  message : String
  deriving DecidableEq, Repr

/-- Why the operating system does not open a path. -/
inductive Refusal
  | nulByte
  | nameTooLong
  /-- A reason in the operating system's own words. -/
  | reported (text : String)
  deriving DecidableEq, Repr

def Refusal.message : Refusal → String
  | .nulByte => "file name contained an unexpected NUL byte"
  | .nameTooLong => "File name too long (os error 36)"
  | .reported text => text

/-! ## Defective images -/

/-- A defect in the form of one entity of an image. -/
inductive EntityDefect
  /-- The header offset does not lead to the signature of a portable executable. -/
  | signature (found : Nat)
  /-- The header offset points into the header that holds it. -/
  | offsetBeforeStub (offset : Nat)
  /-- A Rich header in the stub has an end but no start. -/
  | richHeaderWithoutStart
  /-- A Rich header in the stub starts behind its end. -/
  | richHeaderReversed (start stop : Nat)
  | tooManyDirectories (count : Nat)
  /-- A reference to a long section name is not text. -/
  | nameNotText
  | nameNotBase64 (digits : String)
  | nameNotDecimal (digits : String) (why : Numeral.DecimalDefect)
  /-- A defect that is known by its description only. -/
  | described (text : String)
  deriving DecidableEq, Repr

def EntityDefect.message : EntityDefect → String
  | .signature found =>
    "PE header is malformed (signature 0x" ++ Hex.lower found ++ ")"
  | .offsetBeforeStub offset =>
    "PE pointer (0x" ++ Hex.lower offset ++ ") cannot be before the DOS stub start (0x40)"
  | .richHeaderWithoutStart => "Rich header does not contain the DanS marker"
  | .richHeaderReversed start stop =>
    "Rich start offset (0x" ++ Hex.upper 0 start ++ ") exceeds rich header length (0x" ++
      Hex.upper 0 stop ++ ")"
  | .tooManyDirectories count =>
    s!"data directory count ({count}) is greater than maximum number of data directories (16)"
  | .nameNotText => "Invalid UTF-8 in section name"
  | .nameNotBase64 digits =>
    "Invalid indirect section name //" ++ digits ++ ": base64 decoding failed"
  | .nameNotDecimal digits why =>
    "Invalid indirect section name /" ++ digits ++ ": " ++ why.message
  | .described text => text

/-- Where in a program a defect was noticed. -/
structure Place where
  file : String
  line : Nat
  deriving DecidableEq, Repr

/-- What makes an image malformed. -/
inductive Defect
  | entity (defect : EntityDefect)
  | dosSignature (expected found : Nat)
  | sectionLimit (count limit : Nat)
  | noOptionalHeader
  /-- A magic number that selects no known layout. -/
  | magic (found : Nat)
  /-- The data directories run past the header that should hold them. -/
  | directoriesOverrun (headerSize count : Nat)
  | uncoveredAddress (rva sections : Nat)
  | runtimeHeaderSize (expected found : Nat)
  | noRuntimeVersion
  | undefinedFlags (flags unknown : Nat)
  /-- A defect that is known by its description, and perhaps by where it was noticed. -/
  | described (text : String) (place : Option Place)
  deriving DecidableEq, Repr

namespace Defect

def message : Defect → String
  | entity defect => "Malformed entity: " ++ defect.message
  | dosSignature expected found =>
    "Invalid DOS signature: expected 0x" ++ Hex.upper 4 expected ++ ", got 0x" ++ Hex.upper 4 found
  | sectionLimit count limit => s!"Section count {count} exceeds the limit of {limit}"
  | noOptionalHeader => "File does not have an OptionalHeader"
  | magic found => "Invalid magic number: 0x" ++ Hex.lower found
  | directoriesOverrun headerSize count =>
    s!"Optional header size {headerSize} cannot hold {count} data directories"
  | uncoveredAddress rva sections =>
    "RVA 0x" ++ Hex.upper 8 rva ++ s!" is not covered by any of {sections} sections"
  | runtimeHeaderSize expected found =>
    s!"Invalid CLR header size: expected {expected}, got {found}"
  | noRuntimeVersion => "Invalid major runtime version: 0"
  | undefinedFlags flags unknown =>
    "Invalid CLR flags: 0x" ++ Hex.upper 8 flags ++ " contains undefined bits 0x" ++
      Hex.upper 8 unknown
  | described text _ => text

/-- The message, after the place where the defect was noticed if that is known. -/
def display : Defect → String
  | described text (some place) => s!"{place.file}:{place.line}: {text}"
  | defect => defect.message

end Defect

/-! ## Errors of a read -/

/-- Why no summary of an image could be read. -/
inductive Error
  | notFound (path : String)
  | malformed (defect : Defect)
  /-- The image ends before something that it announces. -/
  | outOfBounds
  | notManaged
  | failed (fault : Fault)
  | refused (refusal : Refusal)
  deriving DecidableEq, Repr

/-- What a caller can do about an error. -/
inductive ErrorCategory
  | notFound
  | format
  | notManaged
  | io
  deriving DecidableEq, Repr

namespace ErrorCategory

def all : List ErrorCategory := [notFound, format, notManaged, io]

def name : ErrorCategory → String
  | notFound => "NotFound"
  | format => "Format"
  | notManaged => "NotManaged"
  | io => "Io"

end ErrorCategory

namespace Error

def category : Error → ErrorCategory
  | notFound _ => .notFound
  | malformed _ => .format
  | outOfBounds => .format
  | notManaged => .notManaged
  | failed _ => .io
  | refused _ => .io

/-- What went wrong, without a lead-in for malformed images. -/
def message : Error → String
  | notFound path => "No such file: " ++ path
  | malformed defect => defect.message
  | outOfBounds => "Out of Bound read would have occurred!"
  | notManaged => "File does not have a CLR runtime header (not a managed assembly)"
  | failed fault => fault.message
  | refused refusal => refusal.message

/-- What went wrong, as shown to a user. -/
def display : Error → String
  | malformed defect => "Malformed - " ++ defect.display
  | error => error.message

/-- A source that reports its end where bytes were due is a truncated image; any other failure is
the source's own. -/
def ofFault (fault : Fault) : Error :=
  if fault.kind = .unexpectedEof then outOfBounds else failed fault

end Error

end ManagedImage
