import ManagedImage.Architecture
import ManagedImage.Headers
import ManagedImage.RuntimeHeader

/-!
# Summaries

A summary tells what kind of program a managed image is: the format and machine of its headers, and
the version, flags and metadata of its runtime header. All else that a report shows follows from
these.

`Summary.read` reads it from any source; `Summary.ofBytes` from an image in memory.
-/

namespace ManagedImage

structure Summary where
  format : Format
  machine : Machine
  runtimeVersion : Version UInt16
  flags : RuntimeFlags
  metadata : DataDirectory
  deriving DecidableEq, Repr

namespace Summary

/-- The summary of an image with these headers. -/
def ofHeaders (headers : Headers) (runtime : RuntimeHeader) : Summary where
  format := headers.format
  machine := .ofCode headers.coff.machine
  runtimeVersion := runtime.version
  flags := runtime.flags
  metadata := runtime.metadata

def processor (summary : Summary) : ProcessorArchitecture := .ofMachine summary.machine

def assembly (summary : Summary) : AssemblyArchitecture := .classify summary.format summary.flags

/-- Reads and, if the options ask for it, checks the runtime header at an offset. -/
def readRuntime (options : Options) (offset : Nat) : Procedure RuntimeHeader := do
  Procedure.seekTo offset
  let runtime ← RuntimeHeader.read
  if options.strictRuntimeHeader then do
    runtime.check
    return runtime
  else return runtime

/-- Reads the summary of an image. -/
def read (options : Options) : Procedure Summary := do
  let headers ← Headers.read options
  match headers.runtimeDirectory? with
  | none =>
    Procedure.log [.noRuntimeHeader headers.optional.directoryCount]
    Procedure.fail .notManaged
  | some directory =>
    let offset ← headers.offsetOf directory.rva
    Procedure.log [.runtimeHeaderFound directory offset]
    let runtime ← readRuntime options offset
    Procedure.log [.runtimeHeaderRead runtime.version runtime.flags.bits]
    return ofHeaders headers runtime

/-- The summary of an image in memory. -/
def ofBytes (options : Options) (image : Bytes) : Except Error Summary :=
  (read options).outcome image

end Summary

end ManagedImage
