import ManagedImage.Report

/-!
# The command line

Prints the report on the files that the arguments name.
-/

namespace ManagedImage

/-- Looks a path up in the file system of the machine. Only what is a regular file is read: a device
or a pipe may never come to an end. -/
def lookupOnDisk (path : String) : IO Lookup := do
  try
    match (← (System.mkFilePath [path]).metadata).type with
    | .file => return .file (← IO.FS.readBinFile path).toList
    | _ => return .missing
  catch
    | .noFileOrDirectory .. => return .missing
    | .inappropriateType .. => return .missing
    | error => return .refused (.reported error.toString)

end ManagedImage

open ManagedImage in
def main (args : List String) : IO UInt32 := do
  if args.isEmpty then
    for line in Report.usage "managedimage" do
      IO.eprintln line
  let options := Report.optionsOf args
  for path in Report.pathsOf args do
    let found ← lookupOnDisk path
    for line in Report.block path (Summary.readLookup options path found).2 do
      IO.println line
  return 0
