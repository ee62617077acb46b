import ManagedImage.FileSystem
import ManagedImage.Summary

/-!
# Summaries of files

Reading a file is reading its contents behind a check of its path: a path that leads to no regular
file is not found, and one that the operating system refuses is an error of its own. Each file is
read on its own, so a batch is a `map`.
-/

namespace ManagedImage.Summary

/-- The records and the outcome of reading what was found at a path. -/
def readLookup (options : Options) (path : String) (found : Lookup) :
    List Record × Except Error Summary :=
  match found with
  | .missing => ([.opening path], .error (.notFound path))
  | .refused refusal => ([.opening path], .error (.refused refusal))
  | .file contents =>
    let run := (read options).run (Cursor.start contents)
    (.opening path :: run.records, run.outcome)

/-- The records and the outcome of reading the file at a path. -/
def readPath (options : Options) (fs : FileSystem) (path : String) :
    List Record × Except Error Summary :=
  readLookup options path (fs.lookup path)

/-- The summary of the file at a path. -/
def ofFile (options : Options) (fs : FileSystem) (path : String) : Except Error Summary :=
  (readPath options fs path).2

/-- The summaries of many files, in the order of their paths. -/
def ofFiles (options : Options) (fs : FileSystem) (paths : List String) :
    List (Except Error Summary) :=
  paths.map (ofFile options fs)

end ManagedImage.Summary
