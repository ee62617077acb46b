import ManagedImage.Bytes
import ManagedImage.Error

/-!
# Looking files up

A file system is a tree of folders, seen from a working folder inside it. A path is a list of names
with slashes between them; it is followed one name at a time, from the root if it starts with a
slash and from the working folder if not. One dot stays in a folder and two dots lead to the folder
around it; to come back out of a folder, a path first has to enter it.

* `FileSystem.lookup` says what is at a path: a regular file, no regular file, or a path that the
  operating system refuses to follow. It refuses a path with a zero byte or of 4096 bytes, and a
  name of more than 255 bytes at the moment it is looked up in a folder.
* `FileSystem.addFile` and `FileSystem.addFolder` build a tree. They follow a path in the same way
  and make every folder that they enter: `FileSystem.folderAt_editAt` says what an edit does to the
  folder that it is made in.
-/

namespace ManagedImage

/-- A node of a file system. -/
inductive FileNode
  | file (contents : Bytes)
  /-- Something that is neither a regular file nor a folder, such as a device. -/
  | special
  | folder (entries : List (String × FileNode))

/-- The named nodes of a folder. -/
abbrev Folder := List (String × FileNode)

/-- What is at a path. -/
inductive Lookup
  | file (contents : Bytes)
  /-- Nothing, or nothing that is a regular file. -/
  | missing
  | refused (refusal : Refusal)

namespace Path

/-- Cuts a text at its slashes. -/
def split (text : List Char) : List (List Char) :=
  text.foldr
    (fun c names => if c = '/' then [] :: names else (c :: names.headD []) :: names.tail) [[]]

/-- The names of a path, without empty ones. A slash at the end asks for a folder, as a dot does. -/
def names (path : String) : List String :=
  let kept := (split path.toList).filter (· ≠ [])
  let closed := if path.toList.getLast? = some '/' then kept ++ [['.']] else kept
  closed.map String.ofList

/-- An absolute path starts at the root. -/
def isAbsolute (path : String) : Bool := path.toList.head? == some '/'

/-- The longest name, in bytes, that a folder can hold. -/
def maxNameSize : Nat := 255

/-- The least size of a path, in bytes, that is too long. -/
def sizeLimit : Nat := 4096

example : names "sub//dir/./a.exe" = ["sub", "dir", ".", "a.exe"] := by decide
example : names "a.exe/" = ["a.exe", "."] := by decide
example : names "" = [] := by decide

end Path

/-- A folder in a tree, given by the names that lead to it from the root, the last one first. The
folder around it is the tail; the root is around itself. -/
abbrev Location := List String

/-- The root folder of a file system, and where its working folder is. -/
structure FileSystem where
  root : Folder
  working : Location

namespace FileSystem

/-! ## Looking up -/

/-- The folder under a name, or an empty one. -/
def subfolder (folder : Folder) (name : String) : Folder :=
  match folder.lookup name with
  | some (.folder entries) => entries
  | _ => []

/-- The folder at a location, or an empty one. -/
def folderAt (root : Folder) : Location → Folder
  | [] => root
  | name :: outside => subfolder (folderAt root outside) name

/-- Follows names from a location. -/
def follow (root : Folder) : (names : List String) → Location → Lookup
  | [], _ => .missing
  | name :: rest, location =>
    if name = "." then follow root rest location
    else if name = ".." then follow root rest location.tail
    else if Path.maxNameSize < name.utf8ByteSize then .refused .nameTooLong
    else
      match (folderAt root location).lookup name with
      | none => .missing
      | some (.folder _) => follow root rest (name :: location)
      | some (.file contents) => if rest.isEmpty then .file contents else .missing
      | some .special => .missing

/-- Where a path starts. -/
def start (fs : FileSystem) (path : String) : Location :=
  if Path.isAbsolute path then [] else fs.working

/-- What is at a path. -/
def lookup (fs : FileSystem) (path : String) : Lookup :=
  if path.toList.contains '\x00' then .refused .nulByte
  else if Path.sizeLimit ≤ path.utf8ByteSize then .refused .nameTooLong
  else follow fs.root (Path.names path) (fs.start path)

/-! ## Building a tree -/

/-- Puts a node under a name, in the place of one that had the name before. -/
def put (name : String) (node : FileNode) : Folder → Folder
  | [] => [(name, node)]
  | (other, old) :: rest =>
    if other = name then (name, node) :: rest else (other, old) :: put name node rest

/-- Edits the folder at a location; it and the folders around it are made if need be. -/
def editAt (root : Folder) : Location → (edit : Folder → Folder) → Folder
  | [], edit => edit root
  | name :: outside, edit =>
    editAt root outside fun folder => put name (.folder (edit (subfolder folder name))) folder

/-- Follows names from a location and makes every folder that is entered. Gives the root after that,
and the location at the end of the names. -/
def makeWay : (names : List String) → (root : Folder) → Location → Folder × Location
  | [], root, location => (root, location)
  | name :: rest, root, location =>
    if name = "." then makeWay rest root location
    else if name = ".." then makeWay rest root location.tail
    else makeWay rest (editAt root (name :: location) id) (name :: location)

/-- Adds a folder; one that is there already keeps its entries. -/
def addFolder (fs : FileSystem) (path : String) : FileSystem :=
  { fs with root := (makeWay (Path.names path) fs.root (fs.start path)).1 }

/-- Adds a file, in the place of one that was there before. -/
def addFile (fs : FileSystem) (path : String) (contents : Bytes) : FileSystem :=
  let names := Path.names path
  match names.getLast? with
  | none => fs
  | some name =>
    let (root, location) := makeWay names.dropLast fs.root (fs.start path)
    { fs with root := editAt root location (put name (.file contents)) }

/-- An empty working folder, and a null device that absolute paths reach. The folders that lead to
the working folder have the empty name, which no path can spell. -/
def empty : FileSystem where
  root := [("", .folder [("", .folder [])]), ("dev", .folder [("null", .special)])]
  working := ["", ""]

/-! ## Laws -/

theorem lookup_put_self (name : String) (node : FileNode) (folder : Folder) :
    (put name node folder).lookup name = some node := by
  induction folder with
  | nil => simp [put]
  | cons entry rest ih =>
    obtain ⟨other, old⟩ := entry
    by_cases hName : other = name
    · simp [put, hName]
    · simp [put, hName, List.lookup_cons, beq_false_of_ne (Ne.symm hName), ih]

theorem lookup_put_of_ne {name other : String} (h : other ≠ name) (node : FileNode)
    (folder : Folder) : (put name node folder).lookup other = folder.lookup other := by
  induction folder with
  | nil => simp [put, List.lookup_cons, beq_false_of_ne h]
  | cons entry rest ih =>
    obtain ⟨first, old⟩ := entry
    by_cases hName : first = name
    · simp [put, hName, List.lookup_cons, beq_false_of_ne h]
    · by_cases hOther : other = first
      · simp [put, hName, hOther]
      · simp [put, hName, List.lookup_cons, beq_false_of_ne hOther, ih]

theorem subfolder_put_self (name : String) (entries folder : Folder) :
    subfolder (put name (.folder entries) folder) name = entries := by
  rw [subfolder, lookup_put_self]

/-- An edit at a location changes the folder there as it says. -/
theorem folderAt_editAt (root : Folder) (location : Location) (edit : Folder → Folder) :
    folderAt (editAt root location edit) location = edit (folderAt root location) := by
  induction location generalizing edit with
  | nil => rfl
  | cons name outside ih => rw [editAt, folderAt, ih, subfolder_put_self, folderAt]

end FileSystem

end ManagedImage
