import Mathlib.Data.List.Basic
import ManagedImage.Proofs.FileReads
import ManagedImage.Report

/-!
# The blocks of a report

The report is a block for each path that the arguments name, one behind the other. What stands in a
block depends on its path, on what the file system holds there, and on whether the flag is given.

* `Report.blockAt` is the block of a path, and `Report.IsBlock` says what a block can look like.
* `Report.lines_eq`: the report is `Report.blocks`, which takes the arguments one at a time.
* `Report.paired_eq`: nothing changes if the files are read as one batch, in whatever order, and the
  outcomes are paired with the paths afterwards.
* `Report.lines_blockwise`: what follows for arguments that are joined, repeated or moved.
-/

namespace ManagedImage.Report

open Summary (ofFile)

variable {fs fs' : FileSystem} {strict : Bool} {path : String} {args more : List String}

/-! ## Blocks -/

/-- The options, by whether the flag is given. -/
def optionsWith (strict : Bool) : Options := if strict then .strict else .standard

/-- The block of a path. -/
def blockAt (fs : FileSystem) (strict : Bool) (path : String) : List String :=
  block path (ofFile (optionsWith strict) fs path)

/-- A block starts with its path; below it are the eleven facts of a summary or one line about the
error, by its kind and message unless the image is no managed one. -/
inductive IsBlock (path : String) : Except Error Summary → List String → Prop
  | summary {summary : Summary} (eleven : (facts summary).length = 11) :
      IsBlock path (.ok summary) (path :: facts summary)
  | notManaged : IsBlock path (.error .notManaged) [path, "  not a managed image"]
  | error {e : Error} (other : e ≠ .notManaged) :
      IsBlock path (.error e) [path, "  " ++ e.category.name ++ ": " ++ e.display]

theorem isBlock_block (path : String) (outcome : Except Error Summary) :
    IsBlock path outcome (block path outcome) := by
  match outcome with
  | .ok summary => exact .summary (length_facts summary)
  | .error .notManaged => exact .notManaged
  | .error (.notFound path) => exact .error (by nofun)
  | .error (.malformed defect) => exact .error (by nofun)
  | .error .outOfBounds => exact .error (by nofun)
  | .error (.failed fault) => exact .error (by nofun)
  | .error (.refused refusal) => exact .error (by nofun)

/-- A block depends on nothing in the file system but what is at its path. -/
theorem blockAt_congr (h : fs.lookup path = fs'.lookup path) (strict : Bool) :
    blockAt fs strict path = blockAt fs' strict path := by
  rw [blockAt, blockAt, ofFile, ofFile, Summary.readPath, Summary.readPath, h]

/-! ## Arguments -/

/-- Whether the flag is among the arguments. -/
def isStrict (args : List String) : Bool := decide (strictFlag ∈ args)

/-- The blocks of the arguments that are paths. -/
def blocks (fs : FileSystem) (strict : Bool) (args : List String) : List String :=
  (pathsOf args).flatMap (blockAt fs strict)

theorem lines_eq (fs : FileSystem) (args : List String) :
    lines fs.lookup args = blocks fs (isStrict args) args := by
  have hOptions : optionsOf args = optionsWith (isStrict args) := by
    unfold optionsOf optionsWith isStrict
    by_cases h : strictFlag ∈ args
    · rw [if_pos h, if_pos (decide_eq_true h)]
    · rw [if_neg h, if_neg (fun hTrue => h (of_decide_eq_true hTrue))]
  unfold lines blocks
  rw [hOptions]
  rfl

theorem lines_of_flag (h : strictFlag ∈ args) (fs : FileSystem) :
    lines fs.lookup args = blocks fs true args := by
  rw [lines_eq, isStrict, decide_eq_true h]

theorem isStrict_append (args more : List String) :
    isStrict (args ++ more) = (isStrict args || isStrict more) := by
  simp only [isStrict, List.mem_append, Bool.decide_or]

theorem isStrict_path (h : path ≠ strictFlag) (args more : List String) :
    isStrict (args ++ path :: more) = isStrict (args ++ more) := by
  simp only [isStrict, List.mem_append, List.mem_cons, Ne.symm h, false_or]

theorem blocks_append (fs : FileSystem) (strict : Bool) (args more : List String) :
    blocks fs strict (args ++ more) = blocks fs strict args ++ blocks fs strict more := by
  rw [blocks, pathsOf, List.filter_append, List.flatMap_append]
  rfl

theorem blocks_flag (fs : FileSystem) (strict : Bool) (args : List String) :
    blocks fs strict (strictFlag :: args) = blocks fs strict args := by
  rw [blocks, pathsOf, List.filter_cons_of_neg (by simp)]
  rfl

theorem blocks_path (h : path ≠ strictFlag) (fs : FileSystem) (strict : Bool)
    (args : List String) :
    blocks fs strict (path :: args) = blockAt fs strict path ++ blocks fs strict args := by
  rw [blocks, pathsOf, List.filter_cons_of_pos (by simpa using h), List.flatMap_cons]
  rfl

theorem blocks_congr (h : ∀ path ∈ pathsOf args, fs.lookup path = fs'.lookup path)
    (strict : Bool) : blocks fs strict args = blocks fs' strict args :=
  List.flatMap_congr fun path hPath => blockAt_congr (h path hPath) strict

/-! ## The batch -/

/-- The report, made of the outcomes of a batch: each path is paired with what is in its slot. -/
def paired (fs : FileSystem) (args : List String) (order : List Nat) : List String :=
  ((pathsOf args).zip (Summary.filled (optionsOf args) fs (pathsOf args) order)).flatMap
    fun (path, slot) => (slot.map (block path)).getD []

theorem paired_eq {order : List Nat} (hAll : ∀ place < (pathsOf args).length, place ∈ order) :
    paired fs args order = lines fs.lookup args := by
  let outcomeOf := ofFile (optionsOf args) fs
  have hPairs : (pathsOf args).zip ((pathsOf args).map (some ∘ outcomeOf)) =
      (pathsOf args).map fun path => (path, some (outcomeOf path)) := by
    have hZip := @List.zip_map' _ _ _ id (some ∘ outcomeOf) (pathsOf args)
    rwa [List.map_id] at hZip
  rw [paired, Summary.filled_eq hAll, Summary.ofFiles, List.map_map, hPairs, List.flatMap_map]
  rfl

/-! ## The report -/

/-- A report that is made of blocks, each on its own. -/
structure Blockwise (fs : FileSystem) : Prop where
  /-- A block for each argument that is not the flag, in their order. -/
  concatenated : ∀ args, lines fs.lookup args =
    (args.filter (· ≠ strictFlag)).flatMap (blockAt fs (decide (strictFlag ∈ args)))
  block_form : ∀ strict path,
    IsBlock path (ofFile (optionsWith strict) fs path) (blockAt fs strict path)
  block_local : ∀ fs' strict path, fs.lookup path = fs'.lookup path →
    blockAt fs strict path = blockAt fs' strict path
  /-- The outcomes of the batch are paired with the paths that they belong to. -/
  batch : ∀ args order, (∀ place < (pathsOf args).length, place ∈ order) →
    paired fs args order = lines fs.lookup args
  /-- One flag more changes nothing. -/
  flag_repeated : ∀ args more, strictFlag ∈ args ++ more →
    lines fs.lookup (args ++ strictFlag :: more) = lines fs.lookup (args ++ more)
  /-- It does not matter where the flag stands, nor how often. -/
  flag_moved : ∀ args args', strictFlag ∈ args → strictFlag ∈ args' →
    args.filter (· ≠ strictFlag) = args'.filter (· ≠ strictFlag) →
      lines fs.lookup args = lines fs.lookup args'
  joined : ∀ args more, (strictFlag ∈ args ↔ strictFlag ∈ more) →
    lines fs.lookup (args ++ more) = lines fs.lookup args ++ lines fs.lookup more
  /-- Whatever becomes of one path, the blocks in front of it and behind it stay. -/
  independent : ∀ args path more, path ≠ strictFlag → ∃ front rear,
    lines fs.lookup (args ++ more) = front ++ rear ∧
      ∀ fs', (∀ other ∈ pathsOf (args ++ more), fs.lookup other = fs'.lookup other) →
        lines fs'.lookup (args ++ path :: more) =
          front ++ blockAt fs' (isStrict (args ++ more)) path ++ rear

/-- Whatever the file system holds, and however many arguments there are, the report is made of
blocks, and the flag counts once. -/
theorem lines_blockwise (fs : FileSystem) : Blockwise fs where
  concatenated := lines_eq fs
  block_form strict path := isBlock_block path _
  block_local fs' strict path h := blockAt_congr h strict
  batch args order := paired_eq
  flag_repeated args more h := by
    have hMore : strictFlag ∈ args ++ strictFlag :: more :=
      List.mem_append_right args List.mem_cons_self
    rw [lines_of_flag h, lines_of_flag hMore, blocks_append, blocks_flag, blocks_append]
  flag_moved args args' h h' hPaths := by
    rw [lines_of_flag h, lines_of_flag h', blocks, pathsOf, hPaths]
    rfl
  joined args more h := by
    have hSame : isStrict args = isStrict more := decide_eq_decide.2 h
    rw [lines_eq, lines_eq, lines_eq, isStrict_append, hSame, Bool.or_self, blocks_append]
  independent args path more hPath := by
    refine ⟨blocks fs (isStrict (args ++ more)) args, blocks fs (isStrict (args ++ more)) more, ?_,
      fun fs' hAgree => ?_⟩
    · rw [lines_eq, blocks_append]
    · have hFilter : pathsOf (args ++ more) = pathsOf args ++ pathsOf more := List.filter_append _ _
      rw [hFilter] at hAgree
      obtain ⟨hFront, hRear⟩ := List.forall_mem_append.1 hAgree
      rw [lines_eq, isStrict_path hPath, blocks_append, blocks_path hPath, blocks_congr hFront,
        blocks_congr hRear, List.append_assoc]

/-- The flag between two paths that are not found, and given once more in front of them. -/
theorem lines_blockwise_installed :
    lines Summary.installed.lookup ["bin/b.exe", "--strict", "lib"] =
        ["bin/b.exe", "  NotFound: No such file: bin/b.exe", "lib",
          "  NotFound: No such file: lib"] ∧
      lines Summary.installed.lookup ["--strict", "bin/b.exe", "--strict", "lib"] =
        lines Summary.installed.lookup ["bin/b.exe", "--strict", "lib"] := by
  have hBlockwise := lines_blockwise Summary.installed
  have hMissing : Summary.installed.lookup "bin/b.exe" = .missing := rfl
  have hFolder : Summary.installed.lookup "lib" = .missing := rfl
  have hPaths : ["bin/b.exe", "--strict", "lib"].filter (· ≠ strictFlag) =
      ["bin/b.exe", "lib"] := by decide
  refine ⟨?_, hBlockwise.flag_repeated [] _ (by decide)⟩
  rw [hBlockwise.concatenated, hPaths]
  simp only [List.flatMap_cons, List.flatMap_nil, blockAt, Summary.ofFile, Summary.readPath,
    Summary.readLookup, hMissing, hFolder]
  rfl

end ManagedImage.Report
