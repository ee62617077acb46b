import ManagedImage.Proofs.Acceptance
import ManagedImage.Proofs.PathResolution
import ManagedImage.Summary.OfFile

/-!
# Reading files

Reading a file is reading its contents behind a check of its path. Whatever else is found at the
path, or if nothing is, the answer names the path as it was given.

* `Summary.outcomeAt` is the outcome for everything that can be found at a path.
* `Summary.filled`: the reads of a batch may come to an end in any order, and each of them fills the
  slot of its path. `Summary.filled_eq` says that the order does not show, by induction on it.
* `Summary.ofFile_checks_path`: the outcome of a read, and of a batch of reads.
-/

namespace ManagedImage.Summary

open FileSystem (Absence Finds IsFolder regular)

variable {options : Options} {fs : FileSystem} {path : String} {paths : List String}

/-! ## One file -/

/-- The outcome of reading the file at a path, by what is found there. -/
def outcomeAt (options : Options) (path : String) : Except Absence FileNode → Except Error Summary
  | .ok (.file contents) => ofBytes options contents
  | .ok .special => .error (.notFound path)
  | .ok (.folder _) => .error (.notFound path)
  | .error .noEntry => .error (.notFound path)
  | .error .notFolder => .error (.notFound path)

theorem readLookup_regular (options : Options) (path : String) (found : Except Absence FileNode) :
    (readLookup options path (regular found)).2 = outcomeAt options path found := by
  match found with
  | .ok (.file contents) => rfl
  | .ok .special => rfl
  | .ok (.folder entries) => rfl
  | .error .noEntry => rfl
  | .error .notFolder => rfl

theorem ofFile_of_resolves {found : Except Absence FileNode}
    (hWorking : IsFolder fs.root fs.working) (hPath : Path.Accepted path)
    (h : fs.Resolves path found) : ofFile options fs path = outcomeAt options path found := by
  rw [ofFile, readPath, FileSystem.lookup_of_resolves hWorking hPath h, readLookup_regular]

/-! ## Many files -/

/-- A slot for each path, with its outcome once the file has been read. `order` tells which reads
have come to an end, by the places of their paths in the list. -/
def filled (options : Options) (fs : FileSystem) (paths : List String) (order : List Nat) :
    List (Option (Except Error Summary)) :=
  order.foldl (fun slots place => slots.set place (paths[place]?.map (ofFile options fs)))
    (List.replicate paths.length none)

theorem getElem?_foldl_set {α : Type} (f : Nat → α) (order : List Nat) (slots : List α) (i : Nat) :
    (order.foldl (fun slots place => slots.set place (f place)) slots)[i]? =
      if i ∈ order ∧ i < slots.length then some (f i) else slots[i]? := by
  induction order generalizing slots with
  | nil => simp only [List.foldl_nil, List.not_mem_nil, false_and, if_false]
  | cons place order ih =>
    rw [List.foldl_cons, ih, List.length_set, List.getElem?_set]
    by_cases hPlace : i = place
    · subst hPlace
      by_cases hInside : i < slots.length
      · simp only [List.mem_cons, hInside, true_or, and_true, if_true, ite_self]
      · rw [List.getElem?_eq_none (Nat.not_lt.1 hInside)]
        simp only [hInside, and_false, if_false, if_true]
    · simp only [List.mem_cons, hPlace, Ne.symm hPlace, false_or, if_false]

/-- Once all files have been read, it does not matter in which order that was, nor how often. -/
theorem filled_eq {order : List Nat} (hAll : ∀ place < paths.length, place ∈ order) :
    filled options fs paths order = (ofFiles options fs paths).map some := by
  apply List.ext_getElem?
  intro i
  rw [filled, getElem?_foldl_set, ofFiles, List.map_map, List.getElem?_map, List.length_replicate]
  by_cases hInside : i < paths.length
  · rw [if_pos ⟨hAll i hInside, hInside⟩, List.getElem?_eq_getElem hInside]
    rfl
  · rw [if_neg fun h => hInside h.2, List.getElem?_eq_none (Nat.not_lt.1 hInside),
      List.getElem?_eq_none (by rw [List.length_replicate]; exact Nat.not_lt.1 hInside)]
    rfl

/-! ## The outcomes of reads -/

/-- If the operating system does not refuse a path, something is found at its end or there is a
reason why not, and reading the file gives the outcome of reading its contents if that is a regular
file; otherwise the path as given is not found. A batch has the outcome of each of its paths, in their
order, in whatever order the files are read. -/
theorem ofFile_checks_path (options : Options) (fs : FileSystem) :
    (IsFolder fs.root fs.working → ∀ path, Path.Accepted path →
      (∃ found, fs.Resolves path found) ∧
        ∀ found, fs.Resolves path found → ofFile options fs path = outcomeAt options path found) ∧
      ∀ paths : List String, (ofFiles options fs paths).length = paths.length ∧
        (∀ i : Nat, (ofFiles options fs paths)[i]? = paths[i]?.map (ofFile options fs)) ∧
        ∀ order, (∀ place < paths.length, place ∈ order) →
          filled options fs paths order = (ofFiles options fs paths).map some := by
  refine ⟨fun hWorking path hPath => ⟨fs.exists_resolves hWorking path, fun found h => ?_⟩,
    fun paths => ⟨List.length_map _, fun i => List.getElem?_map, fun order => filled_eq⟩⟩
  exact ofFile_of_resolves hWorking hPath h

/-- A folder with the small managed image and an empty file, and a folder without entries. -/
def installed : FileSystem :=
  ((FileSystem.empty.addFile "bin/a.exe" specimen).addFile "bin/empty" []).addFolder "lib"

theorem isFolder_installed : IsFolder installed.root installed.working := ⟨_, rfl⟩

theorem resolves_installed :
    installed.Resolves "lib/../bin//a.exe" (.ok (.file specimen)) ∧
      installed.Resolves "bin/empty" (.ok (.file [])) ∧
      installed.Resolves "bin/a.exe/" (.error .notFolder) ∧
      installed.Resolves "bin/b.exe" (.error .noEntry) := by
  have hLib : Path.IsName ['l', 'i', 'b'] := ⟨by decide, by decide⟩
  have hOut : Path.IsName ['.', '.'] := ⟨by decide, by decide⟩
  have hBin : Path.IsName ['b', 'i', 'n'] := ⟨by decide, by decide⟩
  have hA : Path.IsName ['a', '.', 'e', 'x', 'e'] := ⟨by decide, by decide⟩
  have hB : Path.IsName ['b', '.', 'e', 'x', 'e'] := ⟨by decide, by decide⟩
  have hEmpty : Path.IsName ['e', 'm', 'p', 't', 'y'] := ⟨by decide, by decide⟩
  refine ⟨.path (by decide) ?_, .path (by decide) ?_, .path (by decide) ?_, .path (by decide) ?_⟩
  · exact .enter hLib rfl (.enter hOut rfl (.enter hBin rfl (.slash (.last hA rfl))))
  · exact .enter hBin rfl (.last hEmpty rfl)
  · exact .enter hBin rfl (.notFolder hA rfl fun _ => by nofun)
  · exact .enter hBin rfl (.missing hB rfl)

theorem ofFile_checks_path_installed :
    IsFolder installed.root installed.working ∧
      ofFile .strict installed "lib/../bin//a.exe" = .ok (standing .strict specimen 344) ∧
      ofFile .strict installed "bin/empty" = .error .outOfBounds ∧
      ofFile .strict installed "bin/a.exe/" = .error (.notFound "bin/a.exe/") ∧
      ofFile .strict installed "bin/b.exe" = .error (.notFound "bin/b.exe") ∧
      filled .strict installed ["bin/b.exe", "bin/empty"] [1, 0] =
        [some (.error (.notFound "bin/b.exe")), some (.error .outOfBounds)] := by
  obtain ⟨hRead, hBatch⟩ := ofFile_checks_path .strict installed
  have hShort : ∀ path : String, '\x00' ∉ path.toList → path.utf8ByteSize ≤ Path.maxNameSize →
      ∀ found, installed.Resolves path found →
        ofFile .strict installed path = outcomeAt .strict path found :=
    fun path hNul hSize => (hRead isFolder_installed path (Path.accepted_of_short hNul hSize)).2
  obtain ⟨hFile, hEmpty, hBelow, hMissing⟩ := resolves_installed
  have hNone : ofBytes .strict [] = .error .outOfBounds := by decide
  have hEmptyRead := (hShort _ (by decide) (by decide) _ hEmpty).trans hNone
  have hMissingRead := hShort _ (by decide) (by decide) _ hMissing
  refine ⟨isFolder_installed, ?_, hEmptyRead, ?_, hMissingRead, ?_⟩
  · exact (hShort _ (by decide) (by decide) _ hFile).trans ofBytes_specimen
  · exact hShort _ (by decide) (by decide) _ hBelow
  · rw [(hBatch _).2.2 [1, 0] (by decide), ofFiles]
    simp only [List.map_cons, List.map_nil, hMissingRead, hEmptyRead, outcomeAt]

end ManagedImage.Summary
