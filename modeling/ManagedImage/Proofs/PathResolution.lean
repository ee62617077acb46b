import ManagedImage.FileSystem

/-!
# Where a path leads

A path is followed from a folder, one name at a time. Each name leads to an entry of the folder, to
the folder itself, or out of it; behind a slash the way goes on, and only from a folder.

* `Path.induction`: every text is made of slashes and names.
* `FileSystem.Finds` says what is found at the end of a text that is followed from a location, or
  why nothing is: a name may be missing, and what is no folder may have a slash behind it. It follows
  the text itself, which is never cut into a list of names.
* `FileSystem.exists_finds`: the relation answers every text.
* `FileSystem.lookup_of_resolves`: the look-up gives the file that is found, and no file where
  something else or nothing is found. It is proved name by name, with the steps `follow_last` and
  `follow_enter`.
-/

namespace ManagedImage

/-! ## The text of a path -/

namespace Path

variable {name text : List Char}

/-- Some characters, and no slash among them. -/
structure IsName (name : List Char) : Prop where
  ne_nil : name ≠ []
  no_slash : '/' ∉ name

/-- A text is empty, or starts with a slash, or starts with a name that ends there or at a slash. -/
theorem induction {motive : List Char → Prop} (nil : motive [])
    (slash : ∀ text, motive text → motive ('/' :: text))
    (last : ∀ name, IsName name → motive name)
    (enter : ∀ name text, IsName name → motive text → motive (name ++ '/' :: text))
    (text : List Char) : motive text := by
  -- A name that has been begun is carried along until its end is found.
  have h : motive text ∧ ∀ name, IsName name → motive (name ++ text) := by
    induction text with
    | nil => exact ⟨nil, fun name hName => by rw [List.append_nil]; exact last name hName⟩
    | cons c text ih =>
      by_cases hSlash : c = '/'
      · subst hSlash
        exact ⟨slash text ih.1, fun name hName => enter name text hName ih.1⟩
      · have hChar : IsName [c] := ⟨List.cons_ne_nil _ _, by simpa using Ne.symm hSlash⟩
        refine ⟨ih.2 [c] hChar, fun name hName => ?_⟩
        have hLonger : IsName (name ++ [c]) := by
          refine ⟨List.append_ne_nil_of_left_ne_nil hName.ne_nil _, fun h => ?_⟩
          exact (List.mem_append.1 h).elim hName.no_slash hChar.no_slash
        have hRest := ih.2 (name ++ [c]) hLonger
        rwa [List.append_assoc] at hRest
  exact h.1

theorem split_slash (text : List Char) : split ('/' :: text) = [] :: split text := rfl

theorem split_ne_nil (text : List Char) : split text ≠ [] := by
  cases text with
  | nil => exact List.cons_ne_nil _ _
  | cons c text =>
    unfold split
    rw [List.foldr_cons]
    split <;> exact List.cons_ne_nil _ _

/-- Characters that are no slashes come in front of the first name. -/
theorem split_append (hName : '/' ∉ name) (text : List Char) :
    split (name ++ text) = (name ++ (split text).headD []) :: (split text).tail := by
  induction name with
  | nil =>
    obtain ⟨first, rest, hText⟩ := List.exists_cons_of_ne_nil (split_ne_nil text)
    rw [List.nil_append, hText]
    rfl
  | cons c name ih =>
    obtain ⟨hSlash, hRest⟩ := not_or.1 fun h => hName (List.mem_cons.2 h)
    have hStep : split (c :: (name ++ text)) =
        (c :: (split (name ++ text)).headD []) :: (split (name ++ text)).tail := by
      unfold split
      rw [List.foldr_cons, if_neg (Ne.symm hSlash)]
    rw [List.cons_append, hStep, ih hRest]
    rfl

theorem names_slash (h : text ≠ []) :
    names (String.ofList ('/' :: text)) = names (String.ofList text) := by
  obtain ⟨c, rest, rfl⟩ := List.exists_cons_of_ne_nil h
  unfold names
  rw [String.toList_ofList, String.toList_ofList, split_slash, List.getLast?_cons_cons]
  rfl

theorem names_name (h : IsName name) : names (String.ofList name) = [String.ofList name] := by
  have hSplit : split name = [name] := by
    have hAppend := split_append h.no_slash []
    have hEnd : split [] = [[]] := rfl
    rwa [List.append_nil, hEnd, List.headD_cons, List.append_nil] at hAppend
  have hLast : name.getLast? ≠ some '/' := fun hLast => h.no_slash (List.mem_of_getLast? hLast)
  unfold names
  rw [String.toList_ofList, hSplit]
  simp only [hLast, h.ne_nil, ne_eq, not_false_eq_true, decide_true, List.filter_cons_of_pos,
    List.filter_nil, if_false, List.map_cons, List.map_nil]

theorem names_enter (h : IsName name) (text : List Char) :
    names (String.ofList (name ++ '/' :: text)) =
      String.ofList name :: names (String.ofList ('/' :: text)) := by
  have hSplit : split (name ++ '/' :: text) = name :: split text := by
    rw [split_append h.no_slash, split_slash, List.headD_cons, List.append_nil, List.tail_cons]
  have hLast : (name ++ '/' :: text).getLast? = ('/' :: text).getLast? := by
    rw [List.getLast?_append, List.getLast?_cons, Option.some_or]
  unfold names
  rw [String.toList_ofList, String.toList_ofList, hSplit, split_slash, hLast]
  split <;> simp [h.ne_nil]

theorem names_ne_nil (h : text ≠ []) : names (String.ofList text) ≠ [] := by
  induction text using Path.induction with
  | nil => exact absurd rfl h
  | slash text ih =>
    by_cases hEnd : text = []
    · subst hEnd
      decide
    · rw [names_slash hEnd]
      exact ih hEnd
  | last name hName =>
    rw [names_name hName]
    exact List.cons_ne_nil _ _
  | enter name text hName ih =>
    rw [names_enter hName]
    exact List.cons_ne_nil _ _

/-- No name in the text is longer than a folder can hold. -/
def ShortNames (text : List Char) : Prop :=
  ∀ name, name <:+: text → '/' ∉ name → (String.ofList name).utf8ByteSize ≤ maxNameSize

theorem ShortNames.of_infix (h : ShortNames text) (hPart : name <:+: text) : ShortNames name :=
  fun part hInfix => h part (hInfix.trans hPart)

/-- The operating system does not refuse to follow the path. -/
structure Accepted (path : String) : Prop where
  no_nul : '\x00' ∉ path.toList
  short : path.utf8ByteSize < sizeLimit
  short_names : ShortNames path.toList

/-- A path that is no longer than a name may be has short names only. -/
theorem accepted_of_short {path : String} (hNul : '\x00' ∉ path.toList)
    (hShort : path.utf8ByteSize ≤ maxNameSize) : Accepted path := by
  refine ⟨hNul, Nat.lt_of_le_of_lt hShort (by decide), ?_⟩
  rintro name ⟨before, after, hPath⟩ -
  have hText : String.ofList before ++ String.ofList name ++ String.ofList after = path := by
    rw [← String.ofList_append, ← String.ofList_append, hPath, String.ofList_toList]
  rw [← hText, String.utf8ByteSize_append, String.utf8ByteSize_append] at hShort
  omega

end Path

/-! ## The nodes of a tree -/

namespace FileSystem

variable {root entries : Folder} {location : Location} {name : String}

/-- The node at a location. -/
def nodeAt? (root : Folder) : Location → Option FileNode
  | [] => some (.folder root)
  | name :: outside =>
    match nodeAt? root outside with
    | some (.folder entries) => entries.lookup name
    | _ => none

/-- A folder of the tree stands at the location. -/
def IsFolder (root : Folder) (location : Location) : Prop :=
  ∃ entries, nodeAt? root location = some (.folder entries)

/-- Where a name leads: one dot stays, and two dots lead out. -/
def goto (location : Location) (name : String) : Location :=
  if name = "." then location else if name = ".." then location.tail else name :: location

theorem isFolder_root (root : Folder) : IsFolder root [] := ⟨root, rfl⟩

theorem folderAt_of_nodeAt? (h : nodeAt? root location = some (.folder entries)) :
    folderAt root location = entries := by
  induction location generalizing entries with
  | nil =>
    cases h
    rfl
  | cons name outside ih =>
    rw [nodeAt?] at h
    split at h
    · rename_i around hAround
      rw [folderAt, ih hAround, subfolder, h]
    · cases h

theorem IsFolder.tail (h : IsFolder root location) : IsFolder root location.tail := by
  cases location with
  | nil => exact h
  | cons name outside =>
    obtain ⟨entries, h⟩ := h
    rw [nodeAt?] at h
    split at h
    · rename_i around hAround
      exact ⟨around, hAround⟩
    · cases h

/-- One step of following a path: it goes on at a folder, and ends at whatever else there is. -/
theorem follow_cons (hFolder : IsFolder root location)
    (hShort : name.utf8ByteSize ≤ Path.maxNameSize) (rest : List String) :
    follow root (name :: rest) location =
      match nodeAt? root (goto location name) with
      | some (.folder _) => follow root rest (goto location name)
      | some (.file contents) => if rest.isEmpty then .file contents else .missing
      | some .special => .missing
      | none => .missing := by
  unfold goto
  rw [follow]
  by_cases hDot : name = "."
  · obtain ⟨entries, hNode⟩ := hFolder
    simp only [hDot, if_true, hNode]
  · by_cases hDots : name = ".."
    · obtain ⟨entries, hNode⟩ := hFolder.tail
      simp only [hDots, show ".." ≠ "." by decide, if_true, if_false, hNode]
    · obtain ⟨entries, hNode⟩ := hFolder
      rw [if_neg hDot, if_neg hDots, if_neg (Nat.not_lt.2 hShort), folderAt_of_nodeAt? hNode]
      simp only [hDot, hDots, if_false, nodeAt?, hNode]
      cases entries.lookup name with
      | none => rfl
      | some node => cases node <;> rfl

/-! ## What is found at the end of a path -/

/-- Why there is nothing at the end of a path. -/
inductive Absence
  /-- A folder on the way has no entry of the name that comes next. -/
  | noEntry
  /-- There is a slash behind something that is no folder. -/
  | notFolder
  deriving DecidableEq, Repr

/-- What is found at the end of a text that is followed from a location. -/
inductive Finds (root : Folder) : Location → List Char → Except Absence FileNode → Prop
  | here {location : Location} {node : FileNode} (at_node : nodeAt? root location = some node) :
      Finds root location [] (.ok node)
  | slash {location : Location} {text : List Char} {found : Except Absence FileNode}
      (behind : Finds root location text found) : Finds root location ('/' :: text) found
  | last {location : Location} {name : List Char} {node : FileNode} (is_name : Path.IsName name)
      (at_node : nodeAt? root (goto location (String.ofList name)) = some node) :
      Finds root location name (.ok node)
  | missing {location : Location} {name : List Char} (is_name : Path.IsName name)
      (at_none : nodeAt? root (goto location (String.ofList name)) = none) :
      Finds root location name (.error .noEntry)
  | enter {location : Location} {name text : List Char} {entries : Folder}
      {found : Except Absence FileNode} (is_name : Path.IsName name)
      (at_folder : nodeAt? root (goto location (String.ofList name)) = some (.folder entries))
      (behind : Finds root (goto location (String.ofList name)) text found) :
      Finds root location (name ++ '/' :: text) found
  | missingFolder {location : Location} {name text : List Char} (is_name : Path.IsName name)
      (at_none : nodeAt? root (goto location (String.ofList name)) = none) :
      Finds root location (name ++ '/' :: text) (.error .noEntry)
  | notFolder {location : Location} {name text : List Char} {node : FileNode}
      (is_name : Path.IsName name)
      (at_node : nodeAt? root (goto location (String.ofList name)) = some node)
      (no_folder : ∀ entries, node ≠ .folder entries) :
      Finds root location (name ++ '/' :: text) (.error .notFolder)

theorem exists_finds (hFolder : IsFolder root location) (text : List Char) :
    ∃ found, Finds root location text found := by
  induction text using Path.induction generalizing location with
  | nil =>
    obtain ⟨entries, hNode⟩ := hFolder
    exact ⟨_, .here hNode⟩
  | slash text ih =>
    obtain ⟨found, hFound⟩ := ih hFolder
    exact ⟨found, .slash hFound⟩
  | last name hName =>
    cases hNode : nodeAt? root (goto location (String.ofList name)) with
    | none => exact ⟨_, .missing hName hNode⟩
    | some node => exact ⟨_, .last hName hNode⟩
  | enter name text hName ih =>
    cases hNode : nodeAt? root (goto location (String.ofList name)) with
    | none => exact ⟨_, .missingFolder hName hNode⟩
    | some node =>
      cases node with
      | file contents => exact ⟨_, .notFolder hName hNode fun entries => by nofun⟩
      | special => exact ⟨_, .notFolder hName hNode fun entries => by nofun⟩
      | folder entries =>
        obtain ⟨found, hFound⟩ := ih ⟨entries, hNode⟩
        exact ⟨found, .enter hName hNode hFound⟩

/-- What is found at a path. An empty path leads nowhere. -/
inductive Resolves (fs : FileSystem) : String → Except Absence FileNode → Prop
  | empty : Resolves fs "" (.error .noEntry)
  | path {path : String} {found : Except Absence FileNode} (ne_empty : path ≠ "")
      (finds : Finds fs.root (fs.start path) path.toList found) : Resolves fs path found

variable {fs : FileSystem} {path : String} {found : Except Absence FileNode}

theorem isFolder_start (hWorking : IsFolder fs.root fs.working) (path : String) :
    IsFolder fs.root (fs.start path) := by
  unfold start
  split
  · exact isFolder_root fs.root
  · exact hWorking

theorem exists_resolves (hWorking : IsFolder fs.root fs.working) (path : String) :
    ∃ found, fs.Resolves path found := by
  by_cases hEmpty : path = ""
  · subst hEmpty
    exact ⟨_, .empty⟩
  · obtain ⟨found, hFound⟩ := exists_finds (isFolder_start hWorking path) path.toList
    exact ⟨found, .path hEmpty hFound⟩

/-! ## The look-up -/

/-- Only a regular file counts. -/
def regular : Except Absence FileNode → Lookup
  | .ok (.file contents) => .file contents
  | _ => .missing

/-- A slash in front changes nothing on the way. -/
theorem follow_slash (root : Folder) (text : List Char) (location : Location) :
    follow root (Path.names (String.ofList ('/' :: text))) location =
      follow root (Path.names (String.ofList text)) location := by
  by_cases hEnd : text = []
  · subst hEnd
    rfl
  · rw [Path.names_slash hEnd]

/-- The last name of a path. -/
theorem follow_last {name : List Char} (hName : Path.IsName name)
    (hFolder : IsFolder root location) (hShort : Path.ShortNames name) :
    follow root (Path.names (String.ofList name)) location =
      match nodeAt? root (goto location (String.ofList name)) with
      | some node => regular (.ok node)
      | none => .missing := by
  have hSize := hShort name (List.infix_refl name) hName.no_slash
  rw [Path.names_name hName, follow_cons hFolder hSize]
  cases nodeAt? root (goto location (String.ofList name)) with
  | none => rfl
  | some node => cases node <;> rfl

/-- A name with a slash behind it. -/
theorem follow_enter {name text : List Char} (hName : Path.IsName name)
    (hFolder : IsFolder root location) (hShort : Path.ShortNames (name ++ '/' :: text)) :
    follow root (Path.names (String.ofList (name ++ '/' :: text))) location =
      match nodeAt? root (goto location (String.ofList name)) with
      | some (.folder _) =>
        follow root (Path.names (String.ofList text)) (goto location (String.ofList name))
      | _ => .missing := by
  have hSize := hShort name (List.prefix_append _ _).isInfix hName.no_slash
  have hMore : (Path.names (String.ofList ('/' :: text))).isEmpty = false :=
    List.isEmpty_eq_false_iff.2 (Path.names_ne_nil (List.cons_ne_nil _ _))
  rw [Path.names_enter hName, follow_cons hFolder hSize, follow_slash, hMore]
  cases nodeAt? root (goto location (String.ofList name)) with
  | none => rfl
  | some node => cases node <;> rfl

theorem follow_of_finds {text : List Char} (h : Finds root location text found)
    (hFolder : IsFolder root location) (hShort : Path.ShortNames text) :
    follow root (Path.names (String.ofList text)) location = regular found := by
  -- Every step starts from a folder again, since the way goes on in folders only.
  induction h with
  | here hNode =>
    obtain ⟨entries, hEntries⟩ := hFolder
    rw [hNode] at hEntries
    cases hEntries
    rfl
  | slash hFinds ih =>
    rw [follow_slash, ih hFolder (hShort.of_infix (List.suffix_cons _ _).isInfix)]
  | last hName hNode => rw [follow_last hName hFolder hShort, hNode]
  | missing hName hNode =>
    rw [follow_last hName hFolder hShort, hNode]
    rfl
  | @enter location name text entries found hName hNode hFinds ih =>
    have hBehind : text <:+: name ++ '/' :: text :=
      ((List.suffix_cons _ _).trans (List.suffix_append _ _)).isInfix
    rw [follow_enter hName hFolder hShort, hNode]
    exact ih ⟨entries, hNode⟩ (hShort.of_infix hBehind)
  | missingFolder hName hNode =>
    rw [follow_enter hName hFolder hShort, hNode]
    rfl
  | @notFolder location name text node hName hNode hOther =>
    rw [follow_enter hName hFolder hShort, hNode]
    cases node with
    | file contents => rfl
    | special => rfl
    | folder entries => exact absurd rfl (hOther entries)

theorem lookup_of_resolves (hWorking : IsFolder fs.root fs.working) (hPath : Path.Accepted path)
    (h : fs.Resolves path found) : fs.lookup path = regular found := by
  have hNul : ¬ path.toList.contains '\x00' = true :=
    fun h => hPath.no_nul (List.contains_iff_mem.1 h)
  rw [lookup, if_neg hNul, if_neg (Nat.not_le.2 hPath.short)]
  cases h with
  | empty => rfl
  | path hNonempty hFinds =>
    have hFollow := follow_of_finds hFinds (isFolder_start hWorking path) hPath.short_names
    rwa [String.ofList_toList] at hFollow

end FileSystem

end ManagedImage
