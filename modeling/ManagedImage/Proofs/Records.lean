import ManagedImage.Headers
import ManagedImage.Proofs.Outcome
import ManagedImage.Proofs.Values
import ManagedImage.RuntimeHeader

/-!
# The fields of records at offsets

A record that stands at an offset has its fields at offsets of their own. The equations below give
these offsets, and turn the reads of the optional header, its directories and the section table into
questions about the length of the data and the values at those offsets.

* `OptionalHeader.read_eq`, `OptionalHeader.readDirectories_eq`: the magic number selects a layout,
  and the directories follow the fixed part.
* `Section.readTable_eq`, `Section.mapM_ofEntry`: the entries of the section table lie behind each
  other, and only a defective reference in a name spoils them.
-/

namespace ManagedImage

/-! ## The fields of the records -/

section Records

variable (data : Bytes) (offset : Nat)

theorem CoffHeader.valueAt_eq :
    FixedWidth.valueAt CoffHeader data offset =
      ⟨FixedWidth.valueAt UInt16 data offset, FixedWidth.valueAt UInt16 data (offset + 2),
        FixedWidth.valueAt UInt32 data (offset + 4), FixedWidth.valueAt UInt32 data (offset + 8),
        FixedWidth.valueAt UInt32 data (offset + 12), FixedWidth.valueAt UInt16 data (offset + 16),
        FixedWidth.valueAt UInt16 data (offset + 18)⟩ := by
  unfold CoffHeader.instFixedWidth
  rw [FixedWidth.valueAt_via]
  simp only [FixedWidth.valueAt_pair]
  rfl

theorem DataDirectory.valueAt_eq :
    FixedWidth.valueAt DataDirectory data offset =
      ⟨FixedWidth.valueAt UInt32 data offset, FixedWidth.valueAt UInt32 data (offset + 4)⟩ := by
  unfold DataDirectory.instFixedWidth
  rw [FixedWidth.valueAt_via, FixedWidth.valueAt_pair]
  rfl

theorem RuntimeHeader.valueAt_eq :
    FixedWidth.valueAt RuntimeHeader data offset =
      ⟨FixedWidth.valueAt UInt32 data offset,
        ⟨FixedWidth.valueAt UInt16 data (offset + 4), FixedWidth.valueAt UInt16 data (offset + 6)⟩,
        FixedWidth.valueAt DataDirectory data (offset + 8),
        ⟨FixedWidth.valueAt UInt32 data (offset + 16)⟩⟩ := by
  unfold RuntimeHeader.instFixedWidth
  rw [FixedWidth.valueAt_via]
  simp only [FixedWidth.valueAt_pair]
  unfold instFixedWidthVersion
  rw [FixedWidth.valueAt_via, FixedWidth.valueAt_pair]
  rfl

theorem DosHeader.signature_valueAt :
    (FixedWidth.valueAt DosHeader data offset).signature =
      FixedWidth.valueAt UInt16 data offset := by
  unfold DosHeader.instFixedWidth
  rw [FixedWidth.valueAt_via, FixedWidth.valueAt_pair]

theorem DosHeader.peOffset_valueAt :
    (FixedWidth.valueAt DosHeader data offset).peOffset =
      FixedWidth.valueAt UInt32 data (offset + DosHeader.peOffsetField) := by
  unfold DosHeader.instFixedWidth
  rw [FixedWidth.valueAt_via]
  simp only [FixedWidth.valueAt_pair]
  rfl

/-- The header offset is the last field, so strings that agree before it differ only there. -/
theorem DosHeader.valueAt_eq_of_agreeOn {a b : Bytes} (h : a.AgreeOn b 0 peOffsetField) :
    FixedWidth.valueAt DosHeader a 0 =
      { FixedWidth.valueAt DosHeader b 0 with
        peOffset := FixedWidth.valueAt UInt32 a peOffsetField } := by
  unfold DosHeader.instFixedWidth
  rw [FixedWidth.valueAt_via, FixedWidth.valueAt_via]
  simp only [FixedWidth.valueAt_pair]
  congr 1 <;> exact (h.mono (by decide) (by decide)).valueAt_eq

theorem SectionEntry.placement_valueAt :
    (FixedWidth.valueAt SectionEntry data offset).placement =
      FixedWidth.valueAt Placement data (offset + 8) := by
  unfold instFixedWidthSectionEntry
  rw [FixedWidth.valueAt_via]
  simp only [FixedWidth.valueAt_pair]
  rfl

/-- The name of an entry is the first eight of its bytes. -/
theorem SectionEntry.name_valueAt (h : offset + 8 ≤ data.length) :
    (FixedWidth.valueAt SectionEntry data offset).name.toList = (data.drop offset).take 8 := by
  have hName : (FixedWidth.valueAt SectionEntry data offset).name =
      FixedWidth.valueAt (Vector UInt8 8) data offset := by
    unfold instFixedWidthSectionEntry
    rw [FixedWidth.valueAt_via, FixedWidth.valueAt_pair]
  have hSlice : ((data.drop offset).take 8).length = FixedWidth.width (Vector UInt8 8) := by
    rw [List.length_take, List.length_drop]
    show min 8 (data.length - offset) = 8
    omega
  have hBytes : (FixedWidth.encode : UInt8 → Bytes) = fun b => [b] := by
    funext b
    show [UInt8.ofNat b.toNat] = [b]
    rw [UInt8.ofNat_toNat]
  have hRound := FixedWidth.encode_decode (α := Vector UInt8 8) _ hSlice
  rw [hName]
  calc (FixedWidth.valueAt (Vector UInt8 8) data offset).toList
    _ = (FixedWidth.valueAt (Vector UInt8 8) data offset).toList.flatMap FixedWidth.encode := by
      rw [hBytes, List.flatMap_singleton']
    _ = (data.drop offset).take 8 := hRound

end Records

/-! ## The optional header -/

namespace OptionalHeader

/-- The fixed part that stands at an offset in the layout of a format. -/
def valueAt (format : Format) (data : Bytes) (offset : Nat) : OptionalHeader :=
  match format with
  | .pe32 =>
    .pe32 (FixedWidth.valueAt StandardFields data (offset + 2))
      (FixedWidth.valueAt UInt32 data (offset + 24))
      (FixedWidth.valueAt (WindowsFields UInt32) data (offset + 28))
  | .pe32Plus =>
    .pe32Plus (FixedWidth.valueAt StandardFields data (offset + 2))
      (FixedWidth.valueAt (WindowsFields UInt64) data (offset + 24))

@[simp] theorem format_valueAt (format : Format) (data : Bytes) (offset : Nat) :
    (valueAt format data offset).format = format := by
  cases format <;> rfl

theorem directoryCount_valueAt (format : Format) (data : Bytes) (offset : Nat) :
    (valueAt format data offset).directoryCount =
      FixedWidth.valueAt UInt32 data (offset + format.fixedSize - 4) := by
  cases format with
  | pe32 =>
    show (FixedWidth.valueAt (WindowsFields UInt32) data (offset + 28)).directoryCount = _
    unfold instFixedWidthWindowsFields
    rw [FixedWidth.valueAt_via]
    simp only [FixedWidth.valueAt_pair]
    rfl
  | pe32Plus =>
    show (FixedWidth.valueAt (WindowsFields UInt64) data (offset + 24)).directoryCount = _
    unfold instFixedWidthWindowsFields
    rw [FixedWidth.valueAt_via]
    simp only [FixedWidth.valueAt_pair]
    rfl

theorem valueAt_eq_of_agreeOn {format : Format} {a b : Bytes} {offset : Nat}
    (h : a.AgreeOn b offset (offset + format.fixedSize)) :
    valueAt format a offset = valueAt format b offset := by
  have hStandard : FixedWidth.width StandardFields = 22 := rfl
  have hWord : FixedWidth.width UInt32 = 4 := rfl
  have hWindows : FixedWidth.width (WindowsFields UInt32) = 68 := rfl
  have hWindowsPlus : FixedWidth.width (WindowsFields UInt64) = 88 := rfl
  cases format with
  | pe32 =>
    have hSize : Format.pe32.fixedSize = 96 := rfl
    rw [valueAt, valueAt, (h.mono (by omega) (by omega)).valueAt_eq,
      (h.mono (by omega) (by omega) : a.AgreeOn b (offset + 24) _).valueAt_eq,
      (h.mono (by omega) (by omega) : a.AgreeOn b (offset + 28) _).valueAt_eq]
  | pe32Plus =>
    have hSize : Format.pe32Plus.fixedSize = 112 := rfl
    rw [valueAt, valueAt, (h.mono (by omega) (by omega)).valueAt_eq,
      (h.mono (by omega) (by omega) : a.AgreeOn b (offset + 24) _).valueAt_eq]

/-- The magic number selects the layout in which the fixed part is read. -/
theorem read_eq (data : Bytes) (offset : Nat) :
    read data offset =
      if offset + 2 ≤ data.length then
        match Format.ofMagic? (FixedWidth.valueAt UInt16 data offset) with
        | none => .error (.malformed (.magic (FixedWidth.valueAt UInt16 data offset).toNat))
        | some format =>
          if offset + format.fixedSize ≤ data.length then .ok (valueAt format data offset)
          else .error .outOfBounds
      else .error .outOfBounds := by
  rw [read, FixedWidth.read_eq (α := UInt16), show FixedWidth.width UInt16 = 2 from rfl]
  by_cases hMagic : offset + 2 ≤ data.length
  · rw [if_pos hMagic, if_pos hMagic, ok_bind]
    cases Format.ofMagic? (FixedWidth.valueAt UInt16 data offset) with
    | none => rfl
    | some format =>
      cases format with
      | pe32 =>
        show (FixedWidth.read data offset >>= fun _ => _) = _
        rw [FixedWidth.read_eq, show FixedWidth.width
          (UInt16 × StandardFields × UInt32 × WindowsFields UInt32) = Format.pe32.fixedSize from rfl]
        by_cases hFits : offset + Format.pe32.fixedSize ≤ data.length
        · rw [if_pos hFits]
          simp only [hFits, if_true, FixedWidth.valueAt_pair]
          rfl
        · rw [if_neg hFits]
          simp only [hFits, if_false]
          rfl
      | pe32Plus =>
        show (FixedWidth.read data offset >>= fun _ => _) = _
        rw [FixedWidth.read_eq, show FixedWidth.width
          (UInt16 × StandardFields × WindowsFields UInt64) = Format.pe32Plus.fixedSize from rfl]
        by_cases hFits : offset + Format.pe32Plus.fixedSize ≤ data.length
        · rw [if_pos hFits]
          simp only [hFits, if_true, FixedWidth.valueAt_pair]
          rfl
        · rw [if_neg hFits]
          simp only [hFits, if_false]
          rfl
  · rw [if_neg hMagic, if_neg hMagic]
    rfl

theorem read_eq_ok_iff {data : Bytes} {offset : Nat} {header : OptionalHeader} :
    read data offset = .ok header ↔
      ∃ format, FixedWidth.valueAt UInt16 data offset = format.magic ∧
        offset + format.fixedSize ≤ data.length ∧ header = valueAt format data offset := by
  rw [read_eq]
  constructor
  · intro h
    split at h
    · split at h
      · cases h
      · rename_i format hFormat
        split at h
        · rename_i hFits
          cases h
          exact ⟨format, Format.ofMagic?_eq_some_iff.1 hFormat, hFits, rfl⟩
        · cases h
    · cases h
  · intro h
    obtain ⟨format, hMagic, hFits, rfl⟩ := h
    have hMin : 2 ≤ format.fixedSize := by cases format <;> decide
    rw [if_pos (by omega), Format.ofMagic?_eq_some_iff.2 hMagic]
    exact if_pos hFits

/-- The directories follow the fixed part, unless there are too many of them. -/
theorem readDirectories_eq (header : OptionalHeader) (data : Bytes) (offset : Nat) :
    header.readDirectories data offset =
      if DataDirectory.maxCount < header.directoryCount.toNat then
        .error (.malformed (.entity (.tooManyDirectories header.directoryCount.toNat)))
      else if offset + header.format.fixedSize + header.directoryCount.toNat * 8 ≤ data.length then
        .ok ((List.range header.directoryCount.toNat).map fun i =>
          FixedWidth.valueAt DataDirectory data (offset + header.format.fixedSize + i * 8))
      else .error .outOfBounds := by
  rw [readDirectories]
  by_cases hMany : DataDirectory.maxCount < header.directoryCount.toNat
  · rw [if_pos hMany, if_pos hMany]
  · rw [if_neg hMany, if_neg hMany, FixedWidth.read_eq, show FixedWidth.width
      (Vector DataDirectory header.directoryCount.toNat) = header.directoryCount.toNat * 8 from rfl]
    by_cases hFits :
        offset + header.format.fixedSize + header.directoryCount.toNat * 8 ≤ data.length
    · rw [if_pos hFits, if_pos hFits]
      exact congrArg Except.ok (FixedWidth.toList_valueAt_vector data _ _)
    · rw [if_neg hFits, if_neg hFits]
      rfl

theorem readDirectories_eq_ok_iff {header : OptionalHeader} {data : Bytes} {offset : Nat}
    {directories : List DataDirectory} :
    header.readDirectories data offset = .ok directories ↔
      header.directoryCount.toNat ≤ 16 ∧
        offset + header.format.fixedSize + header.directoryCount.toNat * 8 ≤ data.length ∧
        directories = (List.range header.directoryCount.toNat).map fun i =>
          FixedWidth.valueAt DataDirectory data (offset + header.format.fixedSize + i * 8) := by
  rw [readDirectories_eq, show DataDirectory.maxCount = 16 from rfl]
  constructor
  · intro h
    split at h
    · cases h
    · split at h
      · rename_i hMany hFits
        cases h
        exact ⟨Nat.not_lt.1 hMany, hFits, rfl⟩
      · cases h
  · intro h
    obtain ⟨hCount, hFits, rfl⟩ := h
    rw [if_neg (Nat.not_lt.2 hCount), if_pos hFits]

end OptionalHeader

/-! ## The section table -/

namespace Section

/-- The section that an entry describes, with the long name that it refers to if there is one. -/
def describedBy (data : Bytes) (stringTable : Nat) (entry : SectionEntry) : Section where
  entry := entry
  longName :=
    match SectionName.reference? entry.name.toList with
    | .ok (some place) => SectionName.stringAt? data (stringTable + place)
    | _ => none

/-- An entry is read unless its name is a defective reference. -/
theorem ofEntry_eq (data : Bytes) (stringTable : Nat) (entry : SectionEntry) :
    ofEntry data stringTable entry =
      (SectionName.reference? entry.name.toList).map fun _ => describedBy data stringTable entry := by
  unfold ofEntry SectionName.longName? describedBy
  cases SectionName.reference? entry.name.toList with
  | error e => rfl
  | ok reference => cases reference <;> rfl

/-- All entries are read unless the name of one of them is a defective reference; the first such
name gives the error. -/
theorem mapM_ofEntry (data : Bytes) (stringTable : Nat) (entries : List SectionEntry) :
    entries.mapM (ofEntry data stringTable) =
      (entries.mapM fun entry => SectionName.reference? entry.name.toList).map fun _ =>
        entries.map (describedBy data stringTable) := by
  induction entries with
  | nil => rfl
  | cons entry rest ih =>
    rw [List.mapM_cons, List.mapM_cons, ih, ofEntry_eq]
    cases SectionName.reference? entry.name.toList with
    | error e => rfl
    | ok reference =>
      cases rest.mapM fun entry => SectionName.reference? entry.name.toList <;> rfl

/-- The entries of the table lie behind each other, and a count that is too large for the data is
one too large for what follows the offset. -/
theorem readTable_eq (data : Bytes) (offset count stringTable : Nat) :
    readTable data offset count stringTable =
      if offset + count * CoffHeader.sectionEntrySize ≤ data.length then
        ((List.range count).map fun i => FixedWidth.valueAt SectionEntry data
          (offset + i * CoffHeader.sectionEntrySize)).mapM (ofEntry data stringTable)
      else .error .outOfBounds := by
  rw [readTable, FixedWidth.read_eq, show FixedWidth.width
    (Vector SectionEntry count) = count * CoffHeader.sectionEntrySize from rfl]
  by_cases hFits : offset + count * CoffHeader.sectionEntrySize ≤ data.length
  · have hCount : ¬ data.length / CoffHeader.sectionEntrySize < count := by
      rw [show CoffHeader.sectionEntrySize = 40 from rfl] at hFits ⊢
      omega
    rw [if_neg hCount, if_pos hFits, if_pos hFits]
    show (FixedWidth.valueAt (Vector SectionEntry count) data offset).toList.mapM _ = _
    rw [FixedWidth.toList_valueAt_vector]
    rfl
  · rw [if_neg hFits, if_neg hFits]
    exact ite_self _

end Section

end ManagedImage
