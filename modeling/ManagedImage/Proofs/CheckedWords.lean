import ManagedImage.Header.Coff
import ManagedImage.Header.Optional
import ManagedImage.RuntimeHeader
import ManagedImage.Section.Placement
import ManagedImage.Width

/-!
# Words that do not wrap

The offsets of an image are natural numbers in the model, and 64-bit words in a machine. Here the
machine computes them, and stops at a trap where a word would differ from the number it stands for,
where a slice would leave its data, and where a conversion would lose something.

* `Trap`: the reasons to stop.
* `Word.sum`, `Word.product`, `Word.difference`, `Word.index`, `Word.slice` and `Word.exactly` are
  the steps that can stop.
* `Word.Computes`: a computation does not stop and comes to a number below the bound of all offsets.
  Each offset that is computed from the fields of an image has such a lemma, whatever the fields
  are.
* `Word.checkDirectories_eq`, `Word.offsetOf_eq`, `Word.fieldAt_eq`: the checks and the translation
  that are made of such steps never stop, and give what they give with natural numbers.
-/

namespace ManagedImage

/-- Why a checked computation stops. -/
inductive Trap
  /-- A sum or a product is not exact, or not below the bound of all offsets. -/
  | sum
  /-- A difference is below zero. -/
  | difference
  /-- A slice does not lie within its data. -/
  | slice
  /-- An offset is no index. -/
  | index
  /-- A position would leave the bound of all offsets. -/
  | position
  /-- A field has another length than its width. -/
  | fieldLength
  /-- A buffer has no room for so many entries of the section table. -/
  | tableLength
  deriving DecidableEq, Repr

namespace Word

/-- The bound of all offsets that the fields of an image lead to. -/
def bound : Nat := 0x1000000000

theorem add_lt_addressSpace {m n : Nat} (hm : m < bound) (hn : n ≤ bound) :
    m + n < addressSpace := by
  simp only [bound] at hm hn
  simp only [addressSpace]
  omega

/-! ## Steps -/

def sum (a b : UInt64) : Except Trap UInt64 :=
  if a.toNat + b.toNat < bound then .ok (a + b) else .error .sum

def product (a b : UInt64) : Except Trap UInt64 :=
  if a.toNat * b.toNat < bound then .ok (a * b) else .error .sum

def difference (a b : UInt32) : Except Trap UInt32 :=
  if b ≤ a then .ok (a - b) else .error .difference

/-- The index that an offset is, in an address space of 64 bits. -/
def index (offset : UInt64) : Except Trap Nat :=
  if offset.toNat < addressSpace then .ok offset.toNat else .error .index

/-- The bytes from `start` up to `stop`. -/
def slice (data : Bytes) (start stop : Nat) : Except Trap Bytes :=
  if start ≤ stop ∧ stop ≤ data.length then .ok ((data.drop start).take (stop - start))
  else .error .slice

/-- The bytes from `start` on. -/
def sliceFrom (data : Bytes) (start : Nat) : Except Trap Bytes := slice data start data.length

/-- The bytes of a field, of which there have to be as many as it is wide. -/
def exactly (width : Width) (bytes : Bytes) : Except Trap Bytes :=
  if bytes.length = width.size then .ok bytes else .error .fieldLength

/-- The sum of two words, unless it wraps. -/
def sum? (a b : UInt64) : Option UInt64 := if a + b < a then none else some (a + b)

theorem index_eq (w : UInt64) : index w = .ok w.toNat := if_pos w.toNat_lt

theorem slice_eq {data : Bytes} {start stop : Nat} (hStart : start ≤ stop)
    (hStop : stop ≤ data.length) :
    slice data start stop = .ok ((data.drop start).take (stop - start)) := if_pos ⟨hStart, hStop⟩

theorem sliceFrom_eq {data : Bytes} {start : Nat} (h : start ≤ data.length) :
    sliceFrom data start = .ok (data.drop start) := by
  have hRest : (data.drop start).length ≤ data.length - start :=
    Nat.le_of_eq List.length_drop
  rw [sliceFrom, slice_eq h (Nat.le_refl _), List.take_of_length_le hRest]

theorem sum?_eq_some {a b : UInt64} (h : a.toNat + b.toNat < addressSpace) :
    ∃ c, sum? a b = some c ∧ c.toNat = a.toNat + b.toNat := by
  have hExact : (a + b).toNat = a.toNat + b.toNat :=
    (UInt64.toNat_add a b).trans (Nat.mod_eq_of_lt h)
  have hWrap : ¬ a + b < a := by
    rw [UInt64.lt_iff_toNat_lt, hExact]
    omega
  exact ⟨a + b, if_neg hWrap, hExact⟩

theorem sum?_eq_none {a b : UInt64} (h : ¬ a.toNat + b.toNat < addressSpace) :
    sum? a b = none := by
  have ha := a.toNat_lt
  have hb := b.toNat_lt
  have hWrap : a + b < a := by
    rw [UInt64.lt_iff_toNat_lt, UInt64.toNat_add]
    simp only [addressSpace] at h
    omega
  exact if_pos hWrap

/-- The computation does not stop, and comes to a number below the bound. -/
def Computes (x : Except Trap UInt64) (n : Nat) : Prop :=
  n < bound ∧ ∃ word, x = .ok word ∧ word.toNat = n

variable {x y : Except Trap UInt64} {m n : Nat}

theorem Computes.literal (h : n < bound) : Computes (.ok (UInt64.ofNat n)) n :=
  ⟨h, _, rfl, UInt64.toNat_ofNat_of_lt' (Nat.lt_trans h (by decide))⟩

theorem Computes.short (w : UInt16) : Computes (.ok w.toUInt64) w.toNat :=
  ⟨Nat.lt_trans w.toNat_lt (by decide), _, rfl, UInt16.toNat_toUInt64 w⟩

theorem Computes.long (w : UInt32) : Computes (.ok w.toUInt64) w.toNat :=
  ⟨Nat.lt_trans w.toNat_lt (by decide), _, rfl, UInt32.toNat_toUInt64 w⟩

theorem Computes.sum (hx : Computes x m) (hy : Computes y n) (h : m + n < bound) :
    Computes (do Word.sum (← x) (← y)) (m + n) := by
  obtain ⟨-, a, rfl, rfl⟩ := hx
  obtain ⟨-, b, rfl, rfl⟩ := hy
  have hWrap : a.toNat + b.toNat < 2 ^ 64 := Nat.lt_trans h (by decide)
  exact ⟨h, a + b, if_pos h, by rw [UInt64.toNat_add, Nat.mod_eq_of_lt hWrap]⟩

theorem Computes.product (hx : Computes x m) (hy : Computes y n) (h : m * n < bound) :
    Computes (do Word.product (← x) (← y)) (m * n) := by
  obtain ⟨-, a, rfl, rfl⟩ := hx
  obtain ⟨-, b, rfl, rfl⟩ := hy
  have hWrap : a.toNat * b.toNat < 2 ^ 64 := Nat.lt_trans h (by decide)
  exact ⟨h, a * b, if_pos h, by rw [UInt64.toNat_mul, Nat.mod_eq_of_lt hWrap]⟩

/-! ## Offsets of the headers -/

section Offsets

variable (peOffset : UInt32) (coff : CoffHeader)

/-- Where the file header begins, behind the four bytes of the signature. -/
def coffOffset : Except Trap UInt64 := sum peOffset.toUInt64 (UInt64.ofNat 4)

def optionalOffset : Except Trap UInt64 :=
  sum peOffset.toUInt64 (UInt64.ofNat CoffHeader.signedSize)

def tableOffset : Except Trap UInt64 := do
  sum (← optionalOffset peOffset) coff.optionalHeaderSize.toUInt64

def tableEnd : Except Trap UInt64 := do
  sum (← tableOffset peOffset coff)
    (← product coff.sectionCount.toUInt64 (UInt64.ofNat CoffHeader.sectionEntrySize))

def optionalEnd : Except Trap UInt64 := do
  sum (← optionalOffset peOffset) (UInt64.ofNat CoffHeader.largestOptionalHeader)

/-- The end of `count` directories, counted from the start of the optional header. -/
def directoriesEnd (format : Format) (count : UInt32) : Except Trap UInt64 := do
  sum (UInt64.ofNat format.fixedSize) (← product count.toUInt64 (UInt64.ofNat 8))

theorem computes_coffOffset : Computes (coffOffset peOffset) (peOffset.toNat + 4) := by
  have hOffset := peOffset.toNat_lt
  exact (Computes.long peOffset).sum (.literal (by decide)) (by simp only [bound]; omega)

theorem computes_optionalOffset :
    Computes (optionalOffset peOffset) (CoffHeader.optionalOffset peOffset.toNat) := by
  have hOffset := peOffset.toNat_lt
  refine (Computes.long peOffset).sum (.literal (by decide)) ?_
  simp only [bound, CoffHeader.signedSize]
  omega

theorem computes_tableOffset :
    Computes (tableOffset peOffset coff) (coff.tableOffset peOffset.toNat) := by
  have hOffset := peOffset.toNat_lt
  have hSize := coff.optionalHeaderSize.toNat_lt
  refine (computes_optionalOffset peOffset).sum (.short coff.optionalHeaderSize) ?_
  simp only [bound, CoffHeader.optionalOffset, CoffHeader.signedSize]
  omega

theorem computes_tableEnd : Computes (tableEnd peOffset coff) (coff.tableEnd peOffset.toNat) := by
  have hEnd := CoffHeader.tableEnd_lt peOffset coff
  have hCount := coff.sectionCount.toNat_lt
  have hTable : coff.sectionCount.toNat * CoffHeader.sectionEntrySize < bound := by
    simp only [bound, CoffHeader.sectionEntrySize]
    omega
  exact (computes_tableOffset peOffset coff).sum
    ((Computes.short coff.sectionCount).product (.literal (by decide)) hTable)
    (Nat.lt_trans hEnd (by decide))

theorem computes_optionalEnd :
    Computes (optionalEnd peOffset) (CoffHeader.optionalEnd peOffset.toNat) := by
  have hOffset := peOffset.toNat_lt
  refine (computes_optionalOffset peOffset).sum (.literal (by decide)) ?_
  simp only [bound, CoffHeader.optionalOffset, CoffHeader.signedSize,
    CoffHeader.largestOptionalHeader]
  omega

theorem computes_directoriesEnd (format : Format) (count : UInt32) :
    Computes (directoriesEnd format count) (format.fixedSize + count.toNat * 8) := by
  have hCount := count.toNat_lt
  have hProduct : count.toNat * 8 < bound := by
    simp only [bound]
    omega
  have hFixed : format.fixedSize ≤ 112 := by cases format <;> decide
  refine (Computes.literal (Nat.lt_of_le_of_lt hFixed (by decide))).sum
    ((Computes.long count).product (.literal (by decide)) hProduct) ?_
  simp only [bound]
  omega

/-- Checks that `count` directories end within an optional header of the declared size. -/
def checkDirectories (format : Format) (count : UInt32) (headerSize : UInt16) :
    Except Trap (Except Error Unit) := do
  let stop ← directoriesEnd format count
  if headerSize.toUInt64 < stop then
    return .error (.malformed (.directoriesOverrun headerSize.toNat count.toNat))
  else return .ok ()

theorem checkDirectories_eq (format : Format) (count : UInt32) (headerSize : UInt16) :
    checkDirectories format count headerSize =
      .ok (ManagedImage.checkDirectories format count headerSize) := by
  obtain ⟨-, stop, hStop, hExact⟩ := computes_directoriesEnd format count
  have hFits : format.fixedSize + count.toNat * FixedWidth.width DataDirectory ≤
      headerSize.toNat ↔ ¬ headerSize.toUInt64 < stop := by
    rw [UInt64.lt_iff_toNat_lt, UInt16.toNat_toUInt64, hExact]
    exact Nat.not_lt.symm
  unfold checkDirectories ManagedImage.checkDirectories
  rw [hStop]
  by_cases hOver : headerSize.toUInt64 < stop
  · rw [if_neg fun h => hFits.1 h hOver]
    exact if_pos hOver
  · rw [if_pos (hFits.2 hOver)]
    exact if_neg hOver

end Offsets

/-! ## Offsets of sections -/

section Sections

variable (p : Placement) (rva : UInt32)

/-- The first address behind a section. -/
def addressEnd : Except Trap UInt64 := sum p.virtualAddress.toUInt64 p.extent.toUInt64

def fileOffset : Except Trap UInt64 := do
  let delta ← difference rva p.virtualAddress
  sum p.rawPointer.toUInt64 delta.toUInt64

/-- The end of a runtime header that stands at the offset of the address. -/
def runtimeEnd : Except Trap UInt64 := do sum (← fileOffset p rva) (UInt64.ofNat 20)

/-- The address lies in the section; the end of the section is computed only if it lies behind the
start. -/
def covers : Except Trap Bool := do
  if p.virtualAddress ≤ rva then return rva.toUInt64 < (← addressEnd p)
  else return false

/-- The offset in the file of an address in the loaded image, if a section covers it. -/
def search : List Placement → Except Trap (Option UInt64)
  | [] => return none
  | p :: rest => do
    if ← covers p rva then return some (← fileOffset p rva)
    else search rest

def offsetOf (sections : List Placement) : Except Trap (Except Error UInt64) := do
  match ← search rva sections with
  | some offset => return .ok offset
  | none => return .error (.malformed (.uncoveredAddress rva.toNat sections.length))

theorem computes_addressEnd :
    Computes (addressEnd p) (p.virtualAddress.toNat + p.extent.toNat) := by
  have hStart := p.virtualAddress.toNat_lt
  have hExtent := p.extent.toNat_lt
  exact (Computes.long p.virtualAddress).sum (.long p.extent) (by simp only [bound]; omega)

theorem covers_eq : covers p rva = .ok (p.covers rva) := by
  obtain ⟨-, stop, hStop, hExact⟩ := computes_addressEnd p
  unfold covers Placement.covers
  rw [hStop, ← hExact, ← UInt32.toNat_toUInt64]
  by_cases hStart : p.virtualAddress ≤ rva
  · rw [if_pos hStart, decide_eq_true hStart, Bool.true_and]
    exact congrArg Except.ok (decide_eq_decide.2 UInt64.lt_iff_toNat_lt)
  · rw [if_neg hStart, decide_eq_false hStart, Bool.false_and]
    rfl

variable {p rva}

theorem computes_fileOffset (h : p.virtualAddress ≤ rva) :
    Computes (fileOffset p rva) (p.fileOffset rva) := by
  have hRva := rva.toNat_lt
  have hPointer := p.rawPointer.toNat_lt
  have hDelta : (rva - p.virtualAddress).toNat = rva.toNat - p.virtualAddress.toNat :=
    UInt32.toNat_sub_of_le _ _ h
  have hDifference : difference rva p.virtualAddress = .ok (rva - p.virtualAddress) := if_pos h
  unfold fileOffset Placement.fileOffset
  rw [hDifference, ← hDelta]
  refine (Computes.long p.rawPointer).sum (.long (rva - p.virtualAddress)) ?_
  simp only [bound, hDelta]
  omega

theorem computes_runtimeEnd (h : p.virtualAddress ≤ rva) :
    Computes (runtimeEnd p rva) (p.fileOffset rva + 20) := by
  have hOffset := p.fileOffset_lt rva
  exact (computes_fileOffset h).sum (.literal (by decide)) (by simp only [bound]; omega)

theorem search_eq (sections : List Placement) :
    ∃ found, search rva sections = .ok found ∧
      found.map UInt64.toNat = (sections.find? (·.covers rva)).map (·.fileOffset rva) := by
  induction sections with
  | nil => exact ⟨none, rfl, rfl⟩
  | cons p rest ih =>
    unfold search
    rw [covers_eq, List.find?_cons]
    cases hCovers : p.covers rva with
    | false => exact ih
    | true =>
      have hStart : p.virtualAddress ≤ rva :=
        UInt32.le_iff_toNat_le.2 (Placement.covers_iff.1 hCovers).1
      obtain ⟨-, offset, hOffset, hExact⟩ := computes_fileOffset hStart
      refine ⟨some offset, ?_, congrArg some hExact⟩
      show (fileOffset p rva >>= fun offset => pure (some offset)) = _
      rw [hOffset]
      rfl

theorem offsetOf_eq (sections : List Placement) :
    ∃ found, offsetOf rva sections = .ok found ∧
      found.map UInt64.toNat = Placement.offsetOf sections rva := by
  obtain ⟨found, hSearch, hFound⟩ := @search_eq rva sections
  unfold offsetOf Placement.offsetOf
  rw [hSearch]
  cases hFind : sections.find? (·.covers rva) with
  | none =>
    rw [hFind, Option.map_none, Option.map_eq_none_iff] at hFound
    subst hFound
    exact ⟨_, rfl, rfl⟩
  | some p =>
    rw [hFind, Option.map_some, Option.map_eq_some_iff] at hFound
    obtain ⟨offset, rfl, hExact⟩ := hFound
    exact ⟨_, rfl, congrArg Except.ok hExact⟩

end Sections

/-! ## All sums -/

/-- The sums that a read makes of the fields of the headers are exact and below the bound of all
offsets, whatever the fields are. An offset in the file is computed where a section covers the
address. -/
structure SumsExact (peOffset : UInt32) (coff : CoffHeader) (format : Format) (count : UInt32)
    (p : Placement) (rva : UInt32) : Prop where
  optionalOffset : Computes (optionalOffset peOffset) (peOffset.toNat + 24)
  tableEnd : Computes (tableEnd peOffset coff)
    (peOffset.toNat + 24 + coff.optionalHeaderSize.toNat + 40 * coff.sectionCount.toNat)
  optionalEnd : Computes (optionalEnd peOffset) (peOffset.toNat + 24 + 240)
  directoriesEnd : Computes (directoriesEnd format count) (format.fixedSize + 8 * count.toNat)
  addressEnd : Computes (addressEnd p) (p.virtualAddress.toNat + p.extent.toNat)
  fileOffset : p.covers rva = true → Computes (fileOffset p rva)
    (p.rawPointer.toNat + (rva.toNat - p.virtualAddress.toNat))
  runtimeEnd : p.covers rva = true → Computes (runtimeEnd p rva)
    (p.rawPointer.toNat + (rva.toNat - p.virtualAddress.toNat) + 20)

theorem sumsExact (peOffset : UInt32) (coff : CoffHeader) (format : Format) (count : UInt32)
    (p : Placement) (rva : UInt32) : SumsExact peOffset coff format count p rva where
  optionalOffset := computes_optionalOffset peOffset
  tableEnd := by
    rw [Nat.mul_comm 40]
    exact computes_tableEnd peOffset coff
  optionalEnd := computes_optionalEnd peOffset
  directoriesEnd := by
    rw [Nat.mul_comm 8]
    exact computes_directoriesEnd format count
  addressEnd := computes_addressEnd p
  fileOffset h := computes_fileOffset (UInt32.le_iff_toNat_le.2 (Placement.covers_iff.1 h).1)
  runtimeEnd h := computes_runtimeEnd (UInt32.le_iff_toNat_le.2 (Placement.covers_iff.1 h).1)

/-! ## Fields -/

/-- Reads an integer at an offset, and gives the offset at which to go on. -/
def fieldAt (width : Width) (data : Bytes) (offset : UInt64) :
    Except Trap (Except Error Nat × UInt64) :=
  match sum? offset (UInt64.ofNat width.size) with
  | none => return (.error .outOfBounds, offset)
  | some stop => do
    if data.length < stop.toNat then return (.error .outOfBounds, offset)
    else
      let field ← exactly width (← slice data offset.toNat stop.toNat)
      return (.ok (leValue field), stop)

theorem fieldAt_eq (width : Width) (data : Bytes) (offset : UInt64) :
    ∃ next, fieldAt width data offset = .ok ((width.readAt data offset.toNat).1, next) ∧
      next.toNat = (width.readAt data offset.toNat).2 := by
  have hSize : (UInt64.ofNat width.size).toNat = width.size := by cases width <;> rfl
  unfold fieldAt Width.readAt
  by_cases hSpace : offset.toNat + width.size < addressSpace
  · obtain ⟨stop, hStop, hExact⟩ :=
      @sum?_eq_some offset (UInt64.ofNat width.size) (by rw [hSize]; exact hSpace)
    rw [hSize] at hExact
    rw [hStop, if_pos hSpace]
    dsimp only
    rw [hExact, Bytes.slice?]
    by_cases hFits : offset.toNat + width.size ≤ data.length
    · have hLength : ((data.drop offset.toNat).take width.size).length = width.size := by
        rw [List.length_take, List.length_drop]
        omega
      rw [if_pos hFits, if_neg (Nat.not_lt.2 hFits), slice_eq (Nat.le_add_right _ _) hFits,
        Nat.add_sub_cancel_left]
      refine ⟨stop, ?_, hExact⟩
      show (exactly width _ >>= fun field => pure (Except.ok (leValue field), stop)) = _
      rw [exactly, if_pos hLength]
      rfl
    · rw [if_neg hFits, if_pos (Nat.lt_of_not_le hFits)]
      exact ⟨offset, rfl, rfl⟩
  · rw [sum?_eq_none (by rw [hSize]; exact hSpace), if_neg hSpace]
    exact ⟨offset, rfl, rfl⟩

/-- Reads the integer at the start of the data. -/
def read (width : Width) (data : Bytes) : Except Trap (Except Error Nat) := do
  return (← fieldAt width data 0).1

theorem read_eq {width : Width} {data : Bytes} (h : width.size ≤ data.length) :
    read width data = .ok (.ok (leValue (data.take width.size))) := by
  have hSpace : 0 + width.size < addressSpace := by cases width <;> decide
  have hSlice : data.slice? 0 width.size = some (data.take width.size) :=
    if_pos (by rw [Nat.zero_add]; exact h)
  have hRead : width.readAt data 0 = (.ok (leValue (data.take width.size)), 0 + width.size) :=
    Width.readAt_eq_ok_iff.2 ⟨hSpace, rfl, _, hSlice, rfl⟩
  obtain ⟨next, hField, -⟩ := fieldAt_eq width data 0
  rw [UInt64.toNat_zero, hRead] at hField
  rw [read, hField]
  rfl

end Word

end ManagedImage
