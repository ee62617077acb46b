import ManagedImage.Proofs.CheckedWords

/-!
# Integers behind each other

Headers are decoded integer by integer. Each read takes as many bytes as the type of its integer has
and moves the offset behind them, or fails and leaves the offset where it was.

* `Integer` is an unsigned integer of one of the four types, and `Integer.encodeAll` writes integers
  behind each other.
* `Width.readEach` are reads behind each other, each from where the one before it left the offset.
  `Width.readAt_eq_error_iff` says which of them fail.
* `Integer.readsWhole_take`: in data that are cut off anywhere, the integers that fit are read, and
  the first one that does not fit fails. The induction is on the integers, with those that have been
  read counted among the bytes in front.
* `Integer.readEach_inverts`: reading integers undoes writing them, wherever they stand.
-/

namespace ManagedImage

/-! ## Reads behind each other -/

namespace Width

variable {width : Width} {data : Bytes} {offset next : Nat} {e : Error}

/-- The end of the field lies behind the end of the data, or is no 64-bit number. -/
def Overruns (width : Width) (data : Bytes) (offset : Nat) : Prop :=
  data.length < offset + width.size ∨ addressSpace ≤ offset + width.size

theorem readAt_of_overruns (h : width.Overruns data offset) :
    width.readAt data offset = (.error .outOfBounds, offset) := by
  unfold readAt
  by_cases hSpace : offset + width.size < addressSpace
  · have hShort : data.slice? offset width.size = none :=
      Bytes.slice?_eq_none_iff.2 (h.resolve_right (Nat.not_le.2 hSpace))
    rw [if_pos hSpace, hShort]
  · rw [if_neg hSpace]

theorem readAt_of_not_overruns (h : ¬ width.Overruns data offset) :
    width.readAt data offset =
      (.ok (leValue ((data.drop offset).take width.size)), offset + width.size) := by
  obtain ⟨hFits, hSpace⟩ := not_or.1 h
  exact readAt_eq_ok_iff.2
    ⟨Nat.not_le.1 hSpace, rfl, _, Bytes.slice?_eq_some_iff.2 ⟨Nat.not_lt.1 hFits, rfl⟩, rfl⟩

theorem readAt_eq_error_iff :
    width.readAt data offset = (.error e, next) ↔
      width.Overruns data offset ∧ e = .outOfBounds ∧ next = offset := by
  constructor
  · intro h
    refine ⟨Classical.not_not.1 fun hFits => ?_, readAt_error h⟩
    rw [readAt_of_not_overruns hFits] at h
    cases h
  · rintro ⟨hOverruns, rfl, rfl⟩
    exact readAt_of_overruns hOverruns

/-- The answers of reads behind each other, each with the offset after it. A read that fails does
not keep the next one from starting where the offset is. -/
def readEach (data : Bytes) : (offset : Nat) → List Width → List (Except Error Nat × Nat)
  | _, [] => []
  | offset, width :: rest =>
    width.readAt data offset :: readEach data (width.readAt data offset).2 rest

/-- The offset after all of the reads. -/
def offsetAfter (data : Bytes) (offset : Nat) (widths : List Width) : Nat :=
  widths.foldl (fun offset width => (width.readAt data offset).2) offset

end Width

/-- With an offset in a machine word, a read does the same; its sum does not wrap. -/
theorem Word.fieldAt_of_overruns {width : Width} {data : Bytes} {offset : UInt64}
    (h : width.Overruns data offset.toNat) :
    fieldAt width data offset = .ok (.error .outOfBounds, offset) := by
  obtain ⟨next, hField, hNext⟩ := fieldAt_eq width data offset
  rw [Width.readAt_of_overruns h] at hField hNext
  rw [hField, UInt64.toNat_inj.1 hNext]

/-! ## Integers of four types -/

/-- An unsigned integer of one of the types that headers are made of. -/
inductive Integer
  | bits8 (value : UInt8)
  | bits16 (value : UInt16)
  | bits32 (value : UInt32)
  | bits64 (value : UInt64)
  deriving DecidableEq, Repr

namespace Integer

def width : Integer → Width
  | bits8 _ => .bits8
  | bits16 _ => .bits16
  | bits32 _ => .bits32
  | bits64 _ => .bits64

def toNat : Integer → Nat
  | bits8 value => value.toNat
  | bits16 value => value.toNat
  | bits32 value => value.toNat
  | bits64 value => value.toNat

/-- The bytes of an integer, the least significant one first. -/
def encode (v : Integer) : Bytes := leBytes v.width.size v.toNat

/-- The bytes of integers behind each other. -/
def encodeAll (values : List Integer) : Bytes := values.flatMap encode

@[simp] theorem length_encode (v : Integer) : v.encode.length = v.width.size :=
  length_leBytes v.width.size v.toNat

theorem leValue_encode (v : Integer) : leValue v.encode = v.toNat := by
  have hBound : v.toNat < leBound v.width.size := by
    cases v with
    | bits8 value => exact value.toNat_lt
    | bits16 value => exact value.toNat_lt
    | bits32 value => exact value.toNat_lt
    | bits64 value => exact value.toNat_lt
  exact leValue_leBytes_of_lt hBound

theorem encodeAll_cons (v : Integer) (values : List Integer) :
    encodeAll (v :: values) = v.encode ++ encodeAll values := List.flatMap_cons

/-- An integer is read where its bytes stand. -/
theorem readAt_encode (v : Integer) (before after : Bytes)
    (hSize : (before ++ v.encode ++ after).length < addressSpace) :
    v.width.readAt (before ++ v.encode ++ after) before.length =
      (.ok v.toNat, before.length + v.width.size) := by
  have hLength : (before ++ v.encode ++ after).length =
      before.length + v.width.size + after.length := by
    rw [List.length_append, List.length_append, length_encode]
  have hField : ((before ++ v.encode ++ after).drop before.length).take v.width.size =
      v.encode := by
    rw [List.append_assoc, List.drop_left, ← length_encode, List.take_left]
  rw [Width.readAt_of_not_overruns fun h => ?_, hField, leValue_encode]
  unfold Width.Overruns at h
  omega

/-! ## Reading what was written -/

/-- The answers to reads that find integers behind each other from an offset on. -/
def answers : (offset : Nat) → List Integer → List (Except Error Nat × Nat)
  | _, [] => []
  | offset, v :: rest =>
    (.ok v.toNat, offset + v.width.size) :: answers (offset + v.width.size) rest

/-- Reading integers in data that end somewhere: those of `whole` are read, and then the first of
`rest` fails. -/
structure ReadsWhole (data : Bytes) (offset : Nat) (values whole rest : List Integer) : Prop where
  split : values = whole ++ rest
  /-- The integers that are read fit completely. -/
  fit : whole = [] ∨ offset + (encodeAll whole).length ≤ data.length
  /-- The next one does not fit. -/
  overrun : ∀ v ∈ rest.head?, data.length < offset + (encodeAll (whole ++ [v])).length
  answered : Width.readEach data offset (values.map width) =
    answers offset whole ++
      Width.readEach data (offset + (encodeAll whole).length) (rest.map width)
  moved : Width.offsetAfter data offset (whole.map width) = offset + (encodeAll whole).length
  /-- The read of the next one fails, and leaves the offset behind those that were read. -/
  failed : ∀ v ∈ rest.head?, v.width.readAt data (offset + (encodeAll whole).length) =
    (.error .outOfBounds, offset + (encodeAll whole).length)

namespace ReadsWhole

variable {data : Bytes} {offset : Nat} {values whole rest : List Integer}

theorem nil (data : Bytes) (offset : Nat) : ReadsWhole data offset [] [] [] where
  split := rfl
  fit := .inl rfl
  overrun _ h := nomatch h
  answered := rfl
  moved := rfl
  failed _ h := nomatch h

/-- An integer that does not fit is the end of those that are read. -/
theorem of_short {v : Integer} (h : data.length < offset + v.width.size) :
    ReadsWhole data offset (v :: rest) [] (v :: rest) where
  split := rfl
  fit := .inl rfl
  overrun w hw := by
    cases hw
    rw [List.nil_append, encodeAll_cons, List.length_append, length_encode]
    omega
  answered := rfl
  moved := rfl
  failed w hw := by
    cases hw
    exact Width.readAt_of_overruns (.inl h)

/-- An integer that is read comes in front of those that are read behind it. -/
theorem cons {v : Integer} (hFits : offset + v.width.size ≤ data.length)
    (hRead : v.width.readAt data offset = (.ok v.toNat, offset + v.width.size))
    (h : ReadsWhole data (offset + v.width.size) values whole rest) :
    ReadsWhole data offset (v :: values) (v :: whole) rest := by
  have hLength : offset + (encodeAll (v :: whole)).length =
      offset + v.width.size + (encodeAll whole).length := by
    rw [encodeAll_cons, List.length_append, length_encode, Nat.add_assoc]
  refine ⟨congrArg (v :: ·) h.split, .inr ?fit, fun w hw => ?overrun, ?answered, ?moved,
    fun w hw => ?failed⟩
  case fit =>
    rw [hLength]
    rcases h.fit with rfl | hWhole
    · exact hFits
    · exact hWhole
  case overrun =>
    have hNext := h.overrun w hw
    rw [List.cons_append, encodeAll_cons, List.length_append, length_encode, ← Nat.add_assoc]
    exact hNext
  case answered => rw [List.map_cons, Width.readEach, hRead, h.answered, hLength, answers]; rfl
  case moved =>
    have hMoved := h.moved
    unfold Width.offsetAfter at hMoved ⊢
    rw [List.map_cons, List.foldl_cons, hRead, hMoved, hLength]
  case failed =>
    rw [hLength]
    exact h.failed w hw

/-- Where nothing is cut off, all integers are read. -/
theorem rest_eq_nil (h : ReadsWhole data offset values whole rest)
    (hAll : offset + (encodeAll values).length ≤ data.length) : rest = [] := by
  cases hRest : rest with
  | nil => rfl
  | cons v more =>
    have hOverrun := h.overrun v (by rw [hRest]; rfl)
    have hSplit : encodeAll values = encodeAll (whole ++ [v]) ++ encodeAll more := by
      rw [h.split, hRest]
      simp only [encodeAll, List.flatMap_append, List.flatMap_cons, List.flatMap_nil,
        List.append_nil, List.append_assoc]
    rw [hSplit, List.length_append] at hAll
    omega

end ReadsWhole

theorem readsWhole_take (before after : Bytes) (values : List Integer)
    (hSize : (before ++ encodeAll values ++ after).length < addressSpace) (cut : Nat) :
    ∃ whole rest, ReadsWhole ((before ++ encodeAll values ++ after).take cut) before.length values
      whole rest := by
  induction values generalizing before with
  | nil => exact ⟨[], [], .nil _ _⟩
  | cons v values ih =>
    have hSplit : before ++ encodeAll (v :: values) ++ after =
        before ++ v.encode ++ encodeAll values ++ after := by
      rw [encodeAll_cons, ← List.append_assoc]
    rw [hSplit] at hSize ⊢
    have hLength : (before ++ v.encode).length = before.length + v.width.size := by
      rw [List.length_append, length_encode]
    by_cases hFits : before.length + v.width.size ≤ cut
    · -- What is left of the data still starts with the bytes in front and those of `v`.
      have hTaken : (before ++ v.encode ++ encodeAll values ++ after).take cut =
          before ++ v.encode ++
            (encodeAll values ++ after).take (cut - (before ++ v.encode).length) := by
        rw [List.append_assoc _ (encodeAll values), List.take_append,
          List.take_of_length_le (by omega)]
      have hShorter : ((before ++ v.encode ++ encodeAll values ++ after).take cut).length ≤
          (before ++ v.encode ++ encodeAll values ++ after).length := List.length_take_le' _ _
      obtain ⟨whole, rest, hRest⟩ := ih (before ++ v.encode) hSize
      rw [hLength] at hRest
      refine ⟨v :: whole, rest, .cons ?_ ?_ hRest⟩
      · rw [hTaken, List.length_append, hLength]
        omega
      · rw [hTaken] at hShorter ⊢
        exact v.readAt_encode before _ (Nat.lt_of_le_of_lt hShorter hSize)
    · have hShort : ((before ++ v.encode ++ encodeAll values ++ after).take cut).length ≤ cut :=
        List.length_take_le _ _
      exact ⟨[], v :: values, .of_short (by omega)⟩

/-- Integers that are written behind each other are read behind each other, whatever stands in front
of them and behind them, and the offset comes to lie behind the last of them. Where the data are cut
off, those that fit are read all the same, and the first one that does not fit fails. A read fails
exactly if its field overruns the data or the 64-bit offsets, and then the offset stays. The sizes
of data are 64-bit numbers. -/
theorem readEach_inverts (before after : Bytes) (values : List Integer)
    (hSize : (before ++ encodeAll values ++ after).length < addressSpace) :
    Width.readEach (before ++ encodeAll values ++ after) before.length (values.map width) =
        answers before.length values ∧
      Width.offsetAfter (before ++ encodeAll values ++ after) before.length (values.map width) =
        before.length + (encodeAll values).length ∧
      (∀ cut, ∃ whole rest, ReadsWhole ((before ++ encodeAll values ++ after).take cut)
        before.length values whole rest) ∧
      ∀ (width : Width) (data : Bytes) (offset : UInt64),
        (∀ e next, width.readAt data offset.toNat = (.error e, next) ↔
          width.Overruns data offset.toNat ∧ e = .outOfBounds ∧ next = offset.toNat) ∧
        (width.Overruns data offset.toNat →
          Word.fieldAt width data offset = .ok (.error .outOfBounds, offset)) := by
  have hCut := readsWhole_take before after values hSize
  obtain ⟨whole, rest, hAll⟩ := hCut (before ++ encodeAll values ++ after).length
  rw [List.take_length] at hAll
  have hRest : rest = [] := by
    apply hAll.rest_eq_nil
    rw [List.length_append, List.length_append]
    omega
  have hWhole : values = whole := by rw [hAll.split, hRest, List.append_nil]
  subst hRest hWhole
  refine ⟨hAll.answered.trans (List.append_nil _), hAll.moved, hCut,
    fun width data offset => ⟨fun e next => Width.readAt_eq_error_iff, Word.fieldAt_of_overruns⟩⟩

/-- Eleven bytes. -/
def mixed : List Integer := [.bits16 0x5A4D, .bits64 0x807060504030201, .bits8 0xFF]

/-- Between other bytes, and cut off in the middle of the second integer; and at an offset at which
the field would end behind the last 64-bit number. -/
theorem readEach_inverts_mixed :
    ([7, 8] ++ encodeAll mixed ++ [9] : Bytes).length < addressSpace ∧
      Width.readEach ([7, 8] ++ encodeAll mixed ++ [9]) 2 [.bits16, .bits64, .bits8] =
        [(.ok 0x5A4D, 4), (.ok 0x807060504030201, 12), (.ok 0xFF, 13)] ∧
      (∃ whole rest, ReadsWhole (([7, 8] ++ encodeAll mixed ++ [9]).take 9) 2 mixed whole rest ∧
        whole = [.bits16 0x5A4D]) ∧
      Word.fieldAt .bits32 (encodeAll mixed) 0xFFFFFFFFFFFFFFFE =
        .ok (.error .outOfBounds, 0xFFFFFFFFFFFFFFFE) := by
  have hSize : ([7, 8] ++ encodeAll mixed ++ [9] : Bytes).length < addressSpace := by decide
  obtain ⟨hAnswers, -, hCut, hFails⟩ := readEach_inverts [7, 8] [9] mixed hSize
  obtain ⟨whole, rest, hReads⟩ := hCut 9
  refine ⟨hSize, hAnswers, ⟨whole, rest, hReads, ?_⟩, (hFails _ _ _).2 (.inr (by decide))⟩
  have hLength : (([7, 8] ++ encodeAll mixed ++ [9] : Bytes).take 9).length = 9 := by decide
  have hSplit := hReads.split
  have hFit := hReads.fit
  have hOverrun := hReads.overrun
  unfold mixed at hSplit
  rw [hLength] at hFit hOverrun
  rcases whole with - | ⟨a, - | ⟨b, more⟩⟩
  · -- The first integer ends within nine bytes, so it is read.
    rw [List.nil_append] at hSplit
    rw [← hSplit] at hOverrun
    exact absurd (hOverrun _ rfl) (by decide)
  · rw [List.cons_append, List.cons.injEq] at hSplit
    rw [← hSplit.1]
  · -- The second one ends behind them.
    rw [List.cons_append, List.cons_append, List.cons.injEq, List.cons.injEq] at hSplit
    obtain ⟨rfl, rfl, -⟩ := hSplit
    have hTooLong := hFit.resolve_left (List.cons_ne_nil _ _)
    simp only [encodeAll_cons, List.length_append, length_encode, width, Width.size,
      List.length_cons, List.length_nil] at hTooLong
    omega

end Integer

end ManagedImage
