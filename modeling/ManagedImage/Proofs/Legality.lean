import ManagedImage.Headers
import ManagedImage.Proofs.Outcome

/-!
# Legal stubs and section names

Two checks of the headers search through bytes or parse them. This module says without a search and
without a parser what they accept.

* `Stub.check_eq_ok_iff`: the first end mark of a stub, if there is one, must be preceded by the
  first start mark under its key, at a distance of whole words. The other stubs are refused for a
  missing start mark, for one behind the end mark, or for their distance.
* `SectionName.reference?_ok_iff`: a name that starts with a slash must be a decimal number or,
  after a second slash, digits in base 64.
-/

namespace ManagedImage

/-! ## Stubs -/

namespace Stub

/-- The first index with a property. -/
def First (p : Nat → Prop) (index : Nat) : Prop := p index ∧ ∀ j < index, ¬ p j

/-- The word at an index. -/
def wordAt (stub : Bytes) (index : Nat) : Nat := leValue ((stub.drop index).take 4)

/-- An end mark and its key stand at an index. -/
def EndsAt (stub : Bytes) (index : Nat) : Prop :=
  index + 8 ≤ stub.length ∧ wordAt stub index = richMark

/-- A start mark stands at an index, under a key. -/
def StartsAt (stub : Bytes) (key index : Nat) : Prop :=
  index + 4 ≤ stub.length ∧ wordAt stub index ^^^ key = dansMark

/-- If the stub has an end mark, its Rich header begins with a start mark and is made of whole
words. -/
def Legal (stub : Bytes) : Prop :=
  ∀ stop, First (EndsAt stub) stop →
    ∃ start, First (StartsAt stub (wordAt stub (stop + 4))) start ∧ start + 4 < stop ∧
      (stop - (start + 4)) % 4 = 0

theorem First.unique {p : Nat → Prop} {i j : Nat} (hi : First p i) (hj : First p j) : i = j := by
  rcases Nat.lt_trichotomy i j with h | h | h
  · exact absurd hi.1 (hj.2 i h)
  · exact h
  · exact absurd hj.1 (hi.2 j h)

theorem startsWithRich_iff {bytes : Bytes} :
    startsWithRich bytes = true ↔ 8 ≤ bytes.length ∧ leValue (bytes.take 4) = richMark := by
  unfold startsWithRich
  split
  · rw [beq_iff_eq]
    exact ⟨fun h => ⟨Nat.le_add_left 8 _, h⟩, fun h => h.2⟩
  · rename_i hShort
    refine ⟨fun h => Bool.noConfusion h, ?_⟩
    intro h
    obtain ⟨hFits, -⟩ := h
    rcases bytes with
      _ | ⟨_, _ | ⟨_, _ | ⟨_, _ | ⟨_, _ | ⟨_, _ | ⟨_, _ | ⟨_, _ | ⟨_, rest⟩⟩⟩⟩⟩⟩⟩⟩
    case cons.cons.cons.cons.cons.cons.cons.cons => exact absurd rfl (hShort _ _ _ _ _ _ _ _ _)
    all_goals simp at hFits

theorem startsWithDans_iff {key : Nat} {bytes : Bytes} :
    startsWithDans key bytes = true ↔
      4 ≤ bytes.length ∧ leValue (bytes.take 4) ^^^ key = dansMark := by
  unfold startsWithDans
  split
  · rw [beq_iff_eq]
    exact ⟨fun h => ⟨Nat.le_add_left 4 _, h⟩, fun h => h.2⟩
  · rename_i hShort
    refine ⟨fun h => Bool.noConfusion h, ?_⟩
    intro h
    obtain ⟨hFits, -⟩ := h
    rcases bytes with _ | ⟨_, _ | ⟨_, _ | ⟨_, _ | ⟨_, rest⟩⟩⟩⟩
    case cons.cons.cons.cons => exact absurd rfl (hShort _ _ _ _ _)
    all_goals simp at hFits

theorem endsAt_iff {stub : Bytes} {index : Nat} :
    EndsAt stub index ↔ startsWithRich (stub.drop index) = true := by
  rw [EndsAt, startsWithRich_iff, List.length_drop]
  exact and_congr_left fun _ => by omega

theorem startsAt_iff {stub : Bytes} {key index : Nat} :
    StartsAt stub key index ↔ startsWithDans key (stub.drop index) = true := by
  rw [StartsAt, startsWithDans_iff, List.length_drop]
  exact and_congr_left fun _ => by omega

/-- A search that ends within the bytes finds the first index with the property it tests. -/
theorem findFrom_eq_some_iff_first {test : Bytes → Bool} {p : Nat → Prop} {bytes : Bytes}
    {index : Nat} (hTest : ∀ i, p i ↔ test (bytes.drop i) = true)
    (hWithin : ∀ i, p i → i < bytes.length) :
    findFrom test bytes 0 = some index ↔ First p index := by
  rw [findFrom_eq_some_iff]
  constructor
  · intro h
    obtain ⟨i, rfl, -, hPass, hBefore⟩ := h
    rw [Nat.zero_add]
    refine ⟨(hTest i).2 hPass, fun j hj h => ?_⟩
    exact Bool.noConfusion (((hTest j).1 h).symm.trans (hBefore j hj))
  · intro h
    obtain ⟨hPass, hBefore⟩ := h
    refine ⟨index, (Nat.zero_add _).symm, hWithin index hPass, (hTest index).1 hPass, ?_⟩
    intro j hj
    exact Bool.eq_false_iff.2 fun h => hBefore j hj ((hTest j).2 h)

theorem findRich_iff {stub : Bytes} {stop : Nat} :
    findFrom startsWithRich stub 0 = some stop ↔ First (EndsAt stub) stop :=
  findFrom_eq_some_iff_first (fun _ => endsAt_iff) fun i h => by have hFits := h.1; omega

theorem findDans_iff {stub : Bytes} {key start : Nat} :
    findFrom (startsWithDans key) stub 0 = some start ↔ First (StartsAt stub key) start :=
  findFrom_eq_some_iff_first (fun _ => startsAt_iff) fun i h => by have hFits := h.1; omega

theorem check_eq_ok_iff {stub : Bytes} : check stub = .ok () ↔ Legal stub := by
  unfold check Legal
  cases hStop : findFrom startsWithRich stub 0 with
  | none =>
    dsimp only
    refine ⟨fun _ stop h => ?_, fun _ => rfl⟩
    rw [findRich_iff.2 h] at hStop
    cases hStop
  | some stop =>
    have hFirst := findRich_iff.1 hStop
    have hOnly : ∀ {stop'}, First (EndsAt stub) stop' → stop' = stop := fun h => h.unique hFirst
    have hKey : leValue ((stub.drop (stop + 4)).take 4) = wordAt stub (stop + 4) := rfl
    dsimp only
    rw [hKey]
    cases hStart : findFrom (startsWithDans (wordAt stub (stop + 4))) stub 0 with
    | none =>
      dsimp only
      constructor
      · intro h
        cases h
      · intro h
        obtain ⟨start, hStart', -⟩ := h stop hFirst
        rw [findDans_iff.2 hStart'] at hStart
        cases hStart
    | some start =>
      have hStartFirst := findDans_iff.1 hStart
      dsimp only
      constructor
      · intro h stop' hStop'
        obtain rfl := hOnly hStop'
        split at h
        · cases h
        · split at h
          · cases h
          · exact ⟨start, hStartFirst, by omega, by omega⟩
      · intro h
        obtain ⟨start', hStart', hBefore, hWords⟩ := h stop hFirst
        obtain rfl := hStart'.unique hStartFirst
        rw [if_neg (by omega), if_neg (by omega)]

/-- A Rich header is not made of whole words: the distance from its start mark to its end mark is
not a multiple of four bytes. -/
def Misaligned (stub : Bytes) : Prop :=
  ∃ stop start, First (EndsAt stub) stop ∧ First (StartsAt stub (wordAt stub (stop + 4))) start ∧
    start + 4 < stop ∧ (stop - (start + 4)) % 4 ≠ 0

/-- A stub with an end mark, by the search for its start mark. -/
theorem check_of_end {stub : Bytes} {stop : Nat} (hStop : First (EndsAt stub) stop) :
    check stub =
      match findFrom (startsWithDans (wordAt stub (stop + 4))) stub 0 with
      | none => .error (.malformed (.entity .richHeaderWithoutStart))
      | some start =>
        if stop ≤ start + 4 then
          .error (.malformed (.entity (.richHeaderReversed (start + 4) stop)))
        else if (stop - (start + 4)) % 4 ≠ 0 then .error .outOfBounds
        else .ok () := by
  unfold check
  rw [findRich_iff.2 hStop]
  rfl

theorem findDans_eq_none_iff {stub : Bytes} {key : Nat} :
    findFrom (startsWithDans key) stub 0 = none ↔ ∀ start, ¬ StartsAt stub key start := by
  constructor
  · intro h start hStart
    have hWithin : start < stub.length := by
      have hFits := hStart.1
      omega
    have hFails := findFrom_eq_none_iff.1 h start hWithin
    exact Bool.noConfusion ((startsAt_iff.1 hStart).symm.trans hFails)
  · intro h
    exact findFrom_eq_none_iff.2 fun start _ =>
      Bool.eq_false_iff.2 fun hStart => h start (startsAt_iff.2 hStart)

theorem check_of_no_start {stub : Bytes} {stop : Nat} (hStop : First (EndsAt stub) stop)
    (hStart : ∀ start, ¬ StartsAt stub (wordAt stub (stop + 4)) start) :
    check stub = .error (.malformed (.entity .richHeaderWithoutStart)) := by
  rw [check_of_end hStop, findDans_eq_none_iff.2 hStart]

theorem check_of_reversed {stub : Bytes} {stop start : Nat} (hStop : First (EndsAt stub) stop)
    (hStart : First (StartsAt stub (wordAt stub (stop + 4))) start) (hOrder : stop ≤ start + 4) :
    check stub = .error (.malformed (.entity (.richHeaderReversed (start + 4) stop))) := by
  rw [check_of_end hStop, findDans_iff.2 hStart]
  exact if_pos hOrder

theorem misaligned_of_check {stub : Bytes} (h : check stub = .error .outOfBounds) :
    Misaligned stub := by
  cases hFind : findFrom startsWithRich stub 0 with
  | none =>
    unfold check at h
    rw [hFind] at h
    cases h
  | some stop =>
    have hStop := findRich_iff.1 hFind
    rw [check_of_end hStop] at h
    split at h
    · cases h
    · rename_i start hStart
      refine ⟨stop, start, hStop, findDans_iff.1 hStart, ?_⟩
      split at h
      · cases h
      · rename_i hOrder
        split at h
        · rename_i hWords
          exact ⟨Nat.not_le.1 hOrder, hWords⟩
        · cases h

end Stub

/-! ## Section names -/

namespace SectionName

open Numeral

/-- Digits with at most one plus sign before them. -/
def IsDecimal (text : Bytes) : Prop :=
  ∃ digits, (text = digits ∨ text = 0x2B :: digits) ∧ digits ≠ [] ∧
    ∀ b ∈ digits, 0x30 ≤ b ∧ b ≤ 0x39

/-- A letter without accents, a decimal digit, a plus sign or a slash. -/
def IsBase64 (b : UInt8) : Prop :=
  (0x41 ≤ b ∧ b ≤ 0x5A) ∨ (0x61 ≤ b ∧ b ≤ 0x7A) ∨ (0x30 ≤ b ∧ b ≤ 0x39) ∨ b = 0x2B ∨ b = 0x2F

/-- A name that starts with a slash is a reference. -/
def Legal : Bytes → Prop
  | 0x2F :: 0x2F :: field =>
    (Bytes.untilNul field).text?.isSome ∧ ∀ b ∈ Bytes.untilNul field, IsBase64 b
  | 0x2F :: field => (Bytes.untilNul field).text?.isSome ∧ IsDecimal (Bytes.untilNul field)
  | _ => True

theorem value?_isSome_iff {base : Nat} {digit? : UInt8 → Option Nat} {text : Bytes} :
    (value? base digit? text).isSome ↔ ∀ b ∈ text, (digit? b).isSome := by
  unfold value?
  generalize 0 = start
  induction text generalizing start with
  | nil => exact ⟨fun _ b hb => absurd hb List.not_mem_nil, fun _ => rfl⟩
  | cons b rest ih =>
    rw [List.foldlM_cons, List.forall_mem_cons]
    cases hDigit : digit? b with
    | none => exact ⟨fun h => Bool.noConfusion h, fun h => Bool.noConfusion h.1⟩
    | some d => exact (ih (base * start + d)).trans ⟨fun h => ⟨rfl, h⟩, fun h => h.2⟩

theorem decimalDigit?_isSome_iff {b : UInt8} :
    (decimalDigit? b).isSome ↔ 0x30 ≤ b ∧ b ≤ 0x39 := by
  unfold decimalDigit?
  split
  · rename_i h
    exact ⟨fun _ => h, fun _ => rfl⟩
  · rename_i h
    exact ⟨fun h' => Bool.noConfusion h', fun h' => absurd h' h⟩

theorem base64Digit?_isSome_iff {b : UInt8} : (base64Digit? b).isSome ↔ IsBase64 b := by
  unfold base64Digit? IsBase64
  repeat' split
  all_goals simp_all

theorem decimal_cons_ok_iff {b : UInt8} {rest : Bytes} :
    (∃ value, decimal (b :: rest) = .ok value) ↔
      ∀ d ∈ (if b = 0x2B ∧ rest ≠ [] then rest else b :: rest), 0x30 ≤ d ∧ d ≤ 0x39 := by
  have hDigits : ∀ text : Bytes, (value? 10 decimalDigit? text).isSome ↔
      ∀ d ∈ text, 0x30 ≤ d ∧ d ≤ 0x39 := by
    intro text
    rw [value?_isSome_iff]
    exact forall_congr' fun d => imp_congr_right fun _ => decimalDigit?_isSome_iff
  rw [← hDigits]
  unfold decimal
  dsimp only
  cases value? 10 decimalDigit? (if b = 0x2B ∧ rest ≠ [] then rest else b :: rest) with
  | none => simp
  | some value => simp

theorem decimal_ok_iff {text : Bytes} : (∃ value, decimal text = .ok value) ↔ IsDecimal text := by
  unfold IsDecimal
  cases text with
  | nil =>
    apply iff_of_false not_error_eq_ok
    rintro ⟨digits, hNil | hPlus, hSome, -⟩
    · exact hSome hNil.symm
    · cases hPlus
  | cons b rest =>
    rw [decimal_cons_ok_iff]
    split
    · rename_i hPlus
      obtain ⟨rfl, hRest⟩ := hPlus
      refine ⟨fun h => ⟨rest, .inr rfl, hRest, h⟩, ?_⟩
      rintro ⟨digits, rfl | h, -, hDigits⟩
      · exact absurd (hDigits 0x2B List.mem_cons_self).1 (by decide)
      · cases h
        exact hDigits
    · rename_i hPlain
      refine ⟨fun h => ⟨b :: rest, .inl rfl, List.cons_ne_nil _ _, h⟩, ?_⟩
      rintro ⟨digits, rfl | h, hSome, hDigits⟩
      · exact hDigits
      · cases h
        exact absurd ⟨rfl, hSome⟩ hPlain

theorem base64?_isSome_iff {text : Bytes} :
    (base64? text).isSome ↔ ∀ b ∈ text, IsBase64 b := by
  unfold base64?
  rw [value?_isSome_iff]
  exact forall_congr' fun b => imp_congr_right fun _ => base64Digit?_isSome_iff

theorem reference?_base64 (field : Bytes) :
    (∃ place, reference? (0x2F :: 0x2F :: field) = .ok place) ↔
      (Bytes.untilNul field).text?.isSome ∧ ∀ b ∈ Bytes.untilNul field, IsBase64 b := by
  rw [← base64?_isSome_iff, reference?, digits]
  cases (Bytes.untilNul field).text? with
  | none => exact iff_of_false not_error_eq_ok (by simp)
  | some text =>
    rw [ok_bind]
    dsimp only
    cases base64? (Bytes.untilNul field) with
    | none => exact iff_of_false not_error_eq_ok (by simp)
    | some place => exact iff_of_true ⟨some place, rfl⟩ ⟨rfl, rfl⟩

theorem reference?_decimal {field : Bytes} (h : ∀ rest, field = 0x2F :: rest → False) :
    (∃ place, reference? (0x2F :: field) = .ok place) ↔
      (Bytes.untilNul field).text?.isSome ∧ IsDecimal (Bytes.untilNul field) := by
  rw [← decimal_ok_iff, reference?.eq_2 field h, digits]
  cases (Bytes.untilNul field).text? with
  | none => exact iff_of_false not_error_eq_ok (by simp)
  | some text =>
    rw [ok_bind]
    dsimp only
    cases decimal (Bytes.untilNul field) with
    | error why => exact iff_of_false not_error_eq_ok (by simp)
    | ok place => exact iff_of_true ⟨some place, rfl⟩ ⟨rfl, place, rfl⟩

theorem reference?_ok_iff {name : Bytes} :
    (∃ place, reference? name = .ok place) ↔ Legal name := by
  fun_cases Legal name with
  | case1 field => exact reference?_base64 field
  | case2 field h => exact reference?_decimal h
  | case3 name hDouble hSingle =>
    exact ⟨fun _ => trivial, fun _ => ⟨none, reference?.eq_3 name hDouble hSingle⟩⟩

theorem blamesEntity_digits (field : Bytes) : FailsAs BlamesEntity (digits field) := by
  unfold digits
  split
  · exact failsAs_ok _
  · exact failsAs_error ⟨_, rfl⟩

/-- A name that is not legal makes its image malformed. -/
theorem blamesEntity_reference? (name : Bytes) : FailsAs BlamesEntity (reference? name) := by
  unfold reference?
  split
  · refine failsAs_bind (blamesEntity_digits _) fun _ => ?_
    dsimp only
    split
    · exact failsAs_ok _
    · exact failsAs_error ⟨_, rfl⟩
  · refine failsAs_bind (blamesEntity_digits _) fun _ => ?_
    dsimp only
    split
    · exact failsAs_ok _
    · exact failsAs_error ⟨_, rfl⟩
  · exact failsAs_ok _

end SectionName

end ManagedImage
