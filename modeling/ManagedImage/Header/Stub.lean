import ManagedImage.Bytes
import ManagedImage.Error

/-!
# The DOS stub and its Rich header

Between the DOS header and the signature of the portable executable lies the DOS program. Linkers
may leave a Rich header in it, a list of build tools that starts with the letters `DanS`, ends with
the letters `Rich` and is masked with the word that follows its end.

Its contents are not used, but its form is checked: `Stub.check` accepts a stub that holds no end
mark, or one whose start mark lies before the end mark at a distance of whole words.
-/

namespace ManagedImage.Stub

/-- The letters `Rich`. -/
def richMark : Nat := 0x68636952

/-- The letters `DanS`. -/
def dansMark : Nat := 0x536E6144

/-- The first position, counted from `index`, from which the rest of the bytes passes a test. -/
def findFrom (test : Bytes → Bool) : Bytes → (index : Nat) → Option Nat
  | [], _ => none
  | b :: rest, index => if test (b :: rest) then some index else findFrom test rest (index + 1)

/-- An end mark with its key: two words, of which the first reads `Rich`. -/
def startsWithRich : Bytes → Bool
  | a :: b :: c :: d :: _ :: _ :: _ :: _ :: _ => leValue [a, b, c, d] == richMark
  | _ => false

/-- A word that reads `DanS` under the mask `key`. -/
def startsWithDans (key : Nat) : Bytes → Bool
  | a :: b :: c :: d :: _ => leValue [a, b, c, d] ^^^ key == dansMark
  | _ => false

/-- Checks the form of a Rich header in the bytes between DOS header and signature. -/
def check (stub : Bytes) : Except Error Unit :=
  match findFrom startsWithRich stub 0 with
  | none => .ok ()
  | some stop =>
    let key := leValue ((stub.drop (stop + 4)).take 4)
    match findFrom (startsWithDans key) stub 0 with
    | none => .error (.malformed (.entity .richHeaderWithoutStart))
    | some dans =>
      let start := dans + 4
      if stop ≤ start then .error (.malformed (.entity (.richHeaderReversed start stop)))
      else if (stop - start) % 4 ≠ 0 then .error .outOfBounds
      else .ok ()

theorem findFrom_eq_none_iff {test : Bytes → Bool} {bytes : Bytes} {index : Nat} :
    findFrom test bytes index = none ↔
      ∀ i, i < bytes.length → test (bytes.drop i) = false := by
  induction bytes generalizing index with
  | nil => simp [findFrom]
  | cons b rest ih =>
    rw [findFrom]
    split
    · rename_i hTest
      simp only [reduceCtorEq, false_iff]
      intro h
      have h0 := h 0 (by simp)
      simp [hTest] at h0
    · rename_i hTest
      rw [ih]
      constructor
      · intro h i hi
        cases i with
        | zero => simpa using hTest
        | succ i => simpa using h i (by simpa using hi)
      · intro h i hi
        simpa using h (i + 1) (by simpa using hi)

/-- The search finds the first position that passes, if any does. -/
theorem findFrom_eq_some_iff {test : Bytes → Bool} {bytes : Bytes} {index found : Nat} :
    findFrom test bytes index = some found ↔
      ∃ i, found = index + i ∧ i < bytes.length ∧ test (bytes.drop i) = true ∧
        ∀ j, j < i → test (bytes.drop j) = false := by
  induction bytes generalizing index with
  | nil => simp [findFrom]
  | cons b rest ih =>
    rw [findFrom]
    split
    · rename_i hTest
      constructor
      · rintro h
        exact ⟨0, by simpa using h.symm, by simp, hTest, by simp⟩
      · rintro ⟨i, rfl, -, -, hBefore⟩
        cases i with
        | zero => rfl
        | succ i => exact absurd (hBefore 0 (by omega)) (by simp [hTest])
    · rename_i hTest
      rw [ih]
      constructor
      · rintro ⟨i, rfl, hi, hPass, hBefore⟩
        refine ⟨i + 1, by omega, by simpa using hi, by simpa using hPass, fun j hj => ?_⟩
        cases j with
        | zero => simpa using hTest
        | succ j => simpa using hBefore j (by omega)
      · rintro ⟨i, rfl, hi, hPass, hBefore⟩
        cases i with
        | zero => exact absurd hPass hTest
        | succ i =>
          exact ⟨i, by omega, by simpa using hi, by simpa using hPass,
            fun j hj => by simpa using hBefore (j + 1) (by omega)⟩

end ManagedImage.Stub
