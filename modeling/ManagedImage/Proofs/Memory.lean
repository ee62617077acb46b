import ManagedImage.Proofs.Values
import ManagedImage.Procedure

/-!
# Running over an image in memory

A procedure that runs over memory changes nothing but its position, so it computes a value from the
image. `SizedImage` is an image in memory for which some size is reported; the true size gives the
source that a byte string is (`Procedure.run_bytes`), and any other shows what a wrong one does.

* `Procedure.Yields`: from every position, a procedure has this outcome over this image. It is
  closed under sequencing (`Procedure.yields_bind_ok`), so the outcome of a procedure is found stage by
  stage.
* `Procedure.run_value`: reading a value at the position.
-/

namespace ManagedImage

/-- An image in memory, and the size that is reported for it. -/
structure SizedImage where
  bytes : Bytes
  size : Nat

namespace SizedImage

/-- The image under its true size. -/
def ofBytes (bytes : Bytes) : SizedImage := ⟨bytes, bytes.length⟩

/-- The bytes up to `stop` are there, and the reported size does not deny it. -/
def Reaches (image : SizedImage) (stop : Nat) : Prop :=
  stop ≤ image.size ∧ stop ≤ image.bytes.length

instance (image : SizedImage) (stop : Nat) : Decidable (image.Reaches stop) :=
  inferInstanceAs (Decidable (_ ∧ _))

instance : Source SizedImage where
  size image := (.ok image.size, image)
  readAt image offset count := ((Source.readAt image.bytes offset count).1, image)

/-- How far the image goes, by its bytes and by its reported size. -/
def reach (image : SizedImage) : Nat := min image.size image.bytes.length

theorem reaches_iff {image : SizedImage} {stop : Nat} :
    image.Reaches stop ↔ stop ≤ image.reach := Nat.le_min.symm

theorem reaches_ofBytes {bytes : Bytes} {stop : Nat} :
    (ofBytes bytes).Reaches stop ↔ stop ≤ bytes.length := and_self_iff

theorem Reaches.mono {image : SizedImage} {stop stop' : Nat} (h : image.Reaches stop)
    (hStop : stop' ≤ stop) : image.Reaches stop' :=
  ⟨Nat.le_trans hStop h.1, Nat.le_trans hStop h.2⟩

theorem Reaches.max {image : SizedImage} {stop stop' : Nat} (h : image.Reaches stop)
    (h' : image.Reaches stop') : image.Reaches (max stop stop') :=
  ⟨Nat.max_le.2 ⟨h.1, h'.1⟩, Nat.max_le.2 ⟨h.2, h'.2⟩⟩

theorem readAt_eq (image : SizedImage) (offset count : Nat) :
    Source.readAt image offset count =
      (if offset + count ≤ image.bytes.length then .ok ((image.bytes.drop offset).take count)
        else .error .outOfBounds, image) := by
  show ((Source.readAt image.bytes offset count).1, image) = _
  rw [Source.readAt_bytes]
  split <;> rfl

end SizedImage

namespace Procedure

variable {α β γ : Type} {image : SizedImage}

/-! ## Memory has no hidden state -/

theorem source_run (p : Procedure α) (cursor : Cursor SizedImage) :
    (p.run cursor).cursor.source = cursor.source := by
  induction p generalizing cursor with
  | done outcome => rfl
  | size next ih => exact ih _ _
  | read count next ih =>
    rw [run, SizedImage.readAt_eq]
    by_cases hFits : cursor.position + count ≤ cursor.source.bytes.length
    · rw [if_pos hFits]
      exact ih _ _
    · rw [if_neg hFits]
  | seek position next ih => exact ih _
  | advance step next ih =>
    rw [run]
    split
    · rename_i moved hMoved
      unfold Cursor.advance? at hMoved
      split at hMoved
      · cases hMoved
        exact ih _
      · cases hMoved
    · rfl
  | note records next ih => exact ih _

/-- A byte string is an image under its true size. -/
theorem run_bytes (p : Procedure α) (bytes : Bytes) (position : Nat) :
    (p.run ⟨bytes, position⟩).outcome = (p.run ⟨SizedImage.ofBytes bytes, position⟩).outcome ∧
      (p.run ⟨bytes, position⟩).records = (p.run ⟨SizedImage.ofBytes bytes, position⟩).records := by
  induction p generalizing position with
  | done outcome => exact ⟨rfl, rfl⟩
  | size next ih =>
    obtain ⟨hOutcome, hRecords⟩ := ih bytes.length position
    exact ⟨hOutcome, hRecords⟩
  | read count next ih =>
    rw [run, run, Source.readAt_bytes, SizedImage.readAt_eq]
    by_cases hFits : position + count ≤ bytes.length
    · have hFits' : position + count ≤ (SizedImage.ofBytes bytes).bytes.length := hFits
      rw [if_pos hFits, if_pos hFits']
      obtain ⟨hOutcome, hRecords⟩ := ih ((bytes.drop position).take count) position
      exact ⟨hOutcome, hRecords⟩
    · have hFits' : ¬ position + count ≤ (SizedImage.ofBytes bytes).bytes.length := hFits
      rw [if_neg hFits, if_neg hFits']
      exact ⟨rfl, rfl⟩
  | seek position next ih => exact ih _
  | advance step next ih =>
    rw [run, run]
    unfold Cursor.advance?
    by_cases hSpace : position + step < addressSpace
    · rw [if_pos hSpace, if_pos hSpace]
      exact ih _
    · rw [if_neg hSpace, if_neg hSpace]
      exact ⟨rfl, rfl⟩
  | note records next ih =>
    obtain ⟨hOutcome, hRecords⟩ := ih position
    exact ⟨hOutcome, congrArg (records ++ ·) hRecords⟩

/-! ## What a procedure yields -/

/-- Wherever the cursor stands, the procedure ends with `x`. -/
def Yields (p : Procedure α) (image : SizedImage) (x : Except Error α) : Prop :=
  ∀ position, (p.run ⟨image, position⟩).outcome = x

theorem yields_done (x : Except Error α) : (done x).Yields image x := fun _ => rfl

theorem yields_lift {x y : Except Error α} (h : x = y) : (liftM x : Procedure α).Yields image y :=
  fun _ => h

theorem yields_log (records : List Record) : (log records).Yields image (.ok ()) := fun _ => rfl

theorem yields_sourceSize : sourceSize.Yields image (.ok image.size) := fun _ => rfl

theorem yields_bind_ok {p : Procedure α} {next : α → Procedure β} {a : α} {x : Except Error β}
    (hFirst : p.Yields image (.ok a)) (hNext : (next a).Yields image x) :
    (p >>= next).Yields image x := by
  intro position
  have hSource := source_run p ⟨image, position⟩
  rw [bind_def, run_bind, followedBy, hFirst position]
  show ((next a).run (p.run ⟨image, position⟩).cursor).outcome = x
  cases hCursor : (p.run ⟨image, position⟩).cursor with
  | mk source position' =>
    rw [hCursor] at hSource
    obtain rfl : source = image := hSource
    exact hNext position'

theorem yields_bind_error {p : Procedure α} {next : α → Procedure β} {e : Error}
    (hFirst : p.Yields image (.error e)) : (p >>= next).Yields image (.error e) := by
  intro position
  rw [bind_def, run_bind, followedBy, hFirst position]

/-- A procedure goes on with what its first part makes of a result. -/
theorem yields_bind_map {p : Procedure α} {next : α → Procedure γ} {x : Except Error β} {f : β → α}
    {rest : β → Except Error γ} (hFirst : p.Yields image (x.map f))
    (hNext : ∀ b, x = .ok b → (next (f b)).Yields image (rest b)) :
    (p >>= next).Yields image (x >>= rest) := by
  cases x with
  | error e => exact yields_bind_error hFirst
  | ok b => exact yields_bind_ok hFirst (hNext b rfl)

theorem yields_bind {p : Procedure α} {next : α → Procedure β} {x : Except Error α}
    {rest : α → Except Error β} (hFirst : p.Yields image x)
    (hNext : ∀ a, x = .ok a → (next a).Yields image (rest a)) :
    (p >>= next).Yields image (x >>= rest) := by
  cases x with
  | error e => exact yields_bind_error hFirst
  | ok a => exact yields_bind_ok hFirst (hNext a rfl)

/-- A stage that first refuses some images. -/
theorem yields_guard {P : Prop} [Decidable P] {p : Procedure α} {rest : Except Error β} {f : β → α}
    {e : Error} (hNext : ¬ P → p.Yields image (rest.map f)) :
    (if P then fail e else p).Yields image ((if P then .error e else rest).map f) := by
  by_cases hRefused : P
  · rw [if_pos hRefused, if_pos hRefused]
    exact yields_done _
  · rw [if_neg hRefused, if_neg hRefused]
    exact hNext hRefused

/-! ## Reading at the position -/

theorem run_take (count position : Nat) (hSpace : position + count < addressSpace) :
    ((take count).run ⟨image, position⟩).outcome =
        (if position + count ≤ image.bytes.length then
          .ok ((image.bytes.drop position).take count) else .error .outOfBounds) ∧
      ((take count).run ⟨image, position⟩).cursor =
        ⟨image, if position + count ≤ image.bytes.length then position + count else position⟩ := by
  unfold take
  rw [run, SizedImage.readAt_eq]
  by_cases hFits : position + count ≤ image.bytes.length
  · simp only [hFits, if_true, run, Cursor.advance?, hSpace, pure_def]
    exact ⟨rfl, rfl⟩
  · simp only [hFits, if_false]
    exact ⟨trivial, trivial⟩

/-- A value is read where the image holds it, and the position moves behind it. -/
theorem run_value (α : Type) [FixedWidth α] (position : Nat)
    (hSpace : position + FixedWidth.width α < addressSpace) :
    ((value α).run ⟨image, position⟩).outcome = FixedWidth.read image.bytes position ∧
      ((value α).run ⟨image, position⟩).cursor =
        ⟨image, if position + FixedWidth.width α ≤ image.bytes.length
          then position + FixedWidth.width α else position⟩ := by
  obtain ⟨hOutcome, hCursor⟩ := @run_take image _ position hSpace
  rw [FixedWidth.read_eq, value, bind_def, run_bind, followedBy, hOutcome]
  by_cases hFits : position + FixedWidth.width α ≤ image.bytes.length
  · simp only [hFits, if_true] at hCursor ⊢
    exact ⟨rfl, hCursor⟩
  · simp only [hFits, if_false] at hCursor ⊢
    exact ⟨trivial, hCursor⟩

end Procedure

end ManagedImage
