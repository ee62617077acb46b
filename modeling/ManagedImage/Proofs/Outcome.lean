import ManagedImage.Error

/-!
# Outcomes of a computation that can fail

* `bind_eq_ok_iff`, `map_eq_ok_iff`, `mapM_ok_iff`: when a composed computation succeeds;
  `bind_eq_error_iff`: when it fails.
* `FailsAs p x`: every error that `x` ends with has the property `p`. The lemmas `failsAs_*` follow
  the composition.
-/

namespace ManagedImage

variable {α β : Type}

instance decidableEqOutcome [DecidableEq α] : DecidableEq (Except Error α)
  | .ok a, .ok b => decidable_of_iff (a = b) ⟨congrArg _, Except.ok.inj⟩
  | .error e, .error e' => decidable_of_iff (e = e') ⟨congrArg _, Except.error.inj⟩
  | .ok _, .error _ => isFalse fun h => by cases h
  | .error _, .ok _ => isFalse fun h => by cases h

@[simp] theorem not_error_eq_ok {ε : Type} {e : ε} : ¬ ∃ a, (.error e : Except ε α) = .ok a := by
  intro h
  obtain ⟨a, h⟩ := h
  cases h

@[simp] theorem ok_bind (a : α) (f : α → Except Error β) : (Except.ok a >>= f) = f a := rfl

theorem bind_eq_ok_iff {x : Except Error α} {f : α → Except Error β} {b : β} :
    (x >>= f) = .ok b ↔ ∃ a, x = .ok a ∧ f a = .ok b := by
  cases x with
  | error e =>
    constructor
    · intro h
      cases h
    · intro h
      obtain ⟨a, h, -⟩ := h
      cases h
  | ok a =>
    constructor
    · exact fun h => ⟨a, rfl, h⟩
    · intro h
      obtain ⟨a', h, h'⟩ := h
      cases h
      exact h'

theorem bind_eq_error_iff {x : Except Error α} {f : α → Except Error β} {e : Error} :
    (x >>= f) = .error e ↔ x = .error e ∨ ∃ a, x = .ok a ∧ f a = .error e := by
  cases x with
  | error e' =>
    constructor
    · intro h
      cases h
      exact .inl rfl
    · intro h
      rcases h with h | ⟨a, h, -⟩
      · cases h
        rfl
      · cases h
  | ok a =>
    constructor
    · exact fun h => .inr ⟨a, rfl, h⟩
    · intro h
      rcases h with h | ⟨a', h, h'⟩
      · cases h
      · cases h
        exact h'

theorem map_eq_ok_iff {x : Except Error α} {f : α → β} {b : β} :
    x.map f = .ok b ↔ ∃ a, x = .ok a ∧ f a = b := by
  cases x with
  | error e =>
    constructor
    · intro h
      cases h
    · intro h
      obtain ⟨a, h, -⟩ := h
      cases h
  | ok a =>
    constructor
    · intro h
      cases h
      exact ⟨a, rfl, rfl⟩
    · intro h
      obtain ⟨a', h, rfl⟩ := h
      cases h
      rfl

theorem map_eq_error_iff {x : Except Error α} {f : α → β} {e : Error} :
    x.map f = .error e ↔ x = .error e := by
  cases x with
  | error e' =>
    constructor
    · intro h
      cases h
      rfl
    · intro h
      cases h
      rfl
  | ok a =>
    constructor
    · intro h
      cases h
    · intro h
      cases h

/-- What follows a computation matters only for the results that it gives. -/
theorem bind_congr_of_ok {x : Except Error α} {f g : α → Except Error β}
    (h : ∀ a, x = .ok a → f a = g a) : (x >>= f) = (x >>= g) := by
  cases x with
  | error e => rfl
  | ok a => exact h a rfl

theorem mapM_ok_iff {f : α → Except Error β} {xs : List α} :
    (∃ ys, xs.mapM f = .ok ys) ↔ ∀ x ∈ xs, ∃ y, f x = .ok y := by
  induction xs with
  | nil => exact ⟨fun _ x hx => absurd hx List.not_mem_nil, fun _ => ⟨[], rfl⟩⟩
  | cons x rest ih =>
    rw [List.mapM_cons, List.forall_mem_cons, ← ih]
    constructor
    · intro h
      obtain ⟨ys, h⟩ := h
      obtain ⟨y, hHead, h⟩ := bind_eq_ok_iff.1 h
      obtain ⟨tail, hRest, -⟩ := bind_eq_ok_iff.1 h
      exact ⟨⟨y, hHead⟩, ⟨tail, hRest⟩⟩
    · intro h
      obtain ⟨⟨y, hHead⟩, ⟨tail, hRest⟩⟩ := h
      exact ⟨y :: tail, bind_eq_ok_iff.2 ⟨y, hHead, bind_eq_ok_iff.2 ⟨tail, hRest, rfl⟩⟩⟩

/-! ## Kinds of failure -/

/-- Whatever error it ends with has the property. -/
def FailsAs (p : Error → Prop) (x : Except Error α) : Prop := ∀ e, x = .error e → p e

/-- The image is malformed or truncated. -/
def BlamesImage (e : Error) : Prop := e.category = .format

/-- The image is malformed, and not just truncated. -/
def BlamesForm (e : Error) : Prop := ∃ defect, e = .malformed defect

/-- One entity of the image is malformed. -/
def BlamesEntity (e : Error) : Prop := ∃ defect, e = .malformed (.entity defect)

theorem BlamesForm.blamesImage {e : Error} (h : BlamesForm e) : BlamesImage e := by
  obtain ⟨defect, rfl⟩ := h
  rfl

theorem BlamesEntity.blamesImage {e : Error} (h : BlamesEntity e) : BlamesImage e := by
  obtain ⟨defect, rfl⟩ := h
  rfl

variable {p : Error → Prop}

theorem FailsAs.mono {q : Error → Prop} {x : Except Error α} (h : FailsAs p x)
    (hImplies : ∀ {e}, p e → q e) : FailsAs q x :=
  fun e hError => hImplies (h e hError)

theorem failsAs_ok (a : α) : FailsAs p (.ok a) := by
  intro e h
  cases h

theorem failsAs_error {e : Error} (h : p e) : FailsAs p (.error e : Except Error α) := by
  intro e' h'
  cases h'
  exact h

theorem failsAs_bind {x : Except Error α} {f : α → Except Error β} (hFirst : FailsAs p x)
    (hNext : ∀ a, FailsAs p (f a)) : FailsAs p (x >>= f) := by
  intro e h
  cases hx : x with
  | error e' =>
    rw [hx] at h
    cases h
    exact hFirst _ hx
  | ok a =>
    rw [hx] at h
    exact hNext a e h

theorem failsAs_mapM {f : α → Except Error β} (h : ∀ a, FailsAs p (f a)) (xs : List α) :
    FailsAs p (xs.mapM f) := by
  induction xs with
  | nil => exact failsAs_ok _
  | cons x rest ih =>
    rw [List.mapM_cons]
    exact failsAs_bind (h x) fun _ => failsAs_bind ih fun _ => failsAs_ok _

end ManagedImage
