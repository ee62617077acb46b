import ManagedImage.Proofs.CheckedWords
import ManagedImage.Proofs.StreamCalls

/-!
# Procedures over words

A checked procedure reads as a plain one does, but its position is a 64-bit word, and it stops at a
trap where a step of `Word` does.

* `Source.Exact`: a source answers with as many bytes as it was asked for. Byte strings and streams
  are such sources.
* `Checked`: checked procedures, with `seek`, `take` and `value` as their steps.
* `Checked.Follows`: from a position on, a checked procedure does not stop at a trap and runs as a
  plain one does. Each step follows its plain one, and so do sequences (`Checked.follows_bind`) and
  choices (`Checked.follows_ite`) of such procedures.
-/

namespace ManagedImage

/-! ## Exact answers -/

/-- A source that answers with as many bytes as it was asked for, if it answers with bytes. -/
class Source.Exact (σ : Type) [Source σ] : Prop where
  length_readAt : ∀ {source next : σ} {offset count : Nat} {bytes : Bytes},
    Source.readAt source offset count = (.ok bytes, next) → bytes.length = count

instance : Source.Exact Bytes where
  length_readAt {data next offset count bytes} h := by
    rw [Source.readAt_bytes] at h
    split at h
    · cases h
      rw [List.length_take, List.length_drop]
      omega
    · cases h

theorem Stream.length_fill {stream next : Stream} {ahead done bytes : Bytes} {missing : Nat}
    (h : stream.fill ahead missing done = (.ok bytes, next)) :
    bytes.length = done.length + missing := by
  fun_induction Stream.fill stream ahead missing done with
  | case1 stream ahead done =>
    cases h
    exact List.length_reverse
  | case2 => cases h
  | case3 stream ahead missing done hMissing next b bytes hRead ih =>
    obtain ⟨hAnswer, -⟩ := Prod.mk.inj hRead
    have hTaken := (Script.taken_of_answer hAnswer).2
    rw [List.length_cons] at hTaken
    rw [ih h, List.length_append, List.length_reverse, List.length_cons]
    omega
  | case4 stream ahead missing done hMissing next fault hRetry hRead ih => exact ih h
  | case5 => cases h

instance : Source.Exact Stream where
  length_readAt {stream next offset count bytes} h := by
    change stream.readAt offset count = (.ok bytes, next) at h
    unfold Stream.readAt at h
    split at h
    · rw [Stream.length_fill h, List.length_nil, Nat.zero_add]
    · cases h

/-! ## Checked procedures -/

/-- A reading procedure whose position is a word, and which may stop at a trap. -/
abbrev Checked := StateT UInt64 (ExceptT Trap Procedure)

namespace Checked

variable {α : Type}

/-- The procedure from a position on; it ends with a trap, or with a result and a position. -/
def code (c : Checked α) (position : UInt64) : Procedure (Except Trap (α × UInt64)) :=
  (c.run position).run

def seek (position : UInt64) : Checked Unit := do
  set position
  Procedure.seekTo position.toNat

/-- Moves the position on, which must not wrap. -/
def advance (step : UInt64) : Checked Unit := do
  match Word.sum? (← get) step with
  | some next => do
    set next
    Procedure.advanceBy step.toNat
  | none => throwThe Trap .position

/-- The next `count` bytes. -/
def take (count : Nat) : Checked Bytes := do
  let bytes ← (Procedure.read count pure : Procedure Bytes)
  advance (UInt64.ofNat count)
  return bytes

/-- The next unsigned integer of a width, which is read into the front of eight bytes. -/
def unsigned (width : Width) : Checked Nat := do
  let room ← Word.slice (List.replicate 8 0) 0 width.size
  let bytes ← take room.length
  let number ← Word.read width bytes
  number

/-- The next value of a type whose values are made of such an integer. -/
def value (width : Width) (ofNat : Nat → α) : Checked α := do
  return ofNat (← unsigned width)

end Checked

/-- The run of a checked procedure that does what a plain one does and ends at a position. -/
def Run.ending {σ α : Type} (run : Run σ α) (last : UInt64) :
    Run σ (Except Trap (α × UInt64)) :=
  ⟨run.outcome.map fun a => .ok (a, last), run.cursor, run.records, run.exchanges⟩

namespace Checked

variable {α β : Type}

/-! ## Following a plain procedure -/

/-- From a position on, a checked procedure does what a plain one does, over every source with exact
answers. Where it succeeds, its result and its last position are as `post` says. -/
structure Follows (c : Checked α) (p : Procedure α) (position : UInt64)
    (post : α → UInt64 → Prop) : Prop where
  run_eq : ∀ {σ : Type} [Source σ] [Source.Exact σ] (source : σ),
    ∃ last, (c.code position).run ⟨source, position.toNat⟩ =
        (p.run ⟨source, position.toNat⟩).ending last ∧
      ∀ a, (p.run ⟨source, position.toNat⟩).outcome = .ok a →
        (p.run ⟨source, position.toNat⟩).cursor.position = last.toNat ∧ post a last

variable {c : Checked α} {p : Procedure α} {position : UInt64} {post : α → UInt64 → Prop}

theorem code_bind (c : Checked α) (next : α → Checked β) (position : UInt64) :
    (c >>= next).code position = (c.code position).bind fun
      | .ok (a, last) => (next a).code last
      | .error trap => pure (.error trap) := by
  unfold code
  rw [StateT.run_bind, ExceptT.run_bind, Procedure.bind_def]
  congr 1
  funext x
  cases x <;> rfl

theorem code_lift (p : Procedure α) (position : UInt64) :
    (liftM p : Checked α).code position = p.bind fun a => pure (.ok (a, position)) :=
  Procedure.bind_assoc p _ _

theorem run_bind_ending {σ : Type} [Source σ] (p : Procedure α) (last : UInt64)
    (cursor : Cursor σ) :
    (p.bind fun a => pure (.ok (a, last))).run cursor = (p.run cursor).ending last := by
  rw [Procedure.run_bind, Procedure.followedBy, Run.ending]
  cases (p.run cursor).outcome with
  | error e => rfl
  | ok a => simp [Procedure.pure_def, Procedure.run, Run.behind, Except.map]

theorem follows_pure {a : α} (h : post a position) : Follows (pure a) (pure a) position post :=
  ⟨fun _ => ⟨position, rfl, fun _ hOutcome => by cases hOutcome; exact ⟨rfl, h⟩⟩⟩

theorem Follows.imp {post' : α → UInt64 → Prop} (h : Follows c p position post)
    (hImplies : ∀ a last, post a last → post' a last) : Follows c p position post' := by
  constructor
  intro σ _ _ source
  obtain ⟨last, hRun, hPost⟩ := h.run_eq source
  exact ⟨last, hRun, fun a hOutcome => (hPost a hOutcome).imp_right (hImplies a last)⟩

theorem follows_fail (error : Error) :
    Follows (liftM (Procedure.fail error : Procedure α)) (Procedure.fail error) position post :=
  ⟨fun _ => ⟨position, rfl, fun _ hOutcome => by cases hOutcome⟩⟩

theorem follows_bind {mid : α → UInt64 → Prop} {next : α → Checked β} {plain : α → Procedure β}
    {post : β → UInt64 → Prop} (h : Follows c p position mid)
    (hNext : ∀ a last, mid a last → Follows (next a) (plain a) last post) :
    Follows (c >>= next) (p >>= plain) position post := by
  constructor
  intro σ _ _ source
  obtain ⟨middle, hRun, hPost⟩ := h.run_eq source
  rw [code_bind, Procedure.bind_def, Procedure.run_bind, Procedure.run_bind, hRun]
  cases hOutcome : (p.run ⟨source, position.toNat⟩).outcome with
  | error e =>
    refine ⟨0, ?_, fun _ h => ?_⟩
    · simp only [Procedure.followedBy, Run.ending, hOutcome]
      rfl
    · simp only [Procedure.followedBy, hOutcome] at h
      cases h
  | ok a =>
    obtain ⟨hPosition, hMid⟩ := hPost a hOutcome
    obtain ⟨last, hRest, hLast⟩ :=
      (hNext a middle hMid).run_eq (p.run ⟨source, position.toNat⟩).cursor.source
    have hCursor : (p.run ⟨source, position.toNat⟩).cursor =
        ⟨(p.run ⟨source, position.toNat⟩).cursor.source, middle.toNat⟩ := by
      rw [← hPosition]
    rw [← hCursor] at hRest hLast
    refine ⟨last, ?_, ?_⟩
    · simp only [Procedure.followedBy, Run.ending, hOutcome, Except.map]
      rw [hRest]
      rfl
    · simp only [Procedure.followedBy, hOutcome]
      exact hLast

/-! ### Steps of words, and decoding

These are taken on one side only, or on both without a request to the source. -/

/-- A step that does not stop may be taken. -/
theorem follows_step {x : Except Trap β} {b : β} {next : β → Checked α} (hStep : x = .ok b)
    (h : Follows (next b) p position post) :
    Follows (liftM x >>= next) p position post := by
  subst hStep
  exact h

/-- A word that is computed without a stop is the number that it stands for. -/
theorem follows_computes {x : Except Trap UInt64} {n : Nat} {next : UInt64 → Checked α}
    (hComputes : Word.Computes x n)
    (h : ∀ word, word.toNat = n → n < Word.bound → Follows (next word) p position post) :
    Follows (liftM x >>= next) p position post := by
  obtain ⟨hBound, word, hStep, hWord⟩ := hComputes
  exact follows_step hStep (h word hWord hBound)

/-- A decoding whose result is known may be skipped, in the checked procedure and in the plain
one. -/
theorem follows_known {x : Except Error β} {b : β} {next : β → Checked α} (hKnown : x = .ok b)
    (h : Follows (next b) p position post) : Follows (liftM x >>= next) p position post := by
  subst hKnown
  exact h

theorem follows_plain {x : Except Error β} {b : β} {next : β → Procedure α} (hKnown : x = .ok b)
    (h : Follows c (next b) position post) : Follows c (liftM x >>= next) position post := by
  subst hKnown
  exact h

theorem follows_lift_bind {x : Except Error β} {next : β → Checked α} {plain : β → Except Error α}
    (h : ∀ b, x = .ok b → Follows (next b) (liftM (plain b)) position post) :
    Follows (liftM x >>= next) (liftM (x >>= plain)) position post := by
  cases x with
  | error e => exact follows_fail e
  | ok b => exact h b rfl

theorem follows_ite {P Q : Prop} [Decidable P] [Decidable Q] {c' : Checked α} {p' : Procedure α}
    (hIff : P ↔ Q) (hThen : Q → Follows c p position post)
    (hElse : ¬ Q → Follows c' p' position post) :
    Follows (if P then c else c') (if Q then p else p') position post := by
  by_cases h : Q
  · rw [if_pos (hIff.2 h), if_pos h]
    exact hThen h
  · rw [if_neg fun hP => h (hIff.1 hP), if_neg h]
    exact hElse h

/-! ### Requests to the source -/

/-- A procedure that does not move the position is the same over words. -/
theorem follows_still {p : Procedure α}
    (hStill : ∀ {σ : Type} [Source σ] (cursor : Cursor σ),
      (p.run cursor).cursor.position = cursor.position) :
    Follows (liftM p) p position fun _ last => last = position := by
  constructor
  intro σ _ _ source
  refine ⟨position, ?_, fun _ _ => ⟨hStill _, rfl⟩⟩
  rw [code_lift, run_bind_ending]

theorem follows_lift (x : Except Error α) :
    Follows (liftM x) (liftM x) position fun _ last => last = position :=
  @follows_still _ position (liftM x) fun _ => rfl

theorem follows_log (records : List Record) :
    Follows (liftM (Procedure.log records)) (Procedure.log records) position
      fun _ last => last = position :=
  follows_still fun _ => rfl

theorem follows_sourceSize :
    Follows (liftM Procedure.sourceSize) Procedure.sourceSize position
      fun _ last => last = position := by
  refine follows_still fun cursor => ?_
  unfold Procedure.sourceSize
  rw [Procedure.run]
  cases Source.size cursor.source with
  | mk answer after => cases answer <;> rfl

theorem follows_seek {target : UInt64} {n : Nat} (h : target.toNat = n) :
    Follows (seek target) (Procedure.seekTo n) position fun _ last => last.toNat = n := by
  subst h
  exact ⟨fun _ => ⟨target, rfl, fun _ _ => ⟨rfl, rfl⟩⟩⟩

theorem code_advance {step next : UInt64} (h : Word.sum? position step = some next) :
    (advance step).code position = Procedure.advance step.toNat (pure (.ok ((), next))) := by
  unfold advance
  rw [code_bind]
  change Checked.code (match Word.sum? position step with
    | some next => do
      set next
      Procedure.advanceBy step.toNat
    | none => throwThe Trap .position) position = _
  rw [h]
  rfl

/-- The length of the answer is that of the room for it. -/
theorem run_take {σ : Type} [Source σ] [Source.Exact σ] {source : σ} {offset count : Nat}
    {bytes : Bytes} (hSpace : offset + count < addressSpace)
    (h : ((Procedure.take count).run ⟨source, offset⟩).outcome = .ok bytes) :
    bytes.length = count ∧
      ((Procedure.take count).run ⟨source, offset⟩).cursor.position = offset + count := by
  unfold Procedure.take at h ⊢
  rw [Procedure.run] at h ⊢
  cases hRead : Source.readAt source offset count with
  | mk answer after =>
    have hAdvance : (Cursor.mk after offset).advance? count = some ⟨after, offset + count⟩ :=
      if_pos hSpace
    cases answer with
    | error e => simp [hRead] at h
    | ok found =>
      simp only [hRead, Procedure.run, hAdvance, Procedure.pure_def, Run.behind] at h ⊢
      cases h
      exact ⟨Source.Exact.length_readAt hRead, trivial⟩

theorem follows_take {count : Nat} (h : position.toNat + count < addressSpace) :
    Follows (take count) (Procedure.take count) position fun bytes last =>
      bytes.length = count ∧ last.toNat = position.toNat + count := by
  have hCount : (UInt64.ofNat count).toNat = count :=
    UInt64.toNat_ofNat_of_lt' (Nat.lt_of_le_of_lt (Nat.le_add_left _ _) h)
  obtain ⟨next, hNext, hExact⟩ :=
    @Word.sum?_eq_some position (UInt64.ofNat count) (by rw [hCount]; exact h)
  rw [hCount] at hExact
  have hCode : (take count).code position =
      (Procedure.take count).bind fun bytes => pure (.ok (bytes, next)) := by
    unfold take
    rw [code_bind, code_lift]
    refine congrArg (Procedure.read count) (funext fun bytes => ?_)
    change Checked.code (advance (UInt64.ofNat count) >>= fun _ => pure bytes) position = _
    rw [code_bind, code_advance hNext, hCount]
    rfl
  constructor
  intro σ _ _ source
  refine ⟨next, ?_, fun bytes hOutcome => ?_⟩
  · rw [hCode, run_bind_ending]
  · obtain ⟨hLength, hPosition⟩ := run_take h hOutcome
    exact ⟨hPosition.trans hExact.symm, hLength, hExact⟩

theorem follows_unsigned {width : Width} (h : position.toNat + width.size < addressSpace) :
    Follows (unsigned width) (Procedure.unsigned width) position fun _ last =>
      last.toNat = position.toNat + width.size := by
  have hSlice : ∃ room, Word.slice (List.replicate 8 0) 0 width.size = .ok room ∧
      room.length = width.size := by cases width <;> exact ⟨_, rfl, rfl⟩
  obtain ⟨room, hSlice, hRoom⟩ := hSlice
  refine follows_step hSlice ?_
  rw [hRoom]
  refine follows_bind (follows_take h) fun bytes last hBytes => ?_
  obtain ⟨hLength, hLast⟩ := hBytes
  have hRead := Word.read_eq (Nat.le_of_eq hLength.symm)
  rw [List.take_of_length_le (Nat.le_of_eq hLength)] at hRead
  refine follows_step hRead ?_
  exact follows_pure hLast

theorem follows_value {α : Type} [FixedWidth α] {width : Width} {ofNat : Nat → α}
    (hWidth : FixedWidth.width α = width.size)
    (hDecode : ∀ bytes : Bytes, FixedWidth.decode bytes = ofNat (leValue bytes))
    (h : position.toNat + width.size < addressSpace) :
    Follows (value width ofNat) (Procedure.value α) position fun _ last =>
      last.toNat = position.toNat + width.size := by
  have hValue : Procedure.value α = Procedure.unsigned width >>= fun n => pure (ofNat n) := by
    simp [Procedure.value, Procedure.unsigned, hWidth, hDecode]
  rw [hValue]
  refine follows_bind (follows_unsigned h) fun n last hLast => ?_
  exact follows_pure hLast

end Checked

end ManagedImage
