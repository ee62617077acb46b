import ManagedImage.Proofs.StreamSoundness
import ManagedImage.Walk

/-!
# Walks as an abstract machine

The operations of a cursor are those of a machine whose state is a byte string and a position in it,
whatever the source of the cursor is: a failing operation leaves the position alone, and the hidden
state of a source does not show.

* `Source.Serves`: a class of sources that answer as an image in memory does. Byte strings are such
  sources, and so are streams whose reads are short or interrupted at most.
* `Procedure.run_serves`: a procedure that asks for no empty range does over such a source what it
  does over the image, by induction on its requests.
* `Walk.Operation.after`: one step of the machine. `Walk.run_eq_machine`: walks are runs of it.
-/

namespace ManagedImage

/-! ## Sources that answer as memory does -/

/-- The sources of a class answer as the image in memory does, and stay in the class. An empty range
is not asked for. -/
structure Source.Serves {σ : Type} [Source σ] (image : Bytes) (members : σ → Prop) : Prop where
  size : ∀ {source}, members source →
    (Source.size source).1 = .ok image.length ∧ members (Source.size source).2
  readAt : ∀ {source} (offset : Nat) {count : Nat}, members source → 0 < count →
    (Source.readAt source offset count).1 = (Source.readAt image offset count).1 ∧
      members (Source.readAt source offset count).2

theorem Procedure.run_serves {α σ : Type} [Source σ] {image : Bytes} {members : σ → Prop}
    (h : Source.Serves image members) (p : Procedure α) (hReads : p.ReadsNonempty) {source : σ}
    (hSource : members source) (position : Nat) :
    (p.run ⟨source, position⟩).outcome = (p.run ⟨image, position⟩).outcome ∧
      (p.run ⟨source, position⟩).cursor.position = (p.run ⟨image, position⟩).cursor.position ∧
      members (p.run ⟨source, position⟩).cursor.source := by
  induction p generalizing source position with
  | done outcome => exact ⟨rfl, rfl, hSource⟩
  | size next ih =>
    obtain ⟨hAnswer, hMember⟩ := h.size hSource
    rw [run, run, Source.size_bytes]
    generalize Source.size source = found at hAnswer hMember ⊢
    obtain ⟨answer, after⟩ := found
    dsimp only at hAnswer hMember ⊢
    subst hAnswer
    exact ih _ (hReads _) hMember position
  | read count next ih =>
    obtain ⟨hCount, hNext⟩ := hReads
    obtain ⟨hAnswer, hMember⟩ := h.readAt position hSource hCount
    have hMemory : (Source.readAt image position count).2 = image := by
      rw [Source.readAt_bytes]
      split <;> rfl
    rw [run, run]
    generalize Source.readAt source position count = found at hAnswer hMember ⊢
    generalize Source.readAt image position count = range at hAnswer hMemory ⊢
    obtain ⟨answer, after⟩ := found
    obtain ⟨answer', image'⟩ := range
    dsimp only at hAnswer hMember hMemory ⊢
    subst hAnswer hMemory
    cases answer with
    | error e => exact ⟨rfl, rfl, hMember⟩
    | ok bytes => exact ih bytes (hNext bytes) hMember position
  | seek target next ih => exact ih hReads hSource target
  | advance step next ih =>
    rw [run, run]
    unfold Cursor.advance?
    by_cases hSpace : position + step < addressSpace
    · rw [if_pos hSpace, if_pos hSpace]
      exact ih hReads hSource (position + step)
    · rw [if_neg hSpace, if_neg hSpace]
      exact ⟨rfl, rfl, hSource⟩
  | note records next ih => exact ih hReads hSource position

/-! ## Streams without failures -/

/-- Streams over an image whose true size they report, without failures. -/
def Stream.IsSteady (image : Bytes) (stream : Stream) : Prop :=
  stream.sized = .ofBytes image ∧ stream.script.Steady

theorem Stream.Leads.isSteady {image : Bytes} {before after : Stream} {calls : List StreamCall}
    (h : before.Leads after calls) (hSteady : before.IsSteady image) : after.IsSteady image :=
  ⟨h.sized_eq.trans hSteady.1, h.script ▸ hSteady.2⟩

theorem Stream.serves (image : Bytes) : Source.Serves image (Stream.IsSteady image) := by
  constructor
  · intro stream hSteady
    obtain ⟨calls, hLeads, hSettled⟩ := stream.settled_size
    have hNone := hLeads.no_failure hSteady.2.not_schedules
    refine ⟨(hSettled.of_no_failure hNone).trans ?_, hLeads.isSteady hSteady⟩
    exact congrArg (fun sized : SizedImage => Except.ok sized.size) hSteady.1
  · intro stream offset count hSteady hCount
    obtain ⟨calls, hLeads, hSettled⟩ :=
      @Stream.settled_readAt stream hSteady.2.cooperative offset count hCount
    have hNone := hLeads.no_failure hSteady.2.not_schedules
    have hImage : stream.image = image := congrArg SizedImage.bytes hSteady.1
    have hServed := hSettled.of_no_failure hNone
    rw [hImage] at hServed
    exact ⟨hServed, hLeads.isSteady hSteady⟩

/-! ## The machine -/

namespace Walk

/-- The operations of a cursor. A read asks for one byte at least. -/
inductive Operation
  | seek (position : Nat)
  | advance (step : Nat)
  | size
  | unsigned (width : Width)
  | bytes (count : Nat) (pos : 0 < count)

/-- The step of a walk that carries an operation out. -/
def Operation.step : Operation → Step
  | seek position => .seek position
  | advance step => .advance step
  | size => .size
  | unsigned width => .unsigned width
  | bytes count _ => .bytes count

/-- The answer to a read, and the position behind it if all of its bytes are there. -/
def fetched (image : Bytes) (position count : Nat) (answer : Bytes → Answer) :
    Except Error Answer × Nat :=
  if position + count ≤ image.length then
    (.ok (answer ((image.drop position).take count)), position + count)
  else (.error .outOfBounds, position)

/-- What an operation answers, and where it leaves the position. -/
def Operation.after (image : Bytes) (position : Nat) : Operation → Except Error Answer × Nat
  | seek target => (.ok .moved, target)
  | advance step =>
    if position + step < addressSpace then (.ok .moved, position + step)
    else (.error .outOfBounds, position)
  | size => (.ok (.size image.length), position)
  | unsigned width =>
    fetched image position width.size fun field => .unsigned width (leValue field)
  | bytes count _ => fetched image position count .bytes

/-- The answers of the machine to a list of operations, each with the position after it. -/
def machine (image : Bytes) : Nat → List Operation → List (Except Error Answer × Nat)
  | _, [] => []
  | position, operation :: rest =>
    operation.after image position :: machine image (operation.after image position).2 rest

variable {image : Bytes} {position : Nat}

theorem Operation.readsNonempty (operation : Operation) :
    operation.step.procedure.ReadsNonempty := by
  cases operation with
  | seek position => trivial
  | advance step => trivial
  | size => exact fun _ => trivial
  | unsigned width =>
    have hSize : 0 < width.size := by cases width <;> decide
    exact Procedure.readsNonempty_bind (Procedure.readsNonempty_bind
      (Procedure.readsNonempty_take hSize) fun _ => trivial) fun _ => trivial
  | bytes count hCount =>
    exact Procedure.readsNonempty_bind (Procedure.readsNonempty_take hCount) fun _ => trivial

/-- Behind a read of an image that has a 64-bit size lies a 64-bit position. -/
theorem run_fetch (hSize : image.length < addressSpace) (count : Nat) (answer : Bytes → Answer) :
    (((Procedure.take count).bind fun bytes => .done (.ok (answer bytes))).run
        ⟨image, position⟩).outcome = (fetched image position count answer).1 ∧
      (((Procedure.take count).bind fun bytes => .done (.ok (answer bytes))).run
        ⟨image, position⟩).cursor.position = (fetched image position count answer).2 := by
  unfold Procedure.take fetched
  rw [Procedure.bind, Procedure.run, Source.readAt_bytes]
  by_cases hFits : position + count ≤ image.length
  · have hSpace : position + count < addressSpace := Nat.lt_of_le_of_lt hFits hSize
    simp only [hFits, if_true, Procedure.pure_def, Procedure.bind, Procedure.run, Cursor.advance?,
      hSpace]
    exact ⟨rfl, rfl⟩
  · simp only [hFits, if_false]
    exact ⟨trivial, trivial⟩

theorem Operation.run_step (hSize : image.length < addressSpace) (operation : Operation) :
    (operation.step.procedure.run ⟨image, position⟩).outcome =
        (operation.after image position).1 ∧
      (operation.step.procedure.run ⟨image, position⟩).cursor.position =
        (operation.after image position).2 := by
  cases operation with
  | seek target => exact ⟨rfl, rfl⟩
  | advance step =>
    have hRun : (Step.advance step).procedure.run ⟨image, position⟩ =
        (Procedure.advance step (.done (.ok Answer.moved))).run ⟨image, position⟩ := rfl
    rw [Operation.step, hRun, Operation.after, Procedure.run, Cursor.advance?]
    by_cases hSpace : position + step < addressSpace
    · simp only [hSpace, if_true]
      exact ⟨rfl, rfl⟩
    · simp only [hSpace, if_false]
      exact ⟨trivial, trivial⟩
  | size => exact ⟨rfl, rfl⟩
  | unsigned width => exact run_fetch hSize width.size fun field => .unsigned width (leValue field)
  | bytes count hCount => exact run_fetch hSize count .bytes

/-- Over any sources that serve the image, step by step. -/
theorem run_of_serves {σ : Type} [Source σ] {members : σ → Prop} (h : Source.Serves image members)
    (hSize : image.length < addressSpace) {source : σ} (hSource : members source)
    (operations : List Operation) (position : Nat) :
    run ⟨source, position⟩ (operations.map Operation.step) = machine image position operations := by
  induction operations generalizing source position with
  | nil => rfl
  | cons operation rest ih =>
    obtain ⟨hOutcome, hPosition, hMember⟩ :=
      operation.step.procedure.run_serves h operation.readsNonempty hSource position
    obtain ⟨hAnswer, hNext⟩ := @Operation.run_step image position hSize operation
    rw [hAnswer] at hOutcome
    rw [hNext] at hPosition
    rw [List.map_cons, run, machine]
    generalize operation.step.procedure.run ⟨source, position⟩ = done at hOutcome hPosition hMember ⊢
    obtain ⟨outcome, ⟨source', position'⟩, records, exchanges⟩ := done
    dsimp only at hOutcome hPosition hMember ⊢
    subst hOutcome hPosition
    rw [ih hMember]

theorem serves_bytes (image : Bytes) : Source.Serves image (· = image) := by
  constructor
  · rintro source rfl
    exact ⟨rfl, rfl⟩
  · rintro source offset count rfl hCount
    rw [Source.readAt_bytes]
    split <;> exact ⟨rfl, rfl⟩

/-- A walk over an image is a run of the machine, in memory and over every stream that reports the
true size and has no failures but interrupted reads, whatever its past and the position of its own.
The sizes of images are 64-bit numbers, and so the machine does not move beyond them. -/
theorem run_eq_machine (hSize : image.length < addressSpace) (operations : List Operation)
    (position : Nat) :
    run ⟨image, position⟩ (operations.map Operation.step) = machine image position operations ∧
      ∀ stream : Stream, stream.sized = .ofBytes image → stream.script.Steady →
        run ⟨stream, position⟩ (operations.map Operation.step) =
          machine image position operations := by
  refine ⟨run_of_serves (serves_bytes image) hSize rfl operations position, ?_⟩
  intro stream hSized hSteady
  exact run_of_serves (Stream.serves image) hSize ⟨hSized, hSteady⟩ operations position

/-! ### A walk over five bytes -/

/-- A byte at a time, and two of the first reads are interrupted. -/
def halting : Script :=
  ⟨some 1, [(1, ⟨.interrupted, "again"⟩), (2, ⟨.interrupted, "again"⟩)], [], none, none⟩

theorem steady_halting : halting.Steady := by
  refine ⟨fun h => ?_, by decide, rfl, rfl⟩
  cases h
  decide

/-- Reads within the image and behind its end, and a move that would leave the 64-bit positions. -/
def excursion : List Operation :=
  [.unsigned .bits16, .bytes 4 (by decide), .bytes 3 (by decide), .advance 0xFFFFFFFFFFFFFFFF,
    .size, .seek 0xFFFFFFFFFFFFFFFF, .unsigned .bits8, .seek 1, .unsigned .bits32]

theorem run_eq_machine_excursion :
    Script.Steady halting ∧
      run (Cursor.start (Stream.fresh [1, 2, 3, 4, 5] halting 9)) (excursion.map Operation.step) =
        [(.ok (.unsigned .bits16 0x201), 2), (.error .outOfBounds, 2), (.ok (.bytes [3, 4, 5]), 5),
          (.error .outOfBounds, 5), (.ok (.size 5), 5), (.ok .moved, 0xFFFFFFFFFFFFFFFF),
          (.error .outOfBounds, 0xFFFFFFFFFFFFFFFF), (.ok .moved, 1),
          (.ok (.unsigned .bits32 0x5040302), 5)] := by
  have hMachine := @run_eq_machine [1, 2, 3, 4, 5] (by decide) excursion 0
  refine ⟨steady_halting, ?_⟩
  exact (hMachine.2 (.fresh [1, 2, 3, 4, 5] halting 9) rfl steady_halting).trans (by decide +kernel)

end Walk

end ManagedImage
