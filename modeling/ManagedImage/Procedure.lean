import ManagedImage.Record
import ManagedImage.Source

/-!
# Reading procedures

A reading procedure says what to ask of a source and what to do with the answers, but not what the
source is. It works on a cursor: it can ask for the size, ask for bytes at the position, move the
position, and write log records. Its first failing request ends it.

`Procedure.run` carries a procedure out over a source and tells all that can be observed: the
outcome, the cursor afterwards, the records, and the exchanges with the source in their order.

* `Procedure.run_bind`: a sequence of two procedures runs the second from where the first ended.
* `Procedure.bind_assoc`, `Procedure.bind_pure`: the laws of sequencing, so that procedures are a
  lawful monad.
-/

namespace ManagedImage

inductive Procedure (α : Type) where
  /-- Ends with an outcome. -/
  | done (outcome : Except Error α)
  /-- Asks for the size of the source. -/
  | size (next : Nat → Procedure α)
  /-- Asks for the bytes at the position, which stays. -/
  | read (count : Nat) (next : Bytes → Procedure α)
  /-- Moves to a position. -/
  | seek (position : Nat) (next : Procedure α)
  /-- Moves on by a number of bytes. -/
  | advance (step : Nat) (next : Procedure α)
  /-- Writes log records. -/
  | note (records : List Record) (next : Procedure α)

/-- A request to a source, with its answer. -/
inductive Exchange
  | size (answer : Except Error Nat)
  | read (offset count : Nat) (answer : Except Error Bytes)

/-- All that can be observed of a procedure that has been carried out. -/
structure Run (σ α : Type) where
  outcome : Except Error α
  cursor : Cursor σ
  records : List Record
  exchanges : List Exchange

/-- A run with something that came before it. -/
def Run.behind {σ α : Type} (run : Run σ α) (records : List Record)
    (exchanges : List Exchange) : Run σ α :=
  { run with records := records ++ run.records, exchanges := exchanges ++ run.exchanges }

namespace Procedure

variable {σ α β γ : Type}

/-! ## Sequencing -/

/-- Goes on with what `next` makes of the result. -/
def bind : Procedure α → (α → Procedure β) → Procedure β
  | done (.ok a), next => next a
  | done (.error e), _ => done (.error e)
  | size more, next => size (fun n => (more n).bind next)
  | read count more, next => read count (fun bytes => (more bytes).bind next)
  | seek position more, next => seek position (more.bind next)
  | advance step more, next => advance step (more.bind next)
  | note records more, next => note records (more.bind next)

instance : Monad Procedure where
  pure a := done (.ok a)
  bind := bind

instance : MonadLift (Except Error) Procedure where
  monadLift := done

/-- Ends with an error. -/
def fail (error : Error) : Procedure α := done (.error error)

theorem pure_def (a : α) : (pure a : Procedure α) = done (.ok a) := rfl

theorem bind_def (p : Procedure α) (next : α → Procedure β) : p >>= next = p.bind next := rfl

theorem bind_pure (p : Procedure α) : p.bind (fun a => done (.ok a)) = p := by
  induction p with
  | done outcome => cases outcome <;> rfl
  | size next ih => exact congrArg size (funext ih)
  | read count next ih => exact congrArg (read count) (funext ih)
  | seek position next ih => exact congrArg (seek position) ih
  | advance step next ih => exact congrArg (advance step) ih
  | note records next ih => exact congrArg (note records) ih

theorem bind_assoc (p : Procedure α) (f : α → Procedure β) (g : β → Procedure γ) :
    (p.bind f).bind g = p.bind (fun a => (f a).bind g) := by
  induction p with
  | done outcome => cases outcome <;> rfl
  | size next ih => exact congrArg size (funext ih)
  | read count next ih => exact congrArg (read count) (funext ih)
  | seek position next ih => exact congrArg (seek position) ih
  | advance step next ih => exact congrArg (advance step) ih
  | note records next ih => exact congrArg (note records) ih

instance : LawfulMonad Procedure :=
  LawfulMonad.mk' Procedure bind_pure (fun _ _ => rfl) bind_assoc

/-! ## Single steps -/

/-- The size of the source. -/
def sourceSize : Procedure Nat := size pure

def seekTo (position : Nat) : Procedure Unit := seek position (pure ())

def advanceBy (step : Nat) : Procedure Unit := advance step (pure ())

def log (records : List Record) : Procedure Unit := note records (pure ())

/-- The next `count` bytes. -/
def take (count : Nat) : Procedure Bytes := read count (fun bytes => advance count (pure bytes))

/-- The next unsigned integer of a width. -/
def unsigned (width : Width) : Procedure Nat := do
  return leValue (← take width.size)

/-- The next value of a type of fixed width. -/
def value (α : Type) [FixedWidth α] : Procedure α := do
  return FixedWidth.decode (← take (FixedWidth.width α))

/-! ## Running -/

variable [Source σ]

/-- Carries a procedure out over the source of a cursor. -/
def run : Procedure α → Cursor σ → Run σ α
  | done outcome, cursor => ⟨outcome, cursor, [], []⟩
  | size next, cursor =>
    let (answer, source) := Source.size cursor.source
    let cursor := { cursor with source := source }
    match answer with
    | .ok n => ((next n).run cursor).behind [] [.size answer]
    | .error e => ⟨.error e, cursor, [], [.size answer]⟩
  | read count next, cursor =>
    let (answer, source) := Source.readAt cursor.source cursor.position count
    let exchange := Exchange.read cursor.position count answer
    let cursor := { cursor with source := source }
    match answer with
    | .ok bytes => ((next bytes).run cursor).behind [] [exchange]
    | .error e => ⟨.error e, cursor, [], [exchange]⟩
  | seek position next, cursor => next.run (cursor.seek position)
  | advance step next, cursor =>
    match cursor.advance? step with
    | some cursor => next.run cursor
    | none => ⟨.error .outOfBounds, cursor, [], []⟩
  | note records next, cursor => (next.run cursor).behind records []

/-- What a procedure makes of a source, from its start. -/
def outcome (p : Procedure α) (source : σ) : Except Error α := (p.run (Cursor.start source)).outcome

/-- A run that goes on with what `next` makes of its result. -/
def followedBy (first : Run σ α) (next : α → Procedure β) : Run σ β :=
  match first.outcome with
  | .ok a => ((next a).run first.cursor).behind first.records first.exchanges
  | .error e => ⟨.error e, first.cursor, first.records, first.exchanges⟩

theorem followedBy_behind (first : Run σ α) (records : List Record) (exchanges : List Exchange)
    (next : α → Procedure β) :
    followedBy (first.behind records exchanges) next =
      (followedBy first next).behind records exchanges := by
  unfold followedBy Run.behind
  cases first.outcome <;> simp

theorem run_bind (p : Procedure α) (next : α → Procedure β) (cursor : Cursor σ) :
    (p.bind next).run cursor = followedBy (p.run cursor) next := by
  induction p generalizing cursor with
  | done outcome => cases outcome <;> simp [bind, run, followedBy, Run.behind]
  | size more ih =>
    simp only [bind, run]
    split
    · rw [ih, followedBy_behind]
    · rfl
  | read count more ih =>
    simp only [bind, run]
    split
    · rw [ih, followedBy_behind]
    · rfl
  | seek position more ih => exact ih _
  | advance step more ih =>
    simp only [bind, run]
    split
    · exact ih _
    · rfl
  | note records more ih => rw [bind, run, run, ih, followedBy_behind]

end Procedure

end ManagedImage
