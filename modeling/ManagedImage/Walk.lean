import ManagedImage.RuntimeHeader

/-!
# Walking over an image

A walk takes a cursor over an image by single steps: it moves the cursor, asks for the size, or
reads an integer, some bytes or a runtime header. A step that fails ends with an error and the walk
goes on with the next one.

`Walk.run` gives the answer of each step together with the position after it.
-/

namespace ManagedImage.Walk

inductive Step
  | seek (position : Nat)
  | advance (step : Nat)
  | size
  | unsigned (width : Width)
  | bytes (count : Nat)
  | runtimeHeader
  deriving DecidableEq, Repr

/-- What a step answers when it succeeds. -/
inductive Answer
  | moved
  | size (size : Nat)
  | unsigned (width : Width) (value : Nat)
  | bytes (bytes : Bytes)
  | runtimeHeader (header : RuntimeHeader)
  deriving DecidableEq, Repr

/-- The reading procedure that a step stands for. -/
def Step.procedure : Step → Procedure Answer
  | seek position => do
    Procedure.seekTo position
    return .moved
  | advance step => do
    Procedure.advanceBy step
    return .moved
  | size => return .size (← Procedure.sourceSize)
  | unsigned width => return .unsigned width (← Procedure.unsigned width)
  | bytes count => return .bytes (← Procedure.take count)
  | runtimeHeader => return .runtimeHeader (← RuntimeHeader.read)

variable {σ : Type} [Source σ]

/-- The answers of all steps, each with the position after it. -/
def run : Cursor σ → List Step → List (Except Error Answer × Nat)
  | _, [] => []
  | cursor, step :: rest =>
    let done := step.procedure.run cursor
    (done.outcome, done.cursor.position) :: run done.cursor rest

end ManagedImage.Walk
