import ManagedImage.Source

/-!
# Streams

A stream holds an image behind a position. Its owner and the reader of the image use the same two
calls, seek and read, and both may fail; a read may also return fewer bytes than were asked for. A
`Script` fixes how a stream behaves at every call, so that a stream is an ordinary value.

* `Script.answer` is what one read call returns; `Stream.read` and `Stream.seekTo` are the calls.
* `Stream.fill` calls read until nothing is missing. An interrupted call is repeated; each round
  either gets bytes or uses up a scheduled interruption, so the loop ends.
* A stream is a `Source`: for a range it seeks once and then fills.
-/

namespace ManagedImage

/-- How a stream behaves. -/
structure Script where
  /-- The most bytes that one read call returns. -/
  chunk : Option Nat
  /-- Read calls that fail, by their number in the life of the stream. -/
  readFaults : List (Nat × Fault)
  /-- Seek calls that fail, by their number in the life of the stream. -/
  seekFaults : List (Nat × Fault)
  /-- An offset from which on no byte can be read, and the failure of trying. -/
  bad : Option (Nat × Fault)
  /-- What is reported as the size instead of the true one. -/
  reportedSize : Option Nat
  deriving DecidableEq, Repr

namespace Script

/-- A stream that behaves well: no failure, no short read, its true size. -/
def plain : Script := ⟨none, [], [], none, none⟩

/-- The bytes that a read call offers when it does not fail by number. -/
def offer (script : Script) (position : Nat) (ahead : Bytes) (wanted : Nat) :
    Except Fault Bytes :=
  let bytes := ahead.take (script.chunk.elim wanted (min wanted))
  match script.bad with
  | none => .ok bytes
  | some (limit, fault) =>
    if position < limit then .ok (bytes.take (limit - position))
    else if bytes.isEmpty then .ok []
    else .error fault

/-- What the read call with number `call` returns, given the position and the bytes ahead of it. -/
def answer (script : Script) (call position : Nat) (ahead : Bytes) (wanted : Nat) :
    Except Fault Bytes :=
  match script.readFaults.lookup call with
  | some fault => .error fault
  | none => script.offer position ahead wanted

/-- The interruptions that are scheduled for the read calls from number `call` on. -/
def interruptionsFrom (script : Script) (call : Nat) : Nat :=
  script.readFaults.countP fun entry => call ≤ entry.1 && entry.2.kind == .interrupted

/-- An interruption that strikes was scheduled, so from the next call on there is one fewer. -/
theorem interruptionsFrom_succ_lt {script : Script} {call : Nat} {fault : Fault}
    (hFault : script.readFaults.lookup call = some fault) (hKind : fault.kind = .interrupted) :
    script.interruptionsFrom (call + 1) < script.interruptionsFrom call := by
  obtain ⟨before, after, hSplit, -⟩ := List.lookup_eq_some_iff.1 hFault
  have hMono : ∀ l : List (Nat × Fault),
      l.countP (fun entry => call + 1 ≤ entry.1 && entry.2.kind == .interrupted) ≤
        l.countP (fun entry => call ≤ entry.1 && entry.2.kind == .interrupted) := by
    intro l
    refine List.countP_mono_left fun p _ h => ?_
    simp only [Bool.and_eq_true, decide_eq_true_eq] at h ⊢
    exact ⟨by omega, h.2⟩
  have hBefore := hMono before
  have hAfter := hMono after
  have hPast : decide (call + 1 ≤ call) = false := by simp
  simp only [interruptionsFrom, hSplit, List.countP_append, List.countP_cons, hKind, hPast,
    beq_self_eq_true, Bool.and_true, Nat.le_refl, decide_true, if_true, Bool.false_eq_true,
    if_false]
  omega

end Script

/-- A call to a stream, with what came of it. -/
inductive StreamCall
  | seek (outcome : Except Fault Nat)
  | read (wanted : Nat) (outcome : Except Fault Bytes)

/-- A stream over an image. -/
structure Stream where
  image : Bytes
  script : Script
  position : Nat
  /-- The number of seek calls so far. -/
  seeks : Nat
  /-- The number of read calls so far. -/
  reads : Nat
  /-- The calls so far, the latest first. -/
  history : List StreamCall

namespace Stream

/-- A stream that nobody has called yet. -/
def fresh (image : Bytes) (script : Script) (position : Nat) : Stream :=
  ⟨image, script, position, 0, 0, []⟩

/-- The bytes from the position on. -/
def ahead (stream : Stream) : Bytes := stream.image.drop stream.position

/-- The stream after a seek call. -/
def afterSeek (stream : Stream) (outcome : Except Fault Nat) : Stream :=
  { stream with
    position := match outcome with
      | .ok position => position
      | .error _ => stream.position
    seeks := stream.seeks + 1
    history := .seek outcome :: stream.history }

/-- The stream after a read call. -/
def afterRead (stream : Stream) (wanted : Nat) (outcome : Except Fault Bytes) : Stream :=
  { stream with
    position := match outcome with
      | .ok bytes => stream.position + bytes.length
      | .error _ => stream.position
    reads := stream.reads + 1
    history := .read wanted outcome :: stream.history }

/-- One seek call; it gives the new position. -/
def seekTo (stream : Stream) (position : Nat) : Except Fault Nat × Stream :=
  let outcome := match stream.script.seekFaults.lookup stream.seeks with
    | some fault => .error fault
    | none => .ok position
  (outcome, stream.afterSeek outcome)

/-- One seek call to what the stream takes for its end. -/
def seekEnd (stream : Stream) : Except Fault Nat × Stream :=
  stream.seekTo (stream.script.reportedSize.getD stream.image.length)

/-- One read call, for a caller that knows the bytes ahead of the position. -/
def readFrom (stream : Stream) (ahead : Bytes) (wanted : Nat) : Except Fault Bytes × Stream :=
  let outcome := stream.script.answer stream.reads stream.position ahead wanted
  (outcome, stream.afterRead wanted outcome)

/-- One read call; it gives at most `wanted` bytes and moves behind them. -/
def read (stream : Stream) (wanted : Nat) : Except Fault Bytes × Stream :=
  stream.readFrom stream.ahead wanted

/-- The scheduled interruptions that still lie ahead. -/
def interruptions (stream : Stream) : Nat := stream.script.interruptionsFrom stream.reads

/-- Calls read until nothing is missing, and gives the bytes of all calls; `ahead` are the bytes
from the position on and `done` those that have been read already, the last one first. A call that
gives nothing has met the end of the image, and any failure but a scheduled interruption is
final. -/
def fill (stream : Stream) (ahead : Bytes) (missing : Nat) (done : Bytes) :
    Except Error Bytes × Stream :=
  if _hMissing : missing = 0 then (.ok done.reverse, stream)
  else
    let (outcome, next) := stream.readFrom ahead missing
    match outcome with
    | .ok [] => (.error .outOfBounds, next)
    | .ok (b :: bytes) =>
      next.fill (ahead.drop (bytes.length + 1)) (missing - (bytes.length + 1))
        ((b :: bytes).reverse ++ done)
    | .error fault =>
      if _hRetry : fault.kind = .interrupted ∧ next.interruptions < stream.interruptions then
        next.fill ahead missing done
      else (.error (.ofFault fault), next)
termination_by (missing, stream.interruptions)
decreasing_by
  · exact Prod.Lex.left _ _ (by omega)
  · exact Prod.Lex.right _ _hRetry.2

/-- The `count` bytes at an offset: one seek, then as many reads as it takes. -/
def readAt (stream : Stream) (offset count : Nat) : Except Error Bytes × Stream :=
  match stream.seekTo offset with
  | (.ok _, stream) => stream.fill stream.ahead count []
  | (.error fault, stream) => (.error (.ofFault fault), stream)

/-- The size of the image, by one seek to its end. -/
def size (stream : Stream) : Except Error Nat × Stream :=
  match stream.seekEnd with
  | (.ok position, stream) => (.ok position, stream)
  | (.error fault, stream) => (.error (.ofFault fault), stream)

instance : Source Stream := ⟨size, readAt⟩

end Stream

end ManagedImage
