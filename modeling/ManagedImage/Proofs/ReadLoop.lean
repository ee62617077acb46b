import ManagedImage.Proofs.Walks

/-!
# The loop that fetches a range

A stream fetches a range with one seek and a loop of reads. The loop repeats a read that was
interrupted, so nothing in the loop itself says that it comes to an end; it does because a script
has only so many interruptions in store and every other read gets a byte or meets the end of the
image.

* `Stream.Loop`: the loop as it is written, without the schedule of the stream and without a
  measure. A derivation is a loop that has ended, with the calls that it made.
* `Stream.Loop.unique`: the loop can end in one way only.
* `Stream.Loop.length_calls_le`: apart from the interrupted calls there are at most as many as
  bytes were missing.
* `Stream.loop_fill`: over a cooperative script the loop ends, and as `Stream.fill` says.
* `Stream.readAt_fetches`: what all of this comes to for a range.
-/

namespace ManagedImage

/-! ## Ranges of memory -/

/-- Fetches a range of a byte string whose end has to be a 64-bit number. -/
def Bytes.rangeAt (data : Bytes) (offset count : Nat) : Except Error Bytes :=
  if offset + count < addressSpace then
    if offset + count ≤ data.length then .ok ((data.drop offset).take count)
    else .error .outOfBounds
  else .error .outOfBounds

/-- The guard on the end of the range decides nothing: no byte string goes so far. -/
theorem Bytes.rangeAt_eq {data : Bytes} (hSize : data.length < addressSpace) (offset count : Nat) :
    data.rangeAt offset count = (Source.readAt data offset count).1 := by
  rw [Source.readAt_bytes]
  unfold rangeAt
  by_cases hFits : offset + count ≤ data.length
  · rw [if_pos (Nat.lt_of_le_of_lt hFits hSize), if_pos hFits, if_pos hFits]
  · rw [if_neg hFits, if_neg hFits, ite_self]

/-! ## The loop -/

namespace StreamCall

def isRead : StreamCall → Bool
  | seek _ => false
  | read .. => true

/-- A read that was interrupted. -/
def isInterrupted : StreamCall → Bool
  | read _ (.error fault) => fault.kind == .interrupted
  | _ => false

end StreamCall

namespace Stream

/-- The loop of reads that fetches the bytes that are missing behind those that are `done`. It goes
on behind the bytes that a call gives, and once more after an interruption; it ends when nothing is
missing, at a call that gives nothing, and at any other failure. The calls come the earliest
first. -/
inductive Loop : Stream → (missing : Nat) → (done : Bytes) → (calls : List StreamCall) →
    (outcome : Except Error Bytes) → (last : Stream) → Prop
  | full {stream : Stream} {done : Bytes} : Loop stream 0 done [] (.ok done) stream
  | ended {stream last : Stream} {missing : Nat} {done : Bytes} (hMissing : 0 < missing)
      (hRead : stream.read missing = (.ok [], last)) :
      Loop stream missing done [.read missing (.ok [])] (.error .outOfBounds) last
  | more {stream next last : Stream} {missing : Nat} {done bytes : Bytes} {calls : List StreamCall}
      {outcome : Except Error Bytes} (hMissing : 0 < missing)
      (hRead : stream.read missing = (.ok bytes, next)) (hBytes : bytes ≠ [])
      (hRest : Loop next (missing - bytes.length) (done ++ bytes) calls outcome last) :
      Loop stream missing done (.read missing (.ok bytes) :: calls) outcome last
  | again {stream next last : Stream} {missing : Nat} {done : Bytes} {fault : Fault}
      {calls : List StreamCall} {outcome : Except Error Bytes} (hMissing : 0 < missing)
      (hRead : stream.read missing = (.error fault, next)) (hKind : fault.kind = .interrupted)
      (hRest : Loop next missing done calls outcome last) :
      Loop stream missing done (.read missing (.error fault) :: calls) outcome last
  | failed {stream last : Stream} {missing : Nat} {done : Bytes} {fault : Fault}
      (hMissing : 0 < missing) (hRead : stream.read missing = (.error fault, last))
      (hKind : fault.kind ≠ .interrupted) :
      Loop stream missing done [.read missing (.error fault)] (.error (.ofFault fault)) last

variable {stream last last' : Stream} {missing : Nat} {done : Bytes}
variable {calls calls' : List StreamCall} {outcome outcome' : Except Error Bytes}

theorem eq_afterRead {next : Stream} {answer : Except Fault Bytes}
    (hRead : stream.read missing = (answer, next)) : next = stream.afterRead missing answer := by
  obtain ⟨rfl, rfl⟩ := Prod.mk.inj hRead
  rfl

/-- A read call notes itself in the history of the stream. -/
theorem history_of_read {next : Stream} {answer : Except Fault Bytes}
    (hRead : stream.read missing = (answer, next)) :
    next.history = .read missing answer :: stream.history := by
  rw [eq_afterRead hRead]
  rfl

namespace Loop

theorem history (h : Loop stream missing done calls outcome last) :
    last.history = calls.reverse ++ stream.history := by
  induction h with
  | full => rfl
  | ended hMissing hRead => exact history_of_read hRead
  | more hMissing hRead hBytes hRest ih =>
    rw [ih, history_of_read hRead, List.reverse_cons, List.append_assoc]
    rfl
  | again hMissing hRead hKind hRest ih =>
    rw [ih, history_of_read hRead, List.reverse_cons, List.append_assoc]
    rfl
  | failed hMissing hRead hKind => exact history_of_read hRead

theorem isRead (h : Loop stream missing done calls outcome last) :
    ∀ call ∈ calls, call.isRead = true := by
  induction h with
  | full => exact List.forall_mem_nil _
  | ended => exact List.forall_mem_singleton.2 rfl
  | more hMissing hRead hBytes hRest ih => exact List.forall_mem_cons.2 ⟨rfl, ih⟩
  | again hMissing hRead hKind hRest ih => exact List.forall_mem_cons.2 ⟨rfl, ih⟩
  | failed => exact List.forall_mem_singleton.2 rfl

/-- Each call gets a byte, is interrupted, or is the last one. -/
theorem length_calls_le (h : Loop stream missing done calls outcome last) :
    calls.length ≤ missing + calls.countP StreamCall.isInterrupted := by
  induction h with
  | full => exact Nat.zero_le _
  | ended hMissing => exact Nat.le_trans hMissing (Nat.le_add_right _ _)
  | @more stream next last missing done bytes calls outcome hMissing hRead hBytes hRest ih =>
    have hSome : 0 < bytes.length := List.length_pos_iff.2 hBytes
    have hCount : (StreamCall.read missing (.ok bytes) :: calls).countP StreamCall.isInterrupted =
        calls.countP StreamCall.isInterrupted := List.countP_cons_of_neg Bool.false_ne_true
    rw [hCount, List.length_cons]
    omega
  | @again stream next last missing done fault calls outcome hMissing hRead hKind hRest ih =>
    have hCount : (StreamCall.read missing (.error fault) :: calls).countP
        StreamCall.isInterrupted = calls.countP StreamCall.isInterrupted + 1 :=
      List.countP_cons_of_pos (beq_iff_eq.2 hKind)
    rw [hCount, List.length_cons]
    omega
  | failed hMissing => exact Nat.le_trans hMissing (Nat.le_add_right _ _)

/-- The answer of each read decides how the loop goes on. -/
theorem unique (h : Loop stream missing done calls outcome last)
    (h' : Loop stream missing done calls' outcome' last') :
    calls' = calls ∧ outcome' = outcome ∧ last' = last := by
  induction h generalizing calls' outcome' last' with
  | full =>
    cases h' with
    | full => exact ⟨rfl, rfl, rfl⟩
    | ended hMissing | more hMissing | again hMissing | failed hMissing =>
      exact absurd hMissing (Nat.lt_irrefl 0)
  | ended hMissing hRead =>
    cases h' with
    | full => exact absurd hMissing (Nat.lt_irrefl 0)
    | ended _ hRead' => exact ⟨rfl, rfl, congrArg Prod.snd (hRead'.symm.trans hRead)⟩
    | more _ hRead' hBytes =>
      cases hRead.symm.trans hRead'
      exact absurd rfl hBytes
    | again _ hRead' | failed _ hRead' => cases hRead.symm.trans hRead'
  | more hMissing hRead hBytes hRest ih =>
    cases h' with
    | full => exact absurd hMissing (Nat.lt_irrefl 0)
    | ended _ hRead' =>
      cases hRead.symm.trans hRead'
      exact absurd rfl hBytes
    | more _ hRead' _ hRest' =>
      cases hRead.symm.trans hRead'
      obtain ⟨rfl, rfl, rfl⟩ := ih hRest'
      exact ⟨rfl, rfl, rfl⟩
    | again _ hRead' | failed _ hRead' => cases hRead.symm.trans hRead'
  | again hMissing hRead hKind hRest ih =>
    cases h' with
    | full => exact absurd hMissing (Nat.lt_irrefl 0)
    | ended _ hRead' | more _ hRead' => cases hRead.symm.trans hRead'
    | again _ hRead' _ hRest' =>
      cases hRead.symm.trans hRead'
      obtain ⟨rfl, rfl, rfl⟩ := ih hRest'
      exact ⟨rfl, rfl, rfl⟩
    | failed _ hRead' hKind' =>
      cases hRead.symm.trans hRead'
      exact absurd hKind hKind'
  | failed hMissing hRead hKind =>
    cases h' with
    | full => exact absurd hMissing (Nat.lt_irrefl 0)
    | ended _ hRead' | more _ hRead' => cases hRead.symm.trans hRead'
    | again _ hRead' hKind' =>
      cases hRead.symm.trans hRead'
      exact absurd hKind' hKind
    | failed _ hRead' =>
      cases hRead.symm.trans hRead'
      exact ⟨rfl, rfl, rfl⟩

end Loop

/-! ## The loop ends -/

/-- Filling is the loop. Only where it retries does it ask for more than the loop, namely that an
interruption of the schedule has been used up, and over a cooperative script it always has. -/
theorem loop_fill (stream : Stream) (ahead : Bytes) (missing : Nat) (done : Bytes)
    (hAhead : ahead = stream.ahead) (h : stream.script.Cooperative) :
    ∃ calls, Loop stream missing done.reverse calls (stream.fill ahead missing done).1
      (stream.fill ahead missing done).2 := by
  fun_induction Stream.fill stream ahead missing done with
  | case1 stream ahead done => exact ⟨[], .full⟩
  | case2 stream ahead missing done hMissing next hRead =>
    subst hAhead
    exact ⟨_, .ended (Nat.pos_of_ne_zero hMissing) hRead⟩
  | case3 stream ahead missing done hMissing next b bytes hRead ih =>
    subst hAhead
    obtain rfl := eq_afterRead hRead
    obtain ⟨calls, hRest⟩ := ih List.drop_drop h
    rw [List.reverse_append, List.reverse_reverse] at hRest
    exact ⟨_, .more (Nat.pos_of_ne_zero hMissing) hRead (List.cons_ne_nil b bytes) hRest⟩
  | case4 stream ahead missing done hMissing next fault hRetry hRead ih =>
    subst hAhead
    obtain rfl := eq_afterRead hRead
    obtain ⟨calls, hRest⟩ := ih rfl h
    exact ⟨_, .again (Nat.pos_of_ne_zero hMissing) hRead hRetry.1 hRest⟩
  | case5 stream ahead missing done hMissing next fault hFinal hRead =>
    subst hAhead
    obtain ⟨hAnswer, rfl⟩ := Prod.mk.inj hRead
    have hKind : fault.kind ≠ .interrupted := fun hKind => hFinal
      ⟨hKind, Script.interruptionsFrom_succ_lt (h.lookup_of_interrupted hAnswer hKind) hKind⟩
    exact ⟨_, .failed (Nat.pos_of_ne_zero hMissing) hRead hKind⟩

/-- A stream whose reads may be short or interrupted, but which has no other failures, fetches a
range with one seek and a loop of reads that ends, and in one way only. There is at most one read
for each byte of the range and one more for each interruption. The range comes out as it does in
memory, whatever the chunks, the position and the past of the stream; that its end has to be a
64-bit number makes no difference. -/
theorem readAt_fetches (stream : Stream) (hSteady : stream.script.Steady) (offset : Nat)
    {count : Nat} (hCount : 0 < count) :
    ∃ calls,
      (∀ {calls' outcome last},
        Loop (stream.afterSeek (.ok offset)) count [] calls' outcome last ↔
          calls' = calls ∧ outcome = (stream.readAt offset count).1 ∧
            last = (stream.readAt offset count).2) ∧
      (stream.readAt offset count).2.history =
        calls.reverse ++ .seek (.ok offset) :: stream.history ∧
      (∀ call ∈ calls, call.isRead = true) ∧
      calls.length ≤ count + calls.countP StreamCall.isInterrupted ∧
      (stream.readAt offset count).1 =
        (if offset + count ≤ stream.image.length then
          .ok ((stream.image.drop offset).take count) else .error .outOfBounds) ∧
      (stream.image.length < addressSpace →
        (stream.readAt offset count).1 = stream.image.rangeAt offset count) := by
  have hCooperative := hSteady.cooperative
  obtain ⟨settled, hLeads, hSettled⟩ := @settled_readAt stream hCooperative offset count hCount
  have hOutcome := hSettled.of_no_failure (hLeads.no_failure hSteady.not_schedules)
  have hSeek : stream.seekTo offset = (.ok offset, stream.afterSeek (.ok offset)) := by
    unfold seekTo
    rw [hSteady.seekFaults]
    rfl
  obtain ⟨calls, hLoop⟩ :=
    loop_fill (stream.afterSeek (.ok offset)) (stream.afterSeek (.ok offset)).ahead count [] rfl
      hCooperative
  have hFill : stream.readAt offset count =
      (stream.afterSeek (.ok offset)).fill (stream.afterSeek (.ok offset)).ahead count [] := by
    unfold readAt
    rw [hSeek]
  rw [← hFill] at hLoop
  refine ⟨calls, ⟨fun h => hLoop.unique h, ?_⟩, hLoop.history, hLoop.isRead,
    hLoop.length_calls_le, ?_, fun hSize => ?_⟩
  · rintro ⟨rfl, rfl, rfl⟩
    exact hLoop
  · rw [hOutcome, Source.readAt_bytes]
    split <;> rfl
  · rw [hOutcome, Bytes.rangeAt_eq hSize]

/-- A byte at a time and with two interruptions, for a range within the image, one that runs past
its end, and one that would run past the 64-bit offsets. -/
theorem readAt_fetches_halting :
    Walk.halting.Steady ∧
      ((Stream.fresh [1, 2, 3, 4, 5] Walk.halting 9).readAt 1 3).1 = .ok [2, 3, 4] ∧
      ((Stream.fresh [1, 2, 3, 4, 5] Walk.halting 9).readAt 4 3).1 = .error .outOfBounds ∧
      ((Stream.fresh [1, 2, 3, 4, 5] Walk.halting 9).readAt 0xFFFFFFFFFFFFFFFF 3).1 =
        .error .outOfBounds := by
  have hAt := fun offset => @readAt_fetches (.fresh [1, 2, 3, 4, 5] Walk.halting 9)
    Walk.steady_halting offset 3 (by decide)
  obtain ⟨-, -, -, -, -, hThree, -⟩ := hAt 1
  obtain ⟨-, -, -, -, -, hLast, -⟩ := hAt 4
  obtain ⟨-, -, -, -, -, -, hFar⟩ := hAt 0xFFFFFFFFFFFFFFFF
  exact ⟨Walk.steady_halting, hThree, hLast, hFar (by decide)⟩

end Stream

end ManagedImage
