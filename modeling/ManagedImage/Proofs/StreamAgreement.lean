import ManagedImage.Proofs.Acceptance
import ManagedImage.Proofs.StreamCalls
import ManagedImage.Session

/-!
# Reading through a stream

A procedure that never asks for an empty range does over a stream what it does over the image in
memory, until a call of the stream fails; then it ends with that failure. An empty range would tell
the two apart, since memory refuses one behind its end and a stream does not.

* `Procedure.ReadsNonempty`: every range that the procedure asks for holds a byte.
  `Summary.readsNonempty_read`: the read of a summary is such a procedure.
* `Procedure.settled_run`: the run over a stream and the run over its image.
* `Session.readStream_settles`: whatever came before in a session, a read through the stream answers
  as a read from memory does, or with the first failure of a call.
-/

namespace ManagedImage

/-! ## Procedures that ask for no empty range -/

namespace Procedure

variable {α β : Type}

/-- Whatever the source answers, only ranges with a byte in them are asked for. -/
def ReadsNonempty : Procedure α → Prop
  | done _ => True
  | size next => ∀ n, (next n).ReadsNonempty
  | read count next => 0 < count ∧ ∀ bytes, (next bytes).ReadsNonempty
  | seek _ next => next.ReadsNonempty
  | advance _ next => next.ReadsNonempty
  | note _ next => next.ReadsNonempty

theorem readsNonempty_bind {p : Procedure α} {next : α → Procedure β} (h : p.ReadsNonempty)
    (hNext : ∀ a, (next a).ReadsNonempty) : (p >>= next).ReadsNonempty := by
  rw [bind_def]
  induction p with
  | done outcome =>
    cases outcome with
    | error e => trivial
    | ok a => exact hNext a
  | size more ih => exact fun n => ih n (h n)
  | read count more ih => exact ⟨h.1, fun bytes => ih bytes (h.2 bytes)⟩
  | seek position more ih => exact ih h
  | advance step more ih => exact ih h
  | note records more ih => exact ih h

theorem readsNonempty_lift (x : Except Error α) : (liftM x : Procedure α).ReadsNonempty := trivial

theorem readsNonempty_take {count : Nat} (h : 0 < count) : (take count).ReadsNonempty :=
  ⟨h, fun _ => trivial⟩

theorem readsNonempty_value {α : Type} [FixedWidth α] (h : 0 < FixedWidth.width α) :
    (value α).ReadsNonempty :=
  readsNonempty_bind (readsNonempty_take h) fun _ => trivial

end Procedure

open Procedure (readsNonempty_bind readsNonempty_lift)

theorem HeaderBuffer.readsNonempty_extend (buffer : HeaderBuffer) (stop : Nat) :
    (buffer.extend stop).ReadsNonempty := by
  unfold extend
  split
  · trivial
  · rename_i hMissing
    split
    · trivial
    · refine readsNonempty_bind trivial fun _ => ?_
      exact readsNonempty_bind (Procedure.readsNonempty_take (by omega)) fun _ => trivial

namespace Headers

theorem readsNonempty_readDos (options : Options) : (readDos options).ReadsNonempty := by
  refine readsNonempty_bind (fun _ => trivial) fun limit => ?_
  refine readsNonempty_bind (HeaderBuffer.readsNonempty_extend _ _) fun buffer => ?_
  refine readsNonempty_bind (readsNonempty_lift _) fun dos => ?_
  split
  · trivial
  · split <;> trivial

theorem readsNonempty_readCoff (options : Options) (dos : DosHeader) (buffer : HeaderBuffer) :
    (readCoff options dos buffer).ReadsNonempty := by
  refine readsNonempty_bind (HeaderBuffer.readsNonempty_extend _ _) fun buffer => ?_
  refine readsNonempty_bind (readsNonempty_lift _) fun signature => ?_
  split
  · trivial
  refine readsNonempty_bind (readsNonempty_lift _) fun coff => ?_
  refine readsNonempty_bind trivial fun _ => ?_
  split
  · trivial
  refine readsNonempty_bind (HeaderBuffer.readsNonempty_extend _ _) fun buffer => ?_
  exact readsNonempty_bind (HeaderBuffer.readsNonempty_extend _ _) fun _ => trivial

theorem readsNonempty_read (options : Options) : (read options).ReadsNonempty := by
  refine readsNonempty_bind (readsNonempty_readDos options) fun _ => ?_
  refine readsNonempty_bind (readsNonempty_readCoff options _ _) fun _ => ?_
  refine readsNonempty_bind (readsNonempty_lift _) fun _ => ?_
  refine readsNonempty_bind trivial fun _ => ?_
  refine readsNonempty_bind (readsNonempty_lift _) fun _ => ?_
  exact readsNonempty_bind trivial fun _ => trivial

end Headers

theorem RuntimeHeader.readsNonempty_read : RuntimeHeader.read.ReadsNonempty := by
  have hShort := @Procedure.readsNonempty_value UInt16 _ (by decide)
  have hWord := @Procedure.readsNonempty_value UInt32 _ (by decide)
  exact readsNonempty_bind hWord fun _ => readsNonempty_bind hShort fun _ =>
    readsNonempty_bind hShort fun _ => readsNonempty_bind hWord fun _ =>
    readsNonempty_bind hWord fun _ => readsNonempty_bind hWord fun _ => trivial

namespace Summary

theorem readsNonempty_readRuntime (options : Options) (offset : Nat) :
    (readRuntime options offset).ReadsNonempty := by
  refine readsNonempty_bind trivial fun _ => ?_
  refine readsNonempty_bind RuntimeHeader.readsNonempty_read fun runtime => ?_
  split
  · exact readsNonempty_bind (readsNonempty_lift _) fun _ => trivial
  · trivial

theorem readsNonempty_read (options : Options) : (read options).ReadsNonempty := by
  refine readsNonempty_bind (Headers.readsNonempty_read options) fun headers => ?_
  split
  · exact readsNonempty_bind trivial fun _ => trivial
  · refine readsNonempty_bind (readsNonempty_lift _) fun offset => ?_
    refine readsNonempty_bind trivial fun _ => ?_
    refine readsNonempty_bind (readsNonempty_readRuntime _ _) fun runtime => ?_
    exact readsNonempty_bind trivial fun _ => trivial

end Summary

/-! ## Stream and memory -/

/-- The image behind a stream, under the size that the stream reports. -/
def Stream.sized (stream : Stream) : SizedImage :=
  ⟨stream.image, stream.script.reportedSize.getD stream.image.length⟩

theorem Stream.Leads.sized_eq {before after : Stream} {calls : List StreamCall}
    (h : before.Leads after calls) : after.sized = before.sized := by
  simp only [sized, h.image, h.script]

/-- If no call of the stream fails, the run is that over the image; else its last call fails and
decides the outcome. -/
theorem Procedure.settled_run {α : Type} (p : Procedure α) (hReads : p.ReadsNonempty)
    (stream : Stream) (h : stream.script.Cooperative) (position : Nat) :
    ∃ calls, stream.Leads (p.run ⟨stream, position⟩).cursor.source calls ∧
      Settled calls
        ((p.run ⟨stream, position⟩).outcome = (p.run ⟨stream.sized, position⟩).outcome ∧
          (p.run ⟨stream, position⟩).records = (p.run ⟨stream.sized, position⟩).records)
        (p.run ⟨stream, position⟩).outcome := by
  have hNone : ∀ call ∈ ([] : List StreamCall), call.failure? = none := List.forall_mem_nil _
  induction p generalizing stream position with
  | done outcome => exact ⟨[], .refl _, .inl ⟨hNone, rfl, rfl⟩⟩
  | size next ih =>
    obtain ⟨calls, hLeads, hSettled⟩ := stream.settled_size
    have hSource : Source.size stream = stream.size := rfl
    have hMemory : Source.size stream.sized = (.ok stream.sized.size, stream.sized) := rfl
    rw [run, run, hSource, hMemory]
    generalize stream.size = found at hLeads hSettled ⊢
    obtain ⟨answer, source⟩ := found
    dsimp only at hLeads hSettled ⊢
    rcases hSettled with ⟨hCalls, rfl⟩ | ⟨before, call, fault, rfl, hBefore, hCall, rfl⟩
    · obtain ⟨more, hMore, hRest⟩ :=
        ih stream.sized.size (hReads _) source (hLeads.script ▸ h) position
      rw [hLeads.sized_eq] at hRest
      exact ⟨calls ++ more, hLeads.trans hMore, hRest.append hCalls⟩
    · exact ⟨_, hLeads, .inr ⟨before, call, fault, rfl, hBefore, hCall, rfl⟩⟩
  | read count next ih =>
    obtain ⟨hCount, hNext⟩ := hReads
    obtain ⟨calls, hLeads, hSettled⟩ := @Stream.settled_readAt stream h position count hCount
    have hSource : Source.readAt stream position count = stream.readAt position count := rfl
    have hMemory : Source.readAt stream.sized position count =
        ((Source.readAt stream.image position count).1, stream.sized) := rfl
    rw [run, run, hSource, hMemory]
    generalize stream.readAt position count = found at hLeads hSettled ⊢
    obtain ⟨answer, source⟩ := found
    dsimp only at hLeads hSettled ⊢
    rcases hSettled with ⟨hCalls, hAnswer⟩ | ⟨before, call, fault, rfl, hBefore, hCall, rfl⟩
    · subst hAnswer
      cases (Source.readAt stream.image position count).1 with
      | error e => exact ⟨calls, hLeads, .inl ⟨hCalls, rfl, rfl⟩⟩
      | ok bytes =>
        obtain ⟨more, hMore, hRest⟩ := ih bytes (hNext bytes) source (hLeads.script ▸ h) position
        rw [hLeads.sized_eq] at hRest
        exact ⟨calls ++ more, hLeads.trans hMore, hRest.append hCalls⟩
    · exact ⟨_, hLeads, .inr ⟨before, call, fault, rfl, hBefore, hCall, rfl⟩⟩
  | seek target next ih => exact ih hReads stream h target
  | advance step next ih =>
    rw [run, run]
    unfold Cursor.advance?
    by_cases hSpace : position + step < addressSpace
    · rw [if_pos hSpace, if_pos hSpace]
      exact ih hReads stream h (position + step)
    · rw [if_neg hSpace, if_neg hSpace]
      exact ⟨[], .refl _, .inl ⟨hNone, rfl, rfl⟩⟩
  | note records next ih =>
    obtain ⟨calls, hLeads, hSettled⟩ := ih hReads stream h position
    refine ⟨calls, hLeads, hSettled.imp fun hSame => ⟨hSame.1, ?_⟩⟩
    exact congrArg (records ++ ·) hSame.2

/-! ## Sessions -/

namespace Session

variable {image : Bytes} {script : Script} {position : Nat} {steps : List Step} {session : Session}

theorem stream_finishRead (session : Session) (outcome : Except Error Summary) :
    (session.finishRead outcome).2.stream = session.stream := by
  cases outcome <;> rfl

/-- A read through the stream makes calls on it, and the last summary is all that it leaves else. -/
theorem leads_readStream (h : session.stream.script.Cooperative) :
    ∃ calls, session.stream.Leads (session.step .readStream).2.stream calls ∧
      Settled calls
        (((Summary.read session.options).run (Cursor.start session.stream)).outcome =
          ((Summary.read session.options).run (Cursor.start session.stream.sized)).outcome)
        ((Summary.read session.options).run (Cursor.start session.stream)).outcome := by
  obtain ⟨calls, hLeads, hSettled⟩ :=
    (Summary.read session.options).settled_run (Summary.readsNonempty_read _) session.stream h 0
  refine ⟨calls, ?_, hSettled.imp And.left⟩
  show session.stream.Leads (finishRead { session with stream := _ } _).2.stream calls
  rw [stream_finishRead]
  exact hLeads

theorem script_step (h : session.stream.script.Cooperative) (step : Step) :
    (session.step step).2.stream.script = session.stream.script := by
  cases step with
  | put | resize | setOptions | seek | take => rfl
  | readStream =>
    obtain ⟨calls, hLeads, -⟩ := leads_readStream h
    exact hLeads.script
  | readMemory => exact congrArg Stream.script (stream_finishRead _ _)

theorem script_run (h : session.stream.script.Cooperative) :
    (session.run steps).2.stream.script = session.stream.script := by
  induction steps generalizing session with
  | nil => rfl
  | cons step rest ih =>
    have hStep := script_step h step
    exact (ih (hStep ▸ h)).trans hStep

/-- An image of which the stream reports the true size is read as it is in memory. -/
theorem outcome_sized (hSize : ∀ size, session.stream.script.reportedSize = some size →
    size = session.image.length) :
    ((Summary.read session.options).run (Cursor.start session.stream.sized)).outcome =
      Summary.ofBytes session.options session.image := by
  have hSized : session.stream.sized = .ofBytes session.image := by
    unfold Stream.sized
    cases hReported : session.stream.script.reportedSize with
    | none => rfl
    | some size =>
      rw [hSize size hReported]
      rfl
  rw [hSized]
  exact (Procedure.run_bytes (Summary.read session.options) session.image 0).1.symm

theorem answer_readStream
    (h : ((Summary.read session.options).run (Cursor.start session.stream)).outcome =
      Summary.ofBytes session.options session.image) :
    (session.step .readStream).1 = (session.step .readMemory).1 := by
  show (finishRead { session with stream := _ } _).1 = (session.finishRead _).1
  rw [h]
  cases Summary.ofBytes session.options session.image <;> rfl

theorem answer_readStream_error {e : Error}
    (h : ((Summary.read session.options).run (Cursor.start session.stream)).outcome = .error e) :
    (session.step .readStream).1 = .error e := by
  show (finishRead { session with stream := _ } _).1 = _
  rw [h]
  rfl

/-- After any history, a read through the stream answers as one from memory if none of its calls
fails. Otherwise the first call that fails is its last, and the answer is that failure. -/
theorem readStream_settles
    (hSession : session = ((start (.fresh image script position)).run steps).2)
    (hScript : script.Cooperative)
    (hSize : ∀ size, script.reportedSize = some size → size = session.image.length) :
    ∃ calls,
      (session.step .readStream).2.stream.history = calls.reverse ++ session.stream.history ∧
      ((∀ call ∈ calls, call.failure? = none) →
        (session.step .readStream).1 = (session.step .readMemory).1) ∧
      ∀ before call after fault, calls = before ++ call :: after →
        (∀ c ∈ before, c.failure? = none) → call.failure? = some fault →
          after = [] ∧
          (fault.kind = .unexpectedEof →
            (session.step .readStream).1 = .error .outOfBounds) ∧
          (fault.kind ≠ .unexpectedEof →
            (session.step .readStream).1 = .error (.failed fault)) := by
  have hSame : session.stream.script = script := by
    rw [hSession]
    exact @script_run steps (start (.fresh image script position)) hScript
  obtain ⟨calls, hLeads, hSettled⟩ := leads_readStream (hSame ▸ hScript)
  rw [outcome_sized (hSame ▸ hSize)] at hSettled
  refine ⟨calls, hLeads.history, fun hCalls => ?_, ?_⟩
  · exact answer_readStream (hSettled.of_no_failure hCalls)
  · rintro before call after fault rfl hBefore hCall
    obtain ⟨rfl, hOutcome⟩ := hSettled.of_failure hBefore hCall
    have hAnswer := answer_readStream_error hOutcome
    refine ⟨rfl, fun hKind => ?_, fun hKind => ?_⟩
    · rw [hAnswer, Error.ofFault, if_pos hKind]
    · rw [hAnswer, Error.ofFault, if_neg hKind]

/-! ### A stream that is interrupted and one that fails -/

/-- At most 200 bytes are read at once, and the third call to read is interrupted. -/
def bumpy : Script := ⟨some 200, [(2, ⟨.interrupted, "again"⟩)], [], none, some 364⟩

/-- The first seek fails. -/
def slow : Script := ⟨some 200, [], [(0, ⟨.timedOut, "slow"⟩)], none, some 364⟩

/-- A session in which a read is over and the owner has taken some bytes. -/
def retried : Session :=
  ((start (.fresh specimen bumpy 17)).run [.readStream, .take 3, .setOptions .strict]).2

/-- An interruption is no failure. -/
theorem steady_bumpy : bumpy.Steady := by
  refine ⟨fun h => ?_, by decide, rfl, rfl⟩
  cases h
  decide

theorem cooperative_bumpy : bumpy.Cooperative := steady_bumpy.cooperative

theorem cooperative_slow : slow.Cooperative := by
  constructor
  · intro most h
    cases h
    decide
  · intro limit fault h
    cases h

theorem readStream_settles_retried :
    bumpy.Cooperative ∧ (retried.step .readStream).1 = (retried.step .readMemory).1 ∧
      slow.Cooperative ∧ ((start (.fresh specimen slow 17)).step .readStream).1 =
        .error (.failed ⟨.timedOut, "slow"⟩) := by
  refine ⟨cooperative_bumpy, ?_, cooperative_slow, ?_⟩
  · have hScript : retried.stream.script = bumpy :=
      @script_run _ (start (.fresh specimen bumpy 17)) cooperative_bumpy
    have hImage : retried.image = specimen := by
      obtain ⟨calls, hLeads, -⟩ :=
        @leads_readStream (start (.fresh specimen bumpy 17)) cooperative_bumpy
      exact hLeads.image
    obtain ⟨calls, hHistory, hServed, -⟩ :=
      @readStream_settles specimen bumpy 17 _ retried rfl cooperative_bumpy
        fun size h => by rw [hImage, length_specimen]; exact (Option.some.inj h).symm
    obtain ⟨calls', hLeads, -⟩ := @leads_readStream retried (hScript ▸ cooperative_bumpy)
    have hCalls : calls = calls' :=
      List.reverse_inj.1 (List.append_cancel_right (hHistory.symm.trans hLeads.history))
    exact hServed (hCalls ▸ hLeads.no_failure (hScript ▸ steady_bumpy.not_schedules))
  · obtain ⟨calls, hHistory, -, hFailed⟩ :=
      @readStream_settles specimen slow 17 [] _ rfl cooperative_slow
        fun size h => (Option.some.inj h).symm.trans length_specimen.symm
    have hCalls : calls = [.seek (.error ⟨.timedOut, "slow"⟩)] := by
      have hOnly : [StreamCall.seek (.error ⟨.timedOut, "slow"⟩)] = calls.reverse ++ [] := hHistory
      rw [List.append_nil] at hOnly
      exact List.reverse_eq_iff.1 hOnly.symm
    obtain ⟨-, -, hOther⟩ := hFailed [] _ [] _ hCalls (List.forall_mem_nil _) rfl
    exact hOther (by decide)

end Session

end ManagedImage
