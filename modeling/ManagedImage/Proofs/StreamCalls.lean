import ManagedImage.Proofs.Memory
import ManagedImage.Stream

/-!
# What the calls of a stream decide

A range is fetched from a stream by a seek and some reads, and each of these calls may fail. The
reads are made until nothing is missing, so short and interrupted ones do not show; the first other
failure is the end of it.

* `StreamCall.failure?` is the failure that a call reports to whoever fetches.
* `Script.Cooperative`: reads make progress, and can be interrupted only so often.
* `Script.Schedules`: the failures that a script has in store. A `Script.Steady` one has none.
* `Stream.Leads`: one stream comes out of another by some calls, which fail only as scheduled.
* `Settled`: either none of the calls fails, or the last one alone does, and its failure is the
  outcome.
* `Stream.settled_readAt`, `Stream.settled_size`: without a failing call, a stream answers as its
  image does in memory.
-/

namespace ManagedImage

/-! ## Calls -/

/-- The failure that a call reports. An interrupted read is repeated instead. -/
def StreamCall.failure? : StreamCall → Option Fault
  | .seek (.ok _) => none
  | .seek (.error fault) => some fault
  | .read _ (.ok _) => none
  | .read _ (.error fault) => if fault.kind = .interrupted then none else some fault

theorem StreamCall.failure?_read_error {wanted : Nat} {fault fault' : Fault} :
    (read wanted (.error fault)).failure? = some fault' ↔
      fault.kind ≠ .interrupted ∧ fault = fault' := by
  unfold failure?
  split <;> simp_all

theorem StreamCall.not_mem_of_failure? {calls : List StreamCall} {call : StreamCall} {fault : Fault}
    (hCall : call.failure? = some fault) (hCalls : ∀ c ∈ calls, c.failure? = none) :
    call ∉ calls := by
  intro hMem
  rw [hCalls call hMem] at hCall
  cases hCall

/-- No call fails and `served` holds, or the last call alone fails and decides the outcome. -/
def Settled {α : Type} (calls : List StreamCall) (served : Prop) (outcome : Except Error α) :
    Prop :=
  ((∀ call ∈ calls, call.failure? = none) ∧ served) ∨
    ∃ before call fault, calls = before ++ [call] ∧ (∀ c ∈ before, c.failure? = none) ∧
      call.failure? = some fault ∧ outcome = .error (.ofFault fault)

namespace Settled

variable {α : Type} {calls : List StreamCall} {call : StreamCall} {fault : Fault}
variable {served served' : Prop} {outcome : Except Error α}

theorem single (hCall : call.failure? = none) (hServed : served) :
    Settled [call] served outcome :=
  .inl ⟨List.forall_mem_singleton.2 hCall, hServed⟩

theorem single_failing (hCall : call.failure? = some fault) :
    Settled [call] served (.error (.ofFault fault) : Except Error α) :=
  .inr ⟨[], call, fault, rfl, List.forall_mem_nil _, hCall, rfl⟩

theorem imp (h : Settled calls served outcome) (hImplies : served → served') :
    Settled calls served' outcome :=
  Or.imp (fun hNone => ⟨hNone.1, hImplies hNone.2⟩) id h

/-- More calls before these, none of which fails, change nothing. -/
theorem append {before : List StreamCall} (hBefore : ∀ call ∈ before, call.failure? = none)
    (h : Settled calls served outcome) : Settled (before ++ calls) served outcome := by
  rcases h with ⟨hCalls, hServed⟩ | ⟨first, call, fault, rfl, hFirst, hCall, hOutcome⟩
  · exact .inl ⟨List.forall_mem_append.2 ⟨hBefore, hCalls⟩, hServed⟩
  · exact .inr ⟨before ++ first, call, fault, (List.append_assoc _ _ _).symm,
      List.forall_mem_append.2 ⟨hBefore, hFirst⟩, hCall, hOutcome⟩

theorem cons (hCall : call.failure? = none) (h : Settled calls served outcome) :
    Settled (call :: calls) served outcome :=
  append (List.forall_mem_singleton.2 hCall) h

theorem of_no_failure (h : Settled calls served outcome)
    (hCalls : ∀ call ∈ calls, call.failure? = none) : served := by
  rcases h with ⟨-, hServed⟩ | ⟨before, call, fault, rfl, -, hCall, -⟩
  · exact hServed
  · have hMem : call ∈ before ++ [call] := List.mem_append_right _ List.mem_cons_self
    exact absurd hMem (StreamCall.not_mem_of_failure? hCall hCalls)

/-- A call that fails is the last one. -/
theorem of_failure {before after : List StreamCall}
    (h : Settled (before ++ call :: after) served outcome)
    (hBefore : ∀ c ∈ before, c.failure? = none) (hCall : call.failure? = some fault) :
    after = [] ∧ outcome = .error (.ofFault fault) := by
  have hMem : ∀ {c : StreamCall} {first rest : List StreamCall}, c ∈ first ++ c :: rest :=
    List.mem_append_right _ List.mem_cons_self
  rcases h with ⟨hCalls, -⟩ | ⟨first, last, fault', hSplit, hFirst, hLast, rfl⟩
  · exact absurd hMem (StreamCall.not_mem_of_failure? hCall hCalls)
  · -- a failing call cannot be among those before the failing one
    rcases List.append_eq_append_iff.1 hSplit with ⟨rest, rfl, hRest⟩ | ⟨rest, rfl, hRest⟩
    · cases rest with
      | nil =>
        obtain ⟨rfl, rfl⟩ := List.cons.inj hRest
        rw [hCall] at hLast
        cases hLast
        exact ⟨rfl, rfl⟩
      | cons c rest =>
        obtain ⟨rfl, -⟩ := List.cons.inj hRest
        exact absurd hMem (StreamCall.not_mem_of_failure? hCall hFirst)
    · cases rest with
      | nil =>
        obtain ⟨rfl, rfl⟩ := List.cons.inj hRest
        rw [hCall] at hLast
        cases hLast
        exact ⟨rfl, rfl⟩
      | cons c rest =>
        obtain ⟨rfl, -⟩ := List.cons.inj hRest
        exact absurd hMem (StreamCall.not_mem_of_failure? hLast hBefore)

end Settled

/-! ## Scripts that let a read get through -/

namespace Script

/-- A read call returns something where there is something, and no stretch of the image interrupts
every call. -/
structure Cooperative (script : Script) : Prop where
  chunk_pos : ∀ {most}, script.chunk = some most → 0 < most
  bad_kind : ∀ {limit fault}, script.bad = some (limit, fault) → fault.kind ≠ .interrupted

variable {script : Script} {call position wanted : Nat} {ahead bytes : Bytes} {fault : Fault}

/-- A read call fails by its number or for the bad region. -/
theorem fault_of_answer (hAnswer : script.answer call position ahead wanted = .error fault) :
    script.readFaults.lookup call = some fault ∨ ∃ limit, script.bad = some (limit, fault) := by
  unfold answer at hAnswer
  split at hAnswer
  · rename_i hLookup
    cases hAnswer
    exact .inl hLookup
  · unfold offer at hAnswer
    dsimp only at hAnswer
    split at hAnswer
    · cases hAnswer
    · rename_i limit _ hBad
      repeat' split at hAnswer
      all_goals cases hAnswer
      exact .inr ⟨limit, hBad⟩

/-- What a read call returns is what stands ahead, and no more than was asked for. -/
theorem taken_of_answer (hAnswer : script.answer call position ahead wanted = .ok bytes) :
    bytes = ahead.take bytes.length ∧ bytes.length ≤ wanted := by
  have hMost : script.chunk.elim wanted (min wanted) ≤ wanted := by
    cases script.chunk with
    | none => exact Nat.le_refl _
    | some most => exact Nat.min_le_left _ _
  have hTake : ∀ {most}, most ≤ wanted → ahead.take most = bytes →
      bytes = ahead.take bytes.length ∧ bytes.length ≤ wanted := by
    rintro most hLe rfl
    rw [List.length_take]
    exact ⟨List.take_eq_take_min, by omega⟩
  unfold answer at hAnswer
  split at hAnswer
  · cases hAnswer
  · unfold offer at hAnswer
    dsimp only at hAnswer
    split at hAnswer
    · exact hTake hMost (Except.ok.inj hAnswer)
    · split at hAnswer
      · have hBytes := Except.ok.inj hAnswer
        rw [List.take_take] at hBytes
        exact hTake (by omega) hBytes
      · split at hAnswer
        · cases hAnswer
          exact ⟨rfl, Nat.zero_le _⟩
        · cases hAnswer

namespace Cooperative

/-- Where a read call that asks for something returns nothing, the image ends. -/
theorem ahead_of_answer_nil (h : script.Cooperative) (hWanted : 0 < wanted)
    (hAnswer : script.answer call position ahead wanted = .ok []) : ahead = [] := by
  have hMost : 0 < script.chunk.elim wanted (min wanted) := by
    cases hChunk : script.chunk with
    | none => exact hWanted
    | some most => exact Nat.lt_min.2 ⟨hWanted, h.chunk_pos hChunk⟩
  have hEmpty : ∀ {most}, 0 < most → ahead.take most = [] → ahead = [] := fun hPos hTake =>
    (List.take_eq_nil_iff.1 hTake).resolve_left (Nat.ne_of_gt hPos)
  unfold answer at hAnswer
  split at hAnswer
  · cases hAnswer
  · unfold offer at hAnswer
    dsimp only at hAnswer
    split at hAnswer
    · exact hEmpty hMost (Except.ok.inj hAnswer)
    · split at hAnswer
      · have hBytes := Except.ok.inj hAnswer
        rw [List.take_take] at hBytes
        exact hEmpty (by omega) hBytes
      · split at hAnswer
        · rename_i hNone
          exact hEmpty hMost (List.isEmpty_iff.1 hNone)
        · cases hAnswer

/-- Only the schedule interrupts a read. -/
theorem lookup_of_interrupted (h : script.Cooperative)
    (hAnswer : script.answer call position ahead wanted = .error fault)
    (hKind : fault.kind = .interrupted) : script.readFaults.lookup call = some fault := by
  rcases fault_of_answer hAnswer with hLookup | ⟨limit, hBad⟩
  · exact hLookup
  · exact absurd hKind (h.bad_kind hBad)

end Cooperative

/-- A call of the stream may fail so. -/
def Schedules (script : Script) (fault : Fault) : Prop :=
  (∃ call, (call, fault) ∈ script.seekFaults) ∨
    fault.kind ≠ .interrupted ∧
      ((∃ call, (call, fault) ∈ script.readFaults) ∨ ∃ limit, script.bad = some (limit, fault))

theorem mem_of_lookup {faults : List (Nat × Fault)} (h : faults.lookup call = some fault) :
    (call, fault) ∈ faults := by
  obtain ⟨before, after, rfl, -⟩ := List.lookup_eq_some_iff.1 h
  exact List.mem_append_right before List.mem_cons_self

theorem schedules_of_answer (hAnswer : script.answer call position ahead wanted = .error fault)
    (hKind : fault.kind ≠ .interrupted) : script.Schedules fault := by
  rcases fault_of_answer hAnswer with hLookup | hBad
  · exact .inr ⟨hKind, .inl ⟨call, mem_of_lookup hLookup⟩⟩
  · exact .inr ⟨hKind, .inr hBad⟩

/-- A read call returns something where there is something, or it is interrupted. No other call
fails. -/
structure Steady (script : Script) : Prop where
  chunk_pos : ∀ {most}, script.chunk = some most → 1 ≤ most
  interrupted : ∀ entry ∈ script.readFaults, entry.2.kind = .interrupted
  seekFaults : script.seekFaults = []
  bad : script.bad = none

theorem Steady.cooperative (h : script.Steady) : script.Cooperative := by
  refine ⟨h.chunk_pos, fun hBad => ?_⟩
  rw [h.bad] at hBad
  cases hBad

theorem Steady.not_schedules (h : script.Steady) (fault : Fault) : ¬ script.Schedules fault := by
  rintro (⟨call, hSeek⟩ | ⟨hKind, ⟨call, hRead⟩ | ⟨limit, hBad⟩⟩)
  · rw [h.seekFaults] at hSeek
    exact List.not_mem_nil hSeek
  · exact hKind (h.interrupted _ hRead)
  · rw [h.bad] at hBad
    cases hBad

end Script

/-! ## Fetching a range -/

namespace Stream

/-- The second stream comes out of the first by these calls, the earliest first. -/
structure Leads (before after : Stream) (calls : List StreamCall) : Prop where
  image : after.image = before.image
  script : after.script = before.script
  history : after.history = calls.reverse ++ before.history
  scheduled : ∀ call ∈ calls, ∀ fault, call.failure? = some fault → before.script.Schedules fault

theorem Leads.refl (stream : Stream) : Leads stream stream [] :=
  ⟨rfl, rfl, rfl, List.forall_mem_nil _⟩

theorem Leads.trans {a b c : Stream} {first second : List StreamCall} (h : Leads a b first)
    (h' : Leads b c second) : Leads a c (first ++ second) := by
  refine ⟨h'.image.trans h.image, h'.script.trans h.script, ?_, ?_⟩
  · rw [h'.history, h.history, List.reverse_append, List.append_assoc]
  · intro call hCall fault hFault
    rcases List.mem_append.1 hCall with hMem | hMem
    · exact h.scheduled call hMem fault hFault
    · exact h.script ▸ h'.scheduled call hMem fault hFault

theorem Leads.no_failure {before after : Stream} {calls : List StreamCall}
    (h : Leads before after calls) (hNone : ∀ fault, ¬ before.script.Schedules fault) :
    ∀ call ∈ calls, call.failure? = none := by
  intro call hCall
  cases hFault : call.failure? with
  | none => rfl
  | some fault => exact absurd (h.scheduled call hCall fault hFault) (hNone fault)

/-- A seek call, which fails only by its number. -/
theorem seekTo_cases (stream : Stream) (position : Nat) :
    (stream.seekTo position = (.ok position, stream.afterSeek (.ok position)) ∧
        Leads stream (stream.afterSeek (.ok position)) [.seek (.ok position)]) ∨
      ∃ fault, stream.seekTo position = (.error fault, stream.afterSeek (.error fault)) ∧
        Leads stream (stream.afterSeek (.error fault)) [.seek (.error fault)] := by
  unfold seekTo
  cases hLookup : stream.script.seekFaults.lookup stream.seeks with
  | none =>
    refine .inl ⟨rfl, rfl, rfl, rfl, fun call hCall fault hFault => ?_⟩
    obtain rfl := List.mem_singleton.1 hCall
    cases hFault
  | some fault =>
    refine .inr ⟨fault, rfl, rfl, rfl, rfl, fun call hCall fault' hFault => ?_⟩
    obtain rfl := List.mem_singleton.1 hCall
    cases hFault
    exact .inl ⟨stream.seeks, Script.mem_of_lookup hLookup⟩

theorem leads_readFrom (stream : Stream) (ahead : Bytes) (wanted : Nat) :
    Leads stream (stream.readFrom ahead wanted).2 [.read wanted (stream.readFrom ahead wanted).1] := by
  refine ⟨rfl, rfl, rfl, fun call hCall fault hFault => ?_⟩
  obtain rfl := List.mem_singleton.1 hCall
  cases hOutcome : (stream.readFrom ahead wanted).1 with
  | ok bytes =>
    rw [hOutcome] at hFault
    cases hFault
  | error fault' =>
    rw [hOutcome] at hFault
    obtain ⟨hKind, hSame⟩ := StreamCall.failure?_read_error.1 hFault
    subst hSame
    exact Script.schedules_of_answer hOutcome hKind

/-- What filling comes to if no call fails. -/
def filled (ahead : Bytes) (missing : Nat) (done : Bytes) : Except Error Bytes :=
  if missing ≤ ahead.length then .ok (done.reverse ++ ahead.take missing) else .error .outOfBounds

/-- Bytes that have been read move from those ahead to those that are done. -/
theorem filled_drop {ahead bytes : Bytes} {missing : Nat} (hBytes : bytes = ahead.take bytes.length)
    (hLength : bytes.length ≤ missing) (done : Bytes) :
    filled (ahead.drop bytes.length) (missing - bytes.length) (bytes.reverse ++ done) =
      filled ahead missing done := by
  have hThere : bytes.length ≤ ahead.length := by
    have hTaken := congrArg List.length hBytes
    rw [List.length_take] at hTaken
    omega
  unfold filled
  rw [List.length_drop]
  by_cases hFits : missing ≤ ahead.length
  · have hRest : missing = bytes.length + (missing - bytes.length) := by omega
    have hSplit : ahead.take missing =
        bytes ++ (ahead.drop bytes.length).take (missing - bytes.length) := by
      rw [hRest, List.take_add, ← hBytes, ← hRest]
    rw [if_pos hFits, if_pos (by omega), hSplit, List.reverse_append, List.reverse_reverse,
      List.append_assoc]
  · rw [if_neg hFits, if_neg (by omega)]

theorem settled_fill (stream : Stream) (ahead : Bytes) (missing : Nat) (done : Bytes)
    (h : stream.script.Cooperative) :
    ∃ calls, stream.Leads (stream.fill ahead missing done).2 calls ∧
      Settled calls ((stream.fill ahead missing done).1 = filled ahead missing done)
        (stream.fill ahead missing done).1 := by
  fun_induction Stream.fill stream ahead missing done with
  | case1 stream ahead done =>
    refine ⟨[], .refl _, .inl ⟨List.forall_mem_nil _, ?_⟩⟩
    unfold filled
    rw [if_pos (Nat.zero_le _), List.take_zero, List.append_nil]
  | case2 stream ahead missing done hMissing next hRead =>
    obtain ⟨hAnswer, rfl⟩ := Prod.mk.inj hRead
    obtain rfl := h.ahead_of_answer_nil (Nat.pos_of_ne_zero hMissing) hAnswer
    refine ⟨_, stream.leads_readFrom [] missing, .single ?_ ?_⟩
    · rw [hRead]
      rfl
    · unfold filled
      rw [List.length_nil, if_neg (by omega)]
  | case3 stream ahead missing done hMissing next b bytes hRead ih =>
    obtain ⟨hAnswer, rfl⟩ := Prod.mk.inj hRead
    obtain ⟨hBytes, hLength⟩ := Script.taken_of_answer hAnswer
    obtain ⟨calls, hLeads, hSettled⟩ := ih h
    refine ⟨_, (stream.leads_readFrom ahead missing).trans hLeads, .cons ?_ ?_⟩
    · rw [hRead]
      rfl
    · exact hSettled.imp fun hRest => hRest.trans (filled_drop hBytes hLength done)
  | case4 stream ahead missing done hMissing next fault hRetry hRead ih =>
    obtain ⟨hAnswer, rfl⟩ := Prod.mk.inj hRead
    obtain ⟨calls, hLeads, hSettled⟩ := ih h
    refine ⟨_, (stream.leads_readFrom ahead missing).trans hLeads, .cons ?_ hSettled⟩
    rw [hRead]
    exact if_pos hRetry.1
  | case5 stream ahead missing done hMissing next fault hFinal hRead =>
    obtain ⟨hAnswer, rfl⟩ := Prod.mk.inj hRead
    -- an interruption is a scheduled one, and after it there is one fewer to come
    have hKind : fault.kind ≠ .interrupted := fun hKind => hFinal
      ⟨hKind, Script.interruptionsFrom_succ_lt (h.lookup_of_interrupted hAnswer hKind) hKind⟩
    refine ⟨_, stream.leads_readFrom ahead missing, .single_failing ?_⟩
    rw [hRead]
    exact if_neg hKind

/-- Filling from an offset gives the range there. -/
theorem filled_range (image : Bytes) (offset : Nat) {count : Nat} (hCount : 0 < count) :
    filled (image.drop offset) count [] = (Source.readAt image offset count).1 := by
  rw [Source.readAt_bytes]
  unfold filled
  rw [List.length_drop]
  by_cases hFits : offset + count ≤ image.length
  · rw [if_pos hFits, if_pos (by omega)]
    rfl
  · rw [if_neg hFits, if_neg (by omega)]

theorem settled_readAt (stream : Stream) (h : stream.script.Cooperative) {offset count : Nat}
    (hCount : 0 < count) :
    ∃ calls, stream.Leads (stream.readAt offset count).2 calls ∧
      Settled calls ((stream.readAt offset count).1 = (Source.readAt stream.image offset count).1)
        (stream.readAt offset count).1 := by
  unfold readAt
  rcases stream.seekTo_cases offset with ⟨hSeek, hFirst⟩ | ⟨fault, hSeek, hFirst⟩
  · obtain ⟨calls, hLeads, hSettled⟩ := settled_fill (stream.afterSeek (.ok offset))
      (stream.afterSeek (.ok offset)).ahead count [] h
    rw [hSeek]
    refine ⟨_, hFirst.trans hLeads, .cons rfl ?_⟩
    exact hSettled.imp fun hFilled => hFilled.trans (filled_range _ _ hCount)
  · rw [hSeek]
    exact ⟨_, hFirst, .single_failing rfl⟩

theorem settled_size (stream : Stream) :
    ∃ calls, stream.Leads stream.size.2 calls ∧
      Settled calls (stream.size.1 = .ok (stream.script.reportedSize.getD stream.image.length))
        stream.size.1 := by
  unfold size seekEnd
  rcases stream.seekTo_cases (stream.script.reportedSize.getD stream.image.length) with
    ⟨hSeek, hCall⟩ | ⟨fault, hSeek, hCall⟩
  · rw [hSeek]
    exact ⟨_, hCall, .single rfl rfl⟩
  · rw [hSeek]
    exact ⟨_, hCall, .single_failing rfl⟩

end Stream

end ManagedImage
