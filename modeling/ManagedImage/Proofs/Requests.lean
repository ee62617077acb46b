import ManagedImage.Proofs.StreamAgreement

/-!
# What a procedure asks of its source

The exchanges of a run are the requests of the procedure with the answers of the source. This module
has what holds of them for every procedure.

* `Procedure.run_stops`: behind a request that fails there is none.
* `Source.Truthful`: what the sources of a class answer, if they answer, is true of an image.
  `Procedure.run_truthful`: the requests made of such a source are those made of the image, up to
  the first one that fails.
* `Consecutive` and `InTurn`: the two patterns in which an image is read. Consecutive reads begin
  where the one before ended; fields are read in turn until one is missing.
* `Procedure.Fills`: over an image in memory, the procedure makes consecutive reads. It is closed
  under sequencing (`Procedure.fills_bind`).
-/

namespace ManagedImage

/-! ## Requests -/

/-- What is asked of a source. -/
inductive Request
  | size
  | read (offset count : Nat)
  deriving DecidableEq, Repr

namespace Exchange

def request : Exchange → Request
  | size _ => .size
  | read offset count _ => .read offset count

/-- The answer is an error. -/
def Failed : Exchange → Prop
  | size answer => ∃ e, answer = .error e
  | read _ _ answer => ∃ e, answer = .error e

end Exchange

variable {α β σ : Type}

/-- The requests of a run, in their order. -/
def Run.requests (run : Run σ α) : List Request := run.exchanges.map Exchange.request

/-- Of two exchanges of a run, the earlier one has not failed. -/
theorem Procedure.run_stops [Source σ] (p : Procedure α) (cursor : Cursor σ) :
    (p.run cursor).exchanges.Pairwise fun earlier _ => ¬ earlier.Failed := by
  induction p generalizing cursor with
  | done outcome => exact .nil
  | size next ih =>
    rw [run]
    generalize Source.size cursor.source = found
    obtain ⟨answer, source⟩ := found
    cases answer with
    | error e => exact List.pairwise_singleton _ _
    | ok n =>
      refine List.pairwise_cons.2 ⟨fun _ _ => ?_, ih n _⟩
      rintro ⟨e, h⟩
      cases h
  | read count next ih =>
    rw [run]
    generalize Source.readAt cursor.source cursor.position count = found
    obtain ⟨answer, source⟩ := found
    cases answer with
    | error e => exact List.pairwise_singleton _ _
    | ok bytes =>
      refine List.pairwise_cons.2 ⟨fun _ _ => ?_, ih bytes _⟩
      rintro ⟨e, h⟩
      cases h
  | seek position next ih => exact ih _
  | advance step next ih =>
    rw [run]
    split
    · exact ih _
    · exact .nil
  | note records next ih => exact ih _

theorem Procedure.exchanges_bind [Source σ] (p : Procedure α) (next : α → Procedure β)
    (cursor : Cursor σ) :
    ((p >>= next).run cursor).exchanges = (p.run cursor).exchanges ++
      match (p.run cursor).outcome with
      | .ok a => ((next a).run (p.run cursor).cursor).exchanges
      | .error _ => [] := by
  rw [bind_def, run_bind, followedBy]
  cases (p.run cursor).outcome with
  | error e => exact (List.append_nil _).symm
  | ok a => rfl

/-- What begins with the request for the size asks for it first. -/
theorem Procedure.exchanges_sourceSize_bind [Source σ] (next : Nat → Procedure β)
    (cursor : Cursor σ) :
    ∃ rest, ((sourceSize >>= next).run cursor).exchanges =
      .size (Source.size cursor.source).1 :: rest := by
  show ∃ rest, (run (.size next) cursor).exchanges = _
  rw [run]
  generalize Source.size cursor.source = found
  obtain ⟨answer, source⟩ := found
  cases answer with
  | error e => exact ⟨[], rfl⟩
  | ok n => exact ⟨_, rfl⟩

/-! ## Sources that tell the truth -/

/-- What the sources of a class answer, if they answer, is true of the image, and they stay in the
class. An empty range is not asked for. -/
structure Source.Truthful [Source σ] (image : SizedImage) (members : σ → Prop) : Prop where
  size : ∀ {source}, members source →
    (∀ {n}, (Source.size source).1 = .ok n → n = image.size) ∧ members (Source.size source).2
  readAt : ∀ {source} (offset : Nat) {count : Nat}, members source → 0 < count →
    (∀ {bytes}, (Source.readAt source offset count).1 = .ok bytes →
      (Source.readAt image offset count).1 = .ok bytes) ∧
      members (Source.readAt source offset count).2

theorem Source.truthful_bytes (image : Bytes) :
    Source.Truthful (.ofBytes image) (· = image) := by
  constructor
  · rintro source rfl
    exact ⟨fun h => (Except.ok.inj h).symm, rfl⟩
  · rintro source offset count rfl -
    refine ⟨id, ?_⟩
    rw [Source.readAt_bytes]
    split <;> rfl

/-- The requests of a run over a truthful source are the first ones of the run over the image, and a
result is that of the run over the image. -/
theorem Procedure.run_truthful [Source σ] {image : SizedImage} {members : σ → Prop}
    (h : Source.Truthful image members) (p : Procedure α) (hReads : p.ReadsNonempty) {source : σ}
    (hSource : members source) (position : Nat) :
    (p.run ⟨source, position⟩).requests <+: (p.run ⟨image, position⟩).requests ∧
      members (p.run ⟨source, position⟩).cursor.source ∧
      ∀ a, (p.run ⟨source, position⟩).outcome = .ok a →
        (p.run ⟨image, position⟩).outcome = .ok a := by
  -- On the requests. A call that answers does so truly, so the rest of the run goes on from the
  -- same place over both; a call that fails ends the first run.
  induction p generalizing source position with
  | done outcome => exact ⟨List.prefix_rfl, hSource, fun _ => id⟩
  | size next ih =>
    obtain ⟨hTrue, hMember⟩ := h.size hSource
    have hMemory : Source.size image = (.ok image.size, image) := rfl
    rw [run, run, hMemory]
    generalize Source.size source = found at hTrue hMember ⊢
    obtain ⟨answer, after⟩ := found
    cases answer with
    | error e =>
      refine ⟨List.prefix_append [Request.size] _, hMember, fun a hAnswer => ?_⟩
      cases hAnswer
    | ok n =>
      obtain rfl := hTrue rfl
      obtain ⟨hRequests, hAfter, hOutcome⟩ := ih _ (hReads _) hMember position
      exact ⟨List.prefix_cons_inj _ |>.2 hRequests, hAfter, hOutcome⟩
  | read count next ih =>
    obtain ⟨hCount, hNext⟩ := hReads
    obtain ⟨hTrue, hMember⟩ := h.readAt position hSource hCount
    have hMemory : (Source.readAt image position count).2 = image := rfl
    rw [run, run]
    generalize Source.readAt source position count = found at hTrue hMember ⊢
    generalize Source.readAt image position count = range at hTrue hMemory ⊢
    obtain ⟨answer, after⟩ := found
    obtain ⟨answer', image'⟩ := range
    obtain rfl : image' = image := hMemory
    cases answer with
    | error e =>
      refine ⟨?_, hMember, fun a hAnswer => ?_⟩
      · cases answer' with
        | error e' => exact List.prefix_rfl
        | ok bytes => exact List.prefix_append [Request.read position count] _
      · cases hAnswer
    | ok bytes =>
      obtain rfl : answer' = .ok bytes := hTrue rfl
      obtain ⟨hRequests, hAfter, hOutcome⟩ := ih bytes (hNext bytes) hMember position
      exact ⟨List.prefix_cons_inj _ |>.2 hRequests, hAfter, hOutcome⟩
  | seek target next ih => exact ih hReads hSource target
  | advance step next ih =>
    rw [run, run]
    unfold Cursor.advance?
    by_cases hSpace : position + step < addressSpace
    · rw [if_pos hSpace, if_pos hSpace]
      exact ih hReads hSource (position + step)
    · rw [if_neg hSpace, if_neg hSpace]
      exact ⟨List.prefix_rfl, hSource, fun _ => id⟩
  | note records next ih => exact ih hReads hSource position

/-! ## Consecutive reads -/

/-- Reads of one byte at least, the first at `start`, each next one where the one before ended, and
the last one up to `stop`. -/
inductive Consecutive : (start : Nat) → List Request → (stop : Nat) → Prop
  | done {start : Nat} : Consecutive start [] start
  | next {start count stop : Nat} {rest : List Request} (hCount : 0 < count)
    (hRest : Consecutive (start + count) rest stop) :
    Consecutive start (.read start count :: rest) stop

namespace Consecutive

variable {start middle stop : Nat} {first rest requests : List Request}

theorem single (h : start < stop) : Consecutive start [.read start (stop - start)] stop := by
  obtain ⟨count, rfl⟩ := Nat.exists_eq_add_of_le (Nat.le_of_lt h)
  rw [Nat.add_sub_cancel_left]
  exact .next (by omega) .done

theorem append (h : Consecutive start first middle) (h' : Consecutive middle rest stop) :
    Consecutive start (first ++ rest) stop := by
  induction h with
  | done => exact h'
  | next hCount _ ih => exact .next hCount (ih h')

theorem start_le (h : Consecutive start requests stop) : start ≤ stop := by
  induction h with
  | done => exact Nat.le_refl _
  | next _ _ ih => exact Nat.le_trans (Nat.le_add_right _ _) ih

theorem end_le {offset count : Nat} (h : Consecutive start requests stop)
    (hRead : .read offset count ∈ requests) : offset + count ≤ stop := by
  induction h with
  | done => cases hRead
  | next _ hRest ih =>
    rcases List.mem_cons.1 hRead with hFirst | hLater
    · cases hFirst
      exact hRest.start_le
    · exact ih hLater

/-- The first of some consecutive reads are consecutive, and end no later. -/
theorem of_start (h : Consecutive start requests stop) (hFirst : first <+: requests) :
    ∃ reached ≤ stop, Consecutive start first reached := by
  induction h generalizing first with
  | done =>
    obtain rfl := List.prefix_nil.1 hFirst
    exact ⟨_, Nat.le_refl _, .done⟩
  | next hCount hRest ih =>
    cases first with
    | nil => exact ⟨_, Nat.le_trans (Nat.le_add_right _ _) hRest.start_le, .done⟩
    | cons request more =>
      obtain ⟨rfl, hMore⟩ := List.cons_prefix_cons.1 hFirst
      obtain ⟨reached, hReached, hConsecutive⟩ := ih hMore
      exact ⟨reached, hReached, .next hCount hConsecutive⟩

end Consecutive

namespace Procedure

variable {image : SizedImage} {filled most bound : Nat} {post : α → Nat → Prop}

/-- Over the image, the procedure makes consecutive reads from `filled` on, as many as `most` and
not beyond the reported size and the bound, and then `post` holds of a result and the end of the
reads. -/
def Fills (p : Procedure α) (image : SizedImage) (filled most bound : Nat)
    (post : α → Nat → Prop) : Prop :=
  ∀ position, ∃ reached, Consecutive filled (p.run ⟨image, position⟩).requests reached ∧
    (p.run ⟨image, position⟩).requests.length ≤ most ∧
    reached ≤ max filled (min image.size bound) ∧
    ∀ a, (p.run ⟨image, position⟩).outcome = .ok a → post a reached

theorem Fills.imp {p : Procedure α} {post' : α → Nat → Prop}
    (h : p.Fills image filled most bound post)
    (hPost : ∀ a reached, post a reached → post' a reached) :
    p.Fills image filled most bound post' := by
  intro position
  obtain ⟨reached, hConsecutive, hMost, hReached, hResult⟩ := h position
  exact ⟨reached, hConsecutive, hMost, hReached, fun a h => hPost a reached (hResult a h)⟩

theorem Fills.mono {p : Procedure α} {most' : Nat} (h : p.Fills image filled most bound post)
    (hMost : most ≤ most') : p.Fills image filled most' bound post := by
  intro position
  obtain ⟨reached, hConsecutive, hLength, hReached, hResult⟩ := h position
  exact ⟨reached, hConsecutive, Nat.le_trans hLength hMost, hReached, hResult⟩

theorem fills_done {x : Except Error α} (h : ∀ a, x = .ok a → post a filled) :
    (done x).Fills image filled 0 bound post :=
  fun _ => ⟨filled, .done, Nat.le_refl _, Nat.le_max_left _ _, h⟩

theorem fills_lift (x : Except Error α) :
    (liftM x : Procedure α).Fills image filled 0 bound fun a reached =>
      reached = filled ∧ x = .ok a :=
  fills_done fun _ h => ⟨rfl, h⟩

theorem fills_log (records : List Record) :
    (log records).Fills image filled 0 bound fun _ reached => reached = filled :=
  fun _ => ⟨filled, .done, Nat.le_refl _, Nat.le_max_left _ _, fun _ _ => rfl⟩

theorem fills_fail (e : Error) : (fail e : Procedure α).Fills image filled most bound post := by
  refine fun _ => ⟨filled, .done, Nat.zero_le _, Nat.le_max_left _ _, fun a h => ?_⟩
  cases h

theorem fills_bind {p : Procedure α} {next : α → Procedure β} {post' : β → Nat → Prop}
    (most more : Nat) (hFirst : p.Fills image filled most bound post)
    (hNext : ∀ a reached, post a reached → (next a).Fills image reached more bound post') :
    (p >>= next).Fills image filled (most + more) bound post' := by
  intro position
  obtain ⟨reached, hConsecutive, hMost, hReached, hPost⟩ := hFirst position
  have hSource := source_run p ⟨image, position⟩
  unfold Run.requests at hConsecutive hMost ⊢
  rw [exchanges_bind, List.map_append]
  rw [bind_def, run_bind, followedBy]
  cases hOutcome : (p.run ⟨image, position⟩).outcome with
  | error e =>
    rw [List.map_nil, List.append_nil]
    refine ⟨reached, hConsecutive, by omega, hReached, fun b h => ?_⟩
    cases h
  | ok a =>
    cases hCursor : (p.run ⟨image, position⟩).cursor with
    | mk source position' =>
      rw [hCursor] at hSource
      obtain rfl : source = image := hSource
      obtain ⟨stop, hConsecutive', hMore, hStop, hPost'⟩ :=
        hNext a reached (hPost a hOutcome) position'
      refine ⟨stop, hConsecutive.append hConsecutive', ?_, ?_, hPost'⟩
      · rw [List.length_append]
        exact Nat.add_le_add hMost hMore
      · omega

/-- A stage that first refuses some images. -/
theorem fills_guard {P : Prop} [Decidable P] {p : Procedure α} {e : Error}
    (h : ¬ P → p.Fills image filled most bound post) :
    (if P then fail e else p).Fills image filled most bound post := by
  by_cases hP : P
  · rw [if_pos hP]
    exact fills_fail e
  · rw [if_neg hP]
    exact h hP

end Procedure

/-! ## Fields in turn -/

/-- Reads of fields of these widths, which stand behind each other from a position on. They go on
until one fails. -/
inductive InTurn : (position : Nat) → (widths : List Nat) → List Exchange → Prop
  | done {position : Nat} : InTurn position [] []
  | missing {position width : Nat} {widths : List Nat} {e : Error} :
    InTurn position (width :: widths) [.read position width (.error e)]
  | next {position width : Nat} {widths : List Nat} {field : Bytes} {rest : List Exchange}
    (hRest : InTurn (position + width) widths rest) :
    InTurn position (width :: widths) (.read position width (.ok field) :: rest)

theorem Procedure.inTurn_value [Source σ] [FixedWidth α] {next : α → Procedure β} {position : Nat}
    {widths : List Nat} (hSpace : position + FixedWidth.width α < addressSpace)
    (hNext : ∀ (a : α) (source : σ), InTurn (position + FixedWidth.width α) widths
      ((next a).run ⟨source, position + FixedWidth.width α⟩).exchanges) (source : σ) :
    InTurn position (FixedWidth.width α :: widths)
      ((value α >>= next).run ⟨source, position⟩).exchanges := by
  show InTurn _ _ (run (.read (FixedWidth.width α) fun field =>
    .advance (FixedWidth.width α) (next (FixedWidth.decode field))) ⟨source, position⟩).exchanges
  rw [run]
  generalize Source.readAt source position (FixedWidth.width α) = found
  obtain ⟨answer, after⟩ := found
  cases answer with
  | error e => exact .missing
  | ok field =>
    dsimp only
    rw [run, Cursor.advance?, if_pos hSpace]
    exact .next (hNext _ after)

end ManagedImage
