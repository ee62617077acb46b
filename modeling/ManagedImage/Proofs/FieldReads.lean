import Mathlib.Algebra.GroupWithZero.Nat
import Mathlib.Order.Bounds.Defs
import ManagedImage.Proofs.Walks

/-!
# Fields behind each other

A record is read off a source field by field. Each field that is there moves the position behind
it; the first one that runs past the end of the image is the end of the read, and the position stays
at its start.

* `fieldStarts` are the starts of fields behind each other, and `fieldStop` is where a reader of
  them comes to a halt: `isGreatest_fieldStop` says that it is the last start up to which all is
  there.
* `Procedure.ReadsFields`: a procedure reads fields of certain widths, over whatever source hands
  out the ranges of the image. It is built up field by field (`Procedure.ReadsFields.value_bind`).
* `RuntimeHeader.read_decodes`: the six fields of a runtime header are read exactly where the image
  holds the 20 bytes that write it.
-/

namespace ManagedImage

open FixedWidth (width valueAt)

/-! ## Sources of ranges -/

/-- The sources of a class hand out the ranges of an image as memory does, and stay in the class.
What they say about their size does not matter. -/
def Source.HandsOut {σ : Type} [Source σ] (image : Bytes) (members : σ → Prop) : Prop :=
  ∀ {source} (offset : Nat) {count : Nat}, members source → 0 < count →
    (Source.readAt source offset count).1 = (Source.readAt image offset count).1 ∧
      members (Source.readAt source offset count).2

theorem Source.Serves.handsOut {σ : Type} [Source σ] {image : Bytes} {members : σ → Prop}
    (h : Source.Serves image members) : Source.HandsOut image members := h.readAt

theorem Stream.handsOut (image : Bytes) :
    Source.HandsOut image fun stream : Stream => stream.image = image ∧ stream.script.Steady := by
  rintro stream offset count ⟨rfl, hSteady⟩ hCount
  obtain ⟨calls, hLeads, hSettled⟩ :=
    @Stream.settled_readAt stream hSteady.cooperative offset count hCount
  refine ⟨hSettled.of_no_failure (hLeads.no_failure hSteady.not_schedules), ?_⟩
  exact ⟨hLeads.image, hLeads.script ▸ hSteady⟩

/-! ## Where a reader of fields stops -/

/-- The starts of fields of these widths behind each other, counted from the start of the first. -/
def fieldStarts : List Nat → List Nat
  | [] => []
  | w :: rest => 0 :: (fieldStarts rest).map (w + ·)

/-- Where a reader of fields of these widths stops: behind the last field or, in data of `size`
bytes that end before it does, at the first field that does not fit. -/
def fieldStop (size : Nat) : (position : Nat) → (widths : List Nat) → Nat
  | position, [] => position
  | position, w :: rest =>
    if position + w ≤ size then fieldStop size (position + w) rest else position

theorem fieldStop_of_le {size position : Nat} {widths : List Nat}
    (h : position + widths.sum ≤ size) :
    fieldStop size position widths = position + widths.sum := by
  induction widths generalizing position with
  | nil => rfl
  | cons w rest ih =>
    rw [List.sum_cons, ← Nat.add_assoc] at h ⊢
    rw [fieldStop, if_pos (by omega), ih h]

/-- In data that are too short, a reader stops at the last start up to which all is there. -/
theorem isGreatest_fieldStop {size position : Nat} {widths : List Nat}
    (h : size < position + widths.sum) (hPosition : position ≤ size ∨ widths ≠ []) :
    ∃ start, fieldStop size position widths = position + start ∧
      IsGreatest {start | start ∈ fieldStarts widths ∧ (start = 0 ∨ position + start ≤ size)}
        start := by
  induction widths generalizing position with
  | nil =>
    rcases hPosition with hLe | hNonempty
    · exact absurd h (Nat.not_lt.2 hLe)
    · exact absurd rfl hNonempty
  | cons w rest ih =>
    rw [List.sum_cons, ← Nat.add_assoc] at h
    by_cases hFits : position + w ≤ size
    · obtain ⟨start, hStop, ⟨hStart, hBefore⟩, hLast⟩ := ih h (.inl hFits)
      refine ⟨w + start, ?_, ⟨List.mem_cons_of_mem _ (List.mem_map_of_mem hStart), ?_⟩, ?_⟩
      · rw [fieldStop, if_pos hFits, hStop, Nat.add_assoc]
      · exact .inr (by omega)
      · rintro other ⟨hOther, hThere⟩
        rcases List.mem_cons.1 hOther with rfl | hRest
        · exact Nat.zero_le _
        · obtain ⟨next, hNext, rfl⟩ := List.mem_map.1 hRest
          exact Nat.add_le_add_left (hLast ⟨hNext, by omega⟩) w
    · refine ⟨0, ?_, ⟨List.mem_cons_self, .inl rfl⟩, ?_⟩
      · rw [fieldStop, if_neg hFits, Nat.add_zero]
      · rintro other ⟨hOther, hThere⟩
        rcases List.mem_cons.1 hOther with rfl | hRest
        · exact Nat.le_refl 0
        · obtain ⟨next, -, rfl⟩ := List.mem_map.1 hRest
          omega

/-! ## Procedures that read fields -/

namespace Procedure

variable {α β : Type} {image : Bytes}

/-- Over every source that hands out the ranges of the image, the procedure reads fields of these
widths from its position on, and `found` tells what it makes of those that start at a position. No
fields at all are there up to the end of the image only. -/
def ReadsFields (p : Procedure α) (image : Bytes) (widths : List Nat) (found : Nat → α) : Prop :=
  ∀ (σ : Type) [Source σ] (members : σ → Prop), Source.HandsOut image members →
    ∀ source : σ, members source → ∀ position, position ≤ image.length ∨ widths ≠ [] →
      (p.run ⟨source, position⟩).outcome =
          (if position + widths.sum ≤ image.length then .ok (found position)
            else .error .outOfBounds) ∧
        (p.run ⟨source, position⟩).cursor.position = fieldStop image.length position widths ∧
        members (p.run ⟨source, position⟩).cursor.source

/-- One field: the source is asked once, and the position moves only if it answers. -/
theorem readsFields_value [FixedWidth α] (hSize : image.length < addressSpace)
    (hWidth : 0 < width α) : (value α).ReadsFields image [width α] (valueAt α image) := by
  intro σ _ members hHands source hSource position _
  obtain ⟨hAnswer, hMember⟩ := hHands position hSource hWidth
  rw [Source.readAt_bytes] at hAnswer
  unfold value take
  rw [List.sum_singleton, fieldStop, fieldStop]
  simp only [bind_def, bind, run]
  generalize Source.readAt source position (width α) = asked at hAnswer hMember ⊢
  obtain ⟨answer, after⟩ := asked
  dsimp only at hAnswer hMember ⊢
  by_cases hFits : position + width α ≤ image.length
  · have hSpace : position + width α < addressSpace := Nat.lt_of_le_of_lt hFits hSize
    rw [if_pos hFits] at hAnswer
    subst hAnswer
    simp only [hFits, if_true, pure_def, bind, run, Cursor.advance?, hSpace]
    exact ⟨rfl, rfl, hMember⟩
  · rw [if_neg hFits] at hAnswer
    subst hAnswer
    simp only [hFits, if_false]
    exact ⟨trivial, trivial, hMember⟩

theorem ReadsFields.pure (a : α) : (pure a : Procedure α).ReadsFields image [] fun _ => a := by
  intro σ _ members hHands source hSource position hPosition
  have hLe : position ≤ image.length := hPosition.resolve_right fun h => h rfl
  exact ⟨(if_pos hLe).symm, rfl, hSource⟩

/-- A field, and then what the rest makes of its value. -/
theorem ReadsFields.value_bind [FixedWidth α] (hSize : image.length < addressSpace)
    (hWidth : 0 < width α) {next : α → Procedure β} {widths : List Nat} {found : α → Nat → β}
    (hNext : ∀ a, (next a).ReadsFields image widths (found a)) :
    (value α >>= next).ReadsFields image (width α :: widths) fun position =>
      found (valueAt α image position) (position + width α) := by
  intro σ _ members hHands source hSource position _
  obtain ⟨hOutcome, hPosition, hMember⟩ :=
    readsFields_value hSize hWidth σ members hHands source hSource position
      (.inr (List.cons_ne_nil _ _))
  rw [List.sum_singleton] at hOutcome
  rw [fieldStop, fieldStop] at hPosition
  rw [bind_def, run_bind, followedBy, List.sum_cons, ← Nat.add_assoc, fieldStop]
  generalize (value α).run ⟨source, position⟩ = first at hOutcome hPosition hMember ⊢
  obtain ⟨outcome, ⟨source', position'⟩, records, exchanges⟩ := first
  dsimp only at hOutcome hPosition hMember ⊢
  subst hOutcome hPosition
  by_cases hFits : position + width α ≤ image.length
  · simp only [hFits, if_true]
    exact hNext (valueAt α image position) σ members hHands source' hMember _ (.inl hFits)
  · have hRest : ¬ position + width α + widths.sum ≤ image.length := by omega
    simp only [hFits, hRest, if_false]
    exact ⟨trivial, trivial, hMember⟩

end Procedure

/-! ## The fields of the runtime header -/

namespace RuntimeHeader

variable {image : Bytes} {position last : Nat} {outcome : Except Error RuntimeHeader}

/-- The bytes of a header, field by field, each with its least significant byte first. All bits of
the flags are among them, whether they have a meaning or not. -/
def written (header : RuntimeHeader) : Bytes :=
  leBytes 4 header.size.toNat ++ leBytes 2 header.version.major.toNat ++
    leBytes 2 header.version.minor.toNat ++ leBytes 4 header.metadata.rva.toNat ++
    leBytes 4 header.metadata.size.toNat ++ leBytes 4 header.flags.bits.toNat

theorem encode_eq_written (header : RuntimeHeader) : FixedWidth.encode header = header.written := by
  unfold written
  simp only [List.append_assoc]
  rfl

theorem length_written (header : RuntimeHeader) : header.written.length = 20 := by
  rw [← encode_eq_written, FixedWidth.length_encode, width_eq]

theorem readsFields_read (hSize : image.length < addressSpace) :
    read.ReadsFields image [4, 2, 2, 4, 4, 4] (valueAt RuntimeHeader image) := by
  have hFound : valueAt RuntimeHeader image = fun position =>
      ⟨valueAt UInt32 image position,
        ⟨valueAt UInt16 image (position + 4), valueAt UInt16 image (position + 4 + 2)⟩,
        ⟨valueAt UInt32 image (position + 4 + 2 + 2),
          valueAt UInt32 image (position + 4 + 2 + 2 + 4)⟩,
        ⟨valueAt UInt32 image (position + 4 + 2 + 2 + 4 + 4)⟩⟩ := by
    funext position
    rw [RuntimeHeader.valueAt_eq, DataDirectory.valueAt_eq]
  have hShort : 0 < width UInt16 := by decide
  have hWord : 0 < width UInt32 := by decide
  rw [hFound]
  exact
    .value_bind hSize hWord fun size =>
    .value_bind hSize hShort fun major =>
    .value_bind hSize hShort fun minor =>
    .value_bind hSize hWord fun metadataRva =>
    .value_bind hSize hWord fun metadataSize =>
    .value_bind hSize hWord fun flags =>
    .pure (⟨size, ⟨major, minor⟩, ⟨metadataRva, metadataSize⟩, ⟨flags⟩⟩ : RuntimeHeader)

/-- What reading a header at a position has to come to, and where it has to leave the position. -/
structure Decoded (image : Bytes) (position : Nat) (outcome : Except Error RuntimeHeader)
    (last : Nat) : Prop where
  /-- A header is read exactly where the bytes stand that write it. -/
  ok_iff : ∀ {header}, outcome = .ok header ↔ image.slice? position 20 = some header.written
  /-- A header that is written somewhere in the image is read there. -/
  round_trip : ∀ {header before after}, image = before ++ header.written ++ after →
    position = before.length → outcome = .ok header
  /-- Where there are 20 bytes there is a header, and the position moves behind it. -/
  complete : position + 20 ≤ image.length →
    (∃ header, outcome = .ok header) ∧ last = position + 20
  /-- Elsewhere the position is left at the last start of a field up to which all is there. -/
  truncated : image.length < position + 20 → outcome = .error .outOfBounds ∧
    ∃ start, last = position + start ∧
      IsGreatest {start | start ∈ [0, 4, 6, 8, 12, 16] ∧
        (start = 0 ∨ position + start ≤ image.length)} start

theorem decoded_of_fields
    (hOutcome : outcome = if position + 20 ≤ image.length then
      .ok (valueAt RuntimeHeader image position) else .error .outOfBounds)
    (hLast : last = fieldStop image.length position [4, 2, 2, 4, 4, 4]) :
    Decoded image position outcome last := by
  have hIff : ∀ {header}, outcome = .ok header ↔
      image.slice? position 20 = some header.written := by
    intro header
    have hRead : outcome = FixedWidth.read image position := by
      rw [hOutcome, FixedWidth.read_eq, width_eq]
    rw [hRead, FixedWidth.read_eq_ok_iff, width_eq, encode_eq_written]
  refine ⟨hIff, ?_, fun hFits => ?_, fun hShort => ?_⟩
  · rintro header before after rfl rfl
    rw [hIff, Bytes.slice?_eq_some_iff, List.append_assoc, List.drop_left]
    refine ⟨?_, List.take_left' header.length_written⟩
    rw [List.length_append, List.length_append, length_written]
    omega
  · rw [if_pos hFits] at hOutcome
    exact ⟨⟨_, hOutcome⟩, hLast.trans (fieldStop_of_le hFits)⟩
  · rw [if_neg (Nat.not_le.2 hShort)] at hOutcome
    obtain ⟨start, hStop, hGreatest⟩ :=
      @isGreatest_fieldStop image.length position [4, 2, 2, 4, 4, 4] hShort (.inr (by decide))
    exact ⟨hOutcome, start, hLast.trans hStop, hGreatest⟩

/-- At whatever position, a runtime header is read exactly where the 20 bytes that write it stand,
and a read that fails stops at the first field that runs past the end. This holds in memory and over
every stream without failures, be its reads short or interrupted. The sizes of images are 64-bit
numbers. -/
theorem read_decodes (hSize : image.length < addressSpace) (position : Nat) :
    Decoded image position (read.run ⟨image, position⟩).outcome
        (read.run ⟨image, position⟩).cursor.position ∧
      ∀ stream : Stream, stream.image = image → stream.script.Steady →
        Decoded image position (read.run ⟨stream, position⟩).outcome
          (read.run ⟨stream, position⟩).cursor.position := by
  have hFields := readsFields_read hSize
  constructor
  · obtain ⟨hOutcome, hPosition, -⟩ :=
      hFields Bytes _ (Walk.serves_bytes image).handsOut image rfl position (.inr (by decide))
    exact decoded_of_fields hOutcome hPosition
  · intro stream hImage hSteady
    obtain ⟨hOutcome, hPosition, -⟩ :=
      hFields Stream _ (Stream.handsOut image) stream ⟨hImage, hSteady⟩ position (.inr (by decide))
    exact decoded_of_fields hOutcome hPosition

/-! ### A header in the middle of 24 bytes -/

/-- A header with all bits of the flags set, most of which have no meaning. -/
def flagged : RuntimeHeader := ⟨72, ⟨2, 5⟩, ⟨0x2050, 0x1F4⟩, ⟨0xFFFFFFFF⟩⟩

/-- Three bytes, the header, and one byte more. -/
@[irreducible] def flaggedImage : Bytes := [1, 2, 3] ++ flagged.written ++ [9]

theorem length_flaggedImage : flaggedImage.length = 24 := by
  unfold flaggedImage
  rfl

/-- The header is read at its place. From 13 on there is room for the first three fields, and behind
the end for none. -/
theorem read_decodes_flagged :
    flaggedImage.length < addressSpace ∧ Script.Steady Walk.halting ∧
      (read.run ⟨Stream.fresh flaggedImage Walk.halting 9, 3⟩).outcome = .ok flagged ∧
      (read.run ⟨Stream.fresh flaggedImage Walk.halting 9, 3⟩).cursor.position = 23 ∧
      (read.run ⟨flaggedImage, 13⟩).outcome = .error .outOfBounds ∧
      (read.run ⟨flaggedImage, 13⟩).cursor.position = 21 ∧
      (read.run ⟨flaggedImage, 0xFFFFFFFFFFFFFFFF⟩).cursor.position = 0xFFFFFFFFFFFFFFFF := by
  have hLength := length_flaggedImage
  have hSize : flaggedImage.length < addressSpace := by
    rw [hLength]
    decide
  have hWritten : flaggedImage = [1, 2, 3] ++ flagged.written ++ [9] := by unfold flaggedImage; rfl
  have hStream :=
    (read_decodes hSize 3).2 (.fresh flaggedImage Walk.halting 9) rfl Walk.steady_halting
  obtain ⟨hShort, start, hLast, ⟨hStart, hThere⟩, hMost⟩ :=
    (read_decodes hSize 13).1.truncated (by omega)
  obtain ⟨-, start', hLast', ⟨-, hThere'⟩, -⟩ :=
    (read_decodes hSize 0xFFFFFFFFFFFFFFFF).1.truncated (by omega)
  have hThree : 8 ≤ start := hMost ⟨by decide, .inr (by omega)⟩
  refine ⟨hSize, Walk.steady_halting, hStream.round_trip hWritten rfl,
    (hStream.complete (by omega)).2, hShort, ?_, ?_⟩
  · simp only [List.mem_cons, List.not_mem_nil, or_false] at hStart
    omega
  · omega

end RuntimeHeader

end ManagedImage
