import ManagedImage.Proofs.SummaryRequests
import ManagedImage.Proofs.Tolerance

/-!
# An offset that is assumed

Where no header offset is written down the usual one can be assumed. It is then put into the copy of
the headers, while the runtime header is still read from the image as it is. This module compares an
image without an offset with the same image in which the usual offset is written down.

* `Procedure.run_of_agreeOn`: a run cannot tell images apart that agree on all that it asks for, by
  induction on its requests.
* `Headers.decodeDos_assumed`: once the first 64 bytes are in the buffer, the read of the one image
  goes on as that of the other does, behind one more log record.
* `Headers.run_readDos_bind_assumed`: so whatever follows ends alike, if it asks for none of the four
  bytes of the offset.
* `Summary.assumed_eq_written`: the headers of the two images are the same, and so are their
  summaries and log records unless the runtime header lies over the offset. Where the usual offset
  is not assumed, an image without one has no summary.
-/

namespace ManagedImage

open FixedWidth (valueAt)
open Layout

variable {α : Type} {options : Options} {image image' : Bytes}

/-! ## Runs over two images -/

/-- A run over another image of the same length that holds the same bytes wherever the run reads. -/
theorem Procedure.run_of_agreeOn (p : Procedure α) (hLength : image'.length = image.length)
    (position : Nat) (h : ∀ offset count, .read offset count ∈ (p.run ⟨image, position⟩).requests →
      image'.AgreeOn image offset (offset + count)) :
    (p.run ⟨image', position⟩).outcome = (p.run ⟨image, position⟩).outcome ∧
      (p.run ⟨image', position⟩).records = (p.run ⟨image, position⟩).records := by
  -- Equal answers lead both runs to the same next request, so the claim for the rest applies.
  induction p generalizing position with
  | done outcome => exact ⟨rfl, rfl⟩
  | size next ih =>
    rw [run, run, Source.size_bytes, Source.size_bytes, hLength]
    exact ih _ position fun offset count hRead => h offset count (List.mem_cons_of_mem _ hRead)
  | read count next ih =>
    rw [run, Source.readAt_bytes] at h
    rw [run, run, Source.readAt_bytes, Source.readAt_bytes, hLength]
    by_cases hFits : position + count ≤ image.length
    · rw [if_pos hFits] at h
      rw [if_pos hFits, if_pos hFits, (h position count List.mem_cons_self).slice_eq]
      exact ih _ position fun offset count hRead => h offset count (List.mem_cons_of_mem _ hRead)
    · rw [if_neg hFits, if_neg hFits]
      exact ⟨rfl, rfl⟩
  | seek target next ih => exact ih target h
  | advance step next ih =>
    rw [run, Cursor.advance?] at h
    rw [run, run, Cursor.advance?, Cursor.advance?]
    by_cases hSpace : position + step < addressSpace
    · rw [if_pos hSpace] at h
      rw [if_pos hSpace, if_pos hSpace]
      exact ih _ h
    · rw [if_neg hSpace, if_neg hSpace]
      exact ⟨rfl, rfl⟩
  | note records next ih =>
    obtain ⟨hOutcome, hRecords⟩ := ih position h
    exact ⟨hOutcome, congrArg (records ++ ·) hRecords⟩

theorem Consecutive.start_le_of_mem {start stop offset count : Nat} {requests : List Request}
    (h : Consecutive start requests stop) (hRead : .read offset count ∈ requests) :
    start ≤ offset := by
  induction h with
  | done => cases hRead
  | next _ _ ih =>
    rcases List.mem_cons.1 hRead with hFirst | hLater
    · cases hFirst
      exact Nat.le_refl _
    · exact Nat.le_trans (Nat.le_add_right _ _) (ih hLater)

/-- Fields that are read in turn lie behind the first position, within the sum of their widths. -/
theorem InTurn.within {position offset count : Nat} {widths : List Nat} {exchanges : List Exchange}
    (h : InTurn position widths exchanges)
    (hRead : .read offset count ∈ exchanges.map Exchange.request) :
    position ≤ offset ∧ offset + count ≤ position + widths.foldr (· + ·) 0 := by
  induction h with
  | done => cases hRead
  | missing =>
    rcases List.mem_cons.1 hRead with hFirst | hNone
    · cases hFirst
      rw [List.foldr_cons]
      omega
    · cases hNone
  | next _ ih =>
    rw [List.foldr_cons]
    rcases List.mem_cons.1 hRead with hFirst | hLater
    · cases hFirst
      omega
    · have hRest := ih hLater
      omega

/-! ## Behind the DOS header -/

namespace Headers

theorem decodeDos_eq {bytes : Bytes} {dos : DosHeader} {limit : Nat}
    (hRead : FixedWidth.read bytes 0 = .ok dos) :
    decodeDos options ⟨bytes, limit⟩ =
      if dos.signature ≠ DosHeader.magic then
        Procedure.fail (.malformed (.dosSignature DosHeader.magic.toNat dos.signature.toNat))
      else if dos.peOffset = 0 ∧ options.zeroOffsetFallback then
        .note [.zeroOffset] (pure ({ dos with peOffset := DosHeader.usualPeOffset },
          ⟨bytes.overwrite DosHeader.peOffsetField (FixedWidth.encode DosHeader.usualPeOffset),
            limit⟩))
      else pure (dos, ⟨bytes, limit⟩) := by
  unfold decodeDos
  rw [hRead]
  rfl

/-- An image whose offset is written down takes the same way through the DOS header, without the
record of an offset that was assumed. -/
theorem decodeDos_assumed (hLength : 64 ≤ image.length) (hAssumes : AssumesOffset options image)
    (limit : Nat) :
    decodeDos options ⟨image.take 64, limit⟩ =
      if image.take 2 = [0x4D, 0x5A] then
        .note [.zeroOffset] (decodeDos options ⟨(assumed options image).take 64, limit⟩)
      else decodeDos options ⟨(assumed options image).take 64, limit⟩ := by
  have hRead : FixedWidth.read (image.take 64) 0 = .ok (valueAt DosHeader image 0) :=
    @read_dosHeader (.ofBytes image) (SizedImage.reaches_ofBytes.2 hLength)
  have hRead' : FixedWidth.read ((assumed options image).take 64) 0 =
      .ok (dosHeader options image) :=
    @read_dosHeader (.ofBytes (assumed options image))
      (SizedImage.reaches_ofBytes.2 (by rw [length_assumed]; exact hLength))
  have hStored : (valueAt DosHeader image 0).peOffset = 0 ∧ options.zeroOffsetFallback := by
    rw [DosHeader.peOffset_valueAt]
    exact hAssumes
  have hWritten : ¬ (DosHeader.usualPeOffset = 0 ∧ options.zeroOffsetFallback) :=
    fun h => absurd h.1 (by decide)
  have hMagic : (valueAt DosHeader image 0).signature = DosHeader.magic ↔
      image.take 2 = [0x4D, 0x5A] := by
    rw [DosHeader.signature_valueAt]
    exact dosMagic_iff hLength
  rw [dosHeader_eq hLength, if_pos hAssumes] at hRead'
  rw [decodeDos_eq hRead, decodeDos_eq hRead', if_pos hStored, if_neg hWritten]
  by_cases hIs : image.take 2 = [0x4D, 0x5A]
  · rw [if_neg (not_not_intro (hMagic.2 hIs)), if_neg (not_not_intro (hMagic.2 hIs)), if_pos hIs,
      Bytes.overwrite_take, assumed, if_pos hAssumes]
  · rw [if_pos fun h => hIs (hMagic.1 h), if_pos fun h => hIs (hMagic.1 h), if_neg hIs]

theorem run_decodeDos_bind_assumed (hLength : 64 ≤ image.length)
    (hAssumes : AssumesOffset options image) (limit : Nat)
    (next : DosHeader × HeaderBuffer → Procedure α) (cursor : Cursor Bytes) :
    (decodeDos options ⟨image.take 64, limit⟩ >>= next).run cursor =
      ((decodeDos options ⟨(assumed options image).take 64, limit⟩ >>= next).run cursor).behind
        (if image.take 2 = [0x4D, 0x5A] then [.zeroOffset] else []) [] := by
  rw [decodeDos_assumed hLength hAssumes]
  by_cases hMagic : image.take 2 = [0x4D, 0x5A]
  · rw [if_pos hMagic, if_pos hMagic]
    rfl
  · rw [if_neg hMagic, if_neg hMagic]
    rfl

/-- The size and the first 64 bytes are asked for first. -/
theorem run_readDos_bind (hLength : 64 ≤ image.length)
    (next : DosHeader × HeaderBuffer → Procedure α) (position : Nat) :
    (readDos options >>= next).run (⟨image, position⟩ : Cursor Bytes) =
      ((decodeDos options ⟨image.take 64, image.length⟩ >>= next).run ⟨image, 64⟩).behind []
        [.size (.ok image.length), .read 0 64 (.ok (image.take 64))] := by
  have hLimit : ¬ image.length < 64 := Nat.not_lt.2 hLength
  have hFill : fillDos image.length = .seek 0 (.read 64 fun more =>
      .advance 64 (.done (.ok ⟨more, image.length⟩))) := if_neg hLimit
  show Run.behind ((((fillDos image.length >>= decodeDos options) >>= next)).run
    (⟨image, position⟩ : Cursor Bytes)) _ _ = _
  rw [hFill]
  show Run.behind (Procedure.run (.read 64 fun more => .advance 64
    (decodeDos options ⟨more, image.length⟩ >>= next)) ⟨image, 0⟩) _ _ = _
  rw [Procedure.run, Source.readAt_bytes, Nat.zero_add, if_pos hLength]
  rfl

/-- Whatever follows the DOS header ends alike over both images, if it asks for none of the bytes in
which they differ. -/
theorem run_readDos_bind_assumed (hLength : 64 ≤ image.length)
    (hAssumes : AssumesOffset options image) (next : DosHeader × HeaderBuffer → Procedure α)
    (hReads : ∀ offset count, .read offset count ∈
      ((decodeDos options ⟨image.take 64, image.length⟩ >>= next).run
        (⟨image, 64⟩ : Cursor Bytes)).requests → offset + count ≤ 0x3C ∨ 0x40 ≤ offset)
    (position : Nat) :
    ((readDos options >>= next).run (⟨image, position⟩ : Cursor Bytes)).outcome =
        ((readDos options >>= next).run ⟨assumed options image, position⟩).outcome ∧
      ((readDos options >>= next).run (⟨image, position⟩ : Cursor Bytes)).records =
        (if image.take 2 = [0x4D, 0x5A] then [.zeroOffset] else []) ++
          ((readDos options >>= next).run ⟨assumed options image, position⟩).records := by
  have hLength' : 64 ≤ (assumed options image).length := by
    rw [length_assumed]
    exact hLength
  rw [run_decodeDos_bind_assumed hLength hAssumes] at hReads
  rw [run_readDos_bind hLength, run_readDos_bind hLength', length_assumed,
    run_decodeDos_bind_assumed hLength hAssumes]
  generalize decodeDos options ⟨(assumed options image).take 64, image.length⟩ >>= next = rest
    at hReads ⊢
  obtain ⟨hOutcome, hRecords⟩ := rest.run_of_agreeOn (@length_assumed options image) 64
    fun offset count hRead => agreeOn_assumed ((hReads offset count hRead).imp id .inl)
  refine ⟨hOutcome.symm, ?_⟩
  rw [Run.behind, Run.behind, Run.behind, hRecords]
  rfl

theorem read_eq_readDos_bind (options : Options) :
    ∃ next, read options = readDos options >>= next := by
  unfold read
  exact ⟨_, rfl⟩

/-- What the read of the headers asks for behind the DOS header lies behind the DOS header. -/
theorem reads_behindDos {next : DosHeader × HeaderBuffer → Procedure Headers}
    (hRead : read options = readDos options >>= next) (hLength : 64 ≤ image.length)
    {offset count : Nat} (hMem : .read offset count ∈
      ((decodeDos options ⟨image.take 64, image.length⟩ >>= next).run
        (⟨image, 64⟩ : Cursor Bytes)).requests) : 0x40 ≤ offset := by
  obtain ⟨answer, reads, reached, hExchanges, -, hConsecutive, -⟩ :=
    Summary.front_of_truthful (Source.truthful_bytes image) rfl 0 options
  rw [hRead, run_readDos_bind hLength, Run.behind, List.cons_append] at hExchanges
  obtain ⟨-, rfl⟩ := List.cons_eq_cons.1 hExchanges
  cases hConsecutive with
  | next _ hRest => exact hRest.start_le_of_mem hMem

end Headers

/-! ## The whole read -/

namespace Summary

/-- What the read of a summary asks for behind the DOS header lies behind it, or in the runtime
header. -/
theorem reads_behindDos {next : DosHeader × HeaderBuffer → Procedure Headers}
    (hRead : Headers.read options = Headers.readDos options >>= next) (hLength : 64 ≤ image.length)
    (position : Nat) {offset count : Nat} (hMem : .read offset count ∈
      ((Headers.decodeDos options ⟨image.take 64, image.length⟩ >>= fun found =>
        next found >>= readBehind options).run (⟨image, 64⟩ : Cursor Bytes)).requests) :
    0x40 ≤ offset ∨ ∃ runtime, FindsRuntime options (⟨image, position⟩ : Cursor Bytes) runtime ∧
      runtime ≤ offset ∧ offset + count ≤ runtime + 20 := by
  rw [← bind_assoc, Run.requests, Procedure.exchanges_bind, List.map_append,
    List.mem_append] at hMem
  rcases hMem with hFront | hBehind
  · exact .inl (Headers.reads_behindDos hRead hLength hFront)
  cases hOutcome : ((Headers.decodeDos options ⟨image.take 64, image.length⟩ >>= next).run
      (⟨image, 64⟩ : Cursor Bytes)).outcome with
  | error e =>
    rw [hOutcome] at hBehind
    cases hBehind
  | ok headers =>
    rw [hOutcome] at hBehind
    dsimp only at hBehind
    by_cases hLeads : ∃ runtime, LeadsTo headers runtime
    · obtain ⟨runtime, hLeads⟩ := hLeads
      refine .inr ⟨runtime, ⟨headers, ?_, hLeads⟩, (inTurn_readBehind hLeads _).within hBehind⟩
      rw [hRead, Headers.run_readDos_bind hLength]
      exact hOutcome
    · rw [exchanges_readBehind (fun runtime h => hLeads ⟨runtime, h⟩)] at hBehind
      cases hBehind

/-- With the usual offset assumed, an image without one is read as the image in which it is written
down: to the same headers always, and to the same summary with one more log record for debugging,
unless the runtime header shares a byte with the offset. Where the usual offset is not assumed,
nothing is read of such an image. -/
theorem assumed_eq_written (options : Options) {written : Bytes}
    (hLength : 64 ≤ image.length) (hZero : storedOffset image = 0)
    (hWritten : written = image.overwrite 0x3C [0x80, 0, 0, 0]) (position : Nat) :
    (options.zeroOffsetFallback = true →
      ((Headers.read options).run (⟨image, position⟩ : Cursor Bytes)).outcome =
          ((Headers.read options).run ⟨written, position⟩).outcome ∧
      (∀ headers, ((Headers.read options).run (⟨image, position⟩ : Cursor Bytes)).outcome =
        .ok headers → headers.dos.peOffset = 0x80) ∧
      ((∀ offset, FindsRuntime options (⟨image, position⟩ : Cursor Bytes) offset →
          offset + 20 ≤ 0x3C ∨ 0x40 ≤ offset) →
        ((read options).run (⟨image, position⟩ : Cursor Bytes)).outcome =
            ((read options).run ⟨written, position⟩).outcome ∧
        ((read options).run (⟨image, position⟩ : Cursor Bytes)).records =
          (if image.take 2 = [0x4D, 0x5A] then [.zeroOffset] else []) ++
            ((read options).run ⟨written, position⟩).records ∧
        Record.level .zeroOffset = .debug)) ∧
    (options.zeroOffsetFallback = false →
      (∀ headers, ((Headers.read options).run (⟨image, position⟩ : Cursor Bytes)).outcome ≠
        .ok headers) ∧
      (∀ summary, ((read options).run (⟨image, position⟩ : Cursor Bytes)).outcome ≠ .ok summary) ∧
      ((read options).run (⟨image, position⟩ : Cursor Bytes)).outcome ≠ .error .notManaged) := by
  obtain ⟨next, hNext⟩ := Headers.read_eq_readDos_bind options
  have hRead : read options =
      Headers.readDos options >>= fun found => next found >>= readBehind options := by
    rw [read_eq_bind, hNext, bind_assoc]
  constructor
  · intro hFallback
    have hAssumes : AssumesOffset options image := ⟨hZero, hFallback⟩
    obtain rfl : written = assumed options image := by
      rw [hWritten, assumed, if_pos hAssumes]
      rfl
    refine ⟨?headers, fun headers hOutcome => ?usual, fun hApart => ?summary⟩
    case headers =>
      rw [hNext]
      exact (Headers.run_readDos_bind_assumed hLength hAssumes next (fun _ _ hMem =>
        .inr (Headers.reads_behindDos hNext hLength hMem)) position).1
    case usual =>
      rw [Headers.outcome_run] at hOutcome
      obtain ⟨-, -, -, rfl⟩ := Headers.ofImage_eq_ok_iff.1 hOutcome
      show (dosHeader options image).peOffset = 0x80
      rw [dosHeader_eq hLength, if_pos hAssumes]
      rfl
    case summary =>
      rw [hRead, ← and_assoc]
      refine ⟨Headers.run_readDos_bind_assumed hLength hAssumes _ (fun offset count hMem => ?_)
        position, rfl⟩
      rcases reads_behindDos hNext hLength position hMem with
        hBehind | ⟨runtime, hFinds, hStart, hStop⟩
      · exact .inr hBehind
      · have hPlace := hApart runtime hFinds
        omega
  · intro hNone
    have hNot : ¬ WellFormed options image := fun hWell => hWell.offset_found ⟨hZero, hNone⟩
    rw [Headers.outcome_run, outcome_run]
    exact ⟨fun headers h => hNot (Headers.ofImage_eq_ok_iff.1 h).1,
      fun summary h => hNot (ofBytes_eq_ok_iff.1 h).1,
      fun h => hNot (ofBytes_eq_notManaged_iff.1 h).1⟩

/-! ### An image without an offset -/

/-- A managed image with its signature at the usual offset, which is not written down. -/
@[irreducible] def unplaced : Bytes :=
  .ofFields 428 [(0, [0x4D, 0x5A]), (0x80, [0x50, 0x45, 0, 0, 0x4C, 1, 1]), (148, [216]),
    (152, [0x0B, 1]), (244, [15]), (360, [0, 0x20, 0, 0, 72]),
    (368, [0x2E, 0x74, 0x65, 0x78, 0x74, 0, 0, 0, 0, 16, 0, 0, 0, 0x20, 0, 0, 20, 0, 0, 0, 0x98, 1]),
    (408, [72, 0, 0, 0, 2, 0, 5, 0, 0x5C, 0x20, 0, 0, 16, 0, 0, 0, 1])]

theorem runtimeOffset_unplaced : runtimeOffset .standard unplaced = .ok 408 := by decide +kernel

/-- The image has a summary, the same as with its offset written down, behind one record more. -/
theorem assumed_eq_written_unplaced :
    64 ≤ unplaced.length ∧ storedOffset unplaced = 0 ∧
      ofBytes .standard unplaced = .ok (standing .standard unplaced 408) ∧
      ofBytes .standard (unplaced.overwrite 0x3C [0x80, 0, 0, 0]) =
        .ok (standing .standard unplaced 408) ∧
      ((read .standard).run (Cursor.start unplaced)).records =
        .zeroOffset ::
          ((read .standard).run (Cursor.start (unplaced.overwrite 0x3C [0x80, 0, 0, 0]))).records ∧
      ofBytes .strict unplaced ≠ .error .notManaged := by
  have hLength : 64 ≤ unplaced.length := by decide +kernel
  have hZero : storedOffset unplaced = 0 := by decide +kernel
  have hMagic : unplaced.take 2 = [0x4D, 0x5A] := by decide +kernel
  have hSummary : ofBytes .standard unplaced = .ok (standing .standard unplaced 408) := by
    decide +kernel
  obtain ⟨-, -, hSame⟩ := (assumed_eq_written .standard hLength hZero rfl 0).1 rfl
  obtain ⟨-, -, hRefused⟩ := (assumed_eq_written .strict hLength hZero rfl 0).2 rfl
  obtain ⟨hOutcome, hRecords, -⟩ := hSame fun offset hFinds => by
    obtain ⟨-, -, hOffset⟩ := layout_of_finds (Source.truthful_bytes unplaced) rfl 0 hFinds
    obtain rfl : offset = 408 := Except.ok.inj (hOffset.symm.trans runtimeOffset_unplaced)
    decide
  rw [if_pos hMagic] at hRecords
  rw [outcome_run, outcome_run, hSummary] at hOutcome
  rw [outcome_run] at hRefused
  exact ⟨hLength, hZero, hSummary, hOutcome.symm, hRecords, hRefused⟩

/-- The exception is needed: a runtime header that starts at 0x30 has the size of the metadata where
the offset is written down. -/
example : ofBytes .standard (unplaced.overwrite 388 [0x30, 0]) ≠
    ofBytes .standard ((unplaced.overwrite 388 [0x30, 0]).overwrite 0x3C [0x80, 0, 0, 0]) := by
  decide +kernel

end Summary

end ManagedImage
