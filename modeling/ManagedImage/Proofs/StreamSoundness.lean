import ManagedImage.Proofs.Requests
import ManagedImage.Proofs.Truncation

/-!
# What a stream can do to a summary

A stream may fail, be interrupted, return less than it was asked for and report a wrong size. None
of this forges a summary: a range that is handed out in the end is the range of the image, so a
summary that is read through a stream is that of the image.

* `Stream.Honest`: what a stream answers, if it answers, is the truth about its image. This holds
  of every script (`Stream.honest_readAt`, `Stream.honest_size`).
* `Procedure.ok_run`: a run over a stream that ends well is the run over the image.
* `Summary.ofImage_of_managed`: a wrong size loses the summary exactly if it denies the end of the
  section table.
* `Summary.stream_only_loses`: the two facts about the read of a summary.
-/

namespace ManagedImage

open Layout

/-! ## What a stream hands out -/

namespace Stream

variable {α : Type} {stream : Stream}

/-- The call leaves the image and its reported size alone, and a result that it gives is the true
one. It may always fail instead. -/
structure Honest (stream : Stream) (call : Except Error α × Stream) (truth : Except Error α) :
    Prop where
  sized_eq : call.2.sized = stream.sized
  truthful : ∀ {a}, call.1 = .ok a → truth = .ok a

theorem honest_error {e : Error} {source : Stream} {truth : Except Error α}
    (h : source.sized = stream.sized) : stream.Honest (.error e, source) truth := by
  refine ⟨h, fun hAnswer => ?_⟩
  cases hAnswer

theorem Honest.behind {source : Stream} {call : Except Error α × Stream} {truth : Except Error α}
    (h : source.Honest call truth) (hSource : source.sized = stream.sized) :
    stream.Honest call truth :=
  ⟨h.sized_eq.trans hSource, h.truthful⟩

theorem honest_fill (stream : Stream) (ahead : Bytes) (missing : Nat) (done : Bytes) :
    stream.Honest (stream.fill ahead missing done) (filled ahead missing done) := by
  have hNext : ∀ {stream next : Stream} {ahead outcome missing},
      stream.readFrom ahead missing = (outcome, next) → next.sized = stream.sized := by
    intro stream next ahead outcome missing hRead
    obtain ⟨-, rfl⟩ := Prod.mk.inj hRead
    rfl
  fun_induction Stream.fill stream ahead missing done with
  | case1 stream ahead done =>
    refine ⟨rfl, fun hDone => ?_⟩
    unfold filled
    rw [if_pos (Nat.zero_le _), List.take_zero, List.append_nil]
    exact hDone
  | case2 stream ahead missing done hMissing next hRead => exact honest_error (hNext hRead)
  | case3 stream ahead missing done hMissing next b rest hRead ih =>
    obtain ⟨hBytes, hLength⟩ := Script.taken_of_answer (Prod.mk.inj hRead).1
    exact filled_drop hBytes hLength done ▸ ih.behind (hNext hRead)
  | case4 stream ahead missing done hMissing next fault hRetry hRead ih =>
    exact ih.behind (hNext hRead)
  | case5 stream ahead missing done hMissing next fault hFinal hRead =>
    exact honest_error (hNext hRead)

theorem honest_readAt (stream : Stream) (offset : Nat) {count : Nat} (hCount : 0 < count) :
    stream.Honest (stream.readAt offset count) (Source.readAt stream.image offset count).1 := by
  unfold readAt
  rcases stream.seekTo_cases offset with ⟨hSeek, hLeads⟩ | ⟨fault, hSeek, hLeads⟩
  · rw [hSeek, ← filled_range stream.image offset hCount]
    exact (honest_fill _ _ _ _).behind hLeads.sized_eq
  · rw [hSeek]
    exact honest_error hLeads.sized_eq

theorem honest_size (stream : Stream) : stream.Honest stream.size (.ok stream.sized.size) := by
  unfold size seekEnd
  rcases stream.seekTo_cases (stream.script.reportedSize.getD stream.image.length) with
    ⟨hSeek, hLeads⟩ | ⟨fault, hSeek, hLeads⟩
  · rw [hSeek]
    exact ⟨hLeads.sized_eq, id⟩
  · rw [hSeek]
    exact honest_error hLeads.sized_eq

/-- The streams with the image and the reported size of a stream tell the truth about them. -/
theorem truthful (stream : Stream) :
    Source.Truthful stream.sized fun source : Stream => source.sized = stream.sized := by
  constructor
  · intro source hSource
    have hHonest := source.honest_size
    rw [hSource] at hHonest
    exact ⟨fun h => (Except.ok.inj (hHonest.truthful h)).symm, hHonest.sized_eq.trans hSource⟩
  · intro source offset count hSource hCount
    have hHonest := source.honest_readAt offset hCount
    have hImage : source.image = stream.image := congrArg SizedImage.bytes hSource
    rw [hImage] at hHonest
    exact ⟨hHonest.truthful, hHonest.sized_eq.trans hSource⟩

end Stream

/-- A run over a stream that ends well ends so over the image under the reported size. -/
theorem Procedure.ok_run {α : Type} (p : Procedure α) (hReads : p.ReadsNonempty) (stream : Stream)
    (position : Nat) {a : α} (h : (p.run ⟨stream, position⟩).outcome = .ok a) :
    (p.run ⟨stream.sized, position⟩).outcome = .ok a :=
  (p.run_truthful stream.truthful hReads rfl position).2.2 a h

/-! ## Scripts without failures -/

namespace Script

/-- No call of the stream fails, and a read call returns something where there is something. The
reads may be short and the size may be wrong. -/
structure Smooth (script : Script) : Prop where
  readFaults : script.readFaults = []
  seekFaults : script.seekFaults = []
  bad : script.bad = none
  chunk_pos : ∀ {most}, script.chunk = some most → 1 ≤ most

theorem Smooth.steady {script : Script} (h : script.Smooth) : script.Steady := by
  refine ⟨h.chunk_pos, fun entry hEntry => ?_, h.seekFaults, h.bad⟩
  rw [h.readFaults] at hEntry
  exact absurd hEntry List.not_mem_nil

end Script

/-- Without failures, a run over a stream is the run over the image under the reported size. -/
theorem Procedure.outcome_of_smooth {α : Type} (p : Procedure α) (hReads : p.ReadsNonempty)
    {stream : Stream} (h : stream.script.Smooth) :
    p.outcome stream = (p.run (Cursor.start stream.sized)).outcome := by
  obtain ⟨calls, hLeads, hSettled⟩ := p.settled_run hReads stream h.steady.cooperative 0
  exact (hSettled.of_no_failure (hLeads.no_failure h.steady.not_schedules)).1

/-! ## A managed image under another size -/

/-- A managed image declares fifteen directories and has a section, so the largest optional header
would end before its section table does. -/
theorem Layout.optionalEnd_le_tableEnd {options : Options} {image : Bytes} {offset : Nat}
    (h : Framed options image) (hDirectory : HasRuntimeDirectory options image)
    (hOffset : runtimeOffset options image = .ok offset) :
    signatureOffset options image + 264 ≤ tableEnd options image := by
  obtain ⟨index, hFirst, -⟩ := runtimeOffset_eq_ok_iff.1 hOffset
  have hSection := hFirst.inTable
  have hDeclared := hDirectory.1
  have hDirectories := h.directories
  have hFixed : 96 ≤ (format options image).fixedSize := by
    cases format options image <;> decide
  simp only [tableEnd, tableOffset]
  omega

namespace Summary

variable {options : Options} {image : Bytes} {summary : Summary}

/-- The reported size of a managed image matters up to the end of its section table. -/
theorem ofImage_of_managed (h : ofBytes options image = .ok summary) (size : Nat) :
    ofImage options ⟨image, size⟩ =
      if tableEnd options image ≤ size then .ok summary else .error .outOfBounds := by
  obtain ⟨hWell, hDirectory, offset, hOffset, hFits, hAccepted, rfl⟩ := ofBytes_eq_ok_iff.1 h
  by_cases hSize : tableEnd options image ≤ size
  · have hOptional : min (signatureOffset options image + 264) size ≤ image.length :=
      Nat.le_trans (Nat.min_le_left _ _)
        (Nat.le_trans (optionalEnd_le_tableEnd hWell.toFramed hDirectory hOffset) hWell.table)
    have hHeaders : ∃ headers, Headers.ofImage options ⟨image, size⟩ = .ok headers :=
      ⟨_, Headers.ofImage_eq_ok_iff.2 ⟨hWell, hSize, ⟨Nat.min_le_right _ _, hOptional⟩, rfl⟩⟩
    rw [if_pos hSize]
    exact ofImage_eq_ok_iff.2 ⟨hHeaders, hDirectory, offset, hOffset, hFits, hAccepted, rfl⟩
  · have hShort : SizedImage.reach ⟨image, size⟩ < tableEnd options image :=
      Nat.lt_of_le_of_lt (Nat.min_le_left _ _) (Nat.not_le.1 hSize)
    rw [if_neg hSize]
    unfold ofImage
    rw [Headers.ofImage_of_cut hWell.toFramed (fun _ _ _ => rfl) hShort]
    rfl

/-- Whatever its script, its position and its past, a summary that is read through a stream is that
of the image. If no call fails, a summary of the image is lost exactly if the stream reports a size
below the end of the section table. -/
theorem stream_only_loses (options : Options) (stream : Stream) :
    (∀ summary, (read options).outcome stream = .ok summary →
      ofBytes options stream.image = .ok summary) ∧
    ∀ summary size, ofBytes options stream.image = .ok summary → stream.script.Smooth →
      stream.script.reportedSize.getD stream.image.length = size →
        (tableEnd options stream.image ≤ size → (read options).outcome stream = .ok summary) ∧
        (size < tableEnd options stream.image →
          (read options).outcome stream = .error .outOfBounds) := by
  constructor
  · intro summary h
    have hSized : ofImage options stream.sized = .ok summary :=
      (yields_read 0).symm.trans
        ((read options).ok_run (readsNonempty_read options) stream 0 h)
    obtain ⟨⟨headers, hHeaders⟩, hRest⟩ := ofImage_eq_ok_iff.1 hSized
    exact ofBytes_eq_ok_iff.2 ⟨(Headers.ofImage_eq_ok_iff.1 hHeaders).1, hRest⟩
  · rintro summary size h hSmooth rfl
    have hOutcome : (read options).outcome stream = ofImage options stream.sized :=
      ((read options).outcome_of_smooth (readsNonempty_read options) hSmooth).trans (yields_read 0)
    rw [hOutcome]
    refine ⟨fun hSize => ?_, fun hSize => ?_⟩
    · exact (ofImage_of_managed h _).trans (if_pos hSize)
    · exact (ofImage_of_managed h _).trans (if_neg (Nat.not_le.2 hSize))

/-! ### A stream that reports too small a size -/

/-- Seven bytes at a time, of an image that is said to have so many bytes. -/
def sipping (size : Nat) : Script := ⟨some 7, [], [], none, some size⟩

theorem smooth_sipping (size : Nat) : (sipping size).Smooth := by
  refine ⟨rfl, rfl, rfl, fun h => ?_⟩
  cases h
  decide

/-- The section table of the small managed image ends at 344, which is before the image ends. -/
theorem stream_only_loses_specimen :
    (read .strict).outcome (Stream.fresh specimen (sipping 344) 9) =
        .ok (standing .strict specimen 344) ∧
      ofBytes .strict specimen = .ok (standing .strict specimen 344) ∧
      (read .strict).outcome (Stream.fresh specimen (sipping 343) 9) = .error .outOfBounds := by
  have hTable : tableEnd .strict specimen = 344 := by decide +kernel
  have hAt : ∀ size, ofBytes .strict specimen = .ok (standing .strict specimen 344) →
      (tableEnd .strict specimen ≤ size →
        (read .strict).outcome (Stream.fresh specimen (sipping size) 9) =
          .ok (standing .strict specimen 344)) ∧
      (size < tableEnd .strict specimen →
        (read .strict).outcome (Stream.fresh specimen (sipping size) 9) = .error .outOfBounds) :=
    fun size h => (stream_only_loses .strict (.fresh specimen (sipping size) 9)).2 _ size h
      (smooth_sipping size) rfl
  have hRead := (hAt 344 ofBytes_specimen).1 (Nat.le_of_eq hTable)
  refine ⟨hRead, (stream_only_loses .strict (.fresh specimen (sipping 344) 9)).1 _ hRead, ?_⟩
  exact (hAt 343 ofBytes_specimen).2 (by rw [hTable]; decide)

end Summary

end ManagedImage
