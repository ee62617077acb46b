import ManagedImage.Proofs.LogStages
import ManagedImage.Proofs.SummaryRequests
import ManagedImage.Summary.OfFile

/-!
# What the log tells of the outcome

The last record of a read says how it ended: a record of the runtime header's version and flags ends
the log of every summary, a record that there is no runtime header ends that of every image that is
not managed, and the log of any other failure has neither.

* `Summary.Progress`: the four ways a read can go, each with its log and its outcome.
  `Summary.progress_read`: every read over an image in memory goes one of them.
* `Summary.stages`: the stages of the whole read, in their order.
* `Summary.TellsProgress` is what a log says, and `Summary.log_tells` that it does so in memory,
  over streams without failures and for files.
-/

namespace ManagedImage

open FixedWidth (valueAt)
open Layout

namespace Record

def isSection : Record → Bool
  | sectionRead .. => true
  | _ => false

/-- A record of a stage of the headers. -/
def ofHeaders : Record → Bool
  | zeroOffset | fileHeader .. | optionalHeader .. | sectionRead .. => true
  | _ => false

end Record

/-! ## The records of the headers -/

namespace Headers

variable {options : Options} {image : SizedImage} {record : Record}

theorem mem_dosStages :
    record ∈ (dosStages options image).flatten ↔
      record = .zeroOffset ∧ AnnouncesOffset options image := by
  unfold dosStages
  split <;> simp_all

theorem flatten_stages :
    (stages options image).flatten = (dosStages options image).flatten ++
      .fileHeader (signatureOffset options image.bytes) (machine options image.bytes)
          (sectionCount options image.bytes) ::
        .optionalHeader (Layout.format options image.bytes) (directoryCount options image.bytes) ::
          sectionRecords options image := by
  simp [stages]

theorem ofHeaders_of_mem (h : record ∈ (stages options image).flatten) :
    record.ofHeaders = true := by
  rw [flatten_stages, List.mem_append, mem_dosStages] at h
  rcases h with ⟨rfl, -⟩ | h
  · rfl
  · rcases List.mem_cons.1 h with rfl | h
    · rfl
    · rcases List.mem_cons.1 h with rfl | h
      · rfl
      · obtain ⟨index, -, rfl⟩ := List.mem_map.1 h
        rfl

theorem not_mem_stages (h : record.ofHeaders = false) :
    record ∉ (stages options image).flatten := by
  intro hMem
  rw [ofHeaders_of_mem hMem] at h
  cases h

theorem zeroOffset_mem_iff :
    Record.zeroOffset ∈ (stages options image).flatten ↔ AnnouncesOffset options image := by
  rw [flatten_stages, List.mem_append, mem_dosStages]
  simp [sectionRecords]

/-- Only the last stage has records of sections, and no others. -/
theorem filter_sectionRecords :
    (sectionRecords options image).filter Record.isSection = sectionRecords options image := by
  refine List.filter_eq_self.2 fun record h => ?_
  obtain ⟨index, -, rfl⟩ := List.mem_map.1 h
  rfl

theorem filter_stages :
    (stages options image).flatten.filter Record.isSection = sectionRecords options image := by
  have hDos : (dosStages options image).flatten.filter Record.isSection = [] := by
    refine List.filter_eq_nil_iff.2 fun record h => ?_
    obtain ⟨rfl, -⟩ := mem_dosStages.1 h
    exact Bool.false_ne_true
  rw [flatten_stages, List.filter_append, hDos]
  exact filter_sectionRecords

/-- The section records have all been written, or none of them. -/
theorem filter_of_prefix {written : List (List Record)} (h : written <+: stages options image) :
    written.flatten.filter Record.isSection = sectionRecords options image ∨
      written.flatten.filter Record.isSection = [] := by
  have hStages : stages options image = (dosStages options image ++
      [[.fileHeader (signatureOffset options image.bytes) (machine options image.bytes)
          (sectionCount options image.bytes)],
        [.optionalHeader (Layout.format options image.bytes)
          (directoryCount options image.bytes)]]) ++ [sectionRecords options image] := by
    simp [stages]
  rw [hStages, List.prefix_concat_iff, ← hStages] at h
  rcases h with rfl | ⟨rest, hBefore⟩
  · exact .inl filter_stages
  · refine .inr (List.filter_eq_nil_iff.2 fun record hRecord => ?_)
    have hMem := List.mem_append_left rest.flatten hRecord
    rw [← List.flatten_append, hBefore, List.flatten_append, List.mem_append, mem_dosStages] at hMem
    rcases hMem with ⟨rfl, -⟩ | hMem
    · exact Bool.false_ne_true
    · simp only [List.flatten_cons, List.flatten_nil, List.append_nil, List.singleton_append,
        List.mem_cons, List.not_mem_nil, or_false] at hMem
      rcases hMem with rfl | rfl <;> exact Bool.false_ne_true

/-- A read that gets past the DOS header has written that it assumes an offset. -/
theorem zeroOffset_mem_records (h : AnnouncesOffset options image) (position : Nat) :
    Record.zeroOffset ∈ ((read options).run ⟨image, position⟩).records := by
  have hDos : checkDos image = .ok () := checkDos_eq_ok_iff.2 ⟨h.1, h.2.1⟩
  have hYields := @yields_readDos options image position
  obtain ⟨written, -, hRecords, hResult⟩ := @writes_readDos options image position
  rw [hDos] at hYields
  obtain ⟨rfl, -⟩ := hResult _ hYields
  have hWritten : Record.zeroOffset ∈ ((readDos options).run ⟨image, position⟩).records := by
    rw [hRecords, mem_dosStages]
    exact ⟨rfl, h⟩
  unfold read
  rw [Procedure.bind_def, Procedure.run_bind, Procedure.followedBy, hYields]
  exact List.mem_append_left _ hWritten

end Headers

/-! ## How far a read got -/

namespace Summary

section Definitions

variable (options : Options) (image : SizedImage)

/-- How far a read got by its log, and what came of it. -/
inductive Progress : List Record → Except Error Summary → Prop
  /-- The headers were not accepted, or they lead nowhere. -/
  | stopped {written : List (List Record)} {e : Error}
      (hWritten : written <+: Headers.stages options image)
      (hOffset : Headers.AnnouncesOffset options image → .zeroOffset ∈ written.flatten)
      (hError : e ≠ .notManaged) : Progress written.flatten (.error e)
  /-- No runtime header is declared. -/
  | unmanaged (hDirectory : ¬ HasRuntimeDirectory options image.bytes) :
      Progress ((Headers.stages options image).flatten ++
        [.noRuntimeHeader (directoryCount options image.bytes)]) (.error .notManaged)
  /-- A runtime header is declared and its place is known, but it was not accepted. -/
  | found {offset : Nat} {e : Error} (hDirectory : HasRuntimeDirectory options image.bytes)
      (hPlace : runtimeOffset options image.bytes = .ok offset) (hError : e ≠ .notManaged) :
      Progress ((Headers.stages options image).flatten ++
        [.runtimeHeaderFound (runtimeDirectory options image.bytes) offset]) (.error e)
  /-- A runtime header was read. -/
  | finished {offset : Nat} (hDirectory : HasRuntimeDirectory options image.bytes)
      (hPlace : runtimeOffset options image.bytes = .ok offset) :
      Progress ((Headers.stages options image).flatten ++
          [.runtimeHeaderFound (runtimeDirectory options image.bytes) offset,
            .runtimeHeaderRead (standing options image.bytes offset).runtimeVersion
              (standing options image.bytes offset).flags.bits])
        (.ok (standing options image.bytes offset))

end Definitions

variable {options : Options} {image : SizedImage}

theorem silent_readRuntime (offset : Nat) : (readRuntime options offset).Silent := by
  have hRead : RuntimeHeader.read.Silent := by
    iterate 6 refine Procedure.silent_bind (Procedure.silent_value _) fun _ => ?_
    trivial
  refine Procedure.silent_bind (p := Procedure.seekTo offset) trivial fun _ => ?_
  refine Procedure.silent_bind hRead fun runtime => ?_
  split
  · exact Procedure.silent_bind (p := liftM runtime.check) trivial fun _ => trivial
  · trivial

/-- A failure that blames the image is not that the image is not managed. -/
theorem ne_notManaged {e : Error} (h : BlamesImage e) : e ≠ .notManaged := by
  rintro rfl
  cases h

/-- The end of a read whose runtime header is accepted. -/
def finishWith (headers : Headers) (runtime : RuntimeHeader) : Procedure Summary := do
  Procedure.log [.runtimeHeaderRead runtime.version runtime.flags.bits]
  return ofHeaders headers runtime

theorem readBehind_eq (headers : Headers) :
    readBehind options headers = (match headers.runtimeDirectory? with
      | none => do
        Procedure.log [.noRuntimeHeader headers.optional.directoryCount]
        Procedure.fail .notManaged
      | some directory => do
        let offset ← headers.offsetOf directory.rva
        Procedure.log [.runtimeHeaderFound directory offset]
        readRuntime options offset >>= finishWith headers) := rfl

/-- Once the place of a runtime header is known. -/
theorem progress_found {offset : Nat} (hDirectory : HasRuntimeDirectory options image.bytes)
    (hPlace : runtimeOffset options image.bytes = .ok offset) (position : Nat) :
    Progress options image
      ((Headers.stages options image).flatten ++
        .runtimeHeaderFound (runtimeDirectory options image.bytes) offset ::
          ((readRuntime options offset >>= finishWith (Headers.standing options image)).run
            ⟨image, position⟩).records)
      ((readRuntime options offset >>= finishWith (Headers.standing options image)).run
        ⟨image, position⟩).outcome := by
  have hBound := Placement.lt_of_offsetOf hPlace
  have hYields := @yields_readRuntime options image offset (by simp only [addressSpace]; omega)
    position
  have hRecords := (@silent_readRuntime options offset).records (⟨image, position⟩ : Cursor _)
  rw [Procedure.bind_def, Procedure.run_bind, Procedure.followedBy, hYields]
  cases hRuntime : runtimeAt options image.bytes offset with
  | error e =>
    dsimp only
    rw [hRecords]
    exact .found hDirectory hPlace (ne_notManaged (blamesImage_runtimeAt _ _ e hRuntime))
  | ok runtime =>
    obtain ⟨-, -, rfl⟩ := runtimeAt_eq_ok_iff.1 hRuntime
    have hFinished := @Progress.finished options image offset hDirectory hPlace
    rw [← ofHeaders_standing] at hFinished
    dsimp only [Run.behind]
    rw [hRecords]
    exact hFinished

theorem progress_readBehind (position : Nat) :
    Progress options image
      ((Headers.stages options image).flatten ++
        ((readBehind options (Headers.standing options image)).run ⟨image, position⟩).records)
      ((readBehind options (Headers.standing options image)).run ⟨image, position⟩).outcome := by
  rw [readBehind_eq, Headers.runtimeDirectory?_standing]
  by_cases hDirectory : HasRuntimeDirectory options image.bytes
  · rw [if_pos hDirectory]
    dsimp only
    rw [Headers.offsetOf_standing, ← runtimeOffset]
    cases hPlace : runtimeOffset options image.bytes with
    | error e =>
      have hStopped := @Progress.stopped options image (Headers.stages options image) e
        List.prefix_rfl Headers.zeroOffset_mem_iff.2
        (ne_notManaged (blamesImage_offsetOf _ _ e hPlace))
      rw [← List.append_nil (List.flatten _)] at hStopped
      exact hStopped
    | ok offset => exact progress_found hDirectory hPlace position
  · rw [if_neg hDirectory]
    have hCount : (Headers.standing options image).optional.directoryCount =
      directoryCount options image.bytes := optionalHeader_directoryCount
    rw [hCount]
    exact .unmanaged hDirectory

theorem progress_read (position : Nat) :
    Progress options image ((read options).run ⟨image, position⟩).records
      ((read options).run ⟨image, position⟩).outcome := by
  have hOffset := fun h => @Headers.zeroOffset_mem_records options image h position
  have hYields := @Headers.yields_read options image position
  have hSource := Procedure.source_run (Headers.read options) ⟨image, position⟩
  obtain ⟨written, hWritten, hRecords, hResult⟩ := @Headers.writes_read options image position
  rw [read_eq_bind, Procedure.bind_def, Procedure.run_bind, Procedure.followedBy]
  cases hOutcome : ((Headers.read options).run ⟨image, position⟩).outcome with
  | error e =>
    rw [hRecords] at hOffset ⊢
    exact .stopped hWritten hOffset
      (ne_notManaged (Headers.blamesImage_ofImage e (hYields.symm.trans hOutcome)))
  | ok headers =>
    obtain ⟨rfl, rfl⟩ := hResult headers hOutcome
    dsimp only [Run.behind]
    rw [hRecords]
    cases hCursor : ((Headers.read options).run ⟨image, position⟩).cursor with
    | mk source position' =>
      rw [hCursor] at hSource
      obtain rfl : source = image := hSource
      exact progress_readBehind position'

/-! ## What a log says -/

/-- The stages of a whole read, in their order, each with its records. Behind the headers it goes on
only if a runtime header is declared, and only if its place is known. -/
def stages (options : Options) (image : SizedImage) : List (List Record) :=
  Headers.stages options image ++
    if HasRuntimeDirectory options image.bytes then
      match runtimeOffset options image.bytes with
      | .error _ => []
      | .ok offset =>
        [[.runtimeHeaderFound (runtimeDirectory options image.bytes) offset],
          [.runtimeHeaderRead (standing options image.bytes offset).runtimeVersion
            (standing options image.bytes offset).flags.bits]]
    else [[.noRuntimeHeader (directoryCount options image.bytes)]]

/-- What the log of a read of an image says about its outcome. -/
structure TellsProgress (options : Options) (image : SizedImage) (records : List Record)
    (outcome : Except Error Summary) : Prop where
  /-- The log consists of the first stages, each as a whole. -/
  first_stages : ∃ written, written <+: stages options image ∧ records = written.flatten
  zeroOffset : .zeroOffset ∈ records ↔ Headers.AnnouncesOffset options image
  /-- Either each section has its record, in the order of the table, or none has. -/
  sections : records.filter Record.isSection = Headers.sectionRecords options image ∨
    records.filter Record.isSection = []
  managed : (∃ version flags, .runtimeHeaderRead version flags ∈ records) ↔
    ∃ summary, outcome = .ok summary
  managed_last : ∀ {summary}, outcome = .ok summary → ∃ before,
    records = before ++ [.runtimeHeaderRead summary.runtimeVersion summary.flags.bits]
  notManaged : (∃ count, .noRuntimeHeader count ∈ records) ↔ outcome = .error .notManaged
  notManaged_last : outcome = .error .notManaged → ∃ before,
    records = before ++ [.noRuntimeHeader (directoryCount options image.bytes)]
  /-- The records of sections are on the finer level, and no others. -/
  level : ∀ record ∈ records, record.level = .trace ↔ record.isSection = true

namespace Progress

variable {records : List Record} {outcome : Except Error Summary}

theorem first_stages (h : Progress options image records outcome) :
    ∃ written, written <+: stages options image ∧ records = written.flatten := by
  unfold stages
  cases h with
  | stopped hWritten => exact ⟨_, hWritten.trans (List.prefix_append _ _), rfl⟩
  | unmanaged hDirectory =>
    rw [if_neg hDirectory]
    exact ⟨_, List.prefix_rfl, by simp⟩
  | found hDirectory hPlace =>
    rw [if_pos hDirectory, hPlace]
    exact ⟨Headers.stages options image ++ [[_]],
      (List.prefix_append_right_inj _).2 (List.prefix_append [_] [_]), by simp⟩
  | finished hDirectory hPlace =>
    rw [if_pos hDirectory, hPlace]
    exact ⟨_, List.prefix_rfl, by simp⟩

/-- What is written of the stages of the headers is in them. -/
theorem mem_of_first {written : List (List Record)}
    (hWritten : written <+: Headers.stages options image) {record : Record}
    (h : record ∈ written.flatten) : record ∈ (Headers.stages options image).flatten := by
  obtain ⟨stage, hStage, hRecord⟩ := List.mem_flatten.1 h
  exact List.mem_flatten.2 ⟨stage, hWritten.subset hStage, hRecord⟩

theorem zeroOffset_mem_iff (h : Progress options image records outcome) :
    .zeroOffset ∈ records ↔ Headers.AnnouncesOffset options image := by
  cases h with
  | stopped hWritten hOffset =>
    exact ⟨fun h => Headers.zeroOffset_mem_iff.1 (mem_of_first hWritten h), hOffset⟩
  | unmanaged | found | finished =>
    rw [List.mem_append, Headers.zeroOffset_mem_iff]
    simp

theorem filter_isSection (h : Progress options image records outcome) :
    records.filter Record.isSection = Headers.sectionRecords options image ∨
      records.filter Record.isSection = [] := by
  cases h with
  | stopped hWritten => exact Headers.filter_of_prefix hWritten
  | unmanaged | found | finished =>
    refine .inl ?_
    rw [List.filter_append, Headers.filter_stages]
    exact List.append_nil _

theorem runtimeHeaderRead_mem_iff (h : Progress options image records outcome) :
    (∃ version flags, .runtimeHeaderRead version flags ∈ records) ↔
      ∃ summary, outcome = .ok summary := by
  have hHeaders : ∀ version flags,
      Record.runtimeHeaderRead version flags ∉ (Headers.stages options image).flatten :=
    fun _ _ => Headers.not_mem_stages rfl
  cases h with
  | stopped hWritten =>
    refine ⟨?_, fun ⟨_, h⟩ => by cases h⟩
    rintro ⟨version, flags, h⟩
    exact absurd (mem_of_first hWritten h) (hHeaders version flags)
  | unmanaged | found =>
    simp only [List.mem_append, hHeaders, List.mem_singleton, reduceCtorEq, or_self, exists_false]
  | finished =>
    simp only [List.mem_append, hHeaders, false_or, List.mem_cons, reduceCtorEq, List.not_mem_nil,
      or_false, Record.runtimeHeaderRead.injEq, Except.ok.injEq, exists_eq']
    exact ⟨fun _ => trivial, fun _ => ⟨_, _, rfl, rfl⟩⟩

theorem noRuntimeHeader_mem_iff (h : Progress options image records outcome) :
    (∃ count, .noRuntimeHeader count ∈ records) ↔ outcome = .error .notManaged := by
  have hHeaders : ∀ count,
      Record.noRuntimeHeader count ∉ (Headers.stages options image).flatten :=
    fun _ => Headers.not_mem_stages rfl
  cases h with
  | stopped hWritten hOffset hError =>
    refine ⟨?_, fun h => absurd (Except.error.inj h) hError⟩
    rintro ⟨count, h⟩
    exact absurd (mem_of_first hWritten h) (hHeaders count)
  | unmanaged =>
    simp only [List.mem_append, hHeaders, false_or, List.mem_singleton,
      Record.noRuntimeHeader.injEq, exists_eq]
  | found hDirectory hPlace hError =>
    simp only [List.mem_append, hHeaders, List.mem_singleton, reduceCtorEq, or_self, exists_false,
      Except.error.injEq, hError]
  | finished =>
    simp only [List.mem_append, hHeaders, List.mem_cons, reduceCtorEq, List.not_mem_nil, or_self,
      exists_false]

/-- A record of the headers is on the finer level if it is one of a section. -/
theorem level_of_ofHeaders {record : Record} (h : record.ofHeaders = true) :
    record.level = .trace ↔ record.isSection = true := by
  cases record <;> simp_all [Record.ofHeaders, Record.level, Record.isSection]

theorem level_eq_trace_iff (h : Progress options image records outcome) :
    ∀ record ∈ records, record.level = .trace ↔ record.isSection = true := by
  have hHeaders : ∀ record ∈ (Headers.stages options image).flatten,
      (record.level = .trace ↔ record.isSection = true) :=
    fun record hRecord => level_of_ofHeaders (Headers.ofHeaders_of_mem hRecord)
  cases h with
  | stopped hWritten => exact fun record hRecord => hHeaders record (mem_of_first hWritten hRecord)
  | unmanaged | found | finished =>
    refine List.forall_mem_append.2 ⟨hHeaders, ?_⟩
    simp [Record.level, Record.isSection]

theorem tells (h : Progress options image records outcome) :
    TellsProgress options image records outcome where
  first_stages := h.first_stages
  zeroOffset := h.zeroOffset_mem_iff
  sections := h.filter_isSection
  managed := h.runtimeHeaderRead_mem_iff
  notManaged := h.noRuntimeHeader_mem_iff
  level := h.level_eq_trace_iff
  managed_last := by
    rintro summary rfl
    cases h with
    | finished hDirectory hPlace => exact ⟨_, (List.append_assoc _ [_] [_]).symm⟩
  notManaged_last := by
    rintro rfl
    cases h with
    | stopped _ _ hError | found _ _ hError => exact absurd rfl hError
    | unmanaged hDirectory => exact ⟨_, rfl⟩

end Progress

end Summary

end ManagedImage
