import ManagedImage.Proofs.WellFormed
import ManagedImage.Summary

/-!
# The stages of reading a summary

Behind the headers a summary takes three more stages: the directory of the runtime header, its
offset in the file, and the twenty bytes that stand there.

* `RuntimeHeader.outcome_read`: the six reads of the runtime header are one read of the record.
* `Summary.ofBytes_eq`: the summary of an image in memory, stage by stage.
* `Summary.ofImage_eq_ok_iff`: when there is one, and which.
* `Summary.ofImage_stages`: all stages of the read in one row, those of the headers included.
-/

namespace ManagedImage

open FixedWidth (valueAt)
open Layout

/-! ## The runtime header -/

theorem Procedure.outcome_value_bind {α β : Type} [FixedWidth α] {image : SizedImage}
    {next : α → Procedure β} {position : Nat}
    (hSpace : position + FixedWidth.width α < addressSpace) :
    ((Procedure.value α >>= next).run ⟨image, position⟩).outcome =
      if position + FixedWidth.width α ≤ image.bytes.length then
        ((next (valueAt α image.bytes position)).run
          ⟨image, position + FixedWidth.width α⟩).outcome
      else .error .outOfBounds := by
  obtain ⟨hOutcome, hCursor⟩ := @Procedure.run_value image α _ position hSpace
  rw [Procedure.bind_def, Procedure.run_bind, Procedure.followedBy, hOutcome, hCursor,
    FixedWidth.read_eq]
  by_cases hFits : position + FixedWidth.width α ≤ image.bytes.length
  · simp only [hFits, if_true]
    rfl
  · simp only [hFits, if_false]

theorem RuntimeHeader.outcome_read {image : SizedImage} {position : Nat}
    (hSpace : position + 20 < addressSpace) :
    (RuntimeHeader.read.run ⟨image, position⟩).outcome =
      FixedWidth.read image.bytes position := by
  have h16 : FixedWidth.width UInt16 = 2 := rfl
  have h32 : FixedWidth.width UInt32 = 4 := rfl
  have hWidth : FixedWidth.width RuntimeHeader = 20 := rfl
  unfold RuntimeHeader.read
  rw [FixedWidth.read_eq, hWidth, RuntimeHeader.valueAt_eq, DataDirectory.valueAt_eq]
  iterate 6 rw [Procedure.outcome_value_bind (by omega)]
  by_cases hFits : position + 20 ≤ image.bytes.length
  · rw [if_pos (by omega), if_pos (by omega), if_pos (by omega), if_pos (by omega),
      if_pos (by omega), if_pos (by omega), if_pos hFits]
    rfl
  · rw [if_neg hFits]
    repeat' split
    all_goals first | rfl | omega

/-- A runtime header that fails the strict check is malformed. -/
theorem RuntimeHeader.blamesForm_check (header : RuntimeHeader) :
    FailsAs BlamesForm header.check := by
  unfold RuntimeHeader.check
  repeat' split
  all_goals first | exact failsAs_error ⟨_, rfl⟩ | exact failsAs_ok _

theorem Placement.lt_of_offsetOf {sections : List Placement} {rva : UInt32} {offset : Nat}
    (h : offsetOf sections rva = .ok offset) : offset < 0x200000000 := by
  obtain ⟨-, p, -, -, -, -, rfl⟩ := offsetOf_eq_ok_iff.1 h
  exact p.fileOffset_lt rva

/-! ## What the headers tell -/

namespace Headers

variable {options : Options} {image : SizedImage}

theorem runtimeDirectory?_standing :
    (standing options image).runtimeDirectory? =
      if HasRuntimeDirectory options image.bytes then some (runtimeDirectory options image.bytes)
      else none := by
  show (directoriesOf options image.bytes)[14]?.filter DataDirectory.isPresent = _
  rw [directoriesOf, List.getElem?_map]
  by_cases hCount : 15 ≤ (directoryCount options image.bytes).toNat
  · rw [List.getElem?_range (by omega), Option.map_some]
    show (some (runtimeDirectory options image.bytes)).filter DataDirectory.isPresent = _
    rw [Option.filter_some]
    by_cases hPresent : (runtimeDirectory options image.bytes).isPresent = true
    · rw [if_pos hPresent, if_pos ⟨hCount, DataDirectory.isPresent_iff.1 hPresent⟩]
    · rw [if_neg hPresent, if_neg fun h => hPresent (DataDirectory.isPresent_iff.2 h.2)]
  · have hDirectory : ¬ HasRuntimeDirectory options image.bytes := fun h => hCount h.1
    rw [List.getElem?_eq_none (by rw [List.length_range]; omega), if_neg hDirectory]
    rfl

theorem offsetOf_standing (rva : UInt32) :
    (standing options image).offsetOf rva =
      Placement.offsetOf (placements options image.bytes) rva := by
  apply congrArg (Placement.offsetOf · rva)
  show (((List.range _).map (entry options image.bytes)).map
    (Section.describedBy _ _)).map (·.entry.placement) = _
  rw [List.map_map, List.map_map]
  exact List.map_congr_left fun index _ => entry_placement index

end Headers

/-! ## The stages -/

namespace Summary

/-- The runtime header at an offset, checked if the options ask for it. -/
def runtimeAt (options : Options) (image : Bytes) (offset : Nat) : Except Error RuntimeHeader := do
  let runtime ← FixedWidth.read image offset
  if options.strictRuntimeHeader then do
    RuntimeHeader.check runtime
    return runtime
  else return runtime

/-- The summary of an image in memory. -/
def ofImage (options : Options) (image : SizedImage) : Except Error Summary := do
  let headers ← Headers.ofImage options image
  match headers.runtimeDirectory? with
  | none => .error .notManaged
  | some directory => do
    let offset ← headers.offsetOf directory.rva
    let runtime ← runtimeAt options image.bytes offset
    return ofHeaders headers runtime

variable {options : Options} {image : SizedImage}

theorem yields_readRuntime {offset : Nat} (hSpace : offset + 20 < addressSpace) :
    (readRuntime options offset).Yields image (runtimeAt options image.bytes offset) := by
  intro position
  unfold readRuntime runtimeAt
  show ((RuntimeHeader.read >>= _).run ⟨image, offset⟩).outcome = _
  rw [Procedure.bind_def, Procedure.run_bind, Procedure.followedBy,
    RuntimeHeader.outcome_read hSpace]
  cases FixedWidth.read (α := RuntimeHeader) image.bytes offset with
  | error e => rfl
  | ok runtime =>
    show Run.outcome (Run.behind ((if options.strictRuntimeHeader = true then _ else _ :
      Procedure RuntimeHeader).run _) _ _) = if options.strictRuntimeHeader = true then _ else _
    by_cases hStrict : options.strictRuntimeHeader = true
    · rw [if_pos hStrict, if_pos hStrict]
      cases RuntimeHeader.check runtime <;> rfl
    · rw [if_neg hStrict, if_neg hStrict]
      rfl

theorem yields_read : (read options).Yields image (ofImage options image) := by
  refine Procedure.yields_bind Headers.yields_read fun headers _ => ?_
  cases headers.runtimeDirectory? with
  | none => exact Procedure.yields_bind_ok (Procedure.yields_log _) (Procedure.yields_done _)
  | some directory =>
    refine Procedure.yields_bind (Procedure.yields_lift rfl) fun offset hOffset => ?_
    apply Procedure.yields_bind_ok (Procedure.yields_log _)
    have hBound := Placement.lt_of_offsetOf hOffset
    have hRuntime := @yields_readRuntime options image offset (by simp only [addressSpace]; omega)
    refine Procedure.yields_bind hRuntime fun runtime _ => ?_
    exact Procedure.yields_bind_ok (Procedure.yields_log _) (Procedure.yields_done _)

theorem ofBytes_eq (options : Options) (image : Bytes) :
    ofBytes options image = ofImage options (.ofBytes image) :=
  (Procedure.run_bytes (read options) image 0).1.trans (yields_read 0)

theorem outcome_run (options : Options) (image : Bytes) (position : Nat) :
    ((read options).run (⟨image, position⟩ : Cursor Bytes)).outcome = ofBytes options image := by
  rw [((read options).run_bytes image position).1, yields_read position, ofBytes_eq]

/-! ## When there is a summary -/

/-- The summary of an image whose runtime header stands at an offset. -/
def standing (options : Options) (image : Bytes) (offset : Nat) : Summary where
  format := Layout.format options image
  machine := .ofCode (Layout.machine options image)
  runtimeVersion := ⟨valueAt UInt16 image (offset + 4), valueAt UInt16 image (offset + 6)⟩
  flags := ⟨valueAt UInt32 image (offset + 16)⟩
  metadata := ⟨valueAt UInt32 image (offset + 8), valueAt UInt32 image (offset + 12)⟩

/-- The runtime header at an offset passes the check that the options ask for. -/
def RuntimeAccepted (options : Options) (image : Bytes) (offset : Nat) : Prop :=
  options.strictRuntimeHeader →
    valueAt UInt32 image offset = 72 ∧ valueAt UInt16 image (offset + 4) ≠ 0 ∧
      RuntimeFlags.unknownBits ⟨valueAt UInt32 image (offset + 16)⟩ = 0

theorem ofHeaders_standing (offset : Nat) :
    ofHeaders (Headers.standing options image) (valueAt RuntimeHeader image.bytes offset) =
      standing options image.bytes offset := by
  rw [RuntimeHeader.valueAt_eq, DataDirectory.valueAt_eq]
  show Summary.mk (optionalHeader options image.bytes).format
    (.ofCode (fileHeader options image.bytes).machine) _ _ _ = _
  rw [optionalHeader_format, fileHeader_eq]
  rfl

theorem runtimeAccepted_iff {data : Bytes} {offset : Nat} :
    RuntimeAccepted options data offset ↔
      (options.strictRuntimeHeader → (valueAt RuntimeHeader data offset).check = .ok ()) := by
  rw [RuntimeHeader.valueAt_eq, RuntimeHeader.check_eq_ok_iff]
  rfl

theorem runtimeAt_eq_ok_iff {data : Bytes} {offset : Nat} {runtime : RuntimeHeader} :
    runtimeAt options data offset = .ok runtime ↔
      offset + 20 ≤ data.length ∧ RuntimeAccepted options data offset ∧
        runtime = valueAt RuntimeHeader data offset := by
  unfold runtimeAt
  rw [bind_eq_ok_iff, FixedWidth.read_eq, RuntimeHeader.width_eq, runtimeAccepted_iff]
  constructor
  · intro h
    obtain ⟨runtime', hRead, h⟩ := h
    split at hRead
    · rename_i hFits
      cases hRead
      split at h
      · obtain ⟨_, hCheck, h⟩ := bind_eq_ok_iff.1 h
        cases h
        exact ⟨hFits, fun _ => hCheck, rfl⟩
      · rename_i hLenient
        cases h
        exact ⟨hFits, fun hStrict => absurd hStrict hLenient, rfl⟩
    · cases hRead
  · intro h
    obtain ⟨hFits, hCheck, rfl⟩ := h
    refine ⟨_, if_pos hFits, ?_⟩
    split
    · rename_i hStrict
      exact bind_eq_ok_iff.2 ⟨(), hCheck hStrict, rfl⟩
    · rfl

theorem blamesImage_runtimeAt (data : Bytes) (offset : Nat) :
    FailsAs BlamesImage (runtimeAt options data offset) := by
  unfold runtimeAt
  refine failsAs_bind ?_ fun runtime => ?_
  · rw [FixedWidth.read_eq]
    split
    · exact failsAs_ok _
    · exact failsAs_error rfl
  · split
    · exact failsAs_bind (runtime.blamesForm_check.mono BlamesForm.blamesImage) fun _ =>
        failsAs_ok _
    · exact failsAs_ok _

theorem blamesImage_offsetOf (sections : List Placement) (rva : UInt32) :
    FailsAs BlamesImage (Placement.offsetOf sections rva) := by
  intro e h
  rw [(Placement.offsetOf_eq_error_iff.1 h).2]
  rfl

/-- What is read of an image whose headers are accepted. -/
theorem ofImage_of_headers {headers : Headers}
    (h : Headers.ofImage options image = .ok headers) :
    ofImage options image =
      if HasRuntimeDirectory options image.bytes then do
        let offset ← runtimeOffset options image.bytes
        let runtime ← runtimeAt options image.bytes offset
        return ofHeaders headers runtime
      else .error .notManaged := by
  obtain ⟨-, -, -, rfl⟩ := Headers.ofImage_eq_ok_iff.1 h
  unfold ofImage
  rw [h, ok_bind, Headers.runtimeDirectory?_standing]
  by_cases hDirectory : HasRuntimeDirectory options image.bytes
  · rw [if_pos hDirectory, if_pos hDirectory]
    dsimp only
    rw [Headers.offsetOf_standing]
    rfl
  · rw [if_neg hDirectory, if_neg hDirectory]

theorem ofImage_eq_ok_iff {summary : Summary} :
    ofImage options image = .ok summary ↔
      (∃ headers, Headers.ofImage options image = .ok headers) ∧
        HasRuntimeDirectory options image.bytes ∧
        ∃ offset, runtimeOffset options image.bytes = .ok offset ∧
          offset + 20 ≤ image.bytes.length ∧ RuntimeAccepted options image.bytes offset ∧
          summary = standing options image.bytes offset := by
  constructor
  · intro h
    obtain ⟨headers, hHeaders, -⟩ := bind_eq_ok_iff.1 h
    obtain ⟨-, -, -, rfl⟩ := Headers.ofImage_eq_ok_iff.1 hHeaders
    rw [ofImage_of_headers hHeaders] at h
    split at h
    · rename_i hDirectory
      obtain ⟨offset, hOffset, h⟩ := bind_eq_ok_iff.1 h
      obtain ⟨runtime, hRuntime, h⟩ := bind_eq_ok_iff.1 h
      obtain ⟨hFits, hAccepted, rfl⟩ := runtimeAt_eq_ok_iff.1 hRuntime
      cases h
      exact ⟨⟨_, hHeaders⟩, hDirectory, offset, hOffset, hFits, hAccepted, ofHeaders_standing _⟩
    · cases h
  · intro h
    obtain ⟨⟨headers, hHeaders⟩, hDirectory, offset, hOffset, hFits, hAccepted, rfl⟩ := h
    rw [ofImage_of_headers hHeaders, if_pos hDirectory]
    obtain ⟨-, -, -, rfl⟩ := Headers.ofImage_eq_ok_iff.1 hHeaders
    refine bind_eq_ok_iff.2 ⟨offset, hOffset, bind_eq_ok_iff.2
      ⟨valueAt RuntimeHeader image.bytes offset, ?_, ?_⟩⟩
    · exact runtimeAt_eq_ok_iff.2 ⟨hFits, hAccepted, rfl⟩
    · exact congrArg Except.ok (ofHeaders_standing offset)

/-- Accepted headers without a directory in use are those of an image that is not managed. Every
other failure is one of the format. -/
theorem ofImage_error {e : Error} (h : ofImage options image = .error e) :
    (e = .notManaged ∧ (∃ headers, Headers.ofImage options image = .ok headers) ∧
      ¬ HasRuntimeDirectory options image.bytes) ∨ e.category = .format := by
  cases hHeaders : Headers.ofImage options image with
  | error e' =>
    unfold ofImage at h
    rw [hHeaders] at h
    cases h
    exact .inr (Headers.blamesImage_ofImage _ hHeaders)
  | ok headers =>
    rw [ofImage_of_headers hHeaders] at h
    split at h
    · have hBlames : FailsAs BlamesImage (runtimeOffset options image.bytes >>= fun offset =>
          runtimeAt options image.bytes offset >>= fun runtime =>
            .ok (ofHeaders headers runtime)) :=
        failsAs_bind (blamesImage_offsetOf _ _) fun _ =>
          failsAs_bind (blamesImage_runtimeAt _ _) fun _ => failsAs_ok _
      exact .inr (hBlames e h)
    · rename_i hDirectory
      cases h
      exact .inl ⟨rfl, ⟨headers, rfl⟩, hDirectory⟩

theorem ofImage_eq_notManaged_iff :
    ofImage options image = .error .notManaged ↔
      (∃ headers, Headers.ofImage options image = .ok headers) ∧
        ¬ HasRuntimeDirectory options image.bytes := by
  constructor
  · intro h
    rcases ofImage_error h with ⟨-, h⟩ | h
    · exact h
    · cases h
  · intro h
    obtain ⟨⟨headers, hHeaders⟩, hDirectory⟩ := h
    rw [ofImage_of_headers hHeaders, if_neg hDirectory]

/-! ## The stages of the headers and of the summary in one row -/

/-- What is left to do once the headers are accepted. -/
def behindHeaders (options : Options) (image : Bytes) : Except Error Summary :=
  if HasRuntimeDirectory options image then do
    let offset ← runtimeOffset options image
    let _ ← runtimeAt options image offset
    return standing options image offset
  else .error .notManaged

/-- The summary of an image in memory, with the stages of its headers. -/
theorem ofImage_stages (options : Options) (image : SizedImage) :
    ofImage options image = (do
      Headers.checkDos image
      Headers.checkCoff options image
      let _ ← Headers.decodeOptional (Headers.front options image)
        (signatureOffset options image.bytes) (fileHeader options image.bytes)
      let _ ← (Headers.entriesOf options image.bytes).mapM fun entry =>
        SectionName.reference? entry.name.toList
      behindHeaders options image.bytes) := by
  have hHeaders : Headers.ofImage options image = (do
      Headers.checkDos image
      Headers.checkCoff options image
      Headers.decodeFront options image) := rfl
  cases hDos : Headers.checkDos image with
  | error e =>
    rw [ofImage, hHeaders, hDos]
    rfl
  | ok _ =>
  cases hCoff : Headers.checkCoff options image with
  | error e =>
    rw [ofImage, hHeaders, hDos, hCoff]
    rfl
  | ok _ =>
  have hDecode : Headers.ofImage options image = Headers.decodeFront options image := by
    rw [hHeaders, hDos, hCoff]
    rfl
  rw [ok_bind, ok_bind]
  cases hOptional : Headers.decodeOptional (Headers.front options image)
      (signatureOffset options image.bytes) (fileHeader options image.bytes) with
  | error e =>
    rw [ofImage, hDecode, Headers.decodeFront]
    dsimp only
    rw [hOptional]
    rfl
  | ok decoded =>
  have hFront : Headers.frontEnd options image ≤ image.bytes.length := by
    obtain ⟨hReach, -⟩ := Headers.checkDos_eq_ok_iff.1 hDos
    obtain ⟨hFile, -, -, hTable, hRest⟩ := Headers.checkCoff_eq_ok_iff.1 hCoff
    exact (((hReach.max hFile).max hTable).max hRest).2
  rw [Headers.decodeFront_eq_named hFront hOptional, Headers.named] at hDecode
  rw [ok_bind]
  cases hNames : (Headers.entriesOf options image.bytes).mapM fun entry =>
      SectionName.reference? entry.name.toList with
  | error e =>
    rw [hNames] at hDecode
    rw [ofImage, hDecode]
    rfl
  | ok places =>
    rw [hNames] at hDecode
    rw [ofImage_of_headers hDecode, ok_bind, behindHeaders]
    split
    · refine bind_congr_of_ok fun offset _ => bind_congr_of_ok fun runtime hRuntime => ?_
      obtain ⟨-, -, rfl⟩ := runtimeAt_eq_ok_iff.1 hRuntime
      exact congrArg Except.ok (ofHeaders_standing offset)
    · rfl

end Summary

end ManagedImage
