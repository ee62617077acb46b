import ManagedImage.Proofs.CheckedSteps
import ManagedImage.Proofs.StreamAgreement

/-!
# A read over words

The read of a summary, written out once more with 64-bit positions, with the slices that it takes of
its buffer, and with a trap wherever one of its steps could go wrong.

* `Checked.readSummary` is this read. The buffer is made longer first, and the bytes from the source
  are put into the new room; the usual offset is put over the field in the buffer.
* `Checked.follows_extend` tells how long the buffer becomes, and that is what the stages rest on:
  it reaches to the largest offset asked for so far, and stays below the bound of all offsets.
* `Summary.read_never_traps`: all sums are exact, and the read does what `Summary.read` does, over
  every source and under all options.
-/

namespace ManagedImage

/-! ## The buffer -/

/-- Bytes that are read into the room behind a string stand behind it. -/
theorem Bytes.overwrite_resize {data more : Bytes} {size : Nat} (hSize : data.length ≤ size)
    (hMore : more.length = size - data.length) :
    (data.resize size).overwrite data.length more = data ++ more := by
  have hGrown : (data ++ List.replicate (size - data.length) (0 : UInt8)).length =
      data.length + more.length := by rw [List.length_append, List.length_replicate, hMore]
  rw [overwrite, length_resize, resize, List.take_of_length_le hSize, List.take_left' rfl,
    List.take_of_length_le (Nat.le_of_eq hMore), List.drop_of_length_le (Nat.le_of_eq hGrown),
    List.append_nil]

/-- The lower one of an offset and a size. -/
def Word.atMost (offset : UInt64) (limit : Nat) : UInt64 :=
  if limit < offset.toNat then UInt64.ofNat limit else offset

theorem Word.toNat_atMost (offset : UInt64) (limit : Nat) :
    (atMost offset limit).toNat = min offset.toNat limit := by
  unfold atMost
  split
  · rename_i hLimit
    rw [UInt64.toNat_ofNat_of_lt' (Nat.lt_trans hLimit offset.toNat_lt)]
    exact (Nat.min_eq_right (Nat.le_of_lt hLimit)).symm
  · rename_i hLimit
    exact (Nat.min_eq_left (Nat.le_of_not_lt hLimit)).symm

/-! ## The read -/

namespace Checked

/-- Makes the buffer reach up to `stop`: it is made longer, and the new room is filled. -/
def extend (buffer : HeaderBuffer) (stop : UInt64) : Checked HeaderBuffer :=
  let start := UInt64.ofNat buffer.bytes.length
  if stop ≤ start then return buffer
  else if buffer.limit < stop.toNat then Procedure.fail .outOfBounds
  else do
    let size ← Word.index stop
    let grown := buffer.bytes.resize size
    let room ← Word.sliceFrom grown buffer.bytes.length
    seek start
    let more ← take room.length
    return { buffer with bytes := grown.overwrite buffer.bytes.length more }

/-- Reads the DOS header. The signature and the offset are read out of slices of the buffer, and the
usual offset is put over another one. -/
def readDos (options : Options) : Checked (DosHeader × HeaderBuffer) := do
  let limit ← Procedure.sourceSize
  let buffer ← extend ⟨[], limit⟩ (UInt64.ofNat DosHeader.size)
  let front ← Word.sliceFrom buffer.bytes 0
  let magic ← Word.read .bits16 front
  let magic ← UInt16.ofNat <$> magic
  if magic ≠ DosHeader.magic then
    Procedure.fail (.malformed (.dosSignature DosHeader.magic.toNat magic.toNat))
  else do
    let field ← Word.sliceFrom buffer.bytes DosHeader.peOffsetField
    let peOffset ← Word.read .bits32 field
    let peOffset ← UInt32.ofNat <$> peOffset
    if peOffset = 0 ∧ options.zeroOffsetFallback then do
      Procedure.log [.zeroOffset]
      let patch := FixedWidth.encode DosHeader.usualPeOffset
      let _ ← Word.slice buffer.bytes DosHeader.peOffsetField (DosHeader.peOffsetField + 4)
      let patched := buffer.bytes.overwrite DosHeader.peOffsetField patch
      let dos ← FixedWidth.read patched 0
      return (dos, { buffer with bytes := patched })
    else do
      let dos ← FixedWidth.read buffer.bytes 0
      return (dos, buffer)

def readCoff (options : Options) (dos : DosHeader) (buffer : HeaderBuffer) :
    Checked (CoffHeader × HeaderBuffer) := do
  let stop ← Word.optionalOffset dos.peOffset
  let buffer ← extend buffer stop
  let signature : UInt32 ← FixedWidth.read buffer.bytes dos.peOffset.toNat
  if signature ≠ peSignature then
    Procedure.fail (.malformed (.entity (.signature signature.toNat)))
  else do
    let offset ← Word.coffOffset dos.peOffset
    let coff : CoffHeader ← FixedWidth.read buffer.bytes offset.toNat
    Procedure.log [.fileHeader dos.peOffset.toNat coff.machine coff.sectionCount]
    if options.maxSections < coff.sectionCount then
      Procedure.fail
        (.malformed (.sectionLimit coff.sectionCount.toNat options.maxSections.toNat))
    else do
      let stop ← Word.tableEnd dos.peOffset coff
      let buffer ← extend buffer stop
      let stop ← Word.optionalEnd dos.peOffset
      let buffer ← extend buffer (Word.atMost stop buffer.limit)
      return (coff, buffer)

def decodeOptional (data : Bytes) (peOffset : UInt32) (coff : CoffHeader) :
    Checked (OptionalHeader × List DataDirectory) := do
  Headers.checkStub data peOffset.toNat
  if coff.optionalHeaderSize = 0 then Procedure.fail (.malformed .noOptionalHeader)
  else do
    let offset ← Word.optionalOffset peOffset
    let optional ← OptionalHeader.read data offset.toNat
    let directories ← optional.readDirectories data offset.toNat
    let checked ← Word.checkDirectories optional.format optional.directoryCount
      coff.optionalHeaderSize
    checked
    return (optional, directories)

/-- Decodes the section table. A buffer that could not hold so many entries is a trap. -/
def decodeSections (data : Bytes) (peOffset : UInt32) (coff : CoffHeader) :
    Checked (List Section) := do
  let offset ← Word.tableOffset peOffset coff
  let offset ← Word.index offset
  if data.length / CoffHeader.sectionEntrySize < coff.sectionCount.toNat then
    throwThe Trap .tableLength
  else Section.readTable data offset coff.sectionCount.toNat coff.stringTable

def readHeaders (options : Options) : Checked Headers := do
  let (dos, buffer) ← readDos options
  let (coff, buffer) ← readCoff options dos buffer
  let (optional, directories) ← decodeOptional buffer.bytes dos.peOffset coff
  Procedure.log [.optionalHeader optional.format optional.directoryCount]
  let sections ← decodeSections buffer.bytes dos.peOffset coff
  Procedure.log (sections.mapIdx .sectionRead)
  return ⟨dos, coff, optional, directories, sections⟩

def readRuntimeHeader : Checked RuntimeHeader := do
  let size ← value .bits32 UInt32.ofNat
  let major ← value .bits16 UInt16.ofNat
  let minor ← value .bits16 UInt16.ofNat
  let metadataRva ← value .bits32 UInt32.ofNat
  let metadataSize ← value .bits32 UInt32.ofNat
  let flags ← value .bits32 UInt32.ofNat
  return ⟨size, ⟨major, minor⟩, ⟨metadataRva, metadataSize⟩, ⟨flags⟩⟩

def readRuntime (options : Options) (offset : UInt64) : Checked RuntimeHeader := do
  seek offset
  let runtime ← readRuntimeHeader
  if options.strictRuntimeHeader then do
    runtime.check
    return runtime
  else return runtime

/-- Reads the summary of an image, with a trap wherever a step could go wrong. -/
def readSummary (options : Options) : Checked Summary := do
  let headers ← readHeaders options
  match headers.runtimeDirectory? with
  | none => do
    Procedure.log [.noRuntimeHeader headers.optional.directoryCount]
    Procedure.fail .notManaged
  | some directory => do
    let found ← Word.offsetOf directory.rva (headers.sections.map (·.entry.placement))
    let offset ← found
    Procedure.log [.runtimeHeaderFound directory offset.toNat]
    let runtime ← readRuntime options offset
    Procedure.log [.runtimeHeaderRead runtime.version runtime.flags.bits]
    return Summary.ofHeaders headers runtime

variable {position : UInt64}

/-! ## The stages follow those of the plain read -/

/-- The buffer becomes as long as the offset asks for, and stays below the bound of all offsets. -/
theorem follows_extend {buffer : HeaderBuffer} {stop : UInt64} {n : Nat} (hStop : stop.toNat = n)
    (hBound : n < Word.bound) (hLength : buffer.bytes.length < Word.bound) :
    Follows (extend buffer stop) (buffer.extend n) position fun longer _ =>
      longer.bytes.length = max buffer.bytes.length n := by
  subst hStop
  have hStart : (UInt64.ofNat buffer.bytes.length).toNat = buffer.bytes.length :=
    UInt64.toNat_ofNat_of_lt' (Nat.lt_trans hLength (by decide))
  unfold extend HeaderBuffer.extend
  refine follows_ite (by rw [UInt64.le_iff_toNat_le, hStart]) (fun hThere => ?_) fun hBeyond => ?_
  · exact follows_pure (Nat.max_eq_left hThere).symm
  refine follows_ite Iff.rfl (fun _ => follows_fail _) fun _ => ?_
  have hLess : buffer.bytes.length ≤ stop.toNat := Nat.le_of_not_le hBeyond
  have hRoom : buffer.bytes.length ≤ (buffer.bytes.resize stop.toNat).length := by
    rw [Bytes.length_resize]
    exact hLess
  refine follows_step (Word.index_eq stop) ?_
  refine follows_step (Word.sliceFrom_eq hRoom) ?_
  rw [List.length_drop, Bytes.length_resize]
  refine follows_bind (follows_seek hStart) fun _ last hLast => ?_
  have hSpace : last.toNat + (stop.toNat - buffer.bytes.length) < addressSpace :=
    Word.add_lt_addressSpace (hLast ▸ hLength) (by omega)
  refine follows_bind (follows_take hSpace) fun more _ hMore => ?_
  rw [Bytes.overwrite_resize hLess hMore.1]
  refine follows_pure ?_
  rw [List.length_append, hMore.1]
  omega

/-- With the usual offset put over the field, the buffer holds the header with this offset. -/
theorem read_patched {bytes : Bytes} (hLength : 64 ≤ bytes.length)
    (hZero : Layout.storedOffset bytes = 0) :
    FixedWidth.read
        (bytes.overwrite DosHeader.peOffsetField (FixedWidth.encode DosHeader.usualPeOffset)) 0 =
      .ok { FixedWidth.valueAt DosHeader bytes 0 with peOffset := DosHeader.usualPeOffset } := by
  have hAssumes : Layout.AssumesOffset .standard bytes := ⟨hZero, rfl⟩
  have hHeader := @Layout.dosHeader_eq .standard bytes hLength
  rw [if_pos hAssumes, Layout.dosHeader, Layout.assumed, if_pos hAssumes] at hHeader
  rw [FixedWidth.read_of_le (by rw [Bytes.length_overwrite]; exact hLength), hHeader]

/-- The three slices lie in a buffer of 64 bytes, and the integers that are read out of the first
two are fields of the header. -/
theorem follows_readDos (options : Options) :
    Follows (readDos options) (Headers.readDos options) position fun result _ =>
      result.2.bytes.length < Word.bound := by
  unfold readDos Headers.readDos
  refine follows_bind follows_sourceSize fun limit last _ => ?_
  have hEmpty : ([] : Bytes).length < Word.bound := by decide
  refine follows_bind (follows_extend rfl (by decide) hEmpty) fun buffer last hBuffer => ?_
  change buffer.bytes.length = 64 at hBuffer
  have hSignature : (FixedWidth.valueAt DosHeader buffer.bytes 0).signature =
      UInt16.ofNat (leValue ((buffer.bytes.drop 0).take Width.bits16.size)) :=
    DosHeader.signature_valueAt buffer.bytes 0
  have hOffset : (FixedWidth.valueAt DosHeader buffer.bytes 0).peOffset =
      UInt32.ofNat
        (leValue ((buffer.bytes.drop DosHeader.peOffsetField).take Width.bits32.size)) :=
    DosHeader.peOffset_valueAt buffer.bytes 0
  have hRead : FixedWidth.read buffer.bytes 0 = .ok (FixedWidth.valueAt DosHeader buffer.bytes 0) :=
    FixedWidth.read_of_le (Nat.le_of_eq hBuffer.symm)
  have hField : DosHeader.peOffsetField + 4 ≤ buffer.bytes.length := Nat.le_of_eq hBuffer.symm
  have hReadSignature : Word.read .bits16 (buffer.bytes.drop 0) = _ := Word.read_eq (by
    rw [List.length_drop, hBuffer]
    decide)
  have hReadOffset : Word.read .bits32 (buffer.bytes.drop DosHeader.peOffsetField) = _ :=
    Word.read_eq (by
      rw [List.length_drop, hBuffer]
      decide)
  refine follows_plain hRead ?_
  refine follows_step (Word.sliceFrom_eq (Nat.zero_le _)) ?_
  refine follows_step hReadSignature ?_
  refine follows_known rfl ?_
  rw [← hSignature]
  refine follows_ite Iff.rfl (fun _ => follows_fail _) fun _ => ?_
  refine follows_step (Word.sliceFrom_eq (Nat.le_of_add_right_le hField)) ?_
  refine follows_step hReadOffset ?_
  refine follows_known rfl ?_
  rw [← hOffset]
  refine follows_ite Iff.rfl (fun hAssumes => ?_) fun _ => ?_
  · refine follows_bind (follows_log _) fun _ last _ => ?_
    refine follows_step (Word.slice_eq (Nat.le_add_right _ _) hField) ?_
    have hZero : Layout.storedOffset buffer.bytes = 0 := hOffset.symm.trans hAssumes.1
    refine follows_known (read_patched (Nat.le_of_eq hBuffer.symm) hZero) ?_
    refine follows_pure ?_
    dsimp only
    rw [Bytes.length_overwrite, hBuffer]
    decide
  · refine follows_known hRead ?_
    refine follows_pure ?_
    dsimp only
    rw [hBuffer]
    decide

/-- The buffer reaches to the end of the section table. -/
theorem follows_readCoff (options : Options) (dos : DosHeader) {buffer : HeaderBuffer}
    (hLength : buffer.bytes.length < Word.bound) :
    Follows (readCoff options dos buffer) (Headers.readCoff options dos buffer) position
      fun result _ => result.1.tableEnd dos.peOffset.toNat ≤ result.2.bytes.length := by
  unfold readCoff Headers.readCoff
  refine follows_computes (Word.computes_optionalOffset dos.peOffset) fun stop hStop hBound => ?_
  refine follows_bind (follows_extend hStop hBound hLength) fun buffer last hBuffer => ?_
  have hLength := hBuffer ▸ Nat.max_lt.2 ⟨hLength, hBound⟩
  refine follows_bind (follows_lift _) fun signature last _ => ?_
  refine follows_ite Iff.rfl (fun _ => follows_fail _) fun _ => ?_
  refine follows_computes (Word.computes_coffOffset dos.peOffset) fun offset hOffset _ => ?_
  rw [hOffset]
  refine follows_bind (follows_lift _) fun coff last _ => ?_
  refine follows_bind (follows_log _) fun _ last _ => ?_
  refine follows_ite Iff.rfl (fun _ => follows_fail _) fun _ => ?_
  refine follows_computes (Word.computes_tableEnd dos.peOffset coff) fun stop hStop hBound => ?_
  refine follows_bind (follows_extend hStop hBound hLength) fun buffer last hTable => ?_
  have hLength := hTable ▸ Nat.max_lt.2 ⟨hLength, hBound⟩
  refine follows_computes (Word.computes_optionalEnd dos.peOffset) fun stop hStop hBound => ?_
  have hLimit := Word.toNat_atMost stop buffer.limit
  rw [hStop] at hLimit
  have hBound := Nat.lt_of_le_of_lt (Nat.min_le_left _ buffer.limit) hBound
  refine follows_bind (follows_extend hLimit hBound hLength) fun buffer last hOptional => ?_
  refine follows_pure ?_
  dsimp only
  omega

theorem follows_decodeOptional (data : Bytes) (peOffset : UInt32) (coff : CoffHeader) :
    Follows (decodeOptional data peOffset coff)
      (liftM (Headers.decodeOptional data peOffset.toNat coff)) position fun _ _ => True := by
  unfold decodeOptional Headers.decodeOptional
  refine follows_lift_bind fun _ _ => ?_
  by_cases hNone : coff.optionalHeaderSize = 0
  · rw [if_pos hNone, if_pos hNone]
    exact follows_fail _
  rw [if_neg hNone, if_neg hNone]
  refine follows_computes (Word.computes_optionalOffset peOffset) fun offset hOffset _ => ?_
  rw [hOffset]
  refine follows_lift_bind fun optional _ => ?_
  refine follows_lift_bind fun directories _ => ?_
  refine follows_step (Word.checkDirectories_eq _ _ _) ?_
  refine follows_lift_bind fun _ _ => ?_
  exact follows_pure trivial

/-- A buffer that reaches to the end of the section table has room for all entries. -/
theorem follows_decodeSections {data : Bytes} {peOffset : UInt32} {coff : CoffHeader}
    (hTable : coff.tableEnd peOffset.toNat ≤ data.length) :
    Follows (decodeSections data peOffset coff)
      (liftM (Headers.decodeSections data peOffset.toNat coff)) position fun _ _ => True := by
  have hRoom : ¬ data.length / CoffHeader.sectionEntrySize < coff.sectionCount.toNat := by
    rw [Nat.not_lt, Nat.le_div_iff_mul_le (by decide)]
    exact Nat.le_trans (Nat.le_add_left _ _) hTable
  unfold decodeSections Headers.decodeSections
  refine follows_computes (Word.computes_tableOffset peOffset coff) fun offset hOffset _ => ?_
  refine follows_step (Word.index_eq offset) ?_
  rw [hOffset, if_neg hRoom]
  exact (follows_lift _).imp fun _ _ _ => trivial

theorem follows_readHeaders (options : Options) :
    Follows (readHeaders options) (Headers.read options) position fun _ _ => True := by
  unfold readHeaders Headers.read
  refine follows_bind (follows_readDos options) fun result last hDos => ?_
  obtain ⟨dos, buffer⟩ := result
  refine follows_bind (follows_readCoff options dos hDos) fun result last hTable => ?_
  obtain ⟨coff, buffer⟩ := result
  refine follows_bind (follows_decodeOptional _ _ _) fun result last _ => ?_
  obtain ⟨optional, directories⟩ := result
  refine follows_bind (follows_log _) fun _ last _ => ?_
  refine follows_bind (follows_decodeSections hTable) fun sections last _ => ?_
  refine follows_bind (follows_log _) fun _ last _ => ?_
  exact follows_pure trivial

theorem follows_readRuntimeHeader (hPosition : position.toNat < Word.bound) :
    Follows readRuntimeHeader RuntimeHeader.read position fun _ last =>
      last.toNat = position.toNat + 20 := by
  have hSpace : position.toNat + 20 < addressSpace :=
    Word.add_lt_addressSpace hPosition (by decide)
  have hWord : Width.bits32.size = 4 := rfl
  have hShort : Width.bits16.size = 2 := rfl
  unfold readRuntimeHeader RuntimeHeader.read
  refine follows_bind (follows_value rfl (fun _ => rfl) (by omega)) fun size last hSize => ?_
  refine follows_bind (follows_value rfl (fun _ => rfl) (by omega)) fun major last hMajor => ?_
  refine follows_bind (follows_value rfl (fun _ => rfl) (by omega)) fun minor last hMinor => ?_
  refine follows_bind (follows_value rfl (fun _ => rfl) (by omega)) fun rva last hRva => ?_
  refine follows_bind (follows_value rfl (fun _ => rfl) (by omega)) fun count last hCount => ?_
  refine follows_bind (follows_value rfl (fun _ => rfl) (by omega)) fun flags last hFlags => ?_
  refine follows_pure ?_
  omega

theorem follows_readRuntime (options : Options) {offset : UInt64} {n : Nat}
    (hOffset : offset.toNat = n) (hBound : n < Word.bound) :
    Follows (readRuntime options offset) (Summary.readRuntime options n) position
      fun _ _ => True := by
  unfold readRuntime Summary.readRuntime
  refine follows_bind (follows_seek hOffset) fun _ last hLast => ?_
  refine follows_bind (follows_readRuntimeHeader (hLast ▸ hBound)) fun runtime last _ => ?_
  refine follows_ite Iff.rfl (fun _ => ?_) fun _ => follows_pure trivial
  exact follows_bind (follows_lift _) fun _ _ _ => follows_pure trivial

theorem follows_readSummary (options : Options) :
    Follows (readSummary options) (Summary.read options) position fun _ _ => True := by
  unfold readSummary Summary.read
  refine follows_bind (follows_readHeaders options) fun headers last _ => ?_
  cases headers.runtimeDirectory? with
  | none => exact follows_bind (follows_log _) fun _ _ _ => follows_fail _
  | some directory =>
    obtain ⟨found, hStep, hFound⟩ := @Word.offsetOf_eq directory.rva
      (headers.sections.map (·.entry.placement))
    have hPlain : headers.offsetOf directory.rva = found.map UInt64.toNat := hFound.symm
    refine follows_step hStep ?_
    dsimp only
    rw [hPlain]
    cases found with
    | error e => exact follows_fail e
    | ok offset =>
      have hBound := Nat.lt_trans (Placement.lt_of_offsetOf hPlain)
        (show 0x200000000 < Word.bound by decide)
      refine follows_known rfl ?_
      change Follows _ (Procedure.log [.runtimeHeaderFound directory offset.toNat] >>= _) _ _
      refine follows_bind (follows_log _) fun _ last _ => ?_
      refine follows_bind (follows_readRuntime options rfl hBound) fun runtime last _ => ?_
      refine follows_bind (follows_log _) fun _ last _ => ?_
      exact follows_pure trivial

end Checked

/-! ## No trap -/

namespace Summary

/-- For all contents of the headers the sums of a read are exact, an integer is read out of any data
without a trap, and so is an address translated by any sections. The read as a whole meets no trap
either, over every source whose answers are exact and under all options: it does what the read in
natural numbers does, and ends at the same position. -/
theorem read_never_traps {σ : Type} [Source σ] [Source.Exact σ] (options : Options) (source : σ) :
    (∀ peOffset coff format count p rva, Word.SumsExact peOffset coff format count p rva) ∧
      (∀ width data offset, ∃ next,
        Word.fieldAt width data offset = .ok ((width.readAt data offset.toNat).1, next) ∧
          next.toNat = (width.readAt data offset.toNat).2) ∧
      (∀ rva sections, ∃ found, Word.offsetOf rva sections = .ok found ∧
        found.map UInt64.toNat = Placement.offsetOf sections rva) ∧
      ∃ last, ((Checked.readSummary options).code 0).run (Cursor.start source) =
          ((read options).run (Cursor.start source)).ending last ∧
        ∀ summary, (read options).outcome source = .ok summary →
          ((read options).run (Cursor.start source)).cursor.position = last.toNat := by
  refine ⟨Word.sumsExact, Word.fieldAt_eq, fun rva => Word.offsetOf_eq, ?_⟩
  obtain ⟨last, hRun, hLast⟩ := (Checked.follows_readSummary options).run_eq source
  exact ⟨last, hRun, fun summary hOutcome => (hLast summary hOutcome).1⟩

/-- Over words the small managed image has the same summary in memory, and the same failure in a
stream whose first call times out. -/
theorem read_never_traps_specimen :
    Source.Exact Bytes ∧ Source.Exact Stream ∧
      (∃ last, (((Checked.readSummary .strict).code 0).run (Cursor.start specimen)).outcome =
        .ok (.ok (standing .strict specimen 344, last))) ∧
      (((Checked.readSummary .strict).code 0).run
          (Cursor.start (Stream.fresh specimen Session.slow 17))).outcome =
        .error (.failed ⟨.timedOut, "slow"⟩) := by
  obtain ⟨-, -, -, last, hMemory, -⟩ := read_never_traps .strict specimen
  obtain ⟨-, -, -, stop, hStream, -⟩ :=
    read_never_traps .strict (Stream.fresh specimen Session.slow 17)
  have hFailed : (read .strict).outcome (Stream.fresh specimen Session.slow 17) =
      .error (.failed ⟨.timedOut, "slow"⟩) := by decide +kernel
  refine ⟨inferInstance, inferInstance, ⟨last, ?_⟩, ?_⟩
  · rw [hMemory]
    exact congrArg (Except.map fun summary => (Except.ok (summary, last) : Except Trap _))
      ofBytes_specimen
  · rw [hStream]
    exact congrArg (Except.map fun summary => (Except.ok (summary, stop) : Except Trap _)) hFailed

end Summary

end ManagedImage
