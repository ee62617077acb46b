import ManagedImage.Proofs.Requests
import ManagedImage.Proofs.StreamSoundness

/-!
# What the read of the headers asks of its source

The read of the headers is four extensions of one buffer, and between them it decodes what it has.
Each extension asks for the bytes that are missing behind the buffer, so the requests are
consecutive reads from the start of the image on.

* `HeaderBuffer.fills_extend`: one extension makes one read at most, and the buffer then holds the
  front of the image up to where it reads.
* `Headers.fillDos`, `fillFile`, `fillTable` and `fillOptional`: the read up to each extension.
  `Headers.read_eq` puts it together from them, and each has a lemma of what it reads and holds.
* `Headers.bufferBound`: how far the options let the buffer grow, whatever the image says.
* `Headers.requests_read`: all requests of the read, over an image in memory.
* `Headers.buffersHold`: what the buffer holds after each extension, over any source that tells the
  truth.
-/

namespace ManagedImage

open FixedWidth (valueAt)
open Layout

/-! ## Extensions of the buffer -/

namespace HeaderBuffer

/-- An extension asks for what is missing, unless nothing is or the source does not go so far. -/
theorem requests_extend {σ : Type} [Source σ] (buffer : HeaderBuffer) (stop : Nat)
    (cursor : Cursor σ) :
    ((buffer.extend stop).run cursor).requests =
      if stop ≤ buffer.bytes.length ∨ buffer.limit < stop then []
      else [.read buffer.bytes.length (stop - buffer.bytes.length)] := by
  unfold extend
  by_cases hThere : stop ≤ buffer.bytes.length
  · rw [if_pos hThere, if_pos (.inl hThere)]
    rfl
  by_cases hLimit : buffer.limit < stop
  · rw [if_neg hThere, if_pos hLimit, if_pos (.inr hLimit)]
    rfl
  rw [if_neg hThere, if_neg hLimit, if_neg (by omega)]
  show (Procedure.run (.read (stop - buffer.bytes.length) fun more =>
    .advance (stop - buffer.bytes.length) (.done (.ok (HeaderBuffer.mk (buffer.bytes ++ more) _))))
      (cursor.seek buffer.bytes.length)).requests = _
  rw [Procedure.run]
  generalize Source.readAt (cursor.seek buffer.bytes.length).source
    (cursor.seek buffer.bytes.length).position (stop - buffer.bytes.length) = found
  obtain ⟨answer, source⟩ := found
  cases answer with
  | error e => rfl
  | ok bytes =>
    dsimp only
    rw [Procedure.run]
    split <;> rfl

variable {image : SizedImage} {data : Bytes} {filled stop bound : Nat}

theorem fills_extend (hFilled : image.Reaches filled) (hLength : data.length = image.bytes.length)
    (hAgree : data.AgreeOn image.bytes filled stop) (hSpace : stop < addressSpace)
    (hBound : stop ≤ bound) :
    (extend ⟨data.take filled, image.size⟩ stop).Fills image filled
      (if stop ≤ filled then 0 else 1) bound fun buffer reached =>
        image.Reaches reached ∧ reached = max filled stop ∧
          buffer = ⟨data.take reached, image.size⟩ := by
  have hTaken : (data.take filled).length = filled := by
    rw [List.length_take, hLength]
    exact Nat.min_eq_left hFilled.2
  intro position
  rw [requests_extend, hTaken]
  by_cases hThere : stop ≤ filled
  · have hStop : image.Reaches stop := hFilled.mono hThere
    rw [yields_extend hFilled hLength hAgree hSpace hStop position, if_pos (.inl hThere),
      if_pos hThere, Nat.max_eq_left hThere]
    refine ⟨filled, .done, Nat.le_refl _, Nat.le_max_left _ _, fun buffer h => ?_⟩
    cases h
    exact ⟨hFilled, rfl, rfl⟩
  by_cases hLimit : image.size < stop
  · have hStop : ¬ image.Reaches stop := fun hStop => Nat.not_le.2 hLimit hStop.1
    rw [yields_extend_error hFilled hLength hSpace hStop position, if_pos (.inr hLimit),
      if_neg hThere]
    refine ⟨filled, .done, Nat.zero_le _, Nat.le_max_left _ _, fun buffer h => ?_⟩
    cases h
  rw [if_neg (not_or.2 ⟨hThere, hLimit⟩), if_neg hThere]
  refine ⟨stop, .single (Nat.not_le.1 hThere), Nat.le_refl _, by omega, fun buffer h => ?_⟩
  by_cases hStop : image.Reaches stop
  · rw [yields_extend hFilled hLength hAgree hSpace hStop position] at h
    cases h
    have hMax : max filled stop = stop := Nat.max_eq_right (by omega)
    rw [hMax]
    exact ⟨hStop, rfl, rfl⟩
  · rw [yields_extend_error hFilled hLength hSpace hStop position] at h
    cases h

end HeaderBuffer

/-! ## The read of the headers, extension by extension -/

namespace Headers

section Stages

variable (options : Options) (limit : Nat)

/-- What follows the first extension: the DOS header, and the usual offset if it is to be taken. -/
def decodeDos (buffer : HeaderBuffer) : Procedure (DosHeader × HeaderBuffer) := do
  let dos : DosHeader ← FixedWidth.read buffer.bytes 0
  if dos.signature ≠ DosHeader.magic then
    Procedure.fail (.malformed (.dosSignature DosHeader.magic.toNat dos.signature.toNat))
  else if dos.peOffset = 0 ∧ options.zeroOffsetFallback then do
    Procedure.log [.zeroOffset]
    let patch := FixedWidth.encode DosHeader.usualPeOffset
    return ({ dos with peOffset := DosHeader.usualPeOffset },
      { buffer with bytes := buffer.bytes.overwrite DosHeader.peOffsetField patch })
  else return (dos, buffer)

/-- What follows the second extension: the signature, the file header, the number of sections. -/
def decodeCoff (dos : DosHeader) (buffer : HeaderBuffer) : Procedure CoffHeader := do
  let peOffset := dos.peOffset.toNat
  let signature : UInt32 ← FixedWidth.read buffer.bytes peOffset
  if signature ≠ peSignature then
    Procedure.fail (.malformed (.entity (.signature signature.toNat)))
  else
    let coff : CoffHeader ← FixedWidth.read buffer.bytes (peOffset + FixedWidth.width UInt32)
    Procedure.log [.fileHeader peOffset coff.machine coff.sectionCount]
    if options.maxSections < coff.sectionCount then
      Procedure.fail
        (.malformed (.sectionLimit coff.sectionCount.toNat options.maxSections.toNat))
    else return coff

/-- What follows the last extension: the optional header and the section table. -/
def decodeRest (dos : DosHeader) (coff : CoffHeader) (buffer : HeaderBuffer) :
    Procedure Headers := do
  let peOffset := dos.peOffset.toNat
  let (optional, directories) ← decodeOptional buffer.bytes peOffset coff
  Procedure.log [.optionalHeader optional.format optional.directoryCount]
  let sections ← decodeSections buffer.bytes peOffset coff
  Procedure.log (sections.mapIdx .sectionRead)
  return ⟨dos, coff, optional, directories, sections⟩

/-- The read up to the first extension, for the DOS header. -/
def fillDos : Procedure HeaderBuffer := HeaderBuffer.extend ⟨[], limit⟩ DosHeader.size

/-- The read up to the second extension, for the file header. -/
def fillFile : Procedure (DosHeader × HeaderBuffer) := do
  let buffer ← fillDos limit
  let (dos, buffer) ← decodeDos options buffer
  let buffer ← buffer.extend (CoffHeader.optionalOffset dos.peOffset.toNat)
  return (dos, buffer)

/-- The read up to the third extension, for the section table. -/
def fillTable : Procedure (DosHeader × CoffHeader × HeaderBuffer) := do
  let (dos, buffer) ← fillFile options limit
  let coff ← decodeCoff options dos buffer
  let buffer ← buffer.extend (coff.tableEnd dos.peOffset.toNat)
  return (dos, coff, buffer)

/-- The read up to the fourth extension, for the largest optional header. -/
def fillOptional : Procedure (DosHeader × CoffHeader × HeaderBuffer) := do
  let (dos, coff, buffer) ← fillTable options limit
  let buffer ← buffer.extend (min (CoffHeader.optionalEnd dos.peOffset.toNat) buffer.limit)
  return (dos, coff, buffer)

end Stages

theorem readDos_eq (options : Options) :
    readDos options = Procedure.sourceSize >>= fun limit => fillDos limit >>= decodeDos options :=
  rfl

theorem readCoff_eq (options : Options) (dos : DosHeader) (buffer : HeaderBuffer) :
    readCoff options dos buffer = (do
      let buffer ← buffer.extend (CoffHeader.optionalOffset dos.peOffset.toNat)
      let coff ← decodeCoff options dos buffer
      let buffer ← buffer.extend (coff.tableEnd dos.peOffset.toNat)
      let buffer ← buffer.extend (min (CoffHeader.optionalEnd dos.peOffset.toNat) buffer.limit)
      return (coff, buffer)) := by
  unfold readCoff decodeCoff
  refine bind_congr fun buffer => ?_
  rw [bind_assoc]
  refine bind_congr fun signature => ?_
  split
  · rfl
  rw [bind_assoc]
  refine bind_congr fun coff => ?_
  rw [bind_assoc]
  refine bind_congr fun _ => ?_
  split <;> rfl

/-- The read is its four extensions with what follows each of them. -/
theorem read_eq (options : Options) :
    read options = (do
      let limit ← Procedure.sourceSize
      let (dos, coff, buffer) ← fillOptional options limit
      decodeRest dos coff buffer) := by
  unfold read fillOptional fillTable fillFile decodeRest
  rw [readDos_eq]
  simp only [readCoff_eq, bind_assoc, pure_bind]

theorem exchanges_read {σ : Type} [Source σ] (options : Options) (cursor : Cursor σ) :
    ∃ rest, ((read options).run cursor).exchanges =
      .size (Source.size cursor.source).1 :: rest := by
  rw [read_eq]
  exact Procedure.exchanges_sourceSize_bind _ cursor

/-! ## How the buffer fills -/

/-- No header reaches beyond this, given the options: the DOS header, or the section table and the
largest optional header behind the file header. -/
def bufferBound (options : Options) (image : Bytes) : Nat :=
  max 64 (signatureOffset options image + 24 +
    max 240 ((optionalSize options image).toNat + 40 * options.maxSections.toNat))

/-- The most reads that the headers take. The fourth extension has nothing to do if the section
table ends behind the largest optional header. -/
def mostReads (options : Options) (image : Bytes) : Nat :=
  if signatureOffset options image + 264 ≤ tableEnd options image then 3 else 4

variable {options : Options} {image : SizedImage} {filled : Nat}

theorem mostReads_le {image : Bytes} : mostReads options image ≤ 4 := by
  unfold mostReads
  split <;> decide

theorem tableEnd_le_bufferBound {image : Bytes}
    (h : sectionCount options image ≤ options.maxSections) :
    tableEnd options image ≤ bufferBound options image := by
  have hCount : (sectionCount options image).toNat ≤ options.maxSections.toNat :=
    UInt16.le_iff_toNat_le.1 h
  simp only [tableEnd, tableOffset, bufferBound]
  omega

theorem fills_fillDos :
    (fillDos image.size).Fills image 0 1 (bufferBound options image.bytes) fun buffer reached =>
      reached = 64 ∧ image.Reaches 64 ∧ buffer = ⟨image.bytes.take 64, image.size⟩ := by
  have hEmpty : image.Reaches 0 := ⟨Nat.zero_le _, Nat.zero_le _⟩
  have hExtend := @HeaderBuffer.fills_extend image image.bytes 0 64
    (bufferBound options image.bytes) hEmpty rfl (fun _ _ _ => rfl) (by decide)
    (Nat.le_max_left _ _)
  refine hExtend.imp ?_
  rintro buffer reached ⟨hReach, rfl, rfl⟩
  exact ⟨rfl, hReach, rfl⟩

theorem fills_decodeDos (hReach : image.Reaches 64) {bound : Nat} :
    (decodeDos options ⟨image.bytes.take 64, image.size⟩).Fills image 64 0 bound
      fun decoded reached => reached = 64 ∧
        decoded = (dosHeader options image.bytes,
          ⟨(assumed options image.bytes).take 64, image.size⟩) := by
  have hStored : (valueAt DosHeader image.bytes 0).peOffset = storedOffset image.bytes :=
    DosHeader.peOffset_valueAt _ _
  unfold decodeDos
  rw [read_dosHeader hReach, dosHeader_eq hReach.2]
  refine Procedure.fills_guard fun _ => ?_
  unfold assumed
  by_cases hAssumes : AssumesOffset options image.bytes
  · rw [if_pos (by rw [hStored]; exact hAssumes), if_pos hAssumes, if_pos hAssumes,
      ← Bytes.overwrite_take]
    refine Procedure.fills_bind 0 0 (Procedure.fills_log _) ?_
    rintro _ reached rfl
    refine Procedure.fills_done fun decoded h => ?_
    cases h
    exact ⟨rfl, rfl⟩
  · rw [if_neg (by rw [hStored]; exact hAssumes), if_neg hAssumes, if_neg hAssumes]
    refine Procedure.fills_done fun decoded h => ?_
    cases h
    exact ⟨rfl, rfl⟩

/-- An extension behind the DOS header, and what it comes to. -/
theorem fills_extend_behind {stop : Nat} (hFilled : image.Reaches filled) (hBehind : 64 ≤ filled)
    (hStop : stop < addressSpace) (hBound : stop ≤ bufferBound options image.bytes) {α : Type}
    (result : HeaderBuffer → α) :
    (HeaderBuffer.extend ⟨(assumed options image.bytes).take filled, image.size⟩ stop >>=
      fun buffer => pure (result buffer)).Fills image filled (if stop ≤ filled then 0 else 1)
        (bufferBound options image.bytes) fun a reached =>
          reached = max filled stop ∧ image.Reaches reached ∧
            a = result ⟨(assumed options image.bytes).take reached, image.size⟩ := by
  have hAgree : (assumed options image.bytes).AgreeOn image.bytes filled stop :=
    agreeOn_assumed (.inr (.inl hBehind))
  refine Procedure.fills_bind _ 0
    (HeaderBuffer.fills_extend hFilled length_assumed hAgree hStop hBound) ?_
  rintro buffer reached ⟨hReach, rfl, rfl⟩
  refine Procedure.fills_done fun a h => ?_
  cases h
  exact ⟨rfl, hReach, rfl⟩

theorem fills_fillFile :
    (fillFile options image.size).Fills image 0 2 (bufferBound options image.bytes)
      fun found reached => reached = max 64 (signatureOffset options image.bytes + 24) ∧
        image.Reaches reached ∧
        found = (dosHeader options image.bytes,
          ⟨(assumed options image.bytes).take reached, image.size⟩) := by
  have hOffset := @signatureOffset_lt options image.bytes
  have hStop : signatureOffset options image.bytes + 24 ≤ bufferBound options image.bytes :=
    Nat.le_trans (Nat.le_add_right _ _) (Nat.le_max_right _ _)
  unfold fillFile
  refine Procedure.fills_bind 1 1 fills_fillDos ?_
  rintro buffer reached ⟨rfl, hReach, rfl⟩
  refine Procedure.fills_bind 0 1 (fills_decodeDos hReach) ?_
  rintro decoded reached ⟨rfl, rfl⟩
  dsimp only
  rw [dosHeader_peOffset hReach.2]
  refine (fills_extend_behind hReach (Nat.le_refl _) ?_ hStop _).mono (by split <;> decide)
  simp only [addressSpace]
  omega

theorem fills_decodeCoff (hDos : 64 ≤ image.bytes.length) (hFilled : image.Reaches filled)
    (hFile : signatureOffset options image.bytes + 24 ≤ filled) {bound : Nat} :
    (decodeCoff options (dosHeader options image.bytes)
      ⟨(assumed options image.bytes).take filled, image.size⟩).Fills image filled 0 bound
      fun coff reached => reached = filled ∧ coff = fileHeader options image.bytes ∧
        sectionCount options image.bytes ≤ options.maxSections := by
  have hWord : FixedWidth.width UInt32 = 4 := rfl
  have hCoff : FixedWidth.width CoffHeader = 20 := rfl
  have hReadSignature : FixedWidth.read ((assumed options image.bytes).take filled)
      (signatureOffset options image.bytes) = .ok (signature options image.bytes) :=
    read_take_assumed hFilled.2 (by omega) (Nat.le_refl _)
  have hReadCoff : FixedWidth.read ((assumed options image.bytes).take filled)
      (signatureOffset options image.bytes + FixedWidth.width UInt32) =
        .ok (fileHeader options image.bytes) :=
    read_take_assumed hFilled.2 (by omega) (Nat.le_add_right _ _)
  unfold decodeCoff
  dsimp only
  rw [dosHeader_peOffset hDos, hReadSignature, hReadCoff]
  refine Procedure.fills_guard fun _ => ?_
  refine Procedure.fills_bind 0 0 (Procedure.fills_lift _) ?_
  rintro coff reached ⟨rfl, hRead⟩
  obtain rfl := Except.ok.inj hRead
  refine Procedure.fills_bind 0 0 (Procedure.fills_log _) ?_
  rintro _ reached rfl
  rw [sectionCount_fileHeader]
  refine Procedure.fills_guard fun hLimit => Procedure.fills_done fun coff h => ?_
  cases h
  exact ⟨rfl, rfl, UInt16.not_lt.1 hLimit⟩

theorem fills_fillTable :
    (fillTable options image.size).Fills image 0 3 (bufferBound options image.bytes)
      fun found reached => 64 ≤ reached ∧ tableEnd options image.bytes ≤ reached ∧
        image.Reaches reached ∧
        found = (dosHeader options image.bytes, fileHeader options image.bytes,
          ⟨(assumed options image.bytes).take reached, image.size⟩) := by
  unfold fillTable
  refine Procedure.fills_bind 2 1 fills_fillFile ?_
  rintro _ reached ⟨rfl, hReach, rfl⟩
  have hDos : image.Reaches 64 := hReach.mono (Nat.le_max_left _ _)
  refine Procedure.fills_bind 0 1
    (fills_decodeCoff hDos.2 hReach (Nat.le_max_right _ _)) ?_
  rintro _ reached ⟨rfl, rfl, hLimit⟩
  rw [dosHeader_peOffset hDos.2, tableEnd_eq]
  refine ((fills_extend_behind hReach (Nat.le_max_left _ _) (Nat.lt_trans tableEnd_lt (by decide))
    (tableEnd_le_bufferBound hLimit) _).mono (by split <;> decide)).imp ?_
  rintro _ reached ⟨rfl, hReach', rfl⟩
  exact ⟨Nat.le_trans (Nat.le_max_left _ _) (Nat.le_max_left _ _), Nat.le_max_right _ _, hReach',
    rfl⟩

theorem fills_fillOptional :
    (fillOptional options image.size).Fills image 0 (mostReads options image.bytes)
      (bufferBound options image.bytes) fun found reached =>
        image.Reaches reached ∧
        found = (dosHeader options image.bytes, fileHeader options image.bytes,
          ⟨(assumed options image.bytes).take reached, image.size⟩) := by
  have hOffset := @signatureOffset_lt options image.bytes
  have hEnd : CoffHeader.optionalEnd (signatureOffset options image.bytes) =
    signatureOffset options image.bytes + 264 := rfl
  have hStop : signatureOffset options image.bytes + 264 ≤ bufferBound options image.bytes := by
    simp only [bufferBound]
    omega
  have hMost : mostReads options image.bytes =
      3 + if signatureOffset options image.bytes + 264 ≤ tableEnd options image.bytes then 0
        else 1 := by
    unfold mostReads
    split <;> rfl
  unfold fillOptional
  rw [hMost]
  refine Procedure.fills_bind 3 _ fills_fillTable ?_
  rintro _ reached ⟨hDos, hTable, hReach, rfl⟩
  dsimp only
  rw [dosHeader_peOffset (hReach.mono hDos).2, hEnd]
  refine ((fills_extend_behind hReach hDos ?_ (Nat.le_trans (Nat.min_le_left _ _) hStop)
    _).mono ?_).imp fun _ _ h => h.2
  · simp only [addressSpace]
    omega
  · split <;> split <;> omega

theorem fills_decodeRest (dos : DosHeader) (coff : CoffHeader) (buffer : HeaderBuffer)
    {bound : Nat} :
    (decodeRest dos coff buffer).Fills image filled 0 bound fun _ _ => True := by
  unfold decodeRest
  refine Procedure.fills_bind 0 0 (Procedure.fills_lift _) ?_
  rintro decoded reached ⟨rfl, -⟩
  refine Procedure.fills_bind 0 0 (Procedure.fills_log _) ?_
  rintro _ reached rfl
  refine Procedure.fills_bind 0 0 (Procedure.fills_lift _) ?_
  rintro sections reached ⟨rfl, -⟩
  refine Procedure.fills_bind 0 0 (Procedure.fills_log _) ?_
  rintro _ reached rfl
  exact Procedure.fills_done fun _ _ => trivial

/-- The requests for the headers of an image in memory. -/
theorem requests_read (options : Options) (image : SizedImage) (position : Nat) :
    ∃ reads reached, ((read options).run ⟨image, position⟩).requests = .size :: reads ∧
      Consecutive 0 reads reached ∧ reached ≤ image.size ∧
      reached ≤ bufferBound options image.bytes ∧
      reads.length ≤ mostReads options image.bytes := by
  have hFills : (fillOptional options image.size >>= fun found =>
      decodeRest found.1 found.2.1 found.2.2).Fills image 0 _ (bufferBound options image.bytes)
        fun _ _ => True :=
    Procedure.fills_bind _ 0 fills_fillOptional fun _ _ _ => fills_decodeRest _ _ _
  obtain ⟨reached, hConsecutive, hMost, hReached, -⟩ := hFills position
  rw [Nat.zero_max] at hReached
  rw [read_eq]
  exact ⟨_, reached, rfl, hConsecutive, Nat.le_trans hReached (Nat.min_le_left _ _),
    Nat.le_trans hReached (Nat.min_le_right _ _), hMost⟩

/-! ## What the buffer holds -/

/-- The buffer holds the front of the data, as far as the source goes at most, and within the
bound. -/
structure HoldsFront (options : Options) (image : SizedImage) (data : Bytes)
    (buffer : HeaderBuffer) : Prop where
  bytes : buffer.bytes = data.take buffer.bytes.length
  within_size : buffer.bytes.length ≤ image.size
  within_bound : buffer.bytes.length ≤ bufferBound options image.bytes

theorem holdsFront_take {data : Bytes} {reached : Nat} (hLength : data.length = image.bytes.length)
    (hReach : image.Reaches reached)
    (hReached : reached ≤ max 0 (min image.size (bufferBound options image.bytes))) :
    HoldsFront options image data ⟨data.take reached, image.size⟩ := by
  have hTaken : (data.take reached).length = reached := by
    rw [List.length_take, hLength]
    exact Nat.min_eq_left hReach.2
  have hBounds := Nat.le_min.1 (Nat.zero_max _ ▸ hReached)
  constructor
  case bytes => rw [hTaken]
  case within_size => rw [hTaken]; exact hBounds.1
  case within_bound => rw [hTaken]; exact hBounds.2

/-- After each of the four extensions, the buffer holds the front of the image. After the first one
no offset has been put in yet. -/
structure BuffersHold {σ : Type} [Source σ] (options : Options) (image : SizedImage)
    (cursor : Cursor σ) : Prop where
  dos : ∀ buffer, ((Procedure.sourceSize >>= fillDos).run cursor).outcome = .ok buffer →
    HoldsFront options image image.bytes buffer
  file : ∀ dos buffer,
    ((Procedure.sourceSize >>= fillFile options).run cursor).outcome = .ok (dos, buffer) →
      HoldsFront options image (assumed options image.bytes) buffer
  table : ∀ dos coff buffer,
    ((Procedure.sourceSize >>= fillTable options).run cursor).outcome = .ok (dos, coff, buffer) →
      HoldsFront options image (assumed options image.bytes) buffer
  optional : ∀ dos coff buffer,
    ((Procedure.sourceSize >>= fillOptional options).run cursor).outcome =
      .ok (dos, coff, buffer) → HoldsFront options image (assumed options image.bytes) buffer

theorem readsNonempty_decodeDos (options : Options) (buffer : HeaderBuffer) :
    (decodeDos options buffer).ReadsNonempty := by
  refine Procedure.readsNonempty_bind (Procedure.readsNonempty_lift _) fun dos => ?_
  split
  · trivial
  · split <;> trivial

theorem readsNonempty_decodeCoff (options : Options) (dos : DosHeader) (buffer : HeaderBuffer) :
    (decodeCoff options dos buffer).ReadsNonempty := by
  refine Procedure.readsNonempty_bind (Procedure.readsNonempty_lift _) fun signature => ?_
  split
  · trivial
  refine Procedure.readsNonempty_bind (Procedure.readsNonempty_lift _) fun coff => ?_
  refine Procedure.readsNonempty_bind trivial fun _ => ?_
  split <;> trivial

theorem readsNonempty_fillFile (options : Options) (limit : Nat) :
    (fillFile options limit).ReadsNonempty := by
  refine Procedure.readsNonempty_bind (HeaderBuffer.readsNonempty_extend _ _) fun _ => ?_
  refine Procedure.readsNonempty_bind (readsNonempty_decodeDos _ _) fun _ => ?_
  exact Procedure.readsNonempty_bind (HeaderBuffer.readsNonempty_extend _ _) fun _ => trivial

theorem readsNonempty_fillTable (options : Options) (limit : Nat) :
    (fillTable options limit).ReadsNonempty := by
  refine Procedure.readsNonempty_bind (readsNonempty_fillFile _ _) fun _ => ?_
  refine Procedure.readsNonempty_bind (readsNonempty_decodeCoff _ _ _) fun _ => ?_
  exact Procedure.readsNonempty_bind (HeaderBuffer.readsNonempty_extend _ _) fun _ => trivial

theorem readsNonempty_fillOptional (options : Options) (limit : Nat) :
    (fillOptional options limit).ReadsNonempty := by
  refine Procedure.readsNonempty_bind (readsNonempty_fillTable _ _) fun _ => ?_
  exact Procedure.readsNonempty_bind (HeaderBuffer.readsNonempty_extend _ _) fun _ => trivial

section Truthful

variable {σ : Type} [Source σ] {members : σ → Prop} {source : σ}
variable (h : Source.Truthful image members) (hSource : members source) (position : Nat)
include h hSource

/-- What a stage behind the size request makes of a truthful source, it makes of the image. -/
theorem post_of_truthful {α : Type} {stage : Nat → Procedure α} {most bound : Nat}
    {post : α → Nat → Prop} (hReads : ∀ limit, (stage limit).ReadsNonempty)
    (hFills : (stage image.size).Fills image 0 most bound post) {a : α}
    (hOutcome : ((Procedure.sourceSize >>= stage).run ⟨source, position⟩).outcome = .ok a) :
    ∃ reached ≤ max 0 (min image.size bound), post a reached := by
  obtain ⟨-, -, hSame⟩ := (Procedure.sourceSize >>= stage).run_truthful h
    (Procedure.readsNonempty_bind (fun _ => trivial) hReads) hSource position
  obtain ⟨reached, -, -, hReached, hPost⟩ := hFills position
  exact ⟨reached, hReached, hPost a (hSame a hOutcome)⟩

theorem buffersHold (options : Options) : BuffersHold options image ⟨source, position⟩ := by
  constructor
  case dos =>
    intro buffer hOutcome
    obtain ⟨reached, hReached, rfl, hReach, rfl⟩ := post_of_truthful h hSource position
      (fun _ => HeaderBuffer.readsNonempty_extend _ _) (@fills_fillDos options image) hOutcome
    exact holdsFront_take rfl hReach hReached
  case file =>
    intro dos buffer hOutcome
    obtain ⟨reached, hReached, rfl, hReach, hFound⟩ := post_of_truthful h hSource position
      (readsNonempty_fillFile options) fills_fillFile hOutcome
    cases hFound
    exact holdsFront_take length_assumed hReach hReached
  case table =>
    intro dos coff buffer hOutcome
    obtain ⟨reached, hReached, -, -, hReach, hFound⟩ := post_of_truthful h hSource position
      (readsNonempty_fillTable options) fills_fillTable hOutcome
    cases hFound
    exact holdsFront_take length_assumed hReach hReached
  case optional =>
    intro dos coff buffer hOutcome
    obtain ⟨reached, hReached, hReach, hFound⟩ := post_of_truthful h hSource position
      (readsNonempty_fillOptional options) fills_fillOptional hOutcome
    cases hFound
    exact holdsFront_take length_assumed hReach hReached

end Truthful

end Headers

end ManagedImage
