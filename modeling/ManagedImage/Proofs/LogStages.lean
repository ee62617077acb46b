import ManagedImage.Proofs.HeaderRequests

/-!
# The stages of the log

A read writes its records in stages. A stage is written as a whole and after all stages before it,
so the log of a read that was given up is a first part of the log of one that was not.

* `Procedure.Silent`: a procedure that writes nothing, whatever it is answered.
* `Procedure.Writes`: over an image, a procedure writes stages from the first one on, and all of
  them if it ends well. It is closed under sequencing (`Procedure.writes_bind`).
* `Headers.stages`: the stages of the read of the headers, each with its records.
  `Headers.writes_read`: the read writes them.
-/

namespace ManagedImage

open FixedWidth (valueAt)
open Layout

/-! ## Writing in stages -/

namespace Procedure

variable {α β : Type}

/-- Whatever it is answered, the procedure writes no records. -/
def Silent : Procedure α → Prop
  | done _ => True
  | size next => ∀ n, (next n).Silent
  | read _ next => ∀ bytes, (next bytes).Silent
  | seek _ next => next.Silent
  | advance _ next => next.Silent
  | note _ _ => False

theorem silent_bind {p : Procedure α} {next : α → Procedure β} (h : p.Silent)
    (hNext : ∀ a, (next a).Silent) : (p >>= next).Silent := by
  rw [bind_def]
  induction p with
  | done outcome =>
    cases outcome with
    | error e => trivial
    | ok a => exact hNext a
  | size more ih => exact fun n => ih n (h n)
  | read count more ih => exact fun bytes => ih bytes (h bytes)
  | seek position more ih => exact ih h
  | advance step more ih => exact ih h
  | note records more ih => exact h.elim

theorem silent_take (count : Nat) : (take count).Silent := fun _ => trivial

theorem silent_value (α : Type) [FixedWidth α] : (value α).Silent :=
  silent_bind (silent_take _) fun _ => trivial

theorem Silent.records {σ : Type} [Source σ] {p : Procedure α} (h : p.Silent)
    (cursor : Cursor σ) : (p.run cursor).records = [] := by
  induction p generalizing cursor with
  | done outcome => rfl
  | size next ih =>
    simp only [run]
    split
    · exact ih _ (h _) _
    · rfl
  | read count next ih =>
    simp only [run]
    split
    · exact ih _ (h _) _
    · rfl
  | seek position next ih => exact ih h _
  | advance step next ih =>
    rw [run]
    split
    · exact ih h _
    · rfl
  | note records next ih => exact h.elim

variable {image : SizedImage} {first more : List (List Record)} {post : α → Prop}

/-- Over the image, the procedure writes stages of these from the first one on. If it ends well it
has written all of them, and `post` holds of the result. -/
def Writes (p : Procedure α) (image : SizedImage) (stages : List (List Record))
    (post : α → Prop) : Prop :=
  ∀ position, ∃ written, written <+: stages ∧
    (p.run ⟨image, position⟩).records = written.flatten ∧
    ∀ a, (p.run ⟨image, position⟩).outcome = .ok a → written = stages ∧ post a

/-- What is known of the outcome is known of the result. -/
theorem Writes.of_yields {p : Procedure α} {x : Except Error α} (h : p.Writes image first post)
    (hYields : p.Yields image x) : p.Writes image first fun a => x = .ok a := by
  intro position
  obtain ⟨written, hWritten, hRecords, hResult⟩ := h position
  exact ⟨written, hWritten, hRecords,
    fun a h => ⟨(hResult a h).1, (hYields position).symm.trans h⟩⟩

theorem Silent.writes {p : Procedure α} (h : p.Silent) : p.Writes image [] fun _ => True :=
  fun _ => ⟨[], List.nil_prefix, h.records _, fun _ _ => ⟨rfl, trivial⟩⟩

theorem Silent.writes_of_fills {p : Procedure α} {filled most bound : Nat}
    {post : α → Nat → Prop} (h : p.Silent) (hFills : p.Fills image filled most bound post) :
    p.Writes image [] fun a => ∃ reached, post a reached := by
  intro position
  obtain ⟨reached, -, -, -, hPost⟩ := hFills position
  exact ⟨[], List.nil_prefix, h.records _, fun a h => ⟨rfl, reached, hPost a h⟩⟩

theorem writes_done {x : Except Error α} (h : ∀ a, x = .ok a → post a) :
    (done x).Writes image [] post :=
  fun _ => ⟨[], List.nil_prefix, rfl, fun a hOk => ⟨rfl, h a hOk⟩⟩

theorem writes_lift (x : Except Error α) :
    (liftM x : Procedure α).Writes image [] fun a => x = .ok a := writes_done fun _ h => h

theorem writes_log (records : List Record) :
    (log records).Writes image [records] fun _ => True := by
  intro position
  refine ⟨[records], List.prefix_rfl, ?_, fun _ _ => ⟨rfl, trivial⟩⟩
  show records ++ [] = [records].flatten
  rw [List.append_nil, List.flatten_singleton]

theorem writes_bind {p : Procedure α} {next : α → Procedure β} {post' : β → Prop}
    (hFirst : p.Writes image first post) (hNext : ∀ a, post a → (next a).Writes image more post') :
    (p >>= next).Writes image (first ++ more) post' := by
  intro position
  obtain ⟨written, hWritten, hRecords, hResult⟩ := hFirst position
  have hSource := source_run p ⟨image, position⟩
  rw [bind_def, run_bind, followedBy]
  cases hOutcome : (p.run ⟨image, position⟩).outcome with
  | error e =>
    refine ⟨written, hWritten.trans (List.prefix_append _ _), hRecords, fun b h => ?_⟩
    cases h
  | ok a =>
    obtain ⟨rfl, hPost⟩ := hResult a hOutcome
    cases hCursor : (p.run ⟨image, position⟩).cursor with
    | mk source position' =>
      rw [hCursor] at hSource
      obtain rfl : source = image := hSource
      obtain ⟨written', hWritten', hRecords', hResult'⟩ := hNext a hPost position'
      refine ⟨written ++ written', (List.prefix_append_right_inj _).2 hWritten', ?_, ?_⟩
      · rw [List.flatten_append, ← hRecords, ← hRecords']
        rfl
      · intro b h
        obtain ⟨rfl, hPost'⟩ := hResult' b h
        exact ⟨rfl, hPost'⟩

/-- A stage that first refuses some images. -/
theorem writes_guard {P : Prop} [Decidable P] {p : Procedure α} {e : Error}
    (h : ¬ P → p.Writes image first post) :
    (if P then fail e else p).Writes image first post := by
  by_cases hP : P
  · rw [if_pos hP]
    refine fun _ => ⟨[], List.nil_prefix, rfl, fun a h => ?_⟩
    cases h
  · rw [if_neg hP]
    exact h hP

end Procedure

open Procedure (writes_bind writes_guard writes_log writes_done writes_lift)

theorem HeaderBuffer.silent_extend (buffer : HeaderBuffer) (stop : Nat) :
    (buffer.extend stop).Silent := by
  unfold extend
  split
  · trivial
  split
  · trivial
  exact fun _ => trivial

/-! ## The stages of the headers -/

namespace Headers

section Definitions

variable (options : Options) (image : SizedImage)

/-- The image starts with a DOS header in which no offset is written down, and the usual one is to
be taken. -/
def AnnouncesOffset : Prop :=
  image.Reaches 64 ∧ valueAt UInt16 image.bytes 0 = DosHeader.magic ∧
    AssumesOffset options image.bytes

instance : Decidable (AnnouncesOffset options image) := inferInstanceAs (Decidable (_ ∧ _))

/-- The section that an entry of the section table describes. -/
def sectionAt (index : Nat) : Section :=
  .describedBy (front options image) (fileHeader options image.bytes).stringTable
    (entry options image.bytes index)

/-- A record for each section, in the order of the table. -/
def sectionRecords : List Record :=
  (List.range (sectionCount options image.bytes).toNat).map fun index =>
    .sectionRead index (sectionAt options image index)

/-- The stages of the DOS header: that an offset is assumed is written only if it is. -/
def dosStages : List (List Record) :=
  if AnnouncesOffset options image then [[.zeroOffset]] else []

/-- The stages of all headers. -/
def stages : List (List Record) :=
  dosStages options image ++
    [[.fileHeader (signatureOffset options image.bytes) (machine options image.bytes)
        (sectionCount options image.bytes)],
      [.optionalHeader (Layout.format options image.bytes) (directoryCount options image.bytes)],
      sectionRecords options image]

end Definitions

variable {options : Options} {image : SizedImage}

theorem writes_decodeDos (hReach : image.Reaches 64) :
    (decodeDos options ⟨image.bytes.take 64, image.size⟩).Writes image (dosStages options image)
      fun _ => True := by
  have hSignature := DosHeader.signature_valueAt image.bytes 0
  have hStored : (valueAt DosHeader image.bytes 0).peOffset = storedOffset image.bytes :=
    DosHeader.peOffset_valueAt _ _
  unfold decodeDos
  rw [read_dosHeader hReach]
  refine writes_guard fun hMagic => ?_
  rw [hSignature, Decidable.not_not] at hMagic
  unfold dosStages
  by_cases hAssumes : AssumesOffset options image.bytes
  · have hAnnounces : AnnouncesOffset options image := ⟨hReach, hMagic, hAssumes⟩
    rw [if_pos (by rw [hStored]; exact hAssumes), if_pos hAnnounces]
    exact writes_bind (writes_log _) fun _ _ => writes_done fun _ _ => trivial
  · have hAnnounces : ¬ AnnouncesOffset options image := fun h => hAssumes h.2.2
    rw [if_neg (by rw [hStored]; exact hAssumes), if_neg hAnnounces]
    exact writes_done fun _ _ => trivial

theorem writes_readDos :
    (readDos options).Writes image (dosStages options image) fun _ => True := by
  have hSize : Procedure.sourceSize.Silent := fun _ => trivial
  rw [readDos_eq]
  refine writes_bind (hSize.writes.of_yields Procedure.yields_sourceSize) fun limit hLimit => ?_
  obtain rfl := Except.ok.inj hLimit
  refine writes_bind ((HeaderBuffer.silent_extend _ _).writes_of_fills
    (@fills_fillDos options image)) fun buffer hBuffer => ?_
  obtain ⟨reached, -, hReach, rfl⟩ := hBuffer
  exact writes_decodeDos hReach

theorem writes_decodeCoff (hDos : 64 ≤ image.bytes.length) {filled : Nat}
    (hFilled : image.Reaches filled) (hFile : signatureOffset options image.bytes + 24 ≤ filled) :
    (decodeCoff options (dosHeader options image.bytes)
        ⟨(assumed options image.bytes).take filled, image.size⟩).Writes image
      [[.fileHeader (signatureOffset options image.bytes) (machine options image.bytes)
        (sectionCount options image.bytes)]] fun _ => True := by
  have hWord : FixedWidth.width UInt32 = 4 := rfl
  have hCoff : FixedWidth.width CoffHeader = 20 := rfl
  have hReadSignature : FixedWidth.read ((assumed options image.bytes).take filled)
      (signatureOffset options image.bytes) = .ok (signature options image.bytes) :=
    read_take_assumed hFilled.2 (by omega) (Nat.le_refl _)
  have hReadCoff : FixedWidth.read ((assumed options image.bytes).take filled)
      (signatureOffset options image.bytes + FixedWidth.width UInt32) =
        .ok (fileHeader options image.bytes) :=
    read_take_assumed hFilled.2 (by omega) (Nat.le_add_right _ _)
  have hMachine : (fileHeader options image.bytes).machine = machine options image.bytes := by
    rw [fileHeader_eq]
  unfold decodeCoff
  dsimp only
  rw [dosHeader_peOffset hDos, hReadSignature, hReadCoff]
  refine writes_guard fun _ => ?_
  refine writes_bind (writes_lift _) fun coff hRead => ?_
  obtain rfl := Except.ok.inj hRead
  rw [sectionCount_fileHeader, hMachine]
  refine writes_bind (writes_log _) fun _ _ => ?_
  exact writes_guard fun _ => writes_done fun _ _ => trivial

theorem writes_readCoff (hReach : image.Reaches 64) :
    (readCoff options (dosHeader options image.bytes)
        ⟨(assumed options image.bytes).take 64, image.size⟩).Writes image
      [[.fileHeader (signatureOffset options image.bytes) (machine options image.bytes)
        (sectionCount options image.bytes)]] fun _ => True := by
  have hOffset := @signatureOffset_lt options image.bytes
  have hSpace : signatureOffset options image.bytes + 24 < addressSpace := by
    simp only [addressSpace]
    omega
  have hAgree : (assumed options image.bytes).AgreeOn image.bytes 64
      (signatureOffset options image.bytes + 24) := agreeOn_assumed (.inr (.inl (Nat.le_refl _)))
  rw [readCoff_eq, dosHeader_peOffset hReach.2]
  refine writes_bind ((HeaderBuffer.silent_extend _ _).writes_of_fills
    (HeaderBuffer.fills_extend hReach length_assumed hAgree hSpace (Nat.le_refl _)))
      fun buffer hBuffer => ?_
  obtain ⟨reached, hReached, rfl, rfl⟩ := hBuffer
  refine writes_bind (writes_decodeCoff hReach.2 hReached (Nat.le_max_right _ _)) fun coff _ => ?_
  refine (Procedure.silent_bind (HeaderBuffer.silent_extend _ _) fun _ => ?_).writes
  exact Procedure.silent_bind (HeaderBuffer.silent_extend _ _) fun _ => trivial

theorem mapIdx_standing :
    (standing options image).sections.mapIdx .sectionRead = sectionRecords options image := by
  have hSections : (standing options image).sections =
      (List.range (sectionCount options image.bytes).toNat).map (sectionAt options image) := by
    show (entriesOf options image.bytes).map _ = _
    rw [entriesOf, List.map_map]
    rfl
  rw [hSections]
  apply List.ext_getElem?
  intro index
  rw [List.getElem?_mapIdx, sectionRecords, List.getElem?_map, List.getElem?_map]
  by_cases hIndex : index < (sectionCount options image.bytes).toNat
  · rw [List.getElem?_range hIndex]
    rfl
  · rw [List.getElem?_eq_none (by rw [List.length_range]; omega)]
    rfl

theorem writes_read :
    (read options).Writes image (stages options image) (· = standing options image) := by
  refine writes_bind (writes_readDos.of_yields yields_readDos) fun found hFound => ?_
  obtain ⟨_, hDos, rfl⟩ := map_eq_ok_iff.1 hFound
  obtain ⟨hReach, -⟩ := checkDos_eq_ok_iff.1 hDos
  refine writes_bind ((writes_readCoff hReach).of_yields (yields_readCoff hReach))
    fun found hFound => ?_
  obtain ⟨_, hCoff, rfl⟩ := map_eq_ok_iff.1 hFound
  obtain ⟨hFile, -, -, hTable, hRest⟩ := checkCoff_eq_ok_iff.1 hCoff
  have hFront : frontEnd options image ≤ image.bytes.length :=
    (((hReach.max hFile).max hTable).max hRest).2
  dsimp only
  rw [dosHeader_peOffset hReach.2]
  refine writes_bind (writes_lift _) fun decoded hDecoded => ?_
  obtain ⟨optional, directories⟩ := decoded
  obtain ⟨-, -, -, -, rfl, rfl⟩ := (decodeOptional_front hFront).1 hDecoded
  dsimp only
  rw [optionalHeader_format, optionalHeader_directoryCount]
  refine writes_bind (writes_log _) fun _ _ => ?_
  refine writes_bind (writes_lift _) fun sections hSections => ?_
  rw [decodeSections_front hFront] at hSections
  obtain ⟨_, -, rfl⟩ := map_eq_ok_iff.1 hSections
  rw [mapIdx_standing]
  refine writes_bind (writes_log _) fun _ _ => ?_
  refine writes_done fun headers h => ?_
  cases h
  rfl

end Headers

end ManagedImage
