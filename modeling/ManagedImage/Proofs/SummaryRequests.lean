import ManagedImage.Proofs.HeaderRequests
import ManagedImage.Proofs.StreamSoundness

/-!
# What the read of a summary asks of its source

The read of a summary asks for the size, then for the front of the image up to the end of its
headers, and then, if these lead to a runtime header, for the fields of it. This holds of every
source that tells the truth if it answers at all, whatever size it reports and whenever it fails.

* `RuntimeHeader.inTurn_read`: the six fields of the runtime header are read in turn.
* `Summary.FindsRuntime`: the headers that were read lead to a runtime header.
* `Summary.Inquiry`: the requests of one read, in their order. `Summary.inquires`: every source
  that tells the truth sees such an inquiry.
* `Summary.asks_in_order`: images in memory and streams are such sources.
-/

namespace ManagedImage

open Layout

/-! ## The runtime header -/

theorem RuntimeHeader.inTurn_read {β σ : Type} [Source σ] {next : RuntimeHeader → Procedure β}
    {offset : Nat} (hSpace : offset + 20 < addressSpace)
    (hNext : ∀ header (cursor : Cursor σ), ((next header).run cursor).exchanges = [])
    (source : σ) :
    InTurn offset [4, 2, 2, 4, 4, 4] ((read >>= next).run ⟨source, offset⟩).exchanges := by
  have h16 : FixedWidth.width UInt16 = 2 := rfl
  have h32 : FixedWidth.width UInt32 = 4 := rfl
  unfold read
  simp only [bind_assoc, pure_bind]
  refine Procedure.inTurn_value (α := UInt32) (by omega) (fun _ source => ?_) source
  refine Procedure.inTurn_value (α := UInt16) (by omega) (fun _ source => ?_) source
  refine Procedure.inTurn_value (α := UInt16) (by omega) (fun _ source => ?_) source
  refine Procedure.inTurn_value (α := UInt32) (by omega) (fun _ source => ?_) source
  refine Procedure.inTurn_value (α := UInt32) (by omega) (fun _ source => ?_) source
  refine Procedure.inTurn_value (α := UInt32) (by omega) (fun _ source => ?_) source
  rw [hNext]
  exact .done

namespace Summary

/-! ## Behind the headers -/

/-- The rest of the read, once there are headers. -/
def readBehind (options : Options) (headers : Headers) : Procedure Summary :=
  match headers.runtimeDirectory? with
  | none => do
    Procedure.log [.noRuntimeHeader headers.optional.directoryCount]
    Procedure.fail .notManaged
  | some directory => do
    let offset ← headers.offsetOf directory.rva
    Procedure.log [.runtimeHeaderFound directory offset]
    let runtime ← readRuntime options offset
    Procedure.log [.runtimeHeaderRead runtime.version runtime.flags.bits]
    return ofHeaders headers runtime

theorem read_eq_bind (options : Options) :
    read options = Headers.read options >>= readBehind options := rfl

/-- The headers have a directory of the runtime header in use, which lies at the offset. -/
def LeadsTo (headers : Headers) (offset : Nat) : Prop :=
  ∃ directory, headers.runtimeDirectory? = some directory ∧
    headers.offsetOf directory.rva = .ok offset

variable {σ : Type} [Source σ] {options : Options} {headers : Headers} {offset : Nat}

/-- The check and the record of a runtime header ask for nothing. -/
theorem exchanges_behindRuntime (runtime : RuntimeHeader) (cursor : Cursor σ) :
    (((if options.strictRuntimeHeader then do
        runtime.check
        return runtime
      else return runtime : Procedure RuntimeHeader) >>= fun runtime => do
        Procedure.log [.runtimeHeaderRead runtime.version runtime.flags.bits]
        return ofHeaders headers runtime).run cursor).exchanges = [] := by
  split
  · cases runtime.check <;> rfl
  · rfl

theorem inTurn_readBehind (h : LeadsTo headers offset) (cursor : Cursor σ) :
    InTurn offset [4, 2, 2, 4, 4, 4] ((readBehind options headers).run cursor).exchanges := by
  obtain ⟨directory, hDirectory, hOffset⟩ := h
  have hBound := Placement.lt_of_offsetOf hOffset
  have hSpace : offset + 20 < addressSpace := by
    simp only [addressSpace]
    omega
  unfold readBehind
  rw [hDirectory]
  dsimp only
  rw [hOffset]
  unfold readRuntime
  simp only [bind_assoc]
  exact RuntimeHeader.inTurn_read hSpace exchanges_behindRuntime cursor.source

theorem exchanges_readBehind (h : ∀ offset, ¬ LeadsTo headers offset) (cursor : Cursor σ) :
    ((readBehind options headers).run cursor).exchanges = [] := by
  unfold readBehind
  cases hDirectory : headers.runtimeDirectory? with
  | none => rfl
  | some directory =>
    cases hOffset : headers.offsetOf directory.rva with
    | error e =>
      dsimp only
      rw [hOffset]
      rfl
    | ok offset => exact absurd ⟨directory, hDirectory, hOffset⟩ (h offset)

/-! ## The whole read -/

/-- The headers that are read from the source lead to a runtime header at the offset. -/
def FindsRuntime (options : Options) (cursor : Cursor σ) (offset : Nat) : Prop :=
  ∃ headers, ((Headers.read options).run cursor).outcome = .ok headers ∧ LeadsTo headers offset

/-- One read of a summary asks for the size, then for the `headers` and then for the fields of a
`runtime` header. -/
structure Inquiry (options : Options) (image : SizedImage) (cursor : Cursor σ)
    (answer : Except Error Nat) (headers runtime : List Exchange) : Prop where
  exchanges : ((read options).run cursor).exchanges = .size answer :: (headers ++ runtime)
  size : ∀ n, answer = .ok n → n = image.size
  /-- The front of the image is read from its start on, nothing of it twice, and not beyond what the
  options let the headers take up. -/
  front : ∃ stop ≤ Headers.bufferBound options image.bytes,
    Consecutive 0 (headers.map Exchange.request) stop
  within_size : ∀ offset count, .read offset count ∈ headers.map Exchange.request →
    offset + count ≤ image.size
  headers_le : headers.length ≤ 4
  fields : ∀ offset, FindsRuntime options cursor offset →
    InTurn offset [4, 2, 2, 4, 4, 4] runtime ∧ headers.length ≤ 3
  no_fields : (∀ offset, ¬ FindsRuntime options cursor offset) → runtime = []
  stops : ((read options).run cursor).exchanges.Pairwise fun earlier _ => ¬ earlier.Failed
  buffers : Headers.BuffersHold options image cursor

section Truthful

variable {image : SizedImage} {members : σ → Prop} {source : σ}
variable (h : Source.Truthful image members) (hSource : members source) (position : Nat)
include h hSource

/-- The requests for the headers: the size, and then consecutive reads. -/
theorem front_of_truthful (options : Options) :
    ∃ answer reads reached,
      ((Headers.read options).run ⟨source, position⟩).exchanges = .size answer :: reads ∧
        (∀ n, answer = .ok n → n = image.size) ∧
        Consecutive 0 (reads.map Exchange.request) reached ∧ reached ≤ image.size ∧
        reached ≤ Headers.bufferBound options image.bytes ∧
        reads.length ≤ Headers.mostReads options image.bytes := by
  obtain ⟨reads, stop, hReads, hConsecutive, hSize, hBound, hMost⟩ :=
    Headers.requests_read options image position
  obtain ⟨hRequests, -⟩ := (Headers.read options).run_truthful h
    (Headers.readsNonempty_read options) hSource position
  obtain ⟨rest, hRest⟩ := Headers.exchanges_read options (⟨source, position⟩ : Cursor σ)
  rw [hReads, Run.requests, hRest] at hRequests
  obtain ⟨-, hFirst⟩ := List.cons_prefix_cons.1 hRequests
  obtain ⟨reached, hReached, hConsecutive'⟩ := hConsecutive.of_start hFirst
  have hLength := hFirst.length_le
  rw [List.length_map] at hLength
  exact ⟨_, rest, reached, hRest, fun n hAnswer => (h.size hSource).1 hAnswer, hConsecutive',
    Nat.le_trans hReached hSize, Nat.le_trans hReached hBound, Nat.le_trans hLength hMost⟩

/-- Headers that lead to a runtime header are well-formed, and lead to it by the layout of the
image. -/
theorem layout_of_finds {offset : Nat} (hFinds : FindsRuntime options ⟨source, position⟩ offset) :
    WellFormed options image.bytes ∧ HasRuntimeDirectory options image.bytes ∧
      runtimeOffset options image.bytes = .ok offset := by
  obtain ⟨headers, hOutcome, directory, hDirectory, hOffset⟩ := hFinds
  obtain ⟨-, -, hSame⟩ := (Headers.read options).run_truthful h
    (Headers.readsNonempty_read options) hSource position
  have hHeaders : Headers.ofImage options image = .ok headers :=
    (Headers.yields_read position).symm.trans (hSame headers hOutcome)
  obtain ⟨hWell, -, -, rfl⟩ := Headers.ofImage_eq_ok_iff.1 hHeaders
  rw [Headers.runtimeDirectory?_standing] at hDirectory
  split at hDirectory
  · rename_i hHas
    cases hDirectory
    rw [Headers.offsetOf_standing] at hOffset
    exact ⟨hWell, hHas, hOffset⟩
  · cases hDirectory

/-- Where the headers lead to a runtime header, the section table ends behind the largest optional
header, so its end was the last thing asked for. -/
theorem mostReads_of_finds {offset : Nat}
    (hFinds : FindsRuntime options ⟨source, position⟩ offset) :
    Headers.mostReads options image.bytes = 3 := by
  obtain ⟨hWell, hHas, hOffset⟩ := layout_of_finds h hSource position hFinds
  exact if_pos (optionalEnd_le_tableEnd hWell.toFramed hHas hOffset)

theorem inquires (options : Options) :
    ∃ answer headers runtime,
      Inquiry options image ⟨source, position⟩ answer headers runtime := by
  obtain ⟨answer, reads, reached, hExchanges, hAnswer, hConsecutive, hSize, hBound, hMost⟩ :=
    front_of_truthful h hSource position options
  have hRead := (Headers.read options).exchanges_bind (readBehind options)
    (⟨source, position⟩ : Cursor σ)
  rw [← read_eq_bind, hExchanges] at hRead
  refine ⟨answer, reads, _, hRead, hAnswer, ⟨reached, hBound, hConsecutive⟩, ?within,
    Nat.le_trans hMost Headers.mostReads_le, ?fields, ?none, (read options).run_stops _,
    Headers.buffersHold h hSource position options⟩
  case within =>
    intro offset count hMem
    exact Nat.le_trans (hConsecutive.end_le hMem) hSize
  case fields =>
    intro offset hFinds
    rw [mostReads_of_finds h hSource position hFinds] at hMost
    obtain ⟨headers, hOutcome, hLeads⟩ := hFinds
    rw [hOutcome]
    exact ⟨inTurn_readBehind hLeads _, hMost⟩
  case none =>
    intro hNone
    cases hOutcome : ((Headers.read options).run ⟨source, position⟩).outcome with
    | error e => rfl
    | ok headers =>
      exact exchanges_readBehind (fun offset hLeads => hNone offset ⟨headers, hOutcome, hLeads⟩) _

end Truthful

/-- One read asks for the size first, then reads the front of the image piece by piece, and then
the fields of the runtime header where the headers lead to one. The image is in memory, or behind a
stream with any script, position and past. -/
theorem asks_in_order (options : Options) (position : Nat) :
    (∀ image : Bytes, ∃ answer headers runtime,
      Inquiry options (.ofBytes image) ⟨image, position⟩ answer headers runtime) ∧
    ∀ stream : Stream, ∃ answer headers runtime,
      Inquiry options stream.sized ⟨stream, position⟩ answer headers runtime :=
  ⟨fun image => inquires (Source.truthful_bytes image) rfl position options,
    fun stream => inquires stream.truthful rfl position options⟩

example : ((read .strict).run (Cursor.start specimen)).requests =
    [.size, .read 0 64, .read 64 24, .read 88 256, .read 344 4, .read 348 2, .read 350 2,
      .read 352 4, .read 356 4, .read 360 4] := by
  decide +kernel

end Summary

end ManagedImage
