import ManagedImage.Proofs.Agreement

/-!
# Edits of single fields

A summary shows the machine of the file header and, of the runtime header, the version, the place of
the metadata and the flags. Each of these fields stands alone: what is written into it comes out
again, and nothing else changes. The size of the runtime header, where it is not checked, does not
show at all.

* `Layout.SameButMachine`: the headers of two images differ in the machine at most. Then the images
  have the same layout, since no stage that fixes it looks at the machine.
* `Summary.Edit` names the fields with the values written into them, where they stand, and what they
  change of a summary.
* `Summary.Edit.standing_write`: each field of a summary is read off its own bytes.
* `Summary.ManagedAt.write` and `Summary.ManagedAt.writes`: an edit keeps an image managed and its
  runtime header in place, and so does any row of edits.
* `Summary.edit_exact`: what one edit does to the summary and to all that follows from it.
-/

namespace ManagedImage

open FixedWidth (valueAt)
open Layout

namespace Layout

variable {options : Options} {image image' : Bytes}

/-- Up to the end of the section table, the images hold the same bytes apart from the machine. -/
structure SameButMachine (options : Options) (image image' : Bytes) : Prop where
  length_eq : image'.length = image.length
  before : image'.AgreeOn image 0 (signatureOffset options image + 4)
  behind : image'.AgreeOn image (signatureOffset options image + 6) (tableEnd options image)

namespace SameButMachine

variable (h : SameButMachine options image image')
include h

/-- The entries of the section table are the same. -/
theorem agreeOn_entry {index : Nat} (hIndex : index < (sectionCount options image).toNat) :
    image'.AgreeOn image (entryOffset options image index)
      (entryOffset options image index + 40) := by
  refine h.behind.mono ?_ (entryOffset_add_le hIndex)
  simp only [entryOffset, tableOffset]
  omega

theorem sameLayout (hFramed : Framed options image) : SameLayout options image image' := by
  have hBehind := hFramed.behind
  refine hFramed.sameLayout (h.before.mono (by omega) (by omega))
    (h.behind.mono (Nat.le_refl _) (Nat.le_add_right _ _)) fun index hIndex => ?_
  exact (h.agreeOn_entry hIndex).mono (by omega) (by omega)

theorem wellFormed (hWell : WellFormed options image) : WellFormed options image' := by
  have hSame := h.sameLayout hWell.toFramed
  have hStub : Headers.stub image' (signatureOffset options image) =
      Headers.stub image (signatureOffset options image) :=
    stub_eq_of_agreeOn (h.before.mono (Nat.zero_le _) (Nat.le_add_right _ _)) hWell.behind
  refine ⟨hSame.framed hWell.toFramed (h.before.mono (Nat.le_refl _) (by omega))
    (h.before.mono (Nat.zero_le _) (Nat.le_refl _)) ?_ ?_, hSame.names hWell fun index hIndex => ?_⟩
  · rw [hStub]
    exact hWell.stub
  · rw [h.length_eq]
    exact hWell.table
  · exact (h.agreeOn_entry hIndex).mono (Nat.le_refl _) (by omega)

end SameButMachine

end Layout

namespace Summary

variable {options : Options} {image image' : Bytes} {summary : Summary} {offset : Nat}

/-- Where the runtime header is not checked, every image with these headers has a summary. -/
theorem ofBytes_of_sameButMachine (h : SameButMachine options image image')
    (hLenient : options.strictRuntimeHeader = false) (hRead : ofBytes options image = .ok summary)
    (hOffset : runtimeOffset options image = .ok offset) :
    ofBytes options image' = .ok (standing options image' offset) ∧
      runtimeOffset options image' = .ok offset := by
  obtain ⟨hWell, hDirectory, hFits, -⟩ := (ofBytes_eq_ok_iff_at hOffset).1 hRead
  have hSame := h.sameLayout hWell.toFramed
  have hPlace : runtimeOffset options image' = .ok offset :=
    (hSame.runtimeOffset hDirectory).trans hOffset
  refine ⟨(ofBytes_eq_ok_iff_at hPlace).2 ⟨h.wellFormed hWell,
    hSame.hasRuntimeDirectory_iff.2 hDirectory, ?_, ?_, rfl⟩, hPlace⟩
  · rw [h.length_eq]
    exact hFits
  · intro hStrict
    rw [hLenient] at hStrict
    cases hStrict

/-! ## Edits -/

/-- A field that is overwritten, with its new value. -/
inductive Edit
  | machine (code : UInt16)
  | headerSize (size : UInt32)
  | majorVersion (number : UInt16)
  | minorVersion (number : UInt16)
  | metadataRva (rva : UInt32)
  | metadataSize (size : UInt32)
  | flags (bits : UInt32)
  deriving DecidableEq, Repr

namespace Edit

/-- Where the field stands, given where the signature and the runtime header do. -/
def place (signature runtime : Nat) : Edit → Nat
  | machine _ => signature + 4
  | headerSize _ => runtime
  | majorVersion _ => runtime + 4
  | minorVersion _ => runtime + 6
  | metadataRva _ => runtime + 8
  | metadataSize _ => runtime + 12
  | flags _ => runtime + 16

/-- The bytes of the new value. -/
def bytes : Edit → Bytes
  | machine value | majorVersion value | minorVersion value => FixedWidth.encode value
  | headerSize value | metadataRva value | metadataSize value | flags value =>
    FixedWidth.encode value

/-- What the new value changes of a summary. -/
def apply : Edit → Summary → Summary
  | machine code, summary => { summary with machine := .ofCode code }
  | headerSize _, summary => summary
  | majorVersion number, summary =>
    { summary with runtimeVersion := { summary.runtimeVersion with major := number } }
  | minorVersion number, summary =>
    { summary with runtimeVersion := { summary.runtimeVersion with minor := number } }
  | metadataRva rva, summary => { summary with metadata := { summary.metadata with rva := rva } }
  | metadataSize size, summary => { summary with metadata := { summary.metadata with size := size } }
  | flags bits, summary => { summary with flags := ⟨bits⟩ }

/-- The image with the new value in it. -/
def write (edit : Edit) (options : Options) (offset : Nat) (image : Bytes) : Bytes :=
  image.overwrite (edit.place (signatureOffset options image) offset) edit.bytes

/-- The field is the machine, or one of the runtime header. -/
theorem place_cases (edit : Edit) (signature runtime : Nat) :
    (edit.place signature runtime = signature + 4 ∧ edit.bytes.length = 2) ∨
      (runtime ≤ edit.place signature runtime ∧
        edit.place signature runtime + edit.bytes.length ≤ runtime + 20) := by
  have h16 : ∀ value : UInt16, (FixedWidth.encode value).length = 2 := FixedWidth.length_encode
  have h32 : ∀ value : UInt32, (FixedWidth.encode value).length = 4 := FixedWidth.length_encode
  cases edit
  case machine code => exact .inl ⟨rfl, h16 code⟩
  all_goals
    simp only [place, bytes, h16, h32]
    omega

variable (hBehind : tableEnd options image ≤ offset)
include hBehind

theorem sameButMachine_write (edit : Edit) :
    SameButMachine options image (edit.write options offset image) := by
  have hTable := @fileEnd_le_tableEnd options image
  have hPlace := edit.place_cases (signatureOffset options image) offset
  exact ⟨Bytes.length_overwrite _ _ _, Bytes.agreeOn_overwrite _ _ (by omega),
    Bytes.agreeOn_overwrite _ _ (by omega)⟩

/-- Each field of a summary is read off its own bytes. -/
theorem standing_write (edit : Edit) (hFramed : Framed options image)
    (hFits : offset + 20 ≤ image.length) :
    standing options (edit.write options offset image) offset =
      edit.apply (standing options image offset) := by
  have hTable := @fileEnd_le_tableEnd options image
  have hSame := (sameButMachine_write hBehind edit).sameLayout hFramed
  have hMachine : Layout.machine options (edit.write options offset image) =
      valueAt UInt16 (edit.write options offset image) (signatureOffset options image + 4) := by
    rw [Layout.machine, hSame.signatureOffset]
  have h16 : FixedWidth.width UInt16 = 2 := rfl
  have h32 : FixedWidth.width UInt32 = 4 := rfl
  unfold standing
  rw [hSame.format, hMachine, Layout.machine]
  -- The fields lie apart, so each is the new value or what it was.
  cases edit <;>
    simp (disch := omega) only [write, place, bytes, apply, FixedWidth.valueAt_overwrite,
      FixedWidth.valueAt_overwrite_of_disjoint]

end Edit

/-- The image has this summary, and its runtime header stands at the offset, behind the section
table. -/
structure ManagedAt (options : Options) (offset : Nat) (image : Bytes) (summary : Summary) :
    Prop where
  outcome : ofBytes options image = .ok summary
  runtimeOffset : runtimeOffset options image = .ok offset
  behind : tableEnd options image ≤ offset

theorem ManagedAt.write (h : ManagedAt options offset image summary)
    (hLenient : options.strictRuntimeHeader = false) (edit : Edit) :
    ManagedAt options offset (edit.write options offset image) (edit.apply summary) := by
  obtain ⟨hWell, -, hFits, -, rfl⟩ := (ofBytes_eq_ok_iff_at h.runtimeOffset).1 h.outcome
  have hSame := Edit.sameButMachine_write h.behind edit
  obtain ⟨hOutcome, hPlace⟩ :=
    ofBytes_of_sameButMachine hSame hLenient h.outcome h.runtimeOffset
  rw [Edit.standing_write h.behind edit hWell.toFramed hFits] at hOutcome
  refine ⟨hOutcome, hPlace, ?_⟩
  rw [(hSame.sameLayout hWell.toFramed).tableEnd]
  exact h.behind

/-- A row of edits does to the summary what they do one after the other. -/
theorem ManagedAt.writes (h : ManagedAt options offset image summary)
    (hLenient : options.strictRuntimeHeader = false) (edits : List Edit) :
    ManagedAt options offset (edits.foldl (fun image edit => edit.write options offset image) image)
      (edits.foldl (fun summary edit => edit.apply summary) summary) := by
  induction edits generalizing image summary with
  | nil => exact h
  | cons edit edits ih => exact ih (h.write hLenient edit)

/-- An edit of one field of a managed image changes that field of the summary. The processor follows
the machine alone, the flags decide what they decided before, and a size that is not checked shows
nowhere. -/
theorem edit_exact (hLenient : options.strictRuntimeHeader = false)
    (hRead : ofBytes options image = .ok summary)
    (hOffset : runtimeOffset options image = .ok offset)
    (hBehind : tableEnd options image ≤ offset) (edit : Edit) :
    ofBytes options
        (image.overwrite (edit.place (signatureOffset options image) offset) edit.bytes) =
      .ok (edit.apply summary) ∧
    (edit.apply summary).processor =
      (match edit with
        | .machine code => .ofMachine (.ofCode code)
        | _ => summary.processor) ∧
    (edit.apply summary).assembly =
      (match edit with
        | .flags bits => .classify summary.format ⟨bits⟩
        | _ => summary.assembly) ∧
    ∀ flag, (edit.apply summary).flags.has flag =
      match edit with
        | .flags bits => RuntimeFlags.has ⟨bits⟩ flag
        | _ => summary.flags.has flag := by
  have hManaged : ManagedAt options offset image summary := ⟨hRead, hOffset, hBehind⟩
  refine ⟨(hManaged.write hLenient edit).outcome, ?_, ?_, fun flag => ?_⟩
  all_goals cases edit <;> rfl

/-! ### Edits of the small managed image -/

theorem ofBytes_specimen_standard :
    ofBytes .standard specimen = .ok (standing .strict specimen 344) := by decide +kernel

/-- Every flag bit set, which insists on 32 bits; every one but that, which leaves the image for any
process; and a machine without a name. -/
theorem edit_exact_specimen :
    Options.standard.strictRuntimeHeader = false ∧
      ofBytes .standard specimen = .ok (standing .strict specimen 344) ∧
      runtimeOffset .standard specimen = .ok 344 ∧ tableEnd .standard specimen ≤ 344 ∧
      ofBytes .standard (specimen.overwrite 360 [0xFF, 0xFF, 0xFF, 0xFF]) =
        .ok { standing .strict specimen 344 with flags := ⟨0xFFFFFFFF⟩ } ∧
      Summary.assembly { standing .strict specimen 344 with flags := ⟨0xFFFFFFFF⟩ } = .x86 ∧
      ofBytes .standard (specimen.overwrite 360 [0xFD, 0xFF, 0xFF, 0xFF]) =
        .ok { standing .strict specimen 344 with flags := ⟨0xFFFFFFFD⟩ } ∧
      Summary.assembly { standing .strict specimen 344 with flags := ⟨0xFFFFFFFD⟩ } = .msil ∧
      ofBytes .standard (specimen.overwrite 68 [0x34, 0x12]) =
        .ok { standing .strict specimen 344 with machine := .unknown 0x1234 } := by
  have hOffset : runtimeOffset .standard specimen = .ok 344 := by decide +kernel
  have hBehind : tableEnd .standard specimen ≤ 344 := by decide +kernel
  have hSignature : signatureOffset .standard specimen = 64 := by decide +kernel
  have hFormat : (standing .strict specimen 344).format = .pe32 := by decide +kernel
  have hEdit := edit_exact rfl ofBytes_specimen_standard hOffset hBehind
  rw [hSignature] at hEdit
  obtain ⟨hAll, -, hInsists, -⟩ := hEdit (.flags 0xFFFFFFFF)
  obtain ⟨hButOne, -, hAny, -⟩ := hEdit (.flags 0xFFFFFFFD)
  refine ⟨rfl, ofBytes_specimen_standard, hOffset, hBehind, hAll, hInsists.trans ?_, hButOne,
    hAny.trans ?_, (hEdit (.machine 0x1234)).1⟩
  · rw [hFormat]
    decide
  · exact AssemblyArchitecture.classify_eq_msil_iff.2 ⟨hFormat, by decide, by decide⟩

end Summary

end ManagedImage
