import ManagedImage.Proofs.Agreement
import ManagedImage.Proofs.WholeImage

/-!
# What the stub decides

Between the DOS header and the signature an image keeps a program for DOS. A summary takes nothing
from it, but the read searches it for a Rich header and refuses an image whose Rich header has no
start, one that does not lie before its end, or one that is not whole words away from its end.

* `Layout.DifferInStub`: two images that differ in nothing but the stub.
* `Summary.ofBytes_of_stub`: the check of the new stub is all that such a change adds.
* `Summary.stub_decides`: a managed image keeps its summary under every legal stub, and is malformed
  under a stub with a Rich header that has no start before its end. What is left are the stubs that
  are `Stub.Misaligned`.
-/

namespace ManagedImage

open FixedWidth (valueAt)
open Layout

namespace Layout

variable {options : Options} {image image' : Bytes}

/-- Outside the stub of the first image, the images hold the same bytes. -/
structure DifferInStub (options : Options) (image image' : Bytes) : Prop where
  length_eq : image'.length = image.length
  same : ∀ place, place < 64 ∨ signatureOffset options image ≤ place →
    image'[place]? = image[place]?

namespace DifferInStub

variable (h : DifferInStub options image image')
include h

theorem agreeOn_front {start stop : Nat} (hStop : stop ≤ 64) : image'.AgreeOn image start stop :=
  fun place _ hHigh => h.same place (.inl (by omega))

theorem agreeOn_behind {start stop : Nat} (hStart : signatureOffset options image ≤ start) :
    image'.AgreeOn image start stop :=
  fun place hLow _ => h.same place (.inr (by omega))

theorem sameLayout (hFramed : Framed options image) : SameLayout options image image' := by
  refine hFramed.sameLayout (h.agreeOn_front (Nat.le_refl _))
    (h.agreeOn_behind (Nat.le_add_right _ _)) ?_
  intro index _
  apply h.agreeOn_behind
  simp only [entryOffset, tableOffset]
  omega

theorem wellFormed (hWell : WellFormed options image)
    (hLegal : Stub.Legal (Headers.stub image' (signatureOffset options image))) :
    WellFormed options image' := by
  have hSame := h.sameLayout hWell.toFramed
  have hTable : tableEnd options image ≤ image'.length := by
    rw [h.length_eq]
    exact hWell.table
  refine ⟨hSame.framed hWell.toFramed (h.agreeOn_front (by decide))
    (h.agreeOn_behind (Nat.le_refl _)) hLegal hTable, hSame.names hWell fun index _ => ?_⟩
  apply h.agreeOn_behind
  simp only [entryOffset, tableOffset]
  omega

theorem checkDos_eq : Headers.checkDos (.ofBytes image') = Headers.checkDos (.ofBytes image) := by
  have hMagic : valueAt UInt16 image' 0 = valueAt UInt16 image 0 :=
    (h.agreeOn_front (by decide)).valueAt_eq
  rw [Headers.checkDos_ofBytes, Headers.checkDos_ofBytes, h.length_eq, hMagic]

theorem checkCoff_eq (hSame : SameLayout options image image') :
    Headers.checkCoff options (.ofBytes image') = Headers.checkCoff options (.ofBytes image) := by
  have hSignature : signature options image' = signature options image := by
    rw [signature, signature, hSame.signatureOffset]
    exact (h.agreeOn_behind (Nat.le_refl _)).valueAt_eq
  rw [Headers.checkCoff_ofBytes, Headers.checkCoff_ofBytes, h.length_eq, hSame.signatureOffset,
    hSignature, hSame.sectionCount, hSame.tableEnd]

end DifferInStub

end Layout

namespace Summary

variable {options : Options} {image image' : Bytes} {summary : Summary} {offset : Nat}

/-- The stages before the check of the stub are passed as before, so a stub that fails its check is
all that is wrong. -/
theorem ofBytes_of_stub_error {e : Error} (h : DifferInStub options image image')
    (hRead : ofBytes options image = .ok summary)
    (hStub : Stub.check (Headers.stub image' (signatureOffset options image)) = .error e) :
    ofBytes options image' = .error e := by
  obtain ⟨hWell, -⟩ := ofBytes_eq_ok_iff.1 hRead
  have hSame := h.sameLayout hWell.toFramed
  have hFails : Headers.checkStub (Headers.front options (.ofBytes image'))
      (signatureOffset options image') = .error e := by
    refine (@Headers.checkStub_front options (.ofBytes image')).trans ?_
    show Headers.checkStub image' (signatureOffset options image') = .error e
    rw [hSame.signatureOffset, Headers.checkStub]
    exact (if_neg (Nat.not_lt.2 hWell.behind)).trans hStub
  rw [ofBytes_eq, ofImage_stages] at hRead ⊢
  obtain ⟨_, hDos, hRead⟩ := bind_eq_ok_iff.1 hRead
  obtain ⟨_, hCoff, -⟩ := bind_eq_ok_iff.1 hRead
  rw [h.checkDos_eq, hDos, ok_bind, h.checkCoff_eq hSame, hCoff, ok_bind, Headers.decodeOptional]
  show ((Headers.checkStub _ (signatureOffset options image') >>= _) >>= _) = _
  rw [hFails]
  rfl

theorem ofBytes_of_stub (h : DifferInStub options image image')
    (hRead : ofBytes options image = .ok summary) (hOffset : runtimeOffset options image = .ok offset)
    (hBehind : tableEnd options image ≤ offset) :
    ofBytes options image' =
      (Stub.check (Headers.stub image' (signatureOffset options image))).map fun _ => summary := by
  obtain ⟨hWell, -, hFits, -⟩ := (ofBytes_eq_ok_iff_at hOffset).1 hRead
  have hTable := @fileEnd_le_tableEnd options image
  cases hStub : Stub.check (Headers.stub image' (signatureOffset options image)) with
  | error e => exact ofBytes_of_stub_error h hRead hStub
  | ok _ =>
    have hSame := h.sameLayout hWell.toFramed
    have hMachine : Layout.machine options image' = Layout.machine options image :=
      (fileFields_eq_of_agreeOn hSame.signatureOffset (h.agreeOn_behind (Nat.le_refl _))).1
    refine ofBytes_of_sameLayout hRead hOffset hSame
      (h.wellFormed hWell (Stub.check_eq_ok_iff.1 hStub)) hMachine (h.agreeOn_behind (by omega)) ?_
    rw [h.length_eq]
    exact hFits

/-- A change of the stub leaves the summary of a managed image as it is if the new stub is legal, and
makes the image malformed if the Rich header in it has no start, or a start that does not lie before
its end. It says nothing about the fourth kind of stub, `Stub.Misaligned`: there the read ends as the
check of the stub does, out of bounds (`ofBytes_of_stub`). -/
theorem stub_decides (h : DifferInStub options image image')
    (hRead : ofBytes options image = .ok summary) (hOffset : runtimeOffset options image = .ok offset)
    (hBehind : tableEnd options image ≤ offset) {stub : Bytes}
    (hStub : stub = Headers.stub image' (signatureOffset options image)) :
    (Stub.Legal stub → ofBytes options image' = .ok summary) ∧
    (∀ stop, Stub.First (Stub.EndsAt stub) stop →
      (∀ start, ¬ Stub.StartsAt stub (Stub.wordAt stub (stop + 4)) start) →
        ofBytes options image' = .error (.malformed (.entity .richHeaderWithoutStart))) ∧
    (∀ stop start, Stub.First (Stub.EndsAt stub) stop →
      Stub.First (Stub.StartsAt stub (Stub.wordAt stub (stop + 4))) start → stop ≤ start + 4 →
        ofBytes options image' =
          .error (.malformed (.entity (.richHeaderReversed (start + 4) stop)))) := by
  subst hStub
  rw [ofBytes_of_stub h hRead hOffset hBehind]
  refine ⟨fun hLegal => ?_, fun stop hStop hNone => ?_, fun stop start hStop hStart hOrder => ?_⟩
  · rw [Stub.check_eq_ok_iff.2 hLegal]
    rfl
  · rw [Stub.check_of_no_start hStop hNone]
    rfl
  · rw [Stub.check_of_reversed hStop hStart hOrder]
    rfl

/-! ## The stubs of one image -/

/-- A managed image with 32 bytes between its DOS header and its signature. -/
@[irreducible] def stubbed : Bytes :=
  .ofFields 396 [(0, [0x4D, 0x5A]), (0x3C, [0x60]), (0x60, [0x50, 0x45, 0, 0, 0x4C, 1, 1]),
    (116, [216]), (120, [0x0B, 1]), (212, [15]), (328, [0, 0x20, 0, 0, 72]),
    (336, [0x2E, 0x74, 0x65, 0x78, 0x74, 0, 0, 0, 0, 16, 0, 0, 0, 0x20, 0, 0, 20, 0, 0, 0, 0x78, 1]),
    (376, [72, 0, 0, 0, 2, 0, 5, 0, 0x5C, 0x20, 0, 0, 16, 0, 0, 0, 1])]

/-- The same image with other bytes at the start of its stub. -/
def restubbed (stub : Bytes) : Bytes := stubbed.overwrite 64 stub

/-- An end mark under the key zero, and no start mark. -/
def startless : Bytes := [0x52, 0x69, 0x63, 0x68, 0, 0, 0, 0]

/-- An end mark under the key zero, and a start mark behind it. -/
def reversed : Bytes := startless ++ [0x44, 0x61, 0x6E, 0x53]

/-- A start mark under the key zero, an empty word, and the end mark. -/
def wellMarked : Bytes := [0x44, 0x61, 0x6E, 0x53, 0, 0, 0, 0] ++ startless

theorem signatureOffset_stubbed : signatureOffset .strict stubbed = 96 := by decide +kernel

theorem ofBytes_stubbed : ofBytes .strict stubbed = .ok (standing .strict stubbed 376) := by
  decide +kernel

theorem runtimeOffset_stubbed : runtimeOffset .strict stubbed = .ok 376 := by decide +kernel

theorem tableEnd_stubbed : tableEnd .strict stubbed = 376 := by decide +kernel

theorem differInStub_restubbed {stub : Bytes} (h : stub.length ≤ 32) :
    DifferInStub .strict stubbed (restubbed stub) := by
  refine ⟨Bytes.length_overwrite _ _ _, fun place hOutside => ?_⟩
  rw [signatureOffset_stubbed] at hOutside
  refine Bytes.agreeOn_overwrite stubbed stub ?_ place (Nat.le_refl _) (Nat.lt_succ_self _)
  omega

theorem legal_wellMarked : Stub.Legal (Headers.stub (restubbed wellMarked) 96) :=
  Stub.check_eq_ok_iff.1 (by decide +kernel)

theorem endsAt_startless :
    Stub.First (Stub.EndsAt (Headers.stub (restubbed startless) 96)) 0 :=
  Stub.findRich_iff.1 (by decide +kernel)

theorem not_startsAt_startless (start : Nat) :
    ¬ Stub.StartsAt (Headers.stub (restubbed startless) 96)
      (Stub.wordAt (Headers.stub (restubbed startless) 96) (0 + 4)) start :=
  Stub.findDans_eq_none_iff.1 (by decide +kernel) start

theorem endsAt_reversed : Stub.First (Stub.EndsAt (Headers.stub (restubbed reversed) 96)) 0 :=
  Stub.findRich_iff.1 (by decide +kernel)

theorem startsAt_reversed :
    Stub.First (Stub.StartsAt (Headers.stub (restubbed reversed) 96)
      (Stub.wordAt (Headers.stub (restubbed reversed) 96) (0 + 4))) 8 :=
  Stub.findDans_iff.1 (by decide +kernel)

/-- A legal stub, one with an end mark alone, and one with its start mark behind the end mark. -/
theorem stub_decides_restubbed :
    (DifferInStub .strict stubbed (restubbed wellMarked) ∧
      DifferInStub .strict stubbed (restubbed startless) ∧
      DifferInStub .strict stubbed (restubbed reversed)) ∧
    ofBytes .strict (restubbed wellMarked) = .ok (standing .strict stubbed 376) ∧
      ofBytes .strict (restubbed startless) =
        .error (.malformed (.entity .richHeaderWithoutStart)) ∧
      ofBytes .strict (restubbed reversed) =
        .error (.malformed (.entity (.richHeaderReversed 12 0))) := by
  have hMarked := @differInStub_restubbed wellMarked (by decide)
  have hStartless := @differInStub_restubbed startless (by decide)
  have hReversed := @differInStub_restubbed reversed (by decide)
  have hBehind := Nat.le_of_eq tableEnd_stubbed
  refine ⟨⟨hMarked, hStartless, hReversed⟩, ?_, ?_, ?_⟩
  · apply (stub_decides hMarked ofBytes_stubbed runtimeOffset_stubbed hBehind rfl).1
    rw [signatureOffset_stubbed]
    exact legal_wellMarked
  · apply (stub_decides hStartless ofBytes_stubbed runtimeOffset_stubbed hBehind rfl).2.1 0
    · rw [signatureOffset_stubbed]
      exact endsAt_startless
    · rw [signatureOffset_stubbed]
      exact not_startsAt_startless
  · apply (stub_decides hReversed ofBytes_stubbed runtimeOffset_stubbed hBehind rfl).2.2 0 8
    · rw [signatureOffset_stubbed]
      exact endsAt_reversed
    · rw [signatureOffset_stubbed]
      exact startsAt_reversed
    · decide

/-- The stub is not free: an end mark alone spoils a managed image, though no section of it refers
to the string table. -/
theorem stub_refused :
    DifferInStub .strict stubbed (restubbed startless) ∧
      64 ≤ signatureOffset .strict stubbed ∧
      runtimeOffset .strict stubbed = .ok 376 ∧ tableEnd .strict stubbed ≤ 376 ∧
      (∀ index < (sectionCount .strict (restubbed startless)).toNat,
        (sectionName .strict (restubbed startless) index).head? ≠ some 0x2F) ∧
      ofBytes .strict stubbed = .ok (standing .strict stubbed 376) ∧
      ofBytes .strict (restubbed startless) =
        .error (.malformed (.entity .richHeaderWithoutStart)) := by
  refine ⟨differInStub_restubbed (by decide), by decide +kernel, runtimeOffset_stubbed,
    Nat.le_of_eq tableEnd_stubbed, by decide +kernel, ofBytes_stubbed, by decide +kernel⟩

end Summary

end ManagedImage
