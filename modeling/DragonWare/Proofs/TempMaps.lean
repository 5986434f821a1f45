import DragonWare.Lib.Run
import DragonWare.Proofs.Progress

/-!
# Temporary maps are exclusive

The maps that are live have a slot, a page and a frame each, and the bits and the window show
nothing else (`TempInv`).
-/

namespace DragonWare

open Bitmap List

namespace Vm

inductive TempCall
  | create (fresh : Bool)
  | delete (m : VirtualMap)
  deriving DecidableEq, Repr

/-- The call, with the maps that are live. Only those are deleted. -/
def tempStep (debug pge : Bool) (s : Vm × List VirtualMap) :
    TempCall → Option (Vm × List VirtualMap)
  | .create fresh => (s.1.createTempVirtualMap debug pge fresh).map fun r =>
      (r.2, r.1.toList ++ s.2)
  | .delete m =>
    if m ∈ s.2 then (s.1.deleteTempVirtualMap debug m).map fun v => (v, s.2.erase m) else none

/-- The live maps are apart from each other, and bits and pages are theirs. -/
structure TempExclusive (v : Vm) (live : List VirtualMap) : Prop where
  window : ∀ m ∈ live, m.slot < tmpMapMaxPages ∧ m.addr.virt = tmpMapAddrFromIndex m.slot
  pages : live.Pairwise fun m m' => m.addr.virt ≠ m'.addr.virt
  frames : live.Pairwise fun m m' => m.addr.phys ≠ m'.addr.phys
  bits : ∀ s < tmpMapMaxPages, testBit v.tmpmap s = true ↔ ∃ m ∈ live, m.slot = s
  mapped : ∀ s < tmpMapMaxPages,
    v.mmu.isVirtualPageMapped (tmpMapAddrFromIndex s) = true ↔ ∃ m ∈ live, m.slot = s

variable {regions : List MemoryRegion} {used : List ℕ} {debug pge fresh : Bool} {v v' : Vm}
  {live : List VirtualMap} {m : VirtualMap} {r : Option VirtualMap}

structure TempInv (regions : List MemoryRegion) (used : List ℕ) (v : Vm)
    (live : List VirtualMap) : Prop where
  space : Space regions used v.mmu v.frames
  maps : ∀ m ∈ live, TempMap v used m
  slots : live.Pairwise fun m m' => m.slot ≠ m'.slot
  frames : live.Pairwise fun m m' => m.addr.phys ≠ m'.addr.phys
  bits : ∀ s < tmpMapMaxPages, testBit v.tmpmap s = true → ∃ m ∈ live, m.slot = s
  free : ∀ s < tmpMapMaxPages, testBit v.tmpmap s = false → v.slotEntry s = none

theorem TempInv.start (hS : Space regions used v.mmu v.frames)
    (hbits : ∀ s, testBit v.tmpmap s = false)
    (hfree : ∀ s < tmpMapMaxPages, v.mmu.isVirtualPageMapped (tmpMapAddrFromIndex s) = false) :
    TempInv regions used v [] :=
  ⟨hS, by simp, .nil, .nil, fun s _ h => by simp [hbits] at h,
    fun s hs _ => pageFree_iff.2 (hfree s hs)⟩

theorem TempInv.exclusive (h : TempInv regions used v live) : TempExclusive v live where
  window m hm := ⟨(h.maps m hm).slot, (h.maps m hm).virt⟩
  pages := h.slots.imp_of_mem fun hm hm' hne heq => hne (tmpMapAddr_inj (h.maps _ hm).slot
    (h.maps _ hm').slot (by rw [← (h.maps _ hm).virt, ← (h.maps _ hm').virt, heq]))
  frames := h.frames
  bits s hs := by
    refine ⟨h.bits s hs, ?_⟩
    rintro ⟨m, hm, rfl⟩
    exact (h.maps m hm).bit
  mapped s hs := by
    constructor
    · intro hm
      refine h.bits s hs ?_
      by_contra hb
      rw [pageFree_iff.1 (h.free s hs (by simpa using hb))] at hm
      cases hm
    · rintro ⟨m, hm, rfl⟩
      obtain ⟨e, hl, -⟩ := (h.maps m hm).maps
      rw [(h.maps m hm).virt] at hl
      by_contra hno
      have hfree := pageFree_iff.2 (by simpa using hno)
      rw [PageFree, hl] at hfree
      cases hfree

theorem TempInv.create (h : TempInv regions used v live)
    (heq : v.createTempVirtualMap debug pge fresh = some (r, v')) :
    ∃ used', TempInv regions used' v' (r.toList ++ live) := by
  obtain ⟨used', he, hnone, hsome⟩ := createTempVirtualMap_spec h.space heq
  have hmaps : ∀ m ∈ live, TempMap v' used' m := fun m hm => (h.maps m hm).extend he
  refine ⟨used', ?_⟩
  cases r with
  | none =>
    obtain ⟨ht, hs⟩ := hnone rfl
    refine ⟨he.space, hmaps, h.slots, h.frames, ht ▸ h.bits, fun s hlt hb => ?_⟩
    rw [ht] at hb
    exact (hs s hlt).trans (h.free s hlt hb)
  | some m =>
    have hN := hsome m rfl
    have hbit : ∀ s, testBit v'.tmpmap s
        = (testBit v.tmpmap s || decide (s = m.slot)) := fun s => by
      rw [hN.tmpmap, testBit_setBit (by decide)]
    refine ⟨he.space, forall_mem_cons.2 ⟨hN.map, hmaps⟩, ?_, ?_, fun s hs hb => ?_,
      fun s hs hb => ?_⟩
    · refine pairwise_cons.2 ⟨fun m' hm' heq => ?_, h.slots⟩
      have := hN.clear
      rw [heq, (h.maps m' hm').bit] at this
      cases this
    · exact pairwise_cons.2
        ⟨fun m' hm' heq => hN.fresh (heq ▸ (h.maps m' hm').own.1), h.frames⟩
    · rw [hbit, Bool.or_eq_true, decide_eq_true_eq] at hb
      rcases hb with hb | rfl
      · obtain ⟨m', hm', hslot⟩ := h.bits s hs hb
        exact ⟨m', mem_cons_of_mem _ hm', hslot⟩
      · exact ⟨m, mem_cons_self, rfl⟩
    · rw [hbit, Bool.or_eq_false_iff, decide_eq_false_iff_not] at hb
      exact (hN.others s hs hb.2).trans (h.free s hs hb.1)

theorem TempInv.delete (h : TempInv regions used v live) (hm : m ∈ live)
    (heq : v.deleteTempVirtualMap debug m = some v') : TempInv regions used v' (live.erase m) := by
  have hM := h.maps m hm
  obtain ⟨mmu, hdel, hS, hev, hlook⟩ := hM.delete h.space debug
  rw [hdel] at heq
  obtain rfl := Option.some.inj heq
  have hbit := testBit_clearBit (by decide : 0 < 32) v.tmpmap m.slot
  -- the other maps have other slots
  obtain ⟨hother, hslots⟩ := pairwise_cons.1
    (((perm_cons_erase hm).pairwise_iff fun h => h.symm).1 h.slots)
  refine ⟨hS, fun m' hm' => ?_, hslots, h.frames.sublist erase_sublist, fun s hs hb => ?_,
    fun s hs hb => ?_⟩
  · have hM' := h.maps m' (mem_of_mem_erase hm')
    have hne := hother m' hm'
    obtain ⟨e, hl, hf⟩ := hM'.maps
    refine ⟨hM'.slot, ?_, hM'.virt, ⟨e, ?_, hf⟩, (hM'.own.evolve hev).1⟩
    · simp [hbit, hM'.bit, hne.symm]
    · rw [hlook _ hM'.bounds.2.2 _, if_neg]
      · exact hl
      rintro ⟨-, hpt⟩
      rw [hM'.virt, hM.virt] at hpt
      exact hne (tmpMapAddr_inj hM.slot hM'.slot hpt.symm)
  · simp only [hbit, Bool.and_eq_true, Bool.not_eq_true', decide_eq_false_iff_not] at hb
    obtain ⟨m', hm', rfl⟩ := h.bits s hs hb.1
    exact ⟨m', (mem_erase_of_ne fun heq => hb.2 (by rw [heq])).2 hm', rfl⟩
  · simp only [hbit, Bool.and_eq_false_iff, Bool.not_eq_false', decide_eq_true_eq] at hb
    refine (hlook _ (tmpMapAddr_bounds hs).2.2 _).trans ?_
    split_ifs with hcase
    · rfl
    rcases hb with hb | rfl
    · exact h.free s hs hb
    · exact absurd ⟨by rw [hM.virt], by rw [hM.virt]⟩ hcase

theorem tempStep_inv {s s' : Vm × List VirtualMap} {c : TempCall}
    (h : ∃ used, TempInv regions used s.1 s.2) (hs : tempStep debug pge s c = some s') :
    ∃ used, TempInv regions used s'.1 s'.2 := by
  obtain ⟨used, h⟩ := h
  cases c with
  | create fresh =>
    obtain ⟨r, hr, rfl⟩ := Option.map_eq_some_iff.1 hs
    exact h.create hr
  | delete m =>
    rw [tempStep] at hs
    split_ifs at hs with hm
    obtain ⟨v, hv, rfl⟩ := Option.map_eq_some_iff.1 hs
    exact ⟨used, h.delete hm hv⟩

/-- The live maps are exclusive; a map that is created next is a page of zeros, and a failure
changes neither the bits nor the window. -/
theorem tempMaps_exclusive {v₀ : Vm} {cs : List TempCall}
    (hS : Space regions used v₀.mmu v₀.frames) (hbits : ∀ s, testBit v₀.tmpmap s = false)
    (hfree : ∀ s < tmpMapMaxPages, v₀.mmu.isVirtualPageMapped (tmpMapAddrFromIndex s) = false)
    (hrun : Run.exec (tempStep debug pge) (v₀, []) cs = some (v, live)) :
    TempExclusive v live
      ∧ ∀ fresh r v', v.createTempVirtualMap debug pge fresh = some (r, v') →
        (∀ m, r = some m → ∃ e, v'.slotEntry m.slot = some e
          ∧ ∀ j, v'.mmu.table (entryFrame e) j = 0#32)
        ∧ (r = none → TempExclusive v' live ∧ v'.tmpmap = v.tmpmap
          ∧ ∀ s < tmpMapMaxPages, v'.slotEntry s = v.slotEntry s) := by
  have h0 : TempInv regions used v₀ [] := .start hS hbits hfree
  obtain ⟨used', h⟩ := Run.exec_invariant' (I := fun s => ∃ used, TempInv regions used s.1 s.2)
    (fun _ _ _ hI hs => tempStep_inv hI hs) cs ⟨used, h0⟩ hrun
  refine ⟨h.exclusive, fun fresh r v' heq => ?_⟩
  obtain ⟨_, -, hnone, hsome⟩ := createTempVirtualMap_spec h.space heq
  obtain ⟨used2, h'⟩ := h.create heq
  refine ⟨fun m hm => ?_, ?_⟩
  · have hN := hsome m hm
    obtain ⟨e, hl, hf⟩ := hN.map.maps
    rw [hN.map.virt] at hl
    exact ⟨e, hl, fun j => hf ▸ hN.zero j⟩
  · rintro rfl
    exact ⟨h'.exclusive, hnone rfl⟩

/-- Two maps are made, the first one is deleted and another one made. -/
theorem tempMaps_exclusive_boot : ∃ (v₀ v : Vm) (a b c : VirtualMap),
    Run.exec (tempStep true true) (v₀, [])
      [.create false, .create false, .delete a, .create false] = some (v, [c, b])
      ∧ TempExclusive v [c, b] := by
  obtain ⟨-, m, fm, used, -, -, hS, hR⟩ := exists_boot true
  have hbits : ∀ s, testBit (Vm.boot m fm).tmpmap s = false := fun s => by
    simp [Vm.boot, testBit]
  have hfree := fun s hs => pageFree_iff.1 (hR.free s hs (hbits s))
  have h₀ := TempInv.start hS hbits hfree
  obtain ⟨a, v₁, ha, hR⟩ := hR.create true true (by decide) hS
  obtain ⟨used₁, h₁⟩ := h₀.create ha
  obtain ⟨b, v₂, hb, hR⟩ := hR.create true true (by decide) h₁.space
  obtain ⟨used₂, h₂⟩ := h₁.create hb
  have hmem : a ∈ [b, a] := by simp
  obtain ⟨v₃, hd, hR⟩ := hR.delete true (h₂.maps a hmem) h₂.space
  obtain ⟨c, v₄, hc, -⟩ := hR.create true true (by decide) (h₂.delete hmem hd).space
  have hne : b ≠ a := fun h => rel_of_pairwise_cons h₂.slots (mem_singleton_self a) (h ▸ rfl)
  have hrun : Run.exec (tempStep true true) (Vm.boot m fm, [])
      [.create false, .create false, .delete a, .create false] = some (v₄, [c, b]) := by
    simp [Run.exec, tempStep, ha, hb, hd, hc, hne]
  exact ⟨_, _, a, b, c, hrun, (tempMaps_exclusive hS hbits hfree hrun).1⟩

end Vm

end DragonWare
