import DragonWare.Proofs.Vmm

/-!
# Building an address space

Temporary maps and heap pages add pages to the kernel half of the current address space and change
none that is mapped (`Vm.Extends`). A store through a temporary map goes to the frame of the map
(`TempMap`), which is none of the current tables.
-/

namespace DragonWare

open Bitmap HeapPages Mmu TwoLevel
open Function
open Option (bind_eq_some_iff map_eq_some_iff map_some)

section Heap

variable {regions : List MemoryRegion} {used : List ℕ} {debug pge : Bool} {fm fm' : FrameManager}
  {h h' : HeapPages} {a phys virt : ℕ}

/-- The pages that the kernel maps and unmaps as it goes: those of the heap, of the kernel stacks
and of the temporary maps. -/
def Scratch (addr : ℕ) : Prop :=
  (heapBase ≤ addr ∧ addr < heapBreak) ∨ (kernelStackBase ≤ addr ∧ addr < kernelStackEnd)
    ∨ (temporaryVirtMapAddr < addr + tmpMapMaxPages * frameSize ∧ addr ≤ temporaryVirtMapAddr)

theorem scratch_iff {addr : ℕ} : Scratch addr ↔ (0xC0100000 ≤ addr ∧ addr < 0xE0100000)
    ∨ (0xE0000000 ≤ addr ∧ addr < 0xEFFF0000) ∨ (0xF1C00000 < addr ∧ addr ≤ 0xF2000000) := by
  unfold Scratch
  rw [heapBase_eq, show heapBreak = 0xE0100000 by decide]
  simp only [kernelStackBase, kernelStackEnd, temporaryVirtMapAddr, tmpMapMaxPages, frameSize]
  omega

theorem Scratch.pdIndex {addr : ℕ} (h : Scratch addr) : pdIndex addr ∈ kernelSlots := by
  change 768 ≤ DragonWare.pdIndex addr ∧ DragonWare.pdIndex addr < 1023
  rw [scratch_iff] at h
  simp only [DragonWare.pdIndex]
  omega

/-- More is mapped, on pages that are the kernel's to map, frames in `touched` were written to, and
what was mapped has not changed. -/
structure Mmu.Extends (touched : Set ℕ) (m : Mmu) (used : List ℕ) (m' : Mmu) (used' : List ℕ) :
    Prop extends Mmu.Evolves touched m used m' used' where
  keeps : ∀ i < 1023, ∀ j e, m.lookup i j = some e → m'.lookup i j = some e
  outside : ∀ i < 1023, ∀ j, (∀ a, Scratch a → ¬ (i = pdIndex a ∧ j = ptIndex a)) →
    m'.lookup i j = m.lookup i j

namespace Mmu.Extends

variable {touched touched' : Set ℕ} {m m' m'' : Mmu} {used used' used'' : List ℕ}

theorem refl : Extends touched m used m used := ⟨.refl, fun _ _ _ _ h => h, fun _ _ _ _ => rfl⟩

theorem trans (h : Extends touched m used m' used') (h' : Extends touched m' used' m'' used'') :
    Extends touched m used m'' used'' :=
  ⟨h.toEvolves.trans h'.toEvolves, fun i hi j e he => h'.keeps i hi j e (h.keeps i hi j e he),
    fun i hi j ha => (h'.outside i hi j ha).trans (h.outside i hi j ha)⟩

theorem more (hsub : used ⊆ used') : Extends touched m used m used' :=
  ⟨.more hsub, fun _ _ _ _ h => h, fun _ _ _ _ => rfl⟩

theorem weaken (h : Extends touched m used m' used')
    (hT : ∀ f ∈ used, f ∈ touched → f ∈ touched') : Extends touched' m used m' used' :=
  ⟨h.toEvolves.weaken hT, h.keeps, h.outside⟩

end Mmu.Extends

theorem mapSinglePage_scratch {m m' : Mmu} {st : Status} {flags : BitVec 32}
    (hS : Space regions used m fm) (hv : Scratch virt)
    (h : mapSinglePage phys virt flags m fm = (st, m', fm')) :
    fm' = fm ∧ Space regions used m' fm ∧ m.Extends ∅ used m' used ∧ (st ≠ .ok → m' = m) := by
  obtain ⟨used', hS', he, hu, hok, hno⟩ := mapSinglePage_spec hS hv.pdIndex.2 h
  obtain ⟨rfl, rfl⟩ := hu (hS.kernel _ hv.pdIndex)
  refine ⟨rfl, hS', ⟨he, fun i hi j e hl => ?_, fun i hi j ha => ?_⟩, hno⟩
  · by_cases hst : st = .ok
    · obtain ⟨hnone, hlook⟩ := hok hst
      rw [hlook i hi j, if_neg]
      · exact hl
      · rintro ⟨rfl, rfl⟩
        rw [hnone] at hl
        cases hl
    · rw [hno hst]
      exact hl
  · by_cases hst : st = .ok
    · rw [(hok hst).2 i hi j, if_neg (ha virt hv)]
    · rw [hno hst]

theorem markHeapPageAsUsed_mmu (a : ℕ) (h : HeapPages) :
    (h.markHeapPageAsUsed a).mmu = h.mmu ∧ (h.markHeapPageAsUsed a).frames = h.frames := by
  unfold markHeapPageAsUsed
  split_ifs <;> exact ⟨rfl, rfl⟩

theorem markHeapPageAsFree_mmu
    (heq : h.markHeapPageAsFree debug a = some h') : h'.mmu = h.mmu ∧ h'.frames = h.frames := by
  unfold markHeapPageAsFree at heq
  split_ifs at heq <;> exact Option.some.inj heq ▸ ⟨rfl, rfl⟩

theorem Space.giveBack {m : Mmu} {f : ℕ} (hS : Space regions used m fm)
    (hI : FrameInv regions (fm', f :: used)) {fm'' : FrameManager}
    (h : fm'.freeFrame debug f = some fm'') : Space regions used m fm'' := by
  obtain ⟨hfree, hI'⟩ := hI.freeFrame debug (List.mem_cons_self ..)
  rw [hfree] at h
  obtain rfl := Option.some.inj h
  rw [List.erase_cons_head] at hI'
  exact hS.reframe hI'

theorem allocateFrame_mod (hI : FrameInv regions (fm, used)) :
    fm.allocateFrame.1 % frameSize = 0 := by
  rcases hI.allocateFrame with ⟨h0, -⟩ | ⟨-, -, ho, -⟩
  · rw [h0]
    rfl
  · exact ho.bounds.2.2

theorem Vm.mapSinglePage_total {mmu : Mmu} (hS : Space regions used mmu fm)
    (hv : pdIndex virt ∈ kernelSlots) (hphys : phys % frameSize = 0) (hal : virt % frameSize = 0)
    (hnone : mmu.lookup (pdIndex virt) (ptIndex virt) = none) (flags : BitVec 32) :
    ∃ mmu', mapSinglePage phys virt flags mmu fm = (.ok, mmu', fm) := by
  have hv0 : virt ≠ 0 := fun h => by
    have : 768 ≤ pdIndex virt := hv.1
    simp [h, pdIndex] at this
  have hp := hS.kernel _ hv
  have hpte : entryPresent (mmu.pte (pdIndex virt) (ptIndex virt)) = false := by
    rw [mmu.lookup_eq, hp, if_pos rfl] at hnone
    simpa using hnone
  unfold mapSinglePage
  simp only [hv0, hphys, hal, hp, hpte, ne_eq, not_true_eq_false, or_self, if_false, if_true,
    Bool.false_eq_true]
  exact ⟨_, rfl⟩

theorem getHeapPageAddress_scratch {p : ℕ} (hp : h.getHeapPageAddress.map Prod.fst = some p) :
    Scratch p ∧ p % frameSize = 0 ∧ p ≠ 0 := by
  simp only [getHeapPageAddress, Option.map_map, map_eq_some_iff] at hp
  obtain ⟨i, hi, rfl⟩ := hp
  obtain ⟨-, hi, -⟩ := scanClear_some (by decide) h.bitmap _ _ hi
  have : (0 + bitWordsNeeded) * 32 = 0x20000 := by decide
  simp only [comp_apply]
  rw [scratch_iff, heapBase_eq]
  simp only [frameSize]
  omega

theorem allocateVirtualPage_cases (hS : Space regions used h.mmu h.frames)
    (heq : h.allocateVirtualPage debug pge = some (a, h')) :
    (a = 0 ∧ h'.mmu = h.mmu ∧ Space regions used h'.mmu h'.frames
        ∧ (h.frames.allocateFrame.1 = 0 ∨ ∃ p, h.getHeapPageAddress.map Prod.fst = some p
          ∧ h.mmu.lookup (pdIndex p) (ptIndex p) ≠ none))
      ∨ (a ≠ 0 ∧ h.frames.allocateFrame.1 ≠ 0 ∧ h.getHeapPageAddress.map Prod.fst = some a
        ∧ h.mmu.lookup (pdIndex a) (ptIndex a) = none
        ∧ ∃ used', Space regions used' h'.mmu h'.frames ∧ h.mmu.Extends ∅ used h'.mmu used'
          ∧ ∀ i < 1023, ∀ j, i ≠ pdIndex a → h'.mmu.lookup i j = h.mmu.lookup i j) := by
  have hphys := allocateFrame_mod hS.frames
  unfold allocateVirtualPage at heq
  rcases hS.frames.allocateFrame with ⟨h0, hI⟩ | ⟨h0, -, -, hI⟩
  · simp only [h0, if_true] at heq
    cases heq
    exact .inl ⟨rfl, rfl, hS.reframe hI, .inl h0⟩
  simp only [h0, if_false] at heq
  obtain ⟨⟨page, h1⟩, hpage, heq⟩ := bind_eq_some_iff.1 heq
  unfold getHeapPageAddress at hpage
  obtain ⟨i, hi, hpage⟩ := map_eq_some_iff.1 hpage
  obtain ⟨rfl, rfl⟩ := Prod.mk.inj hpage
  have hnext : h.getHeapPageAddress.map Prod.fst = some (heapBase + i * frameSize) := by
    simp only [getHeapPageAddress, Option.map_map]
    exact map_eq_some_iff.2 ⟨i, hi, rfl⟩
  obtain ⟨hv, hal, hne⟩ := getHeapPageAddress_scratch hnext
  simp only [markHeapPageAsUsed_mmu] at heq
  split at heq
  · next m' fm' hm =>
    cases heq
    obtain ⟨rfl, hS', he, -⟩ := mapSinglePage_scratch (hS.allocated hI) hv hm
    obtain ⟨-, -, -, -, hok, -⟩ := mapSinglePage_spec (hS.allocated hI) hv.pdIndex.2 hm
    refine .inr ⟨hne, h0, hnext, (hok rfl).1, _, hS',
      (Extends.more (List.subset_cons_self ..)).trans he, fun i hlt j hi => ?_⟩
    rw [(hok rfl).2 i hlt j, if_neg fun h => hi h.1]
  · next st m' fm' hst hm =>
    obtain ⟨rfl, hS', -, hno⟩ := mapSinglePage_scratch (hS.allocated hI) hv hm
    obtain rfl := hno hst
    obtain ⟨h2, hfree, heq⟩ := bind_eq_some_iff.1 heq
    obtain ⟨hm2, hf2⟩ := markHeapPageAsFree_mmu hfree
    obtain ⟨fm'', hfree, heq⟩ := map_eq_some_iff.1 heq
    cases heq
    rw [hf2] at hfree
    refine .inl ⟨rfl, hm2, ?_, .inr ⟨_, hnext, fun hnone => hst ?_⟩⟩
    · simpa only [hm2] using hS.giveBack hI hfree
    · obtain ⟨m1, htotal⟩ :=
        Vm.mapSinglePage_total (hS.allocated hI) hv.pdIndex hphys hal hnone _
      exact (Prod.mk.inj (hm.symm.trans htotal)).1

end Heap

namespace Mmu

variable {touched : Set ℕ} {m m' : Mmu} {used used' : List ℕ} {f : ℕ}

def Own (m : Mmu) (used : List ℕ) (f : ℕ) : Prop :=
  f ∈ used ∧ ¬ Holds entryChild tableSlots m.table m.cr3 f

theorem Own.evolve (h : m.Own used f) (he : m.Evolves touched used m' used') :
    m'.Own used' f ∧ (f ∉ touched → m'.table f = m.table f) := by
  obtain ⟨hh, hk⟩ := he.tables.keep f h.1 h.2
  refine ⟨⟨he.tables.sub h.1, ?_⟩, hk⟩
  rw [he.cr3]
  exact hh

end Mmu

theorem Space.bounds {regions : List MemoryRegion} {used : List ℕ} {m : Mmu} {fm : FrameManager}
    (hS : Space regions used m fm) {f : ℕ} (hf : f ∈ used) : f < 2 ^ 32 ∧ f % frameSize = 0 :=
  (hS.frames.live f hf).bounds.2

variable {r : Option VirtualMap}

namespace Vm

/-- `Mmu.Extends` with the temporary maps that are there kept. -/
structure Extends (regions : List MemoryRegion) (touched : Set ℕ) (v : Vm) (used : List ℕ) (v' : Vm)
    (used' : List ℕ) : Prop where
  space : Space regions used' v'.mmu v'.frames
  pages : v.mmu.Extends touched used v'.mmu used'
  tmpmap : ∀ s, testBit v.tmpmap s = true → testBit v'.tmpmap s = true

namespace Extends

variable {regions : List MemoryRegion} {touched touched' : Set ℕ} {v v' v'' : Vm}
  {used used' used'' : List ℕ} {f : ℕ}

theorem refl (hS : Space regions used v.mmu v.frames) : Extends regions touched v used v used :=
  ⟨hS, .refl, fun _ h => h⟩

section

variable (h : Extends regions touched v used v' used')

include h

theorem trans (h' : Extends regions touched v' used' v'' used'') :
    Extends regions touched v used v'' used'' :=
  ⟨h'.space, h.pages.trans h'.pages, fun s hs => h'.tmpmap s (h.tmpmap s hs)⟩

theorem weaken
    (hT : ∀ f ∈ used, f ∈ touched → f ∈ touched') : Extends regions touched' v used v' used' :=
  ⟨h.space, h.pages.weaken hT, h.tmpmap⟩

theorem own (hf : v.mmu.Own used f) :
    v'.mmu.Own used' f := (hf.evolve h.pages.toEvolves).1

theorem row (hf : v.mmu.Own used f)
    (hT : f ∉ touched) : v'.mmu.table f = v.mmu.table f := (hf.evolve h.pages.toEvolves).2 hT

theorem sub : used ⊆ used' := fun _ hf =>
  h.pages.tables.sub hf

end

end Extends

section TempMaps

variable {regions : List MemoryRegion} {used used' : List ℕ} {touched : Set ℕ}
  {debug pge fresh b : Bool} {v v' : Vm} {m m' : VirtualMap} {s j : ℕ}

theorem tmpMapAddr_bounds (hs : s < tmpMapMaxPages) :
    tmpMapAddrFromIndex s % frameSize = 0 ∧ pdIndex (tmpMapAddrFromIndex s) ∈ kernelSlots := by
  change _ ∧ 768 ≤ pdIndex (tmpMapAddrFromIndex s) ∧ pdIndex (tmpMapAddrFromIndex s) < 1023
  simp only [tmpMapMaxPages, tmpMapAddrFromIndex, temporaryVirtMapAddr, frameSize, pdIndex] at hs ⊢
  omega

theorem tmpMapAddr_scratch (hs : s < tmpMapMaxPages) : Scratch (tmpMapAddrFromIndex s) := by
  rw [scratch_iff]
  simp only [tmpMapMaxPages] at hs
  simp only [tmpMapAddrFromIndex, temporaryVirtMapAddr, frameSize]
  omega

theorem tmpMapAddr_inj {s' : ℕ} (hs : s < tmpMapMaxPages) (hs' : s' < tmpMapMaxPages)
    (h : ptIndex (tmpMapAddrFromIndex s) = ptIndex (tmpMapAddrFromIndex s')) : s = s' := by
  simp only [tmpMapMaxPages, tmpMapAddrFromIndex, temporaryVirtMapAddr, frameSize, ptIndex]
    at hs hs' h
  omega

structure TempMap (v : Vm) (used : List ℕ) (m : VirtualMap) : Prop where
  slot : m.slot < tmpMapMaxPages
  bit : testBit v.tmpmap m.slot = true
  virt : m.addr.virt = tmpMapAddrFromIndex m.slot
  maps : ∃ e, v.mmu.lookup (pdIndex m.addr.virt) (ptIndex m.addr.virt) = some e
    ∧ entryFrame e = m.addr.phys
  own : v.mmu.Own used m.addr.phys

namespace TempMap

theorem bounds (hM : TempMap v used m) :
    m.addr.virt % frameSize = 0 ∧ pdIndex m.addr.virt ∈ kernelSlots := by
  rw [hM.virt]
  exact tmpMapAddr_bounds hM.slot

theorem extend (hM : TempMap v used m) (he : v.Extends regions touched used v' used') :
    TempMap v' used' m := by
  obtain ⟨e, hl, hf⟩ := hM.maps
  exact ⟨hM.slot, he.tmpmap _ hM.bit, hM.virt, ⟨e, he.pages.keeps _ hM.bounds.2.2 _ e hl, hf⟩,
    he.own hM.own⟩

def poked (v : Vm) (m : VirtualMap) (row : ℕ → BitVec 32) : Vm :=
  { v with mmu := v.mmu.setFrame m.addr.phys row }

theorem poke (hM : TempMap v used m) (hS : Space regions used v.mmu v.frames)
    (row : ℕ → BitVec 32) : v.Extends regions {m.addr.phys} used (poked v m row) used := by
  obtain ⟨hS', he, hl⟩ := hS.poke hM.own.2 row
  refine ⟨hS', ⟨he, fun i hi j e h => ?_, fun i hi j _ => hl i hi j⟩, fun _ h => h⟩
  exact (hl i hi j).trans h

theorem index_offset {a : ℕ} (ha : a % frameSize = 0) (hj : j < 1024) :
    pdIndex (a + 4 * j) = pdIndex a ∧ ptIndex (a + 4 * j) = ptIndex a
      ∧ (a + 4 * j) % frameSize / 4 = j := by
  simp only [frameSize, pdIndex, ptIndex] at ha ⊢
  omega

section

variable (hM : TempMap v used m)

include hM

theorem store_eq (hj : j < 1024) (e : BitVec 32) :
    v.store (m.addr.virt + 4 * j) e = some (poked v m (update (v.mmu.table m.addr.phys) j e)) := by
  obtain ⟨pte, hl, hf⟩ := hM.maps
  obtain ⟨h1, h2, h3⟩ := index_offset hM.bounds.1 hj
  unfold Vm.store Mmu.store
  rw [translate_cr3, h1, h2, h3, hl, map_some, map_some, hf]
  rfl

theorem zeroPage_eq : v.zeroPage m.addr.virt = some (poked v m fun _ => 0#32) := by
  obtain ⟨pte, hl, hf⟩ := hM.maps
  unfold Vm.zeroPage Mmu.zeroPage
  rw [translate_cr3, hl, map_some, map_some, hf]
  rfl

theorem copyToPage_eq (bytes : Memory.Mem) (n : ℕ) :
    v.copyToPage m.addr.virt bytes n = some (poked v m (frameWords fun x =>
      if x < n then bytes x else frameBytes (v.mmu.table m.addr.phys) x)) := by
  obtain ⟨pte, hl, hf⟩ := hM.maps
  unfold Vm.copyToPage Mmu.copyToPage
  rw [translate_cr3, hl, map_some, map_some, hf]
  rfl

theorem delete (hS : Space regions used v.mmu v.frames) (debug : Bool) :
    ∃ mmu, v.deleteTempVirtualMap debug m
        = some { v with mmu, tmpmap := clearBit v.tmpmap m.slot }
      ∧ Space regions used mmu v.frames ∧ v.mmu.Evolves ∅ used mmu used
      ∧ ∀ i < 1023, ∀ j, mmu.lookup i j =
        if i = pdIndex m.addr.virt ∧ j = ptIndex m.addr.virt then none else v.mmu.lookup i j := by
  obtain ⟨hal, hk⟩ := hM.bounds
  have hsome : ∃ mmu, v.mmu.unmapSinglePage debug m.addr.virt = some mmu := by
    unfold Mmu.unmapSinglePage
    rw [if_neg (by simp [hal])]
    split_ifs <;> exact ⟨_, rfl⟩
  obtain ⟨mmu, hmmu⟩ := hsome
  refine ⟨mmu, ?_, unmapSinglePage_spec hS hk.2 hmmu⟩
  unfold deleteTempVirtualMap
  rw [hM.bit, hmmu]
  rfl

end

end TempMap

theorem kmallocSmall_spec (hS : Space regions used v.mmu v.frames)
    (h : v.kmallocSmall debug pge fresh = some (b, v')) :
    ∃ used', v.Extends regions ∅ used v' used' ∧ v'.tmpmap = v.tmpmap := by
  unfold kmallocSmall at h
  split_ifs at h
  · obtain ⟨r, hr, h⟩ := map_eq_some_iff.1 h
    cases h
    rcases allocateVirtualPage_cases hS hr with ⟨-, hm, hS', -⟩ | ⟨-, -, -, -, used', hS', he⟩
    · exact ⟨used, ⟨hS', hm ▸ .refl, fun _ h => h⟩, rfl⟩
    · exact ⟨used', ⟨hS', he.1, fun _ h => h⟩, rfl⟩
  · cases h
    exact ⟨used, .refl hS, rfl⟩

def slotEntry (v : Vm) (s : ℕ) : Option (BitVec 32) :=
  v.mmu.lookup (pdIndex (tmpMapAddrFromIndex s)) (ptIndex (tmpMapAddrFromIndex s))

theorem kmallocSmall_slot (hS : Space regions used v.mmu v.frames)
    (h : v.kmallocSmall debug pge fresh = some (b, v')) (hs : s < tmpMapMaxPages) :
    v'.slotEntry s = v.slotEntry s := by
  unfold kmallocSmall at h
  split_ifs at h
  · obtain ⟨r, hr, h⟩ := map_eq_some_iff.1 h
    cases h
    rcases allocateVirtualPage_cases hS hr with ⟨-, hm, -⟩ | ⟨-, -, hp, -, -, -, -, hlook⟩
    · simp only [slotEntry, hm]
    refine hlook _ (tmpMapAddr_bounds hs).2.2 _ fun heq => ?_
    simp only [getHeapPageAddress, Option.map_map, map_eq_some_iff] at hp
    obtain ⟨i, hi, hp⟩ := hp
    obtain ⟨-, hi, -⟩ := scanClear_some (by decide) v.bitmap _ _ hi
    have : (0 + bitWordsNeeded) * 32 = 0x20000 := by decide
    simp only [comp_apply, heapBase_eq, frameSize] at hp
    simp only [tmpMapMaxPages] at hs
    simp only [← hp, tmpMapAddrFromIndex, temporaryVirtMapAddr, frameSize, pdIndex] at heq
    omega
  · cases h
    rfl

theorem createTempVirtualMap_cases (h : v.createTempVirtualMap debug pge fresh = some (r, v')) :
    ∃ b v1, v.kmallocSmall debug pge fresh = some (b, v1)
      ∧ ((r = none ∧ v' = v1)
        ∨ (r = none ∧ v1.frames.allocateFrame.1 = 0
          ∧ v' = { v1 with frames := v1.frames.allocateFrame.2 })
        ∨ ∃ slot st mmu frames, v1.findFreeTmpMapSlot = some slot
          ∧ v1.frames.allocateFrame.1 ≠ 0
          ∧ mapSinglePage v1.frames.allocateFrame.1 (tmpMapAddrFromIndex slot)
            (pagePresent ||| pageRW) v1.mmu v1.frames.allocateFrame.2 = (st, mmu, frames)
          ∧ ((r = none ∧ st ≠ .ok ∧ ∃ frames',
              frames.freeFrame debug v1.frames.allocateFrame.1 = some frames'
                ∧ v' = { v1 with mmu, frames := frames' })
            ∨ (r = some ⟨⟨tmpMapAddrFromIndex slot, v1.frames.allocateFrame.1⟩, slot⟩ ∧ st = .ok
              ∧ zeroPage (tmpMapAddrFromIndex slot)
                { v1 with mmu, frames, tmpmap := setBit v1.tmpmap slot } = some v'))) := by
  unfold createTempVirtualMap at h
  obtain ⟨⟨b, v1⟩, hk, h⟩ := bind_eq_some_iff.1 h
  refine ⟨b, v1, hk, ?_⟩
  simp only [] at h
  by_cases hb : (!b) = true
  · rw [if_pos hb] at h
    cases h
    exact .inl ⟨rfl, rfl⟩
  rw [if_neg hb] at h
  split at h
  · cases h
    exact .inl ⟨rfl, rfl⟩
  next slot hslot =>
  by_cases h0 : v1.frames.allocateFrame.1 = 0
  · rw [if_pos h0] at h
    cases h
    exact .inr (.inl ⟨rfl, h0, rfl⟩)
  rw [if_neg h0] at h
  split at h
  · next mmu frames hm =>
    obtain ⟨v2, hz, h⟩ := bind_eq_some_iff.1 h
    cases h
    exact .inr (.inr ⟨slot, .ok, mmu, frames, hslot, h0, hm, .inr ⟨rfl, rfl, hz⟩⟩)
  next st mmu frames hst hm =>
  obtain ⟨frames', hf, h⟩ := bind_eq_some_iff.1 h
  cases h
  exact .inr (.inr ⟨slot, st, mmu, frames, hslot, h0, hm, .inl ⟨rfl, hst, frames', hf, rfl⟩⟩)

/-- A temporary map that was just made, on a slot and a page that were free. -/
structure NewMap (v : Vm) (used : List ℕ) (v' : Vm) (used' : List ℕ) (m : VirtualMap) : Prop where
  map : TempMap v' used' m
  free : v.findFreeTmpMapSlot = some m.slot
  tmpmap : v'.tmpmap = setBit v.tmpmap m.slot
  absent : v.mmu.lookup (pdIndex m.addr.virt) (ptIndex m.addr.virt) = none
  fresh : m.addr.phys ∉ used
  zero : ∀ j, v'.mmu.table m.addr.phys j = 0#32
  others : ∀ s < tmpMapMaxPages, s ≠ m.slot → v'.slotEntry s = v.slotEntry s

theorem NewMap.clear (hN : NewMap v used v' used' m) : testBit v.tmpmap m.slot = false :=
  (scanClear_some (by decide) v.tmpmap _ _ hN.free).2.2.1

theorem createTempVirtualMap_spec (hS : Space regions used v.mmu v.frames)
    (h : v.createTempVirtualMap debug pge fresh = some (r, v')) :
    ∃ used', v.Extends regions ∅ used v' used'
      ∧ (r = none → v'.tmpmap = v.tmpmap ∧ ∀ s < tmpMapMaxPages, v'.slotEntry s = v.slotEntry s)
      ∧ ∀ m, r = some m → NewMap v used v' used' m := by
  obtain ⟨b, v1, hk, h⟩ := createTempVirtualMap_cases h
  obtain ⟨used₁, he1, ht1⟩ := kmallocSmall_spec hS hk
  have hslots : ∀ s < tmpMapMaxPages, v1.slotEntry s = v.slotEntry s :=
    fun s hs => kmallocSmall_slot hS hk hs
  have hS1 := he1.space
  rcases h with ⟨rfl, rfl⟩ | ⟨rfl, h0, rfl⟩
    | ⟨slot, st, mmu, frames, hslot, h0, hm, ⟨rfl, hst, frames', hf, rfl⟩ | ⟨rfl, rfl, hz⟩⟩
  · exact ⟨used₁, he1, fun _ => ⟨ht1, hslots⟩, fun _ h => by cases h⟩
  · rcases hS1.frames.allocateFrame with ⟨-, hI⟩ | ⟨hne, -⟩
    · exact ⟨used₁, ⟨hS1.reframe hI, he1.pages, he1.tmpmap⟩, fun _ => ⟨ht1, hslots⟩,
        fun _ h => by cases h⟩
    · exact absurd h0 hne
  all_goals
    rcases hS1.frames.allocateFrame with ⟨h0', -⟩ | ⟨-, hl, ho, hI⟩
    · exact absurd h0' h0
    obtain ⟨-, hlt, hclear, -⟩ := scanClear_some (by decide) v1.tmpmap _ _ hslot
    have hslot' : slot < tmpMapMaxPages := by
      have : (0 + tmpMapBitmapWords) * 32 = tmpMapMaxPages := by decide
      omega
    have hv := tmpMapAddr_scratch hslot'
  · obtain ⟨rfl, -, -, hno⟩ := mapSinglePage_scratch (hS1.allocated hI) hv hm
    obtain rfl := hno hst
    exact ⟨used₁, ⟨hS1.giveBack hI hf, he1.pages, he1.tmpmap⟩, fun _ => ⟨ht1, hslots⟩,
      fun _ h => by cases h⟩
  · obtain ⟨used', hS', -, hu, hok, -⟩ := mapSinglePage_spec (hS1.allocated hI) hv.pdIndex.2 hm
    obtain ⟨rfl, rfl⟩ := hu (hS1.kernel _ hv.pdIndex)
    obtain ⟨-, -, he, -⟩ := mapSinglePage_scratch (hS1.allocated hI) hv hm
    obtain ⟨hnone, hlook⟩ := hok rfl
    set f := v1.frames.allocateFrame.1
    obtain ⟨-, hflt, hfal⟩ := ho.bounds
    have hown : v1.mmu.Own (f :: used₁) f :=
      ⟨List.mem_cons_self .., fun hh => hl (hS1.wellFormed.live f hh)⟩
    set m : VirtualMap := ⟨⟨tmpMapAddrFromIndex slot, f⟩, slot⟩
    set v2 : Vm := ⟨⟨v1.bitmap, mmu, v1.frames.allocateFrame.2⟩, setBit v1.tmpmap slot⟩
    have hM : TempMap v2 (f :: used₁) m := by
      have hbit : testBit (setBit v1.tmpmap slot) slot = true := by
        rw [testBit_setBit (by decide)]
        simp
      refine ⟨hslot', hbit, rfl, ⟨BitVec.ofNat 32 f ||| (pagePresent ||| pageRW), ?_, ?_⟩,
        (hown.evolve he.toEvolves).1⟩
      · rw [hlook _ hv.pdIndex.2, if_pos ⟨rfl, rfl⟩, entryPresent_or _ (by decide), if_pos rfl]
      · exact entryFrame_or hflt hfal (by decide)
    have he2 : v1.Extends regions ∅ used₁ v2 (f :: used₁) := by
      refine ⟨hS', (Extends.more (List.subset_cons_self ..)).trans he, fun s hs => ?_⟩
      rw [testBit_setBit (by decide), hs]
      rfl
    rw [hM.zeroPage_eq] at hz
    obtain rfl := Option.some.inj hz
    have hpoke := hM.poke hS' fun _ => 0#32
    have hfresh : f ∉ used := fun h => hl (he1.sub h)
    refine ⟨f :: used₁, ?_, (fun h => by cases h), ?_⟩
    · refine ((he1.trans he2).weaken fun _ _ h => h.elim).trans hpoke |>.weaken fun g hg hgf => ?_
      have hgf : g = f := hgf
      exact (hfresh (hgf ▸ hg)).elim
    · rintro _ ⟨⟩
      refine ⟨hM.extend hpoke, ?_, ?_, ?_, hfresh, fun j => ?_, fun s hs hne => ?_⟩
      · unfold findFreeTmpMapSlot at hslot ⊢
        rwa [ht1] at hslot
      · rw [← ht1]
        rfl
      · rcases hlu : v.mmu.lookup (pdIndex m.addr.virt) (ptIndex m.addr.virt) with _ | e
        · rfl
        · rw [he1.pages.keeps _ hv.pdIndex.2 _ e hlu] at hnone
          cases hnone
      · exact congrFun (setFrame_self ..) j
      · have hlt := (tmpMapAddr_bounds hs).2.2
        rw [← hslots s hs]
        refine ((hS'.poke hM.own.2 fun _ => 0#32).2.2 _ hlt _).trans ?_
        rw [hlook _ hlt, if_neg fun h => hne (tmpMapAddr_inj hs hslot' h.2)]
        rfl

theorem NewMap.close {v1 v2 v3 : Vm} {used₁ used2 : List ℕ} {touched' : Set ℕ}
    (hN : NewMap v used v1 used₁ m) (he1 : v.Extends regions ∅ used v1 used₁)
    (he : v1.Extends regions touched used₁ v2 used2) (ht : v2.tmpmap = v1.tmpmap)
    (h : v2.deleteTempVirtualMap debug m = some v3) (hT : ∀ f ∈ used, f ∈ touched → f ∈ touched') :
    v.Extends regions touched' used v3 used2 ∧ v3.tmpmap = v.tmpmap
      ∧ ∀ f, v2.mmu.Own used2 f → v3.mmu.Own used2 f ∧ v3.mmu.table f = v2.mmu.table f := by
  obtain ⟨mmu, hdel, hS, hev, hlook⟩ := (hN.map.extend he).delete he.space debug
  rw [hdel] at h
  obtain rfl := Option.some.inj h
  have hclear := hN.clear
  have htmp : clearBit v2.tmpmap m.slot = v.tmpmap := by
    rw [ht, hN.tmpmap, clearBit_setBit (by decide) hclear]
  refine ⟨⟨hS, ⟨?_, fun i hi j e hl => ?_, fun i hi j ha => ?_⟩, fun s hs => ?_⟩, htmp,
    fun f hf => ?_⟩
  · have hfirst : v.mmu.Evolves touched used v1.mmu used₁ :=
      he1.pages.toEvolves.weaken fun _ _ h => h.elim
    have hlast : v2.mmu.Evolves touched used2 mmu used2 := hev.weaken fun _ _ h => h.elim
    exact ((hfirst.trans he.pages.toEvolves).trans hlast).weaken hT
  · rw [hlook i hi j, if_neg]
    · exact he.pages.keeps i hi j e (he1.pages.keeps i hi j e hl)
    · rintro ⟨rfl, rfl⟩
      rw [hN.absent] at hl
      cases hl
  · rw [hlook i hi j, if_neg (ha _ (hN.map.virt ▸ tmpMapAddr_scratch hN.map.slot))]
    exact (he.pages.outside i hi j ha).trans (he1.pages.outside i hi j ha)
  · change testBit (clearBit v2.tmpmap m.slot) s = true
    rw [htmp]
    exact hs
  · obtain ⟨hown, hrow⟩ := hf.evolve hev
    exact ⟨hown, hrow (Set.notMem_empty f)⟩

end TempMaps

section Building

variable {regions : List MemoryRegion} {used used' : List ℕ} {debug pge : Bool} {v v' : Vm}
  {pd pt : VirtualMap}

theorem poked_poked (v : Vm) (m : VirtualMap) (row row' : ℕ → BitVec 32) :
    TempMap.poked (TempMap.poked v m row) m row' = TempMap.poked v m row' := by
  unfold TempMap.poked setFrame
  simp only [update_idem]

theorem poked_table (v : Vm) (m : VirtualMap) (row : ℕ → BitVec 32) :
    (TempMap.poked v m row).mmu.table m.addr.phys = row := setFrame_self ..

theorem poked_pde (hM : TempMap v used pd) (row : ℕ → BitVec 32) (i : ℕ) :
    (TempMap.poked v pd row).mmu.pde i = v.mmu.pde i := by
  have hne : v.mmu.cr3 ≠ pd.addr.phys := fun h => hM.own.2 (.inl h.symm)
  unfold TempMap.poked setFrame pde
  simp only [update_of_ne hne]

theorem ptIndex_lt (x : ℕ) : ptIndex x < 1024 := Nat.mod_lt _ (by decide)

theorem copyKernelEntries_eq (hM : TempMap v used pd) (hS : Space regions used v.mmu v.frames) :
    v.copyKernelEntries pd.addr.virt = some (TempMap.poked v pd fun k =>
      if 768 ≤ k ∧ k < 1023 then v.mmu.pde k else v.mmu.table pd.addr.phys k) := by
  have hfirst : kernelPDIndex = 768 := by decide
  have hcount : maxPDEntries - 1 - kernelPDIndex = 255 := by decide
  unfold copyKernelEntries
  rw [hcount, hfirst]
  -- after `n` rounds the first `n` entries are there
  have htotal := Loop.times_total (I := fun n s => s = TempMap.poked v pd fun k =>
    if 768 ≤ k ∧ k < 768 + n then v.mmu.pde k else v.mmu.table pd.addr.phys k)
    (f := fun i v => v.store (pd.addr.virt + 4 * (768 + i)) (v.mmu.pde (768 + i))) (s := v) 255
    ?_ ?_
  · obtain ⟨v', hv', hrow⟩ := htotal
    rw [hv', hrow]
  · rintro n hn s rfl
    set row := fun k => if 768 ≤ k ∧ k < 768 + n then v.mmu.pde k
      else v.mmu.table pd.addr.phys k with hrow
    have hM' := hM.extend (hM.poke hS row)
    rw [hM'.store_eq (by omega), poked_pde hM, poked_table, poked_poked]
    refine ⟨_, rfl, congrArg _ (funext fun k => ?_)⟩
    rw [hrow]
    by_cases hk : k = 768 + n
    · subst hk
      rw [update_self, if_pos (by omega)]
    · rw [update_of_ne hk]
      simp only [show (768 ≤ k ∧ k < 768 + (n + 1)) ↔ (768 ≤ k ∧ k < 768 + n) by omega]
  · unfold TempMap.poked setFrame
    have hid : (fun k => if 768 ≤ k ∧ k < 768 + 0 then v.mmu.pde k
        else v.mmu.table pd.addr.phys k) = v.mmu.table pd.addr.phys := by
      funext k
      rw [if_neg (by omega)]
    rw [hid, update_eq_self]

/-- Pages that were taken one after the other: their frames were not in use, hold none of the
current tables, and are all different. -/
structure Pages (v : Vm) (used₀ used : List ℕ) (n : ℕ) (c : ℕ → ℕ) : Prop where
  fresh : ∀ k < n, c k ∉ used₀
  own : ∀ k < n, v.mmu.Own used (c k)
  inj : ∀ k < n, ∀ l < n, c k = c l → k = l

namespace Pages

variable {used₀ used₁ : List ℕ} {n : ℕ} {c : ℕ → ℕ} {touched : Set ℕ}

theorem nil (v : Vm) (used₀ used : List ℕ) (c : ℕ → ℕ) : Pages v used₀ used 0 c :=
  ⟨fun k hk => by omega, fun k hk => by omega, fun k hk => by omega⟩

theorem extend (hP : Pages v used₀ used n c) (he : v.Extends regions touched used v' used') :
    Pages v' used₀ used' n c := { hP with own := fun k hk => he.own (hP.own k hk) }

theorem mono (hP : Pages v used₁ used n c) (hsub : used₀ ⊆ used₁) : Pages v used₀ used n c :=
  { hP with fresh := fun k hk h => hP.fresh k hk (hsub h) }

theorem add (hP : Pages v used₀ used n c) (he : v.Extends regions touched used v' used')
    (hsub : used₀ ⊆ used) {f : ℕ} (hf : f ∉ used) (hown : v'.mmu.Own used' f) :
    Pages v' used₀ used' (n + 1) (update c n f) := by
  have hlt : ∀ k < n, update c n f k = c k := fun k hk => update_of_ne hk.ne ..
  have hnew : ∀ k < n, c k ≠ f := fun k hk h => hf (h ▸ (hP.own k hk).1)
  refine ⟨fun k hk => ?_, fun k hk => ?_, fun k hk l hl h => ?_⟩
  · rcases Nat.lt_succ_iff_lt_or_eq.1 hk with hk | rfl
    · rw [hlt k hk]
      exact hP.fresh k hk
    · rw [update_self]
      exact fun h => hf (hsub h)
  · rcases Nat.lt_succ_iff_lt_or_eq.1 hk with hk | rfl
    · rw [hlt k hk]
      exact he.own (hP.own k hk)
    · rw [update_self]
      exact hown
  · rcases Nat.lt_succ_iff_lt_or_eq.1 hk with hk | rfl <;>
      rcases Nat.lt_succ_iff_lt_or_eq.1 hl with hl | rfl
    · rw [hlt k hk, hlt l hl] at h
      exact hP.inj k hk l hl h
    · rw [hlt k hk, update_self] at h
      exact absurd h (hnew k hk)
    · rw [hlt l hl, update_self] at h
      exact absurd h.symm (hnew l hl)
    · rfl

end Pages

theorem addStackPage_spec {fresh : Bool} {st : VirtualMap} {i : ℕ} (hM : TempMap v used st)
    (hS : Space regions used v.mmu v.frames) (h : v.addStackPage debug pge fresh st i = some v') :
    ∃ used' f, v.Extends regions {st.addr.phys} used v' used' ∧ v'.tmpmap = v.tmpmap
      ∧ f ∉ used ∧ v'.mmu.Own used' f
      ∧ v'.mmu.table st.addr.phys = update (v.mmu.table st.addr.phys)
        (ptIndex (defaultUserStackAddr - i * frameSize)) (BitVec.ofNat 32 f ||| userPageFlags) := by
  unfold addStackPage at h
  obtain ⟨⟨r, v1⟩, hr, h⟩ := bind_eq_some_iff.1 h
  obtain ⟨m, hm, h⟩ := bind_eq_some_iff.1 h
  obtain ⟨v2, hs, h⟩ := bind_eq_some_iff.1 h
  obtain ⟨used₁, he1, -, hnew⟩ := createTempVirtualMap_spec hS hr
  have hN := hnew m hm
  have hM1 := hM.extend he1
  rw [hM1.store_eq (ptIndex_lt _)] at hs
  obtain rfl := Option.some.inj hs
  have he2 := hM1.poke he1.space (update (v1.mmu.table st.addr.phys)
    (ptIndex (defaultUserStackAddr - i * frameSize))
    (BitVec.ofNat 32 m.addr.phys ||| userPageFlags))
  obtain ⟨he, ht, hkeep⟩ := hN.close he1 he2 rfl h fun _ _ h => h
  refine ⟨used₁, m.addr.phys, he, ht, hN.fresh, (hkeep _ (he2.own hN.map.own)).1, ?_⟩
  rw [(hkeep _ (he2.own hM1.own)).2, poked_table, he1.row hM.own (Set.notMem_empty _)]

/-- The table of a user stack that has `n` of its pages, from the top one down. -/
def stackRow (g : ℕ → ℕ) (n j : ℕ) : BitVec 32 :=
  if j ≤ 1008 ∧ 1008 < j + n then BitVec.ofNat 32 (g (1008 - j)) ||| userPageFlags else 0#32

theorem stackRow_update (g : ℕ → ℕ) (f : ℕ) {n j : ℕ} (hn : n ≤ 1008) :
    update (stackRow g n) (1008 - n) (BitVec.ofNat 32 f ||| userPageFlags) j
      = stackRow (update g n f) (n + 1) j := by
  unfold stackRow
  by_cases hj : j = 1008 - n
  · subst hj
    rw [update_self, if_pos (by omega), show 1008 - (1008 - n) = n by omega,
      update_self]
  rw [update_of_ne hj]
  by_cases hc : j ≤ 1008 ∧ 1008 < j + n
  · rw [if_pos hc, if_pos (by omega), update_of_ne (by omega)]
  · rw [if_neg hc, if_neg (by omega)]

theorem addUserStack_spec {fresh : ℕ → Bool} (hM : TempMap v used pd)
    (hS : Space regions used v.mmu v.frames)
    (h : v.addUserStack debug pge fresh pd.addr.virt = some v') :
    ∃ used' st g, v.Extends regions {pd.addr.phys} used v' used' ∧ v'.tmpmap = v.tmpmap
      ∧ (st ∉ used ∧ v'.mmu.Own used' st)
      ∧ v'.mmu.table pd.addr.phys = update (v.mmu.table pd.addr.phys)
        (pdIndex defaultUserStackAddr) (BitVec.ofNat 32 st ||| userPageFlags)
      ∧ Pages v' (st :: used) used' userStackSizePages g
      ∧ ∀ j, v'.mmu.table st j = stackRow g userStackSizePages j := by
  unfold addUserStack at h
  obtain ⟨⟨r, v1⟩, hr, h⟩ := bind_eq_some_iff.1 h
  obtain ⟨st, hst, h⟩ := bind_eq_some_iff.1 h
  obtain ⟨v2, hz, h⟩ := bind_eq_some_iff.1 h
  obtain ⟨v3, hloop, h⟩ := bind_eq_some_iff.1 h
  obtain ⟨v4, hs, h⟩ := bind_eq_some_iff.1 h
  obtain ⟨used₁, he1, -, hnew⟩ := createTempVirtualMap_spec hS hr
  have hN := hnew st hst
  have hne : pd.addr.phys ≠ st.addr.phys := fun h => hN.fresh (h ▸ hM.own.1)
  rw [hN.map.zeroPage_eq] at hz
  obtain rfl := Option.some.inj hz
  have he2 := hN.map.poke he1.space fun _ => 0#32
  -- each round enters one page in the table of the stack, and writes nowhere else
  obtain ⟨used3, g, he3, ht3, hP3, hrow3⟩ := Loop.times_invariant
    (I := fun i s => ∃ used' g, v1.Extends regions {st.addr.phys} used₁ s used'
      ∧ s.tmpmap = v1.tmpmap ∧ Pages s used₁ used' i g
      ∧ ∀ j, s.mmu.table st.addr.phys j = stackRow g i j) userStackSizePages (by
      rintro i hi s s' ⟨used', g, he, ht, hP, hrow⟩ hs
      obtain ⟨used'', f, he', ht', hf, hown, hrow'⟩ :=
        addStackPage_spec (hN.map.extend he) he.space hs
      have hi : i < 4 := hi
      have hidx : ptIndex (defaultUserStackAddr - i * frameSize) = 1008 - i := by
        simp only [ptIndex, defaultUserStackAddr, frameSize]
        omega
      refine ⟨used'', update g i f, he.trans he', ht'.trans ht,
        hP.add he' he.sub hf hown, fun j => ?_⟩
      rw [hrow', hidx, funext hrow, stackRow_update g f (by omega)])
    ⟨used₁, fun _ => 0, he2, rfl, .nil .., fun j => by
      rw [poked_table, stackRow, if_neg (by omega)]⟩ hloop
  have hM3 := (hM.extend he1).extend he3
  have hpd : pdIndex defaultUserStackAddr < 1024 := by decide
  rw [hM3.store_eq hpd] at hs
  obtain rfl := Option.some.inj hs
  have he4 := hM3.poke he3.space (update (v3.mmu.table pd.addr.phys)
    (pdIndex defaultUserStackAddr) (BitVec.ofNat 32 st.addr.phys ||| userPageFlags))
  have he : v1.Extends regions {st.addr.phys, pd.addr.phys} used₁ _ used3 :=
    (he3.weaken fun _ _ h => .inl h).trans (he4.weaken fun _ _ h => .inr h)
  have hT : ∀ f ∈ used, f ∈ ({st.addr.phys, pd.addr.phys} : Set ℕ) →
      f ∈ ({pd.addr.phys} : Set ℕ) := by
    rintro f hf (rfl | hfp)
    · exact (hN.fresh hf).elim
    · exact hfp
  obtain ⟨hall, ht, hkeep⟩ := hN.close he1 he ht3 h hT
  have hown := (hM.extend he1).own
  have hst4 := he.own hN.map.own
  refine ⟨used3, st.addr.phys, g, hall, ht, ⟨hN.fresh, (hkeep _ hst4).1⟩, ?_, ?_, fun j => ?_⟩
  · rw [(hkeep _ (he.own hown)).2, poked_table, he3.row hown hne,
      he1.row hM.own (Set.notMem_empty _)]
  · refine ⟨fun k hk h => hP3.fresh k hk ?_, fun k hk => ?_, hP3.inj⟩
    · rcases List.mem_cons.1 h with h | h
      · exact h ▸ hN.map.own.1
      · exact he1.sub h
    · exact (hkeep _ (he4.own (hP3.own k hk))).1
  · rw [(hkeep _ hst4).2, he4.row (he3.own hN.map.own) hne.symm]
    exact hrow3 j

theorem frameBytes_frameWords (bytes : Memory.Mem) : frameBytes (frameWords bytes) = bytes := by
  funext x
  unfold frameBytes frameWords
  rw [Memory.extractLsb_read32 bytes _ (Nat.mod_lt x (by decide)), Nat.div_add_mod]

theorem frameBytes_zero (x : ℕ) : frameBytes (fun _ => 0#32) x = 0#8 := by
  simp [frameBytes]

/-- A page of the executable: its entry is stored where `pt` says, which may be on the page of any
map, and its frame holds its part of the executable. -/
theorem copyCodePage_spec {fresh : Bool} {code : Memory.Mem} {codeSize a k j : ℕ} {q : VirtualMap}
    (hM : TempMap v used q) (hS : Space regions used v.mmu v.frames) (hj : j < 1024)
    (ha : a + 4 * ((flatBinaryDefaultEntry + k * frameSize) / frameSize) = q.addr.virt + 4 * j)
    (h : v.copyCodePage debug pge fresh code codeSize a k = some v') :
    ∃ used' c, v.Extends regions {q.addr.phys} used v' used' ∧ v'.tmpmap = v.tmpmap
      ∧ c ∉ used ∧ v'.mmu.Own used' c
      ∧ v'.mmu.table q.addr.phys = update (v.mmu.table q.addr.phys) j
        (BitVec.ofNat 32 c ||| userPageFlags)
      ∧ ∀ x < frameSize, frameBytes (v'.mmu.table c) x =
        if k * frameSize + x < codeSize then code (k * frameSize + x) else 0#8 := by
  unfold copyCodePage at h
  obtain ⟨⟨r, v1⟩, hr, h⟩ := bind_eq_some_iff.1 h
  obtain ⟨c, hc, h⟩ := bind_eq_some_iff.1 h
  obtain ⟨v2, hs, h⟩ := bind_eq_some_iff.1 h
  obtain ⟨v3, hz, h⟩ := bind_eq_some_iff.1 h
  obtain ⟨v4, hcopy, h⟩ := bind_eq_some_iff.1 h
  obtain ⟨used₁, he1, -, hnew⟩ := createTempVirtualMap_spec hS hr
  have hN := hnew c hc
  have hne : q.addr.phys ≠ c.addr.phys := fun h => hN.fresh (h ▸ hM.own.1)
  have hM1 := hM.extend he1
  rw [ha, hM1.store_eq hj] at hs
  obtain rfl := Option.some.inj hs
  have he2 := hM1.poke he1.space
    (update (v1.mmu.table q.addr.phys) j (BitVec.ofNat 32 c.addr.phys ||| userPageFlags))
  have hC2 := hN.map.extend he2
  rw [hC2.zeroPage_eq] at hz
  obtain rfl := Option.some.inj hz
  have he3 := hC2.poke he2.space fun _ => 0#32
  have hC3 := hC2.extend he3
  rw [hC3.copyToPage_eq, poked_poked, poked_table] at hcopy
  obtain rfl := Option.some.inj hcopy
  set copySize := if codeSize - k * frameSize < frameSize then codeSize - k * frameSize
    else frameSize with hsize
  have he4 := hC2.poke he2.space (frameWords fun x =>
    if x < copySize then code (k * frameSize + x) else frameBytes (fun _ => 0#32) x)
  have he : v1.Extends regions {q.addr.phys, c.addr.phys} used₁ _ used₁ :=
    (he2.weaken fun _ _ h => .inl h).trans (he4.weaken fun _ _ h => .inr h)
  have hT : ∀ f ∈ used, f ∈ ({q.addr.phys, c.addr.phys} : Set ℕ) →
      f ∈ ({q.addr.phys} : Set ℕ) := by
    rintro f hf (hfq | rfl)
    · exact hfq
    · exact (hN.fresh hf).elim
  obtain ⟨hall, ht, hkeep⟩ := hN.close he1 he rfl h hT
  refine ⟨used₁, c.addr.phys, hall, ht, hN.fresh, (hkeep _ (he.own hN.map.own)).1, ?_,
    fun x hx => ?_⟩
  · rw [(hkeep _ (he.own hM1.own)).2, he4.row (he2.own hM1.own) hne, poked_table,
      he1.row hM.own (Set.notMem_empty _)]
  · rw [(hkeep _ (he.own hN.map.own)).2, poked_table, frameBytes_frameWords, frameBytes_zero, hsize]
    have hiff : (x < if codeSize - k * frameSize < frameSize then codeSize - k * frameSize
        else frameSize) ↔ k * frameSize + x < codeSize := by
      split_ifs <;> omega
    simp only [hiff]

/-- Where the entries of `n` code pages go: to the table, and from the end of the table on to the
directory if that is mapped right behind it. -/
def EntriesMapped (pd pt : VirtualMap) (n : ℕ) : Prop :=
  n ≤ 768 ∨ (n ≤ 1792 ∧ pd.addr.virt = pt.addr.virt + frameSize)

theorem EntriesMapped.cases {n i : ℕ} (h : EntriesMapped pd pt n) (hi : i < n) :
    ∃ p j, ((p = pt ∧ j = 256 + i ∧ i < 768) ∨ (p = pd ∧ j + 768 = i)) ∧ j < 1024
      ∧ pt.addr.virt + 4 * ((flatBinaryDefaultEntry + i * frameSize) / frameSize)
        = p.addr.virt + 4 * j := by
  have hidx : (flatBinaryDefaultEntry + i * frameSize) / frameSize = 256 + i := by
    simp only [flatBinaryDefaultEntry, frameSize]
    omega
  rw [hidx]
  by_cases hlt : i < 768
  · exact ⟨pt, 256 + i, .inl ⟨rfl, rfl, hlt⟩, by omega, rfl⟩
  rcases h with h | ⟨h, hpd⟩
  · omega
  refine ⟨pd, i - 768, .inr ⟨rfl, by omega⟩, by omega, ?_⟩
  rw [hpd]
  simp only [frameSize]
  omega

/-- The first `n` pages of the executable are in the frames `c`. -/
structure CodePages (v : Vm) (used₀ used : List ℕ) (code : Memory.Mem) (codeSize n : ℕ)
    (c : ℕ → ℕ) : Prop extends Pages v used₀ used n c where
  bytes : ∀ k < n, ∀ x < frameSize, frameBytes (v.mmu.table (c k)) x =
    if k * frameSize + x < codeSize then code (k * frameSize + x) else 0#8

def codeRow (c : ℕ → ℕ) (n j : ℕ) : BitVec 32 :=
  if 256 ≤ j ∧ j < 256 + n then BitVec.ofNat 32 (c (j - 256)) ||| userPageFlags else 0#32

/-- What the entries that do not fit in the table leave in the directory. -/
def spillRow (c : ℕ → ℕ) (old : ℕ → BitVec 32) (n j : ℕ) : BitVec 32 :=
  if j + 768 < n then BitVec.ofNat 32 (c (j + 768)) ||| userPageFlags else old j

section Rows

variable (c : ℕ → ℕ) (old : ℕ → BitVec 32) (f : ℕ) {n j : ℕ}

theorem codeRow_update :
    (if j = 256 + n then BitVec.ofNat 32 f ||| userPageFlags else codeRow c n j)
    = codeRow (update c n f) (n + 1) j := by
  unfold codeRow
  by_cases hj : j = 256 + n
  · subst hj
    rw [if_pos rfl, if_pos (by omega), Nat.add_sub_cancel_left, update_self]
  rw [if_neg hj]
  by_cases hc : 256 ≤ j ∧ j < 256 + n
  · rw [if_pos hc, if_pos (by omega), update_of_ne (by omega)]
  · rw [if_neg hc, if_neg (by omega)]

theorem codeRow_full (hn : 768 ≤ n) (hj : j < 1024) :
    codeRow (update c n f) (n + 1) j = codeRow c n j := by
  unfold codeRow
  by_cases hc : 256 ≤ j
  · rw [if_pos (by omega), if_pos (by omega), update_of_ne (by omega)]
  · rw [if_neg (by omega), if_neg (by omega)]

theorem spillRow_update : (if j + 768 = n then BitVec.ofNat 32 f ||| userPageFlags
    else spillRow c old n j) = spillRow (update c n f) old (n + 1) j := by
  unfold spillRow
  by_cases hj : j + 768 = n
  · rw [if_pos hj, if_pos (by omega), hj, update_self]
  rw [if_neg hj]
  by_cases hc : j + 768 < n
  · rw [if_pos hc, if_pos (by omega), update_of_ne (by omega)]
  · rw [if_neg hc, if_neg (by omega)]

theorem spillRow_of_le (hn : n ≤ 768) : spillRow c old n j = old j := if_neg (by omega)

end Rows

variable {code : Memory.Mem} {codeSize n st : ℕ} {fresh : ℕ → Bool} {g : ℕ → ℕ}

theorem copyCode_spec (hpd : TempMap v used pd) (hpt : TempMap v used pt)
    (hne : pd.addr.phys ≠ pt.addr.phys) (hS : Space regions used v.mmu v.frames)
    (hzero : ∀ j, v.mmu.table pt.addr.phys j = 0#32) (hn : EntriesMapped pd pt n)
    (h : Loop.times (fun k => copyCodePage debug pge (fresh k) code codeSize pt.addr.virt k) n v
      = some v') :
    ∃ used' c, v.Extends regions {pd.addr.phys, pt.addr.phys} used v' used' ∧ v'.tmpmap = v.tmpmap
      ∧ CodePages v' used used' code codeSize n c
      ∧ (∀ j < 1024, v'.mmu.table pt.addr.phys j = codeRow c n j)
      ∧ ∀ j, v'.mmu.table pd.addr.phys j = spillRow c (v.mmu.table pd.addr.phys) n j := by
  refine Loop.times_invariant (I := fun n s => ∃ used' c,
    v.Extends regions {pd.addr.phys, pt.addr.phys} used s used' ∧ s.tmpmap = v.tmpmap
      ∧ CodePages s used used' code codeSize n c
      ∧ (∀ j < 1024, s.mmu.table pt.addr.phys j = codeRow c n j)
      ∧ ∀ j, s.mmu.table pd.addr.phys j = spillRow c (v.mmu.table pd.addr.phys) n j) n ?_
    ⟨used, fun _ => 0, .refl hS, rfl, ⟨.nil .., fun k hk => by omega⟩, fun j _ => ?_,
      fun j => (spillRow_of_le _ _ (by omega)).symm⟩ h
  · rintro k hk s s' ⟨used₁, c, he, ht, hC, hrow, hspill⟩ hs
    obtain ⟨p, j, hp, hj, ha⟩ := hn.cases hk
    have hmem : p.addr.phys ∈ used ∧ p.addr.phys ∈ ({pd.addr.phys, pt.addr.phys} : Set ℕ)
        ∧ TempMap s used₁ p := by
      rcases hp with ⟨rfl, -⟩ | ⟨rfl, -⟩
      · exact ⟨hpt.own.1, .inr rfl, hpt.extend he⟩
      · exact ⟨hpd.own.1, .inl rfl, hpd.extend he⟩
    obtain ⟨hused, htouched, hM⟩ := hmem
    obtain ⟨used2, f, he', ht', hf, hown, hrow', hbytes⟩ :=
      copyCodePage_spec hM he.space hj ha hs
    have hold : ∀ l < k, c l ∉ ({p.addr.phys} : Set ℕ) := fun l hl hcl =>
      hC.fresh l hl (Set.mem_singleton_iff.1 hcl ▸ hused)
    have he2 : s.Extends regions {pd.addr.phys, pt.addr.phys} used₁ s' used2 :=
      he'.weaken fun g _ hg => Set.mem_singleton_iff.1 hg ▸ htouched
    refine ⟨used2, update c k f, he.trans he2, ht'.trans ht,
      ⟨hC.toPages.add he' he.sub hf hown, fun l hl => ?_⟩, fun i hi => ?_, fun i => ?_⟩
    · rcases Nat.lt_succ_iff_lt_or_eq.1 hl with hl | rfl
      · rw [update_of_ne hl.ne, he'.row (hC.own l hl) (hold l hl)]
        exact hC.bytes l hl
      · rw [update_self]
        exact hbytes
    · rcases hp with ⟨rfl, rfl, -⟩ | ⟨rfl, hj'⟩
      · rw [hrow', update_apply, hrow i hi]
        exact codeRow_update c f
      · rw [he'.row (hpt.extend he).own fun h => hne (Set.mem_singleton_iff.1 h).symm, hrow i hi,
          codeRow_full c f (by omega) hi]
    · rcases hp with ⟨rfl, rfl, hk'⟩ | ⟨rfl, hj'⟩
      · rw [he'.row (hpd.extend he).own fun h => hne (Set.mem_singleton_iff.1 h), hspill,
          spillRow_of_le _ _ (by omega), spillRow_of_le _ _ (by omega)]
      · rw [hrow', update_apply, hspill, ← spillRow_update]
        exact if_congr (by omega) rfl rfl
  · rw [hzero, codeRow, if_neg (by omega)]

/-- The new directory and its first table are mapped, and the user stack is in. `v` is the state
when only the directory was mapped. -/
structure Staged (regions : List MemoryRegion) (v : Vm) (used : List ℕ) (v' : Vm)
    (used' : List ℕ) (pd pt : VirtualMap) (st : ℕ) (g : ℕ → ℕ) : Prop where
  pages : v.Extends regions {pd.addr.phys} used v' used'
  directory : TempMap v' used' pd
  table : TempMap v' used' pt
  tmpmap : v'.tmpmap = setBit v.tmpmap pt.slot
  stackOwn : v'.mmu.Own used' st
  stackPages : Pages v' used used' userStackSizePages g
  stackRow : ∀ j, v'.mmu.table st j = stackRow g userStackSizePages j
  slot : v.findFreeTmpMapSlot = some pt.slot
  clear : testBit v.tmpmap pt.slot = false
  tableFresh : pt.addr.phys ∉ used
  stackFresh : st ∉ used
  stackNe : st ≠ pt.addr.phys
  stackPagesNe : ∀ k < userStackSizePages, g k ≠ pt.addr.phys ∧ g k ≠ st

theorem buildAddressSpace_cases
    (h : v.buildAddressSpace debug pge fresh code codeSize pd = some v') :
    ∃ v1 v2 v3 v4 v5 v6 v7 v8 pt, v.copyKernelEntries pd.addr.virt = some v1
      ∧ v1.createTempVirtualMap debug pge (fresh 0) = some (some pt, v2)
      ∧ v2.zeroPage pt.addr.virt = some v3
      ∧ v3.addUserStack debug pge (fun i => fresh (i + 1)) pd.addr.virt = some v4
      ∧ Loop.times (fun k => copyCodePage debug pge (fresh (k + 6)) code codeSize pt.addr.virt k)
        (pageSteps 0 codeSize) v4 = some v5
      ∧ v5.store pd.addr.virt (BitVec.ofNat 32 pt.addr.phys ||| userPageFlags) = some v6
      ∧ v6.store (pd.addr.virt + 4 * (maxPDEntries - 1))
        (BitVec.ofNat 32 pd.addr.phys ||| kernelPDEFlags) = some v7
      ∧ v7.deleteTempVirtualMap debug pd = some v8
      ∧ v8.deleteTempVirtualMap debug pt = some v' := by
  unfold buildAddressSpace at h
  obtain ⟨v1, h1, h⟩ := bind_eq_some_iff.1 h
  obtain ⟨⟨r, v2⟩, h2, h⟩ := bind_eq_some_iff.1 h
  obtain ⟨pt, hr, h⟩ := bind_eq_some_iff.1 h
  obtain ⟨v3, h3, h⟩ := bind_eq_some_iff.1 h
  obtain ⟨v4, h4, h⟩ := bind_eq_some_iff.1 h
  obtain ⟨v5, h5, h⟩ := bind_eq_some_iff.1 h
  obtain ⟨v6, h6, h⟩ := bind_eq_some_iff.1 h
  obtain ⟨v7, h7, h⟩ := bind_eq_some_iff.1 h
  obtain ⟨v8, h8, h9⟩ := bind_eq_some_iff.1 h
  exact ⟨v1, v2, v3, v4, v5, v6, v7, v8, pt, h1, hr ▸ h2, h3, h4, h5, h6, h7, h8, h9⟩

theorem prepare {v1 v2 v3 v4 : Vm} {fresh0 : Bool} (hM : TempMap v used pd)
    (hS : Space regions used v.mmu v.frames) (hzero : ∀ j, v.mmu.table pd.addr.phys j = 0#32)
    (h1 : v.copyKernelEntries pd.addr.virt = some v1)
    (h2 : v1.createTempVirtualMap debug pge fresh0 = some (some pt, v2))
    (h3 : v2.zeroPage pt.addr.virt = some v3)
    (h4 : v3.addUserStack debug pge fresh pd.addr.virt = some v4) :
    ∃ used' st g, Staged regions v used v4 used' pd pt st g
      ∧ (∀ k, v4.mmu.table pd.addr.phys k =
        if k = 767 then BitVec.ofNat 32 st ||| userPageFlags
        else if 768 ≤ k ∧ k < 1023 then v.mmu.pde k else 0#32)
      ∧ ∀ j, v4.mmu.table pt.addr.phys j = 0#32 := by
  rw [copyKernelEntries_eq hM hS] at h1
  obtain rfl := Option.some.inj h1
  set row := fun k => if 768 ≤ k ∧ k < 1023 then v.mmu.pde k else v.mmu.table pd.addr.phys k
    with hrow
  have he1 := hM.poke hS row
  obtain ⟨used2, he2, -, hnew⟩ := createTempVirtualMap_spec he1.space h2
  have hN := hnew pt rfl
  rw [hN.map.zeroPage_eq] at h3
  obtain rfl := Option.some.inj h3
  have he3 := hN.map.poke he2.space fun _ => 0#32
  have hM1 := hM.extend he1
  have hM2 := hM1.extend he2
  have hM3 := hM2.extend he3
  obtain ⟨used4, st, g, he4, ht4, ⟨hst, hown⟩, hrow4, hP, hstack⟩ :=
    addUserStack_spec hM3 he3.space h4
  have hne : pd.addr.phys ≠ pt.addr.phys := fun h => hN.fresh (h ▸ hM.own.1)
  have hfresh : ∀ k < userStackSizePages, g k ∉ used2 := fun k hk h =>
    hP.fresh k hk (List.mem_cons_of_mem _ h)
  refine ⟨used4, st, g, ⟨?_, hM3.extend he4, (hN.map.extend he3).extend he4,
    ht4.trans hN.tmpmap, hown, ?_, hstack, hN.free, hN.clear, hN.fresh, fun h => hst (he2.sub h),
    fun h => hst (h ▸ hN.map.own.1), fun k hk => ⟨fun h => ?_, fun h => ?_⟩⟩, fun k => ?_,
    fun j => ?_⟩
  · have htouch : v.Extends regions {pd.addr.phys, pt.addr.phys} used v4 used4 :=
      (((he1.weaken fun _ _ h => .inl h).trans (he2.weaken fun _ _ h => h.elim)).trans
        (he3.weaken fun _ _ h => .inr h)).trans (he4.weaken fun _ _ h => .inl h)
    refine htouch.weaken ?_
    rintro f hf (hfp | rfl)
    · exact hfp
    · exact (hN.fresh hf).elim
  · exact { hP with fresh := fun k hk h => hfresh k hk (he2.sub h) }
  · exact hfresh k hk (h ▸ hN.map.own.1)
  · exact hP.fresh k hk (h ▸ List.mem_cons_self ..)
  · have hstack : pdIndex defaultUserStackAddr = 767 := by decide
    rw [hrow4, he3.row hM2.own hne, he2.row hM1.own (Set.notMem_empty _), poked_table, hstack]
    by_cases hk' : k = 767
    · rw [hk', update_self, if_pos rfl]
    · rw [update_of_ne hk', if_neg hk', hrow]
      simp only [hzero]
  · rw [he4.row (he3.own hN.map.own) hne.symm, poked_table]

theorem Staged.extend {v'' : Vm} {used'' : List ℕ} (hP : Staged regions v used v' used' pd pt st g)
    (hpd : pd.addr.phys ∈ used)
    (he : v'.Extends regions {pd.addr.phys, pt.addr.phys} used' v'' used'')
    (ht : v''.tmpmap = v'.tmpmap) : Staged regions v used v'' used'' pd pt st g := by
  refine { hP with
    pages := ?_
    directory := hP.directory.extend he
    table := hP.table.extend he
    tmpmap := ht.trans hP.tmpmap
    stackOwn := he.own hP.stackOwn
    stackPages := hP.stackPages.extend he
    stackRow := fun j => ?_ }
  · have htouch : v.Extends regions {pd.addr.phys, pt.addr.phys} used v'' used'' :=
      (hP.pages.weaken fun _ _ h => .inl h).trans he
    refine htouch.weaken ?_
    rintro f hf (hfp | rfl)
    · exact hfp
    · exact (hP.tableFresh hf).elim
  · rw [he.row hP.stackOwn]
    · exact hP.stackRow j
    · rintro (h | h)
      · exact hP.stackFresh (h ▸ hpd)
      · exact hP.stackNe h

theorem TempMap.deleted {m m' : VirtualMap} {mmu : Mmu} (hM : TempMap v used m)
    (hM' : TempMap v used m') (hne : m'.slot ≠ m.slot) (hev : v.mmu.Evolves ∅ used mmu used)
    (hlook : ∀ i < 1023, ∀ j, mmu.lookup i j =
      if i = pdIndex m.addr.virt ∧ j = ptIndex m.addr.virt then none else v.mmu.lookup i j) :
    TempMap { v with mmu, tmpmap := clearBit v.tmpmap m.slot } used m' := by
  obtain ⟨e, hl, hf⟩ := hM'.maps
  refine ⟨hM'.slot, ?_, hM'.virt, ⟨e, ?_, hf⟩, (hM'.own.evolve hev).1⟩
  · change testBit (clearBit v.tmpmap m.slot) m'.slot = true
    rw [testBit_clearBit (by decide), hM'.bit]
    simp [hne]
  · change mmu.lookup _ _ = some e
    rw [hlook _ hM'.bounds.2.2, if_neg]
    · exact hl
    · rintro ⟨-, h⟩
      rw [hM.virt, hM'.virt] at h
      exact hne (tmpMapAddr_inj hM'.slot hM.slot h)

/-- The two entries of the directory that are stored last. -/
def closedRow (row : ℕ → BitVec 32) (pd pt k : ℕ) : BitVec 32 :=
  if k = 1023 then BitVec.ofNat 32 pd ||| kernelPDEFlags
  else if k = 0 then BitVec.ofNat 32 pt ||| userPageFlags else row k

theorem Staged.finish {v1 v2 v3 v4 : Vm} (hP : Staged regions v used v' used' pd pt st g)
    (hslot : testBit v.tmpmap pd.slot = true)
    (h1 : v'.store pd.addr.virt (BitVec.ofNat 32 pt.addr.phys ||| userPageFlags) = some v1)
    (h2 : v1.store (pd.addr.virt + 4 * (maxPDEntries - 1))
      (BitVec.ofNat 32 pd.addr.phys ||| kernelPDEFlags) = some v2)
    (h3 : v2.deleteTempVirtualMap debug pd = some v3)
    (h4 : v3.deleteTempVirtualMap debug pt = some v4) :
    Space regions used' v4.mmu v4.frames ∧ v.mmu.Evolves {pd.addr.phys} used v4.mmu used'
      ∧ (∀ s, testBit v4.tmpmap s = (testBit v.tmpmap s && !decide (s = pd.slot)))
      ∧ (∀ k, v4.mmu.table pd.addr.phys k
        = closedRow (v'.mmu.table pd.addr.phys) pd.addr.phys pt.addr.phys k)
      ∧ ∀ f, v'.mmu.Own used' f → v4.mmu.Own used' f
        ∧ (f ≠ pd.addr.phys → v4.mmu.table f = v'.mmu.table f) := by
  have hM := hP.directory
  have hslots : pt.slot ≠ pd.slot := fun h => by
    rw [← h, hP.clear] at hslot
    cases hslot
  -- the two stores
  rw [← Nat.add_zero pd.addr.virt, ← Nat.mul_zero 4, hM.store_eq (by decide)] at h1
  obtain rfl := Option.some.inj h1
  have hM1 := hM.extend (hM.poke hP.pages.space (update (v'.mmu.table pd.addr.phys) 0
    (BitVec.ofNat 32 pt.addr.phys ||| userPageFlags)))
  rw [hM1.store_eq (by decide), poked_poked, poked_table] at h2
  obtain rfl := Option.some.inj h2
  set row := update (update (v'.mmu.table pd.addr.phys) 0
    (BitVec.ofNat 32 pt.addr.phys ||| userPageFlags)) (maxPDEntries - 1)
    (BitVec.ofNat 32 pd.addr.phys ||| kernelPDEFlags) with hrow
  have he2 := hM.poke hP.pages.space row
  -- the two maps go
  obtain ⟨mmu3, hd3, hS3, hev3, hlook3⟩ := (hM.extend he2).delete he2.space debug
  rw [hd3] at h3
  obtain rfl := Option.some.inj h3
  have hT3 := (hM.extend he2).deleted (hP.table.extend he2) hslots hev3 hlook3
  obtain ⟨mmu4, hd4, hS4, hev4, -⟩ := hT3.delete hS3 debug
  rw [hd4] at h4
  obtain rfl := Option.some.inj h4
  have hlast : v'.mmu.Evolves {pd.addr.phys} used' mmu4 used' :=
    (he2.pages.toEvolves.trans (hev3.weaken fun _ _ h => h.elim)).trans
      (hev4.weaken fun _ _ h => h.elim)
  have hkeep : ∀ f, v'.mmu.Own used' f → mmu4.table f = (TempMap.poked v' pd row).mmu.table f :=
    fun f hf => by
      have hf2 := he2.own hf
      obtain ⟨hf3, hr3⟩ := hf2.evolve hev3
      rw [(hf3.evolve hev4).2 (Set.notMem_empty f), hr3 (Set.notMem_empty f)]
  refine ⟨hS4, hP.pages.pages.toEvolves.trans hlast, fun s => ?_, ?_,
    fun f hf => ⟨(hf.evolve hlast).1, (hf.evolve hlast).2⟩⟩
  · change testBit (clearBit (clearBit v'.tmpmap pd.slot) pt.slot) s = _
    rw [testBit_clearBit (by decide), testBit_clearBit (by decide), hP.tmpmap,
      testBit_setBit (by decide)]
    by_cases hs : s = pt.slot
    · rw [hs, hP.clear]
      simp
    · simp [hs]
  · intro k
    change mmu4.table pd.addr.phys k = _
    have hlastIndex : maxPDEntries - 1 = 1023 := rfl
    rw [hkeep _ hM.own, poked_table, hrow, hlastIndex, update_apply, update_apply]
    rfl

/-- One table holds the entries of the code pages, or the directory is mapped right behind it and
takes the rest. -/
def EntriesFit (v : Vm) (pd : VirtualMap) (n : ℕ) : Prop :=
  n ≤ 768 ∨ (n ≤ 1792 ∧ pd.slot = 0 ∧ v.findFreeTmpMapSlot = some 1)

theorem EntriesFit.mapped (h : EntriesFit v pd n) (hpd : pd.addr.virt = tmpMapAddrFromIndex pd.slot)
    (hpt : pt.addr.virt = tmpMapAddrFromIndex pt.slot)
    (hslot : v.findFreeTmpMapSlot = some pt.slot) : EntriesMapped pd pt n := by
  refine h.imp_right ?_
  rintro ⟨hn, h0, h1⟩
  rw [hslot, Option.some.injEq] at h1
  refine ⟨hn, ?_⟩
  rw [hpd, hpt, h0, h1]
  rfl

/-- The directory of a new process, over the tables `pt` and `st` and the kernel's, with an
executable of `n` pages. -/
def directoryRow (kernel : ℕ → BitVec 32) (c : ℕ → ℕ) (n pd pt st k : ℕ) : BitVec 32 :=
  closedRow (spillRow c (fun k =>
    if k = 767 then BitVec.ofNat 32 st ||| userPageFlags
    else if 768 ≤ k ∧ k < 1023 then kernel k else 0#32) n) pd pt k

/-- The new address space, in terms of the frames of its directory and tables and of the frames `c`
and `g` of its code and stack. -/
structure Image (regions : List MemoryRegion) (v : Vm) (used : List ℕ) (v' : Vm) (used' : List ℕ)
    (code : Memory.Mem) (codeSize pd pt st : ℕ) (c g : ℕ → ℕ) : Prop where
  space : Space regions used' v'.mmu v'.frames
  evolves : v.mmu.Evolves {pd} used v'.mmu used'
  ownDirectory : v'.mmu.Own used' pd
  ownTable : v'.mmu.Own used' pt
  ownStack : v'.mmu.Own used' st
  tableFresh : pt ∉ used
  stackFresh : st ∉ used
  tableNe : pt ≠ pd
  stackNe : st ≠ pd ∧ st ≠ pt
  codePages : CodePages v' used used' code codeSize (pageSteps 0 codeSize) c
  stackPages : Pages v' used used' userStackSizePages g
  codeNe : ∀ k < pageSteps 0 codeSize, c k ≠ pd ∧ c k ≠ pt ∧ c k ≠ st
  stackPagesNe : ∀ k < userStackSizePages, g k ≠ pd ∧ g k ≠ pt ∧ g k ≠ st
  apart : ∀ k < pageSteps 0 codeSize, ∀ l < userStackSizePages, c k ≠ g l
  codeRow : ∀ j < 1024, v'.mmu.table pt j = codeRow c (pageSteps 0 codeSize) j
  stackRow : ∀ j, v'.mmu.table st j = stackRow g userStackSizePages j
  row : ∀ k, v'.mmu.table pd k = directoryRow v.mmu.pde c (pageSteps 0 codeSize) pd pt st k

theorem buildAddressSpace_spec (hM : TempMap v used pd) (hS : Space regions used v.mmu v.frames)
    (hzero : ∀ j, v.mmu.table pd.addr.phys j = 0#32) (hn : EntriesFit v pd (pageSteps 0 codeSize))
    (h : v.buildAddressSpace debug pge fresh code codeSize pd = some v') :
    ∃ used' pt st c g, Image regions v used v' used' code codeSize pd.addr.phys pt st c g
      ∧ ∀ s, testBit v'.tmpmap s = (testBit v.tmpmap s && !decide (s = pd.slot)) := by
  obtain ⟨v1, v2, v3, v4, v5, v6, v7, v8, pt, h1, h2, h3, h4, h5, h6, h7, h8, h9⟩ :=
    buildAddressSpace_cases h
  have hpd : pd.addr.phys ∈ used := hM.own.1
  -- before the loop, the loop, and after it
  obtain ⟨used4, st, g, hP4, hrow4, hpt4⟩ := prepare hM hS hzero h1 h2 h3 h4
  have hne : pd.addr.phys ≠ pt.addr.phys := fun h => hP4.tableFresh (h ▸ hpd)
  obtain ⟨used5, c, he5, ht5, hC, hrow5, hspill⟩ := copyCode_spec hP4.directory hP4.table hne
    hP4.pages.space hpt4 (hn.mapped hP4.directory.virt hP4.table.virt hP4.slot) h5
  have hP5 := hP4.extend hpd he5 ht5
  obtain ⟨hS', he, ht, hrow, hkeep⟩ := hP5.finish hM.bit h6 h7 h8 h9
  have hsub : used ⊆ used4 := fun f hf => hP4.pages.sub hf
  have hcode : ∀ k < pageSteps 0 codeSize, ∀ f ∈ used4, c k ≠ f := fun k hk f hf h =>
    hC.fresh k hk (h ▸ hf)
  refine ⟨used5, pt.addr.phys, st, c, g, ⟨hS', he, (hkeep _ hP5.directory.own).1,
    (hkeep _ hP5.table.own).1, (hkeep _ hP5.stackOwn).1, hP5.tableFresh, hP5.stackFresh, hne.symm,
    ⟨fun h => hP5.stackFresh (h ▸ hpd), hP5.stackNe⟩, ⟨⟨fun k hk h => hcode k hk _ (hsub h) rfl,
    fun k hk => (hkeep _ (hC.own k hk)).1, hC.inj⟩, fun k hk x hx => ?_⟩, ?_, fun k hk => ?_,
    fun k hk => ?_, fun k hk l hl => ?_, fun j hj => ?_, fun j => ?_, fun k => ?_⟩, ht⟩
  · rw [(hkeep _ (hC.own k hk)).2 (hcode k hk _ (hsub hpd))]
    exact hC.bytes k hk x hx
  · exact { hP5.stackPages with own := fun k hk => (hkeep _ (hP5.stackPages.own k hk)).1 }
  · exact ⟨hcode k hk _ (hsub hpd), hcode k hk _ hP4.table.own.1, hcode k hk _ hP4.stackOwn.1⟩
  · exact ⟨fun h => hP5.stackPages.fresh k hk (h ▸ hpd), hP5.stackPagesNe k hk⟩
  · exact hcode k hk _ (hP4.stackPages.own l hl).1
  · rw [(hkeep _ hP5.table.own).2 hne.symm]
    exact hrow5 j hj
  · rw [(hkeep _ hP5.stackOwn).2 fun h => hP5.stackFresh (h ▸ hpd)]
    exact hP5.stackRow j
  · rw [hrow, funext hspill, funext hrow4]
    rfl

end Building

end Vm

end DragonWare
