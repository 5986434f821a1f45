import DragonWare.Machine
import DragonWare.Proofs.AddressSpaces
import DragonWare.Proofs.ThreadList

/-!
# What is left of a process

`DeleteProcess` leaves the current address space as it is but for two temporary maps
(`Vm.deleteProcess_total`), so the pages of the kernel stack stay mapped. The structure of the main
thread is never given back (`process_leaves_residue`).
-/

namespace DragonWare

open Bitmap Fallible Function Kernel Mmu Option Vm

theorem entryFrame_mod (e : BitVec 32) : entryFrame e % frameSize = 0 := by
  have hmod := Nat.and_mod_two_pow (a := e.toNat) (b := 0xFFFFF000) (n := 12)
  have hframe : entryFrame e = e.toNat &&& 0xFFFFF000 := BitVec.toNat_and ..
  rw [hframe]
  exact hmod.trans (Nat.and_zero _)

variable {a i j : ℕ}

theorem freeFrame_total (debug : Bool) (fm : FrameManager) (ha : a % frameSize = 0) :
    ∃ fm', fm.freeFrame debug a = some fm' ∧ fm'.highestAddr = fm.highestAddr := by
  unfold FrameManager.freeFrame
  split_ifs with h1 h2 h3
  · exact ⟨_, rfl, rfl⟩
  · exact absurd ha h2.2
  · exact ⟨_, rfl, rfl⟩
  · exact ⟨_, rfl, highestAddr_markFrameAvailable fm a⟩

theorem isFrameAllocated_freeFrame {debug : Bool} {fm fm' : FrameManager} (hlo : 2 * frameSize ≤ a)
    (hhi : a ≤ fm.highestAddr)
    (h : fm.freeFrame debug a = some fm') : fm'.isFrameAllocated a = false := by
  unfold FrameManager.freeFrame at h
  split_ifs at h with h1 h2 h3
  · omega
  · cases h
    simpa using h3
  · cases h
    exact (testBit_markFrameAvailable fm a _).2 (.inr ⟨hlo, hhi, rfl⟩)

/-- The current tables are well formed, for some frame manager: while a process is deleted, frames
are given back. -/
def Tables (regions : List MemoryRegion) (used : List ℕ) (m : Mmu) : Prop :=
  ∃ fm, Space regions used m fm

/-- The address space is the same but for the pages of two temporary maps. -/
structure Aside (pd pt : ℕ) (m m' : Mmu) : Prop where
  cr3 : m'.cr3 = m.cr3
  lookup : ∀ i < 1023, ∀ j, ¬ (i = pdIndex pd ∧ j = ptIndex pd) →
    ¬ (i = pdIndex pt ∧ j = ptIndex pt) → m'.lookup i j = m.lookup i j

section Windows

variable {regions : List MemoryRegion} {used : List ℕ} {v : Vm} {pd pt virt phys : ℕ}
  {m m' m'' : Mmu} {flags : BitVec 32}

theorem Aside.refl (pd pt : ℕ) (m : Mmu) : Aside pd pt m m := ⟨rfl, fun _ _ _ _ _ => rfl⟩

theorem Aside.trans (h : Aside pd pt m m') (h' : Aside pd pt m' m'') : Aside pd pt m m'' :=
  ⟨h'.cr3.trans h.cr3, fun i hi j h1 h2 =>
    (h'.lookup i hi j h1 h2).trans (h.lookup i hi j h1 h2)⟩

theorem mapSinglePage_frames (fm fm' : FrameManager)
    (hp : entryPresent (m.pde (pdIndex virt)) = true) :
    mapSinglePage phys virt flags m fm = ((mapSinglePage phys virt flags m fm').1,
      (mapSinglePage phys virt flags m fm').2.1, fm) := by
  unfold mapSinglePage
  simp only [hp, if_true]
  split_ifs <;> rfl

def Mmu.Shows (m : Mmu) (virt : ℕ) : Prop := ∃ e, m.lookup (pdIndex virt) (ptIndex virt) = some e

theorem mapSinglePage_shows {fm fm' : FrameManager} {st : Status} (hS : Space regions used m fm)
    (hv : Scratch virt) (hphys : phys % frameSize = 0) (hal : virt % frameSize = 0)
    (hflags : flags.getLsbD 0 = true)
    (h : mapSinglePage phys virt flags m fm = (st, m', fm')) : m'.Shows virt := by
  obtain ⟨-, -, -, -, hok, -⟩ := mapSinglePage_spec hS hv.pdIndex.2 h
  obtain ⟨-, -, he, -⟩ := mapSinglePage_scratch hS hv h
  rcases hl : m.lookup (pdIndex virt) (ptIndex virt) with _ | e
  · obtain ⟨m₁, htotal⟩ := mapSinglePage_total hS hv.pdIndex hphys hal hl flags
    rw [h] at htotal
    cases htotal
    refine ⟨BitVec.ofNat 32 phys ||| flags, ?_⟩
    rw [(hok rfl).2 _ hv.pdIndex.2, if_pos ⟨rfl, rfl⟩, if_pos (entryPresent_or _ hflags)]
  · exact ⟨e, he.keeps _ hv.pdIndex.2 _ e hl⟩

theorem mapWindow_spec (hT : Tables regions used v.mmu) (hv : Scratch virt)
    (hal : virt % frameSize = 0) (hphys : phys % frameSize = 0) :
    ∃ mmu, v.mapWindow phys virt = { v with mmu } ∧ Tables regions used mmu
      ∧ v.mmu.Evolves ∅ used mmu used ∧ mmu.Shows virt
      ∧ ∀ i < 1023, ∀ j, ¬ (i = pdIndex virt ∧ j = ptIndex virt) →
        mmu.lookup i j = v.mmu.lookup i j := by
  obtain ⟨fm, hS⟩ := hT
  rcases hm : mapSinglePage phys virt (pagePresent ||| pageRW) v.mmu fm with ⟨st, mmu, fm'⟩
  obtain ⟨-, -, -, -, hok, hno⟩ := mapSinglePage_spec hS hv.pdIndex.2 hm
  obtain ⟨rfl, hS', he, -⟩ := mapSinglePage_scratch hS hv hm
  refine ⟨mmu, ?_, ⟨_, hS'⟩, he.toEvolves, mapSinglePage_shows hS hv hphys hal (by decide) hm,
    fun i hi j hne => ?_⟩
  · unfold mapWindow
    rw [mapSinglePage_frames v.frames fm' (hS.kernel _ hv.pdIndex), hm]
  · by_cases hst : st = .ok
    · rw [(hok hst).2 i hi j, if_neg hne]
    · rw [hno hst]

theorem unmapWindow_spec (debug : Bool) (hT : Tables regions used v.mmu) (hv : Scratch virt)
    (hal : virt % frameSize = 0) :
    ∃ mmu, v.unmapSinglePage debug virt = some { v with mmu } ∧ Tables regions used mmu
      ∧ v.mmu.Evolves ∅ used mmu used
      ∧ ∀ i < 1023, ∀ j, ¬ (i = pdIndex virt ∧ j = ptIndex virt) →
        mmu.lookup i j = v.mmu.lookup i j := by
  obtain ⟨fm, hS⟩ := hT
  have hsome : ∃ mmu, v.mmu.unmapSinglePage debug virt = some mmu := by
    unfold Mmu.unmapSinglePage
    rw [if_neg (by simp [hal])]
    split_ifs <;> exact ⟨_, rfl⟩
  obtain ⟨mmu, hmmu⟩ := hsome
  obtain ⟨hS', he, hl⟩ := unmapSinglePage_spec hS hv.pdIndex.2 hmmu
  refine ⟨mmu, ?_, ⟨fm, hS'⟩, he, fun i hi j hne => ?_⟩
  · unfold Vm.unmapSinglePage
    rw [hmmu]
    rfl
  · rw [hl i hi j, if_neg hne]

theorem load_total {e : ℕ} {pte : BitVec 32} (ha : a % frameSize = 0) (he : e < 1024)
    (hl : m.lookup (pdIndex a) (ptIndex a) = some pte) : ∃ w, m.load (a + 4 * e) = some w := by
  obtain ⟨h1, h2, -⟩ := TempMap.index_offset ha he
  unfold load
  rw [translate_cr3, h1, h2, hl]
  exact ⟨_, rfl⟩

structure Walking (regions : List MemoryRegion) (used : List ℕ) (pd pt : ℕ) (v₀ v : Vm) : Prop where
  tables : Tables regions used v.mmu
  evolves : v₀.mmu.Evolves ∅ used v.mmu used
  aside : Aside pd pt v₀.mmu v.mmu
  bitmap : v.bitmap = v₀.bitmap
  tmpmap : v.tmpmap = v₀.tmpmap
  highest : v.frames.highestAddr = v₀.frames.highestAddr

namespace Walking

variable {v₀ : Vm}

theorem freeFrame (hW : Walking regions used pd pt v₀ v) (debug : Bool) (ha : a % frameSize = 0) :
    ∃ v', v.freeFrame debug a = some v' ∧ Walking regions used pd pt v₀ v' ∧ v'.mmu = v.mmu := by
  obtain ⟨fm, hfm, hhigh⟩ := freeFrame_total debug v.frames ha
  unfold Vm.freeFrame
  rw [hfm]
  exact ⟨_, rfl, { hW with highest := hhigh.trans hW.highest }, rfl⟩

theorem window (hW : Walking regions used pd pt v₀ v) {mmu : Mmu} (hT : Tables regions used mmu)
    (he : v.mmu.Evolves ∅ used mmu used) (ha : a = pd ∨ a = pt)
    (hl : ∀ i < 1023, ∀ j, ¬ (i = pdIndex a ∧ j = ptIndex a) →
      mmu.lookup i j = v.mmu.lookup i j) : Walking regions used pd pt v₀ { v with mmu } := by
  refine ⟨hT, hW.evolves.trans he, hW.aside.trans ⟨he.cr3, fun i hi j h1 h2 => hl i hi j ?_⟩,
    hW.bitmap, hW.tmpmap, hW.highest⟩
  rcases ha with rfl | rfl
  · exact h1
  · exact h2

end Walking

theorem Walking.freePage {v₀ : Vm} (hW : Walking regions used pd pt v₀ v) (debug : Bool)
    (hal : pt % frameSize = 0) (hpt : v.mmu.Shows pt) (hj : j < maxPTEntries) :
    ∃ v', v.freePage debug pt j = some v' ∧ Walking regions used pd pt v₀ v' ∧ v'.mmu = v.mmu := by
  obtain ⟨pte, hpte⟩ := hpt
  obtain ⟨e, he⟩ := load_total hal hj hpte
  unfold Vm.freePage
  rw [he, bind_eq_bind, bind_some]
  split_ifs
  · exact hW.freeFrame debug (entryFrame_mod e)
  · exact ⟨v, rfl, hW, rfl⟩

theorem Walking.freeTable {v₀ : Vm} (hW : Walking regions used pd pt v₀ v) (debug : Bool)
    (hpd : pd % frameSize = 0) (hal : pt % frameSize = 0) (hsc : Scratch pd) (hsc' : Scratch pt)
    (hne : ¬ (pdIndex pd = pdIndex pt ∧ ptIndex pd = ptIndex pt)) (hshow : v.mmu.Shows pd)
    (hi : i < kernelPDIndex) :
    ∃ v', v.freeTable debug pd pt i = some v' ∧ Walking regions used pd pt v₀ v'
      ∧ v'.mmu.Shows pd := by
  have hi : i < 1024 := lt_of_lt_of_le hi (by decide)
  obtain ⟨pte, hpte⟩ := hshow
  obtain ⟨e, he⟩ := load_total hpd hi hpte
  unfold Vm.freeTable
  rw [he, bind_eq_bind, bind_some]
  split_ifs
  · obtain ⟨mmu1, hmap, hT1, he1, hshow1, hl1⟩ :=
      mapWindow_spec hW.tables hsc' hal (entryFrame_mod e)
    have hW1 := hW.window hT1 he1 (.inr rfl) hl1
    obtain ⟨v2, hloop, hW2, hm2⟩ := Loop.times_total (f := Vm.freePage debug pt) maxPTEntries
      (I := fun _ u => Walking regions used pd pt v₀ u ∧ u.mmu = mmu1)
      (fun j hj u hu => by
        obtain ⟨u', hu', hW', hm'⟩ := hu.1.freePage debug hal (hu.2.symm ▸ hshow1) hj
        exact ⟨u', hu', hW', hm'.trans hu.2⟩)
      ⟨hW1, rfl⟩
    obtain ⟨mmu3, hunmap, hT3, he3, hl3⟩ := unmapWindow_spec debug hW2.tables hsc' hal
    have hW3 := hW2.window hT3 he3 (.inr rfl) hl3
    have hpte3 : mmu3.lookup (pdIndex pd) (ptIndex pd) = some pte := by
      rw [hl3 _ hsc.pdIndex.2 _ hne, hm2, hl1 _ hsc.pdIndex.2 _ hne, hpte]
    obtain ⟨e', he'⟩ := load_total hpd hi hpte3
    obtain ⟨v4, hfree, hW4, hm4⟩ := hW3.freeFrame debug (entryFrame_mod e')
    refine ⟨v4, ?_, hW4, pte, by rw [hm4]; exact hpte3⟩
    simp only [bind_eq_bind, hmap, hloop, hunmap, he', hfree, bind_some]
  · exact ⟨v, rfl, hW, pte, hpte⟩

theorem Walking.freeFrames {v₀ : Vm} (debug : Bool) : ∀ {l : List VMAddress} {v : Vm},
    Walking regions used pd pt v₀ v → (∀ k ∈ l, k.phys % frameSize = 0) →
    ∃ v', l.foldlM (fun v kstack => v.freeFrame debug kstack.phys) v = some v'
      ∧ Walking regions used pd pt v₀ v' ∧ v'.mmu = v.mmu
  | [], v, hW, _ => ⟨v, rfl, hW, rfl⟩
  | k :: l, v, hW, hl => by
    obtain ⟨v1, h1, hW1, hm1⟩ := hW.freeFrame debug (hl k (List.mem_cons_self ..))
    obtain ⟨v2, h2, hW2, hm2⟩ := Walking.freeFrames debug hW1 fun k' hk' =>
      hl k' (List.mem_cons_of_mem k hk')
    refine ⟨v2, ?_, hW2, hm2.trans hm1⟩
    rw [List.foldlM_cons, h1]
    exact h2

end Windows

variable {p : ProcessMemory}

section Delete

variable {regions : List MemoryRegion} {used : List ℕ} {v : Vm}

theorem Vm.findFreeTmpMapSlot_pair (hempty : ∀ s, testBit v.tmpmap s = false) :
    v.findFreeTmpMapSlot = some 0
      ∧ findFreeTmpMapSlot { v with tmpmap := setBit v.tmpmap 0 } = some 1 := by
  refine ⟨findFreeTmpMapSlot_eq (by decide) (hempty 0) fun i hi => by omega,
    findFreeTmpMapSlot_eq (by decide) ?_ fun i hi => ?_⟩
  · simp only [testBit_setBit (by decide : 0 < 32), hempty]
    rfl
  · simp only [testBit_setBit (by decide : 0 < 32), Nat.lt_one_iff.1 hi]
    simp

/-- `DeleteProcess` comes to its end. But for the pages of its two temporary maps the address space
is what it was, and the frame of the directory is available. -/
theorem Vm.deleteProcess_total (debug : Bool) (hT : Tables regions used v.mmu)
    (hempty : ∀ s, testBit v.tmpmap s = false) (hcr3 : p.cr3 % frameSize = 0)
    (hk : ∀ k ∈ p.kstacks, k.phys % frameSize = 0) :
    ∃ v', v.deleteProcess debug p = some v'
      ∧ Aside (tmpMapAddrFromIndex 0) (tmpMapAddrFromIndex 1) v.mmu v'.mmu
      ∧ (∀ s, testBit v'.tmpmap s = false)
      ∧ (2 * frameSize ≤ p.cr3 → p.cr3 ≤ v.frames.highestAddr →
        v'.frames.isFrameAllocated p.cr3 = false)
      ∧ v.mmu.Evolves ∅ used v'.mmu used ∧ Tables regions used v'.mmu := by
  obtain ⟨hslot0, hslot1⟩ := findFreeTmpMapSlot_pair hempty
  have hs0 := tmpMapAddr_bounds (s := 0) (by decide)
  have hs1 := tmpMapAddr_bounds (s := 1) (by decide)
  have hc0 := tmpMapAddr_scratch (s := 0) (by decide)
  have hc1 := tmpMapAddr_scratch (s := 1) (by decide)
  have hne : ¬ (pdIndex (tmpMapAddrFromIndex 0) = pdIndex (tmpMapAddrFromIndex 1)
      ∧ ptIndex (tmpMapAddrFromIndex 0) = ptIndex (tmpMapAddrFromIndex 1)) := by decide
  obtain ⟨v1, hv1⟩ : ∃ v1 : Vm, v1 = { v with tmpmap := setBit v.tmpmap 0 } := ⟨_, rfl⟩
  rw [← hv1] at hslot1
  have hW1 : Walking regions used (tmpMapAddrFromIndex 0) (tmpMapAddrFromIndex 1) v1 v1 :=
    ⟨by rw [hv1]; exact hT, .refl, .refl _ _ _, rfl, rfl, rfl⟩
  obtain ⟨mmu2, hmap, hT2, he2, hshow2, hl2⟩ := mapWindow_spec hW1.tables hc0 hs0.1 hcr3
  obtain ⟨v3, hloop, hW3, -⟩ := Loop.times_total
    (f := Vm.freeTable debug (tmpMapAddrFromIndex 0) (tmpMapAddrFromIndex 1)) kernelPDIndex
    (I := fun _ u => Walking regions used _ _ v1 u ∧ u.mmu.Shows (tmpMapAddrFromIndex 0))
    (fun i hi u hu => hu.1.freeTable debug hs0.1 hs1.1 hc0 hc1 hne hu.2 hi)
    ⟨hW1.window hT2 he2 (.inl rfl) hl2, hshow2⟩
  obtain ⟨mmu4, hunmap, hT4, he4, hl4⟩ := unmapWindow_spec debug hW3.tables hc0 hs0.1
  have hW4 := hW3.window hT4 he4 (.inl rfl) hl4
  obtain ⟨v5, hv5⟩ : ∃ v5 : Vm, v5 = { v3 with
      mmu := mmu4
      tmpmap := clearBit (clearBit v3.tmpmap 0) 1 } := ⟨_, rfl⟩
  have hW5 : Walking regions used (tmpMapAddrFromIndex 0) (tmpMapAddrFromIndex 1)
      { v1 with tmpmap := v5.tmpmap } v5 := by
    rw [hv5]
    exact { hW4 with tmpmap := rfl }
  obtain ⟨v6, hstacks, hW6, -⟩ := hW5.freeFrames debug hk
  obtain ⟨v7, hlast, hW7, -⟩ := hW6.freeFrame debug hcr3
  have hframe := hW7.evolves
  have haside := hW7.aside
  rw [hv1] at hframe haside
  refine ⟨v7, ?_, haside, fun s => ?_, fun hlo hhi => ?_, hframe, hW7.tables⟩
  · unfold Vm.deleteProcess
    simp only [hslot0, hslot1, bind_eq_bind, bind_some, ← hv1, hmap, hloop, hunmap,
      ← hv5, hstacks, hlast]
  · rw [hW7.tmpmap, hv5]
    simp only [hW3.tmpmap, hv1, testBit_clearBit (by decide : 0 < 32),
      testBit_setBit (by decide : 0 < 32), hempty, Bool.false_or]
    by_cases h : s = 0 <;> simp [h]
  · obtain ⟨fm, hfm, rfl⟩ := map_eq_some_iff.1 hlast
    refine isFrameAllocated_freeFrame hlo ?_ hfm
    rw [hW6.highest, hv1]
    exact hhi

end Delete

section Stacks

variable {regions : List MemoryRegion} {used : List ℕ} {v v' : Vm} {debug pge : Bool}
  {fresh : ℕ → Bool} {code : Memory.Mem} {codeSize : ℕ}

def SlotPage (i j : ℕ) : Prop :=
  ∃ s < tmpMapMaxPages, i = pdIndex (tmpMapAddrFromIndex s)
    ∧ j = ptIndex (tmpMapAddrFromIndex s)

theorem deleteTempVirtualMap_lookup {m : VirtualMap} (hS : Space regions used v.mmu v.frames)
    (hslot : m.slot < tmpMapMaxPages) (hvirt : m.addr.virt = tmpMapAddrFromIndex m.slot)
    (h : v.deleteTempVirtualMap debug m = some v') :
    Space regions used v'.mmu v'.frames ∧ ∀ i < 1023, ∀ j, ¬ SlotPage i j →
      v'.mmu.lookup i j = v.mmu.lookup i j := by
  unfold deleteTempVirtualMap at h
  split_ifs at h
  obtain ⟨mmu, hmmu, rfl⟩ := map_eq_some_iff.1 h
  rw [hvirt] at hmmu
  obtain ⟨hS', -, hl⟩ := unmapSinglePage_spec hS (tmpMapAddr_bounds hslot).2.2 hmmu
  exact ⟨hS', fun i hi j hno => (hl i hi j).trans (if_neg fun hij => hno ⟨_, hslot, hij⟩)⟩

theorem buildAddressSpace_keeps {pd : VirtualMap} (hM : TempMap v used pd)
    (hS : Space regions used v.mmu v.frames) (hzero : ∀ j, v.mmu.table pd.addr.phys j = 0#32)
    (hn : EntriesFit v pd (pageSteps 0 codeSize))
    (h : v.buildAddressSpace debug pge fresh code codeSize pd = some v') (hi : i < 1023)
    (hno : ¬ SlotPage i j) {e : BitVec 32} (hl : v.mmu.lookup i j = some e) :
    v'.mmu.lookup i j = some e := by
  obtain ⟨v1, v2, v3, v4, v5, v6, v7, v8, pt, h1, h2, h3, h4, h5, h6, h7, h8, h9⟩ :=
    buildAddressSpace_cases h
  have hpd : pd.addr.phys ∈ used := hM.own.1
  obtain ⟨used4, st, g, hP4, -, hpt4⟩ := prepare hM hS hzero h1 h2 h3 h4
  have hne : pd.addr.phys ≠ pt.addr.phys := fun h => hP4.tableFresh (h ▸ hpd)
  obtain ⟨used5, c, he5, ht5, -⟩ := copyCode_spec hP4.directory hP4.table hne
    hP4.pages.space hpt4 (hn.mapped hP4.directory.virt hP4.table.virt hP4.slot) h5
  have hP5 := hP4.extend hpd he5 ht5
  have hl5 := hP5.pages.pages.keeps i hi j e hl
  -- the two stores go to the frame of the directory
  have hM5 := hP5.directory
  rw [← Nat.add_zero pd.addr.virt, ← Nat.mul_zero 4, hM5.store_eq (by decide)] at h6
  obtain rfl := some.inj h6
  have he6 := hM5.poke hP5.pages.space (update (v5.mmu.table pd.addr.phys) 0
    (BitVec.ofNat 32 pt.addr.phys ||| userPageFlags))
  have hM6 := hM5.extend he6
  rw [hM6.store_eq (by decide)] at h7
  obtain rfl := some.inj h7
  have he7 := hM6.poke he6.space (update ((TempMap.poked v5 pd (update
    (v5.mmu.table pd.addr.phys) 0 (BitVec.ofNat 32 pt.addr.phys ||| userPageFlags))).mmu.table
      pd.addr.phys) (maxPDEntries - 1) (BitVec.ofNat 32 pd.addr.phys ||| kernelPDEFlags))
  have hl7 := he7.pages.keeps i hi j e (he6.pages.keeps i hi j e hl5)
  -- the two maps go
  obtain ⟨hS8, hl8⟩ := deleteTempVirtualMap_lookup he7.space hM.slot hM.virt h8
  obtain ⟨-, hl9⟩ := deleteTempVirtualMap_lookup hS8 hP5.table.slot hP5.table.virt h9
  rw [hl9 i hi j hno, hl8 i hi j hno, hl7]

theorem mapKernelStackPage_shows {virt : ℕ} (hS : Space regions used v.mmu v.frames)
    (hv : Scratch virt) (hal : virt % frameSize = 0) :
    (v.mapKernelStackPage virt).2.mmu.Shows virt := by
  have hphys := allocateFrame_mod hS.frames
  unfold mapKernelStackPage
  rcases hm : mapSinglePage v.frames.allocateFrame.1 virt
    (pagePresent ||| pageRW ||| pageGlobal) v.mmu v.frames.allocateFrame.2 with ⟨st, mmu, frames⟩
  simp only [hm]
  rcases hS.frames.allocateFrame with ⟨-, hI⟩ | ⟨-, -, -, hI⟩
  · exact mapSinglePage_shows (hS.reframe hI) hv hphys hal (by decide) hm
  · exact mapSinglePage_shows (hS.allocated hI) hv hphys hal (by decide) hm

theorem getNextKernelStackAddress_bounds (h : v.getNextKernelStackAddress = some a) :
    kernelStackBase ≤ a ∧ a < kernelStackEnd ∧ a % frameSize = 0 := by
  obtain ⟨k, hk, rfl⟩ := findKernelStack_some h
  simp only [kernelStackBase, kernelStackEnd, kernelStackSizePages, frameSize] at hk ⊢
  omega

theorem not_slotPage (hlo : kernelStackBase ≤ a) (hhi : a < kernelStackEnd) :
    ¬ SlotPage (pdIndex a) (ptIndex a) := by
  rintro ⟨s, hs, h, -⟩
  simp only [kernelStackBase, kernelStackEnd, tmpMapMaxPages, tmpMapAddrFromIndex,
    temporaryVirtMapAddr, frameSize, pdIndex] at hlo hhi hs h
  omega

theorem createProcess_stack (hS : Space regions used v.mmu v.frames) (hsize : codeSize ≤ 0x700000)
    (hempty : ∀ s, testBit v.tmpmap s = false)
    (h : v.createProcess debug pge fresh code codeSize = some (some p, v')) :
    (∀ k ∈ p.kstacks, k.phys % frameSize = 0) ∧ ∃ stack, v.getNextKernelStackAddress = some stack
      ∧ v'.mmu.Shows stack := by
  unfold Vm.createProcess at h
  by_cases h0 : codeSize = 0
  · rw [if_pos h0] at h
    cases h
  rw [if_neg h0] at h
  obtain ⟨stack, hstack, h⟩ := bind_eq_some_iff.1 h
  obtain ⟨hlo, hhi, hal⟩ := getNextKernelStackAddress_bounds hstack
  obtain ⟨hv0, hv1⟩ := getNextKernelStackAddress_scratch hstack
  obtain ⟨⟨b, v1⟩, hk, h⟩ := bind_eq_some_iff.1 h
  obtain ⟨used1, he1, ht1⟩ := kmallocSmall_spec hS hk
  obtain ⟨used2, he2, ht2⟩ := mapKernelStackPage_spec he1.space hv0
  obtain ⟨used3, he3, ht3⟩ := mapKernelStackPage_spec he2.space hv1
  simp only [] at h
  split_ifs at h
  · cases h
  obtain ⟨⟨b', v4⟩, hk', h⟩ := bind_eq_some_iff.1 h
  obtain ⟨used4, he4, ht4⟩ := kmallocSmall_spec he3.space hk'
  simp only [] at h
  split_ifs at h
  · cases h
  obtain ⟨⟨m, v5⟩, hm, h⟩ := bind_eq_some_iff.1 h
  obtain ⟨used5, he5, -, hnew⟩ := createTempVirtualMap_spec he4.space hm
  rcases m with _ | pd
  · cases h
  obtain ⟨v6, hbuild, h⟩ := bind_eq_some_iff.1 h
  cases h
  refine ⟨fun k hk => ?_, stack, hstack, ?_⟩
  · rcases List.mem_pair.1 hk with rfl | rfl
    · exact allocateFrame_mod he1.space.frames
    · exact allocateFrame_mod he2.space.frames
  · have hN := hnew pd rfl
    have hpages : pageSteps 0 codeSize ≤ 1792 := by
      simp only [pageSteps, frameSize]
      omega
    have hempty4 : ∀ s, testBit v4.tmpmap s = false := fun s => by
      rw [ht4, ht3, ht2, ht1]
      exact hempty s
    obtain ⟨e, hl⟩ := mapKernelStackPage_shows he1.space hv0 hal
    refine ⟨e, buildAddressSpace_keeps hN.map he5.space hN.zero (hN.entriesFit hempty4 hpages)
      hbuild hv0.pdIndex.2 (not_slotPage hlo hhi) ?_⟩
    exact ((he3.trans he4).trans he5).pages.keeps _ hv0.pdIndex.2 _ e hl

theorem kernelStack_stays_mapped {v'' : Vm} (hS : Space regions used v.mmu v.frames)
    (hsize : codeSize ≤ 0x700000) (hempty : ∀ s, testBit v.tmpmap s = false)
    (h : v.createProcess debug pge fresh code codeSize = some (some p, v'))
    (hd : v'.deleteProcess debug p = some v'') :
    ∃ stack, kernelStackBase ≤ stack ∧ stack < kernelStackEnd
      ∧ v.mmu.isVirtualPageMapped stack = false ∧ v''.mmu.isVirtualPageMapped stack = true := by
  obtain ⟨hk, stack, hstack, e, hl⟩ := createProcess_stack hS hsize hempty h
  obtain ⟨used', pt, st, c, g, hB, -, hempty'⟩ := createProcess_some hS hsize hempty h
  obtain ⟨u, hu, haside, -⟩ := deleteProcess_total debug ⟨_, hB.space⟩ hempty'
    (hB.space.bounds hB.ownDirectory.1).2 hk
  obtain rfl : u = v'' := some.inj (hu.symm.trans hd)
  obtain ⟨hlo, hhi, -⟩ := getNextKernelStackAddress_bounds hstack
  have hno := not_slotPage hlo hhi
  have hfree := Bool.or_eq_false_iff.1 (findKernelStack_free hstack)
  refine ⟨stack, hlo, hhi, hfree.1, ?_⟩
  rw [isVirtualPageMapped_eq, translate_cr3, haside.lookup _
    (getNextKernelStackAddress_scratch hstack).1.pdIndex.2 _
    (fun hij => hno ⟨0, by decide, hij⟩) fun hij => hno ⟨1, by decide, hij⟩, hl]
  rfl

end Stacks

inductive HeapBlock
  | process (q : ℕ)
  | thread (t : ℕ)
  | object (o : ℕ)
  | port (p : ℕ)
  deriving DecidableEq, Repr

namespace Kernel

variable {k k' : Kernel} {q : ℕ}

/-- The blocks that have been allocated and not freed. `DeleteThread` leaves the block of its
thread. -/
def heapBlocks (k : Kernel) : Set HeapBlock
  | .process q => k.live.process q = true
  | .thread t => t < k.threads
  | .object o => k.live.object o = true
  | .port p => k.live.port p = true

theorem deleteObject_threads {o : ℕ} (h : k.deleteObject o = .ok k') : k'.threads = k.threads := by
  obtain ⟨-, ⟨-, rfl⟩ | ⟨-, r, hr, rfl⟩⟩ := deleteObject_cases h
  · rfl
  rcases deleteData_cases hr with ⟨p, -, -, rfl⟩ | hsame
  · unfold deletePort
    split_ifs <;> rfl
  · exact hsame.threads

theorem deleteSlot_threads (h : deleteSlot q k i = .ok k') : k'.threads = k.threads := by
  rcases deleteSlot_cases h with ⟨-, rfl⟩ | ⟨o, -, hd⟩
  · rfl
  · exact (deleteObject_threads hd).trans rfl

theorem deleteProcess_threads (h : k.deleteProcess q = .ok k') : k'.threads = k.threads := by
  obtain ⟨-, r, r', hr, hsame, rfl⟩ := deleteProcess_cases h
  have hloop : r.threads = k.threads :=
    foldlM_range (I := fun _ a => a.threads = k.threads) rfl
      (fun i a b _ ha hb => (deleteSlot_threads hb).trans ha) hr
  exact hsame.threads.trans hloop

theorem createProcess_threads (h : k.createProcess = .ok (q, k')) : k'.threads = k.threads + 1 := by
  obtain ⟨r, hsame, rfl⟩ := createProcess_cases h
  exact hsame.threads

theorem sameStore_reapFrom : ∀ {fuel : ℕ} {iter : Option ℕ} {k k' : Kernel},
    k.reapFrom fuel iter = .ok k' → SameStore k k'
  | _, none, k, k', h => by
    simp only [reapFrom, Except.ok.injEq] at h
    exact h ▸ .refl k
  | 0, some _, _, _, h => by simp [reapFrom] at h
  | fuel + 1, some t, k, k', h => by
    unfold reapFrom at h
    simp only at h
    split_ifs at h
    · obtain ⟨⟨st, r⟩, hr, h⟩ := bind_eq_ok.1 h
      obtain ⟨r', hr', h⟩ := bind_eq_ok.1 h
      exact (sameStore_removeThreadFromScheduler hr).trans
        ((sameStore_deleteThread hr').trans (sameStore_reapFrom h))
    · exact sameStore_reapFrom h

end Kernel

namespace Machine

variable {debug pge : Bool} {m m' : Machine} {fresh : ℕ → Bool} {code : Memory.Mem} {codeSize : ℕ}

theorem createProcess_cases {r : Option ℕ}
    (h : m.createProcess debug pge fresh code codeSize = some (r, m')) :
    (r = none ∧ ∃ vm, m.vm.createProcess debug pge fresh code codeSize = some (none, vm)
        ∧ m' = { m with vm })
      ∨ ∃ q p vm kernel, r = some q
        ∧ m.vm.createProcess debug pge fresh code codeSize = some (some p, vm)
        ∧ m.kernel.createProcess = .ok (q, kernel)
        ∧ m' = ⟨kernel, vm, update m.memory q p⟩ := by
  obtain ⟨⟨p, vm⟩, hvm, h⟩ := bind_eq_some_iff.1 h
  rcases p with _ | p
  · cases h
    exact .inl ⟨rfl, vm, hvm, rfl⟩
  · obtain ⟨⟨q, kernel⟩, hk, h⟩ := bind_eq_some_iff.1 h
    cases h
    exact .inr ⟨q, p, vm, kernel, rfl, hvm, toOption_eq_some.1 hk, rfl⟩

theorem createProcess_eq {q : ℕ} {vm : Vm} {kernel : Kernel}
    (hvm : m.vm.createProcess debug pge fresh code codeSize = some (some p, vm))
    (hk : m.kernel.createProcess = .ok (q, kernel)) :
    m.createProcess debug pge fresh code codeSize
      = some (some q, ⟨kernel, vm, update m.memory q p⟩) := by
  unfold Machine.createProcess
  simp only [hvm, hk, Except.toOption]
  rfl

theorem deleteProcess_cases {q : ℕ} (h : m.deleteProcess debug q = some m') :
    ∃ kernel vm, m.kernel.deleteProcess q = .ok kernel
      ∧ m.vm.deleteProcess debug (m.memory q) = some vm ∧ m' = { m with kernel, vm } := by
  obtain ⟨kernel, hk, h⟩ := bind_eq_some_iff.1 h
  obtain ⟨vm, hvm, h⟩ := bind_eq_some_iff.1 h
  cases h
  exact ⟨kernel, vm, toOption_eq_some.1 hk, hvm, rfl⟩

theorem scheduleNext_cases (h : m.scheduleNext = some m') :
    ∃ kernel, m.kernel.scheduleNext = .ok kernel ∧ m'.kernel = kernel ∧ m'.memory = m.memory
      ∧ m'.vm = (match kernel.cr3 with
        | some q => m.vm.swapProcess (m.memory q).cr3
        | none => m.vm) := by
  obtain ⟨kernel, hk, h⟩ := bind_eq_some_iff.1 h
  refine ⟨kernel, toOption_eq_some.1 hk, ?_⟩
  rcases hc : kernel.cr3 with _ | q
  · rw [hc] at h
    cases h
    exact ⟨rfl, rfl, rfl⟩
  · rw [hc] at h
    cases h
    exact ⟨rfl, rfl, rfl⟩

theorem idle_cases (h : m.idle = some m') :
    ∃ kernel, m.kernel.idle = .ok kernel ∧ m' = { m with kernel } := by
  obtain ⟨kernel, hk, h⟩ := bind_eq_some_iff.1 h
  cases h
  exact ⟨kernel, toOption_eq_some.1 hk, rfl⟩

def runs (n : ℕ) (m : Machine) : Option Machine := Loop.times (fun _ => scheduleNext) n m

theorem runs_threads {n : ℕ} (h : m.runs n = some m') : m'.kernel.threads = m.kernel.threads := by
  refine Loop.times_invariant (I := fun _ r => r.kernel.threads = m.kernel.threads) n
    (fun _ _ r r' hr hs => ?_) rfl h
  obtain ⟨kernel, hk, rfl, -⟩ := scheduleNext_cases hs
  exact (Kernel.scheduleNext_cases hk).1.threads.trans hr

end Machine

def NewSlab (v v' : Vm) (addr : ℕ) : Prop :=
  heapBase ≤ addr ∧ addr < heapBreak
    ∧ testBit v.bitmap ((addr - heapBase) / frameSize) = false
    ∧ testBit v'.bitmap ((addr - heapBase) / frameSize) = true

/-- Nothing but new slabs of the heap tells the two states apart. -/
structure NoResidue (m m' : Machine) : Prop where
  frames : ∀ f, (∀ addr e, NewSlab m.vm m'.vm addr →
      m'.vm.mmu.translate m'.vm.mmu.cr3 addr = some e → entryFrame e ≠ f) →
    m'.vm.frames.isFrameAllocated f = m.vm.frames.isFrameAllocated f
  pages : ∀ addr, kernelVMBase ≤ addr → addr < 0xFFC00000 → ¬ NewSlab m.vm m'.vm addr →
    m'.vm.mmu.translate m'.vm.mmu.cr3 addr = m.vm.mmu.translate m.vm.mmu.cr3 addr
  tmpmap : ∀ s, testBit m'.vm.tmpmap s = testBit m.vm.tmpmap s
  heap : m'.kernel.heapBlocks = m.kernel.heapBlocks
  threadList : ∀ l, LinkedList.Walk m'.kernel.next m'.kernel.threadList l
    ↔ LinkedList.Walk m.kernel.next m.kernel.threadList l
  processList : m'.kernel.processList = m.kernel.processList

theorem NoResidue.threads {m m' : Machine} (h : NoResidue m m') :
    m'.kernel.threads ≤ m.kernel.threads := by
  by_contra hlt
  have hmem : HeapBlock.thread m.kernel.threads ∈ m'.kernel.heapBlocks := not_le.1 hlt
  rw [h.heap] at hmem
  exact lt_irrefl m.kernel.threads hmem

section Residue

variable {debug pge : Bool} {fresh : ℕ → Bool} {code : Memory.Mem} {codeSize q : ℕ}
  {m m₁ m₂ m₃ m₄ m' : Machine}

theorem Machine.threads_of_run {n n' : ℕ}
    (hcreate : m.createProcess debug pge fresh code codeSize = some (some q, m₁))
    (hrun : m₁.runs n = some m₂) (hdelete : m₂.deleteProcess debug q = some m₃)
    (hrun' : m₃.runs n' = some m₄) (hidle : m₄.idle = some m') :
    m'.kernel.threads = m.kernel.threads + 1 := by
  rcases Machine.createProcess_cases hcreate with ⟨h, -⟩ | ⟨q', p, vm, kernel, -, -, hk, rfl⟩
  · cases h
  obtain ⟨kernel', vm', hk', -, rfl⟩ := Machine.deleteProcess_cases hdelete
  obtain ⟨kernel'', hk'', rfl⟩ := Machine.idle_cases hidle
  calc kernel''.threads = m₄.kernel.threads := (sameStore_reapFrom hk'').threads
    _ = kernel'.threads := Machine.runs_threads hrun'
    _ = m₂.kernel.threads := deleteProcess_threads hk'
    _ = kernel.threads := Machine.runs_threads hrun
    _ = m.kernel.threads + 1 := createProcess_threads hk

/-- No process goes without a trace. -/
theorem process_leaves_residue (n n' : ℕ)
    (hcreate : m.createProcess debug pge fresh code codeSize = some (some q, m₁))
    (hrun : m₁.runs n = some m₂) (hdelete : m₂.deleteProcess debug q = some m₃)
    (hrun' : m₃.runs n' = some m₄) (hidle : m₄.idle = some m') : ¬ NoResidue m m' := fun hno => by
  have hthreads := Machine.threads_of_run hcreate hrun hdelete hrun' hidle
  have := hno.threads
  omega

end Residue

theorem exists_kernelRun : ∃ k k1 k2 k3 : Kernel,
    Kernel.boot.allocateThread.2.addThreadToScheduler Kernel.boot.allocateThread.1 = .ok k
      ∧ k.createProcess = .ok (0, k1) ∧ k1.deleteProcess 0 = .ok k2 ∧ k2.idle = .ok k3 := by
  have hrun : ((Kernel.boot.allocateThread.2.addThreadToScheduler
      Kernel.boot.allocateThread.1).toOption.bind fun k => k.createProcess.toOption.bind fun r =>
        (r.2.deleteProcess r.1).toOption.bind fun k2 => k2.idle.toOption.map fun _ => r.1)
      = some 0 := by decide +kernel
  obtain ⟨k, hk, hrun⟩ := bind_eq_some_iff.1 hrun
  obtain ⟨⟨q, k1⟩, hk1, hrun⟩ := bind_eq_some_iff.1 hrun
  obtain ⟨k2, hk2, hrun⟩ := bind_eq_some_iff.1 hrun
  obtain ⟨k3, hk3, hq⟩ := map_eq_some_iff.1 hrun
  obtain rfl : q = 0 := hq
  exact ⟨k, k1, k2, k3, toOption_eq_some.1 hk, toOption_eq_some.1 hk1, toOption_eq_some.1 hk2,
    toOption_eq_some.1 hk3⟩

theorem exists_server (debug pge : Bool) : ∃ (s : AddressSpaces) (p : ProcessMemory) (v : Vm),
    s.Reachable debug pge
      ∧ s.vm.createProcess debug pge (fun _ => false) (fun _ => 0#8) 1 = some (some p, v)
      ∧ (⟨v, p.cr3 :: s.spaces, s.data⟩ : AddressSpaces).Reachable debug pge
      ∧ (∀ k ∈ p.kstacks, k.phys % frameSize = 0) ∧ v.Ready 1781 0 1 := by
  obtain ⟨s, hs, hR⟩ := exists_reachable_boot debug pge
  obtain ⟨regions, used, hI⟩ := hs.inv
  have hpages : pageSteps 0 1 = 1 := by decide
  obtain ⟨p, v, hp, hR'⟩ := createProcess_total (n := 1781) debug pge (fun _ => 0#8) 1 hI.space
    (by rwa [hpages]) (by decide) (by decide) (by decide) hI.tmpmap
  have hstep : spaceStep debug pge s (.createProcess (fun _ => false) (fun _ => 0#8) 1)
      = some ⟨v, p.cr3 :: s.spaces, s.data⟩ := by
    simp only [spaceStep, hp]
    rfl
  exact ⟨s, p, v, hs, hp, hs.step _ hstep,
    (createProcess_stack hI.space (by decide) hI.tmpmap hp).1, hR'⟩

theorem kernelStack_stays_mapped_server : ∃ (s : AddressSpaces) (p : ProcessMemory) (v v' : Vm),
    s.Reachable true true
      ∧ s.vm.createProcess true true (fun _ => false) (fun _ => 0#8) 1 = some (some p, v)
      ∧ v.deleteProcess true p = some v'
      ∧ ∃ stack, s.vm.mmu.isVirtualPageMapped stack = false
        ∧ v'.mmu.isVirtualPageMapped stack = true := by
  obtain ⟨s, p, v, hs, hp, hs', hkstacks, -⟩ := exists_server true true
  obtain ⟨regions, used, hI⟩ := hs.inv
  obtain ⟨regions', used', hI'⟩ := hs'.inv
  have hcr3 := (hI'.family.wellFormed _ (List.mem_cons_self ..)).live _ (.inl rfl)
  obtain ⟨v', hv', -⟩ := deleteProcess_total true ⟨_, hI'.space⟩ hI'.tmpmap
    (hI'.space.bounds hcr3).2 hkstacks
  obtain ⟨stack, -, -, hbefore, hafter⟩ :=
    kernelStack_stays_mapped hI.space (by decide) hI.tmpmap hp hv'
  exact ⟨s, p, v, v', hs, hp, hv', stack, hbefore, hafter⟩

theorem exists_serverRun (debug pge : Bool) : ∃ (s : AddressSpaces) (m m₁ m₂ m' : Machine),
    s.Reachable debug pge ∧ Machine.boot s.vm = some m
      ∧ m.createProcess debug pge (fun _ => false) (fun _ => 0#8) 1 = some (some 0, m₁)
      ∧ m₁.deleteProcess debug 0 = some m₂ ∧ m₂.idle = some m' := by
  obtain ⟨k, k1, k2, k3, hk, hk1, hk2, hk3⟩ := exists_kernelRun
  obtain ⟨s, p, v, hs, hp, hs', hkstacks, -⟩ := exists_server debug pge
  obtain ⟨regions, used, hI⟩ := hs'.inv
  have hcr3 : p.cr3 ∈ used :=
    (hI.family.wellFormed _ (List.mem_cons_self ..)).live _ (.inl rfl)
  obtain ⟨v', hv', -⟩ := deleteProcess_total debug ⟨_, hI.space⟩ hI.tmpmap
    (hI.space.bounds hcr3).2 hkstacks
  refine ⟨s, ⟨k, s.vm, fun _ => ⟨0, []⟩⟩, ⟨k1, v, update (fun _ => ⟨0, []⟩) 0 p⟩,
    ⟨k2, v', update (fun _ => ⟨0, []⟩) 0 p⟩,
    ⟨k3, v', update (fun _ => ⟨0, []⟩) 0 p⟩, hs, ?_, Machine.createProcess_eq hp hk1, ?_,
    ?_⟩
  · unfold Machine.boot
    simp only [hk, Except.toOption]
    rfl
  · unfold Machine.deleteProcess
    simp only [hk2, Except.toOption, update_self, hv']
    rfl
  · unfold Machine.idle
    simp only [hk3, Except.toOption]
    rfl

theorem process_leaves_residue_server : ∃ (s : AddressSpaces) (m m₁ m₂ m' : Machine),
    s.Reachable true true ∧ Machine.boot s.vm = some m
      ∧ m.createProcess true true (fun _ => false) (fun _ => 0#8) 1 = some (some 0, m₁)
      ∧ m₁.deleteProcess true 0 = some m₂ ∧ m₂.idle = some m' ∧ ¬ NoResidue m m' := by
  obtain ⟨s, m, m₁, m₂, m', hs, hboot, hcreate, hdelete, hidle⟩ := exists_serverRun true true
  exact ⟨s, m, m₁, m₂, m', hs, hboot, hcreate, hdelete, hidle,
    process_leaves_residue 0 0 hcreate rfl hdelete rfl hidle⟩

theorem not_process_leaves_nothing : ¬ ∀ (s : AddressSpaces) (m m₁ m₂ m' : Machine) (q : ℕ),
    s.Reachable true true → Machine.boot s.vm = some m →
    m.createProcess true true (fun _ => false) (fun _ => 0#8) 1 = some (some q, m₁) →
    m₁.deleteProcess true q = some m₂ → m₂.idle = some m' → NoResidue m m' := fun h => by
  obtain ⟨s, m, m₁, m₂, m', hs, hboot, hcreate, hdelete, hidle⟩ := exists_serverRun true true
  have hthreads := Machine.threads_of_run (n := 0) hcreate rfl hdelete
    (rfl : m₂.runs 0 = some m₂) hidle
  have := (h s m m₁ m₂ m' 0 hs hboot hcreate hdelete hidle).threads
  omega

end DragonWare
