import DragonWare.Proofs.HugeAllocation

/-!
# The frames of the kernel's tables

After boot the kernel's half of the directory has all its tables. None of their frames backs a page
that the kernel maps and unmaps, or the first page of a block of several pages (`WindowInv`).
-/

namespace DragonWare

open Bitmap Function Mmu Option TwoLevel

variable {a b : ℕ} {flags e : BitVec 32} {st : Status} {fm fm' : FrameManager}

def Mmu.page (m : Mmu) (a : ℕ) : Option (BitVec 32) := m.lookup (pdIndex a) (ptIndex a)

theorem Mmu.isVirtualPageMapped_page (m : Mmu) (a : ℕ) :
    m.isVirtualPageMapped a = (m.page a).isSome := by
  rw [isVirtualPageMapped_eq, translate_cr3]
  rfl

theorem SamePage.page (hs : SamePage a b) (m : Mmu) : m.page a = m.page b := by
  unfold Mmu.page
  rw [hs.1, hs.2]

theorem SamePage.symm (hs : SamePage a b) : SamePage b a := ⟨hs.1.symm, hs.2.symm⟩

/-- The page is one that the kernel maps and unmaps, or the first one of a block in `bases`. -/
def Tracked (bases : List ℕ) (a : ℕ) : Prop :=
  (∃ b, Scratch b ∧ SamePage a b) ∨ ∃ b ∈ bases, SamePage a b

theorem Scratch.tracked (h : Scratch a) (bases : List ℕ) : Tracked bases a :=
  .inl ⟨a, h, rfl, rfl⟩

theorem heapPage_scratch {i : ℕ} (hi : i < heapPages) : Scratch (heapPage i) := by
  rw [scratch_iff]
  simp only [heapPage, heapBase_eq, heapPages, frameSize] at hi ⊢
  omega

theorem kernelPage_of_base (hb : kernelVMBase ≤ b ∧ b < heapBase) : KernelPage b := by
  refine kernelPage_of_bounds hb.1 (hb.2.trans ?_)
  rw [heapBase_eq]
  decide

theorem not_samePage_base (ha : Scratch a) (hb : kernelVMBase ≤ b ∧ b < heapBase) :
    ¬ SamePage b a := by
  rw [scratch_iff] at ha
  rw [heapBase_eq] at hb
  simp only [kernelVMBase] at hb
  unfold SamePage pdIndex ptIndex
  omega

theorem Space.kernelHalf {regions : List MemoryRegion} {used : List ℕ} {m : Mmu}
    (hS : Space regions used m fm) : KernelHalf m := by
  have hchild (i : ℕ) (h1 : 768 ≤ i) (h2 : i < 1023) :
      entryChild (m.table m.cr3 i) = some (entryFrame (m.pde i)) :=
    entryChild_of_present (hS.kernel i ⟨h1, h2⟩)
  refine ⟨fun i h1 h2 => hS.kernel i ⟨h1, h2⟩, fun i h1 h2 heq => ?_,
    fun i h1 h2 j h3 h4 heq => ?_⟩
  · exact hS.wellFormed.ne i h2 ((hchild i h1 h2).trans (congrArg some heq))
  · refine hS.wellFormed.inj i h2 j h4 _ (hchild i h1 h2) ?_
    rw [hchild j h3 h4, heq]

namespace KernelHalf

variable {m m' : Mmu}

theorem congr (hk : KernelHalf m) (hcr3 : m'.cr3 = m.cr3) (hpde : ∀ i, m'.pde i = m.pde i) :
    KernelHalf m' := by
  refine ⟨fun i => ?_, fun i => ?_, fun i h1 h2 j => ?_⟩
  · rw [hpde]
    exact hk.present i
  · rw [hpde, hcr3]
    exact hk.directory i
  · rw [hpde, hpde]
    exact hk.tables i h1 h2 j

theorem page (hk : KernelHalf m) (ha : KernelPage a) : m.page a
    = if entryPresent (m.pte (pdIndex a) (ptIndex a)) then
        some (m.pte (pdIndex a) (ptIndex a)) else none := by
  rw [← hk.translate ha, translate_cr3]
  rfl

theorem page_write (hk : KernelHalf m) (ha : KernelPage a) (hb : KernelPage b) (e : BitVec 32) :
    (m.write (entryFrame (m.pde (pdIndex a))) (ptIndex a) e).page b
      = if SamePage b a then (if entryPresent e then some e else none) else m.page b := by
  have h := hk.translate_write ha hb e
  rw [translate_cr3 m b] at h
  exact (translate_cr3 (m.write (entryFrame (m.pde (pdIndex a))) (ptIndex a) e) b).symm.trans h

theorem mapSinglePage_cases (hk : KernelHalf m) (ha : KernelPage a) {phys : ℕ}
    (heq : Mmu.mapSinglePage phys a flags m fm = (st, m', fm')) :
    fm' = fm ∧ (m' = m ∨ (phys % frameSize = 0
      ∧ m' = m.write (entryFrame (m.pde (pdIndex a))) (ptIndex a)
          (BitVec.ofNat 32 phys ||| flags))) := by
  unfold Mmu.mapSinglePage at heq
  simp only [hk.present _ ha.1 ha.2, if_true] at heq
  split_ifs at heq with h1 h2
  · cases heq
    exact ⟨rfl, .inl rfl⟩
  · cases heq
    exact ⟨rfl, .inl rfl⟩
  · cases heq
    exact ⟨rfl, .inr ⟨by tauto, rfl⟩⟩

end KernelHalf

theorem unmapSinglePage_cases {m m' : Mmu} {debug : Bool}
    (heq : m.unmapSinglePage debug a = some m') :
    (m.page a = none ∧ m' = m)
      ∨ m' = m.write (entryFrame (m.pde (pdIndex a))) (ptIndex a) 0#32 := by
  unfold Mmu.unmapSinglePage at heq
  rw [isVirtualPageMapped_page] at heq
  split_ifs at heq with _ hun
  · exact .inl ⟨by simpa using hun, (some.inj heq).symm⟩
  · exact .inr (some.inj heq).symm

/-- The directory and the kernel's tables are in the frames with numbers in `T`. -/
structure WindowInv (T : Set ℕ) (bases : List ℕ) (h : HeapPages) : Prop where
  kernel : KernelHalf h.mmu
  directory : h.mmu.cr3 / frameSize ∈ T
  table : ∀ i, 768 ≤ i → i < 1023 → entryFrame (h.mmu.pde i) / frameSize ∈ T
  zero : 0 ∉ T
  taken : ∀ k ∈ T, testBit h.frames.bitmap k = true
  bit : ∀ i < heapPages, testBit h.bitmap i = (h.mmu.page (heapPage i)).isSome
  base : ∀ b ∈ bases, kernelVMBase ≤ b ∧ b < heapBase
  safe : ∀ a, Tracked bases a → ∀ e, h.mmu.page a = some e → entryFrame e / frameSize ∉ T

def OutsideHeap (a : ℕ) : Prop := ∀ i < heapPages, ¬ SamePage (heapPage i) a

namespace WindowInv

variable {T : Set ℕ} {bases : List ℕ} {h h' : HeapPages} {f : ℕ} {debug : Bool} {m' : Mmu}

section Steps

variable (hW : WindowInv T bases h)
include hW

theorem described : h.Described :=
  ⟨hW.kernel, fun i hi => by rw [isVirtualPageMapped_page, hW.bit i hi]⟩

theorem kernelPage (hb : Tracked bases b) : KernelPage b := by
  rcases hb with ⟨c, hc, hs⟩ | ⟨c, hc, hs⟩
  · have := hc.pdIndex
    rw [← hs.1] at this
    exact this
  · have := kernelPage_of_base (hW.base c hc)
    unfold KernelPage at this ⊢
    rwa [hs.1]

theorem subset {bases' : List ℕ} (hsub : bases' ⊆ bases) : WindowInv T bases' h :=
  { hW with
    base := fun b hb => hW.base b (hsub hb)
    safe := fun a ha => hW.safe a (ha.imp_right fun ⟨c, hc, hs⟩ => ⟨c, hsub hc, hs⟩) }

theorem adopt (ha : kernelVMBase ≤ a ∧ a < heapBase) (hun : h.mmu.page a = none) :
    WindowInv T (a :: bases) h := by
  refine { hW with base := List.forall_mem_cons.2 ⟨ha, hW.base⟩, safe := fun b hb e hbe => ?_ }
  rcases hb with hb | ⟨c, hc, hs⟩
  · exact hW.safe b (.inl hb) e hbe
  rcases List.mem_cons.1 hc with rfl | hc
  · rw [hs.page, hun] at hbe
    cases hbe
  · exact hW.safe b (.inr ⟨c, hc, hs⟩) e hbe

theorem write (ha : KernelPage a) {bitmap : ℕ → BitVec 32}
    (hbit : ∀ i < heapPages, testBit bitmap i
      = if SamePage (heapPage i) a then entryPresent e else testBit h.bitmap i)
    (hsafe : entryPresent e = true → entryFrame e / frameSize ∉ T) :
    WindowInv T bases { h with
      bitmap, mmu := h.mmu.write (entryFrame (h.mmu.pde (pdIndex a))) (ptIndex a) e } := by
  refine ⟨hW.kernel.write ha.1 ha.2 _, hW.directory, fun i h1 h2 => ?_, hW.zero, hW.taken,
    fun i hi => ?_, hW.base, fun b hb e' hbe => ?_⟩
  · show entryFrame ((h.mmu.write _ _ _).pde i) / frameSize ∈ T
    rw [hW.kernel.pde_write ha.1 ha.2]
    exact hW.table i h1 h2
  · rw [hbit i hi, hW.bit i hi, hW.kernel.page_write ha (heapPage_pdIndex hi)]
    split_ifs with hs he <;> simp_all
  · rw [hW.kernel.page_write ha (hW.kernelPage hb)] at hbe
    split_ifs at hbe with hs he
    · cases hbe
      exact hsafe he
    · exact hW.safe b hb e' hbe

theorem setFrame (hf : f / frameSize ∉ T) (row : ℕ → BitVec 32) :
    WindowInv T bases { h with mmu := h.mmu.setFrame f row } := by
  have hne {g : ℕ} (hg : g / frameSize ∈ T) : g ≠ f := by
    rintro rfl
    exact hf hg
  have hpde (i : ℕ) : (h.mmu.setFrame f row).pde i = h.mmu.pde i := by
    show update h.mmu.table f row h.mmu.cr3 i = _
    rw [update_of_ne (hne hW.directory)]
    rfl
  have hk : KernelHalf (h.mmu.setFrame f row) := hW.kernel.congr rfl hpde
  have hpage {b : ℕ} (hb : KernelPage b) : (h.mmu.setFrame f row).page b = h.mmu.page b := by
    have hpte (j : ℕ) : (h.mmu.setFrame f row).pte (pdIndex b) j = h.mmu.pte (pdIndex b) j := by
      unfold pte
      rw [hpde]
      exact congrFun (update_of_ne (hne (hW.table _ hb.1 hb.2)) ..) j
    rw [hk.page hb, hW.kernel.page hb, hpte]
  refine ⟨hk, hW.directory, fun i => ?_, hW.zero, hW.taken, fun i hi => ?_, hW.base,
    fun b hb e hbe => ?_⟩
  · rw [hpde]
    exact hW.table i
  · rw [hpage (heapPage_pdIndex hi)]
    exact hW.bit i hi
  · rw [hpage (hW.kernelPage hb)] at hbe
    exact hW.safe b hb e hbe

theorem allocateFrame : WindowInv T bases { h with frames := h.frames.allocateFrame.2 } := by
  refine { hW with taken := fun k hk => ?_ }
  have := hW.taken k hk
  rw [← Bool.not_eq_false] at this ⊢
  exact fun hc => this ((testBit_markFrameReserved ..).1 hc).1

theorem freeFrame {frames : FrameManager} (hf : f / frameSize ∉ T)
    (heq : h.frames.freeFrame debug f = some frames) : WindowInv T bases { h with frames } := by
  unfold FrameManager.freeFrame at heq
  split_ifs at heq <;> cases heq
  · exact hW
  · exact hW
  refine { hW with taken := fun k hk => ?_ }
  have := hW.taken k hk
  rw [← Bool.not_eq_false] at this ⊢
  intro hc
  rcases (testBit_markFrameAvailable _ _ _).1 hc with hc | ⟨-, -, rfl⟩
  · exact this hc
  · exact hf hk

theorem fresh : h.frames.allocateFrame.1 / frameSize ∉ T := by
  by_cases h0 : h.frames.allocateFrame.1 = 0
  · rw [h0]
    exact hW.zero
  obtain ⟨k, hk, -, -, hclear⟩ := allocateFrame_free h0
  rw [hk]
  intro hmem
  rw [Nat.mul_div_cancel _ (by decide)] at hmem
  rw [hW.taken k hmem] at hclear
  cases hclear

theorem map (ha : KernelPage a) (hout : OutsideHeap a) (hf : f / frameSize ∉ T) (hlt : f < 2 ^ 32)
    (hlow : flags &&& 0xFFFFF000#32 = 0#32)
    (heq : Mmu.mapSinglePage f a flags h.mmu fm = (st, m', fm')) :
    fm' = fm ∧ WindowInv T bases { h with mmu := m' } := by
  obtain ⟨rfl, rfl | ⟨hal, rfl⟩⟩ := hW.kernel.mapSinglePage_cases ha heq
  · exact ⟨rfl, hW⟩
  · refine ⟨rfl, hW.write ha (fun i hi => (if_neg (hout i hi)).symm) fun _ => ?_⟩
    rwa [entryFrame_or hlt hal hlow]

theorem mapFresh (ha : KernelPage a) (hout : OutsideHeap a) (hlow : flags &&& 0xFFFFF000#32 = 0#32)
    (heq : Mmu.mapSinglePage h.frames.allocateFrame.1 a flags h.mmu h.frames.allocateFrame.2
      = (st, m', fm')) : WindowInv T bases { h with mmu := m', frames := fm' } := by
  obtain ⟨rfl, hW'⟩ := hW.allocateFrame.map ha hout hW.fresh (allocateFrame_bounds _).1 hlow heq
  exact hW'

theorem unmap (ha : KernelPage a) (hout : OutsideHeap a)
    (heq : h.mmu.unmapSinglePage debug a = some m') : WindowInv T bases { h with mmu := m' } := by
  rcases unmapSinglePage_cases heq with ⟨-, rfl⟩ | rfl
  · exact hW
  · exact hW.write ha (fun i hi => (if_neg (hout i hi)).symm) fun h => absurd h (by decide)

theorem allocateVirtualPage {pge : Bool} (heq : h.allocateVirtualPage debug pge = some (a, h')) :
    WindowInv T bases h'
      ∧ ∀ j, testBit h.bitmap j = true → testBit h'.bitmap j = true := by
  rcases hW.described.allocateVirtualPage heq with
    ⟨-, -, rfl⟩ | ⟨i, hi, -, -, -, flags, hflags, hlow, rfl⟩
  · exact ⟨hW.allocateFrame, fun _ hj => hj⟩
  have hset (j : ℕ) := testBit_setBit (by decide) h.bitmap i j
  refine ⟨hW.allocateFrame.write (heapPage_pdIndex hi) (fun j hj => ?_) fun _ => ?_, fun j hj => ?_⟩
  · rw [hset, entryPresent_or _ hflags]
    by_cases hji : j = i
    · rw [if_pos (hji ▸ ⟨rfl, rfl⟩)]
      simp [hji]
    · rw [if_neg fun hs => hji (heapPage_index_inj hj hi hs.1 hs.2)]
      simp [hji]
  · obtain ⟨hlt, hal⟩ := allocateFrame_bounds h.frames
    rw [entryFrame_or hlt hal hlow]
    exact hW.fresh
  · show testBit (setBit h.bitmap i) j = true
    rw [hset, hj]
    rfl

theorem frameAt (ha : KernelPage a) : h.frameAt a = (h.mmu.page a).map entryFrame := by
  unfold HeapPages.frameAt
  rw [isVirtualPageMapped_page, hW.kernel.page ha]
  split_ifs <;> simp_all

theorem freeVirtualPage (ha : Tracked bases a) (hoff : h.frameAt a = some (virtToPhys a))
    (hbit : ∀ i < heapPages, testBit h'.bitmap i
      = (!decide (SamePage (heapPage i) a) && testBit h.bitmap i))
    (heq : h.freeVirtualPage debug a = some h') : WindowInv T bases h' := by
  have hk := hW.kernelPage ha
  rw [hW.frameAt hk] at hoff
  obtain ⟨e, hpage, hef⟩ := map_eq_some_iff.1 hoff
  obtain ⟨m', frames, hunmap, hfree, rfl⟩ := freeVirtualPage_cases heq
  have hW' := hW.freeFrame (hef ▸ hW.safe a ha e hpage) hfree
  rcases unmapSinglePage_cases hunmap with ⟨hun, -⟩ | rfl
  · rw [hpage] at hun
    cases hun
  · refine hW'.write hk (fun i hi => ?_) fun h => absurd h (by decide)
    rw [hbit i hi]
    split_ifs with hs <;> simp [hs, entryPresent]

end Steps

end WindowInv

def Above (a : ℕ) : Prop := Scratch a ∧ heapBreak ≤ a

theorem Above.out (ha : Above a) : OutsideHeap a := by
  intro i hi
  obtain ⟨hs, hle⟩ := ha
  rw [scratch_iff] at hs
  rw [heapBreak_eq] at hle
  simp only [SamePage, pdIndex, ptIndex, heapPage, heapPages, heapBase_eq, frameSize] at hi ⊢
  omega

namespace Vm

variable {T : Set ℕ} {bases : List ℕ} {bits : ℕ → BitVec 32} {v v' : Vm}
variable {debug pge fresh : Bool} {m : VirtualMap}

def Window (T : Set ℕ) (bases : List ℕ) (bits : ℕ → BitVec 32) (v : Vm) : Prop :=
  WindowInv T bases v.toHeapPages
    ∧ ∀ j, testBit bits j = true → testBit v.bitmap j = true

theorem TempAddr.tracked (ha : TempAddr a) : Tracked bases a := by
  refine .inl ⟨a / frameSize * frameSize, ?_, ?_⟩
  · rw [scratch_iff]
    obtain ⟨h1, h2⟩ := ha
    simp only [frameSize]
    omega
  · unfold SamePage pdIndex ptIndex
    simp only [frameSize]
    omega

theorem AtSlot.above (hm : AtSlot m) : Above m.addr.virt := by
  obtain ⟨heq, hs⟩ := hm
  refine ⟨heq ▸ tmpMapAddr_scratch hs, ?_⟩
  rw [heq, heapBreak_eq]
  simp only [tmpMapMaxPages] at hs
  simp only [tmpMapAddrFromIndex, temporaryVirtMapAddr, frameSize]
  omega

namespace Window

variable (hw : Window T bases bits v)
include hw

theorem kmallocSmall {b : Bool} (h : v.kmallocSmall debug pge fresh = some (b, v')) :
    Window T bases bits v' := by
  unfold Vm.kmallocSmall at h
  split_ifs at h
  · obtain ⟨r, hr, h⟩ := map_eq_some_iff.1 h
    cases h
    obtain ⟨hW, hgrow⟩ := hw.1.allocateVirtualPage hr
    exact ⟨hW, fun j hj => hgrow j (hw.2 j hj)⟩
  · cases h
    exact hw

theorem poke (ha : TempAddr a) (row : ℕ → BitVec 32) (h : v.mmu.translate v.mmu.cr3 a = some e) :
    Window T bases bits { v with mmu := v.mmu.setFrame (entryFrame e) row } := by
  rw [translate_cr3] at h
  exact ⟨hw.1.setFrame (hw.1.safe a ha.tracked e h) row, hw.2⟩

theorem mapKernelStackPage (ha : Above a) : Window T bases bits (v.mapKernelStackPage a).2 := by
  unfold Vm.mapKernelStackPage
  rcases hm : Mmu.mapSinglePage v.frames.allocateFrame.1 a
    (pagePresent ||| pageRW ||| pageGlobal) v.mmu v.frames.allocateFrame.2 with ⟨st, mmu, frames⟩
  simp only [hm]
  exact ⟨hw.1.mapFresh ha.1.pdIndex ha.out (by decide) hm, hw.2⟩

theorem createTempVirtualMap {r : Option VirtualMap}
    (h : v.createTempVirtualMap debug pge fresh = some (r, v')) : Window T bases bits v' := by
  obtain ⟨b, v1, hk, hcases⟩ := createTempVirtualMap_cases h
  have hw1 := hw.kmallocSmall hk
  rcases hcases with ⟨-, rfl⟩ | ⟨-, -, rfl⟩ | ⟨slot, st, mmu, frames, hslot, h0, hm, hcases⟩
  · exact hw1
  · exact ⟨hw1.1.allocateFrame, hw1.2⟩
  have hat : AtSlot ⟨⟨tmpMapAddrFromIndex slot, v1.frames.allocateFrame.1⟩, slot⟩ := by
    obtain ⟨-, hlt, -⟩ := scanClear_some (by decide) v1.tmpmap _ _ hslot
    have hmax : (0 + tmpMapBitmapWords) * 32 = tmpMapMaxPages := by decide
    exact ⟨rfl, hmax ▸ hlt⟩
  have hW := hw1.1.mapFresh hat.above.1.pdIndex hat.above.out (by decide) hm
  rcases hcases with ⟨-, -, frames', hfree, rfl⟩ | ⟨-, -, hz⟩
  · exact ⟨hW.freeFrame hw1.1.fresh hfree, hw1.2⟩
  obtain ⟨mmu', hm', rfl⟩ := map_eq_some_iff.1 hz
  obtain ⟨pte, hp, rfl⟩ := map_eq_some_iff.1 hm'
  have hw2 : Window T bases bits { v1 with
      mmu, frames, tmpmap := setBit v1.tmpmap slot } := ⟨hW, hw1.2⟩
  exact hw2.poke (hat.tempAddr (k := 0) (by decide)) _ hp

theorem deleteTempVirtualMap (hm : AtSlot m) (h : v.deleteTempVirtualMap debug m = some v') :
    Window T bases bits v' := by
  unfold Vm.deleteTempVirtualMap at h
  split_ifs at h
  obtain ⟨mmu, hu, rfl⟩ := map_eq_some_iff.1 h
  exact ⟨hw.1.unmap hm.above.1.pdIndex hm.above.out hu, hw.2⟩

end Window

/-- Every place for a kernel stack that lies in the heap has a page mapped. -/
def StacksTaken (m : Mmu) : Prop :=
  ∀ i < 128, (m.isVirtualPageMapped (kernelStackBase + i * (kernelStackSizePages * frameSize))
    || m.isVirtualPageMapped
      (kernelStackBase + i * (kernelStackSizePages * frameSize) + frameSize)) = true

theorem getNextKernelStackAddress_above (hst : StacksTaken v.mmu)
    (h : v.getNextKernelStackAddress = some a) : Above a ∧ Above (a + frameSize) := by
  obtain ⟨hs1, hs2⟩ := getNextKernelStackAddress_scratch h
  obtain ⟨k, -, hk⟩ := findKernelStack_some h
  have hfree := findKernelStack_free h
  have hle : 128 ≤ k := by
    by_contra hlt
    have := hst k (by omega)
    rw [← hk, hfree] at this
    cases this
  have hbr : heapBreak ≤ a := by
    rw [heapBreak_eq, hk]
    simp only [kernelStackBase, kernelStackSizePages, frameSize]
    omega
  exact ⟨⟨hs1, hbr⟩, hs2, by omega⟩

theorem Window.createProcess {fresh : ℕ → Bool} {code : Memory.Mem} {codeSize : ℕ}
    {r : Option ProcessMemory} (hw : Window T bases bits v) (hsize : codeSize ≤ 0x300000)
    (hst : StacksTaken v.mmu) (h : v.createProcess debug pge fresh code codeSize = some (r, v')) :
    Window T bases bits v' := by
  have hs : Starts debug pge Above (Window T bases bits) :=
    ⟨fun hw => hw.kmallocSmall, fun ha hw => hw.mapKernelStackPage ha,
      fun hw => hw.createTempVirtualMap⟩
  have hb : Builds debug pge TempAddr (Window T bases bits) :=
    ⟨fun hw => hw.createTempVirtualMap, fun row ha hw => hw.poke ha row,
      fun hm hw => hw.deleteTempVirtualMap hm, fun _ => id⟩
  rcases hs.createProcess hw (fun _ => getNextKernelStackAddress_above hst) h with
    ⟨-, h⟩ | ⟨p, u, v1, pd, -, -, hu, hm, hbuild⟩
  · exact h
  · exact hb.buildAddressSpace (.inl hsize) (atSlot_of_create hm) (hu.createTempVirtualMap hm)
      hbuild

theorem Window.bad (hw : Window T bases bits v) {b : Bool} {f1 f2 : ℕ} (hf1 : f1 / frameSize ∉ T)
    (hf2 : f2 / frameSize ∉ T) (ha0 : Above a) (ha1 : Above (a + frameSize)) (h : (do
      let frames ← (if f1 ≠ 0 then v.frames.freeFrame debug f1 else some v.frames)
      let frames ← (if f2 ≠ 0 then frames.freeFrame debug f2 else some frames)
      let mmu ← v.mmu.unmapSinglePage debug (a + frameSize)
      let mmu ← mmu.unmapSinglePage debug a
      return (false, { v with mmu, frames }) : Option (Bool × Vm)) = some (b, v')) :
    Window T bases bits v' := by
  have hfree {h : HeapPages} (hW : WindowInv T bases h) {f : ℕ} (hf : f / frameSize ∉ T)
      {frames : FrameManager}
      (heq : (if f ≠ 0 then h.frames.freeFrame debug f else some h.frames) = some frames) :
      WindowInv T bases { h with frames } := by
    split_ifs at heq
    · exact hW.freeFrame hf heq
    · cases heq
      exact hW
  obtain ⟨frames1, hf1', h⟩ := bind_eq_some_iff.1 h
  obtain ⟨frames2, hf2', h⟩ := bind_eq_some_iff.1 h
  obtain ⟨m1, hm1, h⟩ := bind_eq_some_iff.1 h
  obtain ⟨m2, hm2, h⟩ := bind_eq_some_iff.1 h
  cases h
  have hW1 := (hfree (hfree hw.1 hf1 hf1') hf2 hf2').unmap ha1.1.pdIndex ha1.out hm1
  exact ⟨hW1.unmap ha0.1.pdIndex ha0.out hm2, hw.2⟩

theorem Window.createThread {b : Bool} (hw : Window T bases bits v) (hst : StacksTaken v.mmu)
    (h : v.createThread debug pge fresh = some (b, v')) : Window T bases bits v' := by
  have hlt := (allocateFrame_bounds v.frames).1
  have hlt' := (allocateFrame_bounds v.frames.allocateFrame.2).1
  have hf1 := hw.1.fresh
  have hf2 := hw.1.allocateFrame.fresh
  have hw0 : Window T bases bits { v with frames := v.frames.allocateFrame.2.allocateFrame.2 } :=
    ⟨hw.1.allocateFrame.allocateFrame, hw.2⟩
  unfold Vm.createThread at h
  simp only [] at h
  split at h
  · cases h
    exact hw0
  next a ha =>
  obtain ⟨ha0, ha1⟩ := getNextKernelStackAddress_above hst ha
  simp only at hf1 hf2 hlt hlt'
  generalize v.frames.allocateFrame.2.allocateFrame.2 = frames at h hw0
  generalize v.frames.allocateFrame.2.allocateFrame.1 = f2 at h hf2 hlt'
  generalize v.frames.allocateFrame.1 = f1 at h hf1 hlt
  by_cases h0 : f1 = 0 ∨ f2 = 0
  · rw [if_pos h0] at h
    exact hw0.bad hf1 hf2 ha0 ha1 h
  rw [if_neg h0] at h
  rcases hmap : Mmu.mapSinglePage f2 (a + frameSize) (pagePresent ||| pageRW) v.mmu frames with
    ⟨st, m1, fm1⟩
  obtain ⟨rfl, hW1⟩ := hw0.1.map ha1.1.pdIndex ha1.out hf2 hlt' (by decide) hmap
  have hw1 : Window T bases bits { v with mmu := m1, frames := fm1 } := ⟨hW1, hw.2⟩
  rw [hmap] at h
  split at h
  swap
  · next heq =>
    cases heq
    exact hw1.bad hf1 hf2 ha0 ha1 h
  next heq =>
  cases heq
  rcases hmap' : Mmu.mapSinglePage f1 a (pagePresent ||| pageRW) m1 fm1 with ⟨st, m2, fm2⟩
  obtain ⟨rfl, hW2⟩ := hW1.map ha0.1.pdIndex ha0.out hf1 hlt (by decide) hmap'
  have hw2 : Window T bases bits { v with mmu := m2, frames := fm2 } := ⟨hW2, hw.2⟩
  rw [hmap'] at h
  split at h
  swap
  · next heq =>
    cases heq
    exact hw2.bad hf1 hf2 ha0 ha1 h
  next heq =>
  cases heq
  obtain ⟨⟨t, v3⟩, hk, h⟩ := bind_eq_some_iff.1 h
  have hw3 := hw2.kmallocSmall hk
  by_cases ht : (!t) = true
  · rw [if_pos ht] at h
    exact hw3.bad hf1 hf2 ha0 ha1 h
  · rw [if_neg ht] at h
    cases h
    exact hw3

end Vm

end DragonWare
