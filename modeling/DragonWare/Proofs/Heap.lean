import DragonWare.Heap
import DragonWare.Proofs.Frame
import DragonWare.Proofs.Kmalloc

/-!
# Who owns the frames behind the heap

As long as every page is given back while it is backed by the frame at the constant offset that
`FreeVirtualPage` assumes, each mapped page has a live frame of its own (`PagesInv`).
-/

namespace DragonWare

open Bitmap FrameManager Function HeapPages Option

section Entries

theorem entryFrame_or {phys : ℕ} {flags : BitVec 32} (hlt : phys < 2 ^ 32)
    (hal : phys % frameSize = 0) (hf : flags &&& 0xFFFFF000#32 = 0#32) :
    entryFrame (BitVec.ofNat 32 phys ||| flags) = phys := by
  obtain ⟨k, rfl⟩ := Nat.dvd_of_mod_eq_zero hal
  have hmask : BitVec.ofNat 32 (frameSize * k) &&& 0xFFFFF000#32
      = BitVec.ofNat 32 (frameSize * k) := by
    have hsh : BitVec.ofNat 32 (frameSize * k) = BitVec.ofNat 32 k <<< 12 := by
      apply BitVec.eq_of_toNat_eq
      simp only [BitVec.toNat_ofNat, BitVec.toNat_shiftLeft, Nat.shiftLeft_eq, frameSize]
      omega
    have hbits : ∀ i < 32, (0xFFFFF000#32).getLsbD i = !decide (i < 12) := by decide
    rw [hsh]
    apply BitVec.eq_of_getLsbD_eq
    intro i hi
    rw [BitVec.getLsbD_and, BitVec.getLsbD_shiftLeft, hbits i hi]
    cases decide (i < 12) <;> simp
  unfold entryFrame
  rw [BitVec.and_comm, BitVec.and_or_distrib_left, BitVec.and_comm, hmask,
    BitVec.and_comm _ flags, hf, BitVec.or_zero, BitVec.toNat_ofNat, Nat.mod_eq_of_lt hlt]

theorem entryPresent_or (e : BitVec 32) {flags : BitVec 32} (hf : flags.getLsbD 0 = true) :
    entryPresent (e ||| flags) = true := by
  rw [BitVec.getLsbD_eq_getElem (by decide)] at hf
  unfold entryPresent
  simp only [ne_eq, decide_not, Bool.not_eq_true', decide_eq_false_iff_not]
  intro h
  have := congrArg (fun v => BitVec.getLsbD v 0) h
  simp [hf, pagePresent] at this

/-- The pages of the kernel, up to the window through which tables are reached. -/
def KernelPage (a : ℕ) : Prop := 768 ≤ pdIndex a ∧ pdIndex a < 1023

/-- `InitVirtualMemoryManager` points every directory entry from `KERNEL_PD_INDEX` to the last but
one at a table of its own. -/
structure KernelHalf (m : Mmu) : Prop where
  present : ∀ i, 768 ≤ i → i < 1023 → entryPresent (m.pde i) = true
  directory : ∀ i, 768 ≤ i → i < 1023 → entryFrame (m.pde i) ≠ m.cr3
  tables : ∀ i, 768 ≤ i → i < 1023 → ∀ j, 768 ≤ j → j < 1023 →
    entryFrame (m.pde i) = entryFrame (m.pde j) → i = j

namespace KernelHalf

variable {m : Mmu} {i : ℕ} {e : BitVec 32}

theorem pde_write (hk : KernelHalf m) (h1 : 768 ≤ i) (h2 : i < 1023) (j k : ℕ) :
    (m.write (entryFrame (m.pde i)) j e).pde k = m.pde k := by
  have hne := (hk.directory i h1 h2).symm
  simp only [Mmu.pde, Mmu.write] at hne ⊢
  rw [update_of_ne hne]

theorem pte_write (hk : KernelHalf m) (h1 : 768 ≤ i) (h2 : i < 1023) (j : ℕ) {k : ℕ}
    (h3 : 768 ≤ k) (h4 : k < 1023) (l : ℕ) :
    (m.write (entryFrame (m.pde i)) j e).pte k l = if k = i ∧ l = j then e else m.pte k l := by
  unfold Mmu.pte
  rw [hk.pde_write h1 h2]
  by_cases hki : k = i
  · subst hki
    by_cases hlj : l = j
    · simp [Mmu.write, hlj]
    · simp [Mmu.write, hlj]
  · have hne : entryFrame (m.pde k) ≠ entryFrame (m.pde i) := fun h =>
      hki (hk.tables k h3 h4 i h1 h2 h)
    simp [Mmu.write, update_of_ne hne, hki]

theorem write (hk : KernelHalf m) (h1 : 768 ≤ i) (h2 : i < 1023) (j : ℕ) :
    KernelHalf (m.write (entryFrame (m.pde i)) j e) := by
  refine ⟨fun k h3 h4 => ?_, fun k h3 h4 => ?_, fun k h3 h4 l h5 h6 h => ?_⟩
  · rw [hk.pde_write h1 h2]
    exact hk.present k h3 h4
  · rw [hk.pde_write h1 h2]
    exact hk.directory k h3 h4
  · rw [hk.pde_write h1 h2, hk.pde_write h1 h2] at h
    exact hk.tables k h3 h4 l h5 h6 h

theorem mapSinglePage {a : ℕ} (hk : KernelHalf m) (ha : KernelPage a) (hal : a % frameSize = 0)
    (hun : m.isVirtualPageMapped a = false) {phys : ℕ} (hphys : phys % frameSize = 0)
    (flags : BitVec 32) (fm : FrameManager) :
    Mmu.mapSinglePage phys a flags m fm = (.ok,
      m.write (entryFrame (m.pde (pdIndex a))) (ptIndex a) (BitVec.ofNat 32 phys ||| flags),
      fm) := by
  have h0 : a ≠ 0 := by
    rintro rfl
    exact absurd ha.1 (by decide)
  have hp := hk.present _ ha.1 ha.2
  have hpte : entryPresent (m.pte (pdIndex a) (ptIndex a)) = false := by
    unfold Mmu.isVirtualPageMapped at hun
    simpa [hp] using hun
  simp [Mmu.mapSinglePage, h0, hphys, hal, hp, hpte]

end KernelHalf

end Entries

section Window

variable {i j : ℕ}

def heapPages : ℕ := 0x20000

def heapPage (i : ℕ) : ℕ := heapBase + i * frameSize

theorem heapPage_eq (i : ℕ) : heapPage i = heapBase + i * frameSize := rfl

theorem heapBase_eq : heapBase = 0xC0100000 := by decide

theorem heapBreak_eq : heapBreak = 0xE0100000 := by decide

theorem virtOffset_eq : virtOffset = 0xBFF00000 := by decide

theorem heapPage_bounds (hi : i < heapPages) :
    heapPage i ≠ 0 ∧ heapPage i % frameSize = 0 ∧ heapPage i + frameSize < 2 ^ 32
      ∧ heapBase ≤ heapPage i ∧ heapPage i ≤ heapBreak ∧ bitOf (heapPage i) = i := by
  simp only [heapPage, heapPages, heapBase_eq, heapBreak_eq, bitOf, frameSize] at hi ⊢
  omega

theorem heapPage_pdIndex (hi : i < heapPages) : KernelPage (heapPage i) := by
  simp only [KernelPage]
  simp only [pdIndex, heapPage, heapPages, heapBase_eq, frameSize] at hi ⊢
  omega

theorem heapPage_index_inj (hi : i < heapPages) (hj : j < heapPages)
    (hd : pdIndex (heapPage i) = pdIndex (heapPage j))
    (ht : ptIndex (heapPage i) = ptIndex (heapPage j)) : i = j := by
  simp only [pdIndex, ptIndex, heapPage, heapPages, heapBase_eq, frameSize] at hi hj hd ht
  omega

theorem heapPage_inj (h : heapPage i = heapPage j) : i = j := by
  simp only [heapPage, frameSize] at h
  omega

theorem virtToPhys_heapPage (hi : i < heapPages) :
    virtToPhys (heapPage i) % frameSize = 0 ∧ 2 * frameSize ≤ virtToPhys (heapPage i) := by
  simp only [virtToPhys, heapPage, heapPages, heapBase_eq, virtOffset_eq, frameSize] at hi ⊢
  omega

variable {h : HeapPages}

theorem KernelHalf.frameAt (hk : KernelHalf h.mmu) (hi : i < heapPages) :
    h.frameAt (heapPage i) =
      if entryPresent (h.mmu.pte (pdIndex (heapPage i)) (ptIndex (heapPage i))) then
        some (entryFrame (h.mmu.pte (pdIndex (heapPage i)) (ptIndex (heapPage i)))) else none := by
  obtain ⟨h1, h2⟩ := heapPage_pdIndex hi
  simp [HeapPages.frameAt, Mmu.isVirtualPageMapped, hk.present _ h1 h2]

theorem KernelHalf.frameAt_write (hk : KernelHalf h.mmu) (hi : i < heapPages) {e : BitVec 32}
    {h' : HeapPages}
    (hm : h'.mmu = h.mmu.write (entryFrame (h.mmu.pde (pdIndex (heapPage i))))
      (ptIndex (heapPage i)) e) (hj : j < heapPages) :
    h'.frameAt (heapPage j) = if j = i then (if entryPresent e then some (entryFrame e) else none)
      else h.frameAt (heapPage j) := by
  obtain ⟨h1, h2⟩ := heapPage_pdIndex hi
  obtain ⟨h3, h4⟩ := heapPage_pdIndex hj
  have hk' : KernelHalf h'.mmu := hm ▸ hk.write h1 h2 _
  rw [hk'.frameAt hj, hk.frameAt hj, hm, hk.pte_write h1 h2 _ h3 h4]
  by_cases hji : j = i
  · subst hji
    simp
  have : ¬ (pdIndex (heapPage j) = pdIndex (heapPage i)
      ∧ ptIndex (heapPage j) = ptIndex (heapPage i)) := fun h =>
    hji (heapPage_index_inj hj hi h.1 h.2)
  simp [this, hji]

end Window

section Bits

variable {h h' : HeapPages} {a : ℕ} {debug pge : Bool}

/-- The kernel's tables are set up, and a bit is set if and only if its page is mapped. -/
structure HeapPages.Described (h : HeapPages) : Prop where
  kernel : KernelHalf h.mmu
  bit : ∀ i < heapPages, testBit h.bitmap i = h.mmu.isVirtualPageMapped (heapPage i)

theorem allocateFrame_bounds (m : FrameManager) :
    m.allocateFrame.1 < 2 ^ 32 ∧ m.allocateFrame.1 % frameSize = 0 := by
  unfold allocateFrame getFirstFreeHighFrame firstFreeFrame
  rcases hs : scanClear m.bitmap (bitmapWords - 8) 8 with _ | k
  · simp
  obtain ⟨-, hk, -⟩ := scanClear_some (by decide) m.bitmap _ _ hs
  simp only [bitmapWords] at hk
  simp only [frameSize]
  omega

theorem HeapPages.Described.mapPage (hD : h.Described) (h0 : h.frames.allocateFrame.1 ≠ 0) {i : ℕ}
    (hs : scanClear h.bitmap bitWordsNeeded 0 = some i) (debug pge : Bool) :
    i < heapPages ∧ testBit h.bitmap i = false
      ∧ ∃ flags : BitVec 32, flags.getLsbD 0 = true ∧ flags &&& 0xFFFFF000#32 = 0#32
        ∧ h.allocateVirtualPage debug pge = some (heapPage i, ⟨setBit h.bitmap i,
            h.mmu.write (entryFrame (h.mmu.pde (pdIndex (heapPage i)))) (ptIndex (heapPage i))
              (BitVec.ofNat 32 h.frames.allocateFrame.1 ||| flags), h.frames.allocateFrame.2⟩) := by
  obtain ⟨-, hi, hclear, -⟩ := scanClear_some (by decide) h.bitmap _ _ hs
  replace hi : i < heapPages := by
    have : (0 + bitWordsNeeded) * 32 = heapPages := by decide
    omega
  obtain ⟨-, hal, -, hlo, hhi, hidx⟩ := heapPage_bounds hi
  have hmap (flags : BitVec 32) := hD.kernel.mapSinglePage (heapPage_pdIndex hi) hal
    (by rw [← hD.bit i hi, hclear]) (allocateFrame_bounds h.frames).2 flags
    h.frames.allocateFrame.2
  refine ⟨hi, hclear, pagePresent ||| pageRW ||| if pge then pageGlobal else 0#32, ?_, ?_, ?_⟩
  · cases pge <;> decide
  · cases pge <;> decide
  · unfold HeapPages.allocateVirtualPage HeapPages.getHeapPageAddress markHeapPageAsUsed
    simp only [if_neg h0, hs, map_some, bind_some, ← heapPage_eq, hlo, hhi, and_self,
      if_true, hidx, hmap]

theorem HeapPages.Described.allocateVirtualPage (hD : h.Described)
    (heq : h.allocateVirtualPage debug pge = some (a, h')) :
    (a = 0 ∧ h.frames.allocateFrame.1 = 0 ∧ h' = { h with frames := h.frames.allocateFrame.2 })
      ∨ ∃ i < heapPages, a = heapPage i ∧ testBit h.bitmap i = false
        ∧ h.frames.allocateFrame.1 ≠ 0 ∧ ∃ flags, flags.getLsbD 0 = true
          ∧ flags &&& 0xFFFFF000#32 = 0#32
          ∧ h' = ⟨setBit h.bitmap i,
              h.mmu.write (entryFrame (h.mmu.pde (pdIndex (heapPage i)))) (ptIndex (heapPage i))
                (BitVec.ofNat 32 h.frames.allocateFrame.1 ||| flags),
              h.frames.allocateFrame.2⟩ := by
  by_cases h0 : h.frames.allocateFrame.1 = 0
  · simp only [HeapPages.allocateVirtualPage, h0, if_true] at heq
    cases heq
    exact .inl ⟨rfl, h0, rfl⟩
  rcases hs : scanClear h.bitmap bitWordsNeeded 0 with _ | i
  · simp [HeapPages.allocateVirtualPage, HeapPages.getHeapPageAddress, h0, hs] at heq
  obtain ⟨hi, hclear, flags, hflags, hlow, hmap⟩ := hD.mapPage h0 hs debug pge
  rw [hmap] at heq
  cases heq
  exact .inr ⟨i, hi, rfl, hclear, h0, flags, hflags, hlow, rfl⟩

theorem HeapPages.Described.bits (hD : h.Described)
    (heq : h.allocateVirtualPage debug pge = some (a, h')) :
    (a = 0 ∧ h'.bitmap = h.bitmap)
      ∨ ∃ i < heapPages, a = heapPage i ∧ testBit h.bitmap i = false
        ∧ ∀ j, testBit h'.bitmap j = (testBit h.bitmap j || decide (j = i)) := by
  rcases hD.allocateVirtualPage heq with ⟨rfl, -, rfl⟩ | ⟨i, hi, rfl, hclear, -, -, -, -, rfl⟩
  · exact .inl ⟨rfl, rfl⟩
  · exact .inr ⟨i, hi, rfl, hclear, fun j => testBit_setBit (by decide) _ _ _⟩

theorem freeVirtualPage_cases (heq : h.freeVirtualPage debug a = some h') :
    ∃ m' frames, h.mmu.unmapSinglePage debug a = some m'
      ∧ h.frames.freeFrame debug (virtToPhys a) = some frames
      ∧ h' = ⟨if heapBase ≤ a ∧ a ≤ heapBreak then clearBit h.bitmap (bitOf a)
          else h.bitmap, m', frames⟩ := by
  unfold freeVirtualPage at heq
  obtain ⟨m', hunmap, heq⟩ := bind_eq_some_iff.1 heq
  obtain ⟨h1, hmark, heq⟩ := bind_eq_some_iff.1 heq
  obtain ⟨frames, hfree, heq⟩ := map_eq_some_iff.1 heq
  unfold markHeapPageAsFree at hmark
  split_ifs at hmark with hal hin <;> cases hmark <;> cases heq
  · exact ⟨m', frames, hunmap, hfree, by rw [if_pos hin]⟩
  · exact ⟨m', frames, hunmap, hfree, by rw [if_neg hin]⟩

end Bits

/-- The bitmap, the page tables and the frame manager agree. `used` holds the live frames. -/
structure PagesInv (regions : List MemoryRegion) (used : List ℕ) (h : HeapPages) : Prop where
  frames : FrameInv regions (h.frames, used)
  kernel : KernelHalf h.mmu
  bit : ∀ i < heapPages, testBit h.bitmap i = (h.frameAt (heapPage i)).isSome
  backed : ∀ i < heapPages, ∀ f, h.frameAt (heapPage i) = some f → f ∈ used
  inj : ∀ i < heapPages, ∀ j < heapPages, ∀ f, h.frameAt (heapPage i) = some f →
    h.frameAt (heapPage j) = some f → i = j

section Pages

variable {regions : List MemoryRegion} {used used' : List ℕ} {h h' : HeapPages} {i f : ℕ}
  {debug : Bool}

theorem FrameInv.allocated_mono {m m' : FrameManager} (hI : FrameInv regions (m, used))
    (hI' : FrameInv regions (m', used')) (hsub : used ⊆ used')
    (hf : m.isFrameAllocated f = true) : m'.isFrameAllocated f = true := by
  by_contra hb
  have hc := (hI'.clear (f / frameSize)).1 (by simpa [isFrameAllocated] using hb)
  have := (hI.clear (f / frameSize)).2 ⟨hc.1, fun h => hc.2 (hsub h)⟩
  simp only [isFrameAllocated] at hf
  rw [this] at hf
  cases hf

theorem PagesInv.described (hP : PagesInv regions used h) : h.Described := by
  refine ⟨hP.kernel, fun i hi => ?_⟩
  rw [hP.bit i hi]
  unfold HeapPages.frameAt
  cases h.mmu.isVirtualPageMapped (heapPage i) <;> rfl

theorem PagesInv.allocateVirtualPage (hP : PagesInv regions used h) {a : ℕ} {pge : Bool}
    (heq : h.allocateVirtualPage debug pge = some (a, h')) :
    ∃ used', used ⊆ used' ∧ PagesInv regions used' h' := by
  rcases hP.described.allocateVirtualPage heq with
    ⟨-, h0, rfl⟩ | ⟨i, hi, rfl, -, h0, flags, hflags, hlow, rfl⟩
  · rcases hP.frames.allocateFrame with ⟨-, hI⟩ | ⟨hne, -⟩
    · exact ⟨used, fun _ => id, hI, hP.kernel, hP.bit, hP.backed, hP.inj⟩
    · exact absurd h0 hne
  obtain ⟨hl, hI⟩ : h.frames.allocateFrame.1 ∉ used
      ∧ FrameInv regions (h.frames.allocateFrame.2, h.frames.allocateFrame.1 :: used) := by
    rcases hP.frames.allocateFrame with ⟨h, -⟩ | ⟨-, hl, -, hI⟩
    · exact absurd h h0
    · exact ⟨hl, hI⟩
  obtain ⟨hflt, hfal⟩ := allocateFrame_bounds h.frames
  obtain ⟨h1, h2⟩ := heapPage_pdIndex hi
  have hat : ∀ j < heapPages, HeapPages.frameAt ⟨setBit h.bitmap i,
      h.mmu.write (entryFrame (h.mmu.pde (pdIndex (heapPage i)))) (ptIndex (heapPage i))
        (BitVec.ofNat 32 h.frames.allocateFrame.1 ||| flags), h.frames.allocateFrame.2⟩
        (heapPage j) = if j = i then some h.frames.allocateFrame.1
          else h.frameAt (heapPage j) := fun j hj => by
    rw [hP.kernel.frameAt_write hi rfl hj, entryPresent_or _ hflags, entryFrame_or hflt hfal hlow]
    simp
  refine ⟨_, List.subset_cons_self .., hI, hP.kernel.write h1 h2 _, fun j hj => ?_,
    fun j hj g hg => ?_, fun j hj k hk g hg hg' => ?_⟩
  · rw [hat j hj, testBit_setBit (by decide), hP.bit j hj]
    by_cases hji : j = i <;> simp [hji]
  · rw [hat j hj] at hg
    split_ifs at hg
    · exact List.mem_cons.2 (.inl (some.inj hg).symm)
    · exact List.mem_cons_of_mem _ (hP.backed j hj g hg)
  · rw [hat j hj] at hg
    rw [hat k hk] at hg'
    split_ifs at hg hg' with hji hki hki
    · rw [hji, hki]
    · exact absurd (hP.backed k hk g hg') (some.inj hg ▸ hl)
    · exact absurd (hP.backed j hj g hg) (some.inj hg' ▸ hl)
    · exact hP.inj j hj k hk g hg hg'

theorem freeVirtualPage_eq (debug : Bool) (hi : i < heapPages)
    (hf : h.frameAt (heapPage i) = some f) : h.freeVirtualPage debug (heapPage i) = some
      ⟨clearBit h.bitmap i,
        h.mmu.write (entryFrame (h.mmu.pde (pdIndex (heapPage i)))) (ptIndex (heapPage i)) 0#32,
        if h.frames.isFrameAllocated (virtToPhys (heapPage i)) then
          h.frames.markFrameAvailable (virtToPhys (heapPage i)) else h.frames⟩ := by
  obtain ⟨-, hpal, -, hlo, hhi, hbit⟩ := heapPage_bounds hi
  obtain ⟨hv, hv'⟩ := virtToPhys_heapPage hi
  have hmapped : h.mmu.isVirtualPageMapped (heapPage i) = true := by
    unfold HeapPages.frameAt at hf
    split_ifs at hf with hm
    exact hm
  have hfree : ∀ fm : FrameManager, fm.freeFrame debug (virtToPhys (heapPage i)) = some
      (if fm.isFrameAllocated (virtToPhys (heapPage i)) then
        fm.markFrameAvailable (virtToPhys (heapPage i)) else fm) := fun fm => by
    unfold freeFrame
    rw [if_neg (by omega), if_neg (by omega)]
    cases fm.isFrameAllocated (virtToPhys (heapPage i)) <;> simp
  simp [freeVirtualPage, Mmu.unmapSinglePage, markHeapPageAsFree, hpal, hmapped,
    hlo, hhi, hbit, hfree]

theorem PagesInv.freeVirtualPage (hP : PagesInv regions used h) (hi : i < heapPages)
    (hf : h.frameAt (heapPage i) = some (virtToPhys (heapPage i)))
    (heq : h.freeVirtualPage debug (heapPage i) = some h') :
    PagesInv regions (used.erase (virtToPhys (heapPage i))) h' := by
  rw [freeVirtualPage_eq debug hi hf, some.injEq] at heq
  subst heq
  generalize virtToPhys (heapPage i) = f at hf ⊢
  have hused : f ∈ used := hP.backed i hi f hf
  obtain ⟨h1, h2⟩ := heapPage_pdIndex hi
  rw [if_pos (hP.frames.allocated_of_live hused)]
  have hat : ∀ j < heapPages, HeapPages.frameAt ⟨clearBit h.bitmap i,
      h.mmu.write (entryFrame (h.mmu.pde (pdIndex (heapPage i)))) (ptIndex (heapPage i)) 0#32,
      h.frames.markFrameAvailable f⟩ (heapPage j) =
      if j = i then none else h.frameAt (heapPage j) := fun j hj => by
    rw [hP.kernel.frameAt_write hi rfl hj]
    simp [entryPresent]
  have hne : ∀ j < heapPages, ∀ g, j ≠ i → h.frameAt (heapPage j) = some g → g ≠ f := by
    intro j hj g hji hg hgf
    rw [hgf] at hg
    exact hji (hP.inj j hj i hi f hg hf)
  refine ⟨(hP.frames.freeFrame debug hused).2, hP.kernel.write h1 h2 _, fun j hj => ?_,
    fun j hj g hg => ?_, fun j hj k hk g hg hg' => ?_⟩
  · rw [hat j hj, testBit_clearBit (by decide), hP.bit j hj]
    by_cases hji : j = i <;> simp [hji]
  · rw [hat j hj] at hg
    split_ifs at hg with hji
    exact (List.mem_erase_of_ne (hne j hj g hji hg)).2 (hP.backed j hj g hg)
  · rw [hat j hj] at hg
    rw [hat k hk] at hg'
    split_ifs at hg hg'
    exact hP.inj j hj k hk g hg hg'

end Pages

section Runs

variable {b : ℕ × ℕ} {op : HeapOp} {size p : ℕ}

def HeapPages.InUse (h : HeapPages) (p : ℕ) : Prop :=
  ∃ i < heapPages, p = heapPage i ∧ testBit h.bitmap i = true

theorem HeapPages.InUse.mono {h h' : HeapPages} (hp : h.InUse p)
    (hbits : ∀ j, testBit h.bitmap j = true → testBit h'.bitmap j = true) : h'.InUse p := by
  obtain ⟨j, hj, heq, hb⟩ := hp
  exact ⟨j, hj, heq, hbits j hb⟩

/-- Pages of slabs and pages handed out whole are different pages in use. -/
structure BlocksInv (s : Heap) : Prop where
  slabs : SlabInv s.caches (s.live.filter fun b => b.2 ≤ 1024)
  slabPage : ∀ p ∈ s.caches.allSlabs, s.pages.InUse p
  wholePage : ∀ b ∈ s.live, 1024 < b.2 → s.pages.InUse b.1 ∧ b.1 ∉ s.caches.allSlabs
  whole_le : ∀ b ∈ s.live, b.2 ≤ frameSize

structure HeapInv (regions : List MemoryRegion) (used : List ℕ) (s : Heap) : Prop
    extends BlocksInv s where
  pages : PagesInv regions used s.pages

/-- Every mapped page of the heap has a frame of its own, reserved in the frame manager. -/
def FramesOwned (s : Heap) : Prop :=
  (∀ i < heapPages, ∀ f, s.pages.frameAt (heapPage i) = some f →
      s.pages.frames.isFrameAllocated f = true)
    ∧ ∀ i < heapPages, ∀ j < heapPages, ∀ f, s.pages.frameAt (heapPage i) = some f →
        s.pages.frameAt (heapPage j) = some f → i = j

/-- The frames that become free are those mapped at the page that is given back. -/
def ReleasesOwn (s : Heap) (op : HeapOp) (s' : Heap) : Prop :=
  ∀ f, f % frameSize = 0 →
    ((s.pages.frames.isFrameAllocated f = true ∧ s'.pages.frames.isFrameAllocated f = false) ↔
      ∃ ptr size, op = .kfree ptr ∧ (ptr, size) ∈ s.live ∧ 1024 < size
        ∧ s.pages.frameAt ptr = some f)

/-- A page that is given back is backed by the frame at the constant offset. -/
def AtOffset (s : Heap) (op : HeapOp) : Prop :=
  ∀ ptr size, op = .kfree ptr → (ptr, size) ∈ s.live → 1024 < size →
    s.pages.frameAt ptr = some (virtToPhys ptr)

variable {regions : List MemoryRegion} {used : List ℕ} {s s' : Heap} {debug pge : Bool}
  {mem : Memory.Mem}

theorem PagesInv.framesOwned (hP : PagesInv regions used s.pages) : FramesOwned s :=
  ⟨fun i hi f hf => hP.frames.allocated_of_live (hP.backed i hi f hf), hP.inj⟩

theorem PagesInv.frameAt_of_inUse (hP : PagesInv regions used s.pages) (hp : s.pages.InUse p) :
    ∃ i < heapPages, p = heapPage i ∧ ∃ f ∈ used, s.pages.frameAt p = some f := by
  obtain ⟨i, hi, rfl, hb⟩ := hp
  rw [hP.bit i hi] at hb
  obtain ⟨f, hf⟩ := isSome_iff_exists.1 hb
  exact ⟨i, hi, rfl, f, hP.backed i hi f hf, hf⟩

namespace BlocksInv

variable (hB : BlocksInv s)
include hB

theorem freshPage {i : ℕ} (hi : i < heapPages)
    (hc : testBit s.pages.bitmap i = false) : s.caches.FreshPage (heapPage i) := by
  obtain ⟨h1, h2, h3, -⟩ := heapPage_bounds hi
  refine ⟨h1, h2, h3, fun hmem => ?_⟩
  obtain ⟨j, -, hj, hb⟩ := hB.slabPage _ hmem
  rw [← heapPage_inj hj, hc] at hb
  cases hb

theorem small_ne_whole {b' : ℕ × ℕ} (hb : b ∈ s.live) (hsmall : b.2 ≤ 1024) (hb' : b' ∈ s.live)
    (hwhole : 1024 < b'.2) : b.1 ≠ b'.1 := by
  obtain ⟨-, p, hp, hobj, -⟩ := hB.slabs.owned b (List.mem_filter.2 ⟨hb, by simpa using hsmall⟩)
  obtain ⟨⟨i, hi, hpage, -⟩, hnot⟩ := hB.wholePage b' hb' hwhole
  obtain ⟨z, -, hz, -, hs⟩ := hB.slabs.isSlab hp
  have hbd := hs.object_bounds hobj
  have hpal := (heapPage_bounds hi).2.1
  intro heq
  have : p = b'.1 := page_unique hs.page.2.1 (hpage ▸ hpal) (a := b.1) (by omega)
    (b := b'.1) ⟨le_rfl, by simp [frameSize]⟩ heq
  exact hnot (this ▸ hp)

theorem grow {p : HeapPages}
    (hbits : ∀ j, testBit s.pages.bitmap j = true → testBit p.bitmap j = true) :
    BlocksInv { s with pages := p } :=
  ⟨hB.slabs, fun a ha => (hB.slabPage a ha).mono hbits,
    fun b hb hlt => ⟨(hB.wholePage b hb hlt).1.mono hbits, (hB.wholePage b hb hlt).2⟩, hB.whole_le⟩

/-- The caches change and only small blocks come or go; the slabs are those there were and perhaps
the page at `i`, which was not in use. -/
theorem recache {c' : SlabCaches} {live : List (ℕ × ℕ)}
    (hS : SlabInv c' (live.filter fun b => b.2 ≤ 1024))
    (hslab : ∀ p ∈ c'.allSlabs, p ∈ s.caches.allSlabs
      ∨ s.pages.InUse p ∧ ∀ b ∈ s.live, 1024 < b.2 → b.1 ≠ p)
    (hwhole : ∀ b ∈ live, 1024 < b.2 → b ∈ s.live) (hle : ∀ b ∈ live, b.2 ≤ frameSize) :
    BlocksInv ⟨c', s.pages, live⟩ := by
  refine ⟨hS, fun p hp => ?_, fun b hb hlt => ?_, hle⟩
  · rcases hslab p hp with hp | ⟨hu, -⟩
    · exact hB.slabPage p hp
    · exact hu
  · obtain ⟨hu, hn⟩ := hB.wholePage b (hwhole b hb hlt) hlt
    refine ⟨hu, fun hp => ?_⟩
    rcases hslab _ hp with hp | ⟨-, hne⟩
    · exact hn hp
    · exact hne b (hwhole b hb hlt) hlt rfl

end BlocksInv

theorem HeapInv.releases_nothing {used' : List ℕ} (hI : HeapInv regions used s)
    (hP : PagesInv regions used' s'.pages) (hsub : used ⊆ used')
    (hop : ∀ ptr size, op = .kfree ptr → (ptr, size) ∈ s.live → ¬ 1024 < size) :
    ReleasesOwn s op s' := by
  intro f _
  constructor
  · rintro ⟨h1, h2⟩
    rw [hI.pages.frames.allocated_mono hP.frames hsub h1] at h2
    cases h2
  · rintro ⟨ptr, size, h, hm, hlt, -⟩
    exact absurd hlt (hop ptr size h hm)

def Heap.Grew (debug pge : Bool) (s s' : Heap) : Prop :=
  s'.pages = s.pages ∨ ∃ a, s.pages.allocateVirtualPage debug pge = some (a, s'.pages)

theorem BlocksInv.kmalloc_small (hB : BlocksInv s) (hD : s.pages.Described) (h0 : 0 < size)
    (hle : size ≤ 1024) (h : heapStep debug pge s (.kmalloc size) = some s') :
    BlocksInv s' ∧ s.Grew debug pge s' := by
  have hsize : size ≤ frameSize := by simp only [frameSize]; omega
  simp only [heapStep, if_pos hsize] at h
  have hcons : ∀ a, ((a, size) :: s.live).filter (fun b => b.2 ≤ 1024)
      = (a, size) :: s.live.filter (fun b => b.2 ≤ 1024) := fun a => by
    simp [hle]
  have hlive : ∀ a, ∀ b ∈ (a, size) :: s.live, 1024 < b.2 → b ∈ s.live := fun a b hb hlt => by
    rcases List.mem_cons.1 hb with rfl | hb
    · exact absurd hle (by simpa using hlt)
    · exact hb
  have hwle : ∀ a, ∀ b ∈ (a, size) :: s.live, b.2 ≤ frameSize := fun a =>
    List.forall_mem_cons.2 ⟨hsize, hB.whole_le⟩
  rcases kmalloc_spec hB.slabs (source debug pge) s.pages h0 hle with
    ⟨a, c', hk, hne, hS, hall⟩ | ⟨h1, h2, h3⟩
  · rw [hk, map_some, if_neg hne, some.injEq] at h
    subst h
    exact ⟨hB.recache (by rwa [hcons]) (fun p hp => .inl ((hall p).1 hp)) (hlive a) (hwle a),
      .inl rfl⟩
  rcases hr : s.pages.allocateVirtualPage debug pge with _ | ⟨page, h'⟩
  · rw [h1 hr, map_none] at h
    cases h
  rcases hD.bits hr with ⟨rfl, hbm⟩ | ⟨i, hi, rfl, hclear, hbits⟩
  · obtain ⟨c', hk, hS, hall⟩ := h2 h' hr
    rw [hk, map_some, if_pos rfl, some.injEq] at h
    subst h
    have hB' := hB.grow (p := h') fun j hj => by rwa [hbm]
    exact ⟨hB'.recache hS (fun p hp => .inl ((hall p).1 hp)) (fun b hb _ => hb) hB.whole_le,
      .inr ⟨_, hr⟩⟩
  · obtain ⟨a, c', hk, hne, hS, hall⟩ := h3 _ h' hr (hB.freshPage hi hclear)
    rw [hk, map_some, if_neg hne, some.injEq] at h
    subst h
    have hB' := hB.grow (p := h') fun j hj => by simp [hbits, hj]
    refine ⟨hB'.recache (by rwa [hcons]) (fun p hp => ?_) (hlive a) (hwle a), .inr ⟨_, hr⟩⟩
    rcases (hall p).1 hp with rfl | hp
    · refine .inr ⟨⟨i, hi, rfl, by simp [hbits]⟩, fun b hb hlt heq => ?_⟩
      obtain ⟨⟨j, -, hj, hb⟩, -⟩ := hB.wholePage b hb hlt
      rw [heapPage_inj (hj.symm.trans heq), hclear] at hb
      cases hb
    · exact .inl hp

theorem BlocksInv.kmalloc_whole (hB : BlocksInv s) (hD : s.pages.Described) (hlt : 1024 < size)
    (hle : size ≤ frameSize) (h : heapStep debug pge s (.kmalloc size) = some s') :
    BlocksInv s' ∧ s.Grew debug pge s' := by
  have hk : kmalloc (source debug pge) size (s.caches, s.pages) =
      (s.pages.allocateVirtualPage debug pge).map fun r => (r.1, s.caches, r.2) := by
    unfold kmalloc
    rw [if_neg (by omega), if_pos ⟨by simp [slabSizes]; omega, hle⟩]
    rfl
  simp only [heapStep, if_pos hle, hk] at h
  rw [Option.map_map] at h
  obtain ⟨⟨a, h'⟩, hr, h⟩ := map_eq_some_iff.1 h
  simp only [comp_apply] at h
  rcases hD.bits hr with ⟨rfl, hbm⟩ | ⟨i, hi, rfl, hclear, hbits⟩
  · rw [if_pos rfl] at h
    subst h
    exact ⟨hB.grow fun j hj => by rwa [hbm], .inr ⟨_, hr⟩⟩
  rw [if_neg (heapPage_bounds hi).1] at h
  subst h
  have hB' := hB.grow (p := h') fun j hj => by simp [hbits, hj]
  refine ⟨⟨by simpa [hlt] using hB.slabs, hB'.slabPage, fun b hb hlt => ?_,
    List.forall_mem_cons.2 ⟨hle, hB.whole_le⟩⟩, .inr ⟨_, hr⟩⟩
  rcases List.mem_cons.1 hb with rfl | hb
  · exact ⟨⟨i, hi, rfl, by simp [hbits]⟩, (hB.freshPage hi hclear).2.2.2⟩
  · exact hB'.wholePage b hb hlt

theorem BlocksInv.kmalloc (hB : BlocksInv s) (hD : s.pages.Described)
    (h : heapStep debug pge s (.kmalloc size) = some s') : BlocksInv s' ∧ s.Grew debug pge s' := by
  by_cases hle : size ≤ frameSize
  · rcases Nat.eq_zero_or_pos size with rfl | h0
    · simp only [heapStep, hle, if_true, DragonWare.kmalloc, map_some, some.injEq] at h
      exact ⟨h ▸ hB, .inl (h ▸ rfl)⟩
    · by_cases hsmall : size ≤ 1024
      · exact hB.kmalloc_small hD h0 hsmall h
      · exact hB.kmalloc_whole hD (by omega) hle h
  · simp [heapStep, hle] at h

theorem HeapInv.kmalloc (hI : HeapInv regions used s)
    (h : heapStep debug pge s (.kmalloc size) = some s') :
    ∃ used', used ⊆ used' ∧ HeapInv regions used' s' := by
  obtain ⟨hB, heq | ⟨a, heq⟩⟩ := hI.toBlocksInv.kmalloc hI.pages.described h
  · exact ⟨used, fun _ => id, hB, heq ▸ hI.pages⟩
  · obtain ⟨used', hsub, hP⟩ := hI.pages.allocateVirtualPage heq
    exact ⟨used', hsub, hB, hP⟩

theorem BlocksInv.kfree_small (hB : BlocksInv s) (hb : b ∈ s.live) (hsmall : b.2 ≤ 1024)
    (h : heapStep debug pge s (.kfree b.1) = some s') : BlocksInv s' ∧ s'.pages = s.pages := by
  have hmem : b.1 ∈ (s.live.filter fun b => b.2 ≤ 1024).map Prod.fst :=
    List.mem_map_of_mem (List.mem_filter.2 ⟨hb, by simpa using hsmall⟩)
  obtain ⟨c', hk, hS, hall⟩ := kfree_spec hB.slabs (source debug pge) s.pages hmem
  simp only [heapStep, List.mem_map_of_mem hb, if_true, hk, map_some, some.injEq] at h
  subst h
  exact ⟨hB.recache (by rwa [List.filter_comm]) (fun p hp => .inl (hall ▸ hp))
    (fun _ hb _ => List.mem_of_mem_filter hb)
    fun _ hb => hB.whole_le _ (List.mem_of_mem_filter hb), rfl⟩

theorem BlocksInv.kfree_whole_eq (hI : BlocksInv s) (debug pge : Bool) (hb : b ∈ s.live)
    (hwhole : 1024 < b.2) :
    heapStep debug pge s (.kfree b.1) = (s.pages.freeVirtualPage debug b.1).map fun pages =>
      ⟨s.caches, pages, s.live.filter fun b' => b'.1 ≠ b.1⟩ := by
  obtain ⟨⟨i, hi, hpage, -⟩, hnot⟩ := hI.wholePage b hb hwhole
  obtain ⟨h1, h2, -⟩ := heapPage_bounds hi
  have hk := kfree_page hI.slabs (source debug pge) s.pages (a := b.1)
    (by rwa [hpage]) (by rwa [hpage]) hnot
  simp only [heapStep, List.mem_map_of_mem hb, if_true, hk, Option.map_map]
  rfl

theorem BlocksInv.kfree_whole (hB : BlocksInv s) (hb : b ∈ s.live) (hwhole : 1024 < b.2)
    (h : heapStep debug pge s (.kfree b.1) = some s') :
    BlocksInv s' ∧ s.pages.freeVirtualPage debug b.1 = some s'.pages := by
  obtain ⟨⟨i, hi, hpage, hbit⟩, hnot⟩ := hB.wholePage b hb hwhole
  rw [hB.kfree_whole_eq debug pge hb hwhole] at h
  obtain ⟨h', hfree, rfl⟩ := map_eq_some_iff.1 h
  refine ⟨?_, hfree⟩
  rw [hpage] at hfree ⊢
  obtain ⟨-, -, -, hlo, hhi, hidx⟩ := heapPage_bounds hi
  obtain ⟨m', frames, -, -, hh'⟩ := freeVirtualPage_cases hfree
  have hbits : h'.bitmap = clearBit s.pages.bitmap i := by
    rw [hh', if_pos ⟨hlo, hhi⟩, hidx]
  have huse : ∀ p, s.pages.InUse p → p ≠ heapPage i → h'.InUse p := by
    rintro p ⟨j, hj, rfl, hb⟩ hne
    have hji : j ≠ i := fun h => hne (h ▸ rfl)
    exact ⟨j, hj, rfl, by simp [hbits, testBit_clearBit (by decide : 0 < 32), hb, hji]⟩
  have hfilter : (s.live.filter fun b' => b'.1 ≠ heapPage i).filter (fun b => b.2 ≤ 1024)
      = s.live.filter fun b => b.2 ≤ 1024 := by
    rw [List.filter_comm]
    refine List.filter_eq_self.2 fun b' hb' => ?_
    obtain ⟨hb', hsmall⟩ := List.mem_filter.1 hb'
    have := hB.small_ne_whole hb' (by simpa using hsmall) hb hwhole
    rw [hpage] at this
    simpa using this
  refine ⟨by rw [hfilter]; exact hB.slabs, fun p hp => ?_, fun b' hb' hlt => ?_,
    fun b' hb' => hB.whole_le b' (List.mem_of_mem_filter hb')⟩
  · refine huse p (hB.slabPage p hp) ?_
    rintro rfl
    exact hnot (hpage ▸ hp)
  · obtain ⟨hb', hne⟩ := List.mem_filter.1 hb'
    obtain ⟨hu, hn⟩ := hB.wholePage b' hb' hlt
    exact ⟨huse _ hu (by simpa using hne), hn⟩

theorem HeapInv.kfree_whole (hI : HeapInv regions used s) (hb : b ∈ s.live) (hwhole : 1024 < b.2)
    (hoff : s.pages.frameAt b.1 = some (virtToPhys b.1))
    (h : heapStep debug pge s (.kfree b.1) = some s') :
    HeapInv regions (used.erase (virtToPhys b.1)) s' := by
  obtain ⟨hB, hfree⟩ := hI.toBlocksInv.kfree_whole hb hwhole h
  obtain ⟨⟨i, hi, hpage, -⟩, -⟩ := hI.wholePage b hb hwhole
  rw [hpage] at hoff hfree ⊢
  exact ⟨hB, hI.pages.freeVirtualPage hi hoff hfree⟩

theorem BlocksInv.store (hB : BlocksInv s)
    (hm : ∀ p ∈ s.caches.allSlabs, ∀ x, p ≤ x → x < p + frameSize → mem x = s.caches.mem x) :
    BlocksInv { s with caches := { s.caches with mem } } := by
  refine ⟨hB.slabs.mem_congr fun p hp a ha _ x hx hx' => ?_, hB.slabPage, hB.wholePage,
    hB.whole_le⟩
  obtain ⟨z, -, hz, -, hs⟩ := hB.slabs.isSlab hp
  have hbd := hs.object_bounds ha
  exact hm p hp x (by omega) (by omega)

theorem BlocksInv.write (hB : BlocksInv s) {ptr k : ℕ} {v : BitVec 8}
    (h : heapStep debug pge s (.write ptr k v) = some s') : BlocksInv s' ∧ s'.pages = s.pages := by
  simp only [heapStep] at h
  split_ifs at h with hc
  obtain ⟨b, hb, rfl, hk⟩ := hc
  rw [some.injEq] at h
  subst h
  refine ⟨?_, rfl⟩
  by_cases hsmall : b.2 ≤ 1024
  · exact ⟨hB.slabs.write (List.mem_filter.2 ⟨hb, by simpa using hsmall⟩) hk v, hB.slabPage,
      hB.wholePage, hB.whole_le⟩
  -- a store into a whole page misses every slab's page
  obtain ⟨⟨i, hi, hpage, -⟩, hnot⟩ := hB.wholePage b hb (by omega)
  have hpal := (heapPage_bounds hi).2.1
  refine hB.store fun p hp x hx hx' => update_of_ne ?_ _ _
  obtain ⟨z, -, -, -, hs⟩ := hB.slabs.isSlab hp
  have hk' : k < frameSize := hk.trans_le (hB.whole_le b hb)
  intro heq
  exact hnot ((page_unique hs.page.2.1 (hpage ▸ hpal) (by omega) (by omega) heq) ▸ hp)

theorem BlocksInv.start (hmem : s.caches = .blank mem) (hlive : s.live = []) : BlocksInv s := by
  refine ⟨?_, fun p hp => ?_, ?_, ?_⟩
  · rw [hmem, hlive]
    exact .blank mem
  · simp [hmem, SlabCaches.blank, SlabCaches.allSlabs] at hp
  · simp [hlive]
  · simp [hlive]

theorem HeapInv.step (hI : HeapInv regions used s) (hoff : AtOffset s op)
    (h : heapStep debug pge s op = some s') :
    ∃ used', HeapInv regions used' s' ∧ ReleasesOwn s op s' := by
  cases op with
  | kmalloc size =>
    obtain ⟨used', hsub, hI'⟩ := hI.kmalloc h
    exact ⟨used', hI', hI.releases_nothing hI'.pages hsub fun _ _ h => by cases h⟩
  | kfree ptr =>
    have hmem : ptr ∈ s.live.map Prod.fst := by
      by_contra hn
      simp [heapStep, hn] at h
    obtain ⟨b, hb, rfl⟩ := List.mem_map.1 hmem
    by_cases hsmall : b.2 ≤ 1024
    · obtain ⟨hB, hpages⟩ := hI.toBlocksInv.kfree_small hb hsmall h
      have hI' : HeapInv regions used s' := ⟨hB, hpages ▸ hI.pages⟩
      refine ⟨used, hI', hI.releases_nothing hI'.pages (fun _ => id) fun ptr size hp hm hlt => ?_⟩
      cases hp
      exact hI.small_ne_whole hb hsmall hm hlt rfl
    have hat := hoff b.1 b.2 rfl hb (by omega)
    have hI' := hI.kfree_whole hb (by omega) hat h
    refine ⟨_, hI', fun f hf => ⟨fun ⟨h1, h2⟩ => ?_, ?_⟩⟩
    · refine ⟨b.1, b.2, rfl, hb, by omega, ?_⟩
      by_contra hne
      have hmono : ∀ g, g ≠ virtToPhys b.1 → g ∈ used → g ∈ used.erase (virtToPhys b.1) :=
        fun g hg hmem => (List.mem_erase_of_ne hg).2 hmem
      have hfv : f ≠ virtToPhys b.1 := fun heq => hne (heq ▸ hat)
      have hc := (hI'.pages.frames.clear (f / frameSize)).1
        (by simpa [isFrameAllocated] using h2)
      rw [Nat.div_mul_cancel (Nat.dvd_of_mod_eq_zero hf)] at hc
      have := (hI.pages.frames.clear (f / frameSize)).2 (by
        rw [Nat.div_mul_cancel (Nat.dvd_of_mod_eq_zero hf)]
        exact ⟨hc.1, fun hu => hc.2 (hmono f hfv hu)⟩)
      simp only [isFrameAllocated] at h1
      rw [this] at h1
      cases h1
    · rintro ⟨ptr, size, hp, hm, -, hf'⟩
      cases hp
      obtain rfl := some.inj (hat.symm.trans hf')
      obtain ⟨⟨i, hi, hpage, -⟩, -⟩ := hI.wholePage b hb (by omega)
      have hu : virtToPhys b.1 ∈ used := hI.pages.backed i hi _ (hpage ▸ hat)
      refine ⟨hI.pages.frames.allocated_of_live hu, ?_⟩
      have := (hI'.pages.frames.clear (virtToPhys b.1 / frameSize)).2 (by
        rw [Nat.div_mul_cancel (Nat.dvd_of_mod_eq_zero hf)]
        exact ⟨hI.pages.frames.live _ hu, hI.pages.frames.nodup.not_mem_erase⟩)
      simpa [isFrameAllocated] using this
  | write ptr k v =>
    obtain ⟨hB, hpages⟩ := hI.toBlocksInv.write h
    have hI' : HeapInv regions used s' := ⟨hB, hpages ▸ hI.pages⟩
    exact ⟨used, hI', hI.releases_nothing hI'.pages (fun _ => id) fun _ _ h => by cases h⟩

theorem HeapInv.atOffset (hI : HeapInv regions used s)
    (hrel : ∀ s', heapStep debug pge s op = some s' → ReleasesOwn s op s') : AtOffset s op := by
  rintro ptr size rfl hm hlt
  obtain ⟨⟨i, hi, hpage, hbit⟩, -⟩ := hI.wholePage (ptr, size) hm hlt
  simp only at hpage
  subst hpage
  obtain ⟨-, -, -, f, hu, hf⟩ := hI.pages.frameAt_of_inUse ⟨i, hi, rfl, hbit⟩
  have hstep := hI.kfree_whole_eq debug pge hm hlt
  rw [freeVirtualPage_eq debug hi hf, map_some] at hstep
  have hfal := (hI.pages.frames.live f hu).bounds.2.2
  obtain ⟨h1, h2⟩ := (hrel _ hstep f hfal).2 ⟨_, size, rfl, hm, hlt, hf⟩
  by_cases halloc : s.pages.frames.isFrameAllocated (virtToPhys (heapPage i)) = true
  · simp only [if_pos halloc] at h2
    simp only [isFrameAllocated] at h1 h2
    obtain h2 | ⟨-, -, h2⟩ := (testBit_markFrameAvailable _ _ _).1 h2
    · rw [h2] at h1
      cases h1
    · have hv := (virtToPhys_heapPage hi).1
      rw [hf, some.injEq, ← Nat.div_mul_cancel (Nat.dvd_of_mod_eq_zero hfal), h2,
        Nat.div_mul_cancel (Nat.dvd_of_mod_eq_zero hv)]
  · simp only [if_neg halloc, h1] at h2
    cases h2

/-- The frame manager after any calls from boot, the kernel's tables set up, its image below the
heap window, and nothing allocated. -/
structure HeapStart (debug : Bool) (s : Heap) : Prop where
  frames : ∃ fuel regions m₀ ops live, initFrameManager fuel regions = some m₀
    ∧ Run.exec (frameStep debug) (m₀, []) ops = some (s.pages.frames, live)
  kernel : KernelHalf s.pages.mmu
  bitmap : ∀ n, s.pages.bitmap n = 0#32
  unmapped : ∀ i < heapPages, s.pages.frameAt (heapPage i) = none
  caches : ∃ mem, s.caches = .blank mem
  live : s.live = []

theorem HeapStart.inv (hs : HeapStart debug s) : ∃ regions used, HeapInv regions used s := by
  obtain ⟨fuel, regions, m0, ops, used, hinit, hrun⟩ := hs.frames
  obtain ⟨mem, hmem⟩ := hs.caches
  refine ⟨regions, used, .start hmem hs.live, ⟨frameInv_of_run hinit hrun, hs.kernel,
    fun i hi => ?_, fun i hi f hf => ?_, fun i hi j hj f hf => ?_⟩⟩
  · simp [hs.unmapped i hi, testBit, hs.bitmap]
  · simp [hs.unmapped i hi] at hf
  · simp [hs.unmapped i hi] at hf

def HeapSafe (debug pge : Bool) (s : Heap) (op : HeapOp) : Prop :=
  FramesOwned s ∧ ∀ s', heapStep debug pge s op = some s' → FramesOwned s' ∧ ReleasesOwn s op s'

/-- A run keeps the frames owned and releases at each step exactly the frame of the page given back,
if and only if each page is given back while the frame at the constant offset backs it. -/
theorem heap_safe_iff_atOffset (hs : HeapStart debug s) (ops : List HeapOp) :
    Run.Meets (heapStep debug pge) (HeapSafe debug pge) s ops ↔
      Run.Meets (heapStep debug pge) AtOffset s ops := by
  obtain ⟨regions, used, hI⟩ := hs.inv
  refine Run.meets_iff (I := fun s => ∃ used, HeapInv regions used s) ?_ ?_ ops ⟨used, hI⟩
  · rintro s op ⟨used, hI⟩
    refine ⟨fun h => hI.atOffset fun s' hs' => (h.2 s' hs').2, fun h => ⟨hI.pages.framesOwned,
      fun s' hs' => ?_⟩⟩
    obtain ⟨used', hI', hrel⟩ := hI.step h hs'
    exact ⟨hI'.pages.framesOwned, hrel⟩
  · rintro s op s' ⟨used, hI⟩ hoff hs'
    obtain ⟨used', hI', -⟩ := hI.step hoff hs'
    exact ⟨used', hI'⟩

end Runs

section Boot

/-- A directory whose entry `j` points at a table of its own. -/
def bootMmu : Mmu :=
  ⟨0x10000, fun a j => if a = 0x10000 then BitVec.ofNat 32 (0x400000 + j * 0x1000) ||| 3#32
    else 0#32⟩

def bootHeap (m : FrameManager) : Heap := ⟨.blank fun _ => 0, ⟨fun _ => 0#32, bootMmu, m⟩, []⟩

theorem bootMmu_pde (i : ℕ) (hi : i < 1024) :
    entryPresent (bootMmu.pde i) = true ∧ entryFrame (bootMmu.pde i) = 0x400000 + i * 0x1000 := by
  have hp : bootMmu.pde i = BitVec.ofNat 32 (0x400000 + i * 0x1000) ||| 3#32 := rfl
  rw [hp]
  refine ⟨entryPresent_or _ (by decide), entryFrame_or ?_ ?_ (by decide)⟩
  · omega
  · simp only [frameSize]
    omega

theorem bootHeap_start {fuel : ℕ} {regions : List MemoryRegion} {m : FrameManager} (debug : Bool)
    (h : initFrameManager fuel regions = some m) : HeapStart debug (bootHeap m) := by
  have hk : KernelHalf bootMmu := by
    refine ⟨fun i _ hi => (bootMmu_pde i (by omega)).1, fun i _ hi => ?_, fun i _ hi j _ hj h => ?_⟩
    · rw [(bootMmu_pde i (by omega)).2]
      simp only [bootMmu]
      omega
    · rw [(bootMmu_pde i (by omega)).2, (bootMmu_pde j (by omega)).2] at h
      omega
  refine ⟨⟨fuel, regions, m, [], [], h, rfl⟩, hk, fun _ => rfl, fun i hi => ?_, ⟨_, rfl⟩, rfl⟩
  obtain ⟨-, h2⟩ := heapPage_pdIndex hi
  have hpte : bootMmu.pte (pdIndex (heapPage i)) (ptIndex (heapPage i)) = 0#32 := by
    unfold Mmu.pte
    rw [(bootMmu_pde _ (by omega)).2]
    simp only [bootMmu]
    rw [if_neg (by omega)]
  rw [KernelHalf.frameAt (h := (bootHeap m).pages) hk hi]
  simp [bootHeap, hpte, entryPresent]

/-- Two pages, the second given back and asked for again: the frame of the first is released and
then handed out for the second. -/
theorem heap_frame_shared :
    ∃ s₀ s, HeapStart false s₀
      ∧ Run.exec (heapStep false true) s₀
          [.kmalloc 2000, .kmalloc 2000, .kfree 0xC0101000, .kmalloc 2000] = some s
      ∧ ¬ FramesOwned s := by
  have hrun : ((initFrameManager 4
      [⟨true, 0x201000#32, 0x3000#32, .available⟩]).bind fun m =>
        (Run.exec (heapStep false true) (bootHeap m)
          [.kmalloc 2000, .kmalloc 2000, .kfree 0xC0101000, .kmalloc 2000]).map fun s =>
            (s.pages.frameAt (heapPage 0), s.pages.frameAt (heapPage 1)))
      = some (some 0x201000, some 0x201000) := by decide +kernel
  obtain ⟨m, hm, hrun⟩ := bind_eq_some_iff.1 hrun
  obtain ⟨s, hs, hat⟩ := map_eq_some_iff.1 hrun
  simp only [Prod.mk.injEq] at hat
  refine ⟨bootHeap m, s, bootHeap_start false hm, hs, fun h => ?_⟩
  exact absurd (h.2 0 (by decide) 1 (by decide) _ hat.1 hat.2) (by decide)

theorem heap_safe_iff_atOffset_one_page :
    ∃ s, HeapStart false s
      ∧ Run.Meets (heapStep false true) (HeapSafe false true) s
          [.kmalloc 2000, .kfree 0xC0100000] := by
  have hrun : ((initFrameManager 4
      [⟨true, 0x200000#32, 0x3000#32, .available⟩]).bind fun m =>
        (heapStep false true (bootHeap m) (.kmalloc 2000)).map fun s =>
          s.pages.frameAt 0xC0100000) = some (some 0x200000) := by decide +kernel
  obtain ⟨m, hm, hrun⟩ := bind_eq_some_iff.1 hrun
  obtain ⟨s, hs, hat⟩ := map_eq_some_iff.1 hrun
  have hstart := bootHeap_start false hm
  refine ⟨bootHeap m, hstart, (heap_safe_iff_atOffset hstart _).2 ⟨?_, fun s' hs' => ?_⟩⟩
  · intro _ _ h
    cases h
  obtain rfl := some.inj (hs.symm.trans hs')
  refine ⟨fun ptr size h _ _ => ?_, fun _ _ => trivial⟩
  cases h
  exact hat

end Boot

end DragonWare
