import DragonWare.Proofs.HeapWindow
import DragonWare.Proofs.HugeBlocks

/-!
# The bits of the heap

`FindFreePageRange` and `GetNextKernelStackAddress` set no bit. A bit stands for its page as long as
the ranges found end below the heap, and the places for stacks in the heap are taken (`WindowFree`).
-/

namespace DragonWare

open Bitmap HeapPages Memory Mmu Option TwoLevel

section HugePages

variable {T : Set ℕ} {bases : List ℕ} {h h' : HeapPages} {base n ptr : ℕ} {mem mem' : Mem}
  {debug pge : Bool}

theorem outsideHeap_of_base {b : ℕ} (hb : kernelVMBase ≤ b ∧ b < heapBase) : OutsideHeap b :=
  fun _ hi hs => not_samePage_base (heapPage_scratch hi) hb hs.symm

theorem WindowInv.mapHugePages : ∀ {n i k : ℕ} {b : Bool} {mem mem' : Mem} {h h' : HeapPages},
    WindowInv T bases h →
    (∀ j, i ≤ j → j < i + n → KernelPage (base + j * frameSize + frameSize)
      ∧ OutsideHeap (base + j * frameSize + frameSize)) →
    HeapPages.mapHugePages base n i (mem, h) = (b, k, mem', h') → WindowInv T bases h'
  | 0, i, k, b, mem, mem', h, h', hW, _, heq => by
    cases heq
    exact hW
  | n + 1, i, k, b, mem, mem', h, h', hW, hrange, heq => by
    unfold HeapPages.mapHugePages at heq
    simp only [] at heq
    by_cases hlt : h.frames.allocateFrame.1 < 0x2000
    · rw [if_pos hlt] at heq
      cases heq
      exact hW.allocateFrame
    rw [if_neg hlt] at heq
    obtain ⟨hpage, hout⟩ := hrange i le_rfl (by omega)
    rcases hmap : mapSinglePage h.frames.allocateFrame.1 (base + i * frameSize + frameSize)
      (pagePresent ||| pageRW) h.mmu h.frames.allocateFrame.2 with ⟨st, m1, fm1⟩
    have hW1 := hW.mapFresh hpage hout (by decide) hmap
    rw [hmap] at heq
    split at heq
    · next hst =>
      cases hst
      exact hW1.mapHugePages (fun j hj hj' => hrange j (by omega) (by omega)) heq
    next hst =>
    cases hst
    cases heq
    exact hW1

theorem WindowInv.undo {a : ℕ} (hW : WindowInv T bases h) (ha : KernelPage a)
    (hun : h.mmu.page a = none) {flags : BitVec 32} {st : Status} {m1 m2 : Mmu}
    {fm frames frames' : FrameManager}
    (heq : mapSinglePage h.frames.allocateFrame.1 a flags h.mmu h.frames.allocateFrame.2
      = (st, m1, fm)) (hframes : frames = fm ∨ frames = fm.markFrameReserved 0)
    (hfree : frames.freeFrame debug h.frames.allocateFrame.1 = some frames')
    (hunmap : m1.unmapSinglePage debug a = some m2) :
    WindowInv T bases { h with mmu := m2, frames := frames' } := by
  have hfr : WindowInv T bases { h with frames } := by
    obtain ⟨rfl, -⟩ := hW.kernel.mapSinglePage_cases ha heq
    rcases hframes with rfl | rfl
    · exact hW.allocateFrame
    refine { hW with taken := fun k hk => ?_ }
    have := hW.allocateFrame.taken k hk
    rw [← Bool.not_eq_false] at this ⊢
    exact fun hc => this ((testBit_markFrameReserved ..).1 hc).1
  have hW' := hfr.freeFrame hW.fresh hfree
  have hpde {e : BitVec 32} (i : ℕ) := hW.kernel.pde_write (e := e) ha.1 ha.2 (ptIndex a) i
  -- whatever the two calls wrote, the entry is not present
  have hm2 : m2 = h.mmu ∨ ∃ e, entryPresent e = false
      ∧ m2 = h.mmu.write (entryFrame (h.mmu.pde (pdIndex a))) (ptIndex a) e := by
    obtain ⟨-, rfl | ⟨-, rfl⟩⟩ := hW.kernel.mapSinglePage_cases ha heq
    · exact (unmapSinglePage_cases hunmap).imp And.right fun h => ⟨_, by decide, h⟩
    right
    rcases unmapSinglePage_cases hunmap with ⟨hnone, rfl⟩ | rfl
    · rw [hW.kernel.page_write ha ha, if_pos ⟨rfl, rfl⟩] at hnone
      split_ifs at hnone with he
      exact ⟨_, by simpa using he, rfl⟩
    · refine ⟨0#32, by decide, ?_⟩
      rw [hpde]
      simp [Mmu.write]
  rcases hm2 with rfl | ⟨e, he, rfl⟩
  · exact hW'
  refine hW'.write ha (fun i hi => ?_) fun h => absurd (he.symm.trans h) (by decide)
  split_ifs with hs
  · rw [hW.bit i hi, hs.page, hun, he]
    rfl
  · rfl

theorem WindowInv.hugeAllocation (hW : WindowInv T bases h)
    (hbelow : n ≤ maxPhysframes → h.frames.Room (n + 1) → ∀ b, FreeRange h.mmu (n + 1) b →
      ∃ b', FreeRange h.mmu (n + 1) b' ∧ b' + (n + 1) * frameSize ≤ heapBase)
    (heq : hugeAllocation debug n (mem, h) = some (ptr, mem', h')) :
    h'.bitmap = h.bitmap ∧ (∀ x, mem' x ≠ mem x → h.mmu.isVirtualPageMapped x = false)
      ∧ ((ptr = 0 ∧ WindowInv T bases h')
        ∨ (FreeRange h.mmu (n + 1) ptr ∧ ptr + (n + 1) * frameSize ≤ heapBase
          ∧ WindowInv T (ptr :: bases) h')) := by
  by_cases hnull : maxPhysframes < n ∨ ∀ b, ¬ FreeRange h.mmu (n + 1) b
  · rw [hugeAllocation_null debug mem hnull] at heq
    cases heq
    exact ⟨rfl, fun x hx => absurd rfl hx, .inl ⟨rfl, hW⟩⟩
  simp only [not_or, not_lt, not_forall, not_not] at hnull
  obtain ⟨hn, b, hb⟩ := hnull
  by_cases hR : h.frames.Room 1
  swap
  · rw [hugeAllocation_noFrame debug mem hn hb hR] at heq
    cases heq
    exact ⟨rfl, fun x hx => absurd rfl hx, .inl ⟨rfl, hW.allocateFrame⟩⟩
  obtain ⟨base, hrange, hfirst, k, hkn, mem1, h1, hcall, hblock, hroom, -, hframes, hmem, m1, hmap,
    hloop, hmmu⟩ := hugeAllocation_record debug mem hW.kernel hn hb hR
  have h0 : h.frames.allocateFrame.1 ≠ 0 := fun h => allocateFrame_eq_zero.1 h hR
  have hzero := hrange.unmapped 0 (Nat.succ_pos n)
  obtain ⟨hpage, hal, -⟩ := hrange.kernelPage (Nat.succ_pos n)
  rw [Nat.zero_mul, Nat.add_zero] at hzero hpage hal
  have hnone : h.mmu.page base = none := by
    rw [isVirtualPageMapped_page] at hzero
    simpa using hzero
  have hstored (x : ℕ) (hx : mem1 x ≠ mem x) : h.mmu.isVirtualPageMapped x = false := by
    have hin : base ≤ x ∧ x < base + frameSize := by
      by_contra hout
      exact hx (hmem x (by omega))
    have hs : SamePage x base := by
      unfold SamePage pdIndex ptIndex
      simp only [frameSize] at hin hal
      omega
    rw [isVirtualPageMapped_page, hs.page, hnone]
    rfl
  rw [hcall] at heq
  by_cases hkn' : k = n
  · -- the block is handed out
    subst hkn'
    rw [if_pos rfl] at heq
    cases heq
    obtain ⟨b', hb', hle⟩ := hbelow hn hroom ptr hrange
    have hle' : ptr + (k + 1) * frameSize ≤ heapBase := by
      have := hfirst b' hb'
      omega
    have hbound (j : ℕ) (hj : j < k + 1) :
        kernelVMBase ≤ ptr + j * frameSize ∧ ptr + j * frameSize < heapBase := by
      have := hrange.lower
      simp only [frameSize] at hle' ⊢
      omega
    have hptr := hbound 0 (Nat.succ_pos k)
    rw [Nat.zero_mul, Nat.add_zero] at hptr
    have hW1 := (hW.adopt hptr hnone).mapFresh hpage (outsideHeap_of_base hptr) (by decide) hmap
    refine ⟨hblock.bitmap, hstored, .inr ⟨hrange, hle', hW1.mapHugePages (fun j _ hj => ?_) hloop⟩⟩
    have hbd := hbound (j + 1) (by omega)
    rw [Nat.add_one_mul, ← Nat.add_assoc] at hbd
    exact ⟨kernelPage_of_base hbd, outsideHeap_of_base hbd⟩
  · -- a frame for the record alone
    rw [if_neg hkn'] at heq
    have hmapped := hblock.mapped 0 (Nat.zero_le _)
    rw [Nat.zero_mul, Nat.add_zero] at hmapped
    obtain rfl : k = 0 := by
      by_contra hpos
      rw [abandonHugePages_stops debug mem1 hblock.kernel hpage hal hmapped (by omega)] at heq
      cases heq
    obtain ⟨f, hf, hlo, -⟩ := allocateFrame_free h0
    have hlow : 0x2000 ≤ h.frames.allocateFrame.1 := by
      rw [hf]
      simp only [frameSize]
      omega
    have hne : base ≠ 0 := by
      rintro rfl
      exact absurd hpage.1 (by decide)
    unfold abandonHugePages at heq
    obtain ⟨frames, hfree, heq⟩ := bind_eq_some_iff.1 heq
    obtain ⟨m2, hunmap, heq⟩ := bind_eq_some_iff.1 heq
    cases heq
    rw [if_pos hlow] at hfree
    rw [if_pos ⟨hne, hmapped⟩] at hunmap
    simp only [] at hfree hunmap
    rw [hmmu rfl] at hunmap
    refine ⟨hblock.bitmap, hstored, .inl ⟨rfl, ?_⟩⟩
    have := hW.undo hpage hnone hmap (hframes rfl) hfree hunmap
    show WindowInv T bases ⟨h1.bitmap, m2, frames⟩
    rw [hblock.bitmap]
    exact this

theorem HeapPages.Described.allocateVirtualPage_ne_zero (hD : h.Described)
    (hR : h.frames.Room 1) {i : ℕ} (hi : i < heapPages)
    (hclear : testBit h.bitmap i = false) (debug pge : Bool) :
    ∃ a h', h.allocateVirtualPage debug pge = some (a, h') ∧ a ≠ 0 := by
  have h0 : h.frames.allocateFrame.1 ≠ 0 := fun h => allocateFrame_eq_zero.1 h hR
  rcases hs : scanClear h.bitmap bitWordsNeeded 0 with _ | j
  · have hbits : (0 + bitWordsNeeded) * 32 = heapPages := by decide
    have := scanClear_none (by decide) h.bitmap _ _ hs i (by omega) (by omega)
    rw [hclear] at this
    cases this
  · obtain ⟨hj, -, flags, -, -, hmap⟩ := hD.mapPage h0 hs debug pge
    exact ⟨_, _, hmap, (heapPage_bounds hj).1⟩

end HugePages

section Runs

def Heap.small (s : Heap) : Heap := { s with live := s.live.filter fun b => b.2 ≤ frameSize }

def Heap.hugeBases (s : Heap) : List ℕ :=
  (s.live.filter fun b => frameSize < b.2).map Prod.fst

variable {T : Set ℕ} {s s' : Heap} {debug pge : Bool} {size ptr : ℕ}

theorem Heap.mem_hugeBases {a : ℕ} : a ∈ s.hugeBases ↔ ∃ b ∈ s.live, frameSize < b.2 ∧ b.1 = a := by
  simp [Heap.hugeBases, and_assoc]

theorem BlocksInv.slab_ge (hB : BlocksInv s) {p : ℕ} (hp : p ∈ s.caches.allSlabs) :
    heapBase ≤ p := by
  obtain ⟨i, hi, rfl, -⟩ := hB.slabPage p hp
  exact (heapPage_bounds hi).2.2.2.1

theorem BlocksInv.block_ge (hB : BlocksInv s) {b : ℕ × ℕ} (hb : b ∈ s.live) : heapBase ≤ b.1 := by
  by_cases hsmall : b.2 ≤ 1024
  · obtain ⟨-, p, hp, hobj, -⟩ := hB.slabs.owned b (List.mem_filter.2 ⟨hb, by simpa using hsmall⟩)
    obtain ⟨z, -, -, -, hs⟩ := hB.slabs.isSlab hp
    have := hs.object_bounds hobj
    have := hB.slab_ge hp
    omega
  · obtain ⟨⟨i, hi, heq, -⟩, -⟩ := hB.wholePage b hb (by omega)
    rw [heq]
    exact (heapPage_bounds hi).2.2.2.1

/-- The size of the block can be rounded up to pages in 32 bits and, if the block can be had at all,
there is room for it below the heap. -/
def BelowHeap (h : HeapPages) (size : ℕ) : Prop :=
  size ≤ 0xFFFFF000 ∧ (hugePages size ≤ maxPhysframes → h.frames.Room (hugePages size + 1) →
    ∀ b, FreeRange h.mmu (hugePages size + 1) b →
      ∃ b', FreeRange h.mmu (hugePages size + 1) b'
        ∧ b' + (hugePages size + 1) * frameSize ≤ heapBase)

/-- The blocks of at most a page, the pages, and where the other blocks lie. -/
structure MemInv (T : Set ℕ) (s : Heap) : Prop where
  blocks : BlocksInv s.small
  window : WindowInv T s.hugeBases s.pages
  huge : ∀ b ∈ s.live, frameSize < b.2 →
    b.1 % frameSize = 0 ∧ kernelVMBase ≤ b.1 ∧ b.1 + b.2 ≤ heapBase

namespace MemInv

section

variable (hM : MemInv T s)

include hM

theorem keeps {v : Vm} (hw : v.Window T s.hugeBases s.pages.bitmap) :
    MemInv T { s with pages := v.toHeapPages } :=
  ⟨hM.blocks.grow hw.2, hw.1, hM.huge⟩

theorem of_live (hB : BlocksInv s'.small) (hW : WindowInv T s.hugeBases s'.pages)
    (hlive : ∀ b ∈ s'.live, frameSize < b.2 → b ∈ s.live) : MemInv T s' := by
  refine ⟨hB, hW.subset fun x hx => ?_, fun b hb hlt => hM.huge b (hlive b hb hlt) hlt⟩
  obtain ⟨b, hb, hlt, rfl⟩ := Heap.mem_hugeBases.1 hx
  exact Heap.mem_hugeBases.2 ⟨b, hlive b hb hlt, hlt, rfl⟩

theorem kmalloc_page (hle : size ≤ frameSize)
    (h : hugeStep debug pge s (.kmalloc size) = some s') : MemInv T s' := by
  simp only [hugeStep] at h
  split_ifs at h
  obtain ⟨⟨a, c', p'⟩, hr, h⟩ := map_eq_some_iff.1 h
  have hsource : kmalloc (source debug pge) size (s.caches, s.pages)
      = some (a, c', p') := by
    rw [← hr]
    unfold kmalloc
    rw [if_neg (not_lt.2 hle), if_neg (not_lt.2 hle)]
    rfl
  have hstep : heapStep debug pge s.small (.kmalloc size) = some s'.small := by
    simp only [heapStep, if_pos hle]
    show Option.map _ (kmalloc (source debug pge) size (s.caches, s.pages)) = _
    rw [hsource, ← h]
    simp only [map_some, Heap.small]
    split_ifs <;> simp [hle]
  obtain ⟨hB, hpages⟩ := hM.blocks.kmalloc hM.window.described hstep
  refine hM.of_live hB ?_ fun b hb hlt => ?_
  · rcases hpages with heq | ⟨x, heq⟩
    · exact (show s'.pages = s.pages from heq) ▸ hM.window
    · exact (hM.window.allocateVirtualPage heq).1
  · rw [← h] at hb
    simp only at hb
    split_ifs at hb
    · exact hb
    · rcases List.mem_cons.1 hb with rfl | hb
      · exact absurd hle (not_le.2 hlt)
      · exact hb

theorem kmalloc_pages (hlt : frameSize < size) (hbelow : BelowHeap s.pages size)
    (h : hugeStep debug pge s (.kmalloc size) = some s') : MemInv T s' := by
  simp only [hugeStep] at h
  split_ifs at h
  rw [kmalloc_huge debug pge hlt, Option.map_map] at h
  obtain ⟨⟨ptr, mem', h'⟩, hr, h⟩ := map_eq_some_iff.1 h
  obtain ⟨hbitmap, hstored, hres⟩ := hM.window.hugeAllocation hbelow.2 hr
  -- what was stored is in a page that was free, so it is in no slab
  have hB : BlocksInv { s.small with caches := { s.caches with mem := mem' }, pages := h' } := by
    refine BlocksInv.grow (hM.blocks.store fun p hp x hx hx' => ?_) fun j hj => by rwa [hbitmap]
    by_contra hne
    obtain ⟨i, hi, rfl, hb⟩ := hM.blocks.slabPage p hp
    have hs : SamePage x (heapPage i) := by
      have := (heapPage_bounds hi).2.1
      unfold SamePage pdIndex ptIndex
      simp only [frameSize] at hx' this
      omega
    have hun := hstored x hne
    rw [isVirtualPageMapped_page, hs.page, ← hM.window.bit i hi] at hun
    exact absurd (hb.symm.trans hun) (by decide)
  rcases hres with ⟨rfl, hW⟩ | ⟨hrange, hle, hW⟩
  · cases h
    exact ⟨hB, hW, hM.huge⟩
  have hptr : ptr ≠ 0 := by
    rintro rfl
    exact absurd hrange.lower (by decide)
  obtain rfl : s' = ⟨{ s.caches with mem := mem' }, h', (ptr, size) :: s.live⟩ := by
    rw [← h]
    simp [hptr]
  refine ⟨?_, by simpa [Heap.hugeBases, hlt] using hW, fun b hb hb' => ?_⟩
  · simpa [Heap.small, hlt] using hB
  · rcases List.mem_cons.1 hb with rfl | hb
    · refine ⟨hrange.aligned, hrange.lower, le_trans ?_ hle⟩
      have := hugePages_eq hbelow.1
      simp only [frameSize] at this ⊢
      omega
    · exact hM.huge b hb hb'

theorem kfree (hoff : AtOffset s (.kfree ptr))
    (h : hugeStep debug pge s (.kfree ptr) = some s') : MemInv T s' := by
  have hmem : ptr ∈ s.live.map Prod.fst := by
    by_contra hn
    simp [hugeStep, hn] at h
  obtain ⟨b, hb, rfl⟩ := List.mem_map.1 hmem
  simp only [hugeStep, if_pos hmem] at h
  have hsub (b' : ℕ × ℕ) (hb' : b' ∈ s'.live) (_ : frameSize < b'.2) : b' ∈ s.live := by
    obtain ⟨r, -, h⟩ := map_eq_some_iff.1 h
    rw [← h] at hb'
    exact List.mem_of_mem_filter hb'
  by_cases hle : b.2 ≤ frameSize
  · have hbs : b ∈ s.small.live := List.mem_filter.2 ⟨hb, by simpa using hle⟩
    have hstep : heapStep debug pge s.small (.kfree b.1) = some s'.small := by
      obtain ⟨⟨c', p'⟩, hr, h⟩ := map_eq_some_iff.1 h
      simp only [heapStep, if_pos (List.mem_map_of_mem hbs)]
      show Option.map _ (DragonWare.kfree (hugeSource debug pge) b.1 (s.caches, s.pages))
        = _
      rw [hr, ← h]
      simp only [map_some, Heap.small, List.filter_comm]
    by_cases hsmall : b.2 ≤ 1024
    · obtain ⟨hB, hpages⟩ := hM.blocks.kfree_small hbs hsmall hstep
      exact hM.of_live hB ((show s'.pages = s.pages from hpages) ▸ hM.window) hsub
    have hat := hoff b.1 b.2 rfl hb (by omega)
    obtain ⟨hB, hfree⟩ := hM.blocks.kfree_whole hbs (by omega) hstep
    obtain ⟨⟨i, hi, hpage, -⟩, -⟩ := hM.blocks.wholePage b hbs (by omega)
    rw [hpage] at hat hfree
    refine hM.of_live hB (hM.window.freeVirtualPage ((heapPage_scratch hi).tracked _) hat
      (fun j hj => ?_) hfree) hsub
    obtain ⟨-, -, -, hlo, hhi, hidx⟩ := heapPage_bounds hi
    obtain ⟨m', frames, -, -, hh'⟩ := freeVirtualPage_cases hfree
    have hbitmap : s'.pages.bitmap = clearBit s.pages.bitmap i := by
      rw [show s'.pages = _ from hh', if_pos ⟨hlo, hhi⟩, hidx]
      rfl
    rw [hbitmap, testBit_clearBit (by decide), Bool.and_comm]
    congr 2
    rw [decide_eq_decide]
    exact ⟨fun h => h ▸ ⟨rfl, rfl⟩, fun hs => heapPage_index_inj hj hi hs.1 hs.2⟩
  · -- a block of several pages lies below every slab
    rw [not_le] at hle
    obtain ⟨hal, hlo, hhi⟩ := hM.huge b hb hle
    have hbase : kernelVMBase ≤ b.1 ∧ b.1 < heapBase := ⟨hlo, by omega⟩
    have hout : b.1 ∉ s.caches.allSlabs := fun hp => by
      have : heapBase ≤ b.1 := hM.blocks.slab_ge hp
      omega
    have h0 : b.1 ≠ 0 := by
      intro h0
      rw [h0] at hlo
      exact absurd hlo (by decide)
    have hslabs : SlabInv s.caches (s.small.live.filter fun b => b.2 ≤ 1024) := hM.blocks.slabs
    rw [kfree_page hslabs _ _ h0 hal hout, Option.map_map] at h
    obtain ⟨h', hfree, h⟩ := map_eq_some_iff.1 h
    obtain rfl : s' = ⟨s.caches, h', s.live.filter fun b' => b'.1 ≠ b.1⟩ := h.symm
    have hbitmap : h'.bitmap = s.pages.bitmap := by
      obtain ⟨m', frames, -, -, hh'⟩ := freeVirtualPage_cases hfree
      rw [hh', if_neg (by omega)]
    have hlive : (s.live.filter fun b' => b'.1 ≠ b.1).filter (fun b => b.2 ≤ frameSize)
        = s.live.filter fun b => b.2 ≤ frameSize := by
      rw [List.filter_comm]
      refine List.filter_eq_self.2 fun b' hb' => ?_
      have : heapBase ≤ b'.1 := hM.blocks.block_ge hb'
      simp only [ne_eq, decide_not, Bool.not_eq_true', decide_eq_false_iff_not]
      omega
    refine hM.of_live ?_ (hM.window.freeVirtualPage
      (.inr ⟨b.1, Heap.mem_hugeBases.2 ⟨b, hb, hle, rfl⟩, rfl, rfl⟩)
      (hoff b.1 b.2 rfl hb (by simp only [frameSize] at hle; omega)) (fun i hi => ?_) hfree) hsub
    · unfold Heap.small
      rw [hlive]
      exact hM.blocks.grow fun j hj => by rwa [hbitmap]
    · rw [hbitmap, decide_eq_false (outsideHeap_of_base hbase i hi)]
      rfl

theorem write {k : ℕ} {v : BitVec 8}
    (h : hugeStep debug pge s (.write ptr k v) = some s') : MemInv T s' := by
  simp only [hugeStep] at h
  split_ifs at h with hc
  cases h
  refine ⟨?_, hM.window, hM.huge⟩
  obtain ⟨b, hb, rfl, hk⟩ := hc
  by_cases hle : b.2 ≤ frameSize
  · have hbs : b ∈ s.small.live := List.mem_filter.2 ⟨hb, by simpa using hle⟩
    have hstep : heapStep debug pge s.small (.write b.1 k v) = some { s.small with
        caches := { s.caches with mem := Function.update s.caches.mem (b.1 + k) v } } :=
      if_pos ⟨b, hbs, rfl, hk⟩
    exact (hM.blocks.write hstep).1
  · obtain ⟨-, -, hhi⟩ := hM.huge b hb (not_le.1 hle)
    refine hM.blocks.store fun p hp x hx _ => Function.update_of_ne ?_ _ _
    have : heapBase ≤ p := hM.blocks.slab_ge hp
    omega

end

end MemInv

/-- What a call must find: room below the heap for a block of several pages, the frame at the
constant offset behind a page given back, no place in the heap for a stack, and one table for an
executable. -/
def WindowFree (s : KernelMemory) : MemoryOp → Prop
  | .heap (.kmalloc size) => frameSize < size → BelowHeap s.pages size
  | .heap op => AtOffset s.toHeap op
  | .createProcess _ _ codeSize =>
    0 < codeSize → codeSize ≤ 0x300000 ∧ Vm.StacksTaken s.pages.mmu
  | .createThread _ => Vm.StacksTaken s.pages.mmu

theorem MemInv.step {s s' : KernelMemory} {op : MemoryOp} (hM : MemInv T s.toHeap)
    (hfree : WindowFree s op) (h : memoryStep debug pge s op = some s') : MemInv T s'.toHeap := by
  have hw : s.vm.Window T s.hugeBases s.pages.bitmap := ⟨hM.window, fun _ hj => hj⟩
  cases op with
  | heap op =>
    obtain ⟨t, hstep, h⟩ := map_eq_some_iff.1 h
    cases h
    cases op with
    | kmalloc size =>
      by_cases hle : size ≤ frameSize
      · exact hM.kmalloc_page hle hstep
      · exact hM.kmalloc_pages (not_le.1 hle) (hfree (not_le.1 hle)) hstep
    | kfree ptr => exact hM.kfree hfree hstep
    | write ptr k v => exact hM.write hstep
  | createProcess fresh code codeSize =>
    obtain ⟨⟨r, v⟩, hstep, h⟩ := map_eq_some_iff.1 h
    cases h
    rcases Nat.eq_zero_or_pos codeSize with rfl | hpos
    · cases hstep
      exact hM
    · obtain ⟨hsize, hst⟩ := hfree hpos
      exact hM.keeps (hw.createProcess hsize hst hstep)
  | createThread fresh =>
    obtain ⟨⟨r, v⟩, hstep, h⟩ := map_eq_some_iff.1 h
    cases h
    exact hM.keeps (hw.createThread hfree hstep)

/-- `InitFrameManager` and `InitVirtualMemoryManager` have run, the kernel's image ends below the
heap, and static storage is zero. -/
structure MemoryStart (debug pge : Bool) (s : KernelMemory) : Prop where
  boot : ∃ fuel regions frames₀ calls frames live mmu image,
    FrameManager.initFrameManager fuel regions = some frames₀
      ∧ Run.exec (frameStep debug) (frames₀, []) calls = some (frames, live)
      ∧ initVirtualMemoryManager pge image mmu frames = (.ok, s.pages.mmu, s.pages.frames)
  unmapped : ∀ i < heapPages, s.pages.mmu.isVirtualPageMapped (heapPage i) = false
  bitmap : ∀ n, s.pages.bitmap n = 0#32
  tmpmap : ∀ n, s.tmpmap n = 0#32
  caches : ∃ mem, s.caches = .blank mem
  live : s.live = []

theorem MemoryStart.inv {s : KernelMemory} (hs : MemoryStart debug pge s) :
    ∃ T, MemInv T s.toHeap := by
  obtain ⟨fuel, regions, frames0, calls, frames, live, mmu, image, h₀, h1, h2⟩ := hs.boot
  obtain ⟨used, -, hS, -, hnone⟩ := initVirtualMemoryManager_spec (frameInv_of_run h₀ h1) h2
  obtain ⟨mem, hmem⟩ := hs.caches
  have hheap (i : ℕ) (hi : i < heapPages) : s.pages.mmu.page (heapPage i) = none := by
    have := hs.unmapped i hi
    rw [isVirtualPageMapped_page] at this
    exact isNone_iff_eq_none.1 (by simpa using this)
  have hbases : s.hugeBases = [] := by simp [Heap.hugeBases, hs.live]
  -- no page that is tracked is mapped yet
  have htracked (a : ℕ) (ha : Tracked [] a) : s.pages.mmu.page a = none := by
    obtain ⟨b, hb, hab⟩ | ⟨b, hb, -⟩ := ha
    · rw [hab.page]
      by_cases hwin : heapBase ≤ b ∧ b < heapBreak
      · rw [heapBase_eq, heapBreak_eq] at hwin
        have hsame : SamePage b (heapPage ((b - heapBase) / frameSize)) := by
          unfold SamePage pdIndex ptIndex
          simp only [heapPage, heapBase_eq, frameSize]
          omega
        rw [hsame.page]
        refine hheap _ ?_
        simp only [heapPages, heapBase_eq, frameSize]
        omega
      · refine hnone _ hb.pdIndex.2 ?_ _
        rw [scratch_iff] at hb
        rw [heapBase_eq, heapBreak_eq] at hwin
        unfold pdIndex
        omega
    · cases hb
  have hholds {f : ℕ} (hf : Holds entryChild tableSlots s.pages.mmu.table s.pages.mmu.cr3 f) :
      f ∈ used := hS.wellFormed.live f hf
  refine ⟨{k | ∃ f, Holds entryChild tableSlots s.pages.mmu.table s.pages.mmu.cr3 f
    ∧ f / frameSize = k}, .start (s := s.small) hmem (by simp [Heap.small, hs.live]), ?_,
    by simp [hs.live]⟩
  rw [hbases]
  refine ⟨hS.kernelHalf, ⟨_, .inl rfl, rfl⟩, fun i h1 h2 => ⟨_, .inr ⟨i, h2, ?_⟩, rfl⟩, ?_, ?_,
    fun i hi => ?_, fun b hb => absurd hb List.not_mem_nil, fun a ha e he => ?_⟩
  · exact entryChild_of_present (hS.kernel i ⟨h1, h2⟩)
  · rintro ⟨f, hf, h0⟩
    have := (hS.frames.live f (hholds hf)).bounds.1
    simp only [frameSize] at this h0
    omega
  · rintro k ⟨f, hf, rfl⟩
    exact hS.frames.allocated_of_live (hholds hf)
  · simp [hheap i hi, testBit, hs.bitmap]
  · rw [htracked a ha] at he
    cases he

/-- A page of the heap is mapped if and only if its bit is set, and with a clear bit and a free
frame `AllocateVirtualPage` returns a page. -/
def BitmapDescribes (debug pge : Bool) (s : KernelMemory) : Prop :=
  (∀ i < heapPages,
      s.pages.mmu.isVirtualPageMapped (heapPage i) = testBit s.pages.bitmap i)
    ∧ (s.pages.frames.Room 1 → (∃ i < heapPages, testBit s.pages.bitmap i = false) →
      ∃ a h', s.pages.allocateVirtualPage debug pge = some (a, h') ∧ a ≠ 0)

/-- In every run of requests, frees, processes and threads in which no range and no stack is placed
in the heap and no page is given back with another's frame, the bits describe the heap. -/
theorem heap_bitmap_describes {s₀ s : KernelMemory} (hs : MemoryStart debug pge s₀)
    {ops : List MemoryOp} (hm : Run.Meets (memoryStep debug pge) WindowFree s₀ ops)
    (h : Run.exec (memoryStep debug pge) s₀ ops = some s) : BitmapDescribes debug pge s := by
  obtain ⟨T, hM⟩ := hs.inv
  have hM' : MemInv T s.toHeap :=
    Run.exec_invariant (I := fun s : KernelMemory => MemInv T s.toHeap)
      (fun _ _ _ hM hfree h => hM.step hfree h) ops hM hm h
  have hD := hM'.window.described
  exact ⟨fun i hi => (hD.bit i hi).symm, fun hR ⟨i, hi, hclear⟩ =>
    hD.allocateVirtualPage_ne_zero hR hi hclear debug pge⟩

end Runs

section Boot

theorem outside_bootImage {j : ℕ} (hj : j ≠ 0) : OutsideImage bootImage j := by
  have himage : alignUp (bootImage.stop - bootImage.start) frameSize / frameSize = 1 := by decide
  have htext : pageSteps bootImage.textStart bootImage.textStop = 0 := by decide
  have hrodata : pageSteps bootImage.rodataStart bootImage.rodataStop = 0 := by decide
  refine ⟨fun i hi => ?_, fun i hi => by omega, fun i hi => by omega⟩
  obtain rfl : i = 0 := by omega
  rw [Nat.zero_mul]
  exact hj.symm

theorem exists_memoryStart (debug pge : Bool) :
    ∃ s : KernelMemory, MemoryStart debug pge s ∧ KernelHalf s.pages.mmu
      ∧ s.pages.frames.Room 1791
      ∧ ∀ a, KernelPage a → ¬ SamePage a kernelVMBase →
        s.pages.mmu.isVirtualPageMapped a = false := by
  obtain ⟨fm0, m, fm, used, h₀, hinit, hS, hR⟩ := exists_boot pge
  have hI := FrameInv.init h₀
  obtain ⟨-, -, -, -, hnone⟩ := initVirtualMemoryManager_spec hI hinit
  have hun (a : ℕ) (ha : KernelPage a) (hne : ¬ SamePage a kernelVMBase) :
      m.isVirtualPageMapped a = false := by
    rw [isVirtualPageMapped_page]
    unfold page
    by_cases hd : pdIndex a = 768
    · rw [hd, initVirtualMemoryManager_outside hI hinit (outside_bootImage fun h0 => hne ⟨hd, h0⟩)]
      rfl
    · rw [hnone _ ha.2 hd]
      rfl
  refine ⟨⟨⟨.blank fun _ => 0, ⟨fun _ => 0#32, m, fm⟩, []⟩, fun _ => 0#32⟩,
    ⟨⟨2049, bootRegions, fm0, [], fm0, [], blankMmu, bootImage, h₀, rfl, hinit⟩, fun i hi => ?_,
      fun _ => rfl, fun _ => rfl, ⟨_, rfl⟩, rfl⟩, hS.kernelHalf, hR.room, hun⟩
  refine hun _ (heapPage_scratch hi).pdIndex fun hs => ?_
  refine not_samePage_base (heapPage_scratch hi) ⟨le_rfl, ?_⟩ hs.symm
  rw [heapBase_eq]
  decide

theorem heap_bitmap_describes_twoPages :
    ∃ s₀ s : KernelMemory, MemoryStart true true s₀
      ∧ Run.exec (memoryStep true true) s₀ [.heap (.kmalloc 5000)] = some s
      ∧ BitmapDescribes true true s := by
  obtain ⟨s₀, hs, hk, hR, hun⟩ := exists_memoryStart true true
  have hpages : hugePages 5000 = 2 := by decide
  have hrange : FreeRange s₀.pages.mmu (2 + 1) 0xC0001000 := by
    refine ⟨by decide, by decide, by decide, fun j hj => hun _ ?_ ?_⟩
    · unfold KernelPage pdIndex
      simp only [frameSize]
      omega
    · unfold SamePage ptIndex
      simp only [frameSize, kernelVMBase]
      omega
  obtain ⟨base, -, -, mem', h', heq, -⟩ := hugeAllocation_some true s₀.caches.mem hk (by decide)
    hrange (hR.mono (by omega))
  have hstep : memoryStep true true s₀ (.heap (.kmalloc 5000)) = some { s₀ with
      toHeap := ⟨{ s₀.caches with mem := mem' }, h',
        if base = 0 then s₀.live else (base, 5000) :: s₀.live⟩ } := by
    simp only [memoryStep, hugeStep]
    rw [if_pos (by decide), kmalloc_huge true true (by decide), hpages]
    simp only [heq, map_some]
  have hmeets : Run.Meets (memoryStep true true) WindowFree s₀ [.heap (.kmalloc 5000)] := by
    refine ⟨fun _ => ⟨by decide, fun _ _ _ _ => ⟨0xC0001000, ?_, ?_⟩⟩, fun _ _ => trivial⟩
    · rwa [hpages]
    · rw [hpages]
      decide
  have hrun := congrArg (Option.bind · fun s => Run.exec (memoryStep true true) s []) hstep
  exact ⟨s₀, _, hs, hrun, heap_bitmap_describes hs hmeets hrun⟩

theorem Vm.createThread_first {v : Vm} (debug pge : Bool) (hk : KernelHalf v.mmu)
    (hR : v.frames.Room 2) (hun : v.mmu.isVirtualPageMapped kernelStackBase = false)
    (hun' : v.mmu.isVirtualPageMapped (kernelStackBase + frameSize) = false) :
    ∃ v', v.createThread debug pge false = some (true, v')
      ∧ v'.mmu.isVirtualPageMapped kernelStackBase = true ∧ v'.bitmap = v.bitmap := by
  obtain ⟨h1, hR1⟩ := FrameManager.Room.allocateFrame hR
  obtain ⟨h2, -⟩ := FrameManager.Room.allocateFrame hR1
  have hal {fm : FrameManager} (h : fm.allocateFrame.1 ≠ 0) :
      fm.allocateFrame.1 % frameSize = 0 := by
    obtain ⟨f, hf, -⟩ := allocateFrame_free h
    rw [hf]
    exact Nat.mul_mod_left f frameSize
  obtain ⟨frames, hframes⟩ : ∃ fm, fm = v.frames.allocateFrame.2.allocateFrame.2 := ⟨_, rfl⟩
  have hpage : KernelPage kernelStackBase := ⟨by decide, by decide⟩
  have hpage' : KernelPage (kernelStackBase + frameSize) := ⟨by decide, by decide⟩
  obtain ⟨m1, hmap1, hk1, -, hothers⟩ := hk.map_spec hpage' (by decide) hun'
    (hal h2) (pagePresent ||| pageRW) (by decide) frames
  have hun1 : m1.isVirtualPageMapped kernelStackBase = false := by
    rw [isVirtualPageMapped_eq, hothers _ hpage (by decide), ← isVirtualPageMapped_eq]
    exact hun
  obtain ⟨m2, hmap2, -, hmapped, -⟩ := hk1.map_spec hpage (by decide) hun1
    (hal h1) (pagePresent ||| pageRW) (by decide) frames
  refine ⟨{ v with mmu := m2, frames }, ?_, hmapped, rfl⟩
  have hstack (fm : FrameManager) :
      Vm.getNextKernelStackAddress { v with frames := fm } = some kernelStackBase := by
    unfold getNextKernelStackAddress
    rw [show (kernelStackEnd - kernelStackBase) / (kernelStackSizePages * frameSize)
      = 32759 + 1 by decide]
    unfold findKernelStack
    rw [hun, hun']
    rfl
  unfold createThread
  simp only [hstack, ← hframes, hmap1, hmap2]
  rw [if_neg (not_or.2 ⟨h1, h2⟩)]
  rfl

/-- The first thread's stack is placed in the heap, and the bit of its page stays clear. -/
theorem createThread_maps_heapPage :
    ∃ s₀ s : KernelMemory, MemoryStart true true s₀
      ∧ memoryStep true true s₀ (.createThread false) = some s
      ∧ s.pages.mmu.isVirtualPageMapped (heapPage 0x1FF00) = true
      ∧ testBit s.pages.bitmap 0x1FF00 = false := by
  obtain ⟨s₀, hs, hk, hR, hun⟩ := exists_memoryStart true true
  have hR₂ : s₀.vm.frames.Room 2 := hR.mono (by omega)
  obtain ⟨v', hstep, hmapped, hbitmap⟩ := Vm.createThread_first true true hk hR₂
    (hun _ ⟨by decide, by decide⟩ (by decide)) (hun _ ⟨by decide, by decide⟩ (by decide))
  refine ⟨s₀, s₀.setVm v', hs, ?_, ?_, ?_⟩
  · simp [memoryStep, hstep]
  · rw [show heapPage 0x1FF00 = kernelStackBase by decide]
    exact hmapped
  · show testBit v'.bitmap 0x1FF00 = false
    rw [hbitmap]
    show testBit s₀.pages.bitmap 0x1FF00 = false
    simp [testBit, hs.bitmap]

end Boot

end DragonWare
