import DragonWare.Proofs.HugeAllocation

/-!
# What becomes of blocks of several pages

A request that fails leaves no trace, unless frames run out after the first page of the block. A
block that is freed is never returned in full. `kzalloc` clears larger blocks only in part.
-/

namespace DragonWare

open FrameManager HeapPages Memory Option

variable {m : FrameManager} {n : ℕ}

section Boot

theorem bootMmu_unmapped (x : ℕ) : bootMmu.isVirtualPageMapped x = false := by
  have hlt : pdIndex x < 1024 := Nat.mod_lt _ (by decide)
  have hpte : bootMmu.pte (pdIndex x) (ptIndex x) = 0#32 := by
    unfold Mmu.pte
    rw [(bootMmu_pde _ hlt).2]
    simp only [bootMmu]
    rw [if_neg (by omega)]
  unfold Mmu.isVirtualPageMapped
  rw [hpte]
  simp [entryPresent]

theorem bootMmu_range (hn : n ≤ maxPhysframes) : FreeRange bootMmu (n + 1) kernelVMBase := by
  refine ⟨by decide, le_rfl, ?_, fun j _ => bootMmu_unmapped _⟩
  simp only [maxPhysframes, kernelVMBase, kernelStackBase, frameSize] at hn ⊢
  omega

theorem bootHeap_intact {fuel : ℕ} {regions : List MemoryRegion}
    (h : initFrameManager fuel regions = some m) : (bootHeap m).pages.Intact :=
  ⟨(bootHeap_start false h).kernel, (FrameInv.init h).sound⟩

def threeFrames : List MemoryRegion := [⟨true, 0x200000#32, 0x3000#32, .available⟩]

theorem offered_threeFrames {k : ℕ} :
    Offered threeFrames (k * frameSize) ↔ k ∈ [0x200, 0x201, 0x202] := by
  have hstart : (0x200000#32).toNat = 0x200000 := rfl
  have hstop : (⟨true, 0x200000#32, 0x3000#32, .available⟩ : MemoryRegion).stop.toNat
    = 0x203000 := rfl
  simp only [List.mem_cons, List.not_mem_nil, or_false]
  constructor
  · rintro ⟨r, hr, -, i, hi⟩
    obtain rfl := List.mem_singleton.1 hr
    simp only [hstart, hstop, frameSize] at hi
    omega
  · intro hk
    refine ⟨_, List.mem_singleton_self _, rfl, k - 0x200, ?_⟩
    simp only [hstart, hstop, frameSize]
    omega

theorem threeFrames_room (h : initFrameManager 4 threeFrames = some m) : m.Room 3 := by
  refine (FrameInv.init h).room [0x200, 0x201, 0x202] (by decide) fun k hk => ?_
  refine ⟨?_, offered_threeFrames.2 hk, List.not_mem_nil⟩
  simp only [List.mem_cons, List.not_mem_nil, or_false] at hk
  omega

theorem threeFrames_full (h : initFrameManager 4 threeFrames = some m) : ¬ m.Room 4 := by
  rintro ⟨L, hnd, hlen, hL⟩
  have hsub : L ⊆ [0x200, 0x201, 0x202] := fun k hk =>
    offered_threeFrames.1 (((FrameInv.init h).clear k).1 (hL k hk).2.2).1
  have hle : L.length ≤ 3 := (List.subperm_of_subset hnd hsub).length_le
  omega

theorem exists_threeFrames : ∃ m, initFrameManager 4 threeFrames = some m :=
  isSome_iff_exists.1 (by decide +kernel)

end Boot

section Requests

variable {s : SlabCaches × HeapPages} {size : ℕ} (debug pge : Bool)

def hugePages (size : ℕ) : ℕ := alignUp size frameSize / frameSize

theorem hugePages_eq (hsize : size ≤ 0xFFFFF000) :
    hugePages size = (size + (frameSize - 1)) / frameSize := by
  unfold hugePages alignUp
  simp only [frameSize] at hsize ⊢
  omega

theorem hugePages_of_wrap (hlt : 0xFFFFF000 < size) (hlt' : size < 2 ^ 32) :
    hugePages size = 0 := by
  unfold hugePages alignUp
  simp only [frameSize] at hlt ⊢
  omega

theorem kmalloc_huge (hsize : frameSize < size) :
    kmalloc (hugeSource debug pge) size s
      = (hugeAllocation debug (hugePages size) (s.1.mem, s.2)).map fun r =>
        (r.1, { s.1 with mem := r.2.1 }, r.2.2) := by
  unfold kmalloc
  have h0 : size ≠ 0 := by omega
  rw [if_neg h0, if_neg (by omega), if_pos hsize]
  rfl

/-- There is room for a block of `n` pages and its record, and a frame for the record and for the
first page, but not for all of the others. -/
def RunsOut (h : HeapPages) (n : ℕ) : Prop :=
  n ≤ maxPhysframes ∧ (∃ b, FreeRange h.mmu (n + 1) b) ∧ h.frames.Room 2
    ∧ ¬ h.frames.Room (n + 1)

/-- A request for several pages reads only mapped pages and, when it fails, leaves frames and pages
as they were, if and only if frames do not run out on the way. -/
theorem failed_huge_no_effect_iff (hI : s.2.Intact) (hsize : frameSize < size) :
    (∃ r, kmalloc (hugeSource debug pge) size s = some r
        ∧ (r.1 = 0 → r.2.2.frames = s.2.frames ∧ SameKernelPages s.2.mmu r.2.2.mmu))
      ↔ ¬ RunsOut s.2 (hugePages size) := by
  rw [kmalloc_huge debug pge hsize]
  constructor
  · rintro ⟨r, hr, -⟩ ⟨hn, ⟨b, hb⟩, htwo, hfew⟩
    rw [hugeAllocation_stops debug s.1.mem hI.kernel hn hb htwo hfew] at hr
    cases hr
  · intro hno
    by_cases hnull : maxPhysframes < hugePages size
        ∨ ∀ b, ¬ FreeRange s.2.mmu (hugePages size + 1) b
    · rw [hugeAllocation_null debug s.1.mem hnull]
      exact ⟨_, rfl, fun _ => ⟨rfl, fun _ _ => rfl⟩⟩
    simp only [not_or, not_lt, not_forall, not_not] at hnull
    obtain ⟨hn, b, hb⟩ := hnull
    by_cases hR : s.2.frames.Room (hugePages size + 1)
    · obtain ⟨base, hrange, -, mem', h', heq, -, -⟩ :=
        hugeAllocation_some debug s.1.mem hI.kernel hn hb hR
      rw [heq]
      refine ⟨_, rfl, fun h0 => ?_⟩
      have := hrange.lower
      simp only [kernelVMBase] at this h0
      omega
    · have htwo : ¬ s.2.frames.Room 2 := fun htwo => hno ⟨hn, ⟨b, hb⟩, htwo, hR⟩
      obtain ⟨mem', h', heq, hfr, hpages⟩ :=
        hugeAllocation_restores debug s.1.mem hI hn hb hR htwo
      rw [heq]
      exact ⟨_, rfl, fun _ => ⟨hfr, hpages⟩⟩

/-- Three frames are free, and a block of three pages needs four: the machine stops. -/
theorem failed_huge_reads_unmapped :
    ∃ s, HeapStart false s
      ∧ kmalloc (hugeSource false true) 0x3000 (s.caches, s.pages) = none := by
  obtain ⟨m, hm⟩ := exists_threeFrames
  have hpages : hugePages 0x3000 = 3 := by decide
  refine ⟨bootHeap m, bootHeap_start false hm, ?_⟩
  rw [kmalloc_huge false true (by decide), hpages,
    hugeAllocation_stops false _ (bootHeap_intact hm).kernel (by decide) (bootMmu_range (by decide))
      ((threeFrames_room hm).mono (by omega)) (threeFrames_full hm)]
  rfl

/-- A block has at most 512 pages. -/
theorem failed_huge_no_effect_iff_tooMany :
    ∃ s r, HeapStart false s
      ∧ kmalloc (hugeSource false true) 0x201000 (s.caches, s.pages) = some r
      ∧ r.1 = 0 ∧ r.2.2.frames = s.pages.frames ∧ SameKernelPages s.pages.mmu r.2.2.mmu := by
  obtain ⟨m, hm⟩ := exists_threeFrames
  have hmany : maxPhysframes < hugePages 0x201000 := by decide
  obtain ⟨r, hr, hnull⟩ := (failed_huge_no_effect_iff false true
    (s := ((bootHeap m).caches, (bootHeap m).pages)) (bootHeap_intact hm) (by decide)).2
      fun h => hmany.not_ge h.1
  have hzero : r.1 = 0 := by
    rw [kmalloc_huge false true (by decide), hugeAllocation_null false _ (.inl hmany)] at hr
    obtain rfl := some.inj hr
    rfl
  exact ⟨bootHeap m, r, bootHeap_start false hm, hr, hzero, hnull hzero⟩

end Requests

section Blocks

variable {s s₁ s₂ : SlabCaches × HeapPages} {size ptr : ℕ} {data : Mem} (debug pge : Bool)

theorem kfree_range {m : Mmu} (hrange : FreeRange m (n + 1) ptr) (hk : KernelHalf s.2.mmu) :
    ∃ s', kfree (hugeSource debug pge) ptr s = some s'
      ∧ ∀ b, KernelPage b → ¬ SamePage b ptr →
        s'.2.mmu.translate s'.2.mmu.cr3 b = s.2.mmu.translate s.2.mmu.cr3 b := by
  obtain ⟨hpage, hal, -⟩ := hrange.kernelPage (Nat.succ_pos n)
  rw [Nat.zero_mul, Nat.add_zero] at hpage hal
  have hlo := hrange.lower
  have hhi := hrange.upper
  have hphys : virtToPhys ptr % frameSize = 0 ∧ 2 * frameSize ≤ virtToPhys ptr := by
    simp only [virtToPhys, virtOffset_eq, kernelVMBase, kernelStackBase, frameSize]
      at hal hlo hhi ⊢
    omega
  have h0 : ptr ≠ 0 := by
    simp only [kernelVMBase] at hlo
    omega
  unfold kfree
  rw [if_neg h0]
  rcases s.1.allSlabs.find? fun p => (s.1.header p).contains ptr with _ | p
  · obtain ⟨m', hunmap, -, -, hothers⟩ := hk.unmap_spec hpage hal debug
    obtain ⟨h', hfree⟩ : ∃ h', markHeapPageAsFree debug ptr { s.2 with mmu := m' }
        = some h' := by
      unfold markHeapPageAsFree
      rw [if_neg (fun h => h.2 hal)]
      split_ifs <;> exact ⟨_, rfl⟩
    obtain ⟨frames, hframes⟩ : ∃ frames, h'.frames.freeFrame debug (virtToPhys ptr)
        = some frames := by
      unfold freeFrame
      rw [if_neg (by omega), if_neg (fun h => h.2 hphys.1)]
      split_ifs <;> exact ⟨_, rfl⟩
    refine ⟨(s.1, { h' with frames }), ?_, fun b hb hne => ?_⟩
    · simp [hugeSource, freeVirtualPage, hunmap, hfree, hframes]
    · have hm : h'.mmu = m' := (markHeapPageAsFree_mmu hfree).1
      simp only [hm]
      exact hothers b hb hne
  · simp only
    split_ifs
    · exact ⟨s, rfl, fun _ _ _ => rfl⟩
    · exact ⟨(s.1.putObject p ptr, s.2), rfl, fun _ _ _ => rfl⟩

/-- A block of several pages that has been handed out and written to by its owner is freed, and
pages of it are still mapped. -/
theorem huge_block_never_returned (hI : s.2.Intact) (hsize : frameSize < size)
    (hsize' : size < 2 ^ 32)
    (hmalloc : kmalloc (hugeSource debug pge) size s = some (ptr, s₁)) (hptr : ptr ≠ 0)
    (hstore : storeBlock ptr size data s₁ = some s₂) :
    ∃ s₃, kfree (hugeSource debug pge) ptr s₂ = some s₃
      ∧ ¬ (s₃.2.frames.bitmap = s.2.frames.bitmap ∧ SameKernelPages s.2.mmu s₃.2.mmu) := by
  rw [kmalloc_huge debug pge hsize] at hmalloc
  obtain ⟨⟨ptr', mem', h'⟩, hhuge, heq⟩ := map_eq_some_iff.1 hmalloc
  obtain ⟨rfl, rfl⟩ := Prod.mk.inj heq
  obtain ⟨-, -, hrange, -, hblock, -⟩ := hugeAllocation_inv debug s.1.mem hI.kernel hhuge hptr
  unfold storeBlock at hstore
  split_ifs at hstore with hall
  obtain rfl := some.inj hstore
  -- a block whose bytes can all be stored to has a second page
  have hpages : 1 ≤ hugePages size := by
    have hle : size ≤ 0xFFFFF000 := by
      by_contra hlt
      have hlast := (hall (pageSteps 0 size - 1) (by
        simp only [pageSteps, frameSize] at hsize ⊢
        omega)).1
      have := hrange.lower
      simp only [kernelVMBase, pageSteps, frameSize] at this hlast hlt hsize
      omega
    rw [hugePages_eq hle]
    simp only [frameSize] at hsize ⊢
    omega
  obtain ⟨s₃, hfree, hothers⟩ := kfree_range debug pge hrange
    (s := ({ s.1 with mem := blit mem' ptr' size data }, h')) hblock.kernel
  obtain ⟨hpage₀, hal₀, hlt₀⟩ := hrange.kernelPage (j := 0) (by omega)
  obtain ⟨hpage, hal, hlt⟩ := hrange.kernelPage (j := 1) (by omega)
  rw [Nat.zero_mul, Nat.add_zero] at hpage₀ hal₀ hlt₀
  have hne : ¬ SamePage (ptr' + 1 * frameSize) ptr' := by
    rw [samePage_iff hal hal₀ hlt hlt₀]
    simp only [frameSize]
    omega
  refine ⟨s₃, hfree, fun hsame => ?_⟩
  have hbefore := hrange.unmapped 1 (by omega)
  rw [← hsame.2.isVirtualPageMapped hpage, Mmu.isVirtualPageMapped_eq, hothers _ hpage hne,
    ← Mmu.isVirtualPageMapped_eq, hblock.mapped 1 hpages] at hbefore
  cases hbefore

/-- Two pages asked for, written to and freed: the second is still mapped, and two frames are
lost. -/
theorem huge_block_leaks :
    ∃ s s₁ s₂ s₃, HeapStart false s
      ∧ kmalloc (hugeSource false true) 0x2000 (s.caches, s.pages)
          = some (0xC0000000, s₁)
      ∧ storeBlock 0xC0000000 0x2000 (fun _ => 0x41#8) s₁ = some s₂
      ∧ kfree (hugeSource false true) 0xC0000000 s₂ = some s₃
      ∧ s.pages.mmu.isVirtualPageMapped 0xC0001000 = false
      ∧ s₃.2.mmu.isVirtualPageMapped 0xC0001000 = true
      ∧ s.pages.frames.isFrameAllocated 0x201000 = false
      ∧ s₃.2.frames.isFrameAllocated 0x201000 = true := by
  have hrun : ((initFrameManager 4 threeFrames).bind fun m =>
      (kmalloc (hugeSource false true) 0x2000
        ((bootHeap m).caches, (bootHeap m).pages)).bind fun r =>
      (storeBlock 0xC0000000 0x2000 (fun _ => 0x41#8) r.2).bind fun s₂ =>
      (kfree (hugeSource false true) 0xC0000000 s₂).map fun s₃ =>
        (r.1, s₃.2.mmu.isVirtualPageMapped 0xC0001000, m.isFrameAllocated 0x201000,
          s₃.2.frames.isFrameAllocated 0x201000))
      = some (0xC0000000, true, false, true) := by decide +kernel
  obtain ⟨m, hm, hrun⟩ := bind_eq_some_iff.1 hrun
  obtain ⟨⟨ptr, s₁⟩, h₁, hrun⟩ := bind_eq_some_iff.1 hrun
  obtain ⟨s₂, h₂, hrun⟩ := bind_eq_some_iff.1 hrun
  obtain ⟨s₃, h₃, hrun⟩ := map_eq_some_iff.1 hrun
  simp only [Prod.mk.injEq] at hrun
  obtain ⟨rfl, hmapped, hfree, hlost⟩ := hrun
  exact ⟨bootHeap m, s₁, s₂, s₃, bootHeap_start false hm, h₁, h₂, h₃, bootMmu_unmapped _, hmapped,
    hfree, hlost⟩

theorem huge_block_never_returned_twoPages :
    ∃ s s₂ s₃, HeapStart false s
      ∧ kfree (hugeSource false true) 0xC0000000 s₂ = some s₃
      ∧ ¬ (s₃.2.frames.bitmap = s.pages.frames.bitmap
        ∧ SameKernelPages s.pages.mmu s₃.2.mmu) := by
  have hrun : ((initFrameManager 4 threeFrames).bind fun m =>
      (kmalloc (hugeSource false true) 0x2000
        ((bootHeap m).caches, (bootHeap m).pages)).bind fun r =>
      (storeBlock 0xC0000000 0x2000 (fun _ => 0x41#8) r.2).map fun _ => r.1)
      = some 0xC0000000 := by decide +kernel
  obtain ⟨m, hm, hrun⟩ := bind_eq_some_iff.1 hrun
  obtain ⟨⟨ptr, s₁⟩, h₁, hrun⟩ := bind_eq_some_iff.1 hrun
  obtain ⟨s₂, h₂, rfl⟩ := map_eq_some_iff.1 hrun
  have hsize : frameSize < 0x2000 := by decide
  obtain ⟨s₃, h₃, hnot⟩ := huge_block_never_returned false true
    (s := ((bootHeap m).caches, (bootHeap m).pages)) (bootHeap_intact hm) hsize (by decide) h₁
    (by decide) h₂
  exact ⟨bootHeap m, s₂, s₃, bootHeap_start false hm, h₃, hnot⟩

end Blocks

section Runs

section Pages

variable {π : Type*} {src : PageSource π} {c c' : SlabCaches} {p p' : π} {size a : ℕ}

theorem createSlab_cases {objsize : ℕ} (h : createSlab src objsize (c, p) = some (a, c', p')) :
    c'.initialized = c.initialized ∧ c'.objsize = c.objsize
      ∧ ∃ r, src.allocateVirtualPage p = some r
        ∧ (p' = r.2 ∨ src.freeVirtualPage r.1 r.2 = some p') := by
  unfold createSlab at h
  obtain ⟨z, hz⟩ : ∃ z, z = if objsize < 4 then 4 else objsize := ⟨_, rfl⟩
  simp only [← hz] at h
  obtain ⟨r, hr, h⟩ := bind_eq_some_iff.1 h
  split_ifs at h
  · cases h
    exact ⟨rfl, rfl, r, hr, .inl rfl⟩
  · obtain ⟨q, hq, h⟩ := map_eq_some_iff.1 h
    cases h
    exact ⟨rfl, rfl, r, hr, .inr hq⟩
  · cases h
    exact ⟨rfl, rfl, r, hr, .inl rfl⟩

theorem kmalloc_cases (h : kmalloc src size (c, p) = some (a, c', p')) :
    (size = 0 ∧ a = 0 ∧ c' = c ∧ p' = p)
      ∨ (1024 < size ∧ size ≤ frameSize ∧ c' = c ∧ src.allocateVirtualPage p = some (a, p'))
      ∨ (frameSize < size ∧ ∃ mem', src.hugeAllocation (hugePages size) (c.mem, p)
            = some (a, mem', p') ∧ c' = { c with mem := mem' })
      ∨ (0 < size ∧ size ≤ 1024 ∧ c'.initialized = c.ready.initialized
          ∧ c'.objsize = c.ready.objsize
          ∧ (p' = p ∨ ∃ r, src.allocateVirtualPage p = some r
              ∧ (p' = r.2 ∨ src.freeVirtualPage r.1 r.2 = some p'))) := by
  rcases Nat.eq_zero_or_pos size with rfl | h0
  · cases h
    exact .inl ⟨rfl, rfl, rfl, rfl⟩
  rcases Nat.lt_or_ge 1024 size with hlt | hle
  · unfold kmalloc at h
    rw [if_neg (by omega)] at h
    rcases Nat.lt_or_ge frameSize size with hhuge | hpage
    · rw [if_neg (by omega), if_pos hhuge] at h
      obtain ⟨r, hr, h⟩ := map_eq_some_iff.1 h
      cases h
      exact .inr (.inr (.inl ⟨hhuge, r.2.1, hr, rfl⟩))
    rw [if_pos ⟨by simp [slabSizes]; omega, hpage⟩] at h
    obtain ⟨r, hr, h⟩ := map_eq_some_iff.1 h
    cases h
    exact .inr (.inl ⟨hlt, hpage, rfl, hr⟩)
  · refine .inr (.inr (.inr ⟨h0, hle, ?_⟩))
    obtain ⟨i, hi, -, -⟩ := getSlabCacheForSize_some hle
    rcases hf : (c.ready.slabs i).find? fun p => (c.ready.header p).freeList ≠ 0 with _ | q
    · rw [kmalloc_of_full src p h0 hle hi hf] at h
      obtain ⟨⟨b, c1, p1⟩, hslab, h⟩ := map_eq_some_iff.1 h
      obtain ⟨hinit, hsizes, hpages⟩ := createSlab_cases hslab
      simp only at h
      split_ifs at h <;> cases h <;> exact ⟨hinit, hsizes, .inr hpages⟩
    · rw [kmalloc_of_free src p h0 hle hi hf] at h
      cases h
      exact ⟨rfl, rfl, .inl rfl⟩

theorem kfree_cases {ptr : ℕ} (h : kfree src ptr (c, p) = some (c', p')) :
    c'.initialized = c.initialized ∧ c'.objsize = c.objsize
      ∧ (p' = p ∨ src.freeVirtualPage ptr p = some p') := by
  unfold kfree at h
  split_ifs at h
  · cases h
    exact ⟨rfl, rfl, .inl rfl⟩
  rcases hf : c.allSlabs.find? fun p => (c.header p).contains ptr with _ | q
  · simp only [hf] at h
    obtain ⟨r, hr, h⟩ := map_eq_some_iff.1 h
    cases h
    exact ⟨rfl, rfl, .inr hr⟩
  · simp only [hf] at h
    split_ifs at h <;> cases h <;> exact ⟨rfl, rfl, .inl rfl⟩

end Pages

def SizesSet (c : SlabCaches) : Prop :=
  c.initialized = true → ∀ i < slabTypesMax, c.objsize i = slabSizes.getD i 0

theorem SizesSet.ready {c : SlabCaches} (hc : SizesSet c) :
    c.ready.initialized = true ∧ ∀ i < slabTypesMax, c.ready.objsize i = slabSizes.getD i 0 := by
  unfold SlabCaches.ready
  split_ifs with hi
  · exact ⟨hi, hc hi⟩
  · exact ⟨rfl, fun i hi => if_pos hi⟩

theorem SizesSet.congr {c c' : SlabCaches} (hc : SizesSet c)
    (hinit : c'.initialized = c.initialized) (hsizes : c'.objsize = c.objsize) : SizesSet c' := by
  unfold SizesSet
  rwa [hinit, hsizes]

theorem SizesSet.kmalloc {π : Type*} {src : PageSource π} {c c' : SlabCaches} {p p' : π}
    {size a : ℕ} (hc : SizesSet c) (h : kmalloc src size (c, p) = some (a, c', p')) :
    SizesSet c' := by
  rcases kmalloc_cases h with
    ⟨-, -, rfl, -⟩ | ⟨-, -, rfl, -⟩ | ⟨-, mem', -, rfl⟩ | ⟨-, -, -, hsizes, -⟩
  · exact hc
  · exact hc
  · exact hc
  · intro _
    rw [hsizes]
    exact hc.ready.2

theorem SizesSet.step {debug pge : Bool} {s s' : Heap} {op : HeapOp} (hc : SizesSet s.caches)
    (h : hugeStep debug pge s op = some s') : SizesSet s'.caches := by
  cases op with
  | kmalloc size =>
    simp only [hugeStep] at h
    split_ifs at h
    obtain ⟨⟨a, c', p'⟩, hr, h⟩ := map_eq_some_iff.1 h
    cases h
    exact hc.kmalloc hr
  | kfree ptr =>
    simp only [hugeStep] at h
    split_ifs at h
    obtain ⟨⟨c', p'⟩, hr, h⟩ := map_eq_some_iff.1 h
    cases h
    obtain ⟨hinit, hsizes, -⟩ := kfree_cases hr
    exact hc.congr hinit hsizes
  | write ptr k v =>
    simp only [hugeStep] at h
    split_ifs at h
    cases h
    exact hc

def HeapReached (debug pge : Bool) (s : Heap) : Prop :=
  ∃ s₀ ops, HeapStart debug s₀ ∧ Run.exec (hugeStep debug pge) s₀ ops = some s

theorem HeapReached.sizesSet {debug pge : Bool} {s : Heap} (hs : HeapReached debug pge s) :
    SizesSet s.caches := by
  obtain ⟨s0, ops, hstart, hrun⟩ := hs
  refine Run.exec_invariant' (I := fun s : Heap => SizesSet s.caches)
    (fun s op s' hI h => hI.step h) ops ?_ hrun
  obtain ⟨mem, hmem⟩ := hstart.caches
  rw [hmem]
  intro h
  cases h

end Runs

section Zeroed

/-- `kzalloc` clears all of a block of `size` bytes, after every history, whatever the pages hold
that are not mapped at the time. -/
def ZeroesAll (size : ℕ) : Prop :=
  ∀ debug pge s, HeapReached debug pge s →
    ∀ mem : Mem, (∀ x, s.pages.mmu.isVirtualPageMapped x = true → mem x = s.caches.mem x) →
      ∀ ptr c p, kzalloc (hugeSource debug pge) size ({ s.caches with mem }, s.pages)
          = some (ptr, c, p) → ptr ≠ 0 → ∀ k < size, c.mem (ptr + k) = 0#8

theorem kzeromem_apply {dest k : ℕ} (hk : k < n) (mem : Mem) :
    kzeromem dest n mem (dest + k) = 0#8 := if_pos (by omega)

theorem kzeromem_of_le {dest x : ℕ} (hx : dest + n ≤ x) (mem : Mem) :
    kzeromem dest n mem x = mem x := if_neg (by omega)

theorem getSlabCacheForSize_none {size : ℕ} (h : 1024 < size) :
    getSlabCacheForSize size = none := by
  unfold getSlabCacheForSize
  rw [List.findIdx?_eq_none_iff]
  intro z hz
  have : z ≤ 1024 := by
    simp only [slabSizes, List.mem_cons, List.not_mem_nil, or_false] at hz
    omega
  simp only [decide_eq_false_iff_not]
  omega

theorem kzalloc_cases {π : Type*} {src : PageSource π} {size ptr : ℕ} {c c' : SlabCaches}
    {p p' : π} (hc : SizesSet c) (hptr : ptr ≠ 0)
    (h : kzalloc src size (c, p) = some (ptr, c', p')) :
    ∃ c1 n, kmalloc src size (c, p) = some (ptr, c1, p') ∧ c'.mem = kzeromem ptr n c1.mem
      ∧ (size ≤ 1024 → size ≤ n) ∧ (1024 < size → n = frameSize) := by
  unfold kzalloc at h
  obtain ⟨⟨a, c1, p1⟩, hr, h⟩ := map_eq_some_iff.1 h
  simp only at h
  split_ifs at h with ha
  · cases h
    exact absurd ha hptr
  rcases Nat.lt_or_ge 1024 size with hlt | hle
  · rw [getSlabCacheForSize_none hlt] at h
    cases h
    exact ⟨c1, frameSize, hr, rfl, fun h => absurd h (by omega), fun _ => rfl⟩
  obtain ⟨i, hi, hi', hsize⟩ := getSlabCacheForSize_some hle
  rw [hi] at h
  cases h
  refine ⟨c1, c1.objsize i, hr, rfl, fun _ => ?_, fun h => absurd h (by omega)⟩
  rcases kmalloc_cases hr with ⟨-, rfl, -, -⟩ | ⟨h, -⟩ | ⟨h, -⟩ | ⟨-, -, -, hsizes, -⟩
  · exact absurd rfl hptr
  · omega
  · simp only [frameSize] at h
    omega
  · rw [hsizes, hc.ready.2 i hi']
    exact hsize

/-- `kzalloc` clears all of a block exactly if it is at most a page, or so large that there is no
block. -/
theorem kzalloc_zeroes_iff {size : ℕ} (hlt : size < 2 ^ 32) :
    ZeroesAll size ↔ size ≤ frameSize ∨ (maxPhysframes * frameSize < size ∧ size ≤ 0xFFFFF000) := by
  constructor
  · intro hall
    by_contra hno
    simp only [not_or, not_and, not_le] at hno
    obtain ⟨hbig, hno⟩ := hno
    have hn : hugePages size ≤ maxPhysframes := by
      rcases Nat.lt_or_ge 0xFFFFF000 size with hwrap | hle
      · rw [hugePages_of_wrap hwrap hlt]
        exact Nat.zero_le _
      · rw [hugePages_eq hle]
        simp only [maxPhysframes, frameSize] at hno ⊢
        omega
    -- the first request after boot, in memory that is not zero
    obtain ⟨fm, hfm⟩ := exists_bootFrames
    have hstart := bootHeap_start false hfm
    have hroom : fm.Room (hugePages size + 1) := (room_bootFrames hfm).mono (by
      simp only [maxPhysframes] at hn
      omega)
    obtain ⟨base, hrange, -, mem', h', heq, -, hmem⟩ := hugeAllocation_some false
      (fun _ => 0xFF#8) (bootHeap_intact hfm).kernel hn (bootMmu_range hn) hroom
    have hbase : base ≠ 0 := by
      have := hrange.lower
      simp only [kernelVMBase] at this
      omega
    have hz : kzalloc (hugeSource false true) size
        ({ (bootHeap fm).caches with mem := fun _ => 0xFF#8 }, (bootHeap fm).pages)
          = some (base, { (bootHeap fm).caches with mem := kzeromem base frameSize mem' }, h') := by
      unfold kzalloc
      rw [kmalloc_huge false true hbig, heq]
      simp only [map_some, if_neg hbase, getSlabCacheForSize_none
        (show 1024 < size by simp only [frameSize] at hbig; omega)]
    have hbyte := hall false true (bootHeap fm) ⟨_, [], hstart, rfl⟩ (fun _ => 0xFF#8)
      (fun x hx => by rw [show (bootHeap fm).pages.mmu = bootMmu from rfl, bootMmu_unmapped x] at hx
                      cases hx) base _ h' hz hbase frameSize hbig
    simp only [kzeromem_of_le le_rfl, hmem _ (.inr le_rfl)] at hbyte
    exact absurd hbyte (by decide)
  · rintro hsize debug pge s hs mem - ptr c p h hptr k hk
    have hsizes : SizesSet { s.caches with mem } := hs.sizesSet
    obtain ⟨c₁, n, hmalloc, hmem, hsmall, hlarge⟩ := kzalloc_cases hsizes hptr h
    rcases hsize with hpage | ⟨hbig, hle⟩
    · rw [hmem]
      refine kzeromem_apply ?_ _
      rcases Nat.lt_or_ge 1024 size with hlt' | hle'
      · rw [hlarge hlt']
        omega
      · exact hk.trans_le (hsmall hle')
    · -- no block is handed out
      exfalso
      have hbig' : frameSize < size := lt_of_le_of_lt (by decide) hbig
      rw [kmalloc_huge debug pge hbig', hugeAllocation_null debug mem (.inl ?_)] at hmalloc
      · exact hptr (Prod.mk.inj (some.inj hmalloc)).1.symm
      · rw [hugePages_eq hle]
        simp only [maxPhysframes, frameSize] at hbig ⊢
        omega

theorem kzalloc_zeroes_iff_page : ZeroesAll 4096 :=
  (kzalloc_zeroes_iff (by decide)).2 (.inl le_rfl)

/-- Two pages asked for when memory is not zero: the second page is as it was. -/
theorem kzalloc_leaves_page :
    ∃ s ptr c p, HeapReached false true s
      ∧ kzalloc (hugeSource false true) 0x2000 (s.caches, s.pages) = some (ptr, c, p)
      ∧ ptr ≠ 0 ∧ c.mem (ptr + 0x1000) = 0xFF#8 := by
  have hrun : ((initFrameManager 4 threeFrames).bind fun m =>
      (kzalloc (hugeSource false true) 0x2000
        (.blank fun _ => 0xFF#8, (bootHeap m).pages)).map fun r =>
          (decide (r.1 ≠ 0), r.2.1.mem (r.1 + 0x1000))) = some (true, 0xFF#8) := by decide +kernel
  obtain ⟨m, hm, hrun⟩ := bind_eq_some_iff.1 hrun
  obtain ⟨⟨ptr, c, p⟩, hz, hrun⟩ := map_eq_some_iff.1 hrun
  simp only [Prod.mk.injEq, decide_eq_true_eq] at hrun
  have hstart := bootHeap_start false hm
  refine ⟨⟨.blank fun _ => 0xFF#8, (bootHeap m).pages, []⟩, ptr, c, p, ⟨_, [], ?_, rfl⟩, hz, hrun⟩
  exact ⟨hstart.frames, hstart.kernel, hstart.bitmap, hstart.unmapped, ⟨_, rfl⟩, rfl⟩

end Zeroed

end DragonWare
