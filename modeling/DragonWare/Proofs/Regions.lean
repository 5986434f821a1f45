import DragonWare.Proofs.Frame

/-!
# What the region table offers

Every address of a region that `AddMemoryRegions` emits is a byte of a usable entry, in a frame
clear of every reserved chunk (`addMemoryRegions_clean`). Nothing rounds an entry's own bounds
(`bootFrames_clean`).
-/

namespace DragonWare

open BitVec FrameManager List Option

variable {regions table : List MemoryRegion} {j : ℕ} {c : ReservedRegion}

section Carve

/-- The frame around address `j` meets nothing of the chunk. -/
def ReservedRegion.Clear (c : ReservedRegion) (j : ℕ) : Prop :=
  j / frameSize * frameSize + frameSize ≤ c.start.toNat ∨ c.stop.toNat ≤ j / frameSize * frameSize

def ReservedRegion.Aligned (c : ReservedRegion) : Prop :=
  c.start.toNat % frameSize = 0 ∧ c.stop.toNat % frameSize = 0

theorem ReservedRegion.Aligned.clear_of_stop_le (h : c.Aligned)
    (hj : c.stop.toNat ≤ j) : c.Clear j := by
  right
  have := h.2
  simp only [frameSize] at *
  omega

theorem ReservedRegion.Aligned.clear_of_lt_start (h : c.Aligned)
    (hj : j < c.start.toNat) : c.Clear j := by
  left
  have := h.1
  simp only [frameSize] at *
  omega

theorem alignDown_toNat (x : BitVec 32) :
    (alignDown x).toNat = x.toNat / frameSize * frameSize := by
  unfold alignDown
  have := x.isLt
  rw [toNat_mul, toNat_udiv, frameSize]
  simp only [toNat_ofNat, Nat.reducePow, Nat.reduceMod]
  omega

theorem pageAlign_toNat {x : BitVec 32} (hx : x.toNat ≤ 0xFFFFF000) :
    (pageAlign x).toNat = (x.toNat + 0xFFF) / frameSize * frameSize := by
  unfold pageAlign
  rw [toNat_mul, toNat_udiv, toNat_add, frameSize]
  simp only [toNat_ofNat, Nat.reducePow, Nat.reduceMod]
  omega

theorem pageAlign_aligned (x : BitVec 32) : (pageAlign x).toNat % frameSize = 0 := by
  unfold pageAlign
  rw [toNat_mul, toNat_udiv, toNat_add, frameSize]
  simp only [toNat_ofNat, Nat.reducePow, Nat.reduceMod]
  omega

/-- Every address of the region lies in `[lo, hi)`, in a frame clear of all chunks. -/
def MemoryRegion.Clean (r : MemoryRegion) (chunks : List ReservedRegion) (lo hi : ℕ) : Prop :=
  ∀ j, r.start.toNat ≤ j → j < r.stop.toNat → lo ≤ j ∧ j < hi ∧ ∀ c ∈ chunks, c.Clear j

theorem stop_of_sub (type : MemoryRegionType) (a b : BitVec 32) :
    (⟨true, a, b - a, type⟩ : MemoryRegion).stop = b := by
  simp only [MemoryRegion.stop]
  ring

theorem mem_pushRegion {r r' : MemoryRegion}
    (h : r' ∈ pushRegion table r) : r' ∈ table ∨ r' = r := by
  unfold pushRegion at h
  split_ifs at h
  · simpa using h
  · exact .inl h

variable {chunks : List ReservedRegion} {P : MemoryRegion → Prop} {k : KernelImage} {bi : BootInfo}
  {e : MultibootMMapEntry} {Q : ℕ → Prop}

/-- The loop over the chunks still to come: what it emits is clean, and so is what is left from
where it stops to the end of the entry. -/
theorem carve_spec (type : MemoryRegionType) (regionEnd : BitVec 32) (lo : ℕ)
    (hal : ∀ c ∈ chunks, c.Aligned)
    (hP : ∀ r : MemoryRegion, r.Clean chunks lo regionEnd.toNat → P r) :
    ∀ (cs : List ReservedRegion) (curr : BitVec 32) (table : List MemoryRegion),
      (cs.Pairwise fun a b => a.start.toNat ≤ b.start.toNat) → (∀ c ∈ cs, c ∈ chunks) →
      (∀ c ∈ chunks, c ∈ cs ∨ c.stop.toNat ≤ curr.toNat) → lo ≤ curr.toNat →
      (∀ r ∈ table, P r) →
      lo ≤ (carve type regionEnd cs curr table).1.toNat
        ∧ (∀ r ∈ (carve type regionEnd cs curr table).2, P r)
        ∧ ∀ j, (carve type regionEnd cs curr table).1.toNat ≤ j → j < regionEnd.toNat →
            ∀ c ∈ chunks, c.Clear j
  | [], curr, table, _, _, hdone, hlo, htab => by
    refine ⟨hlo, htab, fun j hj _ c hc => ?_⟩
    rcases hdone c hc with h | h
    · cases h
    · exact (hal c hc).clear_of_stop_le (h.trans hj)
  | c :: cs, curr, table, hsort, hmem, hdone, hlo, htab => by
    obtain ⟨hle, hsort'⟩ := pairwise_cons.1 hsort
    have hmem' : ∀ d ∈ cs, d ∈ chunks := fun d hd => hmem d (mem_cons_of_mem _ hd)
    unfold carve
    by_cases hskip : c.stop ≤ curr
    · rw [if_pos hskip]
      refine carve_spec type regionEnd lo hal hP cs curr table hsort' hmem' (fun d hd => ?_) hlo
        htab
      rcases hdone d hd with h | h
      · rcases mem_cons.1 h with rfl | h
        · exact .inr hskip
        · exact .inl h
      · exact .inr h
    by_cases hbreak : regionEnd ≤ c.start
    · rw [if_neg hskip, if_pos hbreak]
      -- every chunk not passed starts at or after the end of the entry
      refine ⟨hlo, htab, fun j hj hj' d hd => ?_⟩
      have hb : regionEnd.toNat ≤ c.start.toNat := hbreak
      rcases hdone d hd with h | h
      · refine (hal d hd).clear_of_lt_start ?_
        rcases mem_cons.1 h with rfl | h
        · omega
        · have := hle d h
          omega
      · exact (hal d hd).clear_of_stop_le (h.trans hj)
    · have hcs : curr < c.stop := BitVec.not_le.1 hskip
      have hcs' : curr.toNat < c.stop.toNat := hcs
      have hce : c.start.toNat < regionEnd.toNat := BitVec.not_le.1 hbreak
      rw [if_neg hskip, if_neg hbreak, if_pos hcs]
      refine carve_spec type regionEnd lo hal hP cs c.stop _ hsort' hmem' (fun d hd => ?_)
        (by omega) ?_
      · rcases hdone d hd with h | h
        · rcases mem_cons.1 h with rfl | h
          · exact .inr le_rfl
          · exact .inl h
        · exact .inr (by omega)
      · split_ifs with hgap
        · intro r hr
          rcases mem_pushRegion hr with hr | rfl
          · exact htab r hr
          refine hP _ fun j hj hj' => ?_
          rw [stop_of_sub] at hj'
          refine ⟨hlo.trans hj, by omega, fun d hd => ?_⟩
          rcases hdone d hd with h | h
          · refine (hal d hd).clear_of_lt_start ?_
            rcases mem_cons.1 h with rfl | h
            · exact hj'
            · have := hle d h
              omega
          · exact (hal d hd).clear_of_stop_le (h.trans hj)
        · exact htab

/-- An address between an entry's start and its cut-off end is a byte of the entry other than its
last, unless the entry is the empty one at 0, whose end wraps to the top. -/
theorem lastByte_bounds (haddr : e.addr.toNat < 0xFFFFFFFF) (hne : e.addr = 0 → e.len ≠ 0)
    (hlo : (e.addr.setWidth 32).toNat ≤ j) (hhi : j < (e.lastByte.setWidth 32).toNat) :
    e.addr.toNat ≤ j ∧ j + 1 < e.addr.toNat + e.len.toNat := by
  have ha : (e.addr.setWidth 32).toNat = e.addr.toNat := by
    rw [toNat_setWidth]
    omega
  have hend : (e.addr + e.len - 1#64).toNat
      = (2 ^ 64 - 1 + (e.addr.toNat + e.len.toNat) % 2 ^ 64) % 2 ^ 64 := by
    rw [toNat_sub, toNat_add]
    simp
  have hlast : (e.lastByte.setWidth 32).toNat ≤ (e.addr + e.len - 1#64).toNat := by
    rw [toNat_setWidth]
    unfold MultibootMMapEntry.lastByte
    split_ifs with h
    · have : 0xFFFFFFFF ≤ (e.addr + e.len - 1#64).toNat := h
      simp only [toNat_ofNat, Nat.reducePow, Nat.reduceMod]
      omega
    · exact Nat.mod_le _ _
  have hlen := e.len.isLt
  rw [ha] at hlo
  refine ⟨hlo, ?_⟩
  by_cases hz : e.addr.toNat + e.len.toNat = 0
  · exfalso
    refine hne (eq_of_toNat_eq ?_) (eq_of_toNat_eq ?_)
    · simp only [ofNat_eq_ofNat, toNat_ofNat]
      omega
    · simp only [ofNat_eq_ofNat, toNat_ofNat]
      omega
  · omega

/-- An address the table may offer: a byte of a usable entry, in a frame clear of all chunks. -/
def UsableByte (entries : List MultibootMMapEntry) (chunks : List ReservedRegion) (j : ℕ) : Prop :=
  (∃ e ∈ entries, e.usable = true ∧ e.addr.toNat ≤ j ∧ j + 1 < e.addr.toNat + e.len.toNat)
    ∧ ∀ c ∈ chunks, c.Clear j

theorem addEntry_clean (hal : ∀ c ∈ chunks, c.Aligned)
    (hsort : chunks.Pairwise fun a b => a.start.toNat ≤ b.start.toNat)
    (hbyte : e.usable = true → ∀ j, (e.addr.setWidth 32).toNat ≤ j →
      j < (e.lastByte.setWidth 32).toNat → (∀ c ∈ chunks, c.Clear j) → Q j)
    (htab : ∀ r ∈ table, ∀ j, r.start.toNat ≤ j → j < r.stop.toNat → Q j) :
    ∀ r ∈ addEntry chunks table e, ∀ j, r.start.toNat ≤ j → j < r.stop.toNat → Q j := by
  unfold addEntry
  split_ifs with hu
  · simp only []
    obtain ⟨hlo, htab', hrest⟩ := carve_spec (.ofCode e.type) (e.lastByte.setWidth 32)
      (e.addr.setWidth 32).toNat
      (P := fun r => ∀ j, r.start.toNat ≤ j → j < r.stop.toNat → Q j) hal
      (fun r hr j hj hj' => hbyte hu j (hr j hj hj').1 (hr j hj hj').2.1 (hr j hj hj').2.2)
      chunks (e.addr.setWidth 32) table hsort (fun _ h => h) (fun _ h => .inl h) le_rfl htab
    split_ifs with hlt
    · intro r hr
      rcases mem_pushRegion hr with hr | rfl
      · exact htab' r hr
      · intro j hj hj'
        rw [stop_of_sub] at hj'
        exact hbyte hu j (hlo.trans hj) hj' (hrest j hj hj')
    · exact htab'
  · exact htab

theorem addEntries_clean {Q : ℕ → Prop} (hal : ∀ c ∈ chunks, c.Aligned)
    (hsort : chunks.Pairwise fun a b => a.start.toNat ≤ b.start.toNat) :
    ∀ (es : List MultibootMMapEntry) (table : List MemoryRegion),
      (∀ e ∈ es, e.addr.toNat < 0xFFFFFFFF → e.usable = true → ∀ j,
        (e.addr.setWidth 32).toNat ≤ j → j < (e.lastByte.setWidth 32).toNat →
          (∀ c ∈ chunks, c.Clear j) → Q j) →
      (∀ r ∈ table, ∀ j, r.start.toNat ≤ j → j < r.stop.toNat → Q j) →
      ∀ r ∈ addEntries chunks es table, ∀ j, r.start.toNat ≤ j → j < r.stop.toNat → Q j
  | [], _, _, htab => htab
  | e :: es, table, hbyte, htab => by
    obtain ⟨he, hes⟩ := forall_mem_cons.1 hbyte
    unfold addEntries
    split_ifs with haddr
    · exact addEntries_clean hal hsort es table hes htab
    have hclean := addEntry_clean hal hsort (he (BitVec.not_le.1 haddr)) htab
    simp only []
    split_ifs
    · exact hclean
    · exact addEntries_clean hal hsort es _ hes hclean

theorem reservedChunks_aligned (k : KernelImage) (bi : BootInfo) :
    ∀ c ∈ reservedChunks k bi, c.Aligned := by
  have h : ∀ a b : BitVec 32, (⟨alignDown a, pageAlign b⟩ : ReservedRegion).Aligned := fun a b => by
    refine ⟨?_, pageAlign_aligned b⟩
    rw [alignDown_toNat]
    exact Nat.mul_mod_left _ _
  intro c hc
  rcases mem_cons.1 hc with rfl | hc
  · exact h _ _
  · obtain ⟨m, -, rfl⟩ := List.mem_map.1 hc
    exact h _ _

/-- Every address of the table is one of an entry, in a frame clear of the kernel and of the modules
that were registered as reserved. -/
theorem addMemoryRegions_spec
    (hbyte : ∀ e ∈ bi.mmap.getD [], e.addr.toNat < 0xFFFFFFFF → e.usable = true → ∀ j,
      (e.addr.setWidth 32).toNat ≤ j → j < (e.lastByte.setWidth 32).toNat →
        (∀ c ∈ reservedChunks k bi, c.Clear j) → Q j) (h : addMemoryRegions k bi = some regions) :
    ∀ r ∈ regions, ∀ j, r.start.toNat ≤ j → j < r.stop.toNat → Q j := by
  obtain ⟨entries, hmap, rfl⟩ := map_eq_some_iff.1 h
  rw [hmap, getD_some] at hbyte
  set chunks := reservedChunks k bi
  have hperm : (sortReservedChunks chunks).Perm chunks := BubbleSort.bubbleSort_perm _ _ _
  have hsort := BubbleSort.bubbleSort_sorted (fun c : ReservedRegion => c.start.toNat)
    (chunks.length - 1) chunks (by omega)
  have hal := reservedChunks_aligned k bi
  refine addEntries_clean (fun c hc => hal c (hperm.subset hc)) hsort entries []
    (fun e he haddr hu j hlo hhi hc => ?_) (by simp)
  exact hbyte e he haddr hu j hlo hhi fun c hc' => hc c (hperm.symm.subset hc')

theorem addMemoryRegions_clean (hne : ∀ e ∈ bi.mmap.getD [], e.addr = 0 → e.len ≠ 0)
    (h : addMemoryRegions k bi = some regions) :
    ∀ r ∈ regions, ∀ j, r.start.toNat ≤ j → j < r.stop.toNat →
      UsableByte (bi.mmap.getD []) (reservedChunks k bi) j :=
  addMemoryRegions_spec (fun e he haddr hu _ hlo hhi hc =>
    ⟨⟨e, he, hu, lastByte_bounds haddr (hne e he) hlo hhi⟩, hc⟩) h

theorem addMemoryRegions_clear (h : addMemoryRegions k bi = some regions) :
    ∀ r ∈ regions, ∀ j, r.start.toNat ≤ j → j < r.stop.toNat →
      ∀ c ∈ reservedChunks k bi, c.Clear j :=
  addMemoryRegions_spec (fun _ _ _ _ _ _ _ hc => hc) h

end Carve

section Boot

/-- A call sequence after the boot code brought the manager up hands out `f` next. -/
def FrameManager.CanReturn (m : FrameManager) (f : ℕ) : Prop :=
  f ≠ 0 ∧ ∃ debug ops s, Run.exec (frameStep debug) (m, []) ops = some s
    ∧ (s.1.allocateFrame.1 = f ∨ s.1.allocateLowMemory.1 = f)

def bootFrames (fuel : ℕ) (k : KernelImage) (bi : BootInfo) : Option FrameManager :=
  (addMemoryRegions k bi).bind (initFrameManager fuel)

theorem offered_of_canReturn {fuel : ℕ} {m : FrameManager} {f : ℕ}
    (hinit : initFrameManager fuel regions = some m) (hf : m.CanReturn f) : Offered regions f := by
  obtain ⟨hne, debug, ops, s, hrun, hf⟩ := hf
  have hI := frameInv_of_run hinit hrun
  rcases hf with rfl | rfl
  · rcases hI.firstFreeFrame (bitmapWords - 8) 8 with ⟨h, -⟩ | ⟨h, -⟩
    · exact absurd h hne
    · exact h
  · rcases hI.firstFreeFrame 8 0 with ⟨h, -⟩ | ⟨h, -⟩
    · exact absurd h hne
    · exact h

def FrameAvoids (f a b : ℕ) : Prop := ∀ j, f ≤ j → j < f + frameSize → j < a ∨ b ≤ j

/-- Whatever the manager can hand out lies inside one usable entry of the map and meets neither
the kernel nor a boot module. -/
def OnlyUnusedRAM (k : KernelImage) (bi : BootInfo) (m : FrameManager) : Prop :=
  ∀ f, m.CanReturn f →
    (∃ e ∈ bi.mmap.getD [], e.usable = true ∧ e.addr.toNat ≤ f
        ∧ f + frameSize ≤ e.addr.toNat + e.len.toNat)
      ∧ FrameAvoids f k.physStart.toNat k.physEnd.toNat
      ∧ ∀ md ∈ bi.modules, FrameAvoids f md.start.toNat md.stop.toNat

theorem frameAvoids_of_clear {x y : BitVec 32} (hy : y.toNat ≤ 0xFFFFF000)
    (h : (⟨alignDown x, pageAlign y⟩ : ReservedRegion).Clear j) :
    FrameAvoids (j / frameSize * frameSize) x.toNat y.toNat := by
  simp only [ReservedRegion.Clear, alignDown_toNat, pageAlign_toNat hy] at h
  intro i hi hi'
  simp only [frameSize] at *
  omega

/-- Whatever the manager can hand out meets a usable entry of the map, stays on this side of each
page-aligned bound of that entry, and avoids the kernel and each of the 63 modules registered as
reserved, unless rounding the module's end up wraps. -/
theorem bootFrames_clean {fuel : ℕ} {k : KernelImage} {bi : BootInfo} {m : FrameManager} {f : ℕ}
    (hboot : bootFrames fuel k bi = some m)
    (hne : ∀ e ∈ bi.mmap.getD [], e.addr = 0 → e.len ≠ 0) (hf : m.CanReturn f) :
    (∃ e ∈ bi.mmap.getD [], e.usable = true
        ∧ (∃ j, f ≤ j ∧ j < f + frameSize ∧ e.addr.toNat ≤ j ∧ j < e.addr.toNat + e.len.toNat)
        ∧ (e.addr.toNat % frameSize = 0 → e.addr.toNat ≤ f)
        ∧ ((e.addr.toNat + e.len.toNat) % frameSize = 0 →
            f + frameSize ≤ e.addr.toNat + e.len.toNat))
      ∧ FrameAvoids f k.physStart.toNat k.physEnd.toNat
      ∧ ∀ md ∈ bi.modules.take (maxReserved - 1), md.stop.toNat ≤ 0xFFFFF000 →
          FrameAvoids f md.start.toNat md.stop.toNat := by
  obtain ⟨regions, hadd, hinit⟩ := bind_eq_some_iff.1 hboot
  obtain ⟨r, hr, -, i, -, hi, rfl⟩ := offered_of_canReturn hinit hf
  set j := r.start.toNat + i * frameSize
  obtain ⟨⟨e, he, hu, hlo, hhi⟩, hclear⟩ :=
    addMemoryRegions_clean hne hadd r hr j (Nat.le_add_right _ _) hi
  refine ⟨⟨e, he, hu, ⟨j, ?_, ?_, hlo, by omega⟩, fun ha => ?_, fun ha => ?_⟩, ?_, ?_⟩
  · exact Nat.div_mul_le_self _ _
  · simp only [frameSize]
    omega
  · simp only [frameSize] at *
    omega
  · simp only [frameSize] at *
    omega
  · refine frameAvoids_of_clear ?_ (hclear _ mem_cons_self)
    have := k.size_le
    rw [KernelImage.physEnd, toNat_add]
    simp only [toNat_ofNat]
    omega
  · intro md hmd hstop
    exact frameAvoids_of_clear hstop
      (hclear _ (mem_cons_of_mem _ (List.mem_map_of_mem hmd)))

/-- Conventional memory that ends in the middle of a page: the last frame reaches past it. -/
def unalignedMap : BootInfo := ⟨0#32, [], some [⟨0x9E000#64, 0x1C00#64, 1#32⟩]⟩

/-- One module more than there is room for, in the only usable entry. -/
def manyModules : BootInfo :=
  ⟨0x8#32, replicate 63 ⟨0x200000#32, 0x200800#32⟩ ++ [⟨0x400000#32, 0x400800#32⟩],
    some [⟨0x400000#64, 0x2000#64, 1#32⟩]⟩

def smallKernel : KernelImage := ⟨0x80000#32, by decide⟩

theorem canReturn_of_eval (fuel : ℕ) (k : KernelImage) (bi : BootInfo) (ops : List FrameOp) (f : ℕ)
    (hne : f ≠ 0)
    (h : ((bootFrames fuel k bi).bind fun m => (Run.exec (frameStep false) (m, []) ops).map
      fun s => if f < 0x100000 then s.1.allocateLowMemory.1 else s.1.allocateFrame.1) = some f) :
    ∃ m, bootFrames fuel k bi = some m ∧ m.CanReturn f := by
  obtain ⟨m, hm, h⟩ := bind_eq_some_iff.1 h
  obtain ⟨s, hs, h⟩ := map_eq_some_iff.1 h
  refine ⟨m, hm, hne, false, ops, s, hs, ?_⟩
  split_ifs at h
  · exact .inr h
  · exact .inl h

theorem not_onlyUnusedRAM :
    (∃ m, bootFrames 4 smallKernel unalignedMap = some m
        ∧ ¬ OnlyUnusedRAM smallKernel unalignedMap m)
      ∧ ∃ m, bootFrames 4 smallKernel manyModules = some m
        ∧ ¬ OnlyUnusedRAM smallKernel manyModules m := by
  constructor
  · obtain ⟨m, hm, hf⟩ := canReturn_of_eval 4 smallKernel unalignedMap [.allocateLowMemory] 0x9F000
      (by decide) (by decide +kernel)
    refine ⟨m, hm, fun h => ?_⟩
    obtain ⟨⟨e, he, -, -, hend⟩, -⟩ := h _ hf
    simp only [unalignedMap, getD_some, mem_singleton] at he
    subst he
    revert hend
    decide
  · obtain ⟨m, hm, hf⟩ := canReturn_of_eval 4 smallKernel manyModules [] 0x400000
      (by decide) (by decide +kernel)
    refine ⟨m, hm, fun h => ?_⟩
    obtain ⟨-, -, hmods⟩ := h _ hf
    have := hmods ⟨0x400000#32, 0x400800#32⟩ (by decide) 0x400000 (by decide) (by decide)
    revert this
    decide

theorem bootFrames_clean_unalignedMap :
    ∃ m, bootFrames 4 smallKernel unalignedMap = some m ∧ m.CanReturn 0x9F000
      ∧ FrameAvoids 0x9F000 0x100000 0x180000 := by
  obtain ⟨m, hm, hf⟩ := canReturn_of_eval 4 smallKernel unalignedMap [.allocateLowMemory] 0x9F000
    (by decide) (by decide +kernel)
  exact ⟨m, hm, hf, (bootFrames_clean hm (by decide) hf).2.1⟩

end Boot

end DragonWare
