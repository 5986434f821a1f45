import DragonWare.Proofs.PageRange
import DragonWare.Proofs.Progress

/-!
# Blocks of several pages

`HugeAllocation` maps as many pages of its range as there are frames for (`mapHugePages_spec`). If
they run out after the first page, the record is read after its page has been unmapped.
-/

namespace DragonWare

open FrameManager HeapPages Memory Mmu Nat Option

section Mapping

variable {a : ℕ}

def SamePage (a b : ℕ) : Prop := pdIndex a = pdIndex b ∧ ptIndex a = ptIndex b

instance (a b : ℕ) : Decidable (SamePage a b) := by
  unfold SamePage
  infer_instance

theorem kernelPage_of_bounds (h1 : kernelVMBase ≤ a) (h2 : a < kernelStackBase) : KernelPage a := by
  simp only [kernelVMBase, kernelStackBase] at h1 h2
  unfold KernelPage pdIndex
  omega

theorem samePage_iff {b : ℕ} (ha : a % frameSize = 0) (hb : b % frameSize = 0) (ha' : a < 2 ^ 32)
    (hb' : b < 2 ^ 32) : SamePage a b ↔ a = b := by
  simp only [frameSize] at ha hb
  unfold SamePage pdIndex ptIndex
  omega

def SameKernelPages (m m' : Mmu) : Prop :=
  ∀ a, KernelPage a → m'.translate m'.cr3 a = m.translate m.cr3 a

theorem SameKernelPages.isVirtualPageMapped {m m' : Mmu} (h : SameKernelPages m m')
    (ha : KernelPage a) : m'.isVirtualPageMapped a = m.isVirtualPageMapped a := by
  rw [isVirtualPageMapped_eq, isVirtualPageMapped_eq, h a ha]

namespace KernelHalf

variable {m : Mmu} {a b : ℕ}

theorem translate (hk : KernelHalf m) (ha : KernelPage a) : m.translate m.cr3 a
    = if entryPresent (m.pte (pdIndex a) (ptIndex a)) then
        some (m.pte (pdIndex a) (ptIndex a)) else none := by
  rw [translate_cr3, lookup_eq, if_pos (hk.present _ ha.1 ha.2)]

theorem translate_write (hk : KernelHalf m) (ha : KernelPage a) (hb : KernelPage b)
    (e : BitVec 32) :
    (m.write (entryFrame (m.pde (pdIndex a))) (ptIndex a) e).translate m.cr3 b
      = if SamePage b a then (if entryPresent e then some e else none)
        else m.translate m.cr3 b := by
  have hk' := hk.write (e := e) ha.1 ha.2 (ptIndex a)
  have hb' := hk'.translate hb
  rw [hk.pte_write ha.1 ha.2 _ hb.1 hb.2] at hb'
  refine hb'.trans ?_
  by_cases hs : SamePage b a
  · have hs' : pdIndex b = pdIndex a ∧ ptIndex b = ptIndex a := hs
    rw [if_pos hs, if_pos hs']
  · have hs' : ¬ (pdIndex b = pdIndex a ∧ ptIndex b = ptIndex a) := hs
    rw [if_neg hs, if_neg hs', hk.translate hb]

theorem map_spec (hk : KernelHalf m) (ha : KernelPage a) (hal : a % frameSize = 0)
    (hun : m.isVirtualPageMapped a = false) {phys : ℕ} (hphys : phys % frameSize = 0)
    (flags : BitVec 32) (hflags : flags.getLsbD 0 = true) (fm : FrameManager) :
    ∃ m', Mmu.mapSinglePage phys a flags m fm = (.ok, m', fm) ∧ KernelHalf m'
      ∧ m'.isVirtualPageMapped a = true
      ∧ ∀ b, KernelPage b → ¬ SamePage b a → m'.translate m'.cr3 b = m.translate m.cr3 b := by
  refine ⟨_, hk.mapSinglePage ha hal hun hphys flags fm, hk.write ha.1 ha.2 _, ?_,
    fun b hb hne => ?_⟩
  · rw [isVirtualPageMapped_eq]
    show isSome ((m.write _ _ _).translate m.cr3 a) = true
    rw [hk.translate_write ha ha, if_pos ⟨rfl, rfl⟩, if_pos (entryPresent_or _ hflags)]
    rfl
  · exact (hk.translate_write ha hb _).trans (if_neg hne)

theorem unmap_spec (hk : KernelHalf m) (ha : KernelPage a) (hal : a % frameSize = 0)
    (debug : Bool) :
    ∃ m', m.unmapSinglePage debug a = some m' ∧ KernelHalf m'
      ∧ m'.isVirtualPageMapped a = false
      ∧ ∀ b, KernelPage b → ¬ SamePage b a → m'.translate m'.cr3 b = m.translate m.cr3 b := by
  unfold unmapSinglePage
  rw [if_neg (fun h => h.2 hal)]
  by_cases hm : m.isVirtualPageMapped a = true
  · rw [hm, if_neg (by decide)]
    refine ⟨_, rfl, hk.write ha.1 ha.2 _, ?_, fun b hb hne => ?_⟩
    · rw [isVirtualPageMapped_eq]
      show isSome ((m.write _ _ _).translate m.cr3 a) = false
      rw [hk.translate_write ha ha, if_pos ⟨rfl, rfl⟩]
      rfl
    · exact (hk.translate_write ha hb _).trans (if_neg hne)
  · rw [Bool.not_eq_true] at hm
    rw [hm, if_pos (by decide)]
    exact ⟨m, rfl, hk, hm, fun _ _ _ => rfl⟩

end KernelHalf

end Mapping

section Range

variable {m : Mmu} {n base : ℕ}

structure FreeRange (m : Mmu) (n base : ℕ) : Prop where
  aligned : base % frameSize = 0
  lower : kernelVMBase ≤ base
  upper : base + n * frameSize ≤ kernelStackBase
  unmapped : ∀ j < n, m.isVirtualPageMapped (base + j * frameSize) = false

theorem FreeRange.kernelPage (h : FreeRange m n base) {j : ℕ} (hj : j < n) :
    KernelPage (base + j * frameSize) ∧ (base + j * frameSize) % frameSize = 0
      ∧ base + j * frameSize < 2 ^ 32 := by
  have h1 := h.aligned
  have h2 := h.upper
  have h3 := h.lower
  have hlt : base + j * frameSize < kernelStackBase := by
    simp only [frameSize] at h2 ⊢
    omega
  refine ⟨kernelPage_of_bounds (by omega) hlt, by simp only [frameSize] at *; omega, ?_⟩
  simp only [kernelStackBase] at hlt
  omega

theorem FreeRange.nextPage (h : FreeRange m n base) {j : ℕ} (hj : j + 1 < n) :
    KernelPage (base + j * frameSize + frameSize)
      ∧ (base + j * frameSize + frameSize) % frameSize = 0
      ∧ base + j * frameSize + frameSize < 2 ^ 32 := by
  have hpage := h.kernelPage hj
  rwa [Nat.succ_mul, ← Nat.add_assoc] at hpage

theorem freeRange_iff {b : ℕ} : FreeRange m n b
    ↔ PagesFree m.isVirtualPageMapped kernelVMBase kernelStackBase n b :=
  ⟨fun ⟨h1, h2, h3, h4⟩ => ⟨h1, h2, h3, h4⟩, fun ⟨h1, h2, h3, h4⟩ => ⟨h1, h2, h3, h4⟩⟩

theorem findFreePageRange_ne_zero (hn : 0 < n)
    (h : m.findFreePageRange kernelVMBase kernelStackBase n ≠ 0) :
    FreeRange m n (m.findFreePageRange kernelVMBase kernelStackBase n)
      ∧ ∀ b, FreeRange m n b → m.findFreePageRange kernelVMBase kernelStackBase n ≤ b := by
  obtain ⟨hfree, hleast⟩ := (findFreePageRange_spec m.isVirtualPageMapped (by decide) (by decide)
    (by decide) (by omega)).2 h
  exact ⟨freeRange_iff.2 hfree, fun b hb => hleast (freeRange_iff.1 hb)⟩

theorem findFreePageRange_eq_zero (hn : 0 < n)
    (h : m.findFreePageRange kernelVMBase kernelStackBase n = 0) : ∀ b, ¬ FreeRange m n b := by
  exact fun b hb => (findFreePageRange_spec m.isVirtualPageMapped (by decide) (by decide)
    (by decide) (by omega)).1 h b (freeRange_iff.1 hb)

end Range

section Loop

variable {base : ℕ}

/-- Pages `i`, …, `i + k - 1` of the range, counted from the one after the record, have been
mapped. -/
structure HugePages (base i k : ℕ) (h h' : HeapPages) : Prop where
  kernel : KernelHalf h'.mmu
  bitmap : h'.bitmap = h.bitmap
  mapped : ∀ j, i ≤ j → j < i + k →
    h'.mmu.isVirtualPageMapped (base + j * frameSize + frameSize) = true
  others : ∀ a, KernelPage a →
    (∀ j, i ≤ j → j < i + k → ¬ SamePage a (base + j * frameSize + frameSize)) →
      h'.mmu.translate h'.mmu.cr3 a = h.mmu.translate h.mmu.cr3 a

theorem mapHugePages_spec {total : ℕ} {m : Mmu} (hrange : FreeRange m total base) :
    ∀ (n i : ℕ) (mem : Mem) (h : HeapPages), i + n + 1 ≤ total → KernelHalf h.mmu →
      (∀ j, i ≤ j → j < i + n →
        h.mmu.isVirtualPageMapped (base + j * frameSize + frameSize) = false) →
      ∃ k ≤ n, ∃ mem' h',
        mapHugePages base n i (mem, h) = (decide (k = n), i + k, mem', h')
          ∧ HugePages base i k h h' ∧ h.frames.Room k ∧ (k < n → ¬ h.frames.Room (k + 1))
          ∧ (k = 0 → h'.mmu = h.mmu
              ∧ (h'.frames = h.frames ∨ h'.frames = h.frames.markFrameReserved 0))
          ∧ ∀ x, (x < physframesEntry base i ∨ physframesEntry base (i + n) ≤ x) → mem' x = mem x
  | 0, i, mem, h, _, hk, _ =>
    ⟨0, le_rfl, mem, h, rfl, ⟨hk, rfl, fun _ _ _ => by omega, fun _ _ _ => rfl⟩, room_zero _,
      fun h => absurd h (lt_irrefl 0), fun _ => ⟨rfl, .inl rfl⟩, fun _ _ => rfl⟩
  | n + 1, i, mem, h, hle, hk, hun => by
    have hentry (p x : ℕ)
        (hx : x < physframesEntry base i ∨ physframesEntry base (i + (n + 1)) ≤ x) :
        writePtr mem (physframesEntry base i) p x = mem x := by
      refine writePtr_of_not_mem ?_
      simp only [physframesEntry] at hx ⊢
      omega
    by_cases h0 : h.frames.allocateFrame.1 = 0
    · -- no frame is left
      refine ⟨0, Nat.zero_le _, _, { h with frames := h.frames.allocateFrame.2 }, ?_,
        ⟨hk, rfl, fun _ _ _ => by omega, fun _ _ _ => rfl⟩, room_zero _,
        fun _ => allocateFrame_eq_zero.1 h0, fun _ => ⟨rfl, .inr ?_⟩, hentry 0⟩
      · simp [mapHugePages, h0]
      · exact congrArg h.frames.markFrameReserved h0
    obtain ⟨f, heq, hlo, hhi, -⟩ := allocateFrame_free h0
    obtain ⟨hpage, hal, hlt⟩ := hrange.nextPage (j := i) (by omega)
    obtain ⟨m', hmap, hk', hmapped, hothers⟩ := hk.map_spec hpage hal (hun i le_rfl (by omega))
      (mul_mod_left f frameSize) (pagePresent ||| pageRW) (by decide)
      h.frames.allocateFrame.2
    have hne (j : ℕ) (hj : i + 1 ≤ j) (hj' : j < i + 1 + n) :
        KernelPage (base + j * frameSize + frameSize)
          ∧ ¬ SamePage (base + j * frameSize + frameSize) (base + i * frameSize + frameSize) := by
      obtain ⟨hpage', hal', hlt'⟩ := hrange.nextPage (j := j) (by omega)
      refine ⟨hpage', ?_⟩
      rw [samePage_iff hal' hal hlt' hlt]
      simp only [frameSize]
      omega
    have hun' (j : ℕ) (hj : i + 1 ≤ j) (hj' : j < i + 1 + n) :
        m'.isVirtualPageMapped (base + j * frameSize + frameSize) = false := by
      obtain ⟨hpage', hne'⟩ := hne j hj hj'
      rw [isVirtualPageMapped_eq, hothers _ hpage' hne', ← isVirtualPageMapped_eq]
      exact hun j (by omega) (by omega)
    obtain ⟨k, hkn, mem', h', hloop, hpages, hroom, hfull, -, hmem⟩ :=
      mapHugePages_spec hrange n (i + 1) (writePtr mem (physframesEntry base i) (f * frameSize))
        { h with mmu := m', frames := h.frames.allocateFrame.2 } (by omega) hk' hun'
    refine ⟨k + 1, by omega, mem', h', ?_, ⟨hpages.kernel, hpages.bitmap, fun j h1 h2 => ?_,
      fun a ha hne' => ?_⟩, .of_allocateFrame h0 hroom, fun hlt hR => ?_,
      fun h => absurd h (by omega), fun x hx => ?_⟩
    · unfold mapHugePages
      simp only [heq] at hmap hloop ⊢
      rw [if_neg (by simp only [frameSize]; omega), hmap]
      simp only [hloop, Nat.add_right_cancel_iff, Prod.mk.injEq, and_true, true_and]
      omega
    · rcases Nat.eq_or_lt_of_le h1 with rfl | hlt'
      · rw [isVirtualPageMapped_eq, hpages.others _ hpage fun j hj hj' hs => ?_,
          ← isVirtualPageMapped_eq]
        · exact hmapped
        · exact (hne j hj (by omega)).2 ⟨hs.1.symm, hs.2.symm⟩
      · exact hpages.mapped j hlt' (by omega)
    · rw [hpages.others a ha fun j h1 h2 => hne' j (by omega) (by omega)]
      exact hothers a ha (hne' i le_rfl (by omega))
    · exact hfull (by omega) (Room.allocateFrame hR).2
    · rw [hmem x ?_, hentry _ x hx]
      simp only [physframesEntry] at hx ⊢
      omega

end Loop

section Call

variable {b base : ℕ} {m : FrameManager}

/-- No frame is free that `InitFrameManager` did not find. -/
def FrameManager.Sound (m : FrameManager) : Prop :=
  ∀ n, Bitmap.testBit m.bitmap n = false → 2 ≤ n ∧ n * frameSize ≤ m.highestAddr

theorem FrameInv.sound {regions : List MemoryRegion} {used : List ℕ}
    (hI : FrameInv regions (m, used)) : m.Sound := by
  intro n hn
  have ho := ((hI.clear n).1 hn).1
  have := ho.bounds.1
  refine ⟨?_, hI.highest _ ho⟩
  simp only [frameSize] at this
  omega

theorem FrameManager.Sound.reserve (hF : m.Sound) (a : ℕ) :
    (m.markFrameReserved a).Sound := fun n hn => hF n ((testBit_markFrameReserved m a n).1 hn).1

theorem FrameManager.Sound.reserve_zero (hF : m.Sound) : m.markFrameReserved 0 = m := by
  have hset : Bitmap.testBit m.bitmap 0 = true := by
    by_contra h
    have := (hF 0 (by simpa using h)).1
    omega
  unfold markFrameReserved
  rw [Nat.zero_div, Bitmap.setBit_of_testBit hset]

structure HeapPages.Intact (h : HeapPages) : Prop where
  kernel : KernelHalf h.mmu
  frames : h.frames.Sound

theorem FrameManager.Sound.freeFrame (hF : m.Sound) (h0 : m.allocateFrame.1 ≠ 0) (debug : Bool) :
    m.allocateFrame.2.freeFrame debug m.allocateFrame.1 = some m := by
  obtain ⟨k, heq, hlo, -, hclear⟩ := allocateFrame_free h0
  have hk : k * frameSize / frameSize = k := Nat.mul_div_cancel _ (by decide)
  have hhigh : ¬ (m.markFrameReserved (k * frameSize)).highestAddr < k * frameSize :=
    not_lt.2 (hF k hclear).2
  have hset : (m.markFrameReserved (k * frameSize)).isFrameAllocated (k * frameSize) = true := by
    simp [isFrameAllocated, markFrameReserved, hk, Bitmap.testBit_setBit (by decide : 0 < 32)]
  rw [heq]
  unfold FrameManager.freeFrame
  rw [if_neg (by simp only [frameSize]; omega), if_neg (by simp only [mul_mod_left]; simp),
    hset]
  simp only [Bool.not_true, Bool.false_eq_true, if_false, some.injEq]
  unfold markFrameAvailable
  rw [if_neg (by simp only [frameSize]; omega), if_neg hhigh]
  unfold markFrameReserved
  simp only [hk, Bitmap.clearBit_setBit (by decide : 0 < 32) hclear]

variable {h : HeapPages} {n a frame : ℕ} (debug : Bool) (mem : Mem)

theorem hugeAllocation_null (hno : maxPhysframes < n ∨ ∀ b, ¬ FreeRange h.mmu (n + 1) b) :
    hugeAllocation debug n (mem, h) = some (0, mem, h) := by
  unfold hugeAllocation
  by_cases hn : maxPhysframes < n
  · rw [if_pos hn]
  have hbase : h.mmu.findFreePageRange kernelVMBase kernelStackBase (n + 1) = 0 := by
    by_contra h0
    exact (hno.resolve_left hn) _ (findFreePageRange_ne_zero (succ_pos n) h0).1
  simp only [if_neg hn, hbase, if_true]

structure HugeBlock (base k : ℕ) (h h' : HeapPages) : Prop where
  kernel : KernelHalf h'.mmu
  bitmap : h'.bitmap = h.bitmap
  mapped : ∀ j ≤ k, h'.mmu.isVirtualPageMapped (base + j * frameSize) = true
  others : ∀ a, KernelPage a → (∀ j ≤ k, ¬ SamePage a (base + j * frameSize)) →
    h'.mmu.translate h'.mmu.cr3 a = h.mmu.translate h.mmu.cr3 a

theorem hugeAllocation_record (hk : KernelHalf h.mmu) (hn : n ≤ maxPhysframes)
    (hb : FreeRange h.mmu (n + 1) b) (hR : h.frames.Room 1) :
    ∃ base, FreeRange h.mmu (n + 1) base ∧ (∀ b, FreeRange h.mmu (n + 1) b → base ≤ b)
      ∧ ∃ k ≤ n, ∃ mem' h', hugeAllocation debug n (mem, h)
          = (if k = n then some (base, mem', h')
            else abandonHugePages debug h.frames.allocateFrame.1 base k (mem', h'))
        ∧ HugeBlock base k h h' ∧ h.frames.Room (k + 1) ∧ (k < n → ¬ h.frames.Room (k + 2))
        ∧ (k = 0 → h'.frames = h.frames.allocateFrame.2
            ∨ h'.frames = h.frames.allocateFrame.2.markFrameReserved 0)
        ∧ (∀ x, (x < base ∨ base + frameSize ≤ x) → mem' x = mem x)
        ∧ ∃ m1, Mmu.mapSinglePage h.frames.allocateFrame.1 base
              (pagePresent ||| pageRW ||| pageGlobal) h.mmu h.frames.allocateFrame.2
            = (.ok, m1, h.frames.allocateFrame.2)
          ∧ mapHugePages base n 0 (kzeromem base 4 mem,
              { h with mmu := m1, frames := h.frames.allocateFrame.2 })
            = (decide (k = n), k, mem', h') ∧ (k = 0 → h'.mmu = m1) := by
  obtain ⟨base, hbase⟩ : ∃ base,
    base = h.mmu.findFreePageRange kernelVMBase kernelStackBase (n + 1) := ⟨_, rfl⟩
  have h0 : base ≠ 0 := fun h0 => findFreePageRange_eq_zero (succ_pos n) (hbase ▸ h0) b hb
  obtain ⟨hrange, hfirst⟩ := findFreePageRange_ne_zero (succ_pos n) (hbase ▸ h0)
  rw [← hbase] at hrange hfirst
  have hf0 : h.frames.allocateFrame.1 ≠ 0 := fun h => allocateFrame_eq_zero.1 h hR
  obtain ⟨f, heq, -, -, -⟩ := allocateFrame_free hf0
  obtain ⟨hpage, hal, hlt⟩ := hrange.kernelPage (succ_pos n)
  have hun := hrange.unmapped 0 (succ_pos n)
  rw [Nat.zero_mul, Nat.add_zero] at hpage hal hlt hun
  obtain ⟨m', hmap, hk', hmapped, hothers⟩ := hk.map_spec hpage hal hun
    (mul_mod_left f frameSize) (pagePresent ||| pageRW ||| pageGlobal) (by decide)
    h.frames.allocateFrame.2
  have hne (j : ℕ) (hj : j < n) : KernelPage (base + j * frameSize + frameSize)
      ∧ ¬ SamePage (base + j * frameSize + frameSize) base := by
    obtain ⟨hpage', hal', hlt'⟩ := hrange.nextPage (j := j) (by omega)
    refine ⟨hpage', ?_⟩
    rw [samePage_iff hal' hal hlt' hlt]
    simp only [frameSize]
    omega
  have hun' (j : ℕ) (_ : 0 ≤ j) (hj : j < 0 + n) :
      m'.isVirtualPageMapped (base + j * frameSize + frameSize) = false := by
    obtain ⟨hpage', hne'⟩ := hne j (by omega)
    rw [isVirtualPageMapped_eq, hothers _ hpage' hne', ← isVirtualPageMapped_eq,
      show base + j * frameSize + frameSize = base + (j + 1) * frameSize by ring]
    exact hrange.unmapped (j + 1) (by omega)
  obtain ⟨k, hkn, mem', h', hloop, hpages, hroom, hfull, hzero, hmem⟩ :=
    mapHugePages_spec hrange n 0 (kzeromem base 4 mem)
      { h with mmu := m', frames := h.frames.allocateFrame.2 } (by omega) hk' hun'
  refine ⟨base, hrange, hfirst, k, hkn, mem', h', ?_, ⟨hpages.kernel, hpages.bitmap,
    fun j hj => ?_, fun a ha hne' => ?_⟩, .of_allocateFrame hf0 hroom, fun hlt' hR' => ?_,
    fun hk0 => (hzero hk0).2, fun x hx => ?_, m', ?_, ?_, fun hk0 => (hzero hk0).1⟩
  · unfold hugeAllocation
    rw [if_neg (not_lt.2 hn)]
    simp only [← hbase, if_neg h0, if_neg hf0]
    simp only [heq] at hmap hloop ⊢
    rw [hmap]
    simp only [hloop, Nat.zero_add]
    by_cases hkn' : k = n <;> simp [hkn']
  · rcases Nat.eq_zero_or_pos j with rfl | hpos
    · rw [Nat.zero_mul, Nat.add_zero, isVirtualPageMapped_eq, hpages.others _ hpage ?_,
        ← isVirtualPageMapped_eq]
      · exact hmapped
      · intro i _ hi hs
        exact (hne i (by omega)).2 ⟨hs.1.symm, hs.2.symm⟩
    · obtain ⟨i, rfl⟩ : ∃ i, j = i + 1 := ⟨j - 1, by omega⟩
      rw [show base + (i + 1) * frameSize = base + i * frameSize + frameSize by ring]
      exact hpages.mapped i (Nat.zero_le _) (by omega)
  · rw [hpages.others a ha fun i _ hi => ?_]
    · refine hothers a ha ?_
      have := hne' 0 (Nat.zero_le _)
      rwa [Nat.zero_mul, Nat.add_zero] at this
    · rw [show base + i * frameSize + frameSize = base + (i + 1) * frameSize by ring]
      exact hne' (i + 1) (by omega)
  · exact hfull hlt' (Room.allocateFrame hR').2
  · simp only [maxPhysframes] at hn
    simp only [frameSize] at hx
    rw [hmem x (by simp only [physframesEntry]; omega)]
    unfold kzeromem blit
    rw [if_neg (by omega)]
  · simp only [heq] at hmap ⊢
    exact hmap
  · rw [hloop, Nat.zero_add]

theorem SamePage.translate (hs : SamePage a b) (m : Mmu) :
    m.translate m.cr3 a = m.translate m.cr3 b := by
  rw [translate_cr3, translate_cr3, hs.1, hs.2]

theorem Mmu.translate_of_unmapped {m : Mmu} (h : m.isVirtualPageMapped a = false) :
    m.translate m.cr3 a = none := by
  rw [isVirtualPageMapped_eq] at h
  simpa using h

/-- Pages recorded after the first cannot be given back: the record is not mapped any more. -/
theorem abandonHugePages_stops {k : ℕ} (hk : KernelHalf h.mmu) (hbase : KernelPage base)
    (hal : base % frameSize = 0) (hmapped : h.mmu.isVirtualPageMapped base = true) (hpos : 0 < k) :
    abandonHugePages debug frame base k (mem, h) = none := by
  rw [eq_none_iff_forall_ne_some]
  rintro r hr
  unfold abandonHugePages at hr
  obtain ⟨frames, -, hr⟩ := bind_eq_some_iff.1 hr
  obtain ⟨m', hm', hr⟩ := bind_eq_some_iff.1 hr
  obtain ⟨t, ht, -⟩ := bind_eq_some_iff.1 hr
  have h0 : base ≠ 0 := by
    rintro rfl
    exact absurd hbase.1 (by decide)
  rw [if_pos ⟨h0, hmapped⟩] at hm'
  obtain ⟨m'', hunmap, -, hun, -⟩ := hk.unmap_spec hbase hal debug
  obtain rfl : m'' = m' := some.inj (hunmap.symm.trans hm')
  obtain ⟨u, u', hu, hround⟩ := Loop.times_round k ht hpos
  obtain rfl := some.inj hu
  simp [hun] at hround

theorem abandonHugePages_zero (frame : ℕ) (frames : FrameManager) (hk : KernelHalf h.mmu)
    (hbase : KernelPage base) (hal : base % frameSize = 0)
    (hframes : (if 0x2000 ≤ frame then h.frames.freeFrame debug frame else some h.frames)
      = some frames) :
    ∃ h', abandonHugePages debug frame base 0 (mem, h) = some (0, mem, h')
      ∧ h'.frames = frames ∧ h'.bitmap = h.bitmap ∧ KernelHalf h'.mmu
      ∧ h'.mmu.isVirtualPageMapped base = false
      ∧ ∀ b, KernelPage b → ¬ SamePage b base →
        h'.mmu.translate h'.mmu.cr3 b = h.mmu.translate h.mmu.cr3 b := by
  have h0 : base ≠ 0 := by
    rintro rfl
    exact absurd hbase.1 (by decide)
  obtain ⟨m', hunmap, hk', hun, hothers⟩ := hk.unmap_spec hbase hal debug
  by_cases hm : h.mmu.isVirtualPageMapped base = true
  · refine ⟨{ h with mmu := m', frames }, ?_, rfl, rfl, hk', hun, hothers⟩
    simp [abandonHugePages, hframes, h0, hm, hunmap, Loop.times]
  · refine ⟨{ h with frames }, ?_, rfl, rfl, hk, by simpa using hm, fun _ _ _ => rfl⟩
    simp [abandonHugePages, hframes, hm, Loop.times]

theorem hugeAllocation_noFrame (hn : n ≤ maxPhysframes) (hb : FreeRange h.mmu (n + 1) b)
    (hR : ¬ h.frames.Room 1) : hugeAllocation debug n (mem, h)
      = some (0, mem, { h with frames := h.frames.allocateFrame.2 }) := by
  have h0 : h.frames.allocateFrame.1 = 0 := allocateFrame_eq_zero.2 hR
  obtain ⟨base, hbase⟩ : ∃ base,
    base = h.mmu.findFreePageRange kernelVMBase kernelStackBase (n + 1) := ⟨_, rfl⟩
  have hne : base ≠ 0 := fun h0 =>
    findFreePageRange_eq_zero (succ_pos n) (hbase ▸ h0) b hb
  obtain ⟨hrange, -⟩ := findFreePageRange_ne_zero (succ_pos n) (hbase ▸ hne)
  rw [← hbase] at hrange
  have hun := hrange.unmapped 0 (succ_pos n)
  rw [Nat.zero_mul, Nat.add_zero] at hun
  unfold hugeAllocation abandonHugePages
  rw [if_neg (not_lt.2 hn)]
  simp [← hbase, hne, h0, hun, Loop.times]

theorem hugeAllocation_restores (hI : h.Intact) (hn : n ≤ maxPhysframes)
    (hb : FreeRange h.mmu (n + 1) b) (hfew : ¬ h.frames.Room (n + 1)) (htwo : ¬ h.frames.Room 2) :
    ∃ mem' h', hugeAllocation debug n (mem, h) = some (0, mem', h')
      ∧ h'.frames = h.frames ∧ SameKernelPages h.mmu h'.mmu := by
  obtain ⟨hk, hF⟩ := hI
  by_cases hR : h.frames.Room 1
  · obtain ⟨base, hrange, -, k, hkn, mem', h', heq, hblock, hroom, -, hzero, -⟩ :=
      hugeAllocation_record debug mem hk hn hb hR
    have hk0 : k = 0 := by
      by_contra hne
      exact htwo (hroom.mono (by omega))
    subst hk0
    have hn0 : 0 ≠ n := by
      rintro rfl
      exact hfew hR
    obtain ⟨hpage, hal, -⟩ := hrange.kernelPage (succ_pos n)
    have hun := hrange.unmapped 0 (succ_pos n)
    rw [Nat.zero_mul, Nat.add_zero] at hpage hal hun
    have hf0 : h.frames.allocateFrame.1 ≠ 0 := fun h => allocateFrame_eq_zero.1 h hR
    have hframes : h'.frames = h.frames.allocateFrame.2 := by
      rcases hzero rfl with h1 | h1
      · exact h1
      · rw [h1]
        exact (hF.reserve _).reserve_zero
    obtain ⟨f, hf, hlo, -, -⟩ := allocateFrame_free hf0
    have hlow : 0x2000 ≤ h.frames.allocateFrame.1 := by
      rw [hf]
      simp only [frameSize]
      omega
    obtain ⟨h'', hab, hfr, -, -, hun', hothers⟩ := abandonHugePages_zero debug mem'
      h.frames.allocateFrame.1 h.frames hblock.kernel hpage hal
      (by rw [if_pos hlow, hframes]; exact hF.freeFrame hf0 debug)
    refine ⟨mem', h'', by rw [heq, if_neg hn0, hab], hfr, fun a ha => ?_⟩
    by_cases hs : SamePage a base
    · rw [hs.translate, hs.translate, translate_of_unmapped hun, translate_of_unmapped hun']
    rw [hothers a ha hs]
    refine hblock.others a ha fun j hj => ?_
    obtain rfl : j = 0 := by omega
    rwa [Nat.zero_mul, Nat.add_zero]
  · have h0 : h.frames.allocateFrame.1 = 0 := allocateFrame_eq_zero.2 hR
    have hres : h.frames.allocateFrame.2 = h.frames := by
      have : h.frames.allocateFrame.2 = h.frames.markFrameReserved 0 :=
        congrArg h.frames.markFrameReserved h0
      rw [this, hF.reserve_zero]
    refine ⟨mem, h, ?_, rfl, fun _ _ => rfl⟩
    rw [hugeAllocation_noFrame debug mem hn hb hR, hres]

theorem hugeAllocation_stops (hk : KernelHalf h.mmu) (hn : n ≤ maxPhysframes)
    (hb : FreeRange h.mmu (n + 1) b) (htwo : h.frames.Room 2) (hfew : ¬ h.frames.Room (n + 1)) :
    hugeAllocation debug n (mem, h) = none := by
  obtain ⟨base, hrange, -, k, hkn, mem', h', heq, hblock, hroom, hfull, -, -⟩ :=
    hugeAllocation_record debug mem hk hn hb (htwo.mono (by omega))
  have hk' : k ≠ n := by
    rintro rfl
    exact hfew hroom
  have hpos : 0 < k := by
    by_contra h0
    exact hfull (by omega) (htwo.mono (by omega))
  obtain ⟨hpage, hal, -⟩ := hrange.kernelPage (succ_pos n)
  have hmapped := hblock.mapped 0 (Nat.zero_le _)
  rw [Nat.zero_mul, Nat.add_zero] at hpage hal hmapped
  rw [heq, if_neg hk']
  exact abandonHugePages_stops debug mem' hblock.kernel hpage hal hmapped hpos

theorem hugeAllocation_some (hk : KernelHalf h.mmu) (hn : n ≤ maxPhysframes)
    (hb : FreeRange h.mmu (n + 1) b) (hR : h.frames.Room (n + 1)) :
    ∃ base, FreeRange h.mmu (n + 1) base ∧ (∀ b, FreeRange h.mmu (n + 1) b → base ≤ b)
      ∧ ∃ mem' h', hugeAllocation debug n (mem, h) = some (base, mem', h')
        ∧ HugeBlock base n h h' ∧ ∀ x, (x < base ∨ base + frameSize ≤ x) → mem' x = mem x := by
  obtain ⟨base, hrange, hfirst, k, hkn, mem', h', heq, hblock, -, hfull, -, hmem, -⟩ :=
    hugeAllocation_record debug mem hk hn hb (hR.mono (by omega))
  obtain rfl : k = n := by
    by_contra hne
    exact hfull (by omega) (hR.mono (by omega))
  rw [if_pos rfl] at heq
  exact ⟨base, hrange, hfirst, mem', h', heq, hblock, hmem⟩

theorem abandonHugePages_fst {k : ℕ} {r : ℕ × Mem × HeapPages}
    (hr : abandonHugePages debug frame base k (mem, h) = some r) : r.1 = 0 := by
  unfold abandonHugePages at hr
  obtain ⟨frames, -, hr⟩ := bind_eq_some_iff.1 hr
  obtain ⟨m', -, hr⟩ := bind_eq_some_iff.1 hr
  obtain ⟨t, -, hr⟩ := bind_eq_some_iff.1 hr
  rw [← some.inj hr]

theorem hugeAllocation_inv (hk : KernelHalf h.mmu) {ptr : ℕ} {mem' : Mem} {h' : HeapPages}
    (heq : hugeAllocation debug n (mem, h) = some (ptr, mem', h')) (hptr : ptr ≠ 0) :
    n ≤ maxPhysframes ∧ h.frames.Room (n + 1) ∧ FreeRange h.mmu (n + 1) ptr
      ∧ (∀ b, FreeRange h.mmu (n + 1) b → ptr ≤ b) ∧ HugeBlock ptr n h h'
      ∧ ∀ x, (x < ptr ∨ ptr + frameSize ≤ x) → mem' x = mem x := by
  by_cases hnull : maxPhysframes < n ∨ ∀ b, ¬ FreeRange h.mmu (n + 1) b
  · rw [hugeAllocation_null debug mem hnull] at heq
    exact absurd (Prod.mk.inj (some.inj heq)).1.symm hptr
  simp only [not_or, not_lt, not_forall, not_not] at hnull
  obtain ⟨hn, b, hb⟩ := hnull
  by_cases hR : h.frames.Room (n + 1)
  · obtain ⟨base, hrange, hfirst, mem1, h1, heq1, hblock, hmem⟩ :=
      hugeAllocation_some debug mem hk hn hb hR
    obtain ⟨rfl, hrest⟩ := Prod.mk.inj (some.inj (heq1.symm.trans heq))
    obtain ⟨rfl, rfl⟩ := Prod.mk.inj hrest
    exact ⟨hn, hR, hrange, hfirst, hblock, hmem⟩
  -- without a frame for each page, what is returned is null
  exfalso
  by_cases hone : h.frames.Room 1
  · obtain ⟨base, -, -, k, -, mem1, h1, heq1, -, hroom, -⟩ :=
      hugeAllocation_record debug mem hk hn hb hone
    have hk' : k ≠ n := by
      rintro rfl
      exact hR hroom
    rw [heq1, if_neg hk'] at heq
    exact hptr (abandonHugePages_fst debug _ heq)
  · have h0 : h.frames.allocateFrame.1 = 0 := allocateFrame_eq_zero.2 hone
    unfold hugeAllocation at heq
    simp only [if_neg (not_lt.2 hn), h0, if_true] at heq
    split_ifs at heq
    · exact hptr (Prod.mk.inj (some.inj heq)).1.symm
    · exact hptr (abandonHugePages_fst debug _ heq)

end Call

end DragonWare
