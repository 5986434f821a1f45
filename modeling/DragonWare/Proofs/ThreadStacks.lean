import DragonWare.Proofs.HugeAllocation
import DragonWare.Proofs.Teardown
import DragonWare.Threads

/-!
# Kernel stacks of threads

`CreateThread` takes two frames before it knows where to put them, and keeps them when there is no
place. A thread that was created keeps its stack for good (`thread_stack_conserved_iff`).
-/

namespace DragonWare

open Fallible Function List Mmu Option Vm

/-! ### Where a stack goes -/

namespace Mmu

variable {m : Mmu} {addr a : ℕ}

def FreeStack (m : Mmu) (addr a : ℕ) : Prop :=
  (∃ k, a = addr + 2 * k * frameSize) ∧ a + 2 * frameSize ≤ kernelStackEnd
    ∧ m.isVirtualPageMapped a = false ∧ m.isVirtualPageMapped (a + frameSize) = false

theorem FreeStack.le (h : m.FreeStack addr a) : addr ≤ a := by
  obtain ⟨⟨k, rfl⟩, -⟩ := h
  exact Nat.le_add_right ..

theorem freeStack_iff : m.FreeStack addr a ↔ m.FreeStack (addr + 2 * frameSize) a
    ∨ a = addr ∧ m.FreeStack addr addr := by
  constructor
  · rintro ⟨⟨_ | k, rfl⟩, h⟩
    · exact .inr ⟨by ring, ⟨0, by ring⟩, by simpa using h⟩
    · exact .inl ⟨⟨k, by ring⟩, h⟩
  · rintro (⟨⟨k, rfl⟩, h⟩ | ⟨rfl, h⟩)
    · exact ⟨⟨k + 1, by ring⟩, h⟩
    · exact h

theorem getNextProcessStackAddress_eq (m : Mmu) (addr : ℕ) : m.getNextProcessStackAddress addr
    = if addr + 2 * frameSize ≤ kernelStackEnd then
        if m.isVirtualPageMapped addr || m.isVirtualPageMapped (addr + frameSize) then
          m.getNextProcessStackAddress (addr + 2 * frameSize) else some addr else none := by
  have hconflict : ((range kernelStackSizePages).any fun i =>
      m.isVirtualPageMapped (addr + i * frameSize))
        = (m.isVirtualPageMapped addr || m.isVirtualPageMapped (addr + frameSize)) := by
    simp [kernelStackSizePages, range_succ]
  rw [getNextProcessStackAddress.eq_def, hconflict]
  by_cases hend : addr + kernelStackSizePages * frameSize ≤ kernelStackEnd
  · rw [if_pos hend, if_pos (show addr + 2 * frameSize ≤ kernelStackEnd from hend)]
    cases m.isVirtualPageMapped addr || m.isVirtualPageMapped (addr + frameSize)
    · simp only [Bool.not_false, Bool.false_eq_true, if_false, if_true]
    · simp only [Bool.not_true, Bool.false_eq_true, if_false, if_true, kernelStackSizePages]
  · rw [if_neg hend, if_neg (show ¬ addr + 2 * frameSize ≤ kernelStackEnd from hend)]

theorem getNextStackAddress_spec (m : Mmu) (addr : ℕ) :
    (∃ a, m.getNextProcessStackAddress addr = some a ∧ m.getNextThreadStackAddress addr = a
        ∧ IsLeast {x | m.FreeStack addr x} a)
      ∨ m.getNextProcessStackAddress addr = none ∧ m.getNextThreadStackAddress addr = 0 := by
  induction addr using getNextThreadStackAddress.induct m with
  | case1 addr hend hfree =>
    simp only [Bool.and_eq_true, Bool.not_eq_true'] at hfree
    have haddr : m.FreeStack addr addr := ⟨⟨0, by ring⟩, hend, hfree⟩
    refine .inl ⟨addr, ?_, ?_, haddr, fun x hx => hx.le⟩
    · rw [getNextProcessStackAddress_eq, if_pos hend, if_neg (by simp [hfree])]
    · rw [getNextThreadStackAddress.eq_def, if_pos hend, if_pos (by simp [hfree])]
  | case2 addr hend hfree ih =>
    have hmapped : (m.isVirtualPageMapped addr || m.isVirtualPageMapped (addr + frameSize))
        = true := by
      simpa [or_iff_not_imp_left] using hfree
    have hnot : ¬ m.FreeStack addr addr := fun h => by simp [h.2.2.1, h.2.2.2] at hmapped
    have hsame : {x | m.FreeStack addr x} = {x | m.FreeStack (addr + 2 * frameSize) x} := by
      ext x
      exact freeStack_iff.trans (or_iff_left fun h => hnot h.2)
    rwa [getNextProcessStackAddress_eq, if_pos hend, if_pos hmapped,
      getNextThreadStackAddress.eq_def, if_pos hend, if_neg hfree, hsame]
  | case3 addr hend =>
    refine .inr ⟨?_, ?_⟩
    · rw [getNextProcessStackAddress_eq, if_neg hend]
    · rw [getNextThreadStackAddress.eq_def, if_neg hend]

/-- The copies agree on the place of the next stack, the lowest there is, and on there being
none. -/
theorem kernelStack_searches_agree (m : Mmu) :
    (∀ a, m.getNextProcessStackAddress kernelStackBase = some a
        ↔ m.getNextThreadStackAddress kernelStackBase = a ∧ a ≠ 0)
      ∧ (∀ a, m.getNextProcessStackAddress kernelStackBase = some a →
        IsLeast {x | m.FreeStack kernelStackBase x} a)
      ∧ (m.getNextProcessStackAddress kernelStackBase = none
        ↔ m.getNextThreadStackAddress kernelStackBase = 0) := by
  rcases m.getNextStackAddress_spec kernelStackBase with ⟨a, hp, ht, hleast⟩ | ⟨hp, ht⟩
  · have hpos : a ≠ 0 := by
      have := hleast.1.le
      simp only [kernelStackBase] at this
      omega
    rw [hp, ht]
    refine ⟨fun b => ?_, fun b hb => some.inj hb ▸ hleast, by simp [hpos]⟩
    rw [some.injEq]
    exact ⟨fun h => ⟨h, h ▸ hpos⟩, And.left⟩
  · rw [hp, ht]
    exact ⟨fun b => ⟨by simp, fun h => absurd h.1.symm h.2⟩, by simp, by simp⟩

end Mmu

theorem Vm.getNextKernelStackAddress_eq (v : Vm) :
    v.getNextKernelStackAddress = v.mmu.getNextProcessStackAddress kernelStackBase := by
  have h : ∀ n addr, addr + n * (2 * frameSize) = kernelStackEnd →
      findKernelStack v.mmu n addr = v.mmu.getNextProcessStackAddress addr := by
    intro n
    induction n with
    | zero =>
      intro addr h
      rw [getNextProcessStackAddress_eq, if_neg (by simp only [frameSize] at *; omega)]
      rfl
    | succ n ih =>
      intro addr h
      rw [getNextProcessStackAddress_eq, if_pos (by simp only [frameSize] at *; omega),
        findKernelStack, ← ih _ (by rw [← h]; ring)]
      rfl
  exact h _ _ (by decide)

namespace Vm

variable {regions : List MemoryRegion} {used l : List ℕ} {v v' : Vm} {debug pge fresh r : Bool}
  {fm : FrameManager} {a : ℕ}

/-- The frame manager's bits and the mappings of the kernel's pages are the same. -/
structure SameMemory (v v' : Vm) : Prop where
  frames : ∀ n, Bitmap.testBit v'.frames.bitmap n = Bitmap.testBit v.frames.bitmap n
  pages : ∀ i ∈ kernelSlots, ∀ j, v'.mmu.lookup i j = v.mmu.lookup i j

/-- `kmalloc` finds a small block: a free one, or room for a new page. -/
def HasBlock (fresh : Bool) (v : Vm) : Prop :=
  fresh = true → v.frames.Room 1
    ∧ ∃ p, v.getHeapPageAddress.map Prod.fst = some p ∧ PageFree v.mmu p

theorem kmallocSmall_cases {b : Bool} (hS : Space regions used v.mmu v.frames)
    (h : v.kmallocSmall debug pge fresh = some (b, v')) :
    b = true ∧ v.HasBlock fresh ∨ b = false ∧ ¬ v.HasBlock fresh ∧ v'.mmu = v.mmu
      ∧ Space regions used v'.mmu v'.frames := by
  unfold kmallocSmall at h
  split_ifs at h with hfresh
  · obtain ⟨r, hr, h⟩ := map_eq_some_iff.1 h
    cases h
    rcases allocateVirtualPage_cases hS hr with ⟨h0, hm, hS', hno⟩ | ⟨h0, hframe, hp, hnone, -⟩
    · refine .inr ⟨by simpa using h0, fun hb => ?_, hm, hS'⟩
      obtain ⟨hroom, p, hp, hfree⟩ := hb hfresh
      rcases hno with hno | ⟨p', hp', hno⟩
      · exact allocateFrame_eq_zero.1 hno hroom
      · obtain rfl := some.inj (hp.symm.trans hp')
        exact hno hfree
    · refine .inl ⟨by simpa using h0, fun _ => ⟨?_, _, hp, hnone⟩⟩
      exact not_not.1 fun hno => hframe (allocateFrame_eq_zero.2 hno)
  · cases h
    exact .inl ⟨rfl, fun hb => absurd hb hfresh⟩

structure ThreadFits (v : Vm) (fresh : Bool) (a : ℕ) : Prop where
  stack : v.frames.Room 2
  block : fresh = true → v.frames.Room 3 ∧ ∃ p, v.getHeapPageAddress.map Prod.fst = some p
    ∧ PageFree v.mmu p ∧ ¬ SamePage p a ∧ ¬ SamePage p (a + frameSize)

theorem take_frame (hI : FrameInv regions (fm, used)) :
    ∃ l, FrameInv regions (fm.allocateFrame.2, l)
      ∧ (fm.allocateFrame.1 ≠ 0 → fm.allocateFrame.1 ∈ l) ∧ l.erase fm.allocateFrame.1 = used
      ∧ used ⊆ l := by
  rcases hI.allocateFrame with ⟨h0, hI'⟩ | ⟨-, -, -, hI'⟩
  · refine ⟨used, hI', fun h => absurd h0 h, erase_of_not_mem fun hu => ?_, fun _ h => h⟩
    have := (hI.live _ hu).bounds.1
    simp [h0, frameSize] at this
  · exact ⟨_, hI', fun _ => mem_cons_self, erase_cons_head .., subset_cons_self ..⟩

theorem give_frame {fm' : FrameManager} {f : ℕ} (hI : FrameInv regions (fm, l)) (hf : f ≠ 0 → f ∈ l)
    (h : (if f ≠ 0 then fm.freeFrame debug f else some fm) = some fm') :
    FrameInv regions (fm', l.erase f) := by
  split_ifs at h with h0
  · obtain ⟨hfree, hI'⟩ := hI.freeFrame debug (hf h0)
    rw [hfree] at h
    cases h
    exact hI'
  cases h
  rwa [erase_of_not_mem]
  intro hl
  have := (hI.live _ hl).bounds.1
  simp [not_not.1 h0, frameSize] at this

theorem room_add_two {n : ℕ} : fm.Room (n + 2) ↔ fm.allocateFrame.1 ≠ 0
    ∧ fm.allocateFrame.2.allocateFrame.1 ≠ 0 ∧ fm.allocateFrame.2.allocateFrame.2.Room n :=
  ⟨fun h => ⟨h.allocateFrame.1, h.allocateFrame.2.allocateFrame⟩,
    fun ⟨h1, h2, h⟩ => .of_allocateFrame h1 (.of_allocateFrame h2 h)⟩

/-- The way out when something has failed, from a state in which at most the stack is mapped and at
most its frames are taken. -/
theorem createThread_bad {u : Vm} {f1 f2 : ℕ} (hI : FrameInv regions (v.frames, used))
    (hS : Space regions l u.mmu u.frames) (h1 : f1 ≠ 0 → f1 ∈ l) (h2 : f2 ≠ 0 → f2 ∈ l.erase f1)
    (hl : (l.erase f1).erase f2 = used) (hv1 : Scratch a) (hv2 : Scratch (a + frameSize))
    (hn1 : PageFree v.mmu a) (hn2 : PageFree v.mmu (a + frameSize))
    (hp : ∀ i < 1023, ∀ j, ¬ (i = pdIndex a ∧ j = ptIndex a) →
      ¬ (i = pdIndex (a + frameSize) ∧ j = ptIndex (a + frameSize)) →
      u.mmu.lookup i j = v.mmu.lookup i j)
    (h : (do
      let frames ← (if f1 ≠ 0 then u.frames.freeFrame debug f1 else some u.frames)
      let frames ← (if f2 ≠ 0 then frames.freeFrame debug f2 else some frames)
      let mmu ← u.mmu.unmapSinglePage debug (a + frameSize)
      let mmu ← mmu.unmapSinglePage debug a
      return (false, { u with mmu, frames }) : Option (Bool × Vm)) = some (r, v')) :
    r = false ∧ SameMemory v v' := by
  obtain ⟨frames1, hf1, h⟩ := bind_eq_some_iff.1 h
  obtain ⟨frames2, hf2, h⟩ := bind_eq_some_iff.1 h
  obtain ⟨m₁, hm1, h⟩ := bind_eq_some_iff.1 h
  obtain ⟨m2, hm2, h⟩ := bind_eq_some_iff.1 h
  cases h
  have hI2 := give_frame (give_frame hS.frames h1 hf1) h2 hf2
  rw [hl] at hI2
  obtain ⟨hS1, -, hl1⟩ := unmapSinglePage_spec hS hv2.pdIndex.2 hm1
  obtain ⟨-, -, hl2⟩ := unmapSinglePage_spec hS1 hv1.pdIndex.2 hm2
  refine ⟨rfl, fun n => ?_, fun i hi j => ?_⟩
  · rw [Bool.eq_iff_iff, ← not_iff_not, Bool.not_eq_true, Bool.not_eq_true, hI2.clear, hI.clear]
  · rw [hl2 i hi.2, hl1 i hi.2]
    split_ifs with hij hij'
    · rw [hij.1, hij.2]
      exact hn1.symm
    · rw [hij'.1, hij'.2]
      exact hn2.symm
    · exact hp i hi.2 j hij hij'

theorem mapSinglePage_free {m : Mmu} {phys virt : ℕ} (hS : Space regions used m fm)
    (hv : Scratch virt) (hphys : phys % frameSize = 0) (hal : virt % frameSize = 0)
    (hnone : PageFree m virt) :
    ∃ m', mapSinglePage phys virt (pagePresent ||| pageRW) m fm = (.ok, m', fm)
      ∧ Space regions used m' fm ∧ m.Extends ∅ used m' used ∧ m'.Shows virt
      ∧ (∀ i < 1023, ∀ j, ¬ (i = pdIndex virt ∧ j = ptIndex virt) → m'.lookup i j = m.lookup i j)
      ∧ ∀ p, pdIndex p < 1023 → (PageFree m' p ↔ PageFree m p ∧ ¬ SamePage p virt) := by
  obtain ⟨m', h⟩ := mapSinglePage_total hS hv.pdIndex hphys hal hnone (pagePresent ||| pageRW)
  obtain ⟨-, hS', hx, -⟩ := mapSinglePage_scratch hS hv h
  obtain ⟨-, -, -, -, hok, -⟩ := mapSinglePage_spec hS hv.pdIndex.2 h
  refine ⟨m', h, hS', hx, mapSinglePage_shows hS hv hphys hal (by decide) h,
    fun i hi j hij => by rw [(hok rfl).2 i hi, if_neg hij], fun p hp => ?_⟩
  unfold PageFree SamePage
  rw [(hok rfl).2 _ hp, if_pos (entryPresent_or _ (by decide))]
  split_ifs with hij <;> simp [hij]

theorem stack_pages_ne (hal : a % frameSize = 0) : ¬ SamePage a (a + frameSize) := by
  simp only [SamePage, pdIndex, ptIndex, frameSize] at hal ⊢
  omega

theorem createThread_cases (hS : Space regions used v.mmu v.frames)
    (ha : v.getNextKernelStackAddress = some a)
    (h : v.createThread debug pge fresh = some (r, v')) :
    r = false ∧ ¬ v.ThreadFits fresh a ∧ SameMemory v v'
      ∨ r = true ∧ v.ThreadFits fresh a ∧ v'.mmu.Shows a ∧ v'.tmpmap = v.tmpmap
        ∧ ∃ used', Space regions used' v'.mmu v'.frames
          ∧ v.mmu.Evolves ∅ used v'.mmu used' := by
  obtain ⟨hv1, hv2⟩ := getNextKernelStackAddress_scratch ha
  obtain ⟨-, -, hal⟩ := getNextKernelStackAddress_bounds ha
  obtain ⟨hn1, hn2⟩ := Bool.or_eq_false_iff.1 (findKernelStack_free ha)
  rw [← pageFree_iff] at hn1 hn2
  have hal2 : (a + frameSize) % frameSize = 0 := by rw [Nat.add_mod_right, hal]
  obtain ⟨l1, hI1, hf1, he1, hsub1⟩ := take_frame hS.frames
  obtain ⟨l2, hI2, hf2, he2, hsub2⟩ := take_frame hI1
  have hphys1 := allocateFrame_mod hS.frames
  have hphys2 := allocateFrame_mod hI1
  unfold createThread at h
  have ha' : getNextKernelStackAddress
      { v with frames := v.frames.allocateFrame.2.allocateFrame.2 } = some a := ha
  simp only [ha'] at h
  have hroom (n : ℕ) : v.frames.Room (n + 2) ↔ _ := room_add_two
  generalize v.frames.allocateFrame.1 = f1 at *
  generalize v.frames.allocateFrame.2.allocateFrame.1 = f2 at *
  generalize v.frames.allocateFrame.2.allocateFrame.2 = frames at *
  have hS2 : Space regions l2 v.mmu frames := hS.evolve
    (Evolves.more (Subset.trans hsub1 hsub2) : v.mmu.Evolves ∅ used v.mmu l2) hI2
    (hS.wellFormed.mono fun _ hf => hsub2 (hsub1 hf))
  have hf2' : f2 ≠ 0 → f2 ∈ l2.erase f1 := fun h0 => by
    refine (mem_erase_of_ne ?_).2 (hf2 h0)
    rintro rfl
    exact hI2.nodup.not_mem_erase (he2 ▸ hf1 h0)
  have hl : (l2.erase f1).erase f2 = used := by rw [erase_comm, he2, he1]
  have hbad {u : Vm} {r : Bool} (hS' : Space regions l2 u.mmu u.frames) :=
    @createThread_bad regions used l2 v v' debug r a u _ _ hS.frames hS'
      (fun h0 => hsub2 (hf1 h0)) hf2' hl hv1 hv2 hn1 hn2
  by_cases h0 : f1 = 0 ∨ f2 = 0
  · rw [if_pos h0] at h
    obtain ⟨rfl, hsame⟩ := hbad (u := { v with frames }) hS2 (fun _ _ _ _ _ => rfl) h
    refine .inl ⟨rfl, fun hfits => ?_, hsame⟩
    obtain ⟨h1, h2, -⟩ := (hroom 0).1 hfits.stack
    exact h0.elim h1 h2
  rw [if_neg h0] at h
  push Not at h0
  obtain ⟨m₁, hmap1, hS3, hx1, -, hl1, hfree1⟩ := mapSinglePage_free hS2 hv2 hphys2 hal2 hn2
  obtain ⟨m2, hmap2, hS4, hx2, hshow, hl2, hfree2⟩ := mapSinglePage_free hS3 hv1 hphys1 hal
    ((hfree1 a hv1.pdIndex.2).2 ⟨hn1, stack_pages_ne hal⟩)
  have hfree {p : ℕ} (hp : pdIndex p < 1023) : PageFree m2 p
      ↔ PageFree v.mmu p ∧ ¬ SamePage p a ∧ ¬ SamePage p (a + frameSize) := by
    rw [hfree2 p hp, hfree1 p hp, and_assoc, and_comm (a := ¬ SamePage p (a + frameSize))]
  have hnext : (HeapPages.getHeapPageAddress ⟨v.bitmap, m2, frames⟩).map Prod.fst
      = v.getHeapPageAddress.map Prod.fst := by
    simp [HeapPages.getHeapPageAddress, comp_def]
  have hfits : v.ThreadFits fresh a ↔ HasBlock fresh { v with mmu := m2, frames } := by
    refine ⟨fun hfits hb => ?_, fun hb => ⟨(hroom 0).2 ⟨h0.1, h0.2, room_zero _⟩, fun hf => ?_⟩⟩
    · obtain ⟨hR, p, hp, hpage⟩ := hfits.block hb
      have hlt := (getHeapPageAddress_scratch hp).1.pdIndex.2
      exact ⟨((hroom 1).1 hR).2.2, p, hnext.trans hp, (hfree hlt).2 hpage⟩
    · obtain ⟨hR, p, hp, hpage⟩ := hb hf
      have hlt := (getHeapPageAddress_scratch hp).1.pdIndex.2
      exact ⟨(hroom 1).2 ⟨h0.1, h0.2, hR⟩, p, hnext.symm.trans hp, (hfree hlt).1 hpage⟩
  simp only [hmap1, hmap2] at h
  obtain ⟨⟨t, u⟩, hk, h⟩ := bind_eq_some_iff.1 h
  obtain ⟨used', hext, htmp⟩ := kmallocSmall_spec (v := { v with mmu := m2, frames }) hS4 hk
  rcases kmallocSmall_cases (v := { v with mmu := m2, frames }) hS4 hk with
    ⟨rfl, hb⟩ | ⟨rfl, hb, hm, hS5⟩
  · cases h
    obtain ⟨e, he⟩ := hshow
    refine .inr ⟨rfl, hfits.2 hb, ⟨e, hext.pages.keeps _ hv1.pdIndex.2 _ e he⟩, htmp, used',
      hext.space, ?_⟩
    exact (Evolves.more (Subset.trans hsub1 hsub2)).trans
      (hx1.toEvolves.trans (hx2.toEvolves.trans hext.pages.toEvolves))
  · obtain ⟨rfl, hsame⟩ := hbad hS5 (fun i hi j hij hij' => by
      rw [hm, hl2 i hi j hij, hl1 i hi j hij']) h
    exact .inl ⟨rfl, fun hfit => hb (hfits.1 hfit), hsame⟩

theorem createThread_none (hS : Space regions used v.mmu v.frames)
    (ha : v.getNextKernelStackAddress = none) (h : v.createThread debug pge fresh = some (r, v')) :
    r = false ∧ (SameMemory v v' ↔ ¬ v.frames.Room 1) := by
  have ha' : getNextKernelStackAddress
      { v with frames := v.frames.allocateFrame.2.allocateFrame.2 } = none := ha
  unfold createThread at h
  simp only [ha'] at h
  cases h
  refine ⟨rfl, fun hsame hR => ?_, fun hR => ⟨fun n => ?_, fun _ _ _ => rfl⟩⟩
  · obtain ⟨h0, -⟩ := FrameManager.Room.allocateFrame (n := 0) hR
    obtain ⟨l1, hI1, hf1, -⟩ := take_frame hS.frames
    obtain ⟨l2, hI2, -, -, hsub⟩ := take_frame hI1
    obtain ⟨k, hk, -, -, hclear⟩ := allocateFrame_free h0
    have hset := hI2.allocated_of_live (hsub (hf1 h0))
    have hdiv : v.frames.allocateFrame.1 / frameSize = k := by
      rw [hk]
      exact Nat.mul_div_cancel k (by decide)
    rw [FrameManager.isFrameAllocated, hdiv, hsame.frames k, hclear] at hset
    cases hset
  · rcases hS.frames.allocateFrame with ⟨-, hI1⟩ | ⟨h0, -⟩
    · rcases hI1.allocateFrame with ⟨-, hI2⟩ | ⟨h0, -⟩
      · rw [Bool.eq_iff_iff, ← not_iff_not, Bool.not_eq_true, Bool.not_eq_true, hI2.clear,
          hS.frames.clear]
      · obtain ⟨k, -, hlo, hhi, hclear⟩ := allocateFrame_free h0
        refine absurd ⟨[k], nodup_singleton k, le_rfl, fun j hj => ?_⟩ hR
        rw [mem_singleton.1 hj, hS.frames.clear, ← hI1.clear]
        exact ⟨hlo, hhi, hclear⟩
    · exact absurd (allocateFrame_eq_zero.2 hR) h0

def StackReleased (v v' : Vm) : Prop :=
  ∀ a, v.getNextKernelStackAddress = some a →
    v'.frames.isFrameAllocated v.frames.allocateFrame.1 = false
      ∧ v'.frames.isFrameAllocated v.frames.allocateFrame.2.allocateFrame.1 = false
      ∧ v'.mmu.isVirtualPageMapped a = false
      ∧ v'.mmu.isVirtualPageMapped (a + frameSize) = false

end Vm

def Kernel.Reaped (k : Kernel) (t : ℕ) : Prop :=
  (k.thread t).state = .terminated ∧ ∀ l, LinkedList.Walk k.next k.threadList l → t ∉ l

namespace Machine

variable {regions : List MemoryRegion} {used : List ℕ} {s : AddressSpaces} {m m₁ m' : Machine}
  {debug pge fresh : Bool} {st : Status} {a q : ℕ} {memory : ℕ → ProcessMemory}

/-- `CreateThread` was called in `m` and left `m₁`. If there is a thread, it has ended and been
reaped in `m'`. -/
structure ThreadLife (debug pge fresh : Bool) (s : AddressSpaces) (m m₁ m' : Machine)
    (st : Status) : Prop where
  vm : m.vm = s.vm
  kstacks : ∀ q, ∀ k ∈ (m.memory q).kstacks, k.phys % frameSize = 0
  create : ∃ q o args, (m.kernel.object o).data = none
    ∧ m.threadCreate debug pge fresh q o args = some (st, m₁)
  ended : st = .ok → m'.kernel.Reaped m.kernel.threads
    ∧ ∃ steps, Run.exec (threadStep debug s.spaces) m₁ steps = some m'

/-- A call that fails leaves memory as it was, and a thread that was created gives its stack back
in the end. -/
def StackConserved (m m₁ m' : Machine) (st : Status) : Prop :=
  (st ≠ .ok → m.vm.SameMemory m₁.vm) ∧ (st = .ok → m.vm.StackReleased m'.vm)

theorem threadCreate_cases {o : ℕ} {args : InvokeArgs} (hnone : (m.kernel.object o).data = none)
    (h : m.threadCreate debug pge fresh q o args = some (st, m₁)) :
    ∃ t, m.vm.createThread debug pge fresh = some (t, m₁.vm) ∧ (st = .ok ↔ t = true)
      ∧ m₁.memory = m.memory := by
  unfold threadCreate at h
  rw [if_neg (by simp [hnone])] at h
  obtain ⟨⟨t, vm⟩, ht, h⟩ := bind_eq_some_iff.1 h
  obtain ⟨⟨st', kernel⟩, hk, h⟩ := bind_eq_some_iff.1 h
  cases h
  have hk := toOption_eq_some.1 hk
  refine ⟨t, ht, ?_, rfl⟩
  cases t <;> simp [Kernel.handleThreadObjectRequest, hnone] at hk <;> simp [← hk.1]

/-- The page is mapped in the address space that is loaded, whatever frames have been given back,
and so it is in all the others. -/
structure Stays (regions : List MemoryRegion) (s : AddressSpaces) (memory : ℕ → ProcessMemory)
    (a : ℕ) (m : Machine) : Prop where
  memory : m.memory = memory
  spaces : ∃ fm used, SpacesInv regions used { s with vm := { m.vm with frames := fm } }
  shows : m.vm.mmu.Shows a

theorem Stays.deleteProcess (h : m.Stays regions s memory a) (hlo : kernelStackBase ≤ a)
    (hhi : a < kernelStackEnd) (hv : Scratch a)
    (hstacks : ∀ k ∈ (memory q).kstacks, k.phys % frameSize = 0) (hq : (m.memory q).cr3 ∈ s.spaces)
    (hd : m.deleteProcess debug q = some m') : m'.Stays regions s memory a := by
  obtain ⟨kernel, vm, -, hvm, rfl⟩ := deleteProcess_cases hd
  obtain ⟨fm, used, hI⟩ := h.spaces
  have hlive : (m.memory q).cr3 ∈ used := (hI.family.wellFormed _ hq).live _ (.inl rfl)
  obtain ⟨vm', hvm', haside, htmp, -, he, fm', hS⟩ := deleteProcess_total (v := m.vm) debug
    ⟨fm, hI.space⟩ hI.tmpmap (hI.space.bounds hlive).2 (h.memory ▸ hstacks)
  obtain rfl := some.inj (hvm'.symm.trans hvm)
  have hno := not_slotPage hlo hhi
  obtain ⟨e, hl⟩ := h.shows
  have hI' : SpacesInv regions used ⟨{ vm' with frames := fm' }, s.spaces, s.data⟩ :=
    hI.evolve he hS fun i => (htmp i).trans (hI.tmpmap i).symm
  refine ⟨h.memory, ⟨fm', used, hI'⟩, e, ?_⟩
  rw [haside.lookup _ hv.pdIndex.2 _ (fun hij => hno ⟨0, by decide, hij⟩)
    fun hij => hno ⟨1, by decide, hij⟩, hl]

theorem Stays.step {x : ThreadStep} (h : m.Stays regions s memory a) (hlo : kernelStackBase ≤ a)
    (hhi : a < kernelStackEnd) (hv : Scratch a)
    (hstacks : ∀ q, ∀ k ∈ (memory q).kstacks, k.phys % frameSize = 0)
    (hs : threadStep debug s.spaces m x = some m') : m'.Stays regions s memory a := by
  cases x with
  | threadRun q o args =>
    obtain ⟨r, -, rfl⟩ := map_eq_some_iff.1 hs
    exact ⟨h.memory, h.spaces, h.shows⟩
  | scheduleNext =>
    obtain ⟨r, hr, hs⟩ := bind_eq_some_iff.1 hs
    split_ifs at hs with hcr3
    cases hs
    obtain ⟨kernel, -, -, hmem, hvm⟩ := scheduleNext_cases hr
    obtain ⟨fm, used, hI⟩ := h.spaces
    have heq : m'.vm = m.vm.swapProcess m'.vm.mmu.cr3 := by
      rw [hvm]
      split <;> rfl
    obtain ⟨e, hl⟩ := h.shows
    have hI' : SpacesInv regions used { s with vm := { m'.vm with frames := fm } } := by
      rw [heq]
      exact { hI with current := hcr3 }
    refine ⟨hmem.trans h.memory, ⟨fm, used, hI'⟩, e, ?_⟩
    rw [← hl, heq]
    exact hI.family.lookup_eq hcr3 hI.current hv.pdIndex _
  | deleteObject o =>
    obtain ⟨r, -, rfl⟩ := map_eq_some_iff.1 hs
    exact ⟨h.memory, h.spaces, h.shows⟩
  | deleteProcess q =>
    simp only [threadStep] at hs
    split_ifs at hs with hq
    exact h.deleteProcess hlo hhi hv (hstacks q) hq hs
  | idle =>
    obtain ⟨kernel, -, rfl⟩ := idle_cases hs
    exact ⟨h.memory, h.spaces, h.shows⟩

theorem ThreadLife.stack_mapped (hI : SpacesInv regions used s)
    (hL : ThreadLife debug pge fresh s m m₁ m' st) (hst : st = .ok)
    (ha : m.vm.getNextKernelStackAddress = some a) : m'.vm.mmu.isVirtualPageMapped a = true := by
  obtain ⟨q, o, args, hnone, hcreate⟩ := hL.create
  obtain ⟨t, ht, ht', hmem⟩ := threadCreate_cases hnone hcreate
  obtain rfl := ht'.1 hst
  rw [hL.vm] at ha ht
  rcases createThread_cases hI.space ha ht with
    ⟨h, -⟩ | ⟨-, -, hshow, htmp, used', hS', he⟩
  · cases h
  obtain ⟨-, steps, hrun⟩ := hL.ended hst
  obtain ⟨hlo, hhi, -⟩ := getNextKernelStackAddress_bounds ha
  have hv := (getNextKernelStackAddress_scratch ha).1
  have hstart : m₁.Stays regions s m.memory a :=
    ⟨hmem, ⟨m₁.vm.frames, used', hI.evolve he hS' fun i => by rw [htmp]⟩, hshow⟩
  obtain ⟨e, hl⟩ := (Run.exec_invariant' (I := Stays regions s m.memory a)
    (fun m x m' h hs => h.step hlo hhi hv hL.kstacks hs) steps hstart hrun).shows
  rw [isVirtualPageMapped_eq, translate_cr3, hl]
  rfl

end Machine

open Machine in
theorem thread_stack_conserved_iff {regions : List MemoryRegion} {used : List ℕ}
    {s : AddressSpaces} {debug pge fresh : Bool} {m m₁ m' : Machine} {st : Status}
    (hI : SpacesInv regions used s) (hL : ThreadLife debug pge fresh s m m₁ m' st) :
    StackConserved m m₁ m' st
      ↔ (m.vm.getNextKernelStackAddress = none ∧ ¬ m.vm.frames.Room 1)
        ∨ ∃ a, m.vm.getNextKernelStackAddress = some a ∧ ¬ m.vm.ThreadFits fresh a := by
  obtain ⟨q, o, args, hnone, hcreate⟩ := hL.create
  obtain ⟨t, ht, hst, -⟩ := threadCreate_cases hnone hcreate
  have hS : Space regions used m.vm.mmu m.vm.frames := by
    rw [hL.vm]
    exact hI.space
  rcases ha : m.vm.getNextKernelStackAddress with _ | a
  · obtain ⟨rfl, hsame⟩ := createThread_none hS ha ht
    simp [StackConserved, hst, hsame]
  rcases createThread_cases hS ha ht with ⟨rfl, hfits, hsame⟩ | ⟨rfl, hfits, -⟩
  · simp [StackConserved, hst, hsame, hfits]
  refine iff_of_false (fun hcons => ?_) (by simp [hfits])
  have hmapped := hL.stack_mapped hI (hst.2 rfl) ha
  rw [(hcons.2 (hst.2 rfl) a ha).2.2.1] at hmapped
  cases hmapped

section Server

/-- The server is entered and makes an object for a thread. -/
def threadOwner : Option Kernel := do
  let k ← (Kernel.boot.allocateThread.2.addThreadToScheduler
    Kernel.boot.allocateThread.1).toOption
  let (_, k) ← k.createProcess.toOption
  let k ← k.scheduleNext.toOption
  let (_, k) ← (k.dwCreateObject 1 none .thread true).toOption
  return k

def threadArgs : InvokeArgs := ⟨none, [], true, true, true, .ok⟩

/-- The thread runs, its object is deleted, and the idle loop takes it out of the list. -/
def threadEnds : List ThreadStep := [.threadRun 0 0 threadArgs, .deleteObject 0, .idle]

theorem exists_threadEnds : ∃ k k1 k2 k3 k4 : Kernel,
    threadOwner = some k ∧ (k.object 0).data = none
      ∧ k.handleThreadObjectRequest 0 0 0 threadArgs = .ok (.ok, k1)
      ∧ k1.handleThreadObjectRequest 0 0 1 threadArgs = .ok (.ok, k2)
      ∧ k2.deleteObject 0 = .ok k3 ∧ k3.idle = .ok k4 ∧ k4.Reaped k.threads := by
  have hrun : (threadOwner.bind fun k =>
      (k.handleThreadObjectRequest 0 0 0 threadArgs).toOption.bind fun r1 =>
        (r1.2.handleThreadObjectRequest 0 0 1 threadArgs).toOption.bind fun r2 =>
          (r2.2.deleteObject 0).toOption.bind fun k3 => k3.idle.toOption.map fun k4 =>
            decide ((k.object 0).data = none ∧ r1.1 = .ok ∧ r2.1 = .ok ∧ k.threads = 2
              ∧ (k4.thread 2).state = .terminated ∧ k4.threadList = some 0
              ∧ k4.next 0 = some 1 ∧ k4.next 1 = none)) = some true := by decide +kernel
  obtain ⟨k, hk, hrun⟩ := bind_eq_some_iff.1 hrun
  obtain ⟨⟨st1, k1⟩, hk1, hrun⟩ := bind_eq_some_iff.1 hrun
  obtain ⟨⟨st2, k2⟩, hk2, hrun⟩ := bind_eq_some_iff.1 hrun
  obtain ⟨k3, hk3, hrun⟩ := bind_eq_some_iff.1 hrun
  obtain ⟨k4, hk4, heq⟩ := map_eq_some_iff.1 hrun
  obtain ⟨hdata, rfl, rfl, ht, hstate, hlist, hnext, hnext'⟩ := of_decide_eq_true heq
  refine ⟨k, k1, k2, k3, k4, hk, hdata, toOption_eq_some.1 hk1, toOption_eq_some.1 hk2,
    toOption_eq_some.1 hk3, toOption_eq_some.1 hk4, ht ▸ hstate, fun l hl => ?_⟩
  have hwalk : LinkedList.Walk k4.next k4.threadList [0, 1] := ⟨hlist, hnext, hnext'⟩
  rw [hl.unique hwalk, ht]
  decide

theorem Vm.createThread_total {regions : List MemoryRegion} {used : List ℕ} {v : Vm} {a : ℕ}
    (debug pge : Bool) (hS : Space regions used v.mmu v.frames) (hR : v.frames.Room 2)
    (ha : v.getNextKernelStackAddress = some a) :
    ∃ v', v.createThread debug pge false = some (true, v') := by
  obtain ⟨h1, h2, -⟩ := room_add_two.1 hR
  obtain ⟨hv1, hv2⟩ := getNextKernelStackAddress_scratch ha
  obtain ⟨-, -, hal⟩ := getNextKernelStackAddress_bounds ha
  obtain ⟨hn1, hn2⟩ := Bool.or_eq_false_iff.1 (findKernelStack_free ha)
  rw [← pageFree_iff] at hn1 hn2
  obtain ⟨l1, hI1, -, -, hsub1⟩ := take_frame hS.frames
  obtain ⟨l2, hI2, -, -, hsub2⟩ := take_frame hI1
  have hS2 : Space regions l2 v.mmu v.frames.allocateFrame.2.allocateFrame.2 := hS.evolve
    (Evolves.more (Subset.trans hsub1 hsub2) : v.mmu.Evolves ∅ used v.mmu l2) hI2
    (hS.wellFormed.mono fun _ hf => hsub2 (hsub1 hf))
  obtain ⟨m₁, hmap1, hS3, -, -, -, hfree⟩ := mapSinglePage_free hS2 hv2 (allocateFrame_mod hI1)
    (by rw [Nat.add_mod_right, hal]) hn2
  obtain ⟨m2, hmap2, -⟩ := mapSinglePage_free hS3 hv1 (allocateFrame_mod hS.frames) hal
    ((hfree a hv1.pdIndex.2).2 ⟨hn1, stack_pages_ne hal⟩)
  have ha' : getNextKernelStackAddress
      { v with frames := v.frames.allocateFrame.2.allocateFrame.2 } = some a := ha
  unfold createThread
  simp only [ha', hmap1, hmap2]
  rw [if_neg (not_or.2 ⟨h1, h2⟩)]
  exact ⟨_, rfl⟩

theorem exists_threadLife : ∃ (s : AddressSpaces) (m m₁ m' : Machine) (a : ℕ),
    s.Reachable true true ∧ some m.kernel = threadOwner
      ∧ Machine.ThreadLife true true false s m m₁ m' .ok
      ∧ Run.exec (threadStep true s.spaces) m₁ threadEnds = some m'
      ∧ m.vm.getNextKernelStackAddress = some a := by
  obtain ⟨k, k1, k2, k3, k4, hk, hdata, hk1, hk2, hk3, hk4, hreap⟩ := exists_threadEnds
  obtain ⟨s, p, v, -, -, hs, hkstacks, hR⟩ := exists_server true true
  obtain ⟨regions, used, hI⟩ := hs.inv
  have hs' := hs.step (.swapProcess p.cr3) (if_pos (mem_cons_self ..))
  obtain ⟨regions', used', hI'⟩ := hs'.inv
  -- the stack after that of the server is free, in the server's address space too
  have hfree {i : ℕ} (hlo : 2 ≤ i) (hhi : i < 4) :
      PageFree (v.swapProcess p.cr3).mmu (kernelStackPage i) := by
    have hlt : i < 2 * kernelStackCount := hhi.trans (by decide)
    exact (hI.family.lookup_eq (mem_cons_self ..) hI.current
      (kernelStackPage_bounds hlt).1 _).trans (hR.stackPages i hlo hlt)
  obtain ⟨n, -, ha⟩ := findKernelStack_total (q := 1) (hfree le_rfl (by decide))
    (hfree (by decide) (by decide)) kernelStackCount 0 (by decide) (by decide)
  replace ha : (v.swapProcess p.cr3).getNextKernelStackAddress
      = some (kernelStackPage (2 * n)) := ha
  obtain ⟨v', hv'⟩ := createThread_total true true hI'.space (hR.room.mono (by decide)) ha
  obtain ⟨memory, hmemory⟩ : ∃ f : ℕ → ProcessMemory, f 0 = p
      ∧ ∀ q, ∀ x ∈ (f q).kstacks, x.phys % frameSize = 0 := by
    refine ⟨update (fun _ => ⟨0, []⟩) 0 p, update_self .., fun q x hx => ?_⟩
    by_cases hq : q = 0 <;> simp only [update_apply, hq, if_true, if_false] at hx
    · exact hkstacks x hx
    · cases hx
  have hrun : Run.exec (threadStep true (p.cr3 :: s.spaces)) ⟨k1, v', memory⟩ threadEnds
      = some ⟨k4, v', memory⟩ := by
    simp [threadEnds, Run.exec, threadStep, Machine.idle, hk2, hk3, hk4, Except.toOption]
  refine ⟨_, ⟨k, v.swapProcess p.cr3, memory⟩, ⟨k1, v', memory⟩, ⟨k4, v', memory⟩, _, hs', hk.symm,
    ⟨rfl, hmemory.2, ⟨0, 0, threadArgs, hdata, ?_⟩, fun _ => ⟨hreap, threadEnds, hrun⟩⟩, hrun, ha⟩
  have hk1' : k.handleThreadObjectRequest 0 0 0 { threadArgs with threadOk := true }
      = .ok (.ok, k1) := hk1
  have hv' : (v.swapProcess p.cr3).createThread true true false = some (true, v') := hv'
  unfold Machine.threadCreate
  rw [if_neg (by simp [hdata])]
  simp only [hv', bind_eq_bind, bind_some, hk1', Except.toOption]
  rfl

theorem thread_stack_conserved_iff_server : ∃ (s : AddressSpaces) (m m₁ m' : Machine),
    s.Reachable true true ∧ Machine.ThreadLife true true false s m m₁ m' .ok
      ∧ (Machine.StackConserved m m₁ m' .ok
        ↔ (m.vm.getNextKernelStackAddress = none ∧ ¬ m.vm.frames.Room 1)
          ∨ ∃ a, m.vm.getNextKernelStackAddress = some a ∧ ¬ m.vm.ThreadFits false a) := by
  obtain ⟨s, m, m₁, m', a, hs, -, hL, -⟩ := exists_threadLife
  obtain ⟨regions, used, hI⟩ := hs.inv
  exact ⟨s, m, m₁, m', hs, hL, thread_stack_conserved_iff hI hL⟩

/-- The server's thread has ended and been reaped, and its stack is still mapped. -/
theorem thread_stack_leaks : ∃ (s : AddressSpaces) (m m₁ m' : Machine) (a : ℕ),
    s.Reachable true true ∧ some m.kernel = threadOwner
      ∧ Machine.ThreadLife true true false s m m₁ m' .ok
      ∧ Run.exec (threadStep true s.spaces) m₁ threadEnds = some m'
      ∧ m.vm.getNextKernelStackAddress = some a ∧ m'.vm.mmu.isVirtualPageMapped a = true
      ∧ ¬ Machine.StackConserved m m₁ m' .ok := by
  obtain ⟨s, m, m₁, m', a, hs, hk, hL, hrun, ha⟩ := exists_threadLife
  obtain ⟨regions, used, hI⟩ := hs.inv
  have hmapped := hL.stack_mapped hI rfl ha
  refine ⟨s, m, m₁, m', a, hs, hk, hL, hrun, ha, hmapped, fun hcons => ?_⟩
  rw [(hcons.2 rfl a ha).2.2.1] at hmapped
  cases hmapped

end Server

end DragonWare
