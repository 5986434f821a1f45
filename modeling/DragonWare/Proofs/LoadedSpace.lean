import DragonWare.Proofs.Teardown

/-!
# The directory that is loaded

`CreateProcess` gives back no frame but those it has just taken itself (`Vm.Takes`). So the
directory that is loaded stays allocated until a thread that belongs to a process ends:
`DeleteProcess` then gives it back while CR3 still names it.
-/

namespace DragonWare

open Fallible Function Kernel Option

/-- Frames were taken, none of those in `used` was given back, and CR3 is the same. -/
structure Vm.Takes (regions : List MemoryRegion) (v : Vm) (used : List ℕ) (v' : Vm)
    (used' : List ℕ) : Prop where
  frames : FrameInv regions (v'.frames, used')
  sub : used ⊆ used'
  cr3 : v'.mmu.cr3 = v.mmu.cr3

namespace Vm

variable {regions : List MemoryRegion} {used used' used'' : List ℕ} {debug pge fresh : Bool}
  {v v' v'' : Vm} {fm : FrameManager} {virt : ℕ}

theorem Takes.refl (hI : FrameInv regions (v.frames, used)) : Takes regions v used v used :=
  ⟨hI, List.Subset.refl used, rfl⟩

theorem Takes.trans (h : Takes regions v used v' used') (h' : Takes regions v' used' v'' used'') :
    Takes regions v used v'' used'' :=
  ⟨h'.frames, fun _ hf => h'.sub (h.sub hf), h'.cr3.trans h.cr3⟩

theorem Takes.of_mmu (hI : FrameInv regions (v.frames, used)) (hf : v'.frames = v.frames)
    (hc : v'.mmu.cr3 = v.mmu.cr3) : Takes regions v used v' used :=
  ⟨hf ▸ hI, List.Subset.refl used, hc⟩

section Tables

theorem allocateFrame_takes (hI : FrameInv regions (fm, used)) :
    ∃ used', FrameInv regions (fm.allocateFrame.2, used') ∧ used ⊆ used'
      ∧ (fm.allocateFrame.1 ≠ 0 → fm.allocateFrame.1 ∈ used' ∧ fm.allocateFrame.1 ∉ used) := by
  rcases hI.allocateFrame with ⟨h0, hI'⟩ | ⟨-, hnew, -, hI'⟩
  · exact ⟨used, hI', List.Subset.refl used, fun h => absurd h0 h⟩
  · exact ⟨_, hI', List.subset_cons_self .., fun _ => ⟨List.mem_cons_self .., hnew⟩⟩

theorem mapSinglePage_takes {m m' : Mmu} {fm' : FrameManager} {st : Status} {phys : ℕ}
    {flags : BitVec 32} (hI : FrameInv regions (fm, used))
    (h : Mmu.mapSinglePage phys virt flags m fm = (st, m', fm')) :
    ∃ used', FrameInv regions (fm', used') ∧ used ⊆ used' ∧ m'.cr3 = m.cr3 := by
  obtain ⟨used', hI', hsub, -⟩ := allocateFrame_takes hI
  unfold Mmu.mapSinglePage at h
  simp only [] at h
  split_ifs at h <;> cases h
  · exact ⟨used, hI, List.Subset.refl used, rfl⟩
  · exact ⟨used, hI, List.Subset.refl used, rfl⟩
  · exact ⟨used, hI, List.Subset.refl used, rfl⟩
  all_goals exact ⟨used', hI', hsub, rfl⟩

theorem freeFrame_takes {fm' : FrameManager} {f : ℕ} (hI : FrameInv regions (fm, used'))
    (hf : f ∈ used') (hnew : f ∉ used) (hsub : used ⊆ used') (h : fm.freeFrame debug f = some fm') :
    ∃ used'', FrameInv regions (fm', used'') ∧ used ⊆ used'' := by
  obtain ⟨hfree, hI'⟩ := hI.freeFrame debug hf
  rw [hfree] at h
  cases h
  refine ⟨_, hI', fun g hg => ?_⟩
  have hne : g ≠ f := by
    rintro rfl
    exact hnew hg
  exact (List.mem_erase_of_ne hne).2 (hsub hg)

theorem unmapSinglePage_cr3 {m m' : Mmu} (h : m.unmapSinglePage debug virt = some m') :
    m'.cr3 = m.cr3 := by
  unfold Mmu.unmapSinglePage at h
  split_ifs at h <;> exact some.inj h ▸ rfl

theorem allocateVirtualPage_takes {h h' : HeapPages} {a : ℕ}
    (hI : FrameInv regions (h.frames, used))
    (heq : h.allocateVirtualPage debug pge = some (a, h')) :
    ∃ used', FrameInv regions (h'.frames, used') ∧ used ⊆ used' ∧ h'.mmu.cr3 = h.mmu.cr3 := by
  obtain ⟨used1, hI1, hsub1, hnew⟩ := allocateFrame_takes hI
  unfold HeapPages.allocateVirtualPage at heq
  by_cases h0 : h.frames.allocateFrame.1 = 0
  · simp only [h0, if_true] at heq
    cases heq
    exact ⟨used1, hI1, hsub1, rfl⟩
  simp only [h0, if_false] at heq
  obtain ⟨⟨page, h1⟩, hpage, heq⟩ := bind_eq_some_iff.1 heq
  unfold HeapPages.getHeapPageAddress at hpage
  obtain ⟨i, -, hpage⟩ := map_eq_some_iff.1 hpage
  obtain ⟨rfl, rfl⟩ := Prod.mk.inj hpage
  simp only [markHeapPageAsUsed_mmu] at heq
  split at heq
  · next m' fm' hm =>
    cases heq
    obtain ⟨used2, hI2, hsub2, hc⟩ := mapSinglePage_takes hI1 hm
    exact ⟨used2, hI2, fun _ hf => hsub2 (hsub1 hf), hc⟩
  next st m' fm' hst hm =>
  obtain ⟨used2, hI2, hsub2, hc⟩ := mapSinglePage_takes hI1 hm
  obtain ⟨h2, hfree, heq⟩ := bind_eq_some_iff.1 heq
  obtain ⟨hm2, hf2⟩ := markHeapPageAsFree_mmu hfree
  obtain ⟨fm'', hfree, heq⟩ := map_eq_some_iff.1 heq
  cases heq
  rw [hf2] at hfree
  obtain ⟨used3, hI3, hsub3⟩ := freeFrame_takes hI2 (hsub2 (hnew h0).1) (hnew h0).2
    (fun _ hf => hsub2 (hsub1 hf)) hfree
  exact ⟨used3, hI3, hsub3, hm2 ▸ hc⟩

end Tables

theorem kmallocSmall_takes {b : Bool} (hI : FrameInv regions (v.frames, used))
    (h : v.kmallocSmall debug pge fresh = some (b, v')) :
    ∃ used', Takes regions v used v' used' := by
  unfold kmallocSmall at h
  split_ifs at h
  · obtain ⟨⟨a, p⟩, hp, h⟩ := map_eq_some_iff.1 h
    cases h
    obtain ⟨used', hI', hsub, hc⟩ := allocateVirtualPage_takes hI hp
    exact ⟨used', hI', hsub, hc⟩
  · cases h
    exact ⟨used, .refl hI⟩

theorem createTempVirtualMap_takes {r : Option VirtualMap} (hI : FrameInv regions (v.frames, used))
    (h : v.createTempVirtualMap debug pge fresh = some (r, v')) :
    ∃ used', Takes regions v used v' used' ∧ ∀ m, r = some m → m.addr.phys ∈ used' := by
  obtain ⟨b, v1, hk, hcases⟩ := createTempVirtualMap_cases h
  obtain ⟨used1, ht1⟩ := kmallocSmall_takes hI hk
  obtain ⟨used2, hI2, hsub2, hnew⟩ := allocateFrame_takes ht1.frames
  have ht2 : Takes regions v used { v1 with frames := v1.frames.allocateFrame.2 } used2 :=
    ht1.trans ⟨hI2, hsub2, rfl⟩
  rcases hcases with ⟨rfl, rfl⟩ | ⟨rfl, -, rfl⟩ | ⟨slot, st, mmu, frames, -, h0, hm, hend⟩
  · exact ⟨used1, ht1, fun m hm => by cases hm⟩
  · exact ⟨used2, ht2, fun m hm => by cases hm⟩
  obtain ⟨used3, hI3, hsub3, hc⟩ := mapSinglePage_takes hI2 hm
  rcases hend with ⟨rfl, -, frames', hfree, rfl⟩ | ⟨rfl, -, hz⟩
  · obtain ⟨used4, hI4, hsub4⟩ := freeFrame_takes hI3 (hsub3 (hnew h0).1) (hnew h0).2
      (fun _ hf => hsub3 (hsub2 hf)) hfree
    exact ⟨used4, ⟨hI4, fun _ hf => hsub4 (ht1.sub hf), hc.trans ht1.cr3⟩, fun m hm => by cases hm⟩
  obtain ⟨mmu', hz', rfl⟩ := map_eq_some_iff.1 hz
  obtain ⟨pte, -, rfl⟩ := map_eq_some_iff.1 hz'
  refine ⟨used3, ht2.trans ⟨hI3, hsub3, hc⟩, fun m hm => ?_⟩
  cases hm
  exact hsub3 (hnew h0).1

theorem mapKernelStackPage_takes (virt : ℕ) (hI : FrameInv regions (v.frames, used)) :
    ∃ used', Takes regions v used (v.mapKernelStackPage virt).2 used' := by
  obtain ⟨used1, hI1, hsub1, -⟩ := allocateFrame_takes hI
  unfold mapKernelStackPage
  rcases hm : Mmu.mapSinglePage v.frames.allocateFrame.1 virt
    (pagePresent ||| pageRW ||| pageGlobal) v.mmu v.frames.allocateFrame.2 with ⟨st, mmu, frames⟩
  simp only [hm]
  obtain ⟨used2, hI2, hsub2, hc⟩ := mapSinglePage_takes hI1 hm
  exact ⟨used2, hI2, fun _ hf => hsub2 (hsub1 hf), hc⟩

variable (regions v used) in
theorem takes_builds : Builds debug pge (fun _ => True)
    fun u => ∃ used', Takes regions v used u used' := by
  refine ⟨fun ⟨_, ht⟩ hm => ?_, fun _ _ ⟨used1, ht⟩ _ => ?_, fun _ ⟨used1, ht⟩ h => ?_,
    fun _ _ => trivial⟩
  · obtain ⟨used2, ht2, -⟩ := createTempVirtualMap_takes ht.frames hm
    exact ⟨used2, ht.trans ht2⟩
  · exact ⟨used1, ht.trans (.of_mmu ht.frames rfl rfl)⟩
  · unfold deleteTempVirtualMap at h
    split_ifs at h
    obtain ⟨mmu, hm, rfl⟩ := map_eq_some_iff.1 h
    exact ⟨used1, ht.trans (.of_mmu ht.frames rfl (unmapSinglePage_cr3 hm))⟩

variable (regions v used) in
theorem takes_starts : Starts debug pge (fun _ => True)
    fun u => ∃ used', Takes regions v used u used' := by
  refine ⟨fun ⟨_, ht⟩ hk => ?_, fun _ ⟨_, ht⟩ => ?_, (takes_builds regions used v).create⟩
  · obtain ⟨used2, ht2⟩ := kmallocSmall_takes ht.frames hk
    exact ⟨used2, ht.trans ht2⟩
  · obtain ⟨used2, ht2⟩ := mapKernelStackPage_takes _ ht.frames
    exact ⟨used2, ht.trans ht2⟩

theorem createProcess_takes {fresh : ℕ → Bool} {code : Memory.Mem} {codeSize : ℕ}
    {r : Option ProcessMemory} (hI : FrameInv regions (v.frames, used))
    (h : v.createProcess debug pge fresh code codeSize = some (r, v')) :
    ∃ used', Takes regions v used v' used' ∧ ∀ p, r = some p → p.cr3 ∈ used' := by
  rcases (takes_starts regions used v).createProcess ⟨used, .refl hI⟩
    (fun _ _ => ⟨trivial, trivial⟩) h with
    ⟨rfl, used', ht⟩ | ⟨p, u, v1, pd, rfl, hp, ⟨used1, ht1⟩, hm, hbuild⟩
  · exact ⟨used', ht, fun p hp => by cases hp⟩
  obtain ⟨used2, ht2, hphys⟩ := createTempVirtualMap_takes ht1.frames hm
  obtain ⟨used', ht⟩ := (takes_builds regions used2 v1).buildAddressSpace
    (.inr fun _ => trivial) (atSlot_of_create hm) ⟨used2, .refl ht2.frames⟩ hbuild
  refine ⟨used', (ht1.trans ht2).trans ht, fun p' hp' => ?_⟩
  cases hp'
  exact hp ▸ ht.sub (hphys pd rfl)

end Vm

namespace Kernel

variable {k k' : Kernel} {t : ℕ}

theorem addThreadToScheduler_cr3 (h : k.addThreadToScheduler t = .ok k') : k'.cr3 = k.cr3 := by
  simp only [addThreadToScheduler] at h
  split at h
  · cases h
    rfl
  · obtain ⟨last, -, h⟩ := bind_eq_ok.1 h
    cases h
    rfl

theorem removeThreadFromScheduler_cr3 {st : Status}
    (h : k.removeThreadFromScheduler t = .ok (st, k')) : k'.cr3 = k.cr3 := by
  unfold removeThreadFromScheduler at h
  split at h
  · cases h
    rfl
  split_ifs at h
  · cases h
    rfl
  · obtain ⟨before, -, h⟩ := bind_eq_ok.1 h
    cases before <;> cases h <;> rfl

theorem createProcess_owner {q : ℕ} (h : k.createProcess = .ok (q, k')) :
    q = k.processes ∧ k'.processes = k.processes + 1 ∧ k'.cr3 = k.cr3
      ∧ ∀ t, (k'.thread t).owner = if t = k.threads then some q else (k.thread t).owner := by
  obtain ⟨r, hr, h⟩ := bind_eq_ok.1 h
  have hr : k.withProcess.addThreadToScheduler k.threads = .ok r := hr
  have hsame := sameStore_addThreadToScheduler hr
  cases h
  refine ⟨rfl, hsame.processes, (addThreadToScheduler_cr3 hr).trans rfl, fun t => ?_⟩
  refine (hsame.owner t).trans ?_
  by_cases ht : t = k.threads
  · simp [withProcess, allocateUserThread, ht]
  · simp [withProcess, allocateUserThread, ht]

theorem exitThread_kernel (howner : (k.thread t).owner = none)
    (h : k.exitThread t = .ok k') : SameStore k k' ∧ k'.cr3 = k.cr3 := by
  obtain ⟨⟨st, r⟩, hr, h⟩ := bind_eq_ok.1 h
  have hsame := sameStore_removeThreadFromScheduler hr
  have hset : SameStore k (r.setThread t { r.thread t with state := .terminated }) :=
    hsame.trans (sameStore_setThread rfl)
  obtain ⟨r', hr', h⟩ := bind_eq_ok.1 h
  have hcr3 := removeThreadFromScheduler_cr3 hr
  rw [hset.owner, howner] at hr'
  cases hr'
  cases h
  exact ⟨hset.trans (sameStore_of_owner fun _ => rfl), hcr3⟩

theorem scheduleNext_cr3 (h : k.scheduleNext = .ok k') :
    k'.cr3 = k.cr3 ∨ ∃ t q, (k.thread t).owner = some q ∧ k'.cr3 = some q := by
  obtain ⟨-, -, ⟨-, -, hcr3⟩ | ⟨r, prev, next, hr, -, hcr3, -, -, -, rfl⟩⟩ := scheduleNext_cases h
  · exact .inl hcr3
  unfold switchTo enterProcess
  rcases hnext : (r.thread next).owner with _ | q
  · exact .inl ((makeRunning_cr3 ..).trans hcr3)
  simp only
  split_ifs
  · exact .inl ((makeRunning_cr3 ..).trans hcr3)
  · exact .inr ⟨next, q, (hr.owner next).symm.trans hnext, rfl⟩

end Kernel

namespace Machine

variable {debug pge : Bool} {regions : List MemoryRegion} {used used' : List ℕ} {m m' : Machine}

/-- The directory of every process that a thread belongs to is allocated, and so is the one that is
loaded. -/
structure Sound (regions : List MemoryRegion) (used : List ℕ) (m : Machine) : Prop where
  frames : FrameInv regions (m.vm.frames, used)
  current : m.vm.mmu.cr3 ∈ used
  owner : ∀ t q, (m.kernel.thread t).owner = some q →
    q < m.kernel.processes ∧ (m.memory q).cr3 ∈ used
  loaded : ∀ q, m.kernel.cr3 = some q → q < m.kernel.processes ∧ m.vm.mmu.cr3 = (m.memory q).cr3

def KeepsProcesses (m : Machine) : MachineStep → Prop
  | .exit | .userException => ∀ t, m.kernel.currentThread = some t →
    (m.kernel.thread t).owner = none
  | _ => True

section

variable (h : m.Sound regions used)

include h

theorem Sound.take {vm : Vm} (ht : m.vm.Takes regions used vm used') :
    ({ m with vm } : Machine).Sound regions used' :=
  ⟨ht.frames, ht.cr3 ▸ ht.sub h.current, fun t q hq => (h.owner t q hq).imp_right fun hf =>
    ht.sub hf, fun q hq => (h.loaded q hq).imp_right ht.cr3.trans⟩

theorem Sound.createProcess {fresh : ℕ → Bool} {code : Memory.Mem} {codeSize : ℕ} {r : Option ℕ}
    (hc : m.createProcess debug pge fresh code codeSize = some (r, m')) :
    ∃ used', m'.Sound regions used' := by
  rcases createProcess_cases hc with ⟨-, vm, hvm, rfl⟩ | ⟨q, p, vm, kernel, -, hvm, hk, rfl⟩
  · obtain ⟨used', ht, -⟩ := Vm.createProcess_takes h.frames hvm
    exact ⟨used', h.take ht⟩
  obtain ⟨used', ht, hp⟩ := Vm.createProcess_takes h.frames hvm
  obtain ⟨rfl, hprocs, hcr3, howner⟩ := createProcess_owner hk
  have h' := h.take ht
  have hold : ∀ q < m.kernel.processes, update m.memory m.kernel.processes p q
      = m.memory q := fun q hq => update_of_ne hq.ne ..
  refine ⟨used', h'.frames, h'.current, fun t q hq => ?_, fun q hq => ?_⟩
  · simp only [howner] at hq
    simp only [hprocs]
    split_ifs at hq
    · cases hq
      simp only [update_self]
      exact ⟨Nat.lt_succ_self _, hp p rfl⟩
    · obtain ⟨hlt, hmem⟩ := h'.owner t q hq
      simp only [hold q hlt]
      exact ⟨hlt.trans (Nat.lt_succ_self _), hmem⟩
  · simp only [hcr3] at hq
    obtain ⟨hlt, hmem⟩ := h'.loaded q hq
    simp only [hprocs, hold q hlt]
    exact ⟨hlt.trans (Nat.lt_succ_self _), hmem⟩

theorem Sound.congr {kernel : Kernel} (hs : SameStore m.kernel kernel)
    (hcr3 : kernel.cr3 = m.kernel.cr3) :
    ({ m with kernel } : Machine).Sound regions used := by
  refine ⟨h.frames, h.current, fun t q hq => ?_, fun q hq => ?_⟩
  · simp only [hs.owner] at hq
    simp only [hs.processes]
    exact h.owner t q hq
  · simp only [hcr3] at hq
    simp only [hs.processes]
    exact h.loaded q hq

theorem Sound.exit (hok : ∀ t, m.kernel.currentThread = some t → (m.kernel.thread t).owner = none)
    (he : m.exit debug = some m') : m'.Sound regions used := by
  obtain ⟨cur, hcur, he⟩ := bind_eq_some_iff.1 he
  obtain ⟨kernel, hk, he⟩ := bind_eq_some_iff.1 he
  obtain ⟨hs, hcr3⟩ := exitThread_kernel (hok cur hcur) (toOption_eq_some.1 hk)
  rw [hok cur hcur] at he
  cases he
  exact h.congr hs hcr3

theorem Sound.scheduleNext (hs : m.scheduleNext = some m') : m'.Sound regions used := by
  obtain ⟨kernel, hk, rfl, hmem, hvm⟩ := scheduleNext_cases hs
  have hsame := (Kernel.scheduleNext_cases hk).1
  -- the directory that is loaded now
  have hloaded : ∀ q, m'.kernel.cr3 = some q →
      q < m.kernel.processes ∧ (m.memory q).cr3 ∈ used := fun q hq => by
    rcases scheduleNext_cr3 hk with hcr3 | ⟨t, q', ht, hcr3⟩
    · rw [hcr3] at hq
      obtain ⟨hlt, hcur⟩ := h.loaded q hq
      exact ⟨hlt, hcur ▸ h.current⟩
    · rw [hcr3] at hq
      cases hq
      exact h.owner t q ht
  have howner : ∀ t q, (m'.kernel.thread t).owner = some q →
      q < m'.kernel.processes ∧ (m'.memory q).cr3 ∈ used := fun t q hq => by
    rw [hsame.owner] at hq
    rw [hsame.processes, hmem]
    exact h.owner t q hq
  rcases hcr3 : m'.kernel.cr3 with _ | q
  · rw [hcr3] at hvm
    have hvm : m'.vm = m.vm := hvm
    refine ⟨hvm ▸ h.frames, hvm ▸ h.current, howner, fun q hq => ?_⟩
    rw [hcr3] at hq
    cases hq
  · rw [hcr3] at hvm
    have hvm : m'.vm = m.vm.swapProcess (m.memory q).cr3 := hvm
    obtain ⟨hlt, hfree⟩ := hloaded q hcr3
    refine ⟨?_, ?_, howner, fun q' hq' => ?_⟩
    · rw [hvm]
      exact h.frames
    · rw [hvm]
      exact hfree
    · rw [hcr3] at hq'
      cases hq'
      rw [hsame.processes, hvm, hmem]
      exact ⟨hlt, rfl⟩

theorem Sound.step {a : MachineStep} (hok : m.KeepsProcesses a)
    (hs : machineStep debug pge m a = some m') : ∃ used', m'.Sound regions used' := by
  cases a with
  | createProcess fresh code codeSize =>
    obtain ⟨r, hr, rfl⟩ := map_eq_some_iff.1 hs
    exact h.createProcess hr
  | exit => exact ⟨used, h.exit hok hs⟩
  | userException =>
    -- `_DWUserException` follows the owner
    obtain ⟨cur, hcur, hs⟩ := bind_eq_some_iff.1 hs
    obtain ⟨kernel, hk, -⟩ := bind_eq_some_iff.1 hs
    obtain ⟨q, hq, -⟩ := bind_eq_ok.1 (toOption_eq_some.1 hk)
    rw [hok cur hcur] at hq
    cases hq
  | scheduleNext => exact ⟨used, h.scheduleNext hs⟩

end

end Machine

/-- As long as no thread that belongs to a process ends, the directory that is loaded is allocated,
in every state of the run. -/
theorem loaded_directory_allocated {debug pge : Bool} {regions : List MemoryRegion} {used : List ℕ}
    {m m' : Machine} {as : List MachineStep} (hstart : m.Sound regions used)
    (hok : Run.Meets (machineStep debug pge) Machine.KeepsProcesses m as)
    (hrun : Run.exec (machineStep debug pge) m as = some m') :
    m'.vm.frames.isFrameAllocated m'.vm.mmu.cr3 = true := by
  obtain ⟨used', h⟩ := Run.exec_invariant (I := fun m : Machine => ∃ used, m.Sound regions used)
    (fun m a m' ⟨used, h⟩ hok hs => h.step hok hs) as ⟨used, hstart⟩ hok hrun
  exact h.frames.allocated_of_live h.current

theorem boot_sound {s : AddressSpaces} {regions : List MemoryRegion} {used : List ℕ} {m : Machine}
    (hI : SpacesInv regions used s) (h : Machine.boot s.vm = some m) : m.Sound regions used := by
  unfold Machine.boot at h
  obtain ⟨kernel, hk, h⟩ := bind_eq_some_iff.1 h
  cases h
  have hk := toOption_eq_some.1 hk
  refine ⟨hI.frames, hI.space.wellFormed.live _ (.inl rfl), fun t q hq => ?_, fun q hq => ?_⟩
  · simp only [(sameStore_addThreadToScheduler hk).owner, update_apply] at hq
    split_ifs at hq
    · cases hq
  · simp only [addThreadToScheduler_cr3 hk] at hq
    cases hq

section Runs

def serverEntered : List MachineStep :=
  [.createProcess (fun _ => false) (fun _ => 0#8) 1, .scheduleNext]

theorem exists_kernelExit : ∃ k k1 k2 k3 : Kernel,
    Kernel.boot.allocateThread.2.addThreadToScheduler Kernel.boot.allocateThread.1 = .ok k
      ∧ k.createProcess = .ok (0, k1) ∧ k1.scheduleNext = .ok k2 ∧ k2.cr3 = some 0
      ∧ k2.currentThread = some 1 ∧ (k2.thread 1).owner = some 0 ∧ k2.exitThread 1 = .ok k3 := by
  have hrun : ((Kernel.boot.allocateThread.2.addThreadToScheduler
      Kernel.boot.allocateThread.1).toOption.bind fun k => k.createProcess.toOption.bind fun r =>
        r.2.scheduleNext.toOption.bind fun k2 => (k2.exitThread 1).toOption.map fun _ =>
          (r.1, k2.cr3, k2.currentThread, (k2.thread 1).owner))
      = some (0, some 0, some 1, some 0) := by decide +kernel
  obtain ⟨k, hk, hrun⟩ := bind_eq_some_iff.1 hrun
  obtain ⟨⟨q, k1⟩, hk1, hrun⟩ := bind_eq_some_iff.1 hrun
  obtain ⟨k2, hk2, hrun⟩ := bind_eq_some_iff.1 hrun
  obtain ⟨k3, hk3, heq⟩ := map_eq_some_iff.1 hrun
  simp only [Prod.mk.injEq] at heq
  obtain ⟨rfl, hcr3, hcur, howner⟩ := heq
  exact ⟨k, k1, k2, k3, toOption_eq_some.1 hk, toOption_eq_some.1 hk1, toOption_eq_some.1 hk2,
    hcr3, hcur, howner, toOption_eq_some.1 hk3⟩

theorem exists_serverExit (debug pge : Bool) : ∃ (s : AddressSpaces) (m m1 m2 : Machine),
    s.Reachable debug pge ∧ Machine.boot s.vm = some m
      ∧ Run.exec (machineStep debug pge) m serverEntered = some m1
      ∧ m1.kernel.cr3 = some 0 ∧ m1.exit debug = some m2
      ∧ m2.vm.frames.isFrameAllocated m2.vm.mmu.cr3 = false := by
  obtain ⟨k, k1, k2, k3, hk, hk1, hk2, hcr3, hcur, howner, hk3⟩ := exists_kernelExit
  obtain ⟨s, p, v, hs, hp, hs1, hkstacks, -⟩ := exists_server debug pge
  have hs2 := hs1.step (.swapProcess p.cr3) (if_pos (List.mem_cons_self ..))
  obtain ⟨regions, used, hI⟩ := hs2.inv
  have hoffered := hI.frames.live _ (hI.space.wellFormed.live _ (.inl rfl))
  obtain ⟨v', hv', haside, -, hfree, -⟩ := Vm.deleteProcess_total debug ⟨_, hI.space⟩ hI.tmpmap
    hoffered.bounds.2.2 hkstacks
  have hv' : (v.swapProcess p.cr3).deleteProcess debug p = some v' := hv'
  have hcreate := Machine.createProcess_eq (m := ⟨k, s.vm, fun _ => ⟨0, []⟩⟩) hp hk1
  refine ⟨s, ⟨k, s.vm, fun _ => ⟨0, []⟩⟩,
    ⟨k2, v.swapProcess p.cr3, update (fun _ => ⟨0, []⟩) 0 p⟩,
    ⟨k3, v', update (fun _ => ⟨0, []⟩) 0 p⟩, hs, ?_, ?_, hcr3, ?_, ?_⟩
  · unfold Machine.boot
    simp only [hk, Except.toOption]
    rfl
  · simp only [serverEntered, Run.exec, machineStep, hcreate, map_some, bind_some]
    simp only [Machine.scheduleNext, hk2, Except.toOption, bind_eq_bind, bind_some,
      hcr3, update_self, Option.pure_def]
  · simp only [Machine.exit, hcur, howner, hk3, Except.toOption, bind_eq_bind,
      bind_some, Machine.dropMemory, update_self, hv', map_some]
  · have hcr3 : v'.mmu.cr3 = p.cr3 := haside.cr3
    simp only [hcr3]
    exact hfree hoffered.bounds.1 (hI.frames.highest _ hoffered)

theorem loaded_directory_allocated_server : ∃ (s : AddressSpaces) (m m₁ : Machine),
    s.Reachable true true ∧ Machine.boot s.vm = some m
      ∧ Run.exec (machineStep true true) m serverEntered = some m₁ ∧ m₁.kernel.cr3 = some 0
      ∧ m₁.vm.frames.isFrameAllocated m₁.vm.mmu.cr3 = true := by
  obtain ⟨s, m, m₁, -, hs, hboot, hrun, hcr3, -⟩ := exists_serverExit true true
  obtain ⟨regions, used, hI⟩ := hs.inv
  have hmeets : Run.Meets (machineStep true true) Machine.KeepsProcesses m serverEntered :=
    ⟨trivial, fun _ _ => ⟨trivial, fun _ _ => trivial⟩⟩
  exact ⟨s, m, m₁, hs, hboot, hrun, hcr3,
    loaded_directory_allocated (boot_sound hI hboot) hmeets hrun⟩

theorem not_loaded_directory_allocated : ∃ (s : AddressSpaces) (m m₂ : Machine),
    s.Reachable true true ∧ Machine.boot s.vm = some m
      ∧ Run.exec (machineStep true true) m (serverEntered ++ [.exit]) = some m₂
      ∧ m₂.vm.frames.isFrameAllocated m₂.vm.mmu.cr3 = false := by
  obtain ⟨s, m, m₁, m₂, hs, hboot, hrun, -, hexit, hfree⟩ := exists_serverExit true true
  exact ⟨s, m, m₂, hs, hboot, Run.exec_concat hexit _ hrun, hfree⟩

end Runs

end DragonWare
