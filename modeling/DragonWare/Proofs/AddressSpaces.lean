import DragonWare.Proofs.Progress

/-!
# All address spaces

The directories of all processes are a family of two-level tables that share the kernel's tables
(`SpacesInv`), so what one of them maps in the kernel half, all of them map.
-/

namespace DragonWare

open Function Mmu Option TwoLevel

structure SpacesInv (regions : List MemoryRegion) (used : List ℕ) (s : AddressSpaces) : Prop where
  frames : FrameInv regions (s.vm.frames, used)
  family : Family entryChild tableSlots kernelSlots {f | f ∈ used} s.vm.mmu.table {d | d ∈ s.spaces}
  recursive : ∀ d ∈ s.spaces, entryChild (s.vm.mmu.table d 1023) = some d
  current : s.vm.mmu.cr3 ∈ s.spaces
  dataLive : s.data ⊆ used
  dataNodup : s.data.Nodup
  dataFree : ∀ f ∈ s.data, ∀ d ∈ s.spaces, ¬ Holds entryChild tableSlots s.vm.mmu.table d f
  tmpmap : ∀ i, Bitmap.testBit s.vm.tmpmap i = false

namespace SpacesInv

variable {regions : List MemoryRegion} {used used' : List ℕ} {s s' : AddressSpaces} {v' : Vm}
  {debug pge : Bool} {d : ℕ}

section

variable (hI : SpacesInv regions used s)

include hI

theorem space : Space regions used s.vm.mmu s.vm.frames := by
  refine ⟨hI.frames, hI.family.wellFormed _ hI.current, hI.recursive _ hI.current, fun i hi => ?_⟩
  rw [← isSome_entryChild]
  exact hI.family.full _ hI.current i hi

theorem row_of_evolves (he : s.vm.mmu.Evolves ∅ used v'.mmu used') (hd : d ∈ s.spaces)
    (hne : d ≠ s.vm.mmu.cr3) : v'.mmu.table d = s.vm.mmu.table d := by
  have hlive : d ∈ used := (hI.family.wellFormed d hd).live d (.inl rfl)
  exact (he.tables.keep d hlive (hI.family.apart d hd _ hI.current hne).1).2 (Set.notMem_empty d)

theorem not_holds_of_evolves (he : s.vm.mmu.Evolves ∅ used v'.mmu used') {f : ℕ}
    (hf : ∀ d ∈ s.spaces, ¬ Holds entryChild tableSlots s.vm.mmu.table d f)
    (hcur : ¬ Holds entryChild tableSlots v'.mmu.table v'.mmu.cr3 f) (hd : d ∈ s.spaces) :
    ¬ Holds entryChild tableSlots v'.mmu.table d f := by
  by_cases hne : d = s.vm.mmu.cr3
  · rw [hne, ← he.cr3]
    exact hcur
  · rw [holds_congr fun i _ => congrFun (hI.row_of_evolves he hd hne) i]
    exact hf d hd

theorem evolve (he : s.vm.mmu.Evolves ∅ used v'.mmu used')
    (hS : Space regions used' v'.mmu v'.frames)
    (ht : ∀ i, Bitmap.testBit v'.tmpmap i = Bitmap.testBit s.vm.tmpmap i) :
    SpacesInv regions used' { s with vm := v' } := by
  have hw : WellFormed entryChild tableSlots {f | f ∈ used'} v'.mmu.table s.vm.mmu.cr3 := by
    rw [← he.cr3]
    exact hS.wellFormed
  refine ⟨hS.frames, hI.family.evolve hI.current he.tables hw, fun d hd => ?_, ?_,
    fun f hf => he.tables.sub (hI.dataLive hf), hI.dataNodup, fun f hf d hd => ?_,
    fun i => (ht i).trans (hI.tmpmap i)⟩
  · by_cases hne : d = s.vm.mmu.cr3
    · rw [hne, ← he.cr3]
      exact hS.recursive
    · rw [hI.row_of_evolves he hd hne]
      exact hI.recursive d hd
  · rw [he.cr3]
    exact hI.current
  · refine hI.not_holds_of_evolves he (hI.dataFree f hf) ?_ hd
    rw [he.cr3]
    exact (he.tables.keep f (hI.dataLive hf) (hI.dataFree f hf _ hI.current)).1

theorem create {code : Memory.Mem} {codeSize pd pt st : ℕ} {c g : ℕ → ℕ} (hn : codeSize ≤ 0x300000)
    (hB : Vm.Image regions s.vm used v' used' code codeSize pd pt st c g) (hpd : pd ∉ used)
    (ht : ∀ i, Bitmap.testBit v'.tmpmap i = false) :
    SpacesInv regions used' { s with vm := v', spaces := pd :: s.spaces } := by
  have he : s.vm.mmu.Evolves ∅ used v'.mmu used' := hB.evolves.weaken fun f hf hfp => by
    exact (hpd (Set.mem_singleton_iff.1 hfp ▸ hf)).elim
  have hpages : pageSteps 0 codeSize ≤ 768 := by
    simp only [pageSteps, frameSize]
    omega
  have hI' := hI.evolve he hB.space fun i => (ht i).trans (hI.tmpmap i).symm
  have hfree : ∀ f ∉ used, v'.mmu.Own used' f →
      ∀ d ∈ s.spaces, ¬ Holds entryChild tableSlots v'.mmu.table d f := fun f hf hown d hd =>
    hI.not_holds_of_evolves he (fun c hc hh => hf ((hI.family.wellFormed c hc).live f hh)) hown.2 hd
  have hrow := hB.row_current hI.space
  have hset : {d | d ∈ pd :: s.spaces} = insert pd {d | d ∈ s.spaces} := by
    ext d
    simp
  refine { hI' with
    family := ?_
    recursive := fun d hd => ?_
    current := List.mem_cons_of_mem _ hI'.current
    dataFree := fun f hf d hd hh => ?_ }
  · change Family entryChild tableSlots kernelSlots {f | f ∈ used'} v'.mmu.table
      {d | d ∈ pd :: s.spaces}
    rw [hset]
    refine hI'.family.insert kernelSlots_subset (hB.wellFormed hI.space hpages) hI'.current
      (fun i hi => ?_) (hfree pd hpd hB.ownDirectory) fun i hi hns f hf => ?_
    · rw [hrow, Vm.directoryRow_kernel hpages hi]
      rfl
    · rcases hB.child hI.space hpages hi hf with ⟨-, rfl⟩ | ⟨-, rfl⟩ | ⟨hi, -⟩
      · exact hfree _ hB.tableFresh hB.ownTable
      · exact hfree _ hB.stackFresh hB.ownStack
      · exact absurd hi hns
  · rcases List.mem_cons.1 hd with rfl | hd
    · change entryChild (v'.mmu.table d 1023) = some d
      obtain ⟨hlt, hal⟩ := hB.space.bounds hB.ownDirectory.1
      rw [hrow]
      exact entryChild_or hlt hal (by decide) (by decide)
    · exact hI'.recursive d hd
  · rcases List.mem_cons.1 hd with rfl | hd
    · -- the tables of the new directory were not in use before, or are the kernel's
      rcases hh with rfl | ⟨i, hi, hi'⟩
      · exact hpd (hI.dataLive hf)
      rcases hB.child hI.space hpages hi hi' with ⟨-, rfl⟩ | ⟨-, rfl⟩ | ⟨hi, hi'⟩
      · exact hB.tableFresh (hI.dataLive hf)
      · exact hB.stackFresh (hI.dataLive hf)
      · exact hI'.dataFree f hf _ hI'.current (.inr ⟨i, kernelSlots_subset hi, hi'⟩)
    · exact hI'.dataFree f hf d hd hh

theorem step {op : SpaceOp}
    (h : spaceStep debug pge s op = some s') : ∃ used', SpacesInv regions used' s' := by
  cases op with
  | createProcess fresh code codeSize =>
    simp only [spaceStep] at h
    split_ifs at h with hn
    obtain ⟨⟨r, v'⟩, hr, rfl⟩ := map_eq_some_iff.1 h
    rcases r with _ | p
    · rcases Vm.createProcess_split hI.space hr with ⟨-, used', he, ht⟩ | ⟨p, h⟩
      · exact ⟨used', hI.evolve he.pages.toEvolves he.space fun i => by rw [ht]⟩
      · obtain ⟨-, -, -, -, -, h, -⟩ := h
        cases h
    · obtain ⟨used', pt, st, c, g, hB, hpd, ht⟩ :=
        Vm.createProcess_some hI.space (by omega) hI.tmpmap hr
      exact ⟨used', hI.create hn hB hpd ht⟩
  | swapProcess cr3 =>
    simp only [spaceStep] at h
    split_ifs at h with hc
    obtain rfl := some.inj h
    exact ⟨used, { hI with current := hc }⟩
  | mapSinglePage phys virt flags =>
    simp only [spaceStep] at h
    split_ifs at h with hv
    obtain rfl := some.inj h
    have hv' : pdIndex virt < 1023 := by
      unfold pdIndex
      omega
    rcases hm : mapSinglePage phys virt flags s.vm.mmu s.vm.frames with ⟨st, m', fm'⟩
    obtain ⟨used', hS', he, -⟩ := mapSinglePage_spec hI.space hv' hm
    exact ⟨used', hI.evolve he hS' fun _ => rfl⟩
  | unmapSinglePage virt =>
    simp only [spaceStep] at h
    split_ifs at h with hv
    obtain ⟨m', hm, rfl⟩ := map_eq_some_iff.1 h
    have hv' : pdIndex virt < 1023 := by
      unfold pdIndex
      omega
    obtain ⟨hS', he, -⟩ := unmapSinglePage_spec hI.space hv' hm
    exact ⟨used, hI.evolve he hS' fun _ => rfl⟩
  | allocateFrame =>
    simp only [spaceStep, some.injEq] at h
    subst h
    rcases hI.frames.allocateFrame with ⟨h0, hF⟩ | ⟨h0, hl, -, hF⟩
    · simp only [h0, if_true]
      exact ⟨used, { hI with frames := hF }⟩
    simp only [h0, if_false]
    have hI' : SpacesInv regions (s.vm.frames.allocateFrame.1 :: used)
        { s with vm := { s.vm with frames := s.vm.frames.allocateFrame.2 } } :=
      hI.evolve (.more (List.subset_cons_self _ _)) (hI.space.allocated hF) fun _ => rfl
    refine ⟨_, { hI' with
      dataLive := List.cons_subset_cons _ hI.dataLive
      dataNodup := List.nodup_cons.2 ⟨fun h => hl (hI.dataLive h), hI.dataNodup⟩
      dataFree := fun f hf d hd hh => ?_ }⟩
    rcases List.mem_cons.1 hf with rfl | hf
    · exact hl ((hI.family.wellFormed d hd).live _ hh)
    · exact hI.dataFree f hf d hd hh
  | freeFrame a =>
    simp only [spaceStep] at h
    split_ifs at h with ha
    obtain ⟨fm', hf, rfl⟩ := map_eq_some_iff.1 h
    obtain ⟨hfree, hF⟩ := hI.frames.freeFrame debug (hI.dataLive ha)
    rw [hfree] at hf
    obtain rfl := some.inj hf
    have hmem : ∀ f ∈ used, f ≠ a → f ∈ used.erase a := fun f hf hne =>
      (List.mem_erase_of_ne hne).2 hf
    refine ⟨used.erase a, { hI with
      frames := hF
      family := hI.family.restrict fun d hd f hh => ?_
      dataLive := fun f hf => ?_
      dataNodup := hI.dataNodup.erase a
      dataFree := fun f hf => hI.dataFree f (List.mem_of_mem_erase hf) }⟩
    · exact hmem f ((hI.family.wellFormed d hd).live f hh) fun h => hI.dataFree a ha d hd (h ▸ hh)
    · obtain ⟨hne, hf⟩ := (hI.dataNodup.mem_erase_iff).1 hf
      exact hmem f (hI.dataLive hf) hne
  | store a j e =>
    simp only [spaceStep] at h
    split_ifs at h with ha
    obtain rfl := some.inj h
    have hrow : ∀ d ∈ s.spaces, (s.vm.mmu.write a j e).table d = s.vm.mmu.table d := fun d hd =>
      setEntry_of_ne (fun h => hI.dataFree a ha d hd (.inl h.symm)) j e
    refine ⟨used, { hI with
      family := hI.family.congr hrow
      recursive := fun d hd => ?_
      dataFree := fun f hf d hd => ?_ }⟩
    · change entryChild ((s.vm.mmu.write a j e).table d 1023) = some d
      rw [hrow d hd]
      exact hI.recursive d hd
    · change ¬ Holds entryChild tableSlots (s.vm.mmu.write a j e).table d f
      rw [holds_congr fun i _ => congrFun (hrow d hd) i]
      exact hI.dataFree f hf d hd

end

theorem boot {image : LinkerSymbols} {mmu : Mmu} {frames : FrameManager} {data : List ℕ}
    (hF : FrameInv regions (frames, data))
    (h : (mmu.initVirtualMemoryManager pge image frames).1 = .ok) :
    ∃ used, SpacesInv regions used
      (.boot (mmu.initVirtualMemoryManager pge image frames) data) := by
  rcases hr : mmu.initVirtualMemoryManager pge image frames with ⟨st, m', fm'⟩
  rw [hr] at h
  obtain rfl : st = .ok := h
  obtain ⟨used, hsub, hS, hfree, -⟩ := initVirtualMemoryManager_spec hF hr
  have hset : {d | d ∈ [m'.cr3]} = {m'.cr3} := by
    ext d
    simp
  refine ⟨used, hS.frames, ?_, ?_, List.mem_singleton_self _, hsub, hF.nodup, ?_, fun i => ?_⟩
  · change Family entryChild tableSlots kernelSlots _ m'.table {d | d ∈ [m'.cr3]}
    rw [hset]
    refine .singleton hS.wellFormed fun i hi => ?_
    rw [isSome_entryChild]
    exact hS.kernel i hi
  · intro d hd
    obtain rfl := List.mem_singleton.1 hd
    exact hS.recursive
  · intro f hf d hd hh
    obtain rfl := List.mem_singleton.1 hd
    exact hfree f hh hf
  · change Bitmap.testBit (fun _ => 0#32) i = false
    simp [Bitmap.testBit]

end SpacesInv

theorem AddressSpaces.Reachable.step {debug pge : Bool} {s s' : AddressSpaces}
    (h : s.Reachable debug pge) (op : SpaceOp) (hs : spaceStep debug pge s op = some s') :
    s'.Reachable debug pge := by
  obtain ⟨fuel, regions, frames0, calls, frames, data, image, mmu, ops, h0, h1, h2, h3⟩ := h
  exact ⟨fuel, regions, frames0, calls, frames, data, image, mmu, ops ++ [op], h0, h1, h2,
    Run.exec_concat hs ops h3⟩

theorem AddressSpaces.Reachable.inv {debug pge : Bool} {s : AddressSpaces}
    (h : s.Reachable debug pge) : ∃ regions used, SpacesInv regions used s := by
  obtain ⟨fuel, regions, frames0, calls, frames, data, image, mmu, ops, h0, h1, h2, h3⟩ := h
  obtain ⟨used, hI⟩ := SpacesInv.boot (frameInv_of_run h0 h1) h2
  refine ⟨regions, Run.exec_invariant' (I := fun s => ∃ used, SpacesInv regions used s) ?_ ops
    ⟨used, hI⟩ h3⟩
  rintro s op s' ⟨used, hI⟩ hs
  exact hI.step hs

theorem exists_reachable_boot (debug pge : Bool) :
    ∃ s : AddressSpaces, s.Reachable debug pge ∧ s.vm.Ready 1791 0 0 := by
  obtain ⟨fm0, m, fm, used, h0, hinit, -, hR⟩ := exists_boot pge
  refine ⟨.boot (.ok, m, fm) [], ⟨2049, bootRegions, fm0, [], fm0, [], bootImage, blankMmu, [], h0,
    rfl, ?_, ?_⟩, hR⟩
  · rw [hinit]
  · rw [hinit]
    rfl

theorem exists_reachable_process (debug pge : Bool) :
    ∃ (s : AddressSpaces) (d d' : ℕ), s.Reachable debug pge ∧ d ∈ s.spaces ∧ d' ∈ s.spaces
      ∧ d ≠ d' := by
  obtain ⟨s, hs, hR⟩ := exists_reachable_boot debug pge
  obtain ⟨regions, used, hI⟩ := hs.inv
  have hpages : pageSteps 0 1 = 1 := by decide
  obtain ⟨p, v', hp, -⟩ := Vm.createProcess_total (n := 1781) debug pge (fun _ => 0#8) 1 hI.space
    (by rwa [hpages]) (by decide) (by decide) (by decide) hI.tmpmap
  obtain ⟨-, -, -, -, -, -, hfresh, -⟩ :=
    Vm.createProcess_some hI.space (by decide) hI.tmpmap hp
  refine ⟨{ s with vm := v', spaces := p.cr3 :: s.spaces }, p.cr3, s.vm.mmu.cr3,
    hs.step (.createProcess (fun _ => false) (fun _ => 0#8) 1) ?_, List.mem_cons_self ..,
    List.mem_cons_of_mem _ hI.current, fun h => ?_⟩
  · simp only [spaceStep, hp]
    rfl
  · exact hfresh (h ▸ hI.space.wellFormed.live _ (.inl rfl))

/-- The current address space as a partial map from pages to entries, below the window of the
tables. -/
def Mmu.pageMap (m : Mmu) (n : ℕ) : Option (BitVec 32) :=
  if n < 0xFFC00 then m.translate m.cr3 (n * frameSize) else none

section PageMap

variable {regions : List MemoryRegion} {used : List ℕ} {m m' : Mmu} {fm fm' : FrameManager} {n : ℕ}

theorem page_index (hn : n < 0xFFC00) :
    pdIndex (n * frameSize) = n / 1024 ∧ ptIndex (n * frameSize) = n % 1024 ∧ n / 1024 < 1023 := by
  simp only [pdIndex, ptIndex, frameSize]
  omega

theorem Mmu.pageMap_eq (m : Mmu) (hn : n < 0xFFC00) :
    m.pageMap n = m.lookup (n / 1024) (n % 1024) := by
  obtain ⟨hd, ht, -⟩ := page_index hn
  unfold pageMap
  rw [if_pos hn, translate_cr3, hd, ht]

theorem Mmu.pageMap_finite (m : Mmu) : {n | (m.pageMap n).isSome}.Finite := by
  refine (Set.finite_lt_nat 0xFFC00).subset fun n hn => ?_
  by_contra hlt
  have hlt : ¬ n < 0xFFC00 := hlt
  have hn : (m.pageMap n).isSome = true := hn
  simp [pageMap, hlt] at hn

theorem Mmu.pageMap_update {e : Option (BitVec 32)} (hn : n < 0xFFC00)
    (h : ∀ a < 1023, ∀ b, m'.lookup a b =
      if a = pdIndex (n * frameSize) ∧ b = ptIndex (n * frameSize) then e else m.lookup a b) :
    m'.pageMap = update m.pageMap n e := by
  obtain ⟨hd, ht, -⟩ := page_index hn
  funext k
  by_cases hk : k < 0xFFC00
  · obtain ⟨-, -, hk'⟩ := page_index hk
    rw [m'.pageMap_eq hk, h _ hk', hd, ht]
    by_cases hkn : k = n
    · rw [hkn, update_self, if_pos ⟨rfl, rfl⟩]
    · rw [update_of_ne hkn, m.pageMap_eq hk, if_neg (by omega)]
  · have hkn : k ≠ n := fun h => hk (h ▸ hn)
    rw [update_of_ne hkn]
    simp [pageMap, hk]

end PageMap

section Results

variable {debug pge : Bool} {s : AddressSpaces}

/-- The current address space is a finite partial map from pages to entries: mapping adds the page
it is asked for or changes nothing, unmapping takes one away, and `IsVirtualPageMapped` says which
pages are there. -/
theorem mapping_refines_pageMap (h : s.Reachable debug pge) :
    {n | (s.vm.mmu.pageMap n).isSome}.Finite
      ∧ ∀ n, 1 ≤ n → n < 0xFFC00 →
        s.vm.mmu.isVirtualPageMapped (n * frameSize) = (s.vm.mmu.pageMap n).isSome
        ∧ (∀ phys flags st m' fm',
          mapSinglePage phys (n * frameSize) flags s.vm.mmu s.vm.frames = (st, m', fm') →
            (st = .ok → s.vm.mmu.pageMap n = none
              ∧ m'.pageMap = update s.vm.mmu.pageMap n
                (if entryPresent (BitVec.ofNat 32 phys ||| flags) then
                  some (BitVec.ofNat 32 phys ||| flags) else none)
              ∧ (phys < 2 ^ 32 → flags &&& 0xFFFFF000#32 = 0#32 → flags.getLsbD 0 = true →
                (m'.pageMap n).map entryFrame = some phys))
            ∧ (st ≠ .ok → m'.pageMap = s.vm.mmu.pageMap))
        ∧ ∃ m', s.vm.mmu.unmapSinglePage debug (n * frameSize) = some m'
          ∧ m'.pageMap = update s.vm.mmu.pageMap n none := by
  obtain ⟨regions, used, hI⟩ := h.inv
  refine ⟨s.vm.mmu.pageMap_finite, fun n hn hlt => ?_⟩
  obtain ⟨hd, ht, hv⟩ := page_index hlt
  have hv' : pdIndex (n * frameSize) < 1023 := hd ▸ hv
  refine ⟨?_, fun phys flags st m' fm' hm => ?_, ?_⟩
  · rw [isVirtualPageMapped_eq]
    unfold pageMap
    rw [if_pos hlt]
  · obtain ⟨used', -, -, -, hok, hno⟩ := mapSinglePage_spec hI.space hv' hm
    refine ⟨fun hst => ?_, fun hst => by rw [hno hst]⟩
    obtain ⟨hnone, hlook⟩ := hok hst
    have hmap := pageMap_update hlt hlook
    refine ⟨?_, hmap, fun hphys hlow hpres => ?_⟩
    · rw [pageMap_eq _ hlt, ← hd, ← ht]
      exact hnone
    · have hal : phys % frameSize = 0 := by
        have hdir := hI.space.wellFormed.live s.vm.mmu.cr3 (.inl rfl)
        rcases mapSinglePage_cases hI.space.frames hdir hm with ⟨h, -⟩ | ⟨-, h, -⟩ | ⟨-, h, -⟩
        · exact absurd hst h
        · exact h.2.1
        · exact h.2.1
      rw [hmap, update_self, entryPresent_or _ hpres, if_pos rfl, map_some,
        entryFrame_or hphys hal hlow]
  · have hsome : ∃ m', s.vm.mmu.unmapSinglePage debug (n * frameSize) = some m' := by
      unfold unmapSinglePage
      rw [if_neg (by simp)]
      split_ifs <;> exact ⟨_, rfl⟩
    obtain ⟨m', hm⟩ := hsome
    obtain ⟨-, -, hlook⟩ := unmapSinglePage_spec hI.space hv' hm
    exact ⟨m', hm, pageMap_update hlt hlook⟩

/-- The page of the first temporary map is mapped to the frame at 1 MiB. -/
theorem mapping_refines_pageMap_boot :
    ∃ (s : AddressSpaces) (m' : Mmu), s.Reachable true true
      ∧ mapSinglePage 0x100000 (0xF2000 * frameSize) (pagePresent ||| pageRW) s.vm.mmu s.vm.frames
        = (.ok, m', s.vm.frames)
      ∧ s.vm.mmu.pageMap 0xF2000 = none
      ∧ (m'.pageMap 0xF2000).map entryFrame = some 0x100000 := by
  obtain ⟨s, hs, hR⟩ := exists_reachable_boot true true
  obtain ⟨regions, used, hI⟩ := hs.inv
  have hfree : s.vm.mmu.lookup _ _ = none := hR.free 0 (by decide) (hI.tmpmap 0)
  have hal : 0x100000 % frameSize = 0 := by decide
  obtain ⟨m', hm⟩ := Vm.mapSinglePage_total hI.space
    (Vm.tmpMapAddr_bounds (by decide)).2 hal (by decide) hfree (pagePresent ||| pageRW)
  obtain ⟨-, hmap, -⟩ := (mapping_refines_pageMap hs).2 0xF2000 (by decide) (by decide)
  obtain ⟨hnone, -, hadd⟩ := (hmap _ _ _ _ _ hm).1 rfl
  exact ⟨s, m', hs, hm, hnone, hadd (by decide) (by decide) (by decide)⟩

/-- Every kernel page has the same translation in all address spaces. -/
theorem kernelHalf_shared (h : s.Reachable debug pge) {d d' addr : ℕ} (hd : d ∈ s.spaces)
    (hd' : d' ∈ s.spaces) (hlo : kernelVMBase ≤ addr) (hhi : addr < 0xFFC00000) :
    s.vm.mmu.translate d addr = s.vm.mmu.translate d' addr := by
  obtain ⟨regions, used, hI⟩ := h.inv
  have hi : pdIndex addr ∈ kernelSlots := by
    change 768 ≤ pdIndex addr ∧ pdIndex addr < 1023
    simp only [pdIndex, kernelVMBase] at hlo ⊢
    omega
  rw [translate_eq, translate_eq]
  exact hI.family.lookup_eq hd hd' hi _

theorem kernelHalf_shared_two :
    ∃ (s : AddressSpaces) (d d' : ℕ), s.Reachable true true ∧ d ∈ s.spaces ∧ d' ∈ s.spaces ∧ d ≠ d'
      ∧ s.vm.mmu.translate d kernelVMBase = s.vm.mmu.translate d' kernelVMBase := by
  obtain ⟨s, d, d', hs, hd, hd', hne⟩ := exists_reachable_process true true
  exact ⟨s, d, d', hs, hd, hd', hne, kernelHalf_shared hs hd hd' le_rfl (by decide)⟩

/-- The directory and the tables of an address space are not available and are not handed out, and
what is not of the kernel half is in no other address space. -/
theorem spaces_apart {d : ℕ} (h : s.Reachable debug pge) (hd : d ∈ s.spaces) :
    (∀ f, Holds entryChild tableSlots s.vm.mmu.table d f →
      s.vm.frames.isFrameAllocated f = true ∧ f ∉ s.data)
      ∧ ∀ d' ∈ s.spaces, d ≠ d' → ¬ Holds entryChild tableSlots s.vm.mmu.table d' d
        ∧ ∀ i < 768, ∀ f, entryChild (s.vm.mmu.table d i) = some f →
          ¬ Holds entryChild tableSlots s.vm.mmu.table d' f := by
  obtain ⟨regions, used, hI⟩ := h.inv
  refine ⟨fun f hf => ⟨?_, fun hdata => hI.dataFree f hdata d hd hf⟩, fun d' hd' hne => ?_⟩
  · exact hI.frames.allocated_of_live ((hI.family.wellFormed d hd).live f hf)
  · obtain ⟨hdir, htable⟩ := hI.family.apart d hd d' hd' hne
    exact ⟨hdir, fun i hi => htable i (hi.trans (by decide)) fun hk => absurd hi hk.1.not_gt⟩

theorem spaces_apart_two :
    ∃ (s : AddressSpaces) (d d' : ℕ), s.Reachable true true ∧ d ∈ s.spaces ∧ d' ∈ s.spaces ∧ d ≠ d'
      ∧ ¬ Holds entryChild tableSlots s.vm.mmu.table d' d := by
  obtain ⟨s, d, d', hs, hd, hd', hne⟩ := exists_reachable_process true true
  exact ⟨s, d, d', hs, hd, hd', hne, ((spaces_apart hs hd).2 d' hd' hne).1⟩

end Results

end DragonWare
