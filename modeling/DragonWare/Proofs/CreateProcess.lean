import DragonWare.Proofs.Process

/-!
# The steps of `CreateProcess`

Whatever each step before there is a directory keeps (`Starts`), and each step that fills it
(`Builds`), the whole call keeps. The address space it leaves is well formed (`Image.wellFormed`).
-/

namespace DragonWare

open Bitmap Option TwoLevel

namespace Vm

section Create

variable {regions : List MemoryRegion} {used used' : List ℕ} {debug pge : Bool} {v v' : Vm}
  {fresh : ℕ → Bool} {code : Memory.Mem} {codeSize a : ℕ} {n : ℕ} {u : Vm} {used₁ : List ℕ}
  {r : Option ProcessMemory} {kernel : ℕ → BitVec 32}

theorem findKernelStack_some {m : Mmu} : ∀ {n addr a : ℕ}, findKernelStack m n addr = some a →
    ∃ k < n, a = addr + k * (kernelStackSizePages * frameSize)
  | 0, _, _, h => by simp [findKernelStack] at h
  | n + 1, addr, a, h => by
    unfold findKernelStack at h
    split_ifs at h
    · obtain ⟨k, hk, rfl⟩ := findKernelStack_some h
      exact ⟨k + 1, by omega, by rw [Nat.add_mul]; omega⟩
    · exact ⟨0, by omega, by simpa using h.symm⟩

theorem getNextKernelStackAddress_scratch (h : v.getNextKernelStackAddress = some a) :
    Scratch a ∧ Scratch (a + frameSize) := by
  obtain ⟨k, hk, rfl⟩ := findKernelStack_some h
  rw [scratch_iff, scratch_iff]
  simp only [kernelStackBase, kernelStackEnd, kernelStackSizePages, frameSize] at hk ⊢
  omega

theorem mapKernelStackPage_spec {virt : ℕ} (hS : Space regions used v.mmu v.frames)
    (hv : Scratch virt) :
    ∃ used', v.Extends regions ∅ used (v.mapKernelStackPage virt).2 used'
      ∧ (v.mapKernelStackPage virt).2.tmpmap = v.tmpmap := by
  unfold mapKernelStackPage
  rcases hm : Mmu.mapSinglePage v.frames.allocateFrame.1 virt
    (pagePresent ||| pageRW ||| pageGlobal) v.mmu v.frames.allocateFrame.2 with ⟨st, mmu, frames⟩
  simp only [hm]
  rcases hS.frames.allocateFrame with ⟨-, hI⟩ | ⟨-, -, -, hI⟩
  · obtain ⟨rfl, hS', he, -⟩ := mapSinglePage_scratch (hS.reframe hI) hv hm
    exact ⟨used, ⟨hS', he, fun _ h => h⟩, trivial⟩
  · obtain ⟨rfl, hS', he, -⟩ := mapSinglePage_scratch (hS.allocated hI) hv hm
    exact ⟨_, ⟨hS', (Mmu.Extends.more (List.subset_cons_self ..)).trans he, fun _ h => h⟩, trivial⟩

/-- What `CreateProcess` does before it has a directory keeps `I`. -/
structure Starts (debug pge : Bool) (okStack : ℕ → Prop) (I : Vm → Prop) : Prop where
  take : ∀ {v v' : Vm} {fresh b : Bool}, I v → v.kmallocSmall debug pge fresh = some (b, v') → I v'
  stack : ∀ {v : Vm} {a : ℕ}, okStack a → I v → I (v.mapKernelStackPage a).2
  null : ∀ {v v' : Vm} {fresh : Bool}, I v →
    v.createTempVirtualMap debug pge fresh = some (none, v') → I v'

theorem Starts.createProcess {okStack : ℕ → Prop} {I : Vm → Prop} (hs : Starts debug pge okStack I)
    (hI : I v)
    (hstack : ∀ a, v.getNextKernelStackAddress = some a → okStack a ∧ okStack (a + frameSize))
    (h : v.createProcess debug pge fresh code codeSize = some (r, v')) :
    (r = none ∧ I v') ∨ ∃ p u v1 pd, r = some p ∧ p.cr3 = pd.addr.phys ∧ I u
      ∧ u.createTempVirtualMap debug pge (fresh 2) = some (some pd, v1)
      ∧ v1.buildAddressSpace debug pge (fun i => fresh (i + 3)) code codeSize pd = some v' := by
  unfold Vm.createProcess at h
  by_cases h0 : codeSize = 0
  · rw [if_pos h0] at h
    cases h
    exact .inl ⟨rfl, hI⟩
  rw [if_neg h0] at h
  obtain ⟨stack, hst, h⟩ := bind_eq_some_iff.1 h
  obtain ⟨hv0, hv1⟩ := hstack stack hst
  obtain ⟨⟨b, v1⟩, hk, h⟩ := bind_eq_some_iff.1 h
  have h1 := hs.take hI hk
  simp only [] at h
  by_cases hb : (!b) = true
  · rw [if_pos hb] at h
    cases h
    exact .inl ⟨rfl, h1⟩
  rw [if_neg hb] at h
  obtain ⟨⟨b', v4⟩, hk', h⟩ := bind_eq_some_iff.1 h
  have h4 := hs.take (hs.stack hv1 (hs.stack hv0 h1)) hk'
  simp only [] at h
  by_cases hb' : (!b') = true
  · rw [if_pos hb'] at h
    cases h
    exact .inl ⟨rfl, h4⟩
  rw [if_neg hb'] at h
  obtain ⟨⟨m, v5⟩, hm, h⟩ := bind_eq_some_iff.1 h
  rcases m with _ | pd
  · cases h
    exact .inl ⟨rfl, hs.null h4 hm⟩
  · obtain ⟨v6, hbuild, h⟩ := bind_eq_some_iff.1 h
    cases h
    exact .inr ⟨_, v4, v5, pd, rfl, rfl, h4, hm, hbuild⟩

theorem createProcess_split (hS : Space regions used v.mmu v.frames)
    (h : v.createProcess debug pge fresh code codeSize = some (r, v')) :
    (r = none ∧ ∃ used', v.Extends regions ∅ used v' used' ∧ v'.tmpmap = v.tmpmap)
      ∨ ∃ p u used₁ v1 used2 pd, r = some p ∧ p.cr3 = pd.addr.phys
        ∧ v.Extends regions ∅ used u used₁ ∧ u.tmpmap = v.tmpmap
        ∧ u.Extends regions ∅ used₁ v1 used2 ∧ NewMap u used₁ v1 used2 pd
        ∧ v1.buildAddressSpace debug pge (fun i => fresh (i + 3)) code codeSize pd = some v' := by
  have hs : Starts debug pge Scratch fun u =>
      ∃ used', v.Extends regions ∅ used u used' ∧ u.tmpmap = v.tmpmap := by
    refine ⟨fun ⟨_, he, ht⟩ hk => ?_, fun hv ⟨_, he, ht⟩ => ?_, fun ⟨_, he, ht⟩ hm => ?_⟩
    · obtain ⟨used2, he2, ht2⟩ := kmallocSmall_spec he.space hk
      exact ⟨used2, he.trans he2, ht2.trans ht⟩
    · obtain ⟨used2, he2, ht2⟩ := mapKernelStackPage_spec he.space hv
      exact ⟨used2, he.trans he2, ht2.trans ht⟩
    · obtain ⟨used2, he2, hnone, -⟩ := createTempVirtualMap_spec he.space hm
      exact ⟨used2, he.trans he2, (hnone rfl).1.trans ht⟩
  rcases hs.createProcess ⟨used, .refl hS, rfl⟩ (fun _ => getNextKernelStackAddress_scratch) h with
    h | ⟨p, u, v1, pd, rfl, hp, ⟨used₁, he, ht⟩, hm, hbuild⟩
  · exact .inl h
  · obtain ⟨used2, he2, -, hsome⟩ := createTempVirtualMap_spec he.space hm
    exact .inr ⟨p, u, used₁, v1, used2, pd, rfl, hp, he, ht, he2, hsome pd rfl, hbuild⟩

section Builds

def TempAddr (a : ℕ) : Prop := 0xF1C01000 ≤ a ∧ a < 0xF2001000

def AtSlot (m : VirtualMap) : Prop :=
  m.addr.virt = tmpMapAddrFromIndex m.slot ∧ m.slot < tmpMapMaxPages

variable {m pd pt : VirtualMap} {k : ℕ} {f : Bool}

theorem AtSlot.tempAddr (hm : AtSlot m) (hk : k < 4096) : TempAddr (m.addr.virt + k) := by
  obtain ⟨heq, hs⟩ := hm
  simp only [tmpMapMaxPages] at hs
  simp only [TempAddr, heq, tmpMapAddrFromIndex, temporaryVirtMapAddr, frameSize]
  omega

theorem atSlot_of_create (h : v.createTempVirtualMap debug pge f = some (some m, v')) :
    AtSlot m := by
  obtain ⟨-, v1, -, ⟨h, -⟩ | ⟨h, -⟩ | ⟨slot, -, -, -, hslot, -, -, ⟨h, -⟩ | ⟨h, -⟩⟩⟩ :=
    createTempVirtualMap_cases h
  · cases h
  · cases h
  · cases h
  · cases h
    obtain ⟨-, hlt, -⟩ := scanClear_some (by decide) v1.tmpmap _ _ hslot
    have hmax : (0 + tmpMapBitmapWords) * 32 = tmpMapMaxPages := by decide
    exact ⟨rfl, hmax ▸ hlt⟩

/-- What `CreateProcess` does around its directory keeps `I`, if it stores to addresses in `okAddr`
only. -/
structure Builds (debug pge : Bool) (okAddr : ℕ → Prop) (I : Vm → Prop) : Prop where
  create : ∀ {v v' : Vm} {fresh : Bool} {r : Option VirtualMap}, I v →
    v.createTempVirtualMap debug pge fresh = some (r, v') → I v'
  poke : ∀ {v : Vm} {a : ℕ} {e : BitVec 32} (row : ℕ → BitVec 32), okAddr a → I v →
    v.mmu.translate v.mmu.cr3 a = some e →
      I { v with mmu := v.mmu.setFrame (entryFrame e) row }
  delete : ∀ {v v' : Vm} {m : VirtualMap}, AtSlot m → I v →
    v.deleteTempVirtualMap debug m = some v' → I v'
  slot : ∀ a, TempAddr a → okAddr a

namespace Builds

variable {okAddr : ℕ → Prop} {I : Vm → Prop} (hb : Builds debug pge okAddr I)
include hb

theorem store {e : BitVec 32} (ha : okAddr a) (hI : I v) (h : v.store a e = some v') : I v' := by
  obtain ⟨mmu, hm, rfl⟩ := map_eq_some_iff.1 h
  obtain ⟨pte, hp, rfl⟩ := map_eq_some_iff.1 hm
  exact hb.poke _ ha hI hp

theorem zeroPage (ha : okAddr a) (hI : I v) (h : v.zeroPage a = some v') : I v' := by
  obtain ⟨mmu, hm, rfl⟩ := map_eq_some_iff.1 h
  obtain ⟨pte, hp, rfl⟩ := map_eq_some_iff.1 hm
  exact hb.poke _ ha hI hp

theorem copyToPage {bytes : Memory.Mem} (ha : okAddr a) (hI : I v)
    (h : v.copyToPage a bytes n = some v') : I v' := by
  obtain ⟨mmu, hm, rfl⟩ := map_eq_some_iff.1 h
  obtain ⟨pte, hp, rfl⟩ := map_eq_some_iff.1 hm
  exact hb.poke _ ha hI hp

theorem page (hm : AtSlot m) : okAddr m.addr.virt := hb.slot _ (hm.tempAddr (k := 0) (by decide))

theorem addStackPage {i : ℕ} (hm : AtSlot m) (hI : I v)
    (h : v.addStackPage debug pge f m i = some v') : I v' := by
  unfold Vm.addStackPage at h
  obtain ⟨⟨r, v1⟩, hr, h⟩ := bind_eq_some_iff.1 h
  obtain ⟨cur, hcur, h⟩ := bind_eq_some_iff.1 h
  obtain ⟨v2, hstore, h⟩ := bind_eq_some_iff.1 h
  have := ptIndex_lt (defaultUserStackAddr - i * frameSize)
  exact hb.delete (atSlot_of_create (hcur ▸ hr))
    (hb.store (hb.slot _ (hm.tempAddr (by omega))) (hb.create hI hr) hstore) h

theorem addUserStack (hpd : AtSlot pd) (hI : I v)
    (h : v.addUserStack debug pge fresh pd.addr.virt = some v') : I v' := by
  unfold Vm.addUserStack at h
  obtain ⟨⟨r, v1⟩, hr, h⟩ := bind_eq_some_iff.1 h
  obtain ⟨st, hst, h⟩ := bind_eq_some_iff.1 h
  obtain ⟨v2, hzero, h⟩ := bind_eq_some_iff.1 h
  obtain ⟨v3, hloop, h⟩ := bind_eq_some_iff.1 h
  obtain ⟨v4, hstore, h⟩ := bind_eq_some_iff.1 h
  have hm := atSlot_of_create (hst ▸ hr)
  have h3 : I v3 := Loop.times_invariant (I := fun _ => I) _
    (fun i _ u u' hu => hb.addStackPage hm hu) (hb.zeroPage (hb.page hm) (hb.create hI hr) hzero)
    hloop
  exact hb.delete hm (hb.store (hb.slot _ (hpd.tempAddr (by decide))) h3 hstore) h

theorem copyCodePage (hok : okAddr (pt.addr.virt + 4 * ((flatBinaryDefaultEntry + k * frameSize)
    / frameSize))) (hI : I v)
    (h : v.copyCodePage debug pge f code codeSize pt.addr.virt k = some v') : I v' := by
  unfold Vm.copyCodePage at h
  obtain ⟨⟨r, v1⟩, hr, h⟩ := bind_eq_some_iff.1 h
  obtain ⟨cm, hcm, h⟩ := bind_eq_some_iff.1 h
  obtain ⟨v2, hstore, h⟩ := bind_eq_some_iff.1 h
  obtain ⟨v3, hzero, h⟩ := bind_eq_some_iff.1 h
  obtain ⟨v4, hcopy, h⟩ := bind_eq_some_iff.1 h
  have hm := atSlot_of_create (hcm ▸ hr)
  exact hb.delete hm (hb.copyToPage (hb.page hm) (hb.zeroPage (hb.page hm)
    (hb.store hok (hb.create hI hr) hstore) hzero) hcopy) h

theorem buildAddressSpace (hcode : codeSize ≤ 0x300000 ∨ ∀ a, okAddr a) (hpd : AtSlot pd)
    (hI : I v) (h : v.buildAddressSpace debug pge fresh code codeSize pd = some v') : I v' := by
  obtain ⟨v1, v2, v3, v4, v5, v6, v7, v8, pt, hcopy, hr, hzero, hstack, hloop, hfirst, hlast, hdel,
    h⟩ := buildAddressSpace_cases h
  have hm := atSlot_of_create hr
  have h1 : I v1 := by
    refine Loop.times_invariant (I := fun _ => I) _ (fun i hi u u' hu => ?_) hI hcopy
    refine hb.store (hb.slot _ (hpd.tempAddr ?_)) hu
    simp only [maxPDEntries, kernelPDIndex, pdIndex, kernelVMBase] at hi ⊢
    omega
  have h4 := hb.addUserStack hpd (hb.zeroPage (hb.page hm) (hb.create h1 hr) hzero) hstack
  have h5 : I v5 := by
    refine Loop.times_invariant (I := fun _ => I) _ (fun k hk u u' hu => ?_) h4 hloop
    refine hb.copyCodePage ?_ hu
    rcases hcode with hsize | hall
    · refine hb.slot _ (hm.tempAddr ?_)
      simp only [pageSteps, flatBinaryDefaultEntry, frameSize] at hk ⊢
      omega
    · exact hall _
  have h7 := hb.store (hb.slot _ (hpd.tempAddr (by decide)))
    (hb.store (hb.page hpd) h5 hfirst) hlast
  exact hb.delete hm (hb.delete hpd h7 hdel) h

end Builds

end Builds

theorem directoryRow_congr {kernel' : ℕ → BitVec 32} (h : ∀ k ∈ kernelSlots, kernel' k = kernel k)
    (c : ℕ → ℕ) (n pd pt st k : ℕ) :
    directoryRow kernel' c n pd pt st k = directoryRow kernel c n pd pt st k := by
  unfold directoryRow closedRow spillRow
  by_cases hk : 768 ≤ k ∧ k < 1023
  · simp only [if_pos hk, h k hk]
  · simp only [if_neg hk]

theorem directoryRow_fits (kernel : ℕ → BitVec 32) (c : ℕ → ℕ) (hn : n ≤ 768) (pd pt st k : ℕ) :
    directoryRow kernel c n pd pt st k =
      if k = 1023 then BitVec.ofNat 32 pd ||| kernelPDEFlags
      else if k = 0 then BitVec.ofNat 32 pt ||| userPageFlags
      else if k = 767 then BitVec.ofNat 32 st ||| userPageFlags
      else if 768 ≤ k ∧ k < 1023 then kernel k else 0#32 := by
  unfold directoryRow closedRow
  rw [spillRow_of_le _ _ hn]

theorem directoryRow_kernel {c : ℕ → ℕ} {k : ℕ} (hn : n ≤ 768) (hk : k ∈ kernelSlots)
    (pd pt st : ℕ) : directoryRow kernel c n pd pt st k = kernel k := by
  obtain ⟨hlo, hhi⟩ : 768 ≤ k ∧ k < 1023 := hk
  rw [directoryRow_fits _ _ hn, if_neg (by omega), if_neg (by omega), if_neg (by omega),
    if_pos ⟨hlo, hhi⟩]

theorem Extends.pde {touched : Set ℕ} (hS : Space regions used v.mmu v.frames)
    (he : v.Extends regions touched used v' used') {k : ℕ} (hk : k ∈ kernelSlots) :
    v'.mmu.pde k = v.mmu.pde k := by
  unfold Mmu.pde
  rw [he.pages.cr3]
  refine he.pages.tables.entry k (.inr ?_)
  rw [isSome_entryChild]
  exact hS.kernel k hk

variable {pd pt st : ℕ} {c g : ℕ → ℕ} {used2 : List ℕ}

theorem Image.of_extends (hS : Space regions used v.mmu v.frames)
    (he : v.Extends regions ∅ used u used₁)
    (hB : Image regions u used₁ v' used' code codeSize pd pt st c g) :
    Image regions v used v' used' code codeSize pd pt st c g := by
  refine { hB with
    evolves := (he.pages.toEvolves.weaken fun _ _ h => h.elim).trans hB.evolves
    tableFresh := fun h => hB.tableFresh (he.sub h)
    stackFresh := fun h => hB.stackFresh (he.sub h)
    codePages := ⟨hB.codePages.toPages.mono he.sub, hB.codePages.bytes⟩
    stackPages := hB.stackPages.mono he.sub
    row := fun k => ?_ }
  rw [hB.row]
  exact directoryRow_congr (fun k hk => Extends.pde hS he hk) ..

section Image

variable (hS : Space regions used v.mmu v.frames) (hn : pageSteps 0 codeSize ≤ 768)
  (hB : Image regions v used v' used' code codeSize pd pt st c g)

include hS hB

theorem Image.row_current (k : ℕ) : v'.mmu.table pd k
    = directoryRow v'.mmu.pde c (pageSteps 0 codeSize) pd pt st k := by
  rw [hB.row]
  refine (directoryRow_congr (fun k hk => ?_) ..).symm
  unfold Mmu.pde
  rw [hB.evolves.cr3]
  refine hB.evolves.tables.entry k (.inr ?_)
  rw [isSome_entryChild]
  exact hS.kernel k hk

include hn

theorem Image.child {k f : ℕ} (hk : k ∈ tableSlots) (hf : entryChild (v'.mmu.table pd k) = some f) :
    (k = 0 ∧ f = pt) ∨ (k = 767 ∧ f = st)
      ∨ (k ∈ kernelSlots ∧ entryChild (v'.mmu.pde k) = some f) := by
  have huser : ∀ g ∈ used', entryChild (BitVec.ofNat 32 g ||| userPageFlags) = some g := by
    intro g hg
    obtain ⟨hlt, hal⟩ := hB.space.bounds hg
    exact entryChild_or hlt hal (by decide) (by decide)
  have hk' : k ≠ 1023 := ne_of_lt hk
  rw [hB.row_current hS, directoryRow_fits _ _ hn, if_neg hk'] at hf
  split_ifs at hf with h0 h767 hker
  · rw [huser pt hB.ownTable.1] at hf
    exact .inl ⟨h0, (some.inj hf).symm⟩
  · rw [huser st hB.ownStack.1] at hf
    exact .inr (.inl ⟨h767, (some.inj hf).symm⟩)
  · exact .inr (.inr ⟨hker, hf⟩)
  · rw [entryChild_zero] at hf
    cases hf

theorem Image.wellFormed : WellFormed entryChild tableSlots {f | f ∈ used'} v'.mmu.table pd := by
  have hkernel : ∀ {k f : ℕ}, k ∈ kernelSlots → entryChild (v'.mmu.pde k) = some f →
      Holds entryChild tableSlots v'.mmu.table v'.mmu.cr3 f := fun hk hf =>
    .inr ⟨_, kernelSlots_subset hk, hf⟩
  have hw := hB.space.wellFormed
  refine ⟨?_, fun k hk hf => ?_, fun k hk l hl f hkf hlf => ?_⟩
  · rintro f (rfl | ⟨k, hk, hf⟩)
    · exact hB.ownDirectory.1
    · rcases hB.child hS hn hk hf with ⟨-, rfl⟩ | ⟨-, rfl⟩ | ⟨hk, hf⟩
      · exact hB.ownTable.1
      · exact hB.ownStack.1
      · exact hw.live f (hkernel hk hf)
  · rcases hB.child hS hn hk hf with ⟨-, h⟩ | ⟨-, h⟩ | ⟨hk, hf⟩
    · exact hB.tableNe h.symm
    · exact hB.stackNe.1 h.symm
    · exact hB.ownDirectory.2 (hkernel hk hf)
  · rcases hB.child hS hn hk hkf with ⟨rfl, rfl⟩ | ⟨rfl, rfl⟩ | ⟨hk, hkf⟩ <;>
      rcases hB.child hS hn hl hlf with ⟨rfl, h⟩ | ⟨rfl, h⟩ | ⟨hl, hlf⟩
    · rfl
    · exact absurd h.symm hB.stackNe.2
    · exact absurd (hkernel hl hlf) hB.ownTable.2
    · exact absurd h hB.stackNe.2
    · rfl
    · exact absurd (hkernel hl hlf) hB.ownStack.2
    · exact absurd (h ▸ hkernel hk hkf) hB.ownTable.2
    · exact absurd (h ▸ hkernel hk hkf) hB.ownStack.2
    · exact hw.inj k (kernelSlots_subset hk) l (kernelSlots_subset hl) f hkf hlf

end Image

theorem tmpmap_of_newMap {v1 : Vm} {pd : VirtualMap} (hN : NewMap u used₁ v1 used2 pd)
    (ht : ∀ s, testBit v'.tmpmap s = (testBit v1.tmpmap s && !decide (s = pd.slot)))
    (s : ℕ) : testBit v'.tmpmap s = testBit u.tmpmap s := by
  rw [ht, hN.tmpmap, testBit_setBit (by decide)]
  by_cases hs : s = pd.slot
  · rw [hs, hN.clear]
    simp
  · simp [hs]

theorem findFreeTmpMapSlot_eq {s : ℕ} (hs : s < tmpMapMaxPages)
    (hc : testBit v.tmpmap s = false) (hset : ∀ i < s, testBit v.tmpmap i = true) :
    v.findFreeTmpMapSlot = some s := by
  rcases h : v.findFreeTmpMapSlot with _ | a
  · have := scanClear_none (by decide) v.tmpmap _ _ h s (by omega) hs
    rw [hc] at this
    cases this
  obtain ⟨-, -, ha, hfirst⟩ := scanClear_some (by decide) v.tmpmap _ _ h
  rcases lt_trichotomy a s with hlt | rfl | hlt
  · rw [hset a hlt] at ha
    cases ha
  · rfl
  · rw [hfirst s (by omega) hlt] at hc
    cases hc

theorem NewMap.entriesFit {pd : VirtualMap} (hN : NewMap u used₁ v used2 pd)
    (hempty : ∀ s, testBit u.tmpmap s = false) (hn : n ≤ 1792) : EntriesFit v pd n := by
  have hslot : pd.slot = 0 := by
    have h := findFreeTmpMapSlot_eq (v := u) (s := 0) (by decide) (hempty 0) fun i hi => by omega
    rw [hN.free, some.injEq] at h
    exact h
  refine .inr ⟨hn, hslot, findFreeTmpMapSlot_eq (by decide) ?_ fun i hi => ?_⟩
  · rw [hN.tmpmap, testBit_setBit (by decide), hempty, hslot]
    rfl
  · rw [hN.tmpmap, testBit_setBit (by decide), hslot, Nat.lt_one_iff.1 hi]
    simp

theorem createProcess_some {p : ProcessMemory} (hS : Space regions used v.mmu v.frames)
    (hn : codeSize ≤ 0x700000) (hempty : ∀ s, testBit v.tmpmap s = false)
    (h : v.createProcess debug pge fresh code codeSize = some (some p, v')) :
    ∃ used' pt st c g, Image regions v used v' used' code codeSize p.cr3 pt st c g ∧ p.cr3 ∉ used
      ∧ ∀ s, testBit v'.tmpmap s = false := by
  rcases createProcess_split hS h with ⟨h, -⟩ | ⟨p', u, used₁, v1, used2, pd, hp, hcr3, he, ht, he1,
    hN, hbuild⟩
  · cases h
  cases hp
  have hpages : pageSteps 0 codeSize ≤ 1792 := by
    simp only [pageSteps, frameSize]
    omega
  have hempty' : ∀ s, testBit u.tmpmap s = false := fun s => by
    rw [ht]
    exact hempty s
  obtain ⟨used', pt, st, c, g, hB, ht'⟩ :=
    buildAddressSpace_spec hN.map he1.space hN.zero (hN.entriesFit hempty' hpages) hbuild
  refine ⟨used', pt, st, c, g, ?_, ?_, fun s => ?_⟩
  · rw [hcr3]
    exact .of_extends hS (he.trans he1) hB
  · rw [hcr3]
    exact fun h => hN.fresh (he.sub h)
  · rw [tmpmap_of_newMap hN ht', ht]
    exact hempty s

end Create

end Vm

end DragonWare
