import DragonWare.Proofs.AddressSpaces

/-!
# Loading an executable

`CreateProcess` enters the pages of an executable in one table, and the loop goes on behind its end,
where the new directory is.
-/

namespace DragonWare

open Option TwoLevel Vm

/-- The executable is in the address space of `dir`: its bytes, zeroes up to the end of its last
page, all on pages of user mode. -/
def LoadedExactly (m : Mmu) (dir : ℕ) (code : Memory.Mem) (codeSize : ℕ) : Prop :=
  ∀ x < pageSteps 0 codeSize * frameSize,
    m.byteAt dir (flatBinaryDefaultEntry + x) = some (if x < codeSize then code x else 0#8)
      ∧ m.userAccessible dir (flatBinaryDefaultEntry + x) = true

/-- Any state of the address spaces, and any after executables have been loaded there, with nothing
mapped behind the temporary maps. -/
inductive Loadable (debug pge : Bool) : Vm → Prop
  | reached {s : AddressSpaces} (h : s.Reachable debug pge) : Loadable debug pge s.vm
  | loaded {v v' : Vm} {fresh : ℕ → Bool} {code : Memory.Mem} {codeSize : ℕ}
    {r : Option ProcessMemory} (hv : Loadable debug pge v)
    (hbehind : v.mmu.isVirtualPageMapped (temporaryVirtMapAddr + frameSize) = false)
    (h : v.createProcess debug pge fresh code codeSize = some (r, v')) : Loadable debug pge v'

variable {e : BitVec 32} {addr : ℕ}

section Fits

variable {regions : List MemoryRegion} {used used' : List ℕ} {v v' : Vm} {code : Memory.Mem}
  {codeSize pd pt st : ℕ} {c g : ℕ → ℕ}

theorem translate_of_entries {m : Mmu} {dir f : ℕ} {pte : BitVec 32}
    (hd : entryChild (m.table dir (pdIndex addr)) = some f) (ht : m.table f (ptIndex addr) = pte)
    (hp : entryPresent pte = true) : m.translate dir addr = some pte := by
  rw [Mmu.translate_eq]
  unfold TwoLevel.lookup
  rw [hd, bind_some, ht, isSome_entryChild, hp, if_pos rfl]

theorem and_twoPow_ne_zero {i : ℕ} (hi : i < 32) :
    e &&& BitVec.twoPow 32 i ≠ 0#32 ↔ e.getLsbD i = true := by
  rw [BitVec.and_twoPow]
  split_ifs with h
  · simp only [h, ne_eq, iff_true]
    intro h0
    have := congrArg (fun e : BitVec 32 => e.getLsbD i) h0
    simp [hi] at this
  · simp [h]

theorem entryPresent_iff : entryPresent e = true ↔ e.getLsbD 0 = true := by
  rw [← and_twoPow_ne_zero (by decide)]
  exact decide_eq_true_iff

theorem and_pageUser_ne_zero : e &&& pageUser ≠ 0#32 ↔ e.getLsbD 2 = true :=
  and_twoPow_ne_zero (e := e) (i := 2) (by decide)

theorem and_pageUser_or (f : ℕ) : (BitVec.ofNat 32 f ||| userPageFlags) &&& pageUser ≠ 0#32 := by
  rw [and_pageUser_ne_zero, BitVec.getLsbD_or]
  simp [userPageFlags, pagePresent, pageRW, pageUser]

theorem Vm.Image.loaded (hB : Image regions v used v' used' code codeSize pd pt st c g)
    (hsize : codeSize ≤ 0x300000) : LoadedExactly v'.mmu pd code codeSize := by
  have hn : pageSteps 0 codeSize ≤ 768 := by
    simp only [pageSteps, frameSize]
    omega
  have huser : ∀ f ∈ used', entryChild (BitVec.ofNat 32 f ||| userPageFlags) = some f := by
    intro f hf
    obtain ⟨hlt, hal⟩ := hB.space.bounds hf
    exact entryChild_or hlt hal (by decide) (by decide)
  intro x hx
  obtain ⟨k, y, hy, rfl⟩ : ∃ k y, y < frameSize ∧ x = k * frameSize + y :=
    ⟨x / frameSize, x % frameSize, Nat.mod_lt _ (by decide), (Nat.div_add_mod' x frameSize).symm⟩
  have hk : k < pageSteps 0 codeSize := by
    by_contra hge
    have := Nat.mul_le_mul_right frameSize (not_lt.1 hge)
    omega
  set addr := flatBinaryDefaultEntry + (k * frameSize + y) with haddr
  have hidx : pdIndex addr = 0 ∧ ptIndex addr = 256 + k ∧ addr % frameSize = y := by
    simp only [flatBinaryDefaultEntry, frameSize, pdIndex, ptIndex] at hy haddr ⊢
    omega
  obtain ⟨hpdi, hpti, hmod⟩ := hidx
  have hdir : v'.mmu.table pd (pdIndex addr) = BitVec.ofNat 32 pt ||| userPageFlags := by
    rw [hpdi, hB.row, directoryRow_fits _ _ hn]
    rfl
  have hpte : v'.mmu.table pt (ptIndex addr) = BitVec.ofNat 32 (c k) ||| userPageFlags := by
    rw [hpti, hB.codeRow _ (by omega), Vm.codeRow, if_pos (by omega), Nat.add_sub_cancel_left]
  have htr : v'.mmu.translate pd addr = some (BitVec.ofNat 32 (c k) ||| userPageFlags) :=
    translate_of_entries (hdir ▸ huser pt hB.ownTable.1) hpte (entryPresent_or _ (by decide))
  obtain ⟨hlt, hal⟩ := hB.space.bounds (hB.codePages.own k hk).1
  constructor
  · unfold Mmu.byteAt
    rw [htr, map_some, entryFrame_or hlt hal (by decide), hmod, hB.codePages.bytes k hk y hy]
  · unfold Mmu.userAccessible
    rw [htr]
    simp [hdir, and_pageUser_or]

/-- Past three megabytes the first page that did not fit is missing, or it is reached through the
second one that did not fit, read as a table. -/
theorem Vm.Image.spilled (hB : Image regions v used v' used' code codeSize pd pt st c g)
    (hsize : 0x300000 < codeSize) (h : LoadedExactly v'.mmu pd code codeSize) :
    0x301000 < codeSize ∧ (code 0x301000).getLsbD 0 = true ∧ (code 0x301000).getLsbD 2 = true := by
  have hx : 0x300000 < pageSteps 0 codeSize * frameSize := by
    simp only [pageSteps, frameSize]
    omega
  obtain ⟨hbyte, huser⟩ := h 0x300000 hx
  have hrow : v'.mmu.table pd 1 = if 769 < pageSteps 0 codeSize then
      BitVec.ofNat 32 (c 769) ||| userPageFlags else 0#32 := by
    rw [hB.row]
    rfl
  set addr := flatBinaryDefaultEntry + 0x300000 with haddr
  have hpdi : pdIndex addr = 1 := by decide
  have hpti : ptIndex addr = 0 := by decide
  by_cases hn : 769 < pageSteps 0 codeSize
  · have hlarge : 769 * frameSize < codeSize := by
      simp only [pageSteps, frameSize] at hn ⊢
      omega
    obtain ⟨hlt, hal⟩ := hB.space.bounds (hB.codePages.own 769 hn).1
    rw [if_pos hn] at hrow
    have hframe : entryFrame (v'.mmu.table pd 1) = c 769 := by
      rw [hrow, entryFrame_or hlt hal (by decide)]
    -- the low byte of the entry is a byte of the executable
    have hlow : (v'.mmu.table (c 769) 0).extractLsb' 0 8 = code 0x301000 := by
      have := hB.codePages.bytes 769 hn 0 (by decide)
      rw [Nat.add_zero, if_pos hlarge] at this
      exact this
    have hbit : ∀ i < 8, (v'.mmu.table (c 769) 0).getLsbD i = (code 0x301000).getLsbD i := by
      intro i hi
      rw [← hlow, BitVec.getLsbD_extractLsb']
      simp [hi]
    unfold Mmu.userAccessible at huser
    split at huser
    · next pte htr =>
      unfold Mmu.translate at htr
      simp only [hpdi, hpti, hframe] at htr
      split_ifs at htr with hp hq
      obtain rfl := some.inj htr
      simp only [Bool.and_eq_true, decide_eq_true_eq] at huser
      rw [← hbit 0 (by decide), ← hbit 2 (by decide)]
      exact ⟨hlarge, entryPresent_iff.1 hq, and_pageUser_ne_zero.1 huser.2⟩
    · cases huser
  · rw [if_neg hn] at hrow
    unfold Mmu.byteAt Mmu.translate at hbyte
    rw [hpdi, hrow] at hbyte
    simp [entryPresent] at hbyte

end Fits

section Loading

variable {regions : List MemoryRegion} {used used' : List ℕ} {debug pge : Bool} {v v' : Vm}
  {fresh : ℕ → Bool} {code : Memory.Mem} {codeSize : ℕ}

theorem behind_of_extends {touched : Set ℕ} (he : v.Extends regions touched used v' used')
    (h : PageFree v.mmu (temporaryVirtMapAddr + frameSize)) :
    PageFree v'.mmu (temporaryVirtMapAddr + frameSize) := by
  refine (he.pages.outside _ (by decide) _ ?_).trans h
  rintro a ha ⟨hd, ht⟩
  rw [scratch_iff] at ha
  simp only [temporaryVirtMapAddr, frameSize, pdIndex, ptIndex] at hd ht
  omega

theorem store_eq_none (h : PageFree v.mmu addr) : v.store addr e = none := by
  unfold store Mmu.store
  rw [Mmu.translate_cr3, show v.mmu.lookup _ _ = none from h]
  rfl

theorem buildAddressSpace_overrun {pd : VirtualMap} (hM : TempMap v used pd)
    (hS : Space regions used v.mmu v.frames) (hzero : ∀ j, v.mmu.table pd.addr.phys j = 0#32)
    (hfit : EntriesFit v pd 1792) (hslot : pd.slot = 0)
    (hbehind : PageFree v.mmu (temporaryVirtMapAddr + frameSize)) (hsize : 0x700000 < codeSize) :
    v.buildAddressSpace debug pge fresh code codeSize pd ≠ some v' := by
  intro h
  obtain ⟨v1, v2, v3, v4, v5, -, -, -, pt, h1, h2, h3, h4, h5, -⟩ := buildAddressSpace_cases h
  have hpages : 1792 < pageSteps 0 codeSize := by
    simp only [pageSteps, frameSize]
    omega
  obtain ⟨used4, st, g, hP, -, hpt⟩ := prepare hM hS hzero h1 h2 h3 h4
  have hne : pd.addr.phys ≠ pt.addr.phys := fun h => hP.tableFresh (h ▸ hM.own.1)
  have hentries := hfit.mapped hP.directory.virt hP.table.virt hP.slot
  -- after so many rounds both pages are full, and the next store is to the page behind them
  obtain ⟨u, u', hu, hround⟩ := Loop.times_round _ h5 hpages
  obtain ⟨used5, c, he, -⟩ :=
    copyCode_spec hP.directory hP.table hne hP.pages.space hpt hentries hu
  have hfree := behind_of_extends he (behind_of_extends hP.pages hbehind)
  have haddr : pt.addr.virt + 4 * ((flatBinaryDefaultEntry + 1792 * frameSize) / frameSize)
      = temporaryVirtMapAddr + frameSize := by
    rcases hentries with h | ⟨-, h⟩
    · omega
    rw [hP.directory.virt, hslot] at h
    simp only [tmpMapAddrFromIndex, flatBinaryDefaultEntry, frameSize, temporaryVirtMapAddr]
      at h ⊢
    omega
  unfold copyCodePage at hround
  obtain ⟨⟨r, u1⟩, hr, hround⟩ := bind_eq_some_iff.1 hround
  obtain ⟨m, -, hround⟩ := bind_eq_some_iff.1 hround
  obtain ⟨u2, hs, -⟩ := bind_eq_some_iff.1 hround
  obtain ⟨used6, he6, -⟩ := createTempVirtualMap_spec he.space hr
  rw [haddr, store_eq_none (behind_of_extends he6 hfree)] at hs
  cases hs

theorem createProcess_size {p : ProcessMemory} (hS : Space regions used v.mmu v.frames)
    (hempty : ∀ s, Bitmap.testBit v.tmpmap s = false)
    (hbehind : PageFree v.mmu (temporaryVirtMapAddr + frameSize))
    (h : v.createProcess debug pge fresh code codeSize = some (some p, v')) :
    codeSize ≤ 0x700000 := by
  by_contra hsize
  rcases createProcess_split hS h with ⟨h, -⟩ | ⟨p', u, used1, v1, used2, pd, -, -, he, ht, he1,
    hN, hbuild⟩
  · cases h
  have hempty' : ∀ s, Bitmap.testBit u.tmpmap s = false := fun s => by
    rw [ht]
    exact hempty s
  have hfit := hN.entriesFit hempty' (n := 1792) le_rfl
  have hslot : pd.slot = 0 := by
    rcases hN.entriesFit hempty' (n := 1792) le_rfl with h | ⟨-, h, -⟩
    · omega
    · exact h
  exact buildAddressSpace_overrun hN.map he1.space hN.zero hfit hslot
    (behind_of_extends he1 (behind_of_extends he hbehind)) (by omega) hbuild

theorem Loadable.sound (hv : Loadable debug pge v) :
    ∃ regions used, Space regions used v.mmu v.frames
      ∧ ∀ s, Bitmap.testBit v.tmpmap s = false := by
  induction hv with
  | reached h =>
    obtain ⟨regions, used, hI⟩ := h.inv
    exact ⟨regions, used, hI.space, hI.tmpmap⟩
  | @loaded v v' _ _ _ r _ hbehind h ih =>
    obtain ⟨regions, used, hS, hempty⟩ := ih
    rcases r with _ | p
    · rcases createProcess_split hS h with ⟨-, used', he, ht⟩ | ⟨_, h⟩
      · exact ⟨regions, used', he.space, fun s => by rw [ht]; exact hempty s⟩
      · obtain ⟨-, -, -, -, -, h, -⟩ := h
        cases h
    · have hsize := createProcess_size hS hempty (pageFree_iff.2 hbehind) h
      obtain ⟨used', pt, st, c, g, hB, -, ht⟩ := createProcess_some hS hsize hempty h
      exact ⟨regions, used', hB.space, ht⟩

/-- An executable of at most three megabytes is loaded exactly. A larger one is not, unless its own
bytes at the second page that does not fit say, read as an entry of a table, that the first one is
there for user mode. -/
theorem createProcess_loads {p : ProcessMemory} (hv : Loadable debug pge v)
    (h : v.createProcess debug pge fresh code codeSize = some (some p, v')) :
    (codeSize ≤ 0x300000 → LoadedExactly v'.mmu p.cr3 code codeSize)
      ∧ (v.mmu.isVirtualPageMapped (temporaryVirtMapAddr + frameSize) = false →
        LoadedExactly v'.mmu p.cr3 code codeSize → codeSize ≤ 0x300000
          ∨ (0x301000 < codeSize ∧ (code 0x301000).getLsbD 0 = true
            ∧ (code 0x301000).getLsbD 2 = true)) := by
  obtain ⟨regions, used, hS, hempty⟩ := hv.sound
  refine ⟨fun hsize => ?_, fun hbehind hload => ?_⟩
  · obtain ⟨used', pt, st, c, g, hB, -⟩ := createProcess_some hS (by omega) hempty h
    exact hB.loaded hsize
  · by_cases hsize : codeSize ≤ 0x300000
    · exact .inl hsize
    · have hmax := createProcess_size hS hempty (pageFree_iff.2 hbehind) h
      obtain ⟨used', pt, st, c, g, hB, -⟩ := createProcess_some hS hmax hempty h
      exact .inr (hB.spilled (by omega) hload)

theorem exists_loaded (debug pge : Bool) (code : Memory.Mem) (h0 : codeSize ≠ 0)
    (hsize : codeSize ≤ 0x301000) :
    ∃ (s : AddressSpaces) (p : ProcessMemory) (v' : Vm), s.Reachable debug pge
      ∧ s.vm.createProcess debug pge (fun _ => false) code codeSize = some (some p, v') := by
  obtain ⟨s, hs, hR⟩ := exists_reachable_boot debug pge
  obtain ⟨regions, used, hI⟩ := hs.inv
  have hpages : pageSteps 0 codeSize ≤ 769 := by
    simp only [pageSteps, frameSize]
    omega
  have hn : 1791 = (1782 - pageSteps 0 codeSize) + 9 + pageSteps 0 codeSize := by omega
  rw [hn] at hR
  obtain ⟨p, v', hp, -⟩ := createProcess_total debug pge code codeSize hI.space hR (by decide) h0
    (by omega) hI.tmpmap
  exact ⟨s, p, v', hs, hp⟩

theorem createProcess_loads_one_byte :
    ∃ (s : AddressSpaces) (p : ProcessMemory) (v' : Vm), s.Reachable true true
      ∧ s.vm.createProcess true true (fun _ => false) (fun _ => 0xF4#8) 1 = some (some p, v')
      ∧ LoadedExactly v'.mmu p.cr3 (fun _ => 0xF4#8) 1 := by
  obtain ⟨s, p, v', hs, hp⟩ :=
    exists_loaded true true (fun _ => 0xF4#8) (by decide : (1 : ℕ) ≠ 0) (by decide)
  exact ⟨s, p, v', hs, hp, (createProcess_loads (.reached hs) hp).1 (by decide)⟩

/-- Three megabytes and one byte. -/
theorem not_loadedExactly :
    ∃ (s : AddressSpaces) (p : ProcessMemory) (v' : Vm), s.Reachable true true
      ∧ s.vm.createProcess true true (fun _ => false) (fun _ => 0xF4#8) 0x300001
        = some (some p, v')
      ∧ ¬ LoadedExactly v'.mmu p.cr3 (fun _ => 0xF4#8) 0x300001 := by
  obtain ⟨s, p, v', hs, hp⟩ :=
    exists_loaded true true (fun _ => 0xF4#8) (by decide : (0x300001 : ℕ) ≠ 0) (by decide)
  obtain ⟨regions, used, hI⟩ := hs.inv
  obtain ⟨used', pt, st, c, g, hB, -⟩ := createProcess_some hI.space (by decide) hI.tmpmap hp
  refine ⟨s, p, v', hs, hp, fun hload => ?_⟩
  have := (hB.spilled (by decide) hload).1
  omega

end Loading

end DragonWare
