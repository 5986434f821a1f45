import DragonWare.Proofs.CreateProcess

/-!
# Processes can be created

`Ready` says how many frames, slots for temporary maps and places for kernel stacks are left, and
each step says what it takes. The blocks of the heap are taken to be there.
-/

namespace DragonWare

open Bitmap FrameManager Function TwoLevel

section Frames

def FrameManager.Room (m : FrameManager) (n : ℕ) : Prop :=
  ∃ L : List ℕ, L.Nodup ∧ n ≤ L.length
    ∧ ∀ k ∈ L, 256 ≤ k ∧ k < bitmapWords * 32 ∧ testBit m.bitmap k = false

variable {m : FrameManager} {n : ℕ}

theorem testBit_markFrameReserved (m : FrameManager) (a k : ℕ) :
    testBit (m.markFrameReserved a).bitmap k = false ↔
      testBit m.bitmap k = false ∧ k ≠ a / frameSize := by
  simp [markFrameReserved, testBit_setBit (by decide : 0 < 32)]

theorem FrameManager.Room.reserve (h : m.Room (n + 1)) (a : ℕ) :
    (m.markFrameReserved a).Room n := by
  obtain ⟨L, hnd, hlen, hL⟩ := h
  refine ⟨L.erase (a / frameSize), hnd.erase _, ?_, fun k hk => ?_⟩
  · have := List.le_length_erase (a := a / frameSize) (l := L)
    omega
  · obtain ⟨hne, hk⟩ := hnd.mem_erase_iff.1 hk
    obtain ⟨hlo, hhi, hc⟩ := hL k hk
    exact ⟨hlo, hhi, (testBit_markFrameReserved m a k).2 ⟨hc, hne⟩⟩

theorem FrameManager.Room.allocateFrame (h : m.Room (n + 1)) :
    m.allocateFrame.1 ≠ 0 ∧ m.allocateFrame.2.Room n := by
  refine ⟨?_, h.reserve _⟩
  obtain ⟨L, -, hlen, hL⟩ := h
  obtain ⟨k, hk⟩ : ∃ k, k ∈ L := List.exists_mem_of_length_pos (by omega)
  obtain ⟨hlo, hhi, hc⟩ := hL k hk
  unfold FrameManager.allocateFrame FrameManager.getFirstFreeHighFrame FrameManager.firstFreeFrame
  rcases hs : scanClear m.bitmap (bitmapWords - 8) 8 with _ | a
  · have hset := scanClear_none (by decide) m.bitmap _ _ hs k (by omega)
      (by simp only [bitmapWords] at hhi ⊢; omega)
    rw [hc] at hset
    cases hset
  · obtain ⟨ha, -⟩ := scanClear_some (by decide) m.bitmap _ _ hs
    simp only [frameSize]
    omega

theorem allocateFrame_free (h : m.allocateFrame.1 ≠ 0) :
    ∃ k, m.allocateFrame = (k * frameSize, m.markFrameReserved (k * frameSize)) ∧ 256 ≤ k
      ∧ k < bitmapWords * 32 ∧ testBit m.bitmap k = false := by
  unfold FrameManager.allocateFrame FrameManager.getFirstFreeHighFrame
    FrameManager.firstFreeFrame at h ⊢
  rcases hs : scanClear m.bitmap (bitmapWords - 8) 8 with _ | k
  · simp [hs] at h
  obtain ⟨h1, h2, h3, -⟩ := scanClear_some (by decide) m.bitmap _ _ hs
  refine ⟨k, rfl, by omega, ?_, h3⟩
  simp only [bitmapWords] at h2 ⊢
  omega

theorem FrameManager.Room.of_allocateFrame (h : m.allocateFrame.1 ≠ 0)
    (hR : m.allocateFrame.2.Room n) : m.Room (n + 1) := by
  obtain ⟨k, heq, hlo, hhi, hclear⟩ := allocateFrame_free h
  rw [heq] at hR
  obtain ⟨L, hnd, hlen, hL⟩ := hR
  have hk : k * frameSize / frameSize = k := Nat.mul_div_cancel _ (by decide)
  refine ⟨k :: L, List.nodup_cons.2 ⟨fun hmem => ?_, hnd⟩, by simpa using hlen, fun j hj => ?_⟩
  · have := ((testBit_markFrameReserved _ _ _).1 (hL k hmem).2.2).2
    exact this hk.symm
  · rcases List.mem_cons.1 hj with rfl | hj
    · exact ⟨hlo, hhi, hclear⟩
    · obtain ⟨h1, h2, h3⟩ := hL j hj
      exact ⟨h1, h2, ((testBit_markFrameReserved _ _ _).1 h3).1⟩

theorem room_zero (m : FrameManager) : m.Room 0 := ⟨[], List.nodup_nil, le_rfl, by simp⟩

theorem FrameManager.Room.mono {n' : ℕ} (h : m.Room n) (hle : n' ≤ n) : m.Room n' := by
  obtain ⟨L, hnd, hlen, hL⟩ := h
  exact ⟨L, hnd, hle.trans hlen, hL⟩

theorem allocateFrame_eq_zero : m.allocateFrame.1 = 0 ↔ ¬ m.Room 1 :=
  ⟨fun h hR => (Room.allocateFrame (n := 0) hR).1 h, fun h => by
    by_contra h0
    exact h (.of_allocateFrame h0 (room_zero _))⟩

theorem FrameInv.room {regions : List MemoryRegion} {used : List ℕ}
    (hI : FrameInv regions (m, used)) (L : List ℕ) (hnd : L.Nodup)
    (hL : ∀ k ∈ L, 256 ≤ k ∧ Offered regions (k * frameSize) ∧ k * frameSize ∉ used) :
    m.Room L.length := by
  refine ⟨L, hnd, le_rfl, fun k hk => ?_⟩
  obtain ⟨hlo, ho, hu⟩ := hL k hk
  obtain ⟨-, hhi, -⟩ := ho.bounds
  refine ⟨hlo, ?_, (hI.clear k).2 ⟨ho, hu⟩⟩
  simp only [bitmapWords, frameSize] at hhi ⊢
  omega

end Frames

section Init

variable {m : Mmu} {fm : FrameManager} {n : ℕ}

theorem allocateTables_total (pd : ℕ) : ∀ (c i : ℕ) {m : Mmu} {fm : FrameManager},
    fm.Room (n + c) → ∃ m' fm', m.allocateTables pd c i fm = (.ok, m', fm') ∧ fm'.Room n
  | 0, _, m, fm, h => ⟨m, fm, rfl, h⟩
  | c + 1, i, m, fm, h => by
    obtain ⟨h0, hroom⟩ := Room.allocateFrame h
    unfold Mmu.allocateTables
    by_cases hp : entryPresent (m.table pd i) = true
    · rw [if_pos hp]
      obtain ⟨L, hnd, hlen, hL⟩ := h
      exact allocateTables_total pd c (i + 1) ⟨L, hnd, by omega, hL⟩
    · rw [if_neg hp]
      simp only [h0, if_false]
      exact allocateTables_total pd c (i + 1) hroom

theorem initVirtualMemoryManager_total (pge : Bool) (image : LinkerSymbols) (m : Mmu)
    (hpd : fm.allocateLowMemory.1 ≠ 0) (hpt : fm.allocateLowMemory.2.allocateLowMemory.1 ≠ 0)
    (h : fm.Room (n + 257)) :
    ∃ m' fm', m.initVirtualMemoryManager pge image fm = (.ok, m', fm') ∧ fm'.Room n := by
  have hroom : fm.allocateLowMemory.2.allocateLowMemory.2.Room
      (n + (maxPDEntries - 1 - kernelPDIndex)) := (h.reserve _).reserve _
  unfold Mmu.initVirtualMemoryManager
  simp only [hpd, hpt, or_self, if_false]
  split
  · next m' fm' heq =>
    obtain ⟨m1, fm1, h1, hr⟩ := allocateTables_total _ _ _ hroom
    rw [h1] at heq
    cases heq
    exact ⟨_, _, rfl, hr⟩
  · next r hne =>
    obtain ⟨m1, fm1, h1, -⟩ := allocateTables_total _ _ _ hroom
    exact absurd h1 (hne m1 fm1)

end Init

namespace Vm

def PageFree (m : Mmu) (addr : ℕ) : Prop := m.lookup (pdIndex addr) (ptIndex addr) = none

def kernelStackPage (i : ℕ) : ℕ := kernelStackBase + i * frameSize

def kernelStackCount : ℕ :=
  (kernelStackEnd - kernelStackBase) / (kernelStackSizePages * frameSize)

/-- There are `n` frames left, at most `k` slots and only the first `q` kernel stacks are taken, and
the pages of the other slots and stacks are not mapped. -/
structure Ready (v : Vm) (n k q : ℕ) : Prop where
  room : v.frames.Room n
  slots : ∃ U : List ℕ, U.length ≤ k ∧ ∀ s, testBit v.tmpmap s = true → s ∈ U
  free : ∀ s < tmpMapMaxPages, testBit v.tmpmap s = false →
    PageFree v.mmu (tmpMapAddrFromIndex s)
  stackPages : ∀ i, 2 * q ≤ i → i < 2 * kernelStackCount → PageFree v.mmu (kernelStackPage i)

section TempMaps

variable {regions : List MemoryRegion} {used : List ℕ} {v v' : Vm}
  {m : VirtualMap} {n k q : ℕ}

theorem Ready.findFreeTmpMapSlot (hR : Ready v n k q) (hk : k < tmpMapMaxPages) :
    ∃ s, v.findFreeTmpMapSlot = some s := by
  obtain ⟨U, hlen, hU⟩ := hR.slots
  rcases hs : v.findFreeTmpMapSlot with _ | s
  · have hall : Finset.range tmpMapMaxPages ⊆ U.toFinset := fun s hs' => by
      have hlt : s < (0 + tmpMapBitmapWords) * 32 := Finset.mem_range.1 hs'
      exact List.mem_toFinset.2 (hU s
        (scanClear_none (by decide) v.tmpmap _ _ hs s (by omega) hlt))
    have hcard := Finset.card_le_card hall
    have := U.toFinset_card_le
    rw [Finset.card_range] at hcard
    omega
  · exact ⟨s, rfl⟩

theorem kernelStackPage_bounds {i : ℕ} (hi : i < 2 * kernelStackCount) :
    pdIndex (kernelStackPage i) ∈ kernelSlots
      ∧ ∀ s < tmpMapMaxPages, pdIndex (kernelStackPage i) ≠ pdIndex (tmpMapAddrFromIndex s) := by
  refine ⟨?_, fun s hs => ?_⟩
  · change 768 ≤ pdIndex (kernelStackPage i) ∧ pdIndex (kernelStackPage i) < 1023
    simp only [kernelStackCount, kernelStackEnd, kernelStackBase, kernelStackSizePages, frameSize,
      kernelStackPage, pdIndex] at hi ⊢
    omega
  · simp only [kernelStackCount, kernelStackEnd, kernelStackBase, kernelStackSizePages, frameSize,
      kernelStackPage, pdIndex, tmpMapMaxPages, tmpMapAddrFromIndex, temporaryVirtMapAddr]
      at hi hs ⊢
    omega

theorem Ready.create (debug pge : Bool) (hR : Ready v (n + 1) k q) (hk : k < tmpMapMaxPages)
    (hS : Space regions used v.mmu v.frames) :
    ∃ m v', v.createTempVirtualMap debug pge false = some (some m, v') ∧ Ready v' n (k + 1) q := by
  obtain ⟨slot, hslot⟩ := hR.findFreeTmpMapSlot hk
  obtain ⟨h0, hroom⟩ := hR.room.allocateFrame
  obtain ⟨-, hlt, hclear, -⟩ := scanClear_some (by decide) v.tmpmap _ _ hslot
  have hlt : slot < tmpMapMaxPages := hlt
  obtain ⟨hal, hv⟩ := tmpMapAddr_bounds hlt
  rcases hS.frames.allocateFrame with ⟨h, -⟩ | ⟨-, hl, ho, hI⟩
  · exact absurd h h0
  have hS1 := hS.allocated hI
  obtain ⟨mmu, hm⟩ := mapSinglePage_total hS1 hv ho.bounds.2.2 hal (hR.free slot hlt hclear)
    (pagePresent ||| pageRW)
  obtain ⟨used', hS', he, hu, hok, -⟩ := Mmu.mapSinglePage_spec hS1 hv.2 hm
  obtain ⟨rfl, -⟩ := hu (hS.kernel _ hv)
  obtain ⟨-, hlook⟩ := hok rfl
  set f := v.frames.allocateFrame.1
  have hown : ¬ Holds entryChild tableSlots mmu.table mmu.cr3 f := by
    rw [he.cr3]
    refine (he.tables.keep f (List.mem_cons_self ..) fun hh => hl ?_).1
    exact hS.wellFormed.live f hh
  obtain ⟨-, -, hpoke⟩ := hS'.poke hown fun _ => 0#32
  have hz : mmu.zeroPage (tmpMapAddrFromIndex slot) = some (mmu.setFrame f fun _ => 0#32) := by
    unfold Mmu.zeroPage
    rw [Mmu.translate_cr3, hlook _ hv.2, if_pos ⟨rfl, rfl⟩, entryPresent_or _ (by decide),
      if_pos rfl, Option.map_some, entryFrame_or ho.bounds.2.1 ho.bounds.2.2 (by decide)]
    rfl
  refine ⟨⟨⟨tmpMapAddrFromIndex slot, f⟩, slot⟩,
    { v with
      mmu := mmu.setFrame f fun _ => 0#32
      frames := v.frames.allocateFrame.2
      tmpmap := setBit v.tmpmap slot }, ?_, hroom, ?_, fun s hs hc => ?_, fun s hs hs' => ?_⟩
  · unfold createTempVirtualMap kmallocSmall
    simp only [Bool.false_eq_true, if_false, Option.pure_def, Option.bind_eq_bind, Option.bind_some,
      Bool.not_true, hslot, h0, hm, zeroPage, hz, Option.map_some, f]
  · obtain ⟨U, hlen, hU⟩ := hR.slots
    refine ⟨slot :: U, by simpa using hlen, fun s hs => ?_⟩
    rw [testBit_setBit (by decide)] at hs
    rcases Bool.or_eq_true_iff.1 hs with hs | hs
    · exact List.mem_cons_of_mem _ (hU s hs)
    · rw [of_decide_eq_true hs]
      exact List.mem_cons_self ..
  · rw [testBit_setBit (by decide), Bool.or_eq_false_iff] at hc
    have hne : s ≠ slot := of_decide_eq_false hc.2
    change (mmu.setFrame f fun _ => 0#32).lookup _ _ = none
    rw [hpoke _ (tmpMapAddr_bounds hs).2.2, hlook _ (tmpMapAddr_bounds hs).2.2, if_neg]
    · exact hR.free s hs hc.1
    · rintro ⟨-, h⟩
      exact hne (tmpMapAddr_inj hs hlt h)
  · obtain ⟨hi, hne⟩ := kernelStackPage_bounds hs'
    change (mmu.setFrame f fun _ => 0#32).lookup _ _ = none
    rw [hpoke _ hi.2, hlook _ hi.2, if_neg fun h => hne slot hlt h.1]
    exact hR.stackPages s hs hs'

theorem Ready.congr (hR : Ready v n k q) (hf : v'.frames = v.frames) (ht : v'.tmpmap = v.tmpmap)
    (hl : ∀ i ∈ kernelSlots, ∀ j, v'.mmu.lookup i j = v.mmu.lookup i j) : Ready v' n k q := by
  refine ⟨hf ▸ hR.room, ht ▸ hR.slots, fun s hs hc => ?_, fun i hi hi' => ?_⟩
  · rw [ht] at hc
    exact (hl _ (tmpMapAddr_bounds hs).2 _).trans (hR.free s hs hc)
  · exact (hl _ (kernelStackPage_bounds hi').1 _).trans (hR.stackPages i hi hi')

theorem Ready.poke (hR : Ready v n k q) (hM : TempMap v used m)
    (hS : Space regions used v.mmu v.frames) (row : ℕ → BitVec 32) :
    Ready (TempMap.poked v m row) n k q := by
  obtain ⟨-, -, hl⟩ := hS.poke hM.own.2 row
  exact hR.congr rfl rfl fun i hi j => hl i hi.2 j

theorem Ready.delete (debug : Bool) (hR : Ready v n (k + 1) q) (hM : TempMap v used m)
    (hS : Space regions used v.mmu v.frames) :
    ∃ v', v.deleteTempVirtualMap debug m = some v' ∧ Ready v' n k q := by
  obtain ⟨mmu, hdel, -, -, hlook⟩ := hM.delete hS debug
  have hbit : ∀ s, testBit (clearBit v.tmpmap m.slot) s
      = (testBit v.tmpmap s && !decide (s = m.slot)) := fun s =>
    testBit_clearBit (by decide) v.tmpmap m.slot s
  refine ⟨_, hdel, hR.room, ?_, fun s hs hc => ?_, fun i hi hi' => ?_⟩
  · obtain ⟨U, hlen, hU⟩ := hR.slots
    refine ⟨U.erase m.slot, ?_, fun s hs => ?_⟩
    · have := List.length_erase_add_one (hU _ hM.bit)
      omega
    · have hs : testBit (clearBit v.tmpmap m.slot) s = true := hs
      rw [hbit, Bool.and_eq_true, Bool.not_eq_true', decide_eq_false_iff_not] at hs
      exact (List.mem_erase_of_ne hs.2).2 (hU s hs.1)
  · have hc : testBit (clearBit v.tmpmap m.slot) s = false := hc
    rw [hbit, Bool.and_eq_false_iff, Bool.not_eq_false', decide_eq_true_eq] at hc
    refine (hlook _ (tmpMapAddr_bounds hs).2.2 _).trans ?_
    split_ifs with h
    · rfl
    rcases hc with hc | rfl
    · exact hR.free s hs hc
    · exact absurd ⟨by rw [hM.virt], by rw [hM.virt]⟩ h
  · refine (hlook _ (kernelStackPage_bounds hi').1.2 _).trans ?_
    rw [if_neg fun h => (kernelStackPage_bounds hi').2 m.slot hM.slot (hM.virt ▸ h.1)]
    exact hR.stackPages i hi hi'

end TempMaps

section Building

variable {regions : List MemoryRegion} {used : List ℕ} {v v' : Vm}
  {pd pt : VirtualMap} {n k q : ℕ}

theorem addStackPage_total (debug pge : Bool) {st : VirtualMap} (i : ℕ) (hM : TempMap v used st)
    (hS : Space regions used v.mmu v.frames) (hR : Ready v (n + 1) k q) (hk : k < tmpMapMaxPages) :
    ∃ v', v.addStackPage debug pge false st i = some v' ∧ Ready v' n k q := by
  obtain ⟨c, v1, h1, hR1⟩ := hR.create debug pge hk hS
  obtain ⟨used1, he1, -, hnew⟩ := createTempVirtualMap_spec hS h1
  have hM1 := hM.extend he1
  set row := update (v1.mmu.table st.addr.phys)
    (ptIndex (defaultUserStackAddr - i * frameSize)) (BitVec.ofNat 32 c.addr.phys ||| userPageFlags)
  have he2 := hM1.poke he1.space row
  obtain ⟨v3, h3, hR3⟩ := (hR1.poke hM1 he1.space row).delete debug
    ((hnew c rfl).map.extend he2) he2.space
  refine ⟨v3, ?_, hR3⟩
  unfold addStackPage
  simp only [h1, Option.bind_eq_bind, Option.bind_some, hM1.store_eq (ptIndex_lt _)]
  exact h3

theorem addUserStack_total (debug pge : Bool) (hM : TempMap v used pd)
    (hS : Space regions used v.mmu v.frames) (hR : Ready v (n + 5) k q)
    (hk : k + 1 < tmpMapMaxPages) :
    ∃ v', v.addUserStack debug pge (fun _ => false) pd.addr.virt = some v' ∧ Ready v' n k q := by
  obtain ⟨st, v1, h1, hR1⟩ := hR.create debug pge (by omega) hS
  obtain ⟨used1, he1, -, hnew⟩ := createTempVirtualMap_spec hS h1
  have hst := (hnew st rfl).map
  have he2 := hst.poke he1.space fun _ => 0#32
  -- each round takes one frame
  have hloop := Loop.times_total (I := fun i s => ∃ used', v1.Extends regions {st.addr.phys} used1 s
      used' ∧ Ready s (n + (4 - i)) (k + 1) q)
    (f := fun i => addStackPage debug pge false st i)
    (s := TempMap.poked v1 st fun _ => 0#32) userStackSizePages ?_
    ⟨used1, he2, hR1.poke hst he1.space _⟩
  · obtain ⟨v3, h3, used3, he3, hR3⟩ := hloop
    have hM3 := (hM.extend he1).extend he3
    set row := update (v3.mmu.table pd.addr.phys) (pdIndex defaultUserStackAddr)
      (BitVec.ofNat 32 st.addr.phys ||| userPageFlags)
    have he4 := hM3.poke he3.space row
    obtain ⟨v5, h5, hR5⟩ := (hR3.poke hM3 he3.space row).delete debug
      ((hst.extend he3).extend he4) he4.space
    refine ⟨v5, ?_, hR5⟩
    have hpd : pdIndex defaultUserStackAddr < 1024 := by decide
    unfold addUserStack
    simp only [h1, Option.bind_eq_bind, Option.bind_some, hst.zeroPage_eq, h3, hM3.store_eq hpd]
    exact h5
  · rintro i hi s ⟨used', he, hR'⟩
    have hi : i < 4 := hi
    have hn : n + (4 - i) = n + (4 - (i + 1)) + 1 := by omega
    rw [hn] at hR'
    obtain ⟨s', hs', hR''⟩ := addStackPage_total debug pge i (hst.extend he)
      he.space hR' hk
    obtain ⟨used'', f, he', -⟩ := addStackPage_spec (hst.extend he) he.space hs'
    exact ⟨s', hs', used'', he.trans he', hR''⟩

theorem copyCodePage_total (debug pge : Bool) (code : Memory.Mem) (codeSize : ℕ) {a i j : ℕ}
    {p : VirtualMap} (hM : TempMap v used p) (hS : Space regions used v.mmu v.frames)
    (hR : Ready v (n + 1) k q) (hk : k < tmpMapMaxPages) (hj : j < 1024)
    (ha : a + 4 * ((flatBinaryDefaultEntry + i * frameSize) / frameSize) = p.addr.virt + 4 * j) :
    ∃ v', v.copyCodePage debug pge false code codeSize a i = some v' ∧ Ready v' n k q := by
  obtain ⟨c, v1, h1, hR1⟩ := hR.create debug pge hk hS
  obtain ⟨used1, he1, -, hnew⟩ := createTempVirtualMap_spec hS h1
  have hM1 := hM.extend he1
  set row := update (v1.mmu.table p.addr.phys) j
    (BitVec.ofNat 32 c.addr.phys ||| userPageFlags)
  have he2 := hM1.poke he1.space row
  have hC2 := (hnew c rfl).map.extend he2
  have he3 := hC2.poke he2.space fun _ => 0#32
  have hC3 := hC2.extend he3
  set copySize := if codeSize - i * frameSize < frameSize then codeSize - i * frameSize
    else frameSize with hsize
  have hR3 := (hR1.poke hM1 he1.space row).poke hC2 he2.space fun _ => 0#32
  set page := frameWords fun x => if x < copySize then code (i * frameSize + x) else
    frameBytes ((TempMap.poked (TempMap.poked v1 p row) c fun _ => 0#32).mmu.table c.addr.phys) x
    with hpage
  have he4 := hC3.poke he3.space page
  obtain ⟨v5, h5, hR5⟩ := (hR3.poke hC3 he3.space page).delete debug (hC3.extend he4) he4.space
  refine ⟨v5, ?_, hR5⟩
  unfold copyCodePage
  simp only [h1, Option.bind_eq_bind, Option.bind_some, ha, hM1.store_eq hj]
  rw [hC2.zeroPage_eq, Option.bind_some, hC3.copyToPage_eq, Option.bind_some]
  exact h5

theorem copyCode_total (debug pge : Bool) (code : Memory.Mem) (codeSize : ℕ) {c : ℕ}
    (hpd : TempMap v used pd) (hpt : TempMap v used pt) (hS : Space regions used v.mmu v.frames)
    (hR : Ready v (n + c) k q) (hk : k < tmpMapMaxPages) (hc : EntriesMapped pd pt c) :
    ∃ v' used', Loop.times (fun i => copyCodePage debug pge false code codeSize pt.addr.virt i) c v
        = some v'
      ∧ Space regions used' v'.mmu v'.frames ∧ TempMap v' used' pd ∧ TempMap v' used' pt
      ∧ Ready v' n k q := by
  have hloop := Loop.times_total (I := fun i s => ∃ used', Space regions used' s.mmu s.frames
      ∧ TempMap s used' pd ∧ TempMap s used' pt ∧ Ready s (n + (c - i)) k q)
    (f := fun i => copyCodePage debug pge false code codeSize pt.addr.virt i) (s := v) c ?_
    ⟨used, hS, hpd, hpt, hR⟩
  · obtain ⟨v', h, used', hS', hpd', hpt', hR'⟩ := hloop
    rw [Nat.sub_self] at hR'
    exact ⟨v', used', h, hS', hpd', hpt', hR'⟩
  · rintro i hi s ⟨used', hS', hpd', hpt', hR'⟩
    have hn : n + (c - i) = n + (c - (i + 1)) + 1 := by omega
    rw [hn] at hR'
    obtain ⟨p, j, hp, hj, ha⟩ := hc.cases hi
    have hM : TempMap s used' p := by
      rcases hp with ⟨rfl, -⟩ | ⟨rfl, -⟩
      · exact hpt'
      · exact hpd'
    obtain ⟨s', hs', hR''⟩ := copyCodePage_total debug pge code codeSize hM hS' hR' hk hj ha
    obtain ⟨used'', f, he, -⟩ := copyCodePage_spec hM hS' hj ha hs'
    exact ⟨s', hs', used'', he.space, hpd'.extend he, hpt'.extend he, hR''⟩

theorem buildAddressSpace_total (debug pge : Bool) (code : Memory.Mem) (codeSize : ℕ)
    (hM : TempMap v used pd) (hS : Space regions used v.mmu v.frames)
    (hR : Ready v (n + 6 + pageSteps 0 codeSize) (k + 1) q) (hk : k + 4 ≤ tmpMapMaxPages)
    (hc : EntriesFit v pd (pageSteps 0 codeSize)) :
    ∃ v', v.buildAddressSpace debug pge (fun _ => false) code codeSize pd = some v'
      ∧ Ready v' n k q := by
  have hcopy := copyKernelEntries_eq hM hS
  set row := fun k => if 768 ≤ k ∧ k < 1023 then v.mmu.pde k else v.mmu.table pd.addr.phys k
  have he1 := hM.poke hS row
  have hM1 := hM.extend he1
  have hn : n + 6 + pageSteps 0 codeSize = n + pageSteps 0 codeSize + 5 + 1 := by omega
  rw [hn] at hR
  obtain ⟨pt, v2, h2, hR2⟩ := (hR.poke hM hS row).create debug pge (by omega) he1.space
  obtain ⟨used2, he2, -, hnew⟩ := createTempVirtualMap_spec he1.space h2
  have hN := hnew pt rfl
  have he3 := hN.map.poke he2.space fun _ => 0#32
  have hM3 := (hM1.extend he2).extend he3
  have hT3 := hN.map.extend he3
  obtain ⟨v4, h4, hR4⟩ := addUserStack_total debug pge hM3 he3.space
    (hR2.poke hN.map he2.space fun _ => 0#32) (by omega)
  obtain ⟨used4, st, g, he4, -⟩ := addUserStack_spec hM3 he3.space h4
  obtain ⟨v5, used5, h5, hS5, hM5, hT5, hR5⟩ := copyCode_total debug pge code codeSize
    (hM3.extend he4) (hT3.extend he4) he4.space hR4 (by omega)
    (hc.mapped hM.virt hN.map.virt hN.free)
  have h6 := hM5.store_eq (j := 0) (by decide) (BitVec.ofNat 32 pt.addr.phys ||| userPageFlags)
  rw [Nat.mul_zero, Nat.add_zero] at h6
  set row6 := update (v5.mmu.table pd.addr.phys) 0
    (BitVec.ofNat 32 pt.addr.phys ||| userPageFlags)
  have he6 := hM5.poke hS5 row6
  have hM6 := hM5.extend he6
  set row7 := update ((TempMap.poked v5 pd row6).mmu.table pd.addr.phys) (maxPDEntries - 1)
    (BitVec.ofNat 32 pd.addr.phys ||| kernelPDEFlags)
  have he7 := hM6.poke he6.space row7
  have hM7 := hM6.extend he7
  have hT7 := (hT5.extend he6).extend he7
  have hslots : pt.slot ≠ pd.slot := fun h => by
    have := hN.clear
    rw [h] at this
    exact Bool.noConfusion (hM1.bit.symm.trans this)
  obtain ⟨mmu8, h8, hS8, hev8, hlook8⟩ := hM7.delete he7.space debug
  obtain ⟨v8, h8', hR8⟩ := ((hR5.poke hM5 hS5 row6).poke hM6 he6.space row7).delete debug hM7
    he7.space
  rw [h8] at h8'
  obtain rfl := Option.some.inj h8'
  obtain ⟨v9, h9, hR9⟩ := hR8.delete debug (hM7.deleted hT7 hslots hev8 hlook8) hS8
  refine ⟨v9, ?_, hR9⟩
  unfold buildAddressSpace
  simp only [hcopy, h2, Option.bind_eq_bind, Option.bind_some, hN.map.zeroPage_eq, h4, h5, h6]
  rw [hM6.store_eq (by decide), Option.bind_some, h8, Option.bind_some]
  exact h9

end Building

section Create

variable {regions : List MemoryRegion} {used : List ℕ} {v v' : Vm} {n k q : ℕ}

theorem kernelStackPage_inj {i j : ℕ} (hi : i < 2 * kernelStackCount)
    (hj : j < 2 * kernelStackCount) (h : pdIndex (kernelStackPage i) = pdIndex (kernelStackPage j)
      ∧ ptIndex (kernelStackPage i) = ptIndex (kernelStackPage j)) : i = j := by
  simp only [kernelStackCount, kernelStackEnd, kernelStackBase, kernelStackSizePages, frameSize,
    kernelStackPage, pdIndex, ptIndex] at hi hj h
  omega

theorem pageFree_iff {m : Mmu} {addr : ℕ} :
    PageFree m addr ↔ m.isVirtualPageMapped addr = false := by
  rw [Mmu.isVirtualPageMapped_eq, Mmu.translate_cr3, Option.isSome_eq_false_iff,
    Option.isNone_iff_eq_none]
  rfl

theorem findKernelStack_free {m : Mmu} : ∀ {n addr a : ℕ}, findKernelStack m n addr = some a →
    (m.isVirtualPageMapped a || m.isVirtualPageMapped (a + frameSize)) = false
  | 0, _, _, h => by simp [findKernelStack] at h
  | n + 1, addr, a, h => by
    unfold findKernelStack at h
    split_ifs at h with hm
    · exact findKernelStack_free h
    · cases h
      simpa using hm

theorem findKernelStack_total {m : Mmu} (h0 : PageFree m (kernelStackPage (2 * q)))
    (h1 : PageFree m (kernelStackPage (2 * q + 1))) : ∀ (n a : ℕ), a ≤ q → q < a + n →
      ∃ s ≤ q, findKernelStack m n (kernelStackPage (2 * a)) = some (kernelStackPage (2 * s))
  | 0, _, h, h' => by omega
  | n + 1, a, h, h' => by
    have hnext : kernelStackPage (2 * a) + kernelStackSizePages * frameSize
        = kernelStackPage (2 * (a + 1)) := by
      simp only [kernelStackPage, kernelStackSizePages]
      ring
    have hsecond : kernelStackPage (2 * a) + frameSize = kernelStackPage (2 * a + 1) := by
      simp only [kernelStackPage]
      ring
    unfold findKernelStack
    rw [hnext, hsecond]
    by_cases ha : a = q
    · subst ha
      rw [pageFree_iff.1 h0, pageFree_iff.1 h1]
      exact ⟨a, le_rfl, rfl⟩
    · split_ifs
      · exact findKernelStack_total h0 h1 n (a + 1) (by omega) (by omega)
      · exact ⟨a, by omega, rfl⟩

theorem Ready.mapKernelStackPage (hR : Ready v (n + 1) k q) (hS : Space regions used v.mmu v.frames)
    {i r : ℕ} (hi : i < 2 * r) (hr : i < 2 * kernelStackCount) (hq : q ≤ r) :
    Ready (v.mapKernelStackPage (kernelStackPage i)).2 n k r := by
  obtain ⟨hv, hne⟩ := kernelStackPage_bounds hr
  obtain ⟨h0, hroom⟩ := hR.room.allocateFrame
  rcases hS.frames.allocateFrame with ⟨h, -⟩ | ⟨-, -, -, hI⟩
  · exact absurd h h0
  unfold Vm.mapKernelStackPage
  rcases hm : Mmu.mapSinglePage v.frames.allocateFrame.1 (kernelStackPage i)
    (pagePresent ||| pageRW ||| pageGlobal) v.mmu v.frames.allocateFrame.2 with ⟨st, mmu, frames⟩
  simp only [hm]
  obtain ⟨used', -, -, hu, hok, hno⟩ := Mmu.mapSinglePage_spec (hS.allocated hI) hv.2 hm
  obtain ⟨-, rfl⟩ := hu (hS.kernel _ hv)
  have hkeep : ∀ a ∈ kernelSlots, ∀ b, ¬ (a = pdIndex (kernelStackPage i)
      ∧ b = ptIndex (kernelStackPage i)) → mmu.lookup a b = v.mmu.lookup a b := fun a ha b h => by
    by_cases hst : st = .ok
    · rw [(hok hst).2 a ha.2 b, if_neg h]
    · rw [hno hst]
  refine ⟨hroom, hR.slots, fun s hs hc => ?_, fun j hj hj' => ?_⟩
  · refine (hkeep _ (tmpMapAddr_bounds hs).2 _ fun h => hne s hs h.1.symm).trans (hR.free s hs hc)
  · refine (hkeep _ (kernelStackPage_bounds hj').1 _ fun h => ?_).trans
      (hR.stackPages j (by omega) hj')
    have := kernelStackPage_inj hj' hr h
    omega

/-- What `CreateProcess` needs: a frame for each page of the executable, two for the kernel stack,
five for the user stack and its table, and two for the directory and the first table. -/
theorem createProcess_total (debug pge : Bool) (code : Memory.Mem) (codeSize : ℕ)
    (hS : Space regions used v.mmu v.frames)
    (hR : Ready v (n + 9 + pageSteps 0 codeSize) 0 q) (hq : q < kernelStackCount)
    (h0 : codeSize ≠ 0) (hsize : codeSize ≤ 0x700000) (hempty : ∀ s, testBit v.tmpmap s = false) :
    ∃ p v', v.createProcess debug pge (fun _ => false) code codeSize = some (some p, v')
      ∧ Ready v' n 0 (q + 1) := by
  obtain ⟨s, hs, hstack⟩ := findKernelStack_total (hR.stackPages (2 * q) le_rfl (by omega))
    (hR.stackPages (2 * q + 1) (by omega) (by omega)) kernelStackCount 0 (by omega) (by omega)
  have hstack : v.getNextKernelStackAddress = some (kernelStackPage (2 * s)) := hstack
  have hn : n + 9 + pageSteps 0 codeSize = n + 6 + pageSteps 0 codeSize + 1 + 1 + 1 := by omega
  rw [hn] at hR
  have hsecond : kernelStackPage (2 * s) + frameSize = kernelStackPage (2 * s + 1) := by
    simp only [kernelStackPage]
    ring
  obtain ⟨hv0, hv1⟩ := getNextKernelStackAddress_scratch hstack
  rw [hsecond] at hv1
  have hR1 := hR.mapKernelStackPage hS (i := 2 * s) (r := q + 1) (by omega) (by omega) (by omega)
  obtain ⟨used1, he1, ht1⟩ := mapKernelStackPage_spec hS hv0
  set v1 := (v.mapKernelStackPage (kernelStackPage (2 * s))).2 with hv1'
  have hR2 := hR1.mapKernelStackPage he1.space (i := 2 * s + 1) (r := q + 1) (by omega) (by omega)
    le_rfl
  obtain ⟨used2, he2, ht2⟩ := mapKernelStackPage_spec he1.space hv1
  set v2 := (v1.mapKernelStackPage (kernelStackPage (2 * s + 1))).2 with hv2'
  obtain ⟨pd, v3, h3, hR3⟩ := hR2.create debug pge (by decide) he2.space
  obtain ⟨used3, he3, -, hnew⟩ := createTempVirtualMap_spec he2.space h3
  have hN := hnew pd rfl
  have hempty2 : ∀ s, testBit v2.tmpmap s = false := fun s => by
    rw [ht2, ht1]
    exact hempty s
  have hpages : pageSteps 0 codeSize ≤ 1792 := by
    simp only [pageSteps, frameSize]
    omega
  obtain ⟨v4, h4, hR4⟩ := buildAddressSpace_total debug pge code codeSize hN.map he3.space hR3
    (by decide) (hN.entriesFit hempty2 hpages)
  refine ⟨⟨pd.addr.phys, [(v.mapKernelStackPage (kernelStackPage (2 * s))).1,
    (v1.mapKernelStackPage (kernelStackPage (2 * s + 1))).1]⟩, v4, ?_, hR4⟩
  unfold createProcess kmallocSmall
  simp only [h0, if_false, hstack, hsecond, Bool.false_eq_true, Option.bind_eq_bind,
    Option.bind_some, Bool.not_true, ← hv1', ← hv2', h3, h4, Option.pure_def]

end Create

end Vm

section Boot

/-- A machine with two frames below 1 MiB and eight megabytes from there on. -/
def bootRegions : List MemoryRegion :=
  [⟨true, 0x2000#32, 0x2000#32, .available⟩, ⟨true, 0x100000#32, 0x800000#32, .available⟩]

def bootImage : LinkerSymbols :=
  ⟨0xC0000000, 0xC0001000, 0xC0000000, 0xC0000000, 0xC0000000, 0xC0000000⟩

def blankMmu : Mmu := ⟨0, fun _ _ => 0#32⟩

def Vm.boot (m : Mmu) (fm : FrameManager) : Vm := ⟨⟨fun _ => 0#32, m, fm⟩, fun _ => 0#32⟩

theorem offered_bootRegions {k : ℕ} (hk : k < 2048) :
    Offered bootRegions ((256 + k) * frameSize) := by
  refine ⟨_, List.mem_cons_of_mem _ (List.mem_singleton_self _), rfl, k, ?_⟩
  have hstart : (0x100000#32).toNat = 0x100000 := rfl
  have hstop : (⟨true, 0x100000#32, 0x800000#32, .available⟩ : MemoryRegion).stop.toNat
      = 0x900000 := rfl
  simp only [hstart, hstop, frameSize]
  omega

theorem offered_bootRegions_low {k : ℕ} (hk : k < 2) :
    Offered bootRegions ((2 + k) * frameSize) := by
  refine ⟨_, List.mem_cons_self .., rfl, k, ?_⟩
  have hstart : (0x2000#32).toNat = 0x2000 := rfl
  have hstop : (⟨true, 0x2000#32, 0x2000#32, .available⟩ : MemoryRegion).stop.toNat = 0x4000 := rfl
  simp only [hstart, hstop, frameSize]
  omega

theorem allocateLowMemory_ne_zero {fm : FrameManager} {used : List ℕ} {k : ℕ}
    (hI : FrameInv bootRegions (fm, used)) (hk : k < 2) (hu : (2 + k) * frameSize ∉ used) :
    fm.allocateLowMemory.1 ≠ 0 := by
  intro h0
  rcases hI.firstFreeFrame 8 0 with ⟨-, hall⟩ | ⟨ho, -⟩
  · refine hu (hall _ (offered_bootRegions_low hk) (by omega) ?_)
    simp only [frameSize]
    omega
  · have := ho.bounds.1
    rw [show fm.firstFreeFrame 8 0 = 0 from h0] at this
    simp [frameSize] at this

theorem room_bootFrames {fm : FrameManager}
    (h : initFrameManager 2049 bootRegions = some fm) : fm.Room 2048 := by
  have hroom := (FrameInv.init h).room ((List.range 2048).map (256 + ·))
    (List.nodup_range.map fun a b h => by simpa using h) ?_
  · simpa using hroom
  · intro k hk
    obtain ⟨i, hi, rfl⟩ := List.mem_map.1 hk
    exact ⟨by omega, offered_bootRegions (List.mem_range.1 hi), List.not_mem_nil⟩

theorem exists_bootFrames : ∃ fm, initFrameManager 2049 bootRegions = some fm :=
  Option.isSome_iff_exists.1 (by decide +kernel)

theorem exists_boot (pge : Bool) :
    ∃ fm0 m fm used, initFrameManager 2049 bootRegions = some fm0
      ∧ Mmu.initVirtualMemoryManager pge bootImage blankMmu fm0 = (.ok, m, fm)
      ∧ Space bootRegions used m fm ∧ Vm.Ready (Vm.boot m fm) 1791 0 0 := by
  obtain ⟨fm0, h0⟩ := exists_bootFrames
  have hI := FrameInv.init h0
  have hpd := allocateLowMemory_ne_zero (k := 0) hI (by decide) List.not_mem_nil
  rcases hI.allocateLowMemory with ⟨h, -⟩ | ⟨-, -, -, hI1⟩
  · exact absurd h hpd
  -- whichever of the two frames was taken, the other is left
  have hpt : fm0.allocateLowMemory.2.allocateLowMemory.1 ≠ 0 := by
    by_cases h : (2 + 0) * frameSize = fm0.allocateLowMemory.1
    · exact allocateLowMemory_ne_zero (k := 1) hI1 (by decide) (by rw [← h]; decide)
    · exact allocateLowMemory_ne_zero (k := 0) hI1 (by decide) (by simpa using h)
  have hroom : fm0.Room (1791 + 257) := room_bootFrames h0
  obtain ⟨m, fm, hinit, hr⟩ := initVirtualMemoryManager_total pge bootImage blankMmu hpd hpt hroom
  obtain ⟨used, -, hS, -, hnone⟩ := initVirtualMemoryManager_spec hI hinit
  refine ⟨fm0, m, fm, used, h0, hinit, hS, hr, ⟨[], le_rfl, fun s hs => ?_⟩, fun s hs _ => ?_,
    fun i _ hi => ?_⟩
  · have hs : testBit (fun _ => 0#32) s = true := hs
    simp [testBit] at hs
  · refine hnone _ (Vm.tmpMapAddr_bounds hs).2.2 ?_ _
    simp only [tmpMapMaxPages] at hs
    simp only [Vm.tmpMapAddrFromIndex, temporaryVirtMapAddr, frameSize, pdIndex]
    omega
  · refine hnone _ (Vm.kernelStackPage_bounds hi).1.2 ?_ _
    simp only [Vm.kernelStackCount, kernelStackEnd, kernelStackBase, kernelStackSizePages,
      frameSize] at hi
    simp only [Vm.kernelStackPage, kernelStackBase, frameSize, pdIndex]
    omega

end Boot

end DragonWare
