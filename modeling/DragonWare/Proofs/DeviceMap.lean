import DragonWare.DeviceMap
import DragonWare.Proofs.MapSection

/-!
# What `DEVICE_MAP` adds to an address space

An address that is aligned leads to pages of the user only, and one that is not to none at all. What
else comes into view are the tables that had to be allocated: the last directory entry shows them.
-/

namespace DragonWare

open Finset Mmu Option Vm

variable {regions : List MemoryRegion} {used : List ℕ} {debug : Bool} {st : Status}
  {fm' : FrameManager}

theorem DeviceManagerNode.page_lt {dev : DeviceManagerNode} {mapaddr : BitVec 32}
    (h : dev.refuses mapaddr = none) (hal : mapaddr.toNat % frameSize = 0) {i : ℕ}
    (hi : i < dev.nPagesMap) : mapaddr.toNat + i * frameSize < kernelVMBase := by
  unfold refuses at h
  split_ifs at h with hclaimed hmmio hbad
  rw [not_or] at hbad
  have hlen := dev.mmioLen.isLt
  unfold nPagesMap pageAlign at hi
  simp only [BitVec.toNat_mul, BitVec.toNat_udiv, BitVec.toNat_add, BitVec.toNat_ofNat,
    Nat.reducePow, Nat.reduceMod] at hi
  simp only [kernelVMBase, frameSize] at *
  omega

theorem toNat_add_page (a : BitVec 32) (i : ℕ) :
    (a + BitVec.ofNat 32 (i * frameSize)).toNat % frameSize = a.toNat % frameSize := by
  rw [BitVec.toNat_add, BitVec.toNat_ofNat]
  simp only [frameSize]
  omega

theorem mapMemoryRange_unaligned {σ : Type} {P : Paging σ} {phys virt flags : BitVec 32}
    (hP : ∀ a b mem, a % frameSize ≠ 0 ∨ b % frameSize ≠ 0 →
      (P.mapSinglePage a b flags mem).2 = mem)
    (hal : phys.toNat % frameSize ≠ 0 ∨ virt.toNat % frameSize ≠ 0) :
    ∀ (n i : ℕ) (mem : σ), (mapMemoryRange P phys virt flags n i mem).2 = mem
  | 0, _, _ => rfl
  | n + 1, i, mem => by
    have hpage : (P.mapSinglePage (phys + BitVec.ofNat 32 (i * frameSize)).toNat
        (virt + BitVec.ofNat 32 (i * frameSize)).toNat flags mem).2 = mem := by
      apply hP
      rwa [toNat_add_page, toNat_add_page]
    unfold mapMemoryRange
    simp only [hpage]
    exact mapMemoryRange_unaligned hP hal n (i + 1) mem

theorem Vm.paging_unaligned (debug : Bool) (a b : ℕ) (v : Vm)
    (h : a % frameSize ≠ 0 ∨ b % frameSize ≠ 0) :
    ((paging debug).mapSinglePage a b deviceFlags v).2 = v := by
  simp only [paging, Mmu.mapSinglePage]
  rw [if_pos (.inr h)]

/-! ### Pages below the kernel -/

/-- Free pages below the kernel are mapped, and the window of the last directory entry shows the
tables that this took. Whatever was mapped is as it was. -/
structure GrowsBelow (m m' : Mmu) : Prop where
  cr3 : m'.cr3 = m.cr3
  lookup : ∀ a < 1024, ∀ b, m'.lookup a b = m.lookup a b
    ∨ m.lookup a b = none ∧ (a < kernelPDIndex ∨ a = 1023 ∧ b < kernelPDIndex)

namespace GrowsBelow

variable {m m' m'' : Mmu}

theorem refl (m : Mmu) : GrowsBelow m m := ⟨rfl, fun _ _ _ => .inl rfl⟩

theorem trans (h : GrowsBelow m m') (h' : GrowsBelow m' m'') : GrowsBelow m m'' := by
  refine ⟨h'.cr3.trans h.cr3, fun a ha b => ?_⟩
  rcases h'.lookup a ha b with heq' | ⟨hnone, hplace⟩
  · rw [heq']
    exact h.lookup a ha b
  · rcases h.lookup a ha b with heq | hnew
    · exact .inr ⟨heq ▸ hnone, hplace⟩
    · exact .inr hnew

theorem mapSinglePage {fm : FrameManager} {phys virt : ℕ} {flags : BitVec 32}
    (hS : Space regions used m fm) (hv : pdIndex virt < kernelPDIndex)
    (h : m.mapSinglePage phys virt flags fm = (st, m', fm')) :
    GrowsBelow m m' ∧ ∃ used', Space regions used' m' fm' := by
  have hv' : pdIndex virt < 1023 := hv.trans (by decide)
  obtain ⟨used', hS', he, -, hok, hfail⟩ := mapSinglePage_spec hS hv' h
  refine ⟨⟨he.cr3, fun a ha b => ?_⟩, used', hS'⟩
  by_cases hst : st = .ok
  · obtain ⟨hfree, hlook⟩ := hok hst
    by_cases hwin : a = 1023
    · -- the window shows the directory, and one entry of it may be new
      subst hwin
      have hpde := (hS.mapSinglePage_pde hv' h).1 b
      rw [hS.getPageTableAt, hS'.getPageTableAt]
      rcases hp : entryPresent (m.pde b)
      · by_cases hb : b = pdIndex virt
        · exact .inr ⟨rfl, .inr ⟨rfl, hb ▸ hv⟩⟩
        · refine .inl ?_
          rw [hpde, hp]
          simp [hb]
      · have hsame : m'.pde b = m.pde b := by
          unfold pde
          rw [he.cr3]
          exact he.tables.entry b (.inr (by rw [isSome_entryChild]; exact hp))
        exact .inl (by rw [hsame, hp])
    · by_cases hab : a = pdIndex virt ∧ b = ptIndex virt
      · rw [hab.1, hab.2]
        exact .inr ⟨hfree, .inl hv⟩
      · rw [hlook a (by omega) b, if_neg hab]
        exact .inl rfl
  · rw [hfail hst]
    exact .inl rfl

end GrowsBelow

/-! ### The loop of `MapMemoryRange` -/

section Range

variable {v : Vm} {phys virt flags : BitVec 32} {base n i : ℕ}

def Vm.Mappable (v : Vm) (addr : ℕ) : Prop :=
  addr ≠ 0 ∧ v.mmu.isVirtualPageMapped addr = false
    ∧ (entryPresent (v.mmu.pde (pdIndex addr)) = true ∨ v.frames.Room 1)

def Mmu.missingTables (m : Mmu) (base n i : ℕ) : Finset ℕ :=
  ((range n).image fun j => pdIndex (base + (i + j) * frameSize)).filter
    fun d => entryPresent (m.pde d) = false

theorem FrameInv.room_congr {fm : FrameManager} (hI : FrameInv regions (fm, used))
    (hI' : FrameInv regions (fm', used)) (h : fm.Room n) : fm'.Room n := by
  obtain ⟨L, hnd, hlen, hL⟩ := h
  refine ⟨L, hnd, hlen, fun k hk => ?_⟩
  obtain ⟨hlo, hhi, hclear⟩ := hL k hk
  exact ⟨hlo, hhi, (hI'.clear k).2 ((hI.clear k).1 hclear)⟩

theorem Space.mapSinglePage_mappable {phys virt : ℕ} {m' : Mmu}
    (hS : Space regions used v.mmu v.frames) (hv : pdIndex virt < 1023) (hal : virt % frameSize = 0)
    (hphys : phys % frameSize = 0)
    (h : Mmu.mapSinglePage phys virt flags v.mmu v.frames = (st, m', fm')) :
    (st = .ok ↔ v.Mappable virt)
      ∧ (st ≠ .ok → m' = v.mmu ∧ (fm'.Room 1 ↔ v.frames.Room 1)) := by
  have hdir := hS.wellFormed.live v.mmu.cr3 (.inl rfl)
  obtain ⟨-, -, -, -, hok, -⟩ := mapSinglePage_spec hS hv h
  constructor
  · have hmapped := v.mmu.isVirtualPageMapped_eq virt
    rw [translate_cr3] at hmapped
    by_cases h0 : virt = 0
    · rw [Mmu.mapSinglePage, if_pos (.inl h0)] at h
      cases h
      exact iff_of_false (by decide) fun h => h.1 h0
    rcases hfree : v.mmu.lookup (pdIndex virt) (ptIndex virt) with _ | e
    · have hroom := hS.mapSinglePage_room h0 hal hphys hfree h 0
      rw [hfree] at hmapped
      cases hp : entryPresent (v.mmu.pde (pdIndex virt)) <;>
        simp_all [Mappable, room_zero]
    rw [hfree] at hmapped
    refine iff_of_false (fun hst => ?_) fun h => ?_
    · rw [(hok hst).1] at hfree
      cases hfree
    · have hun := h.2.1
      rw [hmapped] at hun
      cases hun
  · intro hst
    rcases mapSinglePage_cases hS.frames hdir h with ⟨-, rfl, hI, -⟩ | ⟨h, -⟩ | ⟨h, -⟩
    · exact ⟨rfl, hI.room_congr hS.frames, hS.frames.room_congr hI⟩
    · exact absurd h hst
    · exact absurd h hst

theorem Mmu.card_missingTables {m m' : Mmu} (hpde : ∀ d, entryPresent (m'.pde d)
      = (entryPresent (m.pde d) || decide (d = pdIndex (base + i * frameSize)))) :
    (m.missingTables base (n + 1) i).card = (m'.missingTables base n (i + 1)).card
      + if entryPresent (m.pde (pdIndex (base + i * frameSize))) then 0 else 1 := by
  unfold missingTables
  obtain ⟨T, hT⟩ : ∃ T, T = (range n).image
    fun j => pdIndex (base + (i + 1 + j) * frameSize) := ⟨_, rfl⟩
  have hrange : (range (n + 1)).image (fun j => pdIndex (base + (i + j) * frameSize))
      = insert (pdIndex (base + i * frameSize)) T := by
    ext d
    simp only [hT, mem_image, mem_range, mem_insert, Nat.exists_lt_succ_left,
      add_zero, add_assoc, add_comm 1, @eq_comm _ d]
  rw [hrange, ← hT]
  generalize pdIndex (base + i * frameSize) = d at *
  have herase : T.filter (fun d => entryPresent (m'.pde d) = false)
      = (T.filter fun d => entryPresent (m.pde d) = false).erase d := by
    ext x
    simp [hpde]
    tauto
  rw [herase, filter_insert]
  cases hp : entryPresent (m.pde d)
  · rw [if_pos rfl, ← card_erase_add_one (mem_insert_self ..), erase_insert_eq_erase]
    rfl
  · rw [if_neg (by decide), erase_eq_of_notMem (by simp [hp])]
    rfl

theorem Vm.mappable_of_room {j : ℕ} (hj : j < n) (h0 : base + (i + j) * frameSize ≠ 0)
    (hun : v.mmu.isVirtualPageMapped (base + (i + j) * frameSize) = false)
    (hR : v.frames.Room (v.mmu.missingTables base n i).card) :
    v.Mappable (base + (i + j) * frameSize) := by
  refine ⟨h0, hun, or_iff_not_imp_left.2 fun hp => hR.mono
    (card_pos.2 ⟨pdIndex (base + (i + j) * frameSize), ?_⟩)⟩
  rw [Bool.not_eq_true] at hp
  exact mem_filter.2 ⟨mem_image.2 ⟨j, mem_range.2 hj, rfl⟩, hp⟩

/-- What the loop does to the `n` pages from page `i` on, `c` of which it has mapped. -/
structure RangeMapped (v v' : Vm) (base n i c : ℕ) : Prop where
  grows : GrowsBelow v.mmu v'.mmu
  none : (∀ j < n, ¬ v.Mappable (base + (i + j) * frameSize)) → v'.mmu = v.mmu
  some : ∀ j < n, v.Mappable (base + (i + j) * frameSize) →
    ∃ j < n, v.mmu.isVirtualPageMapped (base + (i + j) * frameSize) = false
      ∧ v'.mmu.isVirtualPageMapped (base + (i + j) * frameSize) = true
  le : c ≤ n
  all : c = n ↔ (∀ j < n, base + (i + j) * frameSize ≠ 0
      ∧ v.mmu.isVirtualPageMapped (base + (i + j) * frameSize) = false)
    ∧ v.frames.Room (v.mmu.missingTables base n i).card

namespace RangeMapped

variable {v₁ v' : Vm} {c : ℕ}

theorem refused (h : RangeMapped v₁ v' base n (i + 1) c)
    (hmmu : v₁.mmu = v.mmu) (hroom : v₁.frames.Room 1 ↔ v.frames.Room 1)
    (hno : ¬ v.Mappable (base + i * frameSize)) : RangeMapped v v' base (n + 1) i c := by
  have hmap (a : ℕ) : v₁.Mappable a ↔ v.Mappable a := by
    unfold Mappable
    rw [hmmu, hroom]
  have hshift (j : ℕ) : i + 1 + j = i + (j + 1) := by omega
  obtain ⟨hgrows, hnone, hsome, hle, -⟩ := h
  simp only [hmap, hmmu, hshift] at hgrows hnone hsome
  refine ⟨hgrows, fun hall => hnone fun j hj => hall (j + 1) (by omega), fun j hj hj' => ?_,
    by omega, iff_of_false (by omega) fun ⟨hall, hR⟩ => hno ?_⟩
  · obtain _ | j := j
    · exact absurd hj' hno
    obtain ⟨k, hk, hk'⟩ := hsome j (by omega) hj'
    exact ⟨k + 1, by omega, hk'⟩
  · have h0 := hall 0 (Nat.succ_pos n)
    exact mappable_of_room (j := 0) (Nat.succ_pos n) h0.1 h0.2 hR

theorem mapped (h : RangeMapped v₁ v' base n (i + 1) c) (hgrow : GrowsBelow v.mmu v₁.mmu)
    (hyes : v.Mappable (base + i * frameSize))
    (hnow : v₁.mmu.isVirtualPageMapped (base + i * frameSize) = true)
    (hothers : ∀ j < n, v₁.mmu.isVirtualPageMapped (base + (i + 1 + j) * frameSize)
      = v.mmu.isVirtualPageMapped (base + (i + 1 + j) * frameSize))
    (hroom : v.frames.Room (v.mmu.missingTables base (n + 1) i).card
      ↔ v₁.frames.Room (v₁.mmu.missingTables base n (i + 1)).card) :
    RangeMapped v v' base (n + 1) i (c + 1) := by
  have hshift (j : ℕ) : i + 1 + j = i + (j + 1) := by omega
  obtain ⟨hgrows, -, -, hle, hall⟩ := h
  refine ⟨hgrow.trans hgrows, fun hno => absurd hyes (hno 0 (Nat.succ_pos n)),
    fun _ _ _ => ⟨0, Nat.succ_pos n, hyes.2.1, ?_⟩, by omega, ?_⟩
  · rw [isVirtualPageMapped_eq, translate_cr3] at hnow ⊢
    rcases hgrows.lookup (pdIndex (base + i * frameSize)) (Nat.mod_lt _ (by decide))
      (ptIndex (base + i * frameSize)) with heq | ⟨hnone, -⟩
    · exact heq ▸ hnow
    · rw [hnone] at hnow
      cases hnow
  · rw [Nat.add_right_cancel_iff, hall, hroom, Nat.forall_lt_succ_left]
    refine and_congr_left fun _ => (forall₂_congr fun j hj => ?_).trans
      (and_iff_right ⟨hyes.1, hyes.2.1⟩).symm
    rw [hothers j hj, hshift]

end RangeMapped

theorem pages_ne {k : ℕ} (hk : base + k * frameSize < kernelVMBase) (hik : i < k) :
    pdIndex (base + k * frameSize) < 1023
      ∧ ¬ (pdIndex (base + k * frameSize) = pdIndex (base + i * frameSize)
        ∧ ptIndex (base + k * frameSize) = ptIndex (base + i * frameSize)) := by
  simp only [pdIndex, ptIndex, frameSize, kernelVMBase] at *
  omega

theorem mapMemoryRange_spec (hflags : flags.getLsbD 0 = true) (hphys : phys.toNat % frameSize = 0)
    (hal : virt.toNat % frameSize = 0) : ∀ (n i : ℕ) {used : List ℕ} (v : Vm),
      Space regions used v.mmu v.frames →
      (∀ j < n, virt.toNat + (i + j) * frameSize < kernelVMBase) →
      RangeMapped v (mapMemoryRange (paging debug) phys virt flags n i v).2 virt.toNat n i
        (mapMemoryRange (paging debug) phys virt flags n i v).1
  | 0, _, _, v, _, _ => by
    refine ⟨.refl _, fun _ => rfl, fun _ h => absurd h (Nat.not_lt_zero _), le_rfl, iff_of_true rfl
      ⟨fun _ h => absurd h (Nat.not_lt_zero _), ?_⟩⟩
    simpa [missingTables] using room_zero _
  | n + 1, i, used, v, hS, hlt => by
    have hhere : virt.toNat + i * frameSize < kernelVMBase := hlt 0 (Nat.succ_pos n)
    have haddr : (virt + BitVec.ofNat 32 (i * frameSize)).toNat = virt.toNat + i * frameSize := by
      rw [BitVec.toNat_add, BitVec.toNat_ofNat]
      simp only [kernelVMBase] at hhere
      omega
    have hv : pdIndex (virt.toNat + i * frameSize) < kernelPDIndex := by
      have hbound : kernelPDIndex = 768 := by decide
      simp only [kernelVMBase] at hhere
      rw [hbound, pdIndex]
      omega
    have hpal : (phys + BitVec.ofNat 32 (i * frameSize)).toNat % frameSize = 0 := by
      rw [toNat_add_page, hphys]
    have hval : (virt.toNat + i * frameSize) % frameSize = 0 := by
      rw [Nat.add_mul_mod_self_right, hal]
    rcases hmap : Mmu.mapSinglePage (phys + BitVec.ofNat 32 (i * frameSize)).toNat
      (virt.toNat + i * frameSize) flags v.mmu v.frames with ⟨st, m', fm'⟩
    obtain ⟨hgrow, used', hS'⟩ := GrowsBelow.mapSinglePage hS hv hmap
    obtain ⟨hok, hfail⟩ := hS.mapSinglePage_mappable (hv.trans (by decide)) hval hpal hmap
    have hrest := mapMemoryRange_spec hflags hphys hal n (i + 1) { v with mmu := m', frames := fm' }
      hS' fun j hj => by
        rw [show i + 1 + j = i + (j + 1) by omega]
        exact hlt (j + 1) (by omega)
    unfold mapMemoryRange
    simp only [haddr, paging, hmap] at hrest ⊢
    by_cases hst : st = .ok
    · obtain ⟨-, -, -, -, hmapped, -⟩ := mapSinglePage_spec hS (hv.trans (by decide)) hmap
      rw [if_pos hst]
      refine hrest.mapped hgrow (hok.1 hst) ?_ (fun j hj => ?_) ?_
      · rw [isVirtualPageMapped_eq, translate_cr3, (hmapped hst).2 _ (hv.trans (by decide)),
          if_pos ⟨rfl, rfl⟩, if_pos (entryPresent_or _ hflags)]
        rfl
      · have hj' := hlt (j + 1) (by omega)
        rw [show i + (j + 1) = i + 1 + j by omega] at hj'
        obtain ⟨hlow, hne⟩ := pages_ne hj' (show i < i + 1 + j by omega)
        rw [isVirtualPageMapped_eq, isVirtualPageMapped_eq, translate_cr3,
          translate_cr3, (hmapped hst).2 _ hlow, if_neg hne]
      · obtain ⟨h0, hun, -⟩ := hok.1 hst
        rw [isVirtualPageMapped_eq, translate_cr3, isSome_eq_false_iff, isNone_iff_eq_none] at hun
        obtain ⟨hpde, -⟩ := hS.mapSinglePage_pde (hv.trans (by decide)) hmap
        simp only [hst, decide_true, Bool.true_and] at hpde
        rw [card_missingTables hpde, hS.mapSinglePage_room h0 hval hpal hun hmap]
        exact and_iff_right hst
    · rw [if_neg hst]
      exact hrest.refused (hfail hst).1 (hfail hst).2 fun h => hst (hok.2 h)

end Range

theorem GrowsBelow.deviceMap (debug : Bool) (dev : DeviceManagerNode) (mapaddr : BitVec 32) {v : Vm}
    (hS : Space regions used v.mmu v.frames) :
    GrowsBelow v.mmu (DragonWare.deviceMap (paging debug) dev mapaddr v).2.mmu := by
  unfold DragonWare.deviceMap
  cases href : dev.refuses mapaddr with
  | some st => exact .refl v.mmu
  | none =>
    by_cases hal : (dev.mmioAddr.setWidth 32).toNat % frameSize = 0 ∧ mapaddr.toNat % frameSize = 0
    · refine (mapMemoryRange_spec (by decide) hal.1 hal.2 dev.nPagesMap 0 v hS fun j hj => ?_).grows
      rw [Nat.zero_add]
      exact dev.page_lt href hal.2 hj
    · rw [not_and_or] at hal
      simp only [mapMemoryRange_unaligned (paging_unaligned debug) hal]
      exact .refl v.mmu

def Vm.entryAt (v : Vm) (addr : ℕ) : Option (BitVec 32) := v.mmu.translate v.mmu.cr3 addr

/-- `DEVICE_MAP` maps free pages below the kernel and brings their tables into the window of the
last directory entry. Every other translation is as it was. -/
theorem device_map_stays_below_kernel (debug : Bool) (dev : DeviceManagerNode)
    (mapaddr : BitVec 32) (v : Vm) (hS : Space regions used v.mmu v.frames) :
    ∀ addr < 2 ^ 32,
      (deviceMap (paging debug) dev mapaddr v).2.entryAt addr = v.entryAt addr
      ∨ v.entryAt addr = none
        ∧ (addr < kernelVMBase ∨ pdIndex addr = 1023 ∧ ptIndex addr < kernelPDIndex) := by
  intro addr haddr
  have hgrow := GrowsBelow.deviceMap debug dev mapaddr hS
  simp only [entryAt, translate_cr3]
  have hlt : pdIndex addr < 1024 := Nat.mod_lt _ (by decide)
  rcases hgrow.lookup _ hlt (ptIndex addr) with heq | ⟨hnone, hplace⟩
  · exact .inl heq
  refine .inr ⟨hnone, hplace.imp_left fun hlow => ?_⟩
  have hbound : kernelPDIndex = 768 := by decide
  rw [hbound, pdIndex] at hlow
  simp only [kernelVMBase]
  omega

theorem device_map_stays_below_kernel_console :
    ∃ (regions : List MemoryRegion) (used : List ℕ) (v : Vm), Space regions used v.mmu v.frames
      ∧ ∀ addr < 2 ^ 32,
        (deviceMap (paging true) ⟨true, 0xB8000#64, 0x8000#32⟩ 0x400000#32 v).2.entryAt addr
            = v.entryAt addr
        ∨ v.entryAt addr = none
          ∧ (addr < kernelVMBase ∨ pdIndex addr = 1023 ∧ ptIndex addr < kernelPDIndex) := by
  obtain ⟨-, m, fm, used, -, -, hS, -⟩ := exists_boot false
  exact ⟨bootRegions, used, boot m fm, hS, device_map_stays_below_kernel true _ _ _ hS⟩

/-- A directory with the kernel's tables and the entry for itself, and three free frames. -/
def consoleMachine : Option Vm :=
  (FrameManager.initFrameManager 4 [⟨true, 0x200000#32, 0x3000#32, .available⟩]).map fun fm =>
    .boot ⟨0x2000, fun f i => if f ≠ 0x2000 then 0#32
      else if i = 1023 then 0x2003#32
      else if 768 ≤ i then BitVec.ofNat 32 (0x400000 + i * 0x1000) ||| 3#32
      else 0#32⟩ fm

/-- One page of the console's memory at 4 MiB. The table for it can be seen at 0xFFC01000. -/
theorem device_map_shows_table :
    ∃ v, consoleMachine = some v ∧ v.entryAt 0xFFC01000 = none
      ∧ (deviceMap (paging true) ⟨true, 0xB8000#64, 0x1000#32⟩ 0x400000#32 v).1 = .ok
      ∧ (deviceMap (paging true) ⟨true, 0xB8000#64, 0x1000#32⟩ 0x400000#32 v).2.entryAt
        0xFFC01000 = some 0x200007#32
      ∧ kernelVMBase ≤ 0xFFC01000 := by
  have hrun : consoleMachine.map (fun v => (v.entryAt 0xFFC01000,
      (deviceMap (paging true) ⟨true, 0xB8000#64, 0x1000#32⟩ 0x400000#32 v).1,
      (deviceMap (paging true) ⟨true, 0xB8000#64, 0x1000#32⟩ 0x400000#32 v).2.entryAt
        0xFFC01000)) = some (none, .ok, some 0x200007#32) := by decide +kernel
  obtain ⟨v, hv, hres⟩ := map_eq_some_iff.1 hrun
  simp only [Prod.mk.injEq] at hres
  exact ⟨v, hv, hres.1, hres.2.1, hres.2.2, by decide⟩

def FailsCleanly (debug : Bool) (dev : DeviceManagerNode) (mapaddr : BitVec 32) (v : Vm) : Prop :=
  (deviceMap (paging debug) dev mapaddr v).1 ≠ .ok →
    ∀ addr < 2 ^ 32, (deviceMap (paging debug) dev mapaddr v).2.entryAt addr = v.entryAt addr

/-- Pages that could be mapped stay mapped when another one could not: a failed `DEVICE_MAP` is
without effect only if it is refused before the loop, or if no page of the range can be mapped. -/
theorem failed_device_map_leaves_nothing_iff (debug : Bool) (dev : DeviceManagerNode)
    (mapaddr : BitVec 32) (v : Vm) (hS : Space regions used v.mmu v.frames) :
    FailsCleanly debug dev mapaddr v ↔
      dev.refuses mapaddr ≠ none
        ∨ ¬ ((dev.mmioAddr.setWidth 32).toNat % frameSize = 0 ∧ mapaddr.toNat % frameSize = 0)
        ∨ (∀ i < dev.nPagesMap, ¬ v.Mappable (mapaddr.toNat + i * frameSize))
        ∨ (∀ i < dev.nPagesMap, mapaddr.toNat + i * frameSize ≠ 0
            ∧ v.mmu.isVirtualPageMapped (mapaddr.toNat + i * frameSize) = false)
          ∧ v.frames.Room (v.mmu.missingTables mapaddr.toNat dev.nPagesMap 0).card := by
  unfold FailsCleanly deviceMap
  cases href : dev.refuses mapaddr with
  | some st => exact iff_of_true (fun _ _ _ => rfl) (.inl (by simp))
  | none =>
    simp only [ne_eq, not_true_eq_false, false_or]
    by_cases hal : (dev.mmioAddr.setWidth 32).toNat % frameSize = 0 ∧ mapaddr.toNat % frameSize = 0
    · obtain ⟨-, hnone, hsome, -, hall⟩ := @mapMemoryRange_spec regions debug _ _ deviceFlags
        (by decide) hal.1 hal.2 dev.nPagesMap 0 used v hS fun j hj => by
          rw [Nat.zero_add]
          exact dev.page_lt href hal.2 hj
      simp only [Nat.zero_add] at hnone hsome hall
      constructor
      · intro h
        refine .inr (or_iff_not_imp_right.2 fun hnot i hi hmap => ?_)
        obtain ⟨j, hj, hun, hnow⟩ := hsome i hi hmap
        have hlt := dev.page_lt href hal.2 hj
        have hsame := h (by simp [mt hall.1 hnot]) (mapaddr.toNat + j * frameSize)
          (hlt.trans (by decide))
        rw [isVirtualPageMapped_eq] at hun hnow
        rw [entryAt, entryAt] at hsame
        rw [hsame, hun] at hnow
        cases hnow
      · rintro (h | h | h) hbad addr -
        · exact absurd hal h
        · rw [entryAt, hnone h]
          rfl
        · exact absurd (if_neg (not_not.2 (hall.2 h))) hbad
    · refine iff_of_true (fun _ _ _ => ?_) (.inl hal)
      rw [not_and_or] at hal
      simp only [mapMemoryRange_unaligned (paging_unaligned debug) hal]

theorem failed_device_map_leaves_nothing_iff_unaligned :
    ∃ (regions : List MemoryRegion) (used : List ℕ) (v : Vm), Space regions used v.mmu v.frames
      ∧ FailsCleanly true ⟨true, 0xB8000#64, 0x2000#32⟩ 0x400010#32 v := by
  obtain ⟨-, m, fm, used, -, -, hS, -⟩ := exists_boot false
  exact ⟨bootRegions, used, boot m fm, hS,
    (failed_device_map_leaves_nothing_iff true _ _ _ hS).2 (.inr (.inl (by decide)))⟩

/-- Two pages at address 0: the first is refused, and the second stays. -/
theorem failed_device_map_leaves_page :
    ∃ v, consoleMachine = some v
      ∧ (deviceMap (paging true) ⟨true, 0xB8000#64, 0x2000#32⟩ 0#32 v).1 = .bad
      ∧ v.entryAt 0x1000 = none
      ∧ (deviceMap (paging true) ⟨true, 0xB8000#64, 0x2000#32⟩ 0#32 v).2.entryAt 0x1000
        = some 0xB901F#32
      ∧ ¬ FailsCleanly true ⟨true, 0xB8000#64, 0x2000#32⟩ 0#32 v := by
  have hrun : consoleMachine.map (fun v => (v.entryAt 0x1000,
      (deviceMap (paging true) ⟨true, 0xB8000#64, 0x2000#32⟩ 0#32 v).1,
      (deviceMap (paging true) ⟨true, 0xB8000#64, 0x2000#32⟩ 0#32 v).2.entryAt 0x1000))
      = some (none, .bad, some 0xB901F#32) := by decide +kernel
  obtain ⟨v, hv, hres⟩ := map_eq_some_iff.1 hrun
  simp only [Prod.mk.injEq] at hres
  obtain ⟨h₁, h₂, h₃⟩ := hres
  refine ⟨v, hv, h₂, h₁, h₃, fun h => ?_⟩
  have := h (by rw [h₂]; decide) 0x1000 (by decide)
  rw [h₁, h₃] at this
  cases this

end DragonWare
