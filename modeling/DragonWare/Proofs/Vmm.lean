import DragonWare.Lib.TwoLevel
import DragonWare.Process
import DragonWare.Proofs.Heap

/-!
# The tables of one address space

`Space` says that the directory CR3 names is well formed, that its last entry points back at it, and
that the kernel's tables are there. Mapping and unmapping keep it so, and change what one page leads
to or nothing.
-/

namespace DragonWare

open Function List TwoLevel

def entryChild (e : BitVec 32) : Option ℕ := if entryPresent e then some (entryFrame e) else none

/-- The directory entries that point at tables: all but the last. -/
def tableSlots : Set ℕ := {i | i < 1023}

def kernelSlots : Set ℕ := {i | 768 ≤ i ∧ i < 1023}

theorem kernelSlots_subset : kernelSlots ⊆ tableSlots := fun _ h => h.2

theorem isSome_entryChild (e : BitVec 32) : (entryChild e).isSome = entryPresent e := by
  unfold entryChild
  cases entryPresent e <;> rfl

variable {e : BitVec 32} {g f : ℕ}

theorem entryChild_of_present (h : entryPresent e = true) :
    entryChild e = some (entryFrame e) := if_pos h

theorem entryChild_eq_none : entryChild e = none ↔ entryPresent e = false := by
  rw [← isSome_entryChild, Option.isSome_eq_false_iff, Option.isNone_iff_eq_none]

theorem entryChild_zero : entryChild 0#32 = none := by decide

theorem entryChild_or {phys : ℕ} {flags : BitVec 32} (hlt : phys < 2 ^ 32)
    (hal : phys % frameSize = 0) (hf : flags &&& 0xFFFFF000#32 = 0#32)
    (hp : flags.getLsbD 0 = true) : entryChild (BitVec.ofNat 32 phys ||| flags) = some phys := by
  rw [entryChild_of_present (entryPresent_or _ hp), entryFrame_or hlt hal hf]

namespace Mmu

def lookup (m : Mmu) (i j : ℕ) : Option (BitVec 32) := TwoLevel.lookup entryChild m.table m.cr3 i j

theorem lookup_eq (m : Mmu) (i j : ℕ) :
    m.lookup i j = if entryPresent (m.pde i) then
      (if entryPresent (m.pte i j) then some (m.pte i j) else none) else none := by
  unfold lookup TwoLevel.lookup Mmu.pte Mmu.pde
  rcases h : entryPresent (m.table m.cr3 i)
  · simp [entryChild, h]
  · rw [entryChild_of_present h, Option.bind_some, isSome_entryChild, if_pos rfl]

theorem translate_eq (m : Mmu) (dir addr : ℕ) :
    m.translate dir addr = TwoLevel.lookup entryChild m.table dir (pdIndex addr) (ptIndex addr) :=
  (lookup_eq { m with cr3 := dir } (pdIndex addr) (ptIndex addr)).symm

theorem translate_cr3 (m : Mmu) (addr : ℕ) :
    m.translate m.cr3 addr = m.lookup (pdIndex addr) (ptIndex addr) := m.translate_eq m.cr3 addr

theorem isVirtualPageMapped_eq (m : Mmu) (addr : ℕ) :
    m.isVirtualPageMapped addr = (m.translate m.cr3 addr).isSome := by
  rw [translate_cr3, lookup_eq]
  unfold isVirtualPageMapped
  cases entryPresent (m.pde (pdIndex addr)) <;>
    cases entryPresent (m.pte (pdIndex addr) (ptIndex addr)) <;> rfl

theorem write_table (m : Mmu) (frame j : ℕ) (e : BitVec 32) :
    (m.write frame j e).table = setEntry m.table frame j e := rfl

def setFrame (m : Mmu) (f : ℕ) (row : ℕ → BitVec 32) : Mmu :=
  { m with table := update m.table f row }

theorem setFrame_self (m : Mmu) (f : ℕ) (row : ℕ → BitVec 32) : (m.setFrame f row).table f = row :=
  update_self ..

theorem pde_write_self (m : Mmu) (i : ℕ) (e : BitVec 32) : (m.write m.cr3 i e).pde i = e :=
  setEntry_self ..

theorem pde_grow {m : Mmu} (h : m.cr3 ≠ g) (i : ℕ) (e : BitVec 32) :
    ((m.write m.cr3 i e).zeroFrame g).pde i = e := by
  unfold pde zeroFrame
  rw [write_table]
  exact (congrFun (update_of_ne h _ _) i).trans (setEntry_self ..)

theorem pde_write_of_ne {m : Mmu} (h : m.cr3 ≠ f) (j d : ℕ) (e : BitVec 32) :
    (m.write f j e).pde d = m.pde d :=
  congrFun (setEntry_of_ne h j e) d

theorem zeroFrame_of_ne (h : f ≠ g) (m : Mmu) : (m.zeroFrame g).table f = m.table f :=
  update_of_ne h ..

theorem pde_install {m : Mmu} (h : m.cr3 ≠ g) (i j d : ℕ) (pde e : BitVec 32) :
    (((m.write m.cr3 i pde).zeroFrame g).write g j e).pde d = if d = i then pde else m.pde d := by
  rw [pde_write_of_ne (m := (m.write m.cr3 i pde).zeroFrame g) h]
  unfold Mmu.pde
  exact (congrFun (zeroFrame_of_ne h (m.write m.cr3 i pde)) d).trans (setEntry_dir_apply d)

theorem zeroFrame_self (m : Mmu) (g j : ℕ) : (m.zeroFrame g).table g j = 0#32 := by
  simp [zeroFrame]

/-- Something was done to the tables of the current address space, and to frames in `touched`. -/
structure Evolves (touched : Set ℕ) (m : Mmu) (used : List ℕ) (m' : Mmu) (used' : List ℕ) :
    Prop where
  cr3 : m'.cr3 = m.cr3
  tables : TwoLevel.Evolves entryChild tableSlots touched m.cr3 {f | f ∈ used} m.table
    {f | f ∈ used'} m'.table

namespace Evolves

variable {touched touched' : Set ℕ} {m m' m'' : Mmu} {used used' used'' : List ℕ}

theorem refl : Evolves touched m used m used := ⟨rfl, .refl⟩

theorem trans (h : Evolves touched m used m' used') (h' : Evolves touched m' used' m'' used'') :
    Evolves touched m used m'' used'' :=
  ⟨h'.cr3.trans h.cr3, h.tables.trans (h.cr3 ▸ h'.tables)⟩

theorem more (hsub : used ⊆ used') : Evolves touched m used m used' :=
  ⟨rfl, TwoLevel.Evolves.refl.mono hsub⟩

theorem weaken (h : Evolves touched m used m' used')
    (hT : ∀ f ∈ used, f ∈ touched → f ∈ touched') : Evolves touched' m used m' used' :=
  ⟨h.cr3, h.tables.weaken hT⟩

end Evolves

end Mmu

/-- The current address space, with the frames handed out. -/
structure Space (regions : List MemoryRegion) (used : List ℕ) (m : Mmu) (fm : FrameManager) :
    Prop where
  frames : FrameInv regions (fm, used)
  wellFormed : WellFormed entryChild tableSlots {f | f ∈ used} m.table m.cr3
  recursive : entryChild (m.pde 1023) = some m.cr3
  kernel : ∀ i ∈ kernelSlots, entryPresent (m.pde i) = true

namespace Space

variable {regions : List MemoryRegion} {used used' : List ℕ} {m m' : Mmu} {fm fm' : FrameManager}

section

variable (hS : Space regions used m fm)

include hS

theorem evolve {touched : Set ℕ} (he : m.Evolves touched used m' used')
    (hI : FrameInv regions (fm', used'))
    (hw : WellFormed entryChild tableSlots {f | f ∈ used'} m'.table m.cr3) :
    Space regions used' m' fm' := by
  refine ⟨hI, by rwa [he.cr3], ?_, fun i hi => ?_⟩
  · have hlast : m'.pde 1023 = m.pde 1023 := by
      unfold Mmu.pde
      rw [he.cr3]
      exact he.tables.entry 1023 (.inl (lt_irrefl 1023))
    rw [hlast, he.cr3]
    exact hS.recursive
  · have hpde : m'.pde i = m.pde i := by
      unfold Mmu.pde
      rw [he.cr3]
      refine he.tables.entry i (.inr ?_)
      rw [isSome_entryChild]
      exact hS.kernel i hi
    rw [hpde]
    exact hS.kernel i hi

theorem allocated (hI : FrameInv regions (fm', f :: used)) : Space regions (f :: used) m fm' :=
  hS.evolve (Mmu.Evolves.more (subset_cons_self f used) : m.Evolves ∅ used m (f :: used)) hI
    (hS.wellFormed.mono fun _ => mem_cons_of_mem f)

theorem reframe (hI : FrameInv regions (fm', used)) :
    Space regions used m fm' := { hS with frames := hI }

/-- The addresses of `GetPageTableAt` show the tables, and the last of them,
`CURRENT_PAGE_DIRECTORY`, the directory. -/
theorem getPageTableAt (i : ℕ) :
    m.lookup 1023 i = if entryPresent (m.pde i) then some (m.pde i) else none := by
  have hp : entryPresent (m.pde 1023) = true := by
    rw [← isSome_entryChild, hS.recursive]
    rfl
  have hf : entryFrame (m.pde 1023) = m.cr3 := by
    have := hS.recursive
    rw [entryChild_of_present hp] at this
    exact Option.some.inj this
  have hpte : m.pte 1023 i = m.pde i := by
    unfold Mmu.pte
    rw [hf]
    rfl
  rw [m.lookup_eq, hpte, if_pos hp]

theorem write {i : ℕ} (hi : i < 1023) (hp : entryPresent (m.pde i) = true) (j : ℕ) (e : BitVec 32) :
    Space regions used (m.write (entryFrame (m.pde i)) j e) fm
      ∧ m.Evolves ∅ used (m.write (entryFrame (m.pde i)) j e) used
      ∧ ∀ a < 1023, ∀ b, (m.write (entryFrame (m.pde i)) j e).lookup a b =
          if a = i ∧ b = j then (if entryPresent e then some e else none) else m.lookup a b := by
  have hc : entryChild (m.table m.cr3 i) = some (entryFrame (m.pde i)) := entryChild_of_present hp
  have he : m.Evolves ∅ used (m.write (entryFrame (m.pde i)) j e) used :=
    ⟨rfl, .set hS.wellFormed hi hc⟩
  refine ⟨hS.evolve he hS.frames (hS.wellFormed.set hi hc), he, fun a ha b => ?_⟩
  rw [← isSome_entryChild]
  exact lookup_set hS.wellFormed hi hc ha b

theorem grow {i : ℕ} (hi : i < 1023) (hp : entryPresent (m.pde i) = false)
    (he : entryChild e = some g) (hg : g ∉ used) (hI : FrameInv regions (fm', g :: used)) :
    Space regions (g :: used) ((m.write m.cr3 i e).zeroFrame g) fm'
      ∧ m.Evolves ∅ used ((m.write m.cr3 i e).zeroFrame g) (g :: used)
      ∧ ∀ a < 1023, ∀ b, ((m.write m.cr3 i e).zeroFrame g).lookup a b = m.lookup a b := by
  have hc : entryChild (m.table m.cr3 i) = none := entryChild_eq_none.2 hp
  have hset : {f | f ∈ g :: used} = insert g {f | f ∈ used} := by
    ext f
    simp
  have hev : m.Evolves ∅ used ((m.write m.cr3 i e).zeroFrame g) (g :: used) := by
    refine ⟨rfl, ?_⟩
    rw [hset]
    exact .grow hS.wellFormed he hg hi hc
  refine ⟨hS.evolve hev hI ?_, hev, fun a ha b => ?_⟩
  · rw [hset]
    exact hS.wellFormed.grow he hg
  · exact lookup_grow hS.wellFormed he hg hc (fun _ => entryChild_zero) ha b

theorem poke (hf : ¬ Holds entryChild tableSlots m.table m.cr3 f) (row : ℕ → BitVec 32) :
    Space regions used (m.setFrame f row) fm ∧ m.Evolves {f} used (m.setFrame f row) used
      ∧ ∀ i < 1023, ∀ j, (m.setFrame f row).lookup i j = m.lookup i j := by
  have he : m.Evolves {f} used (m.setFrame f row) used := ⟨rfl, .update hf row⟩
  refine ⟨hS.evolve he hS.frames (hS.wellFormed.update (fun h => hf (.inl h)) row), he,
    fun i hi j => ?_⟩
  have hi' : i ∈ tableSlots := hi
  refine lookup_congr hi' fun g hg => ?_
  have hgf : g ≠ f := fun h => hf (h ▸ hg)
  exact update_of_ne hgf ..

end

end Space

namespace Mmu

variable {regions : List MemoryRegion} {used : List ℕ} {m m' : Mmu} {fm fm' : FrameManager}
  {st : Status} {phys virt : ℕ} {flags : BitVec 32}

theorem mapSinglePage_cases (hI : FrameInv regions (fm, used)) (hdir : m.cr3 ∈ used)
    (h : mapSinglePage phys virt flags m fm = (st, m', fm')) :
    (st ≠ .ok ∧ m' = m ∧ FrameInv regions (fm', used)
        ∧ (entryPresent (m.pde (pdIndex virt)) = true → fm' = fm))
      ∨ (st = .ok ∧ (virt ≠ 0 ∧ phys % frameSize = 0 ∧ virt % frameSize = 0)
        ∧ entryPresent (m.pde (pdIndex virt)) = true ∧ fm' = fm
        ∧ entryPresent (m.pte (pdIndex virt) (ptIndex virt)) = false
        ∧ m' = m.write (entryFrame (m.pde (pdIndex virt))) (ptIndex virt)
            (BitVec.ofNat 32 phys ||| flags))
      ∨ (st = .ok ∧ (virt ≠ 0 ∧ phys % frameSize = 0 ∧ virt % frameSize = 0)
        ∧ entryPresent (m.pde (pdIndex virt)) = false
        ∧ ∃ g pde, g ∉ used ∧ (entryChild pde = some g ∧ pde = BitVec.ofNat 32 g |||
            if flags &&& pageUser ≠ 0#32 then pagePresent ||| pageRW ||| pageUser
            else pagePresent ||| pageRW) ∧ FrameInv regions (fm', g :: used)
          ∧ m' = ((m.write m.cr3 (pdIndex virt) pde).zeroFrame g).write g (ptIndex virt)
            (BitVec.ofNat 32 phys ||| flags)) := by
  unfold mapSinglePage at h
  by_cases hbad : virt = 0 ∨ phys % frameSize ≠ 0 ∨ virt % frameSize ≠ 0
  · rw [if_pos hbad] at h
    cases h
    exact .inl ⟨by decide, rfl, hI, fun _ => rfl⟩
  rw [if_neg hbad] at h
  have hgood : virt ≠ 0 ∧ phys % frameSize = 0 ∧ virt % frameSize = 0 := by
    simpa only [not_or, not_not, ne_eq] using hbad
  simp only [] at h
  rcases hp : entryPresent (m.pde (pdIndex virt))
  · simp only [hp, Bool.false_eq_true, if_false] at h
    set pdflags := if flags &&& pageUser ≠ 0#32 then pagePresent ||| pageRW ||| pageUser
      else pagePresent ||| pageRW with hflags
    have hflags1 : pdflags &&& 0xFFFFF000#32 = 0#32 := by
      rw [hflags]
      split_ifs <;> decide
    have hflags2 : pdflags.getLsbD 0 = true := by
      rw [hflags]
      split_ifs <;> decide
    rcases hI.allocateFrame with ⟨h0, hI'⟩ | ⟨h0, hl, ho, hI'⟩
    · rw [if_pos h0] at h
      cases h
      exact .inl ⟨by decide, rfl, hI', fun h => by cases h⟩
    obtain ⟨-, hlt, hal⟩ := ho.bounds
    have hchild := entryChild_or hlt hal hflags1 hflags2
    rw [if_neg h0] at h
    set g := fm.allocateFrame.1 with hg
    rw [pde_write_self, entryFrame_or hlt hal hflags1] at h
    set m1 := (m.write m.cr3 (pdIndex virt) (BitVec.ofNat 32 g ||| pdflags)).zeroFrame g with hm1
    have hne : m.cr3 ≠ g := fun h => hl (h ▸ hdir)
    have hpde1 : m1.pde (pdIndex virt) = BitVec.ofNat 32 g ||| pdflags := by
      rw [hm1, pde_grow hne]
    have hpte1 : m1.pte (pdIndex virt) (ptIndex virt) = 0#32 := by
      unfold Mmu.pte
      rw [hpde1, entryFrame_or hlt hal hflags1, hm1, zeroFrame_self]
    have habs : entryPresent 0#32 = false := by decide
    rw [hpte1, hpde1, habs, entryFrame_or hlt hal hflags1] at h
    simp only [Bool.false_eq_true, if_false] at h
    cases h
    exact .inr (.inr ⟨rfl, hgood, rfl, g, _, hl, ⟨hchild, rfl⟩, hI', rfl⟩)
  · simp only [hp, if_true] at h
    rcases hq : entryPresent (m.pte (pdIndex virt) (ptIndex virt))
    · simp only [hq, Bool.false_eq_true, if_false] at h
      cases h
      exact .inr (.inl ⟨rfl, hgood, rfl, rfl, rfl, rfl⟩)
    · simp only [hq, if_true] at h
      cases h
      exact .inl ⟨by decide, rfl, hI, fun _ => rfl⟩

theorem mapSinglePage_spec (hS : Space regions used m fm) (hv : pdIndex virt < 1023)
    (h : mapSinglePage phys virt flags m fm = (st, m', fm')) :
    ∃ used', Space regions used' m' fm' ∧ m.Evolves ∅ used m' used'
      ∧ (entryPresent (m.pde (pdIndex virt)) = true → used' = used ∧ fm' = fm)
      ∧ (st = .ok → m.lookup (pdIndex virt) (ptIndex virt) = none
          ∧ ∀ a < 1023, ∀ b, m'.lookup a b =
            if a = pdIndex virt ∧ b = ptIndex virt then
              (if entryPresent (BitVec.ofNat 32 phys ||| flags) then
                some (BitVec.ofNat 32 phys ||| flags) else none)
            else m.lookup a b)
      ∧ (st ≠ .ok → m' = m) := by
  have hdir := hS.wellFormed.live m.cr3 (.inl rfl)
  rcases mapSinglePage_cases hS.frames hdir h with ⟨hst, rfl, hI, hfm⟩
    | ⟨rfl, -, hp, rfl, hq, rfl⟩ | ⟨rfl, -, hp, g, pde, hg, ⟨hpde, -⟩, hI, rfl⟩
  · exact ⟨used, hS.reframe hI, .refl, fun hp => ⟨rfl, hfm hp⟩, fun h => absurd h hst, fun _ => rfl⟩
  · obtain ⟨hS', he, hlook⟩ := hS.write hv hp (ptIndex virt) (BitVec.ofNat 32 phys ||| flags)
    refine ⟨used, hS', he, fun _ => ⟨rfl, rfl⟩, fun _ => ⟨?_, hlook⟩, fun h => absurd rfl h⟩
    rw [m.lookup_eq, hp, hq]
    rfl
  obtain ⟨hS1, he1, hlook1⟩ := hS.grow hv hp hpde hg hI
  set m1 := (m.write m.cr3 (pdIndex virt) pde).zeroFrame g with hm1
  have hpde1 : m1.pde (pdIndex virt) = pde := by
    have hne : m.cr3 ≠ g := fun h => hg (h ▸ hdir)
    rw [hm1, pde_grow hne]
  have hp1 : entryPresent (m1.pde (pdIndex virt)) = true := by
    rw [hpde1, ← isSome_entryChild, hpde]
    rfl
  have hf1 : entryFrame (m1.pde (pdIndex virt)) = g := by
    rw [← hpde1, entryChild_of_present hp1] at hpde
    exact Option.some.inj hpde
  obtain ⟨hS', he, hlook⟩ := hS1.write hv hp1 (ptIndex virt) (BitVec.ofNat 32 phys ||| flags)
  rw [hf1] at hS' he hlook
  refine ⟨_, hS', he1.trans he, fun h => ?_, fun _ => ⟨?_, fun a ha b => ?_⟩,
    fun h => absurd rfl h⟩
  · rw [hp] at h
    cases h
  · rw [m.lookup_eq, hp]
    rfl
  · rw [hlook a ha b, hlook1 a ha b]

theorem unmapSinglePage_spec {debug : Bool} (hS : Space regions used m fm)
    (hv : pdIndex virt < 1023) (h : m.unmapSinglePage debug virt = some m') :
    Space regions used m' fm ∧ m.Evolves ∅ used m' used
      ∧ ∀ a < 1023, ∀ b, m'.lookup a b =
        if a = pdIndex virt ∧ b = ptIndex virt then none else m.lookup a b := by
  unfold unmapSinglePage at h
  split_ifs at h with hbad hm
  · obtain rfl := Option.some.inj h
    refine ⟨hS, .refl, fun a _ b => ?_⟩
    split_ifs with hab
    · obtain ⟨rfl, rfl⟩ := hab
      rw [isVirtualPageMapped_eq, Bool.not_eq_true', Option.isSome_eq_false_iff,
        Option.isNone_iff_eq_none, translate_cr3] at hm
      exact hm
    · rfl
  · obtain rfl := Option.some.inj h
    have hp : entryPresent (m.pde (pdIndex virt)) = true := by
      unfold isVirtualPageMapped at hm
      simp only [Bool.not_eq_true', Bool.and_eq_false_iff, not_or, Bool.not_eq_false] at hm
      exact hm.1
    exact hS.write hv hp (ptIndex virt) 0#32

end Mmu

section Init

open Mmu

variable {regions : List MemoryRegion} {used used₀ : List ℕ} {m m' : Mmu} {fm fm' : FrameManager}
  {pd pt i : ℕ}
variable {image : LinkerSymbols} {pge : Bool}

theorem fillTable_of_ne {flags : BitVec 32} {index addr : ℕ → ℕ} {f : ℕ} (h : f ≠ pt) :
    ∀ n, (m.fillTable pt flags index addr n).table f = m.table f
  | 0 => rfl
  | n + 1 => by
    unfold fillTable
    rw [write_table, setEntry_of_ne h, fillTable_of_ne h n]

theorem fillTable_of_index_ne {flags : BitVec 32} {index addr : ℕ → ℕ} {j : ℕ} :
    ∀ n, (∀ i < n, ptIndex (index i) ≠ j) →
      (m.fillTable pt flags index addr n).table pt j = m.table pt j
  | 0, _ => rfl
  | n + 1, h => by
    unfold fillTable
    rw [write_table, setEntry_self_of_ne (h n (Nat.lt_succ_self n)).symm,
      fillTable_of_index_ne n fun i hi => h i (by omega)]

def OutsideImage (image : LinkerSymbols) (j : ℕ) : Prop :=
  (∀ i < alignUp (image.stop - image.start) frameSize / frameSize, ptIndex (i * frameSize) ≠ j)
    ∧ (∀ i < pageSteps image.textStart image.textStop,
      ptIndex (image.textStart + i * frameSize) ≠ j)
    ∧ ∀ i < pageSteps image.rodataStart image.rodataStop,
      ptIndex (image.rodataStart + i * frameSize) ≠ j

/-- A directory whose entries of the kernel are filled in up to `i`, with frames that were not in
use before. -/
structure Filling (regions : List MemoryRegion) (used₀ used : List ℕ) (m : Mmu)
    (fm : FrameManager) (pd i : ℕ) : Prop where
  frames : FrameInv regions (fm, used)
  sub : used₀ ⊆ used
  wellFormed : WellFormed entryChild tableSlots {f | f ∈ used} m.table pd
  full : ∀ k, 768 ≤ k → k < i → entryPresent (m.table pd k) = true
  fresh : ∀ f, Holds entryChild tableSlots m.table pd f → f = pd ∨ f ∉ used₀
  blank : ∀ k ∈ tableSlots, ∀ f, entryChild (m.table pd k) = some f → ∀ j, m.table f j = 0#32

theorem Filling.add (hF : Filling regions used₀ used m fm pd i) (he : entryChild e = some g)
    (hg : g ∉ used) (hI : FrameInv regions (fm', g :: used)) :
    Filling regions used₀ (g :: used) ((m.zeroFrame g).write pd i e) fm' pd (i + 1) := by
  have hne : g ≠ pd := fun h => hg (h ▸ hF.wellFormed.live pd (.inl rfl))
  have hrow : ∀ k, (m.zeroFrame g).table pd k = m.table pd k := fun k => by
    rw [zeroFrame_of_ne hne.symm]
  have hw := (hF.wellFormed.mono fun f hf => mem_cons_of_mem g hf).congr fun k _ => hrow k
  have hhold : ¬ Holds entryChild tableSlots (m.zeroFrame g).table pd g := fun h =>
    hg (hF.wellFormed.live g ((holds_congr fun k _ => hrow k).1 h))
  refine ⟨hI, fun f hf => mem_cons_of_mem g (hF.sub hf),
    hw.point he (mem_cons_self ..) hhold, fun k hk hki => ?_, fun f hf => ?_,
    fun k hk f hf j => ?_⟩
  · rw [write_table, setEntry_dir_apply]
    split_ifs with hki'
    · rw [← isSome_entryChild, he]
      rfl
    · rw [hrow]
      exact hF.full k hk (by omega)
  · rcases holds_point he hf with rfl | hf
    · exact .inr fun h => hg (hF.sub h)
    · exact hF.fresh f ((holds_congr fun k _ => hrow k).1 hf)
  · rw [write_table, setEntry_dir_apply] at hf
    split_ifs at hf
    · rw [he] at hf
      obtain rfl := Option.some.inj hf
      rw [write_table, setEntry_of_ne hne, zeroFrame_self]
    rw [hrow] at hf
    have hfpd : f ≠ pd := fun h => hF.wellFormed.ne k hk (h ▸ hf)
    have hfg : f ≠ g := fun h => hg (h ▸ hF.wellFormed.live f (.inr ⟨k, hk, hf⟩))
    rw [write_table, setEntry_of_ne hfpd, zeroFrame_of_ne hfg]
    exact hF.blank k hk f hf j

theorem allocateTables_spec : ∀ (n i : ℕ) {m : Mmu} {fm : FrameManager} {used : List ℕ},
    Filling regions used₀ used m fm pd i → m.allocateTables pd n i fm = (.ok, m', fm') →
    ∃ used', Filling regions used₀ used' m' fm' pd (i + n)
  | 0, i, m, fm, used, hF, h => by
    unfold allocateTables at h
    cases h
    exact ⟨used, hF⟩
  | n + 1, i, m, fm, used, hF, h => by
    unfold allocateTables at h
    rw [show i + (n + 1) = i + 1 + n by omega]
    by_cases hp : entryPresent (m.table pd i) = true
    · rw [if_pos hp] at h
      refine allocateTables_spec n (i + 1) { hF with full := fun k hk hki => ?_ } h
      by_cases hki' : k = i
      · exact hki' ▸ hp
      · exact hF.full k hk (by omega)
    · rw [if_neg hp] at h
      rcases hF.frames.allocateFrame with ⟨h0, -⟩ | ⟨h0, hl, ho, hI⟩
      · simp only [h0, if_true] at h
        cases h
      obtain ⟨-, hlt, hal⟩ := ho.bounds
      simp only [h0, if_false] at h
      exact allocateTables_spec n (i + 1)
        (hF.add (entryChild_or hlt hal (by decide) (by decide)) hl hI) h

theorem allocateTables_of_mem {f : ℕ} (hne : f ≠ pd) :
    ∀ (n i : ℕ) {m : Mmu} {fm : FrameManager} {used : List ℕ}, FrameInv regions (fm, used) →
      f ∈ used → m.allocateTables pd n i fm = (.ok, m', fm') → m'.table f = m.table f
  | 0, i, m, fm, used, _, _, h => by
    unfold allocateTables at h
    cases h
    rfl
  | n + 1, i, m, fm, used, hI, hf, h => by
    unfold allocateTables at h
    by_cases hp : entryPresent (m.table pd i) = true
    · rw [if_pos hp] at h
      exact allocateTables_of_mem hne n (i + 1) hI hf h
    rw [if_neg hp] at h
    rcases hI.allocateFrame with ⟨h0, -⟩ | ⟨h0, hl, -, hI'⟩
    · simp only [h0, if_true] at h
      cases h
    simp only [h0, if_false] at h
    have hfg : f ≠ fm.allocateFrame.1 := fun heq => hl (heq ▸ hf)
    rw [allocateTables_of_mem hne n (i + 1) hI' (mem_cons_of_mem _ hf) h, write_table,
      setEntry_of_ne hne, zeroFrame_of_ne hfg]

/-- The directory is closed: the first table of the kernel is the one that was filled by hand, and
the last entry points back. -/
theorem Filling.close (hF : Filling regions used₀ used m fm pd 1023) (hpt : pt ∈ used₀)
    (hne : pt ≠ pd) {m1 : Mmu} (htable : ∀ f, f ≠ pt → m1.table f = m.table f) {last : BitVec 32}
    (he : entryChild e = some pt) (hlast : entryChild last = some pd) :
    Space regions used ⟨pd, ((m1.write pd 768 e).write pd 1023 last).table⟩ fm
      ∧ (∀ f, Holds entryChild tableSlots ((m1.write pd 768 e).write pd 1023 last).table pd f →
        f = pd ∨ f = pt ∨ f ∉ used₀)
      ∧ ∀ i ∈ tableSlots, i ≠ 768 → ∀ j,
        Mmu.lookup ⟨pd, ((m1.write pd 768 e).write pd 1023 last).table⟩ i j = none := by
  have hrow : ∀ k, m1.table pd k = m.table pd k := fun k => by rw [htable pd hne.symm]
  have hfree : ¬ Holds entryChild tableSlots m1.table pd pt := fun h => by
    rcases hF.fresh pt ((holds_congr fun k _ => hrow k).1 h) with h | h
    · exact hne h
    · exact h hpt
  have hw := (hF.wellFormed.congr fun k _ => hrow k).point (i := 768) he (hF.sub hpt) hfree
  have hslot : ∀ k ∈ tableSlots, ((m1.write pd 768 e).write pd 1023 last).table pd k
      = (m1.write pd 768 e).table pd k := fun k hk => setEntry_self_of_ne (ne_of_lt hk) _ _
  have hkernel : ∀ i ∈ kernelSlots,
      entryPresent (((m1.write pd 768 e).write pd 1023 last).table pd i) = true := fun i hi => by
    rw [hslot i hi.2, write_table, setEntry_dir_apply]
    split_ifs
    · rw [← isSome_entryChild, he]
      rfl
    · rw [hrow]
      exact hF.full i hi.1 hi.2
  have hback : entryChild (((m1.write pd 768 e).write pd 1023 last).table pd 1023) = some pd := by
    rw [write_table, setEntry_self]
    exact hlast
  refine ⟨⟨hF.frames, hw.congr hslot, hback, hkernel⟩, fun f hf => ?_, fun i hi hi' j => ?_⟩
  · rcases holds_point he ((holds_congr hslot).1 hf) with rfl | hf
    · exact .inr (.inl rfl)
    · exact (hF.fresh f ((holds_congr fun k _ => hrow k).1 hf)).imp_right .inr
  · have hentry : ((m1.write pd 768 e).write pd 1023 last).table pd i = m.table pd i := by
      rw [hslot i hi, write_table, setEntry_dir_apply, if_neg hi', hrow]
    unfold Mmu.lookup TwoLevel.lookup
    simp only [hentry]
    rcases hc : entryChild (m.table pd i) with _ | f
    · rfl
    have hfpd : f ≠ pd := fun h => hF.wellFormed.ne i hi (h ▸ hc)
    have hfpt : f ≠ pt := fun h => by
      rcases hF.fresh f (.inr ⟨i, hi, hc⟩) with h' | h'
      · exact hfpd h'
      · exact h' (h ▸ hpt)
    have hzero : ((m1.write pd 768 e).write pd 1023 last).table f j = 0#32 := by
      rw [write_table, setEntry_of_ne hfpd, write_table, setEntry_of_ne hfpd, htable f hfpt]
      exact hF.blank i hi f hc j
    rw [Option.bind_some, hzero, entryChild_zero]
    rfl

theorem initVirtualMemoryManager_cases (hI : FrameInv regions (fm, used))
    (h : m.initVirtualMemoryManager pge image fm = (.ok, m', fm')) :
    ∃ (pd pt : ℕ) (fm1 : FrameManager) (m1 m2 m3 : Mmu),
      pd ∉ used ∧ Offered regions pd ∧ pt ∉ pd :: used ∧ Offered regions pt
      ∧ FrameInv regions (fm1, pt :: pd :: used) ∧ (∀ k, m1.table pd k = 0#32)
      ∧ m1.allocateTables pd (maxPDEntries - 1 - kernelPDIndex) kernelPDIndex fm1 = (.ok, m2, fm')
      ∧ (∀ f, f ≠ pt → m3.table f = m2.table f)
      ∧ (∀ j, OutsideImage image j → m1.table pt j = 0#32 ∧ m3.table pt j = m2.table pt j)
      ∧ m' = ⟨pd, ((m3.write pd kernelPDIndex (BitVec.ofNat 32 pt ||| kernelPDEFlags)).write pd
          (maxPDEntries - 1) (BitVec.ofNat 32 pd ||| kernelPDEFlags)).table⟩ := by
  unfold initVirtualMemoryManager at h
  rcases hI.allocateLowMemory with ⟨h0, -⟩ | ⟨h0, hl, ho, hI1⟩
  · simp only [h0, true_or, if_true] at h
    cases h
  rcases hI1.allocateLowMemory with ⟨h1, -⟩ | ⟨h1, hl1, ho1, hI2⟩
  · simp only [h1, or_true, if_true] at h
    cases h
  simp only [h0, h1, or_self, if_false] at h
  have hne : fm.allocateLowMemory.1 ≠ fm.allocateLowMemory.2.allocateLowMemory.1 := fun heq =>
    hl1 (mem_cons.2 (.inl heq.symm))
  split at h
  case h_2 hno => exact absurd h (hno _ _)
  case h_1 m2 fm2 hat =>
    cases h
    refine ⟨_, _, _, _, m2, _, hl, ho, hl1, ho1, hI2, fun k => ?_, hat, fun f hf => ?_,
      fun j hj => ⟨?_, ?_⟩, rfl⟩
    · rw [fillTable_of_ne hne, zeroFrame_of_ne hne, zeroFrame_self]
    · rw [fillTable_of_ne hf, fillTable_of_ne hf]
    · rw [fillTable_of_index_ne _ hj.1, zeroFrame_self]
    · rw [fillTable_of_index_ne _ hj.2.2, fillTable_of_index_ne _ hj.2.1]

/-- `InitVirtualMemoryManager` builds an address space of frames that were not in use, and maps
nothing outside the table that holds the kernel's image. -/
theorem initVirtualMemoryManager_spec (hI : FrameInv regions (fm, used))
    (h : m.initVirtualMemoryManager pge image fm = (.ok, m', fm')) :
    ∃ used', used ⊆ used' ∧ Space regions used' m' fm'
      ∧ (∀ f, Holds entryChild tableSlots m'.table m'.cr3 f → f ∉ used)
      ∧ ∀ i < 1023, i ≠ 768 → ∀ j, m'.lookup i j = none := by
  obtain ⟨pd, pt, fm1, m1, m2, m3, hpd, hpdo, hpt, hpto, hI1, hblank, hat, hrow, -, rfl⟩ :=
    initVirtualMemoryManager_cases hI h
  obtain ⟨-, hpdlt, hpdal⟩ := hpdo.bounds
  obtain ⟨-, hptlt, hptal⟩ := hpto.bounds
  have hne : pt ≠ pd := fun h => hpt (mem_cons.2 (.inl h))
  have hmem : pd ∈ pt :: pd :: used := mem_cons_of_mem _ (mem_cons_self ..)
  have hnone : ∀ k, entryChild (m1.table pd k) = none := fun k => by
    rw [hblank k]
    exact entryChild_zero
  have hfirst : kernelPDIndex = 768 := by decide
  have hcount : kernelPDIndex + (maxPDEntries - 1 - kernelPDIndex) = 1023 := by decide
  have hF : Filling regions (pt :: pd :: used) (pt :: pd :: used) m1 fm1 pd kernelPDIndex := by
    refine ⟨hI1, Subset.refl _, .blank hmem fun k _ => hnone k, fun k hk hlt => ?_, ?_,
      fun k _ f hf => by simp [hnone k] at hf⟩
    · rw [hfirst] at hlt
      omega
    rintro f (rfl | ⟨k, -, hf⟩)
    · exact .inl rfl
    · simp [hnone k] at hf
  obtain ⟨used', hF'⟩ := allocateTables_spec _ _ hF hat
  rw [hcount] at hF'
  have hpte : entryChild (BitVec.ofNat 32 pt ||| kernelPDEFlags) = some pt :=
    entryChild_or hptlt hptal (by decide) (by decide)
  have hpde : entryChild (BitVec.ofNat 32 pd ||| kernelPDEFlags) = some pd :=
    entryChild_or hpdlt hpdal (by decide) (by decide)
  obtain ⟨hS, hfresh, hnone⟩ := Filling.close hF' (mem_cons_self ..) hne hrow hpte hpde
  refine ⟨used', fun f hf => hF'.sub (by simp [hf]), hS, fun f hf hused => ?_, hnone⟩
  rcases hfresh f hf with rfl | rfl | h
  · exact hpd hused
  · exact hpt (mem_cons_of_mem _ hused)
  · exact h (by simp [hused])

theorem initVirtualMemoryManager_outside (hI : FrameInv regions (fm, used))
    (h : m.initVirtualMemoryManager pge image fm = (.ok, m', fm')) {j : ℕ}
    (hj : OutsideImage image j) : m'.lookup 768 j = none := by
  obtain ⟨pd, pt, fm1, m1, m2, m3, -, -, hpt, hpto, hI1, -, hat, -, hout, rfl⟩ :=
    initVirtualMemoryManager_cases hI h
  obtain ⟨-, hptlt, hptal⟩ := hpto.bounds
  have hne : pt ≠ pd := fun h => hpt (mem_cons.2 (.inl h))
  have hpte : entryChild (BitVec.ofNat 32 pt ||| kernelPDEFlags) = some pt :=
    entryChild_or hptlt hptal (by decide) (by decide)
  have hzero : m3.table pt j = 0#32 := by
    rw [(hout j hj).2, allocateTables_of_mem hne _ _ hI1 (mem_cons_self ..) hat, (hout j hj).1]
  have hentry : ((m3.write pd kernelPDIndex (BitVec.ofNat 32 pt ||| kernelPDEFlags)).write pd
      (maxPDEntries - 1) (BitVec.ofNat 32 pd ||| kernelPDEFlags)).table pt j = 0#32 := by
    rw [write_table, setEntry_of_ne hne, write_table, setEntry_of_ne hne, hzero]
  unfold Mmu.lookup TwoLevel.lookup
  simp only [write_table]
  rw [setEntry_self_of_ne (by decide), show kernelPDIndex = 768 by decide, setEntry_self, hpte,
    Option.bind_some]
  simp only [write_table, show kernelPDIndex = 768 by decide] at hentry
  simp only [hentry, entryChild_zero]
  rfl

end Init

end DragonWare
