import DragonWare.Proofs.HugeAllocation
import DragonWare.Proofs.UserPages

/-!
# What a failed `MapSection` leaves behind

`SectionWalk` describes the loop. The rollback does not tell frames and mappings of earlier calls
from its own, so only a section that is new is left as it was (`failed_map_no_effect_iff`).
-/

namespace DragonWare

open Finset Function List Mmu Option Section TwoLevel Vm

variable {i start f j : ℕ} {σ : Type} {P : Paging σ} {e : BitVec 32} {mmu : Mmu}

theorem Section.flags_present (scn : Section) : scn.flags.getLsbD 0 = true := by
  unfold flags
  split_ifs <;> decide

theorem Section.flags_low (scn : Section) : scn.flags &&& 0xFFFFF000#32 = 0#32 := by
  unfold flags
  split_ifs <;> decide

section Range

variable {mapped : ℕ → Bool} {n : ℕ}

structure UserPagesFree (mapped : ℕ → Bool) (n start : ℕ) : Prop where
  aligned : start % frameSize = 0
  lower : 4 * frameSize ≤ start
  upper : start + n * frameSize ≤ kernelVMBase
  unmapped : ∀ j < n, mapped (start + j * frameSize) = false

theorem findFreePageRange_free
    (h : findFreePageRange mapped (4 * frameSize) kernelVMBase n ≠ 0) :
    UserPagesFree mapped n (findFreePageRange mapped (4 * frameSize) kernelVMBase n) := by
  have hn : n ≠ 0 := by
    rintro rfl
    exact h (if_pos (.inr rfl))
  obtain ⟨h1, h2, h3, h4⟩ := ((findFreePageRange_spec mapped (by decide) (by decide) (by decide)
    hn).2 h).1
  exact ⟨h1, h2, h3, h4⟩

theorem UserPagesFree.index (h : UserPagesFree mapped n start) (hj : j < n) :
    start + j * frameSize ≠ 0 ∧ (start + j * frameSize) % frameSize = 0
      ∧ pdIndex (start + j * frameSize) < 768 := by
  obtain ⟨hal, hlo, hup, -⟩ := h
  simp only [frameSize, kernelVMBase, pdIndex] at *
  omega

theorem UserPagesFree.index_inj (h : UserPagesFree mapped n start) {k : ℕ} (hj : j < n) (hk : k < n)
    (hd : pdIndex (start + j * frameSize) = pdIndex (start + k * frameSize))
    (ht : ptIndex (start + j * frameSize) = ptIndex (start + k * frameSize)) : j = k := by
  obtain ⟨hal, hlo, hup, -⟩ := h
  simp only [frameSize, kernelVMBase, pdIndex, ptIndex] at *
  omega

end Range

section Page

variable {regions : List MemoryRegion} {used used' : List ℕ} {m m' : Mmu} {fm fm' : FrameManager}
  {phys virt : ℕ} {flags : BitVec 32} {st : Status}

theorem FrameInv.mem_iff (hI : FrameInv regions (fm, used)) :
    f ∈ used ↔ Offered regions f ∧ Bitmap.testBit fm.bitmap (f / frameSize) = true := by
  constructor
  · exact fun hf => ⟨hI.live f hf, hI.allocated_of_live hf⟩
  · rintro ⟨ho, hset⟩
    by_contra hf
    have hdiv : f / frameSize * frameSize = f :=
      Nat.div_mul_cancel (Nat.dvd_of_mod_eq_zero ho.bounds.2.2)
    have hclear := (hI.clear (f / frameSize)).2 (by rw [hdiv]; exact ⟨ho, hf⟩)
    rw [hset] at hclear
    cases hclear

theorem FrameInv.mem_congr (hI : FrameInv regions (fm, used))
    (hI' : FrameInv regions (fm, used')) : f ∈ used ↔ f ∈ used' := by
  rw [hI.mem_iff, hI'.mem_iff]

theorem Space.mapSinglePage_pde (hS : Space regions used m fm) (hv : pdIndex virt < 1023)
    (h : mapSinglePage phys virt flags m fm = (st, m', fm')) :
    (∀ d, entryPresent (m'.pde d)
        = (entryPresent (m.pde d) || (decide (st = .ok) && decide (d = pdIndex virt))))
      ∧ ∀ used', FrameInv regions (fm', used') → ∀ f ∈ used', f ∈ used
        ∨ (entryPresent (m.pde (pdIndex virt)) = false
          ∧ entryChild (m'.pde (pdIndex virt)) = some f) := by
  have hdir := hS.wellFormed.live m.cr3 (.inl rfl)
  rcases mapSinglePage_cases hS.frames hdir h with ⟨hst, rfl, hI, -⟩
    | ⟨rfl, -, hp, rfl, -, rfl⟩ | ⟨rfl, -, hp, g, pde, hg, ⟨hpde, -⟩, hI, rfl⟩
  · exact ⟨fun d => by simp [hst], fun used' hI' f hf => .inl ((hI'.mem_congr hI).1 hf)⟩
  · have hne : m.cr3 ≠ entryFrame (m.pde (pdIndex virt)) := fun heq =>
      hS.wellFormed.ne _ hv (by rw [show m.table m.cr3 (pdIndex virt) = m.pde (pdIndex virt) from
        rfl, entryChild_of_present hp, ← heq])
    refine ⟨fun d => ?_, fun used' hI' f hf => .inl ((hI'.mem_congr hS.frames).1 hf)⟩
    rw [pde_write_of_ne hne]
    by_cases hd : d = pdIndex virt
    · simp [hd, hp]
    · simp [hd]
  · have hne : m.cr3 ≠ g := fun heq => hg (heq ▸ hdir)
    refine ⟨fun d => ?_, fun used' hI' f hf => ?_⟩
    · rw [pde_install hne]
      by_cases hd : d = pdIndex virt
      · have hpres : entryPresent pde = true := by
          rw [← isSome_entryChild, hpde]
          rfl
        simp [hd, hpres]
      · simp [hd]
    · rw [pde_install hne, if_pos rfl]
      rcases mem_cons.1 ((hI'.mem_congr hI).1 hf) with rfl | hf
      · exact .inr ⟨hp, hpde⟩
      · exact .inl hf

theorem Mmu.pte_grow {d : ℕ} (hne : m.cr3 ≠ entryFrame e) (j : ℕ) :
    ((m.write m.cr3 d e).zeroFrame (entryFrame ((m.write m.cr3 d e).pde d))).pte d j = 0#32 := by
  unfold pte
  rw [pde_write_self, pde_grow hne, zeroFrame_self]

theorem Space.mapSinglePage_room (hS : Space regions used m fm) (hv : virt ≠ 0)
    (hal : virt % frameSize = 0) (hphys : phys % frameSize = 0)
    (hfree : m.lookup (pdIndex virt) (ptIndex virt) = none)
    (h : mapSinglePage phys virt flags m fm = (st, m', fm')) (k : ℕ) :
    fm.Room (k + if entryPresent (m.pde (pdIndex virt)) then 0 else 1) ↔ st = .ok ∧ fm'.Room k := by
  have habs : entryPresent 0#32 = false := by decide
  unfold mapSinglePage at h
  rw [if_neg (by simp [hv, hal, hphys])] at h
  rw [m.lookup_eq] at hfree
  rcases hp : entryPresent (m.pde (pdIndex virt))
  · simp only [hp, Bool.false_eq_true, if_false] at h ⊢
    by_cases h0 : fm.allocateFrame.1 = 0
    · rw [if_pos h0] at h
      cases h
      refine iff_of_false (fun hR => ?_) fun h => by simp at h
      exact (FrameManager.Room.allocateFrame hR).1 h0
    rw [if_neg h0, pte_grow, habs] at h
    · cases h
      refine ⟨fun hR => ⟨rfl, (FrameManager.Room.allocateFrame hR).2⟩, fun hR => ?_⟩
      exact .of_allocateFrame h0 hR.2
    · -- the frame of the new table was not in use, so it is not that of the directory
      rcases hS.frames.allocateFrame with ⟨hz, -⟩ | ⟨-, hl, ho, -⟩
      · exact absurd hz h0
      obtain ⟨-, hlt, hmod⟩ := ho.bounds
      rw [entryFrame_or hlt hmod (by split_ifs <;> decide)]
      exact fun heq => hl (heq ▸ hS.wellFormed.live m.cr3 (.inl rfl))
  · rw [hp, if_pos rfl] at hfree
    have hq : entryPresent (m.pte (pdIndex virt) (ptIndex virt)) = false := by simpa using hfree
    simp only [hp, hq, if_true, Bool.false_eq_true, if_false] at h ⊢
    cases h
    simp

end Page

def Mmu.NewTable (m m' : Mmu) (f : ℕ) : Prop :=
  ∃ d < 768, entryPresent (m.pde d) = false ∧ entryChild (m'.pde d) = some f

theorem Mmu.NewTable.evolves {touched : Set ℕ} {used used' : List ℕ} {m m' m'' : Mmu}
    (h : m.NewTable m' f) (he : m'.Evolves touched used m'' used') : m.NewTable m'' f := by
  obtain ⟨d, hd, habs, hf⟩ := h
  refine ⟨d, hd, habs, ?_⟩
  have hpde : m''.pde d = m'.pde d := by
    unfold pde
    rw [he.cr3]
    refine he.tables.entry d (.inr ?_)
    rw [show m'.table m'.cr3 d = m'.pde d from rfl, hf]
    rfl
  rw [hpde, hf]

/-- The frames it takes to map the first `i` pages at `start`: one for each page that has none, and
one for each table that is missing. -/
def Section.framesFor (scn : Section) (m : Mmu) (start i : ℕ) : ℕ :=
  ((Finset.range i).filter fun j => scn.physframes j = 0).card
    + (((Finset.range i).image fun j => pdIndex (start + j * frameSize)).filter
      fun d => entryPresent (m.pde d) = false).card

theorem Section.framesFor_succ (scn : Section) (m : Mmu) (start i : ℕ) :
    scn.framesFor m start (i + 1) = scn.framesFor m start i
      + (if scn.physframes i = 0 then 1 else 0)
      + if entryPresent (m.pde (pdIndex (start + i * frameSize))) = true
          ∨ pdIndex (start + i * frameSize)
            ∈ (Finset.range i).image fun j => pdIndex (start + j * frameSize) then 0 else 1 := by
  unfold framesFor
  rw [range_add_one, filter_insert, image_insert, filter_insert]
  set T := (Finset.range i).image fun j => pdIndex (start + j * frameSize) with hT
  set d := pdIndex (start + i * frameSize) with hd
  have hpages : (if scn.physframes i = 0 then
        insert i ((Finset.range i).filter fun j => scn.physframes j = 0)
      else (Finset.range i).filter fun j => scn.physframes j = 0).card
      = ((Finset.range i).filter fun j => scn.physframes j = 0).card
        + if scn.physframes i = 0 then 1 else 0 := by
    split_ifs
    · exact card_insert_of_notMem (by simp)
    · rfl
  have htables : (if entryPresent (m.pde d) = false then
        insert d (T.filter fun d => entryPresent (m.pde d) = false)
      else T.filter fun d => entryPresent (m.pde d) = false).card
      = (T.filter fun d => entryPresent (m.pde d) = false).card
        + if entryPresent (m.pde d) = true ∨ d ∈ T then 0 else 1 := by
    by_cases hp : entryPresent (m.pde d) = true
    · simp [hp]
    rw [Bool.not_eq_true] at hp
    by_cases hmem : d ∈ T
    · simp [hp, hmem]
    · simp [hp, hmem]
  rw [hpages, htables]
  omega

theorem Section.framesFor_mono (scn : Section) (m : Mmu) (start : ℕ) :
    Monotone (scn.framesFor m start) :=
  monotone_nat_of_le_succ fun i => by
    rw [scn.framesFor_succ]
    omega

/-- The loop of `MapSection` once the first `k` pages have frames and the first `i` of them are
mapped. -/
structure SectionWalk (regions : List MemoryRegion) (used : List ℕ) (v : Vm) (scn : Section)
    (start k i : ℕ) (used' : List ℕ) (x : SectionMap Vm) : Prop where
  space : Space regions used' x.mem.mmu x.mem.frames
  evolves : v.mmu.Evolves Set.univ used x.mem.mmu used'
  taken : ∀ f ∈ used', f ∈ used ∨ (∃ j < k, scn.physframes j = 0 ∧ x.scn.physframes j = f)
    ∨ v.mmu.NewTable x.mem.mmu f
  fresh : ∀ j < k, scn.physframes j = 0 → x.scn.physframes j ∈ used' ∧ x.scn.physframes j ∉ used
    ∧ ¬ Holds entryChild tableSlots x.mem.mmu.table x.mem.mmu.cr3 (x.scn.physframes j)
  inj : ∀ j < k, ∀ l < k, scn.physframes j = 0 → scn.physframes l = 0 →
    x.scn.physframes j = x.scn.physframes l → j = l
  kept : ∀ j, k ≤ j ∨ scn.physframes j ≠ 0 → x.scn.physframes j = scn.physframes j
  look : ∀ a < 1023, ∀ b, (∀ j < i, a = pdIndex (start + j * frameSize) →
    b ≠ ptIndex (start + j * frameSize)) → x.mem.mmu.lookup a b = v.mmu.lookup a b
  frames : x.framesAllocated = ((Finset.range k).filter fun j => scn.physframes j = 0).card
  pages : x.pagesMapped = i
  other : x.scn = { scn with physframes := x.scn.physframes }

/-- What the first `i` pages have cost. -/
structure SectionPaid (v : Vm) (scn : Section) (start i : ℕ) (x : SectionMap Vm) : Prop where
  room : ∀ n, x.mem.frames.Room n ↔ v.frames.Room (n + scn.framesFor v.mmu start i)
  tables : ∀ d, entryPresent (x.mem.mmu.pde d) = (entryPresent (v.mmu.pde d)
    || decide (d ∈ (Finset.range i).image fun j => pdIndex (start + j * frameSize)))

namespace SectionWalk

variable {regions : List MemoryRegion} {used used' : List ℕ} {v : Vm} {scn : Section}
  {start n k i : ℕ} {x y : SectionMap Vm} {debug : Bool}

theorem refl (hS : Space regions used v.mmu v.frames) :
    SectionWalk regions used v scn start 0 0 used ⟨scn, v, 0, 0⟩ where
  space := hS
  evolves := .refl
  taken f hf := .inl hf
  fresh j hj := by omega
  inj j hj := by omega
  kept j _ := rfl
  look a _ b _ := rfl
  frames := by simp
  pages := rfl
  other := rfl

theorem aligned (h : SectionWalk regions used v scn start k i used' x)
    (hscn : ∀ j, scn.physframes j % frameSize = 0) (j : ℕ) :
    x.scn.physframes j % frameSize = 0 := by
  by_cases hj : j < k ∧ scn.physframes j = 0
  · exact (h.space.frames.live _ (h.fresh j hj.1 hj.2).1).bounds.2.2
  · rw [h.kept j (by omega)]
    exact hscn j

theorem free (h : SectionWalk regions used v scn start k i used' x)
    (hR : UserPagesFree v.mmu.isVirtualPageMapped n start) (hi : i < n) :
    x.mem.mmu.lookup (pdIndex (start + i * frameSize)) (ptIndex (start + i * frameSize))
      = none := by
  obtain ⟨-, -, hd⟩ := hR.index hi
  rw [h.look _ (by omega) _ fun j hj hd ht => ?_]
  · have hun := hR.unmapped i hi
    rw [isVirtualPageMapped_eq, translate_cr3] at hun
    simpa using hun
  · have := hR.index_inj hi (by omega) hd ht
    omega

section

variable (h : SectionWalk regions used v scn start i i used' x)

include h

theorem skipFrame
    (h0 : scn.physframes i ≠ 0) : SectionWalk regions used v scn start (i + 1) i used' x := by
  have hlt : ∀ j < i + 1, scn.physframes j = 0 → j < i := fun j hj hz => by
    rcases Nat.lt_succ_iff_lt_or_eq.1 hj with hj | rfl
    · exact hj
    · exact absurd hz h0
  refine { h with
    taken := fun f hf => ?_
    fresh := fun j hj hz => h.fresh j (hlt j hj hz) hz
    inj := fun j hj l hl hz hz' => h.inj j (hlt j hj hz) l (hlt l hl hz') hz hz'
    kept := fun j hj => h.kept j (by omega)
    frames := ?_ }
  · rcases h.taken f hf with hf | ⟨j, hj, hz⟩ | hf
    · exact .inl hf
    · exact .inr (.inl ⟨j, by omega, hz⟩)
    · exact .inr (.inr hf)
  · rw [h.frames, range_add_one, filter_insert, if_neg h0]

theorem noFrame (hz : x.mem.frames.allocateFrame.1 = 0) (h0 : scn.physframes i = 0) :
    SectionWalk regions used v scn start i i used'
      { x with
        scn := x.scn.setFrame i 0
        mem := { x.mem with frames := x.mem.frames.allocateFrame.2 } } := by
  have hsame : x.scn.setFrame i 0 = x.scn := by
    unfold Section.setFrame
    rw [← h0, ← h.kept i (.inl le_rfl), update_eq_self]
  rw [hsame]
  rcases h.space.frames.allocateFrame with ⟨-, hI⟩ | ⟨hne, -⟩
  · exact { h with space := h.space.reframe hI }
  · exact absurd hz hne

theorem takeFrame (hne : x.mem.frames.allocateFrame.1 ≠ 0) (h0 : scn.physframes i = 0) :
    SectionWalk regions used v scn start (i + 1) i (x.mem.frames.allocateFrame.1 :: used')
      ⟨x.scn.setFrame i x.mem.frames.allocateFrame.1,
        { x.mem with frames := x.mem.frames.allocateFrame.2 }, x.framesAllocated + 1,
        x.pagesMapped⟩ := by
  rcases h.space.frames.allocateFrame with ⟨hz, -⟩ | ⟨-, hnew, -, hI⟩
  · exact absurd hz hne
  set f := x.mem.frames.allocateFrame.1
  have hself := x.scn.setFrame_self i f
  have hlt : ∀ j < i, (x.scn.setFrame i f).physframes j = x.scn.physframes j :=
    fun j hj => x.scn.setFrame_of_ne (by omega) f
  refine
    { space := h.space.allocated hI
      evolves := h.evolves.trans (.more (subset_cons_self ..))
      taken := fun g hg => ?_
      fresh := fun j hj hz => ?_
      inj := fun j hj l hl hz hz' heq => ?_
      kept := fun j hj => ?_
      look := h.look
      frames := ?_
      pages := h.pages
      other := ?_ }
  · rcases mem_cons.1 hg with rfl | hg
    · exact .inr (.inl ⟨i, by omega, h0, hself⟩)
    · rcases h.taken g hg with hg | ⟨j, hj, hz, hf⟩ | hg
      · exact .inl hg
      · exact .inr (.inl ⟨j, by omega, hz, (hlt j hj).trans hf⟩)
      · exact .inr (.inr hg)
  · rcases Nat.lt_succ_iff_lt_or_eq.1 hj with hj | rfl
    · obtain ⟨h1, h2, h3⟩ := h.fresh j hj hz
      simp only [hlt j hj]
      exact ⟨mem_cons_of_mem _ h1, h2, h3⟩
    · simp only [hself]
      exact ⟨mem_cons_self .., fun hf => hnew (h.evolves.tables.sub hf),
        fun hh => hnew (h.space.wellFormed.live f hh)⟩
  · -- the new frame differs from all those taken before
    have hdiff : ∀ j < i, scn.physframes j = 0 → x.scn.physframes j ≠ f :=
      fun j hj hz heq => hnew (heq ▸ (h.fresh j hj hz).1)
    rcases Nat.lt_succ_iff_lt_or_eq.1 hj with hj | rfl <;>
      rcases Nat.lt_succ_iff_lt_or_eq.1 hl with hl | rfl
    · simp only [hlt j hj, hlt l hl] at heq
      exact h.inj j hj l hl hz hz' heq
    · simp only [hlt j hj, hself] at heq
      exact absurd heq (hdiff j hj hz)
    · simp only [hlt l hl, hself] at heq
      exact absurd heq.symm (hdiff l hl hz')
    · rfl
  · have hji : j ≠ i := by
      rintro rfl
      omega
    exact (x.scn.setFrame_of_ne hji f).trans (h.kept j (by omega))
  · rw [h.frames, range_add_one, filter_insert, if_pos h0, card_insert_of_notMem (by simp)]
  · simp only [Section.setFrame]
    rw [h.other]

end

theorem evolve {used'' : List ℕ} (h : SectionWalk regions used v scn start k i used' x) (mem : Vm)
    (i' : ℕ) (hS : Space regions used'' mem.mmu mem.frames)
    (he : x.mem.mmu.Evolves Set.univ used' mem.mmu used'')
    (htaken : ∀ f ∈ used'', f ∈ used' ∨ v.mmu.NewTable mem.mmu f)
    (hlook : ∀ a < 1023, ∀ b, (∀ j < i', a = pdIndex (start + j * frameSize) →
      b ≠ ptIndex (start + j * frameSize)) → mem.mmu.lookup a b = v.mmu.lookup a b) :
    SectionWalk regions used v scn start k i' used'' ⟨x.scn, mem, x.framesAllocated, i'⟩ := by
  refine { h with
    space := hS
    evolves := h.evolves.trans he
    taken := fun f hf => ?_
    fresh := fun j hj hz => ?_
    look := hlook
    pages := rfl }
  · rcases htaken f hf with hf | hf
    · rcases h.taken f hf with hf | hf | hf
      · exact .inl hf
      · exact .inr (.inl hf)
      · exact .inr (.inr (hf.evolves he))
    · exact .inr (.inr hf)
  · obtain ⟨h1, h2, h3⟩ := h.fresh j hj hz
    refine ⟨he.tables.sub h1, h2, ?_⟩
    rw [he.cr3]
    exact (he.tables.keep _ h1 h3).1

theorem mapPage (h : SectionWalk regions used v scn start (i + 1) i used' x)
    (hR : UserPagesFree v.mmu.isVirtualPageMapped n start) (hi : i < n) {phys : ℕ}
    {flags : BitVec 32} {st : Status} {fm : FrameManager}
    (hm : mapSinglePage phys (start + i * frameSize) flags x.mem.mmu x.mem.frames
      = (st, mmu, fm)) :
    ∃ used'', (st = .ok → SectionWalk regions used v scn start (i + 1) (i + 1) used''
        ⟨x.scn, { x.mem with mmu, frames := fm }, x.framesAllocated, x.pagesMapped + 1⟩)
      ∧ (st ≠ .ok → SectionWalk regions used v scn start (i + 1) i used''
        { x with mem := { x.mem with mmu, frames := fm } }) := by
  obtain ⟨-, -, hd⟩ := hR.index hi
  obtain ⟨used'', hS, he, -, hok, hno⟩ := mapSinglePage_spec h.space (by omega) hm
  obtain ⟨-, htaken⟩ := h.space.mapSinglePage_pde (by omega) hm
  have hnew : ∀ f ∈ used'', f ∈ used' ∨ v.mmu.NewTable mmu f := by
    intro f hf
    rcases htaken used'' hS.frames f hf with hf | ⟨habs, hf⟩
    · exact .inl hf
    refine .inr ⟨_, hd, ?_, hf⟩
    -- a table that was there is still there
    by_contra hp
    rw [Bool.not_eq_false] at hp
    have hpde : x.mem.mmu.pde (pdIndex (start + i * frameSize))
        = v.mmu.pde (pdIndex (start + i * frameSize)) := by
      unfold pde
      rw [h.evolves.cr3]
      refine h.evolves.tables.entry _ (.inr ?_)
      rw [isSome_entryChild]
      exact hp
    rw [hpde, hp] at habs
    cases habs
  rw [h.pages]
  have hwalk i' := h.evolve { x.mem with mmu, frames := fm } i' hS
    (he.weaken fun _ _ _ => trivial) hnew
  refine ⟨used'', fun hst => hwalk _ fun a ha b hab => ?_, fun hst => hwalk _ fun a ha b hab => ?_⟩
  · have hne : ¬ (a = pdIndex (start + i * frameSize) ∧ b = ptIndex (start + i * frameSize)) :=
      fun heq => hab i (by omega) heq.1 heq.2
    simp only [(hok hst).2 a ha b, if_neg hne]
    exact h.look a ha b fun j hj => hab j (by omega)
  · simp only [show mmu = x.mem.mmu from hno hst]
    exact h.look a ha b hab

theorem zeroPage (debug : Bool) (h : SectionWalk regions used v scn start k i used' x) (hj : j < k)
    (h0 : scn.physframes j = 0) {addr : ℕ}
    (hl : x.mem.mmu.lookup (pdIndex addr) (ptIndex addr) = some e)
    (he : entryFrame e = x.scn.physframes j) :
    ∃ mem, (paging debug).zeroPage addr x.mem = some mem
      ∧ SectionWalk regions used v scn start k i used' { x with mem := mem }
      ∧ mem.frames = x.mem.frames ∧ ∀ d, mem.mmu.pde d = x.mem.mmu.pde d := by
  obtain ⟨-, -, hhold⟩ := h.fresh j hj h0
  obtain ⟨hS, hev, hlook⟩ := h.space.poke hhold fun _ => 0#32
  refine ⟨{ x.mem with mmu := x.mem.mmu.setFrame (x.scn.physframes j) fun _ => 0#32 }, ?_, ?_,
    rfl, fun d => ?_⟩
  · simp only [paging, Vm.zeroPage, Mmu.zeroPage, translate_cr3, hl, map_some, he]
    rfl
  · rw [h.pages]
    exact h.evolve _ _ hS (hev.weaken fun _ _ _ => trivial) (fun f hf => .inl hf)
      fun a ha b hab => (hlook a ha b).trans (h.look a ha b hab)
  · have hne : x.mem.mmu.cr3 ≠ x.scn.physframes j := fun heq => hhold (.inl heq.symm)
    have hrow : update x.mem.mmu.table (x.scn.physframes j) (fun _ => 0#32)
        x.mem.mmu.cr3 = x.mem.mmu.table x.mem.mmu.cr3 := update_of_ne hne _ _
    exact congrFun hrow d

end SectionWalk

theorem SectionPaid.page {regions : List MemoryRegion} {used used' : List ℕ} {v : Vm}
    {scn : Section} {n : ℕ} {x : SectionMap Vm}
    (h : SectionWalk regions used v scn start (i + 1) i used' x)
    (hR : UserPagesFree v.mmu.isVirtualPageMapped n start) (hi : i < n)
    (hroom : ∀ n, x.mem.frames.Room n ↔ v.frames.Room
      (n + (scn.framesFor v.mmu start i + if scn.physframes i = 0 then 1 else 0)))
    (htables : ∀ d, entryPresent (x.mem.mmu.pde d) = (entryPresent (v.mmu.pde d)
      || decide (d ∈ (Finset.range i).image fun j => pdIndex (start + j * frameSize)))) {phys : ℕ}
    (hphys : phys % frameSize = 0) {flags : BitVec 32} {st : Status} {fm : FrameManager}
    (hm : mapSinglePage phys (start + i * frameSize) flags x.mem.mmu x.mem.frames
      = (st, mmu, fm)) :
    (st = .ok → SectionPaid v scn start (i + 1)
        ⟨x.scn, { x.mem with mmu, frames := fm }, x.framesAllocated, x.pagesMapped + 1⟩)
      ∧ (st ≠ .ok → ¬ v.frames.Room (scn.framesFor v.mmu start (i + 1))) := by
  obtain ⟨hne, hal, hd⟩ := hR.index hi
  have hpage := h.space.mapSinglePage_room hne hal hphys (h.free hR hi) hm
  obtain ⟨hpde, -⟩ := h.space.mapSinglePage_pde (by omega) hm
  have hcost : ∀ n, v.frames.Room (n + scn.framesFor v.mmu start (i + 1))
      ↔ st = .ok ∧ fm.Room n := by
    intro n
    rw [← hpage n, hroom, scn.framesFor_succ, htables]
    refine iff_of_eq (congrArg v.frames.Room ?_)
    simp only [Bool.or_eq_true, decide_eq_true_eq]
    omega
  refine ⟨fun hst => ⟨fun n => ?_, fun d => ?_⟩, fun hst hR => ?_⟩
  · rw [hcost]
    exact ⟨fun h => ⟨hst, h⟩, And.right⟩
  · rw [hpde, htables, hst, range_add_one, image_insert]
    by_cases hdi : d = pdIndex (start + i * frameSize)
    · simp [hdi]
    · simp [hdi]
  · rw [← Nat.zero_add (scn.framesFor _ _ _), hcost] at hR
    exact hst hR.1

theorem Section.mapRound_backed {x : SectionMap σ} (h0 : 0 < x.scn.physframes i) :
    Section.mapRound P start i x =
      if (P.mapSinglePage (x.scn.physframes i) (start + i * frameSize) x.scn.flags x.mem).1 = .ok
      then some (true, { x with
        mem := (P.mapSinglePage (x.scn.physframes i) (start + i * frameSize) x.scn.flags x.mem).2
        pagesMapped := x.pagesMapped + 1 })
      else some (false, { x with
        mem := (P.mapSinglePage (x.scn.physframes i) (start + i * frameSize) x.scn.flags
          x.mem).2 }) := by
  unfold Section.mapRound
  simp only [if_pos h0]
  rcases P.mapSinglePage (x.scn.physframes i) (start + i * frameSize) x.scn.flags x.mem with
    ⟨st, mem⟩
  cases st <;> rfl

theorem Section.mapRound_noFrame {x : SectionMap σ} (h0 : x.scn.physframes i = 0)
    (hz : (P.allocateFrame x.mem).1 = 0) :
    Section.mapRound P start i x = some (false,
      { x with scn := x.scn.setFrame i 0, mem := (P.allocateFrame x.mem).2 }) := by
  simp only [Section.mapRound, h0, hz, lt_irrefl, if_false, if_true]

theorem Section.mapRound_takeFrame {x : SectionMap σ} (h0 : x.scn.physframes i = 0) {phys : ℕ}
    {mem : σ} (hf : P.allocateFrame x.mem = (phys, mem)) (hz : phys ≠ 0) :
    Section.mapRound P start i x =
      if (P.mapSinglePage phys (start + i * frameSize) (x.scn.setFrame i phys).flags mem).1 = .ok
      then (P.zeroPage (start + i * frameSize) (P.mapSinglePage phys (start + i * frameSize)
          (x.scn.setFrame i phys).flags mem).2).map fun mem =>
        (true, ⟨x.scn.setFrame i phys, mem, x.framesAllocated + 1, x.pagesMapped + 1⟩)
      else some (false, ⟨x.scn.setFrame i phys, (P.mapSinglePage phys (start + i * frameSize)
        (x.scn.setFrame i phys).flags mem).2, x.framesAllocated + 1, x.pagesMapped⟩) := by
  simp only [Section.mapRound, h0, hf, lt_irrefl, if_false, if_neg hz]
  rcases P.mapSinglePage phys (start + i * frameSize) (x.scn.setFrame i phys).flags mem with
    ⟨st, mem'⟩
  cases st <;> rfl

section Rounds

variable {regions : List MemoryRegion} {used used' : List ℕ} {v : Vm} {scn : Section}
  {start n i : ℕ} {x : SectionMap Vm}

theorem SectionWalk.mapRound (debug : Bool)
    (h : SectionWalk regions used v scn start i i used' x) (hp : SectionPaid v scn start i x)
    (hR : UserPagesFree v.mmu.isVirtualPageMapped n start) (hi : i < n)
    (hscn : ∀ j, scn.physframes j % frameSize = 0) :
    ∃ ok y, Section.mapRound (paging debug) start i x = some (ok, y)
      ∧ (ok = true → SectionPaid v scn start (i + 1) y
        ∧ ∃ used'', SectionWalk regions used v scn start (i + 1) (i + 1) used'' y)
      ∧ (ok = false → ¬ v.frames.Room (scn.framesFor v.mmu start (i + 1))
        ∧ ∃ used'', ∃ k ≤ n, SectionWalk regions used v scn start k i used'' y) := by
  by_cases h0 : scn.physframes i = 0
  · have hx0 : x.scn.physframes i = 0 := (h.kept i (.inl le_rfl)).trans h0
    by_cases hz : x.mem.frames.allocateFrame.1 = 0
    · refine ⟨false, _, mapRound_noFrame hx0 hz, by simp,
        fun _ => ⟨fun hroom => ?_, used', i, hi.le, h.noFrame hz h0⟩⟩
      rw [scn.framesFor_succ, if_pos h0] at hroom
      exact allocateFrame_eq_zero.1 hz ((hp.room 1).2 (hroom.mono (by omega)))
    have h' := h.takeFrame hz h0
    obtain ⟨st, mmu, fm, hm⟩ : ∃ st mmu fm, mapSinglePage x.mem.frames.allocateFrame.1
        (start + i * frameSize) (x.scn.setFrame i x.mem.frames.allocateFrame.1).flags x.mem.mmu
        x.mem.frames.allocateFrame.2 = (st, mmu, fm) := ⟨_, _, _, rfl⟩
    obtain ⟨used'', hok, hno⟩ := h'.mapPage hR hi hm
    obtain ⟨-, hlt, hal⟩ := (h'.space.frames.live _ (mem_cons_self ..)).bounds
    have hroom : ∀ n, x.mem.frames.allocateFrame.2.Room n ↔ v.frames.Room
        (n + (scn.framesFor v.mmu start i + if scn.physframes i = 0 then 1 else 0)) := by
      intro n
      rw [if_pos h0, show n + (scn.framesFor v.mmu start i + 1)
        = n + 1 + scn.framesFor v.mmu start i by omega, ← hp.room]
      exact ⟨fun hr => .of_allocateFrame hz hr, fun hr => hr.allocateFrame.2⟩
    obtain ⟨hpok, hpno⟩ := SectionPaid.page h' hR hi hroom hp.tables hal hm
    rw [mapRound_takeFrame hx0 (P := paging debug) rfl hz]
    simp only [paging, hm]
    by_cases hst : st = .ok
    · rw [if_pos hst]
      obtain ⟨-, -, hd⟩ := hR.index hi
      obtain ⟨-, -, -, -, hlook, -⟩ := mapSinglePage_spec h'.space (by omega) hm
      have hentry := (hlook hst).2 (pdIndex (start + i * frameSize)) (by omega)
        (ptIndex (start + i * frameSize))
      rw [if_pos ⟨rfl, rfl⟩, if_pos (entryPresent_or _ (flags_present _))] at hentry
      obtain ⟨mem, hmem, hwalk, hframes, hpde⟩ := (hok hst).zeroPage debug
        (Nat.lt_succ_self i) h0 hentry
        ((entryFrame_or hlt hal (flags_low _)).trans (x.scn.setFrame_self i _).symm)
      refine ⟨true, _, congrArg (Option.map _) hmem, fun _ => ⟨⟨?_, ?_⟩, used'', hwalk⟩, by simp⟩
      · rw [hframes]
        exact (hpok hst).room
      · simp only [hpde]
        exact (hpok hst).tables
    · rw [if_neg hst]
      exact ⟨false, _, rfl, by simp, fun _ => ⟨hpno hst, used'', i + 1, by omega, hno hst⟩⟩
  · have hx0 : 0 < x.scn.physframes i := by
      rw [h.kept i (.inl le_rfl)]
      omega
    have h' := h.skipFrame h0
    obtain ⟨st, mmu, fm, hm⟩ : ∃ st mmu fm, mapSinglePage (x.scn.physframes i)
        (start + i * frameSize) x.scn.flags x.mem.mmu x.mem.frames = (st, mmu, fm) := ⟨_, _, _, rfl⟩
    obtain ⟨used'', hok, hno⟩ := h'.mapPage hR hi hm
    obtain ⟨hpok, hpno⟩ := SectionPaid.page h' hR hi (fun n => by simpa [h0] using hp.room n)
      hp.tables (h.aligned hscn i) hm
    rw [mapRound_backed hx0]
    simp only [paging, hm]
    by_cases hst : st = .ok
    · rw [if_pos hst]
      exact ⟨true, _, rfl, fun _ => ⟨hpok hst, used'', hok hst⟩, by simp⟩
    · rw [if_neg hst]
      exact ⟨false, _, rfl, by simp, fun _ => ⟨hpno hst, used'', i + 1, by omega, hno hst⟩⟩

theorem SectionWalk.mapLoop (debug : Bool) (hR : UserPagesFree v.mmu.isVirtualPageMapped n start)
    (hscn : ∀ j, scn.physframes j % frameSize = 0) :
    ∀ (left i : ℕ) {used' : List ℕ} {x : SectionMap Vm}, i + left = n →
      SectionWalk regions used v scn start i i used' x → SectionPaid v scn start i x →
      ∃ ok y, Section.mapLoop (paging debug) start left i x = some (ok, y)
        ∧ (ok = true ↔ v.frames.Room (scn.framesFor v.mmu start n))
        ∧ ∃ used'', ∃ k ≤ n, ∃ i ≤ n, SectionWalk regions used v scn start k i used'' y
  | 0, i, used', x, hi, h, hp => by
    obtain rfl : i = n := by omega
    refine ⟨true, x, rfl, iff_of_true rfl ?_, used', i, le_rfl, i, le_rfl, h⟩
    simpa using (hp.room 0).1 (room_zero _)
  | left + 1, i, used', x, hi, h, hp => by
    obtain ⟨ok, y, hround, hok, hno⟩ := h.mapRound debug hp hR (by omega) hscn
    simp only [Section.mapLoop, hround, bind_some]
    cases ok with
    | true =>
      obtain ⟨hp', used'', h'⟩ := hok rfl
      exact SectionWalk.mapLoop debug hR hscn left (i + 1) (by omega) h' hp'
    | false =>
      obtain ⟨hroom, used'', k, hk, h'⟩ := hno rfl
      refine ⟨false, y, rfl, iff_of_false (by simp) fun hall => hroom (hall.mono ?_),
        used'', k, hk, i, by omega, h'⟩
      exact scn.framesFor_mono _ _ (by omega)

end Rounds

section Rollback

variable {regions : List MemoryRegion} {used used' : List ℕ} {v w : Vm} {scn : Section}
  {start n k i : ℕ} {x : SectionMap Vm} {debug : Bool}

theorem freeFrame_aligned (debug : Bool) (v : Vm) (hf : f % frameSize = 0) :
    ∃ w, (paging debug).freeFrame f v = some w := by
  have hfree : ∃ fm, v.frames.freeFrame debug f = some fm := by
    unfold FrameManager.freeFrame
    simp only [hf, ne_eq, not_true_eq_false, and_false, if_false]
    split_ifs <;> exact ⟨_, rfl⟩
  obtain ⟨fm, hfm⟩ := hfree
  exact ⟨{ v with frames := fm }, by simp [paging, hfm]⟩

theorem unmapSinglePage_aligned (debug : Bool) (v : Vm) {a : ℕ} (ha : a % frameSize = 0) :
    ∃ w, (paging debug).unmapSinglePage a v = some w := by
  have hunmap : ∃ mmu, v.mmu.unmapSinglePage debug a = some mmu := by
    unfold Mmu.unmapSinglePage
    simp only [ha, ne_eq, not_true_eq_false, and_false, if_false]
    split_ifs <;> exact ⟨_, rfl⟩
  obtain ⟨mmu, hmmu⟩ := hunmap
  exact ⟨{ v with mmu }, by simp [paging, hmmu]⟩

theorem SectionWalk.mapFail (debug : Bool) (h : SectionWalk regions used v scn start k i used' x)
    (hal : start % frameSize = 0) (hscn : ∀ j, scn.physframes j % frameSize = 0) :
    ∃ scn' w, Section.mapFail (paging debug) start x = some (scn', w)
      ∧ (1 < scn.refcnt → scn'.refcnt ≠ scn.refcnt)
      ∧ (scn.refcnt ≤ 1 → scn'.physframes = (fun _ => 0) ∧ scn'.refcnt = scn.refcnt
        ∧ scn'.vmbase = scn.vmbase) := by
  have hcnt : x.scn.refcnt = scn.refcnt := by rw [h.other]
  have hbase : x.scn.vmbase = scn.vmbase := by rw [h.other]
  unfold Section.mapFail
  by_cases hmany : 1 < scn.refcnt
  · rw [if_pos (hcnt ▸ hmany)]
    refine ⟨_, _, rfl, fun _ => ?_, fun hle => by omega⟩
    simp only [hcnt]
    omega
  rw [if_neg (hcnt ▸ hmany)]
  obtain ⟨w1, hw1, -⟩ := Loop.times_total (I := fun _ _ => True)
    (f := fun j mem => (paging debug).freeFrame (x.scn.physframes j) mem) x.framesAllocated
    (s := x.mem) (fun j _ w _ => by
      obtain ⟨w', hw'⟩ := freeFrame_aligned debug w (h.aligned hscn j)
      exact ⟨w', hw', trivial⟩) trivial
  obtain ⟨w2, hw2, -⟩ := Loop.times_total (I := fun _ _ => True)
    (f := fun j mem => (paging debug).unmapSinglePage (start + j * frameSize) mem)
    x.pagesMapped (s := w1) (fun j _ w _ => by
      have hpage : (start + j * frameSize) % frameSize = 0 := by simpa using hal
      obtain ⟨w', hw'⟩ := unmapSinglePage_aligned debug w hpage
      exact ⟨w', hw', trivial⟩) trivial
  refine ⟨{ x.scn with physframes := fun _ => 0 }, w2, by simp [hw1, hw2], fun h => by omega,
    fun _ => ⟨rfl, hcnt, hbase⟩⟩

theorem times_freeFrame {g : ℕ → ℕ} (hI : FrameInv regions (v.frames, used'))
    (hmem : ∀ j < n, g j ∈ used') (hinj : ∀ j < n, ∀ l < n, g j = g l → j = l)
    (heq : Loop.times (fun j mem => (paging debug).freeFrame (g j) mem) n v = some w) :
    w.mmu = v.mmu ∧ ∃ used'', FrameInv regions (w.frames, used'')
      ∧ ∀ f, f ∈ used'' ↔ f ∈ used' ∧ ∀ j < n, f ≠ g j := by
  refine Loop.times_invariant (I := fun m w => w.mmu = v.mmu ∧ ∃ used'',
    FrameInv regions (w.frames, used'') ∧ ∀ f, f ∈ used'' ↔ f ∈ used' ∧ ∀ j < m, f ≠ g j) n
    ?_ ⟨rfl, used', hI, fun f => by simp⟩ heq
  rintro m hm u u' ⟨hmmu, used'', hI, hiff⟩ hu
  have hgm : g m ∈ used'' := (hiff _).2
    ⟨hmem m hm, fun j hj heq => by have := hinj m hm j (by omega) heq; omega⟩
  obtain ⟨hfree, hI'⟩ := hI.freeFrame debug hgm
  obtain ⟨fm, hfm, rfl⟩ := map_eq_some_iff.1 hu
  rw [hfree] at hfm
  cases hfm
  refine ⟨hmmu, _, hI', fun f => ?_⟩
  rw [hI.nodup.mem_erase_iff, hiff]
  constructor
  · rintro ⟨hne, hf, hall⟩
    refine ⟨hf, fun j hj => ?_⟩
    rcases Nat.lt_succ_iff_lt_or_eq.1 hj with hj | rfl
    · exact hall j hj
    · exact hne
  · rintro ⟨hf, hall⟩
    exact ⟨hall m (by omega), hf, fun j hj => hall j (by omega)⟩

theorem times_unmapPage (hS : Space regions used v.mmu v.frames)
    (hd : ∀ j < n, pdIndex (start + j * frameSize) < 1023)
    (heq : Loop.times (fun j mem => (paging debug).unmapSinglePage (start + j * frameSize) mem)
      n v = some w) :
    w.frames = v.frames ∧ v.mmu.Evolves ∅ used w.mmu used
      ∧ ∀ a < 1023, ∀ b, w.mmu.lookup a b = if ∃ j < n, a = pdIndex (start + j * frameSize)
        ∧ b = ptIndex (start + j * frameSize) then none else v.mmu.lookup a b := by
  have hend := Loop.times_invariant (I := fun m w => Space regions used w.mmu w.frames
    ∧ w.frames = v.frames ∧ v.mmu.Evolves ∅ used w.mmu used
    ∧ ∀ a < 1023, ∀ b, w.mmu.lookup a b = if ∃ j < m, a = pdIndex (start + j * frameSize)
      ∧ b = ptIndex (start + j * frameSize) then none else v.mmu.lookup a b) n
    ?_ ⟨hS, rfl, .refl, fun a _ b => by simp⟩ heq
  · exact hend.2
  rintro m hm u u' ⟨hS, hframes, he, hlook⟩ hu
  obtain ⟨mmu, hmmu, rfl⟩ := map_eq_some_iff.1 hu
  obtain ⟨hS', he', hlook'⟩ := unmapSinglePage_spec hS (hd m hm) hmmu
  refine ⟨hS', hframes, he.trans he', fun a ha b => ?_⟩
  rw [hlook' a ha b, hlook a ha b]
  by_cases hpage : a = pdIndex (start + m * frameSize) ∧ b = ptIndex (start + m * frameSize)
  · rw [if_pos hpage, if_pos ⟨m, by omega, hpage⟩]
  rw [if_neg hpage]
  refine if_congr ⟨fun ⟨j, hj, h⟩ => ⟨j, by omega, h⟩, ?_⟩ rfl rfl
  rintro ⟨j, hj, h⟩
  rcases Nat.lt_succ_iff_lt_or_eq.1 hj with hj | rfl
  · exact ⟨j, hj, h⟩
  · exact absurd h hpage

end Rollback

/-- The section is as it was, and so are the pages and the frames, but for new tables of the user.
The last directory entry shows the tables and not pages. -/
structure NoEffect (scn : Section) (v : Vm) (scn' : Section) (v' : Vm) : Prop where
  physframes : ∀ i < scn.nPages, scn'.physframes i = scn.physframes i
  refcnt : scn'.refcnt = scn.refcnt
  vmbase : scn'.vmbase = scn.vmbase
  pages : ∀ addr, pdIndex addr < 1023 →
    v'.mmu.translate v'.mmu.cr3 addr = v.mmu.translate v.mmu.cr3 addr
  bitmap : ∀ n, Bitmap.testBit v'.frames.bitmap n = Bitmap.testBit v.frames.bitmap n
    ∨ v.mmu.NewTable v'.mmu (n * frameSize)

/-- The section has no frames, and no mapping that the rollback could give up. -/
def Section.Fresh (scn : Section) : Prop := scn.Unbacked ∧ scn.refcnt ≤ 1

def Section.freeRange (scn : Section) (m : Mmu) : ℕ :=
  findFreePageRange m.isVirtualPageMapped (4 * frameSize) kernelVMBase scn.nPages

section Failed

variable {regions : List MemoryRegion} {used used' : List ℕ} {v : Vm} {scn : Section}
  {start k i : ℕ} {x : SectionMap Vm} {debug : Bool}

theorem SectionWalk.mapFail_fresh (hS : Space regions used v.mmu v.frames)
    (h : SectionWalk regions used v scn start k i used' x)
    (hR : UserPagesFree v.mmu.isVirtualPageMapped scn.nPages start) (hk : k ≤ scn.nPages)
    (hi : i ≤ scn.nPages) (hfresh : scn.Fresh) {scn' : Section} {w : Vm}
    (heq : Section.mapFail (paging debug) start x = some (scn', w)) : NoEffect scn v scn' w := by
  obtain ⟨hun, hcnt⟩ := hfresh
  have hzero : ∀ j < k, scn.physframes j = 0 := fun j hj => hun j (by omega)
  have hframes : x.framesAllocated = k := by
    rw [h.frames, filter_true_of_mem fun j hj => hzero j (Finset.mem_range.1 hj), card_range]
  have hsame : x.scn.refcnt = scn.refcnt ∧ x.scn.vmbase = scn.vmbase := by
    rw [h.other]
    exact ⟨rfl, rfl⟩
  unfold Section.mapFail at heq
  rw [if_neg (by omega), hframes, h.pages] at heq
  obtain ⟨w1, hw1, heq⟩ := bind_eq_some_iff.1 heq
  obtain ⟨w2, hw2, heq⟩ := bind_eq_some_iff.1 heq
  cases heq
  obtain ⟨hmmu, used1, hI, hmem⟩ := times_freeFrame h.space.frames
    (fun j hj => (h.fresh j hj (hzero j hj)).1)
    (fun j hj l hl => h.inj j hj l hl (hzero j hj) (hzero l hl)) hw1
  have hS1 : Space regions used1 w1.mmu w1.frames := by
    refine ⟨hI, ?_, hmmu ▸ h.space.recursive, hmmu ▸ h.space.kernel⟩
    rw [hmmu]
    refine ⟨fun f hf => (hmem f).2 ⟨h.space.wellFormed.live f hf, ?_⟩, h.space.wellFormed.ne,
      h.space.wellFormed.inj⟩
    rintro j hj rfl
    exact (h.fresh j hj (hzero j hj)).2.2 hf
  have hd : ∀ j < i, pdIndex (start + j * frameSize) < 1023 := fun j hj => by
    have := (hR.index (show j < scn.nPages by omega)).2.2
    omega
  obtain ⟨hw₂f, he, hlook⟩ := times_unmapPage hS1 hd hw2
  rw [hmmu] at he hlook
  refine ⟨fun j hj => (hun j hj).symm, hsame.1, hsame.2, fun addr ha => ?_, fun n => ?_⟩
  · rw [translate_cr3, translate_cr3, hlook _ ha]
    split_ifs with hpage
    · obtain ⟨j, hj, h1, h2⟩ := hpage
      have hfree := hR.unmapped j (by omega)
      rw [isVirtualPageMapped_eq, translate_cr3, ← h1, ← h2] at hfree
      rw [isSome_eq_false_iff, isNone_iff_eq_none] at hfree
      exact hfree.symm
    · refine h.look _ ha _ fun j hj h1 h2 => hpage ⟨j, hj, h1, h2⟩
  · rw [hw₂f]
    by_cases hnew : n * frameSize ∈ used1 ∧ n * frameSize ∉ used
    · -- what is in use now and was not before is a table
      obtain ⟨hin, hall⟩ := (hmem _).1 hnew.1
      rcases h.taken _ hin with hold | ⟨j, hj, -, heq⟩ | htable
      · exact absurd hold hnew.2
      · exact absurd heq.symm (hall j hj)
      · exact .inr (htable.evolves he)
    · refine .inl (Bool.eq_iff_iff.2 (not_iff_not.1 ?_))
      rw [Bool.not_eq_true, Bool.not_eq_true, hI.clear, hS.frames.clear]
      refine and_congr_right fun _ => not_congr ⟨fun hin => ?_, fun hin => ?_⟩
      · by_contra hout
        exact hnew ⟨hin, hout⟩
      · refine (hmem _).2 ⟨h.evolves.tables.sub hin, fun j hj heq => ?_⟩
        exact (h.fresh j hj (hzero j hj)).2.1 (heq ▸ hin)

end Failed

/-- A call that fails has no effect exactly if the section is fresh, or there is no room for it at
all, or there are all the frames it takes. -/
theorem failed_map_no_effect_iff {regions : List MemoryRegion} {used : List ℕ} (debug : Bool)
    (scn : Section) (v : Vm) (hS : Space regions used v.mmu v.frames)
    (hscn : ∀ i, scn.physframes i % frameSize = 0) :
    (∀ scn' v', scn.mapSection (paging debug) v = some (0, scn', v') → NoEffect scn v scn' v')
      ↔ scn.Fresh ∨ scn.freeRange v.mmu = 0
        ∨ v.frames.Room (scn.framesFor v.mmu (scn.freeRange v.mmu) scn.nPages) := by
  obtain ⟨start, hstart⟩ : ∃ start, start = scn.freeRange v.mmu := ⟨_, rfl⟩
  have hcall : scn.mapSection (paging debug) v = if start = 0 then some (0, scn, v) else
      (Section.mapLoop (paging debug) start scn.nPages 0 ⟨scn, v, 0, 0⟩).bind fun r =>
        if r.1 then
          some (start, { r.2.scn with refcnt := r.2.scn.refcnt + 1, vmbase := start }, r.2.mem)
        else (Section.mapFail (paging debug) start r.2).map fun x => (0, x) := by
    rw [hstart]
    rfl
  rw [hcall, ← hstart]
  by_cases hz : start = 0
  · refine iff_of_true (fun scn' v' h => ?_) (.inr (.inl hz))
    rw [if_pos hz] at h
    cases h
    exact ⟨fun _ _ => rfl, rfl, rfl, fun _ _ => rfl, fun _ => .inl rfl⟩
  rw [if_neg hz]
  have hR : UserPagesFree v.mmu.isVirtualPageMapped scn.nPages start := by
    rw [hstart] at hz ⊢
    exact findFreePageRange_free hz
  obtain ⟨ok, y, hloop, hroom, used', k, hk, i, hi, hwalk⟩ := SectionWalk.mapLoop debug hR hscn
    scn.nPages 0 (by omega) (.refl hS) ⟨fun n => by simp [framesFor], fun d => by simp⟩
  rw [hloop, bind_some]
  cases ok with
  | true =>
    refine iff_of_true (fun scn' v' h => ?_) (.inr (.inr (hroom.1 rfl)))
    cases h
    exact absurd rfl hz
  | false =>
    obtain ⟨scn', w, hfail, hmany, hone⟩ := hwalk.mapFail debug hR.aligned hscn
    have hno : ¬ v.frames.Room (scn.framesFor v.mmu start scn.nPages) := fun h => by
      cases hroom.2 h
    simp only [hfail, Bool.false_eq_true, if_false, map_some, hz, hno, or_false]
    constructor
    · intro h
      have heff := h scn' w rfl
      have hcnt : scn.refcnt ≤ 1 := not_lt.1 fun hlt => hmany hlt heff.refcnt
      refine ⟨fun i hi => ?_, hcnt⟩
      rw [← heff.physframes i hi, (hone hcnt).1]
    · intro hfresh scn'' v'' heq
      cases heq
      exact hwalk.mapFail_fresh hS hR hk hi hfresh hfail

theorem Space.exhausted {regions : List MemoryRegion} {used : List ℕ} {m : Mmu}
    {fm : FrameManager} (hS : Space regions used m fm) :
    ∃ used' fm', Space regions used' m fm' ∧ fm'.allocateFrame.1 = 0 := by
  have hfull : ¬ fm.Room (bitmapWords * 32 + 1) := by
    rintro ⟨L, hnd, hlen, hL⟩
    have hsub : L ⊆ List.range (bitmapWords * 32) := fun k hk => List.mem_range.2 (hL k hk).2.1
    have hle := (List.subperm_of_subset hnd hsub).length_le
    rw [List.length_range] at hle
    omega
  generalize bitmapWords * 32 + 1 = n at hfull
  induction n generalizing used fm with
  | zero => exact absurd (room_zero fm) hfull
  | succ n ih =>
    rcases hS.frames.allocateFrame with ⟨h0, -⟩ | ⟨h0, -, -, hI⟩
    · exact ⟨used, fm, hS, h0⟩
    · exact ih (hS.allocated hI) fun h => hfull (.of_allocateFrame h0 h)

theorem Section.Fresh.mapSection_noFrame (debug : Bool) {scn : Section} {v : Vm}
    (hfresh : scn.Fresh) (hn : 0 < scn.nPages) (h0 : v.frames.allocateFrame.1 = 0) :
    ∃ scn' v', scn.mapSection (paging debug) v = some (0, scn', v') := by
  obtain ⟨n, hn'⟩ := Nat.exists_eq_succ_of_ne_zero hn.ne'
  have hround (start : ℕ) : mapRound (paging debug) start 0 ⟨scn, v, 0, 0⟩
      = some (false, ⟨scn.setFrame 0 0, { v with frames := v.frames.allocateFrame.2 }, 0, 0⟩) := by
    simp only [mapRound, paging, hfresh.1 0 hn, lt_irrefl, if_false, h0, if_true]
  unfold mapSection
  generalize findFreePageRange _ _ _ _ = start
  have hcnt : ¬ 1 < (scn.setFrame 0 0).refcnt := not_lt.2 hfresh.2
  simp only [hn', mapLoop, hround, bind_some, Bool.false_eq_true, if_false, mapFail, if_neg hcnt]
  split_ifs
  · exact ⟨_, _, rfl⟩
  · exact ⟨_, _, rfl⟩

/-- There is no frame for the first page of a section. -/
theorem failed_map_no_effect_new : ∃ (regions : List MemoryRegion) (used : List ℕ) (v : Vm)
    (scn scn' : Section) (v' : Vm), Space regions used v.mmu v.frames ∧ scn.Fresh
      ∧ scn.mapSection (paging true) v = some (0, scn', v') ∧ NoEffect scn v scn' v' := by
  obtain ⟨-, m, fm, used, -, -, hS, -⟩ := exists_boot false
  obtain ⟨used', fm', hS', h0⟩ := hS.exhausted
  have hfresh : Fresh ⟨2, 3, 0#32, 0, fun _ => 0, 0⟩ := ⟨fun _ _ => rfl, by decide⟩
  obtain ⟨scn', v', hcall⟩ := hfresh.mapSection_noFrame true (v := boot m fm') (by decide) h0
  exact ⟨bootRegions, used', boot m fm', _, scn', v', hS', hfresh, hcall,
    (failed_map_no_effect_iff true _ (boot m fm') hS' fun _ => rfl).2 (.inl hfresh) _ _ hcall⟩

def noFrames : Vm := .boot ⟨0x2000, fun _ _ => 0#32⟩ ⟨fun _ => BitVec.allOnes 32, 0xFFFFF000⟩

theorem noFrames_allocateFrame : noFrames.frames.allocateFrame.1 = 0 := by
  refine allocateFrame_eq_zero.2 ?_
  rintro ⟨L, -, hlen, hL⟩
  obtain ⟨k, hk⟩ := exists_mem_of_length_pos hlen
  obtain ⟨-, -, hclear⟩ := hL k hk
  have hmod : k % 32 < 32 := Nat.mod_lt _ (by decide)
  rw [show Bitmap.testBit noFrames.frames.bitmap k = (BitVec.allOnes 32).getLsbD (k % 32) from rfl,
    BitVec.getLsbD_allOnes, decide_eq_false_iff_not] at hclear
  exact hclear hmod

theorem Section.mapSection_noTable {v : Vm} {scn : Section} {debug : Bool}
    (hstart : findFreePageRange (fun addr => (paging debug).isVirtualPageMapped addr v)
      (4 * frameSize) kernelVMBase scn.nPages = start) (h0 : start ≠ 0)
    (hal : start % frameSize = 0) (hn : 0 < scn.nPages) (hb : 0 < scn.physframes 0)
    (hphys : scn.physframes 0 % frameSize = 0)
    (habsent : entryPresent (v.mmu.pde (pdIndex start)) = false)
    (hno : v.frames.allocateFrame.1 = 0) :
    ∃ mem, scn.mapSection (paging debug) v
      = (mapFail (paging debug) start ⟨scn, mem, 0, 0⟩).map fun x => (0, x) := by
  obtain ⟨n, hn⟩ := Nat.exists_eq_succ_of_ne_zero hn.ne'
  have hmap : mapSinglePage (scn.physframes 0) start scn.flags v.mmu v.frames
      = (.outOfMemory, v.mmu, v.frames.allocateFrame.2) := by
    unfold mapSinglePage
    rw [if_neg (by omega)]
    simp only [habsent, Bool.false_eq_true, if_false, if_pos hno]
  have hround : mapRound (paging debug) start 0 ⟨scn, v, 0, 0⟩
      = some (false, ⟨scn, { v with frames := v.frames.allocateFrame.2 }, 0, 0⟩) := by
    rw [mapRound_backed hb]
    simp only [paging, Nat.zero_mul, Nat.add_zero, hmap, reduceCtorEq, if_false]
  refine ⟨{ v with frames := v.frames.allocateFrame.2 }, ?_⟩
  unfold mapSection
  simp only [hstart, if_neg h0]
  simp only [hn, mapLoop, hround, bind_some, Bool.false_eq_true, if_false]

def mappedSection (refcnt : ℕ) : Section :=
  ⟨1, 1, sectionWriteable, 0x4000, fun i => if i = 0 then 0x100000 else 0, refcnt⟩

theorem mappedSection_mapSection (refcnt : ℕ) :
    ∃ mem, (mappedSection refcnt).mapSection (paging true) noFrames
      = (Section.mapFail (paging true) 0x4000 ⟨mappedSection refcnt, mem, 0, 0⟩).map
        fun x => (0, x) := by
  have hstart : findFreePageRange (fun addr => (paging true).isVirtualPageMapped addr noFrames)
      (4 * frameSize) kernelVMBase 1 = 0x4000 := by decide +kernel
  have hphys : (mappedSection refcnt).physframes 0 = 0x100000 := rfl
  exact mapSection_noTable hstart (by decide) (by decide) Nat.one_pos
    (by rw [hphys]; decide) (by rw [hphys]; decide) (by decide) noFrames_allocateFrame

/-- There is no frame for a table. The frame of a section that was mapped once is forgotten, and of
two mappings one is no longer counted. -/
theorem failed_map_forgets : ∃ (v : Vm) (scn scn₁ scn₂ : Section) (v₁ v₂ : Vm),
    { scn with refcnt := 1 }.mapSection (paging true) v = some (0, scn₁, v₁)
      ∧ scn.physframes 0 = 0x100000 ∧ scn₁.physframes 0 = 0
      ∧ { scn with refcnt := 2 }.mapSection (paging true) v = some (0, scn₂, v₂)
      ∧ scn₂.refcnt = 1 := by
  obtain ⟨mem₁, h₁⟩ := mappedSection_mapSection 1
  obtain ⟨mem₂, h₂⟩ := mappedSection_mapSection 2
  exact ⟨noFrames, mappedSection 1, _, _, _, _, h₁, rfl, rfl, h₂, rfl⟩

end DragonWare
