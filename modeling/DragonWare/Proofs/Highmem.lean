import DragonWare.Highmem
import DragonWare.Proofs.Regions

/-!
# Blocks of high memory are fresh pages of RAM

As long as the available regions end below 4 GiB, the pool is a run of pages of one of them
(`Pool`). A pool that reaches 4 GiB ends at the 32-bit address zero, and once it is used up or a
break is set, it stays empty (`Spent`).
-/

namespace DragonWare

open BitVec List

def Available (table : List MemoryRegionE820) (lo hi : ℕ) : Prop :=
  ∃ r ∈ table, r.available = true ∧ r.base.toNat ≤ lo ∧ hi ≤ r.base.toNat + r.length.toNat

instance (table : List MemoryRegionE820) (lo hi : ℕ) : Decidable (Available table lo hi) :=
  inferInstanceAs (Decidable (∃ r ∈ table, _))

theorem Available.mono {table : List MemoryRegionE820} {lo hi lo' hi' : ℕ}
    (h : Available table lo hi) (hlo : lo ≤ lo') (hhi : hi' ≤ hi) : Available table lo' hi' := by
  obtain ⟨r, hr, ha, h1, h2⟩ := h
  exact ⟨r, hr, ha, h1.trans hlo, hhi.trans h2⟩

/-- Every available region that starts at or above 1 MiB ends at or below 4 GiB, and none of them
starts inside the last page before 4 GiB. -/
def Below4GiB (table : List MemoryRegionE820) : Prop :=
  ∀ r ∈ table, r.available = true → 0x100000 ≤ r.base.toNat → r.length ≠ 0 →
    r.base.toNat ≤ 0xFFFFF000 ∧ r.base.toNat + r.length.toNat ≤ 2 ^ 32

instance (table : List MemoryRegionE820) : Decidable (Below4GiB table) :=
  inferInstanceAs (Decidable (∀ r ∈ table, _))

inductive HighCall
  | breakAt (start stop : BitVec 32)
  | allocate (nPages : BitVec 32)
  deriving DecidableEq, Repr

def HighCall.Aligned : HighCall → Prop
  | .breakAt start _ => start.toNat % frameSize = 0
  | .allocate _ => True

instance : DecidablePred HighCall.Aligned
  | .breakAt start _ => inferInstanceAs (Decidable (start.toNat % frameSize = 0))
  | .allocate _ => isTrue trivial

structure HighBlock where
  addr : BitVec 32
  nPages : BitVec 32
  deriving DecidableEq, Repr

def HighBlock.stop (b : HighBlock) : ℕ := b.addr.toNat + b.nPages.toNat * frameSize

/-- The pool, the blocks that were returned and the breaks that were set, the latest first. -/
structure HighRun where
  mem : HighMem
  blocks : List HighBlock
  breaks : List (BitVec 32)
  deriving DecidableEq, Repr

namespace HighRun

def call (r : HighRun) : HighCall → HighRun
  | .breakAt start stop =>
    { r with mem := allocHighBreakAt start stop r.mem, breaks := start :: r.breaks }
  | .allocate nPages =>
    let a := allocateHighMemory nPages r.mem
    { r with mem := a.2, blocks := if a.1 = 0 then r.blocks else ⟨a.1, nPages⟩ :: r.blocks }

def calls (table : List MemoryRegionE820) (cs : List HighCall) : HighRun :=
  cs.foldl call ⟨allocHighInit table .boot, [], []⟩

end HighRun

section Init

variable {table : List MemoryRegionE820} {r : MemoryRegionE820}

theorem mem_fetchMemoryRegions : r ∈ fetchMemoryRegions table ↔ r ∈ table :=
  (BubbleSort.sinkSort_perm _ _ table).mem_iff

/-- The best region so far is a run of pages of the table that ends at `stop`. -/
structure BestRegion.Good (table : List MemoryRegionE820) (b : BestRegion) (stop : ℕ) : Prop where
  aligned : b.start.toNat % frameSize = 0
  low : 0x100000 ≤ b.start.toNat
  lt : b.start.toNat < stop
  le : stop ≤ 2 ^ 32
  brk : b.brk.toNat = stop % 2 ^ 32
  ram : Available table b.start.toNat stop

theorem BestRegion.Good.consider (hT : Below4GiB table) {b : BestRegion} {stop : ℕ}
    (hb : b.Good table stop) (hr : r ∈ table) : ∃ stop', (b.consider r).Good table stop' := by
  unfold BestRegion.consider
  simp only []
  by_cases h1 : r.available = true
  swap
  · rw [if_pos (by simpa using h1)]
    exact ⟨stop, hb⟩
  rw [if_neg (by simpa using h1)]
  split_ifs with h2 h3 h4 h5
  · exact ⟨stop, hb⟩
  · exact ⟨stop, hb⟩
  · exact ⟨stop, hb⟩
  · have hlow : 0x100000 ≤ r.base.toNat := by
      simpa [highMemoryStart, lt_def] using h2
    obtain ⟨hbase, hend⟩ := hT r hr h1 hlow h3
    have hbase' : (r.base.setWidth 32).toNat = r.base.toNat := by
      rw [toNat_setWidth]
      omega
    have halign : (pageAlign (r.base.setWidth 32)).toNat
        = (r.base.toNat + 0xFFF) / frameSize * frameSize := by
      rw [pageAlign_toNat (by omega), hbase']
    have hstop : (r.base + r.length).toNat = r.base.toNat + r.length.toNat := by
      rw [toNat_add]
      omega
    have hlt : (pageAlign (r.base.setWidth 32)).toNat < r.base.toNat + r.length.toNat := by
      rw [le_def, hstop, toNat_setWidth] at h4
      omega
    refine ⟨r.base.toNat + r.length.toNat, pageAlign_aligned _, ?_, hlt, hend, ?_,
      r, hr, h1, ?_, le_rfl⟩
    · simp only [halign, frameSize]
      omega
    · rw [toNat_setWidth, hstop]
    · simp only [halign, frameSize]
      omega
  · exact ⟨stop, hb⟩

theorem BestRegion.Good.foldl (hT : Below4GiB table) :
    ∀ (rs : List MemoryRegionE820) {b : BestRegion} {stop : ℕ}, (∀ r ∈ rs, r ∈ table) →
      b.Good table stop → ∃ stop', (rs.foldl BestRegion.consider b).Good table stop'
  | [], _, stop, _, hb => ⟨stop, hb⟩
  | r :: rs, _, _, hrs, hb => by
    obtain ⟨stop', hb'⟩ := hb.consider hT (hrs r mem_cons_self)
    exact foldl hT rs (fun q hq => hrs q (mem_cons_of_mem _ hq)) hb'

end Init

theorem HighMem.pages_toNat (start brk : BitVec 32) :
    (HighMem.pages start brk).toNat = (brk - start).toNat / frameSize := by
  unfold HighMem.pages
  rw [toNat_udiv, alignDown_toNat]
  exact Nat.mul_div_cancel _ (by decide)

def HighMem.top (h : HighMem) : ℕ := h.start.toNat + h.nPages.toNat * frameSize

def Spent (h : HighMem) : Prop := h.brk = 0 ∧ h.nPages = 0

/-- The pool is a run of pages of RAM, above what was returned and set before. -/
structure Pool (table : List MemoryRegionE820) (r : HighRun) : Prop where
  aligned : r.mem.start.toNat % frameSize = 0
  low : 0x100000 ≤ r.mem.start.toNat
  ram : r.mem.nPages ≠ 0 → Available table r.mem.start.toNat r.mem.top ∧ r.mem.top ≤ 2 ^ 32
  top_le : r.mem.brk ≠ 0 → r.mem.nPages ≠ 0 → r.mem.top ≤ r.mem.brk.toNat
  rest : r.mem.start < r.mem.brk → Available table r.mem.start.toNat r.mem.brk.toNat
  blocks : ∀ b ∈ r.blocks, b.stop ≤ r.mem.start.toNat
  breaks : ∀ s ∈ r.breaks, s.toNat ≤ r.mem.start.toNat

section Calls

variable {table : List MemoryRegionE820} {r : HighRun} {h : HighMem} {nPages : BitVec 32}

theorem pool_init (hram : Available table 0x100000 0x200000) (hT : Below4GiB table) :
    Pool table ⟨allocHighInit table .boot, [], []⟩ := by
  have h0 : BestRegion.Good table
      ⟨HighMem.boot.start, HighMem.boot.brk, (HighMem.boot.brk - HighMem.boot.start).setWidth 64⟩
      0x200000 :=
    ⟨by decide, by decide, by decide, by decide, by decide, hram⟩
  obtain ⟨stop, hb⟩ := BestRegion.Good.foldl hT (fetchMemoryRegions table)
    (fun q hq => mem_fetchMemoryRegions.1 hq) h0
  unfold allocHighInit
  simp only []
  generalize (fetchMemoryRegions table).foldl _ _ = b at hb ⊢
  have hstart : ¬ b.start < highMemoryStart := by
    have := hb.low
    rw [lt_def, highMemoryStart, toNat_ofNat]
    omega
  rw [if_neg hstart]
  obtain ⟨haligned, hlow, hlt, hle, hbrk, hav⟩ := hb
  have htop : b.start.toNat + (HighMem.pages b.start b.brk).toNat * frameSize ≤ stop := by
    have hsub : (b.brk - b.start).toNat = stop - b.start.toNat := by
      rw [toNat_sub, hbrk]
      omega
    rw [HighMem.pages_toNat, hsub]
    have := Nat.div_mul_le_self (stop - b.start.toNat) frameSize
    omega
  refine ⟨haligned, hlow, fun _ => ⟨hav.mono le_rfl htop, htop.trans hle⟩, fun hne _ => ?_,
    fun _ => ?_, by simp, by simp⟩
  · have : b.brk.toNat ≠ 0 := fun h => hne (eq_of_toNat_eq h)
    simp only [HighMem.top]
    omega
  · exact hav.mono le_rfl (by simp only []; omega)

theorem Pool.breakAt (hP : Pool table r) {start stop : BitVec 32}
    (hs : start.toNat % frameSize = 0) : Pool table (r.call (.breakAt start stop)) := by
  obtain ⟨start', hstart'⟩ : ∃ x, x = if r.mem.start < start then start else r.mem.start := ⟨_, rfl⟩
  obtain ⟨brk', hbrk'⟩ : ∃ x, x = if 0 < stop ∧ stop < r.mem.brk then stop else r.mem.brk :=
    ⟨_, rfl⟩
  have hge : r.mem.start.toNat ≤ start'.toNat ∧ start.toNat ≤ start'.toNat := by
    rw [hstart']
    split_ifs with h <;> rw [lt_def] at h <;> omega
  have hle : brk'.toNat ≤ r.mem.brk.toNat := by
    rw [hbrk']
    split_ifs with h
    · exact (lt_def.1 h.2).le
    · exact le_rfl
  have hal : start'.toNat % frameSize = 0 := by
    rw [hstart']
    split_ifs
    · exact hs
    · exact hP.aligned
  have hrest : start' < brk' → Available table start'.toNat brk'.toNat := fun h => by
    rw [lt_def] at h
    exact (hP.rest (lt_def.2 (by omega))).mono hge.1 hle
  have htop : start' < brk' →
      start'.toNat + (HighMem.pages start' brk').toNat * frameSize ≤ brk'.toNat := fun h => by
    rw [lt_def] at h
    have hsub : (brk' - start').toNat = brk'.toNat - start'.toNat := by
      rw [toNat_sub]
      omega
    rw [HighMem.pages_toNat, hsub]
    have := Nat.div_mul_le_self (brk'.toNat - start'.toNat) frameSize
    omega
  have heq : r.call (.breakAt start stop) = ⟨⟨start', brk', if start' < brk' then
      HighMem.pages start' brk' else 0⟩, r.blocks, start :: r.breaks⟩ := by
    rw [hstart', hbrk']
    rfl
  rw [heq]
  refine ⟨hal, hP.low.trans hge.1, fun hne => ?_, fun _ hne => ?_, hrest,
    fun b hb => (hP.blocks b hb).trans hge.1, fun s hs => ?_⟩
  · by_cases h : start' < brk'
    · simp only [HighMem.top, if_pos h]
      exact ⟨(hrest h).mono le_rfl (htop h), (htop h).trans brk'.isLt.le⟩
    · simp [if_neg h] at hne
  · by_cases h : start' < brk'
    · simpa only [HighMem.top, if_pos h] using htop h
    · simp [if_neg h] at hne
  · rcases mem_cons.1 hs with rfl | hs
    · exact hge.2
    · exact (hP.breaks s hs).trans hge.1

theorem allocateHighMemory_some (hp : (allocateHighMemory nPages h).1 ≠ 0) :
    nPages ≠ 0 ∧ nPages.toNat ≤ h.nPages.toNat ∧ allocateHighMemory nPages h
      = (h.start, ⟨h.start + nPages * 0x1000#32, h.brk, h.nPages - nPages⟩) := by
  unfold allocateHighMemory at hp ⊢
  split_ifs at hp ⊢ with h1 h2
  · exact absurd rfl hp
  · exact absurd rfl hp
  · exact ⟨h1, not_lt.1 h2, rfl⟩

theorem allocateHighMemory_none (hs : h.start ≠ 0)
    (hp : (allocateHighMemory nPages h).1 = 0) : (allocateHighMemory nPages h).2 = h := by
  unfold allocateHighMemory at hp ⊢
  split_ifs at hp ⊢
  · rfl
  · rfl
  · exact absurd hp hs

theorem Pool.start_ne_zero (hP : Pool table r) : r.mem.start ≠ 0 := fun h => by
  have := hP.low
  rw [h] at this
  simp at this

theorem Pool.allocate (hP : Pool table r) (nPages : BitVec 32) :
    Spent (r.call (.allocate nPages)).mem ∨ Pool table (r.call (.allocate nPages)) := by
  unfold HighRun.call
  simp only []
  by_cases hp : (allocateHighMemory nPages r.mem).1 = 0
  · rw [if_pos hp, allocateHighMemory_none hP.start_ne_zero hp]
    exact .inr hP
  rw [if_neg hp]
  obtain ⟨hn, hle, heq⟩ := allocateHighMemory_some hp
  have hn' : 0 < nPages.toNat := Nat.pos_of_ne_zero fun h => hn (eq_of_toNat_eq h)
  have hne : r.mem.nPages ≠ 0 := fun h => by
    rw [h] at hle
    exact hn (eq_of_toNat_eq (Nat.le_zero.1 hle))
  obtain ⟨hav, htop⟩ := hP.ram hne
  rw [heq]
  simp only [HighMem.top] at hav htop ⊢
  have hmul : (nPages * 0x1000#32).toNat = nPages.toNat * frameSize := by
    rw [toNat_mul, toNat_ofNat]
    have := hP.low
    simp only [frameSize, Nat.reducePow, Nat.reduceMod] at *
    omega
  have hrem : (r.mem.nPages - nPages).toNat = r.mem.nPages.toNat - nPages.toNat := by
    rw [toNat_sub]
    omega
  have hsplit : nPages.toNat * frameSize + (r.mem.nPages.toNat - nPages.toNat) * frameSize
      = r.mem.nPages.toNat * frameSize := by
    rw [← Nat.add_mul]
    congr 1
    omega
  by_cases hwrap : r.mem.start.toNat + nPages.toNat * frameSize = 2 ^ 32
  · -- the last page before 4 GiB is taken, which only a pool that ends there has
    left
    refine ⟨?_, eq_of_toNat_eq ?_⟩
    · by_contra hb
      have := hP.top_le hb hne
      have := r.mem.brk.isLt
      simp only [HighMem.top] at *
      omega
    · simp only [frameSize] at *
      rw [hrem, show (0 : BitVec 32).toNat = 0 from rfl]
      omega
  · right
    have hstart : (r.mem.start + nPages * 0x1000#32).toNat
        = r.mem.start.toNat + nPages.toNat * frameSize := by
      rw [toNat_add, hmul]
      omega
    have hge : r.mem.start.toNat ≤ r.mem.start.toNat + nPages.toNat * frameSize := by omega
    refine ⟨?_, ?_, fun _ => ?_, fun hb _ => ?_, fun h => ?_, fun b hb => ?_, fun s hs => ?_⟩
    · simp only [hstart]
      have := hP.aligned
      simp only [frameSize] at *
      omega
    · simp only [hstart]
      exact hP.low.trans hge
    · simp only [HighMem.top, hstart, hrem]
      exact ⟨hav.mono hge (by omega), by omega⟩
    · have := hP.top_le hb hne
      simp only [HighMem.top, hstart, hrem] at *
      omega
    · simp only [lt_def, hstart] at h ⊢
      exact (hP.rest (lt_def.2 (by omega))).mono hge le_rfl
    · simp only [hstart]
      rcases mem_cons.1 hb with rfl | hb
      · exact le_rfl
      · exact (hP.blocks b hb).trans hge
    · simp only [hstart]
      exact (hP.breaks s hs).trans hge

theorem Spent.call (hS : Spent r.mem) (c : HighCall) : Spent (r.call c).mem := by
  cases c with
  | breakAt start stop =>
    simp [Spent, HighRun.call, allocHighBreakAt, hS.1]
  | allocate nPages =>
    unfold HighRun.call allocateHighMemory
    simp only []
    split_ifs with h1 h2
    · exact hS
    · exact hS
    · rw [hS.2] at h2
      exact absurd (eq_of_toNat_eq (Nat.le_zero.1 (not_lt.1 h2))) h1

theorem highRun_calls (hram : Available table 0x100000 0x200000) (hT : Below4GiB table) :
    ∀ cs : List HighCall, (∀ c ∈ cs, c.Aligned) →
      Spent (HighRun.calls table cs).mem ∨ Pool table (HighRun.calls table cs) := by
  intro cs
  induction cs using reverseRecOn with
  | nil => exact fun _ => .inr (pool_init hram hT)
  | append_singleton cs c ih =>
    intro hcs
    unfold HighRun.calls at ih ⊢
    rw [foldl_append, foldl_cons, foldl_nil]
    rcases ih fun d hd => hcs d (mem_append_left _ hd) with hS | hP
    · exact .inl (hS.call c)
    cases c with
    | breakAt start stop =>
      exact .inr (hP.breakAt (hcs (.breakAt start stop) (by simp)))
    | allocate nPages => exact hP.allocate nPages

end Calls

/-- A block is page aligned, disjoint from the blocks before it, above the breaks before it, and
RAM from 1 MiB on. -/
structure GoodBlock (table : List MemoryRegionE820) (r : HighRun) (b : HighBlock) : Prop where
  aligned : b.addr.toNat % frameSize = 0
  disjoint : ∀ b' ∈ r.blocks, b'.stop ≤ b.addr.toNat ∨ b.stop ≤ b'.addr.toNat
  above : ∀ s ∈ r.breaks, s.toNat ≤ b.addr.toNat
  high : 0x100000 ≤ b.addr.toNat
  ram : Available table b.addr.toNat b.stop

/-- Whatever the calls before, a block that is returned is a good one, if the available regions of
the table end below 4 GiB. -/
theorem highMemory_blocks_good (table : List MemoryRegionE820)
    (hram : Available table 0x100000 0x200000) (hT : Below4GiB table)
    (cs : List HighCall) (hcs : ∀ c ∈ cs, c.Aligned) (nPages : BitVec 32)
    (hp : (allocateHighMemory nPages (HighRun.calls table cs).mem).1 ≠ 0) :
    GoodBlock table (HighRun.calls table cs)
      ⟨(allocateHighMemory nPages (HighRun.calls table cs).mem).1, nPages⟩ := by
  obtain ⟨hn, hle, heq⟩ := allocateHighMemory_some hp
  rcases highRun_calls hram hT cs hcs with hS | hP
  · rw [hS.2] at hle
    exact absurd (eq_of_toNat_eq (Nat.le_zero.1 hle)) hn
  rw [heq]
  have hne : (HighRun.calls table cs).mem.nPages ≠ 0 := fun h => by
    rw [h] at hle
    exact hn (eq_of_toNat_eq (Nat.le_zero.1 hle))
  have hmul := Nat.mul_le_mul_right frameSize hle
  refine ⟨hP.aligned, fun b hb => .inl (hP.blocks b hb), hP.breaks, hP.low,
    (hP.ram hne).1.mono le_rfl ?_⟩
  simp only [HighBlock.stop, HighMem.top]
  omega

def table3GiB : List MemoryRegionE820 :=
  [⟨0x0, 0x9FC00, 1⟩, ⟨0x9FC00, 0x400, 2⟩, ⟨0x100000, 0xBFF00000, 1⟩]

theorem highMemory_blocks_good_table3GiB :
    GoodBlock table3GiB (HighRun.calls table3GiB [.breakAt 0x180000 0, .allocate 2])
      ⟨0x182000, 1⟩ :=
  highMemory_blocks_good table3GiB (by decide) (by decide) [.breakAt 0x180000 0, .allocate 2]
    (by decide) 1 (by decide)

/-- The table of a machine with 8 GiB of RAM, 3 GiB of it below 4 GiB. -/
def table8GiB : List MemoryRegionE820 := table3GiB ++ [⟨0x100000000, 0x100000000, 1⟩]

/-- The region above 4 GiB is taken for the largest one, with its base cut to 32 bits, and the page
at 3 GiB is returned as RAM. -/
theorem not_highMemory_blocks_good : Available table8GiB 0x100000 0x200000 ∧
    (allocateHighMemory 1 (HighRun.calls table8GiB [.allocate 0xBFF00]).mem).1 = 0xC0000000 ∧
    ¬ GoodBlock table8GiB (HighRun.calls table8GiB [.allocate 0xBFF00]) ⟨0xC0000000, 1⟩ :=
  ⟨by decide, by decide, fun h => absurd h.ram (by decide)⟩

/-! ### The order of the table -/

section SortRegions

variable {table : List MemoryRegionE820}

/-- The sort stays in the table and leaves its entries in the order of their bases. -/
def SortsRegions (table : List MemoryRegionE820) : Prop :=
  ∃ l, bubbleSortMemoryRegions table = some l ∧ l.Perm table
    ∧ l.Pairwise fun a b => a.base ≤ b.base

theorem compareRegions_eq : ∀ {left : ℕ} (front l : List MemoryRegionE820) (swapped : Bool),
    left < l.length → compareRegions left front.length (front ++ l) swapped
      = some (front ++ (BubbleSort.sinkPass (fun r => r.base.toNat) left l).1,
        swapped || (BubbleSort.sinkPass (fun r => r.base.toNat) left l).2)
  | 0, front, l, swapped, _ => by simp [compareRegions, BubbleSort.sinkPass]
  | left + 1, front, a :: b :: l, swapped, h => by
    have ha : (front ++ a :: b :: l)[front.length]? = some a := by simp
    have hb : (front ++ a :: b :: l)[front.length + 1]? = some b := by simp
    have hlen : left < (a :: l).length := by simpa using h
    simp only [compareRegions, ha, hb, Option.bind_eq_bind, Option.bind_some, BubbleSort.sinkPass]
    by_cases hlt : b.base < a.base
    · have hset : ((front ++ a :: b :: l).set front.length b).set (front.length + 1) a
          = front ++ [b] ++ a :: l := by simp
      have hgo := compareRegions_eq (front ++ [b]) (a :: l) true hlen
      rw [length_append, length_singleton] at hgo
      rw [if_pos hlt, hset, hgo, if_pos (show b.base.toNat < a.base.toNat from hlt)]
      simp
    · have hgo := compareRegions_eq (front ++ [a]) (b :: l) swapped hlen
      rw [length_append, length_singleton] at hgo
      rw [if_neg hlt, append_cons, hgo, if_neg (show ¬ b.base.toNat < a.base.toNat from hlt)]
      simp

theorem bubbleRegions_eq {n : ℕ} (hn : n < 2 ^ 32) : ∀ {left i : ℕ} {l : List MemoryRegionE820},
    l.length = n → left + i + 1 = n → bubbleRegions (BitVec.ofNat 32 n) left (BitVec.ofNat 32 i) l
      = some (BubbleSort.sinkSort (fun r => r.base.toNat) left l)
  | 0, i, l, _, _ => rfl
  | left + 1, i, l, hl, hi => by
    have hrounds : (BitVec.ofNat 32 n - BitVec.ofNat 32 i - 1).toNat = left + 1 := by
      simp only [toNat_sub, toNat_ofNat, show (1 : BitVec 32).toNat = 1 from rfl]
      omega
    have hnext : BitVec.ofNat 32 i + 1 = BitVec.ofNat 32 (i + 1) := (ofNat_add ..).symm
    have hpass := compareRegions_eq [] l false (show left + 1 < l.length by omega)
    have hlen := (BubbleSort.sinkPass_perm (fun r : MemoryRegionE820 => r.base.toNat) (left + 1)
      l).length_eq
    simp only [length_nil, nil_append, Bool.false_or] at hpass
    simp only [bubbleRegions, hrounds, hpass, Option.bind_eq_bind, Option.bind_some,
      BubbleSort.sinkSort]
    split_ifs
    · rw [hnext]
      exact bubbleRegions_eq hn (hlen.trans hl) (by omega)
    · rfl

theorem bubbleSortMemoryRegions_eq (h : table ≠ []) (hlt : table.length < 2 ^ 32) :
    bubbleSortMemoryRegions table = some (fetchMemoryRegions table) := by
  have hpos := length_pos_iff.2 h
  have hrounds : (BitVec.ofNat 32 table.length - 1).toNat = table.length - 1 := by
    simp only [toNat_sub, toNat_ofNat, show (1 : BitVec 32).toNat = 1 from rfl]
    omega
  unfold bubbleSortMemoryRegions
  simp only [hrounds]
  exact bubbleRegions_eq hlt rfl (i := 0) (by omega)

theorem bubbleSortMemoryRegions_nil : bubbleSortMemoryRegions [] = none := by
  rfl

theorem regions_sorted_iff (h : table.length ≤ maxMemoryRegions) :
    SortsRegions table ↔ table ≠ [] := by
  refine ⟨?_, fun hne => ?_⟩
  · rintro ⟨l, hl, -⟩ rfl
    simp [bubbleSortMemoryRegions_nil] at hl
  · have hlt : table.length < 2 ^ 32 := h.trans_lt (by decide)
    exact ⟨_, bubbleSortMemoryRegions_eq hne hlt, BubbleSort.sinkSort_perm _ _ _,
      BubbleSort.sinkSort_sorted (fun r => r.base.toNat) table⟩

theorem regions_sorted_table3GiB : SortsRegions table3GiB ↔ table3GiB ≠ [] :=
  regions_sorted_iff (by decide)

theorem not_regions_sorted : ([] : List MemoryRegionE820).length ≤ maxMemoryRegions
    ∧ ¬ SortsRegions [] := by
  refine ⟨by decide, ?_⟩
  rintro ⟨l, hl, -⟩
  simp [bubbleSortMemoryRegions_nil] at hl

end SortRegions

end DragonWare
