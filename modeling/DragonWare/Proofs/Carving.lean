import DragonWare.Proofs.Regions

/-!
# The gaps between reserved chunks

Whatever lies below `curr_start` has been emitted or is reserved (`Carved`), so the regions of an
entry are the addresses up to its cut-off end that no chunk has.
-/

namespace DragonWare

open List

def MemoryRegion.Has (r : MemoryRegion) (j : ℕ) : Prop :=
  r.start.toNat ≤ j ∧ j < r.start.toNat + r.len.toNat

def ReservedRegion.Has (c : ReservedRegion) (j : ℕ) : Prop := c.start.toNat ≤ j ∧ j < c.stop.toNat

def MemoryRegion.Apart (r r' : MemoryRegion) : Prop := ∀ j, ¬ (r.Has j ∧ r'.Has j)

theorem has_gap (type : MemoryRegionType) {a b : BitVec 32} (h : a < b) (j : ℕ) :
    (⟨true, a, b - a, type⟩ : MemoryRegion).Has j ↔ a.toNat ≤ j ∧ j < b.toNat := by
  have hlt : a.toNat < b.toNat := h
  have hlen : (b - a).toNat = b.toNat - a.toNat := BitVec.toNat_sub_of_le hlt.le
  have hsum : a.toNat + (b - a).toNat = b.toNat := by omega
  simp only [MemoryRegion.Has, hsum]

section Room

variable {table : List MemoryRegion} {r : MemoryRegion}

theorem length_le_pushRegion (table : List MemoryRegion) (r : MemoryRegion) :
    table.length ≤ (pushRegion table r).length := by
  unfold pushRegion
  split_ifs
  · simp
  · exact le_rfl

theorem pushRegion_of_room (h : (pushRegion table r).length < maxMemRegions) :
    pushRegion table r = table ++ [r] := by
  have hlt := (length_le_pushRegion table r).trans_lt h
  rw [pushRegion, if_pos hlt]

theorem length_le_carve (type : MemoryRegionType) (regionEnd : BitVec 32) :
    ∀ (cs : List ReservedRegion) (curr : BitVec 32) (table : List MemoryRegion),
      table.length ≤ (carve type regionEnd cs curr table).2.length
  | [], _, _ => le_rfl
  | c :: cs, curr, table => by
    unfold carve
    split_ifs
    · exact length_le_carve type regionEnd cs curr table
    · exact le_rfl
    all_goals
      refine le_trans ?_ (length_le_carve type regionEnd cs _ _)
      first | exact length_le_pushRegion _ _ | exact le_rfl

end Room

/-- What the loop over `cs` emits between `curr` and `curr'`. From `curr'` on nothing is
reserved. -/
structure Carved (regionEnd : ℕ) (cs : List ReservedRegion) (curr curr' : ℕ)
    (new : List MemoryRegion) : Prop where
  le : curr ≤ curr'
  inside : ∀ r ∈ new, ∀ j, r.Has j → curr ≤ j ∧ j < curr' ∧ j < regionEnd
  apart : new.Pairwise MemoryRegion.Apart
  exact : ∀ j, curr ≤ j → j < regionEnd →
    (((∃ r ∈ new, r.Has j) ∨ curr' ≤ j) ↔ ∀ c ∈ cs, ¬ c.Has j)

section Carved

variable {regionEnd curr curr' : ℕ} {c : ReservedRegion} {cs : List ReservedRegion}
  {new : List MemoryRegion}

theorem Carved.skip (h : Carved regionEnd cs curr curr' new) (hc : c.stop.toNat ≤ curr) :
    Carved regionEnd (c :: cs) curr curr' new := by
  refine ⟨h.le, h.inside, h.apart, fun j hj hj' => (h.exact j hj hj').trans ?_⟩
  have hno : ¬ c.Has j := fun hhas => absurd hhas.2 (by omega)
  simp [hno]

theorem Carved.stop (h : ∀ c ∈ cs, regionEnd ≤ c.start.toNat) :
    Carved regionEnd cs curr curr [] := by
  refine ⟨le_rfl, by simp, .nil, fun j hj hj' => ?_⟩
  refine iff_of_true (.inr hj) fun c hc hhas => ?_
  have hstart := h c hc
  have hle := hhas.1
  omega

theorem Carved.pass (h : Carved regionEnd cs c.stop.toNat curr' new) (hc : c.start.toNat ≤ curr)
    (hstop : curr < c.stop.toNat) : Carved regionEnd (c :: cs) curr curr' new := by
  have hle := h.le
  refine ⟨by omega, fun r hr j hj => ?_, h.apart, fun j hj hj' => ?_⟩
  · obtain ⟨h1, h2, h3⟩ := h.inside r hr j hj
    exact ⟨by omega, h2, h3⟩
  · by_cases hin : j < c.stop.toNat
    · refine iff_of_false ?_ fun hall => hall c mem_cons_self ⟨by omega, hin⟩
      rintro (⟨r, hr, hhas⟩ | hge)
      · have := (h.inside r hr j hhas).1
        omega
      · omega
    · have hno : ¬ c.Has j := fun hhas => hin hhas.2
      rw [h.exact j (by omega) hj']
      simp [hno]

theorem Carved.gap (h : Carved regionEnd cs c.stop.toNat curr' new) {r : MemoryRegion}
    (hc : curr < c.start.toNat) (hend : c.start.toNat < regionEnd)
    (hle : c.start.toNat ≤ c.stop.toNat) (hsort : ∀ d ∈ cs, c.start.toNat ≤ d.start.toNat)
    (hr : ∀ j, r.Has j ↔ curr ≤ j ∧ j < c.start.toNat) :
    Carved regionEnd (c :: cs) curr curr' (r :: new) := by
  have hle' := h.le
  refine ⟨by omega, fun s hs j hj => ?_, pairwise_cons.2 ⟨fun s hs j hboth => ?_, h.apart⟩,
    fun j hj hj' => ?_⟩
  · rcases mem_cons.1 hs with rfl | hs
    · have := (hr j).1 hj
      omega
    · have := h.inside s hs j hj
      omega
  · have h1 := (hr j).1 hboth.1
    have h2 := (h.inside s hs j hboth.2).1
    omega
  · by_cases hgap : j < c.start.toNat
    · refine iff_of_true (.inl ⟨r, mem_cons_self, (hr j).2 ⟨hj, hgap⟩⟩) fun d hd hhas => ?_
      rcases mem_cons.1 hd with rfl | hd
      · have := hhas.1
        omega
      · have h1 := hsort d hd
        have h2 := hhas.1
        omega
    by_cases hin : j < c.stop.toNat
    · refine iff_of_false ?_ fun hall => hall c mem_cons_self ⟨by omega, hin⟩
      rintro (⟨s, hs, hhas⟩ | hge)
      · rcases mem_cons.1 hs with rfl | hs
        · have := (hr j).1 hhas
          omega
        · have := (h.inside s hs j hhas).1
          omega
      · omega
    · have hno : ¬ c.Has j := fun hhas => hin hhas.2
      have hnr : ¬ r.Has j := fun hhas => hgap ((hr j).1 hhas).2
      have hrest := h.exact j (by omega) hj'
      simp only [exists_mem_cons_iff, forall_mem_cons, hno, hnr, not_false_eq_true,
        true_and, false_or]
      exact hrest

end Carved

theorem carve_carved (type : MemoryRegionType) (regionEnd : BitVec 32) :
    ∀ (cs : List ReservedRegion) (curr : BitVec 32) (table : List MemoryRegion),
      (cs.Pairwise fun a b => a.start.toNat ≤ b.start.toNat) →
      (∀ c ∈ cs, c.start.toNat ≤ c.stop.toNat) →
      (carve type regionEnd cs curr table).2.length < maxMemRegions →
      ∃ new, (carve type regionEnd cs curr table).2 = table ++ new
        ∧ Carved regionEnd.toNat cs curr.toNat (carve type regionEnd cs curr table).1.toNat new
  | [], curr, table, _, _, _ => ⟨[], by simp [carve], .stop (by simp)⟩
  | c :: cs, curr, table, hsort, hle, hroom => by
    obtain ⟨hfirst, hsort⟩ := pairwise_cons.1 hsort
    have hle' : ∀ d ∈ cs, d.start.toNat ≤ d.stop.toNat := fun d hd =>
      hle d (mem_cons_of_mem _ hd)
    unfold carve at hroom ⊢
    by_cases hskip : c.stop ≤ curr
    · rw [if_pos hskip] at hroom ⊢
      obtain ⟨new, htable, h⟩ := carve_carved type regionEnd cs curr table hsort hle' hroom
      exact ⟨new, htable, h.skip hskip⟩
    by_cases hbreak : regionEnd ≤ c.start
    · rw [if_neg hskip, if_pos hbreak] at hroom ⊢
      have hb : regionEnd.toNat ≤ c.start.toNat := hbreak
      refine ⟨[], by simp, .stop fun d hd => ?_⟩
      rcases mem_cons.1 hd with rfl | hd
      · exact hb
      · exact hb.trans (hfirst d hd)
    have hcs : curr < c.stop := BitVec.not_le.1 hskip
    have hend : c.start.toNat < regionEnd.toNat := BitVec.not_le.1 hbreak
    rw [if_neg hskip, if_neg hbreak, if_pos hcs] at hroom ⊢
    by_cases hgap : curr < c.start
    · simp only [if_pos hgap] at hroom ⊢
      have hpush := pushRegion_of_room ((length_le_carve type regionEnd cs c.stop _).trans_lt hroom)
      obtain ⟨new, htable, h⟩ := carve_carved type regionEnd cs c.stop _ hsort hle' hroom
      refine ⟨_, ?_, h.gap hgap hend (hle c mem_cons_self) hfirst (has_gap type hgap)⟩
      rw [htable, hpush, append_assoc]
      rfl
    · simp only [if_neg hgap] at hroom ⊢
      obtain ⟨new, htable, h⟩ := carve_carved type regionEnd cs c.stop table hsort hle' hroom
      exact ⟨new, htable, h.pass (BitVec.not_lt.1 hgap) hcs⟩

section Entry

variable {chunks : List ReservedRegion} {table : List MemoryRegion} {e : MultibootMMapEntry}

theorem addEntry_carved (hsort : chunks.Pairwise fun a b => a.start.toNat ≤ b.start.toNat)
    (hle : ∀ c ∈ chunks, c.start.toNat ≤ c.stop.toNat) (husable : e.usable = true)
    (hroom : (addEntry chunks table e).length < maxMemRegions) :
    ∃ new, addEntry chunks table e = table ++ new ∧ new.Pairwise MemoryRegion.Apart
      ∧ ∀ j, (∃ r ∈ new, r.Has j) ↔ (e.addr.setWidth 32).toNat ≤ j
        ∧ j < (e.lastByte.setWidth 32).toNat ∧ ∀ c ∈ chunks, ¬ c.Has j := by
  unfold addEntry at hroom ⊢
  simp only [husable, if_true] at hroom ⊢
  obtain ⟨regionEnd, hregionEnd⟩ : ∃ x, x = e.lastByte.setWidth 32 := ⟨_, rfl⟩
  obtain ⟨start, hstart⟩ : ∃ x, x = e.addr.setWidth 32 := ⟨_, rfl⟩
  obtain ⟨r, hr⟩ : ∃ r, r = carve (.ofCode e.type) regionEnd chunks start table := ⟨_, rfl⟩
  rw [← hregionEnd, ← hstart, ← hr] at hroom ⊢
  have hcarve : r.2.length < maxMemRegions → ∃ new, r.2 = table ++ new
      ∧ Carved regionEnd.toNat chunks start.toNat r.1.toNat new := by
    rw [hr]
    exact carve_carved _ _ chunks start table hsort hle
  by_cases hlast : r.1 < regionEnd
  · rw [if_pos hlast] at hroom ⊢
    obtain ⟨new, htable, h⟩ := hcarve ((length_le_pushRegion _ _).trans_lt hroom)
    have hgap := has_gap (.ofCode e.type) hlast
    have hlt : r.1.toNat < regionEnd.toNat := hlast
    have hrle := h.le
    refine ⟨new ++ [⟨true, r.1, regionEnd - r.1, .ofCode e.type⟩], ?_, ?_, fun j => ?_⟩
    · rw [pushRegion_of_room hroom, htable, append_assoc]
    · refine pairwise_append.2
        ⟨h.apart, pairwise_singleton _ _, fun s hs s' hs' j hj => ?_⟩
      rw [mem_singleton.1 hs', hgap] at hj
      have := h.inside s hs j hj.1
      omega
    · have hor : (∃ s ∈ new ++ [⟨true, r.1, regionEnd - r.1, .ofCode e.type⟩],
          MemoryRegion.Has s j) ↔ (∃ s ∈ new, s.Has j) ∨ (r.1.toNat ≤ j ∧ j < regionEnd.toNat) := by
        simp [or_and_right, exists_or, hgap]
      rw [hor]
      constructor
      · rintro (⟨s, hs, hhas⟩ | ⟨hlo, hhi⟩)
        · obtain ⟨h1, -, h3⟩ := h.inside s hs j hhas
          exact ⟨h1, h3, (h.exact j h1 h3).1 (.inl ⟨s, hs, hhas⟩)⟩
        · exact ⟨by omega, hhi, (h.exact j (by omega) hhi).1 (.inr hlo)⟩
      · rintro ⟨hlo, hhi, hfree⟩
        exact ((h.exact j hlo hhi).2 hfree).imp_right fun hge => ⟨hge, hhi⟩
  · rw [if_neg hlast] at hroom ⊢
    obtain ⟨new, htable, h⟩ := hcarve hroom
    have hge : regionEnd.toNat ≤ r.1.toNat := BitVec.not_lt.1 hlast
    refine ⟨new, htable, h.apart, fun j => ⟨?_, ?_⟩⟩
    · rintro ⟨s, hs, hhas⟩
      obtain ⟨h1, -, h3⟩ := h.inside s hs j hhas
      exact ⟨h1, h3, (h.exact j h1 h3).1 (.inl ⟨s, hs, hhas⟩)⟩
    · rintro ⟨hlo, hhi, hfree⟩
      exact ((h.exact j hlo hhi).2 hfree).resolve_right (by omega)

theorem lastByte_toNat (haddr : e.addr.toNat < 2 ^ 32 - 1) (hlen : 1 ≤ e.len.toNat) :
    (e.lastByte.setWidth 32).toNat = if e.addr.toNat + e.len.toNat ≤ 2 ^ 64
      then min (e.addr.toNat + e.len.toNat - 1) (2 ^ 32 - 2)
      else e.addr.toNat + e.len.toNat - 1 - 2 ^ 64 := by
  have hlt := e.len.isLt
  have hend : (e.addr + e.len - 1#64).toNat
      = (2 ^ 64 - 1 + (e.addr.toNat + e.len.toNat) % 2 ^ 64) % 2 ^ 64 := by
    rw [BitVec.toNat_sub, BitVec.toNat_add]
    simp
  have hle : 0xFFFFFFFF#64 ≤ e.addr + e.len - 1#64 ↔ 0xFFFFFFFF ≤ (e.addr + e.len - 1#64).toNat :=
    Iff.rfl
  rw [BitVec.toNat_setWidth]
  unfold MultibootMMapEntry.lastByte
  split_ifs with h h' h'
  all_goals
    rw [hle, hend] at h
    simp only [BitVec.toNat_ofNat, Nat.reducePow, Nat.reduceMod, hend] at *
    omega

/-- The regions are apart and have exactly the addresses of the entry, cut off below 4 GiB and
without its last byte, that no chunk has. -/
def ExactFor (chunks : List ReservedRegion) (e : MultibootMMapEntry) (new : List MemoryRegion) :
    Prop :=
  new.Pairwise MemoryRegion.Apart ∧ ∀ j, (∃ r ∈ new, r.Has j) ↔ e.addr.toNat ≤ j
    ∧ j < min (e.addr.toNat + e.len.toNat - 1) (2 ^ 32 - 2) ∧ ∀ c ∈ chunks, ¬ c.Has j

/-- The modules that are reserved end where they start or later, and can be rounded to pages. -/
def BootInfo.ModulesFit (bi : BootInfo) : Prop :=
  ∀ m ∈ bi.modules.take (maxReserved - 1),
    m.start.toNat ≤ m.stop.toNat ∧ m.stop.toNat + 0xFFF < 2 ^ 32

instance (bi : BootInfo) : Decidable bi.ModulesFit :=
  inferInstanceAs (Decidable (∀ m ∈ bi.modules.take (maxReserved - 1), _))

theorem reservedChunks_bounds {k : KernelImage} {bi : BootInfo} (h : bi.ModulesFit) :
    ∀ c ∈ reservedChunks k bi, c.start.toNat ≤ c.stop.toNat ∧ c.stop.toNat ≤ 0xFFFFF000 := by
  have hround (a b : BitVec 32) (hab : a.toNat ≤ b.toNat) (hb : b.toNat + 0xFFF < 2 ^ 32) :
      (alignDown a).toNat ≤ (pageAlign b).toNat ∧ (pageAlign b).toNat ≤ 0xFFFFF000 := by
    rw [alignDown_toNat, pageAlign_toNat (by omega)]
    simp only [frameSize]
    omega
  intro c hc
  rcases mem_cons.1 hc with rfl | hc
  · have hsize := k.size_le
    have hend : k.physEnd.toNat = 0x100000 + k.size.toNat := by
      rw [KernelImage.physEnd, BitVec.toNat_add]
      simp only [BitVec.toNat_ofNat]
      omega
    have hstart : k.physStart.toNat = 0x100000 := rfl
    exact hround _ _ (by omega) (by omega)
  · obtain ⟨m, hm, rfl⟩ := mem_map.1 hc
    exact hround _ _ (h m hm).1 (h m hm).2

theorem carving_exact_iff {k : KernelImage} {bi : BootInfo} {table : List MemoryRegion}
    {e : MultibootMMapEntry} (hmods : bi.ModulesFit) (husable : e.usable = true)
    (haddr : e.addr.toNat < 2 ^ 32 - 1) (hlen : 1 ≤ e.len.toNat)
    (hroom : (addEntry (sortReservedChunks (reservedChunks k bi)) table e).length < maxMemRegions) :
    (∃ new, addEntry (sortReservedChunks (reservedChunks k bi)) table e = table ++ new
        ∧ ExactFor (reservedChunks k bi) e new)
      ↔ ¬ (2 ^ 64 < e.addr.toNat + e.len.toNat ∧ e.addr.toNat < 2 ^ 32 - 2) := by
  have hbounds := reservedChunks_bounds (k := k) hmods
  obtain ⟨chunks, hchunks⟩ : ∃ x, x = reservedChunks k bi := ⟨_, rfl⟩
  rw [← hchunks] at hroom hbounds ⊢
  have hperm : (sortReservedChunks chunks).Perm chunks := BubbleSort.bubbleSort_perm _ _ _
  have hsort : (sortReservedChunks chunks).Pairwise fun a b => a.start.toNat ≤ b.start.toNat :=
    BubbleSort.bubbleSort_sorted _ (chunks.length - 1) chunks (by omega)
  obtain ⟨new, htable, hapart, hexact⟩ := addEntry_carved hsort
    (fun c hc => (hbounds c (hperm.mem_iff.1 hc)).1) husable hroom
  have hstart : (e.addr.setWidth 32).toNat = e.addr.toNat := by
    rw [BitVec.toNat_setWidth]
    omega
  have hfree (j : ℕ) : (∀ c ∈ sortReservedChunks chunks, ¬ c.Has j) ↔ ∀ c ∈ chunks, ¬ c.Has j :=
    ⟨fun h c hc => h c (hperm.mem_iff.2 hc), fun h c hc => h c (hperm.mem_iff.1 hc)⟩
  simp only [hstart, lastByte_toNat haddr hlen, hfree] at hexact
  constructor
  · -- no chunk reaches into the last page, which the cut-off entry has addresses of
    rintro ⟨new', htable', -, hexact'⟩ ⟨hwrap, hlow⟩
    obtain rfl : new = new' := append_cancel_left (htable.symm.trans htable')
    obtain ⟨j, hj⟩ : ∃ j, j = max e.addr.toNat 0xFFFFF000 := ⟨_, rfl⟩
    have hlt := e.len.isLt
    have hin : ∃ r ∈ new, r.Has j := (hexact' j).2 ⟨by omega, by omega, fun c hc hhas => by
      have h₁ := (hbounds c hc).2
      have h₂ := hhas.2
      omega⟩
    have hout := (hexact j).1 hin
    rw [if_neg (by omega)] at hout
    omega
  · intro hok
    refine ⟨new, htable, hapart, fun j => (hexact j).trans ?_⟩
    by_cases hwrap : e.addr.toNat + e.len.toNat ≤ 2 ^ 64
    · rw [if_pos hwrap]
    have hlt := e.len.isLt
    rw [if_neg hwrap]
    constructor
    · rintro ⟨h₁, h₂, -⟩
      omega
    · rintro ⟨h₁, h₂, -⟩
      omega

/-- Memory with two modules in it that overlap, the later one first. -/
def twoModules : BootInfo :=
  ⟨0x8#32, [⟨0x300000#32, 0x302000#32⟩, ⟨0x200000#32, 0x301000#32⟩],
    some [⟨0x100000#64, 0x700000#64, 1#32⟩]⟩

theorem carving_exact_iff_twoModules :
    ∃ new, addEntry (sortReservedChunks (reservedChunks smallKernel twoModules)) []
        ⟨0x100000#64, 0x700000#64, 1#32⟩ = [] ++ new
      ∧ ExactFor (reservedChunks smallKernel twoModules) ⟨0x100000#64, 0x700000#64, 1#32⟩ new :=
  (carving_exact_iff (by decide) (by decide) (by decide) (by decide) (by decide)).2 (by decide)

/-- An entry whose address and length add up to more than `2 ^ 64`. -/
def wrappingEntry : MultibootMMapEntry := ⟨0x200000#64, 0xFFFFFFFFFFFFFFFF#64, 1#32⟩

theorem not_carving_exact :
    (addEntry (sortReservedChunks (reservedChunks smallKernel ⟨0#32, [], none⟩)) []
        wrappingEntry).length < maxMemRegions
      ∧ ¬ ∃ new, addEntry (sortReservedChunks (reservedChunks smallKernel ⟨0#32, [], none⟩)) []
          wrappingEntry = [] ++ new
        ∧ ExactFor (reservedChunks smallKernel ⟨0#32, [], none⟩) wrappingEntry new := by
  have hnone : addEntry (sortReservedChunks (reservedChunks smallKernel ⟨0#32, [], none⟩)) []
      wrappingEntry = [] := by decide
  rw [hnone]
  refine ⟨by decide, ?_⟩
  rintro ⟨new, hnew, -, hexact⟩
  obtain rfl : new = [] := hnew.symm
  -- the first byte of the entry is behind the kernel
  obtain ⟨r, hr, -⟩ := (hexact 0x200000).2 ⟨by decide, by decide, by
    unfold ReservedRegion.Has
    decide⟩
  cases hr

end Entry

end DragonWare
