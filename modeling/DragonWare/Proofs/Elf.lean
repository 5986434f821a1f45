import DragonWare.Elf
import DragonWare.Proofs.Highmem

/-!
# What the ELF loader leaves

When the loader succeeds, what it leaves is a fold over the loadable segments (`ElfLoad.After`). The
pool starts behind the highest of them, unless rounding up wraps to zero. The virtual offset is
taken from the writable segments, not from the executable ones (`elf_entry_iff`).
-/

namespace DragonWare

open BitVec Memory Option

section File

variable (content : Mem)

def elfHeader : ELFHeader := .ofBytes content

def programSegment (i : ℕ) : ELFProgramSegment :=
  .ofBytes fun k => content (((elfHeader content).segmentCursor i).toNat + k)

def loadableOf (is : List ℕ) : List ELFProgramSegment :=
  (is.map (programSegment content)).filter (·.type = segmentLoad)

def loadable : List ELFProgramSegment :=
  loadableOf content (List.range (elfHeader content).phtNEntries.toNat)

def FileReader.Delivers (read : FileReader) (file : File) : Prop :=
  ∀ (c : ℕ) (e : Bool) (n : ℕ) (r : ℕ × File × Mem),
    read { file with cursor := c, ended := e } n = some r →
      r.1 = n ∧ (∀ i < n, r.2.2 i = content (c + i)) ∧
      ∃ c' e', r.2.1 = { file with cursor := c', ended := e' }

end File

namespace ELFProgramSegment

def stop (s : ELFProgramSegment) : ℕ := s.paddr.toNat + s.sizeMem.toNat

def Covers (s : ELFProgramSegment) (a : ℕ) : Prop := s.paddr.toNat ≤ a ∧ a < s.stop

def executable (s : ELFProgramSegment) : Bool := s.flags &&& 1#32 ≠ 0#32

def writable (s : ELFProgramSegment) : Bool := s.flags &&& 2#32 ≠ 0#32

end ELFProgramSegment

variable {ds : List ELFProgramSegment} {m : PhysMem} {r : HighRun} {c : HighCall}

section Fold

variable {content : Mem}

def loadBytes (content : Mem) (m : PhysMem) (s : ELFProgramSegment) : PhysMem :=
  (m.write s.paddr s.sizeMem fun _ => 0).write s.paddr s.size fun k => content (s.offset.toNat + k)

def nextOffset (v : BitVec 32) (s : ELFProgramSegment) : BitVec 32 :=
  if isSet s.flags elfSegmentExecutable then s.vaddr - s.paddr else v

def nextHighest (h : BitVec 32) (s : ELFProgramSegment) : BitVec 32 :=
  if h < s.paddr + s.sizeMem then s.paddr + s.sizeMem else h

structure ElfLoad.After (content : Mem) (file : File) (mem : PhysMem) (ds : List ELFProgramSegment)
    (st : ElfLoad) : Prop where
  file : ∃ c e, st.file = { file with cursor := c, ended := e }
  mem : st.mem = ds.foldl (loadBytes content) mem
  loaded : st.segmentsLoaded = ds.length
  virtOffset : st.virtOffset = ds.foldl nextOffset 0
  highest : st.highestAddrUsed = ds.foldl nextHighest 0

theorem PhysMem.write_congr {p n : BitVec 32} {src src' : Mem}
    (h : ∀ k < n.toNat, src' k = src k) : m.write p n src' = m.write p n src := by
  funext a
  unfold PhysMem.write
  split_ifs with ha
  · exact h _ (lt_def.1 ha)
  · rfl

theorem ELFHeader.ofBytes_congr {b b' : Mem} (h : ∀ i < elfHeaderSize, b i = b' i) :
    ELFHeader.ofBytes b = ELFHeader.ofBytes b' := by
  have h' : ∀ i, i < 52 → b i = b' i := h
  have h32 : ∀ a, a + 4 ≤ 52 → read32 b a = read32 b' a := fun a ha =>
    read32_congr fun x _ hx => h' x (by omega)
  unfold ELFHeader.ofBytes read16
  rw [h32 24 (by omega), h32 28 (by omega)]
  simp only [h' 0 (by omega), h' 1 (by omega), h' 2 (by omega), h' 3 (by omega), h' 4 (by omega),
    h' 5 (by omega), h' 7 (by omega), h' 18 (by omega), h' (18 + 1) (by omega), h' 42 (by omega),
    h' (42 + 1) (by omega), h' 44 (by omega), h' (44 + 1) (by omega)]

theorem ELFProgramSegment.ofBytes_congr {b b' : Mem} (h : ∀ i < elfProgramSegmentSize, b i = b' i) :
    ELFProgramSegment.ofBytes b = ELFProgramSegment.ofBytes b' := by
  have h32 : ∀ a, a + 4 ≤ 32 → read32 b a = read32 b' a := fun a ha =>
    read32_congr fun x _ hx => h x (by simp only [elfProgramSegmentSize]; omega)
  unfold ELFProgramSegment.ofBytes
  rw [h32 0 (by omega), h32 4 (by omega), h32 8 (by omega), h32 12 (by omega), h32 16 (by omega),
    h32 20 (by omega), h32 24 (by omega)]

variable {read : FileReader} {file : File} {mem : PhysMem}

theorem loadSegment_ok (hread : read.Delivers content file) {st st' : ElfLoad}
    (hst : st.After content file mem ds) {i : ℕ}
    (h : loadSegment read (elfHeader content) i st = some (.ok, st')) :
    st'.After content file mem (ds ++ loadableOf content [i]) := by
  obtain ⟨c, e, hfile⟩ := hst.file
  unfold loadSegment at h
  obtain ⟨⟨n1, f1, b1⟩, hr1, h⟩ := bind_eq_some_iff.1 h
  rw [hfile] at hr1
  obtain ⟨-, hb1, c1, e1, hf1⟩ := hread _ _ _ _ hr1
  have hseg : ELFProgramSegment.ofBytes b1 = programSegment content i :=
    ELFProgramSegment.ofBytes_congr hb1
  simp only [hseg] at h
  have hone : loadableOf content [i] = if (programSegment content i).type = segmentLoad
      then [programSegment content i] else [] := by
    unfold loadableOf
    rw [List.map_singleton, List.filter_singleton]
    by_cases ht : (programSegment content i).type = segmentLoad <;> simp [ht]
  rw [hone]
  by_cases ht : (programSegment content i).type = segmentLoad
  swap
  · rw [if_pos ht] at h
    rw [if_neg ht, List.append_nil]
    simp only [Option.pure_def, some.injEq, Prod.mk.injEq, true_and] at h
    subst h
    exact ⟨⟨c1, e1, hf1⟩, hst.mem, hst.loaded, hst.virtOffset, hst.highest⟩
  · rw [if_neg (not_not.2 ht)] at h
    rw [if_pos ht]
    obtain ⟨⟨n2, f2, b2⟩, hr2, h⟩ := bind_eq_some_iff.1 h
    have hf1' : f1 = { file with cursor := c1, ended := e1 } := hf1
    rw [hf1'] at hr2
    obtain ⟨hn2, hb2, c2, e2, hf2⟩ := hread _ _ _ _ hr2
    have hn2' : n2 = (programSegment content i).size.toNat := hn2
    simp only [hn2', ne_eq, not_true_eq_false, if_false, Option.pure_def, some.injEq,
      Prod.mk.injEq, true_and, ofNat_toNat, setWidth_eq] at h
    subst h
    refine ⟨⟨c2, e2, hf2⟩, ?_, ?_, ?_, ?_⟩
    · rw [List.foldl_append, ← hst.mem]
      exact PhysMem.write_congr hb2
    · simp only [hst.loaded, List.length_append, List.length_singleton]
    · rw [List.foldl_append, ← hst.virtOffset]
      rfl
    · rw [List.foldl_append, ← hst.highest]
      rfl

theorem loadSegments_ok (hread : read.Delivers content file) :
    ∀ (is : List ℕ) {ds : List ELFProgramSegment} {st st' : ElfLoad},
      st.After content file mem ds →
      loadSegments read (elfHeader content) is st = some (.ok, st') →
      st'.After content file mem (ds ++ loadableOf content is)
  | [], ds, st, st', hst, h => by
    simp only [loadSegments, some.injEq, Prod.mk.injEq, true_and] at h
    rw [show loadableOf content [] = [] from rfl, List.append_nil, ← h]
    exact hst
  | i :: is, ds, st, st', hst, h => by
    unfold loadSegments at h
    obtain ⟨⟨status, st1⟩, h1, h⟩ := bind_eq_some_iff.1 h
    by_cases hs : status = .ok
    · subst hs
      simp only [ne_eq, not_true_eq_false, if_false] at h
      have ih := loadSegments_ok hread is (loadSegment_ok hread hst h1) h
      rw [List.append_assoc] at ih
      have : loadableOf content [i] ++ loadableOf content is = loadableOf content (i :: is) := by
        unfold loadableOf
        rw [← List.filter_append, ← List.map_append, List.singleton_append]
      rwa [this] at ih
    · have h' := (if_pos hs).symm.trans h
      exact absurd (Prod.mk.inj (some.inj h')).1 hs

theorem readELFToMemory_ok (hread : read.Delivers content file) {entry : BitVec 32} {high : HighMem}
    {r : ElfResult} (h : readELFToMemory read file entry mem high = some r) (hok : r.status = .ok) :
    r.entry = (elfHeader content).entry - (loadable content).foldl nextOffset 0 ∧
    r.mem = (loadable content).foldl (loadBytes content) mem ∧
    r.high = allocHighBreakAt (pageAlign ((loadable content).foldl nextHighest 0)) 0 high := by
  unfold readELFToMemory at h
  obtain ⟨⟨n1, f1, b1⟩, hr1, h⟩ := bind_eq_some_iff.1 h
  obtain ⟨-, hb1, c1, e1, hf1⟩ := hread _ _ _ _ hr1
  have hhead : ELFHeader.ofBytes b1 = elfHeader content :=
    ELFHeader.ofBytes_congr fun i hi => by
      have := hb1 i hi
      rwa [Nat.zero_add] at this
  simp only [hhead] at h
  split_ifs at h
  obtain ⟨⟨status, st⟩, hl, h⟩ := bind_eq_some_iff.1 h
  by_cases hs : status = .ok
  · subst hs
    simp only [ne_eq, not_true_eq_false, if_false] at h
    split_ifs at h
    simp only [Option.pure_def, some.injEq] at h
    have h0 : ElfLoad.After content file mem [] ⟨f1, mem, 0, 0, 0⟩ :=
      ⟨⟨c1, e1, hf1⟩, rfl, rfl, rfl, rfl⟩
    have hA := loadSegments_ok hread _ h0 hl
    rw [List.nil_append] at hA
    subst h
    exact ⟨by rw [hA.virtOffset]; rfl, hA.mem, by rw [hA.highest]; rfl⟩
  · simp only [ne_eq, hs, not_false_eq_true, if_true, Option.pure_def, some.injEq] at h
    subst h
    exact absurd hok hs

end Fold

section Memory

variable {content : Mem} {s : ELFProgramSegment} {a : BitVec 32}

theorem ELFProgramSegment.covers_iff
    (hs : s.stop ≤ 2 ^ 32) : a - s.paddr < s.sizeMem ↔ s.Covers a.toNat := by
  unfold ELFProgramSegment.Covers
  unfold ELFProgramSegment.stop at hs ⊢
  rw [lt_def, toNat_sub]
  have := a.isLt
  have := s.paddr.isLt
  omega

theorem loadBytes_of_not_covers (hs : s.stop ≤ 2 ^ 32) (hle : s.size.toNat ≤ s.sizeMem.toNat)
    (ha : ¬ s.Covers a.toNat) : loadBytes content m s a = m a := by
  have h1 : ¬ a - s.paddr < s.sizeMem := fun h => ha ((ELFProgramSegment.covers_iff hs).1 h)
  have h2 : ¬ a - s.paddr < s.size := fun h => h1 (by
    rw [lt_def] at h ⊢
    omega)
  unfold loadBytes PhysMem.write
  rw [if_neg h2, if_neg h1]

theorem foldl_loadBytes_of_not_covers : ∀ (ds : List ELFProgramSegment) {m : PhysMem}
    {a : BitVec 32}, (∀ d ∈ ds, d.stop ≤ 2 ^ 32 ∧ d.size.toNat ≤ d.sizeMem.toNat) →
    (∀ d ∈ ds, ¬ d.Covers a.toNat) → ds.foldl (loadBytes content) m a = m a
  | [], _, _, _, _ => rfl
  | d :: ds, m, a, hds, ha => by
    have hd := hds d List.mem_cons_self
    rw [List.foldl_cons, foldl_loadBytes_of_not_covers ds
      (fun x hx => hds x (List.mem_cons_of_mem _ hx)) fun x hx => ha x (List.mem_cons_of_mem _ hx),
      loadBytes_of_not_covers hd.1 hd.2 (ha d List.mem_cons_self)]

theorem foldl_loadBytes : ∀ (ds : List ELFProgramSegment) {m : PhysMem},
    (∀ d ∈ ds, d.stop ≤ 2 ^ 32 ∧ d.size.toNat ≤ d.sizeMem.toNat) →
    ds.Pairwise (fun s t => ∀ a, ¬ (s.Covers a ∧ t.Covers a)) →
    ∀ s ∈ ds, ∀ i < s.sizeMem.toNat, ds.foldl (loadBytes content) m (s.paddr + BitVec.ofNat 32 i)
      = if i < s.size.toNat then content (s.offset.toNat + i) else 0
  | [], _, _, _, s, hs, _, _ => absurd hs List.not_mem_nil
  | d :: ds, m, hds, hp, s, hs, i, hi => by
    rw [List.pairwise_cons] at hp
    rw [List.foldl_cons]
    have htl : ∀ x ∈ ds, x.stop ≤ 2 ^ 32 ∧ x.size.toNat ≤ x.sizeMem.toNat :=
      fun x hx => hds x (List.mem_cons_of_mem _ hx)
    rcases List.mem_cons.1 hs with rfl | hs
    · -- its own bytes are stored first, and no later segment reaches them
      obtain ⟨hstop, hle⟩ := hds s List.mem_cons_self
      have haddr : (s.paddr + BitVec.ofNat 32 i).toNat = s.paddr.toNat + i := by
        unfold ELFProgramSegment.stop at hstop
        rw [toNat_add, toNat_ofNat]
        omega
      have hcov : s.Covers (s.paddr + BitVec.ofNat 32 i).toNat := by
        rw [haddr]
        exact ⟨by omega, by unfold ELFProgramSegment.stop; omega⟩
      rw [foldl_loadBytes_of_not_covers ds htl fun x hx hx' => hp.1 x hx _ ⟨hcov, hx'⟩]
      have hsub : (s.paddr + BitVec.ofNat 32 i - s.paddr).toNat = i := by
        rw [toNat_sub, haddr]
        have := s.paddr.isLt
        have := s.sizeMem.isLt
        omega
      unfold loadBytes PhysMem.write
      simp only [lt_def, hsub, hi, if_true]
    · exact foldl_loadBytes ds htl hp.2 s hs i hi

end Memory

section Highest

theorem le_foldl_nextHighest : ∀ (ds : List ELFProgramSegment) (h : BitVec 32),
    h.toNat ≤ (ds.foldl nextHighest h).toNat ∧
    ∀ s ∈ ds, s.stop < 2 ^ 32 → s.stop ≤ (ds.foldl nextHighest h).toNat
  | [], h => ⟨le_rfl, fun s hs => absurd hs List.not_mem_nil⟩
  | d :: ds, h => by
    obtain ⟨ih1, ih2⟩ := le_foldl_nextHighest ds (nextHighest h d)
    have hnext : h.toNat ≤ (nextHighest h d).toNat ∧
        (d.stop < 2 ^ 32 → d.stop ≤ (nextHighest h d).toNat) := by
      unfold nextHighest ELFProgramSegment.stop
      split_ifs with hlt <;> rw [lt_def, toNat_add] at hlt
      · rw [toNat_add]
        omega
      · omega
    rw [List.foldl_cons]
    refine ⟨hnext.1.trans ih1, fun s hs hstop => ?_⟩
    rcases List.mem_cons.1 hs with rfl | hs
    · exact (hnext.2 hstop).trans ih1
    · exact ih2 s hs hstop

theorem foldl_nextHighest_eq : ∀ (ds : List ELFProgramSegment) {h : BitVec 32},
    (∀ s ∈ ds, s.stop ≤ 2 ^ 32) → ds.foldl nextHighest h = h ∨
      ∃ s ∈ ds, s.stop < 2 ^ 32 ∧ s.stop = (ds.foldl nextHighest h).toNat
  | [], _, _ => .inl rfl
  | d :: ds, h, hds => by
    have hd : d.paddr.toNat + d.sizeMem.toNat ≤ 2 ^ 32 := hds d List.mem_cons_self
    rw [List.foldl_cons]
    rcases foldl_nextHighest_eq ds (h := nextHighest h d)
      fun s hs => hds s (List.mem_cons_of_mem _ hs) with heq | ⟨s, hs, h1, h2⟩
    · rw [heq]
      unfold nextHighest
      split_ifs with hlt
      · right
        rw [lt_def, toNat_add] at hlt
        refine ⟨d, List.mem_cons_self, ?_⟩
        rw [toNat_add]
        unfold ELFProgramSegment.stop
        omega
      · exact .inl rfl
    · exact .inr ⟨s, List.mem_cons_of_mem _ hs, h1, h2⟩

end Highest

section Pool

variable {h : HighMem} {hi lo : ℕ} {n start : BitVec 32}

structure Within (lo hi : ℕ) (h : HighMem) : Prop where
  aligned : h.start.toNat % frameSize = 0
  lo : lo ≤ h.start.toNat
  hi : h.brk.toNat / frameSize * frameSize ≤ hi
  top : h.nPages ≠ 0 → h.top ≤ h.brk.toNat

theorem allocHighBreakAt_within (stop : BitVec 32) (hs : start.toNat % frameSize = 0)
    (hal : h.start.toNat % frameSize = 0) :
    Within (max start.toNat h.start.toNat) (h.brk.toNat / frameSize * frameSize)
      (allocHighBreakAt start stop h) := by
  unfold allocHighBreakAt
  simp only []
  obtain ⟨start', hstart'⟩ : ∃ x, x = if h.start < start then start else h.start := ⟨_, rfl⟩
  obtain ⟨brk', hbrk'⟩ : ∃ x, x = if 0 < stop ∧ stop < h.brk then stop else h.brk := ⟨_, rfl⟩
  rw [← hstart', ← hbrk']
  have hmax : start'.toNat = max start.toNat h.start.toNat := by
    rw [hstart']
    split_ifs with hlt <;> rw [lt_def] at hlt <;> omega
  have hle : brk'.toNat ≤ h.brk.toNat := by
    rw [hbrk']
    split_ifs with hlt
    · exact (lt_def.1 hlt.2).le
    · exact le_rfl
  refine ⟨?_, hmax.ge, Nat.mul_le_mul_right _ (Nat.div_le_div_right hle), fun hne => ?_⟩
  · show start'.toNat % frameSize = 0
    rw [hmax]
    rcases max_choice start.toNat h.start.toNat with hm | hm <;> rw [hm] <;> assumption
  · by_cases hlt : start' < brk'
    · simp only [HighMem.top, if_pos hlt, HighMem.pages_toNat]
      rw [lt_def] at hlt
      have hsub : (brk' - start').toNat = brk'.toNat - start'.toNat := by
        rw [toNat_sub]
        omega
      have := Nat.div_mul_le_self (brk'.toNat - start'.toNat) frameSize
      rw [hsub]
      omega
    · simp [if_neg hlt] at hne

theorem Within.mono {lo' hi' : ℕ} (hW : Within lo hi h) (hlo : lo' ≤ lo) (hhi : hi ≤ hi') :
    Within lo' hi' h :=
  ⟨hW.aligned, hlo.trans hW.lo, hW.hi.trans hhi, hW.top⟩

theorem Within.take (hW : Within lo hi h) (hn : n ≠ 0) (hle : n.toNat ≤ h.nPages.toNat) :
    h.start.toNat + n.toNat * frameSize ≤ hi ∧
    Within lo hi ⟨h.start + n * 0x1000#32, h.brk, h.nPages - n⟩ := by
  have hne : h.nPages ≠ 0 := fun h0 => by
    rw [h0] at hle
    exact hn (eq_of_toNat_eq (Nat.le_zero.1 hle))
  have htop := hW.top hne
  have hal := hW.aligned
  have hhi := hW.hi
  have hlo := hW.lo
  have hbrk := h.brk.isLt
  simp only [HighMem.top, frameSize] at htop hal hhi ⊢
  have hfit : h.start.toNat + n.toNat * 4096 ≤ hi := by
    have hq : (h.start.toNat / 4096 + n.toNat) * 4096 ≤ h.brk.toNat := by
      clear hhi
      omega
    calc h.start.toNat + n.toNat * 4096 = (h.start.toNat / 4096 + n.toNat) * 4096 := by omega
      _ ≤ h.brk.toNat / 4096 * 4096 :=
        Nat.mul_le_mul_right _ ((Nat.le_div_iff_mul_le (by omega)).2 hq)
      _ ≤ hi := hhi
  have hmul : (n * 0x1000#32).toNat = n.toNat * 4096 := by
    rw [toNat_mul, toNat_ofNat]
    simp only [Nat.reducePow, Nat.reduceMod]
    omega
  have hstart : (h.start + n * 0x1000#32).toNat = h.start.toNat + n.toNat * 4096 := by
    rw [toNat_add, hmul]
    omega
  have hrem : (h.nPages - n).toNat = h.nPages.toNat - n.toNat := by
    rw [toNat_sub]
    omega
  refine ⟨hfit, ?_, ?_, hW.hi, fun _ => ?_⟩
  · show (h.start + n * 0x1000#32).toNat % 4096 = 0
    rw [hstart]
    omega
  · show lo ≤ (h.start + n * 0x1000#32).toNat
    rw [hstart]
    omega
  · show (h.start + n * 0x1000#32).toNat + (h.nPages - n).toNat * 4096 ≤ h.brk.toNat
    rw [hstart, hrem]
    omega

theorem Within.block (hW : Within lo hi h) (hp : (allocateHighMemory n h).1 ≠ 0) :
    lo ≤ (allocateHighMemory n h).1.toNat ∧ frameSize ≤ (allocateHighMemory n h).1.toNat ∧
    (allocateHighMemory n h).1.toNat + n.toNat * frameSize ≤ hi := by
  obtain ⟨hn, hle, heq⟩ := allocateHighMemory_some hp
  rw [heq] at hp ⊢
  have hpos : h.start.toNat ≠ 0 := fun h0 => hp (eq_of_toNat_eq h0)
  have hal := hW.aligned
  refine ⟨hW.lo, ?_, (hW.take hn hle).1⟩
  simp only [frameSize] at hal ⊢
  omega

theorem Within.call (hW : Within lo hi r.mem) (hc : c.Aligned) : Within lo hi (r.call c).mem := by
  cases c with
  | breakAt start stop =>
    have h := allocHighBreakAt_within stop hc hW.aligned
    exact h.mono (hW.lo.trans (le_max_right _ _)) hW.hi
  | allocate n =>
    show Within lo hi (allocateHighMemory n r.mem).2
    unfold allocateHighMemory
    split_ifs with h1 h2
    · exact hW
    · exact hW
    · exact (hW.take h1 (not_lt.1 h2)).2

theorem Within.calls : ∀ (cs : List HighCall) {r : HighRun}, Within lo hi r.mem →
    (∀ c ∈ cs, c.Aligned) → Within lo hi (cs.foldl HighRun.call r).mem
  | [], _, hW, _ => hW
  | c :: cs, _, hW, hcs =>
    calls cs (hW.call (hcs c List.mem_cons_self)) fun d hd => hcs d (List.mem_cons_of_mem _ hd)

theorem allocHighBreakAt_reaches {a : ℕ} (hs : start.toNat % frameSize = 0)
    (hal : h.start.toNat % frameSize = 0) (hstart : start.toNat ≤ a) (hlo : h.start.toNat ≤ a)
    (hpage : frameSize ≤ a) (hhi : a < h.brk.toNat / frameSize * frameSize) :
    ∃ k : BitVec 32, ∃ h', h' = (allocateHighMemory k (allocHighBreakAt start 0 h)).2 ∧
      (allocateHighMemory 1 h').1 ≠ 0 ∧ (allocateHighMemory 1 h').1.toNat ≤ a ∧
      a < (allocateHighMemory 1 h').1.toNat + frameSize := by
  have hbrk := h.brk.isLt
  obtain ⟨S, hS⟩ : ∃ x, x = if h.start < start then start else h.start := ⟨_, rfl⟩
  have hSle : S.toNat ≤ a := by rw [hS]; split_ifs <;> assumption
  have hSal : S.toNat % frameSize = 0 := by rw [hS]; split_ifs <;> assumption
  simp only [frameSize] at hSal hpage hhi ⊢
  have hlt : S < h.brk := by
    rw [lt_def]
    omega
  have hpool : allocHighBreakAt start 0 h = ⟨S, h.brk, HighMem.pages S h.brk⟩ := by
    have hzero : ¬ ((0 : BitVec 32) < 0 ∧ 0 < h.brk) := fun hx => BitVec.lt_irrefl _ hx.1
    unfold allocHighBreakAt
    simp only [← hS, if_neg hzero, if_pos hlt]
  have hpages : (HighMem.pages S h.brk).toNat = (h.brk.toNat - S.toNat) / 4096 := by
    rw [HighMem.pages_toNat, toNat_sub]
    rw [lt_def] at hlt
    simp only [frameSize]
    omega
  obtain ⟨k, hk⟩ : ∃ k : BitVec 32, k.toNat = (a - S.toNat) / 4096 :=
    ⟨BitVec.ofNat 32 ((a - S.toNat) / 4096), by rw [toNat_ofNat]; omega⟩
  have hmul : (k * 0x1000#32).toNat = k.toNat * 4096 := by
    rw [toNat_mul, toNat_ofNat]
    simp only [Nat.reducePow, Nat.reduceMod]
    omega
  have hfrom : (S + k * 0x1000#32).toNat = S.toNat + k.toNat * 4096 := by
    rw [toNat_add, hmul]
    omega
  have hrest : (HighMem.pages S h.brk - k).toNat = (h.brk.toNat - S.toNat) / 4096 - k.toNat := by
    rw [toNat_sub, hpages]
    omega
  have hmem : (allocateHighMemory k ⟨S, h.brk, HighMem.pages S h.brk⟩).2
      = ⟨S + k * 0x1000#32, h.brk, HighMem.pages S h.brk - k⟩ := by
    unfold allocateHighMemory
    split_ifs with h1 h2
    · simp [h1]
    · rw [lt_def, hpages] at h2
      omega
    · rfl
  refine ⟨k, _, rfl, ?_⟩
  rw [hpool, hmem]
  have hone : (allocateHighMemory 1
      ⟨S + k * 0x1000#32, h.brk, HighMem.pages S h.brk - k⟩).1 = S + k * 0x1000#32 := by
    unfold allocateHighMemory
    split_ifs with h1 h2
    · exact absurd h1 (by decide)
    · rw [lt_def, hrest, show (1 : BitVec 32).toNat = 1 from rfl] at h2
      omega
    · rfl
  rw [hone]
  refine ⟨fun h0 => ?_, by omega, by omega⟩
  rw [h0, show (0 : BitVec 32).toNat = 0 from rfl] at hfrom
  omega

end Pool

section Aligned

theorem BestRegion.consider_aligned {b : BestRegion} (hb : b.start.toNat % frameSize = 0)
    (r : MemoryRegionE820) : (b.consider r).start.toNat % frameSize = 0 := by
  unfold BestRegion.consider
  simp only []
  split_ifs
  · exact hb
  · exact hb
  · exact hb
  · exact hb
  · exact pageAlign_aligned _
  · exact hb

theorem BestRegion.foldl_aligned : ∀ (rs : List MemoryRegionE820) {b : BestRegion},
    b.start.toNat % frameSize = 0 →
    (rs.foldl BestRegion.consider b).start.toNat % frameSize = 0
  | [], _, hb => hb
  | r :: rs, _, hb => foldl_aligned rs (BestRegion.consider_aligned hb r)

theorem HighRun.call_aligned (hr : r.mem.start.toNat % frameSize = 0)
    (hc : c.Aligned) : (r.call c).mem.start.toNat % frameSize = 0 := by
  cases c with
  | breakAt start stop => exact (allocHighBreakAt_within stop hc hr).aligned
  | allocate n =>
    show (allocateHighMemory n r.mem).2.start.toNat % frameSize = 0
    unfold allocateHighMemory
    split_ifs
    · exact hr
    · exact hr
    · show (r.mem.start + n * 0x1000#32).toNat % frameSize = 0
      rw [toNat_add, toNat_mul, toNat_ofNat]
      simp only [frameSize] at hr ⊢
      omega

theorem HighRun.foldl_aligned : ∀ (cs : List HighCall) {r : HighRun},
    r.mem.start.toNat % frameSize = 0 → (∀ c ∈ cs, c.Aligned) →
    (cs.foldl HighRun.call r).mem.start.toNat % frameSize = 0
  | [], _, hr, _ => hr
  | c :: cs, _, hr, hcs =>
    foldl_aligned cs (HighRun.call_aligned hr (hcs c List.mem_cons_self)) fun d hd =>
      hcs d (List.mem_cons_of_mem _ hd)

theorem HighRun.calls_aligned (table : List MemoryRegionE820) {cs : List HighCall}
    (hcs : ∀ c ∈ cs, c.Aligned) : (HighRun.calls table cs).mem.start.toNat % frameSize = 0 := by
  refine HighRun.foldl_aligned cs ?_ hcs
  unfold allocHighInit
  simp only []
  split_ifs
  · rfl
  · exact BestRegion.foldl_aligned _ rfl

end Aligned

section Exact

variable {content : Mem} {h : HighMem}

/-- Every loadable segment holds its bytes of the file, and zeros behind them. -/
def SegmentsLoaded (content : Mem) (m : PhysMem) : Prop :=
  ∀ s ∈ loadable content, ∀ i < s.sizeMem.toNat, m (s.paddr + BitVec.ofNat 32 i)
    = if i < s.size.toNat then content (s.offset.toNat + i) else 0

/-- No block that is returned after any further calls overlaps a segment. -/
def Protected (ds : List ELFProgramSegment) (h : HighMem) : Prop :=
  ∀ cs : List HighCall, (∀ c ∈ cs, c.Aligned) → ∀ (n p : BitVec 32),
    (allocateHighMemory n (cs.foldl HighRun.call ⟨h, [], []⟩).mem).1 = p → p ≠ 0 →
    ∀ s ∈ ds, ∀ a, s.Covers a → ¬ (p.toNat ≤ a ∧ a < HighBlock.stop ⟨p, n⟩)

/-- A byte of the pool's pages, those at the null pointer apart. -/
def HighMem.Offers (h : HighMem) (a : ℕ) : Prop :=
  h.start.toNat ≤ a ∧ frameSize ≤ a ∧ a < h.brk.toNat / frameSize * frameSize

/-- Where a segment meets the pool, none ends inside the last page before 4 GiB, and the byte is in
or below the last page of one that does not end at 4 GiB. -/
def Guarded (ds : List ELFProgramSegment) (h : HighMem) : Prop :=
  ∀ s ∈ ds, ∀ a, s.Covers a → h.Offers a →
    (∀ t ∈ ds, t.stop ≤ 0xFFFFF000 ∨ t.stop = 2 ^ 32) ∧
    ∃ t ∈ ds, t.stop < 2 ^ 32 ∧ a < (t.stop + 0xFFF) / frameSize * frameSize

theorem pageAlign_wraps {x : BitVec 32} (hx : 0xFFFFF000 < x.toNat) : pageAlign x = 0 := by
  have := x.isLt
  have hsum : (x + 0xFFF#32) / 0x1000#32 = 0 := by
    refine eq_of_toNat_eq ?_
    rw [toNat_udiv, toNat_add]
    show (x.toNat + 4095) % 2 ^ 32 / 4096 = 0
    omega
  unfold pageAlign
  rw [hsum]
  rfl

theorem guarded_protected (hds : ∀ s ∈ ds, s.stop ≤ 2 ^ 32) (hal : h.start.toNat % frameSize = 0)
    (hG : Guarded ds h) :
    Protected ds (allocHighBreakAt (pageAlign (ds.foldl nextHighest 0)) 0 h) := by
  intro cs hcs n p hp hne s hs a hcov hblock
  have hW := Within.calls cs
    (r := ⟨allocHighBreakAt (pageAlign (ds.foldl nextHighest 0)) 0 h, [], []⟩)
    (allocHighBreakAt_within 0 (pageAlign_aligned _) hal) hcs
  have hb := hW.block (n := n) (by rw [hp]; exact hne)
  rw [hp] at hb
  obtain ⟨hlo, hpage, hhi⟩ := hb
  simp only [HighBlock.stop] at hblock
  obtain ⟨hall, t, ht, hstop, hat⟩ := hG s hs a hcov
    ⟨((le_max_right _ _).trans hlo).trans hblock.1, hpage.trans hblock.1, hblock.2.trans_le hhi⟩
  -- the pool now starts behind the pages of `t`
  have htop := (le_foldl_nextHighest ds 0).2 t ht hstop
  have hsmall : (ds.foldl nextHighest 0).toNat ≤ 0xFFFFF000 := by
    rcases foldl_nextHighest_eq ds (h := 0) hds with h0 | ⟨u, hu, hu', heq⟩
    · rw [h0]
      exact Nat.zero_le _
    · rcases hall u hu with hle | heq'
      · omega
      · omega
  have hstart := ((le_max_left _ _).trans hlo).trans hblock.1
  rw [pageAlign_toNat hsmall] at hstart
  simp only [frameSize] at hstart hat
  omega

theorem protected_guarded (hds : ∀ s ∈ ds, s.stop ≤ 2 ^ 32) (hal : h.start.toNat % frameSize = 0)
    (hP : Protected ds (allocHighBreakAt (pageAlign (ds.foldl nextHighest 0)) 0 h)) :
    Guarded ds h := by
  intro s hs a hcov ⟨hlo, hpage, hhi⟩
  have hlt : a < (pageAlign (ds.foldl nextHighest 0)).toNat := by
    by_contra hge
    obtain ⟨k, h', rfl, hne, hle, hlt⟩ := allocHighBreakAt_reaches (pageAlign_aligned _) hal
      (not_lt.1 hge) hlo hpage hhi
    refine hP [.allocate k] (by simp [HighCall.Aligned]) 1 _ rfl hne s hs a hcov ⟨hle, ?_⟩
    show a < _ + 1 * frameSize
    rw [Nat.one_mul]
    exact hlt
  have hsmall : (ds.foldl nextHighest 0).toNat ≤ 0xFFFFF000 := by
    by_contra hbig
    rw [pageAlign_wraps (not_le.1 hbig)] at hlt
    exact absurd hlt (Nat.not_lt_zero _)
  rw [pageAlign_toNat hsmall] at hlt
  refine ⟨fun t ht => ?_, ?_⟩
  · rcases (hds t ht).lt_or_eq with hstop | hstop
    · exact .inl (((le_foldl_nextHighest ds 0).2 t ht hstop).trans hsmall)
    · exact .inr hstop
  · rcases foldl_nextHighest_eq ds (h := 0) hds with h0 | ⟨t, ht, hstop, heq⟩
    · rw [h0] at hlt
      simp [frameSize] at hlt
    · exact ⟨t, ht, hstop, by rwa [heq]⟩

theorem elf_load_exact_iff {content : Mem} {read : FileReader} {file : File}
    (hread : read.Delivers content file)
    (hshape : ∀ s ∈ loadable content, s.stop ≤ 2 ^ 32 ∧ s.size.toNat ≤ s.sizeMem.toNat)
    (hdisj : (loadable content).Pairwise fun s t => ∀ a, ¬ (s.Covers a ∧ t.Covers a))
    (table : List MemoryRegionE820) (before : List HighCall) (hbefore : ∀ c ∈ before, c.Aligned)
    (entry : BitVec 32) (mem : PhysMem) (r : ElfResult)
    (h : readELFToMemory read file entry mem (HighRun.calls table before).mem = some r)
    (hok : r.status = .ok) :
    (SegmentsLoaded content r.mem ∧ Protected (loadable content) r.high) ↔
      Guarded (loadable content) (HighRun.calls table before).mem := by
  obtain ⟨-, hmem, hhigh⟩ := readELFToMemory_ok hread h hok
  have hstop : ∀ s ∈ loadable content, s.stop ≤ 2 ^ 32 := fun s hs => (hshape s hs).1
  have hal := HighRun.calls_aligned table hbefore
  rw [hmem, hhigh]
  refine ⟨fun hx => protected_guarded hstop hal hx.2, fun hG => ⟨?_, ?_⟩⟩
  · exact foldl_loadBytes _ hshape hdisj
  · exact guarded_protected hstop hal hG

def FileReader.ofContent (content : Mem) : FileReader := fun f n =>
  some (n, { f with cursor := f.cursor + n }, fun i => content (f.cursor + i))

theorem FileReader.ofContent_delivers (content : Mem) (file : File) :
    (FileReader.ofContent content).Delivers content file := by
  rintro c e n r h
  obtain rfl := some.inj h
  exact ⟨rfl, fun i _ => rfl, c + n, e, rfl⟩

def bytes16 (x : BitVec 16) : List (BitVec 8) := [x.setWidth 8, (x >>> 8).setWidth 8]

def bytes32 (x : BitVec 32) : List (BitVec 8) :=
  [x.setWidth 8, (x >>> 8).setWidth 8, (x >>> 16).setWidth 8, (x >>> 24).setWidth 8]

def ELFProgramSegment.toBytes (s : ELFProgramSegment) : List (BitVec 8) :=
  bytes32 s.type ++ bytes32 s.offset ++ bytes32 s.vaddr ++ bytes32 s.paddr ++ bytes32 s.size ++
    bytes32 s.sizeMem ++ bytes32 s.flags ++ bytes32 0x1000

def elfImage (entry : BitVec 32) (segs : List ELFProgramSegment) : Mem := fun i =>
  ([0x7F, 0x45, 0x4C, 0x46, 1, 1, 1, 0] ++ List.replicate 8 0 ++ bytes16 2 ++ bytes16 3 ++
    bytes32 1 ++ bytes32 entry ++ bytes32 52 ++ bytes32 0 ++ bytes32 0 ++ bytes16 52 ++
    bytes16 32 ++ bytes16 (BitVec.ofNat 16 segs.length) ++ bytes16 0 ++ bytes16 0 ++ bytes16 0 ++
    segs.flatMap ELFProgramSegment.toBytes).getD i 0

/-- A kernel of one page, linked 3 GiB above where it is loaded. -/
def kernelSegment : ELFProgramSegment :=
  ⟨segmentLoad, 0, 0xC0100000, 0x100000, 52, 0x1000, 5⟩

def lastPageSegment : ELFProgramSegment :=
  ⟨segmentLoad, 0, 0xFFFFF000, 0xFFFFF000, 52, 0x800, 4⟩

theorem loadable_kernel : loadable (elfImage 0xC0100010 [kernelSegment]) = [kernelSegment] := by
  decide

theorem loadable_lastPage : loadable (elfImage 0xC0100010 [kernelSegment, lastPageSegment])
    = [kernelSegment, lastPageSegment] := by
  decide

def kernelFile : File := ⟨.empty, 0, 0, false⟩

theorem elf_load_exact_iff_kernel : ∃ r,
    readELFToMemory (.ofContent (elfImage 0xC0100010 [kernelSegment])) kernelFile 0
      (fun _ => 0xFF) (HighRun.calls table3GiB [.allocate 2]).mem = some r ∧
    SegmentsLoaded (elfImage 0xC0100010 [kernelSegment]) r.mem ∧
    Protected [kernelSegment] r.high := by
  obtain ⟨r, hr, hok⟩ := map_eq_some_iff.1 (show (readELFToMemory
    (.ofContent (elfImage 0xC0100010 [kernelSegment])) kernelFile 0 (fun _ => 0xFF)
    (HighRun.calls table3GiB [.allocate 2]).mem).map (·.status) = some .ok by decide)
  have h := elf_load_exact_iff (FileReader.ofContent_delivers _ kernelFile)
    (by rw [loadable_kernel]; decide) (by rw [loadable_kernel]; exact List.pairwise_singleton _ _)
    table3GiB [.allocate 2] (by decide) 0 (fun _ => 0xFF) r hr hok
  rw [loadable_kernel] at h
  refine ⟨r, hr, h.2 fun s hs a hcov _ => ?_⟩
  obtain rfl := List.mem_singleton.1 hs
  refine ⟨by decide, _, hs, by decide, hcov.2.trans_le ?_⟩
  decide

/-- The end of the segment in the last page is rounded up to zero, and the kernel's own page is the
first to be given away. -/
theorem not_elf_load_exact : ∃ r,
    readELFToMemory (.ofContent (elfImage 0xC0100010 [kernelSegment, lastPageSegment])) kernelFile
      0 (fun _ => 0xFF) (HighRun.calls table3GiB []).mem = some r ∧ r.status = .ok ∧
    (∀ s ∈ loadable (elfImage 0xC0100010 [kernelSegment, lastPageSegment]),
      s.stop ≤ 2 ^ 32 ∧ s.size.toNat ≤ s.sizeMem.toNat) ∧
    (loadable (elfImage 0xC0100010 [kernelSegment, lastPageSegment])).Pairwise
      (fun s t => ∀ a, ¬ (s.Covers a ∧ t.Covers a)) ∧
    (allocateHighMemory 1 r.high).1 = 0x100000 ∧
    ¬ (SegmentsLoaded (elfImage 0xC0100010 [kernelSegment, lastPageSegment]) r.mem ∧
      Protected (loadable (elfImage 0xC0100010 [kernelSegment, lastPageSegment])) r.high) := by
  obtain ⟨r, hr, hok⟩ := map_eq_some_iff.1 (show (readELFToMemory
    (.ofContent (elfImage 0xC0100010 [kernelSegment, lastPageSegment])) kernelFile 0
    (fun _ => 0xFF) (HighRun.calls table3GiB []).mem).map (fun r => (r.status, r.high))
    = some (.ok, ⟨0x100000, 0xC0000000, 0xBFF00⟩) by decide)
  obtain ⟨hstatus, hhigh⟩ := Prod.mk.inj hok
  rw [loadable_lastPage]
  refine ⟨r, hr, hstatus, by decide, ?_, by rw [hhigh]; decide, fun h => ?_⟩
  · rw [List.pairwise_pair]
    intro a ⟨h₁, h₂⟩
    have h₁' : a < 0x101000 := h₁.2
    have h₂' : 0xFFFFF000 ≤ a := h₂.1
    omega
  · refine h.2 [] (by simp) 1 0x100000 (by rw [hhigh]; decide) (by decide) kernelSegment
      (by decide) 0x100000 ⟨by decide, by decide⟩ ⟨by decide, by decide⟩

end Exact

section Entry

variable {content : Mem}

/-- The last writable segment is shifted as `s` is. Where nothing is writable, `s` is not
shifted. -/
def ShiftedAsWritable (ds : List ELFProgramSegment) (s : ELFProgramSegment) : Prop :=
  match (ds.filter (·.writable)).getLast? with
  | some w => w.vaddr - w.paddr = s.vaddr - s.paddr
  | none => s.vaddr = s.paddr

theorem foldl_nextOffset : ∀ (ds : List ELFProgramSegment) (v : BitVec 32),
    ds.foldl nextOffset v = (ds.filter (·.writable)).getLast?.elim v fun w => w.vaddr - w.paddr
  | [], _ => rfl
  | d :: ds, v => by
    have hset : isSet d.flags elfSegmentExecutable = d.writable := rfl
    rw [List.foldl_cons, foldl_nextOffset ds]
    unfold nextOffset
    rw [hset]
    by_cases hd : d.writable
    · rw [if_pos hd, List.filter_cons_of_pos hd, List.getLast?_cons]
      cases (ds.filter (·.writable)).getLast? <;> rfl
    · rw [if_neg hd, List.filter_cons_of_neg hd]

theorem elf_entry_iff {content : Mem} {read : FileReader} {file : File}
    (hread : read.Delivers content file) (entry : BitVec 32) (mem : PhysMem) (high : HighMem)
    (r : ElfResult) (h : readELFToMemory read file entry mem high = some r) (hok : r.status = .ok)
    (s : ELFProgramSegment) (_hs : (loadable content).filter (·.executable) = [s])
    (_hlo : s.vaddr.toNat ≤ (elfHeader content).entry.toNat)
    (_hhi : (elfHeader content).entry.toNat < s.vaddr.toNat + s.sizeMem.toNat) :
    r.entry = (elfHeader content).entry - s.vaddr + s.paddr ↔
      ShiftedAsWritable (loadable content) s := by
  obtain ⟨hentry, -, -⟩ := readELFToMemory_ok hread h hok
  have hback : (elfHeader content).entry - s.vaddr + s.paddr
      = (elfHeader content).entry - (s.vaddr - s.paddr) := by ring
  rw [hentry, foldl_nextOffset, hback, sub_right_inj]
  unfold ShiftedAsWritable
  cases ((loadable content).filter (·.writable)).getLast? with
  | some w => exact Iff.rfl
  | none => exact eq_comm.trans sub_eq_zero

def writableKernelSegment : ELFProgramSegment := { kernelSegment with flags := 7 }

theorem elf_entry_iff_writable : ∃ r,
    readELFToMemory (.ofContent (elfImage 0xC0100010 [writableKernelSegment])) kernelFile 0
      (fun _ => 0xFF) (HighRun.calls table3GiB []).mem = some r ∧ r.entry = 0x100010 := by
  obtain ⟨r, hr, hok⟩ := map_eq_some_iff.1 (show (readELFToMemory
    (.ofContent (elfImage 0xC0100010 [writableKernelSegment])) kernelFile 0 (fun _ => 0xFF)
    (HighRun.calls table3GiB []).mem).map (·.status) = some .ok by decide)
  exact ⟨r, hr, (elf_entry_iff (FileReader.ofContent_delivers _ kernelFile) 0 _ _ r hr hok
    writableKernelSegment (by decide) (by decide) (by decide)).2 rfl⟩

/-- The segment that is executable but not writable does not shift the entry: the loader would
jump to the virtual address. -/
theorem not_elf_entry : ∃ r,
    readELFToMemory (.ofContent (elfImage 0xC0100010 [kernelSegment])) kernelFile 0
      (fun _ => 0xFF) (HighRun.calls table3GiB []).mem = some r ∧ r.status = .ok ∧
    (loadable (elfImage 0xC0100010 [kernelSegment])).filter (·.executable) = [kernelSegment] ∧
    r.entry = 0xC0100010 ∧
    0xC0100010#32 - kernelSegment.vaddr + kernelSegment.paddr = 0x100010 := by
  obtain ⟨r, hr, hok⟩ := map_eq_some_iff.1 (show (readELFToMemory
    (.ofContent (elfImage 0xC0100010 [kernelSegment])) kernelFile 0 (fun _ => 0xFF)
    (HighRun.calls table3GiB []).mem).map (fun r => (r.status, r.entry))
    = some (.ok, 0xC0100010) by decide)
  obtain ⟨hstatus, hentry⟩ := Prod.mk.inj hok
  exact ⟨r, hr, hstatus, by decide, hentry, by decide⟩

end Entry

end DragonWare
