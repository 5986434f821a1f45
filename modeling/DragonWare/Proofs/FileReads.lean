import DragonWare.Proofs.Fat32

/-!
# Reads at the end of a file

The FAT32 driver reads on to the end of the last cluster, and takes the first cluster of an empty
file for one. The ISO9660 driver subtracts the cursor from the size without looking which is larger.
The other reads are exact.
-/

namespace DragonWare

open FileCopy Memory Nat Option

/-- A driver's read delivers `m` bytes of `src` from `c` on and nothing else. The caller takes the
returned `int` for a `Size`. -/
def Delivers (res : Option (ℤ × File × Mem)) (src : Mem) (c m : ℕ) (out : Mem) : Prop :=
  ∃ r f' out', res = some (r, f', out') ∧ r % 2 ^ 32 = m ∧ (∀ i < m, out' i = src (c + i)) ∧
    ∀ i, m ≤ i → out' i = out i

theorem returnInt_emod {m : ℕ} (hm : m < 2 ^ 32) : returnInt m % 2 ^ 32 = m := by
  unfold returnInt
  rw [BitVec.toInt_eq_toNat_cond, BitVec.toNat_ofNat, mod_eq_of_lt hm]
  split_ifs <;> omega

theorem delivers_blit {src out : Mem} {c t m : ℕ} (f' : File) (ht : t < 2 ^ 32) :
    Delivers (some (returnInt t, f', blit out 0 t fun i => src (c + i))) src c m out ↔ t = m := by
  constructor
  · rintro ⟨r, f'', out', h, hr, -⟩
    simp only [some.injEq, Prod.mk.injEq] at h
    rw [← h.1, returnInt_emod ht] at hr
    exact_mod_cast hr
  · rintro rfl
    refine ⟨_, _, _, rfl, returnInt_emod ht, fun i hi => ?_, fun i hi => ?_⟩
    · simp [blit, hi]
    · simp [blit, Nat.not_lt.2 hi]

variable {res : Option (ℤ × File × Mem)}

theorem not_delivers_zero {src out : Mem} {c : ℕ}
    (h : ∀ r f' out', res = some (r, f', out') → r % 2 ^ 32 ≠ 0) : ¬ Delivers res src c 0 out := by
  rintro ⟨r, f', out', hres, hr, -⟩
  exact h r f' out' hres (by exact_mod_cast hr)

variable {n : ℕ} {f : File} {cs : List ℕ} {p : Partition} {st : FileCopy}

section Fat32

theorem readSectors_bytesRead (disks : Disks) (p : Partition) (lba : BitVec 32) (n : ℕ) :
    ∀ (k s offset : ℕ) (st : FileCopy),
      st.bytesRead ≤ (readSectors disks p lba n k s offset st).2.bytesRead ∧
      (st.bytesRead ≤ n → (readSectors disks p lba n k s offset st).2.bytesRead ≤ n)
  | 0, _, _, _ => ⟨le_rfl, id⟩
  | k + 1, s, offset, st => by
    unfold readSectors
    simp only []
    split_ifs with hn
    · exact ⟨le_rfl, id⟩
    · have ih := readSectors_bytesRead disks p lba n k (s + 1) 0
        (st.append (n - st.bytesRead) fun i =>
          (disks p.driveIndex (lba + BitVec.ofNat 32 s).toNat).bytes (offset + i))
      simp only [append] at ih ⊢
      exact ⟨by omega, fun h => ih.2 (by omega)⟩
    · have ih := readSectors_bytesRead disks p lba n k (s + 1) 0
        (st.append (sectorSize - offset) fun i =>
          (disks p.driveIndex (lba + BitVec.ofNat 32 s).toNat).bytes (offset + i))
      simp only [append] at ih ⊢
      exact ⟨by omega, fun h => ih.2 (by omega)⟩
    · exact ⟨le_rfl, id⟩

theorem readClusters_bytesRead (disks : Disks) (p : Partition) (bpb : BIOSParameterBlock) (n : ℕ) :
    ∀ (fuel : ℕ) (c : BitVec 32) (st : FileCopy),
      st.bytesRead ≤ (readClusters disks p bpb n fuel c st).2.bytesRead ∧
      (st.bytesRead ≤ n → (readClusters disks p bpb n fuel c st).2.bytesRead ≤ n)
  | 0, _, _ => ⟨le_rfl, id⟩
  | fuel + 1, c, st => by
    unfold readClusters
    simp only []
    split_ifs
    · have hs := readSectors_bytesRead disks p (clusterToLBA p bpb c) n
        (bpb.sectorsPerCluster.toNat - st.cursor % bpb.bytesPerCluster / sectorSize)
        (st.cursor % bpb.bytesPerCluster / sectorSize)
        (st.cursor % bpb.bytesPerCluster % sectorSize) st
      have ih := readClusters_bytesRead disks p bpb n fuel
        (readFAT32Entry disks p bpb c) (readSectors disks p (clusterToLBA p bpb c) n
          (bpb.sectorsPerCluster.toNat - st.cursor % bpb.bytesPerCluster / sectorSize)
          (st.cursor % bpb.bytesPerCluster / sectorSize)
          (st.cursor % bpb.bytesPerCluster % sectorSize) st).2
      exact ⟨hs.1.trans ih.1, fun h => ih.2 (hs.2 h)⟩
    · exact readSectors_bytesRead _ _ _ _ _ _ _ _
    · exact ⟨le_rfl, id⟩

theorem readSectors_pos {disks : Disks} {lba : BitVec 32} {k s offset : ℕ} (hn : st.bytesRead < n)
    (ho : offset < sectorSize) (hok : (readSectors disks p lba n (k + 1) s offset st).1 = true) :
    st.bytesRead < (readSectors disks p lba n (k + 1) s offset st).2.bytesRead := by
  unfold readSectors at hok ⊢
  simp only [hn, if_true] at hok ⊢
  split_ifs at hok ⊢
  · exact lt_of_lt_of_le (by simp only [append]; omega)
      (readSectors_bytesRead _ _ _ _ _ _ _ _).1
  · exact lt_of_lt_of_le (by simp only [append]; omega)
      (readSectors_bytesRead _ _ _ _ _ _ _ _).1

theorem readClusters_pos {disks : Disks} {bpb : BIOSParameterBlock} {fuel : ℕ} {c : BitVec 32}
    (hs : 0 < bpb.bytesPerCluster) (hn : st.bytesRead < n) (hc : c < fat32EOF)
    (hok : (readClusters disks p bpb n (fuel + 1) c st).1 = true) :
    st.bytesRead < (readClusters disks p bpb n (fuel + 1) c st).2.bytesRead := by
  obtain ⟨q, hq⟩ : ∃ q, q = st.cursor % bpb.bytesPerCluster := ⟨_, rfl⟩
  have hql : q / sectorSize < bpb.sectorsPerCluster.toNat :=
    (Nat.div_lt_iff_lt_mul (by decide)).2 (hq ▸ mod_lt _ hs)
  obtain ⟨k, hk⟩ : ∃ k, bpb.sectorsPerCluster.toNat - q / sectorSize = k + 1 :=
    Nat.exists_eq_add_of_le' (by omega)
  unfold readClusters at hok ⊢
  rw [if_pos ⟨hn, hc⟩] at hok ⊢
  simp only [← hq, hk] at hok ⊢
  by_cases h1 : (readSectors disks p (clusterToLBA p bpb c) n (k + 1) (q / sectorSize)
      (q % sectorSize) st).1 = true
  · rw [if_pos h1]
    exact lt_of_lt_of_le (readSectors_pos hn (mod_lt _ (by decide)) h1)
      (readClusters_bytesRead _ _ _ _ _ _ _).1
  · rw [if_neg h1] at hok
    exact absurd hok h1

variable {data : FAT32FileData}

namespace FatVolume

/-- A cluster has a power of two of sectors, and the table's first entry, which belongs to no
cluster, is an end mark. -/
structure WellFormed (V : FatVolume) : Prop where
  cluster : ∃ k, V.bpb.sectorsPerCluster.toNat = 2 ^ k
  entry : 0x0FFFFFF8 ≤ V.fatEntry 0
  inside : V.fatAddr + 4 ≤ V.stop * sectorSize

/-- A file of as many clusters as its size takes. -/
structure HoldsFile (V : FatVolume) (first size : ℕ) (cs : List ℕ) : Prop where
  chain : cs ≠ [] → V.Chain first cs
  empty : cs = [] → first = 0
  inside : V.Inside cs
  long : size ≤ cs.length * V.clusterSize
  tight : cs.length * V.clusterSize < size + V.clusterSize

/-- Nothing is read, or nothing behind the end, or the file fills its clusters, or the cursor is
behind the clusters the driver finds. -/
def StopsAt (V : FatVolume) (cs : List ℕ) (size c n : ℕ) : Prop :=
  n = 0 ∨ c + n ≤ size ∨ (0 < size ∧ cs.length * V.clusterSize = size) ∨
    max 1 cs.length * V.clusterSize ≤ c

variable {V : FatVolume} {disks : Disks}

theorem WellFormed.clusterSize_pos (hW : V.WellFormed) (hP : V.Plain) : 0 < V.clusterSize := by
  obtain ⟨k, hk⟩ := hW.cluster
  rw [clusterSize, hP.sector, hk]
  exact Nat.mul_pos (Nat.two_pow_pos k) (by decide)

theorem WellFormed.clusterSize_dvd (hW : V.WellFormed) (hP : V.Plain) : V.clusterSize ∣ 2 ^ 32 := by
  obtain ⟨k, hk⟩ := hW.cluster
  have hlt := V.bpb.sectorsPerCluster.isLt
  have hk8 : k < 8 := by
    rw [hk] at hlt
    exact (Nat.pow_lt_pow_iff_right (by decide)).1 hlt
  rw [clusterSize, hP.sector, hk, sectorSize, show 512 = 2 ^ 9 from rfl, ← Nat.pow_add]
  exact Nat.pow_dvd_pow 2 (by omega)

theorem HoldsFile.le_four_gib (hW : V.WellFormed) (hP : V.Plain) {first size : ℕ}
    (hf : V.HoldsFile first size cs) (hsize : size < 2 ^ 32) :
    cs.length * V.clusterSize ≤ 2 ^ 32 := by
  obtain ⟨d, hd⟩ := hW.clusterSize_dvd hP
  have ht := hf.tight
  by_contra h
  have h1 : d < cs.length := by
    rw [hd, Nat.mul_comm] at h
    exact Nat.lt_of_mul_lt_mul_left (not_le.1 h)
  have h2 := Nat.mul_le_mul_right V.clusterSize h1
  rw [succ_mul, Nat.mul_comm d, ← hd] at h2
  omega

theorem HoldsFile.delivers_iff (hV : V.Readable disks) (hP : V.Plain) (hW : V.WellFormed)
    (hpart : data.part = V.part) (hfile : V.HoldsFile data.firstCluster.toNat f.filesize cs)
    (hsize : f.filesize < 2 ^ 32) (hc : f.cursor < 2 ^ 32) (hn : n < 2 ^ 32) (out : Mem)
    (hcs : cs ≠ []) :
    Delivers (readFileFAT32 disks data f n out) (V.chainByte cs) f.cursor
      (min n (f.filesize - f.cursor)) out ↔ V.StopsAt cs f.filesize f.cursor n := by
  have hs := hW.clusterSize_pos hP
  have hle := hfile.le_four_gib hW hP hsize
  have hlong := hfile.long
  have htight := hfile.tight
  have hlen : 1 ≤ cs.length := List.length_pos_iff.2 hcs
  have hone := Nat.mul_le_mul_right V.clusterSize hlen
  rw [Nat.one_mul] at hone
  rw [readFileFAT32_spec hV hP hs hpart hcs (hfile.chain hcs) hfile.inside hc (by omega),
    delivers_blit _ (by omega)]
  unfold StopsAt
  rw [Nat.max_eq_right hlen]
  omega

theorem HoldsFile.delivers_iff_empty (hV : V.Readable disks) (hP : V.Plain) (hW : V.WellFormed)
    (hpart : data.part = V.part) (hfile : V.HoldsFile data.firstCluster.toNat f.filesize [])
    (hn : n < 2 ^ 32) (out : Mem) :
    Delivers (readFileFAT32 disks data f n out) (V.chainByte []) f.cursor
      (min n (f.filesize - f.cursor)) out ↔ V.StopsAt [] f.filesize f.cursor n := by
  have hs := hW.clusterSize_pos hP
  have hsize : f.filesize = 0 := by simpa using hfile.long
  have hfirst : data.firstCluster = 0#32 := BitVec.eq_of_toNat_eq (hfile.empty rfl)
  have hstops : V.StopsAt [] f.filesize f.cursor n ↔ n = 0 ∨ V.clusterSize ≤ f.cursor := by
    simp only [StopsAt, hsize, List.length_nil, Nat.max_zero, Nat.one_mul]
    omega
  rw [hstops, hsize, Nat.zero_sub, Nat.min_zero]
  unfold readFileFAT32
  simp only [hpart, hV.status _ le_rfl hV.start_lt, hV.bpb, ← clusterSize_eq hP, ne_eq,
    not_true_eq_false, if_false, hs.ne', hfirst]
  by_cases hcl : V.clusterSize ≤ f.cursor
  · -- the end mark in the table's first entry stops the search for the cursor
    have hentry := readFAT32Entry_eq hV hP (c := 0) (by decide) (by simpa using hW.inside)
    have hend : fat32EOF ≤ readFAT32Entry disks V.part V.bpb 0#32 :=
      hentry ▸ (eof_le_fatEntry 0).2 hW.entry
    obtain ⟨k, hk⟩ : ∃ k, f.cursor / V.clusterSize = k + 1 :=
      Nat.exists_eq_add_of_le' (Nat.div_pos hcl hs)
    have hskip : skipClusters disks V.part V.bpb (f.cursor / V.clusterSize) 0#32 = none := by
      rw [hk]
      unfold skipClusters
      rw [if_pos hend]
    rw [hskip]
    refine iff_of_true ⟨0, f, out, rfl, rfl, ?_, fun _ _ => rfl⟩ (.inr hcl)
    intro i hi
    omega
  · rw [div_eq_of_lt (not_le.1 hcl)]
    simp only [skipClusters]
    cases n with
    | zero =>
      refine iff_of_true ⟨0, f, out, rfl, rfl, ?_, fun _ _ => rfl⟩ (.inl rfl)
      intro i hi
      omega
    | succ n =>
      refine iff_of_false (not_delivers_zero ?_) (by omega)
      intro r f' out' hres
      simp only [some.injEq, Prod.mk.injEq] at hres
      rw [← hres.1]
      have hub := (readClusters_bytesRead disks V.part V.bpb (n + 1) (n + 1)
        0#32 ⟨f.cursor, 0, out⟩).2 (Nat.zero_le _)
      split_ifs with hok
      · rw [returnInt_emod (by omega)]
        have hpos := readClusters_pos (clusterSize_eq hP ▸ hs) (succ_pos n) (by decide) hok
        exact_mod_cast hpos.ne'
      · decide

end FatVolume

theorem FatVolume.HoldsFile.reads_iff {V : FatVolume} {disks : Disks} (hV : V.Readable disks)
    (hP : V.Plain) (hW : V.WellFormed) (hpart : data.part = V.part)
    (hfile : V.HoldsFile data.firstCluster.toNat f.filesize cs) (hsize : f.filesize < 2 ^ 32)
    (hc : f.cursor < 2 ^ 32) (hn : n < 2 ^ 32) (out : Mem) :
    Delivers (readFileFAT32 disks data f n out) (V.chainByte cs) f.cursor
      (min n (f.filesize - f.cursor)) out ↔ V.StopsAt cs f.filesize f.cursor n := by
  by_cases hcs : cs = []
  · subst hcs
    exact hfile.delivers_iff_empty hV hP hW hpart hn out
  · exact hfile.delivers_iff hV hP hW hpart hsize hc hn out hcs

end Fat32

section Iso9660

/-- The extent of a file holds its bytes, and its sectors have 32-bit numbers. -/
structure IsoExtent (disks : Disks) (data : DriverFileData) (bytes : Mem) : Prop where
  status : ∀ k, k * cdSectorSize < data.size →
    (disks data.volume.driveIndex (data.startingLba.toNat + k)).status = .ok
  bytes : ∀ k, k * cdSectorSize < data.size → ∀ i < cdSectorSize,
    (disks data.volume.driveIndex (data.startingLba.toNat + k)).bytes i
      = bytes (k * cdSectorSize + i)
  fits : ∀ k, k * cdSectorSize < data.size → data.startingLba.toNat + k < 2 ^ 32

/-- Nothing is read; or the end has been reached and the cursor is not before it; or it has not,
and the cursor is not past it, or is at a sector that cannot be read. -/
def IsoStops (disks : Disks) (data : DriverFileData) (f : File) (n : ℕ) : Prop :=
  n = 0 ∨ f.ended = true ∧ data.size ≤ f.cursor ∨ f.ended = false ∧ (f.cursor ≤ data.size ∨
    (disks data.volume.driveIndex
      (data.startingLba + BitVec.ofNat 32 (f.cursor / cdSectorSize)).toNat).status ≠ .ok)

variable {disks : Disks} {data : DriverFileData}

theorem readExtent_spec {bytes : Mem} (hE : IsoExtent disks data bytes) (hsize : data.size < 2 ^ 32)
    {m : ℕ} : ∀ (fuel : ℕ) (st : FileCopy), m - st.bytesRead ≤ fuel → st.cursor < 2 ^ 32 →
      st.cursor + (m - st.bytesRead) ≤ data.size →
      readExtent disks data m fuel st
        = st.append (m - st.bytesRead) fun i => bytes (st.cursor + i)
  | 0, st, hf, hc, _ => by
    rw [le_zero.1 hf, append_zero hc]
    rfl
  | fuel + 1, st, hf, hc, hle => by
    unfold readExtent
    by_cases hm : st.bytesRead < m
    swap
    · rw [if_neg hm, Nat.sub_eq_zero_of_le (not_lt.1 hm), append_zero hc]
    rw [if_pos hm]
    have hdm := div_add_mod st.cursor cdSectorSize
    have hml := mod_lt st.cursor (show 0 < cdSectorSize by decide)
    have hin : st.cursor / cdSectorSize * cdSectorSize < data.size := by
      have := div_mul_le_self st.cursor cdSectorSize
      omega
    have hlba : (data.startingLba + BitVec.ofNat 32 (st.cursor / cdSectorSize)).toNat
        = data.startingLba.toNat + st.cursor / cdSectorSize := by
      have hfits := hE.fits _ hin
      rw [BitVec.toNat_add, BitVec.toNat_ofNat, add_mod_mod, mod_eq_of_lt hfits]
    simp only [hlba, hE.status _ hin, ne_eq, not_true_eq_false, if_false]
    obtain ⟨b, hb⟩ : ∃ b, b = if m - st.bytesRead < cdSectorSize - st.cursor % cdSectorSize
      then m - st.bytesRead else cdSectorSize - st.cursor % cdSectorSize := ⟨_, rfl⟩
    rw [← hb]
    have hb' : 0 < b ∧ b ≤ m - st.bytesRead ∧ b ≤ cdSectorSize - st.cursor % cdSectorSize := by
      rw [hb]
      split_ifs <;> omega
    have happ : st.append b (fun i => (disks data.volume.driveIndex
        (data.startingLba.toNat + st.cursor / cdSectorSize)).bytes
          (st.cursor % cdSectorSize + i)) = st.append b fun i => bytes (st.cursor + i) := by
      refine append_congr _ fun i hi => ?_
      rw [hE.bytes _ hin _ (by omega)]
      refine congrArg bytes ?_
      rw [Nat.mul_comm]
      omega
    have hcur : (st.cursor + b) % 2 ^ 32 = st.cursor + b := mod_eq_of_lt (by omega)
    rw [happ, readExtent_spec hE hsize fuel _ (by simp only [append]; omega)
      (append_cursor_lt _ _ _) (by simp only [append, hcur]; omega)]
    refine (append_append fun i _ => ?_).trans ?_
    · simp only [append, hcur, Nat.add_assoc]
    · congr 1
      simp only [append]
      omega

theorem readExtent_bytesRead (disks : Disks) (data : DriverFileData) (m : ℕ) :
    ∀ (fuel : ℕ) (st : FileCopy),
    st.bytesRead ≤ (readExtent disks data m fuel st).bytesRead ∧
    (st.bytesRead ≤ m → (readExtent disks data m fuel st).bytesRead ≤ m)
  | 0, _ => ⟨le_rfl, id⟩
  | fuel + 1, st => by
    unfold readExtent
    simp only []
    split_ifs
    · exact ⟨le_rfl, id⟩
    all_goals
      first
      | exact ⟨le_rfl, id⟩
      | refine ⟨le_trans ?_ (readExtent_bytesRead disks data m fuel _).1, fun h =>
          (readExtent_bytesRead disks data m fuel _).2 ?_⟩ <;> simp only [append] <;> omega

theorem IsoExtent.reads_iff {bytes : Mem} (hE : IsoExtent disks data bytes)
    (hsize : data.size < 2 ^ 32) (hc : f.cursor < 2 ^ 32) (hn : n < 2 ^ 32) (out : Mem) :
    Delivers (some (readFileISO9660 disks data f n out)) bytes f.cursor
      (min n (data.size - f.cursor)) out ↔ IsoStops disks data f n := by
  unfold readFileISO9660 IsoStops
  cases hend : f.ended with
  | true =>
    have h0 : Delivers (some (returnInt 0, f, blit out 0 0 fun i => bytes (f.cursor + i))) bytes
        f.cursor (min n (data.size - f.cursor)) out ↔ 0 = min n (data.size - f.cursor) :=
      delivers_blit f (by decide)
    rw [blit_zero] at h0
    simp only [if_true, true_and, reduceCtorEq, false_and, or_false]
    refine h0.trans ?_
    omega
  | false =>
    simp only [Bool.false_eq_true, if_false, false_and, false_or, true_and]
    by_cases hle : f.cursor ≤ data.size
    · have havail : (data.size + (2 ^ 32 - f.cursor)) % 2 ^ 32 = data.size - f.cursor := by omega
      have hmin : (if data.size - f.cursor < n then data.size - f.cursor else n)
          = min n (data.size - f.cursor) := by
        split_ifs <;> omega
      rw [havail, hmin, readExtent_spec hE hsize _ _ (by simp) hc (by simp only; omega)]
      refine iff_of_true ?_ (.inr (.inl hle))
      simp only [append, Nat.sub_zero, Nat.zero_add]
      exact (delivers_blit _ (by omega)).2 rfl
    have hz : data.size - f.cursor = 0 := by omega
    rw [hz, Nat.min_zero]
    obtain ⟨m, hm⟩ : ∃ m, m = if (data.size + (2 ^ 32 - f.cursor)) % 2 ^ 32 < n
      then (data.size + (2 ^ 32 - f.cursor)) % 2 ^ 32 else n := ⟨_, rfl⟩
    rw [← hm]
    have hm' : (m = 0 ↔ n = 0) ∧ m ≤ n := by
      rw [hm]
      split_ifs <;> omega
    simp only [hle, false_or]
    cases m with
    | zero =>
      refine iff_of_true ⟨0, _, out, rfl, rfl, ?_, fun _ _ => rfl⟩ (.inl (hm'.1.1 rfl))
      intro i hi
      omega
    | succ m =>
      have hn0 : n ≠ 0 := by omega
      have hub := (readExtent_bytesRead disks data (m + 1) (m + 1)
        ⟨f.cursor, 0, out⟩).2 (Nat.zero_le _)
      by_cases hst : (disks data.volume.driveIndex (data.startingLba
          + BitVec.ofNat 32 (f.cursor / cdSectorSize)).toNat).status = .ok
      · -- something is read, though there is nothing left
        refine iff_of_false (not_delivers_zero ?_) (not_or.2 ⟨hn0, not_not.2 hst⟩)
        intro r f' out' hres
        simp only [some.injEq, Prod.mk.injEq] at hres
        rw [← hres.1, returnInt_emod (by omega)]
        have hpos : 0 < (readExtent disks data (m + 1) (m + 1)
            ⟨f.cursor, 0, out⟩).bytesRead := by
          have hml := mod_lt f.cursor (show 0 < cdSectorSize by decide)
          unfold readExtent
          simp only [succ_pos, if_true, hst, ne_eq, not_true_eq_false, if_false]
          refine lt_of_lt_of_le ?_ (readExtent_bytesRead _ _ _ m _).1
          simp only [append]
          split_ifs <;> omega
        exact_mod_cast hpos.ne'
      · have hstop : readExtent disks data (m + 1) (m + 1) ⟨f.cursor, 0, out⟩
            = ⟨f.cursor, 0, out⟩ := by
          unfold readExtent
          simp only [succ_pos, if_true, ne_eq, hst, not_false_eq_true]
        rw [hstop]
        refine iff_of_true ⟨0, _, out, rfl, rfl, ?_, fun _ _ => rfl⟩ (.inr hst)
        intro i hi
        omega

end Iso9660

section ReadFromFile

theorem delivers_check {src out : Mem} {c m : ℕ} :
    Delivers ((res.bind fun r => if r.1 % 2 ^ 32 = n then some (n, r.2) else none).map
      fun r => ((r.1 : ℤ), r.2)) src c m out ↔ m = n ∧ n < 2 ^ 32 ∧ Delivers res src c m out := by
  constructor
  · rintro ⟨r, f', out', h, hr, hbytes, hrest⟩
    obtain ⟨⟨n', r'⟩, h1, h2⟩ := map_eq_some_iff.1 h
    obtain ⟨⟨r0, r''⟩, hres, h3⟩ := bind_eq_some_iff.1 h1
    by_cases hc : r0 % 2 ^ 32 = n
    · rw [if_pos hc] at h3
      simp only [some.injEq, Prod.mk.injEq] at h2 h3
      have hn : (n : ℤ) < 2 ^ 32 := hc ▸ Int.emod_lt_of_pos _ (by decide)
      have hn' : n < 2 ^ 32 := by exact_mod_cast hn
      have hmn : m = n := by
        rw [← h2.1, ← h3.1, Int.emod_eq_of_lt (Int.natCast_nonneg _) hn] at hr
        exact_mod_cast hr.symm
      refine ⟨hmn, hn', r0, f', out', ?_, by rw [hc, hmn], hbytes, hrest⟩
      rw [hres, h3.2, h2.2]
    · rw [if_neg hc] at h3
      cases h3
  · rintro ⟨rfl, hm, r, f', out', hres, hr, hbytes, hrest⟩
    refine ⟨m, f', out', ?_, ?_, hbytes, hrest⟩
    · rw [hres, bind_some, if_pos hr, map_some]
    · rw [Int.emod_eq_of_lt (Int.natCast_nonneg _) (by exact_mod_cast hm)]

end ReadFromFile

def readFromFileInt (disks : Disks) (f : File) (out : Mem) (n : ℕ) : Option (ℤ × File × Mem) :=
  (readFromFile disks f out n).map fun r => ((r.1 : ℤ), r.2)

/-- A read of a driver stops at the end of the file exactly in the cases of `StopsAt` and
`IsoStops`. `ReadFromFile` delivers only when no byte asked for is behind the end. -/
theorem file_reads_stop_iff (disks : Disks) (f : File) (n : ℕ) (out : Mem)
    (hc : f.cursor < 2 ^ 32) (hn : n < 2 ^ 32) :
    (∀ V : FatVolume, V.Readable disks → V.WellFormed → V.Plain →
      ∀ (data : FAT32FileData) (cs : List ℕ), data.part = V.part → f.internal = .fat32 data →
      V.HoldsFile data.firstCluster.toNat f.filesize cs → f.filesize < 2 ^ 32 →
      (Delivers (readFileFAT32 disks data f n out) (V.chainByte cs) f.cursor
        (min n (f.filesize - f.cursor)) out ↔ V.StopsAt cs f.filesize f.cursor n) ∧
      (Delivers (readFromFileInt disks f out n) (V.chainByte cs) f.cursor
        (min n (f.filesize - f.cursor)) out ↔ n = 0 ∨ f.cursor + n ≤ f.filesize)) ∧
    (∀ (data : DriverFileData) (bytes : Mem), IsoExtent disks data bytes → data.size < 2 ^ 32 →
      f.internal = .iso9660 data → f.filesize = data.size →
      (Delivers (some (readFileISO9660 disks data f n out)) bytes f.cursor
        (min n (f.filesize - f.cursor)) out ↔ IsoStops disks data f n) ∧
      (Delivers (readFromFileInt disks f out n) bytes f.cursor
        (min n (f.filesize - f.cursor)) out ↔
          n = 0 ∨ f.cursor + n ≤ f.filesize ∧ f.ended = false)) := by
  refine ⟨fun V hV hW hP data cs hpart hint hfile hsize => ?_,
    fun data bytes hE hsize hint hfs => ?_⟩
  · have h := hfile.reads_iff hV hP hW hpart hsize hc hn out
    refine ⟨h, ?_⟩
    unfold readFromFileInt readFromFile
    rw [hint]
    simp only []
    rw [delivers_check, h]
    unfold FatVolume.StopsAt
    omega
  · have h := hE.reads_iff hsize hc hn out
    rw [hfs]
    refine ⟨h, ?_⟩
    have hrw : readFromFileInt disks f out n
        = ((some (readFileISO9660 disks data f n out)).bind fun r =>
          if r.1 % 2 ^ 32 = n then some (n, r.2) else none).map fun r => ((r.1 : ℤ), r.2) := by
      unfold readFromFileInt readFromFile
      rw [hint]
      rfl
    rw [hrw, delivers_check, h]
    unfold IsoStops
    cases f.ended <;> simp only [reduceCtorEq, false_and, true_and, false_or, or_false, and_false,
      and_true] <;> constructor <;> intro h' <;> omega

theorem smallVolume_wellFormed : (smallVolume 512).WellFormed ∧ (smallVolume 512).Plain ∧
    (smallVolume 512).HoldsFile 2 1 [2] :=
  ⟨⟨⟨0, by decide⟩, by decide, by decide⟩, ⟨by decide, by decide⟩,
    fun _ => by decide, fun h => absurd h (by decide), by decide, by decide, by decide⟩

/-- A disc with a file of the letter `A` in its sector 20. -/
def smallDisc : Disks := fun _ lba =>
  ⟨if lba = 20 then .ok else .bad, fun k => if k = 0 then 0x41 else 0⟩

def smallDiscFile : DriverFileData := ⟨20, 1, ⟨0xE0, 0⟩⟩

theorem smallDisc_extent :
    IsoExtent smallDisc smallDiscFile fun k => if k = 0 then 0x41 else 0 := by
  have hk : ∀ k, k * cdSectorSize < smallDiscFile.size → k = 0 := by
    intro k h
    simp only [cdSectorSize, smallDiscFile] at h
    omega
  refine ⟨fun k h => ?_, fun k h i _ => ?_, fun k h => ?_⟩ <;> obtain rfl := hk k h
  · rfl
  · rw [Nat.zero_mul, Nat.zero_add]
    rfl
  · decide

theorem file_reads_stop_iff_small :
    Delivers (readFileFAT32 (smallVolume 512).disks ⟨2, ⟨0x80, 0⟩⟩ smallFile 1 fun _ => 0)
      ((smallVolume 512).chainByte [2]) 0 1 (fun _ => 0) ∧
    Delivers (some (readFileISO9660 smallDisc smallDiscFile
      ⟨.iso9660 smallDiscFile, 0, 1, false⟩ 2 fun _ => 0))
      (fun k => if k = 0 then 0x41 else 0) 0 1 fun _ => 0 :=
  ⟨(((file_reads_stop_iff _ smallFile 1 (fun _ => 0) (by decide) (by decide)).1 (smallVolume 512)
      (smallVolume_readable 512 (by decide)) smallVolume_wellFormed.1 smallVolume_wellFormed.2.1
      ⟨2, ⟨0x80, 0⟩⟩ [2] rfl rfl smallVolume_wellFormed.2.2 (by decide)).1).2
      (.inr (.inl (by decide))),
    (((file_reads_stop_iff _ ⟨.iso9660 smallDiscFile, 0, 1, false⟩ 2 (fun _ => 0) (by decide)
      (by decide)).2 smallDiscFile _ smallDisc_extent (by decide) rfl rfl).1).2
      (.inr (.inr ⟨rfl, .inl (by decide)⟩))⟩

/-- Two bytes are read of a file of one byte, on either medium: on the disc from behind the end. -/
theorem not_file_reads_stop :
    ¬ Delivers (readFileFAT32 (smallVolume 512).disks ⟨2, ⟨0x80, 0⟩⟩ smallFile 2 fun _ => 0)
      ((smallVolume 512).chainByte [2]) 0 (min 2 (1 - 0)) (fun _ => 0) ∧
    ¬ Delivers (some (readFileISO9660 smallDisc smallDiscFile
      ⟨.iso9660 smallDiscFile, 5, 1, false⟩ 2 fun _ => 0))
      (fun k => if k = 0 then 0x41 else 0) 5 (min 2 (1 - 5)) fun _ => 0 := by
  refine ⟨?_, ?_⟩ <;> rintro ⟨r, f', out', h, hr, -⟩
  · have hread : (readFileFAT32 (smallVolume 512).disks ⟨2, ⟨0x80, 0⟩⟩ smallFile 2
        fun _ => 0).map (fun r => r.1) = some 2 := by decide
    rw [h, map_some, some.injEq] at hread
    obtain rfl : r = 2 := hread
    exact absurd hr (by decide)
  · have hread : (readFileISO9660 smallDisc smallDiscFile ⟨.iso9660 smallDiscFile, 5, 1, false⟩ 2
        fun _ => 0).1 = 2 := by decide
    rw [some.inj h] at hread
    obtain rfl : r = 2 := hread
    exact absurd hr (by decide)

end DragonWare
