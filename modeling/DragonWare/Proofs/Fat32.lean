import DragonWare.BootFs

/-!
# Reads of FAT32 files

A file is a chain of clusters linked by the first table (`chainByte`). One round of the sector loop
and one of the cluster loop each continue one copy of the chain, up to the end of the chain: the
driver does not look at the size of the file.
-/

namespace DragonWare

open BitVec FileCopy Memory Nat Option

variable {n size : ℕ} {st : FileCopy} {data : FAT32FileData} {f : File} {src' : Mem}

/-- The bytes of a drive by their address, a partition of it, and the first sector behind the
partition. -/
structure FatVolume where
  bytes : Mem
  part : Partition
  stop : ℕ

namespace FatVolume

variable (V : FatVolume)

def start : ℕ := V.part.lbaStart.toNat * sectorSize

def bpb : BIOSParameterBlock := .ofBytes fun k => V.bytes (V.start + k)

def sector : ℕ := V.bpb.bytesPerSector.toNat

def clusterSize : ℕ := V.bpb.sectorsPerCluster.toNat * V.sector

def fatAddr : ℕ := V.start + V.bpb.reservedSectors.toNat * V.sector

def dataAddr : ℕ := V.fatAddr + V.bpb.nFats.toNat * V.bpb.sectorsPerFat.toNat * V.sector

/-- The first table's entry for a cluster: 28 bits of a word. -/
def fatEntry (c : ℕ) : ℕ := (read32 V.bytes (V.fatAddr + 4 * c) &&& 0x0FFFFFFF#32).toNat

def clusterAddr (c : ℕ) : ℕ := V.dataAddr + (c - 2) * V.clusterSize

/-- The table links the clusters in this order from `c` on and ends the chain behind them. -/
def Chain : ℕ → List ℕ → Prop
  | c, [] => 0x0FFFFFF8 ≤ c
  | c, x :: cs => c = x ∧ 2 ≤ x ∧ x < 0x0FFFFFF7 ∧ Chain (V.fatEntry x) cs

instance decidableChain : ∀ (c : ℕ) (cs : List ℕ), Decidable (V.Chain c cs)
  | c, [] => inferInstanceAs (Decidable (0x0FFFFFF8 ≤ c))
  | c, x :: cs =>
    have := decidableChain (V.fatEntry x) cs
    inferInstanceAs (Decidable (c = x ∧ 2 ≤ x ∧ x < 0x0FFFFFF7 ∧ V.Chain (V.fatEntry x) cs))

def chainByte (cs : List ℕ) (k : ℕ) : BitVec 8 :=
  V.bytes (V.clusterAddr (cs.getD (k / V.clusterSize) 0) + k % V.clusterSize)

structure Readable (disks : Disks) : Prop where
  status : ∀ lba, V.part.lbaStart.toNat ≤ lba → lba < V.stop →
    (disks V.part.driveIndex lba).status = .ok
  bytes : ∀ lba, V.part.lbaStart.toNat ≤ lba → lba < V.stop → ∀ k < sectorSize,
    (disks V.part.driveIndex lba).bytes k = V.bytes (lba * sectorSize + k)
  start_lt : V.part.lbaStart.toNat < V.stop

def Inside (cs : List ℕ) : Prop :=
  ∀ c ∈ cs, V.fatAddr + 4 * c + 4 ≤ V.stop * sectorSize ∧
    V.clusterAddr c + V.clusterSize ≤ V.stop * sectorSize

instance (cs : List ℕ) : Decidable (V.Inside cs) := inferInstanceAs (Decidable (∀ c ∈ cs, _))

/-- A file with a well-formed chain that is long enough for its size. A file without clusters has
the first cluster zero. -/
structure HasFile (first size : ℕ) (cs : List ℕ) : Prop where
  chain : V.Chain first cs ∨ first = 0 ∧ cs = []
  inside : V.Inside cs
  long : size ≤ cs.length * V.clusterSize

/-- The driver's sectors are the volume's, and it can address all of them. -/
structure Plain : Prop where
  sector : V.sector = sectorSize
  stop : V.stop ≤ 2 ^ 32

end FatVolume

theorem FileCopy.append_zero (h : st.cursor < 2 ^ 32) (src : Mem) : st.append 0 src = st := by
  unfold FileCopy.append
  rw [blit_zero, Nat.add_zero, Nat.add_zero, mod_eq_of_lt h]

theorem FileCopy.append_append {a b : ℕ} {src : Mem} (h : ∀ k < b, src' k = src (a + k)) :
    (st.append a src).append b src' = st.append (a + b) src := by
  unfold FileCopy.append
  rw [mod_add_mod, Nat.add_assoc, Nat.add_assoc, blit_blit h]

theorem FileCopy.append_congr (src : Mem) (h : ∀ k < n, src' k = src k) :
    st.append n src' = st.append n src := by
  unfold FileCopy.append
  rw [blit_congr h]

theorem FileCopy.append_cursor_lt (st : FileCopy) (n : ℕ) (src : Mem) :
    (st.append n src).cursor < 2 ^ 32 :=
  mod_lt _ (by decide)

theorem readSectors_spec {disks : Disks} {p : Partition} {lba : BitVec 32} (src : Mem) :
    ∀ (k s offset : ℕ) (st : FileCopy), st.cursor < 2 ^ 32 → offset < sectorSize →
      (∀ j, s ≤ j → j < s + k →
        (disks p.driveIndex (lba + BitVec.ofNat 32 j).toNat).status = .ok ∧
        ∀ i < sectorSize, (disks p.driveIndex (lba + BitVec.ofNat 32 j).toNat).bytes i
          = src (j * sectorSize + i)) →
      readSectors disks p lba n k s offset st = (true,
        st.append (min (n - st.bytesRead) (k * sectorSize - offset))
          fun i => src (s * sectorSize + offset + i))
  | 0, s, offset, st, hc, _, _ => by
    rw [Nat.zero_mul, Nat.zero_sub, Nat.min_zero, append_zero hc]
    rfl
  | k + 1, s, offset, st, hc, ho, hread => by
    unfold readSectors
    by_cases hn : st.bytesRead < n
    swap
    · rw [if_neg hn, Nat.sub_eq_zero_of_le (not_lt.1 hn), Nat.zero_min, append_zero hc]
    rw [if_pos hn]
    obtain ⟨hok, hbytes⟩ := hread s le_rfl (by omega)
    simp only [hok, ne_eq, not_true_eq_false, if_false]
    obtain ⟨m, hm⟩ : ∃ m, m = if n - st.bytesRead < sectorSize - offset then n - st.bytesRead
      else sectorSize - offset := ⟨_, rfl⟩
    rw [← hm]
    have hm' : m = min (n - st.bytesRead) (sectorSize - offset) := by
      rw [hm]
      split_ifs <;> omega
    have happ : st.append m (fun i =>
        (disks p.driveIndex (lba + BitVec.ofNat 32 s).toNat).bytes (offset + i))
        = st.append m fun i => src (s * sectorSize + offset + i) :=
      append_congr _ fun i hi => by rw [hbytes _ (by omega), Nat.add_assoc]
    rw [happ, readSectors_spec src k (s + 1) 0 _ (append_cursor_lt _ _ _) (by decide)
      fun j hj hj' => hread j (by omega) (by omega)]
    have hbr : ∀ f : Mem, (st.append m f).bytesRead = st.bytesRead + m := fun _ => rfl
    rw [hbr]
    rw [Prod.mk.injEq]
    refine ⟨rfl, ?_⟩
    by_cases hlast : n - st.bytesRead ≤ sectorSize - offset
    · have hz : n - (st.bytesRead + m) = 0 := by omega
      rw [hz, Nat.zero_min, append_zero (append_cursor_lt _ _ _)]
      congr 1
      rw [Nat.succ_mul]
      omega
    · have hmo : m = sectorSize - offset := by omega
      refine (append_append fun i _ => ?_).trans ?_
      · refine congrArg src ?_
        rw [Nat.succ_mul]
        omega
      · congr 1
        rw [Nat.succ_mul]
        omega

namespace FatVolume

variable {V : FatVolume} {disks : Disks}
variable {c n : ℕ} {cs : List ℕ}

theorem Readable.bpb (hV : V.Readable disks) :
    BIOSParameterBlock.ofBytes (disks V.part.driveIndex V.part.lbaStart.toNat).bytes = V.bpb := by
  have h : ∀ k < sectorSize, (disks V.part.driveIndex V.part.lbaStart.toNat).bytes k
      = V.bytes (V.start + k) := hV.bytes _ le_rfl hV.start_lt
  unfold FatVolume.bpb BIOSParameterBlock.ofBytes read16
  rw [h 11 (by decide), h 12 (by decide), h 13 (by decide), h 14 (by decide), h 15 (by decide),
    h 16 (by decide), read32_congr (m := fun k => V.bytes (V.start + k))
      fun x _ hx => h x (by simp only [sectorSize]; omega)]

theorem findFAT_toNat {p : Partition} {bpb : BIOSParameterBlock}
    (h : p.lbaStart.toNat + bpb.reservedSectors.toNat < 2 ^ 32) :
    (findFAT p bpb).toNat = p.lbaStart.toNat + bpb.reservedSectors.toNat := by
  unfold findFAT
  rw [toNat_add, toNat_setWidth]
  have := bpb.reservedSectors.isLt
  omega

theorem readFAT32Entry_eq (hV : V.Readable disks) (hP : V.Plain) (hc : c < 2 ^ 28)
    (hin : V.fatAddr + 4 * c + 4 ≤ V.stop * sectorSize) :
    readFAT32Entry disks V.part V.bpb (BitVec.ofNat 32 c) = BitVec.ofNat 32 (V.fatEntry c) := by
  have hstop := hP.stop
  unfold fatAddr start at hin
  rw [hP.sector] at hin
  simp only [sectorSize] at hin
  have hoff : (BitVec.ofNat 32 c * 4#32).toNat = 4 * c := by
    rw [toNat_mul, toNat_ofNat, toNat_ofNat]
    omega
  have hsec : (findFAT V.part V.bpb + BitVec.ofNat 32 c * 4#32 / 512#32).toNat
      = V.part.lbaStart.toNat + V.bpb.reservedSectors.toNat + 4 * c / 512 := by
    rw [toNat_add, toNat_udiv, hoff, findFAT_toNat (by omega)]
    simp only [toNat_ofNat, reducePow, Nat.reduceMod]
    omega
  have hent : (BitVec.ofNat 32 c * 4#32 % 512#32).toNat = 4 * c % 512 := by
    rw [toNat_umod, hoff]
    simp only [toNat_ofNat, reducePow, Nat.reduceMod]
  unfold readFAT32Entry fatEntry fatAddr start
  simp only [hsec, hent, hP.sector, sectorSize, ofNat_toNat, setWidth_eq]
  congr 1
  have hb : ∀ k < 4, (disks V.part.driveIndex (V.part.lbaStart.toNat
      + V.bpb.reservedSectors.toNat + 4 * c / 512)).bytes (4 * c % 512 + k)
      = V.bytes (V.part.lbaStart.toNat * 512 + V.bpb.reservedSectors.toNat * 512 + 4 * c + k) :=
    fun k hk => by
      rw [hV.bytes _ (by omega) (by omega) _ (by simp only [sectorSize]; omega)]
      refine congrArg V.bytes ?_
      simp only [sectorSize]
      omega
  unfold read32
  rw [hb 3 (by omega), hb 2 (by omega), hb 1 (by omega)]
  have := hb 0 (by omega)
  rw [Nat.add_zero, Nat.add_zero] at this
  rw [this]

theorem eof_le_fatEntry (c : ℕ) :
    fat32EOF ≤ BitVec.ofNat 32 (V.fatEntry c) ↔ 0x0FFFFFF8 ≤ V.fatEntry c := by
  rw [le_def, toNat_ofNat, mod_eq_of_lt (show V.fatEntry c < _ from isLt _)]
  rfl

theorem clusterToLBA_toNat (hP : V.Plain) {j : ℕ} (hc : 2 ≤ c) (hc' : c < 2 ^ 28)
    (hj : j < V.bpb.sectorsPerCluster.toNat)
    (hin : V.clusterAddr c + V.clusterSize ≤ V.stop * sectorSize) :
    V.part.lbaStart.toNat ≤
        (clusterToLBA V.part V.bpb (BitVec.ofNat 32 c) + BitVec.ofNat 32 j).toNat ∧
      (clusterToLBA V.part V.bpb (BitVec.ofNat 32 c) + BitVec.ofNat 32 j).toNat < V.stop ∧
      (clusterToLBA V.part V.bpb (BitVec.ofNat 32 c) + BitVec.ofNat 32 j).toNat * sectorSize
        = V.clusterAddr c + j * sectorSize := by
  have hstop := hP.stop
  have haddr : V.clusterAddr c = (V.part.lbaStart.toNat + V.bpb.reservedSectors.toNat
      + V.bpb.nFats.toNat * V.bpb.sectorsPerFat.toNat
      + (c - 2) * V.bpb.sectorsPerCluster.toNat) * sectorSize := by
    unfold clusterAddr dataAddr fatAddr start clusterSize
    rw [hP.sector]
    ring
  have hsize : V.clusterSize = V.bpb.sectorsPerCluster.toNat * sectorSize := by
    unfold clusterSize
    rw [hP.sector]
  rw [haddr, hsize, ← Nat.add_mul] at hin
  have hle := Nat.le_of_mul_le_mul_right hin (by decide)
  have heq : (clusterToLBA V.part V.bpb (BitVec.ofNat 32 c) + BitVec.ofNat 32 j).toNat
      = V.part.lbaStart.toNat + V.bpb.reservedSectors.toNat
        + V.bpb.nFats.toNat * V.bpb.sectorsPerFat.toNat
        + (c - 2) * V.bpb.sectorsPerCluster.toNat + j := by
    have hspc := V.bpb.sectorsPerCluster.isLt
    have hnf := V.bpb.nFats.isLt
    have hsub : (BitVec.ofNat 32 c - 2#32).toNat = c - 2 := by
      rw [toNat_sub, toNat_ofNat, toNat_ofNat]
      omega
    unfold clusterToLBA findDataStart
    rw [toNat_add, toNat_add, toNat_add, toNat_mul, toNat_mul,
      hsub, findFAT_toNat (by omega), toNat_setWidth, toNat_setWidth,
      toNat_ofNat, mod_eq_of_lt (a := V.bpb.sectorsPerCluster.toNat) (by omega),
      mod_eq_of_lt (a := V.bpb.nFats.toNat) (by omega)]
    omega
  rw [heq, haddr]
  refine ⟨by omega, by omega, ?_⟩
  ring

theorem clusterSize_eq (hP : V.Plain) : V.clusterSize = V.bpb.bytesPerCluster := by
  unfold clusterSize BIOSParameterBlock.bytesPerCluster
  rw [hP.sector]

theorem chainByte_head {k : ℕ} (hk : k < V.clusterSize) :
    V.chainByte (c :: cs) k = V.bytes (V.clusterAddr c + k) := by
  unfold chainByte
  rw [div_eq_of_lt hk, mod_eq_of_lt hk]
  rfl

theorem chainByte_tail (hs : 0 < V.clusterSize) (k : ℕ) :
    V.chainByte (c :: cs) (V.clusterSize + k) = V.chainByte cs k := by
  unfold chainByte
  rw [add_div_left _ hs, add_mod_left, List.getD_cons_succ]

theorem chainByte_drop (hs : 0 < V.clusterSize) :
    ∀ (j : ℕ) (cs : List ℕ) (k : ℕ),
      V.chainByte (cs.drop j) k = V.chainByte cs (j * V.clusterSize + k)
  | 0, cs, k => by simp
  | j + 1, [], k => by simp [chainByte]
  | j + 1, c :: cs, k => by
    rw [List.drop_succ_cons, chainByte_drop hs j cs k, Nat.succ_mul,
      show j * V.clusterSize + V.clusterSize + k = V.clusterSize + (j * V.clusterSize + k) by omega,
      chainByte_tail hs]

theorem min_rest_of_cluster {r a q : ℕ} (hq : q ≤ size) (hr : size - q ≤ r) :
    min r (a + size - q) = size - q + min (r - (size - q)) a := by
  omega

theorem cursor_next_cluster {cursor q : ℕ} (hq : q = cursor % size) (hlt : q < size) :
    (cursor + (size - q)) % size = 0 := by
  have hdiv := div_add_mod cursor size
  have hnext : cursor + (size - q) = size * (cursor / size + 1) := by
    rw [Nat.mul_add, hq]
    omega
  rw [hnext, mul_mod_right]

theorem readClusters_spec (hV : V.Readable disks) (hP : V.Plain) (hs : 0 < V.clusterSize) :
    ∀ (cs : List ℕ) (fuel c : ℕ) (st : FileCopy), V.Chain c cs → V.Inside cs → c < 2 ^ 32 →
      st.cursor < 2 ^ 32 → n - st.bytesRead ≤ fuel →
      st.cursor + min (n - st.bytesRead) (cs.length * V.clusterSize - st.cursor % V.clusterSize)
        ≤ 2 ^ 32 →
      readClusters disks V.part V.bpb n fuel (BitVec.ofNat 32 c) st = (true,
        st.append (min (n - st.bytesRead)
            (cs.length * V.clusterSize - st.cursor % V.clusterSize))
          fun i => V.chainByte cs (st.cursor % V.clusterSize + i))
  | cs, 0, c, st, _, _, _, hc, hf, _ => by
    rw [le_zero.1 hf, Nat.zero_min, append_zero hc]
    rfl
  | [], fuel + 1, c, st, hch, _, hc32, hc, _, _ => by
    unfold readClusters
    have hlt : ¬ BitVec.ofNat 32 c < fat32EOF := by
      have : 0x0FFFFFF8 ≤ c := hch
      rw [lt_def, toNat_ofNat, mod_eq_of_lt hc32, fat32EOF, toNat_ofNat]
      omega
    rw [if_neg fun h => hlt h.2]
    simp only [List.length_nil, Nat.zero_mul, Nat.zero_sub, Nat.min_zero]
    rw [append_zero hc]
  | x :: cs, fuel + 1, c, st, hch, hin, hc32, hc, hf, hle => by
    unfold readClusters
    by_cases hn : st.bytesRead < n
    swap
    · rw [if_neg fun h => hn h.1, Nat.sub_eq_zero_of_le (not_lt.1 hn), Nat.zero_min, append_zero hc]
    obtain ⟨rfl, h2, hbad, htail⟩ := hch
    have hlt : BitVec.ofNat 32 c < fat32EOF := by
      rw [lt_def, toNat_ofNat, mod_eq_of_lt hc32, fat32EOF, toNat_ofNat]
      omega
    rw [if_pos ⟨hn, hlt⟩]
    obtain ⟨hent, hdata⟩ := hin c List.mem_cons_self
    obtain ⟨q, hq⟩ : ∃ q, q = st.cursor % V.clusterSize := ⟨_, rfl⟩
    have hql : q < V.clusterSize := hq ▸ mod_lt _ hs
    have hspc : V.clusterSize = V.bpb.sectorsPerCluster.toNat * sectorSize := clusterSize_eq hP
    simp only [← clusterSize_eq hP]
    rw [← hq] at hle ⊢
    have hqs : q / sectorSize < V.bpb.sectorsPerCluster.toNat :=
      (Nat.div_lt_iff_lt_mul (by decide)).2 (hspc ▸ hql)
    have hsplit := div_add_mod q sectorSize
    -- the sectors of this cluster from the cursor on
    rw [readSectors_spec (fun i => V.bytes (V.clusterAddr c + i)) _ _ _ _ hc
      (mod_lt _ (by decide)) fun j hj hj' => by
        obtain ⟨h1, h₂, h3⟩ := clusterToLBA_toNat hP (j := j) h2 (by omega) (by omega) hdata
        refine ⟨hV.status _ h1 h₂, fun i hi => ?_⟩
        rw [hV.bytes _ h1 h₂ i hi, h3, Nat.add_assoc]]
    simp only [if_true]
    have hcount : (V.bpb.sectorsPerCluster.toNat - q / sectorSize) * sectorSize - q % sectorSize
        = V.clusterSize - q := by
      rw [Nat.sub_mul, ← hspc, Nat.sub_sub, div_add_mod']
    obtain ⟨m, hm⟩ : ∃ m, m = min (n - st.bytesRead) (V.clusterSize - q) := ⟨_, rfl⟩
    rw [hcount, ← hm, append_congr (fun i => V.chainByte (c :: cs) (q + i)) fun i hi => by
        rw [chainByte_head (by omega)]
        congr 2
        rw [Nat.mul_comm]
        omega]
    rw [readFAT32Entry_eq hV hP (by omega) hent]
    obtain ⟨st', hst'⟩ : ∃ s', s' = st.append m fun i => V.chainByte (c :: cs) (q + i) := ⟨_, rfl⟩
    have hbr : st'.bytesRead = st.bytesRead + m := by rw [hst']; rfl
    have hcur : st'.cursor = (st.cursor + m) % 2 ^ 32 := by rw [hst']; rfl
    have hcur' : st'.cursor < 2 ^ 32 := hst' ▸ append_cursor_lt _ _ _
    rw [List.length_cons, Nat.succ_mul] at hle ⊢
    rw [← hst']
    by_cases hlast : n - st.bytesRead ≤ V.clusterSize - q
    · -- nothing is asked of the clusters behind
      have hdone : readClusters disks V.part V.bpb n fuel (BitVec.ofNat 32 (V.fatEntry c)) st'
          = (true, st') := by
        cases fuel with
        | zero => rfl
        | succ fuel =>
          unfold readClusters
          rw [if_neg fun h => absurd h.1 (by omega)]
      have hall : min (n - st.bytesRead) (cs.length * V.clusterSize + V.clusterSize - q)
          = n - st.bytesRead := min_eq_left (by clear hle; omega)
      rw [hdone, hst', hall, hm, min_eq_left hlast]
    -- the cursor is at the start of the next cluster, if there is one
    have hme : m = V.clusterSize - q := hm.trans (min_eq_right (not_le.1 hlast).le)
    rw [min_rest_of_cluster hql.le (not_le.1 hlast).le, ← hme] at hle ⊢
    have hrest : min (n - st'.bytesRead) (cs.length * V.clusterSize - st'.cursor % V.clusterSize)
        = min (n - st.bytesRead - m) (cs.length * V.clusterSize) ∧
        (cs ≠ [] → st'.cursor = st.cursor + m ∧ st'.cursor % V.clusterSize = 0) := by
      by_cases hcs : cs = []
      · simp [hcs]
      have hlen : V.clusterSize ≤ cs.length * V.clusterSize :=
        Nat.le_mul_of_pos_left _ (List.length_pos_iff.2 hcs)
      have hlt32 : st.cursor + m < 2 ^ 32 := by omega
      have hzero : st'.cursor % V.clusterSize = 0 := by
        rw [hcur, mod_eq_of_lt hlt32, hme]
        exact cursor_next_cluster hq hql
      refine ⟨by rw [hzero, hbr, Nat.sub_zero, Nat.sub_sub], fun _ => ⟨?_, hzero⟩⟩
      rw [hcur, mod_eq_of_lt hlt32]
    rw [readClusters_spec hV hP hs cs fuel _ st' htail
      (fun d hd => hin d (List.mem_cons_of_mem _ hd)) (isLt _) hcur' (by omega) (by
        rw [hrest.1]
        by_cases hcs : cs = []
        · simp only [hcs, List.length_nil, Nat.zero_mul, Nat.min_zero]
          omega
        · rw [(hrest.2 hcs).1]
          omega), hrest.1]
    rw [hst', append_append fun i hi => by
      have hcs : cs ≠ [] := fun h => by
        rw [h, List.length_nil, Nat.zero_mul] at hi
        omega
      rw [← hst', (hrest.2 hcs).2, hme, Nat.zero_add,
        show q + (V.clusterSize - q + i) = V.clusterSize + i by omega, chainByte_tail hs]]

theorem skipClusters_spec (hV : V.Readable disks) (hP : V.Plain) :
    ∀ (k c : ℕ) (cs : List ℕ), cs ≠ [] → V.Chain c cs → V.Inside cs →
      skipClusters disks V.part V.bpb k (BitVec.ofNat 32 c) = none ∧ cs.length ≤ k ∨
      ∃ c', skipClusters disks V.part V.bpb k (BitVec.ofNat 32 c) = some (BitVec.ofNat 32 c') ∧
        k < cs.length ∧ V.Chain c' (cs.drop k) ∧ c' < 2 ^ 32
  | 0, c, [], hne, _, _ => absurd rfl hne
  | 0, c, x :: cs, _, hch, _ => .inr ⟨c, rfl, succ_pos _, hch, by
      have := hch.1
      have := hch.2.2.1
      omega⟩
  | k + 1, c, [], hne, _, _ => absurd rfl hne
  | k + 1, c, x :: cs, _, hch, hin => by
    obtain ⟨rfl, h2, hbad, htail⟩ := hch
    have heq := readFAT32Entry_eq hV hP (c := c) (by omega) (hin c List.mem_cons_self).1
    unfold skipClusters
    simp only [heq, eof_le_fatEntry]
    by_cases hcs : cs = []
    · subst hcs
      have : 0x0FFFFFF8 ≤ V.fatEntry c := htail
      rw [if_pos this]
      exact .inl ⟨rfl, by simp⟩
    obtain ⟨y, ys, rfl⟩ := List.exists_cons_of_ne_nil hcs
    have h1 := htail.1
    have h3 := htail.2.2.1
    rw [if_neg (by omega)]
    have ih := skipClusters_spec hV hP k (V.fatEntry c) (y :: ys) hcs htail
      fun d hd => hin d (List.mem_cons_of_mem _ hd)
    rcases ih with ⟨hnone, hk⟩ | ⟨c', hsome, hk, hch', hc'⟩
    · exact .inl ⟨hnone, by simpa using hk⟩
    · exact .inr ⟨c', hsome, by simpa using hk, hch', hc'⟩

theorem readFileFAT32_spec (hV : V.Readable disks) (hP : V.Plain) (hs : 0 < V.clusterSize)
    (hpart : data.part = V.part) (hne : cs ≠ []) (hch : V.Chain data.firstCluster.toNat cs)
    (hin : V.Inside cs) {out : Mem} (hc : f.cursor < 2 ^ 32)
    (hle : f.cursor + min n (cs.length * V.clusterSize - f.cursor) ≤ 2 ^ 32) :
    readFileFAT32 disks data f n out
      = some (returnInt (min n (cs.length * V.clusterSize - f.cursor)),
        { f with cursor := (f.cursor + min n (cs.length * V.clusterSize - f.cursor)) % 2 ^ 32 },
        blit out 0 (min n (cs.length * V.clusterSize - f.cursor))
          fun i => V.chainByte cs (f.cursor + i)) := by
  have hdm := div_add_mod f.cursor V.clusterSize
  have hml := mod_lt f.cursor hs
  unfold readFileFAT32
  simp only [hpart, hV.status _ le_rfl hV.start_lt, hV.bpb, ← clusterSize_eq hP, ne_eq,
    not_true_eq_false, if_false, hs.ne']
  have hskip := skipClusters_spec hV hP (f.cursor / V.clusterSize) data.firstCluster.toNat cs hne
    hch hin
  rw [ofNat_toNat, setWidth_eq] at hskip
  rcases hskip with ⟨hnone, hk⟩ | ⟨c', hsome, hk, hch', hc'⟩
  · have hend : cs.length * V.clusterSize ≤ f.cursor :=
      (Nat.mul_le_mul_right _ hk).trans (div_mul_le_self _ _)
    rw [hnone, Nat.sub_eq_zero_of_le hend, Nat.min_zero, blit_zero, Nat.add_zero, mod_eq_of_lt hc]
    rfl
  have hlen : (cs.drop (f.cursor / V.clusterSize)).length * V.clusterSize
      - f.cursor % V.clusterSize = cs.length * V.clusterSize - f.cursor := by
    rw [List.length_drop, Nat.sub_mul, Nat.mul_comm (f.cursor / V.clusterSize)]
    omega
  rw [hsome]
  simp only []
  rw [readClusters_spec hV hP hs _ _ _ _ hch' (fun d hd => hin d (List.mem_of_mem_drop hd)) hc' hc
    (sub_le _ _) (by rw [Nat.sub_zero, hlen]; exact hle)]
  simp only [if_true, Nat.sub_zero, hlen]
  unfold FileCopy.append
  simp only [Nat.zero_add]
  congr 3
  refine blit_congr fun i _ => ?_
  rw [chainByte_drop hs]
  congr 1
  rw [Nat.mul_comm]
  omega

theorem HasFile.read (hV : V.Readable disks) (hP : V.Plain)
    (hspc : 1 ≤ V.bpb.sectorsPerCluster.toNat) (hpart : data.part = V.part)
    (hfile : V.HasFile data.firstCluster.toNat f.filesize cs) (hsize : f.filesize < 2 ^ 32)
    (hn : f.cursor + n ≤ f.filesize) (out : Mem) :
    readFileFAT32 disks data f n out = some (returnInt n, { f with cursor := f.cursor + n },
      blit out 0 n fun i => V.chainByte cs (f.cursor + i)) := by
  have hs : 0 < V.clusterSize := by
    rw [clusterSize_eq hP]
    exact Nat.mul_pos hspc (by decide)
  have hlong := hfile.long
  by_cases hcs : cs = []
  · -- a file without clusters is empty
    rw [hcs, List.length_nil, Nat.zero_mul] at hlong
    obtain rfl : n = 0 := by omega
    have hc0 : f.cursor = 0 := by omega
    unfold readFileFAT32
    simp only [hpart, hV.status _ le_rfl hV.start_lt, hV.bpb, ← clusterSize_eq hP, ne_eq,
      not_true_eq_false, if_false, hs.ne', hc0, Nat.zero_div, skipClusters, readClusters, if_true,
      blit_zero]
  · have hch : V.Chain data.firstCluster.toNat cs :=
      hfile.chain.resolve_right fun h => hcs h.2
    have hmin : min n (cs.length * V.clusterSize - f.cursor) = n := by omega
    rw [readFileFAT32_spec hV hP hs hpart hcs hch hfile.inside (by omega) (by omega), hmin,
      mod_eq_of_lt (by omega)]

end FatVolume

/-- The read returns `n`, fills the first `n` bytes of the buffer with those of `src` from the
cursor on, and moves the cursor behind them. -/
def ReadsExactly (disks : Disks) (data : FAT32FileData) (f : File) (n : ℕ) (out src : Mem) : Prop :=
  ∃ f' out', readFileFAT32 disks data f n out = some ((n : ℤ), f', out') ∧
    f'.cursor = f.cursor + n ∧ (∀ i < n, out' i = src (f.cursor + i)) ∧
    ∀ i, n ≤ i → out' i = out i

/-- A read of `a` bytes and one of `b` bytes behind it leave the cursor and the bytes that one read
of both leaves. -/
def ReadsCompose (disks : Disks) (data : FAT32FileData) (f : File) (a b : ℕ) (out : Mem) : Prop :=
  ∃ r₁ f₁ out₁ r₂ f₂ out₂ r out', readFileFAT32 disks data f a out = some (r₁, f₁, out₁) ∧
    readFileFAT32 disks data f₁ b (fun i => out₁ (a + i)) = some (r₂, f₂, out₂) ∧
    readFileFAT32 disks data f (a + b) out = some (r, f₂, out') ∧
    (∀ i < a, out' i = out₁ i) ∧ ∀ i < b, out' (a + i) = out₂ i

theorem returnInt_eq_iff (hn : n < 2 ^ 32) : returnInt n = n ↔ n < 2 ^ 31 := by
  unfold returnInt
  rw [toInt_eq_toNat_cond, toNat_ofNat, mod_eq_of_lt hn]
  split_ifs with h <;> constructor <;> intro h' <;> omega

/-- A read within the file is exact unless it is of 2 GiB or more, which the returned `int` cannot
say, and reads compose. -/
theorem readFileFAT32_exact_iff (V : FatVolume) (disks : Disks) (hV : V.Readable disks)
    (hspc : 1 ≤ V.bpb.sectorsPerCluster.toNat) (data : FAT32FileData) (hpart : data.part = V.part)
    (f : File) (cs : List ℕ) (hfile : V.HasFile data.firstCluster.toNat f.filesize cs)
    (hsize : f.filesize < 2 ^ 32) (hP : V.Plain) :
    (∀ n out, f.cursor + n ≤ f.filesize →
      (ReadsExactly disks data f n out (V.chainByte cs) ↔ n < 2 ^ 31)) ∧
    ∀ a b out, f.cursor + (a + b) ≤ f.filesize → ReadsCompose disks data f a b out := by
  refine ⟨fun n out hn => ?_, fun a b out hab => ?_⟩
  · have hread := hfile.read hV hP hspc hpart hsize hn out
    rw [← returnInt_eq_iff (by omega : n < 2 ^ 32)]
    constructor
    · rintro ⟨f', out', h, -⟩
      rw [hread, some.injEq, Prod.mk.injEq] at h
      exact h.1
    · intro h
      refine ⟨_, _, by rw [hread, h], rfl, fun i hi => ?_, fun i hi => ?_⟩
      · simp [blit, hi]
      · simp only [blit, Nat.zero_le, true_and, Nat.zero_add, Nat.not_lt.2 hi, if_false]
  · have h₁ := hfile.read hV hP hspc hpart hsize (n := a) (by omega) out
    have h₂ := FatVolume.HasFile.read hV hP hspc hpart (f := { f with cursor := f.cursor + a })
      hfile hsize (n := b) (by simp only; omega)
      (fun i => blit out 0 a (fun i => V.chainByte cs (f.cursor + i)) (a + i))
    have h₃ := hfile.read hV hP hspc hpart hsize hab out
    rw [← Nat.add_assoc] at h₃
    refine ⟨_, _, _, _, _, _, _, _, h₁, h₂, h₃, fun i hi => ?_, fun i hi => ?_⟩
    · simp only [blit, Nat.zero_le, true_and, Nat.zero_add, hi, if_true]
      rw [if_pos (by omega)]
    · simp only [blit, Nat.zero_le, true_and, Nat.zero_add, hi, if_true, Nat.sub_zero]
      rw [if_pos (by omega), Nat.add_assoc]

/-- One volume with sectors of `size` bytes: a reserved sector, a table of one sector and clusters
of one, the first of which is a file with the letter `A`. -/
def smallVolume (size : ℕ) : FatVolume where
  bytes a :=
    if a = 11 then BitVec.ofNat 8 size
    else if a = 12 then BitVec.ofNat 8 (size / 256)
    else if a = 13 ∨ a = 14 ∨ a = 16 ∨ a = 36 then 1
    else if a = size ∨ a = size + 8 then 0xF8
    else if a = size + 3 ∨ a = size + 11 then 0x0F
    else if size ≤ a ∧ a < size + 12 then 0xFF
    else if a = 2 * size then 0x41
    else 0
  part := ⟨0x80, 0⟩
  stop := 3 * size / sectorSize

def FatVolume.disks (V : FatVolume) : Disks := fun _ lba =>
  ⟨.ok, fun k => V.bytes (lba * sectorSize + k)⟩

def smallFile : File := ⟨.fat32 ⟨2, ⟨0x80, 0⟩⟩, 0, 1, false⟩

theorem smallVolume_readable (size : ℕ) (h : 0 < (smallVolume size).stop) :
    (smallVolume size).Readable (smallVolume size).disks :=
  ⟨fun _ _ _ => rfl, fun _ _ _ _ _ => rfl, h⟩

theorem readFileFAT32_exact_iff_small : ReadsExactly (smallVolume 512).disks ⟨2, ⟨0x80, 0⟩⟩
    smallFile 1 (fun _ => 0) ((smallVolume 512).chainByte [2]) :=
  ((readFileFAT32_exact_iff (smallVolume 512) _ (smallVolume_readable 512 (by decide)) (by decide)
    ⟨2, ⟨0x80, 0⟩⟩ rfl smallFile [2]
    ⟨.inl (by decide), by decide, by decide⟩ (by decide) ⟨by decide, by decide⟩).1 1
    (fun _ => 0) (by decide)).2 (by decide)

/-- With sectors of 1024 bytes the driver looks for the cluster in the table. -/
theorem not_readFileFAT32_exact : (smallVolume 1024).Readable (smallVolume 1024).disks ∧
    1 ≤ (smallVolume 1024).bpb.sectorsPerCluster.toNat ∧
    (smallVolume 1024).HasFile 2 smallFile.filesize [2] ∧
    smallFile.cursor + 1 ≤ smallFile.filesize ∧
    ¬ ReadsExactly (smallVolume 1024).disks ⟨2, ⟨0x80, 0⟩⟩ smallFile 1 (fun _ => 0)
      ((smallVolume 1024).chainByte [2]) := by
  refine ⟨smallVolume_readable 1024 (by decide), by decide,
    ⟨.inl (by decide), by decide, by decide⟩, by decide, ?_⟩
  rintro ⟨f', out', h, -, hbytes, -⟩
  have hread : (readFileFAT32 (smallVolume 1024).disks ⟨2, ⟨0x80, 0⟩⟩ smallFile 1
      fun _ => 0).map (fun r => r.2.2 0) = some 0xF8 := by decide
  rw [h, map_some, some.injEq] at hread
  exact absurd (hread.symm.trans (hbytes 0 (by decide))) (by decide)

end DragonWare
