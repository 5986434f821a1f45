import DragonWare.Proofs.UserCopy
import DragonWare.UserStrings

/-!
# What is read of a string

Before the copy is checked, `strnlen` has read the string. This is safe exactly when the string
begins below the kernel, and ends in its first page or goes on in one that is the user's
(`string_reads_safe_iff`).
-/

namespace DragonWare

namespace Mmu

variable {m : Mmu} {mem : Memory.Mem} {s : BitVec 32}

def UserByte (m : Mmu) (a : ℕ) : Prop := m.addressIsMapped a = true ∧ a < kernelVMBase

def GoesOn (m : Mmu) (mem : Memory.Mem) (s : BitVec 32) (i : ℕ) : Prop :=
  m.addressIsMapped (byteAddr s i).toNat = true ∧ mem (byteAddr s i).toNat ≠ 0#8

theorem mem_strnlenFrom {a : BitVec 32} : ∀ {left i : ℕ},
    a ∈ (m.strnlenFrom mem s left i).1 ↔ ∃ j, i ≤ j ∧ j < i + left ∧ a = byteAddr s j
      ∧ ∀ l, i ≤ l → l < j → m.GoesOn mem s l
  | 0, i => by
    simp only [strnlenFrom, List.not_mem_nil, false_iff]
    rintro ⟨j, hij, hj, -⟩
    omega
  | left + 1, i => by
    simp only [strnlenFrom]
    have hfirst : (∃ j, i ≤ j ∧ j < i + (left + 1) ∧ a = byteAddr s j
        ∧ ∀ l, i ≤ l → l < j → m.GoesOn mem s l) ↔ a = byteAddr s i ∨ (m.GoesOn mem s i
          ∧ ∃ j, i + 1 ≤ j ∧ j < i + 1 + left ∧ a = byteAddr s j
            ∧ ∀ l, i + 1 ≤ l → l < j → m.GoesOn mem s l) := by
      constructor
      · rintro ⟨j, hij, hj, ha, hall⟩
        rcases hij.eq_or_lt with rfl | hlt
        · exact .inl ha
        · exact .inr ⟨hall i le_rfl hlt, j, hlt, by omega, ha, fun l hl => hall l (by omega)⟩
      · rintro (ha | ⟨hi, j, hij, hj, ha, hall⟩)
        · exact ⟨i, le_rfl, by omega, ha, fun l hl hl' => by omega⟩
        · refine ⟨j, by omega, by omega, ha, fun l hl hl' => ?_⟩
          rcases hl.eq_or_lt with rfl | hlt
          · exact hi
          · exact hall l hlt hl'
    rw [hfirst, ← mem_strnlenFrom]
    by_cases hmapped : m.addressIsMapped (byteAddr s i).toNat = true
    · by_cases hzero : mem (byteAddr s i).toNat = 0#8
      · simp [GoesOn, hmapped, hzero]
      · simp [GoesOn, hmapped, hzero]
    · simp [GoesOn, hmapped]

theorem strnlenFrom_some {len : ℕ} : ∀ {left i : ℕ},
    (m.strnlenFrom mem s left i).2 = some len → i ≤ len ∧ len ≤ i + left
      ∧ (∀ l, i ≤ l → l < len → m.addressIsMapped (byteAddr s l).toNat = true)
      ∧ (len < i + left → m.addressIsMapped (byteAddr s len).toNat = true)
  | 0, i, h => by
    cases h
    exact ⟨le_rfl, le_rfl, fun l hl hl' => by omega, fun hlt => by omega⟩
  | left + 1, i, h => by
    simp only [strnlenFrom] at h
    split_ifs at h with hmapped hzero
    · cases h
      exact ⟨le_rfl, by omega, fun l hl hl' => by omega, fun _ => by simpa using hmapped⟩
    obtain ⟨hle, hlen, hall, hend⟩ := strnlenFrom_some h
    refine ⟨by omega, by omega, fun l hl hl' => ?_, fun hlt => hend (by omega)⟩
    rcases hl.eq_or_lt with rfl | hlt
    · simpa using hmapped
    · exact hall l hlt hl'

theorem byteAddr_toNat {i : ℕ} (h : s.toNat + i < 2 ^ 32) : (byteAddr s i).toNat = s.toNat + i := by
  rw [byteAddr, BitVec.toNat_add, BitVec.toNat_ofNat, Nat.add_mod_mod, Nat.mod_eq_of_lt h]

def nextPage (a : ℕ) : ℕ := (a / frameSize + 1) * frameSize

/-- The string begins below the kernel, and the scan of at most `maxlen` bytes stays in its page or
goes on in one that is the user's too. -/
def ScansUserPages (m : Mmu) (mem : Memory.Mem) (s : BitVec 32) (maxlen : ℕ) : Prop :=
  s.toNat < kernelVMBase ∧ (s.toNat + maxlen ≤ nextPage s.toNat
    ∨ (∃ a, s.toNat ≤ a ∧ a < nextPage s.toNat ∧ mem a = 0#8) ∨ m.UserByte (nextPage s.toNat))

section Scan

variable {maxlen a : ℕ}

theorem UserByte.of_same_page {b : ℕ} (h : m.UserByte a) (hpage : b / frameSize = a / frameSize) :
    m.UserByte b := by
  have hbase : kernelVMBase = 0xC0000 * frameSize := by decide
  refine ⟨(addressIsMapped_congr hpage).trans h.1, ?_⟩
  have ha := h.2
  simp only [frameSize] at hpage hbase
  omega

theorem same_page (hle : s.toNat ≤ a) (hlt : a < nextPage s.toNat) :
    a / frameSize = s.toNat / frameSize := by
  simp only [nextPage, frameSize] at hlt ⊢
  omega

theorem lt_nextPage (a : ℕ) : a < nextPage a := by
  simp only [nextPage, frameSize]
  omega

theorem scan_of_scansUserPages (hmax : maxlen ≤ frameSize)
    (hmapped : m.addressIsMapped s.toNat = true) (h : m.ScansUserPages mem s maxlen)
    {a : BitVec 32} (ha : a ∈ (m.strnlenFrom mem s maxlen 0).1) : m.UserByte a.toNat := by
  obtain ⟨hs, hrest⟩ := h
  have hfirst : m.UserByte s.toNat := ⟨hmapped, hs⟩
  obtain ⟨j, -, hj, rfl, hall⟩ := mem_strnlenFrom.1 ha
  have hroom : s.toNat + maxlen < 2 ^ 32 := by
    simp only [kernelVMBase, frameSize] at hs hmax
    omega
  rw [byteAddr_toNat (by omega)]
  by_cases hpage : s.toNat + j < nextPage s.toNat
  · exact hfirst.of_same_page (same_page (by omega) hpage)
  have hnext : s.toNat + j < nextPage s.toNat + frameSize := by
    have := lt_nextPage s.toNat
    omega
  rcases hrest with hlimit | ⟨b, hb, hb', hzero⟩ | hsecond
  · omega
  · -- the terminator is before byte `j`
    have hgoes := (hall (b - s.toNat) (Nat.zero_le _) (by omega)).2
    rw [byteAddr_toNat (by omega), Nat.add_sub_cancel' hb] at hgoes
    exact absurd hzero hgoes
  · refine hsecond.of_same_page ?_
    simp only [nextPage, frameSize] at hpage hnext ⊢
    omega

theorem scansUserPages_of_scan (hpos : 0 < maxlen) (hmax : maxlen ≤ frameSize)
    (h : ∀ a ∈ (m.strnlenFrom mem s maxlen 0).1, m.UserByte a.toNat) :
    m.ScansUserPages mem s maxlen := by
  have hfirst : m.UserByte s.toNat := by
    have hread := h (byteAddr s 0) (mem_strnlenFrom.2
      ⟨0, le_rfl, by omega, rfl, fun l _ hl => by omega⟩)
    rwa [byteAddr_toNat (by have := s.isLt; omega), Nat.add_zero] at hread
  have hs := hfirst.2
  refine ⟨hs, ?_⟩
  by_cases hlimit : s.toNat + maxlen ≤ nextPage s.toNat
  · exact .inl hlimit
  by_cases hzero : ∃ a, s.toNat ≤ a ∧ a < nextPage s.toNat ∧ mem a = 0#8
  · exact .inr (.inl hzero)
  refine .inr (.inr ?_)
  have hlt := lt_nextPage s.toNat
  have hroom : s.toNat + maxlen < 2 ^ 32 := by
    simp only [kernelVMBase, frameSize] at hs hmax
    omega
  -- nothing stops the scan before the first byte of the next page
  have hread := h (byteAddr s (nextPage s.toNat - s.toNat)) (mem_strnlenFrom.2
    ⟨_, Nat.zero_le _, by omega, rfl, fun l _ hl => ?_⟩)
  · rwa [byteAddr_toNat (by omega), Nat.add_sub_cancel' hlt.le] at hread
  · rw [GoesOn, byteAddr_toNat (by omega)]
    exact ⟨(hfirst.of_same_page (same_page (by omega) (by omega))).1,
      fun h0 => hzero ⟨_, by omega, by omega, h0⟩⟩

/-- The copy reads the byte at the limit, which the scan has not read. It is on the page of the byte
before it or of the one behind it. -/
theorem copy_userByte {len : ℕ} (hpos : 0 < maxlen) (hmax : maxlen ≤ frameSize)
    (hlen : (m.strnlenFrom mem s maxlen 0).2 = some len) {a : BitVec 32}
    (ha : a ∈ m.copyFromUserReads s (len + 1)) : m.UserByte a.toNat := by
  obtain ⟨-, hle, hall, hend⟩ := strnlenFrom_some hlen
  unfold copyFromUserReads at ha
  split at ha
  · rename_i hok
    obtain ⟨-, hlt, hlast⟩ := checkUserRange_ok.1 hok
    have hn : (BitVec.ofNat 32 (len + 1)).toNat = len + 1 := by
      rw [BitVec.toNat_ofNat, Nat.mod_eq_of_lt]
      simp only [frameSize] at hmax
      omega
    rw [hn] at hlt hlast
    have hroom : s.toNat + len < 2 ^ 32 := by
      simp only [kernelVMBase] at hlt
      omega
    obtain ⟨i, hi, rfl⟩ := List.mem_map.1 ha
    rw [List.mem_range] at hi
    have haddr := byteAddr_toNat (s := s) (i := i) (by omega)
    refine ⟨?_, by omega⟩
    rcases Nat.lt_succ_iff_lt_or_eq.1 hi with hi | rfl
    · exact hall i (Nat.zero_le _) hi
    rcases hle.lt_or_eq with hshort | hfull
    · exact hend hshort
    by_cases hpage : (s.toNat + i + 1) % frameSize = 0
    · have hprev := hall (i - 1) (Nat.zero_le _) (by omega)
      rw [byteAddr_toNat (by omega)] at hprev
      rw [haddr, addressIsMapped_congr (y := s.toNat + (i - 1)), hprev]
      simp only [frameSize] at hpage ⊢
      omega
    · rw [haddr, addressIsMapped_congr (y := s.toNat + (i + 1)), hlast]
      simp only [frameSize] at hpage ⊢
      omega
  · simp at ha

end Scan

end Mmu

theorem StringCall.maxlen_pos (c : StringCall) : 0 < c.maxlen := by
  cases c <;> simp [maxlen, maxPortName, maxDeviceNodeName]

theorem StringCall.maxlen_le (c : StringCall) : c.maxlen ≤ frameSize := by
  cases c <;> simp [maxlen, maxPortName, maxDeviceNodeName, frameSize]

theorem StringCall.looks_mapped {c : StringCall} {m : Mmu} {s : BitVec 32}
    (h : c.looks m s = true) : m.addressIsMapped s.toNat = true := by
  cases c <;> exact (Bool.and_eq_true_iff.1 h).2

/-- `room` says whether the kernel has room for the copy. -/
theorem string_reads_safe_iff (m : Mmu) (mem : Memory.Mem) (s : BitVec 32) (c : StringCall)
    (room : Bool) : (∀ a ∈ m.stringReads mem s c room, m.UserByte a.toNat) ↔
      (c.looks m s = true → m.ScansUserPages mem s c.maxlen) := by
  unfold Mmu.stringReads
  by_cases hlooks : c.looks m s = true
  · rw [if_pos hlooks]
    have hscan : (∀ a ∈ (m.strnlenFrom mem s c.maxlen 0).1, m.UserByte a.toNat) ↔
        (c.looks m s = true → m.ScansUserPages mem s c.maxlen) :=
      ⟨fun h _ => Mmu.scansUserPages_of_scan c.maxlen_pos c.maxlen_le h,
        fun h _ => Mmu.scan_of_scansUserPages c.maxlen_le (StringCall.looks_mapped hlooks)
          (h hlooks)⟩
    rw [← hscan]
    rcases hres : m.strnlenFrom mem s c.maxlen 0 with ⟨reads, _ | len⟩
    · simp
    cases room with
    | false => simp
    | true =>
      simp only [if_true, List.mem_append]
      refine ⟨fun h a ha => h a (.inl ha), fun h a ha => ha.elim (h a) fun ha => ?_⟩
      exact Mmu.copy_userByte c.maxlen_pos c.maxlen_le (by rw [hres]) ha
  · rw [if_neg hlooks]
    simp [hlooks]

/-- The string begins with the last byte of a page, and no page follows. -/
theorem unterminated_string_faults :
    ∃ (m : Mmu) (mem : Memory.Mem) (s : BitVec 32), s.toNat < kernelVMBase
      ∧ ∀ c ∈ [StringCall.createObject, .deviceGet procCServer],
        ∃ a ∈ m.stringReads mem s c true, ¬ m.UserByte a.toNat := by
  refine ⟨onePageTable [1], fun _ => 0x61#8, 0x1FFF#32, by decide, fun c hc => ?_⟩
  have hreads : (onePageTable [1]).stringReads (fun _ => 0x61#8) 0x1FFF#32 c true
      = [0x1FFF#32, 0x2000#32] := by
    revert c
    decide +kernel
  refine ⟨0x2000#32, by simp [hreads], fun h => ?_⟩
  have hmapped := h.1
  revert hmapped
  decide +kernel

end DragonWare
