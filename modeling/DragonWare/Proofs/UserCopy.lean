import DragonWare.UserCopy

/-!
# Which copies are allowed

A copy is allowed when the first byte of the range and the byte behind its last one are mapped and
below the kernel. A page in the middle is not looked at (`SkipsHole`), and the page behind the range
is (`StopsShort`).
-/

namespace DragonWare

namespace Mmu

variable (m : Mmu) (a n : BitVec 32)

def UserRange : Prop :=
  ∀ i < n.toNat, a.toNat + i < kernelVMBase ∧ m.addressIsMapped (a.toNat + i) = true

/-- A byte of the range is not mapped, and the two that are looked at are. -/
def SkipsHole : Prop :=
  a.toNat + n.toNat < kernelVMBase ∧ m.addressIsMapped a.toNat = true
    ∧ m.addressIsMapped (a.toNat + n.toNat) = true
    ∧ ∃ i < n.toNat, m.addressIsMapped (a.toNat + i) = false

/-- The range ends with a page, and behind it the kernel begins or a page is missing. -/
def StopsShort : Prop :=
  (a.toNat + n.toNat) % frameSize = 0 ∧ m.UserRange a n
    ∧ (a.toNat + n.toNat = kernelVMBase ∨ m.addressIsMapped (a.toNat + n.toNat) = false)

variable {m a n}

theorem additionWouldOverflow_eq_false :
    additionWouldOverflow a n = false ↔ a.toNat + n.toNat < 2 ^ 32 := by
  have ha := a.isLt
  have hn := n.isLt
  rw [additionWouldOverflow, BitVec.toNat_add, decide_eq_false_iff_not]
  by_cases hlt : a.toNat + n.toNat < 2 ^ 32
  · rw [Nat.mod_eq_of_lt hlt]
    omega
  · rw [Nat.mod_eq_sub_mod (not_lt.1 hlt), Nat.mod_eq_of_lt (by omega)]
    omega

theorem checkUserRange_ok : m.checkUserRange a n = .ok ↔
    m.addressIsMapped a.toNat = true ∧ a.toNat + n.toNat < kernelVMBase
      ∧ m.addressIsMapped (a.toNat + n.toNat) = true := by
  have hbase : kernelVMBase < 2 ^ 32 := by decide
  by_cases hlt : a.toNat + n.toNat < 2 ^ 32
  · have hover := additionWouldOverflow_eq_false.2 hlt
    have hend : (a + n).toNat = a.toNat + n.toNat := by
      rw [BitVec.toNat_add, Nat.mod_eq_of_lt hlt]
    simp only [checkUserRange, hover, hend, isUserPointer]
    by_cases hmapped : m.addressIsMapped a.toNat = true
      ∧ m.addressIsMapped (a.toNat + n.toNat) = true
    · by_cases huser : a.toNat + n.toNat < kernelVMBase
      · have ha : a.toNat < kernelVMBase := by omega
        simp [hmapped, huser, ha]
      · simp [hmapped, huser]
    simp only [not_and_or, Bool.not_eq_true] at hmapped
    rcases hmapped with hmapped | hmapped
    · simp [hmapped]
    · simp [hmapped]
  · have hover : additionWouldOverflow a n = true := by
      rw [← Bool.not_eq_false, additionWouldOverflow_eq_false]
      exact hlt
    simp only [checkUserRange, hover]
    refine iff_of_false ?_ fun h => by omega
    split_ifs <;> simp_all

theorem addressIsMapped_congr {x y : ℕ} (h : x / frameSize = y / frameSize) :
    m.addressIsMapped x = m.addressIsMapped y := by
  rw [addressIsMapped, addressIsMapped, h]

theorem checkUserRange_exact_iff (hn : 0 < n.toNat) :
    (m.checkUserRange a n = .ok ↔ m.UserRange a n) ↔ ¬ m.SkipsHole a n ∧ ¬ m.StopsShort a n := by
  have hbase : kernelVMBase % frameSize = 0 := by decide
  rw [checkUserRange_ok]
  constructor
  · refine fun hexact => ⟨?_, ?_⟩
    · rintro ⟨hlt, hfirst, hlast, i, hi, hhole⟩
      have := (hexact.1 ⟨hfirst, hlt, hlast⟩ i hi).2
      simp [hhole] at this
    · rintro ⟨-, hrange, hend⟩
      obtain ⟨-, hlt, hlast⟩ := hexact.2 hrange
      rcases hend with hend | hend
      · omega
      · simp [hend] at hlast
  · rintro ⟨hhole, hshort⟩
    constructor
    · rintro ⟨hfirst, hlt, hlast⟩ i hi
      refine ⟨by omega, ?_⟩
      by_contra hi'
      exact hhole ⟨hlt, hfirst, hlast, i, hi, by simpa using hi'⟩
    · intro hrange
      have hfirst := hrange 0 hn
      have hlast := hrange (n.toNat - 1) (by omega)
      have hprev : a.toNat + (n.toNat - 1) = a.toNat + n.toNat - 1 := by omega
      rw [hprev] at hlast
      refine ⟨by simpa using hfirst.2, ?_⟩
      by_cases hpage : (a.toNat + n.toNat) % frameSize = 0
      · have hend : ¬ (a.toNat + n.toNat = kernelVMBase
            ∨ m.addressIsMapped (a.toNat + n.toNat) = false) :=
          fun h => hshort ⟨hpage, hrange, h⟩
        rw [not_or, Bool.not_eq_false] at hend
        exact ⟨by omega, hend.2⟩
      · -- the byte behind the range is on the page of its last byte
        have hsame : (a.toNat + n.toNat) / frameSize = (a.toNat + n.toNat - 1) / frameSize := by
          simp only [frameSize] at hpage ⊢
          omega
        refine ⟨?_, (addressIsMapped_congr hsame).trans hlast.2⟩
        have hne : a.toNat + n.toNat ≠ kernelVMBase := fun h => hpage (h ▸ hbase)
        omega

end Mmu

theorem copyFromUser_status (m : Mmu) (mem : Memory.Mem) (dest src n : BitVec 32) :
    (copyFromUser m mem dest src n).1 = m.checkUserRange src n := by
  unfold copyFromUser
  split <;> simp_all

theorem copyToUser_status (m : Mmu) (mem : Memory.Mem) (dest src n : BitVec 32) :
    (copyToUser m mem dest src n).1 = m.checkUserRange dest n := by
  unfold copyToUser
  split <;> simp_all

/-- The copies succeed exactly on ranges whose bytes are all mapped user memory, if no page in the
middle is missing and the range does not end with the last page before a missing one or the
kernel. -/
theorem userCopy_exact_iff (m : Mmu) (mem : Memory.Mem) (a other n : BitVec 32) (hn : 0 < n.toNat) :
    (((copyFromUser m mem other a n).1 = .ok ↔ m.UserRange a n)
      ∧ ((copyToUser m mem a other n).1 = .ok ↔ m.UserRange a n))
      ↔ ¬ m.SkipsHole a n ∧ ¬ m.StopsShort a n := by
  rw [copyFromUser_status, copyToUser_status, and_self]
  exact Mmu.checkUserRange_exact_iff hn

def onePageTable (pages : List ℕ) : Mmu where
  cr3 := 0x1000
  table := fun frame j =>
    if frame = 0x1000 ∧ j = 0 then 0x2007#32
    else if frame = 0x2000 ∧ j ∈ pages then 0x3007#32 else 0#32

/-- A page in the middle is missing, or the one behind the range. -/
theorem userCopy_inexact :
    (∃ m a n, 0 < n.toNat ∧ (copyToUser m (fun _ => 0) a 0 n).1 = .ok ∧ ¬ m.UserRange a n)
      ∧ ∃ m a n, 0 < n.toNat ∧ (copyToUser m (fun _ => 0) a 0 n).1 ≠ .ok ∧ m.UserRange a n := by
  refine ⟨⟨onePageTable [1, 3], 0x1000#32, 0x2000#32, by decide, by decide +kernel, fun h => ?_⟩,
    onePageTable [1], 0x1000#32, 0x1000#32, by decide, by decide +kernel, fun i hi => ?_⟩
  · have hhole := (h 0x1000 (by decide)).2
    revert hhole
    decide +kernel
  · have hi' : i < 0x1000 := hi
    have ha : (0x1000#32).toNat = 0x1000 := by decide
    rw [ha]
    refine ⟨by simp only [kernelVMBase]; omega, ?_⟩
    have hpage : (0x1000 + i) / frameSize = 0x1000 / frameSize := by
      simp only [frameSize]
      omega
    rw [Mmu.addressIsMapped_congr hpage]
    decide +kernel

theorem userCopy_exact_iff_one_byte :
    (copyFromUser (onePageTable [1]) (fun _ => 0) 0 0x1000#32 1#32).1 = .ok
      ↔ (onePageTable [1]).UserRange 0x1000#32 1#32 := by
  refine ((userCopy_exact_iff (onePageTable [1]) (fun _ => 0) 0x1000#32 0 1#32
    (by decide)).2 ⟨?_, ?_⟩).1
  · rintro ⟨-, hfirst, -, i, hi, hhole⟩
    obtain rfl : i = 0 := Nat.lt_one_iff.1 hi
    rw [Nat.add_zero, hfirst] at hhole
    exact absurd hhole (by decide)
  · rintro ⟨hend, -⟩
    revert hend
    decide

end DragonWare
