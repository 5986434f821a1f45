import Mathlib

/-!
# Bitmaps packed into words

Bit `n` of a table of `w`-bit words is bit `n % w` of word `n / w`. A scan for a word that is not
full, and a count of trailing ones in it, find the first clear bit (`scanClear_some`).
-/

namespace Bitmap

open BitVec Function Nat

variable {w n : ℕ} {b : ℕ → BitVec w}

/-- Bit `n` of the table. -/
def testBit (b : ℕ → BitVec w) (n : ℕ) : Bool := (b (n / w)).getLsbD (n % w)

def setBit (b : ℕ → BitVec w) (n : ℕ) : ℕ → BitVec w :=
  update b (n / w) (b (n / w) ||| 1#w <<< (n % w))

def clearBit (b : ℕ → BitVec w) (n : ℕ) : ℕ → BitVec w :=
  update b (n / w) (b (n / w) &&& ~~~(1#w <<< (n % w)))

/-- The first clear bit in the `n` words from word `i` on. -/
def scanClear (b : ℕ → BitVec w) : ℕ → ℕ → Option ℕ
  | 0, _ => none
  | n + 1, i =>
    if b i = allOnes w then scanClear b n (i + 1)
    else some (i * w + (~~~(b i)).ctz.toNat)

theorem getLsbD_one_shiftLeft {i j : ℕ} (hi : i < w) : (1#w <<< j).getLsbD i = decide (i = j) := by
  rw [getLsbD_shiftLeft, getLsbD_one]
  by_cases h : i = j
  · subst h
    simp [hi, zero_lt_of_lt hi]
  by_cases hlt : i < j
  · simp [hlt, h]
  · have : ¬ i - j = 0 := by omega
    simp [h, this]

theorem testBit_setBit (hw : 0 < w) (b : ℕ → BitVec w) (n m : ℕ) :
    testBit (setBit b n) m = (testBit b m || decide (m = n)) := by
  unfold testBit setBit
  by_cases hq : m / w = n / w
  · have hm := mod_lt m hw
    rw [hq, update_self, getLsbD_or, getLsbD_one_shiftLeft hm]
    have : m % w = n % w ↔ m = n := by
      constructor
      · intro hr
        rw [← div_add_mod m w, ← div_add_mod n w, hq, hr]
      · rintro rfl; rfl
    simp [this]
  · rw [update_of_ne hq]
    have : m ≠ n := fun h => hq (by rw [h])
    simp [this]

theorem testBit_clearBit (hw : 0 < w) (b : ℕ → BitVec w) (n m : ℕ) :
    testBit (clearBit b n) m = (testBit b m && !decide (m = n)) := by
  unfold testBit clearBit
  by_cases hq : m / w = n / w
  · have hm := mod_lt m hw
    rw [hq, update_self, getLsbD_and, getLsbD_not, getLsbD_one_shiftLeft hm]
    have : m % w = n % w ↔ m = n := by
      constructor
      · intro hr
        rw [← div_add_mod m w, ← div_add_mod n w, hq, hr]
      · rintro rfl; rfl
    simp [this, hm]
  · rw [update_of_ne hq]
    have : m ≠ n := fun h => hq (by rw [h])
    simp [this]

theorem clearBit_setBit (hw : 0 < w) (h : testBit b n = false) : clearBit (setBit b n) n = b := by
  have hn := mod_lt n hw
  unfold testBit at h
  unfold clearBit setBit
  rw [update_self, update_idem, update_eq_self_iff]
  refine eq_of_getLsbD_eq fun i hi => ?_
  rw [getLsbD_and, getLsbD_or, getLsbD_not, getLsbD_one_shiftLeft hi]
  by_cases hin : i = n % w
  · rw [hin, h]
    simp
  · simp [hin, hi]

theorem setBit_of_testBit (h : testBit b n = true) : setBit b n = b := by
  unfold testBit at h
  unfold setBit
  rw [update_eq_self_iff]
  refine eq_of_getLsbD_eq fun i hi => ?_
  rw [getLsbD_or, getLsbD_one_shiftLeft hi]
  by_cases hin : i = n % w
  · rw [hin, h]
    rfl
  · simp [hin]

theorem testBit_of_allOnes (hw : 0 < w) (h : b (n / w) = allOnes w) : testBit b n = true := by
  unfold testBit
  rw [h, getLsbD_allOnes]
  simpa using mod_lt n hw

/-- A word that is not full has its first clear bit where the count of trailing ones says. -/
theorem ctz_not_spec {v : BitVec w} (h : v ≠ allOnes w) :
    (~~~v).ctz.toNat < w ∧ v.getLsbD (~~~v).ctz.toNat = false
      ∧ ∀ i, i < (~~~v).ctz.toNat → v.getLsbD i = true := by
  have hz : ~~~v ≠ 0#w := by
    intro hz
    apply h
    rw [← not_not (b := v), hz, not_zero]
  have ht := getLsbD_true_ctz_of_ne_zero hz
  have hlt : (~~~v).ctz.toNat < w := lt_of_getLsbD ht
  refine ⟨hlt, ?_, fun i hi => ?_⟩
  · simpa [getLsbD_not, hlt] using ht
  · have hf := getLsbD_false_of_lt_ctz hi
    simpa [getLsbD_not, hi.trans hlt] using hf

theorem div_eq_of_bounds {i k : ℕ} (h1 : i * w ≤ k) (h2 : k < (i + 1) * w) : k / w = i :=
  Nat.div_eq_of_lt_le h1 h2

theorem scanClear_some (hw : 0 < w) (b : ℕ → BitVec w) :
    ∀ (n i : ℕ) {k : ℕ}, scanClear b n i = some k →
      i * w ≤ k ∧ k < (i + n) * w ∧ testBit b k = false
        ∧ ∀ j, i * w ≤ j → j < k → testBit b j = true
  | 0, i, k, h => by simp [scanClear] at h
  | n + 1, i, k, h => by
    unfold scanClear at h
    split_ifs at h with hfull
    · obtain ⟨h1, h2, h3, h4⟩ := scanClear_some hw b n (i + 1) h
      refine ⟨by nlinarith, by rwa [show i + (n + 1) = i + 1 + n by omega], h3, fun j hj hjk => ?_⟩
      by_cases hji : j < (i + 1) * w
      · refine testBit_of_allOnes hw ?_
        rwa [div_eq_of_bounds hj hji]
      · exact h4 j (by omega) hjk
    · obtain ⟨hlt, hc, hs⟩ := ctz_not_spec hfull
      simp only [Option.some.injEq] at h
      subst h
      have hdiv : ∀ r, r < w → (i * w + r) / w = i := fun r hr =>
        div_eq_of_bounds (by omega) (by rw [Nat.add_mul]; omega)
      have hmod : ∀ r, r < w → (i * w + r) % w = r := fun r hr => by
        rw [Nat.mul_comm, mul_add_mod, mod_eq_of_lt hr]
      refine ⟨by omega, ?_, ?_, fun j hj hjk => ?_⟩
      · have : (i + 1) * w ≤ (i + (n + 1)) * w := Nat.mul_le_mul_right w (by omega)
        rw [Nat.add_mul] at this
        omega
      · unfold testBit
        rwa [hdiv _ hlt, hmod _ hlt]
      · obtain ⟨r, rfl⟩ := Nat.exists_eq_add_of_le hj
        unfold testBit
        rw [hdiv r (by omega), hmod r (by omega)]
        exact hs r (by omega)

theorem scanClear_none (hw : 0 < w) (b : ℕ → BitVec w) :
    ∀ (n i : ℕ), scanClear b n i = none →
      ∀ j, i * w ≤ j → j < (i + n) * w → testBit b j = true
  | 0, i, _, j, hj, hjn => by rw [Nat.add_zero] at hjn; omega
  | n + 1, i, h, j, hj, hjn => by
    unfold scanClear at h
    split_ifs at h with hfull
    by_cases hji : j < (i + 1) * w
    · refine testBit_of_allOnes hw ?_
      rwa [div_eq_of_bounds hj hji]
    · refine scanClear_none hw b n (i + 1) h j (by omega) ?_
      rwa [show i + 1 + n = i + (n + 1) by omega]

end Bitmap
