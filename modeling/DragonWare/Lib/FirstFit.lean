import Mathlib

/-!
# First fit

The search for the first `n` free slots in a row, by one pass that counts the free slots it has
just seen. The search finds a row if there is one (`scan_none`), and it finds the first
(`scan_some`).
-/

namespace FirstFit

variable (free : ℕ → Bool) (n : ℕ)

/-- Slots `i`, …, `i + n - 1` are free. -/
def RowAt (i : ℕ) : Prop := ∀ j < n, free (i + j) = true

/-- The pass over `fuel` slots from `i` on. The `count` slots before `i` are free, the first of
them being `start`. -/
def scan : ℕ → ℕ → ℕ → ℕ → Option ℕ
  | 0, _, _, _ => none
  | fuel + 1, i, start, count =>
    if free i then
      let start := if count = 0 then i else start
      if count + 1 = n then some start else scan fuel (i + 1) start (count + 1)
    else scan fuel (i + 1) start 0

/-- What the pass knows at slot `i`. -/
structure Scanned (i start count : ℕ) : Prop where
  short : count < n
  start : count = 0 ∨ start + count = i
  le : count ≤ i
  row : ∀ j, i - count ≤ j → j < i → free j = true
  first : ∀ s < i - count, ¬ RowAt free n s

variable {free n} {i start count : ℕ}

theorem Scanned.zero (hn : 0 < n) : Scanned free n 0 0 0 :=
  ⟨hn, .inl rfl, le_rfl, fun _ _ h => absurd h (Nat.not_lt_zero _),
    fun _ h => absurd h (Nat.not_lt_zero _)⟩

theorem Scanned.busy (h : Scanned free n i start count) (hi : free i = false) :
    Scanned free n (i + 1) start 0 := by
  have := h.short
  refine ⟨by omega, .inl rfl, by omega, fun j h1 h2 => absurd h1 (by omega), fun s hs hrow => ?_⟩
  rcases Nat.lt_or_ge s (i - count) with hlt | hge
  · exact h.first s hlt hrow
  -- the row would have to contain slot `i`
  have := hrow (i - s) (by omega)
  rw [show s + (i - s) = i by omega, hi] at this
  cases this

theorem Scanned.next (h : Scanned free n i start count) (hi : free i = true) (hn : count + 1 < n) :
    Scanned free n (i + 1) (if count = 0 then i else start) (count + 1) := by
  have hle := h.le
  refine ⟨hn, .inr ?_, by omega, fun j h1 h2 => ?_, fun s hs => h.first s (by omega)⟩
  · split_ifs with h0
    · omega
    · have := h.start
      omega
  · rcases Nat.lt_or_ge j i with hlt | hge
    · exact h.row j (by omega) hlt
    · rwa [show j = i by omega]

theorem scan_some : ∀ (fuel : ℕ) {i start count s : ℕ}, Scanned free n i start count →
    scan free n fuel i start count = some s →
    RowAt free n s ∧ s + n ≤ i + fuel ∧ ∀ s' < s, ¬ RowAt free n s'
  | 0, _, _, _, _, _, h => by simp [scan] at h
  | fuel + 1, i, start, count, s, hS, h => by
    cases hi : free i with
    | false =>
      simp only [scan, hi, Bool.false_eq_true, if_false] at h
      obtain ⟨hrow, hle, hfirst⟩ := scan_some fuel (hS.busy hi) h
      exact ⟨hrow, by omega, hfirst⟩
    | true =>
      simp only [scan, hi, if_true] at h
      by_cases hn : count + 1 = n
      · rw [if_pos hn, Option.some.injEq] at h
        have hle := hS.le
        have hs : s = i - count := by
          have := hS.start
          rw [← h]
          split_ifs <;> omega
        refine ⟨fun j hj => ?_, by omega, fun s' hs' => hS.first s' (by omega)⟩
        rcases Nat.lt_or_ge j count with hlt | hge
        · exact hS.row _ (by omega) (by omega)
        · rwa [show s + j = i by omega]
      · rw [if_neg hn] at h
        have := hS.short
        obtain ⟨hrow, hle, hfirst⟩ := scan_some fuel (hS.next hi (by omega)) h
        exact ⟨hrow, by omega, hfirst⟩

theorem scan_none : ∀ (fuel : ℕ) {i start count : ℕ}, Scanned free n i start count →
    scan free n fuel i start count = none → ∀ s, s + n ≤ i + fuel → ¬ RowAt free n s
  | 0, i, start, count, hS, _, s, hs => by
    have := hS.short
    exact hS.first s (by omega)
  | fuel + 1, i, start, count, hS, h, s, hs => by
    cases hi : free i with
    | false =>
      simp only [scan, hi, Bool.false_eq_true, if_false] at h
      exact scan_none fuel (hS.busy hi) h s (by omega)
    | true =>
      simp only [scan, hi, if_true] at h
      by_cases hn : count + 1 = n
      · rw [if_pos hn] at h
        cases h
      · rw [if_neg hn] at h
        have := hS.short
        exact scan_none fuel (hS.next hi (by omega)) h s (by omega)

end FirstFit
