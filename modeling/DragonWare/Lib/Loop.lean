import Mathlib

/-!
# Counted loops

`times f n s` runs the rounds `f 0`, …, `f (n - 1)` from `s`, as long as each of them has a result.
-/

namespace Loop

open Option

variable {σ : Type*} {f : ℕ → σ → Option σ}

def times (f : ℕ → σ → Option σ) : ℕ → σ → Option σ
  | 0, s => some s
  | n + 1, s => (times f n s).bind (f n)

theorem times_round {m : ℕ} : ∀ (n : ℕ) {s t : σ}, times f n s = some t → m < n →
    ∃ u u', times f m s = some u ∧ f m u = some u'
  | 0, _, _, _, hm => by omega
  | n + 1, s, t, h, hm => by
    obtain ⟨u, hu, ht⟩ := bind_eq_some_iff.1 h
    rcases Nat.lt_succ_iff_lt_or_eq.1 hm with hm | rfl
    · exact times_round n hu hm
    · exact ⟨u, t, hu, ht⟩

theorem times_invariant {I : ℕ → σ → Prop} : ∀ (n : ℕ) {s t : σ},
    (∀ k < n, ∀ s s', I k s → f k s = some s' → I (k + 1) s') → I 0 s →
    times f n s = some t → I n t
  | 0, s, t, _, h0, h => by
    simp only [times, some.injEq] at h
    exact h ▸ h0
  | n + 1, s, t, hstep, h0, h => by
    obtain ⟨s', hs, ht⟩ := bind_eq_some_iff.1 h
    have hs' := times_invariant n (fun k hk => hstep k (by omega)) h0 hs
    exact hstep n (by omega) s' t hs' ht

theorem times_total {I : ℕ → σ → Prop} : ∀ (n : ℕ) {s : σ},
    (∀ k < n, ∀ s, I k s → ∃ s', f k s = some s' ∧ I (k + 1) s') → I 0 s →
    ∃ t, times f n s = some t ∧ I n t
  | 0, s, _, h0 => ⟨s, rfl, h0⟩
  | n + 1, s, hstep, h0 => by
    obtain ⟨s', hs, hI⟩ := times_total n (fun k hk => hstep k (by omega)) h0
    obtain ⟨t, ht, hI'⟩ := hstep n (by omega) s' hI
    exact ⟨t, by simp [times, hs, ht], hI'⟩

end Loop
