import DragonWare.HugeAllocation
import DragonWare.Lib.FirstFit

/-!
# The search for a range of free pages

`FindFreePageRange` counts the free pages it has just seen, so it is a search for the first fit,
whatever tells it which pages are mapped.
-/

namespace DragonWare

variable {mapped : ℕ → Bool} {start stop n s : ℕ}

/-- `n` pages from `s` on, between `start` and `stop`, none of them mapped. -/
structure PagesFree (mapped : ℕ → Bool) (start stop n s : ℕ) : Prop where
  aligned : s % frameSize = 0
  lower : start ≤ s
  upper : s + n * frameSize ≤ stop
  unmapped : ∀ j < n, mapped (s + j * frameSize) = false

theorem scanPages_eq (base : ℕ) : ∀ (left i s start count : ℕ),
    count = 0 ∨ s = base + start * frameSize →
    scanPages mapped n left (base + i * frameSize) s count
      = (FirstFit.scan (fun i => !mapped (base + i * frameSize)) n left i start count).elim 0
        fun i => base + i * frameSize
  | 0, _, _, _, _, _ => rfl
  | left + 1, i, s, start, count, hs => by
    have hnext : base + i * frameSize + frameSize = base + (i + 1) * frameSize := by ring
    have hstart : (if count = 0 then base + i * frameSize else s)
        = base + (if count = 0 then i else start) * frameSize := by
      split_ifs with h0
      · rfl
      · exact hs.resolve_left h0
    simp only [scanPages, FirstFit.scan, hnext, hstart]
    cases hm : mapped (base + i * frameSize) with
    | true => simpa using scanPages_eq base left (i + 1) s start 0 (.inl rfl)
    | false =>
      by_cases hn : count + 1 = n
      · simp [hn]
      · simp only [Bool.false_eq_true, if_false, Bool.not_false, if_true, if_neg hn]
        exact scanPages_eq base left (i + 1) _ _ (count + 1) (.inr rfl)

theorem findFreePageRange_eq (h0 : start ≠ 0) (hn : n ≠ 0) :
    findFreePageRange mapped start stop n
      = (FirstFit.scan (fun i => !mapped (start + i * frameSize)) n (pageSteps start stop)
        0 0 0).elim 0 fun i => start + i * frameSize := by
  have hscan : scanPages mapped n _ (start + 0 * frameSize) 0 0 = _ :=
    scanPages_eq start (pageSteps start stop) 0 0 0 0 (.inl rfl)
  rw [Nat.zero_mul, Nat.add_zero] at hscan
  unfold findFreePageRange
  rwa [if_neg (by omega), Nat.add_sub_assoc (by decide)]

theorem PagesFree.row (h : PagesFree mapped start stop n s) (hal : start % frameSize = 0) :
    ∃ k, s = start + k * frameSize ∧ k + n ≤ pageSteps start stop
      ∧ FirstFit.RowAt (fun i => !mapped (start + i * frameSize)) n k := by
  obtain ⟨h1, h2, h3, h4⟩ := h
  obtain ⟨k, rfl⟩ : ∃ k, s = start + k * frameSize := by
    refine ⟨(s - start) / frameSize, ?_⟩
    simp only [frameSize] at *
    omega
  refine ⟨k, rfl, ?_, fun j hj => ?_⟩
  · simp only [pageSteps, frameSize] at *
    omega
  · simp only [Bool.not_eq_true', add_mul, ← add_assoc]
    exact h4 j hj

variable (mapped) in
theorem findFreePageRange_spec (hal : start % frameSize = 0) (hal' : stop % frameSize = 0)
    (h0 : start ≠ 0) (hn : n ≠ 0) :
    (findFreePageRange mapped start stop n = 0 → ∀ s, ¬ PagesFree mapped start stop n s)
      ∧ (findFreePageRange mapped start stop n ≠ 0 →
        IsLeast {s | PagesFree mapped start stop n s} (findFreePageRange mapped start stop n)) := by
  rw [findFreePageRange_eq h0 hn]
  have hzero : FirstFit.Scanned (fun i => !mapped (start + i * frameSize)) n 0 0 0 :=
    .zero (Nat.pos_of_ne_zero hn)
  rcases hs : FirstFit.scan (fun i => !mapped (start + i * frameSize)) n (pageSteps start stop)
    0 0 0 with _ | i
  · refine ⟨fun _ s hfree => ?_, fun h => absurd rfl h⟩
    obtain ⟨k, -, hk, hrow⟩ := hfree.row hal
    exact FirstFit.scan_none _ hzero hs k (by omega) hrow
  obtain ⟨hrow, hle, hfirst⟩ := FirstFit.scan_some _ hzero hs
  refine ⟨fun h => ?_, fun _ => ⟨⟨?_, by simp, ?_, fun j hj => ?_⟩, fun s hfree => ?_⟩⟩
  · exact absurd h (by simp; omega)
  · simp only [Option.elim, frameSize] at *
    omega
  · simp only [Option.elim, pageSteps, frameSize] at *
    omega
  · have := hrow j hj
    simpa [add_mul, add_assoc] using this
  · obtain ⟨k, rfl, -, hrow'⟩ := hfree.row hal
    have hik : i ≤ k := not_lt.1 fun hlt => hfirst k hlt hrow'
    simp only [Option.elim]
    gcongr

/-- The lowest range of free pages that is long enough, or 0 if there is none. -/
theorem find_free_page_range_first_fit (m : Mmu) (start stop n : ℕ) (h0 : start ≠ 0)
    (hal : start % frameSize = 0) (hal' : stop % frameSize = 0) (_ : start ≤ stop)
    (_ : stop ≤ 0xFFC00000) (hn : 1 ≤ n) :
    (findFreePageRange m.isVirtualPageMapped start stop n = 0
        ↔ ¬ ∃ s, PagesFree m.isVirtualPageMapped start stop n s)
      ∧ (findFreePageRange m.isVirtualPageMapped start stop n ≠ 0 →
        IsLeast {s | PagesFree m.isVirtualPageMapped start stop n s}
          (findFreePageRange m.isVirtualPageMapped start stop n)) := by
  obtain ⟨hzero, hleast⟩ := findFreePageRange_spec m.isVirtualPageMapped hal hal' h0
    (Nat.one_le_iff_ne_zero.1 hn)
  refine ⟨⟨fun h => not_exists.2 (hzero h), fun h => ?_⟩, hleast⟩
  by_contra hne
  exact h ⟨_, (hleast hne).1⟩

/-- Only the second page of the kernel is mapped. -/
def secondPage : Mmu :=
  ((⟨0, fun _ _ => 0#32⟩ : Mmu).write 0 768 0x1001#32).write 0x1000 1 0x2001#32

/-- The mapped page starts the count again. -/
theorem find_free_page_range_first_fit_gap :
    secondPage.isVirtualPageMapped 0xC0001000 = true
      ∧ findFreePageRange secondPage.isVirtualPageMapped 0xC0000000 0xC0005000 2 = 0xC0002000
      ∧ IsLeast {s | PagesFree secondPage.isVirtualPageMapped 0xC0000000 0xC0005000 2 s}
        (findFreePageRange secondPage.isVirtualPageMapped 0xC0000000 0xC0005000 2) := by
  have h : findFreePageRange secondPage.isVirtualPageMapped 0xC0000000 0xC0005000 2
      = 0xC0002000 := by decide
  refine ⟨by decide, h, (find_free_page_range_first_fit _ _ _ _ (by decide) (by decide) (by decide)
    (by decide) (by decide) (by decide)).2 ?_⟩
  rw [h]
  decide

end DragonWare
