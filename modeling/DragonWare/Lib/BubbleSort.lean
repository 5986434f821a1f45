import Mathlib

/-!
# Bubble sort

Passing from the end over ever shorter tails sorts (`bubbleSort_sorted`) and keeps the elements.
`sinkSort` passes the other way, stops after a pass without a swap, and sorts too
(`sinkSort_sorted`).
-/

namespace BubbleSort

open List

variable {α β : Type*} [LinearOrder β] (key : α → β)

def bubblePass : List α → List α
  | [] => []
  | a :: l =>
    match bubblePass l with
    | [] => [a]
    | b :: l' => if key b < key a then b :: a :: l' else a :: b :: l'

/-- `n` passes, each over what the one before it left behind its first element. -/
def bubbleSort : ℕ → List α → List α
  | 0, l => l
  | n + 1, l =>
    match bubblePass key l with
    | [] => []
    | b :: l' => b :: bubbleSort n l'

theorem bubblePass_perm : ∀ l : List α, (bubblePass key l).Perm l
  | [] => .nil
  | a :: l => by
    have ih := bubblePass_perm l
    unfold bubblePass
    rcases h : bubblePass key l with _ | ⟨b, l'⟩ <;> rw [h] at ih
    · exact ih.cons a
    simp only []
    split_ifs
    · exact (Perm.swap a b l').trans (ih.cons a)
    · exact ih.cons a

theorem bubblePass_le : ∀ (l : List α) {b : α} {l' : List α}, bubblePass key l = b :: l' →
    ∀ c ∈ l, key b ≤ key c
  | [], b, l', h, c, hc => by cases hc
  | a :: l, b, l', h, c, hc => by
    unfold bubblePass at h
    rcases hp : bubblePass key l with _ | ⟨d, m⟩ <;> rw [hp] at h <;> simp only [] at h
    · have hl : l = [] := by simpa [hp] using (bubblePass_perm key l).symm.length_eq
      subst hl
      simp only [cons.injEq] at h
      rw [mem_singleton.1 hc, h.1]
    have ih := bubblePass_le l hp
    split_ifs at h with hlt <;> simp only [cons.injEq] at h <;>
      rcases mem_cons.1 hc with rfl | hc
    · exact h.1 ▸ hlt.le
    · exact h.1 ▸ ih c hc
    · exact h.1 ▸ le_rfl
    · exact h.1 ▸ (not_lt.1 hlt).trans (ih c hc)

theorem bubbleSort_perm : ∀ (n : ℕ) (l : List α), (bubbleSort key n l).Perm l
  | 0, l => .refl l
  | n + 1, l => by
    have hp := bubblePass_perm key l
    unfold bubbleSort
    rcases h : bubblePass key l with _ | ⟨b, l'⟩ <;> rw [h] at hp
    · exact hp
    · exact ((bubbleSort_perm n l').cons b).trans hp

theorem bubbleSort_sorted : ∀ (n : ℕ) (l : List α), l.length ≤ n + 1 →
    (bubbleSort key n l).Pairwise fun a b => key a ≤ key b
  | 0, l, h => by
    rcases l with _ | ⟨a, _ | ⟨b, l⟩⟩
    · exact .nil
    · exact pairwise_singleton _ a
    · simp at h
  | n + 1, l, h => by
    have hp := bubblePass_perm key l
    unfold bubbleSort
    rcases hb : bubblePass key l with _ | ⟨b, l'⟩ <;> rw [hb] at hp
    · exact .nil
    have hlen : l'.length ≤ n + 1 := by
      have := hp.length_eq
      simp only [length_cons] at this
      omega
    refine pairwise_cons.2 ⟨fun c hc => ?_, bubbleSort_sorted n l' hlen⟩
    refine bubblePass_le key l hb c (hp.subset (mem_cons_of_mem _ ?_))
    exact (bubbleSort_perm key n l').subset hc

/-- `k` comparisons of neighbours from the front on, and whether one of them swapped. -/
def sinkPass : ℕ → List α → List α × Bool
  | 0, l => (l, false)
  | _ + 1, [] => ([], false)
  | _ + 1, [a] => ([a], false)
  | k + 1, a :: b :: l =>
    if key b < key a then (b :: (sinkPass k (a :: l)).1, true)
    else (a :: (sinkPass k (b :: l)).1, (sinkPass k (b :: l)).2)

/-- Passes of `n`, `n - 1`, … comparisons. -/
def sinkSort : ℕ → List α → List α
  | 0, l => l
  | n + 1, l =>
    if (sinkPass key (n + 1) l).2 then sinkSort n (sinkPass key (n + 1) l).1
    else (sinkPass key (n + 1) l).1

theorem sinkPass_perm : ∀ (k : ℕ) (l : List α), (sinkPass key k l).1.Perm l
  | 0, l => .refl l
  | _ + 1, [] => .nil
  | _ + 1, [a] => .refl [a]
  | k + 1, a :: b :: l => by
    unfold sinkPass
    split_ifs
    · exact ((sinkPass_perm k (a :: l)).cons b).trans (.swap a b l)
    · exact (sinkPass_perm k (b :: l)).cons a

theorem sinkSort_perm : ∀ (n : ℕ) (l : List α), (sinkSort key n l).Perm l
  | 0, l => .refl l
  | n + 1, l => by
    have hp := sinkPass_perm key (n + 1) l
    unfold sinkSort
    split_ifs
    · exact (sinkSort_perm n _).trans hp
    · exact hp

/-- A pass over a run leaves its largest element at the end, and what is behind the run alone. -/
theorem sinkPass_max (rest : List α) : ∀ (l : List α) (a : α), ∃ f m,
    (sinkPass key l.length (a :: (l ++ rest))).1 = f ++ m :: rest ∧ f.length = l.length
      ∧ ∀ c ∈ a :: l, key c ≤ key m
  | [], a => ⟨[], a, rfl, rfl, by simp⟩
  | b :: l, a => by
    simp only [length_cons, cons_append, sinkPass]
    split_ifs with hlt
    · obtain ⟨f, m, hf, hlen, hm⟩ := sinkPass_max rest l a
      obtain ⟨ha, hl⟩ := forall_mem_cons.1 hm
      refine ⟨b :: f, m, by simp [hf], by simp [hlen], ?_⟩
      exact forall_mem_cons.2 ⟨ha, forall_mem_cons.2 ⟨hlt.le.trans ha, hl⟩⟩
    · obtain ⟨f, m, hf, hlen, hm⟩ := sinkPass_max rest l b
      refine ⟨a :: f, m, by simp [hf], by simp [hlen], forall_mem_cons.2 ⟨?_, hm⟩⟩
      exact (not_lt.1 hlt).trans (hm b mem_cons_self)

theorem sinkPass_fixed (rest : List α) : ∀ (l : List α) (a : α),
    (sinkPass key l.length (a :: (l ++ rest))).2 = false →
      (sinkPass key l.length (a :: (l ++ rest))).1 = a :: (l ++ rest)
        ∧ (a :: l).IsChain fun b c => key b ≤ key c
  | [], a, _ => ⟨rfl, .singleton a⟩
  | b :: l, a, h => by
    simp only [length_cons, cons_append, sinkPass] at h ⊢
    split_ifs at h ⊢ with hlt
    obtain ⟨heq, hchain⟩ := sinkPass_fixed rest l b h
    exact ⟨by rw [heq], .cons_cons (not_lt.1 hlt) hchain⟩

theorem sinkSort_run : ∀ (n : ℕ) (l rest : List α), l.length = n + 1 →
    rest.Pairwise (fun a b => key a ≤ key b) → (∀ a ∈ l, ∀ b ∈ rest, key a ≤ key b) →
      (sinkSort key n (l ++ rest)).Pairwise fun a b => key a ≤ key b
  | 0, [a], rest, _, hrest, hle => pairwise_cons.2 ⟨hle a (by simp), hrest⟩
  | n + 1, a :: l, rest, hlen, hrest, hle => by
    have hl : l.length = n + 1 := by simpa using hlen
    unfold sinkSort
    rw [← hl, cons_append]
    split_ifs with hs
    · obtain ⟨f, m, hf, hlen, hm⟩ := sinkPass_max key rest l a
      have hperm : (f ++ [m]).Perm (a :: l) := by
        have := sinkPass_perm key l.length (a :: (l ++ rest))
        rw [hf, append_cons, ← cons_append] at this
        exact (perm_append_right_iff rest).1 this
      rw [hf]
      refine sinkSort_run n f (m :: rest) (hlen.trans hl) (pairwise_cons.2 ⟨?_, hrest⟩) ?_
      · exact hle m (hperm.subset (by simp))
      · intro c hc
        have hmem : c ∈ a :: l := hperm.subset (by simp [hc])
        exact forall_mem_cons.2 ⟨hm c hmem, hle c hmem⟩
    · obtain ⟨heq, hchain⟩ := sinkPass_fixed key rest l a (by simpa using hs)
      rw [heq, ← cons_append]
      have : IsTrans α fun a b => key a ≤ key b := ⟨fun _ _ _ => le_trans⟩
      exact pairwise_append.2 ⟨isChain_iff_pairwise.1 hchain, hrest, hle⟩

theorem sinkSort_sorted (l : List α) :
    (sinkSort key (l.length - 1) l).Pairwise fun a b => key a ≤ key b := by
  cases l with
  | nil => exact .nil
  | cons a l => simpa using sinkSort_run key l.length (a :: l) [] rfl .nil (by simp)

end BubbleSort
