import DragonWare.Strings

/-!
# What the string functions compute

A comparison over `n` characters is one of the first `n` characters (`strncmp_eq_zero`), and
`strchr` finds the last place of a character, not the first (`strchr_append`).
-/

namespace DragonWare

open List

variable {l l' : List (BitVec 8)} {c : BitVec 8} {n i : ℕ}

theorem getD_ne_zero (h : 0 ∉ l) (hi : i < l.length) : l.getD i 0 ≠ 0 := by
  rw [getD_eq_getElem _ _ hi]
  intro h0
  exact h (h0 ▸ getElem_mem hi)

theorem getD_eq_zero_iff (h : 0 ∉ l) : l.getD i 0 = 0 ↔ l.length ≤ i := by
  refine ⟨fun h0 => ?_, fun hi => getD_eq_default _ _ hi⟩
  by_contra hi
  exact getD_ne_zero h (not_le.1 hi) h0

theorem drop_eq (l : List (BitVec 8)) (i : ℕ) :
    l.length ≤ i ∧ l.drop i = [] ∨ i < l.length ∧ l.drop i = l.getD i 0 :: l.drop (i + 1) := by
  rcases le_or_gt l.length i with hi | hi
  · exact .inl ⟨hi, drop_eq_nil_of_le hi⟩
  · refine .inr ⟨hi, ?_⟩
    rw [getD_eq_getElem _ _ hi]
    exact drop_eq_getElem_cons hi

theorem strncmpFrom_eq_zero (h : 0 ∉ l) (h' : 0 ∉ l') : ∀ left i : ℕ,
    strncmpFrom (fun j => l.getD j 0) (fun j => l'.getD j 0) left i = 0
      ↔ (l.drop i).take left = (l'.drop i).take left
  | 0, i => by simp [strncmpFrom]
  | left + 1, i => by
    unfold strncmpFrom
    by_cases heq : l.getD i 0 = l'.getD i 0
    · rw [heq, if_neg (BitVec.lt_irrefl _), if_neg (BitVec.lt_irrefl _)]
      rcases drop_eq l i with ⟨hi, hd⟩ | ⟨hi, hd⟩
      · -- both strings end here
        have h0 : l'.getD i 0 = 0 := heq ▸ (getD_eq_zero_iff h).2 hi
        have hd' : l'.drop i = [] := drop_eq_nil_of_le ((getD_eq_zero_iff h').1 h0)
        rw [if_pos ⟨h0, h0⟩, hd, hd']
        exact iff_of_true rfl rfl
      · have hne : l'.getD i 0 ≠ 0 := heq ▸ getD_ne_zero h hi
        have hi' : i < l'.length := by
          by_contra hge
          exact hne ((getD_eq_zero_iff h').2 (not_lt.1 hge))
        obtain ⟨hge, -⟩ | ⟨-, hd'⟩ := drop_eq l' i
        · omega
        · rw [if_neg fun h0 => hne h0.1, hd, hd', heq, take_succ_cons, take_succ_cons,
            cons.injEq, and_iff_right rfl]
          exact strncmpFrom_eq_zero h h' left (i + 1)
    · have hdrop : (l.drop i).take (left + 1) ≠ (l'.drop i).take (left + 1) := by
        intro hd
        apply heq
        have hhead := congrArg (fun x => x.getD 0 0) hd
        simpa [getD_eq_getElem?_getD, getElem?_take, getElem?_drop] using hhead
      refine iff_of_false ?_ hdrop
      split_ifs with hz hl hg
      · exact absurd (hz.1.trans hz.2.symm) heq
      · decide
      · decide
      · exact absurd (BitVec.le_antisymm (BitVec.not_lt.1 hg) (BitVec.not_lt.1 hl)) heq

theorem strncmp_eq_zero (h : 0 ∉ l) (h' : 0 ∉ l') (n : ℕ) :
    strncmp (fun j => l.getD j 0) (fun j => l'.getD j 0) n = 0 ↔ l.take n = l'.take n := by
  simpa [strncmp] using strncmpFrom_eq_zero h h' n 0

theorem eq_of_take_eq (hn : l.length < n) : l.take n = l'.take n ↔ l = l' := by
  refine ⟨fun h => ?_, fun h => by rw [h]⟩
  rw [take_of_length_le hn.le] at h
  have hlen := congrArg length h
  rw [length_take] at hlen
  rw [h, take_of_length_le (by omega)]

theorem strncpyFrom_eq (h : 0 ∉ l) : ∀ left i : ℕ,
    strncpyFrom (fun j => l.getD j 0) left i
      = (l.drop i).take left ++ replicate (left - (l.drop i).length) 0
  | 0, i => by simp [strncpyFrom]
  | left + 1, i => by
    unfold strncpyFrom
    rcases drop_eq l i with ⟨hi, hd⟩ | ⟨hi, hd⟩
    · rw [if_pos ((getD_eq_zero_iff h).2 hi), hd]
      rfl
    · rw [if_neg (getD_ne_zero h hi), strncpyFrom_eq h left (i + 1), hd]
      simp

theorem strncpy_set (h : 0 ∉ l) (hn : 0 < n) :
    (strncpy (fun j => l.getD j 0) n).set (n - 1) 0
      = l.take (n - 1) ++ replicate (n - (l.take (n - 1)).length) 0 := by
  obtain ⟨n, rfl⟩ : ∃ m, n = m + 1 := ⟨n - 1, by omega⟩
  rw [strncpy, strncpyFrom_eq h, drop_zero, Nat.add_sub_cancel]
  refine ext_getElem ?_ fun i h1 h2 => ?_
  · simp
    omega
  · simp only [length_set, length_append, length_take, length_replicate] at h1
    simp only [getElem_set, getElem_append, getElem_take, getElem_replicate, length_take]
    split_ifs <;> first | rfl | omega

theorem strncpy_set_of_lt (h : 0 ∉ l) (hn : l.length < n) :
    (strncpy (fun j => l.getD j 0) n).set (n - 1) 0 = l ++ replicate (n - l.length) 0 := by
  rw [strncpy_set h (by omega), take_of_length_le (by omega)]

theorem getD_append_zeros (k i : ℕ) : (l ++ replicate k 0).getD i 0 = l.getD i 0 := by
  rcases lt_or_ge i l.length with hi | hi
  · rw [getD_append _ _ _ _ hi]
  rw [getD_append_right _ _ _ _ hi, getD_eq_default l _ hi]
  rcases lt_or_ge (i - l.length) k with hk | hk
  · rw [getD_eq_getElem _ _ (by simpa using hk), getElem_replicate]
  · rw [getD_eq_default _ _ (by simpa using hk)]

theorem strcmpFrom_eq_zero (h : 0 ∉ l) : ∀ (cs : List (BitVec 8)) (i : ℕ), 0 ∉ cs →
    (strcmpFrom (fun j => l.getD j 0) cs i = 0 ↔ l.drop i = cs)
  | [], i, _ => by
    unfold strcmpFrom
    rw [drop_eq_nil_iff, ← getD_eq_zero_iff h]
    refine ⟨fun h0 => BitVec.eq_of_toNat_eq ?_, fun h0 => ?_⟩
    · simpa using h0
    · rw [h0]
      rfl
  | c :: cs, i, hc => by
    obtain ⟨hc0, hcs⟩ := not_or.1 (mt mem_cons.2 hc)
    unfold strcmpFrom
    rcases drop_eq l i with ⟨hi, hd⟩ | ⟨hi, hd⟩
    · have h0 : l.getD i 0 = 0 := (getD_eq_zero_iff h).2 hi
      rw [h0, if_pos hc0, hd]
      refine iff_of_false (fun hz => hc0 (BitVec.eq_of_toNat_eq ?_)) (by simp)
      have hc' : c.toNat = 0 := by simpa using hz
      simp [hc']
    · rw [hd, cons.injEq]
      by_cases heq : l.getD i 0 = c
      · rw [if_neg (not_not.2 heq), and_iff_right heq]
        exact strcmpFrom_eq_zero h cs (i + 1) hcs
      · rw [if_pos heq]
        refine iff_of_false (fun hz => heq (BitVec.eq_of_toNat_eq ?_)) fun hand => heq hand.1
        omega

theorem strcmp_eq_zero (h : 0 ∉ l) (h' : 0 ∉ l') :
    strcmp (fun j => l.getD j 0) l' = 0 ↔ l = l' := by
  simpa [strcmp] using strcmpFrom_eq_zero h l' 0 h'

theorem strchrFrom_eq_none : ∀ {n : ℕ}, (∀ j < n, l.getD j 0 ≠ c) →
    strchrFrom l c n = none
  | 0, _ => rfl
  | n + 1, h => by
    rw [strchrFrom, if_neg (h n (Nat.lt_succ_self n))]
    exact strchrFrom_eq_none fun j hj => h j (Nat.lt_succ_of_lt hj)

theorem strchrFrom_eq_some {k : ℕ} (hk : l.getD k 0 = c) : ∀ {n : ℕ}, k < n →
    (∀ j, k < j → j < n → l.getD j 0 ≠ c) → strchrFrom l c n = some k
  | n + 1, hn, h => by
    unfold strchrFrom
    rcases (Nat.lt_succ_iff.1 hn).lt_or_eq with hlt | rfl
    · rw [if_neg (h n hlt (Nat.lt_succ_self n))]
      exact strchrFrom_eq_some hk hlt fun j hj hjn => h j hj (Nat.lt_succ_of_lt hjn)
    · rw [if_pos hk]

theorem getD_ne_of_notMem (hc : c ≠ 0) (h : c ∉ l) (i : ℕ) : l.getD i 0 ≠ c := by
  rcases lt_or_ge i l.length with hi | hi
  · rw [getD_eq_getElem _ _ hi]
    intro heq
    exact h (heq ▸ getElem_mem hi)
  · rw [getD_eq_default _ _ hi]
    exact hc.symm

theorem strchr_eq_none (hc : c ≠ 0) (h : c ∉ l) : strchr l c = none :=
  strchrFrom_eq_none fun j _ => getD_ne_of_notMem hc h j

theorem strchr_append (hc : c ≠ 0) (h : c ∉ l') : strchr (l ++ c :: l') c = some l.length := by
  refine strchrFrom_eq_some (by simp) (by simp) fun j hj _ => ?_
  obtain ⟨i, rfl⟩ : ∃ i, j = l.length + (i + 1) := ⟨j - l.length - 1, by omega⟩
  rw [getD_append_right _ _ _ _ (by omega), Nat.add_sub_cancel_left]
  exact getD_ne_of_notMem hc h i

end DragonWare
