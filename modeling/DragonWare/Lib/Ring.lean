import Mathlib

/-!
# Ring buffers

A ring of `n` slots holds the `count` values from slot `head` on, wrapping around. The slot after
them is not part of the contents until it is added (`contents_push`).
-/

namespace Ring

open Function List

variable {α : Type*} {slots : ℕ → α} {n head tail count : ℕ}

/-- The head is a slot, the count fits, and the tail is the slot after the contents. -/
structure WellFormed (n head tail count : ℕ) : Prop where
  head_lt : head < n
  count_le : count ≤ n
  tail_eq : tail = (head + count) % n

def contents (slots : ℕ → α) (n head count : ℕ) : List α :=
  (range count).map fun i => slots ((head + i) % n)

section

variable (h : WellFormed n head tail count)

include h

theorem WellFormed.push (hc : count < n) : WellFormed n head ((tail + 1) % n) (count + 1) := by
  refine ⟨h.head_lt, hc, ?_⟩
  rw [h.tail_eq, Nat.mod_add_mod, Nat.add_assoc]

theorem WellFormed.pop (hc : count ≠ 0) : WellFormed n ((head + 1) % n) tail (count - 1) := by
  refine ⟨Nat.mod_lt _ h.head_lt.pos, (Nat.sub_le _ _).trans h.count_le, ?_⟩
  rw [h.tail_eq, Nat.mod_add_mod]
  congr 1
  omega

theorem WellFormed.slot_ne_tail (hc : count < n) {i : ℕ}
    (hi : i < count) : (head + i) % n ≠ tail := by
  have := h.head_lt
  rw [h.tail_eq]
  intro heq
  have hmod : i ≡ count [MOD n] := Nat.ModEq.add_left_cancel' head heq
  have := hmod.eq_of_lt_of_lt (hi.trans hc) hc
  omega

theorem WellFormed.contents_write (hc : count < n) (x : α) :
    contents (update slots tail x) n head count = contents slots n head count := by
  refine map_congr_left fun i hi => ?_
  exact update_of_ne (h.slot_ne_tail hc (mem_range.1 hi)) _ _

theorem WellFormed.contents_push (hc : count < n) (x : α) :
    contents (update slots tail x) n head (count + 1) = contents slots n head count ++ [x] := by
  have hw : contents (update slots tail x) n head count = contents slots n head count :=
    h.contents_write hc x
  unfold contents at hw ⊢
  rw [range_succ, map_append, hw, map_singleton, ← h.tail_eq, update_self]

theorem WellFormed.contents_pop (hc : count ≠ 0) :
    contents slots n head count = slots head :: contents slots n ((head + 1) % n) (count - 1) := by
  obtain ⟨c, rfl⟩ := Nat.exists_eq_succ_of_ne_zero hc
  simp only [contents, range_succ_eq_map, map_cons, map_map, Nat.add_zero,
    Nat.mod_eq_of_lt h.head_lt, Nat.succ_sub_one, cons.injEq, true_and]
  refine map_congr_left fun i _ => ?_
  simp only [comp_apply, Nat.mod_add_mod]
  congr 2
  omega

end

end Ring
