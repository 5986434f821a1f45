import Mathlib

/-!
# Byte memory and free lists threaded through it

A pointer is a little-endian word of four bytes. A free list is a chain of pointers, each stored in
the first bytes of the block before (`Linked`).
-/

namespace Memory

open BitVec

/-- Memory, by byte address. -/
abbrev Mem := ℕ → BitVec 8

variable {a n p size r x : ℕ} {m m' src' : Mem}

def read32 (m : Mem) (a : ℕ) : BitVec 32 := m (a + 3) ++ m (a + 2) ++ m (a + 1) ++ m a

def write32 (m : Mem) (a : ℕ) (v : BitVec 32) : Mem := fun x =>
  if a ≤ x ∧ x < a + 4 then v.extractLsb' (8 * (x - a)) 8 else m x

def read16 (m : Mem) (a : ℕ) : BitVec 16 := m (a + 1) ++ m a

/-- Copy the first `n` bytes of `src` to `a`. -/
def blit (m : Mem) (a n : ℕ) (src : Mem) : Mem := fun x =>
  if a ≤ x ∧ x < a + n then src (x - a) else m x

def readPtr (m : Mem) (a : ℕ) : ℕ := (read32 m a).toNat

def writePtr (m : Mem) (a p : ℕ) : Mem := write32 m a (BitVec.ofNat 32 p)

theorem read32_congr (h : ∀ x, a ≤ x → x < a + 4 → m' x = m x) : read32 m' a = read32 m a := by
  unfold read32
  rw [h a (by omega) (by omega), h (a + 1) (by omega) (by omega), h (a + 2) (by omega) (by omega),
    h (a + 3) (by omega) (by omega)]

theorem read32_write32 (m : Mem) (a : ℕ) (v : BitVec 32) : read32 (write32 m a v) a = v := by
  have hb : ∀ k, k < 4 → write32 m a v (a + k) = v.extractLsb' (8 * k) 8 := fun k hk => by
    unfold write32
    rw [if_pos (by omega), Nat.add_sub_cancel_left]
  have h0 := hb 0 (by omega)
  rw [Nat.add_zero] at h0
  unfold read32
  rw [hb 3 (by omega), hb 2 (by omega), hb 1 (by omega), h0]
  ext i hi
  simp only [getElem_append, getElem_extractLsb']
  split_ifs
  · rw [Nat.mul_zero, Nat.zero_add, getLsbD_eq_getElem hi]
  all_goals
    rw [getLsbD_eq_getElem (by omega)]
    congr 1
    omega

theorem extractLsb_read32 (m : Mem) (a : ℕ) (hr : r < 4) :
    (read32 m a).extractLsb' (8 * r) 8 = m (a + r) := by
  refine eq_of_getLsbD_eq fun i hi => ?_
  unfold read32
  rw [getLsbD_extractLsb']
  simp only [getLsbD_append, hi, decide_true, Bool.true_and]
  interval_cases r <;> split_ifs <;> first | omega | (congr 1; omega)

theorem write32_of_not_mem {v : BitVec 32} (h : x < a ∨ a + 4 ≤ x) : write32 m a v x = m x := by
  unfold write32
  rw [if_neg (by omega)]

theorem blit_zero (m src : Mem) (a : ℕ) : blit m a 0 src = m := by
  funext x
  unfold blit
  rw [if_neg (by omega)]

theorem blit_blit {src : Mem} (h : ∀ k < n, src' k = src (r + k)) :
    blit (blit m a r src) (a + r) n src' = blit m a (r + n) src := by
  funext x
  unfold blit
  by_cases hx : a + r ≤ x ∧ x < a + r + n
  · rw [if_pos hx, if_pos (by omega), h _ (by omega)]
    congr 1
    omega
  rw [if_neg hx]
  by_cases hr : a ≤ x ∧ x < a + r
  · rw [if_pos hr, if_pos (by omega)]
  · rw [if_neg hr, if_neg (by omega)]

theorem blit_congr {src : Mem} (h : ∀ k < n, src' k = src k) :
    blit m a n src' = blit m a n src := by
  funext x
  unfold blit
  split_ifs with hx
  · exact h _ (by omega)
  · rfl

theorem readPtr_writePtr (m : Mem) (a : ℕ) (hp : p < 2 ^ 32) : readPtr (writePtr m a p) a = p := by
  unfold readPtr writePtr
  rw [read32_write32, toNat_ofNat, Nat.mod_eq_of_lt hp]

theorem writePtr_of_not_mem (h : x < a ∨ a + 4 ≤ x) : writePtr m a p x = m x :=
  write32_of_not_mem h

/-- Following the pointers from `p` visits the blocks of `l` and ends in a null pointer. -/
def Linked (m : Mem) : ℕ → List ℕ → Prop
  | p, [] => p = 0
  | p, a :: l => p = a ∧ a ≠ 0 ∧ Linked m (readPtr m a) l

theorem Linked.congr :
    ∀ {l : List ℕ} {p : ℕ}, Linked m p l → (∀ a ∈ l, ∀ x, a ≤ x → x < a + 4 → m' x = m x) →
      Linked m' p l
  | [], _, h, _ => h
  | a :: l, p, h, hm => by
    refine ⟨h.1, h.2.1, ?_⟩
    have : readPtr m' a = readPtr m a := by
      unfold readPtr
      rw [read32_congr (hm a List.mem_cons_self)]
    rw [this]
    exact h.2.2.congr fun b hb => hm b (List.mem_cons_of_mem _ hb)

theorem Linked.push {l : List ℕ} (h : Linked m p l) (ha : a ≠ 0) (hp : p < 2 ^ 32)
    (hout : ∀ b ∈ l, b + 4 ≤ a ∨ a + 4 ≤ b) : Linked (writePtr m a p) a (a :: l) := by
  refine ⟨rfl, ha, ?_⟩
  rw [readPtr_writePtr m a hp]
  refine h.congr fun b hb x hx hx' => writePtr_of_not_mem ?_
  have := hout b hb
  omega

/-- Link `n + 1` adjacent blocks of `size` bytes from `p` on, in order. -/
def thread (size : ℕ) : ℕ → ℕ → Mem → Mem
  | 0, p, m => writePtr m p 0
  | n + 1, p, m => thread size n (p + size) (writePtr m p (p + size))

theorem thread_of_not_mem (hs : 4 ≤ size) :
    ∀ (n p : ℕ) (m : Mem) {x : ℕ}, x < p ∨ p + (n + 1) * size ≤ x → thread size n p m x = m x
  | 0, p, m, x, hx => by
    rw [Nat.zero_add, Nat.one_mul] at hx
    exact writePtr_of_not_mem (by omega)
  | n + 1, p, m, x, hx => by
    have hx' : x < p ∨ p + size + (n + 1) * size ≤ x := by
      rwa [Nat.add_assoc, Nat.add_comm size, ← Nat.succ_mul]
    unfold thread
    rw [thread_of_not_mem hs n (p + size) _ (by omega), writePtr_of_not_mem]
    rcases hx' with h | h
    · exact .inl h
    · exact .inr (by omega)

/-- The adjacent blocks. -/
def blocks (size n p : ℕ) : List ℕ := (List.range n).map fun k => p + k * size

theorem mem_blocks : a ∈ blocks size n p ↔ ∃ k < n, a = p + k * size := by
  simp [blocks, eq_comm]

theorem blocks_nodup (hs : 0 < size) (n p : ℕ) : (blocks size n p).Nodup := by
  refine List.nodup_range.map fun i j hij => ?_
  exact Nat.eq_of_mul_eq_mul_right hs (Nat.add_left_cancel hij)

theorem blocks_succ (size n p : ℕ) : blocks size (n + 1) p = p :: blocks size n (p + size) := by
  unfold blocks
  rw [List.range_succ_eq_map, List.map_cons, List.map_map, Nat.zero_mul, Nat.add_zero]
  congr 2
  funext k
  simp only [Function.comp_apply, Nat.succ_eq_add_one]
  ring

theorem blocks_disjoint {b : ℕ} (ha : a ∈ blocks size n p) (hb : b ∈ blocks size n p)
    (hne : a ≠ b) : a + size ≤ b ∨ b + size ≤ a := by
  obtain ⟨i, -, rfl⟩ := mem_blocks.1 ha
  obtain ⟨j, -, rfl⟩ := mem_blocks.1 hb
  rcases Nat.lt_trichotomy i j with h | h | h
  · have := Nat.mul_le_mul_right size (Nat.succ_le_of_lt h)
    rw [Nat.succ_mul] at this
    omega
  · exact absurd (by rw [h]) hne
  · have := Nat.mul_le_mul_right size (Nat.succ_le_of_lt h)
    rw [Nat.succ_mul] at this
    omega

theorem linked_thread (hs : 4 ≤ size) :
    ∀ (n p : ℕ) (m : Mem), p ≠ 0 → p + n * size < 2 ^ 32 →
      Linked (thread size n p m) p (blocks size (n + 1) p)
  | 0, p, m, hp, _ => ⟨by simp, by simpa using hp, by
      simp only [Nat.zero_mul, Nat.add_zero, List.map_nil]
      exact readPtr_writePtr m p (by omega)⟩
  | n + 1, p, m, hp, hlt => by
    have hlt' : p + size + n * size < 2 ^ 32 := by
      rw [Nat.succ_mul] at hlt
      omega
    rw [blocks_succ]
    refine ⟨rfl, hp, ?_⟩
    have hread : readPtr (thread size (n + 1) p m) p = p + size := by
      unfold thread
      unfold readPtr
      rw [read32_congr (m := writePtr m p (p + size)) fun x _ hx =>
        thread_of_not_mem hs n (p + size) _ (.inl (by omega))]
      exact readPtr_writePtr m p (by omega)
    rw [hread]
    exact linked_thread hs n (p + size) _ (by omega) hlt'

end Memory
