import Mathlib

/-!
# Singly linked lists

`Walk next p l` says that following the successors from `p` visits the cells of `l` and ends.
`after l a` is the cyclic order of the cells from the one behind `a` on.
-/

namespace LinkedList

open List Option

variable {α : Type*} {next next' : α → Option α} {b head : α} {r l' : List α} {succ : α → α}

def Walk (next : α → Option α) : Option α → List α → Prop
  | p, [] => p = none
  | p, a :: l => p = some a ∧ Walk next (next a) l

theorem Walk.congr : ∀ {l : List α} {p : Option α}, Walk next p l →
    (∀ a ∈ l, next' a = next a) → Walk next' p l
  | [], _, h, _ => h
  | a :: l, p, h, hn => by
    refine ⟨h.1, ?_⟩
    rw [hn a mem_cons_self]
    exact h.2.congr fun b hb => hn b (mem_cons_of_mem _ hb)

theorem Walk.unique : ∀ {l l' : List α} {p : Option α}, Walk next p l → Walk next p l' → l = l'
  | [], [], _, _, _ => rfl
  | [], b :: l', p, h, h' => absurd (h'.1.symm.trans h) (by simp)
  | a :: l, [], p, h, h' => absurd (h.1.symm.trans h') (by simp)
  | a :: l, b :: l', p, h, h' => by
    obtain rfl : a = b := some.inj (h.1.symm.trans h'.1)
    rw [h.2.unique h'.2]

theorem Walk.next_ne {a : α} : ∀ {l : List α} {p : Option α}, Walk next p l → a ∈ l →
    next a ≠ some a
  | b :: l, p, h, ha => by
    rcases mem_cons.1 ha with rfl | ha
    · intro hself
      have hl : a :: l = l := Walk.unique (p := some a) ⟨rfl, h.2⟩ (hself ▸ h.2)
      simpa using congrArg length hl
    · exact h.2.next_ne ha

theorem Walk.snoc {a : α} (ha : next' a = some b) (hb : next' b = none) :
    ∀ {l : List α} {p : Option α}, Walk next p (l ++ [a]) → (∀ c ∈ l, next' c = next c) →
      Walk next' p (l ++ [a, b])
  | [], p, h, _ => ⟨h.1, ha, hb⟩
  | c :: l, p, h, hn => by
    refine ⟨h.1, ?_⟩
    rw [hn c mem_cons_self]
    exact Walk.snoc ha hb h.2 fun d hd => hn d (mem_cons_of_mem _ hd)

theorem Walk.unlink {a : α} (ha : next' a = next b) (hr : ∀ c ∈ r, next' c = next c) :
    ∀ {l : List α} {p : Option α}, Walk next p (l ++ a :: b :: r) →
      (∀ c ∈ l, next' c = next c) → Walk next' p (l ++ a :: r)
  | [], p, h, _ => by
    refine ⟨h.1, ?_⟩
    rw [ha]
    exact h.2.2.congr hr
  | c :: l, p, h, hn => by
    refine ⟨h.1, ?_⟩
    rw [hn c mem_cons_self]
    exact Walk.unlink ha hr h.2 fun d hd => hn d (mem_cons_of_mem _ hd)

theorem Walk.behind {a : α} : ∀ {l : List α} {p : Option α},
    Walk next p (l ++ a :: r) → Walk next (next a) r
  | [], _, h => h.2
  | _ :: _, _, h => h.2.behind

/-- Where the successors stay in a finite set and rise in rank, every walk comes to an end. -/
theorem exists_walk {B : Finset α} {rank : α → ℕ} (hB : ∀ a ∈ B, ∀ b, next a = some b → b ∈ B)
    (hrank : ∀ a ∈ B, ∀ b, next a = some b → rank a < rank b) : ∀ (n : ℕ) (a : α), a ∈ B →
    B.sup rank - rank a < n → ∃ l, Walk next (some a) (a :: l) ∧ (a :: l).Nodup
      ∧ (∀ b ∈ a :: l, b ∈ B) ∧ ∀ b ∈ l, rank a < rank b
  | n + 1, a, ha, hn => by
    cases hnext : next a with
    | none => exact ⟨[], ⟨rfl, hnext⟩, by simp, by simpa using ha, by simp⟩
    | some b =>
      have hb : b ∈ B := hB a ha b hnext
      have hab : rank a < rank b := hrank a ha b hnext
      have hsup : rank b ≤ B.sup rank := Finset.le_sup hb
      obtain ⟨l, hw, hnd, hmem, hlt⟩ := exists_walk hB hrank n b hb (by omega)
      have hall : ∀ c ∈ b :: l, rank a < rank c := fun c hc =>
        (mem_cons.1 hc).elim (fun h => h ▸ hab) fun h => hab.trans (hlt c h)
      refine ⟨b :: l, ⟨rfl, hnext ▸ hw⟩, nodup_cons.2 ⟨fun hmem => ?_, hnd⟩, ?_, hall⟩
      · exact lt_irrefl _ (hall a hmem)
      · exact forall_mem_cons.2 ⟨ha, hmem⟩

/-- At most `n` cells of the walk from `p`. -/
def cells (next : α → Option α) : ℕ → Option α → List α
  | _, none => []
  | 0, some _ => []
  | n + 1, some a => a :: cells next n (next a)

theorem Walk.cells_eq : ∀ {l : List α} {p : Option α} {n : ℕ}, Walk next p l → l.length ≤ n →
    cells next n p = l
  | [], p, n, h, _ => by
    rw [show p = none from h]
    cases n <;> rfl
  | a :: l, p, 0, _, hn => by simp at hn
  | a :: l, p, n + 1, h, hn => by
    rw [h.1, cells, h.2.cells_eq (by simpa using hn)]

/-- `succ` leads through the cells of the list in order, and from the last of them to `stop`. -/
def Path (succ : α → α) : List α → α → Prop
  | [], _ => True
  | [a], stop => succ a = stop
  | a :: b :: l, stop => succ a = b ∧ Path succ (b :: l) stop

theorem Path.tail {a stop : α} {l : List α} (h : Path succ (a :: b :: l) stop) :
    Path succ (b :: l) stop := h.2

theorem Path.append {stop : α} (h' : Path succ (b :: l') stop) :
    ∀ {l : List α}, Path succ l b → Path succ (l ++ b :: l') stop
  | [], _ => h'
  | [_], h => ⟨h, h'⟩
  | _ :: c :: l, h => ⟨h.1, Path.append h' (l := c :: l) h.2⟩

theorem Walk.path (head : α) : ∀ {l : List α} {p : Option α}, Walk next p l →
    Path (fun a => (next a).getD head) l head
  | [], _, _ => trivial
  | [a], _, h => by
    have hnone : next a = none := h.2
    simp [Path, hnone]
  | a :: b :: l, _, h => by
    have hnext : next a = some b := h.2.1
    exact ⟨by simp [hnext], h.2.path head⟩

theorem Walk.path_append : ∀ {l : List α} {p : Option α},
    Walk next p (l ++ b :: r) → Path (fun a => (next a).getD head) l b
  | [], _, _ => trivial
  | [a], _, h => by
    have hnext : next a = some b := h.2.1
    simp [Path, hnext]
  | a :: c :: l, _, h => by
    have hnext : next a = some c := h.2.1
    exact ⟨by simp [hnext], Walk.path_append (l := c :: l) h.2⟩

/-- The cells of the list in cyclic order, from the one behind `a` on. -/
def after [DecidableEq α] (l : List α) (a : α) : List α := l.rotate (l.idxOf a + 1)

section After

variable [DecidableEq α] {a : α} {l : List α}

theorem after_append (h : a ∉ l) : after (l ++ a :: l') a = l' ++ (l ++ [a]) := by
  have hlen : (l ++ a :: l').idxOf a + 1 = (l ++ [a]).length := by
    rw [idxOf_append_of_notMem h, idxOf_cons_self, length_append]
    rfl
  rw [after, hlen, show l ++ a :: l' = (l ++ [a]) ++ l' by simp, rotate_append_length_eq]

theorem after_perm (l : List α) (a : α) : (after l a).Perm l := rotate_perm l _

theorem after_rotate_one {c : α} (hl : (c :: l).Nodup) (ha : a ∈ c :: l) :
    after (l ++ [c]) a = after (c :: l) a := by
  rcases mem_cons.1 ha with rfl | hal
  · have hnot : a ∉ l := (nodup_cons.1 hl).1
    rw [after_append hnot, show a :: l = [] ++ a :: l from rfl, after_append List.not_mem_nil]
    simp
  obtain ⟨r, r', rfl⟩ := append_of_mem hal
  obtain ⟨hc, hnd⟩ := nodup_cons.1 hl
  have har : a ∉ r := fun h => (nodup_append.1 hnd).2.2 a h a mem_cons_self rfl
  have hne : a ≠ c := by
    rintro rfl
    exact hc hal
  rw [show r ++ a :: r' ++ [c] = r ++ a :: (r' ++ [c]) by simp, after_append har,
    show c :: (r ++ a :: r') = (c :: r) ++ a :: r' from rfl,
    after_append fun h => (mem_cons.1 h).elim hne har]
  simp

theorem after_rotate (hl : l.Nodup) (ha : a ∈ l) : ∀ n, after (l.rotate n) a = after l a
  | 0 => by rw [rotate_zero]
  | n + 1 => by
    have hperm : (l.rotate n).Perm l := rotate_perm l n
    rw [← after_rotate hl ha n, ← rotate_rotate]
    rcases hr : l.rotate n with _ | ⟨c, m⟩
    · rw [rotate_nil]
    · rw [hr] at hperm
      rw [show (c :: m).rotate 1 = m ++ [c] by simp,
        after_rotate_one (hperm.nodup_iff.2 hl) (hperm.mem_iff.2 ha)]

theorem after_of_after {l1 l2 : List α} (hl : l.Nodup) (h : after l a = l1 ++ b :: l2) :
    after l b = l2 ++ (l1 ++ [b]) := by
  have hperm : (l1 ++ b :: l2).Perm l := h ▸ after_perm l a
  have hnd := hperm.nodup_iff.2 hl
  have hb : b ∉ l1 := fun h => (nodup_append.1 hnd).2.2 b h b mem_cons_self rfl
  have hmem : b ∈ l := hperm.mem_iff.1 (mem_append_right _ mem_cons_self)
  rw [← after_rotate hl hmem (l.idxOf a + 1), show l.rotate (l.idxOf a + 1) = _ from h,
    after_append hb]

/-- A search that starts behind a cell of the walk and goes on at the head meets every cell. -/
theorem Walk.path_after (h : Walk next (some head) l) (hl : l.Nodup) (ha : a ∈ l) :
    ∃ start rest, after l a = start :: rest ∧ (next a).getD head = start
      ∧ Path (fun c => (next c).getD head) (start :: rest) start := by
  obtain ⟨r, r', rfl⟩ := append_of_mem ha
  have har : a ∉ r := fun h => (nodup_append.1 hl).2.2 a h a mem_cons_self rfl
  -- what is before `a` begins at the head
  obtain ⟨m, hm⟩ : ∃ m, r ++ [a] = head :: m := by
    cases r with
    | nil => exact ⟨[], by rw [some.inj h.1]; rfl⟩
    | cons c r => exact ⟨r ++ [a], by rw [some.inj h.1]; rfl⟩
  have hbehind := h.behind
  rw [after_append har]
  cases r' with
  | nil =>
    have hnone : next a = none := hbehind
    have hpath := h.path head
    rw [hm] at hpath
    exact ⟨head, m, hm, by rw [hnone]; rfl, hpath⟩
  | cons b r' =>
    have hsome : next a = some b := hbehind.1
    have hfirst : Path (fun c => (next c).getD head) (r ++ [a]) b :=
      Walk.path_append (p := some head) (r := r') (by simpa using h)
    have hrest := hbehind.path head
    rw [hm] at hfirst ⊢
    exact ⟨b, r' ++ head :: m, rfl, by rw [hsome]; rfl, hfirst.append hrest⟩

end After

end LinkedList
