import Mathlib

/-!
# Reference counts

The counts are exact when every object that exists is pointed at by as many slots as it counts, by
one at least, and no slot points at an object that does not exist.
-/

namespace RefCount

open Finset Function

variable {ι κ : Type*} [DecidableEq κ]

structure Store (ι κ : Type*) where
  slot : ι → Option κ
  alive : κ → Bool
  count : κ → ℕ

/-- How many of the slots in `S` point at `o`. -/
def held (S : Finset ι) (slot : ι → Option κ) (o : κ) : ℕ :=
  (S.filter fun j => slot j = some o).card

structure Exact (S : Finset ι) (s : Store ι κ) : Prop where
  count_eq : ∀ o, s.alive o = true → s.count o = held S s.slot o
  alive_of_slot : ∀ j ∈ S, ∀ o, s.slot j = some o → s.alive o = true
  held_pos : ∀ o, s.alive o = true → 0 < held S s.slot o

variable {S : Finset ι} {s : Store ι κ} {slot slot' : ι → Option κ} {j : ι} {o : κ}

theorem held_congr (h : ∀ i ∈ S, slot' i = slot i) (o : κ) : held S slot' o = held S slot o := by
  unfold held
  rw [filter_congr fun i hi => by rw [h i hi]]

theorem held_pos_iff : 0 < held S slot o ↔ ∃ i ∈ S, slot i = some o := by
  simp [held, card_pos, Finset.Nonempty]

theorem Exact.held_eq_zero (h : Exact S s) (ho : s.alive o = false) : held S s.slot o = 0 := by
  by_contra hne
  obtain ⟨i, hi, hs⟩ := held_pos_iff.1 (Nat.pos_of_ne_zero hne)
  simp [h.alive_of_slot i hi o hs] at ho

variable [DecidableEq ι]

theorem held_erase (slot : ι → Option κ) (hj : j ∈ S) (v : Option κ) (o : κ) :
    held S (update slot j v) o = held (S.erase j) slot o + if v = some o then 1 else 0 := by
  have hrest : held (S.erase j) (update slot j v) o = held (S.erase j) slot o :=
    held_congr (fun i hi => update_of_ne (ne_of_mem_erase hi) _ _) o
  rw [← hrest]
  unfold held
  conv_lhs => rw [← insert_erase hj]
  rw [filter_insert, update_self]
  split_ifs
  · rw [card_insert_of_notMem (by simp)]
  · rfl

/-- One slot changes: what it pointed at loses one, what it points at gains one. -/
theorem held_update (slot : ι → Option κ) (hj : j ∈ S) (v : Option κ) (o : κ) :
    held S (update slot j v) o + (if slot j = some o then 1 else 0)
      = held S slot o + if v = some o then 1 else 0 := by
  have h := held_erase slot hj (slot j) o
  rw [update_eq_self] at h
  rw [held_erase slot hj, h]
  omega

namespace Store

def create (s : Store ι κ) (j : ι) (o : κ) : Store ι κ :=
  ⟨update s.slot j (some o), update s.alive o true, update s.count o 1⟩

def share (s : Store ι κ) (j : ι) (o : κ) : Store ι κ :=
  ⟨update s.slot j (some o), s.alive, update s.count o (s.count o + 1)⟩

/-- The last one to let go of an object frees it. -/
def drop (s : Store ι κ) (j : ι) (o : κ) : Store ι κ :=
  if 1 < s.count o then
    ⟨update s.slot j none, s.alive, update s.count o (s.count o - 1)⟩
  else ⟨update s.slot j none, update s.alive o false, s.count⟩

end Store

namespace Exact

theorem congr {S' : Finset ι} {s' : Store ι κ} (h : Exact S s) (hsub : S ⊆ S')
    (hslot : ∀ i ∈ S, s'.slot i = s.slot i) (hnew : ∀ i ∈ S', i ∉ S → s'.slot i = none)
    (halive : s'.alive = s.alive) (hcount : ∀ o, s'.count o = s.count o) : Exact S' s' := by
  have hheld : ∀ o, held S' s'.slot o = held S s.slot o := by
    intro o
    unfold held
    congr 1
    ext i
    simp only [mem_filter]
    constructor
    · rintro ⟨hi, ho⟩
      by_cases hS : i ∈ S
      · exact ⟨hS, hslot i hS ▸ ho⟩
      · simp [hnew i hi hS] at ho
    · rintro ⟨hi, ho⟩
      exact ⟨hsub hi, (hslot i hi).trans ho⟩
  refine ⟨fun o ho => ?_, fun i hi o ho => ?_, fun o ho => ?_⟩
  · rw [hcount, hheld]
    exact h.count_eq o (halive ▸ ho)
  · by_cases hS : i ∈ S
    · rw [halive]
      exact h.alive_of_slot i hS o (hslot i hS ▸ ho)
    · simp [hnew i hi hS] at ho
  · rw [hheld]
    exact h.held_pos o (halive ▸ ho)

theorem create (h : Exact S s) (hj : j ∈ S) (hfree : s.slot j = none) (ho : s.alive o = false) :
    Exact S (s.create j o) := by
  have hheld : ∀ o', held S (s.create j o).slot o'
      = held S s.slot o' + if o = o' then 1 else 0 := by
    intro o'
    simpa [Store.create, hfree] using held_update s.slot hj (some o) o'
  refine ⟨fun o' ho' => ?_, fun i hi o' hi' => ?_, fun o' ho' => ?_⟩
  · rw [hheld]
    by_cases heq : o' = o
    · subst heq
      simp [Store.create, h.held_eq_zero ho]
    · simp only [Store.create, update_of_ne heq] at ho' ⊢
      simp [h.count_eq o' ho', Ne.symm heq]
  · by_cases heq : i = j
    · subst heq
      simp only [Store.create, update_self, Option.some.injEq] at hi'
      simp [Store.create, hi']
    · simp only [Store.create, update_of_ne heq] at hi'
      by_cases ho' : o' = o
      · simp [Store.create, ho']
      · simp [Store.create, ho', h.alive_of_slot i hi o' hi']
  · rw [hheld]
    by_cases heq : o' = o
    · simp [heq]
    · simp only [Store.create, update_of_ne heq] at ho'
      exact Nat.add_pos_left (h.held_pos o' ho') _

theorem share (h : Exact S s) (hj : j ∈ S) (hfree : s.slot j = none) (ho : s.alive o = true) :
    Exact S (s.share j o) := by
  have hheld : ∀ o', held S (s.share j o).slot o'
      = held S s.slot o' + if o = o' then 1 else 0 := by
    intro o'
    simpa [Store.share, hfree] using held_update s.slot hj (some o) o'
  refine ⟨fun o' ho' => ?_, fun i hi o' hi' => ?_, fun o' ho' => ?_⟩
  · rw [hheld]
    by_cases heq : o' = o
    · simp [Store.share, heq, h.count_eq o ho]
    · simp [Store.share, heq, h.count_eq o' ho', Ne.symm heq]
  · by_cases heq : i = j
    · subst heq
      simp only [Store.share, update_self, Option.some.injEq] at hi'
      exact hi' ▸ ho
    · simp only [Store.share, update_of_ne heq] at hi'
      exact h.alive_of_slot i hi o' hi'
  · rw [hheld]
    exact Nat.add_pos_left (h.held_pos o' ho') _

theorem drop (h : Exact S s) (hj : j ∈ S) (hslot : s.slot j = some o) : Exact S (s.drop j o) := by
  have ho := h.alive_of_slot j hj o hslot
  have hcount := h.count_eq o ho
  have hheld : ∀ o', held S (update s.slot j none) o' + (if o = o' then 1 else 0)
      = held S s.slot o' := by
    intro o'
    simpa [hslot] using held_update s.slot hj none o'
  have hself : held S (update s.slot j none) o + 1 = held S s.slot o := by
    simpa using hheld o
  have hother : ∀ o' ≠ o, held S (update s.slot j none) o' = held S s.slot o' := by
    intro o' hne
    simpa [Ne.symm hne] using hheld o'
  have hslot' : ∀ i ∈ S, ∀ o', update s.slot j none i = some o' → s.slot i = some o' := by
    intro i hi o' hi'
    by_cases heq : i = j
    · simp [heq] at hi'
    · simpa [heq] using hi'
  unfold Store.drop
  split_ifs with hmany
  · refine ⟨fun o' ho' => ?_, fun i hi o' hi' => ?_, fun o' ho' => ?_⟩
    · by_cases heq : o' = o
      · subst heq
        simp only [update_self]
        omega
      · simp only [update_of_ne heq, hother o' heq]
        exact h.count_eq o' ho'
    · exact h.alive_of_slot i hi o' (hslot' i hi o' hi')
    · by_cases heq : o' = o
      · simp only [heq]
        omega
      · simp only [hother o' heq]
        exact h.held_pos o' ho'
  · have hzero : held S (update s.slot j none) o = 0 := by
      omega
    refine ⟨fun o' ho' => ?_, fun i hi o' hi' => ?_, fun o' ho' => ?_⟩
    · by_cases heq : o' = o
      · simp [heq] at ho'
      · simp only [update_of_ne heq] at ho'
        simp only [hother o' heq]
        exact h.count_eq o' ho'
    · by_cases heq : o' = o
      · have hpos : 0 < held S (update s.slot j none) o :=
          held_pos_iff.2 ⟨i, hi, heq ▸ hi'⟩
        omega
      · simp only [update_of_ne heq]
        exact h.alive_of_slot i hi o' (hslot' i hi o' hi')
    · by_cases heq : o' = o
      · simp [heq] at ho'
      · simp only [update_of_ne heq] at ho'
        simp only [hother o' heq]
        exact h.held_pos o' ho'

end Exact

end RefCount
