import Mathlib

/-!
# A cache of slots in front of a store

Several keys may lead to one place of the store (`addr`). A cache is coherent when every slot holds
what its place holds.
-/

namespace SlotCache

open Function

variable {ι K V T : Type*}

abbrev Slots (ι K V : Type*) := ι → Option (K × V)

def load [DecidableEq ι] (c : Slots ι K V) (i : ι) (k : K) (v : V) : Slots ι K V :=
  update c i (some (k, v))

def drop [DecidableEq K] (c : Slots ι K V) (k : K) : Slots ι K V := fun i => (c i).filter (·.1 ≠ k)

/-- No key is in two slots. -/
def Distinct (c : Slots ι K V) : Prop :=
  ∀ i j k v w, c i = some (k, v) → c j = some (k, w) → i = j

def Coherent (addr : K → T) (store : T → V) (c : Slots ι K V) : Prop :=
  ∀ i k v, c i = some (k, v) → v = store (addr k)

variable {c : Slots ι K V} {addr : K → T} {store : T → V}

theorem load_eq_some [DecidableEq ι] {i j : ι} {k k' : K} {v w : V}
    (h : load c i k v j = some (k', w)) : j = i ∧ k' = k ∧ w = v ∨ j ≠ i ∧ c j = some (k', w) := by
  unfold load at h
  by_cases hj : j = i
  · rw [hj, update_self, Option.some.injEq, Prod.mk.injEq] at h
    exact .inl ⟨hj, h.1.symm, h.2.symm⟩
  · rw [update_of_ne hj] at h
    exact .inr ⟨hj, h⟩

theorem drop_eq_some [DecidableEq K] {i : ι} {k k' : K} {v : V} :
    drop c k i = some (k', v) ↔ c i = some (k', v) ∧ k' ≠ k := by
  unfold drop
  rw [Option.filter_eq_some_iff]
  simp

theorem Distinct.load [DecidableEq ι] (hc : Distinct c) {k : K}
    (hk : ∀ i v, c i ≠ some (k, v)) (i : ι) (v : V) : Distinct (load c i k v) := by
  intro a b k' x y ha hb
  rcases load_eq_some ha with ⟨rfl, rfl, -⟩ | ⟨-, ha'⟩ <;>
    rcases load_eq_some hb with ⟨hbi, hkb, -⟩ | ⟨-, hb'⟩
  · exact hbi.symm
  · exact absurd hb' (hk b y)
  · exact absurd (hkb ▸ ha') (hk a x)
  · exact hc a b k' x y ha' hb'

theorem Distinct.drop [DecidableEq K] (hc : Distinct c) (k : K) : Distinct (drop c k) :=
  fun i j k' v w hi hj => hc i j k' v w (drop_eq_some.1 hi).1 (drop_eq_some.1 hj).1

theorem Coherent.load [DecidableEq ι] (hc : Coherent addr store c) (i : ι) (k : K) :
    Coherent addr store (load c i k (store (addr k))) := by
  intro j k' v h
  rcases load_eq_some h with ⟨-, rfl, rfl⟩ | ⟨-, h⟩
  · rfl
  · exact hc j k' v h

/-- A write that leaves the cache alone keeps it coherent when all slots of its place have the
value already. -/
theorem Coherent.write_iff [DecidableEq T] (hc : Coherent addr store c) (t : T) (v : V) :
    Coherent addr (update store t v) c ↔ ∀ i k w, c i = some (k, w) → addr k = t → w = v := by
  constructor
  · rintro h i k w hi rfl
    rw [h i k w hi, update_self]
  · intro h i k w hi
    by_cases ht : addr k = t
    · rw [ht, update_self]
      exact h i k w hi ht
    · rw [update_of_ne ht]
      exact hc i k w hi

theorem Coherent.drop_write_iff [DecidableEq K] [DecidableEq T] (hc : Coherent addr store c)
    (k : K) (t : T) (v : V) :
    Coherent addr (update store t v) (drop c k) ↔
      ∀ i k' w, c i = some (k', w) → addr k' = t → k' = k ∨ w = v := by
  have hdrop : Coherent addr store (drop c k) :=
    fun i k' w hi => hc i k' w (drop_eq_some.1 hi).1
  rw [hdrop.write_iff]
  constructor
  · intro h i k' w hi ht
    by_cases hk : k' = k
    · exact .inl hk
    · exact .inr (h i k' w (drop_eq_some.2 ⟨hi, hk⟩) ht)
  · intro h i k' w hi ht
    obtain ⟨hi, hk⟩ := drop_eq_some.1 hi
    exact (h i k' w hi ht).resolve_left hk

end SlotCache
