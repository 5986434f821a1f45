import Mathlib

/-!
# Computations that can fail

What the result of a sequence of steps in `Except` says about each step.
-/

namespace Fallible

open List

universe u v

variable {ε : Type v} {α β : Type u} {x : Except ε α} {f : α → Except ε β} {e : ε} {b : β}

@[simp]
theorem pure_eq (a : α) : (pure a : Except ε α) = .ok a := rfl

theorem bind_eq_ok : x >>= f = .ok b ↔ ∃ a, x = .ok a ∧ f a = .ok b := by
  cases x with
  | error e => simp [Bind.bind, Except.bind]
  | ok a => simp [Bind.bind, Except.bind]

theorem bind_eq_error : x >>= f = .error e ↔ x = .error e ∨ ∃ a, x = .ok a ∧ f a = .error e := by
  cases x with
  | error e => simp [Bind.bind, Except.bind]
  | ok a => simp [Bind.bind, Except.bind]

theorem map_eq_ok {f : α → β} : f <$> x = .ok b ↔ ∃ a, x = .ok a ∧ f a = b := by
  cases x with
  | error e => simp [Functor.map, Except.map]
  | ok a => simp [Functor.map, Except.map]

theorem map_eq_error {f : α → β} : f <$> x = .error e ↔ x = .error e := by
  cases x with
  | error e => simp [Functor.map, Except.map]
  | ok a => simp [Functor.map, Except.map]

theorem toOption_eq_some {a : α} : x.toOption = some a ↔ x = .ok a := by
  cases x with
  | error e => simp [Except.toOption]
  | ok b => simp [Except.toOption]

theorem foldlM_range {f : α → ℕ → Except ε α} {I : ℕ → α → Prop} {s : α} (h0 : I 0 s) :
    ∀ {n : ℕ} {t : α}, (∀ i a b, i < n → I i a → f a i = .ok b → I (i + 1) b) →
      (range n).foldlM f s = .ok t → I n t
  | 0, t, _, h => by
    cases h
    exact h0
  | n + 1, t, hstep, h => by
    rw [range_succ, foldlM_append] at h
    obtain ⟨a, ha, h⟩ := bind_eq_ok.1 h
    obtain ⟨b, hb, h⟩ := bind_eq_ok.1 h
    cases h
    have hI := foldlM_range h0 (fun i a b hi => hstep i a b (hi.trans n.lt_succ_self)) ha
    exact hstep n a t n.lt_succ_self hI hb

/-- The computation does not fail with one of these errors. -/
def Avoids (bad : ε → Prop) (x : Except ε α) : Prop := ∀ e, x = .error e → ¬ bad e

variable {bad : ε → Prop}

theorem Avoids.ok (a : α) : Avoids bad (.ok a) := by
  intro e h
  cases h

theorem Avoids.error (he : ¬ bad e) : Avoids bad (.error e : Except ε α) := by
  intro e' h
  cases h
  exact he

theorem Avoids.bind (hx : Avoids bad x)
    (hf : ∀ a, x = .ok a → Avoids bad (f a)) : Avoids bad (x >>= f) := by
  intro e h
  rcases bind_eq_error.1 h with h | ⟨a, ha, h⟩
  · exact hx e h
  · exact hf a ha e h

theorem Avoids.map (f : α → β) (hx : Avoids bad x) : Avoids bad (f <$> x) :=
  fun e h => hx e (map_eq_error.1 h)

theorem Avoids.foldlM {γ : Type*} {f : α → γ → Except ε α} (hf : ∀ a c, Avoids bad (f a c)) :
    ∀ (l : List γ) (a : α), Avoids bad (l.foldlM f a)
  | [], a => .ok a
  | c :: l, a => (hf a c).bind fun b _ => foldlM hf l b

end Fallible
