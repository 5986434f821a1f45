import Mathlib

/-!
# Resources with one holder each

`Owned own used` says that every resource that is held is in use and that no two holders share one.
-/

namespace Ownership

variable {ρ φ : Type*} {own own' : ρ → Option φ} {used used' : List φ} {f : φ} {r : ρ}

structure Owned (own : ρ → Option φ) (used : List φ) : Prop where
  live : ∀ r f, own r = some f → f ∈ used
  inj : ∀ r r' f, own r = some f → own r' = some f → r = r'

namespace Owned

section

variable (h : Owned own used)

include h

theorem mono (hsub : used ⊆ used') : Owned own used' :=
  ⟨fun r f hr => hsub (h.live r f hr), h.inj⟩

theorem drop (hsub : ∀ r f, own' r = some f → own r = some f) : Owned own' used :=
  ⟨fun r f hr => h.live r f (hsub r f hr), fun r r' f hr hr' =>
    h.inj r r' f (hsub r f hr) (hsub r' f hr')⟩

theorem give (hf : f ∈ used) (hno : ∀ r, own r ≠ some f)
    (hr : ∀ r' g, own' r' = some g → own r' = some g ∨ r' = r ∧ g = f) : Owned own' used := by
  refine ⟨fun r' g hg => ?_, fun r1 r2 g h1 h2 => ?_⟩
  · rcases hr r' g hg with hg | ⟨-, rfl⟩
    · exact h.live r' g hg
    · exact hf
  · rcases hr r1 g h1 with h1 | ⟨rfl, rfl⟩ <;> rcases hr r2 g h2 with h2 | ⟨rfl, hg⟩
    · exact h.inj r1 r2 g h1 h2
    · exact absurd (hg ▸ h1) (hno r1)
    · exact absurd h2 (hno r2)
    · rfl

theorem take (hf : f ∉ used)
    (hr : ∀ r' g, own' r' = some g → own r' = some g ∨ r' = r ∧ g = f) : Owned own' (f :: used) :=
  (h.mono (List.subset_cons_self f used)).give (List.mem_cons_self ..)
    (fun r hrf => hf (h.live r f hrf)) hr

theorem restrict (hused : ∀ r f, own r = some f → f ∈ used → f ∈ used') : Owned own used' :=
  ⟨fun r f hr => hused r f hr (h.live r f hr), h.inj⟩

end

end Owned

end Ownership
