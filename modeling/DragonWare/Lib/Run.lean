import Mathlib

/-!
# Runs of a step function

`exec step s as` is the state the actions `as` lead to. `Meets step ok s as` says that each action
meets `ok` in the state it is taken from.
-/

namespace Run

open List Option

variable {σ α : Type*} (step : σ → α → Option σ) {I : σ → Prop}

def exec : σ → List α → Option σ
  | s, [] => some s
  | s, a :: as => (step s a).bind fun s' => exec s' as

def Meets (ok : σ → α → Prop) : σ → List α → Prop
  | _, [] => True
  | s, a :: as => ok s a ∧ ∀ s', step s a = some s' → Meets ok s' as

variable {step}

instance decidableMeets {ok : σ → α → Prop} [∀ s a, Decidable (ok s a)] :
    ∀ (s : σ) (as : List α), Decidable (Meets step ok s as)
  | _, [] => isTrue trivial
  | s, a :: as =>
    match h : step s a with
    | none => decidable_of_iff (ok s a) (by simp [Meets, h])
    | some s' =>
      have : Decidable (Meets step ok s' as) := decidableMeets s' as
      decidable_of_iff (ok s a ∧ Meets step ok s' as) (by simp [Meets, h])

theorem exec_cons {s t : σ} {a : α} {as : List α} (h : exec step s (a :: as) = some t) :
    ∃ s', step s a = some s' ∧ exec step s' as = some t :=
  bind_eq_some_iff.1 h

theorem exec_concat {t u : σ} {a : α} (ht : step t a = some u) : ∀ (as : List α) {s : σ},
    exec step s as = some t → exec step s (as ++ [a]) = some u
  | [], s, h => by
    simp only [exec, some.injEq] at h
    simp [exec, h, ht]
  | b :: as, s, h => by
    obtain ⟨s', hs, h'⟩ := exec_cons h
    simp only [cons_append, exec, hs, bind_some]
    exact exec_concat ht as h'

/-- What each step that meets `ok` preserves holds at the end of every run whose steps do. -/
theorem exec_invariant {ok : σ → α → Prop} {I : σ → Prop}
    (hstep : ∀ s a s', I s → ok s a → step s a = some s' → I s') :
    ∀ (as : List α) {s t : σ}, I s → Meets step ok s as → exec step s as = some t → I t
  | [], s, t, hI, _, h => by
    simp only [exec, some.injEq] at h
    exact h ▸ hI
  | a :: as, s, t, hI, hm, h => by
    obtain ⟨s', hs, ht⟩ := exec_cons h
    exact exec_invariant hstep as (hstep s a s' hI hm.1 hs) (hm.2 s' hs) ht

theorem meets_true : ∀ (as : List α) (s : σ), Meets step (fun _ _ => True) s as
  | [], _ => trivial
  | _ :: as, _ => ⟨trivial, fun s' _ => meets_true as s'⟩

theorem exec_invariant' (hstep : ∀ s a s', I s → step s a = some s' → I s') (as : List α) {s t : σ}
    (hI : I s) (h : exec step s as = some t) : I t :=
  exec_invariant (fun s a s' hI _ => hstep s a s' hI) as hI (meets_true as s) h

theorem Meets.imp {ok ok' : σ → α → Prop} (himp : ∀ s a, I s → ok s a → ok' s a)
    (hstep : ∀ s a s', I s → ok s a → step s a = some s' → I s') :
    ∀ (as : List α) {s : σ}, I s → Meets step ok s as → Meets step ok' s as
  | [], _, _, _ => trivial
  | a :: as, s, hI, hm => ⟨himp s a hI hm.1, fun s' hs =>
      Meets.imp himp hstep as (hstep s a s' hI hm.1 hs) (hm.2 s' hs)⟩

theorem meets_iff {ok ok' : σ → α → Prop} {I : σ → Prop} (hiff : ∀ s a, I s → (ok s a ↔ ok' s a))
    (hstep : ∀ s a s', I s → ok' s a → step s a = some s' → I s') :
    ∀ (as : List α) {s : σ}, I s → (Meets step ok s as ↔ Meets step ok' s as)
  | [], _, _ => Iff.rfl
  | a :: as, s, hI => by
    simp only [Meets, hiff s a hI]
    refine and_congr_right fun hok => forall_congr' fun s' => forall_congr' fun hs => ?_
    exact meets_iff hiff hstep as (hstep s a s' hI hok hs)

theorem meets_iff_steps {ok : σ → α → Prop} : ∀ (as : List α) {s : σ}, Meets step ok s as ↔
    ∀ pre a post, as = pre ++ a :: post → ∀ t, exec step s pre = some t → ok t a
  | [], s => by
    refine iff_of_true trivial fun pre a post h => ?_
    simp at h
  | a :: as, s => by
    constructor
    · rintro ⟨hok, hm⟩ pre b post h t ht
      cases pre with
      | nil =>
        obtain ⟨rfl, -⟩ := cons.inj h
        exact some.inj ht ▸ hok
      | cons c pre =>
        obtain ⟨rfl, rfl⟩ := cons.inj h
        obtain ⟨s', hs', ht⟩ := exec_cons ht
        exact (meets_iff_steps _).1 (hm s' hs') pre b post rfl t ht
    · intro hall
      refine ⟨hall [] a as rfl s rfl, fun s' hs' => (meets_iff_steps as).2 ?_⟩
      intro pre b post h t ht
      refine hall (a :: pre) b post (by rw [h]; rfl) t ?_
      simp only [exec, hs', bind_some]
      exact ht

theorem exec_total (htotal : ∀ s a, ∃ s', step s a = some s') :
    ∀ (as : List α) (s : σ), ∃ t, exec step s as = some t
  | [], s => ⟨s, rfl⟩
  | a :: as, s => by
    obtain ⟨s', hs'⟩ := htotal s a
    obtain ⟨t, ht⟩ := exec_total htotal as s'
    exact ⟨t, by simp [exec, hs', ht]⟩

/-- Where each step keeps `P` exactly when it meets `ok`, `P` holds throughout a run exactly when
its steps meet `ok`. -/
theorem meets_iff_forall {ok : σ → α → Prop} {J P : σ → Prop}
    (hJ : ∀ s a s', J s → P s → step s a = some s' → J s')
    (hok : ∀ s a s', J s → P s → step s a = some s' → (ok s a ↔ P s')) :
    ∀ (as : List α) {s u : σ}, J s → P s → exec step s as = some u → (Meets step ok s as ↔
      ∀ pre post, as = pre ++ post → ∀ t, exec step s pre = some t → P t)
  | [], s, u, _, hP, _ => by
    refine iff_of_true trivial fun pre post h t ht => ?_
    obtain ⟨rfl, -⟩ := append_eq_nil_iff.1 h.symm
    exact some.inj ht ▸ hP
  | a :: as, s, u, hs, hP, hu => by
    obtain ⟨s', hs', hu⟩ := exec_cons hu
    have ih := fun hP' => meets_iff_forall hJ hok as (hJ s a s' hs hP hs') hP' hu
    constructor
    · intro hm pre post h t ht
      cases pre with
      | nil => exact some.inj ht ▸ hP
      | cons b pre =>
        obtain ⟨rfl, rfl⟩ := cons.inj h
        obtain ⟨s'', hs'', ht⟩ := exec_cons ht
        obtain rfl : s' = s'' := some.inj (hs'.symm.trans hs'')
        have hP' := (hok s _ s' hs hP hs').1 hm.1
        exact (ih hP').1 (hm.2 s' hs') pre post rfl t ht
    · intro hall
      have hP' : P s' := hall [a] as rfl s' (by simp [exec, hs'])
      refine ⟨(hok s a s' hs hP hs').2 hP', fun s'' hs'' => ?_⟩
      obtain rfl : s' = s'' := some.inj (hs'.symm.trans hs'')
      refine (ih hP').2 fun pre post h t ht => hall (a :: pre) post (by rw [h]; rfl) t ?_
      simp only [exec, hs', bind_some]
      exact ht

end Run
