import Mathlib

/-!
# The parts of a list between separators

`tokens c l` are the longest parts of `l` without `c` that are not empty, in order. A scan that
skips separators and then a part takes the first of them (`tokens_cons`).
-/

namespace Tokens

open List

variable {α : Type*} {c : α} {token : List α}

/-- The list ends in `token`, with nothing or a separator before it. -/
def EndsIn (c : α) (token l : List α) : Prop := l = token ∨ ∃ pre, l = pre ++ c :: token

theorem endsIn_sep (h : c ∉ token) (l : List α) : EndsIn c token (c :: l) ↔ EndsIn c token l := by
  constructor
  · rintro (heq | ⟨_ | ⟨a, pre⟩, heq⟩)
    · exact absurd (heq ▸ mem_cons_self) h
    · exact .inl (cons.inj heq).2
    · exact .inr ⟨pre, (cons.inj heq).2⟩
  · rintro (rfl | ⟨pre, rfl⟩)
    · exact .inr ⟨[], rfl⟩
    · exact .inr ⟨c :: pre, rfl⟩

theorem endsIn_append (h : c ∉ token) (l : List α) : ∀ {t : List α}, c ∉ t →
    (EndsIn c token (t ++ c :: l) ↔ EndsIn c token (c :: l))
  | [], _ => Iff.rfl
  | a :: t, ht => by
    rw [← endsIn_append h l fun hmem => ht (mem_cons_of_mem a hmem)]
    constructor
    · rintro (heq | ⟨_ | ⟨b, pre⟩, heq⟩)
      · exact absurd (heq ▸ by simp) h
      · exact absurd ((cons.inj heq).1 ▸ mem_cons_self) ht
      · exact .inr ⟨pre, (cons.inj heq).2⟩
    · rintro (heq | ⟨pre, heq⟩)
      · exact absurd (heq ▸ by simp) h
      · exact .inr ⟨a :: pre, congrArg (a :: ·) heq⟩

theorem not_endsIn_nil (hne : token ≠ []) : ¬ EndsIn c token [] := by
  rintro (h | ⟨pre, h⟩)
  · exact hne h.symm
  · simp at h

variable [DecidableEq α]

theorem endsIn_dropWhile (h : c ∉ token) : ∀ l : List α,
    EndsIn c token (l.dropWhile (· = c)) ↔ EndsIn c token l
  | [] => Iff.rfl
  | a :: l => by
    by_cases ha : a = c
    · rw [dropWhile_cons_of_pos (by simpa using ha), ha, endsIn_sep h]
      exact endsIn_dropWhile h l
    · rw [dropWhile_cons_of_neg (by simpa using ha)]

def tokens (c : α) (l : List α) : List (List α) := (l.splitOn c).filter (· ≠ [])

theorem tokens_sep (l : List α) : tokens c (c :: l) = tokens c l := by
  have hsplit : (c :: l).splitOn c = [] :: l.splitOn c :=
    splitOn_append_cons_self_of_not_mem not_mem_nil l
  simp [tokens, hsplit]

theorem tokens_append (h : c ∉ token) (hne : token ≠ []) (l : List α) :
    tokens c (token ++ c :: l) = token :: tokens c l := by
  simp [tokens, splitOn_append_cons_self_of_not_mem h l, hne]

theorem tokens_token (h : c ∉ token) (hne : token ≠ []) : tokens c token = [token] := by
  simp [tokens, splitOn_eq_singleton h, hne]

theorem tokens_dropWhile : ∀ l : List α, tokens c (l.dropWhile (· = c)) = tokens c l
  | [] => rfl
  | a :: l => by
    by_cases ha : a = c
    · rw [dropWhile_cons_of_pos (by simpa using ha), ha, tokens_sep]
      exact tokens_dropWhile l
    · rw [dropWhile_cons_of_neg (by simpa using ha)]

theorem not_mem_takeWhile (l : List α) : c ∉ l.takeWhile (· ≠ c) := fun hmem => by
  simpa using mem_takeWhile_imp hmem

theorem dropWhile_ne (l : List α) :
    l.dropWhile (· ≠ c) = [] ∨ ∃ rest, l.dropWhile (· ≠ c) = c :: rest := by
  cases hrest : l.dropWhile (· ≠ c) with
  | nil => exact .inl rfl
  | cons d rest =>
    have hd := head?_dropWhile_not (fun x => decide (x ≠ c)) l
    rw [hrest] at hd
    obtain rfl : d = c := by simpa using hd
    exact .inr ⟨rest, rfl⟩

theorem tokens_cons {a : α} (ha : a ≠ c) (l : List α) :
    tokens c (a :: l) = (a :: l).takeWhile (· ≠ c) :: tokens c ((a :: l).dropWhile (· ≠ c)) := by
  have htoken : c ∉ (a :: l).takeWhile (· ≠ c) := not_mem_takeWhile _
  have hne : (a :: l).takeWhile (· ≠ c) ≠ [] := by simp [ha]
  have happend := takeWhile_append_dropWhile (p := fun x => decide (x ≠ c)) (l := a :: l)
  rcases dropWhile_ne (c := c) (a :: l) with hrest | ⟨rest, hrest⟩
  · rw [hrest, append_nil] at happend
    rw [happend] at htoken hne ⊢
    rw [hrest]
    exact tokens_token htoken hne
  · rw [hrest] at happend ⊢
    rw [tokens_sep, ← tokens_append htoken hne rest, happend]

theorem endsIn_rest (h : c ∉ token) (hne : token ≠ []) {l : List α} (hl : l ≠ token) :
    EndsIn c token l ↔ EndsIn c token (l.dropWhile (· ≠ c)) := by
  have happend := takeWhile_append_dropWhile (p := fun x => decide (x ≠ c)) (l := l)
  have hfirst : c ∉ l.takeWhile (· ≠ c) := not_mem_takeWhile l
  rcases dropWhile_ne (c := c) l with hrest | ⟨rest, hrest⟩
  · rw [hrest, append_nil] at happend
    rw [happend] at hfirst
    rw [hrest]
    refine iff_of_false ?_ (not_endsIn_nil hne)
    rintro (heq | ⟨pre, rfl⟩)
    · exact hl heq
    · simp at hfirst
  · rw [hrest] at happend ⊢
    rw [← endsIn_append h rest hfirst, happend]

end Tokens
