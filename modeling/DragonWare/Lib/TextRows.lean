import Mathlib

/-!
# The rows of a text

A row ends at a newline or when it is full, and the row begun last counts even if it is empty. A
window of a fixed height shows the last rows (`cell`).
-/

namespace TextRows

open List

variable {α : Type*} [DecidableEq α] (newline : α) (width : ℕ)

/-- What a character makes of the row begun last. -/
def advance (row : List α) (c : α) : List (List α) :=
  if c = newline then [row, []]
  else if row.length + 1 < width then [row ++ [c]]
  else [row ++ [c], []]

/-- The rows of a text that goes on in the row `row`. -/
def rowsFrom : List α → List α → List (List α)
  | row, [] => [row]
  | row, c :: text =>
    if c = newline then row :: rowsFrom [] text
    else if row.length + 1 < width then rowsFrom (row ++ [c]) text
    else (row ++ [c]) :: rowsFrom [] text

def rows (text : List α) : List (List α) := rowsFrom newline width [] text

theorem rowsFrom_snoc (c : α) : ∀ (text row : List α), ∃ done last,
    rowsFrom newline width row text = done ++ [last]
      ∧ rowsFrom newline width row (text ++ [c]) = done ++ advance newline width last c
  | [], row => by
    refine ⟨[], row, rfl, ?_⟩
    simp only [nil_append, rowsFrom, advance]
  | d :: text, row => by
    simp only [cons_append, rowsFrom]
    split_ifs
    · obtain ⟨done, last, h, h'⟩ := rowsFrom_snoc c text []
      exact ⟨row :: done, last, by rw [h]; rfl, by rw [h']; rfl⟩
    · exact rowsFrom_snoc c text _
    · obtain ⟨done, last, h, h'⟩ := rowsFrom_snoc c text []
      exact ⟨(row ++ [d]) :: done, last, by rw [h]; rfl, by rw [h']; rfl⟩

theorem rows_snoc (text : List α) (c : α) : ∃ done last, rows newline width text = done ++ [last]
    ∧ rows newline width (text ++ [c]) = done ++ advance newline width last c :=
  rowsFrom_snoc newline width c text []

section Window

variable {newline width} (blank : α) (height : ℕ)

/-- The character at column `x` of row `y` of the window. -/
def cell (R : List (List α)) (y x : ℕ) : α :=
  (R.getD (R.length - height + y) []).getD x blank

omit [DecidableEq α] in
theorem cell_of_length_le {R : List (List α)} {y : ℕ} (h : R.length ≤ R.length - height + y)
    (x : ℕ) : cell blank height R y x = blank := by
  rw [cell, getD_eq_default _ _ h, getD_nil]

omit [DecidableEq α] in
theorem cell_put (done : List (List α)) (row : List α) (c : α) {y : ℕ} (hy : y < height) (x : ℕ) :
    cell blank height (done ++ [row ++ [c]]) y x
      = if y = min done.length (height - 1) ∧ x = row.length then c
        else cell blank height (done ++ [row]) y x := by
  have hlen (r : List α) : (done ++ [r]).length = done.length + 1 := by simp
  unfold cell
  rw [hlen, hlen]
  by_cases hlast : done.length + 1 - height + y = done.length
  · have hy' : y = min done.length (height - 1) := by omega
    rw [hlast, getD_append_right _ _ _ _ le_rfl, getD_append_right _ _ _ _ le_rfl]
    simp only [Nat.sub_self, getD_cons_zero, hy', true_and]
    by_cases hx : x = row.length
    · rw [if_pos hx, hx, getD_append_right _ _ _ _ le_rfl]
      simp
    rw [if_neg hx]
    rcases Nat.lt_or_gt_of_ne hx with hlt | hgt
    · rw [getD_append _ _ _ _ hlt]
    · rw [getD_eq_default _ _ (by simpa using hgt), getD_eq_default _ _ hgt.le]
  · have hno : ¬ (y = min done.length (height - 1) ∧ x = row.length) := by omega
    rw [if_neg hno]
    rcases Nat.lt_or_gt_of_ne hlast with hlt | hgt
    · rw [getD_append _ _ _ _ hlt, getD_append _ _ _ _ hlt]
    · have hdefault (r : List α) : (done ++ [r]).getD (done.length + 1 - height + y) [] = [] :=
        getD_eq_default _ _ (by rw [hlen]; omega)
      rw [hdefault, hdefault]

omit [DecidableEq α] in
theorem cell_newRow (R : List (List α)) (y x : ℕ) :
    cell blank height (R ++ [[]]) y x
      = if R.length < height then cell blank height R y x else cell blank height R (y + 1) x := by
  have hget (n : ℕ) : (R ++ [[]]).getD n [] = R.getD n [] := by
    rcases lt_trichotomy n R.length with hlt | rfl | hgt
    · rw [getD_append _ _ _ _ hlt]
    · rw [getD_append_right _ _ _ _ le_rfl, getD_eq_default _ _ le_rfl]
      simp
    · rw [getD_eq_default _ _ (by simpa using hgt), getD_eq_default _ _ hgt.le]
  have hlen : (R ++ [([] : List α)]).length = R.length + 1 := by simp
  unfold cell
  rw [hget, hlen]
  split_ifs with h
  · rw [show R.length + 1 - height + y = R.length - height + y by omega]
  · rw [show R.length + 1 - height + y = R.length - height + (y + 1) by omega]

end Window

end TextRows
