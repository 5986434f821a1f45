import DragonWare.Lib.TextRows
import DragonWare.VgaCons

/-!
# What the VGA console shows

The cursor stays on the screen and nothing is stored behind the buffer (`InGrid`). Without
backspaces the screen is a window on the last 25 rows of the text (`Shows`).
-/

namespace DragonWare

open List TextRows

namespace VgaConsole

variable {s : VgaConsole} {memory : ℕ → BitVec 16}

theorem index_eq {x y : ℤ} (hx : 0 ≤ x ∧ x < vgaConsoleWidth) (hy : 0 ≤ y ∧ y < vgaConsoleHeight) :
    (vgaTextModeIndex x y : ℤ) = y * vgaConsoleWidth + x := by
  unfold vgaTextModeIndex
  simp only [vgaConsoleWidth, vgaConsoleHeight] at *
  omega

theorem cursor_eq (s : VgaConsole) {x y : ℤ} (hx : 0 ≤ x ∧ x < vgaConsoleWidth)
    (hy : 0 ≤ y ∧ y < vgaConsoleHeight) :
    ((s.vgaSetCursorPosition x y).cursor.toNat : ℤ) = y * vgaConsoleWidth + x := by
  have hindex := index_eq hx hy
  obtain ⟨n, hn⟩ : ∃ n, n = vgaTextModeIndex x y := ⟨_, rfl⟩
  have hlt : n < 2 ^ 16 := by
    simp only [vgaConsoleWidth, vgaConsoleHeight] at *
    omega
  have hjoin (pos : BitVec 16) :
      ((pos >>> 8).setWidth 8 ++ pos.setWidth 8 : BitVec 16) = pos := by
    apply BitVec.eq_of_getLsbD_eq
    intro i hi
    simp only [BitVec.getLsbD_append, BitVec.getLsbD_setWidth, BitVec.getLsbD_ushiftRight]
    split_ifs with h
    · simp [h]
    · simp only [show i - 8 < 8 by omega, decide_true, Bool.true_and]
      congr 1
      omega
  simp only [vgaSetCursorPosition, ← hn, hjoin, BitVec.toNat_ofNat, Nat.mod_eq_of_lt hlt]
  omega

/-- The cursor is on the screen, and memory behind the buffer is as it was. -/
structure InGrid (memory : ℕ → BitVec 16) (s : VgaConsole) : Prop where
  xpos : 0 ≤ s.xpos ∧ s.xpos < vgaConsoleWidth
  ypos : 0 ≤ s.ypos ∧ s.ypos < vgaConsoleHeight
  cursor : (s.cursor.toNat : ℤ) = s.ypos * vgaConsoleWidth + s.xpos
  outside : ∀ i, vgaConsoleWidth * vgaConsoleHeight ≤ i → s.vgabuffer i = memory i

theorem printCharAt_outside {x y : ℤ} (c color : BitVec 8)
    (h : ∀ i, vgaConsoleWidth * vgaConsoleHeight ≤ i → s.vgabuffer i = memory i) (i : ℕ)
    (hi : vgaConsoleWidth * vgaConsoleHeight ≤ i) :
    (s.vgaPrintCharAt x y c color).vgabuffer i = memory i := by
  unfold vgaPrintCharAt
  split_ifs with hx hy
  · exact h i hi
  · exact h i hi
  · have hindex := index_eq (x := x) (y := y) (by omega) (by omega)
    simp only
    rw [Function.update_of_ne _, h i hi]
    simp only [vgaConsoleWidth, vgaConsoleHeight] at *
    omega

@[simp]
theorem printCharAt_xpos (x y : ℤ) (c color : BitVec 8) :
    (s.vgaPrintCharAt x y c color).xpos = s.xpos := by
  unfold vgaPrintCharAt
  split_ifs <;> rfl

@[simp]
theorem printCharAt_ypos (x y : ℤ) (c color : BitVec 8) :
    (s.vgaPrintCharAt x y c color).ypos = s.ypos := by
  unfold vgaPrintCharAt
  split_ifs <;> rfl

theorem firstColumn : (0 : ℤ) ≤ 0 ∧ (0 : ℤ) < vgaConsoleWidth := by decide

theorem scrollIfFull_of_full (h : vgaConsoleHeight ≤ s.ypos) :
    s.scrollIfFull = { s.vgaScrollBuffer with ypos := vgaConsoleHeight - 1 } := if_pos h

theorem scrollIfFull_of_room (h : s.ypos < vgaConsoleHeight) :
    s.scrollIfFull = s.vgaSetCursorPosition s.xpos s.ypos := if_neg (not_le.2 h)

theorem scroll_buffer (s : VgaConsole) (i : ℕ) : s.vgaScrollBuffer.vgabuffer i
    = if i < (vgaConsoleHeight - 1) * vgaConsoleWidth then s.vgabuffer (i + vgaConsoleWidth)
      else if i < vgaConsoleWidth * vgaConsoleHeight then
        vgaGetCharacterWithColor 0x20#8 s.colorAttribute
      else s.vgabuffer i := by
  have hcells : (vgaConsoleHeight - 1) * vgaConsoleWidth + vgaConsoleWidth
      = vgaConsoleWidth * vgaConsoleHeight := by decide
  simp only [vgaScrollBuffer, vgaSetCursorPosition, fillCells, moveCells, hcells, Nat.zero_le,
    true_and, Nat.zero_add]
  split_ifs
  all_goals first | rfl | omega | (congr 1; omega)

theorem scrollIfFull_inGrid (hx : 0 ≤ s.xpos ∧ s.xpos < vgaConsoleWidth) (hy : 0 ≤ s.ypos)
    (h : ∀ i, vgaConsoleWidth * vgaConsoleHeight ≤ i → s.vgabuffer i = memory i) :
    InGrid memory s.scrollIfFull := by
  rcases lt_or_ge s.ypos vgaConsoleHeight with hroom | hfull
  · rw [scrollIfFull_of_room hroom]
    exact ⟨hx, ⟨hy, hroom⟩, cursor_eq s hx ⟨hy, hroom⟩, h⟩
  rw [scrollIfFull_of_full hfull]
  have hlast : 0 ≤ (vgaConsoleHeight : ℤ) - 1 ∧ (vgaConsoleHeight : ℤ) - 1 < vgaConsoleHeight := by
    decide
  refine ⟨firstColumn, hlast, cursor_eq _ firstColumn hlast, fun i hi => ?_⟩
  have hbehind : ¬ i < (vgaConsoleHeight - 1) * vgaConsoleWidth :=
    not_lt.2 (le_trans (by decide) hi)
  have hscroll := scroll_buffer s i
  rw [if_neg hbehind, if_neg (not_lt.2 hi)] at hscroll
  exact hscroll.trans (h i hi)

theorem InGrid.print (h : InGrid memory s) (c color : BitVec 8) :
    InGrid memory (s.vgaPrintCharacter c color) := by
  obtain ⟨hx, hy, -, hout⟩ := h
  unfold vgaPrintCharacter putCharacter
  by_cases hnl : c = 0x0A#8
  · rw [if_pos hnl]
    exact scrollIfFull_inGrid firstColumn (Int.le_add_one hy.1) hout
  by_cases hbs : c = 0x08#8
  · rw [if_neg hnl, if_pos hbs]
    -- a step back, if there is anywhere to go
    obtain ⟨r, hr⟩ : ∃ r, r = if 0 < s.xpos then { s with xpos := s.xpos - 1 }
        else if 0 < s.ypos then { s with ypos := s.ypos - 1, xpos := (vgaConsoleWidth : ℤ) - 1 }
        else s := ⟨_, rfl⟩
    have hback : (0 ≤ r.xpos ∧ r.xpos < vgaConsoleWidth) ∧ 0 ≤ r.ypos
        ∧ r.vgabuffer = s.vgabuffer := by
      rw [hr]
      split_ifs with h1 h2
      · exact ⟨⟨Int.sub_nonneg_of_le h1, by simp only; omega⟩, hy.1, rfl⟩
      · exact ⟨by simp only [vgaConsoleWidth]; omega, Int.sub_nonneg_of_le h2, rfl⟩
      · exact ⟨hx, hy.1, rfl⟩
    simp only [← hr]
    refine scrollIfFull_inGrid ?_ ?_ (printCharAt_outside _ _ ?_)
    · rw [printCharAt_xpos]
      exact hback.1
    · rw [printCharAt_ypos]
      exact hback.2.1
    · rw [hback.2.2]
      exact hout
  · rw [if_neg hnl, if_neg hbs]
    have hput := printCharAt_outside (x := s.xpos) (y := s.ypos) c color hout
    simp only [printCharAt_xpos, printCharAt_ypos]
    split_ifs with hfull
    · exact scrollIfFull_inGrid firstColumn (Int.le_add_one hy.1) hput
    have hlt : s.xpos + 1 < vgaConsoleWidth := not_le.1 hfull
    refine scrollIfFull_inGrid ⟨Int.le_add_one hx.1, hlt⟩ ?_ hput
    simp only
    exact hy.1

/-! ### The rows on the screen -/

def glyph (s : VgaConsole) (y x : ℕ) : BitVec 8 :=
  (s.vgabuffer (y * vgaConsoleWidth + x)).setWidth 8

theorem setWidth_character (c color : BitVec 8) :
    (vgaGetCharacterWithColor c color).setWidth 8 = c := by
  apply BitVec.eq_of_getLsbD_eq
  intro i hi
  unfold vgaGetCharacterWithColor
  simp only [BitVec.getLsbD_setWidth, BitVec.getLsbD_or, BitVec.getLsbD_signExtend,
    BitVec.getLsbD_shiftLeft, hi, show i < 16 by omega, decide_true, if_true, Bool.true_and,
    Bool.not_true, Bool.false_and, Bool.or_false, Bool.and_false]

theorem glyph_printCharAt {x y : ℕ} (hx : x < vgaConsoleWidth) (hy : y < vgaConsoleHeight)
    (c color : BitVec 8) (y' : ℕ) {x' : ℕ} (hx' : x' < vgaConsoleWidth) :
    (s.vgaPrintCharAt x y c color).glyph y' x'
      = if y' = y ∧ x' = x then c else s.glyph y' x' := by
  have hindex : vgaTextModeIndex x y = y * vgaConsoleWidth + x := by
    exact_mod_cast index_eq (x := x) (y := y) (by omega) (by omega)
  unfold glyph vgaPrintCharAt
  rw [if_neg (by omega), if_neg (by omega)]
  simp only [hindex, Function.update_apply]
  have hcell : y' * vgaConsoleWidth + x' = y * vgaConsoleWidth + x ↔ y' = y ∧ x' = x := by
    simp only [vgaConsoleWidth] at *
    omega
  simp only [hcell]
  split_ifs
  · exact setWidth_character c color
  · rfl

theorem glyph_scroll {y x : ℕ} (hy : y < vgaConsoleHeight) (hx : x < vgaConsoleWidth) :
    s.vgaScrollBuffer.glyph y x
      = if y < vgaConsoleHeight - 1 then s.glyph (y + 1) x else 0x20#8 := by
  have hcell : (y * vgaConsoleWidth + x < (vgaConsoleHeight - 1) * vgaConsoleWidth
      ↔ y < vgaConsoleHeight - 1)
      ∧ y * vgaConsoleWidth + x < vgaConsoleWidth * vgaConsoleHeight := by
    simp only [vgaConsoleWidth, vgaConsoleHeight] at *
    omega
  unfold glyph
  rw [scroll_buffer]
  simp only [hcell, if_true]
  split_ifs
  · congr 2
    ring
  · exact setWidth_character _ _

def Window (R : List (List (BitVec 8))) (s : VgaConsole) : Prop :=
  ∀ y < vgaConsoleHeight, ∀ x < vgaConsoleWidth,
    s.glyph y x = cell 0x20#8 vgaConsoleHeight R y x

structure Shows (done : List (List (BitVec 8))) (row : List (BitVec 8)) (s : VgaConsole) :
    Prop where
  xpos : s.xpos = row.length
  ypos : s.ypos = (min done.length (vgaConsoleHeight - 1) : ℕ)
  short : row.length < vgaConsoleWidth
  window : Window (done ++ [row]) s

variable {done : List (List (BitVec 8))} {row : List (BitVec 8)}

theorem Shows.newRow (hx : s.xpos = 0)
    (hy : s.ypos = (min done.length (vgaConsoleHeight - 1) : ℕ) + 1)
    (h : Window (done ++ [row]) s) : Shows (done ++ [row]) [] s.scrollIfFull := by
  have hlen : (done ++ [row]).length = done.length + 1 := by simp
  have hheight : vgaConsoleHeight = 25 := rfl
  rcases lt_or_ge s.ypos vgaConsoleHeight with hroom | hfull
  · rw [scrollIfFull_of_room hroom]
    refine ⟨hx, ?_, by decide, fun y hy' x hx' => ?_⟩
    · show s.ypos = _
      rw [hlen]
      omega
    · rw [cell_newRow, if_pos (by omega)]
      exact h y hy' x hx'
  · rw [scrollIfFull_of_full hfull]
    refine ⟨rfl, ?_, by decide, fun y hy' x hx' => ?_⟩
    · show ((vgaConsoleHeight : ℤ) - 1) = _
      omega
    · rw [cell_newRow, if_neg (by omega)]
      refine (glyph_scroll hy' hx').trans ?_
      split_ifs with hlast
      · exact h (y + 1) (by omega) x hx'
      · rw [cell_of_length_le]
        omega

theorem Shows.window_put (h : Shows done row s) (c color : BitVec 8) :
    Window (done ++ [row ++ [c]]) (s.vgaPrintCharAt s.xpos s.ypos c color) := by
  intro y hy x hx
  have hmin : min done.length (vgaConsoleHeight - 1) < vgaConsoleHeight :=
    lt_of_le_of_lt (min_le_right _ _) (by decide)
  rw [h.xpos, h.ypos, cell_put 0x20#8 vgaConsoleHeight done row c hy x]
  rw [glyph_printCharAt h.short hmin c color y hx, h.window y hy x hx]

theorem Shows.print (h : Shows done row s) {c : BitVec 8} (hbs : c ≠ 0x08#8) (color : BitVec 8) :
    ∃ done' row', done ++ advance 0x0A#8 vgaConsoleWidth row c = done' ++ [row']
      ∧ Shows done' row' (s.vgaPrintCharacter c color) := by
  unfold advance vgaPrintCharacter putCharacter
  by_cases hnl : c = 0x0A#8
  · rw [if_pos hnl, if_pos hnl]
    refine ⟨done ++ [row], [], by simp, Shows.newRow rfl ?_ h.window⟩
    simp only [h.ypos]
  rw [if_neg hnl, if_neg hnl, if_neg hbs]
  have hput := h.window_put c color
  simp only [printCharAt_xpos, printCharAt_ypos]
  have hfull : (vgaConsoleWidth : ℤ) ≤ s.xpos + 1 ↔ ¬ row.length + 1 < vgaConsoleWidth := by
    rw [h.xpos]
    omega
  by_cases hlt : row.length + 1 < vgaConsoleWidth
  · rw [if_pos hlt, if_neg (by rw [hfull, not_not]; exact hlt)]
    refine ⟨done, row ++ [c], rfl, ?_⟩
    have hheight : vgaConsoleHeight = 25 := rfl
    rw [scrollIfFull_of_room (by simp only [h.ypos]; omega)]
    refine ⟨?_, ?_, by simpa using hlt, hput⟩
    · show s.xpos + 1 = _
      rw [h.xpos, length_append]
      rfl
    · exact h.ypos
  · rw [if_neg hlt, if_pos (hfull.2 hlt)]
    refine ⟨done ++ [row ++ [c]], [], by simp, Shows.newRow rfl ?_ hput⟩
    simp only [h.ypos]

theorem shows_clear (s : VgaConsole) (colorattr : BitVec 8) :
    Shows [] [] (s.vgaClearAllText colorattr) := by
  refine ⟨rfl, rfl, by decide, fun y hy x hx => ?_⟩
  have hblank : cell 0x20#8 vgaConsoleHeight ([] ++ [[]]) y x = 0x20#8 := by
    rw [nil_append, ← nil_append [[]], cell_newRow]
    rfl
  rw [hblank]
  simp only [glyph, vgaClearAllText, vgaSetCursorPosition, fillCells]
  rw [if_pos _, setWidth_character]
  simp only [vgaConsoleWidth, vgaConsoleHeight] at *
  omega

theorem shows_printAll (s : VgaConsole) (colorattr : BitVec 8)
    (text : List (BitVec 8 × BitVec 8)) (h : ∀ p ∈ text, p.1 ≠ 0x08#8) :
    ∃ done row, rows 0x0A#8 vgaConsoleWidth (text.map Prod.fst) = done ++ [row]
      ∧ Shows done row ((s.vgaClearAllText colorattr).printAll text) := by
  induction text using reverseRecOn with
  | nil => exact ⟨[], [], rfl, shows_clear s colorattr⟩
  | append_singleton text p ih =>
    obtain ⟨done, row, hrows, hshows⟩ := ih fun q hq => h q (mem_append_left _ hq)
    obtain ⟨done', row', hbefore, hafter⟩ := rows_snoc 0x0A#8 vgaConsoleWidth
      (text.map Prod.fst) p.1
    obtain ⟨rfl, hrow⟩ := append_inj' (hrows.symm.trans hbefore) rfl
    obtain rfl : row = row' := singleton_inj.1 hrow
    obtain ⟨done', row', heq, hprint⟩ := hshows.print (h p (by simp)) p.2
    refine ⟨done', row', ?_, ?_⟩
    · rw [map_append, ← heq, ← hafter]
      rfl
    · rw [printAll, foldl_append]
      exact hprint

theorem inGrid_printAll (s : VgaConsole) (colorattr : BitVec 8)
    (text : List (BitVec 8 × BitVec 8)) :
    InGrid s.vgabuffer ((s.vgaClearAllText colorattr).printAll text) := by
  induction text using reverseRecOn with
  | nil =>
    have hrow : (0 : ℤ) ≤ 0 ∧ (0 : ℤ) < vgaConsoleHeight := by decide
    exact ⟨firstColumn, hrow, cursor_eq _ firstColumn hrow, fun i hi => if_neg (by omega)⟩
  | append_singleton text p ih =>
    rw [printAll, foldl_append]
    exact ih.print p.1 p.2

/-- From a cleared screen, whatever is printed. -/
theorem console_shows_text (s : VgaConsole) (colorattr : BitVec 8)
    (text : List (BitVec 8 × BitVec 8)) : let t := (s.vgaClearAllText colorattr).printAll text
    ((0 ≤ t.xpos ∧ t.xpos < vgaConsoleWidth) ∧ (0 ≤ t.ypos ∧ t.ypos < vgaConsoleHeight)
        ∧ (t.cursor.toNat : ℤ) = t.ypos * vgaConsoleWidth + t.xpos)
      ∧ (∀ i, vgaConsoleWidth * vgaConsoleHeight ≤ i → t.vgabuffer i = s.vgabuffer i)
      ∧ ((∀ p ∈ text, p.1 ≠ 0x08#8) → ∀ y < vgaConsoleHeight, ∀ x < vgaConsoleWidth,
          t.glyph y x = cell 0x20#8 vgaConsoleHeight
            (rows 0x0A#8 vgaConsoleWidth (text.map Prod.fst)) y x) := by
  intro t
  have hgrid := inGrid_printAll s colorattr text
  refine ⟨⟨hgrid.xpos, hgrid.ypos, hgrid.cursor⟩, hgrid.outside, fun hbs => ?_⟩
  obtain ⟨done, row, hrows, hshows⟩ := shows_printAll s colorattr text hbs
  rw [hrows]
  exact hshows.window

theorem console_shows_text_twoRows : let s : VgaConsole := ⟨3, 4, 0x0F#8, fun _ => 0x0F58#16, 0#16⟩
    let text := [(0x41#8, 0x07#8), (0x0A#8, 0x07#8), (0x42#8, 0x07#8)]
    ((s.vgaClearAllText 0x07#8).printAll text).glyph 1 0 = 0x42#8 := by
  intro s text
  have hbs : ∀ p ∈ text, p.1 ≠ 0x08#8 := by simp [text]
  rw [(console_shows_text s 0x07#8 text).2.2 hbs 1 (by decide) 0 (by decide)]
  decide

end VgaConsole

end DragonWare
