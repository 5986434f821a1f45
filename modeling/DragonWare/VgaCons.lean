import Mathlib

/-!
# The VGA console

`base/vgacons/driver.c`. A cell of the text buffer holds a character in its low byte and a color
attribute in its high byte. The buffer is mapped at a fixed address; cells are numbered from there,
and cell numbers past the buffer are memory behind it.
-/

namespace DragonWare

def vgaConsoleWidth : ℕ := 80

def vgaConsoleHeight : ℕ := 25

/-- The static state of the driver, the text buffer, and the cursor location in the registers of
the display controller. -/
structure VgaConsole where
  xpos : ℤ
  ypos : ℤ
  colorAttribute : BitVec 8
  vgabuffer : ℕ → BitVec 16
  cursor : BitVec 16

/-- `VGA_TEXT_MODE_INDEX`. A `Size` has 32 bits. -/
def vgaTextModeIndex (x y : ℤ) : ℕ := ((y * vgaConsoleWidth + x) % 2 ^ 32).toNat

/-- A `char` is signed. -/
def vgaGetCharacterWithColor (c color : BitVec 8) : BitVec 16 :=
  c.signExtend 16 ||| color.setWidth 16 <<< 8

/-- A loop that stores `v` in `n` cells from `start` on. -/
def fillCells (start n : ℕ) (v : BitVec 16) (buffer : ℕ → BitVec 16) : ℕ → BitVec 16 := fun i =>
  if start ≤ i ∧ i < start + n then v else buffer i

/-- `memmove` of `n` cells, of which the first is `src` and goes to `dest`. -/
def moveCells (dest src n : ℕ) (buffer : ℕ → BitVec 16) : ℕ → BitVec 16 := fun i =>
  if dest ≤ i ∧ i < dest + n then buffer (src + (i - dest)) else buffer i

namespace VgaConsole

/-- The two bytes of the position go to registers 0x0E and 0x0F. -/
def vgaSetCursorPosition (x y : ℤ) (s : VgaConsole) : VgaConsole :=
  let pos := BitVec.ofNat 16 (vgaTextModeIndex x y)
  { s with cursor := ((pos >>> 8).setWidth 8 ++ pos.setWidth 8 : BitVec 16) }

def vgaClearAllText (colorattr : BitVec 8) (s : VgaConsole) : VgaConsole :=
  vgaSetCursorPosition 0 0 { s with
    vgabuffer := fillCells 0 (vgaConsoleWidth * vgaConsoleHeight)
      (vgaGetCharacterWithColor 0x20#8 colorattr) s.vgabuffer
    xpos := 0
    ypos := 0 }

def vgaPrintCharAt (x y : ℤ) (c color : BitVec 8) (s : VgaConsole) : VgaConsole :=
  if x < 0 ∨ vgaConsoleWidth ≤ x then s
  else if y < 0 ∨ vgaConsoleHeight ≤ y then s
  else { s with
    colorAttribute := color
    vgabuffer := Function.update s.vgabuffer (vgaTextModeIndex x y)
      (vgaGetCharacterWithColor c color) }

def vgaScrollBuffer (s : VgaConsole) : VgaConsole :=
  let buffer := moveCells 0 vgaConsoleWidth ((vgaConsoleHeight - 1) * vgaConsoleWidth) s.vgabuffer
  vgaSetCursorPosition 0 (vgaConsoleHeight - 1) { s with
    vgabuffer := fillCells ((vgaConsoleHeight - 1) * vgaConsoleWidth) vgaConsoleWidth
      (vgaGetCharacterWithColor 0x20#8 s.colorAttribute) buffer
    ypos := vgaConsoleHeight - 1
    xpos := 0 }

/-- The part of `VGAPrintCharacter` before it looks whether the screen is full. -/
def putCharacter (c color : BitVec 8) (s : VgaConsole) : VgaConsole :=
  if c = 0x0A#8 then { s with xpos := 0, ypos := s.ypos + 1 }
  else if c = 0x08#8 then
    let s := if 0 < s.xpos then { s with xpos := s.xpos - 1 }
      else if 0 < s.ypos then { s with ypos := s.ypos - 1, xpos := vgaConsoleWidth - 1 }
      else s
    s.vgaPrintCharAt s.xpos s.ypos 0x20#8 color
  else
    let s := s.vgaPrintCharAt s.xpos s.ypos c color
    if vgaConsoleWidth ≤ s.xpos + 1 then { s with xpos := 0, ypos := s.ypos + 1 }
    else { s with xpos := s.xpos + 1 }

/-- The rest of it. -/
def scrollIfFull (s : VgaConsole) : VgaConsole :=
  if vgaConsoleHeight ≤ s.ypos then { s.vgaScrollBuffer with ypos := vgaConsoleHeight - 1 }
  else s.vgaSetCursorPosition s.xpos s.ypos

def vgaPrintCharacter (c color : BitVec 8) (s : VgaConsole) : VgaConsole :=
  (s.putCharacter c color).scrollIfFull

/-- Characters printed one after the other, each in its color. -/
def printAll (text : List (BitVec 8 × BitVec 8)) (s : VgaConsole) : VgaConsole :=
  text.foldl (fun s p => s.vgaPrintCharacter p.1 p.2) s

end VgaConsole

end DragonWare
