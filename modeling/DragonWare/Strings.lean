import DragonWare.Printf

/-!
# Strings of the kernel

The functions of `freestanding/string/string.c` and `freestanding/string/string.asm` that the lists
of ports and devices are searched with. A string that is only read is given by its characters; the
arrays that names are kept in are read at an index.
-/

namespace DragonWare

/-- Character `i` of a string. -/
def CString.at (s : CString) (i : ℕ) : BitVec 8 := s.chars.getD i 0

/-- `strncmp` from character `i` on, with `left` characters to go. -/
def strncmpFrom (str1 str2 : ℕ → BitVec 8) : ℕ → ℕ → ℤ
  | 0, _ => 0
  | left + 1, i =>
    if str1 i = 0 ∧ str2 i = 0 then 0
    else if str1 i < str2 i then -1
    else if str2 i < str1 i then 1
    else strncmpFrom str1 str2 left (i + 1)

def strncmp (str1 str2 : ℕ → BitVec 8) (maxlen : ℕ) : ℤ := strncmpFrom str1 str2 maxlen 0

/-- What `strncpy` stores from character `i` on, with `left` characters to go. -/
def strncpyFrom (src : ℕ → BitVec 8) : ℕ → ℕ → List (BitVec 8)
  | 0, _ => []
  | left + 1, i =>
    if src i = 0 then List.replicate (left + 1) 0 else src i :: strncpyFrom src left (i + 1)

def strncpy (src : ℕ → BitVec 8) (n : ℕ) : List (BitVec 8) := strncpyFrom src n 0

/-- `strcmp` from character `i` of the first string on, with what is left of the characters of the
second one before its NUL. -/
def strcmpFrom (str1 : ℕ → BitVec 8) : List (BitVec 8) → ℕ → ℤ
  | [], i => (str1 i).toNat
  | c :: cs, i =>
    if str1 i ≠ c then ((str1 i).toNat : ℤ) - c.toNat else strcmpFrom str1 cs (i + 1)

def strcmp (str1 : ℕ → BitVec 8) (str2 : List (BitVec 8)) : ℤ := strcmpFrom str1 str2 0

/-- The loop of `strchr`, down from `maxcmp`: the index of the character. -/
def strchrFrom (str : List (BitVec 8)) (c : BitVec 8) : ℕ → Option ℕ
  | 0 => none
  | maxcmp + 1 => if str.getD maxcmp 0 = c then some maxcmp else strchrFrom str c maxcmp

def strchr (str : List (BitVec 8)) (c : BitVec 8) : Option ℕ := strchrFrom str c (str.length + 1)

end DragonWare
