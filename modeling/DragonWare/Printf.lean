import DragonWare.Lib.Memory

/-!
# Formatted output

`freestanding/string/string.c` and `libc/generic/stdio.c`, which has the same code without `%r`,
with the conversions `itoa`, `itoa_z` and, of `libc/generic/stdlib.c`, `atoi`. Every character goes
through `bputc`, which counts it and stores it while there is room. The arguments are the words of
the stack from `ap` on.
-/

namespace DragonWare

open Memory

/-- A character of the execution character set. -/
def ascii (c : Char) : BitVec 8 := BitVec.ofNat 8 c.toNat

/-- A string in memory: the characters before its NUL. -/
structure CString where
  chars : List (BitVec 8)
  noNul : 0 ∉ chars

/-- The characters of a string literal. -/
def literal (s : String) : List (BitVec 8) := s.toList.map ascii

/-- The words that `va_arg` reads next. -/
abbrev VaList := ℕ → BitVec 32

namespace VaList

def word (ap : VaList) : BitVec 32 × VaList := (ap 0, fun i => ap (i + 1))

/-- A 64-bit argument, its low word first. -/
def dword (ap : VaList) : BitVec 64 × VaList := (ap 1 ++ ap 0, fun i => ap (i + 2))

end VaList

structure Sink where
  buf : Mem
  idx : BitVec 32

def bputc (size : BitVec 32) (o : Sink) (c : BitVec 8) : Sink :=
  ⟨if 0 < size ∧ o.idx < size - 1 then Function.update o.buf o.idx.toNat c else o.buf, o.idx + 1⟩

/-- There is no string behind the null pointer. -/
def bputs (size : BitVec 32) (o : Sink) : Option (List (BitVec 8)) → Sink
  | none => (literal "(null)").foldl (bputc size) o
  | some s => s.foldl (bputc size) o

def digitChar (upper : Bool) (digit : ℕ) : BitVec 8 :=
  if digit < 10 then BitVec.ofNat 8 (0x30 + digit)
  else BitVec.ofNat 8 ((if upper then 0x41 else 0x61) + (digit - 10))

/-- The loop that fills `tmp`, which has room for `room` more digits. -/
def fillTmp (base : ℕ) (upper : Bool) : (room : ℕ) → BitVec 64 → List (BitVec 8) → List (BitVec 8)
  | 0, _, tmp => tmp
  | room + 1, v, tmp =>
    if v = 0 then tmp
    else fillTmp base upper room (v / BitVec.ofNat 64 base)
      (tmp ++ [digitChar upper (v % BitVec.ofNat 64 base).toNat])

/-- The same loop over any width, where there is no result without room. -/
def fillBuf {w : ℕ} (base : ℕ) (upper : Bool) : ℕ → BitVec w → List (BitVec 8) →
    Option (List (BitVec 8))
  | 0, v, buf => if v = 0 then some buf else none
  | room + 1, v, buf =>
    if v = 0 then some buf
    else fillBuf base upper room (v / BitVec.ofNat w base)
      (buf ++ [digitChar upper (v % BitVec.ofNat w base).toNat])

/-- What `bputud` leaves in `tmp`. -/
def bputudTmp (v : BitVec 64) (base : ℕ) (upper : Bool) : Option (List (BitVec 8)) :=
  if v = 0 then some [ascii '0'] else fillBuf base upper 66 v []

def isdigit (c : BitVec 8) : Bool := ascii '0' ≤ c && c ≤ ascii '9'

def bputud (size : BitVec 32) (o : Sink) (v : BitVec 64) (base : ℕ) (upper : Bool) : Sink :=
  if base < 2 ∨ 16 < base then o
  else
    let tmp := if v = 0 then [ascii '0'] else fillTmp base upper 66 v []
    tmp.reverse.foldl (bputc size) o

/-- The cases of the `switch`. -/
inductive Directive
  | percent
  | char
  | string
  | signed
  | unsigned
  | hex
  | upperHex
  | pointer
  | longPointer
  | float
  deriving DecidableEq, Repr

/-- The kernel has `%r`, the C library has not. -/
def Directive.ofChar (kernel : Bool) (k : BitVec 8) : Option Directive :=
  if k = ascii '%' then some .percent
  else if k = ascii 'c' then some .char
  else if k = ascii 's' then some .string
  else if k = ascii 'd' ∨ k = ascii 'i' then some .signed
  else if k = ascii 'u' then some .unsigned
  else if k = ascii 'x' then some .hex
  else if k = ascii 'X' then some .upperHex
  else if k = ascii 'p' then some .pointer
  else if kernel ∧ k = ascii 'r' then some .longPointer
  else if k = ascii 'f' then some .float
  else none

/-- The strings in memory, by their addresses. -/
abbrev Strings := BitVec 32 → CString

section Loop

variable (strings : Strings) (size : BitVec 32)

def putDirective (d : Directive) (ap : VaList) (o : Sink) : VaList × Sink :=
  match d with
  | .percent => (ap, bputc size o (ascii '%'))
  | .char => (ap.word.2, bputc size o (ap.word.1.setWidth 8))
  | .string => (ap.word.2,
      bputs size o (if ap.word.1 = 0 then none else some (strings ap.word.1).chars))
  | .signed =>
    let v := ap.word.1
    (ap.word.2,
      if v.slt 0 then bputud size (bputc size o (ascii '-')) (-(v.signExtend 64)) 10 false
      else bputud size o (v.setWidth 64) 10 false)
  | .unsigned => (ap.word.2, bputud size o (ap.word.1.setWidth 64) 10 false)
  | .hex => (ap.word.2, bputud size o (ap.word.1.setWidth 64) 16 false)
  | .upperHex => (ap.word.2, bputud size o (ap.word.1.setWidth 64) 16 true)
  | .pointer => (ap.word.2,
      bputud size (bputs size o (some (literal "0x"))) (ap.word.1.setWidth 64) 16 false)
  | .longPointer => (ap.dword.2,
      bputud size (bputs size o (some (literal "0x"))) ap.dword.1 16 false)
  | .float => (ap, o)

def putFormat (kernel : Bool) : List (BitVec 8) → VaList → Sink → Sink
  | [], _, o => o
  | [c], _, o => if c ≠ ascii '%' then bputc size o c else o
  | c :: k :: fmt, ap, o =>
    if c ≠ ascii '%' then putFormat kernel (k :: fmt) ap (bputc size o c)
    else match Directive.ofChar kernel k with
      | some d => putFormat kernel fmt (putDirective strings size d ap o).1
          (putDirective strings size d ap o).2
      | none => putFormat kernel fmt ap (bputc size (bputc size o (ascii '%')) k)

end Loop

def intMax : BitVec 32 := 0x7FFFFFFF#32

/-- The count returned, and the buffer. -/
def formatInto (kernel : Bool) (strings : Strings) (buf : Mem) (maxsize : BitVec 32) (fmt : CString)
    (ap : VaList) : BitVec 32 × Mem :=
  let o := putFormat strings maxsize kernel fmt.chars ap ⟨buf, 0⟩
  let buf := if 0 < maxsize then
      Function.update o.buf (if maxsize ≤ o.idx then maxsize - 1 else o.idx).toNat 0
    else o.buf
  (if intMax < o.idx then intMax else o.idx, buf)

/-- The kernel's. -/
def vsnprintf : Strings → Mem → BitVec 32 → CString → VaList → BitVec 32 × Mem := formatInto true

/-- The C library's. -/
def libcVsnprintf : Strings → Mem → BitVec 32 → CString → VaList → BitVec 32 × Mem :=
  formatInto false

end DragonWare
