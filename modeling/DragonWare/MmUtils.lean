import DragonWare.Lib.Memory

/-!
# Moving and comparing bytes

`memmove_atomic` of `freestanding/compat/atomic.c`, the two `memmove` of `freestanding/mm/mmutils.c`
and `libc/generic/string.c`, and `memcmp` of `freestanding/mm/mmutils.asm`. Offsets and sizes of
`memmove_atomic` are 32-bit and wrap. The direction flag is clear, as callers leave it.
-/

namespace DragonWare

open Memory

section MemmoveAtomic

variable (dst src size : BitVec 32)

/-- The loop of `memcpy_atomic` over words, from offset `i` on. There is no result when it is not
through after `fuel` rounds. -/
def memcpyAtomicWords : ℕ → BitVec 32 → Mem → Option (BitVec 32 × Mem)
  | 0, _, _ => none
  | fuel + 1, i, m =>
    if i + 4 ≤ size then
      memcpyAtomicWords fuel (i + 4) (write32 m (dst + i).toNat (read32 m (src + i).toNat))
    else some (i, m)

def memcpyAtomicBytes : ℕ → BitVec 32 → Mem → Option Mem
  | 0, _, _ => none
  | fuel + 1, i, m =>
    if i < size then
      memcpyAtomicBytes fuel (i + 1) (Function.update m (dst + i).toNat (m (src + i).toNat))
    else some m

def memcpyAtomic (fuel : ℕ) (m : Mem) : Option Mem :=
  (memcpyAtomicWords dst src size fuel 0 m).bind fun r =>
    memcpyAtomicBytes dst src size fuel r.1 r.2

/-- The loop of `memmove_atomic` from offset `i` down. -/
def moveDown : ℕ → Mem → Mem
  | 0, m => m
  | i + 1, m => moveDown i (Function.update m (dst + BitVec.ofNat 32 i).toNat
      (m (src + BitVec.ofNat 32 i).toNat))

def memmoveAtomic (fuel : ℕ) (m : Mem) : Option Mem :=
  if dst < src ∨ src + size ≤ dst then memcpyAtomic dst src size fuel m
  else some (moveDown dst src size.toNat m)

end MemmoveAtomic

/-- `while (n--) *d++ = *s++`. -/
def copyUp : ℕ → ℕ → ℕ → Mem → Mem
  | 0, _, _, m => m
  | n + 1, d, s, m => copyUp n (d + 1) (s + 1) (Function.update m d (m s))

/-- `while (n--) *--d = *--s`. -/
def copyDown : ℕ → ℕ → ℕ → Mem → Mem
  | 0, _, _, m => m
  | n + 1, d, s, m => copyDown n (d - 1) (s - 1) (Function.update m (d - 1) (m (s - 1)))

def memmove (dest src n : ℕ) (m : Mem) : Mem :=
  if dest < src then copyUp n dest src m else copyDown n (dest + n) (src + n) m

/-- `memmove` of the C library. -/
def libcMemmove (dest src size : ℕ) (m : Mem) : Mem :=
  if size = 0 ∨ dest = src then m
  else if dest < src then copyUp size dest src m
  else copyDown size (dest + size) (src + size) m

/-- `edi`, `esi` and the zero flag, with the addresses of the bytes read so far. -/
structure CmpRegs where
  edi : ℕ
  esi : ℕ
  zf : Bool
  reads : List ℕ
  deriving DecidableEq, Repr

/-- `cmpsb` and `cmpsd`: `load` takes `width` bytes. -/
def CmpRegs.cmps {w : ℕ} (load : ℕ → BitVec w) (width : ℕ) (r : CmpRegs) : CmpRegs where
  edi := r.edi + width
  esi := r.esi + width
  zf := load r.edi == load r.esi
  reads := r.reads ++ (List.range width).map (r.edi + ·) ++ (List.range width).map (r.esi + ·)

/-- The instruction under `repe`, with `ecx` rounds to go. -/
def CmpRegs.repe {w : ℕ} (load : ℕ → BitVec w) (width : ℕ) : ℕ → CmpRegs → CmpRegs
  | 0, r => r
  | ecx + 1, r =>
    if (r.cmps load width).zf then repe load width ecx (r.cmps load width) else r.cmps load width

/-- From `.ByteCheck` on: `eax`, and the addresses of the bytes read. -/
def byteCheck (m : Mem) (ecx : ℕ) (r : CmpRegs) : BitVec 32 × List ℕ :=
  let r := r.repe m 1 ecx
  if r.zf then (0, r.reads)
  else ((m (r.edi - 1)).setWidth 32 - (m (r.esi - 1)).setWidth 32,
    r.reads ++ [r.edi - 1, r.esi - 1])

/-- From `.HasResidualBytes` on. -/
def hasResidualBytes (m : Mem) (edx : BitVec 32) (r : CmpRegs) : BitVec 32 × List ℕ :=
  if edx &&& 3 = 0 then (0, r.reads) else byteCheck m (edx &&& 3).toNat r

def memcmp (m : Mem) (p1 p2 : ℕ) (n : BitVec 32) : BitVec 32 × List ℕ :=
  let r : CmpRegs := ⟨p1, p2, false, []⟩
  if n = 0 then (0, [])
  else if n >>> 2 = 0 then hasResidualBytes m n r
  else
    let r := r.repe (read32 m) 4 (n >>> 2).toNat
    if r.zf then hasResidualBytes m n r
    else byteCheck m 4 { r with edi := r.edi - 4, esi := r.esi - 4 }

end DragonWare
