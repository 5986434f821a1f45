import DragonWare.Regions

/-!
# The boot loader's high memory

`bootmanager/core/common/highmem.c` and `memdetect.c`. The pool is one run of pages, from whose
start blocks are cut off and never given back. Regions are 64-bit, the pool's bounds are 32-bit, and
all arithmetic wraps.
-/

namespace DragonWare

def highMemoryStart : BitVec 32 := 0x100000#32

structure MemoryRegionE820 where
  base : BitVec 64
  length : BitVec 64
  type : BitVec 32
  deriving DecidableEq, Repr

def MemoryRegionE820.available (r : MemoryRegionE820) : Bool := r.type == 1

def maxMemoryRegions : ℕ := 32

/-- The inner loop from `j` on, with `left` rounds to go; no result when it leaves the entries. -/
def compareRegions : ℕ → ℕ → List MemoryRegionE820 → Bool →
    Option (List MemoryRegionE820 × Bool)
  | 0, _, l, swapped => some (l, swapped)
  | left + 1, j, l, swapped => do
    let a ← l[j]?
    let b ← l[j + 1]?
    if b.base < a.base then compareRegions left (j + 1) ((l.set j b).set (j + 1) a) true
    else compareRegions left (j + 1) l swapped

/-- The outer loop from `i` on, with `left` rounds to go. -/
def bubbleRegions (n : BitVec 32) : ℕ → BitVec 32 → List MemoryRegionE820 →
    Option (List MemoryRegionE820)
  | 0, _, l => some l
  | left + 1, i, l => do
    let (l, swapped) ← compareRegions (n - i - 1).toNat 0 l false
    if swapped then bubbleRegions n left (i + 1) l else some l

/-- The first `n_memory_regions` entries, sorted in place. The bounds of the loops wrap. -/
def bubbleSortMemoryRegions (l : List MemoryRegionE820) : Option (List MemoryRegionE820) :=
  let n := BitVec.ofNat 32 l.length
  bubbleRegions n (n - 1).toNat 0 l

/-- `FetchMemoryRegions`, for a table with an entry in it: the table, sorted by base. -/
def fetchMemoryRegions (table : List MemoryRegionE820) : List MemoryRegionE820 :=
  BubbleSort.sinkSort (fun r => r.base.toNat) (table.length - 1) table

/-- `himem_start`, `himem_break` and `n_pages_high`. -/
structure HighMem where
  start : BitVec 32
  brk : BitVec 32
  nPages : BitVec 32
  deriving DecidableEq, Repr

namespace HighMem

def boot : HighMem := ⟨highMemoryStart, highMemoryStart + 0x100000#32, 0⟩

/-- The pages of the pool: `aligndown(himem_break - himem_start, FRAME_SIZE) / FRAME_SIZE`. -/
def pages (start brk : BitVec 32) : BitVec 32 := alignDown (brk - start) / 0x1000#32

end HighMem

/-- `best_start`, `best_break` and `max_size`. -/
structure BestRegion where
  start : BitVec 32
  brk : BitVec 32
  size : BitVec 64
  deriving DecidableEq, Repr

/-- One round of the loop that looks for the largest region. -/
def BestRegion.consider (b : BestRegion) (r : MemoryRegionE820) : BestRegion :=
  if !r.available then b
  else if r.base < highMemoryStart.setWidth 64 then b
  else if r.length = 0 then b
  else
    let alignedBase := pageAlign (r.base.setWidth 32)
    let endaddr := r.base + r.length
    if endaddr ≤ alignedBase.setWidth 64 then b
    else
      let candidate := endaddr - alignedBase.setWidth 64
      if b.size < candidate then ⟨alignedBase, endaddr.setWidth 32, candidate⟩ else b

def allocHighInit (table : List MemoryRegionE820) (h : HighMem) : HighMem :=
  let best := (fetchMemoryRegions table).foldl BestRegion.consider
    ⟨h.start, h.brk, (h.brk - h.start).setWidth 64⟩
  let start := if best.start < highMemoryStart then highMemoryStart else best.start
  ⟨start, best.brk, HighMem.pages start best.brk⟩

def allocHighBreakAt (start stop : BitVec 32) (h : HighMem) : HighMem :=
  let start := if h.start < start then start else h.start
  let brk := if 0 < stop ∧ stop < h.brk then stop else h.brk
  ⟨start, brk, if start < brk then HighMem.pages start brk else 0⟩

/-- The address of the block, or the null pointer. -/
def allocateHighMemory (nPages : BitVec 32) (h : HighMem) : BitVec 32 × HighMem :=
  if nPages = 0 then (0, h)
  else if h.nPages < nPages then (0, h)
  else (h.start, ⟨h.start + nPages * 0x1000#32, h.brk, h.nPages - nPages⟩)

end DragonWare
