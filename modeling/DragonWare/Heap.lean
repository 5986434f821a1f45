import DragonWare.Kmalloc
import DragonWare.Paging

/-!
# Pages for the kernel heap

The other half of `sys/lib/kmalloc.c`. The heap is a window of virtual pages with one bit each,
and a page of it is backed by a frame of the frame manager through the page tables. These are the
pages `kmalloc` and `kfree` work with.
-/

namespace DragonWare

def heapBase : ℕ := kernelVMBase + 0x100000

def heapBreak : ℕ := heapBase + 0x20000000

def bitWordsNeeded : ℕ := ((heapBreak - heapBase) / frameSize + 31) / 32

def bitOf (addr : ℕ) : ℕ := (addr - heapBase) / frameSize

structure HeapPages where
  bitmap : ℕ → BitVec 32
  mmu : Mmu
  frames : FrameManager

namespace HeapPages

/-- The range check lets `HEAP_BREAK` itself through. -/
def markHeapPageAsUsed (addr : ℕ) (h : HeapPages) : HeapPages :=
  if heapBase ≤ addr ∧ addr ≤ heapBreak then
    { h with bitmap := Bitmap.setBit h.bitmap (bitOf addr) }
  else h

def markHeapPageAsFree (debug : Bool) (addr : ℕ) (h : HeapPages) : Option HeapPages :=
  if debug ∧ addr % frameSize ≠ 0 then none
  else if heapBase ≤ addr ∧ addr ≤ heapBreak then
    some { h with bitmap := Bitmap.clearBit h.bitmap (bitOf addr) }
  else some h

/-- The machine stops when every page of the window is in use. -/
def getHeapPageAddress (h : HeapPages) : Option (ℕ × HeapPages) :=
  (Bitmap.scanClear h.bitmap bitWordsNeeded 0).map fun i =>
    (heapBase + i * frameSize, h.markHeapPageAsUsed (heapBase + i * frameSize))

/-- `pge` says whether the processor has global pages. -/
def allocateVirtualPage (debug pge : Bool) (h : HeapPages) : Option (ℕ × HeapPages) :=
  let r := h.frames.allocateFrame
  let h := { h with frames := r.2 }
  if r.1 = 0 then some (0, h)
  else
    h.getHeapPageAddress.bind fun a =>
      let flags := pagePresent ||| pageRW ||| if pge then pageGlobal else 0#32
      match Mmu.mapSinglePage r.1 a.1 flags a.2.mmu a.2.frames with
      | (.ok, mmu, frames) => some (a.1, { a.2 with mmu, frames })
      | (_, mmu, frames) =>
        (markHeapPageAsFree debug a.1 { a.2 with mmu, frames }).bind fun h =>
          (h.frames.freeFrame debug r.1).map fun frames => (0, { h with frames })

/-- The frame given back is the one at a constant offset from the page. -/
def freeVirtualPage (debug : Bool) (vaddr : ℕ) (h : HeapPages) : Option HeapPages :=
  (h.mmu.unmapSinglePage debug vaddr).bind fun mmu =>
    (markHeapPageAsFree debug vaddr { h with mmu }).bind fun h =>
      (h.frames.freeFrame debug (virtToPhys vaddr)).map fun frames => { h with frames }

/-- The pages of requests up to one page. -/
def source (debug pge : Bool) : PageSource HeapPages :=
  ⟨allocateVirtualPage debug pge, freeVirtualPage debug, fun _ _ => none⟩

/-- The frame that backs the page at `vaddr`, if it is mapped. -/
def frameAt (h : HeapPages) (vaddr : ℕ) : Option ℕ :=
  if h.mmu.isVirtualPageMapped vaddr then
    some (entryFrame (h.mmu.pte (pdIndex vaddr) (ptIndex vaddr)))
  else none

end HeapPages

inductive HeapOp
  | kmalloc (size : ℕ)
  | kfree (ptr : ℕ)
  | write (ptr k : ℕ) (v : BitVec 8)
  deriving DecidableEq, Repr

/-- The allocator, its pages, and the blocks handed out with the sizes they were asked for. -/
structure Heap where
  caches : SlabCaches
  pages : HeapPages
  live : List (ℕ × ℕ)

/-- One request of at most a page, one free of a live block, or one store into a live block. -/
def heapStep (debug pge : Bool) (s : Heap) : HeapOp → Option Heap
  | .kmalloc size =>
    if size ≤ frameSize then
      (DragonWare.kmalloc (HeapPages.source debug pge) size (s.caches, s.pages)).map fun r =>
        ⟨r.2.1, r.2.2, if r.1 = 0 then s.live else (r.1, size) :: s.live⟩
    else none
  | .kfree ptr =>
    if ptr ∈ s.live.map Prod.fst then
      (DragonWare.kfree (HeapPages.source debug pge) ptr (s.caches, s.pages)).map fun r =>
        ⟨r.1, r.2, s.live.filter fun b => b.1 ≠ ptr⟩
    else none
  | .write ptr k v =>
    if ∃ b ∈ s.live, b.1 = ptr ∧ k < b.2 then
      some { s with caches := { s.caches with
        mem := Function.update s.caches.mem (ptr + k) v } }
    else none

end DragonWare
