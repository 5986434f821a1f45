import DragonWare.Section

/-!
# Blocks of several pages

The rest of `sys/lib/kmalloc.c`: `HugeAllocation`, `kzalloc`, and `kmalloc` and `kfree` for blocks
of any size. A block of several pages is the first range of the kernel half that is long enough for
it and for a record of its frames. The record is in the first page, where the block begins as well,
and is read through it: the machine stops when the page is not mapped.
-/

namespace DragonWare

open Memory

/-- The address of the range, or 0. -/
def Mmu.findFreePageRange (startScan stopScan nPages : ℕ) (m : Mmu) : ℕ :=
  DragonWare.findFreePageRange m.isVirtualPageMapped startScan stopScan nPages

/-- `arraysize(physframes)`. -/
def maxPhysframes : ℕ := 512

/-- `&mtdt->physframes[i]`. The structure is packed, and its two bit fields take one byte. -/
def physframesEntry (mtdt i : ℕ) : ℕ := mtdt + 1 + 4 * i

def kzeromem (dest size : ℕ) (mem : Mem) : Mem := blit mem dest size fun _ => 0#8

namespace HeapPages

/-- The loop over `n` pages from page `i` on: whether it ran to its end, and the pages mapped in
all. -/
def mapHugePages (base : ℕ) : ℕ → ℕ → Mem × HeapPages → Bool × ℕ × Mem × HeapPages
  | 0, i, s => (true, i, s)
  | n + 1, i, s =>
    let r := s.2.frames.allocateFrame
    let mem := writePtr s.1 (physframesEntry base i) r.1
    let h := { s.2 with frames := r.2 }
    if r.1 < 0x2000 then (false, i, mem, h)
    else
      match Mmu.mapSinglePage r.1 (base + i * frameSize + frameSize) (pagePresent ||| pageRW) h.mmu
        h.frames with
      | (.ok, mmu, frames) => mapHugePages base n (i + 1) (mem, { h with mmu, frames })
      | (_, mmu, frames) => (false, i, mem, { h with mmu, frames })

/-- What `HugeAllocation` does at `bad`. The record is read after its page has been unmapped. -/
def abandonHugePages (debug : Bool) (frame base allocated : ℕ) (s : Mem × HeapPages) :
    Option (ℕ × Mem × HeapPages) := do
  let frames ← (if 0x2000 ≤ frame then s.2.frames.freeFrame debug frame else some s.2.frames)
  let mmu ← (if base ≠ 0 ∧ s.2.mmu.isVirtualPageMapped base then
    s.2.mmu.unmapSinglePage debug base else some s.2.mmu)
  let h ← Loop.times (fun i h =>
      if !h.mmu.isVirtualPageMapped base then none
      else (h.frames.freeFrame debug (readPtr s.1 (physframesEntry base i))).map fun frames =>
        { h with frames })
    allocated { s.2 with mmu, frames }
  return (0, s.1, h)

/-- The address of the block, or 0. `ZeroMemory` on a pointer clears as many bytes as a pointer
has. -/
def hugeAllocation (debug : Bool) (nPages : ℕ) (s : Mem × HeapPages) :
    Option (ℕ × Mem × HeapPages) :=
  if maxPhysframes < nPages then some (0, s)
  else
    let base := s.2.mmu.findFreePageRange kernelVMBase kernelStackBase (nPages + 1)
    if base = 0 then some (0, s)
    else
      let r := s.2.frames.allocateFrame
      let h := { s.2 with frames := r.2 }
      if r.1 = 0 then abandonHugePages debug r.1 base 0 (s.1, h)
      else
        match Mmu.mapSinglePage r.1 base (pagePresent ||| pageRW ||| pageGlobal) h.mmu
          h.frames with
        | (.ok, mmu, frames) =>
          match mapHugePages base nPages 0 (kzeromem base 4 s.1, { h with mmu, frames }) with
          | (true, _, s) => some (base, s)
          | (false, allocated, s) => abandonHugePages debug r.1 base allocated s
        | (_, mmu, frames) => abandonHugePages debug r.1 base 0 (s.1, { h with mmu, frames })

/-- The pages of requests of any size. -/
def hugeSource (debug pge : Bool) : PageSource HeapPages :=
  ⟨allocateVirtualPage debug pge, freeVirtualPage debug, hugeAllocation debug⟩

end HeapPages

/-- The block, cleared in the size of its cache, or in the size of a page. -/
def kzalloc {π : Type*} (src : PageSource π) (size : ℕ) (s : SlabCaches × π) :
    Option (ℕ × SlabCaches × π) :=
  (kmalloc src size s).map fun r =>
    if r.1 = 0 then r
    else
      match getSlabCacheForSize size with
      | some i => (r.1, { r.2.1 with mem := kzeromem r.1 (r.2.1.objsize i) r.2.1.mem }, r.2.2)
      | none => (r.1, { r.2.1 with mem := kzeromem r.1 frameSize r.2.1.mem }, r.2.2)

/-- The owner of a block stores `data` in all of its bytes. The machine stops at a page that is not
mapped. -/
def storeBlock (ptr size : ℕ) (data : Mem) (s : SlabCaches × HeapPages) :
    Option (SlabCaches × HeapPages) :=
  if ∀ j < pageSteps 0 size,
      ptr + j * frameSize < 2 ^ 32 ∧ s.2.mmu.isVirtualPageMapped (ptr + j * frameSize) then
    some ({ s.1 with mem := blit s.1.mem ptr size data }, s.2)
  else none

/-- One request of any size, one free of a live block, or one store into a live block. -/
def hugeStep (debug pge : Bool) (s : Heap) : HeapOp → Option Heap
  | .kmalloc size =>
    if size < 2 ^ 32 then
      (DragonWare.kmalloc (HeapPages.hugeSource debug pge) size (s.caches, s.pages)).map fun r =>
        ⟨r.2.1, r.2.2, if r.1 = 0 then s.live else (r.1, size) :: s.live⟩
    else none
  | .kfree ptr =>
    if ptr ∈ s.live.map Prod.fst then
      (DragonWare.kfree (HeapPages.hugeSource debug pge) ptr (s.caches, s.pages)).map fun r =>
        ⟨r.1, r.2, s.live.filter fun b => b.1 ≠ ptr⟩
    else none
  | .write ptr k v =>
    if ∃ b ∈ s.live, b.1 = ptr ∧ k < b.2 then
      some { s with caches := { s.caches with
        mem := Function.update s.caches.mem (ptr + k) v } }
    else none

namespace Vm

/-- `CreateThread`: whether there is a thread. Its block is a small one. Both frames are lost when
there is no room for a stack. -/
def createThread (debug pge fresh : Bool) (v : Vm) : Option (Bool × Vm) := do
  let (physStack1, frames) := v.frames.allocateFrame
  let (physStack2, frames) := frames.allocateFrame
  let v := { v with frames }
  let bad (stackaddr : ℕ) (v : Vm) : Option (Bool × Vm) := do
    let frames ← (if physStack1 ≠ 0 then v.frames.freeFrame debug physStack1 else some v.frames)
    let frames ← (if physStack2 ≠ 0 then frames.freeFrame debug physStack2 else some frames)
    let mmu ← v.mmu.unmapSinglePage debug (stackaddr + frameSize)
    let mmu ← mmu.unmapSinglePage debug stackaddr
    return (false, { v with mmu, frames })
  match v.getNextKernelStackAddress with
  | none => return (false, v)
  | some stackaddr =>
    if physStack1 = 0 ∨ physStack2 = 0 then bad stackaddr v
    else
      match Mmu.mapSinglePage physStack2 (stackaddr + frameSize) (pagePresent ||| pageRW) v.mmu
        v.frames with
      | (.ok, mmu, frames) =>
        match Mmu.mapSinglePage physStack1 stackaddr (pagePresent ||| pageRW) mmu frames with
        | (.ok, mmu, frames) =>
          let (t, v) ← kmallocSmall debug pge fresh { v with mmu, frames }
          if !t then bad stackaddr v else return (true, v)
        | (_, mmu, frames) => bad stackaddr { v with mmu, frames }
      | (_, mmu, frames) => bad stackaddr { v with mmu, frames }

end Vm

/-- The heap with the bits of the temporary maps. -/
structure KernelMemory extends Heap where
  tmpmap : ℕ → BitVec 32

def KernelMemory.vm (s : KernelMemory) : Vm := ⟨s.pages, s.tmpmap⟩

def KernelMemory.setVm (s : KernelMemory) (v : Vm) : KernelMemory :=
  { s with pages := v.toHeapPages, tmpmap := v.tmpmap }

inductive MemoryOp
  | heap (op : HeapOp)
  | createProcess (fresh : ℕ → Bool) (code : Mem) (codeSize : ℕ)
  | createThread (fresh : Bool)

/-- One call that changes kernel memory. -/
def memoryStep (debug pge : Bool) (s : KernelMemory) : MemoryOp → Option KernelMemory
  | .heap op => (hugeStep debug pge s.toHeap op).map fun h => { s with toHeap := h }
  | .createProcess fresh code codeSize =>
    (s.vm.createProcess debug pge fresh code codeSize).map fun r => s.setVm r.2
  | .createThread fresh => (s.vm.createThread debug pge fresh).map fun r => s.setVm r.2

end DragonWare
