import DragonWare.Heap
import DragonWare.Lib.Loop
import DragonWare.Lib.Run
import DragonWare.Vmm

/-!
# The memory of processes

`CreateProcess` of `sys/task/process.c`, as far as it is about memory. Other frames are reached
through temporary maps, slots of a window of the kernel half. A store through a map goes where the
page tables send its address, whether that is the frame it was meant for or not.

The blocks that `kmalloc` returns on the way are small enough for a slab. Whether a request takes a
new page is an argument. Blocks given back stay in their slabs.
-/

namespace DragonWare

def tmpMapMaxPages : ℕ := 1024

def tmpMapBitmapWords : ℕ := tmpMapMaxPages / 32

def temporaryVirtMapAddr : ℕ := 0xF2000000

def kernelStackBase : ℕ := 0xE0000000

def kernelStackEnd : ℕ := 0xEFFF0000

def kernelStackSizePages : ℕ := 2

def defaultUserStackAddr : ℕ := 0xBFFF0000

def userStackSizePages : ℕ := 4

def flatBinaryDefaultEntry : ℕ := 0x100000

/-- `PAGE_PRESENT | PAGE_RW | PAGE_USER`. -/
def userPageFlags : BitVec 32 := pagePresent ||| pageRW ||| pageUser

structure VMAddress where
  virt : ℕ
  phys : ℕ
  deriving DecidableEq, Repr

structure VirtualMap where
  addr : VMAddress
  slot : ℕ
  deriving DecidableEq, Repr

/-- The fields of `Process` that name frames. -/
structure ProcessMemory where
  cr3 : ℕ
  kstacks : List VMAddress
  deriving DecidableEq, Repr

/-- The memory of the machine, with the bits of the temporary maps. -/
structure Vm extends HeapPages where
  tmpmap : ℕ → BitVec 32

namespace Vm

/-- `kmalloc` of a small block: whether there is one. A `fresh` block needs a page. -/
def kmallocSmall (debug pge fresh : Bool) (v : Vm) : Option (Bool × Vm) :=
  if fresh then
    (v.allocateVirtualPage debug pge).map fun r => (r.1 ≠ 0, { v with toHeapPages := r.2 })
  else some (true, v)

def store (addr : ℕ) (e : BitVec 32) (v : Vm) : Option Vm :=
  (v.mmu.store addr e).map fun mmu => { v with mmu }

def zeroPage (addr : ℕ) (v : Vm) : Option Vm :=
  (v.mmu.zeroPage addr).map fun mmu => { v with mmu }

def copyToPage (addr : ℕ) (bytes : Memory.Mem) (n : ℕ) (v : Vm) : Option Vm :=
  (v.mmu.copyToPage addr bytes n).map fun mmu => { v with mmu }

def findFreeTmpMapSlot (v : Vm) : Option ℕ := Bitmap.scanClear v.tmpmap tmpMapBitmapWords 0

def tmpMapAddrFromIndex (idx : ℕ) : ℕ := temporaryVirtMapAddr - idx * frameSize

/-- The map is null when a block, a slot, a frame or a table is missing, or when the page of the
slot is mapped already. -/
def createTempVirtualMap (debug pge fresh : Bool) (v : Vm) : Option (Option VirtualMap × Vm) := do
  let (m, v) ← v.kmallocSmall debug pge fresh
  if !m then return (none, v)
  match v.findFreeTmpMapSlot with
  | none => return (none, v)
  | some slot =>
    let virt := tmpMapAddrFromIndex slot
    let (phys, frames) := v.frames.allocateFrame
    if phys = 0 then return (none, { v with frames })
    match Mmu.mapSinglePage phys virt (pagePresent ||| pageRW) v.mmu frames with
    | (.ok, mmu, frames) =>
      let v : Vm := { v with mmu, frames, tmpmap := Bitmap.setBit v.tmpmap slot }
      let v ← v.zeroPage virt
      return (some ⟨⟨virt, phys⟩, slot⟩, v)
    | (_, mmu, frames) =>
      let frames ← frames.freeFrame debug phys
      return (none, { v with mmu, frames })

def deleteTempVirtualMap (debug : Bool) (m : VirtualMap) (v : Vm) : Option Vm :=
  if !Bitmap.testBit v.tmpmap m.slot then none
  else
    (v.mmu.unmapSinglePage debug m.addr.virt).map fun mmu =>
      { v with mmu, tmpmap := Bitmap.clearBit v.tmpmap m.slot }

/-- The search of `GetNextKernelStackAddress` from `addr` on, over `n` stacks at most. -/
def findKernelStack (m : Mmu) : ℕ → ℕ → Option ℕ
  | 0, _ => none
  | n + 1, addr =>
    if m.isVirtualPageMapped addr || m.isVirtualPageMapped (addr + frameSize) then
      findKernelStack m n (addr + kernelStackSizePages * frameSize)
    else some addr

/-- The machine stops when there is no room for another stack. -/
def getNextKernelStackAddress (v : Vm) : Option ℕ :=
  findKernelStack v.mmu ((kernelStackEnd - kernelStackBase) / (kernelStackSizePages * frameSize))
    kernelStackBase

/-- One round of the loop that maps the kernel stack. Neither the frame nor the status is looked
at. -/
def mapKernelStackPage (virt : ℕ) (v : Vm) : VMAddress × Vm :=
  let (phys, frames) := v.frames.allocateFrame
  let (_, mmu, frames) :=
    Mmu.mapSinglePage phys virt (pagePresent ||| pageRW ||| pageGlobal) v.mmu frames
  (⟨virt, phys⟩, { v with mmu, frames })

/-- The copy of the kernel's directory entries to the directory at `pd`. -/
def copyKernelEntries (pd : ℕ) (v : Vm) : Option Vm :=
  Loop.times (fun i v => v.store (pd + 4 * (kernelPDIndex + i)) (v.mmu.pde (kernelPDIndex + i)))
    (maxPDEntries - 1 - kernelPDIndex) v

/-- Round `i` of the loop that fills the user stack's table. -/
def addStackPage (debug pge fresh : Bool) (stackmap : VirtualMap) (i : ℕ) (v : Vm) :
    Option Vm := do
  let (currstack, v) ← v.createTempVirtualMap debug pge fresh
  let currstack ← currstack
  let ptindex := ptIndex (defaultUserStackAddr - i * frameSize)
  let v ← v.store (stackmap.addr.virt + 4 * ptindex)
    (BitVec.ofNat 32 currstack.addr.phys ||| userPageFlags)
  v.deleteTempVirtualMap debug currstack

/-- The user stack of the new process, entered in the directory at `pd`. -/
def addUserStack (debug pge : Bool) (fresh : ℕ → Bool) (pd : ℕ) (v : Vm) : Option Vm := do
  let (stackmap, v) ← v.createTempVirtualMap debug pge (fresh 0)
  let stackmap ← stackmap
  let v ← v.zeroPage stackmap.addr.virt
  let v ← Loop.times (fun i => addStackPage debug pge (fresh (i + 1)) stackmap i)
    userStackSizePages v
  let v ← v.store (pd + 4 * pdIndex defaultUserStackAddr)
    (BitVec.ofNat 32 stackmap.addr.phys ||| userPageFlags)
  v.deleteTempVirtualMap debug stackmap

/-- Round `k` of the loop that copies the executable, with its pages entered in the table at
`pt`. -/
def copyCodePage (debug pge fresh : Bool) (code : Memory.Mem) (codeSize pt k : ℕ) (v : Vm) :
    Option Vm := do
  let (codemap, v) ← v.createTempVirtualMap debug pge fresh
  let codemap ← codemap
  let i := k * frameSize
  let v ← v.store (pt + 4 * ((flatBinaryDefaultEntry + i) / frameSize))
    (BitVec.ofNat 32 codemap.addr.phys ||| userPageFlags)
  let v ← v.zeroPage codemap.addr.virt
  let copySize := if codeSize - i < frameSize then codeSize - i else frameSize
  let v ← v.copyToPage codemap.addr.virt (fun x => code (i + x)) copySize
  v.deleteTempVirtualMap debug codemap

/-- The rest of `CreateProcess` once the directory's map is there. A map that is null stops the
machine. -/
def buildAddressSpace (debug pge : Bool) (fresh : ℕ → Bool) (code : Memory.Mem) (codeSize : ℕ)
    (pdmap : VirtualMap) (v : Vm) : Option Vm := do
  let v ← v.copyKernelEntries pdmap.addr.virt
  let (ptmap, v) ← v.createTempVirtualMap debug pge (fresh 0)
  let ptmap ← ptmap
  let v ← v.zeroPage ptmap.addr.virt
  let v ← v.addUserStack debug pge (fun i => fresh (i + 1)) pdmap.addr.virt
  let v ← Loop.times (fun k => copyCodePage debug pge (fresh (k + 6)) code codeSize
    ptmap.addr.virt k) (pageSteps 0 codeSize) v
  let v ← v.store pdmap.addr.virt (BitVec.ofNat 32 ptmap.addr.phys ||| userPageFlags)
  let v ← v.store (pdmap.addr.virt + 4 * (maxPDEntries - 1))
    (BitVec.ofNat 32 pdmap.addr.phys ||| kernelPDEFlags)
  let v ← v.deleteTempVirtualMap debug pdmap
  v.deleteTempVirtualMap debug ptmap

/-- The process, or null. Its main thread is a block of the heap. -/
def createProcess (debug pge : Bool) (fresh : ℕ → Bool) (code : Memory.Mem) (codeSize : ℕ)
    (v : Vm) : Option (Option ProcessMemory × Vm) := do
  if codeSize = 0 then return (none, v)
  let stack ← v.getNextKernelStackAddress
  let (p, v) ← v.kmallocSmall debug pge (fresh 0)
  if !p then return (none, v)
  let (kstack0, v) := v.mapKernelStackPage stack
  let (kstack1, v) := v.mapKernelStackPage (stack + frameSize)
  let (mainThread, v) ← v.kmallocSmall debug pge (fresh 1)
  if !mainThread then return (none, v)
  let (pdmap, v) ← v.createTempVirtualMap debug pge (fresh 2)
  match pdmap with
  | none => return (none, v)
  | some pdmap =>
    let v ← v.buildAddressSpace debug pge (fun i => fresh (i + 3)) code codeSize pdmap
    return (some ⟨pdmap.addr.phys, [kstack0, kstack1]⟩, v)

/-- `SwapProcess`, `SetPageDirectory` included. -/
def swapProcess (cr3 : ℕ) (v : Vm) : Vm := { v with mmu := { v.mmu with cr3 } }

end Vm

/-- What is done to address spaces, and to frames that the rest of the kernel holds. -/
inductive SpaceOp
  | createProcess (fresh : ℕ → Bool) (code : Memory.Mem) (codeSize : ℕ)
  | swapProcess (cr3 : ℕ)
  | mapSinglePage (phys virt : ℕ) (flags : BitVec 32)
  | unmapSinglePage (virt : ℕ)
  | allocateFrame
  | freeFrame (frameaddr : ℕ)
  | store (frameaddr j : ℕ) (e : BitVec 32)

/-- The directories of all address spaces created so far, and the frames handed out to others. -/
structure AddressSpaces where
  vm : Vm
  spaces : List ℕ
  data : List ℕ

/-- One step. Executables fill one table at most, pages are mapped below the window of the tables,
and frames are given back or written to by those that hold them. -/
def spaceStep (debug pge : Bool) (s : AddressSpaces) : SpaceOp → Option AddressSpaces
  | .createProcess fresh code codeSize =>
    if codeSize ≤ 0x300000 then
      (s.vm.createProcess debug pge fresh code codeSize).map fun r =>
        { s with vm := r.2, spaces := (r.1.map ProcessMemory.cr3).toList ++ s.spaces }
    else none
  | .swapProcess cr3 =>
    if cr3 ∈ s.spaces then some { s with vm := s.vm.swapProcess cr3 } else none
  | .mapSinglePage phys virt flags =>
    if virt < 0xFFC00000 then
      let (_, mmu, frames) := Mmu.mapSinglePage phys virt flags s.vm.mmu s.vm.frames
      some { s with vm := { s.vm with mmu, frames } }
    else none
  | .unmapSinglePage virt =>
    if virt < 0xFFC00000 then
      (s.vm.mmu.unmapSinglePage debug virt).map fun mmu => { s with vm := { s.vm with mmu } }
    else none
  | .allocateFrame =>
    let r := s.vm.frames.allocateFrame
    some { s with
      vm := { s.vm with frames := r.2 }
      data := if r.1 = 0 then s.data else r.1 :: s.data }
  | .freeFrame a =>
    if a ∈ s.data then
      (s.vm.frames.freeFrame debug a).map fun frames =>
        { s with vm := { s.vm with frames }, data := s.data.erase a }
    else none
  | .store a j e =>
    if a ∈ s.data then some { s with vm := { s.vm with mmu := s.vm.mmu.write a j e } } else none

/-- The state `InitVirtualMemoryManager` leaves, with the frames handed out before it ran. -/
def AddressSpaces.boot (r : Status × Mmu × FrameManager) (data : List ℕ) : AddressSpaces :=
  ⟨⟨⟨fun _ => 0#32, r.2.1, r.2.2⟩, fun _ => 0#32⟩, [r.2.1.cr3], data⟩

/-- A state reached from a successful `InitVirtualMemoryManager`, run on a frame manager that may
have handed out frames. -/
def AddressSpaces.Reachable (debug pge : Bool) (s : AddressSpaces) : Prop :=
  ∃ fuel regions frames₀ calls frames data image mmu ops,
    FrameManager.initFrameManager fuel regions = some frames₀
      ∧ Run.exec (frameStep debug) (frames₀, []) calls = some (frames, data)
      ∧ (Mmu.initVirtualMemoryManager pge image mmu frames).1 = .ok
      ∧ Run.exec (spaceStep debug pge)
        (boot (Mmu.initVirtualMemoryManager pge image mmu frames) data) ops = some s

end DragonWare
