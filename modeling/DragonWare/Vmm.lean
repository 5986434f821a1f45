import DragonWare.Kmalloc
import DragonWare.Paging

/-!
# The virtual memory manager

The rest of `sys/ddk/ia32/vmm.c`: the walk that the processor makes through the two levels, loads
and stores at virtual addresses by it, and `InitVirtualMemoryManager`, which builds the first
directory while physical memory is still addressed directly.
-/

namespace DragonWare

def maxPDEntries : ℕ := 1024

def kernelPDIndex : ℕ := pdIndex kernelVMBase

def kernelPDEFlags : BitVec 32 := pagePresent ||| pageRW

/-- The bytes of a frame, from its words. -/
def frameBytes (words : ℕ → BitVec 32) : Memory.Mem := fun x =>
  (words (x / 4)).extractLsb' (8 * (x % 4)) 8

/-- The words of a frame, from its bytes. -/
def frameWords (bytes : Memory.Mem) (j : ℕ) : BitVec 32 := Memory.read32 bytes (4 * j)

namespace Mmu

/-- The entry that maps `addr` in the address space of the directory `dir`. -/
def translate (m : Mmu) (dir addr : ℕ) : Option (BitVec 32) :=
  let pde := m.table dir (pdIndex addr)
  if entryPresent pde then
    let pte := m.table (entryFrame pde) (ptIndex addr)
    if entryPresent pte then some pte else none
  else none

/-- A store of a word. On a page that is not mapped the machine stops. -/
def store (addr : ℕ) (e : BitVec 32) (m : Mmu) : Option Mmu :=
  (m.translate m.cr3 addr).map fun pte => m.write (entryFrame pte) (addr % frameSize / 4) e

def zeroPage (addr : ℕ) (m : Mmu) : Option Mmu :=
  (m.translate m.cr3 addr).map fun pte => m.zeroFrame (entryFrame pte)

/-- `memcpy` of `n` bytes to the start of a page. -/
def copyToPage (addr : ℕ) (bytes : Memory.Mem) (n : ℕ) (m : Mmu) : Option Mmu :=
  (m.translate m.cr3 addr).map fun pte =>
    let old := frameBytes (m.table (entryFrame pte))
    let new := frameWords fun x => if x < n then bytes x else old x
    { m with table := Function.update m.table (entryFrame pte) new }

/-- The byte at `addr` in the address space of `dir`. -/
def byteAt (m : Mmu) (dir addr : ℕ) : Option (BitVec 8) :=
  (m.translate dir addr).map fun pte => frameBytes (m.table (entryFrame pte)) (addr % frameSize)

/-- User mode may use the page of `addr` in the address space of `dir`: both entries say so. -/
def userAccessible (m : Mmu) (dir addr : ℕ) : Bool :=
  match m.translate dir addr with
  | some pte => m.table dir (pdIndex addr) &&& pageUser ≠ 0#32 && pte &&& pageUser ≠ 0#32
  | none => false

end Mmu

/-- The symbols of the linker script. -/
structure LinkerSymbols where
  start : ℕ
  stop : ℕ
  textStart : ℕ
  textStop : ℕ
  rodataStart : ℕ
  rodataStop : ℕ

/-- How often a loop runs that goes from `start` to `stop` by pages. -/
def pageSteps (start stop : ℕ) : ℕ := (stop - start + (frameSize - 1)) / frameSize

namespace Mmu

/-- `n` rounds of a loop that points an entry of the table in `pt` at a page of the kernel. -/
def fillTable (pt : ℕ) (flags : BitVec 32) (index addr : ℕ → ℕ) (m : Mmu) : ℕ → Mmu
  | 0 => m
  | n + 1 =>
    (fillTable pt flags index addr m n).write pt (ptIndex (index n))
      (BitVec.ofNat 32 (virtToPhys (addr n)) ||| flags)

/-- The loop over the directory entries of the kernel, from `i` on. -/
def allocateTables (pd : ℕ) : ℕ → ℕ → Mmu → FrameManager → Status × Mmu × FrameManager
  | 0, _, m, fm => (.ok, m, fm)
  | n + 1, i, m, fm =>
    if entryPresent (m.table pd i) then allocateTables pd n (i + 1) m fm
    else
      let r := fm.allocateFrame
      if r.1 = 0 then (.outOfMemory, m, r.2)
      else allocateTables pd n (i + 1)
        ((m.zeroFrame r.1).write pd i (BitVec.ofNat 32 r.1 ||| kernelPDEFlags)) r.2

/-- `pge` says whether the processor has global pages. -/
def initVirtualMemoryManager (pge : Bool) (image : LinkerSymbols) (m : Mmu) (fm : FrameManager) :
    Status × Mmu × FrameManager :=
  let pd := fm.allocateLowMemory
  let pt := pd.2.allocateLowMemory
  if pd.1 = 0 ∨ pt.1 = 0 then (.outOfMemory, m, pt.2)
  else
    let m := (m.zeroFrame pd.1).zeroFrame pt.1
    let pgeFlag := if pge then pageGlobal else 0#32
    let m := m.fillTable pt.1 (pagePresent ||| pageRW ||| pgeFlag) (· * frameSize)
      (image.start + · * frameSize) (alignUp (image.stop - image.start) frameSize / frameSize)
    match m.allocateTables pd.1 (maxPDEntries - 1 - kernelPDIndex) kernelPDIndex pt.2 with
    | (.ok, m, fm) =>
      let m := m.fillTable pt.1 (pagePresent ||| pgeFlag) (image.textStart + · * frameSize)
        (image.textStart + · * frameSize) (pageSteps image.textStart image.textStop)
      let m := m.fillTable pt.1 (pagePresent ||| pgeFlag) (image.rodataStart + · * frameSize)
        (image.rodataStart + · * frameSize) (pageSteps image.rodataStart image.rodataStop)
      let m := m.write pd.1 kernelPDIndex (BitVec.ofNat 32 pt.1 ||| kernelPDEFlags)
      let m := m.write pd.1 (maxPDEntries - 1) (BitVec.ofNat 32 pd.1 ||| kernelPDEFlags)
      (.ok, { m with cr3 := pd.1 }, fm)
    | r => r

end Mmu

end DragonWare
