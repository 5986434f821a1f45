import DragonWare.Frame

/-!
# Page tables

`sys/ddk/ia32/vmm.c`. Translation has two levels: the directory in the frame CR3 names, and the
tables in the frames its entries name. The code reaches both through the directory's last entry,
which points back at the directory; here they are words of physical frames, by frame address.
-/

namespace DragonWare

open Function

inductive Status
  | ok
  | bad
  | outOfMemory
  | badArgument
  | retry
  | unsupported
  | notFound
  | outOfBounds
  | timeout
  | noEndpoint
  | badSyscall
  | msgqueueFull
  deriving DecidableEq, Repr

def pagePresent : BitVec 32 := 0x001#32
def pageRW : BitVec 32 := 0x002#32
def pageUser : BitVec 32 := 0x004#32
def pageGlobal : BitVec 32 := 0x100#32

def kernelVMBase : ℕ := 0xC0000000

def kernelLMABase : ℕ := 0x00100000

def virtOffset : ℕ := kernelVMBase - kernelLMABase

/-- `virt_to_phys`, in 32 bits. -/
def virtToPhys (addr : ℕ) : ℕ := (addr + (2 ^ 32 - virtOffset)) % 2 ^ 32

def pdIndex (x : ℕ) : ℕ := x / 2 ^ 22 % 1024

def ptIndex (x : ℕ) : ℕ := x / 2 ^ 12 % 1024

/-- The frame an entry points at, `PAGE_FRAME_MASK` applied. -/
def entryFrame (e : BitVec 32) : ℕ := (e &&& 0xFFFFF000#32).toNat

def entryPresent (e : BitVec 32) : Bool := e &&& pagePresent ≠ 0#32

/-- CR3, and the words of the frames that hold directories and tables. -/
structure Mmu where
  cr3 : ℕ
  table : ℕ → ℕ → BitVec 32

namespace Mmu

def pde (m : Mmu) (i : ℕ) : BitVec 32 := m.table m.cr3 i

def pte (m : Mmu) (i j : ℕ) : BitVec 32 := m.table (entryFrame (m.pde i)) j

def write (m : Mmu) (frame j : ℕ) (e : BitVec 32) : Mmu :=
  { m with table := update m.table frame (update (m.table frame) j e) }

def zeroFrame (m : Mmu) (frame : ℕ) : Mmu :=
  { m with table := update m.table frame fun _ => 0#32 }

/-- The check `IsVirtualPageMapped` makes. Its assertion that `addr` is aligned is the caller's. -/
def isVirtualPageMapped (m : Mmu) (addr : ℕ) : Bool :=
  entryPresent (m.pde (pdIndex addr)) && entryPresent (m.pte (pdIndex addr) (ptIndex addr))

/-- A missing table is allocated and cleared first. -/
def mapSinglePage (phys virt : ℕ) (flags : BitVec 32) (m : Mmu) (fm : FrameManager) :
    Status × Mmu × FrameManager :=
  if virt = 0 ∨ phys % frameSize ≠ 0 ∨ virt % frameSize ≠ 0 then (.badArgument, m, fm)
  else
    let install := fun (m : Mmu) (fm : FrameManager) =>
      if entryPresent (m.pte (pdIndex virt) (ptIndex virt)) then (Status.retry, m, fm)
      else (.ok, m.write (entryFrame (m.pde (pdIndex virt))) (ptIndex virt)
        (BitVec.ofNat 32 phys ||| flags), fm)
    if entryPresent (m.pde (pdIndex virt)) then install m fm
    else
      let pdflags := if flags &&& pageUser ≠ 0#32 then pagePresent ||| pageRW ||| pageUser
        else pagePresent ||| pageRW
      let r := fm.allocateFrame
      if r.1 = 0 then (.outOfMemory, m, r.2)
      else
        let m := m.write m.cr3 (pdIndex virt) (BitVec.ofNat 32 r.1 ||| pdflags)
        install (m.zeroFrame (entryFrame (m.pde (pdIndex virt)))) r.2

/-- In a debug build an address that is not aligned stops the machine. -/
def unmapSinglePage (debug : Bool) (virt : ℕ) (m : Mmu) : Option Mmu :=
  if debug ∧ virt % frameSize ≠ 0 then none
  else if !m.isVirtualPageMapped virt then some m
  else some (m.write (entryFrame (m.pde (pdIndex virt))) (ptIndex virt) 0#32)

end Mmu

end DragonWare
