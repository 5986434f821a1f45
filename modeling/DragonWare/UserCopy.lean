import DragonWare.Lib.Memory
import DragonWare.Paging

/-!
# Copies from and to user memory

`sys/syscall/usercopy.c`. Both functions make the same checks on the user's range, of which they
look at the first byte and the byte behind the last, and then call `memcpy`. Addresses and sizes are
32-bit words.
-/

namespace DragonWare

def Mmu.addressIsMapped (m : Mmu) (addr : ℕ) : Bool :=
  m.isVirtualPageMapped (addr / frameSize * frameSize)

def isUserPointer (addr : BitVec 32) : Bool := addr.toNat < kernelVMBase

def additionWouldOverflow (n1 n2 : BitVec 32) : Bool := (n1 + n2).toNat < n1.toNat

/-- The checks on the user's range. -/
def Mmu.checkUserRange (m : Mmu) (useraddr n : BitVec 32) : Status :=
  let enduseraddr := useraddr + n
  if !m.addressIsMapped useraddr.toNat || !m.addressIsMapped enduseraddr.toNat then .badArgument
  else if additionWouldOverflow useraddr n then .bad
  else if !isUserPointer useraddr || !isUserPointer enduseraddr then .bad
  else .ok

def memcpy (mem : Memory.Mem) (dest src n : ℕ) : Memory.Mem := fun x =>
  if dest ≤ x ∧ x < dest + n then mem (src + (x - dest)) else mem x

/-- The status, and memory as the current address space shows it. -/
def copyFromUser (m : Mmu) (mem : Memory.Mem) (dest src n : BitVec 32) : Status × Memory.Mem :=
  match m.checkUserRange src n with
  | .ok => (.ok, memcpy mem dest.toNat src.toNat n.toNat)
  | st => (st, mem)

def copyToUser (m : Mmu) (mem : Memory.Mem) (dest src n : BitVec 32) : Status × Memory.Mem :=
  match m.checkUserRange dest n with
  | .ok => (.ok, memcpy mem dest.toNat src.toNat n.toNat)
  | st => (st, mem)

end DragonWare
