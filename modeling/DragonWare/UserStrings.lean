import DragonWare.Irq
import DragonWare.UserCopy

/-!
# Strings in user memory

`_DWCreateObject` and the request `DEVICE_GET` take a string from their caller. Both look whether
its first byte is mapped, measure it where it is, and copy it. Here these calls are the addresses
they read through the pointer. A read where nothing is mapped is the last one: the kernel takes a
page fault.
-/

namespace DragonWare

def maxDeviceNodeName : ℕ := 96

/-- The call that is given the string. `DEVICE_GET` is for servers. -/
inductive StringCall
  | createObject
  | deviceGet (flags : BitVec 32)
  deriving DecidableEq, Repr

namespace StringCall

/-- The limit that is passed to `strnlen`. -/
def maxlen : StringCall → ℕ
  | .createObject => maxPortName
  | .deviceGet _ => maxDeviceNodeName * 16

/-- The checks before the string is measured. A missing name is no name. -/
def looks (c : StringCall) (m : Mmu) (s : BitVec 32) : Bool :=
  match c with
  | .createObject => s ≠ 0#32 && m.addressIsMapped s.toNat
  | .deviceGet flags => flags &&& procCServer ≠ 0#32 && m.addressIsMapped s.toNat

end StringCall

namespace Mmu

variable (m : Mmu) (mem : Memory.Mem) (s : BitVec 32)

def byteAddr (i : ℕ) : BitVec 32 := s + BitVec.ofNat 32 i

/-- `strnlen` from byte `i` on, with `left` bytes to go: the addresses it reads, and its result
unless a read faults. -/
def strnlenFrom : ℕ → ℕ → List (BitVec 32) × Option ℕ
  | 0, i => ([], some i)
  | left + 1, i =>
    let addr := byteAddr s i
    if !m.addressIsMapped addr.toNat then ([addr], none)
    else if mem addr.toNat = 0#8 then ([addr], some i)
    else
      let (reads, len) := strnlenFrom left (i + 1)
      (addr :: reads, len)

def copyFromUserReads (n : ℕ) : List (BitVec 32) :=
  match m.checkUserRange s (BitVec.ofNat 32 n) with
  | .ok => (List.range n).map (byteAddr s)
  | _ => []

/-- The addresses that the call reads through `s`. `ok` says whether the kernel has room for the
copy. -/
def stringReads (c : StringCall) (ok : Bool) : List (BitVec 32) :=
  if c.looks m s then
    match m.strnlenFrom mem s c.maxlen 0 with
    | (reads, none) => reads
    | (reads, some len) => if ok then reads ++ m.copyFromUserReads s (len + 1) else reads
  else []

end Mmu

end DragonWare
