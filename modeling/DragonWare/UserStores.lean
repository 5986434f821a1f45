import DragonWare.Irq
import DragonWare.Section
import DragonWare.UserCopy

/-!
# What system calls store for their caller

`DragonWareSyscall` of `sys/syscall/syscall.c` and the handlers it calls, as far as they store
through an address that comes from the caller's registers. What a call does to the kernel's own
structures is in `Kernel.syscall`.
-/

namespace DragonWare

/-- A store of `size` bytes from `addr` on. -/
structure UserStore where
  addr : BitVec 32
  size : BitVec 32
  deriving DecidableEq, Repr

/-- The store that `CopyToUser` makes, if any. -/
def Mmu.copyToUserStores (m : Mmu) (dest n : BitVec 32) : List UserStore :=
  match m.checkUserRange dest n with
  | .ok => [⟨dest, n⟩]
  | _ => []

/-- The kernel may store to `addr`. CR0.WP is set, so both entries have to say so. -/
def Mmu.kernelWritable (m : Mmu) (addr : BitVec 32) : Bool :=
  m.addressIsMapped addr.toNat && m.pde (pdIndex addr.toNat) &&& pageRW ≠ 0#32
    && m.pte (pdIndex addr.toNat) (ptIndex addr.toNat) &&& pageRW ≠ 0#32

/-- The kernel with its sections, and whether each device is claimed. -/
structure SyscallState where
  kernel : Kernel
  sections : ℕ → Section
  claimed : ℕ → Bool

def sizeofDeviceMapDescriptor : BitVec 32 := 36#32

namespace SyscallState

variable (debug : Bool) (v : Vm) (s : SyscallState)

/-- Operation 1 is `DEVICE_CLAIM`, the only one that stores. -/
def handleDeviceObjectRequest (q : ℕ) (obj : Object) (op : ℕ) (arg : BitVec 32) : List UserStore :=
  if (s.kernel.process q).flags &&& procCServer = 0#32 then []
  else
    match op with
    | 1 =>
      if !v.mmu.addressIsMapped arg.toNat then []
      else
        match obj.data with
        | some dev => if s.claimed dev then []
          else v.mmu.copyToUserStores arg sizeofDeviceMapDescriptor
        | none => []
    | _ => []

/-- Operation 1 is `SECTION_MAP`, the only one that stores. A store that faults stops the
machine. -/
def handleSectionObjectRequest (obj : Object) (op : ℕ) (arg : BitVec 32) :
    Option (List UserStore) :=
  match op with
  | 1 => do
    match ← Section.mapRequest (Vm.paging debug) (obj.data.map s.sections)
      (v.mmu.addressIsMapped arg.toNat) v with
    | (.ok, some (_, v)) =>
      if v.mmu.kernelWritable arg && v.mmu.kernelWritable (arg + 3#32) then some [⟨arg, 4#32⟩]
      else none
    | _ => some []
  | _ => some []

def dwInvokeObject (cur : ℕ) (handle : ℤ) (op : ℕ) (arg : BitVec 32) : Option (List UserStore) :=
  if maxObjPerProcess ≤ handle ∨ handle < 0 then some []
  else do
    let q ← (s.kernel.currProc cur).toOption
    match (s.kernel.process q).handles.objlist handle.toNat with
    | none => return []
    | some target =>
      let obj ← (s.kernel.derefObject target).toOption
      match obj.type with
      | .device => return handleDeviceObjectRequest v s q obj op arg
      | .section => handleSectionObjectRequest debug v s obj op arg
      | _ => return []

/-- The message at the head goes to the caller. `s` and `v` are the state in which the receive loop
finds one. -/
def takeMessage (p : ℕ) (msave : BitVec 32) : Option (List UserStore) := do
  let port ← (s.kernel.derefPort p).toOption
  let toRead := port.msgbuf port.head
  return v.mmu.copyToUserStores msave
    (BitVec.ofNat 32 (sizeofMessageHeader + toRead.header.payloadLength))

/-- `woken` is the state in which a thread that finds its port empty comes back with a message. -/
def dwIPCReceive (cur : ℕ) (handle : ℤ) (msave : BitVec 32) (woken : SyscallState × Vm) :
    Option (List UserStore) :=
  if handle < 0 ∨ maxObjPerProcess ≤ handle then some []
  else do
    let q ← (s.kernel.currProc cur).toOption
    match (s.kernel.process q).handles.objlist handle.toNat with
    | none => return []
    | some o =>
      let obj ← (s.kernel.derefObject o).toOption
      match obj.type, obj.data with
      | .port, some p =>
        let port ← (s.kernel.derefPort p).toOption
        let owner ← port.owner
        if (s.kernel.thread owner).owner ≠ some q then return []
        else if port.count = 0 then takeMessage woken.2 woken.1 p msave
        else takeMessage v s p msave
      | _, _ => return []

def dwTranslateHandle (cur pid : ℕ) (handle : ℤ) (save : BitVec 32) : Option (List UserStore) :=
  if pid = 0 then some []
  else if maxObjPerProcess ≤ handle ∨ handle < 0 then some []
  else do
    let this ← (s.kernel.currProc cur).toOption
    match s.kernel.findProcessByID pid with
    | none => return []
    | some origin =>
      if origin = this then return v.mmu.copyToUserStores save 4#32
      else
        match (s.kernel.process origin).handles.objlist handle.toNat with
        | none => return []
        | some original =>
          match ← (s.kernel.installHandle this original).toOption with
          | (none, _) => return []
          | (some _, _) => return v.mmu.copyToUserStores save 4#32

end SyscallState

end DragonWare
