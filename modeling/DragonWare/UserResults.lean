import DragonWare.Syscall
import DragonWare.UserCopy

/-!
# Results that go to the caller's memory

`_DWTranslateHandle` and `_DWIPCReceive` with the pointer their caller gives, in the address space
`m`: whether the result can be copied out is what the checks of `CopyToUser` say.
-/

namespace DragonWare

/-- How a thread comes to the loop of `_DWIPCReceive`: with a handle that it calls with, or back
from its sleep on a port. -/
inductive ReceiveEntry
  | call (handle : ℤ)
  | resume (p : ℕ)
  deriving DecidableEq, Repr

namespace Kernel

/-- The status, and the handle that is stored at `save`. -/
def translateHandleTo (m : Mmu) (k : Kernel) (cur pid : ℕ) (handle : ℤ) (save : BitVec 32) :
    Except Fault (Status × Option ℤ × Kernel) :=
  let copyStatus := m.checkUserRange save 4#32
  if pid = 0 then .ok (.badArgument, none, k)
  else if maxObjPerProcess ≤ handle ∨ handle < 0 then .ok (.badArgument, none, k)
  else do
    let this ← k.currProc cur
    match k.findProcessByID pid with
    | none => return (.notFound, none, k)
    | some origin =>
      if origin = this then
        return (copyStatus, if copyStatus = .ok then some handle else none, k)
      else
        match (k.process origin).handles.objlist handle.toNat with
        | none => return (.notFound, none, k)
        | some original =>
          match ← k.installHandle this original with
          | (none, k) => return (.outOfMemory, none, k)
          | (some newHdl, k) =>
            if copyStatus = .ok then return (.ok, some newHdl, k)
            else
              let obj ← k.derefObject original
              let table := ((k.process this).handles.deleteFromHandleTable newHdl).2
              return (copyStatus, none, (k.setHandles this table).setObject original
                { obj with refcnt := countDown obj.refcnt })

/-- The message at the head of the port can be copied to `msave`. -/
def canCopyHead (m : Mmu) (k : Kernel) (p : ℕ) (msave : BitVec 32) : Bool :=
  let toRead := (k.port p).msgbuf (k.port p).head
  m.checkUserRange msave (BitVec.ofNat 32 (sizeofMessageHeader + toRead.header.payloadLength)) = .ok

/-- `_DWIPCReceive` with the address `msave`. -/
def receiveTo (m : Mmu) (k : Kernel) (cur : ℕ) (msave : BitVec 32) :
    ReceiveEntry → Except Fault (Receipt × Kernel)
  | .call handle => k.dwIPCReceive cur handle
      ((k.portOfHandle cur handle).any fun p => k.canCopyHead m p msave)
  | .resume p => k.receiveFrom cur p (k.canCopyHead m p msave)

end Kernel

end DragonWare
