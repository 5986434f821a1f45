import DragonWare.DeviceMap
import DragonWare.Irq
import DragonWare.Sharing

/-!
# Requests to objects of every type

`_DWInvokeObject` of `sys/syscall/object.c` with its handlers, over the kernel, its sections and its
devices. The `data` of an object is null until a request fills it in, so here a handler that follows
it says so. What user memory holds, the outcome of allocations and the device a path leads to are
arguments. Which line is bound to a port is not part of this state.
-/

namespace DragonWare

/-- Why a call does not come back. -/
inductive RequestFault
  | nullData
  | other
  deriving DecidableEq, Repr

/-- The `data` of an object, followed. -/
def followData : Option ℕ → Except RequestFault ℕ
  | some n => .ok n
  | none => .error .nullData

/-- A part of the call that is modelled elsewhere, where it does not follow `data` unchecked. -/
def RequestFault.ofOption {α : Type} : Option α → Except RequestFault α
  | some a => .ok a
  | none => .error .other

/-- What a request finds: `ADDRESS_IS_MAPPED(arg)`, whether the copy from or to the caller works and
whether a slab has an object, the page for a larger block, the bytes of a path, the device it leads
to, and the descriptor of a section. -/
structure RequestArgs extends InvokeArgs where
  arg : BitVec 32
  argMapped : Bool
  copyOk : Bool
  room : Bool
  page : Option ℕ
  pathSize : ℕ
  found : Option ℕ
  descr : ℕ × BitVec 32
  deriving DecidableEq, Repr

inductive ObjectCall
  | createObject (name : Option (List (BitVec 8))) (type : ObjectType) (ok : Bool)
  | invokeObject (handle : ℤ) (op : ℕ) (args : RequestArgs)
  | deleteObject (handle : ℤ)
  | translateHandle (of : ℕ) (handle : ℤ) (copy : Status)
  | send (handle : ℤ) (copy : Option Message) (messageSize : ℕ)
  | receive (handle : ℤ) (copyOk : Bool)
  | resume (copyOk : Bool)
  | exit

/-- The kernel with its sections and its devices. -/
structure ObjectKernel extends Sharing where
  device : ℕ → DeviceManagerNode

namespace ObjectKernel

open RequestFault (ofOption)

variable (debug : Bool) (s : ObjectKernel)

def setKernel (k : Kernel) : ObjectKernel := { s with kernel := k }

def setSharing (t : Sharing) : ObjectKernel := { s with toSharing := t }

def setData (o : ℕ) (data : Option ℕ) : ObjectKernel :=
  s.setKernel (s.kernel.setObject o { s.kernel.object o with data })

def claim (d : ℕ) : ObjectKernel :=
  { s with device := Function.update s.device d { s.device d with claimed := true } }

/-- The size of the largest slab objects. -/
def slabMax : ℕ := 1024

/-- The block that `DEVICE_GET` copies the path to. -/
def pathBlock (args : RequestArgs) : Option (Bool × Sharing) :=
  if slabMax < args.pathSize then s.allocateVirtualPage debug .path args.page
  else some (args.room, s.toSharing)

/-- `DEVICE_GET` with an argument that is mapped. -/
def getDevice (o : ℕ) (args : RequestArgs) : Except RequestFault (Status × ObjectKernel) := do
  let (ok, t) ← ofOption (s.pathBlock debug args)
  let s := s.setSharing t
  if !ok then return (.outOfMemory, s)
  else if !args.copyOk then return (.badArgument, s)
  else
    let t ← ofOption (if slabMax < args.pathSize then s.freeVirtualPage debug .path else some t)
    -- a path that leads nowhere takes the device away that the object had
    return (if args.found.isNone then .notFound else .ok, (s.setSharing t).setData o args.found)

/-- `DEVICE_MAP` once the device is known. -/
def mapDevice (q : ℕ) (dev : DeviceManagerNode) (mapaddr : BitVec 32) : Status × ObjectKernel :=
  let (st, v) := deviceMap (UserPages.paging debug) dev mapaddr (s.pages q)
  (st, s.setSharing (s.setPages q v))

/-- Operation 0 is `DEVICE_GET`, operation 1 is `DEVICE_CLAIM` and operation 2 is `DEVICE_MAP`. -/
def handleDeviceObjectRequest (q o op : ℕ) (args : RequestArgs) :
    Except RequestFault (Status × ObjectKernel) :=
  let dev := (s.kernel.object o).data
  if (s.kernel.process q).flags &&& procCServer = 0#32 then .ok (.unsupported, s)
  else
    match op with
    | 0 =>
      if !args.argMapped then .ok (.badArgument, s) else s.getDevice debug o args
    | 1 =>
      if !args.argMapped then .ok (.badArgument, s)
      else if dev.isNone then .ok (.notFound, s)
      else do
        let d ← followData dev
        if (s.device d).claimed then return (.bad, s)
        else if !args.copyOk then return (.badArgument, s)
        else return (.ok, s.claim d)
    | 2 => do
      let d ← followData dev
      return s.mapDevice debug q (s.device d) args.arg
    | _ => .ok (.badArgument, s)

/-- Operation 0 is `SECTION_REQUEST`, operation 1 is `SECTION_MAP`. -/
def handleSectionObjectRequest (q o op : ℕ) (args : RequestArgs) :
    Except RequestFault (Status × ObjectKernel) :=
  match op with
  | 0 => do
    let (st, t) ← ofOption (s.toSharing.handleSectionObjectRequest debug q o
      (.request (if args.copyOk then some args.descr else none) args.page))
    return (st, s.setSharing t)
  | 1 => do
    let (st, t) ← ofOption (s.toSharing.handleSectionObjectRequest debug q o
      (.map args.arg.toNat args.argMapped))
    return (st, s.setSharing t)
  | _ => .ok (.badArgument, s)

/-- Operation 0 is `THREAD_CREATE`, operation 1 is `THREAD_RUN`. -/
def handleThreadObjectRequest (q o op : ℕ) (args : RequestArgs) :
    Except RequestFault (Status × ObjectKernel) :=
  match op with
  | 0 => do
    let (st, k) ← ofOption (s.kernel.handleThreadObjectRequest q o 0 args.toInvokeArgs).toOption
    return (st, s.setKernel k)
  | 1 =>
    if (s.kernel.object o).data.isSome then do
      let t ← followData (s.kernel.object o).data
      let k ← ofOption (s.kernel.addThreadToScheduler t).toOption
      return (.ok, s.setKernel k)
    else .ok (.badArgument, s)
  | _ => .ok (.badArgument, s)

/-- The `data` of the object is not followed. A new port has a page, which goes back when there is
no node for the port. -/
def handlePortObjectRequest (cur o op : ℕ) (args : RequestArgs) :
    Except RequestFault (Status × ObjectKernel) :=
  match op with
  | 0 => do
    let p := s.kernel.ports
    let (portOk, t) ← ofOption (s.allocateVirtualPage debug (.port p) args.page)
    let (st, k) ← ofOption
      (s.kernel.handlePortObjectRequest cur o 0 { args.toInvokeArgs with portOk }).toOption
    -- the name was taken, before there was a page
    if st = .unsupported then return (st, s.setKernel k)
    else
      let t ← ofOption
        (if portOk ∧ !k.live.port p then t.freeVirtualPage debug (.port p) else some t)
      return (st, (s.setSharing t).setKernel k)
  | _ => do
    let (st, k) ← ofOption (s.kernel.handlePortObjectRequest cur o op args.toInvokeArgs).toOption
    return (st, s.setKernel k)

def dwInvokeObject (cur : ℕ) (handle : ℤ) (op : ℕ) (args : RequestArgs) :
    Except RequestFault (Status × ObjectKernel) :=
  if maxObjPerProcess ≤ handle ∨ handle < 0 then .ok (.badArgument, s)
  else do
    let q ← ofOption (s.kernel.currProc cur).toOption
    match (s.kernel.process q).handles.objlist handle.toNat with
    | none => return (.notFound, s)
    | some target =>
      let obj ← ofOption (s.kernel.derefObject target).toOption
      match obj.type with
      | .unknown => return (.bad, s)
      | .device => s.handleDeviceObjectRequest debug q target op args
      | .port => s.handlePortObjectRequest debug cur target op args
      | .section => s.handleSectionObjectRequest debug q target op args
      | .thread => s.handleThreadObjectRequest q target op args
      | .other _ => return (.badArgument, s)

/-- The other calls look whether there is `data` before they follow it: see `Kernel.dwIPCSend`,
`Kernel.dwIPCReceive` and `Sharing.deleteData`. -/
def call (cur : ℕ) : ObjectCall → Except RequestFault ObjectKernel
  | .createObject name type ok => do
    let t ← ofOption (s.toSharing.call debug cur (.createObject name type ok))
    return s.setSharing t
  | .invokeObject handle op args => (·.2) <$> s.dwInvokeObject debug cur handle op args
  | .deleteObject handle => do
    let t ← ofOption (s.toSharing.call debug cur (.deleteObject handle))
    return s.setSharing t
  | .translateHandle pid handle copy => do
    let t ← ofOption (s.toSharing.call debug cur (.translateHandle pid handle copy))
    return s.setSharing t
  | .send handle copy size => do
    let (_, k) ← ofOption (s.kernel.dwIPCSend cur handle copy size).toOption
    return s.setKernel k
  | .receive handle copyOk => do
    let (_, k) ← ofOption (s.kernel.dwIPCReceive cur handle copyOk).toOption
    return s.setKernel k
  | .resume copyOk => do
    let k ← ofOption (s.kernel.event (.resume copyOk)).toOption
    return s.setKernel k
  | .exit => do
    let t ← ofOption (s.toSharing.call debug cur .exit)
    return s.setSharing t

def onThread (cur : ℕ) : ObjectKernel :=
  { s with kernel := { s.kernel with currentThread := some cur }, released := [] }

end ObjectKernel

/-- A call of whichever thread runs. A thread asleep in its receive loop makes none, it comes back
to the loop. -/
def objectStep (debug : Bool) (s : ObjectKernel) (e : ℕ × ObjectCall) :
    Except RequestFault ObjectKernel :=
  match s.kernel.inReceive e.1, e.2 with
  | none, c => (s.onThread e.1).call debug e.1 c
  | some _, .resume copyOk => (s.onThread e.1).call debug e.1 (.resume copyOk)
  | some _, _ => .ok s

end DragonWare
