import DragonWare.Ipc

/-!
# System calls

`sys/syscall/object.c` and `sys/syscall/syscall.c`. A call runs on the current thread. What user
memory holds, whether copies from and to it work and whether allocations succeed are arguments.
Requests to devices and sections work on state that is not modelled here, so their status is an
argument too.
-/

namespace DragonWare

def procCIopl : BitVec 32 := 2#32

/-- What a request finds: the name in user memory, the bytes of a freed name buffer, the outcome of
allocations, the status of a request that is not modelled. -/
structure InvokeArgs where
  openName : Option (List (BitVec 8))
  staleName : List (BitVec 8)
  portOk : Bool
  nodeOk : Bool
  threadOk : Bool
  other : Status
  deriving DecidableEq, Repr

inductive Call
  | createObject (name : Option (List (BitVec 8))) (type : ObjectType) (ok : Bool)
  | invokeObject (handle : ℤ) (op : ℕ) (args : InvokeArgs)
  | deleteObject (handle : ℤ)
  | translateHandle (of : ℕ) (handle : ℤ) (copy : Status)
  | send (handle : ℤ) (copy : Option Message) (messageSize : ℕ)
  | receive (handle : ℤ) (copyOk : Bool)
  | requestPorts (copy : Option (ℕ → BitVec 16)) (listSize : ℕ)
  | exit

namespace Kernel

/-- The object a handle of the thread's process names. -/
def objectOfHandle (k : Kernel) (cur : ℕ) (handle : ℤ) : Option ℕ :=
  if 0 ≤ handle ∧ handle < maxObjPerProcess then
    (k.thread cur).owner.bind fun q => (k.process q).handles.objlist handle.toNat
  else none

/-- `ok` says whether the name could be copied and the structures allocated. The result is the
handle, or none for -1. -/
def dwCreateObject (k : Kernel) (cur : ℕ) (name : Option (List (BitVec 8))) (type : ObjectType)
    (ok : Bool) : Except Fault (Option ℕ × Kernel) :=
  if !ok then .ok (none, k)
  else do
    let (o, k) := k.allocateObject name type
    let q ← k.currProc cur
    match (k.process q).handles.appendToHandleTable o with
    | some (i, table) => return (some i, k.setHandles q table)
    | none => return (none, k)

/-- The name `CreatePort` reads through the object. -/
def objectName (obj : Object) (stale : List (BitVec 8)) : Option (List (BitVec 8)) :=
  obj.name.map fun n => if n.freed then stale else n.text

/-- Operation 0 is `PORT_CREATE`, operation 1 is `PORT_OPEN`. -/
def handlePortObjectRequest (k : Kernel) (cur o op : ℕ) (args : InvokeArgs) :
    Except Fault (Status × Kernel) :=
  match op with
  | 0 => do
    let (status, port, k) ← k.createPort (objectName (k.object o) args.staleName) cur
      args.portOk args.nodeOk
    match port with
    | some p => return (status, k.setObject o { k.object o with data := some p })
    | none => return (status, k)
  | 1 =>
    match args.openName with
    | none => .ok (.badArgument, k)
    | some name => do
      match ← k.findPortByName name with
      | none => return (.notFound, k)
      | some p => return (.ok, k.setObject o { k.object o with
          data := some p, refcnt := (k.object o).refcnt + 1 })
  | _ => .ok (args.other, k)

/-- Operation 0 is `THREAD_CREATE`, operation 1 is `THREAD_RUN`. -/
def handleThreadObjectRequest (k : Kernel) (q o op : ℕ) (args : InvokeArgs) :
    Except Fault (Status × Kernel) :=
  match op, (k.object o).data with
  | 0, some _ => .ok (.badArgument, k)
  | 0, none =>
    if !args.threadOk then .ok (.bad, k)
    else
      let (t, k) := k.allocateUserThread (some q)
      .ok (.ok, k.setObject o { k.object o with data := some t })
  | 1, some t => do
    let k ← k.addThreadToScheduler t
    return (.ok, k)
  | _, _ => .ok (.badArgument, k)

def dwInvokeObject (k : Kernel) (cur : ℕ) (handle : ℤ) (op : ℕ) (args : InvokeArgs) :
    Except Fault (Status × Kernel) :=
  if maxObjPerProcess ≤ handle ∨ handle < 0 then .ok (.badArgument, k)
  else do
    let q ← k.currProc cur
    match (k.process q).handles.objlist handle.toNat with
    | none => return (.notFound, k)
    | some target =>
      let obj ← k.derefObject target
      match obj.type with
      | .unknown => return (.bad, k)
      | .port => k.handlePortObjectRequest cur target op args
      | .thread => k.handleThreadObjectRequest q target op args
      | .device => return (args.other, k)
      | .section => return (args.other, k)
      | .other _ => return (.badArgument, k)

/-- A handle from 32 on is not checked and reads past the table. -/
def dwDeleteObject (k : Kernel) (cur : ℕ) (handle : ℤ) : Except Fault Kernel :=
  if handle < 0 then .ok k
  else if maxObjPerProcess ≤ handle then .error .outOfBounds
  else do
    let q ← k.currProc cur
    match (k.process q).handles.objlist handle.toNat with
    | none => return k
    | some target =>
      let obj ← k.derefObject target
      let k := k.setObject target
        { obj with name := obj.name.map fun n => { n with freed := true } }
      let k := k.setHandles q ((k.process q).handles.deleteFromHandleTable handle.toNat).2
      k.deleteObject target

/-- The slot of `this` for the object, with the object counted once more if the slot is new. -/
def installHandle (k : Kernel) (this original : ℕ) : Except Fault (Option ℕ × Kernel) :=
  let table := (k.process this).handles
  match table.findHandle original maxObjPerProcess with
  | some i => .ok (some i, k)
  | none =>
    match table.appendToHandleTable original with
    | none => .ok (none, k)
    | some (i, table) => do
      let obj ← k.derefObject original
      return (some i, (k.setHandles this table).setObject original
        { obj with refcnt := obj.refcnt + 1 })

/-- The decrement of an unsigned count. -/
def countDown (n : ℕ) : ℕ := if n = 0 then 2 ^ 32 - 1 else n - 1

/-- `copy` is what `CopyToUser` returns. When it fails the slot is emptied, new or not. -/
def dwTranslateHandle (k : Kernel) (cur pid : ℕ) (handle : ℤ) (copy : Status) :
    Except Fault (Status × Kernel) :=
  if pid = 0 then .ok (.badArgument, k)
  else if maxObjPerProcess ≤ handle ∨ handle < 0 then .ok (.badArgument, k)
  else do
    let this ← k.currProc cur
    match k.findProcessByID pid with
    | none => return (.notFound, k)
    | some origin =>
      if origin = this then return (copy, k)
      else
        match (k.process origin).handles.objlist handle.toNat with
        | none => return (.notFound, k)
        | some original =>
          match ← k.installHandle this original with
          | (none, k) => return (.outOfMemory, k)
          | (some i, k) =>
            if copy = .ok then return (.ok, k)
            else
              let obj ← k.derefObject original
              let table := ((k.process this).handles.deleteFromHandleTable i).2
              return (copy, (k.setHandles this table).setObject original
                { obj with refcnt := countDown obj.refcnt })

def dwRequestPorts (k : Kernel) (cur : ℕ) (copy : Option (ℕ → BitVec 16)) (listSize : ℕ) :
    Except Fault (Status × Kernel) := do
  let q ← k.currProc cur
  if (k.process q).flags &&& procCIopl = 0#32 then return (.unsupported, k)
  else if maxIOPortsPerProcess < listSize then return (.badArgument, k)
  else
    match copy with
    | none => return (.badArgument, k)
    | some ports =>
      let tss := k.tss.disableIOPortsOfProcess (k.process q)
      let proc := { k.process q with
        ioports := fun i => if i < listSize then ports i else (k.process q).ioports i
        portsUsed := listSize }
      return (.ok, { k.setProcess q proc with tss := tss.enableIOPortsOfProcess proc })

/-- The process goes with its first thread to exit. -/
def dwExit (k : Kernel) (cur : ℕ) : Except Fault Kernel := do
  let (_, k) ← k.removeThreadFromScheduler cur
  let k := k.setThread cur { k.thread cur with state := .terminated }
  let k ← (k.thread cur).owner.elim (.ok k) k.deleteProcess
  { k with needsResched := true }.scheduleNext

def syscall (k : Kernel) (cur : ℕ) : Call → Except Fault Kernel
  | .createObject name type ok => (·.2) <$> k.dwCreateObject cur name type ok
  | .invokeObject handle op args => (·.2) <$> k.dwInvokeObject cur handle op args
  | .deleteObject handle => k.dwDeleteObject cur handle
  | .translateHandle of handle copy => (·.2) <$> k.dwTranslateHandle cur of handle copy
  | .send handle copy size => (·.2) <$> k.dwIPCSend cur handle copy size
  | .receive handle copyOk => (·.2) <$> k.dwIPCReceive cur handle copyOk
  | .requestPorts copy size => (·.2) <$> k.dwRequestPorts cur copy size
  | .exit => k.dwExit cur

end Kernel

/-- The current thread makes a call, or comes back from the scheduler in its receive loop; the timer
fires; the kernel sends a message; a process starts. -/
inductive Event
  | call (c : Call)
  | resume (copyOk : Bool)
  | timer
  | kernelMessage (q : ℕ) (handle : ℤ) (m : Message)
  | createProcess

namespace Kernel

/-- A thread asleep in its receive loop makes no call, and one that is not does not come back to
it: such an event changes nothing. -/
def event (k : Kernel) : Event → Except Fault Kernel
  | .call c =>
    match k.currentThread with
    | some cur => if k.inReceive cur = none then k.syscall cur c else .ok k
    | none => .ok k
  | .resume copyOk =>
    match k.currentThread with
    | some cur =>
      match k.inReceive cur with
      | some p => (·.2) <$> k.receiveFrom cur p copyOk
      | none => .ok k
    | none => .ok k
  | .timer => k.scheduleNext
  | .kernelMessage q handle m => (·.2) <$> k.sendMessage q handle m
  | .createProcess => (·.2) <$> k.createProcess

/-- The event on whichever thread runs next. -/
def eventOn (k : Kernel) (e : ℕ × Event) : Except Fault Kernel :=
  { k with currentThread := some e.1 }.event e.2

/-- The event, unless it faults. -/
def eventStep (k : Kernel) (e : ℕ × Event) : Option Kernel := (k.eventOn e).toOption

/-- The state before the first thread: nothing is allocated and every I/O port is denied. -/
def boot : Kernel where
  thread := fun _ => ⟨.terminated, .noPriority, 0, none, none⟩
  process := fun _ => ⟨0, 0, ⟨fun _ => none, 0#32⟩, fun _ => 0#16, 0, 0#32⟩
  object := fun _ => ⟨.unknown, none, none, 0⟩
  port := fun _ => ⟨fun _ => zeroMessage, 0, 0, 0, [], none⟩
  live := ⟨fun _ => false, fun _ => false, fun _ => false⟩
  threads := 0
  processes := 0
  objects := 0
  ports := 0
  processList := []
  processIdCounter := 1
  portList := []
  threadList := none
  currentThread := none
  needsResched := false
  tss := ⟨fun _ => BitVec.allOnes 8, sizeofTss⟩
  cr3 := none
  inReceive := fun _ => none

end Kernel

end DragonWare
