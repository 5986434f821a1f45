import DragonWare.Sched

/-!
# Objects, handle tables, ports and processes

`sys/iomgr/object.c`, `sys/iomgr/port.c`, `sys/iomgr/thread.c`, and of `sys/task/process.c` what
concerns processes as owners of objects. Where the code allocates, the outcome is an argument. A
section's memory and a device are not part of this state, so deleting an object of those types
frees the object alone.
-/

namespace DragonWare

open Function

namespace HandleTable

/-- The index of the slot, or none when the table is full. -/
def appendToHandleTable (table : HandleTable) (obj : ℕ) : Option (ℕ × HandleTable) :=
  let freeMask := ~~~table.validBitmap
  if freeMask = 0#32 then none
  else
    let index := freeMask.ctz.toNat
    some (index, ⟨update table.objlist index (some obj),
      table.validBitmap ||| 1#32 <<< index⟩)

def deleteFromHandleTable (table : HandleTable) (index : ℕ) : Option ℕ × HandleTable :=
  (table.objlist index, ⟨update table.objlist index none,
    table.validBitmap &&& ~~~(1#32 <<< index)⟩)

/-- The first of the slots below `n` that is valid and holds `obj`. -/
def findHandle (table : HandleTable) (obj n : ℕ) : Option ℕ :=
  (List.range n).find? fun i => table.validBitmap.getLsbD i && table.objlist i == some obj

end HandleTable

namespace Kernel

def allocateObject (k : Kernel) (name : Option (List (BitVec 8))) (type : ObjectType) :
    ℕ × Kernel :=
  (k.objects, { k with
    object := update k.object k.objects ⟨type, name.map fun t => ⟨t, false⟩, none, 1⟩
    live := { k.live with object := update k.live.object k.objects true }
    objects := k.objects + 1 })

/-- The walk along `port_list_head`. Names are compared as `strncmp` does. -/
def findPort (k : Kernel) (name : List (BitVec 8)) : List ℕ → Except Fault (Option ℕ)
  | [] => .ok none
  | p :: ps => do
    let port ← k.derefPort p
    if port.name.take maxPortName = name.take maxPortName then return some p
    else findPort k name ps

def findPortByName (k : Kernel) (name : List (BitVec 8)) : Except Fault (Option ℕ) :=
  k.findPort name k.portList

def freePort (k : Kernel) (p : ℕ) : Kernel :=
  { k with live := { k.live with port := update k.live.port p false } }

/-- What the ring of a new port holds. -/
def zeroMessage : Message := ⟨⟨0, 0, 0, 0, 0, 0, 0⟩, fun _ => 0⟩

/-- A new port, not yet filled in. Its number is the count of ports so far. -/
def allocatePort (k : Kernel) : Kernel :=
  { k with
    live := { k.live with port := update k.live.port k.ports true }
    ports := k.ports + 1 }

/-- `portOk` and `nodeOk`: the port and its node could be allocated. The length of the name is
checked between the two. -/
def createPort (k : Kernel) (name : Option (List (BitVec 8))) (owner : ℕ) (portOk nodeOk : Bool) :
    Except Fault (Status × Option ℕ × Kernel) := do
  let found ← name.elim (.ok none) k.findPortByName
  if found ≠ none then return (.unsupported, none, k)
  else if !portOk then return (.outOfMemory, none, k)
  else
    let p := k.ports
    let k := k.allocatePort
    if (name.getD []).length ≥ maxPortName then return (.badArgument, none, k)
    else
      let k := k.setPort p ⟨fun _ => zeroMessage, 0, 0, 0, name.getD [], some owner⟩
      if name = none then return (.ok, some p, k)
      else if !nodeOk then return (.outOfMemory, none, k.freePort p)
      else return (.ok, some p, { k with portList := p :: k.portList })

/-- A port that is not in the list of global ports is left as it is. -/
def deletePort (k : Kernel) (p : ℕ) : Kernel :=
  if p ∈ k.portList then { k with portList := k.portList.erase p }.freePort p else k

/-- What goes with an object when it is freed. -/
def deleteData (k : Kernel) (obj : Object) : Except Fault Kernel :=
  match obj.data, obj.type with
  | some p, .port => .ok (k.deletePort p)
  | some t, .thread => k.deleteThread t
  | _, _ => .ok k

def freeObject (k : Kernel) (o : ℕ) : Kernel :=
  { k with live := { k.live with object := update k.live.object o false } }

def deleteObject (k : Kernel) (o : ℕ) : Except Fault Kernel := do
  let obj ← k.derefObject o
  if 1 < obj.refcnt then return k.setObject o { obj with refcnt := obj.refcnt - 1 }
  else
    let k ← k.deleteData obj
    return k.freeObject o

def allocateUserThread (k : Kernel) (owner : Option ℕ) : ℕ × Kernel :=
  (k.threads, { k with
    thread := update k.thread k.threads ⟨.ready, .medium, 12, owner, none⟩
    threads := k.threads + 1 })

/-- A process that could be built, with its number. -/
def createProcess (k : Kernel) : Except Fault (ℕ × Kernel) := do
  let q := k.processes
  let (t, k) := k.allocateUserThread (some q)
  let k := { k with
    process := update k.process q
      ⟨t, k.processIdCounter, ⟨fun _ => none, 0#32⟩, fun _ => 0#16, 0, 0#32⟩
    live := { k.live with process := update k.live.process q true }
    processes := q + 1
    processIdCounter := k.processIdCounter + 1 }
  let k ← k.addThreadToScheduler t
  return (q, { k with processList := k.processList ++ [q] })

/-- One round of the loop of `DeleteProcess` over the handle table of `q`. -/
def deleteSlot (q : ℕ) (k : Kernel) (i : ℕ) : Except Fault Kernel :=
  let (ob, table) := (k.process q).handles.deleteFromHandleTable i
  let k := k.setHandles q table
  match ob with
  | some o => k.deleteObject o
  | none => .ok k

def deleteProcess (k : Kernel) (q : ℕ) : Except Fault Kernel := do
  let _ ← k.derefProcess q
  let k := { k with processList := k.processList.erase q }
  let k ← (List.range maxObjPerProcess).foldlM (deleteSlot q) k
  let t := (k.process q).mainThread
  let k := k.setThread t { k.thread t with state := .terminated }
  return { k with live := { k.live with process := update k.live.process q false } }

/-- The first process of the list with that identifier. -/
def findProcessByID (k : Kernel) (pid : ℕ) : Option ℕ :=
  k.processList.find? fun q => (k.process q).pid = pid

end Kernel

end DragonWare
