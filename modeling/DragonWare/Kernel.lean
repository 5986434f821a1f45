import DragonWare.Paging

/-!
# Threads, processes, objects and ports

The structures of `sys/task`, `sys/iomgr` and `sys/sched`, and the kernel's static state. A pointer
is the number of the structure it points at. A number is never used again, and `live` says which
structures have not been freed. A function that follows a pointer to a freed one as part of its job
faults (`Fault`). Threads are never freed.
-/

namespace DragonWare

open Function

/-- What goes wrong when a function follows a pointer it must not follow, or never returns. -/
inductive Fault
  | null
  | object (o : ℕ)
  | port (p : ℕ)
  | process (q : ℕ)
  | portOwner (q : ℕ)
  | outOfBounds
  | hang
  deriving DecidableEq, Repr

inductive ThreadState
  | terminated
  | ready
  | running
  | blocked
  deriving DecidableEq, Repr

inductive ThreadPriorityLevel
  | noPriority
  | idle
  | low
  | medium
  | high
  | max
  deriving DecidableEq, Repr

structure Thread where
  state : ThreadState
  priority : ThreadPriorityLevel
  quantum : ℕ
  owner : Option ℕ
  next : Option ℕ
  deriving DecidableEq, Repr

inductive ObjectType
  | unknown
  | device
  | port
  | section
  | thread
  | other (code : ℕ)
  deriving DecidableEq, Repr

/-- The buffer an object's name is kept in. -/
structure ObjectName where
  text : List (BitVec 8)
  freed : Bool
  deriving DecidableEq, Repr

structure Object where
  type : ObjectType
  name : Option ObjectName
  data : Option ℕ
  refcnt : ℕ
  deriving DecidableEq, Repr

def maxObjPerProcess : ℕ := 32

structure HandleTable where
  objlist : ℕ → Option ℕ
  validBitmap : BitVec 32

def maxIOPortsPerProcess : ℕ := 20

structure Process where
  mainThread : ℕ
  pid : ℕ
  handles : HandleTable
  ioports : ℕ → BitVec 16
  portsUsed : ℕ
  flags : BitVec 32

def messageBufferSize : ℕ := 256

def maxMessagesInPort : ℕ := 12

def maxPortName : ℕ := 48

structure MessageHeader where
  msgid : BitVec 32
  replyHandle : ℤ
  sender : ℕ
  type : BitVec 16
  protocol : BitVec 16
  payloadLength : ℕ
  reserved : BitVec 32
  deriving DecidableEq, Repr

structure Message where
  header : MessageHeader
  payload : ℕ → BitVec 8

structure Port where
  msgbuf : ℕ → Message
  head : ℕ
  tail : ℕ
  count : ℕ
  name : List (BitVec 8)
  owner : Option ℕ

/-- The parts of the task state segment that decide which I/O ports user mode may use. -/
structure Tss where
  ioperm : ℕ → BitVec 8
  iomapBase : ℕ

/-- Which structures have been allocated and not freed. -/
structure Live where
  process : ℕ → Bool
  object : ℕ → Bool
  port : ℕ → Bool

/-- The static state of the kernel and the structures it points at, which are numbered. `cr3` is the
process that is loaded, and `inReceive` the port whose receive loop a thread sleeps in. -/
structure Kernel where
  thread : ℕ → Thread
  process : ℕ → Process
  object : ℕ → Object
  port : ℕ → Port
  live : Live
  threads : ℕ
  processes : ℕ
  objects : ℕ
  ports : ℕ
  processList : List ℕ
  processIdCounter : ℕ
  portList : List ℕ
  threadList : Option ℕ
  currentThread : Option ℕ
  needsResched : Bool
  tss : Tss
  cr3 : Option ℕ
  inReceive : ℕ → Option ℕ

namespace Kernel

def derefObject (k : Kernel) (o : ℕ) : Except Fault Object :=
  if k.live.object o then .ok (k.object o) else .error (.object o)

def derefPort (k : Kernel) (p : ℕ) : Except Fault Port :=
  if k.live.port p then .ok (k.port p) else .error (.port p)

def derefProcess (k : Kernel) (q : ℕ) : Except Fault Process :=
  if k.live.process q then .ok (k.process q) else .error (.process q)

/-- The process reached through a port, as `port->owner->owner`. -/
def derefPortOwner (k : Kernel) (q : ℕ) : Except Fault Process :=
  if k.live.process q then .ok (k.process q) else .error (.portOwner q)

/-- A pointer that the code follows without a check. -/
def nonNull (p : Option ℕ) : Except Fault ℕ :=
  match p with
  | some a => .ok a
  | none => .error .null

/-- `GetCurrentExecutionThread()->owner`, followed. -/
def currProc (k : Kernel) (cur : ℕ) : Except Fault ℕ := do
  let q ← nonNull (k.thread cur).owner
  let _ ← k.derefProcess q
  return q

def setThread (k : Kernel) (t : ℕ) (x : Thread) : Kernel :=
  { k with thread := update k.thread t x }

def setProcess (k : Kernel) (q : ℕ) (x : Process) : Kernel :=
  { k with process := update k.process q x }

def setObject (k : Kernel) (o : ℕ) (x : Object) : Kernel :=
  { k with object := update k.object o x }

def setPort (k : Kernel) (p : ℕ) (x : Port) : Kernel :=
  { k with port := update k.port p x }

def setHandles (k : Kernel) (q : ℕ) (h : HandleTable) : Kernel :=
  k.setProcess q { k.process q with handles := h }

end Kernel

end DragonWare
