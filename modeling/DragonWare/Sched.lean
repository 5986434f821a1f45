import DragonWare.Kernel

/-!
# The scheduler

`sys/sched/schedule.c`, the thread states of `sys/task/task.c`, and the I/O permission bitmap of
`sys/ddk/ia32/gdt.c` that a switch between processes updates. The threads form a list through
their `next` pointers. A walk along it is given one step more than there are threads: one that has
not ended by then has come back to a thread it has seen and never ends.
-/

namespace DragonWare

def cpuTimeFromThreadPriority : ThreadPriorityLevel → ℕ
  | .noPriority => 0
  | .low => 1
  | .medium => 12
  | .high => 20
  | .max => 33
  | .idle => 60

/-- `offsetof(TSSEntry, ioperm)`: the bitmap is in use. -/
def iopermOffset : ℕ := 104

/-- `sizeof(TSSEntry)`: the bitmap is past the segment's end and every port is denied. -/
def sizeofTss : ℕ := 8297

namespace Tss

/-- The bit of one port: set to deny it, clear to grant it. -/
def denyPort (tss : Tss) (port : BitVec 16) : Tss :=
  { tss with ioperm := Bitmap.setBit tss.ioperm port.toNat }

def grantPort (tss : Tss) (port : BitVec 16) : Tss :=
  { tss with ioperm := Bitmap.clearBit tss.ioperm port.toNat }

/-- The ports in the first `portsUsed` entries of the process's list. -/
def granted (p : Process) : List (BitVec 16) := (List.range p.portsUsed).map p.ioports

def enableIOPortsOfProcess (tss : Tss) (p : Process) : Tss :=
  if p.portsUsed = 0 then { tss with iomapBase := sizeofTss }
  else (granted p).foldl grantPort { tss with iomapBase := iopermOffset }

def disableIOPortsOfProcess (tss : Tss) (p : Process) : Tss :=
  if p.portsUsed = 0 then { tss with iomapBase := sizeofTss }
  else (granted p).foldl denyPort { tss with iomapBase := iopermOffset }

/-- User mode may use the port. -/
def allows (tss : Tss) (port : BitVec 16) : Bool :=
  tss.iomapBase = iopermOffset && !Bitmap.testBit tss.ioperm port.toNat

end Tss

namespace Kernel

def blockThread (k : Kernel) (t : ℕ) : Kernel :=
  { k.setThread t { k.thread t with state := .blocked } with needsResched := true }

def wakeThread (k : Kernel) (t : ℕ) : Kernel :=
  if (k.thread t).state ≠ .running then
    { k.setThread t { k.thread t with state := .ready } with needsResched := true }
  else k

/-- The loop of `SelectNextThread`, at thread `t`. -/
def selectLoop (k : Kernel) (head start : ℕ) : ℕ → ℕ → Option ℕ → Except Fault (Option ℕ)
  | 0, _, _ => .error .hang
  | fuel + 1, t, idle =>
    let ready := (k.thread t).state ≠ .blocked ∧ (k.thread t).state ≠ .terminated
      ∧ (k.thread t).state ≠ .running
    if ready ∧ (k.thread t).priority ≠ .idle then .ok (some t)
    else
      let idle := if ready ∧ idle = none then some t else idle
      let t := (k.thread t).next.getD head
      if t ≠ start then selectLoop k head start fuel t idle else .ok idle

/-- The thread selected, with its time slice set. A missing current thread becomes the head. -/
def selectNextThread (k : Kernel) : Except Fault (Option ℕ × Kernel) :=
  match k.threadList with
  | none => .ok (none, k)
  | some head => do
    let cur := k.currentThread.getD head
    let k := { k with currentThread := some cur }
    let start := (k.thread cur).next.getD head
    match ← k.selectLoop head start (k.threads + 1) start none with
    | none => return (none, k)
    | some t => return (some t, k.setThread t
        { k.thread t with quantum := cpuTimeFromThreadPriority (k.thread t).priority })

/-- The states of the threads when `next` takes over from `prev`. -/
def makeRunning (k : Kernel) (prev next : ℕ) : Kernel :=
  let k := if (k.thread prev).state = .running then
    k.setThread prev { k.thread prev with state := .ready } else k
  { k.setThread next { k.thread next with
      state := .running, quantum := cpuTimeFromThreadPriority (k.thread next).priority } with
    currentThread := some next }

/-- The address space and the I/O ports follow the owner of the next thread, if it has one. -/
def enterProcess (k : Kernel) (prev next : Option ℕ) : Kernel :=
  match next with
  | none => k
  | some q =>
    if prev = some q then k
    else
      let tss := match prev with
        | some q' => k.tss.disableIOPortsOfProcess (k.process q')
        | none => k.tss
      { k with cr3 := some q, tss := tss.enableIOPortsOfProcess (k.process q) }

/-- The part of `ScheduleNext` after a thread other than `prev` has been selected. -/
def switchTo (k : Kernel) (prev next : ℕ) : Kernel :=
  (k.makeRunning prev next).enterProcess (k.thread prev).owner (k.thread next).owner

def scheduleNext (k : Kernel) : Except Fault Kernel :=
  match k.threadList with
  | none => .ok k
  | some _ => do
    let (next, k') ← k.selectNextThread
    let k' := { k' with needsResched := false }
    match next with
    | none => return { k' with currentThread := k.currentThread }
    | some next =>
      if k.currentThread = some next then return k'
      else
        let prev ← nonNull k.currentThread
        return k'.switchTo prev next

/-- The last thread of the list, from `t` on. -/
def lastThread (k : Kernel) : ℕ → ℕ → Except Fault ℕ
  | 0, _ => .error .hang
  | fuel + 1, t =>
    match (k.thread t).next with
    | none => .ok t
    | some n => lastThread k fuel n

def addThreadToScheduler (k : Kernel) (t : ℕ) : Except Fault Kernel :=
  let k := k.setThread t { k.thread t with state := .ready, next := none }
  match k.threadList with
  | none => .ok { k with threadList := some t, currentThread := some t }
  | some head => do
    let last ← k.lastThread (k.threads + 1) head
    return k.setThread last { k.thread last with next := some t }

/-- The thread whose `next` is `t`, from `iter` on. -/
def threadBefore (k : Kernel) (t : ℕ) : ℕ → ℕ → Except Fault (Option ℕ)
  | 0, _ => .error .hang
  | fuel + 1, iter =>
    match (k.thread iter).next with
    | none => .ok none
    | some n => if n = t then .ok (some iter) else threadBefore k t fuel n

def removeThreadFromScheduler (k : Kernel) (t : ℕ) : Except Fault (Status × Kernel) :=
  match k.threadList with
  | none => .ok (.notFound, k)
  | some head =>
    if t = head then .ok (.ok, { k with threadList := (k.thread head).next })
    else do
      match ← k.threadBefore t (k.threads + 1) head with
      | none => return (.notFound, k)
      | some iter =>
        return (.ok, k.setThread iter { k.thread iter with next := (k.thread t).next })

/-- A thread that is not found in the list is only logged. -/
def deleteThread (k : Kernel) (t : ℕ) : Except Fault Kernel :=
  let k := k.setThread t { k.thread t with state := .terminated }
  if k.currentThread = some t then .ok k
  else do
    let (_, k) ← k.removeThreadFromScheduler t
    return k

/-- The loop of `InitSchedulerState` over the list, from `thr` on. -/
def readyFrom (k : Kernel) : ℕ → Option ℕ → Except Fault Kernel
  | _, none => .ok k
  | 0, some _ => .error .hang
  | fuel + 1, some thr =>
    readyFrom (k.setThread thr { k.thread thr with
      quantum := cpuTimeFromThreadPriority (k.thread thr).priority, state := .ready })
      fuel (k.thread thr).next

def initSchedulerState (k : Kernel) : Except Fault (Status × Kernel) :=
  match k.threadList with
  | none => .ok (.retry, k)
  | some head => do
    let k ← k.readyFrom (k.threads + 1) (some head)
    let cur ← nonNull k.currentThread
    return (.ok, k.setThread cur
      { k.thread cur with state := .running, quantum := (k.thread cur).quantum + 1 })

/-- What `SYSCALL_EXIT` does to the current thread itself. -/
def exitCurrent (k : Kernel) : Except Fault Kernel := do
  let cur ← nonNull k.currentThread
  let (_, k) ← k.removeThreadFromScheduler cur
  return k.setThread cur { k.thread cur with state := .terminated }

end Kernel

/-- A call that writes thread states. -/
inductive SchedOp
  | initSchedulerState
  | addThreadToScheduler (t : ℕ)
  | blockThread (t : ℕ)
  | wakeThread (t : ℕ)
  | deleteThread (t : ℕ)
  | exit
  | scheduleNext
  deriving DecidableEq, Repr

def schedStep (k : Kernel) : SchedOp → Option Kernel
  | .initSchedulerState => (k.initSchedulerState.map (·.2)).toOption
  | .addThreadToScheduler t => (k.addThreadToScheduler t).toOption
  | .blockThread t => some (k.blockThread t)
  | .wakeThread t => some (k.wakeThread t)
  | .deleteThread t => (k.deleteThread t).toOption
  | .exit => k.exitCurrent.toOption
  | .scheduleNext => k.scheduleNext.toOption

end DragonWare
