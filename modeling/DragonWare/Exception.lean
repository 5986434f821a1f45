import DragonWare.Syscall

/-!
# Exceptions of user threads

`_DWUserException` of `sys/ddk/ia32/exception.c`. The process of the thread that faulted is deleted
and the scheduler runs on the way out of the interrupt. `CallsScheduleNext` names the state in which
an event calls `ScheduleNext`.
-/

namespace DragonWare

/-- What happens next: an event as before, or the current thread takes an exception. -/
inductive TaskEvent
  | event (e : Event)
  | exception

namespace Kernel

def dwUserException (k : Kernel) (cur : ℕ) : Except Fault Kernel := do
  let q ← nonNull (k.thread cur).owner
  let k ← k.deleteProcess q
  return { k with needsResched := true }

/-- `SYSCALL_EXIT` up to its call of `ScheduleNext`. -/
def exitThread (k : Kernel) (cur : ℕ) : Except Fault Kernel := do
  let (_, k) ← k.removeThreadFromScheduler cur
  let k := k.setThread cur { k.thread cur with state := .terminated }
  let k ← (k.thread cur).owner.elim (.ok k) k.deleteProcess
  return { k with needsResched := true }

/-- A thread in its receive loop is in the kernel and takes no user exception. -/
def taskEvent (k : Kernel) : TaskEvent → Except Fault Kernel
  | .event e => k.event e
  | .exception =>
    match k.currentThread with
    | some cur => if k.inReceive cur = none then k.dwUserException cur >>= scheduleNext else .ok k
    | none => .ok k

def taskStep (k : Kernel) (e : TaskEvent) : Option Kernel := (k.taskEvent e).toOption

/-- The receive loop on `p` before it calls `ScheduleNext`. -/
def sleepOn (k : Kernel) (cur p : ℕ) : Kernel :=
  { k.blockThread cur with inReceive := Function.update k.inReceive cur (some p) }

/-- During the event, `ScheduleNext` is called in the state `r`. -/
inductive CallsScheduleNext (k : Kernel) : TaskEvent → Kernel → Prop
  | timer : CallsScheduleNext k (.event .timer) k
  | exit {cur : ℕ} {r : Kernel} (hcur : k.currentThread = some cur) (hin : k.inReceive cur = none)
    (h : k.exitThread cur = .ok r) : CallsScheduleNext k (.event (.call .exit)) r
  | exception {cur : ℕ} {r : Kernel} (hcur : k.currentThread = some cur)
    (hin : k.inReceive cur = none) (h : k.dwUserException cur = .ok r) :
    CallsScheduleNext k .exception r
  | receive {cur p : ℕ} {handle : ℤ} {copyOk : Bool} (hcur : k.currentThread = some cur)
    (hin : k.inReceive cur = none) (hp : k.portOfHandle cur handle = some p)
    (hempty : (k.port p).count = 0) :
    CallsScheduleNext k (.event (.call (.receive handle copyOk))) (k.sleepOn cur p)
  | resume {cur p : ℕ} {copyOk : Bool} (hcur : k.currentThread = some cur)
    (hin : k.inReceive cur = some p) (hempty : (k.port p).count = 0) :
    CallsScheduleNext k (.event (.resume copyOk)) (k.sleepOn cur p)

end Kernel

end DragonWare
