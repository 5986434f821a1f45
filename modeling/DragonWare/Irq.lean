import DragonWare.Exception

/-!
# Interrupts relayed to user mode

`sys/ddk/ia32/irq.c` and `pic.c`, and of `sys/syscall/object.c` the requests that bind and
acknowledge a line. A line that fires is masked. If it is bound, a message goes to the port that the
handle of the binding names in the process of the thread that asked for it, and the line stays
masked until that thread acknowledges it. The interrupt controller is its two mask registers.
-/

namespace DragonWare

open Kernel

def maxIRQ : ℕ := 16

def procCServer : BitVec 32 := 1#32

def procCIrqDispatch : BitVec 32 := 3#32

/-- The mask registers of the two controllers. -/
structure Pic where
  data1 : BitVec 8
  data2 : BitVec 8
  deriving DecidableEq, Repr

namespace Pic

/-- `InitializePIC`: all lines are masked. -/
def init : Pic := ⟨0xFF, 0xFF⟩

def masked (p : Pic) (n : ℕ) : Bool :=
  if n < 8 then p.data1.getLsbD (n % 8) else p.data2.getLsbD (n % 8)

def disableIRQ (n : ℕ) (p : Pic) : Pic :=
  if maxIRQ - 1 < n then p
  else if n < 8 then { p with data1 := p.data1 ||| 1#8 <<< (n % 8) }
  else { p with data2 := p.data2 ||| 1#8 <<< (n % 8) }

def unmask (n : ℕ) (p : Pic) : Pic :=
  if n < 8 then { p with data1 := p.data1 &&& ~~~(1#8 <<< (n % 8)) }
  else { p with data2 := p.data2 &&& ~~~(1#8 <<< (n % 8)) }

/-- A line of the second controller comes through line 2 of the first one. -/
def enableIRQ (n : ℕ) (p : Pic) : Pic :=
  if maxIRQ - 1 < n then p
  else if 7 < n then (p.unmask n).unmask 2
  else p.unmask n

end Pic

structure IRQRelayHandler where
  handler : Option ℕ
  portHandle : ℤ
  isActive : Bool
  deriving DecidableEq, Repr

/-- The kernel with its controller, `IRQHandlerCallbacks` and `IRQRelayCallback`. The only callback
there is is the one of the timer. -/
structure IrqKernel where
  kernel : Kernel
  pic : Pic
  callbacks : ℕ → Bool
  relay : ℕ → IRQRelayHandler

def Kernel.pitCallback (k : Kernel) : Kernel :=
  match k.currentThread with
  | none => k
  | some t =>
    let old := (k.thread t).quantum
    { k.setThread t { k.thread t with quantum := (old + 2 ^ 32 - 1) % 2 ^ 32 } with
      needsResched := k.needsResched || old == 0 }

/-- The end of `PrepareInterruptFrame` in `isr.asm`. -/
def Kernel.returnFromInterrupt (k : Kernel) : Except Fault Kernel :=
  if k.needsResched then k.scheduleNext else .ok k

/-- A tick of the timer, or a call that decides how long the current thread runs. -/
inductive SliceOp
  | tick
  | scheduleNext
  | blockThread (t : ℕ)
  | wakeThread (t : ℕ)
  | addThreadToScheduler (t : ℕ)
  deriving DecidableEq, Repr

def sliceStep (k : Kernel) : SliceOp → Option Kernel
  | .tick => k.pitCallback.returnFromInterrupt.toOption
  | .scheduleNext => k.scheduleNext.toOption
  | .blockThread t => some (k.blockThread t)
  | .wakeThread t => some (k.wakeThread t)
  | .addThreadToScheduler t => (k.addThreadToScheduler t).toOption

namespace IrqKernel

/-- `IRQInit`, and the timer. -/
def boot : IrqKernel := ⟨.boot, Pic.init.enableIRQ 0, fun n => n == 0, fun _ => ⟨none, 0, false⟩⟩

def registerIRQSubscriber (s : IrqKernel) (which : ℕ) (portHandle : ℤ) : IrqKernel :=
  if which < 1 ∨ maxIRQ - 1 < which then s
  else
    match s.kernel.currentThread with
    | none => s
    | some current => { s with
        relay := Function.update s.relay which ⟨some current, portHandle, true⟩
        pic := s.pic.enableIRQ which }

/-- Whether the current thread may acknowledge the line through this handle. -/
def acknowledges (s : IrqKernel) (which : ℕ) (portHandle : ℤ) : Bool :=
  !(which < 1 ∨ maxIRQ - 1 < which) && (s.relay which).isActive &&
    (s.relay which).handler == s.kernel.currentThread && (s.relay which).portHandle == portHandle

def acknowledgeUserIRQ (s : IrqKernel) (which : ℕ) (portHandle : ℤ) : IrqKernel :=
  if s.acknowledges which portHandle then { s with pic := s.pic.enableIRQ which } else s

/-- The message of an interrupt. -/
def irqMessage : Message := ⟨⟨0, 0, 0, 0, 0, 0, 0⟩, fun _ => 0⟩

def irqHandlerCallback (s : IrqKernel) (irq : ℕ) : Except Fault IrqKernel :=
  let s := { s with pic := s.pic.disableIRQ irq }
  if maxIRQ ≤ irq then .ok s
  else if s.callbacks irq then
    .ok { s with kernel := s.kernel.pitCallback, pic := s.pic.enableIRQ irq }
  else if (s.relay irq).isActive then do
    let target ← nonNull (s.relay irq).handler
    let owner ← nonNull (s.kernel.thread target).owner
    let (status, k) ← s.kernel.sendMessage owner (s.relay irq).portHandle irqMessage
    if status ≠ .ok then return { s with kernel := k }
    else return { s with kernel := k.wakeThread target }
  else .ok s

def deleteProcessFromIRQRelay (s : IrqKernel) (q : ℕ) : IrqKernel :=
  { s with relay := fun i =>
      if (s.relay i).isActive
          ∧ (s.relay i).handler.bind (fun t => (s.kernel.thread t).owner) = some q
      then ⟨none, 0, false⟩ else s.relay i }

end IrqKernel

inductive PortIrqOp
  | bindIrq
  | ackIrq
  deriving DecidableEq, Repr

namespace IrqKernel

/-- `PORT_BIND_IRQ` and `PORT_ACK_IRQ`. `descr` is the number of the line in the caller's memory, if
it can be read. -/
def handlePortObjectRequest (s : IrqKernel) (q : ℕ) (handle : ℤ) (op : PortIrqOp)
    (descr : Option ℕ) : Status × IrqKernel :=
  match op with
  | .bindIrq =>
    if (s.kernel.process q).flags &&& procCServer = 0#32 then (.unsupported, s)
    else
      match descr with
      | none => (.badArgument, s)
      | some irqNo => (.ok, s.registerIRQSubscriber irqNo handle)
  | .ackIrq =>
    if (s.kernel.process q).flags &&& (procCServer ||| procCIrqDispatch) = 0#32 then
      (.unsupported, s)
    else
      match descr with
      | none => (.badArgument, s)
      | some irqNo => (.ok, s.acknowledgeUserIRQ irqNo handle)

/-- An object that is no port has other operations under these numbers. -/
def dwInvokeObject (s : IrqKernel) (cur : ℕ) (handle : ℤ) (op : PortIrqOp) (descr : Option ℕ) :
    Except Fault (Status × IrqKernel) :=
  if maxObjPerProcess ≤ handle ∨ handle < 0 then .ok (.badArgument, s)
  else do
    let q ← s.kernel.currProc cur
    match (s.kernel.process q).handles.objlist handle.toNat with
    | none => return (.notFound, s)
    | some target =>
      let obj ← s.kernel.derefObject target
      if obj.type = .port then return s.handlePortObjectRequest q handle op descr
      else return (.badArgument, s)

end IrqKernel

/-- A line fires, the thread `cur` makes a request about a line, an event happens on it, or a
process is given capabilities. -/
inductive IrqStep
  | irq (n : ℕ)
  | port (cur : ℕ) (handle : ℤ) (op : PortIrqOp) (descr : Option ℕ)
  | task (cur : ℕ) (e : TaskEvent)
  | setProcessCapabilities (q : ℕ) (flags : BitVec 32)

/-- The process that the event deletes when it happens on the thread. -/
def Kernel.deletes (k : Kernel) (cur : ℕ) : TaskEvent → Option ℕ
  | .event (.call .exit) => if k.inReceive cur = none then (k.thread cur).owner else none
  | .exception => if k.inReceive cur = none then (k.thread cur).owner else none
  | _ => none

namespace IrqKernel

/-- The kernel runs on the thread. -/
def onThread (s : IrqKernel) (cur : ℕ) : IrqKernel :=
  { s with kernel := { s.kernel with currentThread := some cur } }

/-- `DeleteProcess` begins with the relays of the process. -/
def dropRelays (s : IrqKernel) (cur : ℕ) (e : TaskEvent) : IrqKernel :=
  match s.kernel.deletes cur e with
  | some q => s.deleteProcessFromIRQRelay q
  | none => s

/-- A masked line does not fire, and a thread asleep in its receive loop makes no request. -/
def step (s : IrqKernel) : IrqStep → Except Fault IrqKernel
  | .irq n => if s.pic.masked n then .ok s else s.irqHandlerCallback n
  | .port cur handle op descr =>
    if s.kernel.inReceive cur = none then
      (·.2) <$> (s.onThread cur).dwInvokeObject cur handle op descr
    else .ok s
  | .task cur e => do
    let k ← { s.kernel with currentThread := some cur }.taskEvent e
    return { s.dropRelays cur e with kernel := k }
  | .setProcessCapabilities q flags => .ok { s with
      kernel := s.kernel.setProcess q { s.kernel.process q with
        flags := (s.kernel.process q).flags ||| flags } }

end IrqKernel

end DragonWare
