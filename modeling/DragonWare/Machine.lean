import DragonWare.Exception
import DragonWare.Process

/-!
# Processes and their memory

A process is a structure of the kernel and an address space. `Machine` has both, and what the fields
of each process say about its frames. `DeleteProcess` of `sys/task/process.c` walks the user half of
the directory through two temporary maps. The idle loop of `sys/init/main.c` takes threads that have
ended out of the list.
-/

namespace DragonWare

def maxPTEntries : ℕ := 1024

/-- A load of a word. On a page that is not mapped the machine stops. -/
def Mmu.load (m : Mmu) (addr : ℕ) : Option (BitVec 32) :=
  (m.translate m.cr3 addr).map fun pte => m.table (entryFrame pte) (addr % frameSize / 4)

namespace Vm

def freeFrame (debug : Bool) (a : ℕ) (v : Vm) : Option Vm :=
  (v.frames.freeFrame debug a).map fun frames => { v with frames }

/-- `MapSinglePage` where its status is not looked at. -/
def mapWindow (phys virt : ℕ) (v : Vm) : Vm :=
  let (_, mmu, frames) := Mmu.mapSinglePage phys virt (pagePresent ||| pageRW) v.mmu v.frames
  { v with mmu, frames }

def unmapSinglePage (debug : Bool) (virt : ℕ) (v : Vm) : Option Vm :=
  (v.mmu.unmapSinglePage debug virt).map fun mmu => { v with mmu }

/-- Round `j` of the loop over the table mapped at `pt`. -/
def freePage (debug : Bool) (pt j : ℕ) (v : Vm) : Option Vm := do
  let e ← v.mmu.load (pt + 4 * j)
  if entryPresent e then v.freeFrame debug (entryFrame e) else some v

/-- Round `i` of the loop over the directory mapped at `pd`. -/
def freeTable (debug : Bool) (pd pt i : ℕ) (v : Vm) : Option Vm := do
  let e ← v.mmu.load (pd + 4 * i)
  if entryPresent e then
    let v ← Loop.times (freePage debug pt) maxPTEntries (v.mapWindow (entryFrame e) pt)
    let v ← v.unmapSinglePage debug pt
    let e ← v.mmu.load (pd + 4 * i)
    v.freeFrame debug (entryFrame e)
  else some v

/-- The memory of `DeleteProcess`. Without two free slots the machine stops. The pages of the kernel
stack stay mapped. -/
def deleteProcess (debug : Bool) (p : ProcessMemory) (v : Vm) : Option Vm := do
  let pdSlot ← v.findFreeTmpMapSlot
  let v := { v with tmpmap := Bitmap.setBit v.tmpmap pdSlot }
  let ptSlot ← v.findFreeTmpMapSlot
  let pd := tmpMapAddrFromIndex pdSlot
  let pt := tmpMapAddrFromIndex ptSlot
  let v ← Loop.times (freeTable debug pd pt) kernelPDIndex (v.mapWindow p.cr3 pd)
  let v ← v.unmapSinglePage debug pd
  let v := { v with tmpmap := Bitmap.clearBit (Bitmap.clearBit v.tmpmap pdSlot) ptSlot }
  let v ← p.kstacks.foldlM (fun v kstack => v.freeFrame debug kstack.phys) v
  v.freeFrame debug p.cr3

end Vm

namespace Kernel

/-- `AllocateThread`: a thread of the kernel. -/
def allocateThread (k : Kernel) : ℕ × Kernel :=
  (k.threads, { k with
    thread := Function.update k.thread k.threads ⟨.ready, .low, 6, none, none⟩
    threads := k.threads + 1 })

/-- The idle loop over the thread list, from `iter` on. -/
def reapFrom (k : Kernel) : ℕ → Option ℕ → Except Fault Kernel
  | _, none => .ok k
  | 0, some _ => .error .hang
  | fuel + 1, some t => do
    let next := (k.thread t).next
    if (k.thread t).state = .terminated then
      let (_, k) ← k.removeThreadFromScheduler t
      let k ← k.deleteThread t
      reapFrom k fuel next
    else reapFrom k fuel next

/-- One pass of `__idle`. -/
def idle (k : Kernel) : Except Fault Kernel := k.reapFrom (k.threads + 1) k.threadList

end Kernel

/-- The kernel, the memory of the machine, and the frames of each process. -/
structure Machine where
  kernel : Kernel
  vm : Vm
  memory : ℕ → ProcessMemory

namespace Machine

/-- The machine before its servers are loaded. The idle thread is the only one. -/
def boot (vm : Vm) : Option Machine := do
  let (idleTask, kernel) := Kernel.boot.allocateThread
  let kernel ← (kernel.addThreadToScheduler idleTask).toOption
  return { kernel, vm, memory := fun _ => ⟨0, []⟩ }

/-- The process, or null. -/
def createProcess (debug pge : Bool) (fresh : ℕ → Bool) (code : Memory.Mem) (codeSize : ℕ)
    (m : Machine) : Option (Option ℕ × Machine) := do
  match ← m.vm.createProcess debug pge fresh code codeSize with
  | (none, vm) => return (none, { m with vm })
  | (some p, vm) =>
    let (q, kernel) ← m.kernel.createProcess.toOption
    return (some q, { kernel, vm, memory := Function.update m.memory q p })

def deleteProcess (debug : Bool) (q : ℕ) (m : Machine) : Option Machine := do
  let kernel ← (m.kernel.deleteProcess q).toOption
  let vm ← m.vm.deleteProcess debug (m.memory q)
  return { m with kernel, vm }

/-- `ScheduleNext`. The directory of the process that is entered is loaded. -/
def scheduleNext (m : Machine) : Option Machine := do
  let kernel ← m.kernel.scheduleNext.toOption
  match kernel.cr3 with
  | some q => return { m with kernel, vm := m.vm.swapProcess (m.memory q).cr3 }
  | none => return { m with kernel }

def idle (m : Machine) : Option Machine := do
  let kernel ← m.kernel.idle.toOption
  return { m with kernel }

/-- The memory of the process goes when its structure does. -/
def dropMemory (debug : Bool) (owner : Option ℕ) (m : Machine) : Option Machine :=
  match owner with
  | some q => (m.vm.deleteProcess debug (m.memory q)).map fun vm => { m with vm }
  | none => some m

/-- `SYSCALL_EXIT` of the current thread, up to its call of `ScheduleNext`. -/
def exit (debug : Bool) (m : Machine) : Option Machine := do
  let cur ← m.kernel.currentThread
  let kernel ← (m.kernel.exitThread cur).toOption
  dropMemory debug (m.kernel.thread cur).owner { m with kernel }

/-- `_DWUserException` on the current thread. -/
def userException (debug : Bool) (m : Machine) : Option Machine := do
  let cur ← m.kernel.currentThread
  let kernel ← (m.kernel.dwUserException cur).toOption
  dropMemory debug (m.kernel.thread cur).owner { m with kernel }

end Machine

/-- What happens next on the machine. -/
inductive MachineStep
  | createProcess (fresh : ℕ → Bool) (code : Memory.Mem) (codeSize : ℕ)
  | exit
  | userException
  | scheduleNext

def machineStep (debug pge : Bool) (m : Machine) : MachineStep → Option Machine
  | .createProcess fresh code codeSize =>
    (m.createProcess debug pge fresh code codeSize).map (·.2)
  | .exit => m.exit debug
  | .userException => m.userException debug
  | .scheduleNext => m.scheduleNext

end DragonWare
