import DragonWare.HugeAllocation
import DragonWare.Machine

/-!
# Threads and their kernel stacks

`THREAD_CREATE` of `sys/syscall/object.c` calls `CreateThread` of `sys/iomgr/thread.c`, which takes
two frames and maps them as a kernel stack. The place of a stack is looked for by two copies of
`GetNextKernelStackAddress`, one in `thread.c` and one in `sys/task/process.c`.
-/

namespace DragonWare

namespace Mmu

/-- The loop of the copy in `process.c`, from `currentAddr` on. Without a place it panics. -/
def getNextProcessStackAddress (m : Mmu) (currentAddr : ℕ) : Option ℕ :=
  if currentAddr + kernelStackSizePages * frameSize ≤ kernelStackEnd then
    let conflict := (List.range kernelStackSizePages).any fun i =>
      m.isVirtualPageMapped (currentAddr + i * frameSize)
    if !conflict then some currentAddr
    else m.getNextProcessStackAddress (currentAddr + kernelStackSizePages * frameSize)
  else none
termination_by kernelStackEnd - currentAddr
decreasing_by
  simp only [kernelStackSizePages, frameSize] at *
  omega

/-- The loop of the copy in `thread.c`. Without a place it returns 0. -/
def getNextThreadStackAddress (m : Mmu) (currentAddr : ℕ) : ℕ :=
  if currentAddr + 2 * frameSize ≤ kernelStackEnd then
    if !m.isVirtualPageMapped currentAddr && !m.isVirtualPageMapped (currentAddr + frameSize) then
      currentAddr
    else m.getNextThreadStackAddress (currentAddr + 2 * frameSize)
  else 0
termination_by kernelStackEnd - currentAddr
decreasing_by
  simp only [frameSize] at *
  omega

end Mmu

namespace Machine

/-- `THREAD_CREATE` on object `o`, by a thread of process `q`. -/
def threadCreate (debug pge fresh : Bool) (q o : ℕ) (args : InvokeArgs) (m : Machine) :
    Option (Status × Machine) :=
  if (m.kernel.object o).data.isSome then some (.badArgument, m)
  else do
    let (t, vm) ← m.vm.createThread debug pge fresh
    let (st, kernel) ←
      (m.kernel.handleThreadObjectRequest q o 0 { args with threadOk := t }).toOption
    return (st, { m with kernel, vm })

end Machine

/-- What happens to a thread. -/
inductive ThreadStep
  | threadRun (q o : ℕ) (args : InvokeArgs)
  | scheduleNext
  | deleteObject (o : ℕ)
  | deleteProcess (q : ℕ)
  | idle

/-- The directories that are loaded, and those of processes that are deleted, are in `spaces`. -/
def threadStep (debug : Bool) (spaces : List ℕ) (m : Machine) : ThreadStep → Option Machine
  | .threadRun q o args => (m.kernel.handleThreadObjectRequest q o 1 args).toOption.map fun r =>
      { m with kernel := r.2 }
  | .scheduleNext => m.scheduleNext.bind fun m => if m.vm.mmu.cr3 ∈ spaces then some m else none
  | .deleteObject o => (m.kernel.deleteObject o).toOption.map fun kernel => { m with kernel }
  | .deleteProcess q => if (m.memory q).cr3 ∈ spaces then m.deleteProcess debug q else none
  | .idle => m.idle

end DragonWare
