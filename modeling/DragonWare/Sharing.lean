import DragonWare.Machine
import DragonWare.Section

/-!
# Sections of several processes

The requests of `sys/syscall/object.c` to sections, and `DeleteObject` and `DeleteProcess` with the
sections and the user pages they release. Objects, handles and processes are those of `Kernel`.

Of an address space the user half is kept, as the frames of its tables and of its pages. The frames
of the directory and of the kernel stack are kept with it. `DeleteProcess` reads the tables through
temporary maps; here it reads them as they are. Of the kernel half the pages of the heap are kept
that hold a structure too large for a slab, and that are given back with it.
-/

namespace DragonWare

open Function

/-- Tables and pages go by their numbers from address 0 on. -/
structure UserSpace where
  cr3 : ℕ
  kstacks : ℕ → ℕ
  table : ℕ → Option ℕ
  page : ℕ → Option ℕ

/-- The frame page `n` is mapped to. -/
def UserSpace.frameAt (a : UserSpace) (n : ℕ) : Option ℕ :=
  if (a.table (n / maxPTEntries)).isSome then a.page n else none

/-- The address space that is loaded, and the frame manager. `released` has the calls of
`FreeFrame`, the last one first, with whether the frame was allocated. -/
structure UserPages where
  space : UserSpace
  frames : FrameManager
  released : List (ℕ × Bool)

namespace UserPages

def setPage (n : ℕ) (f : Option ℕ) (v : UserPages) : UserPages :=
  { v with space := { v.space with page := update v.space.page n f } }

/-- A new table has no pages. -/
def addTable (i f : ℕ) (v : UserPages) : UserPages :=
  { v with space := { v.space with
    table := update v.space.table i (some f)
    page := fun n => if n / maxPTEntries = i then none else v.space.page n } }

def mapSinglePage (phys virt : ℕ) (v : UserPages) : Status × UserPages :=
  if virt = 0 ∨ phys % frameSize ≠ 0 ∨ virt % frameSize ≠ 0 then (.badArgument, v)
  else
    let n := virt / frameSize
    let install := fun v : UserPages =>
      if (v.space.page n).isSome then (Status.retry, v) else (.ok, v.setPage n (some phys))
    if (v.space.table (n / maxPTEntries)).isSome then install v
    else
      let r := v.frames.allocateFrame
      let v := { v with frames := r.2 }
      if r.1 = 0 then (.outOfMemory, v) else install (v.addTable (n / maxPTEntries) r.1)

/-- In a debug build an address that is not aligned stops the machine. -/
def unmapSinglePage (debug : Bool) (virt : ℕ) (v : UserPages) : Option UserPages :=
  if debug ∧ virt % frameSize ≠ 0 then none
  else if (v.space.frameAt (virt / frameSize)).isNone then some v
  else some (v.setPage (virt / frameSize) none)

def freeFrame (debug : Bool) (f : ℕ) (v : UserPages) : Option UserPages :=
  (v.frames.freeFrame debug f).map fun frames =>
    { v with frames, released := (f, v.frames.isFrameAllocated f) :: v.released }

/-- A store into a page that is not mapped stops the machine. -/
def paging (debug : Bool) : Paging UserPages where
  isVirtualPageMapped addr v := (v.space.frameAt (addr / frameSize)).isSome
  mapSinglePage phys virt _ v := v.mapSinglePage phys virt
  unmapSinglePage virt v := v.unmapSinglePage debug virt
  allocateFrame v := (v.frames.allocateFrame.1, { v with frames := v.frames.allocateFrame.2 })
  freeFrame f v := v.freeFrame debug f
  zeroPage addr v := if (v.space.frameAt (addr / frameSize)).isSome then some v else none

/-- Round `j` of the loop of `DeleteProcess` over table `i`. -/
def freePage (debug : Bool) (i j : ℕ) (v : UserPages) : Option UserPages :=
  (v.space.page (i * maxPTEntries + j)).elim (some v) fun f => v.freeFrame debug f

/-- Round `i` of the loop over the directory. -/
def freeTable (debug : Bool) (i : ℕ) (v : UserPages) : Option UserPages :=
  (v.space.table i).elim (some v) fun f =>
    (Loop.times (freePage debug i) maxPTEntries v).bind fun v => v.freeFrame debug f

/-- What `DeleteProcess` gives back once the handles are gone. -/
def deleteProcess (debug : Bool) (v : UserPages) : Option UserPages := do
  let v ← Loop.times (freeTable debug) kernelPDIndex v
  let v ← Loop.times (fun i v => v.freeFrame debug (v.space.kstacks i)) kernelStackSizePages v
  v.freeFrame debug v.space.cr3

end UserPages

/-- Blocks that take a page of the heap: a section, a port, and a path that is being read. -/
inductive PageBlock
  | section (n : ℕ)
  | port (p : ℕ)
  | path
  deriving DecidableEq, Repr

/-- The kernel with sections, address spaces and frames. `heap` has the page of a block and its
frame, and `released` the calls of `FreeFrame` of the last system call. -/
structure Sharing where
  kernel : Kernel
  threadId : ℕ → ℕ
  sections : ℕ → Section
  sectionCount : ℕ
  spaces : ℕ → UserSpace
  heap : PageBlock → Option (ℕ × ℕ)
  frames : FrameManager
  released : List (ℕ × Bool)

/-- `copy` is the descriptor, if it could be copied, `page` the page for the section, if it can be
mapped, and `argMapped` is `ADDRESS_IS_MAPPED(arg)`. -/
inductive SectionObjectOp
  | request (copy : Option (ℕ × BitVec 32)) (page : Option ℕ)
  | map (arg : ℕ) (argMapped : Bool)

inductive SharingCall
  | createObject (name : Option (List (BitVec 8))) (type : ObjectType) (ok : Bool)
  | invokeSection (handle : ℤ) (op : SectionObjectOp)
  | translateHandle (of : ℕ) (handle : ℤ) (copy : Status)
  | deleteObject (handle : ℤ)
  | exit

namespace Sharing

variable (debug : Bool) (s : Sharing)

/-- The address space of process `q` is loaded. -/
def pages (q : ℕ) : UserPages := ⟨s.spaces q, s.frames, s.released⟩

def setPages (q : ℕ) (v : UserPages) : Sharing :=
  { s with
    spaces := update s.spaces q v.space, frames := v.frames, released := v.released }

def setSection (n : ℕ) (scn : Section) : Sharing :=
  { s with sections := update s.sections n scn }

/-- Frames go back the same way in every address space. -/
def freeFrame (f : ℕ) : Option Sharing := ((s.pages 0).freeFrame debug f).map (s.setPages 0)

/-- `AllocateVirtualPage` for block `x`: whether there is a page. -/
def allocateVirtualPage (x : PageBlock) (page : Option ℕ) : Option (Bool × Sharing) :=
  let r := s.frames.allocateFrame
  let s := { s with frames := r.2 }
  if r.1 = 0 then some (false, s)
  else
    match page with
    | some page => some (true, { s with heap := update s.heap x (some (page, r.1)) })
    | none => (s.freeFrame debug r.1).map ((false, ·))

/-- `FreeVirtualPage` gives back the frame at the same offset as the page, whichever frame that
is. -/
def freeVirtualPage (x : PageBlock) : Option Sharing :=
  (s.heap x).bind fun (page, _) =>
    { s with heap := update s.heap x none }.freeFrame debug (virtToPhys page)

/-- A request of process `q` to object `o`. What `SECTION_MAP` stores through its argument is not
part of this state. -/
def handleSectionObjectRequest (q o : ℕ) : SectionObjectOp → Option (Status × Sharing)
  | .request copy page =>
    if (s.kernel.object o).data.isSome then some (.bad, s)
    else
      match copy with
      | none => some (.badArgument, s)
      | some descr =>
        match allocateSection descr.1 descr.2 with
        | none => some (.outOfMemory, s)
        | some scn => do
          let n := s.sectionCount
          let (ok, s) ← s.allocateVirtualPage debug (.section n) page
          if !ok then return (.outOfMemory, s)
          else
            return (.ok, { s.setSection n { scn with addressSpace := (s.kernel.process q).pid } with
              kernel := s.kernel.setObject o { s.kernel.object o with data := some n }
              sectionCount := n + 1 })
  | .map _ argMapped => do
    let data := (s.kernel.object o).data
    let (st, r) ← Section.mapRequest (UserPages.paging debug) (data.map s.sections) argMapped
      (s.pages q)
    match data, r with
    | some n, some (scn, v) => return (st, (s.setPages q v).setSection n scn)
    | _, _ => return (st, s)

/-- `_DWInvokeObject` on a section. Requests to other objects change nothing of this state. -/
def dwInvokeObject (cur : ℕ) (handle : ℤ) (op : SectionObjectOp) : Option (Status × Sharing) :=
  if maxObjPerProcess ≤ handle ∨ handle < 0 then some (.badArgument, s)
  else do
    let q ← (s.kernel.currProc cur).toOption
    match (s.kernel.process q).handles.objlist handle.toNat with
    | none => return (.notFound, s)
    | some target =>
      let obj ← (s.kernel.derefObject target).toOption
      if obj.type = .section then s.handleSectionObjectRequest debug q target op
      else return (.badArgument, s)

/-- The section or listed port of an object whose last handle process `q` deletes. Of a port there
is only the page here. -/
def deleteData (cur q o : ℕ) : Option Sharing :=
  if 1 < (s.kernel.object o).refcnt then some s
  else
    match (s.kernel.object o).type, (s.kernel.object o).data with
    | .section, some n => do
      let (scn, v) ← (s.sections n).deleteSection (UserPages.paging debug) debug (s.threadId cur)
        (s.pages q)
      let s := (s.setPages q v).setSection n (scn.getD (s.sections n))
      if scn.isNone then s.freeVirtualPage debug (.section n) else return s
    | .port, some p =>
      if p ∈ s.kernel.portList then s.freeVirtualPage debug (.port p) else some s
    | _, _ => some s

def dwDeleteObject (cur : ℕ) (handle : ℤ) : Option Sharing :=
  if handle < 0 then some s
  else if maxObjPerProcess ≤ handle then none
  else do
    let q ← (s.kernel.currProc cur).toOption
    match (s.kernel.process q).handles.objlist handle.toNat with
    | none => return s
    | some o =>
      let s ← s.deleteData debug cur q o
      let kernel ← (s.kernel.dwDeleteObject cur handle).toOption
      return { s with kernel }

/-- Round `i` of the loop of `DeleteProcess` over the handle table of `q`. -/
def deleteSlot (cur q i : ℕ) (s : Sharing) : Option Sharing := do
  let s ← ((s.kernel.process q).handles.objlist i).elim (some s) (s.deleteData debug cur q)
  let kernel ← (s.kernel.deleteSlot q i).toOption
  return { s with kernel }

def deleteProcess (cur q : ℕ) : Option Sharing := do
  let _ ← (s.kernel.derefProcess q).toOption
  let s := { s with kernel := { s.kernel with processList := s.kernel.processList.erase q } }
  let s ← Loop.times (deleteSlot debug cur q) maxObjPerProcess s
  let v ← (s.pages q).deleteProcess debug
  let k := s.kernel
  let t := (k.process q).mainThread
  let k := k.setThread t { k.thread t with state := .terminated }
  return { s.setPages q v with kernel :=
    { k with live := { k.live with process := update k.live.process q false } } }

def dwExit (cur : ℕ) : Option Sharing := do
  let (_, k) ← (s.kernel.removeThreadFromScheduler cur).toOption
  let k := k.setThread cur { k.thread cur with state := .terminated }
  let s := { s with kernel := k }
  let s ← (k.thread cur).owner.elim (some s) (s.deleteProcess debug cur)
  let kernel ← { s.kernel with needsResched := true }.scheduleNext.toOption
  return { s with kernel }

def call (cur : ℕ) : SharingCall → Option Sharing
  | .createObject name type ok => do
    let (_, kernel) ← (s.kernel.dwCreateObject cur name type ok).toOption
    return { s with kernel }
  | .invokeSection handle op => (s.dwInvokeObject debug cur handle op).map (·.2)
  | .translateHandle pid handle copy => do
    let (_, kernel) ← (s.kernel.dwTranslateHandle cur pid handle copy).toOption
    return { s with kernel }
  | .deleteObject handle => s.dwDeleteObject debug cur handle
  | .exit => s.dwExit debug cur

end Sharing

/-- A system call of whichever thread runs. -/
def sharingStep (debug : Bool) (s : Sharing) (e : ℕ × SharingCall) : Option Sharing :=
  Sharing.call debug
    { s with kernel := { s.kernel with currentThread := some e.1 }, released := [] } e.1 e.2

end DragonWare
