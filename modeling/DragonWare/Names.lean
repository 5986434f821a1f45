import DragonWare.Irq

/-!
# The buffers of names

`_DWCreateObject` copies the name of an object into a buffer of its own, and `_DWDeleteObject` frees
it. The kernel comes with an account of these buffers, of the calls of `kfree` on each, and of the
freed ones that `CreatePort` was given. The account never influences what the kernel does.
-/

namespace DragonWare

open Function

/-- `buffers` counts the buffers so far, `nameOf` is the buffer with the name of an object, and
`frees` counts calls of `kfree` on a buffer. -/
structure NamedKernel where
  kernel : Kernel
  buffers : ℕ
  frees : ℕ → ℕ
  nameOf : ℕ → Option ℕ
  staleReads : ℕ

/-- An object is created, with the outcome of the allocations and of the copy of the name, or an
event happens on the thread. -/
inductive NameStep
  | createObject (cur : ℕ) (name : Option (List (BitVec 8))) (type : ObjectType)
    (nameOk copyOk objectOk : Bool)
  | task (cur : ℕ) (e : TaskEvent)

namespace NamedKernel

def boot : NamedKernel := ⟨.boot, 0, fun _ => 0, fun _ => none, 0⟩

/-- The buffer is the one with the number of buffers so far. -/
def allocateName (s : NamedKernel) : NamedKernel :=
  { s with buffers := s.buffers + 1, frees := update s.frees s.buffers 0 }

def kfree (s : NamedKernel) (b : ℕ) : NamedKernel :=
  { s with frees := update s.frees b (s.frees b + 1) }

def onThread (s : NamedKernel) (cur : ℕ) : NamedKernel :=
  { s with kernel := { s.kernel with currentThread := some cur } }

/-- A name that could not be copied is freed. One whose object could not be allocated is not. -/
def dwCreateObject (s : NamedKernel) (cur : ℕ) (name : Option (List (BitVec 8)))
    (type : ObjectType) (nameOk copyOk objectOk : Bool) :
    Except Fault (Option ℕ × NamedKernel) :=
  match name with
  | none => do
    let (handle, k) ← s.kernel.dwCreateObject cur none type objectOk
    return (handle, { s with kernel := k })
  | some text =>
    if !nameOk then .ok (none, s)
    else
      let nameReal := s.buffers
      let s := s.allocateName
      if !copyOk then .ok (none, s.kfree nameReal)
      else if !objectOk then .ok (none, s)
      else do
        let (handle, k) ← s.kernel.dwCreateObject cur (some text) type true
        return (handle, { s with
          kernel := k
          nameOf := update s.nameOf s.kernel.objects (some nameReal) })

/-- `_DWDeleteObject` frees the name of the object, whoever else holds it. -/
def freeName (s : NamedKernel) (cur : ℕ) (handle : ℤ) : NamedKernel :=
  match (s.kernel.objectOfHandle cur handle).bind s.nameOf with
  | some b => s.kfree b
  | none => s

/-- `PORT_CREATE` hands the name of the object to `CreatePort`. -/
def readName (s : NamedKernel) (cur : ℕ) (handle : ℤ) : NamedKernel :=
  match s.kernel.objectOfHandle cur handle with
  | none => s
  | some o =>
    match (s.kernel.object o).type, s.nameOf o with
    | .port, some b => if s.frees b = 0 then s else { s with staleReads := s.staleReads + 1 }
    | _, _ => s

/-- What the event does to the buffers. -/
def account (s : NamedKernel) (cur : ℕ) : TaskEvent → NamedKernel
  | .event (.call (.deleteObject handle)) => s.freeName cur handle
  | .event (.call (.invokeObject handle 0 _)) => s.readName cur handle
  | _ => s

/-- The kernel has gone on to `k`. A thread asleep in its receive loop has made no call. -/
def after (s : NamedKernel) (cur : ℕ) (e : TaskEvent) (k : Kernel) : NamedKernel :=
  { (if s.kernel.inReceive cur = none then s.account cur e else s) with kernel := k }

def create (s : NamedKernel) (cur : ℕ) (name : Option (List (BitVec 8))) (type : ObjectType)
    (nameOk copyOk objectOk : Bool) : Except Fault NamedKernel :=
  if s.kernel.inReceive cur = none then
    (·.2) <$> s.dwCreateObject cur name type nameOk copyOk objectOk
  else .ok s

def step (s : NamedKernel) : NameStep → Option NamedKernel
  | .createObject cur name type nameOk copyOk objectOk =>
    ((s.onThread cur).create cur name type nameOk copyOk objectOk).toOption
  | .task cur (.event (.call (.createObject name type ok))) =>
    ((s.onThread cur).create cur name type ok ok ok).toOption
  | .task cur e =>
    ((s.onThread cur).kernel.taskEvent e).toOption.map ((s.onThread cur).after cur e)

end NamedKernel

end DragonWare
