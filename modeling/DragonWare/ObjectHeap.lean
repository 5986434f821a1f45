import DragonWare.UserStrings

/-!
# The heap blocks of an object

`_DWCreateObject` takes a block for its copy of the name and one for the object, and then a slot of
the caller's handle table. Which block `kmalloc` returns, or null, is an argument. Where measuring
the name comes to a byte that is not mapped the call does not come back.
-/

namespace DragonWare

open Function

structure HeapObject where
  name : Option ℕ
  type : ObjectType
  data : Option ℕ
  permissions : BitVec 32
  refcnt : ℕ

/-- Memory as the address space of the caller shows it, the objects, the handle table of each
process, and the blocks of the heap in use. -/
structure ObjectHeap where
  mem : Memory.Mem
  object : ℕ → HeapObject
  handles : ℕ → HandleTable
  blocks : Finset ℕ

namespace ObjectHeap

variable (s : ObjectHeap)

def kmalloc (a : ℕ) : ObjectHeap := { s with blocks := insert a s.blocks }

def kfree (a : ℕ) : ObjectHeap := { s with blocks := s.blocks.erase a }

def allocateObject (name : Option ℕ) (type : ObjectType) (objBlock : Option ℕ) :
    Option ℕ × ObjectHeap :=
  match objBlock with
  | none => (none, s)
  | some obj =>
    (some obj, { s.kmalloc obj with
      object := update s.object obj ⟨name, type, none, 0#32, 1⟩ })

/-- The rest of `_DWCreateObject` once there is a name or it is known that there is none, called by
a thread of the process `curr`. -/
def installObject (curr : ℕ) (nameReal : Option ℕ) (type : ObjectType) (objBlock : Option ℕ) :
    ℤ × ObjectHeap :=
  match s.allocateObject nameReal type objBlock with
  | (none, s) => (-1, s)
  | (some obj, s) =>
    match (s.handles curr).appendToHandleTable obj with
    | none => (-1, s)
    | some (index, table) => (index, { s with handles := update s.handles curr table })

def dwCreateObject (m : Mmu) (curr : ℕ) (name : BitVec 32) (type : ObjectType)
    (nameBlock objBlock : Option ℕ) : Option (ℤ × ObjectHeap) :=
  if StringCall.createObject.looks m name then do
    let len ← (m.strnlenFrom s.mem name maxPortName 0).2
    let strsize := len + 1
    match nameBlock with
    | none => return (-1, s)
    | some nameReal =>
      let s := s.kmalloc nameReal
      match copyFromUser m s.mem (BitVec.ofNat 32 nameReal) name (BitVec.ofNat 32 strsize) with
      | (.ok, mem) =>
        let mem := update mem (nameReal + (strsize - 1)) 0#8
        return { s with mem := mem }.installObject curr (some nameReal) type objBlock
      | _ => return (-1, s.kfree nameReal)
  else return s.installObject curr none type objBlock

end ObjectHeap

end DragonWare
