import DragonWare.Object
import DragonWare.Strings

/-!
# The list of global ports

`sys/iomgr/port.c` on the heap. A port is a block, and so is each node of the list that
`port_list_head` begins. Which block `kmalloc` returns, or null, is an argument. A walk that needs
more steps than there are blocks in use has come back to a node and goes on for ever.
-/

namespace DragonWare

structure PortNode where
  port : ℕ
  next : Option ℕ

/-- Here the `name` of a port is the whole array. `blocks` are the blocks of the heap in use. -/
structure PortHeap where
  portListHead : Option ℕ
  node : ℕ → PortNode
  port : ℕ → Port
  blocks : Finset ℕ

namespace PortHeap

variable (s : PortHeap)

def initializePortTree : PortHeap := { s with portListHead := none }

def setNode (c : ℕ) (n : PortNode) : PortHeap := { s with node := Function.update s.node c n }

def setPort (p : ℕ) (x : Port) : PortHeap := { s with port := Function.update s.port p x }

def kmalloc (a : ℕ) : PortHeap := { s with blocks := insert a s.blocks }

def kfree (a : ℕ) : PortHeap := { s with blocks := s.blocks.erase a }

def nameAt (p i : ℕ) : BitVec 8 := (s.port p).name.getD i 0

def findFrom (name : CString) : ℕ → Option ℕ → Option (Option ℕ)
  | 0, _ => none
  | _ + 1, none => some none
  | fuel + 1, some current =>
    let port := (s.node current).port
    if strncmp (s.nameAt port) name.at maxPortName = 0 then some (some port)
    else findFrom name fuel (s.node current).next

def findPortByName (name : CString) : Option (Option ℕ) :=
  s.findFrom name (s.blocks.card + 1) s.portListHead

/-- The fields of a new port. Without a name the array keeps what the block held before. -/
def initPort (p : ℕ) (name : Option CString) (owner : ℕ) : PortHeap :=
  s.setPort p ⟨fun _ => Kernel.zeroMessage, 0, 0, 0,
    name.elim (s.port p).name fun n => (strncpy n.at maxPortName).set (maxPortName - 1) 0,
    some owner⟩

/-- The status, what is stored through `portsave`, and the heap. -/
def createPort (name : Option CString) (owner : ℕ) (portBlock nodeBlock : Option ℕ) :
    Option (Status × Option ℕ × PortHeap) := do
  let found ← name.elim (some none) s.findPortByName
  if found ≠ none then return (.unsupported, none, s)
  match portBlock with
  | none => return (.outOfMemory, none, s)
  | some port =>
    let s := s.kmalloc port
    if maxPortName ≤ (name.elim 0 fun n => n.chars.length) then return (.badArgument, none, s)
    let s := s.initPort port name owner
    if name.isNone then return (.ok, some port, s)
    match nodeBlock with
    | none => return (.outOfMemory, none, s.kfree port)
    | some node =>
      let s := (s.kmalloc node).setNode node ⟨port, s.portListHead⟩
      return (.ok, some port, { s with portListHead := some node })

/-- The list goes on from `prev`, or begins, where it went on from `iter`. -/
def unlink (prev : Option ℕ) (iter : ℕ) : PortHeap :=
  match prev with
  | some b => s.setNode b { s.node b with next := (s.node iter).next }
  | none => { s with portListHead := (s.node iter).next }

def deleteFrom (p : ℕ) : ℕ → Option ℕ → Option ℕ → Option PortHeap
  | 0, _, _ => none
  | _ + 1, _, none => some s
  | fuel + 1, prev, some iter =>
    if (s.node iter).port = p then some (((s.unlink prev iter).kfree iter).kfree p)
    else deleteFrom p fuel (some iter) (s.node iter).next

def deletePort (p : ℕ) : Option PortHeap :=
  s.deleteFrom p (s.blocks.card + 1) none s.portListHead

/-- Blocks that `kmalloc` can return, one after the other. -/
def Fresh (portBlock nodeBlock : Option ℕ) : Prop :=
  (∀ a ∈ portBlock, a ∉ s.blocks) ∧ ∀ b ∈ nodeBlock, b ∉ s.blocks ∧ portBlock ≠ some b

instance (portBlock nodeBlock : Option ℕ) : Decidable (s.Fresh portBlock nodeBlock) :=
  inferInstanceAs (Decidable (_ ∧ _))

end PortHeap

inductive PortOp
  | create (name : Option CString) (owner : ℕ) (portBlock nodeBlock : Option ℕ)
  | find (name : CString)
  | delete (p : ℕ)

/-- A call, where `kmalloc` returns blocks that are not in use. -/
def portStep (s : PortHeap) : PortOp → Option PortHeap
  | .create name owner portBlock nodeBlock =>
    if s.Fresh portBlock nodeBlock then
      (s.createPort name owner portBlock nodeBlock).map fun r => r.2.2
    else none
  | .find name => (s.findPortByName name).map fun _ => s
  | .delete p => s.deletePort p

end DragonWare
