import DragonWare.Strings
import DragonWare.UserStrings

/-!
# The tree of devices

`sys/iomgr/devmgr.c`, with `MakeDeviceNode` of `sys/iomgr/node.c`. Which block `kmalloc` returns, or
null, is an argument. Walks along siblings are given one step more than there are nodes, the
recursions of `RemoveDevice` a number of steps. A freed node keeps its zeroed pointers, since the
list of free blocks goes through the first word of a block.
-/

namespace DragonWare

/-- Of a `DeviceManagerNode` what the tree is made of. The name is the whole array. -/
structure TreeNode where
  name : List (BitVec 8)
  child : Option ℕ
  next : Option ℕ

/-- `blocks` are the blocks in use as nodes. -/
structure DeviceTree where
  root : Option ℕ
  node : ℕ → TreeNode
  blocks : Finset ℕ

def rootDeviceName : List (BitVec 8) := literal "Devices"

def slash : BitVec 8 := ascii '/'

namespace DeviceTree

variable (s : DeviceTree)

def setNode (a : ℕ) (n : TreeNode) : DeviceTree := { s with node := Function.update s.node a n }

def setChild (a : ℕ) (c : Option ℕ) : DeviceTree := s.setNode a { s.node a with child := c }

def setNext (a : ℕ) (c : Option ℕ) : DeviceTree := s.setNode a { s.node a with next := c }

def zeroNode : TreeNode := ⟨List.replicate maxDeviceNodeName 0, none, none⟩

def kfree (a : ℕ) : DeviceTree := { s with blocks := s.blocks.erase a }

/-- A new node with the name as `strncpy` and the NUL behind it leave it. -/
def newNode (a : ℕ) (name : List (BitVec 8)) : DeviceTree :=
  { s.setNode a { zeroNode with
      name := (strncpy (fun i => name.getD i 0) maxDeviceNodeName).set (maxDeviceNodeName - 1) 0 }
    with blocks := insert a s.blocks }

def initDeviceManager (block : Option ℕ) : Status × DeviceTree :=
  if s.root.isSome then (.ok, s)
  else
    match block with
    | none => (.outOfMemory, s)
    | some a => (.ok, { s.newNode a rootDeviceName with root := some a })

def makeDeviceNode (name : Option CString) (block : Option ℕ) : Option ℕ × DeviceTree :=
  match name with
  | none => (none, s)
  | some name =>
    if name.chars = [] then (none, s)
    else if maxDeviceNodeName < name.chars.length then (none, s)
    else
      match block with
      | none => (none, s)
      | some a => (some a, s.newNode a name.chars)

/-- The last of the siblings from `iter` on. -/
def lastFrom : ℕ → ℕ → Option ℕ
  | 0, _ => none
  | fuel + 1, iter =>
    match (s.node iter).next with
    | none => some iter
    | some next => lastFrom fuel next

def addDevice (parent : Option ℕ) (newNode : ℕ) : Option DeviceTree :=
  match parent.or s.root with
  | none => some s
  | some actualParent =>
    let s := s.setNext newNode none
    match (s.node actualParent).child with
    | none => some (s.setChild actualParent (some newNode))
    | some first => do
      let iter ← s.lastFrom (s.blocks.card + 1) first
      return s.setNext iter (some newNode)

def nameAt (a i : ℕ) : BitVec 8 := (s.node a).name.getD i 0

/-- The first of the siblings from `child` on that has the name. -/
def findChild (token : List (BitVec 8)) : ℕ → Option ℕ → Option (Option ℕ)
  | 0, _ => none
  | _ + 1, none => some none
  | fuel + 1, some child =>
    if strcmp (s.nameAt child) token = 0 then some (some child)
    else findChild token fuel (s.node child).next

/-- The size of the buffer for a token. -/
def tokenSize : ℕ := maxDeviceNodeName + 4

/-- The loop over the tokens of what is left of the path. Each round takes at least a character. -/
def walkFrom : ℕ → ℕ → List (BitVec 8) → Option (Option ℕ)
  | 0, _, _ => none
  | fuel + 1, node, start =>
    let start := start.dropWhile (· = slash)
    if start = [] then some (some node)
    else
      let token := start.takeWhile (· ≠ slash)
      if tokenSize ≤ token.length then some none
      else
        match s.findChild token (s.blocks.card + 1) (s.node node).child with
        | none => none
        | some none => some none
        | some (some child) => walkFrom fuel child (start.dropWhile (· ≠ slash))

/-- What is left of the path once the name of the root has been skipped, if it was there. -/
def skipRoot (root : ℕ) (start : List (BitVec 8)) : List (BitVec 8) :=
  let nextSlash := strchr start slash
  let firstLen := nextSlash.getD start.length
  if 0 < firstLen ∧ strncmp (fun i => start.getD i 0) (s.nameAt root) firstLen = 0
      ∧ s.nameAt root firstLen = 0 then
    match nextSlash with
    | some i => start.drop (i + 1)
    | none => start.drop firstLen
  else start

/-- There is no path in a tree without a root: its name would be read through a null pointer. -/
def getDeviceFromPath (path : CString) : Option (Option ℕ) :=
  match path.chars with
  | [] => some none
  | c :: start =>
    if c ≠ slash then some none
    else
      match s.root with
      | none => none
      | some root =>
        let start := s.skipRoot root start
        s.walkFrom (start.length + 1) root start

/-- The loop of `_FindDeviceParent` over the children of `node` from `curr` on. -/
def findParentFrom (dev : ℕ) : ℕ → ℕ → Option ℕ → Option (Option ℕ)
  | 0, _, _ => none
  | _ + 1, _, none => some none
  | fuel + 1, node, some curr =>
    if (s.node curr).child = some dev then some (some node)
    else
      match findParentFrom dev fuel curr (s.node curr).child with
      | none => none
      | some (some p) => some (some p)
      | some none => findParentFrom dev fuel node (s.node curr).next

def findDeviceParentOf (dev fuel : ℕ) : Option (Option ℕ) :=
  match s.root with
  | none => some none
  | some root => s.findParentFrom dev fuel root (s.node root).child

/-- The rest of the loop of `RemoveDevice` along the pointers, of which `prev` is the last with
`*pp` in its `next`. -/
def unlinkFrom (device : ℕ) : ℕ → ℕ → Option DeviceTree
  | 0, _ => none
  | fuel + 1, prev =>
    match (s.node prev).next with
    | none => some s
    | some c =>
      if c = device then some (s.setNext prev (s.node device).next) else unlinkFrom device fuel c

/-- The loop of `RemoveDevice` along the pointers from `&parent->child` on. -/
def unlink (device fuel parent : ℕ) : Option DeviceTree :=
  match (s.node parent).child with
  | none => some s
  | some c =>
    if c = device then some (s.setChild parent (s.node device).next)
    else s.unlinkFrom device fuel c

/-- What `RemoveDevice` does once the children are gone. -/
def dropDevice (device fuel : ℕ) : Option DeviceTree := do
  let parent ← s.findDeviceParentOf device fuel
  let s ← parent.elim (some s) (s.unlink device fuel)
  return (s.setNode device zeroNode).kfree device

end DeviceTree

/-- The loop of `RemoveDevice` over the children from `c` on. -/
def DeviceTree.removeFrom : ℕ → DeviceTree → Option ℕ → Option DeviceTree
  | 0, _, _ => none
  | _ + 1, s, none => some s
  | fuel + 1, s, some c =>
    let next := (s.node c).next
    if s.root = some c then removeFrom fuel s next
    else do
      let s ← removeFrom fuel s (s.node c).child
      let s ← s.dropDevice c fuel
      removeFrom fuel s next

def DeviceTree.removeDevice (fuel : ℕ) (s : DeviceTree) (device : Option ℕ) :
    Option (Status × DeviceTree) :=
  match device with
  | none => some (.badArgument, s)
  | some d =>
    if s.root = some d then some (.badArgument, s)
    else do
      let s ← removeFrom fuel s (s.node d).child
      let s ← s.dropDevice d fuel
      return (.ok, s)

end DragonWare
