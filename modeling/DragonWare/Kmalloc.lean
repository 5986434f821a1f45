import DragonWare.Lib.Memory
import DragonWare.Regions

/-!
# The slab allocator

`sys/lib/kmalloc.c`. A request of at most 1024 bytes takes an object of the next power of two from a
slab, a page with a header and a row of objects whose free ones are linked through their own first
bytes. A cache is the list of its slabs in the order of their `next` pointers. Where the pages come
from is a parameter (`PageSource`).
-/

namespace DragonWare

open Function Memory

def slabTypesMax : ℕ := 8

def defaultObjAlign : ℕ := 16

def slabSizes : List ℕ := [8, 16, 32, 64, 128, 256, 512, 1024]

/-- `sizeof(Slab)`: five words. -/
def sizeofSlab : ℕ := 20

/-- `alignup`, in the 32 bits of `Size`. -/
def alignUp (x align : ℕ) : ℕ := (x + (align - 1)) % 2 ^ 32 / align * align

/-- A slab's header, its `next` pointer apart. -/
structure Slab where
  freeList : ℕ
  objstart : ℕ
  nObjects : ℕ
  objsize : ℕ
  deriving DecidableEq, Repr

/-- The static state of the allocator with the memory it hands out. -/
structure SlabCaches where
  initialized : Bool
  slabs : ℕ → List ℕ
  objsize : ℕ → ℕ
  header : ℕ → Slab
  mem : Mem

structure PageSource (π : Type*) where
  allocateVirtualPage : π → Option (ℕ × π)
  freeVirtualPage : ℕ → π → Option π
  hugeAllocation : ℕ → Mem × π → Option (ℕ × Mem × π)

def SlabCaches.initSlabCaches (c : SlabCaches) : SlabCaches :=
  { c with
    initialized := true
    slabs := fun i => if i < slabTypesMax then [] else c.slabs i
    objsize := fun i => if i < slabTypesMax then slabSizes.getD i 0 else c.objsize i }

/-- The index of the cache, if there is one. -/
def getSlabCacheForSize (size : ℕ) : Option ℕ := slabSizes.findIdx? fun s => size ≤ s

/-- All slabs, in the order `kfree` looks at them. -/
def SlabCaches.allSlabs (c : SlabCaches) : List ℕ := (List.range slabTypesMax).flatMap c.slabs

/-- Unlink and return the first free object of the slab at `s`. -/
def SlabCaches.takeObject (c : SlabCaches) (s : ℕ) : ℕ × SlabCaches :=
  let obj := (c.header s).freeList
  (obj, { c with
    header := update c.header s { c.header s with freeList := readPtr c.mem obj } })

/-- Link `ptr` in front of the free objects of the slab at `s`. -/
def SlabCaches.putObject (c : SlabCaches) (s ptr : ℕ) : SlabCaches :=
  { c with
    mem := writePtr c.mem ptr (c.header s).freeList
    header := update c.header s { c.header s with freeList := ptr } }

/-- `ptr` is between the first object's start and the last one's end. -/
def Slab.contains (h : Slab) (ptr : ℕ) : Bool :=
  h.objstart ≤ ptr && ptr < h.objstart + h.nObjects * h.objsize

section Calls

variable {π : Type*} (src : PageSource π)

def createSlab (objsize : ℕ) (s : SlabCaches × π) : Option (ℕ × SlabCaches × π) :=
  let objsize := if objsize < 4 then 4 else objsize
  (src.allocateVirtualPage s.2).bind fun r =>
    let slab := r.1
    if slab = 0 then some (0, s.1, r.2)
    else
      let aligned := alignUp (slab + sizeofSlab) defaultObjAlign
      let usable := frameSize - (aligned - slab)
      let nObjects := usable / objsize
      if nObjects = 0 then (src.freeVirtualPage slab r.2).map fun pages => (0, s.1, pages)
      else some (slab,
        { s.1 with
          header := update s.1.header slab ⟨aligned, aligned, nObjects, objsize⟩
          mem := thread objsize (nObjects - 1) aligned s.1.mem }, r.2)

def kmalloc (size : ℕ) (s : SlabCaches × π) : Option (ℕ × SlabCaches × π) :=
  if size = 0 then some (0, s)
  else if slabSizes.getLastD 0 + 1 ≤ size ∧ size ≤ frameSize then
    (src.allocateVirtualPage s.2).map fun r => (r.1, s.1, r.2)
  else if frameSize < size then
    (src.hugeAllocation (alignUp size frameSize / frameSize) (s.1.mem, s.2)).map fun r =>
      (r.1, { s.1 with mem := r.2.1 }, r.2.2)
  else
    let c := if s.1.initialized then s.1 else s.1.initSlabCaches
    (getSlabCacheForSize size).bind fun i =>
      match (c.slabs i).find? fun p => (c.header p).freeList ≠ 0 with
      | some p =>
        let r := c.takeObject p
        some (r.1, r.2, s.2)
      | none =>
        (createSlab src (c.objsize i) (c, s.2)).map fun r =>
          if r.1 = 0 then r
          else
            let c := r.2.1
            let t := { c with slabs := update c.slabs i (r.1 :: c.slabs i) }.takeObject r.1
            (t.1, t.2, r.2.2)

def kfree (ptr : ℕ) (s : SlabCaches × π) : Option (SlabCaches × π) :=
  if ptr = 0 then some s
  else
    match s.1.allSlabs.find? fun p => (s.1.header p).contains ptr with
    | some p =>
      -- a pointer into the middle of an object is logged and left alone
      if (ptr - (s.1.header p).objstart) % (s.1.header p).objsize ≠ 0 then some s
      else some (s.1.putObject p ptr, s.2)
    | none => (src.freeVirtualPage ptr s.2).map fun pages => (s.1, pages)

end Calls

/-- The state at boot: static storage is zero. -/
def SlabCaches.blank (mem : Mem) : SlabCaches :=
  ⟨false, fun _ => [], fun _ => 0, fun _ => ⟨0, 0, 0, 0⟩, mem⟩

section Fresh

/-- The one call to `AllocateVirtualPage` that a request may make returns `page`. -/
def onePage (page : ℕ) : PageSource Unit :=
  ⟨fun _ => some (page, ()), fun _ _ => none, fun _ _ => none⟩

/-- A page that is not in use, below the last page of the address space. -/
def SlabCaches.FreshPage (c : SlabCaches) (page : ℕ) : Prop :=
  page ≠ 0 ∧ page % frameSize = 0 ∧ page + frameSize < 2 ^ 32 ∧ page ∉ c.allSlabs

instance (c : SlabCaches) (page : ℕ) : Decidable (c.FreshPage page) := by
  unfold SlabCaches.FreshPage
  infer_instance

inductive SlabOp
  | kmalloc (size page : ℕ)
  | kfree (ptr : ℕ)
  | write (ptr k : ℕ) (v : BitVec 8)
  deriving DecidableEq, Repr

/-- One call, or one store by the owner of a block, with the blocks handed out and their sizes.
`page` is null or fresh. -/
def slabStep (s : SlabCaches × List (ℕ × ℕ)) : SlabOp → Option (SlabCaches × List (ℕ × ℕ))
  | .kmalloc size page =>
    if 0 < size ∧ size ≤ 1024 ∧ (page = 0 ∨ s.1.FreshPage page) then
      (DragonWare.kmalloc (onePage page) size (s.1, ())).map fun r =>
        (r.2.1, if r.1 = 0 then s.2 else (r.1, size) :: s.2)
    else none
  | .kfree ptr =>
    if ptr ∈ s.2.map Prod.fst then
      (DragonWare.kfree (onePage 0) ptr (s.1, ())).map fun r =>
        (r.1, s.2.filter fun b => b.1 ≠ ptr)
    else none
  | .write ptr k v =>
    if ∃ b ∈ s.2, b.1 = ptr ∧ k < b.2 then
      some ({ s.1 with mem := update s.1.mem (ptr + k) v }, s.2)
    else none

end Fresh

end DragonWare
