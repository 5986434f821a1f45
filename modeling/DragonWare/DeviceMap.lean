import DragonWare.Section

/-!
# `DEVICE_MAP`

The request of `HandleDeviceObjectRequest` that maps the memory of a device, over any address space.
-/

namespace DragonWare

/-- What requests read of a device: `attr`. -/
structure DeviceManagerNode where
  claimed : Bool
  mmioAddr : BitVec 64
  mmioLen : BitVec 32
  deriving DecidableEq, Repr

/-- The pages of the range that could be mapped are counted. -/
def mapMemoryRange {σ : Type} (P : Paging σ) (phys virt : BitVec 32) (flags : BitVec 32) :
    ℕ → ℕ → σ → ℕ × σ
  | 0, _, mem => (0, mem)
  | left + 1, i, mem =>
    let offset := BitVec.ofNat 32 (i * frameSize)
    let (st, mem) := P.mapSinglePage (phys + offset).toNat (virt + offset).toNat flags mem
    let (n, mem) := mapMemoryRange P phys virt flags left (i + 1) mem
    (if st = .ok then n + 1 else n, mem)

/-- `PAGE_PRESENT | PAGE_RW | PAGE_USER | PAGE_WRITETHROUGH | PAGE_CACHE_DISABLED`. -/
def deviceFlags : BitVec 32 :=
  pagePresent ||| pageRW ||| pageUser ||| pageWritethrough ||| pageCacheDisabled

def DeviceManagerNode.nPagesMap (dev : DeviceManagerNode) : ℕ :=
  (pageAlign dev.mmioLen).toNat / frameSize

/-- The request is answered before a page is touched. -/
def DeviceManagerNode.refuses (dev : DeviceManagerNode) (mapaddr : BitVec 32) : Option Status :=
  if !dev.claimed then some .retry
  else if 0xFFFFFFFF ≤ dev.mmioAddr.toNat then some .unsupported
  else if kernelVMBase ≤ mapaddr.toNat ∨ kernelVMBase - mapaddr.toNat < dev.mmioLen.toNat then
    some .badArgument
  else none

def deviceMap {σ : Type} (P : Paging σ) (dev : DeviceManagerNode) (mapaddr : BitVec 32) (mem : σ) :
    Status × σ :=
  match dev.refuses mapaddr with
  | some st => (st, mem)
  | none =>
    let (mapped, mem) := mapMemoryRange P (dev.mmioAddr.setWidth 32) mapaddr deviceFlags
      dev.nPagesMap 0 mem
    (if mapped ≠ dev.nPagesMap then .bad else .ok, mem)

end DragonWare
