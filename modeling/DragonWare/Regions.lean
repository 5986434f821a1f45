import DragonWare.Lib.BubbleSort

/-!
# Memory regions from the boot loader's map

`sys/mem/mm.c`. The kernel image and the boot modules are reserved chunks, rounded out to pages
and sorted by start. Each usable entry of the memory map, cut off below 4 GiB, is carved into the
gaps between the chunks, and the gaps go into a table of at most 64 regions. Map entries are
64-bit, regions and chunks 32-bit, and all arithmetic wraps.
-/

namespace DragonWare

/-- `FRAME_SIZE`, and `PAGE_SIZE` on this machine. -/
def frameSize : ℕ := 0x1000

def maxMemRegions : ℕ := 64

def maxReserved : ℕ := 64

inductive MemoryRegionType
  | available
  | reserved
  | acpiReclaimable
  | acpiNVS
  | badMemory
  | unknown (code : BitVec 32)
  deriving DecidableEq, Repr

def MemoryRegionType.ofCode (code : BitVec 32) : MemoryRegionType :=
  if code = 1 then .available
  else if code = 2 then .reserved
  else if code = 3 then .acpiReclaimable
  else if code = 4 then .acpiNVS
  else if code = 5 then .badMemory
  else .unknown code

structure MemoryRegion where
  available : Bool
  start : BitVec 32
  len : BitVec 32
  type : MemoryRegionType
  deriving DecidableEq, Repr

/-- The address past the region's last byte, as the code computes it. -/
def MemoryRegion.stop (r : MemoryRegion) : BitVec 32 := r.start + r.len

structure ReservedRegion where
  start : BitVec 32
  stop : BitVec 32
  deriving DecidableEq, Repr

structure MultibootModule where
  start : BitVec 32
  stop : BitVec 32
  deriving DecidableEq, Repr

structure MultibootMMapEntry where
  addr : BitVec 64
  len : BitVec 64
  type : BitVec 32
  deriving DecidableEq, Repr

/-- `REGION_AVAILABLE` or `REGION_ACPI_RECLAIMABLE`. -/
def MultibootMMapEntry.usable (e : MultibootMMapEntry) : Bool := e.type == 1 || e.type == 3

/-- What `AddMemoryRegions` reads: the flags, the modules listed at `mods_addr`, and the map at
`mmap_addr`, if there is one. -/
structure BootInfo where
  flags : BitVec 32
  mods : List MultibootModule
  mmap : Option (List MultibootMMapEntry)
  deriving DecidableEq, Repr

/-- The modules the boot loader says it has loaded: none without `MULTIBOOT_MODS`. -/
def BootInfo.modules (bi : BootInfo) : List MultibootModule :=
  if bi.flags &&& 0x8#32 = 0#32 then [] else bi.mods

/-- The kernel image, which the linker script places at 1 MiB and holds to 2 MiB. -/
structure KernelImage where
  size : BitVec 32
  size_le : size.toNat ≤ 0x200000

namespace KernelImage

def physStart (_ : KernelImage) : BitVec 32 := 0x100000#32

def physEnd (k : KernelImage) : BitVec 32 := 0x100000#32 + k.size

end KernelImage

def pageAlign (x : BitVec 32) : BitVec 32 := (x + 0xFFF#32) / 0x1000#32 * 0x1000#32

/-- `aligndown` to a page. -/
def alignDown (x : BitVec 32) : BitVec 32 := x / 0x1000#32 * 0x1000#32

/-- `SortReservedChunks`: the inner loop runs from the last chunk down, the outer one from the
second chunk up. -/
def sortReservedChunks (chunks : List ReservedRegion) : List ReservedRegion :=
  BubbleSort.bubbleSort (fun c => c.start.toNat) (chunks.length - 1) chunks

/-- The reserved chunks: the kernel, then modules until the array is full. -/
def reservedChunks (k : KernelImage) (bi : BootInfo) : List ReservedRegion :=
  ⟨alignDown k.physStart, pageAlign k.physEnd⟩ ::
    (bi.modules.take (maxReserved - 1)).map fun m => ⟨alignDown m.start, pageAlign m.stop⟩

/-- `mem_regions[mem_regions_idx++] = mm`, when there is room. -/
def pushRegion (table : List MemoryRegion) (r : MemoryRegion) : List MemoryRegion :=
  if table.length < maxMemRegions then table ++ [r] else table

/-- The loop over the reserved chunks for one map entry. It returns `curr_start` and the table. -/
def carve (type : MemoryRegionType) (regionEnd : BitVec 32) :
    List ReservedRegion → BitVec 32 → List MemoryRegion → BitVec 32 × List MemoryRegion
  | [], curr, table => (curr, table)
  | c :: cs, curr, table =>
    if c.stop ≤ curr then carve type regionEnd cs curr table
    else if regionEnd ≤ c.start then (curr, table)
    else
      let table' := if curr < c.start then pushRegion table ⟨true, curr, c.start - curr, type⟩
        else table
      carve type regionEnd cs (if curr < c.stop then c.stop else curr) table'

/-- The last byte of an entry, cut off below `PTR32_MAX_ADDRESSABLE`. -/
def MultibootMMapEntry.lastByte (e : MultibootMMapEntry) : BitVec 64 :=
  if 0xFFFFFFFF#64 ≤ e.addr + e.len - 1#64 then 0xFFFFFFFE#64 else e.addr + e.len - 1#64

/-- What one addressable entry adds to the table. -/
def addEntry (chunks : List ReservedRegion) (table : List MemoryRegion)
    (e : MultibootMMapEntry) : List MemoryRegion :=
  if e.usable then
    let type := MemoryRegionType.ofCode e.type
    let regionEnd := e.lastByte.setWidth 32
    let r := carve type regionEnd chunks (e.addr.setWidth 32) table
    if r.1 < regionEnd then pushRegion r.2 ⟨true, r.1, regionEnd - r.1, type⟩ else r.2
  else table

def addEntries (chunks : List ReservedRegion) :
    List MultibootMMapEntry → List MemoryRegion → List MemoryRegion
  | [], table => table
  | e :: es, table =>
    if 0xFFFFFFFF#64 ≤ e.addr then addEntries chunks es table
    else
      let table' := addEntry chunks table e
      if maxMemRegions ≤ table'.length then table' else addEntries chunks es table'

/-- `AddMemoryRegions`: the region table, or a stop when the boot loader gave no map. -/
def addMemoryRegions (k : KernelImage) (bi : BootInfo) : Option (List MemoryRegion) :=
  bi.mmap.map fun entries => addEntries (sortReservedChunks (reservedChunks k bi)) entries []

end DragonWare
