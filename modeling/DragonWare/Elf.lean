import DragonWare.BootFs
import DragonWare.Highmem

/-!
# Loading the kernel

`bootmanager/core/elfldr/elfloader.c`. The loader runs without paging, so memory is the bytes of the
32-bit physical addresses; what it keeps in its own memory is kept apart from them. How a file is
read is a parameter.
-/

namespace DragonWare

open Memory

abbrev PhysMem := BitVec 32 → BitVec 8

def PhysMem.write (m : PhysMem) (p n : BitVec 32) (src : Mem) : PhysMem := fun a =>
  if a - p < n then src (a - p).toNat else m a

/-- `ReadFromFile`: the count returned, the file, and the bytes delivered, unless there is a fatal
error. -/
abbrev FileReader := File → ℕ → Option (ℕ × File × Mem)

structure ELFHeader where
  magic0x7f : BitVec 8
  magicAscii : List (BitVec 8)
  bits : BitVec 8
  endianness : BitVec 8
  abi : BitVec 8
  isa : BitVec 16
  entry : BitVec 32
  phtOff : BitVec 32
  phtEntrySize : BitVec 16
  phtNEntries : BitVec 16
  deriving DecidableEq, Repr

def elfHeaderSize : ℕ := 52

def ELFHeader.ofBytes (b : Mem) : ELFHeader :=
  ⟨b 0, [b 1, b 2, b 3], b 4, b 5, b 7, read16 b 18, read32 b 24, read32 b 28, read16 b 42,
    read16 b 44⟩

structure ELFProgramSegment where
  type : BitVec 32
  offset : BitVec 32
  vaddr : BitVec 32
  paddr : BitVec 32
  size : BitVec 32
  sizeMem : BitVec 32
  flags : BitVec 32
  deriving DecidableEq, Repr

def elfProgramSegmentSize : ℕ := 32

def ELFProgramSegment.ofBytes (b : Mem) : ELFProgramSegment :=
  ⟨read32 b 0, read32 b 4, read32 b 8, read32 b 12, read32 b 16, read32 b 20, read32 b 24⟩

def segmentLoad : BitVec 32 := 1

def elfSegmentExecutable : ℕ := 0x01

/-- `IS_SET`: `n` is the number of a bit. -/
def isSet (x : BitVec 32) (n : ℕ) : Bool := x &&& (1#32 <<< n) ≠ 0#32

def isValidELFFile (h : ELFHeader) : Bool :=
  h.magic0x7f == 0x7F && h.magicAscii == [0x45, 0x4C, 0x46] && h.abi == 0 && h.isa == 0x03 &&
    h.endianness == 1 && h.bits == 1

/-- The file, memory, `segments_loaded`, `virt_offset` and `highest_addr_used`. -/
structure ElfLoad where
  file : File
  mem : PhysMem
  segmentsLoaded : ℕ
  virtOffset : BitVec 32
  highestAddrUsed : BitVec 32

/-- The position of a program header in the file. -/
def ELFHeader.segmentCursor (h : ELFHeader) (i : ℕ) : BitVec 32 :=
  h.phtOff + BitVec.ofNat 32 i * h.phtEntrySize.setWidth 32

/-- One round of the loop over the program headers. -/
def loadSegment (read : FileReader) (header : ELFHeader) (i : ℕ) (st : ElfLoad) :
    Option (Status × ElfLoad) := do
  let (_, file, b) ← read { st.file with cursor := (header.segmentCursor i).toNat }
    elfProgramSegmentSize
  let seg := ELFProgramSegment.ofBytes b
  if seg.type ≠ segmentLoad then return (.ok, { st with file })
  let mem := st.mem.write seg.paddr seg.sizeMem fun _ => 0
  let (n, file, b) ← read { file with cursor := seg.offset.toNat } seg.size.toNat
  let mem := mem.write seg.paddr (BitVec.ofNat 32 n) b
  let st := { st with file, mem, segmentsLoaded := st.segmentsLoaded + 1 }
  if n ≠ seg.size.toNat then return (.bad, st)
  let segEnd := seg.paddr + seg.sizeMem
  return (.ok, { st with
    virtOffset := if isSet seg.flags elfSegmentExecutable then seg.vaddr - seg.paddr
      else st.virtOffset
    highestAddrUsed := if st.highestAddrUsed < segEnd then segEnd else st.highestAddrUsed })

/-- The loop, over the numbers of the program headers. -/
def loadSegments (read : FileReader) (header : ELFHeader) :
    List ℕ → ElfLoad → Option (Status × ElfLoad)
  | [], st => some (.ok, st)
  | i :: is, st => do
    let (status, st) ← loadSegment read header i st
    if status ≠ .ok then return (status, st)
    loadSegments read header is st

/-- What `ReadELFToMemory` leaves: the status, the entry point, memory and the pool. -/
structure ElfResult where
  status : Status
  entry : BitVec 32
  mem : PhysMem
  high : HighMem

/-- There is no result after a fatal error: of the reader, or for a file that is no executable or
has no loadable segments. -/
def readELFToMemory (read : FileReader) (file : File) (entry : BitVec 32) (mem : PhysMem)
    (high : HighMem) : Option ElfResult := do
  let (_, file, b) ← read { file with cursor := 0, ended := false } elfHeaderSize
  let header := ELFHeader.ofBytes b
  if !isValidELFFile header then none
  else
    let (status, st) ← loadSegments read header (List.range header.phtNEntries.toNat)
      ⟨file, mem, 0, 0, 0⟩
    if status ≠ .ok then return ⟨status, entry, st.mem, high⟩
    else if st.segmentsLoaded = 0 then none
    else return ⟨.ok, header.entry - st.virtOffset, st.mem,
      allocHighBreakAt (pageAlign st.highestAddrUsed) 0 high⟩

end DragonWare
