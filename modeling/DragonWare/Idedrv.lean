import Mathlib

/-!
# The IDE driver

`base/idedrv/rw.c`. Each bus has one set of registers, to which the driver writes the drive and the
sector before it issues a command. What the drive answers, the status bytes and what a failed write
leaves in the sector, is an argument. The cache is a ring of sixteen sectors, under the arguments
they were read with.
-/

namespace DragonWare

open Function

/-- The words of a sector, as they come through the data port. -/
abbrev Sector := Fin 256 → BitVec 16

/-- `IDEDRVStatusReply`, as far as `ReadFromDisk` and `WriteToDisk` return it. -/
inductive IDEDRVStatusReply
  | success
  | hardwareFailure
  | bugCheck
  deriving DecidableEq, Repr

/-- The registers of a bus that select a sector. -/
structure TaskFile where
  seccount : BitVec 8
  lba0 : BitVec 8
  lba1 : BitVec 8
  lba2 : BitVec 8
  hddevsel : BitVec 8
  deriving DecidableEq, Repr

namespace TaskFile

/-- The drive that takes the next command: whether it is the second one on the bus. -/
def slave (t : TaskFile) : Bool := t.hddevsel.getLsbD 4

def sector (t : TaskFile) : BitVec 28 := t.hddevsel.setWidth 4 ++ t.lba2 ++ t.lba1 ++ t.lba0

end TaskFile

/-- The bus, the drive on it and the number of the sector. -/
abbrev SectorAddr := Bool × Bool × BitVec 28

structure CachedSector where
  valid : Bool
  bus : BitVec 32
  master : BitVec 32
  lba : BitVec 64
  data : Sector

def CachedSector.zero : CachedSector := ⟨false, 0, 0, 0, fun _ => 0⟩

/-- The registers, the sectors of the drives, the cache and `n_cache_stored`. -/
structure Ide where
  regs : Bool → TaskFile
  sectors : SectorAddr → Sector
  cache : Fin 16 → CachedSector
  nCacheStored : Fin 16

def Ide.boot (regs : Bool → TaskFile) (sectors : SectorAddr → Sector) : Ide :=
  ⟨regs, sectors, fun _ => .zero, 0⟩

section Cache

/-- Whether the entry is for these arguments. -/
def CachedSector.isFor (e : CachedSector) (bus master : BitVec 32) (sector : BitVec 64) : Bool :=
  e.lba == sector && e.bus == bus && e.master == master

def loadCache (bus master : BitVec 32) (lba : BitVec 64) (data : Sector) (s : Ide) : Ide :=
  { s with
    cache := update s.cache s.nCacheStored ⟨true, bus, master, lba, data⟩
    nCacheStored := if h : s.nCacheStored.val + 1 < 16 then ⟨s.nCacheStored.val + 1, h⟩ else 0 }

/-- The position of the first entry. -/
def checkCacheForSector (cache : Fin 16 → CachedSector) (bus master : BitVec 32)
    (sector : BitVec 64) : Option (Fin 16) :=
  (List.finRange 16).find? fun i => (cache i).isFor bus master sector && (cache i).valid

def readFromCache (cache : Fin 16 → CachedSector) (i : Fin 16) : Option Sector :=
  if (cache i).valid then some (cache i).data else none

def invalidateCache (cache : Fin 16 → CachedSector) (bus master : BitVec 32) (sector : BitVec 64) :
    Fin 16 → CachedSector :=
  fun i => if (cache i).isFor bus master sector then .zero else cache i

end Cache

section Ports

/-- The ports of the secondary bus are used for every other number than zero. -/
def secondary (bus : BitVec 32) : Bool := bus ≠ 0

def selectDevice (lba bus master : BitVec 32) (regs : Bool → TaskFile) : Bool → TaskFile :=
  update regs (secondary bus) { regs (secondary bus) with
    hddevsel := (0xE0#32 ||| (master <<< 4) ||| ((lba >>> 24) &&& 0x0F#32)).setWidth 8 }

def sendSectorCount (bus : BitVec 32) (regs : Bool → TaskFile) : Bool → TaskFile :=
  update regs (secondary bus) { regs (secondary bus) with seccount := 1 }

def submitLBA (bus lba : BitVec 32) (regs : Bool → TaskFile) : Bool → TaskFile :=
  update regs (secondary bus) { regs (secondary bus) with
    lba0 := lba.setWidth 8
    lba1 := (lba >>> 8).setWidth 8
    lba2 := (lba >>> 16).setWidth 8 }

/-- `!!x`. -/
def toBit (x : BitVec 32) : BitVec 32 := if x ≠ 0 then 1 else 0

def prepareDriveForRW (bus master lba : BitVec 32) (regs : Bool → TaskFile) : Bool → TaskFile :=
  let lba := lba &&& 0x0FFFFFFF#32
  let bus := toBit bus
  let master := toBit master
  submitLBA bus lba (sendSectorCount bus (selectDevice lba bus master regs))

/-- The sector that a command on the bus addresses. -/
def addressed (bus : BitVec 32) (regs : Bool → TaskFile) : SectorAddr :=
  (secondary bus, (regs (secondary bus)).slave, (regs (secondary bus)).sector)

/-- `ATA_STATUS_ERROR` or `ATA_STATUS_DF`. -/
def checkForError (status : BitVec 8) : Bool := status &&& 0x21#8 ≠ 0

end Ports

/-- `status` is what the drive answers, should it be asked. Returns the bytes that are stored in the
buffer, if any. -/
def readFromDisk (bus master lba : BitVec 32) (status : BitVec 8) (s : Ide) :
    IDEDRVStatusReply × Option Sector × Ide :=
  match checkCacheForSector s.cache bus master (lba.setWidth 64) with
  | some pos => (.success, readFromCache s.cache pos, s)
  | none =>
    let s := { s with regs := prepareDriveForRW bus master lba s.regs }
    if checkForError status then (.bugCheck, none, s)
    else
      let buf := s.sectors (addressed bus s.regs)
      (.success, some buf, loadCache bus master (lba.setWidth 64) buf s)

/-- What the drive answers to a write: the status after the command and after the flush, and what
the sector holds if one of them is an error. -/
structure WriteReply where
  command : BitVec 8
  flush : BitVec 8
  left : Sector

def writeToDisk (bus master lba : BitVec 32) (buf : Sector) (reply : WriteReply) (s : Ide) :
    IDEDRVStatusReply × Ide :=
  let s := { s with regs := prepareDriveForRW bus master lba s.regs }
  let sector := addressed bus s.regs
  if checkForError reply.command then
    (.bugCheck, { s with sectors := update s.sectors sector reply.left })
  else if checkForError reply.flush then
    (.hardwareFailure, { s with sectors := update s.sectors sector reply.left })
  else
    (.success, { s with
      sectors := update s.sectors sector buf
      cache := invalidateCache s.cache bus master (lba.setWidth 64) })

end DragonWare
