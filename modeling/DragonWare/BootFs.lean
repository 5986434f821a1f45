import DragonWare.Lib.Memory
import DragonWare.Paging

/-!
# File reads of the boot loader

`bootmanager/core/fs`: the FAT32 driver, the ISO9660 driver and `ReadFromFile` above them. What a
read of a sector leaves in the buffer is a parameter (`Disks`), with a status the caller may or may
not look at. Positions and counts are natural numbers that wrap where the code adds to them.
-/

namespace DragonWare

open Memory

def sectorSize : ℕ := 512

def cdSectorSize : ℕ := 2048

/-- The status of a read and what it leaves in the buffer. -/
structure DiskRead where
  status : Status
  bytes : Mem

/-- `ReadFromDisk` of one sector, by drive and LBA. -/
abbrev Disks := BitVec 32 → ℕ → DiskRead

/-- The drive a partition belongs to and its first sector. -/
structure Partition where
  driveIndex : BitVec 32
  lbaStart : BitVec 32
  deriving DecidableEq, Repr

structure FAT32FileData where
  firstCluster : BitVec 32
  part : Partition
  deriving DecidableEq, Repr

structure DriverFileData where
  startingLba : BitVec 32
  size : ℕ
  volume : Partition
  deriving DecidableEq, Repr

/-- The driver a file's type selects, with its data. -/
inductive FileData
  | empty
  | fat32 (data : FAT32FileData)
  | iso9660 (data : DriverFileData)
  deriving DecidableEq, Repr

structure File where
  internal : FileData
  cursor : ℕ
  filesize : ℕ
  ended : Bool
  deriving DecidableEq, Repr

/-- A read in progress: the file's cursor, the bytes read so far, and the caller's buffer. -/
structure FileCopy where
  cursor : ℕ
  bytesRead : ℕ
  output : Mem

/-- `memcpy` of `n` bytes to the end of what has been read. -/
def FileCopy.append (st : FileCopy) (n : ℕ) (src : Mem) : FileCopy :=
  ⟨(st.cursor + n) % 2 ^ 32, st.bytesRead + n, blit st.output st.bytesRead n src⟩

/-- A count as the `int` that is returned. -/
def returnInt (n : ℕ) : ℤ := (BitVec.ofNat 32 n).toInt

def fat32EOF : BitVec 32 := 0x0FFFFFF8#32

structure BIOSParameterBlock where
  bytesPerSector : BitVec 16
  sectorsPerCluster : BitVec 8
  reservedSectors : BitVec 16
  nFats : BitVec 8
  sectorsPerFat : BitVec 32
  deriving DecidableEq, Repr

def BIOSParameterBlock.ofBytes (b : Mem) : BIOSParameterBlock :=
  ⟨read16 b 11, b 13, read16 b 14, b 16, read32 b 36⟩

/-- `bytes_per_cluster` of `ReadFile_FAT32`. -/
def BIOSParameterBlock.bytesPerCluster (bpb : BIOSParameterBlock) : ℕ :=
  bpb.sectorsPerCluster.toNat * sectorSize

def findFAT (p : Partition) (bpb : BIOSParameterBlock) : BitVec 32 :=
  p.lbaStart + bpb.reservedSectors.setWidth 32

def findDataStart (p : Partition) (bpb : BIOSParameterBlock) : BitVec 32 :=
  findFAT p bpb + bpb.nFats.setWidth 32 * bpb.sectorsPerFat

def clusterToLBA (p : Partition) (bpb : BIOSParameterBlock) (c : BitVec 32) : BitVec 32 :=
  findDataStart p bpb + (c - 2#32) * bpb.sectorsPerCluster.setWidth 32

/-- The status of the read is not looked at. -/
def readFAT32Entry (disks : Disks) (p : Partition) (bpb : BIOSParameterBlock)
    (cluster : BitVec 32) : BitVec 32 :=
  let fatOffset := cluster * 4#32
  let fatSector := findFAT p bpb + fatOffset / 512#32
  let entOffset := fatOffset % 512#32
  read32 (disks p.driveIndex fatSector.toNat).bytes entOffset.toNat &&& 0x0FFFFFFF#32

/-- The clusters before the cursor; there may not be as many. -/
def skipClusters (disks : Disks) (p : Partition) (bpb : BIOSParameterBlock) :
    ℕ → BitVec 32 → Option (BitVec 32)
  | 0, cluster => some cluster
  | k + 1, cluster =>
    let cluster := readFAT32Entry disks p bpb cluster
    if fat32EOF ≤ cluster then none else skipClusters disks p bpb k cluster

/-- The loop over the `k` sectors of a cluster from `s` on, and whether all reads succeeded. -/
def readSectors (disks : Disks) (p : Partition) (lba : BitVec 32) (n : ℕ) :
    (k s offset : ℕ) → FileCopy → Bool × FileCopy
  | 0, _, _, st => (true, st)
  | k + 1, s, offset, st =>
    if st.bytesRead < n then
      let r := disks p.driveIndex (lba + BitVec.ofNat 32 s).toNat
      if r.status ≠ .ok then (false, st)
      else
        let canRead := sectorSize - offset
        let toCopy := if n - st.bytesRead < canRead then n - st.bytesRead else canRead
        readSectors disks p lba n k (s + 1) 0 (st.append toCopy fun i => r.bytes (offset + i))
    else (true, st)

/-- The loop over the clusters. Each round reads a byte at least, so `n` rounds are enough. -/
def readClusters (disks : Disks) (p : Partition) (bpb : BIOSParameterBlock) (n : ℕ) :
    ℕ → BitVec 32 → FileCopy → Bool × FileCopy
  | 0, _, st => (true, st)
  | fuel + 1, cluster, st =>
    if st.bytesRead < n ∧ cluster < fat32EOF then
      let lba := clusterToLBA p bpb cluster
      let offsetInCluster := st.cursor % bpb.bytesPerCluster
      let sectorInCluster := offsetInCluster / sectorSize
      let r := readSectors disks p lba n (bpb.sectorsPerCluster.toNat - sectorInCluster)
        sectorInCluster (offsetInCluster % sectorSize) st
      if r.1 then readClusters disks p bpb n fuel (readFAT32Entry disks p bpb cluster) r.2
      else r
    else (true, st)

/-- The value returned, the file and the buffer, if a cluster has sectors: else the division traps.
-/
def readFileFAT32 (disks : Disks) (data : FAT32FileData) (f : File) (nBytes : ℕ) (output : Mem) :
    Option (ℤ × File × Mem) :=
  let boot := disks data.part.driveIndex data.part.lbaStart.toNat
  if boot.status ≠ .ok then some (-1, f, output)
  else
    let bpb := BIOSParameterBlock.ofBytes boot.bytes
    if bpb.bytesPerCluster = 0 then none
    else
      match skipClusters disks data.part bpb (f.cursor / bpb.bytesPerCluster)
          data.firstCluster with
      | none => some (0, f, output)
      | some cluster =>
        let r := readClusters disks data.part bpb nBytes nBytes cluster ⟨f.cursor, 0, output⟩
        some (if r.1 then returnInt r.2.bytesRead else -1, { f with cursor := r.2.cursor },
          r.2.output)

/-- The loop of `ReadFile_ISO9660`, which ends early when a sector cannot be read. -/
def readExtent (disks : Disks) (data : DriverFileData) (bytesToRead : ℕ) :
    ℕ → FileCopy → FileCopy
  | 0, st => st
  | fuel + 1, st =>
    if st.bytesRead < bytesToRead then
      let offsetInSector := st.cursor % cdSectorSize
      let r := disks data.volume.driveIndex
        (data.startingLba + BitVec.ofNat 32 (st.cursor / cdSectorSize)).toNat
      if r.status ≠ .ok then st
      else
        let bytesLeftInSector := cdSectorSize - offsetInSector
        let bytesLeftToRead := bytesToRead - st.bytesRead
        let chunk := if bytesLeftToRead < bytesLeftInSector then bytesLeftToRead
          else bytesLeftInSector
        readExtent disks data bytesToRead fuel
          (st.append chunk fun i => r.bytes (offsetInSector + i))
    else st

/-- `fdata->size - f->cursor` wraps when the cursor is past the end. -/
def readFileISO9660 (disks : Disks) (data : DriverFileData) (f : File) (nBytes : ℕ)
    (output : Mem) : ℤ × File × Mem :=
  if f.ended then (0, f, output)
  else
    let availableBytes := (data.size + (2 ^ 32 - f.cursor)) % 2 ^ 32
    let bytesToRead := if availableBytes < nBytes then availableBytes else nBytes
    let st := readExtent disks data bytesToRead bytesToRead ⟨f.cursor, 0, output⟩
    (returnInt st.bytesRead,
      { f with cursor := st.cursor, ended := decide (data.size ≤ st.cursor) }, st.output)

/-- The count returned, the file and the buffer. Another count than was asked for is a fatal error.
-/
def readFromFile (disks : Disks) (f : File) (output : Mem) (nBytes : ℕ) :
    Option (ℕ × File × Mem) :=
  match f.internal with
  | .fat32 data =>
    (readFileFAT32 disks data f nBytes output).bind fun r =>
      if r.1 % 2 ^ 32 = nBytes then some (nBytes, r.2) else none
  | .iso9660 data =>
    let r := readFileISO9660 disks data f nBytes output
    if r.1 % 2 ^ 32 = nBytes then some (nBytes, r.2) else none
  | .empty => some (0, f, output)

end DragonWare
