import DragonWare.Process

/-!
# Sections

`sys/iomgr/section.c`, and `FindFreePageRange` of `sys/ddk/ia32/vmm.c`. A section works on the
current address space and the frame manager through the functions of `Paging`; `Vm.paging` are those
of the page tables.
-/

namespace DragonWare

/-- What a section needs of the state `σ`. A function without a result stops the machine. -/
structure Paging (σ : Type) where
  isVirtualPageMapped : ℕ → σ → Bool
  mapSinglePage : ℕ → ℕ → BitVec 32 → σ → Status × σ
  unmapSinglePage : ℕ → σ → Option σ
  allocateFrame : σ → ℕ × σ
  freeFrame : ℕ → σ → Option σ
  zeroPage : ℕ → σ → Option σ

def Vm.paging (debug : Bool) : Paging Vm where
  isVirtualPageMapped addr v := v.mmu.isVirtualPageMapped addr
  mapSinglePage phys virt flags v :=
    let (st, mmu, frames) := Mmu.mapSinglePage phys virt flags v.mmu v.frames
    (st, { v with mmu, frames })
  unmapSinglePage virt v := (v.mmu.unmapSinglePage debug virt).map fun mmu => { v with mmu }
  allocateFrame v := (v.frames.allocateFrame.1, { v with frames := v.frames.allocateFrame.2 })
  freeFrame a v := (v.frames.freeFrame debug a).map fun frames => { v with frames }
  zeroPage addr v := v.zeroPage addr

def pageWritethrough : BitVec 32 := 0x008#32
def pageCacheDisabled : BitVec 32 := 0x010#32

def maxSectionFrames : ℕ := 500

def sectionWriteable : BitVec 32 := 0x01#32
def sectionCacheable : BitVec 32 := 0x04#32

structure Section where
  addressSpace : ℕ
  nPages : ℕ
  permissions : BitVec 32
  vmbase : ℕ
  physframes : ℕ → ℕ
  refcnt : ℕ

/-- The scan of `FindFreePageRange` from `addr` on, over the pages that are left. -/
def scanPages (mapped : ℕ → Bool) (nPages : ℕ) : ℕ → ℕ → ℕ → ℕ → ℕ
  | 0, _, _, _ => 0
  | left + 1, addr, start, count =>
    if mapped addr then scanPages mapped nPages left (addr + frameSize) start 0
    else
      let start := if count = 0 then addr else start
      if count + 1 = nPages then start
      else scanPages mapped nPages left (addr + frameSize) start (count + 1)

/-- The start of the first range of free pages that is long enough, or 0. -/
def findFreePageRange (mapped : ℕ → Bool) (startScan stopScan nPages : ℕ) : ℕ :=
  if startScan = 0 ∨ nPages = 0 then 0
  else scanPages mapped nPages ((stopScan - startScan + frameSize - 1) / frameSize) startScan 0 0

/-- The section as it is filled in, or null if its size is wrong. The page it is in is the
caller's. -/
def allocateSection (neededPages : ℕ) (permissions : BitVec 32) : Option Section :=
  if neededPages = 0 ∨ maxSectionFrames ≤ neededPages then none
  else some ⟨0, neededPages, permissions, 0, fun _ => 0, 0⟩

/-- The local variables of `MapSection`. -/
structure SectionMap (σ : Type) where
  scn : Section
  mem : σ
  framesAllocated : ℕ
  pagesMapped : ℕ

namespace Section

variable {σ : Type} (P : Paging σ)

def flags (scn : Section) : BitVec 32 :=
  pagePresent ||| pageUser
    ||| (if scn.permissions &&& sectionWriteable ≠ 0#32 then pageRW else 0#32)
    ||| (if scn.permissions &&& sectionCacheable = 0#32 then pageCacheDisabled ||| pageWritethrough
      else 0#32)

def setFrame (scn : Section) (i phys : ℕ) : Section :=
  { scn with physframes := Function.update scn.physframes i phys }

/-- Round `i` of the loop of `MapSection`: it goes on, or it goes to `fail`. -/
def mapRound (start i : ℕ) (s : SectionMap σ) : Option (Bool × SectionMap σ) :=
  let pageaddr := start + i * frameSize
  if 0 < s.scn.physframes i then
    match P.mapSinglePage (s.scn.physframes i) pageaddr s.scn.flags s.mem with
    | (.ok, mem) => some (true, { s with mem, pagesMapped := s.pagesMapped + 1 })
    | (_, mem) => some (false, { s with mem })
  else
    let (phys, mem) := P.allocateFrame s.mem
    let scn := s.scn.setFrame i phys
    if phys = 0 then some (false, { s with scn, mem })
    else
      match P.mapSinglePage phys pageaddr scn.flags mem with
      | (.ok, mem) => (P.zeroPage pageaddr mem).map fun mem =>
        (true, ⟨scn, mem, s.framesAllocated + 1, s.pagesMapped + 1⟩)
      | (_, mem) => some (false, ⟨scn, mem, s.framesAllocated + 1, s.pagesMapped⟩)

def mapLoop (start : ℕ) : ℕ → ℕ → SectionMap σ → Option (Bool × SectionMap σ)
  | 0, _, s => some (true, s)
  | n + 1, i, s =>
    (mapRound P start i s).bind fun r => if r.1 then mapLoop start n (i + 1) r.2 else some r

/-- What `MapSection` does at `fail`. -/
def mapFail (start : ℕ) (s : SectionMap σ) : Option (Section × σ) :=
  if 1 < s.scn.refcnt then some ({ s.scn with refcnt := s.scn.refcnt - 1 }, s.mem)
  else do
    let mem ← Loop.times (fun i mem => P.freeFrame (s.scn.physframes i) mem) s.framesAllocated s.mem
    let mem ← Loop.times (fun i mem => P.unmapSinglePage (start + i * frameSize) mem)
      s.pagesMapped mem
    return ({ s.scn with physframes := fun _ => 0 }, mem)

/-- The address the section is mapped at, or 0. -/
def mapSection (scn : Section) (mem : σ) : Option (ℕ × Section × σ) :=
  let start := findFreePageRange (fun addr => P.isVirtualPageMapped addr mem) (4 * frameSize)
    kernelVMBase scn.nPages
  if start = 0 then some (0, scn, mem)
  else
    (mapLoop P start scn.nPages 0 ⟨scn, mem, 0, 0⟩).bind fun r =>
      if r.1 then
        some (start, { r.2.scn with refcnt := r.2.scn.refcnt + 1, vmbase := start }, r.2.mem)
      else (mapFail P start r.2).map fun x => (0, x)

/-- `SECTION_MAP` of `HandleSectionObjectRequest`: the status, and what `MapSection` leaves.
`argMapped` is `ADDRESS_IS_MAPPED(arg)`. -/
def mapRequest (scn : Option Section) (argMapped : Bool) (mem : σ) :
    Option (Status × Option (Section × σ)) :=
  if !argMapped then some (.badArgument, none)
  else
    match scn with
    | none => some (.bad, none)
    | some scn => (mapSection P scn mem).map fun (base, x) =>
      (if base = 0 then .bad else .ok, some x)

/-- Round `i` of the loop of `UnmapSection`. -/
def unmapRound (base i : ℕ) (s : Section × σ) : Option (Section × σ) := do
  let addr := base + i * frameSize
  let mem ← P.zeroPage addr s.2
  let mem ← P.freeFrame (s.1.physframes i) mem
  let mem ← P.unmapSinglePage addr mem
  return (s.1.setFrame i 0, mem)

def unmapSection (debug : Bool) (base : ℕ) (scn : Section) (mem : σ) : Option (Section × σ) :=
  if debug ∧ (base = 0 ∨ base % frameSize ≠ 0) then none
  else if 1 < scn.refcnt then some ({ scn with refcnt := scn.refcnt - 1 }, mem)
  else Loop.times (unmapRound P base) scn.nPages (scn, mem)

/-- `DeleteSection` in the thread with identifier `id`, up to the `kfree` of the section, which is
null then. -/
def deleteSection (debug : Bool) (id : ℕ) (scn : Section) (mem : σ) : Option (Option Section × σ) :=
  if debug ∧ scn.vmbase = 0 then none
  else if scn.addressSpace ≠ id then some (some scn, mem)
  else if 1 < scn.refcnt then some (some { scn with refcnt := scn.refcnt - 1 }, mem)
  else (unmapSection P debug scn.vmbase scn mem).map fun r => (none, r.2)

end Section

end DragonWare
