import DragonWare.Idedrv
import DragonWare.Lib.Run
import DragonWare.Lib.SlotCache

/-!
# The sector cache

The hardware looks at one bit of the bus, one of the drive and 28 of the sector number, the cache at
all of them. So a sector can be in the cache under several arguments, and a write drops it under its
own only (`ide_cache_transparent_iff`).
-/

namespace DragonWare

open BitVec Function List Option SlotCache

section Address

/-- The sector that the hardware takes the arguments for. -/
def sectorAddr (bus master : BitVec 32) (lba : BitVec 64) : SectorAddr :=
  (bus ≠ 0, master ≠ 0, lba.setWidth 28)

theorem secondary_toBit (bus : BitVec 32) : secondary (toBit bus) = secondary bus := by
  unfold toBit secondary
  by_cases h : bus = 0 <;> simp [h]

theorem slave_select (lba master : BitVec 32) :
    ((0xE0#32 ||| (toBit master <<< 4) ||| ((lba >>> 24) &&& 0x0F#32)).setWidth 8).getLsbD 4
      = decide (master ≠ 0) := by
  unfold toBit
  by_cases h : master = 0
  · rw [if_neg (not_not.2 h)]
    simp [h]
  · rw [if_pos h]
    simpa using h

theorem sector_select (lba master : BitVec 32) :
    ((0xE0#32 ||| (toBit master <<< 4) ||| (((lba &&& 0x0FFFFFFF#32) >>> 24) &&& 0x0F#32)).setWidth
        8).setWidth 4 ++ ((lba &&& 0x0FFFFFFF#32) >>> 16).setWidth 8
      ++ ((lba &&& 0x0FFFFFFF#32) >>> 8).setWidth 8 ++ (lba &&& 0x0FFFFFFF#32).setWidth 8
      = lba.setWidth 28 := by
  refine eq_of_getLsbD_eq fun i hi => ?_
  simp only [getLsbD_append, getLsbD_setWidth, getLsbD_or, getLsbD_and, getLsbD_ushiftRight]
  interval_cases i <;> simp


theorem addressed_prepareDriveForRW (bus master lba : BitVec 32) (regs : Bool → TaskFile) :
    addressed bus (prepareDriveForRW bus master lba regs)
      = sectorAddr bus master (lba.setWidth 64) := by
  unfold addressed prepareDriveForRW submitLBA sendSectorCount selectDevice sectorAddr
  simp only [secondary_toBit, update_self, TaskFile.slave, TaskFile.sector, Prod.mk.injEq]
  refine ⟨rfl, slave_select _ _, ?_⟩
  rw [sector_select, setWidth_setWidth_of_le lba (by omega)]

end Address

section Slots

variable {bus master : BitVec 32} {lba : BitVec 64} {s : Ide} {e : CachedSector}

abbrev SectorKey := BitVec 32 × BitVec 32 × BitVec 64

def SectorKey.addr (k : SectorKey) : SectorAddr := sectorAddr k.1 k.2.1 k.2.2

def CachedSector.key (e : CachedSector) : SectorKey := (e.bus, e.master, e.lba)

def CachedSector.slot (e : CachedSector) : Option (SectorKey × Sector) :=
  if e.valid then some (e.key, e.data) else none

def Ide.slots (s : Ide) : Slots (Fin 16) SectorKey Sector := fun i => (s.cache i).slot

theorem CachedSector.isFor_iff : e.isFor bus master lba = true ↔ e.key = (bus, master, lba) := by
  unfold CachedSector.isFor CachedSector.key
  simp only [Bool.and_eq_true, beq_iff_eq, Prod.mk.injEq]
  tauto

theorem CachedSector.slot_eq_some {k : SectorKey} {v : Sector} :
    e.slot = some (k, v) ↔ e.valid = true ∧ e.key = k ∧ e.data = v := by
  unfold CachedSector.slot
  split_ifs with h <;> simp [h]

theorem loadCache_slots (s : Ide) (bus master : BitVec 32) (lba : BitVec 64) (data : Sector) :
    (loadCache bus master lba data s).slots
      = load s.slots s.nCacheStored (bus, master, lba) data := by
  funext i
  unfold loadCache Ide.slots load
  by_cases hi : i = s.nCacheStored
  · subst hi
    simp only [update_self]
    rfl
  · simp only [update_of_ne hi]

theorem invalidateCache_slots (s : Ide) (bus master : BitVec 32) (lba : BitVec 64) :
    (fun i => (invalidateCache s.cache bus master lba i).slot)
      = drop s.slots (bus, master, lba) := by
  funext i
  refine ext fun ⟨k, v⟩ => ?_
  rw [drop_eq_some, show s.slots i = (s.cache i).slot from rfl, CachedSector.slot_eq_some,
    CachedSector.slot_eq_some]
  unfold invalidateCache
  by_cases h : (s.cache i).isFor bus master lba
  · rw [if_pos h]
    constructor
    · rintro ⟨hv, -⟩
      exact absurd hv (by decide)
    · rintro ⟨⟨-, hk, -⟩, hne⟩
      exact absurd (hk.symm.trans (CachedSector.isFor_iff.1 h)) hne
  · rw [if_neg h]
    refine (and_iff_left_of_imp ?_).symm
    rintro ⟨-, rfl, -⟩
    exact mt CachedSector.isFor_iff.2 h

theorem checkCacheForSector_some {i : Fin 16}
    (h : checkCacheForSector s.cache bus master lba = some i) :
    s.slots i = some ((bus, master, lba), (s.cache i).data) ∧
    readFromCache s.cache i = some (s.cache i).data := by
  have hi := find?_some h
  rw [Bool.and_eq_true, CachedSector.isFor_iff] at hi
  exact ⟨CachedSector.slot_eq_some.2 ⟨hi.2, hi.1, rfl⟩, if_pos hi.2⟩

theorem checkCacheForSector_none (h : checkCacheForSector s.cache bus master lba = none)
    (i : Fin 16) (v : Sector) : s.slots i ≠ some ((bus, master, lba), v) := by
  intro hi
  obtain ⟨hvalid, hkey, -⟩ := CachedSector.slot_eq_some.1 hi
  have := find?_eq_none.1 h i (mem_finRange i)
  rw [Bool.and_eq_true, CachedSector.isFor_iff] at this
  exact this ⟨hkey, hvalid⟩

end Slots

section Step

inductive IdeCall
  | read (bus master lba : BitVec 32) (status : BitVec 8)
  | write (bus master lba : BitVec 32) (buf : Sector) (reply : WriteReply)

variable {s s' : Ide} {c : IdeCall}

def ideStep (s : Ide) : IdeCall → Option Ide
  | .read bus master lba status => some (readFromDisk bus master lba status s).2.2
  | .write bus master lba buf reply => some (writeToDisk bus master lba buf reply s).2

/-- Every successful read returns what the sector holds that the hardware would be asked for. -/
def Ide.Transparent (s : Ide) : Prop :=
  ∀ (bus master lba : BitVec 32) (status : BitVec 8),
    (readFromDisk bus master lba status s).1 = .success →
    (readFromDisk bus master lba status s).2.1
      = some (s.sectors (addressed bus (prepareDriveForRW bus master lba s.regs)))

def WriteReply.ok (r : WriteReply) : Bool := !checkForError r.command && !checkForError r.flush

def WriteReply.content (r : WriteReply) (buf : Sector) : Sector := if r.ok then buf else r.left

/-- An entry of the sector that is written has the arguments of the write, which succeeds, or it
has the new content already. -/
def IdeCall.Seen (s : Ide) : IdeCall → Prop
  | .read .. => True
  | .write bus master lba buf reply => ∀ i, (s.cache i).valid = true →
      sectorAddr (s.cache i).bus (s.cache i).master (s.cache i).lba
        = sectorAddr bus master (lba.setWidth 64) →
      reply.ok = true ∧ (s.cache i).bus = bus ∧ (s.cache i).master = master ∧
        (s.cache i).lba = lba.setWidth 64 ∨
      (s.cache i).data = reply.content buf

/-- No sector is cached twice under the same arguments, and the sector numbers are 32-bit. -/
structure CacheInv (s : Ide) : Prop where
  distinct : Distinct s.slots
  narrow : ∀ i k v, s.slots i = some (k, v) → ∃ lba : BitVec 32, k.2.2 = lba.setWidth 64

theorem readFromDisk_cases (s : Ide) (bus master lba : BitVec 32) (status : BitVec 8) :
    (∃ i, s.slots i = some ((bus, master, lba.setWidth 64), (s.cache i).data) ∧
      readFromDisk bus master lba status s = (.success, some (s.cache i).data, s)) ∨
    (∀ i v, s.slots i ≠ some ((bus, master, lba.setWidth 64), v)) ∧
      (readFromDisk bus master lba status s).2.2.sectors = s.sectors ∧
      ((readFromDisk bus master lba status s).1 ≠ .success ∧
        (readFromDisk bus master lba status s).2.2.slots = s.slots ∨
      (readFromDisk bus master lba status s).2.1
          = some (s.sectors (sectorAddr bus master (lba.setWidth 64))) ∧
        (readFromDisk bus master lba status s).2.2.slots = load s.slots s.nCacheStored
          (bus, master, lba.setWidth 64)
          (s.sectors (sectorAddr bus master (lba.setWidth 64)))) := by
  unfold readFromDisk
  cases h : checkCacheForSector s.cache bus master (lba.setWidth 64) with
  | some i =>
    obtain ⟨hslot, hread⟩ := checkCacheForSector_some h
    exact .inl ⟨i, hslot, congrArg (fun r => (IDEDRVStatusReply.success, r, s)) hread⟩
  | none =>
    refine .inr ⟨checkCacheForSector_none h, ?_⟩
    simp only [addressed_prepareDriveForRW]
    split_ifs
    · exact ⟨rfl, .inl ⟨by simp, rfl⟩⟩
    · exact ⟨rfl, .inr ⟨rfl, loadCache_slots _ _ _ _ _⟩⟩

theorem writeToDisk_cases (s : Ide) (bus master lba : BitVec 32) (buf : Sector)
    (reply : WriteReply) :
    (writeToDisk bus master lba buf reply s).2.sectors
      = update s.sectors (sectorAddr bus master (lba.setWidth 64)) (reply.content buf) ∧
    (writeToDisk bus master lba buf reply s).2.slots
      = if reply.ok then drop s.slots (bus, master, lba.setWidth 64) else s.slots := by
  unfold writeToDisk WriteReply.content WriteReply.ok
  simp only [addressed_prepareDriveForRW]
  by_cases h1 : checkForError reply.command
  · simp only [h1, if_true, Bool.not_true, Bool.false_and, Bool.false_eq_true, if_false]
    exact ⟨trivial, rfl⟩
  by_cases h2 : checkForError reply.flush
  · simp only [h1, h2, if_true, Bool.not_true, Bool.and_false, Bool.false_eq_true, if_false]
    exact ⟨trivial, rfl⟩
  · simp only [h1, h2, Bool.not_false, Bool.and_true, Bool.false_eq_true, if_false, if_true]
    exact ⟨trivial, invalidateCache_slots s _ _ _⟩

theorem CacheInv.step (hs : CacheInv s) (h : ideStep s c = some s') : CacheInv s' := by
  obtain ⟨hd, hn⟩ := hs
  cases c with
  | read bus master lba status =>
    obtain rfl := some.inj h
    rcases readFromDisk_cases s bus master lba status with
      ⟨i, -, hr⟩ | ⟨hnone, -, ⟨-, hslots⟩ | ⟨-, hslots⟩⟩
    · rw [hr]
      exact ⟨hd, hn⟩
    · exact ⟨hslots ▸ hd, hslots ▸ hn⟩
    · refine ⟨hslots ▸ hd.load hnone _ _, fun i k v hi => ?_⟩
      rw [hslots] at hi
      rcases load_eq_some hi with ⟨-, rfl, -⟩ | ⟨-, hi⟩
      · exact ⟨lba, rfl⟩
      · exact hn i k v hi
  | write bus master lba buf reply =>
    obtain rfl := some.inj h
    have hslots := (writeToDisk_cases s bus master lba buf reply).2
    by_cases hok : reply.ok = true
    · rw [if_pos hok] at hslots
      refine ⟨hslots ▸ hd.drop _, fun i k v hi => ?_⟩
      rw [hslots] at hi
      exact hn i k v (drop_eq_some.1 hi).1
    · rw [if_neg hok] at hslots
      exact ⟨hslots ▸ hd, hslots ▸ hn⟩

theorem transparent_iff (hs : CacheInv s) :
    s.Transparent ↔ Coherent SectorKey.addr s.sectors s.slots := by
  constructor
  · intro h i k v hi
    obtain ⟨lba, hlba⟩ := hs.narrow i k v hi
    obtain ⟨bus, master, lba'⟩ := k
    obtain rfl : lba' = lba.setWidth 64 := hlba
    have hread := h bus master lba 0
    rw [addressed_prepareDriveForRW] at hread
    rcases readFromDisk_cases s bus master lba 0 with ⟨j, hj, hr⟩ | ⟨hnone, -⟩
    · rw [hr] at hread
      obtain rfl : i = j := hs.distinct i j _ _ _ hi hj
      rw [hi] at hj
      have hv : v = (s.cache i).data := (Prod.mk.inj (some.inj hj)).2
      rw [hv]
      exact some.inj (hread rfl)
    · exact absurd hi (hnone i v)
  · intro h bus master lba status hok
    rw [addressed_prepareDriveForRW]
    rcases readFromDisk_cases s bus master lba status with
      ⟨i, hi, hr⟩ | ⟨-, -, ⟨hbad, -⟩ | ⟨hr, -⟩⟩
    · rw [hr]
      exact congrArg some (h i _ _ hi)
    · exact absurd hok hbad
    · exact hr

theorem seen_iff (hs : Coherent SectorKey.addr s.sectors s.slots)
    (h : ideStep s c = some s') : c.Seen s ↔ Coherent SectorKey.addr s'.sectors s'.slots := by
  cases c with
  | read bus master lba status =>
    obtain rfl := some.inj h
    refine iff_of_true trivial ?_
    rcases readFromDisk_cases s bus master lba status with
      ⟨i, -, hr⟩ | ⟨-, hsec, ⟨-, hslots⟩ | ⟨-, hslots⟩⟩
    · rw [hr]
      exact hs
    · rw [hsec, hslots]
      exact hs
    · rw [hsec, hslots]
      exact hs.load _ _
  | write bus master lba buf reply =>
    obtain rfl := some.inj h
    obtain ⟨hsec, hslots⟩ := writeToDisk_cases s bus master lba buf reply
    rw [hsec, hslots]
    have hvalid : ∀ i, (s.cache i).valid = true →
        s.slots i = some ((s.cache i).key, (s.cache i).data) :=
      fun i hi => CachedSector.slot_eq_some.2 ⟨hi, rfl, rfl⟩
    by_cases hok : reply.ok = true
    · rw [if_pos hok, hs.drop_write_iff]
      constructor
      · intro hseen i k w hi ht
        obtain ⟨hv, rfl, rfl⟩ := CachedSector.slot_eq_some.1 hi
        rcases hseen i hv ht with ⟨-, rfl, rfl, hl⟩ | hdata
        · left
          rw [← hl]
          rfl
        · exact .inr hdata
      · intro hall i hv ht
        rcases hall i _ _ (hvalid i hv) ht with hk | hdata
        · simp only [CachedSector.key, Prod.mk.injEq] at hk
          exact .inl ⟨hok, hk⟩
        · exact .inr hdata
    · rw [if_neg hok, hs.write_iff]
      constructor
      · intro hseen i k w hi ht
        obtain ⟨hv, rfl, rfl⟩ := CachedSector.slot_eq_some.1 hi
        exact (hseen i hv ht).resolve_left fun h => hok h.1
      · intro hall i hv ht
        exact .inr (hall i _ _ (hvalid i hv) ht)

end Step

section Run

/-- Reads are transparent in every state of a run exactly when no write of it leaves a changed
sector in the cache. -/
theorem ide_cache_transparent_iff (regs : Bool → TaskFile) (sectors : SectorAddr → Sector)
    (calls : List IdeCall) :
    Run.Meets ideStep (fun s c => c.Seen s) (Ide.boot regs sectors) calls ↔
      ∀ pre post, calls = pre ++ post → ∀ s,
        Run.exec ideStep (Ide.boot regs sectors) pre = some s → s.Transparent := by
  have hempty : ∀ i k v, (Ide.boot regs sectors).slots i ≠ some (k, v) := by
    intro i k v h
    exact absurd (CachedSector.slot_eq_some.1 h).1 Bool.false_ne_true
  have hinv : CacheInv (Ide.boot regs sectors) :=
    ⟨fun i _ k v _ hi => absurd hi (hempty i k v), fun i k v hi => absurd hi (hempty i k v)⟩
  have htotal : ∀ s c, ∃ s', ideStep s c = some s' := by
    intro s c
    cases c <;> exact ⟨_, rfl⟩
  obtain ⟨last, hlast⟩ := Run.exec_total htotal calls (Ide.boot regs sectors)
  refine Run.meets_iff_forall (fun s c s' hs _ h => hs.step h) (fun s c s' hs hP h => ?_) calls
    hinv ((transparent_iff hinv).2 fun i k v hi => absurd hi (hempty i k v)) hlast
  rw [transparent_iff (hs.step h)]
  exact seen_iff ((transparent_iff hs).1 hP) h

/-- A sector that was written is read as it was written, whatever the cache has held of it. -/
theorem read_after_write {s : Ide} {bus master lba : BitVec 32} {buf : Sector} {reply : WriteReply}
    {status : BitVec 8} (hwrite : (writeToDisk bus master lba buf reply s).1 = .success)
    (hread : (readFromDisk bus master lba status
      (writeToDisk bus master lba buf reply s).2).1 = .success) :
    (readFromDisk bus master lba status (writeToDisk bus master lba buf reply s).2).2.1
      = some buf := by
  have hok : reply.ok = true := by
    unfold writeToDisk at hwrite
    unfold WriteReply.ok
    split_ifs at hwrite with h1 h2
    simp [h1, h2]
  obtain ⟨hsectors, hslots⟩ := writeToDisk_cases s bus master lba buf reply
  rw [if_pos hok] at hslots
  rcases readFromDisk_cases (writeToDisk bus master lba buf reply s).2 bus master lba status with
    ⟨i, hi, -⟩ | ⟨-, -, ⟨hno, -⟩ | ⟨hdata, -⟩⟩
  · rw [hslots] at hi
    exact absurd rfl (drop_eq_some.1 hi).2
  · exact absurd hread hno
  · rw [hdata, hsectors, update_self, WriteReply.content, if_pos hok]

def blankIde : Ide := Ide.boot (fun _ => ⟨0, 0, 0, 0, 0⟩) fun _ _ => 0

theorem read_after_write_blank : (readFromDisk 0 0 0 0x50
    (writeToDisk 0 0 0 (fun _ => 1) ⟨0x58, 0x50, fun _ => 0⟩ blankIde).2).2.1 = some fun _ => 1 :=
  read_after_write rfl rfl

def oneCached : Ide :=
  loadCache 0 0 0 (fun _ => 0) { blankIde with regs := prepareDriveForRW 0 0 0 blankIde.regs }

theorem readFromDisk_blankIde :
    readFromDisk 0 0 0 0x50 blankIde = (.success, some fun _ => 0, oneCached) := by
  unfold readFromDisk
  rw [show checkCacheForSector blankIde.cache 0 0 ((0 : BitVec 32).setWidth 64) = none by decide]
  rfl

/-- After a read of the first sector and the call, which fills the sector with ones, a read returns
what was there before. -/
def ReadsStale (c : IdeCall) : Prop :=
  ∃ s, Run.exec ideStep blankIde [.read 0 0 0 0x50, c] = some s ∧
    (readFromDisk 0 0 0 0x50 s).1 = .success ∧
    (readFromDisk 0 0 0 0x50 s).2.1 = some (fun _ => 0) ∧
    s.sectors (addressed 0 (prepareDriveForRW 0 0 0 s.regs)) = (fun _ => 1) ∧
    ¬ s.Transparent

theorem stale_read (lba : BitVec 32) (buf : Sector) (reply : WriteReply) {s : Ide}
    (hs : s = (writeToDisk 0 0 lba buf reply oneCached).2)
    (hlba : sectorAddr 0 0 (lba.setWidth 64) = sectorAddr 0 0 0)
    (hhit : checkCacheForSector s.cache 0 0 ((0 : BitVec 32).setWidth 64) = some 0)
    (hold : readFromCache s.cache 0 = some fun _ => 0)
    (hones : reply.content buf = fun _ => 1) : ReadsStale (.write 0 0 lba buf reply) := by
  have hexec : Run.exec ideStep blankIde [.read 0 0 0 0x50, .write 0 0 lba buf reply] = some s := by
    rw [hs]
    simp only [Run.exec, ideStep, readFromDisk_blankIde, bind_some]
  have hread : readFromDisk 0 0 0 0x50 s = (.success, some fun _ => 0, s) := by
    unfold readFromDisk
    rw [hhit, ← hold]
  have hsec : s.sectors (addressed 0 (prepareDriveForRW 0 0 0 s.regs)) = fun _ => 1 := by
    rw [addressed_prepareDriveForRW, hs, (writeToDisk_cases _ _ _ _ _ _).1, hlba, ← hones]
    exact update_self _ _ _
  refine ⟨s, hexec, by rw [hread], by rw [hread], hsec, fun ht => ?_⟩
  have h := ht 0 0 0 0x50 (by rw [hread])
  rw [hread, hsec] at h
  exact absurd (congrFun (some.inj h) 0) (by decide)

/-- A write with one of the ignored bits of the sector number set, and one that fails after the
flush and has changed the sector. -/
theorem not_ide_cache_transparent :
    ReadsStale (.write 0 0 0x10000000 (fun _ => 1) ⟨0x58, 0x50, fun _ => 0⟩) ∧
    ReadsStale (.write 0 0 0 (fun _ => 1) ⟨0x58, 0x51, fun _ => 1⟩) :=
  ⟨stale_read _ _ _ rfl (by decide) (by decide) rfl rfl,
    stale_read _ _ _ rfl (by decide) (by decide) rfl rfl⟩

end Run

end DragonWare
