import DragonWare.Proofs.Vmm

/-!
# What the user may do with a mapped page

`MapSinglePage` takes the flags of a directory entry from the page that comes first there. A page
for the user is out of its reach if that one was not for the user (`TableForUser`).
-/

namespace DragonWare

open FrameManager Mmu Option TwoLevel

inductive PageCall
  | map (phys virt : ℕ) (flags : BitVec 32)
  | unmap (virt : ℕ)

/-- The call, if its address is in the user half. -/
def pageStep (debug : Bool) (s : Mmu × FrameManager) : PageCall → Option (Mmu × FrameManager)
  | .map phys virt flags =>
    if virt < kernelVMBase then some (mapSinglePage phys virt flags s.1 s.2).2 else none
  | .unmap virt =>
    if virt < kernelVMBase then (s.1.unmapSinglePage debug virt).map fun m => (m, s.2) else none

def Permits (flags e : BitVec 32) : Prop :=
  e &&& pageUser ≠ 0#32 ∧ (flags &&& pageRW ≠ 0#32 → e &&& pageRW ≠ 0#32)

def Usable (s : Mmu × FrameManager) : PageCall → Prop
  | .map phys virt flags => virt < kernelVMBase → flags &&& pageUser ≠ 0#32 →
    ∀ m' fm', mapSinglePage phys virt flags s.1 s.2 = (.ok, m', fm') →
      Permits flags (m'.pte (pdIndex virt) (ptIndex virt)) ∧ Permits flags (m'.pde (pdIndex virt))
  | .unmap _ => True

def TableForUser (s : Mmu × FrameManager) : PageCall → Prop
  | .map _ virt flags =>
    flags &&& pageUser ≠ 0#32 ∨ entryPresent (s.1.pde (pdIndex virt)) = true
  | .unmap _ => True

/-- The directory is in a frame that was handed out, and has no table for the user half. -/
structure UserStart (debug : Bool) (s : Mmu × FrameManager) : Prop where
  frames : ∃ fuel regions m₀ ops live, initFrameManager fuel regions = some m₀
    ∧ Run.exec (frameStep debug) (m₀, []) ops = some (s.2, live) ∧ s.1.cr3 ∈ live
  empty : ∀ i < 768, entryPresent (s.1.pde i) = false

section Flags

variable {a b c : BitVec 32}

theorem or_and_ne_zero (h : b &&& c ≠ 0#32) : (a ||| b) &&& c ≠ 0#32 := by
  rw [BitVec.and_comm, BitVec.and_or_distrib_left]
  intro h0
  rw [BitVec.or_eq_zero_iff, BitVec.and_comm c b] at h0
  exact h h0.2

theorem permits_or (h : b &&& pageUser ≠ 0#32) : Permits b (a ||| b) :=
  ⟨or_and_ne_zero h, or_and_ne_zero⟩

end Flags

/-- The tables of the user half are none of the directory, and let the user in. -/
structure UserHalf (regions : List MemoryRegion) (used : List ℕ) (s : Mmu × FrameManager) :
    Prop where
  frames : FrameInv regions (s.2, used)
  directory : s.1.cr3 ∈ used
  table : ∀ i < 768, entryPresent (s.1.pde i) = true →
    s.1.cr3 ≠ entryFrame (s.1.pde i) ∧ ∀ flags, Permits flags (s.1.pde i)

theorem pdIndex_lt_of_user {virt : ℕ} (h : virt < kernelVMBase) : pdIndex virt < 768 := by
  simp only [kernelVMBase] at h
  unfold pdIndex
  omega

namespace UserHalf

variable {regions : List MemoryRegion} {used : List ℕ} {s : Mmu × FrameManager} {m' : Mmu}
  {fm' : FrameManager} {phys virt : ℕ} {flags : BitVec 32} {st : Status}

theorem write (hU : UserHalf regions used s) {i : ℕ} (hi : i < 768)
    (hp : entryPresent (s.1.pde i) = true) (j : ℕ) (e : BitVec 32) :
    UserHalf regions used (s.1.write (entryFrame (s.1.pde i)) j e, s.2) := by
  have hpde (d : ℕ) := pde_write_of_ne (hU.table i hi hp).1 j d e
  refine ⟨hU.frames, hU.directory, fun d hd => ?_⟩
  rw [hpde]
  exact hU.table d hd

theorem map (hU : UserHalf regions used s) (hv : virt < kernelVMBase)
    (hok : TableForUser s (.map phys virt flags))
    (h : mapSinglePage phys virt flags s.1 s.2 = (st, m', fm')) :
    (∃ used', UserHalf regions used' (m', fm'))
      ∧ (st = .ok → m'.pte (pdIndex virt) (ptIndex virt) = BitVec.ofNat 32 phys ||| flags
        ∧ ∀ flags, Permits flags (m'.pde (pdIndex virt))) := by
  have hi := pdIndex_lt_of_user hv
  rcases mapSinglePage_cases hU.frames hU.directory h with ⟨hst, rfl, hI, -⟩
    | ⟨rfl, -, hp, rfl, -, rfl⟩ | ⟨rfl, -, hp, g, pde, hg, ⟨hpde, hflags⟩, hI, rfl⟩
  · exact ⟨⟨used, hI, hU.directory, hU.table⟩, fun h => absurd h hst⟩
  · obtain ⟨hne, hper⟩ := hU.table _ hi hp
    refine ⟨⟨used, hU.write hi hp _ _⟩, fun _ => ?_⟩
    rw [pde_write_of_ne hne]
    refine ⟨?_, hper⟩
    unfold pte
    rw [pde_write_of_ne hne]
    exact setEntry_self ..
  have hne : s.1.cr3 ≠ g := fun h => hg (h ▸ hU.directory)
  have huser : flags &&& pageUser ≠ 0#32 := by
    rcases hok with h | h
    · exact h
    · rw [hp] at h
      cases h
  have hframe : entryFrame pde = g := by
    unfold entryChild at hpde
    split_ifs at hpde
    exact some.inj hpde
  have hper (flags : BitVec 32) : Permits flags pde := by
    rw [hflags, if_pos huser]
    exact ⟨or_and_ne_zero (by decide), fun _ => or_and_ne_zero (by decide)⟩
  have hrow (d : ℕ) := pde_install hne (pdIndex virt) (ptIndex virt) d pde
    (BitVec.ofNat 32 phys ||| flags)
  refine ⟨⟨g :: used, hI, List.mem_cons_of_mem g hU.directory, fun d hd => ?_⟩, fun _ => ?_⟩
  · rw [hrow]
    split_ifs with hd'
    · exact fun _ => ⟨hframe ▸ hne, hper⟩
    · exact hU.table d hd
  · unfold pte
    rw [hrow, if_pos rfl, hframe]
    exact ⟨setEntry_self .., hper⟩

theorem step {debug : Bool} {s' : Mmu × FrameManager} {call : PageCall}
    (hU : UserHalf regions used s) (hok : TableForUser s call)
    (h : pageStep debug s call = some s') : ∃ used', UserHalf regions used' s' := by
  cases call with
  | map phys virt flags =>
    simp only [pageStep] at h
    split_ifs at h with hv
    rw [← some.inj h]
    exact (hU.map hv hok rfl).1
  | unmap virt =>
    simp only [pageStep] at h
    split_ifs at h with hv
    obtain ⟨m', hm, rfl⟩ := map_eq_some_iff.1 h
    unfold unmapSinglePage at hm
    split_ifs at hm with _ hmap
    · exact ⟨used, some.inj hm ▸ hU⟩
    rw [← some.inj hm]
    have hp : entryPresent (s.1.pde (pdIndex virt)) = true := by
      unfold isVirtualPageMapped at hmap
      simp only [Bool.not_eq_true', Bool.and_eq_false_iff, not_or, Bool.not_eq_false] at hmap
      exact hmap.1
    exact ⟨used, hU.write (pdIndex_lt_of_user hv) hp _ _⟩

end UserHalf

/-- As long as a page that is not for the user finds its table, a page that is mapped for the user
can be used as it was asked for. -/
theorem user_mappings_usable {debug : Bool} {s : Mmu × FrameManager} (hs : UserStart debug s)
    (calls : List PageCall) (hm : Run.Meets (pageStep debug) TableForUser s calls) :
    Run.Meets (pageStep debug) Usable s calls := by
  obtain ⟨fuel, regions, m₀, ops, live, hinit, hrun, hdir⟩ := hs.frames
  refine Run.Meets.imp (I := fun s => ∃ used, UserHalf regions used s) ?_ ?_ calls
    ⟨live, frameInv_of_run hinit hrun, hdir, fun i hi h => ?_⟩ hm
  · rintro s (⟨phys, virt, flags⟩ | virt) ⟨used, hU⟩ hok
    · intro hv huser m' fm' h
      obtain ⟨hpte, hpde⟩ := (hU.map hv hok h).2 rfl
      rw [hpte]
      exact ⟨permits_or huser, hpde flags⟩
    · trivial
  · rintro s call s' ⟨used, hU⟩ hok h
    exact hU.step hok h
  · rw [hs.empty i hi] at h
    cases h

section Boot

def emptySpace (m : FrameManager) : Mmu × FrameManager :=
  (⟨m.allocateFrame.1, fun _ _ => 0#32⟩, m.allocateFrame.2)

theorem emptySpace_start {debug : Bool} {fuel : ℕ} {regions : List MemoryRegion} {m : FrameManager}
    (h : initFrameManager fuel regions = some m) (h0 : m.allocateFrame.1 ≠ 0) :
    UserStart debug (emptySpace m) := by
  refine ⟨⟨fuel, regions, m, [.allocateFrame], [m.allocateFrame.1], h, ?_,
    List.mem_singleton.2 rfl⟩, fun i _ => by simp [emptySpace, pde, entryPresent]⟩
  simp [Run.exec, frameStep, h0, emptySpace]

def programFlags : BitVec 32 := pagePresent ||| pageRW ||| pageUser

theorem user_mappings_usable_program :
    ∃ s, UserStart true s
      ∧ Run.Meets (pageStep true) Usable s
        [.map 0x5000 0x100000 programFlags, .unmap 0x100000] := by
  have hm : ((initFrameManager 4
      [⟨true, 0x201000#32, 0x3000#32, .available⟩]).map fun m => m.allocateFrame.1)
      = some 0x201000 := by decide +kernel
  obtain ⟨m, hm, hdir⟩ := map_eq_some_iff.1 hm
  have hs : UserStart true (emptySpace m) := emptySpace_start hm (by rw [hdir]; decide)
  refine ⟨_, hs, user_mappings_usable hs _ ⟨.inl (by decide), fun s' _ => ⟨trivial, ?_⟩⟩⟩
  exact fun _ _ => trivial

/-- The page of the firmware's tables, which only the kernel reads, comes first in its 4 MiB. -/
theorem user_page_out_of_reach :
    ∃ s, UserStart true s
      ∧ ¬ Run.Meets (pageStep true) Usable s
        [.map 0xF0000 0xF0000 pagePresent, .map 0x5000 0x100000 programFlags] := by
  have hrun : ((initFrameManager 4
      [⟨true, 0x201000#32, 0x3000#32, .available⟩]).bind fun m =>
        if m.allocateFrame.1 = 0 then none
        else (pageStep true (emptySpace m) (.map 0xF0000 0xF0000 pagePresent)).map fun s =>
          ((mapSinglePage 0x5000 0x100000 programFlags s.1 s.2).1,
            (mapSinglePage 0x5000 0x100000 programFlags s.1 s.2).2.1.pde 0 &&& pageUser))
      = some (.ok, 0#32) := by decide +kernel
  obtain ⟨m, hm, hrun⟩ := bind_eq_some_iff.1 hrun
  split_ifs at hrun with h0
  obtain ⟨s, hs, hmap⟩ := map_eq_some_iff.1 hrun
  obtain ⟨hok, hpde⟩ := Prod.mk.inj hmap
  refine ⟨_, emptySpace_start hm h0, fun h => ?_⟩
  obtain ⟨-, hper, -⟩ := (h.2 s hs).1 (by decide) (by decide) _ _ (Prod.ext hok rfl)
  exact hper hpde

end Boot

end DragonWare
