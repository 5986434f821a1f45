import DragonWare.Proofs.Regions

/-!
# When the frame manager comes up

The loop over a region ends unless one of its addresses is in the last frame below 4 GiB
(`MemoryRegion.Wraps`).
-/

namespace DragonWare

open FrameManager List

/-- The region is available, and the loop over it meets an address in the last frame. -/
def MemoryRegion.Wraps (r : MemoryRegion) : Prop :=
  r.available = true ∧ ∃ n, r.start.toNat + n * frameSize < r.stop.toNat
    ∧ 2 ^ 32 ≤ r.start.toNat + n * frameSize + frameSize

variable {r : MemoryRegion} {regions : List MemoryRegion} {fuel : ℕ} {m : FrameManager}

theorem markRegion_total {stop : ℕ} : ∀ (n j : ℕ) (m : FrameManager),
    (∀ i, j + i * frameSize < stop → j + i * frameSize + frameSize < 2 ^ 32) →
    stop ≤ j + n * frameSize → ∃ m', markRegion stop (n + 1) j m = some m'
  | 0, j, m, _, hn => by
    refine ⟨m, ?_⟩
    rw [markRegion, if_neg (by omega)]
  | n + 1, j, m, hstep, hn => by
    rw [markRegion]
    by_cases hj : j < stop
    · have hlt : j + frameSize < 2 ^ 32 := by simpa using hstep 0 (by simpa using hj)
      have hshift (i : ℕ) : j + frameSize + i * frameSize = j + (i + 1) * frameSize := by ring
      rw [if_pos hj, Nat.mod_eq_of_lt hlt]
      refine markRegion_total n _ _ (fun i hi => ?_) ?_
      · rw [hshift] at hi ⊢
        exact hstep (i + 1) hi
      · rw [hshift]
        exact hn
    · exact ⟨m, by rw [if_neg hj]⟩

/-- The number of frames below 4 GiB, and one round to see the end. -/
def framesFuel : ℕ := 2 ^ 20 + 1

theorem addRegion_total (h : ¬ r.Wraps) (m : FrameManager) :
    ∃ m', addRegion framesFuel m r = some m' := by
  unfold addRegion
  split_ifs with hav
  · exact ⟨m, rfl⟩
  have hstop := r.stop.isLt
  refine markRegion_total (2 ^ 20) _ _ (fun i hi => ?_) ?_
  · by_contra hwrap
    exact h ⟨by simpa using hav, i, hi, not_lt.1 hwrap⟩
  · simp only [frameSize]
    omega

theorem not_wraps_of_addRegion {m' : FrameManager}
    (h : addRegion fuel m r = some m') : ¬ r.Wraps := by
  rintro ⟨hav, n, hn, hwrap⟩
  have hstop := r.stop.isLt
  unfold addRegion at h
  rw [hav] at h
  simp only [Bool.not_true, Bool.false_eq_true, if_false] at h
  rw [markRegion_wraps hn (by omega) hwrap fuel _ _ (Nat.le_add_right _ _)
    (Nat.add_mul_mod_self_right _ _ _).symm] at h
  cases h

theorem addRegions_total : ∀ (rs : List MemoryRegion) (m : FrameManager),
    (∀ r ∈ rs, ¬ r.Wraps) → ∃ m', rs.foldlM (addRegion framesFuel) m = some m'
  | [], m, _ => ⟨m, rfl⟩
  | r :: rs, m, h => by
    obtain ⟨m1, h1⟩ := addRegion_total (h r mem_cons_self) m
    obtain ⟨m', hm'⟩ := addRegions_total rs m1 fun s hs => h s (mem_cons_of_mem _ hs)
    exact ⟨m', by rw [foldlM_cons, h1]; exact hm'⟩

theorem not_wraps_of_addRegions {fuel : ℕ} : ∀ {rs : List MemoryRegion} {m m' : FrameManager},
    rs.foldlM (addRegion fuel) m = some m' → ∀ r ∈ rs, ¬ r.Wraps
  | s :: rs, m, m', h, r, hr => by
    rw [foldlM_cons] at h
    obtain ⟨m1, h1, h2⟩ := Option.bind_eq_some_iff.1 h
    rcases mem_cons.1 hr with rfl | hr
    · exact not_wraps_of_addRegion h1
    · exact not_wraps_of_addRegions h2 r hr

theorem not_wraps_of_initFrameManager
    (h : initFrameManager fuel regions = some m) : ∀ r ∈ regions, ¬ r.Wraps := by
  unfold initFrameManager at h
  split_ifs at h
  exact not_wraps_of_addRegions h

theorem initFrameManager_bitmap (h : initFrameManager fuel regions = some m) {w : ℕ}
    (hw : bitmapWords ≤ w) : m.bitmap w = blank.bitmap w := by
  refine BitVec.eq_of_getLsbD_eq fun i hi => ?_
  have hset : Bitmap.testBit m.bitmap (w * 32 + i) = true := by
    rw [← Bool.not_eq_false, (initFrameManager_some h).2]
    intro hoffered
    have hlt := hoffered.bounds.2.1
    simp only [bitmapWords, frameSize] at hw hlt
    omega
  have hdiv : (w * 32 + i) / 32 = w := by omega
  have hmod : (w * 32 + i) % 32 = i := by omega
  rw [Bitmap.testBit, hdiv, hmod] at hset
  rw [hset, blank, BitVec.getLsbD_allOnes, decide_eq_true hi]

/-- `InitFrameManager` ends, having touched words of the bitmap only. On an empty table it stops the
machine with an error. -/
def InitTerminates (regions : List MemoryRegion) : Prop :=
  regions = [] ∨ ∃ fuel m, initFrameManager fuel regions = some m
    ∧ ∀ w, bitmapWords ≤ w → m.bitmap w = blank.bitmap w

theorem initFrameManager_terminates_iff {k : KernelImage} {bi : BootInfo}
    {regions : List MemoryRegion} (_ : addMemoryRegions k bi = some regions) :
    InitTerminates regions ↔ ∀ r ∈ regions, ¬ r.Wraps := by
  constructor
  · rintro (rfl | ⟨fuel, m, hm, -⟩)
    · simp
    · exact not_wraps_of_initFrameManager hm
  · intro h
    by_cases hempty : regions = []
    · exact .inl hempty
    obtain ⟨m, hm⟩ := addRegions_total regions blank h
    have hinit : initFrameManager framesFuel regions = some m := by
      rw [initFrameManager, if_neg hempty, hm]
    exact .inr ⟨framesFuel, m, hinit, fun w hw => initFrameManager_bitmap hinit hw⟩

theorem addMemoryRegions_unalignedMap : addMemoryRegions smallKernel unalignedMap
    = some [⟨true, 0x9E000#32, 0x1BFF#32, .available⟩] := by decide

theorem initFrameManager_terminates_unalignedMap : ∃ regions,
    addMemoryRegions smallKernel unalignedMap = some regions ∧ InitTerminates regions := by
  refine ⟨_, addMemoryRegions_unalignedMap,
    (initFrameManager_terminates_iff addMemoryRegions_unalignedMap).2 fun r hr => ?_⟩
  obtain rfl := mem_singleton.1 hr
  rintro ⟨-, n, hn, hwrap⟩
  have hstop : (⟨true, 0x9E000#32, 0x1BFF#32, .available⟩ : MemoryRegion).stop.toNat
      = 0x9FBFF := rfl
  rw [hstop] at hn
  simp only [frameSize] at hn hwrap
  omega

def fourGigabytes : BootInfo := ⟨0#32, [], some [⟨0x100000#64, 0xFFF00000#64, 1#32⟩]⟩

theorem not_initFrameManager_terminates : ∃ regions,
    addMemoryRegions smallKernel fourGigabytes = some regions ∧ ¬ InitTerminates regions := by
  have htable : addMemoryRegions smallKernel fourGigabytes
      = some [⟨true, 0x180000#32, 0xFFE7FFFE#32, .available⟩] := by decide
  have hwraps : (⟨true, 0x180000#32, 0xFFE7FFFE#32, .available⟩ : MemoryRegion).Wraps :=
    ⟨rfl, 0xFFE7F, by decide, by decide⟩
  refine ⟨_, htable, ?_⟩
  rintro (hempty | ⟨fuel, m, hm, -⟩)
  · cases hempty
  · exact not_wraps_of_initFrameManager hm _ (mem_singleton_self _) hwraps

end DragonWare
