import DragonWare.Frame
import DragonWare.Lib.Run

/-!
# The frame manager hands out what the regions offer

A loop over a region whose counter would pass `2 ^ 32` never ends (`markRegion_wraps`). After
`InitFrameManager` a clear bit is an offered frame that is not live (`FrameInv`).
-/

namespace DragonWare

open Bitmap FrameManager List

/-- The loop over `r` visits an address in frame `f`, past the two frames that are never used. -/
def MemoryRegion.Offers (r : MemoryRegion) (f : ℕ) : Prop :=
  r.available = true ∧ ∃ k, 2 * frameSize ≤ r.start.toNat + k * frameSize
    ∧ r.start.toNat + k * frameSize < r.stop.toNat
    ∧ f = (r.start.toNat + k * frameSize) / frameSize * frameSize

def Offered (regions : List MemoryRegion) (f : ℕ) : Prop := ∃ r ∈ regions, r.Offers f

section Init

variable {fuel : ℕ}

theorem testBit_markFrameAvailable (m : FrameManager) (a n : ℕ) :
    testBit (m.markFrameAvailable a).bitmap n = false ↔
      testBit m.bitmap n = false
        ∨ (2 * frameSize ≤ a ∧ a ≤ m.highestAddr ∧ n = a / frameSize) := by
  unfold markFrameAvailable
  split_ifs with h1 h2
  · constructor
    · exact .inl
    · rintro (h | ⟨h, -⟩)
      · exact h
      · omega
  · constructor
    · exact .inl
    · rintro (h | ⟨-, h, -⟩)
      · exact h
      · omega
  · simp only [testBit_clearBit (by decide : 0 < 32), Bool.and_eq_false_iff,
      Bool.not_eq_false', decide_eq_true_eq]
    constructor
    · rintro (h | h)
      · exact .inl h
      · exact .inr ⟨by omega, by omega, h⟩
    · rintro (h | ⟨-, -, h⟩)
      · exact .inl h
      · exact .inr h

theorem highestAddr_markFrameAvailable (m : FrameManager) (a : ℕ) :
    (m.markFrameAvailable a).highestAddr = m.highestAddr := by
  unfold markFrameAvailable
  split_ifs <;> rfl

/-- A loop that would step over `2 ^ 32` from `b`, still short of `stop`, comes round to where it
was and never ends. -/
theorem markRegion_wraps {stop b : ℕ} (hb : b < stop) (hlt : b < 2 ^ 32)
    (hwrap : 2 ^ 32 ≤ b + frameSize) :
    ∀ (fuel j : ℕ) (m : FrameManager), j ≤ b → j % frameSize = b % frameSize →
      markRegion stop fuel j m = none
  | 0, _, _, _, _ => rfl
  | fuel + 1, j, m, hj, hmod => by
    unfold markRegion
    rw [if_pos (by omega)]
    simp only [frameSize] at hwrap hmod ⊢
    have hne : j = b ∨ j + 0x1000 ≤ b := by omega
    apply markRegion_wraps hb hlt (by simpa [frameSize] using hwrap)
    · omega
    · simp only [frameSize]
      omega

theorem markRegion_some {stop : ℕ} (hstop : stop < 2 ^ 32) :
    ∀ (fuel j : ℕ) (m m' : FrameManager), j < 2 ^ 32 → stop ≤ m.highestAddr →
      markRegion stop fuel j m = some m' →
      m'.highestAddr = m.highestAddr ∧ ∀ n, testBit m'.bitmap n = false ↔
        testBit m.bitmap n = false ∨ ∃ k, 2 * frameSize ≤ j + k * frameSize
          ∧ j + k * frameSize < stop ∧ n = (j + k * frameSize) / frameSize
  | 0, _, _, _, _, _, h => by simp [markRegion] at h
  | fuel + 1, j, m, m', hj, hhigh, h => by
    unfold markRegion at h
    split_ifs at h with hjs
    · have hnw : j + frameSize < 2 ^ 32 := by
        by_contra hw
        have := markRegion_wraps hjs hj (by omega) (fuel + 1) j m le_rfl rfl
        rw [markRegion, if_pos hjs, h] at this
        cases this
      rw [Nat.mod_eq_of_lt hnw] at h
      obtain ⟨hh, ih⟩ := markRegion_some hstop fuel _ _ _ hnw
        (by rwa [highestAddr_markFrameAvailable]) h
      refine ⟨hh.trans (highestAddr_markFrameAvailable m j), fun n => ?_⟩
      rw [ih n, testBit_markFrameAvailable, or_assoc]
      refine or_congr_right ?_
      -- the address visited now is `k = 0`, the later ones are the next `j`'s shifted by one
      have hshift : ∀ k, j + (k + 1) * frameSize = j + frameSize + k * frameSize := fun k => by ring
      constructor
      · rintro (⟨h1, -, rfl⟩ | ⟨k, h1, h2, rfl⟩)
        · exact ⟨0, by omega, by omega, by simp⟩
        · exact ⟨k + 1, by rwa [hshift], by rwa [hshift], by rw [hshift]⟩
      · rintro ⟨_ | k, h1, h2, hn⟩
        · rw [Nat.zero_mul, Nat.add_zero] at h1 h2 hn
          exact .inl ⟨h1, by omega, hn⟩
        · rw [hshift] at h1 h2 hn
          exact .inr ⟨k, h1, h2, hn⟩
    · simp only [Option.some.injEq] at h
      subst h
      refine ⟨rfl, fun n => ⟨.inl, ?_⟩⟩
      rintro (h | ⟨k, -, h, -⟩)
      · exact h
      · omega

theorem addRegion_some {r : MemoryRegion} {m m' : FrameManager} (h : addRegion fuel m r = some m') :
    m.highestAddr ≤ m'.highestAddr ∧ (∀ f, r.Offers f → f ≤ m'.highestAddr)
      ∧ ∀ n, testBit m'.bitmap n = false ↔
          testBit m.bitmap n = false ∨ r.Offers (n * frameSize) := by
  unfold addRegion at h
  split_ifs at h with ha
  · simp only [Option.some.injEq] at h
    subst h
    have hno : ∀ f, ¬ r.Offers f := fun f hf => by simp [hf.1] at ha
    exact ⟨le_rfl, fun f hf => absurd hf (hno f), fun n => by simp [hno]⟩
  have ha' : r.available = true := by simpa using ha
  set m0 := if m.highestAddr < r.stop.toNat then
    { m with highestAddr := r.stop.toNat } else m with hm0
  have hm : m0.bitmap = m.bitmap := by rw [hm0]; split_ifs <;> rfl
  have hle : m.highestAddr ≤ m0.highestAddr ∧ r.stop.toNat ≤ m0.highestAddr := by
    rw [hm0]
    split_ifs with hc
    · exact ⟨hc.le, le_rfl⟩
    · exact ⟨le_rfl, by omega⟩
  obtain ⟨hh, hb⟩ := markRegion_some r.stop.isLt fuel _ m0 m' r.start.isLt hle.2 h
  rw [hh]
  refine ⟨hle.1, fun f hf => ?_, fun n => ?_⟩
  · obtain ⟨-, k, -, h2, rfl⟩ := hf
    have := Nat.div_mul_le_self (r.start.toNat + k * frameSize) frameSize
    omega
  · rw [hb n, hm]
    refine or_congr_right ⟨?_, ?_⟩
    · rintro ⟨k, h1, h2, rfl⟩
      exact ⟨ha', k, h1, h2, rfl⟩
    · rintro ⟨-, k, h1, h2, hn⟩
      exact ⟨k, h1, h2, Nat.eq_of_mul_eq_mul_right (by decide) hn⟩

theorem addRegions_some :
    ∀ (rs : List MemoryRegion) {m m' : FrameManager}, rs.foldlM (addRegion fuel) m = some m' →
      m.highestAddr ≤ m'.highestAddr ∧ (∀ f, Offered rs f → f ≤ m'.highestAddr)
        ∧ ∀ n, testBit m'.bitmap n = false ↔
            testBit m.bitmap n = false ∨ Offered rs (n * frameSize)
  | [], m, m', h => by
    simp only [foldlM_nil, Option.pure_def, Option.some.injEq] at h
    subst h
    simp [Offered]
  | r :: rs, m, m', h => by
    rw [foldlM_cons] at h
    obtain ⟨m1, h1, h2⟩ := Option.bind_eq_some_iff.1 h
    obtain ⟨hl1, ho1, hb1⟩ := addRegion_some h1
    obtain ⟨hl2, ho2, hb2⟩ := addRegions_some rs h2
    have hcons : ∀ f, Offered (r :: rs) f ↔ r.Offers f ∨ Offered rs f := fun f => by
      simp [Offered]
    refine ⟨hl1.trans hl2, fun f hf => ?_, fun n => ?_⟩
    · rcases (hcons f).1 hf with hf | hf
      · exact (ho1 f hf).trans hl2
      · exact ho2 f hf
    · rw [hb2, hb1, hcons, or_assoc]

theorem initFrameManager_some {regions : List MemoryRegion} {m : FrameManager}
    (h : initFrameManager fuel regions = some m) :
    (∀ f, Offered regions f → f ≤ m.highestAddr)
      ∧ ∀ n, testBit m.bitmap n = false ↔ Offered regions (n * frameSize) := by
  unfold initFrameManager at h
  split_ifs at h
  obtain ⟨-, ho, hb⟩ := addRegions_some regions h
  refine ⟨ho, fun n => ?_⟩
  rw [hb n, blank, testBit_of_allOnes (by decide) rfl]
  simp

end Init

section Calls

variable {f : ℕ} {m : FrameManager}

theorem MemoryRegion.Offers.bounds {r : MemoryRegion} (h : r.Offers f) :
    2 * frameSize ≤ f ∧ f < 2 ^ 32 ∧ f % frameSize = 0 := by
  obtain ⟨-, k, h1, h2, rfl⟩ := h
  have hlt := r.stop.isLt
  refine ⟨?_, ?_, Nat.mul_mod_left _ _⟩
  · simp only [frameSize] at *
    omega
  · have := Nat.div_mul_le_self (r.start.toNat + k * frameSize) frameSize
    omega

theorem Offered.bounds {regions : List MemoryRegion} (h : Offered regions f) :
    2 * frameSize ≤ f ∧ f < 2 ^ 32 ∧ f % frameSize = 0 := by
  obtain ⟨r, -, hr⟩ := h
  exact hr.bounds

/-- The manager and the frames it has handed out, against what the regions offer. -/
structure FrameInv (regions : List MemoryRegion) (s : FrameManager × List ℕ) : Prop where
  nodup : s.2.Nodup
  live : ∀ f ∈ s.2, Offered regions f
  clear : ∀ n, testBit s.1.bitmap n = false ↔
    Offered regions (n * frameSize) ∧ n * frameSize ∉ s.2
  highest : ∀ f, Offered regions f → f ≤ s.1.highestAddr

variable {regions : List MemoryRegion} {s : FrameManager × List ℕ} {fuel : ℕ} {used : List ℕ}
  {debug : Bool}

theorem FrameInv.init (h : initFrameManager fuel regions = some m) : FrameInv regions (m, []) := by
  obtain ⟨ho, hb⟩ := initFrameManager_some h
  exact ⟨nodup_nil, by simp, fun n => by simpa using hb n, ho⟩

section

variable (hI : FrameInv regions s)

include hI

theorem FrameInv.allocated_of_live (hf : f ∈ s.2) : s.1.isFrameAllocated f = true := by
  obtain ⟨-, -, hmod⟩ := (hI.live f hf).bounds
  have hdiv : f / frameSize * frameSize = f := Nat.div_mul_cancel (Nat.dvd_of_mod_eq_zero hmod)
  by_contra hb
  have := (hI.clear (f / frameSize)).1 (by simpa [isFrameAllocated] using hb)
  rw [hdiv] at this
  exact this.2 hf

theorem FrameInv.firstFreeFrame (words first : ℕ) :
    (s.1.firstFreeFrame words first = 0 ∧ ∀ f, Offered regions f →
        first * 32 * frameSize ≤ f → f < (first + words) * 32 * frameSize → f ∈ s.2)
      ∨ (Offered regions (s.1.firstFreeFrame words first) ∧ s.1.firstFreeFrame words first ∉ s.2
          ∧ first * 32 * frameSize ≤ s.1.firstFreeFrame words first
          ∧ s.1.firstFreeFrame words first < (first + words) * 32 * frameSize) := by
  unfold FrameManager.firstFreeFrame
  rcases hs : scanClear s.1.bitmap words first with _ | n
  · refine .inl ⟨rfl, fun f hf hlo hhi => ?_⟩
    obtain ⟨-, -, hmod⟩ := hf.bounds
    have hdiv : f / frameSize * frameSize = f := Nat.div_mul_cancel (Nat.dvd_of_mod_eq_zero hmod)
    have hset := scanClear_none (by decide) s.1.bitmap words first hs (f / frameSize)
      ((Nat.le_div_iff_mul_le (by decide)).2 hlo) ((Nat.div_lt_iff_lt_mul (by decide)).2 hhi)
    by_contra hlive
    rw [(hI.clear (f / frameSize)).2 ⟨by rwa [hdiv], by rwa [hdiv]⟩] at hset
    cases hset
  · obtain ⟨hlo, hhi, hc, -⟩ := scanClear_some (by decide) s.1.bitmap words first hs
    obtain ⟨ho, hl⟩ := (hI.clear n).1 hc
    exact .inr ⟨ho, hl, Nat.mul_le_mul_right _ hlo, (Nat.mul_lt_mul_right (by decide)).2 hhi⟩

theorem FrameInv.reserve (words first : ℕ) :
    FrameInv regions (s.1.markFrameReserved (s.1.firstFreeFrame words first),
      if s.1.firstFreeFrame words first = 0 then s.2
      else s.1.firstFreeFrame words first :: s.2) := by
  set f := s.1.firstFreeFrame words first with hf
  have hset : ∀ n, testBit (s.1.markFrameReserved f).bitmap n = false ↔
      testBit s.1.bitmap n = false ∧ n ≠ f / frameSize := fun n => by
    simp [markFrameReserved, testBit_setBit (by decide : 0 < 32)]
  rcases hI.firstFreeFrame words first with ⟨h0, -⟩ | ⟨ho, hl, -, -⟩
  · rw [← hf] at h0
    refine ⟨by simpa [h0] using hI.nodup, by simpa [h0] using hI.live, fun n => ?_, hI.highest⟩
    rw [hset, hI.clear n, if_pos h0]
    refine ⟨And.left, fun h => ⟨h, ?_⟩⟩
    -- frame 0 is never offered, so the bit set on failure was set already
    rintro rfl
    have := h.1.bounds.1
    simp [h0, frameSize] at this
  · rw [← hf] at ho hl
    obtain ⟨hlo, -, hmod⟩ := ho.bounds
    have hdiv : f / frameSize * frameSize = f := Nat.div_mul_cancel (Nat.dvd_of_mod_eq_zero hmod)
    have hne : f ≠ 0 := by simp only [frameSize] at hlo; omega
    simp only [hne, if_false]
    refine ⟨nodup_cons.2 ⟨hl, hI.nodup⟩, ?_, fun n => ?_, hI.highest⟩
    · intro g hg
      rcases mem_cons.1 hg with rfl | hg
      · exact ho
      · exact hI.live g hg
    · rw [hset, hI.clear n, mem_cons, not_or, and_assoc, and_comm (a := n * frameSize ≠ f)]
      refine and_congr_right fun _ => and_congr_right fun _ => not_congr ⟨?_, ?_⟩
      · rintro rfl
        exact hdiv
      · intro h
        exact Nat.eq_of_mul_eq_mul_right (by decide) (h.trans hdiv.symm)

theorem FrameInv.allocate (words first : ℕ) (hf : s.1.firstFreeFrame words first = f) :
    (f = 0 ∧ FrameInv regions (s.1.markFrameReserved f, s.2))
      ∨ (f ≠ 0 ∧ f ∉ s.2 ∧ Offered regions f
          ∧ FrameInv regions (s.1.markFrameReserved f, f :: s.2)) := by
  subst hf
  have hres := hI.reserve words first
  by_cases h0 : s.1.firstFreeFrame words first = 0
  · rw [if_pos h0] at hres
    exact .inl ⟨h0, hres⟩
  rw [if_neg h0] at hres
  rcases hI.firstFreeFrame words first with ⟨h, -⟩ | ⟨ho, hl, -⟩
  · exact absurd h h0
  · exact .inr ⟨h0, hl, ho, hres⟩

end

theorem FrameInv.allocateFrame (hI : FrameInv regions (m, used)) :
    (m.allocateFrame.1 = 0 ∧ FrameInv regions (m.allocateFrame.2, used))
      ∨ (m.allocateFrame.1 ≠ 0 ∧ m.allocateFrame.1 ∉ used ∧ Offered regions m.allocateFrame.1
          ∧ FrameInv regions (m.allocateFrame.2, m.allocateFrame.1 :: used)) :=
  hI.allocate (bitmapWords - 8) 8 rfl

theorem FrameInv.allocateLowMemory (hI : FrameInv regions (m, used)) :
    (m.allocateLowMemory.1 = 0 ∧ FrameInv regions (m.allocateLowMemory.2, used))
      ∨ (m.allocateLowMemory.1 ≠ 0 ∧ m.allocateLowMemory.1 ∉ used
          ∧ Offered regions m.allocateLowMemory.1
          ∧ FrameInv regions (m.allocateLowMemory.2, m.allocateLowMemory.1 :: used)) :=
  hI.allocate 8 0 rfl

theorem FrameInv.freeFrame (hI : FrameInv regions s) (debug : Bool) (hf : f ∈ s.2) :
    s.1.freeFrame debug f = some (s.1.markFrameAvailable f)
      ∧ FrameInv regions (s.1.markFrameAvailable f, s.2.erase f) := by
  have ho := hI.live f hf
  obtain ⟨hlo, -, hmod⟩ := ho.bounds
  have hdiv : f / frameSize * frameSize = f := Nat.div_mul_cancel (Nat.dvd_of_mod_eq_zero hmod)
  refine ⟨?_, ⟨hI.nodup.erase f, fun g hg => hI.live g (mem_of_mem_erase hg), fun n => ?_,
    fun g hg => ?_⟩⟩
  · unfold FrameManager.freeFrame
    rw [if_neg (by omega), if_neg (by omega), hI.allocated_of_live hf]
    simp
  · rw [testBit_markFrameAvailable, hI.clear n, hI.nodup.mem_erase_iff]
    constructor
    · rintro (⟨h1, h2⟩ | ⟨-, -, rfl⟩)
      · exact ⟨h1, fun h => h2 h.2⟩
      · rw [hdiv]
        exact ⟨ho, fun h => h.1 rfl⟩
    · rintro ⟨h1, h2⟩
      by_cases hn : n * frameSize = f
      · refine .inr ⟨hlo, hI.highest f ho, ?_⟩
        exact Nat.eq_of_mul_eq_mul_right (by decide) (hn.trans hdiv.symm)
      · exact .inl ⟨h1, fun h => h2 ⟨hn, h⟩⟩
  · rw [highestAddr_markFrameAvailable]
    exact hI.highest g hg

theorem FrameInv.step {op : FrameOp} {s' : FrameManager × List ℕ} (hI : FrameInv regions s)
    (h : frameStep debug s op = some s') : FrameInv regions s' := by
  cases op with
  | allocateFrame =>
    simp only [frameStep, Option.some.injEq] at h
    exact h ▸ hI.reserve (bitmapWords - 8) 8
  | allocateLowMemory =>
    simp only [frameStep, Option.some.injEq] at h
    exact h ▸ hI.reserve 8 0
  | freeFrame f =>
    simp only [frameStep] at h
    split_ifs at h with hf
    obtain ⟨hfree, hI'⟩ := hI.freeFrame debug hf
    rw [hfree, Option.map_some, Option.some.injEq] at h
    exact h ▸ hI'

theorem frameInv_of_run {m0 : FrameManager} {ops : List FrameOp}
    (hinit : initFrameManager fuel regions = some m0)
    (hrun : Run.exec (frameStep debug) (m0, []) ops = some s) : FrameInv regions s :=
  Run.exec_invariant' (fun _ _ _ hI h => hI.step h) ops (.init hinit) hrun

/-- After any run of calls the live frames are distinct and aligned, each search stays in its half
of memory and in the offered frames and fails only when its half is used up, a live frame can be
freed, and the live and free frames are those that were free at first. -/
theorem frameManager_correct (debug : Bool) {fuel : ℕ} {m₀ : FrameManager} {ops : List FrameOp}
    (hinit : initFrameManager fuel regions = some m₀)
    (hrun : Run.exec (frameStep debug) (m₀, []) ops = some s) :
    s.2.Nodup ∧ (∀ f ∈ s.2, f % frameSize = 0)
      ∧ (s.1.allocateFrame.1 ≠ 0 → 0x100000 ≤ s.1.allocateFrame.1
          ∧ Offered regions s.1.allocateFrame.1 ∧ s.1.allocateFrame.1 ∉ s.2)
      ∧ (s.1.allocateLowMemory.1 ≠ 0 → 0x2000 ≤ s.1.allocateLowMemory.1
          ∧ s.1.allocateLowMemory.1 < 0x100000 ∧ Offered regions s.1.allocateLowMemory.1
          ∧ s.1.allocateLowMemory.1 ∉ s.2)
      ∧ (s.1.allocateFrame.1 = 0 ↔ ∀ f, Offered regions f → 0x100000 ≤ f → f ∈ s.2)
      ∧ (s.1.allocateLowMemory.1 = 0 ↔ ∀ f, Offered regions f → f < 0x100000 → f ∈ s.2)
      ∧ (∀ f ∈ s.2, ∃ m, s.1.freeFrame debug f = some m)
      ∧ (∀ f, f % frameSize = 0 → (m₀.isFrameAllocated f = false ↔ Offered regions f))
      ∧ ∀ f, f % frameSize = 0 →
          ((f ∈ s.2 ∨ s.1.isFrameAllocated f = false) ↔ m₀.isFrameAllocated f = false)
            ∧ ¬ (f ∈ s.2 ∧ s.1.isFrameAllocated f = false) := by
  have hI := frameInv_of_run hinit hrun
  have hnum : ∀ f, f % frameSize = 0 → f / frameSize * frameSize = f := fun f hf =>
    Nat.div_mul_cancel (Nat.dvd_of_mod_eq_zero hf)
  have h₀ : ∀ f, f % frameSize = 0 → (m₀.isFrameAllocated f = false ↔ Offered regions f) := by
    intro f hf
    have := (FrameInv.init hinit).clear (f / frameSize)
    simpa [hnum f hf, isFrameAllocated] using this
  have hhigh := hI.firstFreeFrame (bitmapWords - 8) 8
  have hlow := hI.firstFreeFrame 8 0
  refine ⟨hI.nodup, fun f hf => (hI.live f hf).bounds.2.2, ?_, ?_, ?_, ?_,
    fun f hf => ⟨_, (hI.freeFrame debug hf).1⟩, h₀, fun f hf => ⟨?_, ?_⟩⟩
  · intro hne
    rcases hhigh with ⟨h, -⟩ | ⟨ho, hl, hlo, -⟩
    · exact absurd h hne
    · exact ⟨hlo, ho, hl⟩
  · intro hne
    rcases hlow with ⟨h, -⟩ | ⟨ho, hl, -, hhi⟩
    · exact absurd h hne
    · exact ⟨ho.bounds.1, hhi, ho, hl⟩
  · rcases hhigh with ⟨h, hall⟩ | ⟨ho, hl, hlo, -⟩
    · refine ⟨fun _ f hf hlo => hall f hf hlo ?_, fun _ => h⟩
      have := hf.bounds.2.1
      simp only [bitmapWords, frameSize]
      omega
    · refine ⟨fun h => ?_, fun hall => absurd (hall _ ho hlo) hl⟩
      have := ho.bounds.1
      simp only [allocateFrame, getFirstFreeHighFrame] at h
      simp only [h, frameSize] at this
      omega
  · rcases hlow with ⟨h, hall⟩ | ⟨ho, hl, -, hhi⟩
    · exact ⟨fun _ f hf hhi => hall f hf (by omega) hhi, fun _ => h⟩
    · refine ⟨fun h => ?_, fun hall => absurd (hall _ ho hhi) hl⟩
      have := ho.bounds.1
      simp only [allocateLowMemory, getFirstFreeLowFrame] at h
      simp only [h, frameSize] at this
      omega
  · have hc := hI.clear (f / frameSize)
    rw [hnum f hf] at hc
    rw [h₀ f hf, isFrameAllocated, hc]
    constructor
    · rintro (h | h)
      · exact hI.live f h
      · exact h.1
    · intro h
      by_cases hl : f ∈ s.2
      · exact .inl hl
      · exact .inr ⟨h, hl⟩
  · rintro ⟨hl, hb⟩
    rw [hI.allocated_of_live hl] at hb
    cases hb

theorem frameManager_correct_two_frames :
    ∃ m₀ s, initFrameManager 4 [⟨true, 0x100000#32, 0x2000#32, .available⟩] = some m₀
      ∧ Run.exec (frameStep true) (m₀, [])
          [.allocateFrame, .allocateFrame, .allocateLowMemory, .freeFrame 0x100000] = some s
      ∧ s.2 = [0x101000] ∧ s.2.Nodup ∧ ∀ f ∈ s.2, f % frameSize = 0 := by
  have hrun : ((initFrameManager 4 [⟨true, 0x100000#32, 0x2000#32, .available⟩]).bind fun m =>
      Run.exec (frameStep true) (m, [])
        [.allocateFrame, .allocateFrame, .allocateLowMemory, .freeFrame 0x100000]).map (·.2)
      = some [0x101000] := by
    decide +kernel
  obtain ⟨s, hs, hlive⟩ := Option.map_eq_some_iff.1 hrun
  obtain ⟨m₀, hinit, hs⟩ := Option.bind_eq_some_iff.1 hs
  have h := frameManager_correct true hinit hs
  exact ⟨m₀, s, hinit, hs, hlive, h.1, h.2.1⟩

/-- After any two runs that leave the same frames out, the bitmap is the same, and so is the frame
that comes next. -/
theorem frameManager_forgets {m₀ : FrameManager} {s' : FrameManager × List ℕ}
    {ops ops' : List FrameOp} (hinit : initFrameManager fuel regions = some m₀)
    (hrun : Run.exec (frameStep debug) (m₀, []) ops = some s)
    (hrun' : Run.exec (frameStep debug) (m₀, []) ops' = some s')
    (hsame : ∀ f, f ∈ s.2 ↔ f ∈ s'.2) :
    s.1.bitmap = s'.1.bitmap ∧ s.1.allocateFrame.1 = s'.1.allocateFrame.1 := by
  have hclear : ∀ n, testBit s.1.bitmap n = false ↔ testBit s'.1.bitmap n = false := by
    intro n
    rw [(frameInv_of_run hinit hrun).clear, (frameInv_of_run hinit hrun').clear, hsame]
  have hbitmap : s.1.bitmap = s'.1.bitmap := by
    funext i
    refine BitVec.eq_of_getLsbD_eq fun j hj => Bool.eq_iff_iff.2 (not_iff_not.1 ?_)
    have h := hclear (32 * i + j)
    simpa [testBit, Nat.mul_add_div, Nat.div_eq_of_lt hj, Nat.mod_eq_of_lt hj] using h
  refine ⟨hbitmap, ?_⟩
  simp only [allocateFrame, getFirstFreeHighFrame, firstFreeFrame, hbitmap]

theorem frameManager_forgets_one :
    ∃ m₀ s, initFrameManager 4 [⟨true, 0x100000#32, 0x2000#32, .available⟩] = some m₀
      ∧ Run.exec (frameStep true) (m₀, []) [.allocateFrame, .freeFrame 0x100000] = some s
      ∧ s.1.bitmap = m₀.bitmap := by
  have hrun : ((initFrameManager 4 [⟨true, 0x100000#32, 0x2000#32, .available⟩]).bind fun m =>
      Run.exec (frameStep true) (m, []) [.allocateFrame, .freeFrame 0x100000]).map (·.2)
      = some [] := by
    decide +kernel
  obtain ⟨s, hs, hlive⟩ := Option.map_eq_some_iff.1 hrun
  obtain ⟨m₀, hinit, hs⟩ := Option.bind_eq_some_iff.1 hs
  have h₀ : Run.exec (frameStep true) (m₀, []) [] = some (m₀, []) := rfl
  exact ⟨m₀, s, hinit, hs, (frameManager_forgets hinit hs h₀ (by simp [hlive])).1⟩

end Calls

end DragonWare
