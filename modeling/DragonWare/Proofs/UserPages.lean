import DragonWare.Lib.Ownership
import DragonWare.Proofs.Frame
import DragonWare.Sharing

/-!
# Frames of an address space

Each frame of a live process has one use: a directory, a page of a kernel stack, a table or a page.
A frame behind a page of the heap has no other use (`FramesKept`). `DeleteProcess` goes once over
the uses of the frames of one process.
-/

namespace DragonWare

open Function List Option Ownership Section Sharing UserPages

variable {base f i start : ℕ} {ok : Bool} {scn scn' : Section}

inductive FrameUse
  | directory
  | stack (i : ℕ)
  | table (i : ℕ)
  | page (n : ℕ)
  deriving DecidableEq, Repr

def UserSpace.frameOf (a : UserSpace) : FrameUse → Option ℕ
  | .directory => some a.cr3
  | .stack i => if i < kernelStackSizePages then some (a.kstacks i) else none
  | .table i => a.table i
  | .page n => a.frameAt n

/-- Who has a frame: a process, for some use, or a block of the heap. -/
inductive FrameHolder
  | process (q : ℕ) (u : FrameUse)
  | heap (x : PageBlock)

/-- The frames of live processes and of the heap. -/
def Sharing.frameOf (s : Sharing) : FrameHolder → Option ℕ
  | .process q u => if s.kernel.live.process q then (s.spaces q).frameOf u else none
  | .heap x => (s.heap x).map Prod.snd

variable {regions : List MemoryRegion} {used : List ℕ} {s s' : Sharing} {q n virt j phys : ℕ}
  {v v' w : UserPages} {debug : Bool} {u : FrameUse} {r : FrameHolder} {st : Status}

structure FramesKept (regions : List MemoryRegion) (used : List ℕ) (s : Sharing) : Prop where
  frames : FrameInv regions (s.frames, used)
  owned : Owned s.frameOf used
  released : ∀ r ∈ s.released, r.2 = true ∧ Offered regions r.1 ∧ r.1 ∉ used

/-! ### One address space -/

theorem Sharing.setPages_pages (s : Sharing) (q : ℕ) : s.setPages q (s.pages q) = s := by
  simp [setPages, pages]

theorem Sharing.frameOf_setPages (hq : s.kernel.live.process q = true) (u : FrameUse) :
    (s.setPages q v).frameOf (.process q u) = v.space.frameOf u := by
  simp [frameOf, setPages, hq]

theorem Sharing.frameOf_setPages_cases (h : (s.setPages q v').frameOf r = some f) :
    (∃ u, r = .process q u ∧ s.kernel.live.process q = true ∧ v'.space.frameOf u = some f)
      ∨ (s.setPages q v).frameOf r = some f := by
  rcases r with ⟨q', u⟩ | x
  · by_cases hq : q' = q
    · subst hq
      simp only [frameOf, setPages, update_self] at h
      split_ifs at h with hl
      exact .inl ⟨u, rfl, hl, h⟩
    · refine .inr ?_
      simpa [frameOf, setPages, update_of_ne hq] using h
  · exact .inr h

theorem Sharing.frameOf_of_sub
    (hsub : ∀ u f, v'.space.frameOf u = some f → v.space.frameOf u = some f)
    (h : (s.setPages q v').frameOf r = some f) : (s.setPages q v).frameOf r = some f := by
  rcases frameOf_setPages_cases (v := v) h with ⟨u, rfl, hl, hf⟩ | hf
  · rw [frameOf_setPages hl]
    exact hsub _ _ hf
  · exact hf

theorem Sharing.frameOf_of_new
    (hnew : ∀ u' g, v'.space.frameOf u' = some g → v.space.frameOf u' = some g ∨ u' = u ∧ g = f)
    (r : FrameHolder) (g : ℕ) (h : (s.setPages q v').frameOf r = some g) :
    (s.setPages q v).frameOf r = some g ∨ r = .process q u ∧ g = f := by
  rcases frameOf_setPages_cases (v := v) h with ⟨u', rfl, hl, hf⟩ | hf
  · rcases hnew _ _ hf with hf | ⟨rfl, hg⟩
    · refine .inl ?_
      rw [frameOf_setPages hl]
      exact hf
    · exact .inr ⟨rfl, hg⟩
  · exact .inl hf

/-! ### Mapping a page -/

namespace UserPages

variable {f : ℕ}

theorem frameAt_setPage (v : UserPages) (n : ℕ) (f : Option ℕ) (m : ℕ) :
    (v.setPage n f).space.frameAt m
      = if m = n ∧ (v.space.table (n / maxPTEntries)).isSome then f
        else if m = n then none else v.space.frameAt m := by
  by_cases hm : m = n
  · subst hm
    by_cases ht : (v.space.table (m / maxPTEntries)).isSome
    · simp [setPage, UserSpace.frameAt, ht]
    · simp [setPage, UserSpace.frameAt, ht]
  · simp [setPage, UserSpace.frameAt, hm]

theorem frameOf_setPage_none (h : (v.setPage n none).space.frameOf u = some f) :
    v.space.frameOf u = some f ∧ u ≠ .page n := by
  cases u with
  | directory | stack i | table i => exact ⟨h, by simp⟩
  | page m =>
    simp only [UserSpace.frameOf, frameAt_setPage] at h
    split_ifs at h with h1 h2
    exact ⟨h, by simpa using h2⟩

theorem frameOf_setPage (u : FrameUse) (g : ℕ)
    (h : (v.setPage n (some f)).space.frameOf u = some g) :
    v.space.frameOf u = some g ∨ u = .page n ∧ g = f := by
  cases u with
  | directory | stack i | table i => exact .inl h
  | page m =>
    simp only [UserSpace.frameOf, frameAt_setPage] at h
    split_ifs at h with h1 h2
    · exact .inr ⟨by rw [h1.1], (some.inj h).symm⟩
    · exact .inl h

theorem frameAt_addTable (ht : v.space.table i = none) (n : ℕ) :
    (v.addTable i f).space.frameAt n = v.space.frameAt n := by
  by_cases hn : n / maxPTEntries = i
  · subst hn
    simp [addTable, UserSpace.frameAt, ht]
  · simp [addTable, UserSpace.frameAt, hn]

theorem frameOf_addTable (ht : v.space.table i = none) (u : FrameUse) (g : ℕ)
    (h : (v.addTable i f).space.frameOf u = some g) :
    v.space.frameOf u = some g ∨ u = .table i ∧ g = f := by
  cases u with
  | directory | stack k => exact .inl h
  | table k =>
    by_cases hk : k = i
    · subst hk
      simp only [UserSpace.frameOf, addTable, update_self, some.injEq] at h
      exact .inr ⟨rfl, h.symm⟩
    · simp only [UserSpace.frameOf, addTable, update_of_ne hk] at h
      exact .inl h
  | page n =>
    simp only [UserSpace.frameOf, frameAt_addTable ht] at h
    exact .inl h

theorem mapSinglePage_cases (h : v.mapSinglePage phys virt = (st, v')) :
    (st ≠ .ok ∧ (v' = v ∨ v.frames.allocateFrame.1 = 0
        ∧ v' = { v with frames := v.frames.allocateFrame.2 }))
    ∨ ∃ w, (w = v ∨ v.frames.allocateFrame.1 ≠ 0
          ∧ v.space.table (virt / frameSize / maxPTEntries) = none
          ∧ w = ({ v with frames := v.frames.allocateFrame.2 }).addTable
            (virt / frameSize / maxPTEntries) v.frames.allocateFrame.1)
        ∧ (w.space.table (virt / frameSize / maxPTEntries)).isSome
        ∧ ((st ≠ .ok ∧ v' = w)
          ∨ (st = .ok ∧ v' = w.setPage (virt / frameSize) (some phys))) := by
  unfold mapSinglePage at h
  by_cases hbad : virt = 0 ∨ phys % frameSize ≠ 0 ∨ virt % frameSize ≠ 0
  · rw [if_pos hbad] at h
    cases h
    exact .inl ⟨by simp, .inl rfl⟩
  rw [if_neg hbad] at h
  simp only at h
  by_cases ht : (v.space.table (virt / frameSize / maxPTEntries)).isSome
  · rw [if_pos ht] at h
    refine .inr ⟨v, .inl rfl, ht, ?_⟩
    split_ifs at h
    · cases h
      exact .inl ⟨by simp, rfl⟩
    · cases h
      exact .inr ⟨rfl, rfl⟩
  rw [if_neg ht] at h
  by_cases h0 : v.frames.allocateFrame.1 = 0
  · rw [if_pos h0] at h
    cases h
    exact .inl ⟨by simp, .inr ⟨h0, rfl⟩⟩
  rw [if_neg h0] at h
  refine .inr ⟨_, .inr ⟨h0, by simpa using ht, rfl⟩, by simp [addTable], ?_⟩
  split_ifs at h
  · cases h
    exact .inl ⟨by simp, rfl⟩
  · cases h
    exact .inr ⟨rfl, rfl⟩

theorem unmapSinglePage_cases (h : v.unmapSinglePage debug virt = some v') :
    v'.frames = v.frames ∧ v'.released = v.released
      ∧ ∀ u f, v'.space.frameOf u = some f →
        v.space.frameOf u = some f ∧ u ≠ .page (virt / frameSize) := by
  unfold unmapSinglePage at h
  split_ifs at h with hal hno
  · cases h
    refine ⟨rfl, rfl, fun u f hf => ⟨hf, ?_⟩⟩
    rintro rfl
    simp only [UserSpace.frameOf] at hf
    simp [hf] at hno
  · cases h
    exact ⟨rfl, rfl, fun u f hf => frameOf_setPage_none hf⟩

end UserPages

namespace FramesKept

section

variable (h : FramesKept regions used (s.setPages q v))

include h

theorem allocateFrame (hrel : v.released = []) :
    (v.frames.allocateFrame.1 = 0
        ∧ FramesKept regions used (s.setPages q { v with frames := v.frames.allocateFrame.2 }))
      ∨ (v.frames.allocateFrame.1 ≠ 0 ∧ v.frames.allocateFrame.1 ∉ used
        ∧ FramesKept regions (v.frames.allocateFrame.1 :: used)
          (s.setPages q { v with frames := v.frames.allocateFrame.2 })) := by
  have hnone : ∀ r ∈ (s.setPages q { v with frames := v.frames.allocateFrame.2 }).released,
      False := by
    intro r hr
    simp [setPages, hrel] at hr
  rcases FrameInv.allocateFrame h.frames with ⟨h0, hI⟩ | ⟨hne, hnew, -, hI⟩
  · exact .inl ⟨h0, hI, h.owned, fun r hr => (hnone r hr).elim⟩
  · exact .inr ⟨hne, hnew, hI, h.owned.mono (subset_cons_self _ _),
      fun r hr => (hnone r hr).elim⟩

theorem addTable (hrel : v.released = []) (hne : v.frames.allocateFrame.1 ≠ 0)
    (ht : v.space.table i = none) :
    FramesKept regions (v.frames.allocateFrame.1 :: used) (s.setPages q
      (({ v with frames := v.frames.allocateFrame.2 }).addTable i v.frames.allocateFrame.1)) := by
  rcases h.allocateFrame hrel with ⟨h0, -⟩ | ⟨-, hnew, h'⟩
  · exact absurd h0 hne
  · exact ⟨h'.frames, h.owned.take hnew
      (frameOf_of_new (frameOf_addTable ht)), h'.released⟩

theorem mapSinglePage (hrel : v.released = []) (hmem : phys ∈ used)
    (hfree : ∀ r, (s.setPages q v).frameOf r ≠ some phys)
    (heq : v.mapSinglePage phys virt = (st, v')) :
    ∃ used', FramesKept regions used' (s.setPages q v') ∧ v'.released = [] ∧ phys ∈ used'
      ∧ (∀ n f, v.space.frameAt n = some f → n ≠ virt / frameSize →
        v'.space.frameAt n = some f)
      ∧ (st = .ok → v'.space.frameAt (virt / frameSize) = some phys)
      ∧ (st ≠ .ok → (∀ r, (s.setPages q v').frameOf r ≠ some phys)
        ∧ ∀ n f, v.space.frameAt n = some f → v'.space.frameAt n = some f) := by
  rcases mapSinglePage_cases heq with ⟨hst, rfl | ⟨h0, rfl⟩⟩ | ⟨w, hw, htab, hres⟩
  · exact ⟨used, h, hrel, hmem, fun n f hf _ => hf, fun hok => absurd hok hst,
      fun _ => ⟨hfree, fun n f hf => hf⟩⟩
  · rcases h.allocateFrame hrel with ⟨-, h'⟩ | ⟨hne, -⟩
    · exact ⟨used, h', hrel, hmem, fun n f hf _ => hf, fun hok => absurd hok hst,
        fun _ => ⟨hfree, fun n f hf => hf⟩⟩
    · exact absurd h0 hne
  obtain ⟨used', hk, hrel', hmem', hfree', hat⟩ : ∃ used',
      FramesKept regions used' (s.setPages q w) ∧ w.released = [] ∧ phys ∈ used'
        ∧ (∀ r, (s.setPages q w).frameOf r ≠ some phys)
        ∧ ∀ n, w.space.frameAt n = v.space.frameAt n := by
    rcases hw with rfl | ⟨hne, ht, rfl⟩
    · exact ⟨used, h, hrel, hmem, hfree, fun n => rfl⟩
    rcases h.allocateFrame hrel with ⟨h0, -⟩ | ⟨-, hnew, -⟩
    · exact absurd h0 hne
    refine ⟨_, h.addTable hrel hne ht, hrel, mem_cons_of_mem _ hmem, fun r hr => ?_,
      fun n => frameAt_addTable (v := { v with frames := _ }) ht n⟩
    rcases frameOf_of_new (v := v) (frameOf_addTable ht) r phys hr
      with hr | ⟨-, hf⟩
    · exact hfree r hr
    · exact hnew (hf ▸ hmem)
  rcases hres with ⟨hst, rfl⟩ | ⟨rfl, rfl⟩
  · refine ⟨used', hk, hrel', hmem', fun n f hf _ => ?_, fun hok => absurd hok hst,
      fun _ => ⟨hfree', fun n f hf => ?_⟩⟩
    · rw [hat, hf]
    · rw [hat, hf]
  refine ⟨used', ⟨hk.frames, hk.owned.give hmem' hfree'
    (frameOf_of_new frameOf_setPage), hk.released⟩, hrel', hmem',
    fun n f hf hn => ?_, fun _ => ?_, fun hst => absurd rfl hst⟩
  · rw [frameAt_setPage, if_neg (fun h => hn h.1), if_neg hn, hat, hf]
  · rw [frameAt_setPage, if_pos ⟨rfl, htab⟩]

end

end FramesKept

/-! ### Giving frames back -/

/-- Between `v` and `v'` the frames that meet `gone` were released, and nothing else happened. -/
structure Frees (regions : List MemoryRegion) (gone : ℕ → Prop) (used : List ℕ) (v : UserPages)
    (used' : List ℕ) (v' : UserPages) : Prop where
  space : v'.space = v.space
  frames : FrameInv regions (v'.frames, used')
  mem : ∀ f, f ∈ used' ↔ f ∈ used ∧ ¬ gone f
  released : ∀ r ∈ v'.released, r ∈ v.released ∨ r.2 = true ∧ r.1 ∈ used ∧ gone r.1

namespace Frees

variable {gone gone' : ℕ → Prop} {used' : List ℕ}

theorem refl (hI : FrameInv regions (v.frames, used)) (hno : ∀ f ∈ used, ¬ gone f) :
    Frees regions gone used v used v :=
  ⟨rfl, hI, fun f => ⟨fun hf => ⟨hf, hno f hf⟩, And.left⟩, fun _ hr => .inl hr⟩

theorem congr (h : Frees regions gone used v used' v') (hiff : ∀ f, gone f ↔ gone' f) :
    Frees regions gone' used v used' v' := by
  obtain rfl : gone = gone' := funext fun f => propext (hiff f)
  exact h

theorem freeFrame (h : Frees regions gone used v used' v') (hf : f ∈ used) (hno : ¬ gone f)
    (heq : v'.freeFrame debug f = some w) :
    Frees regions (fun g => gone g ∨ g = f) used v (used'.erase f) w := by
  have hmem : f ∈ used' := (h.mem f).2 ⟨hf, hno⟩
  obtain ⟨hfree, hI⟩ := h.frames.freeFrame debug hmem
  obtain ⟨frames, hfr, rfl⟩ := map_eq_some_iff.1 heq
  obtain rfl : _ = frames := some.inj (hfree.symm.trans hfr)
  refine ⟨h.space, hI, fun g => ?_, fun r hr => ?_⟩
  · rw [h.frames.nodup.mem_erase_iff, h.mem g]
    tauto
  · rcases mem_cons.1 hr with rfl | hr
    · exact .inr ⟨h.frames.allocated_of_live hmem, hf, .inr rfl⟩
    · rcases h.released r hr with hr | ⟨htrue, hin, hg⟩
      · exact .inl hr
      · exact .inr ⟨htrue, hin, .inl hg⟩

theorem times {g : ℕ → ℕ} (hI : FrameInv regions (v.frames, used)) (hmem : ∀ i < n, g i ∈ used)
    (hinj : ∀ i < n, ∀ j < n, g i = g j → i = j)
    (heq : Loop.times (fun i v => v.freeFrame debug (g i)) n v = some v') :
    ∃ used', Frees regions (fun f => ∃ i < n, g i = f) used v used' v' := by
  refine Loop.times_invariant (I := fun k w =>
    ∃ used', Frees regions (fun f => ∃ i < k, g i = f) used v used' w) n ?_ ?_ heq
  · rintro k hk w w' ⟨used', hF⟩ hw
    refine ⟨_, (hF.freeFrame (hmem k hk) ?_ hw).congr fun f => ?_⟩
    · rintro ⟨i, hi, hgi⟩
      have := hinj i (hi.trans hk) k hk hgi
      omega
    · constructor
      · rintro (⟨i, hi, rfl⟩ | rfl)
        · exact ⟨i, by omega, rfl⟩
        · exact ⟨k, by omega, rfl⟩
      · rintro ⟨i, hi, rfl⟩
        rcases Nat.lt_succ_iff_lt_or_eq.1 hi with hi | rfl
        · exact .inl ⟨i, hi, rfl⟩
        · exact .inr rfl
  · exact ⟨used, refl hI fun f _ ⟨i, hi, _⟩ => by omega⟩

end Frees

theorem FramesKept.of_frees {gone : ℕ → Prop} {used' : List ℕ}
    (h : FramesKept regions used (s.setPages q v)) (hF : Frees regions gone used v used' w)
    (hframes : v'.frames = w.frames) (hrel : v'.released = w.released)
    (hsub : ∀ u f, v'.space.frameOf u = some f → v.space.frameOf u = some f)
    (hgone : ∀ r f, (s.setPages q v').frameOf r = some f → ¬ gone f) :
    FramesKept regions used' (s.setPages q v') := by
  refine ⟨?_, (h.owned.drop fun r f => frameOf_of_sub hsub).restrict
    fun r f hr hf => (hF.mem f).2 ⟨hf, hgone r f hr⟩, fun r hr => ?_⟩
  · change FrameInv regions (v'.frames, used')
    rw [hframes]
    exact hF.frames
  · change r ∈ v'.released at hr
    rw [hrel] at hr
    rcases hF.released r hr with hr | ⟨htrue, hin, hg⟩
    · obtain ⟨htrue, hoff, hno⟩ := h.released r hr
      exact ⟨htrue, hoff, fun hmem => hno ((hF.mem _).1 hmem).1⟩
    · exact ⟨htrue, h.frames.live _ hin, fun hmem => ((hF.mem _).1 hmem).2 hg⟩

/-! ### Pages of the heap -/

/-- The page of the block is mapped to the frame that `FreeVirtualPage` gives back. -/
def Sharing.AtOffset (s : Sharing) (x : PageBlock) : Prop := ∀ e ∈ s.heap x, e.2 = virtToPhys e.1

instance (s : Sharing) (x : PageBlock) : Decidable (s.AtOffset x) := by
  unfold Sharing.AtOffset
  infer_instance

theorem Sharing.freeVirtualPage_iff {x : PageBlock} :
    s.freeVirtualPage debug x = some s' ↔ ∃ e ∈ s.heap x, ∃ frames,
      s.frames.freeFrame debug (virtToPhys e.1) = some frames
      ∧ s' = { s with
        heap := update s.heap x none, frames
        released :=
          (virtToPhys e.1, s.frames.isFrameAllocated (virtToPhys e.1)) :: s.released } := by
  have hfree (f : ℕ) : Sharing.freeFrame debug { s with heap := update s.heap x none } f
      = (s.frames.freeFrame debug f).map fun frames => { s with
        heap := update s.heap x none, frames
        released := (f, s.frames.isFrameAllocated f) :: s.released } := by
    simp [Sharing.freeFrame, UserPages.freeFrame, setPages, pages, Function.comp_def]
  constructor
  · intro h
    obtain ⟨e, he, h⟩ := bind_eq_some_iff.1 h
    obtain ⟨frames, hframes, rfl⟩ := map_eq_some_iff.1 ((hfree _).symm.trans h)
    exact ⟨e, he, frames, hframes, rfl⟩
  · rintro ⟨e, he, frames, hframes, rfl⟩
    exact bind_eq_some_iff.2 ⟨e, he, (hfree _).trans (map_eq_some_iff.2 ⟨frames, hframes, rfl⟩)⟩

theorem Sharing.freeVirtualPage_kernel {x : PageBlock} (h : s.freeVirtualPage debug x = some s') :
    s'.kernel = s.kernel := by
  obtain ⟨-, -, -, -, rfl⟩ := freeVirtualPage_iff.1 h
  rfl

theorem Sharing.allocateVirtualPage_kernel {x : PageBlock} {page : Option ℕ}
    (h : s.allocateVirtualPage debug x page = some (ok, s')) : s'.kernel = s.kernel := by
  unfold allocateVirtualPage at h
  simp only at h
  split_ifs at h
  · cases h
    rfl
  cases page with
  | some a =>
    cases h
    rfl
  | none =>
    obtain ⟨t, ht, h⟩ := map_eq_some_iff.1 h
    cases h
    obtain ⟨v, -, rfl⟩ := map_eq_some_iff.1 ht
    rfl

namespace FramesKept

variable {x : PageBlock} {page : Option ℕ} (h : FramesKept regions used s)

include h

theorem freeFrame (hf : f ∈ used) (hno : ∀ r, s.frameOf r ≠ some f)
    (heq : s.freeFrame debug f = some s') : FramesKept regions (used.erase f) s' := by
  obtain ⟨v, hv, rfl⟩ := map_eq_some_iff.1 heq
  rw [← s.setPages_pages 0] at h
  have hnone : ∀ g ∈ used, ¬ (fun _ => False) g := fun _ _ => id
  have hF := (Frees.refl h.frames hnone).freeFrame hf id hv
  refine h.of_frees hF rfl rfl (fun u g hu => hF.space ▸ hu) ?_
  rintro r g hr (hg | rfl)
  · exact hg
  · refine hno r ?_
    rw [← s.setPages_pages 0]
    exact frameOf_of_sub (fun u g hu => hF.space ▸ hu) hr

theorem freeVirtualPage (hx : s.AtOffset x) (heq : s.freeVirtualPage debug x = some s') :
    ∃ used', FramesKept regions used' s' := by
  obtain ⟨⟨page, f⟩, hpage, heq⟩ := bind_eq_some_iff.1 heq
  have hold : s.frameOf (.heap x) = some (virtToPhys page) := by
    rw [← show f = virtToPhys page from hx _ hpage]
    exact congrArg (Option.map Prod.snd) hpage
  -- the block is gone first, so the frame has no use any more
  have hsub (r : FrameHolder) (g : ℕ)
      (hr : frameOf { s with heap := update s.heap x none } r = some g) :
      s.frameOf r = some g ∧ r ≠ .heap x := by
    rcases r with ⟨q, u⟩ | y
    · exact ⟨hr, nofun⟩
    · by_cases hy : y = x
      · simp [frameOf, hy] at hr
      · simpa [frameOf, hy] using hr
  have hdrop : FramesKept regions used { s with heap := update s.heap x none } :=
    ⟨h.frames, h.owned.drop fun r g hr => (hsub r g hr).1, h.released⟩
  refine ⟨_, hdrop.freeFrame (h.owned.live _ _ hold) (fun r hr => ?_) heq⟩
  obtain ⟨hr, hne⟩ := hsub r _ hr
  exact hne (h.owned.inj _ _ _ hr hold)

theorem allocateVirtualPage (hrel : s.released = []) {ok : Bool}
    (heq : s.allocateVirtualPage debug x page = some (ok, s')) :
    ∃ used', FramesKept regions used' s' := by
  have hnone : ∀ r ∈ s.released, r.2 = true ∧ Offered regions r.1
      ∧ r.1 ∉ s.frames.allocateFrame.1 :: used := by
    simp [hrel]
  unfold Sharing.allocateVirtualPage at heq
  simp only at heq
  rcases FrameInv.allocateFrame h.frames with ⟨h0, hI⟩ | ⟨hne, hnew, -, hI⟩
  · rw [if_pos h0] at heq
    cases heq
    exact ⟨used, hI, h.owned, h.released⟩
  rw [if_neg hne] at heq
  have h' : FramesKept regions (s.frames.allocateFrame.1 :: used)
      { s with frames := s.frames.allocateFrame.2 } :=
    ⟨hI, h.owned.mono (subset_cons_self _ _), hnone⟩
  have hfree (r : FrameHolder) : s.frameOf r ≠ some s.frames.allocateFrame.1 := fun hr =>
    hnew (h.owned.live r _ hr)
  cases page with
  | none =>
    obtain ⟨t, ht, heq⟩ := map_eq_some_iff.1 heq
    cases heq
    exact ⟨_, h'.freeFrame (mem_cons_self ..) hfree ht⟩
  | some page =>
    cases heq
    refine ⟨_, h'.frames, h'.owned.give (r := .heap x) (mem_cons_self ..) hfree ?_, h'.released⟩
    rintro (⟨q, u⟩ | y) g hr
    · exact .inl hr
    · by_cases hy : y = x
      · subst hy
        simp only [frameOf, update_self, map_some, some.injEq] at hr
        exact .inr ⟨rfl, hr.symm⟩
      · refine .inl ?_
        simpa [frameOf, hy] using hr

end FramesKept

/-! ### `MapSection` -/

def sectionPage (start i : ℕ) : ℕ := (start + i * frameSize) / frameSize

theorem Section.setFrame_self (scn : Section) (i phys : ℕ) :
    (scn.setFrame i phys).physframes i = phys := update_self ..

theorem Section.setFrame_of_ne (scn : Section) (h : j ≠ i) (phys : ℕ) :
    (scn.setFrame i phys).physframes j = scn.physframes j := update_of_ne h ..

theorem sectionPage_inj (h : sectionPage start i = sectionPage start j) : i = j := by
  simp only [sectionPage, frameSize] at h
  omega

def Section.Unbacked (scn : Section) : Prop := ∀ i < scn.nPages, scn.physframes i = 0

instance (scn : Section) : Decidable scn.Unbacked :=
  inferInstanceAs (Decidable (∀ i < scn.nPages, scn.physframes i = 0))

/-- The state of the loop before round `i`, for a section that had no frames: the pages so far are
mapped to the frames so far. -/
structure Mapping (regions : List MemoryRegion) (s : Sharing) (q nPages start i : ℕ)
    (x : SectionMap UserPages) : Prop where
  kept : ∃ used, FramesKept regions used (s.setPages q x.mem)
  released : x.mem.released = []
  allocated : x.framesAllocated = i
  mapped : x.pagesMapped = i
  backed : ∀ j < i, x.mem.space.frameAt (sectionPage start j) = some (x.scn.physframes j)
  unset : ∀ j < nPages, i ≤ j → x.scn.physframes j = 0

/-- The state in which round `i` goes to `fail`. The frame of the round may have been taken, and
then it has no use. -/
structure MapFailed (regions : List MemoryRegion) (used : List ℕ) (s : Sharing) (q start i : ℕ)
    (x : SectionMap UserPages) : Prop where
  kept : FramesKept regions used (s.setPages q x.mem)
  mapped : x.pagesMapped = i
  backed : ∀ j < i, x.mem.space.frameAt (sectionPage start j) = some (x.scn.physframes j)
  allocated : x.framesAllocated = i ∨ (x.framesAllocated = i + 1 ∧ x.scn.physframes i ∈ used
    ∧ ∀ r, (s.setPages q x.mem).frameOf r ≠ some (x.scn.physframes i))

theorem Section.mapRound_cases {σ : Type} {P : Paging σ} {x y : SectionMap σ}
    (h0 : x.scn.physframes i = 0) (h : mapRound P start i x = some (ok, y)) :
    ((P.allocateFrame x.mem).1 = 0 ∧ ok = false
      ∧ y = { x with scn := x.scn.setFrame i 0, mem := (P.allocateFrame x.mem).2 })
    ∨ ((P.allocateFrame x.mem).1 ≠ 0 ∧ ∃ st mem,
        P.mapSinglePage (P.allocateFrame x.mem).1 (start + i * frameSize)
          (x.scn.setFrame i (P.allocateFrame x.mem).1).flags (P.allocateFrame x.mem).2 = (st, mem)
        ∧ ((st ≠ .ok ∧ ok = false ∧ y = ⟨x.scn.setFrame i (P.allocateFrame x.mem).1, mem,
            x.framesAllocated + 1, x.pagesMapped⟩)
          ∨ (st = .ok ∧ ok = true ∧ ∃ mem', P.zeroPage (start + i * frameSize) mem = some mem'
            ∧ y = ⟨x.scn.setFrame i (P.allocateFrame x.mem).1, mem', x.framesAllocated + 1,
              x.pagesMapped + 1⟩))) := by
  unfold mapRound at h
  simp only [h0, lt_irrefl, if_false] at h
  by_cases hz : (P.allocateFrame x.mem).1 = 0
  · rw [if_pos hz] at h
    cases h
    exact .inl ⟨hz, rfl, by rw [hz]⟩
  rw [if_neg hz] at h
  refine .inr ⟨hz, ?_⟩
  obtain ⟨st, mem, hmap⟩ : ∃ st mem, P.mapSinglePage (P.allocateFrame x.mem).1
      (start + i * frameSize) (x.scn.setFrame i (P.allocateFrame x.mem).1).flags
      (P.allocateFrame x.mem).2 = (st, mem) := ⟨_, _, rfl⟩
  refine ⟨st, mem, hmap, ?_⟩
  rw [hmap] at h
  cases st with
  | ok =>
    obtain ⟨mem', hmem', heq⟩ := map_eq_some_iff.1 h
    cases heq
    exact .inr ⟨rfl, rfl, mem', hmem', rfl⟩
  | _ =>
    cases h
    exact .inl ⟨by simp, rfl, rfl⟩

theorem Mapping.mapRound {nPages : ℕ} {x y : SectionMap UserPages}
    (h : Mapping regions s q nPages start i x) (hi : i < nPages)
    (heq : mapRound (paging debug) start i x = some (ok, y)) :
    (ok = true ∧ Mapping regions s q nPages start (i + 1) y)
      ∨ (ok = false ∧ ∃ used, MapFailed regions used s q start i y) := by
  obtain ⟨used, hk⟩ := h.kept
  rcases mapRound_cases (h.unset i hi le_rfl) heq with
    ⟨h0, rfl, rfl⟩ | ⟨hne, st, mem, hmap, hres⟩
  · rcases hk.allocateFrame h.released with ⟨-, hk'⟩ | ⟨hne, -⟩
    · refine .inr ⟨rfl, used, hk', h.mapped, fun j hj => ?_, .inl h.allocated⟩
      rw [x.scn.setFrame_of_ne (by omega)]
      exact h.backed j hj
    · exact absurd h0 hne
  change UserPages.mapSinglePage x.mem.frames.allocateFrame.1 (start + i * frameSize)
    { x.mem with frames := x.mem.frames.allocateFrame.2 } = (st, mem) at hmap
  rcases hk.allocateFrame h.released with ⟨h0, -⟩ | ⟨-, hnew, hk'⟩
  · exact absurd h0 hne
  -- the new frame has no use: it was not in use at all
  obtain ⟨used', hk'', hrel, hmem, hother, hok, hfail⟩ := hk'.mapSinglePage h.released
    (mem_cons_self ..) (fun r hr => hnew (hk.owned.live r _ hr)) hmap
  have hpages : ∀ j < i, mem.space.frameAt (sectionPage start j) = some
      ((x.scn.setFrame i x.mem.frames.allocateFrame.1).physframes j) := by
    intro j hj
    rw [x.scn.setFrame_of_ne (by omega)]
    refine hother _ _ (h.backed j hj) fun heq => ?_
    have := sectionPage_inj (show sectionPage start j = sectionPage start i from heq)
    omega
  rcases hres with ⟨hst, rfl, rfl⟩ | ⟨rfl, rfl, mem', hzero, rfl⟩
  · refine .inr ⟨rfl, used', hk'', h.mapped, hpages,
      .inr ⟨congrArg (· + 1) h.allocated, ?_, ?_⟩⟩
    · change (x.scn.setFrame i x.mem.frames.allocateFrame.1).physframes i ∈ used'
      rw [x.scn.setFrame_self]
      exact hmem
    · change ∀ r, (s.setPages q mem).frameOf r
        ≠ some ((x.scn.setFrame i x.mem.frames.allocateFrame.1).physframes i)
      rw [x.scn.setFrame_self]
      exact (hfail hst).1
  · obtain rfl : mem = mem' := by
      simp only [paging] at hzero
      split_ifs at hzero
      exact some.inj hzero
    refine .inl ⟨rfl, ⟨used', hk''⟩, hrel, congrArg (· + 1) h.allocated,
      congrArg (· + 1) h.mapped, fun j hj => ?_, fun j hj hij => ?_⟩
    · rcases Nat.lt_succ_iff_lt_or_eq.1 hj with hj | rfl
      · exact hpages j hj
      · change mem.space.frameAt _
          = some ((x.scn.setFrame j x.mem.frames.allocateFrame.1).physframes j)
        rw [x.scn.setFrame_self]
        exact hok rfl
    · exact (x.scn.setFrame_of_ne (by omega) _).trans (h.unset j hj (by omega))

theorem Mapping.mapLoop {nPages : ℕ} {y : SectionMap UserPages} :
    ∀ (n i : ℕ) {x : SectionMap UserPages}, i + n = nPages →
      Mapping regions s q nPages start i x →
      mapLoop (paging debug) start n i x = some (ok, y) →
      (ok = true ∧ Mapping regions s q nPages start nPages y)
        ∨ (ok = false ∧ ∃ i used, MapFailed regions used s q start i y)
  | 0, i, x, hi, h, heq => by
    obtain rfl : i = nPages := by omega
    cases heq
    exact .inl ⟨rfl, h⟩
  | n + 1, i, x, hi, h, heq => by
    obtain ⟨⟨b, z⟩, hz, heq⟩ := bind_eq_some_iff.1 heq
    rcases h.mapRound (by omega) hz with ⟨rfl, h'⟩ | ⟨rfl, used, h'⟩
    · exact Mapping.mapLoop n (i + 1) (by omega) h' heq
    · cases heq
      exact .inr ⟨rfl, i, used, h'⟩

theorem times_unmapSinglePage
    (heq : Loop.times (fun i v => v.unmapSinglePage debug (start + i * frameSize)) n v = some v') :
    v'.frames = v.frames ∧ v'.released = v.released
      ∧ ∀ u f, v'.space.frameOf u = some f →
        v.space.frameOf u = some f ∧ ∀ i < n, u ≠ .page (sectionPage start i) := by
  refine Loop.times_invariant (I := fun k w => w.frames = v.frames ∧ w.released = v.released
      ∧ ∀ u f, w.space.frameOf u = some f →
        v.space.frameOf u = some f ∧ ∀ i < k, u ≠ .page (sectionPage start i)) n ?_ ?_ heq
  · rintro k hk w w' ⟨hf, hr, hsub⟩ hw
    obtain ⟨hf', hr', hsub'⟩ := UserPages.unmapSinglePage_cases hw
    refine ⟨hf'.trans hf, hr'.trans hr, fun u f hu => ?_⟩
    obtain ⟨hu', hne⟩ := hsub' u f hu
    obtain ⟨hu'', hall⟩ := hsub u f hu'
    refine ⟨hu'', fun i hi => ?_⟩
    rcases Nat.lt_succ_iff_lt_or_eq.1 hi with hi | rfl
    · exact hall i hi
    · exact hne
  · exact ⟨rfl, rfl, fun u f hu => ⟨hu, fun i hi => by omega⟩⟩

theorem MapFailed.mapFail {x : SectionMap UserPages} (h : MapFailed regions used s q start i x)
    (hq : s.kernel.live.process q = true)
    (heq : Section.mapFail (paging debug) start x = some (scn, v')) :
    ∃ used', FramesKept regions used' (s.setPages q v') := by
  unfold Section.mapFail at heq
  split_ifs at heq with hmany
  · cases heq
    exact ⟨used, h.kept⟩
  obtain ⟨w, hw, heq⟩ := bind_eq_some_iff.1 heq
  obtain ⟨v'', hv, heq⟩ := bind_eq_some_iff.1 heq
  cases heq
  have huse : ∀ j < i, (s.setPages q x.mem).frameOf (.process q (.page (sectionPage start j)))
      = some (x.scn.physframes j) := fun j hj => by
    rw [frameOf_setPages hq]
    exact h.backed j hj
  -- a frame that was taken is that of its own page, unless it is the last one, without a use
  have hcases : ∀ j < x.framesAllocated, j < i
      ∨ (j = i ∧ x.scn.physframes i ∈ used
        ∧ ∀ r, (s.setPages q x.mem).frameOf r ≠ some (x.scn.physframes i)) := by
    intro j hj
    rcases h.allocated with hall | ⟨hall, hmem, hfree⟩
    · exact .inl (by omega)
    · by_cases hji : j < i
      · exact .inl hji
      · exact .inr ⟨by omega, hmem, hfree⟩
  have hmem : ∀ j < x.framesAllocated, x.scn.physframes j ∈ used := by
    intro j hj
    rcases hcases j hj with hji | ⟨rfl, hmem, -⟩
    · exact h.kept.owned.live _ _ (huse j hji)
    · exact hmem
  have hinj : ∀ j < x.framesAllocated, ∀ k < x.framesAllocated,
      x.scn.physframes j = x.scn.physframes k → j = k := by
    intro j hj k hk heq
    rcases hcases j hj with hji | ⟨rfl, -, hfree⟩
    · rcases hcases k hk with hki | ⟨rfl, -, hfree⟩
      · have huses := h.kept.owned.inj _ _ _ (huse j hji) (heq ▸ huse k hki)
        simp only [FrameHolder.process.injEq, true_and, FrameUse.page.injEq] at huses
        exact sectionPage_inj huses
      · exact absurd (heq ▸ huse j hji) (hfree _)
    · rcases hcases k hk with hki | ⟨rfl, -, -⟩
      · exact absurd (heq ▸ huse k hki) (hfree _)
      · rfl
  obtain ⟨used', hF⟩ := Frees.times h.kept.frames hmem hinj hw
  obtain ⟨hframes, hrel, hsub⟩ := times_unmapSinglePage hv
  refine ⟨used', h.kept.of_frees hF hframes hrel (fun u f hu => ?_) ?_⟩
  · rw [← hF.space]
    exact (hsub u f hu).1
  · rintro r f hr ⟨j, hj, rfl⟩
    have hr' := frameOf_of_sub (v := x.mem)
      (fun u f hu => hF.space ▸ (hsub u f hu).1) hr
    rcases hcases j hj with hji | ⟨rfl, -, hfree⟩
    · obtain rfl := h.kept.owned.inj _ _ _ hr' (huse j hji)
      rw [frameOf_setPages hq] at hr
      exact (hsub _ _ hr).2 j (h.mapped.symm ▸ hji) rfl
    · exact hfree r hr'

theorem Section.mapRequest_cases {σ : Type} {P : Paging σ} {mapped : Bool} {mem : σ}
    {r : Option (Section × σ)} (h : mapRequest P (some scn) mapped mem = some (st, r)) :
    r = none ∨ ∃ base scn' mem', scn.mapSection P mem = some (base, scn', mem')
      ∧ r = some (scn', mem') := by
  unfold mapRequest at h
  split_ifs at h
  · cases h
    exact .inl rfl
  · obtain ⟨⟨base, scn', mem'⟩, hmap, heq⟩ := map_eq_some_iff.1 h
    cases heq
    exact .inr ⟨base, scn', mem', hmap, rfl⟩

theorem FramesKept.mapSection (h : FramesKept regions used (s.setPages q v))
    (hrel : v.released = []) (hq : s.kernel.live.process q = true) (hscn : scn.Unbacked)
    (heq : scn.mapSection (paging debug) v = some (base, scn', v')) :
    ∃ used', FramesKept regions used' (s.setPages q v') := by
  unfold Section.mapSection at heq
  obtain ⟨start, hstart⟩ : ∃ start, start = findFreePageRange
      (fun addr => (paging debug).isVirtualPageMapped addr v) (4 * frameSize)
      kernelVMBase scn.nPages := ⟨_, rfl⟩
  simp only [← hstart] at heq
  split_ifs at heq
  · cases heq
    exact ⟨used, h⟩
  obtain ⟨⟨ok, y⟩, hy, heq⟩ := bind_eq_some_iff.1 heq
  have h0 : Mapping regions s q scn.nPages start 0 ⟨scn, v, 0, 0⟩ :=
    ⟨⟨used, h⟩, hrel, rfl, rfl, fun j hj => by omega, fun j hj _ => hscn j hj⟩
  rcases Mapping.mapLoop scn.nPages 0 (by omega) h0 hy with ⟨rfl, hm⟩ | ⟨rfl, i, used', hf⟩
  · cases heq
    exact hm.kept
  · obtain ⟨⟨scn'', v''⟩, hr, heq⟩ := map_eq_some_iff.1 heq
    cases heq
    exact hf.mapFail hq hr

/-! ### `DeleteSection` -/

/-- A section of thread `id` is mapped in `a` where `DeleteSection` looks for it, as far as there
are pages at all. -/
def Section.OwnPages (scn : Section) (id : ℕ) (a : UserSpace) : Prop :=
  scn.addressSpace = id → ∀ i < scn.nPages,
    a.frameAt (sectionPage scn.vmbase i) = none
      ∨ a.frameAt (sectionPage scn.vmbase i) = some (scn.physframes i)

instance (scn : Section) (id : ℕ) (a : UserSpace) : Decidable (scn.OwnPages id a) := by
  unfold OwnPages
  infer_instance

section

variable (h : FramesKept regions used (s.setPages q v))

include h

theorem FramesKept.unmapRound (hq : s.kernel.live.process q = true)
    (hown : v.space.frameAt (sectionPage base i) = none
      ∨ v.space.frameAt (sectionPage base i) = some (scn.physframes i))
    (heq : Section.unmapRound (paging debug) base i (scn, v) = some (scn', v')) :
    (∃ used', FramesKept regions used' (s.setPages q v')) ∧ scn' = scn.setFrame i 0
      ∧ ∀ u f, v'.space.frameOf u = some f → v.space.frameOf u = some f := by
  obtain ⟨w, hw, heq⟩ := bind_eq_some_iff.1 heq
  obtain ⟨w', hw', heq⟩ := bind_eq_some_iff.1 heq
  obtain ⟨w'', hw'', heq⟩ := bind_eq_some_iff.1 heq
  cases heq
  simp only [paging] at hw hw' hw''
  -- the page is mapped, or storing into it would have stopped the machine
  split_ifs at hw with hmapped
  cases hw
  have hat : v.space.frameAt (sectionPage base i) = some (scn.physframes i) := by
    rcases hown with hnone | hat
    · have : (v.space.frameAt (sectionPage base i)).isSome := hmapped
      simp [hnone] at this
    · exact hat
  have huse : (s.setPages q v).frameOf (.process q (.page (sectionPage base i)))
      = some (scn.physframes i) := by
    rw [frameOf_setPages hq]
    exact hat
  have hnone : Frees regions (fun _ => False) used v used v := .refl h.frames fun _ _ => id
  have hF := hnone.freeFrame (h.owned.live _ _ huse) id hw'
  obtain ⟨hframes, hrel, hsub⟩ := UserPages.unmapSinglePage_cases hw''
  have hsub' : ∀ u f, v'.space.frameOf u = some f → v.space.frameOf u = some f := fun u f hu => by
    have := (hsub u f hu).1
    rwa [hF.space] at this
  refine ⟨⟨_, h.of_frees hF hframes hrel hsub' ?_⟩, rfl, hsub'⟩
  rintro r f hr (hf | rfl)
  · exact hf
  · obtain rfl := h.owned.inj _ _ _ (frameOf_of_sub hsub' hr) huse
    rw [frameOf_setPages hq] at hr
    exact (hsub _ _ hr).2 rfl

theorem FramesKept.unmapSection (hq : s.kernel.live.process q = true)
    (hown : ∀ i < scn.nPages, v.space.frameAt (sectionPage base i) = none
      ∨ v.space.frameAt (sectionPage base i) = some (scn.physframes i))
    (heq : scn.unmapSection (paging debug) debug base v = some (scn', v')) :
    (∃ used', FramesKept regions used' (s.setPages q v'))
      ∧ ∀ u f, v'.space.frameOf u = some f → v.space.frameOf u = some f := by
  unfold Section.unmapSection at heq
  split_ifs at heq
  · cases heq
    exact ⟨⟨used, h⟩, fun u f hu => hu⟩
  -- the frames from page `k` on are still those of the section
  have hloop := Loop.times_invariant (I := fun k (x : Section × UserPages) =>
      ((∃ used', FramesKept regions used' (s.setPages q x.2))
        ∧ ∀ u f, x.2.space.frameOf u = some f → v.space.frameOf u = some f)
      ∧ ∀ j, k ≤ j → x.1.physframes j = scn.physframes j) scn.nPages ?_ ?_ heq
  · exact hloop.1
  · rintro k hk ⟨x, w⟩ ⟨x', w'⟩ ⟨⟨⟨used', hkept⟩, hsub⟩, hrest⟩ hround
    have hat : w.space.frameAt (sectionPage base k) = none
        ∨ w.space.frameAt (sectionPage base k) = some (x.physframes k) := by
      cases hw : w.space.frameAt (sectionPage base k) with
      | none => exact .inl rfl
      | some f =>
        have hf := hsub (.page (sectionPage base k)) f hw
        rcases hown k hk with hnone | hsome
        · simp [UserSpace.frameOf, hnone] at hf
        · rw [UserSpace.frameOf, hsome] at hf
          rw [hrest k le_rfl]
          exact .inr hf.symm
    obtain ⟨hkept', rfl, hsub'⟩ := hkept.unmapRound hq hat hround
    refine ⟨⟨hkept', fun u f hu => hsub u f (hsub' u f hu)⟩, fun j hj => ?_⟩
    exact (x.setFrame_of_ne (by omega) 0).trans (hrest j (by omega))
  · exact ⟨⟨⟨used, h⟩, fun u f hu => hu⟩, fun j _ => rfl⟩

theorem FramesKept.deleteSection {id : ℕ} {r : Option Section} (hq : s.kernel.live.process q = true)
    (hown : scn.OwnPages id v.space)
    (heq : scn.deleteSection (paging debug) debug id v = some (r, v')) :
    (∃ used', FramesKept regions used' (s.setPages q v'))
      ∧ (∀ u f, v'.space.frameOf u = some f → v.space.frameOf u = some f)
      ∧ (∃ c, r.getD scn = { scn with refcnt := c }) ∧ (r = none → scn.addressSpace = id) := by
  unfold Section.deleteSection at heq
  split_ifs at heq with hbase hspace hmany
  · cases heq
    exact ⟨⟨used, h⟩, fun u f hu => hu, ⟨scn.refcnt, rfl⟩, nofun⟩
  · cases heq
    exact ⟨⟨used, h⟩, fun u f hu => hu, ⟨scn.refcnt - 1, rfl⟩, nofun⟩
  · obtain ⟨⟨scn', w⟩, hw, heq⟩ := map_eq_some_iff.1 heq
    cases heq
    obtain ⟨hkept, hsub⟩ := h.unmapSection hq (hown (not_not.1 hspace)) hw
    exact ⟨hkept, hsub, ⟨scn.refcnt, rfl⟩, fun _ => not_not.1 hspace⟩

end

/-! ### The walk of `DeleteProcess` -/

/-- The uses that are behind the walk when it stands at page `j` of table `i` and has given back `k`
frames of the kernel stack. -/
def Passed (i j k : ℕ) : FrameUse → Prop
  | .directory => False
  | .stack m => m < k
  | .table m => m < i
  | .page n => n < i * maxPTEntries + j

def Walked (regions : List MemoryRegion) (used : List ℕ) (v : UserPages) (past : FrameUse → Prop)
    (w : UserPages) : Prop :=
  ∃ used', Frees regions (fun f => ∃ u, past u ∧ v.space.frameOf u = some f) used v used' w

namespace Walked

variable {past past' : FrameUse → Prop}

theorem congr (h : Walked regions used v past w)
    (hiff : ∀ u f, v.space.frameOf u = some f → (past u ↔ past' u)) :
    Walked regions used v past' w := by
  obtain ⟨used', hF⟩ := h
  refine ⟨used', hF.congr fun f => exists_congr fun u => ?_⟩
  exact and_congr_left (hiff u f)

theorem freeFrame (h : Walked regions used v past w) (hk : FramesKept regions used (s.setPages q v))
    (hq : s.kernel.live.process q = true) (hu : v.space.frameOf u = some f) (hno : ¬ past u)
    (heq : w.freeFrame debug f = some v')
    (hiff : ∀ u' g, v.space.frameOf u' = some g → (past u' ∨ u' = u ↔ past' u')) :
    Walked regions used v past' v' := by
  obtain ⟨used', hF⟩ := h
  have huse : (s.setPages q v).frameOf (.process q u) = some f := by
    rw [frameOf_setPages hq]
    exact hu
  suffices hwalked : Walked regions used v (fun u' => past u' ∨ u' = u) v' from
    hwalked.congr hiff
  refine ⟨_, (hF.freeFrame (hk.owned.live _ _ huse) ?_ heq).congr fun g => ?_⟩
  · rintro ⟨u', hpast, hu'⟩
    rw [← frameOf_setPages hq] at hu'
    have hsame := hk.owned.inj _ _ _ hu' huse
    simp only [FrameHolder.process.injEq, true_and] at hsame
    exact hno (hsame ▸ hpast)
  · constructor
    · rintro (⟨u', hpast, hu'⟩ | rfl)
      · exact ⟨u', .inl hpast, hu'⟩
      · exact ⟨u, .inr rfl, hu⟩
    · rintro ⟨u', hpast | rfl, hu'⟩
      · exact .inl ⟨u', hpast, hu'⟩
      · exact .inr (some.inj (hu'.symm.trans hu))

section Rounds

variable (hk : FramesKept regions used (s.setPages q v)) (hq : s.kernel.live.process q = true)
include hk hq

theorem freePage (ht : v.space.table i = some f) (hj : j < maxPTEntries)
    (h : Walked regions used v (Passed i j 0) w) (heq : w.freePage debug i j = some v') :
    Walked regions used v (Passed i (j + 1) 0) v' := by
  have hspace : w.space = v.space := h.choose_spec.space
  have hdiv : (i * maxPTEntries + j) / maxPTEntries = i := by
    simp only [maxPTEntries] at hj ⊢
    omega
  have hat : v.space.frameAt (i * maxPTEntries + j) = v.space.page (i * maxPTEntries + j) := by
    simp [UserSpace.frameAt, hdiv, ht]
  unfold UserPages.freePage at heq
  rw [hspace] at heq
  cases hp : v.space.page (i * maxPTEntries + j) with
  | none =>
    rw [hp] at heq
    cases heq
    refine h.congr fun u g hu => ?_
    cases u with
    | directory | stack m | table m => exact Iff.rfl
    | page n =>
      have hne : n ≠ i * maxPTEntries + j := by
        rintro rfl
        simp [UserSpace.frameOf, hat, hp] at hu
      simp only [Passed]
      omega
  | some g =>
    rw [hp] at heq
    refine h.freeFrame (u := .page (i * maxPTEntries + j)) hk hq (hat.trans hp) (by simp [Passed])
      heq fun u g hu => ?_
    cases u with
    | directory | stack m | table m => simp [Passed]
    | page n =>
      simp only [Passed, FrameUse.page.injEq]
      omega

theorem freeTable (h : Walked regions used v (Passed i 0 0) w)
    (heq : w.freeTable debug i = some v') : Walked regions used v (Passed (i + 1) 0 0) v' := by
  have hspace : w.space = v.space := h.choose_spec.space
  unfold UserPages.freeTable at heq
  rw [hspace] at heq
  cases ht : v.space.table i with
  | none =>
    rw [ht] at heq
    cases heq
    refine h.congr fun u g hu => ?_
    cases u with
    | directory | stack m => exact Iff.rfl
    | table m =>
      have hne : m ≠ i := by
        rintro rfl
        simp [UserSpace.frameOf, ht] at hu
      simp only [Passed]
      omega
    | page n =>
      -- without a table there are no pages
      have hne : n / maxPTEntries ≠ i := by
        rintro rfl
        simp [UserSpace.frameOf, UserSpace.frameAt, ht] at hu
      simp only [Passed, maxPTEntries] at hne ⊢
      omega
  | some f =>
    rw [ht, elim_some, bind_eq_some_iff] at heq
    obtain ⟨w', hw', heq⟩ := heq
    have hpages := Loop.times_invariant (I := fun j x => Walked regions used v (Passed i j 0) x)
      maxPTEntries (fun j hj x x' hx hx' => freePage hk hq ht hj hx hx') h hw'
    refine hpages.freeFrame (u := .table i) hk hq ht (by simp [Passed]) heq fun u g hu => ?_
    cases u with
    | directory | stack m => simp [Passed]
    | table m =>
      simp only [Passed, FrameUse.table.injEq]
      omega
    | page n =>
      simp only [Passed, reduceCtorEq, or_false, maxPTEntries]
      omega

theorem freeStack {k : ℕ} (hlt : k < kernelStackSizePages)
    (h : Walked regions used v (Passed kernelPDIndex 0 k) w)
    (heq : w.freeFrame debug (w.space.kstacks k) = some v') :
    Walked regions used v (Passed kernelPDIndex 0 (k + 1)) v' := by
  rw [h.choose_spec.space] at heq
  refine h.freeFrame (u := .stack k) hk hq (by simp [UserSpace.frameOf, hlt]) (by simp [Passed])
    heq fun u g hu => ?_
  cases u with
  | directory | table m | page n => simp [Passed]
  | stack m =>
    simp only [Passed, FrameUse.stack.injEq]
    omega

theorem deleteProcess (heq : v.deleteProcess debug = some v') :
    ∃ past, Walked regions used v past v' := by
  simp only [UserPages.deleteProcess, bind_eq_bind, bind_eq_some_iff] at heq
  obtain ⟨w, hw, w', hw', heq⟩ := heq
  have hstart : Walked regions used v (Passed 0 0 0) v := by
    refine ⟨used, Frees.refl hk.frames ?_⟩
    rintro f - ⟨u, hu, -⟩
    cases u with
    | directory => exact hu
    | stack m | table m | page n => exact absurd hu (by simp [Passed])
  have htables := Loop.times_invariant (I := fun i x => Walked regions used v (Passed i 0 0) x)
    kernelPDIndex (fun i _ x x' hx hx' => freeTable hk hq hx hx') hstart hw
  have hstacks := Loop.times_invariant
    (I := fun k x => Walked regions used v (Passed kernelPDIndex 0 k) x)
    kernelStackSizePages (fun k hlt x x' hx hx' => freeStack hk hq hlt hx hx') htables hw'
  rw [hstacks.choose_spec.space] at heq
  exact ⟨_, hstacks.freeFrame (u := .directory) hk hq rfl id heq fun _ _ _ => Iff.rfl⟩

end Rounds

end Walked

end DragonWare
