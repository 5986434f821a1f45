import DragonWare.Proofs.Sharing

/-!
# The last handle to a section

The section is released exactly when the thread is the one on record, the section counts one mapping
at most, and that is the one of its process (`Releasable`). No frame of the section may be at the
offset of the page of its structure (`PageApart`).
-/

namespace DragonWare

open FrameManager List Option Section UserPages

variable {debug : Bool}

/-! ### Bits -/

namespace FrameManager

variable {m m' : FrameManager} {f : ℕ}

def Clears (m : FrameManager) (f a : ℕ) : Prop :=
  2 * frameSize ≤ f ∧ f ≤ m.highestAddr ∧ a / frameSize = f / frameSize

instance (m : FrameManager) (f a : ℕ) : Decidable (m.Clears f a) :=
  inferInstanceAs (Decidable (_ ∧ _ ∧ _))

theorem isFrameAllocated_markFrameAvailable (a : ℕ) :
    (m.markFrameAvailable f).isFrameAllocated a = true
      ↔ m.isFrameAllocated a = true ∧ ¬ m.Clears f a := by
  have h := testBit_markFrameAvailable m f (a / frameSize)
  rw [isFrameAllocated, ← Bool.not_eq_false, h, not_or, Bool.not_eq_false]
  rfl

theorem freeFrame_isSome :
    (∃ m', m.freeFrame debug f = some m')
      ↔ (debug = true → f < 2 * frameSize ∨ f % frameSize = 0) := by
  unfold freeFrame
  split_ifs with hlow hal hbit
  · exact iff_of_true ⟨m, rfl⟩ fun _ => .inl hlow.2
  · refine iff_of_false (by simp) fun h => ?_
    rcases h hal.1 with h | h
    · exact hlow ⟨hal.1, h⟩
    · exact hal.2 h
  · exact iff_of_true ⟨m, rfl⟩ fun hd => .inr (not_not.1 fun h => hal ⟨hd, h⟩)
  · exact iff_of_true ⟨_, rfl⟩ fun hd => .inr (not_not.1 fun h => hal ⟨hd, h⟩)

theorem freeFrame_bits (h : m.freeFrame debug f = some m') :
    m'.highestAddr = m.highestAddr ∧ ∀ a, m'.isFrameAllocated a = true
      ↔ m.isFrameAllocated a = true ∧ ¬ m.Clears f a := by
  unfold freeFrame at h
  split_ifs at h with hlow hal hbit
  · cases h
    refine ⟨rfl, fun a => ?_⟩
    have hno : ¬ m.Clears f a := fun hc => absurd hc.1 (by omega)
    simp [hno]
  · cases h
    refine ⟨rfl, fun a => ⟨fun ha => ⟨ha, fun hc => ?_⟩, fun ha => ha.1⟩⟩
    -- the bit of `f` is the one of `a`, and it is clear
    rw [isFrameAllocated, hc.2.2] at ha
    simp [isFrameAllocated, ha] at hbit
  · cases h
    exact ⟨highestAddr_markFrameAvailable m f, isFrameAllocated_markFrameAvailable⟩

end FrameManager

/-! ### The loop of `UnmapSection` -/

/-- Round `i` has a page to store into, and a frame that may be given back. -/
def Section.CanUnmap (debug : Bool) (base : ℕ) (scn : Section) (a : UserSpace) (i : ℕ) : Prop :=
  a.frameAt (sectionPage base i) ≠ none
    ∧ (debug = true → scn.physframes i < 2 * frameSize ∨ scn.physframes i % frameSize = 0)

def Section.stillAllocated (scn : Section) (m : FrameManager) (j : ℕ) : Bool :=
  decide (m.isFrameAllocated (scn.physframes j) = true
    ∧ ∀ l < j, ¬ m.Clears (scn.physframes l) (scn.physframes j))

/-- The loop of `UnmapSection` on `scn` from `v`, after `k` rounds. -/
structure UnmapWalk (base : ℕ) (scn : Section) (v : UserPages) (k : ℕ) (x : Section × UserPages) :
    Prop where
  rest : ∀ j, k ≤ j → x.1.physframes j = scn.physframes j
  pages : ∀ j, k ≤ j →
    x.2.space.frameAt (sectionPage base j) = v.space.frameAt (sectionPage base j)
  highest : x.2.frames.highestAddr = v.frames.highestAddr
  bits : ∀ a, x.2.frames.isFrameAllocated a = true
    ↔ v.frames.isFrameAllocated a = true ∧ ∀ j < k, ¬ v.frames.Clears (scn.physframes j) a
  released : x.2.released = (range k).reverse.map
    (fun j => (scn.physframes j, scn.stillAllocated v.frames j)) ++ v.released

namespace UnmapWalk

variable {base k n : ℕ} {scn : Section} {v : UserPages} {x x' : Section × UserPages}

theorem refl (base : ℕ) (scn : Section) (v : UserPages) : UnmapWalk base scn v 0 (scn, v) :=
  ⟨fun _ _ => rfl, fun _ _ => rfl, rfl, fun a => by simp, by simp⟩

theorem canUnmap (h : UnmapWalk base scn v k x)
    (heq : unmapRound (paging debug) base k x = some x') : scn.CanUnmap debug base v.space k := by
  obtain ⟨w, hw, heq⟩ := bind_eq_some_iff.1 heq
  obtain ⟨w', hw', -⟩ := bind_eq_some_iff.1 heq
  simp only [paging] at hw hw'
  split_ifs at hw with hmapped
  cases hw
  obtain ⟨m, hm, -⟩ := map_eq_some_iff.1 hw'
  constructor
  · rw [← h.pages k le_rfl]
    exact isSome_iff_ne_none.1 hmapped
  · rw [← h.rest k le_rfl]
    exact freeFrame_isSome.1 ⟨m, hm⟩

theorem round (h : UnmapWalk base scn v k x) (hal : debug = true → base % frameSize = 0)
    (hok : scn.CanUnmap debug base v.space k) :
    ∃ x', unmapRound (paging debug) base k x = some x'
      ∧ UnmapWalk base scn v (k + 1) x' := by
  obtain ⟨y, w⟩ := x
  obtain ⟨hpage, hframe⟩ := hok
  have hrest : y.physframes k = scn.physframes k := h.rest k le_rfl
  have hmapped : w.space.frameAt (sectionPage base k) ≠ none := by
    rw [h.pages k le_rfl]
    exact hpage
  obtain ⟨m, hm⟩ := freeFrame_isSome (m := w.frames).2 hframe
  obtain ⟨hhigh, hbits⟩ := freeFrame_bits hm
  have hhighest : w.frames.highestAddr = v.frames.highestAddr := h.highest
  refine ⟨(y.setFrame k 0, setPage (sectionPage base k) none { w with
    frames := m
    released := (scn.physframes k, w.frames.isFrameAllocated (scn.physframes k)) :: w.released }),
    ?_, ?_⟩
  · have hnone : ¬ (w.space.frameAt ((base + k * frameSize) / frameSize)).isNone := by
      rw [isNone_iff_eq_none]
      exact hmapped
    have hsome : (w.space.frameAt ((base + k * frameSize) / frameSize)).isSome :=
      isSome_iff_ne_none.2 hmapped
    have hgood : ¬ (debug = true ∧ (base + k * frameSize) % frameSize ≠ 0) := by
      rw [Nat.add_mul_mod_self_right]
      exact fun hbad => hbad.2 (hal hbad.1)
    simp only [unmapRound, paging, if_pos hsome, bind_eq_bind,
      bind_some, UserPages.freeFrame, hrest, hm, map_some, unmapSinglePage,
      if_neg hgood, if_neg hnone]
    rfl
  · refine ⟨fun j hj => ?_, fun j hj => ?_, hhigh.trans hhighest, fun a => ?_, ?_⟩
    · exact (y.setFrame_of_ne (by omega) 0).trans (h.rest j (by omega))
    · have hne : sectionPage base j ≠ sectionPage base k := fun heq => by
        have := sectionPage_inj heq
        omega
      have hp := h.pages j (by omega)
      simp only [UserSpace.frameAt] at hp ⊢
      simp only [setPage, Function.update_of_ne hne]
      exact hp
    · have hw := h.bits a
      simp only [Clears, hhighest] at hbits
      simp only [setPage, hbits, hw, and_assoc, Nat.forall_lt_succ_right]
      rfl
    · have hflag : w.frames.isFrameAllocated (scn.physframes k)
          = scn.stillAllocated v.frames k := by
        rw [Bool.eq_iff_iff, h.bits, stillAllocated, decide_eq_true_eq]
      have hw := h.released
      simp only at hw
      simp [setPage, hflag, hw, range_succ]

theorem loop (hal : debug = true → base % frameSize = 0)
    (hx : Loop.times (unmapRound (paging debug) base) n (scn, v) = some x) :
    UnmapWalk base scn v n x := by
  refine Loop.times_invariant (I := UnmapWalk base scn v) n ?_ (refl base scn v) hx
  intro k hk y y' hy hround
  obtain ⟨y'', hround', hy''⟩ := hy.round hal (hy.canUnmap hround)
  cases hround.symm.trans hround'
  exact hy''

end UnmapWalk

/-! ### Frames that are given back once -/

open Fallible Kernel

def Kernel.OnlySlot (k : Kernel) (q i o : ℕ) : Prop :=
  ∀ q' < k.processes, ∀ i' < maxObjPerProcess, k.live.process q' = true →
    (k.process q').handles.objlist i' = some o → q' = q ∧ i' = i

instance (k : Kernel) (q i o : ℕ) : Decidable (k.OnlySlot q i o) := by
  unfold OnlySlot
  infer_instance

theorem Kernel.deleteObject_section {k : Kernel} {o : ℕ} (hlive : k.live.object o = true)
    (htype : (k.object o).type = .section) : ∃ k', k.deleteObject o = .ok k' := by
  have hobj : k.derefObject o = .ok (k.object o) := derefObject_ok.2 ⟨hlive, rfl⟩
  by_cases hmany : 1 < (k.object o).refcnt
  · exact ⟨_, bind_eq_ok.2 ⟨_, hobj, if_pos hmany⟩⟩
  have hdata : k.deleteData (k.object o) = .ok k := by
    unfold deleteData
    split
    · simp_all
    · simp_all
    · rfl
  exact ⟨_, bind_eq_ok.2 ⟨_, hobj, (if_neg hmany).trans (bind_eq_ok.2 ⟨k, hdata, rfl⟩)⟩⟩

namespace Sharing

variable {s t : Sharing} {cur q o n : ℕ} {handle : ℤ}

def enter (s : Sharing) (cur : ℕ) : Sharing :=
  { s with kernel := { s.kernel with currentThread := some cur }, released := [] }

/-- The handle of thread `cur`, in process `q`, is the only one to object `o`, section `n`. -/
@[mk_iff]
structure LastHandle (s : Sharing) (cur : ℕ) (handle : ℤ) (q o n : ℕ) : Prop where
  bounds : 0 ≤ handle ∧ handle < maxObjPerProcess
  owner : (s.kernel.thread cur).owner = some q
  process : s.kernel.live.process q = true
  slot : (s.kernel.process q).handles.objlist handle.toNat = some o
  object : s.kernel.live.object o = true
  type : (s.kernel.object o).type = .section
  data : (s.kernel.object o).data = some n
  last : s.kernel.OnlySlot q handle.toNat o

instance : Decidable (s.LastHandle cur handle q o n) :=
  decidable_of_iff _ (lastHandle_iff ..).symm

theorem LastHandle.enter (h : s.LastHandle cur handle q o n) :
    (s.enter cur).LastHandle cur handle q o n :=
  ⟨h.bounds, h.owner, h.process, h.slot, h.object, h.type, h.data, h.last⟩

theorem LastHandle.dwDeleteObject (h : s.LastHandle cur handle q o n) :
    ∃ k', s.kernel.dwDeleteObject cur handle = .ok k' := by
  obtain ⟨⟨hlow, hhigh⟩, howner, hq, hslot, hlive, htype, -, -⟩ := h
  obtain ⟨k', hk'⟩ := deleteObject_section (o := o)
    (k := (s.kernel.setObject o { s.kernel.object o with
        name := (s.kernel.object o).name.map fun n => { n with freed := true } }).setHandles q
      ((s.kernel.process q).handles.deleteFromHandleTable handle.toNat).2)
    hlive (by simp [setHandles, setProcess, setObject, htype])
  refine ⟨k', ?_⟩
  unfold Kernel.dwDeleteObject
  rw [if_neg (by omega), if_neg (by omega)]
  refine bind_eq_ok.2 ⟨q, currProc_ok.2 ⟨howner, hq⟩, ?_⟩
  simp only [hslot]
  exact bind_eq_ok.2 ⟨_, derefObject_ok.2 ⟨hlive, rfl⟩, hk'⟩

theorem deleteData_kernel (h : s.deleteData debug cur q o = some t) : t.kernel = s.kernel := by
  unfold deleteData at h
  split_ifs at h with hmany
  · cases h
    rfl
  split at h
  · obtain ⟨⟨scn, v⟩, -, h⟩ := bind_eq_some_iff.1 h
    simp only at h
    split_ifs at h
    · exact (freeVirtualPage_kernel h).trans rfl
    · cases h
      rfl
  · split_ifs at h
    · exact freeVirtualPage_kernel h
    · cases h
      rfl
  · cases h
    rfl

theorem LastHandle.step (debug : Bool) (h : s.LastHandle cur handle q o n) :
    ∃ k', sharingStep debug s (cur, .deleteObject handle)
      = ((s.enter cur).deleteData debug cur q o).map fun s' => { s' with kernel := k' } := by
  obtain ⟨k', hk'⟩ := h.enter.dwDeleteObject
  refine ⟨k', ?_⟩
  have hproc : (s.enter cur).kernel.currProc cur = .ok q := currProc_ok.2 ⟨h.owner, h.process⟩
  show (s.enter cur).dwDeleteObject debug cur handle = _
  unfold Sharing.dwDeleteObject
  have hbounds := h.bounds
  rw [if_neg (by omega), if_neg (by omega), hproc]
  simp only [Except.toOption, bind_eq_bind, bind_some, h.enter.slot]
  cases hdel : (s.enter cur).deleteData debug cur q o with
  | none => rfl
  | some s' =>
    rw [bind_some, deleteData_kernel hdel, hk']
    rfl

end Sharing

end DragonWare
