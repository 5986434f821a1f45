import DragonWare.Proofs.Lifetime
import DragonWare.Proofs.RefCount
import DragonWare.Proofs.UserPages

/-!
# Frames of sections

While every section is mapped once at most, and structures that are deleted are on the pages at the
offset of their frames, each frame has one use (`FramesKept`). A second process that maps a section
shares its frames, which are released when either of them exits.
-/

namespace DragonWare

open Fallible Kernel List Option Ownership Run Sharing

variable {regions : List MemoryRegion} {used : List ℕ} {s s' : Sharing} {q : ℕ} {debug : Bool}

/-! ### Handles -/

variable {cur i o : ℕ} {handle : ℤ} {k : Kernel} {st : Status} {op : SectionObjectOp}

namespace Sharing

/-- The `data` of the object behind slot `i` of process `q`, if it has this type. -/
def dataAt (s : Sharing) (type : ObjectType) (q i : ℕ) : Option ℕ :=
  ((s.kernel.process q).handles.objlist i).bind fun o =>
    if (s.kernel.object o).type = type then (s.kernel.object o).data else none

/-- The section behind slot `i` is one that thread `cur` may delete. If the thread frees it, or a
listed port behind the slot, the page of the structure is mapped to the frame at its offset. -/
def Deletable (s : Sharing) (cur q i : ℕ) : Prop :=
  (∀ n ∈ s.dataAt .section q i, (s.sections n).OwnPages (s.threadId cur) (s.spaces q)
    ∧ ((s.sections n).addressSpace = s.threadId cur → s.AtOffset (.section n)))
  ∧ ∀ p ∈ s.dataAt .port q i, p ∈ s.kernel.portList → s.AtOffset (.port p)

instance (s : Sharing) (cur q i : ℕ) : Decidable (s.Deletable cur q i) := by
  unfold Deletable
  infer_instance

structure Sheds (s s' : Sharing) : Prop where
  threadId : s'.threadId = s.threadId
  sections : ∀ n, ∃ c, s'.sections n = { s.sections n with refcnt := c }
  spaces : ∀ q u f, (s'.spaces q).frameOf u = some f → (s.spaces q).frameOf u = some f
  heap : ∀ x e, s'.heap x = some e → s.heap x = some e
  kernel : Shrinks s.kernel s'.kernel

theorem Sheds.refl (s : Sharing) : s.Sheds s :=
  ⟨rfl, fun n => ⟨(s.sections n).refcnt, rfl⟩, fun _ _ _ hf => hf, fun _ _ he => he, .refl _⟩

theorem Sheds.dataAt (h : Sheds s s') {type : ObjectType} {n : ℕ}
    (hn : s'.dataAt type q i = some n) : s.dataAt type q i = some n := by
  obtain ⟨o, ho, hn⟩ := bind_eq_some_iff.1 hn
  rw [h.kernel.type, h.kernel.data] at hn
  exact bind_eq_some_iff.2 ⟨o, h.kernel.slot q i o ho, hn⟩

theorem Sheds.deletable (h : Sheds s s') (hd : s.Deletable cur q i) : s'.Deletable cur q i := by
  have hoffset {x : PageBlock} (hx : s.AtOffset x) : s'.AtOffset x := fun e he =>
    hx e (h.heap x e he)
  refine ⟨fun n hn => ?_, fun p hp hlist => ?_⟩
  · obtain ⟨hown, hat⟩ := hd.1 n (h.dataAt hn)
    obtain ⟨c, hc⟩ := h.sections n
    rw [hc, h.threadId]
    refine ⟨fun hid j hj => ?_, fun hid => hoffset (hat hid)⟩
    cases hpage : (s'.spaces q).frameAt (sectionPage (s.sections n).vmbase j) with
    | none => exact .inl rfl
    | some f =>
      have hf := h.spaces q (.page _) f hpage
      rcases hown hid j hj with hnone | hsome
      · simp [UserSpace.frameOf, hnone] at hf
      · rw [UserSpace.frameOf, hsome] at hf
        exact .inr hf.symm
  · exact hoffset (hd.2 p (h.dataAt hp) (h.kernel.portList p hlist))

theorem Sheds.freeVirtualPage (h : Sheds s s') {t : Sharing} {x : PageBlock}
    (heq : s'.freeVirtualPage debug x = some t) : s.Sheds t ∧ t.kernel = s'.kernel := by
  obtain ⟨-, -, frames, -, rfl⟩ := freeVirtualPage_iff.1 heq
  refine ⟨⟨h.threadId, h.sections, h.spaces, fun y e he => h.heap y e ?_, h.kernel⟩, rfl⟩
  by_cases hy : y = x
  · simp [hy] at he
  · simpa [hy] using he

end Sharing

theorem FramesKept.kernel (h : FramesKept regions used s)
    (hlive : ∀ q, k.live.process q = true → s.kernel.live.process q = true) :
    FramesKept regions used { s with kernel := k } := by
  refine ⟨h.frames, h.owned.drop fun r f hr => ?_, h.released⟩
  rcases r with ⟨q, u⟩ | x
  · simp only [frameOf] at hr ⊢
    split_ifs at hr with hl
    rw [if_pos (hlive _ hl)]
    exact hr
  · exact hr

theorem FramesKept.deleteData (h : FramesKept regions used s) (hq : s.kernel.live.process q = true)
    (hslot : (s.kernel.process q).handles.objlist i = some o) (hd : s.Deletable cur q i)
    (heq : s.deleteData debug cur q o = some s') :
    (∃ used', FramesKept regions used' s') ∧ s.Sheds s' ∧ s'.kernel = s.kernel := by
  unfold Sharing.deleteData at heq
  split_ifs at heq with hmany
  · cases heq
    exact ⟨⟨used, h⟩, .refl s, rfl⟩
  split at heq
  · rename_i n htype hdata
    obtain ⟨⟨r, v⟩, hr, heq⟩ := bind_eq_some_iff.1 heq
    obtain ⟨hown, hoffset⟩ := hd.1 n (by simp [dataAt, hslot, htype, hdata])
    rw [← s.setPages_pages q] at h
    obtain ⟨⟨used', hkept⟩, hsub, ⟨c, hc⟩, hid⟩ := h.deleteSection hq hown hr
    replace hkept : FramesKept regions used'
        ((s.setPages q v).setSection n (r.getD (s.sections n))) :=
      ⟨hkept.frames, hkept.owned, hkept.released⟩
    have hsheds : s.Sheds ((s.setPages q v).setSection n (r.getD (s.sections n))) := by
      refine { Sheds.refl s with sections := fun m => ?_, spaces := fun q' u f hf => ?_ }
      · by_cases hm : m = n
        · subst hm
          exact ⟨c, by simpa [setSection] using hc⟩
        · exact ⟨(s.sections m).refcnt, by simp [setSection, setPages, hm]⟩
      · by_cases hq' : q' = q
        · subst hq'
          simp only [setSection, setPages, Function.update_self] at hf
          exact hsub u f hf
        · simpa [setSection, setPages, hq'] using hf
    simp only at heq
    split_ifs at heq with hfreed
    · have hat := hoffset (hid (isNone_iff_eq_none.1 hfreed))
      exact ⟨hkept.freeVirtualPage hat heq, hsheds.freeVirtualPage heq⟩
    · cases heq
      exact ⟨⟨used', hkept⟩, hsheds, rfl⟩
  · rename_i p htype hdata
    split_ifs at heq with hlist
    · have hat := hd.2 p (by simp [dataAt, hslot, htype, hdata]) hlist
      exact ⟨h.freeVirtualPage hat heq, (Sheds.refl s).freeVirtualPage heq⟩
    · cases heq
      exact ⟨⟨used, h⟩, .refl s, rfl⟩
  · cases heq
    exact ⟨⟨used, h⟩, .refl s, rfl⟩

theorem FramesKept.dwDeleteObject (h : FramesKept regions used s)
    (hd : 0 ≤ handle → ∀ q ∈ (s.kernel.thread cur).owner, s.Deletable cur q handle.toNat)
    (heq : s.dwDeleteObject debug cur handle = some s') : ∃ used', FramesKept regions used' s' := by
  unfold Sharing.dwDeleteObject at heq
  split_ifs at heq with hneg hbig
  · cases heq
    exact ⟨used, h⟩
  obtain ⟨q, hq, heq⟩ := bind_eq_some_iff.1 heq
  obtain ⟨hq, hl⟩ := currProc_ok.1 (toOption_eq_some.1 hq)
  cases hslot : (s.kernel.process q).handles.objlist handle.toNat with
  | none =>
    rw [hslot] at heq
    cases heq
    exact ⟨used, h⟩
  | some o =>
    rw [hslot] at heq
    obtain ⟨r, hr, heq⟩ := bind_eq_some_iff.1 heq
    obtain ⟨k, hk, heq⟩ := bind_eq_some_iff.1 heq
    cases heq
    obtain ⟨⟨used', hkept⟩, -, hker⟩ := h.deleteData hl hslot (hd (by omega) q hq) hr
    refine ⟨used', hkept.kernel fun q' hq' => ?_⟩
    rcases dwDeleteObject_cases (toOption_eq_some.1 hk) with
      ⟨rfl, -⟩ | ⟨_, _, -, -, -, -, -, hdel⟩
    · exact hq'
    · exact (shrinks_deleteObject hdel).process_live q' hq'

structure Leaving (regions : List MemoryRegion) (cur q : ℕ) (s : Sharing) : Prop where
  kept : ∃ used, FramesKept regions used s
  live : s.kernel.live.process q = true
  deletable : ∀ i < maxObjPerProcess, s.Deletable cur q i

theorem Leaving.deleteSlot (h : Leaving regions cur q s) (hi : i < maxObjPerProcess)
    (heq : Sharing.deleteSlot debug cur q i s = some s') : Leaving regions cur q s' := by
  obtain ⟨used, hkept⟩ := h.kept
  obtain ⟨r, hr, heq⟩ := bind_eq_some_iff.1 heq
  obtain ⟨k, hk, heq⟩ := bind_eq_some_iff.1 heq
  cases heq
  have hdata : (∃ used', FramesKept regions used' r) ∧ s.Sheds r ∧ r.kernel = s.kernel := by
    cases hslot : (s.kernel.process q).handles.objlist i with
    | none =>
      rw [hslot] at hr
      cases hr
      exact ⟨⟨used, hkept⟩, .refl s, rfl⟩
    | some o =>
      rw [hslot] at hr
      exact hkept.deleteData h.live hslot (h.deletable i hi) hr
  obtain ⟨⟨used', hkept'⟩, hsheds, hker⟩ := hdata
  have hk := toOption_eq_some.1 hk
  have hshrinks := shrinks_deleteSlot hk
  have hlive : k.live.process = s.kernel.live.process := by
    rw [← hker]
    rcases deleteSlot_cases hk with ⟨-, rfl⟩ | ⟨o, -, hdel⟩
    · rfl
    · exact (deleteObject_tables hdel).2.1
  have hsheds' : s.Sheds { r with kernel := k } :=
    { hsheds with kernel := hsheds.kernel.trans hshrinks }
  exact ⟨⟨used', hkept'.kernel hshrinks.process_live⟩, hlive ▸ h.live,
    fun j hj => hsheds'.deletable (h.deletable j hj)⟩

theorem Leaving.deleteProcess (h : Leaving regions cur q s)
    (heq : s.deleteProcess debug cur q = some s') : ∃ used, FramesKept regions used s' := by
  obtain ⟨_, -, heq⟩ := bind_eq_some_iff.1 heq
  obtain ⟨r, hr, heq⟩ := bind_eq_some_iff.1 heq
  obtain ⟨v, hv, heq⟩ := bind_eq_some_iff.1 heq
  cases heq
  have hstart : Leaving regions cur q
      { s with kernel := { s.kernel with processList := s.kernel.processList.erase q } } := by
    obtain ⟨used, hkept⟩ := h.kept
    exact ⟨⟨used, hkept.kernel fun _ => id⟩, h.live, h.deletable⟩
  obtain ⟨⟨used, hkept⟩, hlive, -⟩ := Loop.times_invariant
    (I := fun _ x => Leaving regions cur q x) maxObjPerProcess
    (fun i hi x x' hx hx' => hx.deleteSlot hi hx') hstart hr
  rw [← r.setPages_pages q] at hkept
  obtain ⟨past, used', hF⟩ := Walked.deleteProcess hkept hlive hv
  -- the process is gone, and the others have other frames
  have hother : ∀ p f, (∀ u, p ≠ .process q u) →
      (r.setPages q (r.pages q)).frameOf p = some f → f ∈ used' := by
    intro p f hp hpf
    refine (hF.mem f).2 ⟨hkept.owned.live p f hpf, ?_⟩
    rintro ⟨u, -, hu⟩
    rw [← frameOf_setPages hlive] at hu
    exact hp u (hkept.owned.inj _ _ _ hpf hu)
  have hgone : ∀ (k : Kernel) (p : FrameHolder) (f : ℕ),
      frameOf { r.setPages q v with kernel := { k with
        live := { k.live with process := Function.update r.kernel.live.process q false } } } p
        = some f → (∀ u, p ≠ .process q u) ∧ (r.setPages q (r.pages q)).frameOf p = some f := by
    rintro k (⟨q', u⟩ | x) f hp
    · by_cases hq : q' = q
      · simp [frameOf, hq] at hp
      · exact ⟨by simp [hq], by simpa [frameOf, setPages, hq] using hp⟩
    · exact ⟨by simp, hp⟩
  refine ⟨used', hF.frames, (hkept.owned.drop fun p f hp => (hgone _ p f hp).2).restrict
    fun p f hp _ => ?_, fun x hx => ?_⟩
  · obtain ⟨hne, hp⟩ := hgone _ p f hp
    exact hother p f hne hp
  · rcases hF.released x hx with hx | ⟨htrue, hin, hx⟩
    · obtain ⟨htrue, hoff, hno⟩ := hkept.released x hx
      exact ⟨htrue, hoff, fun hmem => hno ((hF.mem _).1 hmem).1⟩
    · exact ⟨htrue, hkept.frames.live _ hin, fun hmem => ((hF.mem _).1 hmem).2 hx⟩

theorem FramesKept.dwExit (h : FramesKept regions used s)
    (hd : ∀ q ∈ (s.kernel.thread cur).owner, ∀ i < maxObjPerProcess, s.Deletable cur q i)
    (heq : s.dwExit debug cur = some s') : ∃ used', FramesKept regions used' s' := by
  obtain ⟨⟨st, k⟩, hk, heq⟩ := bind_eq_some_iff.1 heq
  obtain ⟨r, hr, heq⟩ := bind_eq_some_iff.1 heq
  obtain ⟨k', hk', heq⟩ := bind_eq_some_iff.1 heq
  cases heq
  have hsame : SameStore s.kernel
      (k.setThread cur { k.thread cur with state := .terminated }) :=
    (sameStore_removeThreadFromScheduler (toOption_eq_some.1 hk)).trans
      (sameStore_setThread rfl)
  have hsched := (scheduleNext_cases (toOption_eq_some.1 hk')).1
  obtain ⟨used', hkept⟩ : ∃ used', FramesKept regions used' r := by
    have hstart : FramesKept regions used
        { s with kernel := k.setThread cur { k.thread cur with state := .terminated } } :=
      h.kernel fun q hq => by rwa [hsame.live] at hq
    rw [hsame.owner] at hr
    cases howner : (s.kernel.thread cur).owner with
    | none =>
      rw [howner] at hr
      cases hr
      exact ⟨used, hstart⟩
    | some q =>
      rw [howner, elim_some] at hr
      have hl : (k.setThread cur { k.thread cur with state := .terminated }).live.process q
          = true := by
        obtain ⟨_, hproc, -⟩ := bind_eq_some_iff.1 hr
        exact (derefProcess_ok.1 (toOption_eq_some.1 hproc)).1
      have hsheds : s.Sheds
          { s with kernel := k.setThread cur { k.thread cur with state := .terminated } } :=
        { Sheds.refl s with kernel := hsame.shrinks }
      exact Leaving.deleteProcess
        ⟨⟨used, hstart⟩, hl, fun i hi => hsheds.deletable (hd q howner i hi)⟩ hr
  refine ⟨used', hkept.kernel fun q hq => ?_⟩
  rwa [hsched.live] at hq

/-! ### Runs -/

/-- The calls of `FreeFrame` of the last system call were for frames that were allocated, and that
no live address space maps. -/
def ReleasedSafely (s : Sharing) : Prop :=
  ∀ r ∈ s.released, r.2 = true
    ∧ ∀ q, s.kernel.live.process q = true → ∀ n, (s.spaces q).frameAt n ≠ some r.1

theorem FramesKept.releasedSafely (h : FramesKept regions used s) : ReleasedSafely s := by
  intro r hr
  obtain ⟨htrue, -, hno⟩ := h.released r hr
  refine ⟨htrue, fun q hq n hn => hno (h.owned.live (.process q (.page n)) r.1 ?_)⟩
  simp [frameOf, UserSpace.frameOf, hq, hn]

/-- A section is mapped only without frames, with its result in user memory, and a thread that drops
a handle to its own section has it mapped where the section says, and the structure where its frame
is. -/
def MapsOnce (s : Sharing) (e : ℕ × SharingCall) : Prop :=
  match e.2 with
  | .invokeSection handle (.map arg _) => arg + 4 ≤ kernelVMBase
    ∧ (0 ≤ handle → ∀ q ∈ (s.kernel.thread e.1).owner, ∀ n ∈ s.dataAt .section q handle.toNat,
      (s.sections n).Unbacked)
  | .deleteObject handle =>
    0 ≤ handle → ∀ q ∈ (s.kernel.thread e.1).owner, s.Deletable e.1 q handle.toNat
  | .exit => ∀ q ∈ (s.kernel.thread e.1).owner, ∀ i < maxObjPerProcess, s.Deletable e.1 q i
  | _ => True

instance (s : Sharing) (e : ℕ × SharingCall) : Decidable (MapsOnce s e) := by
  unfold MapsOnce
  split <;> infer_instance

theorem FramesKept.handleSectionObjectRequest (h : FramesKept regions used s)
    (hrel : s.released = []) (hq : s.kernel.live.process q = true)
    (hmap : ∀ arg ok, op = .map arg ok → ∀ n ∈ (s.kernel.object o).data, (s.sections n).Unbacked)
    (heq : s.handleSectionObjectRequest debug q o op = some (st, s')) :
    ∃ used', FramesKept regions used' s' := by
  cases op with
  | request copy page =>
    simp only [Sharing.handleSectionObjectRequest] at heq
    split_ifs at heq with hdata
    · cases heq
      exact ⟨used, h⟩
    cases copy with
    | none =>
      cases heq
      exact ⟨used, h⟩
    | some descr =>
      cases halloc : allocateSection descr.1 descr.2 with
      | none =>
        simp only [halloc] at heq
        cases heq
        exact ⟨used, h⟩
      | some scn =>
        simp only [halloc] at heq
        obtain ⟨⟨ok, r⟩, hr, heq⟩ := bind_eq_some_iff.1 heq
        obtain ⟨used', hkept⟩ := h.allocateVirtualPage hrel hr
        cases ok <;> cases heq <;> exact ⟨used', hkept.frames, hkept.owned, hkept.released⟩
  | map arg argMapped =>
    simp only [Sharing.handleSectionObjectRequest] at heq
    obtain ⟨⟨st', r⟩, hr, heq⟩ := bind_eq_some_iff.1 heq
    cases hdata : (s.kernel.object o).data with
    | none =>
      simp only [hdata] at heq
      cases heq
      exact ⟨used, h⟩
    | some n =>
      simp only [hdata, map_some] at heq hr
      rcases Section.mapRequest_cases hr with rfl | ⟨base, scn, v, hv, rfl⟩
      · cases heq
        exact ⟨used, h⟩
      cases heq
      rw [← s.setPages_pages q] at h
      obtain ⟨used', hkept⟩ := h.mapSection hrel hq (hmap arg argMapped rfl n hdata) hv
      exact ⟨used', hkept.frames, hkept.owned, hkept.released⟩

theorem FramesKept.dwInvokeObject (h : FramesKept regions used s) (hrel : s.released = [])
    (hmap : ∀ arg ok, op = .map arg ok → 0 ≤ handle → ∀ q ∈ (s.kernel.thread cur).owner,
      ∀ n ∈ s.dataAt .section q handle.toNat, (s.sections n).Unbacked)
    (heq : s.dwInvokeObject debug cur handle op = some (st, s')) :
    ∃ used', FramesKept regions used' s' := by
  unfold Sharing.dwInvokeObject at heq
  split_ifs at heq with hhandle
  · cases heq
    exact ⟨used, h⟩
  obtain ⟨q, hq, heq⟩ := bind_eq_some_iff.1 heq
  obtain ⟨hq, hl⟩ := currProc_ok.1 (toOption_eq_some.1 hq)
  cases hslot : (s.kernel.process q).handles.objlist handle.toNat with
  | none =>
    simp only [hslot] at heq
    cases heq
    exact ⟨used, h⟩
  | some o =>
    simp only [hslot] at heq
    obtain ⟨obj, hobj, heq⟩ := bind_eq_some_iff.1 heq
    obtain ⟨-, rfl⟩ := derefObject_ok.1 (toOption_eq_some.1 hobj)
    split_ifs at heq with htype
    · refine h.handleSectionObjectRequest hrel hl (fun arg ok hop n hn => ?_) heq
      refine hmap arg ok hop (by omega) q hq n ?_
      simp [dataAt, hslot, htype, mem_def.1 hn]
    · cases heq
      exact ⟨used, h⟩

theorem FramesKept.step {e : ℕ × SharingCall} (h : ∃ used, FramesKept regions used s)
    (hok : MapsOnce s e) (heq : sharingStep debug s e = some s') :
    ∃ used, FramesKept regions used s' := by
  obtain ⟨used, hk⟩ := h
  obtain ⟨cur, c⟩ := e
  have hstart : FramesKept regions used { s with
      kernel := { s.kernel with currentThread := some cur }, released := [] } :=
    ⟨hk.frames, hk.owned, fun r hr => absurd hr not_mem_nil⟩
  cases c with
  | createObject name type ok =>
    obtain ⟨⟨res, k⟩, hcall, heq⟩ := bind_eq_some_iff.1 heq
    cases heq
    refine ⟨used, hstart.kernel fun q hq => ?_⟩
    rwa [(createObject_changes trivial (toOption_eq_some.1 hcall)).process_live] at hq
  | translateHandle pid handle copy =>
    obtain ⟨⟨st, k⟩, hcall, heq⟩ := bind_eq_some_iff.1 heq
    cases heq
    refine ⟨used, hstart.kernel fun q hq => ?_⟩
    rwa [Changes.process_live
      (translateHandle_changes (fun _ => trivial) (toOption_eq_some.1 hcall))] at hq
  | invokeSection handle op =>
    obtain ⟨⟨st, r⟩, hcall, heq⟩ := map_eq_some_iff.1 heq
    cases heq
    refine hstart.dwInvokeObject rfl (fun arg ok hop => ?_) hcall
    subst hop
    exact hok.2
  | deleteObject handle => exact hstart.dwDeleteObject hok heq
  | exit => exact hstart.dwExit hok heq

/-- Processes are there, each with its own frames, and the frame manager has handed out `used`
since it was set up. -/
structure SharingStart (debug : Bool) (used : List ℕ) (s : Sharing) : Prop where
  frames : ∃ fuel regions m ops, FrameManager.initFrameManager fuel regions = some m
    ∧ exec (frameStep debug) (m, []) ops = some (s.frames, used)
  owned : Owned s.frameOf used
  released : s.released = []

/-- If sections are mapped once and deleted where they are mapped, a frame is released only while it
is allocated, and only when no live address space maps it. -/
theorem shared_frames_released_safely {debug : Bool} {used : List ℕ} {s t : Sharing}
    {calls : List (ℕ × SharingCall)} (hs : SharingStart debug used s)
    (hmaps : Meets (sharingStep debug) MapsOnce s calls)
    (h : exec (sharingStep debug) s calls = some t) : ReleasedSafely t := by
  obtain ⟨fuel, regions, m, ops, hm, hops⟩ := hs.frames
  have hI : FrameInv regions (s.frames, used) := exec_invariant'
    (I := fun x => FrameInv regions x) (fun _ _ _ hI hstep => hI.step hstep) ops (.init hm) hops
  have hstart : FramesKept regions used s :=
    ⟨hI, hs.owned, fun r hr => absurd hr (by simp [hs.released])⟩
  obtain ⟨used', hkept⟩ := exec_invariant (I := fun x => ∃ used, FramesKept regions used x)
    (fun _ _ _ hk hok hstep => FramesKept.step hk hok hstep) calls ⟨used, hstart⟩ hmaps h
  exact hkept.releasedSafely

/-! ### Two processes -/

def loadedFrame (q i : ℕ) : ℕ := 0x1F6000 + (5 * q + i) * frameSize

def loadedSpace (q : ℕ) : UserSpace where
  cr3 := loadedFrame q 0
  kstacks := fun i => loadedFrame q (1 + i)
  table := fun i => if i = 1 then some (loadedFrame q 3) else none
  page := fun n => if n = 1024 then some (loadedFrame q 4) else none

/-- The machine once two processes are loaded, with the frames that are in use. -/
def loadedMachine : Option (Sharing × List ℕ) := do
  let m ← FrameManager.initFrameManager 17 [⟨true, 0x1F6000#32, 0x10000#32, .available⟩]
  let (frames, used) ← exec (frameStep true) (m, []) (replicate 10 .allocateFrame)
  let (idleTask, k) := boot.allocateThread
  let k ← (k.addThreadToScheduler idleTask).toOption
  let (_, k) ← k.createProcess.toOption
  let (_, k) ← k.createProcess.toOption
  return (⟨k, id, fun _ => ⟨0, 0, 0#32, 0, fun _ => 0, 0⟩, 0, loadedSpace, fun _ => none, frames,
    []⟩, used)

def loadedUse (i : ℕ) : FrameUse :=
  [.directory, .stack 0, .stack 1, .table 1, .page 1024].getD i .directory

theorem loadedSpace_frameOf {u : FrameUse} {f : ℕ} (h : (loadedSpace q).frameOf u = some f) :
    ∃ i < 5, f = loadedFrame q i ∧ u = loadedUse i := by
  cases u with
  | directory =>
    cases h
    exact ⟨0, by decide, rfl, rfl⟩
  | stack i =>
    simp only [UserSpace.frameOf] at h
    split_ifs at h with hi
    cases h
    replace hi : i < 2 := hi
    refine ⟨1 + i, by omega, rfl, ?_⟩
    interval_cases i <;> rfl
  | table i =>
    simp only [UserSpace.frameOf, loadedSpace] at h
    split_ifs at h with hi
    cases h
    exact ⟨3, by decide, rfl, by rw [hi]; rfl⟩
  | page n =>
    simp only [UserSpace.frameOf, UserSpace.frameAt] at h
    split_ifs at h with ht
    simp only [loadedSpace] at h
    split_ifs at h with hn
    cases h
    exact ⟨4, by decide, rfl, by rw [hn]; rfl⟩

theorem loadedMachine_start (h : loadedMachine = some (s, used)) : SharingStart true used s := by
  have hused : loadedMachine.map (fun x => (x.2, x.1.kernel.processes))
      = some ((range 10).reverse.map (loadedFrame 0), 2) := by decide +kernel
  rw [h, map_some, some.injEq, Prod.mk.injEq] at hused
  obtain ⟨hused : used = _, hcount : s.kernel.processes = 2⟩ := hused
  unfold loadedMachine at h
  obtain ⟨m, hm, h⟩ := bind_eq_some_iff.1 h
  obtain ⟨⟨frames, used'⟩, hops, h⟩ := bind_eq_some_iff.1 h
  obtain ⟨k1, hk1, h⟩ := bind_eq_some_iff.1 h
  obtain ⟨⟨q2, k2⟩, hk2, h⟩ := bind_eq_some_iff.1 h
  obtain ⟨⟨q3, k3⟩, hk3, h⟩ := bind_eq_some_iff.1 h
  cases h
  have hidle := sameStore_addThreadToScheduler (toOption_eq_some.1 hk1)
  have hnone : ∀ q, k1.live.process q = false := fun q => by
    rw [hidle.live]
    rfl
  have hlist : k1.processList = [] := hidle.processList
  obtain ⟨hlt, hlisted, hnodup⟩ := createProcess_processList (toOption_eq_some.1 hk2)
    (fun q hq => by simp [hnone] at hq) (by simp [hlist]) (by simp [hlist])
  obtain ⟨hlt, -⟩ := createProcess_processList (toOption_eq_some.1 hk3) hlt hlisted hnodup
  -- both processes have frames out of ten
  have hcases : ∀ (p : FrameHolder) f, frameOf ⟨k3, id,
      fun _ => ⟨0, 0, 0#32, 0, fun _ => 0, 0⟩, 0, loadedSpace, fun _ => none, frames, []⟩ p
        = some f → ∃ q < 2, ∃ i < 5, f = loadedFrame q i ∧ p = .process q (loadedUse i) := by
    rintro (⟨q, u⟩ | x) f hp
    · simp only [frameOf] at hp
      split_ifs at hp with hl
      obtain ⟨i, hi, hf, rfl⟩ := loadedSpace_frameOf hp
      exact ⟨q, lt_of_lt_of_eq (hlt q hl) hcount, i, hi, hf, rfl⟩
    · cases hp
  refine ⟨⟨_, _, m, _, hm, hops⟩, ⟨fun p f hp => ?_, fun p p' f hp hp' => ?_⟩, rfl⟩
  · obtain ⟨q, hq, i, hi, rfl, -⟩ := hcases p f hp
    rw [hused]
    refine List.mem_map.2 ⟨5 * q + i, mem_reverse.2 (mem_range.2 (by omega)), ?_⟩
    simp [loadedFrame]
  · obtain ⟨q, -, i, hi, rfl, hu⟩ := hcases p f hp
    obtain ⟨q', -, j, hj, hf, hu'⟩ := hcases p' _ hp'
    simp only [loadedFrame, frameSize] at hf
    obtain ⟨rfl, rfl⟩ : q = q' ∧ i = j := by omega
    exact hu.trans hu'.symm

/-- The first process makes a section of one page and maps it. -/
def ownerMaps : List (ℕ × SharingCall) :=
  [(1, .createObject none .section true),
    (1, .invokeSection 0 (.request (some (1, 1#32)) (some 0xC0100000))),
    (1, .invokeSection 0 (.map 0x400000 true))]

/-- One process maps a section, and the other one gets a handle to it and lets go of it. -/
theorem shared_frames_released_safely_oneMapping :
    ∃ s t used, SharingStart true used s
      ∧ exec (sharingStep true) s
        (ownerMaps ++ [(2, .translateHandle 1 0 .ok), (2, .exit), (1, .deleteObject 0)]) = some t
      ∧ t.released = [(0x200000, true), (0x201000, true)] ∧ ReleasedSafely t := by
  have hrun : loadedMachine.bind (fun x => (exec (sharingStep true) x.1
      (ownerMaps ++ [(2, .translateHandle 1 0 .ok), (2, .exit), (1, .deleteObject 0)])).map fun t =>
        (decide (Meets (sharingStep true) MapsOnce x.1
          (ownerMaps ++ [(2, .translateHandle 1 0 .ok), (2, .exit), (1, .deleteObject 0)])),
          t.released)) = some (true, [(0x200000, true), (0x201000, true)]) := by
    decide +kernel
  obtain ⟨⟨s, used⟩, hs, hrun⟩ := bind_eq_some_iff.1 hrun
  obtain ⟨t, ht, hres⟩ := map_eq_some_iff.1 hrun
  rw [Prod.mk.injEq, decide_eq_true_eq] at hres
  have hstart := loadedMachine_start hs
  exact ⟨s, t, used, hstart, ht, hres.2, shared_frames_released_safely hstart hres.1 ht⟩

/-- When the first of two processes that map the section exits, its frame is released while the
other still has it mapped, and once more when the other exits. -/
theorem exit_releases_shared_frame :
    ∃ s t t' used, SharingStart true used s
      ∧ exec (sharingStep true) s (ownerMaps ++ [(2, .translateHandle 1 0 .ok),
          (2, .invokeSection 0 (.map 0x400000 true)), (1, .exit)]) = some t
      ∧ (0x201000, true) ∈ t.released ∧ t.kernel.live.process 1 = true
      ∧ (t.spaces 1).frameAt 4 = some 0x201000
      ∧ sharingStep true t (2, .exit) = some t' ∧ (0x201000, false) ∈ t'.released
      ∧ ¬ ReleasedSafely t ∧ ¬ ReleasedSafely t' := by
  have hrun : loadedMachine.bind (fun x => (exec (sharingStep true) x.1
      (ownerMaps ++ [(2, .translateHandle 1 0 .ok), (2, .invokeSection 0 (.map 0x400000 true)),
        (1, .exit)])).bind fun t =>
          (sharingStep true t (2, .exit)).map fun t' =>
            (decide ((0x201000, true) ∈ t.released), t.kernel.live.process 1,
              (t.spaces 1).frameAt 4, decide ((0x201000, false) ∈ t'.released)))
      = some (true, true, some 0x201000, true) := by
    decide +kernel
  obtain ⟨⟨s, used⟩, hs, hrun⟩ := bind_eq_some_iff.1 hrun
  obtain ⟨t, ht, hrun⟩ := bind_eq_some_iff.1 hrun
  obtain ⟨t', ht', hres⟩ := map_eq_some_iff.1 hrun
  simp only [Prod.mk.injEq, decide_eq_true_eq] at hres
  obtain ⟨hrel, hlive, hat, hrel'⟩ := hres
  refine ⟨s, t, t', used, loadedMachine_start hs, ht, hrel, hlive, hat, ht', hrel', ?_, ?_⟩
  · intro h
    exact (h _ hrel).2 1 hlive 4 hat
  · intro h
    exact absurd (h _ hrel').1 (by decide)

end DragonWare
