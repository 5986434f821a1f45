import DragonWare.Proofs.DeviceMap
import DragonWare.Proofs.Requests
import DragonWare.Proofs.Sharing

/-!
# Frames that a process that exits gives back

`DeleteProcess` gives back whatever the tables of the process lead to, the memory of a device that
was mapped with `DEVICE_MAP` included. Without such a mapping, and with the conditions of sections
(`MapsOwnFrames`), a frame that is given back is one that was handed out.
-/

namespace DragonWare

open Fallible Kernel Option Ownership RequestFault

variable {regions : List MemoryRegion} {used : List ℕ} {debug : Bool} {args : RequestArgs}
  {st : Status}

/-! ### `DEVICE_MAP` -/

def DeviceManagerNode.MapsNothing (dev : DeviceManagerNode) (mapaddr : BitVec 32) : Prop :=
  (dev.refuses mapaddr).isSome ∨ dev.nPagesMap = 0
    ∨ (dev.mmioAddr.setWidth 32).toNat % frameSize ≠ 0 ∨ mapaddr.toNat % frameSize ≠ 0

instance (dev : DeviceManagerNode) (mapaddr : BitVec 32) : Decidable (dev.MapsNothing mapaddr) := by
  unfold DeviceManagerNode.MapsNothing
  infer_instance

theorem DeviceManagerNode.MapsNothing.deviceMap {dev : DeviceManagerNode} {mapaddr : BitVec 32}
    (h : dev.MapsNothing mapaddr) (v : UserPages) :
    (DragonWare.deviceMap (UserPages.paging debug) dev mapaddr v).2 = v := by
  unfold DragonWare.deviceMap
  cases href : dev.refuses mapaddr with
  | some st => rfl
  | none =>
    rcases h with hsome | hzero | hal
    · simp [href] at hsome
    · simp only [hzero, mapMemoryRange]
    · refine mapMemoryRange_unaligned (fun a b mem hbad => ?_) hal _ _ v
      simp only [UserPages.paging, UserPages.mapSinglePage]
      rw [if_pos (.inr hbad)]

namespace ObjectKernel

variable {s t : ObjectKernel}

def NextAtOffset (s : ObjectKernel) (args : RequestArgs) : Prop :=
  ∀ page ∈ args.page, s.frames.allocateFrame.1 = virtToPhys page

instance (s : ObjectKernel) (args : RequestArgs) : Decidable (s.NextAtOffset args) := by
  unfold NextAtOffset
  infer_instance

end ObjectKernel

theorem Sharing.allocateVirtualPage_atOffset {s s' : Sharing} {x : PageBlock} {page : Option ℕ}
    (h : ∀ a ∈ page, s.frames.allocateFrame.1 = virtToPhys a)
    (heq : s.allocateVirtualPage debug x page = some (true, s')) : s'.AtOffset x := by
  unfold allocateVirtualPage at heq
  simp only at heq
  split_ifs at heq
  · simp at heq
  cases page with
  | none => simp at heq
  | some a =>
    cases heq
    intro e he
    simp only [Function.update_self, mem_def, some.injEq] at he
    subst he
    exact h a rfl

theorem Kernel.portRequest_live {k k' : Kernel} {cur o : ℕ} {args : InvokeArgs}
    (hport : args.portOk = true) (hnode : args.nodeOk = true)
    (h : k.handlePortObjectRequest cur o 0 args = .ok (st, k')) (hst : st ≠ .unsupported) :
    k'.live.port k.ports = true := by
  obtain ⟨⟨st', res, r⟩, hr, h⟩ := bind_eq_ok.1 h
  obtain ⟨found, -, hr⟩ := bind_eq_ok.1 hr
  have hst' : st' = st ∧ k'.live = r.live := by
    cases res <;> (cases h; exact ⟨rfl, rfl⟩)
  rw [hst'.2]
  simp only [hport, hnode, Bool.not_true, Bool.false_eq_true, if_false] at hr
  split_ifs at hr <;> cases hr
  · exact absurd hst'.1.symm hst
  all_goals simp [allocatePort, setPort]

namespace FramesKept

variable {s t : ObjectKernel}

theorem setKernel {k : Kernel} (h : FramesKept regions used s.toSharing)
    (hproc : k.live.process = s.kernel.live.process) :
    ∃ used', FramesKept regions used' (s.setKernel k).toSharing :=
  ⟨used, h.kernel fun q hq => by rwa [hproc] at hq⟩

theorem handleThreadObjectRequest {q o op : ℕ} (h : FramesKept regions used s.toSharing)
    (heq : s.handleThreadObjectRequest q o op args = .ok (st, t)) :
    ∃ used', FramesKept regions used' t.toSharing := by
  match op with
  | 0 =>
    obtain ⟨⟨st', k⟩, hk, heq⟩ := bind_eq_ok.1 heq
    cases heq
    exact h.setKernel (sameRefs_threadRequest (toOption_eq_some.1 (ofOption_eq_ok.1 hk))).process
  | 1 =>
    rw [ObjectKernel.handleThreadObjectRequest_run] at heq
    obtain ⟨⟨st', k⟩, hk, heq⟩ := bind_eq_ok.1 heq
    cases heq
    exact h.setKernel (sameRefs_threadRequest (toOption_eq_some.1 (ofOption_eq_ok.1 hk))).process
  | _ + 2 =>
    cases heq
    exact ⟨used, h⟩

section

variable (h : FramesKept regions used s.toSharing) (hrel : s.released = [])

include h hrel

theorem getDevice {o : ℕ} (hpage : ObjectKernel.slabMax < args.pathSize → s.NextAtOffset args)
    (heq : s.getDevice debug o args = .ok (st, t)) :
    ∃ used', FramesKept regions used' t.toSharing := by
  obtain ⟨⟨ok, r⟩, hr, heq⟩ := bind_eq_ok.1 heq
  rw [ofOption_eq_ok, ObjectKernel.pathBlock] at hr
  obtain ⟨used', hkept⟩ : ∃ used', FramesKept regions used' r := by
    split_ifs at hr
    · exact h.allocateVirtualPage hrel hr
    · cases hr
      exact ⟨used, h⟩
  simp only at heq
  split at heq
  · cases heq
    exact ⟨used', hkept⟩
  rename_i hok
  split at heq
  · cases heq
    exact ⟨used', hkept⟩
  obtain ⟨x, hx, heq⟩ := bind_eq_ok.1 heq
  cases heq
  rw [ofOption_eq_ok] at hx
  obtain ⟨used'', hkept'⟩ : ∃ used'', FramesKept regions used'' x := by
    split_ifs at hx with hlarge
    · rw [if_pos hlarge] at hr
      obtain rfl : ok = true := by simpa using hok
      exact hkept.freeVirtualPage (Sharing.allocateVirtualPage_atOffset (hpage hlarge) hr) hx
    · cases hx
      exact ⟨used', hkept⟩
  exact ⟨used'', hkept'.kernel fun _ => id⟩

theorem handleDeviceObjectRequest {q o op : ℕ}
    (hmaps : op = 2 → ∀ d ∈ (s.kernel.object o).data, (s.device d).MapsNothing args.arg)
    (hpage : op = 0 → ObjectKernel.slabMax < args.pathSize → s.NextAtOffset args)
    (heq : s.handleDeviceObjectRequest debug q o op args = .ok (st, t)) :
    ∃ used', FramesKept regions used' t.toSharing := by
  unfold ObjectKernel.handleDeviceObjectRequest at heq
  by_cases hserver : (s.kernel.process q).flags &&& procCServer = 0#32
  · rw [if_pos hserver] at heq
    cases heq
    exact ⟨used, h⟩
  rw [if_neg hserver] at heq
  split at heq
  · split_ifs at heq
    · cases heq
      exact ⟨used, h⟩
    · exact h.getDevice hrel (hpage rfl) heq
  · by_cases harg : !args.argMapped
    · rw [if_pos harg] at heq
      cases heq
      exact ⟨used, h⟩
    rw [if_neg harg] at heq
    by_cases hnone : (s.kernel.object o).data.isNone
    · rw [if_pos hnone] at heq
      cases heq
      exact ⟨used, h⟩
    rw [if_neg hnone] at heq
    obtain ⟨d, -, heq⟩ := bind_eq_ok.1 heq
    split_ifs at heq <;> (cases heq; exact ⟨used, h⟩)
  · obtain ⟨d, hd, heq⟩ := bind_eq_ok.1 heq
    have hdata := followData_eq_ok.1 hd
    simp only [ObjectKernel.mapDevice, (hmaps rfl d hdata).deviceMap, Sharing.setPages_pages] at heq
    cases heq
    exact ⟨used, h⟩
  · cases heq
    exact ⟨used, h⟩

theorem objectSectionRequest {q o op : ℕ} (hq : s.kernel.live.process q = true)
    (hmap : op = 1 → ∀ n ∈ (s.kernel.object o).data, (s.sections n).Unbacked)
    (heq : s.handleSectionObjectRequest debug q o op args = .ok (st, t)) :
    ∃ used', FramesKept regions used' t.toSharing := by
  match op with
  | 0 =>
    obtain ⟨⟨st', r⟩, hr, heq⟩ := bind_eq_ok.1 heq
    cases heq
    exact h.handleSectionObjectRequest hrel hq (fun _ _ hop => by cases hop) (ofOption_eq_ok.1 hr)
  | 1 =>
    obtain ⟨⟨st', r⟩, hr, heq⟩ := bind_eq_ok.1 heq
    cases heq
    exact h.handleSectionObjectRequest hrel hq (fun _ _ _ => hmap rfl) (ofOption_eq_ok.1 hr)
  | _ + 2 =>
    cases heq
    exact ⟨used, h⟩

theorem handlePortObjectRequest {q cur o op : ℕ} (htype : (s.kernel.object o).type = .port)
    (hcur : (s.kernel.thread cur).owner = some q) (hq : s.kernel.live.process q = true)
    (hpage : op = 0 → args.nodeOk = false → s.NextAtOffset args)
    (heq : s.handlePortObjectRequest debug cur o op args = .ok (st, t)) :
    ∃ used', FramesKept regions used' t.toSharing := by
  match op with
  | 0 =>
    obtain ⟨⟨portOk, r⟩, hr, heq⟩ := bind_eq_ok.1 heq
    obtain ⟨⟨st', k⟩, hk, heq⟩ := bind_eq_ok.1 heq
    rw [ofOption_eq_ok] at hr
    have hreq := toOption_eq_some.1 (ofOption_eq_ok.1 hk)
    have hproc := (portRequest_changes htype hcur hq hreq).process_live
    simp only at heq
    split at heq
    · cases heq
      exact h.setKernel hproc
    obtain ⟨x, hx, heq⟩ := bind_eq_ok.1 heq
    cases heq
    rw [ofOption_eq_ok] at hx
    have hker := Sharing.allocateVirtualPage_kernel hr
    obtain ⟨used', hkept⟩ := h.allocateVirtualPage hrel hr
    split_ifs at hx with hfreed
    · obtain ⟨rfl, hdead⟩ := hfreed
      have hnode : args.nodeOk = false := by
        by_contra hnode
        have hlive := portRequest_live rfl (by simpa using hnode) hreq (by assumption)
        simp [hlive] at hdead
      obtain ⟨used'', hkept'⟩ := hkept.freeVirtualPage
        (Sharing.allocateVirtualPage_atOffset (hpage rfl hnode) hr) hx
      refine setKernel (s := s.setSharing x) hkept' (hproc.trans ?_)
      exact congrArg (·.live.process) ((Sharing.freeVirtualPage_kernel hx).trans hker).symm
    · cases hx
      refine setKernel (s := s.setSharing r) hkept (hproc.trans ?_)
      exact congrArg (·.live.process) hker.symm
  | _ + 1 =>
    obtain ⟨⟨st', k⟩, hk, heq⟩ := bind_eq_ok.1 heq
    cases heq
    exact h.setKernel (portRequest_changes htype hcur hq
      (toOption_eq_some.1 (ofOption_eq_ok.1 hk))).process_live

end

end FramesKept

/-! ### Runs -/

/-- The request maps a page of the heap and unmaps it before it returns: for a path that is too long
for a slab, or for a port that gets no node. -/
def FreesNewPage (type : ObjectType) (op : ℕ) (args : RequestArgs) : Prop :=
  op = 0 ∧ (type = .device ∧ ObjectKernel.slabMax < args.pathSize
    ∨ type = .port ∧ args.nodeOk = false)

instance (type : ObjectType) (op : ℕ) (args : RequestArgs) :
    Decidable (FreesNewPage type op args) := by
  unfold FreesNewPage
  infer_instance

/-- No page of a device is mapped. Sections are mapped once, and deleted where they are mapped. A
page of the heap that is unmapped is mapped to the frame at its offset. -/
def MapsOwnFrames (s : ObjectKernel) (e : ℕ × ObjectCall) : Prop :=
  match e.2 with
  | .invokeObject handle op args =>
    ∀ o ∈ s.kernel.objectOfHandle e.1 handle,
      (FreesNewPage (s.kernel.object o).type op args → s.NextAtOffset args)
      ∧ ∀ n ∈ (s.kernel.object o).data,
        ((s.kernel.object o).type = .section → op = 1 →
          args.arg.toNat + 4 ≤ kernelVMBase ∧ (s.sections n).Unbacked)
        ∧ ((s.kernel.object o).type = .device → op = 2 → (s.device n).MapsNothing args.arg)
  | .deleteObject handle => MapsOnce s.toSharing (e.1, .deleteObject handle)
  | .exit => MapsOnce s.toSharing (e.1, .exit)
  | _ => True

instance (s : ObjectKernel) (e : ℕ × ObjectCall) : Decidable (MapsOwnFrames s e) := by
  unfold MapsOwnFrames
  split <;> infer_instance

namespace FramesKept

variable {s t : ObjectKernel}

theorem dwInvokeRequest {cur op : ℕ} {handle : ℤ} (h : FramesKept regions used s.toSharing)
    (hrel : s.released = []) (hok : MapsOwnFrames s (cur, .invokeObject handle op args))
    (heq : s.dwInvokeObject debug cur handle op args = .ok (st, t)) :
    ∃ used', FramesKept regions used' t.toSharing := by
  unfold ObjectKernel.dwInvokeObject at heq
  split_ifs at heq with hbound
  · cases heq
    exact ⟨used, h⟩
  obtain ⟨q, hq, heq⟩ := bind_eq_ok.1 heq
  rw [ofOption_eq_ok, toOption_eq_some, currProc_ok] at hq
  split at heq
  · cases heq
    exact ⟨used, h⟩
  rename_i o hslot
  have ho : s.kernel.objectOfHandle cur handle = some o :=
    objectOfHandle_eq_some.2 ⟨by omega, q, hq.1, hslot⟩
  obtain ⟨obj, hobj, heq⟩ := bind_eq_ok.1 heq
  rw [ofOption_eq_ok, toOption_eq_some] at hobj
  obtain ⟨-, rfl⟩ := derefObject_ok.1 hobj
  split at heq
  · cases heq
    exact ⟨used, h⟩
  · rename_i htype
    exact h.handleDeviceObjectRequest hrel (fun hop d hd => ((hok o ho).2 d hd).2 htype hop)
      (fun hop hlarge => (hok o ho).1 ⟨hop, .inl ⟨htype, hlarge⟩⟩) heq
  · rename_i htype
    exact h.handlePortObjectRequest hrel htype hq.1 hq.2
      (fun hop hnode => (hok o ho).1 ⟨hop, .inr ⟨htype, hnode⟩⟩) heq
  · rename_i htype
    exact h.objectSectionRequest hrel hq.2
      (fun hop n hn => (((hok o ho).2 n hn).1 htype hop).2) heq
  · exact h.handleThreadObjectRequest heq
  · cases heq
    exact ⟨used, h⟩

theorem objectCall {cur : ℕ} {c : ObjectCall} (h : FramesKept regions used s.toSharing)
    (hok : MapsOwnFrames s (cur, c)) (heq : (s.onThread cur).call debug cur c = .ok t) :
    ∃ used', FramesKept regions used' t.toSharing := by
  have hstart : FramesKept regions used (s.onThread cur).toSharing :=
    ⟨h.frames, h.owned, fun r hr => absurd hr List.not_mem_nil⟩
  cases c with
  | createObject name type ok =>
    obtain ⟨r, hr, heq⟩ := bind_eq_ok.1 heq
    cases heq
    exact FramesKept.step (e := (cur, .createObject name type ok)) ⟨used, h⟩ trivial
      (ofOption_eq_ok.1 hr)
  | translateHandle pid handle copy =>
    obtain ⟨r, hr, heq⟩ := bind_eq_ok.1 heq
    cases heq
    exact FramesKept.step (e := (cur, .translateHandle pid handle copy)) ⟨used, h⟩ trivial
      (ofOption_eq_ok.1 hr)
  | deleteObject handle =>
    obtain ⟨r, hr, heq⟩ := bind_eq_ok.1 heq
    cases heq
    exact FramesKept.step (e := (cur, .deleteObject handle)) ⟨used, h⟩ hok (ofOption_eq_ok.1 hr)
  | exit =>
    obtain ⟨r, hr, heq⟩ := bind_eq_ok.1 heq
    cases heq
    exact FramesKept.step (e := (cur, .exit)) ⟨used, h⟩ hok (ofOption_eq_ok.1 hr)
  | invokeObject handle op args =>
    obtain ⟨⟨st, r⟩, hr, rfl⟩ := map_eq_ok.1 heq
    exact hstart.dwInvokeRequest rfl hok hr
  | send handle copy size =>
    obtain ⟨⟨st, k⟩, hk, heq⟩ := bind_eq_ok.1 heq
    cases heq
    exact hstart.setKernel (Changes.process_live (send_changes
      (fun _ _ _ _ _ _ _ => trivial) (toOption_eq_some.1 (ofOption_eq_ok.1 hk))))
  | receive handle copyOk =>
    obtain ⟨⟨rc, k⟩, hk, heq⟩ := bind_eq_ok.1 heq
    cases heq
    exact hstart.setKernel (Changes.process_live
      (receive_changes trivial (toOption_eq_some.1 (ofOption_eq_ok.1 hk))))
  | resume copyOk =>
    obtain ⟨k, hk, heq⟩ := bind_eq_ok.1 heq
    cases heq
    rcases event_resume_cases (toOption_eq_some.1 (ofOption_eq_ok.1 hk)) with
      rfl | ⟨_, _, _, -, -, hs⟩
    · exact hstart.setKernel rfl
    · exact hstart.setKernel (sameRefs_receiveFrom hs).process

theorem objectRun {e : ℕ × ObjectCall} (h : ∃ used, FramesKept regions used s.toSharing)
    (hok : MapsOwnFrames s e) (heq : objectRun debug s e = some t) :
    ∃ used, FramesKept regions used t.toSharing := by
  obtain ⟨used, h⟩ := h
  obtain ⟨cur, c⟩ := e
  have heq := toOption_eq_some.1 heq
  simp only [objectStep] at heq
  split at heq
  · exact h.objectCall hok heq
  · rename_i copyOk _ _
    exact h.objectCall (show MapsOwnFrames s (cur, .resume copyOk) from trivial) heq
  · cases heq
    exact ⟨used, h⟩

end FramesKept

end DragonWare
