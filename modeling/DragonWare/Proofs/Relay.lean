import DragonWare.Irq
import DragonWare.Lib.Run
import DragonWare.Proofs.Deletion

/-!
# The targets of the relay

A relay is good while its process is alive and its handle names a live port object with a live port
(`Kernel.Good`). `_DWDeleteObject` leaves the relays alone, so after the deletion of its handle the
next interrupt follows a null pointer.
-/

namespace DragonWare

open Fallible Function IrqKernel Kernel List Option

namespace Kernel

section Good

variable {i q x : ℕ}

structure Named (k : Kernel) (t : ℕ) (handle : ℤ) (o : ℕ) : Prop where
  slot : k.objectOfHandle t handle = some o
  process : ∀ q, (k.thread t).owner = some q → k.live.process q = true
  object : k.live.object o = true
  type : (k.object o).type = .port

structure Good (k : Kernel) (t : ℕ) (handle : ℤ) (o : ℕ) : Prop extends Named k t handle o where
  port : ∀ p, (k.object o).data = some p → k.live.port p = true ∧ (k.port p).owner ≠ none

/-- The object `x` is `o`, or a port goes with it that `o` leads to as well. -/
def Backs (k : Kernel) (o x : ℕ) : Prop :=
  x = o ∨ (k.object x).type = .port
    ∧ ∃ p ∈ k.portList, (k.object x).data = some p ∧ (k.object o).data = some p

instance (k : Kernel) (o x : ℕ) : Decidable (k.Backs o x) := by
  unfold Backs
  infer_instance

variable {k k' : Kernel} {t o cur : ℕ} {handle handle' : ℤ}

theorem Named.grows (h : k.Named t handle o) (hg : Grows k k') : k'.Named t handle o := by
  obtain ⟨hrange, q, hq, hslot⟩ := objectOfHandle_eq_some.1 h.slot
  obtain ⟨hlive, htype⟩ := hg.object o h.object
  have howner := hg.owner t q hq
  have hprocess := h.process q hq
  refine ⟨?_, fun q' hq' => ?_, hlive, htype.trans h.type⟩
  · exact objectOfHandle_eq_some.2 ⟨hrange, q, howner, hg.slot q _ o hprocess hslot⟩
  · cases howner.symm.trans hq'
    exact hg.process q hprocess

section

variable (h : k.Good t handle o)

include h

theorem Good.grows (hg : Grows k k') : k'.Good t handle o := by
  refine ⟨h.toNamed.grows hg, fun p hp => ?_⟩
  rcases hg.data o h.object h.type with heq | ⟨p', hp', hl, hown⟩
  · obtain ⟨hl, hown⟩ := h.port p (heq ▸ hp)
    obtain ⟨hl', hown'⟩ := hg.port p hl
    exact ⟨hl', hown' ▸ hown⟩
  · cases hp'.symm.trans hp
    exact ⟨hl, hown⟩

theorem Good.delete (hne : (k.thread t).owner = some q → handle.toNat ≠ i) :
    (k.setHandles q ((k.process q).handles.deleteFromHandleTable i).2).Good t handle o := by
  obtain ⟨hrange, q', hq', hslot⟩ := objectOfHandle_eq_some.1 h.slot
  refine ⟨⟨objectOfHandle_eq_some.2 ⟨hrange, q', hq', ?_⟩, h.process, h.object, h.type⟩, h.port⟩
  by_cases hq : q' = q
  · subst hq
    rw [setHandles_process]
    simpa [HandleTable.deleteFromHandleTable, update_of_ne (hne hq')] using hslot
  · rwa [setHandles_process_ne k hq]

theorem Good.recount {obj : Object} (htype : obj.type = (k.object x).type)
    (hdata : obj.data = (k.object x).data) : (k.setObject x obj).Good t handle o :=
  h.grows (grows_setObject htype fun _ => .inl hdata)

theorem Good.shrink (last : ℕ → Prop) (hs : Shrinks k k')
    (hslot : k'.objectOfHandle t handle = some o)
    (hprocess : ∀ q, (k.thread t).owner = some q → k'.live.process q = true)
    (hobject : ∀ x, k.live.object x = true → k'.live.object x = false → last x)
    (hfreed : ∀ p, k.live.port p = true → k'.live.port p = false → p ∈ k.portList
      ∧ ∃ x, last x ∧ (k.object x).type = .port ∧ (k.object x).data = some p)
    (hlast : ∀ x, last x → ¬ k.Backs o x) : k'.Good t handle o := by
  refine ⟨⟨hslot, fun q hq => hprocess q ((hs.thread t).symm.trans hq), ?_,
    (hs.type o).trans h.type⟩, fun p hp => ?_⟩
  · by_contra hdead
    exact hlast o (hobject o h.object (by simpa using hdead)) (.inl rfl)
  · have hdata := (hs.data o).symm.trans hp
    obtain ⟨hlive, howner⟩ := h.port p hdata
    refine ⟨?_, hs.port ▸ howner⟩
    by_contra hdead
    obtain ⟨hmem, x, hx, htype, hdata'⟩ := hfreed p hlive (by simpa using hdead)
    exact hlast x hx (.inr ⟨htype, p, hmem, hdata', hdata⟩)

theorem Good.dwDeleteObject
    (hspare : ∀ x, k.objectOfHandle cur handle' = some x →
      ¬ ((k.thread t).owner = (k.thread cur).owner ∧ handle = handle')
        ∧ (k.Backs o x → 1 < (k.object x).refcnt)) (hs : k.dwDeleteObject cur handle' = .ok k') :
    k'.Good t handle o := by
  rcases dropsObject_dwDeleteObject hs with ⟨rfl, -⟩ | ⟨q, x, hx, hq, hdrop, hrest⟩
  · exact h
  obtain ⟨hne, hcount⟩ := hspare x hx
  obtain ⟨hrange, q', hq', hslot⟩ := objectOfHandle_eq_some.1 h.slot
  refine h.shrink (fun y => y = x ∧ (k.object x).refcnt ≤ 1) hdrop.toShrinks
    (objectOfHandle_eq_some.2 ⟨hrange, q', (hdrop.thread t).trans hq', ?_⟩) (fun q hq => ?_)
    hdrop.object (fun p hp hd => ?_) ?_
  · rw [hrest q' _ ?_]
    · exact hslot
    · by_contra hsame
      simp only [not_or, not_not] at hsame
      have := (objectOfHandle_eq_some.1 hx).1
      exact hne ⟨hq'.trans (hsame.1 ▸ hq.symm), by omega⟩
  · rw [hdrop.process]
    exact h.process q hq
  · obtain ⟨hmem, hone, htype, hdata⟩ := hdrop.freed p hp hd
    exact ⟨hmem, x, ⟨rfl, hone⟩, htype, hdata⟩
  · rintro y ⟨rfl, hone⟩ hb
    have := hcount hb
    omega

theorem Good.dwTranslateHandle (hbase : k.Base) {pid : ℕ} {copy st : Status}
    (hspare : copy ≠ .ok → ∀ this, (k.thread cur).owner = some this → ∀ origin,
      k.findProcessByID pid = some origin → ∀ x,
      (k.process origin).handles.objlist handle'.toNat = some x → ∀ i : ℕ,
      (k.process this).handles.findHandle x maxObjPerProcess = some i →
      ¬ ((k.thread t).owner = some this ∧ handle = i))
    (hs : k.dwTranslateHandle cur pid handle' copy = .ok (st, k')) : k'.Good t handle o := by
  rcases dwTranslateHandle_cases hs with
    rfl | ⟨this, origin, x, i, r, ⟨-, hrange⟩, hthis, hlive, horigin, hne, hx, hi, hk⟩
  · exact h
  have hinstall := (installHandle_changes (a := .additive) hlive
    (mem_of_find?_eq_some horigin) hne (by omega) hx hi).1
  have hmid : r.Good t handle o := h.grows (hbase.keeps_changes hinstall).grows
  rcases hk with ⟨-, rfl⟩ | ⟨hcopy, -, rfl⟩
  · exact hmid
  refine (hmid.delete fun hq heq => ?_).recount rfl rfl
  obtain ⟨hrange, q, hq', hslot⟩ := objectOfHandle_eq_some.1 h.slot
  rcases installHandle_cases hi with
    ⟨hnone, -⟩ | ⟨j, hj, rfl, hfind⟩ | ⟨j, table, ⟨hj, -⟩, happend, -, rfl⟩
  · cases hnone
  · cases hj
    refine hspare hcopy this hthis origin horigin x hx i hfind ⟨hq, ?_⟩
    omega
  · cases hj
    have hthis' : (k.thread t).owner = some this := hq
    cases hq'.symm.trans hthis'
    rw [heq, (hbase.bits this).free happend] at hslot
    cases hslot

theorem Good.dropsSlots (hdrop : DropsSlots k q maxObjPerProcess k')
    (hq : (k.thread t).owner ≠ some q)
    (hcount : ∀ i < maxObjPerProcess, ∀ x, (k.process q).handles.objlist i = some x →
      k.Backs o x → k.slotCount q (range maxObjPerProcess) x < (k.object x).refcnt) :
    k'.Good t handle o := by
  obtain ⟨hrange, q', hq', hslot⟩ := objectOfHandle_eq_some.1 h.slot
  have hne (q' : ℕ) (hq' : (k.thread t).owner = some q') : q' ≠ q := by
    rintro rfl
    exact hq hq'
  refine h.shrink (k.LastIn q maxObjPerProcess) hdrop.toShrinks
    (objectOfHandle_eq_some.2 ⟨hrange, q', (hdrop.thread t).trans hq', ?_⟩) (fun q' hq' => ?_)
    hdrop.object hdrop.freed ?_
  · rw [hdrop.rest q' _ (.inl (hne q' hq'))]
    exact hslot
  · rw [hdrop.process q' (hne q' hq')]
    exact h.process q' hq'
  · rintro x ⟨⟨i, hi, hx⟩, hle⟩ hb
    have := hcount i hi x hx hb
    omega

theorem Good.sendMessage (hq : (k.thread t).owner = some q) (m : Message) :
    ∃ r, k.sendMessage q handle m = .ok r := by
  obtain ⟨hrange, q', hq', hslot⟩ := objectOfHandle_eq_some.1 h.slot
  cases hq.symm.trans hq'
  unfold Kernel.sendMessage
  rw [if_neg (by omega), derefProcess_ok.2 ⟨h.process q hq, rfl⟩]
  simp only [Bind.bind, Except.bind, nonNull_ok.2 hslot, derefObject_ok.2 ⟨h.object, rfl⟩, h.type]
  cases hdata : (k.object o).data with
  | none => exact ⟨_, rfl⟩
  | some p =>
    obtain ⟨hlive, howner⟩ := h.port p hdata
    obtain ⟨owner, howner⟩ := ne_none_iff_exists'.1 howner
    simp only [enqueueMessage, derefPort_ok.2 ⟨hlive, rfl⟩, Bind.bind, Except.bind,
      nonNull_ok.2 howner]
    split_ifs
    all_goals exact ⟨_, rfl⟩

end

end Good

end Kernel

variable {op : PortIrqOp} {descr : Option ℕ} {a : IrqStep}

namespace IrqKernel

variable {s s' : IrqKernel} {cur : ℕ} {handle : ℤ}

theorem irqHandlerCallback_cases {n : ℕ} (h : s.irqHandlerCallback n = .ok s') :
    s'.relay = s.relay
      ∧ ((SameStore s.kernel s'.kernel ∧ s'.pic = s.pic.disableIRQ n
          ∧ (maxIRQ ≤ n ∨ (s.relay n).isActive = false))
        ∨ (SameStore s.kernel s'.kernel ∧ n < maxIRQ
          ∧ s'.pic = (s.pic.disableIRQ n).enableIRQ n)
        ∨ (s'.pic = s.pic.disableIRQ n ∧ (s.relay n).isActive = true
          ∧ ∃ t q st k, (s.relay n).handler = some t ∧ (s.kernel.thread t).owner = some q
            ∧ s.kernel.sendMessage q (s.relay n).portHandle irqMessage = .ok (st, k)
            ∧ SameStore k s'.kernel)) := by
  unfold irqHandlerCallback at h
  simp only at h
  split_ifs at h with hn hc ha
  · cases h
    exact ⟨rfl, .inl ⟨.refl _, rfl, .inl hn⟩⟩
  · cases h
    refine ⟨rfl, .inr (.inl ⟨?_, not_le.1 hn, rfl⟩)⟩
    unfold pitCallback
    split
    · exact .refl _
    · exact sameStore_of_owner (owner_update rfl)
  · obtain ⟨t, ht, h⟩ := bind_eq_ok.1 h
    obtain ⟨q, hq, h⟩ := bind_eq_ok.1 h
    obtain ⟨⟨st, k⟩, hk, h⟩ := bind_eq_ok.1 h
    simp only at h
    split_ifs at h with hst
    · cases h
      exact ⟨rfl, .inr (.inr ⟨rfl, ha, t, q, st, k, nonNull_ok.1 ht,
        nonNull_ok.1 hq, hk, .refl k⟩)⟩
    · cases h
      exact ⟨rfl, .inr (.inr ⟨rfl, ha, t, q, st, k, nonNull_ok.1 ht,
        nonNull_ok.1 hq, hk, sameStore_wakeThread k t⟩)⟩
  · cases h
    exact ⟨rfl, .inl ⟨.refl _, rfl, .inr (by simpa using ha)⟩⟩

theorem dwInvokeObject_cases {st : Status}
    (h : s.dwInvokeObject cur handle op descr = .ok (st, s')) :
    (st ≠ .ok ∧ s' = s)
    ∨ ∃ q o n, s.kernel.objectOfHandle cur handle = some o ∧ (s.kernel.thread cur).owner = some q
      ∧ s.kernel.live.process q = true ∧ s.kernel.live.object o = true
      ∧ (s.kernel.object o).type = .port ∧ descr = some n ∧ st = .ok
      ∧ ((op = .bindIrq ∧ s' = s.registerIRQSubscriber n handle)
        ∨ (op = .ackIrq ∧ s' = s.acknowledgeUserIRQ n handle)) := by
  unfold dwInvokeObject at h
  split_ifs at h with hhandle
  · cases h
    exact .inl ⟨by simp, rfl⟩
  obtain ⟨q, hq, h⟩ := bind_eq_ok.1 h
  obtain ⟨hq, hl⟩ := currProc_ok.1 hq
  cases hslot : (s.kernel.process q).handles.objlist handle.toNat with
  | none =>
    simp only [hslot] at h
    cases h
    exact .inl ⟨by simp, rfl⟩
  | some o =>
    simp only [hslot] at h
    obtain ⟨obj, hobj, h⟩ := bind_eq_ok.1 h
    obtain ⟨hlive, rfl⟩ := derefObject_ok.1 hobj
    have hobject : s.kernel.objectOfHandle cur handle = some o :=
      objectOfHandle_eq_some.2 ⟨by omega, q, hq, hslot⟩
    split_ifs at h with htype
    · simp only [pure_eq, Except.ok.injEq] at h
      unfold handlePortObjectRequest at h
      cases op <;> cases descr <;> simp only at h <;> split_ifs at h <;> cases h
      all_goals first
        | exact .inl ⟨by simp, rfl⟩
        | exact .inr ⟨q, o, _, hobject, hq, hl, hlive, htype, rfl, rfl, .inl ⟨rfl, rfl⟩⟩
        | exact .inr ⟨q, o, _, hobject, hq, hl, hlive, htype, rfl, rfl, .inr ⟨rfl, rfl⟩⟩
    · cases h
      exact .inl ⟨by simp, rfl⟩

theorem onThread_registerIRQSubscriber (s : IrqKernel) (cur n : ℕ) (handle : ℤ) :
    (s.onThread cur).registerIRQSubscriber n handle = if 1 ≤ n ∧ n < maxIRQ then
      { s.onThread cur with
        relay := update s.relay n ⟨some cur, handle, true⟩
        pic := s.pic.enableIRQ n }
    else s.onThread cur := by
  have hlt : (n < 1 ∨ maxIRQ - 1 < n) ↔ ¬ (1 ≤ n ∧ n < maxIRQ) := by
    unfold maxIRQ
    omega
  simp only [registerIRQSubscriber, hlt, ite_not]
  rfl

theorem acknowledgeUserIRQ_eq (s : IrqKernel) (n : ℕ) (handle : ℤ) :
    ∃ pic, s.acknowledgeUserIRQ n handle = { s with pic := pic } := by
  unfold acknowledgeUserIRQ
  split_ifs
  · exact ⟨_, rfl⟩
  · exact ⟨_, rfl⟩

def relayProcess (s : IrqKernel) (n : ℕ) : Option ℕ :=
  (s.relay n).handler.bind fun t => (s.kernel.thread t).owner

def relayObject (s : IrqKernel) (n : ℕ) : Option ℕ :=
  if (s.relay n).isActive then
    (s.relay n).handler.bind fun t => s.kernel.objectOfHandle t (s.relay n).portHandle
  else none

/-- A deleted handle is not the one of a relay, and its object, if a relay rests on it, is
referred to by others. -/
def SparesDelete (s : IrqKernel) (cur : ℕ) (handle : ℤ) : Prop :=
  ∀ x ∈ s.kernel.objectOfHandle cur handle, ∀ n < maxIRQ, ∀ o ∈ s.relayObject n,
    ¬ (s.relayProcess n = (s.kernel.thread cur).owner ∧ (s.relay n).portHandle = handle)
      ∧ (s.kernel.Backs o x → 1 < (s.kernel.object x).refcnt)

/-- A handle that is taken back because it could not be copied out is not the one of a relay. -/
def SparesTranslate (s : IrqKernel) (cur pid : ℕ) (handle : ℤ) : Prop :=
  ∀ this ∈ (s.kernel.thread cur).owner, ∀ origin ∈ s.kernel.findProcessByID pid,
    ∀ x ∈ (s.kernel.process origin).handles.objlist handle.toNat,
    ∀ i ∈ (s.kernel.process this).handles.findHandle x maxObjPerProcess,
    ∀ n < maxIRQ, ∀ _ ∈ s.relayObject n,
      ¬ (s.relayProcess n = some this ∧ (s.relay n).portHandle = (i : ℤ))

/-- A process that goes does not hold all references to what a relay of another one rests on. -/
def SparesExit (s : IrqKernel) (q : ℕ) : Prop :=
  ∀ n < maxIRQ, s.relayProcess n ≠ some q → ∀ o ∈ s.relayObject n,
    ∀ i < maxObjPerProcess, ∀ x ∈ (s.kernel.process q).handles.objlist i, s.kernel.Backs o x →
      s.kernel.slotCount q (range maxObjPerProcess) x < (s.kernel.object x).refcnt

/-- The step takes nothing away from a relay, and binds no line to a port that is gone. -/
def Spares (s : IrqKernel) : IrqStep → Prop
  | .port cur handle .bindIrq _ => ∀ o ∈ s.kernel.objectOfHandle cur handle,
      (s.kernel.object o).type = .port →
        ∀ p ∈ (s.kernel.object o).data, s.kernel.live.port p = true
  | .task cur (.event (.call (.deleteObject handle))) => s.SparesDelete cur handle
  | .task cur (.event (.call (.translateHandle pid handle copy))) =>
      copy ≠ .ok → s.SparesTranslate cur pid handle
  | .task cur e => ∀ q ∈ s.kernel.deletes cur e, s.SparesExit q
  | _ => True

def accepts (s : IrqKernel) (cur : ℕ) (handle : ℤ) (op : PortIrqOp) (descr : Option ℕ) : Bool :=
  s.kernel.inReceive cur == none &&
    match (s.onThread cur).dwInvokeObject cur handle op descr with
    | .ok (st, _) => st == .ok
    | .error _ => false

theorem port_cases (h : s.step (.port cur handle op descr) = .ok s') :
    (s.accepts cur handle op descr = false ∧ (s' = s ∨ s' = s.onThread cur))
    ∨ ∃ q o n, s.kernel.objectOfHandle cur handle = some o ∧ (s.kernel.thread cur).owner = some q
      ∧ s.kernel.live.process q = true ∧ s.kernel.live.object o = true
      ∧ (s.kernel.object o).type = .port ∧ descr = some n
      ∧ s.accepts cur handle op (some n) = true
      ∧ ((op = .bindIrq ∧ s' = (s.onThread cur).registerIRQSubscriber n handle)
        ∨ (op = .ackIrq ∧ s' = (s.onThread cur).acknowledgeUserIRQ n handle)) := by
  simp only [step] at h
  split_ifs at h with hin
  · obtain ⟨⟨st, r⟩, hr, rfl⟩ := map_eq_ok.1 h
    rcases dwInvokeObject_cases hr with
      ⟨hst, rfl⟩ | ⟨q, o, n, ho, hq, hl, hlive, htype, rfl, rfl, hop⟩
    · exact .inl ⟨by simp [accepts, hr, hst], .inr rfl⟩
    · exact .inr ⟨q, o, n, ho, hq, hl, hlive, htype, rfl, by simp [accepts, hin, hr], hop⟩
  · cases h
    exact .inl ⟨by simp [accepts, hin], .inl rfl⟩

theorem port_kernel (h : s.step (.port cur handle op descr) = .ok s') :
    s'.kernel = s.kernel ∨ s'.kernel = (s.onThread cur).kernel := by
  rcases port_cases h with ⟨-, rfl | rfl⟩ | ⟨_, _, n, -, -, -, -, -, -, -, ⟨-, rfl⟩ | ⟨-, rfl⟩⟩
  · exact .inl rfl
  · exact .inr rfl
  · rw [onThread_registerIRQSubscriber]
    split_ifs <;> exact .inr rfl
  · obtain ⟨pic, heq⟩ := acknowledgeUserIRQ_eq (s.onThread cur) n handle
    exact .inr (by rw [heq])

def binds (s : IrqKernel) (cur : ℕ) (handle : ℤ) (n : ℕ) : Bool :=
  s.accepts cur handle .bindIrq (some n) && decide (1 ≤ n ∧ n < maxIRQ)

structure Sane (s : IrqKernel) : Prop where
  base : s.kernel.Base
  lt : ∀ n, (s.relay n).isActive = true → n < maxIRQ

theorem boot_sane : boot.Sane := ⟨boot_base, by simp [boot]⟩

theorem Sane.step (h : s.Sane) (hs : s.step a = .ok s') : s'.Sane := by
  have hon : ∀ cur, (s.onThread cur).kernel.Base := fun cur =>
    h.base.sameStore (sameStore_of_owner fun _ => rfl)
  cases a with
  | irq n =>
    simp only [IrqKernel.step] at hs
    split_ifs at hs
    · cases hs
      exact h
    obtain ⟨hrelay, ⟨hsame, -⟩ | ⟨hsame, -⟩ | ⟨-, -, t, q, st, k, -, -, hk, hsame⟩⟩ :=
      irqHandlerCallback_cases hs
    · exact ⟨h.base.sameStore hsame, hrelay ▸ h.lt⟩
    · exact ⟨h.base.sameStore hsame, hrelay ▸ h.lt⟩
    · exact ⟨(h.base.keeps_sendMessage hk).base.sameStore hsame, hrelay ▸ h.lt⟩
  | port cur handle op descr =>
    rcases port_cases hs with ⟨-, rfl | rfl⟩ | ⟨_, _, n, -, -, -, -, -, -, -, ⟨-, rfl⟩ | ⟨-, rfl⟩⟩
    · exact h
    · exact ⟨hon cur, h.lt⟩
    · rw [onThread_registerIRQSubscriber]
      split_ifs with hn
      · refine ⟨hon cur, fun m hm => ?_⟩
        by_cases hmn : m = n
        · exact hmn ▸ hn.2
        · simp only [update_of_ne hmn] at hm
          exact h.lt m hm
      · exact ⟨hon cur, h.lt⟩
    · obtain ⟨pic, heq⟩ := acknowledgeUserIRQ_eq (s.onThread cur) n handle
      rw [heq]
      exact ⟨hon cur, h.lt⟩
  | task cur e =>
    obtain ⟨k, hk, hs⟩ := bind_eq_ok.1 hs
    cases hs
    refine ⟨(hon cur).taskEvent hk, fun n hn => ?_⟩
    have hleft : ((s.dropRelays cur e).relay n).isActive = true := hn
    unfold dropRelays at hleft
    split at hleft
    · simp only [deleteProcessFromIRQRelay] at hleft
      split_ifs at hleft
      exact h.lt n hleft
    · exact h.lt n hleft
  | setProcessCapabilities q flags =>
    cases hs
    exact ⟨(h.base.keeps_setProcess (x := { s.kernel.process q with
      flags := (s.kernel.process q).flags ||| flags }) rfl).base, h.lt⟩

end IrqKernel

/-- The kernel, and the object each line was bound to. -/
structure BoundLines where
  sys : IrqKernel
  bound : ℕ → Option ℕ

namespace BoundLines

def boot : BoundLines := ⟨.boot, fun _ => none⟩

def rebind (b : BoundLines) : IrqStep → ℕ → Option ℕ
  | .port cur handle .bindIrq (some n) =>
    if b.sys.binds cur handle n then
      update b.bound n (b.sys.kernel.objectOfHandle cur handle)
    else b.bound
  | _ => b.bound

def step (b : BoundLines) (a : IrqStep) : Option BoundLines :=
  (b.sys.step a).toOption.map fun s => ⟨s, b.rebind a⟩

/-- If the line is relayed, the process is alive, the slot of the handle holds the port object that
was bound, and an interrupt follows no null or dangling pointer. -/
def TargetValid (b : BoundLines) (n : ℕ) : Prop :=
  (b.sys.relay n).isActive = true → ∃ t q o, (b.sys.relay n).handler = some t
    ∧ (b.sys.kernel.thread t).owner = some q ∧ b.sys.kernel.live.process q = true
    ∧ b.sys.kernel.objectOfHandle t (b.sys.relay n).portHandle = some o ∧ b.bound n = some o
    ∧ b.sys.kernel.live.object o = true ∧ (b.sys.kernel.object o).type = .port
    ∧ ∃ s, b.sys.irqHandlerCallback n = .ok s

end BoundLines

/-- Every relay goes by a good handle, to the object its line was bound to. -/
def GoodRelays (s : IrqKernel) (bound : ℕ → Option ℕ) : Prop :=
  ∀ n, (s.relay n).isActive = true → ∃ t o, (s.relay n).handler = some t
    ∧ bound n = some o ∧ s.kernel.Good t (s.relay n).portHandle o

structure RelayInv (s : IrqKernel) (bound : ℕ → Option ℕ) : Prop extends s.Sane where
  good : GoodRelays s bound

section Inv

variable {s s' : IrqKernel} {bound : ℕ → Option ℕ}
variable {b : BoundLines} {cur n : ℕ} {e : TaskEvent} {handle : ℤ} {k : Kernel}

theorem boot_relayInv : RelayInv .boot fun _ => none :=
  ⟨boot_sane, fun n hn => by simp [IrqKernel.boot] at hn⟩

section

variable (h : RelayInv s bound)

include h

theorem RelayInv.of_good (hrelay : ∀ n, (s'.relay n).isActive = true → s'.relay n = s.relay n)
    (hgood : ∀ n t o, (s'.relay n).isActive = true → (s.relay n).handler = some t →
      s.kernel.Good t (s.relay n).portHandle o → s'.kernel.Good t (s.relay n).portHandle o) :
    GoodRelays s' bound := by
  intro n hn
  obtain ⟨t, o, ht, ho, hg⟩ := h.good n (hrelay n hn ▸ hn)
  rw [hrelay n hn]
  exact ⟨t, o, ht, ho, hgood n t o hn ht hg⟩

theorem RelayInv.keeps (hk : Keeps s.kernel s'.kernel)
    (hrelay : s'.relay = s.relay) : GoodRelays s' bound :=
  h.of_good (fun n _ => by rw [hrelay]) fun _ _ _ _ _ hg => hg.grows hk.grows

theorem RelayInv.irqHandlerCallback (hs : s.irqHandlerCallback n = .ok s') :
    GoodRelays s' bound := by
  obtain ⟨hrelay, ⟨hsame, -⟩ | ⟨hsame, -⟩ | ⟨-, -, t, q, st, k, -, -, hk, hsame⟩⟩ :=
    irqHandlerCallback_cases hs
  · exact h.keeps (h.base.keeps_sameStore hsame) hrelay
  · exact h.keeps (h.base.keeps_sameStore hsame) hrelay
  · have hmid := h.base.keeps_sendMessage hk
    exact h.keeps (hmid.trans (hmid.base.keeps_sameStore hsame)) hrelay

theorem RelayInv.fires (hn : (s.relay n).isActive = true) :
    ∃ s', s.irqHandlerCallback n = .ok s' := by
  obtain ⟨t, o, ht, -, hg⟩ := h.good n hn
  obtain ⟨-, q, hq, -⟩ := objectOfHandle_eq_some.1 hg.slot
  obtain ⟨⟨st, k⟩, hr⟩ := hg.sendMessage hq irqMessage
  unfold IrqKernel.irqHandlerCallback
  simp only [hn, if_true]
  split_ifs
  · exact ⟨_, rfl⟩
  · exact ⟨_, rfl⟩
  · rw [nonNull_ok.2 ht]
    simp only [Bind.bind, Except.bind, nonNull_ok.2 hq, hr]
    split_ifs
    all_goals exact ⟨_, rfl⟩

theorem RelayInv.onThread (cur : ℕ) : RelayInv (s.onThread cur) bound :=
  have hk := h.base.keeps_sameStore (sameStore_of_owner fun _ => rfl)
  ⟨⟨hk.base, h.lt⟩, h.keeps hk rfl⟩

theorem RelayInv.relayObject {t o : ℕ} (hn : (s.relay n).isActive = true)
    (ht : (s.relay n).handler = some t) (hg : s.kernel.Good t (s.relay n).portHandle o) :
    n < maxIRQ ∧ s.relayObject n = some o ∧ s.relayProcess n = (s.kernel.thread t).owner := by
  refine ⟨h.lt n hn, ?_, ?_⟩
  · simp [IrqKernel.relayObject, hn, ht, hg.slot]
  · simp [relayProcess, ht]

end

theorem rebind_of_not (h : op = .bindIrq → ∀ n, descr = some n → b.sys.binds cur handle n = false) :
    b.rebind (.port cur handle op descr) = b.bound := by
  cases op with
  | ackIrq => rfl
  | bindIrq =>
    cases descr with
    | none => rfl
    | some n => simp [BoundLines.rebind, h rfl n rfl]

theorem RelayInv.port (h : RelayInv b.sys b.bound) (hok : b.sys.Spares (.port cur handle op descr))
    (hs : b.sys.step (.port cur handle op descr) = .ok s') :
    GoodRelays s' (b.rebind (.port cur handle op descr)) := by
  have h' := (h.onThread cur).good
  rcases port_cases hs with
    ⟨hno, hs'⟩ | ⟨q, o, n, ho, hq, hl, hlive, htype, rfl, hyes, ⟨rfl, rfl⟩ | ⟨rfl, rfl⟩⟩
  · have hnot : op = .bindIrq → ∀ n, descr = some n → b.sys.binds cur handle n = false := by
      rintro rfl n rfl
      simp [binds, hno]
    rw [rebind_of_not hnot]
    rcases hs' with rfl | rfl
    · exact h.good
    · exact h'
  · rw [onThread_registerIRQSubscriber]
    split_ifs with hn
    · have hnew : b.rebind (.port cur handle .bindIrq (some n))
          = update b.bound n (some o) := by
        simp [BoundLines.rebind, binds, hyes, hn, ho]
      have hgood : (b.sys.onThread cur).kernel.Good cur handle o := by
        refine ⟨⟨ho, fun q' hq' => ?_, hlive, htype⟩, fun p hp => ⟨hok o ho htype p hp, ?_⟩⟩
        · cases hq.symm.trans hq'
          exact hl
        · exact (h.base.data o p htype hp).2
      rw [hnew]
      intro m hm
      by_cases hmn : m = n
      · subst hmn
        simp only [update_self]
        exact ⟨cur, o, rfl, rfl, hgood⟩
      · simp only [update_of_ne hmn] at hm ⊢
        exact h' m hm
    · have hnot : b.sys.binds cur handle n = false := by simp [binds, hn]
      rw [rebind_of_not fun _ m hm => some.inj hm ▸ hnot]
      exact h'
  · obtain ⟨pic, heq⟩ := acknowledgeUserIRQ_eq (b.sys.onThread cur) n handle
    rw [heq]
    exact h'

theorem dropRelays_of_none (h : s.kernel.deletes cur e = none) : s.dropRelays cur e = s := by
  simp [dropRelays, h]

section

variable (h : RelayInv s bound)

include h

theorem RelayInv.exit {q : ℕ} (hq : s.kernel.deletes cur e = some q) (hspare : s.SparesExit q)
    (hgood : ∀ t handle o, (s.kernel.thread t).owner ≠ some q → s.kernel.Good t handle o →
      (∀ i < maxObjPerProcess, ∀ x, (s.kernel.process q).handles.objlist i = some x →
        s.kernel.Backs o x → s.kernel.slotCount q (range maxObjPerProcess) x
          < (s.kernel.object x).refcnt) → k.Good t handle o) :
    GoodRelays { s.dropRelays cur e with kernel := k } bound := by
  have hdrop : s.dropRelays cur e = s.deleteProcessFromIRQRelay q := by
    simp [dropRelays, hq]
  have hleft : ∀ n, ((s.deleteProcessFromIRQRelay q).relay n).isActive = true →
      (s.deleteProcessFromIRQRelay q).relay n = s.relay n ∧ (s.relay n).isActive = true
        ∧ s.relayProcess n ≠ some q := by
    intro n hn
    simp only [deleteProcessFromIRQRelay] at hn ⊢
    split_ifs at hn ⊢ with hc
    exact ⟨rfl, hn, fun heq => hc ⟨hn, heq⟩⟩
  rw [hdrop]
  refine h.of_good (fun n hn => (hleft n hn).1) fun n t o hn ht hg => ?_
  obtain ⟨-, hactive, hne⟩ := hleft n hn
  obtain ⟨hlt, hobject, hprocess⟩ := h.relayObject hactive ht hg
  exact hgood t _ o (hprocess ▸ hne) hg fun i hi x hx hb => hspare n hlt hne o hobject i hi x hx hb

theorem RelayInv.stay (hnone : s.kernel.deletes cur e = none)
    (hk : Keeps s.kernel k) : GoodRelays { s.dropRelays cur e with kernel := k } bound := by
  rw [dropRelays_of_none hnone]
  exact h.keeps hk rfl

theorem RelayInv.exception (hcur : s.kernel.currentThread = some cur)
    (hok : s.Spares (.task cur .exception)) (hk : s.kernel.taskEvent .exception = .ok k) :
    GoodRelays { s.dropRelays cur .exception with kernel := k } bound := by
  simp only [taskEvent, hcur] at hk
  split_ifs at hk with hin
  · obtain ⟨r, hr, hk⟩ := bind_eq_ok.1 hk
    obtain ⟨q, hq, hr⟩ := bind_eq_ok.1 hr
    obtain ⟨r', hr', hr⟩ := bind_eq_ok.1 hr
    cases hr
    have hdel : s.kernel.deletes cur .exception = some q := by
      simp [deletes, hin, nonNull_ok.1 hq]
    have hlast : SameStore r' k := SameStore.trans
      (sameStore_of_owner fun _ => rfl) (scheduleNext_cases hk).1
    refine h.exit hdel (hok q hdel) ?_
    intro t handle o hne hg hcount
    exact (hg.dropsSlots (dropsSlots_deleteProcess (.refl _) hr').1 hne hcount).grows hlast.grows
  · cases hk
    exact h.stay (by simp [deletes, hin]) h.base.keeps

theorem RelayInv.call {c : Call} (hok : s.Spares (.task cur (.event (.call c))))
    (hin : s.kernel.inReceive cur = none) (hc : ¬ Kernel.Additive (.call c))
    (hk : s.kernel.syscall cur c = .ok k) :
    GoodRelays { s.dropRelays cur (.event (.call c)) with kernel := k } bound := by
  cases c with
  | deleteObject handle =>
    rw [dropRelays_of_none rfl]
    refine h.of_good (fun _ _ => rfl) fun n t o hn ht hg => ?_
    obtain ⟨hlt, hobject, hprocess⟩ := h.relayObject hn ht hg
    exact hg.dwDeleteObject (fun x hx => hprocess ▸ hok x hx n hlt o hobject) hk
  | translateHandle pid handle copy =>
    obtain ⟨⟨st, r⟩, hr, rfl⟩ := map_eq_ok.1 hk
    rw [dropRelays_of_none rfl]
    refine h.of_good (fun _ _ => rfl) fun n t o hn ht hg => ?_
    obtain ⟨hlt, hobject, hprocess⟩ := h.relayObject hn ht hg
    refine hg.dwTranslateHandle h.base ?_ hr
    intro hcopy this hthis origin horigin x hx i hi
    rw [← hprocess]
    exact hok hcopy this hthis origin horigin x hx i hi n hlt o hobject
  | exit =>
    cases hq : (s.kernel.thread cur).owner with
    | none =>
      refine h.stay (by simp [deletes, hin, hq]) (h.base.keeps_sameStore ?_)
      rcases dwExit_cases hk with ⟨-, hsame⟩ | ⟨q, r, r', hq', -⟩
      · exact hsame
      · simp [hq] at hq'
    | some q =>
      have hdel : s.kernel.deletes cur (.event (.call .exit)) = some q := by
        simp [deletes, hin, hq]
      refine h.exit hdel (hok q hdel) ?_
      intro t handle o hne hg hcount
      exact hg.dropsSlots (dropsSlots_dwExit hq hk).1 hne hcount
  | _ => exact absurd trivial hc

theorem RelayInv.event {e : Event} (hcur : s.kernel.currentThread = some cur)
    (hok : s.Spares (.task cur (.event e))) (hk : s.kernel.event e = .ok k) :
    GoodRelays { s.dropRelays cur (.event e) with kernel := k } bound := by
  by_cases he : Kernel.Additive e
  · refine h.stay ?_ (h.base.keeps_event he hk)
    unfold deletes
    split <;> simp_all [Kernel.Additive]
  cases e with
  | call c =>
    simp only [Kernel.event, hcur] at hk
    split_ifs at hk with hin
    · exact h.call hok hin he hk
    · cases hk
      refine h.stay ?_ h.base.keeps
      cases c <;> simp [deletes, hin]
  | createProcess =>
    obtain ⟨⟨q, r⟩, hr, rfl⟩ := map_eq_ok.1 hk
    exact h.stay rfl ⟨h.base.createProcess hr, h.base.grows_createProcess hr⟩
  | _ => exact absurd trivial he

end

theorem RelayInv.step (h : RelayInv b.sys b.bound) (hok : b.sys.Spares a)
    (hs : b.sys.step a = .ok s') : RelayInv s' (b.rebind a) := by
  refine ⟨h.toSane.step hs, ?_⟩
  cases a with
  | irq n =>
    simp only [IrqKernel.step] at hs
    split_ifs at hs
    · cases hs
      exact h.good
    · exact h.irqHandlerCallback hs
  | port cur handle op descr => exact h.port hok hs
  | task cur e =>
    obtain ⟨k, hk, hs⟩ := bind_eq_ok.1 hs
    cases hs
    have h' := h.onThread cur
    have hdel : (b.sys.onThread cur).kernel.deletes cur e = b.sys.kernel.deletes cur e := rfl
    have hdrop : ((b.sys.onThread cur).dropRelays cur e).relay
        = (b.sys.dropRelays cur e).relay := by
      simp only [dropRelays, hdel]
      split <;> rfl
    have hok' : (b.sys.onThread cur).Spares (.task cur e) := hok
    have hgood : GoodRelays { (b.sys.onThread cur).dropRelays cur e with kernel := k } b.bound := by
      cases e with
      | exception => exact h'.exception rfl hok' hk
      | event e => exact h'.event rfl hok' hk
    simp only [GoodRelays, hdrop] at hgood
    exact hgood
  | setProcessCapabilities q flags =>
    cases hs
    exact h.keeps (h.base.keeps_setProcess rfl) rfl

theorem RelayInv.targetValid (h : RelayInv b.sys b.bound) (n : ℕ) : b.TargetValid n := by
  intro hn
  obtain ⟨t, o, ht, ho, hg⟩ := h.good n hn
  obtain ⟨-, q, hq, -⟩ := objectOfHandle_eq_some.1 hg.slot
  exact ⟨t, q, o, ht, hq, hg.process q hq, hg.slot, ho, hg.object, hg.type, h.fires hn⟩

end Inv

/-- In a run that takes nothing away from a relay, every interrupt finds the process alive and the
port object that was bound. -/
theorem relay_targets_valid {as : List IrqStep} {b : BoundLines}
    (hm : Run.Meets BoundLines.step (fun b a => b.sys.Spares a) .boot as)
    (h : Run.exec BoundLines.step .boot as = some b) (n : ℕ) : b.TargetValid n := by
  refine RelayInv.targetValid ?_ n
  refine Run.exec_invariant (I := fun b => RelayInv b.sys b.bound) (fun b a b' hI hok hs => ?_) as
    boot_relayInv hm h
  obtain ⟨s, hstep, rfl⟩ := map_eq_some_iff.1 hs
  exact hI.step hok (toOption_eq_some.1 hstep)

section Runs

instance (s : IrqKernel) : DecidablePred s.Spares := fun a => by
  unfold Spares SparesDelete SparesTranslate SparesExit
  split <;> infer_instance

def serverPort : List IrqStep :=
  [.task 0 (.event .createProcess), .setProcessCapabilities 0 procCServer,
    .task 0 (.event (.call (.createObject none .port true))),
    .task 0 (.event (.call (.invokeObject 0 0 ⟨none, [], true, true, true, .ok⟩)))]

def serverStart : List IrqStep := serverPort ++ [.port 0 0 .bindIrq (some 1)]

/-- It then creates another port object and deletes it again, and the line fires. -/
def serverDeletes : List IrqStep := serverStart ++
  [.task 0 (.event (.call (.createObject none .port true))),
    .task 0 (.event (.call (.deleteObject 1))), .irq 1]

theorem relay_targets_valid_server :
    ∃ b, Run.exec BoundLines.step .boot serverDeletes = some b
      ∧ (b.sys.relay 1).isActive = true ∧ b.TargetValid 1 := by
  obtain ⟨b, hb, hactive⟩ := map_eq_some_iff.1
    (show (Run.exec BoundLines.step .boot serverDeletes).map (fun b => (b.sys.relay 1).isActive)
      = some true by decide +kernel)
  exact ⟨b, hb, hactive, relay_targets_valid (by decide +kernel) hb 1⟩

def serverForgets : List IrqStep := serverStart ++ [.task 0 (.event (.call (.deleteObject 0)))]

/-- The interrupt follows a null pointer, and once a new object has taken the slot it finds that
one. -/
theorem not_relay_targets_valid :
    (∃ b, Run.exec BoundLines.step .boot serverForgets = some b
      ∧ (∀ s, b.sys.irqHandlerCallback 1 ≠ .ok s) ∧ ¬ b.TargetValid 1)
    ∧ ∃ b, Run.exec BoundLines.step .boot
        (serverForgets ++ [.task 0 (.event (.call (.createObject none .port true)))]) = some b
      ∧ b.bound 1 = some 0 ∧ b.sys.relayObject 1 = some 1 ∧ ¬ b.TargetValid 1 := by
  constructor
  · obtain ⟨b, hb, heq⟩ := map_eq_some_iff.1
      (show (Run.exec BoundLines.step .boot serverForgets).map (fun b =>
        ((b.sys.relay 1).isActive, (b.sys.irqHandlerCallback 1).toOption.isSome))
        = some (true, false) by decide +kernel)
    obtain ⟨hactive, hfault⟩ := Prod.mk.inj heq
    have hno : ∀ s, b.sys.irqHandlerCallback 1 ≠ .ok s := by
      intro s hs
      simp [hs, Except.toOption] at hfault
    refine ⟨b, hb, hno, fun h => ?_⟩
    obtain ⟨_, _, _, -, -, -, -, -, -, -, s, hs⟩ := h hactive
    exact hno s hs
  · obtain ⟨b, hb, heq⟩ := map_eq_some_iff.1
      (show (Run.exec BoundLines.step .boot
          (serverForgets ++ [.task 0 (.event (.call (.createObject none .port true)))])).map
        (fun b => ((b.sys.relay 1).isActive, b.bound 1, b.sys.relayObject 1))
        = some (true, some 0, some 1) by decide +kernel)
    simp only [Prod.mk.injEq] at heq
    obtain ⟨hactive, hbound, hobject⟩ := heq
    refine ⟨b, hb, hbound, hobject, fun h => ?_⟩
    obtain ⟨t, q, o, ht, -, -, ho, hb', -⟩ := h hactive
    have hsame : b.sys.relayObject 1 = b.bound 1 := by
      simp [IrqKernel.relayObject, hactive, ht, ho, hb']
    simp [hbound, hobject] at hsame

end Runs

end DragonWare
