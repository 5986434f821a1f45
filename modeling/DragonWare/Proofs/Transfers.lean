import DragonWare.Proofs.RefCount
import DragonWare.Proofs.UserResults

/-!
# Handles that are passed on

A transfer looks for a slot that the receiver has already, but `_DWIPCSend` leaves out the last one:
an object that the receiver holds in slot 31 only is installed twice (`Kernel.ReplyInLastSlot`).
-/

namespace DragonWare

open Fallible Function Kernel List Option

inductive Transfer
  | send (cur : ℕ) (handle : ℤ) (copy : Option Message) (messageSize : ℕ)
  | translateHandle (cur pid : ℕ) (handle : ℤ) (copy : Status)

def transferStep (k : Kernel) : Transfer → Option Kernel
  | .send cur handle copy size => (k.syscall cur (.send handle copy size)).toOption
  | .translateHandle cur pid handle copy =>
    (k.syscall cur (.translateHandle pid handle copy)).toOption

namespace Kernel

variable {k k' r : Kernel} {handle : ℤ}

def slotsFor (k : Kernel) (q o : ℕ) : ℕ := k.slotCount q (range maxObjPerProcess) o

/-- No object has got more slots in a process, unless it had none and has one now. -/
def InstallsOnce (k k' : Kernel) : Prop :=
  ∀ q o, k'.slotsFor q o ≤ max (k.slotsFor q o) 1

theorem InstallsOnce.of_handles (h : ∀ q, (k'.process q).handles = (k.process q).handles) :
    InstallsOnce k k' := by
  intro q o
  simp only [slotsFor, slotCount, h]
  exact le_max_left _ _

theorem InstallsOnce.trans (h : InstallsOnce k r) (h' : InstallsOnce r k') : InstallsOnce k k' := by
  intro q o
  have h1 := h q o
  have h2 := h' q o
  omega

theorem SameTables.installsOnce (h : SameTables k k') : InstallsOnce k k' := .of_handles h.handles

theorem InstallsOnce.append {q i o : ℕ} {table : HandleTable}
    (happend : (k.process q).handles.appendToHandleTable o = some (i, table))
    (hnew : ∀ j < maxObjPerProcess, (k.process q).handles.objlist j ≠ some o) :
    InstallsOnce k (k.setHandles q table) := by
  obtain ⟨-, -, hobj, -⟩ := HandleTable.appendToHandleTable_some happend
  intro q' x
  by_cases hq : q' = q
  · rw [hq, slotsFor, slotsFor, slotCount, slotCount, setHandles_process, hobj]
    by_cases hx : x = o
    · -- only the new slot holds the object
      refine le_max_of_le_right ?_
      have hone : (range maxObjPerProcess).count i ≤ 1 :=
        nodup_iff_count_le_one.1 nodup_range i
      refine le_trans (countP_mono_left fun j hj hslot => ?_) hone
      have hlt := mem_range.1 hj
      by_contra hji
      have hji : j ≠ i := by simpa using hji
      rw [decide_eq_true_eq, update_of_ne hji, hx] at hslot
      exact hnew j hlt hslot
    · refine le_max_of_le_left (countP_mono_left fun j hj hslot => ?_)
      rw [decide_eq_true_eq] at hslot ⊢
      by_cases hji : j = i
      · rw [hji, update_self] at hslot
        exact absurd (some.inj hslot).symm hx
      · rwa [update_of_ne hji] at hslot
  · rw [slotsFor, slotsFor, slotCount, slotCount, setHandles_process_ne k hq]
    exact le_max_left _ _

theorem InstallsOnce.delete (k : Kernel) (q i : ℕ) :
    InstallsOnce k (k.setHandles q ((k.process q).handles.deleteFromHandleTable i).2) := by
  intro q' x
  by_cases hq : q' = q
  · rw [hq, slotsFor, slotsFor, slotCount, slotCount, setHandles_process]
    refine le_max_of_le_left (countP_mono_left fun j _ hslot => ?_)
    rw [decide_eq_true_eq] at hslot ⊢
    by_cases hji : j = i
    · simp [HandleTable.deleteFromHandleTable, hji] at hslot
    · simpa [HandleTable.deleteFromHandleTable, hji] using hslot
  · rw [slotsFor, slotsFor, slotCount, slotCount, setHandles_process_ne k hq]
    exact le_max_left _ _

theorem installsOnce_installHandle (hb : k.BitsInv) {this original : ℕ} {res : Option ℕ}
    (h : k.installHandle this original = .ok (res, k')) : InstallsOnce k k' := by
  rcases installHandle_cases h with
    ⟨-, rfl⟩ | ⟨i, -, rfl, -⟩ | ⟨i, table, ⟨-, hfind⟩, happend, -, rfl⟩
  · exact .of_handles fun _ => rfl
  · exact .of_handles fun _ => rfl
  · have hnew : ∀ j < maxObjPerProcess, (k.process this).handles.objlist j ≠ some original :=
      fun j hj hslot => (hb this).findHandle_ne_none le_rfl hj hslot hfind
    exact (InstallsOnce.append happend hnew).trans (.of_handles fun _ => rfl)

theorem installsOnce_translateHandle (hb : k.BitsInv) {cur pid : ℕ} {copy st : Status}
    (h : k.dwTranslateHandle cur pid handle copy = .ok (st, k')) : InstallsOnce k k' := by
  rcases dwTranslateHandle_cases h with
    rfl | ⟨this, origin, original, i, r, -, -, -, -, -, -, hi, hk⟩
  · exact .of_handles fun _ => rfl
  have hinstall := installsOnce_installHandle hb hi
  rcases hk with ⟨-, rfl⟩ | ⟨-, -, rfl⟩
  · exact hinstall
  · exact hinstall.trans ((InstallsOnce.delete r this i).trans
      (.of_handles fun _ => rfl))

def receiver (k : Kernel) (cur : ℕ) (handle : ℤ) : Option ℕ :=
  (k.portOfHandle cur handle).bind fun p =>
    (k.port p).owner.bind fun owner => (k.thread owner).owner

/-- The port for the reply to `m`, an object of the sender `q`, is one that the receiver holds in
slot 31 and in no other slot, and the receiver has a free slot. -/
def ReplyInLastSlot (k : Kernel) (cur : ℕ) (handle : ℤ) (m : Message) : Prop :=
  (0 ≤ m.header.replyHandle ∧ m.header.replyHandle < maxObjPerProcess)
    ∧ ∃ q ∈ (k.thread cur).owner, ∃ o ∈ (k.process q).handles.objlist m.header.replyHandle.toNat,
      (k.object o).type = .port ∧ ∃ target ∈ k.receiver cur handle,
        (k.process target).handles.objlist 31 = some o
        ∧ (∀ i < 31, (k.process target).handles.objlist i ≠ some o)
        ∧ ~~~(k.process target).handles.validBitmap ≠ 0#32

instance (k : Kernel) (cur : ℕ) (handle : ℤ) : DecidablePred (k.ReplyInLastSlot cur handle) :=
  fun m => by
    unfold ReplyInLastSlot
    infer_instance

/-- The transfer does not run into the slot that `_DWIPCSend` does not look at. -/
def LooksEverywhere (k : Kernel) : Transfer → Prop
  | .send cur handle copy _ => ∀ m ∈ copy, ¬ k.ReplyInLastSlot cur handle m
  | .translateHandle _ _ _ _ => True

instance (k : Kernel) : DecidablePred k.LooksEverywhere := fun t => by
  unfold LooksEverywhere
  split <;> infer_instance

theorem installsOnce_send (hb : k.BitsInv) {cur size : ℕ} {copy : Option Message} {st : Status}
    (hlast : ∀ m ∈ copy, ¬ k.ReplyInLastSlot cur handle m)
    (h : k.dwIPCSend cur handle copy size = .ok (st, k')) : InstallsOnce k k' := by
  rcases dwIPCSend_cases h with ⟨-, rfl⟩ | ⟨q, target, p, -, hq, -, hslot, -, -, hdata, hp⟩
  · exact .of_handles fun _ => rfl
  obtain ⟨-, ⟨-, rfl⟩ | ⟨-, -, slot, rfl⟩ | ⟨m, owner, reply, r, -, hm, -, -, -, hr, rfl⟩⟩ :=
    sendToPort_cases hp
  · exact .of_handles fun _ => rfl
  · exact .of_handles fun _ => rfl
  refine InstallsOnce.trans (r := r) ?_ (InstallsOnce.trans (r := r.setPort p _)
    (.of_handles fun _ => rfl) (sameStore_wakeThread _ _).sameRefs.toSameTables.installsOnce)
  rcases translateReply_cases hr with ⟨-, -, rfl⟩ | ⟨-, -, rfl, -⟩
    | ⟨o, owner', target', hraw, hreply, -, htype, howner, hreceiver, -,
      ⟨i, -, -, rfl⟩ | ⟨i, table, hfind, happend, -, rfl⟩ | ⟨-, -, rfl⟩⟩
  · exact .of_handles fun _ => rfl
  · exact .of_handles fun _ => rfl
  · exact .of_handles fun _ => rfl
  · refine .append happend fun j hj hslot' => ?_
    have hlow : ∀ i < 31, (k.process target').handles.objlist i ≠ some o := fun i hi hslot'' =>
      (hb target').findHandle_ne_none (Nat.sub_le _ 1) hi hslot'' hfind
    have hj31 : j = 31 := by
      by_contra hne
      refine hlow j ?_ hslot'
      simp only [maxObjPerProcess] at hj
      omega
    have hroom : ~~~(k.process target').handles.validBitmap ≠ 0#32 := by
      intro hfull
      simp [HandleTable.appendToHandleTable, hfull] at happend
    have hreceives : k.receiver cur handle = some target' := by
      simp [receiver, portOfHandle_eq hq hslot hdata, howner, hreceiver]
    exact hlast m hm ⟨hraw, q, hq, o, hreply, htype, target', hreceives, hj31 ▸ hslot', hlow,
      hroom⟩
  · exact .of_handles fun _ => rfl

theorem installsOnce_transfer (hb : k.Base) {t : Transfer} (hlast : k.LooksEverywhere t)
    (h : transferStep k t = some k') : k'.Base ∧ InstallsOnce k k' := by
  cases t with
  | send cur handle copy size =>
    obtain ⟨⟨st, r⟩, hr, rfl⟩ := map_eq_ok.1 (toOption_eq_some.1 h)
    have hc := send_changes (a := .additive) (fun _ _ t _ => Rights.additive_wakes k t) hr
    exact ⟨hb.changes hc, installsOnce_send hb.bits hlast hr⟩
  | translateHandle cur pid handle copy =>
    obtain ⟨⟨st, r⟩, hr, rfl⟩ := map_eq_ok.1 (toOption_eq_some.1 h)
    have hc := translateHandle_changes (a := .all) (fun _ => trivial) hr
    exact ⟨hb.changes hc, installsOnce_translateHandle hb.bits hr⟩

end Kernel

/-- However many handles are passed on, a process comes to hold each object in one slot at most, or
in no more than it had before. -/
theorem transfers_install_once {s : IrqKernel} (hs : s.Reachable) {ts : List Transfer}
    {k' : Kernel} (hlast : Run.Meets transferStep LooksEverywhere s.kernel ts)
    (hrun : Run.exec transferStep s.kernel ts = some k') (q o : ℕ) :
    k'.slotsFor q o ≤ max (s.kernel.slotsFor q o) 1 := by
  have hinv : k'.Base ∧ InstallsOnce s.kernel k' := by
    refine Run.exec_invariant (I := fun r => r.Base ∧ InstallsOnce s.kernel r)
      (fun r t r' hr ht h => ?_) ts ⟨hs.sane.base, .of_handles fun _ => rfl⟩ hlast hrun
    obtain ⟨hb, honce⟩ := installsOnce_transfer hr.1 ht h
    exact ⟨hb, hr.2.trans honce⟩
  exact hinv.2 q o

/-- A process fills its table, and deletes its first handle again. Its only port is in slot 31. -/
def portInLastSlot : List IrqStep :=
  .task 0 (.event .createProcess)
    :: replicate 32 (.task 0 (.event (.call (.createObject none .port true))))
    ++ [.task 0 (.event (.call (.invokeObject 31 0 noArgs))),
      .task 0 (.event (.call (.deleteObject 0)))]

/-- It sends itself a message to be answered at this port, and gets a second slot for it. -/
theorem reply_installed_twice :
    ∃ (s : IrqKernel) (k' : Kernel), s.Reachable
      ∧ Run.exec transferStep s.kernel [.send 0 31 (some (emptyMessage 31)) 24] = some k'
      ∧ s.kernel.slotsFor 0 31 = 1 ∧ k'.slotsFor 0 31 = 2 := by
  have hrun : (Run.exec (fun s a => (IrqKernel.step s a).toOption) .boot portInLastSlot).bind
      (fun s => (Run.exec transferStep s.kernel [.send 0 31 (some (emptyMessage 31)) 24]).map
        fun k' => (s.kernel.slotsFor 0 31, k'.slotsFor 0 31)) = some (1, 2) := by
    decide +kernel
  obtain ⟨s, hs, hrun⟩ := bind_eq_some_iff.1 hrun
  obtain ⟨k', hk', hlast⟩ := map_eq_some_iff.1 hrun
  exact ⟨s, k', ⟨_, hs⟩, hk', Prod.mk.inj hlast⟩

/-- The client sends three messages to be answered at the same port. -/
theorem transfers_install_once_three_sends :
    ∃ (s : IrqKernel) (k' : Kernel), s.Reachable
      ∧ Run.exec transferStep s.kernel (replicate 3 (.send 1 0 (some (emptyMessage 0)) 24))
        = some k'
      ∧ s.kernel.slotsFor 0 2 = 0 ∧ k'.slotsFor 0 2 ≤ 1 := by
  have hrun : (Run.exec (fun s a => (IrqKernel.step s a).toOption) .boot
      (clientAndServer.map fun e => .task e.1 (.event e.2))).bind (fun s =>
        (Run.exec transferStep s.kernel
          (replicate 3 (.send 1 0 (some (emptyMessage 0)) 24))).map fun _ =>
            (s.kernel.slotsFor 0 2, decide (Run.Meets transferStep LooksEverywhere s.kernel
              (replicate 3 (.send 1 0 (some (emptyMessage 0)) 24))))) = some (0, true) := by
    decide +kernel
  obtain ⟨s, hs, hrun⟩ := bind_eq_some_iff.1 hrun
  obtain ⟨k', hk', hlast⟩ := map_eq_some_iff.1 hrun
  simp only [Prod.mk.injEq, decide_eq_true_eq] at hlast
  have honce := transfers_install_once ⟨_, hs⟩ hlast.2 hk' 0 2
  rw [hlast.1] at honce
  exact ⟨s, k', ⟨_, hs⟩, hk', hlast.1, honce⟩

end DragonWare
