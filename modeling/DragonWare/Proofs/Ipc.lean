import DragonWare.Ipc
import DragonWare.Proofs.Sched

/-!
# What sending and receiving can do

One lemma for each function of the message path, with every way it can end.
-/

namespace DragonWare

open Fallible

namespace Kernel

variable {k k' : Kernel} {cur p q o size : ℕ} {handle r raw : ℤ} {port : Port} {st : Status}
  {x : Process} {copy : Option Message} {copyOk : Bool} {rc : Receipt} {m : Message}

theorem derefObject_ok {x : Object} :
    k.derefObject o = .ok x ↔ k.live.object o = true ∧ x = k.object o := by
  unfold derefObject
  split_ifs with h <;> simp [h, eq_comm]

theorem derefPort_ok {x : Port} : k.derefPort p = .ok x ↔ k.live.port p = true ∧ x = k.port p := by
  unfold derefPort
  split_ifs with h <;> simp [h, eq_comm]

theorem derefProcess_ok : k.derefProcess q = .ok x ↔ k.live.process q = true ∧ x = k.process q := by
  unfold derefProcess
  split_ifs with h <;> simp [h, eq_comm]

theorem derefPortOwner_ok :
    k.derefPortOwner q = .ok x ↔ k.live.process q = true ∧ x = k.process q := by
  unfold derefPortOwner
  split_ifs with h <;> simp [h, eq_comm]

theorem nonNull_ok {p : Option ℕ} {a : ℕ} : nonNull p = .ok a ↔ p = some a := by
  cases p <;> simp [nonNull]

theorem currProc_ok :
    k.currProc cur = .ok q ↔ (k.thread cur).owner = some q ∧ k.live.process q = true := by
  simp only [currProc, bind_eq_ok, nonNull_ok, derefProcess_ok, pure_eq, Except.ok.injEq]
  constructor
  · rintro ⟨q', hq', _, ⟨hl, -⟩, rfl⟩
    exact ⟨hq', hl⟩
  · rintro ⟨hq, hl⟩
    exact ⟨q, hq, _, ⟨hl, rfl⟩, rfl⟩

theorem portOfHandle_eq (hq : (k.thread cur).owner = some q)
    (hslot : (k.process q).handles.objlist handle.toNat = some o)
    (hdata : (k.object o).data = some p) : k.portOfHandle cur handle = some p := by
  simp [portOfHandle, hq, hslot, hdata]

section

variable (h : k.translateReply q port raw = .ok (r, k'))

include h

/-- The reply handle of a message is out of range; or names no port object and is passed on as it
is; or names the port object `o`, which is looked for in the table of the port's owner and put there
if it is not found. -/
theorem translateReply_cases :
    (¬ (0 ≤ raw ∧ raw < maxObjPerProcess) ∧ r = -1 ∧ k' = k)
    ∨ ((0 ≤ raw ∧ raw < maxObjPerProcess) ∧ r = raw ∧ k' = k
      ∧ ∀ o, (k.process q).handles.objlist raw.toNat = some o → (k.object o).type ≠ .port)
    ∨ ∃ o owner target, (0 ≤ raw ∧ raw < maxObjPerProcess)
      ∧ (k.process q).handles.objlist raw.toNat = some o ∧ k.live.object o = true
      ∧ (k.object o).type = .port ∧ port.owner = some owner
      ∧ (k.thread owner).owner = some target ∧ k.live.process target = true
      ∧ ((∃ i : ℕ, (k.process target).handles.findHandle o (maxObjPerProcess - 1) = some i
          ∧ r = i ∧ k' = k)
        ∨ (∃ (i : ℕ) (table : HandleTable),
          (k.process target).handles.findHandle o (maxObjPerProcess - 1) = none
          ∧ (k.process target).handles.appendToHandleTable o = some (i, table)
          ∧ r = i ∧ k' = k.setHandles target table)
        ∨ ((k.process target).handles.appendToHandleTable o = none ∧ r = -1 ∧ k' = k)) := by
  unfold translateReply at h
  split_ifs at h with hraw
  · cases hslot : (k.process q).handles.objlist raw.toNat with
    | none =>
      simp only [hslot, Except.ok.injEq, Prod.mk.injEq] at h
      exact .inr (.inl ⟨hraw, h.1.symm, h.2.symm, fun o ho => by simp at ho⟩)
    | some o =>
      simp only [hslot] at h
      obtain ⟨obj, hobj, h⟩ := bind_eq_ok.1 h
      obtain ⟨hlive, rfl⟩ := derefObject_ok.1 hobj
      split_ifs at h with htype
      · simp only [pure_eq, Except.ok.injEq, Prod.mk.injEq] at h
        refine .inr (.inl ⟨hraw, h.1.symm, h.2.symm, fun o' ho' => ?_⟩)
        cases ho'
        exact htype
      obtain ⟨owner, howner, h⟩ := bind_eq_ok.1 h
      obtain ⟨target, htarget, h⟩ := bind_eq_ok.1 h
      obtain ⟨receiver, hreceiver, h⟩ := bind_eq_ok.1 h
      obtain ⟨hlt, rfl⟩ := derefPortOwner_ok.1 hreceiver
      refine .inr (.inr ⟨o, owner, target, hraw, rfl, hlive, not_not.1 htype,
        nonNull_ok.1 howner, nonNull_ok.1 htarget, hlt, ?_⟩)
      split at h
      · rename_i i hi
        simp only [pure_eq, Except.ok.injEq, Prod.mk.injEq] at h
        exact .inl ⟨i, hi, h.1.symm, h.2.symm⟩
      rename_i hfind
      split at h
      · rename_i i table hi
        simp only [pure_eq, Except.ok.injEq, Prod.mk.injEq] at h
        exact .inr (.inl ⟨i, table, hfind, hi, h.1.symm, h.2.symm⟩)
      · rename_i hfull
        simp only [pure_eq, Except.ok.injEq, Prod.mk.injEq] at h
        exact .inr (.inr ⟨hfull, h.1.symm, h.2.symm⟩)
  · simp only [Except.ok.injEq, Prod.mk.injEq] at h
    exact .inl ⟨hraw, h.1.symm, h.2.symm⟩

theorem translateReply_eq :
    k' = { k with process := k'.process } := by
  rcases translateReply_cases h with
    ⟨-, -, rfl⟩ | ⟨-, -, rfl, -⟩ | ⟨_, _, _, -, -, -, -, -, -, -,
      ⟨_, -, -, rfl⟩ | ⟨_, _, -, -, -, rfl⟩ | ⟨-, -, rfl⟩⟩ <;> rfl

theorem translateReply_pid (s : ℕ) : (k'.process s).pid = (k.process s).pid := by
  rcases translateReply_cases h with
    ⟨-, -, rfl⟩ | ⟨-, -, rfl, -⟩ | ⟨_, _, target, -, -, -, -, -, -, -,
      ⟨_, -, -, rfl⟩ | ⟨_, _, -, -, -, rfl⟩ | ⟨-, -, rfl⟩⟩
  case inr.inr.inr.inl =>
    by_cases hs : s = target
    · simp [hs, setHandles, setProcess]
    · simp [hs, setHandles, setProcess]
  all_goals rfl

end

theorem translateReply_setPort (k : Kernel) (p : ℕ) (x : Port) (q : ℕ) (port : Port) (raw : ℤ) :
    (k.setPort p x).translateReply q port raw
      = (fun r => (r.1, r.2.setPort p x)) <$> k.translateReply q port raw := by
  have hobj : ∀ o, (k.setPort p x).derefObject o = k.derefObject o := fun _ => rfl
  have hproc : ∀ q, (k.setPort p x).derefPortOwner q = k.derefPortOwner q := fun _ => rfl
  have hhandles : ∀ q t, (k.setPort p x).setHandles q t = (k.setHandles q t).setPort p x :=
    fun _ _ => rfl
  have hprocess : (k.setPort p x).process = k.process := rfl
  have hthread : (k.setPort p x).thread = k.thread := rfl
  simp only [translateReply, hobj, hproc, hhandles, hprocess, hthread]
  split_ifs
  · split
    · rfl
    · simp only [map_bind]
      refine bind_congr fun obj => ?_
      split_ifs
      · rfl
      simp only [map_bind]
      refine bind_congr fun owner => bind_congr fun target => bind_congr fun receiver => ?_
      split
      · rfl
      · split <;> rfl
  · rfl

def acceptedMessage (slot m : Message) (n sender : ℕ) (reply : ℤ) : Message :=
  { slot.copyPayload m n with header :=
    { m.header with sender := sender, reserved := 0, replyHandle := reply } }

/-- A send to a port is turned away, with its bytes left in the slot at the tail or not, or the
message is put in that slot and the slot added to the queue. -/
theorem sendToPort_cases (h : k.sendToPort q p copy size = .ok (st, k')) :
    k.live.port p = true
    ∧ ((st ≠ .ok ∧ k' = k)
      ∨ (st ≠ .ok ∧ (k.port p).count < maxMessagesInPort
        ∧ ∃ slot, k' = k.setPort p ((k.port p).writeTail slot))
      ∨ ∃ m owner reply r, st = .ok ∧ copy = some m ∧ (k.port p).owner = some owner
        ∧ (k.port p).count < maxMessagesInPort
        ∧ m.header.payloadLength ≤ size - sizeofMessageHeader
        ∧ k.translateReply q (k.port p) m.header.replyHandle = .ok (reply, r)
        ∧ k' = (r.setPort p ((k.port p).writeTail (acceptedMessage
            ((k.port p).msgbuf (k.port p).tail) m (size - sizeofMessageHeader)
            (r.process q).pid reply)).advanceTail).wakeThread owner) := by
  obtain ⟨port, hport, h⟩ := bind_eq_ok.1 h
  obtain ⟨hlive, rfl⟩ := derefPort_ok.1 hport
  refine ⟨hlive, ?_⟩
  cases howner : (k.port p).owner with
  | none =>
    simp only [howner, pure_eq, Except.ok.injEq, Prod.mk.injEq] at h
    obtain ⟨rfl, rfl⟩ := h
    exact .inl ⟨by simp, rfl⟩
  | some owner =>
    simp only [howner] at h
    split_ifs at h with hfull
    · cases h
      exact .inl ⟨by simp, rfl⟩
    cases copy with
    | none =>
      cases h
      exact .inl ⟨by simp, rfl⟩
    | some m =>
      simp only at h
      split_ifs at h with hlen
      · cases h
        exact .inr (.inl ⟨by simp, by omega, _, rfl⟩)
      obtain ⟨⟨reply, r'⟩, hreply, h⟩ := bind_eq_ok.1 h
      rw [translateReply_setPort] at hreply
      obtain ⟨⟨reply', r⟩, htr, heq⟩ := map_eq_ok.1 hreply
      cases heq
      cases h
      refine .inr (.inr ⟨m, owner, reply', r, rfl, rfl, rfl, by omega, not_lt.1 hlen, htr, ?_⟩)
      simp [setPort, Port.writeTail, acceptedMessage, Message.copyPayload]

theorem truncated_size (size : ℕ) :
    (if sizeofMessage < size then sizeofMessage else size) = min size sizeofMessage := by
  split_ifs <;> omega

theorem dwIPCSend_cases (h : k.dwIPCSend cur handle copy size = .ok (st, k')) :
    (st ≠ .ok ∧ k' = k)
    ∨ ∃ q target p, (sizeofMessageHeader ≤ min size sizeofMessage
        ∧ 0 ≤ handle ∧ handle < maxObjPerProcess)
      ∧ (k.thread cur).owner = some q ∧ k.live.process q = true
      ∧ (k.process q).handles.objlist handle.toNat = some target ∧ k.live.object target = true
      ∧ (k.object target).type = .port ∧ (k.object target).data = some p
      ∧ k.sendToPort q p copy (min size sizeofMessage) = .ok (st, k') := by
  simp only [dwIPCSend, truncated_size] at h
  split_ifs at h with hsize hhandle
  · cases h
    exact .inl ⟨by simp, rfl⟩
  · cases h
    exact .inl ⟨by simp, rfl⟩
  obtain ⟨q, hq, h⟩ := bind_eq_ok.1 h
  obtain ⟨hq, hl⟩ := currProc_ok.1 hq
  cases hslot : (k.process q).handles.objlist handle.toNat with
  | none =>
    simp only [hslot] at h
    cases h
    exact .inl ⟨by simp, rfl⟩
  | some target =>
    simp only [hslot] at h
    obtain ⟨obj, hobj, h⟩ := bind_eq_ok.1 h
    obtain ⟨hlive, rfl⟩ := derefObject_ok.1 hobj
    split at h
    · rename_i p htype hdata
      exact .inr ⟨q, target, p, by omega, hq, hl, hslot, hlive, htype, hdata, h⟩
    · cases h
      exact .inl ⟨by simp, rfl⟩

theorem receiveFrom_cases (h : k.receiveFrom cur p copyOk = .ok (rc, k')) :
    k.live.port p = true
    ∧ (((k.port p).count = 0 ∧ rc = .asleep
        ∧ Kernel.scheduleNext { k.blockThread cur with
            inReceive := Function.update k.inReceive cur (some p) } = .ok k')
      ∨ ((k.port p).count ≠ 0
        ∧ rc = (if copyOk then
            .done .ok (some ((k.port p).msgbuf (k.port p).head).delivery) else .done .bad none)
        ∧ k' = { k.setPort p (k.port p).advanceHead with
            inReceive := Function.update k.inReceive cur none })) := by
  obtain ⟨port, hport, h⟩ := bind_eq_ok.1 h
  obtain ⟨hlive, rfl⟩ := derefPort_ok.1 hport
  refine ⟨hlive, ?_⟩
  split_ifs at h with hcount hcopy
  · obtain ⟨r, hr, h⟩ := bind_eq_ok.1 h
    cases h
    exact .inl ⟨hcount, rfl, hr⟩
  · cases h
    exact .inr ⟨hcount, by simp [hcopy], rfl⟩
  · cases h
    exact .inr ⟨hcount, by simp [hcopy], rfl⟩

theorem dwIPCReceive_cases (h : k.dwIPCReceive cur handle copyOk = .ok (rc, k')) :
    (∃ st, rc = .done st none ∧ st ≠ .ok ∧ st ≠ .bad ∧ k' = k)
    ∨ ∃ q o p owner, (0 ≤ handle ∧ handle < maxObjPerProcess) ∧ (k.thread cur).owner = some q
      ∧ k.live.process q = true
      ∧ (k.process q).handles.objlist handle.toNat = some o ∧ k.live.object o = true
      ∧ (k.object o).type = .port ∧ (k.object o).data = some p
      ∧ (k.port p).owner = some owner ∧ (k.thread owner).owner = some q
      ∧ k.receiveFrom cur p copyOk = .ok (rc, k') := by
  unfold dwIPCReceive at h
  split_ifs at h with hhandle
  · cases h
    exact .inl ⟨_, rfl, by simp, by simp, rfl⟩
  obtain ⟨q, hq, h⟩ := bind_eq_ok.1 h
  obtain ⟨hq, hl⟩ := currProc_ok.1 hq
  cases hslot : (k.process q).handles.objlist handle.toNat with
  | none =>
    simp only [hslot] at h
    cases h
    exact .inl ⟨_, rfl, by simp, by simp, rfl⟩
  | some o =>
    simp only [hslot] at h
    obtain ⟨obj, hobj, h⟩ := bind_eq_ok.1 h
    obtain ⟨hlive, rfl⟩ := derefObject_ok.1 hobj
    split at h
    · rename_i p htype hdata
      obtain ⟨port, hport, h⟩ := bind_eq_ok.1 h
      obtain ⟨-, rfl⟩ := derefPort_ok.1 hport
      obtain ⟨owner, howner, h⟩ := bind_eq_ok.1 h
      split_ifs at h with hown
      · cases h
        exact .inl ⟨_, rfl, by simp, by simp, rfl⟩
      · exact .inr ⟨q, o, p, owner, by omega, hq, hl, hslot, hlive, htype, hdata,
          nonNull_ok.1 howner, not_not.1 hown, h⟩
    · cases h
      exact .inl ⟨_, rfl, by simp, by simp, rfl⟩

theorem enqueueMessage_cases (h : k.enqueueMessage p m = .ok (st, k')) :
    k.live.port p = true
    ∧ ((st ≠ .ok ∧ k' = k)
      ∨ ∃ owner, st = .ok ∧ (k.port p).count < maxMessagesInPort ∧ (k.port p).owner = some owner
        ∧ k' = (k.setPort p ((k.port p).writeTail (((k.port p).msgbuf (k.port p).tail).copyPayload m
            m.header.payloadLength)).advanceTail).wakeThread owner) := by
  obtain ⟨port, hport, h⟩ := bind_eq_ok.1 h
  obtain ⟨hlive, rfl⟩ := derefPort_ok.1 hport
  refine ⟨hlive, ?_⟩
  split_ifs at h with hfull
  · cases h
    exact .inl ⟨by simp, rfl⟩
  · obtain ⟨owner, howner, h⟩ := bind_eq_ok.1 h
    cases h
    exact .inr ⟨owner, rfl, by omega, nonNull_ok.1 howner, rfl⟩

def kernelMessage (m : Message) : Message :=
  { m with header := { m.header with sender := 0, replyHandle := -1, reserved := 0 } }

theorem sendMessage_cases (h : k.sendMessage q handle m = .ok (st, k')) :
    (st ≠ .ok ∧ k' = k)
    ∨ ∃ target p, (0 ≤ handle ∧ handle < maxObjPerProcess) ∧ k.live.process q = true
      ∧ (k.process q).handles.objlist handle.toNat = some target ∧ k.live.object target = true
      ∧ (k.object target).type = .port ∧ (k.object target).data = some p
      ∧ m.header.payloadLength ≤ messageBufferSize
      ∧ k.enqueueMessage p (kernelMessage m) = .ok (st, k') := by
  unfold sendMessage at h
  by_cases hhandle : handle < 0 ∨ maxObjPerProcess ≤ handle
  · rw [if_pos hhandle] at h
    cases h
    exact .inl ⟨by simp, rfl⟩
  rw [if_neg hhandle] at h
  obtain ⟨proc, hproc, h⟩ := bind_eq_ok.1 h
  obtain ⟨hl, rfl⟩ := derefProcess_ok.1 hproc
  obtain ⟨target, htarget, h⟩ := bind_eq_ok.1 h
  obtain ⟨obj, hobj, h⟩ := bind_eq_ok.1 h
  obtain ⟨hlive, rfl⟩ := derefObject_ok.1 hobj
  split at h
  · rename_i p htype hdata
    split_ifs at h with hlen
    · cases h
      exact .inl ⟨by simp, rfl⟩
    · exact .inr ⟨target, p, by omega, hl, nonNull_ok.1 htarget, hlive, htype, hdata, by omega, h⟩
  · cases h
    exact .inl ⟨by simp, rfl⟩

end Kernel

end DragonWare
