import DragonWare.Proofs.Wakeup
import DragonWare.Lib.Ring

/-!
# The queue of a port

At any time the accepted messages are the taken ones followed by those in the ring (`QueueInv`): a
send that is turned away writes only the slot at the tail, which is not in it.
-/

namespace DragonWare

open Fallible Kernel List

/-- A message taken off the queue, with what its receiver was told and given. -/
structure Taken where
  message : Delivery
  status : Status
  delivered : Option Delivery
  deriving DecidableEq, Repr

structure PortLog where
  kernel : Kernel
  accepted : List Delivery
  taken : List Taken

inductive PortAction
  | send (t : ℕ) (handle : ℤ) (copy : Option Message) (size : ℕ)
  | enqueue (p : ℕ) (m : Message)
  | receive (t : ℕ) (handle : ℤ) (copyOk : Bool)
  | resume (t : ℕ) (copyOk : Bool)

namespace Kernel

/-- The reply handle that a message of process `q` to port `p` gets. -/
def rewrittenReply (k : Kernel) (q p : ℕ) (raw : ℤ) : ℤ :=
  match k.translateReply q (k.port p) raw with
  | .ok (r, _) => r
  | .error _ => raw

/-- What a message of process `q` to port `p` is to be delivered as: with the fields of the header
that the kernel writes. -/
def rewritten (k : Kernel) (q p : ℕ) (m : Message) : Delivery :=
  ({ m with header := { m.header with
    sender := (k.process q).pid
    reserved := 0
    replyHandle := k.rewrittenReply q p m.header.replyHandle } } : Message).delivery

def sent (k : Kernel) (p t : ℕ) (handle : ℤ) (copy : Option Message) (st : Status) :
    List Delivery :=
  match (k.thread t).owner, copy with
  | some q, some m =>
    if st = .ok ∧ k.portOfHandle t handle = some p then [k.rewritten q p m] else []
  | _, _ => []

end Kernel

namespace PortLog

/-- The log after a receive on `target`. Only a receive that ends with `STATUS_OK` or `STATUS_BAD`
has taken a message. -/
def receipt (p : ℕ) (s : PortLog) (target : Option ℕ) :
    Except Fault (Receipt × Kernel) → Option PortLog
  | .error _ => none
  | .ok (.asleep, k) => some { s with kernel := k }
  | .ok (.done st delivered, k) =>
    let port := s.kernel.port p
    some { s with
      kernel := k
      taken := s.taken ++ if target = some p ∧ (st = .ok ∨ st = .bad) then
        [⟨(port.msgbuf port.head).delivery, st, delivered⟩] else [] }

/-- One action, as port `p` sees it. `EnqueueMessage` is called with messages that fit into a slot:
`SendMessage`, its only caller, checks that. -/
def step (p : ℕ) (s : PortLog) : PortAction → Option PortLog
  | .send t handle copy size =>
    (s.kernel.dwIPCSend t handle copy size).toOption.map fun r =>
      { s with kernel := r.2, accepted := s.accepted ++ s.kernel.sent p t handle copy r.1 }
  | .enqueue p' m =>
    if messageBufferSize < m.header.payloadLength then none
    else
      (s.kernel.enqueueMessage p' m).toOption.map fun r =>
        { s with
          kernel := r.2
          accepted := s.accepted ++ if r.1 = .ok ∧ p' = p then [m.delivery] else [] }
  | .receive t handle copyOk =>
    s.receipt p (s.kernel.portOfHandle t handle)
      ({ s.kernel with currentThread := some t }.dwIPCReceive t handle copyOk)
  | .resume t copyOk =>
    (s.kernel.inReceive t).bind fun p' =>
      s.receipt p (some p') ({ s.kernel with currentThread := some t }.receiveFrom t p' copyOk)

end PortLog

theorem delivery_congr {header : MessageHeader} {f g : ℕ → BitVec 8}
    (h : ∀ i < header.payloadLength, f i = g i) :
    (⟨header, f⟩ : Message).delivery = (⟨header, g⟩ : Message).delivery := by
  simp only [Message.delivery, Delivery.mk.injEq, true_and]
  exact map_congr_left fun i hi => h i (mem_range.1 hi)

theorem copyPayload_delivery (slot m : Message) :
    (slot.copyPayload m m.header.payloadLength).delivery = m.delivery :=
  delivery_congr fun _ hi => if_pos hi

def Port.queue (port : Port) : List Delivery :=
  (Ring.contents port.msgbuf maxMessagesInPort port.head port.count).map Message.delivery

structure QueueInv (port : Port) (accepted : List Delivery) (taken : List Taken) : Prop where
  ring : Ring.WellFormed maxMessagesInPort port.head port.tail port.count
  fifo : accepted = taken.map Taken.message ++ port.queue
  receipts : ∀ e ∈ taken, (e.status = .ok ∧ e.delivered = some e.message)
    ∨ (e.status = .bad ∧ e.delivered = none)

namespace QueueInv

variable {port : Port} {accepted : List Delivery} {taken : List Taken}

theorem write (h : QueueInv port accepted taken) (hc : port.count < maxMessagesInPort)
    (m : Message) : QueueInv (port.writeTail m) accepted taken := by
  refine ⟨h.ring, ?_, h.receipts⟩
  rw [h.fifo, Port.queue, Port.queue]
  simp only [Port.writeTail, h.ring.contents_write hc]

theorem push (h : QueueInv port accepted taken) (hc : port.count < maxMessagesInPort)
    (m : Message) : QueueInv (port.writeTail m).advanceTail (accepted ++ [m.delivery]) taken := by
  refine ⟨h.ring.push hc, ?_, h.receipts⟩
  rw [h.fifo, Port.queue, Port.queue]
  simp only [Port.writeTail, Port.advanceTail, h.ring.contents_push hc, map_append,
    map_singleton, append_assoc]

theorem pop (h : QueueInv port accepted taken) (hc : port.count ≠ 0) {e : Taken}
    (hm : e.message = (port.msgbuf port.head).delivery)
    (he : (e.status = .ok ∧ e.delivered = some e.message)
      ∨ (e.status = .bad ∧ e.delivered = none)) :
    QueueInv port.advanceHead accepted (taken ++ [e]) := by
  refine ⟨h.ring.pop hc, ?_, fun e' he' => ?_⟩
  · rw [h.fifo, Port.queue, Port.queue, h.ring.contents_pop hc]
    simp [Port.advanceHead, hm]
  · rcases mem_append.1 he' with he' | he'
    · exact h.receipts e' he'
    · rw [mem_singleton.1 he']
      exact he

end QueueInv

namespace PortLog

def Inv (p : ℕ) (s : PortLog) : Prop := QueueInv (s.kernel.port p) s.accepted s.taken

variable {p p' t : ℕ} {s s' : PortLog}

theorem setPort_port_ne (k : Kernel) (h : p ≠ p') (x : Port) :
    (k.setPort p' x).port p = k.port p := by
  simp [setPort, h]

theorem setPort_port_self (k : Kernel) (p : ℕ) (x : Port) : (k.setPort p x).port p = x := by
  simp [setPort]

theorem acceptedMessage_delivery {k r : Kernel} {q n : ℕ} {reply : ℤ} {slot m : Message}
    (hr : k.translateReply q (k.port p) m.header.replyHandle = .ok (reply, r))
    (hlen : m.header.payloadLength ≤ n) :
    (acceptedMessage slot m n (r.process q).pid reply).delivery = k.rewritten q p m := by
  have hreply : k.rewrittenReply q p m.header.replyHandle = reply := by
    simp [rewrittenReply, hr]
  rw [rewritten, hreply, ← translateReply_pid hr]
  exact delivery_congr fun i hi => if_pos (hi.trans_le hlen)

theorem Inv.send (h : Inv p s) {size : ℕ} {handle : ℤ} {copy : Option Message}
    (hs : s.step p (.send t handle copy size) = some s') : Inv p s' := by
  obtain ⟨⟨st, k'⟩, hk, rfl⟩ := Option.map_eq_some_iff.1 hs
  have hrej : st ≠ .ok → s.kernel.sent p t handle copy st = [] := by
    intro hst
    unfold sent
    split <;> simp [hst]
  rcases dwIPCSend_cases (toOption_eq_some.1 hk) with
    ⟨hst, rfl⟩ | ⟨q, target, p', -, hq, -, hslot, -, -, hdata, hk⟩
  · simpa [Inv, hrej hst] using h
  have hport := portOfHandle_eq hq hslot hdata
  obtain ⟨-, ⟨hst, rfl⟩ | ⟨hst, hc, slot, rfl⟩ | ⟨m, owner, reply, r, rfl, rfl, -, hc, hlen, hr,
    rfl⟩⟩ := sendToPort_cases hk
  · simpa [Inv, hrej hst] using h
  · simp only [Inv, hrej hst, append_nil]
    by_cases hp : p = p'
    · subst hp
      rw [setPort_port_self]
      exact h.write hc slot
    · rw [setPort_port_ne _ hp]
      exact h
  · have hport' : r.port = s.kernel.port := by rw [translateReply_eq hr]
    simp only [Inv, (sameStore_wakeThread _ _).port]
    by_cases hp : p = p'
    · subst hp
      rw [setPort_port_self]
      simp only [sent, hq, hport, and_self, if_true]
      rw [← acceptedMessage_delivery hr hlen]
      exact h.push hc _
    · rw [setPort_port_ne _ hp, hport']
      have : ¬ p' = p := fun h => hp h.symm
      simpa [Inv, sent, hq, hport, this] using h

theorem Inv.enqueue (h : Inv p s) {m : Message}
    (hs : s.step p (.enqueue p' m) = some s') : Inv p s' := by
  simp only [step] at hs
  split_ifs at hs with hlen
  obtain ⟨⟨st, k'⟩, hk, rfl⟩ := Option.map_eq_some_iff.1 hs
  obtain ⟨-, ⟨hst, rfl⟩ | ⟨owner, rfl, hc, -, rfl⟩⟩ :=
    enqueueMessage_cases (toOption_eq_some.1 hk)
  · simpa [Inv, hst] using h
  simp only [Inv, (sameStore_wakeThread _ _).port, true_and]
  by_cases hp : p = p'
  · subst hp
    rw [setPort_port_self, if_pos rfl,
      ← copyPayload_delivery ((s.kernel.port p).msgbuf (s.kernel.port p).tail) m]
    exact h.push hc _
  · rw [setPort_port_ne _ hp, if_neg fun h => hp h.symm]
    simpa [Inv] using h

theorem Inv.receiveFrom (h : Inv p s) {copyOk : Bool}
    (hs : s.receipt p (some p')
      ({ s.kernel with currentThread := some t }.receiveFrom t p' copyOk) = some s') :
    Inv p s' := by
  rcases hr : { s.kernel with currentThread := some t }.receiveFrom t p' copyOk with _ | ⟨rc, k'⟩
  · simp [hr, receipt] at hs
  rw [hr] at hs
  obtain ⟨-, ⟨-, rfl, hsched⟩ | ⟨hc, hrc, rfl⟩⟩ := receiveFrom_cases hr
  · simp only [receipt, Option.some.injEq] at hs
    subst hs
    simp only [Inv, (scheduleNext_cases hsched).1.port]
    exact h
  by_cases hp : p = p'
  · subst hp
    cases copyOk <;> subst hrc <;>
    · simp only [receipt, Bool.false_eq_true, if_true, if_false, true_or, or_true, and_self,
        Option.some.injEq] at hs
      subst hs
      simp only [Inv, setPort_port_self]
      exact h.pop hc rfl (by simp)
  · have hne : ¬ p' = p := fun h => hp h.symm
    cases copyOk <;> subst hrc <;>
    · simp only [receipt, Bool.false_eq_true, if_true, if_false, Option.some.injEq, hne,
        false_and, append_nil] at hs
      subst hs
      simp only [Inv, setPort_port_ne _ hp]
      exact h

theorem Inv.step (a : PortAction) (h : Inv p s) (hs : s.step p a = some s') : Inv p s' := by
  cases a with
  | send t handle copy size => exact h.send hs
  | enqueue p' m => exact h.enqueue hs
  | receive t handle copyOk =>
    simp only [PortLog.step] at hs
    rcases hr : { s.kernel with currentThread := some t }.dwIPCReceive t handle copyOk with
      _ | ⟨rc, k'⟩
    · simp [hr, receipt] at hs
    rcases dwIPCReceive_cases hr with
      ⟨st, rfl, hok, hbad, rfl⟩ | ⟨q, o, p', owner, -, hq, -, hslot, -, -, hdata, -, -, hloop⟩
    · rw [hr] at hs
      simp only [receipt, hok, hbad, or_self, and_false, if_false, append_nil,
        Option.some.injEq] at hs
      subst hs
      exact h
    · have hport : s.kernel.portOfHandle t handle = some p' := portOfHandle_eq hq hslot hdata
      rw [hr, hport, ← hloop] at hs
      exact h.receiveFrom hs
  | resume t copyOk =>
    obtain ⟨p', -, hs⟩ := Option.bind_eq_some_iff.1 hs
    exact h.receiveFrom hs

theorem Inv.fresh {k k' : Kernel} {name : Option (List (BitVec 8))} {owner : ℕ}
    {portOk nodeOk : Bool}
    (h : k.createPort name owner portOk nodeOk = .ok (.ok, some p, k')) : Inv p ⟨k', [], []⟩ := by
  rcases createPort_cases h with
    ⟨hst, -⟩ | ⟨-, hp, x, l, hhead, htail, hcount, -, -, rfl⟩
  · exact absurd rfl hst
  cases hp
  simp only [Inv, setPort_port_self]
  refine ⟨⟨?_, ?_, ?_⟩, ?_, by simp⟩
  · rw [hhead]
    decide
  · simp [hcount]
  · simp [hhead, htail, hcount]
  · simp [Port.queue, Ring.contents, hcount]

end PortLog

/-- The queue of a port is first in, first out, from its creation on. -/
theorem port_queue_fifo {k k' : Kernel} {name : Option (List (BitVec 8))} {owner p : ℕ}
    {portOk nodeOk : Bool} {s : PortLog}
    (h : k.createPort name owner portOk nodeOk = .ok (.ok, some p, k')) (as : List PortAction)
    (hs : Run.exec (PortLog.step p) ⟨k', [], []⟩ as = some s) :
    (s.kernel.port p).count ≤ maxMessagesInPort
    ∧ (s.kernel.port p).tail
      = ((s.kernel.port p).head + (s.kernel.port p).count) % maxMessagesInPort
    ∧ s.taken.map Taken.message <+: s.accepted
    ∧ ∀ (i : ℕ) (e : Taken), s.taken[i]? = some e →
      (e.status = .ok ∧ ∃ d, s.accepted[i]? = some d ∧ e.delivered = some d)
      ∨ (e.status = .bad ∧ e.delivered = none) := by
  have hinv : PortLog.Inv p s :=
    Run.exec_invariant' (fun _ a _ hI => hI.step a) as (PortLog.Inv.fresh h) hs
  refine ⟨hinv.ring.count_le, hinv.ring.tail_eq, ⟨_, hinv.fifo.symm⟩, fun i e he => ?_⟩
  rcases hinv.receipts e (mem_of_getElem? he) with ⟨hst, hd⟩ | hbad
  · refine .inl ⟨hst, e.message, ?_, hd⟩
    rw [hinv.fifo, getElem?_append_left, getElem?_map, he, Option.map_some]
    rw [length_map]
    exact (List.getElem?_eq_some_iff.1 he).1
  · exact .inr hbad

/-- The server and its client before the server's port is created. -/
def beforePort : Kernel :=
  { serverAndClient 0 with
    ports := 0
    portList := []
    live := { (serverAndClient 0).live with port := fun _ => false } }

def byteMessage (b : BitVec 8) : Message := ⟨⟨1, -1, 0, 0, 0, 1, 0⟩, fun _ => b⟩

/-- A message whose byte is missing is turned away, and the next one is received as it was sent. -/
theorem port_queue_fifo_after_rejection :
    ∃ k' s, beforePort.createPort (some [97]) 0 true true = .ok (.ok, some 0, k')
      ∧ Run.exec (PortLog.step 0) ⟨k', [], []⟩
          [.send 1 0 (some (byteMessage 1)) 24, .send 1 0 (some (byteMessage 2)) 25,
            .enqueue 0 (byteMessage 3), .receive 0 0 false, .receive 0 0 true] = some s
      ∧ s.accepted.length = 2 ∧ s.taken.length = 2
      ∧ s.taken.map Taken.message <+: s.accepted := by
  have hrun : ((beforePort.createPort (some [97]) 0 true true).toOption.bind fun r =>
      (Run.exec (PortLog.step 0) ⟨r.2.2, [], []⟩
        [.send 1 0 (some (byteMessage 1)) 24, .send 1 0 (some (byteMessage 2)) 25,
          .enqueue 0 (byteMessage 3), .receive 0 0 false, .receive 0 0 true]).map fun s =>
        (r.1, r.2.1, s.accepted.length, s.taken.length)) = some (.ok, some 0, 2, 2) := by
    decide +kernel
  obtain ⟨⟨st, res, k'⟩, hk, hrun⟩ := Option.bind_eq_some_iff.1 hrun
  obtain ⟨s, hs, hrun⟩ := Option.map_eq_some_iff.1 hrun
  simp only [Prod.mk.injEq] at hrun
  obtain ⟨rfl, rfl, hacc, htaken⟩ := hrun
  have hcreate := toOption_eq_some.1 hk
  exact ⟨k', s, hcreate, hs, hacc, htaken, (port_queue_fifo hcreate _ hs).2.2.1⟩

end DragonWare
