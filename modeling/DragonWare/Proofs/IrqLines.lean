import DragonWare.Proofs.Relay

/-!
# Lines of the relay

`Lines` records which messages of each port are for which line, and which lines wait for an
acknowledgement. Nothing is lost as long as the port has room when a line fires and its message can
be copied (`irq_never_lost`).
-/

namespace DragonWare

open Fallible IrqKernel Kernel List Option Run
open Function

variable {s : IrqKernel} {size q t : ℕ} {copy : Option Message} {rc : Receipt}
  {descr label : Option ℕ}

namespace Pic

variable {m n : ℕ} {p : Pic}

theorem masked_disableIRQ (hn : n < maxIRQ) (h : (p.disableIRQ m).masked n = true) :
    p.masked n = true ∨ n = m := by
  have hbit : ∀ x : BitVec 8, ∀ i j, i < 8 → j < 8 → (x ||| 1#8 <<< i).getLsbD j = true →
      x.getLsbD j = true ∨ j = i := by
    intro x i j hi hj hx
    rw [BitVec.getLsbD_or, Bitmap.getLsbD_one_shiftLeft (w := 8) hj] at hx
    simpa using hx
  unfold maxIRQ at hn
  unfold disableIRQ maxIRQ at h
  unfold masked at h ⊢
  split_ifs at h ⊢ with hm hm8 hn8
  all_goals try exact .inl h
  · rcases hbit _ _ _ (Nat.mod_lt _ (by omega)) (Nat.mod_lt _ (by omega)) h with h | h
    · exact .inl h
    · exact .inr (by omega)
  · rcases hbit _ _ _ (Nat.mod_lt _ (by omega)) (Nat.mod_lt _ (by omega)) h with h | h
    · exact .inl h
    · exact .inr (by omega)

theorem masked_unmask (h : (p.unmask m).masked n = true) : p.masked n = true := by
  have hbit : ∀ x y : BitVec 8, ∀ j, (x &&& y).getLsbD j = true → x.getLsbD j = true := by
    intro x y j hx
    rw [BitVec.getLsbD_and, Bool.and_eq_true] at hx
    exact hx.1
  unfold unmask at h
  unfold masked at h ⊢
  split_ifs at h ⊢
  all_goals first | exact h | exact hbit _ _ _ h

theorem unmask_self : (p.unmask n).masked n = false := by
  have hbit : ∀ x : BitVec 8, ∀ i, i < 8 → (x &&& ~~~(1#8 <<< i)).getLsbD i = false := by
    intro x i hi
    rw [BitVec.getLsbD_and, BitVec.getLsbD_not, Bitmap.getLsbD_one_shiftLeft (w := 8) hi]
    simp
  unfold unmask masked
  split_ifs
  · exact hbit _ _ (Nat.mod_lt _ (by omega))
  · exact hbit _ _ (Nat.mod_lt _ (by omega))

theorem masked_enableIRQ (h : (p.enableIRQ m).masked n = true) : p.masked n = true := by
  unfold enableIRQ at h
  split_ifs at h
  · exact h
  · exact masked_unmask (masked_unmask h)
  · exact masked_unmask h

theorem enableIRQ_self (hn : n < maxIRQ) : (p.enableIRQ n).masked n = false := by
  unfold maxIRQ at hn
  unfold enableIRQ maxIRQ
  split_ifs
  · omega
  · by_contra hmasked
    have h := masked_unmask (by simpa using hmasked)
    simp [unmask_self] at h
  · exact unmask_self

end Pic

namespace Kernel

section Counts

variable {cur : ℕ} {handle : ℤ} {st : Status}

def counts (k : Kernel) (p : ℕ) : ℕ := (k.port p).count

structure Steady (k k' : Kernel) : Prop where
  keeps : Keeps k k'
  object : k'.object = k.object

variable {k k' : Kernel} {copyOk : Bool} {m : Message}

theorem SameStore.counts (h : SameStore k k') : k'.counts = k.counts := by
  unfold Kernel.counts
  rw [h.port]

theorem setPort_counts (k : Kernel) (p : ℕ) (x : Port) :
    (k.setPort p x).counts = update k.counts p x.count := by
  funext p'
  by_cases hp : p' = p
  · simp [Kernel.counts, setPort, hp]
  · simp [Kernel.counts, setPort, hp]

theorem Base.steady_sameStore (h : k.Base) (hs : SameStore k k') : Steady k k' :=
  ⟨h.keeps_sameStore hs, hs.object⟩

theorem Steady.trans {r : Kernel} (h : Steady k r) (h' : Steady r k') : Steady k k' :=
  ⟨h.keeps.trans h'.keeps, h'.object.trans h.object⟩

theorem Base.send_steady (h : k.Base) (hs : k.dwIPCSend cur handle copy size = .ok (st, k')) :
    Steady k k' ∧ (k'.counts = k.counts ∨ ∃ p, k.portOfHandle cur handle = some p
      ∧ k'.counts = update k.counts p (k.counts p + 1)) := by
  have hkeeps := h.keeps_changes (send_changes (fun _ _ t _ => Rights.additive_wakes k t) hs)
  rcases dwIPCSend_cases hs with ⟨-, rfl⟩ | ⟨q, target, p, -, hq, -, hslot, -, -, hdata, hp⟩
  · exact ⟨⟨hkeeps, rfl⟩, .inl rfl⟩
  have hport := portOfHandle_eq hq hslot hdata
  obtain ⟨-, ⟨-, rfl⟩ | ⟨-, -, slot, rfl⟩ | ⟨m, owner, reply, r, -, -, -, -, -, hr, rfl⟩⟩ :=
    sendToPort_cases hp
  · exact ⟨⟨hkeeps, rfl⟩, .inl rfl⟩
  · refine ⟨⟨hkeeps, rfl⟩, .inl ?_⟩
    rw [setPort_counts]
    exact update_eq_self p k.counts
  have hreply := translateReply_eq hr
  have hwake := sameStore_wakeThread (r.setPort p ((k.port p).writeTail (acceptedMessage
    ((k.port p).msgbuf (k.port p).tail) m (min size sizeofMessage - sizeofMessageHeader)
    (r.process q).pid reply)).advanceTail) owner
  have hcounts : r.counts = k.counts := by rw [hreply]; rfl
  refine ⟨⟨hkeeps, ?_⟩, .inr ⟨p, hport, ?_⟩⟩
  · rw [hwake.object, hreply]
    rfl
  · rw [hwake.counts, setPort_counts, hcounts]
    rfl

theorem Base.receiveFrom_steady (h : k.Base) {p : ℕ}
    (hcur : (∃ q, (k.thread cur).owner = some q) ∨ ∃ p, k.inReceive cur = some p)
    (hs : k.receiveFrom cur p copyOk = .ok (rc, k')) :
    Steady k k' ∧ (k'.counts = k.counts
      ∨ k.counts p ≠ 0 ∧ k'.counts = update k.counts p (k.counts p - 1)) := by
  have hkeeps := h.keeps_changes (receiveFrom_changes trivial hcur hs)
  obtain ⟨-, ⟨-, -, hsched⟩ | ⟨hcount, -, rfl⟩⟩ := receiveFrom_cases hs
  · have hsame := (scheduleNext_cases hsched).1
    exact ⟨⟨hkeeps, hsame.object⟩, .inl hsame.counts⟩
  · exact ⟨⟨hkeeps, rfl⟩, .inr ⟨hcount, setPort_counts _ _ _⟩⟩

theorem Base.receive_steady (h : k.Base) (hs : k.dwIPCReceive cur handle copyOk = .ok (rc, k')) :
    Steady k k' ∧ (k'.counts = k.counts ∨ ∃ p, k.portOfHandle cur handle = some p
      ∧ k.counts p ≠ 0 ∧ k'.counts = update k.counts p (k.counts p - 1)) := by
  rcases dwIPCReceive_cases hs with
    ⟨st, -, -, -, rfl⟩ | ⟨q, o, p, owner, -, hq, -, hslot, -, -, hdata, -, -, hp⟩
  · exact ⟨⟨h.keeps, rfl⟩, .inl rfl⟩
  · obtain ⟨hsteady, hcounts⟩ := h.receiveFrom_steady (.inl ⟨q, hq⟩) hp
    exact ⟨hsteady, hcounts.imp_right fun hc => ⟨p, portOfHandle_eq hq hslot hdata, hc⟩⟩

theorem Base.sendMessage_steady (h : k.Base) (hs : k.sendMessage q handle m = .ok (st, k')) :
    Steady k k' ∧ (k'.counts = k.counts ∨ ∃ o p, (k.process q).handles.objlist handle.toNat = some o
      ∧ (k.object o).data = some p
      ∧ k'.counts = update k.counts p (k.counts p + 1)) := by
  have hkeeps := h.keeps_sendMessage hs
  rcases sendMessage_cases hs with ⟨-, rfl⟩ | ⟨o, p, -, -, hslot, -, -, hdata, -, hs⟩
  · exact ⟨⟨hkeeps, rfl⟩, .inl rfl⟩
  obtain ⟨-, ⟨-, rfl⟩ | ⟨owner, -, -, -, rfl⟩⟩ := enqueueMessage_cases hs
  · exact ⟨⟨hkeeps, rfl⟩, .inl rfl⟩
  have hwake := sameStore_wakeThread (k.setPort p ((k.port p).writeTail (((k.port p).msgbuf
    (k.port p).tail).copyPayload (kernelMessage m)
    (kernelMessage m).header.payloadLength)).advanceTail) owner
  refine ⟨⟨hkeeps, hwake.object⟩, .inr ⟨o, p, hslot, hdata, ?_⟩⟩
  rw [hwake.counts, setPort_counts]
  rfl

theorem sendMessage_room {o p : ℕ} (hn : k.Named t handle o) (hq : (k.thread t).owner = some q)
    (hdata : (k.object o).data = some p) (hroom : k.counts p < maxMessagesInPort)
    (hlen : m.header.payloadLength ≤ messageBufferSize)
    (hs : k.sendMessage q handle m = .ok (st, k')) : k'.counts p = k.counts p + 1 := by
  obtain ⟨hrange, q', hq', hslot⟩ := objectOfHandle_eq_some.1 hn.slot
  cases hq.symm.trans hq'
  unfold sendMessage at hs
  rw [if_neg (by omega)] at hs
  obtain ⟨proc, hproc, hs⟩ := bind_eq_ok.1 hs
  obtain ⟨-, rfl⟩ := derefProcess_ok.1 hproc
  obtain ⟨o', ho', hs⟩ := bind_eq_ok.1 hs
  cases hslot.symm.trans (nonNull_ok.1 ho')
  obtain ⟨obj, hobj, hs⟩ := bind_eq_ok.1 hs
  obtain ⟨-, rfl⟩ := derefObject_ok.1 hobj
  simp only [hn.type, hdata] at hs
  rw [if_neg (by omega)] at hs
  obtain ⟨port, hport, hs⟩ := bind_eq_ok.1 hs
  obtain ⟨-, rfl⟩ := derefPort_ok.1 hport
  rw [if_neg (show ¬ maxMessagesInPort ≤ (k.port p).count from not_le.2 hroom)] at hs
  obtain ⟨owner, -, hs⟩ := bind_eq_ok.1 hs
  cases hs
  rw [(sameStore_wakeThread _ _).counts, setPort_counts, update_self]
  rfl

end Counts

end Kernel

/-- A line fires, a thread binds or acknowledges a line, sends, or receives. A receive that found
its port empty goes on with `resume`. -/
inductive LineStep
  | irq (n : ℕ)
  | bindIrq (cur : ℕ) (handle : ℤ) (descr : Option ℕ)
  | ackIrq (cur : ℕ) (handle : ℤ) (descr : Option ℕ)
  | send (cur : ℕ) (handle : ℤ) (copy : Option Message) (messageSize : ℕ)
  | receive (cur : ℕ) (handle : ℤ) (copyOk : Bool)
  | resume (cur : ℕ) (copyOk : Bool)

def LineStep.step : LineStep → IrqStep
  | irq n => .irq n
  | bindIrq cur handle descr => .port cur handle .bindIrq descr
  | ackIrq cur handle descr => .port cur handle .ackIrq descr
  | send cur handle copy size => .task cur (.event (.call (.send handle copy size)))
  | receive cur handle copyOk => .task cur (.event (.call (.receive handle copyOk)))
  | resume cur copyOk => .task cur (.event (.resume copyOk))

def IrqKernel.relayPort (s : IrqKernel) (n : ℕ) : Option ℕ :=
  (s.relayObject n).bind fun o => (s.kernel.object o).data

def IrqKernel.acks (s : IrqKernel) (cur : ℕ) (handle : ℤ) (n : ℕ) : Bool :=
  s.accepts cur handle .ackIrq (some n) && (s.onThread cur).acknowledges n handle

/-- The kernel; the lines that the messages of each port are for, in order; whether a message of a
line has been received and not acknowledged since; and whether the line has fired. -/
structure Lines where
  sys : IrqKernel
  labels : ℕ → List (Option ℕ)
  held : ℕ → Bool
  fired : ℕ → Bool

namespace Lines

def start (s : IrqKernel) : Lines :=
  ⟨s, fun p => replicate (s.kernel.counts p) none, fun _ => false, fun _ => false⟩

def put (l : Lines) (k : Kernel) (label : Option ℕ) : Option ℕ → ℕ → List (Option ℕ)
  | some p =>
    if l.sys.kernel.counts p < k.counts p then
      update l.labels p (l.labels p ++ [label])
    else l.labels
  | none => l.labels

def take (l : Lines) (s : IrqKernel) (copyOk : Bool) : Option ℕ → Lines
  | some p =>
    if s.kernel.counts p < l.sys.kernel.counts p then { l with
      sys := s
      labels := update l.labels p (l.labels p).tail
      held := fun n => l.held n || (copyOk && (l.labels p).head? == some (some n)) }
    else { l with sys := s }
  | none => { l with sys := s }

def record (l : Lines) (s : IrqKernel) : LineStep → Lines
  | .irq n =>
    if l.sys.pic.masked n then { l with sys := s }
    else { l with
      sys := s
      labels := l.put s.kernel (some n) (l.sys.relayPort n)
      fired := update l.fired n true }
  | .bindIrq _ _ _ => { l with sys := s }
  | .ackIrq cur handle descr => { l with
      sys := s
      held := fun n => l.held n && !(descr == some n && l.sys.acks cur handle n) }
  | .send cur handle _ _ => { l with
      sys := s
      labels := l.put s.kernel none (l.sys.kernel.portOfHandle cur handle) }
  | .receive cur handle copyOk => l.take s copyOk (l.sys.kernel.portOfHandle cur handle)
  | .resume cur copyOk => l.take s copyOk (l.sys.kernel.inReceive cur)

def step (l : Lines) (a : LineStep) : Option Lines :=
  (l.sys.step a.step).toOption.map fun s => l.record s a

/-- If the line is bound and masked because it fired, a message for it is in the queue of its port,
or has been received and not yet acknowledged. -/
def Kept (l : Lines) (n : ℕ) : Prop :=
  (l.sys.relay n).isActive = true → l.sys.pic.masked n = true → l.fired n = true →
    l.held n = true ∨ ∃ p, l.sys.relayPort n = some p
      ∧ ∃ i < (l.sys.kernel.port p).count, (l.labels p)[i]? = some (some n)

def PlainHead (l : Lines) (p : Option ℕ) : Prop :=
  ∀ p' ∈ p, (l.labels p').head?.join = none

/-- A line fires while its port has room, and a message for a line can be copied to its receiver. -/
def Heard (l : Lines) : LineStep → Prop
  | .irq n => l.sys.pic.masked n = false → (l.sys.relay n).isActive = true →
      (l.sys.relayPort n).any (fun p => decide (l.sys.kernel.counts p < maxMessagesInPort)) = true
  | .receive cur handle copyOk =>
      copyOk = false → l.PlainHead (l.sys.kernel.portOfHandle cur handle)
  | .resume cur copyOk => copyOk = false → l.PlainHead (l.sys.kernel.inReceive cur)
  | _ => True

end Lines

section Labels

variable {l : Lines} {k : Kernel} {p : Option ℕ}

theorem put_length (label : Option ℕ) (h : ∀ p, (l.labels p).length = l.sys.kernel.counts p)
    (hk : k.counts = l.sys.kernel.counts ∨ ∃ p', p = some p'
      ∧ k.counts = update l.sys.kernel.counts p' (l.sys.kernel.counts p' + 1)) (r : ℕ) :
    (l.put k label p r).length = k.counts r := by
  rcases hk with hk | ⟨p, rfl, hk⟩
  · cases p with
    | none => simpa [Lines.put, hk] using h r
    | some p => simpa [Lines.put, hk] using h r
  have hlt : l.sys.kernel.counts p < k.counts p := by simp [hk]
  simp only [Lines.put]
  rw [if_pos hlt, hk]
  by_cases hr : r = p
  · simp [hr, h p]
  · simp [hr, h r]

theorem mem_put {x : Option ℕ} {r : ℕ} (hx : x ∈ l.labels r) : x ∈ l.put k label p r := by
  unfold Lines.put
  split
  · rename_i p
    split_ifs
    · by_cases hr : r = p
      · simp [hr, hr ▸ hx]
      · simpa [hr] using hx
    · exact hx
  · exact hx

theorem mem_put_self {p : ℕ} (h : k.counts p = l.sys.kernel.counts p + 1) :
    label ∈ l.put k label (some p) p := by
  simp [Lines.put, h]

end Labels

structure LinesInv (l : Lines) : Prop where
  base : l.sys.kernel.Base
  named : ∀ n, (l.sys.relay n).isActive = true → n < maxIRQ ∧ ∃ t o,
    (l.sys.relay n).handler = some t ∧ l.sys.kernel.Named t (l.sys.relay n).portHandle o
  length : ∀ p, (l.labels p).length = l.sys.kernel.counts p
  kept : ∀ n, (l.sys.relay n).isActive = true → l.sys.pic.masked n = true → l.fired n = true →
    l.held n = true ∨ ∃ p, l.sys.relayPort n = some p ∧ some n ∈ l.labels p

section Inv

variable {l l' : Lines} {s : IrqKernel} {copyOk : Bool} {cur n : ℕ} {handle : ℤ}

theorem LinesInv.keptAt (h : LinesInv l) (n : ℕ) : l.Kept n := by
  intro hactive hmasked hfired
  refine (h.kept n hactive hmasked hfired).imp_right fun ⟨p, hp, hmem⟩ => ⟨p, hp, ?_⟩
  obtain ⟨i, hi⟩ := mem_iff_getElem?.1 hmem
  have hlt : i < (l.labels p).length := (List.getElem?_eq_some_iff.1 hi).1
  exact ⟨i, hlt.trans_eq (h.length p), hi⟩

theorem relayObject_eq (hactive : (s.relay n).isActive = true) (ht : (s.relay n).handler = some t) :
    s.relayObject n = s.kernel.objectOfHandle t (s.relay n).portHandle := by
  simp [relayObject, hactive, ht]

theorem relayPort_congr {s' : IrqKernel} (hk : s'.kernel = s.kernel)
    (hr : s'.relay n = s.relay n) : s'.relayPort n = s.relayPort n := by
  simp only [IrqKernel.relayPort, relayObject, hk, hr]

section

variable (h : LinesInv l)

include h

theorem LinesInv.relayPort (hq : Steady l.sys.kernel s.kernel) (hr : s.relay = l.sys.relay)
    (n : ℕ) : s.relayPort n = l.sys.relayPort n := by
  unfold IrqKernel.relayPort
  rw [hq.object]
  congr 1
  cases hactive : (l.sys.relay n).isActive with
  | false => simp [relayObject, hr, hactive]
  | true =>
    obtain ⟨-, t, o, ht, hn⟩ := h.named n hactive
    rw [relayObject_eq (hr ▸ hactive) (hr ▸ ht), relayObject_eq hactive ht, hr,
      (hn.grows hq.keeps.grows).slot, hn.slot]

theorem LinesInv.next (hq : Steady l.sys.kernel l'.sys.kernel) (hr : l'.sys.relay = l.sys.relay)
    (hlen : ∀ p, (l'.labels p).length = l'.sys.kernel.counts p)
    (hkept : ∀ n, (l.sys.relay n).isActive = true → n < maxIRQ → l'.sys.pic.masked n = true →
      l'.fired n = true → l'.held n = true ∨ ∃ p, l.sys.relayPort n = some p
        ∧ some n ∈ l'.labels p) : LinesInv l' := by
  refine ⟨hq.keeps.base, fun n hn => ?_, hlen, fun n hn hmasked hfired => ?_⟩
  · rw [hr] at hn ⊢
    obtain ⟨hlt, t, o, ht, hn⟩ := h.named n hn
    exact ⟨hlt, t, o, ht, hn.grows hq.keeps.grows⟩
  · rw [hr] at hn
    rw [h.relayPort hq hr]
    exact hkept n hn (h.named n hn).1 hmasked hfired

theorem LinesInv.irq {m : ℕ} (hok : l.Heard (.irq m))
    (hs : l.sys.step (.irq m) = .ok s) : LinesInv (l.record s (.irq m)) := by
  simp only [IrqKernel.step] at hs
  cases hmask : l.sys.pic.masked m with
  | true =>
    simp only [hmask, if_true] at hs
    cases hs
    simpa [Lines.record, hmask] using h
  | false =>
    simp only [hmask, Bool.false_eq_true, if_false] at hs
    have hrecord : l.record s (.irq m) = { l with
        sys := s
        labels := l.put s.kernel (some m) (l.sys.relayPort m)
        fired := update l.fired m true } := by
      simp [Lines.record, hmask]
    rw [hrecord]
    have hold : ∀ n, (l.sys.relay n).isActive = true → l.sys.pic.masked n = true → n ≠ m →
        update l.fired m true n = true → l.held n = true ∨ ∃ p,
          l.sys.relayPort n = some p
            ∧ some n ∈ l.put s.kernel (some m) (l.sys.relayPort m) p := by
      intro n hn hmasked hnm hfired
      rw [update_of_ne hnm] at hfired
      exact (h.kept n hn hmasked hfired).imp_right
        (Exists.imp fun _ hp => hp.imp_right mem_put)
    obtain ⟨hrelay, ⟨hsame, hpic, hnone⟩ | ⟨hsame, hlt, hpic⟩
      | ⟨hpic, hactive, t, q, st, k, ht, hq, hk, hsame⟩⟩ := irqHandlerCallback_cases hs
    · refine h.next (h.base.steady_sameStore hsame) hrelay
        (put_length _ h.length (.inl hsame.counts)) fun n hn hnlt hmasked hfired => ?_
      rw [hpic] at hmasked
      rcases Pic.masked_disableIRQ hnlt hmasked with hbefore | rfl
      · refine hold n hn hbefore (fun heq => ?_) hfired
        simp [heq, hmask] at hbefore
      · rcases hnone with hge | hinactive
        · exact absurd hnlt (not_lt.2 hge)
        · simp [hn] at hinactive
    · refine h.next (h.base.steady_sameStore hsame) hrelay
        (put_length _ h.length (.inl hsame.counts)) fun n hn hnlt hmasked hfired => ?_
      rw [hpic] at hmasked
      have hnm : n ≠ m := by
        rintro rfl
        simp [Pic.enableIRQ_self hlt] at hmasked
      rcases Pic.masked_disableIRQ hnlt (Pic.masked_enableIRQ hmasked) with hbefore | heq
      · exact hold n hn hbefore hnm hfired
      · exact absurd heq hnm
    obtain ⟨hsteady, hcounts⟩ := h.base.sendMessage_steady hk
    have hsteady' : Steady l.sys.kernel s.kernel :=
      hsteady.trans (hsteady.keeps.base.steady_sameStore hsame)
    obtain ⟨-, t', o, ht', hn⟩ := h.named m hactive
    cases ht.symm.trans ht'
    have hobject : l.sys.relayObject m = some o := (relayObject_eq hactive ht).trans hn.slot
    have hput : s.kernel.counts = l.sys.kernel.counts ∨ ∃ p, l.sys.relayPort m = some p
        ∧ s.kernel.counts
          = update l.sys.kernel.counts p (l.sys.kernel.counts p + 1) := by
      rw [hsame.counts]
      refine hcounts.imp_right ?_
      rintro ⟨o', p, hslot, hdata, hc⟩
      refine ⟨p, ?_, hc⟩
      obtain ⟨-, q', hq', ho⟩ := objectOfHandle_eq_some.1 hn.slot
      cases hq.symm.trans hq'
      cases ho.symm.trans hslot
      simp [IrqKernel.relayPort, hobject, hdata]
    refine h.next hsteady' hrelay (put_length _ h.length hput)
      fun n hact hnlt hmasked hfired => ?_
    rw [hpic] at hmasked
    by_cases hnm : n = m
    · subst hnm
      have hheard := hok hmask hactive
      cases hport : l.sys.relayPort n with
      | none => simp [hport] at hheard
      | some p =>
        have hroom : l.sys.kernel.counts p < maxMessagesInPort := by simpa [hport] using hheard
        have hdata : (l.sys.kernel.object o).data = some p := by
          simpa [IrqKernel.relayPort, hobject] using hport
        have hgrow := sendMessage_room hn hq hdata hroom (by decide) hk
        exact .inr ⟨p, rfl, mem_put_self (hsame.counts ▸ hgrow)⟩
    · rcases Pic.masked_disableIRQ hnlt hmasked with hbefore | heq
      · exact hold n hact hbefore hnm hfired
      · exact absurd heq hnm

theorem LinesInv.onThread (cur : ℕ) :
    LinesInv { l with sys := l.sys.onThread cur } := by
  have hsame : SameStore l.sys.kernel (l.sys.onThread cur).kernel :=
    sameStore_of_owner fun _ => rfl
  exact h.next (h.base.steady_sameStore hsame) rfl h.length fun n hn _ => h.kept n hn

theorem LinesInv.bindIrq
    (hs : l.sys.step (.port cur handle .bindIrq descr) = .ok s) : LinesInv { l with sys := s } := by
  have h' := h.onThread cur
  rcases port_cases hs with
    ⟨-, rfl | rfl⟩ | ⟨q, o, n, ho, hq, hl, hlive, htype, -, -, ⟨-, rfl⟩ | ⟨hop, -⟩⟩
  · exact h
  · exact h'
  · rw [onThread_registerIRQSubscriber]
    split_ifs with hn
    · have hother : ∀ m, m ≠ n → update l.sys.relay n ⟨some cur, handle, true⟩ m
          = l.sys.relay m := fun m hm => update_of_ne hm _ _
      refine ⟨h'.base, fun m hm => ?_, h.length, fun m hm hmasked hfired => ?_⟩
      · by_cases hmn : m = n
        · subst hmn
          refine ⟨hn.2, cur, o, by simp, ?_⟩
          have hport : (update l.sys.relay m ⟨some cur, handle, true⟩ m).portHandle = handle := by
            simp
          rw [hport]
          refine ⟨ho, fun q' hq' => ?_, hlive, htype⟩
          cases hq.symm.trans hq'
          exact hl
        · simp only [hother m hmn] at hm ⊢
          exact h'.named m hm
      · by_cases hmn : m = n
        · subst hmn
          simp [Pic.enableIRQ_self hn.2] at hmasked
        · simp only [hother m hmn] at hm
          have hsame : IrqKernel.relayPort { l.sys.onThread cur with
              relay := update l.sys.relay n ⟨some cur, handle, true⟩
              pic := l.sys.pic.enableIRQ n } m
              = (l.sys.onThread cur).relayPort m := relayPort_congr rfl (hother m hmn)
          refine (h'.kept m hm (Pic.masked_enableIRQ hmasked) hfired).imp_right ?_
          exact Exists.imp fun _ hp => hp.imp_left hsame.trans
    · exact h'
  · cases hop

theorem LinesInv.ackIrq (hs : l.sys.step (.port cur handle .ackIrq descr) = .ok s) :
    LinesInv (l.record s (.ackIrq cur handle descr)) := by
  -- Without an effect on the controller no line is acknowledged.
  have hstay : ∀ r : IrqKernel, LinesInv { l with sys := r } →
      (∀ n, descr = some n → l.sys.acks cur handle n = false) →
      LinesInv (l.record r (.ackIrq cur handle descr)) := by
    intro r hr hnot
    have hheld : (fun n => l.held n && !(descr == some n && l.sys.acks cur handle n)) = l.held := by
      funext n
      by_cases hd : descr = some n
      · simp [hd, hnot n hd]
      · simp [hd]
    simp only [Lines.record]
    rw [hheld]
    exact hr
  have h' := h.onThread cur
  rcases port_cases hs with
    ⟨hno, hs'⟩ | ⟨q, o, n, -, -, -, -, -, rfl, hyes, ⟨hop, -⟩ | ⟨-, rfl⟩⟩
  · have hnot : ∀ n, descr = some n → l.sys.acks cur handle n = false := by
      rintro n rfl
      simp [acks, hno]
    rcases hs' with rfl | rfl
    · exact hstay _ h hnot
    · exact hstay _ h' hnot
  · cases hop
  have hacks : l.sys.acks cur handle n = (l.sys.onThread cur).acknowledges n handle := by
    simp [acks, hyes]
  unfold acknowledgeUserIRQ
  split_ifs with hack
  · have hn : n < maxIRQ := by
      unfold acknowledges maxIRQ at hack
      unfold maxIRQ
      simp at hack
      omega
    refine ⟨h'.base, h'.named, h'.length, fun m hm hmasked hfired => ?_⟩
    by_cases hmn : m = n
    · subst hmn
      have hunmasked := Pic.enableIRQ_self (p := (l.sys.onThread cur).pic) hn
      exact absurd (hunmasked.symm.trans hmasked) (by simp)
    have hheld : (l.held m && !(some n == some m && l.sys.acks cur handle m)) = l.held m := by
      simp [Ne.symm hmn]
    have hkept := h'.kept m hm (Pic.masked_enableIRQ hmasked) hfired
    simp only [Lines.record]
    rw [hheld]
    exact hkept.imp_right
      (Exists.imp fun _ hp => hp.imp_left (relayPort_congr rfl rfl).trans)
  · refine hstay _ h' ?_
    rintro m ⟨⟩
    simpa [hacks] using hack

theorem LinesInv.send
    (hs : l.sys.step (.task cur (.event (.call (.send handle copy size)))) = .ok s) :
    LinesInv (l.record s (.send cur handle copy size)) := by
  obtain ⟨k, hk, hs⟩ := bind_eq_ok.1 hs
  cases hs
  have h' := h.onThread cur
  have hcall : k = (l.sys.onThread cur).kernel
      ∨ ∃ st, (l.sys.onThread cur).kernel.dwIPCSend cur handle copy size = .ok (st, k) := by
    rcases event_call_cases (k := (l.sys.onThread cur).kernel) hk with
      rfl | ⟨cur', hcur, -, hcall⟩
    · exact .inl rfl
    · cases hcur
      obtain ⟨⟨st, r⟩, hr, rfl⟩ := map_eq_ok.1 hcall
      exact .inr ⟨st, hr⟩
  have hsteady : Steady (l.sys.onThread cur).kernel k ∧ (k.counts = l.sys.kernel.counts
      ∨ ∃ p, l.sys.kernel.portOfHandle cur handle = some p
        ∧ k.counts = update l.sys.kernel.counts p (l.sys.kernel.counts p + 1)) := by
    rcases hcall with rfl | ⟨st, hr⟩
    · exact ⟨⟨h'.base.keeps, rfl⟩, .inl rfl⟩
    · exact h'.base.send_steady hr
  refine h'.next hsteady.1 rfl (put_length _ h.length hsteady.2) fun n hn _ hmasked hfired => ?_
  exact (h'.kept n hn hmasked hfired).imp_right
        (Exists.imp fun _ hp => hp.imp_right mem_put)

theorem LinesInv.take {p : Option ℕ} (hok : copyOk = false → l.PlainHead p)
    (hq : Steady l.sys.kernel s.kernel) (hr : s.relay = l.sys.relay) (hpic : s.pic = l.sys.pic)
    (hcounts : s.kernel.counts = l.sys.kernel.counts ∨ ∃ p', p = some p'
      ∧ l.sys.kernel.counts p' ≠ 0
      ∧ s.kernel.counts = update l.sys.kernel.counts p' (l.sys.kernel.counts p' - 1)) :
    LinesInv (l.take s copyOk p) := by
  rcases hcounts with hsame | ⟨p', rfl, hpos, hless⟩
  · have htake : l.take s copyOk p = { l with sys := s } := by
      cases p with
      | none => rfl
      | some p => simp [Lines.take, hsame]
    rw [htake]
    refine h.next hq hr (fun p => (h.length p).trans (congrFun hsame p).symm) ?_
    intro n hn _ hmasked hfired
    exact h.kept n hn (hpic ▸ hmasked) hfired
  have hlt : s.kernel.counts p' < l.sys.kernel.counts p' := by
    rw [hless, update_self]
    omega
  simp only [Lines.take]
  rw [if_pos hlt]
  refine h.next hq hr (fun p => ?_) fun n hn _ hmasked hfired => ?_
  · rw [hless]
    by_cases hp : p = p'
    · simp [hp, h.length p']
    · simp [hp, h.length p]
  · rcases h.kept n hn (hpic ▸ hmasked) hfired with hheld | ⟨p, hp, hmem⟩
    · exact .inl (by simp [hheld])
    by_cases hpp : p = p'
    · subst hpp
      -- The message for the line is the one that leaves, or one behind it.
      cases hlabels : l.labels p with
      | nil => simp [hlabels] at hmem
      | cons x xs =>
        rw [hlabels] at hmem
        rcases mem_cons.1 hmem with rfl | hmem
        · cases copyOk with
          | true => exact .inl (by simp)
          | false =>
            have hplain := hok rfl p rfl
            simp [hlabels] at hplain
        · exact .inr ⟨p, hp, by simpa [hlabels] using hmem⟩
    · exact .inr ⟨p, hp, by simpa [hpp] using hmem⟩

theorem LinesInv.receive (hok : l.Heard (.receive cur handle copyOk))
    (hs : l.sys.step (.task cur (.event (.call (.receive handle copyOk)))) = .ok s) :
    LinesInv (l.record s (.receive cur handle copyOk)) := by
  obtain ⟨k, hk, hs⟩ := bind_eq_ok.1 hs
  cases hs
  have h' := h.onThread cur
  rcases event_call_cases (k := (l.sys.onThread cur).kernel) hk with
    rfl | ⟨cur', hcur, -, hcall⟩
  · exact h'.take hok ⟨h'.base.keeps, rfl⟩ rfl rfl (.inl rfl)
  cases hcur
  obtain ⟨⟨rc, r⟩, hr, rfl⟩ := map_eq_ok.1 hcall
  obtain ⟨hsteady, hcounts⟩ := h'.base.receive_steady hr
  exact h'.take hok hsteady rfl rfl hcounts

theorem LinesInv.resume (hok : l.Heard (.resume cur copyOk))
    (hs : l.sys.step (.task cur (.event (.resume copyOk))) = .ok s) :
    LinesInv (l.record s (.resume cur copyOk)) := by
  obtain ⟨k, hk, hs⟩ := bind_eq_ok.1 hs
  cases hs
  have h' := h.onThread cur
  rcases event_resume_cases (k := (l.sys.onThread cur).kernel) hk with
    rfl | ⟨cur', p, rc, hcur, hin, hr⟩
  · exact h'.take hok ⟨h'.base.keeps, rfl⟩ rfl rfl (.inl rfl)
  · cases hcur
    obtain ⟨hsteady, hcounts⟩ := h'.base.receiveFrom_steady (.inr ⟨p, hin⟩) hr
    exact h'.take hok hsteady rfl rfl (hcounts.imp_right fun hc => ⟨p, hin, hc⟩)

theorem LinesInv.step {a : LineStep} (hok : l.Heard a)
    (hs : l.sys.step a.step = .ok s) : LinesInv (l.record s a) := by
  cases a with
  | irq n => exact h.irq hok hs
  | bindIrq cur handle descr => exact h.bindIrq hs
  | ackIrq cur handle descr => exact h.ackIrq hs
  | send cur handle copy size => exact h.send hs
  | receive cur handle copyOk => exact h.receive hok hs
  | resume cur copyOk => exact h.resume hok hs

end

theorem start_linesInv (hbase : s.kernel.Base) (hnone : ∀ n, (s.relay n).isActive = false) :
    LinesInv (.start s) := by
  refine ⟨hbase, fun n hn => ?_, fun p => length_replicate, fun n hn => ?_⟩
  · simp [Lines.start, hnone] at hn
  · simp [Lines.start, hnone] at hn

end Inv

def IrqKernel.Reachable (s : IrqKernel) : Prop :=
  ∃ as, exec (fun s a => (IrqKernel.step s a).toOption) .boot as = some s

theorem IrqKernel.Reachable.sane (h : s.Reachable) : s.Sane := by
  obtain ⟨as, h⟩ := h
  exact exec_invariant' (I := Sane)
    (fun _ _ _ hI hs => hI.step (toOption_eq_some.1 hs)) as boot_sane h

/-- Lines are bound, fire and are acknowledged in any order, and messages are sent and received in
between. As long as each message of a line finds room and can be copied, none is lost. -/
theorem irq_never_lost {s : IrqKernel} {as : List LineStep} {l : Lines} (hs : s.Reachable)
    (hnone : ∀ n < maxIRQ, (s.relay n).isActive = false)
    (hm : Meets Lines.step Lines.Heard (.start s) as)
    (h : exec Lines.step (.start s) as = some l) (n : ℕ) : l.Kept n := by
  refine LinesInv.keptAt ?_ n
  have hnone' : ∀ n, (s.relay n).isActive = false := by
    intro n
    by_contra hn
    have hactive : (s.relay n).isActive = true := by simpa using hn
    exact hn (hnone n (hs.sane.lt n hactive))
  refine exec_invariant (I := LinesInv) (fun l a l' hI hok hl => ?_) as
    (start_linesInv hs.sane.base hnone') hm h
  obtain ⟨s', hstep, rfl⟩ := map_eq_some_iff.1 hl
  exact hI.step hok (toOption_eq_some.1 hstep)

section Runs

instance (l : Lines) (p : Option ℕ) : Decidable (l.PlainHead p) := by
  unfold Lines.PlainHead
  infer_instance

instance (l : Lines) : DecidablePred l.Heard := fun a => by
  unfold Lines.Heard
  split <;> infer_instance

def serverLines (as : List LineStep) : Option (IrqKernel × Lines) :=
  (exec (fun s a => (IrqKernel.step s a).toOption) .boot serverPort).bind fun s =>
    (exec Lines.step (.start s) as).map fun l => (s, l)

theorem serverLines_eq_some {as : List LineStep} {l : Lines} (h : serverLines as = some (s, l)) :
    s.Reachable ∧ exec Lines.step (.start s) as = some l := by
  obtain ⟨s', hs, h⟩ := bind_eq_some_iff.1 h
  obtain ⟨l', hl, heq⟩ := map_eq_some_iff.1 h
  cases heq
  exact ⟨⟨serverPort, hs⟩, hl⟩

/-- A client's message and then one of line 1 are received; the line is not yet acknowledged. -/
def serverHears : List LineStep :=
  [.bindIrq 0 0 (some 1), .send 0 0 (some irqMessage) 24, .irq 1, .receive 0 0 true,
    .receive 0 0 true]

theorem irq_never_lost_server :
    ∃ s l, s.Reachable ∧ exec Lines.step (.start s) serverHears = some l
      ∧ (l.sys.relay 1).isActive = true ∧ l.sys.pic.masked 1 = true ∧ l.fired 1 = true
      ∧ l.Kept 1 := by
  obtain ⟨⟨s, l⟩, h, heq⟩ := map_eq_some_iff.1
    (show (serverLines serverHears).map (fun r =>
      (decide (∀ n < maxIRQ, (r.1.relay n).isActive = false),
        decide (Meets Lines.step Lines.Heard (.start r.1) serverHears),
        (r.2.sys.relay 1).isActive, r.2.sys.pic.masked 1, r.2.fired 1))
      = some (true, true, true, true, true) by decide +kernel)
  obtain ⟨hs, hl⟩ := serverLines_eq_some h
  simp only [Prod.mk.injEq, decide_eq_true_eq] at heq
  obtain ⟨hnone, hmeets, hactive, hmasked, hfired⟩ := heq
  exact ⟨s, l, hs, hl, hactive, hmasked, hfired, irq_never_lost hs hnone hmeets hl 1⟩

/-- Line 1 fires while twelve other messages wait in its port. -/
def serverBusy : List LineStep :=
  .bindIrq 0 0 (some 1) :: replicate 12 (.send 0 0 (some irqMessage) 24) ++ [.irq 1]

/-- The line stays masked, and there is no message for it. -/
theorem not_irq_never_lost :
    ∃ s l, s.Reachable ∧ (∀ n < maxIRQ, (s.relay n).isActive = false)
      ∧ exec Lines.step (.start s) serverBusy = some l ∧ ¬ l.Kept 1 := by
  obtain ⟨⟨s, l⟩, h, heq⟩ := map_eq_some_iff.1
    (show (serverLines serverBusy).map (fun r =>
      (decide (∀ n < maxIRQ, (r.1.relay n).isActive = false),
        (r.2.sys.relay 1).isActive && r.2.sys.pic.masked 1 && r.2.fired 1 && !r.2.held 1,
        r.2.sys.relayPort 1, r.2.labels 0))
      = some (true, true, some 0, replicate 12 none) by decide +kernel)
  obtain ⟨hs, hl⟩ := serverLines_eq_some h
  simp only [Prod.mk.injEq, decide_eq_true_eq, Bool.and_eq_true, Bool.not_eq_true'] at heq
  obtain ⟨hnone, ⟨⟨⟨hactive, hmasked⟩, hfired⟩, hheld⟩, hport, hlabels⟩ := heq
  refine ⟨s, l, hs, hnone, hl, fun hkept => ?_⟩
  rcases hkept hactive hmasked hfired with hheld' | ⟨p, hp, i, -, hi⟩
  · simp [hheld] at hheld'
  cases hport.symm.trans hp
  have hmem := mem_of_getElem? hi
  rw [hlabels] at hmem
  simp at hmem

end Runs

namespace Pic

variable {p : Pic} {m : ℕ}

/-- The lines of the second controller are open only with line 2, through which they come. -/
def Cascaded (p : Pic) : Prop := ∀ n, 8 ≤ n → p.masked n = false → p.masked 2 = false

theorem init_cascaded : init.Cascaded := fun n hn hopen => by
  rw [masked, if_neg (by omega), show init.data2 = BitVec.allOnes 8 from rfl,
    BitVec.getLsbD_allOnes, decide_eq_false_iff_not] at hopen
  omega

theorem Cascaded.enableIRQ (h : p.Cascaded) : (p.enableIRQ m).Cascaded := by
  unfold Pic.enableIRQ
  split_ifs
  · exact h
  · exact fun n _ _ => unmask_self
  · intro n hn hopen
    have hsame : (p.unmask m).masked n = p.masked n := by
      simp [unmask, masked, show m < 8 by omega, show ¬ n < 8 by omega]
    by_contra hshut
    have h2 := masked_unmask (by simpa using hshut)
    simp [h n hn (hsame ▸ hopen)] at h2

theorem Cascaded.disableIRQ (h : p.Cascaded) (hm : m ≠ 2) : (p.disableIRQ m).Cascaded := by
  intro n hn hopen
  have hopen' : p.masked n = false := by
    unfold Pic.disableIRQ at hopen
    split_ifs at hopen <;> simp_all [masked, show ¬ n < 8 by omega]
  by_contra hshut
  rcases masked_disableIRQ (n := 2) (by decide) (by simpa using hshut) with h2 | rfl
  · simp [h n hn hopen'] at h2
  · exact hm rfl

end Pic

theorem cascaded_step {s' : IrqKernel} {a : IrqStep} (h : s.pic.Cascaded) (ha : a ≠ .irq 2)
    (hs : s.step a = .ok s') : s'.pic.Cascaded := by
  cases a with
  | irq n =>
    have hn : n ≠ 2 := fun h => ha (h ▸ rfl)
    simp only [IrqKernel.step] at hs
    split_ifs at hs
    · cases hs
      exact h
    obtain ⟨-, ⟨-, hpic, -⟩ | ⟨-, -, hpic⟩ | ⟨hpic, -⟩⟩ := irqHandlerCallback_cases hs
    · exact hpic ▸ h.disableIRQ hn
    · exact hpic ▸ (h.disableIRQ hn).enableIRQ
    · exact hpic ▸ h.disableIRQ hn
  | port cur handle op descr =>
    rcases port_cases hs with ⟨-, rfl | rfl⟩ | ⟨_, _, n, -, -, -, -, -, -, -, ⟨-, rfl⟩ | ⟨-, rfl⟩⟩
    · exact h
    · exact h
    · rw [onThread_registerIRQSubscriber]
      split_ifs
      · exact h.enableIRQ
      · exact h
    · unfold acknowledgeUserIRQ
      split_ifs
      · exact h.enableIRQ
      · exact h
  | task cur e =>
    obtain ⟨k, -, hs⟩ := bind_eq_ok.1 hs
    cases hs
    unfold dropRelays
    split <;> exact h
  | setProcessCapabilities q flags =>
    cases hs
    exact h

/-- Line 2 has no device, so it does not fire. Then no line of the second controller is ever open
while line 2 is not. -/
theorem cascade_open {as : List IrqStep} (hno : .irq 2 ∉ as)
    (hrun : exec (fun s a => (IrqKernel.step s a).toOption) .boot as = some s) :
    s.pic.Cascaded := by
  have hmeets : Meets (fun s a => (IrqKernel.step s a).toOption) (fun _ a => a ≠ .irq 2) .boot as :=
    (meets_iff_steps as).2 fun pre a post h _ _ ha => hno (by simp [h, ha])
  exact exec_invariant (I := fun s => s.pic.Cascaded)
    (fun _ _ _ h ha hs => cascaded_step h ha (toOption_eq_some.1 hs)) as
    Pic.init_cascaded.enableIRQ hmeets hrun

theorem cascade_open_server :
    ∃ s : IrqKernel, s.pic.masked 14 = false ∧ s.pic.masked 2 = false := by
  have hrun : (exec (fun s a => (IrqKernel.step s a).toOption) .boot
      (serverPort ++ [.port 0 0 .bindIrq (some 14)])).map (·.pic.masked 14) = some false := by
    decide +kernel
  obtain ⟨s, hs, hopen⟩ := map_eq_some_iff.1 hrun
  exact ⟨s, hopen, cascade_open (by simp [serverPort]) hs 14 (by decide) hopen⟩

end DragonWare
