import DragonWare.Proofs.ReplyHandle

/-!
# Wake-ups

A sender wakes the thread that created the port. While only that thread sleeps on it, a port with a
message in it has no sleeping receiver (`WakeInv`). Another thread of the process is not woken by
anything.
-/

namespace DragonWare

open Fallible Function Option

inductive MessageEvent
  | send (handle : ℤ) (copy : Option Message) (size : ℕ)
  | receive (handle : ℤ) (copyOk : Bool)
  | resume (copyOk : Bool)
  | kernelMessage (q : ℕ) (handle : ℤ) (m : Message)
  | timer

def MessageEvent.event : MessageEvent → Event
  | .send handle copy size => .call (.send handle copy size)
  | .receive handle copyOk => .call (.receive handle copyOk)
  | .resume copyOk => .resume copyOk
  | .kernelMessage q handle m => .kernelMessage q handle m
  | .timer => .timer

namespace Kernel

def messageStep (k : Kernel) (e : MessageEvent) : Option Kernel := (k.event e.event).toOption

/-- A thread sleeps in a receive on a port that holds a message, and so does every other thread that
receives on it. -/
def LostWakeup (k : Kernel) : Prop :=
  ∃ t p, k.inReceive t = some p ∧ (k.thread t).state = .blocked ∧ 0 < (k.port p).count
    ∧ ∀ t' < k.threads, k.inReceive t' = some p → (k.thread t').state = .blocked

/-- A receive on an empty port is made by the thread that senders to the port wake. -/
def OwnerReceives (k : Kernel) (e : MessageEvent) : Prop :=
  match e with
  | .receive handle _ => ∀ cur ∈ k.currentThread, ∀ p ∈ k.portOfHandle cur handle,
      (k.port p).count = 0 → (k.port p).owner = some cur
  | _ => True

instance (k : Kernel) : DecidablePred k.OwnerReceives := fun e => by
  unfold OwnerReceives
  split <;> infer_instance

/-- Whoever is in a receive created the port, and is not asleep if there is a message in it. -/
def WakeInv (k : Kernel) : Prop :=
  ∀ t p, k.inReceive t = some p →
    (k.port p).owner = some t ∧ (0 < (k.port p).count → (k.thread t).state ≠ .blocked)

variable {k k' : Kernel} {handle : ℤ} {st : Status}

theorem WakeInv.not_lost (h : k.WakeInv) : ¬ k.LostWakeup := by
  rintro ⟨t, p, hin, hblocked, hcount, -⟩
  exact (h t p hin).2 hcount hblocked

theorem WakeInv.of_le (h : k.WakeInv)
    (hin : ∀ t p, k'.inReceive t = some p → k.inReceive t = some p)
    (howner : ∀ p, (k'.port p).owner = (k.port p).owner)
    (hcount : ∀ p, (k'.port p).count ≤ (k.port p).count)
    (hstate : ∀ t, (k'.thread t).state = .blocked → (k.thread t).state = .blocked) :
    k'.WakeInv := by
  intro t p ht
  obtain ⟨ho, hs⟩ := h t p (hin t p ht)
  exact ⟨(howner p).trans ho, fun hc hb => hs (hc.trans_le (hcount p)) (hstate t hb)⟩

theorem wakeThread_self (k : Kernel) (t : ℕ) : ((k.wakeThread t).thread t).state ≠ .blocked := by
  unfold wakeThread
  split_ifs with h
  · simp [setThread]
  · rw [not_not.1 h]
    simp

theorem wakeThread_blocked {t s : ℕ}
    (h : ((k.wakeThread t).thread s).state = .blocked) : (k.thread s).state = .blocked := by
  by_cases hs : s = t
  · subst hs
    exact absurd h (wakeThread_self k s)
  unfold wakeThread at h
  split_ifs at h
  · simpa [setThread, hs] using h
  · exact h

theorem WakeInv.push (h : k.WakeInv) {p owner : ℕ} {x : Port} {r : Kernel}
    (hr : r = { k with process := r.process }) (ho : (k.port p).owner = some owner)
    (hx : x.owner = (k.port p).owner) : ((r.setPort p x).wakeThread owner).WakeInv := by
  rw [hr]
  have hw := sameStore_wakeThread ({ k with process := r.process }.setPort p x) owner
  intro t p' ht
  have hblocked := wakeThread_blocked (k := { k with process := r.process }.setPort p x)
    (t := owner) (s := t)
  rw [hw.inReceive] at ht
  obtain ⟨ho', hs⟩ := h t p' ht
  rw [hw.port]
  by_cases hp : p' = p
  · subst hp
    cases ho.symm.trans ho'
    refine ⟨by simp [setPort, hx, ho], fun _ => wakeThread_self _ _⟩
  · simp only [setPort, update_of_ne hp]
    exact ⟨ho', fun hc hb => hs hc (hblocked hb)⟩

theorem WakeInv.send (h : k.WakeInv) {cur size : ℕ} {copy : Option Message}
    (hs : k.dwIPCSend cur handle copy size = .ok (st, k')) : k'.WakeInv := by
  rcases dwIPCSend_cases hs with ⟨-, rfl⟩ | ⟨q, target, p, -, -, -, -, -, -, -, hs⟩
  · exact h
  obtain ⟨-, ⟨-, rfl⟩ | ⟨-, -, slot, rfl⟩ | ⟨m, owner, reply, r, -, -, ho, -, -, hr, rfl⟩⟩ :=
    sendToPort_cases hs
  · exact h
  · refine h.of_le (fun _ _ => id) (fun p' => ?_) (fun p' => ?_) fun _ => id <;>
    · by_cases hp : p' = p
      · simp [hp, setPort, Port.writeTail]
      · simp [hp, setPort]
  · exact h.push (translateReply_eq hr) ho rfl

theorem WakeInv.kernelMessage (h : k.WakeInv) {q : ℕ} {m : Message}
    (hs : k.sendMessage q handle m = .ok (st, k')) : k'.WakeInv := by
  rcases sendMessage_cases hs with ⟨-, rfl⟩ | ⟨target, p, -, -, -, -, -, -, -, hs⟩
  · exact h
  obtain ⟨-, ⟨-, rfl⟩ | ⟨owner, -, -, ho, rfl⟩⟩ := enqueueMessage_cases hs
  · exact h
  · exact h.push rfl ho rfl

theorem WakeInv.scheduleNext (h : k.WakeInv) (hs : k.scheduleNext = .ok k') : k'.WakeInv := by
  obtain ⟨hsame, hblocked, -⟩ := scheduleNext_cases hs
  refine h.of_le (fun t p => ?_) (fun p => ?_) (fun p => ?_) fun t => (hblocked t).1
  · rw [hsame.inReceive]
    exact id
  · rw [hsame.port]
  · rw [hsame.port]

theorem WakeInv.receiveFrom (h : k.WakeInv) {cur p : ℕ} {copyOk : Bool} {rc : Receipt}
    (hcur : (k.port p).count = 0 → (k.port p).owner = some cur)
    (hs : k.receiveFrom cur p copyOk = .ok (rc, k')) : k'.WakeInv := by
  obtain ⟨-, ⟨hcount, -, hs⟩ | ⟨hcount, -, rfl⟩⟩ := receiveFrom_cases hs
  · refine WakeInv.scheduleNext (fun t p' ht => ?_) hs
    by_cases htc : t = cur
    · subst htc
      simp only [update_self, some.injEq] at ht
      subst ht
      exact ⟨hcur hcount, fun hc => absurd hcount hc.ne'⟩
    · simp only [update_of_ne htc] at ht
      simpa [blockThread, setThread, htc] using h t p' ht
  · refine h.of_le (fun t p' ht => ?_) (fun p' => ?_) (fun p' => ?_) fun _ => id
    · by_cases htc : t = cur
      · simp [htc] at ht
      · simpa [htc] using ht
    · by_cases hp : p' = p
      · simp [hp, setPort, Port.advanceHead]
      · simp [hp, setPort]
    · by_cases hp : p' = p
      · simp [hp, setPort, Port.advanceHead]
      · simp [hp, setPort]

theorem WakeInv.step (e : MessageEvent) (h : k.WakeInv) (hc : k.OwnerReceives e)
    (hs : k.messageStep e = some k') : k'.WakeInv := by
  have hs := toOption_eq_some.1 hs
  cases e with
  | send handle copy size =>
    rcases event_call_cases hs with rfl | ⟨cur, -, -, hs⟩
    · exact h
    · obtain ⟨⟨st, r⟩, hr, rfl⟩ := map_eq_ok.1 hs
      exact h.send hr
  | receive handle copyOk =>
    rcases event_call_cases hs with rfl | ⟨cur, hcur, -, hs⟩
    · exact h
    obtain ⟨⟨rc, r⟩, hr, rfl⟩ := map_eq_ok.1 hs
    rcases dwIPCReceive_cases hr with
      ⟨st, -, -, -, rfl⟩ | ⟨q, o, p, owner, -, hq, -, hslot, -, -, hdata, -, -, hr⟩
    · exact h
    · exact h.receiveFrom (hc cur hcur p (portOfHandle_eq hq hslot hdata)) hr
  | resume copyOk =>
    rcases event_resume_cases hs with rfl | ⟨cur, p, rc, -, hin, hs⟩
    · exact h
    · exact h.receiveFrom (fun _ => (h cur p hin).1) hs
  | kernelMessage q handle m =>
    obtain ⟨⟨st, r⟩, hr, rfl⟩ := map_eq_ok.1 hs
    exact h.kernelMessage hr
  | timer => exact h.scheduleNext hs

end Kernel

open Kernel

/-- In every run in which only the thread that created a port sleeps on it, no wake-up is lost. -/
theorem no_lost_wakeup {k k' : Kernel} (h : ∀ t, k.inReceive t = none) (es : List MessageEvent)
    (hc : Run.Meets messageStep OwnerReceives k es) (hs : Run.exec messageStep k es = some k') :
    ¬ k'.LostWakeup := by
  have hinv : k.WakeInv := fun t p ht => by simp [h t] at ht
  exact (Run.exec_invariant (fun _ e _ hI hok => hI.step e hok) es hinv hc hs).not_lost

/-- Threads 0 and 2 are of process 0, which has port 0, created by thread 0, in slot 0. Thread 1 is
of process 1, which has opened it in slot 0. -/
def serverAndClient (cur : ℕ) : Kernel := { boot with
  thread := fun t => ⟨if t = cur then .running else .ready, .medium, 12,
    some (if t = 1 then 1 else 0), if t < 2 then some (t + 1) else none⟩
  process := fun q => ⟨q, q + 1, ⟨fun i => if i = 0 then some q else none, 1#32⟩,
    fun _ => 0#16, 0, 0#32⟩
  object := fun _ => ⟨.port, none, some 0, 1⟩
  port := fun _ => ⟨fun _ => zeroMessage, 0, 0, 0, [97], some 0⟩
  live := ⟨fun q => q < 2, fun o => o < 2, fun p => p < 1⟩
  threads := 3
  processes := 2
  objects := 2
  ports := 1
  processList := [0, 1]
  processIdCounter := 3
  portList := [0]
  threadList := some 0
  currentThread := some cur
  cr3 := some (if cur = 1 then 1 else 0) }

/-- Thread 0 of process 0 creates the port and starts thread 2, and thread 1 of process 1 opens the
port. Thread 2 is next. -/
def secondServerThread : List Event :=
  [.createProcess, .createProcess,
    .call (.createObject (some [97]) .port true), .call (.invokeObject 0 0 noArgs),
    .call (.createObject none .thread true), .call (.invokeObject 1 0 noArgs),
    .call (.invokeObject 1 1 noArgs), .timer, .call (.createObject none .port true),
    .call (.invokeObject 0 1 { noArgs with openName := some [97] }), .timer]

/-- Thread 2 sleeps on the port, and the message that the client sends wakes thread 0. -/
theorem wakeup_lost_second_thread :
    ∃ k k', Run.exec (fun k e => (k.event e).toOption) boot secondServerThread = some k
      ∧ Run.exec messageStep k [.receive 0 true, .timer,
          .send 0 (some (emptyMessage (-1))) sizeofMessageHeader] = some k'
      ∧ k'.LostWakeup := by
  have hrun : ((Run.exec (fun k e => (k.event e).toOption) boot secondServerThread).bind fun k =>
      (Run.exec messageStep k [.receive 0 true, .timer,
        .send 0 (some (emptyMessage (-1))) sizeofMessageHeader]).map fun k =>
          decide (k.inReceive 2 = some 0 ∧ (k.thread 2).state = .blocked ∧ 0 < (k.port 0).count
            ∧ ∀ t' < k.threads, k.inReceive t' = some 0 → (k.thread t').state = .blocked))
      = some true := by decide +kernel
  obtain ⟨k, hk, hrun⟩ := bind_eq_some_iff.1 hrun
  obtain ⟨k', hk', hlost⟩ := map_eq_some_iff.1 hrun
  exact ⟨k, k', hk, hk', 2, 0, of_decide_eq_true hlost⟩

/-- Thread 0 sleeps on its port and takes the message that woke it. -/
theorem no_lost_wakeup_creator_receives :
    ∃ k k', (∀ t, k.inReceive t = none)
      ∧ Run.exec messageStep k [.receive 0 true,
          .send 0 (some (emptyMessage (-1))) sizeofMessageHeader, .timer, .timer] = some k'
      ∧ k'.inReceive 0 = some 0 ∧ 0 < (k'.port 0).count ∧ ¬ k'.LostWakeup := by
  have hrun : ((Run.exec messageStep (serverAndClient 0) [.receive 0 true,
      .send 0 (some (emptyMessage (-1))) sizeofMessageHeader, .timer, .timer]).map fun k =>
        decide (k.inReceive 0 = some 0 ∧ 0 < (k.port 0).count)) = some true := by decide +kernel
  obtain ⟨k', hk', hin⟩ := map_eq_some_iff.1 hrun
  obtain ⟨hin, hcount⟩ := of_decide_eq_true hin
  exact ⟨serverAndClient 0, k', fun _ => rfl, hk', hin, hcount,
    no_lost_wakeup (fun _ => rfl) _ (by decide +kernel) hk'⟩

end DragonWare
