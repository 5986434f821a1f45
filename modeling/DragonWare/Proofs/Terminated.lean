import DragonWare.Proofs.Orphans
import DragonWare.Proofs.Relay

/-!
# Threads that have ended

The state of a thread is written without a look at the old one by `WakeThread`, by `THREAD_RUN` and
by a receive that blocks. A step that leaves threads that have ended out of this
(`IrqKernel.RousesLiving`) leaves them as they are.
-/

namespace DragonWare

open Fallible IrqKernel Kernel Option

namespace Kernel

variable {cur p q : ℕ} {handle : ℤ} {st : Status}

structure EndsStay (k k' : Kernel) : Prop where
  threads : k.threads ≤ k'.threads
  state : ∀ t < k.threads, (k.thread t).state = .terminated → (k'.thread t).state = .terminated

variable {k k' r : Kernel} {t : ℕ} {m : Message} {e : Event}

theorem EndsStay.refl (k : Kernel) : EndsStay k k := ⟨le_rfl, fun _ _ h => h⟩

theorem EndsStay.trans (h : EndsStay k r) (h' : EndsStay r k') : EndsStay k k' :=
  ⟨h.threads.trans h'.threads, fun t ht hst =>
    h'.state t (ht.trans_le h.threads) (h.state t ht hst)⟩

theorem EndsStay.of_eq (hn : k'.threads = k.threads) (hs : k'.thread = k.thread) : EndsStay k k' :=
  ⟨hn.ge, fun t _ h => by rw [hs]; exact h⟩

theorem Ends.stay (h : Ends k k') (hn : k'.threads = k.threads) : EndsStay k k' := by
  refine ⟨hn.ge, fun t _ hst => ?_⟩
  rcases h t with hsame | hterm
  · exact hsame.trans hst
  · exact hterm

theorem endsStay_setThread {x : Thread} (h : (k.thread t).state ≠ .terminated) :
    EndsStay k (k.setThread t x) := by
  refine ⟨le_rfl, fun s _ hs => ?_⟩
  have hne : s ≠ t := by
    rintro rfl
    exact h hs
  simpa [setThread, hne] using hs

theorem endsStay_wakeThread (h : (k.thread t).state ≠ .terminated) :
    EndsStay k (k.wakeThread t) := by
  unfold wakeThread
  split_ifs
  · exact (endsStay_setThread h).trans (.of_eq rfl rfl)
  · exact .refl _

theorem endsStay_add (h : t < k.threads → (k.thread t).state ≠ .terminated)
    (hadd : k.addThreadToScheduler t = .ok k') : EndsStay k k' := by
  refine ⟨(sameStore_addThreadToScheduler hadd).threads.ge, fun s hs hst => ?_⟩
  have hne : s ≠ t := by
    rintro rfl
    exact h hs hst
  rw [addThreadToScheduler_state hadd hne]
  exact hst

theorem endsStay_scheduleNext (h : k.scheduleNext = .ok k') : EndsStay k k' := by
  refine ⟨(scheduleNext_cases h).1.threads.ge, fun t _ hst => ?_⟩
  rw [scheduleNext_state h (by simp [hst]) (by simp [hst])]
  exact hst

/-! ### Events of the kernel -/

theorem endsStay_sleepOn (p : ℕ) (h : (k.thread t).state ≠ .terminated) :
    EndsStay k (k.sleepOn t p) := (endsStay_setThread h).trans (.of_eq rfl rfl)

theorem sendMessage_state_ne (hs : k.sendMessage q handle m = .ok (st, k'))
    (h : (k.thread t).state ≠ .terminated) : (k'.thread t).state ≠ .terminated := by
  rcases sendMessage_cases hs with ⟨-, rfl⟩ | ⟨target, p, -, -, -, -, -, -, -, hs⟩
  · exact h
  obtain ⟨-, ⟨-, rfl⟩ | ⟨owner, -, -, -, rfl⟩⟩ := enqueueMessage_cases hs
  · exact h
  unfold wakeThread
  split_ifs
  · by_cases heq : t = owner
    · simp [setThread, heq]
    · simpa [setThread, setPort, heq] using h
  · exact h

theorem endsStay_newThread (k : Kernel) (owner : Option ℕ) :
    EndsStay k (k.allocateUserThread owner).2 := by
  refine ⟨Nat.le_succ _, fun t ht hst => ?_⟩
  have hne : t ≠ k.threads := ht.ne
  simpa [allocateUserThread, hne] using hst

theorem endsStay_createProcess (hc : k.createProcess = .ok (q, k')) : EndsStay k k' := by
  obtain ⟨r, hr, hc⟩ := bind_eq_ok.1 hc
  cases hc
  have hnew := endsStay_newThread k (some k.processes)
  have hmid : EndsStay k k.withProcess := ⟨hnew.threads, hnew.state⟩
  have hadd : EndsStay k.withProcess r := by
    refine endsStay_add (t := k.threads) (fun _ => ?_) hr
    simp [withProcess, allocateUserThread]
  exact (hmid.trans hadd).trans (.of_eq rfl rfl)

theorem endsStay_deleteObject {o : ℕ} (hd : k.deleteObject o = .ok k') : EndsStay k k' :=
  (ends_deleteObject hd).stay (dropsObject hd).threads

theorem endsStay_deleteProcess (hd : k.deleteProcess q = .ok k') : EndsStay k k' := by
  obtain ⟨proc, -, hd⟩ := bind_eq_ok.1 hd
  obtain ⟨r, hr, hd⟩ := bind_eq_ok.1 hd
  cases hd
  have hslots : EndsStay { k with processList := k.processList.erase q } r := by
    refine foldlM_range
      (I := fun _ a => EndsStay { k with processList := k.processList.erase q } a) (.refl _)
      (fun i a b _ ha hb => ha.trans ?_) hr
    rcases deleteSlot_cases hb with ⟨-, rfl⟩ | ⟨o, -, hdel⟩
    · exact .of_eq rfl rfl
    · have hset : EndsStay a
          (a.setHandles q ((a.process q).handles.deleteFromHandleTable i).2) := .of_eq rfl rfl
      exact hset.trans (endsStay_deleteObject hdel)
  have hstart : EndsStay k { k with processList := k.processList.erase q } := .of_eq rfl rfl
  have hmain := (ends_setThread r (r.process q).mainThread).stay rfl
  exact ((hstart.trans hslots).trans hmain).trans (.of_eq rfl rfl)

theorem endsStay_exitThread (he : k.exitThread cur = .ok k') : EndsStay k k' := by
  obtain ⟨⟨st, r⟩, hr, he⟩ := bind_eq_ok.1 he
  obtain ⟨r', hr', he⟩ := bind_eq_ok.1 he
  cases he
  have hend : EndsStay k (r.setThread cur { r.thread cur with state := .terminated }) := by
    refine ⟨(sameStore_removeThreadFromScheduler hr).threads.ge, fun t _ hst => ?_⟩
    rcases ends_setThread r cur t with hsame | hterm
    · rw [hsame, removeThreadFromScheduler_state hr]
      exact hst
    · exact hterm
  have hdel : EndsStay (r.setThread cur { r.thread cur with state := .terminated }) r' := by
    cases howner : ((r.setThread cur { r.thread cur with state := .terminated }).thread cur).owner
      with
    | none =>
      simp only [howner] at hr'
      cases hr'
      exact .refl _
    | some q =>
      simp only [howner] at hr'
      exact endsStay_deleteProcess hr'
  exact (hend.trans hdel).trans (.of_eq rfl rfl)

/-- The thread that the event makes ready or puts to sleep has not ended. -/
def RousesLiving (k : Kernel) (e : TaskEvent) : Prop :=
  (∀ t ∈ k.threadMadeReady e, (k.thread t).state ≠ .terminated)
    ∧ ∀ t ∈ k.threadBlocked e, (k.thread t).state ≠ .terminated

instance (k : Kernel) (e : TaskEvent) : Decidable (k.RousesLiving e) := by
  unfold RousesLiving
  infer_instance

/-- Any store, but threads that have ended are left out. -/
def Rights.rousing : Rights where
  creates := True
  takesBack := True
  runs k t := (k.thread t).state ≠ .terminated
  wakes k t := (k.thread t).state ≠ .terminated
  sleeps k t := (k.thread t).state ≠ .terminated

theorem endsStay_change (hc : Change .rousing k k') : EndsStay k k' := by
  cases hc with
  | newThread => exact endsStay_newThread k _
  | sleep ha => exact endsStay_sleepOn _ ha
  | wake ha => exact endsStay_wakeThread ha
  | run ha hrun => exact endsStay_add (fun _ => ha) hrun
  | schedule hs => exact endsStay_scheduleNext hs
  | port | object | bind | stand | newObject | newSlot | append | delete | process | newPort
  | take => exact .of_eq rfl rfl

theorem Changes.endsStay (h : Changes .rousing k k') : EndsStay k k' :=
  h.invariant (I := EndsStay k) (fun hc hI => hI.trans (endsStay_change hc)) (.refl k)

theorem rousing_wakes (h : (k.thread t).state ≠ .terminated) : Rights.rousing.Wakes k t :=
  fun r hr _ => show (r.thread t).state ≠ .terminated from hr ▸ h

theorem RousesLiving.allows (h : k.RousesLiving (.event e)) :
    Rights.rousing.Allows k e where
  creates _ _ _ _ := trivial
  takesBack _ _ _ _ := trivial
  ready t ht := ⟨rousing_wakes (h.1 t ht), h.1 t ht⟩
  blocked := h.2

theorem endsStay_sendMessage (hok : k.RousesLiving (.event (.kernelMessage q handle m)))
    (hs : k.sendMessage q handle m = .ok (st, k')) : EndsStay k k' :=
  (sendMessage_changes (fun o ho p hp t ht => rousing_wakes (hok.1 t (by
    simp_all [threadMadeReady]))) hs).endsStay

theorem endsStay_event (hok : k.RousesLiving (.event e)) (hs : k.event e = .ok k') :
    EndsStay k k' := by
  rcases event_changes hok.allows hs with
    hc | ⟨cur, handle, -, -, hs⟩ | ⟨cur, -, -, hs⟩ | ⟨q, -, hs⟩
  · exact hc.endsStay
  · rcases dwDeleteObject_cases hs with ⟨rfl, -⟩ | ⟨q, o, -, -, -, -, -, hd⟩
    · exact .refl _
    · refine EndsStay.trans ?_ (endsStay_deleteObject hd)
      exact .of_eq rfl rfl
  · rw [dwExit_eq] at hs
    obtain ⟨r, hr, hs⟩ := bind_eq_ok.1 hs
    exact (endsStay_exitThread hr).trans (endsStay_scheduleNext hs)
  · exact endsStay_createProcess hs

theorem endsStay_taskEvent {e : TaskEvent} (hok : k.RousesLiving e)
    (hs : k.taskEvent e = .ok k') : EndsStay k k' := by
  cases e with
  | exception =>
    simp only [taskEvent] at hs
    split at hs
    · split_ifs at hs
      · obtain ⟨r, hr, hs⟩ := bind_eq_ok.1 hs
        obtain ⟨q, -, hr⟩ := bind_eq_ok.1 hr
        obtain ⟨r', hr', hr⟩ := bind_eq_ok.1 hr
        cases hr
        refine EndsStay.trans ?_ (endsStay_scheduleNext hs)
        exact (endsStay_deleteProcess hr').trans (.of_eq rfl rfl)
      · cases hs
        exact .refl _
    · cases hs
      exact .refl _
  | event e => exact endsStay_event hok hs

end Kernel

/-! ### Steps of the machine -/

namespace IrqKernel

variable {s s' : IrqKernel}

def RelaysLiving (s : IrqKernel) (n : ℕ) : Prop :=
  ∀ t ∈ (s.relay n).handler, (s.kernel.thread t).state ≠ .terminated
    ∧ ∀ q ∈ (s.kernel.thread t).owner,
      s.kernel.RousesLiving (.event (.kernelMessage q (s.relay n).portHandle irqMessage))

def RousesLiving (s : IrqKernel) : IrqStep → Prop
  | .irq n => (s.relay n).isActive = true → s.RelaysLiving n
  | .task cur e => { s.kernel with currentThread := some cur }.RousesLiving e
  | _ => True

instance (s : IrqKernel) (n : ℕ) : Decidable (s.RelaysLiving n) :=
  inferInstanceAs (Decidable (∀ t ∈ (s.relay n).handler, _))

instance (s : IrqKernel) : DecidablePred s.RousesLiving := fun a =>
  a.casesOn (motive := fun a => Decidable (s.RousesLiving a))
    (fun n => (inferInstance : Decidable ((s.relay n).isActive = true → s.RelaysLiving n)))
    (fun _ _ _ _ => instDecidableTrue)
    (fun _ e => (inferInstance : Decidable (Kernel.RousesLiving _ e)))
    fun _ _ => instDecidableTrue

def tryStep (s : IrqKernel) (a : IrqStep) : Option IrqKernel := (s.step a).toOption

theorem endsStay_irq {n : ℕ} (hok : s.RousesLiving (.irq n))
    (h : s.irqHandlerCallback n = .ok s') : EndsStay s.kernel s'.kernel := by
  unfold irqHandlerCallback at h
  simp only at h
  split_ifs at h with hn hc ha
  · cases h
    exact .refl _
  · cases h
    refine ⟨?_, fun t _ hst => ?_⟩
    · simp only [pitCallback]
      split <;> exact le_rfl
    · simp only [pitCallback]
      split
      · exact hst
      · exact (setThread_state (by rfl) t).trans hst
  · obtain ⟨t, ht, h⟩ := bind_eq_ok.1 h
    obtain ⟨q, hq, h⟩ := bind_eq_ok.1 h
    obtain ⟨⟨st, k⟩, hk, h⟩ := bind_eq_ok.1 h
    obtain ⟨hlive, hport⟩ := hok ha t (nonNull_ok.1 ht)
    have hsend : EndsStay s.kernel k :=
      endsStay_sendMessage (hport q (nonNull_ok.1 hq)) hk
    simp only at h
    split_ifs at h with hst
    · cases h
      exact hsend
    · cases h
      exact hsend.trans (endsStay_wakeThread (sendMessage_state_ne hk hlive))
  · cases h
    exact .refl _

theorem endsStay_step {a : IrqStep} (hok : s.RousesLiving a) (h : s.step a = .ok s') :
    EndsStay s.kernel s'.kernel := by
  cases a with
  | irq n =>
    simp only [step] at h
    split_ifs at h
    · cases h
      exact .refl _
    · exact endsStay_irq hok h
  | port cur handle op descr =>
    rcases port_kernel h with hkernel | hkernel
    · rw [hkernel]
      exact .refl _
    · rw [hkernel]
      exact .of_eq rfl rfl
  | task cur e =>
    obtain ⟨k, hk, h⟩ := bind_eq_ok.1 h
    cases h
    have hon : EndsStay s.kernel { s.kernel with currentThread := some cur } :=
      .of_eq rfl rfl
    exact hon.trans (endsStay_taskEvent hok hk)
  | setProcessCapabilities q flags =>
    cases h
    exact .of_eq rfl rfl

end IrqKernel

/-- In every run whose steps rouse only threads that have not ended, a thread that has ended stays
so. -/
theorem terminated_final {s t : IrqKernel} {as : List IrqStep}
    (hok : Run.Meets tryStep IrqKernel.RousesLiving s as) (h : Run.exec tryStep s as = some t) :
    ∀ x < s.kernel.threads, (s.kernel.thread x).state = .terminated →
      (t.kernel.thread x).state = .terminated := by
  have hrun : EndsStay s.kernel t.kernel := by
    refine Run.exec_invariant (I := fun r => EndsStay s.kernel r.kernel)
      (fun a e b ha he hb => ?_) as (.refl _) hok h
    exact ha.trans (endsStay_step he (toOption_eq_some.1 hb))
  exact hrun.state

/-- Two processes. The second one takes a handle to a port of the first one, which then exits. -/
def ownerExits : List IrqStep :=
  [.task 0 (.event .createProcess), .task 0 (.event .createProcess),
    .task 0 (.event (.call (.createObject none .port true))),
    .task 0 (.event (.call (.invokeObject 0 0 noArgs))),
    .task 1 (.event (.call (.translateHandle 1 0 .ok))), .task 0 (.event (.call .exit))]

def ping : Message := kernelMessage irqMessage

/-- A message to the port makes the thread that has exited ready. -/
theorem send_readies_terminated :
    ∃ s t, Run.exec tryStep .boot ownerExits = some s
      ∧ (0 < s.kernel.threads ∧ (s.kernel.thread 0).state = .terminated)
      ∧ s.tryStep (.task 1 (.event (.call (.send 0 (some ping) 24)))) = some t
      ∧ (t.kernel.thread 0).state = .ready := by
  have hrun : (Run.exec tryStep .boot ownerExits).bind (fun s =>
      (s.tryStep (.task 1 (.event (.call (.send 0 (some ping) 24))))).map fun t =>
        (decide (0 < s.kernel.threads), (s.kernel.thread 0).state, (t.kernel.thread 0).state))
      = some (true, .terminated, .ready) := by
    decide +kernel
  obtain ⟨s, hs, hrun⟩ := bind_eq_some_iff.1 hrun
  obtain ⟨t, ht, hstates⟩ := map_eq_some_iff.1 hrun
  simp only [Prod.mk.injEq, decide_eq_true_eq] at hstates
  exact ⟨s, t, hs, ⟨hstates.1, hstates.2.1⟩, ht, hstates.2.2⟩

/-- The second process creates a port of its own, sends a message to it and receives it. -/
def ownPort : List IrqStep :=
  [.task 1 (.event (.call (.createObject none .port true))),
    .task 1 (.event (.call (.invokeObject 1 0 noArgs))),
    .task 1 (.event (.call (.send 1 (some ping) 24))),
    .task 1 (.event (.call (.receive 1 true))), .task 1 (.event .timer)]

theorem terminated_final_own_port :
    ∃ s t, Run.exec tryStep .boot ownerExits = some s ∧ Run.exec tryStep s ownPort = some t
      ∧ (t.kernel.thread 0).state = .terminated := by
  have hrun : (Run.exec tryStep .boot ownerExits).bind (fun s =>
      (Run.exec tryStep s ownPort).map fun _ =>
        (decide (Run.Meets tryStep IrqKernel.RousesLiving s ownPort),
          decide (0 < s.kernel.threads), (s.kernel.thread 0).state))
      = some (true, true, .terminated) := by
    decide +kernel
  obtain ⟨s, hs, hrun⟩ := bind_eq_some_iff.1 hrun
  obtain ⟨t, ht, hstates⟩ := map_eq_some_iff.1 hrun
  simp only [Prod.mk.injEq, decide_eq_true_eq] at hstates
  obtain ⟨hok, hlt, hend⟩ := hstates
  exact ⟨s, t, hs, ht, terminated_final hok ht 0 hlt hend⟩

end DragonWare
