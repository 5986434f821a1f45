import DragonWare.Proofs.Deletion
import DragonWare.Proofs.ThreadList

/-!
# Threads of deleted processes

`DeleteProcess` stops the main thread, and the threads whose objects go with the handle table. As
long as no other thread is left or made fit to run (`Kernel.StopsThreads`), every thread of a
deleted process is stopped (`DeadInv`).
-/

namespace DragonWare

open Fallible Function

namespace Kernel

variable {cur q : ℕ} {st : Status}

def SelectsLive (k : Kernel) (e : TaskEvent) : Prop :=
  ∀ r t r', k.CallsScheduleNext e r → r.selectNextThread = .ok (some t, r') →
    ∀ q, (r.thread t).owner = some q → r.live.process q = true

def Stopped (k : Kernel) (t : ℕ) : Prop :=
  (k.thread t).state = .blocked ∨ (k.thread t).state = .terminated

/-- The table of the process holds the only counted reference to an object of the thread. -/
def HoldsThread (k : Kernel) (q t : ℕ) : Prop :=
  ∃ i < maxObjPerProcess, ∃ o ∈ (k.process q).handles.objlist i,
    ((k.object o).type = .thread ∧ (k.object o).data = some t) ∧ (k.object o).refcnt ≤ 1

def LiveOwner (k : Kernel) (t : ℕ) : Prop := ∀ q ∈ (k.thread t).owner, k.live.process q = true

def processDeleted (k : Kernel) : TaskEvent → Option ℕ
  | .event (.call .exit) => k.currentThread.bind fun cur => (k.thread cur).owner
  | .exception => k.currentThread.bind fun cur => (k.thread cur).owner
  | _ => none

def threadExiting (k : Kernel) : TaskEvent → Option ℕ
  | .event (.call .exit) => k.currentThread
  | _ => none

/-- Each thread of the process is the one that exits, the main thread, one that its object takes
with it, or one that is stopped already. -/
def DeletionStops (k : Kernel) (q : ℕ) (exiting : Option ℕ) : Prop :=
  ∀ t < k.threads, (k.thread t).owner = some q →
    exiting = some t ∨ t = (k.process q).mainThread ∨ k.HoldsThread q t ∨ k.Stopped t

/-- No thread of a deleted process is made or left fit to run. -/
def StopsThreads (k : Kernel) (e : TaskEvent) : Prop :=
  (∀ t ∈ k.threadMadeReady e, k.LiveOwner t)
    ∧ ∀ q ∈ k.processDeleted e, k.DeletionStops q (k.threadExiting e)

instance (k : Kernel) (t : ℕ) : Decidable (k.Stopped t) :=
  inferInstanceAs (Decidable ((k.thread t).state = .blocked ∨ (k.thread t).state = .terminated))

instance (k : Kernel) (q t : ℕ) : Decidable (k.HoldsThread q t) := by
  unfold HoldsThread
  infer_instance

instance (k : Kernel) (t : ℕ) : Decidable (k.LiveOwner t) :=
  inferInstanceAs (Decidable (∀ q ∈ (k.thread t).owner, k.live.process q = true))

instance (k : Kernel) (q : ℕ) (exiting : Option ℕ) : Decidable (k.DeletionStops q exiting) := by
  unfold DeletionStops
  infer_instance

instance (k : Kernel) (e : TaskEvent) : Decidable (k.StopsThreads e) := by
  unfold StopsThreads
  infer_instance

structure DeadInv (k : Kernel) : Prop where
  stopped : ∀ t q, (k.thread t).owner = some q → k.live.process q = false → k.Stopped t
  lt : ∀ t q, (k.thread t).owner = some q → t < k.threads

variable {k k' r : Kernel} {t s o : ℕ} {x : Thread} {exiting : Option ℕ} {e : TaskEvent}

theorem DeadInv.sameStore (h : k.DeadInv) (hs : SameStore k k')
    (hstate : ∀ t, k.Stopped t → k'.Stopped t ∨ k.LiveOwner t) : k'.DeadInv := by
  refine ⟨fun t q ht hq => ?_, fun t q ht => ?_⟩
  · rw [hs.owner] at ht
    rw [hs.live] at hq
    refine (hstate t (h.stopped t q ht hq)).resolve_right fun hown => ?_
    simp [hown q ht] at hq
  · rw [hs.threads]
    exact h.lt t q ((hs.owner t).symm.trans ht)

theorem stopped_setThread_ne (hne : s ≠ t) : (k.setThread t x).Stopped s ↔ k.Stopped s := by
  simp [Stopped, setThread, hne]

theorem DeadInv.blockThread (h : k.DeadInv) (t : ℕ) : (k.blockThread t).DeadInv := by
  refine h.sameStore (sameStore_blockThread k t) fun s hs => .inl ?_
  by_cases hst : s = t
  · simp [Kernel.blockThread, Stopped, setThread, hst]
  · exact (stopped_setThread_ne hst).2 hs

theorem DeadInv.sleepOn (h : k.DeadInv) (cur p : ℕ) : (k.sleepOn cur p).DeadInv :=
  ⟨(h.blockThread cur).stopped, (h.blockThread cur).lt⟩

theorem DeadInv.wakeThread (h : k.DeadInv) (ht : k.LiveOwner t) : (k.wakeThread t).DeadInv := by
  refine h.sameStore (sameStore_wakeThread k t) fun s hs => ?_
  by_cases hst : s = t
  · exact .inr (hst ▸ ht)
  refine .inl ?_
  unfold Kernel.wakeThread
  split_ifs
  · exact (stopped_setThread_ne hst).2 hs
  · exact hs

theorem setThread_state (hx : x.state = (k.thread t).state) (s : ℕ) :
    ((k.setThread t x).thread s).state = (k.thread s).state := by
  by_cases hs : s = t
  · simp [setThread, hs, hx]
  · simp [setThread, hs]

theorem addThreadToScheduler_state (h : k.addThreadToScheduler t = .ok k') (hs : s ≠ t) :
    (k'.thread s).state = (k.thread s).state := by
  simp only [addThreadToScheduler] at h
  split at h
  · cases h
    simp [setThread, hs]
  obtain ⟨last, -, h⟩ := bind_eq_ok.1 h
  cases h
  refine (setThread_state (by rfl) s).trans ?_
  simp [setThread, hs]

theorem removeThreadFromScheduler_state (h : k.removeThreadFromScheduler t = .ok (st, k')) (s : ℕ) :
    (k'.thread s).state = (k.thread s).state := by
  unfold removeThreadFromScheduler at h
  split at h
  · cases h
    rfl
  split_ifs at h
  · cases h
    rfl
  obtain ⟨before, -, h⟩ := bind_eq_ok.1 h
  cases before with
  | none =>
    cases h
    rfl
  | some iter =>
    cases h
    exact setThread_state (by rfl) s

theorem DeadInv.add (h : k.DeadInv) (ht : k.LiveOwner t)
    (hadd : k.addThreadToScheduler t = .ok k') : k'.DeadInv := by
  refine h.sameStore (sameStore_addThreadToScheduler hadd) fun s hs => ?_
  by_cases hst : s = t
  · exact .inr (hst ▸ ht)
  · refine .inl ?_
    rwa [Stopped, addThreadToScheduler_state hadd hst]

theorem makeRunning_state {prev next : ℕ} (hn : (k.thread next).state = .ready)
    (hr : (k.thread t).state ≠ .ready) (hrun : (k.thread t).state ≠ .running) :
    ((k.makeRunning prev next).thread t).state = (k.thread t).state := by
  have hne : t ≠ next := by
    rintro rfl
    exact hr hn
  unfold makeRunning
  split_ifs with hp
  · have hne' : t ≠ prev := by
      rintro rfl
      exact hrun hp
    simp [setThread, hne, hne']
  · simp [setThread, hne]

theorem scheduleNext_state (h : k.scheduleNext = .ok k') (hr : (k.thread t).state ≠ .ready)
    (hrun : (k.thread t).state ≠ .running) : (k'.thread t).state = (k.thread t).state := by
  rcases scheduleNext_split h with rfl | ⟨next, r, hsel, hk⟩
  · rfl
  obtain ⟨-, -, -, hstate, hready, -⟩ := selectNextThread_cases hsel
  rcases hk with ⟨-, rfl⟩ | ⟨s, -, -, rfl⟩ | ⟨s, prev, rfl, -, -, rfl⟩
  · exact hstate t
  · exact hstate t
  have hn : (r.thread s).state = .ready := (hstate s).trans (hready s rfl)
  have hthread : ({ r with needsResched := false }.switchTo prev s).thread
      = ({ r with needsResched := false }.makeRunning prev s).thread := by
    simp [switchTo]
  rw [hthread, ← hstate t]
  rw [← hstate t] at hr hrun
  exact makeRunning_state hn hr hrun

theorem scheduleNext_stopped (h : k.scheduleNext = .ok k') (hs : k.Stopped t) : k'.Stopped t := by
  have hsame : (k'.thread t).state = (k.thread t).state := by
    refine scheduleNext_state h ?_ ?_
    all_goals rcases hs with hs | hs <;> simp [hs]
  rwa [Stopped, hsame]

theorem DeadInv.scheduleNext (h : k.DeadInv) (hs : k.scheduleNext = .ok k') : k'.DeadInv :=
  h.sameStore (scheduleNext_cases hs).1 fun _ ht => .inl (scheduleNext_stopped hs ht)

theorem DeadInv.selects (h : k.DeadInv) {r' : Kernel} (hsel : k.selectNextThread = .ok (some t, r'))
    (hq : (k.thread t).owner = some q) : k.live.process q = true := by
  obtain ⟨-, -, -, -, hready, -⟩ := selectNextThread_cases hsel
  cases hlive : k.live.process q with
  | true => rfl
  | false =>
    have hstop := h.stopped t q hq hlive
    simp [Stopped, hready t rfl] at hstop

/-! ### Deletion of a process -/

def Ends (k k' : Kernel) : Prop :=
  ∀ t, (k'.thread t).state = (k.thread t).state ∨ (k'.thread t).state = .terminated

theorem Ends.trans (h : Ends k r) (h' : Ends r k') : Ends k k' := by
  intro t
  rcases h' t with heq | heq
  · rw [heq]
    exact h t
  · exact .inr heq

theorem ends_setThread (k : Kernel) (t : ℕ) :
    Ends k (k.setThread t { k.thread t with state := .terminated }) := by
  intro s
  by_cases hs : s = t
  · simp [setThread, hs]
  · simp [setThread, hs]

theorem deleteThread_state (h : k.deleteThread t = .ok k') :
    (k'.thread t).state = .terminated ∧ Ends k k' := by
  rcases deleteThread_cases h with ⟨-, rfl⟩ | ⟨-, st, hr⟩
  · exact ⟨by simp [setThread], ends_setThread k t⟩
  have hsame := removeThreadFromScheduler_state hr
  refine ⟨by simp [hsame, setThread], fun s => ?_⟩
  rw [hsame]
  exact ends_setThread k t s

theorem ends_deleteObject (h : k.deleteObject o = .ok k') : Ends k k' := by
  obtain ⟨-, ⟨-, rfl⟩ | ⟨-, r, hr, rfl⟩⟩ := deleteObject_cases h
  · exact fun _ => .inl rfl
  unfold deleteData at hr
  split at hr
  · cases hr
    unfold deletePort
    split_ifs
    · exact fun _ => .inl rfl
    · exact fun _ => .inl rfl
  · exact (deleteThread_state hr).2
  · cases hr
    exact fun _ => .inl rfl

theorem deleteObject_stops (h : k.deleteObject o = .ok k')
    (ho : (k.object o).type = .thread ∧ (k.object o).data = some t)
    (hone : (k.object o).refcnt ≤ 1) : (k'.thread t).state = .terminated := by
  obtain ⟨-, ⟨hmany, -⟩ | ⟨-, r, hr, rfl⟩⟩ := deleteObject_cases h
  · omega
  · simp only [deleteData, ho.1, ho.2] at hr
    exact (deleteThread_state hr).1

/-- The threads that the slots below `i` held the last reference to are stopped. -/
structure SlotsDone (k : Kernel) (q i : ℕ) (k' : Kernel) : Prop extends DropsSlots k q i k' where
  state : Ends k k'
  main : (k'.process q).mainThread = (k.process q).mainThread
  stopped : ∀ j < i, ∀ o t, (k.process q).handles.objlist j = some o →
    (k.object o).type = .thread ∧ (k.object o).data = some t → (k.object o).refcnt ≤ 1 →
    (k'.thread t).state = .terminated

theorem SlotsDone.step {i : ℕ} {a b : Kernel} (h : SlotsDone k q i a)
    (hs : deleteSlot q a i = .ok b) : SlotsDone k q (i + 1) b := by
  have hdrops := h.toDropsSlots.deleteSlot hs
  have hslot := h.rest q i (.inr le_rfl)
  have hmain : ((a.setHandles q ((a.process q).handles.deleteFromHandleTable i).2).process
      q).mainThread = (k.process q).mainThread := by
    rw [← h.main]
    simp [setHandles, setProcess]
  rcases deleteSlot_cases hs with ⟨hnone, rfl⟩ | ⟨o, hsome, hd⟩
  · refine ⟨hdrops, h.state, hmain, fun j hj o t ho => ?_⟩
    have hji : j ≠ i := by
      rintro rfl
      simp [← hslot, hnone] at ho
    exact h.stopped j (by omega) o t ho
  have hends := ends_deleteObject hd
  refine ⟨hdrops, h.state.trans hends, ?_, fun j hj o' t ho' hobj hone => ?_⟩
  · rw [deleteObject_process hd]
    exact hmain
  by_cases hji : j = i
  · subst hji
    cases hsome.symm.trans (hslot.trans ho')
    exact deleteObject_stops hd ⟨(h.type o).trans hobj.1, (h.data o).trans hobj.2⟩
      ((h.count_le o).trans hone)
  · rcases hends t with hsame | hterm
    · exact hsame.trans (h.stopped j (by omega) o' t ho' hobj hone)
    · exact hterm

theorem DeadInv.deleteProcess (h : k.DeadInv) (hstop : k.DeletionStops q exiting)
    (hexit : ∀ t, exiting = some t → k.Stopped t)
    (hd : k.deleteProcess q = .ok k') : k'.DeadInv := by
  obtain ⟨proc, -, hd⟩ := bind_eq_ok.1 hd
  obtain ⟨r, hr, hd⟩ := bind_eq_ok.1 hd
  cases hd
  have hstart : SlotsDone k q 0 { k with processList := k.processList.erase q } :=
    ⟨.start (.refl k) q, fun _ => .inl rfl, rfl, fun j hj => absurd hj (Nat.not_lt_zero j)⟩
  have hdone : SlotsDone k q maxObjPerProcess r :=
    foldlM_range (I := fun i a => SlotsDone k q i a) hstart
      (fun i a b _ hI hs => hI.step hs) hr
  have hkeep : ∀ t, k.Stopped t → r.Stopped t := by
    intro t ht
    rcases hdone.state t with hsame | hterm
    · rwa [Stopped, hsame]
    · exact .inr hterm
  -- the main thread is stopped last
  have hmain : ∀ t, r.Stopped t ∨ t = (r.process q).mainThread →
      (r.setThread (r.process q).mainThread { r.thread (r.process q).mainThread with
        state := .terminated }).Stopped t := by
    intro t ht
    by_cases heq : t = (r.process q).mainThread
    · simp [Stopped, setThread, heq]
    · exact (stopped_setThread_ne heq).2 (ht.resolve_right heq)
  have howner : ∀ t, ((r.setThread (r.process q).mainThread
      { r.thread (r.process q).mainThread with state := .terminated }).thread t).owner
      = (k.thread t).owner := fun t => (owner_update (by rfl) t).trans (hdone.thread t)
  refine ⟨fun t q' ht hq' => hmain t ?_, fun t q' ht => ?_⟩
  · rw [howner] at ht
    by_cases heq : q' = q
    · subst heq
      rcases hstop t (h.lt t q' ht) ht with hex | hex | ⟨i, hi, o, ho, hobj, hone⟩ | hex
      · exact .inl (hkeep t (hexit t hex))
      · exact .inr (hex.trans hdone.main.symm)
      · exact .inl (.inr (hdone.stopped i hi o t ho hobj hone))
      · exact .inl (hkeep t hex)
    · have hdead : k.live.process q' = false := by
        simpa [heq, setThread, hdone.process q' heq] using hq'
      exact .inl (hkeep t (h.stopped t q' ht hdead))
  · rw [howner] at ht
    have hthreads : r.threads = k.threads := hdone.threads
    exact hthreads ▸ h.lt t q' ht

theorem DeletionStops.sameStore (h : k.DeletionStops q exiting) (hs : SameStore k r)
    (hstate : ∀ t, k.Stopped t → r.Stopped t) : r.DeletionStops q exiting := by
  intro t ht howner
  rw [hs.threads] at ht
  rw [hs.owner] at howner
  rcases h t ht howner with hex | hmain | hheld | hstop
  · exact .inl hex
  · exact .inr (.inl (by rw [hs.process]; exact hmain))
  · refine .inr (.inr (.inl ?_))
    simpa only [HoldsThread, hs.process, hs.object] using hheld
  · exact .inr (.inr (.inr (hstate t hstop)))

theorem DeadInv.exitThread (h : k.DeadInv)
    (hstop : ∀ q, (k.thread cur).owner = some q → k.DeletionStops q (some cur))
    (he : k.exitThread cur = .ok k') : k'.DeadInv := by
  obtain ⟨⟨st, r⟩, hr, he⟩ := bind_eq_ok.1 he
  obtain ⟨r', hr', he⟩ := bind_eq_ok.1 he
  cases he
  have hremove := removeThreadFromScheduler_state hr
  have hsame : SameStore k (r.setThread cur { r.thread cur with state := .terminated }) :=
    (sameStore_removeThreadFromScheduler hr).trans (sameStore_setThread rfl)
  have hself : (r.setThread cur { r.thread cur with state := .terminated }).Stopped cur := by
    simp [Stopped, setThread]
  have hstate : ∀ t, k.Stopped t →
      (r.setThread cur { r.thread cur with state := .terminated }).Stopped t := by
    intro t ht
    by_cases heq : t = cur
    · exact heq ▸ hself
    · rw [stopped_setThread_ne heq, Stopped, hremove]
      exact ht
  have hmid := h.sameStore hsame fun t ht => .inl (hstate t ht)
  have hend : r'.DeadInv := by
    simp only at hr'
    rw [hsame.owner] at hr'
    cases howner : (k.thread cur).owner with
    | none =>
      rw [howner] at hr'
      cases hr'
      exact hmid
    | some q =>
      rw [howner] at hr'
      refine hmid.deleteProcess ((hstop q howner).sameStore hsame hstate) (fun t ht => ?_) hr'
      cases ht
      exact hself
  exact ⟨hend.stopped, hend.lt⟩

theorem DeadInv.userException (h : k.DeadInv)
    (hstop : ∀ q, (k.thread cur).owner = some q → k.DeletionStops q none)
    (he : k.dwUserException cur = .ok k') : k'.DeadInv := by
  obtain ⟨q, hq, he⟩ := bind_eq_ok.1 he
  obtain ⟨r, hr, he⟩ := bind_eq_ok.1 he
  cases he
  have hend := h.deleteProcess (hstop q (nonNull_ok.1 hq)) (fun t ht => by simp at ht) hr
  exact ⟨hend.stopped, hend.lt⟩

theorem dwExit_eq (k : Kernel) (cur : ℕ) : k.dwExit cur = k.exitThread cur >>= scheduleNext := by
  simp only [dwExit, exitThread, bind_assoc, pure_bind]

theorem DeadInv.calls (h : k.DeadInv) (hstop : k.StopsThreads e)
    (hc : k.CallsScheduleNext e r) : r.DeadInv := by
  cases hc with
  | timer => exact h
  | exit hcur _ he =>
    refine h.exitThread (fun q hq => ?_) he
    have := hstop.2 q (by simp [processDeleted, hcur, hq])
    rwa [threadExiting, hcur] at this
  | exception hcur _ he =>
    exact h.userException (fun q hq => hstop.2 q (by simp [processDeleted, hcur, hq])) he
  | receive | resume => exact h.sleepOn _ _

theorem DeadInv.newThread (h : k.DeadInv) (hq : k.live.process q = true) :
    (k.allocateUserThread (some q)).2.DeadInv := by
  refine ⟨fun t q' ht hdead => ?_, fun t q' ht => ?_⟩
  · by_cases heq : t = k.threads
    · simp only [allocateUserThread, heq, update_self, Option.some.injEq] at ht
      subst ht
      exact absurd (hq.symm.trans hdead) (by simp)
    · simp only [allocateUserThread, update_of_ne heq] at ht
      have hstop := h.stopped t q' ht hdead
      simpa [Stopped, allocateUserThread, heq] using hstop
  · by_cases heq : t = k.threads
    · exact heq ▸ Nat.lt_succ_self _
    · simp only [allocateUserThread, update_of_ne heq] at ht
      exact (h.lt t q' ht).trans (Nat.lt_succ_self _)

theorem DeadInv.createProcess (h : k.DeadInv) (hc : k.createProcess = .ok (q, k')) :
    k'.DeadInv := by
  obtain ⟨r, hr, hc⟩ := bind_eq_ok.1 hc
  cases hc
  have hlive : ∀ q', update k.live.process k.processes true q' = false →
      k.live.process q' = false := by
    intro q' hq'
    by_cases heq : q' = k.processes
    · simp [heq] at hq'
    · simpa [heq] using hq'
  have hgrow : DeadInv { k with live := { k.live with
      process := update k.live.process k.processes true } } :=
    ⟨fun t q' ht hq' => h.stopped t q' ht (hlive q' hq'), h.lt⟩
  have hnew := hgrow.newThread (q := k.processes) (by simp)
  have hmid : k.withProcess.DeadInv := ⟨hnew.stopped, hnew.lt⟩
  have hend : r.DeadInv := by
    refine hmid.add (t := k.threads) (fun q' hq' => ?_) hr
    have hq : k.processes = q' := by simpa [withProcess, allocateUserThread] using hq'
    exact (withProcess_live k q').2 (.inl hq.symm)
  exact ⟨hend.stopped, hend.lt⟩

/-! ### Events -/

def Rights.lively : Rights :=
  { Rights.all with runs := fun k t => k.LiveOwner t, wakes := fun k t => k.LiveOwner t }

theorem DeadInv.change (h : k.DeadInv) (hc : Change .lively k k') : k'.DeadInv := by
  cases hc with
  | newThread hq => exact h.newThread hq
  | sleep => exact h.sleepOn _ _
  | wake ha => exact h.wakeThread ha
  | run ha hrun => exact h.add ha hrun
  | schedule hs => exact h.scheduleNext hs
  | port | object | bind | stand | newObject | newSlot | append | delete | process | newPort
  | take => exact { h with }

theorem StopsThreads.allows {e : Event} (h : k.StopsThreads (.event e)) :
    Rights.lively.Allows k e := by
  refine { Rights.all_allows k e with ready := fun t ht => ⟨fun r hthread hlive q hq => ?_,
    h.1 t ht⟩ }
  rw [hlive]
  exact h.1 t ht q (hthread ▸ hq)

theorem DeadInv.deleteObject (h : k.DeadInv) (hd : k.deleteObject o = .ok k') : k'.DeadInv := by
  have hdrop := dropsObject hd
  refine ⟨fun t q ht hq => ?_, fun t q ht => ?_⟩
  · rw [hdrop.thread] at ht
    rw [hdrop.process] at hq
    rcases ends_deleteObject hd t with hsame | hterm
    · rw [Stopped, hsame]
      exact h.stopped t q ht hq
    · exact .inr hterm
  · rw [hdrop.threads]
    exact h.lt t q ((hdrop.thread t).symm.trans ht)

theorem DeadInv.event (h : k.DeadInv) {e : Event} (hstop : k.StopsThreads (.event e))
    (hs : k.event e = .ok k') : k'.DeadInv := by
  rcases event_changes hstop.allows hs with
    hc | ⟨cur, handle, rfl, hcur, hs⟩ | ⟨cur, rfl, hcur, hs⟩ | ⟨q, -, hs⟩
  · exact hc.invariant (fun hc h => h.change hc) h
  · rcases dwDeleteObject_cases hs with ⟨rfl, -⟩ | ⟨q, o, -, -, -, -, -, hd⟩
    · exact h
    · refine DeadInv.deleteObject ?_ hd
      exact ⟨h.stopped, h.lt⟩
  · rw [dwExit_eq] at hs
    obtain ⟨r, hr, hs⟩ := bind_eq_ok.1 hs
    refine DeadInv.scheduleNext (h.exitThread (fun q hq => ?_) hr) hs
    have := hstop.2 q (by simp [processDeleted, hcur, hq])
    rwa [threadExiting, hcur] at this
  · exact h.createProcess hs

theorem DeadInv.taskEvent (h : k.DeadInv) (hstop : k.StopsThreads e)
    (hs : k.taskEvent e = .ok k') : k'.DeadInv := by
  cases e with
  | exception =>
    simp only [Kernel.taskEvent] at hs
    split at hs
    · rename_i cur hcur
      split_ifs at hs with hin
      · obtain ⟨r, hr, hs⟩ := bind_eq_ok.1 hs
        exact (h.calls hstop (.exception hcur hin hr)).scheduleNext hs
      · cases hs
        exact h
    · cases hs
      exact h
  | event e => exact h.event hstop hs

theorem boot_deadInv : boot.DeadInv :=
  ⟨fun t q ht => by simp [boot] at ht, fun t q ht => by simp [boot] at ht⟩

/-- If deletions stop every thread of the process and no thread of a deleted process is made ready,
the scheduler selects only threads of live processes. -/
theorem selects_live (es : List TaskEvent) (hstop : Run.Meets taskStep StopsThreads boot es) :
    Run.Meets taskStep SelectsLive boot es :=
  Run.Meets.imp (I := DeadInv)
    (fun _ _ hI hok _ _ _ hc hsel _ hq => (hI.calls hok hc).selects hsel hq)
    (fun _ _ _ hI hok hs => hI.taskEvent hok (toOption_eq_some.1 hs)) es boot_deadInv hstop

/-- Two processes, and a second thread of the first one, which has not been run. -/
def twoProcesses : List TaskEvent :=
  [.event .createProcess, .event .createProcess, .event (.call (.createObject none .thread true)),
    .event (.call (.invokeObject 0 0 noArgs))]

/-- The second process takes a handle to the thread, and the first one runs the thread and exits. -/
def sharedThread : List TaskEvent :=
  twoProcesses ++ [.event .timer, .event (.call (.translateHandle 1 0 .ok)), .event .timer,
    .event (.call (.invokeObject 0 1 noArgs)), .event (.call .exit)]

theorem orphan_selected :
    ∃ k, Run.exec taskStep boot sharedThread = some k ∧ ¬ k.SelectsLive (.event .timer) := by
  have hrun : (Run.exec taskStep boot sharedThread).map (fun k =>
      (k.selectNextThread.toOption.map (·.1), (k.thread 2).owner, k.live.process 0))
      = some (some (some 2), some 0, false) := by
    decide +kernel
  obtain ⟨k, hk, hsel⟩ := Option.map_eq_some_iff.1 hrun
  simp only [Prod.mk.injEq] at hsel
  obtain ⟨hsel, howner, hdead⟩ := hsel
  obtain ⟨⟨next, r⟩, hnext, heq⟩ := Option.map_eq_some_iff.1 hsel
  simp only at heq
  subst heq
  refine ⟨k, hk, fun hlive => ?_⟩
  have hq := hlive k 2 r .timer (toOption_eq_some.1 hnext) 0 howner
  simp [hdead] at hq

/-- The first process runs its second thread and exits while it alone has a handle to it. -/
def ownThread : List TaskEvent :=
  twoProcesses ++ [.event (.call (.invokeObject 0 1 noArgs)), .event (.call .exit), .event .timer]

theorem selects_live_own_thread :
    (Run.exec taskStep boot ownThread).isSome = true
      ∧ Run.Meets taskStep StopsThreads boot ownThread
      ∧ Run.Meets taskStep SelectsLive boot ownThread :=
  ⟨by decide +kernel, by decide +kernel, selects_live ownThread (by decide +kernel)⟩

end Kernel

end DragonWare
