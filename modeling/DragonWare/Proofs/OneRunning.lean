import DragonWare.Lib.Run
import DragonWare.Proofs.Sched
import DragonWare.Syscall

/-!
# At most one thread runs

Every call but `ScheduleNext` and `InitSchedulerState` leaves the current thread alone and starts
nobody (`Calm`), with one exception: a thread added to an empty list becomes the current one.
`KeepsCurrent` excludes that.
-/

namespace DragonWare

open Fallible Option

namespace Kernel

def RunsCurrent (k : Kernel) : Prop :=
  ∀ t, (k.thread t).state = .running → k.currentThread = some t

structure Calm (k k' : Kernel) : Prop where
  current : k'.currentThread = k.currentThread
  running : ∀ t, (k'.thread t).state = .running → (k.thread t).state = .running

variable {k k' r : Kernel} {t : ℕ} {st : Status}

theorem Calm.refl (k : Kernel) : Calm k k := ⟨rfl, fun _ h => h⟩

theorem Calm.trans (h : Calm k r) (h' : Calm r k') : Calm k k' :=
  ⟨h'.current.trans h.current, fun t ht => h.running t (h'.running t ht)⟩

theorem Calm.runsCurrent (h : Calm k k') (hk : k.RunsCurrent) : k'.RunsCurrent := fun t ht => by
  rw [h.current]
  exact hk t (h.running t ht)

theorem calm_setThread {x : Thread} (hx : x.state = .running → (k.thread t).state = .running) :
    Calm k (k.setThread t x) := by
  refine ⟨rfl, fun s hs => ?_⟩
  by_cases heq : s = t
  · subst heq
    simp only [setThread, Function.update_self] at hs
    exact hx hs
  · simpa [setThread, heq] using hs

theorem calm_blockThread (k : Kernel) (t : ℕ) : Calm k (k.blockThread t) := by
  have hset : Calm k (k.setThread t { k.thread t with state := .blocked }) :=
    calm_setThread (by simp)
  exact ⟨hset.current, hset.running⟩

theorem calm_wakeThread (k : Kernel) (t : ℕ) : Calm k (k.wakeThread t) := by
  unfold wakeThread
  split_ifs
  · have hset : Calm k (k.setThread t { k.thread t with state := .ready }) :=
      calm_setThread (by simp)
    exact ⟨hset.current, hset.running⟩
  · exact .refl k

theorem calm_removeThreadFromScheduler
    (h : k.removeThreadFromScheduler t = .ok (st, k')) : Calm k k' := by
  unfold removeThreadFromScheduler at h
  split at h
  · cases h
    exact .refl k
  split_ifs at h
  · cases h
    exact ⟨rfl, fun _ hs => hs⟩
  obtain ⟨before, -, h⟩ := bind_eq_ok.1 h
  cases before with
  | none =>
    cases h
    exact .refl k
  | some iter =>
    cases h
    exact calm_setThread fun hs => hs

theorem calm_deleteThread (h : k.deleteThread t = .ok k') : Calm k k' := by
  have hset : Calm k (k.setThread t { k.thread t with state := .terminated }) :=
    calm_setThread (by simp)
  rcases deleteThread_cases h with ⟨-, rfl⟩ | ⟨-, st, hr⟩
  · exact hset
  · exact hset.trans (calm_removeThreadFromScheduler hr)

theorem calm_exitCurrent (h : k.exitCurrent = .ok k') : Calm k k' := by
  obtain ⟨cur, -, h⟩ := bind_eq_ok.1 h
  obtain ⟨⟨st, r⟩, hr, h⟩ := bind_eq_ok.1 h
  cases h
  exact (calm_removeThreadFromScheduler hr).trans (calm_setThread (by simp))

theorem calm_readyFrom : ∀ {fuel : ℕ} {thr : Option ℕ} {k k' : Kernel},
    k.readyFrom fuel thr = .ok k' → Calm k k'
  | 0, none, k, k', h => by
    cases h
    exact .refl k
  | 0, some _, _, _, h => by cases h
  | _ + 1, none, k, k', h => by
    cases h
    exact .refl k
  | _ + 1, some t, k, k', h => by
    have hset : Calm k (k.setThread t { k.thread t with
        quantum := cpuTimeFromThreadPriority (k.thread t).priority, state := .ready }) :=
      calm_setThread (by simp)
    exact hset.trans (calm_readyFrom h)

theorem RunsCurrent.initSchedulerState (hk : k.RunsCurrent)
    (h : k.initSchedulerState = .ok (st, k')) : k'.RunsCurrent := by
  unfold Kernel.initSchedulerState at h
  split at h
  · cases h
    exact hk
  obtain ⟨r, hr, h⟩ := bind_eq_ok.1 h
  obtain ⟨cur, hcur, h⟩ := bind_eq_ok.1 h
  cases h
  have hcurrent : r.currentThread = some cur := by
    cases hc : r.currentThread with
    | none => simp [hc, nonNull] at hcur
    | some c => simpa [hc, nonNull] using hcur
  intro t ht
  by_cases heq : t = cur
  · rw [heq]
    exact hcurrent
  · refine (calm_readyFrom hr).runsCurrent hk t ?_
    simpa [setThread, heq] using ht

theorem makeRunning_running {prev next : ℕ}
    (h : ((k.makeRunning prev next).thread t).state = .running) :
    t = next ∨ t ≠ prev ∧ (k.thread t).state = .running := by
  by_cases hnext : t = next
  · exact .inl hnext
  refine .inr ?_
  unfold makeRunning at h
  by_cases hprev : t = prev
  · subst hprev
    split_ifs at h with hrun
    · simp [setThread, hnext] at h
    · simp [setThread, hnext] at h
      exact absurd h hrun
  · refine ⟨hprev, ?_⟩
    split_ifs at h <;> simpa [setThread, hnext, hprev] using h

theorem RunsCurrent.scheduleNext (hk : k.RunsCurrent) (h : k.scheduleNext = .ok k') :
    k'.RunsCurrent := by
  rcases scheduleNext_split h with rfl | ⟨next, r, hsel, hr⟩
  · exact hk
  obtain ⟨-, -, -, hstate, -, hcur⟩ := selectNextThread_cases hsel
  rcases hr with ⟨-, rfl⟩ | ⟨s, -, hs, rfl⟩ | ⟨s, prev, -, hprev, -, rfl⟩
  · intro t ht
    exact hk t ((hstate t).symm.trans ht)
  · intro t ht
    rw [← hk t ((hstate t).symm.trans ht)]
    exact hcur (by simp [hs])
  · intro t ht
    simp only [switchTo, enterProcess_thread, enterProcess_currentThread] at ht ⊢
    rcases makeRunning_running ht with rfl | ⟨hne, hrun⟩
    · simp [makeRunning]
    · have hcurrent := hk t ((hstate t).symm.trans hrun)
      exact absurd (some.inj (hcurrent.symm.trans hprev)) hne

theorem RunsCurrent.addThreadToScheduler (hk : k.RunsCurrent)
    (hok : k.threadList = none → ∀ c, (k.thread c).state = .running → c = t)
    (h : k.addThreadToScheduler t = .ok k') : k'.RunsCurrent := by
  have hset : Calm k (k.setThread t { k.thread t with state := .ready, next := none }) :=
    calm_setThread (by simp)
  simp only [Kernel.addThreadToScheduler] at h
  split at h
  next hnone =>
    cases h
    intro s hs
    have hrun : (k.thread s).state = .running := hset.running s hs
    rw [hok hnone s hrun]
  next =>
    obtain ⟨last, -, h⟩ := bind_eq_ok.1 h
    cases h
    refine Calm.runsCurrent ?_ hk
    exact hset.trans (calm_setThread fun hs => hs)

/-- No thread is added to an empty list while another one runs. -/
def KeepsCurrent (k : Kernel) : SchedOp → Prop
  | .addThreadToScheduler t => k.threadList = none → ∀ c, (k.thread c).state = .running → c = t
  | _ => True

theorem RunsCurrent.step {op : SchedOp} (hk : k.RunsCurrent) (hok : k.KeepsCurrent op)
    (h : schedStep k op = some k') : k'.RunsCurrent := by
  cases op with
  | initSchedulerState =>
    obtain ⟨⟨st, r⟩, hr, rfl⟩ := map_eq_ok.1 (toOption_eq_some.1 h)
    exact hk.initSchedulerState hr
  | addThreadToScheduler t => exact hk.addThreadToScheduler hok (toOption_eq_some.1 h)
  | blockThread t =>
    obtain rfl := some.inj h
    exact (calm_blockThread k t).runsCurrent hk
  | wakeThread t =>
    obtain rfl := some.inj h
    exact (calm_wakeThread k t).runsCurrent hk
  | deleteThread t => exact (calm_deleteThread (toOption_eq_some.1 h)).runsCurrent hk
  | exit => exact (calm_exitCurrent (toOption_eq_some.1 h)).runsCurrent hk
  | scheduleNext => exact hk.scheduleNext (toOption_eq_some.1 h)

end Kernel

theorem one_thread_runs {k₀ k : Kernel} {ops : List SchedOp}
    (h₀ : ∀ t, (k₀.thread t).state ≠ .running)
    (hok : Run.Meets schedStep Kernel.KeepsCurrent k₀ ops)
    (hrun : Run.exec schedStep k₀ ops = some k) :
    (∀ t u, (k.thread t).state = .running → (k.thread u).state = .running → t = u)
      ∧ ∀ t, (k.thread t).state = .running → k.currentThread = some t := by
  have hk : k.RunsCurrent := Run.exec_invariant (fun _ _ _ hI hok h => hI.step hok h) ops
    (fun t ht => absurd ht (h₀ t)) hok hrun
  exact ⟨fun t u ht hu => some.inj ((hk t ht).symm.trans (hk u hu)), hk⟩

def newThreads (n : ℕ) : Kernel := { Kernel.boot with
  thread := fun _ => ⟨.ready, .medium, 12, none, none⟩
  threads := n }

theorem one_thread_runs_switch : ∃ k,
    Run.exec schedStep (newThreads 2) [.addThreadToScheduler 0, .addThreadToScheduler 1,
      .initSchedulerState, .scheduleNext] = some k
      ∧ (k.thread 1).state = .running ∧ k.currentThread = some 1 := by
  have hrun : (Run.exec schedStep (newThreads 2) [.addThreadToScheduler 0, .addThreadToScheduler 1,
      .initSchedulerState, .scheduleNext]).map (fun k => (k.thread 1).state)
      = some .running := by decide +kernel
  obtain ⟨k, hk, hstate⟩ := map_eq_some_iff.1 hrun
  refine ⟨k, hk, hstate, (one_thread_runs (fun t => by simp [newThreads]) ?_ hk).2 1 hstate⟩
  refine ⟨fun _ c hc => by simp [newThreads] at hc, fun k₁ h₁ => ⟨fun hnone => ?_, fun _ _ =>
    ⟨trivial, fun _ _ => ⟨trivial, fun _ _ => trivial⟩⟩⟩⟩
  have hlist : k₁.threadList = some 0 := by
    rw [← some.inj h₁]
  rw [hlist] at hnone
  cases hnone

/-- A thread that was deleted is woken and entered, and the list runs empty under it. -/
def addUnderRunning : List SchedOp :=
  [.addThreadToScheduler 0, .addThreadToScheduler 1, .addThreadToScheduler 2, .initSchedulerState,
    .exit, .deleteThread 1, .wakeThread 1, .scheduleNext, .deleteThread 2, .addThreadToScheduler 3,
    .addThreadToScheduler 4, .scheduleNext]

theorem not_one_thread_runs : ∃ k, Run.exec schedStep (newThreads 5) addUnderRunning = some k
    ∧ (k.thread 1).state = .running ∧ (k.thread 4).state = .running
    ∧ k.currentThread = some 4 := by
  have hrun : (Run.exec schedStep (newThreads 5) addUnderRunning).map
      (fun k => ((k.thread 1).state, (k.thread 4).state, k.currentThread))
      = some (.running, .running, some 4) := by decide +kernel
  obtain ⟨k, hk, hstate⟩ := map_eq_some_iff.1 hrun
  simp only [Prod.mk.injEq] at hstate
  exact ⟨k, hk, hstate⟩

end DragonWare
