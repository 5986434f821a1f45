import DragonWare.Irq
import DragonWare.Proofs.RoundRobin

/-!
# Time slices

`PITCallback` tests the count and then lowers it, so the tick that finds it at 0 leaves the largest
32-bit number. If there is no other thread to run, the thread goes on with that number
(`slices_bounded_iff`).
-/

namespace DragonWare

open Fallible Function Kernel List Option

namespace Kernel

variable {k k' : Kernel} {head cur t : ℕ}

def behind (k : Kernel) (head t : ℕ) : ℕ := (k.next t).getD head

/-- Some thread is ready, within one round of the list from behind the current thread. -/
def OtherReady (k : Kernel) : Prop :=
  ∃ head ∈ k.threadList, ∃ cur ∈ k.currentThread, ∃ n ≤ k.threads,
    (k.thread ((k.behind head)^[n + 1] cur)).state = .ready

instance (k : Kernel) : Decidable k.OtherReady := by
  unfold OtherReady
  infer_instance

theorem otherReady_iff (hhead : k.threadList = some head) (hcur : k.currentThread = some cur) :
    k.OtherReady ↔ ∃ n ≤ k.threads, (k.thread ((k.behind head)^[n + 1] cur)).state = .ready := by
  simp [OtherReady, hhead, hcur]

section Loop

variable {start : ℕ}

theorem selectLoop_some {s : ℕ} : ∀ {fuel t : ℕ} {idle : Option ℕ},
    k.selectLoop head start fuel t idle = .ok (some s) → idle = some s
      ∨ ∃ n < fuel, (k.thread ((k.behind head)^[n] t)).state = .ready
  | 0, t, idle, h => by cases h
  | fuel + 1, t, idle, h => by
    simp only [selectLoop, state_ready_iff] at h
    by_cases hready : (k.thread t).state = .ready
    · exact .inr ⟨0, fuel.succ_pos, hready⟩
    simp only [hready, false_and, if_false] at h
    split_ifs at h with hstart
    · rcases selectLoop_some h with hidle | ⟨n, hn, hs⟩
      · exact .inl hidle
      · exact .inr ⟨n + 1, Nat.succ_lt_succ hn, hs⟩
    · exact .inl (Except.ok.inj h)

theorem keptIdle_eq_none {idle : Option ℕ}
    (h : (if (k.thread t).state = .ready ∧ idle = none then some t else idle) = none) :
    idle = none ∧ (k.thread t).state ≠ .ready := by
  split_ifs at h with hkeep
  exact ⟨h, fun hready => hkeep ⟨hready, h⟩⟩

theorem selectLoop_none : ∀ {fuel t : ℕ} {idle : Option ℕ},
    k.selectLoop head start fuel t idle = .ok none → idle = none
      ∧ ∃ m, (k.behind head)^[m + 1] t = start
        ∧ ∀ n ≤ m, (k.thread ((k.behind head)^[n] t)).state ≠ .ready
  | 0, t, idle, h => by cases h
  | fuel + 1, t, idle, h => by
    simp only [selectLoop, state_ready_iff] at h
    by_cases hbusy : (k.thread t).state = .ready ∧ (k.thread t).priority ≠ .idle
    · rw [if_pos hbusy] at h
      cases h
    rw [if_neg hbusy] at h
    by_cases hstart : (k.thread t).next.getD head ≠ start
    · rw [if_pos hstart] at h
      obtain ⟨hkept, m, hm, hall⟩ := selectLoop_none h
      obtain ⟨hidle, hready⟩ := keptIdle_eq_none hkept
      refine ⟨hidle, m + 1, hm, fun n hn => ?_⟩
      cases n with
      | zero => exact hready
      | succ n => exact hall n (Nat.le_of_succ_le_succ hn)
    · rw [if_neg hstart] at h
      obtain ⟨hidle, hready⟩ := keptIdle_eq_none (Except.ok.inj h)
      refine ⟨hidle, 0, not_not.1 hstart, fun n hn => ?_⟩
      obtain rfl : n = 0 := Nat.le_zero.1 hn
      exact hready

end Loop

theorem not_ready_of_round {m : ℕ} (hm : (k.behind head)^[m + 1] t = t)
    (hall : ∀ n ≤ m, (k.thread ((k.behind head)^[n] t)).state ≠ .ready) (n : ℕ) :
    (k.thread ((k.behind head)^[n] t)).state ≠ .ready := by
  have hper : IsPeriodicPt (k.behind head) (m + 1) t := hm
  rw [← hper.iterate_mod_apply n]
  exact hall _ (Nat.lt_succ_iff.1 (Nat.mod_lt _ m.succ_pos))

theorem selectNextThread_ready {next : Option ℕ} {r : Kernel} (hhead : k.threadList = some head)
    (hcur : k.currentThread = some cur) (h : k.selectNextThread = .ok (next, r)) :
    (¬ k.OtherReady ∧ next = none ∧ r = k)
      ∨ k.OtherReady ∧ ∃ s, next = some s ∧ r = k.giveTime s := by
  rw [selectNextThread_of_current hhead hcur] at h
  obtain ⟨res, hloop, hres⟩ := map_eq_ok.1 h
  obtain ⟨rfl, rfl⟩ := Prod.mk.inj hres
  rw [otherReady_iff hhead hcur]
  cases res with
  | none =>
    obtain ⟨-, m, hm, hall⟩ := selectLoop_none hloop
    refine .inl ⟨?_, rfl, rfl⟩
    rintro ⟨n, -, hready⟩
    exact not_ready_of_round hm hall n hready
  | some s =>
    rcases selectLoop_some hloop with hidle | ⟨n, hn, hready⟩
    · cases hidle
    · exact .inr ⟨⟨n, Nat.lt_succ_iff.1 hn, hready⟩, s, rfl, rfl⟩

theorem cpuTimeFromThreadPriority_le (p : ThreadPriorityLevel) :
    cpuTimeFromThreadPriority p ≤ 60 := by
  cases p <;> decide

def SliceBounded (k : Kernel) : Prop :=
  ∀ t ∈ k.currentThread, (k.thread t).quantum ≤ 61

def Scheduling (k : Kernel) : Prop := k.threadList ≠ none ∧ k.currentThread ≠ none

theorem giveTime_slice (k : Kernel) (s : ℕ) : ((k.giveTime s).thread s).quantum ≤ 61 := by
  have h := cpuTimeFromThreadPriority_le (k.thread s).priority
  simp [giveTime, setThread]
  omega

theorem switchTo_slice (k : Kernel) (prev s : ℕ) : (k.switchTo prev s).SliceBounded := by
  have hcur : (k.switchTo prev s).currentThread = some s := by simp [switchTo, makeRunning]
  intro t ht
  obtain rfl : s = t := some.inj (hcur.symm.trans ht)
  simp only [switchTo, enterProcess_thread, makeRunning, setThread, update_self]
  exact (cpuTimeFromThreadPriority_le _).trans (Nat.le_succ 60)

theorem scheduleNext_slice (hk : k.Scheduling) (h : k.scheduleNext = .ok k') :
    k'.Scheduling ∧ ((¬ k.OtherReady ∧ k' = { k with needsResched := false })
      ∨ k.OtherReady ∧ k'.SliceBounded) := by
  obtain ⟨head, hhead⟩ := ne_none_iff_exists'.1 hk.1
  obtain ⟨cur, hcur⟩ := ne_none_iff_exists'.1 hk.2
  have hlist : k'.threadList ≠ none := (quiet_scheduleNext h).threadList ▸ hk.1
  simp only [scheduleNext, hhead] at h
  obtain ⟨⟨next, r⟩, hsel, h⟩ := bind_eq_ok.1 h
  rcases selectNextThread_ready hhead hcur hsel with ⟨hnone, rfl, rfl⟩ | ⟨hready, s, rfl, rfl⟩
  · cases h
    exact ⟨hk, .inl ⟨hnone, rfl⟩⟩
  simp only at h
  split_ifs at h with hsame
  · cases h
    refine ⟨⟨hlist, hk.2⟩, .inr ⟨hready, fun t ht => ?_⟩⟩
    obtain rfl : s = t := some.inj (hsame.symm.trans ht)
    exact giveTime_slice k s
  obtain ⟨prev, -, h⟩ := bind_eq_ok.1 h
  cases h
  refine ⟨⟨hlist, ?_⟩, .inr ⟨hready, switchTo_slice _ _ _⟩⟩
  simp [switchTo, makeRunning]

theorem pitCallback_current (hcur : k.currentThread = some cur) :
    ∃ quantum resched, quantum = ((k.thread cur).quantum + 2 ^ 32 - 1) % 2 ^ 32
      ∧ ((k.thread cur).quantum = 0 → resched = true)
      ∧ k.pitCallback = { k.setThread cur { k.thread cur with quantum := quantum } with
          needsResched := resched } := by
  refine ⟨_, _, rfl, fun hzero => ?_, by rw [pitCallback, hcur]⟩
  simp [hzero]

theorem otherReady_setQuantum (quantum : ℕ) (resched : Bool) :
    { k.setThread cur { k.thread cur with quantum := quantum } with
      needsResched := resched }.OtherReady ↔ k.OtherReady := by
  obtain ⟨r, hr⟩ : ∃ r, r = { k.setThread cur { k.thread cur with quantum := quantum } with
    needsResched := resched } := ⟨_, rfl⟩
  have hthread : ∀ t, (r.thread t).state = (k.thread t).state ∧ r.next t = k.next t := by
    intro t
    by_cases ht : t = cur
    · simp [hr, setThread, next, ht]
    · simp [hr, setThread, next, ht]
  have hbehind : r.behind = k.behind := by
    funext head t
    rw [behind, behind, (hthread t).2]
  have hlist : r.threadList = k.threadList := by rw [hr]; rfl
  have hcur : r.currentThread = k.currentThread := by rw [hr]; rfl
  have hthreads : r.threads = k.threads := by rw [hr]; rfl
  rw [← hr]
  simp only [OtherReady, hbehind, hlist, hcur, hthreads, (hthread _).1]

def RelievedOnTick (k : Kernel) : Prop :=
  ∀ t ∈ k.currentThread, (k.thread t).quantum = 0 → k.OtherReady

theorem tick_slice (hk : k.Scheduling) (hb : k.SliceBounded)
    (h : k.pitCallback.returnFromInterrupt = .ok k') :
    k'.Scheduling ∧ (k.RelievedOnTick ↔ k'.SliceBounded) := by
  obtain ⟨cur, hcur⟩ := ne_none_iff_exists'.1 hk.2
  have hle := hb cur hcur
  obtain ⟨quantum, resched, hq, hresched, htick⟩ := pitCallback_current hcur
  obtain ⟨r, hr⟩ : ∃ r, r = k.pitCallback := ⟨_, rfl⟩
  rw [htick] at hr
  have hrq : (r.thread cur).quantum = quantum := by simp [hr, setThread]
  have hrk : r.Scheduling := by rw [hr]; exact hk
  have hrcur : r.currentThread = some cur := by rw [hr]; exact hcur
  have hready : r.OtherReady ↔ k.OtherReady := by rw [hr]; exact otherReady_setQuantum _ _
  rw [htick, ← hr] at h
  unfold returnFromInterrupt at h
  by_cases hzero : (k.thread cur).quantum = 0
  · have hrelieved : k.RelievedOnTick ↔ k.OtherReady := by simp [RelievedOnTick, hcur, hzero]
    have hpending : r.needsResched = true := by rw [hr]; exact hresched hzero
    rw [if_pos hpending] at h
    obtain ⟨hk', ⟨hnone, rfl⟩ | ⟨hsome, hb'⟩⟩ := scheduleNext_slice hrk h
    · -- nobody is ready: the thread keeps the count that has wrapped around
      refine ⟨hk', iff_of_false (fun hrel => hnone (hready.2 (hrelieved.1 hrel))) fun hb' => ?_⟩
      have hwrap : (r.thread cur).quantum ≤ 61 := hb' cur hrcur
      omega
    · exact ⟨hk', iff_of_true (hrelieved.2 (hready.1 hsome)) hb'⟩
  · have hrelieved : k.RelievedOnTick := by simp [RelievedOnTick, hcur, hzero]
    have hrb : r.SliceBounded := by
      intro t ht
      obtain rfl : cur = t := some.inj (hrcur.symm.trans ht)
      omega
    split_ifs at h
    · obtain ⟨hk', ⟨-, rfl⟩ | ⟨-, hb'⟩⟩ := scheduleNext_slice hrk h
      · exact ⟨hk', iff_of_true hrelieved hrb⟩
      · exact ⟨hk', iff_of_true hrelieved hb'⟩
    · cases h
      exact ⟨hrk, iff_of_true hrelieved hrb⟩

theorem quantum_update {thread : ℕ → Thread} {x : Thread} (hx : x.quantum = (thread t).quantum)
    (s : ℕ) : (update thread t x s).quantum = (thread s).quantum := by
  by_cases hs : s = t
  · simp [hs, hx]
  · simp [hs]

theorem addThreadToScheduler_slice (h : k.addThreadToScheduler t = .ok k') :
    (∀ s, (k'.thread s).quantum = (k.thread s).quantum)
      ∧ (k.threadList = none ∧ k'.threadList = some t ∧ k'.currentThread = some t
        ∨ k.threadList ≠ none ∧ k'.threadList = k.threadList
          ∧ k'.currentThread = k.currentThread) := by
  cases hlist : k.threadList with
  | none =>
    simp only [addThreadToScheduler, setThread, hlist] at h
    cases h
    exact ⟨quantum_update (by rfl), .inl ⟨rfl, rfl, rfl⟩⟩
  | some head =>
    simp only [addThreadToScheduler, setThread, hlist] at h
    obtain ⟨last, -, h⟩ := bind_eq_ok.1 h
    cases h
    refine ⟨fun s => ?_, .inr ⟨by simp, rfl, rfl⟩⟩
    exact (quantum_update (by rfl) s).trans (quantum_update (by rfl) s)

theorem readyFrom_slice : ∀ {fuel : ℕ} {thr : Option ℕ} {k : Kernel},
    k.readyFrom fuel thr = .ok k' → k'.threadList = k.threadList
      ∧ k'.currentThread = k.currentThread
      ∧ ∀ t, (k.thread t).quantum ≤ 60 ∨ thr = some t → (k'.thread t).quantum ≤ 60
  | fuel, none, k, h => by
    simp only [readyFrom, Except.ok.injEq] at h
    subst h
    refine ⟨rfl, rfl, fun t ht => ?_⟩
    rcases ht with ht | ht
    · exact ht
    · cases ht
  | 0, some thr, k, h => by cases h
  | fuel + 1, some thr, k, h => by
    simp only [readyFrom] at h
    obtain ⟨hlist, hcur, hq⟩ := readyFrom_slice h
    refine ⟨hlist, hcur, fun t ht => hq t (.inl ?_)⟩
    by_cases hthr : t = thr
    · simp only [hthr, setThread, update_self]
      exact cpuTimeFromThreadPriority_le _
    simp only [setThread, update_of_ne hthr]
    rcases ht with ht | ht
    · exact ht
    · exact absurd (some.inj ht).symm hthr

/-- The scheduler starts: threads are added to an empty list, and `InitSchedulerState` is called. -/
def SliceStart (k : Kernel) : Prop :=
  ∃ (k₀ k₁ : Kernel) (ts : List ℕ), k₀.threadList = none
    ∧ ts.foldlM addThreadToScheduler k₀ = .ok k₁ ∧ k₁.initSchedulerState = .ok (.ok, k)

theorem foldlM_add_slice : ∀ {ts : List ℕ} {k : Kernel},
    k.threadList = none ∨ k.currentThread = k.threadList →
    ts.foldlM addThreadToScheduler k = .ok k' →
    k'.threadList = none ∨ k'.currentThread = k'.threadList
  | [], k, hk, h => by
    cases h
    exact hk
  | t :: ts, k, hk, h => by
    obtain ⟨r, hr, h⟩ := bind_eq_ok.1 h
    refine foldlM_add_slice ?_ h
    rcases (addThreadToScheduler_slice hr).2 with ⟨-, hlist, hcur⟩ | ⟨hne, hlist, hcur⟩
    · exact .inr (hcur.trans hlist.symm)
    · rw [hlist, hcur]
      exact hk

theorem SliceStart.bounded (h : k.SliceStart) : k.Scheduling ∧ k.SliceBounded := by
  obtain ⟨k0, k1, ts, hempty, hadd, hinit⟩ := h
  have hfirst := foldlM_add_slice (.inl hempty) hadd
  cases hlist : k1.threadList with
  | none =>
    simp only [initSchedulerState, hlist] at hinit
    cases hinit
  | some head =>
    simp only [initSchedulerState, hlist] at hinit
    obtain ⟨r, hr, hinit⟩ := bind_eq_ok.1 hinit
    obtain ⟨cur, hcur, hinit⟩ := bind_eq_ok.1 hinit
    cases hinit
    obtain ⟨hlist', hcur', hq⟩ := readyFrom_slice hr
    have hrcur : r.currentThread = some cur := nonNull_ok.1 hcur
    -- the first thread that was added is the head of the list and the current one
    have hhead : head = cur := by
      rw [hlist, ← hcur', hrcur] at hfirst
      rcases hfirst with hnone | hsome
      · cases hnone
      · exact (some.inj hsome).symm
    have hslice : (r.thread cur).quantum ≤ 60 := hq cur (.inr (by rw [hhead]))
    refine ⟨⟨?_, ?_⟩, fun t ht => ?_⟩
    · simp [setThread, hlist', hlist]
    · simp [setThread, hrcur]
    · obtain rfl : cur = t := some.inj (hrcur.symm.trans ht)
      simp only [setThread, update_self]
      omega

/-- The slice of the current thread is not used up, or there is a thread to take its place, at each
tick. -/
def TickRelieved (k : Kernel) (op : SliceOp) : Prop := op = .tick → k.RelievedOnTick

instance (k : Kernel) (op : SliceOp) : Decidable (k.TickRelieved op) := by
  unfold TickRelieved RelievedOnTick
  infer_instance

theorem sliceStep_bounded {op : SliceOp} (hk : k.Scheduling) (hb : k.SliceBounded)
    (h : sliceStep k op = some k') : k'.Scheduling ∧ (k.TickRelieved op ↔ k'.SliceBounded) := by
  have hother : op ≠ .tick → k.TickRelieved op := fun hne he => absurd he hne
  cases op with
  | tick =>
    obtain ⟨hk', hiff⟩ := tick_slice hk hb (toOption_eq_some.1 h)
    exact ⟨hk', by simpa [TickRelieved] using hiff⟩
  | scheduleNext =>
    obtain ⟨hk', ⟨-, rfl⟩ | ⟨-, hb'⟩⟩ := scheduleNext_slice hk (toOption_eq_some.1 h)
    · exact ⟨hk', iff_of_true (hother nofun) hb⟩
    · exact ⟨hk', iff_of_true (hother nofun) hb'⟩
  | blockThread t =>
    cases h
    refine ⟨hk, iff_of_true (hother nofun) fun s hs => ?_⟩
    exact (quantum_update (by rfl) s).trans_le (hb s hs)
  | wakeThread t =>
    cases h
    unfold wakeThread
    split_ifs
    · refine ⟨hk, iff_of_true (hother nofun) fun s hs => ?_⟩
      exact (quantum_update (by rfl) s).trans_le (hb s hs)
    · exact ⟨hk, iff_of_true (hother nofun) hb⟩
  | addThreadToScheduler t =>
    obtain ⟨hq, ⟨hnone, -⟩ | ⟨-, hlist, hcur⟩⟩ := addThreadToScheduler_slice (toOption_eq_some.1 h)
    · exact absurd hnone hk.1
    · refine ⟨⟨hlist ▸ hk.1, hcur ▸ hk.2⟩, iff_of_true (hother nofun) fun s hs => ?_⟩
      rw [hq]
      exact hb s (hcur ▸ hs)

end Kernel

/-- The current thread has at most 61 ticks left in every state of a run exactly when each tick that
finds its time used up also finds a thread to take its place. -/
theorem slices_bounded_iff {k k' : Kernel} {ops : List SliceOp} (hstart : k.SliceStart)
    (hrun : Run.exec sliceStep k ops = some k') :
    Run.Meets sliceStep TickRelieved k ops ↔
      ∀ pre post, ops = pre ++ post → ∀ r, Run.exec sliceStep k pre = some r →
        ∀ t, r.currentThread = some t → (r.thread t).quantum ≤ 61 := by
  obtain ⟨hk, hb⟩ := hstart.bounded
  refine Run.meets_iff_forall (fun r op r' hr hrb h => ?_) (fun r op r' hr hrb h => ?_) ops
    hk hb hrun
  · exact (sliceStep_bounded hr hrb h).1
  · exact (sliceStep_bounded hr hrb h).2

/-- Before the scheduler starts, with threads of one priority. -/
def beforeScheduling (priority : ThreadPriorityLevel) : Kernel :=
  { boot with thread := fun _ => ⟨.ready, priority, 0, none, none⟩, threads := 2 }

def scheduling (priority : ThreadPriorityLevel) (ts : List ℕ) : Option (Status × Kernel) :=
  (ts.foldlM addThreadToScheduler (beforeScheduling priority)).toOption.bind fun k =>
    k.initSchedulerState.toOption

theorem scheduling_sliceStart {priority : ThreadPriorityLevel} {ts : List ℕ} {k : Kernel}
    (h : scheduling priority ts = some (.ok, k)) : k.SliceStart := by
  obtain ⟨k1, hadd, hinit⟩ := bind_eq_some_iff.1 h
  exact ⟨_, k1, ts, rfl, toOption_eq_some.1 hadd, toOption_eq_some.1 hinit⟩

/-- The idle thread is alone. The tick after its 61 ticks finds no other thread to run. -/
theorem idle_slice_wraps :
    ∃ k k', k.SliceStart ∧ Run.exec sliceStep k (replicate 62 .tick) = some k'
      ∧ k'.currentThread = some 0 ∧ ¬ (k'.thread 0).quantum ≤ 61 := by
  have hrun : (scheduling .idle [0]).bind (fun r =>
      (Run.exec sliceStep r.2 (replicate 62 .tick)).map fun k' =>
        (r.1, k'.currentThread, (k'.thread 0).quantum)) = some (.ok, some 0, 2 ^ 32 - 1) := by
    decide +kernel
  obtain ⟨⟨st, k⟩, hstart, hrun⟩ := bind_eq_some_iff.1 hrun
  obtain ⟨k', hk', hlast⟩ := map_eq_some_iff.1 hrun
  simp only [Prod.mk.injEq] at hlast
  obtain ⟨rfl, hcur, hq⟩ := hlast
  exact ⟨k, k', scheduling_sliceStart hstart, hk', hcur, by omega⟩

theorem slices_bounded_two_threads :
    ∃ k k', k.SliceStart ∧ Run.exec sliceStep k (replicate 5 .tick) = some k'
      ∧ k'.currentThread = some 0 ∧ (k'.thread 0).quantum ≤ 61 := by
  have hrun : (scheduling .low [0, 1]).bind (fun r =>
      (Run.exec sliceStep r.2 (replicate 5 .tick)).map fun k' =>
        (r.1, decide (Run.Meets sliceStep TickRelieved r.2 (replicate 5 .tick)),
          k'.currentThread)) = some (.ok, true, some 0) := by
    decide +kernel
  obtain ⟨⟨st, k⟩, hstart, hrun⟩ := bind_eq_some_iff.1 hrun
  obtain ⟨k', hk', hlast⟩ := map_eq_some_iff.1 hrun
  simp only [Prod.mk.injEq, decide_eq_true_eq] at hlast
  obtain ⟨rfl, hmeets, hcur⟩ := hlast
  have hk := scheduling_sliceStart hstart
  have hbounded := (slices_bounded_iff hk hk').1 hmeets
  exact ⟨k, k', hk, hk', hcur, hbounded _ [] (append_nil _).symm k' hk' 0 hcur⟩

end DragonWare
