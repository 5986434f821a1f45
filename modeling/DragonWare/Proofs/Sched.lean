import DragonWare.Sched
import DragonWare.Lib.Fallible

/-!
# What the scheduler can change

Processes, objects and ports stay as they are, and no thread changes hands (`SameStore`).
-/

namespace DragonWare

open Fallible

namespace Kernel

structure SameStore (k k' : Kernel) : Prop where
  process : k'.process = k.process
  object : k'.object = k.object
  port : k'.port = k.port
  live : k'.live = k.live
  threads : k'.threads = k.threads
  processes : k'.processes = k.processes
  objects : k'.objects = k.objects
  ports : k'.ports = k.ports
  processList : k'.processList = k.processList
  portList : k'.portList = k.portList
  inReceive : k'.inReceive = k.inReceive
  owner : ∀ t, (k'.thread t).owner = (k.thread t).owner

variable {k k' k'' : Kernel} {t : ℕ} {thread : ℕ → Thread} {x : Thread}

theorem SameStore.refl (k : Kernel) : SameStore k k :=
  ⟨rfl, rfl, rfl, rfl, rfl, rfl, rfl, rfl, rfl, rfl, rfl, fun _ => rfl⟩

theorem SameStore.trans (h : SameStore k k') (h' : SameStore k' k'') : SameStore k k'' :=
  ⟨h'.process.trans h.process, h'.object.trans h.object, h'.port.trans h.port,
    h'.live.trans h.live, h'.threads.trans h.threads, h'.processes.trans h.processes,
    h'.objects.trans h.objects, h'.ports.trans h.ports, h'.processList.trans h.processList,
    h'.portList.trans h.portList, h'.inReceive.trans h.inReceive,
    fun t => (h'.owner t).trans (h.owner t)⟩

theorem sameStore_of_owner {list cur cr3 : Option ℕ} {resched : Bool} {tss : Tss}
    (h : ∀ t, (thread t).owner = (k.thread t).owner) :
    SameStore k { k with
      thread := thread
      threadList := list
      currentThread := cur
      needsResched := resched
      tss := tss
      cr3 := cr3 } :=
  ⟨rfl, rfl, rfl, rfl, rfl, rfl, rfl, rfl, rfl, rfl, rfl, h⟩

theorem owner_update (hx : x.owner = (thread t).owner)
    (s : ℕ) : (Function.update thread t x s).owner = (thread s).owner := by
  by_cases hs : s = t
  · subst hs
    simp [hx]
  · simp [hs]

theorem sameStore_setThread (hx : x.owner = (k.thread t).owner) : SameStore k (k.setThread t x) :=
  sameStore_of_owner (owner_update hx)

theorem sameStore_blockThread (k : Kernel) (t : ℕ) : SameStore k (k.blockThread t) :=
  sameStore_of_owner (owner_update rfl)

theorem sameStore_wakeThread (k : Kernel) (t : ℕ) : SameStore k (k.wakeThread t) := by
  unfold wakeThread
  split_ifs
  · exact sameStore_of_owner (owner_update rfl)
  · exact .refl k

theorem selectLoop_ready {head start : ℕ} :
    ∀ {fuel t : ℕ} {idle r : Option ℕ}, k.selectLoop head start fuel t idle = .ok r →
      (∀ s, idle = some s → (k.thread s).state = .ready) →
      ∀ s, r = some s → (k.thread s).state = .ready
  | 0, t, idle, r, h, _, s, hs => by simp [selectLoop] at h
  | fuel + 1, t, idle, r, h, hi, s, hs => by
    have hready : ∀ st : ThreadState, st ≠ .blocked ∧ st ≠ .terminated ∧ st ≠ .running →
        st = .ready := by
      intro st
      cases st <;> simp
    simp only [selectLoop] at h
    split_ifs at h with h1 h2 h3 h3
    · cases h
      cases hs
      exact hready _ h1.1
    · refine selectLoop_ready h (fun s' hs' => ?_) s hs
      cases hs'
      exact hready _ h3.1
    · exact selectLoop_ready h hi s hs
    · cases h
      cases hs
      exact hready _ h3.1
    · cases h
      exact hi s hs

theorem selectNextThread_cases {next : Option ℕ} (h : k.selectNextThread = .ok (next, k')) :
    SameStore k k' ∧ k'.tss = k.tss ∧ k'.cr3 = k.cr3
      ∧ (∀ t, (k'.thread t).state = (k.thread t).state)
      ∧ (∀ t, next = some t → (k.thread t).state = .ready)
      ∧ (k.currentThread ≠ none → k'.currentThread = k.currentThread) := by
  unfold selectNextThread at h
  split at h
  · simp only [Except.ok.injEq, Prod.mk.injEq] at h
    obtain ⟨rfl, rfl⟩ := h
    exact ⟨.refl k, rfl, rfl, fun _ => rfl, fun t ht => by simp at ht, fun _ => rfl⟩
  rename_i head _
  obtain ⟨r, hr, h⟩ := bind_eq_ok.1 h
  have hcur : k.currentThread ≠ none → some (k.currentThread.getD head) = k.currentThread := by
    cases k.currentThread <;> simp
  have hsel := selectLoop_ready hr (fun s hs => by simp at hs)
  cases r with
  | none =>
    simp only [pure_eq, Except.ok.injEq, Prod.mk.injEq] at h
    obtain ⟨rfl, rfl⟩ := h
    exact ⟨sameStore_of_owner fun _ => rfl, rfl, rfl, fun _ => rfl, fun t ht => by simp at ht,
      hcur⟩
  | some t =>
    simp only [pure_eq, Except.ok.injEq, Prod.mk.injEq] at h
    obtain ⟨rfl, rfl⟩ := h
    refine ⟨?_, rfl, rfl, fun s => ?_, fun s hs => ?_, hcur⟩
    · exact sameStore_of_owner (owner_update rfl)
    · by_cases hs : s = t
      · subst hs
        simp [setThread]
      · simp [setThread, hs]
    · cases hs
      exact hsel t rfl

theorem sameStore_makeRunning (k : Kernel) (prev next : ℕ) :
    SameStore k (k.makeRunning prev next) := by
  unfold makeRunning
  split_ifs
  · have hprev : SameStore k (k.setThread prev { k.thread prev with state := .ready }) :=
      sameStore_setThread rfl
    exact hprev.trans (sameStore_of_owner (owner_update rfl))
  · exact sameStore_of_owner (owner_update rfl)

@[simp]
theorem makeRunning_tss (k : Kernel) (prev next : ℕ) : (k.makeRunning prev next).tss = k.tss := by
  unfold makeRunning
  split_ifs <;> rfl

@[simp]
theorem makeRunning_cr3 (k : Kernel) (prev next : ℕ) : (k.makeRunning prev next).cr3 = k.cr3 := by
  unfold makeRunning
  split_ifs <;> rfl

theorem makeRunning_blocked {prev next : ℕ} (hn : (k.thread next).state = .ready) (t : ℕ) :
    ((k.makeRunning prev next).thread t).state = .blocked ↔ (k.thread t).state = .blocked := by
  unfold makeRunning
  by_cases ht : t = next
  · simp [ht, setThread, hn]
  by_cases htp : t = prev
  · subst htp
    split_ifs with hr <;> simp [setThread, ht, hr]
  · split_ifs <;> simp [setThread, ht, htp]

theorem sameStore_enterProcess (k : Kernel) (prev next : Option ℕ) :
    SameStore k (k.enterProcess prev next) := by
  unfold enterProcess
  split
  · exact .refl k
  · split_ifs
    · exact .refl k
    · exact sameStore_of_owner fun _ => rfl

@[simp]
theorem enterProcess_thread (k : Kernel) (prev next : Option ℕ) :
    (k.enterProcess prev next).thread = k.thread := by
  unfold enterProcess
  split
  · rfl
  · split_ifs <;> rfl

@[simp]
theorem enterProcess_currentThread (k : Kernel) (prev next : Option ℕ) :
    (k.enterProcess prev next).currentThread = k.currentThread := by
  unfold enterProcess
  split
  · rfl
  · split_ifs <;> rfl

/-- How `ScheduleNext` ends: the list is empty; nothing is selected; the thread that runs is
selected; or it switches from `prev` to `s`. -/
theorem scheduleNext_split (h : k.scheduleNext = .ok k') :
    k' = k ∨ ∃ next r, k.selectNextThread = .ok (next, r)
      ∧ ((next = none ∧ k' = { r with needsResched := false, currentThread := k.currentThread })
        ∨ (∃ s, next = some s ∧ k.currentThread = some s ∧ k' = { r with needsResched := false })
        ∨ ∃ s prev, next = some s ∧ k.currentThread = some prev ∧ s ≠ prev
          ∧ k' = { r with needsResched := false }.switchTo prev s) := by
  unfold scheduleNext at h
  split at h
  · cases h
    exact .inl rfl
  obtain ⟨⟨next, r⟩, hsel, h⟩ := bind_eq_ok.1 h
  refine .inr ⟨next, r, hsel, ?_⟩
  cases next with
  | none =>
    cases h
    exact .inl ⟨rfl, rfl⟩
  | some s =>
    simp only at h
    split_ifs at h with hc
    · cases h
      exact .inr (.inl ⟨s, rfl, hc, rfl⟩)
    obtain ⟨prev, hprev, h⟩ := bind_eq_ok.1 h
    cases h
    cases hp : k.currentThread with
    | none => simp [hp, nonNull] at hprev
    | some p =>
      simp only [hp, nonNull, Except.ok.injEq] at hprev
      subst hprev
      refine .inr (.inr ⟨s, p, rfl, rfl, ?_, rfl⟩)
      rintro rfl
      exact hc hp

/-- What a call of `ScheduleNext` does. When it switches, `r` is the state it switches in: only
time slices have changed. -/
theorem scheduleNext_cases (h : k.scheduleNext = .ok k') :
    SameStore k k' ∧ (∀ t, (k'.thread t).state = .blocked ↔ (k.thread t).state = .blocked)
      ∧ ((k'.currentThread = k.currentThread ∧ k'.tss = k.tss ∧ k'.cr3 = k.cr3)
        ∨ ∃ r prev next, SameStore k r ∧ r.tss = k.tss ∧ r.cr3 = k.cr3
          ∧ k.currentThread = some prev ∧ next ≠ prev
          ∧ (∃ s, k.selectNextThread = .ok (some next, s)) ∧ k' = r.switchTo prev next) := by
  rcases scheduleNext_split h with rfl | ⟨next, r, hsel, hk⟩
  · exact ⟨.refl _, fun _ => Iff.rfl, .inl ⟨rfl, rfl, rfl⟩⟩
  obtain ⟨hsame, htss, hcr3, hstate, hready, hcur⟩ := selectNextThread_cases hsel
  have hsame' : SameStore k { r with needsResched := false } :=
    hsame.trans (sameStore_of_owner fun _ => rfl)
  rcases hk with ⟨-, rfl⟩ | ⟨s, -, hs, rfl⟩ | ⟨s, prev, rfl, hprev, hne, rfl⟩
  · exact ⟨hsame.trans (sameStore_of_owner fun _ => rfl), fun t => by simp [hstate],
      .inl ⟨rfl, htss, hcr3⟩⟩
  · exact ⟨hsame', fun t => by simp [hstate], .inl ⟨hcur (by simp [hs]), htss, hcr3⟩⟩
  · refine ⟨hsame'.trans ((sameStore_makeRunning _ _ _).trans (sameStore_enterProcess _ _ _)),
      fun t => ?_, .inr ⟨_, prev, s, hsame', htss, hcr3, hprev, hne, ⟨_, hsel⟩, rfl⟩⟩
    simp only [switchTo, enterProcess_thread]
    rw [makeRunning_blocked (by simpa [hstate] using hready s rfl)]
    simp [hstate]

theorem sameStore_addThreadToScheduler (h : k.addThreadToScheduler t = .ok k') :
    SameStore k k' := by
  have hset : SameStore k (k.setThread t { k.thread t with state := .ready, next := none }) :=
    sameStore_setThread rfl
  simp only [addThreadToScheduler] at h
  split at h
  · cases h
    exact hset.trans (sameStore_of_owner fun _ => rfl)
  · obtain ⟨last, -, h⟩ := bind_eq_ok.1 h
    cases h
    exact hset.trans (sameStore_setThread rfl)

theorem sameStore_removeThreadFromScheduler {st : Status}
    (h : k.removeThreadFromScheduler t = .ok (st, k')) : SameStore k k' := by
  unfold removeThreadFromScheduler at h
  split at h
  · cases h
    exact .refl k
  split_ifs at h
  · cases h
    exact sameStore_of_owner fun _ => rfl
  obtain ⟨before, -, h⟩ := bind_eq_ok.1 h
  cases before with
  | none =>
    cases h
    exact .refl k
  | some iter =>
    cases h
    exact sameStore_setThread rfl

theorem deleteThread_cases (h : k.deleteThread t = .ok k') :
    (k.currentThread = some t ∧ k' = k.setThread t { k.thread t with state := .terminated })
    ∨ (k.currentThread ≠ some t ∧ ∃ st, (k.setThread t { k.thread t with
        state := .terminated }).removeThreadFromScheduler t = .ok (st, k')) := by
  simp only [deleteThread] at h
  split_ifs at h with hcur
  · cases h
    exact .inl ⟨hcur, rfl⟩
  · obtain ⟨⟨st, r⟩, hr, h⟩ := bind_eq_ok.1 h
    cases h
    exact .inr ⟨hcur, st, hr⟩

theorem sameStore_deleteThread (h : k.deleteThread t = .ok k') : SameStore k k' := by
  have hset : SameStore k (k.setThread t { k.thread t with state := .terminated }) :=
    sameStore_setThread rfl
  rcases deleteThread_cases h with ⟨-, rfl⟩ | ⟨-, st, hr⟩
  · exact hset
  · exact hset.trans (sameStore_removeThreadFromScheduler hr)

end Kernel

end DragonWare
