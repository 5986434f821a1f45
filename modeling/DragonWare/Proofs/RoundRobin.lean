import DragonWare.Proofs.ThreadList

/-!
# The thread that is next

`SelectNextThread` takes the first thread in cyclic order that is ready, idle ones last
(`selectNextThread_roundRobin`), so calls of `ScheduleNext` go round (`InTurn.step`).
-/

namespace DragonWare

open Fallible LinkedList List Option

namespace Kernel

def ReadyBusy (k : Kernel) (t : ℕ) : Prop :=
  (k.thread t).state = .ready ∧ (k.thread t).priority ≠ .idle

def ReadyIdle (k : Kernel) (t : ℕ) : Prop :=
  (k.thread t).state = .ready ∧ (k.thread t).priority = .idle

instance (k : Kernel) : DecidablePred k.ReadyBusy := fun _ => inferInstanceAs (Decidable (_ ∧ _))

instance (k : Kernel) : DecidablePred k.ReadyIdle := fun _ => inferInstanceAs (Decidable (_ ∧ _))

def firstReady (k : Kernel) (order : List ℕ) : Option ℕ :=
  (order.find? fun t => k.ReadyBusy t).or (order.find? fun t => k.ReadyIdle t)

variable {k k' : Kernel} {l : List ℕ} {cur : ℕ}

theorem firstReady_eq_none {order : List ℕ} :
    k.firstReady order = none ↔ ∀ t ∈ order, (k.thread t).state ≠ .ready := by
  simp only [firstReady, or_eq_none_iff, find?_eq_none, decide_eq_true_eq]
  constructor
  · rintro ⟨hbusy, hidle⟩ t ht hready
    by_cases hp : (k.thread t).priority = .idle
    · exact hidle t ht ⟨hready, hp⟩
    · exact hbusy t ht ⟨hready, hp⟩
  · intro h
    exact ⟨fun t ht hr => h t ht hr.1, fun t ht hr => h t ht hr.1⟩

theorem state_ready_iff (st : ThreadState) :
    (st ≠ .blocked ∧ st ≠ .terminated ∧ st ≠ .running) ↔ st = .ready := by
  cases st <;> simp

theorem keepIdle_or {t : ℕ} (hbusy : ¬ k.ReadyBusy t) (idle : Option ℕ) (rest : List ℕ) :
    Option.or (if (k.thread t).state = .ready ∧ idle = none then some t else idle)
        (rest.find? fun t => k.ReadyIdle t)
      = idle.or ((t :: rest).find? fun t => k.ReadyIdle t) := by
  cases idle with
  | some i => simp
  | none =>
    by_cases hready : (k.thread t).state = .ready
    · have hp : (k.thread t).priority = .idle := not_not.1 fun hp => hbusy ⟨hready, hp⟩
      have hidle : k.ReadyIdle t := ⟨hready, hp⟩
      rw [find?_cons_of_pos (by simpa using hidle)]
      simp [hready]
    · have hidle : ¬ k.ReadyIdle t := fun h => hready h.1
      rw [find?_cons_of_neg (by simpa using hidle)]
      simp [hready]

theorem selectLoop_eq {head start : ℕ} : ∀ {rest : List ℕ} {t fuel : ℕ} {idle : Option ℕ},
    Path (fun a => (k.next a).getD head) (t :: rest) start → start ∉ rest →
    rest.length < fuel → k.selectLoop head start fuel t idle
      = .ok (((t :: rest).find? fun t => k.ReadyBusy t).or
        (idle.or ((t :: rest).find? fun t => k.ReadyIdle t)))
  | rest, t, 0, idle, _, _, hf => absurd hf (Nat.not_lt_zero _)
  | rest, t, fuel + 1, idle, hpath, hstart, hf => by
    simp only [selectLoop, state_ready_iff]
    by_cases hbusy : (k.thread t).state = .ready ∧ (k.thread t).priority ≠ .idle
    · have hfound : k.ReadyBusy t := hbusy
      rw [if_pos hbusy, find?_cons_of_pos (by simpa using hfound)]
      rfl
    have hnot : ¬ k.ReadyBusy t := hbusy
    rw [if_neg hbusy, find?_cons_of_neg (by simpa using hnot), ← keepIdle_or hnot]
    cases rest with
    | nil =>
      have hlast : (k.thread t).next.getD head = start := hpath
      rw [if_neg (not_not.2 hlast)]
      simp
    | cons u rest =>
      have hnext : (k.thread t).next.getD head = u := hpath.1
      have hne : u ≠ start := by
        rintro rfl
        exact hstart mem_cons_self
      rw [hnext, if_pos hne]
      exact selectLoop_eq hpath.tail (fun h => hstart (mem_cons_of_mem _ h))
        (Nat.lt_of_succ_lt_succ hf)

def giveTime (k : Kernel) (t : ℕ) : Kernel :=
  k.setThread t { k.thread t with quantum := cpuTimeFromThreadPriority (k.thread t).priority }

theorem selectNextThread_of_current {head : ℕ} (hhead : k.threadList = some head)
    (hcur : k.currentThread = some cur) :
    k.selectNextThread = (k.selectLoop head ((k.next cur).getD head) (k.threads + 1)
      ((k.next cur).getD head) none).map fun next => (next, next.elim k k.giveTime) := by
  obtain ⟨loop, hloop⟩ : ∃ loop, loop = k.selectLoop head ((k.next cur).getD head) (k.threads + 1)
      ((k.next cur).getD head) none := ⟨_, rfl⟩
  have hselect : k.selectNextThread = loop >>= fun next =>
      next.elim (.ok (none, k)) fun t => .ok (some t, k.giveTime t) := by
    cases k
    cases hhead
    cases hcur
    rw [hloop]
    refine bind_congr fun next => ?_
    cases next <;> rfl
  rw [hselect, ← hloop]
  rcases loop with e | _ | t <;> rfl

theorem selectNextThread_eq (hl : k.Lists l) (hcur : k.currentThread = some cur) (hmem : cur ∈ l) :
    k.selectNextThread = .ok (k.firstReady (after l cur),
      (k.firstReady (after l cur)).elim k k.giveTime) := by
  rcases hhead : k.threadList with _ | head
  · have hnil : l = [] := hl.walk.unique hhead
    rw [hnil] at hmem
    cases hmem
  obtain ⟨start, rest, hafter, hstart, hpath⟩ := (hhead ▸ hl.walk).path_after hl.nodup hmem
  have hperm := after_perm l cur
  rw [hafter] at hperm
  have hnot : start ∉ rest := (nodup_cons.1 (hperm.nodup_iff.2 hl.nodup)).1
  have hlen : rest.length < k.threads + 1 := by
    have h1 : rest.length + 1 = l.length := hperm.length_eq
    have h2 := hl.length_le
    omega
  rw [selectNextThread_of_current hhead hcur, hstart, selectLoop_eq hpath hnot hlen,
    none_or, ← hafter]
  rfl

theorem selectNextThread_roundRobin {k : Kernel} {l : List ℕ} {cur : ℕ} (hl : k.Lists l)
    (hcur : k.currentThread = some cur) (hmem : cur ∈ l) :
    ∃ next k', k.selectNextThread = .ok (next, k')
      ∧ next = ((after l cur).find? fun t => k.ReadyBusy t).or
        ((after l cur).find? fun t => k.ReadyIdle t)
      ∧ (next = none ↔ ∀ t ∈ l, (k.thread t).state ≠ .ready) := by
  refine ⟨_, _, selectNextThread_eq hl hcur hmem, rfl, ?_⟩
  rw [firstReady_eq_none]
  exact ⟨fun h t ht => h t ((after_perm l cur).mem_iff.2 ht),
    fun h t ht => h t ((after_perm l cur).mem_iff.1 ht)⟩

def threeThreads : Kernel := { boot with
  thread := fun t => match t with
    | 0 => ⟨.ready, .idle, 60, none, some 1⟩
    | 1 => ⟨.running, .medium, 12, none, some 2⟩
    | _ => ⟨.ready, .medium, 12, none, none⟩
  threads := 3
  threadList := some 0
  currentThread := some 1 }

theorem lists_threeThreads : threeThreads.Lists [0, 1, 2] :=
  ⟨⟨rfl, rfl, rfl, rfl⟩, by decide, by decide⟩

theorem selectNextThread_roundRobin_three :
    ∃ k', threeThreads.selectNextThread = .ok (some 2, k') := by
  obtain ⟨next, k', hsel, hnext, -⟩ :=
    selectNextThread_roundRobin lists_threeThreads (rfl : _ = some 1) (by decide)
  have htwo : next = some 2 := hnext.trans (by decide)
  exact ⟨k', htwo ▸ hsel⟩

/-! ### Going round -/

def Runnable (k : Kernel) (t : ℕ) : Prop :=
  ((k.thread t).state = .ready ∨ (k.thread t).state = .running) ∧ (k.thread t).priority ≠ .idle

instance (k : Kernel) : DecidablePred k.Runnable := fun _ => inferInstanceAs (Decidable (_ ∧ _))

/-- The current thread is on the list and is the only one of it that runs. -/
structure InTurn (k : Kernel) (l : List ℕ) (cur : ℕ) : Prop where
  lists : k.Lists l
  current : k.currentThread = some cur
  mem : cur ∈ l
  running : (k.thread cur).state = .running
  busy : (k.thread cur).priority ≠ .idle
  alone : ∀ t ∈ l, (k.thread t).state = .running → t = cur

def rotation (k : Kernel) (l : List ℕ) (cur : ℕ) : List ℕ :=
  (after l cur).filter fun t => k.Runnable t

def switched (k : Kernel) (cur t : ℕ) : Kernel :=
  { k.giveTime t with needsResched := false }.switchTo cur t

variable {t : ℕ} {R : List ℕ}

theorem scheduleNext_eq (hl : k.Lists l) (hcur : k.currentThread = some cur) (hmem : cur ∈ l)
    (hfirst : k.firstReady (after l cur) = some t) (hne : t ≠ cur) :
    k.scheduleNext = .ok (k.switched cur t) := by
  rcases hhead : k.threadList with _ | head
  · have hnil : l = [] := hl.walk.unique hhead
    rw [hnil] at hmem
    cases hmem
  have hsel := selectNextThread_eq hl hcur hmem
  rw [hfirst] at hsel
  have hdiff : k.currentThread ≠ some t := by
    rw [hcur]
    exact fun h => hne (some.inj h).symm
  have hprev : nonNull k.currentThread = .ok cur := by rw [hcur]; rfl
  unfold scheduleNext
  rw [hhead, hsel]
  change (if k.currentThread = some t then _ else nonNull k.currentThread >>= _) = _
  rw [if_neg hdiff, hprev]
  rfl

theorem giveTime_thread (k : Kernel) (t s : ℕ) :
    ((k.giveTime t).thread s).state = (k.thread s).state
      ∧ ((k.giveTime t).thread s).priority = (k.thread s).priority := by
  by_cases hs : s = t
  · subst hs
    simp [giveTime, setThread]
  · simp [giveTime, setThread, hs]

theorem switched_state (s : ℕ) : ((k.switched cur t).thread s).state
    = if s = t then .running
      else if s = cur ∧ (k.thread cur).state = .running then .ready else (k.thread s).state := by
  have htime := fun s => (giveTime_thread k t s).1
  simp only [switched, switchTo, enterProcess_thread, makeRunning, htime]
  by_cases hs : s = t
  · simp [setThread, hs]
  by_cases hrun : (k.thread cur).state = .running
  · by_cases hc : s = cur
    · subst hc
      simp [setThread, hs, hrun]
    · simp [setThread, hs, hrun, hc, htime]
  · simp [setThread, hs, hrun, htime]

theorem switched_priority (s : ℕ) :
    ((k.switched cur t).thread s).priority = (k.thread s).priority := by
  have htime := fun s => (giveTime_thread k t s).2
  simp only [switched, switchTo, enterProcess_thread, makeRunning]
  by_cases hs : s = t
  · subst hs
    by_cases hc : s = cur
    · subst hc
      split_ifs <;> simp [setThread, htime]
    · split_ifs <;> simp [setThread, hc, htime]
  · by_cases hc : s = cur
    · subst hc
      split_ifs <;> simp [setThread, hs, htime]
    · split_ifs <;> simp [setThread, hs, hc, htime]

theorem switched_currentThread : (k.switched cur t).currentThread = some t := by
  simp only [switched, switchTo, enterProcess_currentThread, makeRunning]

theorem quiet_switched (k : Kernel) (cur t : ℕ) : Quiet k (k.switched cur t) := by
  have htime : Quiet k { k.giveTime t with needsResched := false } :=
    quiet_of_next (next_update rfl)
  exact htime.trans ((quiet_makeRunning _ _ _).trans (quiet_enterProcess _ _ _))

section

variable (h : k.InTurn l cur)

include h

theorem InTurn.runnable_switched (ht : k.Runnable t) (s : ℕ) :
    (k.switched cur t).Runnable s ↔ k.Runnable s := by
  unfold Runnable
  rw [switched_state, switched_priority]
  split_ifs with hs hs'
  · subst hs
    exact ⟨fun _ => ht, fun h => ⟨.inr rfl, h.2⟩⟩
  · obtain ⟨rfl, hrun⟩ := hs'
    simp [hrun]
  · rfl

theorem InTurn.firstReady_eq (hR : k.rotation l cur = t :: R)
    (hne : t ≠ cur) : k.firstReady (after l cur) = some t := by
  obtain ⟨l1, l2, hafter, hl1, ht, -⟩ := filter_eq_cons_iff.1 hR
  have hmem : t ∈ l := (after_perm l cur).mem_iff.1 (by rw [hafter]; simp)
  have hbusy : k.ReadyBusy t := by
    have hrun := of_decide_eq_true ht
    exact ⟨hrun.1.resolve_right fun hr => hne (h.alone t hmem hr), hrun.2⟩
  have hfind : (after l cur).find? (fun t => k.ReadyBusy t) = some t := by
    rw [hafter, find?_append, find?_eq_none.2 fun s hs => ?_, none_or,
      find?_cons_of_pos (by simpa using hbusy)]
    have hno := hl1 s hs
    simp only [decide_eq_true_eq] at hno ⊢
    exact fun hb => hno ⟨.inl hb.1, hb.2⟩
  rw [firstReady, hfind]
  rfl

theorem InTurn.rotation_eq : ∃ R, k.rotation l cur = R ++ [cur] := by
  obtain ⟨r, r', rfl⟩ := append_of_mem h.mem
  have hnot : cur ∉ r := fun hm =>
    (nodup_append.1 h.lists.nodup).2.2 cur hm cur mem_cons_self rfl
  have hrun : k.Runnable cur := ⟨.inr h.running, h.busy⟩
  refine ⟨(r' ++ r).filter fun t => k.Runnable t, ?_⟩
  rw [rotation, after_append hnot, ← append_assoc, filter_append,
    filter_cons_of_pos (by simpa using hrun), filter_nil]

theorem InTurn.rotation_nodup : (k.rotation l cur).Nodup :=
  ((after_perm l cur).nodup_iff.2 h.lists.nodup).filter _

theorem InTurn.step (hR : k.rotation l cur = t :: R)
    (hne : R ≠ []) : ∃ k', k.scheduleNext = .ok k' ∧ k'.InTurn l t
      ∧ k'.rotation l t = R ++ [t] := by
  obtain ⟨l1, l2, hafter, hl1, ht, hl2⟩ := filter_eq_cons_iff.1 hR
  have hrun : k.Runnable t := of_decide_eq_true ht
  have hmem : t ∈ l := (after_perm l cur).mem_iff.1 (by rw [hafter]; simp)
  have hdiff : t ≠ cur := by
    rintro rfl
    obtain ⟨R', hR'⟩ := h.rotation_eq
    have hnd := h.rotation_nodup
    rw [hR] at hR' hnd
    cases R' with
    | nil => exact hne (cons.inj hR').2
    | cons s R' =>
      have htail : R = R' ++ [t] := (cons.inj hR').2
      exact (nodup_cons.1 hnd).1 (by rw [htail]; simp)
  refine ⟨k.switched cur t,
    scheduleNext_eq h.lists h.current h.mem (h.firstReady_eq hR hdiff) hdiff,
    ⟨h.lists.quiet (quiet_switched k cur t), ?_, hmem, ?_, ?_, fun s hs hsrun => ?_⟩, ?_⟩
  · exact switched_currentThread
  · rw [switched_state, if_pos rfl]
  · rw [switched_priority]
    exact hrun.2
  · by_contra hst
    rw [switched_state, if_neg hst] at hsrun
    split_ifs at hsrun with hcur
    exact hcur ⟨h.alone s hs hsrun, h.running⟩
  · have hfilter : ∀ m : List ℕ, (m.filter fun s => (k.switched cur t).Runnable s)
        = m.filter fun s => k.Runnable s := fun m =>
      filter_congr fun s _ => decide_eq_decide.2 (h.runnable_switched hrun s)
    have hnil : (l1.filter fun s => k.Runnable s) = [] := by
      rw [filter_eq_nil_iff]
      exact hl1
    rw [rotation, hfilter, after_of_after h.lists.nodup hafter, filter_append,
      filter_append, hnil, hl2, nil_append]
    simp [hrun]

end

def turns : ℕ → Kernel → Except Fault (List (Option ℕ))
  | 0, _ => .ok []
  | n + 1, k => do
    let k ← k.scheduleNext
    let rest ← turns n k
    return k.currentThread :: rest

theorem InTurn.turns_eq : ∀ {n : ℕ} {k : Kernel} {cur : ℕ}, k.InTurn l cur →
    2 ≤ (k.rotation l cur).length → n ≤ (k.rotation l cur).length →
    k.turns n = .ok (((k.rotation l cur).take n).map some)
  | 0, k, cur, _, _, _ => rfl
  | n + 1, k, cur, h, htwo, hn => by
    rcases hR : k.rotation l cur with _ | ⟨t, R⟩
    · rw [hR] at htwo
      simp at htwo
    rw [hR, length_cons] at htwo hn
    have hne : R ≠ [] := by
      rintro rfl
      simp at htwo
    obtain ⟨k', hk', h', hR'⟩ := h.step hR hne
    have hlen : (k'.rotation l t).length = R.length + 1 := by rw [hR']; simp
    have ih := InTurn.turns_eq (n := n) h' (by omega) (by omega)
    rw [hR', take_append_of_le_length (by omega)] at ih
    unfold turns
    rw [hk']
    change (turns n k' >>= _) = _
    rw [ih, take_succ_cons, map_cons, ← h'.current]
    rfl

end Kernel

theorem scheduleNext_takes_turns {k : Kernel} {l : List ℕ} {cur : ℕ} (hl : k.Lists l)
    (hcur : k.currentThread = some cur) (hmem : cur ∈ l)
    (hrunning : ∀ t ∈ l, (k.thread t).state = .running ↔ t = cur)
    (hbusy : (k.thread cur).priority ≠ .idle) (htwo : 2 ≤ (l.filter fun t => k.Runnable t).length) :
    ∃ order : List ℕ, order = (after l cur).filter (fun t => k.Runnable t)
      ∧ order.Perm (l.filter fun t => k.Runnable t) ∧ order.Nodup
      ∧ k.turns (l.filter fun t => k.Runnable t).length = .ok (order.map some)
      ∧ ∀ t ∈ order, (k.thread t).priority ≠ .idle := by
  have h : k.InTurn l cur := ⟨hl, hcur, hmem, (hrunning cur hmem).2 rfl, hbusy,
    fun t ht hrun => (hrunning t ht).1 hrun⟩
  have hperm : (k.rotation l cur).Perm (l.filter fun t => k.Runnable t) :=
    (after_perm l cur).filter _
  rw [← hperm.length_eq] at htwo ⊢
  refine ⟨k.rotation l cur, rfl, hperm, h.rotation_nodup, ?_, fun t ht => ?_⟩
  · rw [h.turns_eq htwo le_rfl, take_length]
  · exact (of_decide_eq_true (mem_filter.1 ht).2 : k.Runnable t).2

open Kernel in
theorem scheduleNext_takes_turns_three : Kernel.threeThreads.turns 2 = .ok [some 2, some 1] := by
  obtain ⟨order, horder, -, -, hturns, -⟩ := scheduleNext_takes_turns lists_threeThreads
    (rfl : _ = some 1) (by decide) (by decide) (by decide) (by decide)
  have htwo : order = [2, 1] := horder.trans (by decide)
  rw [htwo] at hturns
  exact hturns

end DragonWare
