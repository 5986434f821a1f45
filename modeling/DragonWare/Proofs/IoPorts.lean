import DragonWare.Proofs.Syscall
import DragonWare.Lib.Run

/-!
# I/O port isolation

The bitmap grants the ports of the process whose address space is loaded (`IoInv`). A kernel thread
has no process, so a switch from one denies nothing (`Kernel.CleanSwitch`).
-/

namespace DragonWare

open Bitmap Fallible List

namespace Tss

theorem testBit_foldl_grantPort (port : BitVec 16) :
    ∀ (l : List (BitVec 16)) (tss : Tss),
      testBit (l.foldl grantPort tss).ioperm port.toNat
        = (testBit tss.ioperm port.toNat && !decide (port ∈ l))
  | [], tss => by simp
  | p :: l, tss => by
    rw [foldl_cons, testBit_foldl_grantPort port l, grantPort, testBit_clearBit (by decide)]
    simp [BitVec.toNat_inj, Bool.and_assoc]

theorem testBit_foldl_denyPort (port : BitVec 16) :
    ∀ (l : List (BitVec 16)) (tss : Tss),
      testBit (l.foldl denyPort tss).ioperm port.toNat
        = (testBit tss.ioperm port.toNat || decide (port ∈ l))
  | [], tss => by simp
  | p :: l, tss => by
    rw [foldl_cons, testBit_foldl_denyPort port l, denyPort, testBit_setBit (by decide)]
    simp [BitVec.toNat_inj, Bool.or_assoc]

theorem foldl_grantPort_iomapBase :
    ∀ (l : List (BitVec 16)) (tss : Tss), (l.foldl grantPort tss).iomapBase = tss.iomapBase
  | [], _ => rfl
  | p :: l, tss => foldl_grantPort_iomapBase l (tss.grantPort p)

theorem granted_eq_nil {p : Process} : granted p = [] ↔ p.portsUsed = 0 := by
  simp [granted]

structure Grants (tss : Tss) (l : List (BitVec 16)) : Prop where
  bit : ∀ port : BitVec 16, testBit tss.ioperm port.toNat = false ↔ port ∈ l
  active : l ≠ [] → tss.iomapBase = iopermOffset

variable {tss : Tss} {l : List (BitVec 16)} {p : Process}

theorem Grants.allows_iff (h : tss.Grants l) (port : BitVec 16) :
    tss.allows port = true ↔ port ∈ l := by
  simp only [allows, Bool.and_eq_true, decide_eq_true_eq, Bool.not_eq_true', h.bit]
  exact and_iff_right_of_imp fun hp => h.active (ne_nil_of_mem hp)

theorem Grants.enable (h : tss.Grants l) (hl : ∀ port ∈ l, port ∈ granted p) :
    (tss.enableIOPortsOfProcess p).Grants (granted p) := by
  unfold enableIOPortsOfProcess
  split_ifs with hp
  · rw [granted_eq_nil.2 hp] at hl ⊢
    refine ⟨fun port => (h.bit port).trans ⟨hl port, fun hm => by simp at hm⟩, fun hne => ?_⟩
    exact absurd rfl hne
  refine ⟨fun port => ?_, fun _ => foldl_grantPort_iomapBase _ _⟩
  have hbit := h.bit port
  rw [testBit_foldl_grantPort]
  by_cases hm : port ∈ granted p
  · simp [hm]
  · have : port ∉ l := fun h' => hm (hl port h')
    simp [hm, this] at hbit ⊢
    exact hbit

theorem Grants.disable (h : tss.Grants (granted p)) :
    (tss.disableIOPortsOfProcess p).Grants [] := by
  unfold disableIOPortsOfProcess
  split_ifs with hp
  · rw [granted_eq_nil.2 hp] at h
    exact ⟨h.bit, fun hne => absurd rfl hne⟩
  refine ⟨fun port => ?_, fun hne => absurd rfl hne⟩
  have hbit := h.bit port
  rw [testBit_foldl_denyPort]
  by_cases hm : port ∈ granted p
  · simp [hm]
  · simp [hm] at hbit ⊢
    exact hbit

end Tss

/-- What can happen to the permission bitmap, and to the threads that it is switched between. -/
inductive IoEvent
  | requestPorts (copy : Option (ℕ → BitVec 16)) (listSize : ℕ)
  | schedule
  | block (t : ℕ)
  | wake (t : ℕ)

namespace Kernel

def ioStep (k : Kernel) : IoEvent → Option Kernel
  | .requestPorts copy listSize => (k.event (.call (.requestPorts copy listSize))).toOption
  | .schedule => (k.event .timer).toOption
  | .block t => some (k.blockThread t)
  | .wake t => some (k.wakeThread t)

def loadedPorts (k : Kernel) : List (BitVec 16) :=
  match k.cr3 with
  | some q => Tss.granted (k.process q)
  | none => []

/-- While a thread of a process runs, user mode may use the ports in the list of the process and
no others. -/
def IoIsolated (k : Kernel) : Prop :=
  ∀ t q, k.currentThread = some t → (k.thread t).owner = some q →
    ∀ port, k.tss.allows port = true ↔ port ∈ Tss.granted (k.process q)

/-- Every port is denied, and the process that runs has its address space loaded and no ports. -/
structure IoStart (k : Kernel) : Prop where
  denied : ∀ n, k.tss.ioperm n = BitVec.allOnes 8
  loaded : k.loadedPorts = []
  current : ∀ t q, k.currentThread = some t → (k.thread t).owner = some q → k.cr3 = some q

/-- If a kernel thread runs and `SelectNextThread` gives another one, of process `q`, then `q` is
loaded, or nothing is granted to the process that is. -/
def CleanSwitch (k : Kernel) (e : IoEvent) : Prop :=
  match e with
  | .schedule => ∀ prev ∈ k.currentThread, (k.thread prev).owner = none →
      ∀ r ∈ k.selectNextThread.toOption, ∀ next ∈ r.1, next ≠ prev →
        ∀ q ∈ (k.thread next).owner, k.cr3 = some q ∨ k.loadedPorts = []
  | _ => True

instance (k : Kernel) : DecidablePred k.CleanSwitch := fun e => by
  unfold CleanSwitch
  split <;> infer_instance

/-- The bitmap grants the ports of the process that is loaded, which is the one that runs. -/
structure IoInv (k : Kernel) : Prop where
  grants : k.tss.Grants k.loadedPorts
  current : ∀ t q, k.currentThread = some t → (k.thread t).owner = some q → k.cr3 = some q

variable {k k' : Kernel} {prev : Option ℕ} {q : ℕ}

theorem IoStart.inv (h : k.IoStart) : k.IoInv := by
  refine ⟨⟨fun port => ?_, fun hne => absurd h.loaded hne⟩, h.current⟩
  have : testBit k.tss.ioperm port.toNat = true := by
    simp only [testBit, h.denied, BitVec.getLsbD_allOnes, decide_eq_true_eq]
    exact Nat.mod_lt _ (by decide)
  simp [this, h.loaded]

theorem IoInv.isolated (h : k.IoInv) : k.IoIsolated := by
  intro t q ht hq port
  rw [h.grants.allows_iff, loadedPorts, h.current t q ht hq]

theorem IoInv.congr (h : k.IoInv) (hs : SameStore k k') (hcur : k'.currentThread = k.currentThread)
    (htss : k'.tss = k.tss) (hcr3 : k'.cr3 = k.cr3) : k'.IoInv := by
  refine ⟨?_, fun t q ht hq => ?_⟩
  · rw [loadedPorts, htss, hcr3, hs.process]
    exact h.grants
  · rw [hs.owner] at hq
    rw [hcr3]
    exact h.current t q (hcur ▸ ht) hq

theorem IoInv.requestPorts (h : k.IoInv) {cur : ℕ} (hcur : k.currentThread = some cur)
    {copy : Option (ℕ → BitVec 16)} {listSize : ℕ} {st : Status}
    (hr : k.dwRequestPorts cur copy listSize = .ok (st, k')) : k'.IoInv := by
  obtain ⟨q, hq, hr⟩ := bind_eq_ok.1 hr
  have hcr3 : k.cr3 = some q := h.current cur q hcur (currProc_ok.1 hq).1
  have hgr := h.grants
  simp only [loadedPorts, hcr3] at hgr
  split_ifs at hr with h1 h2
  · cases hr
    exact h
  · cases hr
    exact h
  cases copy with
  | none =>
    cases hr
    exact h
  | some ports =>
    cases hr
    refine ⟨?_, fun t q' ht hq' => h.current t q' ht hq'⟩
    simp only [loadedPorts, setProcess, hcr3, Function.update_self]
    exact hgr.disable.enable (fun port hm => by simp at hm)

theorem grants_enterProcess (h : k.tss.Grants k.loadedPorts)
    (hprev : ∀ q', prev = some q' → k.cr3 = some q')
    (hclean : prev = none → k.cr3 = some q ∨ k.loadedPorts = []) :
    (k.enterProcess prev (some q)).tss.Grants (Tss.granted (k.process q)) := by
  simp only [enterProcess]
  split_ifs with hq
  · rwa [loadedPorts, hprev q hq] at h
  cases prev with
  | some q' =>
    rw [loadedPorts, hprev q' rfl] at h
    exact h.disable.enable fun port hm => by simp at hm
  | none =>
    refine h.enable fun port hm => ?_
    rcases hclean rfl with hl | hl
    · rwa [loadedPorts, hl] at hm
    · simp [hl] at hm

theorem enterProcess_cr3 (hprev : prev = some q → k.cr3 = some q) :
    (k.enterProcess prev (some q)).cr3 = some q := by
  simp only [enterProcess]
  split_ifs with hq
  · exact hprev hq
  · rfl

theorem IoInv.scheduleNext (h : k.IoInv) (hc : k.CleanSwitch .schedule)
    (hs : k.scheduleNext = .ok k') : k'.IoInv := by
  obtain ⟨hsame, -, ⟨hcur, htss, hcr3⟩
    | ⟨r, prev, next, hr, htss, hcr3, hprev, hne, ⟨s, hsel⟩, rfl⟩⟩ := scheduleNext_cases hs
  · exact h.congr hsame hcur htss hcr3
  have hcur : (r.switchTo prev next).currentThread = some next := by
    simp [switchTo, makeRunning]
  have hclean := fun q hq hp => hc prev hprev hp _ (toOption_eq_some.2 hsel) next rfl hne q hq
  rw [switchTo, hr.owner, hr.owner] at hsame hcur ⊢
  have hm := hr.trans (sameStore_makeRunning r prev next)
  -- the invariant still holds of the state in which the threads have changed their states
  have hl : (r.makeRunning prev next).loadedPorts = k.loadedPorts := by
    simp [loadedPorts, hcr3, hm.process]
  have hgr : (r.makeRunning prev next).tss.Grants (r.makeRunning prev next).loadedPorts := by
    rw [hl, makeRunning_tss, htss]
    exact h.grants
  have hown : ∀ q, (k.thread prev).owner = some q → (r.makeRunning prev next).cr3 = some q := by
    intro q hq
    rw [makeRunning_cr3, hcr3]
    exact h.current prev q hprev hq
  cases hn : (k.thread next).owner with
  | none =>
    rw [hn] at hsame hcur
    refine ⟨hgr, fun t q ht hq => ?_⟩
    cases hcur.symm.trans ht
    rw [hsame.owner, hn] at hq
    simp at hq
  | some q =>
    rw [hn] at hsame hcur
    have hcr3' := enterProcess_cr3 (hown q)
    refine ⟨?_, fun t q' ht hq' => ?_⟩
    · have := grants_enterProcess (q := q) hgr hown fun hp => by
        rw [makeRunning_cr3, hcr3, hl]
        exact hclean q hn hp
      rwa [loadedPorts, hcr3', hsame.process, ← hm.process]
    · cases hcur.symm.trans ht
      rw [hsame.owner, hn] at hq'
      cases hq'
      exact hcr3'

theorem IoInv.step (e : IoEvent) (h : k.IoInv) (hc : k.CleanSwitch e)
    (hs : k.ioStep e = some k') : k'.IoInv := by
  cases e with
  | requestPorts copy listSize =>
    rcases event_call_cases (toOption_eq_some.1 hs) with rfl | ⟨cur, hcur, -, hs⟩
    · exact h
    · obtain ⟨⟨st, r⟩, hr, rfl⟩ := map_eq_ok.1 hs
      exact h.requestPorts hcur hr
  | schedule => exact h.scheduleNext hc (toOption_eq_some.1 hs)
  | block t =>
    cases hs
    exact h.congr (sameStore_blockThread k t) rfl rfl rfl
  | wake t =>
    cases hs
    refine h.congr (sameStore_wakeThread k t) ?_ ?_ ?_ <;>
    · unfold wakeThread
      split_ifs <;> rfl

end Kernel

open Kernel

/-- In every run whose switches away from kernel threads are clean, the ports of a process are
granted exactly while it runs. -/
theorem ioPorts_isolated {k k' : Kernel} (h : k.IoStart) (es : List IoEvent)
    (hc : Run.Meets ioStep CleanSwitch k es) (hs : Run.exec ioStep k es = some k') :
    k'.IoIsolated :=
  (Run.exec_invariant (fun _ e _ hI hok => hI.step e hok) es h.inv hc hs).isolated

def portless (t pid : ℕ) : Process :=
  ⟨t, pid, ⟨fun _ => none, 0#32⟩, fun _ => 0#16, 0, procCIopl⟩

/-- Thread 0 of process 0 runs; thread 1 is a kernel thread and thread 2 is of process 1. -/
def threeThreads : Kernel := { boot with
  thread := fun
    | 0 => ⟨.running, .medium, 12, some 0, some 1⟩
    | 1 => ⟨.ready, .medium, 12, none, some 2⟩
    | _ => ⟨.ready, .medium, 12, some 1, none⟩
  process := fun
    | 0 => portless 0 1
    | _ => portless 2 2
  live := ⟨fun q => q < 2, fun _ => false, fun _ => false⟩
  threads := 3
  processes := 2
  processList := [0, 1]
  processIdCounter := 3
  threadList := some 0
  currentThread := some 0
  cr3 := some 0 }

theorem threeThreads_start : threeThreads.IoStart := by
  refine ⟨fun _ => rfl, by simp [loadedPorts, threeThreads, portless, Tss.granted], ?_⟩
  intro t q ht hq
  cases ht
  cases hq
  rfl

/-- Process 0 is granted port 0x60, and the kernel thread runs before process 1 asks for port
0x70. -/
def throughKernelThread : List IoEvent :=
  [.requestPorts (some fun _ => 0x60#16) 1, .schedule, .schedule,
    .requestPorts (some fun _ => 0x70#16) 1]

/-- Process 1 then has port 0x60 as well. -/
theorem ioPorts_leak_through_kernel_thread :
    ∃ k k', k.IoStart ∧ Run.exec ioStep k throughKernelThread = some k' ∧ ¬ k'.IoIsolated := by
  have hrun : ((Run.exec ioStep threeThreads throughKernelThread).map fun k =>
      (k.currentThread, (k.thread 2).owner, k.tss.allows 0x60#16, Tss.granted (k.process 1)))
      = some (some 2, some 1, true, [0x70#16]) := by decide +kernel
  obtain ⟨k', hk', hrun⟩ := Option.map_eq_some_iff.1 hrun
  simp only [Prod.mk.injEq] at hrun
  obtain ⟨hcur, hown, hallows, hgranted⟩ := hrun
  refine ⟨threeThreads, k', threeThreads_start, hk', fun h => ?_⟩
  have := (h 2 1 hcur hown 0x60#16).1 hallows
  rw [hgranted] at this
  simp at this

theorem ioPorts_isolated_back_to_same_process :
    ∃ k k', k.IoStart ∧ Run.exec ioStep k [.requestPorts (some fun _ => 0x60#16) 1, .block 2,
        .schedule, .schedule] = some k' ∧ k'.currentThread = some 0 ∧ k'.IoIsolated := by
  have hrun : ((Run.exec ioStep threeThreads [.requestPorts (some fun _ => 0x60#16) 1, .block 2,
      .schedule, .schedule]).map fun k => k.currentThread) = some (some 0) := by decide +kernel
  obtain ⟨k', hk', hcur⟩ := Option.map_eq_some_iff.1 hrun
  exact ⟨threeThreads, k', threeThreads_start, hk', hcur,
    ioPorts_isolated threeThreads_start _ (by decide +kernel) hk'⟩

end DragonWare
