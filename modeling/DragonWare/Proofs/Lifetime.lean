import DragonWare.Proofs.Deletion
import DragonWare.Proofs.Wakeup

/-!
# Lifetime of ports

A port is reached through handles, through the list and by the threads that sleep on it. While the
last handle to an object is the last user of its port, and a process that exits owns no port that
others use (`Kernel.FreesUnused`), what can be reached is alive (`LifeInv`).
-/

namespace DragonWare

open Fallible List
open Function (update update_of_ne update_self)

namespace Kernel

variable {cur i o p q : ℕ} {handle : ℤ} {st : Status}

def Holds (k : Kernel) (o : ℕ) : Prop :=
  ∃ q < k.processes, k.live.process q = true
    ∧ ∃ i < maxObjPerProcess, (k.process q).handles.objlist i = some o

def Leads (k : Kernel) (p : ℕ) : Prop :=
  ∃ q < k.processes, k.live.process q = true ∧ ∃ i < maxObjPerProcess,
    ∃ o ∈ (k.process q).handles.objlist i, k.live.object o = true ∧ (k.object o).type = .port
      ∧ (k.object o).data = some p

structure SamePorts (k k' : Kernel) : Prop where
  owner : ∀ p, (k'.port p).owner = (k.port p).owner
  port : k'.live.port = k.live.port
  process : k'.live.process = k.live.process
  thread : ∀ t, (k'.thread t).owner = (k.thread t).owner
  threads : k'.threads = k.threads
  portList : k'.portList = k.portList
  inReceive : k'.inReceive = k.inReceive

structure Owned (k : Kernel) (p : ℕ) : Prop where
  live : k.live.port p = true
  thread_lt : ∀ t, (k.port p).owner = some t → t < k.threads
  process : ∀ t q, (k.port p).owner = some t → (k.thread t).owner = some q →
    k.live.process q = true

/-- Every port that a handle or the list leads to is alive with the process that owns it, and every
port that a thread sleeps on is alive. -/
structure LifeInv (k : Kernel) : Prop extends Base k where
  reach : ∀ p, k.Leads p ∨ p ∈ k.portList → k.Owned p
  wait : ∀ t p, k.inReceive t = some p → k.live.port p = true ∧ t < k.threads

variable {k k' r : Kernel} {a : Rights} {x : Port} {table : HandleTable}

theorem SamePorts.refl (k : Kernel) : SamePorts k k :=
  ⟨fun _ => rfl, rfl, rfl, fun _ => rfl, rfl, rfl, rfl⟩

theorem SameStore.samePorts (h : SameStore k k') : SamePorts k k' :=
  ⟨fun _ => by rw [h.port], by rw [h.live], by rw [h.live], h.owner, h.threads, h.portList,
    h.inReceive⟩

theorem SamePorts.owned (h : SamePorts k k') (hp : k.Owned p) : k'.Owned p := by
  refine ⟨?_, fun t ht => ?_, fun t q ht hq => ?_⟩
  · rw [h.port]
    exact hp.live
  · rw [h.threads]
    exact hp.thread_lt t ((h.owner p).symm.trans ht)
  · rw [h.process]
    exact hp.process t q ((h.owner p).symm.trans ht) ((h.thread t).symm.trans hq)

theorem LifeInv.lead (h : k.LifeInv) (hp : k.Leads p) : k.Owned p := h.reach p (.inl hp)

theorem LifeInv.of_leads (h : k.LifeInv) (hb : k'.Base) (hs : SamePorts k k')
    (hl : ∀ p, k'.Leads p → k.Owned p) : k'.LifeInv := by
  refine ⟨hb, fun p hp => hs.owned ?_, fun t p hp => ?_⟩
  · exact hp.elim (hl p) fun hp => h.reach p (.inr (hs.portList ▸ hp))
  · rw [hs.port, hs.threads]
    exact h.wait t p (hs.inReceive ▸ hp)

/-! ### Steps that free nothing -/

section

variable (h : k.LifeInv)

include h

theorem LifeInv.sameStore (hs : SameStore k k') : k'.LifeInv := by
  refine h.of_leads (h.toBase.sameStore hs) hs.samePorts fun p hp => h.lead ?_
  simpa only [Leads, hs.process, hs.live, hs.object, hs.processes] using hp

theorem LifeInv.running (t : ℕ) : { k with currentThread := some t }.LifeInv :=
  h.sameStore (sameStore_of_owner fun _ => rfl)

theorem LifeInv.setPort (hx : x.owner = (k.port p).owner) : (k.setPort p x).LifeInv := by
  refine h.of_leads (h.toBase.setPort hx) { SamePorts.refl k with owner := fun p' => ?_ }
    fun _ => h.lead
  by_cases hp : p' = p
  · simp [hp, Kernel.setPort, hx]
  · simp [hp, Kernel.setPort]

theorem LifeInv.setHandles (hb : (k.setHandles q table).Base)
    (ht : ∀ i < maxObjPerProcess, ∀ o,
      table.objlist i = some o → k.Holds o ∨ (k.object o).data = none) :
    (k.setHandles q table).LifeInv := by
  refine h.of_leads hb { SamePorts.refl k with } fun p hp => h.lead ?_
  obtain ⟨q', hlt, hlive, i, hi, o, ho, hobj⟩ := hp
  by_cases hq : q' = q
  · subst hq
    rw [setHandles_process] at ho
    rcases ht i hi o ho with ⟨q'', hlt', hlive', i', hi', ho'⟩ | hnone
    · exact ⟨q'', hlt', hlive', i', hi', o, ho', hobj⟩
    · have hdata : (k.object o).data = some p := hobj.2.2
      simp [hnone] at hdata
  · rw [setHandles_process_ne k hq] at ho
    exact ⟨q', hlt, hlive, i, hi, o, ho, hobj⟩

theorem LifeInv.setObject {x : Object} (hb : (k.setObject o x).Base)
    (htype : x.type = (k.object o).type)
    (hx : x.type = .port → ∀ p, x.data = some p → (k.object o).data = some p ∨ k.Owned p) :
    (k.setObject o x).LifeInv := by
  refine h.of_leads hb { SamePorts.refl k with } fun p hp => ?_
  obtain ⟨q, hlt, hlive, i, hi, o', ho', hobj, hport, hdata⟩ := hp
  by_cases heq : o' = o
  · subst heq
    simp only [Kernel.setObject, update_self] at hport hdata
    rcases hx hport p hdata with hd | hd
    · exact h.lead ⟨q, hlt, hlive, i, hi, o', ho', hobj, htype ▸ hport, hd⟩
    · exact hd
  · simp only [Kernel.setObject, update_of_ne heq] at hport hdata
    exact h.lead ⟨q, hlt, hlive, i, hi, o', ho', hobj, hport, hdata⟩

theorem LifeInv.allocateObject (name : Option (List (BitVec 8)))
    (type : ObjectType) : (k.allocateObject name type).2.LifeInv := by
  refine h.of_leads (h.toBase.allocateObject name type) { SamePorts.refl k with }
    fun p hp => h.lead ?_
  obtain ⟨q, hlt, hlive, i, hi, o, ho, hobj, hport, hdata⟩ := hp
  by_cases heq : o = k.objects
  · simp [Kernel.allocateObject, heq] at hdata
  · simp only [Kernel.allocateObject, update_of_ne heq] at hobj hport hdata
    exact ⟨q, hlt, hlive, i, hi, o, ho, hobj, hport, hdata⟩

theorem LifeInv.holds (hq : k.live.process q = true) (hi : i < maxObjPerProcess)
    (hslot : (k.process q).handles.objlist i = some o) : k.Holds o :=
  ⟨q, h.process_lt q hq, hq, i, hi, hslot⟩

theorem LifeInv.append (hq : k.live.process q = true) (ho : k.Holds o ∨ (k.object o).data = none)
    (happend : (k.process q).handles.appendToHandleTable o = some (i, table)) :
    (k.setHandles q table).LifeInv := by
  obtain ⟨-, -, hobj, -⟩ := HandleTable.appendToHandleTable_some happend
  refine h.setHandles (h.toBase.append happend) fun j hj o' ho' => ?_
  rw [hobj] at ho'
  by_cases hji : j = i
  · rw [hji, update_self, Option.some.injEq] at ho'
    exact ho' ▸ ho
  · rw [update_of_ne hji] at ho'
    exact .inl (h.holds hq hj ho')

theorem LifeInv.delete (hq : k.live.process q = true) (i : ℕ) :
    (k.setHandles q ((k.process q).handles.deleteFromHandleTable i).2).LifeInv := by
  refine h.setHandles (h.toBase.delete q i) fun j hj o ho => .inl ?_
  simp only [HandleTable.deleteFromHandleTable] at ho
  by_cases hji : j = i
  · simp [hji] at ho
  · rw [update_of_ne hji] at ho
    exact h.holds hq hj ho

theorem LifeInv.newThread (q : ℕ) : (k.allocateUserThread (some q)).2.LifeInv := by
  refine ⟨h.toBase.allocateUserThread _, fun p hp => ?_, fun t p hp => ?_⟩
  · have hp := h.reach p hp
    refine ⟨hp.live, fun t ht => (hp.thread_lt t ht).trans (Nat.lt_succ_self _),
      fun t q' ht hq' => hp.process t q' ht ?_⟩
    have hne : t ≠ k.threads := (hp.thread_lt t ht).ne
    simpa [allocateUserThread, hne] using hq'
  · exact ⟨(h.wait t p hp).1, (h.wait t p hp).2.trans (Nat.lt_succ_self _)⟩

end

theorem Base.served (h : k.Base) (hp : k.Served p) : k.Owned p := by
  obtain ⟨hlive, t, q, ht, hq, hl⟩ := hp
  refine ⟨hlive, fun t' ht' => ?_, fun t' q' ht' hq' => ?_⟩
  · cases ht.symm.trans ht'
    exact h.thread_lt t q hq
  · cases ht.symm.trans ht'
    cases hq.symm.trans hq'
    exact hl

theorem LifeInv.newPort (h : k.LifeInv) {live : Bool} {l : List ℕ} (hb : k'.Base)
    (hl : l = k.portList ∨ l = k.ports :: k.portList ∧ live = true ∧ ∃ t q, x.owner = some t
      ∧ (k.thread t).owner = some q ∧ k.live.process q = true)
    (hk : k' = { k with
      port := update k.port k.ports x
      live := { k.live with port := update k.live.port k.ports live }
      ports := k.ports + 1
      portList := l }) : k'.LifeInv := by
  have howned : ∀ p, k.Owned p → k'.Owned p := by
    intro p hp
    have hne : p ≠ k.ports := (h.port_lt p hp.live).ne
    have hport : k'.port p = k.port p := by simp [hk, hne]
    subst hk
    refine ⟨?_, fun t ht => hp.thread_lt t (hport ▸ ht), fun t q ht => hp.process t q (hport ▸ ht)⟩
    simp [hne, hp.live]
  subst hk
  refine ⟨hb, fun p hp => ?_, fun t p hp => ⟨?_, (h.wait t p hp).2⟩⟩
  · rcases hp with hp | hp
    · exact howned p (h.lead hp)
    rcases hl with rfl | ⟨rfl, rfl, t, q, ht, hq, hlive⟩
    · exact howned p (h.reach p (.inr hp))
    · rcases mem_cons.1 hp with rfl | hp
      · exact hb.served ⟨by simp, t, q, by simp [ht], hq, hlive⟩
      · exact howned p (h.reach p (.inr hp))
  · have hlive := (h.wait t p hp).1
    simp [(h.port_lt p hlive).ne, hlive]

theorem LifeInv.newProcess (h : k.LifeInv) (hc : k.createProcess = .ok (q, k')) : k'.LifeInv := by
  have hb := h.toBase.createProcess hc
  obtain ⟨r, hr, rfl⟩ := createProcess_cases hc
  have hthread := h.newThread k.processes
  have hmid : k.withProcess.LifeInv := by
    refine ⟨h.toBase.withProcess, fun p hp => ?_, hthread.wait⟩
    have ho := hthread.reach p <| hp.imp_left fun ⟨q', _, hlive, i, hi, o, ho, hobj⟩ => by
      by_cases heq : q' = k.processes
      · simp [withProcess, heq] at ho
      have hlive' : k.live.process q' = true := by
        simpa [withProcess, heq] using hlive
      have hprocess : k.withProcess.process q' = k.process q' := by
        simp [withProcess, heq]
      rw [hprocess] at ho
      exact ⟨q', h.process_lt q' hlive', hlive', i, hi, o, ho, hobj⟩
    exact ⟨ho.live, ho.thread_lt,
      fun t q' ht hq' => (withProcess_live k q').2 (.inr (ho.process t q' ht hq'))⟩
  have hend := hmid.sameStore hr
  exact ⟨hb, fun p hp => { hend.reach p hp with }, hend.wait⟩

theorem LifeInv.setWait (h : k.LifeInv) {t : ℕ} {v : Option ℕ}
    (hv : ∀ p, v = some p → k.live.port p = true ∧ t < k.threads) :
    { k with inReceive := update k.inReceive t v }.LifeInv := by
  refine { h with reach := fun p hp => { h.reach p hp with }, wait := fun t' p hp => ?_ }
  by_cases heq : t' = t
  · simp only [heq, update_self] at hp ⊢
    exact hv p hp
  · simp only [update_of_ne heq] at hp
    exact h.wait t' p hp

theorem LifeInv.change (h : k.LifeInv) (hc : Change a k k') : k'.LifeInv := by
  have hb := h.toBase.change hc
  cases hc with
  | port hx => exact h.setPort hx
  | object htype hdata => exact h.setObject hb htype fun _ p hp => .inl (hdata ▸ hp)
  | bind _ hp =>
    refine h.setObject hb rfl fun _ p' hp' => .inr ?_
    cases hp'
    exact hp.elim (fun hp => h.reach _ (.inr hp)) h.served
  | stand htype _ =>
    refine h.setObject hb rfl fun hport => ?_
    cases htype.symm.trans hport
  | newObject _ name type => exact h.allocateObject name type
  | newSlot _ hq ho happend => exact h.append hq (.inr ho) happend
  | append hq hq' hj hslot happend =>
    exact h.append hq (.inl (h.holds (hq'.elim id (h.listed _)) hj hslot)) happend
  | delete _ hq => exact h.delete hq _
  | @process q x tss hx =>
    refine h.of_leads hb { SamePorts.refl k with } fun p hp => h.lead ?_
    obtain ⟨q', hlt, hlive, i, hi, o, ho, hobj⟩ := hp
    refine ⟨q', hlt, hlive, i, hi, o, ?_, hobj⟩
    by_cases heq : q' = q
    · simpa [heq, setProcess, hx] using ho
    · simpa [heq, setProcess] using ho
  | newThread => exact h.newThread _
  | newPort hl => exact h.newPort hb hl rfl
  | take t => exact h.setWait (v := none) fun p hp => by simp at hp
  | @sleep t p _ hp ht =>
    refine (h.sameStore (sameStore_blockThread k t)).setWait (v := some p) fun p' hp' => ?_
    cases hp'
    rcases ht with ⟨q, hq⟩ | ⟨p', hin⟩
    · exact ⟨hp, h.thread_lt t q hq⟩
    · exact ⟨hp, (h.wait t p' hin).2⟩
  | wake => exact h.sameStore (sameStore_wakeThread k _)
  | run _ hrun => exact h.sameStore (sameStore_addThreadToScheduler hrun)
  | schedule hs => exact h.sameStore (scheduleNext_cases hs).1

/-! ### Steps that free -/

def Unused (k : Kernel) (p : ℕ) : Prop := ¬ k.Leads p ∧ ∀ t < k.threads, k.inReceive t ≠ some p

/-- No port that a handle or the list leads to is owned by a thread of the process. -/
def OwnsNone (k : Kernel) (q : ℕ) : Prop :=
  ∀ p < k.ports, k.Leads p ∨ p ∈ k.portList →
    ∀ t ∈ (k.port p).owner, (k.thread t).owner ≠ some q

/-- The ports that were freed are unused, and the processes that were freed own none. -/
def UnusedFreed (k k' : Kernel) : Prop :=
  (∀ p < k.ports, k.live.port p = true → k'.live.port p = false → k'.Unused p)
  ∧ ∀ q < k.processes, k.live.process q = true → k'.live.process q = false → k'.OwnsNone q

theorem Shrinks.leads (hs : Shrinks k k') (hp : k'.Leads p) : k.Leads p := by
  obtain ⟨q, hlt, hlive, i, hi, o, ho, hobj, hport, hdata⟩ := hp
  exact ⟨q, hs.processes ▸ hlt, hs.process_live q hlive, i, hi, o, hs.slot q i o ho,
    hs.object_live o hobj, (hs.type o).symm.trans hport, (hs.data o).symm.trans hdata⟩

theorem LifeInv.shrink (h : k.LifeInv) (hb : k'.Base) (hs : Shrinks k k')
    (hf : k.UnusedFreed k') : k'.LifeInv := by
  refine ⟨hb, fun p hp => ?_, fun t p hp => ?_⟩
  · -- what is still reachable was owned before, and neither it nor its owner has been freed
    have ho : k.Owned p := h.reach p (hp.imp hs.leads (hs.portList p))
    have hlive : k'.live.port p = true := by
      rcases hp with hp | hp
      · by_contra hdead
        exact (hf.1 p (h.port_lt p ho.live) ho.live (by simpa using hdead)).1 hp
      · exact (hb.list p hp).1
    refine ⟨hlive, fun t ht => ?_, fun t q ht hq => ?_⟩
    · rw [hs.threads]
      exact ho.thread_lt t (hs.port ▸ ht)
    · by_contra hdead
      have hq' := ho.process t q (hs.port ▸ ht) ((hs.thread t).symm.trans hq)
      exact hf.2 q (h.process_lt q hq') hq' (by simpa using hdead) p (hb.port_lt p hlive) hp t ht hq
  · obtain ⟨hlive, hlt⟩ := h.wait t p (hs.inReceive ▸ hp)
    have hlt' : t < k'.threads := hs.threads ▸ hlt
    refine ⟨?_, hlt'⟩
    by_contra hdead
    exact (hf.1 p (h.port_lt p hlive) hlive (by simpa using hdead)).2 t hlt' hp

/-- A handle of a live process leads to the port, those that `skip` names apart. -/
def LeadsBesides (k : Kernel) (skip : ℕ → ℕ → Bool) (p : ℕ) : Prop :=
  ∃ q < k.processes, k.live.process q = true ∧ ∃ i < maxObjPerProcess,
    ∃ o ∈ (k.process q).handles.objlist i, skip q o = false ∧ k.live.object o = true
      ∧ (k.object o).type = .port ∧ (k.object o).data = some p

instance (k : Kernel) (skip : ℕ → ℕ → Bool) (p : ℕ) : Decidable (k.LeadsBesides skip p) := by
  unfold LeadsBesides
  infer_instance

/-- The listed port of object `o` is used through no other handle, and no thread sleeps on it. -/
def LastUser (k : Kernel) (skip : ℕ → ℕ → Bool) (o : ℕ) : Prop :=
  (k.object o).type = .port → ∀ p ∈ (k.object o).data, p ∈ k.portList →
    ¬ k.LeadsBesides skip p ∧ ∀ t < k.threads, k.inReceive t ≠ some p

instance (k : Kernel) (skip : ℕ → ℕ → Bool) (o : ℕ) : Decidable (k.LastUser skip o) := by
  unfold LastUser
  infer_instance

def TakesAlong (k : Kernel) (q p : ℕ) : Prop :=
  ∃ i < maxObjPerProcess, ∃ o ∈ (k.process q).handles.objlist i,
    (k.object o).type = .port ∧ (k.object o).data = some p ∧ (k.object o).refcnt ≤ 1

instance (k : Kernel) (q p : ℕ) : Decidable (k.TakesAlong q p) := by
  unfold TakesAlong
  infer_instance

/-- A port that a thread of process `q` has created is used by no other process, and if it is listed
it goes with the process. -/
def OwnsAlone (k : Kernel) (q : ℕ) : Prop :=
  ∀ p < k.ports, ∀ t ∈ (k.port p).owner, (k.thread t).owner = some q →
    ¬ k.LeadsBesides (fun q' _ => q' = q) p ∧ (p ∈ k.portList → k.TakesAlong q p)

instance (k : Kernel) (q : ℕ) : Decidable (k.OwnsAlone q) := by
  unfold OwnsAlone
  infer_instance

/-- An object whose count says that this is its last handle is, when the handle is deleted or its
process exits, the last one to its port. A process that exits owns no port that others use. -/
def FreesUnused (k : Kernel) (e : ℕ × Event) : Prop :=
  match e.2 with
  | .call (.deleteObject handle) => ∀ o ∈ k.objectOfHandle e.1 handle,
    (k.object o).refcnt ≤ 1 → k.LastUser (fun _ o' => o' = o) o
  | .call .exit => ∀ q ∈ (k.thread e.1).owner,
    (∀ i < maxObjPerProcess, ∀ o ∈ (k.process q).handles.objlist i,
      (k.object o).refcnt ≤ k.slotCount q (range maxObjPerProcess) o →
        k.LastUser (fun q' _ => q' = q) o)
    ∧ k.OwnsAlone q
  | _ => True

instance (k : Kernel) (e : ℕ × Event) : Decidable (k.FreesUnused e) := by
  unfold FreesUnused
  split <;> infer_instance

theorem Shrinks.leadsBesides {skip : ℕ → ℕ → Bool} (hs : Shrinks k k')
    (hskip : ∀ q o, skip q o = true → k'.live.process q = false ∨ k'.live.object o = false)
    (hp : k'.Leads p) : k.LeadsBesides skip p := by
  obtain ⟨q, hlt, hlive, i, hi, o, ho, hobj, hport, hdata⟩ := hp
  refine ⟨q, hs.processes ▸ hlt, hs.process_live q hlive, i, hi, o, hs.slot q i o ho, ?_,
    hs.object_live o hobj, (hs.type o).symm.trans hport, (hs.data o).symm.trans hdata⟩
  by_contra hne
  rcases hskip q o (by simpa using hne) with hdead | hdead
  · simp [hlive] at hdead
  · simp [hobj] at hdead

theorem LastUser.unused {skip : ℕ → ℕ → Bool} (h : k.LastUser skip o) (hs : Shrinks k k')
    (hskip : ∀ q o, skip q o = true → k'.live.process q = false ∨ k'.live.object o = false)
    (htype : (k.object o).type = .port) (hdata : (k.object o).data = some p)
    (hp : p ∈ k.portList) : k'.Unused p := by
  obtain ⟨hlead, hwait⟩ := h htype p hdata hp
  refine ⟨fun hl => hlead (hs.leadsBesides hskip hl), fun t ht => ?_⟩
  rw [hs.inReceive]
  exact hwait t (hs.threads ▸ ht)

theorem unusedFreed_delete
    (hlast : ∀ o ∈ k.objectOfHandle cur handle, (k.object o).refcnt ≤ 1 →
      k.LastUser (fun _ o' => o' = o) o)
    (hd : k.dwDeleteObject cur handle = .ok k') : Shrinks k k' ∧ k.UnusedFreed k' := by
  rcases dropsObject_dwDeleteObject hd with ⟨rfl, -⟩ | ⟨q, o, ho, -, hdrop, -⟩
  · exact ⟨.refl _, fun p _ hp hd => by simp [hp] at hd, fun q _ hq hd => by simp [hq] at hd⟩
  refine ⟨hdrop.toShrinks, fun p _ hp hdead => ?_, fun q' _ hq' hdead => ?_⟩
  · obtain ⟨hmem, hone, htype, hdata⟩ := hdrop.freed p hp hdead
    refine (hlast o ho hone).unused hdrop.toShrinks (fun q' o' ho' => .inr ?_) htype hdata hmem
    rw [of_decide_eq_true ho']
    exact hdrop.gone hone
  · rw [hdrop.process, hq'] at hdead
    cases hdead

theorem LifeInv.unusedFreed_exit (h : k.LifeInv)
    (hlast : ∀ q ∈ (k.thread cur).owner, (∀ i < maxObjPerProcess,
      ∀ o ∈ (k.process q).handles.objlist i,
        (k.object o).refcnt ≤ k.slotCount q (range maxObjPerProcess) o →
          k.LastUser (fun q' _ => q' = q) o) ∧ k.OwnsAlone q)
    (hx : k.dwExit cur = .ok k') : Shrinks k k' ∧ k.UnusedFreed k' := by
  cases hq : (k.thread cur).owner with
  | none =>
    have hs : SameStore k k' := by
      rcases dwExit_cases hx with ⟨-, hs⟩ | ⟨q, -, -, hq', -⟩
      · exact hs
      · simp [hq] at hq'
    exact ⟨hs.shrinks, fun p _ hp hd => by simp [hs.live, hp] at hd,
      fun q _ hq hd => by simp [hs.live, hq] at hd⟩
  | some q =>
    obtain ⟨hslots, howns⟩ := hlast q hq
    obtain ⟨hdrop, hgone⟩ := dropsSlots_dwExit hq hx
    have hskip (q' o' : ℕ) (hq' : decide (q' = q) = true) :
        k'.live.process q' = false ∨ k'.live.object o' = false := by
      rw [of_decide_eq_true hq']
      exact .inl hgone
    refine ⟨hdrop.toShrinks, fun p _ hp hdead => ?_, fun q' _ hq' hdead => ?_⟩
    · obtain ⟨hmem, o, ⟨⟨i, hi, ho⟩, hcount⟩, htype, hdata⟩ := hdrop.freed p hp hdead
      exact (hslots i hi o ho hcount).unused hdrop.toShrinks hskip htype hdata hmem
    · have heq : q' = q := by
        by_contra hne
        rw [hdrop.process q' hne, hq'] at hdead
        cases hdead
      subst heq
      intro p _ hp t ht howner
      have hlt := h.port_lt p (h.reach p (hp.imp hdrop.leads (hdrop.portList p))).live
      obtain ⟨halone, htakes⟩ :=
        howns p hlt t (hdrop.port ▸ ht) ((hdrop.thread t).symm.trans howner)
      rcases hp with hp | hp
      · exact halone (hdrop.leadsBesides hskip hp)
      · obtain ⟨i, hi, o, ho, htype, hdata, hone⟩ := htakes (hdrop.portList p hp)
        exact hdrop.unlisted h.nodup i hi o ho hone htype p hdata hp

theorem LifeInv.eventStep (h : k.LifeInv) {e : ℕ × Event} (hf : k.FreesUnused e)
    (hs : k.eventStep e = some k') : k'.LifeInv := by
  have hrun := h.running e.1
  have hb := hrun.toBase.event (toOption_eq_some.1 hs)
  rcases event_changes (Rights.all_allows _ e.2) (toOption_eq_some.1 hs) with
    hc | ⟨cur, handle, he, hcur, hd⟩ | ⟨cur, he, hcur, hx⟩ | ⟨q, -, hp⟩
  · exact hc.invariant (fun hc h => h.change hc) hrun
  · cases hcur
    simp only [FreesUnused, he] at hf
    obtain ⟨hshr, hfreed⟩ :=
      unusedFreed_delete (k := { k with currentThread := some e.1 }) hf hd
    exact hrun.shrink hb hshr hfreed
  · cases hcur
    simp only [FreesUnused, he] at hf
    obtain ⟨hshr, hfreed⟩ := hrun.unusedFreed_exit hf hx
    exact hrun.shrink hb hshr hfreed
  · exact hrun.newProcess hp

theorem LifeInv.leads (h : k.LifeInv) (hq : k.live.process q = true)
    (hhandle : handle.toNat < maxObjPerProcess)
    (hslot : (k.process q).handles.objlist handle.toNat = some o) (hobj : k.live.object o = true)
    (htype : (k.object o).type = .port) (hdata : (k.object o).data = some p) : k.Leads p :=
  ⟨q, h.process_lt q hq, hq, handle.toNat, hhandle, o, hslot, hobj, htype, hdata⟩

end Kernel

open Kernel

end DragonWare
