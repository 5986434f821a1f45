import DragonWare.Proofs.Changes

/-!
# What takes nothing away

`Base` holds in every state. Most events take nothing away (`Keeps`): threads keep their process,
processes their handles, and objects and ports that are alive stay so.
-/

namespace DragonWare

open Fallible List
open Function (update update_of_ne update_self)

variable {x : Object}

namespace Kernel

section Base

variable {i o q : ℕ} {table : HandleTable}

def BitsInv (k : Kernel) : Prop := ∀ q, (k.process q).handles.BitsAgree

/-- Only what has a number is in use, a port that is named anywhere has an owner, and the lists hold
what is alive, each once. -/
structure Base (k : Kernel) : Prop where
  bits : k.BitsInv
  object_lt : ∀ o, k.live.object o = true → o < k.objects
  process_lt : ∀ q, k.live.process q = true → q < k.processes
  thread_lt : ∀ t q, (k.thread t).owner = some q → t < k.threads
  port_lt : ∀ p, k.live.port p = true → p < k.ports
  data : ∀ o p, (k.object o).type = .port → (k.object o).data = some p →
    p < k.ports ∧ (k.port p).owner ≠ none
  list : ∀ p ∈ k.portList, k.live.port p = true ∧ (k.port p).owner ≠ none
  nodup : k.portList.Nodup
  listed : ∀ q ∈ k.processList, k.live.process q = true
  listed_nodup : k.processList.Nodup

variable {k k' r : Kernel} {a : Rights}

theorem BitsInv.congr (h : k.BitsInv) (hs : ∀ q, (k'.process q).handles = (k.process q).handles) :
    k'.BitsInv := by
  intro q
  rw [hs]
  exact h q

theorem BitsInv.setProcess (h : k.BitsInv) (q : ℕ) {x : Process} (hx : x.handles.BitsAgree) :
    (k.setProcess q x).BitsInv := by
  intro q'
  by_cases hq : q' = q
  · simpa [Kernel.setProcess, hq] using hx
  · simpa [Kernel.setProcess, hq] using h q'

theorem BitsInv.append (h : k.BitsInv)
    (happend : (k.process q).handles.appendToHandleTable o = some (i, table)) :
    (k.setHandles q table).BitsInv :=
  h.setProcess q ((h q).append happend)

theorem BitsInv.delete (h : k.BitsInv) (q i : ℕ) :
    (k.setHandles q ((k.process q).handles.deleteFromHandleTable i).2).BitsInv :=
  h.setProcess q ((h q).delete i)

theorem BitsInv.sameStore (h : k.BitsInv) (hs : SameStore k k') : k'.BitsInv :=
  h.congr fun q => by rw [hs.process]

section

variable (h : k.Base)

include h

theorem Base.sameStore (hs : SameStore k k') : k'.Base := by
  refine ⟨h.bits.sameStore hs, ?_, ?_, ?_, ?_, ?_, ?_, ?_, ?_, ?_⟩
  · rw [hs.live, hs.objects]
    exact h.object_lt
  · rw [hs.live, hs.processes]
    exact h.process_lt
  · intro t q ht
    rw [hs.threads]
    exact h.thread_lt t q ((hs.owner t).symm.trans ht)
  · rw [hs.live, hs.ports]
    exact h.port_lt
  · rw [hs.object, hs.port, hs.ports]
    exact h.data
  · rw [hs.portList, hs.live, hs.port]
    exact h.list
  · rw [hs.portList]
    exact h.nodup
  · rw [hs.processList, hs.live]
    exact h.listed
  · rw [hs.processList]
    exact h.listed_nodup

theorem Base.process {f : ℕ → Process} (hb : { k with process := f }.BitsInv) :
    { k with process := f }.Base := { h with bits := hb }

theorem Base.setPort {p : ℕ} {x : Port} (hx : x.owner = (k.port p).owner) :
    (k.setPort p x).Base := by
  have howner : ∀ p', ((k.setPort p x).port p').owner = (k.port p').owner := by
    intro p'
    by_cases hp : p' = p
    · simp [Kernel.setPort, hp, hx]
    · simp [Kernel.setPort, hp]
  refine { h with data := fun o p' ht hd => ?_, list := fun p' hp' => ?_ }
  · rw [howner]
    exact h.data o p' ht hd
  · rw [howner]
    exact h.list p' hp'

theorem Base.setObject (htype : x.type = (k.object o).type)
    (hdata : ∀ p, x.type = .port → x.data = some p → p < k.ports ∧ (k.port p).owner ≠ none) :
    (k.setObject o x).Base := by
  refine { h with data := fun o' p ht hd => ?_ }
  by_cases ho : o' = o
  · subst ho
    simp only [Kernel.setObject, update_self] at ht hd
    exact hdata p ht hd
  · simp only [Kernel.setObject, update_of_ne ho] at ht hd
    exact h.data o' p ht hd

theorem Base.recount (htype : x.type = (k.object o).type)
    (hdata : x.data = (k.object o).data) : (k.setObject o x).Base :=
  h.setObject htype fun p ht hd => h.data o p (htype ▸ ht) (hdata ▸ hd)

theorem Base.append (happend : (k.process q).handles.appendToHandleTable o = some (i, table)) :
    (k.setHandles q table).Base :=
  h.process (h.bits.append happend)

theorem Base.delete (q i : ℕ) :
    (k.setHandles q ((k.process q).handles.deleteFromHandleTable i).2).Base :=
  h.process (h.bits.delete q i)

theorem Base.allocateObject (name : Option (List (BitVec 8))) (type : ObjectType) :
    (k.allocateObject name type).2.Base := by
  refine { h with object_lt := fun o ho => ?_, data := fun o p ht hd => ?_ }
  · by_cases heq : o = k.objects
    · exact heq ▸ Nat.lt_succ_self _
    · simp only [Kernel.allocateObject, update_of_ne heq] at ho
      exact (h.object_lt o ho).trans (Nat.lt_succ_self _)
  · by_cases heq : o = k.objects
    · simp [Kernel.allocateObject, heq] at hd
    · simp only [Kernel.allocateObject, update_of_ne heq] at ht hd
      exact h.data o p ht hd

theorem Base.allocateUserThread (q : Option ℕ) : (k.allocateUserThread q).2.Base := by
  refine { h with thread_lt := fun t q' ht => ?_ }
  by_cases heq : t = k.threads
  · exact heq ▸ Nat.lt_succ_self _
  · simp only [Kernel.allocateUserThread, update_of_ne heq] at ht
    exact (h.thread_lt t q' ht).trans (Nat.lt_succ_self _)

theorem Base.newPort (x : Port) (live : Bool) {l : List ℕ}
    (hl : l = k.portList ∨ l = k.ports :: k.portList ∧ live = true ∧ x.owner ≠ none) :
    { k with
      port := update k.port k.ports x
      live := { k.live with port := update k.live.port k.ports live }
      ports := k.ports + 1
      portList := l }.Base := by
  have hlt : ∀ p ∈ k.portList, p ≠ k.ports := fun p hp => (h.port_lt p (h.list p hp).1).ne
  refine { h with
    port_lt := fun p hp => ?_
    data := fun o p ht hd => ?_
    list := fun p hp => ?_
    nodup := ?_ }
  · by_cases heq : p = k.ports
    · exact heq ▸ Nat.lt_succ_self _
    · simp only [update_of_ne heq] at hp
      exact (h.port_lt p hp).trans (Nat.lt_succ_self _)
  · obtain ⟨hp, howner⟩ := h.data o p ht hd
    simp only [update_of_ne hp.ne]
    exact ⟨hp.trans (Nat.lt_succ_self _), howner⟩
  · rcases hl with rfl | ⟨rfl, rfl, howner⟩
    · simp only [update_of_ne (hlt p hp)]
      exact h.list p hp
    · rcases mem_cons.1 hp with rfl | hp
      · simp only [update_self]
        exact ⟨trivial, howner⟩
      · simp only [update_of_ne (hlt p hp)]
        exact h.list p hp
  · rcases hl with rfl | ⟨rfl, -⟩
    · exact h.nodup
    · exact nodup_cons.2 ⟨fun hmem => hlt _ hmem rfl, h.nodup⟩

theorem Base.deletePort (p : ℕ) : (k.deletePort p).Base := by
  unfold Kernel.deletePort
  split_ifs with hp
  · refine { h with
      port_lt := fun p' hp' => ?_, list := fun p' hp' => ?_, nodup := h.nodup.erase p }
    · by_cases heq : p' = p
      · simp [Kernel.freePort, heq] at hp'
      · simp only [Kernel.freePort, update_of_ne heq] at hp'
        exact h.port_lt p' hp'
    · have hne : p' ≠ p := fun heq => (h.nodup.mem_erase_iff.1 hp').1 heq
      simp only [Kernel.freePort, update_of_ne hne]
      exact h.list p' (mem_of_mem_erase hp')
  · exact h

theorem Base.freeObject (o : ℕ) : (k.freeObject o).Base := by
  refine { h with object_lt := fun o' ho' => ?_ }
  by_cases heq : o' = o
  · simp [Kernel.freeObject, heq] at ho'
  · simp only [Kernel.freeObject, update_of_ne heq] at ho'
    exact h.object_lt o' ho'

theorem Base.deleteObject (hd : k.deleteObject o = .ok k') : k'.Base := by
  obtain ⟨-, ⟨-, rfl⟩ | ⟨-, r, hr, rfl⟩⟩ := deleteObject_cases hd
  · exact h.recount rfl rfl
  · rcases deleteData_cases hr with ⟨p, -, -, rfl⟩ | hsame
    · exact (h.deletePort p).freeObject o
    · exact (h.sameStore hsame).freeObject o

end

theorem deleteObject_tables (h : k.deleteObject o = .ok k') :
    (∀ q, (k'.process q).handles = (k.process q).handles)
      ∧ k'.live.process = k.live.process ∧ k'.processList = k.processList
      ∧ k'.objects = k.objects ∧ k'.processes = k.processes := by
  obtain ⟨-, ⟨-, rfl⟩ | ⟨-, r, hr, rfl⟩⟩ := deleteObject_cases h
  · exact ⟨fun _ => rfl, rfl, rfl, rfl, rfl⟩
  rcases deleteData_cases hr with ⟨p, -, -, rfl⟩ | hs
  · unfold Kernel.deletePort
    split_ifs <;> exact ⟨fun _ => rfl, rfl, rfl, rfl, rfl⟩
  · exact ⟨fun q => by simp only [Kernel.freeObject, hs.process],
      by simp only [Kernel.freeObject, hs.live], hs.processList, hs.objects, hs.processes⟩

theorem Base.deleteProcess (h : k.Base) (hd : k.deleteProcess q = .ok k') : k'.Base := by
  obtain ⟨-, r, r', hr, hs, rfl⟩ := deleteProcess_cases hd
  have h0 : { k with processList := k.processList.erase q }.Base := { h with
    listed := fun q' hq' => h.listed q' (mem_of_mem_erase hq')
    listed_nodup := h.listed_nodup.erase q }
  obtain ⟨hloop, hlist⟩ : r.Base ∧ r.processList = k.processList.erase q := by
    refine foldlM_range (I := fun _ a => a.Base ∧ a.processList = k.processList.erase q) ⟨h0, rfl⟩
      (fun i a b _ ha hb => ?_) hr
    rcases deleteSlot_cases hb with ⟨-, rfl⟩ | ⟨o, -, hb⟩
    · exact ⟨ha.1.delete q i, ha.2⟩
    · exact ⟨(ha.1.delete q i).deleteObject hb, (deleteObject_tables hb).2.2.1.trans ha.2⟩
  have h' := hloop.sameStore hs
  refine { h' with process_lt := fun q' hq' => ?_, listed := fun q' hq' => ?_ }
  · by_cases heq : q' = q
    · simp [heq] at hq'
    · simp only [update_of_ne heq] at hq'
      exact h'.process_lt q' hq'
  · have hne : q' ≠ q := by
      rintro rfl
      rw [hs.processList, hlist] at hq'
      exact (h.listed_nodup.mem_erase_iff.1 hq').1 rfl
    simp only [update_of_ne hne]
    exact h'.listed q' hq'

theorem Base.withProcess (h : k.Base) : k.withProcess.Base := by
  refine { h.allocateUserThread (some k.processes) with
    bits := fun q' => ?_
    process_lt := fun q' hq' => ?_
    listed := fun q' hq' => (withProcess_live k q').2 (.inr (h.listed q' hq')) }
  · by_cases heq : q' = k.processes
    · intro i _
      simp [Kernel.withProcess, heq]
    · simpa [Kernel.withProcess, heq] using h.bits q'
  · rcases (withProcess_live k q').1 hq' with rfl | hq'
    · exact Nat.lt_succ_self _
    · exact (h.process_lt q' hq').trans (Nat.lt_succ_self _)

theorem Base.createProcess (h : k.Base) (hc : k.createProcess = .ok (q, k')) : k'.Base := by
  obtain ⟨-, hlisted, hnodup⟩ :=
    createProcess_processList hc h.process_lt h.listed h.listed_nodup
  obtain ⟨r, hr, rfl⟩ := createProcess_cases hc
  exact { h.withProcess.sameStore hr with listed := hlisted, listed_nodup := hnodup }

theorem Base.change (h : k.Base) (hc : Change a k k') : k'.Base := by
  cases hc with
  | port hx => exact h.setPort hx
  | object htype hdata => exact h.recount htype hdata
  | bind _ hp =>
    refine h.setObject rfl fun p' _ hp' => ?_
    cases hp'
    rcases hp with hp | ⟨hlive, t, -, ht, -⟩
    · exact ⟨h.port_lt _ (h.list _ hp).1, (h.list _ hp).2⟩
    · exact ⟨h.port_lt _ hlive, by simp [ht]⟩
  | stand htype _ => exact h.setObject rfl fun p hport => by simp [htype] at hport
  | newObject _ name type => exact h.allocateObject name type
  | newSlot _ _ _ happend => exact h.append happend
  | append _ _ _ _ happend => exact h.append happend
  | delete => exact h.delete _ _
  | @process q x _ hx =>
    have hset := h.process (h.bits.setProcess q (hx ▸ h.bits q))
    exact hset.sameStore (sameStore_of_owner fun _ => rfl)
  | newThread => exact h.allocateUserThread _
  | newPort hl =>
    exact h.newPort _ _ (hl.imp_right fun ⟨hl, hlive, t, _, ht, _⟩ => ⟨hl, hlive, by simp [ht]⟩)
  | take => exact { h with }
  | sleep => exact { h.sameStore (sameStore_blockThread k _) with }
  | wake => exact h.sameStore (sameStore_wakeThread k _)
  | run _ hrun => exact h.sameStore (sameStore_addThreadToScheduler hrun)
  | schedule hs => exact h.sameStore (scheduleNext_cases hs).1

theorem Base.changes (h : k.Base) (hc : Changes a k k') : k'.Base :=
  hc.invariant (fun hc h => h.change hc) h

theorem boot_base : boot.Base :=
  ⟨fun q i _ => by simp [boot], by simp [boot], by simp [boot], by simp [boot], by simp [boot],
    by simp [boot], by simp [boot], by simp [boot], by simp [boot], by simp [boot]⟩

end Base

section Grows

/-- Nothing that is in use has gone away or changed hands. A port object may have been given another
port. -/
structure Grows (k k' : Kernel) : Prop where
  owner : ∀ t q, (k.thread t).owner = some q → (k'.thread t).owner = some q
  process : ∀ q, k.live.process q = true → k'.live.process q = true
  slot : ∀ q i o, k.live.process q = true → (k.process q).handles.objlist i = some o →
    (k'.process q).handles.objlist i = some o
  object : ∀ o, k.live.object o = true →
    k'.live.object o = true ∧ (k'.object o).type = (k.object o).type
  port : ∀ p, k.live.port p = true → k'.live.port p = true ∧ (k'.port p).owner = (k.port p).owner
  data : ∀ o, k.live.object o = true → (k.object o).type = .port →
    (k'.object o).data = (k.object o).data
      ∨ ∃ p, (k'.object o).data = some p ∧ k'.live.port p = true ∧ (k'.port p).owner ≠ none

variable {k k' k'' r : Kernel} {a : Rights}

theorem Grows.refl (k : Kernel) : Grows k k :=
  ⟨fun _ _ h => h, fun _ h => h, fun _ _ _ _ h => h, fun _ h => ⟨h, rfl⟩, fun _ h => ⟨h, rfl⟩,
    fun _ _ _ => .inl rfl⟩

theorem Grows.trans (h : Grows k k') (h' : Grows k' k'') : Grows k k'' := by
  refine ⟨fun t q ht => h'.owner t q (h.owner t q ht), fun q hq => h'.process q (h.process q hq),
    fun q i o hq ho => h'.slot q i o (h.process q hq) (h.slot q i o hq ho), fun o ho => ?_,
    fun p hp => ?_, fun o ho ht => ?_⟩
  · obtain ⟨ho', ht'⟩ := h.object o ho
    obtain ⟨ho'', ht''⟩ := h'.object o ho'
    exact ⟨ho'', ht''.trans ht'⟩
  · obtain ⟨hp', ht'⟩ := h.port p hp
    obtain ⟨hp'', ht''⟩ := h'.port p hp'
    exact ⟨hp'', ht''.trans ht'⟩
  · obtain ⟨ho', ht'⟩ := h.object o ho
    rcases h'.data o ho' (ht'.trans ht) with heq | hnew
    · rcases h.data o ho ht with heq' | ⟨p, hp, hl, howner⟩
      · exact .inl (heq.trans heq')
      · obtain ⟨hl', howner'⟩ := h'.port p hl
        exact .inr ⟨p, heq.trans hp, hl', howner' ▸ howner⟩
    · exact .inr hnew

theorem SameStore.grows (h : SameStore k k') : Grows k k' := by
  refine ⟨fun t q ht => (h.owner t).trans ht, fun q hq => ?_, fun q i o _ ho => ?_, fun o ho => ?_,
    fun p hp => ?_, fun o _ _ => .inl ?_⟩
  · rwa [h.live]
  · rwa [h.process]
  · rw [h.live, h.object]
    exact ⟨ho, rfl⟩
  · rw [h.live, h.port]
    exact ⟨hp, rfl⟩
  · rw [h.object]

theorem grows_process {f : ℕ → Process}
    (h : ∀ q i o, (k.process q).handles.objlist i = some o → (f q).handles.objlist i = some o) :
    Grows k { k with process := f } :=
  { Grows.refl k with slot := fun q i o _ ho => h q i o ho }

theorem grows_setPort {p : ℕ} {x : Port} (hx : x.owner = (k.port p).owner) :
    Grows k (k.setPort p x) := by
  refine { Grows.refl k with
    port := fun p' hp' => ⟨hp', ?_⟩, data := fun _ _ _ => .inl rfl }
  by_cases hp : p' = p
  · simp [Kernel.setPort, hp, hx]
  · simp [Kernel.setPort, hp]

theorem grows_setObject {o : ℕ} (htype : x.type = (k.object o).type)
    (hdata : x.type = .port → x.data = (k.object o).data
      ∨ ∃ p, x.data = some p ∧ k.live.port p = true ∧ (k.port p).owner ≠ none) :
    Grows k (k.setObject o x) := by
  refine { Grows.refl k with object := fun o' ho' => ⟨ho', ?_⟩, data := fun o' _ ht => ?_ }
  · by_cases ho : o' = o
    · simp [Kernel.setObject, ho, htype]
    · simp [Kernel.setObject, ho]
  · by_cases ho : o' = o
    · subst ho
      simpa [Kernel.setObject] using hdata (htype.trans ht)
    · simp [Kernel.setObject, ho]

theorem Base.grows_append (h : k.Base) {q o i : ℕ} {table : HandleTable}
    (happend : (k.process q).handles.appendToHandleTable o = some (i, table)) :
    Grows k (k.setHandles q table) := by
  refine grows_process fun q' j o' ho' => ?_
  by_cases hq : q' = q
  · subst hq
    have hne : j ≠ i := by
      rintro rfl
      simp [(h.bits q').free happend] at ho'
    rw [update_self, (HandleTable.appendToHandleTable_some happend).2.2.1, update_of_ne hne]
    exact ho'
  · rwa [update_of_ne hq]

theorem Base.grows_allocateObject (h : k.Base) (name : Option (List (BitVec 8)))
    (type : ObjectType) : Grows k (k.allocateObject name type).2 := by
  have hne : ∀ o, k.live.object o = true → o ≠ k.objects := fun o ho => (h.object_lt o ho).ne
  refine { Grows.refl k with object := fun o ho => ?_, data := fun o ho _ => .inl ?_ }
  · simpa [Kernel.allocateObject, hne o ho] using ho
  · simp [Kernel.allocateObject, hne o ho]

theorem Base.grows_allocateUserThread (h : k.Base) (q : Option ℕ) :
    Grows k (k.allocateUserThread q).2 := by
  refine { Grows.refl k with owner := fun t q' ht => ?_ }
  simpa [Kernel.allocateUserThread, (h.thread_lt t q' ht).ne] using ht

theorem Base.grows_newPort (h : k.Base) (x : Port) (live : Bool) (l : List ℕ) :
    Grows k { k with
      port := update k.port k.ports x
      live := { k.live with port := update k.live.port k.ports live }
      ports := k.ports + 1
      portList := l } := by
  refine { Grows.refl k with port := fun p hp => ?_, data := fun _ _ _ => .inl rfl }
  simp only [update_of_ne (h.port_lt p hp).ne]
  exact ⟨hp, trivial⟩

theorem Base.grows_createProcess (h : k.Base) {q : ℕ} (hc : k.createProcess = .ok (q, k')) :
    Grows k k' := by
  obtain ⟨r, hr, rfl⟩ := createProcess_cases hc
  have hmid : Grows k k.withProcess := by
    have ht := h.grows_allocateUserThread (some k.processes)
    refine { ht with process := fun q hq => ?_, slot := fun q i o hq ho => ?_ }
    · exact (withProcess_live k q).2 (.inr hq)
    · simpa [Kernel.withProcess, (h.process_lt q hq).ne] using ho
  exact { hmid.trans hr.grows with }

theorem Base.grows_change (h : k.Base) (ha : ¬ a.takesBack) (hc : Change a k k') : Grows k k' := by
  cases hc with
  | port hx => exact grows_setPort hx
  | object htype hdata => exact grows_setObject htype fun _ => .inl hdata
  | bind _ hp =>
    refine grows_setObject rfl fun _ => .inr ⟨_, rfl, ?_⟩
    rcases hp with hp | ⟨hlive, t, -, ht, -⟩
    · exact h.list _ hp
    · exact ⟨hlive, by simp [ht]⟩
  | stand htype _ => exact grows_setObject rfl fun hport => by simp [htype] at hport
  | newObject _ name type => exact h.grows_allocateObject name type
  | newSlot _ _ _ happend => exact h.grows_append happend
  | append _ _ _ _ happend => exact h.grows_append happend
  | delete hback => exact absurd hback ha
  | @process q _ _ hx =>
    refine (grows_process fun q' i o ho => ?_).trans (sameStore_of_owner fun _ => rfl).grows
    by_cases hq : q' = q
    · subst hq
      rwa [update_self, hx]
    · rwa [update_of_ne hq]
  | newThread => exact h.grows_allocateUserThread _
  | newPort => exact h.grows_newPort _ _ _
  | take => exact { Grows.refl k with }
  | sleep => exact { (sameStore_blockThread k _).grows with }
  | wake => exact (sameStore_wakeThread k _).grows
  | run _ hrun => exact (sameStore_addThreadToScheduler hrun).grows
  | schedule hs => exact (scheduleNext_cases hs).1.grows

end Grows

section Keeps

variable {cur o p q : ℕ} {handle : ℤ} {st : Status}

structure Keeps (k k' : Kernel) : Prop where
  base : k'.Base
  grows : Grows k k'

variable {k k' r : Kernel} {e : Event}

theorem Base.keeps (h : k.Base) : Keeps k k := ⟨h, .refl k⟩

theorem Base.keeps_sameStore (h : k.Base) (hs : SameStore k k') : Keeps k k' :=
  ⟨h.sameStore hs, hs.grows⟩

theorem Keeps.trans (h : Keeps k r) (h' : Keeps r k') : Keeps k k' :=
  ⟨h'.base, h.grows.trans h'.grows⟩

theorem Base.keeps_setProcess (h : k.Base) {x : Process} (hx : x.handles = (k.process q).handles) :
    Keeps k (k.setProcess q x) := by
  refine ⟨h.process (h.bits.setProcess q (hx ▸ h.bits q)), grows_process fun q' i o ho => ?_⟩
  by_cases hq : q' = q
  · subst hq
    rwa [update_self, hx]
  · rwa [update_of_ne hq]

def Rights.additive : Rights := { Rights.all with takesBack := False }

theorem Rights.additive_wakes (k : Kernel) (t : ℕ) : Rights.additive.Wakes k t :=
  fun _ _ _ => trivial

theorem Base.keeps_changes (h : k.Base) (hc : Changes .additive k k') : Keeps k k' :=
  hc.invariant (I := Keeps k)
    (fun hc hI => ⟨hI.base.change hc, hI.grows.trans (hI.base.grows_change id hc)⟩) h.keeps

theorem Base.keeps_sendMessage (h : k.Base) {m : Message}
    (hs : k.sendMessage q handle m = .ok (st, k')) : Keeps k k' :=
  h.keeps_changes (sendMessage_changes (fun _ _ _ _ t _ => Rights.additive_wakes k t) hs)

theorem Base.dwDeleteObject (h : k.Base) (hs : k.dwDeleteObject cur handle = .ok k') : k'.Base := by
  rcases dwDeleteObject_cases hs with ⟨rfl, -⟩ | ⟨q, x, -, -, -, -, -, hd⟩
  · exact h
  · have hname : (k.setObject x { k.object x with
        name := (k.object x).name.map fun n => { n with freed := true } }).Base := h.recount rfl rfl
    exact (hname.delete q handle.toNat).deleteObject hd

theorem Base.dwExit (h : k.Base) (hs : k.dwExit cur = .ok k') : k'.Base := by
  rcases dwExit_cases hs with ⟨-, hsame⟩ | ⟨q, r, r', -, hr, hd, hr'⟩
  · exact h.sameStore hsame
  · exact ((h.sameStore hr).deleteProcess hd).sameStore hr'

/-- The events that take nothing away, whatever they find. -/
def Additive : Event → Prop
  | .call (.deleteObject _) | .call (.translateHandle _ _ _) | .call .exit | .createProcess => False
  | _ => True

theorem Base.keeps_event (h : k.Base) (he : Additive e) (hs : k.event e = .ok k') : Keeps k k' := by
  have hall : Rights.additive.Allows k e := { Rights.all_allows k e with
    takesBack := fun _ _ _ heq => by
      subst heq
      exact he }
  rcases event_changes hall hs with hc | ⟨_, _, rfl, -⟩ | ⟨_, rfl, -⟩ | ⟨_, rfl, -⟩
  · exact h.keeps_changes hc
  all_goals exact he.elim

theorem Base.running (h : k.Base) (t : ℕ) : { k with currentThread := some t }.Base := { h with }

theorem Base.event (h : k.Base) (hs : k.event e = .ok k') : k'.Base := by
  rcases event_changes (Rights.all_allows k e) hs with
    hc | ⟨cur, handle, -, -, hd⟩ | ⟨cur, -, -, hx⟩ | ⟨q, -, hp⟩
  · exact h.changes hc
  · exact h.dwDeleteObject hd
  · exact h.dwExit hx
  · exact h.createProcess hp

theorem Base.taskEvent (h : k.Base) {e : TaskEvent} (hs : k.taskEvent e = .ok k') : k'.Base := by
  cases e with
  | exception =>
    simp only [Kernel.taskEvent] at hs
    split at hs
    · split_ifs at hs
      · obtain ⟨r, hr, hs⟩ := bind_eq_ok.1 hs
        obtain ⟨q, -, hr⟩ := bind_eq_ok.1 hr
        obtain ⟨r', hr', hr⟩ := bind_eq_ok.1 hr
        cases hr
        exact (h.deleteProcess hr').sameStore
          (SameStore.trans (sameStore_of_owner fun _ => rfl) (scheduleNext_cases hs).1)
      · cases hs
        exact h
    · cases hs
      exact h
  | event e => exact h.event hs

end Keeps

end Kernel

end DragonWare
