import DragonWare.Proofs.Growth

/-!
# What deletions free

A deletion empties slots and frees objects and listed ports (`Kernel.Shrinks`). An object goes with
the last handle it counts, and its port with it: `DropsObject` for one handle, `DropsSlots` for the
table of a process.
-/

namespace DragonWare

open Fallible List
open Function (update update_of_ne update_self)

namespace Kernel

variable {k k' r : Kernel} {cur i n o p q : ℕ} {handle : ℤ}

/-- Objects, ports and processes are freed and slots emptied; what is left is as it was. -/
structure Shrinks (k k' : Kernel) : Prop where
  process_live : ∀ q, k'.live.process q = true → k.live.process q = true
  slot : ∀ q i o, (k'.process q).handles.objlist i = some o →
    (k.process q).handles.objlist i = some o
  object_live : ∀ o, k'.live.object o = true → k.live.object o = true
  type : ∀ o, (k'.object o).type = (k.object o).type
  data : ∀ o, (k'.object o).data = (k.object o).data
  port : k'.port = k.port
  thread : ∀ t, (k'.thread t).owner = (k.thread t).owner
  threads : k'.threads = k.threads
  processes : k'.processes = k.processes
  inReceive : k'.inReceive = k.inReceive
  portList : ∀ p ∈ k'.portList, p ∈ k.portList

theorem Shrinks.trans (h : Shrinks k r) (h' : Shrinks r k') : Shrinks k k' :=
  ⟨fun q hq => h.process_live q (h'.process_live q hq),
    fun q i o ho => h.slot q i o (h'.slot q i o ho),
    fun o ho => h.object_live o (h'.object_live o ho), fun o => (h'.type o).trans (h.type o),
    fun o => (h'.data o).trans (h.data o), h'.port.trans h.port,
    fun t => (h'.thread t).trans (h.thread t), h'.threads.trans h.threads,
    h'.processes.trans h.processes, h'.inReceive.trans h.inReceive,
    fun p hp => h.portList p (h'.portList p hp)⟩

theorem SameStore.shrinks (h : SameStore k k') : Shrinks k k' := by
  refine ⟨fun q hq => ?_, fun q i o ho => ?_, fun o ho => ?_, fun o => ?_, fun o => ?_, h.port,
    h.owner, h.threads, h.processes, h.inReceive, fun p hp => h.portList ▸ hp⟩
  · rwa [h.live] at hq
  · rwa [h.process] at ho
  · rwa [h.live] at ho
  · rw [h.object]
  · rw [h.object]

theorem Shrinks.refl (k : Kernel) : Shrinks k k := (SameStore.refl k).shrinks

theorem shrinks_delete (k : Kernel) (q i : ℕ) :
    Shrinks k (k.setHandles q ((k.process q).handles.deleteFromHandleTable i).2) := by
  refine { Shrinks.refl k with slot := fun q' j o ho => ?_ }
  by_cases hq : q' = q
  · subst hq
    rw [setHandles_process] at ho
    simp only [HandleTable.deleteFromHandleTable] at ho
    by_cases hji : j = i
    · simp [hji] at ho
    · rwa [update_of_ne hji] at ho
  · rwa [setHandles_process_ne k hq] at ho

theorem shrinks_setObject {x : Object} (htype : x.type = (k.object o).type)
    (hdata : x.data = (k.object o).data) : Shrinks k (k.setObject o x) := by
  refine { Shrinks.refl k with
    type := fun o' => ?_
    data := fun o' => ?_ }
  · by_cases heq : o' = o
    · simp [heq, setObject, htype]
    · simp [heq, setObject]
  · by_cases heq : o' = o
    · simp [heq, setObject, hdata]
    · simp [heq, setObject]

theorem shrinks_deletePort (k : Kernel) (p : ℕ) : Shrinks k (k.deletePort p) := by
  unfold deletePort
  split_ifs with hp
  · exact { Shrinks.refl k with portList := fun _ => mem_of_mem_erase }
  · exact Shrinks.refl k

theorem shrinks_freeObject (k : Kernel) (o : ℕ) : Shrinks k (k.freeObject o) := by
  refine { Shrinks.refl k with object_live := fun o' ho' => ?_ }
  by_cases heq : o' = o
  · simp [freeObject, heq] at ho'
  · simpa [freeObject, heq] using ho'

theorem shrinks_deleteObject (h : k.deleteObject o = .ok k') : Shrinks k k' := by
  obtain ⟨-, ⟨-, rfl⟩ | ⟨-, r, hr, rfl⟩⟩ := deleteObject_cases h
  · exact shrinks_setObject rfl rfl
  refine Shrinks.trans ?_ (shrinks_freeObject r o)
  rcases deleteData_cases hr with ⟨p, -, -, rfl⟩ | hsame
  · exact shrinks_deletePort k p
  · exact hsame.shrinks

theorem shrinks_deleteSlot (h : deleteSlot q k i = .ok k') : Shrinks k k' := by
  rcases deleteSlot_cases h with ⟨-, rfl⟩ | ⟨o, -, hd⟩
  · exact shrinks_delete k q i
  · exact (shrinks_delete k q i).trans (shrinks_deleteObject hd)

structure DropsObject (o : ℕ) (k k' : Kernel) : Prop extends Shrinks k k' where
  process : k'.live.process = k.live.process
  list : k'.portList.Sublist k.portList
  count : ∀ o', (k.object o').refcnt ≤ (k'.object o').refcnt + if o = o' then 1 else 0
  count_le : ∀ o', (k'.object o').refcnt ≤ (k.object o').refcnt
  object : ∀ o', k.live.object o' = true → k'.live.object o' = false →
    o' = o ∧ (k.object o).refcnt ≤ 1
  freed : ∀ p, k.live.port p = true → k'.live.port p = false → p ∈ k.portList
    ∧ (k.object o).refcnt ≤ 1 ∧ (k.object o).type = .port ∧ (k.object o).data = some p
  gone : (k.object o).refcnt ≤ 1 → k'.live.object o = false
  unlisted : (k.object o).refcnt ≤ 1 → (k.object o).type = .port → k.portList.Nodup →
    ∀ p, (k.object o).data = some p → p ∉ k'.portList

theorem deleteData_drops {obj : Object} (h : k.deleteData obj = .ok k') :
    (k'.object = k.object ∧ k'.live.object = k.live.object) ∧ k'.portList.Sublist k.portList
      ∧ (∀ p, k.live.port p = true → k'.live.port p = false →
        p ∈ k.portList ∧ obj.type = .port ∧ obj.data = some p)
      ∧ (obj.type = .port → k.portList.Nodup → ∀ p, obj.data = some p → p ∉ k'.portList) := by
  unfold deleteData at h
  split at h
  · rename_i p hdata htype
    cases h
    unfold deletePort
    split_ifs with hp
    · refine ⟨⟨rfl, rfl⟩, erase_sublist, fun p' hp' hd => ?_, fun _ hnd p' hp' => ?_⟩
      · by_cases heq : p' = p
        · exact heq ▸ ⟨hp, htype, hdata⟩
        · simp [freePort, heq, hp'] at hd
      · cases hdata.symm.trans hp'
        exact hnd.not_mem_erase
    · refine ⟨⟨rfl, rfl⟩, .refl _, fun p' hp' hd => by simp [hp'] at hd, fun _ _ p' hp' => ?_⟩
      cases hdata.symm.trans hp'
      exact hp
  · rename_i t hdata htype
    have hs := sameStore_deleteThread h
    refine ⟨⟨hs.object, by rw [hs.live]⟩, hs.portList ▸ .refl _, fun p hp hd => ?_,
      fun hport => by simp [htype] at hport⟩
    simp [hs.live, hp] at hd
  · rename_i hport _
    cases h
    exact ⟨⟨rfl, rfl⟩, .refl _, fun p hp hd => by simp [hp] at hd,
      fun htype _ p hdata => (hport p hdata htype).elim⟩

theorem dropsObject (h : k.deleteObject o = .ok k') : DropsObject o k k' := by
  have hshr := shrinks_deleteObject h
  have hproc := (deleteObject_tables h).2.1
  obtain ⟨-, ⟨hmany, rfl⟩ | ⟨hone, r, hr, rfl⟩⟩ := deleteObject_cases h
  · refine { hshr with
      process := hproc
      list := .refl _
      count := fun o' => ?_
      count_le := fun o' => ?_
      object := fun o' ho hd => by simp [setObject, ho] at hd
      freed := fun p hp hd => by simp [setObject, hp] at hd
      gone := fun h => by omega
      unlisted := fun h => by omega }
    · by_cases ho : o = o'
      · subst ho
        simp only [setObject, update_self, if_true]
        omega
      · simp [setObject, update_of_ne (Ne.symm ho)]
    · by_cases ho : o' = o
      · simp [setObject, ho]
      · simp [setObject, ho]
  have hone : (k.object o).refcnt ≤ 1 := not_lt.1 hone
  obtain ⟨⟨hobj, hlive⟩, hlist, hfreed, hunlisted⟩ := deleteData_drops hr
  refine { hshr with
    process := hproc
    list := hlist
    count := fun o' => ?_
    count_le := fun o' => (congrArg (fun f => (f o').refcnt) hobj).le
    object := fun o' ho hd => ?_
    freed := fun p hp hd => ?_
    gone := fun _ => by simp [freeObject]
    unlisted := fun _ => hunlisted }
  · rw [← hobj]
    exact Nat.le_add_right _ _
  · by_cases heq : o' = o
    · exact ⟨heq, hone⟩
    · simp [freeObject, heq, hlive, ho] at hd
  · obtain ⟨hmem, htype, hdata⟩ := hfreed p hp hd
    exact ⟨hmem, hone, htype, hdata⟩

theorem DropsObject.before (h : DropsObject o r k') (hs : Shrinks k r)
    (hcount : ∀ o', (r.object o').refcnt = (k.object o').refcnt) (hlive : r.live = k.live)
    (hlist : r.portList = k.portList) : DropsObject o k k' := by
  obtain ⟨hs', hproc, hsub, hc, hle, hobj, hfreed, hgone, hun⟩ := h
  simp only [hcount, hlive, hlist, hs.type, hs.data] at hproc hsub hc hle hobj hfreed hgone hun
  exact ⟨hs.trans hs', hproc, hsub, hc, hle, hobj, hfreed, hgone, hun⟩

theorem dropsObject_dwDeleteObject (h : k.dwDeleteObject cur handle = .ok k') :
    (k' = k ∧ k.objectOfHandle cur handle = none)
    ∨ ∃ q o, k.objectOfHandle cur handle = some o ∧ (k.thread cur).owner = some q
      ∧ DropsObject o k k' ∧ ∀ q' i, q' ≠ q ∨ i ≠ handle.toNat →
        (k'.process q').handles.objlist i = (k.process q').handles.objlist i := by
  rcases dwDeleteObject_cases h with hsame | ⟨q, o, hrange, hq, -, hslot, -, hd⟩
  · exact .inl hsame
  have hname : Shrinks k (k.setObject o { k.object o with
      name := (k.object o).name.map fun n => { n with freed := true } }) :=
    shrinks_setObject rfl rfl
  refine .inr ⟨q, o, objectOfHandle_eq_some.2 ⟨hrange, q, hq, hslot⟩, hq,
    (dropsObject hd).before (hname.trans (shrinks_delete _ q handle.toNat)) (fun o' => ?_) rfl rfl,
    fun q' i hne => ?_⟩
  · by_cases ho : o' = o
    · simp [setHandles, setProcess, setObject, ho]
    · simp [setHandles, setProcess, setObject, ho]
  · rw [deleteObject_process hd]
    by_cases hq' : q' = q
    · subst hq'
      rw [setHandles_process]
      exact update_of_ne (hne.resolve_left fun h => h rfl) _ _
    · rw [setHandles_process_ne _ hq']
      rfl

def slotCount (k : Kernel) (q : ℕ) (is : List ℕ) (x : ℕ) : ℕ :=
  is.countP fun i => (k.process q).handles.objlist i = some x

theorem slotCount_succ (k : Kernel) (q n o : ℕ) : k.slotCount q (range (n + 1)) o
    = k.slotCount q (range n) o
      + if (k.process q).handles.objlist n = some o then 1 else 0 := by
  simp [slotCount, range_succ, countP_append, countP_cons]

def LastIn (k : Kernel) (q n o : ℕ) : Prop :=
  (∃ i < n, (k.process q).handles.objlist i = some o)
    ∧ (k.object o).refcnt ≤ k.slotCount q (range n) o

theorem LastIn.succ (h : k.LastIn q n o) : k.LastIn q (n + 1) o := by
  obtain ⟨⟨i, hi, hslot⟩, hcount⟩ := h
  refine ⟨⟨i, by omega, hslot⟩, hcount.trans ?_⟩
  rw [slotCount_succ]
  exact Nat.le_add_right _ _

/-- The loop over the handle table of process `q`, from `k` to `r` after `n` rounds. -/
structure DropsSlots (k : Kernel) (q n : ℕ) (r : Kernel) : Prop extends Shrinks k r where
  process : ∀ q', q' ≠ q → r.live.process q' = k.live.process q'
  list : r.portList.Sublist k.portList
  rest : ∀ q' i, q' ≠ q ∨ n ≤ i →
    (r.process q').handles.objlist i = (k.process q').handles.objlist i
  count : ∀ o, (k.object o).refcnt ≤ (r.object o).refcnt + k.slotCount q (range n) o
  count_le : ∀ o, (r.object o).refcnt ≤ (k.object o).refcnt
  object : ∀ o, k.live.object o = true → r.live.object o = false → k.LastIn q n o
  freed : ∀ p, k.live.port p = true → r.live.port p = false → p ∈ k.portList
    ∧ ∃ o, k.LastIn q n o ∧ (k.object o).type = .port ∧ (k.object o).data = some p
  unlisted : k.portList.Nodup → ∀ i < n, ∀ o ∈ (k.process q).handles.objlist i,
    (k.object o).refcnt ≤ 1 → (k.object o).type = .port →
      ∀ p, (k.object o).data = some p → p ∉ r.portList

theorem DropsSlots.sameStore (h : DropsSlots k q n r) (hs : SameStore r k') :
    DropsSlots k q n k' := by
  obtain ⟨hshr, hproc, hlist, hrest, hcount, hle, hobj, hfreed, hun⟩ := h
  rw [← hs.live] at hproc hobj hfreed
  rw [← hs.portList] at hlist hun
  rw [← hs.process] at hrest
  rw [← hs.object] at hcount hle
  exact ⟨hshr.trans hs.shrinks, hproc, hlist, hrest, hcount, hle, hobj, hfreed, hun⟩

theorem DropsSlots.rest_delete (h : DropsSlots k q n r) (q' i : ℕ) (hne : q' ≠ q ∨ n + 1 ≤ i) :
    ((r.setHandles q ((r.process q).handles.deleteFromHandleTable n).2).process
      q').handles.objlist i = (k.process q').handles.objlist i := by
  rw [← h.rest q' i (by omega)]
  by_cases hq : q' = q
  · subst hq
    rw [setHandles_process]
    exact update_of_ne (by omega) _ _
  · rw [setHandles_process_ne r hq]

theorem DropsSlots.deleteSlot (h : DropsSlots k q n r) (hs : deleteSlot q r n = .ok k') :
    DropsSlots k q (n + 1) k' := by
  have hold := h.toShrinks.trans (shrinks_delete r q n)
  have hslot := h.rest q n (.inr le_rfl)
  have hfreed (p : ℕ) (hp : k.live.port p = true) (hd : r.live.port p = false) : p ∈ k.portList
      ∧ ∃ o, k.LastIn q (n + 1) o ∧ (k.object o).type = .port ∧ (k.object o).data = some p :=
    (h.freed p hp hd).imp_right fun ⟨o, hlast, ho⟩ => ⟨o, hlast.succ, ho⟩
  rcases deleteSlot_cases hs with ⟨hnone, rfl⟩ | ⟨o, ho, hdel⟩
  · refine ⟨hold, h.process, h.list, h.rest_delete, fun o => (h.count o).trans ?_, h.count_le,
      fun o ho hd => (h.object o ho hd).succ, hfreed, fun hnd i hi o ho => ?_⟩
    · rw [slotCount_succ]
      exact Nat.add_le_add_left (Nat.le_add_right _ _) _
    · refine h.unlisted hnd i (lt_of_le_of_ne (Nat.le_of_lt_succ hi) ?_) o ho
      rintro rfl
      rw [← hslot, hnone] at ho
      cases ho
  rw [hslot] at ho
  have hd := dropsObject hdel
  have hcount (o' : ℕ) : k.slotCount q (range (n + 1)) o'
      = k.slotCount q (range n) o' + if o = o' then 1 else 0 := by
    simp [slotCount_succ, ho]
  -- the object of this slot is freed when the slots so far hold all that it counts
  have hlast (hone : (r.object o).refcnt ≤ 1) : k.LastIn q (n + 1) o := by
    refine ⟨⟨n, n.lt_succ_self, ho⟩, ?_⟩
    have := h.count o
    rw [hcount, if_pos rfl]
    omega
  refine ⟨hold.trans hd.toShrinks, fun q' hq' => ?_, hd.list.trans h.list, fun q' i hne => ?_,
    fun o' => ?_, fun o' => (hd.count_le o').trans (h.count_le o'), fun o' ho' hdead => ?_,
    fun p hp hdead => ?_, fun hnd i hi o' ho' hone htype p hdata => ?_⟩
  · rw [hd.process]
    exact h.process q' hq'
  · rw [deleteObject_process hdel]
    exact h.rest_delete q' i hne
  · have hr := h.count o'
    have hr' : (r.object o').refcnt ≤ _ := hd.count o'
    rw [hcount]
    omega
  · by_cases hlive : r.live.object o' = true
    · obtain ⟨rfl, hone⟩ := hd.object o' hlive hdead
      exact hlast hone
    · exact (h.object o' ho' (by simpa using hlive)).succ
  · by_cases hlive : r.live.port p = true
    · obtain ⟨hmem, hone, htype, hdata⟩ := hd.freed p hlive hdead
      exact ⟨h.portList p hmem, o, hlast hone, (h.type o).symm.trans htype,
        (h.data o).symm.trans hdata⟩
    · exact hfreed p hp (by simpa using hlive)
  · rcases Nat.lt_succ_iff_lt_or_eq.1 hi with hi | rfl
    · exact fun hmem => h.unlisted hnd i hi o' ho' hone htype p hdata (hd.list.subset hmem)
    · cases ho.symm.trans ho'
      exact hd.unlisted ((h.count_le o).trans hone) ((h.type o).trans htype)
        (hnd.sublist h.list) p ((h.data o).trans hdata)

theorem DropsSlots.start {s : Kernel} (hs : SameStore k s) (q : ℕ) :
    DropsSlots k q 0 { s with processList := s.processList.erase q } := by
  have hstart : DropsSlots k q 0 k :=
    { Shrinks.refl k with
      process := fun _ _ => rfl
      list := .refl _
      rest := fun _ _ _ => rfl
      count := fun _ => Nat.le_add_right _ _
      count_le := fun _ => le_rfl
      object := fun o ho hd => by simp [ho] at hd
      freed := fun p hp hd => by simp [hp] at hd
      unlisted := fun _ i hi => by omega }
  exact { hstart.sameStore hs with toShrinks := { (hstart.sameStore hs).toShrinks with } }

theorem dropsSlots_deleteProcess {s : Kernel} (hs : SameStore k s)
    (hd : s.deleteProcess q = .ok k') :
    DropsSlots k q maxObjPerProcess k' ∧ k'.live.process q = false := by
  obtain ⟨-, r, r', hr, hsame, rfl⟩ := deleteProcess_cases hd
  have hloop := (foldlM_range (I := fun n r => DropsSlots k q n r) (.start hs q)
    (fun _ _ _ _ hI hs => hI.deleteSlot hs) hr).sameStore hsame
  refine ⟨{ hloop with
    toShrinks := { hloop.toShrinks with process_live := fun q' hq' => ?_ }
    process := fun q' hq' => (update_of_ne hq' ..).trans (hloop.process q' hq') }, update_self ..⟩
  by_cases heq : q' = q
  · simp [heq] at hq'
  · exact hloop.process_live q' (by simpa [heq] using hq')

theorem dropsSlots_dwExit (hq : (k.thread cur).owner = some q) (hx : k.dwExit cur = .ok k') :
    DropsSlots k q maxObjPerProcess k' ∧ k'.live.process q = false := by
  rcases dwExit_cases hx with ⟨hnone, -⟩ | ⟨q', s, s', hq', hs, hd, hs'⟩
  · simp [hq] at hnone
  cases hq.symm.trans hq'
  obtain ⟨hdrop, hgone⟩ := dropsSlots_deleteProcess hs hd
  exact ⟨hdrop.sameStore hs', by rwa [hs'.live]⟩

end Kernel

end DragonWare
