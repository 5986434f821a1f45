import DragonWare.Proofs.Growth
import DragonWare.Proofs.Wakeup
import DragonWare.Lib.RefCount

/-!
# Reference counts of objects

The handle tables of the live processes are the slots of a store of counted objects (`Kernel.refs`).
Opening a port adds a count without a slot, a new reply handle a slot without a count, and a full
table leaves an object without a slot. No other call makes the counts wrong (`refcounts_exact_iff`).
-/

namespace DragonWare

open Fallible Finset HandleTable
open Function (update update_of_ne update_self)

namespace Kernel

variable {cur i o q : ℕ} {handle : ℤ} {st : Status} {table : HandleTable}

def slots (k : Kernel) : Finset (ℕ × ℕ) :=
  range k.processes ×ˢ range maxObjPerProcess

/-- What the slots of the live processes point at, which objects are allocated, and their counts. -/
def refs (k : Kernel) : RefCount.Store (ℕ × ℕ) ℕ where
  slot j := if k.live.process j.1 then (k.process j.1).handles.objlist j.2 else none
  alive := k.live.object
  count o := (k.object o).refcnt

/-- Every object counts the slots that point at it, and exactly the objects without a slot have been
freed. -/
def RefExact (k : Kernel) : Prop := RefCount.Exact k.slots k.refs

structure SameTables (k k' : Kernel) : Prop where
  handles : ∀ q, (k'.process q).handles = (k.process q).handles
  process : k'.live.process = k.live.process
  object : k'.live.object = k.live.object
  processes : k'.processes = k.processes
  objects : k'.objects = k.objects
  processList : k'.processList = k.processList

structure SameRefs (k k' : Kernel) : Prop extends SameTables k k' where
  refcnt : ∀ o, (k'.object o).refcnt = (k.object o).refcnt

structure RefInv (k : Kernel) : Prop extends Base k where
  exact : k.RefExact

variable {k k' r : Kernel} {name : Option (List (BitVec 8))} {res : Option ℕ} {args : InvokeArgs}
  {c : Call} {op : ℕ}

theorem SameRefs.refl (k : Kernel) : SameRefs k k :=
  ⟨⟨fun _ => rfl, rfl, rfl, rfl, rfl, rfl⟩, fun _ => rfl⟩

theorem SameRefs.trans (h : SameRefs k r) (h' : SameRefs r k') : SameRefs k k' :=
  ⟨⟨fun q => (h'.handles q).trans (h.handles q), h'.process.trans h.process,
    h'.object.trans h.object, h'.processes.trans h.processes, h'.objects.trans h.objects,
    h'.processList.trans h.processList⟩, fun o => (h'.refcnt o).trans (h.refcnt o)⟩

theorem SameStore.sameRefs (h : SameStore k k') : SameRefs k k' :=
  ⟨⟨fun _ => by rw [h.process], by rw [h.live], by rw [h.live], h.processes, h.objects,
    h.processList⟩, fun _ => by rw [h.object]⟩

theorem sameRefs_setObject {x : Object} (hx : x.refcnt = (k.object o).refcnt) :
    SameRefs k (k.setObject o x) := by
  refine { SameRefs.refl k with refcnt := fun o' => ?_ }
  by_cases ho : o' = o
  · simp [ho, setObject, hx]
  · simp [ho, setObject]

theorem sameRefs_deletePort (k : Kernel) (p : ℕ) : SameRefs k (k.deletePort p) := by
  unfold deletePort
  split_ifs
  · exact { SameRefs.refl k with }
  · exact .refl k

theorem sameRefs_deleteData {obj : Object} (h : k.deleteData obj = .ok k') : SameRefs k k' := by
  rcases deleteData_cases h with ⟨p, -, -, rfl⟩ | h
  · exact sameRefs_deletePort k p
  · exact h.sameRefs

theorem SameRefs.refs_eq (h : SameRefs k k') : k'.refs = k.refs := by
  unfold refs
  rw [h.process, h.object]
  simp only [h.handles, h.refcnt]

theorem SameTables.slots_eq (h : SameTables k k') : k'.slots = k.slots := by
  unfold slots
  rw [h.processes]

theorem SameRefs.exact_iff (h : SameRefs k k') : k'.RefExact ↔ k.RefExact := by
  rw [RefExact, RefExact, h.slots_eq, h.refs_eq]

theorem RefInv.congr (h : k.RefInv) (hs : SameRefs k k') : k'.RefExact := hs.exact_iff.2 h.exact

/-! ### One table changes -/

theorem refs_setHandles {v : Option ℕ} (hq : k.live.process q = true)
    (ht : table.objlist = update (k.process q).handles.objlist i v) :
    (k.setHandles q table).refs = { k.refs with slot := update k.refs.slot (q, i) v } := by
  unfold refs
  congr 1
  funext ⟨q', i'⟩
  by_cases hq' : q' = q
  · subst hq'
    by_cases hi : i' = i
    · simp [hi, setHandles, setProcess, hq, ht]
    · simp [hi, setHandles, setProcess, hq, ht]
  · simp [hq', setHandles, setProcess]

theorem refs_setObject (k : Kernel) (o : ℕ) (x : Object) :
    (k.setObject o x).refs = { k.refs with count := update k.refs.count o x.refcnt } := by
  unfold refs
  congr 1
  funext o'
  by_cases ho : o' = o
  · simp [ho, setObject]
  · simp [ho, setObject]

theorem refs_allocateObject (k : Kernel) (name : Option (List (BitVec 8))) (type : ObjectType) :
    (k.allocateObject name type).2.refs = ⟨k.refs.slot,
      update k.refs.alive k.objects true, update k.refs.count k.objects 1⟩ := by
  unfold refs allocateObject
  congr 1
  funext o'
  by_cases ho : o' = k.objects
  · simp [ho]
  · simp [ho]

theorem RefInv.mem_slots (h : k.RefInv) (hq : k.live.process q = true)
    (hi : i < maxObjPerProcess) : (q, i) ∈ k.slots := by
  simp [slots, h.process_lt q hq, hi]

theorem refs_slot (hq : k.live.process q = true) (i : ℕ) :
    k.refs.slot (q, i) = (k.process q).handles.objlist i := by
  simp [refs, hq]

theorem RefInv.not_alive (h : k.RefInv) : k.refs.alive k.objects = false := by
  by_contra hne
  exact absurd (h.object_lt k.objects (by simpa [refs] using hne)) (lt_irrefl _)

/-! ### The operations of the store -/

theorem RefInv.createObject (h : k.RefInv) (hq : k.live.process q = true)
    (happend : (k.process q).handles.appendToHandleTable k.objects = some (i, table))
    (name : Option (List (BitVec 8))) (type : ObjectType) :
    ((k.allocateObject name type).2.setHandles q table).RefExact := by
  obtain ⟨hi, -, hobj, -⟩ := appendToHandleTable_some happend
  have hfree := (refs_slot hq i).trans ((h.bits q).free happend)
  have hcreate := h.exact.create (h.mem_slots hq hi) hfree h.not_alive
  have hrefs : ((k.allocateObject name type).2.setHandles q table).refs
      = k.refs.create (q, i) k.objects := by
    have hset : ((k.allocateObject name type).2.setHandles q table).refs
        = { (k.allocateObject name type).2.refs with
          slot := update (k.allocateObject name type).2.refs.slot (q, i)
            (some k.objects) } := refs_setHandles hq hobj
    rw [hset, refs_allocateObject]
    rfl
  rw [RefExact, hrefs]
  exact hcreate

theorem RefInv.share (h : k.RefInv) (hq : k.live.process q = true) (ho : k.live.object o = true)
    (happend : (k.process q).handles.appendToHandleTable o = some (i, table)) :
    ((k.setHandles q table).setObject o
      { k.object o with refcnt := (k.object o).refcnt + 1 }).RefInv := by
  obtain ⟨hi, -, hobj, -⟩ := appendToHandleTable_some happend
  refine ⟨(h.toBase.append happend).recount rfl rfl, ?_⟩
  have hfree := (refs_slot hq i).trans ((h.bits q).free happend)
  have hshare := h.exact.share (h.mem_slots hq hi) hfree ho
  rw [RefExact, refs_setObject, refs_setHandles hq hobj]
  exact hshare

theorem RefInv.drop (h : k.RefInv) (hq : k.live.process q = true) (hi : i < maxObjPerProcess)
    (hslot : (k.process q).handles.objlist i = some o)
    (hd : (k.setHandles q ((k.process q).handles.deleteFromHandleTable i).2).deleteObject o
      = .ok k') : k'.RefInv := by
  refine ⟨(h.toBase.delete q i).deleteObject hd, ?_⟩
  have hdrop := h.exact.drop (h.mem_slots hq hi) ((refs_slot hq i).trans hslot)
  have hrefs : (k.setHandles q ((k.process q).handles.deleteFromHandleTable i).2).refs
      = { k.refs with slot := update k.refs.slot (q, i) none } :=
    refs_setHandles hq rfl
  unfold RefCount.Store.drop at hdrop
  obtain ⟨-, ⟨hmany, rfl⟩ | ⟨hlast, r, hr, rfl⟩⟩ := deleteObject_cases hd
  · rw [if_pos (show 1 < k.refs.count o from hmany)] at hdrop
    rw [RefExact, refs_setObject, hrefs]
    exact hdrop
  rw [if_neg (show ¬ 1 < k.refs.count o from hlast)] at hdrop
  have hsame := sameRefs_deleteData hr
  have hfree : (r.freeObject o).refs
      = { k.refs with
        slot := update k.refs.slot (q, i) none
        alive := update k.refs.alive o false } := by
    have : (r.freeObject o).refs
        = { r.refs with alive := update r.refs.alive o false } := rfl
    rw [this, hsame.refs_eq, hrefs]
  have hslots : (r.freeObject o).slots = k.slots := hsame.slots_eq
  rw [RefExact, hfree, hslots]
  exact hdrop

theorem RefInv.uncount (h : k.RefInv) {q' i' : ℕ} (hq : k.live.process q = true)
    (hi : i < maxObjPerProcess) (hslot : (k.process q).handles.objlist i = some o)
    (hq' : k.live.process q' = true) (hne : q' ≠ q) (hi' : i' < maxObjPerProcess)
    (hslot' : (k.process q').handles.objlist i' = some o) :
    ((k.setHandles q ((k.process q).handles.deleteFromHandleTable i).2).setObject o
      { k.object o with refcnt := countDown (k.object o).refcnt }).RefExact := by
  have hmem := h.mem_slots hq hi
  have hat := (refs_slot hq i).trans hslot
  have hmany : 1 < k.refs.count o := by
    have hother : 0 < RefCount.held k.slots (update k.refs.slot (q, i) none) o := by
      refine RefCount.held_pos_iff.2 ⟨(q', i'), h.mem_slots hq' hi', ?_⟩
      rw [update_of_ne (by simp [hne]), refs_slot hq', hslot']
    have hcount := h.exact.count_eq o (h.exact.alive_of_slot _ hmem o hat)
    have hupdate := RefCount.held_update k.refs.slot hmem none o
    simp only [hat, if_true] at hupdate
    simp at hupdate
    omega
  have hdown : countDown (k.object o).refcnt = k.refs.count o - 1 :=
    if_neg (Nat.ne_of_gt (Nat.zero_lt_of_lt hmany))
  have hdrop := h.exact.drop hmem hat
  rw [RefCount.Store.drop, if_pos hmany] at hdrop
  rw [RefExact, refs_setObject, refs_setHandles (i := i) (v := none) hq rfl]
  simp only [hdown]
  exact hdrop

/-! ### Processes -/

structure Emptied (q n : ℕ) (k : Kernel) : Prop where
  inv : k.RefInv
  live : k.live.process q = true
  empty : ∀ i < n, (k.process q).handles.objlist i = none

theorem Emptied.deleteSlot {n : ℕ} (h : Emptied q n k) (hn : n < maxObjPerProcess)
    (hs : Kernel.deleteSlot q k n = .ok k') : Emptied q (n + 1) k' := by
  have hempty : ∀ i < n + 1, ((k.setHandles q
      ((k.process q).handles.deleteFromHandleTable n).2).process q).handles.objlist i = none := by
    intro i hi
    rw [setHandles_process]
    simp only [deleteFromHandleTable]
    by_cases heq : i = n
    · simp [heq]
    · rw [update_of_ne heq]
      exact h.empty i (by omega)
  rcases deleteSlot_cases hs with ⟨hslot, rfl⟩ | ⟨o, hslot, hd⟩
  · refine ⟨⟨h.inv.toBase.delete q n, ?_⟩, h.live, hempty⟩
    have hsame : update k.refs.slot (q, n) none = k.refs.slot := by
      rw [← hslot, ← refs_slot h.live n, Function.update_eq_self]
    rw [RefExact, refs_setHandles (i := n) (v := none) h.live rfl, hsame]
    exact h.inv.exact
  · obtain ⟨hhandles, hlive, -⟩ := deleteObject_tables hd
    refine ⟨h.inv.drop h.live hn hslot hd, ?_, fun i hi => ?_⟩
    · rw [hlive]
      exact h.live
    · rw [hhandles]
      exact hempty i hi

theorem RefInv.deleteProcess (h : k.RefInv) (hd : k.deleteProcess q = .ok k') : k'.RefExact := by
  obtain ⟨hlive, r, r', hr, hsame, rfl⟩ := deleteProcess_cases hd
  have hinv0 : RefInv { k with processList := k.processList.erase q } := { h with
    listed := fun q' hq' => h.listed q' (List.mem_of_mem_erase hq')
    listed_nodup := h.listed_nodup.erase q }
  have hstart : Emptied q 0 { k with processList := k.processList.erase q } :=
    ⟨hinv0, hlive, fun i hi => by omega⟩
  have hend : Emptied q maxObjPerProcess r :=
    foldlM_range (I := fun n s => Emptied q n s) hstart
      (fun n a b hn hI hs => Emptied.deleteSlot hI hn hs) hr
  have hexact := hend.inv.congr hsame.sameRefs
  have hempty : ∀ i < maxObjPerProcess, (r'.process q).handles.objlist i = none := by
    intro i hi
    rw [hsame.process]
    exact hend.empty i hi
  refine RefCount.Exact.congr hexact subset_rfl (fun j hj => ?_) (fun j hj hj' => absurd hj hj') rfl
    fun _ => rfl
  obtain ⟨q', i⟩ := j
  by_cases heq : q' = q
  · subst heq
    have hi : i < maxObjPerProcess := by
      simpa [slots] using (mem_product.1 hj).2
    simp [refs, hempty i hi]
  · simp [refs, heq]

theorem RefInv.createProcess (h : k.RefInv) (hc : k.createProcess = .ok (q, k')) : k'.RefExact := by
  obtain ⟨r, hr, rfl⟩ := createProcess_cases hc
  have hslots : r.slots = range (k.processes + 1) ×ˢ range maxObjPerProcess := by
    rw [slots, hr.processes]
    rfl
  show RefCount.Exact r.slots r.refs
  refine h.exact.congr ?_ (fun j hj => ?_) (fun j hj hnew => ?_) ?_ fun o => ?_
  · rw [hslots]
    exact product_subset_product_left (range_mono (Nat.le_succ _))
  · have hne : j.1 ≠ k.processes := by
      have := mem_range.1 (mem_product.1 hj).1
      omega
    simp [refs, hr.live, hr.process, withProcess, hne]
  · have heq : j.1 = k.processes := by
      rw [hslots] at hj
      simp only [slots, mem_product, mem_range] at hj hnew
      omega
    simp [refs, hr.process, withProcess, heq]
  · simp only [refs, hr.live]
    rfl
  · simp only [refs, hr.object]
    rfl

/-! ### Messages -/

theorem sameRefs_setPort (k : Kernel) (p : ℕ) (x : Port) : SameRefs k (k.setPort p x) :=
  { SameRefs.refl k with }

theorem sameRefs_receiveFrom {p : ℕ} {copyOk : Bool} {rc : Receipt}
    (h : k.receiveFrom cur p copyOk = .ok (rc, k')) : SameRefs k k' := by
  obtain ⟨-, ⟨-, -, hs⟩ | ⟨-, -, rfl⟩⟩ := receiveFrom_cases h
  · have hblock := (sameStore_blockThread k cur).sameRefs
    have hwait : SameRefs k { k.blockThread cur with
        inReceive := update k.inReceive cur (some p) } := { hblock with }
    exact hwait.trans (scheduleNext_cases hs).1.sameRefs
  · exact { SameRefs.refl k with }

theorem sameRefs_sendMessage {m : Message} (h : k.sendMessage q handle m = .ok (st, k')) :
    SameRefs k k' := by
  rcases sendMessage_cases h with ⟨-, rfl⟩ | ⟨target, p, -, -, -, -, -, -, -, h⟩
  · exact .refl _
  obtain ⟨-, ⟨-, rfl⟩ | ⟨owner, -, -, -, rfl⟩⟩ := enqueueMessage_cases h
  · exact .refl _
  · exact (sameRefs_setPort _ _ _).trans (sameStore_wakeThread _ _).sameRefs

/-- The port object that the handle names is among the slots of the receiver that are looked at, or
the receiver's table is full. -/
def ReplyKnown (k : Kernel) (q p : ℕ) (raw : ℤ) : Prop :=
  0 ≤ raw ∧ raw < maxObjPerProcess → ∀ o ∈ (k.process q).handles.objlist raw.toNat,
    (k.object o).type = .port → ∀ owner ∈ (k.port p).owner, ∀ target ∈ (k.thread owner).owner,
      k.live.process target = true →
      ((k.process target).handles.findHandle o (maxObjPerProcess - 1)).isSome = true
        ∨ (k.process target).handles.appendToHandleTable o = none

theorem RefInv.not_exact_append (h : k.RefInv) (hq : k.live.process q = true)
    (ho : k.live.object o = true)
    (happend : (k.process q).handles.appendToHandleTable o = some (i, table)) :
    ¬ (k.setHandles q table).RefExact := by
  obtain ⟨hi, -, hobj, -⟩ := appendToHandleTable_some happend
  intro hexact
  have hcount := h.exact.count_eq o ho
  have hcount' := hexact.count_eq o ho
  have hfree : k.refs.slot (q, i) = none := (refs_slot hq i).trans ((h.bits q).free happend)
  have hupdate := RefCount.held_update k.refs.slot (h.mem_slots hq hi) (some o) o
  rw [refs_setHandles hq hobj] at hcount'
  have hslots : (k.setHandles q table).slots = k.slots := rfl
  simp only [hslots, hfree, reduceCtorEq, if_true, if_false] at hcount' hupdate
  omega

/-- The checks of `_DWIPCSend` on the port and on a message of that size. -/
def Accepts (k : Kernel) (p : ℕ) (m : Message) (size : ℕ) : Prop :=
  k.live.port p = true ∧ (k.port p).count < maxMessagesInPort
    ∧ m.header.payloadLength ≤ size - sizeofMessageHeader

theorem sendToPort_refs {p size : ℕ} {copy : Option Message}
    (h : k.sendToPort q p copy size = .ok (st, k')) :
    (SameRefs k k' ∧ (st = .ok → ∀ m ∈ copy, k.ReplyKnown q p m.header.replyHandle))
    ∨ (st = .ok ∧ ∃ m o target i table, copy = some m ∧ k.Accepts p m size
      ∧ ¬ k.ReplyKnown q p m.header.replyHandle
      ∧ k.live.object o = true ∧ k.live.process target = true
      ∧ (k.process target).handles.appendToHandleTable o = some (i, table)
      ∧ SameRefs (k.setHandles target table) k') := by
  obtain ⟨hlive, ⟨hst, rfl⟩ | ⟨hst, -, slot, rfl⟩
    | ⟨m, owner, reply, r, rfl, rfl, -, hcount, hlen, hr, rfl⟩⟩ := sendToPort_cases h
  · exact .inl ⟨.refl _, fun hok => absurd hok hst⟩
  · exact .inl ⟨sameRefs_setPort _ _ _, fun hok => absurd hok hst⟩
  have hsame : ∀ x, SameRefs r ((r.setPort p x).wakeThread owner) := fun x =>
    (sameRefs_setPort r p x).trans (sameStore_wakeThread _ _).sameRefs
  rcases translateReply_cases hr with ⟨hraw, -, rfl⟩ | ⟨-, -, rfl, htype⟩
    | ⟨o, owner', target, hraw, hslot, ho, htype, howner, htarget, hlt, hcases⟩
  · refine .inl ⟨hsame _, fun _ m' hm' hraw' => absurd hraw' ?_⟩
    cases hm'
    exact hraw
  · refine .inl ⟨hsame _, fun _ m' hm' _ o hslot htype' => absurd htype' ?_⟩
    cases hm'
    exact htype o hslot
  rcases hcases with ⟨i, hfind, -, rfl⟩ | ⟨i, table, hfind, happend, -, rfl⟩ | ⟨hfull, -, rfl⟩
  · refine .inl ⟨hsame _, fun _ m' hm' _ o' ho' _ owner'' ho'' target' ht' _ => .inl ?_⟩
    cases hm'
    cases hslot.symm.trans ho'
    cases howner.symm.trans ho''
    cases htarget.symm.trans ht'
    simp [hfind]
  · refine .inr ⟨rfl, m, o, target, i, table, rfl, ⟨hlive, hcount, hlen⟩, fun hknown => ?_, ho, hlt,
      happend, hsame _⟩
    have := hknown hraw o hslot htype owner' howner target htarget hlt
    simp [hfind, happend] at this
  · refine .inl ⟨hsame _, fun _ m' hm' _ o' ho' _ owner'' ho'' target' ht' _ => .inr ?_⟩
    cases hm'
    cases hslot.symm.trans ho'
    cases howner.symm.trans ho''
    cases htarget.symm.trans ht'
    exact hfull

/-! ### Calls -/

/-- The caller has a free slot for an object that is created, there is no port of a name that is
opened, and a message that is accepted names no reply port that is new to its receiver. -/
def CountedCall (k : Kernel) (cur : ℕ) (c : Call) : Prop :=
  ∀ q ∈ (k.thread cur).owner, k.live.process q = true →
    match c with
    | .createObject _ _ ok => ok = true →
      (k.process q).handles.appendToHandleTable k.objects ≠ none
    | .invokeObject handle op args => op = 1 → ∀ o ∈ k.objectOfHandle cur handle,
      (k.object o).type = .port → ∀ name ∈ args.openName,
        ∀ found ∈ (k.findPortByName name).toOption, found = none
    | .send handle copy size => sizeofMessageHeader ≤ size → ∀ o ∈ k.objectOfHandle cur handle,
      (k.object o).type = .port → ∀ p ∈ (k.object o).data, ∀ m ∈ copy,
        k.Accepts p m (min size sizeofMessage) → k.ReplyKnown q p m.header.replyHandle
    | _ => True

theorem dwCreateObject_total (hq : (k.thread cur).owner = some q) (hl : k.live.process q = true)
    (name : Option (List (BitVec 8))) (type : ObjectType) :
    ∃ r, k.dwCreateObject cur name type true = .ok r := by
  have hcur : (k.allocateObject name type).2.currProc cur = .ok q := currProc_ok.2 ⟨hq, hl⟩
  rw [dwCreateObject, if_neg (by simp)]
  simp only [hcur, Bind.bind, Except.bind]
  split <;> exact ⟨_, rfl⟩

theorem handlePortObjectRequest_total (cur o : ℕ) {name : List (BitVec 8)}
    (hname : args.openName = some name) (hfind : k.findPortByName name = .ok res) :
    ∃ r, k.handlePortObjectRequest cur o 1 args = .ok r := by
  simp only [handlePortObjectRequest, hname, hfind, Bind.bind, Except.bind]
  cases res <;> exact ⟨_, rfl⟩

section Slot

variable (hi : 0 ≤ handle ∧ handle < maxObjPerProcess) (hq : (k.thread cur).owner = some q)
  (hl : k.live.process q = true) (hslot : (k.process q).handles.objlist handle.toNat = some o)
  (ho : k.live.object o = true) (htype : (k.object o).type = .port)

include hi hq hl hslot ho htype

theorem dwInvokeObject_eq :
    k.dwInvokeObject cur handle op args = k.handlePortObjectRequest cur o op args := by
  rw [dwInvokeObject, if_neg (by omega), currProc_ok.2 ⟨hq, hl⟩]
  simp only [Bind.bind, Except.bind, hslot, derefObject_ok.2 ⟨ho, rfl⟩, htype]

theorem dwIPCSend_eq {size p : ℕ} {copy : Option Message} (hsize : sizeofMessageHeader ≤ size)
    (hdata : (k.object o).data = some p) :
    k.dwIPCSend cur handle copy size = k.sendToPort q p copy (min size sizeofMessage) := by
  have hmin : sizeofMessageHeader ≤ min size sizeofMessage := le_min hsize (by decide)
  simp only [dwIPCSend, truncated_size]
  rw [if_neg (by omega), if_neg (by omega), currProc_ok.2 ⟨hq, hl⟩]
  simp only [Bind.bind, Except.bind, hslot, derefObject_ok.2 ⟨ho, rfl⟩, htype, hdata]

end Slot

theorem translateReply_total {raw : ℤ} {port : Port} {owner target : ℕ}
    (hraw : 0 ≤ raw ∧ raw < maxObjPerProcess)
    (hslot : (k.process q).handles.objlist raw.toNat = some o) (ho : k.live.object o = true)
    (htype : (k.object o).type = .port) (howner : port.owner = some owner)
    (htarget : (k.thread owner).owner = some target) (hl : k.live.process target = true) :
    ∃ r, k.translateReply q port raw = .ok r := by
  rw [translateReply, if_pos hraw]
  simp only [hslot, derefObject_ok.2 ⟨ho, rfl⟩, Bind.bind, Except.bind, htype, ne_eq,
    not_true_eq_false, if_false, nonNull_ok.2 howner, nonNull_ok.2 htarget, derefPortOwner_ok.2 ⟨hl, rfl⟩]
  split
  · exact ⟨_, rfl⟩
  · split <;> exact ⟨_, rfl⟩

theorem Accepts.sendToPort {p size owner : ℕ} {m : Message} {r : ℤ × Kernel}
    (h : k.Accepts p m size) (howner : (k.port p).owner = some owner)
    (hr : k.translateReply q (k.port p) m.header.replyHandle = .ok r) :
    ∃ k', k.sendToPort q p (some m) size = .ok (.ok, k') := by
  obtain ⟨hlive, hcount, hlen⟩ := h
  rw [Kernel.sendToPort, derefPort_ok.2 ⟨hlive, rfl⟩]
  simp only [Bind.bind, Except.bind, howner, if_neg (not_le.2 hcount), Message.copyPayload,
    if_neg (not_lt.2 hlen), translateReply_setPort, hr]
  exact ⟨_, rfl⟩

theorem RefInv.createObject_iff (h : k.RefInv) {type : ObjectType}
    (hq : (k.thread cur).owner = some q)
    (hs : k.dwCreateObject cur name type true = .ok (res, k')) :
    k'.RefExact ↔ (k.process q).handles.appendToHandleTable k.objects ≠ none := by
  rcases dwCreateObject_cases hs with
    ⟨hok, -⟩ | ⟨q', -, hq', hl, ⟨-, hfull, rfl⟩ | ⟨i, table, -, happend, rfl⟩⟩
  · simp at hok
  · cases hq'.symm.trans hq
    refine iff_of_false (fun hexact => ?_) (not_not.2 hfull)
    have hpos := hexact.held_pos k.objects (by simp [refs, allocateObject])
    rw [refs_allocateObject] at hpos
    have hzero := h.exact.held_eq_zero h.not_alive
    have hslots : (k.allocateObject name type).2.slots = k.slots := rfl
    rw [hslots, hzero] at hpos
    exact absurd hpos (lt_irrefl _)
  · cases hq'.symm.trans hq
    exact iff_of_true (h.createObject hl happend name type) (by simp [happend])

theorem sameRefs_createPort {owner : ℕ} {portOk nodeOk : Bool}
    (h : k.createPort name owner portOk nodeOk = .ok (st, res, k')) : SameRefs k k' := by
  rcases createPort_cases h with ⟨-, -, rfl | rfl | ⟨x, rfl⟩⟩ | ⟨-, -, x, l, -, -, -, -, -, rfl⟩
  · exact .refl _
  · exact { SameRefs.refl k with }
  · exact { SameRefs.refl k with }
  · exact { SameRefs.refl k with }

theorem RefInv.portRequest (h : k.RefInv) (ho : k.live.object o = true)
    (hs : k.handlePortObjectRequest cur o op args = .ok (st, k')) :
    k'.RefExact ↔ (op = 1 → ∀ name ∈ args.openName,
      ∀ found ∈ (k.findPortByName name).toOption, found = none) := by
  rcases handlePortObjectRequest_cases hs with ⟨rfl, hnone⟩ | ⟨rfl, st', res, r, hr, hk'⟩
    | ⟨rfl, rfl, name, p, hname, hfind, rfl⟩
  · refine iff_of_true h.exact fun hop name hname found hfound => ?_
    exact (Except.ok.inj ((hnone hop name hname).symm.trans (toOption_eq_some.1 hfound))).symm
  · refine iff_of_true ?_ fun hop => by simp at hop
    have hsame := sameRefs_createPort hr
    rcases hk' with ⟨-, rfl⟩ | ⟨p, -, rfl⟩
    · exact h.congr hsame
    · exact h.congr (hsame.trans (sameRefs_setObject rfl))
  · refine iff_of_false (fun hexact => ?_) fun hnone => ?_
    · have hcount := h.exact.count_eq o ho
      have hcount' := hexact.count_eq o ho
      rw [refs_setObject] at hcount'
      simp only [update_self] at hcount'
      have hslots : ∀ x, (k.setObject o x).slots = k.slots := fun _ => rfl
      rw [hslots, ← hcount] at hcount'
      simp [refs] at hcount'
    · cases hnone rfl name hname _ (toOption_eq_some.2 hfind)

theorem sameRefs_threadRequest
    (hs : k.handleThreadObjectRequest q o op args = .ok (st, k')) : SameRefs k k' := by
  rcases handleThreadObjectRequest_cases hs with ⟨rfl, -⟩ | ⟨-, t, -, hrun⟩ | ⟨-, rfl⟩
  · exact .refl _
  · exact (sameStore_addThreadToScheduler hrun).sameRefs
  · have halloc : SameRefs k (k.allocateUserThread (some q)).2 := { SameRefs.refl k with }
    exact halloc.trans (sameRefs_setObject rfl)

theorem RefInv.deleteObject (h : k.RefInv) (hs : k.dwDeleteObject cur handle = .ok k') :
    k'.RefExact := by
  rcases dwDeleteObject_cases hs with ⟨rfl, -⟩ | ⟨q, o, hi, -, hq, hslot, -, hs⟩
  · exact h.exact
  have hname : RefInv (k.setObject o { k.object o with
      name := (k.object o).name.map fun n => { n with freed := true } }) :=
    ⟨h.toBase.recount rfl rfl, h.congr (sameRefs_setObject rfl)⟩
  exact (hname.drop hq (by omega) hslot hs).exact

theorem RefInv.translateHandle (h : k.RefInv) {pid : ℕ} {copy : Status}
    (hs : k.dwTranslateHandle cur pid handle copy = .ok (st, k')) : k'.RefExact := by
  rcases dwTranslateHandle_cases hs with
    rfl | ⟨this, origin, original, i, r, hi, -, hq, hmem, hne, hslot, hr, hcopy⟩
  · exact h.exact
  have horigin := h.listed origin (List.mem_of_find?_eq_some hmem)
  -- after the slot has been found or made, it holds the object that the other process has
  have hinstalled : r.RefInv ∧ r.live = k.live ∧ i < maxObjPerProcess
      ∧ (r.process this).handles.objlist i = some original
      ∧ (r.process origin).handles.objlist handle.toNat = some original := by
    rcases installHandle_cases hr with ⟨hi', -⟩ | ⟨i', hi', rfl, hfind⟩
      | ⟨i', table, ⟨hi', -⟩, happend, hlive, rfl⟩
    · simp at hi'
    · cases hi'
      obtain ⟨hlt, -, hobj⟩ := findHandle_some hfind
      exact ⟨h, rfl, hlt, hobj, hslot⟩
    · cases hi'
      obtain ⟨hlt, -, hobj, -⟩ := appendToHandleTable_some happend
      refine ⟨h.share hq hlive happend, rfl, hlt, ?_, ?_⟩
      · simp [setObject, setHandles, setProcess, hobj]
      · simpa [setObject, setHandles, setProcess, hne] using hslot
  obtain ⟨hinv, hlive, hlt, hthis, hother⟩ := hinstalled
  rcases hcopy with ⟨-, rfl⟩ | ⟨-, -, rfl⟩
  · exact hinv.exact
  · exact hinv.uncount (hlive ▸ hq) hlt hthis (hlive ▸ horigin) hne (by omega) hother

theorem RefInv.exit (h : k.RefInv) (hs : k.dwExit cur = .ok k') : k'.RefExact := by
  rcases dwExit_cases hs with ⟨-, hsame⟩ | ⟨q, r, r', -, hr, hd, hr'⟩
  · exact h.congr hsame.sameRefs
  · have hrun : r.RefInv := ⟨h.toBase.sameStore hr, h.congr hr.sameRefs⟩
    exact hr'.sameRefs.exact_iff.2 (hrun.deleteProcess hd)

theorem RefInv.syscall (h : k.RefInv) (hc : k.CountedCall cur c)
    (hs : k.syscall cur c = .ok k') : k'.RefExact := by
  cases c with
  | createObject name type ok =>
    obtain ⟨⟨res, r⟩, hr, rfl⟩ := map_eq_ok.1 hs
    rcases dwCreateObject_cases hr with ⟨-, rfl⟩ | ⟨q, rfl, hq, hl, -⟩
    · exact h.exact
    · exact (h.createObject_iff hq hr).2 (hc q hq hl rfl)
  | invokeObject handle op args =>
    obtain ⟨⟨st, r⟩, hr, rfl⟩ := map_eq_ok.1 hs
    rcases dwInvokeObject_cases hr with
      ⟨rfl, -⟩ | ⟨q, o, hi, hq, hl, hslot, ho, ⟨htype, hp⟩ | ⟨-, ht⟩⟩
    · exact h.exact
    · exact (h.portRequest ho hp).2 fun hop =>
        hc q hq hl hop o (objectOfHandle_eq_some.2 ⟨hi, q, hq, hslot⟩) htype
    · exact h.congr (sameRefs_threadRequest ht)
  | deleteObject handle => exact h.deleteObject hs
  | translateHandle of handle copy =>
    obtain ⟨⟨st, r⟩, hr, rfl⟩ := map_eq_ok.1 hs
    exact h.translateHandle hr
  | send handle copy size =>
    obtain ⟨⟨st, r⟩, hr, rfl⟩ := map_eq_ok.1 hs
    rcases dwIPCSend_cases hr with
      ⟨-, rfl⟩ | ⟨q, target, p, ⟨hsize, hi⟩, hq, hl, hslot, -, htype, hdata, hp⟩
    · exact h.exact
    rcases sendToPort_refs hp with
      ⟨hsame, -⟩ | ⟨rfl, m, o, target', i, table, rfl, haccepts, hnew, -⟩
    · exact h.congr hsame
    · have htarget := objectOfHandle_eq_some.2 ⟨hi, q, hq, hslot⟩
      exact absurd (hc q hq hl (hsize.trans (min_le_left _ _)) target htarget htype p hdata m rfl
        haccepts) hnew
  | receive handle copyOk =>
    obtain ⟨⟨rc, r⟩, hr, rfl⟩ := map_eq_ok.1 hs
    rcases dwIPCReceive_cases hr with
      ⟨st, -, -, -, rfl⟩ | ⟨q, o, p, owner, -, -, -, -, -, -, -, -, -, hr⟩
    · exact h.exact
    · exact h.congr (sameRefs_receiveFrom hr)
  | requestPorts copy size =>
    obtain ⟨⟨st, r⟩, hr, rfl⟩ := map_eq_ok.1 hs
    rcases dwRequestPorts_cases hr with rfl | ⟨q, proc, tss, rfl, hproc⟩
    · exact h.exact
    refine h.congr { SameRefs.refl k with handles := fun q' => ?_ }
    by_cases heq : q' = q
    · simp [heq, setProcess, hproc]
    · simp [heq, setProcess]
  | exit => exact h.exit hs

theorem RefInv.countedCall (h : k.RefInv)
    (hexact : ∀ k', k.syscall cur c = .ok k' → k'.RefExact) : k.CountedCall cur c := by
  intro q hq hl
  have hlive {handle : ℤ} {o : ℕ} (ho : k.objectOfHandle cur handle = some o) :
      (0 ≤ handle ∧ handle < maxObjPerProcess)
        ∧ (k.process q).handles.objlist handle.toNat = some o ∧ k.live.object o = true := by
    obtain ⟨hi, q', hq', hslot⟩ := objectOfHandle_eq_some.1 ho
    cases hq'.symm.trans hq
    exact ⟨hi, hslot, h.exact.alive_of_slot _ (h.mem_slots hl (by omega)) o
      ((refs_slot hl _).trans hslot)⟩
  cases c with
  | createObject name type ok =>
    rintro rfl
    obtain ⟨⟨res, r⟩, hr⟩ := dwCreateObject_total hq hl name type
    exact (h.createObject_iff hq hr).1 (hexact r (map_eq_ok.2 ⟨_, hr, rfl⟩))
  | invokeObject handle op args =>
    rintro rfl o ho htype name hname found hfound
    obtain ⟨hi, hslot, hobj⟩ := hlive ho
    obtain ⟨⟨st, r⟩, hr⟩ := handlePortObjectRequest_total cur o hname (toOption_eq_some.1 hfound)
    have hs := (dwInvokeObject_eq hi hq hl hslot hobj htype).trans hr
    exact (h.portRequest hobj hr).1 (hexact r (map_eq_ok.2 ⟨_, hs, rfl⟩)) rfl name hname found
      hfound
  | send handle copy size =>
    rintro hsize o ho htype p hp m rfl haccepts hraw o' hslot' htype' owner howner target htarget
      htl
    obtain ⟨hi, hslot, hobj⟩ := hlive ho
    have hobj' := h.exact.alive_of_slot _ (h.mem_slots hl (by omega)) o'
      ((refs_slot hl _).trans hslot')
    obtain ⟨⟨reply, r'⟩, hr'⟩ :=
      translateReply_total hraw hslot' hobj' htype' howner htarget htl
    obtain ⟨r, hr⟩ := haccepts.sendToPort howner hr'
    have hs := (dwIPCSend_eq hi hq hl hslot hobj htype hsize hp).trans hr
    have hexact := hexact r (map_eq_ok.2 ⟨_, hs, rfl⟩)
    rcases sendToPort_refs hr with
      ⟨-, hknown⟩ | ⟨-, m', o, target', i, table, -, -, -, ho, htarget, happend, hsame⟩
    · exact hknown rfl m rfl hraw o' hslot' htype' owner howner target htarget htl
    · exact absurd (hsame.exact_iff.1 hexact) (h.not_exact_append htarget ho happend)
  | deleteObject _ | translateHandle _ _ _ | receive _ _ | requestPorts _ _ | exit => trivial

/-! ### Runs -/

def running (k : Kernel) (t : ℕ) : Kernel := { k with currentThread := some t }

theorem RefInv.running (h : k.RefInv) (t : ℕ) : (k.running t).RefInv :=
  ⟨h.toBase.running t, h.congr { SameRefs.refl k with }⟩

def Counted (k : Kernel) (e : ℕ × Event) : Prop :=
  match e.2 with
  | .call c => k.inReceive e.1 = none → (k.running e.1).CountedCall e.1 c
  | _ => True

instance (k : Kernel) (q p : ℕ) (raw : ℤ) : Decidable (k.ReplyKnown q p raw) := by
  unfold ReplyKnown
  infer_instance

instance (k : Kernel) (p : ℕ) (m : Message) (size : ℕ) : Decidable (k.Accepts p m size) := by
  unfold Accepts
  infer_instance

instance (k : Kernel) (cur : ℕ) : DecidablePred (k.CountedCall cur) := fun c => by
  unfold CountedCall
  split <;> infer_instance

instance (k : Kernel) : DecidablePred k.Counted
  | (t, .call c) => inferInstanceAs (Decidable (_ → (k.running t).CountedCall t c))
  | (_, .resume _) | (_, .timer) | (_, .kernelMessage ..) | (_, .createProcess) => .isTrue trivial

theorem RefInv.eventStep (h : k.RefInv) {e : ℕ × Event} (hc : k.Counted e)
    (hs : k.eventStep e = some k') : k'.RefInv := by
  obtain ⟨t, e⟩ := e
  have hrun := h.running t
  have hs : (k.running t).event e = .ok k' := toOption_eq_some.1 hs
  refine ⟨hrun.toBase.event hs, ?_⟩
  cases e with
  | call c =>
    rcases event_call_cases hs with rfl | ⟨cur, hcur, hin, hs⟩
    · exact hrun.exact
    · cases hcur
      exact hrun.syscall (hc hin) hs
  | resume copyOk =>
    rcases event_resume_cases hs with rfl | ⟨cur, p, rc, -, -, hs⟩
    · exact hrun.exact
    · exact hrun.congr (sameRefs_receiveFrom hs)
  | timer => exact hrun.congr (scheduleNext_cases hs).1.sameRefs
  | kernelMessage q handle m =>
    obtain ⟨⟨st, r⟩, hr, rfl⟩ := map_eq_ok.1 hs
    exact hrun.congr (sameRefs_sendMessage hr)
  | createProcess =>
    obtain ⟨⟨q, r⟩, hr, rfl⟩ := map_eq_ok.1 hs
    exact hrun.createProcess hr

theorem RefInv.counted_iff (h : k.RefInv) (e : ℕ × Event) :
    (∀ k' ∈ k.eventStep e, k'.RefExact) ↔ k.Counted e := by
  refine ⟨fun hexact => ?_, fun hc k' hs => (h.eventStep hc hs).exact⟩
  obtain ⟨t, e⟩ := e
  cases e with
  | call c =>
    intro hin
    refine (h.running t).countedCall fun k' hs => hexact k' (toOption_eq_some.2 ?_)
    have hin' : (k.running t).inReceive t = none := hin
    have hevent : (k.running t).event (.call c) = (k.running t).syscall t c := if_pos hin'
    exact hevent.trans hs
  | resume _ | timer | kernelMessage _ _ _ | createProcess => trivial

theorem boot_refInv : boot.RefInv := by
  have hzero : boot.slots = ∅ := by simp [slots, boot]
  refine ⟨boot_base, ?_⟩
  rw [RefExact, hzero]
  refine ⟨fun o ho => ?_, fun j hj => ?_, fun o ho => ?_⟩
  · simp [refs, boot] at ho
  · simp at hj
  · simp [refs, boot] at ho

end Kernel

open Kernel

/-- From boot on, the counts are exact after every step exactly when every step is counted. -/
theorem refcounts_exact_iff (es : List (ℕ × Event)) :
    Run.Meets eventStep (fun k e => ∀ k' ∈ k.eventStep e, k'.RefExact) boot es
      ↔ Run.Meets eventStep Counted boot es :=
  Run.meets_iff (fun _ e hI => hI.counted_iff e) (fun _ _ _ hI hc hs => hI.eventStep hc hs) es
    boot_refInv

/-- The client makes a port of its own, names it as the reply port of a message and deletes its
handle. -/
def replyThenDelete : List (ℕ × Event) :=
  clientAndServer ++ [(1, .call (.createObject none .port true)),
    (1, .call (.invokeObject 1 0 noArgs)),
    (1, .call (.send 0 (some (emptyMessage 1)) sizeofMessageHeader)), (1, .call (.deleteObject 1))]

/-- The slot that the server was given points at an object that has been freed. -/
theorem refcounts_dangling_reply :
    ∃ k, Run.exec eventStep boot replyThenDelete = some k
      ∧ k.live.process 0 = true ∧ (k.process 0).handles.objlist 2 = some 3
      ∧ k.live.object 3 = false ∧ ¬ k.RefExact := by
  have hrun : ((Run.exec eventStep boot replyThenDelete).map fun k =>
      (k.live.process 0, (k.process 0).handles.objlist 2, k.live.object 3,
        decide (0 < k.processes)))
      = some (true, some 3, false, true) := by decide +kernel
  obtain ⟨k, hk, hrun⟩ := Option.map_eq_some_iff.1 hrun
  simp only [Prod.mk.injEq, decide_eq_true_eq] at hrun
  obtain ⟨hlive, hslot, hfreed, hprocesses⟩ := hrun
  refine ⟨k, hk, hlive, hslot, hfreed, fun hexact => ?_⟩
  have hmem : (0, 2) ∈ k.slots := by
    simp [slots, hprocesses, maxObjPerProcess]
  have halive := hexact.alive_of_slot _ hmem 3 ((refs_slot hlive 2).trans hslot)
  simp [refs, hfreed] at halive

/-- A run in which an object is created, translated, deleted and left behind by an exit. -/
theorem refcounts_exact_iff_translated :
    Run.Meets eventStep (fun k e => ∀ k' ∈ k.eventStep e, k'.RefExact) boot
      [(0, .createProcess), (0, .createProcess),
        (0, .call (.createObject none .port true)), (0, .call (.invokeObject 0 0 noArgs)),
        (1, .call (.translateHandle 1 0 .ok)), (0, .call (.deleteObject 0)), (1, .call .exit)] :=
  (refcounts_exact_iff _).2 (by decide +kernel)

end DragonWare
