import DragonWare.Proofs.RefCount

/-!
# Bounds of handle tables

`Kernel.tableOps` lists what a call does with handle tables, and whatever changes in one is stored
there (`tableOps_write`). The deletion of an object does not check the upper bound of its handle.
-/

namespace DragonWare

open Fallible HandleTable List Option

inductive TableOp
  | read (q : ℕ) (i : ℤ)
  | write (q : ℕ) (i : ℤ)
  | shift (q : ℕ) (i : ℤ)
  | use (q : ℕ) (i : ℤ)
  deriving DecidableEq, Repr

inductive HandleCall
  | send (handle : ℤ) (copy : Option Message) (messageSize : ℕ)
  | receive (handle : ℤ) (copyOk : Bool)
  | invokeObject (handle : ℤ) (op : ℕ) (args : InvokeArgs)
  | deleteObject (handle : ℤ)
  | translateHandle (of : ℕ) (handle : ℤ) (copy : Status)

def HandleCall.call : HandleCall → Call
  | send handle copy size => .send handle copy size
  | receive handle copyOk => .receive handle copyOk
  | invokeObject handle op args => .invokeObject handle op args
  | deleteObject handle => .deleteObject handle
  | translateHandle of handle copy => .translateHandle of handle copy

namespace HandleTable

variable (table : HandleTable) (q : ℕ)

def scanOps (obj : ℕ) : List ℕ → List TableOp
  | [] => []
  | i :: is =>
    .shift q i :: if table.validBitmap.getLsbD i then
      .read q i :: if table.objlist i = some obj then [] else scanOps obj is
    else scanOps obj is

def appendOps : List TableOp :=
  if ~~~table.validBitmap = 0#32 then []
  else
    let index := (~~~table.validBitmap).ctz.toNat
    [.shift q index, .write q index]

/-- The search for an object in the first `n` slots, and the new slot if there is none. -/
def findOrAppendOps (obj n : ℕ) : List TableOp :=
  table.scanOps q obj (range n)
    ++ if table.findHandle obj n = none then table.appendOps q else []

def findOrAppend (obj n : ℕ) : Option ℕ :=
  (table.findHandle obj n).or ((table.appendToHandleTable obj).map (·.1))

end HandleTable

def deleteOps (q : ℕ) (i : ℤ) : List TableOp := [.read q i, .shift q i, .write q i]

namespace Kernel

variable (k : Kernel)
variable {cur i i' o q q' : ℕ} {handle : ℤ} {st : Status} {table : HandleTable}

def slotOps (q : ℕ) (handle : ℤ) (rest : ℕ → List TableOp) : List TableOp :=
  .read q handle :: ((k.process q).handles.objlist handle.toNat).elim [] fun o =>
    .use q handle :: rest o

def replyOps (q : ℕ) (port : Port) (raw : ℤ) : List TableOp :=
  if 0 ≤ raw ∧ raw < maxObjPerProcess then
    k.slotOps q raw fun o =>
      if (k.object o).type ≠ .port then []
      else (port.owner.bind fun t => (k.thread t).owner).elim [] fun target =>
        (k.process target).handles.findOrAppendOps target o (maxObjPerProcess - 1)
  else []

def sendOps (q : ℕ) (handle : ℤ) (copy : Option Message) (messageSize : ℕ) : List TableOp :=
  let messageSize := if sizeofMessage < messageSize then sizeofMessage else messageSize
  if messageSize < sizeofMessageHeader then []
  else if handle < 0 ∨ maxObjPerProcess ≤ handle then []
  else k.slotOps q handle fun target =>
    match (k.object target).type, (k.object target).data with
    | .port, some p =>
      if (k.port p).owner = none ∨ maxMessagesInPort ≤ (k.port p).count then []
      else copy.elim [] fun m =>
        if messageSize - sizeofMessageHeader < m.header.payloadLength then []
        else k.replyOps q (k.port p) m.header.replyHandle
    | _, _ => []

def translateOps (q pid : ℕ) (handle : ℤ) (copy : Status) : List TableOp :=
  if pid = 0 then []
  else if maxObjPerProcess ≤ handle ∨ handle < 0 then []
  else (k.findProcessByID pid).elim [] fun origin =>
    if origin = q then []
    else k.slotOps origin handle fun original =>
      (k.process q).handles.findOrAppendOps q original maxObjPerProcess
        ++ ((k.process q).handles.findOrAppend original maxObjPerProcess).elim [] fun i =>
          if copy = .ok then [] else deleteOps q i

/-- What a call of a thread of process `q` does with handle tables. -/
def tableOps (q : ℕ) : HandleCall → List TableOp
  | .send handle copy size => k.sendOps q handle copy size
  | .receive handle _ =>
    if handle < 0 ∨ maxObjPerProcess ≤ handle then [] else k.slotOps q handle fun _ => []
  | .invokeObject handle _ _ =>
    if maxObjPerProcess ≤ handle ∨ handle < 0 then [] else k.slotOps q handle fun _ => []
  | .deleteObject handle =>
    if handle < 0 then [] else k.slotOps q handle fun _ => deleteOps q handle
  | .translateHandle of handle copy => k.translateOps q of handle copy

/-- The index is one of the table's, and an object is used only from a valid slot. -/
def OpSafe : TableOp → Prop
  | .read _ i => 0 ≤ i ∧ i < maxObjPerProcess
  | .write _ i => 0 ≤ i ∧ i < maxObjPerProcess
  | .shift _ i => 0 ≤ i ∧ i < maxObjPerProcess
  | .use q i => (k.process q).handles.validBitmap.getLsbD i.toNat = true

variable {k} {k' r : Kernel} {rest : ℕ → List TableOp}

theorem bitsInv_of_run {es : List (ℕ × Event)} (h : Run.exec eventStep boot es = some k) :
    k.BitsInv := by
  refine (Run.exec_invariant' (I := Base) (fun s e r hI hs => ?_) es boot_base h).bits
  exact (hI.running e.1).event (toOption_eq_some.1 hs)

theorem dwInvokeObject_process {op : ℕ} {args : InvokeArgs}
    (hs : k.dwInvokeObject cur handle op args = .ok (st, k')) (q : ℕ) :
    (k'.process q).handles = (k.process q).handles := by
  rcases dwInvokeObject_cases hs with ⟨rfl, -⟩ | ⟨q, o, -, -, -, -, -, ⟨-, hp⟩ | ⟨-, ht⟩⟩
  · rfl
  · rcases handlePortObjectRequest_cases hp with
      ⟨rfl, -⟩ | ⟨-, st', res, r, hr, hk⟩ | ⟨-, -, name, p, -, -, rfl⟩
    · rfl
    · have hmid : r.process = k.process := by
        rcases createPort_cases hr with
          ⟨-, -, rfl | rfl | ⟨x, rfl⟩⟩ | ⟨-, -, x, l, -, -, -, -, -, rfl⟩
        all_goals rfl
      rcases hk with ⟨-, rfl⟩ | ⟨p, -, rfl⟩
      all_goals simp [setObject, hmid]
    · rfl
  · exact (sameRefs_threadRequest ht).handles _

/-! ### What changes is stored -/

def SlotChanges (k k' : Kernel) (q i : ℕ) : Prop :=
  (k'.process q).handles.objlist i ≠ (k.process q).handles.objlist i
    ∨ (k'.process q).handles.validBitmap.getLsbD i ≠ (k.process q).handles.validBitmap.getLsbD i

theorem not_slotChanges (h : (k'.process q).handles = (k.process q).handles) :
    ¬ SlotChanges k k' q i := by
  simp [SlotChanges, h]

theorem SlotChanges.trans (h : SlotChanges k k' q i) :
    SlotChanges k r q i ∨ SlotChanges r k' q i := by
  by_contra hnot
  simp only [SlotChanges, not_or, not_not] at hnot
  rcases h with h | h
  · exact h (hnot.2.1.trans hnot.1.1)
  · exact h (hnot.2.2.trans hnot.1.2)

theorem getLsbD_shift_of_ne {j : ℕ} (h : j ≠ i) : (1#32 <<< i).getLsbD j = false := by
  by_cases hj : j < 32
  · rw [Bitmap.getLsbD_one_shiftLeft (w := 32) hj]
    simp [h]
  · exact BitVec.getLsbD_of_ge _ _ (by omega)

theorem slotChanges_setHandles
    (hobj : ∀ j, j ≠ i → table.objlist j = (k.process q).handles.objlist j)
    (hbit : ∀ j, j ≠ i → table.validBitmap.getLsbD j = (k.process q).handles.validBitmap.getLsbD j)
    (h : SlotChanges k (k.setHandles q table) q' i') : q' = q ∧ i' = i := by
  have hq : q' = q := by
    by_contra hne
    exact not_slotChanges (by rw [setHandles_process_ne k hne]) h
  subst hq
  refine ⟨rfl, ?_⟩
  by_contra hne
  simp only [SlotChanges, setHandles_process, hobj i' hne, hbit i' hne] at h
  simp at h

theorem slotChanges_append (happend : (k.process q).handles.appendToHandleTable o = some (i, table))
    (h : SlotChanges k (k.setHandles q table) q' i') :
    TableOp.write q' i' ∈ (k.process q).handles.appendOps q := by
  simp only [appendToHandleTable] at happend
  split_ifs at happend with hfull
  simp only [some.injEq, Prod.mk.injEq] at happend
  obtain ⟨rfl, rfl⟩ := happend
  obtain ⟨rfl, rfl⟩ := slotChanges_setHandles (fun j hj => Function.update_of_ne hj _ _)
    (fun j hj => by rw [BitVec.getLsbD_or, getLsbD_shift_of_ne hj, Bool.or_false]) h
  simp [appendOps, hfull]

theorem slotChanges_delete
    (h : SlotChanges k (k.setHandles q ((k.process q).handles.deleteFromHandleTable i).2) q' i') :
    TableOp.write q' i' ∈ deleteOps q i := by
  have hbit : ∀ j, j ≠ i →
      ((k.process q).handles.deleteFromHandleTable i).2.validBitmap.getLsbD j
        = (k.process q).handles.validBitmap.getLsbD j := by
    intro j hj
    by_cases hlt : j < 32
    · simp only [deleteFromHandleTable, BitVec.getLsbD_and, BitVec.getLsbD_not,
        getLsbD_shift_of_ne hj]
      simp [hlt]
    · rw [BitVec.getLsbD_of_ge _ _ (by omega), BitVec.getLsbD_of_ge _ _ (by omega)]
  obtain ⟨rfl, rfl⟩ := slotChanges_setHandles (fun j hj => Function.update_of_ne hj _ _) hbit h
  simp [deleteOps]

theorem slotOps_rest {op : TableOp} (hslot : (k.process q).handles.objlist handle.toNat = some o)
    (h : op ∈ rest o) : op ∈ k.slotOps q handle rest := by
  simp [slotOps, hslot, h]

theorem sendOps_write {p target size : ℕ} {copy : Option Message}
    (hsize : ¬ min size sizeofMessage < sizeofMessageHeader)
    (hrange : 0 ≤ handle ∧ handle < maxObjPerProcess)
    (hslot : (k.process q).handles.objlist handle.toNat = some target)
    (htype : (k.object target).type = .port) (hdata : (k.object target).data = some p)
    (hs : k.sendToPort q p copy (min size sizeofMessage) = .ok (st, k'))
    (h : SlotChanges k k' q' i) : .write q' i ∈ k.sendOps q handle copy size := by
  obtain ⟨-, ⟨-, rfl⟩ | ⟨-, -, slot, rfl⟩
    | ⟨m, owner, reply, r, -, rfl, howner, hcount, hlen, hr, rfl⟩⟩ := sendToPort_cases hs
  · exact absurd h (not_slotChanges rfl)
  · exact absurd h (not_slotChanges rfl)
  have hchange : SlotChanges k r q' i := by
    refine h.trans.resolve_right (not_slotChanges ?_)
    rw [(sameStore_wakeThread _ owner).process]
    rfl
  simp only [sendOps, truncated_size, if_neg hsize]
  rw [if_neg (by omega)]
  refine slotOps_rest hslot ?_
  simp only [htype, hdata, elim_some]
  rw [if_neg (by simp [howner]; omega), if_neg (by omega)]
  rcases translateReply_cases hr with ⟨-, -, rfl⟩ | ⟨-, -, rfl, -⟩
    | ⟨o, t, target', hraw, ho, -, hport, ht, htarget, -, ⟨i', -, -, rfl⟩
      | ⟨i', table, hfind, happend, -, rfl⟩ | ⟨-, -, rfl⟩⟩
  · exact absurd hchange (not_slotChanges rfl)
  · exact absurd hchange (not_slotChanges rfl)
  · exact absurd hchange (not_slotChanges rfl)
  · rw [replyOps, if_pos hraw]
    refine slotOps_rest ho ?_
    rw [if_neg (by simp [hport]), ht, bind_some, htarget, elim_some,
      findOrAppendOps, if_pos hfind]
    exact mem_append_right _ (slotChanges_append happend hchange)
  · exact absurd hchange (not_slotChanges rfl)

theorem translateOps_write {pid : ℕ} {copy : Status} (hq : (k.thread cur).owner = some q)
    (hs : k.dwTranslateHandle cur pid handle copy = .ok (st, k')) (h : SlotChanges k k' q' i) :
    .write q' i ∈ k.translateOps q pid handle copy := by
  rcases dwTranslateHandle_cases hs with
    rfl | ⟨this, origin, original, j, r, ⟨hpid, hrange⟩, hq', -, hfind, hne, hslot, hi, hk⟩
  · exact absurd h (not_slotChanges rfl)
  cases hq.symm.trans hq'
  rw [translateOps, if_neg hpid, if_neg (by omega), hfind, elim_some, if_neg hne]
  refine slotOps_rest hslot ?_
  -- the slot that was found or made, and what making it changed
  have hinstall : (k.process q).handles.findOrAppend original maxObjPerProcess = some j
      ∧ (SlotChanges k r q' i → .write q' i ∈
        (k.process q).handles.findOrAppendOps q original maxObjPerProcess) := by
    rcases installHandle_cases hi with ⟨hj, -⟩ | ⟨j', hj, rfl, hf⟩
      | ⟨j', table, ⟨hj, hf⟩, happend, -, rfl⟩
    · simp at hj
    · cases hj
      exact ⟨by simp [findOrAppend, hf], fun hc => absurd hc (not_slotChanges rfl)⟩
    · cases hj
      refine ⟨by simp [findOrAppend, hf, happend], fun hc => ?_⟩
      rw [findOrAppendOps, if_pos hf]
      exact mem_append_right _ (slotChanges_append happend hc)
  rw [hinstall.1, elim_some, mem_append]
  rcases hk with ⟨-, rfl⟩ | ⟨hcopy, -, rfl⟩
  · exact .inl (hinstall.2 h)
  rcases h.trans (r := r) with hc | hc
  · exact .inl (hinstall.2 hc)
  · refine .inr ?_
    rw [if_neg hcopy]
    exact slotChanges_delete hc

theorem tableOps_write {c : HandleCall} (hq : (k.thread cur).owner = some q)
    (hs : k.syscall cur c.call = .ok k') (h : SlotChanges k k' q' i) :
    .write q' i ∈ k.tableOps q c := by
  cases c with
  | send handle copy size =>
    obtain ⟨⟨st, r⟩, hr, rfl⟩ := map_eq_ok.1 hs
    rcases dwIPCSend_cases hr with
      ⟨-, rfl⟩ | ⟨q'', target, p, ⟨hsize, hrange⟩, hq'', -, hslot, -, htype, hdata, hp⟩
    · exact absurd h (not_slotChanges rfl)
    · cases hq.symm.trans hq''
      exact sendOps_write (not_lt.2 hsize) hrange hslot htype hdata hp h
  | receive handle copyOk =>
    obtain ⟨⟨rc, r⟩, hr, rfl⟩ := map_eq_ok.1 hs
    rcases dwIPCReceive_cases hr with
      ⟨st, -, -, -, rfl⟩ | ⟨q, o, p, owner, -, -, -, -, -, -, -, -, -, hp⟩
    · exact absurd h (not_slotChanges rfl)
    · exact absurd h (not_slotChanges ((sameRefs_receiveFrom hp).handles q'))
  | invokeObject handle op args =>
    obtain ⟨⟨st, r⟩, hr, rfl⟩ := map_eq_ok.1 hs
    exact absurd h (not_slotChanges (dwInvokeObject_process hr q'))
  | deleteObject handle =>
    rcases dwDeleteObject_cases hs with ⟨rfl, -⟩ | ⟨q'', o, hrange, hq'', -, hslot, -, hd⟩
    · exact absurd h (not_slotChanges rfl)
    cases hq.symm.trans hq''
    simp only [tableOps, if_neg (not_lt.2 hrange.1)]
    refine slotOps_rest hslot ?_
    have hchange : SlotChanges k (k.setHandles q
        ((k.process q).handles.deleteFromHandleTable handle.toNat).2) q' i := by
      refine h.trans.resolve_right (not_slotChanges ?_)
      rw [deleteObject_process hd]
      rfl
    have hwrite := slotChanges_delete hchange
    rwa [Int.toNat_of_nonneg hrange.1] at hwrite
  | translateHandle of handle copy =>
    obtain ⟨⟨st, r⟩, hr, rfl⟩ := map_eq_ok.1 hs
    exact translateOps_write hq hr h

/-! ### Every access but one is in bounds -/

theorem scanOps_safe (table : HandleTable) (q obj : ℕ) :
    ∀ {is : List ℕ}, (∀ i ∈ is, i < maxObjPerProcess) → ∀ op ∈ table.scanOps q obj is, k.OpSafe op
  | [], _, op, hop => by simp [scanOps] at hop
  | i :: is, hlt, op, hop => by
    have hi : (0 : ℤ) ≤ i ∧ (i : ℤ) < maxObjPerProcess := by
      have := hlt i mem_cons_self
      omega
    have hrest := scanOps_safe table q obj fun j hj => hlt j (mem_cons_of_mem _ hj)
    rw [scanOps, mem_cons] at hop
    rcases hop with rfl | hop
    · exact hi
    split_ifs at hop
    · rw [mem_singleton] at hop
      exact hop ▸ hi
    · rcases mem_cons.1 hop with rfl | hop
      · exact hi
      · exact hrest op hop
    · exact hrest op hop

theorem appendOps_safe (table : HandleTable) (q : ℕ) : ∀ op ∈ table.appendOps q, k.OpSafe op := by
  intro op hop
  unfold appendOps at hop
  split_ifs at hop with hfull
  · simp at hop
  have happend : table.appendToHandleTable 0 = some ((~~~table.validBitmap).ctz.toNat, _) :=
    if_neg hfull
  obtain ⟨hlt, -⟩ := appendToHandleTable_some happend
  have hi : (0 : ℤ) ≤ (~~~table.validBitmap).ctz.toNat
      ∧ ((~~~table.validBitmap).ctz.toNat : ℤ) < maxObjPerProcess := by omega
  simp only [mem_cons, not_mem_nil, or_false] at hop
  rcases hop with rfl | rfl
  · exact hi
  · exact hi

theorem findOrAppendOps_safe (table : HandleTable) (q obj : ℕ) {n : ℕ} (hn : n ≤ maxObjPerProcess) :
    ∀ op ∈ table.findOrAppendOps q obj n, k.OpSafe op := by
  intro op hop
  rcases mem_append.1 hop with hop | hop
  · exact scanOps_safe table q obj (fun i hi => (mem_range.1 hi).trans_le hn) op hop
  · split_ifs at hop
    · exact appendOps_safe table q op hop
    · simp at hop

theorem findOrAppend_lt {obj n : ℕ} (hn : n ≤ maxObjPerProcess)
    (h : table.findOrAppend obj n = some i) : i < maxObjPerProcess := by
  rcases or_eq_some_iff.1 h with hfind | ⟨-, happend⟩
  · exact (findHandle_some hfind).1.trans_le hn
  · obtain ⟨⟨j, table'⟩, hnew, rfl⟩ := map_eq_some_iff.1 happend
    exact (appendToHandleTable_some hnew).1

theorem deleteOps_safe (q : ℕ) {i : ℤ} (hi : 0 ≤ i ∧ i < maxObjPerProcess) :
    ∀ op ∈ deleteOps q i, k.OpSafe op := by
  intro op hop
  simp only [deleteOps, mem_cons, not_mem_nil, or_false] at hop
  rcases hop with rfl | rfl | rfl
  all_goals exact hi

theorem BitsInv.slotOps_safe (h : k.BitsInv) (q : ℕ) (hi : 0 ≤ handle ∧ handle < maxObjPerProcess)
    (hrest : ∀ o, ∀ op ∈ rest o, k.OpSafe op) : ∀ op ∈ k.slotOps q handle rest, k.OpSafe op := by
  intro op hop
  rcases mem_cons.1 hop with rfl | hop
  · exact hi
  cases hslot : (k.process q).handles.objlist handle.toNat with
  | none => simp [hslot] at hop
  | some o =>
    rw [hslot, elim_some] at hop
    rcases mem_cons.1 hop with rfl | hop
    · change (k.process q).handles.validBitmap.getLsbD handle.toNat = true
      rw [h q handle.toNat (by omega), hslot, isSome_some]
    · exact hrest o op hop

theorem safe_nil : ∀ op ∈ ([] : List TableOp), k.OpSafe op := fun op hop => by simp at hop

theorem BitsInv.replyOps_safe (h : k.BitsInv) (q : ℕ) (port : Port) (raw : ℤ) :
    ∀ op ∈ k.replyOps q port raw, k.OpSafe op := by
  unfold replyOps
  split_ifs with hraw
  · refine h.slotOps_safe q hraw fun o => ?_
    split_ifs
    · exact safe_nil
    · cases port.owner.bind fun t => (k.thread t).owner with
      | none => exact safe_nil
      | some target => exact findOrAppendOps_safe _ target o (Nat.sub_le _ _)
  · exact safe_nil

theorem BitsInv.sendOps_safe (h : k.BitsInv) (q : ℕ) (handle : ℤ) (copy : Option Message)
    (size : ℕ) : ∀ op ∈ k.sendOps q handle copy size, k.OpSafe op := by
  simp only [sendOps, truncated_size]
  split_ifs with hsize hrange
  · exact safe_nil
  · exact safe_nil
  refine h.slotOps_safe q (by omega) fun target => ?_
  split
  · split_ifs
    · exact safe_nil
    · cases copy with
      | none => exact safe_nil
      | some m =>
        simp only [elim_some]
        split_ifs
        · exact safe_nil
        · exact h.replyOps_safe q _ _
  · exact safe_nil

theorem BitsInv.translateOps_safe (h : k.BitsInv) (q pid : ℕ) (handle : ℤ) (copy : Status) :
    ∀ op ∈ k.translateOps q pid handle copy, k.OpSafe op := by
  unfold translateOps
  by_cases hpid : pid = 0
  · rw [if_pos hpid]
    exact safe_nil
  rw [if_neg hpid]
  by_cases hrange : maxObjPerProcess ≤ handle ∨ handle < 0
  · rw [if_pos hrange]
    exact safe_nil
  rw [if_neg hrange]
  cases k.findProcessByID pid with
  | none => exact safe_nil
  | some origin =>
    by_cases hsame : origin = q
    · rw [elim_some, if_pos hsame]
      exact safe_nil
    rw [elim_some, if_neg hsame]
    refine h.slotOps_safe origin (by omega) fun original op hop => ?_
    rcases mem_append.1 hop with hop | hop
    · exact findOrAppendOps_safe _ q original le_rfl op hop
    cases hi : (k.process q).handles.findOrAppend original maxObjPerProcess with
    | none => simp [hi] at hop
    | some i =>
      rw [hi, elim_some] at hop
      have hlt := findOrAppend_lt le_rfl hi
      split_ifs at hop
      · simp at hop
      · exact deleteOps_safe q (by omega) op hop

/-- In every reachable state a call keeps to the bounds of handle tables and uses objects of valid
slots only, unless it deletes an object by a handle from 32 on. -/
theorem handles_checked_iff {es : List (ℕ × Event)} (h : Run.exec eventStep boot es = some k)
    (q : ℕ) (c : HandleCall) : (∀ op ∈ k.tableOps q c, k.OpSafe op)
      ↔ ¬ ∃ handle : ℤ, maxObjPerProcess ≤ handle ∧ c = .deleteObject handle := by
  have hinv := bitsInv_of_run h
  constructor
  · rintro hsafe ⟨handle, hbig, rfl⟩
    have hneg : ¬ handle < 0 := by omega
    have hread : k.OpSafe (.read q handle) :=
      hsafe _ (by simp [tableOps, hneg, slotOps])
    exact absurd hread.2 (by omega)
  · intro hcheck
    cases c with
    | send handle copy size => exact hinv.sendOps_safe q handle copy size
    | receive handle copyOk =>
      simp only [tableOps]
      split_ifs with hrange
      · exact safe_nil
      · exact hinv.slotOps_safe q (by omega) fun _ => safe_nil
    | invokeObject handle op args =>
      simp only [tableOps]
      split_ifs with hrange
      · exact safe_nil
      · exact hinv.slotOps_safe q (by omega) fun _ => safe_nil
    | deleteObject handle =>
      have hlt : handle < maxObjPerProcess := by
        by_contra hbig
        exact hcheck ⟨handle, not_lt.1 hbig, rfl⟩
      simp only [tableOps]
      split_ifs with hneg
      · exact safe_nil
      · exact hinv.slotOps_safe q (by omega) fun _ => deleteOps_safe q (by omega)
    | translateHandle of handle copy => exact hinv.translateOps_safe q of handle copy

/-- A new process deletes the object with handle 32. -/
theorem handle_unchecked :
    ∃ k, Run.exec eventStep boot [(0, .createProcess)] = some k ∧ k.currProc 0 = .ok 0
      ∧ ¬ ∀ op ∈ k.tableOps 0 (.deleteObject 32), k.OpSafe op := by
  have hrun : (Run.exec eventStep boot [(0, .createProcess)]).bind (fun k =>
      (k.currProc 0).toOption) = some 0 := by
    decide +kernel
  obtain ⟨k, hk, hcur⟩ := bind_eq_some_iff.1 hrun
  refine ⟨k, hk, toOption_eq_some.1 hcur, fun hsafe => ?_⟩
  have hread : k.OpSafe (.read 0 32) := hsafe _ (by simp [tableOps, slotOps])
  exact absurd hread.2 (by decide)

theorem handles_checked_iff_last_slot :
    ∃ k, Run.exec eventStep boot [(0, .createProcess)] = some k
      ∧ ∀ op ∈ k.tableOps 0 (.deleteObject 31), k.OpSafe op := by
  have hrun : (Run.exec eventStep boot [(0, .createProcess)]).isSome = true := by
    decide +kernel
  obtain ⟨k, hk⟩ := isSome_iff_exists.1 hrun
  refine ⟨k, hk, (handles_checked_iff hk 0 (.deleteObject 31)).2 ?_⟩
  rintro ⟨handle, hbig, heq⟩
  cases heq
  exact absurd hbig (by decide)

end Kernel

end DragonWare
