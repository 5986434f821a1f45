import DragonWare.Proofs.IrqLines
import DragonWare.Proofs.Queue
import DragonWare.Proofs.UserCopy
import DragonWare.UserResults

/-!
# Calls whose result cannot be copied out

`_DWTranslateHandle` takes the slot back when its index cannot be stored, whether it has made the
slot or found it there, and `_DWIPCReceive` takes the message off the queue before it knows whether
it can be stored.
-/

namespace DragonWare

open Fallible Function Kernel List Option

namespace HandleTable

variable {table table' : HandleTable} {obj i : ℕ}

theorem BitsAgree.delete_append (h : table.BitsAgree)
    (happend : table.appendToHandleTable obj = some (i, table')) :
    (table'.deleteFromHandleTable i).2 = table := by
  have hfree := h.free happend
  obtain ⟨hi, hclear, hobj, hbits⟩ := appendToHandleTable_some happend
  obtain ⟨objlist, validBitmap⟩ := table
  simp only [deleteFromHandleTable, mk.injEq]
  constructor
  · rw [hobj, update_idem]
    exact update_eq_self_iff.2 hfree.symm
  · refine BitVec.eq_of_getLsbD_eq fun j hj => ?_
    have hj' : j < maxObjPerProcess := hj
    rw [BitVec.getLsbD_and, BitVec.getLsbD_not, Bitmap.getLsbD_one_shiftLeft (w := 32) hj,
      hbits j hj']
    by_cases hji : j = i
    · simp only [hji] at hclear ⊢
      simp [hclear]
    · simp [hji, hj]

theorem BitsAgree.findHandle_ne_none (h : table.BitsAgree) {n : ℕ} (hn : n ≤ maxObjPerProcess)
    (hi : i < n) (hobj : table.objlist i = some obj) : table.findHandle obj n ≠ none := by
  intro hnone
  have hno := find?_eq_none.1 hnone i (mem_range.2 hi)
  have hbit := h i (hi.trans_le hn)
  simp [hbit, hobj] at hno

end HandleTable

namespace Kernel

variable {k k' : Kernel} {m : Mmu} {cur pid this original : ℕ} {handle : ℤ} {save : BitVec 32}
  {st : Status} {told : Option ℤ}

def Translates (k : Kernel) (cur pid : ℕ) (handle : ℤ) (this original : ℕ) : Prop :=
  pid ≠ 0 ∧ (0 ≤ handle ∧ handle < maxObjPerProcess) ∧ (k.thread cur).owner = some this
    ∧ ∃ origin ∈ k.findProcessByID pid, origin ≠ this
      ∧ (k.process origin).handles.objlist handle.toNat = some original

theorem Translates.unique {this' original' : ℕ} (h : k.Translates cur pid handle this original)
    (h' : k.Translates cur pid handle this' original') : this = this' ∧ original = original' := by
  obtain ⟨-, -, hthis, origin, hfind, -, hslot⟩ := h
  obtain ⟨-, -, hthis', origin', hfind', -, hslot'⟩ := h'
  cases hthis.symm.trans hthis'
  cases hfind.symm.trans hfind'
  exact ⟨rfl, some.inj (hslot.symm.trans hslot')⟩

/-- Without the handle that is stored, this is `_DWTranslateHandle` with the status that
`CopyToUser` returns. -/
theorem translateHandleTo_eq :
    (k.translateHandleTo m cur pid handle save).map (fun r => (r.1, r.2.2))
      = k.dwTranslateHandle cur pid handle (m.checkUserRange save 4#32) := by
  unfold translateHandleTo dwTranslateHandle
  generalize m.checkUserRange save 4#32 = copy
  by_cases hpid : pid = 0
  · simp only [if_pos hpid]
    rfl
  by_cases hhandle : maxObjPerProcess ≤ handle ∨ handle < 0
  · simp only [if_neg hpid, if_pos hhandle]
    rfl
  simp only [if_neg hpid, if_neg hhandle]
  rcases k.currProc cur with e | this
  · rfl
  rcases k.findProcessByID pid with _ | origin
  · rfl
  by_cases hsame : origin = this
  · simp [hsame, Bind.bind, Except.bind, Except.map, pure_eq]
  rcases hslot : (k.process origin).handles.objlist handle.toNat with _ | original
  · simp [hsame, hslot, Bind.bind, Except.bind, Except.map, pure_eq]
  rcases hr : k.installHandle this original with e | ⟨_ | i, r⟩
  · simp [hsame, hslot, hr, Bind.bind, Except.bind, Except.map]
  · simp [hsame, hslot, hr, Bind.bind, Except.bind, Except.map, pure_eq]
  by_cases hcopy : copy = .ok
  · simp [hsame, hslot, hr, hcopy, Bind.bind, Except.bind, Except.map, pure_eq]
  rcases hobj : r.derefObject original with e | obj
  · simp [hsame, hslot, hr, hcopy, hobj, Bind.bind, Except.bind, Except.map]
  · simp [hsame, hslot, hr, hcopy, hobj, Bind.bind, Except.bind, Except.map, pure_eq]

theorem translateHandleTo_cases
    (h : k.translateHandleTo m cur pid handle save = .ok (st, told, k')) :
    (k' = k ∧ ∀ this original, ¬ k.Translates cur pid handle this original)
    ∨ ∃ this original res r, k.Translates cur pid handle this original
      ∧ k.installHandle this original = .ok (res, r)
      ∧ ((res = none ∧ st ≠ .ok ∧ k' = r)
        ∨ ∃ i : ℕ, res = some i
          ∧ ((m.checkUserRange save 4#32 = .ok ∧ st = .ok ∧ told = some i ∧ k' = r)
            ∨ (m.checkUserRange save 4#32 ≠ .ok ∧ st ≠ .ok
              ∧ k' = (r.setHandles this
                ((r.process this).handles.deleteFromHandleTable i).2).setObject original
                { r.object original with refcnt := countDown (r.object original).refcnt }))) := by
  have hcall : k.dwTranslateHandle cur pid handle (m.checkUserRange save 4#32) = .ok (st, k') := by
    rw [← translateHandleTo_eq, h]
    rfl
  by_cases hno : ∀ this original, ¬ k.Translates cur pid handle this original
  · rcases dwTranslateHandle_cases hcall with
      rfl | ⟨this, origin, original, i, r, ⟨hpid, hrange⟩, hq, -, hfind, hne, hslot, -⟩
    · exact .inl ⟨rfl, hno⟩
    · exact absurd ⟨hpid, hrange, hq, origin, hfind, hne, hslot⟩ (hno this original)
  push Not at hno
  obtain ⟨this, original, ht⟩ := hno
  obtain ⟨hpid, hrange, hthis, origin, hfind, hne, hslot⟩ := id ht
  unfold translateHandleTo at h
  simp only at h
  rw [if_neg hpid, if_neg (by omega)] at h
  obtain ⟨this', hthis', h⟩ := bind_eq_ok.1 h
  cases hthis.symm.trans (currProc_ok.1 hthis').1
  simp only [show k.findProcessByID pid = some origin from hfind, if_neg hne, hslot] at h
  obtain ⟨⟨res, r⟩, hr, h⟩ := bind_eq_ok.1 h
  refine .inr ⟨this, original, res, r, ht, hr, ?_⟩
  cases res with
  | none =>
    cases h
    exact .inl ⟨rfl, by simp, rfl⟩
  | some i =>
    refine .inr ⟨i, rfl, ?_⟩
    simp only at h
    split_ifs at h with hcopy
    · cases h
      exact .inl ⟨hcopy, rfl, rfl, rfl⟩
    obtain ⟨obj, hobj, h⟩ := bind_eq_ok.1 h
    obtain ⟨-, rfl⟩ := derefObject_ok.1 hobj
    cases h
    exact .inr ⟨hcopy, hcopy, rfl⟩

/-- A translation that fails has changed no table and no count. One that succeeds has put the object
where it says, and nowhere else. -/
structure AllOrNothing (k k' : Kernel) (cur pid : ℕ) (handle : ℤ) (st : Status)
    (told : Option ℤ) : Prop where
  nothing : st ≠ .ok → (∀ q, (k'.process q).handles = (k.process q).handles)
    ∧ ∀ o, (k'.object o).refcnt = (k.object o).refcnt
  all : st = .ok → ∀ this original, k.Translates cur pid handle this original →
    ∃ i < maxObjPerProcess, told = some (i : ℤ)
      ∧ (k'.process this).handles.objlist i = some original
      ∧ ∀ j, (k'.process this).handles.objlist j = some original →
        j = i ∨ (k.process this).handles.objlist j = some original

theorem allOrNothing_refl (h : ∀ this original, ¬ k.Translates cur pid handle this original) :
    AllOrNothing k k cur pid handle st told :=
  ⟨fun _ => ⟨fun _ => rfl, fun _ => rfl⟩, fun _ this original ht => absurd ht (h this original)⟩

def NewToCaller (k : Kernel) (cur pid : ℕ) (handle : ℤ) : Prop :=
  ∀ this original, k.Translates cur pid handle this original →
    ∀ i < maxObjPerProcess, (k.process this).handles.objlist i ≠ some original

theorem installHandle_none (h : k.installHandle this original = .ok (none, k')) :
    (k.process this).handles.findHandle original maxObjPerProcess = none := by
  cases hfind : (k.process this).handles.findHandle original maxObjPerProcess with
  | none => rfl
  | some i =>
    simp only [installHandle, hfind] at h
    cases h

theorem newToCaller_of_findHandle (hb : k.BitsInv) (ht : k.Translates cur pid handle this original)
    (hfind : (k.process this).handles.findHandle original maxObjPerProcess = none) :
    k.NewToCaller cur pid handle := by
  intro this' original' ht' i hi hslot
  obtain ⟨rfl, rfl⟩ := ht.unique ht'
  exact (hb this).findHandle_ne_none le_rfl hi hslot hfind

theorem rollback_eq (hb : k.BitsInv) {i : ℕ} {table : HandleTable}
    (happend : (k.process this).handles.appendToHandleTable original = some (i, table)) {r : Kernel}
    (hr : r = (k.setHandles this table).setObject original
      { k.object original with refcnt := (k.object original).refcnt + 1 })
    (hk : k' = (r.setHandles this
      ((r.process this).handles.deleteFromHandleTable i).2).setObject original
      { r.object original with refcnt := countDown (r.object original).refcnt }) :
    (∀ q, (k'.process q).handles = (k.process q).handles)
      ∧ ∀ o, (k'.object o).refcnt = (k.object o).refcnt := by
  have htable : (r.process this).handles = table := by
    rw [hr]
    exact setHandles_process k this table
  have hback := (hb this).delete_append happend
  refine ⟨fun q => ?_, fun o => ?_⟩
  · rw [hk, htable]
    by_cases hq : q = this
    · rw [hq]
      exact (setHandles_process _ _ _).trans hback
    have hne : ∀ (a : Kernel) t, (a.setHandles this t).process q = a.process q := fun a t =>
      setHandles_process_ne a hq t
    have hrq : r.process q = k.process q := by
      rw [hr]
      exact hne k table
    exact congrArg Process.handles ((hne _ _).trans hrq)
  · by_cases ho : o = original
    · simp [hk, hr, setObject, ho, countDown]
    · simp [hk, hr, setObject, setHandles, setProcess, ho]

theorem translateHandleTo_allOrNothing (hb : k.BitsInv)
    (h : k.translateHandleTo m cur pid handle save = .ok (st, told, k')) :
    AllOrNothing k k' cur pid handle st told
      ↔ (m.checkUserRange save 4#32 ≠ .ok → k.NewToCaller cur pid handle) := by
  rcases translateHandleTo_cases h with ⟨rfl, hno⟩ | ⟨this, original, res, r, ht, hr, hcases⟩
  · exact iff_of_true (allOrNothing_refl hno) fun _ this original ht => absurd ht (hno _ _)
  rcases hcases with ⟨rfl, hst, rfl⟩ | ⟨i, rfl, ⟨hcopy, rfl, rfl, rfl⟩ | ⟨hcopy, hst, hk'⟩⟩
  · -- no slot is free
    have hfind := installHandle_none hr
    have hsame : k' = k := by
      rcases installHandle_cases hr with ⟨-, hsame⟩ | ⟨i, hi, -⟩ | ⟨i, table, ⟨hi, -⟩, -⟩
      · exact hsame
      · cases hi
      · cases hi
    refine iff_of_true ⟨fun _ => ?_, fun hok => absurd hok hst⟩ fun _ =>
      newToCaller_of_findHandle hb ht hfind
    rw [hsame]
    exact ⟨fun _ => rfl, fun _ => rfl⟩
  · -- the index is stored
    refine iff_of_true ⟨fun hok => absurd rfl hok, fun _ this' original' ht' => ?_⟩ fun hno =>
      absurd hcopy hno
    obtain ⟨rfl, rfl⟩ := ht.unique ht'
    rcases installHandle_cases hr with
      ⟨hnone, -⟩ | ⟨j, hj, rfl, hfind⟩ | ⟨j, table, ⟨hj, -⟩, happend, -, rfl⟩
    · cases hnone
    · cases hj
      obtain ⟨hi, -, hslot⟩ := HandleTable.findHandle_some hfind
      exact ⟨i, hi, rfl, hslot, fun j hj => .inr hj⟩
    cases hj
    obtain ⟨hi, -, hobj, -⟩ := HandleTable.appendToHandleTable_some happend
    have hslots : ((k.setHandles this table).process this).handles.objlist
        = update (k.process this).handles.objlist i (some original) := by
      rw [setHandles_process, hobj]
    refine ⟨i, hi, rfl, (congrFun hslots i).trans (update_self ..), fun j hj => ?_⟩
    by_cases hji : j = i
    · exact .inl hji
    · have hj' := (congrFun hslots j).symm.trans hj
      rw [update_of_ne hji] at hj'
      exact .inr hj'
  · -- the index cannot be stored
    rcases installHandle_cases hr with
      ⟨hnone, -⟩ | ⟨j, hj, rfl, hfind⟩ | ⟨j, table, ⟨hj, hfind⟩, happend, -, hrk⟩
    · cases hnone
    · cases hj
      obtain ⟨hi, -, hslot⟩ := HandleTable.findHandle_some hfind
      refine iff_of_false (fun hall => ?_) fun hnew => hnew hcopy this original ht i hi hslot
      have hgone : (k'.process this).handles.objlist i = none := by
        rw [hk']
        have hset := setHandles_process r this ((r.process this).handles.deleteFromHandleTable i).2
        exact (congrArg (HandleTable.objlist · i) hset).trans (update_self ..)
      rw [(hall.nothing hst).1 this, hslot] at hgone
      cases hgone
    · cases hj
      exact iff_of_true ⟨fun _ => rollback_eq hb happend hrk hk', fun hok => absurd hok hst⟩
        fun _ => newToCaller_of_findHandle hb ht hfind

end Kernel

/-- A translation is all or nothing exactly when its result can be stored or the object is new to
the caller. -/
theorem translateHandle_all_or_nothing_iff {s : IrqKernel} (hs : s.Reachable) {m : Mmu}
    {cur pid : ℕ} {handle : ℤ} {save : BitVec 32} {st : Status} {told : Option ℤ} {k' : Kernel}
    (h : s.kernel.translateHandleTo m cur pid handle save = .ok (st, told, k')) :
    AllOrNothing s.kernel k' cur pid handle st told
      ↔ (m.checkUserRange save 4#32 ≠ .ok → s.kernel.NewToCaller cur pid handle) :=
  translateHandleTo_allOrNothing hs.sane.base.bits h

def oneObject : List IrqStep :=
  [.task 0 (.event .createProcess), .task 0 (.event .createProcess),
    .task 0 (.event (.call (.createObject none .port true)))]

/-- A process asks again for an object it has, with an address that is not mapped: the slot is gone,
and the object is counted once too little. -/
theorem translateHandle_drops_slot :
    ∃ (s : IrqKernel) (st : Status) (told : Option ℤ) (k' : Kernel), s.Reachable
      ∧ s.kernel.translateHandleTo (onePageTable []) 1 1 0 0 = .ok (st, told, k') ∧ st ≠ .ok
      ∧ (s.kernel.process 1).handles.objlist 0 = some 0 ∧ (s.kernel.object 0).refcnt = 2
      ∧ (k'.process 1).handles.objlist 0 = none ∧ (k'.object 0).refcnt = 1 := by
  have hrun : (Run.exec (fun s a => (IrqKernel.step s a).toOption) .boot (oneObject ++
      [.task 1 (.event (.call (.translateHandle 1 0 .ok)))])).bind (fun s =>
        (s.kernel.translateHandleTo (onePageTable []) 1 1 0 0).toOption.map fun r =>
          (r.1, (s.kernel.process 1).handles.objlist 0, (s.kernel.object 0).refcnt,
            (r.2.2.process 1).handles.objlist 0, (r.2.2.object 0).refcnt))
      = some (.badArgument, some 0, 2, none, 1) := by
    decide +kernel
  obtain ⟨s, hs, hrun⟩ := bind_eq_some_iff.1 hrun
  obtain ⟨⟨st, told, k'⟩, hr, hlast⟩ := map_eq_some_iff.1 hrun
  simp only [Prod.mk.injEq] at hlast
  obtain ⟨rfl, hrest⟩ := hlast
  exact ⟨s, _, told, k', ⟨_, hs⟩, toOption_eq_some.1 hr, by decide, hrest⟩

/-- The second process asks for the object for the first time, with an address that is not
mapped. -/
theorem translateHandle_all_or_nothing_first :
    ∃ (s : IrqKernel) (st : Status) (told : Option ℤ) (k' : Kernel), s.Reachable
      ∧ s.kernel.translateHandleTo (onePageTable []) 1 1 0 0 = .ok (st, told, k')
      ∧ AllOrNothing s.kernel k' 1 1 0 st told := by
  have hrun : (Run.exec (fun s a => (IrqKernel.step s a).toOption) .boot oneObject).bind (fun s =>
        (s.kernel.translateHandleTo (onePageTable []) 1 1 0 0).toOption.map fun _ =>
          ((s.kernel.thread 1).owner, decide (∀ i < maxObjPerProcess,
            (s.kernel.process 1).handles.objlist i = none))) = some (some 1, true) := by
    decide +kernel
  obtain ⟨s, hs, hrun⟩ := bind_eq_some_iff.1 hrun
  obtain ⟨⟨st, told, k'⟩, hr, hlast⟩ := map_eq_some_iff.1 hrun
  simp only [Prod.mk.injEq, decide_eq_true_eq] at hlast
  obtain ⟨howner, hempty⟩ := hlast
  have hk := toOption_eq_some.1 hr
  refine ⟨s, st, told, k', ⟨_, hs⟩, hk, (translateHandle_all_or_nothing_iff ⟨_, hs⟩ hk).2 ?_⟩
  intro _ this original ht i hi hslot
  obtain ⟨-, -, hthis, -⟩ := ht
  cases howner.symm.trans hthis
  cases (hempty i hi).symm.trans hslot

namespace Kernel

variable {k k' : Kernel} {m : Mmu} {cur p : ℕ} {msave : BitVec 32}

def ReceivesFrom (k : Kernel) (cur : ℕ) : ReceiveEntry → ℕ → Prop
  | .call handle, p => (0 ≤ handle ∧ handle < maxObjPerProcess) ∧ ∃ q o owner,
      (k.thread cur).owner = some q ∧ (k.process q).handles.objlist handle.toNat = some o
        ∧ (k.object o).type = .port ∧ (k.object o).data = some p
        ∧ (k.port p).owner = some owner ∧ (k.thread owner).owner = some q
  | .resume p', p => p' = p

/-- A receive that fails leaves every queue as it was, and every receive after it gets what it would
have got before. -/
structure LosesNothing (m : Mmu) (k k' : Kernel) (cur : ℕ) (rc : Receipt) : Prop where
  queue : ∀ st d, rc = .done st d → st ≠ .ok → ∀ p, (k'.port p).queue = (k.port p).queue
  later : ∀ st d, rc = .done st d → st ≠ .ok → ∀ msave entry,
    k'.receiveTo m cur msave entry = k.receiveTo m cur msave entry

theorem queue_length (port : Port) : port.queue.length = port.count := by
  simp [Port.queue, Ring.contents]

theorem receiveFrom_losesNothing {copyOk : Bool} {rc : Receipt}
    (h : k.receiveFrom cur p copyOk = .ok (rc, k')) :
    LosesNothing m k k' cur rc ↔ ((k.port p).count ≠ 0 → copyOk = true) := by
  obtain ⟨-, ⟨hcount, rfl, -⟩ | ⟨hcount, hrc, hk'⟩⟩ := receiveFrom_cases h
  · exact iff_of_true ⟨nofun, nofun⟩ fun hne => absurd hcount hne
  cases copyOk with
  | true =>
    rw [if_pos rfl] at hrc
    subst hrc
    refine iff_of_true ⟨fun st d hd hst => ?_, fun st d hd hst => ?_⟩ fun _ => rfl
    · cases hd
      exact absurd rfl hst
    · cases hd
      exact absurd rfl hst
  | false =>
    rw [if_neg Bool.false_ne_true] at hrc
    refine iff_of_false (fun hkeeps => ?_) fun hall => Bool.false_ne_true (hall hcount)
    have hlen := congrArg length (hkeeps.queue .bad none hrc (by decide) p)
    rw [queue_length, queue_length, hk'] at hlen
    simp only [setPort, update_self, Port.advanceHead] at hlen
    omega

theorem receiveTo_eq {handle : ℤ} {r : Receipt × Kernel} (hp : k.ReceivesFrom cur (.call handle) p)
    (h : k.receiveTo m cur msave (.call handle) = .ok r) :
    k.receiveFrom cur p (k.canCopyHead m p msave) = .ok r := by
  obtain ⟨hrange, q, o, owner, hq, hslot, htype, hdata, howner, hown⟩ := hp
  have hport := portOfHandle_eq hq hslot hdata
  simp only [receiveTo, hport, any_some, dwIPCReceive] at h
  rw [if_neg (by omega)] at h
  obtain ⟨q', hq', h⟩ := bind_eq_ok.1 h
  obtain ⟨hq', -⟩ := currProc_ok.1 hq'
  cases hq.symm.trans hq'
  simp only [hslot] at h
  obtain ⟨obj, hobj, h⟩ := bind_eq_ok.1 h
  obtain ⟨-, rfl⟩ := derefObject_ok.1 hobj
  simp only [htype, hdata] at h
  obtain ⟨port, hport', h⟩ := bind_eq_ok.1 h
  obtain ⟨-, rfl⟩ := derefPort_ok.1 hport'
  obtain ⟨owner', howner', h⟩ := bind_eq_ok.1 h
  cases howner.symm.trans (nonNull_ok.1 howner')
  rw [if_neg (not_not.2 hown)] at h
  exact h

theorem ReceivesFrom.unique {entry : ReceiveEntry} {p' : ℕ} (h : k.ReceivesFrom cur entry p)
    (h' : k.ReceivesFrom cur entry p') : p = p' := by
  cases entry with
  | resume p0 => exact h.symm.trans h'
  | call handle =>
    obtain ⟨-, q, o, -, hq, hslot, -, hdata, -⟩ := h
    obtain ⟨-, q', o', -, hq', hslot', -, hdata', -⟩ := h'
    cases hq.symm.trans hq'
    cases hslot.symm.trans hslot'
    exact some.inj (hdata.symm.trans hdata')

end Kernel

/-- A receive that fails loses nothing exactly when the message that it finds can be stored. -/
theorem failed_receive_keeps_queue_iff {k k' : Kernel} {m : Mmu} {cur : ℕ} {msave : BitVec 32}
    {entry : ReceiveEntry} {rc : Receipt} (h : k.receiveTo m cur msave entry = .ok (rc, k')) :
    LosesNothing m k k' cur rc ↔ ∀ p, k.ReceivesFrom cur entry p → (k.port p).count ≠ 0 →
      k.canCopyHead m p msave = true := by
  have hone : ∀ p, k.ReceivesFrom cur entry p →
      k.receiveFrom cur p (k.canCopyHead m p msave) = .ok (rc, k') →
      (LosesNothing m k k' cur rc ↔ ∀ p, k.ReceivesFrom cur entry p →
        (k.port p).count ≠ 0 → k.canCopyHead m p msave = true) := by
    intro p hp hr
    rw [receiveFrom_losesNothing hr]
    refine ⟨fun hall p' hp' => ?_, fun hall => hall p hp⟩
    rw [← hp.unique hp']
    exact hall
  cases entry with
  | resume p => exact hone p rfl h
  | call handle =>
    by_cases hport : ∃ p, k.ReceivesFrom cur (.call handle) p
    · obtain ⟨p, hp⟩ := hport
      exact hone p hp (receiveTo_eq hp h)
    -- there is no port to receive from
    refine iff_of_true ?_ fun p hp => absurd ⟨p, hp⟩ hport
    rcases dwIPCReceive_cases h with
      ⟨st, -, -, -, rfl⟩ | ⟨q, o, p, owner, hr, hq, -, hslot, -, htype, hdata, howner, hown, -⟩
    · exact ⟨fun _ _ _ _ _ => rfl, fun _ _ _ _ _ _ => rfl⟩
    · exact absurd ⟨p, hr, q, o, owner, hq, hslot, htype, hdata, howner, hown⟩ hport

def oneMessage : List IrqStep :=
  [.task 0 (.event .createProcess), .task 0 (.event (.call (.createObject none .port true))),
    .task 0 (.event (.call (.invokeObject 0 0 noArgs))),
    .task 0 (.event (.call (.send 0 (some (emptyMessage (-1))) 24)))]

/-- The address is not mapped, and the message is gone. -/
theorem failed_receive_loses_message :
    ∃ (s : IrqKernel) (k' : Kernel), s.Reachable
      ∧ s.kernel.receiveTo (onePageTable []) 0 0 (.call 0) = .ok (.done .bad none, k')
      ∧ (s.kernel.port 0).queue.length = 1 ∧ (k'.port 0).queue = [] := by
  have hrun : (Run.exec (fun s a => (IrqKernel.step s a).toOption) .boot oneMessage).bind (fun s =>
      (s.kernel.receiveTo (onePageTable []) 0 0 (.call 0)).toOption.map fun r =>
        (r.1, (s.kernel.port 0).count, (r.2.port 0).count)) = some (.done .bad none, 1, 0) := by
    decide +kernel
  obtain ⟨s, hs, hrun⟩ := bind_eq_some_iff.1 hrun
  obtain ⟨⟨rc, k'⟩, hr, hlast⟩ := map_eq_some_iff.1 hrun
  simp only [Prod.mk.injEq] at hlast
  obtain ⟨rfl, hbefore, hafter⟩ := hlast
  refine ⟨s, k', ⟨_, hs⟩, toOption_eq_some.1 hr, ?_, ?_⟩
  · rw [queue_length, hbefore]
  · exact eq_nil_of_length_eq_zero ((queue_length _).trans hafter)

theorem failed_receive_keeps_queue_mapped :
    ∃ (s : IrqKernel) (rc : Receipt) (k' : Kernel), s.Reachable
      ∧ s.kernel.receiveTo (onePageTable [1]) 0 0x1000#32 (.call 0) = .ok (rc, k')
      ∧ LosesNothing (onePageTable [1]) s.kernel k' 0 rc := by
  have hrun : (Run.exec (fun s a => (IrqKernel.step s a).toOption) .boot oneMessage).bind (fun s =>
      (s.kernel.receiveTo (onePageTable [1]) 0 0x1000#32 (.call 0)).toOption.map fun _ =>
        (s.kernel.portOfHandle 0 0, s.kernel.canCopyHead (onePageTable [1]) 0 0x1000#32))
      = some (some 0, true) := by
    decide +kernel
  obtain ⟨s, hs, hrun⟩ := bind_eq_some_iff.1 hrun
  obtain ⟨⟨rc, k'⟩, hr, hlast⟩ := map_eq_some_iff.1 hrun
  simp only [Prod.mk.injEq] at hlast
  obtain ⟨hport, hcopy⟩ := hlast
  have hk := toOption_eq_some.1 hr
  refine ⟨s, rc, k', ⟨_, hs⟩, hk, (failed_receive_keeps_queue_iff hk).2 fun p hp _ => ?_⟩
  obtain ⟨-, q, o, owner, hq, hslot, -, hdata, -⟩ := hp
  cases hport.symm.trans (portOfHandle_eq hq hslot hdata)
  exact hcopy

end DragonWare
