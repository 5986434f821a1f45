import DragonWare.Proofs.Object
import DragonWare.Syscall

/-!
# What system calls and events can do

One lemma for each call, with every way it can end. An event of the current thread is a call or the
next round of its receive loop, unless it changes nothing.
-/

namespace DragonWare

open Fallible

namespace Kernel

variable {k k' : Kernel} {args : InvokeArgs} {cur o op : ℕ} {handle : ℤ} {st : Status}
  {res : Option ℕ}

theorem objectOfHandle_eq_some :
    k.objectOfHandle cur handle = some o ↔ (0 ≤ handle ∧ handle < maxObjPerProcess)
      ∧ ∃ q, (k.thread cur).owner = some q
        ∧ (k.process q).handles.objlist handle.toNat = some o := by
  unfold objectOfHandle
  split_ifs with h <;> simp [h, Option.bind_eq_some_iff]

theorem dwCreateObject_cases {name : Option (List (BitVec 8))} {type : ObjectType} {ok : Bool}
    (h : k.dwCreateObject cur name type ok = .ok (res, k')) :
    (ok = false ∧ k' = k)
    ∨ ∃ q, ok = true ∧ (k.thread cur).owner = some q ∧ k.live.process q = true
      ∧ ((res = none ∧ (k.process q).handles.appendToHandleTable k.objects = none
          ∧ k' = (k.allocateObject name type).2)
        ∨ ∃ i table, res = some i
          ∧ (k.process q).handles.appendToHandleTable k.objects = some (i, table)
          ∧ k' = (k.allocateObject name type).2.setHandles q table) := by
  unfold dwCreateObject at h
  split_ifs at h with hok
  · cases h
    exact .inl ⟨by simpa using hok, rfl⟩
  obtain ⟨q, hq, h⟩ := bind_eq_ok.1 h
  obtain ⟨hq, hl⟩ := currProc_ok.1 hq
  refine .inr ⟨q, by simpa using hok, hq, hl, ?_⟩
  split at h
  · rename_i i table happend
    cases h
    exact .inr ⟨i, table, rfl, happend, rfl⟩
  · rename_i happend
    cases h
    exact .inl ⟨rfl, happend, rfl⟩

theorem handlePortObjectRequest_cases (h : k.handlePortObjectRequest cur o op args = .ok (st, k')) :
    (k' = k ∧ (op = 1 → ∀ name, args.openName = some name → k.findPortByName name = .ok none))
    ∨ (op = 0 ∧ ∃ st' res r, k.createPort (objectName (k.object o) args.staleName) cur args.portOk
        args.nodeOk = .ok (st', res, r)
      ∧ ((res = none ∧ k' = r)
        ∨ ∃ p, res = some p ∧ k' = r.setObject o { r.object o with data := some p }))
    ∨ (op = 1 ∧ st = .ok ∧ ∃ name p, args.openName = some name
      ∧ k.findPortByName name = .ok (some p)
      ∧ k' = k.setObject o { k.object o with
          data := some p, refcnt := (k.object o).refcnt + 1 }) := by
  unfold handlePortObjectRequest at h
  split at h
  · obtain ⟨⟨st', res, r⟩, hr, h⟩ := bind_eq_ok.1 h
    cases res with
    | none =>
      cases h
      exact .inr (.inl ⟨rfl, _, none, _, hr, .inl ⟨rfl, rfl⟩⟩)
    | some p =>
      cases h
      exact .inr (.inl ⟨rfl, _, some p, r, hr, .inr ⟨p, rfl, rfl⟩⟩)
  · split at h
    · rename_i hname
      cases h
      exact .inl ⟨rfl, by simp [hname]⟩
    · rename_i name hname
      obtain ⟨found, hfound, h⟩ := bind_eq_ok.1 h
      cases found with
      | none =>
        cases h
        exact .inl ⟨rfl, fun _ name' hname' => Option.some.inj (hname.symm.trans hname') ▸ hfound⟩
      | some p =>
        cases h
        exact .inr (.inr ⟨rfl, rfl, name, p, hname, hfound, rfl⟩)
  · rename_i hop
    cases h
    exact .inl ⟨rfl, fun heq => absurd heq hop⟩

theorem handleThreadObjectRequest_cases {q : ℕ}
    (h : k.handleThreadObjectRequest q o op args = .ok (st, k')) :
    (k' = k ∧ (op = 1 → (k.object o).data = none))
    ∨ (op = 1 ∧ ∃ t, (k.object o).data = some t ∧ k.addThreadToScheduler t = .ok k')
    ∨ (op = 0 ∧ k' = (k.allocateUserThread (some q)).2.setObject o
        { k.object o with data := some k.threads }) := by
  unfold handleThreadObjectRequest at h
  split at h
  · cases h
    exact .inl ⟨rfl, by simp⟩
  · split_ifs at h
    · cases h
      exact .inl ⟨rfl, by simp⟩
    · cases h
      exact .inr (.inr ⟨rfl, rfl⟩)
  · rename_i t hdata
    obtain ⟨r, hr, h⟩ := bind_eq_ok.1 h
    cases h
    exact .inr (.inl ⟨rfl, t, hdata, hr⟩)
  · rename_i hrun
    cases h
    refine .inl ⟨rfl, fun hop => ?_⟩
    cases hdata : (k.object o).data with
    | none => rfl
    | some t => exact absurd hdata (hrun t hop)

theorem dwInvokeObject_cases (h : k.dwInvokeObject cur handle op args = .ok (st, k')) :
    (k' = k ∧ ∀ o, k.objectOfHandle cur handle = some o → (k.object o).type ≠ .thread)
    ∨ ∃ q o, (0 ≤ handle ∧ handle < maxObjPerProcess) ∧ (k.thread cur).owner = some q
      ∧ k.live.process q = true ∧ (k.process q).handles.objlist handle.toNat = some o
      ∧ k.live.object o = true
      ∧ (((k.object o).type = .port ∧ k.handlePortObjectRequest cur o op args = .ok (st, k'))
        ∨ ((k.object o).type = .thread
          ∧ k.handleThreadObjectRequest q o op args = .ok (st, k'))) := by
  unfold dwInvokeObject at h
  split_ifs at h with hhandle
  · cases h
    refine .inl ⟨rfl, fun o ho => ?_⟩
    have := (objectOfHandle_eq_some.1 ho).1
    omega
  obtain ⟨q, hq, h⟩ := bind_eq_ok.1 h
  obtain ⟨hq, hl⟩ := currProc_ok.1 hq
  cases hslot : (k.process q).handles.objlist handle.toNat with
  | none =>
    simp only [hslot] at h
    cases h
    refine .inl ⟨rfl, fun o ho => ?_⟩
    obtain ⟨-, q', hq', ho⟩ := objectOfHandle_eq_some.1 ho
    cases hq.symm.trans hq'
    simp [hslot] at ho
  | some o =>
    simp only [hslot] at h
    obtain ⟨obj, hobj, h⟩ := bind_eq_ok.1 h
    obtain ⟨hlive, rfl⟩ := derefObject_ok.1 hobj
    have hrange : 0 ≤ handle ∧ handle < maxObjPerProcess := by omega
    cases htype : (k.object o).type with
    | port =>
      simp only [htype] at h
      exact .inr ⟨q, o, hrange, hq, hl, hslot, hlive, .inl ⟨htype, h⟩⟩
    | thread =>
      simp only [htype] at h
      exact .inr ⟨q, o, hrange, hq, hl, hslot, hlive, .inr ⟨htype, h⟩⟩
    | unknown | device | «section» | other c =>
      simp only [htype] at h
      cases h
      refine .inl ⟨rfl, fun o' ho' => ?_⟩
      cases (objectOfHandle_eq_some.2 ⟨hrange, q, hq, hslot⟩).symm.trans ho'
      simp [htype]

theorem dwDeleteObject_cases (h : k.dwDeleteObject cur handle = .ok k') :
    (k' = k ∧ k.objectOfHandle cur handle = none)
    ∨ ∃ q o, (0 ≤ handle ∧ handle < maxObjPerProcess) ∧ (k.thread cur).owner = some q
      ∧ k.live.process q = true ∧ (k.process q).handles.objlist handle.toNat = some o
      ∧ k.live.object o = true
      ∧ ((k.setObject o { k.object o with
            name := (k.object o).name.map fun n => { n with freed := true } }).setHandles q
          ((k.process q).handles.deleteFromHandleTable handle.toNat).2).deleteObject o
        = .ok k' := by
  unfold dwDeleteObject at h
  split_ifs at h with hneg hbig
  · cases h
    refine .inl ⟨rfl, ?_⟩
    rw [objectOfHandle, if_neg (by omega)]
  obtain ⟨q, hq, h⟩ := bind_eq_ok.1 h
  obtain ⟨hq, hl⟩ := currProc_ok.1 hq
  cases hslot : (k.process q).handles.objlist handle.toNat with
  | none =>
    simp only [hslot] at h
    cases h
    exact .inl ⟨rfl, by simp [objectOfHandle, hq, hslot]⟩
  | some o =>
    simp only [hslot] at h
    obtain ⟨obj, hobj, h⟩ := bind_eq_ok.1 h
    obtain ⟨hlive, rfl⟩ := derefObject_ok.1 hobj
    exact .inr ⟨q, o, by omega, hq, hl, hslot, hlive, h⟩

theorem installHandle_cases {this original : ℕ}
    (h : k.installHandle this original = .ok (res, k')) :
    (res = none ∧ k' = k)
    ∨ (∃ i, res = some i ∧ k' = k
      ∧ (k.process this).handles.findHandle original maxObjPerProcess = some i)
    ∨ ∃ i table,
      (res = some i ∧ (k.process this).handles.findHandle original maxObjPerProcess = none)
      ∧ (k.process this).handles.appendToHandleTable original = some (i, table)
      ∧ k.live.object original = true
      ∧ k' = (k.setHandles this table).setObject original
          { k.object original with refcnt := (k.object original).refcnt + 1 } := by
  simp only [installHandle] at h
  split at h
  · rename_i i hi
    cases h
    exact .inr (.inl ⟨i, rfl, rfl, hi⟩)
  rename_i hnone
  split at h
  · cases h
    exact .inl ⟨rfl, rfl⟩
  rename_i i table happend
  obtain ⟨obj, hobj, h⟩ := bind_eq_ok.1 h
  obtain ⟨hlive, rfl⟩ := derefObject_ok.1 hobj
  cases h
  exact .inr (.inr ⟨i, table, ⟨rfl, hnone⟩, happend, hlive, rfl⟩)

theorem dwTranslateHandle_cases {pid : ℕ} {copy : Status}
    (h : k.dwTranslateHandle cur pid handle copy = .ok (st, k')) :
    k' = k
    ∨ ∃ this origin original i r, (pid ≠ 0 ∧ 0 ≤ handle ∧ handle < maxObjPerProcess)
      ∧ (k.thread cur).owner = some this ∧ k.live.process this = true
      ∧ k.findProcessByID pid = some origin ∧ origin ≠ this
      ∧ (k.process origin).handles.objlist handle.toNat = some original
      ∧ k.installHandle this original = .ok (some i, r)
      ∧ ((copy = .ok ∧ k' = r)
        ∨ (copy ≠ .ok ∧ r.live.object original = true
          ∧ k' = (r.setHandles this
              ((r.process this).handles.deleteFromHandleTable i).2).setObject original
              { r.object original with refcnt := countDown (r.object original).refcnt })) := by
  unfold dwTranslateHandle at h
  by_cases hpid : pid = 0
  · rw [if_pos hpid] at h
    cases h
    exact .inl rfl
  rw [if_neg hpid] at h
  by_cases hhandle : maxObjPerProcess ≤ handle ∨ handle < 0
  · rw [if_pos hhandle] at h
    cases h
    exact .inl rfl
  rw [if_neg hhandle] at h
  obtain ⟨this, hthis, h⟩ := bind_eq_ok.1 h
  obtain ⟨hq, hl⟩ := currProc_ok.1 hthis
  cases hfind : k.findProcessByID pid with
  | none =>
    simp only [hfind] at h
    cases h
    exact .inl rfl
  | some origin =>
    simp only [hfind] at h
    by_cases hsame : origin = this
    · rw [if_pos hsame] at h
      cases h
      exact .inl rfl
    rw [if_neg hsame] at h
    cases hslot : (k.process origin).handles.objlist handle.toNat with
    | none =>
      simp only [hslot] at h
      cases h
      exact .inl rfl
    | some original =>
      simp only [hslot] at h
      obtain ⟨⟨res, r⟩, hr, h⟩ := bind_eq_ok.1 h
      cases res with
      | none =>
        cases h
        rcases installHandle_cases hr with ⟨-, rfl⟩ | ⟨i, hi, -⟩ | ⟨i, table, hi, -⟩
        · exact .inl rfl
        · simp at hi
        · simp at hi
      | some i =>
        refine .inr ⟨this, origin, original, i, r, ⟨hpid, by omega⟩, hq, hl, rfl, hsame, hslot,
          hr, ?_⟩
        simp only at h
        split_ifs at h with hcopy
        · cases h
          exact .inl ⟨hcopy, rfl⟩
        obtain ⟨obj, hobj, h⟩ := bind_eq_ok.1 h
        obtain ⟨hlive, rfl⟩ := derefObject_ok.1 hobj
        cases h
        exact .inr ⟨hcopy, hlive, rfl⟩

theorem dwRequestPorts_cases {size : ℕ} {copy : Option (ℕ → BitVec 16)}
    (h : k.dwRequestPorts cur copy size = .ok (st, k')) :
    k' = k ∨ ∃ q proc tss, k' = { k.setProcess q proc with tss := tss }
      ∧ proc.handles = (k.process q).handles := by
  obtain ⟨q, hq, h⟩ := bind_eq_ok.1 h
  split_ifs at h
  · cases h
    exact .inl rfl
  · cases h
    exact .inl rfl
  cases copy with
  | none =>
    cases h
    exact .inl rfl
  | some ports =>
    cases h
    exact .inr ⟨q, _, _, rfl, rfl⟩

theorem dwExit_cases (h : k.dwExit cur = .ok k') :
    ((k.thread cur).owner = none ∧ SameStore k k')
    ∨ ∃ q r r', (k.thread cur).owner = some q ∧ SameStore k r ∧ r.deleteProcess q = .ok r'
      ∧ SameStore r' k' := by
  obtain ⟨⟨st, r⟩, hr, h⟩ := bind_eq_ok.1 h
  obtain ⟨r', hr', h⟩ := bind_eq_ok.1 h
  have hset : SameStore k (r.setThread cur { r.thread cur with state := .terminated }) :=
    (sameStore_removeThreadFromScheduler hr).trans (sameStore_setThread rfl)
  have hsched : SameStore r' k' :=
    SameStore.trans (sameStore_of_owner fun _ => rfl) (scheduleNext_cases h).1
  rw [hset.owner] at hr'
  cases howner : (k.thread cur).owner with
  | none =>
    rw [howner] at hr'
    cases hr'
    exact .inl ⟨rfl, hset.trans hsched⟩
  | some q =>
    rw [howner] at hr'
    exact .inr ⟨q, _, r', rfl, hset, hr', hsched⟩

theorem event_call_cases {c : Call} (h : k.event (.call c) = .ok k') :
    k' = k ∨ ∃ cur, k.currentThread = some cur ∧ k.inReceive cur = none
      ∧ k.syscall cur c = .ok k' := by
  simp only [event] at h
  split at h
  · rename_i cur hcur
    split_ifs at h with hin
    · exact .inr ⟨cur, hcur, hin, h⟩
    · cases h
      exact .inl rfl
  · cases h
    exact .inl rfl

theorem event_resume_cases {copyOk : Bool} (h : k.event (.resume copyOk) = .ok k') :
    k' = k ∨ ∃ cur p rc, k.currentThread = some cur ∧ k.inReceive cur = some p
      ∧ k.receiveFrom cur p copyOk = .ok (rc, k') := by
  simp only [event] at h
  split at h
  · rename_i cur hcur
    split at h
    · rename_i p hin
      obtain ⟨⟨rc, r⟩, hr, rfl⟩ := map_eq_ok.1 h
      exact .inr ⟨cur, p, rc, hcur, hin, hr⟩
    · cases h
      exact .inl rfl
  · cases h
    exact .inl rfl

end Kernel

end DragonWare
