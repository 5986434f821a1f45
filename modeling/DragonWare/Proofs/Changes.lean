import DragonWare.Exception
import DragonWare.Proofs.Syscall
import Mathlib.Logic.Relation

/-!
# The stores of an event

An event deletes an object, ends a process, creates one, or is a sequence of stores, each with what
the code has looked at before it (`Change`, `event_changes`). What every store keeps, every event of
the last kind keeps.
-/

namespace DragonWare

open Fallible Function

namespace Kernel

def Served (k : Kernel) (p : ℕ) : Prop :=
  k.live.port p = true ∧ ∃ t q, (k.port p).owner = some t ∧ (k.thread t).owner = some q
    ∧ k.live.process q = true

/-- What an event may do: create an object, take back a slot, put a thread into the list, wake one,
put one to sleep. -/
structure Rights where
  creates : Prop
  takesBack : Prop
  runs : Kernel → ℕ → Prop
  wakes : Kernel → ℕ → Prop
  sleeps : Kernel → ℕ → Prop

inductive Change (a : Rights) (k : Kernel) : Kernel → Prop
  | port {p : ℕ} {x : Port} (hx : x.owner = (k.port p).owner) : Change a k (k.setPort p x)
  | object {o : ℕ} {x : Object} (htype : x.type = (k.object o).type)
    (hdata : x.data = (k.object o).data) : Change a k (k.setObject o x)
  | bind {o p n : ℕ} (htype : (k.object o).type = .port) (hp : p ∈ k.portList ∨ k.Served p) :
    Change a k (k.setObject o { k.object o with data := some p, refcnt := n })
  | stand {o t : ℕ} (htype : (k.object o).type = .thread) (ht : t < k.threads) :
    Change a k (k.setObject o { k.object o with data := some t })
  | newObject (ha : a.creates) (name : Option (List (BitVec 8))) (type : ObjectType) :
    Change a k (k.allocateObject name type).2
  | newSlot {q o i : ℕ} {table : HandleTable} (ha : a.creates) (hq : k.live.process q = true)
    (ho : (k.object o).data = none)
    (happend : (k.process q).handles.appendToHandleTable o = some (i, table)) :
    Change a k (k.setHandles q table)
  | append {q o i q' j : ℕ} {table : HandleTable} (hq : k.live.process q = true)
    (hq' : k.live.process q' = true ∨ q' ∈ k.processList) (hj : j < maxObjPerProcess)
    (hslot : (k.process q').handles.objlist j = some o)
    (happend : (k.process q).handles.appendToHandleTable o = some (i, table)) :
    Change a k (k.setHandles q table)
  | delete {q o i q' j : ℕ} (ha : a.takesBack) (hq : k.live.process q = true)
    (hslot : (k.process q).handles.objlist i = some o) (hne : q' ≠ q) (hq' : q' ∈ k.processList)
    (hj : j < maxObjPerProcess) (hslot' : (k.process q').handles.objlist j = some o) :
    Change a k (k.setHandles q ((k.process q).handles.deleteFromHandleTable i).2)
  | process {q : ℕ} {x : Process} {tss : Tss} (hx : x.handles = (k.process q).handles) :
    Change a k { k.setProcess q x with tss := tss }
  | newThread {q : ℕ} (hq : k.live.process q = true) : Change a k (k.allocateUserThread (some q)).2
  | newPort {x : Port} {live : Bool} {l : List ℕ} (hl : l = k.portList
      ∨ l = k.ports :: k.portList ∧ live = true ∧ ∃ t q, x.owner = some t
        ∧ (k.thread t).owner = some q ∧ k.live.process q = true) :
    Change a k { k with
      port := update k.port k.ports x
      live := { k.live with port := update k.live.port k.ports live }
      ports := k.ports + 1
      portList := l }
  | take (t : ℕ) : Change a k { k with inReceive := update k.inReceive t none }
  | sleep {t p : ℕ} (ha : a.sleeps k t) (hp : k.live.port p = true)
    (ht : (∃ q, (k.thread t).owner = some q) ∨ ∃ p, k.inReceive t = some p) :
    Change a k (k.sleepOn t p)
  | wake {t : ℕ} (ha : a.wakes k t) : Change a k (k.wakeThread t)
  | run {t : ℕ} {k' : Kernel} (ha : a.runs k t) (h : k.addThreadToScheduler t = .ok k') :
    Change a k k'
  | schedule {k' : Kernel} (h : k.scheduleNext = .ok k') : Change a k k'

def Rights.all : Rights := ⟨True, True, fun _ _ => True, fun _ _ => True, fun _ _ => True⟩

def Changes (a : Rights) : Kernel → Kernel → Prop := Relation.ReflTransGen (Change a)

def Rights.Wakes (a : Rights) (k : Kernel) (t : ℕ) : Prop :=
  ∀ r : Kernel, r.thread = k.thread → r.live = k.live → a.wakes r t

variable {a : Rights} {k k' r : Kernel} {cur o p q size t op : ℕ} {handle : ℤ}
  {copy : Option Message} {st : Status} {args : InvokeArgs} {name : Option (List (BitVec 8))}
  {res : Option ℕ} {copyOk : Bool} {rc : Receipt}

theorem Changes.refl (k : Kernel) : Changes a k k := Relation.ReflTransGen.refl

theorem Change.changes (h : Change a k k') : Changes a k k' := Relation.ReflTransGen.single h

theorem Changes.tail (h : Changes a k r) (h' : Change a r k') : Changes a k k' :=
  Relation.ReflTransGen.tail h h'

theorem Change.process_live (h : Change a k k') : k'.live.process = k.live.process := by
  cases h with
  | wake => rw [(sameStore_wakeThread _ _).live]
  | run _ h => rw [(sameStore_addThreadToScheduler h).live]
  | schedule h => rw [(scheduleNext_cases h).1.live]
  | _ => rfl

theorem Changes.invariant {I : Kernel → Prop} (h : Changes a k k')
    (hstep : ∀ {r r'}, Change a r r' → I r → I r') (hI : I k) : I k' := by
  induction h with
  | refl => exact hI
  | tail _ hc ih => exact hstep hc ih

theorem Changes.process_live (h : Changes .all k k') : k'.live.process = k.live.process :=
  h.invariant (I := fun r => r.live.process = k.live.process)
    (fun hc hr => hc.process_live.trans hr) rfl

/-! ### The stores of each call -/

theorem createObject_changes {type : ObjectType} {ok : Bool} (ha : a.creates)
    (h : k.dwCreateObject cur name type ok = .ok (res, k')) : Changes a k k' := by
  rcases dwCreateObject_cases h with
    ⟨-, rfl⟩ | ⟨q, -, -, hq, ⟨-, -, rfl⟩ | ⟨i, table, -, happend, rfl⟩⟩
  · exact .refl _
  · exact (Change.newObject ha name type).changes
  · refine (Change.newObject ha name type).changes.tail (.newSlot ha hq ?_ happend)
    simp [allocateObject]

theorem createPort_changes {portOk nodeOk : Bool} (hcur : (k.thread cur).owner = some q)
    (hq : k.live.process q = true) (h : k.createPort name cur portOk nodeOk = .ok (st, res, k')) :
    Changes a k k' ∧ k'.object = k.object ∧ ∀ p ∈ res, k'.Served p := by
  rcases createPort_cases h with
    ⟨-, rfl, rfl | rfl | ⟨x, rfl⟩⟩ | ⟨-, rfl, x, l, -, -, -, hx, hl, rfl⟩
  · exact ⟨.refl _, rfl, by simp⟩
  · have hnew : Change a k _ := @Change.newPort a k (k.port k.ports) true _ (.inl rfl)
    rw [update_eq_self] at hnew
    exact ⟨hnew.changes, rfl, by simp⟩
  · have hnew : Change a k _ := @Change.newPort a k x false _ (.inl rfl)
    refine ⟨?_, rfl, by simp⟩
    simpa [freePort, allocatePort, setPort] using hnew.changes
  · refine ⟨(Change.newPort ?_).changes, rfl, fun p hp => ?_⟩
    · exact hl.imp_right fun hl => ⟨hl, rfl, cur, q, hx, hcur, hq⟩
    · cases hp
      refine ⟨?_, cur, q, ?_, hcur, hq⟩
      · simp [allocatePort, setPort]
      · simp [allocatePort, setPort, hx]

def threadOfHandle (k : Kernel) (cur : ℕ) (handle : ℤ) : Option ℕ :=
  (k.objectOfHandle cur handle).bind fun o =>
    if (k.object o).type = .thread then (k.object o).data else none

def StandsFor (k : Kernel) (o t : ℕ) : Prop :=
  (k.object o).type = .thread ∧ (k.object o).data = some t

theorem threadOfHandle_eq_some : k.threadOfHandle cur handle = some t ↔
    ∃ o, k.objectOfHandle cur handle = some o ∧ k.StandsFor o t := by
  simp only [threadOfHandle, Option.bind_eq_some_iff, Option.ite_none_right_eq_some, StandsFor]

theorem portRequest_changes (htype : (k.object o).type = .port)
    (hcur : (k.thread cur).owner = some q) (hq : k.live.process q = true)
    (h : k.handlePortObjectRequest cur o op args = .ok (st, k')) : Changes a k k' := by
  rcases handlePortObjectRequest_cases h with
    ⟨rfl, -⟩ | ⟨-, st', res, r, hr, hk⟩ | ⟨-, -, name, p, -, hfind, rfl⟩
  · exact .refl _
  · obtain ⟨hport, hobject, hserved⟩ := createPort_changes (a := a) hcur hq hr
    rcases hk with ⟨-, rfl⟩ | ⟨p, hres, rfl⟩
    · exact hport
    · refine hport.tail (.bind ?_ (.inr (hserved p hres)))
      rw [hobject]
      exact htype
  · exact (Change.bind htype (.inl (findPort_mem hfind))).changes

theorem threadRequest_changes (htype : (k.object o).type = .thread) (hq : k.live.process q = true)
    (ha : op = 1 → ∀ t, k.StandsFor o t → a.runs k t)
    (h : k.handleThreadObjectRequest q o op args = .ok (st, k')) : Changes a k k' := by
  rcases handleThreadObjectRequest_cases h with ⟨rfl, -⟩ | ⟨hop, t, hdata, hrun⟩ | ⟨-, rfl⟩
  · exact .refl _
  · exact (Change.run (ha hop t ⟨htype, hdata⟩) hrun).changes
  · exact (Change.newThread hq).changes.tail (.stand htype (Nat.lt_succ_self _))

theorem invokeObject_changes (ha : op = 1 → ∀ t ∈ k.threadOfHandle cur handle, a.runs k t)
    (h : k.dwInvokeObject cur handle op args = .ok (st, k')) : Changes a k k' := by
  rcases dwInvokeObject_cases h with
    ⟨rfl, -⟩ | ⟨q, o, hrange, hcur, hq, hslot, -, ⟨htype, hp⟩ | ⟨htype, ht⟩⟩
  · exact .refl _
  · exact portRequest_changes htype hcur hq hp
  · refine threadRequest_changes htype hq (fun hop t hstands => ha hop t ?_) ht
    have hobject := objectOfHandle_eq_some.2 ⟨hrange, q, hcur, hslot⟩
    exact threadOfHandle_eq_some.2 ⟨o, hobject, hstands⟩

theorem sendToPort_changes (hq : k.live.process q = true) (ha : ∀ t ∈ (k.port p).owner, a.Wakes k t)
    (h : k.sendToPort q p copy size = .ok (st, k')) : Changes a k k' := by
  obtain ⟨-, ⟨-, rfl⟩ | ⟨-, -, slot, rfl⟩ | ⟨m, owner, reply, r, -, -, howner, -, -, hr, rfl⟩⟩ :=
    sendToPort_cases h
  · exact .refl _
  · exact Changes.tail (.refl _) (.port rfl)
  have heq := translateReply_eq hr
  have hreply : Changes a k r := by
    rcases translateReply_cases hr with ⟨-, -, rfl⟩ | ⟨-, -, rfl, -⟩
      | ⟨o, _, target, hraw, hslot, -, -, -, -, htarget, ⟨i, -, -, rfl⟩
        | ⟨i, table, -, happend, -, rfl⟩ | ⟨-, -, rfl⟩⟩
    · exact .refl _
    · exact .refl _
    · exact .refl _
    · exact (Change.append htarget (.inl hq) (by omega) hslot happend).changes
    · exact .refl _
  refine (hreply.tail (.port ?_)).tail (.wake ?_)
  · rw [heq]
    rfl
  · refine ha owner howner _ ?_ ?_
    · rw [heq]
      rfl
    · rw [heq]
      rfl

theorem send_changes (ha : ∀ p ∈ k.portOfHandle cur handle, ∀ t ∈ (k.port p).owner, a.Wakes k t)
    (h : k.dwIPCSend cur handle copy size = .ok (st, k')) : Changes a k k' := by
  rcases dwIPCSend_cases h with ⟨-, rfl⟩ | ⟨q, target, p, -, hcur, hq, hslot, -, -, hdata, hp⟩
  · exact .refl _
  · exact sendToPort_changes hq (ha p (portOfHandle_eq hcur hslot hdata)) hp

theorem sendMessage_changes {m : Message}
    (ha : ∀ o ∈ (k.process q).handles.objlist handle.toNat, ∀ p ∈ (k.object o).data,
      ∀ t ∈ (k.port p).owner, a.Wakes k t)
    (h : k.sendMessage q handle m = .ok (st, k')) : Changes a k k' := by
  rcases sendMessage_cases h with ⟨-, rfl⟩ | ⟨o, p, -, -, hslot, -, -, hdata, -, h⟩
  · exact .refl _
  obtain ⟨-, ⟨-, rfl⟩ | ⟨owner, -, -, howner, rfl⟩⟩ := enqueueMessage_cases h
  · exact .refl _
  · refine Changes.tail (r := k.setPort p _) (Change.port ?_).changes (.wake ?_)
    · rfl
    · exact ha o hslot p hdata owner howner _ rfl rfl

theorem receiveFrom_changes (ha : a.sleeps k cur)
    (hcur : (∃ q, (k.thread cur).owner = some q) ∨ ∃ p, k.inReceive cur = some p)
    (h : k.receiveFrom cur p copyOk = .ok (rc, k')) : Changes a k k' := by
  obtain ⟨hp, ⟨-, -, h⟩ | ⟨-, -, rfl⟩⟩ := receiveFrom_cases h
  · exact (Change.sleep ha hp hcur).changes.tail (.schedule h)
  · have htake : Change a k (k.setPort p (k.port p).advanceHead) := .port rfl
    exact htake.changes.tail (.take cur)

theorem receive_changes (ha : a.sleeps k cur)
    (h : k.dwIPCReceive cur handle copyOk = .ok (rc, k')) : Changes a k k' := by
  rcases dwIPCReceive_cases h with
    ⟨st, -, -, -, rfl⟩ | ⟨q, o, p, owner, -, hq, -, -, -, -, -, -, -, h⟩
  · exact .refl _
  · exact receiveFrom_changes ha (.inl ⟨q, hq⟩) h

theorem requestPorts_changes {copy : Option (ℕ → BitVec 16)}
    (h : k.dwRequestPorts cur copy size = .ok (st, k')) : Changes a k k' := by
  rcases dwRequestPorts_cases h with rfl | ⟨q, x, tss, rfl, hx⟩
  · exact .refl _
  · exact (Change.process hx).changes

theorem installHandle_changes {this origin i j : ℕ} (hthis : k.live.process this = true)
    (horigin : origin ∈ k.processList) (hne : origin ≠ this) (hj : j < maxObjPerProcess)
    (hslot : (k.process origin).handles.objlist j = some o)
    (h : k.installHandle this o = .ok (some i, r)) :
    Changes a k r ∧ r.live = k.live ∧ r.processList = k.processList
      ∧ (r.process this).handles.objlist i = some o
      ∧ (r.process origin).handles.objlist j = some o := by
  rcases installHandle_cases h with ⟨hi, -⟩ | ⟨i', hi, rfl, hfind⟩
    | ⟨i', table, ⟨hi, -⟩, happend, -, rfl⟩
  · cases hi
  · cases hi
    exact ⟨.refl _, rfl, rfl, (HandleTable.findHandle_some hfind).2.2, hslot⟩
  · cases hi
    have hnew : Change a k _ := .append hthis (.inr horigin) hj hslot happend
    refine ⟨hnew.changes.tail (.object rfl rfl), rfl, rfl, ?_, ?_⟩
    · simp [setObject, setHandles, setProcess, (HandleTable.appendToHandleTable_some happend).2.2.1]
    · simpa [setObject, setHandles, setProcess, hne] using hslot

theorem translateHandle_changes {pid : ℕ} {copy : Status} (ha : copy ≠ .ok → a.takesBack)
    (h : k.dwTranslateHandle cur pid handle copy = .ok (st, k')) : Changes a k k' := by
  rcases dwTranslateHandle_cases h with
    rfl | ⟨this, origin, o, i, r, ⟨-, hrange⟩, -, hthis, hfind, hne, hslot, hi, hk⟩
  · exact .refl _
  have hindex : handle.toNat < maxObjPerProcess := by omega
  obtain ⟨hinstall, hlive, hlist, hnew, hold⟩ := installHandle_changes (a := a) hthis
    (List.mem_of_find?_eq_some hfind) hne hindex hslot hi
  rcases hk with ⟨-, rfl⟩ | ⟨hcopy, -, rfl⟩
  · exact hinstall
  · have hback : Change a r _ := .delete (ha hcopy) (hlive ▸ hthis) hnew hne
      (hlist ▸ List.mem_of_find?_eq_some hfind) hindex hold
    exact (hinstall.tail hback).tail (.object rfl rfl)

/-! ### Events -/

def threadMadeReady (k : Kernel) : TaskEvent → Option ℕ
  | .event (.call (.send handle _ _)) => k.currentThread.bind fun cur =>
      (k.portOfHandle cur handle).bind fun p => (k.port p).owner
  | .event (.kernelMessage q handle _) => ((k.process q).handles.objlist handle.toNat).bind fun o =>
      (k.object o).data.bind fun p => (k.port p).owner
  | .event (.call (.invokeObject handle 1 _)) => k.currentThread.bind fun cur =>
      k.threadOfHandle cur handle
  | _ => none

def threadBlocked (k : Kernel) : TaskEvent → Option ℕ
  | .event (.call (.receive _ _)) => k.currentThread
  | .event (.resume _) => k.currentThread
  | _ => none

structure Rights.Allows (a : Rights) (k : Kernel) (e : Event) : Prop where
  creates : ∀ name type ok, e = .call (.createObject name type ok) → a.creates
  takesBack : ∀ pid handle copy, e = .call (.translateHandle pid handle copy) → a.takesBack
  ready : ∀ t ∈ k.threadMadeReady (.event e), a.Wakes k t ∧ a.runs k t
  blocked : ∀ t ∈ k.threadBlocked (.event e), a.sleeps k t

theorem event_changes {e : Event} (ha : a.Allows k e) (h : k.event e = .ok k') :
    Changes a k k'
    ∨ (∃ cur handle, e = .call (.deleteObject handle) ∧ k.currentThread = some cur
      ∧ k.dwDeleteObject cur handle = .ok k')
    ∨ (∃ cur, e = .call .exit ∧ k.currentThread = some cur ∧ k.dwExit cur = .ok k')
    ∨ ∃ q, e = .createProcess ∧ k.createProcess = .ok (q, k') := by
  cases e with
  | timer => exact .inl (Change.schedule h).changes
  | createProcess =>
    obtain ⟨⟨q, r⟩, hr, rfl⟩ := map_eq_ok.1 h
    exact .inr (.inr (.inr ⟨q, rfl, hr⟩))
  | kernelMessage q handle m =>
    obtain ⟨⟨st, r⟩, hr, rfl⟩ := map_eq_ok.1 h
    refine .inl (sendMessage_changes (fun o ho p hp t ht => (ha.ready t ?_).1) hr)
    simp_all [threadMadeReady]
  | resume copyOk =>
    rcases event_resume_cases h with rfl | ⟨cur, p, rc, hcur, hin, hr⟩
    · exact .inl (.refl _)
    · exact .inl (receiveFrom_changes (ha.blocked cur hcur) (.inr ⟨p, hin⟩) hr)
  | call c =>
    rcases event_call_cases h with rfl | ⟨cur, hcur, -, h⟩
    · exact .inl (.refl _)
    cases c with
    | createObject name type ok =>
      obtain ⟨⟨res, r⟩, hr, rfl⟩ := map_eq_ok.1 h
      exact .inl (createObject_changes (ha.creates _ _ _ rfl) hr)
    | invokeObject handle op args =>
      obtain ⟨⟨st, r⟩, hr, rfl⟩ := map_eq_ok.1 h
      refine .inl (invokeObject_changes (fun hop t ht => (ha.ready t ?_).2) hr)
      subst hop
      simpa [threadMadeReady, hcur] using ht
    | deleteObject handle => exact .inr (.inl ⟨cur, handle, rfl, hcur, h⟩)
    | translateHandle pid handle copy =>
      obtain ⟨⟨st, r⟩, hr, rfl⟩ := map_eq_ok.1 h
      exact .inl (translateHandle_changes (fun _ => ha.takesBack _ _ _ rfl) hr)
    | send handle copy size =>
      obtain ⟨⟨st, r⟩, hr, rfl⟩ := map_eq_ok.1 h
      refine .inl (send_changes (fun p hp t ht => (ha.ready t ?_).1) hr)
      simp_all [threadMadeReady]
    | receive handle copyOk =>
      obtain ⟨⟨rc, r⟩, hr, rfl⟩ := map_eq_ok.1 h
      exact .inl (receive_changes (ha.blocked cur hcur) hr)
    | requestPorts copy size =>
      obtain ⟨⟨st, r⟩, hr, rfl⟩ := map_eq_ok.1 h
      exact .inl (requestPorts_changes hr)
    | exit => exact .inr (.inr (.inl ⟨cur, rfl, hcur, h⟩))

theorem Rights.all_allows (k : Kernel) (e : Event) : Rights.all.Allows k e where
  creates _ _ _ _ := trivial
  takesBack _ _ _ _ := trivial
  ready _ _ := ⟨fun _ _ _ => trivial, trivial⟩
  blocked _ _ := trivial

end Kernel

end DragonWare
