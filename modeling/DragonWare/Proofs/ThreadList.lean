import DragonWare.Lib.LinkedList
import DragonWare.Proofs.Changes
import DragonWare.Proofs.ReplyHandle

/-!
# The list of threads

Each event makes a sequence of calls that add and remove threads (`Kernel.eventOps`). While no
thread is added twice, the list holds what these calls have left in it (`Kernel.Lists`).
-/

namespace DragonWare

open Fallible LinkedList List Option

inductive ListOp
  | add (t : ℕ)
  | remove (t : ℕ)
  deriving DecidableEq, Repr

namespace ListOp

def apply (l : List ℕ) : ListOp → List ℕ
  | add t => l ++ [t]
  | remove t => l.erase t

def Pending (ops : List ListOp) (t : ℕ) : Prop :=
  ∃ before after, ops = before ++ add t :: after ∧ remove t ∉ after

theorem mem_foldl_apply {t : ℕ} : ∀ {ops : List ListOp} {l : List ℕ}, t ∈ l → remove t ∉ ops →
    t ∈ ops.foldl apply l
  | [], _, ht, _ => ht
  | add s :: ops, l, ht, h => by
    rw [foldl_cons]
    exact mem_foldl_apply (mem_append_left _ ht) fun hm => h (mem_cons_of_mem _ hm)
  | remove s :: ops, l, ht, h => by
    have hne : t ≠ s := by
      rintro rfl
      exact h mem_cons_self
    rw [foldl_cons]
    exact mem_foldl_apply ((mem_erase_of_ne hne).2 ht) fun hm => h (mem_cons_of_mem _ hm)

theorem Pending.mem {ops : List ListOp} {t : ℕ} (h : Pending ops t) (l : List ℕ) :
    t ∈ ops.foldl apply l := by
  obtain ⟨before, after, rfl, hafter⟩ := h
  rw [foldl_append, foldl_cons]
  exact mem_foldl_apply (mem_append_right _ (mem_singleton.2 rfl)) hafter

def AddsNew : List ℕ → List ListOp → Prop
  | _, [] => True
  | l, add t :: ops => t ∉ l ∧ AddsNew (l ++ [t]) ops
  | l, remove t :: ops => AddsNew (l.erase t) ops

theorem addsNew_of_removes : ∀ (ops : List ListOp) (l : List ℕ), (∀ t, add t ∉ ops) →
    AddsNew l ops
  | [], _, _ => trivial
  | add t :: _, _, h => absurd mem_cons_self (h t)
  | remove _ :: ops, _, h => addsNew_of_removes ops _ fun t ht => h t (mem_cons_of_mem _ ht)

end ListOp

namespace Kernel

/-! ### Which calls an event makes -/

variable {cur o q size : ℕ} {handle : ℤ} {res : Option ℕ} {st : Status}

def deleteObjectOps (k : Kernel) (o : ℕ) : List ListOp :=
  if 1 < (k.object o).refcnt then []
  else
    match (k.object o).data, (k.object o).type with
    | some t, .thread => if k.currentThread = some t then [] else [.remove t]
    | _, _ => []

def deleteSlotsOps (q : ℕ) : List ℕ → Kernel → List ListOp
  | [], _ => []
  | i :: is, k =>
    ((k.process q).handles.objlist i).elim [] k.deleteObjectOps
      ++ (deleteSlot q k i).toOption.elim [] (deleteSlotsOps q is)

def exitOps (k : Kernel) (cur : ℕ) : List ListOp :=
  (k.thread cur).owner.elim [] fun q =>
    deleteSlotsOps q (range maxObjPerProcess) { k with processList := k.processList.erase q }

def callOps (k : Kernel) (cur : ℕ) : Call → List ListOp
  | .invokeObject handle 1 _ => (k.threadOfHandle cur handle).elim [] fun t => [.add t]
  | .deleteObject handle => (k.objectOfHandle cur handle).elim [] k.deleteObjectOps
  | .exit =>
    .remove cur :: (k.removeThreadFromScheduler cur).toOption.elim [] fun r =>
      (r.2.setThread cur { r.2.thread cur with state := .terminated }).exitOps cur
  | _ => []

def eventOps (k : Kernel) : Event → List ListOp
  | .call c =>
    match k.currentThread with
    | some cur => if k.inReceive cur = none then k.callOps cur c else []
    | none => []
  | .createProcess => [.add k.threads]
  | _ => []

def loggedStep (s : Kernel × List ListOp) (e : ℕ × Event) : Option (Kernel × List ListOp) :=
  (s.1.eventStep e).map fun k => (k, s.2 ++ { s.1 with currentThread := some e.1 }.eventOps e.2)

def next (k : Kernel) (t : ℕ) : Option ℕ := (k.thread t).next

/-- The list ends, holds no thread twice, and holds every thread that was added and not removed. -/
def ListWellFormed (k : Kernel) (ops : List ListOp) : Prop :=
  ∃ l, Walk k.next k.threadList l ∧ l.Nodup
    ∧ ∀ t, ListOp.Pending ops t → t ∈ l

def scheduled (k : Kernel) : List ℕ := cells k.next k.threads k.threadList

def threadToRun (k : Kernel) : ℕ × Event → Option ℕ
  | (t, .call (.invokeObject handle 1 _)) => k.threadOfHandle t handle
  | _ => none

def RunsOnce (k : Kernel) (e : ℕ × Event) : Prop := ∀ t ∈ k.threadToRun e, t ∉ k.scheduled

instance (k : Kernel) (e : ℕ × Event) : Decidable (k.RunsOnce e) :=
  inferInstanceAs (Decidable (∀ t ∈ k.threadToRun e, t ∉ k.scheduled))

/-! ### The links of the list -/

structure Lists (k : Kernel) (l : List ℕ) : Prop where
  walk : Walk k.next k.threadList l
  nodup : l.Nodup
  lt : ∀ t ∈ l, t < k.threads

variable {k k' r : Kernel} {l : List ℕ} {t : ℕ} {thread : ℕ → Thread} {c : Call} {e : Event}

theorem Lists.length_le (h : k.Lists l) : l.length ≤ k.threads := by
  have hsub : l ⊆ range k.threads := fun t ht => mem_range.2 (h.lt t ht)
  simpa using (h.nodup.subperm hsub).length_le

theorem Lists.scheduled_eq (h : k.Lists l) : k.scheduled = l := h.walk.cells_eq h.length_le

theorem lastThread_eq : ∀ {l : List ℕ} {a fuel : ℕ}, Walk k.next (some a) (l ++ [t]) →
    l.length < fuel → k.lastThread fuel a = .ok t
  | [], a, fuel + 1, h, _ => by
    obtain ⟨rfl⟩ := h.1
    have hn : (k.thread t).next = none := h.2
    simp only [lastThread, hn]
  | b :: l, a, fuel + 1, h, hlt => by
    obtain ⟨rfl⟩ := h.1
    have hwalk : Walk k.next (k.thread b).next (l ++ [t]) := h.2
    cases hn : (k.thread b).next with
    | none =>
      rw [hn] at hwalk
      cases l <;> exact absurd hwalk.1 (by simp)
    | some n =>
      rw [hn] at hwalk
      simp only [lastThread, hn]
      exact lastThread_eq hwalk (by simpa using hlt)

theorem threadBefore_eq_some {s : ℕ} {rest : List ℕ} (hs : s ≠ t) : ∀ {l : List ℕ} {a fuel : ℕ},
    Walk k.next (some a) (l ++ s :: t :: rest) → t ∉ l → l.length < fuel →
      k.threadBefore t fuel a = .ok (some s)
  | [], a, fuel + 1, h, _, _ => by
    obtain ⟨rfl⟩ := h.1
    have hn : (k.thread s).next = some t := h.2.1
    simp only [threadBefore, hn, if_pos]
  | b :: l, a, fuel + 1, h, ht, hlt => by
    obtain ⟨rfl⟩ := h.1
    have hl : t ∉ l := fun hm => ht (mem_cons_of_mem _ hm)
    obtain ⟨c, hc, hn⟩ : ∃ c ≠ t, (k.thread b).next = some c := by
      cases l with
      | nil => exact ⟨s, hs, h.2.1⟩
      | cons c l => exact ⟨c, fun heq => hl (heq ▸ mem_cons_self), h.2.1⟩
    have hwalk : Walk k.next (k.thread b).next (l ++ s :: t :: rest) := h.2
    rw [hn] at hwalk
    simp only [threadBefore, hn, if_neg hc]
    exact threadBefore_eq_some hs hwalk hl (by simpa using hlt)

theorem threadBefore_eq_none : ∀ {l : List ℕ} {a fuel : ℕ}, Walk k.next (some a) (a :: l) →
    t ∉ l → l.length < fuel → k.threadBefore t fuel a = .ok none
  | [], a, fuel + 1, h, _, _ => by
    have hn : (k.thread a).next = none := h.2
    simp only [threadBefore, hn]
  | b :: l, a, fuel + 1, h, ht, hlt => by
    have hn : (k.thread a).next = some b := h.2.1
    have hb : b ≠ t := fun heq => ht (heq ▸ mem_cons_self)
    simp only [threadBefore, hn, if_neg hb]
    exact threadBefore_eq_none ⟨rfl, h.2.2⟩ (fun hm => ht (mem_cons_of_mem _ hm))
      (by simpa using hlt)

theorem Lists.add (h : k.Lists l) (hnew : t ∉ l) (ht : t < k.threads) :
    ∃ k', k.addThreadToScheduler t = .ok k' ∧ k'.Lists (l ++ [t]) := by
  have hnodup : (l ++ [t]).Nodup := by
    refine nodup_append.2 ⟨h.nodup, nodup_singleton t, fun a ha b hb hab => hnew ?_⟩
    rwa [← mem_singleton.1 hb, ← hab]
  have hlt : ∀ s ∈ l ++ [t], s < k.threads := by
    intro s hs
    rcases mem_append.1 hs with hs | hs
    · exact h.lt s hs
    · exact mem_singleton.1 hs ▸ ht
  obtain ⟨r, hr⟩ : ∃ r, r = k.setThread t { k.thread t with state := .ready, next := none } :=
    ⟨_, rfl⟩
  have hself : r.next t = none := by simp [hr, next, setThread]
  have hother : ∀ s, s ≠ t → r.next s = k.next s := fun s hs => by simp [hr, next, setThread, hs]
  simp only [addThreadToScheduler, ← hr]
  have hlist : r.threadList = k.threadList := by rw [hr]; rfl
  have hthreads : r.threads = k.threads := by rw [hr]; rfl
  -- the list is still there once the thread's own link has been cleared
  have hwalk : Walk r.next r.threadList l := by
    rw [hlist]
    exact h.walk.congr fun s hs => hother s fun heq => hnew (heq ▸ hs)
  rcases eq_nil_or_concat' l with rfl | ⟨l, last, rfl⟩
  · have hnone : r.threadList = none := hwalk
    simp only [hnone]
    exact ⟨_, rfl, ⟨rfl, hself⟩, hnodup, by simpa [hthreads] using ht⟩
  cases hhead : r.threadList with
  | none =>
    rw [hhead] at hwalk
    cases l <;> exact absurd hwalk.1 (by simp)
  | some head =>
    have hlen : l.length + 1 ≤ k.threads := by simpa using h.length_le
    rw [hhead] at hwalk
    have hlast : r.lastThread (r.threads + 1) head = .ok last := lastThread_eq hwalk (by omega)
    simp only [hlast]
    have hne : last ≠ t := fun heq => hnew (by simp [heq])
    refine ⟨_, rfl, ?_, hnodup, by simpa [setThread, hthreads] using hlt⟩
    simp only [setThread, hhead, append_assoc, cons_append, nil_append]
    refine hwalk.snoc (by simp [next]) (by simpa [next, hne.symm] using hself) fun s hs => ?_
    have hs' : s ≠ last := by
      rintro rfl
      exact disjoint_of_nodup_append h.nodup hs (mem_singleton.2 rfl)
    simp [next, hs']

theorem Lists.remove (h : k.Lists l) (t : ℕ) : ∃ st k',
    k.removeThreadFromScheduler t = .ok (st, k') ∧ (st = .ok ↔ t ∈ l) ∧ k'.Lists (l.erase t) := by
  unfold removeThreadFromScheduler
  cases l with
  | nil =>
    have hnone : k.threadList = none := h.walk
    simp only [hnone]
    exact ⟨_, _, rfl, by simp, h⟩
  | cons head l =>
    have hhead : k.threadList = some head := h.walk.1
    have hwalk : Walk k.next (some head) (head :: l) := hhead ▸ h.walk
    have hlen := h.length_le
    obtain ⟨hhl, hnodup⟩ := nodup_cons.1 h.nodup
    simp only [hhead]
    by_cases heq : t = head
    · rw [if_pos heq, heq, erase_cons_head]
      exact ⟨_, _, rfl, by simp, h.walk.2, hnodup, fun s hs => h.lt s (mem_cons_of_mem _ hs)⟩
    rw [if_neg heq]
    by_cases hmem : t ∈ l
    · obtain ⟨before, after, rfl⟩ := append_of_mem hmem
      obtain ⟨front, last, hfront⟩ : ∃ front last, head :: before = front ++ [last] :=
        (eq_nil_or_concat' (head :: before)).resolve_left (by simp)
      have hl : head :: (before ++ t :: after) = front ++ last :: t :: after := by
        rw [← cons_append, hfront, append_assoc, singleton_append]
      have hnd : (front ++ last :: t :: after).Nodup := hl ▸ h.nodup
      have hlen' : front.length + (after.length + 1 + 1) ≤ k.threads := by
        simpa [hl] using hlen
      have hparts := nodup_append.1 hnd
      have hlast : last ≠ t := fun heq => by simp [heq] at hparts
      have hout : t ∉ front := fun hm => hparts.2.2 t hm t (by simp) rfl
      rw [hl] at hwalk ⊢
      have hbefore : k.threadBefore t (k.threads + 1) head = .ok (some last) :=
        threadBefore_eq_some hlast hwalk hout (by omega)
      simp only [hbefore]
      have herase : (front ++ last :: t :: after).erase t = front ++ last :: after := by
        rw [erase_append_right _ hout, erase_cons_tail (by simpa using hlast),
          erase_cons_head]
      rw [herase]
      refine ⟨_, _, rfl, by simp, ?_, herase ▸ hnd.erase t, fun s hs => h.lt s ?_⟩
      · simp only [setThread, hhead]
        refine hwalk.unlink (by simp [next]) (fun s hs => ?_) fun s hs => ?_
        · have hne : s ≠ last := by
            rintro rfl
            simp [hs] at hparts
          simp [next, hne]
        · have hne : s ≠ last := fun heq => hparts.2.2 s hs last (by simp) heq
          simp [next, hne]
      · rw [hl]
        exact mem_of_mem_erase (b := t) (herase ▸ hs)
    · have hlen' : l.length + 1 ≤ k.threads := by simpa using hlen
      have hbefore : k.threadBefore t (k.threads + 1) head = .ok none :=
        threadBefore_eq_none hwalk hmem (by omega)
      simp only [hbefore]
      rw [erase_of_not_mem (by simp [heq, hmem])]
      exact ⟨_, _, rfl, by simp [heq, hmem], h⟩

def listCall (k : Kernel) : ListOp → Except Fault Kernel
  | .add t => k.addThreadToScheduler t
  | .remove t => Prod.snd <$> k.removeThreadFromScheduler t

theorem Lists.calls : ∀ {ops : List ListOp} {k : Kernel} {l : List ℕ}, k.Lists l →
    (∀ t, .add t ∈ ops → t < k.threads) → ListOp.AddsNew l ops →
      ∃ k', ops.foldlM listCall k = .ok k' ∧ k'.Lists (ops.foldl ListOp.apply l)
  | [], k, _, h, _, _ => ⟨k, rfl, h⟩
  | .add t :: ops, k, l, h, hlt, hnew => by
    obtain ⟨r, hr, hl⟩ := h.add hnew.1 (hlt t mem_cons_self)
    have hthreads := (sameStore_addThreadToScheduler hr).threads
    obtain ⟨k', hk', hl'⟩ := hl.calls
      (fun s hs => hthreads ▸ hlt s (mem_cons_of_mem _ hs)) hnew.2
    exact ⟨k', by rw [foldlM_cons, listCall, hr]; exact hk', hl'⟩
  | .remove t :: ops, k, l, h, hlt, hnew => by
    obtain ⟨st, r, hr, -, hl⟩ := h.remove t
    have hthreads := (sameStore_removeThreadFromScheduler hr).threads
    obtain ⟨k', hk', hl'⟩ := hl.calls
      (fun s hs => hthreads ▸ hlt s (mem_cons_of_mem _ hs)) hnew
    exact ⟨k', by rw [foldlM_cons, listCall, hr]; exact hk', hl'⟩

/-- After any calls that add only threads outside the list, the list holds what was added and not
removed since, in order, and the next removal reports whether its thread is there. -/
theorem threadList_refines_sequence {ops : List ListOp} (hk : k.threadList = none)
    (hlt : ∀ t, .add t ∈ ops → t < k.threads) (hnew : ListOp.AddsNew [] ops) :
    ∃ k', ops.foldlM listCall k = .ok k' ∧ Walk k'.next k'.threadList (ops.foldl ListOp.apply [])
      ∧ ∀ t, ∃ st r, k'.removeThreadFromScheduler t = .ok (st, r)
        ∧ (st = .ok ↔ t ∈ ops.foldl ListOp.apply []) := by
  have hnil : k.Lists [] := ⟨hk, nodup_nil, by simp⟩
  obtain ⟨k', hk', hl⟩ := hnil.calls hlt hnew
  refine ⟨k', hk', hl.walk, fun t => ?_⟩
  obtain ⟨st, r, hr, hst, -⟩ := hl.remove t
  exact ⟨st, r, hr, hst⟩

theorem threadList_refines_three_calls :
    ∃ k', [ListOp.add 0, .add 1, .remove 0].foldlM listCall { boot with threads := 2 } = .ok k'
      ∧ Walk k'.next k'.threadList [1] := by
  have hlt : ∀ t, .add t ∈ [ListOp.add 0, .add 1, .remove 0] → t < 2 := by
    intro t ht
    simp only [mem_cons, ListOp.add.injEq, reduceCtorEq, not_mem_nil, or_false] at ht
    omega
  obtain ⟨k', hk', hw, -⟩ := threadList_refines_sequence (k := { boot with threads := 2 }) rfl hlt
    (by simp [ListOp.AddsNew])
  exact ⟨k', hk', hw⟩

/-! ### What else an event does -/

/-- The links are left alone, and only new threads get an object to stand for them. -/
structure Quiet (k k' : Kernel) : Prop where
  threadList : k'.threadList = k.threadList
  next : ∀ t < k.threads, k'.next t = k.next t
  threads : k.threads ≤ k'.threads
  object : ∀ o t, k'.StandsFor o t → k.StandsFor o t ∨ t < k'.threads

/-- The calls that lead from one state to the other, with nothing between them that touches the
links. -/
inductive ListTrace : Kernel → List ListOp → Kernel → Prop
  | done {k k' : Kernel} (h : Quiet k k') : ListTrace k [] k'
  | quiet {k r k' : Kernel} {ops : List ListOp} (h : Quiet k r) (ht : ListTrace r ops k') :
    ListTrace k ops k'
  | add {k r k' : Kernel} {t : ℕ} {ops : List ListOp} (hk : t < k.threads ∨ ∃ o, k.StandsFor o t)
    (h : k.addThreadToScheduler t = .ok r) (ht : ListTrace r ops k') :
    ListTrace k (.add t :: ops) k'
  | remove {k r k' : Kernel} {t : ℕ} {st : Status} {ops : List ListOp}
    (h : k.removeThreadFromScheduler t = .ok (st, r)) (ht : ListTrace r ops k') :
    ListTrace k (.remove t :: ops) k'

theorem Quiet.refl (k : Kernel) : Quiet k k := ⟨rfl, fun _ _ => rfl, le_rfl, fun _ _ h => .inl h⟩

theorem ListTrace.append {ops ops' : List ListOp} (h : ListTrace k ops r)
    (h' : ListTrace r ops' k') : ListTrace k (ops ++ ops') k' := by
  induction h with
  | done hq => exact .quiet hq h'
  | quiet hq _ ih => exact .quiet hq (ih h')
  | add hk ha _ ih => exact .add hk ha (ih h')
  | remove hr _ ih => exact .remove hr (ih h')

/-- The objects that stand for threads stand for threads that exist. -/
structure ListInv (k : Kernel) (l : List ℕ) : Prop where
  lists : k.Lists l
  object : ∀ o t, k.StandsFor o t → t < k.threads

theorem Lists.quiet (h : k.Lists l) (hq : Quiet k k') : k'.Lists l := by
  refine ⟨?_, h.nodup, fun t ht => (h.lt t ht).trans_le hq.threads⟩
  rw [hq.threadList]
  exact h.walk.congr fun t ht => hq.next t (h.lt t ht)

theorem ListInv.quiet (h : k.ListInv l) (hq : Quiet k k') : k'.ListInv l := by
  refine ⟨h.lists.quiet hq, fun o t ho => ?_⟩
  rcases hq.object o t ho with ho | ht
  · exact (h.object o t ho).trans_le hq.threads
  · exact ht

theorem ListInv.trace {ops : List ListOp} (ht : ListTrace k ops k') :
    ∀ {l : List ℕ}, k.ListInv l → ListOp.AddsNew l ops → k'.ListInv (ops.foldl ListOp.apply l) := by
  induction ht with
  | done hq => exact fun h _ => h.quiet hq
  | quiet hq _ ih => exact fun h hn => ih (h.quiet hq) hn
  | @add k r k' t ops hk ha _ ih =>
    intro l h hn
    have hs := sameStore_addThreadToScheduler ha
    have hlt : t < k.threads := hk.elim id fun ho => ho.elim fun o ho => h.object o t ho
    obtain ⟨r', hr, hl⟩ := h.lists.add hn.1 hlt
    cases ha.symm.trans hr
    refine ih ⟨hl, fun o s ho => ?_⟩ hn.2
    rw [hs.threads]
    exact h.object o s (by simpa only [StandsFor, hs.object] using ho)
  | @remove k r k' t st ops hr _ ih =>
    intro l h hn
    have hs := sameStore_removeThreadFromScheduler hr
    obtain ⟨st', r', hr', -, hl⟩ := h.lists.remove t
    cases hr.symm.trans hr'
    refine ih ⟨hl, fun o s ho => ?_⟩ hn
    rw [hs.threads]
    exact h.object o s (by simpa only [StandsFor, hs.object] using ho)

/-! ### Steps without such calls -/

theorem Quiet.trans (h : Quiet k r) (h' : Quiet r k') : Quiet k k' := by
  refine ⟨h'.threadList.trans h.threadList, fun t ht => ?_, h.threads.trans h'.threads,
    fun o t ho => ?_⟩
  · exact (h'.next t (ht.trans_le h.threads)).trans (h.next t ht)
  · rcases h'.object o t ho with ho | ht
    · exact (h.object o t ho).imp_right fun ht => ht.trans_le h'.threads
    · exact .inr ht

theorem quiet_of_next {cur cr3 : Option ℕ} {resched : Bool} {tss : Tss}
    (h : ∀ t, (thread t).next = (k.thread t).next) :
    Quiet k { k with
      thread := thread
      currentThread := cur
      needsResched := resched
      tss := tss
      cr3 := cr3 } :=
  ⟨rfl, fun t _ => h t, le_rfl, fun _ _ ho => .inl ho⟩

theorem next_update {x : Thread} (hx : x.next = (thread t).next) (s : ℕ) :
    (Function.update thread t x s).next = (thread s).next := by
  by_cases hs : s = t
  · subst hs
    simp [hx]
  · simp [hs]

theorem quiet_setObject {x : Object} (htype : x.type = (k.object o).type)
    (hx : x.type = .thread → x.data = (k.object o).data) : Quiet k (k.setObject o x) := by
  refine { Quiet.refl k with object := fun o' t ho => .inl ?_ }
  by_cases heq : o' = o
  · subst heq
    obtain ⟨ht, hd⟩ : x.type = .thread ∧ x.data = some t := by
      simpa [StandsFor, setObject] using ho
    exact ⟨htype ▸ ht, hx ht ▸ hd⟩
  · simpa [StandsFor, setObject, heq] using ho

theorem quiet_blockThread (k : Kernel) (t : ℕ) : Quiet k (k.blockThread t) :=
  quiet_of_next (next_update rfl)

theorem quiet_wakeThread (k : Kernel) (t : ℕ) : Quiet k (k.wakeThread t) := by
  unfold wakeThread
  split_ifs
  · exact quiet_of_next (next_update rfl)
  · exact .refl k

theorem quiet_selectNextThread (h : k.selectNextThread = .ok (res, k')) : Quiet k k' := by
  unfold selectNextThread at h
  split at h
  · cases h
    exact .refl k
  obtain ⟨found, -, h⟩ := bind_eq_ok.1 h
  cases found with
  | none =>
    cases h
    exact { Quiet.refl k with }
  | some s =>
    cases h
    exact quiet_of_next (next_update rfl)

theorem quiet_makeRunning (k : Kernel) (prev nxt : ℕ) : Quiet k (k.makeRunning prev nxt) := by
  unfold makeRunning
  split_ifs
  · have hprev : Quiet k (k.setThread prev { k.thread prev with state := .ready }) :=
      quiet_of_next (next_update rfl)
    exact hprev.trans (quiet_of_next (next_update rfl))
  · exact quiet_of_next (next_update rfl)

theorem quiet_enterProcess (k : Kernel) (prev nxt : Option ℕ) :
    Quiet k (k.enterProcess prev nxt) := by
  unfold enterProcess
  split
  · exact .refl k
  · split_ifs
    · exact .refl k
    · exact { Quiet.refl k with }

theorem quiet_scheduleNext (h : k.scheduleNext = .ok k') : Quiet k k' := by
  rcases scheduleNext_split h with rfl | ⟨res, r, hsel, hk⟩
  · exact .refl _
  have hr : Quiet k { r with needsResched := false } := { quiet_selectNextThread hsel with }
  rcases hk with ⟨-, rfl⟩ | ⟨s, -, -, rfl⟩ | ⟨s, prev, -, -, -, rfl⟩
  · exact { hr with }
  · exact hr
  · exact hr.trans ((quiet_makeRunning _ _ _).trans (quiet_enterProcess _ _ _))

theorem quiet_allocateUserThread (k : Kernel) (owner : Option ℕ) :
    Quiet k (k.allocateUserThread owner).2 := by
  refine ⟨rfl, fun s hs => ?_, Nat.le_succ _, fun _ _ ho => .inl ho⟩
  simp [next, allocateUserThread, hs.ne]

theorem quiet_allocateObject (k : Kernel) (name : Option (List (BitVec 8))) (type : ObjectType) :
    Quiet k (k.allocateObject name type).2 := by
  refine { Quiet.refl k with object := fun o t ho => .inl ?_ }
  by_cases heq : o = k.objects
  · simp [StandsFor, allocateObject, heq] at ho
  · simpa [StandsFor, allocateObject, heq] using ho

def Rights.still : Rights := { Rights.all with runs := fun _ _ => False }

theorem Change.quiet (h : Change .still k k') : Quiet k k' := by
  cases h with
  | object htype hdata => exact quiet_setObject htype fun _ => hdata
  | bind htype _ => exact quiet_setObject rfl fun ht => by simp [htype] at ht
  | @stand o s _ hs =>
    refine { Quiet.refl k with object := fun o' t ht => ?_ }
    by_cases heq : o' = o
    · have hst : s = t := by simpa [heq, setObject] using ht.2
      exact .inr (hst ▸ hs)
    · exact .inl (by simpa [StandsFor, setObject, heq] using ht)
  | newObject _ name type => exact quiet_allocateObject k name type
  | newThread => exact quiet_allocateUserThread k _
  | sleep => exact { quiet_blockThread k _ with }
  | wake => exact quiet_wakeThread k _
  | run ha => exact ha.elim
  | schedule hs => exact quiet_scheduleNext hs
  | port | newSlot | append | delete | process | newPort | take => exact { Quiet.refl k with }

theorem Changes.quiet (h : Changes .still k k') : Quiet k k' :=
  h.invariant (I := Quiet k) (fun hc hq => hq.trans hc.quiet) (.refl k)

theorem still_wakes (k : Kernel) (t : ℕ) : Rights.still.Wakes k t := fun _ _ _ => trivial

/-! ### The calls of each event -/

theorem deleteThread_trace (h : k.deleteThread t = .ok k') :
    ListTrace k (if k.currentThread = some t then [] else [.remove t]) k' := by
  have hset : Quiet k (k.setThread t { k.thread t with state := .terminated }) :=
    quiet_of_next (next_update rfl)
  rcases deleteThread_cases h with ⟨hcur, rfl⟩ | ⟨hcur, st, hr⟩
  · rw [if_pos hcur]
    exact .done hset
  · rw [if_neg hcur]
    exact .quiet hset (.remove hr (.done (.refl _)))

theorem deleteObject_trace (h : k.deleteObject o = .ok k') :
    ListTrace k (k.deleteObjectOps o) k' := by
  unfold deleteObjectOps
  obtain ⟨-, ⟨hmany, rfl⟩ | ⟨hone, r, hr, rfl⟩⟩ := deleteObject_cases h
  · rw [if_pos hmany]
    exact .done (quiet_setObject rfl fun _ => rfl)
  rw [if_neg hone]
  have hfree : Quiet r (r.freeObject o) := { Quiet.refl r with }
  unfold deleteData at hr
  split at hr
  · rename_i p hdata htype
    cases hr
    have hport : Quiet k (k.deletePort p) := by
      unfold deletePort
      split_ifs
      · exact { Quiet.refl k with }
      · exact .refl k
    simp only [hdata, htype]
    exact .quiet hport (.done hfree)
  · rename_i s hdata htype
    simp only [hdata, htype]
    simpa using (deleteThread_trace hr).append (.done hfree)
  · rename_i hport hthread
    cases hr
    split
    · rename_i s hdata htype
      exact absurd htype (hthread s hdata)
    · exact .done hfree

theorem deleteSlots_trace : ∀ {is : List ℕ} {k k' : Kernel},
    is.foldlM (deleteSlot q) k = .ok k' → ListTrace k (deleteSlotsOps q is k) k'
  | [], k, k', h => by
    cases h
    exact .done (.refl k)
  | i :: is, k, k', h => by
    rw [foldlM_cons] at h
    obtain ⟨r, hr, h⟩ := bind_eq_ok.1 h
    rw [deleteSlotsOps, toOption_eq_some.2 hr]
    refine ListTrace.append ?_ (deleteSlots_trace h)
    rcases deleteSlot_cases hr with ⟨hslot, rfl⟩ | ⟨o, hslot, hr⟩
    · rw [hslot]
      exact .done { Quiet.refl k with }
    have htrace : ListTrace (k.setHandles q ((k.process q).handles.deleteFromHandleTable i).2)
        (k.deleteObjectOps o) r := deleteObject_trace hr
    rw [hslot]
    refine .quiet ?_ htrace
    exact { Quiet.refl k with }

theorem deleteProcess_trace (h : k.deleteProcess q = .ok k') :
    ListTrace k (deleteSlotsOps q (range maxObjPerProcess)
      { k with processList := k.processList.erase q }) k' := by
  obtain ⟨proc, -, h⟩ := bind_eq_ok.1 h
  obtain ⟨r, hr, h⟩ := bind_eq_ok.1 h
  cases h
  have hset : Quiet r (r.setThread (r.process q).mainThread
      { r.thread (r.process q).mainThread with state := .terminated }) :=
    quiet_of_next (next_update rfl)
  rw [← append_nil (deleteSlotsOps q _ _)]
  refine .quiet ?_ ((deleteSlots_trace hr).append (.done ?_))
  · exact { Quiet.refl k with }
  · exact { hset with }

theorem dwExit_trace (h : k.dwExit cur = .ok k') : ListTrace k (k.callOps cur .exit) k' := by
  obtain ⟨⟨st, r⟩, hr, h⟩ := bind_eq_ok.1 h
  obtain ⟨r', hr', h⟩ := bind_eq_ok.1 h
  simp only [callOps, toOption_eq_some.2 hr, elim_some]
  have hset : Quiet r (r.setThread cur { r.thread cur with state := .terminated }) :=
    quiet_of_next (next_update rfl)
  have hsched : Quiet r' k' := by
    refine Quiet.trans ?_ (quiet_scheduleNext h)
    exact { Quiet.refl r' with }
  refine .remove hr (.quiet hset ?_)
  simp only at hr'
  rw [exitOps]
  cases howner :
    ((r.setThread cur { r.thread cur with state := .terminated }).thread cur).owner with
  | none =>
    rw [howner] at hr'
    cases hr'
    exact .done hsched
  | some q =>
    rw [howner] at hr'
    rw [← append_nil (Option.elim _ _ _)]
    exact (deleteProcess_trace hr').append (.done hsched)

theorem dwInvokeObject_trace {op : ℕ} {args : InvokeArgs}
    (h : k.dwInvokeObject cur handle op args = .ok (st, k')) :
    ListTrace k (k.callOps cur (.invokeObject handle op args)) k' := by
  -- only `THREAD_RUN` of a thread object makes a call
  by_cases hrun : ∃ t, op = 1 ∧ k.threadOfHandle cur handle = some t
  · obtain ⟨t, rfl, ht⟩ := hrun
    obtain ⟨o, ho, hstands⟩ := threadOfHandle_eq_some.1 ht
    simp only [callOps, ht, elim_some]
    rcases dwInvokeObject_cases h with ⟨-, hthread⟩ | ⟨q, o', hrange, hq, -, hslot, -, hreq⟩
    · exact absurd hstands.1 (hthread o ho)
    cases (objectOfHandle_eq_some.2 ⟨hrange, q, hq, hslot⟩).symm.trans ho
    rcases hreq with ⟨htype, -⟩ | ⟨-, hreq⟩
    · cases htype.symm.trans hstands.1
    rcases handleThreadObjectRequest_cases hreq with ⟨-, hnone⟩ | ⟨-, s, hs, hadd⟩ | ⟨hop, -⟩
    · cases (hnone rfl).symm.trans hstands.2
    · cases hstands.2.symm.trans hs
      exact .add (.inr ⟨o, hstands⟩) hadd (.done (.refl _))
    · cases hop
  · have hnone : op = 1 → k.threadOfHandle cur handle = none := fun hop =>
      eq_none_iff_forall_ne_some.2 fun t ht => hrun ⟨t, hop, ht⟩
    have hops : k.callOps cur (.invokeObject handle op args) = [] := by
      unfold callOps
      split <;> simp_all
    rw [hops]
    exact .done (invokeObject_changes (fun hop t ht => hrun ⟨t, hop, ht⟩) h).quiet

theorem dwDeleteObject_trace (h : k.dwDeleteObject cur handle = .ok k') :
    ListTrace k (k.callOps cur (.deleteObject handle)) k' := by
  simp only [callOps]
  rcases dwDeleteObject_cases h with ⟨rfl, hnone⟩ | ⟨q, o, hrange, hq, -, hslot, -, hd⟩
  · rw [hnone]
    exact .done (.refl _)
  have htrace := deleteObject_trace hd
  have hops : ((k.setObject o { k.object o with
      name := (k.object o).name.map fun n => { n with freed := true } }).setHandles q
        ((k.process q).handles.deleteFromHandleTable handle.toNat).2).deleteObjectOps o
      = k.deleteObjectOps o := by
    simp only [deleteObjectOps, setObject, setHandles, setProcess, Function.update_self]
    rfl
  rw [hops] at htrace
  rw [objectOfHandle_eq_some.2 ⟨hrange, q, hq, hslot⟩]
  have hname : Quiet k (k.setObject o { k.object o with
      name := (k.object o).name.map fun n => { n with freed := true } }) :=
    quiet_setObject rfl fun _ => rfl
  refine .quiet hname (.quiet ?_ htrace)
  exact { Quiet.refl _ with }

theorem createProcess_trace (h : k.createProcess = .ok (q, k')) :
    ListTrace k [.add k.threads] k' := by
  obtain ⟨r, hr, h⟩ := bind_eq_ok.1 h
  cases h
  refine .quiet (quiet_allocateUserThread k (some k.processes)) (.quiet ?_
    (.add (.inl ?_) hr (.done ?_)))
  · exact { Quiet.refl _ with }
  · exact Nat.lt_succ_self _
  · exact { Quiet.refl r with }

theorem syscall_trace (h : k.syscall cur c = .ok k') : ListTrace k (k.callOps cur c) k' := by
  cases c with
  | createObject name type ok =>
    obtain ⟨⟨res, r⟩, hr, rfl⟩ := map_eq_ok.1 h
    exact .done (createObject_changes trivial hr).quiet
  | invokeObject handle op args =>
    obtain ⟨⟨st, r⟩, hr, rfl⟩ := map_eq_ok.1 h
    exact dwInvokeObject_trace hr
  | deleteObject handle => exact dwDeleteObject_trace h
  | translateHandle of handle copy =>
    obtain ⟨⟨st, r⟩, hr, rfl⟩ := map_eq_ok.1 h
    exact .done (translateHandle_changes (fun _ => trivial) hr).quiet
  | send handle copy size =>
    obtain ⟨⟨st, r⟩, hr, rfl⟩ := map_eq_ok.1 h
    exact .done (send_changes (fun _ _ t _ => still_wakes k t) hr).quiet
  | receive handle copyOk =>
    obtain ⟨⟨rc, r⟩, hr, rfl⟩ := map_eq_ok.1 h
    exact .done (receive_changes trivial hr).quiet
  | requestPorts copy size =>
    obtain ⟨⟨st, r⟩, hr, rfl⟩ := map_eq_ok.1 h
    exact .done (requestPorts_changes hr).quiet
  | exit => exact dwExit_trace h

theorem event_trace (h : k.event e = .ok k') : ListTrace k (k.eventOps e) k' := by
  cases e with
  | call c =>
    cases hcur : k.currentThread with
    | none =>
      simp only [event, eventOps, hcur] at h ⊢
      cases h
      exact .done (.refl _)
    | some cur =>
      simp only [event, eventOps, hcur] at h ⊢
      by_cases hin : k.inReceive cur = none
      · rw [if_pos hin] at h ⊢
        exact syscall_trace h
      · rw [if_neg hin] at h ⊢
        cases h
        exact .done (.refl _)
  | resume copyOk =>
    rcases event_resume_cases h with rfl | ⟨cur, p, rc, -, hin, hr⟩
    · exact .done (.refl _)
    · exact .done (receiveFrom_changes trivial (.inr ⟨p, hin⟩) hr).quiet
  | timer => exact .done (quiet_scheduleNext h)
  | kernelMessage q handle m =>
    obtain ⟨⟨st, r⟩, hr, rfl⟩ := map_eq_ok.1 h
    exact .done (sendMessage_changes (fun _ _ _ _ t _ => still_wakes k t) hr).quiet
  | createProcess =>
    obtain ⟨⟨q, r⟩, hr, rfl⟩ := map_eq_ok.1 h
    exact createProcess_trace hr

/-! ### Runs -/

theorem deleteObjectOps_add (k : Kernel) (o t : ℕ) : ListOp.add t ∉ k.deleteObjectOps o := by
  unfold deleteObjectOps
  split_ifs
  · simp
  · split
    · split_ifs <;> simp
    · simp

theorem deleteSlotsOps_add (t : ℕ) : ∀ (is : List ℕ) (k : Kernel),
    ListOp.add t ∉ deleteSlotsOps q is k
  | [], k => by simp [deleteSlotsOps]
  | i :: is, k => by
    rw [deleteSlotsOps, mem_append, not_or]
    constructor
    · cases (k.process q).handles.objlist i with
      | none => simp
      | some o => exact deleteObjectOps_add k o t
    · cases (deleteSlot q k i).toOption with
      | none => simp
      | some r => exact deleteSlotsOps_add t is r

theorem exitOps_add (k : Kernel) (cur t : ℕ) : ListOp.add t ∉ k.exitOps cur := by
  unfold exitOps
  cases (k.thread cur).owner with
  | none => simp
  | some q => exact deleteSlotsOps_add t _ _

theorem Lists.addsNew_call (h : k.Lists l) (hrun : k.RunsOnce (cur, .call c)) :
    ListOp.AddsNew l ({ k with currentThread := some cur }.callOps cur c) := by
  unfold callOps
  split
  · rename_i handle args
    cases ht : k.threadOfHandle cur handle with
    | none =>
      have ht' : { k with currentThread := some cur }.threadOfHandle cur handle = none := ht
      rw [ht']
      trivial
    | some t =>
      have ht' : { k with currentThread := some cur }.threadOfHandle cur handle = some t := ht
      rw [ht']
      exact ⟨h.scheduled_eq ▸ hrun t ht, trivial⟩
  · refine ListOp.addsNew_of_removes _ _ fun t => ?_
    cases { k with currentThread := some cur }.objectOfHandle cur _ with
    | none => simp
    | some o => exact deleteObjectOps_add _ o t
  · refine ListOp.addsNew_of_removes _ _ fun t => ?_
    rw [mem_cons, not_or]
    refine ⟨by simp, ?_⟩
    cases ({ k with currentThread := some cur }.removeThreadFromScheduler cur).toOption with
    | none => simp
    | some r => exact exitOps_add _ cur t
  · trivial

theorem Lists.addsNew (h : k.Lists l) (hrun : k.RunsOnce (cur, e)) :
    ListOp.AddsNew l ({ k with currentThread := some cur }.eventOps e) := by
  cases e with
  | call c =>
    simp only [eventOps]
    split_ifs with hin
    · exact h.addsNew_call hrun
    · trivial
  | createProcess => exact ⟨fun hm => (h.lt _ hm).false, trivial⟩
  | resume | timer | kernelMessage => trivial

theorem boot_listInv : boot.ListInv [] :=
  ⟨⟨rfl, nodup_nil, fun t ht => by simp at ht⟩, fun o t ho => by simp [StandsFor, boot] at ho⟩

/-- In every run in which no thread is run that is in the list already, the list is well formed. -/
theorem threadList_wellFormed {es : List (ℕ × Event)} {ops : List ListOp}
    (hrun : Run.exec loggedStep (boot, []) es = some (k, ops))
    (hok : Run.Meets loggedStep (fun s e => s.1.RunsOnce e) (boot, []) es) :
    k.ListWellFormed ops := by
  have hinv : k.ListInv (ops.foldl ListOp.apply []) := by
    refine Run.exec_invariant (I := fun s => s.1.ListInv (s.2.foldl ListOp.apply []))
      (fun s e s' hI hone hs => ?_) es boot_listInv hok hrun
    obtain ⟨r, hr, rfl⟩ := map_eq_some_iff.1 hs
    rw [foldl_append]
    have hcur : { s.1 with currentThread := some e.1 }.ListInv (s.2.foldl ListOp.apply []) :=
      { hI with lists := { hI.lists with } }
    exact hcur.trace (event_trace (toOption_eq_some.1 hr)) (hI.lists.addsNew hone)
  exact ⟨_, hinv.lists.walk, hinv.lists.nodup, fun t ht => ht.mem []⟩

/-- A process that creates a thread and runs it, twice, while the thread is in the list. -/
def runTwice : List (ℕ × Event) :=
  [(0, .createProcess), (0, .call (.createObject none .thread true)),
    (0, .call (.invokeObject 0 0 noArgs)), (0, .call (.invokeObject 0 1 noArgs)),
    (0, .call (.invokeObject 0 1 noArgs))]

theorem threadList_self_loop :
    ∃ k ops, Run.exec loggedStep (boot, []) runTwice = some (k, ops) ∧ ¬ k.ListWellFormed ops := by
  have hrun : (Run.exec loggedStep (boot, []) runTwice).map (fun s =>
      (s.1.threadList, s.1.next 0, s.1.next 1)) = some (some 0, some 1, some 1) := by
    decide +kernel
  obtain ⟨⟨k, ops⟩, hk, hlinks⟩ := map_eq_some_iff.1 hrun
  simp only [Prod.mk.injEq] at hlinks
  obtain ⟨hhead, hfirst, hself⟩ := hlinks
  refine ⟨k, ops, hk, ?_⟩
  rintro ⟨l, hwalk, -⟩
  rw [hhead] at hwalk
  have hmem : 1 ∈ l := by
    cases l with
    | nil => simp [Walk] at hwalk
    | cons a l =>
      obtain ⟨ha, hwalk⟩ := hwalk
      cases ha
      rw [hfirst] at hwalk
      cases l with
      | nil => simp [Walk] at hwalk
      | cons b l => simp [some.inj hwalk.1]
  exact hwalk.next_ne hmem hself

/-- A process that runs two threads and deletes the object of one. -/
def runBoth : List (ℕ × Event) :=
  [(0, .createProcess), (0, .call (.createObject none .thread true)),
    (0, .call (.invokeObject 0 0 noArgs)), (0, .call (.invokeObject 0 1 noArgs)),
    (0, .call (.createObject none .thread true)), (0, .call (.invokeObject 1 0 noArgs)),
    (0, .call (.invokeObject 1 1 noArgs)), (0, .call (.deleteObject 0))]

theorem threadList_wellFormed_two_threads :
    ∃ k ops, Run.exec loggedStep (boot, []) runBoth = some (k, ops) ∧ k.scheduled = [0, 2]
      ∧ k.ListWellFormed ops := by
  have hrun : (Run.exec loggedStep (boot, []) runBoth).map (fun s => s.1.scheduled)
      = some [0, 2] := by
    decide +kernel
  obtain ⟨⟨k, ops⟩, hk, hlist⟩ := map_eq_some_iff.1 hrun
  exact ⟨k, ops, hk, hlist, threadList_wellFormed hk (by decide +kernel)⟩

end Kernel

end DragonWare
