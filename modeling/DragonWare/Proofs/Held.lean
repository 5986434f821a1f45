import DragonWare.Proofs.Growth

/-!
# Objects that are held

An object is held while some slot of a process points at it. Only the creation of an object, the
deletion of a handle and the end of a process change which objects are held.
-/

namespace DragonWare

open Fallible Function

namespace Kernel

variable {k k' r : Kernel} {a : Rights} {cur i o q : ℕ} {handle : ℤ} {st : Status}
  {table : HandleTable}

def Held (k : Kernel) (o : ℕ) : Prop :=
  ∃ q < k.processes, ∃ i < maxObjPerProcess, (k.process q).handles.objlist i = some o

instance (k : Kernel) : DecidablePred k.Held := fun o => by
  unfold Held
  infer_instance

structure HeldSame (k k' : Kernel) : Prop where
  objects : k.objects ≤ k'.objects
  held : ∀ o, k'.Held o ↔ k.Held o

theorem HeldSame.trans (h : HeldSame k r) (h' : HeldSame r k') : HeldSame k k' :=
  ⟨h.objects.trans h'.objects, fun o => (h'.held o).trans (h.held o)⟩

theorem HeldSame.of_handles (hhandles : ∀ q, (k'.process q).handles = (k.process q).handles)
    (hobjects : k'.objects = k.objects) (hprocesses : k'.processes = k.processes) : HeldSame k k' :=
  ⟨hobjects.ge, fun o => by simp only [Held, hhandles, hprocesses]⟩

theorem SameStore.heldSame (h : SameStore k k') : HeldSame k k' :=
  .of_handles (fun q => by rw [h.process]) h.objects h.processes

theorem HeldSame.refl (k : Kernel) : HeldSame k k := .of_handles (fun _ => rfl) rfl rfl

theorem held_append (hb : k.Base) (hq : k.live.process q = true)
    (happend : (k.process q).handles.appendToHandleTable o = some (i, table)) (x : ℕ) :
    (k.setHandles q table).Held x ↔ k.Held x ∨ x = o := by
  obtain ⟨hi, -, hobj, -⟩ := HandleTable.appendToHandleTable_some happend
  have hfree := (hb.bits q).free happend
  constructor
  · rintro ⟨q', hq', j, hj, hx⟩
    by_cases hqq : q' = q
    · rw [hqq, setHandles_process, hobj] at hx
      by_cases hji : j = i
      · rw [hji, update_self] at hx
        exact .inr (Option.some.inj hx).symm
      · rw [update_of_ne hji] at hx
        exact .inl ⟨q, hqq ▸ hq', j, hj, hx⟩
    · rw [setHandles_process_ne k hqq] at hx
      exact .inl ⟨q', hq', j, hj, hx⟩
  · rintro (⟨q', hq', j, hj, hx⟩ | rfl)
    · refine ⟨q', hq', j, hj, ?_⟩
      by_cases hqq : q' = q
      · have hji : j ≠ i := by
          rintro rfl
          rw [hqq, hfree] at hx
          cases hx
        rw [hqq, setHandles_process, hobj, update_of_ne hji]
        exact hqq ▸ hx
      · rw [setHandles_process_ne k hqq]
        exact hx
    · refine ⟨q, hb.process_lt q hq, i, hi, ?_⟩
      rw [setHandles_process, hobj, update_self]

theorem HeldSame.append (hb : k.Base) (hq : k.live.process q = true) (ho : k.Held o)
    (happend : (k.process q).handles.appendToHandleTable o = some (i, table)) :
    HeldSame k (k.setHandles q table) := by
  refine ⟨le_rfl, fun x => (held_append hb hq happend x).trans (or_iff_left_of_imp ?_)⟩
  rintro rfl
  exact ho

def HeldBeside (k : Kernel) (q i o : ℕ) : Prop :=
  ∃ q' < k.processes, ∃ j < maxObjPerProcess, (q', j) ≠ (q, i)
    ∧ (k.process q').handles.objlist j = some o

theorem held_delete (k : Kernel) (q i o : ℕ) :
    (k.setHandles q ((k.process q).handles.deleteFromHandleTable i).2).Held o
      ↔ k.HeldBeside q i o := by
  refine exists_congr fun q' => and_congr_right fun _ => exists_congr fun j =>
    and_congr_right fun _ => ?_
  by_cases hqq : q' = q
  · rw [hqq, setHandles_process]
    by_cases hji : j = i
    · simp [HandleTable.deleteFromHandleTable, hji]
    · simp [HandleTable.deleteFromHandleTable, hji]
  · rw [setHandles_process_ne k hqq]
    simp [hqq]

theorem HeldBeside.held (h : k.HeldBeside q i o) : k.Held o := by
  obtain ⟨q', hq', j, hj, -, ho⟩ := h
  exact ⟨q', hq', j, hj, ho⟩

theorem Held.beside {x : ℕ} (h : k.Held x) (hslot : (k.process q).handles.objlist i = some o)
    (hne : x ≠ o) : k.HeldBeside q i x := by
  obtain ⟨q', hq', j, hj, hx⟩ := h
  refine ⟨q', hq', j, hj, fun heq => hne ?_, hx⟩
  obtain ⟨rfl, rfl⟩ := Prod.mk.inj heq
  exact Option.some.inj (hx.symm.trans hslot)

theorem HeldSame.delete (hslot : (k.process q).handles.objlist i = some o)
    (hbeside : k.HeldBeside q i o) :
    HeldSame k (k.setHandles q ((k.process q).handles.deleteFromHandleTable i).2) := by
  refine ⟨le_rfl, fun x => (held_delete k q i x).trans ⟨HeldBeside.held, fun hx => ?_⟩⟩
  by_cases hxo : x = o
  · exact hxo ▸ hbeside
  · exact hx.beside hslot hxo

theorem deleteSlots_slots (h : (List.range maxObjPerProcess).foldlM (deleteSlot q) k = .ok k') :
    k'.objects = k.objects ∧ k'.processes = k.processes
      ∧ ∀ q' i, (k'.process q').handles.objlist i
        = if q' = q ∧ i < maxObjPerProcess then none else (k.process q').handles.objlist i := by
  refine foldlM_range (I := fun n a => a.objects = k.objects ∧ a.processes = k.processes
      ∧ ∀ q' i, (a.process q').handles.objlist i
        = if q' = q ∧ i < n then none else (k.process q').handles.objlist i)
    ⟨rfl, rfl, by simp⟩ (fun n a b _ hI hs => ?_) h
  obtain ⟨hobjects, hprocesses, hslots⟩ := hI
  have hdel : ∀ q' i, ((a.setHandles q ((a.process q).handles.deleteFromHandleTable n).2).process
      q').handles.objlist i
        = if q' = q ∧ i < n + 1 then none else (k.process q').handles.objlist i := by
    intro q' i
    by_cases hq : q' = q
    · rw [hq, setHandles_process]
      simp only [HandleTable.deleteFromHandleTable]
      by_cases hi : i = n
      · simp [hi]
      · rw [update_of_ne hi, hslots]
        have hlt : i < n + 1 ↔ i < n := by omega
        simp only [hlt]
    · rw [setHandles_process_ne a hq, hslots]
      simp [hq]
  rcases deleteSlot_cases hs with ⟨-, rfl⟩ | ⟨o, -, hd⟩
  · exact ⟨hobjects, hprocesses, hdel⟩
  obtain ⟨hhandles, -, -, hobjects', hprocesses'⟩ := deleteObject_tables hd
  refine ⟨hobjects'.trans hobjects, hprocesses'.trans hprocesses, fun q' i => ?_⟩
  rw [hhandles]
  exact hdel q' i

def HeldOutside (k : Kernel) (q o : ℕ) : Prop :=
  ∃ q' < k.processes, q' ≠ q ∧ ∃ i < maxObjPerProcess,
    (k.process q').handles.objlist i = some o

theorem HeldOutside.held (h : k.HeldOutside q o) : k.Held o := by
  obtain ⟨q', hq', -, i, hi, ho⟩ := h
  exact ⟨q', hq', i, hi, ho⟩

theorem held_deleteProcess (h : k.deleteProcess q = .ok k') :
    k'.objects = k.objects ∧ ∀ o, k'.Held o ↔ k.HeldOutside q o := by
  obtain ⟨-, r, r', hr, hsame, rfl⟩ := deleteProcess_cases h
  obtain ⟨hobjects, hprocesses, hslots⟩ := deleteSlots_slots hr
  refine ⟨hsame.objects.trans hobjects, fun o => ?_⟩
  simp only [Held, HeldOutside, hsame.process, hsame.processes, hprocesses, hslots]
  refine exists_congr fun q' => and_congr_right fun _ => ?_
  by_cases hq : q' = q
  · simpa [hq] using fun i hi => by simp [hi]
  · simp [hq]

theorem heldSame_createProcess (h : k.createProcess = .ok (q, k')) : HeldSame k k' := by
  obtain ⟨r, hr, rfl⟩ := createProcess_cases h
  have hnew : HeldSame k k.withProcess := by
    refine ⟨le_rfl, fun o => ⟨?_, ?_⟩⟩
    · rintro ⟨q, hq, i, hi, ho⟩
      have hne : q ≠ k.processes := by
        rintro rfl
        simp [withProcess] at ho
      refine ⟨q, lt_of_le_of_ne (Nat.lt_succ_iff.1 hq) hne, i, hi, ?_⟩
      simpa [withProcess, hne] using ho
    · rintro ⟨q, hq, i, hi, ho⟩
      refine ⟨q, hq.trans (Nat.lt_succ_self _), i, hi, ?_⟩
      simpa [withProcess, hq.ne] using ho
  exact { hnew.trans hr.heldSame with }

/-! ### Stores that only pass handles on -/

theorem HeldSame.change (ha : ¬ a.creates) (hb : k.Base) (hc : Change a k k') : HeldSame k k' := by
  cases hc with
  | newObject hcreates => exact absurd hcreates ha
  | newSlot hcreates => exact absurd hcreates ha
  | append hq hq' hj hslot happend =>
    have hlive := hq'.elim id (hb.listed _)
    exact .append hb hq ⟨_, hb.process_lt _ hlive, _, hj, hslot⟩ happend
  | delete _ _ hslot hne hq' hj hslot' =>
    exact .delete hslot ⟨_, hb.process_lt _ (hb.listed _ hq'), _, hj,
      fun heq => hne (Prod.mk.inj heq).1, hslot'⟩
  | @process q x tss hx =>
    refine .of_handles (fun q' => ?_) rfl rfl
    by_cases hq : q' = q
    · simp [setProcess, hq, hx]
    · simp [setProcess, hq]
  | wake => exact (sameStore_wakeThread k _).heldSame
  | run _ hrun => exact (sameStore_addThreadToScheduler hrun).heldSame
  | schedule hs => exact (scheduleNext_cases hs).1.heldSame
  | port | object | bind | stand | newThread | newPort | take | sleep =>
    exact { HeldSame.refl k with }

theorem Changes.heldSame (ha : ¬ a.creates) (hb : k.Base) (hc : Changes a k k') : HeldSame k k' :=
  (hc.invariant (I := fun r => r.Base ∧ HeldSame k r)
    (fun hc hI => ⟨hI.1.change hc, hI.2.trans (.change ha hI.1 hc)⟩) ⟨hb, .refl k⟩).2

def Rights.passing : Rights := { Rights.all with creates := False }

/-- The events that make no new object known and end nothing. -/
def Passing : Event → Prop
  | .call (.createObject _ _ _) | .call (.deleteObject _) | .call .exit | .createProcess => False
  | _ => True

theorem heldSame_event (hb : k.Base) {e : Event} (he : Passing e) (h : k.event e = .ok k') :
    HeldSame k k' := by
  have hall : Rights.passing.Allows k e := { Rights.all_allows k e with
    creates := fun _ _ _ heq => by
      subst heq
      exact he }
  rcases event_changes hall h with hc | ⟨_, _, rfl, -⟩ | ⟨_, rfl, -⟩ | ⟨_, rfl, -⟩
  · exact hc.heldSame id hb
  all_goals exact he.elim

end Kernel

end DragonWare
