import DragonWare.ObjectHeap
import DragonWare.Proofs.Object
import DragonWare.Proofs.UserCopy

/-!
# What `_DWCreateObject` leaves behind when it fails

The name, the object and the slot are taken one after the other, and only a name that could not be
copied is given back (`create_object_atomic_iff`).
-/

namespace DragonWare

open Option

namespace HandleTable

/-- Slot `i`, the lowest that was free, holds `obj`, and nothing else is different. -/
structure TakesLowest (table table' : HandleTable) (i obj : ℕ) : Prop where
  lt : i < maxObjPerProcess
  free : table.validBitmap.getLsbD i = false
  lowest : ∀ j < i, table.validBitmap.getLsbD j = true
  valid : ∀ j < maxObjPerProcess,
    table'.validBitmap.getLsbD j = (table.validBitmap.getLsbD j || decide (j = i))
  objlist : table'.objlist = Function.update table.objlist i (some obj)

theorem takesLowest_append {table table' : HandleTable} {i obj : ℕ}
    (h : table.appendToHandleTable obj = some (i, table')) : table.TakesLowest table' i obj :=
  let ⟨hlt, hfree, hobj, hvalid⟩ := appendToHandleTable_some h
  ⟨hlt, hfree, appendToHandleTable_lowest h, hvalid, hobj⟩

def Full (table : HandleTable) : Prop := ~~~table.validBitmap = 0#32

end HandleTable

namespace ObjectHeap

variable {s t : ObjectHeap} {curr : ℕ} {type : ObjectType} {nameBlock objBlock : Option ℕ}

/-- The result is -1 and the table of the caller and the blocks in use are the same, or it is the
handle of a new object with one reference. -/
def CreatedOrNothing (s : ObjectHeap) (curr : ℕ) (r : ℤ × ObjectHeap) : Prop :=
  (r.1 = -1 → r.2.handles curr = s.handles curr ∧ r.2.blocks = s.blocks)
    ∧ (r.1 ≠ -1 → ∃ i obj, r.1 = (i : ℕ)
      ∧ (s.handles curr).TakesLowest (r.2.handles curr) i obj
      ∧ obj ∉ s.blocks ∧ obj ∈ r.2.blocks ∧ (r.2.object obj).refcnt = 1)

/-- Blocks that `kmalloc` can return for the name and for the object. -/
def Fresh (s : ObjectHeap) (nameBlock objBlock : Option ℕ) : Prop :=
  (∀ a ∈ nameBlock, a ∉ s.blocks) ∧ ∀ b ∈ objBlock, b ∉ s.blocks ∧ nameBlock ≠ some b

instance : Decidable (s.Fresh nameBlock objBlock) :=
  inferInstanceAs (Decidable (_ ∧ _))

theorem createdOrNothing_refl : s.CreatedOrNothing curr (-1, s) :=
  ⟨fun _ => ⟨rfl, rfl⟩, fun h => absurd rfl h⟩

theorem not_createdOrNothing (ht : t.blocks ≠ s.blocks) : ¬ s.CreatedOrNothing curr (-1, t) :=
  fun h => ht (h.1 rfl).2

theorem installObject_atomic_iff (hhandles : t.handles = s.handles)
    (hsub : s.blocks ⊆ t.blocks) (hobj : ∀ b ∈ objBlock, b ∉ t.blocks) (nameReal : Option ℕ) :
    s.CreatedOrNothing curr (t.installObject curr nameReal type objBlock)
      ↔ (objBlock = none ∧ t.blocks = s.blocks) ∨ objBlock ≠ none ∧ ¬ (s.handles curr).Full := by
  unfold installObject
  cases objBlock with
  | none =>
    simp only [allocateObject, ne_eq, not_true_eq_false, false_and, or_false, true_and]
    refine ⟨fun h => (h.1 rfl).2, fun hb => ⟨fun _ => ⟨?_, hb⟩, fun h => absurd rfl h⟩⟩
    rw [hhandles]
  | some b =>
    have hb : b ∉ t.blocks := hobj b rfl
    simp only [allocateObject, kmalloc, hhandles, reduceCtorEq, false_and, ne_eq, not_false_eq_true,
      true_and, false_or]
    cases happend : (s.handles curr).appendToHandleTable b with
    | none =>
      refine iff_of_false (not_createdOrNothing ?_)
        (not_not.2 (HandleTable.appendToHandleTable_eq_none.1 happend))
      intro heq
      exact hb (hsub (heq ▸ Finset.mem_insert_self b _))
    | some r =>
      obtain ⟨i, table⟩ := r
      have hroom : ¬ (s.handles curr).Full := fun hfull => by
        rw [HandleTable.appendToHandleTable_eq_none.2 hfull] at happend
        cases happend
      refine iff_of_true ⟨fun h => ?_, fun _ => ⟨i, b, rfl, ?_, ?_, ?_, ?_⟩⟩ hroom
      · have : ((i : ℕ) : ℤ) = -1 := h
        omega
      · simp only [Function.update_self]
        exact HandleTable.takesLowest_append happend
      · exact fun hs => hb (hsub hs)
      · exact Finset.mem_insert_self b _
      · simp

end ObjectHeap

/-- The name can be measured, an object can be allocated once the name has been copied, and there is
a free slot. -/
def ObjectHeap.CanBuild (s : ObjectHeap) (m : Mmu) (curr : ℕ) (name : BitVec 32)
    (nameBlock objBlock : Option ℕ) : Prop :=
  if StringCall.createObject.looks m name then
    ∃ len ∈ (m.strnlenFrom s.mem name maxPortName 0).2,
      nameBlock = none ∨ m.checkUserRange name (BitVec.ofNat 32 (len + 1)) ≠ .ok
        ∨ objBlock ≠ none ∧ ¬ (s.handles curr).Full
  else objBlock = none ∨ ¬ (s.handles curr).Full

open ObjectHeap in
theorem create_object_atomic_iff (s : ObjectHeap) (m : Mmu) (curr : ℕ) (name : BitVec 32)
    (type : ObjectType) {nameBlock objBlock : Option ℕ} (hf : s.Fresh nameBlock objBlock) :
    (∃ r, s.dwCreateObject m curr name type nameBlock objBlock = some r
      ∧ s.CreatedOrNothing curr r) ↔ s.CanBuild m curr name nameBlock objBlock := by
  have hreturns : ∀ r : ℤ × ObjectHeap, (∃ r', some r = some r' ∧ s.CreatedOrNothing curr r')
      ↔ s.CreatedOrNothing curr r := fun r => by simp
  unfold dwCreateObject CanBuild
  by_cases hlooks : StringCall.createObject.looks m name = true
  · simp only [hlooks, if_true]
    cases hlen : (m.strnlenFrom s.mem name maxPortName 0).2 with
    | none => simp
    | some len =>
      simp only [bind_eq_bind, bind_some, mem_def, some.injEq, exists_eq_left']
      cases nameBlock with
      | none => exact iff_of_true ⟨_, rfl, createdOrNothing_refl⟩ (.inl rfl)
      | some a =>
        have ha : a ∉ s.blocks := hf.1 a rfl
        unfold copyFromUser
        cases m.checkUserRange name (BitVec.ofNat 32 (len + 1)) with
        | ok =>
          have hobj : ∀ b ∈ objBlock, b ∉ insert a s.blocks := fun b hb => by
            obtain ⟨hbs, hab⟩ := hf.2 b hb
            exact fun hmem => (Finset.mem_insert.1 hmem).elim (fun heq => hab (by rw [heq])) hbs
          refine (hreturns _).trans ((installObject_atomic_iff ?_ ?_ hobj _).trans ?_)
          · rfl
          · exact Finset.subset_insert a s.blocks
          -- the name is in use whether or not there is an object
          have hname : insert a s.blocks ≠ s.blocks := fun heq => ha (Finset.insert_eq_self.1 heq)
          simp [ObjectHeap.kmalloc, hname]
        | _ =>
          refine iff_of_true ⟨_, rfl, fun _ => ⟨rfl, ?_⟩, fun h => absurd rfl h⟩ (.inr (.inl ?_))
          · exact Finset.erase_insert ha
          · simp
  · simp only [hlooks, Bool.false_eq_true, if_false]
    refine (hreturns _).trans ?_
    rw [installObject_atomic_iff rfl (Finset.Subset.refl _) fun b hb => (hf.2 b hb).1]
    cases objBlock <;> simp

def bootObjectHeap (bitmap : BitVec 32) : ObjectHeap :=
  ⟨fun _ => 0#8, fun _ => ⟨none, .unknown, none, 0#32, 0⟩, fun _ => ⟨fun _ => none, bitmap⟩, ∅⟩

theorem create_object_atomic_iff_boot :
    (∃ r, (bootObjectHeap 5#32).dwCreateObject (onePageTable [1]) 0 0x1000#32 .port (some 1)
      (some 2) = some r ∧ (bootObjectHeap 5#32).CreatedOrNothing 0 r)
    ↔ (bootObjectHeap 5#32).CanBuild (onePageTable [1]) 0 0x1000#32 (some 1) (some 2) :=
  create_object_atomic_iff _ _ _ _ _ (by decide +kernel)

/-- With no room for the object the name stays in use; with a full table the object does. -/
theorem create_object_leaks :
    (((bootObjectHeap 0#32).dwCreateObject (onePageTable [1]) 0 0x1000#32 .port (some 1) none).map
      fun r => (r.1, r.2.blocks)) = some (-1, {1})
    ∧ (((bootObjectHeap (BitVec.allOnes 32)).dwCreateObject (onePageTable [1]) 0 0#32 .port none
      (some 2)).map fun r => (r.1, r.2.blocks)) = some (-1, {2}) := by
  decide +kernel

end DragonWare
