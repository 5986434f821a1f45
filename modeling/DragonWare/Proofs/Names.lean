import DragonWare.Proofs.ReplyHandle
import DragonWare.Names
import DragonWare.Proofs.Held

/-!
# Each name is freed once

`_DWDeleteObject` frees the name with any handle, and neither `DeleteObject` nor `DeleteProcess`
frees it with the last one; nor is a name freed whose object could not be made known
(`names_freed_once_iff`).
-/

namespace DragonWare

open Fallible Function Kernel NamedKernel Option

variable {name : Option (List (BitVec 8))} {type : ObjectType} {res : Option ℕ}

namespace Kernel

variable {k k' : Kernel}

structure NewObject (k k' : Kernel) (q : ℕ) : Prop where
  objects : k'.objects = k.objects + 1
  base : k'.Base
  other : ∀ o ≠ k.objects, k'.Held o ↔ k.Held o
  new : k'.Held k.objects ↔ k.Held k.objects ∨ ~~~(k.process q).handles.validBitmap ≠ 0#32

theorem newObject_createObject (hb : k.Base) {cur : ℕ} {ok : Bool}
    (h : k.dwCreateObject cur name type ok = .ok (res, k')) :
    (ok = false ∧ k' = k) ∨ ∃ q, ok = true ∧ (k.thread cur).owner = some q ∧ NewObject k k' q := by
  have hb' := hb.changes (createObject_changes (a := .all) trivial h)
  rcases dwCreateObject_cases h with
    hfail | ⟨q, hok, hq, hlive, ⟨-, hfull, rfl⟩ | ⟨i, table, -, happend, rfl⟩⟩
  · exact .inl hfail
  · have hfull := HandleTable.appendToHandleTable_eq_none.1 hfull
    exact .inr ⟨q, hok, hq, rfl, hb', fun o _ => Iff.rfl,
      ⟨.inl, fun h => h.resolve_right (not_not.2 hfull)⟩⟩
  have hroom : ~~~(k.process q).handles.validBitmap ≠ 0#32 := by
    intro hfull
    rw [HandleTable.appendToHandleTable_eq_none.2 hfull] at happend
    cases happend
  have hheld := held_append (hb.allocateObject name type) hlive happend
  refine .inr ⟨q, hok, hq, rfl, hb', fun o hne => ?_, ?_⟩
  · exact (hheld o).trans (or_iff_left hne)
  · exact iff_of_true ((hheld _).2 (.inr rfl)) (.inr hroom)

end Kernel

namespace NamedKernel

variable {s s' : NamedKernel} {cur q : ℕ} {e : TaskEvent} {k : Kernel} {handle : ℤ}

/-- A name whose object is held has not been freed, any other name has been freed exactly once,
and no name was read after it was freed. -/
structure NamesSettled (s : NamedKernel) : Prop where
  held : ∀ o b, s.nameOf o = some b → s.kernel.Held o → s.frees b = 0
  gone : ∀ b < s.buffers, (∀ o, s.nameOf o = some b → ¬ s.kernel.Held o) → s.frees b = 1
  reads : s.staleReads = 0

structure NamesInv (s : NamedKernel) : Prop where
  base : s.kernel.Base
  held_lt : ∀ o, s.kernel.Held o → o < s.kernel.objects
  named_lt : ∀ o b, s.nameOf o = some b → o < s.kernel.objects ∧ b < s.buffers
  inj : ∀ o o' b, s.nameOf o = some b → s.nameOf o' = some b → o = o'

/-- The name of a new object is released again if it does not come to be held. -/
def CreatesTidily (s : NamedKernel) (cur : ℕ) (name : Option (List (BitVec 8)))
    (nameOk copyOk objectOk : Bool) : Prop :=
  s.kernel.inReceive cur = none → name ≠ none → nameOk = true → copyOk = true →
    objectOk = true ∧ ∀ q ∈ (s.kernel.thread cur).owner,
      ~~~(s.kernel.process q).handles.validBitmap ≠ 0#32

def DeletesTidily (s : NamedKernel) (cur : ℕ) (handle : ℤ) : Prop :=
  s.kernel.inReceive cur = none → ∀ o ∈ s.kernel.objectOfHandle cur handle, s.nameOf o ≠ none →
    ∀ q ∈ (s.kernel.thread cur).owner, ¬ s.kernel.HeldBeside q handle.toNat o

/-- The objects with names of a process that ends are held by others too. -/
def EndsTidily (s : NamedKernel) (q : ℕ) : Prop :=
  ∀ i < maxObjPerProcess, ∀ o ∈ (s.kernel.process q).handles.objlist i, s.nameOf o ≠ none →
    s.kernel.HeldOutside q o

def Tidy (s : NamedKernel) : NameStep → Prop
  | .createObject cur name _ nameOk copyOk objectOk =>
    s.CreatesTidily cur name nameOk copyOk objectOk
  | .task cur (.event (.call (.createObject name _ ok))) => s.CreatesTidily cur name ok ok ok
  | .task cur (.event (.call (.deleteObject handle))) => s.DeletesTidily cur handle
  | .task cur e => ∀ q ∈ s.kernel.deletes cur e, s.EndsTidily q

/-! ### What a step does -/

section

variable (h : s.NamesInv)

include h

theorem NamesInv.onThread (cur : ℕ) : (s.onThread cur).NamesInv :=
  { h with base := h.base.sameStore (sameStore_of_owner fun _ => rfl) }

theorem NamesInv.withKernel (hb : k.Base) (hle : s.kernel.objects ≤ k.objects)
    (hheld : ∀ o, k.Held o → s.kernel.Held o ∨ o < k.objects) :
    ({ s with kernel := k } : NamedKernel).NamesInv where
  base := hb
  held_lt o ho := (hheld o ho).elim (fun ho => (h.held_lt o ho).trans_le hle) id
  named_lt o b ho := (h.named_lt o b ho).imp_left fun hlt => hlt.trans_le hle
  inj := h.inj

theorem NamesInv.free_iff (hP : s.NamesSettled) {o b : ℕ}
    (ho : s.nameOf o = some b) : s.frees b = 0 ↔ s.kernel.Held o := by
  refine ⟨fun hzero => ?_, hP.held o b ho⟩
  by_contra hheld
  have hone := hP.gone b (h.named_lt o b ho).2 fun x hx => h.inj x o b hx ho ▸ hheld
  exact absurd (hzero.symm.trans hone) (by decide)

theorem NamesInv.withKernel_settled (hP : s.NamesSettled)
    (h' : ({ s with kernel := k } : NamedKernel).NamesInv) :
    ({ s with kernel := k } : NamedKernel).NamesSettled ↔
      ∀ o, s.nameOf o ≠ none → (k.Held o ↔ s.kernel.Held o) := by
  constructor
  · intro hP' o ho
    obtain ⟨b, hb⟩ := ne_none_iff_exists'.1 ho
    exact (h'.free_iff hP' hb).symm.trans (h.free_iff hP hb)
  · intro hiff
    have hiff : ∀ o b, s.nameOf o = some b → (k.Held o ↔ s.kernel.Held o) :=
      fun o b ho => hiff o (by simp [ho])
    exact ⟨fun o b ho hk => hP.held o b ho ((hiff o b ho).1 hk),
      fun b hb hnone => hP.gone b hb fun o ho hk => hnone o ho ((hiff o b ho).2 hk), hP.reads⟩

theorem NamesInv.newObject (hk : NewObject s.kernel k q) :
    ({ s with kernel := k } : NamedKernel).NamesInv := by
  refine h.withKernel hk.base (hk.objects ▸ Nat.le_succ _) fun o ho => ?_
  by_cases hne : o = s.kernel.objects
  · exact .inr (hne ▸ hk.objects ▸ Nat.lt_succ_self _)
  · exact .inl ((hk.other o hne).1 ho)

theorem NamesInv.other_held (hk : NewObject s.kernel k q) {o b : ℕ}
    (ho : s.nameOf o = some b) : k.Held o ↔ s.kernel.Held o :=
  hk.other o (h.named_lt o b ho).1.ne

theorem NamesInv.allocateName : s.allocateName.NamesInv :=
  { h with named_lt := fun o b ho =>
      ⟨(h.named_lt o b ho).1, (h.named_lt o b ho).2.trans (Nat.lt_succ_self _)⟩ }

end

def nameObject (s : NamedKernel) (k : Kernel) : NamedKernel :=
  { s.allocateName with
    kernel := k
    nameOf := update s.nameOf s.kernel.objects (some s.buffers) }

theorem NamesInv.nameObject (h : s.NamesInv) (hk : NewObject s.kernel k q) :
    (s.nameObject k).NamesInv := by
  have hnew := h.allocateName.newObject hk
  have hname : ∀ o b, (s.nameObject k).nameOf o = some b →
      (o = s.kernel.objects ∧ b = s.buffers) ∨ (o ≠ s.kernel.objects ∧ s.nameOf o = some b) := by
    intro o b ho
    by_cases hne : o = s.kernel.objects
    · simp only [NamedKernel.nameObject, hne, update_self, some.injEq] at ho
      exact .inl ⟨hne, ho.symm⟩
    · simp only [NamedKernel.nameObject, update_of_ne hne] at ho
      exact .inr ⟨hne, ho⟩
  refine { hnew with named_lt := fun o b ho => ?_, inj := fun o o' b ho ho' => ?_ }
  · rcases hname o b ho with ⟨rfl, rfl⟩ | ⟨-, ho⟩
    · exact ⟨hk.objects ▸ Nat.lt_succ_self _, Nat.lt_succ_self _⟩
    · exact hnew.named_lt o b ho
  · rcases hname o b ho with ⟨rfl, rfl⟩ | ⟨-, ho⟩
    · rcases hname o' _ ho' with ⟨rfl, -⟩ | ⟨-, ho'⟩
      · rfl
      · exact absurd (h.named_lt o' _ ho').2 (lt_irrefl _)
    · rcases hname o' b ho' with ⟨rfl, rfl⟩ | ⟨-, ho'⟩
      · exact absurd (h.named_lt o _ ho).2 (lt_irrefl _)
      · exact h.inj o o' b ho ho'

theorem NamesSettled.beside (hP : s.NamesSettled) {c : ℕ} (hreads : s'.staleReads = s.staleReads)
    (hsame : ∀ b ≠ c, (b < s'.buffers → b < s.buffers) ∧ s'.frees b = s.frees b
      ∧ ∀ o, (s'.nameOf o = some b ↔ s.nameOf o = some b)
        ∧ (s.nameOf o = some b → (s'.kernel.Held o ↔ s.kernel.Held o)))
    (hheld : ∀ o, s'.nameOf o = some c → s'.kernel.Held o → s'.frees c = 0)
    (hgone : (∀ o, s'.nameOf o = some c → ¬ s'.kernel.Held o) → s'.frees c = 1) :
    s'.NamesSettled := by
  refine ⟨fun o b ho hk => ?_, fun b hb hnone => ?_, hreads.trans hP.reads⟩
  · by_cases hbb : b = c
    · subst hbb
      exact hheld o ho hk
    · obtain ⟨-, hfrees, hobj⟩ := hsame b hbb
      have ho := (hobj o).1.1 ho
      exact hfrees.trans (hP.held o b ho (((hobj o).2 ho).1 hk))
  · by_cases hbb : b = c
    · subst hbb
      exact hgone hnone
    · obtain ⟨hlt, hfrees, hobj⟩ := hsame b hbb
      refine hfrees.trans (hP.gone b (hlt hb) fun o ho hk => ?_)
      exact hnone o ((hobj o).1.2 ho) (((hobj o).2 ho).2 hk)

section

variable (h : s.NamesInv)

include h

theorem NamesInv.nameObject_settled (hP : s.NamesSettled)
    (hk : NewObject s.kernel k q) : (s.nameObject k).NamesSettled ↔ k.Held s.kernel.objects := by
  have hnew : (s.nameObject k).nameOf s.kernel.objects = some s.buffers := by
    simp [NamedKernel.nameObject]
  have hfresh : (s.nameObject k).frees s.buffers = 0 := by
    simp [NamedKernel.nameObject, NamedKernel.allocateName]
  have h' := h.nameObject hk
  refine ⟨fun hsettled => (h'.free_iff hsettled hnew).1 hfresh, fun hheld => ?_⟩
  refine hP.beside (c := s.buffers) rfl (fun b hb => ⟨fun hlt => ?_, ?_, fun o =>
    ⟨?_, h.other_held hk⟩⟩) (fun _ _ _ => hfresh) fun hnone => absurd hheld (hnone _ hnew)
  · exact lt_of_le_of_ne (Nat.lt_succ_iff.1 hlt) hb
  · simp [NamedKernel.nameObject, NamedKernel.allocateName, hb]
  · by_cases hne : o = s.kernel.objects
    · refine iff_of_false ?_ fun ho => (h.named_lt o b ho).1.ne hne
      simpa [NamedKernel.nameObject, hne] using Ne.symm hb
    · simp [NamedKernel.nameObject, hne]

theorem NamesInv.allocateName_not_settled : ¬ s.allocateName.NamesSettled := by
  intro hsettled
  have hone : s.allocateName.frees s.buffers = 1 := by
    refine hsettled.gone s.buffers (Nat.lt_succ_self _) fun o ho => ?_
    exact absurd (h.named_lt o _ ho).2 (lt_irrefl _)
  simp [NamedKernel.allocateName] at hone

section

variable (hP : s.NamesSettled)

include hP

theorem NamesInv.freed_settled : (s.allocateName.kfree s.buffers).NamesSettled := by
  refine hP.beside (c := s.buffers) rfl
    (fun b hb => ⟨fun hlt => ?_, ?_, fun _ => ⟨Iff.rfl, fun _ => Iff.rfl⟩⟩)
    (fun o ho => absurd (h.named_lt o _ ho).2 (lt_irrefl _)) fun _ => ?_
  · exact lt_of_le_of_ne (Nat.lt_succ_iff.1 hlt) hb
  · simp [NamedKernel.allocateName, NamedKernel.kfree, hb]
  · simp [NamedKernel.allocateName, NamedKernel.kfree]

theorem NamesInv.createObject {nameOk copyOk objectOk : Bool} (hin : s.kernel.inReceive cur = none)
    (hc : s.dwCreateObject cur name type nameOk copyOk objectOk = .ok (res, s')) :
    s'.NamesInv ∧ (s.CreatesTidily cur name nameOk copyOk objectOk ↔ s'.NamesSettled) := by
  cases name with
  | none =>
    have htidy : s.CreatesTidily cur none nameOk copyOk objectOk := fun _ hne => absurd rfl hne
    obtain ⟨⟨handle, k⟩, hk, hc⟩ := bind_eq_ok.1 hc
    cases hc
    rcases newObject_createObject h.base hk with ⟨-, rfl⟩ | ⟨q, -, -, hnew⟩
    · exact ⟨h, iff_of_true htidy hP⟩
    refine ⟨h.newObject hnew, iff_of_true htidy ((h.withKernel_settled hP
      (h.newObject hnew)).2 fun o ho => ?_)⟩
    obtain ⟨b, hb⟩ := ne_none_iff_exists'.1 ho
    exact h.other_held hnew hb
  | some text =>
    have htidy : s.CreatesTidily cur (some text) nameOk copyOk objectOk ↔ (nameOk = true →
        copyOk = true → objectOk = true ∧ ∀ q ∈ (s.kernel.thread cur).owner,
          ~~~(s.kernel.process q).handles.validBitmap ≠ 0#32) := by
      simp [CreatesTidily, hin]
    rw [htidy]
    simp only [dwCreateObject] at hc
    split_ifs at hc with hname hcopy hobject
    · cases hc
      exact ⟨h, iff_of_true (fun hok => by simp [hok] at hname) hP⟩
    · cases hc
      exact ⟨{ h.allocateName with }, iff_of_true (fun _ hok => by simp [hok] at hcopy)
        (h.freed_settled hP)⟩
    · cases hc
      refine ⟨h.allocateName, iff_of_false (fun hall => ?_) h.allocateName_not_settled⟩
      simp only [Bool.not_eq_true', Bool.not_eq_false] at hname hcopy hobject
      exact absurd (hall hname hcopy).1 (by simp [hobject])
    simp only [Bool.not_eq_true', Bool.not_eq_false] at hname hcopy hobject
    obtain ⟨⟨handle, k⟩, hk, hc⟩ := bind_eq_ok.1 hc
    cases hc
    rcases newObject_createObject h.base hk with ⟨hfalse, -⟩ | ⟨q, -, hq, hnew⟩
    · cases hfalse
    refine ⟨h.nameObject hnew, ?_⟩
    have hheld := hnew.new.trans (or_iff_right fun ho => lt_irrefl _ (h.held_lt _ ho))
    have hsettled := (h.nameObject_settled hP hnew).trans hheld
    refine Iff.trans ?_ hsettled.symm
    simp [hname, hcopy, hobject, hq]

theorem NamesInv.create {nameOk copyOk objectOk : Bool}
    (hc : s.create cur name type nameOk copyOk objectOk = .ok s') :
    s'.NamesInv ∧ (s.CreatesTidily cur name nameOk copyOk objectOk ↔ s'.NamesSettled) := by
  unfold NamedKernel.create at hc
  split_ifs at hc with hin
  · obtain ⟨⟨res, r⟩, hr, rfl⟩ := map_eq_ok.1 hc
    exact h.createObject hP hin hr
  · cases hc
    exact ⟨h, iff_of_true (fun hin' => absurd hin' hin) hP⟩

theorem NamesInv.freeName (hin : s.kernel.inReceive cur = none)
    (hd : s.kernel.dwDeleteObject cur handle = .ok k) :
    ({ s.freeName cur handle with kernel := k } : NamedKernel).NamesInv
      ∧ (s.DeletesTidily cur handle ↔
        ({ s.freeName cur handle with kernel := k } : NamedKernel).NamesSettled) := by
  have hb := h.base.dwDeleteObject hd
  rcases dwDeleteObject_cases hd with
    ⟨rfl, hnone⟩ | ⟨q, o, hrange, hq, hlive, hslot, -, hdel⟩
  · have hledger : s.freeName cur handle = s := by simp [NamedKernel.freeName, hnone]
    rw [hledger]
    exact ⟨h, iff_of_true (fun _ o ho => by simp [hnone] at ho) hP⟩
  have hobj : s.kernel.objectOfHandle cur handle = some o :=
    objectOfHandle_eq_some.2 ⟨hrange, q, hq, hslot⟩
  have hheldo : s.kernel.Held o := ⟨q, h.base.process_lt q hlive, _, by omega, hslot⟩
  -- the handle is gone, and nothing else has changed
  obtain ⟨hhandles, -, -, hobjects, hprocesses⟩ := deleteObject_tables hdel
  have hheld : ∀ x, k.Held x ↔ s.kernel.HeldBeside q handle.toNat x := fun x =>
    ((HeldSame.of_handles hhandles hobjects hprocesses).held x).trans
      (held_delete s.kernel q handle.toNat x)
  have hinv : ({ s with kernel := k } : NamedKernel).NamesInv :=
    h.withKernel hb hobjects.ge fun x hx => .inl ((hheld x).1 hx).held
  have hother : ∀ x ≠ o, k.Held x ↔ s.kernel.Held x := fun x hx =>
    (hheld x).trans ⟨HeldBeside.held, fun hx' => hx'.beside hslot hx⟩
  have htidy : s.DeletesTidily cur handle ↔ (s.nameOf o ≠ none → ¬ k.Held o) := by
    simp [DeletesTidily, hin, hobj, hq, hheld]
  rw [htidy]
  cases hname : s.nameOf o with
  | none =>
    have hledger : s.freeName cur handle = s := by simp [NamedKernel.freeName, hobj, hname]
    rw [hledger]
    refine ⟨hinv, iff_of_true (fun hno => absurd rfl hno) ((h.withKernel_settled hP hinv).2 ?_)⟩
    intro x hx
    refine hother x ?_
    rintro rfl
    exact hx hname
  | some c =>
    have hledger : s.freeName cur handle = s.kfree c := by
      simp [NamedKernel.freeName, hobj, hname]
    rw [hledger]
    have hinv' : ({ s.kfree c with kernel := k } : NamedKernel).NamesInv := { hinv with }
    have hone : (s.kfree c).frees c = 1 := by
      simp [NamedKernel.kfree, hP.held o c hname hheldo]
    refine ⟨hinv', ?_⟩
    simp only [ne_eq, reduceCtorEq, not_false_eq_true, true_implies]
    constructor
    · intro hgone
      refine hP.beside (c := c) rfl (fun b hb => ⟨id, ?_, fun x =>
        ⟨Iff.rfl, fun hx => hother x ?_⟩⟩) (fun x hx hx' => ?_) fun _ => hone
      · simp [NamedKernel.kfree, hb]
      · rintro rfl
        exact hb (some.inj (hx.symm.trans hname))
      · exact absurd (h.inj x o c hx hname ▸ hx') hgone
    · intro hsettled hheldo'
      have hzero := (hinv'.free_iff hsettled hname).2 hheldo'
      exact absurd (hone.symm.trans hzero) (by decide)

theorem NamesInv.ends (hb : k.Base) (hlt : q < s.kernel.processes)
    (hobjects : k.objects = s.kernel.objects) (hheld : ∀ o, k.Held o ↔ s.kernel.HeldOutside q o) :
    ({ s with kernel := k } : NamedKernel).NamesInv
      ∧ (s.EndsTidily q ↔ ({ s with kernel := k } : NamedKernel).NamesSettled) := by
  have hinv : ({ s with kernel := k } : NamedKernel).NamesInv :=
    h.withKernel hb hobjects.ge fun o ho => .inl ((hheld o).1 ho).held
  refine ⟨hinv, Iff.trans ?_ (h.withKernel_settled hP hinv).symm⟩
  constructor
  · refine fun htidy o ho => (hheld o).trans ⟨HeldOutside.held, ?_⟩
    rintro ⟨q', hq', i, hi, hslot⟩
    by_cases hqq : q' = q
    · exact htidy i hi o (hqq ▸ hslot) ho
    · exact ⟨q', hq', hqq, i, hi, hslot⟩
  · exact fun hiff i hi o ho hname => (hheld o).1 ((hiff o hname).2 ⟨q, hlt, i, hi, ho⟩)

end

end

theorem after_of_account (h : s.account cur e = s) (k : Kernel) :
    s.after cur e k = { s with kernel := k } := by
  rw [after, h, ite_self]

theorem NamesInv.same (h : s.NamesInv) (hP : s.NamesSettled) (haccount : s.account cur e = s)
    (htidy : s.Tidy (.task cur e)) (hb : k.Base) (hs : HeldSame s.kernel k) :
    (s.after cur e k).NamesInv ∧ (s.Tidy (.task cur e) ↔ (s.after cur e k).NamesSettled) := by
  rw [after_of_account haccount]
  have hinv := h.withKernel hb hs.objects fun o ho => .inl ((hs.held o).1 ho)
  exact ⟨hinv, iff_of_true htidy ((h.withKernel_settled hP hinv).2 fun o _ => hs.held o)⟩

theorem NamesInv.readName (h : s.NamesInv) (hP : s.NamesSettled) {op : ℕ} {args : InvokeArgs}
    {st : Status} (hi : s.kernel.dwInvokeObject cur handle op args = .ok (st, k)) :
    s.readName cur handle = s := by
  unfold NamedKernel.readName
  split
  · rfl
  rename_i o ho
  obtain ⟨hrange, q, hq, hslot⟩ := objectOfHandle_eq_some.1 ho
  have hlive : s.kernel.live.process q = true := by
    unfold dwInvokeObject at hi
    rw [if_neg (by omega)] at hi
    obtain ⟨q', hq', -⟩ := bind_eq_ok.1 hi
    obtain ⟨hq', hlive⟩ := currProc_ok.1 hq'
    exact some.inj (hq.symm.trans hq') ▸ hlive
  have hheld : s.kernel.Held o := ⟨q, h.base.process_lt q hlive, _, by omega, hslot⟩
  split
  · rename_i b _ hb
    rw [if_pos (hP.held o b hb hheld)]
  · rfl

theorem NamesInv.deleteProcess (h : s.NamesInv) (hP : s.NamesSettled) {r r' : Kernel}
    (hr : SameStore s.kernel r) (hd : r.deleteProcess q = .ok r') (hk : SameStore r' k) :
    ({ s with kernel := k } : NamedKernel).NamesInv
      ∧ (s.EndsTidily q ↔ ({ s with kernel := k } : NamedKernel).NamesSettled) := by
  have hb : k.Base := ((h.base.sameStore hr).deleteProcess hd).sameStore hk
  obtain ⟨hobjects, hheld⟩ := held_deleteProcess hd
  have hlt : q < s.kernel.processes := by
    obtain ⟨hlive, -⟩ := deleteProcess_cases hd
    rw [hr.live] at hlive
    exact h.base.process_lt q hlive
  refine h.ends hP hb hlt (hk.objects.trans (hobjects.trans hr.objects)) fun o => ?_
  rw [hk.heldSame.held, hheld]
  simp only [HeldOutside, hr.process, hr.processes]

theorem tidy_of_asleep (hin : s.kernel.inReceive cur ≠ none) : s.Tidy (.task cur e) := by
  have hends : ∀ q ∈ s.kernel.deletes cur e, s.EndsTidily q := by
    intro q hq
    unfold deletes at hq
    split at hq
    · simp [hin] at hq
    · simp [hin] at hq
    · cases hq
  cases e with
  | exception => exact hends
  | event e =>
    cases e with
    | call c =>
      cases c with
      | createObject name type ok => exact fun hin' => absurd hin' hin
      | deleteObject handle => exact fun hin' => absurd hin' hin
      | _ => exact hends
    | _ => exact hends

theorem NamesInv.asleep (h : s.NamesInv) (hP : s.NamesSettled)
    (hin : s.kernel.inReceive cur ≠ none) :
    (s.after cur e s.kernel).NamesInv
      ∧ (s.Tidy (.task cur e) ↔ (s.after cur e s.kernel).NamesSettled) := by
  rw [after, if_neg hin]
  exact ⟨h, iff_of_true (tidy_of_asleep hin) hP⟩

theorem NamesInv.taskEvent (h : s.NamesInv) (hP : s.NamesSettled)
    (hcur : s.kernel.currentThread = some cur)
    (hcreate : ∀ name type ok, e ≠ .event (.call (.createObject name type ok)))
    (hk : s.kernel.taskEvent e = .ok k) :
    (s.after cur e k).NamesInv ∧ (s.Tidy (.task cur e) ↔ (s.after cur e k).NamesSettled) := by
  have hb := h.base.taskEvent hk
  have hpass : ∀ {e'}, e = .event e' → Passing e' → HeldSame s.kernel k := by
    rintro e' rfl he
    exact heldSame_event h.base he hk
  cases e with
  | exception =>
    simp only [taskEvent, hcur] at hk
    split_ifs at hk with hin
    · obtain ⟨r, hr, hk⟩ := bind_eq_ok.1 hk
      obtain ⟨q, hq, hr⟩ := bind_eq_ok.1 hr
      obtain ⟨r', hr', hr⟩ := bind_eq_ok.1 hr
      cases hr
      have hq : (s.kernel.thread cur).owner = some q := nonNull_ok.1 hq
      have htidy : s.Tidy (.task cur .exception) ↔ s.EndsTidily q := by
        simp [Tidy, deletes, hin, hq]
      rw [htidy, after_of_account rfl]
      exact h.deleteProcess hP (.refl _) hr'
        (SameStore.trans (sameStore_of_owner fun _ => rfl)
          (scheduleNext_cases hk).1)
    · cases hk
      exact h.asleep hP hin
  | event e =>
    cases e with
    | call c =>
      simp only [taskEvent, event, hcur] at hk
      split_ifs at hk with hin
      · cases c with
        | createObject name type ok => exact absurd rfl (hcreate name type ok)
        | invokeObject handle op args =>
          refine h.same hP ?_ (by simp [Tidy, deletes]) hb (hpass rfl trivial)
          obtain ⟨⟨st, r⟩, hr, -⟩ := map_eq_ok.1 hk
          cases op with
          | zero => exact h.readName hP hr
          | succ op => rfl
        | deleteObject handle =>
          rw [after, if_pos hin]
          exact h.freeName hP hin hk
        | exit =>
          rcases dwExit_cases hk with ⟨hq, hsame⟩ | ⟨q, r, r', hq, hr, hd, hr'⟩
          · refine h.same hP rfl ?_ hb hsame.heldSame
            simp [Tidy, deletes, hq]
          have htidy : s.Tidy (.task cur (.event (.call .exit))) ↔ s.EndsTidily q := by
            simp [Tidy, deletes, hin, hq]
          rw [htidy, after_of_account rfl]
          exact h.deleteProcess hP hr hd hr'
        | _ => exact h.same hP rfl (by simp [Tidy, deletes]) hb (hpass rfl trivial)
      · cases hk
        exact h.asleep hP hin
    | createProcess =>
      obtain ⟨⟨q, r⟩, hr, rfl⟩ := map_eq_ok.1 hk
      refine h.same hP rfl ?_ hb (heldSame_createProcess hr)
      simp [Tidy, deletes]
    | _ => exact h.same hP rfl (by simp [Tidy, deletes]) hb (hpass rfl trivial)

theorem NamesSettled.onThread (h : s.NamesSettled) (cur : ℕ) : (s.onThread cur).NamesSettled :=
  { h with }

theorem step_task (hcreate : ∀ name type ok, e ≠ .event (.call (.createObject name type ok))) :
    s.step (.task cur e)
      = ((s.onThread cur).kernel.taskEvent e).toOption.map ((s.onThread cur).after cur e) := by
  cases e with
  | exception => rfl
  | event e =>
    cases e with
    | call c =>
      cases c with
      | createObject name type ok => exact absurd rfl (hcreate name type ok)
      | _ => rfl
    | _ => rfl

theorem NamesInv.step (h : s.NamesInv) (hP : s.NamesSettled) {a : NameStep}
    (hs : s.step a = some s') : s'.NamesInv ∧ (s.Tidy a ↔ s'.NamesSettled) := by
  cases a with
  | createObject cur name type nameOk copyOk objectOk =>
    exact (h.onThread cur).create (hP.onThread cur) (toOption_eq_some.1 hs)
  | task cur e =>
    by_cases hcreate : ∃ name type ok, e = .event (.call (.createObject name type ok))
    · obtain ⟨name, type, ok, rfl⟩ := hcreate
      exact (h.onThread cur).create (hP.onThread cur) (toOption_eq_some.1 hs)
    have hcreate : ∀ name type ok, e ≠ .event (.call (.createObject name type ok)) :=
      fun name type ok he => hcreate ⟨name, type, ok, he⟩
    rw [step_task hcreate] at hs
    obtain ⟨k, hk, rfl⟩ := map_eq_some_iff.1 hs
    exact (h.onThread cur).taskEvent (hP.onThread cur) rfl hcreate (toOption_eq_some.1 hk)

instance (s : NamedKernel) : DecidablePred s.Tidy := fun a => by
  unfold Tidy CreatesTidily DeletesTidily EndsTidily HeldBeside
    HeldOutside
  split <;> infer_instance

end NamedKernel

end DragonWare
