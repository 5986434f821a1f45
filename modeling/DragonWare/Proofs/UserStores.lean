import DragonWare.Lib.Fallible
import DragonWare.Proofs.Progress
import DragonWare.Proofs.UserCopy
import DragonWare.UserStores

/-!
# Where system calls store

A store made by `CopyToUser` is `Below` the kernel. The only other store is that of `SECTION_MAP`,
which writes the base of the section straight to its argument, wherever the kernel may write.
-/

namespace DragonWare

open Fallible Function List Mmu Option Section

def UserStore.Below (st : UserStore) : Prop :=
  ∀ i < st.size.toNat, (st.addr + BitVec.ofNat 32 i).toNat < kernelVMBase

section Checked

variable {m : Mmu} {dest n : BitVec 32} {st : UserStore}

theorem below_of_mem_copyToUserStores (h : st ∈ m.copyToUserStores dest n) : st.Below := by
  unfold copyToUserStores at h
  split at h
  next hok =>
    obtain ⟨-, hlt, -⟩ := checkUserRange_ok.1 hok
    obtain rfl := mem_singleton.1 h
    intro i hi
    have hi : i < n.toNat := hi
    have hn := n.isLt
    show (dest + BitVec.ofNat 32 i).toNat < kernelVMBase
    rw [BitVec.toNat_add, BitVec.toNat_ofNat, Nat.mod_eq_of_lt (by omega : i < 2 ^ 32)]
    exact (Nat.mod_le _ _).trans_lt (by omega)
  next => cases h

end Checked

variable {arg : BitVec 32}

namespace SyscallState

variable {debug : Bool} {v : Vm} {s : SyscallState} {cur op : ℕ} {st : UserStore}
  {stores : List UserStore} {handle : ℤ} {woken : SyscallState × Vm}

/-- The handle of the current process names a section that has been requested. -/
def SectionAt (s : SyscallState) (cur : ℕ) (handle : ℤ) (n : ℕ) : Prop :=
  0 ≤ handle ∧ handle < maxObjPerProcess ∧ ∃ q target obj,
    s.kernel.currProc cur = .ok q ∧ (s.kernel.process q).handles.objlist handle.toNat = some target
      ∧ s.kernel.derefObject target = .ok obj ∧ obj.type = .section ∧ obj.data = some n

/-- `MapSection` has an address for section `n`, and the kernel may write four bytes at `arg`. -/
def StoresBase (debug : Bool) (v : Vm) (s : SyscallState) (n : ℕ) (arg : BitVec 32) : Prop :=
  v.mmu.addressIsMapped arg.toNat = true
    ∧ ∃ base scn v', (s.sections n).mapSection (Vm.paging debug) v = some (base, scn, v')
      ∧ base ≠ 0 ∧ v'.mmu.kernelWritable arg = true ∧ v'.mmu.kernelWritable (arg + 3#32) = true

theorem handleDeviceObjectRequest_below {q : ℕ} {obj : Object}
    (hst : st ∈ handleDeviceObjectRequest v s q obj op arg) : st.Below := by
  unfold handleDeviceObjectRequest at hst
  by_cases hflag : (s.kernel.process q).flags &&& procCServer = 0#32
  · rw [if_pos hflag] at hst
    cases hst
  rw [if_neg hflag] at hst
  split at hst
  next =>
    split_ifs at hst
    · cases hst
    split at hst
    next =>
      split_ifs at hst
      · cases hst
      · exact below_of_mem_copyToUserStores hst
    next => cases hst
  next => cases hst

theorem handleSectionObjectRequest_cases {obj : Object}
    (h : handleSectionObjectRequest debug v s obj op arg = some stores) (hst : st ∈ stores) :
    op = 1 ∧ st = ⟨arg, 4#32⟩ ∧ ∃ n, obj.data = some n ∧ StoresBase debug v s n arg := by
  have hnil (h : (some [] : Option (List UserStore)) = some stores) : False := by
    obtain rfl := some.inj h
    cases hst
  unfold handleSectionObjectRequest at h
  split at h
  next =>
    obtain ⟨r, hr, h⟩ := bind_eq_some_iff.1 h
    split at h
    next scn v' =>
      simp only [mapRequest] at hr
      split_ifs at hr with hmapped
      · cases hr
      cases hdata : obj.data with
      | none =>
        rw [hdata] at hr
        cases hr
      | some n =>
        rw [hdata] at hr
        obtain ⟨⟨base, scn', v''⟩, hmap, heq⟩ := map_eq_some_iff.1 hr
        simp only [Prod.mk.injEq, some.injEq] at heq
        obtain ⟨hok, rfl, rfl⟩ := heq
        split_ifs at hok with hbase
        split_ifs at h with hwrite
        rw [Bool.and_eq_true] at hwrite
        obtain rfl := some.inj h
        exact ⟨rfl, mem_singleton.1 hst, n, rfl, by simpa using hmapped, base, _, _, hmap, hbase,
          hwrite.1, hwrite.2⟩
    next => exact (hnil h).elim
  next => exact (hnil h).elim

theorem StoresBase.handleSectionObjectRequest {n : ℕ} {obj : Object}
    (h : StoresBase debug v s n arg) (hdata : obj.data = some n) :
    handleSectionObjectRequest debug v s obj 1 arg = some [⟨arg, 4#32⟩] := by
  obtain ⟨hmapped, base, scn, v', hmap, hbase, hwrite, hwrite'⟩ := h
  simp [SyscallState.handleSectionObjectRequest, mapRequest, hmapped, hdata, hmap, hbase, hwrite,
    hwrite']

theorem dwInvokeObject_cases (h : dwInvokeObject debug v s cur handle op arg = some stores)
    (hst : st ∈ stores) : st.Below
      ∨ op = 1 ∧ st = ⟨arg, 4#32⟩ ∧ ∃ n, s.SectionAt cur handle n ∧ StoresBase debug v s n arg := by
  have hnil (h : (some [] : Option (List UserStore)) = some stores) : False := by
    obtain rfl := some.inj h
    cases hst
  unfold dwInvokeObject at h
  split_ifs at h with hbad
  · exact (hnil h).elim
  obtain ⟨q, hq, h⟩ := bind_eq_some_iff.1 h
  split at h
  next => exact (hnil h).elim
  next target htarget =>
    obtain ⟨obj, hobj, h⟩ := bind_eq_some_iff.1 h
    split at h
    next =>
      obtain rfl := some.inj h
      exact .inl (handleDeviceObjectRequest_below hst)
    next htype =>
      obtain ⟨hop, hword, n, hdata, hbase⟩ := handleSectionObjectRequest_cases h hst
      exact .inr ⟨hop, hword, n, ⟨by omega, by omega, q, target, obj, toOption_eq_some.1 hq,
        htarget, toOption_eq_some.1 hobj, htype, hdata⟩, hbase⟩
    next => exact (hnil h).elim

end SyscallState

section Stores

end Stores

end DragonWare
