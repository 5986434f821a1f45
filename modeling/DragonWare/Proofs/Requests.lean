import DragonWare.Proofs.Syscall
import DragonWare.Requests

/-!
# Requests that follow a null pointer

A section is mapped, a thread is run and a device is claimed after a look at the `data` of the
object. A device is mapped without one (`requests_follow_data_iff`).
-/

namespace DragonWare

open Fallible Kernel Option RequestFault

variable {debug : Bool} {s : ObjectKernel} {α : Type} {args : RequestArgs}

theorem avoids_ofOption (x : Option α) : Avoids (· = nullData) (ofOption x) := by
  cases x with
  | none => exact .error (by decide)
  | some a => exact .ok a

theorem ofOption_eq_ok {x : Option α} {a : α} : ofOption x = .ok a ↔ x = some a := by
  cases x <;> simp [ofOption]

theorem followData_eq_ok {data : Option ℕ} {d : ℕ} : followData data = .ok d ↔ data = some d := by
  cases data <;> simp [followData]

namespace ObjectKernel

theorem avoids_handleSectionObjectRequest (q o op : ℕ) (args : RequestArgs) :
    Avoids (· = nullData) (s.handleSectionObjectRequest debug q o op args) := by
  match op with
  | 0 | 1 => exact (avoids_ofOption _).bind fun r _ => .ok _
  | _ + 2 => exact .ok _

theorem handleThreadObjectRequest_run (q o : ℕ) (args : RequestArgs) :
    s.handleThreadObjectRequest q o 1 args = (do
      let (st, k) ← ofOption
        (s.kernel.handleThreadObjectRequest q o 1 args.toInvokeArgs).toOption
      return (st, s.setKernel k)) := by
  simp only [handleThreadObjectRequest, Kernel.handleThreadObjectRequest]
  rcases (s.kernel.object o).data with _ | t
  · simp [ofOption, Except.toOption, bind, Except.bind, pure, Except.pure, setKernel]
  · rcases hrun : s.kernel.addThreadToScheduler t with e | k
    · simp [hrun, ofOption, Except.toOption, followData, bind, Except.bind]
    · simp [hrun, ofOption, Except.toOption, followData, bind, Except.bind, pure, Except.pure]

theorem avoids_handleThreadObjectRequest (q o op : ℕ) (args : RequestArgs) :
    Avoids (· = nullData) (s.handleThreadObjectRequest q o op args) := by
  match op with
  | 0 => exact (avoids_ofOption _).bind fun r _ => .ok _
  | 1 =>
    rw [handleThreadObjectRequest_run]
    exact (avoids_ofOption _).bind fun r _ => .ok _
  | _ + 2 => exact .ok _

theorem avoids_handlePortObjectRequest (cur o op : ℕ) (args : RequestArgs) :
    Avoids (· = nullData) (s.handlePortObjectRequest debug cur o op args) := by
  match op with
  | 0 =>
    refine (avoids_ofOption _).bind fun r _ => (avoids_ofOption _).bind fun x _ => ?_
    simp only
    split_ifs
    · exact .ok _
    · exact (avoids_ofOption _).bind fun t _ => .ok _
    · exact (avoids_ofOption _).bind fun t _ => .ok _
  | _ + 1 => exact (avoids_ofOption _).bind fun _ _ => .ok _

theorem avoids_getDevice (o : ℕ) (args : RequestArgs) :
    Avoids (· = nullData) (s.getDevice debug o args) := by
  refine (avoids_ofOption _).bind fun r _ => ?_
  simp only
  split
  · exact .ok _
  split
  · exact .ok _
  · exact (avoids_ofOption _).bind fun t _ => .ok _

theorem handleDeviceObjectRequest_nullData {q o op : ℕ} :
    s.handleDeviceObjectRequest debug q o op args = .error .nullData ↔
      (s.kernel.process q).flags &&& procCServer ≠ 0#32 ∧ op = 2
        ∧ (s.kernel.object o).data = none := by
  unfold handleDeviceObjectRequest
  by_cases hserver : (s.kernel.process q).flags &&& procCServer = 0#32
  · simp [hserver]
  simp only [if_neg hserver]
  split
  · refine iff_of_false (fun h => ?_) (by simp)
    split_ifs at h
    exact avoids_getDevice o args _ h rfl
  · refine iff_of_false ?_ (by simp)
    rcases hdata : (s.kernel.object o).data with _ | d
    · simp only [isNone_none, if_true]
      split_ifs <;> exact nofun
    · simp only [followData, isNone_some, Bool.false_eq_true, if_false, bind, Except.bind]
      split_ifs <;> exact nofun
  · rcases hdata : (s.kernel.object o).data with _ | d
    · simp [hserver, followData, bind, Except.bind]
    · simp [followData, bind, Except.bind, pure, Except.pure]
  · rename_i hop
    exact iff_of_false (by simp) fun h => hop h.2.1

end ObjectKernel

/-- A server asks for the memory of a device through an object that has none. -/
def MapsMissingDevice (s : ObjectKernel) (e : ℕ × ObjectCall) : Prop :=
  match e.2 with
  | .invokeObject handle op _ => op = 2 ∧ s.kernel.inReceive e.1 = none ∧ ∃ q o,
      s.kernel.currProc e.1 = .ok q ∧ (s.kernel.process q).flags &&& procCServer ≠ 0#32
        ∧ s.kernel.objectOfHandle e.1 handle = some o ∧ s.kernel.live.object o = true
        ∧ (s.kernel.object o).type = .device ∧ (s.kernel.object o).data = none
  | _ => False

namespace ObjectKernel

theorem dwInvokeObject_nullData {cur op : ℕ} {handle : ℤ} :
    s.dwInvokeObject debug cur handle op args = .error .nullData ↔ op = 2 ∧ ∃ q o,
      s.kernel.currProc cur = .ok q ∧ (s.kernel.process q).flags &&& procCServer ≠ 0#32
        ∧ s.kernel.objectOfHandle cur handle = some o ∧ s.kernel.live.object o = true
        ∧ (s.kernel.object o).type = .device ∧ (s.kernel.object o).data = none := by
  unfold dwInvokeObject
  constructor
  · intro h
    split_ifs at h with hbound
    rcases bind_eq_error.1 h with h | ⟨q, hq, h⟩
    · exact absurd rfl (avoids_ofOption _ _ h)
    rw [ofOption_eq_ok, toOption_eq_some] at hq
    obtain ⟨howner, -⟩ := currProc_ok.1 hq
    split at h
    · cases h
    rename_i target hslot
    have ho : s.kernel.objectOfHandle cur handle = some target :=
      objectOfHandle_eq_some.2 ⟨by omega, q, howner, hslot⟩
    rcases bind_eq_error.1 h with h | ⟨obj, hobj, h⟩
    · exact absurd rfl (avoids_ofOption _ _ h)
    rw [ofOption_eq_ok, toOption_eq_some] at hobj
    obtain ⟨hlive, rfl⟩ := derefObject_ok.1 hobj
    split at h
    · cases h
    · rename_i htype
      obtain ⟨hserver, hop, hdata⟩ := handleDeviceObjectRequest_nullData.1 h
      exact ⟨hop, q, target, hq, hserver, ho, hlive, htype, hdata⟩
    · exact absurd rfl (avoids_handlePortObjectRequest _ _ _ _ _ h)
    · exact absurd rfl (avoids_handleSectionObjectRequest _ _ _ _ _ h)
    · exact absurd rfl (avoids_handleThreadObjectRequest _ _ _ _ _ h)
    · cases h
  · rintro ⟨hop, q, o, hq, hserver, ho, hlive, htype, hdata⟩
    obtain ⟨hbound, q', hq', hslot⟩ := objectOfHandle_eq_some.1 ho
    obtain rfl : q' = q := some.inj (hq'.symm.trans (currProc_ok.1 hq).1)
    have hobj := derefObject_ok.2 ⟨hlive, rfl⟩
    rw [if_neg (by omega), hq]
    simp only [Except.toOption, ofOption, bind, Except.bind, hslot, hobj, htype]
    exact handleDeviceObjectRequest_nullData.2 ⟨hserver, hop, hdata⟩

theorem call_nullData {cur : ℕ} {c : ObjectCall} : s.call debug cur c = .error .nullData ↔
    ∃ handle op args, c = .invokeObject handle op args
      ∧ s.dwInvokeObject debug cur handle op args = .error .nullData := by
  have hother : ∀ {α : Type} {x : Option α} {f : α → ObjectKernel},
      (do let a ← ofOption x; return f a) ≠ Except.error nullData := fun {α x f} h =>
    ((avoids_ofOption x).bind fun a _ => .ok (f a)) _ h rfl
  cases c with
  | invokeObject handle op args =>
    simp only [call, map_eq_error, ObjectCall.invokeObject.injEq]
    constructor
    · exact fun h => ⟨_, _, _, ⟨rfl, rfl, rfl⟩, h⟩
    · rintro ⟨_, _, _, ⟨rfl, rfl, rfl⟩, h⟩
      exact h
  | createObject name type ok => exact iff_of_false hother (by simp)
  | deleteObject handle => exact iff_of_false hother (by simp)
  | translateHandle pid handle copy => exact iff_of_false hother (by simp)
  | send handle copy size => exact iff_of_false hother (by simp)
  | receive handle copyOk => exact iff_of_false hother (by simp)
  | resume copyOk => exact iff_of_false hother (by simp)
  | exit => exact iff_of_false hother (by simp)

end ObjectKernel

theorem objectStep_nullData {e : ℕ × ObjectCall} :
    objectStep debug s e = .error .nullData ↔ MapsMissingDevice s e := by
  obtain ⟨cur, c⟩ := e
  unfold objectStep
  rcases hsleep : s.kernel.inReceive cur with _ | p
  · simp only [ObjectKernel.call_nullData]
    constructor
    · rintro ⟨handle, op, args, rfl, h⟩
      obtain ⟨hop, hmissing⟩ := ObjectKernel.dwInvokeObject_nullData.1 h
      exact ⟨hop, hsleep, hmissing⟩
    · intro h
      cases c with
      | invokeObject handle op args =>
        exact ⟨_, _, _, rfl, ObjectKernel.dwInvokeObject_nullData.2 ⟨h.1, h.2.2⟩⟩
      | _ => exact h.elim
  · refine iff_of_false (fun h => ?_) fun h => ?_
    · cases c with
      | resume copyOk =>
        obtain ⟨_, _, _, hc, -⟩ := ObjectKernel.call_nullData.1 h
        cases hc
      | _ => cases h
    · cases c with
      | invokeObject handle op args =>
        have hawake := h.2.1
        rw [hsleep] at hawake
        cases hawake
      | _ => exact h

def objectRun (debug : Bool) (s : ObjectKernel) (e : ℕ × ObjectCall) : Option ObjectKernel :=
  (objectStep debug s e).toOption

theorem requests_follow_data_iff (debug : Bool) (s : ObjectKernel) (calls : List (ℕ × ObjectCall)) :
    (∀ pre e post, calls = pre ++ e :: post → ∀ t, Run.exec (objectRun debug) s pre = some t →
        objectStep debug t e ≠ .error .nullData)
      ↔ Run.Meets (objectRun debug) (fun t e => ¬ MapsMissingDevice t e) s calls := by
  rw [Run.meets_iff_steps]
  simp only [ne_eq, objectStep_nullData]

def blankArgs : RequestArgs where
  openName := none
  staleName := []
  portOk := true
  nodeOk := true
  threadOk := true
  other := .ok
  arg := 0x10000#32
  argMapped := true
  copyOk := true
  room := true
  page := some 0xC0100000
  pathSize := 5
  found := none
  descr := (1, 0#32)

def serverKernel : Option ObjectKernel := do
  let (q, k) ← boot.createProcess.toOption
  let k := k.setProcess q { k.process q with flags := procCServer }
  return ⟨⟨k, id, fun _ => ⟨0, 0, 0#32, 0, fun _ => 0, 0⟩, 0,
    fun _ => ⟨0, fun _ => 0, fun _ => none, fun _ => none⟩, fun _ => none, ⟨fun _ => 0#32, 0⟩, []⟩,
    fun _ => ⟨false, 0xFD000000#64, 0x1000#32⟩⟩

def faultOf {α : Type} : Except RequestFault α → Option RequestFault
  | .error e => some e
  | .ok _ => none

theorem faultOf_eq_some {x : Except RequestFault α} {e : RequestFault} :
    faultOf x = some e ↔ x = .error e := by
  cases x <;> simp [faultOf]

/-- The device is asked for before it is looked up, and again when it was not found. -/
theorem missing_device_mapped : ∃ s ∈ serverKernel, ∃ t u : ObjectKernel,
    Run.exec (objectRun true) s [(0, .createObject none .device true)] = some t
      ∧ objectStep true t (0, .invokeObject 0 2 blankArgs) = .error .nullData
      ∧ objectRun true t (0, .invokeObject 0 0 blankArgs) = some u
      ∧ objectStep true u (0, .invokeObject 0 2 blankArgs) = .error .nullData := by
  have h : (serverKernel.bind fun s =>
      (Run.exec (objectRun true) s [(0, .createObject none .device true)]).bind fun t =>
        (objectRun true t (0, .invokeObject 0 0 blankArgs)).map fun u =>
          (faultOf (objectStep true t (0, .invokeObject 0 2 blankArgs)),
            faultOf (objectStep true u (0, .invokeObject 0 2 blankArgs))))
      = some (some nullData, some nullData) := by
    decide +kernel
  obtain ⟨s, hs, h⟩ := bind_eq_some_iff.1 h
  obtain ⟨t, ht, h⟩ := bind_eq_some_iff.1 h
  obtain ⟨u, hu, h⟩ := map_eq_some_iff.1 h
  obtain ⟨hfirst, hagain⟩ := Prod.mk.inj h
  exact ⟨s, hs, t, u, ht, faultOf_eq_some.1 hfirst, hu, faultOf_eq_some.1 hagain⟩

end DragonWare
