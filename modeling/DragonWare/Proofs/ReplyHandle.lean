import DragonWare.Proofs.Syscall
import DragonWare.Lib.Run

/-!
# Reply handles

A reply handle out of range becomes -1, and one that names a port object becomes a slot of the
receiver that holds this object. A handle in range that names no port object is left as the sender
wrote it (`replyHandle_genuine_iff`).
-/

namespace DragonWare

open Fallible Option

namespace Kernel

/-- The receiver is given no handle, or a valid slot of its own table with the port object that
the handle `raw` of the sender named. -/
def ReplyGenuine (k k' : Kernel) (sender port : ℕ) (raw given : ℤ) : Prop :=
  given = -1 ∨ ∃ owner receiver i o, (k.port port).owner = some owner
    ∧ (k.thread owner).owner = some receiver ∧ i < maxObjPerProcess ∧ given = (i : ℕ)
    ∧ (k'.process receiver).handles.validBitmap.getLsbD i = true
    ∧ (k'.process receiver).handles.objlist i = some o
    ∧ (0 ≤ raw ∧ raw < maxObjPerProcess)
    ∧ (k.process sender).handles.objlist raw.toNat = some o ∧ (k.object o).type = .port

def NamesNoPort (k : Kernel) (sender : ℕ) (raw : ℤ) : Prop :=
  (0 ≤ raw ∧ raw < maxObjPerProcess)
    ∧ ∀ o, (k.process sender).handles.objlist raw.toNat = some o → (k.object o).type ≠ .port

def givenReply (k k' : Kernel) (p : ℕ) : ℤ :=
  ((k'.port p).msgbuf (k.port p).tail).header.replyHandle

variable {k k' : Kernel}

theorem replyGenuine_congr {r : Kernel} (h : k'.process = r.process) {q p : ℕ} {raw given : ℤ} :
    k.ReplyGenuine k' q p raw given ↔ k.ReplyGenuine r q p raw given := by
  rw [ReplyGenuine, h]
  rfl

theorem translateReply_genuine_iff {q p : ℕ} {raw given : ℤ}
    (h : k.translateReply q (k.port p) raw = .ok (given, k')) :
    k.ReplyGenuine k' q p raw given ↔ ¬ k.NamesNoPort q raw := by
  rcases translateReply_cases h with ⟨hraw, hr, -⟩ | ⟨hraw, hr, -, htype⟩
    | ⟨o, owner, receiver, hraw, hslot, -, htype, howner, hreceiver, -, hcases⟩
  · exact iff_of_true (.inl hr) fun hno => hraw hno.1
  · refine iff_of_false ?_ fun hno => hno ⟨hraw, htype⟩
    rintro (hneg | ⟨_, _, i, o, -, -, -, -, -, -, -, hslot, hport⟩)
    · omega
    · exact htype o hslot hport
  refine iff_of_true ?_ fun hno => hno.2 o hslot htype
  rcases hcases with ⟨i, hfind, rfl, rfl⟩ | ⟨i, table, -, happend, rfl, rfl⟩ | ⟨-, rfl, -⟩
  · obtain ⟨hi, hvalid, hobj⟩ := HandleTable.findHandle_some hfind
    exact .inr ⟨owner, receiver, i, o, howner, hreceiver, by omega, rfl, hvalid, hobj, hraw,
      hslot, htype⟩
  · obtain ⟨hi, -, hobj, hvalid⟩ := HandleTable.appendToHandleTable_some happend
    refine .inr ⟨owner, receiver, i, o, howner, hreceiver, hi, rfl, ?_, ?_, hraw, hslot, htype⟩
    · rw [setHandles_process, hvalid i hi]
      simp
    · rw [setHandles_process, hobj, Function.update_self]
  · exact .inl rfl

end Kernel

open Kernel

/-- For every message that is accepted. -/
theorem replyHandle_genuine_iff {k k' : Kernel} {cur size : ℕ} {handle : ℤ} {m : Message}
    (h : k.dwIPCSend cur handle (some m) size = .ok (.ok, k')) :
    ∃ q p, (k.thread cur).owner = some q ∧ k.portOfHandle cur handle = some p
      ∧ (k.ReplyGenuine k' q p m.header.replyHandle (k.givenReply k' p)
        ↔ ¬ k.NamesNoPort q m.header.replyHandle) := by
  rcases dwIPCSend_cases h with ⟨hne, -⟩ | ⟨q, target, p, -, hq, -, hslot, -, -, hdata, h⟩
  · exact absurd rfl hne
  obtain ⟨-, ⟨hne, -⟩ | ⟨hne, -⟩ | ⟨m', owner, reply, r, -, hm, -, -, -, hreply, hk'⟩⟩ :=
    sendToPort_cases h
  · exact absurd rfl hne
  · exact absurd rfl hne
  cases hm
  refine ⟨q, p, hq, portOfHandle_eq hq hslot hdata, ?_⟩
  have hprocess : k'.process = r.process := by
    rw [hk', (sameStore_wakeThread _ _).process]
    rfl
  have hgiven : k.givenReply k' p = reply := by
    rw [givenReply, hk', (sameStore_wakeThread _ _).port]
    simp [setPort, Port.advanceTail, Port.writeTail, acceptedMessage]
  rw [hgiven, replyGenuine_congr hprocess]
  exact translateReply_genuine_iff hreply

def emptyMessage (reply : ℤ) : Message := ⟨⟨1, reply, 0, 0, 0, 0, 0⟩, fun _ => 0⟩

def noArgs : InvokeArgs := ⟨none, [], true, true, true, .ok⟩

/-- Process 0 creates the global port "a" in slot 0 and another object in slot 1, and process 1
opens the port in its slot 0. -/
def clientAndServer : List (ℕ × Event) :=
  [(0, .createProcess), (0, .createProcess),
    (0, .call (.createObject (some [97]) .port true)), (0, .call (.invokeObject 0 0 noArgs)),
    (0, .call (.createObject none .section true)), (1, .call (.createObject none .port true)),
    (1, .call (.invokeObject 0 1 { noArgs with openName := some [97] }))]

/-- Process 1 writes 1 as its reply handle and has nothing in its slot 1: process 0 is given its
own object. -/
theorem replyHandle_forged :
    ∃ k k', Run.exec eventStep boot clientAndServer = some k
      ∧ k.dwIPCSend 1 0 (some (emptyMessage 1)) sizeofMessageHeader = .ok (.ok, k')
      ∧ k.portOfHandle 1 0 = some 0 ∧ (k'.process 0).handles.objlist 1 = some 1
      ∧ k.givenReply k' 0 = 1 ∧ ¬ k.ReplyGenuine k' 1 0 1 (k.givenReply k' 0) := by
  have hrun : ((Run.exec eventStep boot clientAndServer).bind fun k =>
      (k.dwIPCSend 1 0 (some (emptyMessage 1)) sizeofMessageHeader).toOption.map fun r =>
        (r.1, k.portOfHandle 1 0, (r.2.process 0).handles.objlist 1, k.givenReply r.2 0,
          (k.process 1).handles.objlist 1))
      = some (.ok, some 0, some 1, 1, none) := by decide +kernel
  obtain ⟨k, hk, hrun⟩ := bind_eq_some_iff.1 hrun
  obtain ⟨⟨st, k'⟩, hk', hrun⟩ := map_eq_some_iff.1 hrun
  simp only [Prod.mk.injEq] at hrun
  obtain ⟨rfl, hp, hobj, hgiven, hslot⟩ := hrun
  refine ⟨k, k', hk, toOption_eq_some.1 hk', hp, hobj, hgiven, ?_⟩
  rw [hgiven]
  rintro (hneg | ⟨_, _, _, o, -, -, -, -, -, -, -, hnamed, -⟩)
  · simp at hneg
  · rw [show (1 : ℤ).toNat = 1 from rfl, hslot] at hnamed
    simp at hnamed

theorem replyHandle_genuine_own_port :
    ∃ k k' : Kernel, k.dwIPCSend 1 0 (some (emptyMessage 0)) sizeofMessageHeader = .ok (.ok, k')
      ∧ k.ReplyGenuine k' 1 0 0 (k.givenReply k' 0) := by
  have hrun : ((Run.exec eventStep boot clientAndServer).bind fun k =>
      (k.dwIPCSend 1 0 (some (emptyMessage 0)) sizeofMessageHeader).toOption.map fun r =>
        (r.1, (k.thread 1).owner, k.portOfHandle 1 0, (k.process 1).handles.objlist 0,
          (k.object 2).type)) = some (.ok, some 1, some 0, some 2, .port) := by decide +kernel
  obtain ⟨k, -, hrun⟩ := bind_eq_some_iff.1 hrun
  obtain ⟨⟨st, k'⟩, hk', hrun⟩ := map_eq_some_iff.1 hrun
  simp only [Prod.mk.injEq] at hrun
  obtain ⟨rfl, hq, hp, hslot, htype⟩ := hrun
  have hsend := toOption_eq_some.1 hk'
  obtain ⟨q, p, hq', hp', hiff⟩ := replyHandle_genuine_iff hsend
  cases hq.symm.trans hq'
  cases hp.symm.trans hp'
  exact ⟨k, k', hsend, hiff.2 fun hno => hno.2 2 hslot htype⟩

end DragonWare
