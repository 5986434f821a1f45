import DragonWare.Object

/-!
# Messages

`sys/syscall/ipc.c` and `sys/task/message.c`. A port holds a ring of twelve messages. A message is
copied into the slot at the tail before it is checked, so a message that is turned away leaves its
bytes there. What the caller's memory holds, and whether a copy from or to it works, are arguments.
-/

namespace DragonWare

open Function

def sizeofMessageHeader : ℕ := 24

def sizeofMessage : ℕ := sizeofMessageHeader + messageBufferSize

/-- The first `n` bytes of the payload of `m` in front of what the slot held. -/
def Message.copyPayload (slot m : Message) (n : ℕ) : Message :=
  ⟨m.header, fun i => if i < n then m.payload i else slot.payload i⟩

/-- What a receiver is given: the header, and as many bytes as it says. -/
structure Delivery where
  header : MessageHeader
  bytes : List (BitVec 8)
  deriving DecidableEq, Repr

def Message.delivery (m : Message) : Delivery :=
  ⟨m.header, (List.range m.header.payloadLength).map m.payload⟩

/-- How far a receive has come: asleep in its loop, or back with a status and with what was copied
to the caller. -/
inductive Receipt
  | asleep
  | done (status : Status) (delivered : Option Delivery)
  deriving DecidableEq, Repr

namespace Port

/-- The slot at the tail is written. -/
def writeTail (port : Port) (m : Message) : Port :=
  { port with msgbuf := update port.msgbuf port.tail m }

/-- The slot at the tail becomes part of the queue. -/
def advanceTail (port : Port) : Port :=
  { port with tail := (port.tail + 1) % maxMessagesInPort, count := port.count + 1 }

/-- The slot at the head leaves the queue. -/
def advanceHead (port : Port) : Port :=
  { port with head := (port.head + 1) % maxMessagesInPort, count := port.count - 1 }

end Port

namespace Kernel

/-- The port a handle of the thread's process leads to, as far as its pointers lead. -/
def portOfHandle (k : Kernel) (cur : ℕ) (handle : ℤ) : Option ℕ :=
  (k.thread cur).owner.bind fun q =>
    ((k.process q).handles.objlist handle.toNat).bind fun o => (k.object o).data

/-- The reply handle the receiver is given for the handle `raw` of process `q`, and its table. -/
def translateReply (k : Kernel) (q : ℕ) (port : Port) (raw : ℤ) : Except Fault (ℤ × Kernel) :=
  if 0 ≤ raw ∧ raw < maxObjPerProcess then
    match (k.process q).handles.objlist raw.toNat with
    | none => .ok (raw, k)
    | some replyobj => do
      let obj ← k.derefObject replyobj
      if obj.type ≠ .port then return (raw, k)
      else
        let owner ← nonNull port.owner
        let target ← nonNull (k.thread owner).owner
        let receiver ← k.derefPortOwner target
        -- the last slot is not looked at
        match receiver.handles.findHandle replyobj (maxObjPerProcess - 1) with
        | some i => return ((i : ℤ), k)
        | none =>
          match receiver.handles.appendToHandleTable replyobj with
          | some (i, table) => return ((i : ℤ), k.setHandles target table)
          | none => return (-1, k)
  else .ok (-1, k)

/-- The part of `_DWIPCSend` once the target port is known. -/
def sendToPort (k : Kernel) (q p : ℕ) (copy : Option Message) (messageSize : ℕ) :
    Except Fault (Status × Kernel) := do
  let port ← k.derefPort p
  match port.owner with
  | none => return (.noEndpoint, k)
  | some owner =>
    if maxMessagesInPort ≤ port.count then return (.msgqueueFull, k)
    else
      match copy with
      | none => return (.badArgument, k)
      | some m =>
        let payloadSize := messageSize - sizeofMessageHeader
        let kmsg := (port.msgbuf port.tail).copyPayload m payloadSize
        let k := k.setPort p (port.writeTail kmsg)
        if payloadSize < kmsg.header.payloadLength then return (.badArgument, k)
        else
          let (reply, k) ← k.translateReply q port kmsg.header.replyHandle
          let kmsg := { kmsg with header := { kmsg.header with
            sender := (k.process q).pid, reserved := 0, replyHandle := reply } }
          let k := k.setPort p (((k.port p).writeTail kmsg).advanceTail)
          return (.ok, k.wakeThread owner)

/-- `copy` is the message in the caller's memory, if it can be read. -/
def dwIPCSend (k : Kernel) (cur : ℕ) (handle : ℤ) (copy : Option Message) (messageSize : ℕ) :
    Except Fault (Status × Kernel) :=
  let messageSize := if sizeofMessage < messageSize then sizeofMessage else messageSize
  if messageSize < sizeofMessageHeader then .ok (.badArgument, k)
  else if handle < 0 ∨ maxObjPerProcess ≤ handle then .ok (.outOfBounds, k)
  else do
    let q ← k.currProc cur
    match (k.process q).handles.objlist handle.toNat with
    | none => return (.noEndpoint, k)
    | some target =>
      let obj ← k.derefObject target
      match obj.type, obj.data with
      | .port, some p => k.sendToPort q p copy messageSize
      | _, _ => return (.noEndpoint, k)

/-- The receive loop at its test: the thread sleeps while the port is empty, and takes the message
at the head otherwise. -/
def receiveFrom (k : Kernel) (cur p : ℕ) (copyOk : Bool) :
    Except Fault (Receipt × Kernel) := do
  let port ← k.derefPort p
  if port.count = 0 then
    let k := { k.blockThread cur with inReceive := update k.inReceive cur (some p) }
    let k ← k.scheduleNext
    return (.asleep, k)
  else
    let k := { k.setPort p port.advanceHead with
      inReceive := update k.inReceive cur none }
    if copyOk then return (.done .ok (some (port.msgbuf port.head).delivery), k)
    else return (.done .bad none, k)

def dwIPCReceive (k : Kernel) (cur : ℕ) (handle : ℤ) (copyOk : Bool) :
    Except Fault (Receipt × Kernel) :=
  if handle < 0 ∨ maxObjPerProcess ≤ handle then .ok (.done .outOfBounds none, k)
  else do
    let q ← k.currProc cur
    match (k.process q).handles.objlist handle.toNat with
    | none => return (.done .noEndpoint none, k)
    | some o =>
      let obj ← k.derefObject o
      match obj.type, obj.data with
      | .port, some p =>
        let port ← k.derefPort p
        let owner ← nonNull port.owner
        if (k.thread owner).owner ≠ some q then return (.done .badArgument none, k)
        else k.receiveFrom cur p copyOk
      | _, _ => return (.done .noEndpoint none, k)

/-- A message whose length is above the size of the slot is not copied here: `SendMessage`, the
only caller, turns it away. -/
def enqueueMessage (k : Kernel) (p : ℕ) (new : Message) : Except Fault (Status × Kernel) := do
  let port ← k.derefPort p
  if maxMessagesInPort ≤ port.count then return (.msgqueueFull, k)
  else
    let kmsg := (port.msgbuf port.tail).copyPayload new new.header.payloadLength
    let k := k.setPort p ((port.writeTail kmsg).advanceTail)
    let owner ← nonNull port.owner
    return (.ok, k.wakeThread owner)

def sendMessage (k : Kernel) (q : ℕ) (handle : ℤ) (msg : Message) :
    Except Fault (Status × Kernel) :=
  if handle < 0 ∨ maxObjPerProcess ≤ handle then .ok (.outOfBounds, k)
  else do
    let proc ← k.derefProcess q
    let target ← nonNull (proc.handles.objlist handle.toNat)
    let obj ← k.derefObject target
    match obj.type, obj.data with
    | .port, some p =>
      if messageBufferSize < msg.header.payloadLength then return (.outOfBounds, k)
      else k.enqueueMessage p { msg with header := { msg.header with
        sender := 0, replyHandle := -1, reserved := 0 } }
    | _, _ => return (.badArgument, k)

end Kernel

end DragonWare
