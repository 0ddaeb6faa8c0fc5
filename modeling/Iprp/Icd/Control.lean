import Iprp.Icd.Message
import Iprp.Library.KeyedList
import Iprp.Library.Run

/-!
# The ICD's control routine

`src/icd/control.c`: the receive loop of the control socket and the handlers of the two
messages. A CAP updates or creates the base of its flow in `peerbases`; in the multicast
build it is answered by an ACK, and an ACK that arrives refreshes or creates an entry of
`sender_ifaces`.

The contents of a block from `malloc` before the writes are arbitrary; the parts of it
that are not written on every path come with the event that allocates it. A write
outside a table has no defined result and gives `none`.
-/

namespace Iprp.Icd

open Bytes KeyedList

/-- `iprp_icd_base_t`. -/
structure IcdBase where
  link : Link
  inds : IndBitmap
  /-- Present in the unicast build only. -/
  destAddr : Vector InAddr 16
  queueId : UInt16
  isdPid : ℤ
  lastCap : ℤ
  deriving DecidableEq

/-- `iprp_sender_ifaces_t`. -/
structure SenderIfaces where
  senderAddr : InAddr
  groupAddr : InAddr
  nbIfaces : ℕ
  ifaces : Vector Iface 16
  hostAddr : Vector InAddr 16
  lastSeen : ℤ
  deriving DecidableEq

/-- What is fixed while the ICD runs: the build, `this`, and the numbers that `rand`
gives after a call of `srand`. -/
structure Config where
  target : Target
  this : LocalHost
  rand : ℤ → ℕ → ℕ

/-- The contents of the blocks that `malloc` returns. -/
structure Heap where
  addrs : Vector InAddr 16
  ifaces : Vector Iface 16

/-- A message sent on the control socket. -/
structure Sent where
  destination : SockAddr
  msg : AckMsg
  deriving DecidableEq

/-- The state that the control routine works on. -/
structure Control where
  peerbases : List IcdBase
  senderIfaces : List SenderIfaces
  rebootCounter : UInt16
  sent : List Sent
  /-- Whether the receive loop is still running. -/
  serving : Bool
  deriving DecidableEq

def Control.init : Control := ⟨[], [], 0, [], true⟩

/-! ## Bases -/

/-- What `peerbase_query` compares: destination address, source port and destination
port. -/
structure FlowKey where
  destAddr : InAddr
  srcPort : UInt16
  destPort : UInt16
  deriving DecidableEq

def IcdBase.key (base : IcdBase) : FlowKey :=
  ⟨base.link.destAddr, base.link.srcPort, base.link.destPort⟩

def CapMsg.key (msg : CapMsg) : FlowKey := ⟨msg.destAddr, msg.srcPort, msg.destPort⟩

/-- Looks up the base corresponding to a CAP message. -/
def peerbaseQuery (msg : CapMsg) (peerbases : List IcdBase) : Option IcdBase :=
  lookup IcdBase.key msg.key peerbases

/-- The SNSID of a link: the source address four times, the source port and the reboot
counter, the last two as they lie in memory. -/
def snsid (o : ByteOrder) (srcAddr : InAddr) (srcPort rebootCounter : UInt16) : Snsid :=
  srcAddr ++ srcAddr ++ srcAddr ++ srcAddr ++ word16Bytes o srcPort ++
    word16Bytes o rebootCounter

theorem toList_snsid (o : ByteOrder) (srcAddr : InAddr) (srcPort rebootCounter : UInt16) :
    (snsid o srcAddr srcPort rebootCounter).toList =
      srcAddr.toList ++ srcAddr.toList ++ srcAddr.toList ++ srcAddr.toList ++
        encode o 2 srcPort.toNat ++ encode o 2 rebootCounter.toNat := by
  unfold snsid
  simp only [Vector.toList_append]
  rfl

theorem snsid_addr (o : ByteOrder) (srcAddr : InAddr) (srcPort rebootCounter : UInt16)
    {i : ℕ} (hi : i < 4) :
    (snsid o srcAddr srcPort rebootCounter)[i] = srcAddr[i] := by
  rw [← Vector.getElem_toList (by simpa using by omega)]
  simp only [toList_snsid, List.append_assoc]
  rw [List.getElem_append_left (by simpa using hi), Vector.getElem_toList]

theorem snsid_port (o : ByteOrder) (srcAddr : InAddr) (srcPort rebootCounter : UInt16) :
    read (snsid o srcAddr srcPort rebootCounter).toList 16 2 = encode o 2 srcPort.toNat := by
  rw [toList_snsid, read_append_left (by simp), read_append_right (by simp)]
  simp only [List.length_append, Vector.length_toList, Nat.reduceAdd, Nat.sub_self]
  rw [Bytes.read, List.drop_zero, List.take_of_length_le (by simp)]

/-- One turn of the loop of `get_queue_number` on a number from `rand`: the queue number
and `ok` at the end of the turn. -/
def queueNumberTurn (peerbases : List IcdBase) (random : ℕ) : UInt16 × Bool :=
  let num := UInt16.ofNat (random % 1024)
  -- the scan clears `ok` when the number is in use, and the turn then sets it anyway
  let _ok := !peerbases.any fun base => base.queueId == num
  let ok := true
  (num, ok)

/-- The number returned by the loop. It goes on while `ok` is not set, so that it never makes a
second turn. -/
def getQueueNumber (peerbases : List IcdBase) (rand : ℕ → ℕ) : UInt16 :=
  (queueNumberTurn peerbases (rand 0)).1

/-- `base->dest_addr[iface.ind] = iface.addr`. -/
def storeAddr (destAddr : Vector InAddr 16) (iface : Iface) : Option (Vector InAddr 16) :=
  if h : iface.ind.toNat < 16 then some (destAddr.set iface.ind.toNat iface.addr h)
  else none

/-- The loop over the interfaces of a message, absent when one of the indices is outside
its table. -/
def storeAddrs (receiver : Host) (destAddr : Vector InAddr 16) :
    Option (Vector InAddr 16) :=
  if receiver.nbIfaces ≤ 16 then receiver.used.foldlM storeAddr destAddr else none

/-- Creates the base for a CAP message. -/
def createBase (c : Config) (currTime : ℤ) (heap : Heap) (msg : CapMsg)
    (matchingInds : IndBitmap) (s : Control) : Option IcdBase := do
  let destAddr ← c.target.build.ifUnicast (storeAddrs msg.receiver) heap.addrs
  return {
    link := {
      srcAddr := msg.srcAddr
      destAddr := msg.destAddr
      srcPort := msg.srcPort
      destPort := msg.destPort
      snsid := snsid c.target.order msg.srcAddr msg.srcPort s.rebootCounter }
    inds := matchingInds
    destAddr := destAddr
    queueId := getQueueNumber s.peerbases (c.rand currTime)
    isdPid := -1
    lastCap := currTime }

/-- Sends an ACK message, in the multicast build. -/
def sendAck (c : Config) (link : Link) (s : Control) : Control :=
  match c.target.build with
  | .unicast => s
  | .multicast =>
      { s with
        sent := s.sent ++ [⟨sockaddrFill link.destAddr iprpCtlPort,
          ⟨c.this.toHost, link.destAddr, link.srcAddr⟩⟩] }

/-- Update of a base on a CAP. -/
def updateBase (c : Config) (currTime : ℤ) (msg : CapMsg) (base : IcdBase) : IcdBase :=
  { base with
    inds := base.inds ||| indMatch c.this.toHost msg.inds
    lastCap := currTime }

/-- Handle incoming CAP messages. -/
def handleCap (c : Config) (currTime : ℤ) (heap : Heap) (msg : CapMsg) (s : Control) :
    Option Control :=
  match peerbaseQuery msg s.peerbases with
  | some base =>
      some (sendAck c base.link
        { s with
          peerbases := update IcdBase.key msg.key (updateBase c currTime msg)
            s.peerbases })
  | none =>
      let matchingInds := indMatch c.this.toHost msg.inds
      if matchingInds ≠ 0 then
        (createBase c currTime heap msg matchingInds s).map fun base =>
          sendAck c base.link
            { s with
              peerbases := s.peerbases ++ [base]
              rebootCounter := s.rebootCounter + 1 }
      else some s

/-! ## Sender interfaces -/

def SenderIfaces.key (entry : SenderIfaces) : InAddr × InAddr :=
  (entry.groupAddr, entry.senderAddr)

def AckMsg.key (msg : AckMsg) : InAddr × InAddr := (msg.groupAddr, msg.srcAddr)

/-- Looks up the sender interfaces for a group and a source, and refreshes the entry
found. -/
def inSenderIfaces (currTime : ℤ) (k : InAddr × InAddr) (s : Control) : Bool × Control :=
  ((lookup SenderIfaces.key k s.senderIfaces).isSome,
    { s with
      senderIfaces := update SenderIfaces.key k
        (fun entry => { entry with lastSeen := currTime }) s.senderIfaces })

/-- The address of the local interface with the given IND. -/
def localAddr (this : Host) (ind : UInt8) : Option InAddr :=
  (this.used.find? fun iface => iface.ind == ind).map Iface.addr

/-- Creates the sender interfaces entry for an ACK message. A slot of `host_addr` whose
IND has no local counterpart is not written. -/
def createSenderIfaces (c : Config) (currTime : ℤ) (heap : Heap) (msg : AckMsg) :
    Option SenderIfaces :=
  if msg.host.nbIfaces ≤ 16 then
    some {
      senderAddr := msg.srcAddr
      groupAddr := msg.groupAddr
      nbIfaces := msg.host.nbIfaces
      ifaces := Vector.ofFn fun i =>
        if i.val < msg.host.nbIfaces then msg.host.ifaces[i] else heap.ifaces[i]
      hostAddr := Vector.ofFn fun i =>
        if i.val < msg.host.nbIfaces then
          (localAddr c.this.toHost msg.host.ifaces[i].ind).getD heap.addrs[i]
        else heap.addrs[i]
      lastSeen := currTime }
  else none

/-- Handle incoming ACK messages. -/
def handleAck (c : Config) (currTime : ℤ) (heap : Heap) (msg : AckMsg) (s : Control) :
    Option Control :=
  let (found, s) := inSenderIfaces currTime msg.key s
  if found then some s
  else
    (createSenderIfaces c currTime heap msg).map fun entry =>
      { s with senderIfaces := s.senderIfaces ++ [entry] }

/-! ## The receive loop -/

/-- A datagram arriving on the control socket. -/
structure Arrival where
  currTime : ℤ
  heap : Heap
  datagram : List UInt8

/-- Forward a message to its handler. -/
def handleMessage (c : Config) (currTime : ℤ) (heap : Heap) (msg : Message) (s : Control) :
    Option Control :=
  match msg with
  | .cap msg => handleCap c currTime heap msg s
  | .ack msg => handleAck c currTime heap msg s
  | .other => some s

/-- One turn of the loop of `control_routine`. Once the loop has been left, datagrams stay
in the socket. -/
def controlStep (c : Config) (s : Control) (a : Arrival) : Option Control :=
  if s.serving then
    if passesCheck c.target a.datagram then
      handleMessage c a.currTime a.heap
        (messageOf c.target (received c.target a.datagram)) s
    else
      -- the check that fails is followed by a `break`
      some { s with serving := false }
  else some s

/-- The state of the control routine after the given datagrams. -/
def controlRun (c : Config) (arrivals : List Arrival) : Option Control :=
  Run.runFrom (controlStep c) Control.init arrivals

end Iprp.Icd
