import Iprp.Basic
import Iprp.Library.KeyedList
import Iprp.Library.OnesComplement
import Iprp.Library.Run
import Mathlib.Logic.Function.Basic

/-!
# The IRD's packet handler

`src/ird/handle.c`: the duplicate-discard algorithm, the list of receiver links with
its cleanup thread, and the rebuilding of a fresh packet. An access outside an array or
outside the received bytes has no defined result, so the functions that make one are
partial: `none` stands for the undefined access.

`step` interleaves the two threads that work on the link list. Both hold its lock for
one packet or one cleanup iteration, so these are the atomic actions.
-/

namespace Iprp.Ird

open Bytes KeyedList

abbrev iprpDdMaxLostPackets : ℕ := 1024

def irdTExp : ℤ := 120

structure ReceiverLink where
  srcAddr : InAddr
  srcPort : UInt16
  snsid : Snsid
  listSn : Fin iprpDdMaxLostPackets → UInt32
  highSn : UInt32
  lastSeen : ℤ

/-! ## The duplicate-discard algorithm -/

/-- `i % IPRP_DD_MAX_LOST_PACKETS` for an `int i` with the bit pattern of `i`. The
remainder of C has the sign of `i`. -/
def signedRem (i : ℕ) : ℤ := ((i : ℤ).bmod (2 ^ 32)).tmod iprpDdMaxLostPackets

/-- The slot a remainder selects; a negative one is outside the array. -/
def slotAt (r : ℤ) : Option (Fin iprpDdMaxLostPackets) :=
  if h : 0 ≤ r ∧ r.toNat < iprpDdMaxLostPackets then some ⟨r.toNat, h.2⟩ else none

/-- `link->list_sn[i % IPRP_DD_MAX_LOST_PACKETS] = i`. -/
def storeSn (listSn : Fin iprpDdMaxLostPackets → UInt32) (i : ℕ) :
    Option (Fin iprpDdMaxLostPackets → UInt32) :=
  (slotAt (signedRem i)).map fun j => Function.update listSn j (UInt32.ofNat i)

/-- The loop that notes the numbers strictly between `highSn` and `seqNb`. Its
comparison is unsigned, so it runs over the bit patterns in between. -/
def noteGap (listSn : Fin iprpDdMaxLostPackets → UInt32) (highSn seqNb : UInt32) :
    Option (Fin iprpDdMaxLostPackets → UInt32) :=
  (List.range' (highSn.toNat + 1) (seqNb.toNat - (highSn.toNat + 1))).foldlM storeSn
    listSn

/-- The index `i % IPRP_DD_MAX_LOST_PACKETS` for an unsigned `i`. -/
def slotOf (i : ℕ) : Fin iprpDdMaxLostPackets :=
  ⟨i % iprpDdMaxLostPackets, Nat.mod_lt i (by decide)⟩

def lateIndex (seqNb : UInt32) : Fin iprpDdMaxLostPackets := slotOf seqNb.toNat

/-- The duplicate-discard algorithm. -/
def isFreshPacket (seqNb : UInt32) (link : ReceiverLink) :
    Option (Bool × ReceiverLink) :=
  if seqNb = link.highSn then
    some (false, link)
  else if link.highSn < seqNb then
    (noteGap link.listSn link.highSn seqNb).map fun listSn =>
      (true, { link with listSn := listSn, highSn := seqNb })
  else if link.listSn (lateIndex seqNb) = seqNb then
    some (true, { link with listSn := Function.update link.listSn (lateIndex seqNb) 0 })
  else
    some (false, link)

/-! ## Receiver links -/

/-- Look for the SNSID of the given header in the list of links. -/
def receiverLinkGet (receiverLinks : List ReceiverLink) (header : IprpHeader) :
    Option ReceiverLink :=
  lookup ReceiverLink.snsid header.snsid receiverLinks

/-- Create a receiver link: the source address and port are copied out of the SNSID,
at the offsets where the sender put them. -/
def receiverLinkCreate (o : ByteOrder) (currTime : ℤ) (header : IprpHeader) :
    ReceiverLink where
  srcAddr := Vector.ofFn fun i => header.snsid[i.val]
  srcPort := UInt16.ofNat (decode o (read header.snsid.toList 16 2))
  snsid := header.snsid
  listSn := fun _ => 0
  highSn := header.seqNb
  lastSeen := currTime

/-- The part of `handle_packet` that runs under the list lock: find or create the link
of the packet and decide whether the packet is fresh. -/
def judgePacket (o : ByteOrder) (currTime : ℤ) (header : IprpHeader)
    (receiverLinks : List ReceiverLink) :
    Option (Bool × ReceiverLink × List ReceiverLink) :=
  match receiverLinkGet receiverLinks header with
  | none =>
      let link := receiverLinkCreate o currTime header
      some (true, link, receiverLinks ++ [link])
  | some link =>
      (isFreshPacket header.seqNb { link with lastSeen := currTime }).map
        fun (fresh, link') =>
          (fresh, link',
            update ReceiverLink.snsid header.snsid (fun _ => link') receiverLinks)

/-! ## Rebuilding a packet -/

/-- The 16-bit words of a buffer of `len` bytes, in host order. -/
def halfwords (o : ByteOrder) (b : List UInt8) (len : ℕ) : List ℕ :=
  (List.range (len / 2)).map fun i => decode o (read b (2 * i) 2)

/-- The IP checksum of a header of `len` bytes. The accumulator has 32 bits. -/
def ipChecksum (o : ByteOrder) (header : List UInt8) (len : ℕ) : UInt16 :=
  let checksum := (halfwords o header len).foldl
    (fun c w => OnesComplement.foldCarry ((c + w) % 2 ^ 32)) 0
  UInt16.ofNat (2 ^ 32 - 1 - OnesComplement.foldCarry checksum)

/-- Rewrite the headers of the received packet `buf` in place and move the payload
over the iPRP header. -/
def createNewPacket (t : Target) (buf : List UInt8) (header : IprpHeader)
    (payloadSize : ℕ) (srcAddr : InAddr) (srcPort : UInt16) : Option (List UInt8) := do
  let word16 (x : UInt16) : List UInt8 := encode t.order 2 x.toNat
  -- Modify IP header
  let buf ← store buf 12 srcAddr.toList
  let buf ← t.build.ifUnicast (store · 16 header.destAddr.toList) buf
  let totLen := UInt16.ofNat (payloadSize + ipHeaderSize + udpHeaderSize)
  let buf ← store buf 2 (word16 (htons t.order totLen))
  let buf ← store buf 10 (word16 0)
  let buf ← store buf 10 (word16 (ipChecksum t.order buf ipHeaderSize))
  -- Modify UDP header
  let buf ← store buf 22 (word16 (htons t.order header.destPort))
  let buf ← store buf 20 (word16 (htons t.order srcPort))
  let buf ← store buf 24
    (word16 (htons t.order (UInt16.ofNat (payloadSize + udpHeaderSize))))
  let buf ← store buf 26 (word16 0)
  -- Move payload over iPRP header
  let iprpHeader := ipHeaderSize + udpHeaderSize
  let payload ← load buf (iprpHeader + iprpHeaderSize t.build) payloadSize
  store buf iprpHeader payload

/-- A call of `nfq_set_verdict`. -/
inductive NfVerdict where
  /-- `NF_QUEUE` to the given queue, with the packet handed on. -/
  | queue (queueNum : ℕ) (packet : List UInt8)
  | drop (packet : List UInt8)

/-- Handle the packet `buf` received on the IRD queue. -/
def handlePacket (t : Target) (imdQueueId : ℕ) (currTime : ℤ) (buf : List UInt8)
    (receiverLinks : List ReceiverLink) : Option (NfVerdict × List ReceiverLink) := do
  let headers := ipHeaderSize + udpHeaderSize
  let header ← readHeader t buf headers
  let payloadSize := sizeSub buf.length (headers + iprpHeaderSize t.build)
  let (fresh, link, receiverLinks) ←
    judgePacket t.order currTime header receiverLinks
  if fresh then
    let newPacket ←
      createNewPacket t buf header payloadSize link.srcAddr link.srcPort
    let newPacketSize := (payloadSize + headers) % 2 ^ 64
    return (.queue imdQueueId (newPacket.take newPacketSize), receiverLinks)
  else
    return (.drop buf, receiverLinks)

/-! ## The threads of the IRD -/

/-- The verdict given to a packet. -/
structure Verdict where
  snsid : Snsid
  seqNb : UInt32
  fresh : Bool
  deriving DecidableEq

/-- The link list, the `iterator` of the cleanup thread (`none` is the null pointer)
and the verdicts given so far. -/
structure State where
  receiverLinks : List ReceiverLink
  iterator : Option ℕ
  verdicts : List Verdict

def init : State := ⟨[], none, []⟩

/-- The atomic actions of the two threads. -/
inductive Action where
  | packet (header : IprpHeader)
  | cleanupStart
  | cleanupIteration

structure Event where
  currTime : ℤ
  action : Action

/-- The list section of `handle_packet` on a packet with the given header. -/
def packetStep (o : ByteOrder) (currTime : ℤ) (header : IprpHeader) (s : State) :
    Option State :=
  (judgePacket o currTime header s.receiverLinks).map fun (fresh, _, receiverLinks) =>
    { s with
      receiverLinks := receiverLinks
      verdicts := s.verdicts ++ [⟨header.snsid, header.seqNb, fresh⟩] }

def expired (currTime : ℤ) (link : ReceiverLink) : Bool :=
  irdTExp < currTime - link.lastSeen

/-- `iterator = receiver_links.head`, at the start of a cleanup pass. -/
def cleanupStart (s : State) : State :=
  match s.iterator with
  | some _ => s
  | none => { s with iterator := node s.receiverLinks 0 }

/-- One iteration of the inner loop of `cleanup_routine`. -/
def cleanupIteration (currTime : ℤ) (s : State) : State :=
  match s.iterator with
  | none => s
  | some i =>
      let (receiverLinks, iterator) := sweepStep (expired currTime) s.receiverLinks i
      { s with receiverLinks := receiverLinks, iterator := iterator }

def step (o : ByteOrder) (s : State) (e : Event) : Option State :=
  match e.action with
  | .packet header => packetStep o e.currTime header s
  | .cleanupStart => some (cleanupStart s)
  | .cleanupIteration => some (cleanupIteration e.currTime s)

/-- The state of the IRD after the given events. -/
def run (o : ByteOrder) (es : List Event) : Option State := Run.runFrom (step o) init es

end Iprp.Ird
