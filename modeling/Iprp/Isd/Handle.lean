import Iprp.Basic

/-!
# The ISD's packet handler

`src/isd/handle.c`: an outgoing datagram is wrapped into an iPRP packet, its original is
given a verdict, and one copy of the packet is sent on each interface whose IND is
matched. The counter of sequence numbers and the timer of the multicast keep-alive are
state of the daemon.

The packet is built in a block from `malloc`, whose contents before the writes are
arbitrary and come as the parameter `heap`. Whether a `sendto` succeeds is decided by
the network; `sendto i` is the answer for the interface number `i`.
-/

namespace Iprp.Isd

open Bytes

def iprpTIsdAllow : ℤ := 2

/-- A block of `n` bytes fresh from `malloc`. -/
def malloc (heap : ℕ → UInt8) (n : ℕ) : List UInt8 := (List.range n).map heap

/-- The next sequence number: the counter skips `0` when it wraps. -/
def nextSeqNb (seqNb : UInt32) : UInt32 :=
  if seqNb = 4294967295 then 1 else seqNb + 1

/-- Creates an iPRP packet from the datagram `buf`, with the next value of the
counter. -/
def createIprpPacket (t : Target) (link : Link) (heap : ℕ → UInt8) (seqNb : UInt32)
    (buf : List UInt8) : Option (List UInt8 × UInt32) := do
  let headers := ipHeaderSize + udpHeaderSize
  let payloadSize := sizeSub buf.length headers
  let payload ← load buf headers payloadSize
  let newPacket := malloc heap (payloadSize + iprpHeaderSize t.build)
  let newPacket ← store newPacket (iprpHeaderSize t.build) payload
  -- Create IPRP header
  let newPacket ← store newPacket 0 [iprpVersion]
  let newPacket ← store newPacket 21 (encode t.order 4 seqNb.toNat)
  let newPacket ← store newPacket 25 (encode t.order 2 link.destPort.toNat)
  let newPacket ← t.build.ifUnicast (store · 27 link.destAddr.toList) newPacket
  let newPacket ← store newPacket 1 link.snsid.toList
  return (newPacket, nextSeqNb seqNb)

/-- `NF_ACCEPT` or `NF_DROP` for the original of a datagram. -/
inductive OriginalVerdict where
  | accept
  | drop
  deriving DecidableEq

/-- The verdict on the original and the new value of `last_allowed_thru`. -/
def getVerdict (build : Build) (currTime lastAllowedThru : ℤ) :
    OriginalVerdict × ℤ :=
  match build with
  | .unicast => (.drop, lastAllowedThru)
  | .multicast =>
      if iprpTIsdAllow ≤ currTime - lastAllowedThru then (.accept, currTime)
      else (.drop, lastAllowedThru)

/-- A call of `sendto`: the socket of an IND and the destination. -/
structure Copy where
  ind : UInt8
  destAddr : SockAddr
  deriving DecidableEq

/-- Sends a packet on the given interface if its IND is matched; the answer is whether
to go on. -/
def sendPacket (iface : Iface) (addr : SockAddr) (baseInds : IndBitmap) (sent : Bool) :
    List Copy × Bool :=
  if (1#16 <<< iface.ind.toNat) &&& baseInds ≠ 0#16 then
    ([⟨iface.ind, addr⟩], sent)
  else
    ([], true)

/-- The destination of the copy on an interface, absent when the IND is outside the
table. -/
def copyAddr (build : Build) (base : Peerbase) (iface : Iface) : Option InAddr :=
  match build with
  | .unicast => base.destAddr[iface.ind.toNat]?
  | .multicast => some base.link.destAddr

/-- The loop over the interfaces, from number `i`. A failed `sendto` ends the daemon. -/
def sendCopies (build : Build) (base : Peerbase) (sendto : ℕ → Bool) :
    ℕ → List Iface → Option (List Copy × Bool)
  | _, [] => some ([], true)
  | i, iface :: ifaces => do
      let addr ← copyAddr build base iface
      let (copies, alive) := sendPacket iface (sockaddrFill addr iprpDataPort) base.inds
        (sendto i)
      if alive then
        let (copies', alive') ← sendCopies build base sendto (i + 1) ifaces
        return (copies ++ copies', alive')
      else
        return (copies, false)

structure State where
  seqNb : UInt32
  lastAllowedThru : ℤ

def init : State := ⟨1, 0⟩

/-- What handling one datagram does: the verdict on the original, the packet, the copies
sent and whether the daemon is still running. -/
structure Outcome where
  verdict : OriginalVerdict
  packet : List UInt8
  copies : List Copy
  alive : Bool

/-- Duplicates a datagram and sends it through iPRP. -/
def handlePacket (t : Target) (base : Peerbase) (heap : ℕ → UInt8) (currTime : ℤ)
    (sendto : ℕ → Bool) (buf : List UInt8) (s : State) : Option (Outcome × State) := do
  let (packet, seqNb) ← createIprpPacket t base.link heap s.seqNb buf
  let (verdict, lastAllowedThru) := getVerdict t.build currTime s.lastAllowedThru
  let (copies, alive) ← sendCopies t.build base sendto 0 base.host.used
  return (⟨verdict, packet, copies, alive⟩, ⟨seqNb, lastAllowedThru⟩)

/-- The packets that one ISD creates from a sequence of datagrams, starting at a value
of the counter. -/
def emit (t : Target) (link : Link) : UInt32 → List ((ℕ → UInt8) × List UInt8) →
    Option (List (List UInt8))
  | _, [] => some []
  | seqNb, (heap, buf) :: bufs => do
      let (packet, seqNb') ← createIprpPacket t link heap seqNb buf
      let packets ← emit t link seqNb' bufs
      return packet :: packets

end Iprp.Isd
