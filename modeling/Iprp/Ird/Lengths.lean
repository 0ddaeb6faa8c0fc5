import Iprp.Ird.Rebuild

/-!
# Datagrams of every length

`handle_packet` never compares the length of what it received with the sizes of the headers
that it looks for. The payload size is an unsigned difference, so for a datagram that is
shorter than the iPRP header it wraps around, and the link, the `memmove` and the size passed
with the verdict go by bytes that were not received. From the full header on all of them are
right (`safelyHandled_iff`).
-/

namespace Iprp.Ird

open Bytes

/-- The headers in front of the iPRP header. -/
abbrev outerSize : ℕ := ipHeaderSize + udpHeaderSize

/-- A datagram that the rule of the data port diverts to the IRD: UDP behind an IP header of
20 bytes. The total length of an IP packet is a 16-bit number. -/
structure DataDatagram where
  bytes : List UInt8
  length_ge : outerSize ≤ bytes.length
  length_lt : bytes.length < 2 ^ 16
  version_ihl : read bytes 0 1 = [0x45]
  protocol : read bytes 9 1 = [17]
  destPort : read bytes 22 2 = encode .big 2 iprpDataPort.toNat

/-- The number of bytes behind the UDP header. -/
def DataDatagram.udpPayloadLength (d : DataDatagram) : ℕ := d.bytes.length - outerSize

/-- `payload_size` in `handle_packet`. -/
def payloadSize (t : Target) (buf : List UInt8) : ℕ :=
  sizeSub buf.length (outerSize + iprpHeaderSize t.build)

/-- `new_packet_size` as `nfq_set_verdict` takes it, a 32-bit number. -/
def newPacketSize (t : Target) (buf : List UInt8) : ℕ :=
  (payloadSize t buf + outerSize) % 2 ^ 64 % 2 ^ 32

/-- What handling a packet has to keep to. -/
structure SafelyHandled (t : Target) (currTime : ℤ) (buf : List UInt8)
    (receiverLinks : List ReceiverLink) : Prop where
  /-- The payload size is the number of bytes behind the headers. -/
  size_exact : payloadSize t buf + (outerSize + iprpHeaderSize t.build) = buf.length
  /-- The header, of which the link is built, was received. -/
  header_received : ∃ header, readHeader t buf outerSize = some header
  /-- Rebuilding a fresh packet reads and writes inside the received bytes. -/
  rebuilt : ∀ header link links, readHeader t buf outerSize = some header →
    judgePacket t.order currTime header receiverLinks = some (true, link, links) →
    ∃ newPacket, createNewPacket t buf header (payloadSize t buf) link.srcAddr link.srcPort =
      some newPacket
  verdict_size : newPacketSize t buf ≤ buf.length

theorem readHeader_defined (t : Target) {buf : List UInt8} {off : ℕ}
    (h : off + iprpHeaderSize t.build ≤ buf.length) :
    ∃ header, readHeader t buf off = some header := by
  have hsize : 31 ≤ iprpHeaderSize t.build := by
    cases t.build with
    | unicast => decide
    | multicast => decide
  have hversion : load buf off 1 = some (read buf off 1) := load_eq_read (by omega)
  obtain ⟨snsid, hsnsid⟩ := loadVector_defined buf (off + 1) 20 (by omega)
  obtain ⟨seqNb, hseqNb⟩ := loadWord32_defined t.order buf (off + 21) (by omega)
  obtain ⟨destPort, hdestPort⟩ := loadWord16_defined t.order buf (off + 25) (by omega)
  rw [readHeader, hversion, hsnsid, hseqNb, hdestPort]
  simp only [Option.bind_eq_bind, Option.bind_some]
  cases t.build with
  | unicast =>
      obtain ⟨destAddr, hdestAddr⟩ := loadVector_defined buf (off + 27) 4 (by omega)
      rw [hdestAddr]
      exact ⟨_, rfl⟩
  | multicast => exact ⟨_, rfl⟩

/-- What is handled safely has a defined result when its freshness does. -/
theorem SafelyHandled.defined {t : Target} {currTime : ℤ} {buf : List UInt8}
    {receiverLinks : List ReceiverLink} (h : SafelyHandled t currTime buf receiverLinks)
    (hjudge : ∀ header, ∃ r, judgePacket t.order currTime header receiverLinks = some r)
    (imdQueueId : ℕ) : ∃ r, handlePacket t imdQueueId currTime buf receiverLinks = some r := by
  obtain ⟨header, hheader⟩ := h.header_received
  obtain ⟨⟨fresh, link, links⟩, hr⟩ := hjudge header
  have hsize : sizeSub buf.length (outerSize + iprpHeaderSize t.build) = payloadSize t buf := rfl
  rw [handlePacket, hheader, Option.bind_eq_bind, Option.bind_some, hr, Option.bind_eq_bind,
    Option.bind_some, hsize]
  cases fresh with
  | true =>
      obtain ⟨newPacket, hnew⟩ := h.rebuilt header link links hheader hr
      dsimp only
      rw [if_pos rfl, hnew]
      exact ⟨_, rfl⟩
  | false => exact ⟨_, rfl⟩

/-- A datagram is handled safely, whatever links there are, if and only if its UDP payload has
at least the size of the iPRP header. -/
theorem safelyHandled_iff (t : Target) (currTime : ℤ) (d : DataDatagram)
    (receiverLinks : List ReceiverLink) :
    SafelyHandled t currTime d.bytes receiverLinks ↔
      iprpHeaderSize t.build ≤ d.udpPayloadLength := by
  have hge : outerSize ≤ d.bytes.length := d.length_ge
  have hlt : d.bytes.length < 2 ^ 16 := d.length_lt
  have hfit : iprpHeaderSize t.build ≤ d.udpPayloadLength ↔
      outerSize + iprpHeaderSize t.build ≤ d.bytes.length := by
    unfold DataDatagram.udpPayloadLength
    omega
  rw [hfit]
  constructor
  · intro h
    have hexact := h.size_exact
    omega
  · intro hle
    have hsize : payloadSize t d.bytes =
        d.bytes.length - (outerSize + iprpHeaderSize t.build) :=
      sizeSub_of_le hle (by omega)
    refine ⟨by omega, readHeader_defined t hle, ?_, ?_⟩
    · intro header link links _ _
      have hroom : 28 + iprpHeaderSize t.build + payloadSize t d.bytes ≤ d.bytes.length := by
        rw [hsize]
        exact Nat.le_of_eq (Nat.add_sub_cancel' hle)
      obtain ⟨newPacket, hnew, -⟩ := createNewPacket_defined t header (payloadSize t d.bytes)
        link.srcAddr link.srcPort hroom
      exact ⟨newPacket, hnew⟩
    · unfold newPacketSize
      omega

/-- A datagram from `10.0.0.1:4000` to the data port of `10.0.0.2` without any payload. -/
def emptyDatagram : DataDatagram where
  bytes := [0x45, 0, 0, 28, 0, 0, 0, 0, 64, 17, 0, 0, 10, 0, 0, 1, 10, 0, 0, 2,
    0x0f, 0xa0, 0x03, 0xe9, 0, 8, 0, 0]
  length_ge := Nat.le_refl 28
  length_lt := Nat.lt_of_lt_of_le (Nat.lt_succ_self 28) (by norm_num)
  version_ihl := rfl
  protocol := rfl
  destPort := rfl

/-- The payload size of an empty datagram wraps around. -/
theorem empty_datagram_wraps :
    ¬ ∀ (t : Target) (currTime : ℤ) (d : DataDatagram) (receiverLinks : List ReceiverLink),
      SafelyHandled t currTime d.bytes receiverLinks := by
  intro h
  exact absurd (h ⟨.unicast, .little⟩ 0 emptyDatagram []).size_exact (by decide)

end Iprp.Ird
