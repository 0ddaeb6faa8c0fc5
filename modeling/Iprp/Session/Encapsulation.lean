import Iprp.Icd.Control
import Iprp.Ird.Rebuild
import Iprp.Isd.Packet

/-!
# Encapsulation and its inverse

The ISD of a link wraps a datagram (`Isd.createIprpPacket`) and the IRD unwraps it
(`Ird.receiverLinkCreate`, `Ird.createNewPacket`). What the header has no room for, the
source address and port, the IRD takes out of the SNSID where the ICD has put it
(`receiverLinkCreate_snsid`). The datagram comes back with its addresses, ports, lengths
and payload, and with a checksum that verifies (`createNewPacket_createIprpPacket`).
-/

namespace Iprp.Session

open Bytes OnesComplement

/-- A link whose SNSID was filled in by the ICD. -/
def HasSnsid (t : Target) (link : Link) : Prop :=
  ∃ rebootCounter, link.snsid = Icd.snsid t.order link.srcAddr link.srcPort rebootCounter

/-- The IRD finds the source address and port in the SNSID. -/
theorem receiverLinkCreate_snsid {o : ByteOrder} (header : IprpHeader) {addr : InAddr}
    {port rebootCounter : UInt16} (h : header.snsid = Icd.snsid o addr port rebootCounter)
    (currTime : ℤ) :
    (Ird.receiverLinkCreate o currTime header).srcAddr = addr ∧
      (Ird.receiverLinkCreate o currTime header).srcPort = port := by
  constructor
  · ext i hi
    simp only [Ird.receiverLinkCreate, Vector.getElem_ofFn, h]
    rw [Icd.snsid_addr o addr port rebootCounter hi]
  · simp only [Ird.receiverLinkCreate, h]
    rw [Icd.snsid_port, decode_encode o port.toNat_lt, UInt16.ofNat_toNat]

/-- A UDP datagram of the link with a 20-byte IP header: its length fits the length field
and its fields say what it is. -/
structure DatagramOf (link : Link) (datagram : List UInt8) : Prop where
  length_ge : 28 ≤ datagram.length
  length_lt : datagram.length < 65536
  srcAddr : read datagram 12 4 = link.srcAddr.toList
  destAddr : read datagram 16 4 = link.destAddr.toList
  totLen : read datagram 2 2 = encode .big 2 datagram.length
  srcPort : read datagram 20 2 = encode .big 2 link.srcPort.toNat
  destPort : read datagram 22 2 = encode .big 2 link.destPort.toNat
  udpLen : read datagram 24 2 = encode .big 2 (datagram.length - 20)

/-- The packet has the addresses, ports, lengths and payload of the datagram, and its IP
header verifies. -/
structure Restores (datagram packet : List UInt8) : Prop where
  length : packet.length = datagram.length
  srcAddr : read packet 12 4 = read datagram 12 4
  destAddr : read packet 16 4 = read datagram 16 4
  totLen : read packet 2 2 = read datagram 2 2
  checksum : ∀ o, onesSum (Ird.halfwords o packet 20) = 65535
  srcPort : read packet 20 2 = read datagram 20 2
  destPort : read packet 22 2 = read datagram 22 2
  udpLen : read packet 24 2 = read datagram 24 2
  payload : packet.drop 28 = datagram.drop 28

/-- The packet rebuilt behind outer headers from the packet of a datagram. -/
theorem restores_newPacket {t : Target} {link : Link} {seqNb : UInt32}
    {datagram outer packet newPacket : List UInt8} (hdatagram : DatagramOf link datagram)
    (houter : outer.length = 28)
    (hgroup : t.build = .multicast → read outer 16 4 = link.destAddr.toList)
    (hof : Isd.PacketOf t link seqNb (datagram.drop 28) packet)
    (hspec : Ird.NewPacket t (outer ++ packet) (Isd.linkHeader t link seqNb)
      (datagram.length - 28) link.srcAddr link.srcPort newPacket) :
    Restores datagram (newPacket.take (datagram.length - 28 + 28)) := by
  have hge : 28 ≤ datagram.length := hdatagram.length_ge
  have hlt : datagram.length < 65536 := hdatagram.length_lt
  have hlen : (datagram.drop 28).length = datagram.length - 28 := List.length_drop
  have hnewlen : newPacket.length =
      28 + iprpHeaderSize t.build + (datagram.length - 28) := by
    rw [hspec.length, List.length_append, houter, hof.length, hlen]
    omega
  have hread : ∀ off n, off + n ≤ 28 →
      read (newPacket.take (datagram.length - 28 + 28)) off n = read newPacket off n :=
    fun off n h => read_take (by omega)
  refine ⟨?_, ?_, ?_, ?_, ?_, ?_, ?_, ?_, ?_⟩
  · rw [List.length_take]
    omega
  · rw [hread 12 4 (by omega), hspec.srcAddr, hdatagram.srcAddr]
  · rw [hread 16 4 (by omega), hspec.destAddr, hdatagram.destAddr]
    cases hb : t.build with
    | unicast => simp only [Isd.linkHeader, hb]
    | multicast => exact (read_append_left (by omega)).trans (hgroup hb)
  · have htot : (UInt16.ofNat (datagram.length - 28 + 28)).toNat = datagram.length := by
      rw [Nat.sub_add_cancel hge]
      exact UInt16.toNat_ofNat_of_lt' hlt
    rw [hread 2 2 (by omega), hspec.totLen, hdatagram.totLen, htot]
  · intro o
    apply Ird.onesSum_halfwords_order (o := t.order)
    · rw [List.length_take]
      omega
    · have hhalf : Ird.halfwords t.order (newPacket.take (datagram.length - 28 + 28)) 20 =
          Ird.halfwords t.order newPacket 20 := by
        apply List.map_congr_left
        intro i hi
        have hi' : i < 20 / 2 := List.mem_range.1 hi
        rw [hread (2 * i) 2 (by omega)]
      rw [hhalf, hspec.checksum]
  · rw [hread 20 2 (by omega), hspec.srcPort, hdatagram.srcPort]
  · rw [hread 22 2 (by omega), hspec.destPort, hdatagram.destPort]
    rfl
  · have hudp : (UInt16.ofNat (datagram.length - 28 + 8)).toNat = datagram.length - 20 := by
      rw [UInt16.toNat_ofNat_of_lt' (by simp only [UInt16.size]; omega)]
      omega
    rw [hread 24 2 (by omega), hspec.udpLen, hdatagram.udpLen, hudp]
  · have hdrop : (newPacket.take (datagram.length - 28 + 28)).drop 28 =
        read newPacket 28 (datagram.length - 28) := by
      rw [List.drop_take, Nat.add_sub_cancel]
      rfl
    have hmove : read (outer ++ packet) (28 + iprpHeaderSize t.build)
        (datagram.length - 28) = read packet (iprpHeaderSize t.build)
        (datagram.length - 28) := by
      rw [read_append_right (by omega), houter, Nat.add_sub_cancel_left]
    rw [hdrop, hspec.payload, hmove, ← hlen, hof.payload]

/-- What `createIprpPacket` makes of a datagram of the link, put behind any outer headers
(with the group as the destination in the multicast build), is rebuilt as the datagram. -/
theorem createNewPacket_createIprpPacket (t : Target) {link : Link}
    (hsnsid : HasSnsid t link) {datagram : List UInt8} (hdatagram : DatagramOf link datagram)
    (heap : ℕ → UInt8) (seqNb : UInt32) {outer : List UInt8} (houter : outer.length = 28)
    (hgroup : t.build = .multicast → read outer 16 4 = link.destAddr.toList)
    (currTime : ℤ) :
    ∃ packet header payloadSize newPacket,
      Isd.createIprpPacket t link heap seqNb datagram =
        some (packet, Isd.nextSeqNb seqNb) ∧
      readHeader t (outer ++ packet) 28 = some header ∧
      payloadSize = sizeSub (outer ++ packet).length (28 + iprpHeaderSize t.build) ∧
      Ird.createNewPacket t (outer ++ packet) header payloadSize
          (Ird.receiverLinkCreate t.order currTime header).srcAddr
          (Ird.receiverLinkCreate t.order currTime header).srcPort = some newPacket ∧
      Restores datagram (newPacket.take (payloadSize + 28)) := by
  have hge : 28 ≤ datagram.length := hdatagram.length_ge
  have hlt : datagram.length < 65536 := hdatagram.length_lt
  have hlen : (datagram.drop 28).length = datagram.length - 28 := List.length_drop
  have hload : load datagram 28 (sizeSub datagram.length 28) = some (datagram.drop 28) := by
    rw [sizeSub_of_le hge (by omega), load_eq_read (by omega), Bytes.read,
      List.take_of_length_le (by omega)]
  obtain ⟨packet, hpacket, hof⟩ :=
    Isd.createIprpPacket_defined t link heap seqNb hload
  have hsize : iprpHeaderSize t.build ≤ 192 := by
    cases t.build with
    | unicast => decide
    | multicast => decide
  have htotal : (outer ++ packet).length =
      28 + iprpHeaderSize t.build + (datagram.length - 28) := by
    rw [List.length_append, houter, hof.length, hlen]
    omega
  have hpayloadSize : sizeSub (outer ++ packet).length (28 + iprpHeaderSize t.build) =
      datagram.length - 28 := by
    rw [sizeSub_of_le (by omega) (by omega)]
    omega
  have hheader : readHeader t (outer ++ packet) 28 =
      some (Isd.linkHeader t link seqNb) := by
    rw [← houter, readHeader_append]
    exact hof.header
  obtain ⟨rebootCounter, hsn⟩ := hsnsid
  obtain ⟨haddr, hport⟩ := receiverLinkCreate_snsid (o := t.order)
    (Isd.linkHeader t link seqNb) hsn currTime
  have hfit : 28 + iprpHeaderSize t.build + (datagram.length - 28) ≤
      (outer ++ packet).length := by omega
  obtain ⟨newPacket, hnew, hspec⟩ := Ird.createNewPacket_defined t
    (Isd.linkHeader t link seqNb) (datagram.length - 28) link.srcAddr link.srcPort hfit
  exact ⟨packet, Isd.linkHeader t link seqNb, datagram.length - 28, newPacket, hpacket,
    hheader, hpayloadSize.symm, by rw [haddr, hport, hnew],
    restores_newPacket hdatagram houter hgroup hof hspec⟩

/-- A link of the flow from `10.0.0.1:4000` to the group `239.0.0.1:5000`. -/
def groupLink : Link where
  srcAddr := inAddr 10 0 0 1
  destAddr := inAddr 239 0 0 1
  srcPort := 4000
  destPort := 5000
  snsid := Icd.snsid .little (inAddr 10 0 0 1) 4000 7

/-- A datagram of that flow with two bytes of payload. -/
def groupDatagram : List UInt8 :=
  [0x45, 0, 0, 30, 0, 0, 0, 0, 64, 17, 0, 0, 10, 0, 0, 1, 239, 0, 0, 1,
    0x0f, 0xa0, 0x13, 0x88, 0, 10, 0, 0, 1, 2]

theorem createNewPacket_createIprpPacket_group :
    ∃ packet header payloadSize newPacket,
      Isd.createIprpPacket ⟨.multicast, .little⟩ groupLink (fun _ => 0xff) 1 groupDatagram =
        some (packet, 2) ∧
      readHeader ⟨.multicast, .little⟩ (groupDatagram.take 28 ++ packet) 28 =
        some header ∧
      payloadSize = sizeSub (groupDatagram.take 28 ++ packet).length (28 + 188) ∧
      Ird.createNewPacket ⟨.multicast, .little⟩ (groupDatagram.take 28 ++ packet) header
          payloadSize (Ird.receiverLinkCreate .little 0 header).srcAddr
          (Ird.receiverLinkCreate .little 0 header).srcPort = some newPacket ∧
      Restores groupDatagram (newPacket.take (payloadSize + 28)) :=
  createNewPacket_createIprpPacket ⟨.multicast, .little⟩ ⟨7, rfl⟩
    ⟨by decide, by decide, by decide, by decide, by decide, by decide, by decide,
      by decide⟩ (fun _ => 0xff) 1 (by decide) (by decide) 0

end Iprp.Session
