import Iprp.Isd.Handle

/-!
# The packet the ISD creates

`createIprpPacket` is read back field by field: the packet is the header followed by the
payload of the datagram, and the header that the IRD reads in it carries the SNSID, the
sequence number and the destination of the link.
-/

namespace Iprp.Isd

open Bytes

@[simp] theorem length_malloc (heap : ℕ → UInt8) (n : ℕ) : (malloc heap n).length = n := by
  simp [malloc]

/-- The header of a link's packets. -/
def linkHeader (t : Target) (link : Link) (seqNb : UInt32) : IprpHeader where
  version := iprpVersion
  snsid := link.snsid
  seqNb := seqNb
  destPort := link.destPort
  destAddr := match t.build with
    | .unicast => link.destAddr
    | .multicast => Vector.replicate 4 0

/-- A packet of the link: its header and then the payload. -/
structure PacketOf (t : Target) (link : Link) (seqNb : UInt32) (payload packet : List UInt8) :
    Prop where
  length : packet.length = payload.length + iprpHeaderSize t.build
  header : readHeader t packet 0 = some (linkHeader t link seqNb)
  payload : read packet (iprpHeaderSize t.build) payload.length = payload

theorem iprpHeaderSize_ge (b : Build) : 188 ≤ iprpHeaderSize b := by
  cases b with
  | unicast => decide
  | multicast => decide

theorem readHeader_unicast {t : Target} (ht : t.build = .unicast) {link : Link}
    {seqNb : UInt32} {b : List UInt8} (hlen : 31 ≤ b.length)
    (hversion : read b 0 1 = [iprpVersion]) (hsnsid : read b 1 20 = link.snsid.toList)
    (hseq : read b 21 4 = encode t.order 4 seqNb.toNat)
    (hport : read b 25 2 = encode t.order 2 link.destPort.toNat)
    (haddr : read b 27 4 = link.destAddr.toList) :
    readHeader t b 0 = some (linkHeader t link seqNb) := by
  have h1 : load b 0 1 = some [iprpVersion] := by
    rw [load_eq_read (by omega), hversion]
  have h2 : loadVector b (0 + 1) 20 = some link.snsid := loadVector_eq (by omega) hsnsid
  have h3 : loadWord32 t.order b (0 + 21) = some seqNb := loadWord32_eq (by omega) hseq
  have h4 : loadWord16 t.order b (0 + 25) = some link.destPort :=
    loadWord16_eq (by omega) hport
  have h5 : loadVector b (0 + 27) 4 = some link.destAddr := loadVector_eq (by omega) haddr
  simp [readHeader, h1, h2, h3, h4, h5, ht, linkHeader]

theorem readHeader_multicast {t : Target} (ht : t.build = .multicast) {link : Link}
    {seqNb : UInt32} {b : List UInt8} (hlen : 27 ≤ b.length)
    (hversion : read b 0 1 = [iprpVersion]) (hsnsid : read b 1 20 = link.snsid.toList)
    (hseq : read b 21 4 = encode t.order 4 seqNb.toNat)
    (hport : read b 25 2 = encode t.order 2 link.destPort.toNat) :
    readHeader t b 0 = some (linkHeader t link seqNb) := by
  have h1 : load b 0 1 = some [iprpVersion] := by
    rw [load_eq_read (by omega), hversion]
  have h2 : loadVector b (0 + 1) 20 = some link.snsid := loadVector_eq (by omega) hsnsid
  have h3 : loadWord32 t.order b (0 + 21) = some seqNb := loadWord32_eq (by omega) hseq
  have h4 : loadWord16 t.order b (0 + 25) = some link.destPort :=
    loadWord16_eq (by omega) hport
  simp [readHeader, h1, h2, h3, h4, ht, linkHeader]

theorem load_of_createIprpPacket {t : Target} {link : Link} {heap : ℕ → UInt8}
    {seqNb : UInt32} {buf : List UInt8} {r : List UInt8 × UInt32}
    (h : createIprpPacket t link heap seqNb buf = some r) :
    ∃ payload, load buf 28 (sizeSub buf.length 28) = some payload := by
  simp only [createIprpPacket, ipHeaderSize, udpHeaderSize, Nat.reduceAdd,
    Option.bind_eq_bind] at h
  obtain ⟨payload, hload, _⟩ := Option.bind_eq_some_iff.1 h
  exact ⟨payload, hload⟩

/-- A datagram whose payload lies inside the buffer becomes a packet of the link. -/
theorem createIprpPacket_defined (t : Target) (link : Link) (heap : ℕ → UInt8)
    (seqNb : UInt32) {buf payload : List UInt8}
    (hload : load buf 28 (sizeSub buf.length 28) = some payload) :
    ∃ packet, createIprpPacket t link heap seqNb buf = some (packet, nextSeqNb seqNb) ∧
      PacketOf t link seqNb payload packet := by
  have hlen : sizeSub buf.length 28 = payload.length := by
    unfold load at hload
    split at hload
    · next h => rw [← Option.some.inj hload, length_read h]
    · cases hload
  have hsize : 188 ≤ iprpHeaderSize t.build := iprpHeaderSize_ge t.build
  have hb0 : (malloc heap (sizeSub buf.length 28 + iprpHeaderSize t.build)).length =
      payload.length + iprpHeaderSize t.build := by
    rw [length_malloc, hlen]
  obtain ⟨b1, h1, len1, same1, frame1⟩ :=
    store_defined (malloc heap (sizeSub buf.length 28 + iprpHeaderSize t.build))
      (iprpHeaderSize t.build) payload.length payload rfl (by omega)
  obtain ⟨b2, h2, len2, same2, frame2⟩ :=
    store_defined b1 0 1 [iprpVersion] rfl (by omega)
  obtain ⟨b3, h3, len3, same3, frame3⟩ :=
    store_defined b2 21 4 (encode t.order 4 seqNb.toNat) (by simp) (by omega)
  obtain ⟨b4, h4, len4, same4, frame4⟩ :=
    store_defined b3 25 2 (encode t.order 2 link.destPort.toNat) (by simp) (by omega)
  -- the destination address is written in the unicast build only
  have hbuild : ∃ b5, t.build.ifUnicast (store · 27 link.destAddr.toList) b4 = some b5 ∧
      b5.length = b4.length ∧
      (t.build = .unicast → read b5 27 4 = link.destAddr.toList) ∧
      ∀ off' n, off' + n ≤ 27 ∨ 27 + 4 ≤ off' → read b5 off' n = read b4 off' n := by
    cases t.build with
    | unicast =>
        obtain ⟨b5, h5, len5, same5, frame5⟩ :=
          store_defined b4 27 4 link.destAddr.toList (by simp) (by omega)
        exact ⟨b5, h5, len5, fun _ => same5, frame5⟩
    | multicast => exact ⟨b4, rfl, rfl, fun h => Build.noConfusion h, fun _ _ _ => rfl⟩
  obtain ⟨b5, h5, len5, same5, frame5⟩ := hbuild
  obtain ⟨b6, h6, len6, same6, frame6⟩ :=
    store_defined b5 1 20 link.snsid.toList (by simp) (by omega)
  have hversion : read b6 0 1 = [iprpVersion] := by
    rw [frame6 0 1 (by omega), frame5 0 1 (by omega), frame4 0 1 (by omega),
      frame3 0 1 (by omega), same2]
  have hseq : read b6 21 4 = encode t.order 4 seqNb.toNat := by
    rw [frame6 21 4 (by omega), frame5 21 4 (by omega), frame4 21 4 (by omega), same3]
  have hport : read b6 25 2 = encode t.order 2 link.destPort.toNat := by
    rw [frame6 25 2 (by omega), frame5 25 2 (by omega), same4]
  refine ⟨b6, ?_, ?_, ?_, ?_⟩
  · simp only [createIprpPacket, ipHeaderSize, udpHeaderSize, Nat.reduceAdd, hload, h1, h2,
      h3, h4, h5, h6, Option.bind_eq_bind, Option.bind_some]
    rfl
  · omega
  · cases hb : t.build with
    | unicast =>
        apply readHeader_unicast hb (by omega) hversion same6 hseq hport
        rw [frame6 27 4 (by omega), same5 hb]
    | multicast => exact readHeader_multicast hb (by omega) hversion same6 hseq hport
  · rw [frame6 _ _ (by omega), frame5 _ _ (by omega), frame4 _ _ (by omega),
      frame3 _ _ (by omega), frame2 _ _ (by omega), same1]

end Iprp.Isd
