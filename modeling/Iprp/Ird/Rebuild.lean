import Iprp.Ird.Handle
import Mathlib.Data.List.Induction

/-!
# The packet the IRD rebuilds

`createNewPacket` is read back field by field (`createNewPacket_defined`), and its
checksum is right: with the word of `ipChecksum` in the place of the zero check field, the
ones' complement sum of the header is `0xFFFF` (`onesSum_ipChecksum`). That sum is all
ones in one byte order exactly if it is in the other (`onesSum_halfwords_order`), so a
receiver of either kind accepts the header (`ipChecksum_valid`).
-/

namespace Iprp.Ird

open Bytes OnesComplement

/-! ## The checksum -/

theorem length_halfwords (o : ByteOrder) (b : List UInt8) (len : ℕ) :
    (halfwords o b len).length = len / 2 := by
  simp [halfwords]

theorem mem_halfwords_lt {o : ByteOrder} {b : List UInt8} {len w : ℕ}
    (hw : w ∈ halfwords o b len) : w < 65536 := by
  obtain ⟨i, _, rfl⟩ := List.mem_map.1 hw
  have hlen : (read b (2 * i) 2).length ≤ 2 := by
    rw [Bytes.read, List.length_take]
    exact Nat.min_le_left _ _
  have hpow : 256 ^ (read b (2 * i) 2).length ≤ 256 ^ 2 :=
    Nat.pow_le_pow_right (by omega) hlen
  exact lt_of_lt_of_le (decode_lt o _) hpow

/-- The accumulator of `ip_checksum` after the given words. -/
def accumulate (ws : List ℕ) : ℕ := ws.foldl (fun c w => foldCarry ((c + w) % 2 ^ 32)) 0

theorem ipChecksum_eq (o : ByteOrder) (b : List UInt8) (len : ℕ) :
    ipChecksum o b len =
      UInt16.ofNat (2 ^ 32 - 1 - foldCarry (accumulate (halfwords o b len))) := rfl

theorem accumulate_lt (ws : List ℕ) : accumulate ws < 65536 := by
  cases ws using List.reverseRecOn with
  | nil => exact Nat.succ_pos _
  | append_singleton ws w =>
      rw [accumulate, List.foldl_append]
      exact foldCarry_lt _

theorem foldl_checksum {ws : List ℕ} (hws : ∀ w ∈ ws, w < 65536) {c : ℕ}
    (hc : c < 65536) :
    ws.foldl (fun c w => foldCarry ((c + w) % 2 ^ 32)) c =
      ws.foldl (fun c w => foldCarry (c + w)) c := by
  induction ws generalizing c with
  | nil => rfl
  | cons w ws ih =>
      have hw : w < 65536 := hws w List.mem_cons_self
      have hmod : (c + w) % 2 ^ 32 = c + w := Nat.mod_eq_of_lt (by omega)
      rw [List.foldl_cons, List.foldl_cons, hmod]
      exact ih (fun w' hw' => hws w' (List.mem_cons_of_mem w hw')) (foldCarry_lt _)

theorem accumulate_halfwords (o : ByteOrder) (b : List UInt8) (len : ℕ) :
    accumulate (halfwords o b len) = foldCarry (halfwords o b len).sum := by
  have hzero : foldCarry 0 = 0 := foldCarry_of_lt (by omega)
  have hsum := foldl_foldCarry (halfwords o b len) 0
  rw [hzero, Nat.zero_add] at hsum
  exact (foldl_checksum (fun w hw => mem_halfwords_lt hw) (by omega)).trans hsum

theorem toNat_ipChecksum (o : ByteOrder) (b : List UInt8) (len : ℕ) :
    (ipChecksum o b len).toNat = 65535 - onesSum (halfwords o b len) := by
  have hlt : foldCarry (halfwords o b len).sum < 65536 := foldCarry_lt _
  rw [ipChecksum_eq, accumulate_halfwords, foldCarry_of_lt hlt, onesSum, UInt16.toNat_ofNat']
  omega

theorem halfwords_set {o : ByteOrder} {b b' : List UInt8} {len j x : ℕ}
    (hx : x < 65536) (hsame : read b' (2 * j) 2 = encode o 2 x)
    (hframe : ∀ off n, off + n ≤ 2 * j ∨ 2 * j + 2 ≤ off → read b' off n = read b off n) :
    halfwords o b' len = (halfwords o b len).set j x := by
  apply List.ext_getElem
  · rw [List.length_set, length_halfwords, length_halfwords]
  · intro i hi hi'
    rw [List.getElem_set]
    simp only [halfwords, List.getElem_map, List.getElem_range]
    split
    · next h => rw [← h, hsame, decode_encode o hx]
    · next h => rw [hframe (2 * i) 2 (by omega)]

/-- Storing the checksum of a header whose check word is zero makes it verify. -/
theorem onesSum_ipChecksum {o : ByteOrder} {b b' : List UInt8} {len j : ℕ}
    (hj : j < len / 2) (hzero : decode o (read b (2 * j) 2) = 0)
    (hsame : read b' (2 * j) 2 = encode o 2 (ipChecksum o b len).toNat)
    (hframe : ∀ off n, off + n ≤ 2 * j ∨ 2 * j + 2 ≤ off → read b' off n = read b off n) :
    onesSum (halfwords o b' len) = 65535 := by
  have hj' : j < (halfwords o b len).length := by rwa [length_halfwords]
  have hword : (halfwords o b len)[j] = 0 := by
    simp only [halfwords, List.getElem_map, List.getElem_range]
    exact hzero
  have hsum : (halfwords o b' len).sum =
      (halfwords o b len).sum + (ipChecksum o b len).toNat := by
    have hsplit : (halfwords o b len).sum =
        ((halfwords o b len).set j 0).sum := by
      rw [← hword, List.set_getElem_self]
    rw [halfwords_set (UInt16.toNat_lt _) hsame hframe, hsplit, List.sum_set,
      List.sum_set, if_pos hj', if_pos hj']
    omega
  rw [onesSum, hsum, toNat_ipChecksum]
  exact foldCarry_add_complement _

theorem word_order_add {s s' : ℕ} (x y : ℕ) (h : s % 65535 = 256 * s' % 65535) :
    (256 * x + y + s) % 65535 = 256 * (x + 256 * y + s') % 65535 := by
  have hword : 256 * (x + 256 * y + s') = 256 * x + y + 256 * s' + 65535 * y := by omega
  rw [hword, Nat.add_mul_mod_self_left, Nat.add_mod, h, ← Nat.add_mod]

theorem word_order_eq_zero {s s' : ℕ} (x y : ℕ) (h : s = 0 ↔ s' = 0) :
    256 * x + y + s = 0 ↔ x + 256 * y + s' = 0 := by omega

theorem sum_halfwords_order {b : List UInt8} {len : ℕ} (hlen : len ≤ b.length) :
    (halfwords .big b len).sum % 65535 = 256 * (halfwords .little b len).sum % 65535 ∧
      ((halfwords .big b len).sum = 0 ↔ (halfwords .little b len).sum = 0) := by
  have hwords : ∀ is : List ℕ, (∀ i ∈ is, 2 * i + 2 ≤ b.length) →
      (is.map fun i => decode .big (read b (2 * i) 2)).sum % 65535 =
        256 * (is.map fun i => decode .little (read b (2 * i) 2)).sum % 65535 ∧
      ((is.map fun i => decode .big (read b (2 * i) 2)).sum = 0 ↔
        (is.map fun i => decode .little (read b (2 * i) 2)).sum = 0) := by
    intro is his
    induction is with
    | nil => exact ⟨rfl, Iff.rfl⟩
    | cons i is ih =>
        obtain ⟨hmod, hnull⟩ := ih fun i' hi' => his i' (List.mem_cons_of_mem i hi')
        obtain ⟨x, y, hxy⟩ := List.length_eq_two.1 (length_read (his i List.mem_cons_self))
        have hbig : decode .big [x, y] = 256 * x.toNat + y.toNat := by
          simp [decode, decodeLittle, Nat.ofDigits_cons, Nat.add_comm]
        have hlittle : decode .little [x, y] = x.toNat + 256 * y.toNat := by
          simp [decode, decodeLittle, Nat.ofDigits_cons]
        simp only [List.map_cons, List.sum_cons, hxy, hbig, hlittle]
        exact ⟨word_order_add x.toNat y.toNat hmod, word_order_eq_zero x.toNat y.toNat hnull⟩
  apply hwords
  intro i hi
  have hlt : i < len / 2 := List.mem_range.1 hi
  omega

theorem onesSum_eq_iff {ws : List ℕ} :
    onesSum ws = 65535 ↔ ws.sum ≠ 0 ∧ ws.sum % 65535 = 0 := by
  rw [onesSum, foldCarry_eq]
  split <;> omega

/-- A header that verifies in one byte order verifies in the other. -/
theorem onesSum_halfwords_order {o : ByteOrder} {b : List UInt8} {len : ℕ}
    (hlen : len ≤ b.length) (h : onesSum (halfwords o b len) = 65535) (o' : ByteOrder) :
    onesSum (halfwords o' b len) = 65535 := by
  obtain ⟨hmod, hnull⟩ := sum_halfwords_order hlen
  rw [onesSum_eq_iff] at h ⊢
  cases o with
  | little =>
      cases o' with
      | little => exact h
      | big => omega
  | big =>
      cases o' with
      | little => omega
      | big => exact h

/-! ## The packet -/

/-- The headers and the payload of the packet that `create_new_packet` makes of `buf`. -/
structure NewPacket (t : Target) (buf : List UInt8) (header : IprpHeader)
    (payloadSize : ℕ) (srcAddr : InAddr) (srcPort : UInt16) (newPacket : List UInt8) :
    Prop where
  length : newPacket.length = buf.length
  srcAddr : read newPacket 12 4 = srcAddr.toList
  destAddr : read newPacket 16 4 = match t.build with
    | .unicast => header.destAddr.toList
    | .multicast => read buf 16 4
  totLen : read newPacket 2 2 = encode .big 2 (UInt16.ofNat (payloadSize + 28)).toNat
  checksum : onesSum (halfwords t.order newPacket 20) = 65535
  srcPort : read newPacket 20 2 = encode .big 2 srcPort.toNat
  destPort : read newPacket 22 2 = encode .big 2 header.destPort.toNat
  udpLen : read newPacket 24 2 = encode .big 2 (UInt16.ofNat (payloadSize + 8)).toNat
  payload : read newPacket 28 payloadSize =
    read buf (28 + iprpHeaderSize t.build) payloadSize

/-- A packet whose payload lies inside the received bytes is rebuilt. -/
theorem createNewPacket_defined (t : Target) {buf : List UInt8} (header : IprpHeader)
    (payloadSize : ℕ) (srcAddr : InAddr) (srcPort : UInt16)
    (hfit : 28 + iprpHeaderSize t.build + payloadSize ≤ buf.length) :
    ∃ newPacket, createNewPacket t buf header payloadSize srcAddr srcPort =
        some newPacket ∧
      NewPacket t buf header payloadSize srcAddr srcPort newPacket := by
  have hword : ∀ x : UInt16, (encode t.order 2 x.toNat).length = 2 :=
    fun x => length_encode t.order 2 x.toNat
  obtain ⟨b1, h1, len1, same1, frame1⟩ :=
    store_defined buf 12 4 srcAddr.toList (by simp) (by omega)
  -- the destination address is changed in the unicast build only
  have hbuild : ∃ b2,
      t.build.ifUnicast (store · 16 header.destAddr.toList) b1 = some b2 ∧
      b2.length = b1.length ∧
      (read b2 16 4 = match t.build with
        | .unicast => header.destAddr.toList
        | .multicast => read buf 16 4) ∧
      ∀ off' n, off' + n ≤ 16 ∨ 16 + 4 ≤ off' → read b2 off' n = read b1 off' n := by
    cases t.build with
    | unicast =>
        obtain ⟨b2, h2, len2, same2, frame2⟩ :=
          store_defined b1 16 4 header.destAddr.toList (by simp) (by omega)
        exact ⟨b2, h2, len2, same2, frame2⟩
    | multicast => exact ⟨b1, rfl, rfl, frame1 16 4 (by omega), fun _ _ _ => rfl⟩
  obtain ⟨b2, h2, len2, same2, frame2⟩ := hbuild
  obtain ⟨b3, h3, len3, same3, frame3⟩ :=
    store_defined b2 2 2 _
      (hword (htons t.order (UInt16.ofNat (payloadSize + 20 + 8)))) (by omega)
  obtain ⟨b4, h4, len4, same4, frame4⟩ :=
    store_defined b3 10 2 _ (hword 0) (by omega)
  obtain ⟨b5, h5, len5, same5, frame5⟩ :=
    store_defined b4 10 2 _ (hword (ipChecksum t.order b4 20)) (by omega)
  obtain ⟨b6, h6, len6, same6, frame6⟩ :=
    store_defined b5 22 2 _ (hword (htons t.order header.destPort)) (by omega)
  obtain ⟨b7, h7, len7, same7, frame7⟩ :=
    store_defined b6 20 2 _ (hword (htons t.order srcPort)) (by omega)
  obtain ⟨b8, h8, len8, same8, frame8⟩ :=
    store_defined b7 24 2 _
      (hword (htons t.order (UInt16.ofNat (payloadSize + 8)))) (by omega)
  obtain ⟨b9, h9, len9, same9, frame9⟩ :=
    store_defined b8 26 2 _ (hword 0) (by omega)
  have hload : load b9 (28 + iprpHeaderSize t.build) payloadSize =
      some (read buf (28 + iprpHeaderSize t.build) payloadSize) := by
    rw [load_eq_read (by omega), frame9 _ _ (by omega), frame8 _ _ (by omega),
      frame7 _ _ (by omega), frame6 _ _ (by omega), frame5 _ _ (by omega),
      frame4 _ _ (by omega), frame3 _ _ (by omega), frame2 _ _ (by omega),
      frame1 _ _ (by omega)]
  obtain ⟨b10, h10, len10, same10, frame10⟩ :=
    store_defined b9 28 payloadSize (read buf (28 + iprpHeaderSize t.build) payloadSize)
      (length_read (by omega)) (by omega)
  refine ⟨b10, ?_, ?_⟩
  · simp only [createNewPacket, ipHeaderSize, udpHeaderSize, Nat.reduceAdd,
      Option.bind_eq_bind, h1, h2, h3, h4, h5, h6, h7, h8, h9, h10, hload,
      Option.bind_some]
  -- after the checksum nothing inside the IP header is written
  have hip : ∀ off n, off + n ≤ 20 → read b10 off n = read b5 off n := by
    intro off n h
    rw [frame10 off n (by omega), frame9 off n (by omega), frame8 off n (by omega),
      frame7 off n (by omega), frame6 off n (by omega)]
  have hhalf : halfwords t.order b10 20 = halfwords t.order b5 20 := by
    apply List.map_congr_left
    intro i hi
    have hlt : i < 20 / 2 := List.mem_range.1 hi
    rw [hip (2 * i) 2 (by omega)]
  refine ⟨by omega, ?_, ?_, ?_, ?_, ?_, ?_, ?_, same10⟩
  · rw [hip 12 4 (by omega), frame5 12 4 (by omega), frame4 12 4 (by omega),
      frame3 12 4 (by omega), frame2 12 4 (by omega), same1]
  · rw [hip 16 4 (by omega), frame5 16 4 (by omega), frame4 16 4 (by omega),
      frame3 16 4 (by omega), same2]
  · rw [hip 2 2 (by omega), frame5 2 2 (by omega), frame4 2 2 (by omega), same3,
      encode_htons]
  · rw [hhalf]
    apply onesSum_ipChecksum (j := 5) (by omega) _ same5 frame5
    rw [same4, decode_encode t.order (by decide)]
    rfl
  · rw [frame10 20 2 (by omega), frame9 20 2 (by omega), frame8 20 2 (by omega), same7,
      encode_htons]
  · rw [frame10 22 2 (by omega), frame9 22 2 (by omega), frame8 22 2 (by omega),
      frame7 22 2 (by omega), same6, encode_htons]
  · rw [frame10 24 2 (by omega), frame9 24 2 (by omega), same8, encode_htons]

/-! ## Every rebuilt header -/

theorem length_of_store {α : Type*} {b v b' : List α} {off : ℕ} (h : store b off v = some b') :
    b'.length = b.length := by
  unfold store at h
  split at h
  · next hfit =>
      obtain rfl := Option.some.inj h
      exact length_write hfit
  · cases h

theorem fit_of_createNewPacket {t : Target} {buf newPacket : List UInt8} {header : IprpHeader}
    {payloadSize : ℕ} {srcAddr : InAddr} {srcPort : UInt16}
    (h : createNewPacket t buf header payloadSize srcAddr srcPort = some newPacket) :
    28 + iprpHeaderSize t.build + payloadSize ≤ buf.length := by
  simp only [createNewPacket, Option.bind_eq_bind, Option.bind_eq_some_iff] at h
  obtain ⟨b1, h1, b2, h2, b3, h3, b4, h4, b5, h5, b6, h6, b7, h7, b8, h8, b9, h9, payload, hload,
    -⟩ := h
  have hbuild : b2.length = b1.length := by
    cases hb : t.build with
    | unicast =>
        rw [hb] at h2
        exact length_of_store h2
    | multicast =>
        rw [hb] at h2
        rw [Option.some.inj h2]
  have hlength : b9.length = buf.length := by
    rw [length_of_store h9, length_of_store h8, length_of_store h7, length_of_store h6,
      length_of_store h5, length_of_store h4, length_of_store h3, hbuild, length_of_store h1]
  unfold load at hload
  split at hload
  · next hfit =>
      rw [hlength] at hfit
      exact hfit
  · cases hload

theorem store_ipChecksum {o : ByteOrder} {b : List UInt8} {len j : ℕ} (hlen : len ≤ b.length)
    (hj : j < len / 2) (hzero : decode o (read b (2 * j) 2) = 0) :
    ∃ b', store b (2 * j) (encode o 2 (ipChecksum o b len).toNat) = some b' ∧
      onesSum (halfwords o b' len) = 0xFFFF := by
  obtain ⟨b', hstore, -, hsame, hframe⟩ := store_defined b (2 * j) 2
    (encode o 2 (ipChecksum o b len).toNat) (length_encode o 2 _) (by omega)
  exact ⟨b', hstore, onesSum_ipChecksum hj hzero hsame hframe⟩

/-- Whatever the header, the addresses and the payload are, the header of the packet that
`create_new_packet` makes verifies, in either byte order; the packet is made whenever its payload
lies inside the received bytes. More generally, storing the result of `ip_checksum` in the place
of a zero word makes the words fold to all ones, and the accumulator never needs more than 17 of
its 32 bits. -/
theorem ipChecksum_valid :
    (∀ (t : Target) (buf : List UInt8) (header : IprpHeader) (payloadSize : ℕ)
      (srcAddr : InAddr) (srcPort : UInt16),
      28 + iprpHeaderSize t.build + payloadSize ≤ buf.length ↔
        ∃ newPacket, createNewPacket t buf header payloadSize srcAddr srcPort = some newPacket ∧
          ∀ o, onesSum (halfwords o newPacket 20) = 0xFFFF) ∧
    (∀ (o : ByteOrder) (b : List UInt8) (len j : ℕ), len ≤ b.length → j < len / 2 →
      decode o (read b (2 * j) 2) = 0 →
      ∃ b', store b (2 * j) (encode o 2 (ipChecksum o b len).toNat) = some b' ∧
        onesSum (halfwords o b' len) = 0xFFFF) ∧
    ∀ (o : ByteOrder) (b : List UInt8) (len k w : ℕ), (halfwords o b len)[k]? = some w →
      accumulate ((halfwords o b len).take k) + w < 2 ^ 17 := by
  refine ⟨?_, ?_, ?_⟩
  · intro t buf header payloadSize srcAddr srcPort
    constructor
    · intro hfit
      obtain ⟨newPacket, hnew, hpacket⟩ :=
        createNewPacket_defined t header payloadSize srcAddr srcPort hfit
      have hlength : 20 ≤ newPacket.length := by
        rw [hpacket.length]
        omega
      exact ⟨newPacket, hnew, onesSum_halfwords_order hlength hpacket.checksum⟩
    · rintro ⟨newPacket, hnew, -⟩
      exact fit_of_createNewPacket hnew
  · intro o b len j hlen hj hzero
    exact store_ipChecksum hlen hj hzero
  · intro o b len k w hw
    have hword : w < 65536 := mem_halfwords_lt (List.mem_of_getElem? hw)
    have hsum := accumulate_lt ((halfwords o b len).take k)
    omega

end Iprp.Ird
