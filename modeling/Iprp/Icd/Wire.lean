import Iprp.Icd.ControlLoop

/-!
# CAPs on the wire

`send_cap` sends its message as the bytes of an `iprp_ctlmsg_t`, with the ports in host
order as all other fields. Between hosts of one byte order the control routine reads the
same message (`messageOf_capBytes`). The gaps between the fields are not written and hold
what the stack held.
-/

namespace Iprp.Icd

open Bytes

/-- The bytes of a gap. -/
def gap (stack : ℕ → UInt8) (off n : ℕ) : List UInt8 :=
  (List.range n).map fun i => stack (off + i)

/-- The bytes of an `iprp_iface_t` that lies at `off`. -/
def ifaceBytes (stack : ℕ → UInt8) (off : ℕ) (iface : Iface) : List UInt8 :=
  [iface.ind] ++ gap stack (off + 1) 3 ++ iface.addr.toList

/-- The bytes of the interfaces of a table. -/
def ifaceParts (stack : ℕ → UInt8) (off : ℕ) (ifaces : List Iface) : List (List UInt8) :=
  ifaces.mapIdx fun i iface => ifaceBytes stack (off + 8 * i) iface

/-- The fields of an `iprp_ctlmsg_t` with a CAP and the gaps between them. -/
def capPartsUnicast (o : ByteOrder) (stack : ℕ → UInt8) (msg : CapMsg) : List (List UInt8) :=
  [encode o 4 iprpCtlmsgSecret, gap stack 4 4, encode o 4 iprpVersion.toNat, gap stack 12 4,
    encode o 8 msg.receiver.nbIfaces,
    (ifaceParts stack 24 msg.receiver.ifaces.toList).flatten, msg.srcAddr.toList,
    msg.destAddr.toList, encode o 2 msg.inds.toNat, encode o 2 msg.srcPort.toNat,
    encode o 2 msg.destPort.toNat, gap stack 166 2]

/-- In the multicast build the message is in a union that has room for an ACK. -/
def capPartsMulticast (o : ByteOrder) (stack : ℕ → UInt8) (msg : CapMsg) :
    List (List UInt8) :=
  [encode o 4 iprpCtlmsgSecret, encode o 4 0, encode o 4 iprpVersion.toNat,
    msg.srcAddr.toList, msg.destAddr.toList, encode o 2 msg.inds.toNat,
    encode o 2 msg.srcPort.toNat, encode o 2 msg.destPort.toNat, gap stack 26 126]

def capParts (t : Target) (stack : ℕ → UInt8) (msg : CapMsg) : List (List UInt8) :=
  match t.build with
  | .unicast => capPartsUnicast t.order stack msg
  | .multicast => capPartsMulticast t.order stack msg

/-- The datagram that `send_cap` sends. -/
def capBytes (t : Target) (stack : ℕ → UInt8) (msg : CapMsg) : List UInt8 :=
  (capParts t stack msg).flatten

@[simp] theorem length_gap (stack : ℕ → UInt8) (off n : ℕ) : (gap stack off n).length = n := by
  simp [gap]

@[simp] theorem length_ifaceBytes (stack : ℕ → UInt8) (off : ℕ) (iface : Iface) :
    (ifaceBytes stack off iface).length = 8 := by
  simp [ifaceBytes]

theorem length_flatten_words {parts : List (List UInt8)} (h : ∀ part ∈ parts, part.length = 8) :
    parts.flatten.length = 8 * parts.length := by
  induction parts with
  | nil => rfl
  | cons part parts ih =>
      obtain ⟨hpart, hparts⟩ := List.forall_mem_cons.1 h
      rw [List.flatten_cons, List.length_append, hpart, ih hparts, List.length_cons]
      omega

theorem length_of_mem_ifaceParts {stack : ℕ → UInt8} {off : ℕ} {ifaces : List Iface} :
    ∀ part ∈ ifaceParts stack off ifaces, part.length = 8 := by
  intro part hpart
  obtain ⟨i, hi, rfl⟩ := List.mem_mapIdx.1 hpart
  exact length_ifaceBytes stack _ _

theorem length_ifaces (stack : ℕ → UInt8) (off : ℕ) (ifaces : List Iface) :
    (ifaceParts stack off ifaces).flatten.length = 8 * ifaces.length := by
  rw [length_flatten_words length_of_mem_ifaceParts, ifaceParts, List.length_mapIdx]

/-! ## Reading the fields -/

theorem addrAt_eq {b : List UInt8} {off : ℕ} {addr : InAddr}
    (h : read b off 4 = addr.toList) : addrAt b off = addr := by
  ext i hi
  have hbyte : (read b off 4)[i]? = some addr[i] := by
    rw [h]
    simp [hi]
  rw [getElem?_read, if_pos hi] at hbyte
  simp [addrAt, List.getD, hbyte]

theorem wordAt_eq {o : ByteOrder} {b : List UInt8} {off w n : ℕ} (hn : n < 256 ^ w)
    (h : read b off w = encode o w n) : wordAt o b off w = n := by
  rw [wordAt, h, decode_encode o hn]

theorem ifaceAt_eq {b : List UInt8} {off off' : ℕ} {stack : ℕ → UInt8} {iface : Iface}
    (h : read b off 8 = ifaceBytes stack off' iface) :
    Iface.mk (b.getD off 0) (addrAt b (off + 4)) = iface := by
  have hind : b[off]? = some iface.ind := by
    have hbyte := congrArg (·[0]?) h
    simpa [getElem?_read, ifaceBytes] using hbyte
  have haddr : read b (off + 4) 4 = iface.addr.toList := by
    rw [← read_read b off (by omega : 4 + 4 ≤ 8), h, ifaceBytes,
      read_append_right (by simp), Bytes.read]
    simp [List.take_of_length_le]
  rw [addrAt_eq haddr, List.getD, hind]
  rfl

theorem hostAt_eq {o : ByteOrder} {b : List UInt8} {off off' : ℕ} {stack : ℕ → UInt8}
    {host : Host} (hnb : host.nbIfaces < 256 ^ 8)
    (hcount : read b off 8 = encode o 8 host.nbIfaces)
    (htable : read b (off + 8) 128 = (ifaceParts stack off' host.ifaces.toList).flatten) :
    hostAt o b off = host := by
  obtain ⟨nbIfaces, ifaces⟩ := host
  unfold hostAt
  rw [wordAt_eq hnb hcount]
  refine congrArg (Host.mk nbIfaces) ?_
  ext i hi
  rw [Vector.getElem_ofFn]
  have hpart : read b (off + 8 + 8 * i) 8 = ifaceBytes stack (off' + 8 * i) ifaces[i] := by
    have htake : ((ifaceParts stack off' ifaces.toList).take i).flatten.length = 8 * i := by
      rw [length_flatten_words fun part hpart =>
        length_of_mem_ifaceParts part (List.mem_of_mem_take hpart), ifaceParts,
        List.length_take, List.length_mapIdx, Vector.length_toList]
      omega
    rw [← read_read b (off + 8) (by omega : 8 * i + 8 ≤ 128), htable]
    exact read_flatten (by simp [ifaceParts, hi]) htake (length_ifaceBytes _ _ _)
  have hoff : off + 12 + 8 * i = off + 8 + 8 * i + 4 := by omega
  dsimp only
  rw [hoff]
  exact ifaceAt_eq hpart

theorem length_capBytes (t : Target) (stack : ℕ → UInt8) (msg : CapMsg) :
    (capBytes t stack msg).length = ctlmsgSize t.build := by
  have hifaces := length_ifaces stack 24 msg.receiver.ifaces.toList
  rw [Vector.length_toList] at hifaces
  unfold capBytes capParts
  cases t.build with
  | unicast => simp [capPartsUnicast, hifaces, ctlmsgSize]
  | multicast => simp [capPartsMulticast, ctlmsgSize]

theorem received_capBytes (t : Target) (stack : ℕ → UInt8) (msg : CapMsg) :
    received t (capBytes t stack msg) = capBytes t stack msg := by
  rw [received, List.take_of_length_le (le_of_eq (length_capBytes t stack msg))]

theorem read_capBytes {t : Target} {stack : ℕ → UInt8} {msg : CapMsg} {parts : List (List UInt8)}
    (hparts : capParts t stack msg = parts) (i : ℕ) {off n : ℕ} {v : List UInt8}
    (h : parts[i]? = some v) (hoff : (parts.take i).flatten.length = off)
    (hn : v.length = n) : read (capBytes t stack msg) off n = v := by
  rw [capBytes, hparts]
  exact read_flatten h hoff hn

theorem passesCheck_capBytes (t : Target) (stack : ℕ → UInt8) (msg : CapMsg) :
    passesCheck t (capBytes t stack msg) = true := by
  rw [passesCheck_iff]
  refine ⟨le_of_eq (length_capBytes t stack msg).symm, ?_⟩
  have hsecret : read (capBytes t stack msg) 0 4 = encode t.order 4 iprpCtlmsgSecret := by
    refine read_capBytes rfl 0 ?_ rfl (by simp)
    unfold capParts
    cases t.build with
    | unicast => rfl
    | multicast => rfl
  exact wordAt_eq (by decide) hsecret

theorem messageOf_capBytes_unicast {t : Target} (ht : t.build = .unicast)
    (stack : ℕ → UInt8) {msg : CapMsg} (hnb : msg.receiver.nbIfaces < 256 ^ 8) :
    messageOf t (capBytes t stack msg) = .cap msg := by
  have hparts : capParts t stack msg = capPartsUnicast t.order stack msg := by
    unfold capParts
    rw [ht]
  have hifaces := length_ifaces stack 24 msg.receiver.ifaces.toList
  rw [Vector.length_toList] at hifaces
  have hpart : ∀ (i : ℕ) {off n : ℕ} {v : List UInt8},
      (capPartsUnicast t.order stack msg)[i]? = some v →
      ((capPartsUnicast t.order stack msg).take i).flatten.length = off → v.length = n →
      read (capBytes t stack msg) off n = v := read_capBytes hparts
  have hhost : hostAt t.order (capBytes t stack msg) 16 = msg.receiver :=
    hostAt_eq hnb (hpart 4 rfl (by simp [capPartsUnicast]) (by simp))
      (hpart 5 rfl (by simp [capPartsUnicast]) (by simp [hifaces]))
  have hsrc : addrAt (capBytes t stack msg) 152 = msg.srcAddr :=
    addrAt_eq (hpart 6 rfl (by simp [capPartsUnicast, hifaces]) (by simp))
  have hdest : addrAt (capBytes t stack msg) 156 = msg.destAddr :=
    addrAt_eq (hpart 7 rfl (by simp [capPartsUnicast, hifaces]) (by simp))
  have hinds : wordAt t.order (capBytes t stack msg) 160 2 = msg.inds.toNat :=
    wordAt_eq msg.inds.isLt (hpart 8 rfl (by simp [capPartsUnicast, hifaces]) (by simp))
  have hsrcPort : wordAt t.order (capBytes t stack msg) 162 2 = msg.srcPort.toNat :=
    wordAt_eq msg.srcPort.toNat_lt
      (hpart 9 rfl (by simp [capPartsUnicast, hifaces]) (by simp))
  have hdestPort : wordAt t.order (capBytes t stack msg) 164 2 = msg.destPort.toNat :=
    wordAt_eq msg.destPort.toNat_lt
      (hpart 10 rfl (by simp [capPartsUnicast, hifaces]) (by simp))
  unfold messageOf
  simp [ht, hhost, hsrc, hdest, hinds, hsrcPort, hdestPort]

theorem messageOf_capBytes_multicast {t : Target} (ht : t.build = .multicast)
    (stack : ℕ → UInt8) {msg : CapMsg} (habsent : msg.receiver = absentHost) :
    messageOf t (capBytes t stack msg) = .cap msg := by
  have hparts : capParts t stack msg = capPartsMulticast t.order stack msg := by
    unfold capParts
    rw [ht]
  have hpart : ∀ (i : ℕ) {off n : ℕ} {v : List UInt8},
      (capPartsMulticast t.order stack msg)[i]? = some v →
      ((capPartsMulticast t.order stack msg).take i).flatten.length = off → v.length = n →
      read (capBytes t stack msg) off n = v := read_capBytes hparts
  have htype : wordAt t.order (capBytes t stack msg) 4 4 = 0 :=
    wordAt_eq (by decide) (hpart 1 rfl (by simp [capPartsMulticast]) (by simp))
  have hsrc : addrAt (capBytes t stack msg) 12 = msg.srcAddr :=
    addrAt_eq (hpart 3 rfl (by simp [capPartsMulticast]) (by simp))
  have hdest : addrAt (capBytes t stack msg) 16 = msg.destAddr :=
    addrAt_eq (hpart 4 rfl (by simp [capPartsMulticast]) (by simp))
  have hinds : wordAt t.order (capBytes t stack msg) 20 2 = msg.inds.toNat :=
    wordAt_eq msg.inds.isLt (hpart 5 rfl (by simp [capPartsMulticast]) (by simp))
  have hsrcPort : wordAt t.order (capBytes t stack msg) 22 2 = msg.srcPort.toNat :=
    wordAt_eq msg.srcPort.toNat_lt (hpart 6 rfl (by simp [capPartsMulticast]) (by simp))
  have hdestPort : wordAt t.order (capBytes t stack msg) 24 2 = msg.destPort.toNat :=
    wordAt_eq msg.destPort.toNat_lt (hpart 7 rfl (by simp [capPartsMulticast]) (by simp))
  unfold messageOf
  simp [ht, htype, hsrc, hdest, hinds, hsrcPort, hdestPort, ← habsent]

/-- The CAP that a receiver sends for an active sender arrives as it was sent. -/
theorem messageOf_sendCap (t : Target) (stack : ℕ → UInt8) (this : LocalHost)
    (sender : ActiveSender) :
    messageOf t (received t (capBytes t stack (sendCap t.build this.toHost sender))) =
      .cap (sendCap t.build this.toHost sender) := by
  rw [received_capBytes]
  cases ht : t.build with
  | unicast =>
      refine messageOf_capBytes_unicast ht stack ?_
      exact lt_of_le_of_lt this.nb_le (by decide)
  | multicast => exact messageOf_capBytes_multicast ht stack rfl

end Iprp.Icd
