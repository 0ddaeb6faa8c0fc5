import Iprp.Library.Bytes

/-!
# Shared data of the iPRP daemons

The types of `inc/global.h` that more than one daemon uses: addresses, SNSIDs, hosts
with their interfaces, links and the iPRP header with its packed layout. The code is
built in two variants, for unicast and for multicast, and runs on hosts of either byte
order; `Target` fixes both, and the layout of the header depends on it.

An address is kept as the four bytes of its `struct in_addr`, which the code copies
and compares but never computes with. Ports are `uint16_t` values in host order, and a
`time_t` is an integer number of seconds.
-/

namespace Iprp

open Bytes

/-- The two builds: without and with `IPRP_MULTICAST`. -/
inductive Build where
  | unicast
  | multicast
  deriving DecidableEq, Repr

/-- A statement under `#ifndef IPRP_MULTICAST`. -/
def Build.ifUnicast {α : Type*} (build : Build) (f : α → Option α) (a : α) : Option α :=
  match build with
  | .unicast => f a
  | .multicast => some a

/-- What the code is compiled for. -/
structure Target where
  build : Build
  order : ByteOrder

abbrev InAddr := Vector UInt8 4

def inAddr (a b c d : UInt8) : InAddr := #v[a, b, c, d]

/-- `struct sockaddr_in`, with the port in host order. -/
structure SockAddr where
  addr : InAddr
  port : UInt16
  deriving DecidableEq

def sockaddrFill (addr : InAddr) (port : UInt16) : SockAddr := ⟨addr, port⟩

def iprpCtlPort : UInt16 := 1000

def iprpDataPort : UInt16 := 1001

abbrev Snsid := Vector UInt8 20

/-- `iprp_ind_bitmap_t`. -/
abbrev IndBitmap := BitVec 16

def iprpVersion : UInt8 := 1

structure Iface where
  ind : UInt8
  addr : InAddr
  deriving DecidableEq

/-- `iprp_host_t`: a count and a table of sixteen interfaces, of which the first
`nbIfaces` are in use. A host read from a message can claim any count. -/
structure Host where
  nbIfaces : ℕ
  ifaces : Vector Iface 16
  deriving DecidableEq

def Host.used (h : Host) : List Iface := h.ifaces.toList.take h.nbIfaces

/-- `this`, the host that `main` of the ICD builds from its arguments: between one
and sixteen interfaces, numbered in order. -/
structure LocalHost extends Host where
  nb_pos : 1 ≤ nbIfaces
  nb_le : nbIfaces ≤ 16
  ind_eq : ∀ (i : ℕ) (hi : i < 16), i < nbIfaces → ifaces[i].ind.toNat = i

theorem LocalHost.used_inds (this : LocalHost) :
    this.used.map (fun iface => iface.ind.toNat) = List.range this.nbIfaces := by
  have hle : this.nbIfaces ≤ 16 := this.nb_le
  apply List.ext_getElem
  · simp [Host.used, hle]
  · intro i hi hi'
    have hlt : i < this.nbIfaces := by simpa using hi'
    rw [List.getElem_map, List.getElem_range]
    simpa [Host.used] using this.ind_eq i (by omega) hlt

structure Link where
  srcAddr : InAddr
  destAddr : InAddr
  srcPort : UInt16
  destPort : UInt16
  snsid : Snsid
  deriving DecidableEq

/-- `iprp_peerbase_t`, what the ICD hands to an ISD. -/
structure Peerbase where
  link : Link
  host : Host
  inds : IndBitmap
  /-- Present in the unicast build only. -/
  destAddr : Vector InAddr 16
  deriving DecidableEq

/-- The matching INDs between the given host and INDs. -/
def indMatch (sender : Host) (receiverInds : IndBitmap) : IndBitmap :=
  sender.used.foldl (fun b iface => b ||| (1#16 <<< iface.ind.toNat)) 0#16 &&&
    receiverInds

/-! ## The iPRP header

`iprp_header_t` is packed, so its fields lie one after the other. The multicast build
has no destination address in it. The fields `ind` and `hmac` are never written nor
read; they only take their room. -/

/-- `iprp_header_t`, as far as it is read. -/
structure IprpHeader where
  version : UInt8
  snsid : Snsid
  seqNb : UInt32
  destPort : UInt16
  /-- Present in the unicast build only. -/
  destAddr : InAddr
  deriving DecidableEq

/-- `sizeof(iprp_header_t)`. -/
def iprpHeaderSize : Build → ℕ
  | .unicast => 192
  | .multicast => 188

def ipHeaderSize : ℕ := 20

def udpHeaderSize : ℕ := 8

/-- `size_t` subtraction. -/
def sizeSub (a b : ℕ) : ℕ := (a + 2 ^ 64 - b) % 2 ^ 64

theorem sizeSub_of_le {a b : ℕ} (hle : b ≤ a) (hlt : a < 2 ^ 64) : sizeSub a b = a - b := by
  unfold sizeSub
  omega

/-- The vector of the `n` bytes at an offset, absent when they do not all lie inside. -/
def loadVector (b : List UInt8) (off n : ℕ) : Option (Vector UInt8 n) :=
  (load b off n).bind fun bs =>
    if h : bs.length = n then some ⟨bs.toArray, by simpa using h⟩ else none

/-- The 16-bit word at an offset, in host order. -/
def loadWord16 (o : ByteOrder) (b : List UInt8) (off : ℕ) : Option UInt16 :=
  (load b off 2).map fun bs => UInt16.ofNat (decode o bs)

/-- The 32-bit word at an offset, in host order. -/
def loadWord32 (o : ByteOrder) (b : List UInt8) (off : ℕ) : Option UInt32 :=
  (load b off 4).map fun bs => UInt32.ofNat (decode o bs)

/-- The bytes of a 16-bit word as they lie in memory. -/
def word16Bytes (o : ByteOrder) (x : UInt16) : Vector UInt8 2 :=
  ⟨(encode o 2 x.toNat).toArray, by simp⟩

theorem loadVector_eq {b : List UInt8} {off n : ℕ} {v : Vector UInt8 n}
    (h : off + n ≤ b.length) (hv : read b off n = v.toList) :
    loadVector b off n = some v := by
  rw [loadVector, load_eq_read h, hv, Option.bind_some, dif_pos (by simp)]
  exact congrArg some (Vector.toArray_inj.1 (Array.toArray_toList ..))

theorem loadWord16_eq {o : ByteOrder} {b : List UInt8} {off : ℕ} {x : UInt16}
    (h : off + 2 ≤ b.length) (hx : read b off 2 = encode o 2 x.toNat) :
    loadWord16 o b off = some x := by
  rw [loadWord16, load_eq_read h, hx, Option.map_some, decode_encode o x.toNat_lt]
  simp

theorem loadWord32_eq {o : ByteOrder} {b : List UInt8} {off : ℕ} {x : UInt32}
    (h : off + 4 ≤ b.length) (hx : read b off 4 = encode o 4 x.toNat) :
    loadWord32 o b off = some x := by
  rw [loadWord32, load_eq_read h, hx, Option.map_some, decode_encode o x.toNat_lt]
  simp

theorem loadVector_defined (b : List UInt8) (off n : ℕ) (h : off + n ≤ b.length) :
    ∃ v, loadVector b off n = some v := by
  rw [loadVector, load_eq_read h, Option.bind_some, dif_pos (length_read h)]
  exact ⟨_, rfl⟩

theorem loadWord16_defined (o : ByteOrder) (b : List UInt8) (off : ℕ) (h : off + 2 ≤ b.length) :
    ∃ x, loadWord16 o b off = some x := by
  rw [loadWord16, load_eq_read h]
  exact ⟨_, rfl⟩

theorem loadWord32_defined (o : ByteOrder) (b : List UInt8) (off : ℕ) (h : off + 4 ≤ b.length) :
    ∃ x, loadWord32 o b off = some x := by
  rw [loadWord32, load_eq_read h]
  exact ⟨_, rfl⟩

/-- The header at offset `off` of a buffer, absent when one of the fields that are
read does not lie inside. -/
def readHeader (t : Target) (b : List UInt8) (off : ℕ) : Option IprpHeader := do
  let version ← load b off 1
  let snsid ← loadVector b (off + 1) 20
  let seqNb ← loadWord32 t.order b (off + 21)
  let destPort ← loadWord16 t.order b (off + 25)
  let destAddr ← match t.build with
    | .unicast => loadVector b (off + 27) 4
    | .multicast => some (Vector.replicate 4 0)
  return {
    version := version.headD 0
    snsid := snsid
    seqNb := seqNb
    destPort := destPort
    destAddr := destAddr }

/-- A header after a prefix is read as without the prefix. -/
theorem readHeader_append (t : Target) (a b : List UInt8) :
    readHeader t (a ++ b) a.length = readHeader t b 0 := by
  have hload : ∀ k n, load (a ++ b) (a.length + k) n = load b (0 + k) n := by
    intro k n
    rw [load_append_right, Nat.zero_add]
  have hload0 : load (a ++ b) a.length 1 = load b 0 1 := hload 0 1
  simp only [readHeader, loadVector, loadWord16, loadWord32, hload, hload0]

end Iprp
