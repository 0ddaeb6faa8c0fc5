import Iprp.Basic

/-!
# Control messages

The messages that the ICDs exchange on the control port (`inc/icd.h`). A message is sent
as the bytes of an `iprp_ctlmsg_t`, so the offsets below are those of that structure on a
64-bit host; the structure differs between the two builds, and in the multicast build the
message is a union with a type before it. The receive buffer always has the size of the
structure, and its fields are read only once it has been filled.
-/

namespace Iprp.Icd

open Bytes

def iprpCtlmsgSecret : ℕ := 0x3dbf391e

/-- `iprp_capmsg_t`. Its version field is never read. -/
structure CapMsg where
  /-- Present in the unicast build only. -/
  receiver : Host
  srcAddr : InAddr
  destAddr : InAddr
  inds : IndBitmap
  srcPort : UInt16
  destPort : UInt16
  deriving DecidableEq

/-- `iprp_ackmsg_t`, of the multicast build. -/
structure AckMsg where
  host : Host
  groupAddr : InAddr
  srcAddr : InAddr
  deriving DecidableEq

/-- Stands for the receiver in a CAP of the multicast build, which has none. -/
def absentHost : Host := ⟨0, Vector.replicate 16 ⟨0, Vector.replicate 4 0⟩⟩

/-- The INDs of a host, `ind_match(&host, -1)`. -/
def hostInds (host : Host) : IndBitmap := indMatch host (BitVec.allOnes 16)

/-- `iprp_active_sender_t`, as far as `send_cap` reads it. -/
structure ActiveSender where
  srcAddr : InAddr
  destAddr : InAddr
  srcPort : UInt16
  destPort : UInt16
  deriving DecidableEq

/-- The CAP that a receiver sends for an active sender. -/
def sendCap (build : Build) (this : Host) (sender : ActiveSender) : CapMsg where
  receiver := match build with
    | .unicast => this
    | .multicast => absentHost
  srcAddr := sender.srcAddr
  destAddr := sender.destAddr
  inds := hostInds this
  srcPort := sender.srcPort
  destPort := sender.destPort

/-- The message of an `iprp_ctlmsg_t`, by its type. -/
inductive Message where
  | cap (msg : CapMsg)
  | ack (msg : AckMsg)
  /-- A type that the switch of `control_routine` does not know. -/
  | other
  deriving DecidableEq

/-- `sizeof(iprp_ctlmsg_t)`. -/
def ctlmsgSize : Build → ℕ
  | .unicast => 168
  | .multicast => 152

/-- The word of `w` bytes at an offset. -/
def wordAt (o : ByteOrder) (b : List UInt8) (off w : ℕ) : ℕ := decode o (read b off w)

def addrAt (b : List UInt8) (off : ℕ) : InAddr := Vector.ofFn fun i => b.getD (off + i) 0

/-- An `iprp_host_t`: the count and then sixteen interfaces of eight bytes each. -/
def hostAt (o : ByteOrder) (b : List UInt8) (off : ℕ) : Host where
  nbIfaces := wordAt o b off 8
  ifaces := Vector.ofFn fun i =>
    { ind := b.getD (off + 8 + 8 * i) 0, addr := addrAt b (off + 12 + 8 * i) }

def secretOf (t : Target) (msg : List UInt8) : ℕ := wordAt t.order msg 0 4

/-- The message in a filled receive buffer. -/
def messageOf (t : Target) (msg : List UInt8) : Message :=
  match t.build with
  | .unicast => .cap
      { receiver := hostAt t.order msg 16
        srcAddr := addrAt msg 152
        destAddr := addrAt msg 156
        inds := BitVec.ofNat 16 (wordAt t.order msg 160 2)
        srcPort := UInt16.ofNat (wordAt t.order msg 162 2)
        destPort := UInt16.ofNat (wordAt t.order msg 164 2) }
  | .multicast =>
      match wordAt t.order msg 4 4 with
      | 0 => .cap
          { receiver := absentHost
            srcAddr := addrAt msg 12
            destAddr := addrAt msg 16
            inds := BitVec.ofNat 16 (wordAt t.order msg 20 2)
            srcPort := UInt16.ofNat (wordAt t.order msg 22 2)
            destPort := UInt16.ofNat (wordAt t.order msg 24 2) }
      | 1 => .ack
          { host := hostAt t.order msg 8
            groupAddr := addrAt msg 144
            srcAddr := addrAt msg 148 }
      | _ => .other

/-- What `recvfrom` puts into the buffer: a longer datagram is cut at its size. -/
def received (t : Target) (datagram : List UInt8) : List UInt8 :=
  datagram.take (ctlmsgSize t.build)

/-- The check that `control_routine` makes of what it received. -/
def passesCheck (t : Target) (datagram : List UInt8) : Bool :=
  let msg := received t datagram
  !(msg.length == 0 || msg.length != ctlmsgSize t.build ||
    secretOf t msg != iprpCtlmsgSecret)

end Iprp.Icd
