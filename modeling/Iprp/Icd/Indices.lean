import Iprp.Icd.ControlLoop

/-!
# The indices of the control handlers

A control message that creates an entry is copied interface by interface: the count of the
message bounds the loops, and in the unicast build the IND of an interface is an index as well.
The control routine checks the size and the secret of a message and neither of these. The
handlers stay inside their tables exactly on the messages of `FitsTables`
(`tables_safe_iff`), and these are the messages on which they have a defined result
(`handleMessage_defined_iff`).
-/

namespace Iprp.Icd

open Bytes KeyedList

def iprpMaxIface : ℕ := 16

def iprpMaxInds : ℕ := 16

/-- The tables that are indexed while an entry is created. -/
inductive Table where
  /-- `msg->receiver.ifaces`. -/
  | receiverIfaces
  /-- `base->dest_addr`. -/
  | destAddr
  /-- `msg->host.ifaces`. -/
  | hostIfaces
  /-- `new_sender->ifaces`. -/
  | senderIfaces
  /-- `new_sender->host_addr`. -/
  | hostAddr
  deriving DecidableEq

/-- The declared sizes. -/
def Table.size : Table → ℕ
  | .receiverIfaces => iprpMaxIface
  | .destAddr => iprpMaxInds
  | .hostIfaces => iprpMaxIface
  | .senderIfaces => iprpMaxIface
  | .hostAddr => iprpMaxIface

structure Access where
  table : Table
  index : ℕ
  deriving DecidableEq

def Access.Inside (a : Access) : Prop := a.index < a.table.size

/-- The accesses of one turn of the loop of `create_base`. What lies behind the table of the
message is unknown, and with it the IND that is read there. -/
def storeAddrAccesses (receiver : Host) (i : ℕ) : List Access :=
  ⟨.receiverIfaces, i⟩ ::
    (receiver.ifaces[i]?.map fun iface => ⟨.destAddr, iface.ind.toNat⟩).toList

def createBaseAccesses (build : Build) (msg : CapMsg) : List Access :=
  match build with
  | .unicast => (List.range msg.receiver.nbIfaces).flatMap (storeAddrAccesses msg.receiver)
  | .multicast => []

/-- The accesses of one turn of the loop of `create_sender_ifaces`. -/
def copyIfaceAccesses (this : Host) (host : Host) (i : ℕ) : List Access :=
  [⟨.hostIfaces, i⟩, ⟨.senderIfaces, i⟩] ++
    ((host.ifaces[i]?.bind fun iface => localAddr this iface.ind).map fun _ =>
      ⟨.hostAddr, i⟩).toList

def createSenderIfacesAccesses (this : Host) (msg : AckMsg) : List Access :=
  (List.range msg.host.nbIfaces).flatMap (copyIfaceAccesses this msg.host)

/-- The accesses that handling a message makes. -/
def messageAccesses (c : Config) (s : Control) : Message → List Access
  | .cap msg =>
      match peerbaseQuery msg s.peerbases with
      | some _ => []
      | none =>
          if indMatch c.this.toHost msg.inds ≠ 0 then createBaseAccesses c.target.build msg
          else []
  | .ack msg =>
      if (lookup SenderIfaces.key msg.key s.senderIfaces).isSome then []
      else createSenderIfacesAccesses c.this.toHost msg
  | .other => []

/-- A message that creates an entry has at most sixteen interfaces, and in the unicast build
each IND in use is below sixteen. -/
def FitsTables (c : Config) (s : Control) : Message → Prop
  | .cap msg => peerbaseQuery msg s.peerbases = none → indMatch c.this.toHost msg.inds ≠ 0 →
      c.target.build = .unicast →
      msg.receiver.nbIfaces ≤ 16 ∧ ∀ iface ∈ msg.receiver.used, iface.ind.toNat < 16
  | .ack msg => lookup SenderIfaces.key msg.key s.senderIfaces = none → msg.host.nbIfaces ≤ 16
  | .other => True

theorem nbIfaces_le_of_inside {n : ℕ} {accesses : ℕ → List Access} (table : Table)
    (htable : table.size = 16) (hmem : ∀ i, ⟨table, i⟩ ∈ accesses i)
    (h : ∀ a ∈ (List.range n).flatMap accesses, a.Inside) : n ≤ 16 := by
  by_contra hlt
  have hinside : (Access.mk table 16).Inside :=
    h _ (List.mem_flatMap.2 ⟨16, List.mem_range.2 (by omega), hmem 16⟩)
  rw [Access.Inside, htable] at hinside
  exact absurd hinside (Nat.lt_irrefl 16)

theorem createBaseAccesses_inside_iff (msg : CapMsg) :
    (∀ a ∈ createBaseAccesses .unicast msg, a.Inside) ↔
      msg.receiver.nbIfaces ≤ 16 ∧ ∀ iface ∈ msg.receiver.used, iface.ind.toNat < 16 := by
  constructor
  · intro h
    have hnb : msg.receiver.nbIfaces ≤ 16 :=
      nbIfaces_le_of_inside .receiverIfaces rfl (fun i => List.mem_cons_self) h
    refine ⟨hnb, ?_⟩
    intro iface hiface
    obtain ⟨i, hi, rfl⟩ := List.mem_take_iff_getElem.1 hiface
    have hlt : i < msg.receiver.nbIfaces ∧ i < 16 := by
      rw [Vector.length_toList] at hi
      omega
    refine h ⟨.destAddr, _⟩ (List.mem_flatMap.2 ⟨i, List.mem_range.2 hlt.1, ?_⟩)
    rw [storeAddrAccesses, Vector.getElem?_eq_getElem hlt.2]
    simp
  · rintro ⟨hnb, hinds⟩ a ha
    obtain ⟨i, hi, ha⟩ := List.mem_flatMap.1 ha
    have hlt : i < msg.receiver.nbIfaces := List.mem_range.1 hi
    have hi16 : i < 16 := lt_of_lt_of_le hlt hnb
    rw [storeAddrAccesses, Vector.getElem?_eq_getElem hi16] at ha
    rcases List.mem_cons.1 ha with rfl | ha
    · exact hi16
    · obtain rfl := List.mem_singleton.1 ha
      refine hinds _ (List.mem_take_iff_getElem.2 ⟨i, ?_, Vector.getElem_toList _⟩)
      rw [Vector.length_toList]
      omega

theorem createSenderIfacesAccesses_inside_iff (this : Host) (msg : AckMsg) :
    (∀ a ∈ createSenderIfacesAccesses this msg, a.Inside) ↔ msg.host.nbIfaces ≤ 16 := by
  constructor
  · intro h
    exact nbIfaces_le_of_inside .hostIfaces rfl
      (fun i => List.mem_append_left _ List.mem_cons_self) h
  · intro hnb a ha
    obtain ⟨i, hi, ha⟩ := List.mem_flatMap.1 ha
    have hi16 : i < 16 := lt_of_lt_of_le (List.mem_range.1 hi) hnb
    rcases List.mem_append.1 ha with ha | ha
    · rcases List.mem_cons.1 ha with rfl | ha
      · exact hi16
      · obtain rfl := List.mem_singleton.1 ha
        exact hi16
    · obtain ⟨addr, -, rfl⟩ := Option.map_eq_some_iff.1 (Option.mem_toList.1 ha)
      exact hi16

theorem messageAccesses_inside_iff (c : Config) (s : Control) (msg : Message) :
    (∀ a ∈ messageAccesses c s msg, a.Inside) ↔ FitsTables c s msg := by
  have hnone : ∀ a ∈ ([] : List Access), a.Inside := fun a ha => by cases ha
  cases msg with
  | cap msg =>
      unfold messageAccesses FitsTables
      dsimp only
      cases hquery : peerbaseQuery msg s.peerbases with
      | some base => exact iff_of_true hnone fun h => by cases h
      | none =>
          dsimp only
          split
          · next hmatch =>
              cases hbuild : c.target.build with
              | unicast =>
                  rw [createBaseAccesses_inside_iff]
                  exact ⟨fun h _ _ _ => h, fun h => h rfl hmatch rfl⟩
              | multicast => exact iff_of_true hnone fun _ _ h => by cases h
          · next hmatch => exact iff_of_true hnone fun _ h => absurd h hmatch
  | ack msg =>
      unfold messageAccesses FitsTables
      dsimp only
      cases hlookup : lookup SenderIfaces.key msg.key s.senderIfaces with
      | some entry => exact iff_of_true hnone fun h => by cases h
      | none =>
          rw [Option.isSome_none, if_neg Bool.false_ne_true,
            createSenderIfacesAccesses_inside_iff]
          exact ⟨fun h _ => h, fun h => h rfl⟩
  | other => exact iff_of_true hnone trivial

/-- On every datagram: the handler of its message stays inside the tables if and only if the
message creates no entry, or has at most sixteen interfaces and, in the unicast build, no IND in
use from sixteen on. -/
theorem tables_safe_iff (c : Config) (s : Control) (datagram : List UInt8) :
    (∀ a ∈ messageAccesses c s (messageOf c.target (received c.target datagram)), a.Inside) ↔
      FitsTables c s (messageOf c.target (received c.target datagram)) :=
  messageAccesses_inside_iff c s _

/-- A CAP of the unicast build as `capDatagram`, but with the IND `16`. -/
def strayIndDatagram : List UInt8 := capDatagram.set 24 16

/-- The IND `16` of a CAP is used as an index into `dest_addr`. -/
theorem stray_ind_outside :
    ¬ ∀ (c : Config) (s : Control) (datagram : List UInt8),
      passesCheck c.target datagram = true →
      ∀ a ∈ messageAccesses c s (messageOf c.target (received c.target datagram)), a.Inside := by
  intro h
  have hinside := h (smallConfig .unicast) Control.init strayIndDatagram (by decide +kernel)
    ⟨.destAddr, 16⟩ (by decide +kernel)
  exact absurd hinside (Nat.lt_irrefl 16)

/-! ## Definedness -/

theorem foldlM_storeAddr_defined_iff (ifaces : List Iface) (destAddr : Vector InAddr 16) :
    (∃ destAddr', ifaces.foldlM storeAddr destAddr = some destAddr') ↔
      ∀ iface ∈ ifaces, iface.ind.toNat < 16 := by
  induction ifaces generalizing destAddr with
  | nil => exact iff_of_true ⟨destAddr, rfl⟩ fun iface h => by cases h
  | cons iface ifaces ih =>
      rw [List.forall_mem_cons, List.foldlM_cons]
      by_cases hind : iface.ind.toNat < 16
      · rw [storeAddr, dif_pos hind, and_iff_right hind]
        exact ih _
      · rw [storeAddr, dif_neg hind]
        refine iff_of_false ?_ fun h => hind h.1
        rintro ⟨destAddr', h⟩
        cases h

theorem createBase_defined_iff (c : Config) (currTime : ℤ) (heap : Heap) (msg : CapMsg)
    (matchingInds : IndBitmap) (s : Control) :
    (∃ base, createBase c currTime heap msg matchingInds s = some base) ↔
      (c.target.build = .unicast →
        msg.receiver.nbIfaces ≤ 16 ∧ ∀ iface ∈ msg.receiver.used, iface.ind.toNat < 16) := by
  have hbase : (∃ base, createBase c currTime heap msg matchingInds s = some base) ↔
      ∃ destAddr, c.target.build.ifUnicast (storeAddrs msg.receiver) heap.addrs =
        some destAddr := by
    rw [createBase]
    cases c.target.build.ifUnicast (storeAddrs msg.receiver) heap.addrs with
    | none => exact iff_of_false (fun ⟨base, h⟩ => by cases h) (fun ⟨destAddr, h⟩ => by cases h)
    | some destAddr => exact iff_of_true ⟨_, rfl⟩ ⟨_, rfl⟩
  rw [hbase]
  cases c.target.build with
  | multicast => exact iff_of_true ⟨heap.addrs, rfl⟩ fun h => by cases h
  | unicast =>
      rw [Build.ifUnicast, storeAddrs]
      split
      · next hnb =>
          rw [foldlM_storeAddr_defined_iff]
          exact ⟨fun h _ => ⟨hnb, h⟩, fun h => (h rfl).2⟩
      · next hnb =>
          refine iff_of_false ?_ fun h => hnb (h rfl).1
          rintro ⟨destAddr, h⟩
          cases h

/-- Handling a message is defined exactly when it stays inside the tables. -/
theorem handleMessage_defined_iff (c : Config) (currTime : ℤ) (heap : Heap) (msg : Message)
    (s : Control) :
    (∃ s', handleMessage c currTime heap msg s = some s') ↔ FitsTables c s msg := by
  cases msg with
  | cap msg =>
      unfold handleMessage handleCap FitsTables
      dsimp only
      cases hquery : peerbaseQuery msg s.peerbases with
      | some base => exact iff_of_true ⟨_, rfl⟩ fun h => by cases h
      | none =>
          dsimp only
          split
          · next hmatch =>
              have hdefined := createBase_defined_iff c currTime heap msg
                (indMatch c.this.toHost msg.inds) s
              constructor
              · rintro ⟨s', h⟩ _ _ hbuild
                obtain ⟨base, hbase, -⟩ := Option.map_eq_some_iff.1 h
                exact hdefined.1 ⟨base, hbase⟩ hbuild
              · intro h
                obtain ⟨base, hbase⟩ := hdefined.2 fun hbuild => h rfl hmatch hbuild
                exact ⟨_, Option.map_eq_some_iff.2 ⟨base, hbase, rfl⟩⟩
          · next hmatch => exact iff_of_true ⟨_, rfl⟩ fun _ h => absurd h hmatch
  | ack msg =>
      unfold handleMessage handleAck FitsTables inSenderIfaces
      dsimp only
      cases hlookup : lookup SenderIfaces.key msg.key s.senderIfaces with
      | some entry => exact iff_of_true ⟨_, rfl⟩ fun h => by cases h
      | none =>
          rw [Option.isSome_none, if_neg Bool.false_ne_true, createSenderIfaces]
          split
          · next hnb => exact iff_of_true ⟨_, rfl⟩ fun _ => hnb
          · next hnb =>
              refine iff_of_false ?_ fun h => hnb (h rfl)
              rintro ⟨s', h⟩
              cases h
  | other => exact iff_of_true ⟨s, rfl⟩ trivial

end Iprp.Icd
