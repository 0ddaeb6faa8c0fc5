import Iprp.Icd.Wire

/-!
# Messages between two ICDs

A CAP and, in the multicast build, an ACK travel as the memory of an `iprp_ctlmsg_t`. A host of
the sender's byte order reads the message that was sent. On a host of the other byte order the
secret is wrong, and the check that fails ends the control routine: one message from such a host
and it handles none any more (`message_crosses`).
-/

namespace Iprp.Icd

open Bytes

/-- The fields of an `iprp_ctlmsg_t` with an ACK, which fills the union. -/
def ackParts (o : ByteOrder) (stack : ℕ → UInt8) (msg : AckMsg) : List (List UInt8) :=
  [encode o 4 iprpCtlmsgSecret, encode o 4 1, encode o 8 msg.host.nbIfaces,
    (ifaceParts stack 16 msg.host.ifaces.toList).flatten, msg.groupAddr.toList,
    msg.srcAddr.toList]

/-- The datagram that `send_ack` sends. -/
def ackBytes (o : ByteOrder) (stack : ℕ → UInt8) (msg : AckMsg) : List UInt8 :=
  (ackParts o stack msg).flatten

/-- The messages that an ICD sends. -/
inductive Sendable (build : Build) : Message → Prop
  | cap (this : LocalHost) (sender : ActiveSender) :
      Sendable build (.cap (sendCap build this.toHost sender))
  | ack (this : LocalHost) (groupAddr srcAddr : InAddr) (hbuild : build = .multicast) :
      Sendable build (.ack ⟨this.toHost, groupAddr, srcAddr⟩)

/-- The datagram of a message. -/
def messageBytes (t : Target) (stack : ℕ → UInt8) : Message → List UInt8
  | .cap msg => capBytes t stack msg
  | .ack msg => ackBytes t.order stack msg
  | .other => []

/-! ## ACKs on the wire -/

theorem length_ackBytes (o : ByteOrder) (stack : ℕ → UInt8) (msg : AckMsg) :
    (ackBytes o stack msg).length = ctlmsgSize .multicast := by
  have hifaces := length_ifaces stack 16 msg.host.ifaces.toList
  rw [Vector.length_toList] at hifaces
  simp [ackBytes, ackParts, hifaces, ctlmsgSize]

theorem messageOf_ackBytes {t : Target} (ht : t.build = .multicast) (stack : ℕ → UInt8)
    {msg : AckMsg} (hnb : msg.host.nbIfaces < 256 ^ 8) :
    messageOf t (ackBytes t.order stack msg) = .ack msg := by
  have hifaces := length_ifaces stack 16 msg.host.ifaces.toList
  rw [Vector.length_toList] at hifaces
  have hpart : ∀ (i : ℕ) {off n : ℕ} {v : List UInt8},
      (ackParts t.order stack msg)[i]? = some v →
      ((ackParts t.order stack msg).take i).flatten.length = off → v.length = n →
      read (ackBytes t.order stack msg) off n = v := by
    intro i off n v hv hoff hn
    exact read_flatten hv hoff hn
  have htype : wordAt t.order (ackBytes t.order stack msg) 4 4 = 1 :=
    wordAt_eq (by decide) (hpart 1 rfl (by simp [ackParts]) (by simp))
  have hhost : hostAt t.order (ackBytes t.order stack msg) 8 = msg.host :=
    hostAt_eq hnb (hpart 2 rfl (by simp [ackParts]) (by simp))
      (hpart 3 rfl (by simp [ackParts]) (by simp [hifaces]))
  have hgroup : addrAt (ackBytes t.order stack msg) 144 = msg.groupAddr :=
    addrAt_eq (hpart 4 rfl (by simp [ackParts, hifaces]) (by simp))
  have hsrc : addrAt (ackBytes t.order stack msg) 148 = msg.srcAddr :=
    addrAt_eq (hpart 5 rfl (by simp [ackParts, hifaces]) (by simp))
  unfold messageOf
  simp [ht, htype, hhost, hgroup, hsrc]

/-! ## The secret -/

theorem read_secret {t : Target} {m : Message} (hm : Sendable t.build m) (stack : ℕ → UInt8) :
    read (messageBytes t stack m) 0 4 = encode t.order 4 iprpCtlmsgSecret := by
  cases hm with
  | cap this sender =>
      refine read_capBytes rfl 0 ?_ rfl (by simp)
      unfold capParts
      cases t.build with
      | unicast => rfl
      | multicast => rfl
  | ack this groupAddr srcAddr _ =>
      have hpart : (ackParts t.order stack ⟨this.toHost, groupAddr, srcAddr⟩)[0]? =
          some (encode t.order 4 iprpCtlmsgSecret) := rfl
      exact read_flatten hpart rfl (by simp)

theorem length_messageBytes {t : Target} {m : Message} (hm : Sendable t.build m)
    (stack : ℕ → UInt8) : (messageBytes t stack m).length = ctlmsgSize t.build := by
  cases hm with
  | cap this sender => exact length_capBytes t stack _
  | ack this groupAddr srcAddr hbuild =>
      rw [hbuild]
      exact length_ackBytes t.order stack _

theorem decode_secret {o o' : ByteOrder} :
    decode o' (encode o 4 iprpCtlmsgSecret) = iprpCtlmsgSecret ↔ o = o' := by
  cases o <;> cases o' <;> decide

theorem passesCheck_messageBytes {build : Build} {o : ByteOrder} (o' : ByteOrder) {m : Message}
    (hm : Sendable build m) (stack : ℕ → UInt8) :
    passesCheck ⟨build, o'⟩ (messageBytes ⟨build, o⟩ stack m) = true ↔ o = o' := by
  have hsecret := read_secret (t := ⟨build, o⟩) hm stack
  have hlength := length_messageBytes (t := ⟨build, o⟩) hm stack
  rw [passesCheck_iff, secretOf, wordAt, hsecret, decode_secret, hlength]
  exact and_iff_right (le_refl _)

/-- In the byte order of the sender the message is read as it was sent. -/
theorem messageOf_messageBytes {t : Target} {m : Message} (hm : Sendable t.build m)
    (stack : ℕ → UInt8) : messageOf t (received t (messageBytes t stack m)) = m := by
  cases hm with
  | cap this sender => exact messageOf_sendCap t stack this sender
  | ack this groupAddr srcAddr hbuild =>
      have hlength : (ackBytes t.order stack ⟨this.toHost, groupAddr, srcAddr⟩).length ≤
          ctlmsgSize t.build := by
        rw [hbuild, length_ackBytes]
      rw [messageBytes, received, List.take_of_length_le hlength]
      exact messageOf_ackBytes hbuild stack (lt_of_le_of_lt this.nb_le (by decide))

/-! ## The receiver -/

theorem runFrom_controlStep_stopped (c : Config) {s : Control} (hs : s.serving = false)
    (arrivals : List Arrival) : Run.runFrom (controlStep c) s arrivals = some s := by
  induction arrivals with
  | nil => rfl
  | cons a arrivals ih =>
      rw [Run.runFrom_cons, controlStep, if_neg (by simp [hs]), Option.bind_some]
      exact ih

/-- The step of the receive loop on a message. -/
theorem controlStep_messageBytes {c : Config} {o : ByteOrder} {m : Message}
    (hm : Sendable c.target.build m) (stack : ℕ → UInt8) (currTime : ℤ) (heap : Heap)
    {s : Control} (hs : s.serving = true) :
    controlStep c s ⟨currTime, heap, messageBytes ⟨c.target.build, o⟩ stack m⟩ =
      if o = c.target.order then handleMessage c currTime heap m s
      else some { s with serving := false } := by
  have hpass : passesCheck c.target (messageBytes ⟨c.target.build, o⟩ stack m) = true ↔
      o = c.target.order := passesCheck_messageBytes c.target.order hm stack
  rw [controlStep, if_pos hs]
  by_cases ho : o = c.target.order
  · subst ho
    rw [if_pos (hpass.2 rfl), if_pos rfl]
    exact congrArg (handleMessage c currTime heap · s) (messageOf_messageBytes hm stack)
  · rw [if_neg fun h => ho (hpass.1 h), if_neg ho]

/-- Every message of an ICD to one of the same build: a receiver of the sender's byte order
handles it as it was sent and goes on, and one of the other byte order leaves its receive loop
in the state it is in, whatever else arrives later. -/
theorem message_crosses (c : Config) (o : ByteOrder) {m : Message}
    (hm : Sendable c.target.build m) (stack : ℕ → UInt8) (currTime : ℤ) (heap : Heap)
    {s : Control} (hs : s.serving = true) (arrivals : List Arrival) :
    Run.runFrom (controlStep c) s
        (⟨currTime, heap, messageBytes ⟨c.target.build, o⟩ stack m⟩ :: arrivals) =
      if o = c.target.order then
        (handleMessage c currTime heap m s).bind fun s' =>
          Run.runFrom (controlStep c) s' arrivals
      else some { s with serving := false } := by
  rw [Run.runFrom_cons, controlStep_messageBytes hm stack currTime heap hs]
  split
  · rfl
  · exact runFrom_controlStep_stopped c rfl arrivals

theorem message_crosses_ack :
    Run.runFrom (controlStep (smallConfig .multicast)) Control.init
        [⟨0, smallHeap, messageBytes ⟨.multicast, .big⟩ (fun _ => 0xff)
          (.ack ⟨smallHost.toHost, inAddr 239 0 0 1, inAddr 10 0 0 1⟩)⟩] =
      some { Control.init with serving := false } :=
  message_crosses (smallConfig .multicast) .big
    (.ack smallHost (inAddr 239 0 0 1) (inAddr 10 0 0 1) rfl) (fun _ => 0xff) 0 smallHeap rfl []

end Iprp.Icd
