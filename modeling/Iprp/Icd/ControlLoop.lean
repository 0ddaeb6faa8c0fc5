import Iprp.Icd.Bases

/-!
# Stray datagrams on the control socket

Dropping a malformed datagram would mean that the control routine ends in the same state
as if the datagram had never come. By `Run.runFrom_filter_iff` that is a matter of single
steps: each malformed datagram has to leave the state it meets as it is. One that fails the
check makes the loop exit; one that is too long is cut by `recvfrom`, passes the check if
its secret is right, and is then a message like any other, which changes nothing only in
the cases of `Inert`.
-/

namespace Iprp.Icd

open Bytes KeyedList

/-- A datagram with the size of an `iprp_ctlmsg_t` and with the secret. -/
def wellFormed (t : Target) (datagram : List UInt8) : Bool :=
  datagram.length == ctlmsgSize t.build && secretOf t datagram == iprpCtlmsgSecret

/-- The messages that their handler answers without any effect: a CAP without a base and
without a match, a CAP that finds its base up to date where no ACK is sent, an ACK that
finds its entry up to date, and a message of unknown type. -/
def Inert (c : Config) (currTime : ℤ) (s : Control) : Message → Prop
  | .cap msg =>
      match peerbaseQuery msg s.peerbases with
      | some base => c.target.build = .unicast ∧
          base.inds ||| indMatch c.this.toHost msg.inds = base.inds ∧
          base.lastCap = currTime
      | none => indMatch c.this.toHost msg.inds = 0
  | .ack msg => ∃ entry, lookup SenderIfaces.key msg.key s.senderIfaces = some entry ∧
      entry.lastSeen = currTime
  | .other => True

theorem updateBase_eq_self_iff {c : Config} {currTime : ℤ} {msg : CapMsg}
    {base : IcdBase} :
    updateBase c currTime msg base = base ↔
      base.inds ||| indMatch c.this.toHost msg.inds = base.inds ∧
        base.lastCap = currTime := by
  obtain ⟨link, inds, destAddr, queueId, isdPid, lastCap⟩ := base
  simp [updateBase, eq_comm]

theorem handleCap_eq_self_iff {c : Config} {currTime : ℤ} {heap : Heap} {msg : CapMsg}
    {s : Control} :
    handleCap c currTime heap msg s = some s ↔ Inert c currTime s (.cap msg) := by
  obtain ⟨peerbases, senderIfaces, rebootCounter, sent, serving⟩ := s
  unfold handleCap Inert
  cases hquery : peerbaseQuery msg peerbases with
  | some base =>
      have hupdate : update IcdBase.key msg.key (updateBase c currTime msg) peerbases =
          peerbases ↔ updateBase c currTime msg base = base := by
        rw [update_eq_self_iff]
        constructor
        · intro h
          exact h base hquery
        · intro h a ha
          obtain rfl : base = a := Option.some.inj (hquery.symm.trans ha)
          exact h
      cases hbuild : c.target.build with
      | unicast => simp [hquery, sendAck, hbuild, hupdate, updateBase_eq_self_iff]
      | multicast => simp [hquery, sendAck, hbuild]
  | none =>
      simp only [hquery]
      split
      · next hmatch =>
          -- a base is appended, if creating it does not fail
          refine iff_of_false ?_ hmatch
          intro h
          obtain ⟨base, _, heq⟩ := Option.map_eq_some_iff.1 h
          have hbases := congrArg Control.peerbases heq
          simp at hbases
      · next hmatch => exact iff_of_true rfl (not_not.1 hmatch)

theorem handleAck_eq_self_iff {c : Config} {currTime : ℤ} {heap : Heap} {msg : AckMsg}
    {s : Control} :
    handleAck c currTime heap msg s = some s ↔ Inert c currTime s (.ack msg) := by
  obtain ⟨peerbases, senderIfaces, rebootCounter, sent, serving⟩ := s
  unfold handleAck Inert inSenderIfaces
  cases hlookup : lookup SenderIfaces.key msg.key senderIfaces with
  | some entry =>
      have hupdate : update SenderIfaces.key msg.key
          (fun entry => { entry with lastSeen := currTime }) senderIfaces =
          senderIfaces ↔ entry.lastSeen = currTime := by
        rw [update_eq_self_iff]
        obtain ⟨senderAddr, groupAddr, nbIfaces, ifaces, hostAddr, lastSeen⟩ := entry
        simp [hlookup, eq_comm]
      simp [hlookup, hupdate]
  | none =>
      simp only [hlookup, Option.isSome_none, Bool.false_eq_true, if_false]
      apply iff_of_false
      · intro h
        obtain ⟨entry, _, heq⟩ := Option.map_eq_some_iff.1 h
        have hlength := congrArg (fun s => s.senderIfaces.length) heq
        simp [length_update] at hlength
      · rintro ⟨entry, h, _⟩
        cases h

theorem handleMessage_eq_self_iff {c : Config} {currTime : ℤ} {heap : Heap}
    {msg : Message} {s : Control} :
    handleMessage c currTime heap msg s = some s ↔ Inert c currTime s msg := by
  cases msg with
  | cap msg => exact handleCap_eq_self_iff
  | ack msg => exact handleAck_eq_self_iff
  | other => exact iff_of_true rfl trivial

/-! ## The check -/

theorem ctlmsgSize_pos (b : Build) : 4 ≤ ctlmsgSize b := by
  cases b with
  | unicast => decide
  | multicast => decide

theorem secretOf_received (t : Target) (datagram : List UInt8) :
    secretOf t (received t datagram) = secretOf t datagram := by
  rw [secretOf, wordAt, received, read_take (ctlmsgSize_pos t.build)]
  rfl

/-- What passes the check is long enough and has the secret. -/
theorem passesCheck_iff {t : Target} {datagram : List UInt8} :
    passesCheck t datagram = true ↔
      ctlmsgSize t.build ≤ datagram.length ∧ secretOf t datagram = iprpCtlmsgSecret := by
  have hpos : 4 ≤ ctlmsgSize t.build := ctlmsgSize_pos t.build
  have hlen : (received t datagram).length = min (ctlmsgSize t.build) datagram.length :=
    List.length_take
  simp only [passesCheck, secretOf_received, hlen, Bool.not_eq_true', Bool.or_eq_false_iff,
    bne_eq_false_iff_eq, beq_eq_false_iff_ne]
  omega

theorem wellFormed_iff {t : Target} {datagram : List UInt8} :
    wellFormed t datagram = true ↔
      datagram.length = ctlmsgSize t.build ∧ secretOf t datagram = iprpCtlmsgSecret := by
  simp [wellFormed]

/-! ## The loop -/

theorem controlRun_serving {c : Config} {arrivals : List Arrival}
    (hgood : ∀ a ∈ arrivals, wellFormed c.target a.datagram = true) {s : Control}
    (h : controlRun c arrivals = some s) : s.serving = true := by
  refine Run.runFrom_invariant (fun s => s.serving = true)
    (fun a => wellFormed c.target a.datagram = true) ?_ rfl hgood h
  intro s a s' hs ha hstep
  have hpass : passesCheck c.target a.datagram = true := by
    rw [passesCheck_iff]
    rw [wellFormed_iff] at ha
    exact ⟨le_of_eq ha.1.symm, ha.2⟩
  rw [controlStep, if_pos hs, if_pos hpass] at hstep
  rw [handleMessage_serving hstep, hs]

/-- Along every sequence of datagrams: the control routine is where it would be without
the malformed ones if and only if each malformed one is too long, has the secret and
carries a message that is inert where it arrives. -/
theorem malformed_dropped_iff (c : Config) (arrivals : List Arrival) :
    (∀ k, controlRun c (arrivals.take k) =
      controlRun c ((arrivals.take k).filter fun a => wellFormed c.target a.datagram)) ↔
    ∀ k a s, arrivals[k]? = some a → wellFormed c.target a.datagram = false →
      controlRun c (arrivals.take k) = some s →
      ctlmsgSize c.target.build < a.datagram.length ∧
        secretOf c.target a.datagram = iprpCtlmsgSecret ∧
        Inert c a.currTime s (messageOf c.target (received c.target a.datagram)) := by
  have hiff := Run.runFrom_filter_iff (controlStep c)
    (fun a => wellFormed c.target a.datagram) Control.init arrivals
  constructor
  · intro h k a s ha hbad hs
    have hself : controlStep c s a = some s := hiff.1 h k a s ha hbad hs
    have hserving : s.serving = true := by
      apply controlRun_serving (c := c) _ ((h k).symm.trans hs)
      intro a' ha'
      exact (List.mem_filter.1 ha').2
    rw [controlStep, if_pos hserving] at hself
    split at hself
    · next hpass =>
        obtain ⟨hlen, hsecret⟩ := passesCheck_iff.1 hpass
        refine ⟨lt_of_le_of_ne hlen ?_, hsecret, handleMessage_eq_self_iff.1 hself⟩
        intro hsize
        rw [wellFormed_iff.2 ⟨hsize.symm, hsecret⟩] at hbad
        cases hbad
    · -- the exit from the loop is a change of state
      have hstop := congrArg Control.serving (Option.some.inj hself)
      rw [hserving] at hstop
      cases hstop
  · intro h
    apply hiff.2
    intro k a s ha hbad hs
    obtain ⟨hlen, hsecret, hinert⟩ := h k a s ha hbad hs
    have hpass : passesCheck c.target a.datagram = true :=
      passesCheck_iff.2 ⟨le_of_lt hlen, hsecret⟩
    rw [controlStep, if_pos hpass, handleMessage_eq_self_iff.2 hinert, ite_self]

/-- A CAP of the unicast build on a little-endian host, for the flow from `10.0.0.1:4000`
to `10.0.0.2:5000`, whose receiver has the interface `10.0.0.2` with IND `0`. -/
def capDatagram : List UInt8 :=
  [0x1e, 0x39, 0xbf, 0x3d, 0, 0, 0, 0, 1, 0, 0, 0, 0, 0, 0, 0, 1, 0, 0, 0, 0, 0, 0, 0,
    0, 0, 0, 0, 10, 0, 0, 2] ++ List.replicate 120 0 ++
  [10, 0, 0, 1, 10, 0, 0, 2, 1, 0, 0xa0, 0x0f, 0x88, 0x13, 0, 0]

/-- After an empty datagram the CAP is not handled any more. -/
theorem malformed_stops_control :
    ¬ ∀ (c : Config) (arrivals : List Arrival), controlRun c arrivals =
      controlRun c (arrivals.filter fun a => wellFormed c.target a.datagram) := by
  intro h
  have hbases := congrArg (Option.map fun s => s.peerbases.length)
    (h (smallConfig .unicast) [⟨1, smallHeap, []⟩, ⟨2, smallHeap, capDatagram⟩])
  exact absurd hbases (by decide +kernel)

end Iprp.Icd
