import Iprp.Isd.Copies
import Iprp.Isd.Packet
import Iprp.Library.Run
import Mathlib.Data.List.Induction
import Mathlib.Logic.Function.Iterate

/-!
# Failing interfaces

A run of the ISD over datagrams, each with the peerbase cached at the time and the answers
of `sendto` for the interfaces. A failed `sendto` makes `handle_packet` exit, so the copies
of a datagram end at the first interface that fails and no later datagram is handled.
The failure of one path stays without consequences for the others exactly in the runs in
which no matched interface fails (`run_independent_iff`).
-/

namespace Iprp.Isd

open Bytes

/-- A datagram taken off the queue: an IP packet with its UDP header, and what its handling
depends on. The local host and its INDs fit the tables of the ISD. -/
structure Datagram where
  base : Peerbase
  heap : ℕ → UInt8
  currTime : ℤ
  sendto : ℕ → Bool
  buf : List UInt8
  headers_le : 28 ≤ buf.length
  length_le : buf.length ≤ 65535
  nbIfaces_le : base.host.nbIfaces ≤ 16
  ind_lt : ∀ iface ∈ base.host.used, iface.ind.toNat < 16

/-- The ISD while it handles its queue: the outcomes of the datagrams handled so far. A
daemon that has exited leaves the datagrams in the queue. -/
structure Daemon where
  state : State
  alive : Bool
  outcomes : List Outcome

def Daemon.init : Daemon := ⟨Isd.init, true, []⟩

def daemonStep (t : Target) (d : Daemon) (g : Datagram) : Option Daemon :=
  if d.alive then
    (handlePacket t g.base g.heap g.currTime g.sendto g.buf d.state).map
      fun (out, s) => ⟨s, out.alive, d.outcomes ++ [out]⟩
  else some d

def run (t : Target) (gs : List Datagram) : Option Daemon :=
  Run.runFrom (daemonStep t) Daemon.init gs

/-! ## Independent paths -/

/-- Whether the IND of an interface is in the peerbase. -/
def matched (base : Peerbase) (iface : Iface) : Bool := base.inds.getLsbD iface.ind.toNat

/-- The copy for an interface. -/
def copyOf (build : Build) (base : Peerbase) (iface : Iface) : Option Copy :=
  (copyAddr build base iface).map fun addr => ⟨iface.ind, sockaddrFill addr iprpDataPort⟩

/-- One copy for each matched interface. -/
def copiesOf (build : Build) (base : Peerbase) (ifaces : List Iface) : List Copy :=
  (ifaces.filter (matched base)).filterMap (copyOf build base)

/-- The answers of `sendto` for the matched ones of some interfaces numbered from `n`. -/
def answersFrom (base : Peerbase) (sendto : ℕ → Bool) (n : ℕ) (ifaces : List Iface) :
    List Bool :=
  ((ifaces.zipIdx n).filter fun p => matched base p.1).map fun p => sendto p.2

def Datagram.answers (g : Datagram) : List Bool :=
  answersFrom g.base g.sendto 0 g.base.host.used

/-- The original was dropped and none of the copies that were made got through. -/
def Lost (g : Datagram) (out : Outcome) : Prop :=
  out.verdict = .drop ∧ ∀ sent ∈ g.answers.take out.copies.length, sent = false

/-- A datagram handled as if the paths were independent: one packet, a copy of it on each
matched interface and on no other, whatever the answers, and the daemon goes on. -/
structure Independent (t : Target) (g : Datagram) (seqNb : UInt32) (out : Outcome) : Prop where
  packet : PacketOf t g.base.link seqNb (g.buf.drop 28) out.packet
  copies : out.copies = copiesOf t.build g.base g.base.host.used
  alive : out.alive = true
  lost : Lost g out → ∀ sent ∈ g.answers, sent = false

/-! ## One datagram -/

theorem shift_and_ne_zero_iff {n : ℕ} {b : IndBitmap} (hn : n < 16) :
    (1#16 <<< n) &&& b ≠ 0#16 ↔ b.getLsbD n = true := by
  constructor
  · exact getLsbD_of_shift_and_ne_zero
  · intro hbit hzero
    have h := congrArg (fun x : BitVec 16 => x.getLsbD n) hzero
    rw [BitVec.getLsbD_and, hbit] at h
    simp [hn] at h

theorem sendPacket_eq {base : Peerbase} {iface : Iface} (hind : iface.ind.toNat < 16)
    (addr : SockAddr) (sent : Bool) :
    sendPacket iface addr base.inds sent =
      if matched base iface then ([⟨iface.ind, addr⟩], sent) else ([], true) := by
  unfold sendPacket matched
  by_cases hbit : base.inds.getLsbD iface.ind.toNat = true
  · rw [if_pos ((shift_and_ne_zero_iff hind).2 hbit), if_pos hbit]
  · rw [if_neg fun h => hbit ((shift_and_ne_zero_iff hind).1 h), if_neg hbit]

theorem copyAddr_defined (build : Build) (base : Peerbase) {iface : Iface}
    (hind : iface.ind.toNat < 16) : ∃ addr, copyAddr build base iface = some addr := by
  cases build with
  | unicast => exact ⟨base.destAddr[iface.ind.toNat], by simp [copyAddr, hind]⟩
  | multicast => exact ⟨base.link.destAddr, rfl⟩

theorem answersFrom_cons (base : Peerbase) (sendto : ℕ → Bool) (n : ℕ) (iface : Iface)
    (ifaces : List Iface) :
    answersFrom base sendto n (iface :: ifaces) =
      if matched base iface then sendto n :: answersFrom base sendto (n + 1) ifaces
      else answersFrom base sendto (n + 1) ifaces := by
  unfold answersFrom
  rw [List.zipIdx_cons, List.filter_cons]
  split
  · rfl
  · rfl

theorem length_copiesOf (build : Build) {base : Peerbase} {ifaces : List Iface}
    (hind : ∀ iface ∈ ifaces, iface.ind.toNat < 16) (sendto : ℕ → Bool) (n : ℕ) :
    (copiesOf build base ifaces).length = (answersFrom base sendto n ifaces).length := by
  induction ifaces generalizing n with
  | nil => rfl
  | cons iface ifaces ih =>
      have hrest := ih (fun iface' h => hind iface' (List.mem_cons_of_mem iface h)) (n + 1)
      rw [answersFrom_cons]
      cases hmatch : matched base iface with
      | false =>
          rw [copiesOf, List.filter_cons_of_neg (by simp [hmatch])]
          exact hrest
      | true =>
          obtain ⟨addr, haddr⟩ :=
            copyAddr_defined build base (hind iface List.mem_cons_self)
          have hcopy : copyOf build base iface =
              some ⟨iface.ind, sockaddrFill addr iprpDataPort⟩ := by
            rw [copyOf, haddr, Option.map_some]
          rw [copiesOf, List.filter_cons_of_pos hmatch, List.filterMap_cons_some hcopy]
          exact congrArg (· + 1) hrest

theorem sendCopies_spec (build : Build) (base : Peerbase) (sendto : ℕ → Bool) (n : ℕ)
    {ifaces : List Iface} (hind : ∀ iface ∈ ifaces, iface.ind.toNat < 16) :
    ∃ copies alive, sendCopies build base sendto n ifaces = some (copies, alive) ∧
      (alive = true ↔ ∀ sent ∈ answersFrom base sendto n ifaces, sent = true) ∧
      (alive = true → copies = copiesOf build base ifaces) := by
  induction ifaces generalizing n with
  | nil => exact ⟨[], true, rfl, by simp [answersFrom], fun _ => rfl⟩
  | cons iface ifaces ih =>
      have hfirst : iface.ind.toNat < 16 := hind iface List.mem_cons_self
      obtain ⟨addr, haddr⟩ := copyAddr_defined build base hfirst
      obtain ⟨copies, alive, hrest, hiff, hcopies⟩ :=
        ih (n + 1) fun iface' h => hind iface' (List.mem_cons_of_mem iface h)
      rw [sendCopies, haddr, answersFrom_cons]
      simp only [Option.bind_eq_bind, Option.bind_some, sendPacket_eq hfirst, hrest]
      cases hmatch : matched base iface with
      | false =>
          refine ⟨copies, alive, by simp, by simpa using hiff, ?_⟩
          intro halive
          rw [hcopies halive, copiesOf, copiesOf, List.filter_cons_of_neg (by simp [hmatch])]
      | true =>
          have hcopy : copyOf build base iface =
              some ⟨iface.ind, sockaddrFill addr iprpDataPort⟩ := by
            rw [copyOf, haddr, Option.map_some]
          cases hsent : sendto n with
          | false => exact ⟨_, false, rfl, by simp, fun h => by cases h⟩
          | true =>
              refine ⟨_, alive, rfl, by simpa using hiff, ?_⟩
              intro halive
              rw [hcopies halive, copiesOf, copiesOf, List.filter_cons_of_pos hmatch,
                List.filterMap_cons_some hcopy]
              rfl

/-- What handling a datagram does. -/
theorem handlePacket_spec (t : Target) (g : Datagram) (s : State) :
    ∃ out s', handlePacket t g.base g.heap g.currTime g.sendto g.buf s = some (out, s') ∧
      s'.seqNb = nextSeqNb s.seqNb ∧
      PacketOf t g.base.link s.seqNb (g.buf.drop 28) out.packet ∧
      (out.alive = true ↔ ∀ sent ∈ g.answers, sent = true) ∧
      (out.alive = true → out.copies = copiesOf t.build g.base g.base.host.used) := by
  have hle : 28 ≤ g.buf.length := g.headers_le
  have hlt : g.buf.length ≤ 65535 := g.length_le
  have hsize : sizeSub g.buf.length 28 = g.buf.length - 28 := sizeSub_of_le hle (by omega)
  have hload : load g.buf 28 (sizeSub g.buf.length 28) = some (g.buf.drop 28) := by
    rw [hsize, load_eq_read (by omega), Bytes.read, List.take_of_length_le (by simp)]
  obtain ⟨packet, hpacket, hof⟩ :=
    createIprpPacket_defined t g.base.link g.heap s.seqNb hload
  obtain ⟨copies, alive, hcopies, hiff, heq⟩ :=
    sendCopies_spec t.build g.base g.sendto 0 g.ind_lt
  refine ⟨⟨(getVerdict t.build g.currTime s.lastAllowedThru).1, packet, copies, alive⟩,
    ⟨nextSeqNb s.seqNb, (getVerdict t.build g.currTime s.lastAllowedThru).2⟩, ?_, rfl, hof,
    hiff, heq⟩
  simp only [handlePacket, hpacket, hcopies, Option.bind_eq_bind, Option.bind_some]
  rfl

/-- A daemon that goes on has made all its copies, so the paths were independent. -/
theorem independent_of_alive {t : Target} {g : Datagram} {seqNb : UInt32} {out : Outcome}
    (hpacket : PacketOf t g.base.link seqNb (g.buf.drop 28) out.packet)
    (hcopies : out.copies = copiesOf t.build g.base g.base.host.used)
    (halive : out.alive = true) : Independent t g seqNb out := by
  refine ⟨hpacket, hcopies, halive, ?_⟩
  rintro ⟨_, hfailed⟩ sent hsent
  have hlength : out.copies.length = g.answers.length := by
    rw [hcopies, length_copiesOf t.build g.ind_lt g.sendto 0, Datagram.answers]
  rw [hlength, List.take_length] at hfailed
  exact hfailed sent hsent

/-! ## Runs -/

/-- The datagrams after `gs` are handled with the counter moved on once for each of `gs`,
as long as the daemon goes on. -/
structure Progress (gs : List Datagram) (d : Daemon) : Prop where
  length_le : d.outcomes.length ≤ gs.length
  length_eq : d.alive = true → d.outcomes.length = gs.length
  seqNb : d.alive = true → d.state.seqNb = nextSeqNb^[gs.length] 1

theorem progress_step {t : Target} {gs : List Datagram} {g : Datagram} {d d' : Daemon}
    (hd : Progress gs d) (h : daemonStep t d g = some d') : Progress (gs ++ [g]) d' := by
  unfold daemonStep at h
  split at h
  · next halive =>
      obtain ⟨out, s, hout, hseq, _, _, _⟩ := handlePacket_spec t g d.state
      rw [hout] at h
      obtain rfl := Option.some.inj h
      have hlength := hd.length_eq halive
      refine ⟨by simp [hlength], fun _ => by simp [hlength], fun _ => ?_⟩
      rw [List.length_append, List.length_singleton, Function.iterate_succ_apply',
        ← hd.seqNb halive]
      exact hseq
  · next hdead =>
      obtain rfl := Option.some.inj h
      have hle := hd.length_le
      exact ⟨by simp; omega, fun halive => absurd halive hdead,
        fun halive => absurd halive hdead⟩

theorem progress_run {t : Target} {gs : List Datagram} {d : Daemon}
    (h : run t gs = some d) : Progress gs d :=
  Run.runFrom_history Progress ⟨Nat.le_refl _, fun _ => rfl, fun _ => rfl⟩
    (fun _ _ _ _ _ hd hstep => progress_step hd hstep) h

theorem outcome_run {t : Target} {gs : List Datagram} {d : Daemon}
    (h : run t gs = some d) {k : ℕ} {out : Outcome} (hout : d.outcomes[k]? = some out) :
    ∃ g s s', gs[k]? = some g ∧
      handlePacket t g.base g.heap g.currTime g.sendto g.buf s = some (out, s') := by
  induction gs using List.reverseRecOn generalizing d with
  | nil =>
      obtain rfl : Daemon.init = d := Option.some.inj h
      cases hout
  | append_singleton gs g ih =>
      obtain ⟨d₀, hd₀, hstep⟩ := Run.runFrom_append_singleton_eq_some.1 h
      have hearlier : d₀.outcomes[k]? = some out → ∃ g' s s', (gs ++ [g])[k]? = some g' ∧
          handlePacket t g'.base g'.heap g'.currTime g'.sendto g'.buf s = some (out, s') := by
        intro hold
        obtain ⟨g', s, s', hg', heq⟩ := ih hd₀ hold
        have hlt : k < gs.length := (List.getElem?_eq_some_iff.1 hg').1
        exact ⟨g', s, s', by rw [List.getElem?_append_left hlt, hg'], heq⟩
      unfold daemonStep at hstep
      split at hstep
      · next halive =>
          have hlength := (progress_run hd₀).length_eq halive
          obtain ⟨⟨out', s'⟩, heq, rfl⟩ := Option.map_eq_some_iff.1 hstep
          rcases Run.getElem?_concat_cases hout with hold | ⟨rfl, rfl⟩
          · exact hearlier hold
          · rw [hlength]
            exact ⟨g, d₀.state, s', List.getElem?_concat_length, heq⟩
      · obtain rfl := Option.some.inj hstep
        exact hearlier hout

/-- The whole run is handled as if the paths were independent. -/
def AllIndependent (t : Target) (gs : List Datagram) (d : Daemon) : Prop :=
  ∀ k g, gs[k]? = some g → ∃ out, d.outcomes[k]? = some out ∧
    Independent t g (nextSeqNb^[k] 1) out

theorem run_of_answers (t : Target) {gs : List Datagram}
    (h : ∀ g ∈ gs, ∀ sent ∈ g.answers, sent = true) :
    ∃ d, run t gs = some d ∧ d.alive = true ∧ AllIndependent t gs d := by
  induction gs using List.reverseRecOn with
  | nil => exact ⟨Daemon.init, rfl, rfl, fun k g hg => by cases hg⟩
  | append_singleton gs g ih =>
      obtain ⟨d, hd, halive, hall⟩ :=
        ih fun g' hg' => h g' (List.mem_append.2 (Or.inl hg'))
      obtain ⟨out, s, hout, _, hpacket, hiff, hcopies⟩ := handlePacket_spec t g d.state
      have halive' : out.alive = true := hiff.2 (h g (by simp))
      have hprogress := progress_run hd
      have hlength := hprogress.length_eq halive
      refine ⟨⟨s, out.alive, d.outcomes ++ [out]⟩, ?_, halive', ?_⟩
      · refine Run.runFrom_append_singleton_eq_some.2 ⟨d, hd, ?_⟩
        rw [daemonStep, if_pos halive, hout]
        rfl
      · intro k g' hg'
        dsimp only
        rcases Run.getElem?_concat_cases hg' with hold | ⟨rfl, rfl⟩
        · have hlt : k < gs.length := (List.getElem?_eq_some_iff.1 hold).1
          rw [List.getElem?_append_left (by omega)]
          exact hall k g' hold
        · refine ⟨out, by rw [← hlength, List.getElem?_concat_length], ?_⟩
          rw [hprogress.seqNb halive] at hpacket
          exact independent_of_alive hpacket (hcopies halive') halive'

/-- In every run: each datagram is sent on each of its matched interfaces, whatever happens
on the others, and the ISD goes on, if and only if no `sendto` on a matched interface
fails. -/
theorem run_independent_iff (t : Target) (gs : List Datagram) :
    (∃ d, run t gs = some d ∧ AllIndependent t gs d) ↔
      ∀ g ∈ gs, ∀ sent ∈ g.answers, sent = true := by
  constructor
  · rintro ⟨d, hd, hall⟩ g hg
    obtain ⟨k, hk⟩ := List.mem_iff_getElem?.1 hg
    obtain ⟨out, hout, hindep⟩ := hall k g hk
    obtain ⟨g', s, s', hg', heq⟩ := outcome_run hd hout
    obtain rfl := Option.some.inj (hk.symm.trans hg')
    obtain ⟨out', s'', heq', _, _, hiff, _⟩ := handlePacket_spec t g s
    obtain ⟨rfl, _⟩ := Prod.mk.inj (Option.some.inj (heq.symm.trans heq'))
    exact hiff.1 hindep.alive
  · intro h
    obtain ⟨d, hd, _, hall⟩ := run_of_answers t h
    exact ⟨d, hd, hall⟩

/-- An empty UDP datagram for two matched interfaces, of which the first fails. -/
def firstFails : Datagram where
  base := {
    link := ⟨inAddr 10 0 0 1, inAddr 10 0 0 2, 4000, 5000, Vector.replicate 20 0⟩
    host := ⟨2, Vector.ofFn fun i => ⟨UInt8.ofNat i, inAddr 10 (UInt8.ofNat i) 0 1⟩⟩
    inds := 3
    destAddr := Vector.replicate 16 (inAddr 10 0 0 2) }
  heap := fun _ => 0
  currTime := 10
  sendto := fun i => i == 1
  buf := List.replicate 28 0
  headers_le := by decide
  length_le := by decide
  nbIfaces_le := by decide
  ind_lt := by decide

/-- The second interface is not tried, and the daemon is gone. -/
theorem firstFails_not_independent :
    ¬ ∀ (t : Target) (gs : List Datagram), ∃ d, run t gs = some d ∧ AllIndependent t gs d := by
  intro h
  obtain ⟨d, hd, hall⟩ := h ⟨.unicast, .little⟩ [firstFails]
  obtain ⟨out, hout, hindep⟩ := hall 0 firstFails rfl
  have hnone : ((run ⟨.unicast, .little⟩ [firstFails]).bind fun d =>
      d.outcomes[0]?.map fun out => (out.copies.length, out.alive)) = some (1, false) := by
    decide +kernel
  rw [hd, Option.bind_some, hout, Option.map_some] at hnone
  have hdead : out.alive = false := (Prod.mk.inj (Option.some.inj hnone)).2
  rw [hindep.alive] at hdead
  cases hdead

end Iprp.Isd
