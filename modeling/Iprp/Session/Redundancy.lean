import Iprp.Ird.ClosedForm
import Iprp.Ird.Receiver
import Iprp.Isd.Failures
import Iprp.Session.KeepAlive
import Iprp.Session.Stream

/-!
# Redundant paths

The point of the whole program: the ISD sends each datagram of a link as several copies, the
network may lose, repeat, delay and reorder them, and the application behind the IRD gets each
datagram of which a copy arrives exactly once and as it was (`redundancy_exactlyOnce`).

The network is described by the arrivals at the receiver (`Arrival`): copies that the ISD has
sent, in any order and any number of times, among any other iPRP traffic and the iterations of
the cleanup thread. What it is trusted for is stated in `Network`: the times, and that no
datagram comes for the first time after one that is more than `iprpDdMaxLostPackets` later.
-/

namespace Iprp.Session

open Bytes KeyedList Arrivals

/-! ## What the ISD has sent -/

/-- What the ISD made of the datagram `g`, which was the `k`-th. -/
structure SentAs (t : Target) (k : ℕ) (g : Isd.Datagram) (out : Isd.Outcome) : Prop where
  packet : Isd.PacketOf t g.base.link (Isd.nextSeqNb^[k] 1) (g.buf.drop 28) out.packet
  copies : ∀ copy ∈ out.copies, ∃ iface ∈ g.base.host.used,
    Isd.copyAddr t.build g.base iface = some copy.destAddr.addr

/-- In every run of the ISD, whatever fails: the `k`-th outcome is that of the `k`-th datagram,
with the counter moved on `k` times. -/
theorem sentAs_run {t : Target} {gs : List Isd.Datagram} {d : Isd.Daemon}
    (h : Isd.run t gs = some d) {k : ℕ} {out : Isd.Outcome} (hout : d.outcomes[k]? = some out) :
    ∃ g, gs[k]? = some g ∧ SentAs t k g out := by
  induction gs using List.reverseRecOn generalizing d with
  | nil =>
      obtain rfl : Isd.Daemon.init = d := Option.some.inj h
      cases hout
  | append_singleton gs g ih =>
      obtain ⟨d₀, hd₀, hstep⟩ := Run.runFrom_append_singleton_eq_some.1 h
      have hearlier : d₀.outcomes[k]? = some out →
          ∃ g', (gs ++ [g])[k]? = some g' ∧ SentAs t k g' out := by
        intro hold
        obtain ⟨g', hg', hsent⟩ := ih hd₀ hold
        have hlt : k < gs.length := (List.getElem?_eq_some_iff.1 hg').1
        exact ⟨g', by rw [List.getElem?_append_left hlt, hg'], hsent⟩
      unfold Isd.daemonStep at hstep
      split at hstep
      · next halive =>
          have hprogress := Isd.progress_run hd₀
          obtain ⟨⟨out', s'⟩, heq, rfl⟩ := Option.map_eq_some_iff.1 hstep
          rcases Run.getElem?_concat_cases hout with hold | ⟨rfl, rfl⟩
          · exact hearlier hold
          · obtain ⟨alive, hcopies⟩ := Isd.handlePacket_copies heq
            obtain ⟨out'', s'', heq', -, hpacket, -, -⟩ := Isd.handlePacket_spec t g d₀.state
            obtain ⟨rfl, -⟩ := Prod.mk.inj (Option.some.inj (heq.symm.trans heq'))
            rw [hprogress.seqNb halive] at hpacket
            rw [hprogress.length_eq halive]
            refine ⟨g, List.getElem?_concat_length, hpacket, fun copy hcopy => ?_⟩
            obtain ⟨iface, hiface, addr, -, haddr, rfl⟩ := Isd.mem_sendCopies hcopies copy hcopy
            exact ⟨iface, hiface, haddr⟩
      · obtain rfl := Option.some.inj hstep
        exact hearlier hout

/-! ## Arrivals -/

/-- What happens at the receiver. -/
inductive Arrival where
  /-- A copy of the packet of the `k`-th datagram comes in behind its outer headers. -/
  | copy (k : ℕ) (outer : List UInt8)
  /-- A packet of another sender comes in. -/
  | other (buf : List UInt8)
  | cleanupStart
  | cleanupIteration

structure TimedArrival where
  currTime : ℤ
  arrival : Arrival

/-- The packet that the ISD made of the `k`-th datagram. -/
def packetNb (d : Isd.Daemon) (k : ℕ) : List UInt8 :=
  ((d.outcomes[k]?).map Isd.Outcome.packet).getD []

def TimedArrival.event (d : Isd.Daemon) (a : TimedArrival) : Ird.ReceiverEvent where
  currTime := a.currTime
  action := match a.arrival with
    | .copy k outer => .packet (outer ++ packetNb d k)
    | .other buf => .packet buf
    | .cleanupStart => .cleanupStart
    | .cleanupIteration => .cleanupIteration

/-- A copy that has come in. -/
structure Received where
  currTime : ℤ
  nb : ℕ
  outer : List UInt8

/-- The copies among the arrivals. -/
def received (as : List TimedArrival) : List Received :=
  as.flatMap fun a =>
    match a.arrival with
    | .copy k outer => [⟨a.currTime, k, outer⟩]
    | .other _ => []
    | .cleanupStart => []
    | .cleanupIteration => []

/-- The outer headers of a copy that the ISD has sent: they carry the address it was sent to. -/
def SentCopy (d : Isd.Daemon) (k : ℕ) (outer : List UInt8) : Prop :=
  outer.length = 28 ∧ ∃ out, d.outcomes[k]? = some out ∧
    ∃ copy ∈ out.copies, read outer 16 4 = copy.destAddr.addr.toList

/-- A packet with room for its headers, of another SNSID and with a number in range. -/
def OtherTraffic (t : Target) (x : Snsid) (buf : List UInt8) : Prop :=
  28 + iprpHeaderSize t.build ≤ buf.length ∧ buf.length < 65536 ∧
    ∃ header, readHeader t buf 28 = some header ∧ header.snsid ≠ x ∧
      Ird.SeqInRange header.seqNb

/-- An arrival that can come from the network. -/
def Arrival.FromNetwork (t : Target) (x : Snsid) (d : Isd.Daemon) : Arrival → Prop
  | .copy k outer => SentCopy d k outer
  | .other buf => OtherTraffic t x buf
  | .cleanupStart => True
  | .cleanupIteration => True

/-- What is asked of the network and of the clock of the receiver. -/
structure Network (t : Target) (x : Snsid) (d : Isd.Daemon) (as : List TimedArrival) :
    Prop where
  arrivals : ∀ a ∈ as, a.arrival.FromNetwork t x d
  clock : as.Pairwise fun a a' => a.currTime ≤ a'.currTime
  silence : (received as).IsChain fun p q => q.currTime - p.currTime ≤ Ird.irdTExp
  skew : Skew Ird.iprpDdMaxLostPackets ((received as).map Received.nb)

/-- The packets of `x` that were handed on. -/
def handedOn (t : Target) (x : Snsid) (r : Ird.Receiver) : List (List UInt8) :=
  (r.handled.filter fun p => Ird.fromSnsid t x p.1).filterMap fun p => p.2.queued

/-! ## Copies at the receiver -/

/-- The link and the ISD of a redundant transfer. -/
structure Transfer (t : Target) (link : Link) (gs : List Isd.Datagram) (d : Isd.Daemon) :
    Prop where
  snsid : HasSnsid t link
  datagrams : ∀ g ∈ gs, g.base.link = link ∧ DatagramOf link g.buf
  count : gs.length < 2 ^ 31
  run : Isd.run t gs = some d

theorem toNat_seqNb {k : ℕ} (h : k < 2 ^ 31) : (Isd.nextSeqNb^[k] 1).toNat = k + 1 := by
  have hone : (1 : UInt32).toNat = 1 := rfl
  rw [iterate_nextSeqNb (by omega), hone, Nat.add_comm]

theorem Transfer.received {t : Target} {link : Link} {gs : List Isd.Datagram} {d : Isd.Daemon}
    (h : Transfer t link gs d) {k : ℕ} {outer : List UInt8} (hcopy : SentCopy d k outer) :
    k + 1 < 2 ^ 31 ∧ ∃ g, gs[k]? = some g ∧ DatagramOf link g.buf ∧
      Isd.PacketOf t link (Isd.nextSeqNb^[k] 1) (g.buf.drop 28) (packetNb d k) ∧
      (t.build = .multicast → read outer 16 4 = link.destAddr.toList) := by
  obtain ⟨-, out, hout, copy, hmem, hdest⟩ := hcopy
  obtain ⟨g, hg, hsent⟩ := sentAs_run h.run hout
  have hk : k < gs.length := (List.getElem?_eq_some_iff.1 hg).1
  have hcount := h.count
  obtain ⟨hlink, hdatagram⟩ := h.datagrams g (List.mem_of_getElem? hg)
  refine ⟨by omega, g, hg, hdatagram, ?_, ?_⟩
  · have hpacket := hsent.packet
    rw [hlink] at hpacket
    rw [packetNb, hout]
    exact hpacket
  · intro hb
    obtain ⟨iface, -, haddr⟩ := hsent.copies copy hmem
    unfold Isd.copyAddr at haddr
    rw [hb] at haddr
    rw [hdest, ← Option.some.inj haddr, hlink]

/-- The header of the `k`-th packet. -/
def headerNb (t : Target) (link : Link) (k : ℕ) : IprpHeader :=
  Isd.linkHeader t link (Isd.nextSeqNb^[k] 1)

/-- What the daemon and its header level see of an arrival. -/
structure Heard (t : Target) (link : Link) (d : Isd.Daemon) (a : TimedArrival)
    (e : Ird.Event) : Prop where
  toEvent : (a.event d).toEvent t = some e
  currTime : e.currTime = a.currTime
  packets : Ird.packetsOf link.snsid [e] =
    (received [a]).map fun c => (c.currTime, headerNb t link c.nb)
  bufs : (a.event d).bufs.filter (Ird.fromSnsid t link.snsid) =
    (received [a]).map fun c => c.outer ++ packetNb d c.nb
  inRange : ∀ header, e.action = .packet header → Ird.SeqInRange header.seqNb
  room : Ird.HasRoom t (a.event d)

theorem Transfer.heard {t : Target} {link : Link} {gs : List Isd.Datagram} {d : Isd.Daemon}
    (h : Transfer t link gs d) {a : TimedArrival}
    (ha : a.arrival.FromNetwork t link.snsid d) : ∃ e, Heard t link d a e := by
  obtain ⟨currTime, arrival⟩ := a
  cases arrival with
  | copy k outer =>
      have hcopy : SentCopy d k outer := ha
      obtain ⟨hk, g, hg, hdatagram, hof, -⟩ := h.received hcopy
      have hheader : readHeader t (outer ++ packetNb d k) 28 = some (headerNb t link k) := by
        rw [← hcopy.1, readHeader_append]
        exact hof.header
      have hfrom : Ird.fromSnsid t link.snsid (outer ++ packetNb d k) = true := by
        simp [Ird.fromSnsid, hheader, headerNb, Isd.linkHeader]
      have hlength : (outer ++ packetNb d k).length =
          28 + iprpHeaderSize t.build + (g.buf.length - 28) := by
        rw [List.length_append, hcopy.1, hof.length, List.length_drop]
        omega
      have hsize : iprpHeaderSize t.build ≤ 192 := by
        cases t.build with
        | unicast => decide
        | multicast => decide
      refine ⟨⟨currTime, .packet (headerNb t link k)⟩, ?_, rfl, ?_, ?_, ?_, ?_⟩
      · simp only [TimedArrival.event, Ird.ReceiverEvent.toEvent, hheader, Option.map_some]
      · exact List.filterMap_cons_some (if_pos rfl)
      · exact List.filter_cons_of_pos hfrom
      · intro header hpacket
        cases hpacket
        have hseq : (headerNb t link k).seqNb.toNat = k + 1 := toNat_seqNb (by omega)
        exact ⟨by omega, by omega⟩
      · intro buf hbuf
        cases hbuf
        have hlt := hdatagram.length_lt
        exact ⟨by omega, by omega⟩
  | other buf =>
      obtain ⟨hlen, hlt, header, hheader, hne, hrange⟩ := ha
      have hfrom : Ird.fromSnsid t link.snsid buf = false := by
        simp [Ird.fromSnsid, hheader, hne]
      refine ⟨⟨currTime, .packet header⟩, ?_, rfl, ?_, ?_, ?_, ?_⟩
      · simp only [TimedArrival.event, Ird.ReceiverEvent.toEvent, hheader, Option.map_some]
      · exact List.filterMap_cons_none (if_neg hne)
      · exact List.filter_cons_of_neg (by simp [hfrom])
      · intro header' hpacket
        cases hpacket
        exact hrange
      · intro buf' hbuf
        cases hbuf
        exact ⟨hlen, by omega⟩
  | cleanupStart =>
      refine ⟨⟨currTime, .cleanupStart⟩, rfl, rfl, rfl, rfl, ?_, ?_⟩
      · intro header hpacket
        cases hpacket
      · intro buf hbuf
        cases hbuf
  | cleanupIteration =>
      refine ⟨⟨currTime, .cleanupIteration⟩, rfl, rfl, rfl, rfl, ?_, ?_⟩
      · intro header hpacket
        cases hpacket
      · intro buf hbuf
        cases hbuf

/-- All arrivals of a run as the header level sees them. -/
structure AllHeard (t : Target) (link : Link) (d : Isd.Daemon) (as : List TimedArrival)
    (es : List Ird.Event) : Prop where
  toEvent : (as.map (TimedArrival.event d)).map (Ird.ReceiverEvent.toEvent t) = es.map some
  currTime : es.map Ird.Event.currTime = as.map TimedArrival.currTime
  packets : Ird.packetsOf link.snsid es =
    (received as).map fun c => (c.currTime, headerNb t link c.nb)
  bufs : ((as.map (TimedArrival.event d)).flatMap Ird.ReceiverEvent.bufs).filter
      (Ird.fromSnsid t link.snsid) = (received as).map fun c => c.outer ++ packetNb d c.nb
  inRange : ∀ e ∈ es, ∀ header, e.action = .packet header → Ird.SeqInRange header.seqNb
  room : ∀ e ∈ as.map (TimedArrival.event d), Ird.HasRoom t e

theorem allHeard {t : Target} {link : Link} {d : Isd.Daemon} {as : List TimedArrival}
    (h : ∀ a ∈ as, ∃ e, Heard t link d a e) : ∃ es, AllHeard t link d as es := by
  induction as with
  | nil =>
      refine ⟨[], rfl, rfl, rfl, rfl, ?_, ?_⟩
      · intro e he
        cases he
      · intro e he
        cases he
  | cons a as ih =>
      obtain ⟨e, he⟩ := h a List.mem_cons_self
      obtain ⟨es, hes⟩ := ih fun a' ha' => h a' (List.mem_cons_of_mem a ha')
      have hreceived : received (a :: as) = received [a] ++ received as := by
        rw [received, ← List.singleton_append, List.flatMap_append]
        rfl
      have hpackets : Ird.packetsOf link.snsid (e :: es) =
          Ird.packetsOf link.snsid [e] ++ Ird.packetsOf link.snsid es := by
        rw [Ird.packetsOf, ← List.singleton_append, List.filterMap_append]
        rfl
      refine ⟨e :: es, ?_, ?_, ?_, ?_, ?_, ?_⟩
      · rw [List.map_cons, List.map_cons, List.map_cons, he.toEvent, hes.toEvent]
      · rw [List.map_cons, List.map_cons, he.currTime, hes.currTime]
      · rw [hpackets, hreceived, List.map_append, ← he.packets, ← hes.packets]
      · rw [hreceived, List.map_append, ← he.bufs, ← hes.bufs, ← List.filter_append]
        rfl
      · intro e' he'
        rcases List.mem_cons.1 he' with rfl | he'
        · exact he.inRange
        · exact hes.inRange e' he'
      · intro e' he'
        rcases List.mem_cons.1 he' with rfl | he'
        · exact he.room
        · exact hes.room e' he'

/-! ## The transfer -/

theorem Network.sentCopy {t : Target} {x : Snsid} {d : Isd.Daemon} {as : List TimedArrival}
    (h : Network t x d as) {c : Received} (hc : c ∈ received as) : SentCopy d c.nb c.outer := by
  obtain ⟨⟨currTime, arrival⟩, ha, hc⟩ := List.mem_flatMap.1 hc
  have hfrom := h.arrivals _ ha
  cases arrival with
  | copy k outer =>
      rw [List.mem_singleton.1 hc]
      exact hfrom
  | other buf => cases hc
  | cleanupStart => cases hc
  | cleanupIteration => cases hc

theorem Network.steadyFor {t : Target} {link : Link} {d : Isd.Daemon} {as : List TimedArrival}
    (h : Network t link.snsid d as) {es : List Ird.Event} (hes : AllHeard t link d as es) :
    Ird.SteadyFor link.snsid es := by
  refine ⟨?_, hes.inRange, ?_⟩
  · rw [← List.pairwise_map (R := (· ≤ ·)) (f := Ird.Event.currTime), hes.currTime,
      List.pairwise_map]
    exact h.clock
  · rw [hes.packets, List.isChain_map]
    exact h.silence

/-- With the skew bounded, the ring accepts the first arrivals. -/
theorem Network.judged {t : Target} {link : Link} {gs : List Isd.Datagram} {d : Isd.Daemon}
    {as : List TimedArrival} (h : Network t link.snsid d as)
    (htransfer : Transfer t link gs d) :
    (judge Ird.ringJudgement ((received as).map fun c => Isd.nextSeqNb^[c.nb] 1)).map Prod.snd =
      (judge (fun seen n => decide (FirstArrival seen n)) ((received as).map Received.nb)).map
        Prod.snd := by
  have hsmall : ∀ k ∈ (received as).map Received.nb, k < 2 ^ 31 := by
    intro k hk
    obtain ⟨c, hc, rfl⟩ := List.mem_map.1 hk
    have hlt := (htransfer.received (h.sentCopy hc)).1
    omega
  have hmap : (received as).map (fun c => Isd.nextSeqNb^[c.nb] 1) =
      ((received as).map Received.nb).map fun k => Isd.nextSeqNb^[k] 1 := by
    rw [List.map_map]
    rfl
  have hsame : judge (fun seen k => Ird.ringJudgement (seen.map fun k => Isd.nextSeqNb^[k] 1)
        (Isd.nextSeqNb^[k] 1)) ((received as).map Received.nb) =
      judge (fun seen k => decide (FirstArrival seen k)) ((received as).map Received.nb) := by
    apply judge_congr
    intro seen k hpre
    have hseen : (seen.map fun k => Isd.nextSeqNb^[k] 1).map UInt32.toNat =
        seen.map Nat.succ := by
      rw [List.map_map]
      refine List.map_congr_left fun m hm => toNat_seqNb (hsmall m ?_)
      exact hpre.subset (List.mem_append_left [k] hm)
    have hk : (Isd.nextSeqNb^[k] 1).toNat = k.succ :=
      toNat_seqNb (hsmall k (hpre.subset List.mem_concat_self))
    rw [Ird.ringJudgement, hseen, hk]
    refine decide_eq_decide.2 ((accepts_iff_of_skew ?_).trans
      (firstArrival_map (fun _ _ hlt => Nat.succ_lt_succ hlt) seen k))
    intro hnew m hm
    obtain ⟨m', hm', rfl⟩ := List.mem_map.1 hm
    have hbound := h.skew seen k hpre (fun hmem => hnew (List.mem_map_of_mem hmem)) m' hm'
    omega
  rw [hmap, judge_map, hsame, List.map_map]
  rfl

/-- A copy that is handed on is the datagram again. -/
theorem handedOn_restores {t : Target} {link : Link} {gs : List Isd.Datagram} {d : Isd.Daemon}
    (htransfer : Transfer t link gs d) {k : ℕ} {outer : List UInt8}
    (hcopy : SentCopy d k outer) {imdQueueId : ℕ} {es : List Ird.Event} {s : Ird.State}
    (hrun : Ird.run t.order es = some s) {currTime : ℤ} {verdict : Ird.NfVerdict}
    {receiverLinks : List Ird.ReceiverLink}
    (h : Ird.handlePacket t imdQueueId currTime (outer ++ packetNb d k) s.receiverLinks =
      some (verdict, receiverLinks)) {packet : List UInt8}
    (hpacket : verdict.queued = some packet) :
    ∃ g, gs[k]? = some g ∧ Restores g.buf packet := by
  obtain ⟨-, g, hg, hdatagram, hof, hgroup⟩ := htransfer.received hcopy
  obtain ⟨header, fresh, rlink, hheader, hjudge, hhandled⟩ := Ird.handlePacket_eq_some h
  have hpart : readHeader t (outer ++ packetNb d k) 28 = some (headerNb t link k) := by
    rw [← hcopy.1, readHeader_append]
    exact hof.header
  obtain rfl := Option.some.inj (hpart.symm.trans hheader)
  -- the IRD takes the source out of the SNSID
  obtain ⟨hkey, hsource⟩ := judgePacket_link (sourceOf_run hrun) hjudge
  obtain ⟨rebootCounter, hbuilt⟩ := htransfer.snsid
  obtain ⟨haddr, hport⟩ := receiverLinkCreate_snsid (o := t.order) (headerNb t link k) hbuilt
    currTime
  obtain ⟨hsrcAddr, hsrcPort⟩ := hsource currTime (headerNb t link k) hkey.symm
  have hge := hdatagram.length_ge
  have hlt := hdatagram.length_lt
  have hsizes : iprpHeaderSize t.build ≤ 192 := by
    cases t.build with
    | unicast => decide
    | multicast => decide
  have htotal : (outer ++ packetNb d k).length =
      28 + iprpHeaderSize t.build + (g.buf.length - 28) := by
    rw [List.length_append, hcopy.1, hof.length, List.length_drop]
    omega
  have hsize : sizeSub (outer ++ packetNb d k).length (28 + iprpHeaderSize t.build) =
      g.buf.length - 28 := by
    rw [sizeSub_of_le (by omega) (by omega)]
    omega
  cases verdict with
  | drop buf => cases hpacket
  | queue queueNum newPacket =>
      obtain rfl := Option.some.inj hpacket
      obtain ⟨-, rebuilt, hrebuilt, rfl⟩ := hhandled.queued queueNum newPacket rfl
      rw [hsize, hsrcAddr, hsrcPort, haddr, hport] at hrebuilt
      obtain ⟨rebuilt', hrebuilt', hspec⟩ := Ird.createNewPacket_defined t (headerNb t link k)
        (g.buf.length - 28) link.srcAddr link.srcPort (le_of_eq htotal.symm)
      obtain rfl := Option.some.inj (hrebuilt.symm.trans hrebuilt')
      refine ⟨g, hg, ?_⟩
      rw [hsize, Nat.mod_eq_of_lt (by omega)]
      exact restores_newPacket hdatagram hcopy.1 hgroup hof hspec

/-- The datagrams that come out of the IRD are the first arrivals. -/
theorem handedOn_run (t : Target) (imdQueueId : ℕ) {link : Link} {gs : List Isd.Datagram}
    {d : Isd.Daemon} (htransfer : Transfer t link gs d) {as : List TimedArrival}
    (hnetwork : Network t link.snsid d as) :
    ∃ r, Ird.receiverRun t imdQueueId (as.map (TimedArrival.event d)) = some r ∧
      List.Forall₂ (fun k packet => ∃ g, gs[k]? = some g ∧ Restores g.buf packet)
        (firstArrivals ((received as).map Received.nb)) (handedOn t link.snsid r) := by
  obtain ⟨es, hes⟩ := allHeard fun a ha => htransfer.heard (hnetwork.arrivals a ha)
  obtain ⟨s, hs, hverdicts⟩ := Ird.run_closedForm t.order (hnetwork.steadyFor hes)
  obtain ⟨r, hr, rfl⟩ := Ird.receiverRun_state imdQueueId hes.room hes.toEvent hs
  refine ⟨r, hr, forall₂_accepted ?_ ?_⟩
  · -- each copy in the log is one that has come in
    have hbufs : (r.handled.filter fun p => Ird.fromSnsid t link.snsid p.1).map Prod.fst =
        (received as).map fun c => c.outer ++ packetNb d c.nb := by
      rw [← hes.bufs, ← Ird.handled_fst_run hr, List.filter_map]
      rfl
    have hcopies : List.Forall₂ (fun p c => p.1 = c.outer ++ packetNb d c.nb)
        (r.handled.filter fun p => Ird.fromSnsid t link.snsid p.1) (received as) := by
      rw [← List.forall₂_eq_eq_eq, List.forall₂_map_left_iff, List.forall₂_map_right_iff] at hbufs
      exact hbufs
    have hsent : List.Forall₂ (fun c p => SentCopy d c.nb c.outer ∧ p ∈ r.handled ∧
        p.1 = c.outer ++ packetNb d c.nb) (received as)
        (r.handled.filter fun p => Ird.fromSnsid t link.snsid p.1) :=
      (List.forall₂_and_left _ _).2 ⟨fun c hc => hnetwork.sentCopy hc,
        ((List.forall₂_and_left _ _).2 ⟨fun p hp => (List.mem_filter.1 hp).1, hcopies⟩).flip⟩
    rw [map_fst_judge, List.forall₂_map_left_iff]
    refine hsent.imp ?_
    rintro c p ⟨hcopy, hp, heq⟩ packet hpacket
    obtain ⟨es', s', currTime, receiverLinks, hrun, hhandle⟩ := Ird.handled_run hr p hp
    rw [heq] at hhandle
    exact handedOn_restores htransfer hcopy hrun hhandle hpacket
  · have hsnd := congrArg (List.map Prod.snd) hverdicts
    rw [Ird.map_isQueue_handled, hes.packets, List.map_map] at hsnd
    rw [← hnetwork.judged htransfer]
    refine hsnd.symm.trans ?_
    refine List.map_congr_left fun p _ => ?_
    cases p.2 with
    | queue queueNum packet => rfl
    | drop buf => rfl

/-- In every run of the ISD, whichever of its sockets fail, and for every loss, repetition, delay
and reordering of its copies in which no datagram comes for the first time more than
`iprpDdMaxLostPackets` behind another: of the datagrams that arrive at all and are not older
than the first that arrived, the application gets each exactly once, in the order of their first
arrivals and as it was. -/
theorem redundancy_exactlyOnce (t : Target) (imdQueueId : ℕ) {link : Link}
    {gs : List Isd.Datagram} {d : Isd.Daemon} (htransfer : Transfer t link gs d)
    {as : List TimedArrival} (hnetwork : Network t link.snsid d as) :
    ∃ r ks, Ird.receiverRun t imdQueueId (as.map (TimedArrival.event d)) = some r ∧
      ks.Nodup ∧ ks.Sublist ((received as).map Received.nb) ∧
      InArrivalOrder ((received as).map Received.nb) ks ∧
      (∀ k, k ∈ ks ↔ k ∈ (received as).map Received.nb ∧
        ∀ first ∈ ((received as).map Received.nb).head?, first ≤ k) ∧
      List.Forall₂ (fun k packet => ∃ g, gs[k]? = some g ∧ Restores g.buf packet) ks
        (handedOn t link.snsid r) := by
  obtain ⟨r, hr, hrestored⟩ := handedOn_run t imdQueueId htransfer hnetwork
  exact ⟨r, firstArrivals ((received as).map Received.nb), hr, firstArrivals_nodup _,
    firstArrivals_sublist _, firstArrivals_inArrivalOrder _, fun k => mem_firstArrivals, hrestored⟩

/-! Three datagrams of a group, with different payloads, on two interfaces. The third overtakes the
second, and the first arrives twice. -/

def groupBase : Peerbase where
  link := groupLink
  host := ⟨2, Vector.ofFn fun i => ⟨UInt8.ofNat i, inAddr 10 (UInt8.ofNat i) 0 1⟩⟩
  inds := 3
  destAddr := Vector.replicate 16 (inAddr 0 0 0 0)

def groupPayload (payload : UInt8) : List UInt8 := groupDatagram.take 29 ++ [payload]

theorem groupPayload_length (payload : UInt8) : (groupPayload payload).length = 30 := rfl

theorem groupBase_nbIfaces_le : groupBase.host.nbIfaces ≤ 16 := by
  decide

theorem groupBase_ind_lt : ∀ iface ∈ groupBase.host.used, iface.ind.toNat < 16 := by
  decide

def groupSend (payload : UInt8) : Isd.Datagram where
  base := groupBase
  heap := fun _ => 0
  currTime := 0
  sendto := fun _ => true
  buf := groupPayload payload
  headers_le := by rw [groupPayload_length]; exact Nat.le_add_right 28 2
  length_le := by rw [groupPayload_length]; exact Nat.le_add_right 30 65505
  nbIfaces_le := groupBase_nbIfaces_le
  ind_lt := groupBase_ind_lt

def groupSends : List Isd.Datagram := [groupSend 1, groupSend 2, groupSend 3]

def groupOuter : List UInt8 := groupDatagram.take 28

def groupArrivals : List TimedArrival :=
  [⟨0, .copy 0 groupOuter⟩, ⟨1, .copy 2 groupOuter⟩, ⟨1, .cleanupStart⟩,
    ⟨2, .copy 1 groupOuter⟩, ⟨2, .copy 0 groupOuter⟩]

theorem datagramOf_groupPayload (payload : UInt8) :
    DatagramOf groupLink (groupPayload payload) :=
  ⟨Nat.le_add_right 28 2, by rw [groupPayload_length]; decide, rfl, rfl,
    by rw [groupPayload_length]; rfl, rfl, rfl, by rw [groupPayload_length]; rfl⟩

theorem mem_groupSends {g : Isd.Datagram} (hg : g ∈ groupSends) :
    ∃ payload, g = groupSend payload := by
  simp only [groupSends, List.mem_cons, List.not_mem_nil, or_false] at hg
  rcases hg with rfl | rfl | rfl
  · exact ⟨1, rfl⟩
  · exact ⟨2, rfl⟩
  · exact ⟨3, rfl⟩

theorem groupTransfer : ∃ d, Isd.run ⟨.multicast, .little⟩ groupSends = some d ∧
    Transfer ⟨.multicast, .little⟩ groupLink groupSends d ∧
    Network ⟨.multicast, .little⟩ groupLink.snsid d groupArrivals := by
  have hanswers : ∀ g ∈ groupSends, ∀ sent ∈ g.answers, sent = true := by decide
  obtain ⟨d, hd, -, hall⟩ := Isd.run_of_answers ⟨.multicast, .little⟩ hanswers
  have hsent : ∀ k < 3, SentCopy d k groupOuter := by
    intro k hk
    have hlt : k < groupSends.length := hk
    obtain ⟨out, hout, hindep⟩ := hall k groupSends[k] (List.getElem?_eq_getElem hlt)
    obtain ⟨payload, hg⟩ := mem_groupSends (List.getElem_mem hlt)
    rw [hg] at hindep
    refine ⟨rfl, out, hout, ⟨0, sockaddrFill groupLink.destAddr iprpDataPort⟩, ?_, rfl⟩
    rw [hindep.copies]
    change _ ∈ Isd.copiesOf .multicast groupBase groupBase.host.used
    decide
  have htransfer : Transfer ⟨.multicast, .little⟩ groupLink groupSends d := by
    refine ⟨⟨7, rfl⟩, ?_, by decide, hd⟩
    intro g hg
    obtain ⟨payload, rfl⟩ := mem_groupSends hg
    exact ⟨rfl, datagramOf_groupPayload payload⟩
  have hnetwork : Network ⟨.multicast, .little⟩ groupLink.snsid d groupArrivals := by
    refine ⟨?_, by simp [groupArrivals], by simp [groupArrivals, received, Ird.irdTExp], ?_⟩
    · intro a ha
      simp only [groupArrivals, List.mem_cons, List.not_mem_nil, or_false] at ha
      rcases ha with rfl | rfl | rfl | rfl | rfl
      · exact hsent 0 (by decide)
      · exact hsent 2 (by decide)
      · trivial
      · exact hsent 1 (by decide)
      · exact hsent 0 (by decide)
    · intro seen n hpre _ m hm
      have hmem : m ∈ [0, 2, 1, 0] := hpre.subset (List.mem_append_left [n] hm)
      have hle : m ≤ 2 := by
        simp only [List.mem_cons, List.not_mem_nil, or_false] at hmem
        omega
      exact le_trans hle (Nat.le_add_left_of_le (by decide))
  exact ⟨d, hd, htransfer, hnetwork⟩

theorem redundancy_exactlyOnce_group :
    ∃ d r ks, Isd.run ⟨.multicast, .little⟩ groupSends = some d ∧
      Ird.receiverRun ⟨.multicast, .little⟩ 3 (groupArrivals.map (TimedArrival.event d)) =
        some r ∧
      ks.Nodup ∧ ks.Sublist ((received groupArrivals).map Received.nb) ∧
      InArrivalOrder ((received groupArrivals).map Received.nb) ks ∧
      (∀ k, k ∈ ks ↔ k ∈ (received groupArrivals).map Received.nb ∧
        ∀ first ∈ ((received groupArrivals).map Received.nb).head?, first ≤ k) ∧
      List.Forall₂ (fun k packet => ∃ g, groupSends[k]? = some g ∧ Restores g.buf packet) ks
        (handedOn ⟨.multicast, .little⟩ groupLink.snsid r) := by
  obtain ⟨d, hd, htransfer, hnetwork⟩ := groupTransfer
  obtain ⟨r, ks, hr⟩ :=
    redundancy_exactlyOnce ⟨.multicast, .little⟩ 3 htransfer hnetwork
  exact ⟨d, r, ks, hd, hr⟩

end Iprp.Session
