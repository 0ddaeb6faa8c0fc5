import Iprp.Ird.Rebuild
import Iprp.Ird.Sender

/-!
# The IRD on bytes

`step` sees of a packet only its iPRP header. `receiverStep` is the daemon with all the bytes:
`handle_packet` reads the header, judges the packet and rebuilds it or drops it, and the log
`handled` has every packet with its verdict. A run of it is a run of the headers: the two agree
on the links, the iterator and the verdicts (`receiverRun_state`), so that what is proved of the
headers holds of the bytes.
-/

namespace Iprp.Ird

open Bytes KeyedList

/-- The link list, the iterator of the cleanup thread, and the packets handled so far with the
verdict on each. -/
structure Receiver where
  receiverLinks : List ReceiverLink
  iterator : Option ℕ
  handled : List (List UInt8 × NfVerdict)

def Receiver.init : Receiver := ⟨[], none, []⟩

inductive ReceiverAction where
  | packet (buf : List UInt8)
  | cleanupStart
  | cleanupIteration

structure ReceiverEvent where
  currTime : ℤ
  action : ReceiverAction

/-- The packet that a verdict hands on. -/
def NfVerdict.queued : NfVerdict → Option (List UInt8)
  | .drop _ => none
  | .queue _ packet => some packet

def NfVerdict.isQueue (verdict : NfVerdict) : Bool := verdict.queued.isSome

/-- A handled packet as the header level sees it. -/
def headerVerdict (t : Target) (p : List UInt8 × NfVerdict) : Option Verdict :=
  (readHeader t p.1 28).map fun header => ⟨header.snsid, header.seqNb, p.2.isQueue⟩

/-- The state of the header level. -/
def Receiver.state (t : Target) (r : Receiver) : State :=
  ⟨r.receiverLinks, r.iterator, r.handled.filterMap (headerVerdict t)⟩

/-- The links and the iterator of a state, with the log as it is. -/
def Receiver.withLists (r : Receiver) (s : State) : Receiver :=
  { r with receiverLinks := s.receiverLinks, iterator := s.iterator }

def receiverStep (t : Target) (imdQueueId : ℕ) (r : Receiver) (e : ReceiverEvent) :
    Option Receiver :=
  match e.action with
  | .packet buf =>
      (handlePacket t imdQueueId e.currTime buf r.receiverLinks).map
        fun (verdict, receiverLinks) =>
          { r with receiverLinks := receiverLinks, handled := r.handled ++ [(buf, verdict)] }
  | .cleanupStart => some (r.withLists (cleanupStart (r.state t)))
  | .cleanupIteration => some (r.withLists (cleanupIteration e.currTime (r.state t)))

def receiverRun (t : Target) (imdQueueId : ℕ) (es : List ReceiverEvent) : Option Receiver :=
  Run.runFrom (receiverStep t imdQueueId) Receiver.init es

/-- The event that the header level sees, absent when the packet has no header. -/
def ReceiverEvent.toEvent (t : Target) (e : ReceiverEvent) : Option Event :=
  match e.action with
  | .packet buf => (readHeader t buf 28).map fun header => ⟨e.currTime, .packet header⟩
  | .cleanupStart => some ⟨e.currTime, .cleanupStart⟩
  | .cleanupIteration => some ⟨e.currTime, .cleanupIteration⟩

/-! ## One packet -/

/-- A packet as it is judged: rebuilt and handed on when it is fresh, dropped as it is
otherwise. -/
structure HandledAs (t : Target) (imdQueueId : ℕ) (buf : List UInt8) (header : IprpHeader)
    (fresh : Bool) (link : ReceiverLink) (verdict : NfVerdict) : Prop where
  isQueue : verdict.isQueue = fresh
  queued : ∀ queueNum packet, verdict = .queue queueNum packet → queueNum = imdQueueId ∧
    ∃ rebuilt, createNewPacket t buf header (sizeSub buf.length (28 + iprpHeaderSize t.build))
        link.srcAddr link.srcPort = some rebuilt ∧
      packet = rebuilt.take
        ((sizeSub buf.length (28 + iprpHeaderSize t.build) + 28) % 2 ^ 64)

theorem handlePacket_eq_some {t : Target} {imdQueueId : ℕ} {currTime : ℤ} {buf : List UInt8}
    {receiverLinks receiverLinks' : List ReceiverLink} {verdict : NfVerdict}
    (h : handlePacket t imdQueueId currTime buf receiverLinks =
      some (verdict, receiverLinks')) :
    ∃ header fresh link, readHeader t buf 28 = some header ∧
      judgePacket t.order currTime header receiverLinks =
        some (fresh, link, receiverLinks') ∧
      HandledAs t imdQueueId buf header fresh link verdict := by
  unfold handlePacket at h
  obtain ⟨header, hheader, h⟩ := Option.bind_eq_some_iff.1 h
  obtain ⟨⟨fresh, link, links⟩, hjudge, h⟩ := Option.bind_eq_some_iff.1 h
  cases fresh with
  | false =>
      obtain ⟨rfl, rfl⟩ := Prod.mk.inj (Option.some.inj h)
      exact ⟨header, false, link, hheader, hjudge, rfl, fun queueNum packet heq => by cases heq⟩
  | true =>
      obtain ⟨rebuilt, hrebuilt, h⟩ := Option.bind_eq_some_iff.1 h
      obtain ⟨rfl, rfl⟩ := Prod.mk.inj (Option.some.inj h)
      refine ⟨header, true, link, hheader, hjudge, rfl, ?_⟩
      intro queueNum packet heq
      cases heq
      exact ⟨rfl, rebuilt, hrebuilt, rfl⟩

theorem handlePacket_defined {t : Target} (imdQueueId : ℕ) {currTime : ℤ} {buf : List UInt8}
    (hlen : 28 + iprpHeaderSize t.build ≤ buf.length) (hsmall : buf.length < 2 ^ 64)
    {header : IprpHeader} (hheader : readHeader t buf 28 = some header)
    {receiverLinks receiverLinks' : List ReceiverLink} {fresh : Bool} {link : ReceiverLink}
    (hjudge : judgePacket t.order currTime header receiverLinks =
      some (fresh, link, receiverLinks')) :
    ∃ verdict, handlePacket t imdQueueId currTime buf receiverLinks =
      some (verdict, receiverLinks') := by
  unfold handlePacket
  simp only [ipHeaderSize, udpHeaderSize, hheader, hjudge, Option.bind_eq_bind,
    Option.bind_some]
  cases fresh with
  | false => exact ⟨_, rfl⟩
  | true =>
      have hfit : 28 + iprpHeaderSize t.build +
          sizeSub buf.length (28 + iprpHeaderSize t.build) ≤ buf.length := by
        rw [sizeSub_of_le hlen hsmall]
        omega
      obtain ⟨rebuilt, hrebuilt, -⟩ := createNewPacket_defined t header
        (sizeSub buf.length (28 + iprpHeaderSize t.build)) link.srcAddr link.srcPort hfit
      simp only [if_true, hrebuilt, Option.bind_some]
      exact ⟨_, rfl⟩

/-! ## The two levels -/

theorem withLists_state (t : Target) (r : Receiver) {s : State}
    (h : s.verdicts = (r.state t).verdicts) : (r.withLists s).state t = s := by
  rw [Receiver.state, Receiver.withLists]
  exact congrArg (State.mk s.receiverLinks s.iterator) h.symm

theorem cleanupStart_verdicts (s : State) : (cleanupStart s).verdicts = s.verdicts := by
  obtain ⟨iterator, heq⟩ := cleanupStart_eq s
  rw [heq]

theorem cleanupIteration_verdicts (currTime : ℤ) (s : State) :
    (cleanupIteration currTime s).verdicts = s.verdicts := by
  rcases cleanupIteration_cases currTime s with
    ⟨iterator, heq, -⟩ | ⟨i, link, iterator, -, -, -, heq⟩
  · rw [heq]
  · rw [heq]

theorem receiverStep_state {t : Target} {imdQueueId : ℕ} {r r' : Receiver} {e : ReceiverEvent}
    (h : receiverStep t imdQueueId r e = some r') :
    ∃ e', e.toEvent t = some e' ∧ step t.order (r.state t) e' = some (r'.state t) := by
  obtain ⟨currTime, action⟩ := e
  cases action with
  | packet buf =>
      obtain ⟨⟨verdict, receiverLinks⟩, hhandle, rfl⟩ := Option.map_eq_some_iff.1 h
      obtain ⟨header, fresh, link, hheader, hjudge, hverdict⟩ := handlePacket_eq_some hhandle
      refine ⟨⟨currTime, .packet header⟩, ?_, ?_⟩
      · simp only [ReceiverEvent.toEvent, hheader, Option.map_some]
      · have hnew : headerVerdict t (buf, verdict) =
            some ⟨header.snsid, header.seqNb, fresh⟩ := by
          simp only [headerVerdict, hheader, Option.map_some, hverdict.isQueue]
        change packetStep t.order currTime header (r.state t) = _
        simp only [packetStep, Receiver.state, hjudge, Option.map_some, List.filterMap_append,
          List.filterMap_cons, hnew, List.filterMap_nil]
  | cleanupStart =>
      obtain rfl := Option.some.inj h
      refine ⟨⟨currTime, .cleanupStart⟩, rfl, ?_⟩
      exact congrArg some (withLists_state t r (cleanupStart_verdicts (r.state t))).symm
  | cleanupIteration =>
      obtain rfl := Option.some.inj h
      refine ⟨⟨currTime, .cleanupIteration⟩, rfl, ?_⟩
      exact congrArg some
        (withLists_state t r (cleanupIteration_verdicts currTime (r.state t))).symm

/-- A packet with room for its headers. -/
def HasRoom (t : Target) (e : ReceiverEvent) : Prop :=
  ∀ buf, e.action = .packet buf → 28 + iprpHeaderSize t.build ≤ buf.length ∧
    buf.length < 2 ^ 64

theorem receiverStep_of_state {t : Target} (imdQueueId : ℕ) {r : Receiver} {e : ReceiverEvent}
    {e' : Event} {s' : State} (hroom : HasRoom t e) (he : e.toEvent t = some e')
    (h : step t.order (r.state t) e' = some s') :
    ∃ r', receiverStep t imdQueueId r e = some r' ∧ r'.state t = s' := by
  have hdefined : ∃ r', receiverStep t imdQueueId r e = some r' := by
    obtain ⟨currTime, action⟩ := e
    cases action with
    | packet buf =>
        obtain ⟨header, hheader, rfl⟩ := Option.map_eq_some_iff.1 he
        obtain ⟨⟨fresh, link, receiverLinks⟩, hjudge, -⟩ := Option.map_eq_some_iff.1 h
        obtain ⟨hlen, hsmall⟩ := hroom buf rfl
        obtain ⟨verdict, hverdict⟩ :=
          handlePacket_defined imdQueueId hlen hsmall hheader hjudge
        exact ⟨{ r with
          receiverLinks := receiverLinks
          handled := r.handled ++ [(buf, verdict)] }, congrArg (Option.map _) hverdict⟩
    | cleanupStart => exact ⟨_, rfl⟩
    | cleanupIteration => exact ⟨_, rfl⟩
  obtain ⟨r', hr'⟩ := hdefined
  obtain ⟨e'', he'', hstep⟩ := receiverStep_state hr'
  obtain rfl := Option.some.inj (he.symm.trans he'')
  exact ⟨r', hr', Option.some.inj (hstep.symm.trans h)⟩

theorem receiverRun_state {t : Target} (imdQueueId : ℕ) {es : List ReceiverEvent}
    {es' : List Event} (hroom : ∀ e ∈ es, HasRoom t e)
    (hes : es.map (ReceiverEvent.toEvent t) = es'.map some) {s : State}
    (h : run t.order es' = some s) :
    ∃ r, receiverRun t imdQueueId es = some r ∧ r.state t = s := by
  induction es using List.reverseRecOn generalizing es' s with
  | nil =>
      obtain rfl : es' = [] := List.map_eq_nil_iff.1 hes.symm
      obtain rfl := Option.some.inj h
      exact ⟨Receiver.init, rfl, rfl⟩
  | append_singleton es e ih =>
      rw [List.map_append, List.map_singleton] at hes
      obtain ⟨fs, fs', rfl, hfs, hlast⟩ := List.map_eq_append_iff.1 hes.symm
      obtain ⟨e', rfl, he'⟩ := List.map_eq_singleton_iff.1 hlast
      obtain ⟨s₀, hs₀, hstep⟩ := Run.runFrom_append_singleton_eq_some.1 h
      obtain ⟨r₀, hr₀, rfl⟩ :=
        ih (fun e he => hroom e (List.mem_append_left _ he)) hfs.symm hs₀
      obtain ⟨r, hr, hstate⟩ :=
        receiverStep_of_state imdQueueId (hroom e (by simp)) he'.symm hstep
      exact ⟨r, Run.runFrom_append_singleton_eq_some.2 ⟨r₀, hr₀, hr⟩, hstate⟩

theorem receiverRun_reachable {t : Target} {imdQueueId : ℕ} {es : List ReceiverEvent}
    {r : Receiver} (h : receiverRun t imdQueueId es = some r) :
    ∃ es', run t.order es' = some (r.state t) := by
  refine Run.runFrom_history (fun _ r => ∃ es', run t.order es' = some (Receiver.state t r))
    ⟨[], rfl⟩ ?_ h
  rintro es e r r' - ⟨es', hes'⟩ hstep
  obtain ⟨e', -, hstep'⟩ := receiverStep_state hstep
  exact ⟨es' ++ [e'], Run.runFrom_append_singleton_eq_some.2 ⟨_, hes', hstep'⟩⟩

/-- Every packet in the log was handled by links that the daemon had reached. -/
theorem handled_run {t : Target} {imdQueueId : ℕ} {es : List ReceiverEvent} {r : Receiver}
    (h : receiverRun t imdQueueId es = some r) :
    ∀ p ∈ r.handled, ∃ es' s currTime receiverLinks', run t.order es' = some s ∧
      handlePacket t imdQueueId currTime p.1 s.receiverLinks = some (p.2, receiverLinks') := by
  refine Run.runFrom_history (fun _ r => ∀ p ∈ Receiver.handled r, ∃ es' s currTime
    receiverLinks', run t.order es' = some s ∧ handlePacket t imdQueueId currTime p.1
      s.receiverLinks = some (p.2, receiverLinks')) (fun p hp => by cases hp) ?_ h
  rintro es ⟨currTime, action⟩ r r' hr hold hstep
  cases action with
  | packet buf =>
      obtain ⟨⟨verdict, receiverLinks⟩, hhandle, rfl⟩ := Option.map_eq_some_iff.1 hstep
      intro p hp
      rcases List.mem_append.1 hp with hp | hp
      · exact hold p hp
      · obtain rfl := List.mem_singleton.1 hp
        obtain ⟨es', hes'⟩ := receiverRun_reachable hr
        exact ⟨es', r.state t, currTime, receiverLinks, hes', hhandle⟩
  | cleanupStart =>
      obtain rfl := Option.some.inj hstep
      exact hold
  | cleanupIteration =>
      obtain rfl := Option.some.inj hstep
      exact hold

/-- The packet of an event, if it is one. -/
def ReceiverEvent.bufs (e : ReceiverEvent) : List (List UInt8) :=
  match e.action with
  | .packet buf => [buf]
  | .cleanupStart => []
  | .cleanupIteration => []

theorem handled_fst_run {t : Target} {imdQueueId : ℕ} {es : List ReceiverEvent}
    {r : Receiver} (h : receiverRun t imdQueueId es = some r) :
    r.handled.map Prod.fst = es.flatMap ReceiverEvent.bufs := by
  refine Run.runFrom_log (fun _ => True) (fun r : Receiver => r.handled.map Prod.fst) _ ?_ h
    trivial
  rintro r ⟨currTime, action⟩ r' hstep -
  refine ⟨trivial, ?_⟩
  cases action with
  | packet buf =>
      obtain ⟨⟨verdict, receiverLinks⟩, -, rfl⟩ := Option.map_eq_some_iff.1 hstep
      exact List.map_append
  | cleanupStart =>
      obtain rfl := Option.some.inj hstep
      exact (List.append_nil _).symm
  | cleanupIteration =>
      obtain rfl := Option.some.inj hstep
      exact (List.append_nil _).symm

/-! ## The packets of one sender -/

/-- Whether a packet is one of `x`. -/
def fromSnsid (t : Target) (x : Snsid) (buf : List UInt8) : Bool :=
  (readHeader t buf 28).map IprpHeader.snsid = some x

theorem map_isQueue_handled (t : Target) (x : Snsid) (r : Receiver) :
    (verdictsOf x (r.state t).verdicts).map Prod.snd =
      (r.handled.filter fun p => fromSnsid t x p.1).map fun p => p.2.isQueue := by
  change (verdictsOf x (r.handled.filterMap (headerVerdict t))).map Prod.snd = _
  induction r.handled with
  | nil => rfl
  | cons p handled ih =>
      rw [List.filter_cons, List.filterMap_cons]
      cases hheader : readHeader t p.1 28 with
      | none =>
          have hother : fromSnsid t x p.1 = false := by simp [fromSnsid, hheader]
          rw [headerVerdict, hheader, Option.map_none, if_neg (by simp [hother])]
          exact ih
      | some header =>
          rw [headerVerdict, hheader, Option.map_some]
          dsimp only
          by_cases hx : header.snsid = x
          · have hfrom : fromSnsid t x p.1 = true := by simp [fromSnsid, hheader, hx]
            rw [if_pos hfrom, verdictsOf, List.filterMap_cons_some (by rw [if_pos hx]),
              List.map_cons, List.map_cons]
            exact congrArg _ ih
          · have hother : fromSnsid t x p.1 = false := by simp [fromSnsid, hheader, hx]
            rw [if_neg (by simp [hother]), verdictsOf,
              List.filterMap_cons_none (by rw [if_neg hx])]
            exact ih

end Iprp.Ird
