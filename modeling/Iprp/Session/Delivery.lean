import Iprp.Imd.Sessions
import Iprp.Session.Redundancy

/-!
# What the application gets

The whole host of a receiver: the IRD, the queue between the IRD and the IMD, and the IMD with
its two handlers. Packets come in at the data port and at a monitored port, the daemons and
their cleanups take their steps in any order, and what the IMD accepts goes to the application.

A datagram can come in twice over, in copies and as a plain packet, since the sender of the
multicast build lets plain packets through as well. The IRD is there for the copies and the IMD
for the plain packets (`application_exactlyOnce`).
-/

namespace Iprp.Session

open Bytes KeyedList Arrivals

/-- A packet that the IMD has given its verdict. For one of the IRD-IMD queue, `origin` is the
packet that the IRD made it of. -/
structure Seen where
  currTime : ℤ
  origin : Option (List UInt8)
  buf : List UInt8
  verdict : Imd.NfVerdict

structure HostState where
  ird : Ird.Receiver
  /-- The IRD-IMD queue: each packet behind the one that the IRD made it of. -/
  queue : List (List UInt8 × List UInt8)
  imd : Imd.State
  seen : List Seen

def HostState.init : HostState := ⟨Ird.Receiver.init, [], Imd.State.init, []⟩

inductive HostAction where
  | ird (action : Ird.ReceiverAction)
  /-- A packet comes in at a monitored port. -/
  | plain (packet : Imd.QueuedPacket)
  /-- The IMD takes a packet from the IRD-IMD queue. -/
  | handOver
  | cleanupStart
  | cleanupIteration

structure HostEvent where
  currTime : ℤ
  action : HostAction

/-- What a verdict of the IRD puts into the IRD-IMD queue. -/
def handedOver (p : List UInt8 × Ird.NfVerdict) : Option (List UInt8 × List UInt8) :=
  p.2.queued.map fun packet => (p.1, packet)

/-- `global_handle` of the IMD, for a packet of either queue. -/
def imdHandle (t : Target) (currTime : ℤ) (origin : Option (List UInt8)) (buf : List UInt8)
    (s : HostState) : Option HostState :=
  (Imd.globalHandle t currTime origin.isSome buf s.imd.activeSenders).map fun out =>
    { s with
      imd := { s.imd with activeSenders := out.activeSenders }
      seen := s.seen ++ [⟨currTime, origin, buf, out.verdict⟩] }

def hostStep (t : Target) (imdQueueId : ℕ) (s : HostState) (e : HostEvent) : Option HostState :=
  match e.action with
  | .ird action =>
      (Ird.receiverStep t imdQueueId s.ird ⟨e.currTime, action⟩).map fun ird =>
        { s with
          ird := ird
          queue := s.queue ++ (ird.handled.drop s.ird.handled.length).filterMap handedOver }
  | .plain packet => imdHandle t e.currTime none packet.buf s
  | .handOver =>
      match s.queue with
      | [] => some s
      | p :: queue => imdHandle t e.currTime (some p.1) p.2 { s with queue := queue }
  | .cleanupStart => some { s with imd := Imd.cleanupStart s.imd }
  | .cleanupIteration => some { s with imd := Imd.cleanupIteration e.currTime s.imd }

def hostRun (t : Target) (imdQueueId : ℕ) (es : List HostEvent) : Option HostState :=
  Run.runFrom (hostStep t imdQueueId) HostState.init es

def HostEvent.ird? (e : HostEvent) : Option Ird.ReceiverEvent :=
  match e.action with
  | .ird action => some ⟨e.currTime, action⟩
  | _ => none

/-- The events of the IRD. -/
def irdEvents (es : List HostEvent) : List Ird.ReceiverEvent := es.filterMap HostEvent.ird?

/-- The packets that were made of those of `x`. -/
def ofSnsid (t : Target) (x : Snsid) (ps : List (List UInt8 × List UInt8)) :
    List (List UInt8) :=
  (ps.filter fun p => Ird.fromSnsid t x p.1).map Prod.snd

def Seen.fromIrd (h : Seen) : Option (List UInt8 × List UInt8) :=
  h.origin.map fun origin => (origin, h.buf)

/-- What the IMD has let through to the application. -/
def HostState.accepted (s : HostState) : List Seen := s.seen.filter fun h => h.verdict = .accept

/-- The packets of `x` that the application has got. -/
def passedOn (t : Target) (x : Snsid) (s : HostState) : List (List UInt8) :=
  ofSnsid t x (s.accepted.filterMap Seen.fromIrd)

/-- The packets of `x` that wait for the IMD. -/
def waiting (t : Target) (x : Snsid) (s : HostState) : List (List UInt8) := ofSnsid t x s.queue

/-- The IMD sees a packet of the flow at least every `imdAsTexp` seconds. -/
def KeptUp (o : ByteOrder) (flow : Icd.ActiveSender) (seen : List Seen) : Prop :=
  ((seen.filter fun h => Imd.linkInformation o h.buf = some flow).map
    Seen.currTime).IsChain fun p q => q - p ≤ Imd.imdAsTexp

/-- A packet of the flow has come through the IRD. -/
def Joined (o : ByteOrder) (flow : Icd.ActiveSender) (seen : List Seen) : Prop :=
  ∃ h ∈ seen, Imd.linkInformation o h.buf = some flow ∧ h.origin.isSome

/-- The plain packets of the flow are accepted up to the first packet that has come through the
IRD, and dropped from then on. -/
def PlainUntilJoined (o : ByteOrder) (flow : Icd.ActiveSender) (seen : List Seen) : Prop :=
  ∀ before h, before ++ [h] <+: seen → Imd.linkInformation o h.buf = some flow →
    h.origin = none → (h.verdict = .accept ↔ ¬ Joined o flow before)

/-! ## The IRD -/

theorem irdEvents_concat (es : List HostEvent) (e : HostEvent) :
    irdEvents (es ++ [e]) = irdEvents es ++ e.ird?.toList := by
  rw [irdEvents, List.filterMap_append, irdEvents]
  cases h : e.ird? with
  | none => simp [h]
  | some e' => simp [h]

theorem handled_receiverStep {t : Target} {imdQueueId : ℕ} {r r' : Ird.Receiver}
    {e : Ird.ReceiverEvent} (h : Ird.receiverStep t imdQueueId r e = some r') :
    ∃ new, r'.handled = r.handled ++ new := by
  obtain ⟨currTime, action⟩ := e
  cases action with
  | packet buf =>
      obtain ⟨⟨verdict, receiverLinks⟩, -, rfl⟩ := Option.map_eq_some_iff.1 h
      exact ⟨_, rfl⟩
  | cleanupStart =>
      obtain rfl := Option.some.inj h
      exact ⟨[], (List.append_nil _).symm⟩
  | cleanupIteration =>
      obtain rfl := Option.some.inj h
      exact ⟨[], (List.append_nil _).symm⟩

theorem imdHandle_eq {t : Target} {buf : List UInt8} {sender : Icd.ActiveSender}
    (hsender : Imd.linkInformation t.order buf = some sender) (currTime : ℤ)
    (origin : Option (List UInt8)) (s : HostState) :
    imdHandle t currTime origin buf s =
      some { s with
        imd := { s.imd with
          activeSenders := (Imd.recordSender t.build currTime origin.isSome sender
            s.imd.activeSenders).2 }
        seen := s.seen ++ [⟨currTime, origin, buf, Imd.verdictFor t.build origin.isSome
          (Imd.updateEntry t.build currTime origin.isSome
            (Imd.entryFor origin.isSome sender s.imd.activeSenders))⟩] } := by
  rw [imdHandle, Imd.globalHandle_eq hsender]
  rfl

theorem imdHandle_sender {t : Target} {currTime : ℤ} {origin : Option (List UInt8)}
    {buf : List UInt8} {s s' : HostState} (h : imdHandle t currTime origin buf s = some s') :
    ∃ sender, Imd.linkInformation t.order buf = some sender := by
  obtain ⟨out, hout, -⟩ := Option.map_eq_some_iff.1 h
  obtain ⟨sender, hsender, -⟩ := Option.bind_eq_some_iff.1 hout
  exact ⟨sender, hsender⟩

/-- What a step of the host is: one of the IRD, a packet at the IMD, or one of the IMD's
cleanup. -/
inductive HostStepped (t : Target) (imdQueueId : ℕ) (s : HostState) (e : HostEvent) :
    HostState → Prop
  | ird (action : Ird.ReceiverAction) (ird : Ird.Receiver) (he : e.action = .ird action)
      (h : Ird.receiverStep t imdQueueId s.ird ⟨e.currTime, action⟩ = some ird) :
      HostStepped t imdQueueId s e
        { s with
          ird := ird
          queue := s.queue ++ (ird.handled.drop s.ird.handled.length).filterMap handedOver }
  | packet (origin : Option (List UInt8)) (buf : List UInt8)
      (queue : List (List UInt8 × List UInt8)) (s' : HostState) (he : e.ird? = none)
      (hqueue : (origin.map fun p => (p, buf)).toList ++ queue = s.queue)
      (h : imdHandle t e.currTime origin buf { s with queue := queue } = some s') :
      HostStepped t imdQueueId s e s'
  | cleanup (e' : Imd.Event) (imd : Imd.State) (he : e.ird? = none)
      (htime : e'.currTime = e.currTime) (hnopacket : ∀ flow, e'.flow? t.order ≠ some flow)
      (h : Imd.step t s.imd e' = some imd) :
      HostStepped t imdQueueId s e { s with imd := imd }
  /-- The queue is empty. -/
  | idle (he : e.ird? = none) : HostStepped t imdQueueId s e s

theorem hostStep_cases {t : Target} {imdQueueId : ℕ} {s s' : HostState} {e : HostEvent}
    (h : hostStep t imdQueueId s e = some s') : HostStepped t imdQueueId s e s' := by
  obtain ⟨currTime, action⟩ := e
  cases action with
  | ird action =>
      obtain ⟨ird, hird, rfl⟩ := Option.map_eq_some_iff.1 h
      exact .ird action ird rfl hird
  | plain packet => exact .packet none packet.buf s.queue s' rfl rfl h
  | handOver =>
      rw [hostStep] at h
      dsimp only at h
      split at h
      · obtain rfl := Option.some.inj h
        exact .idle rfl
      · next p queue hqueue => exact .packet (some p.1) p.2 queue s' rfl hqueue.symm h
  | cleanupStart =>
      obtain rfl := Option.some.inj h
      exact .cleanup ⟨currTime, .start⟩ _ rfl rfl (fun _ hflow => by cases hflow) rfl
  | cleanupIteration =>
      obtain rfl := Option.some.inj h
      exact .cleanup ⟨currTime, .iteration⟩ _ rfl rfl (fun _ hflow => by cases hflow) rfl

theorem verdictFor_iprp (build : Build) (entry : Imd.Entry) :
    Imd.verdictFor build true entry = .accept := by
  cases build with
  | unicast => rfl
  | multicast => rfl

/-- The queue and the log of the IMD hold what the IRD has handed over, in that order. -/
structure HandsOver (s : HostState) : Prop where
  log : s.seen.filterMap Seen.fromIrd ++ s.queue = s.ird.handled.filterMap handedOver
  accepted : ∀ h ∈ s.seen, h.origin.isSome → h.verdict = .accept

theorem HandsOver.imdHandle {t : Target} {currTime : ℤ} {origin : Option (List UInt8)}
    {buf : List UInt8} {s s' : HostState} (haccepted : ∀ h ∈ s.seen, h.origin.isSome →
      h.verdict = .accept)
    (hlog : s.seen.filterMap Seen.fromIrd ++ ((origin.map fun p => (p, buf)).toList ++ s.queue) =
      s.ird.handled.filterMap handedOver)
    (h : Session.imdHandle t currTime origin buf s = some s') : HandsOver s' := by
  obtain ⟨sender, hsender⟩ := imdHandle_sender h
  rw [imdHandle_eq hsender] at h
  obtain rfl := Option.some.inj h
  constructor
  · rw [← hlog, ← List.append_assoc]
    dsimp only
    rw [List.filterMap_append]
    cases origin with
    | none => simp [Seen.fromIrd]
    | some p => simp [Seen.fromIrd]
  · intro h' hh' hiprp
    rcases List.mem_append.1 hh' with hold | hnew
    · exact haccepted h' hold hiprp
    · obtain rfl := List.mem_singleton.1 hnew
      dsimp only at hiprp ⊢
      rw [hiprp]
      exact verdictFor_iprp t.build _

theorem HandsOver.step {t : Target} {imdQueueId : ℕ} {s s' : HostState} {e : HostEvent}
    (hs : HandsOver s) (h : hostStep t imdQueueId s e = some s') :
    HandsOver s' := by
  cases hostStep_cases h with
  | ird action ird _ hird =>
      obtain ⟨new, hnew⟩ := handled_receiverStep hird
      refine ⟨?_, hs.accepted⟩
      dsimp only
      rw [hnew, List.drop_left, List.filterMap_append, ← hs.log, List.append_assoc]
  | packet origin buf queue _ _ hqueue himd =>
      refine .imdHandle (s := { s with queue := queue }) hs.accepted ?_ himd
      dsimp only
      rw [hqueue]
      exact hs.log
  | cleanup e' imd _ _ _ _ => exact ⟨hs.log, hs.accepted⟩
  | idle _ => exact hs

theorem handsOver_run {t : Target} {imdQueueId : ℕ} {es : List HostEvent} {s : HostState}
    (h : hostRun t imdQueueId es = some s) : HandsOver s :=
  Run.runFrom_preserved HandsOver (fun _ _ _ hs hstep => hs.step hstep)
    ⟨rfl, List.forall_mem_nil _⟩ h

/-- What the application has got of the packets of `x`, and what still waits for the IMD, is what
the IRD has handed on. -/
theorem passedOn_waiting {t : Target} {s : HostState} (hs : HandsOver s) (x : Snsid) :
    passedOn t x s ++ waiting t x s = handedOn t x s.ird := by
  have haccepted : s.accepted.filterMap Seen.fromIrd = s.seen.filterMap Seen.fromIrd := by
    rw [HostState.accepted, List.filterMap_filter]
    refine List.filterMap_congr fun h hh => ?_
    cases horigin : h.origin with
    | none => simp [Seen.fromIrd, horigin]
    | some p =>
        have hverdict := hs.accepted h hh (by simp [horigin])
        simp [hverdict]
  have hqueued : ∀ p : List UInt8 × Ird.NfVerdict, Option.map Prod.snd
      (Option.filter (fun q => Ird.fromSnsid t x q.1) (handedOver p)) =
        if Ird.fromSnsid t x p.1 then p.2.queued else none := by
    intro p
    unfold handedOver
    cases p.2.queued with
    | none => simp
    | some packet => cases hx : Ird.fromSnsid t x p.1 <;> simp [hx]
  rw [passedOn, waiting, haccepted, ofSnsid, ofSnsid, ← List.map_append, ← List.filter_append,
    hs.log, handedOn, List.filterMap_filter, List.filter_filterMap, List.map_filterMap]
  exact List.filterMap_congr fun p _ => hqueued p

/-! ## Runs of the host -/

theorem hostStep_ird {t : Target} {imdQueueId : ℕ} {s s' : HostState} {e : HostEvent}
    (h : hostStep t imdQueueId s e = some s') :
    Run.runFrom (Ird.receiverStep t imdQueueId) s.ird e.ird?.toList = some s'.ird := by
  cases hostStep_cases h with
  | ird action ird he hird =>
      rw [HostEvent.ird?, he]
      exact (Run.runFrom_singleton _ _ _).trans hird
  | packet origin buf queue _ he _ himd =>
      obtain ⟨out, -, rfl⟩ := Option.map_eq_some_iff.1 himd
      rw [he]
      rfl
  | cleanup e' imd he _ _ _ =>
      rw [he]
      rfl
  | idle he =>
      rw [he]
      rfl

theorem hostRun_ird {t : Target} {imdQueueId : ℕ} {es : List HostEvent} {s : HostState}
    (h : hostRun t imdQueueId es = some s) :
    Ird.receiverRun t imdQueueId (irdEvents es) = some s.ird := by
  refine Run.runFrom_history (fun es s =>
    Ird.receiverRun t imdQueueId (irdEvents es) = some (HostState.ird s)) rfl ?_ h
  intro es e s s' _ hird hstep
  rw [irdEvents_concat, Ird.receiverRun, Run.runFrom_append]
  change (Ird.receiverRun t imdQueueId (irdEvents es)).bind _ = _
  rw [hird, Option.bind_some]
  exact hostStep_ird hstep

theorem length_handedOver {t : Target} {imdQueueId : ℕ} {r r' : Ird.Receiver}
    {e : Ird.ReceiverEvent} (hroom : Ird.HasRoom t e)
    (h : Ird.receiverStep t imdQueueId r e = some r') :
    ∀ p ∈ (r'.handled.drop r.handled.length).filterMap handedOver, 28 ≤ p.2.length := by
  obtain ⟨currTime, action⟩ := e
  cases action with
  | packet buf =>
      obtain ⟨⟨verdict, receiverLinks⟩, hhandle, rfl⟩ := Option.map_eq_some_iff.1 h
      dsimp only
      rw [List.drop_left]
      intro p hp
      obtain ⟨q, hq, hhanded⟩ := List.mem_filterMap.1 hp
      obtain rfl := List.mem_singleton.1 hq
      obtain ⟨packet, hpacket, rfl⟩ := Option.map_eq_some_iff.1 hhanded
      obtain ⟨hlen, hsmall⟩ := hroom buf rfl
      obtain ⟨header, fresh, link, hheader, -, hhandled⟩ := Ird.handlePacket_eq_some hhandle
      cases verdict with
      | drop buf' => cases hpacket
      | queue queueNum newPacket =>
          obtain rfl := Option.some.inj hpacket
          obtain ⟨-, rebuilt, hrebuilt, rfl⟩ := hhandled.queued queueNum newPacket rfl
          have hsize := sizeSub_of_le hlen hsmall
          have hfit : 28 + iprpHeaderSize t.build +
              sizeSub buf.length (28 + iprpHeaderSize t.build) ≤ buf.length := by omega
          obtain ⟨rebuilt', hrebuilt', hspec⟩ := Ird.createNewPacket_defined t header
            (sizeSub buf.length (28 + iprpHeaderSize t.build)) link.srcAddr link.srcPort hfit
          obtain rfl := Option.some.inj (hrebuilt.symm.trans hrebuilt')
          rw [List.length_take, hspec.length, hsize]
          omega
  | cleanupStart =>
      obtain rfl := Option.some.inj h
      simp [Ird.Receiver.withLists]
  | cleanupIteration =>
      obtain rfl := Option.some.inj h
      simp [Ird.Receiver.withLists]

/-- The host goes on as long as its IRD does. -/
theorem hostRun_defined {t : Target} {imdQueueId : ℕ} {es : List HostEvent}
    (hroom : ∀ e ∈ irdEvents es, Ird.HasRoom t e) {r : Ird.Receiver}
    (h : Ird.receiverRun t imdQueueId (irdEvents es) = some r) :
    ∃ s, hostRun t imdQueueId es = some s ∧ ∀ p ∈ s.queue, 28 ≤ p.2.length := by
  induction es using List.reverseRecOn generalizing r with
  | nil => exact ⟨HostState.init, rfl, List.forall_mem_nil _⟩
  | append_singleton es e ih =>
      rw [irdEvents_concat] at hroom h
      rw [Ird.receiverRun, Run.runFrom_append] at h
      obtain ⟨r₀, hr₀, hlast⟩ := Option.bind_eq_some_iff.1 h
      obtain ⟨s, hs, hqueue⟩ := ih (fun e' he' => hroom e' (List.mem_append_left _ he')) hr₀
      obtain rfl : s.ird = r₀ := Option.some.inj ((hostRun_ird hs).symm.trans hr₀)
      have hnext : ∃ s', hostStep t imdQueueId s e = some s' ∧
          ∀ p ∈ s'.queue, 28 ≤ p.2.length := by
        obtain ⟨currTime, action⟩ := e
        cases action with
        | ird action =>
            have hstep : Ird.receiverStep t imdQueueId s.ird ⟨currTime, action⟩ = some r :=
              (Run.runFrom_singleton _ _ _).symm.trans hlast
            refine ⟨_, congrArg (Option.map _) hstep, ?_⟩
            intro p hp
            rcases List.mem_append.1 hp with hold | hnew
            · exact hqueue p hold
            · exact length_handedOver
                (hroom _ (List.mem_append_right _ List.mem_cons_self)) hstep p hnew
        | plain packet =>
            obtain ⟨sender, hsender⟩ := packet.linkInformation_defined t.order
            exact ⟨_, imdHandle_eq hsender currTime none s, hqueue⟩
        | handOver =>
            rw [hostStep]
            dsimp only
            split
            · exact ⟨s, rfl, hqueue⟩
            · next p queue heq =>
                rw [heq] at hqueue
                obtain ⟨sender, hsender⟩ := Imd.QueuedPacket.linkInformation_defined
                  ⟨p.2, hqueue p List.mem_cons_self⟩ t.order
                exact ⟨_, imdHandle_eq hsender currTime (some p.1) _,
                  fun q hq => hqueue q (List.mem_cons_of_mem p hq)⟩
        | cleanupStart => exact ⟨_, rfl, hqueue⟩
        | cleanupIteration => exact ⟨_, rfl, hqueue⟩
      obtain ⟨s', hs', hqueue'⟩ := hnext
      exact ⟨s', Run.runFrom_append_singleton_eq_some.2 ⟨s, hs, hs'⟩, hqueue'⟩

/-! ## The filter of the IMD -/

/-- When the IMD has last seen a packet of the flow. -/
def lastSeenTime (o : ByteOrder) (flow : Icd.ActiveSender) (seen : List Seen) : Option ℤ :=
  Run.lastTime Seen.currTime (fun h => Imd.linkInformation o h.buf = some flow) seen

/-- The entry of the flow is as old as the last packet of the flow and knows whether one has come
through the IRD, and without an entry the last packet is too old at the time `now`. -/
def Tended (o : ByteOrder) (flow : Icd.ActiveSender) (now : ℤ) (seen : List Seen) :
    Option Imd.Entry → Prop
  | some entry => lastSeenTime o flow seen = some entry.lastSeen ∧
      (entry.iprpEnabled = true ↔ Joined o flow seen)
  | none => ∀ time ∈ lastSeenTime o flow seen, Imd.imdAsTexp < now - time

theorem lastSeenTime_concat (o : ByteOrder) (flow : Icd.ActiveSender) (seen : List Seen)
    (h : Seen) :
    lastSeenTime o flow (seen ++ [h]) =
      if Imd.linkInformation o h.buf = some flow then some h.currTime
      else lastSeenTime o flow seen :=
  Run.lastTime_concat Seen.currTime (fun h => Imd.linkInformation o h.buf = some flow) seen h

theorem joined_concat (o : ByteOrder) (flow : Icd.ActiveSender) (seen : List Seen) (h : Seen) :
    Joined o flow (seen ++ [h]) ↔ Joined o flow seen ∨
      (Imd.linkInformation o h.buf = some flow ∧ h.origin.isSome) := by
  simp [Joined, or_and_right, exists_or]

theorem keptUp_concat {o : ByteOrder} {flow : Icd.ActiveSender} {seen : List Seen} {h : Seen}
    (hkept : KeptUp o flow (seen ++ [h])) : KeptUp o flow seen ∧
      (Imd.linkInformation o h.buf = some flow → ∀ time ∈ lastSeenTime o flow seen,
        h.currTime - time ≤ Imd.imdAsTexp) := by
  unfold KeptUp at hkept ⊢
  rw [List.filter_append, List.map_append, List.isChain_append] at hkept
  obtain ⟨hseen, -, hlast⟩ := hkept
  refine ⟨hseen, fun hflow time htime => hlast time ?_ h.currTime ?_⟩
  · rw [List.getLast?_map]
    exact htime
  · simp [hflow]

/-- What is said of the flow while the IMD keeps its entry. -/
structure Filtered (o : ByteOrder) (flow : Icd.ActiveSender) (es : List HostEvent)
    (s : HostState) : Prop where
  unique : UniqueKeys Imd.Entry.key s.imd.activeSenders
  tended : ∀ now, (∀ e ∈ es, e.currTime ≤ now) → Tended o flow now s.seen
    (Imd.activesendersFindEntry flow s.imd.activeSenders)
  plain : PlainUntilJoined o flow s.seen

theorem not_joined_of_none {o : ByteOrder} {flow : Icd.ActiveSender} {seen : List Seen}
    (h : lastSeenTime o flow seen = none) : ¬ Joined o flow seen := by
  rintro ⟨h', hmem, hflow, -⟩
  have hnil := List.getLast?_eq_none_iff.1 (Option.map_eq_none_iff.1 h)
  exact List.filter_eq_nil_iff.1 hnil h' hmem (by simpa using hflow)

/-- A packet of the flow finds an entry that knows what has come through the IRD, or is the
first one. -/
theorem Tended.entryFor {o : ByteOrder} {flow : Icd.ActiveSender} {now : ℤ} {seen : List Seen}
    {activeSenders : List Imd.Entry}
    (h : Tended o flow now seen (Imd.activesendersFindEntry flow activeSenders))
    (hkept : ∀ time ∈ lastSeenTime o flow seen, now - time ≤ Imd.imdAsTexp) (iprp : Bool) :
    (iprp || (Imd.entryFor iprp flow activeSenders).iprpEnabled) = true ↔
      Joined o flow seen ∨ iprp = true := by
  unfold Imd.entryFor
  cases hfound : Imd.activesendersFindEntry flow activeSenders with
  | some entry =>
      rw [hfound] at h
      rw [Option.getD_some, Bool.or_eq_true, h.2, or_comm]
  | none =>
      rw [hfound] at h
      have hnever : lastSeenTime o flow seen = none := by
        cases htime : lastSeenTime o flow seen with
        | none => rfl
        | some time => exact absurd (hkept time htime) (not_le.2 (h time htime))
      rw [Option.getD_none, or_iff_right (not_joined_of_none hnever)]
      change (iprp || iprp) = true ↔ _
      rw [Bool.or_self]

theorem verdictFor_plain {entry : Imd.Entry} {currTime : ℤ} :
    Imd.verdictFor .multicast false (Imd.updateEntry .multicast currTime false entry) = .accept ↔
      ¬ (false || entry.iprpEnabled) = true := by
  cases henabled : entry.iprpEnabled <;> simp [Imd.verdictFor, Imd.updateEntry, henabled]

theorem Filtered.imdHandle {t : Target} (ht : t.build = .multicast) {flow : Icd.ActiveSender}
    {es : List HostEvent} {s s' : HostState} (hs : Filtered t.order flow es s) {e : HostEvent}
    (hclock : ∀ e' ∈ es, e'.currTime ≤ e.currTime) (hkept : KeptUp t.order flow s'.seen)
    {origin : Option (List UInt8)} {buf : List UInt8}
    (h : Session.imdHandle t e.currTime origin buf s = some s') :
    Filtered t.order flow (es ++ [e]) s' := by
  obtain ⟨sender, hsender⟩ := imdHandle_sender h
  rw [imdHandle_eq hsender] at h
  obtain rfl := Option.some.inj h
  obtain ⟨-, hrecent⟩ := keptUp_concat hkept
  have hentry : Imd.linkInformation t.order buf = some flow →
      ((origin.isSome || (Imd.entryFor origin.isSome flow s.imd.activeSenders).iprpEnabled) =
        true ↔ Joined t.order flow s.seen ∨ origin.isSome = true) := fun hflow =>
    (hs.tended e.currTime hclock).entryFor (hrecent hflow) origin.isSome
  refine ⟨Imd.uniqueKeys_recordSender hs.unique t.build e.currTime origin.isSome sender, ?_, ?_⟩
  · intro now hnow
    dsimp only
    rw [Imd.find_recordSender]
    by_cases hflow : flow = sender
    · subst hflow
      rw [if_pos rfl]
      refine ⟨by rw [lastSeenTime_concat, if_pos hsender]; rfl, ?_⟩
      rw [joined_concat, and_iff_right hsender, ← hentry hsender, ht]
      rfl
    · have hother : Imd.linkInformation t.order buf ≠ some flow := by
        rw [hsender]
        exact fun heq => hflow (Option.some.inj heq).symm
      have hold := hs.tended now fun e' he' => hnow e' (List.mem_append_left _ he')
      rw [if_neg hflow]
      cases hfound : Imd.activesendersFindEntry flow s.imd.activeSenders with
      | some entry =>
          rw [hfound] at hold
          refine ⟨?_, ?_⟩
          · rw [lastSeenTime_concat, if_neg hother]
            exact hold.1
          · rw [joined_concat, or_iff_left fun hnew => hother hnew.1]
            exact hold.2
      | none =>
          rw [hfound] at hold
          intro time htime
          rw [lastSeenTime_concat, if_neg hother] at htime
          exact hold time htime
  · intro before h' hprefix hflow hplain
    rcases List.prefix_concat_iff.1 hprefix with hlast | hold
    · obtain ⟨rfl, hnew⟩ := List.append_inj' hlast rfl
      obtain rfl := List.singleton_inj.1 hnew
      obtain rfl : origin = none := hplain
      obtain rfl : sender = flow := Option.some.inj (hsender.symm.trans hflow)
      have hjoined := hentry hflow
      simp only [Option.isSome_none, Bool.false_eq_true, or_false] at hjoined ⊢
      rw [ht, verdictFor_plain, hjoined]
    · exact hs.plain before h' hold hflow hplain

theorem Filtered.cleanup {t : Target} {flow : Icd.ActiveSender} {es : List HostEvent}
    {s : HostState} (hs : Filtered t.order flow es s) {e : HostEvent} {e' : Imd.Event}
    (htime : e'.currTime = e.currTime) {imd : Imd.State} (h : Imd.step t s.imd e' = some imd)
    (hnopacket : ∀ flow, e'.flow? t.order ≠ some flow) :
    Filtered t.order flow (es ++ [e]) { s with imd := imd } := by
  refine ⟨Imd.uniqueKeys_step hs.unique h, ?_, hs.plain⟩
  intro now hnow
  have hold := hs.tended now fun e' he' => hnow e' (List.mem_append_left _ he')
  cases Imd.entryStep hs.unique h flow with
  | packet he _ => exact absurd he (hnopacket flow)
  | removed entry _ hentry haged hnone =>
      rw [hentry] at hold
      dsimp only
      rw [hnone]
      intro time hlast
      obtain rfl := Option.some.inj (hold.1.symm.trans hlast)
      have hlate : e.currTime ≤ now := hnow e (List.mem_append_right _ List.mem_cons_self)
      have hage : Imd.imdAsTexp < e'.currTime - entry.lastSeen := of_decide_eq_true haged
      omega
  | kept _ hsame =>
      dsimp only
      rw [hsame]
      exact hold

theorem Filtered.step {t : Target} (ht : t.build = .multicast) {imdQueueId : ℕ}
    {flow : Icd.ActiveSender} {es : List HostEvent} {s s' : HostState}
    (hs : Filtered t.order flow es s) {e : HostEvent}
    (hclock : ∀ e' ∈ es, e'.currTime ≤ e.currTime) (hkept : KeptUp t.order flow s'.seen)
    (h : hostStep t imdQueueId s e = some s') : Filtered t.order flow (es ++ [e]) s' := by
  have htended : ∀ now, (∀ e' ∈ es ++ [e], e'.currTime ≤ now) → Tended t.order flow now s.seen
      (Imd.activesendersFindEntry flow s.imd.activeSenders) :=
    fun now hnow => hs.tended now fun e' he' => hnow e' (List.mem_append_left _ he')
  cases hostStep_cases h with
  | ird action ird _ _ => exact ⟨hs.unique, htended, hs.plain⟩
  | packet origin buf queue _ _ _ himd =>
      have hs' : Filtered t.order flow es { s with queue := queue } :=
        ⟨hs.unique, hs.tended, hs.plain⟩
      exact hs'.imdHandle ht hclock hkept himd
  | cleanup e' imd _ htime hnopacket himd => exact hs.cleanup htime himd hnopacket
  | idle _ => exact ⟨hs.unique, htended, hs.plain⟩

theorem seen_grows {t : Target} {imdQueueId : ℕ} {s s' : HostState} {e : HostEvent}
    (h : hostStep t imdQueueId s e = some s') : s.seen <+: s'.seen := by
  cases hostStep_cases h with
  | ird action ird _ _ => exact List.prefix_refl _
  | packet origin buf queue _ _ _ himd =>
      obtain ⟨out, -, rfl⟩ := Option.map_eq_some_iff.1 himd
      exact List.prefix_append _ _
  | cleanup e' imd _ _ _ _ => exact List.prefix_refl _
  | idle _ => exact List.prefix_refl _

/-- In every run in which packets of the flow keep coming to the IMD. -/
theorem filtered_run {t : Target} (ht : t.build = .multicast) {imdQueueId : ℕ}
    {flow : Icd.ActiveSender} {es : List HostEvent}
    (hclock : es.Pairwise fun e e' => e.currTime ≤ e'.currTime) {s : HostState}
    (h : hostRun t imdQueueId es = some s) (hkept : KeptUp t.order flow s.seen) :
    Filtered t.order flow es s := by
  induction es using List.reverseRecOn generalizing s with
  | nil =>
      obtain rfl := Option.some.inj h
      refine ⟨uniqueKeys_nil _, fun _ _ time htime => absurd htime (Option.not_mem_none time), ?_⟩
      intro before h' hprefix _ _
      exact absurd (List.prefix_nil.1 hprefix) (List.concat_ne_nil _ _)
  | append_singleton es e ih =>
      obtain ⟨s₀, hs₀, hstep⟩ := Run.runFrom_append_singleton_eq_some.1 h
      obtain ⟨hclock₀, -, hlast⟩ := List.pairwise_append.1 hclock
      have hkept₀ : KeptUp t.order flow s₀.seen :=
        hkept.prefix (((seen_grows hstep).filter _).map _)
      exact (ih hclock₀ hs₀ hkept₀).step ht
        (fun e' he' => hlast e' he' e List.mem_cons_self) hkept hstep

/-! ## The application -/

theorem currTime_seen {t : Target} {imdQueueId : ℕ} {es : List HostEvent} {s : HostState}
    (h : hostRun t imdQueueId es = some s) :
    ∀ h ∈ s.seen, ∃ e ∈ es, e.currTime = h.currTime := by
  refine Run.runFrom_history (fun es s => ∀ h ∈ HostState.seen s, ∃ e ∈ es,
    HostEvent.currTime e = h.currTime) (List.forall_mem_nil _) ?_ h
  intro es e s s' _ hseen hstep
  have hold : ∀ h ∈ s.seen, ∃ e' ∈ es ++ [e], e'.currTime = h.currTime := by
    intro h hh
    obtain ⟨e', he', htime⟩ := hseen h hh
    exact ⟨e', List.mem_append_left _ he', htime⟩
  cases hostStep_cases hstep with
  | ird action ird _ _ => exact hold
  | packet origin buf queue _ _ _ himd =>
      obtain ⟨out, -, rfl⟩ := Option.map_eq_some_iff.1 himd
      intro h hh
      rcases List.mem_append.1 hh with hh | hh
      · exact hold h hh
      · rw [List.mem_singleton.1 hh]
        exact ⟨e, List.mem_append_right _ List.mem_cons_self, rfl⟩
  | cleanup e' imd _ _ _ _ => exact hold
  | idle _ => exact hold

theorem keptUp_of_short {t : Target} {imdQueueId : ℕ} {es : List HostEvent} {s : HostState}
    (h : hostRun t imdQueueId es = some s)
    (hshort : ∀ e ∈ es, ∀ e' ∈ es, e'.currTime - e.currTime ≤ Imd.imdAsTexp)
    (flow : Icd.ActiveSender) : KeptUp t.order flow s.seen := by
  have hpairs : s.seen.Pairwise fun h h' => h'.currTime - h.currTime ≤ Imd.imdAsTexp := by
    refine List.pairwise_of_forall_mem_list fun h₁ hh₁ h₂ hh₂ => ?_
    obtain ⟨e, he, htime⟩ := currTime_seen h h₁ hh₁
    obtain ⟨e', he', htime'⟩ := currTime_seen h h₂ hh₂
    rw [← htime, ← htime']
    exact hshort e he e' he'
  exact ((hpairs.filter _).map Seen.currTime fun _ _ hle => hle).isChain

theorem linkInformation_restores {o : ByteOrder} {link : Link} {datagram packet : List UInt8}
    (hdatagram : DatagramOf link datagram) (h : Restores datagram packet) :
    Imd.linkInformation o packet = some (linkSender link) := by
  have hge := hdatagram.length_ge
  refine Imd.linkInformation_eq (by rw [h.length]; omega) ?_ ?_ ?_ ?_
  · rw [h.srcAddr, hdatagram.srcAddr]
  · rw [h.destAddr, hdatagram.destAddr]
  · rw [h.srcPort, hdatagram.srcPort]
  · rw [h.destPort, hdatagram.destPort]

/-- What the application has got of a transfer, of which the datagrams `ks` have come out of the
IRD. -/
structure Delivers (t : Target) (link : Link) (gs : List Isd.Datagram) (ks : List ℕ)
    (s : HostState) : Prop where
  datagrams : List.Forall₂ (fun k packet => ∃ g, gs[k]? = some g ∧ Restores g.buf packet) ks
    (passedOn t link.snsid s ++ waiting t link.snsid s)
  flow : ∀ packet ∈ passedOn t link.snsid s ++ waiting t link.snsid s,
    Imd.linkInformation t.order packet = some (linkSender link)
  plain : t.build = .multicast → KeptUp t.order (linkSender link) s.seen →
    PlainUntilJoined t.order (linkSender link) s.seen

/-- In every run of the ISD and of the receiver's host, for every network as in
`redundancy_exactlyOnce` and every order in which the threads of the IRD and of the IMD take
their steps: the application gets each of the first arrivals once, in their order and as it was,
except for those that still wait in the queue. In the multicast build, as long as packets of the
flow keep coming, the IMD lets plain packets of it through up to the first packet that has come
through the IRD, and none from then on. -/
theorem application_exactlyOnce (t : Target) (imdQueueId : ℕ) {link : Link}
    {gs : List Isd.Datagram} {d : Isd.Daemon} (htransfer : Transfer t link gs d)
    {as : List TimedArrival} (hnetwork : Network t link.snsid d as) {es : List HostEvent}
    (hes : irdEvents es = as.map (TimedArrival.event d))
    (hclock : es.Pairwise fun e e' => e.currTime ≤ e'.currTime) :
    ∃ s ks, hostRun t imdQueueId es = some s ∧
      ks.Nodup ∧ ks.Sublist ((received as).map Received.nb) ∧
      InArrivalOrder ((received as).map Received.nb) ks ∧
      (∀ k, k ∈ ks ↔ k ∈ (received as).map Received.nb ∧
        ∀ first ∈ ((received as).map Received.nb).head?, first ≤ k) ∧
      Delivers t link gs ks s := by
  obtain ⟨r, hr, hrestored⟩ := handedOn_run t imdQueueId htransfer hnetwork
  have hroom : ∀ e ∈ irdEvents es, Ird.HasRoom t e := by
    intro e he
    rw [hes] at he
    obtain ⟨a, ha, rfl⟩ := List.mem_map.1 he
    obtain ⟨_, hheard⟩ := htransfer.heard (hnetwork.arrivals a ha)
    exact hheard.room
  rw [← hes] at hr
  obtain ⟨s, hs, -⟩ := hostRun_defined hroom hr
  obtain rfl : s.ird = r := Option.some.inj ((hostRun_ird hs).symm.trans hr)
  rw [← passedOn_waiting (handsOver_run hs)] at hrestored
  refine ⟨s, firstArrivals ((received as).map Received.nb), hs, firstArrivals_nodup _,
    firstArrivals_sublist _, firstArrivals_inArrivalOrder _, fun k => mem_firstArrivals,
    hrestored, ?_, ?_⟩
  · have hflow : List.Forall₂ (fun packet (_ : ℕ) =>
        Imd.linkInformation t.order packet = some (linkSender link) ∧ True)
        (passedOn t link.snsid s ++ waiting t link.snsid s)
        (firstArrivals ((received as).map Received.nb)) := by
      refine hrestored.flip.imp ?_
      rintro packet k ⟨g, hg, hrestores⟩
      have hdatagram := (htransfer.datagrams g (List.mem_of_getElem? hg)).2
      exact ⟨linkInformation_restores hdatagram hrestores, trivial⟩
    exact ((List.forall₂_and_left _ _).1 hflow).1
  · intro ht hkept
    exact (filtered_run ht hclock hs hkept).plain

/-! The datagrams of the group again. Plain packets of its flow come before the first of them and
after the second, and the queue between the daemons is served in between. -/

def groupQueued : Imd.QueuedPacket := ⟨groupDatagram, Nat.le_add_right 28 2⟩

def groupEvents (d : Isd.Daemon) : List HostEvent :=
  [⟨0, .plain groupQueued⟩,
    ⟨0, .ird (.packet (groupOuter ++ packetNb d 0))⟩, ⟨0, .handOver⟩,
    ⟨1, .ird (.packet (groupOuter ++ packetNb d 2))⟩,
    ⟨1, .plain groupQueued⟩, ⟨1, .ird .cleanupStart⟩, ⟨2, .cleanupStart⟩,
    ⟨2, .ird (.packet (groupOuter ++ packetNb d 1))⟩, ⟨2, .handOver⟩,
    ⟨2, .ird (.packet (groupOuter ++ packetNb d 0))⟩]

theorem application_exactlyOnce_group :
    ∃ d s ks, Isd.run ⟨.multicast, .little⟩ groupSends = some d ∧
      hostRun ⟨.multicast, .little⟩ 3 (groupEvents d) = some s ∧
      ks.Nodup ∧ InArrivalOrder ((received groupArrivals).map Received.nb) ks ∧
      (∀ k, k ∈ ks ↔ k ∈ (received groupArrivals).map Received.nb ∧
        ∀ first ∈ ((received groupArrivals).map Received.nb).head?, first ≤ k) ∧
      List.Forall₂ (fun k packet => ∃ g, groupSends[k]? = some g ∧ Restores g.buf packet) ks
        (passedOn ⟨.multicast, .little⟩ groupLink.snsid s ++
          waiting ⟨.multicast, .little⟩ groupLink.snsid s) ∧
      PlainUntilJoined .little (linkSender groupLink) s.seen := by
  obtain ⟨d, hd, htransfer, hnetwork⟩ := groupTransfer
  have hes : irdEvents (groupEvents d) = groupArrivals.map (TimedArrival.event d) := rfl
  have hclock : (groupEvents d).Pairwise fun e e' => e.currTime ≤ e'.currTime := by
    simp [groupEvents]
  obtain ⟨s, ks, hs, hnodup, -, horder, hmem, hdelivers⟩ :=
    application_exactlyOnce ⟨.multicast, .little⟩ 3 htransfer hnetwork hes hclock
  have hkept := keptUp_of_short hs (by simp [groupEvents, Imd.imdAsTexp]) (linkSender groupLink)
  exact ⟨d, s, ks, hd, hs, hnodup, horder, hmem, hdelivers.datagrams, hdelivers.plain rfl hkept⟩

end Iprp.Session
