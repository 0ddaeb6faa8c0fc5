import Iprp.Icd.History
import Iprp.Icd.Rounds
import Iprp.Icd.Wire
import Iprp.Imd.Handle
import Iprp.Ird.Links
import Iprp.Session.Flows

/-!
# The keep-alive loop

A session stays alive because the packets of a base come back as CAPs for it: the ISD sends
them, the IRD rebuilds the fresh ones, the IMD records their sender, and the receiver's ICD
sends the CAP that the sender's ICD answers by refreshing the base. The key of the base goes
through the SNSID and the iPRP header, the rebuilt headers in network order, the active
sender in host order and the CAP, and it comes back unchanged (`keepAlive_closes`).
-/

namespace Iprp.Session

open Bytes KeyedList Icd

/-! ## The IRD -/

/-- The source address and port of a link are those of its SNSID. -/
def SourceOf (o : ByteOrder) (link : Ird.ReceiverLink) : Prop :=
  ∀ (currTime : ℤ) (header : IprpHeader), header.snsid = link.snsid →
    link.srcAddr = (Ird.receiverLinkCreate o currTime header).srcAddr ∧
      link.srcPort = (Ird.receiverLinkCreate o currTime header).srcPort

theorem sourceOf_create (o : ByteOrder) (currTime : ℤ) (header : IprpHeader) :
    SourceOf o (Ird.receiverLinkCreate o currTime header) := by
  intro currTime' header' hsnsid
  have heq : header'.snsid = header.snsid := hsnsid
  simp only [Ird.receiverLinkCreate, heq, and_self]

theorem SourceOf.judged {o : ByteOrder} {link link' : Ird.ReceiverLink} {seqNb : UInt32}
    {currTime : ℤ} {fresh : Bool} (hlink : SourceOf o link)
    (h : Ird.isFreshPacket seqNb { link with lastSeen := currTime } = some (fresh, link')) :
    SourceOf o link' := by
  obtain ⟨_, _, rfl⟩ := Ird.isFreshPacket_frame h
  exact hlink

theorem sourceOf_run {o : ByteOrder} {es : List Ird.Event} {s : Ird.State}
    (h : Ird.run o es = some s) : ∀ link ∈ s.receiverLinks, SourceOf o link := by
  refine Run.runFrom_preserved (fun s : Ird.State => ∀ link ∈ s.receiverLinks, SourceOf o link)
    ?_ (fun link hlink => by cases hlink) h
  rintro s ⟨currTime, action⟩ s' hs hstep
  cases action with
  | packet header =>
      rcases Ird.packetStep_cases hstep with ⟨_, rfl⟩ | ⟨link, fresh, link', hlink, hfresh, rfl⟩
      · intro link hlink
        rcases List.mem_append.1 hlink with hold | hnew
        · exact hs link hold
        · rw [List.mem_singleton.1 hnew]
          exact sourceOf_create o currTime header
      · exact forall_mem_update hs fun _ _ => (hs link (mem_of_lookup hlink)).judged hfresh
  | cleanupStart =>
      obtain ⟨iterator, heq⟩ := Ird.cleanupStart_eq s
      obtain rfl := Option.some.inj hstep
      rw [heq]
      exact hs
  | cleanupIteration =>
      obtain rfl := Option.some.inj hstep
      rcases Ird.cleanupIteration_cases currTime s with
        ⟨iterator, heq, _⟩ | ⟨i, link, iterator, _, _, _, heq⟩
      · rw [heq]
        exact hs
      · rw [heq]
        intro link' hlink'
        exact hs link' (List.mem_of_mem_eraseIdx hlink')

theorem judgePacket_link {o : ByteOrder} {currTime : ℤ} {header : IprpHeader}
    {receiverLinks receiverLinks' : List Ird.ReceiverLink} {fresh : Bool}
    {link : Ird.ReceiverLink} (hlinks : ∀ link ∈ receiverLinks, SourceOf o link)
    (h : Ird.judgePacket o currTime header receiverLinks =
      some (fresh, link, receiverLinks')) :
    link.snsid = header.snsid ∧ SourceOf o link := by
  unfold Ird.judgePacket Ird.receiverLinkGet at h
  cases hfound : lookup Ird.ReceiverLink.snsid header.snsid receiverLinks with
  | none =>
      rw [hfound] at h
      obtain ⟨_, heq⟩ := Prod.mk.inj (Option.some.inj h)
      obtain ⟨rfl, _⟩ := Prod.mk.inj heq
      exact ⟨rfl, sourceOf_create o currTime header⟩
  | some link₀ =>
      rw [hfound] at h
      obtain ⟨⟨fresh', link'⟩, hfresh, hjudged⟩ := Option.map_eq_some_iff.1 h
      obtain ⟨rfl, hlink⟩ := Prod.mk.inj hjudged
      obtain ⟨rfl, _⟩ := Prod.mk.inj hlink
      exact ⟨(Ird.isFreshPacket_snsid hfresh).trans (key_of_lookup hfound),
        (hlinks link₀ (mem_of_lookup hfound)).judged hfresh⟩

theorem handlePacket_queue {t : Target} {imdQueueId queueNum : ℕ} {currTime : ℤ}
    {buf newPacket : List UInt8} {receiverLinks receiverLinks' : List Ird.ReceiverLink}
    (h : Ird.handlePacket t imdQueueId currTime buf receiverLinks =
      some (.queue queueNum newPacket, receiverLinks')) :
    ∃ header link rebuilt, readHeader t buf 28 = some header ∧
      Ird.judgePacket t.order currTime header receiverLinks =
        some (true, link, receiverLinks') ∧
      Ird.createNewPacket t buf header (sizeSub buf.length (28 + iprpHeaderSize t.build))
        link.srcAddr link.srcPort = some rebuilt ∧
      newPacket = rebuilt.take
        ((sizeSub buf.length (28 + iprpHeaderSize t.build) + 28) % 2 ^ 64) := by
  unfold Ird.handlePacket at h
  obtain ⟨header, hheader, h⟩ := Option.bind_eq_some_iff.1 h
  obtain ⟨⟨fresh, link, links⟩, hjudge, h⟩ := Option.bind_eq_some_iff.1 h
  cases fresh with
  | false => cases h
  | true =>
      obtain ⟨rebuilt, hrebuilt, h⟩ := Option.bind_eq_some_iff.1 h
      obtain ⟨hverdict, rfl⟩ := Prod.mk.inj (Option.some.inj h)
      cases hverdict
      exact ⟨header, link, rebuilt, hheader, hjudge, hrebuilt, rfl⟩

/-! ## From the base to the active sender -/

/-- The active sender for the flow of a link. -/
def linkSender (link : Link) : ActiveSender :=
  ⟨link.srcAddr, link.destAddr, link.srcPort, link.destPort⟩

theorem linkInformation_newPacket {t : Target} {link : Link} {seqNb : UInt32}
    {outer packet rebuilt : List UInt8} {payloadSize size : ℕ} (houter : outer.length = 28)
    (hgroup : t.build = .multicast → read outer 16 4 = link.destAddr.toList)
    (hsize : 24 ≤ size)
    (hspec : Ird.NewPacket t (outer ++ packet) (Isd.linkHeader t link seqNb)
      payloadSize link.srcAddr link.srcPort rebuilt) :
    Imd.linkInformation t.order (rebuilt.take size) = some (linkSender link) := by
  have hlen : 24 ≤ (rebuilt.take size).length := by
    rw [List.length_take, hspec.length, List.length_append, houter]
    omega
  have hdest : read rebuilt 16 4 = link.destAddr.toList := by
    rw [hspec.destAddr]
    cases hb : t.build with
    | unicast => simp only [Isd.linkHeader, hb]
    | multicast => exact (read_append_left (by omega)).trans (hgroup hb)
  apply Imd.linkInformation_eq hlen
  · rw [read_take (by omega), hspec.srcAddr]
  · rw [read_take (by omega), hdest]
  · rw [read_take (by omega), hspec.srcPort]
  · rw [read_take (by omega), hspec.destPort]
    rfl

theorem createIprpPacket_packetOf {t : Target} {link : Link} {heap : ℕ → UInt8}
    {seqNb seqNb' : UInt32} {datagram packet : List UInt8} (hlen : datagram.length < 65536)
    (h : Isd.createIprpPacket t link heap seqNb datagram = some (packet, seqNb')) :
    ∃ payload, payload.length < 65536 ∧ Isd.PacketOf t link seqNb payload packet := by
  obtain ⟨payload, hload⟩ := Isd.load_of_createIprpPacket h
  have hsmall : payload.length < 65536 := by
    unfold load at hload
    split at hload
    · next hfit =>
        rw [← Option.some.inj hload, length_read hfit]
        omega
    · cases hload
  obtain ⟨packet', hpacket', hof⟩ := Isd.createIprpPacket_defined t link heap seqNb hload
  rw [h] at hpacket'
  obtain ⟨rfl, _⟩ := Prod.mk.inj (Option.some.inj hpacket')
  exact ⟨payload, hsmall, hof⟩

theorem handlePacket_sender {t : Target} {link : Link} (hsnsid : HasSnsid t link)
    {heap : ℕ → UInt8} {seqNb seqNb' : UInt32} {datagram packet : List UInt8}
    (hlen : datagram.length < 65536)
    (hpacket : Isd.createIprpPacket t link heap seqNb datagram = some (packet, seqNb'))
    {outer : List UInt8} (houter : outer.length = 28)
    (hgroup : t.build = .multicast → read outer 16 4 = link.destAddr.toList)
    {receiverLinks receiverLinks' : List Ird.ReceiverLink}
    (hlinks : ∀ link ∈ receiverLinks, SourceOf t.order link) {imdQueueId queueNum : ℕ}
    {currTime : ℤ} {newPacket : List UInt8}
    (h : Ird.handlePacket t imdQueueId currTime (outer ++ packet) receiverLinks =
      some (.queue queueNum newPacket, receiverLinks')) :
    Imd.linkInformation t.order newPacket = some (linkSender link) := by
  obtain ⟨payload, hsmall, hof⟩ := createIprpPacket_packetOf hlen hpacket
  obtain ⟨header, rlink, rebuilt, hheader, hjudge, hrebuilt, rfl⟩ := handlePacket_queue h
  have hpart : readHeader t (outer ++ packet) 28 = some (Isd.linkHeader t link seqNb) := by
    rw [← houter, readHeader_append]
    exact hof.header
  obtain rfl := Option.some.inj (hpart.symm.trans hheader)
  -- the IRD takes the source out of the SNSID
  obtain ⟨hkey, hsource⟩ := judgePacket_link hlinks hjudge
  obtain ⟨rebootCounter, hbuilt⟩ := hsnsid
  obtain ⟨haddr, hport⟩ := receiverLinkCreate_snsid (o := t.order)
    (Isd.linkHeader t link seqNb) hbuilt currTime
  obtain ⟨hsrcAddr, hsrcPort⟩ := hsource currTime (Isd.linkHeader t link seqNb) hkey.symm
  rw [hsrcAddr, hsrcPort, haddr, hport] at hrebuilt
  have hsizes : iprpHeaderSize t.build ≤ 192 := by
    cases t.build with
    | unicast => decide
    | multicast => decide
  have htotal : (outer ++ packet).length =
      payload.length + (28 + iprpHeaderSize t.build) := by
    rw [List.length_append, houter, hof.length]
    omega
  have hsize : sizeSub (outer ++ packet).length (28 + iprpHeaderSize t.build) =
      payload.length := by
    rw [htotal, sizeSub_of_le (by omega) (by omega)]
    omega
  rw [hsize] at hrebuilt ⊢
  have hfit : 28 + iprpHeaderSize t.build + payload.length ≤ (outer ++ packet).length := by
    omega
  obtain ⟨rebuilt', hrebuilt', hspec⟩ := Ird.createNewPacket_defined t
    (Isd.linkHeader t link seqNb) payload.length link.srcAddr link.srcPort hfit
  rw [hrebuilt] at hrebuilt'
  obtain rfl := Option.some.inj hrebuilt'
  exact linkInformation_newPacket houter hgroup (by omega) hspec

/-! ## From the active sender back to the base -/

theorem serving_run {c : Config} {es : List Event} {s : State} (h : run c es = some s) :
    s.serving = true := by
  refine Run.runFrom_preserved (fun s : State => s.serving = true) ?_ rfl h
  rintro s ⟨currTime, action⟩ s' hs hstep
  cases action with
  | cap heap msg =>
      obtain ⟨control, hcontrol, rfl⟩ := Option.map_eq_some_iff.1 hstep
      have hserving : handleMessage c currTime heap (.cap msg) s.toControl = some control →
          control.serving = s.serving := handleMessage_serving
      exact (hserving hcontrol).trans hs
  | pbStart =>
      obtain ⟨iterator, heq⟩ := pbStart_eq s
      obtain rfl := Option.some.inj hstep
      rw [heq]
      exact hs
  | pbIteration pid =>
      obtain rfl := Option.some.inj hstep
      obtain ⟨peerbases, heq⟩ := pbIteration_control c currTime pid s
      rw [heq]
      exact hs

/-- The list of bases changes in nothing but the refreshed base: its `last_cap` is the
current time and its link is the same. -/
structure Refreshes (base : IcdBase) (currTime : ℤ) (s s' : Control) : Prop where
  bases : ∃ i base', s.peerbases[i]? = some base ∧ s'.peerbases = s.peerbases.set i base' ∧
    base'.link = base.link ∧ base'.lastCap = currTime
  rebootCounter : s'.rebootCounter = s.rebootCounter

theorem cap_refreshes {c : Config} {es : List Event} {s : State} (hrun : run c es = some s)
    {base : IcdBase} (hbase : base ∈ s.peerbases) (msg : CapMsg) (hkey : msg.key = base.key)
    (currTime : ℤ) (heap : Heap) :
    peerbaseQuery msg s.peerbases = some base ∧
      ∃ s', handleCap c currTime heap msg s.toControl = some s' ∧
        Refreshes base currTime s.toControl s' := by
  have hunique := uniqueKeys_run hrun
  have hfound : peerbaseQuery msg s.peerbases = some base := by
    rw [peerbaseQuery, hkey]
    exact lookup_of_mem hunique hbase
  obtain ⟨i, hi⟩ := List.mem_iff_getElem?.1 hbase
  refine ⟨hfound, _, by rw [handleCap, hfound], ⟨i, updateBase c currTime msg base, hi, ?_, rfl,
    rfl⟩, ?_⟩
  · rw [sendAck_peerbases, set_eq_update hunique hi, hkey]
  · rw [sendAck_rebootCounter]

/-! ## The loop -/

/-- What a packet handed to the IMD leads to: the IMD records its sender, the CAP of the
receiver's ICD for that entry goes to the source address of the base, and when the sender's
ICD receives it, it finds the base, creates no other and refreshes it. -/
def Closes (c : Config) (s : State) (base : IcdBase) (newPacket : List UInt8) : Prop :=
  ∀ (this : LocalHost) (imdTime : ℤ) (activeSenders : List Imd.Entry) (stack : ℕ → UInt8)
    (currTime : ℤ) (heap : Heap),
    ∃ handled, Imd.globalHandle c.target imdTime true newPacket activeSenders =
        some handled ∧
      handled.entry ∈ handled.activeSenders ∧
      let cap := capTo c.target.build this.toHost handled.entry.toActiveSender
      cap.destination = ⟨base.link.srcAddr, iprpCtlPort⟩ ∧
        peerbaseQuery cap.msg s.peerbases = some base ∧
        ∃ s', controlStep c s.toControl
            ⟨currTime, heap, capBytes c.target stack cap.msg⟩ = some s' ∧
          Refreshes base currTime s.toControl s'

/-- For every listed base: a packet that its ISD builds, sends as a copy of its datagram and
that an IRD in any reachable state judges fresh and rebuilds, closes the loop on the base. -/
theorem keepAlive_closes (c : Config) {es : List Event} {s : State}
    (hrun : run c es = some s) {base : IcdBase} (hbase : base ∈ s.peerbases)
    (peerbase : Peerbase) (hlink : peerbase.link = base.link) {isdHeap : ℕ → UInt8}
    {seqNb seqNb' : UInt32} {datagram packet : List UInt8} (hlen : datagram.length < 65536)
    (hpacket : Isd.createIprpPacket c.target peerbase.link isdHeap seqNb datagram =
      some (packet, seqNb'))
    (iface : Iface) {addr : InAddr}
    (hcopy : Isd.copyAddr c.target.build peerbase iface = some addr) {outer : List UInt8}
    (houter : outer.length = 28) (hdest : read outer 16 4 = addr.toList)
    (ies : List Ird.Event) {r : Ird.State} (hird : Ird.run c.target.order ies = some r)
    {imdQueueId : ℕ} {irdTime : ℤ} {newPacket : List UInt8}
    {receiverLinks : List Ird.ReceiverLink}
    (hfresh : Ird.handlePacket c.target imdQueueId irdTime (outer ++ packet)
      r.receiverLinks = some (.queue imdQueueId newPacket, receiverLinks)) :
    Closes c s base newPacket := by
  intro this imdTime activeSenders stack currTime heap
  rw [hlink] at hpacket
  have hgroup : c.target.build = .multicast → read outer 16 4 = base.link.destAddr.toList := by
    intro hb
    unfold Isd.copyAddr at hcopy
    rw [hb] at hcopy
    rw [hdest, ← Option.some.inj hcopy, hlink]
  have hsender := handlePacket_sender (hasSnsid_run hrun hbase) hlen hpacket houter hgroup
    (sourceOf_run hird) hfresh
  obtain ⟨handled, hhandled, hentry, hmem, _⟩ :=
    Imd.globalHandle_records hsender imdTime true activeSenders
  have hactive : handled.entry.toActiveSender = linkSender base.link := hentry
  refine ⟨handled, hhandled, hmem, ?_⟩
  rw [hactive]
  obtain ⟨hfound, s', hs', hrefreshes⟩ := cap_refreshes hrun hbase
    (sendCap c.target.build this.toHost (linkSender base.link)) rfl currTime heap
  refine ⟨rfl, hfound, s', ?_, hrefreshes⟩
  rw [controlStep, if_pos (serving_run hrun), if_pos (passesCheck_capBytes c.target stack _)]
  dsimp only [capTo]
  rw [messageOf_sendCap]
  exact hs'

/-- The CAP for the flow of `groupDatagram`. -/
def groupCap : CapMsg :=
  sendCap .multicast smallHost.toHost ⟨inAddr 10 0 0 1, inAddr 239 0 0 1, 4000, 5000⟩

/-- The packet of `groupDatagram` from an ISD whose peerbase has the given link. -/
def groupPacket (link : Link) : List UInt8 :=
  ((Isd.createIprpPacket ⟨.multicast, .little⟩ link (fun _ => 0xff) 1 groupDatagram).map
    Prod.fst).getD []

theorem keepAlive_closes_group :
    ∃ s base newPacket, run (smallConfig .multicast) [⟨0, .cap smallHeap groupCap⟩] = some s ∧
      base ∈ s.peerbases ∧ Closes (smallConfig .multicast) s base newPacket := by
  have hbases : (run (smallConfig .multicast) [⟨0, .cap smallHeap groupCap⟩]).map
      (fun s => s.peerbases.map IcdBase.link) = some [{ groupLink with
        snsid := Icd.snsid .little (inAddr 10 0 0 1) 4000 0 }] := by
    decide +kernel
  obtain ⟨s, hs, hlinks⟩ := Option.map_eq_some_iff.1 hbases
  obtain ⟨base, hbase, hlink⟩ := List.mem_map.1 (hlinks ▸ List.mem_singleton.2 rfl)
  have hdest : read (groupDatagram.take 28) 16 4 = base.link.destAddr.toList := by
    rw [hlink]
    decide
  have hbuilt : (Isd.createIprpPacket ⟨.multicast, .little⟩ base.link (fun _ => 0xff) 1
      groupDatagram).map Prod.snd = some 2 := by
    rw [hlink]
    decide +kernel
  obtain ⟨⟨packet, seqNb'⟩, hpacket, _⟩ := Option.map_eq_some_iff.1 hbuilt
  have hjudged : (Ird.handlePacket ⟨.multicast, .little⟩ 3 0
      (groupDatagram.take 28 ++ groupPacket base.link) []).any (fun r =>
        match r.1 with
        | .queue n _ => n == 3
        | .drop _ => false) = true := by
    rw [hlink]
    decide +kernel
  rw [groupPacket, hpacket] at hjudged
  obtain ⟨⟨verdict, receiverLinks⟩, hhandled, hqueue⟩ := (Option.any_eq_true _ _).1 hjudged
  cases verdict with
  | drop _ => cases hqueue
  | queue n newPacket =>
      obtain rfl : n = 3 := by simpa using hqueue
      exact ⟨s, base, newPacket, hs, hbase, keepAlive_closes (smallConfig .multicast) hs hbase
        (createPeerbase smallHost.toHost base) rfl (by decide) hpacket
        ⟨0, inAddr 10 0 0 1⟩ rfl (by decide) hdest [] rfl hhandled⟩

end Iprp.Session
