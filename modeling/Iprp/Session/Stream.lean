import Iprp.Ird.Duplicate
import Iprp.Isd.Packet
import Mathlib.Data.List.Iterate

/-!
# A stream that arrives in order

The ISD numbers the packets of a link with a counter that goes from `UINT32_MAX` to `1`,
and the IRD compares the numbers as plain unsigned integers. While the counter has not
passed `UINT32_MAX` every number of a loss-free stream is one above `highSn` and fresh;
the gap loop notes nothing, so the ring stays zero and after the wrap every number is
taken for a duplicate (`inOrder_judged`). `stream_fresh_iff` puts the sender, any other
traffic and the cleanup pass around this.
-/

namespace Iprp.Session

open Bytes KeyedList

/-! ## What the ISD emits -/

/-- The headers of the packets that an ISD creates from `n` datagrams. -/
def streamHeaders (t : Target) (link : Link) (seqNb : UInt32) (n : ℕ) : List IprpHeader :=
  (List.iterate Isd.nextSeqNb seqNb n).map (Isd.linkHeader t link)

theorem emit_headers {t : Target} {link : Link} {seqNb : UInt32}
    {bufs : List ((ℕ → UInt8) × List UInt8)} {packets : List (List UInt8)}
    (h : Isd.emit t link seqNb bufs = some packets) :
    packets.map (readHeader t · 0) = (streamHeaders t link seqNb bufs.length).map some := by
  induction bufs generalizing seqNb packets with
  | nil =>
      obtain rfl : [] = packets := Option.some.inj h
      rfl
  | cons buf bufs ih =>
      obtain ⟨heap, buf⟩ := buf
      rw [Isd.emit, Option.bind_eq_bind, Option.bind_eq_some_iff] at h
      obtain ⟨⟨packet, seqNb'⟩, hpacket, h⟩ := h
      obtain ⟨packets', hpackets, h⟩ := Option.bind_eq_some_iff.1 h
      obtain rfl : packet :: packets' = packets := Option.some.inj h
      obtain ⟨payload, hload⟩ := Isd.load_of_createIprpPacket hpacket
      obtain ⟨packet', hpacket', hof⟩ :=
        Isd.createIprpPacket_defined t link heap seqNb hload
      obtain ⟨rfl, rfl⟩ := Prod.mk.inj (Option.some.inj (hpacket.symm.trans hpacket'))
      rw [List.map_cons, hof.header, ih hpackets]
      rfl

theorem emit_defined (t : Target) (link : Link) (seqNb : UInt32)
    (bufs : List ((ℕ → UInt8) × List UInt8))
    (hbufs : ∀ buf ∈ bufs, 28 ≤ buf.2.length ∧ buf.2.length < 2 ^ 64) :
    ∃ packets, Isd.emit t link seqNb bufs = some packets := by
  induction bufs generalizing seqNb with
  | nil => exact ⟨[], rfl⟩
  | cons buf bufs ih =>
      obtain ⟨hge, hlt⟩ := hbufs buf List.mem_cons_self
      have hload : load buf.2 28 (sizeSub buf.2.length 28) =
          some (read buf.2 28 (sizeSub buf.2.length 28)) := by
        rw [sizeSub_of_le hge hlt]
        exact load_eq_read (by omega)
      obtain ⟨packet, hpacket, _⟩ :=
        Isd.createIprpPacket_defined t link buf.1 seqNb hload
      obtain ⟨packets, hpackets⟩ := ih (Isd.nextSeqNb seqNb)
        fun buf' h => hbufs buf' (List.mem_cons_of_mem buf h)
      refine ⟨packet :: packets, ?_⟩
      simp only [Isd.emit, hpacket, hpackets, Option.bind_eq_bind, Option.bind_some,
        Option.pure_def]

theorem iterate_nextSeqNb {seqNb : UInt32} {k : ℕ} (h : seqNb.toNat + k < 2 ^ 32) :
    (Isd.nextSeqNb^[k] seqNb).toNat = seqNb.toNat + k := by
  induction k with
  | zero => rfl
  | succ k ih =>
      have hk := ih (by omega)
      rw [Function.iterate_succ_apply', Isd.nextSeqNb, if_neg]
      · rw [UInt32.toNat_add, hk]
        simp only [UInt32.toNat_ofNat]
        omega
      · intro hmax
        rw [hmax] at hk
        simp only [UInt32.toNat_ofNat] at hk
        omega

theorem iterate_nextSeqNb_ne_zero (seqNb : UInt32) (k : ℕ) :
    Isd.nextSeqNb^[k + 1] seqNb ≠ 0 := by
  rw [Function.iterate_succ_apply', Isd.nextSeqNb]
  split
  · decide
  · next hmax =>
      intro hzero
      apply hmax
      have hadd : (Isd.nextSeqNb^[k] seqNb + 1).toNat = 0 := by rw [hzero]; rfl
      have hlt : (Isd.nextSeqNb^[k] seqNb).toNat < 2 ^ 32 := UInt32.toNat_lt _
      rw [UInt32.toNat_add] at hadd
      apply UInt32.toNat_inj.1
      simp only [UInt32.toNat_ofNat] at hadd ⊢
      omega

/-! ## What the IRD makes of it -/

/-- The link of a loss-free stream that began at `seqNb`, after the packets that got the
verdicts: up to the wrap all are fresh, and afterwards `highSn` stays at its maximum and
at least one packet has been refused. -/
structure InOrder (seqNb : UInt32) (link : Ird.ReceiverLink)
    (verdicts : List (UInt32 × Bool)) : Prop where
  listSn : ∀ j, link.listSn j = 0
  upto : seqNb.toNat + verdicts.length ≤ 2 ^ 32 →
    link.highSn.toNat + 1 = seqNb.toNat + verdicts.length ∧ ∀ v ∈ verdicts, v.2 = true
  beyond : 2 ^ 32 < seqNb.toNat + verdicts.length →
    link.highSn = 4294967295 ∧ ∃ v ∈ verdicts, v.2 = false

theorem inOrder_created (o : ByteOrder) (currTime : ℤ) (header : IprpHeader) :
    InOrder header.seqNb (Ird.receiverLinkCreate o currTime header)
      [(header.seqNb, true)] := by
  have hlt : header.seqNb.toNat < 2 ^ 32 := UInt32.toNat_lt _
  refine ⟨fun j => rfl, ?_, ?_⟩
  · intro _
    exact ⟨rfl, by simp⟩
  · intro h
    simp only [List.length_singleton] at h
    omega

theorem isFreshPacket_refused {seqNb : UInt32} (hseq : seqNb ≠ 0)
    {link : Ird.ReceiverLink} (hsn : ∀ j, link.listSn j = 0)
    (hhigh : link.highSn = 4294967295) :
    Ird.isFreshPacket seqNb link = some (false, link) := by
  have hle : ¬ link.highSn < seqNb := by
    rw [hhigh, UInt32.lt_iff_toNat_lt]
    have hlt : seqNb.toNat < 2 ^ 32 := UInt32.toNat_lt _
    simp only [UInt32.toNat_ofNat]
    omega
  have hlate : link.listSn (Ird.lateIndex seqNb) ≠ seqNb := by
    rw [hsn]
    exact hseq.symm
  unfold Ird.isFreshPacket
  rw [if_neg hle, if_neg hlate, ite_self]

theorem isFreshPacket_next {seqNb : UInt32} {link : Ird.ReceiverLink}
    (hnext : seqNb.toNat = link.highSn.toNat + 1) :
    Ird.isFreshPacket seqNb link = some (true, { link with highSn := seqNb }) := by
  have hlt : link.highSn < seqNb := by
    rw [UInt32.lt_iff_toNat_lt]
    omega
  have hne : seqNb ≠ link.highSn := by
    rintro rfl
    omega
  have hgap : Ird.noteGap link.listSn link.highSn seqNb = some link.listSn := by
    rw [Ird.noteGap, hnext, Nat.sub_self]
    rfl
  unfold Ird.isFreshPacket
  rw [if_neg hne, if_pos hlt, hgap]
  rfl

theorem inOrder_judged {seqNb : UInt32} {link : Ird.ReceiverLink}
    {verdicts : List (UInt32 × Bool)} (h : InOrder seqNb link verdicts)
    (hne : verdicts ≠ []) (currTime : ℤ) :
    ∃ fresh link',
      Ird.isFreshPacket (Isd.nextSeqNb^[verdicts.length] seqNb)
        { link with lastSeen := currTime } = some (fresh, link') ∧
      InOrder seqNb link' (verdicts ++ [(Isd.nextSeqNb^[verdicts.length] seqNb, fresh)]) := by
  have hpos : 0 < verdicts.length := List.length_pos_iff.2 hne
  have hhigh := UInt32.toNat_lt link.highSn
  by_cases hlt : seqNb.toNat + verdicts.length < 2 ^ 32
  · obtain ⟨hlast, hall⟩ := h.upto (le_of_lt hlt)
    have hseq := iterate_nextSeqNb hlt
    refine ⟨true, _, isFreshPacket_next (hseq.trans hlast.symm), h.listSn, ?_, ?_⟩
    · intro _
      rw [List.length_append, List.length_singleton, ← Nat.add_assoc]
      refine ⟨congrArg (· + 1) hseq, ?_⟩
      intro v hv
      rcases List.mem_append.1 hv with hv | hv
      · exact hall v hv
      · rw [List.mem_singleton.1 hv]
    · intro hbeyond
      rw [List.length_append, List.length_singleton] at hbeyond
      omega
  · -- the counter has passed its maximum, and `highSn` stands there
    have hmax : link.highSn = 4294967295 := by
      rcases lt_or_eq_of_le (not_lt.1 hlt) with hbeyond | heq
      · exact (h.beyond hbeyond).1
      · apply UInt32.toNat_inj.1
        have hlast := (h.upto heq.ge).1
        simp only [UInt32.toNat_ofNat]
        omega
    have hnonzero : Isd.nextSeqNb^[verdicts.length] seqNb ≠ 0 := by
      obtain ⟨k, hk⟩ := Nat.exists_eq_succ_of_ne_zero (Nat.pos_iff_ne_zero.1 hpos)
      rw [hk]
      exact iterate_nextSeqNb_ne_zero seqNb k
    refine ⟨false, _, isFreshPacket_refused hnonzero h.listSn hmax, h.listSn, ?_, ?_⟩
    · intro hupto
      rw [List.length_append, List.length_singleton] at hupto
      omega
    · intro _
      exact ⟨hmax, _, List.mem_append_right _ (List.mem_singleton_self _), rfl⟩

/-- What the IRD keeps about a stream from `seqNb` after its first `m` packets. -/
inductive StreamStatus (seqNb : UInt32) (σ : Ird.Sender) (m : ℕ) : Prop where
  | before (hσ : σ = ⟨none, []⟩) (hm : m = 0)
  | during (link : Ird.ReceiverLink) (hlink : σ.link = some link) (hne : σ.verdicts ≠ [])
      (hm : σ.verdicts.length = m) (h : InOrder seqNb link σ.verdicts)

theorem StreamStatus.packet {o : ByteOrder} {seqNb : UInt32} {σ : Ird.Sender} {m : ℕ}
    (h : StreamStatus seqNb σ m) {header : IprpHeader}
    (hseq : header.seqNb = Isd.nextSeqNb^[m] seqNb) (currTime : ℤ) :
    ∃ σ', Ird.senderStep o σ ⟨currTime, .packet header⟩ = some σ' ∧
      StreamStatus seqNb σ' (m + 1) := by
  cases h with
  | before hσ hm =>
      subst hσ hm
      obtain rfl : seqNb = header.seqNb := hseq.symm
      exact ⟨_, rfl, .during _ rfl (List.cons_ne_nil _ _) rfl
        (inOrder_created o currTime header)⟩
  | during link hlink hne hm h =>
      obtain ⟨fresh, link', hfresh, h'⟩ := inOrder_judged h hne currTime
      rw [hm, ← hseq] at hfresh h'
      refine ⟨⟨some link', σ.verdicts ++ [(header.seqNb, fresh)]⟩, ?_,
        .during link' rfl (by simp) ?_ h'⟩
      · simp only [Ird.senderStep, hlink, hfresh, Option.map_some]
      · rw [List.length_append, hm, List.length_singleton]

theorem StreamStatus.examine {o : ByteOrder} {seqNb : UInt32} {σ : Ird.Sender} {m : ℕ}
    (h : StreamStatus seqNb σ m) (currTime : ℤ)
    (hlive : ∀ link, σ.link = some link → ¬ Ird.expired currTime link) :
    Ird.senderStep o σ ⟨currTime, .examine⟩ = some σ := by
  cases h with
  | before hσ hm => rw [hσ]; rfl
  | during link hlink hne hm h =>
      have hexp : Ird.expired currTime link = false := by simpa using hlive link hlink
      obtain ⟨link', verdicts⟩ := σ
      obtain rfl : link' = some link := hlink
      simp [Ird.senderStep, hexp]

/-- No cleanup iteration of the run finds the link of `x` expired. -/
def NeverExpires (o : ByteOrder) (x : Snsid) (es : List Ird.Event) : Prop :=
  ∀ k s currTime link, Ird.run o (es.take k) = some s →
    es[k]? = some ⟨currTime, .cleanupIteration⟩ → s.examined = some link →
    link.snsid = x → ¬ Ird.expired currTime link

theorem NeverExpires.of_append {o : ByteOrder} {x : Snsid} {es es' : List Ird.Event}
    (h : NeverExpires o x (es ++ es')) : NeverExpires o x es := by
  intro k s currTime link hs he
  have hk : k < es.length := (List.getElem?_eq_some_iff.1 he).1
  apply h k s currTime link
  · rwa [List.take_append_of_le_length (le_of_lt hk)]
  · rwa [List.getElem?_append_left hk]

/-- One step of the IRD, seen from the stream: a packet of the stream is judged as the next
one, everything else leaves the link of the stream as it is. -/
theorem StreamStatus.step {o : ByteOrder} {x : Snsid} {seqNb : UInt32} {s : Ird.State}
    {m : ℕ} {e : Ird.Event} (hstatus : StreamStatus seqNb (Ird.senderOf x s) m)
    (hunique : UniqueKeys Ird.ReceiverLink.snsid s.receiverLinks)
    (hother : ∀ header, e.action = .packet header → header.snsid ≠ x →
      ∃ s', Ird.packetStep o e.currTime header s = some s')
    (hlive : ∀ link, e.action = .cleanupIteration → s.examined = some link →
      link.snsid = x → ¬ Ird.expired e.currTime link)
    (hseq : ∀ p, Ird.packetsOf x [e] = [p] → p.2.seqNb = Isd.nextSeqNb^[m] seqNb) :
    ∃ s', Ird.step o s e = some s' ∧
      StreamStatus seqNb (Ird.senderOf x s') (m + (Ird.packetsOf x [e]).length) := by
  obtain ⟨currTime, action⟩ := e
  cases action with
  | packet header =>
      by_cases hx : header.snsid = x
      · subst hx
        have hone : Ird.packetsOf header.snsid [⟨currTime, .packet header⟩] =
            [(currTime, header)] := by simp [Ird.packetsOf]
        obtain ⟨σ', hσ', hstatus'⟩ := hstatus.packet (o := o) (hseq _ hone) currTime
        obtain ⟨s', hs'⟩ := Ird.packetStep_defined hσ'
        obtain rfl : σ' = Ird.senderOf header.snsid s' :=
          Option.some.inj (hσ'.symm.trans (Ird.packetStep_senderOf hs'))
        rw [hone, List.length_singleton]
        exact ⟨s', hs', hstatus'⟩
      · obtain ⟨s', hs'⟩ := hother header rfl hx
        have hnone : Ird.packetsOf x [⟨currTime, .packet header⟩] = [] := by
          simp [Ird.packetsOf, hx]
        rw [hnone, List.length_nil, Nat.add_zero]
        refine ⟨s', hs', ?_⟩
        rwa [Ird.packetStep_senderOf_of_ne hx hs']
  | cleanupStart =>
      obtain ⟨iterator, heq⟩ := Ird.cleanupStart_eq s
      refine ⟨Ird.cleanupStart s, rfl, ?_⟩
      rwa [heq]
  | cleanupIteration =>
      refine ⟨Ird.cleanupIteration currTime s, rfl, ?_⟩
      change StreamStatus seqNb (Ird.senderOf x (Ird.cleanupIteration currTime s)) m
      by_cases hx : s.examined.map Ird.ReceiverLink.snsid = some x
      · obtain ⟨link, hlink, rfl⟩ := Option.map_eq_some_iff.1 hx
        have hlook : (Ird.senderOf link.snsid s).link = some link :=
          lookup_of_mem hunique (Ird.mem_of_examined hlink)
        have hgood : ∀ link', (Ird.senderOf link.snsid s).link = some link' →
            ¬ Ird.expired currTime link' := by
          intro link' hlink'
          obtain rfl : link = link' := Option.some.inj (hlook.symm.trans hlink')
          exact hlive link rfl hlink rfl
        have hsame := hstatus.examine (o := o) currTime hgood
        rw [Ird.cleanupIteration_senderOf currTime hunique hlink] at hsame
        rwa [Option.some.inj hsame]
      · rwa [Ird.cleanupIteration_senderOf_of_ne currTime hx]

/-- The run of the IRD on a stream and any other traffic with numbers in range. -/
theorem run_stream {o : ByteOrder} {x : Snsid} {seqNb : UInt32} {es : List Ird.Event}
    (hothers : ∀ s, ∀ e ∈ es, ∀ header, e.action = .packet header → header.snsid ≠ x →
      ∃ s', Ird.packetStep o e.currTime header s = some s')
    (hlive : NeverExpires o x es)
    (hseq : ∀ m p, (Ird.packetsOf x es)[m]? = some p →
      p.2.seqNb = Isd.nextSeqNb^[m] seqNb) :
    ∃ s, Ird.run o es = some s ∧
      UniqueKeys Ird.ReceiverLink.snsid s.receiverLinks ∧
      StreamStatus seqNb (Ird.senderOf x s) (Ird.packetsOf x es).length := by
  induction es using List.reverseRecOn with
  | nil => exact ⟨Ird.init, rfl, uniqueKeys_nil _, .before rfl rfl⟩
  | append_singleton es e ih =>
      have happend : Ird.packetsOf x (es ++ [e]) =
          Ird.packetsOf x es ++ Ird.packetsOf x [e] := List.filterMap_append
      obtain ⟨s, hrun, hunique, hstatus⟩ := ih
        (fun s e' he' => hothers s e' (List.mem_append_left _ he')) hlive.of_append
        (fun m p hp => hseq m p (by
          rw [happend, List.getElem?_append_left (List.getElem?_eq_some_iff.1 hp).1, hp]))
      have hnow : ∀ link, e.action = .cleanupIteration → s.examined = some link →
          link.snsid = x → ¬ Ird.expired e.currTime link := by
        intro link he
        obtain ⟨currTime, action⟩ := e
        obtain rfl : action = .cleanupIteration := he
        exact hlive es.length s currTime link (by rw [List.take_left' rfl, hrun]) (by simp)
      obtain ⟨s', hs', hstatus'⟩ := hstatus.step hunique
        (fun header => hothers s e (by simp) header) hnow
        (fun p hp => hseq _ p (by rw [happend, hp, List.getElem?_concat_length]))
      refine ⟨s', Run.runFrom_append_singleton_eq_some.2 ⟨s, hrun, hs'⟩,
        Ird.uniqueKeys_step hunique hs', ?_⟩
      rwa [happend, List.length_append]

/-! ## The two together -/

/-- The packets reach the IRD in this order, each once and each behind outer headers of
its own; the IRD reads the iPRP header at its place in the arriving bytes. -/
structure ArrivesInOrder (t : Target) (x : Snsid) (packets outers : List (List UInt8))
    (es : List Ird.Event) : Prop where
  length : outers.length = packets.length
  outer : ∀ outer ∈ outers, outer.length = 28
  headers : (Ird.packetsOf x es).map (fun p => some p.2) =
    List.zipWith (fun outer packet => readHeader t (outer ++ packet) 28) outers packets

theorem zipWith_readHeader {t : Target} {packets outers : List (List UInt8)}
    (hlength : outers.length = packets.length) (houter : ∀ outer ∈ outers, outer.length = 28) :
    List.zipWith (fun outer packet => readHeader t (outer ++ packet) 28) outers packets =
      packets.map (readHeader t · 0) := by
  apply List.ext_getElem
  · rw [List.length_zipWith, List.length_map, hlength, Nat.min_self]
  · intro i hi hi'
    rw [List.getElem_zipWith, List.getElem_map]
    have hi₁ : i < outers.length := List.lt_length_left_of_zipWith hi
    have hi₂ : i < packets.length := List.lt_length_right_of_zipWith hi
    have hread := readHeader_append t outers[i] packets[i]
    rwa [houter _ (List.getElem_mem hi₁)] at hread

theorem arrivesInOrder_iff {t : Target} {link : Link} {seqNb : UInt32}
    {bufs : List ((ℕ → UInt8) × List UInt8)} {packets outers : List (List UInt8)}
    (hpackets : Isd.emit t link seqNb bufs = some packets) {es : List Ird.Event} :
    ArrivesInOrder t link.snsid packets outers es ↔
      outers.length = bufs.length ∧ (∀ outer ∈ outers, outer.length = 28) ∧
        (Ird.packetsOf link.snsid es).map Prod.snd =
          streamHeaders t link seqNb bufs.length := by
  have hheaders := emit_headers hpackets
  have hlength : packets.length = bufs.length := by
    simpa [streamHeaders] using congrArg List.length hheaders
  have hsome : (Ird.packetsOf link.snsid es).map (fun p => some p.2) =
      ((Ird.packetsOf link.snsid es).map Prod.snd).map some := by
    rw [List.map_map]
    rfl
  constructor
  · intro h
    refine ⟨h.length.trans hlength, h.outer, ?_⟩
    apply List.map_injective_iff.2 (Option.some_injective _)
    rw [← hsome, h.headers, zipWith_readHeader h.length h.outer, hheaders]
  · rintro ⟨hlen, houter, hes⟩
    have hlen' : outers.length = packets.length := hlen.trans hlength.symm
    refine ⟨hlen', houter, ?_⟩
    rw [hsome, hes, zipWith_readHeader hlen' houter, hheaders]

/-- The packets that an ISD creates from `bufs`, starting at the value `seqNb` of its
counter, arrive in order and are never seen expired. They are all fresh if and only if
the counter does not pass `UINT32_MAX` among them. -/
theorem stream_fresh_iff (t : Target) (link : Link) (seqNb : UInt32)
    (bufs : List ((ℕ → UInt8) × List UInt8)) {packets outers : List (List UInt8)}
    (hpackets : Isd.emit t link seqNb bufs = some packets) {es : List Ird.Event}
    (harrive : ArrivesInOrder t link.snsid packets outers es)
    (hlive : NeverExpires t.order link.snsid es)
    (hothers : ∀ e ∈ es, ∀ header, e.action = .packet header → header.snsid ≠ link.snsid →
      Ird.SeqInRange header.seqNb) :
    ∃ s, Ird.run t.order es = some s ∧
      ((∀ v ∈ s.verdicts, v.snsid = link.snsid → v.fresh = true) ↔
        seqNb.toNat + bufs.length ≤ 2 ^ 32) := by
  obtain ⟨_, _, hheaders⟩ := (arrivesInOrder_iff hpackets).1 harrive
  have hlength : (Ird.packetsOf link.snsid es).length = bufs.length := by
    simpa [streamHeaders] using congrArg List.length hheaders
  have hseq : ∀ m p, (Ird.packetsOf link.snsid es)[m]? = some p →
      p.2.seqNb = Isd.nextSeqNb^[m] seqNb := by
    intro m p hp
    have hm : m < bufs.length := hlength ▸ (List.getElem?_eq_some_iff.1 hp).1
    have hget := congrArg (fun l => l[m]?) hheaders
    simp only [streamHeaders, List.getElem?_map, hp, Option.map_some,
      List.getElem?_iterate _ _ _ _ hm, Option.some.injEq] at hget
    rw [hget]
    rfl
  obtain ⟨s, hrun, _, hstatus⟩ := run_stream
    (fun s e he header hp hx =>
      Ird.packetStep_inRange t.order e.currTime (hothers e he header hp hx) s)
    hlive hseq
  refine ⟨s, hrun, ?_⟩
  have hall : (∀ v ∈ s.verdicts, v.snsid = link.snsid → v.fresh = true) ↔
      ∀ v ∈ (Ird.senderOf link.snsid s).verdicts, v.2 = true := by
    constructor
    · rintro h ⟨n, fresh⟩ hv
      exact h _ (Ird.mem_verdictsOf.1 hv) rfl
    · rintro h ⟨x, n, fresh⟩ hv rfl
      exact h (n, fresh) (Ird.mem_verdictsOf.2 hv)
  rw [hall]
  rw [hlength] at hstatus
  cases hstatus with
  | before hσ hm =>
      have hlt : seqNb.toNat < 2 ^ 32 := UInt32.toNat_lt _
      rw [hσ, hm]
      simpa using le_of_lt hlt
  | during receiverLink hlink hne hm h =>
      rw [← hm]
      constructor
      · intro hfresh
        by_contra hbeyond
        obtain ⟨v, hv, hfalse⟩ := (h.beyond (not_le.1 hbeyond)).2
        rw [hfresh v hv] at hfalse
        cases hfalse
      · intro hupto
        exact (h.upto hupto).2

/-! The two packets around the wrap of the counter, sent one after the other. -/

def wrapLink : Link where
  srcAddr := inAddr 10 0 0 1
  destAddr := inAddr 10 0 0 2
  srcPort := 4000
  destPort := 5000
  snsid := Vector.replicate 20 1

def wrapBufs : List ((ℕ → UInt8) × List UInt8) :=
  List.replicate 2 (fun _ => 0, List.replicate 28 0)

def wrapEvents : List Ird.Event :=
  [⟨0, .packet (Isd.linkHeader ⟨.unicast, .little⟩ wrapLink 4294967295)⟩,
    ⟨1, .packet (Isd.linkHeader ⟨.unicast, .little⟩ wrapLink 1)⟩]

theorem wrap_arrives : ∃ packets,
    Isd.emit ⟨.unicast, .little⟩ wrapLink 4294967295 wrapBufs = some packets ∧
      ArrivesInOrder ⟨.unicast, .little⟩ wrapLink.snsid packets
        (List.replicate 2 (List.replicate 28 0)) wrapEvents := by
  obtain ⟨packets, hpackets⟩ := emit_defined ⟨.unicast, .little⟩ wrapLink 4294967295
    wrapBufs (by simp [wrapBufs])
  refine ⟨packets, hpackets, (arrivesInOrder_iff hpackets).2 ⟨rfl, by simp, ?_⟩⟩
  decide

theorem wrap_neverExpires : NeverExpires .little wrapLink.snsid wrapEvents := by
  intro k s currTime link _ he
  have hmem := List.mem_of_getElem? he
  simp [wrapEvents] at hmem

theorem stream_fresh_iff_wrap :
    ∃ packets, Isd.emit ⟨.unicast, .little⟩ wrapLink 4294967295 wrapBufs = some packets ∧
      ∃ s, Ird.run .little wrapEvents = some s ∧
        ((∀ v ∈ s.verdicts, v.snsid = wrapLink.snsid → v.fresh = true) ↔
          (4294967295 : UInt32).toNat + 2 ≤ 2 ^ 32) := by
  obtain ⟨packets, hpackets, harrive⟩ := wrap_arrives
  refine ⟨packets, hpackets, ?_⟩
  exact stream_fresh_iff ⟨.unicast, .little⟩ wrapLink 4294967295 wrapBufs hpackets harrive
    wrap_neverExpires (by simp [wrapEvents, Isd.linkHeader])

/-- The packet after the wrap is refused. -/
theorem stream_wrap_refused :
    ¬ ∀ (t : Target) (link : Link) (seqNb : UInt32)
        (bufs : List ((ℕ → UInt8) × List UInt8)) (packets outers : List (List UInt8))
        (es : List Ird.Event), Isd.emit t link seqNb bufs = some packets →
        ArrivesInOrder t link.snsid packets outers es →
        NeverExpires t.order link.snsid es →
        (∀ e ∈ es, ∀ header, e.action = .packet header → header.snsid ≠ link.snsid →
          Ird.SeqInRange header.seqNb) →
        ∃ s, Ird.run t.order es = some s ∧
          ∀ v ∈ s.verdicts, v.snsid = link.snsid → v.fresh = true := by
  intro h
  obtain ⟨packets, hpackets, harrive⟩ := wrap_arrives
  obtain ⟨s, hrun, hfresh⟩ := h ⟨.unicast, .little⟩ wrapLink 4294967295 wrapBufs packets _
    wrapEvents hpackets harrive wrap_neverExpires (by simp [wrapEvents, Isd.linkHeader])
  have hverdicts : (Ird.run .little wrapEvents).map Ird.State.verdicts =
      some [⟨wrapLink.snsid, 4294967295, true⟩, ⟨wrapLink.snsid, 1, false⟩] := by decide
  rw [hrun] at hverdicts
  have hmem : (⟨wrapLink.snsid, 1, false⟩ : Ird.Verdict) ∈ s.verdicts := by
    rw [Option.some.inj hverdicts]
    exact List.mem_cons_of_mem _ (List.mem_singleton_self _)
  exact absurd (hfresh _ hmem rfl) (by decide)

end Iprp.Session
