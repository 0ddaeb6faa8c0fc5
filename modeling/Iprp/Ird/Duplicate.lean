import Iprp.Ird.Sender
import Iprp.Library.SkipWindow
import Mathlib.Data.List.Chain

/-!
# At most one delivery per sequence number

A receiver link is a window of skipped numbers: its high mark is `highSn`, and the
non-zero numbers that sit in their own slot of `listSn` are the remembered ones. On
sequence numbers below `2 ^ 31` the duplicate-discard algorithm is a step of that window
(`isFreshPacket_step`), so it never accepts a number twice while the link lives.

Over a run the link of one sender is unseen, alive or gone (`LinkStatus`). It can only be
gone once the clock has moved more than `irdTExp` past the last packet, which excludes
any later packet of a sender that is never silent for so long. The bound for one sender is
then a bound for each sender of the IRD, by `run_senderOf`.
-/

namespace Iprp.Ird

open KeyedList SkipWindow

/-! ## The algorithm on one link -/

theorem signedRem_of_lt {i : ℕ} (h : i < 2 ^ 31) :
    signedRem i = ((i % iprpDdMaxLostPackets : ℕ) : ℤ) := by
  have hbmod : (i : ℤ).bmod (2 ^ 32) = i := by
    rw [Int.bmod_def]
    omega
  unfold signedRem
  rw [hbmod, Int.tmod_eq_emod_of_nonneg (Int.natCast_nonneg i), Int.natCast_mod]

theorem slotAt_natCast {r : ℕ} (h : r < iprpDdMaxLostPackets) :
    slotAt (r : ℤ) = some ⟨r, h⟩ := by
  simp [slotAt, h]

theorem slotAt_signedRem {i : ℕ} (h : i < 2 ^ 31) :
    slotAt (signedRem i) = some (slotOf i) := by
  rw [signedRem_of_lt h, slotAt_natCast (Nat.mod_lt i (by decide))]
  rfl

theorem foldlM_storeSn {is : List ℕ} (his : ∀ i ∈ is, i < 2 ^ 31)
    (listSn : Fin iprpDdMaxLostPackets → UInt32) :
    ∃ listSn', is.foldlM storeSn listSn = some listSn' ∧
      ∀ j, listSn' j = listSn j ∨ ∃ i ∈ is, listSn' j = UInt32.ofNat i := by
  induction is generalizing listSn with
  | nil => exact ⟨listSn, rfl, fun j => Or.inl rfl⟩
  | cons i is ih =>
      have hi : i < 2 ^ 31 := his i List.mem_cons_self
      have hstore : storeSn listSn i =
          some (Function.update listSn (slotOf i) (UInt32.ofNat i)) := by
        rw [storeSn, slotAt_signedRem hi, Option.map_some]
      obtain ⟨listSn', hrun, hslots⟩ :=
        ih (fun i' hi' => his i' (List.mem_cons_of_mem i hi'))
          (Function.update listSn (slotOf i) (UInt32.ofNat i))
      refine ⟨listSn', ?_, ?_⟩
      · rw [List.foldlM_cons, hstore]
        exact hrun
      · intro j
        rcases hslots j with hj | ⟨i', hi', hj⟩
        · rw [hj, Function.update_apply]
          split
          · exact Or.inr ⟨i, List.mem_cons_self, rfl⟩
          · exact Or.inl rfl
        · exact Or.inr ⟨i', List.mem_cons_of_mem i hi', hj⟩

theorem noteGap_defined (listSn : Fin iprpDdMaxLostPackets → UInt32)
    (highSn : UInt32) {seqNb : UInt32} (hseq : seqNb.toNat < 2 ^ 31) :
    ∃ listSn', noteGap listSn highSn seqNb = some listSn' ∧
      ∀ j, listSn' j = listSn j ∨
        ∃ i, highSn.toNat < i ∧ i < seqNb.toNat ∧ listSn' j = UInt32.ofNat i := by
  have hrange : ∀ i ∈ List.range' (highSn.toNat + 1)
      (seqNb.toNat - (highSn.toNat + 1)), highSn.toNat < i ∧ i < seqNb.toNat := by
    intro i hi
    rw [List.mem_range'_1] at hi
    omega
  obtain ⟨listSn', hrun, hslots⟩ :=
    foldlM_storeSn (fun i hi => lt_trans (hrange i hi).2 hseq) listSn
  refine ⟨listSn', hrun, ?_⟩
  intro j
  rcases hslots j with hj | ⟨i, hi, hj⟩
  · exact Or.inl hj
  · exact Or.inr ⟨i, (hrange i hi).1, (hrange i hi).2, hj⟩

/-- A receiver link as a window: the numbers it would still accept below its high mark
are the non-zero ones found in their own slot. -/
def window (link : ReceiverLink) : Window ℕ where
  high := link.highSn.toNat
  skipped := UInt32.toNat '' {s | s ≠ 0 ∧ link.listSn (lateIndex s) = s}

theorem mem_window_skipped {link : ReceiverLink} {s : UInt32} :
    s.toNat ∈ (window link).skipped ↔ s ≠ 0 ∧ link.listSn (lateIndex s) = s := by
  constructor
  · rintro ⟨s', hs', heq⟩
    rwa [UInt32.toNat_inj.1 heq] at hs'
  · intro h
    exact ⟨s, h, rfl⟩

/-- The sequence numbers that the ring keeps apart: not `0`, and not negative when
read as an `int`. -/
def SeqInRange (seqNb : UInt32) : Prop := 1 ≤ seqNb.toNat ∧ seqNb.toNat < 2 ^ 31

/-- The duplicate-discard algorithm is a step of the window. -/
theorem isFreshPacket_step {seqNb : UInt32} (hseq : SeqInRange seqNb)
    (link : ReceiverLink) :
    ∃ fresh link', isFreshPacket seqNb link = some (fresh, link') ∧
      Step (window link) seqNb.toNat fresh (window link') := by
  have hne : seqNb ≠ 0 := by
    rintro rfl
    exact absurd hseq.1 (by decide)
  unfold isFreshPacket
  by_cases heq : seqNb = link.highSn
  · rw [if_pos heq]
    exact ⟨false, link, rfl, Step.refuse subset_rfl⟩
  rw [if_neg heq]
  by_cases hlt : link.highSn < seqNb
  · obtain ⟨listSn', hgap, hslots⟩ :=
      noteGap_defined link.listSn link.highSn hseq.2
    rw [if_pos hlt, hgap]
    refine ⟨true, { link with listSn := listSn', highSn := seqNb }, rfl, ?_⟩
    apply Step.advance (UInt32.lt_iff_toNat_lt.1 hlt)
    rintro v ⟨s, ⟨hs, hslot⟩, rfl⟩
    change listSn' (lateIndex s) = s at hslot
    rcases hslots (lateIndex s) with hold | ⟨i, hi, hi', hnew⟩
    · exact Or.inl (mem_window_skipped.2 ⟨hs, hold.symm.trans hslot⟩)
    · have hval : s.toNat = i := by
        rw [← hslot, hnew, UInt32.toNat_ofNat']
        have hbound : seqNb.toNat < 2 ^ 31 := hseq.2
        exact Nat.mod_eq_of_lt (by omega)
      rw [hval]
      exact Or.inr ⟨hi, hi'⟩
  rw [if_neg hlt]
  by_cases hlate : link.listSn (lateIndex seqNb) = seqNb
  · rw [if_pos hlate]
    refine ⟨true, _, rfl, ?_⟩
    apply Step.late (mem_window_skipped.2 ⟨hne, hlate⟩)
    rintro v ⟨s, ⟨hs, hslot⟩, rfl⟩
    change Function.update link.listSn (lateIndex seqNb) 0 (lateIndex s) = s at hslot
    rw [Function.update_apply] at hslot
    split at hslot
    · exact absurd hslot.symm hs
    · next hidx =>
        refine ⟨mem_window_skipped.2 ⟨hs, hslot⟩, ?_⟩
        intro hsame
        exact hidx (congrArg lateIndex (UInt32.toNat_inj.1 hsame))
  · rw [if_neg hlate]
    exact ⟨false, link, rfl, Step.refuse subset_rfl⟩

theorem window_receiverLinkCreate (o : Bytes.ByteOrder) (currTime : ℤ)
    (header : IprpHeader) :
    (window (receiverLinkCreate o currTime header)).skipped ⊆ ∅ := by
  rintro v ⟨s, ⟨hs, hslot⟩, rfl⟩
  exact absurd hslot.symm hs

/-! ## One sender -/

/-- A history in which the clock does not run backwards and the sender is never silent
for more than `irdTExp` seconds. -/
structure Steady (xs : List SenderEvent) : Prop where
  clock : xs.Pairwise fun e e' => e.currTime ≤ e'.currTime
  silence : (senderPackets xs).IsChain fun p q => q.1 - p.1 ≤ irdTExp

theorem senderPackets_append (xs ys : List SenderEvent) :
    senderPackets (xs ++ ys) = senderPackets xs ++ senderPackets ys :=
  List.filterMap_append

theorem Steady.of_append {xs ys : List SenderEvent} (h : Steady (xs ++ ys)) :
    Steady xs := by
  have hsilence := h.silence
  rw [senderPackets_append, List.isChain_append] at hsilence
  exact ⟨(List.pairwise_append.1 h.clock).1, hsilence.1⟩

theorem Steady.last {xs : List SenderEvent} {currTime : ℤ} {header : IprpHeader}
    (h : Steady (xs ++ [⟨currTime, .packet header⟩])) :
    (∀ e ∈ xs, e.currTime ≤ currTime) ∧
      ∀ p, (senderPackets xs).getLast? = some p → currTime - p.1 ≤ irdTExp := by
  have hsilence := h.silence
  rw [senderPackets_append, List.isChain_append] at hsilence
  refine ⟨?_, fun p hp => hsilence.2.2 p hp (currTime, header) rfl⟩
  intro e he
  exact (List.pairwise_append.1 h.clock).2.2 e he _ (List.mem_singleton_self _)

/-- The link of a sender after the events `xs`; `P` is what is known of the link and the
verdicts given so far. -/
inductive LinkStatus (P : ReceiverLink → List (UInt32 × Bool) → Prop)
    (xs : List SenderEvent) (σ : Sender) : Prop where
  /-- No packet has arrived. -/
  | unseen (hlink : σ.link = none) (hxs : senderPackets xs = []) (hv : σ.verdicts = [])
  /-- The link is as old as the last packet. -/
  | alive (link : ReceiverLink) (hlink : σ.link = some link) (header : IprpHeader)
      (hlast : (senderPackets xs).getLast? = some (link.lastSeen, header))
      (hP : P link σ.verdicts)
  /-- The link has expired: the clock has moved too far past the last packet. -/
  | gone (link : ReceiverLink) (hlink : σ.link = none) (header : IprpHeader)
      (hlast : (senderPackets xs).getLast? = some (link.lastSeen, header))
      (e : SenderEvent) (he : e ∈ xs) (hlate : irdTExp < e.currTime - link.lastSeen)
      (hP : P link σ.verdicts)

theorem LinkStatus.verdicts {P : ReceiverLink → List (UInt32 × Bool) → Prop}
    {xs : List SenderEvent} {σ : Sender} (h : LinkStatus P xs σ) :
    σ.verdicts = [] ∨ ∃ link, P link σ.verdicts := by
  cases h with
  | unseen hlink hxs hv => exact Or.inl hv
  | alive link hlink header hlast hP => exact Or.inr ⟨link, hP⟩
  | gone link hlink header hlast e he hlate hP => exact Or.inr ⟨link, hP⟩

/-- What one steady packet does to a sender: it creates the link or it is judged by the
duplicate-discard algorithm. -/
theorem LinkStatus.packet {P : ReceiverLink → List (UInt32 × Bool) → Prop}
    {o : Bytes.ByteOrder} {xs : List SenderEvent} {σ : Sender} {currTime : ℤ}
    {header : IprpHeader} (h : LinkStatus P xs σ)
    (hsteady : Steady (xs ++ [⟨currTime, .packet header⟩]))
    (hnew : senderPackets xs = [] →
      P (receiverLinkCreate o currTime header) [(header.seqNb, true)])
    (hold : ∀ link, senderPackets xs ≠ [] → P link σ.verdicts →
      ∃ fresh link', isFreshPacket header.seqNb { link with lastSeen := currTime } =
        some (fresh, link') ∧ P link' (σ.verdicts ++ [(header.seqNb, fresh)])) :
    ∃ σ' fresh, senderStep o σ ⟨currTime, .packet header⟩ = some σ' ∧
      σ'.verdicts = σ.verdicts ++ [(header.seqNb, fresh)] ∧
      LinkStatus P (xs ++ [⟨currTime, .packet header⟩]) σ' := by
  have hlast' : (senderPackets (xs ++ [⟨currTime, .packet header⟩])).getLast? =
      some (currTime, header) := by
    rw [senderPackets_append]
    exact List.getLast?_concat
  cases h with
  | unseen hlink hxs hv =>
      refine ⟨⟨some (receiverLinkCreate o currTime header), [(header.seqNb, true)]⟩, true,
        ?_, ?_, .alive _ rfl header hlast' (hnew hxs)⟩
      · simp [senderStep, hlink, hv]
      · rw [hv]
        rfl
  | alive link hlink header' hlast hP =>
      have hne : senderPackets xs ≠ [] := by
        rintro hnil
        rw [hnil] at hlast
        cases hlast
      obtain ⟨fresh, link', hfresh, hP'⟩ := hold link hne hP
      refine ⟨⟨some link', σ.verdicts ++ [(header.seqNb, fresh)]⟩, fresh, ?_, rfl,
        .alive link' rfl header ?_ hP'⟩
      · simp [senderStep, hlink, hfresh]
      · obtain ⟨_, _, rfl⟩ := isFreshPacket_frame hfresh
        exact hlast'
  | gone link hlink header' hlast e he hlate hP =>
      -- the clock has moved on since the link expired, so the sender was silent too long
      obtain ⟨hclock, hsilence⟩ := hsteady.last
      have hle : e.currTime ≤ currTime := hclock e he
      have hgap : currTime - link.lastSeen ≤ irdTExp := hsilence _ hlast
      omega

theorem LinkStatus.examine {P : ReceiverLink → List (UInt32 × Bool) → Prop}
    {o : Bytes.ByteOrder} {xs : List SenderEvent} {σ : Sender} (currTime : ℤ)
    (h : LinkStatus P xs σ) :
    ∃ σ', senderStep o σ ⟨currTime, .examine⟩ = some σ' ∧ σ'.verdicts = σ.verdicts ∧
      LinkStatus P (xs ++ [⟨currTime, .examine⟩]) σ' := by
  have hpackets : senderPackets (xs ++ [⟨currTime, .examine⟩]) = senderPackets xs := by
    rw [senderPackets_append]
    exact List.append_nil _
  refine ⟨_, rfl, rfl, ?_⟩
  cases h with
  | unseen hlink hxs hv => exact .unseen (by simp [hlink]) (hpackets.trans hxs) hv
  | alive link hlink header hlast hP =>
      by_cases hexp : expired currTime link = true
      · refine .gone link (by simp [hlink, hexp]) header (hpackets ▸ hlast)
          ⟨currTime, .examine⟩ (List.mem_append_right _ (List.mem_singleton_self _)) ?_ hP
        simpa [expired] using hexp
      · exact .alive link (by simp [hlink, hexp]) header (hpackets ▸ hlast) hP
  | gone link hlink header hlast e he hlate hP =>
      exact .gone link (by simp [hlink]) header (hpackets ▸ hlast) e
        (List.mem_append_left _ he) hlate hP

/-- The rule for one sender: a property of the link and its verdicts that holds when the
link is created and is kept by each further packet holds along every steady history,
which is then defined. -/
theorem senderRun_status {P : ReceiverLink → List (UInt32 × Bool) → Prop}
    (o : Bytes.ByteOrder) {xs : List SenderEvent} (hxs : Steady xs)
    (hnew : ∀ t header, [(t, header)] <+: senderPackets xs →
      P (receiverLinkCreate o t header) [(header.seqNb, true)])
    (hold : ∀ ps t header link verdicts, ps ++ [(t, header)] <+: senderPackets xs →
      ps ≠ [] → verdicts.map Prod.fst = ps.map (fun p => p.2.seqNb) → P link verdicts →
      ∃ fresh link', isFreshPacket header.seqNb { link with lastSeen := t } =
        some (fresh, link') ∧ P link' (verdicts ++ [(header.seqNb, fresh)])) :
    ∃ σ, senderRun o xs = some σ ∧ LinkStatus P xs σ ∧
      σ.verdicts.map Prod.fst = (senderPackets xs).map fun p => p.2.seqNb := by
  induction xs using List.reverseRecOn with
  | nil => exact ⟨_, rfl, .unseen rfl rfl rfl, rfl⟩
  | append_singleton xs e ih =>
      have hpre : senderPackets xs <+: senderPackets (xs ++ [e]) := by
        rw [senderPackets_append]
        exact List.prefix_append _ _
      obtain ⟨σ, hrun, hstatus, hfst⟩ := ih hxs.of_append
        (fun t header h => hnew t header (h.trans hpre))
        (fun ps t header link verdicts h => hold ps t header link verdicts (h.trans hpre))
      obtain ⟨currTime, action⟩ := e
      cases action with
      | packet header =>
          have hlast : senderPackets (xs ++ [⟨currTime, .packet header⟩]) =
              senderPackets xs ++ [(currTime, header)] := senderPackets_append _ _
          obtain ⟨σ', fresh, hstep, hv, hstatus'⟩ := hstatus.packet (o := o) hxs
            (fun hnil => hnew currTime header
              ⟨[], by rw [hlast, hnil, List.append_nil, List.nil_append]⟩)
            (fun link hne hP => hold (senderPackets xs) currTime header link σ.verdicts
              ⟨[], by rw [hlast, List.append_nil]⟩ hne hfst hP)
          refine ⟨σ', ?_, hstatus', ?_⟩
          · exact Run.runFrom_append_singleton_eq_some.2 ⟨σ, hrun, hstep⟩
          · simp only [hv, hlast, List.map_append, hfst, List.map_cons, List.map_nil]
      | examine =>
          obtain ⟨σ', hstep, hv, hstatus'⟩ := hstatus.examine (o := o) currTime
          refine ⟨σ', ?_, hstatus', ?_⟩
          · exact Run.runFrom_append_singleton_eq_some.2 ⟨σ, hrun, hstep⟩
          · rw [hv, hfst, senderPackets_append]
            exact congrArg _ (List.append_nil _).symm

/-- What is kept of a live link under the sound use of the window. -/
structure DeliversOnce (link : ReceiverLink) (verdicts : List (UInt32 × Bool)) : Prop where
  sound : Sound (window link) {v | ∃ n, n.toNat = v ∧ (n, true) ∈ verdicts}
  once : ∀ n, verdicts.count (n, true) ≤ 1

theorem delivered_append (verdicts : List (UInt32 × Bool)) (m : UInt32) (fresh : Bool) :
    {v | ∃ n : UInt32, n.toNat = v ∧ (n, true) ∈ verdicts ++ [(m, fresh)]} =
      deliver {v | ∃ n : UInt32, n.toNat = v ∧ (n, true) ∈ verdicts} m.toNat fresh := by
  cases fresh with
  | true =>
      ext v
      simp [deliver, and_or_left, exists_or, or_comm, eq_comm]
  | false =>
      ext v
      simp [deliver]

theorem DeliversOnce.created (o : Bytes.ByteOrder) (currTime : ℤ) (header : IprpHeader) :
    DeliversOnce (receiverLinkCreate o currTime header) [(header.seqNb, true)] := by
  refine ⟨?_, ?_⟩
  · have hset : {v | ∃ n : UInt32, n.toNat = v ∧ (n, true) ∈ [(header.seqNb, true)]} =
        {(window (receiverLinkCreate o currTime header)).high} := by
      ext v
      simp [window, receiverLinkCreate, eq_comm]
    rw [hset]
    exact sound_first (window_receiverLinkCreate o currTime header)
  · intro n
    exact List.count_le_length

theorem DeliversOnce.judged {link : ReceiverLink} {verdicts : List (UInt32 × Bool)}
    {seqNb : UInt32} (hseq : SeqInRange seqNb) (h : DeliversOnce link verdicts)
    (currTime : ℤ) :
    ∃ fresh link', isFreshPacket seqNb { link with lastSeen := currTime } =
      some (fresh, link') ∧ DeliversOnce link' (verdicts ++ [(seqNb, fresh)]) := by
  obtain ⟨fresh, link', hfresh, hstep⟩ :=
    isFreshPacket_step hseq { link with lastSeen := currTime }
  refine ⟨fresh, link', hfresh, ?_, ?_⟩
  · rw [delivered_append]
    exact Step.sound h.sound hstep
  · intro n
    rw [List.count_append]
    by_cases heq : (seqNb, fresh) = (n, true)
    · cases heq
      have hzero : verdicts.count (seqNb, true) = 0 := by
        apply List.count_eq_zero_of_not_mem
        intro hmem
        exact Step.notMem_delivered h.sound hstep ⟨seqNb, rfl, hmem⟩
      simp [hzero]
    · simpa [heq] using h.once n

/-- A steady sender whose numbers are in range has a defined run, and each of its numbers
is judged fresh at most once. -/
theorem senderRun_once (o : Bytes.ByteOrder) {xs : List SenderEvent} (hxs : Steady xs)
    (hseq : ∀ p ∈ senderPackets xs, SeqInRange p.2.seqNb) :
    ∃ σ, senderRun o xs = some σ ∧ ∀ n, σ.verdicts.count (n, true) ≤ 1 := by
  obtain ⟨σ, hrun, hstatus, _⟩ := senderRun_status (P := DeliversOnce) o hxs
    (fun t header _ => DeliversOnce.created o t header)
    (fun ps t header link verdicts hpre _ _ hP =>
      hP.judged (hseq (t, header) (hpre.subset (by simp))) t)
  refine ⟨σ, hrun, ?_⟩
  intro n
  rcases hstatus.verdicts with hnil | ⟨link, hlink⟩
  · rw [hnil]
    exact Nat.zero_le 1
  · exact hlink.once n

/-! ## Every sender of a run -/

theorem Projects.steady {x : Snsid} {es : List Event} {k : ℕ} {xs : List SenderEvent}
    (hclock : es.Pairwise fun e e' => e.currTime ≤ e'.currTime)
    (hx : (packetsOf x es).IsChain fun p q => q.1 - p.1 ≤ irdTExp)
    (h : Projects x (es.take k) xs) :
    Steady xs ∧ senderPackets xs <+: packetsOf x es := by
  have hpre : packetsOf x (es.take k) <+: packetsOf x es :=
    (List.take_prefix k es).filterMap _
  have htimes : ((es.take k).map Event.currTime).Pairwise (· ≤ ·) :=
    List.pairwise_map.2 (hclock.sublist (List.take_sublist k es))
  rw [h.packets]
  refine ⟨⟨?_, ?_⟩, hpre⟩
  · exact List.pairwise_map.1 (htimes.sublist h.times)
  · rw [h.packets]
    exact hx.prefix hpre

theorem packetStep_inRange (o : Bytes.ByteOrder) (currTime : ℤ) {header : IprpHeader}
    (hseq : SeqInRange header.seqNb) (s : State) :
    ∃ s', packetStep o currTime header s = some s' := by
  cases hlink : (senderOf header.snsid s).link with
  | none =>
      apply packetStep_defined
      simp only [senderStep, hlink]
      rfl
  | some link =>
      obtain ⟨fresh, link', hfresh, _⟩ :=
        isFreshPacket_step hseq { link with lastSeen := currTime }
      apply packetStep_defined
      simp only [senderStep, hlink, hfresh, Option.map_some]
      rfl

/-- In a run with a clock that does not run backwards and sequence numbers in
`1, …, 2 ^ 31 - 1`, an SNSID whose packets are never more than `irdTExp` seconds apart
has each of its sequence numbers judged fresh at most once. -/
theorem fresh_at_most_once (o : Bytes.ByteOrder) (es : List Event)
    (hclock : es.Pairwise fun e e' => e.currTime ≤ e'.currTime)
    (hseq : ∀ e ∈ es, ∀ header, e.action = .packet header → SeqInRange header.seqNb)
    (x : Snsid)
    (hx : (packetsOf x es).IsChain fun p q => q.1 - p.1 ≤ irdTExp) :
    ∃ s, run o es = some s ∧ ∀ n, s.verdicts.count ⟨x, n, true⟩ ≤ 1 := by
  have hrange : ∀ p ∈ packetsOf x es, SeqInRange p.2.seqNb := by
    intro p hp
    obtain ⟨⟨currTime, action⟩, he, hp⟩ := List.mem_filterMap.1 hp
    cases action with
    | packet header =>
        have hh := hseq _ he header rfl
        dsimp only at hp
        split at hp
        · cases hp
          exact hh
        · cases hp
    | cleanupStart => cases hp
    | cleanupIteration => cases hp
  have hsender : ∀ k xs, Projects x (es.take k) xs →
      ∃ σ, senderRun o xs = some σ ∧ ∀ n, σ.verdicts.count (n, true) ≤ 1 := by
    intro k xs hxs
    obtain ⟨hsteady, hpre⟩ := hxs.steady hclock hx
    exact senderRun_once o hsteady fun p hp => hrange p (hpre.subset hp)
  obtain ⟨s, xs, hrun, _, hproj, hs⟩ := run_senderOf o x es
    (fun s e he header hp _ => packetStep_inRange o e.currTime (hseq e he header hp) s)
    (fun k xs hxs => (hsender k xs hxs).imp fun σ hσ => hσ.1)
  refine ⟨s, hrun, ?_⟩
  intro n
  obtain ⟨σ, hσ, honce⟩ := hsender es.length xs (by rwa [List.take_length])
  obtain rfl : σ = senderOf x s := Option.some.inj (hσ.symm.trans hs)
  rw [← count_verdictsOf]
  exact honce n

/-- A header that carries nothing but its sequence number. -/
def bareHeader (seqNb : UInt32) : IprpHeader where
  version := iprpVersion
  snsid := Vector.replicate 20 0
  seqNb := seqNb
  destPort := 0
  destAddr := Vector.replicate 4 0

/-- Number `2` comes late and twice, with a cleanup pass before it. -/
theorem fresh_at_most_once_late :
    ∃ s, run .little
        [⟨0, .packet (bareHeader 1)⟩, ⟨1, .packet (bareHeader 3)⟩, ⟨2, .cleanupStart⟩,
          ⟨2, .cleanupIteration⟩, ⟨100, .packet (bareHeader 2)⟩,
          ⟨100, .packet (bareHeader 2)⟩] = some s ∧
      ∀ n, s.verdicts.count ⟨Vector.replicate 20 0, n, true⟩ ≤ 1 :=
  fresh_at_most_once .little _ (by simp) (by simp [SeqInRange, bareHeader])
    (Vector.replicate 20 0) (by simp [packetsOf, bareHeader, irdTExp])

end Iprp.Ird
