import Iprp.Ird.LossWindow
import Iprp.Library.Arrivals

/-!
# The duplicate-discard algorithm in closed form

What a receiver link keeps is a function of the numbers that it was presented with: `high_sn` is
the highest of them, and a slot of `list_sn` holds a number exactly when that number is still
remembered (`RingOf`). One call keeps this and accepts what `Accepts` says, with the ring of
`iprpDdMaxLostPackets` slots (`RingOf.judged`).

So the verdicts on the packets of an SNSID are a function of their numbers, whatever other
packets and cleanup iterations come between them (`verdicts_closed_form`).
-/

namespace Iprp.Ird

open KeyedList Arrivals

/-! ## The ring after the gap loop -/

theorem noteGap_slot_frame {listSn listSn' : Fin iprpDdMaxLostPackets → UInt32}
    {highSn seqNb : UInt32} (hseq : seqNb.toNat < 2 ^ 31)
    (h : noteGap listSn highSn seqNb = some listSn') {j : Fin iprpDdMaxLostPackets}
    (hj : ∀ i, highSn.toNat < i → i < seqNb.toNat → slotOf i ≠ j) : listSn' j = listSn j := by
  have hrange : ∀ i ∈ List.range' (highSn.toNat + 1) (seqNb.toNat - (highSn.toNat + 1)),
      highSn.toNat < i ∧ i < seqNb.toNat := by
    intro i hi
    rw [List.mem_range'_1] at hi
    omega
  exact foldlM_storeSn_frame (fun i hi => lt_trans (hrange i hi).2 hseq)
    (fun i hi => hj i (hrange i hi).1 (hrange i hi).2) h

theorem gap_last (high s : ℕ) (j : Fin iprpDdMaxLostPackets) :
    (∀ i, high < i → i < s → slotOf i ≠ j) ∨
      ∃ i, high < i ∧ i < s ∧ slotOf i = j ∧ ∀ i', i < i' → i' < s → slotOf i' ≠ j := by
  induction s with
  | zero => exact Or.inl fun i _ hi => absurd hi (Nat.not_lt_zero i)
  | succ s ih =>
      by_cases hs : high < s ∧ slotOf s = j
      · refine Or.inr ⟨s, hs.1, Nat.lt_succ_self s, hs.2, ?_⟩
        intro i' hi' hlt
        omega
      · have hlast : ∀ i, high < i → i < s + 1 → slotOf i = j → i < s := by
          intro i hi hlt hslot
          refine lt_of_le_of_ne (Nat.le_of_lt_succ hlt) ?_
          rintro rfl
          exact hs ⟨hi, hslot⟩
        rcases ih with hnone | ⟨i, hi, hlt, hslot, hlater⟩
        · exact Or.inl fun i hi hlt hslot => hnone i hi (hlast i hi hlt hslot) hslot
        · refine Or.inr ⟨i, hi, Nat.lt_succ_of_lt hlt, hslot, ?_⟩
          intro i' hi' hlt' hslot'
          exact hlater i' hi' (hlast i' (lt_trans hi hi') hlt' hslot') hslot'

theorem noteGap_slot_last {listSn listSn' : Fin iprpDdMaxLostPackets → UInt32}
    {highSn seqNb : UInt32} (hseq : seqNb.toNat < 2 ^ 31)
    (h : noteGap listSn highSn seqNb = some listSn') {i : ℕ} (hi : highSn.toNat < i)
    (hlt : i < seqNb.toNat) (hlater : ∀ i', i < i' → i' < seqNb.toNat → slotOf i' ≠ slotOf i) :
    listSn' (slotOf i) = UInt32.ofNat i := by
  have hnear : seqNb.toNat ≤ i + iprpDdMaxLostPackets := by
    by_contra hfar
    have hslot : slotOf (i + iprpDdMaxLostPackets) = slotOf i :=
      Fin.ext (Nat.add_mod_right i iprpDdMaxLostPackets)
    exact hlater (i + iprpDdMaxLostPackets) (Nat.lt_add_of_pos_right (by decide))
      (not_le.1 hfar) hslot
  exact noteGap_last hseq h hi hlt hnear

theorem slotOf_eq_iff {i j : ℕ} :
    slotOf i = slotOf j ↔ i % iprpDdMaxLostPackets = j % iprpDdMaxLostPackets :=
  Fin.mk.injEq _ _ _ _ ▸ Iff.rfl

theorem noteGap_slot_iff {listSn listSn' : Fin iprpDdMaxLostPackets → UInt32}
    {highSn seqNb : UInt32} (hseq : seqNb.toNat < 2 ^ 31)
    (h : noteGap listSn highSn seqNb = some listSn') {s : UInt32}
    (hold : listSn (lateIndex s) = s → s.toNat ≤ highSn.toNat) :
    listSn' (lateIndex s) = s ↔
      (listSn (lateIndex s) = s ∨ highSn.toNat < s.toNat ∧ s.toNat < seqNb.toNat) ∧
        ∀ m, highSn.toNat < m → s.toNat < m → m < seqNb.toNat →
          m % iprpDdMaxLostPackets ≠ s.toNat % iprpDdMaxLostPackets := by
  rcases gap_last highSn.toNat seqNb.toNat (lateIndex s) with
    hnone | ⟨i, hi, hlt, hslot, hlater⟩
  · rw [noteGap_slot_frame hseq h hnone]
    constructor
    · intro hs
      exact ⟨Or.inl hs, fun m hm _ hms hmod => hnone m hm hms (slotOf_eq_iff.2 hmod)⟩
    · rintro ⟨hs | ⟨hgt, hlt⟩, -⟩
      · exact hs
      · exact absurd rfl (hnone s.toNat hgt hlt)
  · have hstored : listSn' (lateIndex s) = UInt32.ofNat i := by
      rw [← hslot]
      exact noteGap_slot_last hseq h hi hlt fun i' hi' hlt' => hslot ▸ hlater i' hi' hlt'
    have hval : (UInt32.ofNat i).toNat = i := by
      rw [UInt32.toNat_ofNat']
      exact Nat.mod_eq_of_lt (by omega)
    rw [hstored]
    constructor
    · rintro rfl
      rw [hval]
      refine ⟨Or.inr ⟨hi, hlt⟩, ?_⟩
      intro m _ hm hms hmod
      exact hlater m hm hms (hslot ▸ slotOf_eq_iff.2 hmod)
    · rintro ⟨hs, hno⟩
      -- `s` is a number of the gap with none of its slot after it, as `i` is
      apply UInt32.toNat_inj.1
      rw [hval]
      have hmod : i % iprpDdMaxLostPackets = s.toNat % iprpDdMaxLostPackets :=
        slotOf_eq_iff.1 hslot
      rcases lt_trichotomy i s.toNat with hlow | heq | hhigh
      · rcases hs with hs | ⟨-, hlts⟩
        · exact absurd (hold hs) (not_le.2 (lt_trans hi hlow))
        · exact absurd rfl (hlater s.toNat hlow hlts)
      · exact heq
      · exact absurd hmod (hno i hi hhigh hlt)

/-! ## The link and the numbers it was presented with -/

/-- The link of a sender whose packets so far had the numbers `seen`. -/
structure RingOf (seen : List ℕ) (link : ReceiverLink) : Prop where
  high : link.highSn.toNat = highest seen
  ring : ∀ s : UInt32, s ≠ 0 →
    (link.listSn (lateIndex s) = s ↔ Remembered iprpDdMaxLostPackets seen s.toNat)

theorem ringOf_created (o : Bytes.ByteOrder) (currTime : ℤ) (header : IprpHeader) :
    RingOf [header.seqNb.toNat] (receiverLinkCreate o currTime header) := by
  refine ⟨(Nat.zero_max _).symm, ?_⟩
  intro s hs
  constructor
  · intro hslot
    exact absurd hslot.symm hs
  · rintro ⟨-, hfirst, hlt, -⟩
    have hgt : header.seqNb.toNat < s.toNat := hfirst header.seqNb.toNat rfl
    have hhigh : highest [header.seqNb.toNat] = header.seqNb.toNat := Nat.zero_max _
    omega

/-- One call of the duplicate-discard algorithm accepts what the closed form accepts. -/
theorem RingOf.judged {seen : List ℕ} {link : ReceiverLink} (h : RingOf seen link)
    (hseen : seen ≠ []) {seqNb : UInt32} (hseq : SeqInRange seqNb) :
    ∃ link', isFreshPacket seqNb link =
        some (decide (Accepts iprpDdMaxLostPackets seen seqNb.toNat), link') ∧
      RingOf (seen ++ [seqNb.toNat]) link' := by
  have hne : seqNb ≠ 0 := by
    rintro rfl
    exact absurd hseq.1 (by decide)
  have hrecord : (∀ m ∈ seen, m < seqNb.toNat) ↔ link.highSn < seqNb := by
    rw [forall_mem_lt_iff hseen, ← h.high, UInt32.lt_iff_toNat_lt]
  by_cases habove : link.highSn < seqNb
  · obtain ⟨listSn, hgap, -⟩ := noteGap_defined link.listSn link.highSn hseq.2
    have haccept : Accepts iprpDdMaxLostPackets seen seqNb.toNat := Or.inl (hrecord.2 habove)
    have hhigh : highest seen < seqNb.toNat := by
      rw [← h.high]
      exact UInt32.lt_iff_toNat_lt.1 habove
    refine ⟨{ link with listSn := listSn, highSn := seqNb }, ?_, ?_, ?_⟩
    · rw [isFreshPacket, if_neg (UInt32.ne_of_lt habove).symm, if_pos habove, hgap,
        decide_eq_true haccept, Option.map_some]
    · rw [highest_concat, max_eq_right (le_of_lt hhigh)]
    · intro s hs
      have hold : link.listSn (lateIndex s) = s → s.toNat ≤ link.highSn.toNat := by
        intro hslot
        rw [h.high]
        exact le_of_lt ((h.ring s hs).1 hslot).2.2.1
      rw [noteGap_slot_iff hseq.2 hgap hold, remembered_record hseen hhigh, h.high, h.ring s hs]
  · have hle : seqNb.toNat ≤ highest seen := by
      rw [← h.high]
      exact not_lt.1 (mt UInt32.lt_iff_toNat_lt.2 habove)
    have haccept : Accepts iprpDdMaxLostPackets seen seqNb.toNat ↔
        link.listSn (lateIndex seqNb) = seqNb := by
      rw [Accepts, hrecord, h.ring seqNb hne, or_iff_right habove]
    by_cases hlate : link.listSn (lateIndex seqNb) = seqNb
    · have hother : seqNb ≠ link.highSn := by
        rintro rfl
        have hnew := ((h.ring _ hne).1 hlate).1
        rw [h.high] at hnew
        exact hnew (highest_mem hseen)
      refine ⟨{ link with listSn := Function.update link.listSn (lateIndex seqNb) 0 }, ?_,
        ?_, ?_⟩
      · rw [isFreshPacket, if_neg hother, if_neg habove, if_pos hlate,
          decide_eq_true (haccept.2 hlate)]
      · rw [highest_concat, max_eq_left hle, h.high]
      · intro s hs
        rw [remembered_not_record hseen hle, ← h.ring s hs]
        dsimp only
        rw [Function.update_apply]
        by_cases hidx : lateIndex s = lateIndex seqNb
        · rw [if_pos hidx, hidx, hlate]
          constructor
          · intro hzero
            exact absurd hzero.symm hs
          · rintro ⟨hsn, heq⟩
            exact absurd (congrArg UInt32.toNat heq.symm) hsn
        · rw [if_neg hidx]
          exact ⟨fun hslot => ⟨fun heq => hidx (congrArg slotOf heq), hslot⟩, And.right⟩
    · refine ⟨link, ?_, ?_, ?_⟩
      · rw [isFreshPacket, if_neg habove, if_neg hlate, ite_self,
          decide_eq_false (mt haccept.1 hlate)]
      · rw [highest_concat, max_eq_left hle, h.high]
      · intro s hs
        rw [remembered_not_record hseen hle, ← h.ring s hs]
        refine ⟨fun hslot => ⟨?_, hslot⟩, And.right⟩
        intro heq
        rw [UInt32.toNat_inj.1 heq] at hslot
        exact hlate hslot

/-! ## Every sender of a run -/

/-- The judgement of the closed form on sequence numbers. -/
def ringJudgement (seen : List UInt32) (seqNb : UInt32) : Bool :=
  decide (Accepts iprpDdMaxLostPackets (seen.map UInt32.toNat) seqNb.toNat)

/-- A link and the verdicts it has given. -/
structure ClosedForm (link : ReceiverLink) (verdicts : List (UInt32 × Bool)) : Prop where
  ring : RingOf ((verdicts.map Prod.fst).map UInt32.toNat) link
  judged : verdicts = judge ringJudgement (verdicts.map Prod.fst)

theorem ClosedForm.created (o : Bytes.ByteOrder) (currTime : ℤ) (header : IprpHeader) :
    ClosedForm (receiverLinkCreate o currTime header) [(header.seqNb, true)] := by
  refine ⟨ringOf_created o currTime header, ?_⟩
  have hfirst : ringJudgement [] header.seqNb = true :=
    decide_eq_true (Or.inl fun m hm => by cases hm)
  simp [judge, judgeFrom, hfirst]

theorem ClosedForm.step {link : ReceiverLink} {verdicts : List (UInt32 × Bool)}
    (h : ClosedForm link verdicts) (hne : verdicts ≠ []) {seqNb : UInt32}
    (hseq : SeqInRange seqNb) (currTime : ℤ) :
    ∃ fresh link', isFreshPacket seqNb { link with lastSeen := currTime } =
      some (fresh, link') ∧ ClosedForm link' (verdicts ++ [(seqNb, fresh)]) := by
  have hring : RingOf ((verdicts.map Prod.fst).map UInt32.toNat)
      { link with lastSeen := currTime } := ⟨h.ring.high, h.ring.ring⟩
  obtain ⟨link', hfresh, hring'⟩ := hring.judged (by simpa using hne) hseq
  refine ⟨_, link', hfresh, ?_, ?_⟩
  · simpa using hring'
  · rw [List.map_append, List.map_singleton, judge_concat, ← h.judged]
    rfl

/-- A steady sender whose numbers are in range is judged by the closed form. -/
theorem senderRun_closedForm (o : Bytes.ByteOrder) {xs : List SenderEvent} (hxs : Steady xs)
    (hseq : ∀ p ∈ senderPackets xs, SeqInRange p.2.seqNb) :
    ∃ σ, senderRun o xs = some σ ∧
      σ.verdicts = judge ringJudgement ((senderPackets xs).map fun p => p.2.seqNb) := by
  obtain ⟨σ, hrun, hstatus, hfst⟩ := senderRun_status (P := ClosedForm) o hxs
    (fun t header _ => ClosedForm.created o t header)
    (fun ps t header link verdicts hpre hps hmap hP => by
      refine hP.step ?_ (hseq (t, header) (hpre.subset (by simp))) t
      rintro rfl
      exact hps (List.map_eq_nil_iff.1 hmap.symm))
  refine ⟨σ, hrun, ?_⟩
  rw [← hfst]
  rcases hstatus.verdicts with hnil | ⟨link, hlink⟩
  · rw [hnil]
    rfl
  · exact hlink.judged

/-- What a run of the IRD needs so that the link of `x` lives on and every number has its slot. -/
structure SteadyFor (x : Snsid) (es : List Event) : Prop where
  clock : es.Pairwise fun e e' => e.currTime ≤ e'.currTime
  inRange : ∀ e ∈ es, ∀ header, e.action = .packet header → SeqInRange header.seqNb
  silence : (packetsOf x es).IsChain fun p q => q.1 - p.1 ≤ irdTExp

theorem mem_packetsOf {x : Snsid} {es : List Event} {p : ℤ × IprpHeader}
    (hp : p ∈ packetsOf x es) : ∃ e ∈ es, e.action = .packet p.2 := by
  obtain ⟨⟨currTime, action⟩, he, hp⟩ := List.mem_filterMap.1 hp
  cases action with
  | packet header =>
      dsimp only at hp
      split at hp
      · cases hp
        exact ⟨_, he, rfl⟩
      · cases hp
  | cleanupStart => cases hp
  | cleanupIteration => cases hp

theorem run_closedForm (o : Bytes.ByteOrder) {x : Snsid} {es : List Event}
    (h : SteadyFor x es) :
    ∃ s, run o es = some s ∧ verdictsOf x s.verdicts =
      judge ringJudgement ((packetsOf x es).map fun p => p.2.seqNb) := by
  have hsender : ∀ k xs, Projects x (es.take k) xs → ∃ σ, senderRun o xs = some σ ∧
      σ.verdicts = judge ringJudgement ((senderPackets xs).map fun p => p.2.seqNb) := by
    intro k xs hxs
    obtain ⟨hsteady, hpre⟩ := hxs.steady h.clock h.silence
    refine senderRun_closedForm o hsteady fun p hp => ?_
    obtain ⟨e, he, haction⟩ := mem_packetsOf (hpre.subset hp)
    exact h.inRange e he p.2 haction
  obtain ⟨s, xs, hrun, _, hproj, hs⟩ := run_senderOf o x es
    (fun s e he header hp _ => packetStep_inRange o e.currTime (h.inRange e he header hp) s)
    (fun k xs hxs => (hsender k xs hxs).imp fun σ hσ => hσ.1)
  refine ⟨s, hrun, ?_⟩
  obtain ⟨σ, hσ, hverdicts⟩ := hsender es.length xs (by rwa [List.take_length])
  obtain rfl : σ = senderOf x s := Option.some.inj (hσ.symm.trans hs)
  rw [← hproj.packets]
  exact hverdicts

/-- In a run with a clock that does not run backwards and numbers in `1, …, 2 ^ 31 - 1`, for an
SNSID that is never silent for more than `irdTExp` seconds: a packet is fresh exactly when its
number is above all before it, or was jumped over, has not come since and has no later number of
its slot below the highest that was jumped over too. -/
theorem verdicts_closed_form (o : Bytes.ByteOrder) {x : Snsid} {es : List Event}
    (h : SteadyFor x es) :
    ∃ s, run o es = some s ∧
      (verdictsOf x s.verdicts).length = (packetsOf x es).length ∧
      ∀ k currTime header, (packetsOf x es)[k]? = some (currTime, header) →
        ∃ fresh, (verdictsOf x s.verdicts)[k]? = some (header.seqNb, fresh) ∧
          (fresh = true ↔ Accepts iprpDdMaxLostPackets
            (((packetsOf x es).take k).map fun p => p.2.seqNb.toNat) header.seqNb.toNat) := by
  obtain ⟨s, hrun, hverdicts⟩ := run_closedForm o h
  refine ⟨s, hrun, ?_, ?_⟩
  · rw [hverdicts, length_judge, List.length_map]
  · intro k currTime header hk
    refine ⟨ringJudgement (((packetsOf x es).map fun p => p.2.seqNb).take k) header.seqNb,
      ?_, ?_⟩
    · rw [hverdicts, getElem?_judge, List.getElem?_map, hk]
      rfl
    · rw [ringJudgement, decide_eq_true_iff, ← List.map_take, List.map_map]
      rfl

/-- Number `2` comes late and twice, with a cleanup pass before it. -/
def lateEvents : List Event :=
  [⟨0, .packet (bareHeader 1)⟩, ⟨1, .packet (bareHeader 3)⟩, ⟨2, .cleanupStart⟩,
    ⟨2, .cleanupIteration⟩, ⟨100, .packet (bareHeader 2)⟩, ⟨100, .packet (bareHeader 2)⟩]

theorem verdicts_closed_form_late :
    ∃ s, run .little lateEvents = some s ∧
      (verdictsOf (Vector.replicate 20 0) s.verdicts).length =
        (packetsOf (Vector.replicate 20 0) lateEvents).length ∧
      ∀ k currTime header,
        (packetsOf (Vector.replicate 20 0) lateEvents)[k]? = some (currTime, header) →
        ∃ fresh, (verdictsOf (Vector.replicate 20 0) s.verdicts)[k]? =
            some (header.seqNb, fresh) ∧
          (fresh = true ↔ Accepts iprpDdMaxLostPackets
            (((packetsOf (Vector.replicate 20 0) lateEvents).take k).map
              fun p => p.2.seqNb.toNat) header.seqNb.toNat) :=
  verdicts_closed_form .little
    ⟨by simp [lateEvents], by simp [lateEvents, SeqInRange, bareHeader],
      by simp [lateEvents, packetsOf, bareHeader, irdTExp]⟩

end Iprp.Ird
