import Iprp.Ird.Duplicate

/-!
# No false drop inside the loss window

The gap loop notes its numbers in ascending order, so that of the numbers of one slot the last
one stays. A number that is at most `iprpDdMaxLostPackets` below the new `highSn` is the last of
its slot (`noteGap_last`): the next number of the slot is `highSn` or above, and `highSn` itself
is never noted. So a link remembers every number inside the window that was never presented to
it, whatever else was.
-/

namespace Iprp.Ird

open SkipWindow

/-- One call of the duplicate-discard algorithm, for its effect on the link. -/
def present (link : ReceiverLink) (seqNb : UInt32) : Option ReceiverLink :=
  (isFreshPacket seqNb link).map Prod.snd

/-- The link after the packets with the given numbers. -/
def presentAll (link : ReceiverLink) (seqNbs : List UInt32) : Option ReceiverLink :=
  Run.runFrom present link seqNbs

/-! ## The ring after the gap loop -/

theorem storeSn_eq {i : ℕ} (hi : i < 2 ^ 31) (listSn : Fin iprpDdMaxLostPackets → UInt32) :
    storeSn listSn i = some (Function.update listSn (slotOf i) (UInt32.ofNat i)) := by
  rw [storeSn, slotAt_signedRem hi, Option.map_some]

theorem foldlM_storeSn_frame {is : List ℕ} (his : ∀ i ∈ is, i < 2 ^ 31)
    {j : Fin iprpDdMaxLostPackets} (hj : ∀ i ∈ is, slotOf i ≠ j)
    {listSn listSn' : Fin iprpDdMaxLostPackets → UInt32}
    (h : is.foldlM storeSn listSn = some listSn') : listSn' j = listSn j := by
  induction is generalizing listSn with
  | nil =>
      obtain rfl := Option.some.inj h
      rfl
  | cons i is ih =>
      have hslot : j ≠ slotOf i := (hj i List.mem_cons_self).symm
      rw [List.foldlM_cons, storeSn_eq (his i List.mem_cons_self)] at h
      rw [ih (fun i' hi' => his i' (List.mem_cons_of_mem i hi'))
        (fun i' hi' => hj i' (List.mem_cons_of_mem i hi')) h, Function.update_of_ne hslot]

theorem slotOf_ne {i j : ℕ} (hlt : i < j) (hnear : j < i + iprpDdMaxLostPackets) :
    slotOf j ≠ slotOf i := by
  intro h
  have hmod : j % 1024 = i % 1024 := congrArg Fin.val h
  have hbound : j < i + 1024 := hnear
  omega

theorem noteGap_last {listSn listSn' : Fin iprpDdMaxLostPackets → UInt32}
    {highSn seqNb : UInt32} (hseq : seqNb.toNat < 2 ^ 31)
    (h : noteGap listSn highSn seqNb = some listSn') {i : ℕ} (hi : highSn.toNat < i)
    (hlt : i < seqNb.toNat) (hnear : seqNb.toNat ≤ i + iprpDdMaxLostPackets) :
    listSn' (slotOf i) = UInt32.ofNat i := by
  have hsplit : List.range' (highSn.toNat + 1) (seqNb.toNat - (highSn.toNat + 1)) =
      List.range' (highSn.toNat + 1) (i - (highSn.toNat + 1)) ++
        i :: List.range' (i + 1) (seqNb.toNat - (i + 1)) := by
    rw [← List.range'_succ]
    have happend := @List.range'_append_1 (highSn.toNat + 1) (i - (highSn.toNat + 1))
      (seqNb.toNat - (i + 1) + 1)
    have hstart : highSn.toNat + 1 + (i - (highSn.toNat + 1)) = i := by omega
    have hcount : i - (highSn.toNat + 1) + (seqNb.toNat - (i + 1) + 1) =
        seqNb.toNat - (highSn.toNat + 1) := by omega
    rw [hstart, hcount] at happend
    exact happend.symm
  rw [noteGap, hsplit, List.foldlM_append] at h
  obtain ⟨before, -, h⟩ := Option.bind_eq_some_iff.1 h
  rw [List.foldlM_cons, storeSn_eq (by omega)] at h
  have hlater : ∀ i' ∈ List.range' (i + 1) (seqNb.toNat - (i + 1)),
      i < i' ∧ i' < seqNb.toNat := by
    intro i' hi'
    rw [List.mem_range'_1] at hi'
    omega
  rw [foldlM_storeSn_frame (fun i' hi' => lt_trans (hlater i' hi').2 hseq) _ h,
    Function.update_self]
  intro i' hi'
  obtain ⟨hgt, hlt'⟩ := hlater i' hi'
  exact slotOf_ne hgt (by omega)

theorem noteGap_frame {listSn listSn' : Fin iprpDdMaxLostPackets → UInt32}
    {highSn seqNb : UInt32} (hseq : seqNb.toNat < 2 ^ 31)
    (h : noteGap listSn highSn seqNb = some listSn') {i : ℕ} (hi : i < highSn.toNat)
    (hnear : seqNb.toNat ≤ i + iprpDdMaxLostPackets) :
    listSn' (slotOf i) = listSn (slotOf i) := by
  have hrange : ∀ i' ∈ List.range' (highSn.toNat + 1) (seqNb.toNat - (highSn.toNat + 1)),
      highSn.toNat < i' ∧ i' < seqNb.toNat := by
    intro i' hi'
    rw [List.mem_range'_1] at hi'
    omega
  refine foldlM_storeSn_frame (fun i' hi' => lt_trans (hrange i' hi').2 hseq) ?_ h
  intro i' hi'
  obtain ⟨hgt, hlt⟩ := hrange i' hi'
  exact slotOf_ne (lt_trans hi hgt) (by omega)

/-! ## The window -/

theorem isFreshPacket_keeps {seqNb : UInt32} (hseq : SeqInRange seqNb) {link link' : ReceiverLink}
    {fresh : Bool} (hwindow : ∀ v ∈ (window link).skipped, v < (window link).high)
    (h : isFreshPacket seqNb link = some (fresh, link')) :
    Keeps iprpDdMaxLostPackets (window link) seqNb.toNat (window link') := by
  unfold isFreshPacket at h
  split at h
  · cases h
    exact ⟨le_rfl, fun v hv hlt _ _ => hv.resolve_right (not_lt_of_gt hlt)⟩
  · split at h
    · next hlt =>
        obtain ⟨listSn, hgap, heq⟩ := Option.map_eq_some_iff.1 h
        cases heq
        have hhigh : link.highSn.toNat < seqNb.toNat := UInt32.lt_iff_toNat_lt.1 hlt
        refine ⟨le_of_lt hhigh, ?_⟩
        intro v hv hv' hne hnear
        rcases hv with hold | hnew
        · obtain ⟨s, ⟨hs, hslot⟩, rfl⟩ := hold
          have hbelow : s.toNat < link.highSn.toNat := hwindow s.toNat ⟨s, ⟨hs, hslot⟩, rfl⟩
          exact ⟨s, ⟨hs, (noteGap_frame hseq.2 hgap hbelow hnear).trans hslot⟩, rfl⟩
        · have hbound : v < seqNb.toNat := hv'
          have hval : (UInt32.ofNat v).toNat = v := by
            rw [UInt32.toNat_ofNat']
            exact Nat.mod_eq_of_lt (lt_trans (lt_trans hbound hseq.2) (by norm_num))
          have hslot := noteGap_last hseq.2 hgap hnew hbound hnear
          have hpos : 0 < v := Nat.pos_of_ne_zero (fun hzero => by
            rw [hzero] at hnew
            exact Nat.not_lt_zero _ hnew)
          refine ⟨UInt32.ofNat v, ⟨?_, ?_⟩, hval⟩
          · intro hzero
            rw [hzero] at hval
            exact absurd hval.symm (Nat.ne_of_gt hpos)
          · rw [lateIndex, hval]
            exact hslot
    · split at h
      · cases h
        refine ⟨le_rfl, ?_⟩
        intro v hv hlt hne hnear
        obtain ⟨s, ⟨hs, hslot⟩, rfl⟩ := hv.resolve_right (not_lt_of_gt hlt)
        refine ⟨s, ⟨hs, ?_⟩, rfl⟩
        by_cases hidx : lateIndex s = lateIndex seqNb
        · -- the number in the slot is the one that was presented
          next hlate =>
            rw [hidx, hlate] at hslot
            exact absurd (congrArg UInt32.toNat hslot.symm) hne
        · exact (Function.update_of_ne hidx _ _).trans hslot
      · cases h
        exact ⟨le_rfl, fun v hv hlt _ _ => hv.resolve_right (not_lt_of_gt hlt)⟩

/-- The numbers presented to a link that was created from the number `first`. -/
def presented (first : UInt32) (seqNbs : List UInt32) : Set ℕ :=
  {v | ∃ s ∈ first :: seqNbs, s.toNat = v}

theorem presented_append_singleton (first : UInt32) (seqNbs : List UInt32) (seqNb : UInt32) :
    presented first (seqNbs ++ [seqNb]) = insert seqNb.toNat (presented first seqNbs) := by
  ext v
  constructor
  · rintro ⟨s, hs, rfl⟩
    rw [← List.cons_append, List.mem_append, List.mem_singleton] at hs
    rcases hs with hold | rfl
    · exact Or.inr ⟨s, hold, rfl⟩
    · exact Or.inl rfl
  · rintro (rfl | ⟨s, hs, rfl⟩)
    · exact ⟨seqNb, List.mem_cons_of_mem first List.mem_concat_self, rfl⟩
    · exact ⟨s, List.mem_append_left [seqNb] hs, rfl⟩

/-- What is kept along the calls on a link created from the number `first`. -/
structure KeepsWindow (first : UInt32) (seqNbs : List UInt32) (link : ReceiverLink) : Prop where
  below : ∀ v ∈ (window link).skipped, v < (window link).high
  high : (window link).high ∈ presented first seqNbs
  remembers : Remembers iprpDdMaxLostPackets first.toNat (window link) (presented first seqNbs)

theorem keepsWindow_created (o : Bytes.ByteOrder) (currTime : ℤ) (header : IprpHeader) :
    KeepsWindow header.seqNb [] (receiverLinkCreate o currTime header) where
  below v hv := absurd (window_receiverLinkCreate o currTime header hv) (Set.notMem_empty v)
  high := ⟨header.seqNb, List.mem_singleton.2 rfl, rfl⟩
  remembers :=
    remembers_first iprpDdMaxLostPackets (window (receiverLinkCreate o currTime header)) _

theorem KeepsWindow.step {first seqNb : UInt32} {seqNbs : List UInt32} {link : ReceiverLink}
    (hseq : SeqInRange seqNb) (h : KeepsWindow first seqNbs link) :
    ∃ link', present link seqNb = some link' ∧ KeepsWindow first (seqNbs ++ [seqNb]) link' := by
  obtain ⟨fresh, link', hfresh, hstep⟩ := isFreshPacket_step hseq link
  have hkeeps := isFreshPacket_keeps hseq h.below hfresh
  refine ⟨link', ?_, hstep.skipped_lt h.below, ?_, ?_⟩
  · rw [present, hfresh, Option.map_some]
  · rw [presented_append_singleton]
    rcases hstep.high_eq with hnew | hold
    · exact Or.inl hnew
    · exact Or.inr (hold ▸ h.high)
  · rw [presented_append_singleton]
    exact hkeeps.remembers h.remembers h.high

theorem isFreshPacket_accepts {seqNb : UInt32} (hseq : SeqInRange seqNb) {link : ReceiverLink}
    (h : link.highSn < seqNb ∨ link.highSn ≠ seqNb ∧ seqNb.toNat ∈ (window link).skipped) :
    ∃ link', isFreshPacket seqNb link = some (true, link') := by
  unfold isFreshPacket
  rcases h with habove | ⟨hne, hskipped⟩
  · obtain ⟨listSn, hgap, -⟩ := noteGap_defined link.listSn link.highSn hseq.2
    have hne : ¬ seqNb = link.highSn := fun heq => by
      rw [heq] at habove
      exact absurd habove (UInt32.lt_irrefl _)
    rw [if_neg hne, if_pos habove, hgap]
    exact ⟨_, rfl⟩
  · by_cases habove : link.highSn < seqNb
    · obtain ⟨listSn, hgap, -⟩ := noteGap_defined link.listSn link.highSn hseq.2
      rw [if_neg hne.symm, if_pos habove, hgap]
      exact ⟨_, rfl⟩
    · rw [if_neg hne.symm, if_neg habove, if_pos (mem_window_skipped.1 hskipped).2]
      exact ⟨_, rfl⟩

/-- On a link created from a first packet and called with any numbers in `1, …, 2 ^ 31 - 1`, a
number above the first one that was never presented is accepted, as long as it is above `high_sn`
or at most `iprpDdMaxLostPackets` below it. -/
theorem no_false_drop (o : Bytes.ByteOrder) (currTime : ℤ) (header : IprpHeader)
    (seqNbs : List UInt32) (hseqs : ∀ s ∈ seqNbs, SeqInRange s) :
    ∃ link, presentAll (receiverLinkCreate o currTime header) seqNbs = some link ∧
      ∀ s, SeqInRange s → header.seqNb < s → s ∉ seqNbs →
        (link.highSn < s ∨ link.highSn.toNat - s.toNat ≤ iprpDdMaxLostPackets) →
        ∃ link', isFreshPacket s link = some (true, link') := by
  obtain ⟨link, hrun, hkeeps⟩ : ∃ link,
      presentAll (receiverLinkCreate o currTime header) seqNbs = some link ∧
        KeepsWindow header.seqNb seqNbs link := by
    have hrun := @Run.runFrom_take_total _ _ present (receiverLinkCreate o currTime header) seqNbs
      (KeepsWindow header.seqNb) (keepsWindow_created o currTime header)
      (fun k s link hs _ h => h.step (hseqs s (List.mem_of_getElem? hs))) seqNbs.length
    rwa [List.take_length] at hrun
  refine ⟨link, hrun, ?_⟩
  intro s hs hfirst hnew hwindow
  apply isFreshPacket_accepts hs
  have hfresh : s.toNat ∉ presented header.seqNb seqNbs := by
    rintro ⟨s', hs', heq⟩
    obtain rfl := UInt32.toNat_inj.1 heq
    rcases List.mem_cons.1 hs' with rfl | hold
    · exact absurd hfirst (UInt32.lt_irrefl _)
    · exact hnew hold
  by_cases habove : link.highSn < s
  · exact Or.inl habove
  · have hne : link.highSn ≠ s := fun heq => hfresh (heq ▸ hkeeps.high)
    have hbelow : s.toNat < link.highSn.toNat := by
      have hle : s.toNat ≤ link.highSn.toNat := Nat.not_lt.1 (mt UInt32.lt_iff_toNat_lt.2 habove)
      exact lt_of_le_of_ne hle fun heq => hne (UInt32.toNat_inj.1 heq.symm)
    have hnear : link.highSn.toNat ≤ s.toNat + iprpDdMaxLostPackets :=
      Nat.sub_le_iff_le_add'.1 (hwindow.resolve_left habove)
    exact Or.inr ⟨hne, hkeeps.remembers s.toNat (UInt32.lt_iff_toNat_lt.1 hfirst) hbelow hnear
      hfresh⟩

/-- After a jump from `1` to `1026` the number `2` is exactly at the end of the window. -/
theorem no_false_drop_jump :
    ∃ link, presentAll (receiverLinkCreate .little 0 (bareHeader 1)) [1026] = some link ∧
      ∀ s, SeqInRange s → 1 < s → s ∉ [1026] →
        (link.highSn < s ∨ link.highSn.toNat - s.toNat ≤ iprpDdMaxLostPackets) →
        ∃ link', isFreshPacket s link = some (true, link') :=
  no_false_drop .little 0 (bareHeader 1) [1026] (by simp [SeqInRange])

end Iprp.Ird
