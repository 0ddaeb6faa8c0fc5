import Iprp.Ird.Handle

/-!
# The actions on the receiver links

What one action of the IRD does to the list of receiver links: handling a packet
(`packetStep_cases`) and one iteration of the cleanup pass (`cleanupIteration_cases`).
Every invariant of a run is read off these two. SNSIDs stay unique in the list.
-/

namespace Iprp.Ird

open KeyedList

theorem isFreshPacket_frame {seqNb : UInt32} {link link' : ReceiverLink} {fresh : Bool}
    (h : isFreshPacket seqNb link = some (fresh, link')) :
    ∃ listSn highSn, link' = { link with listSn := listSn, highSn := highSn } := by
  unfold isFreshPacket at h
  split at h
  · cases h
    exact ⟨link.listSn, link.highSn, rfl⟩
  · split at h
    · obtain ⟨listSn, _, heq⟩ := Option.map_eq_some_iff.1 h
      cases heq
      exact ⟨listSn, seqNb, rfl⟩
    · split at h
      · cases h
        exact ⟨_, link.highSn, rfl⟩
      · cases h
        exact ⟨link.listSn, link.highSn, rfl⟩

theorem isFreshPacket_snsid {seqNb : UInt32} {link : ReceiverLink} {currTime : ℤ}
    {link' : ReceiverLink} {fresh : Bool}
    (h : isFreshPacket seqNb { link with lastSeen := currTime } = some (fresh, link')) :
    link'.snsid = link.snsid := by
  obtain ⟨_, _, rfl⟩ := isFreshPacket_frame h
  rfl

/-- What handling a packet does: an unknown sender gets a link and a known one a verdict
of the duplicate-discard algorithm on its refreshed link. -/
theorem packetStep_cases {o : Bytes.ByteOrder} {currTime : ℤ} {header : IprpHeader}
    {s s' : State} (h : packetStep o currTime header s = some s') :
    (lookup ReceiverLink.snsid header.snsid s.receiverLinks = none ∧
      s' = { s with
        receiverLinks := s.receiverLinks ++ [receiverLinkCreate o currTime header]
        verdicts := s.verdicts ++ [⟨header.snsid, header.seqNb, true⟩] }) ∨
    ∃ link fresh link',
      lookup ReceiverLink.snsid header.snsid s.receiverLinks = some link ∧
      isFreshPacket header.seqNb { link with lastSeen := currTime } =
        some (fresh, link') ∧
      s' = { s with
        receiverLinks := update ReceiverLink.snsid header.snsid (fun _ => link')
          s.receiverLinks
        verdicts := s.verdicts ++ [⟨header.snsid, header.seqNb, fresh⟩] } := by
  unfold packetStep judgePacket receiverLinkGet at h
  cases hlook : lookup ReceiverLink.snsid header.snsid s.receiverLinks with
  | none =>
      rw [hlook] at h
      exact Or.inl ⟨rfl, (Option.some.inj h).symm⟩
  | some link =>
      rw [hlook] at h
      cases hfresh : isFreshPacket header.seqNb { link with lastSeen := currTime } with
      | none =>
          simp only [hfresh, Option.map_none] at h
          cases h
      | some r =>
          simp only [hfresh, Option.map_some] at h
          exact Or.inr ⟨link, r.1, r.2, rfl, hfresh, (Option.some.inj h).symm⟩

/-- The link that a cleanup iteration is about to examine. -/
def State.examined (s : State) : Option ReceiverLink :=
  s.iterator.bind fun i => s.receiverLinks[i]?

theorem mem_of_examined {s : State} {link : ReceiverLink} (h : s.examined = some link) :
    link ∈ s.receiverLinks := by
  obtain ⟨i, _, hi⟩ := Option.bind_eq_some_iff.1 h
  exact List.mem_of_getElem? hi

/-- What a cleanup iteration does: a move of the cursor past a link that is still good,
or the removal of the expired link that it examines. -/
theorem cleanupIteration_cases (currTime : ℤ) (s : State) :
    (∃ iterator, cleanupIteration currTime s = { s with iterator := iterator } ∧
      ∀ link, s.examined = some link → ¬ expired currTime link) ∨
    ∃ i link iterator, s.receiverLinks[i]? = some link ∧ s.examined = some link ∧
      expired currTime link ∧
      cleanupIteration currTime s =
        { s with receiverLinks := s.receiverLinks.eraseIdx i, iterator := iterator } := by
  unfold cleanupIteration State.examined
  cases hit : s.iterator with
  | none => exact Or.inl ⟨s.iterator, rfl, fun link h => by cases h⟩
  | some i =>
      cases hlink : s.receiverLinks[i]? with
      | none =>
          refine Or.inl ⟨none, by simp only [sweepStep, hlink], ?_⟩
          intro link h
          simp [hlink] at h
      | some link =>
          by_cases hexp : expired currTime link = true
          · refine Or.inr ⟨i, link, node (s.receiverLinks.eraseIdx i) i, hlink, ?_, hexp, ?_⟩
            · simp [hlink]
            · simp only [sweepStep, hlink, hexp, if_true]
          · refine Or.inl ⟨node s.receiverLinks (i + 1), ?_, ?_⟩
            · simp only [sweepStep, hlink, hexp, if_false, Bool.false_eq_true]
            · intro link' h
              obtain rfl : link = link' := by simpa [hlink] using h
              exact hexp

theorem cleanupStart_eq (s : State) :
    ∃ iterator, cleanupStart s = { s with iterator := iterator } := by
  unfold cleanupStart
  cases hit : s.iterator with
  | none => exact ⟨node s.receiverLinks 0, rfl⟩
  | some i => exact ⟨s.iterator, rfl⟩

theorem uniqueKeys_step {o : Bytes.ByteOrder} {s s' : State} {e : Event}
    (hs : UniqueKeys ReceiverLink.snsid s.receiverLinks) (h : step o s e = some s') :
    UniqueKeys ReceiverLink.snsid s'.receiverLinks := by
  obtain ⟨currTime, action⟩ := e
  cases action with
  | packet header =>
      rcases packetStep_cases h with ⟨hnone, rfl⟩ | ⟨link, fresh, link', hlink, hfresh, rfl⟩
      · exact uniqueKeys_append_singleton hs hnone
      · apply uniqueKeys_update _ hs
        intro a ha
        rw [hlink] at ha
        rw [isFreshPacket_snsid hfresh, Option.some.inj ha]
  | cleanupStart =>
      obtain ⟨iterator, heq⟩ := cleanupStart_eq s
      obtain rfl := Option.some.inj h
      rw [heq]
      exact hs
  | cleanupIteration =>
      obtain rfl := Option.some.inj h
      rcases cleanupIteration_cases currTime s with
        ⟨iterator, heq, _⟩ | ⟨i, link, iterator, _, _, _, heq⟩
      · rw [heq]
        exact hs
      · rw [heq]
        exact uniqueKeys_eraseIdx hs i

end Iprp.Ird
