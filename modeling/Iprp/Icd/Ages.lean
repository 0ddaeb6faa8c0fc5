import Iprp.Icd.Acks
import Iprp.Library.Sweep
import Mathlib.Data.List.TakeWhile

/-!
# The ages of the sender interfaces

An entry of `sender_ifaces` is meant to live as long as ACKs for it arrive. Its `last_seen` is
set by `in_sender_ifaces`, which handles the question of `handle_ack` and that of `as_routine`
alike: a round of CAPs that finds an entry makes it as young as an ACK would. So the ages are
those of the ACKs exactly along the runs whose rounds only find entries that an ACK refreshed in
the same second (`ages_current_iff`).
-/

namespace Iprp.Icd

open KeyedList

/-- The steps that use `sender_ifaces`. An ACK may have any count of interfaces. -/
inductive AgeAction where
  | ack (heap : Heap) (msg : AckMsg)
  | round (senders : List ActiveSender)
  | start
  | iteration

structure AgeEvent where
  currTime : ℤ
  action : AgeAction

/-- The group and the source of the ACK that an event handles. -/
def AgeEvent.ackKey? (e : AgeEvent) : Option (InAddr × InAddr) :=
  match e.action with
  | .ack _ msg => some msg.key
  | _ => none

def ageStep (c : Config) (s : SiState) (e : AgeEvent) : Option SiState :=
  match e.action with
  | .ack heap msg =>
      (handleAck c e.currTime heap msg s.toControl).map fun control =>
        { s with toControl := control }
  | .round senders =>
      some { s with toControl :=
        (asRound c.target.build c.this.toHost e.currTime senders s.toControl).2 }
  | .start => some (siStart s)
  | .iteration => some (siIteration e.currTime s)

def ageRun (c : Config) (es : List AgeEvent) : Option SiState :=
  Run.runFrom (ageStep c) SiState.init es

/-- When the most recent ACK for a group and a source was handled. -/
def lastAckTime (k : InAddr × InAddr) (es : List AgeEvent) : Option ℤ :=
  Run.lastTime AgeEvent.currTime (fun e => e.ackKey? = some k) es

/-- The age of each entry is that of its most recent ACK. -/
def AgesCurrent (es : List AgeEvent) (s : SiState) : Prop :=
  ∀ entry ∈ s.senderIfaces, lastAckTime entry.key es = some entry.lastSeen

/-- The inputs from `i` on, up to `j`, hold one pass of `count_and_cleanup`. -/
def CleanupPass (c : Config) (es : List AgeEvent) (i j : ℕ) : Prop :=
  Pass (ageStep c) SiState.init SiState.siIterator (fun e => e.action = .start) es i j

/-- A pass removes the entries whose last ACK is older than `icdSiTexp` while it runs. -/
def RemovesUnacked (c : Config) (es : List AgeEvent) : Prop :=
  ∀ i j k t, CleanupPass c es i j → lastAckTime k (es.take i) = some t →
    (∀ m e, i ≤ m → m < j → es[m]? = some e → e.ackKey? ≠ some k ∧ icdSiTexp < e.currTime - t) →
    ∃ s, ageRun c (es.take j) = some s ∧ lookup SenderIfaces.key k s.senderIfaces = none

/-- The senders that a round looks up and finds. -/
def foundSenders (build : Build) (s : Control) (senders : List ActiveSender) :
    List ActiveSender :=
  match build with
  | .unicast => []
  | .multicast => senders.takeWhile (acked s)

theorem lastAckTime_concat (k : InAddr × InAddr) (es : List AgeEvent) (e : AgeEvent) :
    lastAckTime k (es ++ [e]) =
      if e.ackKey? = some k then some e.currTime else lastAckTime k es :=
  Run.lastTime_concat AgeEvent.currTime (fun e => e.ackKey? = some k) es e

/-! ## Rounds -/

theorem lookup_inSenderIfaces (currTime : ℤ) (k k' : InAddr × InAddr) (s : Control) :
    lookup SenderIfaces.key k' (inSenderIfaces currTime k s).2.senderIfaces =
      (lookup SenderIfaces.key k' s.senderIfaces).map fun entry =>
        if k' = k then { entry with lastSeen := currTime } else entry := by
  dsimp only [inSenderIfaces]
  by_cases hk : k' = k
  · rw [hk, lookup_update_same fun entry _ => by rfl]
    simp only [if_true]
  · rw [lookup_update_of_ne (fun entry _ => by rfl) hk]
    simp only [if_neg hk, Option.map_id']

theorem lookup_asRound (build : Build) (this : Host) (currTime : ℤ)
    (senders : List ActiveSender) (s : Control) (k : InAddr × InAddr) :
    lookup SenderIfaces.key k (asRound build this currTime senders s).2.senderIfaces =
      (lookup SenderIfaces.key k s.senderIfaces).map fun entry =>
        if k ∈ (foundSenders build s senders).map ActiveSender.ackKey then
          { entry with lastSeen := currTime }
        else entry := by
  have hnil : ∀ o : Option SenderIfaces, o = o.map fun entry =>
      if k ∈ ([] : List ActiveSender).map ActiveSender.ackKey then
        { entry with lastSeen := currTime }
      else entry := by
    intro o
    simp
  cases build with
  | unicast =>
      rw [asRound_unicast]
      exact hnil _
  | multicast =>
      induction senders generalizing s with
      | nil => exact hnil _
      | cons sender senders ih =>
          have hrest := ih (inSenderIfaces currTime sender.ackKey s).2
          have hfound : (inSenderIfaces currTime sender.ackKey s).1 = acked s sender := rfl
          rw [foundSenders, acked_inSenderIfaces, lookup_inSenderIfaces, Option.map_map] at hrest
          rw [asRound, foundSenders, List.takeWhile_cons]
          dsimp only
          rw [hfound]
          cases hacked : acked s sender with
          | false =>
              -- the lookup has found nothing to refresh
              have hnone : lookup SenderIfaces.key sender.ackKey s.senderIfaces = none := by
                rw [acked, Option.isSome_eq_false_iff, Option.isNone_iff_eq_none] at hacked
                exact hacked
              rw [if_neg Bool.false_ne_true, ← hnil]
              change lookup SenderIfaces.key k
                (inSenderIfaces currTime sender.ackKey s).2.senderIfaces = _
              rw [lookup_inSenderIfaces]
              by_cases hk : k = sender.ackKey
              · rw [hk, hnone, Option.map_none]
              · simp only [if_neg hk, Option.map_id']
          | true =>
              rw [if_pos rfl, List.map_cons]
              change lookup SenderIfaces.key k (asRound .multicast this currTime senders
                (inSenderIfaces currTime sender.ackKey s).2).2.senderIfaces = _
              rw [hrest]
              congr 1
              funext entry
              by_cases hk : k = sender.ackKey
              · simp [hk]
              · simp [hk]

/-! ## Steps -/

/-- What a step does to the entry that is found for `k`. -/
inductive EntryStep (c : Config) (s : SiState) (e : AgeEvent) (k : InAddr × InAddr)
    (entry' : Option SenderIfaces) : Prop
  /-- An ACK for `k` is handled. -/
  | acked (he : e.ackKey? = some k) (hseen : ∀ entry, entry' = some entry →
      entry.lastSeen = e.currTime)
  /-- A round finds the entry. -/
  | found (senders : List ActiveSender) (he : e.action = .round senders)
      (hk : k ∈ (foundSenders c.target.build s.toControl senders).map ActiveSender.ackKey)
      (hseen : ∀ entry, entry' = some entry → entry.lastSeen = e.currTime)
  /-- The entry is removed. -/
  | removed (he : e.ackKey? ≠ some k) (hnone : entry' = none)
  | kept (he : e.ackKey? ≠ some k)
      (hsame : entry' = lookup SenderIfaces.key k s.senderIfaces)

theorem createSenderIfaces_lastSeen {c : Config} {currTime : ℤ} {heap : Heap} {msg : AckMsg}
    {entry : SenderIfaces} (h : createSenderIfaces c currTime heap msg = some entry) :
    entry.lastSeen = currTime := by
  unfold createSenderIfaces at h
  split at h
  · rw [← Option.some.inj h]
  · cases h

theorem siIteration_senderIfaces {currTime : ℤ} {s : SiState} {i : ℕ}
    (hit : s.siIterator = some i) :
    siIteration currTime s =
      { s with
        senderIfaces := (sweepStep (siAged currTime) s.senderIfaces i).1
        siIterator := (sweepStep (siAged currTime) s.senderIfaces i).2 } := by
  rw [siIteration, hit]

theorem entryStep {c : Config} {s s' : SiState} {e : AgeEvent}
    (hs : UniqueKeys SenderIfaces.key s.senderIfaces) (h : ageStep c s e = some s')
    (k : InAddr × InAddr) :
    EntryStep c s e k (lookup SenderIfaces.key k s'.senderIfaces) := by
  obtain ⟨currTime, action⟩ := e
  cases action with
  | ack heap msg =>
      obtain ⟨control, hcontrol, rfl⟩ := Option.map_eq_some_iff.1 h
      by_cases hk : msg.key = k
      · refine .acked (congrArg some hk) ?_
        subst hk
        intro entry hentry
        rcases handleAck_cases hcontrol with ⟨old, hfound, rfl⟩ | ⟨new, hnone, hnew, rfl⟩
        · dsimp only at hentry
          rw [lookup_update_same (fun entry _ => by rfl), hfound] at hentry
          rw [← Option.some.inj hentry]
        · dsimp only at hentry
          rw [lookup_append_singleton, hnone, Option.none_or,
            if_pos (createSenderIfaces_key hnew)] at hentry
          rw [← Option.some.inj hentry, createSenderIfaces_lastSeen hnew]
      · refine .kept (fun heq => hk (Option.some.inj heq)) ?_
        rcases handleAck_cases hcontrol with ⟨old, hfound, rfl⟩ | ⟨new, hnone, hnew, rfl⟩
        · exact lookup_update_of_ne (fun entry _ => by rfl) (Ne.symm hk)
        · dsimp only
          rw [lookup_append_singleton, createSenderIfaces_key hnew, if_neg hk, Option.or_none]
  | round senders =>
      obtain rfl := Option.some.inj h
      by_cases hk : k ∈ (foundSenders c.target.build s.toControl senders).map ActiveSender.ackKey
      · refine .found senders rfl hk ?_
        intro entry hentry
        dsimp only at hentry
        rw [lookup_asRound] at hentry
        obtain ⟨old, -, rfl⟩ := Option.map_eq_some_iff.1 hentry
        rw [if_pos hk]
      · refine .kept (by simp [AgeEvent.ackKey?]) ?_
        dsimp only
        rw [lookup_asRound]
        simp only [if_neg hk, Option.map_id']
  | start =>
      obtain rfl := Option.some.inj h
      refine .kept (by simp [AgeEvent.ackKey?]) ?_
      unfold siStart
      cases s.siIterator with
      | none => rfl
      | some i => rfl
  | iteration =>
      obtain rfl := Option.some.inj h
      have hne : AgeEvent.ackKey? ⟨currTime, .iteration⟩ ≠ some k := by simp [AgeEvent.ackKey?]
      cases hit : s.siIterator with
      | none =>
          refine .kept hne ?_
          rw [siIteration, hit]
      | some i =>
          rw [siIteration_senderIfaces hit]
          dsimp only
          rcases lookup_sweepStep_cases hs (siAged currTime) i k with ⟨entry, -, -, hnone⟩ | hsame
          · exact .removed hne hnone
          · exact .kept hne hsame

theorem uniqueKeys_ageStep {c : Config} {s s' : SiState} {e : AgeEvent}
    (hs : UniqueKeys SenderIfaces.key s.senderIfaces) (h : ageStep c s e = some s') :
    UniqueKeys SenderIfaces.key s'.senderIfaces := by
  obtain ⟨currTime, action⟩ := e
  cases action with
  | ack heap msg =>
      obtain ⟨control, hcontrol, rfl⟩ := Option.map_eq_some_iff.1 h
      rcases handleAck_cases hcontrol with ⟨old, hfound, rfl⟩ | ⟨new, hnone, hnew, rfl⟩
      · exact uniqueKeys_update (fun entry _ => by rfl) hs
      · refine uniqueKeys_append_singleton hs ?_
        rwa [createSenderIfaces_key hnew]
  | round senders =>
      obtain rfl := Option.some.inj h
      have hcontent := content_asRound c.target.build c.this.toHost currTime senders s.toControl
      unfold UniqueKeys
      rw [map_key_of_content hcontent]
      exact hs
  | start =>
      obtain rfl := Option.some.inj h
      unfold siStart
      cases s.siIterator with
      | none => exact hs
      | some i => exact hs
  | iteration =>
      obtain rfl := Option.some.inj h
      cases hit : s.siIterator with
      | none =>
          rw [siIteration, hit]
          exact hs
      | some i =>
          rw [siIteration_senderIfaces hit]
          exact uniqueKeys_sweepStep hs (siAged currTime) i

theorem uniqueKeys_ageRun {c : Config} {es : List AgeEvent} {s : SiState}
    (h : ageRun c es = some s) : UniqueKeys SenderIfaces.key s.senderIfaces :=
  Run.runFrom_preserved (fun s => UniqueKeys SenderIfaces.key s.senderIfaces)
    (fun _ _ _ hs hstep => uniqueKeys_ageStep hs hstep) (uniqueKeys_nil _) h

theorem agesCurrent_iff_lookup {es : List AgeEvent} {s : SiState}
    (hs : UniqueKeys SenderIfaces.key s.senderIfaces) :
    AgesCurrent es s ↔ ∀ k entry, lookup SenderIfaces.key k s.senderIfaces = some entry →
      lastAckTime k es = some entry.lastSeen := by
  constructor
  · intro h k entry hentry
    rw [← key_of_lookup hentry]
    exact h entry (mem_of_lookup hentry)
  · intro h entry hentry
    exact h entry.key entry (lookup_of_mem hs hentry)

/-! ## Runs -/

theorem agesCurrent_step {c : Config} {es : List AgeEvent} {s s' : SiState} {e : AgeEvent}
    (hs : UniqueKeys SenderIfaces.key s.senderIfaces) (hcurrent : AgesCurrent es s)
    (hround : ∀ senders, e.action = .round senders →
      ∀ sender ∈ foundSenders c.target.build s.toControl senders,
        lastAckTime sender.ackKey es = some e.currTime)
    (hstep : ageStep c s e = some s') : AgesCurrent (es ++ [e]) s' := by
  rw [agesCurrent_iff_lookup hs] at hcurrent
  rw [agesCurrent_iff_lookup (uniqueKeys_ageStep hs hstep)]
  intro k entry hentry
  rw [lastAckTime_concat]
  cases entryStep hs hstep k with
  | acked he hseen => rw [if_pos he, hseen entry hentry]
  | found senders he hk hseen =>
      obtain ⟨sender, hsender, rfl⟩ := List.mem_map.1 hk
      have hne : e.ackKey? ≠ some sender.ackKey := by simp [AgeEvent.ackKey?, he]
      rw [if_neg hne, hround senders he sender hsender, hseen entry hentry]
  | removed he hnone =>
      rw [hnone] at hentry
      cases hentry
  | kept he hsame =>
      rw [if_neg he]
      exact hcurrent k entry (hsame ▸ hentry)

theorem acked_of_mem_foundSenders {build : Build} {s : Control} {senders : List ActiveSender}
    {sender : ActiveSender} (h : sender ∈ foundSenders build s senders) :
    acked s sender = true := by
  cases build with
  | unicast => cases h
  | multicast => exact List.mem_takeWhile_imp h

theorem lastAckTime_of_agesCurrent {c : Config} {es : List AgeEvent} {s s' : SiState}
    {e : AgeEvent} {senders : List ActiveSender} (he : e.action = .round senders)
    (hstep : ageStep c s e = some s') (hcurrent : AgesCurrent (es ++ [e]) s')
    {sender : ActiveSender}
    (hsender : sender ∈ foundSenders c.target.build s.toControl senders) :
    lastAckTime sender.ackKey es = some e.currTime := by
  obtain ⟨currTime, action⟩ := e
  subst he
  obtain rfl := Option.some.inj hstep
  obtain ⟨entry, hentry⟩ := Option.isSome_iff_exists.1 (acked_of_mem_foundSenders hsender)
  have hfound : lookup SenderIfaces.key sender.ackKey (asRound c.target.build c.this.toHost
      currTime senders s.toControl).2.senderIfaces = some { entry with lastSeen := currTime } := by
    rw [lookup_asRound, hentry, Option.map_some, if_pos (List.mem_map_of_mem hsender)]
  have hlast := hcurrent _ (mem_of_lookup hfound)
  rw [key_of_lookup hfound, lastAckTime_concat, if_neg (by simp [AgeEvent.ackKey?])] at hlast
  exact hlast

theorem cursorStep {c : Config} {s s' : SiState} {e : AgeEvent} (h : ageStep c s e = some s') :
    CursorStep SenderIfaces.key (siAged e.currTime) s.senderIfaces s'.senderIfaces s.siIterator
      s'.siIterator := by
  obtain ⟨currTime, action⟩ := e
  cases action with
  | ack heap msg =>
      obtain ⟨control, hcontrol, rfl⟩ := Option.map_eq_some_iff.1 h
      rcases handleAck_cases hcontrol with ⟨old, hfound, rfl⟩ | ⟨new, hnone, hnew, rfl⟩
      · refine .grow _ [] ?_
        rw [List.append_nil]
        exact map_key_update fun entry _ => by rfl
      · exact .grow _ [new.key] List.map_append
  | round senders =>
      obtain rfl := Option.some.inj h
      refine .grow _ [] ?_
      rw [List.append_nil]
      exact map_key_of_content
        (content_asRound c.target.build c.this.toHost currTime senders s.toControl)
  | start =>
      obtain rfl := Option.some.inj h
      unfold siStart
      cases hit : s.siIterator with
      | none => exact .start rfl
      | some i =>
          dsimp only
          rw [hit]
          exact .refl ..
  | iteration =>
      obtain rfl := Option.some.inj h
      cases hit : s.siIterator with
      | none =>
          rw [siIteration, hit]
          dsimp only
          rw [hit]
          exact .refl ..
      | some i =>
          rw [siIteration_senderIfaces hit]
          exact .sweep i rfl

theorem removesUnacked_of_current {c : Config} {es : List AgeEvent}
    (h : ∀ k s, ageRun c (es.take k) = some s → AgesCurrent (es.take k) s) :
    RemovesUnacked c es := by
  intro i j k t hpass hlast hunacked
  refine hpass.removes (fun s => s.senderIfaces) SenderIfaces.key (fun e => siAged e.currTime) k ?_
    (fun e s s' => cursorStep) ?_
  · rintro ⟨currTime, action⟩ s s' hstart hidle hstep
    obtain rfl : action = .start := hstart
    obtain rfl := Option.some.inj hstep
    rw [siStart, hidle]
    exact ⟨rfl, rfl⟩
  · intro m e s entry him hmj he hs hentry hk
    -- an entry for `k` is as old as its last ACK, which is that before the pass
    have hlast' : lastAckTime k (es.take m) = some t := by
      rw [← hlast]
      refine Run.lastTime_take_eq (le_of_lt him) ?_
      intro n e' hin hnm he'
      exact (hunacked n e' hin (lt_trans hnm hmj) he').1
    have hage := h m s hs entry hentry
    rw [hk, hlast'] at hage
    rw [siAged, ← Option.some.inj hage]
    exact decide_eq_true (hunacked m e (le_of_lt him) hmj he).2

/-- Along every run: in every state the age of each entry is that of its most recent ACK, and
each pass removes the entries whose last ACK is too old, if and only if every round finds only
entries for which an ACK was handled in the same second. -/
theorem ages_current_iff (c : Config) (es : List AgeEvent) :
    ((∀ k s, ageRun c (es.take k) = some s → AgesCurrent (es.take k) s) ∧
      RemovesUnacked c es) ↔
    ∀ k e senders s, es[k]? = some e → e.action = .round senders →
      ageRun c (es.take k) = some s →
      ∀ sender ∈ foundSenders c.target.build s.toControl senders,
        lastAckTime sender.ackKey (es.take k) = some e.currTime := by
  constructor
  · rintro ⟨h, -⟩ k e senders s he hround hs sender hsender
    obtain ⟨s', hstep⟩ : ∃ s', ageStep c s e = some s' := by
      rw [ageStep, hround]
      exact ⟨_, rfl⟩
    have hcurrent := h (k + 1) s' ((Run.runFrom_take_succ_eq_some he).2 ⟨s, hs, hstep⟩)
    rw [List.take_add_one, he] at hcurrent
    exact lastAckTime_of_agesCurrent hround hstep hcurrent hsender
  · intro h
    have hcurrent : ∀ k s, ageRun c (es.take k) = some s → AgesCurrent (es.take k) s := by
      intro k s hs
      refine Run.runFrom_take_history AgesCurrent (fun entry hentry => by cases hentry) ?_ k hs
      intro k e s s' he hs hcurrent hstep
      exact agesCurrent_step (uniqueKeys_ageRun hs) hcurrent
        (fun senders hround => h k e senders s he hround hs) hstep
    exact ⟨hcurrent, removesUnacked_of_current hcurrent⟩

/-- An ACK, a round that finds its entry later, and a pass for which the ACK is too old. -/
def roundAfterAck : List AgeEvent :=
  [⟨1, .ack smallHeap (oneIfaceAck 0 (inAddr 10 0 0 9))⟩,
    ⟨60, .round [⟨inAddr 10 0 0 9, inAddr 232 0 0 1, 4000, 5000⟩]⟩, ⟨62, .start⟩, ⟨62, .iteration⟩]

/-- The round has refreshed the entry, and the pass keeps it. -/
theorem round_keeps_alive :
    ¬ ∀ (c : Config) (es : List AgeEvent),
      es.Pairwise (fun e e' => e.currTime ≤ e'.currTime) →
      (∀ k s, ageRun c (es.take k) = some s → AgesCurrent (es.take k) s) ∧
        RemovesUnacked c es := by
  intro h
  have hclock : roundAfterAck.Pairwise fun e e' => e.currTime ≤ e'.currTime := by
    simp [roundAfterAck]
  obtain ⟨s, hs⟩ : ∃ s, ageRun (smallConfig .multicast) roundAfterAck = some s := ⟨_, rfl⟩
  have hcurrent := (h (smallConfig .multicast) roundAfterAck hclock).1 4 s hs
  have hentries : (ageRun (smallConfig .multicast) roundAfterAck).map
      (fun s => s.senderIfaces.map fun entry => (entry.key, entry.lastSeen)) =
      some [((inAddr 232 0 0 1, inAddr 10 0 0 9), 60)] := by
    decide +kernel
  rw [hs, Option.map_some] at hentries
  obtain ⟨entry, hentry, heq⟩ : ∃ entry ∈ s.senderIfaces,
      (entry.key, entry.lastSeen) = ((inAddr 232 0 0 1, inAddr 10 0 0 9), 60) := by
    rw [← List.mem_map, Option.some.inj hentries]
    exact List.mem_singleton.2 rfl
  obtain ⟨hkey, hseen⟩ := Prod.mk.inj heq
  have hlast := hcurrent entry hentry
  rw [hkey, hseen] at hlast
  exact absurd hlast (by decide +kernel)

end Iprp.Icd
