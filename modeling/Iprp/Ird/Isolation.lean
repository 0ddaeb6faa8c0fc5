import Iprp.Ird.Duplicate

/-!
# Senders do not interfere

Two runs of the IRD are compared from the view of one SNSID `x`: a run with any other
senders, and the run without their packets. The view decides the verdicts, so it is enough
that both runs are the same for `x`.

The other run has the same clock and the same cleanup instants. When a cleanup pass is one
step, it is the run with the other packets left out. When the passes are interleaved with
packets, the instant that matters to `x` is the one at which the cursor comes to its link,
and `alone` is the run in which the link is examined at that instant.
-/

namespace Iprp.Ird

open KeyedList

/-! ## Cleanup passes -/

/-- A pass of `cleanup_routine` that is not interleaved with packets: its iterations are
made until the cursor is at the end. -/
def cleanupPass (currTime : ℤ) (s : State) : State :=
  (cleanupIteration currTime)^[s.receiverLinks.length] (cleanupStart s)

theorem iterate_cleanupIteration (currTime : ℤ) (n : ℕ) (s : State) :
    (cleanupIteration currTime)^[n] s =
      { s with
        receiverLinks :=
          ((sweepNext (expired currTime))^[n] (s.receiverLinks, s.iterator)).1
        iterator := ((sweepNext (expired currTime))^[n] (s.receiverLinks, s.iterator)).2 } := by
  induction n generalizing s with
  | zero => rfl
  | succ n ih =>
      obtain ⟨receiverLinks, iterator, verdicts⟩ := s
      rw [Function.iterate_succ_apply, Function.iterate_succ_apply, ih]
      cases iterator with
      | none => rfl
      | some i => rfl

theorem cleanupPass_eq (currTime : ℤ) {s : State} (hs : s.iterator = none) :
    cleanupPass currTime s =
      { s with receiverLinks := s.receiverLinks.filter (!expired currTime ·) } := by
  have hstart : cleanupStart s = { s with iterator := node s.receiverLinks 0 } := by
    unfold cleanupStart
    rw [hs]
  have hsweep := iterate_sweepNext (expired currTime) [] s.receiverLinks
  rw [List.nil_append, List.length_nil] at hsweep
  rw [cleanupPass, iterate_cleanupIteration, hstart, hsweep, ← hs]
  rfl

theorem senderOf_filter {s : State} (hs : UniqueKeys ReceiverLink.snsid s.receiverLinks)
    (currTime : ℤ) (x : Snsid) (o : Bytes.ByteOrder) :
    senderStep o (senderOf x s) ⟨currTime, .examine⟩ = some (senderOf x
      { s with receiverLinks := s.receiverLinks.filter (!expired currTime ·) }) := by
  simp only [senderStep, senderOf, lookup_filter x hs]

/-! ## Passes as steps -/

/-- The actions of the two threads when a pass is one of them. -/
inductive PassAction where
  | packet (header : IprpHeader)
  | pass

structure PassEvent where
  currTime : ℤ
  action : PassAction

def passStep (o : Bytes.ByteOrder) (s : State) (e : PassEvent) : Option State :=
  match e.action with
  | .packet header => packetStep o e.currTime header s
  | .pass => some (cleanupPass e.currTime s)

def passRun (o : Bytes.ByteOrder) (es : List PassEvent) : Option State :=
  Run.runFrom (passStep o) init es

/-- A packet of another SNSID. -/
def PassEvent.ofOther (x : Snsid) (e : PassEvent) : Bool :=
  match e.action with
  | .packet header => header.snsid ≠ x
  | .pass => false

/-- What an event is for `x`. A pass examines the link of `x`, whatever other links there
are. -/
def passView (x : Snsid) (e : PassEvent) : Option SenderEvent :=
  match e.action with
  | .packet header =>
      if header.snsid = x then some ⟨e.currTime, .packet header⟩ else none
  | .pass => some ⟨e.currTime, .examine⟩

/-- No pass is going on, and there is one link for each SNSID. -/
structure Settled (s : State) : Prop where
  iterator : s.iterator = none
  unique : UniqueKeys ReceiverLink.snsid s.receiverLinks

theorem settled_init : Settled init := ⟨rfl, uniqueKeys_nil _⟩

theorem packetStep_iterator {o : Bytes.ByteOrder} {currTime : ℤ} {header : IprpHeader}
    {s s' : State} (h : packetStep o currTime header s = some s') :
    s'.iterator = s.iterator := by
  rcases packetStep_cases h with ⟨_, rfl⟩ | ⟨_, _, _, _, _, rfl⟩
  · rfl
  · rfl

theorem packetStep_unique {o : Bytes.ByteOrder} {currTime : ℤ} {header : IprpHeader}
    {s s' : State} (hs : UniqueKeys ReceiverLink.snsid s.receiverLinks)
    (h : packetStep o currTime header s = some s') :
    UniqueKeys ReceiverLink.snsid s'.receiverLinks :=
  uniqueKeys_step (o := o) (e := ⟨currTime, .packet header⟩) hs h

theorem passStep_senderOf {o : Bytes.ByteOrder} {s s' : State} {e : PassEvent}
    (hs : Settled s) (h : passStep o s e = some s') (x : Snsid) :
    Settled s' ∧ Run.runFrom (senderStep o) (senderOf x s) (passView x e).toList =
      some (senderOf x s') := by
  obtain ⟨currTime, action⟩ := e
  cases action with
  | packet header =>
      refine ⟨⟨(packetStep_iterator h).trans hs.iterator, packetStep_unique hs.unique h⟩, ?_⟩
      by_cases hx : header.snsid = x
      · subst hx
        simpa [passView] using packetStep_senderOf h
      · simpa [passView, hx] using (packetStep_senderOf_of_ne hx h).symm
  | pass =>
      obtain rfl := Option.some.inj h
      rw [cleanupPass_eq currTime hs.iterator]
      refine ⟨⟨hs.iterator, hs.unique.sublist (List.filter_sublist.map _)⟩, ?_⟩
      simpa [passView] using senderOf_filter hs.unique currTime x o

/-- A run over passes is for `x` a run of its own machine, on what its events are for `x`. -/
theorem passRun_senderOf {o : Bytes.ByteOrder} {es : List PassEvent} {s s' : State}
    (hs : Settled s) (h : Run.runFrom (passStep o) s es = some s') (x : Snsid) :
    Run.runFrom (senderStep o) (senderOf x s) (es.filterMap (passView x)) =
      some (senderOf x s') := by
  induction es generalizing s with
  | nil =>
      obtain rfl := Option.some.inj h
      rfl
  | cons e es ih =>
      rw [Run.runFrom_cons, Option.bind_eq_some_iff] at h
      obtain ⟨t, ht, h⟩ := h
      obtain ⟨hsettled, hview⟩ := passStep_senderOf hs ht x
      have hsplit : (e :: es).filterMap (passView x) =
          (passView x e).toList ++ es.filterMap (passView x) := by
        cases hv : passView x e with
        | none => rw [List.filterMap_cons_none hv, Option.toList_none, List.nil_append]
        | some v => rw [List.filterMap_cons_some hv, Option.toList_some]; rfl
      rw [hsplit, Run.runFrom_append, hview, Option.bind_some]
      exact ih hsettled h

theorem filterMap_passView (x : Snsid) (es : List PassEvent) :
    (es.filter fun e => !e.ofOther x).filterMap (passView x) = es.filterMap (passView x) := by
  rw [List.filterMap_filter]
  congr 1
  funext e
  obtain ⟨currTime, action⟩ := e
  cases action with
  | packet header =>
      by_cases hx : header.snsid = x
      · simp [PassEvent.ofOther, passView, hx]
      · simp [PassEvent.ofOther, passView, hx]
  | pass => rfl

theorem passRun_defined (o : Bytes.ByteOrder) {es : List PassEvent}
    (hseq : ∀ e ∈ es, ∀ header, e.action = .packet header → SeqInRange header.seqNb) :
    ∃ s, passRun o es = some s := by
  refine Run.runFrom_total (fun e : PassEvent =>
    ∀ header, e.action = .packet header → SeqInRange header.seqNb) ?_ hseq init
  rintro s ⟨currTime, action⟩ he
  cases action with
  | packet header => exact packetStep_inRange o currTime (he header rfl) s
  | pass => exact ⟨_, rfl⟩

/-! ## Interleaved passes -/

/-- What is left of an event in the run of `x` alone. The link of `x` is then the only one,
so a pass examines it right away. -/
def aloneEvents (x : Snsid) (s : State) (e : Event) : List Event :=
  match e.action with
  | .packet header => if header.snsid = x then [e] else []
  | .cleanupStart => []
  | .cleanupIteration =>
      if s.examined.map ReceiverLink.snsid = some x then [⟨e.currTime, .cleanupStart⟩, e]
      else []

/-- The run of `x` alone: the packets of the others are left out, and cleanup passes come at
the instants at which the link of `x` is examined. -/
def alone (o : Bytes.ByteOrder) (x : Snsid) : State → List Event → List Event
  | _, [] => []
  | s, e :: es =>
      aloneEvents x s e ++
        match step o s e with
        | some s' => alone o x s' es
        | none => []

/-- The state `t` of the run of `x` alone is for `x` the state `s`. -/
structure Alike (x : Snsid) (s t : State) : Prop where
  unique : UniqueKeys ReceiverLink.snsid s.receiverLinks
  settled : Settled t
  only : ∀ link ∈ t.receiverLinks, link.snsid = x
  view : senderOf x t = senderOf x s

theorem packetStep_only {o : Bytes.ByteOrder} {currTime : ℤ} {header : IprpHeader}
    {s s' : State} (hs : ∀ link ∈ s.receiverLinks, link.snsid = header.snsid)
    (h : packetStep o currTime header s = some s') :
    ∀ link ∈ s'.receiverLinks, link.snsid = header.snsid := by
  have hkeys : ∀ {l : List ReceiverLink}, (∀ link ∈ l, link.snsid = header.snsid) ↔
      ∀ k ∈ l.map ReceiverLink.snsid, k = header.snsid := by
    intro l
    rw [List.forall_mem_map]
  rcases packetStep_cases h with ⟨_, rfl⟩ | ⟨link, fresh, link', hlink, hfresh, rfl⟩
  · intro link hlink
    rcases List.mem_append.1 hlink with hold | hnew
    · exact hs link hold
    · obtain rfl := List.mem_singleton.1 hnew
      rfl
  · rw [hkeys]
    dsimp only
    rw [map_key_update, ← hkeys]
    · exact hs
    · intro a ha
      rw [hlink] at ha
      rw [isFreshPacket_snsid hfresh, Option.some.inj ha]

theorem Settled.receiverLinks_eq {x : Snsid} {t : State} (ht : Settled t)
    (honly : ∀ link ∈ t.receiverLinks, link.snsid = x) {link : ReceiverLink}
    (hlink : link ∈ t.receiverLinks) : t.receiverLinks = [link] := by
  have hkeys : t.receiverLinks.map ReceiverLink.snsid =
      List.replicate t.receiverLinks.length x := by
    rw [List.eq_replicate_iff]
    refine ⟨List.length_map _, ?_⟩
    intro k hk
    obtain ⟨link', hlink', rfl⟩ := List.mem_map.1 hk
    exact honly link' hlink'
  have hunique := ht.unique
  rw [UniqueKeys, hkeys, List.nodup_replicate] at hunique
  obtain ⟨link', hlink'⟩ := List.length_eq_one_iff.1
    (le_antisymm hunique (List.length_pos_of_mem hlink))
  rw [hlink', List.mem_singleton] at hlink
  rw [hlink', hlink]

theorem alike_step {o : Bytes.ByteOrder} {x : Snsid} {s s' t : State} {e : Event}
    (hst : Alike x s t) (h : step o s e = some s') :
    ∃ t', Run.runFrom (step o) t (aloneEvents x s e) = some t' ∧ Alike x s' t' := by
  have hunique := uniqueKeys_step hst.unique h
  have hview := step_senderOf hst.unique h x
  obtain ⟨currTime, action⟩ := e
  cases action with
  | packet header =>
      by_cases hx : header.snsid = x
      · subst hx
        have hsender := packetStep_senderOf h
        rw [← hst.view] at hsender
        obtain ⟨t', ht'⟩ := packetStep_defined hsender
        have hrun : Run.runFrom (step o) t
            (aloneEvents header.snsid s ⟨currTime, .packet header⟩) = some t' := by
          simp only [aloneEvents, if_true, Run.runFrom_singleton]
          exact ht'
        refine ⟨t', hrun, hunique,
          ⟨(packetStep_iterator ht').trans hst.settled.iterator,
            packetStep_unique hst.settled.unique ht'⟩,
          packetStep_only hst.only ht', ?_⟩
        exact Option.some.inj ((packetStep_senderOf ht').symm.trans hsender)
      · refine ⟨t, by simp [aloneEvents, hx], hunique, hst.settled, hst.only, ?_⟩
        rw [hst.view, packetStep_senderOf_of_ne hx h]
  | cleanupStart =>
      refine ⟨t, rfl, hunique, hst.settled, hst.only, ?_⟩
      rw [hst.view]
      exact Option.some.inj hview
  | cleanupIteration =>
      by_cases hx : s.examined.map ReceiverLink.snsid = some x
      · obtain ⟨link, hlink, rfl⟩ := Option.map_eq_some_iff.1 hx
        have hlook : lookup ReceiverLink.snsid link.snsid t.receiverLinks = some link :=
          (congrArg Sender.link hst.view).trans
            (lookup_of_mem hst.unique (mem_of_examined hlink))
        have hone := hst.settled.receiverLinks_eq hst.only (mem_of_lookup hlook)
        have hpass := cleanupPass_eq currTime hst.settled.iterator
        rw [cleanupPass, hone] at hpass
        have hexamine := senderOf_filter hst.settled.unique currTime link.snsid o
        rw [hone] at hexamine
        refine ⟨{ t with receiverLinks := [link].filter (!expired currTime ·) }, ?_, hunique,
          ⟨hst.settled.iterator, ?_⟩, ?_, ?_⟩
        · simp only [aloneEvents, hx, if_true, Run.runFrom_cons, Run.runFrom_nil]
          exact congrArg some hpass
        · have hlinks := hst.settled.unique
          rw [hone] at hlinks
          exact hlinks.sublist (List.filter_sublist.map _)
        · intro link' hlink'
          rw [List.mem_singleton.1 (List.mem_filter.1 hlink').1]
        · have hfull : senderStep o (senderOf link.snsid s) ⟨currTime, .examine⟩ =
              some (senderOf link.snsid s') := by
            simpa [viewOf, hlink] using hview
          rw [← hst.view, hexamine] at hfull
          exact Option.some.inj hfull
      · refine ⟨t, by simp [aloneEvents, hx], hunique, hst.settled, hst.only, ?_⟩
        have hsame : some (senderOf x s) = some (senderOf x s') := by
          simpa [viewOf, hx] using hview
        rw [hst.view]
        exact Option.some.inj hsame

theorem alike_run {o : Bytes.ByteOrder} {x : Snsid} {es : List Event} {s s' t : State}
    (hst : Alike x s t) (h : Run.runFrom (step o) s es = some s') :
    ∃ t', Run.runFrom (step o) t (alone o x s es) = some t' ∧ Alike x s' t' := by
  induction es generalizing s t with
  | nil =>
      obtain rfl := Option.some.inj h
      exact ⟨t, rfl, hst⟩
  | cons e es ih =>
      rw [Run.runFrom_cons, Option.bind_eq_some_iff] at h
      obtain ⟨s₁, hs₁, h⟩ := h
      obtain ⟨t₁, ht₁, hst₁⟩ := alike_step hst hs₁
      obtain ⟨t', ht', hst'⟩ := ih hst₁ h
      refine ⟨t', ?_, hst'⟩
      rw [alone, hs₁, Run.runFrom_append, ht₁, Option.bind_some]
      exact ht'

/-- What is left of a run are the packets of `x`, at their times. -/
theorem packetsOf_alone {o : Bytes.ByteOrder} {x : Snsid} {es : List Event} {s s' : State}
    (h : Run.runFrom (step o) s es = some s') :
    packetsOf x (alone o x s es) = packetsOf x es := by
  induction es generalizing s with
  | nil => rfl
  | cons e es ih =>
      rw [Run.runFrom_cons, Option.bind_eq_some_iff] at h
      obtain ⟨t, ht, h⟩ := h
      have hfirst : packetsOf x (aloneEvents x s e) = packetsOf x [e] := by
        obtain ⟨currTime, action⟩ := e
        cases action with
        | packet header =>
            by_cases hx : header.snsid = x
            · simp [aloneEvents, hx]
            · simp [aloneEvents, packetsOf, hx]
        | cleanupStart => rfl
        | cleanupIteration =>
            simp only [aloneEvents]
            split
            · rfl
            · rfl
      have happend : ∀ fs gs : List Event, packetsOf x (fs ++ gs) =
          packetsOf x fs ++ packetsOf x gs := fun fs gs => List.filterMap_append
      rw [alone, ht, happend, hfirst, ih h, ← happend]
      rfl

theorem run_defined (o : Bytes.ByteOrder) {es : List Event}
    (hseq : ∀ e ∈ es, ∀ header, e.action = .packet header → SeqInRange header.seqNb) :
    ∃ s, run o es = some s := by
  refine Run.runFrom_total (fun e : Event =>
    ∀ header, e.action = .packet header → SeqInRange header.seqNb) ?_ hseq init
  rintro s ⟨currTime, action⟩ he
  cases action with
  | packet header => exact packetStep_inRange o currTime (he header rfl) s
  | cleanupStart => exact ⟨_, rfl⟩
  | cleanupIteration => exact ⟨_, rfl⟩

/-- The verdicts given to the packets of `x` are those given in the run without the packets
of all other senders, when the cleanup passes are interleaved with packets and when they are
single steps; and in every state there is at most one link for each SNSID. -/
theorem verdicts_isolated (o : Bytes.ByteOrder) (x : Snsid) (es : List Event)
    (ps : List PassEvent)
    (hes : ∀ e ∈ es, ∀ header, e.action = .packet header → SeqInRange header.seqNb)
    (hps : ∀ e ∈ ps, ∀ header, e.action = .packet header → SeqInRange header.seqNb) :
    (∃ s t, run o es = some s ∧ run o (alone o x init es) = some t ∧
      verdictsOf x s.verdicts = verdictsOf x t.verdicts) ∧
    (∃ s t, passRun o ps = some s ∧ passRun o (ps.filter fun e => !e.ofOther x) = some t ∧
      verdictsOf x s.verdicts = verdictsOf x t.verdicts) ∧
    ∀ k s, run o (es.take k) = some s → UniqueKeys ReceiverLink.snsid s.receiverLinks := by
  refine ⟨?_, ?_, ?_⟩
  · obtain ⟨s, hs⟩ := run_defined o hes
    have hinit : Alike x init init :=
      ⟨uniqueKeys_nil _, settled_init, fun link hlink => (by cases hlink), rfl⟩
    obtain ⟨t, ht, hst⟩ := alike_run hinit hs
    exact ⟨s, t, hs, ht, congrArg Sender.verdicts hst.view.symm⟩
  · obtain ⟨s, hs⟩ := passRun_defined o hps
    have hfilter : ∀ e ∈ ps.filter fun e => !e.ofOther x, ∀ header,
        e.action = .packet header → SeqInRange header.seqNb :=
      fun e he => hps e (List.mem_filter.1 he).1
    obtain ⟨t, ht⟩ := passRun_defined o hfilter
    have hview := passRun_senderOf settled_init hs x
    rw [← filterMap_passView, passRun_senderOf settled_init ht x] at hview
    exact ⟨s, t, hs, ht, congrArg Sender.verdicts (Option.some.inj hview).symm⟩
  · intro k s hs
    exact Run.runFrom_preserved (fun s : State => UniqueKeys ReceiverLink.snsid s.receiverLinks)
      (fun _ _ _ ht hstep => uniqueKeys_step ht hstep) (uniqueKeys_nil _) hs

def otherHeader (seqNb : UInt32) : IprpHeader :=
  { bareHeader seqNb with snsid := Vector.replicate 20 1 }

/-- Packets of two senders, with a pass that examines the link of the other one first. -/
def twoSenders : List Event :=
  [⟨0, .packet (otherHeader 7)⟩, ⟨0, .packet (bareHeader 1)⟩, ⟨120, .cleanupStart⟩,
    ⟨120, .cleanupIteration⟩, ⟨121, .cleanupIteration⟩, ⟨121, .packet (bareHeader 1)⟩]

def twoSendersPasses : List PassEvent :=
  [⟨0, .packet (otherHeader 7)⟩, ⟨0, .packet (bareHeader 1)⟩, ⟨121, .pass⟩,
    ⟨121, .packet (bareHeader 1)⟩]

theorem twoSenders_isolated :
    (∃ s t, run .little twoSenders = some s ∧
      run .little (alone .little (Vector.replicate 20 0) init twoSenders) = some t ∧
      verdictsOf (Vector.replicate 20 0) s.verdicts =
        verdictsOf (Vector.replicate 20 0) t.verdicts) ∧
    (∃ s t, passRun .little twoSendersPasses = some s ∧
      passRun .little (twoSendersPasses.filter fun e =>
        !e.ofOther (Vector.replicate 20 0)) = some t ∧
      verdictsOf (Vector.replicate 20 0) s.verdicts =
        verdictsOf (Vector.replicate 20 0) t.verdicts) ∧
    ∀ k s, run .little (twoSenders.take k) = some s →
      UniqueKeys ReceiverLink.snsid s.receiverLinks :=
  verdicts_isolated .little (Vector.replicate 20 0) twoSenders twoSendersPasses
    (by simp [twoSenders, SeqInRange, bareHeader, otherHeader])
    (by simp [twoSendersPasses, SeqInRange, bareHeader, otherHeader])

end Iprp.Ird
