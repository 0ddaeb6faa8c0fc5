import Iprp.Hosts.Owners
import Iprp.Icd.Opening
import Iprp.Session.KeepAlive

/-!
# How a session opens in the unicast build

From any state that a network of hosts of one byte order reaches: when a round of a receiver
finds a sender in its file, the CAP that it sends can be received at any later time, and once a
sender's host has received it, the next end of a pass of its `pb_routine` finds the flow open
over all INDs that the two hosts share (`session_opens`). Each ICD goes through a run of its own
meanwhile (`run_icd`).
-/

namespace Iprp.Hosts

open Icd KeyedList

section

variable {ι : Type*} [DecidableEq ι]

/-- The event of the ICD's sender side in an event of the host. -/
def icdEvent (c : Config) (h : ι) (e : Event ι) : Option Icd.Event :=
  if e.host = h then
    match e.action with
    | .receive heap _ datagram =>
        match messageOf c.target (received c.target datagram.bytes) with
        | .cap msg => some ⟨e.currTime, .cap heap msg⟩
        | _ => none
    | .pbStart => some ⟨e.currTime, .pbStart⟩
    | .pbIteration pid => some ⟨e.currTime, .pbIteration pid⟩
    | _ => none
  else none

/-- The datagram is the CAP of some host for some sender. -/
def IsCap (hosts : ι → Config) (d : Datagram) : Prop :=
  ∃ r stack sender, d.bytes =
    capBytes (hosts r).target stack (sendCap .unicast (hosts r).this.toHost sender)

/-! ## The ICD of a host -/

omit [DecidableEq ι] in
theorem controlStep_capBytes {hosts : ι → Config} {o : Bytes.ByteOrder}
    (htarget : ∀ h, (hosts h).target = ⟨.unicast, o⟩) (h r : ι) (stack : ℕ → UInt8)
    (sender : ActiveSender) {bytes : List UInt8}
    (hbytes : bytes = capBytes ⟨.unicast, o⟩ stack
      (sendCap .unicast (hosts r).this.toHost sender)) :
    messageOf (hosts h).target (received (hosts h).target bytes) =
        .cap (sendCap .unicast (hosts r).this.toHost sender) ∧
      ∀ (currTime : ℤ) (heap : Heap) (s : Control), s.serving = true →
        controlStep (hosts h) s ⟨currTime, heap, bytes⟩ = handleCap (hosts h) currTime heap
          (sendCap .unicast (hosts r).this.toHost sender) s := by
  have hsendable : Sendable .unicast (.cap (sendCap .unicast (hosts r).this.toHost sender)) :=
    .cap (hosts r).this sender
  subst hbytes
  constructor
  · rw [htarget]
    exact messageOf_messageBytes (t := ⟨.unicast, o⟩) hsendable stack
  · intro currTime heap s hs
    have hbuild : (hosts h).target.build = .unicast := by rw [htarget]
    have horder : (hosts h).target.order = o := by rw [htarget]
    have hstep := controlStep_messageBytes (c := hosts h) (o := o) (hbuild ▸ hsendable) stack
      currTime heap hs
    rw [hbuild, if_pos horder.symm] at hstep
    exact hstep

/-- A step of a host is one of its ICD or leaves the ICD alone, and what it sends are CAPs. -/
theorem nodeStep_icd {hosts : ι → Config} {o : Bytes.ByteOrder}
    (htarget : ∀ h, (hosts h).target = ⟨.unicast, o⟩) {sent new : List Datagram}
    (hsent : ∀ d ∈ sent, IsCap hosts d) {e : Event ι} {n n' : Node}
    (hserving : n.icd.serving = true)
    (h : nodeStep (hosts e.host) sent e.currTime e.action n = some (n', new)) :
    Run.runFrom (Icd.step (hosts e.host)) n.icd
        (icdEvent (hosts e.host) e.host e).toList = some n'.icd ∧
      ∀ d ∈ new, IsCap hosts d := by
  obtain ⟨host, currTime, action⟩ := e
  have hbuild : (hosts host).target.build = .unicast := by rw [htarget]
  unfold icdEvent
  rw [if_pos rfl]
  cases action with
  | imd action =>
      obtain ⟨imd, -, heq⟩ := Option.map_eq_some_iff.1 h
      obtain ⟨rfl, rfl⟩ := Prod.mk.inj heq
      exact ⟨rfl, List.forall_mem_nil _⟩
  | push senders =>
      rw [nodeStep] at h
      split at h
      · obtain ⟨rfl, rfl⟩ := Prod.mk.inj (Option.some.inj h)
        exact ⟨rfl, List.forall_mem_nil _⟩
      · cases h
  | round stack =>
      rw [nodeStep, hbuild, asRound_unicast] at h
      obtain ⟨rfl, rfl⟩ := Prod.mk.inj (Option.some.inj h)
      refine ⟨rfl, ?_⟩
      intro d hd
      obtain ⟨cap, hcap, rfl⟩ := List.mem_map.1 hd
      obtain ⟨sender, -, rfl⟩ := List.mem_map.1 hcap
      exact ⟨host, stack, sender, rfl⟩
  | receive heap stack datagram =>
      rw [nodeStep] at h
      split at h
      · next hmem =>
          obtain ⟨control, hcontrol, heq⟩ := Option.map_eq_some_iff.1 h
          obtain ⟨r, stack', sender, hbytes⟩ := hsent datagram hmem
          rw [htarget] at hbytes
          obtain ⟨hmessage, hhandle⟩ :=
            controlStep_capBytes htarget host r stack' sender hbytes
          rw [hhandle currTime heap n.icd.toControl hserving] at hcontrol
          rw [handleCap_sent hbuild hcontrol, List.drop_length] at heq
          obtain ⟨rfl, rfl⟩ := Prod.mk.inj heq
          refine ⟨?_, List.forall_mem_nil _⟩
          dsimp only
          rw [hmessage, Option.toList_some, Run.runFrom_singleton]
          change capStep (hosts host) currTime heap _ n.icd = _
          rw [capStep, hcontrol]
          rfl
      · cases h
  | pbStart =>
      obtain ⟨rfl, rfl⟩ := Prod.mk.inj (Option.some.inj h)
      exact ⟨rfl, List.forall_mem_nil _⟩
  | pbIteration pid =>
      obtain ⟨rfl, rfl⟩ := Prod.mk.inj (Option.some.inj h)
      exact ⟨rfl, List.forall_mem_nil _⟩
  | siStart =>
      rw [nodeStep, hbuild] at h
      cases h
  | siIteration =>
      rw [nodeStep, hbuild] at h
      cases h

/-- In every run the ICD of each host goes through the run of its own events, and everything
that is sent is a CAP. -/
theorem run_icd {hosts : ι → Config} {o : Bytes.ByteOrder}
    (htarget : ∀ h, (hosts h).target = ⟨.unicast, o⟩) {es : List (Event ι)} {s : State ι}
    (h : run hosts es = some s) :
    (∀ host, Icd.run (hosts host) (es.filterMap (icdEvent (hosts host) host)) =
        some (s.node host).icd) ∧
      ∀ d ∈ s.sent, IsCap hosts d := by
  refine Run.runFrom_history (fun es (s : State ι) =>
    (∀ host, Icd.run (hosts host) (es.filterMap (icdEvent (hosts host) host)) =
        some (s.node host).icd) ∧ ∀ d ∈ s.sent, IsCap hosts d)
    ⟨fun _ => rfl, List.forall_mem_nil _⟩ ?_ h
  rintro es e s s' - ⟨hicds, hsent⟩ hstep
  obtain ⟨⟨n', new⟩, hn, rfl⟩ := Option.map_eq_some_iff.1 hstep
  obtain ⟨hicd, hnew⟩ := nodeStep_icd htarget hsent
    (Session.serving_run (hicds e.host)) hn
  constructor
  · intro host
    have hlast : [e].filterMap (icdEvent (hosts host) host) =
        (icdEvent (hosts host) host e).toList := by
      cases hevent : icdEvent (hosts host) host e with
      | none => simp [hevent]
      | some e' => simp [hevent]
    rw [List.filterMap_append, hlast, Icd.run, Run.runFrom_append]
    change (Icd.run (hosts host) _).bind _ = _
    rw [hicds host, Option.bind_some]
    by_cases hh : e.host = host
    · subst hh
      simpa using hicd
    · rw [icdEvent, if_neg hh]
      simp [Ne.symm hh]
  · intro d hd
    rcases List.mem_append.1 hd with hold | hfresh
    · exact hsent d hold
    · exact hnew d hfresh

/-! ## The session -/

/-- A session of the host for a sender's flow, over the INDs that it shares with the receiver. -/
def Session (hosts : ι → Config) (h r : ι) (sender : ActiveSender) (s : State ι) : Prop :=
  Opened ⟨sender.destAddr, sender.srcPort, sender.destPort⟩
    (indMatch (hosts h).this.toHost (hostInds (hosts r).this.toHost)) (s.node h).icd

end

theorem indMatch_ne_zero (this receiver : LocalHost) :
    indMatch this.toHost (hostInds receiver.toHost) ≠ 0 := by
  have hfirst : ∀ host : LocalHost,
      (host.used.any fun iface => iface.ind.toNat == 0) = true := by
    intro host
    have hzero : 0 ∈ host.used.map fun iface => iface.ind.toNat := by
      rw [host.used_inds]
      exact List.mem_range.2 host.nb_pos
    obtain ⟨iface, hiface, hind⟩ := List.mem_map.1 hzero
    exact List.any_eq_true.2 ⟨iface, hiface, by simpa using hind⟩
  intro hzero
  have hbit : (indMatch this.toHost (hostInds receiver.toHost)).getLsbD 0 = true := by
    rw [getLsbD_indMatch _ _ (by decide), getLsbD_hostInds _ (by decide), hfirst, hfirst]
    rfl
  rw [hzero] at hbit
  cases hbit

theorem sent_subset {ι : Type*} [DecidableEq ι] {hosts : ι → Config} {es : List (Event ι)}
    {s s' : State ι} (h : Run.runFrom (step hosts) s es = some s') : s.sent ⊆ s'.sent := by
  refine Run.runFrom_preserved (fun s' : State ι => s.sent ⊆ s'.sent) ?_ (List.Subset.refl _) h
  intro s₁ e s₂ hs hstep
  obtain ⟨r, -, rfl⟩ := Option.map_eq_some_iff.1 hstep
  exact List.subset_append_of_subset_left r.2 hs

theorem icdEvent_eq_some {ι : Type*} [DecidableEq ι] {c : Config} {h : ι} {e : Event ι}
    {e' : Icd.Event} (he : icdEvent c h e = some e') :
    e.host = h ∧ e'.currTime = e.currTime := by
  unfold icdEvent at he
  split at he
  · next hhost =>
      refine ⟨hhost, ?_⟩
      split at he
      · split at he
        · rw [← Option.some.inj he]
        · cases he
      · rw [← Option.some.inj he]
      · rw [← Option.some.inj he]
      · cases he
  · cases he

theorem endsPass_of_iterator {c : Config} {s s' : Icd.State} {e : Icd.Event}
    (h : Icd.step c s e = some s') (hmoving : s.iterator ≠ none) (hend : s'.iterator = none) :
    EndsPass s s' e.action := by
  obtain ⟨currTime, action⟩ := e
  cases action with
  | cap heap msg =>
      obtain ⟨control, -, rfl⟩ := Option.map_eq_some_iff.1 h
      exact hmoving hend
  | pbStart =>
      obtain rfl := Option.some.inj h
      obtain ⟨i, hi⟩ := Option.ne_none_iff_exists'.1 hmoving
      rw [Icd.pbStart, hi] at hend
      exact absurd hend hmoving
  | pbIteration pid => exact ⟨hmoving, hend⟩

theorem mem_sent_round {ι : Type*} [DecidableEq ι] {hosts : ι → Config} {o : Bytes.ByteOrder}
    (htarget : ∀ h, (hosts h).target = ⟨.unicast, o⟩) {mid : List (Event ι)} {r : ι}
    {sender : ActiveSender} {s₀ s₁ : State ι} (hsender : sender ∈ (s₀.node r).asFile)
    {stack : ℕ → UInt8} {t₀ : ℤ}
    (hmid : Run.runFrom (step hosts) s₀ (⟨r, t₀, .round stack⟩ :: mid) = some s₁) :
    capDatagram ⟨.unicast, o⟩ stack (capTo .unicast (hosts r).this.toHost sender) ∈ s₁.sent := by
  rw [Run.runFrom_cons] at hmid
  obtain ⟨s, hs, hrest⟩ := Option.bind_eq_some_iff.1 hmid
  refine sent_subset hrest ?_
  obtain ⟨⟨n', new⟩, hn, rfl⟩ := Option.map_eq_some_iff.1 hs
  rw [nodeStep, htarget, asRound_unicast] at hn
  obtain ⟨-, rfl⟩ := Prod.mk.inj (Option.some.inj hn)
  exact List.mem_append_right _
    (List.mem_map_of_mem (List.mem_map_of_mem hsender))

/-- After a CAP has been received, an end of a pass finds the host with a session for it. -/
theorem session_of_received {ι : Type*} [DecidableEq ι] {hosts : ι → Config}
    {o : Bytes.ByteOrder} (htarget : ∀ h, (hosts h).target = ⟨.unicast, o⟩)
    {es post : List (Event ι)} {s₁ s₂ s s' : State ι} (hs₁ : run hosts es = some s₁) {h r : ι}
    {t : ℤ} {heap : Heap} {stack stack' : ℕ → UInt8} {sender : ActiveSender}
    (hs₂ : step hosts s₁ ⟨h, t, .receive heap stack'
      (capDatagram ⟨.unicast, o⟩ stack (capTo .unicast (hosts r).this.toHost sender))⟩ = some s₂)
    (hpost : Run.runFrom (step hosts) s₂ post = some s) {e : Event ι}
    (he : step hosts s e = some s')
    (htimes : ∀ e' ∈ post ++ [e], e'.host = h → t ≤ e'.currTime ∧ e'.currTime ≤ t + iprpPbTexp)
    (hmoving : (s.node h).icd.iterator ≠ none) (hend : (s'.node h).icd.iterator = none) :
    Session hosts h r sender s' := by
  obtain ⟨hmessage, -⟩ := controlStep_capBytes htarget h r stack sender rfl
  have hs : run hosts (es ++ ⟨h, t, .receive heap stack'
      (capDatagram ⟨.unicast, o⟩ stack (capTo .unicast (hosts r).this.toHost sender))⟩ :: post) =
        some s := by
    rw [run, Run.runFrom_append]
    change (run hosts es).bind _ = _
    rw [hs₁, Option.bind_some, Run.runFrom_cons, hs₂, Option.bind_some, hpost]
  have hreceive : icdEvent (hosts h) h ⟨h, t, .receive heap stack'
      (capDatagram ⟨.unicast, o⟩ stack (capTo .unicast (hosts r).this.toHost sender))⟩ =
        some ⟨t, .cap heap (sendCap .unicast (hosts r).this.toHost sender)⟩ := by
    rw [icdEvent, if_pos rfl]
    dsimp only [capDatagram, capTo]
    rw [hmessage]
  have hrun := (run_icd htarget hs).1 h
  rw [List.filterMap_append, List.filterMap_cons_some hreceive, List.append_cons] at hrun
  -- the last event is one of the ICD, since it moves the cursor
  obtain ⟨⟨n', new⟩, hn, rfl⟩ := Option.map_eq_some_iff.1 he
  have hhost : e.host = h := by
    by_contra hne
    apply hmoving
    simpa [Ne.symm hne] using hend
  subst hhost
  have hicd := (nodeStep_icd htarget (run_icd htarget hs).2 (Session.serving_run hrun) hn).1
  have hend' : n'.icd.iterator = none := by simpa using hend
  cases hevent : icdEvent (hosts e.host) e.host e with
  | none =>
      rw [hevent] at hicd
      have hsame : (s.node e.host).icd = n'.icd := Option.some.inj hicd
      rw [hsame] at hmoving
      exact absurd hend' hmoving
  | some e' =>
      rw [hevent, Option.toList_some, Run.runFrom_singleton] at hicd
      have htimes' : ∀ e'' ∈ post.filterMap (icdEvent (hosts e.host) e.host) ++ [e'],
          t ≤ e''.currTime ∧ e''.currTime ≤ t + iprpPbTexp := by
        intro e'' he''
        have horigin : ∃ e₀ ∈ post ++ [e], icdEvent (hosts e.host) e.host e₀ = some e'' := by
          rcases List.mem_append.1 he'' with hold | hlast
          · obtain ⟨e₀, he₀, heq⟩ := List.mem_filterMap.1 hold
            exact ⟨e₀, List.mem_append_left _ he₀, heq⟩
          · rw [List.mem_singleton.1 hlast]
            exact ⟨e, List.mem_append_right _ (List.mem_singleton.2 rfl), hevent⟩
        obtain ⟨e₀, he₀, heq⟩ := horigin
        obtain ⟨hhost, htime⟩ := icdEvent_eq_some heq
        rw [htime]
        exact htimes e₀ he₀ hhost
      have hopened := opened_of_endsPass (indMatch_ne_zero (hosts e.host).this (hosts r).this)
        htimes' hrun hicd (endsPass_of_iterator hicd hmoving hend')
      unfold Session
      dsimp only
      rw [Function.update_self]
      exact hopened

/-- In every network of hosts with the unicast build and one byte order, from every state that
it reaches: when the host `r` has the sender in its file and starts a round, any host `h` can
receive the CAP at any later time and handles it; and when it has, the next end of a pass of its
`pb_routine` within `iprpPbTexp` seconds, whatever else happens before, finds it with a session
for the flow over all INDs that the two share. -/
theorem session_opens {ι : Type*} [DecidableEq ι] (hosts : ι → Config) {o : Bytes.ByteOrder}
    (htarget : ∀ h, (hosts h).target = ⟨.unicast, o⟩) {pre mid : List (Event ι)} {r : ι}
    {sender : ActiveSender} {s₀ s₁ : State ι} (hpre : run hosts pre = some s₀)
    (hsender : sender ∈ (s₀.node r).asFile) {stack : ℕ → UInt8} {t₀ : ℤ}
    (hmid : Run.runFrom (step hosts) s₀ (⟨r, t₀, .round stack⟩ :: mid) = some s₁) (h : ι) (t : ℤ)
    (heap : Heap) (stack' : ℕ → UInt8) :
    ∃ s₂, step hosts s₁ ⟨h, t, .receive heap stack'
          (capDatagram ⟨.unicast, o⟩ stack (capTo .unicast (hosts r).this.toHost sender))⟩ =
        some s₂ ∧
      ∀ post e s s', Run.runFrom (step hosts) s₂ post = some s → step hosts s e = some s' →
        (∀ e' ∈ post ++ [e], e'.host = h → t ≤ e'.currTime ∧ e'.currTime ≤ t + iprpPbTexp) →
        (s.node h).icd.iterator ≠ none → (s'.node h).icd.iterator = none →
        Session hosts h r sender s' := by
  have hs₁ : run hosts (pre ++ ⟨r, t₀, .round stack⟩ :: mid) = some s₁ := by
    rw [run, Run.runFrom_append]
    change (run hosts pre).bind _ = _
    rw [hpre]
    exact hmid
  obtain ⟨hicd₁, -⟩ := run_icd htarget hs₁
  obtain ⟨-, hhandle⟩ := controlStep_capBytes htarget h r stack sender rfl
  have hwf : (sendCap .unicast (hosts r).this.toHost sender).WellFormed
      (hosts h).target.build := by
    rw [htarget]
    exact sendCap_wellFormed .unicast (hosts r).this sender
  obtain ⟨control, hcontrol⟩ := handleCap_defined hwf t heap (s₁.node h).icd.toControl
  have hreceive := (hhandle t heap _ (Session.serving_run (hicd₁ h))).trans hcontrol
  have hstep : ∃ s₂, step hosts s₁ ⟨h, t, .receive heap stack'
      (capDatagram ⟨.unicast, o⟩ stack (capTo .unicast (hosts r).this.toHost sender))⟩ =
        some s₂ := by
    unfold step nodeStep
    dsimp only
    rw [if_pos (mem_sent_round htarget hsender hmid)]
    simp only [capDatagram, capTo, hreceive, Option.map_some]
    exact ⟨_, rfl⟩
  obtain ⟨s₂, hs₂⟩ := hstep
  refine ⟨s₂, hs₂, ?_⟩
  intro post e s s' hpost he htimes hmoving hend
  exact session_of_received htarget hs₁ hs₂ hpost he htimes hmoving hend

theorem opening_iterators :
    ((run twoHosts (opening.take 2)).map fun s => (s.node true).asFile) = some [farSender] ∧
      ((run twoHosts (opening.take 5)).map fun s => (s.node false).icd.iterator) =
        some (some 0) ∧
      ((run twoHosts opening).map fun s => (s.node false).icd.iterator) = some none := by
  decide +kernel

theorem session_opens_opening :
    ∃ s, run twoHosts opening = some s ∧ Session twoHosts false true farSender s := by
  obtain ⟨hfile, hmoving, hend⟩ := opening_iterators
  obtain ⟨s₀, hs₀, hsender⟩ := Option.map_eq_some_iff.1 hfile
  obtain ⟨s, hs, hiterator⟩ := Option.map_eq_some_iff.1 hmoving
  obtain ⟨s', hs', hiterator'⟩ := Option.map_eq_some_iff.1 hend
  have hmem : farSender ∈ (s₀.node true).asFile := by rw [hsender]; exact List.mem_singleton.2 rfl
  -- the events one after the other
  have hlast : run twoHosts (opening.take 5 ++ [⟨false, 3, .pbIteration 77⟩]) = some s' := hs'
  have hthree : run twoHosts (opening.take 2 ++ ([⟨true, 2, .round fun _ => 0⟩] ++
      ([⟨false, 2, .receive smallHeap (fun _ => 0) (capDatagram ⟨.unicast, .little⟩ (fun _ => 0)
        (capTo .unicast farHost.toHost farSender))⟩] ++ [⟨false, 3, .pbStart⟩]))) = some s := hs
  obtain ⟨s₅, hs₅, hstep⟩ := Run.runFrom_append_singleton_eq_some.1 hlast
  obtain rfl := Option.some.inj (hs.symm.trans hs₅)
  rw [run, Run.runFrom_append] at hthree
  obtain ⟨t₀, ht₀, hthree⟩ := Option.bind_eq_some_iff.1 hthree
  obtain rfl := Option.some.inj (hs₀.symm.trans ht₀)
  rw [Run.runFrom_append] at hthree
  obtain ⟨s₁, hs₁, hthree⟩ := Option.bind_eq_some_iff.1 hthree
  rw [Run.runFrom_append, Run.runFrom_singleton] at hthree
  obtain ⟨s₂, hs₂, hpost⟩ := Option.bind_eq_some_iff.1 hthree
  obtain ⟨t₂, ht₂, hsession⟩ := session_opens twoHosts (fun h => by cases h <;> rfl) hs₀ hmem hs₁
    false 2 smallHeap fun _ => 0
  obtain rfl := Option.some.inj (hs₂.symm.trans ht₂)
  refine ⟨s', hs', hsession _ _ s s' hpost hstep ?_ ?_ hiterator'⟩
  · intro e he _
    simp only [List.singleton_append, List.mem_cons, List.not_mem_nil, or_false] at he
    rcases he with rfl | rfl
    · decide
    · decide
  · rw [hiterator]
    exact Option.some_ne_none 0

end Iprp.Hosts
