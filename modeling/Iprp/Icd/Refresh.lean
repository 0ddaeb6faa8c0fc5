import Iprp.Icd.Opening

/-!
# A session that is refreshed

As long as every iteration of `pb_routine` finds a CAP of the flow that is not older than
`iprpPbTexp` seconds (`Refreshed`), the session of the flow stays what it is: its base keeps its
link, its addresses, its queue and its ISD, no other rule or ISD is made for it, and its file
holds a peerbase with its link, if no other base has a path that collides with it
(`refreshed_stays`).
-/

namespace Iprp.Icd

open KeyedList

/-- Every iteration comes within `iprpPbTexp` seconds of a CAP of the flow `k`, of which the last
one so far has come at the given time. -/
def Refreshed (k : FlowKey) : ℤ → List Event → Prop
  | _, [] => True
  | last, ⟨currTime, action⟩ :: es =>
      match action with
      | .cap _ msg => Refreshed k (if msg.key = k then currTime else last) es
      | .pbStart => Refreshed k last es
      | .pbIteration _ => currTime - last ≤ iprpPbTexp ∧ Refreshed k last es

/-- The time of the last CAP of the flow `k`. -/
def lastCapOf (k : FlowKey) (last : ℤ) (es : List Event) : ℤ :=
  es.foldl (fun last e =>
    match e.action with
    | .cap _ msg => if msg.key = k then e.currTime else last
    | .pbStart => last
    | .pbIteration _ => last) last

/-- The base with more INDs, maybe, and with another time. -/
structure Continues (old base : IcdBase) : Prop where
  link : base.link = old.link
  destAddr : base.destAddr = old.destAddr
  queueId : base.queueId = old.queueId
  isdPid : base.isdPid = old.isdPid
  inds : base.inds &&& old.inds = old.inds

theorem Continues.refl (base : IcdBase) : Continues base base :=
  ⟨rfl, rfl, rfl, rfl, BitVec.and_self⟩

theorem Continues.update {old base : IcdBase} (h : Continues old base) (c : Config)
    (currTime : ℤ) (msg : CapMsg) : Continues old (updateBase c currTime msg base) :=
  ⟨h.link, h.destAddr, h.queueId, h.isdPid, and_of_or h.inds⟩

/-- The rules for a flow. -/
def rulesOf (k : FlowKey) (rules : List Rule) : List Rule := rules.filter fun rule => rule.key = k

/-- The ISDs that read a file. -/
def isdsAt (path : List Char) (isds : List Isd) : List Isd := isds.filter fun isd => isd.path = path

theorem rulesOf_concat {k : FlowKey} {rules : List Rule} {rule : Rule} (h : rule.key ≠ k) :
    rulesOf k (rules ++ [rule]) = rulesOf k rules := by
  simp [rulesOf, h]

theorem isdsAt_concat {path : List Char} {isds : List Isd} {isd : Isd} (h : isd.path ≠ path) :
    isdsAt path (isds ++ [isd]) = isdsAt path isds := by
  simp [isdsAt, h]

/-- The session of a started base, with the rules and the ISDs that are there for it. -/
structure Serves (old : IcdBase) (rules : List Rule) (isds : List Isd) (last : ℤ) (s : State) :
    Prop where
  unique : UniqueKeys IcdBase.key s.peerbases
  base : ∃ base, lookup IcdBase.key old.key s.peerbases = some base ∧ Continues old base ∧
    base.lastCap = last
  rules_eq : rulesOf old.key s.rules = rules
  isds_eq : isdsAt (peerbasePath old.link.snsid) s.isds = isds
  file : (s.files (peerbasePath old.link.snsid)).map Peerbase.link = some old.link

/-- No base of another flow has the path. -/
def PathFree (k : FlowKey) (path : List Char) (s : State) : Prop :=
  ∀ base ∈ s.peerbases, peerbasePath base.link.snsid = path → base.key = k

section

variable {c : Config} {old : IcdBase} {rules : List Rule} {isds : List Isd} {last : ℤ}
  {s s' : State}

theorem Serves.cap (hs : Serves old rules isds last s) {currTime : ℤ} {heap : Heap} {msg : CapMsg}
    (h : capStep c currTime heap msg s = some s') :
    Serves old rules isds (if msg.key = old.key then currTime else last) s' := by
  have hstep : step c s ⟨currTime, .cap heap msg⟩ = some s' := h
  have hunique := uniqueKeys_step hs.unique hstep
  obtain ⟨base, hbase, hcont, hlast⟩ := hs.base
  have hlook := capStep_lookup h old.key
  rw [hbase] at hlook
  obtain ⟨control, -, rfl⟩ := Option.map_eq_some_iff.1 h
  refine ⟨hunique, ?_, hs.rules_eq, hs.isds_eq, hs.file⟩
  dsimp only at hlook ⊢
  generalize lookup IcdBase.key old.key control.peerbases = found at hlook ⊢
  cases hlook with
  | refresh heap' msg' _ he hk =>
      cases he
      rw [if_pos hk]
      exact ⟨_, rfl, hcont.update c currTime msg, rfl⟩
  | start pid _ he => cases he
  | expire pid _ he _ => cases he
  | other he _ =>
      rw [if_neg (he heap msg rfl)]
      exact ⟨base, rfl, hcont, hlast⟩

theorem link_peerbaseStore {this : Host} {base : IcdBase} {files : List Char → Option Peerbase}
    (hfile : (files (peerbasePath old.link.snsid)).map Peerbase.link = some old.link)
    (hbase : peerbasePath base.link.snsid = peerbasePath old.link.snsid →
      base.link = old.link) :
    (peerbaseStore (peerbasePath base.link.snsid) (createPeerbase this base) files
      (peerbasePath old.link.snsid)).map Peerbase.link = some old.link := by
  rw [peerbaseStore, Function.update_apply]
  split
  · next hpath => exact congrArg some (hbase hpath.symm)
  · exact hfile

theorem Serves.pbIteration (hs : Serves old rules isds last s) (hpid : old.isdPid ≠ -1)
    (hfree : PathFree old.key (peerbasePath old.link.snsid) s) {currTime : ℤ}
    (hyoung : currTime - last ≤ iprpPbTexp) (pid : ℕ) :
    Serves old rules isds last (Icd.pbIteration c currTime pid s) := by
  obtain ⟨base, hbase, hcont, hlast⟩ := hs.base
  -- a base with the path of the session is the base of the session
  have hsame : ∀ base' ∈ s.peerbases, base'.key = old.key → base' = base := by
    intro base' hbase' hkey
    have hlook := lookup_of_mem hs.unique hbase'
    rw [hkey, hbase] at hlook
    exact (Option.some.inj hlook).symm
  have hlink : ∀ base' ∈ s.peerbases,
      peerbasePath base'.link.snsid = peerbasePath old.link.snsid → base'.link = old.link := by
    intro base' hbase' hpath
    rw [hsame base' hbase' (hfree base' hbase' hpath), hcont.link]
  have hunique : UniqueKeys IcdBase.key (Icd.pbIteration c currTime pid s).peerbases :=
    uniqueKeys_step (e := ⟨currTime, .pbIteration pid⟩) hs.unique rfl
  rcases pbIteration_cases c currTime pid s with ⟨heq, -⟩ |
    ⟨i, base', -, hi, ⟨haged, heq⟩ | ⟨-, -, heq⟩ | ⟨-, hnew, heq⟩⟩
  · rw [heq]
    exact ⟨hs.unique, hs.base, hs.rules_eq, hs.isds_eq, hs.file⟩
  · have hne : base'.key ≠ old.key := by
      intro hkey
      rw [hsame base' (List.mem_of_getElem? hi) hkey] at haged
      have hold : iprpPbTexp < currTime - base.lastCap := by simpa [aged] using haged
      omega
    rw [heq] at hunique ⊢
    refine ⟨hunique, ⟨base, ?_, hcont, hlast⟩, hs.rules_eq, hs.isds_eq, hs.file⟩
    rw [lookup_eraseIdx_of_ne hi hne]
    exact hbase
  · rw [heq]
    refine ⟨hs.unique, hs.base, hs.rules_eq, hs.isds_eq, ?_⟩
    dsimp only
    exact link_peerbaseStore hs.file (hlink base' (List.mem_of_getElem? hi))
  · have hne : base'.key ≠ old.key := by
      intro hkey
      rw [hsame base' (List.mem_of_getElem? hi) hkey, hcont.isdPid] at hnew
      exact hpid hnew
    have hpath : peerbasePath base'.link.snsid ≠ peerbasePath old.link.snsid := fun hpath =>
      hne (hfree base' (List.mem_of_getElem? hi) hpath)
    have hrule : (isdRule base').key ≠ old.key := hne
    have hisd : (isdOf base' pid).path ≠ peerbasePath old.link.snsid := hpath
    rw [heq] at hunique ⊢
    refine ⟨hunique, ⟨base, ?_, hcont, hlast⟩, ?_, ?_, ?_⟩
    · dsimp only
      rw [set_eq_update hs.unique hi fun base => base.setIsdPid pid,
        lookup_update_of_ne (fun base _ => setIsdPid_key base pid) (Ne.symm hne)]
      exact hbase
    · dsimp only
      rw [rulesOf_concat hrule, hs.rules_eq]
    · dsimp only
      rw [isdsAt_concat hisd, hs.isds_eq]
    · dsimp only
      exact link_peerbaseStore hs.file (hlink base' (List.mem_of_getElem? hi))

end

theorem Serves.run {c : Config} {old : IcdBase} {rules : List Rule} {isds : List Isd}
    {last : ℤ} (hpid : old.isdPid ≠ -1) {es : List Event} {s s' : State}
    (hs : Serves old rules isds last s) (hrefreshed : Refreshed old.key last es)
    (hfree : ∀ j t, Run.runFrom (step c) s (es.take j) = some t →
      PathFree old.key (peerbasePath old.link.snsid) t)
    (h : Run.runFrom (step c) s es = some s') :
    Serves old rules isds (lastCapOf old.key last es) s' := by
  induction es generalizing s last with
  | nil =>
      obtain rfl := Option.some.inj h
      exact hs
  | cons e es ih =>
      rw [Run.runFrom_cons] at h
      obtain ⟨t, ht, hrest⟩ := Option.bind_eq_some_iff.1 h
      have hfree' : ∀ j u, Run.runFrom (step c) t (es.take j) = some u →
          PathFree old.key (peerbasePath old.link.snsid) u := by
        intro j u hu
        refine hfree (j + 1) u ?_
        rw [List.take_succ_cons, Run.runFrom_cons, ht]
        exact hu
      obtain ⟨currTime, action⟩ := e
      cases action with
      | cap heap msg => exact ih (hs.cap ht) hrefreshed hfree' hrest
      | pbStart =>
          obtain ⟨iterator, heq⟩ := pbStart_eq s
          obtain rfl := Option.some.inj ht
          rw [heq] at hrest hfree'
          exact ih (s := { s with iterator := iterator })
            ⟨hs.unique, hs.base, hs.rules_eq, hs.isds_eq, hs.file⟩ hrefreshed hfree' hrest
      | pbIteration pid =>
          obtain rfl := Option.some.inj ht
          exact ih (hs.pbIteration hpid (hfree 0 s rfl) hrefreshed.1 pid) hrefreshed.2 hfree'
            hrest

/-- In every run of the ICD: once the ISD of a base has been started and its file holds the link
of the base, then however the run goes on, as long as the flow is refreshed and no base of another
flow has the path of that file, the session goes on with the same link, queue and ISD, no rule or
ISD is added for it, and its file holds the same link. -/
theorem refreshed_stays {c : Config} {pre post : List Event} {s s' : State}
    (hs : run c pre = some s) {old : IcdBase} (hold : old ∈ s.peerbases)
    (hpid : old.isdPid ≠ -1)
    (hfile : (s.files (peerbasePath old.link.snsid)).map Peerbase.link = some old.link)
    (hrefreshed : Refreshed old.key old.lastCap post)
    (hfree : ∀ j t, Run.runFrom (step c) s (post.take j) = some t →
      PathFree old.key (peerbasePath old.link.snsid) t)
    (h : Run.runFrom (step c) s post = some s') :
    Serves old (rulesOf old.key s.rules) (isdsAt (peerbasePath old.link.snsid) s.isds)
      (lastCapOf old.key old.lastCap post) s' := by
  have hunique := uniqueKeys_run hs
  have hserves : Serves old (rulesOf old.key s.rules)
      (isdsAt (peerbasePath old.link.snsid) s.isds) old.lastCap s :=
    ⟨hunique, ⟨old, lookup_of_mem hunique hold, .refl old, rfl⟩, rfl, rfl, hfile⟩
  exact hserves.run hpid hrefreshed hfree h

/-! A session that is refreshed once goes on for more than `iprpPbTexp` seconds. -/

def startEvents : List Event := [⟨0, .cap smallHeap smallCap⟩, ⟨1, .pbStart⟩, ⟨1, .pbIteration 77⟩]

def refreshEvents : List Event :=
  [⟨50, .cap smallHeap smallCap⟩, ⟨100, .pbStart⟩, ⟨100, .pbIteration 78⟩]

theorem refreshEvents_states :
    ((run (smallConfig .unicast) startEvents).bind fun s => s.peerbases.head?.bind
      fun base => (s.files (peerbasePath base.link.snsid)).map fun peerbase =>
        (peerbase.link == base.link, base.isdPid, base.lastCap, base.key)) =
          some (true, 77, 0, smallCap.key) ∧
    ∀ j < 4, ((run (smallConfig .unicast) (startEvents ++ refreshEvents.take j)).any fun t =>
      t.peerbases.all fun base => base.key == smallCap.key) = true := by
  decide +kernel

theorem refreshed_stays_small : ∃ (s s' : State) (old : IcdBase),
    run (smallConfig .unicast) (startEvents ++ refreshEvents) = some s' ∧ old.isdPid = 77 ∧
      Serves old (rulesOf old.key s.rules) (isdsAt (peerbasePath old.link.snsid) s.isds) 50 s' := by
  obtain ⟨hstarted, hflow⟩ := refreshEvents_states
  obtain ⟨s, hs, hstarted⟩ := Option.bind_eq_some_iff.1 hstarted
  obtain ⟨old, hold, hstarted⟩ := Option.bind_eq_some_iff.1 hstarted
  obtain ⟨peerbase, hpeerbase, hfields⟩ := Option.map_eq_some_iff.1 hstarted
  obtain ⟨hlink, hpid, hlast, hkey⟩ : peerbase.link = old.link ∧ old.isdPid = 77 ∧
      old.lastCap = 0 ∧ old.key = smallCap.key := by simpa using hfields
  have hstates : ∀ j, ∃ t,
      Run.runFrom (step (smallConfig .unicast)) s (refreshEvents.take j) = some t ∧
        ∀ base ∈ t.peerbases, base.key = old.key := by
    intro j
    have hmin : refreshEvents.take j = refreshEvents.take (min j 3) := by
      rw [← List.take_take]
      rfl
    have hany := hflow (min j 3) (by omega)
    rw [Option.any_eq_true] at hany
    obtain ⟨t, ht, hall⟩ := hany
    rw [run, Run.runFrom_append] at ht
    obtain ⟨u, hu, ht⟩ := Option.bind_eq_some_iff.1 ht
    obtain rfl := Option.some.inj (hs.symm.trans hu)
    refine ⟨t, hmin ▸ ht, fun base hbase => ?_⟩
    rw [hkey]
    exact eq_of_beq (List.all_eq_true.1 hall base hbase)
  obtain ⟨s', hs', -⟩ := hstates 3
  have hpost : Run.runFrom (step (smallConfig .unicast)) s refreshEvents = some s' := hs'
  refine ⟨s, s', old, ?_, hpid, ?_⟩
  · rw [run, Run.runFrom_append]
    change (run (smallConfig .unicast) startEvents).bind _ = _
    rw [hs]
    exact hpost
  · have hmem : old ∈ s.peerbases := List.mem_of_head? hold
    have hfile : (s.files (peerbasePath old.link.snsid)).map Peerbase.link = some old.link := by
      rw [hpeerbase, Option.map_some, hlink]
    have hrefreshed : Refreshed old.key old.lastCap refreshEvents := by
      simp [Refreshed, refreshEvents, hkey, iprpPbTexp]
    have htime : lastCapOf old.key old.lastCap refreshEvents = 50 := by
      simp [lastCapOf, refreshEvents, hkey]
    rw [← htime]
    refine refreshed_stays hs hmem (by rw [hpid]; decide) hfile hrefreshed ?_ hpost
    intro j t ht base hbase _
    obtain ⟨u, hu, hall⟩ := hstates j
    obtain rfl := Option.some.inj (ht.symm.trans hu)
    exact hall base hbase

end Iprp.Icd
