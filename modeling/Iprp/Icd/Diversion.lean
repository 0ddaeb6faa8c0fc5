import Iprp.Icd.History
import Iprp.Library.Sweep

/-!
# ISDs and rules

An ISD and its rule are added when `pb_routine` first pushes a base, and nothing takes them
away: when a base with an ISD expires, both stay. The invariant is that the ISDs and rules
are those of the started bases and of the started bases that have expired
(`diverted_run`); within a pass the bases before the cursor are started (`passed_run`). So
at the end of a pass they follow the list of bases exactly when no started base has expired
so far and no two bases share a queue (`followsBases_iff`).
-/

namespace Iprp.Icd

open KeyedList

/-- At the end of a pass: the ISDs and the rules are those of the bases, one each, no flow
is diverted twice, and every rule diverts to a queue that one ISD reads, that of the base of
its flow. -/
structure FollowsBases (s : State) : Prop where
  isds : s.isds.Perm (s.peerbases.map fun base => isdOf base base.isdPid)
  rules : s.rules.Perm (s.peerbases.map isdRule)
  flows : (s.rules.map Rule.key).Nodup
  divert : ∀ rule ∈ s.rules, ∃ base ∈ s.peerbases, base.key = rule.key ∧
    (s.isds.filter fun isd => isd.queueId == rule.queueId) = [isdOf base base.isdPid]

/-- The step from `s` to `s'` is the last of a pass of `pb_routine`. -/
def EndsPass (s s' : State) : Action → Prop
  | .cap _ _ => False
  | .pbStart => s.iterator = none ∧ s'.iterator = none
  | .pbIteration _ => s.iterator ≠ none ∧ s'.iterator = none

/-- The base under the cursor has aged, and its ISD has been started. -/
def ExpiresStarted (s : State) (e : Event) : Prop :=
  ∃ pid base, e.action = .pbIteration pid ∧ s.iterator.bind (s.peerbases[·]?) = some base ∧
    aged e.currTime base ∧ base.isdPid ≠ -1

/-- Some started base expires in the run. -/
def StartedExpired (c : Config) (es : List Event) : Prop :=
  ∃ k s e, run c (es.take k) = some s ∧ es[k]? = some e ∧ ExpiresStarted s e

/-- What a base contributes to the ISDs and the rules. -/
def diversion (base : IcdBase) : Option (Isd × Rule) :=
  if base.isdPid = -1 then none else some (isdOf base base.isdPid, isdRule base)

/-- The ISDs and the rules come in pairs, which are those of the bases and some others. -/
structure Diverted (s : State) (others : List (Isd × Rule)) : Prop where
  length : s.isds.length = s.rules.length
  perm : (s.isds.zip s.rules).Perm (s.peerbases.filterMap diversion ++ others)

theorem diversion_updateBase (c : Config) (currTime : ℤ) (msg : CapMsg) (base : IcdBase) :
    diversion (updateBase c currTime msg base) = diversion base := rfl

theorem diversion_setIsdPid (base : IcdBase) (pid : ℕ) :
    diversion (base.setIsdPid pid) = some (isdOf base pid, isdRule base) :=
  if_neg (by simp [IcdBase.setIsdPid])

theorem diverted_cap {c : Config} {currTime : ℤ} {heap : Heap} {msg : CapMsg}
    {s s' : State} {others : List (Isd × Rule)} (h : Diverted s others)
    (hstep : capStep c currTime heap msg s = some s') : Diverted s' others := by
  obtain ⟨control, hcontrol, rfl⟩ := Option.map_eq_some_iff.1 hstep
  refine ⟨h.length, ?_⟩
  have hsame : control.peerbases.filterMap diversion = s.peerbases.filterMap diversion := by
    rcases handleCap_cases hcontrol with
      ⟨base, _, rfl⟩ | ⟨_, _, rfl⟩ | ⟨base, _, _, hbase, rfl⟩
    · rw [sendAck_peerbases]
      exact filterMap_update fun base _ => diversion_updateBase c currTime msg base
    · rfl
    · have hnew : diversion base = none := if_pos (createBase_fields hbase).2.2.2.2.1
      rw [sendAck_peerbases, List.filterMap_append, List.filterMap_cons, hnew]
      exact List.append_nil _
  change (s.isds.zip s.rules).Perm (control.peerbases.filterMap diversion ++ others)
  rw [hsame]
  exact h.perm

theorem not_expiresStarted {s : State} {e : Event} {i : ℕ} {base : IcdBase}
    (hit : s.iterator = some i) (hbase : s.peerbases[i]? = some base)
    (hfresh : ¬ aged e.currTime base) : ¬ ExpiresStarted s e := by
  rintro ⟨_, base', _, hbase', haged, _⟩
  rw [hit, Option.bind_some, hbase] at hbase'
  obtain rfl := Option.some.inj hbase'
  exact hfresh haged

theorem diverted_pbIteration (c : Config) (currTime : ℤ) (pid : ℕ) {s : State}
    {others : List (Isd × Rule)} (h : Diverted s others) :
    ∃ others', Diverted (pbIteration c currTime pid s) others' ∧
      (others' = [] ↔ others = [] ∧ ¬ ExpiresStarted s ⟨currTime, .pbIteration pid⟩) := by
  rcases pbIteration_cases c currTime pid s with ⟨heq, hend⟩ |
    ⟨i, base, hit, hbase, ⟨haged, heq⟩ | ⟨hfresh, hpid, heq⟩ | ⟨hfresh, hpid, heq⟩⟩
  · refine ⟨others, by rw [heq]; exact ⟨h.length, h.perm⟩, ?_⟩
    rw [and_iff_left]
    rintro ⟨_, base, _, hbase, _⟩
    rw [hend] at hbase
    cases hbase
  · -- what the base contributed stays when the base goes
    have hperm := filterMap_eraseIdx_perm diversion hbase
    refine ⟨(diversion base).toList ++ others, ?_, ?_⟩
    · rw [heq]
      refine ⟨h.length, (h.perm.trans (hperm.append_right others)).trans ?_⟩
      rw [← List.append_assoc]
      exact List.perm_append_comm.append_right others
    · have hexp : ExpiresStarted s ⟨currTime, .pbIteration pid⟩ ↔ base.isdPid ≠ -1 := by
        constructor
        · rintro ⟨_, base', _, hbase', _, hpid⟩
          rw [hit, Option.bind_some, hbase] at hbase'
          rwa [Option.some.inj hbase']
        · intro hpid
          exact ⟨pid, base, rfl, by rw [hit, Option.bind_some, hbase], haged, hpid⟩
      rw [hexp, not_not, List.append_eq_nil_iff, and_comm]
      refine and_congr_right fun _ => ?_
      rw [diversion]
      split
      · next hpid => simp [hpid]
      · next hpid => simp [hpid]
  · refine ⟨others, by rw [heq]; exact ⟨h.length, h.perm⟩, ?_⟩
    rw [and_iff_left (not_expiresStarted hit hbase hfresh)]
  · have hold := filterMap_eraseIdx_perm diversion hbase
    have hnew := filterMap_set_perm diversion (List.getElem?_eq_some_iff.1 hbase).1
      (base.setIsdPid pid)
    rw [diversion_setIsdPid, Option.toList_some] at hnew
    rw [diversion, if_pos hpid, Option.toList_none, List.nil_append] at hold
    refine ⟨others, ?_, ?_⟩
    · rw [heq]
      refine ⟨by simp [h.length], ?_⟩
      change ((s.isds ++ [isdOf base pid]).zip (s.rules ++ [isdRule base])).Perm
        ((s.peerbases.set i (base.setIsdPid pid)).filterMap diversion ++ others)
      rw [List.zip_append h.length]
      have hzip := ((h.perm.trans (hold.append_right others)).append_right
        [(isdOf base pid, isdRule base)]).trans List.perm_append_comm
      rw [← List.append_assoc] at hzip
      exact hzip.trans (hnew.append_right others).symm
    · rw [and_iff_left (not_expiresStarted hit hbase hfresh)]

/-! ## Passes -/

/-- The bases that the cursor has passed have an ISD. -/
def Passed (s : State) : Prop :=
  ∀ i, s.iterator = some i → i < s.peerbases.length ∧
    ∀ j base, j < i → s.peerbases[j]? = some base → base.isdPid ≠ -1

theorem passed_cap {c : Config} {currTime : ℤ} {heap : Heap} {msg : CapMsg} {s s' : State}
    (h : Passed s) (hstep : capStep c currTime heap msg s = some s') : Passed s' := by
  obtain ⟨control, hcontrol, rfl⟩ := Option.map_eq_some_iff.1 hstep
  intro i hit
  have hpassed : KeyedList.Passed (fun base => base.isdPid ≠ -1) s.peerbases (some i) := h i hit
  dsimp only
  rcases handleCap_cases hcontrol with
    ⟨base, _, rfl⟩ | ⟨_, _, rfl⟩ | ⟨base, _, _, hbase, rfl⟩
  · rw [sendAck_peerbases]
    have hpids : (update IcdBase.key msg.key (updateBase c currTime msg) s.peerbases).map
        IcdBase.isdPid = s.peerbases.map IcdBase.isdPid := map_update fun base _ => by rfl
    exact hpassed.of_keys (Q := fun pid => pid ≠ -1) (hpids.trans (List.append_nil _).symm)
  · exact hpassed
  · rw [sendAck_peerbases]
    exact hpassed.of_keys (Q := fun pid => pid ≠ -1) List.map_append

theorem passed_pbStart {s : State} (h : Passed s) : Passed (pbStart s) := by
  unfold pbStart
  cases hit : s.iterator with
  | some i => exact h
  | none =>
      intro i hnode
      obtain ⟨rfl, hlt⟩ := node_eq_some_iff.1 hnode
      refine ⟨hlt, ?_⟩
      intro j base hj
      exact absurd hj (Nat.not_lt_zero j)

theorem started_upto {s : State} (h : Passed s) {i : ℕ} {base : IcdBase}
    (hit : s.iterator = some i) (hbase : s.peerbases[i]? = some base) (pid : ℕ) {j : ℕ}
    (hj : j < i + 1) {base' : IcdBase}
    (hget : (s.peerbases.set i (base.setIsdPid pid))[j]? = some base' ∨
      base.isdPid ≠ -1 ∧ s.peerbases[j]? = some base') : base'.isdPid ≠ -1 := by
  rcases Nat.lt_or_ge j i with hlt | hge
  · apply (h i hit).2 j base' hlt
    rcases hget with hget | ⟨_, hget⟩
    · rwa [List.getElem?_set_ne (Nat.ne_of_gt hlt)] at hget
    · exact hget
  · obtain rfl : j = i := by omega
    rcases hget with hget | ⟨hpid, hget⟩
    · rw [List.getElem?_set_self (List.getElem?_eq_some_iff.1 hbase).1] at hget
      rw [← Option.some.inj hget]
      simp [IcdBase.setIsdPid]
    · rw [hbase] at hget
      rwa [← Option.some.inj hget]

theorem passed_of_node {s : State} {n : ℕ} (hit : s.iterator = node s.peerbases n)
    (h : ∀ j base, j < n → s.peerbases[j]? = some base → base.isdPid ≠ -1) :
    Passed s ∧ (s.iterator = none → ∀ base ∈ s.peerbases, base.isdPid ≠ -1) := by
  rw [hit]
  constructor
  · intro i hi
    obtain ⟨rfl, hlt⟩ := node_eq_some_iff.1 (hit.symm.trans hi)
    exact ⟨hlt, h⟩
  · intro hnull base hmem
    obtain ⟨j, hget⟩ := List.mem_iff_getElem?.1 hmem
    have hj : j < s.peerbases.length := (List.getElem?_eq_some_iff.1 hget).1
    exact h j base (lt_of_lt_of_le hj (node_eq_none_iff.1 hnull)) hget

theorem passed_pbIteration (c : Config) (currTime : ℤ) (pid : ℕ) {s : State}
    (h : Passed s) : Passed (pbIteration c currTime pid s) ∧
      (EndsPass s (pbIteration c currTime pid s) (.pbIteration pid) →
        ∀ base ∈ (pbIteration c currTime pid s).peerbases, base.isdPid ≠ -1) := by
  rcases pbIteration_cases c currTime pid s with ⟨heq, hend⟩ |
    ⟨i, base, hit, hbase, ⟨_, heq⟩ | ⟨_, hpid, heq⟩ | ⟨_, _, heq⟩⟩
  · rw [heq]
    constructor
    · intro i hit
      cases hit
    · rintro ⟨hit, _⟩
      obtain ⟨i, hi⟩ := Option.ne_none_iff_exists'.1 hit
      rw [hi, Option.bind_some, List.getElem?_eq_none_iff] at hend
      exact absurd (h i hi).1 (not_lt.2 hend)
  · rw [heq]
    refine (passed_of_node (n := i) rfl ?_).imp_right fun hall hends => hall hends.2
    intro j base' hj hget
    rw [List.getElem?_eraseIdx_of_lt hj] at hget
    exact (h i hit).2 j base' hj hget
  · rw [heq]
    refine (passed_of_node (n := i + 1) rfl ?_).imp_right fun hall hends => hall hends.2
    intro j base' hj hget
    exact started_upto h hit hbase pid hj (Or.inr ⟨hpid, hget⟩)
  · rw [heq]
    refine (passed_of_node (n := i + 1) ?_ ?_).imp_right fun hall hends => hall hends.2
    · dsimp only
      rw [node, node, List.length_set]
    · intro j base' hj hget
      exact started_upto h hit hbase pid hj (Or.inl hget)

/-! ## Runs -/

theorem passed_run {c : Config} {es : List Event} {s : State} (hrun : run c es = some s) :
    Passed s := by
  refine Run.runFrom_preserved Passed ?_ ?_ hrun
  · rintro s ⟨currTime, action⟩ s' hs hstep
    cases action with
    | cap heap msg => exact passed_cap hs hstep
    | pbStart =>
        obtain rfl := Option.some.inj hstep
        exact passed_pbStart hs
    | pbIteration pid =>
        obtain rfl := Option.some.inj hstep
        exact (passed_pbIteration c currTime pid hs).1
  · intro i hit
    cases hit

theorem started_of_endsPass {c : Config} {es : List Event} {s s' : State} {e : Event}
    (hrun : run c es = some s) (hstep : step c s e = some s')
    (hend : EndsPass s s' e.action) : ∀ base ∈ s'.peerbases, base.isdPid ≠ -1 := by
  obtain ⟨currTime, action⟩ := e
  cases action with
  | cap heap msg => cases hend
  | pbStart =>
      obtain rfl := Option.some.inj hstep
      obtain ⟨hit, hnode⟩ := hend
      intro base hbase
      simp only [pbStart, hit] at hnode hbase
      rw [node_eq_none_iff, Nat.le_zero, List.length_eq_zero_iff] at hnode
      rw [hnode] at hbase
      cases hbase
  | pbIteration pid =>
      obtain rfl := Option.some.inj hstep
      exact (passed_pbIteration c currTime pid (passed_run hrun)).2 hend

theorem startedExpired_concat_iff {c : Config} {es : List Event} {s : State} {e : Event}
    (hrun : run c es = some s) :
    StartedExpired c (es ++ [e]) ↔ StartedExpired c es ∨ ExpiresStarted s e := by
  constructor
  · rintro ⟨k, t, e', ht, he', hexp⟩
    rcases Nat.lt_or_ge k es.length with hlt | hge
    · rw [List.take_append_of_le_length (le_of_lt hlt)] at ht
      rw [List.getElem?_append_left hlt] at he'
      exact Or.inl ⟨k, t, e', ht, he', hexp⟩
    · rw [List.getElem?_append_right hge] at he'
      have hk : k = es.length := by
        have hlast := (List.getElem?_eq_some_iff.1 he').1
        rw [List.length_singleton] at hlast
        omega
      subst hk
      rw [List.take_left' rfl] at ht
      rw [Nat.sub_self] at he'
      obtain rfl := Option.some.inj (hrun.symm.trans ht)
      obtain rfl := Option.some.inj he'
      exact Or.inr hexp
  · rintro (⟨k, t, e', ht, he', hexp⟩ | hexp)
    · have hk : k < es.length := (List.getElem?_eq_some_iff.1 he').1
      refine ⟨k, t, e', ?_, ?_, hexp⟩
      · rwa [List.take_append_of_le_length (le_of_lt hk)]
      · rwa [List.getElem?_append_left hk]
    · refine ⟨es.length, s, e, ?_, ?_, hexp⟩
      · rwa [List.take_left' rfl]
      · rw [List.getElem?_append_right (le_refl _), Nat.sub_self]
        rfl

/-- The ISDs and rules that belong to no base are those of the started bases that have
expired. -/
theorem diverted_run {c : Config} {es : List Event} {s : State} (hrun : run c es = some s) :
    ∃ others, Diverted s others ∧ (others = [] ↔ ¬ StartedExpired c es) := by
  refine Run.runFrom_history (fun es s => ∃ others, Diverted s others ∧
    (others = [] ↔ ¬ StartedExpired c es)) ?_ ?_ hrun
  · refine ⟨[], ⟨rfl, List.Perm.refl _⟩, iff_of_true rfl ?_⟩
    rintro ⟨k, t, e, _, he, _⟩
    cases he
  · rintro es ⟨currTime, action⟩ t s ht ⟨others, hothers, hiff⟩ hte
    rw [startedExpired_concat_iff ht]
    have hnot : (∀ pid, action ≠ .pbIteration pid) →
        ¬ ExpiresStarted t ⟨currTime, action⟩ := by
      rintro hne ⟨pid, _, he, _⟩
      exact hne pid he
    cases action with
    | cap heap msg =>
        refine ⟨others, diverted_cap hothers hte, ?_⟩
        rw [hiff, or_iff_left (hnot (by simp))]
    | pbStart =>
        obtain ⟨iterator, heq⟩ := pbStart_eq t
        obtain rfl := Option.some.inj hte
        refine ⟨others, by rw [heq]; exact ⟨hothers.length, hothers.perm⟩, ?_⟩
        rw [hiff, or_iff_left (hnot (by simp))]
    | pbIteration pid =>
        obtain rfl := Option.some.inj hte
        obtain ⟨others', hothers', hiff'⟩ :=
          diverted_pbIteration c currTime pid hothers
        refine ⟨others', hothers', ?_⟩
        rw [hiff', hiff, not_or]

/-! ## The end of a pass -/

theorem diverted_started {s : State} {others : List (Isd × Rule)} (h : Diverted s others)
    (hstarted : ∀ base ∈ s.peerbases, base.isdPid ≠ -1) :
    s.isds.Perm ((s.peerbases.map fun base => isdOf base base.isdPid) ++
        others.map Prod.fst) ∧
      s.rules.Perm (s.peerbases.map isdRule ++ others.map Prod.snd) := by
  have hall : s.peerbases.filterMap diversion =
      s.peerbases.map fun base => (isdOf base base.isdPid, isdRule base) := by
    rw [← List.filterMap_eq_map]
    apply List.filterMap_congr
    intro base hbase
    exact if_neg (hstarted base hbase)
  have hperm := h.perm
  rw [hall] at hperm
  constructor
  · have hfst := hperm.map Prod.fst
    rwa [List.map_fst_zip (le_of_eq h.length), List.map_append, List.map_map] at hfst
  · have hsnd := hperm.map Prod.snd
    rwa [List.map_snd_zip (ge_of_eq h.length), List.map_append, List.map_map] at hsnd

theorem length_filter_isds {s : State}
    (h : s.isds.Perm (s.peerbases.map fun base => isdOf base base.isdPid)) (q : UInt16) :
    (s.isds.filter fun isd => isd.queueId == q).length =
      (s.peerbases.map IcdBase.queueId).count q := by
  rw [← List.countP_eq_length_filter, h.countP_eq, List.countP_map, List.count,
    List.countP_map]
  rfl

/-- Each rule diverts to one ISD, that of its base, exactly when no two bases share a
queue. -/
theorem divert_iff {s : State}
    (hisds : s.isds.Perm (s.peerbases.map fun base => isdOf base base.isdPid))
    (hrules : s.rules.Perm (s.peerbases.map isdRule)) :
    (∀ rule ∈ s.rules, ∃ base ∈ s.peerbases, base.key = rule.key ∧
      (s.isds.filter fun isd => isd.queueId == rule.queueId) =
        [isdOf base base.isdPid]) ↔
      (s.peerbases.map IcdBase.queueId).Nodup := by
  constructor
  · intro h
    apply List.nodup_iff_count_le_one.2
    intro q
    by_cases hq : q ∈ s.peerbases.map IcdBase.queueId
    · obtain ⟨base, hbase, rfl⟩ := List.mem_map.1 hq
      have hrule : isdRule base ∈ s.rules := hrules.mem_iff.2 (List.mem_map_of_mem hbase)
      obtain ⟨base', _, _, hone⟩ := h (isdRule base) hrule
      have hlength := congrArg List.length hone
      change (s.isds.filter fun isd => isd.queueId == base.queueId).length = 1 at hlength
      rw [length_filter_isds hisds] at hlength
      exact le_of_eq hlength
    · rw [List.count_eq_zero_of_not_mem hq]
      exact Nat.zero_le 1
  · intro h rule hrule
    obtain ⟨base, hbase, rfl⟩ := List.mem_map.1 (hrules.mem_iff.1 hrule)
    refine ⟨base, hbase, rfl, ?_⟩
    have hlength : (s.isds.filter fun isd => isd.queueId == base.queueId).length = 1 := by
      rw [length_filter_isds hisds]
      exact List.count_eq_one_of_mem h (List.mem_map_of_mem hbase)
    obtain ⟨isd, hone⟩ := List.length_eq_one_iff.1 hlength
    have hmem : isdOf base base.isdPid ∈
        s.isds.filter fun isd => isd.queueId == base.queueId :=
      List.mem_filter.2
        ⟨hisds.mem_iff.2 (List.mem_map.2 ⟨base, hbase, rfl⟩), beq_self_eq_true _⟩
    change (s.isds.filter fun isd => isd.queueId == base.queueId) = [isdOf base base.isdPid]
    rw [hone] at hmem ⊢
    rw [List.mem_singleton.1 hmem]

/-- At the end of every pass of every run the ISDs and the rules follow the bases if and
only if no started base has expired so far and no two bases share a queue. -/
theorem followsBases_iff (c : Config) (es : List Event) (e : Event) (s s' : State)
    (hrun : run c es = some s) (hstep : step c s e = some s')
    (hend : EndsPass s s' e.action) :
    FollowsBases s' ↔ ¬ StartedExpired c (es ++ [e]) ∧
      (s'.peerbases.map IcdBase.queueId).Nodup := by
  have hrun' : run c (es ++ [e]) = some s' :=
    Run.runFrom_append_singleton_eq_some.2 ⟨s, hrun, hstep⟩
  obtain ⟨others, hothers, hiff⟩ := diverted_run hrun'
  obtain ⟨hisds, hrules⟩ := diverted_started hothers (started_of_endsPass hrun hstep hend)
  constructor
  · intro h
    have hlength : others = [] := by
      have hsame := hisds.length_eq.symm.trans h.isds.length_eq
      rw [List.length_append, List.length_map, List.length_map] at hsame
      exact List.length_eq_zero_iff.1 (by omega)
    exact ⟨hiff.1 hlength, (divert_iff h.isds h.rules).1 h.divert⟩
  · rintro ⟨hexp, hnodup⟩
    obtain rfl : others = [] := hiff.2 hexp
    rw [List.map_nil, List.append_nil] at hisds hrules
    have hflows : (s'.rules.map Rule.key).Nodup := by
      rw [(hrules.map Rule.key).nodup_iff, List.map_map]
      exact uniqueKeys_run hrun'
    exact ⟨hisds, hrules, hflows, (divert_iff hisds hrules).2 hnodup⟩

/-! A base that is created, started and, a minute later, expires. -/

def expiryEvents : List Event :=
  [⟨0, .cap smallHeap smallCap⟩, ⟨1, .pbStart⟩, ⟨1, .pbIteration 77⟩, ⟨70, .pbStart⟩]

theorem expiry_endsPass : ∃ s s', run (smallConfig .unicast) expiryEvents = some s ∧
    step (smallConfig .unicast) s ⟨70, .pbIteration 78⟩ = some s' ∧
    EndsPass s s' (.pbIteration 78) ∧ s'.isds.length = 1 ∧ s'.peerbases = [] := by
  have hiterator : (run (smallConfig .unicast) expiryEvents).map (·.iterator) =
      some (some 0) := by decide +kernel
  have hlast : (run (smallConfig .unicast) (expiryEvents ++ [⟨70, .pbIteration 78⟩])).map
      (fun s => (s.iterator, s.isds.length, s.peerbases)) = some (none, 1, []) := by
    decide +kernel
  obtain ⟨s', hs', hfinal⟩ := Option.map_eq_some_iff.1 hlast
  obtain ⟨s, hs, hstep⟩ := Run.runFrom_append_singleton_eq_some.1 hs'
  obtain ⟨t, ht, hit⟩ := Option.map_eq_some_iff.1 hiterator
  obtain rfl := Option.some.inj (ht.symm.trans hs)
  simp only [Prod.mk.injEq] at hfinal
  exact ⟨t, s', ht, hstep, ⟨by rw [hit]; exact Option.some_ne_none 0, hfinal.1⟩, hfinal.2⟩

theorem followsBases_iff_expiry : ∃ s',
    run (smallConfig .unicast) (expiryEvents ++ [⟨70, .pbIteration 78⟩]) = some s' ∧
      (FollowsBases s' ↔
        ¬ StartedExpired (smallConfig .unicast) (expiryEvents ++ [⟨70, .pbIteration 78⟩]) ∧
          (s'.peerbases.map IcdBase.queueId).Nodup) := by
  obtain ⟨s, s', hs, hstep, hend, _⟩ := expiry_endsPass
  exact ⟨s', Run.runFrom_append_singleton_eq_some.2 ⟨s, hs, hstep⟩,
    followsBases_iff (smallConfig .unicast) expiryEvents _ s s' hs hstep hend⟩

/-- The ISD and the rule of the expired base are still there. -/
theorem leftover_isd :
    ¬ ∀ (c : Config) (es : List Event) (e : Event) (s s' : State), run c es = some s →
        step c s e = some s' → EndsPass s s' e.action → FollowsBases s' := by
  intro h
  obtain ⟨s, s', hs, hstep, hend, hisds, hbases⟩ := expiry_endsPass
  have hlength := (h _ _ _ s s' hs hstep hend).isds.length_eq
  rw [hisds, hbases] at hlength
  cases hlength

end Iprp.Icd
