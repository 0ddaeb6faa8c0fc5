import Iprp.Icd.Announce
import Mathlib.Data.List.Induction

/-!
# Bases and the CAPs that made them

A base is what the CAPs of its flow since its creation say. `Since c k pre post` splits a
run at the creation: the flow `k` has no base after `pre` and has one from then on. Every
property of a base and its history is proved by `history_rule`, from the creation and from
each later step. For the bitmap and the age it gives the invariant of the table
(`run_tableInvariant`).
-/

namespace Iprp.Icd

open KeyedList

/-- The CAPs of a flow, with the times at which they are handled. -/
def capsOf (k : FlowKey) (es : List Event) : List (ℤ × CapMsg) :=
  es.filterMap fun e =>
    match e.action with
    | .cap _ msg => if msg.key = k then some (e.currTime, msg) else none
    | .pbStart => none
    | .pbIteration _ => none

/-- The union of the bitmaps of some CAPs. -/
def indsOf (caps : List (ℤ × CapMsg)) : IndBitmap :=
  caps.foldl (fun b p => b ||| p.2.inds) 0

/-- The base of the flow `k` has been listed since the first event of `post`. -/
structure Since (c : Config) (k : FlowKey) (pre post : List Event) : Prop where
  absent : ∀ s, run c pre = some s → lookup IcdBase.key k s.peerbases = none
  present : ∀ n s, 0 < n → n ≤ post.length → run c (pre ++ post.take n) = some s →
    lookup IcdBase.key k s.peerbases ≠ none

theorem capsOf_append (k : FlowKey) (es fs : List Event) :
    capsOf k (es ++ fs) = capsOf k es ++ capsOf k fs := List.filterMap_append

theorem capsOf_singleton_cap {k : FlowKey} {e : Event} {heap : Heap} {msg : CapMsg}
    (he : e.action = .cap heap msg) (hk : msg.key = k) :
    capsOf k [e] = [(e.currTime, msg)] := by
  simp [capsOf, he, hk]

theorem capsOf_singleton_other {k : FlowKey} {e : Event}
    (he : ∀ heap msg, e.action = .cap heap msg → msg.key ≠ k) : capsOf k [e] = [] := by
  obtain ⟨currTime, action⟩ := e
  cases action with
  | cap heap msg => simp [capsOf, he heap msg rfl]
  | pbStart => rfl
  | pbIteration pid => rfl

theorem indsOf_append_singleton (caps : List (ℤ × CapMsg)) (p : ℤ × CapMsg) :
    indsOf (caps ++ [p]) = indsOf caps ||| p.2.inds := by
  rw [indsOf, List.foldl_append]
  rfl

theorem uniqueKeys_run {c : Config} {es : List Event} {s : State} (h : run c es = some s) :
    UniqueKeys IcdBase.key s.peerbases :=
  Run.runFrom_preserved (fun s : State => UniqueKeys IcdBase.key s.peerbases)
    (fun _ _ _ hs hstep => uniqueKeys_step hs hstep) (uniqueKeys_nil _) h

/-- The rule for histories: what holds of a base when it is created, and is kept by every
step that leaves the flow a base, holds of every base and the events since its creation. -/
theorem history_rule {c : Config} {k : FlowKey} {es : List Event}
    {P : List Event → IcdBase → Prop}
    (hcreate : ∀ pre s e base, pre ++ [e] <+: es → run c pre = some s →
      LookupStep c s e k none (some base) → P [e] base)
    (hstep : ∀ pre post s e base base', pre ++ post ++ [e] <+: es →
      run c (pre ++ post) = some s → lookup IcdBase.key k s.peerbases = some base →
      P post base → LookupStep c s e k (some base) (some base') → P (post ++ [e]) base')
    {s : State} (hrun : run c es = some s) {base : IcdBase}
    (hbase : lookup IcdBase.key k s.peerbases = some base) :
    ∃ pre post, es = pre ++ post ∧ Since c k pre post ∧ P post base := by
  induction es using List.reverseRecOn generalizing s base with
  | nil =>
      obtain rfl : State.init = s := Option.some.inj hrun
      cases hbase
  | append_singleton es e ih =>
      obtain ⟨t, ht, hte⟩ := Run.runFrom_append_singleton_eq_some.1 hrun
      have hlook := step_lookup (uniqueKeys_run ht) hte k
      rw [hbase] at hlook
      cases hold : lookup IcdBase.key k t.peerbases with
      | none =>
          rw [hold] at hlook
          refine ⟨es, [e], rfl, ⟨?_, ?_⟩, hcreate es t e base List.prefix_rfl ht hlook⟩
          · intro s' hs'
            obtain rfl := Option.some.inj (ht.symm.trans hs')
            exact hold
          · intro n s' hn hle hs'
            obtain rfl : n = 1 := le_antisymm hle hn
            obtain rfl := Option.some.inj (hrun.symm.trans hs')
            rw [hbase]
            exact Option.some_ne_none base
      | some base₀ =>
          rw [hold] at hlook
          have hpre : es <+: es ++ [e] := List.prefix_append es [e]
          obtain ⟨pre, post, rfl, hsince, hP⟩ := ih
            (fun pre s e base h => hcreate pre s e base (h.trans hpre))
            (fun pre post s e base base' h => hstep pre post s e base base' (h.trans hpre))
            ht hold
          refine ⟨pre, post ++ [e], by rw [List.append_assoc], ⟨hsince.absent, ?_⟩,
            hstep pre post t e base₀ base List.prefix_rfl ht hold hP hlook⟩
          intro n s' hn hle hs'
          rw [List.length_append, List.length_singleton] at hle
          rcases Nat.lt_or_ge post.length n with hlt | hge
          · -- the whole history, whose last state is `s`
            rw [List.take_of_length_le (by simp; omega), ← List.append_assoc] at hs'
            obtain rfl := Option.some.inj (hrun.symm.trans hs')
            rw [hbase]
            exact Option.some_ne_none base
          · rw [List.take_append_of_le_length hge] at hs'
            exact hsince.present n s' hn hge hs'

/-! ## The bitmap and the age -/

/-- The bitmap of a base is what the host shares with the CAPs, and its age that of the
latest of them. -/
structure Tracks (c : Config) (caps : List (ℤ × CapMsg)) (base : IcdBase) : Prop where
  inds : base.inds = hostInds c.this.toHost &&& indsOf caps
  inds_ne : base.inds ≠ 0
  lastCap : caps.getLast?.map Prod.fst = some base.lastCap

theorem tracks_history {c : Config} {k : FlowKey} {es : List Event} {s : State}
    (hrun : run c es = some s) {base : IcdBase}
    (hbase : lookup IcdBase.key k s.peerbases = some base) :
    ∃ pre post, es = pre ++ post ∧ Since c k pre post ∧ Tracks c (capsOf k post) base := by
  refine history_rule (P := fun post base => Tracks c (capsOf k post) base) ?_ ?_ hrun hbase
  · intro pre s e base _ _ hstep
    cases hstep with
    | create heap msg _ he hk hmatch hbase =>
        obtain ⟨_, hinds, _, _, _, hlast⟩ := createBase_fields hbase
        rw [capsOf_singleton_cap he hk]
        refine ⟨?_, hinds ▸ hmatch, by simp [hlast]⟩
        rw [hinds, indMatch_eq]
        simp [indsOf]
  · intro pre post s e base base' _ _ _ h hstep
    rw [capsOf_append]
    cases hstep with
    | refresh heap msg _ he hk =>
        rw [capsOf_singleton_cap he hk]
        refine ⟨?_, ?_, by simp [updateBase]⟩
        · rw [indsOf_append_singleton, updateBase, h.inds, indMatch_eq]
          ext i hi
          simp only [BitVec.getElem_or, BitVec.getElem_and]
          cases (hostInds c.this.toHost)[i] with
          | true => rfl
          | false => rfl
        · intro hzero
          exact h.inds_ne (BitVec.or_eq_zero_iff.1 hzero).1
    | start pid _ he =>
        rw [capsOf_singleton_other (by intro heap msg h; rw [he] at h; cases h),
          List.append_nil]
        exact ⟨h.inds, h.inds_ne, h.lastCap⟩
    | other he _ =>
        rw [capsOf_singleton_other he, List.append_nil]
        exact h

/-- The invariant of the table after the events `es`: the flows of the bases are distinct,
every base tracks the CAPs of its flow since its creation, and no base has been deleted
within `iprpPbTexp` seconds of the latest of them. -/
structure TableInvariant (c : Config) (es : List Event) (s : State) : Prop where
  unique : UniqueKeys IcdBase.key s.peerbases
  tracks : ∀ base ∈ s.peerbases, ∃ pre post, es = pre ++ post ∧ Since c base.key pre post ∧
    Tracks c (capsOf base.key post) base
  deleted : ∀ k e t t', es[k]? = some e → run c (es.take k) = some t →
    step c t e = some t' → ∀ base ∈ t.peerbases,
    lookup IcdBase.key base.key t'.peerbases = none → iprpPbTexp < e.currTime - base.lastCap

/-- The invariant holds in every state that the ICD reaches on CAPs of the form of
`send_cap`, and such a run is never undefined. -/
theorem run_tableInvariant (c : Config) (es : List Event)
    (hcaps : ∀ e ∈ es, ∀ heap msg, e.action = .cap heap msg →
      msg.WellFormed c.target.build) :
    ∃ s, run c es = some s ∧ TableInvariant c es s := by
  obtain ⟨s, hrun⟩ : ∃ s, run c es = some s :=
    Run.runFrom_total
      (fun e => ∀ heap msg, e.action = .cap heap msg → msg.WellFormed c.target.build)
      (fun s e he => step_defined he s) hcaps State.init
  refine ⟨s, hrun, uniqueKeys_run hrun, ?_, ?_⟩
  · intro base hbase
    exact tracks_history hrun (lookup_of_mem (uniqueKeys_run hrun) hbase)
  · intro k e t t' _ ht hstep base hbase hgone
    have hlook := step_lookup (uniqueKeys_run ht) hstep base.key
    rw [lookup_of_mem (uniqueKeys_run ht) hbase, hgone] at hlook
    cases hlook with
    | expire pid _ he haged => simpa [aged] using haged

/-- A base is created, started, refreshed and deleted. -/
theorem run_tableInvariant_small :
    ∃ s, run (smallConfig .unicast)
        [⟨0, .cap smallHeap smallCap⟩, ⟨1, .pbStart⟩, ⟨1, .pbIteration 77⟩,
          ⟨5, .cap smallHeap smallCap⟩, ⟨66, .pbStart⟩, ⟨66, .pbIteration 78⟩] = some s ∧
      TableInvariant (smallConfig .unicast)
        [⟨0, .cap smallHeap smallCap⟩, ⟨1, .pbStart⟩, ⟨1, .pbIteration 77⟩,
          ⟨5, .cap smallHeap smallCap⟩, ⟨66, .pbStart⟩, ⟨66, .pbIteration 78⟩] s := by
  apply run_tableInvariant
  intro e he heap msg hmsg
  have hcap : msg = smallCap := by
    simp only [List.mem_cons, List.not_mem_nil, or_false] at he
    rcases he with rfl | rfl | rfl | rfl | rfl | rfl
    · cases hmsg; rfl
    · cases hmsg
    · cases hmsg
    · cases hmsg; rfl
    · cases hmsg
    · cases hmsg
  rw [hcap]
  exact sendCap_wellFormed .unicast smallHost _

end Iprp.Icd
