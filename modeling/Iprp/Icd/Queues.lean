import Iprp.Icd.Announce

/-!
# Queue numbers

The netfilter queues of a host: `main` of the ICD draws three for the receiver side, and
every base gets one from `get_queue_number` when it is created. The random numbers are
arbitrary, for `main` and for every creation: `get_queue_number` calls `srand` with the
current time, and `as_routine` calls it from another thread.

The number returned is the first one drawn, whatever is in use. All numbers stay distinct
exactly along the runs in which the first draw of every creation is free
(`queues_distinct_iff`).
-/

namespace Iprp.Icd

open KeyedList

/-- `iprp_icd_recv_queues_t`, as `main` leaves it. -/
structure RecvQueues where
  ird : UInt16
  imd : UInt16
  irdImd : UInt16
  distinct : ird ≠ imd ∧ ird ≠ irdImd ∧ imd ≠ irdImd

/-- The loop of `main` over the numbers from `rand`, for at most the given number of
turns. -/
def recvQueuesLoop (rand : ℕ → ℕ) : ℕ → Option RecvQueues
  | 0 => none
  | turns + 1 =>
      let ird := UInt16.ofNat (rand 0 % 65535)
      let imd := UInt16.ofNat (rand 1 % 65535)
      let irdImd := UInt16.ofNat (rand 2 % 65535)
      if h : ird ≠ imd ∧ ird ≠ irdImd ∧ imd ≠ irdImd then some ⟨ird, imd, irdImd, h⟩
      else recvQueuesLoop (fun k => rand (k + 3)) turns

/-- An event with the numbers that `rand` gives during it. -/
structure DrawEvent where
  event : Event
  draws : ℕ → ℕ

def drawStep (c : Config) (s : State) (e : DrawEvent) : Option State :=
  step { c with rand := fun _ => e.draws } s e.event

/-- The ICD from the start of `main`: the receiver-side queues, and the state after the
given events. -/
def mainRun (c : Config) (rand : ℕ → ℕ) (turns : ℕ) (es : List DrawEvent) :
    Option (RecvQueues × State) := do
  let queues ← recvQueuesLoop rand turns
  let s ← Run.runFrom (drawStep c) State.init es
  return (queues, s)

/-- The queue numbers in use: the receiver-side ones and those of the bases. -/
def queuesInUse (queues : RecvQueues) (s : State) : List UInt16 :=
  [queues.ird, queues.imd, queues.irdImd] ++ s.peerbases.map IcdBase.queueId

/-- The event creates a base, with a number from `get_queue_number`. -/
def Creates (c : Config) (s : State) (e : DrawEvent) (base : IcdBase) : Prop :=
  ∃ heap msg, e.event.action = .cap heap msg ∧
    lookup IcdBase.key msg.key s.peerbases = none ∧
    indMatch c.this.toHost msg.inds ≠ 0 ∧
    createBase { c with rand := fun _ => e.draws } e.event.currTime heap msg
      (indMatch c.this.toHost msg.inds) s.toControl = some base

/-- The number that is drawn first. -/
def DrawEvent.firstDraw (e : DrawEvent) : UInt16 := UInt16.ofNat (e.draws 0 % 1024)

theorem creates_queueId {c : Config} {s : State} {e : DrawEvent} {base : IcdBase}
    (h : Creates c s e base) : base.queueId = e.firstDraw := by
  obtain ⟨heap, msg, _, _, _, hbase⟩ := h
  obtain ⟨_, _, _, hqueue, _, _⟩ := createBase_fields hbase
  exact hqueue

theorem queueIds_step {c : Config} {s s' : State} {e : DrawEvent}
    (h : drawStep c s e = some s') :
    (∃ base, Creates c s e base ∧
      s'.peerbases.map IcdBase.queueId = s.peerbases.map IcdBase.queueId ++ [base.queueId]) ∨
    List.Sublist (s'.peerbases.map IcdBase.queueId) (s.peerbases.map IcdBase.queueId) := by
  rcases step_map_cases (g := IcdBase.queueId) (fun _ _ _ => rfl) (fun _ _ => rfl) h with
    ⟨heap, msg, base, he, hnone, hmatch, hbase, heq, _⟩ | ⟨_, _, hsub⟩
  · refine Or.inl ⟨base, ⟨heap, msg, he, hnone, hmatch, hbase⟩, ?_⟩
    rw [heq, List.map_append, List.map_singleton]
  · exact Or.inr hsub

theorem nodup_step {c : Config} {queues : RecvQueues} {s s' : State} {e : DrawEvent}
    (hs : (queuesInUse queues s).Nodup)
    (hfree : ∀ base, Creates c s e base → e.firstDraw ∉ queuesInUse queues s)
    (hstep : drawStep c s e = some s') : (queuesInUse queues s').Nodup := by
  unfold queuesInUse at *
  rcases queueIds_step hstep with ⟨base, hcreates, heq⟩ | hsub
  · rw [heq, ← List.append_assoc, List.nodup_append]
    refine ⟨hs, List.nodup_singleton _, ?_⟩
    intro a ha b hb hab
    rw [List.mem_singleton] at hb
    apply hfree base hcreates
    rw [← creates_queueId hcreates, ← hb, ← hab]
    exact ha
  · exact hs.sublist (hsub.append_left _)

theorem mainRun_eq_some_iff {c : Config} {rand : ℕ → ℕ} {turns : ℕ} {es : List DrawEvent}
    {queues : RecvQueues} {s : State} :
    mainRun c rand turns es = some (queues, s) ↔
      recvQueuesLoop rand turns = some queues ∧
        Run.runFrom (drawStep c) State.init es = some s := by
  simp only [mainRun, Option.bind_eq_bind, Option.bind_eq_some_iff]
  constructor
  · rintro ⟨_, hqueues, _, hs, heq⟩
    obtain ⟨rfl, rfl⟩ := Prod.mk.inj (Option.some.inj heq)
    exact ⟨hqueues, hs⟩
  · rintro ⟨hqueues, hs⟩
    exact ⟨queues, hqueues, s, hs, rfl⟩

/-- Whatever `main` draws and along every run: each base gets a number that no base and no
receiver-side queue uses, and all numbers in use are distinct in every state, if and only if
the first number drawn for each new base is free. -/
theorem queues_distinct_iff (c : Config) (rand : ℕ → ℕ) (turns : ℕ) (es : List DrawEvent) :
    (∀ k queues s, mainRun c rand turns (es.take k) = some (queues, s) →
      (queuesInUse queues s).Nodup ∧
        ∀ e base, es[k]? = some e → Creates c s e base →
          base.queueId ∉ queuesInUse queues s) ↔
    ∀ k queues s e base, mainRun c rand turns (es.take k) = some (queues, s) →
      es[k]? = some e → Creates c s e base → e.firstDraw ∉ queuesInUse queues s := by
  constructor
  · intro h k queues s e base hrun he hcreates
    rw [← creates_queueId hcreates]
    exact (h k queues s hrun).2 e base he hcreates
  · intro h k queues s hrun
    obtain ⟨hqueues, hs⟩ := mainRun_eq_some_iff.1 hrun
    constructor
    · refine Run.runFrom_take_invariant (fun s => (queuesInUse queues s).Nodup)
        (fun s e => ∀ base, Creates c s e base → e.firstDraw ∉ queuesInUse queues s)
        (fun s e s' ht hok hstep => nodup_step ht hok hstep) ?_ ?_ k hs
      · obtain ⟨h₁, h₂, h₃⟩ := queues.distinct
        simp [queuesInUse, State.init, Control.init, h₁, h₂, h₃]
      · intro k t e ht he base hcreates
        exact h k queues t e base (mainRun_eq_some_iff.2 ⟨hqueues, ht⟩) he hcreates
    · intro e base he hcreates
      rw [creates_queueId hcreates]
      exact h k queues s e base hrun he hcreates

/-- The CAP of another flow between the hosts of `smallCap`. -/
def otherCap : CapMsg := { smallCap with destPort := 5001 }

/-- Two flows whose bases are created within the same second get the same queue. -/
theorem same_second_same_queue :
    ¬ ∀ (c : Config) (rand : ℕ → ℕ) (turns : ℕ) (es : List DrawEvent) (k : ℕ)
      (queues : RecvQueues) (s : State), mainRun c rand turns (es.take k) = some (queues, s) →
      (queuesInUse queues s).Nodup ∧
        ∀ e base, es[k]? = some e → Creates c s e base →
          base.queueId ∉ queuesInUse queues s := by
  intro h
  let es : List DrawEvent := [⟨⟨9, .cap smallHeap smallCap⟩, fun _ => 5⟩,
    ⟨⟨9, .cap smallHeap otherCap⟩, fun _ => 5⟩]
  obtain ⟨⟨queues, s⟩, hrun⟩ :
      ∃ r, mainRun (smallConfig .unicast) (fun k => 2000 + k) 1 es = some r := ⟨_, rfl⟩
  have hnodup := (h (smallConfig .unicast) (fun k => 2000 + k) 1 es 2 queues s hrun).1
  have hids : (mainRun (smallConfig .unicast) (fun k => 2000 + k) 1 es).map
      (fun r => r.2.peerbases.map IcdBase.queueId) = some [5, 5] := by
    decide +kernel
  rw [hrun, Option.map_some] at hids
  rw [queuesInUse, Option.some.inj hids] at hnodup
  simp at hnodup

end Iprp.Icd
