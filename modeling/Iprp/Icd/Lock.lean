import Iprp.Icd.Announce
import Iprp.Library.Mutex

/-!
# The lock of the list of bases

`pb_routine` and `handle_cap` as two threads that share `peerbases` and its mutex, in the
steps between which they can be interleaved. `list_lock` is `acquire` and has no result
while the mutex is held, by its caller too; a step without a result is one that waits.

The mutex is held inside the critical sections only (`confined_step`), except that the
branch of `pb_routine` for an aged base goes back to the head of the loop without
`list_unlock`. A run keeps the lock discipline exactly when it never takes that branch
(`disciplined_iff`), and afterwards no CAP is handled any more (`stuck_run`).
-/

namespace Iprp.Icd

open KeyedList Mutex

/-! ## Threads -/

inductive Thread
  | pb
  | ctl
  deriving DecidableEq

/-- Where `pb_routine` is. -/
inductive PbPos
  /-- In `sleep`, or before its first pass. -/
  | sleeping
  /-- At the test of the inner loop. -/
  | head
  /-- At `list_lock`. -/
  | locking
  /-- Between `list_lock` and the end of the work on the list. -/
  | locked
  /-- At `list_unlock`, with a fresh base at the position `i`. -/
  | unlocking (i : ℕ)
  /-- In the rest of the iteration for that base. -/
  | pushing (i : ℕ)
  deriving DecidableEq

/-- Where the control routine is. -/
inductive CtlPos
  | receiving
  /-- At the `list_lock` of `handle_cap`. -/
  | locking (heap : Heap) (msg : CapMsg)
  | locked (heap : Heap) (msg : CapMsg)
  /-- At the `list_unlock` of `handle_cap`. -/
  | unlocking

/-- The state of the two threads. -/
structure Threads extends State where
  mutex : Option Thread
  pb : PbPos
  ctl : CtlPos

/-- Both threads outside of their loops' bodies, with a given list of bases. -/
def Threads.init (peerbases : List IcdBase) : Threads :=
  { State.init with
    peerbases := peerbases
    mutex := none
    pb := .sleeping
    ctl := .receiving }

/-- The next step of `pb_routine`. -/
def pbNext (c : Config) (currTime : ℤ) (pid : ℕ) (s : Threads) : Option Threads :=
  match s.pb with
  | .sleeping => some { s with iterator := node s.peerbases 0, pb := .head }
  | .head => some { s with pb := if s.iterator = none then .sleeping else .locking }
  | .locking => (acquire .pb s.mutex).map fun m => { s with mutex := m, pb := .locked }
  | .locked => do
      let i ← s.iterator
      let base ← s.peerbases[i]?
      -- after the deletion of an aged base, `continue` skips `list_unlock`
      return { s with
        toState := (pbExamine currTime i s.toState).1
        pb := if aged currTime base then .head else .unlocking i }
  | .unlocking i => some { s with mutex := release s.mutex, pb := .pushing i }
  | .pushing i => some { s with toState := pbPush c pid i s.toState, pb := .head }

/-- The next step of `handle_cap`. -/
def ctlNext (c : Config) (currTime : ℤ) (s : Threads) : Option Threads :=
  match s.ctl with
  | .receiving => none
  | .locking heap msg =>
      (acquire .ctl s.mutex).map fun m => { s with mutex := m, ctl := .locked heap msg }
  | .locked heap msg =>
      (capStep c currTime heap msg s.toState).map fun t =>
        { s with toState := t, ctl := .unlocking }
  | .unlocking => some { s with mutex := release s.mutex, ctl := .receiving }

/-- The control routine receives a CAP and calls `handle_cap`. -/
def ctlReceive (heap : Heap) (msg : CapMsg) (s : Threads) : Option Threads :=
  match s.ctl with
  | .receiving => some { s with ctl := .locking heap msg }
  | _ => none

inductive ThreadAction where
  | pb (pid : ℕ)
  | ctl
  | cap (heap : Heap) (msg : CapMsg)

structure ThreadEvent where
  currTime : ℤ
  action : ThreadAction

def threadsStep (c : Config) (s : Threads) (e : ThreadEvent) : Option Threads :=
  match e.action with
  | .pb pid => pbNext c e.currTime pid s
  | .ctl => ctlNext c e.currTime s
  | .cap heap msg => ctlReceive heap msg s

/-- The state of the threads after the given events, from a list of bases. -/
def threadsRun (c : Config) (peerbases : List IcdBase) (es : List ThreadEvent) :
    Option Threads :=
  Run.runFrom (threadsStep c) (Threads.init peerbases) es

/-! ## The discipline -/

/-- `pb_routine` is between two iterations of its inner loop. -/
def PbPos.Between (pos : PbPos) : Prop := pos = .head ∨ pos = .sleeping

/-- The lock discipline in a state: `pb_routine` does not hold the mutex between its
iterations nor where it calls `list_lock`, and a `handle_cap` that waits for the mutex can
take it while `pb_routine` is between its iterations. -/
structure Disciplined (c : Config) (s : Threads) : Prop where
  between : s.pb.Between → s.mutex ≠ some .pb
  lock : s.pb = .locking → s.mutex ≠ some .pb
  handle : s.pb.Between → ∀ heap msg, s.ctl = .locking heap msg → ∀ currTime,
    ∃ s', threadsStep c s ⟨currTime, .ctl⟩ = some s' ∧ s'.ctl = .locked heap msg

/-- The step is the one in which `pb_routine` looks at a base, and the base has aged. -/
def ExaminesAged (s : Threads) (e : ThreadEvent) : Prop :=
  (∃ pid, e.action = .pb pid) ∧ s.pb = .locked ∧
    ∃ base, s.iterator.bind (s.peerbases[·]?) = some base ∧ aged e.currTime base

/-! ## Critical sections -/

def PbPos.Inside : PbPos → Prop
  | .locked => True
  | .unlocking _ => True
  | _ => False

def CtlPos.Inside : CtlPos → Prop
  | .locked _ _ => True
  | .unlocking => True
  | _ => False

/-- The thread is inside its critical section. -/
def Threads.Inside (s : Threads) : Thread → Prop
  | .pb => s.pb.Inside
  | .ctl => s.ctl.Inside

/-- What a step does to the mutex and the critical sections. -/
inductive LockStep (s : Threads) (e : ThreadEvent) (s' : Threads) : Prop
  | enter (t : Thread) (hacq : acquire t s.mutex = some s'.mutex)
      (hin : ∀ u, s'.Inside u ↔ u = t ∨ s.Inside u)
  | leave (t : Thread) (ht : s.Inside t) (hrel : s'.mutex = release s.mutex)
      (hin : ∀ u, s'.Inside u ↔ u ≠ t ∧ s.Inside u)
  | stay (hmutex : s'.mutex = s.mutex) (hin : ∀ u, s'.Inside u ↔ s.Inside u)
  /-- An aged base is deleted, and its critical section left as it is. -/
  | leak (haged : ExaminesAged s e) (hmutex : s'.mutex = s.mutex) (hpb : s'.pb = .head)
      (hctl : s'.ctl = s.ctl)

theorem inside_pb {s : Threads} {pos : PbPos} (h : s.pb = pos) :
    s.Inside .pb ↔ pos.Inside := by
  rw [Threads.Inside, h]

theorem inside_ctl {s : Threads} {pos : CtlPos} (h : s.ctl = pos) :
    s.Inside .ctl ↔ pos.Inside := by
  rw [Threads.Inside, h]

theorem forall_thread {p : Thread → Prop} (hpb : p .pb) (hctl : p .ctl) : ∀ t, p t
  | .pb => hpb
  | .ctl => hctl

theorem pbNext_lockStep {c : Config} {currTime : ℤ} {pid : ℕ} {s s' : Threads}
    (h : pbNext c currTime pid s = some s') : LockStep s ⟨currTime, .pb pid⟩ s' := by
  unfold pbNext at h
  cases hpb : s.pb with
  | sleeping =>
      simp only [hpb] at h
      obtain rfl := Option.some.inj h
      exact .stay rfl (forall_thread (by rw [inside_pb hpb]; rfl) Iff.rfl)
  | head =>
      simp only [hpb] at h
      obtain rfl := Option.some.inj h
      refine .stay rfl (forall_thread ?_ Iff.rfl)
      rw [inside_pb hpb, Threads.Inside]
      split
      · rfl
      · rfl
  | locking =>
      simp only [hpb] at h
      obtain ⟨m, hacq, rfl⟩ := Option.map_eq_some_iff.1 h
      refine .enter .pb hacq (forall_thread ?_ ?_)
      · exact iff_of_true trivial (Or.inl rfl)
      · exact (or_iff_right (by decide)).symm
  | locked =>
      simp only [hpb] at h
      obtain ⟨i, hit, h⟩ := Option.bind_eq_some_iff.1 h
      obtain ⟨base, hbase, h⟩ := Option.bind_eq_some_iff.1 h
      obtain rfl := Option.some.inj h
      by_cases haged : aged currTime base = true
      · refine .leak ⟨⟨pid, rfl⟩, hpb, base, ?_, haged⟩ rfl (if_pos haged) rfl
        rw [hit]
        exact hbase
      · refine .stay rfl (forall_thread ?_ Iff.rfl)
        rw [inside_pb hpb, Threads.Inside, if_neg haged]
        rfl
  | unlocking i =>
      simp only [hpb] at h
      obtain rfl := Option.some.inj h
      refine .leave .pb ((inside_pb hpb).2 trivial) rfl (forall_thread ?_ ?_)
      · exact iff_of_false id fun h => h.1 rfl
      · exact (and_iff_right (by decide)).symm
  | pushing i =>
      simp only [hpb] at h
      obtain rfl := Option.some.inj h
      exact .stay rfl (forall_thread (by rw [inside_pb hpb]; rfl) Iff.rfl)

theorem ctlNext_lockStep {c : Config} {currTime : ℤ} {s s' : Threads}
    (h : ctlNext c currTime s = some s') : LockStep s ⟨currTime, .ctl⟩ s' := by
  unfold ctlNext at h
  cases hctl : s.ctl with
  | receiving =>
      simp only [hctl] at h
      cases h
  | locking heap msg =>
      simp only [hctl] at h
      obtain ⟨m, hacq, rfl⟩ := Option.map_eq_some_iff.1 h
      refine .enter .ctl hacq (forall_thread ?_ ?_)
      · exact (or_iff_right (by decide)).symm
      · exact iff_of_true trivial (Or.inl rfl)
  | locked heap msg =>
      simp only [hctl] at h
      obtain ⟨t, _, rfl⟩ := Option.map_eq_some_iff.1 h
      exact .stay rfl (forall_thread Iff.rfl (by rw [inside_ctl hctl]; rfl))
  | unlocking =>
      simp only [hctl] at h
      obtain rfl := Option.some.inj h
      refine .leave .ctl ((inside_ctl hctl).2 trivial) rfl (forall_thread ?_ ?_)
      · exact (and_iff_right (by decide)).symm
      · exact iff_of_false id fun h => h.1 rfl

theorem threadsStep_lockStep {c : Config} {s s' : Threads} {e : ThreadEvent}
    (h : threadsStep c s e = some s') : LockStep s e s' := by
  obtain ⟨currTime, action⟩ := e
  cases action with
  | pb pid => exact pbNext_lockStep h
  | ctl => exact ctlNext_lockStep h
  | cap heap msg =>
      change ctlReceive heap msg s = some s' at h
      unfold ctlReceive at h
      split at h
      · next hctl =>
          obtain rfl := Option.some.inj h
          exact .stay rfl (forall_thread Iff.rfl (by rw [inside_ctl hctl]; rfl))
      · cases h

theorem exclusive_step {c : Config} {s s' : Threads} {e : ThreadEvent}
    (hs : Exclusive s.mutex s.Inside) (h : threadsStep c s e = some s') :
    Exclusive s'.mutex s'.Inside := by
  cases threadsStep_lockStep h with
  | enter t hacq hin => exact hs.acquire hacq fun u => (hin u).1
  | leave t ht hrel hin =>
      rw [hrel]
      exact hs.release ht fun u => (hin u).1
  | stay hmutex hin =>
      rw [hmutex]
      exact hs.mono fun u => (hin u).1
  | leak haged hmutex hpb hctl =>
      rw [hmutex]
      refine hs.mono (forall_thread ?_ ?_)
      · intro hin
        exact ((inside_pb hpb).1 hin).elim
      · exact (inside_ctl hctl).1

/-- Without an aged base the mutex stays confined to the critical sections. -/
theorem confined_step {c : Config} {s s' : Threads} {e : ThreadEvent}
    (hs : Confined s.mutex s.Inside) (hfresh : ¬ ExaminesAged s e)
    (h : threadsStep c s e = some s') : Confined s'.mutex s'.Inside := by
  cases threadsStep_lockStep h with
  | enter t hacq hin => exact Confined.acquire hacq ((hin t).2 (Or.inl rfl))
  | leave t ht hrel hin =>
      rw [hrel]
      exact Confined.release s.mutex s'.Inside
  | stay hmutex hin =>
      rw [hmutex]
      exact hs.mono fun u => (hin u).2
  | leak haged hmutex hpb hctl => exact absurd haged hfresh

theorem not_inside_of_between {s : Threads} (h : s.pb.Between) : ¬ s.Inside .pb := by
  rcases h with h | h
  · exact (inside_pb h).1
  · exact (inside_pb h).1

theorem disciplined_of_confined (c : Config) {s : Threads}
    (h : Confined s.mutex s.Inside) : Disciplined c s where
  between hpos hheld := not_inside_of_between hpos (h .pb hheld)
  lock hpos hheld := (inside_pb hpos).1 (h .pb hheld)
  handle hpos heap msg hctl currTime := by
    have hacq : acquire .ctl s.mutex = some (some .ctl) :=
      h.acquire_of_outside (forall_thread (not_inside_of_between hpos) (inside_ctl hctl).1)
        .ctl
    refine ⟨{ s with mutex := some .ctl, ctl := .locked heap msg }, ?_, rfl⟩
    simp only [threadsStep, ctlNext, hctl, hacq, Option.map_some]

theorem pbNext_locked (c : Config) (currTime : ℤ) (pid : ℕ) {s : Threads} {i : ℕ}
    {base : IcdBase} (hpb : s.pb = .locked) (hit : s.iterator = some i)
    (hbase : s.peerbases[i]? = some base) :
    pbNext c currTime pid s = some { s with
      toState := (pbExamine currTime i s.toState).1
      pb := if aged currTime base then .head else .unlocking i } := by
  simp only [pbNext, hpb, hit, hbase, Option.bind_eq_bind, Option.bind_some]
  rfl

theorem examinesAged_step (c : Config) {s : Threads} {e : ThreadEvent}
    (h : ExaminesAged s e) :
    ∃ s', threadsStep c s e = some s' ∧ s'.pb = .head ∧ s'.mutex = s.mutex := by
  obtain ⟨⟨pid, he⟩, hpb, base, hbase, haged⟩ := h
  obtain ⟨i, hit, hget⟩ := Option.bind_eq_some_iff.1 hbase
  refine ⟨{ s with
    toState := (pbExamine e.currTime i s.toState).1
    pb := .head }, ?_, rfl, rfl⟩
  rw [threadsStep, he]
  dsimp only
  rw [pbNext_locked c e.currTime pid hpb hit hget, if_pos haged]

theorem exclusive_run {c : Config} {peerbases : List IcdBase} {es : List ThreadEvent}
    {s : Threads} (h : threadsRun c peerbases es = some s) :
    Exclusive s.mutex s.Inside := by
  refine Run.runFrom_preserved (fun s => Exclusive s.mutex s.Inside)
    (fun s e s' hs hstep => exclusive_step hs hstep) ?_ h
  exact forall_thread False.elim False.elim

/-- From every list of bases, along every interleaving at every clock: the discipline holds
in every state of the run if and only if `pb_routine` never looks at an aged base. -/
theorem disciplined_iff (c : Config) (peerbases : List IcdBase) (es : List ThreadEvent) :
    (∀ k s, threadsRun c peerbases (es.take k) = some s → Disciplined c s) ↔
      ∀ k s e, threadsRun c peerbases (es.take k) = some s → es[k]? = some e →
        ¬ ExaminesAged s e := by
  constructor
  · intro h k s e hs he haged
    obtain ⟨s', hstep, hpb, hmutex⟩ := examinesAged_step c haged
    have hs' : threadsRun c peerbases (es.take (k + 1)) = some s' :=
      (Run.runFrom_take_succ_eq_some he).2 ⟨s, hs, hstep⟩
    have hheld : s.mutex = some .pb :=
      exclusive_run hs .pb ((inside_pb haged.2.1).2 trivial)
    exact (h (k + 1) s' hs').between (Or.inl hpb) (hmutex.trans hheld)
  · intro h k s hs
    apply disciplined_of_confined
    refine Run.runFrom_take_invariant (fun s => Confined s.mutex s.Inside)
      (fun s e => ¬ ExaminesAged s e)
      (fun s e s' hs hok hstep => confined_step hs hok hstep) ?_ h k hs
    intro t ht
    cases ht

/-! A base whose peer goes silent for more than a minute. -/

/-- A CAP is handled, a pass pushes the new base, and a later one finds it aged. -/
def silentEvents : List ThreadEvent :=
  [⟨0, .cap smallHeap smallCap⟩, ⟨0, .ctl⟩, ⟨0, .ctl⟩, ⟨0, .ctl⟩] ++
    List.replicate 7 ⟨1, .pb 77⟩ ++ List.replicate 4 ⟨70, .pb 78⟩

theorem aged_keeps_lock :
    ¬ ∀ (c : Config) (peerbases : List IcdBase) (es : List ThreadEvent) (s : Threads),
      threadsRun c peerbases es = some s → Disciplined c s := by
  intro h
  have hend : (threadsRun (smallConfig .unicast) [] silentEvents).map
      (fun s => (s.pb, s.mutex)) = some (.head, some .pb) := by decide +kernel
  obtain ⟨s, hs, hfinal⟩ := Option.map_eq_some_iff.1 hend
  simp only [Prod.mk.injEq] at hfinal
  exact (h _ _ _ s hs).between (Or.inl hfinal.1) hfinal.2

/-! ## After the leak -/

/-- `pb_routine` holds the mutex outside of its critical section. -/
structure Stuck (s : Threads) : Prop where
  held : s.mutex = some .pb
  pb : s.pb.Between ∨ s.pb = .locking
  ctl : ¬ s.Inside .ctl

/-- From there on `list_lock` never returns, and the control state stays as it is. -/
theorem stuck_step {c : Config} {s s' : Threads} {e : ThreadEvent} (hs : Stuck s)
    (h : threadsStep c s e = some s') : Stuck s' ∧ s'.toControl = s.toControl := by
  obtain ⟨currTime, action⟩ := e
  cases action with
  | pb pid =>
      change pbNext c currTime pid s = some s' at h
      unfold pbNext at h
      rcases hs.pb with (hpb | hpb) | hpb
      · simp only [hpb] at h
        obtain rfl := Option.some.inj h
        refine ⟨⟨hs.held, ?_, hs.ctl⟩, rfl⟩
        dsimp only
        split
        · exact Or.inl (Or.inr rfl)
        · exact Or.inr rfl
      · simp only [hpb] at h
        obtain rfl := Option.some.inj h
        exact ⟨⟨hs.held, Or.inl (Or.inl rfl), hs.ctl⟩, rfl⟩
      · simp only [hpb, hs.held] at h
        cases h
  | ctl =>
      change ctlNext c currTime s = some s' at h
      unfold ctlNext at h
      split at h
      · cases h
      · rw [hs.held] at h
        cases h
      · next hctl => exact absurd ((inside_ctl hctl).2 trivial) hs.ctl
      · next hctl => exact absurd ((inside_ctl hctl).2 trivial) hs.ctl
  | cap heap msg =>
      change ctlReceive heap msg s = some s' at h
      unfold ctlReceive at h
      split at h
      · obtain rfl := Option.some.inj h
        exact ⟨⟨hs.held, hs.pb, id⟩, rfl⟩
      · cases h

/-- Once an aged base has been deleted, no CAP changes the list of bases any more. -/
theorem stuck_run {c : Config} {peerbases : List IcdBase} {es fs : List ThreadEvent}
    {e : ThreadEvent} {s s' t : Threads} (hrun : threadsRun c peerbases es = some s)
    (haged : ExaminesAged s e) (hstep : threadsStep c s e = some s')
    (hafter : Run.runFrom (threadsStep c) s' fs = some t) :
    t.mutex = some .pb ∧ t.toControl = s'.toControl := by
  have hexcl : Exclusive s.mutex s.Inside := exclusive_run hrun
  have hexcl' : Exclusive s'.mutex s'.Inside := exclusive_step hexcl hstep
  obtain ⟨u, hu, hpb, hmutex⟩ := examinesAged_step c haged
  obtain rfl := Option.some.inj (hu.symm.trans hstep)
  have hheld : u.mutex = some .pb :=
    hmutex.trans (hexcl .pb ((inside_pb haged.2.1).2 trivial))
  have hstuck : Stuck u := by
    refine ⟨hheld, Or.inl (Or.inl hpb), ?_⟩
    intro hctl
    rw [hexcl' .ctl hctl] at hheld
    cases hheld
  obtain ⟨hend, hsame⟩ := Run.runFrom_preserved
    (fun t => Stuck t ∧ t.toControl = u.toControl)
    (fun t e t' ht h => ⟨(stuck_step ht.1 h).1, (stuck_step ht.1 h).2.trans ht.2⟩)
    ⟨hstuck, rfl⟩ hafter
  exact ⟨hend.held, hsame⟩

/-! ## The cursor -/

/-- The cursor points into the list, and is not null where `pb_routine` uses it. -/
structure Cursor (s : Threads) : Prop where
  bound : ∀ i, s.iterator = some i → i < s.peerbases.length
  locked : s.pb = .locking ∨ s.pb = .locked → s.iterator ≠ none

theorem capStep_length {c : Config} {currTime : ℤ} {heap : Heap} {msg : CapMsg}
    {s s' : State} (h : capStep c currTime heap msg s = some s') :
    s'.iterator = s.iterator ∧ s.peerbases.length ≤ s'.peerbases.length := by
  obtain ⟨control, hcontrol, rfl⟩ := Option.map_eq_some_iff.1 h
  refine ⟨rfl, ?_⟩
  dsimp only
  rcases handleCap_cases hcontrol with ⟨base, _, rfl⟩ | ⟨_, _, rfl⟩ | ⟨base, _, _, _, rfl⟩
  · rw [sendAck_peerbases, length_update]
  · exact le_rfl
  · rw [sendAck_peerbases, List.length_append]
    exact Nat.le_add_right _ _

theorem pbExamine_bound (currTime : ℤ) (i : ℕ) (s : State) {j : ℕ}
    (h : (pbExamine currTime i s).1.iterator = some j) :
    j < (pbExamine currTime i s).1.peerbases.length := by
  unfold pbExamine sweepStep at h ⊢
  cases hbase : s.peerbases[i]? with
  | none =>
      simp only [hbase] at h
      cases h
  | some base =>
      simp only [hbase] at h ⊢
      split at h
      · next haged =>
          rw [if_pos haged]
          obtain ⟨rfl, hlt⟩ := node_eq_some_iff.1 h
          exact hlt
      · next hfresh =>
          rw [if_neg hfresh]
          obtain ⟨rfl, hlt⟩ := node_eq_some_iff.1 h
          exact hlt

theorem pbPush_cursor (c : Config) (pid i : ℕ) (s : State) :
    (pbPush c pid i s).iterator = s.iterator ∧
      (pbPush c pid i s).peerbases.length = s.peerbases.length := by
  unfold pbPush
  split
  · exact ⟨rfl, rfl⟩
  · dsimp only
    split
    · exact ⟨rfl, List.length_set⟩
    · exact ⟨rfl, rfl⟩

theorem cursor_pbNext {c : Config} {currTime : ℤ} {pid : ℕ} {s s' : Threads}
    (hs : Cursor s) (h : pbNext c currTime pid s = some s') : Cursor s' := by
  unfold pbNext at h
  split at h
  · obtain rfl := Option.some.inj h
    refine ⟨fun i hnode => ?_, by simp⟩
    obtain ⟨rfl, hlt⟩ := node_eq_some_iff.1 hnode
    exact hlt
  · obtain rfl := Option.some.inj h
    refine ⟨hs.bound, fun hpb hnull => ?_⟩
    simp [show s.iterator = none from hnull] at hpb
  · next hpb =>
      obtain ⟨m, _, rfl⟩ := Option.map_eq_some_iff.1 h
      exact ⟨hs.bound, fun _ => hs.locked (Or.inl hpb)⟩
  · obtain ⟨i, _, h⟩ := Option.bind_eq_some_iff.1 h
    obtain ⟨base, _, h⟩ := Option.bind_eq_some_iff.1 h
    obtain rfl := Option.some.inj h
    refine ⟨fun j => pbExamine_bound currTime i s.toState, fun hpb => ?_⟩
    dsimp only at hpb
    split at hpb
    · simp at hpb
    · simp at hpb
  · obtain rfl := Option.some.inj h
    exact ⟨hs.bound, by simp⟩
  · next i hpb =>
      obtain rfl := Option.some.inj h
      obtain ⟨hit, hlen⟩ := pbPush_cursor c pid i s.toState
      refine ⟨fun j hj => ?_, by simp⟩
      dsimp only at hj ⊢
      rw [hlen]
      exact hs.bound j (hit.symm.trans hj)

theorem cursor_ctlNext {c : Config} {currTime : ℤ} {s s' : Threads} (hs : Cursor s)
    (h : ctlNext c currTime s = some s') : Cursor s' := by
  unfold ctlNext at h
  split at h
  · cases h
  · obtain ⟨m, _, rfl⟩ := Option.map_eq_some_iff.1 h
    exact ⟨hs.bound, hs.locked⟩
  · obtain ⟨t, ht, rfl⟩ := Option.map_eq_some_iff.1 h
    obtain ⟨hit, hlen⟩ := capStep_length ht
    constructor
    · intro i hi
      exact lt_of_lt_of_le (hs.bound i (hit.symm.trans hi)) hlen
    · intro hpb hnull
      exact hs.locked hpb (hit.symm.trans hnull)
  · obtain rfl := Option.some.inj h
    exact ⟨hs.bound, hs.locked⟩

theorem cursor_step {c : Config} {s s' : Threads} {e : ThreadEvent} (hs : Cursor s)
    (h : threadsStep c s e = some s') : Cursor s' := by
  obtain ⟨currTime, action⟩ := e
  cases action with
  | pb pid => exact cursor_pbNext hs h
  | ctl => exact cursor_ctlNext hs h
  | cap heap msg =>
      change ctlReceive heap msg s = some s' at h
      unfold ctlReceive at h
      split at h
      · obtain rfl := Option.some.inj h
        exact ⟨hs.bound, hs.locked⟩
      · cases h

/-- Inside its critical section `pb_routine` always finds a base to look at. -/
theorem examine_defined {c : Config} {peerbases : List IcdBase} {es : List ThreadEvent}
    {s : Threads} (h : threadsRun c peerbases es = some s) (hpb : s.pb = .locked)
    (currTime : ℤ) (pid : ℕ) : ∃ s', pbNext c currTime pid s = some s' := by
  have hcursor : Cursor s := by
    refine Run.runFrom_preserved Cursor (fun s e s' hs hstep => cursor_step hs hstep) ?_ h
    exact ⟨fun i hi => (Option.some_ne_none i hi.symm).elim, by simp [Threads.init]⟩
  obtain ⟨i, hit⟩ := Option.ne_none_iff_exists'.1 (hcursor.locked (Or.inr hpb))
  have hbound : i < s.peerbases.length := hcursor.bound i hit
  have hbase : s.peerbases[i]? = some s.peerbases[i] := List.getElem?_eq_getElem hbound
  exact ⟨_, pbNext_locked c currTime pid hpb hit hbase⟩

/-! ## Iterations without interleaving -/

/-- The steps of `handle_cap`, one after the other, are `handleCap`. -/
theorem handle_uninterrupted (c : Config) (currTime : ℤ) {s : Threads} {heap : Heap}
    {msg : CapMsg} (hctl : s.ctl = .locking heap msg) (hmutex : s.mutex = none) :
    Run.runFrom (threadsStep c) s (List.replicate 3 ⟨currTime, .ctl⟩) =
      (capStep c currTime heap msg s.toState).map fun t =>
        { s with toState := t, ctl := .receiving } := by
  obtain ⟨t, mutex, pb, ctl⟩ := s
  dsimp only at hctl hmutex
  subst hctl hmutex
  cases hstep : capStep c currTime heap msg t with
  | none =>
      simp [List.replicate, Run.runFrom_cons, threadsStep, ctlNext, acquire, hstep]
  | some t' =>
      simp [List.replicate, Run.runFrom_cons, threadsStep, ctlNext, acquire, release, hstep]

/-- The steps of an iteration for a fresh base, one after the other, are `pbIteration`. -/
theorem iteration_fresh (c : Config) (currTime : ℤ) (pid : ℕ) {s : Threads} {i : ℕ}
    {base : IcdBase} (hpb : s.pb = .head) (hmutex : s.mutex = none)
    (hit : s.iterator = some i) (hbase : s.peerbases[i]? = some base)
    (hfresh : ¬ aged currTime base) :
    Run.runFrom (threadsStep c) s (List.replicate 5 ⟨currTime, .pb pid⟩) =
      some { s with toState := pbIteration c currTime pid s.toState } := by
  obtain ⟨t, mutex, pb, ctl⟩ := s
  dsimp only at hpb hmutex hit hbase
  subst hpb hmutex
  simp [List.replicate, Run.runFrom_cons, threadsStep, pbNext, acquire, release, hit, hbase,
    hfresh, pbIteration, pbExamine]

/-- For an aged base they are `pbIteration` too, but for the mutex. -/
theorem iteration_aged (c : Config) (currTime : ℤ) (pid : ℕ) {s : Threads} {i : ℕ}
    {base : IcdBase} (hpb : s.pb = .head) (hmutex : s.mutex = none)
    (hit : s.iterator = some i) (hbase : s.peerbases[i]? = some base)
    (haged : aged currTime base) :
    Run.runFrom (threadsStep c) s (List.replicate 3 ⟨currTime, .pb pid⟩) =
      some { s with
        toState := pbIteration c currTime pid s.toState
        mutex := some .pb } := by
  obtain ⟨t, mutex, pb, ctl⟩ := s
  dsimp only at hpb hmutex hit hbase
  subst hpb hmutex
  simp [List.replicate, Run.runFrom_cons, threadsStep, pbNext, acquire, hit, hbase,
    haged, pbIteration, pbExamine]

end Iprp.Icd
