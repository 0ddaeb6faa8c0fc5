import Mathlib.Algebra.BigOperators.Group.Finset.Piecewise
import Mathlib.Algebra.Order.BigOperators.Group.Finset
import Mathlib.Data.Fintype.Card
import Iprp.Library.Run

/-!
# Streams that routines open and close

The routines of a daemon are threads that make one pass after the other. A pass is a `Prog`, a
program whose next step depends on what the calls of the C library return. `Ends h p d` says that
`p`, with `h` streams open, opens no stream while it has one, closes none that it does not have,
and has `d` open at its end, on each of its paths; a sequence of programs is followed by
`Ends.bind`.

The machine interleaves the calls of the routines in any order. It counts the streams that are
open, and a call of `fopen` finds no descriptor when there are as many as the limit. `Kept` says
that beyond those of the start only passes under way have a stream open. That a routine ends its
passes with `d` open streams is a property of its programs, and from it the number of open streams
follows for every interleaving (`invariant_run`).
-/

namespace Streams

open Finset

inductive Mode where
  | read
  | write
  deriving DecidableEq

/-- A program that uses one stream at a time, as far as its calls for streams go. -/
inductive Prog (α : Type) where
  | done (a : α)
  /-- The end of the daemon. -/
  | exit
  /-- Whether there is a stream, and not the null pointer. -/
  | fopen (path : List Char) (mode : Mode) (next : Bool → Prog α)
  /-- The bytes of the file from where the stream is. -/
  | fread (next : List UInt8 → Prog α)
  | fwrite (bytes : List UInt8) (next : Prog α)
  | fclose (next : Prog α)

namespace Prog

def bind {α β : Type} (p : Prog α) (f : α → Prog β) : Prog β :=
  match p with
  | done a => f a
  | exit => exit
  | fopen path mode next => fopen path mode fun ok => (next ok).bind f
  | fread next => fread fun bytes => (next bytes).bind f
  | fwrite bytes next => fwrite bytes (next.bind f)
  | fclose next => fclose (next.bind f)

instance : Monad Prog where
  pure := done
  bind := bind

end Prog

/-- With `h` open streams the program ends with `d`, and has never more than one. -/
def Ends {α : Type} : ℕ → Prog α → ℕ → Prop
  | h, .done _, d => h = d
  | _, .exit, _ => True
  | h, .fopen _ _ next, d => h = 0 ∧ Ends 0 (next false) d ∧ Ends 1 (next true) d
  | h, .fread next, d => ∀ bytes, Ends h (next bytes) d
  | h, .fwrite _ next, d => Ends h next d
  | h, .fclose next, d => h = 1 ∧ Ends 0 next d

theorem Ends.bind {α β : Type} {h d d' : ℕ} {p : Prog α} {f : α → Prog β} (hp : Ends h p d)
    (hf : ∀ a, Ends d (f a) d') : Ends h (p.bind f) d' := by
  induction p generalizing h with
  | done a =>
      obtain rfl : h = d := hp
      exact hf a
  | exit => trivial
  | fopen path mode next ih =>
      obtain ⟨rfl, hnull, hopen⟩ := hp
      exact ⟨rfl, ih false hnull, ih true hopen⟩
  | fread next ih => exact fun bytes => ih bytes (hp bytes)
  | fwrite bytes next ih => exact ih hp
  | fclose next ih => exact ⟨hp.1, ih hp.2⟩

/-! ## The machine -/

/-- The routines and their passes. -/
structure Daemon (R : Type) where
  Input : R → Type
  /-- What a routine does before its first pass. -/
  startup : R → Prog Unit
  pass : (r : R) → Input r → Prog Unit

/-- What the environment answers to a call: whether the file can be opened, and its bytes. -/
structure Answer where
  accessible : Bool
  bytes : List UInt8

inductive Event {R : Type} (D : Daemon R) where
  | begin (r : R) (input : D.Input r)
  | call (r : R) (answer : Answer)

/-- The streams that are open, what each routine has still to do, and whether the daemon has
ended. The rest is for the record: the streams that each routine has opened in its pass and not
closed, and those that were left open by passes before. -/
structure State (R : Type) where
  openStreams : ℕ
  program : R → Prog Unit
  ended : Bool
  held : R → ℕ
  left : ℕ

variable {R : Type} [DecidableEq R]

def Prog.isDone {α : Type} : Prog α → Bool
  | .done _ => true
  | _ => false

theorem Prog.isDone_iff {p : Prog Unit} : p.isDone = true ↔ p = .done () := by
  cases p with
  | done u => exact iff_of_true rfl rfl
  | _ => exact iff_of_false Bool.false_ne_true (fun h => by cases h)

/-- The routine is between two passes. -/
def State.between (s : State R) (r : R) : Bool := (s.program r).isDone

def start (D : Daemon R) (base : ℕ) : State R :=
  ⟨base, D.startup, false, fun _ => 0, 0⟩

/-- The routine goes on with the program `p`, with `h` streams open. -/
def State.goOn (s : State R) (r : R) (p : Prog Unit) (h : ℕ) : State R :=
  { s with program := Function.update s.program r p, held := Function.update s.held r h }

/-- One call of a routine. -/
def callStep (limit : ℕ) (r : R) (answer : Answer) (s : State R) : Option (State R) :=
  match s.program r with
  | .done _ => none
  | .exit => some { s with ended := true }
  | .fopen _ _ next =>
      if answer.accessible && s.openStreams < limit then
        some { s.goOn r (next true) (s.held r + 1) with openStreams := s.openStreams + 1 }
      else some (s.goOn r (next false) (s.held r))
  | .fread next => some (s.goOn r (next answer.bytes) (s.held r))
  | .fwrite _ next => some (s.goOn r next (s.held r))
  | .fclose next =>
      if s.held r = 0 then none
      else some { s.goOn r next (s.held r - 1) with openStreams := s.openStreams - 1 }

def step (D : Daemon R) (limit : ℕ) (s : State R) (e : Event D) : Option (State R) :=
  if s.ended then none
  else
    match e with
    | .begin r input =>
        if s.between r then
          some { s.goOn r (D.pass r input) 0 with left := s.left + s.held r }
        else none
    | .call r answer => callStep limit r answer s

def run (D : Daemon R) (limit base : ℕ) (es : List (Event D)) : Option (State R) :=
  Run.runFrom (step D limit) (start D base) es

/-! ## The balance -/

/-- Every pass of a routine `r` ends with `leaves r` open streams. -/
structure Leaving (D : Daemon R) (leaves : R → ℕ) : Prop where
  startup : ∀ r, Ends 0 (D.startup r) 0
  pass : ∀ r input, Ends 0 (D.pass r input) (leaves r)

/-- How many passes a routine has begun. -/
def begun {D : Daemon R} (r : R) (es : List (Event D)) : ℕ :=
  es.countP fun
    | .begin r' _ => r' = r
    | .call _ _ => false

/-- How many passes of a routine are over. -/
def completed {D : Daemon R} (r : R) (es : List (Event D)) (s : State R) : ℕ :=
  begun r es - if s.between r then 0 else 1

section

variable {D : Daemon R}

theorem begun_call (r r' : R) (es : List (Event D)) (answer : Answer) :
    begun r' (es ++ [.call r answer]) = begun r' es := by
  rw [begun, List.countP_append]
  rfl

theorem begun_begin_self (r : R) (es : List (Event D)) (input : D.Input r) :
    begun r (es ++ [.begin r input]) = begun r es + 1 := by
  rw [begun, List.countP_append, List.countP_singleton, if_pos (by simp)]
  rfl

theorem begun_begin_other {r r' : R} (hne : r ≠ r') (es : List (Event D)) (input : D.Input r) :
    begun r' (es ++ [.begin r input]) = begun r' es := by
  rw [begun, List.countP_append, List.countP_singleton, if_neg (by simp [hne])]
  rfl

end

theorem State.forall_goOn {P : R → ℕ → Prog Unit → Prop} {s : State R} {r : R} {p : Prog Unit}
    {held : ℕ} (hself : P r held p) (hother : ∀ r', r' ≠ r → P r' (s.held r') (s.program r'))
    (r' : R) : P r' ((s.goOn r p held).held r') ((s.goOn r p held).program r') := by
  by_cases hsame : r' = r
  · subst hsame
    simpa [State.goOn] using hself
  · simpa [State.goOn, hsame] using hother r' hsame

variable [Fintype R]

/-- Beyond the streams that were open at the start, only passes under way have one open, each at
most one. So a call of `fopen` finds less than that many descriptors in use. -/
structure Kept (base : ℕ) (s : State R) : Prop where
  open_eq : s.openStreams = base + ∑ r, if s.between r then 0 else s.held r
  held_le : ∀ r, s.held r ≤ 1
  room : ∀ r path mode next, s.program r = .fopen path mode next →
    s.openStreams < base + Fintype.card R

structure Invariant {D : Daemon R} (leaves : R → ℕ) (base : ℕ) (es : List (Event D))
    (s : State R) : Prop where
  total : s.openStreams = base + s.left + ∑ r, s.held r
  held_le : ∀ r, s.held r ≤ 1
  ends : ∀ r, Ends (s.held r) (s.program r) (if begun r es = 0 then 0 else leaves r)
  left_eq : s.left = ∑ r, leaves r * (begun r es - 1)

theorem sum_update (f : R → ℕ) (r : R) (n : ℕ) :
    ∑ r', Function.update f r n r' + f r = ∑ r', f r' + n := by
  rw [Finset.sum_update_of_mem (Finset.mem_univ r), ← Finset.add_sum_erase _ f (Finset.mem_univ r),
    Finset.sdiff_singleton_eq_erase]
  omega

section

variable {D : Daemon R} {leaves : R → ℕ} {base limit : ℕ}

theorem invariant_start (hleaving : Leaving D leaves) :
    Invariant leaves base ([] : List (Event D)) (start D base) := by
  refine ⟨?_, fun _ => Nat.zero_le 1, hleaving.startup, ?_⟩
  · simp [start]
  · simp [start, begun]

/-- A routine that goes on with its program. -/
theorem Invariant.goOn {es : List (Event D)} {s : State R} (h : Invariant leaves base es s)
    {r : R} {answer : Answer} {p : Prog Unit} {held : ℕ} (hheld : held ≤ 1)
    (hends : Ends held p (if begun r es = 0 then 0 else leaves r)) {openStreams : ℕ}
    (hopen : openStreams + s.held r = s.openStreams + held) :
    Invariant leaves base (es ++ [.call r answer])
      { s.goOn r p held with openStreams := openStreams } := by
  refine ⟨?_, ?_, ?_, ?_⟩
  · have hsum := sum_update s.held r held
    have htotal := h.total
    dsimp only [State.goOn]
    omega
  · exact State.forall_goOn (P := fun _ held _ => held ≤ 1) (p := p) hheld
      fun r' _ => h.held_le r'
  · intro r'
    rw [begun_call]
    exact State.forall_goOn
      (P := fun r' held p => Ends held p (if begun r' es = 0 then 0 else leaves r'))
      hends (fun r' _ => h.ends r') r'
  · simp only [begun_call]
    exact h.left_eq

theorem Invariant.call {es : List (Event D)} {s s' : State R} (h : Invariant leaves base es s)
    {r : R} {answer : Answer} (hstep : callStep limit r answer s = some s') :
    Invariant leaves base (es ++ [.call r answer]) s' := by
  have hends := h.ends r
  unfold callStep at hstep
  cases hprogram : s.program r with
  | done u =>
      rw [hprogram] at hstep
      cases hstep
  | exit =>
      rw [hprogram] at hstep
      cases hstep
      refine ⟨h.total, h.held_le, ?_, ?_⟩
      · intro r'
        rw [begun_call]
        exact h.ends r'
      · simp only [begun_call]
        exact h.left_eq
  | fopen path mode next =>
      rw [hprogram] at hstep hends
      obtain ⟨hnone, hnull, hopen⟩ := hends
      dsimp only at hstep
      split at hstep
      · cases hstep
        rw [hnone]
        exact h.goOn (Nat.le_refl 1) hopen (by omega)
      · cases hstep
        rw [hnone]
        exact h.goOn (Nat.zero_le 1) hnull (by omega)
  | fread next =>
      rw [hprogram] at hstep hends
      cases hstep
      exact h.goOn (h.held_le r) (hends answer.bytes) rfl
  | fwrite bytes next =>
      rw [hprogram] at hstep hends
      cases hstep
      exact h.goOn (p := next) (h.held_le r) hends rfl
  | fclose next =>
      rw [hprogram] at hstep hends
      obtain ⟨hone, hclosed⟩ := hends
      dsimp only at hstep
      rw [if_neg (by omega)] at hstep
      cases hstep
      rw [hone]
      have htotal := h.total
      have hle : s.held r ≤ ∑ r, s.held r :=
        Finset.single_le_sum (fun _ _ => Nat.zero_le _) (Finset.mem_univ r)
      exact h.goOn (Nat.zero_le 1) hclosed (by omega)

theorem Invariant.begin {es : List (Event D)} {s : State R} (h : Invariant leaves base es s)
    (hleaving : Leaving D leaves) {r : R} (hbetween : s.between r = true) (input : D.Input r) :
    Invariant leaves base (es ++ [.begin r input])
      { s.goOn r (D.pass r input) 0 with left := s.left + s.held r } := by
  -- the streams that the last pass has left open
  have hheld : s.held r = if begun r es = 0 then 0 else leaves r := by
    have hends := h.ends r
    rwa [Prog.isDone_iff.1 hbetween] at hends
  refine ⟨?_, ?_, ?_, ?_⟩
  · have hsum := sum_update s.held r 0
    have htotal := h.total
    dsimp only [State.goOn]
    omega
  · exact State.forall_goOn (P := fun _ held _ => held ≤ 1) (p := D.pass r input) (Nat.zero_le 1)
      fun r' _ => h.held_le r'
  · refine State.forall_goOn (P := fun r' held p =>
      Ends held p (if begun r' (es ++ [.begin r input]) = 0 then 0 else leaves r')) ?_ ?_
    · rw [begun_begin_self, if_neg (Nat.succ_ne_zero _)]
      exact hleaving.pass r input
    · intro r' hne
      rw [begun_begin_other hne.symm]
      exact h.ends r'
  · have hothers : ∑ r' ∈ Finset.univ.erase r, leaves r' * (begun r' (es ++ [.begin r input]) - 1) =
        ∑ r' ∈ Finset.univ.erase r, leaves r' * (begun r' es - 1) := by
      refine Finset.sum_congr rfl fun r' hr' => ?_
      rw [begun_begin_other (Finset.ne_of_mem_erase hr').symm]
    have hself : leaves r * (begun r (es ++ [.begin r input]) - 1) =
        leaves r * (begun r es - 1) + s.held r := by
      rw [begun_begin_self, hheld, Nat.add_sub_cancel]
      cases begun r es with
      | zero => rfl
      | succ n => simp [Nat.mul_succ]
    have hleft := h.left_eq
    rw [← Finset.add_sum_erase _ _ (Finset.mem_univ r)] at hleft ⊢
    rw [hothers, hself]
    dsimp only
    omega

/-- The balance of every interleaving. -/
theorem invariant_run (hleaving : Leaving D leaves) {es : List (Event D)} {s : State R}
    (h : run D limit base es = some s) : Invariant leaves base es s := by
  refine Run.runFrom_history (Invariant leaves base) (invariant_start hleaving) ?_ h
  intro es e s s' _ hinv hstep
  unfold step at hstep
  split at hstep
  · cases hstep
  · cases e with
    | begin r input =>
        dsimp only at hstep
        split at hstep
        · next hbetween =>
            cases hstep
            exact hinv.begin hleaving hbetween input
        · cases hstep
    | call r answer => exact hinv.call hstep

/-- The streams that are open are those of the start, those that the passes that are over have
left, and those of the passes under way. -/
theorem Invariant.openStreams_eq {es : List (Event D)} {s : State R}
    (h : Invariant leaves base es s) :
    s.openStreams = base + ∑ r, leaves r * completed r es s +
      ∑ r, if s.between r then 0 else s.held r := by
  have heach : ∀ r, leaves r * (begun r es - 1) + s.held r =
      leaves r * completed r es s + if s.between r then 0 else s.held r := by
    intro r
    unfold completed
    cases hbetween : s.between r with
    | true =>
        have hends := h.ends r
        rw [Prog.isDone_iff.1 hbetween] at hends
        have hheld : s.held r = if begun r es = 0 then 0 else leaves r := hends
        rw [hheld]
        cases begun r es with
        | zero => rfl
        | succ n => simp [Nat.mul_succ]
    | false => rfl
  have hsum := Finset.sum_congr (rfl : (Finset.univ : Finset R) = Finset.univ) fun r _ => heach r
  rw [Finset.sum_add_distrib, Finset.sum_add_distrib] at hsum
  have htotal := h.total
  have hleft := h.left_eq
  omega

/-- The streams are kept exactly as long as no pass that leaves one open is over. -/
theorem Invariant.kept_iff {es : List (Event D)} {s : State R} (h : Invariant leaves base es s) :
    Kept base s ↔ ∀ r, leaves r * completed r es s = 0 := by
  have hopen := h.openStreams_eq
  have hzero : ∑ r, leaves r * completed r es s = 0 ↔ ∀ r, leaves r * completed r es s = 0 := by
    rw [Finset.sum_eq_zero_iff]
    simp
  rw [← hzero]
  constructor
  · intro hkept
    have hkept := hkept.open_eq
    omega
  · intro hnone
    have hkept : s.openStreams = base + ∑ r, if s.between r then 0 else s.held r := by omega
    refine ⟨hkept, h.held_le, ?_⟩
    intro r path mode next hprogram
    -- the routine that calls has none open
    have hends := h.ends r
    rw [hprogram] at hends
    have hlt : ∑ r, (if s.between r then 0 else s.held r) < ∑ _r : R, 1 := by
      refine Finset.sum_lt_sum ?_ ⟨r, Finset.mem_univ r, ?_⟩
      · intro r' _
        split
        · exact Nat.zero_le 1
        · exact h.held_le r'
      · rw [hends.1]
        split <;> exact Nat.zero_lt_one
    rw [← Finset.card_eq_sum_ones, Finset.card_univ] at hlt
    omega

end

end Streams
