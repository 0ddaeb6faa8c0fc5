import Iprp.Library.Mutex
import Mathlib.Order.Nat

/-!
# A flag that is set outside the mutex

A producer goes through passes: it enters and leaves a critical section, sets a flag and signals
a condition variable, the last two without the mutex. A consumer waits for the flag in the usual
loop, with the mutex held, and uses the critical section afterwards. `Step` has the atomic steps
of both, `pthread_cond_wait` in two halves and with wake-ups that nobody has signalled.

Since the flag is set without the mutex, the consumer can find it unset, the producer can set it
and signal, and only then the consumer blocks: the wake-up is lost. Before it blocks the producer
cannot enter its critical section again, so that this happens to the first signal only: a
consumer that waits has missed at most one (`Inv.waiting`).
-/

namespace Latch

open Mutex

inductive Thread where
  | producer
  | consumer
  deriving DecidableEq

/-- Where the producer is in its pass. -/
inductive Producer where
  /-- Outside, before its critical section. -/
  | start
  | locked
  /-- Behind the critical section, before it sets the flag. -/
  | unlocked
  /-- The flag is set, and the signal follows. -/
  | set
  deriving DecidableEq

inductive Consumer where
  | lock
  /-- About to look at the flag, with the mutex. -/
  | check
  /-- It has found the flag unset and still holds the mutex. -/
  | wait
  | blocked
  | relock
  /-- It has found the flag set and still holds the mutex. -/
  | leave
  /-- Past the wait and outside the critical section. -/
  | out
  | inside
  deriving DecidableEq

structure State where
  holder : Option Thread
  flag : Bool
  signals : ℕ
  producer : Producer
  consumer : Consumer
  deriving DecidableEq

def init : State := ⟨none, false, 0, .start, .lock⟩

/-- What the signal does to the consumer. -/
def Consumer.signalled : Consumer → Consumer
  | .blocked => .relock
  | c => c

/-- The atomic steps. -/
inductive Step : State → State → Prop
  | enter {s m} (hs : s.producer = .start) (hm : acquire .producer s.holder = some m) :
      Step s { s with holder := m, producer := .locked }
  | leave {s} (hs : s.producer = .locked) :
      Step s { s with holder := release s.holder, producer := .unlocked }
  | set {s} (hs : s.producer = .unlocked) : Step s { s with flag := true, producer := .set }
  | signal {s} (hs : s.producer = .set) :
      Step s { s with
        signals := s.signals + 1
        producer := .start
        consumer := s.consumer.signalled }
  | lock {s m} (hs : s.consumer = .lock ∨ s.consumer = .relock)
      (hm : acquire .consumer s.holder = some m) :
      Step s { s with holder := m, consumer := .check }
  | check {s} (hs : s.consumer = .check) :
      Step s { s with consumer := if s.flag then .leave else .wait }
  | wait {s} (hs : s.consumer = .wait) :
      Step s { s with holder := release s.holder, consumer := .blocked }
  /-- A wake-up that nobody has signalled. -/
  | spurious {s} (hs : s.consumer = .blocked) : Step s { s with consumer := .relock }
  | pass {s} (hs : s.consumer = .leave) :
      Step s { s with holder := release s.holder, consumer := .out }
  | acquire {s m} (hs : s.consumer = .out) (hm : acquire .consumer s.holder = some m) :
      Step s { s with holder := m, consumer := .inside }
  | release {s} (hs : s.consumer = .inside) :
      Step s { s with holder := release s.holder, consumer := .out }

/-- The consumer is in one of its critical sections. -/
def Consumer.Inside (c : Consumer) : Prop :=
  c = .check ∨ c = .wait ∨ c = .leave ∨ c = .inside

/-- Who is inside a critical section. -/
def State.Inside (s : State) : Thread → Prop
  | .producer => s.producer = .locked
  | .consumer => s.consumer.Inside

/-- What holds in every reachable state. -/
structure Inv (s : State) : Prop where
  exclusive : Exclusive s.holder s.Inside
  confined : Confined s.holder s.Inside
  unset : s.flag = false → s.signals = 0 ∧ s.producer ≠ .set
  passed : s.consumer = .leave ∨ s.consumer = .out ∨ s.consumer = .inside → s.flag = true
  /-- A consumer on its way to block has missed the one signal behind which the producer waits
  for the mutex, or none. -/
  missed : s.consumer = .wait → s.signals = 0 ∨ s.signals = 1 ∧ s.producer = .start
  waiting : s.consumer = .blocked → s.signals ≤ 1

theorem inv_init : Inv init := by
  refine ⟨?_, nofun, fun _ => ⟨rfl, nofun⟩, nofun, nofun, nofun⟩
  intro t ht
  cases t with
  | producer => cases ht
  | consumer => rcases ht with h | h | h | h <;> cases h

theorem Inv.flag_of_set {s : State} (h : Inv s) (hs : s.producer = .set) : s.flag = true := by
  cases hflag : s.flag with
  | true => rfl
  | false => exact absurd hs (h.unset hflag).2

theorem Inv.holder_of_wait {s : State} (h : Inv s) (hs : s.consumer = .wait) :
    s.holder = some .consumer :=
  h.exclusive .consumer (Or.inr (Or.inl hs))

theorem Inv.moveProducer {s : State} (h : Inv s) {m : Option Thread} {p : Producer}
    (hexclusive : Exclusive m (State.Inside { s with holder := m, producer := p }))
    (hconfined : Confined m (State.Inside { s with holder := m, producer := p }))
    (hset : p ≠ .set) (hwait : s.consumer = .wait → s.signals = 0) :
    Inv { s with holder := m, producer := p } :=
  ⟨hexclusive, hconfined, fun hflag => ⟨(h.unset hflag).1, hset⟩, h.passed,
    fun hc => Or.inl (hwait hc), h.waiting⟩

theorem Inv.moveConsumer {s : State} (h : Inv s) {m : Option Thread} {c : Consumer}
    (hexclusive : Exclusive m (State.Inside { s with holder := m, consumer := c }))
    (hconfined : Confined m (State.Inside { s with holder := m, consumer := c }))
    (hpassed : c = .leave ∨ c = .out ∨ c = .inside → s.flag = true)
    (hwait : c ≠ .wait) (hblocked : c ≠ .blocked) :
    Inv { s with holder := m, consumer := c } :=
  ⟨hexclusive, hconfined, h.unset, hpassed, fun hc => absurd hc hwait,
    fun hc => absurd hc hblocked⟩

theorem signalled_inside (c : Consumer) : c.signalled.Inside ↔ c.Inside := by
  cases c with
  | blocked => simp [Consumer.signalled, Consumer.Inside]
  | _ => exact Iff.rfl

theorem signalled_wait {c : Consumer} (h : c.signalled = .wait) : c = .wait := by
  cases c with
  | wait => rfl
  | _ => cases h

theorem signalled_ne_blocked (c : Consumer) : c.signalled ≠ .blocked := by
  cases c with
  | _ => nofun

/-! ## The steps -/

theorem Inv.enter {s : State} (hs : Inv s) {m : Option Thread}
    (hm : Mutex.acquire .producer s.holder = some m) :
    Inv { s with holder := m, producer := .locked } := by
  refine hs.moveProducer (hs.exclusive.acquire hm ?_) (Confined.acquire hm rfl) nofun ?_
  · rintro (_ | _) hin
    · exact Or.inl rfl
    · exact Or.inr hin
  · intro hwait
    rw [hs.holder_of_wait hwait] at hm
    cases hm

theorem Inv.leave {s : State} (hs : Inv s) (hpc : s.producer = .locked) :
    Inv { s with holder := release s.holder, producer := .unlocked } := by
  refine hs.moveProducer (hs.exclusive.release (t := .producer) hpc ?_)
    (Confined.release s.holder _) nofun ?_
  · rintro (_ | _) hin
    · cases hin
    · exact ⟨nofun, hin⟩
  · intro hwait
    have hholder := hs.exclusive .producer hpc
    rw [hs.holder_of_wait hwait] at hholder
    cases hholder

theorem Inv.set {s : State} (hs : Inv s) (hpc : s.producer = .unlocked) :
    Inv { s with flag := true, producer := .set } := by
  refine ⟨hs.exclusive.mono ?_, hs.confined.mono ?_, nofun, fun _ => rfl, ?_, hs.waiting⟩
  · rintro (_ | _) hin
    · cases hin
    · exact hin
  · rintro (_ | _) hin
    · exact absurd (hpc.symm.trans hin) nofun
    · exact hin
  · intro hwait
    rcases hs.missed hwait with hzero | ⟨-, hstart⟩
    · exact Or.inl hzero
    · rw [hpc] at hstart
      cases hstart

theorem Inv.signal {s : State} (hs : Inv s) (hpc : s.producer = .set) :
    Inv { s with
      signals := s.signals + 1
      producer := .start
      consumer := s.consumer.signalled } := by
  have hflag := hs.flag_of_set hpc
  refine ⟨hs.exclusive.mono ?_, hs.confined.mono ?_, fun hunset => ?_, fun _ => hflag,
    fun hwait => ?_, fun hblocked => absurd hblocked (signalled_ne_blocked s.consumer)⟩
  · rintro (_ | _) hin
    · cases hin
    · exact (signalled_inside s.consumer).1 hin
  · rintro (_ | _) hin
    · exact absurd (hpc.symm.trans hin) nofun
    · exact (signalled_inside s.consumer).2 hin
  · exact absurd (hflag.symm.trans hunset) nofun
  · rcases hs.missed (signalled_wait hwait) with hzero | ⟨-, hstart⟩
    · exact Or.inr ⟨congrArg (· + 1) hzero, rfl⟩
    · rw [hpc] at hstart
      cases hstart

theorem Inv.lock {s : State} (hs : Inv s) {m : Option Thread}
    (hm : Mutex.acquire .consumer s.holder = some m) :
    Inv { s with holder := m, consumer := .check } := by
  refine hs.moveConsumer (hs.exclusive.acquire hm ?_) (Confined.acquire hm (Or.inl rfl))
    nofun nofun nofun
  rintro (_ | _) hin
  · exact Or.inr hin
  · exact Or.inl rfl

theorem Inv.check {s : State} (hs : Inv s) (hpc : s.consumer = .check) :
    Inv { s with consumer := if s.flag then .leave else .wait } := by
  have hholder := hs.exclusive .consumer (Or.inl hpc)
  have hexclusive : ∀ c, Exclusive s.holder (State.Inside { s with consumer := c }) := by
    rintro c (_ | _) hin
    · exact hs.exclusive .producer hin
    · exact hholder
  have hconfined : ∀ c : Consumer, c.Inside →
      Confined s.holder (State.Inside { s with consumer := c }) := by
    rintro c hc (_ | _) hin
    · exact hs.confined .producer hin
    · exact hc
  by_cases hflag : s.flag = true
  · rw [if_pos hflag]
    exact hs.moveConsumer (hexclusive .leave)
      (hconfined .leave (Or.inr (Or.inr (Or.inl rfl)))) (fun _ => hflag) nofun nofun
  · have hunset : s.flag = false := Bool.eq_false_iff.2 hflag
    rw [if_neg hflag]
    exact ⟨hexclusive .wait, hconfined .wait (Or.inr (Or.inl rfl)),
      fun _ => hs.unset hunset, nofun, fun _ => Or.inl (hs.unset hunset).1, nofun⟩

theorem Inv.wait {s : State} (hs : Inv s) (hpc : s.consumer = .wait) :
    Inv { s with holder := release s.holder, consumer := .blocked } := by
  refine ⟨hs.exclusive.release (t := .consumer) (Or.inr (Or.inl hpc)) ?_,
    Confined.release s.holder _, hs.unset, nofun, nofun, fun _ => ?_⟩
  · rintro (_ | _) hin
    · exact ⟨nofun, hin⟩
    · rcases hin with h | h | h | h <;> cases h
  · rcases hs.missed hpc with hzero | ⟨hone, -⟩
    · exact le_of_eq_of_le hzero (Nat.zero_le 1)
    · exact le_of_eq hone

theorem Inv.spurious {s : State} (hs : Inv s) (hpc : s.consumer = .blocked) :
    Inv { s with consumer := .relock } := by
  refine hs.moveConsumer (hs.exclusive.mono ?_) (hs.confined.mono ?_) nofun nofun nofun
  · rintro (_ | _) hin
    · exact hin
    · rcases hin with h | h | h | h <;> cases h
  · rintro (_ | _) hin
    · exact hin
    · rcases hin with h | h | h | h <;> exact absurd (hpc.symm.trans h) nofun

theorem Inv.goOut {s : State} (hs : Inv s) (hpc : s.consumer = .leave ∨ s.consumer = .inside) :
    Inv { s with holder := release s.holder, consumer := .out } := by
  have hin : s.Inside .consumer := by
    rcases hpc with hpc | hpc
    · exact Or.inr (Or.inr (Or.inl hpc))
    · exact Or.inr (Or.inr (Or.inr hpc))
  refine hs.moveConsumer (hs.exclusive.release hin ?_) (Confined.release s.holder _)
    (fun _ => hs.passed (hpc.imp id Or.inr)) nofun nofun
  rintro (_ | _) hin
  · exact ⟨nofun, hin⟩
  · rcases hin with h | h | h | h <;> cases h

theorem Inv.acquire {s : State} (hs : Inv s) (hpc : s.consumer = .out) {m : Option Thread}
    (hm : Mutex.acquire .consumer s.holder = some m) :
    Inv { s with holder := m, consumer := .inside } := by
  refine hs.moveConsumer (hs.exclusive.acquire hm ?_)
    (Confined.acquire hm (Or.inr (Or.inr (Or.inr rfl))))
    (fun _ => hs.passed (Or.inr (Or.inl hpc))) nofun nofun
  rintro (_ | _) hin
  · exact Or.inr hin
  · exact Or.inl rfl

theorem Step.inv {s s' : State} (hs : Inv s) (h : Step s s') : Inv s' := by
  cases h with
  | enter _ hm => exact hs.enter hm
  | leave hpc => exact hs.leave hpc
  | set hpc => exact hs.set hpc
  | signal hpc => exact hs.signal hpc
  | lock _ hm => exact hs.lock hm
  | check hpc => exact hs.check hpc
  | wait hpc => exact hs.wait hpc
  | spurious hpc => exact hs.spurious hpc
  | pass hpc => exact hs.goOut (Or.inl hpc)
  | acquire hpc hm => exact hs.acquire hpc hm
  | release hpc => exact hs.goOut (Or.inr hpc)

end Latch
