import Mathlib.Logic.Basic
import Mathlib.Data.Option.Basic

/-!
# A mutex and its critical sections

A mutex that is not recursive is the thread that holds it, if any: `acquire` has no
result while it is held, by whichever thread, and `release` frees it. A program is
described by the threads that are inside their critical sections. `Exclusive` says that
each of them holds the mutex, which every program keeps that enters by `acquire` and
releases on its way out only; `Confined` says that nobody else holds it, which a way out
without `release` breaks.
-/

namespace Mutex

/-- Taking the mutex, possible only while it is free. -/
def acquire {τ : Type*} (t : τ) : Option τ → Option (Option τ)
  | none => some (some t)
  | some _ => none

theorem acquire_eq_some_iff {τ : Type*} {t : τ} {m m' : Option τ} :
    acquire t m = some m' ↔ m = none ∧ m' = some t := by
  cases m with
  | none => simp [acquire, eq_comm]
  | some u => simp [acquire]

def release {τ : Type*} (_ : Option τ) : Option τ := none

/-- A thread inside its critical section holds the mutex. -/
def Exclusive {τ : Type*} (m : Option τ) (inside : τ → Prop) : Prop :=
  ∀ t, inside t → m = some t

/-- The mutex is held by a thread inside its critical section only. -/
def Confined {τ : Type*} (m : Option τ) (inside : τ → Prop) : Prop :=
  ∀ t, m = some t → inside t

theorem Exclusive.unique {τ : Type*} {m : Option τ} {inside : τ → Prop}
    (h : Exclusive m inside) {t u : τ} (ht : inside t) (hu : inside u) : t = u :=
  Option.some.inj ((h t ht).symm.trans (h u hu))

theorem Exclusive.mono {τ : Type*} {m : Option τ} {inside inside' : τ → Prop}
    (h : Exclusive m inside) (hin : ∀ t, inside' t → inside t) : Exclusive m inside' :=
  fun t ht => h t (hin t ht)

theorem Exclusive.acquire {τ : Type*} {m m' : Option τ} {inside inside' : τ → Prop}
    {t : τ} (h : Exclusive m inside) (hacq : Mutex.acquire t m = some m')
    (hin : ∀ u, inside' u → u = t ∨ inside u) : Exclusive m' inside' := by
  obtain ⟨rfl, rfl⟩ := acquire_eq_some_iff.1 hacq
  intro u hu
  rcases hin u hu with rfl | hu
  · rfl
  · cases h u hu

theorem Exclusive.release {τ : Type*} {m : Option τ} {inside inside' : τ → Prop} {t : τ}
    (h : Exclusive m inside) (ht : inside t)
    (hin : ∀ u, inside' u → u ≠ t ∧ inside u) : Exclusive (release m) inside' := by
  intro u hu
  obtain ⟨hne, hu⟩ := hin u hu
  exact absurd (h.unique hu ht) hne

theorem Confined.mono {τ : Type*} {m : Option τ} {inside inside' : τ → Prop}
    (h : Confined m inside) (hin : ∀ t, inside t → inside' t) : Confined m inside' :=
  fun t ht => hin t (h t ht)

theorem Confined.acquire {τ : Type*} {m m' : Option τ} {inside' : τ → Prop} {t : τ}
    (hacq : Mutex.acquire t m = some m') (ht : inside' t) : Confined m' inside' := by
  obtain ⟨_, rfl⟩ := acquire_eq_some_iff.1 hacq
  intro u hu
  rwa [← Option.some.inj hu]

theorem Confined.release {τ : Type*} (m : Option τ) (inside' : τ → Prop) :
    Confined (release m) inside' := by
  intro u hu
  cases hu

theorem Confined.acquire_of_outside {τ : Type*} {m : Option τ} {inside : τ → Prop}
    (h : Confined m inside) (hout : ∀ t, ¬ inside t) (t : τ) :
    Mutex.acquire t m = some (some t) := by
  cases m with
  | none => rfl
  | some u => exact absurd (h u rfl) (hout u)

end Mutex
