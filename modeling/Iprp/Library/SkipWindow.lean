import Mathlib.Order.Interval.Set.Basic

/-!
# Windows of skipped numbers

A receiver that must deliver each number of a linear order at most once, and may
forget, keeps the highest number it has delivered and a set of lower numbers that it
skipped and still remembers. `Step w s b w'` is one verdict `b` on the number `s`: a
number above the highest is delivered and the numbers jumped over may join the
remembered ones; a remembered number is delivered and must leave them; anything else
is refused. Forgetting is always allowed, so every step only bounds the new set from
above.

`Sound w D` ties the window to the set `D` of the numbers delivered so far. A step
from a sound window never delivers a member of `D`.

What a receiver may not forget is a matter of its own: with `Keeps lag` it remembers what it
skipped no more than `lag` below its highest number, and `Remembers` says that it then knows
every such number that was never presented to it.
-/

namespace SkipWindow

/-- The highest delivered number and the remembered numbers below it. -/
structure Window (α : Type*) where
  high : α
  skipped : Set α

/-- The verdict `b` on `s` takes the window `w` to `w'`. -/
inductive Step {α : Type*} [LinearOrder α] (w : Window α) (s : α) :
    Bool → Window α → Prop
  /-- A number above the highest is delivered; those in between may be remembered. -/
  | advance {sk : Set α} (hs : w.high < s) (hsk : sk ⊆ w.skipped ∪ Set.Ioo w.high s) :
      Step w s true ⟨s, sk⟩
  /-- A remembered number is delivered and is no longer remembered. -/
  | late {sk : Set α} (hs : s ∈ w.skipped) (hsk : sk ⊆ w.skipped \ {s}) :
      Step w s true ⟨w.high, sk⟩
  /-- Anything may be refused. -/
  | refuse {sk : Set α} (hsk : sk ⊆ w.skipped) : Step w s false ⟨w.high, sk⟩

/-- The window of a receiver that has delivered the numbers in `D`. -/
structure Sound {α : Type*} [LinearOrder α] (w : Window α) (D : Set α) : Prop where
  delivered_le : ∀ d ∈ D, d ≤ w.high
  skipped_lt : ∀ v ∈ w.skipped, v < w.high
  skipped_new : ∀ v ∈ w.skipped, v ∉ D

/-- The numbers delivered after a verdict. -/
def deliver {α : Type*} (D : Set α) (s : α) (b : Bool) : Set α :=
  if b then insert s D else D

theorem sound_first {α : Type*} [LinearOrder α] {w : Window α}
    (hw : w.skipped ⊆ ∅) : Sound w {w.high} := by
  refine ⟨?_, ?_, ?_⟩
  · intro d hd
    exact le_of_eq hd
  · intro v hv
    exact absurd (hw hv) (Set.notMem_empty v)
  · intro v hv
    exact absurd (hw hv) (Set.notMem_empty v)

theorem Step.notMem_delivered {α : Type*} [LinearOrder α] {w w' : Window α} {s : α}
    {D : Set α} (hw : Sound w D) (h : Step w s true w') : s ∉ D := by
  cases h with
  | advance hs hsk =>
      intro hd
      exact absurd (hw.delivered_le s hd) (not_le.2 hs)
  | late hs hsk => exact hw.skipped_new s hs

theorem Step.skipped_lt {α : Type*} [LinearOrder α] {w w' : Window α} {s : α} {b : Bool}
    (hw : ∀ v ∈ w.skipped, v < w.high) (h : Step w s b w') : ∀ v ∈ w'.skipped, v < w'.high := by
  intro v hv
  cases h with
  | advance hs hsk =>
      rcases hsk hv with hv | hv
      · exact lt_trans (hw v hv) hs
      · exact hv.2
  | late hs hsk => exact hw v (hsk hv).1
  | refuse hsk => exact hw v (hsk hv)

theorem Step.high_eq {α : Type*} [LinearOrder α] {w w' : Window α} {s : α} {b : Bool}
    (h : Step w s b w') : w'.high = s ∨ w'.high = w.high := by
  cases h with
  | advance hs hsk => exact Or.inl rfl
  | late hs hsk => exact Or.inr rfl
  | refuse hsk => exact Or.inr rfl

/-- Every step keeps the window sound. -/
theorem Step.sound {α : Type*} [LinearOrder α] {w w' : Window α} {s : α} {b : Bool}
    {D : Set α} (hw : Sound w D) (h : Step w s b w') : Sound w' (deliver D s b) := by
  have hlt : ∀ v ∈ w'.skipped, v < w'.high := h.skipped_lt hw.skipped_lt
  cases h with
  | advance hs hsk =>
      refine ⟨?_, hlt, ?_⟩
      · rintro d (rfl | hd)
        · exact le_rfl
        · exact le_of_lt (lt_of_le_of_lt (hw.delivered_le d hd) hs)
      · rintro v hv (rfl | hd)
        · rcases hsk hv with hv | hv
          · exact absurd (hw.skipped_lt v hv) (not_lt_of_gt hs)
          · exact absurd hv.2 (lt_irrefl v)
        · rcases hsk hv with hv | hv
          · exact hw.skipped_new v hv hd
          · exact absurd (hw.delivered_le v hd) (not_le.2 hv.1)
  | late hs hsk =>
      refine ⟨?_, hlt, ?_⟩
      · rintro d (rfl | hd)
        · exact le_of_lt (hw.skipped_lt d hs)
        · exact hw.delivered_le d hd
      · rintro v hv (rfl | hd)
        · exact (hsk hv).2 rfl
        · exact hw.skipped_new v (hsk hv).1 hd
  | refuse hsk =>
      refine ⟨hw.delivered_le, hlt, ?_⟩
      intro v hv
      exact hw.skipped_new v (hsk hv)

/-- From `w` to `w'` on the number `s`, nothing but `s` is forgotten that is within `lag` of the
highest number. -/
structure Keeps {α : Type*} [LinearOrder α] [Add α] (lag : α) (w : Window α) (s : α)
    (w' : Window α) : Prop where
  high_le : w.high ≤ w'.high
  skipped : ∀ v, v ∈ w.skipped ∨ w.high < v → v < w'.high → v ≠ s → w'.high ≤ v + lag →
    v ∈ w'.skipped

/-- Every number above `base` and within `lag` of the highest that is not in `P`, the set of the
numbers presented so far, is remembered. -/
def Remembers {α : Type*} [LinearOrder α] [Add α] (lag base : α) (w : Window α) (P : Set α) :
    Prop :=
  ∀ v, base < v → v < w.high → w.high ≤ v + lag → v ∉ P → v ∈ w.skipped

theorem remembers_first {α : Type*} [LinearOrder α] [Add α] (lag : α) (w : Window α)
    (P : Set α) : Remembers lag w.high w P := by
  intro v hv hlt
  exact absurd hlt (not_lt_of_gt hv)

theorem Keeps.remembers {α : Type*} [LinearOrder α] [Add α] {lag base : α} {w w' : Window α}
    {s : α} {P : Set α} (hw : Remembers lag base w P) (hhigh : w.high ∈ P)
    (h : Keeps lag w s w') : Remembers lag base w' (insert s P) := by
  intro v hbase hlt hlag hnew
  have hne : v ≠ s := fun heq => hnew (Or.inl heq)
  have hP : v ∉ P := fun hv => hnew (Or.inr hv)
  refine h.skipped v ?_ hlt hne hlag
  rcases lt_trichotomy v w.high with hbelow | rfl | habove
  · exact Or.inl (hw v hbase hbelow (le_trans h.high_le hlag) hP)
  · exact absurd hhigh hP
  · exact Or.inr habove

end SkipWindow
