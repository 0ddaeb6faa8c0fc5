import Mathlib.Data.Finset.Basic

/-!
# Sets of held resources

Resources of `α` are acquired and released one at a time. Acquiring one that is held is an
error, and so is releasing one that is not held; the result `none` stands for the error. The
lemmas say when the operations of a list go through and what is held afterwards. `replace_spec`
is about bringing a part of what is held from one list of resources to another one.
-/

namespace HeldSet

variable {α : Type*} [DecidableEq α]

def acquire (a : α) (held : Finset α) : Option (Finset α) :=
  if a ∈ held then none else some (insert a held)

def release (a : α) (held : Finset α) : Option (Finset α) :=
  if a ∈ held then some (held.erase a) else none

/-- Acquires the resources of a list in order. -/
def acquireAll (l : List α) (held : Finset α) : Option (Finset α) :=
  l.foldlM (fun held a => acquire a held) held

/-- Releases the resources of a list in order. -/
def releaseAll (l : List α) (held : Finset α) : Option (Finset α) :=
  l.foldlM (fun held a => release a held) held

theorem acquireAll_spec {l : List α} {held : Finset α} (hnodup : l.Nodup)
    (hfree : ∀ a ∈ l, a ∉ held) :
    ∃ held', acquireAll l held = some held' ∧ ∀ a, a ∈ held' ↔ a ∈ held ∨ a ∈ l := by
  induction l generalizing held with
  | nil => exact ⟨held, rfl, by simp⟩
  | cons b l ih =>
      obtain ⟨hb, hl⟩ := List.nodup_cons.1 hnodup
      have hstep : acquire b held = some (insert b held) :=
        if_neg (hfree b List.mem_cons_self)
      have hrest : ∀ a ∈ l, a ∉ insert b held := by
        intro a ha hmem
        rcases Finset.mem_insert.1 hmem with rfl | hheld
        · exact hb ha
        · exact hfree a (List.mem_cons_of_mem b ha) hheld
      obtain ⟨held', hheld', hiff⟩ := ih hl hrest
      refine ⟨held', ?_, ?_⟩
      · rw [acquireAll, List.foldlM_cons, hstep]
        exact hheld'
      · intro a
        rw [hiff, Finset.mem_insert, List.mem_cons]
        tauto

theorem releaseAll_spec {l : List α} {held : Finset α} (hnodup : l.Nodup)
    (hheld : ∀ a ∈ l, a ∈ held) :
    ∃ held', releaseAll l held = some held' ∧ ∀ a, a ∈ held' ↔ a ∈ held ∧ a ∉ l := by
  induction l generalizing held with
  | nil => exact ⟨held, rfl, by simp⟩
  | cons b l ih =>
      obtain ⟨hb, hl⟩ := List.nodup_cons.1 hnodup
      have hstep : release b held = some (held.erase b) :=
        if_pos (hheld b List.mem_cons_self)
      have hrest : ∀ a ∈ l, a ∈ held.erase b := by
        intro a ha
        have hne : a ≠ b := fun h => hb (h ▸ ha)
        exact Finset.mem_erase.2 ⟨hne, hheld a (List.mem_cons_of_mem b ha)⟩
      obtain ⟨held', hheld', hiff⟩ := ih hl hrest
      refine ⟨held', ?_, ?_⟩
      · rw [releaseAll, List.foldlM_cons, hstep]
        exact hheld'
      · intro a
        rw [hiff, Finset.mem_erase, List.mem_cons]
        tauto

/-- Going from the resources `old` to the resources `new`: those that are not in `new` are
released, those that were not in `old` are acquired, and what else is held stays so. -/
theorem replace_spec {old new : List α} {held : Finset α} {other : α → Prop} {p q : α → Bool}
    (hold : old.Nodup) (hnew : new.Nodup) (hp : ∀ a ∈ old, p a = true ↔ a ∉ new)
    (hq : ∀ a ∈ new, q a = true ↔ a ∉ old) (hheld : ∀ a, a ∈ held ↔ other a ∨ a ∈ old)
    (hapart : ∀ a, a ∈ old ∨ a ∈ new → ¬ other a) :
    ∃ held', (releaseAll (old.filter p) held).bind (acquireAll (new.filter q)) = some held' ∧
      ∀ a, a ∈ held' ↔ other a ∨ a ∈ new := by
  obtain ⟨held₁, hreleased, hiff₁⟩ := releaseAll_spec (hold.filter p)
    (fun a ha => (hheld a).2 (Or.inr (List.mem_filter.1 ha).1))
  have hmem₁ : ∀ a, a ∈ held₁ ↔ other a ∨ (a ∈ old ∧ a ∈ new) := by
    intro a
    rw [hiff₁, hheld, List.mem_filter]
    constructor
    · rintro ⟨hother | haold, hkept⟩
      · exact Or.inl hother
      · refine Or.inr ⟨haold, ?_⟩
        by_contra hnot
        exact hkept ⟨haold, (hp a haold).2 hnot⟩
    · rintro (hother | ⟨haold, hanew⟩)
      · exact ⟨Or.inl hother, fun h => hapart a (Or.inl h.1) hother⟩
      · exact ⟨Or.inr haold, fun h => (hp a haold).1 h.2 hanew⟩
  have hfree : ∀ a ∈ new.filter q, a ∉ held₁ := by
    intro a ha hmem
    obtain ⟨hanew, hqa⟩ := List.mem_filter.1 ha
    rcases (hmem₁ a).1 hmem with hother | ⟨haold, -⟩
    · exact hapart a (Or.inr hanew) hother
    · exact (hq a hanew).1 hqa haold
  obtain ⟨held', hacquired, hiff'⟩ := acquireAll_spec (hnew.filter q) hfree
  refine ⟨held', ?_, ?_⟩
  · rw [hreleased, Option.bind_some, hacquired]
  · intro a
    rw [hiff', hmem₁, List.mem_filter]
    constructor
    · rintro ((hother | ⟨-, hanew⟩) | ⟨hanew, -⟩)
      · exact Or.inl hother
      · exact Or.inr hanew
      · exact Or.inr hanew
    · rintro (hother | hanew)
      · exact Or.inl (Or.inl hother)
      · by_cases haold : a ∈ old
        · exact Or.inl (Or.inr ⟨haold, hanew⟩)
        · exact Or.inr ⟨hanew, (hq a hanew).2 haold⟩

end HeldSet
