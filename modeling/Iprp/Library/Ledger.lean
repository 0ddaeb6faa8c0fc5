import Mathlib.Data.Int.Notation
import Mathlib.Data.List.Induction
import Iprp.Library.Run

/-!
# Logs of additions and removals

A collection that can hold an item more than once is changed by operations that add an item or
remove one copy of it. Removing an item that is not there leaves the collection as it is.
`content` is what a log of operations leaves of the empty collection, and `balance` how much more
often an item was added than removed. The two agree for an item as long as no operation adds it
while it is there or removes it while it is not (`balance_eq_count`).
-/

namespace Ledger

variable {α : Type*} [DecidableEq α]

structure Op (α : Type*) where
  item : α
  adds : Bool
  deriving DecidableEq

def perform (l : List α) (op : Op α) : List α :=
  if op.adds then l ++ [op.item] else l.erase op.item

def content (log : List (Op α)) : List α := log.foldl perform []

/-- How often an item was added, less how often it was removed. -/
def balance (a : α) (log : List (Op α)) : ℤ :=
  log.count ⟨a, true⟩ - log.count ⟨a, false⟩

/-- The operations on items with `P` add what is not there and remove what is. -/
def Proper (P : α → Prop) (log : List (Op α)) : Prop :=
  ∀ i op, log[i]? = some op → P op.item → (op.adds = true ↔ op.item ∉ content (log.take i))

theorem content_concat (log : List (Op α)) (op : Op α) :
    content (log ++ [op]) = perform (content log) op := by
  rw [content, List.foldl_append]
  rfl

theorem count_content_add (a b : α) (log : List (Op α)) :
    (content (log ++ [⟨b, true⟩])).count a =
      (content log).count a + if b = a then 1 else 0 := by
  rw [content_concat, perform, if_pos rfl, List.count_append, List.count_singleton]
  simp only [beq_iff_eq]

theorem count_content_remove (a b : α) (log : List (Op α)) :
    (content (log ++ [⟨b, false⟩])).count a =
      (content log).count a - if b = a then 1 else 0 := by
  rw [content_concat, perform, if_neg Bool.false_ne_true, List.count_erase]
  simp only [beq_iff_eq]

theorem balance_add (a b : α) (log : List (Op α)) :
    balance a (log ++ [⟨b, true⟩]) = balance a log + if b = a then 1 else 0 := by
  unfold balance
  rw [List.count_append, List.count_append, List.count_singleton, List.count_singleton]
  by_cases h : b = a
  · simp [h]
    omega
  · simp [h]

theorem balance_remove (a b : α) (log : List (Op α)) :
    balance a (log ++ [⟨b, false⟩]) = balance a log - if b = a then 1 else 0 := by
  unfold balance
  rw [List.count_append, List.count_append, List.count_singleton, List.count_singleton]
  by_cases h : b = a
  · simp [h]
    omega
  · simp [h]

theorem proper_nil (P : α → Prop) : Proper P [] := by
  intro i op hop
  cases hop

theorem proper_concat {P : α → Prop} {log : List (Op α)} {op : Op α} :
    Proper P (log ++ [op]) ↔
      Proper P log ∧ (P op.item → (op.adds = true ↔ op.item ∉ content log)) := by
  constructor
  · intro h
    constructor
    · intro i op' hop'
      have hi : i < log.length := (List.getElem?_eq_some_iff.1 hop').1
      have hold := h i op' (by rw [List.getElem?_append_left hi, hop'])
      rwa [List.take_append_of_le_length (Nat.le_of_lt hi)] at hold
    · have hnew := h log.length op List.getElem?_concat_length
      rwa [List.take_left] at hnew
  · rintro ⟨hold, hnew⟩ i op' hop'
    rcases Run.getElem?_concat_cases hop' with h | ⟨rfl, rfl⟩
    · have hi : i < log.length := (List.getElem?_eq_some_iff.1 h).1
      rw [List.take_append_of_le_length (Nat.le_of_lt hi)]
      exact hold i op' h
    · rw [List.take_left]
      exact hnew

/-- Additions and removals that are all carried out leave their difference. -/
theorem balance_eq_count {P : α → Prop} {log : List (Op α)} (h : Proper P log) {a : α}
    (ha : P a) : balance a log = (content log).count a := by
  induction log using List.reverseRecOn with
  | nil => rfl
  | append_singleton log op ih =>
      obtain ⟨hlog, hop⟩ := proper_concat.1 h
      obtain ⟨b, adds⟩ := op
      cases adds with
      | true =>
          rw [balance_add, count_content_add, ih hlog]
          by_cases hb : b = a
          · rw [if_pos hb, if_pos hb]
            rfl
          · rw [if_neg hb, if_neg hb]
            rfl
      | false =>
          rw [balance_remove, count_content_remove, ih hlog]
          by_cases hb : b = a
          · subst hb
            have hmem : b ∈ content log := by
              by_contra hnot
              exact Bool.false_ne_true ((hop ha).2 hnot)
            have hpos : 0 < (content log).count b := List.count_pos_iff.2 hmem
            rw [if_pos rfl, if_pos rfl]
            omega
          · rw [if_neg hb, if_neg hb]
            rfl

end Ledger
