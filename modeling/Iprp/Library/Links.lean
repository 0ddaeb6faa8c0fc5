import Mathlib.Data.List.Induction
import Mathlib.Logic.Function.Basic

/-!
# Doubly linked nodes

A heap maps addresses to nodes with two links. `Segment h prev l next` says that the entries of
`l`, addresses with values, lie in the heap in this order, linked in both directions, between a
node `prev` before them and a node `next` after them, either of which may be the null pointer. A
segment is cut and joined by `segment_append`; a change of the heap elsewhere leaves it
(`Segment.congr`), and the links at its ends are moved by `Segment.setPrev` and
`Segment.setNext`.

`Walk` follows one of the links up to the null pointer. Over a whole list the two walks yield its
values in the two orders (`Segment.walk_next`, `Segment.walk_prev`).
-/

namespace Links

structure Node (ι α : Type*) where
  elem : α
  prev : Option ι
  next : Option ι

abbrev Heap (ι α : Type*) := ι → Option (Node ι α)

variable {ι α : Type*}

/-- The first address of `l`, or the one after it. -/
def first : List (ι × α) → Option ι → Option ι
  | [], next => next
  | (a, _) :: _, _ => some a

/-- The last address of `l`, or the one before it. -/
def last : Option ι → List (ι × α) → Option ι
  | prev, [] => prev
  | _, (a, _) :: l => last (some a) l

@[simp] theorem first_cons (p : ι × α) (l : List (ι × α)) (next : Option ι) :
    first (p :: l) next = some p.1 := rfl

theorem first_append (l l' : List (ι × α)) (next : Option ι) :
    first (l ++ l') next = first l (first l' next) := by
  cases l with
  | nil => rfl
  | cons p l => rfl

@[simp] theorem last_cons (prev : Option ι) (p : ι × α) (l : List (ι × α)) :
    last prev (p :: l) = last (some p.1) l := rfl

@[simp] theorem last_concat (prev : Option ι) (l : List (ι × α)) (p : ι × α) :
    last prev (l ++ [p]) = some p.1 := by
  induction l generalizing prev with
  | nil => rfl
  | cons q l ih => exact ih (some q.1)

theorem last_append (prev : Option ι) (l l' : List (ι × α)) :
    last prev (l ++ l') = last (last prev l) l' := by
  induction l generalizing prev with
  | nil => rfl
  | cons p l ih => exact ih (some p.1)

theorem first_of_ne_nil {l : List (ι × α)} (hl : l ≠ []) (next : Option ι) :
    first l next = first l none := by
  cases l with
  | nil => exact absurd rfl hl
  | cons p l => rfl

theorem first_eq_none_iff (l : List (ι × α)) : first l none = none ↔ l = [] := by
  cases l with
  | nil => exact iff_of_true rfl rfl
  | cons p l => exact iff_of_false (Option.some_ne_none _) (List.cons_ne_nil _ _)

theorem last_eq_none_iff (l : List (ι × α)) : last none l = none ↔ l = [] := by
  cases l using List.reverseRecOn with
  | nil => exact iff_of_true rfl rfl
  | append_singleton l p =>
      rw [last_concat]
      exact iff_of_false (Option.some_ne_none _) (List.concat_ne_nil p l)

/-! ## Segments -/

/-- The nodes of `l` between `prev` and `next`. -/
def Segment (h : Heap ι α) : Option ι → List (ι × α) → Option ι → Prop
  | _, [], _ => True
  | prev, (a, x) :: l, next => h a = some ⟨x, prev, first l next⟩ ∧ Segment h (some a) l next

theorem segment_cons {h : Heap ι α} {prev next : Option ι} {p : ι × α} {l : List (ι × α)} :
    Segment h prev (p :: l) next ↔
      h p.1 = some ⟨p.2, prev, first l next⟩ ∧ Segment h (some p.1) l next := Iff.rfl

theorem segment_singleton {h : Heap ι α} {prev next : Option ι} {p : ι × α} :
    Segment h prev [p] next ↔ h p.1 = some ⟨p.2, prev, next⟩ := and_iff_left trivial

/-- Both parts, each with the neighbouring end of the other. -/
theorem segment_append {h : Heap ι α} {prev next : Option ι} {l l' : List (ι × α)} :
    Segment h prev (l ++ l') next ↔
      Segment h prev l (first l' next) ∧ Segment h (last prev l) l' next := by
  induction l generalizing prev with
  | nil => exact (and_iff_right trivial).symm
  | cons p l ih =>
      rw [List.cons_append, segment_cons, segment_cons, ih, first_append, last_cons, and_assoc]

/-- A segment does not see the rest of the heap. -/
theorem Segment.congr {h h' : Heap ι α} {prev next : Option ι} {l : List (ι × α)}
    (hl : Segment h prev l next) (hsame : ∀ p ∈ l, h' p.1 = h p.1) : Segment h' prev l next := by
  induction l generalizing prev with
  | nil => trivial
  | cons p l ih =>
      obtain ⟨hp, hl⟩ := hl
      exact ⟨(hsame p List.mem_cons_self).trans hp,
        ih hl fun q hq => hsame q (List.mem_cons_of_mem p hq)⟩

/-! ## Walks -/

/-- Following a link from a node up to the null pointer yields the given values. -/
def Walk (link : Node ι α → Option ι) (h : Heap ι α) : Option ι → List α → Prop
  | p, [] => p = none
  | p, x :: xs => ∃ a node, p = some a ∧ h a = some node ∧ node.elem = x ∧
      Walk link h (link node) xs

theorem Segment.walk_next {h : Heap ι α} {prev : Option ι} {l : List (ι × α)}
    (hl : Segment h prev l none) : Walk Node.next h (first l none) (l.map Prod.snd) := by
  induction l generalizing prev with
  | nil => rfl
  | cons p l ih =>
      obtain ⟨hp, hl⟩ := hl
      exact ⟨p.1, _, rfl, hp, rfl, ih hl⟩

theorem Segment.walk_prev {h : Heap ι α} {next : Option ι} {l : List (ι × α)}
    (hl : Segment h none l next) :
    Walk Node.prev h (last none l) (l.map Prod.snd).reverse := by
  induction l using List.reverseRecOn generalizing next with
  | nil => rfl
  | append_singleton l p ih =>
      obtain ⟨hbefore, hp⟩ := segment_append.1 hl
      rw [segment_singleton] at hp
      rw [last_concat, List.map_append, List.reverse_append]
      exact ⟨p.1, _, rfl, hp, rfl, ih hbefore⟩

/-! ## Changes of the heap -/

variable [DecidableEq ι]

theorem Segment.update {h : Heap ι α} {prev next : Option ι} {l : List (ι × α)}
    (hl : Segment h prev l next) {a : ι} (ha : a ∉ l.map Prod.fst) (v : Option (Node ι α)) :
    Segment (Function.update h a v) prev l next := by
  apply hl.congr
  intro p hp
  have hne : p.1 ≠ a := fun heq => ha (heq ▸ List.mem_map_of_mem hp)
  exact Function.update_of_ne hne v h

/-- Writes a field of a node, undefined when there is no node. -/
def modify (h : Heap ι α) (a : ι) (f : Node ι α → Node ι α) : Option (Heap ι α) :=
  (h a).map fun node => Function.update h a (some (f node))

theorem modify_eq {h : Heap ι α} {a : ι} {node : Node ι α} (ha : h a = some node)
    (f : Node ι α → Node ι α) : modify h a f = some (Function.update h a (some (f node))) := by
  rw [modify, ha, Option.map_some]

/-- Writes the link to the node before, through a pointer that is not null. -/
def setPrev (h : Heap ι α) (p prev : Option ι) : Option (Heap ι α) :=
  match p with
  | none => some h
  | some a => modify h a fun node => { node with prev := prev }

/-- Writes the link to the node after, through a pointer that is not null. -/
def setNext (h : Heap ι α) (p next : Option ι) : Option (Heap ι α) :=
  match p with
  | none => some h
  | some a => modify h a fun node => { node with next := next }

theorem Segment.setPrev {h : Heap ι α} {prev : Option ι} {l : List (ι × α)}
    (hl : Segment h prev l none) (hnodup : (l.map Prod.fst).Nodup) (prev' : Option ι) :
    ∃ h', Links.setPrev h (first l none) prev' = some h' ∧ Segment h' prev' l none ∧
      ∀ a, a ∉ l.map Prod.fst → h' a = h a := by
  cases l with
  | nil => exact ⟨h, rfl, trivial, fun _ _ => rfl⟩
  | cons p l =>
      obtain ⟨hp, hafter⟩ := segment_cons.1 hl
      rw [List.map_cons, List.nodup_cons] at hnodup
      refine ⟨_, modify_eq hp _, segment_cons.2 ⟨Function.update_self .., ?_⟩, ?_⟩
      · exact hafter.update hnodup.1 _
      · intro a ha
        have hne : a ≠ p.1 := fun heq => ha (by simp [heq])
        exact Function.update_of_ne hne _ h

theorem Segment.setNext {h : Heap ι α} {next : Option ι} {l : List (ι × α)}
    (hl : Segment h none l next) (hnodup : (l.map Prod.fst).Nodup) (next' : Option ι) :
    ∃ h', Links.setNext h (last none l) next' = some h' ∧ Segment h' none l next' ∧
      ∀ a, a ∉ l.map Prod.fst → h' a = h a := by
  cases l using List.reverseRecOn with
  | nil => exact ⟨h, rfl, trivial, fun _ _ => rfl⟩
  | append_singleton l p =>
      obtain ⟨hbefore, hp⟩ := segment_append.1 hl
      rw [segment_singleton] at hp
      rw [List.map_append, List.map_singleton, List.nodup_append] at hnodup
      have hnot : p.1 ∉ l.map Prod.fst := fun hmem => hnodup.2.2 _ hmem _ List.mem_cons_self rfl
      rw [last_concat]
      refine ⟨_, modify_eq hp _, segment_append.2 ⟨hbefore.update hnot _, ?_⟩, ?_⟩
      · exact segment_singleton.2 (Function.update_self ..)
      · intro a ha
        have hne : a ≠ p.1 := fun heq => ha (by simp [heq])
        exact Function.update_of_ne hne _ h

theorem first_without {l : List (ι × α)} {a : ι} (ha : a ∉ l.map Prod.fst) (n : Option ι) :
    (if first l (some a) = some a then n else first l (some a)) = first l n := by
  cases l with
  | nil => exact if_pos rfl
  | cons p l =>
      have hne : some p.1 ≠ some a := fun heq => ha (by simp [Option.some.inj heq])
      exact if_neg hne

theorem last_without {l : List (ι × α)} {a : ι} (ha : a ∉ l.map Prod.fst) (n : Option ι) :
    (if last (some a) l = some a then n else last (some a) l) = last n l := by
  cases l using List.reverseRecOn with
  | nil => exact if_pos rfl
  | append_singleton l p =>
      rw [last_concat, last_concat]
      have hne : some p.1 ≠ some a := fun heq => ha (by simp [Option.some.inj heq])
      rw [if_neg hne]

end Links
