import Iprp.Library.KeyedList
import Iprp.Library.Links
import Iprp.Library.Run

/-!
# The doubly linked list

`src/lib/list.c`, with its nodes in a heap of their own. A step has no defined result when it
follows a null pointer or one to no node. `Represents s l` says that the nodes of `l` lie in the
heap of `s` in this order and that `head`, `tail` and `size` are theirs. `list_append` and
`list_delete` keep it (`listAppend_spec`, `listDelete_spec`), so that the list is the sequence of
the values that were appended and not yet deleted (`list_refines`).

The daemons go over a list with a pointer and delete nodes under it. One round of such a loop is
a step of the sweep of `KeyedList` (`visitStep_refines`), by which the models of the tables are
written.
-/

namespace Iprp.Lists

open Links

variable {ι α : Type}

/-- `list_t`, with the nodes that it leads to. -/
structure ListState (ι α : Type) where
  head : Option ι
  tail : Option ι
  size : ℕ
  heap : Heap ι α

/-- Initializes the list. -/
def listInit (heap : Heap ι α) : ListState ι α := ⟨none, none, 0, heap⟩

def listSize (list : ListState ι α) : ℕ := list.size

section

variable [DecidableEq ι]

/-- Appends the given value to the end of the list, in the node `newElem` that `malloc` returns. -/
def listAppend (newElem : ι) (value : α) (list : ListState ι α) : Option (ListState ι α) := do
  let heap := Function.update list.heap newElem (some ⟨value, list.tail, none⟩)
  match list.head with
  | none => return ⟨some newElem, some newElem, list.size + 1, heap⟩
  | some head =>
      let tail ← list.tail
      let heap ← modify heap tail fun node => { node with next := some newElem }
      return ⟨some head, some newElem, list.size + 1, heap⟩

/-- Removes the given element from the list. -/
def listDelete (elem : ι) (list : ListState ι α) : Option (ListState ι α) := do
  let node ← list.heap elem
  let head := if list.head = some elem then node.next else list.head
  let tail := if list.tail = some elem then node.prev else list.tail
  -- Global case
  let heap ← setPrev list.heap node.next node.prev
  let node ← heap elem
  let heap ← setNext heap node.prev node.next
  return ⟨head, tail, list.size - 1, Function.update heap elem none⟩

/-! ## Operations -/

inductive Op (ι α : Type) where
  | append (newElem : ι) (value : α)
  | delete (elem : ι)

def step (list : ListState ι α) : Op ι α → Option (ListState ι α)
  | .append newElem value => listAppend newElem value list
  | .delete elem => listDelete elem list

def run (heap : Heap ι α) (ops : List (Op ι α)) : Option (ListState ι α) :=
  Run.runFrom step (listInit heap) ops

/-- The nodes after an operation, with their values. -/
def contentsStep (l : List (ι × α)) : Op ι α → List (ι × α)
  | .append newElem value => l ++ [(newElem, value)]
  | .delete elem => l.filter fun p => p.1 ≠ elem

/-- The nodes that were appended and not yet deleted, in the order of insertion. -/
def contents (ops : List (Op ι α)) : List (ι × α) := ops.foldl contentsStep []

/-- `malloc` returns no node of the list, and a deleted node is one of the list. -/
def Allowed (l : List (ι × α)) : Op ι α → Prop
  | .append newElem _ => newElem ∉ l.map Prod.fst
  | .delete elem => elem ∈ l.map Prod.fst

/-- Each operation is allowed when its turn comes. -/
def Admissible (ops : List (Op ι α)) : Prop :=
  ∀ k op, ops[k]? = some op → Allowed (contents (ops.take k)) op

end

/-! ## What a list represents -/

/-- The list is that of the given nodes. -/
structure Represents (list : ListState ι α) (l : List (ι × α)) : Prop where
  nodup : (l.map Prod.fst).Nodup
  nodes : Segment list.heap none l none
  head : list.head = first l none
  tail : list.tail = last none l
  size : list.size = l.length

theorem represents_init (heap : Heap ι α) : Represents (listInit heap) [] :=
  ⟨List.nodup_nil, trivial, rfl, rfl, rfl⟩

/-- The list is a sequence: its values in both directions, its ends and its size. -/
structure Refines (list : ListState ι α) (l : List (ι × α)) : Prop where
  forward : Walk Node.next list.heap list.head (l.map Prod.snd)
  backward : Walk Node.prev list.heap list.tail (l.map Prod.snd).reverse
  head_prev : ∀ a node, list.head = some a → list.heap a = some node → node.prev = none
  tail_next : ∀ a node, list.tail = some a → list.heap a = some node → node.next = none
  head_null : list.head = none ↔ l = []
  tail_null : list.tail = none ↔ l = []
  size : listSize list = l.length

theorem Represents.refines {list : ListState ι α} {l : List (ι × α)} (h : Represents list l) :
    Refines list l := by
  obtain ⟨head, tail, size, heap⟩ := list
  obtain ⟨-, hnodes, rfl, rfl, rfl⟩ := h
  refine ⟨hnodes.walk_next, hnodes.walk_prev, ?_, ?_, first_eq_none_iff l, last_eq_none_iff l, rfl⟩
  · intro a node ha hnode
    dsimp only at ha hnode hnodes
    cases l with
    | nil => cases ha
    | cons p l =>
        obtain rfl := Option.some.inj ha
        rw [(segment_cons.1 hnodes).1] at hnode
        rw [← Option.some.inj hnode]
  · intro a node ha hnode
    dsimp only at ha hnode hnodes
    cases l using List.reverseRecOn with
    | nil => cases ha
    | append_singleton l p =>
        rw [last_concat] at ha
        obtain rfl := Option.some.inj ha
        rw [segment_singleton.1 (segment_append.1 hnodes).2] at hnode
        rw [← Option.some.inj hnode]

/-- A position in the list as a pointer. -/
def pointer (l : List (ι × α)) (cursor : Option ℕ) : Option ι :=
  cursor.bind fun i => l[i]?.map Prod.fst

theorem pointer_node (l l' : List (ι × α)) :
    pointer (l ++ l') (KeyedList.node (l ++ l') l.length) = first l' none := by
  cases l' with
  | nil =>
      rw [KeyedList.node_eq_none_iff.2 (by simp)]
      rfl
  | cons p l' =>
      rw [KeyedList.node_eq_some_iff.2 ⟨rfl, by simp⟩]
      simp [pointer]

variable [DecidableEq ι]

theorem listAppend_spec {list : ListState ι α} {l : List (ι × α)} (h : Represents list l)
    {newElem : ι} (hnew : newElem ∉ l.map Prod.fst) (value : α) :
    ∃ list', listAppend newElem value list = some list' ∧
      Represents list' (l ++ [(newElem, value)]) := by
  obtain ⟨head, tail, size, heap⟩ := list
  obtain ⟨hnodup, hnodes, rfl, rfl, rfl⟩ := h
  dsimp only at hnodes
  have hnodup' : ((l ++ [(newElem, value)]).map Prod.fst).Nodup := by
    rw [List.map_append, List.map_singleton]
    exact hnodup.append (List.nodup_singleton _) (by simpa using hnew)
  have hsize : l.length + 1 = (l ++ [(newElem, value)]).length := by
    rw [List.length_append]
    rfl
  have htail : some newElem = last none (l ++ [(newElem, value)]) := by rw [last_concat]
  -- the new node, to which nothing leads yet
  have hfresh := hnodes.update hnew (some ⟨value, last none l, none⟩)
  have hnode : Function.update heap newElem (some ⟨value, last none l, none⟩) newElem =
      some ⟨value, last none l, none⟩ := Function.update_self ..
  obtain ⟨heap', hheap, hsegment, hsame⟩ := hfresh.setNext hnodup (some newElem)
  have hnodes' : Segment heap' none (l ++ [(newElem, value)]) none := by
    refine segment_append.2 ⟨hsegment, segment_singleton.2 ?_⟩
    exact (hsame newElem hnew).trans hnode
  cases l using List.reverseRecOn with
  | nil =>
      obtain rfl := Option.some.inj hheap
      exact ⟨_, rfl, hnodup', hnodes', rfl, htail, hsize⟩
  | append_singleton l p =>
      -- the list has a first node, which stays, and a last one, which leads to the new one
      obtain ⟨head, hhead⟩ : ∃ head, first (l ++ [p]) none = some head :=
        Option.ne_none_iff_exists'.1 fun hnone =>
          List.concat_ne_nil p l ((first_eq_none_iff _).1 hnone)
      have hhead' : some head = first (l ++ [p] ++ [(newElem, value)]) none := by
        rw [first_append, first_of_ne_nil (List.concat_ne_nil p l), hhead]
      rw [last_concat] at hheap
      refine ⟨⟨some head, some newElem, (l ++ [p]).length + 1, heap'⟩, ?_,
        hnodup', hnodes', hhead', htail, hsize⟩
      rw [listAppend]
      dsimp only
      rw [hhead, last_concat]
      dsimp only [Option.bind_eq_bind, Option.bind_some]
      rw [setNext] at hheap
      rw [hheap]
      rfl

theorem listDelete_spec {list : ListState ι α} {l l' : List (ι × α)} {p : ι × α}
    (h : Represents list (l ++ p :: l')) :
    ∃ list', listDelete p.1 list = some list' ∧ Represents list' (l ++ l') := by
  obtain ⟨head, tail, size, heap⟩ := list
  obtain ⟨hnodup, hnodes, rfl, rfl, rfl⟩ := h
  dsimp only at hnodes
  obtain ⟨hbefore, hp, hafter⟩ := segment_append.1 hnodes
  have hperm : ((p :: (l ++ l')).map Prod.fst).Nodup :=
    (List.perm_middle.map Prod.fst).nodup_iff.1 hnodup
  rw [List.map_cons, List.nodup_cons, List.map_append, List.nodup_append'] at hperm
  obtain ⟨hnot, hl, hl', hdisjoint⟩ := hperm
  rw [List.mem_append, not_or] at hnot
  -- the node after is linked to the node before
  obtain ⟨heap₁, hheap₁, hafter₁, hsame₁⟩ := hafter.setPrev hl' (last none l)
  have hp₁ : heap₁ p.1 = some ⟨p.2, last none l, first l' none⟩ := (hsame₁ p.1 hnot.2).trans hp
  have hbefore₁ : Segment heap₁ none l (some p.1) :=
    hbefore.congr fun q hq => hsame₁ q.1 (hdisjoint (List.mem_map_of_mem hq))
  -- the node before is linked to the node after
  obtain ⟨heap₂, hheap₂, hbefore₂, hsame₂⟩ := hbefore₁.setNext hl (first l' none)
  have hafter₂ : Segment heap₂ (last none l) l' none :=
    hafter₁.congr fun q hq => hsame₂ q.1 fun hmem => hdisjoint hmem (List.mem_map_of_mem hq)
  refine ⟨⟨first l (first l' none), last (last none l) l', l.length + l'.length,
    Function.update heap₂ p.1 none⟩, ?_, ?_, ?_, ?_, ?_, ?_⟩
  · have hhead := first_without hnot.1 (first l' none)
    have htail := last_without hnot.2 (last none l)
    have hsize : (l ++ p :: l').length - 1 = l.length + l'.length := by
      rw [List.length_append, List.length_cons, ← Nat.add_assoc, Nat.add_sub_cancel]
    simp only [listDelete, Option.bind_eq_bind, Option.bind_some, hp, hheap₁, hp₁, hheap₂]
    rw [first_append, first_cons, hhead, last_append, last_cons, htail, hsize]
    rfl
  · rw [List.map_append]
    exact List.nodup_append'.2 ⟨hl, hl', hdisjoint⟩
  · exact segment_append.2 ⟨hbefore₂.update hnot.1 none, hafter₂.update hnot.2 none⟩
  · exact (first_append l l' none).symm
  · exact (last_append none l l').symm
  · exact List.length_append.symm

/-! ## Runs -/

theorem filter_ne_of_nodup {l l' : List (ι × α)} {p : ι × α}
    (hnodup : ((l ++ p :: l').map Prod.fst).Nodup) :
    ((l ++ p :: l').filter fun q => q.1 ≠ p.1) = l ++ l' := by
  have hperm : ((p :: (l ++ l')).map Prod.fst).Nodup :=
    (List.perm_middle.map Prod.fst).nodup_iff.1 hnodup
  obtain ⟨hnot, -⟩ := List.nodup_cons.1 hperm
  have hall : ∀ q ∈ l ++ l', q.1 ≠ p.1 := fun q hq heq => hnot (heq ▸ List.mem_map_of_mem hq)
  have hfilter : ((l ++ l').filter fun q => q.1 ≠ p.1) = l ++ l' :=
    List.filter_eq_self.2 fun q hq => decide_eq_true (hall q hq)
  rw [List.filter_append] at hfilter
  rw [List.filter_append, List.filter_cons_of_neg (by simp), hfilter]

theorem step_spec {list : ListState ι α} {l : List (ι × α)} (h : Represents list l)
    {op : Op ι α} (hop : Allowed l op) :
    ∃ list', step list op = some list' ∧ Represents list' (contentsStep l op) := by
  cases op with
  | append newElem value => exact listAppend_spec h hop value
  | delete elem =>
      obtain ⟨p, hp, rfl⟩ := List.mem_map.1 hop
      obtain ⟨l, l', rfl⟩ := List.append_of_mem hp
      rw [contentsStep, filter_ne_of_nodup h.nodup]
      exact listDelete_spec h

theorem contents_concat (ops : List (Op ι α)) (op : Op ι α) :
    contents (ops ++ [op]) = contentsStep (contents ops) op := by
  rw [contents, List.foldl_append]
  rfl

theorem represents_run {ops : List (Op ι α)} (h : Admissible ops) (heap : Heap ι α) :
    ∃ list, run heap ops = some list ∧ Represents list (contents ops) := by
  have hstep : ∀ k op list, ops[k]? = some op → run heap (ops.take k) = some list →
      Represents list (contents (ops.take k)) →
      ∃ list', step list op = some list' ∧ Represents list' (contents (ops.take k ++ [op])) := by
    intro k op list hop _ hlist
    obtain ⟨list', hstep, hlist'⟩ := step_spec hlist (h k op hop)
    rw [← contents_concat] at hlist'
    exact ⟨list', hstep, hlist'⟩
  have htotal := Run.runFrom_take_total (fun ops list => Represents list (contents ops))
    (represents_init heap) hstep ops.length
  rwa [List.take_length] at htotal

/-! ## Going over a list -/

/-- A loop over a list with the nodes that it has visited. -/
structure Visit (ι α : Type) where
  list : ListState ι α
  iterator : Option ι
  visited : List ι

/-- One round of a loop that deletes some of the nodes it meets. The pointer to the next node is
read before. -/
def visitStep (remove : ι × α → Bool) (v : Visit ι α) : Option (Visit ι α) :=
  match v.iterator with
  | none => some v
  | some elem => do
      let node ← v.list.heap elem
      if remove (elem, node.elem) then
        let list ← listDelete elem v.list
        return ⟨list, node.next, v.visited ++ [elem]⟩
      else return ⟨v.list, node.next, v.visited ++ [elem]⟩

def visit (remove : ι × α → Bool) : ℕ → Visit ι α → Option (Visit ι α)
  | 0, v => some v
  | n + 1, v => (visitStep remove v).bind (visit remove n)

theorem visitStep_spec (remove : ι × α → Bool) {list : ListState ι α} {kept rest : List (ι × α)}
    {p : ι × α} (h : Represents list (kept ++ p :: rest)) (visited : List ι) :
    ∃ list', visitStep remove ⟨list, some p.1, visited⟩ =
        some ⟨list', first rest none, visited ++ [p.1]⟩ ∧
      Represents list' (kept ++ [p].filter (!remove ·) ++ rest) := by
  obtain ⟨-, hp, -⟩ := segment_append.1 h.nodes
  cases hremove : remove p with
  | true =>
      obtain ⟨list', hdelete, hlist'⟩ := listDelete_spec h
      refine ⟨list', ?_, ?_⟩
      · simp only [visitStep, hp, hdelete, hremove, Option.bind_eq_bind, Option.bind_some, if_true]
        rfl
      · rw [List.filter_cons_of_neg (by simp [hremove]), List.filter_nil, List.append_nil]
        exact hlist'
  | false =>
      refine ⟨list, ?_, ?_⟩
      · simp only [visitStep, hp, hremove, Option.bind_eq_bind, Option.bind_some, if_false,
          Bool.false_eq_true]
        rfl
      · rw [List.filter_cons_of_pos (by simp [hremove]), List.filter_nil, List.append_assoc]
        exact h

/-- A loop visits every node once, in order, and leaves those that it has not deleted. -/
theorem visit_spec (remove : ι × α → Bool) {list : ListState ι α} {kept rest : List (ι × α)}
    (h : Represents list (kept ++ rest)) (visited : List ι) :
    ∃ list', visit remove rest.length ⟨list, first rest none, visited⟩ =
        some ⟨list', none, visited ++ rest.map Prod.fst⟩ ∧
      Represents list' (kept ++ rest.filter (!remove ·)) := by
  induction rest generalizing list kept visited with
  | nil =>
      refine ⟨list, ?_, h⟩
      rw [List.map_nil, List.append_nil]
      rfl
  | cons p rest ih =>
      obtain ⟨list₁, hstep, hlist₁⟩ := visitStep_spec remove h visited
      obtain ⟨list', hvisit, hlist'⟩ := ih hlist₁ (visited ++ [p.1])
      refine ⟨list', ?_, ?_⟩
      · rw [List.length_cons, visit, first_cons, hstep, Option.bind_some, hvisit,
          List.append_assoc]
        rfl
      · rw [List.append_assoc, ← List.filter_append] at hlist'
        exact hlist'

/-- A round of a loop is a step of the sweep over the sequence. -/
theorem visitStep_refines (remove : ι × α → Bool) {list : ListState ι α} {l : List (ι × α)}
    (h : Represents list l) {i : ℕ} (hi : i < l.length) (visited : List ι) :
    ∃ v, visitStep remove ⟨list, pointer l (some i), visited⟩ = some v ∧
      Represents v.list (KeyedList.sweepStep remove l i).1 ∧
      v.iterator =
        pointer (KeyedList.sweepStep remove l i).1 (KeyedList.sweepStep remove l i).2 := by
  obtain ⟨kept, p, rest, rfl, rfl⟩ : ∃ kept p rest, l = kept ++ p :: rest ∧ i = kept.length :=
    ⟨l.take i, l[i], l.drop (i + 1), by simp, by simp [Nat.le_of_lt hi]⟩
  have hget : (kept ++ p :: rest)[kept.length]? = some p := by simp
  have hpointer : pointer (kept ++ p :: rest) (some kept.length) = some p.1 := by
    rw [pointer, Option.bind_some, hget, Option.map_some]
  obtain ⟨list', hstep, hlist'⟩ := visitStep_spec remove h visited
  refine ⟨_, hpointer ▸ hstep, ?_⟩
  rw [KeyedList.sweepStep, hget]
  dsimp only
  cases hremove : remove p with
  | true =>
      have herase : (kept ++ p :: rest).eraseIdx kept.length = kept ++ rest := by
        rw [List.eraseIdx_append_of_length_le (Nat.le_refl _), Nat.sub_self]
        rfl
      rw [List.filter_cons_of_neg (by simp [hremove]), List.filter_nil, List.append_nil] at hlist'
      rw [if_pos rfl, herase]
      exact ⟨hlist', (pointer_node kept rest).symm⟩
  | false =>
      have hnext := pointer_node (kept ++ [p]) rest
      rw [List.length_append, List.append_assoc] at hnext
      rw [List.filter_cons_of_pos (by simp [hremove]), List.filter_nil, List.append_assoc] at hlist'
      rw [if_neg Bool.false_ne_true]
      exact ⟨hlist', hnext.symm⟩

/-- After all operations that are allowed the list is the sequence of the nodes that were appended
and not yet deleted. A loop that deletes nodes on its way visits each of them once and leaves the
others. -/
theorem list_refines {ops : List (Op ι α)} (h : Admissible ops) (heap : Heap ι α) :
    ∃ list, run heap ops = some list ∧ Refines list (contents ops) ∧
      ((contents ops).map Prod.fst).Nodup ∧
      ∀ remove, ∃ list', visit remove (contents ops).length ⟨list, list.head, []⟩ =
          some ⟨list', none, (contents ops).map Prod.fst⟩ ∧
        Refines list' ((contents ops).filter (!remove ·)) := by
  obtain ⟨list, hrun, hlist⟩ := represents_run h heap
  refine ⟨list, hrun, hlist.refines, hlist.nodup, ?_⟩
  intro remove
  have hlist₀ : Represents list ([] ++ contents ops) := hlist
  obtain ⟨list', hvisit, hlist'⟩ := visit_spec remove hlist₀ []
  rw [← hlist.head] at hvisit
  exact ⟨list', hvisit, hlist'.refines⟩

/-- Two values of which the first one is deleted again. -/
theorem list_refines_delete_head :
    ∃ list, run (fun _ : ℕ => none) [.append 1 5000, .append 2 5001, .delete 1] = some list ∧
      Refines list [(2, 5001)] := by
  have hadmissible : Admissible [Op.append 1 5000, .append 2 5001, .delete 1] := by
    intro k op hk
    rcases k with _ | _ | _ | k
    · obtain rfl := Option.some.inj hk
      exact List.not_mem_nil
    · obtain rfl := Option.some.inj hk
      simp [Allowed, contents, contentsStep]
    · obtain rfl := Option.some.inj hk
      simp [Allowed, contents, contentsStep]
    · cases hk
  obtain ⟨list, hrun, hlist, -⟩ := list_refines hadmissible fun _ => none
  exact ⟨list, hrun, hlist⟩

end Iprp.Lists
