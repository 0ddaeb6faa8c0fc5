import Mathlib.Data.List.Nodup
import Mathlib.Logic.Function.Iterate

/-!
# Lists looked up by a key

The tables of a daemon are lists whose entries are found by a key: the first entry
with the wanted key is the answer, new entries go to the tail, an entry found is
changed in place, and a sweep walks the list with a cursor and unlinks what has
aged. `lookup`, `update` and `sweepStep` are these operations over an arbitrary
entry type `α` with key function `key : α → κ`; `UniqueKeys` is the invariant that
makes the first match the only one.

The cursor of a sweep is the position of the node it points to. `node l i` is that
pointer: position `i` while the list has such a node and `none`, the null pointer,
otherwise.
-/

namespace KeyedList

/-- The first entry whose key is `k`. -/
def lookup {α κ : Type*} [DecidableEq κ] (key : α → κ) (k : κ) (l : List α) :
    Option α :=
  l.find? fun a => decide (key a = k)

/-- Change the first entry whose key is `k` in place. -/
def update {α κ : Type*} [DecidableEq κ] (key : α → κ) (k : κ) (f : α → α) :
    List α → List α
  | [] => []
  | a :: l => if key a = k then f a :: l else a :: update key k f l

/-- No two entries share a key. -/
def UniqueKeys {α κ : Type*} (key : α → κ) (l : List α) : Prop :=
  (l.map key).Nodup

@[simp] theorem lookup_nil {α κ : Type*} [DecidableEq κ] (key : α → κ) (k : κ) :
    lookup key k [] = none := rfl

theorem lookup_cons {α κ : Type*} [DecidableEq κ] (key : α → κ) (k : κ) (a : α)
    (l : List α) :
    lookup key k (a :: l) = if key a = k then some a else lookup key k l := by
  by_cases h : key a = k
  · simp [lookup, h]
  · simp [lookup, h]

theorem mem_of_lookup {α κ : Type*} [DecidableEq κ] {key : α → κ} {k : κ}
    {l : List α} {a : α} (h : lookup key k l = some a) : a ∈ l :=
  List.mem_of_find?_eq_some h

theorem key_of_lookup {α κ : Type*} [DecidableEq κ] {key : α → κ} {k : κ}
    {l : List α} {a : α} (h : lookup key k l = some a) : key a = k := by
  simpa using List.find?_some h

theorem lookup_eq_none_iff {α κ : Type*} [DecidableEq κ] {key : α → κ} {k : κ}
    {l : List α} : lookup key k l = none ↔ ∀ a ∈ l, key a ≠ k := by
  simp [lookup]

/-- With unique keys every entry is the one its key finds. -/
theorem lookup_of_mem {α κ : Type*} [DecidableEq κ] {key : α → κ} {l : List α}
    (hl : UniqueKeys key l) {a : α} (ha : a ∈ l) :
    lookup key (key a) l = some a := by
  induction l with
  | nil => cases ha
  | cons b l ih =>
      obtain ⟨hb, hl⟩ := List.nodup_cons.1 hl
      rw [lookup_cons]
      rcases List.mem_cons.1 ha with rfl | ha
      · rw [if_pos rfl]
      · have hne : key b ≠ key a := fun h => hb (h ▸ List.mem_map_of_mem ha)
        rw [if_neg hne, ih hl ha]

theorem lookup_append_singleton {α κ : Type*} [DecidableEq κ] (key : α → κ) (k : κ)
    (l : List α) (a : α) :
    lookup key k (l ++ [a]) =
      (lookup key k l).or (if key a = k then some a else none) := by
  rw [lookup, List.find?_append]
  congr 1
  by_cases h : key a = k
  · simp [h]
  · simp [h]

theorem uniqueKeys_nil {α κ : Type*} (key : α → κ) : UniqueKeys key [] :=
  List.nodup_nil

/-- Appending an entry whose key is not listed keeps the keys unique. -/
theorem uniqueKeys_append_singleton {α κ : Type*} [DecidableEq κ] {key : α → κ}
    {l : List α} (hl : UniqueKeys key l) {a : α}
    (ha : lookup key (key a) l = none) : UniqueKeys key (l ++ [a]) := by
  unfold UniqueKeys
  rw [List.map_append, List.map_singleton, List.nodup_append]
  refine ⟨hl, List.nodup_singleton _, ?_⟩
  intro k hk k' hk'
  obtain ⟨b, hb, rfl⟩ := List.mem_map.1 hk
  obtain rfl := List.mem_singleton.1 hk'
  exact lookup_eq_none_iff.1 ha b hb

/-! ## Changing an entry in place -/

theorem map_update {α β κ : Type*} [DecidableEq κ] {key : α → κ} {k : κ}
    {f : α → α} {g : α → β} {l : List α}
    (hf : ∀ a, lookup key k l = some a → g (f a) = g a) :
    (update key k f l).map g = l.map g := by
  induction l with
  | nil => rfl
  | cons a l ih =>
      rw [update]
      by_cases h : key a = k
      · have ha : g (f a) = g a := hf a (by rw [lookup_cons, if_pos h])
        rw [if_pos h, List.map_cons, List.map_cons, ha]
      · rw [if_neg h, List.map_cons, List.map_cons, ih]
        intro b hb
        exact hf b (by rw [lookup_cons, if_neg h, hb])

theorem map_key_update {α κ : Type*} [DecidableEq κ] {key : α → κ} {k : κ}
    {f : α → α} {l : List α}
    (hf : ∀ a, lookup key k l = some a → key (f a) = key a) :
    (update key k f l).map key = l.map key := map_update hf

/-- What holds of the entries and of the changed one holds after the change. -/
theorem forall_mem_update {α κ : Type*} [DecidableEq κ] {key : α → κ} {k : κ} {f : α → α}
    {l : List α} {P : α → Prop} (hl : ∀ a ∈ l, P a)
    (hf : ∀ a, lookup key k l = some a → P (f a)) : ∀ a ∈ update key k f l, P a := by
  induction l with
  | nil => exact hl
  | cons a l ih =>
      have ha : P a := hl a List.mem_cons_self
      have hrest : ∀ b ∈ l, P b := fun b hb => hl b (List.mem_cons_of_mem a hb)
      rw [update]
      by_cases h : key a = k
      · rw [if_pos h, List.forall_mem_cons]
        exact ⟨hf a (by rw [lookup_cons, if_pos h]), hrest⟩
      · rw [if_neg h, List.forall_mem_cons]
        refine ⟨ha, ih hrest ?_⟩
        intro b hb
        exact hf b (by rw [lookup_cons, if_neg h, hb])

theorem map_set_same {α β : Type*} {g : α → β} {l : List α} {i : ℕ} {a b : α}
    (ha : l[i]? = some a) (h : g b = g a) : (l.set i b).map g = l.map g := by
  obtain ⟨hi, rfl⟩ := List.getElem?_eq_some_iff.1 ha
  rw [List.map_set, h, ← List.map_set, List.set_getElem_self]

theorem uniqueKeys_update {α κ : Type*} [DecidableEq κ] {key : α → κ} {k : κ}
    {f : α → α} {l : List α}
    (hf : ∀ a, lookup key k l = some a → key (f a) = key a)
    (hl : UniqueKeys key l) : UniqueKeys key (update key k f l) := by
  unfold UniqueKeys
  rw [map_key_update hf]
  exact hl

theorem lookup_update_same {α κ : Type*} [DecidableEq κ] {key : α → κ} {k : κ}
    {f : α → α} {l : List α}
    (hf : ∀ a, lookup key k l = some a → key (f a) = key a) :
    lookup key k (update key k f l) = (lookup key k l).map f := by
  induction l with
  | nil => rfl
  | cons a l ih =>
      rw [update]
      by_cases h : key a = k
      · have ha : key (f a) = k := (hf a (by rw [lookup_cons, if_pos h])).trans h
        rw [if_pos h, lookup_cons, lookup_cons, if_pos ha, if_pos h, Option.map_some]
      · rw [if_neg h, lookup_cons, lookup_cons, if_neg h, if_neg h]
        apply ih
        intro b hb
        exact hf b (by rw [lookup_cons, if_neg h, hb])

theorem lookup_update_of_ne {α κ : Type*} [DecidableEq κ] {key : α → κ} {k k' : κ}
    {f : α → α} {l : List α}
    (hf : ∀ a, lookup key k l = some a → key (f a) = key a) (hk : k' ≠ k) :
    lookup key k' (update key k f l) = lookup key k' l := by
  induction l with
  | nil => rfl
  | cons a l ih =>
      rw [update]
      by_cases h : key a = k
      · have ha : key (f a) = key a := hf a (by rw [lookup_cons, if_pos h])
        rw [if_pos h, lookup_cons, lookup_cons, ha]
        have hne : key a ≠ k' := by rw [h]; exact hk.symm
        rw [if_neg hne, if_neg hne]
      · rw [if_neg h, lookup_cons, lookup_cons, ih]
        intro b hb
        exact hf b (by rw [lookup_cons, if_neg h, hb])

/-- An in-place change is invisible exactly when it fixes the entry it finds. -/
theorem update_eq_self_iff {α κ : Type*} [DecidableEq κ] {key : α → κ} {k : κ}
    {f : α → α} {l : List α} :
    update key k f l = l ↔ ∀ a, lookup key k l = some a → f a = a := by
  induction l with
  | nil => simp [update]
  | cons a l ih =>
      by_cases h : key a = k
      · simp [update, lookup_cons, h]
      · simp only [update, lookup_cons, if_neg h, List.cons.injEq, true_and]
        exact ih

theorem length_update {α κ : Type*} [DecidableEq κ] (key : α → κ) (k : κ)
    (f : α → α) (l : List α) : (update key k f l).length = l.length := by
  induction l with
  | nil => rfl
  | cons a l ih =>
      by_cases h : key a = k
      · simp [update, h]
      · simp [update, h, ih]

/-- With unique keys a change at a position is a change by key. -/
theorem set_eq_update {α κ : Type*} [DecidableEq κ] {key : α → κ} {l : List α}
    (hl : UniqueKeys key l) {i : ℕ} {a : α} (ha : l[i]? = some a) (f : α → α) :
    l.set i (f a) = update key (key a) f l := by
  induction l generalizing i with
  | nil => rfl
  | cons b l ih =>
      obtain ⟨hb, hl⟩ := List.nodup_cons.1 hl
      cases i with
      | zero =>
          obtain rfl : b = a := by simpa using ha
          rw [List.set_cons_zero, update, if_pos rfl]
      | succ i =>
          have ha' : l[i]? = some a := by simpa using ha
          have hne : key b ≠ key a := fun h =>
            hb (h ▸ List.mem_map_of_mem (List.mem_of_getElem? ha'))
          rw [List.set_cons_succ, update, if_neg hne, ih hl ha']

/-! ## Sweeping with a cursor -/

/-- The pointer to the node at position `i`, `none` past the end. -/
def node {α : Type*} (l : List α) (i : ℕ) : Option ℕ :=
  if i < l.length then some i else none

theorem node_eq_some_iff {α : Type*} {l : List α} {i j : ℕ} :
    node l i = some j ↔ i = j ∧ i < l.length := by
  unfold node
  split
  · next h => simp [h]
  · next h => simp [h]

theorem node_eq_none_iff {α : Type*} {l : List α} {i : ℕ} :
    node l i = none ↔ l.length ≤ i := by
  unfold node
  split
  · next h => simp [h]
  · next h => simpa using h

/-- One iteration of a sweep at position `i`: an aged entry is unlinked and the
cursor stays on the position its successor moves to, any other is passed over. -/
def sweepStep {α : Type*} (aged : α → Bool) (l : List α) (i : ℕ) :
    List α × Option ℕ :=
  match l[i]? with
  | none => (l, none)
  | some a =>
      if aged a then (l.eraseIdx i, node (l.eraseIdx i) i) else (l, node l (i + 1))

/-- A sweep sees of its entries only whether they are aged. -/
theorem sweepStep_map {α β : Type*} (f : α → β) (aged : β → Bool) (l : List α) (i : ℕ) :
    sweepStep aged (l.map f) i =
      ((sweepStep (fun a => aged (f a)) l i).1.map f, (sweepStep (fun a => aged (f a)) l i).2) := by
  rw [sweepStep, sweepStep, List.getElem?_map]
  cases l[i]? with
  | none => rfl
  | some a =>
      dsimp only [Option.map_some]
      cases aged (f a) with
      | true => simp [node, List.eraseIdx_eq_take_drop_succ]
      | false => simp [node]

/-- The next iteration of a sweep, none once the cursor is past the end. -/
def sweepNext {α : Type*} (aged : α → Bool) (p : List α × Option ℕ) : List α × Option ℕ :=
  match p.2 with
  | none => p
  | some i => sweepStep aged p.1 i

/-- A sweep that goes on to the end keeps the entries that are not aged. -/
theorem iterate_sweepNext {α : Type*} (aged : α → Bool) (kept rest : List α) :
    (sweepNext aged)^[rest.length] (kept ++ rest, node (kept ++ rest) kept.length) =
      (kept ++ rest.filter (!aged ·), none) := by
  induction rest generalizing kept with
  | nil =>
      have hend : node (kept ++ []) kept.length = none := node_eq_none_iff.2 (by simp)
      rw [hend]
      rfl
  | cons a rest ih =>
      have hcursor : node (kept ++ a :: rest) kept.length = some kept.length :=
        node_eq_some_iff.2 ⟨rfl, by simp⟩
      have ha : (kept ++ a :: rest)[kept.length]? = some a := by simp
      rw [List.length_cons, Function.iterate_succ_apply, hcursor]
      simp only [sweepNext, sweepStep, ha]
      cases haged : aged a with
      | true =>
          have herase : (kept ++ a :: rest).eraseIdx kept.length = kept ++ rest := by
            rw [List.eraseIdx_append_of_length_le (Nat.le_refl _), Nat.sub_self]
            rfl
          rw [if_pos rfl, herase, List.filter_cons_of_neg (by simp [haged])]
          exact ih kept
      | false =>
          have hnext := ih (kept ++ [a])
          rw [List.append_assoc, List.length_append, List.length_singleton] at hnext
          rw [if_neg (by simp), List.filter_cons_of_pos (by simp [haged])]
          rw [List.append_assoc] at hnext
          exact hnext

theorem lookup_filter {α κ : Type*} [DecidableEq κ] {key : α → κ} (k : κ)
    {l : List α} (hl : UniqueKeys key l) (p : α → Bool) :
    lookup key k (l.filter p) = (lookup key k l).filter p := by
  induction l with
  | nil => rfl
  | cons a l ih =>
      obtain ⟨ha, hl⟩ := List.nodup_cons.1 hl
      rw [List.filter_cons, lookup_cons]
      by_cases hk : key a = k
      · rw [if_pos hk]
        cases hp : p a with
        | true => rw [if_pos rfl, lookup_cons, if_pos hk, Option.filter_some_pos hp]
        | false =>
            -- no later entry has the key
            rw [if_neg (by simp), Option.filter_some_neg hp, lookup_eq_none_iff]
            intro b hb hkey
            apply ha
            rw [hk, ← hkey]
            exact List.mem_map_of_mem (List.mem_filter.1 hb).1
      · rw [if_neg hk]
        cases p a with
        | true => rw [if_pos rfl, lookup_cons, if_neg hk, ih hl]
        | false => rw [if_neg (by simp), ih hl]

theorem uniqueKeys_eraseIdx {α κ : Type*} {key : α → κ} {l : List α}
    (hl : UniqueKeys key l) (i : ℕ) : UniqueKeys key (l.eraseIdx i) :=
  hl.sublist ((List.eraseIdx_sublist l i).map key)

theorem lookup_eraseIdx_of_ne {α κ : Type*} [DecidableEq κ] {key : α → κ} {k : κ}
    {l : List α} {i : ℕ} {a : α} (ha : l[i]? = some a) (hk : key a ≠ k) :
    lookup key k (l.eraseIdx i) = lookup key k l := by
  induction l generalizing i with
  | nil => rfl
  | cons b l ih =>
      cases i with
      | zero =>
          obtain rfl : b = a := by simpa using ha
          rw [List.eraseIdx_cons_zero, lookup_cons, if_neg hk]
      | succ i =>
          rw [List.eraseIdx_cons_succ, lookup_cons, lookup_cons, ih (by simpa using ha)]

/-- With unique keys the key of an unlinked entry is no longer found. -/
theorem lookup_eraseIdx_same {α κ : Type*} [DecidableEq κ] {key : α → κ}
    {l : List α} (hl : UniqueKeys key l) {i : ℕ} {a : α} (ha : l[i]? = some a) :
    lookup key (key a) (l.eraseIdx i) = none := by
  induction l generalizing i with
  | nil => rfl
  | cons b l ih =>
      obtain ⟨hb, hl⟩ := List.nodup_cons.1 hl
      cases i with
      | zero =>
          obtain rfl : b = a := by simpa using ha
          rw [List.eraseIdx_cons_zero, lookup_eq_none_iff]
          intro c hc h
          exact hb (h ▸ List.mem_map_of_mem hc)
      | succ i =>
          have ha' : l[i]? = some a := by simpa using ha
          have hne : key b ≠ key a := fun h =>
            hb (h ▸ List.mem_map_of_mem (List.mem_of_getElem? ha'))
          rw [List.eraseIdx_cons_succ, lookup_cons, if_neg hne, ih hl ha']

/-! ## What is collected from the entries -/

theorem filterMap_update {α β κ : Type*} [DecidableEq κ] {key : α → κ} {k : κ}
    {f : α → α} {g : α → Option β} {l : List α}
    (hf : ∀ a, lookup key k l = some a → g (f a) = g a) :
    (update key k f l).filterMap g = l.filterMap g := by
  induction l with
  | nil => rfl
  | cons a l ih =>
      rw [update]
      by_cases h : key a = k
      · have ha : g (f a) = g a := hf a (by rw [lookup_cons, if_pos h])
        rw [if_pos h, List.filterMap_cons, List.filterMap_cons, ha]
      · have hl : ∀ b, lookup key k l = some b → g (f b) = g b := by
          intro b hb
          exact hf b (by rw [lookup_cons, if_neg h, hb])
        rw [if_neg h, List.filterMap_cons, List.filterMap_cons, ih hl]

/-- A change at a position changes what that position contributes. -/
theorem filterMap_set_perm {α β : Type*} (g : α → Option β) {l : List α} {i : ℕ}
    (hi : i < l.length) (b : α) :
    ((l.set i b).filterMap g).Perm ((g b).toList ++ (l.eraseIdx i).filterMap g) := by
  induction l generalizing i with
  | nil => cases hi
  | cons a l ih =>
      cases i with
      | zero =>
          rw [List.set_cons_zero, List.eraseIdx_cons_zero, List.filterMap_cons]
          cases g b with
          | none => exact List.Perm.refl _
          | some y => exact List.Perm.refl _
      | succ i =>
          have hperm := ih (Nat.lt_of_succ_lt_succ hi)
          rw [List.set_cons_succ, List.eraseIdx_cons_succ, List.filterMap_cons,
            List.filterMap_cons]
          cases g a with
          | none => exact hperm
          | some y => exact (hperm.cons y).trans List.perm_middle.symm

/-- What is collected from a list is what its entry at a position contributes and what is
collected without it. -/
theorem filterMap_eraseIdx_perm {α β : Type*} (g : α → Option β) {l : List α} {i : ℕ}
    {a : α} (ha : l[i]? = some a) :
    (l.filterMap g).Perm ((g a).toList ++ (l.eraseIdx i).filterMap g) := by
  obtain ⟨hi, rfl⟩ := List.getElem?_eq_some_iff.1 ha
  have hperm := filterMap_set_perm g hi l[i]
  rwa [List.set_getElem_self] at hperm

end KeyedList
