import Iprp.Library.Snapshot

/-!
# Snapshots with numbered entries

The keys of a `Cache` need not tell its entries apart. Here every entry has a number, given when
it arrives, as every node of a list has its address. The numbers are for the record: a run with
them is the run without them (`plain_run`), and what a snapshot holds can be said of each entry
(`exact_numbered`).
-/

namespace Snapshot

open KeyedList

variable {c : Cache}

theorem Cache.length_le {currTime : c.Time} {u : c.Use} {s s' : c.Store}
    (h : c.use currTime u s = some s') : (c.list s).length ≤ (c.list s').length := by
  obtain ⟨s'', keys, huse, hkeys⟩ := c.use_grows currTime u s
  obtain rfl : s' = s'' := Option.some.inj (h.symm.trans huse)
  exact length_le_of_keys hkeys

/-- A store with a number for each entry of its list, by which entries with one key are told
apart. -/
structure Numbered (c : Cache) where
  store : c.Store
  numbers : List ℕ
  next : ℕ
  length_eq : numbers.length = (c.list store).length

namespace Numbered

def list (s : Numbered c) : List (ℕ × c.Entry) := s.numbers.zip (c.list s.store)

theorem numbers_list (s : Numbered c) : s.list.map Prod.fst = s.numbers :=
  List.map_fst_zip (Nat.le_of_eq s.length_eq)

theorem entries_list (s : Numbered c) : s.list.map Prod.snd = c.list s.store :=
  List.map_snd_zip (Nat.le_of_eq s.length_eq.symm)

theorem length_list (s : Numbered c) : s.list.length = (c.list s.store).length := by
  rw [← s.entries_list, List.length_map]

theorem getElem?_entries {s : Numbered c} {i : ℕ} {a : ℕ × c.Entry} (h : s.list[i]? = some a) :
    (c.list s.store)[i]? = some a.2 := by
  rw [← s.entries_list, List.getElem?_map, h, Option.map_some]

theorem node_list (s : Numbered c) (i : ℕ) : node s.list i = node (c.list s.store) i := by
  rw [node, node, s.length_list]

theorem keys_list (s : Numbered c) :
    (s.list.map (Prod.map id c.key)).map Prod.snd = (c.list s.store).map c.key := by
  rw [← s.entries_list, List.map_map, List.map_map]
  rfl

theorem numbers_keys (s : Numbered c) :
    (s.list.map (Prod.map id c.key)).map Prod.fst = s.numbers := by
  rw [List.map_map, ← s.numbers_list]
  rfl

theorem length_setList (l : List (ℕ × c.Entry)) (store : c.Store) :
    (l.map Prod.fst).length = (c.list (c.setList (l.map Prod.snd) store)).length := by
  rw [c.list_setList, List.length_map, List.length_map]

def setList (l : List (ℕ × c.Entry)) (s : Numbered c) : Numbered c :=
  ⟨c.setList (l.map Prod.snd) s.store, l.map Prod.fst, s.next, length_setList l s.store⟩

theorem list_setList (l : List (ℕ × c.Entry)) (s : Numbered c) : (s.setList l).list = l := by
  rw [list, setList]
  dsimp only
  rw [c.list_setList, ← List.unzip_fst, ← List.unzip_snd, List.zip_unzip]

/-- How many entries there are more in the list of `store`. -/
def arrivals (s : Numbered c) (store : c.Store) : ℕ :=
  (c.list store).length - (c.list s.store).length

theorem length_use (s : Numbered c) {store : c.Store}
    (h : (c.list s.store).length ≤ (c.list store).length) :
    (s.numbers ++ List.range' s.next (s.arrivals store)).length = (c.list store).length := by
  rw [List.length_append, List.length_range', s.length_eq, arrivals, Nat.add_sub_cancel' h]

/-- The entries that arrive get the next numbers. -/
def use (currTime : c.Time) (u : c.Use) (s : Numbered c) : Option (Numbered c) :=
  match huse : c.use currTime u s.store with
  | none => none
  | some store => some ⟨store, s.numbers ++ List.range' s.next (s.arrivals store),
      s.next + s.arrivals store, s.length_use (Cache.length_le huse)⟩

theorem use_cases {currTime : c.Time} {u : c.Use} {s s' : Numbered c}
    (h : s.use currTime u = some s') :
    c.use currTime u s.store = some s'.store ∧
      s'.numbers = s.numbers ++ List.range' s.next (s.arrivals s'.store) ∧
      s'.next = s.next + s.arrivals s'.store := by
  unfold use at h
  split at h
  · cases h
  · next store huse =>
      cases h
      exact ⟨huse, rfl, rfl⟩

theorem use_defined (currTime : c.Time) (u : c.Use) (s : Numbered c) :
    ∃ s', s.use currTime u = some s' := by
  obtain ⟨store, keys, huse, -⟩ := c.use_grows currTime u s.store
  unfold use
  split
  · next hnone =>
      rw [huse] at hnone
      cases hnone
  · exact ⟨_, rfl⟩

theorem use_grows (currTime : c.Time) (u : c.Use) (s : Numbered c) :
    ∃ s' keys, s.use currTime u = some s' ∧
      s'.list.map (Prod.map id c.key) = s.list.map (Prod.map id c.key) ++ keys := by
  obtain ⟨s', hs'⟩ := use_defined currTime u s
  obtain ⟨huse, hnumbers, -⟩ := use_cases hs'
  obtain ⟨store, keys, huse', hkeys⟩ := c.use_grows currTime u s.store
  obtain rfl : s'.store = store := Option.some.inj (huse.symm.trans huse')
  refine ⟨s', (List.range' s.next (s.arrivals s'.store)).zip keys, hs', ?_⟩
  unfold list
  rw [← List.zip_map_right, ← List.zip_map_right, hkeys, hnumbers]
  exact List.zip_append (by rw [List.length_map, s.length_eq])

end Numbered

/-- The cache with a number for each entry. -/
def Cache.numbered (c : Cache) : Cache where
  Store := Numbered c
  Entry := ℕ × c.Entry
  Key := ℕ × c.Key
  Time := c.Time
  Use := c.Use
  list := Numbered.list
  setList := Numbered.setList
  list_setList := Numbered.list_setList
  key := Prod.map id c.key
  aged currTime a := c.aged currTime a.2
  use := Numbered.use
  use_grows := Numbered.use_grows

/-- The store with its entries numbered from the head of the list. -/
def Cache.number (c : Cache) (store : c.Store) : Numbered c :=
  ⟨store, List.range (c.list store).length, (c.list store).length, List.length_range⟩

def Phase.map {α β : Type} (f : α → β) : Phase α → Phase β
  | .counting iterator count => .counting iterator count
  | .copying iterator count entries => .copying iterator count (entries.map f)
  | .done entries => .done (entries.map f)

/-- The state without the numbers. -/
def State.plain (s : State c.numbered) : State c :=
  ⟨s.store.store, s.phase.map Prod.snd, s.arrived.map Prod.snd,
    s.examined.map fun p => (p.1, p.2.2)⟩

theorem plain_start (store : c.Store) :
    (start c.numbered (c.number store)).plain = start c store := by
  have hnode : node (c.number store).list 0 = node (c.list store) 0 :=
    (c.number store).node_list 0
  have hkeys : ((c.number store).list.map (Prod.map id c.key)).map Prod.snd =
      (c.list store).map c.key := (c.number store).keys_list
  rw [start, ← hnode, ← hkeys]
  rfl

theorem plain_examine {currTime : c.Time} {i count : ℕ} {s s' : State c.numbered}
    (h : examine c.numbered currTime i count s = some s') :
    examine c currTime i count s.plain = some s'.plain := by
  obtain ⟨a, ha, rfl⟩ := Option.map_eq_some_iff.1 h
  have hsweep := sweepStep_map Prod.snd (c.aged currTime) s.store.list i
  rw [s.store.entries_list] at hsweep
  have hplain : examine c currTime i count s.plain = _ :=
    congrArg (Option.map _) (Numbered.getElem?_entries ha)
  rw [hplain, Option.map_some, State.plain]
  dsimp only
  rw [hsweep]
  simp only [State.plain, List.map_append]
  rfl

theorem plain_copy {iterator : Option ℕ} {count : ℕ} {entries : List (ℕ × c.Entry)}
    {s s' : State c.numbered} (h : copy c.numbered iterator count entries s = some s') :
    copy c iterator count (entries.map Prod.snd) s.plain = some s'.plain := by
  obtain ⟨i, rfl, hmap⟩ := Option.bind_eq_some_iff.1 h
  obtain ⟨a, ha, rfl⟩ := Option.map_eq_some_iff.1 hmap
  have hnode : node s.store.list (i + 1) = node (c.list s.store.store) (i + 1) :=
    s.store.node_list (i + 1)
  have hcopied : ∀ a : ℕ × c.Entry, (entries ++ [a]).map Prod.snd =
      entries.map Prod.snd ++ [a.2] := fun _ => List.map_append
  have hplain : copy c (some i) count (entries.map Prod.snd) s.plain = _ :=
    congrArg (Option.map _) (Numbered.getElem?_entries ha)
  rw [hplain, Option.map_some, State.plain, State.plain]
  dsimp only
  rw [← hnode, ← hcopied a]
  rfl

/-- The numbers make no difference to a step. -/
theorem plain_step {s s' : State c.numbered} {e : Event c.Time c.Use}
    (h : step c.numbered s e = some s') : step c s.plain e = some s'.plain := by
  obtain ⟨currTime, action⟩ := e
  cases action with
  | maintain =>
      have hmaintain : maintain c.numbered currTime s = some s' := h
      obtain ⟨store, phase, arrived, examined⟩ := s
      cases phase with
      | counting iterator count =>
          cases iterator with
          | some i => exact plain_examine hmaintain
          | none =>
              have hnode : node store.list 0 = node (c.list store.store) 0 := store.node_list 0
              cases hmaintain
              rw [step, State.plain, State.plain]
              dsimp only [Phase.map, maintain]
              rw [← hnode]
              rfl
      | copying iterator count entries =>
          have hlength : (entries.map Prod.snd).length = entries.length := List.length_map _
          rw [step, State.plain]
          dsimp only [Phase.map, maintain] at hmaintain ⊢
          rw [hlength]
          split at hmaintain
          · next hlt =>
              rw [if_pos hlt]
              exact plain_copy hmaintain
          · next hge =>
              rw [if_neg hge]
              cases hmaintain
              rfl
      | done entries =>
          cases hmaintain
          rfl
  | use u =>
      obtain ⟨store, hstore, rfl⟩ := Option.map_eq_some_iff.1 h
      obtain ⟨huse, -, -⟩ := Numbered.use_cases hstore
      have hplain : step c s.plain ⟨currTime, .use u⟩ = _ := congrArg (Option.map _) huse
      have hkeys : ((store.list.map (Prod.map id c.key)).drop s.store.list.length).map Prod.snd =
          ((c.list store.store).map c.key).drop (c.list s.store.store).length := by
        rw [List.map_drop, store.keys_list, s.store.length_list]
      have harrived : ∀ arrived : List (ℕ × c.Key), (arrived ++
          (store.list.map (Prod.map id c.key)).drop s.store.list.length).map Prod.snd = _ :=
        fun _ => List.map_append
      rw [hkeys] at harrived
      rw [hplain, Option.map_some, State.plain, State.plain]
      dsimp only
      rw [← harrived s.arrived]
      rfl

theorem plain_run {store : c.Store} {es : List (Event c.Time c.Use)} {s : State c.numbered}
    (h : run c.numbered (c.number store) es = some s) : run c store es = some s.plain := by
  refine Run.runFrom_history (fun es s => run c store es = some s.plain) ?_ ?_ h
  · exact congrArg some (plain_start store).symm
  · intro es e s s' _ hplain hstep
    exact Run.runFrom_append_singleton_eq_some.2 ⟨s.plain, hplain, plain_step hstep⟩

/-- The numbers given so far are those of the entries that were there or have arrived. -/
def Counts (s : State c.numbered) : Prop := s.arrived.map Prod.fst = List.range s.store.next

theorem counts_start (store : c.Store) : Counts (start c.numbered (c.number store)) := by
  have hnumbers : ((c.number store).list.map (Prod.map id c.key)).map Prod.fst =
      List.range (c.list store).length := (c.number store).numbers_keys
  exact hnumbers

theorem Counts.maintain {currTime : c.Time} {s s' : State c.numbered} (h : Counts s)
    (hstep : Snapshot.maintain c.numbered currTime s = some s') : Counts s' := by
  obtain ⟨store, phase, arrived, examined⟩ := s
  cases phase with
  | counting iterator count =>
      cases iterator with
      | some i =>
          obtain ⟨a, -, rfl⟩ := Option.map_eq_some_iff.1 hstep
          exact h
      | none =>
          cases hstep
          exact h
  | copying iterator count entries =>
      dsimp only [Snapshot.maintain] at hstep
      split at hstep
      · obtain ⟨i, -, hmap⟩ := Option.bind_eq_some_iff.1 hstep
        obtain ⟨a, -, rfl⟩ := Option.map_eq_some_iff.1 hmap
        exact h
      · cases hstep
        exact h
  | done entries =>
      cases hstep
      exact h

theorem Counts.use {currTime : c.Time} {u : c.Use} {s s' : State c.numbered} (h : Counts s)
    (hstep : step c.numbered s ⟨currTime, .use u⟩ = some s') : Counts s' := by
  obtain ⟨store, hstore, rfl⟩ := Option.map_eq_some_iff.1 hstep
  obtain ⟨-, hnumbers, hnext⟩ := Numbered.use_cases hstore
  have hnew : ((store.list.map (Prod.map id c.key)).drop s.store.list.length).map Prod.fst =
      List.range' s.store.next (s.store.arrivals store.store) := by
    rw [List.map_drop, store.numbers_keys, hnumbers, s.store.length_list,
      List.drop_left' s.store.length_eq]
  have harrived : ∀ arrived : List (ℕ × c.Key), (arrived ++
      (store.list.map (Prod.map id c.key)).drop s.store.list.length).map Prod.fst = _ :=
    fun _ => List.map_append
  refine (harrived s.arrived).trans ?_
  rw [hnew, h, hnext, List.range_add, List.range'_eq_map_range]

theorem counts_run {store : c.Store} {es : List (Event c.Time c.Use)} {s : State c.numbered}
    (h : run c.numbered (c.number store) es = some s) : Counts s := by
  refine Run.runFrom_preserved Counts ?_ (counts_start store) h
  rintro s ⟨currTime, action⟩ s' hcounts hstep
  cases action with
  | maintain => exact hcounts.maintain hstep
  | use u => exact hcounts.use hstep

theorem nodup_entries {s : State c.numbered} (hcounts : Counts s) (hpruned : Pruned c.numbered s)
    (harray : ArrayExact c.numbered s) {entries : List (ℕ × c.Entry)}
    (hdone : s.phase = .done entries) : (entries.map Prod.fst).Nodup := by
  have harrived : (s.arrived.map Prod.fst).Nodup := hcounts ▸ List.nodup_range
  have hsublist : ((entries.map (Prod.map id c.key)).map Prod.fst).Sublist
      (s.arrived.map Prod.fst) :=
    ((harray entries hdone).symm ▸ hpruned.kept_sublist).map Prod.fst
  have hnumbers : (entries.map (Prod.map id c.key)).map Prod.fst = entries.map Prod.fst := by
    rw [List.map_map]
    rfl
  exact hnumbers ▸ harrived.sublist hsublist

/-- The run with numbers is the run. No number is in the array twice, so that what is exact is
exact entry by entry, whatever the keys are. -/
theorem exact_numbered (store : c.Store) (es : List (Event c.Time c.Use)) :
    ∃ s, run c.numbered (c.number store) es = some s ∧ run c store es = some s.plain ∧
      Pruned c.numbered s ∧ ArrayExact c.numbered s ∧
      Swept c.numbered (c.number store) es s ∧ Advances c.numbered es s ∧
      ∀ entries, s.phase = .done entries → (entries.map Prod.fst).Nodup := by
  obtain ⟨s, hs, hpruned, harray, hswept, hadvances⟩ :=
    @exact_run c.numbered (c.number store) es
  exact ⟨s, hs, plain_run hs, hpruned, harray, hswept, hadvances,
    fun entries hdone => nodup_entries (counts_run hs) hpruned harray hdone⟩

end Snapshot
