import Iprp.Library.KeyedList
import Iprp.Library.Run

/-!
# Snapshots of a list that grows

A maintenance thread sweeps a list, counts the entries that it keeps, and then copies as many
entries from the head of the list into an array. It holds a lock for one iteration of the sweep
at a time, and none while it copies. Between any two of its iterations other threads use the
list: they append entries and change those there are, but never their keys.

The count is the length of a prefix of the list at every moment, so the copying finds an entry
behind every pointer, and the array holds the entries that the sweep has examined and kept. The
sweep examines all that is there before its iterator becomes null (`exact_run`).
-/

namespace Snapshot

open KeyedList

/-- A list within the store of a program, and what the other threads do to it. -/
structure Cache where
  Store : Type
  Entry : Type
  Key : Type
  Time : Type
  Use : Type
  list : Store → List Entry
  setList : List Entry → Store → Store
  list_setList : ∀ l s, list (setList l s) = l
  key : Entry → Key
  aged : Time → Entry → Bool
  use : Time → Use → Store → Option Store
  use_grows : ∀ currTime u s, ∃ s' keys, use currTime u s = some s' ∧
    (list s').map key = (list s).map key ++ keys

/-- Where the maintenance thread is. -/
inductive Phase (α : Type) where
  | counting (iterator : Option ℕ) (count : ℕ)
  | copying (iterator : Option ℕ) (count : ℕ) (entries : List α)
  | done (entries : List α)

variable (c : Cache)

/-- The store and the maintenance thread. The rest is for the record: the keys of the entries
that were there or have been appended, and the entries examined, as they were and at what
time. -/
structure State where
  store : c.Store
  phase : Phase c.Entry
  arrived : List c.Key
  examined : List (c.Time × c.Entry)

inductive Action (Use : Type) where
  | maintain
  | use (u : Use)

structure Event (Time Use : Type) where
  currTime : Time
  action : Action Use

/-- The maintenance thread at the head of the list. -/
def start (store : c.Store) : State c :=
  ⟨store, .counting (node (c.list store) 0) 0, (c.list store).map c.key, []⟩

/-- One iteration of the sweep. -/
def examine (currTime : c.Time) (i count : ℕ) (s : State c) : Option (State c) :=
  (c.list s.store)[i]?.map fun a =>
    let (l, iterator) := sweepStep (c.aged currTime) (c.list s.store) i
    let count := if c.aged currTime a then count else count + 1
    ⟨c.setList l s.store, .counting iterator count, s.arrived, s.examined ++ [(currTime, a)]⟩

/-- One iteration of the copying, absent when the iterator is the null pointer. -/
def copy (iterator : Option ℕ) (count : ℕ) (entries : List c.Entry) (s : State c) :
    Option (State c) :=
  iterator.bind fun i => (c.list s.store)[i]?.map fun a =>
    { s with phase := .copying (node (c.list s.store) (i + 1)) count (entries ++ [a]) }

/-- One iteration of the maintenance thread, or its way from one loop to the next. -/
def maintain (currTime : c.Time) (s : State c) : Option (State c) :=
  match s.phase with
  | .counting (some i) count => examine c currTime i count s
  | .counting none count =>
      some { s with phase := .copying (node (c.list s.store) 0) count [] }
  | .copying iterator count entries =>
      if entries.length < count then copy c iterator count entries s
      else some { s with phase := .done entries }
  | .done _ => some s

def step (s : State c) (e : Event c.Time c.Use) : Option (State c) :=
  match e.action with
  | .maintain => maintain c e.currTime s
  | .use u => (c.use e.currTime u s.store).map fun store =>
      { s with
        store := store
        arrived := s.arrived ++ ((c.list store).map c.key).drop (c.list s.store).length }

def run (store : c.Store) (es : List (Event c.Time c.Use)) : Option (State c) :=
  Run.runFrom (step c) (start c store) es

/-- The entries examined and kept. -/
def kept (examined : List (c.Time × c.Entry)) : List c.Entry :=
  (examined.filter fun p => !c.aged p.1 p.2).map Prod.snd

/-- The list has lost the entries that were aged when they were examined, and nothing else: it
holds the others that were examined, as they are by now, and then those of the entries arrived
that wait. -/
def Pruned (s : State c) : Prop :=
  ∃ seen waiting, c.list s.store = seen ++ waiting ∧
    seen.map c.key = (kept c s.examined).map c.key ∧
    s.arrived = s.examined.map (fun p => c.key p.2) ++ waiting.map c.key

/-- The array holds the entries examined and kept. -/
def ArrayExact (s : State c) : Prop :=
  ∀ entries, s.phase = .done entries → entries.map c.key = (kept c s.examined).map c.key

/-- The sweep is at an entry. -/
def Sweeping (s : State c) : Prop := ∃ i count, s.phase = .counting (some i) count

/-- The sweep has left nothing out: what had been there or had arrived when its iterator became
null is what it has examined in the end. -/
def Swept (store : c.Store) (es : List (Event c.Time c.Use)) (s : State c) : Prop :=
  ∀ k s₀, run c store (es.take k) = some s₀ → ¬ Sweeping c s₀ →
    (∀ j < k, ∀ s₁, run c store (es.take j) = some s₁ → Sweeping c s₁) →
    s₀.arrived = s.examined.map fun p => c.key p.2

def Event.isMaintain {Time Use : Type} (e : Event Time Use) : Bool :=
  match e.action with
  | .maintain => true
  | .use _ => false

/-- How often it was the turn of the maintenance thread. -/
def turns {Time Use : Type} (es : List (Event Time Use)) : ℕ := es.countP Event.isMaintain

/-- Every turn of the maintenance thread examines or copies an entry, or takes it from one loop
to the next. -/
def Advances (es : List (Event c.Time c.Use)) (s : State c) : Prop :=
  match s.phase with
  | .counting _ _ => turns es = s.examined.length
  | .copying _ _ entries => turns es = s.examined.length + 1 + entries.length
  | .done entries => s.examined.length + 1 + entries.length + 1 ≤ turns es

/-- What the variables of the maintenance thread are. -/
def Tracks (s : State c) : Prop :=
  match s.phase with
  | .counting iterator count => count = (kept c s.examined).length ∧
      ∀ i, iterator = some i → i = count ∧ i < (c.list s.store).length
  | .copying iterator count entries => count = (kept c s.examined).length ∧
      entries.map c.key = ((kept c s.examined).take entries.length).map c.key ∧
      entries.length ≤ count ∧ (entries.length < count → iterator = some entries.length)
  | .done entries => entries.map c.key = (kept c s.examined).map c.key

structure Invariant (s : State c) : Prop where
  pruned : Pruned c s
  tracks : Tracks c s

variable {c}

theorem kept_concat_aged {currTime : c.Time} {a : c.Entry} (haged : c.aged currTime a = true)
    (examined : List (c.Time × c.Entry)) :
    kept c (examined ++ [(currTime, a)]) = kept c examined := by
  unfold kept
  rw [List.filter_append, List.filter_cons_of_neg (by simp [haged]), List.filter_nil,
    List.append_nil]

theorem kept_concat_fresh {currTime : c.Time} {a : c.Entry} (hfresh : c.aged currTime a = false)
    (examined : List (c.Time × c.Entry)) :
    kept c (examined ++ [(currTime, a)]) = kept c examined ++ [a] := by
  unfold kept
  rw [List.filter_append, List.filter_cons_of_pos (by simp [hfresh]), List.filter_nil,
    List.map_append]
  rfl

/-- Only entries that were there or have been appended are kept. -/
theorem Pruned.kept_sublist {s : State c} (h : Pruned c s) :
    ((kept c s.examined).map c.key).Sublist s.arrived := by
  obtain ⟨seen, waiting, -, -, harrived⟩ := h
  have hkept : ((kept c s.examined).map c.key).Sublist
      ((s.examined.map Prod.snd).map c.key) := (List.filter_sublist.map Prod.snd).map c.key
  rw [List.map_map] at hkept
  rw [harrived]
  exact hkept.trans (List.sublist_append_left _ _)

theorem Invariant.arrayExact {s : State c} (h : Invariant c s) : ArrayExact c s := by
  intro entries hdone
  have htracks := h.tracks
  rw [Tracks, hdone] at htracks
  exact htracks

/-- The array has the keys of a first part of the list, also when the list has grown since. -/
theorem Invariant.array_prefix {s : State c} (h : Invariant c s) {entries : List c.Entry}
    (hdone : s.phase = .done entries) : entries.map c.key <+: (c.list s.store).map c.key := by
  obtain ⟨seen, waiting, hlist, hseen, -⟩ := h.pruned
  rw [h.arrayExact entries hdone, hlist, List.map_append, hseen]
  exact List.prefix_append _ _

theorem invariant_start (store : c.Store) : Invariant c (start c store) := by
  refine ⟨⟨[], c.list store, rfl, rfl, rfl⟩, rfl, ?_⟩
  intro i hi
  obtain ⟨rfl, hlt⟩ := node_eq_some_iff.1 hi
  exact ⟨rfl, hlt⟩

theorem length_le_of_keys {α κ : Type*} {key : α → κ} {l l' : List α} {keys : List κ}
    (h : l'.map key = l.map key ++ keys) : l.length ≤ l'.length := by
  have hlengths := congrArg List.length h
  rw [List.length_append, List.length_map, List.length_map] at hlengths
  exact Nat.le_of_add_right_le (Nat.le_of_eq hlengths.symm)

/-- Growth of the list leaves what is said of it. -/
theorem Invariant.use {s : State c} (h : Invariant c s) {store : c.Store} {keys : List c.Key}
    (hkeys : (c.list store).map c.key = (c.list s.store).map c.key ++ keys) :
    Invariant c { s with
      store := store
      arrived := s.arrived ++ ((c.list store).map c.key).drop (c.list s.store).length } := by
  obtain ⟨⟨seen, waiting, hlist, hseen, harrived⟩, htracks⟩ := h
  have hdrop : ((c.list store).map c.key).drop (c.list s.store).length = keys := by
    rw [hkeys, List.drop_left' (List.length_map _)]
  have hlength : (c.list s.store).length ≤ (c.list store).length := length_le_of_keys hkeys
  rw [hlist, List.map_append, List.append_assoc] at hkeys
  obtain ⟨seen', waiting', hlist', hseen', hwaiting'⟩ := List.map_eq_append_iff.1 hkeys
  refine ⟨⟨seen', waiting', hlist', hseen'.trans hseen, ?_⟩, ?_⟩
  · dsimp only
    rw [hdrop, harrived, hwaiting', List.append_assoc]
  · obtain ⟨store', phase, arrived, examined⟩ := s
    cases phase with
    | counting iterator count =>
        refine ⟨htracks.1, ?_⟩
        intro i hi
        obtain ⟨hcount, hlt⟩ := htracks.2 i hi
        exact ⟨hcount, Nat.lt_of_lt_of_le hlt hlength⟩
    | copying iterator count entries => exact htracks
    | done entries => exact htracks

/-! ## Steps of the maintenance thread -/

theorem Invariant.examine {s : State c} {i count : ℕ} (h : Invariant c s)
    (hphase : s.phase = .counting (some i) count) (currTime : c.Time) :
    ∃ s', Snapshot.examine c currTime i count s = some s' ∧ Invariant c s' := by
  obtain ⟨store, phase, arrived, examined⟩ := s
  obtain rfl : phase = .counting (some i) count := hphase
  obtain ⟨⟨seen, waiting, hlist, hseen, harrived⟩, hcount, hcursor⟩ := h
  obtain ⟨rfl, hlt⟩ := hcursor i rfl
  dsimp only at hlist hseen harrived hcount hlt
  have hlength : seen.length = i := by
    rw [hcount, ← List.length_map, hseen, List.length_map]
  -- the entry examined is the first one that waits
  obtain ⟨a, waiting, rfl⟩ : ∃ a waiting', waiting = a :: waiting' := by
    cases waiting with
    | nil =>
        rw [hlist, List.append_nil, hlength] at hlt
        exact absurd hlt (Nat.lt_irrefl i)
    | cons a waiting' => exact ⟨a, waiting', rfl⟩
  have hget : (c.list store)[i]? = some a := by
    rw [hlist, ← hlength, List.getElem?_append_right (Nat.le_refl _), Nat.sub_self]
    rfl
  have harrived' : arrived = (examined ++ [(currTime, a)]).map (fun p => c.key p.2) ++
      waiting.map c.key := by
    rw [harrived, List.map_append, List.append_assoc]
    rfl
  refine ⟨_, by rw [Snapshot.examine, hget, Option.map_some], ?_⟩
  rw [sweepStep, hget]
  dsimp only
  cases haged : c.aged currTime a with
  | true =>
      have herase : (c.list store).eraseIdx i = seen ++ waiting := by
        rw [hlist, ← hlength, List.eraseIdx_append_of_length_le (Nat.le_refl _), Nat.sub_self]
        rfl
      rw [if_pos rfl, if_pos rfl, herase]
      refine ⟨⟨seen, waiting, c.list_setList _ _, ?_, harrived'⟩, ?_, ?_⟩
      · rw [kept_concat_aged haged]
        exact hseen
      · rw [kept_concat_aged haged]
        exact hcount
      · intro j hj
        obtain ⟨rfl, hlt'⟩ := node_eq_some_iff.1 hj
        rw [c.list_setList]
        exact ⟨rfl, hlt'⟩
  | false =>
      have happend : c.list store = (seen ++ [a]) ++ waiting := by
        rw [hlist, List.append_assoc]
        rfl
      rw [if_neg Bool.false_ne_true, if_neg Bool.false_ne_true]
      refine ⟨⟨seen ++ [a], waiting, ?_, ?_, harrived'⟩, ?_, ?_⟩
      · rw [c.list_setList, happend]
      · rw [kept_concat_fresh haged, List.map_append, List.map_append, hseen]
      · rw [kept_concat_fresh haged, List.length_append, hcount]
        rfl
      · intro j hj
        obtain ⟨rfl, hlt'⟩ := node_eq_some_iff.1 hj
        rw [c.list_setList]
        exact ⟨rfl, hlt'⟩

theorem Invariant.copy {s : State c} {iterator : Option ℕ} {count : ℕ} {entries : List c.Entry}
    (h : Invariant c s) (hphase : s.phase = .copying iterator count entries)
    (hlt : entries.length < count) :
    ∃ s', Snapshot.copy c iterator count entries s = some s' ∧ Invariant c s' := by
  obtain ⟨store, phase, arrived, examined⟩ := s
  obtain rfl : phase = .copying iterator count entries := hphase
  obtain ⟨⟨seen, waiting, hlist, hseen, harrived⟩, hcount, hentries, -, hiterator⟩ := h
  obtain rfl := hiterator hlt
  dsimp only at hlist hseen harrived hcount hentries
  have hlength : seen.length = count := by
    rw [hcount, ← List.length_map, hseen, List.length_map]
  have hbound : count ≤ (c.list store).length := by
    rw [hlist, List.length_append, hlength]
    exact Nat.le_add_right _ _
  have hin : entries.length < seen.length := by rwa [hlength]
  have hget : (c.list store)[entries.length]? = some seen[entries.length] := by
    rw [hlist, List.getElem?_append_left hin, List.getElem?_eq_getElem hin]
  have hkey : ((kept c examined).map c.key)[entries.length]? =
      some (c.key seen[entries.length]) := by
    rw [← hseen, List.getElem?_map, List.getElem?_eq_getElem hin, Option.map_some]
  refine ⟨_, by rw [Snapshot.copy, Option.bind_some, hget, Option.map_some], ?_⟩
  refine ⟨⟨seen, waiting, hlist, hseen, harrived⟩, hcount, ?_, ?_, ?_⟩
  · rw [List.length_append, List.length_singleton, List.map_append, List.map_take,
      List.take_add_one, hkey, hentries, List.map_take]
    rfl
  · rw [List.length_append]
    exact hlt
  · intro hmore
    rw [List.length_append, List.length_singleton] at hmore ⊢
    exact node_eq_some_iff.2 ⟨rfl, Nat.lt_of_lt_of_le hmore hbound⟩

theorem Invariant.maintain {s : State c} (h : Invariant c s) (currTime : c.Time) :
    ∃ s', Snapshot.maintain c currTime s = some s' ∧ Invariant c s' := by
  unfold Snapshot.maintain
  cases hphase : s.phase with
  | counting iterator count =>
      cases iterator with
      | some i => exact h.examine hphase currTime
      | none =>
          obtain ⟨hpruned, htracks⟩ := h
          rw [Tracks, hphase] at htracks
          obtain ⟨hcount, -⟩ := htracks
          refine ⟨_, rfl, hpruned, hcount, rfl, Nat.zero_le count, ?_⟩
          intro hlt
          obtain ⟨seen, waiting, hlist, hseen, -⟩ := hpruned
          have hlength : seen.length = count := by
            rw [hcount, ← List.length_map, hseen, List.length_map]
          refine node_eq_some_iff.2 ⟨rfl, ?_⟩
          rw [hlist, List.length_append, hlength]
          exact Nat.lt_add_right _ hlt
  | copying iterator count entries =>
      dsimp only
      split
      · next hlt => exact h.copy hphase hlt
      · next hge =>
          obtain ⟨hpruned, htracks⟩ := h
          rw [Tracks, hphase] at htracks
          obtain ⟨hcount, hentries, hle, -⟩ := htracks
          refine ⟨_, rfl, hpruned, ?_⟩
          have hall : entries.length = (kept c s.examined).length :=
            hcount ▸ Nat.le_antisymm hle (Nat.le_of_not_lt hge)
          rw [hall, List.take_length] at hentries
          exact hentries
  | done entries => exact ⟨s, rfl, h⟩

theorem Invariant.step {s : State c} (h : Invariant c s) (e : Event c.Time c.Use) :
    ∃ s', Snapshot.step c s e = some s' ∧ Invariant c s' := by
  obtain ⟨currTime, action⟩ := e
  cases action with
  | maintain => exact h.maintain currTime
  | use u =>
      obtain ⟨store, keys, huse, hkeys⟩ := c.use_grows currTime u s.store
      refine ⟨_, ?_, h.use hkeys⟩
      rw [Snapshot.step]
      dsimp only
      rw [huse, Option.map_some]

/-! ## The end of the sweep -/

theorem examine_cursor {currTime : c.Time} {count : ℕ} {s s' : State c}
    (h : examine c currTime count count s = some s') :
    ∃ count', s'.phase = .counting (node (c.list s'.store) count') count' := by
  obtain ⟨a, ha, rfl⟩ := Option.map_eq_some_iff.1 h
  rw [sweepStep, ha]
  dsimp only
  rw [c.list_setList]
  cases haged : c.aged currTime a with
  | true => exact ⟨count, rfl⟩
  | false => exact ⟨count + 1, rfl⟩

theorem Invariant.arrived_of_end {s : State c} (h : Invariant c s) {count : ℕ}
    (hphase : s.phase = .counting (node (c.list s.store) count) count)
    (hends : ¬ Sweeping c s) : s.arrived = s.examined.map fun p => c.key p.2 := by
  obtain ⟨⟨seen, waiting, hlist, hseen, harrived⟩, htracks⟩ := h
  rw [Tracks, hphase] at htracks
  have hnull : node (c.list s.store) count = none := by
    by_contra hne
    obtain ⟨i, hi⟩ := Option.ne_none_iff_exists'.1 hne
    exact hends ⟨i, count, hphase.trans (by rw [hi])⟩
  have hlength : seen.length = count := by
    rw [htracks.1, ← List.length_map, hseen, List.length_map]
  have hnone : waiting = [] := by
    have hle := node_eq_none_iff.1 hnull
    rw [hlist, List.length_append, hlength] at hle
    exact List.length_eq_zero_iff.1 (by omega)
  rw [harrived, hnone, List.map_nil, List.append_nil]

theorem arrived_of_ends {s s' : State c} (h : Invariant c s) {e : Event c.Time c.Use}
    (hsweeping : Sweeping c s) (hstep : step c s e = some s') (hends : ¬ Sweeping c s') :
    s'.arrived = s'.examined.map fun p => c.key p.2 := by
  obtain ⟨s'', hs'', hinvariant⟩ := h.step e
  obtain rfl := Option.some.inj (hstep.symm.trans hs'')
  obtain ⟨currTime, action⟩ := e
  obtain ⟨i, count, hphase⟩ := hsweeping
  have htracks := h.tracks
  rw [Tracks, hphase] at htracks
  obtain ⟨rfl, -⟩ := htracks.2 i rfl
  cases action with
  | use u =>
      obtain ⟨store, -, rfl⟩ := Option.map_eq_some_iff.1 hstep
      exact absurd ⟨i, i, hphase⟩ hends
  | maintain =>
      rw [step] at hstep
      dsimp only at hstep
      rw [maintain, hphase] at hstep
      obtain ⟨count', hcursor⟩ := examine_cursor hstep
      exact hinvariant.arrived_of_end hcursor hends

theorem examined_after {s s' : State c} {e : Event c.Time c.Use} (h : ¬ Sweeping c s)
    (hstep : step c s e = some s') : ¬ Sweeping c s' ∧ s'.examined = s.examined := by
  obtain ⟨currTime, action⟩ := e
  cases action with
  | use u =>
      obtain ⟨store, -, rfl⟩ := Option.map_eq_some_iff.1 hstep
      exact ⟨h, rfl⟩
  | maintain =>
      rw [step] at hstep
      dsimp only at hstep
      unfold maintain at hstep
      split at hstep
      · next i count hphase => exact absurd ⟨i, count, hphase⟩ h
      · cases hstep
        exact ⟨by simp [Sweeping], rfl⟩
      · split at hstep
        · obtain ⟨i, -, hmap⟩ := Option.bind_eq_some_iff.1 hstep
          obtain ⟨a, -, rfl⟩ := Option.map_eq_some_iff.1 hmap
          exact ⟨by simp [Sweeping], rfl⟩
        · cases hstep
          exact ⟨by simp [Sweeping], rfl⟩
      · cases hstep
        exact ⟨h, rfl⟩

theorem invariant_run {store : c.Store} {es : List (Event c.Time c.Use)} {s : State c}
    (h : run c store es = some s) : Invariant c s := by
  refine Run.runFrom_preserved (Invariant c) ?_ (invariant_start store) h
  intro s e s' hs hstep
  obtain ⟨s'', hs'', hinvariant⟩ := hs.step e
  rwa [Option.some.inj (hstep.symm.trans hs'')]

/-- At the moment when the iterator becomes null. -/
theorem arrived_of_first_end {store : c.Store} {es : List (Event c.Time c.Use)} {k : ℕ}
    {s₀ : State c} (hs₀ : run c store (es.take k) = some s₀) (hends : ¬ Sweeping c s₀)
    (hbefore : ∀ j < k, ∀ s₁, run c store (es.take j) = some s₁ → Sweeping c s₁) :
    s₀.arrived = s₀.examined.map fun p => c.key p.2 := by
  cases k with
  | zero =>
      obtain rfl : start c store = s₀ := Option.some.inj hs₀
      exact (invariant_start store).arrived_of_end rfl hends
  | succ j =>
      have hsweeping := hbefore j (Nat.lt_succ_self j)
      cases he : es[j]? with
      | none =>
          have hsame : es.take (j + 1) = es.take j := by simp [List.take_add_one, he]
          rw [hsame] at hs₀
          exact absurd (hsweeping s₀ hs₀) hends
      | some e =>
          obtain ⟨s₁, hs₁, hstep⟩ := (Run.runFrom_take_succ_eq_some he).1 hs₀
          exact arrived_of_ends (invariant_run hs₁) (hsweeping s₁ hs₁) hstep hends

/-- After the sweep nothing more is examined. -/
theorem examined_from {s₀ s : State c} {es : List (Event c.Time c.Use)} (hends : ¬ Sweeping c s₀)
    (h : Run.runFrom (step c) s₀ es = some s) : s.examined = s₀.examined := by
  have hafter : ¬ Sweeping c s ∧ s.examined = s₀.examined := by
    refine Run.runFrom_preserved (fun s => ¬ Sweeping c s ∧ s.examined = s₀.examined) ?_
      ⟨hends, rfl⟩ h
    rintro s e s' ⟨hs, hsame⟩ hstep
    obtain ⟨hs', hsame'⟩ := examined_after hs hstep
    exact ⟨hs', hsame'.trans hsame⟩
  exact hafter.2

/-- What was there when the iterator became null has been examined. -/
theorem swept_run {store : c.Store} {es : List (Event c.Time c.Use)} {s : State c}
    (h : run c store es = some s) : Swept c store es s := by
  intro k s₀ hs₀ hends hbefore
  have hrest : Run.runFrom (step c) s₀ (es.drop k) = some s := by
    rw [← List.take_append_drop k es, run, Run.runFrom_append] at h
    change (run c store (es.take k)).bind _ = _ at h
    rwa [hs₀, Option.bind_some] at h
  rw [examined_from hends hrest]
  exact arrived_of_first_end hs₀ hends hbefore

theorem turns_concat {Time Use : Type} (es : List (Event Time Use)) (e : Event Time Use) :
    turns (es ++ [e]) = turns es + if e.isMaintain then 1 else 0 := by
  rw [turns, List.countP_append, List.countP_singleton, turns]

theorem Advances.step {es : List (Event c.Time c.Use)} {s s' : State c} (h : Advances c es s)
    {e : Event c.Time c.Use} (hstep : Snapshot.step c s e = some s') :
    Advances c (es ++ [e]) s' := by
  obtain ⟨currTime, action⟩ := e
  unfold Advances at h ⊢
  rw [turns_concat]
  cases action with
  | use u =>
      obtain ⟨store, -, rfl⟩ := Option.map_eq_some_iff.1 hstep
      exact h
  | maintain =>
      rw [Snapshot.step] at hstep
      dsimp only at hstep
      unfold maintain at hstep
      split at hstep
      · next i count hphase =>
          rw [hphase] at h
          obtain ⟨a, -, rfl⟩ := Option.map_eq_some_iff.1 hstep
          simp [Event.isMaintain, h]
      · next count hphase =>
          rw [hphase] at h
          cases hstep
          simp [Event.isMaintain, h]
      · next iterator count entries hphase =>
          rw [hphase] at h
          split at hstep
          · obtain ⟨i, -, hmap⟩ := Option.bind_eq_some_iff.1 hstep
            obtain ⟨a, -, rfl⟩ := Option.map_eq_some_iff.1 hmap
            simp [Event.isMaintain, h, Nat.add_assoc]
          · cases hstep
            simp [Event.isMaintain, h]
      · next entries hphase =>
          rw [hphase] at h
          cases hstep
          rw [hphase]
          exact Nat.le_add_right_of_le h

theorem advances_run {store : c.Store} {es : List (Event c.Time c.Use)} {s : State c}
    (h : run c store es = some s) : Advances c es s := by
  have hstart : Advances c [] (start c store) := rfl
  exact Run.runFrom_history (Advances c) hstart (fun _ _ _ _ _ hs hstep => hs.step hstep) h

/-- Every interleaving has a defined result: no pointer that is followed is null. In every state
the list is pruned exactly, the array is exact once it is filled, the sweep has left nothing out
when it is over, and no turn of the maintenance thread has been without its effect. -/
theorem exact_run (store : c.Store) (es : List (Event c.Time c.Use)) :
    ∃ s, run c store es = some s ∧ Pruned c s ∧ ArrayExact c s ∧ Swept c store es s ∧
      Advances c es s := by
  obtain ⟨s, hs, hinv⟩ : ∃ s, run c store es = some s ∧ Invariant c s :=
    Run.runFrom_defined (Invariant c) (fun _ => True) (fun s e h _ => h.step e)
      (invariant_start store) (fun _ _ => trivial)
  exact ⟨s, hs, hinv.pruned, hinv.arrayExact, swept_run hs, advances_run hs⟩

end Snapshot
