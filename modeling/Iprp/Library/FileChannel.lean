import Iprp.Library.KeyedList
import Iprp.Library.Run

/-!
# Handing values over through a file

Writers and readers share one file without a lock. A store opens the file, which truncates
it, writes the bytes of its value in chunks of any size at its own position, and closes it. A
load opens the file, reads it and closes it. `run` interleaves the steps of any number of
stores and loads.

A `Channel` says how a value is written and what a load makes of the bytes that it finds. It
has no check of its own, so a load is right exactly when the file begins with the bytes of a
whole value (`allOrNothing_iff`). When the stores follow one another, this is the case exactly
when the last one has written everything (`allOrNothing_iff_of_sequential`).
-/

namespace FileChannel

/-- How values of `α` are written to a file and read back into `β`. A load depends on the
memory `μ` that it finds, and also tells whether it has read all that it asked for. It has no
result when it accesses memory that it does not have. -/
structure Channel (α β μ : Type*) where
  encode : α → List UInt8
  returned : α → β
  load : μ → List UInt8 → Option (β × Bool)
  load_whole : ∀ {m v rest}, load m (encode v ++ rest) = some (returned v, true)
  prefix_of_load : ∀ {m v file}, load m file = some (returned v, true) → encode v <+: file
  prefix_free : ∀ {v w}, encode v <+: encode w → v = w

/-- A store that has been opened: its value and the number of bytes it has written. -/
structure Store (α : Type*) where
  value : α
  pos : ℕ
  closed : Bool

/-- A load. It fails when there is no file to open. -/
inductive Load (β : Type*) where
  | failed
  | opened
  | loaded (out : Option (β × Bool))
  | closed (out : Option (β × Bool))

/-- What came out of a load that has read the file. -/
def Load.outcome {β : Type*} : Load β → Option (Option (β × Bool))
  | .failed => none
  | .opened => none
  | .loaded out => some out
  | .closed out => some out

/-- The contents of the file, if it exists, and the stores and loads opened so far. -/
structure State (α β : Type*) where
  file : Option (List UInt8)
  stores : List (Store α)
  loads : List (Load β)

def init {α β : Type*} : State α β := ⟨none, [], []⟩

/-- The values passed to the stores so far. -/
def State.values {α β : Type*} (s : State α β) : List α := s.stores.map Store.value

/-- The steps of the stores and loads, which are numbered in the order of their opening. -/
inductive Event (α μ : Type*) where
  | storeOpen (v : α)
  | storeWrite (i n : ℕ)
  | storeClose (i : ℕ)
  | loadOpen
  | loadRead (j : ℕ) (m : μ)
  | loadClose (j : ℕ)

/-- The file with `chunk` written at a position. A gap before it is filled with zeros. -/
def writeAt (file : List UInt8) (pos : ℕ) (chunk : List UInt8) : List UInt8 :=
  file.take pos ++ List.replicate (pos - file.length) 0 ++ chunk ++
    file.drop (pos + chunk.length)

section Steps

variable {α β μ : Type*} (c : Channel α β μ)

/-- The next `n` bytes of a store. -/
def chunk (st : Store α) (n : ℕ) : List UInt8 := ((c.encode st.value).drop st.pos).take n

/-- One step, absent when the step is not possible in the state. -/
def step (s : State α β) : Event α μ → Option (State α β)
  | .storeOpen v => some { s with file := some [], stores := s.stores ++ [⟨v, 0, false⟩] }
  | .storeWrite i n =>
      (s.stores[i]?).bind fun st =>
        if st.closed then none
        else
          let bytes := chunk c st n
          some { s with
            file := s.file.map (writeAt · st.pos bytes)
            stores := s.stores.set i { st with pos := st.pos + bytes.length } }
  | .storeClose i =>
      (s.stores[i]?).bind fun st =>
        if (c.encode st.value).length ≤ st.pos then
          some { s with stores := s.stores.set i { st with closed := true } }
        else none
  | .loadOpen =>
      let load : Load β := match s.file with
        | none => .failed
        | some _ => .opened
      some { s with loads := s.loads ++ [load] }
  | .loadRead j m =>
      match s.loads[j]?, s.file with
      | some .opened, some file =>
          some { s with loads := s.loads.set j (.loaded (c.load m file)) }
      | _, _ => none
  | .loadClose j =>
      match s.loads[j]? with
      | some (.loaded (some out)) => some { s with loads := s.loads.set j (.closed (some out)) }
      | _ => none

def run (es : List (Event α μ)) : Option (State α β) := Run.runFrom (step c) init es

/-- A load that has read the file has got everything it asked for and returned the value of a
store. -/
def Clean (s : State α β) : Prop :=
  ∀ load ∈ s.loads, ∀ out, load.outcome = some out →
    ∃ v ∈ s.values, out = some (c.returned v, true)

/-- At every time, each load has failed, is under way, or has returned the value of a store
opened before. -/
def AllOrNothing (es : List (Event α μ)) : Prop :=
  ∀ k s, run c (es.take k) = some s → Clean c s

/-- The file begins with all the bytes of the value of a store. -/
def HasWhole (s : State α β) : Prop :=
  ∃ v ∈ s.values, ∃ file, s.file = some file ∧ c.encode v <+: file

/-- Whenever a load reads, the file begins with a whole value. -/
def WholeAtReads (es : List (Event α μ)) : Prop :=
  ∀ k s j m, run c (es.take k) = some s → es[k]? = some (.loadRead j m) → HasWhole c s

/-- A store begins only when the ones before it are closed. -/
def Sequential (es : List (Event α μ)) : Prop :=
  ∀ k s v, run c (es.take k) = some s → es[k]? = some (.storeOpen v) →
    ∀ st ∈ s.stores, st.closed = true

/-- The last store has written all its bytes. -/
def Written (s : State α β) : Prop :=
  ∃ st, s.stores.getLast? = some st ∧ (c.encode st.value).length ≤ st.pos

/-- Whenever a load reads, the last store has written all its bytes. -/
def WrittenAtReads (es : List (Event α μ)) : Prop :=
  ∀ k s j m, run c (es.take k) = some s → es[k]? = some (.loadRead j m) → Written c s

variable {c}

theorem storeWrite_eq_some {s s' : State α β} {i n : ℕ}
    (h : step c s (.storeWrite i n) = some s') :
    ∃ st, s.stores[i]? = some st ∧ st.closed = false ∧
      s' = { s with
        file := s.file.map (writeAt · st.pos (chunk c st n))
        stores := s.stores.set i { st with pos := st.pos + (chunk c st n).length } } := by
  obtain ⟨st, hst, h⟩ := Option.bind_eq_some_iff.1 h
  split at h
  · cases h
  · next hclosed => exact ⟨st, hst, Bool.eq_false_iff.2 hclosed, (Option.some.inj h).symm⟩

theorem storeClose_eq_some {s s' : State α β} {i : ℕ}
    (h : step c s (.storeClose i) = some s') :
    ∃ st, s.stores[i]? = some st ∧
      s' = { s with stores := s.stores.set i { st with closed := true } } := by
  obtain ⟨st, hst, h⟩ := Option.bind_eq_some_iff.1 h
  split at h
  · exact ⟨st, hst, (Option.some.inj h).symm⟩
  · cases h

theorem loadRead_eq_some {s s' : State α β} {j : ℕ} {m : μ}
    (h : step c s (.loadRead j m) = some s') :
    ∃ file, s.file = some file ∧ j < s.loads.length ∧
      s' = { s with loads := s.loads.set j (.loaded (c.load m file)) } := by
  rw [step] at h
  split at h
  · next file hload hfile =>
      exact ⟨file, hfile, (List.getElem?_eq_some_iff.1 hload).1, (Option.some.inj h).symm⟩
  · cases h

theorem loadClose_eq_some {s s' : State α β} {j : ℕ} (h : step c s (.loadClose j) = some s') :
    ∃ out, s.loads[j]? = some (.loaded out) ∧
      s' = { s with loads := s.loads.set j (.closed out) } := by
  rw [step] at h
  split at h
  · next out hload => exact ⟨some out, hload, (Option.some.inj h).symm⟩
  · cases h

/-! ## Loads that find a whole value -/

theorem values_prefix_set {s : State α β} {file : Option (List UInt8)} {i : ℕ}
    {st st' : Store α} (hst : s.stores[i]? = some st) (hvalue : st'.value = st.value) :
    s.values <+: State.values { s with file := file, stores := s.stores.set i st' } := by
  have hsame : (s.stores.set i st').map Store.value = s.values :=
    KeyedList.map_set_same hst hvalue
  exact ⟨[], (List.append_nil _).trans hsame.symm⟩

theorem values_step {s s' : State α β} {e : Event α μ} (h : step c s e = some s') :
    s.values <+: s'.values := by
  cases e with
  | storeOpen v =>
      obtain rfl := Option.some.inj h
      rw [State.values, State.values, List.map_append]
      exact List.prefix_append _ _
  | storeWrite i n =>
      obtain ⟨st, hst, -, rfl⟩ := storeWrite_eq_some h
      exact values_prefix_set hst rfl
  | storeClose i =>
      obtain ⟨st, hst, rfl⟩ := storeClose_eq_some h
      exact values_prefix_set hst rfl
  | loadOpen =>
      obtain rfl := Option.some.inj h
      exact List.prefix_refl _
  | loadRead j m =>
      obtain ⟨file, -, -, rfl⟩ := loadRead_eq_some h
      exact List.prefix_refl _
  | loadClose j =>
      obtain ⟨out, -, rfl⟩ := loadClose_eq_some h
      exact List.prefix_refl _

theorem load_of_hasWhole {s : State α β} {file : List UInt8} (hwhole : HasWhole c s)
    (hfile : s.file = some file) (m : μ) :
    ∃ v ∈ s.values, c.load m file = some (c.returned v, true) := by
  obtain ⟨v, hv, file', hfile', rest, rfl⟩ := hwhole
  obtain rfl := Option.some.inj (hfile.symm.trans hfile')
  exact ⟨v, hv, c.load_whole⟩

theorem outcome_step {s s' : State α β} {e : Event α μ} (h : step c s e = some s')
    {load : Load β} (hload : load ∈ s'.loads) {out : Option (β × Bool)}
    (hout : load.outcome = some out) :
    (∃ load' ∈ s.loads, load'.outcome = some out) ∨
      ∃ j m file, e = .loadRead j m ∧ s.file = some file ∧ c.load m file = out := by
  cases e with
  | storeOpen v =>
      obtain rfl := Option.some.inj h
      exact Or.inl ⟨load, hload, hout⟩
  | storeWrite i n =>
      obtain ⟨st, -, -, rfl⟩ := storeWrite_eq_some h
      exact Or.inl ⟨load, hload, hout⟩
  | storeClose i =>
      obtain ⟨st, -, rfl⟩ := storeClose_eq_some h
      exact Or.inl ⟨load, hload, hout⟩
  | loadOpen =>
      obtain rfl := Option.some.inj h
      rcases List.mem_append.1 hload with hold | hnew
      · exact Or.inl ⟨load, hold, hout⟩
      · obtain rfl := List.mem_singleton.1 hnew
        split at hout
        · cases hout
        · cases hout
  | loadRead j m =>
      obtain ⟨file, hfile, -, rfl⟩ := loadRead_eq_some h
      rcases List.mem_or_eq_of_mem_set hload with hold | rfl
      · exact Or.inl ⟨load, hold, hout⟩
      · exact Or.inr ⟨j, m, file, rfl, hfile, Option.some.inj hout⟩
  | loadClose j =>
      obtain ⟨out', hloaded, rfl⟩ := loadClose_eq_some h
      rcases List.mem_or_eq_of_mem_set hload with hold | rfl
      · exact Or.inl ⟨load, hold, hout⟩
      · exact Or.inl ⟨.loaded out', List.mem_of_getElem? hloaded, hout⟩

theorem clean_step {s s' : State α β} {e : Event α μ} (hclean : Clean c s)
    (hwhole : ∀ j m, e = .loadRead j m → HasWhole c s) (h : step c s e = some s') :
    Clean c s' := by
  intro load hload out hout
  have hvalues : ∀ v ∈ s.values, v ∈ s'.values := (values_step h).subset
  rcases outcome_step h hload hout with ⟨load', hload', hout'⟩ | ⟨j, m, file, he, hfile, hout'⟩
  · obtain ⟨v, hv, heq⟩ := hclean load' hload' out hout'
    exact ⟨v, hvalues v hv, heq⟩
  · obtain ⟨v, hv, heq⟩ := load_of_hasWhole (hwhole j m he) hfile m
    exact ⟨v, hvalues v hv, hout'.symm.trans heq⟩

theorem hasWhole_of_clean {s s' : State α β} {j : ℕ} {m : μ}
    (h : step c s (.loadRead j m) = some s') (hclean : Clean c s') : HasWhole c s := by
  obtain ⟨file, hfile, hj, rfl⟩ := loadRead_eq_some h
  have hmem : Load.loaded (c.load m file) ∈ s.loads.set j (.loaded (c.load m file)) :=
    List.mem_iff_getElem.2 ⟨j, by simpa using hj, by simp⟩
  obtain ⟨v, hv, hout⟩ := hclean _ hmem _ rfl
  exact ⟨v, hv, file, hfile, c.prefix_of_load hout⟩

/-- In every run: each load fails or returns the value of one earlier store if and only if the
file begins with such a value whenever a load reads. -/
theorem allOrNothing_iff {es : List (Event α μ)} {s : State α β} (hrun : run c es = some s) :
    AllOrNothing c es ↔ WholeAtReads c es := by
  constructor
  · intro hall k t j m ht he
    obtain ⟨t', ht'⟩ : ∃ t', run c (es.take (k + 1)) = some t' :=
      Run.runFrom_take_defined hrun (k + 1)
    obtain ⟨u, hu, hstep⟩ := (Run.runFrom_take_succ_eq_some he).1 ht'
    obtain rfl := Option.some.inj (hu.symm.trans ht)
    exact hasWhole_of_clean hstep (hall (k + 1) t' ht')
  · intro hwhole k t ht
    refine Run.runFrom_take_invariant (Clean c)
      (fun s e => ∀ j m, e = .loadRead j m → HasWhole c s)
      (fun s e s' hs hok hstep => clean_step hs hok hstep) ?_ ?_ k ht
    · intro load hload
      cases hload
    · rintro k t e ht he j m rfl
      exact hwhole k t j m ht he

/-! ## Stores that follow one another -/

/-- The file is what the last store has written so far, and the other stores are closed. -/
def InOrder (c : Channel α β μ) (s : State α β) : Prop :=
  (s.stores = [] ∧ s.file = none) ∨
    ∃ before st, s.stores = before ++ [st] ∧ (∀ st' ∈ before, st'.closed = true) ∧
      st.pos ≤ (c.encode st.value).length ∧
      s.file = some ((c.encode st.value).take st.pos)

theorem set_concat_length {γ : Type*} (l : List γ) (a b : γ) :
    (l ++ [a]).set l.length b = l ++ [b] := by
  rw [List.set_append_right _ _ (Nat.le_refl _), Nat.sub_self, List.set_cons_zero]

theorem writeAt_take {bytes : List UInt8} {pos : ℕ} (hpos : pos ≤ bytes.length) (n : ℕ) :
    writeAt (bytes.take pos) pos ((bytes.drop pos).take n) =
      bytes.take (pos + ((bytes.drop pos).take n).length) := by
  have hlength : (bytes.take pos).length = pos := List.length_take_of_le hpos
  have hgap : pos - (bytes.take pos).length = 0 := by omega
  have hbeyond : (bytes.take pos).drop (pos + ((bytes.drop pos).take n).length) = [] :=
    List.drop_eq_nil_of_le (by omega)
  rw [writeAt, hgap, hbeyond, List.take_take, Nat.min_self, List.replicate_zero,
    List.append_nil, List.append_nil, List.take_add, List.length_take,
    ← List.take_eq_take_min]

theorem inOrder_step {s s' : State α β} {e : Event α μ} (hinv : InOrder c s)
    (hopen : ∀ v, e = .storeOpen v → ∀ st ∈ s.stores, st.closed = true)
    (h : step c s e = some s') : InOrder c s' := by
  cases e with
  | storeOpen v =>
      obtain rfl := Option.some.inj h
      exact Or.inr ⟨s.stores, ⟨v, 0, false⟩, rfl, hopen v rfl, Nat.zero_le _, rfl⟩
  | storeWrite i n =>
      obtain ⟨st', hst', hclosed, rfl⟩ := storeWrite_eq_some h
      rcases hinv with ⟨hnil, -⟩ | ⟨before, st, hstores, hbefore, hpos, hfile⟩
      · rw [hnil] at hst'
        cases hst'
      · rw [hstores] at hst' ⊢
        rcases Run.getElem?_concat_cases hst' with hearlier | ⟨rfl, rfl⟩
        · rw [hbefore st' (List.mem_of_getElem? hearlier)] at hclosed
          cases hclosed
        · refine Or.inr ⟨before, _, set_concat_length _ _ _, hbefore, ?_, ?_⟩
          · simp only [chunk, List.length_take, List.length_drop]
            omega
          · dsimp only
            rw [hfile, Option.map_some, chunk, writeAt_take hpos]
  | storeClose i =>
      obtain ⟨st', hst', rfl⟩ := storeClose_eq_some h
      rcases hinv with ⟨hnil, -⟩ | ⟨before, st, hstores, hbefore, hpos, hfile⟩
      · rw [hnil] at hst'
        cases hst'
      · rw [hstores] at hst' ⊢
        rcases Run.getElem?_concat_cases hst' with hearlier | ⟨rfl, rfl⟩
        · have hi : i < before.length := (List.getElem?_eq_some_iff.1 hearlier).1
          refine Or.inr ⟨before.set i _, st, List.set_append_left _ _ hi, ?_, hpos, hfile⟩
          intro st'' hst''
          rcases List.mem_or_eq_of_mem_set hst'' with hold | rfl
          · exact hbefore st'' hold
          · rfl
        · exact Or.inr ⟨before, { st with closed := true }, set_concat_length _ _ _, hbefore,
            hpos, hfile⟩
  | loadOpen =>
      obtain rfl := Option.some.inj h
      exact hinv
  | loadRead j m =>
      obtain ⟨file, -, -, rfl⟩ := loadRead_eq_some h
      exact hinv
  | loadClose j =>
      obtain ⟨out, -, rfl⟩ := loadClose_eq_some h
      exact hinv

theorem inOrder_run {es : List (Event α μ)} (hseq : Sequential c es) (k : ℕ) {s : State α β}
    (h : run c (es.take k) = some s) : InOrder c s := by
  refine Run.runFrom_take_invariant (InOrder c)
    (fun s e => ∀ v, e = .storeOpen v → ∀ st ∈ s.stores, st.closed = true)
    (fun s e s' hs hok hstep => inOrder_step hs hok hstep) (Or.inl ⟨rfl, rfl⟩) ?_ k h
  rintro k t e ht he v rfl
  exact hseq k t v ht he

/-- With the stores in order, the file begins with a whole value when it is that of the last
store: no value begins another one. -/
theorem hasWhole_iff_written {s : State α β} (hinv : InOrder c s) :
    HasWhole c s ↔ Written c s := by
  rcases hinv with ⟨hnil, hfile⟩ | ⟨before, st, hstores, -, hpos, hfile⟩
  · constructor
    · rintro ⟨v, -, file, hfile', -⟩
      rw [hfile] at hfile'
      cases hfile'
    · rintro ⟨st, hst, -⟩
      rw [hnil] at hst
      cases hst
  · have hlast : s.stores.getLast? = some st := by rw [hstores, List.getLast?_concat]
    constructor
    · rintro ⟨v, -, file, hfile', hprefix⟩
      obtain rfl := Option.some.inj (hfile.symm.trans hfile')
      obtain ⟨hencode, hle⟩ := List.prefix_take_iff.1 hprefix
      obtain rfl := c.prefix_free hencode
      exact ⟨st, hlast, hle⟩
    · rintro ⟨st', hst', hle⟩
      obtain rfl := Option.some.inj (hlast.symm.trans hst')
      have hmem : st.value ∈ s.values :=
        List.mem_map_of_mem (by rw [hstores]; exact List.mem_concat_self)
      exact ⟨st.value, hmem, _, hfile,
        List.prefix_take_iff.2 ⟨List.prefix_refl _, hle⟩⟩

/-- When the stores follow one another, each load fails or returns the value of one earlier
store if and only if the last store has written everything whenever a load reads. -/
theorem allOrNothing_iff_of_sequential {es : List (Event α μ)} {s : State α β}
    (hrun : run c es = some s) (hseq : Sequential c es) :
    AllOrNothing c es ↔ WrittenAtReads c es := by
  rw [allOrNothing_iff hrun]
  constructor
  · intro h k t j m ht he
    exact (hasWhole_iff_written (inOrder_run hseq k ht)).1 (h k t j m ht he)
  · intro h k t j m ht he
    exact (hasWhole_iff_written (inOrder_run hseq k ht)).2 (h k t j m ht he)

end Steps

end FileChannel
