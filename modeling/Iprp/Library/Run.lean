import Mathlib.Data.List.Basic

/-!
# Runs of a partial step function

A program under study is a step function `step : σ → ε → Option σ` on states and
inputs, where `none` means that the step has no defined result. `runFrom step s es`
is the state reached from `s` by the inputs `es`; it is absent as soon as one step
is undefined. Invariants are proved one step at a time and carried along the run by
`runFrom_invariant`; statements about every state that a run passes through read the
run at its prefixes `es.take k`. What is said of a state and the inputs that led to it goes
by `runFrom_take_history`, and a log that grows with the inputs by `runFrom_log`.
-/

namespace Run

/-- The state reached from `s` by the inputs `es`, `none` once a step is undefined. -/
def runFrom {σ ε : Type*} (step : σ → ε → Option σ) : σ → List ε → Option σ
  | s, [] => some s
  | s, e :: es => (step s e).bind fun s' => runFrom step s' es

@[simp] theorem runFrom_nil {σ ε : Type*} (step : σ → ε → Option σ) (s : σ) :
    runFrom step s [] = some s := rfl

theorem runFrom_cons {σ ε : Type*} (step : σ → ε → Option σ) (s : σ) (e : ε)
    (es : List ε) :
    runFrom step s (e :: es) =
      (step s e).bind fun s' => runFrom step s' es := rfl

@[simp] theorem runFrom_singleton {σ ε : Type*} (step : σ → ε → Option σ) (s : σ)
    (e : ε) : runFrom step s [e] = step s e := by
  rw [runFrom_cons]
  cases step s e with
  | none => rfl
  | some s' => rfl

theorem runFrom_append {σ ε : Type*} (step : σ → ε → Option σ) (s : σ)
    (es fs : List ε) :
    runFrom step s (es ++ fs) =
      (runFrom step s es).bind fun s' => runFrom step s' fs := by
  induction es generalizing s with
  | nil => rfl
  | cons e es ih =>
      rw [List.cons_append, runFrom_cons, runFrom_cons]
      cases step s e with
      | none => rfl
      | some s' => exact ih s'

theorem runFrom_append_singleton {σ ε : Type*} (step : σ → ε → Option σ) (s : σ)
    (es : List ε) (e : ε) :
    runFrom step s (es ++ [e]) =
      (runFrom step s es).bind fun s' => step s' e := by
  simp only [runFrom_append, runFrom_singleton]

/-- A run that is defined splits at its last input. -/
theorem runFrom_append_singleton_eq_some {σ ε : Type*} {step : σ → ε → Option σ}
    {s s'' : σ} {es : List ε} {e : ε} :
    runFrom step s (es ++ [e]) = some s'' ↔
      ∃ s', runFrom step s es = some s' ∧ step s' e = some s'' := by
  rw [runFrom_append_singleton, Option.bind_eq_some_iff]

theorem runFrom_take_succ {σ ε : Type*} (step : σ → ε → Option σ) (s : σ)
    {es : List ε} {k : ℕ} {e : ε} (he : es[k]? = some e) :
    runFrom step s (es.take (k + 1)) =
      (runFrom step s (es.take k)).bind fun s' => step s' e := by
  rw [List.take_add_one, he, Option.toList_some, runFrom_append_singleton]

theorem runFrom_take_succ_eq_some {σ ε : Type*} {step : σ → ε → Option σ} {s s'' : σ}
    {es : List ε} {k : ℕ} {e : ε} (he : es[k]? = some e) :
    runFrom step s (es.take (k + 1)) = some s'' ↔
      ∃ s', runFrom step s (es.take k) = some s' ∧ step s' e = some s'' := by
  rw [runFrom_take_succ step s he, Option.bind_eq_some_iff]

theorem runFrom_take_defined {σ ε : Type*} {step : σ → ε → Option σ} {s t : σ}
    {es : List ε} (h : runFrom step s es = some t) (k : ℕ) :
    ∃ u, runFrom step s (es.take k) = some u := by
  rw [← List.take_append_drop k es, runFrom_append, Option.bind_eq_some_iff] at h
  obtain ⟨u, hu, -⟩ := h
  exact ⟨u, hu⟩

theorem getElem?_concat_cases {α : Type*} {l : List α} {a b : α} {k : ℕ}
    (h : (l ++ [a])[k]? = some b) : l[k]? = some b ∨ k = l.length ∧ a = b := by
  rcases Nat.lt_or_ge k l.length with hlt | hge
  · rw [List.getElem?_append_left hlt] at h
    exact Or.inl h
  · rw [List.getElem?_append_right hge, List.getElem?_singleton] at h
    split at h
    · next hk => exact Or.inr ⟨by omega, Option.some.inj h⟩
    · cases h

theorem take_of_concat_prefix {ε : Type*} {es fs : List ε} {e : ε} (h : fs ++ [e] <+: es) :
    es.take fs.length = fs ∧ es[fs.length]? = some e := by
  obtain ⟨gs, rfl⟩ := h
  constructor
  · rw [List.append_assoc, List.take_left' rfl]
  · rw [List.append_assoc, List.getElem?_append_right (Nat.le_refl _), Nat.sub_self]
    rfl

/-- Dropping the inputs that are not kept is invisible along a whole run exactly when each
of them leaves the state that it meets as it is. -/
theorem runFrom_filter_iff {σ ε : Type*} (step : σ → ε → Option σ) (keep : ε → Bool)
    (s : σ) (es : List ε) :
    (∀ k, runFrom step s (es.take k) = runFrom step s ((es.take k).filter keep)) ↔
      ∀ k e t, es[k]? = some e → keep e = false → runFrom step s (es.take k) = some t →
        step t e = some t := by
  have hfilter : ∀ {k e}, es[k]? = some e → (es.take (k + 1)).filter keep =
      (es.take k).filter keep ++ [e].filter keep := by
    intro k e he
    rw [List.take_add_one, he, Option.toList_some, List.filter_append]
  constructor
  · intro h k e t he hkeep ht
    have hdrop : (es.take (k + 1)).filter keep = (es.take k).filter keep := by
      rw [hfilter he, List.filter_cons_of_neg (by simp [hkeep]), List.filter_nil,
        List.append_nil]
    have hsame := h (k + 1)
    rw [hdrop, ← h k, runFrom_take_succ step s he, ht] at hsame
    exact hsame
  · intro h k
    induction k with
    | zero => rfl
    | succ k ih =>
        cases he : es[k]? with
        | none =>
            have hlen : es.length ≤ k := List.getElem?_eq_none_iff.1 he
            rw [List.take_of_length_le hlen] at ih
            rwa [List.take_of_length_le (by omega)]
        | some e =>
            rw [runFrom_take_succ step s he, hfilter he, runFrom_append, ← ih]
            cases hkeep : keep e with
            | true =>
                rw [List.filter_cons_of_pos hkeep, List.filter_nil]
                simp only [runFrom_singleton]
            | false =>
                rw [List.filter_cons_of_neg (by simp [hkeep]), List.filter_nil]
                cases ht : runFrom step s (es.take k) with
                | none => rfl
                | some t => exact h k e t he hkeep ht

/-- The invariant rule: what holds at the start and is preserved by every step
on an admissible input holds wherever an admissible run ends. -/
theorem runFrom_invariant {σ ε : Type*} {step : σ → ε → Option σ}
    (Inv : σ → Prop) (Adm : ε → Prop)
    (hstep : ∀ s e s', Inv s → Adm e → step s e = some s' → Inv s')
    {es : List ε} {s s' : σ} (hs : Inv s) (hes : ∀ e ∈ es, Adm e)
    (h : runFrom step s es = some s') : Inv s' := by
  induction es generalizing s with
  | nil =>
      obtain rfl : s = s' := by simpa using h
      exact hs
  | cons e es ih =>
      rw [runFrom_cons, Option.bind_eq_some_iff] at h
      obtain ⟨t, ht, h⟩ := h
      have hinv : Inv t := hstep s e t hs (hes e List.mem_cons_self) ht
      exact ih hinv (fun e' he' => hes e' (List.mem_cons_of_mem e he')) h

/-- The invariant rule when every input is admissible. -/
theorem runFrom_preserved {σ ε : Type*} {step : σ → ε → Option σ} (Inv : σ → Prop)
    (hstep : ∀ s e s', Inv s → step s e = some s' → Inv s')
    {es : List ε} {s s' : σ} (hs : Inv s) (h : runFrom step s es = some s') : Inv s' :=
  runFrom_invariant Inv (fun _ => True) (fun s e s' ht _ => hstep s e s' ht) hs
    (fun _ _ => trivial) h

/-- The history rule along a run: what holds of no inputs at the start, and is carried over
by each step of the run, holds of the inputs so far in every state passed through. -/
theorem runFrom_take_history {σ ε : Type*} {step : σ → ε → Option σ} {s₀ : σ} {es : List ε}
    (P : List ε → σ → Prop) (hnil : P [] s₀)
    (hstep : ∀ k e s s', es[k]? = some e → runFrom step s₀ (es.take k) = some s →
      P (es.take k) s → step s e = some s' → P (es.take k ++ [e]) s')
    (k : ℕ) {s : σ} (h : runFrom step s₀ (es.take k) = some s) : P (es.take k) s := by
  induction k generalizing s with
  | zero =>
      obtain rfl : s₀ = s := by simpa using h
      exact hnil
  | succ k ih =>
      cases he : es[k]? with
      | none =>
          have hlen : es.length ≤ k := List.getElem?_eq_none_iff.1 he
          rw [List.take_of_length_le hlen] at ih
          rw [List.take_of_length_le (by omega)] at h ⊢
          exact ih h
      | some e =>
          obtain ⟨t, ht, hstep'⟩ := (runFrom_take_succ_eq_some he).1 h
          rw [List.take_add_one, he]
          exact hstep k e t s he ht (ih ht) hstep'

/-- The history rule for whole runs. -/
theorem runFrom_history {σ ε : Type*} {step : σ → ε → Option σ} {s₀ : σ}
    (P : List ε → σ → Prop) (hnil : P [] s₀)
    (hstep : ∀ es e s s', runFrom step s₀ es = some s → P es s → step s e = some s' →
      P (es ++ [e]) s')
    {es : List ε} {s : σ} (h : runFrom step s₀ es = some s) : P es s := by
  rw [← List.take_length (l := es)] at h ⊢
  exact runFrom_take_history P hnil (fun k e s s' _ hs hP => hstep _ e s s' hs hP) _ h

/-- The invariant rule along a run: what holds at the start and is preserved by every step
that meets a condition on its state and its input holds in every state passed through, when
the steps of the run meet the condition. -/
theorem runFrom_take_invariant {σ ε : Type*} {step : σ → ε → Option σ} (Inv : σ → Prop)
    (Ok : σ → ε → Prop)
    (hstep : ∀ s e s', Inv s → Ok s e → step s e = some s' → Inv s')
    {es : List ε} {s : σ} (hs : Inv s)
    (hok : ∀ k t e, runFrom step s (es.take k) = some t → es[k]? = some e → Ok t e)
    (k : ℕ) {t : σ} (h : runFrom step s (es.take k) = some t) : Inv t :=
  runFrom_take_history (fun _ t => Inv t) hs
    (fun k e t t' he ht hinv hstep' => hstep t e t' hinv (hok k t e ht he) hstep') k h

/-- The log rule: when every step after which the program is live appends its output to a log,
and was live before, the log of a run that ends live has the outputs of all its inputs. -/
theorem runFrom_log {σ ε α : Type*} {step : σ → ε → Option σ} (Live : σ → Prop)
    (log : σ → List α) (out : ε → List α)
    (hstep : ∀ s e s', step s e = some s' → Live s' → Live s ∧ log s' = log s ++ out e)
    {es : List ε} {s s' : σ} (h : runFrom step s es = some s') (hlive : Live s') :
    log s' = log s ++ es.flatMap out := by
  have hboth : Live s ∧ log s' = log s ++ es.flatMap out := by
    induction es generalizing s with
    | nil =>
        obtain rfl : s = s' := by simpa using h
        exact ⟨hlive, (List.append_nil _).symm⟩
    | cons e es ih =>
        rw [runFrom_cons, Option.bind_eq_some_iff] at h
        obtain ⟨t, ht, h⟩ := h
        obtain ⟨hlivet, hlog⟩ := ih h
        obtain ⟨hlives, hlogt⟩ := hstep s e t ht hlivet
        refine ⟨hlives, ?_⟩
        rw [hlog, hlogt, List.append_assoc, List.flatMap_cons]
  exact hboth.2

/-- The history rule for runs that have to be shown defined: every step of the run is defined
where the property holds, and carries it over. -/
theorem runFrom_take_total {σ ε : Type*} {step : σ → ε → Option σ} {s₀ : σ} {es : List ε}
    (P : List ε → σ → Prop) (hnil : P [] s₀)
    (hstep : ∀ k e s, es[k]? = some e → runFrom step s₀ (es.take k) = some s →
      P (es.take k) s → ∃ s', step s e = some s' ∧ P (es.take k ++ [e]) s')
    (k : ℕ) : ∃ s, runFrom step s₀ (es.take k) = some s ∧ P (es.take k) s := by
  induction k with
  | zero => exact ⟨s₀, rfl, hnil⟩
  | succ k ih =>
      obtain ⟨s, hs, hP⟩ := ih
      cases he : es[k]? with
      | none =>
          have hlen : es.length ≤ k := List.getElem?_eq_none_iff.1 he
          rw [List.take_of_length_le hlen] at hs hP
          rw [List.take_of_length_le (by omega)]
          exact ⟨s, hs, hP⟩
      | some e =>
          obtain ⟨s', hs', hP'⟩ := hstep k e s he hs hP
          refine ⟨s', (runFrom_take_succ_eq_some he).2 ⟨s, hs, hs'⟩, ?_⟩
          rw [List.take_add_one, he]
          exact hP'

/-- The totality rule: when every step on an admissible input is defined from
the invariant and preserves it, an admissible run is defined. -/
theorem runFrom_defined {σ ε : Type*} {step : σ → ε → Option σ}
    (Inv : σ → Prop) (Adm : ε → Prop)
    (hstep : ∀ s e, Inv s → Adm e → ∃ s', step s e = some s' ∧ Inv s')
    {es : List ε} {s : σ} (hs : Inv s) (hes : ∀ e ∈ es, Adm e) :
    ∃ s', runFrom step s es = some s' ∧ Inv s' := by
  have h := @runFrom_take_total _ _ step s es (fun _ t => Inv t) hs
    (fun k e t he _ ht => hstep t e ht (hes e (List.mem_of_getElem? he))) es.length
  rwa [List.take_length] at h

/-- When every step on an admissible input is defined, an admissible run is. -/
theorem runFrom_total {σ ε : Type*} {step : σ → ε → Option σ} (Adm : ε → Prop)
    (hstep : ∀ s e, Adm e → ∃ s', step s e = some s') {es : List ε}
    (hes : ∀ e ∈ es, Adm e) (s : σ) : ∃ s', runFrom step s es = some s' := by
  obtain ⟨s', hs', -⟩ := runFrom_defined (fun _ => True) Adm
    (fun s e _ he => (hstep s e he).imp fun s' hs' => ⟨hs', trivial⟩) (s := s) trivial hes
  exact ⟨s', hs'⟩

/-! ## Times of inputs -/

/-- The time of the last input with the property `P`. -/
def lastTime {ε τ : Type*} (time : ε → τ) (P : ε → Prop) [DecidablePred P] (es : List ε) :
    Option τ :=
  ((es.filter P).getLast?).map time

theorem lastTime_concat {ε τ : Type*} (time : ε → τ) (P : ε → Prop) [DecidablePred P]
    (es : List ε) (e : ε) :
    lastTime time P (es ++ [e]) = if P e then some (time e) else lastTime time P es := by
  unfold lastTime
  rw [List.filter_append]
  by_cases he : P e
  · simp [he]
  · simp [he]

theorem lastTime_take_eq {ε τ : Type*} {time : ε → τ} {P : ε → Prop} [DecidablePred P]
    {es : List ε} {i j : ℕ} (hij : i ≤ j)
    (h : ∀ m e, i ≤ m → m < j → es[m]? = some e → ¬ P e) :
    lastTime time P (es.take j) = lastTime time P (es.take i) := by
  induction hij with
  | refl => rfl
  | @step j hij ih =>
      have hbefore := ih fun m e him hmj => h m e him (Nat.lt_succ_of_lt hmj)
      rw [List.take_add_one]
      cases he : es[j]? with
      | none => rwa [Option.toList_none, List.append_nil]
      | some e =>
          rw [Option.toList_some, lastTime_concat, if_neg (h j e hij (Nat.lt_succ_self j) he)]
          exact hbefore

theorem lastTime_take_eq_some {ε τ : Type*} {time : ε → τ} {P : ε → Prop} [DecidablePred P]
    {es : List ε} {k : ℕ} {t : τ} (h : lastTime time P (es.take k) = some t) :
    ∃ p e, p < k ∧ es[p]? = some e ∧ P e ∧ time e = t ∧
      ∀ m e', p < m → m < k → es[m]? = some e' → ¬ P e' := by
  induction k with
  | zero => cases h
  | succ k ih =>
      rw [List.take_add_one] at h
      cases he : es[k]? with
      | none =>
          rw [he, Option.toList_none, List.append_nil] at h
          obtain ⟨p, e, hpk, hp, hP, htime, hafter⟩ := ih h
          refine ⟨p, e, Nat.lt_succ_of_lt hpk, hp, hP, htime, ?_⟩
          intro m e' hpm hm hget
          rcases Nat.lt_succ_iff_lt_or_eq.1 hm with hm | rfl
          · exact hafter m e' hpm hm hget
          · rw [he] at hget
            cases hget
      | some last =>
          rw [he, Option.toList_some, lastTime_concat] at h
          by_cases hlast : P last
          · rw [if_pos hlast] at h
            exact ⟨k, last, Nat.lt_succ_self k, he, hlast, Option.some.inj h,
              fun m e' hkm hm => absurd hm (by omega)⟩
          · rw [if_neg hlast] at h
            obtain ⟨p, e, hpk, hp, hP, htime, hafter⟩ := ih h
            refine ⟨p, e, Nat.lt_succ_of_lt hpk, hp, hP, htime, ?_⟩
            intro m e' hpm hm hget
            rcases Nat.lt_succ_iff_lt_or_eq.1 hm with hm | rfl
            · exact hafter m e' hpm hm hget
            · rw [he] at hget
              rwa [← Option.some.inj hget]

end Run
