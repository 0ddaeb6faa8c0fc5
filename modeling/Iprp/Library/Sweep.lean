import Iprp.Library.KeyedList
import Iprp.Library.Run

/-!
# Passes of a sweep

A sweep of `KeyedList` moves its cursor one node at a time, and between two of its steps the list
may grow at its tail and its entries may change in place. `Passed P l cursor` says that the
entries before the cursor have the property `P`, and all of them once the cursor is the null
pointer; each step of the sweep carries it on when the entries that it passes over have `P`.

`Pass` is one pass within a run of a larger program, from the step that sets the cursor to the
step that leaves it null, and `Pass.rule` is the induction over its steps.
-/

namespace KeyedList

/-- The entries that a cursor has passed have the property `P`. -/
def Passed {α : Type*} (P : α → Prop) (l : List α) : Option ℕ → Prop
  | none => ∀ a ∈ l, P a
  | some i => i < l.length ∧ ∀ j a, j < i → l[j]? = some a → P a

theorem passed_node {α : Type*} {P : α → Prop} {l : List α} {n : ℕ}
    (h : ∀ j a, j < n → l[j]? = some a → P a) : Passed P l (node l n) := by
  unfold node
  split
  · next hlt => exact ⟨hlt, h⟩
  · next hge =>
      intro a ha
      obtain ⟨j, hget⟩ := List.mem_iff_getElem?.1 ha
      have hj : j < l.length := (List.getElem?_eq_some_iff.1 hget).1
      exact h j a (by omega) hget

theorem passed_head {α : Type*} (P : α → Prop) (l : List α) : Passed P l (node l 0) :=
  passed_node fun j _ hj => absurd hj (Nat.not_lt_zero j)

theorem Passed.of_keys {α β : Type*} {g : α → β} {Q : β → Prop} {l l' : List α} {new : List β}
    {i : ℕ} (h : Passed (fun a => Q (g a)) l (some i)) (heq : l'.map g = l.map g ++ new) :
    Passed (fun a => Q (g a)) l' (some i) := by
  obtain ⟨hlt, hbefore⟩ := h
  have hlength : l'.length = l.length + new.length := by
    simpa using congrArg List.length heq
  refine ⟨by omega, ?_⟩
  intro j a hj hget
  have hmap : (l'.map g)[j]? = some (g a) := by rw [List.getElem?_map, hget, Option.map_some]
  rw [heq, List.getElem?_append_left (by rw [List.length_map]; omega), List.getElem?_map] at hmap
  obtain ⟨b, hb, hsame⟩ := Option.map_eq_some_iff.1 hmap
  rw [← hsame]
  exact hbefore j b hj hb

/-- A step of the sweep whose entry is aged or has `P`. -/
theorem Passed.sweepStep {α : Type*} {P : α → Prop} {aged : α → Bool} {l : List α} {i : ℕ}
    (h : Passed P l (some i)) (hkeep : ∀ a, l[i]? = some a → aged a = false → P a) :
    Passed P (sweepStep aged l i).1 (sweepStep aged l i).2 := by
  obtain ⟨hlt, hbefore⟩ := h
  have hget : l[i]? = some l[i] := List.getElem?_eq_getElem hlt
  rw [KeyedList.sweepStep, hget]
  dsimp only
  cases haged : aged l[i] with
  | true =>
      refine passed_node ?_
      intro j a hj hget'
      rw [if_pos rfl, List.getElem?_eraseIdx_of_lt hj] at hget'
      exact hbefore j a hj hget'
  | false =>
      refine passed_node ?_
      intro j a hj hget'
      rw [if_neg Bool.false_ne_true] at hget'
      rcases Nat.lt_succ_iff_lt_or_eq.1 hj with hj | rfl
      · exact hbefore j a hj hget'
      · exact hkeep a hget' (by rwa [← Option.some.inj (hget.symm.trans hget')])

/-! ## What a step of the sweep leaves to be found -/

theorem sweepStep_sublist {α : Type*} (aged : α → Bool) (l : List α) (i : ℕ) :
    (sweepStep aged l i).1.Sublist l := by
  unfold sweepStep
  split
  · exact List.Sublist.refl l
  · split
    · exact List.eraseIdx_sublist l i
    · exact List.Sublist.refl l

theorem uniqueKeys_sweepStep {α κ : Type*} {key : α → κ} {l : List α} (hl : UniqueKeys key l)
    (aged : α → Bool) (i : ℕ) : UniqueKeys key (sweepStep aged l i).1 := by
  unfold sweepStep
  split
  · exact hl
  · split
    · exact uniqueKeys_eraseIdx hl i
    · exact hl

/-- A step removes the entry found for a key, which is then aged, or leaves what is found for the
key. -/
theorem lookup_sweepStep_cases {α κ : Type*} [DecidableEq κ] {key : α → κ} {l : List α}
    (hl : UniqueKeys key l) (aged : α → Bool) (i : ℕ) (k : κ) :
    (∃ a, lookup key k l = some a ∧ aged a = true ∧ lookup key k (sweepStep aged l i).1 = none) ∨
      lookup key k (sweepStep aged l i).1 = lookup key k l := by
  unfold sweepStep
  cases ha : l[i]? with
  | none => exact Or.inr rfl
  | some a =>
      dsimp only
      cases haged : aged a with
      | false => exact Or.inr rfl
      | true =>
          rw [if_pos rfl]
          by_cases hk : key a = k
          · subst hk
            exact Or.inl ⟨a, lookup_of_mem hl (List.mem_of_getElem? ha), haged,
              lookup_eraseIdx_same hl ha⟩
          · exact Or.inr (lookup_eraseIdx_of_ne ha hk)

/-! ## Passes of a run -/

/-- The inputs from `i` on, up to `j`, hold one pass: the input `i` starts it where the cursor is
null, and after the input before `j` the cursor is null again for the first time. -/
structure Pass {σ ε : Type*} (step : σ → ε → Option σ) (s₀ : σ) (cursor : σ → Option ℕ)
    (Starts : ε → Prop) (es : List ε) (i j : ℕ) : Prop where
  lt : i < j
  le : j ≤ es.length
  start : ∃ e, es[i]? = some e ∧ Starts e
  idle : ∀ s, Run.runFrom step s₀ (es.take i) = some s → cursor s = none
  moving : ∀ m s, i < m → m < j → Run.runFrom step s₀ (es.take m) = some s → cursor s ≠ none
  done : ∃ s, Run.runFrom step s₀ (es.take j) = some s ∧ cursor s = none

theorem Pass.append {σ ε : Type*} {step : σ → ε → Option σ} {s₀ : σ} {cursor : σ → Option ℕ}
    {Starts : ε → Prop} {es : List ε} {i j : ℕ} (h : Pass step s₀ cursor Starts es i j)
    (fs : List ε) : Pass step s₀ cursor Starts (es ++ fs) i j := by
  have htake : ∀ m, m ≤ j → (es ++ fs).take m = es.take m := fun m hm =>
    List.take_append_of_le_length (Nat.le_trans hm h.le)
  obtain ⟨e, he, hstarts⟩ := h.start
  refine ⟨h.lt, ?_, ⟨e, ?_, hstarts⟩, ?_, ?_, ?_⟩
  · rw [List.length_append]
    exact Nat.le_add_right_of_le h.le
  · rwa [List.getElem?_append_left (Nat.lt_of_lt_of_le h.lt h.le)]
  · rw [htake i (Nat.le_of_lt h.lt)]
    exact h.idle
  · intro m s him hmj
    rw [htake m (Nat.le_of_lt hmj)]
    exact h.moving m s him hmj
  · rw [htake j (Nat.le_refl j)]
    exact h.done

/-- The rule for passes: what the start establishes and the further steps keep holds at the
end. -/
theorem Pass.rule {σ ε : Type*} {step : σ → ε → Option σ} {s₀ : σ} {cursor : σ → Option ℕ}
    {Starts : ε → Prop} {es : List ε} {i j : ℕ} (h : Pass step s₀ cursor Starts es i j)
    (P : ℕ → σ → Prop)
    (hstart : ∀ e s s', es[i]? = some e → Starts e → Run.runFrom step s₀ (es.take i) = some s →
      cursor s = none → step s e = some s' → P (i + 1) s')
    (hstep : ∀ m e s s', i < m → m < j → es[m]? = some e →
      Run.runFrom step s₀ (es.take m) = some s → cursor s ≠ none → P m s → step s e = some s' →
      P (m + 1) s') :
    ∃ s, Run.runFrom step s₀ (es.take j) = some s ∧ cursor s = none ∧ P j s := by
  obtain ⟨s, hs, hdone⟩ := h.done
  refine ⟨s, hs, hdone, ?_⟩
  have hrun : ∀ m, i + 1 ≤ m → m ≤ j →
      ∀ s, Run.runFrom step s₀ (es.take m) = some s → P m s := by
    intro m him
    induction him with
    | refl =>
        intro _ s hs
        obtain ⟨e, he, hstarts⟩ := h.start
        obtain ⟨t, ht, hte⟩ := (Run.runFrom_take_succ_eq_some he).1 hs
        exact hstart e t s he hstarts ht (h.idle t ht) hte
    | @step m him ih =>
        intro hmj s hs
        obtain ⟨e, he⟩ : ∃ e, es[m]? = some e :=
          ⟨_, List.getElem?_eq_getElem (Nat.lt_of_lt_of_le hmj h.le)⟩
        obtain ⟨t, ht, hte⟩ := (Run.runFrom_take_succ_eq_some he).1 hs
        have hP : P m t := ih (Nat.le_of_succ_le hmj) t ht
        exact hstep m e t s him hmj he ht (h.moving m t him hmj ht) hP hte
  exact hrun j h.lt (Nat.le_refl j) s hs

/-- What a step of a larger program does to the list under a sweep and to the cursor. -/
inductive CursorStep {α κ : Type*} (key : α → κ) (aged : α → Bool) (l l' : List α) :
    Option ℕ → Option ℕ → Prop
  /-- Entries change in place, and others are appended. -/
  | grow (cursor : Option ℕ) (keys : List κ) (hkeys : l'.map key = l.map key ++ keys) :
      CursorStep key aged l l' cursor cursor
  | start (hl : l' = l) : CursorStep key aged l l' none (node l 0)
  | sweep (i : ℕ) (hl : l' = (sweepStep aged l i).1) :
      CursorStep key aged l l' (some i) (sweepStep aged l i).2

theorem CursorStep.refl {α κ : Type*} (key : α → κ) (aged : α → Bool) (l : List α)
    (cursor : Option ℕ) : CursorStep key aged l l cursor cursor :=
  .grow cursor [] (List.append_nil _).symm

/-- A pass removes a key whose entries are all aged when they are examined. -/
theorem Pass.removes {σ ε α κ : Type*} [DecidableEq κ] {step : σ → ε → Option σ} {s₀ : σ}
    {cursor : σ → Option ℕ} {Starts : ε → Prop} {es : List ε} {i j : ℕ}
    (h : Pass step s₀ cursor Starts es i j) (list : σ → List α) (key : α → κ)
    (aged : ε → α → Bool) (k : κ)
    (hstart : ∀ e s s', Starts e → cursor s = none → step s e = some s' →
      list s' = list s ∧ cursor s' = node (list s) 0)
    (hstep : ∀ e s s', step s e = some s' →
      CursorStep key (aged e) (list s) (list s') (cursor s) (cursor s'))
    (haged : ∀ m e s a, i < m → m < j → es[m]? = some e →
      Run.runFrom step s₀ (es.take m) = some s → a ∈ list s → key a = k → aged e a = true) :
    ∃ s, Run.runFrom step s₀ (es.take j) = some s ∧ lookup key k (list s) = none := by
  have hpassed : ∃ s, Run.runFrom step s₀ (es.take j) = some s ∧ cursor s = none ∧
      Passed (fun a => key a ≠ k) (list s) (cursor s) := by
    refine h.rule (fun _ s => Passed (fun a => key a ≠ k) (list s) (cursor s)) ?_ ?_
    · intro e s s' _ hstarts _ hidle hse
      obtain ⟨hlist, hcursor⟩ := hstart e s s' hstarts hidle hse
      rw [hlist, hcursor]
      exact passed_head _ _
    · intro m e s s' him hmj he hs hmoving hm hse
      have hcases := hstep e s s' hse
      obtain ⟨n, hn⟩ := Option.ne_none_iff_exists'.1 hmoving
      rw [hn] at hm hcases
      generalize cursor s' = cursor' at hcases ⊢
      cases hcases with
      | grow _ keys hkeys => exact hm.of_keys (Q := fun k' => k' ≠ k) hkeys
      | sweep _ hl =>
          rw [hl]
          refine hm.sweepStep ?_
          intro a ha hfresh hk
          have hold := haged m e s a him hmj he hs (List.mem_of_getElem? ha) hk
          rw [hfresh] at hold
          cases hold
  obtain ⟨s, hs, hdone, hend⟩ := hpassed
  rw [hdone] at hend
  exact ⟨s, hs, lookup_eq_none_iff.2 hend⟩

end KeyedList
