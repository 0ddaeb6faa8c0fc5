import Iprp.Icd.Bases
import Iprp.Icd.Peerbase

/-!
# The table of bases

What a step of the ICD does to the bases. `pbIteration_cases` says what an iteration of
`pb_routine` can do to the whole state, as `handleCap_cases` does for a CAP. Seen as a list,
the bases only lose members unless a CAP creates one (`step_map_cases`). Seen from one flow, a
step refreshes, creates, starts or removes the base of that flow or leaves it alone
(`step_lookup`); the statements about histories are inductions on that. Keys stay unique
(`uniqueKeys_step`), and messages of the form that `send_cap` produces never make a step
undefined (`step_defined`).
-/

namespace Iprp.Icd

open KeyedList

/-! ## One iteration -/

/-- What an iteration of `pb_routine` does: nothing when the cursor is at the end, a
deletion, or the push of a base, which may start its ISD. -/
theorem pbIteration_cases (c : Config) (currTime : ℤ) (pid : ℕ) (s : State) :
    (pbIteration c currTime pid s = { s with iterator := none } ∧
      s.iterator.bind (s.peerbases[·]?) = none) ∨
    ∃ i base, s.iterator = some i ∧ s.peerbases[i]? = some base ∧
      ((aged currTime base ∧ pbIteration c currTime pid s =
        { s with
          peerbases := s.peerbases.eraseIdx i
          iterator := node (s.peerbases.eraseIdx i) i }) ∨
      (¬ aged currTime base ∧ base.isdPid ≠ -1 ∧ pbIteration c currTime pid s =
        { s with
          iterator := node s.peerbases (i + 1)
          files := peerbaseStore (peerbasePath base.link.snsid)
            (createPeerbase c.this.toHost base) s.files }) ∨
      (¬ aged currTime base ∧ base.isdPid = -1 ∧ pbIteration c currTime pid s =
        { s with
          peerbases := s.peerbases.set i (base.setIsdPid pid)
          iterator := node s.peerbases (i + 1)
          files := peerbaseStore (peerbasePath base.link.snsid)
            (createPeerbase c.this.toHost base) s.files
          rules := s.rules ++ [isdRule base]
          isds := s.isds ++ [isdOf base pid] })) := by
  unfold pbIteration
  cases hit : s.iterator with
  | none =>
      obtain ⟨control, iterator, files, rules, isds⟩ := s
      obtain rfl : iterator = none := hit
      exact Or.inl ⟨rfl, rfl⟩
  | some i =>
      cases hbase : s.peerbases[i]? with
      | none =>
          refine Or.inl ⟨?_, by simpa using hbase⟩
          simp [pbExamine, sweepStep, hbase]
      | some base =>
          refine Or.inr ⟨i, base, rfl, hbase, ?_⟩
          by_cases haged : aged currTime base = true
          · left
            refine ⟨haged, ?_⟩
            simp [pbExamine, sweepStep, hbase, haged]
          · right
            by_cases hpid : base.isdPid = -1
            · right
              refine ⟨haged, hpid, ?_⟩
              simp [pbExamine, sweepStep, pbPush, isdStartup, hbase, haged, hpid]
            · left
              refine ⟨haged, hpid, ?_⟩
              simp [pbExamine, sweepStep, pbPush, hbase, haged, hpid]

theorem pbStart_eq (s : State) :
    ∃ iterator, pbStart s = { s with iterator := iterator } := by
  unfold pbStart
  cases hit : s.iterator with
  | none => exact ⟨node s.peerbases 0, rfl⟩
  | some i => exact ⟨s.iterator, rfl⟩

theorem pbIteration_control (c : Config) (currTime : ℤ) (pid : ℕ) (s : State) :
    ∃ peerbases, (pbIteration c currTime pid s).toControl =
      { s.toControl with peerbases := peerbases } := by
  rcases pbIteration_cases c currTime pid s with ⟨heq, _⟩ |
    ⟨i, base, _, hbase, ⟨_, heq⟩ | ⟨_, _, heq⟩ | ⟨_, _, heq⟩⟩
  · exact ⟨_, by rw [heq]⟩
  · exact ⟨_, by rw [heq]⟩
  · exact ⟨_, by rw [heq]⟩
  · exact ⟨_, by rw [heq]⟩

theorem map_pbIteration_sublist {β : Type*} {g : IcdBase → β}
    (hpid : ∀ base pid, g (base.setIsdPid pid) = g base) (c : Config) (currTime : ℤ)
    (pid : ℕ) (s : State) :
    ((pbIteration c currTime pid s).peerbases.map g).Sublist (s.peerbases.map g) := by
  rcases pbIteration_cases c currTime pid s with ⟨heq, _⟩ |
    ⟨i, base, _, hbase, ⟨_, heq⟩ | ⟨_, _, heq⟩ | ⟨_, _, heq⟩⟩
  · rw [heq]
  · rw [heq]
    exact (List.eraseIdx_sublist _ i).map g
  · rw [heq]
  · rw [heq]
    dsimp only
    rw [map_set_same hbase (hpid base pid)]

/-! ## Keys -/

theorem updateBase_key (c : Config) (currTime : ℤ) (msg : CapMsg) (base : IcdBase) :
    (updateBase c currTime msg base).key = base.key := rfl

theorem setIsdPid_key (base : IcdBase) (pid : ℤ) : (base.setIsdPid pid).key = base.key :=
  rfl

/-- What a step does to the bases, as far as `g` sees them, and to the reboot counter: a CAP of
a flow without a base that has a match creates one, and everything else only deletes. -/
theorem step_map_cases {β : Type*} {g : IcdBase → β} {c : Config}
    (hupdate : ∀ currTime msg base, g (updateBase c currTime msg base) = g base)
    (hpid : ∀ base pid, g (base.setIsdPid pid) = g base) {s s' : State} {e : Event}
    (h : step c s e = some s') :
    (∃ heap msg base, e.action = .cap heap msg ∧
      lookup IcdBase.key msg.key s.peerbases = none ∧
      indMatch c.this.toHost msg.inds ≠ 0 ∧
      createBase c e.currTime heap msg (indMatch c.this.toHost msg.inds) s.toControl =
        some base ∧
      s'.peerbases = s.peerbases ++ [base] ∧ s'.rebootCounter = s.rebootCounter + 1) ∨
    (∀ heap msg, e.action = .cap heap msg →
      lookup IcdBase.key msg.key s.peerbases = none → indMatch c.this.toHost msg.inds = 0) ∧
      s'.rebootCounter = s.rebootCounter ∧
      (s'.peerbases.map g).Sublist (s.peerbases.map g) := by
  obtain ⟨currTime, action⟩ := e
  cases action with
  | cap heap msg =>
      obtain ⟨control, hcontrol, rfl⟩ := Option.map_eq_some_iff.1 h
      rcases handleCap_cases hcontrol with
        ⟨base, hfound, rfl⟩ | ⟨hnone, hmatch, rfl⟩ | ⟨base, hnone, hmatch, hbase, rfl⟩
      · refine Or.inr ⟨?_, by simp, ?_⟩
        · intro heap' msg' he hnone
          cases he
          rw [hfound] at hnone
          cases hnone
        · dsimp only
          rw [sendAck_peerbases, map_update fun base _ => hupdate currTime msg base]
      · refine Or.inr ⟨?_, rfl, List.Sublist.refl _⟩
        intro heap' msg' he _
        cases he
        exact hmatch
      · exact Or.inl ⟨heap, msg, base, rfl, hnone, hmatch, hbase, by simp, by simp⟩
  | pbStart =>
      obtain ⟨iterator, heq⟩ := pbStart_eq s
      obtain rfl := Option.some.inj h
      rw [heq]
      exact Or.inr ⟨fun heap msg he => (by cases he), rfl, List.Sublist.refl _⟩
  | pbIteration pid =>
      obtain rfl := Option.some.inj h
      obtain ⟨peerbases, heq⟩ := pbIteration_control c currTime pid s
      refine Or.inr ⟨fun heap msg he => (by cases he), ?_,
        map_pbIteration_sublist hpid c currTime pid s⟩
      rw [heq]

theorem uniqueKeys_step {c : Config} {s s' : State} {e : Event}
    (hs : UniqueKeys IcdBase.key s.peerbases) (h : step c s e = some s') :
    UniqueKeys IcdBase.key s'.peerbases := by
  rcases step_map_cases (updateBase_key c) setIsdPid_key h with
    ⟨heap, msg, base, _, hnone, _, hbase, heq, _⟩ | ⟨_, _, hsub⟩
  · rw [heq]
    exact uniqueKeys_append_singleton hs (by rwa [createBase_key hbase])
  · exact hs.sublist hsub

/-! ## One flow -/

/-- What a step does to the base of the flow `k`. -/
inductive LookupStep (c : Config) (s : State) (e : Event) (k : FlowKey) :
    Option IcdBase → Option IcdBase → Prop
  /-- A CAP of the flow finds the base. -/
  | refresh (heap : Heap) (msg : CapMsg) (base : IcdBase) (he : e.action = .cap heap msg)
      (hk : msg.key = k) :
      LookupStep c s e k (some base) (some (updateBase c e.currTime msg base))
  /-- A CAP of the flow creates the base. -/
  | create (heap : Heap) (msg : CapMsg) (base : IcdBase) (he : e.action = .cap heap msg)
      (hk : msg.key = k) (hmatch : indMatch c.this.toHost msg.inds ≠ 0)
      (hbase : createBase c e.currTime heap msg (indMatch c.this.toHost msg.inds)
        s.toControl = some base) :
      LookupStep c s e k none (some base)
  /-- A CAP of the flow has no match. -/
  | noMatch (heap : Heap) (msg : CapMsg) (he : e.action = .cap heap msg) (hk : msg.key = k)
      (hmatch : indMatch c.this.toHost msg.inds = 0) : LookupStep c s e k none none
  /-- The ISD of the base is started. -/
  | start (pid : ℕ) (base : IcdBase) (he : e.action = .pbIteration pid) :
      LookupStep c s e k (some base) (some (base.setIsdPid pid))
  /-- The aged base is deleted. -/
  | expire (pid : ℕ) (base : IcdBase) (he : e.action = .pbIteration pid)
      (haged : aged e.currTime base) : LookupStep c s e k (some base) none
  /-- The step is about something else. -/
  | other (he : ∀ heap msg, e.action = .cap heap msg → msg.key ≠ k) (o : Option IcdBase) :
      LookupStep c s e k o o

theorem capStep_lookup {c : Config} {s s' : State} {currTime : ℤ} {heap : Heap}
    {msg : CapMsg} (h : capStep c currTime heap msg s = some s') (k : FlowKey) :
    LookupStep c s ⟨currTime, .cap heap msg⟩ k (lookup IcdBase.key k s.peerbases)
      (lookup IcdBase.key k s'.peerbases) := by
  obtain ⟨control, hcontrol, rfl⟩ := Option.map_eq_some_iff.1 h
  have hother : msg.key ≠ k → ∀ heap' msg',
      Event.action ⟨currTime, .cap heap msg⟩ = .cap heap' msg' → msg'.key ≠ k := by
    rintro hne heap' msg' heq
    cases heq
    exact hne
  rcases handleCap_cases hcontrol with
    ⟨base, hfound, rfl⟩ | ⟨hnone, hmatch, rfl⟩ | ⟨base, hnone, hmatch, hbase, rfl⟩
  · dsimp only
    rw [sendAck_peerbases]
    by_cases hk : msg.key = k
    · subst hk
      rw [lookup_update_same fun base _ => updateBase_key c currTime msg base, hfound]
      exact .refresh heap msg base rfl rfl
    · rw [lookup_update_of_ne (fun base _ => updateBase_key c currTime msg base) (Ne.symm hk)]
      exact .other (hother hk) _
  · dsimp only
    by_cases hk : msg.key = k
    · subst hk
      rw [hnone]
      exact .noMatch heap msg rfl rfl hmatch
    · exact .other (hother hk) _
  · dsimp only
    rw [sendAck_peerbases, lookup_append_singleton, createBase_key hbase]
    by_cases hk : msg.key = k
    · subst hk
      rw [hnone, if_pos rfl, Option.none_or]
      exact .create heap msg base rfl rfl hmatch hbase
    · rw [if_neg hk, Option.or_none]
      exact .other (hother hk) _

theorem pbIteration_lookup {c : Config} {s : State}
    (hs : UniqueKeys IcdBase.key s.peerbases) (currTime : ℤ) (pid : ℕ) (k : FlowKey) :
    LookupStep c s ⟨currTime, .pbIteration pid⟩ k (lookup IcdBase.key k s.peerbases)
      (lookup IcdBase.key k (pbIteration c currTime pid s).peerbases) := by
  have hother : ∀ heap msg, Event.action ⟨currTime, .pbIteration pid⟩ = .cap heap msg →
      msg.key ≠ k := fun heap msg h => by cases h
  rcases pbIteration_cases c currTime pid s with ⟨heq, _⟩ |
    ⟨i, base, _, hbase, ⟨haged, heq⟩ | ⟨_, _, heq⟩ | ⟨_, _, heq⟩⟩
  · rw [heq]
    exact .other hother _
  · rw [heq]
    dsimp only
    by_cases hk : base.key = k
    · subst hk
      rw [lookup_eraseIdx_same hs hbase, lookup_of_mem hs (List.mem_of_getElem? hbase)]
      exact .expire pid base rfl haged
    · rw [lookup_eraseIdx_of_ne hbase hk]
      exact .other hother _
  · rw [heq]
    exact .other hother _
  · rw [heq]
    dsimp only
    rw [set_eq_update hs hbase fun base => base.setIsdPid pid]
    by_cases hk : base.key = k
    · subst hk
      rw [lookup_update_same (fun base _ => setIsdPid_key base pid),
        lookup_of_mem hs (List.mem_of_getElem? hbase)]
      exact .start pid base rfl
    · rw [lookup_update_of_ne (fun base _ => setIsdPid_key base pid) (Ne.symm hk)]
      exact .other hother _

theorem step_lookup {c : Config} {s s' : State} {e : Event}
    (hs : UniqueKeys IcdBase.key s.peerbases) (h : step c s e = some s') (k : FlowKey) :
    LookupStep c s e k (lookup IcdBase.key k s.peerbases)
      (lookup IcdBase.key k s'.peerbases) := by
  obtain ⟨currTime, action⟩ := e
  cases action with
  | cap heap msg => exact capStep_lookup h k
  | pbStart =>
      obtain ⟨iterator, heq⟩ := pbStart_eq s
      obtain rfl := Option.some.inj h
      rw [heq]
      exact .other (fun heap msg h => by cases h) _
  | pbIteration pid =>
      obtain rfl := Option.some.inj h
      exact pbIteration_lookup hs currTime pid k

end Iprp.Icd
