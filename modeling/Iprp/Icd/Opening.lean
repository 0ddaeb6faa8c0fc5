import Iprp.Icd.Diversion

/-!
# From a CAP to an ISD

Once a CAP of a flow has been handled and matched, the next end of a pass of `pb_routine` finds
the flow with a base, a file, a rule and an ISD, whatever other CAPs and iterations come in
between, if not more than `iprpPbTexp` seconds go by (`opened_of_endsPass`).
-/

namespace Iprp.Icd

open KeyedList

/-- The flow has a base with the given INDs, for which a file, a rule and an ISD are there. -/
def Opened (k : FlowKey) (inds : IndBitmap) (s : State) : Prop :=
  ∃ base ∈ s.peerbases, base.key = k ∧ base.inds &&& inds = inds ∧
    (s.files (peerbasePath base.link.snsid)).isSome ∧ isdRule base ∈ s.rules ∧
    isdOf base base.isdPid ∈ s.isds

/-- The base of a flow that a CAP with the given INDs has made or refreshed at the time `t` or
later. -/
structure Announces (k : FlowKey) (inds : IndBitmap) (t : ℤ) (s : State) : Prop where
  unique : UniqueKeys IcdBase.key s.peerbases
  base : ∃ base, lookup IcdBase.key k s.peerbases = some base ∧ base.inds &&& inds = inds ∧
    t ≤ base.lastCap

theorem or_and_self (a b : IndBitmap) : (a ||| b) &&& b = b := by
  ext i hi
  simp only [BitVec.getElem_and, BitVec.getElem_or]
  cases a[i] <;> simp

theorem and_of_or {a b inds : IndBitmap} (h : a &&& inds = inds) :
    (a ||| b) &&& inds = inds := by
  ext i hi
  have hbit : (a &&& inds)[i] = inds[i] := by rw [h]
  simp only [BitVec.getElem_and, BitVec.getElem_or] at hbit ⊢
  cases ha : a[i] with
  | true => simp
  | false =>
      rw [ha, Bool.false_and] at hbit
      rw [← hbit, Bool.and_false]

theorem announces_cap {c : Config} {heap : Heap} {msg : CapMsg} {t : ℤ} {s s' : State}
    (hs : UniqueKeys IcdBase.key s.peerbases) (hmatch : indMatch c.this.toHost msg.inds ≠ 0)
    (h : step c s ⟨t, .cap heap msg⟩ = some s') :
    Announces msg.key (indMatch c.this.toHost msg.inds) t s' := by
  refine ⟨uniqueKeys_step hs h, ?_⟩
  have hlook := step_lookup hs h msg.key
  generalize lookup IcdBase.key msg.key s'.peerbases = found at hlook ⊢
  generalize lookup IcdBase.key msg.key s.peerbases = old at hlook
  cases hlook with
  | refresh heap' msg' base he hk =>
      cases he
      exact ⟨_, rfl, or_and_self _ _, le_refl t⟩
  | create heap' msg' base he hk _ hbase =>
      cases he
      obtain ⟨-, hinds, -, -, -, hlast⟩ := createBase_fields hbase
      exact ⟨base, rfl, by rw [hinds, BitVec.and_self], by rw [hlast]⟩
  | noMatch heap' msg' he hk hnone =>
      cases he
      exact absurd hnone hmatch
  | start pid base he => cases he
  | expire pid base he => cases he
  | other he o => exact absurd rfl (he heap msg rfl)

/-- The base stays as long as it is young. -/
theorem Announces.step {c : Config} {k : FlowKey} {inds : IndBitmap} {t : ℤ} {s s' : State}
    {e : Event} (hs : Announces k inds t s) (he : t ≤ e.currTime ∧ e.currTime ≤ t + iprpPbTexp)
    (h : step c s e = some s') : Announces k inds t s' := by
  refine ⟨uniqueKeys_step hs.unique h, ?_⟩
  obtain ⟨base, hbase, hinds, hlast⟩ := hs.base
  have hlook := step_lookup hs.unique h k
  rw [hbase] at hlook
  generalize lookup IcdBase.key k s'.peerbases = found at hlook ⊢
  cases hlook with
  | refresh heap msg _ _ _ => exact ⟨_, rfl, and_of_or hinds, he.1⟩
  | start pid _ _ => exact ⟨_, rfl, hinds, hlast⟩
  | expire pid _ _ haged =>
      have hold : iprpPbTexp < e.currTime - base.lastCap := by simpa [aged] using haged
      omega
  | other _ _ => exact ⟨base, rfl, hinds, hlast⟩

/-! ## Files -/

/-- A base with an ISD has been stored. -/
def StartedStored (s : State) : Prop :=
  ∀ base ∈ s.peerbases, base.isdPid ≠ -1 → (s.files (peerbasePath base.link.snsid)).isSome

theorem startedStored_cap {c : Config} {currTime : ℤ} {heap : Heap} {msg : CapMsg}
    {s s' : State} (hs : StartedStored s) (h : capStep c currTime heap msg s = some s') :
    StartedStored s' := by
  obtain ⟨control, hcontrol, rfl⟩ := Option.map_eq_some_iff.1 h
  unfold StartedStored
  dsimp only
  rcases handleCap_cases hcontrol with
    ⟨base, _, rfl⟩ | ⟨_, _, rfl⟩ | ⟨base, _, _, hbase, rfl⟩
  · rw [sendAck_peerbases]
    exact forall_mem_update hs fun base hbase => hs base (mem_of_lookup hbase)
  · exact hs
  · rw [sendAck_peerbases]
    intro base' hbase' hpid
    rcases List.mem_append.1 hbase' with hold | hnew
    · exact hs base' hold hpid
    · rw [List.mem_singleton.1 hnew] at hpid
      exact absurd (createBase_fields hbase).2.2.2.2.1 hpid

theorem isSome_peerbaseStore {files : List Char → Option Peerbase} {path path' : List Char}
    {peerbase : Peerbase} (h : path' = path ∨ (files path').isSome) :
    (peerbaseStore path peerbase files path').isSome := by
  rw [peerbaseStore, Function.update_apply]
  split
  · rfl
  · next hne => exact h.resolve_left hne

theorem setIsdPid_link (base : IcdBase) (pid : ℤ) : (base.setIsdPid pid).link = base.link := rfl

theorem startedStored_pbIteration (c : Config) (currTime : ℤ) (pid : ℕ) {s : State}
    (hs : StartedStored s) : StartedStored (pbIteration c currTime pid s) := by
  rcases pbIteration_cases c currTime pid s with ⟨heq, -⟩ |
    ⟨i, base, -, hbase, ⟨-, heq⟩ | ⟨-, -, heq⟩ | ⟨-, -, heq⟩⟩
  · rw [heq]
    exact hs
  · rw [heq]
    exact fun base' hbase' => hs base' (List.mem_of_mem_eraseIdx hbase')
  · rw [heq]
    unfold StartedStored
    dsimp only
    intro base' hbase' hpid
    exact isSome_peerbaseStore (Or.inr (hs base' hbase' hpid))
  · rw [heq]
    unfold StartedStored
    dsimp only
    intro base' hbase' hpid
    rcases List.mem_or_eq_of_mem_set hbase' with hold | rfl
    · exact isSome_peerbaseStore (Or.inr (hs base' hold hpid))
    · rw [setIsdPid_link]
      exact isSome_peerbaseStore (Or.inl rfl)

theorem startedStored_run {c : Config} {es : List Event} {s : State} (h : run c es = some s) :
    StartedStored s := by
  refine Run.runFrom_preserved StartedStored ?_ ?_ h
  swap
  · exact fun base hbase => absurd hbase List.not_mem_nil
  rintro s ⟨currTime, action⟩ s' hs hstep
  cases action with
  | cap heap msg => exact startedStored_cap hs hstep
  | pbStart =>
      obtain ⟨iterator, heq⟩ := pbStart_eq s
      obtain rfl := Option.some.inj hstep
      rw [heq]
      exact hs
  | pbIteration pid =>
      obtain rfl := Option.some.inj hstep
      exact startedStored_pbIteration c currTime pid hs

/-! ## The end of a pass -/

theorem mem_of_started {c : Config} {es : List Event} {s : State} (h : run c es = some s)
    {base : IcdBase} (hbase : base ∈ s.peerbases) (hpid : base.isdPid ≠ -1) :
    isdRule base ∈ s.rules ∧ isdOf base base.isdPid ∈ s.isds := by
  obtain ⟨others, hdiverted, -⟩ := diverted_run h
  have hpair : (isdOf base base.isdPid, isdRule base) ∈ s.peerbases.filterMap diversion :=
    List.mem_filterMap.2 ⟨base, hbase, if_neg hpid⟩
  have hzip := hdiverted.perm.mem_iff.2 (List.mem_append_left others hpair)
  exact ⟨(List.of_mem_zip hzip).2, (List.of_mem_zip hzip).1⟩

/-- After a CAP with a match, every end of a pass within `iprpPbTexp` seconds finds the flow
open. -/
theorem opened_of_endsPass {c : Config} {pre post : List Event} {heap : Heap} {msg : CapMsg}
    {t : ℤ} (hmatch : indMatch c.this.toHost msg.inds ≠ 0) {e : Event}
    (htimes : ∀ e' ∈ post ++ [e], t ≤ e'.currTime ∧ e'.currTime ≤ t + iprpPbTexp)
    {s s' : State} (hs : run c (pre ++ [⟨t, .cap heap msg⟩] ++ post) = some s)
    (hstep : step c s e = some s') (hend : EndsPass s s' e.action) :
    Opened msg.key (indMatch c.this.toHost msg.inds) s' := by
  have hrun' : run c (pre ++ [⟨t, .cap heap msg⟩] ++ post ++ [e]) = some s' :=
    Run.runFrom_append_singleton_eq_some.2 ⟨s, hs, hstep⟩
  obtain ⟨s₁, hs₁, hpost⟩ : ∃ s₁, run c (pre ++ [⟨t, .cap heap msg⟩]) = some s₁ ∧
      Run.runFrom (step c) s₁ (post ++ [e]) = some s' := by
    rw [List.append_assoc] at hrun'
    exact Option.bind_eq_some_iff.1 ((Run.runFrom_append _ _ _ _).symm.trans hrun')
  obtain ⟨s₀, hs₀, hcap⟩ := Run.runFrom_append_singleton_eq_some.1 hs₁
  have hann := Run.runFrom_invariant
    (Announces msg.key (indMatch c.this.toHost msg.inds) t)
    (fun e => t ≤ e.currTime ∧ e.currTime ≤ t + iprpPbTexp)
    (fun _ _ _ hs he hstep => hs.step he hstep) (announces_cap (uniqueKeys_run hs₀) hmatch hcap)
    htimes hpost
  obtain ⟨base, hbase, hinds, -⟩ := hann.base
  have hmem := mem_of_lookup hbase
  have hpid := started_of_endsPass hs hstep hend base hmem
  obtain ⟨hrule, hisd⟩ := mem_of_started hrun' hmem hpid
  exact ⟨base, hmem, key_of_lookup hbase, hinds, startedStored_run hrun' base hmem hpid, hrule,
    hisd⟩

end Iprp.Icd
