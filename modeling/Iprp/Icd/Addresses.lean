import Iprp.Icd.History
import Iprp.Isd.Copies

/-!
# The addresses of a base

In the unicast build a base has a bitmap of INDs and a table of addresses. `createBase`
fills both from its CAP, but a later CAP only adds to the bitmap. So the table follows the
announcements exactly as long as no CAP that finds its base announces, for a matched IND,
another address than the table has (`addrs_follow_iff`). As long as it does, an ISD sends
its copies to announced addresses only.
-/

namespace Iprp.Icd

open KeyedList

/-- The address for the IND `i` in the most recent CAP of the flow that announced `i`. -/
def latestAddr (k : FlowKey) (i : ℕ) (es : List Event) : Option InAddr :=
  ((capsOf k es).filterMap fun p => announcedAddr p.2 i).getLast?

/-- Every IND of every base has the address announced for it most recently since the
base was created. -/
def AddrsFollow (c : Config) (es : List Event) (s : State) : Prop :=
  ∀ base ∈ s.peerbases, ∀ i (hi : i < 16), base.inds.getLsbD i = true →
    ∃ pre post, es = pre ++ post ∧ Since c base.key pre post ∧
      latestAddr base.key i post = some base.destAddr[i]

/-- Some CAP among the events announces the address. -/
def Announced (es : List Event) (addr : InAddr) : Prop :=
  ∃ e ∈ es, ∃ heap msg, e.action = .cap heap msg ∧
    ∃ iface ∈ msg.receiver.used, iface.addr = addr

/-- An ISD that works with any of the stored peerbases sends its copies to announced
addresses only. -/
def CopiesAnnounced (c : Config) (es : List Event) (s : State) : Prop :=
  ∀ path peerbase, s.files path = some peerbase →
    ∀ heap currTime sendto buf st out st',
      Isd.handlePacket c.target peerbase heap currTime sendto buf st = some (out, st') →
      ∀ copy ∈ out.copies, Announced es copy.destAddr.addr

/-- No CAP that finds its base announces another address for a matched IND. -/
def AddrsKept (c : Config) (es : List Event) : Prop :=
  ∀ k s e heap msg base, run c (es.take k) = some s → es[k]? = some e →
    e.action = .cap heap msg → peerbaseQuery msg s.peerbases = some base →
    ∀ i (hi : i < 16), (indMatch c.this.toHost msg.inds).getLsbD i = true →
      announcedAddr msg i = some base.destAddr[i]

theorem latestAddr_append_cap {k : FlowKey} {i : ℕ} {es : List Event} {e : Event}
    {heap : Heap} {msg : CapMsg} (he : e.action = .cap heap msg) (hk : msg.key = k) :
    latestAddr k i (es ++ [e]) = (announcedAddr msg i).or (latestAddr k i es) := by
  rw [latestAddr, capsOf_append, capsOf_singleton_cap he hk, List.filterMap_append,
    List.getLast?_append]
  congr 1
  cases haddr : announcedAddr msg i with
  | none => simp [haddr]
  | some addr => simp [haddr]

theorem latestAddr_append_other {k : FlowKey} {i : ℕ} {es : List Event} {e : Event}
    (he : ∀ heap msg, e.action = .cap heap msg → msg.key ≠ k) :
    latestAddr k i (es ++ [e]) = latestAddr k i es := by
  rw [latestAddr, capsOf_append, capsOf_singleton_other he, List.append_nil]
  rfl

theorem Announced.mono {es es' : List Event} (h : es ⊆ es') {addr : InAddr}
    (ha : Announced es addr) : Announced es' addr := by
  obtain ⟨e, he, rest⟩ := ha
  exact ⟨e, h he, rest⟩

theorem announced_of_latestAddr {k : FlowKey} {i : ℕ} {es : List Event} {addr : InAddr}
    (h : latestAddr k i es = some addr) : Announced es addr := by
  obtain ⟨⟨t, msg⟩, hp, haddr⟩ := List.mem_filterMap.1 (List.mem_of_getLast? h)
  obtain ⟨e, he, hcap⟩ := List.mem_filterMap.1 hp
  obtain ⟨iface, hfind, hiface⟩ := Option.map_eq_some_iff.1 haddr
  obtain ⟨currTime, action⟩ := e
  cases action with
  | cap heap msg' =>
      dsimp only at hcap
      split at hcap
      · cases hcap
        exact ⟨_, he, heap, msg, rfl, iface, List.mem_of_find?_eq_some hfind, hiface⟩
      · cases hcap
  | pbStart => cases hcap
  | pbIteration pid => cases hcap

/-! ## Sufficiency -/

/-- What is kept of a base: its INDs are the host's and have their latest addresses. -/
def Addressed (c : Config) (k : FlowKey) (post : List Event) (base : IcdBase) : Prop :=
  ∀ i (hi : i < 16), base.inds.getLsbD i = true →
    (hostInds c.this.toHost).getLsbD i = true ∧
      latestAddr k i post = some base.destAddr[i]

theorem addressed_history {c : Config} (hbuild : c.target.build = .unicast)
    {es : List Event}
    (hcaps : ∀ e ∈ es, ∀ heap msg, e.action = .cap heap msg → msg.WellFormed .unicast)
    (hkept : AddrsKept c es) {k : FlowKey} {s : State} (hrun : run c es = some s)
    {base : IcdBase} (hbase : lookup IcdBase.key k s.peerbases = some base) :
    ∃ pre post, es = pre ++ post ∧ Since c k pre post ∧ Addressed c k post base := by
  refine history_rule ?_ ?_ hrun hbase
  · intro pre s e base hpre _ hstep
    cases hstep with
    | create heap msg _ he hk hmatch hbase =>
        intro i hi hbit
        have hwf : msg.WellFormed .unicast := hcaps e (hpre.subset (by simp)) heap msg he
        obtain ⟨_, hinds, hdest, _⟩ := createBase_fields hbase
        obtain ⟨destAddr, hstore, haddrs⟩ := storeAddrs_wellFormed hwf heap.addrs
        rw [hbuild] at hdest
        obtain rfl : destAddr = base.destAddr := Option.some.inj (hstore.symm.trans hdest)
        rw [hinds, indMatch_eq, BitVec.getLsbD_and, Bool.and_eq_true] at hbit
        obtain ⟨addr, haddr⟩ := Option.isSome_iff_exists.1
          ((announcedAddr_isSome_iff hwf hi).trans hbit.2)
        have hslot := haddrs i addr haddr
        rw [Vector.getElem?_eq_getElem hi] at hslot
        refine ⟨hbit.1, ?_⟩
        rw [← List.nil_append [e], latestAddr_append_cap he hk, haddr, Option.some_or]
        exact hslot.symm
  · intro pre post s e base base' hpre hs hlook h hstep i hi hbit
    cases hstep with
    | refresh heap msg _ he hk =>
        have hwf : msg.WellFormed .unicast := hcaps e (hpre.subset (by simp)) heap msg he
        obtain ⟨htake, hget⟩ := Run.take_of_concat_prefix hpre
        have hmatched := hkept (pre ++ post).length s e heap msg base (htake.symm ▸ hs) hget
          he (by rw [peerbaseQuery, hk, hlook]) i hi
        rw [latestAddr_append_cap he hk]
        rw [indMatch_eq, BitVec.getLsbD_and, Bool.and_eq_true] at hmatched
        rw [updateBase, BitVec.getLsbD_or, indMatch_eq, BitVec.getLsbD_and, Bool.or_eq_true,
          Bool.and_eq_true] at hbit
        by_cases hmatch : (hostInds c.this.toHost).getLsbD i = true ∧
            msg.inds.getLsbD i = true
        · refine ⟨hmatch.1, ?_⟩
          rw [hmatched hmatch, Option.some_or]
          rfl
        · obtain ⟨hhost, hlatest⟩ := h i hi (hbit.resolve_right hmatch)
          have hnone : announcedAddr msg i = none := by
            rw [← Option.not_isSome_iff_eq_none, announcedAddr_isSome_iff hwf hi]
            intro hann
            exact hmatch ⟨hhost, hann⟩
          refine ⟨hhost, ?_⟩
          rw [hnone, Option.none_or]
          exact hlatest
    | start pid _ he =>
        rw [latestAddr_append_other (by intro heap msg h; rw [he] at h; cases h)]
        exact h i hi hbit
    | other he _ =>
        rw [latestAddr_append_other he]
        exact h i hi hbit

theorem AddrsKept.of_append {c : Config} {es es' : List Event} (h : AddrsKept c (es ++ es')) :
    AddrsKept c es := by
  intro k s e heap msg base hs he
  have hk : k < es.length := (List.getElem?_eq_some_iff.1 he).1
  apply h k s e heap msg base
  · rwa [List.take_append_of_le_length (le_of_lt hk)]
  · rwa [List.getElem?_append_left hk]

theorem addrsFollow_of_kept {c : Config} (hbuild : c.target.build = .unicast)
    {es : List Event}
    (hcaps : ∀ e ∈ es, ∀ heap msg, e.action = .cap heap msg → msg.WellFormed .unicast)
    (hkept : AddrsKept c es) {s : State} (hrun : run c es = some s) :
    AddrsFollow c es s := by
  intro base hbase i hi hbit
  obtain ⟨pre, post, hes, hsince, h⟩ := addressed_history hbuild hcaps hkept hrun
    (lookup_of_mem (uniqueKeys_run hrun) hbase)
  exact ⟨pre, post, hes, hsince, (h i hi hbit).2⟩

/-- What is stored has announced addresses for its INDs. -/
def FilesAnnounced (es : List Event) (s : State) : Prop :=
  ∀ path peerbase, s.files path = some peerbase → ∀ i addr,
    peerbase.inds.getLsbD i = true → peerbase.destAddr[i]? = some addr → Announced es addr

theorem FilesAnnounced.mono {es es' : List Event} (hsub : es ⊆ es') {s : State}
    (h : FilesAnnounced es s) : FilesAnnounced es' s :=
  fun path peerbase hpath i addr hbit haddr =>
    (h path peerbase hpath i addr hbit haddr).mono hsub

theorem FilesAnnounced.store {c : Config} {es : List Event} {s s' : State}
    (h : FilesAnnounced es s) (hfollow : AddrsFollow c es s) {base : IcdBase}
    (hbase : base ∈ s.peerbases)
    (hfiles : s'.files = peerbaseStore (peerbasePath base.link.snsid)
      (createPeerbase c.this.toHost base) s.files) : FilesAnnounced es s' := by
  intro path peerbase hpath i addr hbit haddr
  rw [hfiles, peerbaseStore, Function.update_apply] at hpath
  split at hpath
  · obtain rfl := Option.some.inj hpath
    have hi : i < 16 := by
      by_contra hge
      rw [createPeerbase, Vector.getElem?_eq_none (not_lt.1 hge)] at haddr
      cases haddr
    obtain ⟨pre, post, rfl, _, hlatest⟩ := hfollow base hbase i hi hbit
    rw [createPeerbase, Vector.getElem?_eq_getElem hi] at haddr
    rw [Option.some.inj haddr] at hlatest
    exact (announced_of_latestAddr hlatest).mono (List.subset_append_right pre post)
  · exact h path peerbase hpath i addr hbit haddr

theorem filesAnnounced_of_kept {c : Config} (hbuild : c.target.build = .unicast)
    {es : List Event}
    (hcaps : ∀ e ∈ es, ∀ heap msg, e.action = .cap heap msg → msg.WellFormed .unicast)
    (hkept : AddrsKept c es) {s : State} (hrun : run c es = some s) :
    FilesAnnounced es s := by
  induction es using List.reverseRecOn generalizing s with
  | nil =>
      obtain rfl : State.init = s := Option.some.inj hrun
      intro path peerbase h
      cases h
  | append_singleton es e ih =>
      have hsub : es ⊆ es ++ [e] := List.subset_append_left es [e]
      have hcaps' : ∀ e' ∈ es, ∀ heap msg, e'.action = .cap heap msg →
          msg.WellFormed .unicast := fun e' he' => hcaps e' (hsub he')
      obtain ⟨t, ht, hte⟩ := Run.runFrom_append_singleton_eq_some.1 hrun
      have hold : FilesAnnounced es t := ih hcaps' hkept.of_append ht
      have hfollow : AddrsFollow c es t :=
        addrsFollow_of_kept hbuild hcaps' hkept.of_append ht
      suffices hnew : FilesAnnounced es s from hnew.mono hsub
      obtain ⟨currTime, action⟩ := e
      cases action with
      | cap heap msg =>
          obtain ⟨control, _, rfl⟩ := Option.map_eq_some_iff.1 hte
          exact hold
      | pbStart =>
          obtain ⟨iterator, heq⟩ := pbStart_eq t
          obtain rfl := Option.some.inj hte
          rw [heq]
          exact hold
      | pbIteration pid =>
          obtain rfl := Option.some.inj hte
          rcases pbIteration_cases c currTime pid t with ⟨heq, _⟩ |
            ⟨i, base, _, hbase, ⟨_, heq⟩ | ⟨_, _, heq⟩ | ⟨_, _, heq⟩⟩
          · rw [heq]
            exact hold
          · rw [heq]
            exact hold
          · exact hold.store hfollow (List.mem_of_getElem? hbase) (by rw [heq])
          · exact hold.store hfollow (List.mem_of_getElem? hbase) (by rw [heq])

theorem copiesAnnounced_of_files {c : Config} (hbuild : c.target.build = .unicast)
    {es : List Event} {s : State} (h : FilesAnnounced es s) : CopiesAnnounced c es s := by
  intro path peerbase hpath heap currTime sendto buf st out st' hhandle copy hcopy
  obtain ⟨alive, hcopies⟩ := Isd.handlePacket_copies hhandle
  rw [hbuild] at hcopies
  obtain ⟨i, hbit, haddr⟩ := Isd.sendCopies_unicast hcopies copy hcopy
  exact h path peerbase hpath i copy.destAddr.addr hbit haddr

/-! ## Necessity -/

theorem announcedAddr_of_follow {c : Config} {es : List Event} {s s' : State} {e : Event}
    {heap : Heap} {msg : CapMsg} {base : IcdBase} (hrun : run c es = some s)
    (hstep : step c s e = some s') (he : e.action = .cap heap msg)
    (hwf : msg.WellFormed .unicast)
    (hbase : lookup IcdBase.key msg.key s.peerbases = some base)
    (hfollow : AddrsFollow c (es ++ [e]) s') {i : ℕ} (hi : i < 16)
    (hmatch : (indMatch c.this.toHost msg.inds).getLsbD i = true) :
    announcedAddr msg i = some base.destAddr[i] := by
  have hrun' : run c (es ++ [e]) = some s' :=
    Run.runFrom_append_singleton_eq_some.2 ⟨s, hrun, hstep⟩
  obtain ⟨currTime, action⟩ := e
  obtain rfl : action = .cap heap msg := he
  have hlook : lookup IcdBase.key msg.key s'.peerbases =
      some (updateBase c currTime msg base) := by
    obtain ⟨control, hcontrol, rfl⟩ := Option.map_eq_some_iff.1 hstep
    rcases handleCap_cases hcontrol with
      ⟨base', hfound, rfl⟩ | ⟨hnone, _, rfl⟩ | ⟨base', hnone, _, _, rfl⟩
    · dsimp only
      rw [sendAck_peerbases,
        lookup_update_same fun base _ => updateBase_key c currTime msg base, hbase]
      rfl
    · rw [hbase] at hnone
      cases hnone
    · rw [hbase] at hnone
      cases hnone
  have hkey : (updateBase c currTime msg base).key = msg.key := key_of_lookup hlook
  have hbit : (updateBase c currTime msg base).inds.getLsbD i = true := by
    rw [updateBase, BitVec.getLsbD_or, hmatch, Bool.or_true]
  obtain ⟨pre, post, hes, hsince, hlatest⟩ :=
    hfollow _ (mem_of_lookup hlook) i hi hbit
  rw [hkey] at hsince hlatest
  -- the history is not empty, so it ends with the CAP
  rcases List.eq_nil_or_concat post with rfl | ⟨post', e, rfl⟩
  · rw [List.append_nil] at hes
    rw [hsince.absent s' (hes ▸ hrun')] at hlook
    cases hlook
  rw [List.concat_eq_append] at hlatest
  rw [List.concat_eq_append, ← List.append_assoc] at hes
  obtain rfl := List.singleton_inj.1 (List.append_inj' hes rfl).2
  rw [latestAddr_append_cap rfl rfl] at hlatest
  rw [indMatch_eq, BitVec.getLsbD_and, Bool.and_eq_true] at hmatch
  obtain ⟨addr, haddr⟩ := Option.isSome_iff_exists.1
    ((announcedAddr_isSome_iff hwf hi).trans hmatch.2)
  rw [haddr, Option.some_or] at hlatest
  rw [haddr, hlatest]
  rfl

/-- Along every run on well-formed CAPs: the addresses follow the announcements, and the
copies go to announced addresses only, if and only if the announcements never deviate from
the table of the base that they find. -/
theorem addrs_follow_iff (c : Config) (hbuild : c.target.build = .unicast) (es : List Event)
    (hcaps : ∀ e ∈ es, ∀ heap msg, e.action = .cap heap msg → msg.WellFormed .unicast) :
    (∀ k s, run c (es.take k) = some s →
      AddrsFollow c (es.take k) s ∧ CopiesAnnounced c (es.take k) s) ↔ AddrsKept c es := by
  constructor
  · intro h k s e heap msg base hs he hcap hquery i hi hmatch
    have hwf : msg.WellFormed .unicast := hcaps e (List.mem_of_getElem? he) heap msg hcap
    have htake : es.take (k + 1) = es.take k ++ [e] := by
      rw [List.take_add_one, he, Option.toList_some]
    obtain ⟨s', hs'⟩ := step_defined (c := c) (e := e)
      (fun heap msg hcap' => hbuild ▸ hcaps e (List.mem_of_getElem? he) heap msg hcap') s
    have hfollow := (h (k + 1) s' (by
      rw [htake]
      exact Run.runFrom_append_singleton_eq_some.2 ⟨s, hs, hs'⟩)).1
    rw [htake] at hfollow
    exact announcedAddr_of_follow hs hs' hcap hwf hquery hfollow hi hmatch
  · intro hkept k s hs
    have hsplit : AddrsKept c (es.take k ++ es.drop k) := by
      rwa [List.take_append_drop]
    have hkept' : AddrsKept c (es.take k) := hsplit.of_append
    have hcaps' : ∀ e ∈ es.take k, ∀ heap msg, e.action = .cap heap msg →
        msg.WellFormed .unicast := fun e he => hcaps e (List.mem_of_mem_take he)
    exact ⟨addrsFollow_of_kept hbuild hcaps' hkept' hs,
      copiesAnnounced_of_files hbuild (filesAnnounced_of_kept hbuild hcaps' hkept' hs)⟩

/-! A receiver that restarts with a second interface. -/

def loneHost : LocalHost where
  nbIfaces := 1
  ifaces := Vector.replicate 16 ⟨0, inAddr 10 0 0 2⟩
  nb_pos := by decide
  nb_le := by decide
  ind_eq := by
    intro i hi hlt
    obtain rfl : i = 0 := by omega
    rfl

def loneCap : CapMsg :=
  sendCap .unicast loneHost.toHost ⟨inAddr 10 0 0 1, inAddr 10 0 0 2, 4000, 5000⟩

def growthEvents : List Event := [⟨0, .cap smallHeap loneCap⟩, ⟨1, .cap smallHeap smallCap⟩]

theorem growthEvents_wellFormed : ∀ e ∈ growthEvents, ∀ heap msg,
    e.action = .cap heap msg → msg.WellFormed .unicast := by
  intro e he heap msg hmsg
  rcases List.mem_cons.1 he with rfl | he
  · cases hmsg
    exact sendCap_wellFormed .unicast loneHost _
  · obtain rfl := List.mem_singleton.1 he
    cases hmsg
    exact sendCap_wellFormed .unicast smallHost _

theorem addrs_follow_iff_growth :
    (∀ k s, run (smallConfig .unicast) (growthEvents.take k) = some s →
      AddrsFollow (smallConfig .unicast) (growthEvents.take k) s ∧
        CopiesAnnounced (smallConfig .unicast) (growthEvents.take k) s) ↔
      AddrsKept (smallConfig .unicast) growthEvents :=
  addrs_follow_iff (smallConfig .unicast) rfl growthEvents growthEvents_wellFormed

/-- The address of the second interface stays what `malloc` left in the base. -/
theorem addrs_stale :
    ¬ ∀ (c : Config) (es : List Event), c.target.build = .unicast →
        (∀ e ∈ es, ∀ heap msg, e.action = .cap heap msg → msg.WellFormed .unicast) →
        ∀ k s, run c (es.take k) = some s →
          AddrsFollow c (es.take k) s ∧ CopiesAnnounced c (es.take k) s := by
  intro h
  have hfirst : (run (smallConfig .unicast) [⟨0, .cap smallHeap loneCap⟩]).map
      (fun s => (lookup IcdBase.key smallCap.key s.peerbases).map (·.destAddr[1])) =
      some (some (inAddr 0xde 0xad 0xbe 0xef)) := by decide +kernel
  obtain ⟨s, hs, hlook⟩ := Option.map_eq_some_iff.1 hfirst
  obtain ⟨base, hbase, haddr⟩ := Option.map_eq_some_iff.1 hlook
  obtain ⟨s', hs'⟩ := step_defined (c := smallConfig .unicast)
    (e := ⟨1, .cap smallHeap smallCap⟩)
    (growthEvents_wellFormed ⟨1, .cap smallHeap smallCap⟩ (by simp [growthEvents])) s
  have hrun : run (smallConfig .unicast)
      ([⟨0, .cap smallHeap loneCap⟩] ++ [⟨1, .cap smallHeap smallCap⟩]) = some s' :=
    Run.runFrom_append_singleton_eq_some.2 ⟨s, hs, hs'⟩
  have hann := announcedAddr_of_follow hs hs' rfl (sendCap_wellFormed .unicast smallHost _)
    hbase (h _ growthEvents rfl growthEvents_wellFormed 2 s' hrun).1 (i := 1) (by decide)
    (by decide)
  rw [haddr] at hann
  exact absurd hann (by decide)

end Iprp.Icd
