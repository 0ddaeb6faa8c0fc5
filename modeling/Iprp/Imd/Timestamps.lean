import Iprp.Imd.Sessions

/-!
# The timestamp of a session

An entry of `active_senders` has one timestamp, which the packets of both queues refresh, and a
flag that stays set as long as the entry does. So a session outlives its iPRP packets for as
long as plain packets of the flow keep the entry young, and these are dropped. When a cleanup
pass runs at least every `imdTAsCache` seconds, every packet from the last iPRP packet to the one
dropped came soon after the one before it (`dropped_chain`).
-/

namespace Iprp.Imd

open Bytes KeyedList

def imdTAsCache : ℤ := 3

/-- The inputs from `i` on, up to `j`, hold one pass of `count_and_cleanup`. -/
def CleanupPass (t : Target) (es : List Event) (i j : ℕ) : Prop :=
  Pass (step t) State.init State.asIterator (fun e => e.action = .start) es i j

/-- A pass runs at least every `period` seconds: later than that after the first input, there is
always a complete pass within the last `period` seconds. -/
def CleanedEvery (t : Target) (period : ℤ) (es : List Event) : Prop :=
  ∀ k e e₀, es[k]? = some e → es[0]? = some e₀ → period < e.currTime - e₀.currTime →
    ∃ i j, CleanupPass t es i j ∧ j ≤ k ∧
      ∀ m e', i ≤ m → m < j → es[m]? = some e' → e.currTime - period ≤ e'.currTime

/-- The input `k` is a plain packet of the flow, and it is dropped. -/
def DroppedAt (t : Target) (es : List Event) (k : ℕ) (sender : Icd.ActiveSender) : Prop :=
  ∃ e packet s, es[k]? = some e ∧ e.action = .packet false packet ∧
    linkInformation t.order packet.buf = some sender ∧ run t (es.take k) = some s ∧
    verdict t e.currTime false packet s = some .drop

/-- The packets of the flow after the input `j`, up to the input `k`, come no later than `gap`
seconds after the one before. -/
def Chain (o : ByteOrder) (es : List Event) (sender : Icd.ActiveSender) (gap : ℤ) (j k : ℕ) :
    Prop :=
  ∀ m e, j < m → m ≤ k → es[m]? = some e → e.flow? o = some sender →
    ∃ t, lastPacketTime o sender (es.take m) = some t ∧ e.currTime - t ≤ gap

theorem keys_recordSender (build : Build) (currTime : ℤ) (iprpMessage : Bool)
    (sender : Icd.ActiveSender) (activeSenders : List Entry) :
    ∃ keys, (recordSender build currTime iprpMessage sender activeSenders).2.map Entry.key =
      activeSenders.map Entry.key ++ keys := by
  unfold recordSender
  cases hfound : activesendersFindEntry sender activeSenders with
  | some entry =>
      refine ⟨[], ?_⟩
      rw [List.append_nil]
      refine map_key_update ?_
      intro entry' hentry'
      obtain rfl := Option.some.inj (hfound.symm.trans hentry')
      rfl
  | none => exact ⟨[sender], List.map_append⟩

theorem cursorStep {t : Target} {s s' : State} {e : Event} (h : step t s e = some s') :
    CursorStep Entry.key (aged e.currTime) s.activeSenders s'.activeSenders s.asIterator
      s'.asIterator := by
  obtain ⟨currTime, action⟩ := e
  cases action with
  | packet iprpMessage packet =>
      obtain ⟨flow, hflow⟩ := packet.linkInformation_defined t.order
      rw [step_packet hflow] at h
      obtain rfl := Option.some.inj h
      obtain ⟨keys, hkeys⟩ :=
        keys_recordSender t.build currTime iprpMessage flow s.activeSenders
      exact .grow _ keys hkeys
  | start =>
      obtain rfl := Option.some.inj h
      unfold cleanupStart
      cases hit : s.asIterator with
      | none => exact .start rfl
      | some i =>
          dsimp only
          rw [hit]
          exact .refl ..
  | iteration =>
      obtain rfl := Option.some.inj h
      cases hit : s.asIterator with
      | none =>
          rw [cleanupIteration, hit]
          dsimp only
          rw [hit]
          exact .refl ..
      | some i =>
          rw [cleanupIteration_some hit]
          exact .sweep i rfl

/-! ## Gaps between packets -/

section

variable {t : Target} {es : List Event} {sender : Icd.ActiveSender}

theorem time_le_of_pairwise (hclock : es.Pairwise fun e e' => e.currTime ≤ e'.currTime)
    {i j : ℕ} {e e' : Event} (hij : i ≤ j) (he : es[i]? = some e) (he' : es[j]? = some e') :
    e.currTime ≤ e'.currTime := by
  rcases Nat.lt_or_eq_of_le hij with hlt | rfl
  · obtain ⟨hi, rfl⟩ := List.getElem?_eq_some_iff.1 he
    obtain ⟨hj, rfl⟩ := List.getElem?_eq_some_iff.1 he'
    exact List.pairwise_iff_getElem.1 hclock i j hi hj hlt
  · rw [Option.some.inj (he.symm.trans he')]

theorem find_none_stays {j m : ℕ} {s s' : State} (hjm : j ≤ m)
    (hs : run t (es.take j) = some s)
    (hnone : activesendersFindEntry sender s.activeSenders = none)
    (hquiet : ∀ n e, j ≤ n → n < m → es[n]? = some e → e.flow? t.order ≠ some sender)
    (hs' : run t (es.take m) = some s') :
    activesendersFindEntry sender s'.activeSenders = none := by
  induction hjm generalizing s' with
  | refl =>
      obtain rfl := Option.some.inj (hs.symm.trans hs')
      exact hnone
  | @step m hjm ih =>
      have hquiet' : ∀ n e, j ≤ n → n < m → es[n]? = some e → e.flow? t.order ≠ some sender :=
        fun n e hjn hnm => hquiet n e hjn (Nat.lt_succ_of_lt hnm)
      cases he : es[m]? with
      | none =>
          rw [List.take_add_one, he, Option.toList_none, List.append_nil] at hs'
          exact ih hquiet' hs'
      | some e =>
          obtain ⟨u, hu, hstep⟩ := (Run.runFrom_take_succ_eq_some he).1 hs'
          cases entryStep (uniqueKeys_run hu) hstep sender with
          | packet hflow hentry => exact absurd hflow (hquiet m e hjm (Nat.lt_succ_self m) he)
          | removed entry hiteration hentry haged hnone => exact hnone
          | kept hflow hsame =>
              rw [hsame]
              exact ih hquiet' hu

theorem lastSeen_le (ht : t.build = .multicast)
    (hclock : es.Pairwise fun e e' => e.currTime ≤ e'.currTime)
    (hcleaned : CleanedEvery t imdTAsCache es) {m : ℕ} {e : Event} {s : State} {entry : Entry}
    (he : es[m]? = some e) (hs : run t (es.take m) = some s)
    (hentry : activesendersFindEntry sender s.activeSenders = some entry) :
    e.currTime - entry.lastSeen ≤ imdAsTexp + imdTAsCache := by
  by_contra hle
  have hgap : 123 < e.currTime - entry.lastSeen := lt_of_not_ge hle
  have hlast : lastPacketTime t.order sender (es.take m) = some entry.lastSeen := by
    have hremembered := follows_run ht hs sender
    rw [hentry] at hremembered
    exact hremembered.1
  obtain ⟨p, last, hpm, hp, -, hseen, hquiet⟩ := Run.lastTime_take_eq_some hlast
  obtain ⟨e₀, he₀⟩ : ∃ e₀, es[0]? = some e₀ :=
    ⟨_, List.getElem?_eq_getElem (Nat.zero_lt_of_lt (List.getElem?_eq_some_iff.1 hp).1)⟩
  have hfirst : e₀.currTime ≤ last.currTime := time_le_of_pairwise hclock (Nat.zero_le p) he₀ hp
  have hlate : 3 < e.currTime - e₀.currTime := by omega
  obtain ⟨i, j, hpass, hjm, hrecent⟩ := hcleaned m e e₀ he he₀ hlate
  -- the whole pass comes after the last packet
  have hpi : p < i := by
    by_contra hip
    obtain ⟨first, hi, -⟩ := hpass.start
    have hold := time_le_of_pairwise hclock (Nat.le_of_not_lt hip) hi hp
    have hnew : e.currTime - 3 ≤ first.currTime := hrecent i first (Nat.le_refl i) hpass.lt hi
    omega
  have hremoved : ∃ u, run t (es.take j) = some u ∧
      activesendersFindEntry sender u.activeSenders = none := by
    refine hpass.removes State.activeSenders Entry.key (fun e => aged e.currTime) sender ?_
      (fun e s s' => cursorStep) ?_
    · rintro ⟨currTime, action⟩ u u' hstart hidle hstep
      obtain rfl : action = .start := hstart
      obtain rfl := Option.some.inj hstep
      rw [cleanupStart, hidle]
      exact ⟨rfl, rfl⟩
    · intro n e' u a hin hnj he' hu ha hk
      have hfound : activesendersFindEntry sender u.activeSenders = some a := by
        rw [← hk]
        exact lookup_of_mem (uniqueKeys_run hu) ha
      have hsame : lastPacketTime t.order sender (es.take m) =
          lastPacketTime t.order sender (es.take n) := by
        refine Run.lastTime_take_eq (by omega) ?_
        intro n' e'' hnn' hn'm
        exact hquiet n' e'' (by omega) hn'm
      have hremembered := follows_run ht hu sender
      rw [hfound] at hremembered
      rw [hlast, hremembered.1] at hsame
      have hnew : e.currTime - 3 ≤ e'.currTime := hrecent n e' (le_of_lt hin) hnj he'
      have hold : 120 < e'.currTime - entry.lastSeen := by omega
      rw [aged, ← Option.some.inj hsame]
      exact decide_eq_true hold
  obtain ⟨u, hu, hnone⟩ := hremoved
  have hgone := find_none_stays hjm hu hnone (fun n e' hjn hnm => hquiet n e'
    (lt_of_lt_of_le (lt_trans hpi hpass.lt) hjn) hnm) hs
  rw [hentry] at hgone
  cases hgone

theorem endsAt_take {m n : ℕ} (hmn : m < n) :
    EndsAt t (es.take n) m sender ↔ EndsAt t es m sender := by
  unfold EndsAt
  rw [List.take_take, List.take_take, Nat.min_eq_left (Nat.le_of_lt hmn), Nat.min_eq_left hmn]

theorem find_of_iprpSince (ht : t.build = .multicast) {s : State} (hs : run t es = some s)
    (hsince : IprpSince t es sender) :
    ∃ entry, activesendersFindEntry sender s.activeSenders = some entry := by
  have hremembered := follows_run ht hs sender
  cases hfound : activesendersFindEntry sender s.activeSenders with
  | some entry => exact ⟨entry, rfl⟩
  | none =>
      rw [hfound] at hremembered
      exact absurd hsince hremembered

end

/-- With a cleanup pass at least every `imdTAsCache` seconds, a plain packet is only dropped after
an iPRP packet of the same flow from which on the packets of the flow, of either kind, followed
each other within `imdAsTexp + imdTAsCache` seconds. -/
theorem dropped_chain {o : ByteOrder} {es : List Event}
    (hclock : es.Pairwise fun e e' => e.currTime ≤ e'.currTime)
    (hcleaned : CleanedEvery ⟨.multicast, o⟩ imdTAsCache es) {k : ℕ} {sender : Icd.ActiveSender}
    (hdropped : DroppedAt ⟨.multicast, o⟩ es k sender) :
    ∃ j e, j < k ∧ es[j]? = some e ∧ e.IprpOf o sender ∧
      Chain o es sender (imdAsTexp + imdTAsCache) j k := by
  obtain ⟨e, packet, s, he, haction, hsender, hs, hdrop⟩ := hdropped
  obtain ⟨entry, hentry, henabled⟩ := (verdict_plain_iff rfl hsender e.currTime s).1 hdrop
  have hsince : IprpSince ⟨.multicast, o⟩ (es.take k) sender := by
    have hremembered := follows_run rfl hs sender
    rw [hentry] at hremembered
    exact hremembered.2.1 henabled
  obtain ⟨j, e', hj, hiprp, hlive⟩ := hsince
  rw [List.getElem?_take] at hj
  split at hj
  · next hjk =>
      refine ⟨j, e', hjk, hj, hiprp, ?_⟩
      intro m e'' hjm hmk hm hflow
      obtain ⟨u, hu⟩ : ∃ u, run ⟨.multicast, o⟩ (es.take m) = some u :=
        Run.runFrom_total (fun _ => True) (fun s e _ => step_defined _ s e)
          (fun _ _ => trivial) _
      -- the entry that `j` has left is still there
      have hsince : IprpSince ⟨.multicast, o⟩ (es.take m) sender := by
        refine ⟨j, e', by rw [List.getElem?_take, if_pos hjm, hj], hiprp, ?_⟩
        intro n hjn hnm
        have hnm' : n < m := lt_of_lt_of_le hnm (List.length_take_le m es)
        have hnk : n < (es.take k).length := by
          rw [List.length_take] at hnm ⊢
          omega
        rw [endsAt_take hnm', ← endsAt_take (lt_of_lt_of_le hnm' hmk)]
        exact hlive n hjn hnk
      obtain ⟨entry', hentry'⟩ := find_of_iprpSince rfl hu hsince
      have hremembered := follows_run rfl hu sender
      rw [hentry'] at hremembered
      refine ⟨entry'.lastSeen, hremembered.1, ?_⟩
      exact lastSeen_le rfl hclock hcleaned hm hu hentry'
  · cases hj

/-! ## Plain packets only -/

theorem blank_headers : 28 ≤ (List.replicate 28 (0 : UInt8)).length :=
  Nat.le_of_eq List.length_replicate.symm

def blankPacket : QueuedPacket := ⟨List.replicate 28 0, blank_headers⟩

/-- A pass and a plain packet. -/
def plainRound (n : ℕ) : List Event :=
  [⟨3 * n, .start⟩, ⟨3 * n, .iteration⟩, ⟨3 * n, .packet false blankPacket⟩]

/-- An iPRP packet, and then plain packets of the same flow, with a pass before each. -/
def plainRounds : ℕ → List Event
  | 0 => [⟨0, .packet true blankPacket⟩]
  | n + 1 => plainRounds n ++ plainRound n

theorem length_plainRounds (n : ℕ) : (plainRounds n).length = 3 * n + 1 := by
  induction n with
  | zero => rfl
  | succ n ih =>
      rw [plainRounds, List.length_append, ih]
      rfl

theorem plainRounds_times (n : ℕ) : ∀ e ∈ plainRounds n, e.currTime ≤ 3 * n := by
  induction n with
  | zero => simp [plainRounds]
  | succ n ih =>
      intro e he
      rcases List.mem_append.1 he with hold | hnew
      · have hle := ih e hold
        push_cast
        omega
      · simp only [plainRound, List.mem_cons, List.not_mem_nil, or_false] at hnew
        rcases hnew with rfl | rfl | rfl <;> simp

theorem plainRounds_clock (n : ℕ) :
    (plainRounds n).Pairwise fun e e' => e.currTime ≤ e'.currTime := by
  induction n with
  | zero => exact List.pairwise_singleton _ _
  | succ n ih =>
      refine List.pairwise_append.2 ⟨ih, by simp [plainRound], ?_⟩
      intro e he e' he'
      simp only [plainRound, List.mem_cons, List.not_mem_nil, or_false] at he'
      rcases he' with rfl | rfl | rfl
      all_goals exact plainRounds_times n e he

theorem plainRounds_iprp (n : ℕ) :
    ∀ e ∈ plainRounds n, e.iprpMessage = true → e.currTime = 0 := by
  induction n with
  | zero => simp [plainRounds]
  | succ n ih =>
      intro e he hiprp
      rcases List.mem_append.1 he with hold | hnew
      · exact ih e hold hiprp
      · simp only [plainRound, List.mem_cons, List.not_mem_nil, or_false] at hnew
        rcases hnew with rfl | rfl | rfl
        all_goals cases hiprp

/-- The state of one enabled entry. -/
def oneEntry (sender : Icd.ActiveSender) (lastSeen : ℤ) (asIterator : Option ℕ) : State :=
  ⟨[⟨sender, lastSeen, true⟩], asIterator⟩

theorem step_iteration_oneEntry (t : Target) (sender : Icd.ActiveSender) {currTime lastSeen : ℤ}
    (hseen : currTime - lastSeen ≤ 120) :
    step t (oneEntry sender lastSeen (some 0)) ⟨currTime, .iteration⟩ =
      some (oneEntry sender lastSeen none) := by
  have hfresh : aged currTime ⟨sender, lastSeen, true⟩ = false :=
    decide_eq_false (not_lt_of_ge hseen)
  simp [step, cleanupIteration, oneEntry, sweepStep, hfresh, node]

theorem step_plain_oneEntry {o : ByteOrder} {sender : Icd.ActiveSender}
    (hsender : linkInformation o blankPacket.buf = some sender) (currTime lastSeen : ℤ) :
    step ⟨.multicast, o⟩ (oneEntry sender lastSeen none) ⟨currTime, .packet false blankPacket⟩ =
      some (oneEntry sender currTime none) := by
  rw [step_packet hsender]
  simp [oneEntry, recordSender, activesendersFindEntry, lookup, update, Entry.key, updateEntry]

theorem run_plainRounds {o : ByteOrder} {sender : Icd.ActiveSender}
    (hsender : linkInformation o blankPacket.buf = some sender) (n : ℕ) :
    ∃ lastSeen : ℤ, run ⟨.multicast, o⟩ (plainRounds n) = some (oneEntry sender lastSeen none) ∧
      3 * n - lastSeen ≤ 120 := by
  induction n with
  | zero =>
      refine ⟨0, ?_, by decide⟩
      rw [run, plainRounds, Run.runFrom_singleton, step_packet hsender]
      rfl
  | succ n ih =>
      obtain ⟨lastSeen, hrun, hseen⟩ := ih
      refine ⟨3 * n, ?_, by push_cast; omega⟩
      rw [run] at hrun
      rw [run, plainRounds, Run.runFrom_append, hrun, Option.bind_some, plainRound,
        Run.runFrom_cons]
      change (Run.runFrom _ (oneEntry sender lastSeen (some 0)) _) = _
      rw [Run.runFrom_cons, step_iteration_oneEntry _ _ hseen, Option.bind_some,
        Run.runFrom_singleton, step_plain_oneEntry hsender]

theorem run_plainRounds_take {o : ByteOrder} {sender : Icd.ActiveSender}
    (hsender : linkInformation o blankPacket.buf = some sender) (n : ℕ) :
    ∃ lastSeen : ℤ,
      run ⟨.multicast, o⟩ ((plainRounds (n + 1)).take (3 * n + 1)) =
        some (oneEntry sender lastSeen none) ∧
      run ⟨.multicast, o⟩ ((plainRounds (n + 1)).take (3 * n + 2)) =
        some (oneEntry sender lastSeen (some 0)) ∧
      run ⟨.multicast, o⟩ ((plainRounds (n + 1)).take (3 * n + 3)) =
        some (oneEntry sender lastSeen none) := by
  obtain ⟨lastSeen, hrun, hseen⟩ := run_plainRounds hsender n
  have htake : ∀ i, (plainRounds (n + 1)).take (3 * n + 1 + i) =
      plainRounds n ++ (plainRound n).take i := by
    intro i
    rw [plainRounds, ← length_plainRounds n, List.take_length_add_append]
  refine ⟨lastSeen, ?_, ?_, ?_⟩
  · rw [htake 0, List.take_zero, List.append_nil]
    exact hrun
  · rw [htake 1, run, Run.runFrom_append]
    rw [run] at hrun
    rw [hrun]
    rfl
  · rw [htake 2, run, Run.runFrom_append]
    rw [run] at hrun
    rw [hrun, Option.bind_some]
    change Run.runFrom _ (oneEntry sender lastSeen none) [_, _] = _
    rw [Run.runFrom_cons]
    change (Run.runFrom _ (oneEntry sender lastSeen (some 0)) _) = _
    rw [Run.runFrom_singleton, step_iteration_oneEntry _ _ hseen]

theorem plainRounds_getElem? (n i : ℕ) (hi : i < 3) :
    (plainRounds (n + 1))[3 * n + 1 + i]? = (plainRound n)[i]? := by
  rw [plainRounds, List.getElem?_append_right (by rw [length_plainRounds]; omega),
    length_plainRounds, Nat.add_sub_cancel_left]

theorem plainRounds_pass (o : ByteOrder) (n : ℕ) :
    CleanupPass ⟨.multicast, o⟩ (plainRounds (n + 1)) (3 * n + 1) (3 * n + 3) := by
  obtain ⟨sender, hsender⟩ := blankPacket.linkInformation_defined o
  obtain ⟨lastSeen, hstart, hmoving, hdone⟩ := run_plainRounds_take hsender n
  refine ⟨by omega, by rw [length_plainRounds]; omega, ?_, ?_, ?_, _, hdone, rfl⟩
  · exact ⟨_, plainRounds_getElem? n 0 (by omega), rfl⟩
  · intro s hs
    obtain rfl := Option.some.inj (hstart.symm.trans hs)
    rfl
  · intro m s hlt hlt' hs
    obtain rfl : m = 3 * n + 2 := by omega
    obtain rfl := Option.some.inj (hmoving.symm.trans hs)
    exact Option.some_ne_none 0

theorem plainRounds_head (n : ℕ) :
    (plainRounds n)[0]? = some ⟨0, .packet true blankPacket⟩ := by
  induction n with
  | zero => rfl
  | succ n ih =>
      rw [plainRounds, List.getElem?_append_left (by rw [length_plainRounds]; omega)]
      exact ih

theorem plainRounds_cleaned (o : ByteOrder) (n : ℕ) :
    CleanedEvery ⟨.multicast, o⟩ imdTAsCache (plainRounds n) := by
  induction n with
  | zero =>
      intro k e e₀ he he₀ hlate
      have hlate' : 3 < e.currTime - e₀.currTime := hlate
      obtain rfl := Option.some.inj ((plainRounds_head 0).symm.trans he₀)
      have hle := plainRounds_times 0 e (List.mem_of_getElem? he)
      dsimp only at hlate'
      omega
  | succ n ih =>
      intro k e e₀ he he₀ hlate
      have hlate' : 3 < e.currTime - e₀.currTime := hlate
      obtain rfl := Option.some.inj ((plainRounds_head (n + 1)).symm.trans he₀)
      rcases Nat.lt_or_ge k (plainRounds n).length with hk | hk
      · -- an earlier round
        have hget : (plainRounds n)[k]? = some e := by
          rwa [plainRounds, List.getElem?_append_left hk] at he
        obtain ⟨i, j, hpass, hjk, hrecent⟩ := ih k e _ hget (plainRounds_head n) hlate
        refine ⟨i, j, hpass.append (plainRound n), hjk, ?_⟩
        intro m e' him hmj he'
        refine hrecent m e' him hmj ?_
        rwa [plainRounds, List.getElem?_append_left (by omega)] at he'
      · -- the last round, which the pass of the round before precedes
        have htime : e.currTime ≤ 3 * n := by
          rw [plainRounds, List.getElem?_append_right hk] at he
          have hmem := List.mem_of_getElem? he
          simp only [plainRound, List.mem_cons, List.not_mem_nil, or_false] at hmem
          rcases hmem with rfl | rfl | rfl
          all_goals exact le_refl _
        cases n with
        | zero =>
            dsimp only at hlate'
            omega
        | succ n =>
            refine ⟨3 * n + 1, 3 * n + 3, (plainRounds_pass o n).append (plainRound (n + 1)),
              ?_, ?_⟩
            · rw [length_plainRounds] at hk
              omega
            · intro m e' him hmj he'
              have hfirst : (plainRounds (n + 1 + 1))[3 * n + 1]? = some ⟨3 * n, .start⟩ := by
                rw [plainRounds, List.getElem?_append_left (by rw [length_plainRounds]; omega)]
                exact plainRounds_getElem? n 0 (by omega)
              have hle := time_le_of_pairwise (plainRounds_clock (n + 1 + 1)) him hfirst he'
              have hgoal : e.currTime - 3 ≤ e'.currTime := by
                push_cast at htime
                dsimp only at hle
                omega
              exact hgoal

theorem plainRounds_dropped {o : ByteOrder} {sender : Icd.ActiveSender}
    (hsender : linkInformation o blankPacket.buf = some sender) (n : ℕ) :
    DroppedAt ⟨.multicast, o⟩ (plainRounds (n + 1)) (3 * n + 3) sender := by
  obtain ⟨lastSeen, -, -, hdone⟩ := run_plainRounds_take hsender n
  refine ⟨_, blankPacket, _, plainRounds_getElem? n 2 (by omega), rfl, hsender, hdone, ?_⟩
  rw [verdict_plain_iff rfl hsender]
  exact ⟨⟨sender, lastSeen, true⟩, by simp [oneEntry, activesendersFindEntry, lookup, Entry.key],
    rfl⟩

/-- After forty-two rounds the last plain packet is dropped 126 seconds after the only iPRP
packet. -/
theorem plain_packets_keep_session :
    ¬ ∀ (o : ByteOrder) (es : List Event), es.Pairwise (fun e e' => e.currTime ≤ e'.currTime) →
      CleanedEvery ⟨.multicast, o⟩ imdTAsCache es →
      ∀ k sender, DroppedAt ⟨.multicast, o⟩ es k sender → ∀ e, es[k]? = some e →
        ∃ j e', j < k ∧ es[j]? = some e' ∧ e'.IprpOf o sender ∧
          e.currTime - e'.currTime ≤ imdAsTexp + imdTAsCache := by
  intro h
  obtain ⟨sender, hsender⟩ := blankPacket.linkInformation_defined .little
  obtain ⟨j, e, -, he, ⟨-, hiprp⟩, hrecent⟩ := h .little (plainRounds 43) (plainRounds_clock 43)
    (plainRounds_cleaned .little 43) 129 sender (plainRounds_dropped hsender 42) _
    (plainRounds_getElem? 42 2 (by omega))
  rw [plainRounds_iprp 43 e (List.mem_of_getElem? he) hiprp] at hrecent
  exact absurd hrecent (by decide)

theorem dropped_chain_plainRounds :
    ∃ sender j e, j < 129 ∧ (plainRounds 43)[j]? = some e ∧ e.IprpOf .little sender ∧
      Chain .little (plainRounds 43) sender (imdAsTexp + imdTAsCache) j 129 := by
  obtain ⟨sender, hsender⟩ := blankPacket.linkInformation_defined .little
  exact ⟨sender, dropped_chain (plainRounds_clock 43) (plainRounds_cleaned .little 43)
    (plainRounds_dropped hsender 42)⟩

end Iprp.Imd
