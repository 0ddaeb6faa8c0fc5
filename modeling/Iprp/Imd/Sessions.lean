import Iprp.Imd.Handle
import Iprp.Library.Sweep

/-!
# The IMD's sessions

The handlers of both queues and `count_and_cleanup` of `src/imd/activesenders.c` as steps of one
machine: the handlers hold the lock of `active_senders` while they record a packet, the loop of
the cleanup takes it for one entry at a time. In the multicast build the entry of a flow says
whether an iPRP packet was handled since it was created, and with that the plain packets of the
flow are dropped. So the filter follows the history of each flow on its own (`session_filter`).
-/

namespace Iprp.Imd

open Bytes KeyedList

def imdAsTexp : ℤ := 120

/-- A packet that a rule has put into a queue: it has an IP and a UDP header. -/
structure QueuedPacket where
  buf : List UInt8
  headers : 28 ≤ buf.length

/-- The cache with the cursor of `count_and_cleanup`. -/
structure State where
  activeSenders : List Entry
  asIterator : Option ℕ

def State.init : State := ⟨[], none⟩

/-- The packets of the IRD-IMD queue are iPRP messages, those of the IMD queue are not. -/
inductive Action where
  | packet (iprpMessage : Bool) (packet : QueuedPacket)
  | start
  | iteration

structure Event where
  currTime : ℤ
  action : Action

/-- The flow of the packet that an event handles. -/
def Event.flow? (o : ByteOrder) (e : Event) : Option Icd.ActiveSender :=
  match e.action with
  | .packet _ packet => linkInformation o packet.buf
  | _ => none

def Event.iprpMessage (e : Event) : Bool :=
  match e.action with
  | .packet iprpMessage _ => iprpMessage
  | _ => false

/-- Whether an entry is too old for the cache. -/
def aged (currTime : ℤ) (entry : Entry) : Bool := imdAsTexp < currTime - entry.lastSeen

/-- The start of `count_and_cleanup`. -/
def cleanupStart (s : State) : State :=
  match s.asIterator with
  | some _ => s
  | none => { s with asIterator := node s.activeSenders 0 }

/-- One iteration of the loop of `count_and_cleanup`. -/
def cleanupIteration (currTime : ℤ) (s : State) : State :=
  match s.asIterator with
  | none => s
  | some i =>
      let (activeSenders, asIterator) := sweepStep (aged currTime) s.activeSenders i
      ⟨activeSenders, asIterator⟩

def step (t : Target) (s : State) (e : Event) : Option State :=
  match e.action with
  | .packet iprpMessage packet =>
      (globalHandle t e.currTime iprpMessage packet.buf s.activeSenders).map fun out =>
        { s with activeSenders := out.activeSenders }
  | .start => some (cleanupStart s)
  | .iteration => some (cleanupIteration e.currTime s)

def run (t : Target) (es : List Event) : Option State :=
  Run.runFrom (step t) State.init es

/-- The verdict that a packet is given. -/
def verdict (t : Target) (currTime : ℤ) (iprpMessage : Bool) (packet : QueuedPacket)
    (s : State) : Option NfVerdict :=
  (globalHandle t currTime iprpMessage packet.buf s.activeSenders).map Handled.verdict

/-! ## The history of a flow -/

/-- When the last packet of a flow was handled, on either queue. -/
def lastPacketTime (o : ByteOrder) (sender : Icd.ActiveSender) (es : List Event) : Option ℤ :=
  Run.lastTime Event.currTime (fun e => e.flow? o = some sender) es

/-- The event is an iPRP packet of the flow. -/
def Event.IprpOf (o : ByteOrder) (sender : Icd.ActiveSender) (e : Event) : Prop :=
  e.flow? o = some sender ∧ e.iprpMessage = true

/-- The entry of the flow ends with the input `m`. -/
def EndsAt (t : Target) (es : List Event) (m : ℕ) (sender : Icd.ActiveSender) : Prop :=
  ∃ s s', run t (es.take m) = some s ∧ run t (es.take (m + 1)) = some s' ∧
    (activesendersFindEntry sender s.activeSenders).isSome ∧
    activesendersFindEntry sender s'.activeSenders = none

/-- An iPRP packet of the flow was handled, and no entry of the flow has ended since. -/
def IprpSince (t : Target) (es : List Event) (sender : Icd.ActiveSender) : Prop :=
  ∃ j e, es[j]? = some e ∧ e.IprpOf t.order sender ∧
    ∀ m, j < m → m < es.length → ¬ EndsAt t es m sender

/-- What the cache does in a state with a given past. -/
structure SessionFilter (t : Target) (es : List Event) (s : State) : Prop where
  unique : UniqueKeys Entry.key s.activeSenders
  accepts : ∀ currTime packet, verdict t currTime true packet s = some .accept
  drops_iff : ∀ currTime packet sender, linkInformation t.order packet.buf = some sender →
    (verdict t currTime false packet s = some .drop ↔ IprpSince t es sender)
  ends : ∀ e s' sender, step t s e = some s' →
    (activesendersFindEntry sender s.activeSenders).isSome →
    activesendersFindEntry sender s'.activeSenders = none →
    e.action = .iteration ∧ ∃ time, lastPacketTime t.order sender es = some time ∧
      imdAsTexp < e.currTime - time

theorem lastPacketTime_concat (o : ByteOrder) (sender : Icd.ActiveSender) (es : List Event)
    (e : Event) :
    lastPacketTime o sender (es ++ [e]) =
      if e.flow? o = some sender then some e.currTime else lastPacketTime o sender es :=
  Run.lastTime_concat Event.currTime (fun e => e.flow? o = some sender) es e

theorem endsAt_concat_of_lt {t : Target} {es : List Event} {e : Event} {m : ℕ}
    {sender : Icd.ActiveSender} (hm : m < es.length) :
    EndsAt t (es ++ [e]) m sender ↔ EndsAt t es m sender := by
  unfold EndsAt
  rw [List.take_append_of_le_length (Nat.le_of_lt hm), List.take_append_of_le_length hm]

theorem endsAt_concat_length {t : Target} {es : List Event} {e : Event}
    {sender : Icd.ActiveSender} {s s' : State} (hs : run t es = some s)
    (hstep : step t s e = some s') :
    EndsAt t (es ++ [e]) es.length sender ↔
      (activesendersFindEntry sender s.activeSenders).isSome ∧
        activesendersFindEntry sender s'.activeSenders = none := by
  have hs' : run t (es ++ [e]) = some s' := Run.runFrom_append_singleton_eq_some.2 ⟨s, hs, hstep⟩
  have htake : (es ++ [e]).take (es.length + 1) = es ++ [e] := List.take_of_length_le (by simp)
  unfold EndsAt
  rw [List.take_left, htake, hs, hs']
  constructor
  · rintro ⟨s₁, s₂, hs₁, hs₂, hends⟩
    obtain rfl := Option.some.inj hs₁
    obtain rfl := Option.some.inj hs₂
    exact hends
  · intro hends
    exact ⟨s, s', rfl, rfl, hends⟩

theorem iprpSince_concat (t : Target) (es : List Event) (e : Event)
    (sender : Icd.ActiveSender) :
    IprpSince t (es ++ [e]) sender ↔ e.IprpOf t.order sender ∨
      (IprpSince t es sender ∧ ¬ EndsAt t (es ++ [e]) es.length sender) := by
  constructor
  · rintro ⟨j, e', hget, hiprp, hlive⟩
    rcases Run.getElem?_concat_cases hget with hold | ⟨-, rfl⟩
    · have hj : j < es.length := (List.getElem?_eq_some_iff.1 hold).1
      refine Or.inr ⟨⟨j, e', hold, hiprp, ?_⟩, hlive _ hj (by simp)⟩
      intro m hjm hm
      rw [← endsAt_concat_of_lt hm]
      exact hlive m hjm (by simp; omega)
    · exact Or.inl hiprp
  · rintro (hiprp | ⟨⟨j, e', hget, hiprp, hlive⟩, hend⟩)
    · refine ⟨es.length, e, List.getElem?_concat_length, hiprp, ?_⟩
      intro m hm hm'
      rw [List.length_append, List.length_singleton] at hm'
      omega
    · have hj : j < es.length := (List.getElem?_eq_some_iff.1 hget).1
      refine ⟨j, e', by rw [List.getElem?_append_left hj, hget], hiprp, ?_⟩
      intro m hjm hm
      rw [List.length_append, List.length_singleton] at hm
      rcases Nat.lt_succ_iff_lt_or_eq.1 hm with hm | rfl
      · rw [endsAt_concat_of_lt hm]
        exact hlive m hjm hm
      · exact hend

/-! ## Packets -/

theorem QueuedPacket.linkInformation_defined (packet : QueuedPacket) (o : ByteOrder) :
    ∃ sender, linkInformation o packet.buf = some sender := by
  have h := packet.headers
  obtain ⟨srcAddr, hsrc⟩ := loadVector_defined packet.buf 12 4 (by omega)
  obtain ⟨destAddr, hdest⟩ := loadVector_defined packet.buf 16 4 (by omega)
  obtain ⟨source, hsource⟩ := loadWord16_defined o packet.buf 20 (by omega)
  obtain ⟨dest, hport⟩ := loadWord16_defined o packet.buf 22 (by omega)
  rw [linkInformation, hsrc, hdest, hsource, hport]
  exact ⟨_, rfl⟩

/-- The entry that a packet is recorded in: that of its flow, or a new one. -/
def entryFor (iprpMessage : Bool) (sender : Icd.ActiveSender) (activeSenders : List Entry) :
    Entry :=
  (activesendersFindEntry sender activeSenders).getD (activesendersCreateEntry sender iprpMessage)

theorem recordSender_fst (build : Build) (currTime : ℤ) (iprpMessage : Bool)
    (sender : Icd.ActiveSender) (activeSenders : List Entry) :
    (recordSender build currTime iprpMessage sender activeSenders).1 =
      updateEntry build currTime iprpMessage (entryFor iprpMessage sender activeSenders) := by
  unfold recordSender entryFor
  cases activesendersFindEntry sender activeSenders with
  | some entry => rfl
  | none => rfl

/-- Recording a packet changes the entry of its flow and no other. -/
theorem find_recordSender (build : Build) (currTime : ℤ) (iprpMessage : Bool)
    (sender sender' : Icd.ActiveSender) (activeSenders : List Entry) :
    activesendersFindEntry sender'
        (recordSender build currTime iprpMessage sender activeSenders).2 =
      if sender' = sender then
        some (updateEntry build currTime iprpMessage (entryFor iprpMessage sender activeSenders))
      else activesendersFindEntry sender' activeSenders := by
  unfold recordSender entryFor
  cases hfound : activesendersFindEntry sender activeSenders with
  | some entry =>
      have hkey : ∀ entry', lookup Entry.key sender activeSenders = some entry' →
          (updateEntry build currTime iprpMessage entry).key = entry'.key := by
        intro entry' hentry'
        obtain rfl := Option.some.inj (hfound.symm.trans hentry')
        rfl
      dsimp only
      by_cases hsame : sender' = sender
      · rw [activesendersFindEntry] at hfound
        rw [hsame, activesendersFindEntry, lookup_update_same hkey, hfound, if_pos rfl]
        rfl
      · rw [if_neg hsame]
        exact lookup_update_of_ne hkey hsame
  | none =>
      have hkey : (updateEntry build currTime iprpMessage
          (activesendersCreateEntry sender iprpMessage)).key = sender := rfl
      dsimp only
      rw [activesendersFindEntry, lookup_append_singleton, hkey]
      by_cases hsame : sender' = sender
      · rw [activesendersFindEntry] at hfound
        rw [hsame, hfound, Option.none_or, if_pos rfl, if_pos rfl]
        rfl
      · rw [if_neg hsame, if_neg (Ne.symm hsame), Option.or_none]
        rfl

theorem uniqueKeys_recordSender {activeSenders : List Entry}
    (h : UniqueKeys Entry.key activeSenders) (build : Build) (currTime : ℤ) (iprpMessage : Bool)
    (sender : Icd.ActiveSender) :
    UniqueKeys Entry.key (recordSender build currTime iprpMessage sender activeSenders).2 := by
  unfold recordSender
  cases hfound : activesendersFindEntry sender activeSenders with
  | some entry =>
      refine uniqueKeys_update ?_ h
      intro entry' hentry'
      obtain rfl := Option.some.inj (hfound.symm.trans hentry')
      rfl
  | none => exact uniqueKeys_append_singleton h hfound

theorem globalHandle_eq {t : Target} {buf : List UInt8} {sender : Icd.ActiveSender}
    (hsender : linkInformation t.order buf = some sender) (currTime : ℤ) (iprpMessage : Bool)
    (activeSenders : List Entry) :
    globalHandle t currTime iprpMessage buf activeSenders =
      some ⟨updateEntry t.build currTime iprpMessage (entryFor iprpMessage sender activeSenders),
        verdictFor t.build iprpMessage (updateEntry t.build currTime iprpMessage
          (entryFor iprpMessage sender activeSenders)),
        (recordSender t.build currTime iprpMessage sender activeSenders).2⟩ := by
  rw [globalHandle, hsender, ← recordSender_fst]
  rfl

theorem step_packet {t : Target} {packet : QueuedPacket} {sender : Icd.ActiveSender}
    (hsender : linkInformation t.order packet.buf = some sender) (currTime : ℤ)
    (iprpMessage : Bool) (s : State) :
    step t s ⟨currTime, .packet iprpMessage packet⟩ =
      some { s with activeSenders :=
        (recordSender t.build currTime iprpMessage sender s.activeSenders).2 } := by
  rw [step]
  dsimp only
  rw [globalHandle_eq hsender, Option.map_some]

/-! ## Steps -/

/-- What a step does to the entry that is found for a flow. -/
inductive EntryStep (t : Target) (s : State) (e : Event) (sender : Icd.ActiveSender)
    (entry' : Option Entry) : Prop
  /-- A packet of the flow is handled. -/
  | packet (he : e.flow? t.order = some sender)
      (hentry : entry' = some (updateEntry t.build e.currTime e.iprpMessage
        (entryFor e.iprpMessage sender s.activeSenders)))
  /-- The entry is removed by the cleanup. -/
  | removed (entry : Entry) (he : e.action = .iteration)
      (hentry : activesendersFindEntry sender s.activeSenders = some entry)
      (haged : aged e.currTime entry = true) (hnone : entry' = none)
  | kept (he : e.flow? t.order ≠ some sender)
      (hsame : entry' = activesendersFindEntry sender s.activeSenders)

theorem cleanupIteration_some {currTime : ℤ} {s : State} {i : ℕ} (hit : s.asIterator = some i) :
    cleanupIteration currTime s =
      ⟨(sweepStep (aged currTime) s.activeSenders i).1,
        (sweepStep (aged currTime) s.activeSenders i).2⟩ := by
  rw [cleanupIteration, hit]

theorem cleanupStart_activeSenders (s : State) :
    (cleanupStart s).activeSenders = s.activeSenders := by
  unfold cleanupStart
  cases s.asIterator with
  | none => rfl
  | some i => rfl

theorem entryStep {t : Target} {s s' : State} {e : Event}
    (hs : UniqueKeys Entry.key s.activeSenders) (h : step t s e = some s')
    (sender : Icd.ActiveSender) :
    EntryStep t s e sender (activesendersFindEntry sender s'.activeSenders) := by
  obtain ⟨currTime, action⟩ := e
  cases action with
  | packet iprpMessage packet =>
      obtain ⟨flow, hflow⟩ := packet.linkInformation_defined t.order
      rw [step_packet hflow] at h
      obtain rfl := Option.some.inj h
      have hfind := find_recordSender t.build currTime iprpMessage flow sender s.activeSenders
      by_cases hsame : sender = flow
      · subst hsame
        rw [if_pos rfl] at hfind
        exact .packet hflow hfind
      · rw [if_neg hsame] at hfind
        refine .kept ?_ hfind
        intro heq
        exact hsame (Option.some.inj (heq.symm.trans hflow))
  | start =>
      obtain rfl := Option.some.inj h
      exact .kept (by simp [Event.flow?]) (by rw [cleanupStart_activeSenders])
  | iteration =>
      obtain rfl := Option.some.inj h
      have hne : Event.flow? t.order ⟨currTime, .iteration⟩ ≠ some sender := by simp [Event.flow?]
      cases hit : s.asIterator with
      | none => exact .kept hne (by rw [cleanupIteration, hit])
      | some i =>
          rw [cleanupIteration_some hit]
          rcases lookup_sweepStep_cases hs (aged currTime) i sender with
            ⟨entry, hentry, haged, hnone⟩ | hsame
          · exact .removed entry rfl hentry haged hnone
          · exact .kept hne hsame

theorem uniqueKeys_step {t : Target} {s s' : State} {e : Event}
    (hs : UniqueKeys Entry.key s.activeSenders) (h : step t s e = some s') :
    UniqueKeys Entry.key s'.activeSenders := by
  obtain ⟨currTime, action⟩ := e
  cases action with
  | packet iprpMessage packet =>
      obtain ⟨flow, hflow⟩ := packet.linkInformation_defined t.order
      rw [step_packet hflow] at h
      obtain rfl := Option.some.inj h
      exact uniqueKeys_recordSender hs t.build currTime iprpMessage flow
  | start =>
      obtain rfl := Option.some.inj h
      rw [cleanupStart_activeSenders]
      exact hs
  | iteration =>
      obtain rfl := Option.some.inj h
      cases hit : s.asIterator with
      | none =>
          rw [cleanupIteration, hit]
          exact hs
      | some i =>
          rw [cleanupIteration_some hit]
          exact uniqueKeys_sweepStep hs (aged currTime) i

theorem uniqueKeys_run {t : Target} {es : List Event} {s : State} (h : run t es = some s) :
    UniqueKeys Entry.key s.activeSenders :=
  Run.runFrom_preserved (fun s => UniqueKeys Entry.key s.activeSenders)
    (fun _ _ _ hs hstep => uniqueKeys_step hs hstep) (uniqueKeys_nil _) h

theorem step_defined (t : Target) (s : State) (e : Event) : ∃ s', step t s e = some s' := by
  obtain ⟨currTime, action⟩ := e
  cases action with
  | packet iprpMessage packet =>
      obtain ⟨flow, hflow⟩ := packet.linkInformation_defined t.order
      exact ⟨_, step_packet hflow currTime iprpMessage s⟩
  | start => exact ⟨_, rfl⟩
  | iteration => exact ⟨_, rfl⟩

/-! ## Runs -/

/-- The entry of a flow is as old as the last packet of the flow, and says whether one that it
has seen was an iPRP packet. -/
def Remembered (o : ByteOrder) (es : List Event) (sender : Icd.ActiveSender) (iprpSince : Prop) :
    Option Entry → Prop
  | some entry => lastPacketTime o sender es = some entry.lastSeen ∧
      (entry.iprpEnabled = true ↔ iprpSince)
  | none => ¬ iprpSince

/-- The cache in a state with a given past. -/
def Follows (t : Target) (es : List Event) (s : State) : Prop :=
  ∀ sender, Remembered t.order es sender (IprpSince t es sender)
    (activesendersFindEntry sender s.activeSenders)

theorem follows_step {t : Target} (ht : t.build = .multicast) {es : List Event} {s s' : State}
    {e : Event} (hs : run t es = some s) (h : Follows t es s) (hstep : step t s e = some s') :
    Follows t (es ++ [e]) s' := by
  intro sender
  have hold := h sender
  rw [iprpSince_concat, endsAt_concat_length hs hstep]
  cases entryStep (uniqueKeys_run hs) hstep sender with
  | packet he hentry =>
      rw [hentry]
      refine ⟨by rw [lastPacketTime_concat, if_pos he]; rfl, ?_⟩
      have hiprp : e.IprpOf t.order sender ↔ e.iprpMessage = true := and_iff_right he
      have hlive : ¬ ((activesendersFindEntry sender s.activeSenders).isSome ∧
          some (updateEntry t.build e.currTime e.iprpMessage
            (entryFor e.iprpMessage sender s.activeSenders)) = none) := by simp
      rw [hiprp, and_iff_left hlive, ht]
      change (e.iprpMessage || (entryFor e.iprpMessage sender s.activeSenders).iprpEnabled) =
        true ↔ _
      rw [Bool.or_eq_true, entryFor]
      cases hfound : activesendersFindEntry sender s.activeSenders with
      | some entry =>
          rw [hfound] at hold
          rw [Option.getD_some, hold.2]
      | none =>
          rw [hfound] at hold
          rw [Option.getD_none, or_iff_left hold]
          exact or_self_iff
  | removed entry he hentry haged hnone =>
      rw [hnone, hentry]
      have hiprp : ¬ e.IprpOf t.order sender := by
        rintro ⟨hflow, -⟩
        rw [Event.flow?, he] at hflow
        cases hflow
      change ¬ _
      simp [hiprp]
  | kept he hsame =>
      have hiprp : ¬ e.IprpOf t.order sender := fun hiprp => he hiprp.1
      have hlive : ¬ ((activesendersFindEntry sender s.activeSenders).isSome ∧
          activesendersFindEntry sender s'.activeSenders = none) := by
        rw [hsame]
        rintro ⟨hsome, hnone⟩
        rw [hnone] at hsome
        cases hsome
      rw [or_iff_right hiprp, and_iff_left hlive, hsame]
      cases hfound : activesendersFindEntry sender s.activeSenders with
      | some entry =>
          rw [hfound] at hold
          refine ⟨?_, hold.2⟩
          rw [lastPacketTime_concat, if_neg he]
          exact hold.1
      | none =>
          rw [hfound] at hold
          exact hold

theorem follows_run {t : Target} (ht : t.build = .multicast) {es : List Event} {s : State}
    (h : run t es = some s) : Follows t es s := by
  refine Run.runFrom_history (Follows t) ?_ ?_ h
  · rintro sender ⟨j, e, hget, -⟩
    cases hget
  · intro es e s s' hs hfollows hstep
    exact follows_step ht hs hfollows hstep

theorem verdict_eq {t : Target} {packet : QueuedPacket} {sender : Icd.ActiveSender}
    (hsender : linkInformation t.order packet.buf = some sender) (currTime : ℤ)
    (iprpMessage : Bool) (s : State) :
    verdict t currTime iprpMessage packet s =
      some (verdictFor t.build iprpMessage (updateEntry t.build currTime iprpMessage
        (entryFor iprpMessage sender s.activeSenders))) := by
  rw [verdict, globalHandle_eq hsender]
  rfl

/-- A plain packet is dropped exactly when the entry of its flow has seen an iPRP packet. -/
theorem verdict_plain_iff {t : Target} (ht : t.build = .multicast) {packet : QueuedPacket}
    {sender : Icd.ActiveSender} (hsender : linkInformation t.order packet.buf = some sender)
    (currTime : ℤ) (s : State) :
    verdict t currTime false packet s = some .drop ↔
      ∃ entry, activesendersFindEntry sender s.activeSenders = some entry ∧
        entry.iprpEnabled = true := by
  rw [verdict_eq hsender, ht, entryFor]
  cases hfound : activesendersFindEntry sender s.activeSenders with
  | some entry =>
      cases henabled : entry.iprpEnabled with
      | true => simp [verdictFor, updateEntry, henabled]
      | false => simp [verdictFor, updateEntry, henabled]
  | none => simp [verdictFor, updateEntry, activesendersCreateEntry]

/-- In every run of the multicast build, with the clock of each step at will: a flow has at most
one entry, iPRP packets are accepted, a plain packet is dropped if and only if an iPRP packet of
its flow was handled since the entry was created, and an entry ends only in the cleanup, when
the last packet of its flow is too old. -/
theorem session_filter (o : ByteOrder) (es : List Event) :
    ∃ s, run ⟨.multicast, o⟩ es = some s ∧ SessionFilter ⟨.multicast, o⟩ es s := by
  obtain ⟨s, hs⟩ : ∃ s, run ⟨.multicast, o⟩ es = some s :=
    Run.runFrom_total (fun _ => True) (fun s e _ => step_defined _ s e) (fun _ _ => trivial) _
  have hfollows : Follows ⟨.multicast, o⟩ es s := follows_run rfl hs
  refine ⟨s, hs, uniqueKeys_run hs, ?_, ?_, ?_⟩
  · intro currTime packet
    obtain ⟨sender, hsender⟩ := packet.linkInformation_defined o
    exact verdict_eq (t := ⟨.multicast, o⟩) hsender currTime true s
  · intro currTime packet sender hsender
    rw [verdict_plain_iff rfl hsender]
    have hremembered := hfollows sender
    cases hfound : activesendersFindEntry sender s.activeSenders with
    | some entry =>
        rw [hfound] at hremembered
        rw [← hremembered.2]
        simp
    | none =>
        rw [hfound] at hremembered
        exact iff_of_false (fun ⟨_, hentry, _⟩ => by cases hentry) hremembered
  · intro e s' sender hstep hsome hend
    cases entryStep (uniqueKeys_run hs) hstep sender with
    | packet he hentry =>
        rw [hend] at hentry
        cases hentry
    | removed entry he hentry haged hnone =>
        have hremembered := hfollows sender
        rw [hentry] at hremembered
        exact ⟨he, entry.lastSeen, hremembered.1, of_decide_eq_true haged⟩
    | kept he hsame =>
        rw [← hsame, hend] at hsome
        cases hsome

end Iprp.Imd
