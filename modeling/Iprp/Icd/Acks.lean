import Iprp.Icd.Bases
import Iprp.Icd.Rounds
import Mathlib.Data.List.Induction

/-!
# Sender interfaces and their ACKs

The entries of `sender_ifaces` along runs of the ICD of the multicast build: ACKs and CAPs
arrive, the rounds of `as_routine` refresh entries, and `si_routine` of
`src/icd/senderifaces.c` deletes the aged ones.

An ACK whose pair has an entry refreshes its age and leaves its interfaces as they are, and
an interface without local counterpart leaves its `host_addr` as `malloc` gave it. The
entries are those of the latest ACKs exactly along the runs in which neither happens
(`entriesCurrent_iff`).
-/

namespace Iprp.Icd

open KeyedList

def icdSiTexp : ℤ := 60

/-- The control state with the cursor of `count_and_cleanup`. -/
structure SiState extends Control where
  siIterator : Option ℕ

def SiState.init : SiState := ⟨Control.init, none⟩

def siAged (currTime : ℤ) (entry : SenderIfaces) : Bool :=
  icdSiTexp < currTime - entry.lastSeen

/-- The start of `count_and_cleanup`. -/
def siStart (s : SiState) : SiState :=
  match s.siIterator with
  | some _ => s
  | none => { s with siIterator := node s.senderIfaces 0 }

/-- One iteration of the loop of `count_and_cleanup`. -/
def siIteration (currTime : ℤ) (s : SiState) : SiState :=
  match s.siIterator with
  | none => s
  | some i =>
      let (senderIfaces, siIterator) := sweepStep (siAged currTime) s.senderIfaces i
      { s with senderIfaces := senderIfaces, siIterator := siIterator }

/-- The steps of the ICD that use `sender_ifaces`, and the handling of a CAP. An ACK has at
most sixteen interfaces. -/
inductive SiAction where
  | ack (heap : Heap) (msg : AckMsg) (nbIfaces_le : msg.host.nbIfaces ≤ 16)
  | cap (heap : Heap) (msg : CapMsg)
  | round (senders : List ActiveSender)
  | start
  | iteration

structure SiEvent where
  currTime : ℤ
  action : SiAction

/-- The ACK that an event handles. -/
def SiEvent.ack? (e : SiEvent) : Option AckMsg :=
  match e.action with
  | .ack _ msg _ => some msg
  | _ => none

def siStep (c : Config) (s : SiState) (e : SiEvent) : Option SiState :=
  match e.action with
  | .ack heap msg _ =>
      (handleAck c e.currTime heap msg s.toControl).map fun control =>
        { s with toControl := control }
  | .cap heap msg =>
      (handleCap c e.currTime heap msg s.toControl).map fun control =>
        { s with toControl := control }
  | .round senders =>
      some { s with toControl :=
        (asRound c.target.build c.this.toHost e.currTime senders s.toControl).2 }
  | .start => some (siStart s)
  | .iteration => some (siIteration e.currTime s)

def siRun (c : Config) (es : List SiEvent) : Option SiState :=
  Run.runFrom (siStep c) SiState.init es

/-! ## What an entry says -/

/-- The interfaces in use. -/
def SenderIfaces.used (entry : SenderIfaces) : List Iface :=
  entry.ifaces.toList.take entry.nbIfaces

/-- The local addresses for the interfaces in use. -/
def SenderIfaces.usedHostAddr (entry : SenderIfaces) : List InAddr :=
  entry.hostAddr.toList.take entry.nbIfaces

/-- An entry without its age. -/
def SenderIfaces.content (entry : SenderIfaces) : SenderIfaces := { entry with lastSeen := 0 }

/-- The entry has the interfaces of the ACK, each with the address of the local interface of
its IND. -/
structure Reflects (this : Host) (msg : AckMsg) (entry : SenderIfaces) : Prop where
  nbIfaces : entry.nbIfaces = msg.host.nbIfaces
  ifaces : entry.used = msg.host.used
  hostAddr : entry.usedHostAddr.map some = entry.used.map fun iface => localAddr this iface.ind

/-- The latest ACK for a group and a source. -/
def lastAck (k : InAddr × InAddr) (es : List SiEvent) : Option AckMsg :=
  ((es.filterMap SiEvent.ack?).filter fun msg => msg.key = k).getLast?

/-- There is one entry for each group and source, and it reflects their latest ACK. -/
structure EntriesCurrent (c : Config) (es : List SiEvent) (s : SiState) : Prop where
  unique : UniqueKeys SenderIfaces.key s.senderIfaces
  reflects : ∀ entry ∈ s.senderIfaces, ∃ msg, lastAck entry.key es = some msg ∧
    Reflects c.this.toHost msg entry

/-- An ACK that finds an entry repeats its interfaces, and one that finds none has only
interfaces with a local counterpart. -/
def Repeats (c : Config) (s : Control) (msg : AckMsg) : Prop :=
  match lookup SenderIfaces.key msg.key s.senderIfaces with
  | some entry => entry.nbIfaces = msg.host.nbIfaces ∧ entry.used = msg.host.used
  | none => ∀ iface ∈ msg.host.used, (localAddr c.this.toHost iface.ind).isSome

theorem lastAck_concat (k : InAddr × InAddr) (es : List SiEvent) (e : SiEvent) :
    lastAck k (es ++ [e]) =
      match e.ack? with
      | some msg => if msg.key = k then some msg else lastAck k es
      | none => lastAck k es := by
  unfold lastAck
  rw [List.filterMap_append, List.filter_append]
  cases hack : e.ack? with
  | none => simp [hack]
  | some msg =>
      by_cases hk : msg.key = k
      · simp [hack, hk]
      · simp [hack, hk]

theorem content_eq_iff {entry entry' : SenderIfaces} (h : entry.content = entry'.content) :
    entry.key = entry'.key ∧ entry.nbIfaces = entry'.nbIfaces ∧ entry.used = entry'.used ∧
      entry.usedHostAddr = entry'.usedHostAddr := by
  obtain ⟨senderAddr, groupAddr, nbIfaces, ifaces, hostAddr, lastSeen⟩ := entry
  obtain ⟨senderAddr', groupAddr', nbIfaces', ifaces', hostAddr', lastSeen'⟩ := entry'
  simp only [SenderIfaces.content, SenderIfaces.mk.injEq, and_true] at h
  obtain ⟨rfl, rfl, rfl, rfl, rfl⟩ := h
  exact ⟨rfl, rfl, rfl, rfl⟩

theorem Reflects.of_content {this : Host} {msg : AckMsg} {entry entry' : SenderIfaces}
    (h : Reflects this msg entry) (hcontent : entry.content = entry'.content) :
    Reflects this msg entry' := by
  obtain ⟨_, hnb, hused, haddr⟩ := content_eq_iff hcontent
  exact ⟨hnb ▸ h.nbIfaces, hused ▸ h.ifaces, by rw [← haddr, ← hused]; exact h.hostAddr⟩

theorem createSenderIfaces_fields {c : Config} {currTime : ℤ} {heap : Heap} {msg : AckMsg}
    {entry : SenderIfaces} (h : createSenderIfaces c currTime heap msg = some entry) :
    entry.key = msg.key ∧ entry.nbIfaces = msg.host.nbIfaces ∧
      entry.used = msg.host.used ∧
      ∀ (i : ℕ) (hi : i < 16), i < msg.host.nbIfaces → entry.hostAddr[i] =
        (localAddr c.this.toHost msg.host.ifaces[i].ind).getD heap.addrs[i] := by
  unfold createSenderIfaces at h
  split at h
  · obtain rfl := Option.some.inj h
    refine ⟨rfl, rfl, ?_, ?_⟩
    · unfold SenderIfaces.used Host.used
      apply List.ext_getElem
      · simp
      · intro i hi hi'
        have hlt : i < msg.host.nbIfaces := by
          rw [List.length_take] at hi
          exact lt_of_lt_of_le hi (Nat.min_le_left _ _)
        simp [hlt]
    · intro i hi hlt
      simp [hlt]
  · cases h

theorem createSenderIfaces_key {c : Config} {currTime : ℤ} {heap : Heap} {msg : AckMsg}
    {entry : SenderIfaces} (h : createSenderIfaces c currTime heap msg = some entry) :
    entry.key = msg.key := (createSenderIfaces_fields h).1

theorem reflects_createSenderIfaces {c : Config} {currTime : ℤ} {heap : Heap}
    {msg : AckMsg} {entry : SenderIfaces}
    (h : createSenderIfaces c currTime heap msg = some entry)
    (hlocal : ∀ iface ∈ msg.host.used, (localAddr c.this.toHost iface.ind).isSome) :
    Reflects c.this.toHost msg entry := by
  obtain ⟨_, hnb, hused, haddr⟩ := createSenderIfaces_fields h
  refine ⟨hnb, hused, ?_⟩
  rw [hused]
  apply List.ext_getElem
  · simp [SenderIfaces.usedHostAddr, Host.used, hnb]
  · intro i hi hi'
    have hbound : i < min msg.host.nbIfaces 16 := by
      simpa [SenderIfaces.usedHostAddr, hnb] using hi
    have hlt : i < msg.host.nbIfaces := lt_of_lt_of_le hbound (Nat.min_le_left _ _)
    have hi16 : i < 16 := lt_of_lt_of_le hbound (Nat.min_le_right _ _)
    have hmem : msg.host.ifaces[i] ∈ msg.host.used := by
      rw [Host.used, List.mem_take_iff_getElem]
      exact ⟨i, by simpa using hbound, by simp⟩
    obtain ⟨addr, hsome⟩ := Option.isSome_iff_exists.1 (hlocal _ hmem)
    have hslot : entry.hostAddr[i] = addr := by
      rw [haddr i hi16 hlt, hsome]
      rfl
    simp [SenderIfaces.usedHostAddr, Host.used, hslot, hsome]

theorem Reflects.localAddr_isSome {this : Host} {msg : AckMsg} {entry : SenderIfaces}
    (h : Reflects this msg entry) :
    ∀ iface ∈ msg.host.used, (localAddr this iface.ind).isSome := by
  intro iface hiface
  have hmem : localAddr this iface.ind ∈ entry.usedHostAddr.map some := by
    rw [h.hostAddr, h.ifaces]
    exact List.mem_map_of_mem hiface
  obtain ⟨addr, _, haddr⟩ := List.mem_map.1 hmem
  rw [← haddr]
  rfl

/-! ## Steps -/

theorem content_update (currTime : ℤ) (k : InAddr × InAddr) (l : List SenderIfaces) :
    (update SenderIfaces.key k (fun entry => { entry with lastSeen := currTime }) l).map
      SenderIfaces.content = l.map SenderIfaces.content :=
  map_update fun _ _ => rfl

theorem content_asRound (build : Build) (this : Host) (currTime : ℤ)
    (senders : List ActiveSender) (s : Control) :
    (asRound build this currTime senders s).2.senderIfaces.map SenderIfaces.content =
      s.senderIfaces.map SenderIfaces.content := by
  induction senders generalizing s with
  | nil => rfl
  | cons sender senders ih =>
      cases build with
      | unicast => exact ih s
      | multicast =>
          have hlook := content_update currTime sender.ackKey s.senderIfaces
          rw [asRound]
          dsimp only
          split
          · exact hlook
          · exact (ih _).trans hlook

theorem handleCap_senderIfaces {c : Config} {currTime : ℤ} {heap : Heap} {msg : CapMsg}
    {s s' : Control} (h : handleCap c currTime heap msg s = some s') :
    s'.senderIfaces = s.senderIfaces := by
  rcases handleCap_cases h with ⟨base, _, rfl⟩ | ⟨_, _, rfl⟩ | ⟨base, _, _, _, rfl⟩
  · rw [sendAck_senderIfaces]
  · rfl
  · rw [sendAck_senderIfaces]

/-- What a step does to the entries. -/
inductive EntriesStep (c : Config) (e : SiEvent) (l l' : List SenderIfaces) : Prop
  /-- An ACK finds its entry. -/
  | refresh (msg : AckMsg) (entry : SenderIfaces) (he : e.ack? = some msg)
      (hfound : lookup SenderIfaces.key msg.key l = some entry)
      (heq : l' = update SenderIfaces.key msg.key
        (fun entry => { entry with lastSeen := e.currTime }) l)
  /-- An ACK creates its entry. -/
  | create (heap : Heap) (msg : AckMsg) (entry : SenderIfaces) (he : e.ack? = some msg)
      (hnone : lookup SenderIfaces.key msg.key l = none)
      (hentry : createSenderIfaces c e.currTime heap msg = some entry)
      (heq : l' = l ++ [entry])
  /-- The step is no ACK and keeps the contents of the entries. -/
  | keep (he : e.ack? = none)
      (heq : l'.map SenderIfaces.content = l.map SenderIfaces.content)
  /-- An aged entry is deleted. -/
  | delete (i : ℕ) (he : e.ack? = none) (heq : l' = l.eraseIdx i)

theorem entriesStep {c : Config} {s s' : SiState} {e : SiEvent}
    (h : siStep c s e = some s') : EntriesStep c e s.senderIfaces s'.senderIfaces := by
  obtain ⟨currTime, action⟩ := e
  cases action with
  | ack heap msg nbIfaces_le =>
      obtain ⟨control, hcontrol, rfl⟩ := Option.map_eq_some_iff.1 h
      rcases handleAck_cases hcontrol with ⟨entry, hfound, rfl⟩ | ⟨entry, hnone, hentry, rfl⟩
      · exact .refresh msg entry rfl hfound rfl
      · exact .create heap msg entry rfl hnone hentry rfl
  | cap heap msg =>
      obtain ⟨control, hcontrol, rfl⟩ := Option.map_eq_some_iff.1 h
      exact .keep rfl (by rw [← handleCap_senderIfaces hcontrol])
  | round senders =>
      obtain rfl := Option.some.inj h
      exact .keep rfl (content_asRound _ _ currTime senders s.toControl)
  | start =>
      obtain rfl := Option.some.inj h
      unfold siStart
      cases s.siIterator with
      | none => exact .keep rfl rfl
      | some i => exact .keep rfl rfl
  | iteration =>
      obtain rfl := Option.some.inj h
      unfold siIteration
      cases s.siIterator with
      | none => exact .keep rfl rfl
      | some i =>
          dsimp only
          unfold sweepStep
          cases s.senderIfaces[i]? with
          | none => exact .keep rfl rfl
          | some entry =>
              dsimp only
              split
              · exact .delete i rfl rfl
              · exact .keep rfl rfl

theorem map_key_of_content {l l' : List SenderIfaces}
    (h : l'.map SenderIfaces.content = l.map SenderIfaces.content) :
    l'.map SenderIfaces.key = l.map SenderIfaces.key := by
  have hkey : SenderIfaces.key ∘ SenderIfaces.content = SenderIfaces.key := rfl
  rw [← hkey, ← List.map_map, h, List.map_map]

theorem uniqueKeys_entriesStep {c : Config} {e : SiEvent} {l l' : List SenderIfaces}
    (hl : UniqueKeys SenderIfaces.key l) (h : EntriesStep c e l l') :
    UniqueKeys SenderIfaces.key l' := by
  cases h with
  | refresh msg entry _ _ heq =>
      rw [heq]
      exact uniqueKeys_update (fun entry _ => by rfl) hl
  | create heap msg entry _ hnone hentry heq =>
      rw [heq]
      refine uniqueKeys_append_singleton hl ?_
      rwa [createSenderIfaces_key hentry]
  | keep _ heq =>
      unfold UniqueKeys
      rw [map_key_of_content heq]
      exact hl
  | delete i _ heq =>
      rw [heq]
      exact uniqueKeys_eraseIdx hl i

/-! ## Runs -/

theorem entriesCurrent_step {c : Config} {es : List SiEvent} {s s' : SiState} {e : SiEvent}
    (hs : EntriesCurrent c es s) (hack : ∀ msg, e.ack? = some msg → Repeats c s.toControl msg)
    (hstep : siStep c s e = some s') : EntriesCurrent c (es ++ [e]) s' := by
  have hentries := entriesStep hstep
  have hunique := uniqueKeys_entriesStep hs.unique hentries
  refine ⟨hunique, ?_⟩
  intro entry' hentry'
  rw [lastAck_concat]
  cases hentries with
  | refresh msg entry he hfound heq =>
      have hrepeats := hack msg he
      rw [Repeats, hfound] at hrepeats
      obtain ⟨hnb, hused⟩ := hrepeats
      have hlook := lookup_of_mem hunique hentry'
      rw [he]
      dsimp only
      by_cases hk : entry'.key = msg.key
      · -- the entry of the ACK
        rw [heq, hk, lookup_update_same (fun entry _ => by rfl), hfound] at hlook
        obtain rfl := Option.some.inj hlook
        obtain ⟨msg₀, _, hreflects⟩ := hs.reflects entry (mem_of_lookup hfound)
        exact ⟨msg, if_pos hk.symm, hnb, hused, hreflects.hostAddr⟩
      · rw [heq, lookup_update_of_ne (fun entry _ => by rfl) hk] at hlook
        rw [if_neg fun h => hk h.symm]
        exact hs.reflects entry' (mem_of_lookup hlook)
  | create heap msg entry he hnone hentry heq =>
      have hrepeats := hack msg he
      rw [Repeats, hnone] at hrepeats
      rw [he]
      dsimp only
      rw [heq, List.mem_append, List.mem_singleton] at hentry'
      rcases hentry' with hold | rfl
      · have hk : msg.key ≠ entry'.key := by
          intro h
          exact lookup_eq_none_iff.1 hnone entry' hold h.symm
        rw [if_neg hk]
        exact hs.reflects entry' hold
      · exact ⟨msg, if_pos (createSenderIfaces_key hentry).symm,
          reflects_createSenderIfaces hentry hrepeats⟩
  | keep he heq =>
      have hmem : entry'.content ∈ s.senderIfaces.map SenderIfaces.content := by
        rw [← heq]
        exact List.mem_map_of_mem hentry'
      obtain ⟨entry, hentry, hcontent⟩ := List.mem_map.1 hmem
      obtain ⟨msg, hlast, hreflects⟩ := hs.reflects entry hentry
      rw [he, ← (content_eq_iff hcontent).1]
      exact ⟨msg, hlast, hreflects.of_content hcontent⟩
  | delete i he heq =>
      rw [he]
      rw [heq] at hentry'
      exact hs.reflects entry' (List.mem_of_mem_eraseIdx hentry')

theorem repeats_of_entriesCurrent {c : Config} {es : List SiEvent} {s s' : SiState}
    {e : SiEvent} {msg : AckMsg} (he : e.ack? = some msg) (hstep : siStep c s e = some s')
    (hs' : EntriesCurrent c (es ++ [e]) s') : Repeats c s.toControl msg := by
  have hlast : lastAck msg.key (es ++ [e]) = some msg := by
    rw [lastAck_concat, he]
    exact if_pos rfl
  have hreflects : ∀ entry ∈ s'.senderIfaces, entry.key = msg.key →
      Reflects c.this.toHost msg entry := by
    intro entry hentry hk
    obtain ⟨msg', hlast', h⟩ := hs'.reflects entry hentry
    rw [hk, hlast] at hlast'
    obtain rfl := Option.some.inj hlast'
    exact h
  unfold Repeats
  cases entriesStep hstep with
  | refresh msg' entry he' hfound heq =>
      obtain rfl := Option.some.inj (he.symm.trans he')
      rw [hfound]
      have hlook : lookup SenderIfaces.key msg.key s'.senderIfaces =
          some { entry with lastSeen := e.currTime } := by
        rw [heq, lookup_update_same (fun entry _ => by rfl), hfound]
        rfl
      have h := hreflects _ (mem_of_lookup hlook) (key_of_lookup hlook)
      exact ⟨h.nbIfaces, h.ifaces⟩
  | create heap msg' entry he' hnone hentry heq =>
      obtain rfl := Option.some.inj (he.symm.trans he')
      rw [hnone]
      have hmem : entry ∈ s'.senderIfaces := by
        rw [heq]
        exact List.mem_append.2 (Or.inr (List.mem_singleton.2 rfl))
      exact (hreflects entry hmem (createSenderIfaces_key hentry)).localAddr_isSome
  | keep he' heq =>
      rw [he] at he'
      cases he'
  | delete i he' heq =>
      rw [he] at he'
      cases he'

theorem siStep_ack_defined (c : Config) (s : SiState) {e : SiEvent} {msg : AckMsg}
    (he : e.ack? = some msg) : ∃ s', siStep c s e = some s' := by
  obtain ⟨currTime, action⟩ := e
  cases action with
  | ack heap msg' nbIfaces_le =>
      have hcreate : ∃ entry, createSenderIfaces c currTime heap msg' = some entry :=
        ⟨_, if_pos nbIfaces_le⟩
      obtain ⟨entry, hentry⟩ := hcreate
      simp only [siStep, handleAck, hentry]
      split
      · exact ⟨_, rfl⟩
      · exact ⟨_, rfl⟩
  | cap heap msg' => cases he
  | round senders => cases he
  | start => cases he
  | iteration => cases he

/-- Along every run: in every state there is one entry for each group and source, with the
interfaces of their latest ACK and the local addresses of their INDs, if and only if every
ACK that finds an entry repeats its interfaces and every other one has only interfaces with
a local counterpart. -/
theorem entriesCurrent_iff (c : Config) (es : List SiEvent) :
    (∀ k s, siRun c (es.take k) = some s → EntriesCurrent c (es.take k) s) ↔
      ∀ k e msg s, es[k]? = some e → e.ack? = some msg → siRun c (es.take k) = some s →
        Repeats c s.toControl msg := by
  constructor
  · intro h k e msg s he hack hs
    obtain ⟨s', hstep⟩ := siStep_ack_defined c s hack
    have hnext : siRun c (es.take (k + 1)) = some s' :=
      (Run.runFrom_take_succ_eq_some he).2 ⟨s, hs, hstep⟩
    have hcurrent := h (k + 1) s' hnext
    rw [List.take_add_one, he] at hcurrent
    exact repeats_of_entriesCurrent hack hstep hcurrent
  · intro h k s hs
    refine Run.runFrom_take_history (EntriesCurrent c) ?_ ?_ k hs
    · exact ⟨uniqueKeys_nil _, fun entry hentry => by cases hentry⟩
    · intro k e s s' he hs hcurrent hstep
      exact entriesCurrent_step hcurrent (fun msg hack => h k e msg s he hack hs) hstep

/-- The ACK of a sender with one interface for the group `232.0.0.1`. -/
def oneIfaceAck (ind : UInt8) (addr : InAddr) : AckMsg :=
  ⟨⟨1, Vector.replicate 16 ⟨ind, addr⟩⟩, inAddr 232 0 0 1, inAddr 10 0 0 9⟩

/-- After the sender has moved to another interface, the entry has still the first one. -/
theorem second_ack_ignored :
    ¬ ∀ (c : Config) (es : List SiEvent) (k : ℕ) (s : SiState),
      siRun c (es.take k) = some s → EntriesCurrent c (es.take k) s := by
  intro h
  let es : List SiEvent :=
    [⟨1, .ack smallHeap (oneIfaceAck 0 (inAddr 10 0 0 9)) (by decide)⟩,
      ⟨2, .ack smallHeap (oneIfaceAck 1 (inAddr 10 1 0 9)) (by decide)⟩]
  obtain ⟨s, hs⟩ : ∃ s, siRun (smallConfig .multicast) es = some s := ⟨_, rfl⟩
  have hcurrent := h (smallConfig .multicast) es 2 s hs
  have hentries : (siRun (smallConfig .multicast) es).map
      (fun s => s.senderIfaces.map fun entry => (entry.key, entry.used)) =
      some [((inAddr 232 0 0 1, inAddr 10 0 0 9), [⟨0, inAddr 10 0 0 9⟩])] := by
    decide +kernel
  rw [hs, Option.map_some] at hentries
  obtain ⟨entry, hentry, hkey⟩ : ∃ entry, entry ∈ s.senderIfaces ∧
      (entry.key, entry.used) =
        ((inAddr 232 0 0 1, inAddr 10 0 0 9), [⟨0, inAddr 10 0 0 9⟩]) := by
    rw [← List.mem_map, Option.some.inj hentries]
    exact List.mem_singleton.2 rfl
  obtain ⟨hkey, hused⟩ := Prod.mk.inj hkey
  obtain ⟨msg, hlast, hreflects⟩ := hcurrent.reflects entry hentry
  rw [hkey] at hlast
  obtain rfl : oneIfaceAck 1 (inAddr 10 1 0 9) = msg := Option.some.inj hlast
  have hifaces := hreflects.ifaces
  rw [hused] at hifaces
  exact absurd hifaces (by decide)

end Iprp.Icd
