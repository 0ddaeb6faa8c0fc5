import Iprp.Hosts.Network
import Iprp.Icd.PeerTable

/-!
# How sessions start in the multicast build

`as_routine` leaves its round at the first sender that no ACK has come from, and an ACK only
answers a CAP. So the hosts wait for each other: no message is ever sent, no base is made and no
ISD started, whatever packets the hosts exchange (`never_starts`).
-/

namespace Iprp.Hosts

open Icd KeyedList

/-- The control plane of a host has done nothing. -/
structure Idle (n : Node) : Prop where
  peerbases : n.icd.peerbases = []
  senderIfaces : n.icd.senderIfaces = []
  files : n.icd.files = fun _ => none
  rules : n.icd.rules = []
  isds : n.icd.isds = []

theorem idle_init : Idle Node.init := ⟨rfl, rfl, rfl, rfl, rfl⟩

theorem asRound_empty (this : Host) (currTime : ℤ) (senders : List ActiveSender) {s : Control}
    (hs : s.senderIfaces = []) : asRound .multicast this currTime senders s = ([], s) := by
  cases senders with
  | nil => rfl
  | cons sender senders =>
      obtain ⟨peerbases, senderIfaces, rebootCounter, sent, serving⟩ := s
      obtain rfl : senderIfaces = [] := hs
      rfl

theorem pbIteration_empty (c : Config) (currTime : ℤ) (pid : ℕ) {s : Icd.State}
    (hs : s.peerbases = []) : Icd.pbIteration c currTime pid s = { s with iterator := none } := by
  rcases pbIteration_cases c currTime pid s with ⟨heq, -⟩ | ⟨i, base, -, hbase, -⟩
  · exact heq
  · rw [hs] at hbase
    cases hbase

theorem si_empty {f : SiState → SiState} (hf : f = Icd.siStart ∨ ∃ t, f = Icd.siIteration t)
    {n n' : Node} (hn : n.icd.senderIfaces = []) (h : n.si .multicast f = some n') :
    n'.icd = n.icd := by
  have hcontrol : (f ⟨n.icd.toControl, n.siIterator⟩).toControl = n.icd.toControl := by
    obtain ⟨imd, asFile, ⟨⟨peerbases, senderIfaces, rebootCounter, sent, serving⟩, iterator,
      files, rules, isds⟩, siIterator⟩ := n
    obtain rfl : senderIfaces = [] := hn
    rcases hf with rfl | ⟨t, rfl⟩
    · cases siIterator with
      | none => rfl
      | some i => rfl
    · cases siIterator with
      | none => rfl
      | some i => rfl
  obtain rfl := Option.some.inj h
  simp only [Node.setControl, hcontrol]

theorem Idle.step {c : Config} (hbuild : c.target.build = .multicast) {currTime : ℤ}
    {a : Action} {n n' : Node} {new : List Datagram} (hn : Idle n)
    (h : nodeStep c [] currTime a n = some (n', new)) : Idle n' ∧ new = [] := by
  cases a with
  | imd action =>
      obtain ⟨imd, -, heq⟩ := Option.map_eq_some_iff.1 h
      obtain ⟨rfl, rfl⟩ := Prod.mk.inj heq
      exact ⟨⟨hn.peerbases, hn.senderIfaces, hn.files, hn.rules, hn.isds⟩, rfl⟩
  | push senders =>
      obtain ⟨-, heq⟩ := Option.ite_none_right_eq_some.1 h
      obtain ⟨rfl, rfl⟩ := Prod.mk.inj (Option.some.inj heq)
      exact ⟨⟨hn.peerbases, hn.senderIfaces, hn.files, hn.rules, hn.isds⟩, rfl⟩
  | round stack =>
      rw [nodeStep, hbuild, asRound_empty _ _ _ hn.senderIfaces] at h
      obtain ⟨rfl, rfl⟩ := Prod.mk.inj (Option.some.inj h)
      exact ⟨hn, rfl⟩
  | receive heap stack datagram =>
      rw [nodeStep, if_neg List.not_mem_nil] at h
      cases h
  | pbStart =>
      obtain ⟨rfl, rfl⟩ := Prod.mk.inj (Option.some.inj h)
      obtain ⟨iterator, heq⟩ := pbStart_eq n.icd
      rw [heq]
      exact ⟨⟨hn.peerbases, hn.senderIfaces, hn.files, hn.rules, hn.isds⟩, rfl⟩
  | pbIteration pid =>
      obtain ⟨rfl, rfl⟩ := Prod.mk.inj (Option.some.inj h)
      rw [pbIteration_empty c currTime pid hn.peerbases]
      exact ⟨⟨hn.peerbases, hn.senderIfaces, hn.files, hn.rules, hn.isds⟩, rfl⟩
  | siStart =>
      rw [nodeStep, hbuild] at h
      obtain ⟨n', hn', heq⟩ := Option.map_eq_some_iff.1 h
      obtain ⟨rfl, rfl⟩ := Prod.mk.inj heq
      have hicd := si_empty (Or.inl rfl) hn.senderIfaces hn'
      exact ⟨⟨hicd ▸ hn.peerbases, hicd ▸ hn.senderIfaces, hicd ▸ hn.files, hicd ▸ hn.rules,
        hicd ▸ hn.isds⟩, rfl⟩
  | siIteration =>
      rw [nodeStep, hbuild] at h
      obtain ⟨n', hn', heq⟩ := Option.map_eq_some_iff.1 h
      obtain ⟨rfl, rfl⟩ := Prod.mk.inj heq
      have hicd := si_empty (Or.inr ⟨currTime, rfl⟩) hn.senderIfaces hn'
      exact ⟨⟨hicd ▸ hn.peerbases, hicd ▸ hn.senderIfaces, hicd ▸ hn.files, hicd ▸ hn.rules,
        hicd ▸ hn.isds⟩, rfl⟩

/-- In every run of any number of hosts with the multicast build no control message is ever
sent, and no host gets a base, a sender's interfaces, a rule or an ISD. -/
theorem never_starts {ι : Type*} [DecidableEq ι] (hosts : ι → Config)
    (hbuild : ∀ h, (hosts h).target.build = .multicast) {es : List (Event ι)} {s : State ι}
    (h : run hosts es = some s) : s.sent = [] ∧ ∀ h, Idle (s.node h) := by
  have hinv := run_invariant (P := fun _ => Idle) (Q := fun _ => False) (fun _ => idle_init)
    ?_ h
  · exact ⟨List.eq_nil_iff_forall_not_mem.2 hinv.2, hinv.1⟩
  · intro e _ sent n n' new hsent hn hstep
    obtain rfl := List.eq_nil_iff_forall_not_mem.2 hsent
    obtain ⟨hn', rfl⟩ := hn.step (hbuild e.host) hstep
    exact ⟨hn', nofun⟩

/-- An empty datagram from `10.0.0.1:4000` to the group `239.0.0.1:5000`. -/
def plainPacket : Imd.QueuedPacket :=
  ⟨List.replicate 12 0 ++ [10, 0, 0, 1, 239, 0, 0, 1, 0x0f, 0xa0, 0x13, 0x88, 0, 8, 0, 0],
    by decide⟩

/-- A host hears the sender, pushes it to the file and starts a round for it. -/
def heardSender : List (Event Bool) :=
  [⟨true, 0, .imd (.packet false plainPacket)⟩,
    ⟨true, 1, .push [⟨inAddr 10 0 0 1, inAddr 239 0 0 1, 4000, 5000⟩]⟩,
    ⟨true, 2, .round fun _ => 0⟩]

theorem never_starts_heard :
    ∃ s, run (fun _ => smallConfig .multicast) heardSender = some s ∧
      (s.node true).asFile.length = 1 ∧ s.sent = [] ∧ ∀ h, Idle (s.node h) := by
  have hfile : (run (fun _ => smallConfig .multicast) heardSender).map
      (fun s => (s.node true).asFile.length) = some 1 := by
    decide +kernel
  obtain ⟨s, hs, hlength⟩ := Option.map_eq_some_iff.1 hfile
  exact ⟨s, hs, hlength, never_starts (fun _ => smallConfig .multicast) (fun _ => rfl) hs⟩

end Iprp.Hosts
