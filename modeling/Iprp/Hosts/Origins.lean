import Iprp.Hosts.Owners
import Iprp.Session.KeepAlive

/-!
# Where the sessions come from

In the unicast build a base of a flow is made of a CAP, which may have been delayed, repeated or
brought to the wrong host. But whatever any host holds for a flow, up to the rules that take
packets out of it, goes back to a packet with the same addresses and ports that the IMD of some
receiver has handled before (`sessions_heard`).
-/

namespace Iprp.Hosts

open Icd KeyedList Session

section

variable {ι : Type*}

/-- The IMD of the host `r` has handled a packet of the sender. -/
def Heard (hosts : ι → Config) (es : List (Event ι)) (r : ι) (sender : ActiveSender) : Prop :=
  ∃ currTime iprpMessage packet, ⟨r, currTime, .imd (.packet iprpMessage packet)⟩ ∈ es ∧
    Imd.linkInformation (hosts r).target.order packet.buf = some sender

/-- The CAP of a host for a sender that its IMD has heard. -/
def CapOfHeard (hosts : ι → Config) (es : List (Event ι)) (d : Datagram) : Prop :=
  ∃ r stack sender, Heard hosts es r sender ∧
    d.bytes = capBytes (hosts r).target stack (sendCap .unicast (hosts r).this.toHost sender)

/-- A flow of which a packet has been heard. -/
def KeyHeard (hosts : ι → Config) (es : List (Event ι)) (k : FlowKey) : Prop :=
  ∃ r sender, Heard hosts es r sender ∧ k = ⟨sender.destAddr, sender.srcPort, sender.destPort⟩

/-- What the host `h` holds goes back to packets that have been heard. -/
structure GoesBack (hosts : ι → Config) (es : List (Event ι)) (h : ι) (n : Node) : Prop where
  entries : ∀ entry ∈ n.imd.activeSenders, Heard hosts es h entry.key
  senders : ∀ sender ∈ n.asFile, Heard hosts es h sender
  bases : ∀ base ∈ n.icd.peerbases, ∃ r, Heard hosts es r (linkSender base.link)
  files : ∀ path peerbase, n.icd.files path = some peerbase →
    ∃ r, Heard hosts es r (linkSender peerbase.link)
  rules : ∀ rule ∈ n.icd.rules, KeyHeard hosts es rule.key

variable {hosts : ι → Config} {es : List (Event ι)}

theorem bases_handleCap {h r : ι} {sender : ActiveSender} (hheard : Heard hosts es r sender)
    {currTime : ℤ} {heap : Heap} {s s' : Control}
    (hs : ∀ base ∈ s.peerbases, ∃ r, Heard hosts es r (linkSender base.link))
    (hstep : handleCap (hosts h) currTime heap (sendCap .unicast (hosts r).this.toHost sender) s =
      some s') :
    ∀ base ∈ s'.peerbases, ∃ r, Heard hosts es r (linkSender base.link) := by
  rcases handleCap_cases hstep with ⟨base, _, rfl⟩ | ⟨_, _, rfl⟩ | ⟨base, _, _, hbase, rfl⟩
  · rw [sendAck_peerbases]
    exact forall_mem_update hs fun base hbase => hs base (mem_of_lookup hbase)
  · exact hs
  · rw [sendAck_peerbases]
    intro base' hbase'
    rcases List.mem_append.1 hbase' with hold | hnew
    · exact hs base' hold
    · rw [List.mem_singleton.1 hnew, (createBase_fields hbase).1]
      exact ⟨r, hheard⟩

theorem entries_imd {h : ι} {currTime : ℤ} {action : Imd.Action}
    (he : ⟨h, currTime, .imd action⟩ ∈ es) {s s' : Imd.State}
    (hs : ∀ entry ∈ s.activeSenders, Heard hosts es h entry.key)
    (hstep : Imd.step (hosts h).target s ⟨currTime, action⟩ = some s') :
    ∀ entry ∈ s'.activeSenders, Heard hosts es h entry.key := by
  cases action with
  | packet iprpMessage packet =>
      obtain ⟨sender, hsender⟩ := packet.linkInformation_defined (hosts h).target.order
      have hheard : Heard hosts es h sender := ⟨currTime, iprpMessage, packet, he, hsender⟩
      rw [Imd.step_packet hsender] at hstep
      obtain rfl := Option.some.inj hstep
      dsimp only
      unfold Imd.recordSender Imd.activesendersFindEntry
      split
      · next entry hfound =>
          refine forall_mem_update hs fun entry' hentry' => ?_
          exact hs entry (mem_of_lookup hfound)
      · intro entry hentry
        rcases List.mem_append.1 hentry with hold | hnew
        · exact hs entry hold
        · rw [List.mem_singleton.1 hnew]
          exact hheard
  | start =>
      obtain rfl := Option.some.inj hstep
      rw [Imd.cleanupStart_activeSenders]
      exact hs
  | iteration =>
      obtain rfl := Option.some.inj hstep
      cases hit : s.asIterator with
      | none =>
          rw [Imd.cleanupIteration, hit]
          exact hs
      | some i =>
          rw [Imd.cleanupIteration_some hit]
          intro entry hentry
          exact hs entry ((sweepStep_sublist _ _ i).subset hentry)

theorem GoesBack.pbIteration {h : ι} {n : Node} (hn : GoesBack hosts es h n) (currTime : ℤ)
    (pid : ℕ) :
    GoesBack hosts es h { n with icd := Icd.pbIteration (hosts h) currTime pid n.icd } := by
  have hstored : ∀ base ∈ n.icd.peerbases, ∀ path peerbase,
      peerbaseStore (peerbasePath base.link.snsid)
        (createPeerbase (hosts h).this.toHost base) n.icd.files path = some peerbase →
      ∃ r, Heard hosts es r (linkSender peerbase.link) := by
    intro base hbase path peerbase hpath
    rw [peerbaseStore, Function.update_apply] at hpath
    split at hpath
    · obtain rfl := Option.some.inj hpath
      exact hn.bases base hbase
    · exact hn.files path peerbase hpath
  rcases pbIteration_cases (hosts h) currTime pid n.icd with ⟨heq, -⟩ |
    ⟨i, base, -, hbase, ⟨-, heq⟩ | ⟨-, -, heq⟩ | ⟨-, -, heq⟩⟩
  · rw [heq]
    exact ⟨hn.entries, hn.senders, hn.bases, hn.files, hn.rules⟩
  · rw [heq]
    exact ⟨hn.entries, hn.senders,
      fun base' hbase' => hn.bases base' (List.mem_of_mem_eraseIdx hbase'), hn.files, hn.rules⟩
  · rw [heq]
    exact ⟨hn.entries, hn.senders, hn.bases, hstored base (List.mem_of_getElem? hbase),
      hn.rules⟩
  · rw [heq]
    obtain ⟨r, hheard⟩ := hn.bases base (List.mem_of_getElem? hbase)
    refine ⟨hn.entries, hn.senders, ?_, hstored base (List.mem_of_getElem? hbase), ?_⟩
    · intro base' hbase'
      rcases List.mem_or_eq_of_mem_set hbase' with hold | rfl
      · exact hn.bases base' hold
      · exact ⟨r, hheard⟩
    · intro rule hrule
      rcases List.mem_append.1 hrule with hold | hnew
      · exact hn.rules rule hold
      · rw [List.mem_singleton.1 hnew]
        exact ⟨r, linkSender base.link, hheard, rfl⟩

theorem GoesBack.step (hbuild : ∀ h, (hosts h).target.build = .unicast) {e : Event ι}
    (he : e ∈ es) {sent new : List Datagram} (hsent : ∀ d ∈ sent, CapOfHeard hosts es d)
    {n n' : Node} (hn : GoesBack hosts es e.host n)
    (hstep : nodeStep (hosts e.host) sent e.currTime e.action n = some (n', new)) :
    GoesBack hosts es e.host n' ∧ ∀ d ∈ new, CapOfHeard hosts es d := by
  obtain ⟨h, currTime, action⟩ := e
  cases action with
  | imd action =>
      obtain ⟨imd, himd, heq⟩ := Option.map_eq_some_iff.1 hstep
      obtain ⟨rfl, rfl⟩ := Prod.mk.inj heq
      exact ⟨⟨entries_imd he hn.entries himd, hn.senders, hn.bases, hn.files, hn.rules⟩,
        List.forall_mem_nil _⟩
  | push senders =>
      rw [nodeStep] at hstep
      split at hstep
      · next hmem =>
          obtain ⟨rfl, rfl⟩ := Prod.mk.inj (Option.some.inj hstep)
          refine ⟨⟨hn.entries, ?_, hn.bases, hn.files, hn.rules⟩, List.forall_mem_nil _⟩
          intro sender hsender
          obtain ⟨entry, hentry, rfl⟩ := List.mem_map.1 (hmem sender hsender)
          exact hn.entries entry hentry
      · cases hstep
  | round stack =>
      rw [nodeStep, hbuild h, asRound_unicast] at hstep
      obtain ⟨rfl, rfl⟩ := Prod.mk.inj (Option.some.inj hstep)
      refine ⟨⟨hn.entries, hn.senders, hn.bases, hn.files, hn.rules⟩, ?_⟩
      intro d hd
      obtain ⟨cap, hcap, rfl⟩ := List.mem_map.1 hd
      obtain ⟨sender, hsender, rfl⟩ := List.mem_map.1 hcap
      exact ⟨h, stack, sender, hn.senders sender hsender, rfl⟩
  | receive heap stack datagram =>
      rw [nodeStep] at hstep
      split at hstep
      · next hmem =>
          obtain ⟨control, hcontrol, heq⟩ := Option.map_eq_some_iff.1 hstep
          obtain ⟨r, stack', sender, hheard, hbytes⟩ := hsent datagram hmem
          rcases controlStep_cap hbuild hbytes hcontrol with hhandle | ⟨hbases, hnosent⟩
          · rw [handleCap_sent (hbuild h) hhandle, List.drop_length] at heq
            obtain ⟨rfl, rfl⟩ := Prod.mk.inj heq
            exact ⟨⟨hn.entries, hn.senders, bases_handleCap hheard hn.bases hhandle, hn.files,
              hn.rules⟩, List.forall_mem_nil _⟩
          · rw [hnosent, List.drop_length] at heq
            obtain ⟨rfl, rfl⟩ := Prod.mk.inj heq
            exact ⟨⟨hn.entries, hn.senders, hbases ▸ hn.bases, hn.files, hn.rules⟩,
              List.forall_mem_nil _⟩
      · cases hstep
  | pbStart =>
      obtain ⟨rfl, rfl⟩ := Prod.mk.inj (Option.some.inj hstep)
      obtain ⟨iterator, heq⟩ := pbStart_eq n.icd
      rw [heq]
      exact ⟨⟨hn.entries, hn.senders, hn.bases, hn.files, hn.rules⟩, List.forall_mem_nil _⟩
  | pbIteration pid =>
      obtain ⟨rfl, rfl⟩ := Prod.mk.inj (Option.some.inj hstep)
      exact ⟨hn.pbIteration currTime pid, List.forall_mem_nil _⟩
  | siStart =>
      rw [nodeStep, hbuild h] at hstep
      cases hstep
  | siIteration =>
      rw [nodeStep, hbuild h] at hstep
      cases hstep

end

/-- In every run of any number of hosts with the unicast build, whatever the network does to the
control datagrams: all that a host holds for a flow goes back to a packet that the IMD of some
receiver has handled before. -/
theorem sessions_heard {ι : Type*} [DecidableEq ι] (hosts : ι → Config)
    (hbuild : ∀ h, (hosts h).target.build = .unicast) {es : List (Event ι)} {s : State ι}
    (h : run hosts es = some s) :
    (∀ host, GoesBack hosts es host (s.node host)) ∧ ∀ d ∈ s.sent, CapOfHeard hosts es d :=
  run_invariant (fun _ => ⟨nofun, nofun, nofun, nofun, nofun⟩)
    (fun _ he _ _ _ _ hsent hn hstep => hn.step hbuild he hsent hstep) h

/-- The rule that the opening of a session adds goes back to the packet that the receiver has
heard. -/
theorem sessions_heard_opening :
    ∃ s, run twoHosts opening = some s ∧
      (s.node false).icd.rules.map Rule.key = [⟨inAddr 10 0 0 2, 4000, 5000⟩] ∧
      (∀ host, GoesBack twoHosts opening host (s.node host)) ∧
      ∀ d ∈ s.sent, CapOfHeard twoHosts opening d := by
  have hrules : (run twoHosts opening).map (fun s => (s.node false).icd.rules.map Rule.key) =
      some [⟨inAddr 10 0 0 2, 4000, 5000⟩] := by
    decide +kernel
  obtain ⟨s, hs, hkeys⟩ := Option.map_eq_some_iff.1 hrules
  exact ⟨s, hs, hkeys, sessions_heard twoHosts (fun h => by cases h <;> rfl) hs⟩

end Iprp.Hosts
