import Iprp.Hosts.Network
import Iprp.Icd.Addresses
import Iprp.Isd.Copies

/-!
# Where the copies go

In the unicast build a flow is to be sent, over each shared network, to the host that owns its
destination address. The base of the flow is made of CAPs, which come from hosts that have heard
the flow, through a network that can give them to anyone at any time. When each host only hears
packets to addresses of its own, and no address is of two hosts, every copy of every ISD goes out
on an interface of its host to the interface of the owner with the same IND
(`copies_reach_owner`).
-/

namespace Iprp.Hosts

open Icd KeyedList

/-- The host has an interface with the address. -/
def Owns (this : LocalHost) (addr : InAddr) : Prop := ∃ iface ∈ this.used, iface.addr = addr

/-- A destination, a bitmap and a table of addresses that lead to the host. -/
structure LeadsTo (owner : LocalHost) (destAddr : InAddr) (inds : IndBitmap)
    (table : Vector InAddr 16) : Prop where
  owns : Owns owner destAddr
  inds : ∀ i < 16, inds.getLsbD i = true → ∃ iface ∈ owner.used, iface.ind.toNat = i
  table : ∀ iface ∈ owner.used, table[iface.ind.toNat]? = some iface.addr

section

variable {ι : Type*}

/-- A packet that the IMD hears is addressed to its host. -/
def HearsOwn (hosts : ι → Config) (e : Event ι) : Prop :=
  ∀ iprpMessage packet sender, e.action = .imd (.packet iprpMessage packet) →
    Imd.linkInformation (hosts e.host).target.order packet.buf = some sender →
    Owns (hosts e.host).this sender.destAddr

/-- A CAP that a host has sent for a flow to itself. -/
def HonestCap (hosts : ι → Config) (msg : CapMsg) : Prop :=
  ∃ r sender, Owns (hosts r).this sender.destAddr ∧
    msg = sendCap .unicast (hosts r).this.toHost sender

def HonestDatagram (hosts : ι → Config) (d : Datagram) : Prop :=
  ∃ r stack msg, HonestCap hosts msg ∧ d.bytes = capBytes (hosts r).target stack msg

/-- The base leads to the owner of its destination address. -/
def HonestBase (hosts : ι → Config) (base : IcdBase) : Prop :=
  ∃ r, LeadsTo (hosts r).this base.link.destAddr base.inds base.destAddr

structure HonestFile (hosts : ι → Config) (this : LocalHost) (peerbase : Peerbase) : Prop where
  host : peerbase.host = this.toHost
  leads : ∃ r, LeadsTo (hosts r).this peerbase.link.destAddr peerbase.inds peerbase.destAddr

structure Honest (hosts : ι → Config) (h : ι) (n : Node) : Prop where
  entries : ∀ entry ∈ n.imd.activeSenders, Owns (hosts h).this entry.destAddr
  senders : ∀ sender ∈ n.asFile, Owns (hosts h).this sender.destAddr
  bases : ∀ base ∈ n.icd.peerbases, HonestBase hosts base
  files : ∀ path peerbase, n.icd.files path = some peerbase →
    HonestFile hosts (hosts h).this peerbase

/-! ## The bases -/

theorem inds_sendCap {build : Build} {this : LocalHost} {sender : ActiveSender} {i : ℕ}
    (hi : i < 16) (h : (sendCap build this.toHost sender).inds.getLsbD i = true) :
    ∃ iface ∈ this.used, iface.ind.toNat = i := by
  have hany : (this.used.any fun iface => iface.ind.toNat == i) = true := by
    rw [← getLsbD_hostInds this.toHost hi]
    exact h
  obtain ⟨iface, hiface, heq⟩ := List.any_eq_true.1 hany
  exact ⟨iface, hiface, by simpa using heq⟩

theorem inds_indMatch {host : Host} {inds : IndBitmap} {i : ℕ}
    (h : (indMatch host inds).getLsbD i = true) : inds.getLsbD i = true := by
  rw [indMatch_eq, BitVec.getLsbD_and, Bool.and_eq_true] at h
  exact h.2

theorem honestBase_create {hosts : ι → Config} {c : Config} (hc : c.target.build = .unicast)
    {currTime : ℤ} {heap : Heap} {msg : CapMsg} {s : Control} {base : IcdBase}
    (hmsg : HonestCap hosts msg)
    (h : createBase c currTime heap msg (indMatch c.this.toHost msg.inds) s = some base) :
    HonestBase hosts base := by
  obtain ⟨r, sender, howns, rfl⟩ := hmsg
  obtain ⟨hlink, hinds, hdest, -⟩ := createBase_fields h
  have hwf := sendCap_wellFormed .unicast (hosts r).this sender
  obtain ⟨destAddr, hstore, hslots⟩ :=
    foldlM_storeAddr (hwf.ind_lt rfl) (hwf.ind_nodup rfl) heap.addrs
  have htable : base.destAddr = destAddr := by
    have hrun := hdest
    rw [hc, Build.ifUnicast, storeAddrs, if_pos (hwf.nbIfaces_le rfl), hstore] at hrun
    exact (Option.some.inj hrun).symm
  refine ⟨r, by rw [hlink]; exact howns, ?_, ?_⟩
  · intro i hi hbit
    rw [hinds] at hbit
    exact inds_sendCap hi (inds_indMatch hbit)
  · intro iface hiface
    rw [htable]
    exact (hslots iface.ind.toNat).1 iface hiface rfl

theorem honestBase_update {hosts : ι → Config}
    (hdistinct : ∀ r r' addr, Owns (hosts r).this addr → Owns (hosts r').this addr → r = r')
    (c : Config) (currTime : ℤ) {msg : CapMsg} {base : IcdBase} (hmsg : HonestCap hosts msg)
    (hkey : base.key = msg.key) (hbase : HonestBase hosts base) :
    HonestBase hosts (updateBase c currTime msg base) := by
  obtain ⟨r, sender, howns, rfl⟩ := hmsg
  obtain ⟨r', hleads⟩ := hbase
  have hdest : base.link.destAddr = sender.destAddr := congrArg FlowKey.destAddr hkey
  obtain rfl : r' = r := hdistinct r' r sender.destAddr (hdest ▸ hleads.owns) howns
  refine ⟨r', hleads.owns, ?_, hleads.table⟩
  intro i hi hbit
  rw [updateBase, BitVec.getLsbD_or, Bool.or_eq_true] at hbit
  rcases hbit with hold | hnew
  · exact hleads.inds i hi hold
  · exact inds_sendCap hi (inds_indMatch hnew)

theorem honestBases_handleCap {hosts : ι → Config}
    (hdistinct : ∀ r r' addr, Owns (hosts r).this addr → Owns (hosts r').this addr → r = r')
    {c : Config} (hc : c.target.build = .unicast) {currTime : ℤ} {heap : Heap} {msg : CapMsg}
    (hmsg : HonestCap hosts msg) {s s' : Control}
    (hs : ∀ base ∈ s.peerbases, HonestBase hosts base)
    (h : handleCap c currTime heap msg s = some s') :
    ∀ base ∈ s'.peerbases, HonestBase hosts base := by
  rcases handleCap_cases h with ⟨base, _, rfl⟩ | ⟨_, _, rfl⟩ | ⟨base, _, _, hbase, rfl⟩
  · rw [sendAck_peerbases]
    refine forall_mem_update hs fun base hbase => ?_
    exact honestBase_update hdistinct c currTime hmsg (key_of_lookup hbase)
      (hs base (mem_of_lookup hbase))
  · exact hs
  · rw [sendAck_peerbases]
    intro base' hbase'
    rcases List.mem_append.1 hbase' with hold | hnew
    · exact hs base' hold
    · rw [List.mem_singleton.1 hnew]
      exact honestBase_create hc hmsg hbase

/-! ## One host -/

variable {hosts : ι → Config} (hbuild : ∀ h, (hosts h).target.build = .unicast)

include hbuild

theorem controlStep_cap {h r r' : ι} {stack : ℕ → UInt8} {sender : ActiveSender}
    {bytes : List UInt8} (hbytes : bytes =
      capBytes (hosts r).target stack (sendCap .unicast (hosts r').this.toHost sender))
    {currTime : ℤ} {heap : Heap} {s s' : Control}
    (hstep : controlStep (hosts h) s ⟨currTime, heap, bytes⟩ = some s') :
    handleCap (hosts h) currTime heap (sendCap .unicast (hosts r').this.toHost sender) s =
      some s' ∨ s'.peerbases = s.peerbases ∧ s'.sent = s.sent := by
  cases hserving : s.serving with
  | false =>
      rw [controlStep, if_neg (by simp [hserving])] at hstep
      obtain rfl := Option.some.inj hstep
      exact Or.inr ⟨rfl, rfl⟩
  | true =>
      have hsendable : Sendable (hosts h).target.build
          (.cap (sendCap .unicast (hosts r').this.toHost sender)) := by
        rw [hbuild h]
        exact .cap (hosts r').this sender
      have htarget : (⟨(hosts h).target.build, (hosts r).target.order⟩ : Target) =
          (hosts r).target := by
        rw [hbuild h, ← hbuild r]
      have hbytes' : bytes = messageBytes ⟨(hosts h).target.build, (hosts r).target.order⟩
          stack (.cap (sendCap .unicast (hosts r').this.toHost sender)) := by
        rw [htarget, hbytes, messageBytes]
      rw [hbytes', controlStep_messageBytes hsendable stack currTime heap hserving] at hstep
      split at hstep
      · exact Or.inl hstep
      · obtain rfl := Option.some.inj hstep
        exact Or.inr ⟨rfl, rfl⟩

omit hbuild in
theorem handleCap_sent {c : Config} (hc : c.target.build = .unicast) {currTime : ℤ} {heap : Heap}
    {msg : CapMsg} {s s' : Control} (h : handleCap c currTime heap msg s = some s') :
    s'.sent = s.sent := by
  rcases handleCap_cases h with ⟨base, _, rfl⟩ | ⟨_, _, rfl⟩ | ⟨base, _, _, _, rfl⟩
  · simp [sendAck, hc]
  · rfl
  · simp [sendAck, hc]

theorem honestBases_receive
    (hdistinct : ∀ r r' addr, Owns (hosts r).this addr → Owns (hosts r').this addr → r = r')
    {h : ι} {currTime : ℤ} {heap : Heap} {d : Datagram} (hd : HonestDatagram hosts d)
    {s s' : Control} (hs : ∀ base ∈ s.peerbases, HonestBase hosts base)
    (hstep : controlStep (hosts h) s ⟨currTime, heap, d.bytes⟩ = some s') :
    (∀ base ∈ s'.peerbases, HonestBase hosts base) ∧ s'.sent = s.sent := by
  obtain ⟨r, stack, msg, hmsg, hbytes⟩ := hd
  obtain ⟨r', sender, howns, rfl⟩ := hmsg
  rcases controlStep_cap hbuild hbytes hstep with hhandle | ⟨hbases, hsent⟩
  · exact ⟨honestBases_handleCap hdistinct (hbuild h) ⟨r', sender, howns, rfl⟩ hs hhandle,
      handleCap_sent (hbuild h) hhandle⟩
  · rw [hbases]
    exact ⟨hs, hsent⟩

omit hbuild in
theorem honestEntries_imd {h : ι} {currTime : ℤ} {action : Imd.Action}
    (hhears : HearsOwn hosts ⟨h, currTime, .imd action⟩) {s s' : Imd.State}
    (hs : ∀ entry ∈ s.activeSenders, Owns (hosts h).this entry.destAddr)
    (hstep : Imd.step (hosts h).target s ⟨currTime, action⟩ = some s') :
    ∀ entry ∈ s'.activeSenders, Owns (hosts h).this entry.destAddr := by
  cases action with
  | packet iprpMessage packet =>
      obtain ⟨sender, hsender⟩ := packet.linkInformation_defined (hosts h).target.order
      have howns : Owns (hosts h).this sender.destAddr :=
        hhears iprpMessage packet sender rfl hsender
      rw [Imd.step_packet hsender] at hstep
      obtain rfl := Option.some.inj hstep
      dsimp only
      unfold Imd.recordSender Imd.activesendersFindEntry
      split
      · next entry hfound =>
          refine forall_mem_update hs fun entry' hentry' => ?_
          exact hs entry (mem_of_lookup hfound)
      · intro entry hentry
        rcases List.mem_append.1 hentry with hold | hnew
        · exact hs entry hold
        · rw [List.mem_singleton.1 hnew]
          exact howns
  | start =>
      obtain rfl := Option.some.inj hstep
      rw [Imd.cleanupStart_activeSenders]
      exact hs
  | iteration =>
      obtain rfl := Option.some.inj hstep
      cases hit : s.asIterator with
      | none =>
          rw [Imd.cleanupIteration, hit]
          exact hs
      | some i =>
          rw [Imd.cleanupIteration_some hit]
          intro entry hentry
          exact hs entry ((sweepStep_sublist _ _ i).subset hentry)

omit hbuild in
/-- Pushing a base keeps where it leads, and stores it with that. -/
theorem Honest.pbIteration {h : ι} {n : Node} (hn : Honest hosts h n) (currTime : ℤ) (pid : ℕ) :
    Honest hosts h { n with icd := Icd.pbIteration (hosts h) currTime pid n.icd } := by
  have hstored : ∀ base ∈ n.icd.peerbases, ∀ path peerbase,
      peerbaseStore (peerbasePath base.link.snsid)
        (createPeerbase (hosts h).this.toHost base) n.icd.files path = some peerbase →
      HonestFile hosts (hosts h).this peerbase := by
    intro base hbase path peerbase hpath
    rw [peerbaseStore, Function.update_apply] at hpath
    split at hpath
    · obtain rfl := Option.some.inj hpath
      exact ⟨rfl, hn.bases base hbase⟩
    · exact hn.files path peerbase hpath
  rcases pbIteration_cases (hosts h) currTime pid n.icd with ⟨heq, -⟩ |
    ⟨i, base, -, hbase, ⟨-, heq⟩ | ⟨-, -, heq⟩ | ⟨-, -, heq⟩⟩
  · rw [heq]
    exact ⟨hn.entries, hn.senders, hn.bases, hn.files⟩
  · rw [heq]
    exact ⟨hn.entries, hn.senders,
      fun base' hbase' => hn.bases base' (List.mem_of_mem_eraseIdx hbase'), hn.files⟩
  · rw [heq]
    exact ⟨hn.entries, hn.senders, hn.bases, hstored base (List.mem_of_getElem? hbase)⟩
  · rw [heq]
    refine ⟨hn.entries, hn.senders, ?_, hstored base (List.mem_of_getElem? hbase)⟩
    intro base' hbase'
    rcases List.mem_or_eq_of_mem_set hbase' with hold | rfl
    · exact hn.bases base' hold
    · exact hn.bases base (List.mem_of_getElem? hbase)

theorem Honest.step
    (hdistinct : ∀ r r' addr, Owns (hosts r).this addr → Owns (hosts r').this addr → r = r')
    {e : Event ι} (hhears : HearsOwn hosts e) {sent new : List Datagram}
    (hsent : ∀ d ∈ sent, HonestDatagram hosts d) {n n' : Node} (hn : Honest hosts e.host n)
    (hstep : nodeStep (hosts e.host) sent e.currTime e.action n = some (n', new)) :
    Honest hosts e.host n' ∧ ∀ d ∈ new, HonestDatagram hosts d := by
  obtain ⟨h, currTime, action⟩ := e
  cases action with
  | imd action =>
      obtain ⟨imd, himd, heq⟩ := Option.map_eq_some_iff.1 hstep
      obtain ⟨rfl, rfl⟩ := Prod.mk.inj heq
      exact ⟨⟨honestEntries_imd hhears hn.entries himd, hn.senders, hn.bases, hn.files⟩,
        List.forall_mem_nil _⟩
  | push senders =>
      rw [nodeStep] at hstep
      split at hstep
      · next hmem =>
          obtain ⟨rfl, rfl⟩ := Prod.mk.inj (Option.some.inj hstep)
          refine ⟨⟨hn.entries, ?_, hn.bases, hn.files⟩, List.forall_mem_nil _⟩
          intro sender hsender
          obtain ⟨entry, hentry, rfl⟩ := List.mem_map.1 (hmem sender hsender)
          exact hn.entries entry hentry
      · cases hstep
  | round stack =>
      rw [nodeStep, hbuild h, asRound_unicast] at hstep
      obtain ⟨rfl, rfl⟩ := Prod.mk.inj (Option.some.inj hstep)
      refine ⟨⟨hn.entries, hn.senders, hn.bases, hn.files⟩, ?_⟩
      intro d hd
      obtain ⟨cap, hcap, rfl⟩ := List.mem_map.1 hd
      obtain ⟨sender, hsender, rfl⟩ := List.mem_map.1 hcap
      exact ⟨h, stack, _, ⟨h, sender, hn.senders sender hsender, rfl⟩, rfl⟩
  | receive heap stack datagram =>
      rw [nodeStep] at hstep
      split at hstep
      · next hmem =>
          obtain ⟨control, hcontrol, heq⟩ := Option.map_eq_some_iff.1 hstep
          obtain ⟨hbases, hnosent⟩ := honestBases_receive hbuild hdistinct
            (hsent datagram hmem) hn.bases hcontrol
          rw [hnosent, List.drop_length] at heq
          obtain ⟨rfl, rfl⟩ := Prod.mk.inj heq
          exact ⟨⟨hn.entries, hn.senders, hbases, hn.files⟩, List.forall_mem_nil _⟩
      · cases hstep
  | pbStart =>
      obtain ⟨rfl, rfl⟩ := Prod.mk.inj (Option.some.inj hstep)
      obtain ⟨iterator, heq⟩ := pbStart_eq n.icd
      rw [heq]
      exact ⟨⟨hn.entries, hn.senders, hn.bases, hn.files⟩, List.forall_mem_nil _⟩
  | pbIteration pid =>
      obtain ⟨rfl, rfl⟩ := Prod.mk.inj (Option.some.inj hstep)
      exact ⟨hn.pbIteration currTime pid, List.forall_mem_nil _⟩
  | siStart =>
      rw [nodeStep, hbuild h] at hstep
      cases hstep
  | siIteration =>
      rw [nodeStep, hbuild h] at hstep
      cases hstep

end

/-- What is sent for a peerbase goes out on interfaces of the host, each copy to the interface
with the same IND of the owner of its destination address. -/
def ReachesOwner {ι : Type*} (hosts : ι → Config) (h : ι) (peerbase : Peerbase) : Prop :=
  ∃ r, Owns (hosts r).this peerbase.link.destAddr ∧
    ∀ heap currTime sendto buf st out st',
      Isd.handlePacket (hosts h).target peerbase heap currTime sendto buf st =
        some (out, st') →
      ∀ copy ∈ out.copies, (∃ iface ∈ (hosts h).this.used, iface.ind = copy.ind) ∧
        ∃ iface ∈ (hosts r).this.used, iface.ind = copy.ind ∧
          copy.destAddr = ⟨iface.addr, iprpDataPort⟩

theorem HonestFile.reaches {ι : Type*} {hosts : ι → Config} {h : ι}
    (hbuild : (hosts h).target.build = .unicast) {peerbase : Peerbase}
    (hfile : HonestFile hosts (hosts h).this peerbase) : ReachesOwner hosts h peerbase := by
  obtain ⟨r, hleads⟩ := hfile.leads
  refine ⟨r, hleads.owns, ?_⟩
  intro heap currTime sendto buf st out st' hhandle copy hcopy
  obtain ⟨alive, hcopies⟩ := Isd.handlePacket_copies hhandle
  obtain ⟨iface, hiface, addr, hbit, haddr, rfl⟩ := Isd.mem_sendCopies hcopies copy hcopy
  rw [hfile.host] at hiface
  refine ⟨⟨iface, hiface, rfl⟩, ?_⟩
  have hlt : iface.ind.toNat < 16 := by
    by_contra hge
    rw [BitVec.getLsbD_of_ge _ _ (not_lt.1 hge)] at hbit
    cases hbit
  obtain ⟨iface', hiface', hind⟩ := hleads.inds iface.ind.toNat hlt hbit
  have hslot := hleads.table iface' hiface'
  rw [hind] at hslot
  unfold Isd.copyAddr at haddr
  rw [hbuild] at haddr
  have hsame : iface'.addr = addr := Option.some.inj (hslot.symm.trans haddr)
  exact ⟨iface', hiface', UInt8.toNat_inj.1 hind, by rw [hsame]; rfl⟩

theorem honest_init {ι : Type*} (hosts : ι → Config) (h : ι) : Honest hosts h Node.init :=
  ⟨nofun, nofun, nofun, nofun⟩

/-- In every run of any number of hosts with the unicast build, whatever the network does to the
control datagrams: every file that a host has stored for an ISD reaches the owner of its
destination address over the networks that both are on. -/
theorem copies_reach_owner {ι : Type*} [DecidableEq ι] (hosts : ι → Config)
    (hbuild : ∀ h, (hosts h).target.build = .unicast)
    (hdistinct : ∀ r r' addr, Owns (hosts r).this addr → Owns (hosts r').this addr → r = r')
    {es : List (Event ι)} (hhears : ∀ e ∈ es, HearsOwn hosts e) {s : State ι}
    (h : run hosts es = some s) (host : ι) :
    ∀ path peerbase, (s.node host).icd.files path = some peerbase →
      ReachesOwner hosts host peerbase := by
  have hinv := run_invariant (honest_init hosts) (fun e he _ _ _ _ hsent hn hstep =>
    hn.step hbuild hdistinct (hhears e he) hsent hstep) h
  intro path peerbase hpath
  exact ((hinv.1 host).files path peerbase hpath).reaches (hbuild host)

/-! A sender and a receiver on the same two networks. -/

def farIfaces : Vector Iface 16 :=
  (Vector.replicate 16 ⟨0, inAddr 0 0 0 0⟩).setIfInBounds 0 ⟨0, inAddr 10 0 0 2⟩
    |>.setIfInBounds 1 ⟨1, inAddr 10 1 0 2⟩

theorem farIfaces_ind (i : ℕ) (hi : i < 16) (hlt : i < smallHost.nbIfaces) :
    farIfaces[i].ind.toNat = i := by
  have htwo : i < 2 := hlt
  obtain rfl | rfl : i = 0 ∨ i = 1 := by omega
  · rfl
  · rfl

def farHost : LocalHost := { smallHost with ifaces := farIfaces, ind_eq := farIfaces_ind }

def twoHosts (h : Bool) : Config :=
  ⟨⟨.unicast, .little⟩, if h then farHost else smallHost, fun t k => t.toNat + k⟩

/-- An empty datagram from `10.0.0.1:4000` to `10.0.0.2:5000`. -/
def farPacket : Imd.QueuedPacket :=
  ⟨List.replicate 12 0 ++ [10, 0, 0, 1, 10, 0, 0, 2, 0x0f, 0xa0, 0x13, 0x88, 0, 8, 0, 0],
    by decide⟩

def farSender : ActiveSender := ⟨inAddr 10 0 0 1, inAddr 10 0 0 2, 4000, 5000⟩

/-- The receiver hears the sender and announces itself, and the sender makes a base of the
CAP and pushes it. -/
def opening : List (Event Bool) :=
  [⟨true, 0, .imd (.packet false farPacket)⟩, ⟨true, 1, .push [farSender]⟩,
    ⟨true, 2, .round fun _ => 0⟩,
    ⟨false, 2, .receive smallHeap (fun _ => 0)
      (capDatagram ⟨.unicast, .little⟩ (fun _ => 0) (capTo .unicast farHost.toHost farSender))⟩,
    ⟨false, 3, .pbStart⟩, ⟨false, 3, .pbIteration 77⟩]

theorem twoHosts_distinct : ∀ r r' addr, Owns (twoHosts r).this addr →
    Owns (twoHosts r').this addr → r = r' := by
  rintro r r' addr ⟨iface, hiface, rfl⟩ ⟨iface', hiface', heq⟩
  have hapart : ∀ i ∈ (twoHosts r).this.used, ∀ i' ∈ (twoHosts r').this.used,
      i'.addr = i.addr → r = r' := by
    cases r <;> cases r' <;> decide
  exact hapart iface hiface iface' hiface' heq

theorem opening_hearsOwn : ∀ e ∈ opening, HearsOwn twoHosts e := by
  intro e he iprpMessage packet sender haction hsender
  have hpacket : e = ⟨true, 0, .imd (.packet false farPacket)⟩ := by
    simp only [opening, List.mem_cons, List.not_mem_nil, or_false] at he
    rcases he with rfl | rfl | rfl | rfl | rfl | rfl
    · rfl
    · cases haction
    · cases haction
    · cases haction
    · cases haction
    · cases haction
  subst hpacket
  cases haction
  obtain rfl : farSender = sender :=
    Option.some.inj (show some farSender = some sender from hsender)
  exact ⟨⟨0, inAddr 10 0 0 2⟩, by decide, rfl⟩

theorem copies_reach_owner_opening :
    ∃ s path peerbase, run twoHosts opening = some s ∧
      (s.node false).icd.files path = some peerbase ∧
      peerbase.link.destAddr = inAddr 10 0 0 2 ∧ peerbase.inds = 3 ∧
      ReachesOwner twoHosts false peerbase := by
  have hfile : (run twoHosts opening).bind (fun s => (s.node false).icd.peerbases.head?.bind
      fun base => ((s.node false).icd.files (peerbasePath base.link.snsid)).map fun peerbase =>
        (peerbase.link.destAddr, peerbase.inds)) = some (inAddr 10 0 0 2, 3) := by
    decide +kernel
  obtain ⟨s, hs, hbase⟩ := Option.bind_eq_some_iff.1 hfile
  obtain ⟨base, -, hbase⟩ := Option.bind_eq_some_iff.1 hbase
  obtain ⟨peerbase, hpath, hfields⟩ := Option.map_eq_some_iff.1 hbase
  obtain ⟨hdest, hinds⟩ := Prod.mk.inj hfields
  exact ⟨s, _, peerbase, hs, hpath, hdest, hinds, copies_reach_owner twoHosts
    (fun h => by cases h <;> rfl) twoHosts_distinct opening_hearsOwn hs false _ peerbase hpath⟩

end Iprp.Hosts
