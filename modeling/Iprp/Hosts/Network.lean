import Iprp.Icd.Acks
import Iprp.Icd.Exchange
import Iprp.Icd.Peerbase
import Iprp.Snapshots

/-!
# Hosts on a network

All hosts together, each with its IMD and its ICD, and the control datagrams between them. The
IMD of a host records the senders of its packets and pushes them to a file, the ICD announces
the host to the senders in the file, and the ICD of a sender makes bases of the CAPs and sends
ACKs.

The network can lose, delay, repeat and misdirect a datagram, but it makes none up: a host
receives anything that has been sent to a control port, at any time.

What `as_routine` of the IMD stores are senders of its list (`push_snapshot`). It is assumed that
every load of the active senders file gives what some store has written: a load beside a store can
give other senders (see `Iprp.Files`), and is left out here.
-/

namespace Iprp.Hosts

open Icd

/-- A host, with the cursor of the ICD's `count_and_cleanup`. -/
structure Node where
  imd : Imd.State
  /-- The active senders file. -/
  asFile : List ActiveSender
  icd : Icd.State
  siIterator : Option ℕ

def Node.init : Node := ⟨Imd.State.init, [], Icd.State.init, none⟩

/-- A datagram that was sent to a control port. -/
structure Datagram where
  destination : SockAddr
  bytes : List UInt8
  deriving DecidableEq

inductive Action where
  | imd (action : Imd.Action)
  /-- `as_routine` of the IMD stores the active senders. -/
  | push (senders : List ActiveSender)
  /-- A round of `as_routine` of the ICD. -/
  | round (stack : ℕ → UInt8)
  | receive (heap : Heap) (stack : ℕ → UInt8) (datagram : Datagram)
  | pbStart
  | pbIteration (pid : ℕ)
  | siStart
  | siIteration

structure Event (ι : Type*) where
  host : ι
  currTime : ℤ
  action : Action

structure State (ι : Type*) where
  node : ι → Node
  /-- What has been sent so far. -/
  sent : List Datagram

def State.init (ι : Type*) : State ι := ⟨fun _ => Node.init, []⟩

def Node.setControl (n : Node) (control : Control) : Node :=
  { n with icd := { n.icd with toControl := control } }

/-- A step of `si_routine`, which only the multicast build has. -/
def Node.si (build : Build) (f : SiState → SiState) (n : Node) : Option Node :=
  match build with
  | .unicast => none
  | .multicast =>
      let si := f ⟨n.icd.toControl, n.siIterator⟩
      some { n.setControl si.toControl with siIterator := si.siIterator }

def capDatagram (t : Target) (stack : ℕ → UInt8) (cap : SentCap) : Datagram :=
  ⟨cap.destination, capBytes t stack cap.msg⟩

def ackDatagram (t : Target) (stack : ℕ → UInt8) (ack : Sent) : Datagram :=
  ⟨ack.destination, ackBytes t.order stack ack.msg⟩

/-- A step of one host: its state after it and the datagrams that it sends. -/
def nodeStep (c : Config) (sent : List Datagram) (currTime : ℤ) (a : Action) (n : Node) :
    Option (Node × List Datagram) :=
  match a with
  | .imd action =>
      (Imd.step c.target n.imd ⟨currTime, action⟩).map fun imd => ({ n with imd := imd }, [])
  | .push senders =>
      if ∀ sender ∈ senders, sender ∈ n.imd.activeSenders.map Imd.Entry.key then
        some ({ n with asFile := senders }, [])
      else none
  | .round stack =>
      let (caps, control) :=
        asRound c.target.build c.this.toHost currTime n.asFile n.icd.toControl
      some (n.setControl control, caps.map (capDatagram c.target stack))
  | .receive heap stack datagram =>
      if datagram ∈ sent then
        (controlStep c n.icd.toControl ⟨currTime, heap, datagram.bytes⟩).map fun control =>
          (n.setControl control,
            (control.sent.drop n.icd.sent.length).map (ackDatagram c.target stack))
      else none
  | .pbStart => some ({ n with icd := Icd.pbStart n.icd }, [])
  | .pbIteration pid => some ({ n with icd := Icd.pbIteration c currTime pid n.icd }, [])
  | .siStart => (n.si c.target.build Icd.siStart).map fun n => (n, [])
  | .siIteration => (n.si c.target.build (Icd.siIteration currTime)).map fun n => (n, [])

/-- The array that `count_and_cleanup` and `get_entries` of the IMD have filled can be stored. -/
theorem push_snapshot (c : Config) (sent : List Datagram) (currTime : ℤ) {n : Node}
    {store : List Imd.Entry} {es : List (Snapshot.Event ℤ (Bool × Imd.QueuedPacket))}
    {s : Snapshot.State (Imd.activeSendersCache c.target)}
    (hs : Snapshot.run (Imd.activeSendersCache c.target) store es = some s)
    {entries : List Imd.Entry} (hdone : s.phase = .done entries)
    (hlist : n.imd.activeSenders = s.store) :
    nodeStep c sent currTime (.push (entries.map Imd.Entry.key)) n =
      some ({ n with asFile := entries.map Imd.Entry.key }, []) := by
  have hinv := Snapshot.invariant_run hs
  have hsenders : ∀ sender ∈ entries.map Imd.Entry.key,
      sender ∈ n.imd.activeSenders.map Imd.Entry.key := by
    intro sender hsender
    rw [hlist]
    exact (hinv.array_prefix hdone).subset hsender
  rw [nodeStep, if_pos hsenders]

section

variable {ι : Type*} [DecidableEq ι]

def step (hosts : ι → Config) (s : State ι) (e : Event ι) : Option (State ι) :=
  (nodeStep (hosts e.host) s.sent e.currTime e.action (s.node e.host)).map fun r =>
    ⟨Function.update s.node e.host r.1, s.sent ++ r.2⟩

def run (hosts : ι → Config) (es : List (Event ι)) : Option (State ι) :=
  Run.runFrom (step hosts) (State.init ι) es

/-- What holds of every host and of every datagram, and is kept by the steps of a host, holds in
every reachable state. -/
theorem run_invariant {hosts : ι → Config} {P : ι → Node → Prop} {Q : Datagram → Prop}
    {es : List (Event ι)} (hinit : ∀ h, P h Node.init)
    (hstep : ∀ e ∈ es, ∀ sent n n' new, (∀ d ∈ sent, Q d) → P e.host n →
      nodeStep (hosts e.host) sent e.currTime e.action n = some (n', new) →
      P e.host n' ∧ ∀ d ∈ new, Q d)
    {s : State ι} (h : run hosts es = some s) : (∀ h, P h (s.node h)) ∧ ∀ d ∈ s.sent, Q d := by
  refine Run.runFrom_invariant (fun s : State ι => (∀ h, P h (s.node h)) ∧ ∀ d ∈ s.sent, Q d)
    (· ∈ es) ?_ ⟨hinit, List.forall_mem_nil Q⟩ (fun _ he => he) h
  rintro s e s' ⟨hnodes, hsent⟩ he hse
  obtain ⟨⟨n', new⟩, hn, rfl⟩ := Option.map_eq_some_iff.1 hse
  obtain ⟨hnode, hnew⟩ := hstep e he s.sent (s.node e.host) n' new hsent (hnodes e.host) hn
  constructor
  · intro h'
    by_cases hh : h' = e.host
    · subst hh
      simpa using hnode
    · simpa [hh] using hnodes h'
  · intro d hd
    rcases List.mem_append.1 hd with hold | hfresh
    · exact hsent d hold
    · exact hnew d hfresh

end

end Iprp.Hosts
