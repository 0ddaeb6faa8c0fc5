import Iprp.Library.Run
import Mathlib.Data.Int.Notation

/-!
# NFQueue functions

`src/lib/nfqueue.c` with the loop around it that the threads of the IMD, the IRD and the ISD
share: `get_and_handle` receives one message of the kernel into a buffer and hands it to the
library, which calls the packet handler back. A run over the events of such a thread records
the packets taken off the queue and the calls of `nfq_set_verdict`.

The library is a parameter with what its documentation promises. A packet handler is a
parameter as well; `GivesVerdict` is what the loop needs of it.
-/

namespace Iprp.Nfqueue

def iprpPktbufSize : ℕ := 4096

/-- The copy range that `queue_setup` sets. -/
def copyRange : ℕ := 0xffff

def iprpErr : ℤ := 1

def iprpErrUnknown : ℤ := 4

def iprpErrEmpty : ℤ := 5

/-- A packet that the kernel has put into the queue. Its message consists of the payload and
of `overhead` more bytes, the netlink headers and the other attributes. -/
structure Packet where
  packetId : UInt32
  bytes : List UInt8
  overhead : ℕ
  length_le : bytes.length ≤ 65535
  overhead_pos : 0 < overhead

def Packet.payload (p : Packet) : List UInt8 := p.bytes.take copyRange

def Packet.messageLength (p : Packet) : ℕ := p.overhead + p.payload.length

/-- A call of `nfq_set_verdict`. -/
structure VerdictCall (ν : Type) where
  packetId : UInt32
  verdict : ν

/-- What a packet handler leaves: its state, the verdicts it has set, and whether the daemon
goes on. -/
structure Called (σ ν : Type) where
  state : σ
  verdicts : List (VerdictCall ν)
  alive : Bool

/-- The thread of a daemon: the state of its handler, the packets taken off the queue, the
verdicts set and whether the daemon is running. -/
structure Daemon (σ ν : Type) where
  state : σ
  taken : List Packet
  verdicts : List (VerdictCall ν)
  alive : Bool

def Daemon.init {σ ν : Type} (state : σ) : Daemon σ ν := ⟨state, [], [], true⟩

/-- The packets taken off the queue that still wait for their verdict. -/
def Daemon.awaiting {σ ν : Type} (d : Daemon σ ν) : ℕ := d.taken.length - d.verdicts.length

/-- `nfq_handle_packet` on the first `bytes` bytes of the message of a packet. -/
structure NfqLibrary where
  handlePacket : {α : Type} → (Packet → α → Option (ℤ × α)) → Packet → ℕ → α →
    Option (ℤ × α)
  /-- A message that is longer than what was received is refused. -/
  truncated : ∀ {α : Type} (callback : Packet → α → Option (ℤ × α)) (p : Packet) (bytes : ℕ)
    (a : α), bytes < p.messageLength → handlePacket callback p bytes a = some (-1, a)
  /-- The callback is invoked on the packet of a whole message. -/
  whole : ∀ {α : Type} (callback : Packet → α → Option (ℤ × α)) (p : Packet) (a : α),
    handlePacket callback p p.messageLength a = callback p a

/-- The library as a test for the length of the message. -/
def NfqLibrary.checking : NfqLibrary where
  handlePacket callback p bytes a :=
    if bytes < p.messageLength then some (-1, a) else callback p a
  truncated _ _ _ _ h := if_pos h
  whole _ _ _ := if_neg (Nat.lt_irrefl _)

/-- An event of the thread: how `recv` ends, or a change of the handler's state by the other
threads of the daemon. The input of a message is what the handler finds besides its state. -/
inductive Event (ι σ : Type) where
  | failed (noBufs : Bool)
  | empty
  | message (p : Packet) (input : ι)
  | others (state : σ)

/-- The packet taken off the queue in an event. -/
def Event.packets {ι σ : Type} : Event ι σ → List Packet
  | .message p _ => [p]
  | _ => []

section Loop

variable {ι σ ν : Type} (lib : NfqLibrary) (handler : ι → Packet → σ → Option (Called σ ν))

/-- The callback: the handler on the state of the daemon. -/
def callback (input : ι) (p : Packet) (d : Daemon σ ν) : Option (ℤ × Daemon σ ν) :=
  (handler input p d.state).map fun out =>
    (0, { d with
      state := out.state
      verdicts := d.verdicts ++ out.verdicts
      alive := out.alive })

/-- The number of bytes that `recv` puts into the buffer. -/
def recv (p : Packet) : ℕ := min p.messageLength iprpPktbufSize

/-- Handles the next packet from the queue. The result of `nfq_handle_packet` is looked at but
nothing depends on it. -/
def getAndHandle (d : Daemon σ ν) : Event ι σ → Option (ℤ × Daemon σ ν)
  | .failed noBufs => some (if noBufs then iprpErrUnknown else iprpErr, d)
  | .empty => some (iprpErrEmpty, d)
  | .message p input =>
      (lib.handlePacket (callback handler input) p (recv p)
        { d with taken := d.taken ++ [p] }).map fun (_, d') => (0, d')
  | .others state => some (0, { d with state := state })

/-- One round of the loop of `handle_routine`. -/
def handleIteration (d : Daemon σ ν) (e : Event ι σ) : Option (Daemon σ ν) :=
  if d.alive then
    (getAndHandle lib handler d e).map fun (err, d') =>
      { d' with alive := d'.alive && err != iprpErr }
  else some d

def run (state : σ) (es : List (Event ι σ)) : Option (Daemon σ ν) :=
  Run.runFrom (handleIteration lib handler) (Daemon.init state) es

/-! ## The messages that fit -/

/-- The whole message of the packet fits into the buffer. -/
def Packet.fits (p : Packet) : Bool := p.messageLength ≤ iprpPktbufSize

/-- A handler that does not end the daemon has set the verdict of its packet, and no other. -/
def GivesVerdict : Prop :=
  ∀ input p state out, handler input p state = some out → out.alive = true →
    out.verdicts.map VerdictCall.packetId = [p.packetId]

theorem recv_lt_iff (p : Packet) : recv p < p.messageLength ↔ p.fits = false := by
  rw [Packet.fits, decide_eq_false_iff_not, recv]
  omega

theorem recv_of_fits {p : Packet} (h : p.fits = true) : recv p = p.messageLength :=
  Nat.min_eq_left (of_decide_eq_true h)

variable {lib handler}

theorem getAndHandle_truncated (d : Daemon σ ν) {p : Packet} (hfits : p.fits = false)
    (input : ι) :
    getAndHandle lib handler d (.message p input) =
      some (0, { d with taken := d.taken ++ [p] }) := by
  rw [getAndHandle, lib.truncated _ p _ _ ((recv_lt_iff p).2 hfits), Option.map_some]

theorem getAndHandle_spec (hgives : GivesVerdict handler) {d d' : Daemon σ ν} {e : Event ι σ}
    {err : ℤ} (h : getAndHandle lib handler d e = some (err, d')) (halive : d'.alive = true) :
    d'.taken = d.taken ++ e.packets ∧
      d'.verdicts.map VerdictCall.packetId =
        d.verdicts.map VerdictCall.packetId ++
          (e.packets.filter Packet.fits).map Packet.packetId := by
  cases e with
  | failed noBufs =>
      obtain ⟨-, rfl⟩ := Prod.mk.inj (Option.some.inj h)
      exact ⟨(List.append_nil _).symm, (List.append_nil _).symm⟩
  | empty =>
      obtain ⟨-, rfl⟩ := Prod.mk.inj (Option.some.inj h)
      exact ⟨(List.append_nil _).symm, (List.append_nil _).symm⟩
  | others state =>
      obtain ⟨-, rfl⟩ := Prod.mk.inj (Option.some.inj h)
      exact ⟨(List.append_nil _).symm, (List.append_nil _).symm⟩
  | message p input =>
      rw [Event.packets]
      cases hfits : p.fits with
      | true =>
          obtain ⟨⟨err', d₁⟩, hlib, hpair⟩ := Option.map_eq_some_iff.1 h
          obtain ⟨-, rfl⟩ := Prod.mk.inj hpair
          rw [recv_of_fits hfits, lib.whole] at hlib
          obtain ⟨out, hout, hd₁⟩ := Option.map_eq_some_iff.1 hlib
          obtain ⟨-, rfl⟩ := Prod.mk.inj hd₁
          refine ⟨rfl, ?_⟩
          rw [List.filter_cons_of_pos hfits, List.filter_nil, List.map_append,
            hgives input p d.state out hout halive]
          rfl
      | false =>
          rw [getAndHandle_truncated d hfits] at h
          obtain ⟨-, rfl⟩ := Prod.mk.inj (Option.some.inj h)
          refine ⟨rfl, ?_⟩
          rw [List.filter_cons_of_neg (by simp [hfits]), List.filter_nil, List.map_nil,
            List.append_nil]

theorem handleIteration_spec (hgives : GivesVerdict handler) {d d' : Daemon σ ν}
    {e : Event ι σ} (h : handleIteration lib handler d e = some d')
    (halive : d'.alive = true) :
    d.alive = true ∧ d'.taken = d.taken ++ e.packets ∧
      d'.verdicts.map VerdictCall.packetId =
        d.verdicts.map VerdictCall.packetId ++
          (e.packets.filter Packet.fits).map Packet.packetId := by
  unfold handleIteration at h
  split at h
  · next hd =>
      obtain ⟨⟨err, d₁⟩, hget, rfl⟩ := Option.map_eq_some_iff.1 h
      have halive₁ : d₁.alive = true := (Bool.and_eq_true_iff.1 halive).1
      obtain ⟨htaken, hverdicts⟩ := getAndHandle_spec hgives hget halive₁
      exact ⟨hd, htaken, hverdicts⟩
  · next hd =>
      obtain rfl := Option.some.inj h
      exact absurd halive hd

theorem run_truncated (lib : NfqLibrary) (handler : ι → Packet → σ → Option (Called σ ν))
    (state : σ) {p : Packet} (hfits : p.fits = false) (input : ι) :
    run lib handler state [.message p input] = some ⟨state, [p], [], true⟩ := by
  unfold run
  rw [Run.runFrom_singleton, handleIteration, Daemon.init, if_pos rfl,
    getAndHandle_truncated _ hfits]
  rfl

/-- As long as the daemon goes on, the packets with a verdict are those that fit. -/
theorem verdicts_run (hgives : GivesVerdict handler) {state : σ} {es : List (Event ι σ)}
    {d : Daemon σ ν} (h : run lib handler state es = some d) (halive : d.alive = true) :
    d.taken = es.flatMap Event.packets ∧
      d.verdicts.map VerdictCall.packetId =
        (d.taken.filter Packet.fits).map Packet.packetId := by
  have htaken := Run.runFrom_log (fun d : Daemon σ ν => d.alive = true) Daemon.taken
    Event.packets (fun d e d' hstep hd' =>
      let hspec := handleIteration_spec hgives hstep hd'
      ⟨hspec.1, hspec.2.1⟩) h halive
  have hverdicts := Run.runFrom_log (fun d : Daemon σ ν => d.alive = true)
    (fun d => d.verdicts.map VerdictCall.packetId)
    (fun e => (e.packets.filter Packet.fits).map Packet.packetId)
    (fun d e d' hstep hd' =>
      let hspec := handleIteration_spec hgives hstep hd'
      ⟨hspec.1, hspec.2.2⟩) h halive
  rw [Daemon.init, List.nil_append] at htaken
  refine ⟨htaken, ?_⟩
  rw [hverdicts, htaken, List.filter_flatMap, List.map_flatMap]
  rfl

/-- Every packet taken off the queue has got its verdict exactly when all of them fit. -/
theorem verdicts_eq_iff (hgives : GivesVerdict handler) {state : σ} {es : List (Event ι σ)}
    {d : Daemon σ ν} (h : run lib handler state es = some d) (halive : d.alive = true) :
    d.verdicts.map VerdictCall.packetId = d.taken.map Packet.packetId ↔
      ∀ p ∈ d.taken, p.fits = true := by
  rw [(verdicts_run hgives h halive).2]
  constructor
  · intro heq
    have hlength := congrArg List.length heq
    rw [List.length_map, List.length_map] at hlength
    exact List.length_filter_eq_length_iff.1 hlength
  · intro hall
    rw [List.filter_eq_self.2 hall]

end Loop

end Iprp.Nfqueue
