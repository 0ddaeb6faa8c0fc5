import Iprp.Imd.Handle
import Iprp.Ird.Handle
import Iprp.Isd.Handle
import Iprp.Nfqueue

/-!
# Every packet gets its verdict

The packet handlers of the three daemons as callbacks of the queue: `global_handle` of the
IMD, which serves two queues, `handle_packet` of the IRD and `handle_packet` of the ISD with
its `create_iprp_packet`. Each of them fetches the payload, does its own work, fetches the
header and sets one verdict, and a failing call ends the daemon.

The buffer of `get_and_handle` is smaller than the copy range of the queue, so a packet whose
message does not fit never reaches its handler. It keeps its place in the queue
(`verdicts_iff`).
-/

namespace Iprp.Session

open Nfqueue

/-- Whether the calls that a handler makes succeed. -/
structure Calls where
  payload : Bool
  memory : Bool
  header : Bool
  setVerdict : Bool

/-- What the work of a handler leaves: its state, the verdict it has chosen and whether the
daemon goes on after the verdict. -/
structure Work (σ ν : Type) where
  state : σ
  verdict : ν
  alive : Bool

/-- A handler around its work on the payload. `allocates` tells whether it calls `malloc`. -/
def withVerdict {σ ν : Type} (calls : Calls) (allocates : Bool)
    (work : List UInt8 → σ → Option (Work σ ν)) (p : Packet) (state : σ) :
    Option (Called σ ν) :=
  if !calls.payload || (allocates && !calls.memory) then
    some ⟨state, [], false⟩
  else
    (work p.payload state).map fun out =>
      if calls.header && calls.setVerdict then
        ⟨out.state, [⟨p.packetId, out.verdict⟩], out.alive⟩
      else
        ⟨out.state, [], false⟩

structure Input where
  currTime : ℤ
  calls : Calls

/-- What the handler of the ISD finds besides its own state. -/
structure IsdInput extends Input where
  base : Peerbase
  heap : ℕ → UInt8
  sendto : ℕ → Bool

/-- `global_handle`, which allocates an entry for a sender that it does not know. -/
def globalHandle (t : Target) (iprpMessage : Bool) (input : Input) (p : Packet)
    (activeSenders : List Imd.Entry) : Option (Called (List Imd.Entry) Imd.NfVerdict) :=
  let allocates := (Imd.linkInformation t.order p.payload).any fun sender =>
    (Imd.activesendersFindEntry sender activeSenders).isNone
  withVerdict input.calls allocates (fun buf activeSenders =>
    (Imd.globalHandle t input.currTime iprpMessage buf activeSenders).map fun out =>
      ⟨out.activeSenders, out.verdict, true⟩) p activeSenders

/-- `handle_packet` of the IRD, which allocates a link for an SNSID that it does not know. -/
def irdHandlePacket (t : Target) (imdQueueId : ℕ) (input : Input) (p : Packet)
    (receiverLinks : List Ird.ReceiverLink) :
    Option (Called (List Ird.ReceiverLink) Ird.NfVerdict) :=
  let allocates := (readHeader t p.payload (ipHeaderSize + udpHeaderSize)).any fun header =>
    (Ird.receiverLinkGet receiverLinks header).isNone
  withVerdict input.calls allocates (fun buf receiverLinks =>
    (Ird.handlePacket t imdQueueId input.currTime buf receiverLinks).map
      fun (verdict, receiverLinks') => ⟨receiverLinks', verdict, true⟩) p receiverLinks

/-- `handle_packet` of the ISD. It allocates the new packet, and sends its copies after the
verdict. -/
def isdHandlePacket (t : Target) (input : IsdInput) (p : Packet) (s : Isd.State) :
    Option (Called Isd.State Isd.OriginalVerdict) :=
  withVerdict input.calls true (fun buf s =>
    (Isd.handlePacket t input.base input.heap input.currTime input.sendto buf s).map
      fun (out, s') => ⟨s', out.verdict, out.alive⟩) p s

/-- The packet handlers of the daemons. -/
inductive Handler where
  | imd (iprpMessage : Bool)
  | ird (imdQueueId : ℕ)
  | isd

namespace Handler

def State : Handler → Type
  | .imd _ => List Imd.Entry
  | .ird _ => List Ird.ReceiverLink
  | .isd => Isd.State

def Verdict : Handler → Type
  | .imd _ => Imd.NfVerdict
  | .ird _ => Ird.NfVerdict
  | .isd => Isd.OriginalVerdict

def Input : Handler → Type
  | .imd _ => Session.Input
  | .ird _ => Session.Input
  | .isd => IsdInput

def handlePacket (t : Target) : (h : Handler) → h.Input → Packet → h.State →
    Option (Called h.State h.Verdict)
  | .imd iprpMessage => globalHandle t iprpMessage
  | .ird imdQueueId => irdHandlePacket t imdQueueId
  | .isd => isdHandlePacket t

end Handler

/-- A handler that does not end the daemon has set exactly one verdict. -/
theorem withVerdict_verdicts {σ ν : Type} {calls : Calls} {allocates : Bool}
    {work : List UInt8 → σ → Option (Work σ ν)} {p : Packet} {state : σ} {out : Called σ ν}
    (h : withVerdict calls allocates work p state = some out) (halive : out.alive = true) :
    out.verdicts.map VerdictCall.packetId = [p.packetId] := by
  unfold withVerdict at h
  split at h
  · obtain rfl := Option.some.inj h
    cases halive
  · obtain ⟨w, -, hout⟩ := Option.map_eq_some_iff.1 h
    split at hout
    · obtain rfl := hout
      rfl
    · obtain rfl := hout
      cases halive

theorem givesVerdict (t : Target) (h : Handler) : GivesVerdict (h.handlePacket t) := by
  intro input p state out hout halive
  cases h with
  | imd iprpMessage =>
      simp only [Handler.handlePacket, globalHandle] at hout
      exact withVerdict_verdicts hout halive
  | ird imdQueueId =>
      simp only [Handler.handlePacket, irdHandlePacket] at hout
      exact withVerdict_verdicts hout halive
  | isd =>
      simp only [Handler.handlePacket, isdHandlePacket] at hout
      exact withVerdict_verdicts hout halive

/-- In every run of a daemon that has not exited: each packet taken off the queue has got
exactly one verdict, and none waits, if and only if the message of each of them fits into the
buffer. -/
theorem verdicts_iff (lib : NfqLibrary) (t : Target) (h : Handler) {state : h.State}
    {es : List (Event h.Input h.State)} {d : Nfqueue.Daemon h.State h.Verdict}
    (hrun : Nfqueue.run lib (h.handlePacket t) state es = some d) (halive : d.alive = true) :
    (d.verdicts.map VerdictCall.packetId = (es.flatMap Event.packets).map Packet.packetId ∧
        d.awaiting = 0) ↔
      ∀ p ∈ es.flatMap Event.packets, p.messageLength ≤ iprpPktbufSize := by
  have hgives := givesVerdict t h
  obtain ⟨htaken, -⟩ := verdicts_run hgives hrun halive
  have hiff := verdicts_eq_iff hgives hrun halive
  have hfits : (∀ p ∈ d.taken, p.fits = true) ↔
      ∀ p ∈ d.taken, p.messageLength ≤ iprpPktbufSize :=
    forall₂_congr fun p _ => decide_eq_true_iff
  rw [← htaken, ← hfits, ← hiff]
  constructor
  · exact And.left
  · intro hids
    refine ⟨hids, ?_⟩
    have hlength := congrArg List.length hids
    rw [List.length_map, List.length_map] at hlength
    rw [Nfqueue.Daemon.awaiting, hlength, Nat.sub_self]

/-- Calls that all succeed. -/
def allSucceed : Calls := ⟨true, true, true, true⟩

/-- A packet of zeros. -/
def zeroPacket (packetId : UInt32) (n : ℕ) (h : n ≤ 65535) : Packet where
  packetId := packetId
  bytes := List.replicate n 0
  overhead := 96
  length_le := by rwa [List.length_replicate]
  overhead_pos := by decide

theorem verdicts_iff_small :
    ∃ d, Nfqueue.run NfqLibrary.checking ((Handler.imd false).handlePacket ⟨.unicast, .little⟩)
        [] [.message (zeroPacket 1 40 (by decide)) ⟨5, allSucceed⟩,
          .message (zeroPacket 2 40 (by decide)) ⟨6, allSucceed⟩] = some d ∧
      d.verdicts.map VerdictCall.packetId = [1, 2] ∧ d.awaiting = 0 := by
  have halive : ((Nfqueue.run NfqLibrary.checking
      ((Handler.imd false).handlePacket ⟨.unicast, .little⟩)
        [] [.message (zeroPacket 1 40 (by decide)) ⟨5, allSucceed⟩,
          .message (zeroPacket 2 40 (by decide)) ⟨6, allSucceed⟩]).map fun d => d.alive) =
      some true := by
    decide +kernel
  obtain ⟨d, hd, hd'⟩ := Option.map_eq_some_iff.1 halive
  exact ⟨d, hd, (verdicts_iff NfqLibrary.checking ⟨.unicast, .little⟩ (.imd false) hd hd').2
    (by decide +kernel)⟩

/-- A packet of 4096 bytes does not fit with its headers: the IRD takes it off the queue, gives
it no verdict and goes on. -/
theorem large_waits :
    ¬ ∀ (lib : NfqLibrary) (t : Target) (h : Handler) (state : h.State)
      (es : List (Event h.Input h.State)) (d : Nfqueue.Daemon h.State h.Verdict),
      Nfqueue.run lib (h.handlePacket t) state es = some d → d.alive = true →
      d.verdicts.map VerdictCall.packetId =
        (es.flatMap Event.packets).map Packet.packetId := by
  intro hall
  have hfits : (zeroPacket 1 4096 (by decide)).fits = false := by decide +kernel
  have hids := hall NfqLibrary.checking ⟨.unicast, .little⟩ (.ird 3) [] _ _
    (run_truncated _ _ _ hfits ⟨5, allSucceed⟩) rfl
  cases hids

end Iprp.Session
