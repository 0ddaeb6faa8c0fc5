import Iprp.Isd.Failures
import Iprp.Library.Latch

/-!
# The cached peerbase

`src/isd/peerbase.c` and the thread of `src/isd/handle.c` beside it. `pb_routine` loads the
peerbase file again and again, copies it to `pb.base` under the mutex, configures the sockets,
sets `pb.loaded` and signals. `handle_routine` waits for the first copy; `handle_packet` then
reads the link of the header without the mutex, field after field, and takes it for the loop over
the interfaces only.

A copy of `pb.base` that goes on while a field is read can show any mixture of old and new bytes
(`State.seen`). A failed call ends the process, here by `alive`. For the mutex, the flag and the
condition the two threads are a `Latch` (`step_view`).
-/

namespace Iprp.Isd.Cache

open Bytes

/-- A peerbase as the ICD writes it: its interfaces fit the tables of the ISD. -/
structure CachedBase extends Peerbase where
  nbIfaces_le : host.nbIfaces ≤ 16
  ind_lt : ∀ iface ∈ host.used, iface.ind.toNat < 16

/-- The static `pb.base` before the first load. -/
def CachedBase.zero : CachedBase where
  link := ⟨inAddr 0 0 0 0, inAddr 0 0 0 0, 0, 0, Vector.replicate 20 0⟩
  host := ⟨0, Vector.replicate 16 ⟨0, inAddr 0 0 0 0⟩⟩
  inds := 0
  destAddr := Vector.replicate 16 (inAddr 0 0 0 0)
  nbIfaces_le := Nat.zero_le 16
  ind_lt := by simp [Host.used]

/-- A datagram taken off the queue, with what its handling depends on beside the base. -/
structure Request where
  heap : ℕ → UInt8
  currTime : ℤ
  sendto : ℕ → Bool
  buf : List UInt8
  headers_le : 28 ≤ buf.length
  length_le : buf.length ≤ 65535

def Request.datagram (g : Request) (base : CachedBase) : Datagram where
  base := base.toPeerbase
  heap := g.heap
  currTime := g.currTime
  sendto := g.sendto
  buf := g.buf
  headers_le := g.headers_le
  length_le := g.length_le
  nbIfaces_le := base.nbIfaces_le
  ind_lt := base.ind_lt

/-- The packet that was created and the verdict on its original. -/
structure Made where
  packet : List UInt8
  verdict : OriginalVerdict

/-- Where `pb_routine` is in a pass. -/
inductive CachePc where
  | load
  | lock (temp : CachedBase)
  /-- `pb.base = temp` is going on. -/
  | store (temp : CachedBase)
  | unlock
  /-- The loop over the sockets, in the multicast build. -/
  | sockets (i : ℕ)
  | setLoaded
  | signal

/-- Where `handle_routine` is. -/
inductive HandlerPc where
  | lock
  | check
  | wait
  | blocked
  | relock
  | leave
  | receive
  | readPort (g : Request)
  | readAddr (g : Request) (destPort : UInt16)
  | readSnsid (g : Request) (destPort : UInt16) (destAddr : InAddr)
  /-- The destination of the copies in the multicast build is read before the mutex is taken. -/
  | readGroup (g : Request) (made : Made)
  | sendLock (g : Request) (made : Made) (group : InAddr)
  | send (g : Request) (made : Made) (group : InAddr) (copies : List Copy) (i : ℕ)

def HandlerPc.signalled : HandlerPc → HandlerPc
  | .blocked => .relock
  | pc => pc

/-- The datagram in hand. -/
def HandlerPc.request : HandlerPc → Option Request
  | .readPort g => some g
  | .readAddr g _ => some g
  | .readSnsid g _ _ => some g
  | .readGroup g _ => some g
  | .sendLock g _ _ => some g
  | .send g _ _ _ _ => some g
  | _ => none

/-- The process. `outgoing` is the outgoing interface of each socket by its IND, where it was
configured, `received` has the datagrams taken off the queue, and `sent` the interfaces that
copies were sent for, with that of their socket. -/
structure State where
  holder : Option Latch.Thread
  base : CachedBase
  loaded : Bool
  cachePc : CachePc
  handlerPc : HandlerPc
  outgoing : ℕ → Option InAddr
  signals : ℕ
  seqNb : UInt32
  lastAllowedThru : ℤ
  received : List Request
  outcomes : List Outcome
  sent : List (Iface × Option InAddr)
  alive : Bool

def init : State where
  holder := none
  base := .zero
  loaded := false
  cachePc := .load
  handlerPc := .lock
  outgoing := fun _ => none
  signals := 0
  seqNb := Isd.init.seqNb
  lastAllowedThru := Isd.init.lastAllowedThru
  received := []
  outcomes := []
  sent := []
  alive := true

/-! ## Reading the base without the mutex -/

/-- Bytes of which some are already new. -/
def mix {n : ℕ} (choice : ℕ → Bool) (old new : Vector UInt8 n) : Vector UInt8 n :=
  Vector.ofFn fun i => if choice i then new[i] else old[i]

/-- What a read of a field of `pb.base` gives. -/
def State.seen {n : ℕ} (s : State) (choice : ℕ → Bool) (field : Peerbase → Vector UInt8 n) :
    Vector UInt8 n :=
  match s.cachePc with
  | .store temp => mix choice (field s.base.toPeerbase) (field temp.toPeerbase)
  | _ => field s.base.toPeerbase

/-- The bytes of `pb.base.link.dest_port`. -/
def destPortBytes (o : ByteOrder) (base : Peerbase) : Vector UInt8 2 :=
  word16Bytes o base.link.destPort

/-! ## The two threads -/

/-- One step of `pb_routine`, when `peerbase_load` gives `file` (nothing when it fails) and
`setsockopt` succeeds or not. -/
def cacheStep (t : Target) (file : Option CachedBase) (setsockopt : Bool) (s : State) :
    Option State :=
  match s.cachePc with
  | .load =>
      match file with
      | none => some { s with alive := false }
      | some temp => some { s with cachePc := .lock temp }
  | .lock temp =>
      (Mutex.acquire .producer s.holder).map fun m =>
        { s with holder := m, cachePc := .store temp }
  | .store temp => some { s with base := temp, cachePc := .unlock }
  | .unlock =>
      let next := match t.build with
        | .unicast => CachePc.setLoaded
        | .multicast => CachePc.sockets 0
      some { s with holder := Mutex.release s.holder, cachePc := next }
  | .sockets i =>
      match s.base.host.used[i]? with
      | some iface =>
          if setsockopt then
            some { s with
              outgoing := Function.update s.outgoing iface.ind.toNat (some iface.addr)
              cachePc := .sockets (i + 1) }
          else some { s with alive := false }
      | none => some { s with cachePc := .setLoaded }
  | .setLoaded => some { s with loaded := true, cachePc := .signal }
  | .signal =>
      some { s with
        signals := s.signals + 1
        handlerPc := s.handlerPc.signalled
        cachePc := .load }

/-- The destination of the copy for an interface: the address for its IND, or the group that was
read before. -/
def destination (build : Build) (base : Peerbase) (group : InAddr) (iface : Iface) :
    Option InAddr :=
  match build with
  | .unicast => base.destAddr[iface.ind.toNat]?
  | .multicast => some group

/-- The loop of `handle_packet` at the interface number `i`, with the mutex held. -/
def sendStep (t : Target) (g : Request) (made : Made) (group : InAddr) (copies : List Copy)
    (i : ℕ) (s : State) : Option State :=
  match s.base.host.used[i]? with
  | none =>
      some { s with
        holder := Mutex.release s.holder
        handlerPc := .receive
        outcomes := s.outcomes ++ [⟨made.verdict, made.packet, copies, true⟩] }
  | some iface => do
      let addr ← destination t.build s.base.toPeerbase group iface
      let (copies', go) :=
        sendPacket iface (sockaddrFill addr iprpDataPort) s.base.inds (g.sendto i)
      let sent := s.sent ++ copies'.map fun _ => (iface, s.outgoing iface.ind.toNat)
      if go then
        return { s with sent := sent, handlerPc := .send g made group (copies ++ copies') (i + 1) }
      else
        return { s with
          holder := Mutex.release s.holder
          handlerPc := .receive
          outcomes := s.outcomes ++ [⟨made.verdict, made.packet, copies ++ copies', false⟩]
          sent := sent
          alive := false }

/-- One step of `handle_routine` and what it calls. `g` is the datagram if one is taken off the
queue, and `choice` the bytes that are already new in a read beside a store. -/
def handlerStep (t : Target) (g : Request) (choice : ℕ → Bool) (s : State) : Option State :=
  match s.handlerPc with
  | .lock =>
      (Mutex.acquire .consumer s.holder).map fun m => { s with holder := m, handlerPc := .check }
  | .check => some { s with handlerPc := if s.loaded then .leave else .wait }
  | .wait => some { s with holder := Mutex.release s.holder, handlerPc := .blocked }
  | .blocked => none
  | .relock =>
      (Mutex.acquire .consumer s.holder).map fun m => { s with holder := m, handlerPc := .check }
  | .leave => some { s with holder := Mutex.release s.holder, handlerPc := .receive }
  | .receive => some { s with handlerPc := .readPort g, received := s.received ++ [g] }
  | .readPort g =>
      let bytes := s.seen choice (destPortBytes t.order)
      some { s with handlerPc := .readAddr g (UInt16.ofNat (decode t.order bytes.toList)) }
  | .readAddr g destPort =>
      let destAddr := match t.build with
        | .unicast => s.seen choice fun base => base.link.destAddr
        | .multicast => inAddr 0 0 0 0
      some { s with handlerPc := .readSnsid g destPort destAddr }
  | .readSnsid g destPort destAddr => do
      let snsid := s.seen choice fun base => base.link.snsid
      let link : Link := ⟨inAddr 0 0 0 0, destAddr, 0, destPort, snsid⟩
      let (packet, seqNb) ← createIprpPacket t link g.heap s.seqNb g.buf
      let (verdict, lastAllowedThru) := getVerdict t.build g.currTime s.lastAllowedThru
      return { s with
        seqNb := seqNb
        lastAllowedThru := lastAllowedThru
        handlerPc := .readGroup g ⟨packet, verdict⟩ }
  | .readGroup g made =>
      let group := match t.build with
        | .unicast => inAddr 0 0 0 0
        | .multicast => s.seen choice fun base => base.link.destAddr
      some { s with handlerPc := .sendLock g made group }
  | .sendLock g made group =>
      (Mutex.acquire .consumer s.holder).map fun m =>
        { s with holder := m, handlerPc := .send g made group [] 0 }
  | .send g made group copies i => sendStep t g made group copies i s

inductive Event where
  | cache (file : Option CachedBase) (setsockopt : Bool)
  | handler (g : Request) (choice : ℕ → Bool)
  /-- `pthread_cond_wait` returns although nobody has signalled. -/
  | wakeup

/-- One step of the process, absent when the thread cannot go on. -/
def step (t : Target) (s : State) (e : Event) : Option State :=
  if s.alive then
    match e with
    | .cache file setsockopt => cacheStep t file setsockopt s
    | .handler g choice => handlerStep t g choice s
    | .wakeup =>
        match s.handlerPc with
        | .blocked => some { s with handlerPc := .relock }
        | _ => none
  else none

def run (t : Target) (es : List Event) : Option State := Run.runFrom (step t) init es

/-! ## The latch -/

def CachePc.view : CachePc → Latch.Producer
  | .load => .start
  | .lock _ => .start
  | .store _ => .locked
  | .unlock => .locked
  | .sockets _ => .unlocked
  | .setLoaded => .unlocked
  | .signal => .set

def HandlerPc.view : HandlerPc → Latch.Consumer
  | .lock => .lock
  | .check => .check
  | .wait => .wait
  | .blocked => .blocked
  | .relock => .relock
  | .leave => .leave
  | .receive => .out
  | .readPort _ => .out
  | .readAddr _ _ => .out
  | .readSnsid _ _ _ => .out
  | .readGroup _ _ => .out
  | .sendLock _ _ _ => .out
  | .send _ _ _ _ _ => .inside

def State.view (s : State) : Latch.State :=
  ⟨s.holder, s.loaded, s.signals, s.cachePc.view, s.handlerPc.view⟩

theorem signalled_view (pc : HandlerPc) : pc.signalled.view = pc.view.signalled := by
  cases pc with
  | _ => rfl

theorem cacheStep_view {t : Target} {file : Option CachedBase} {setsockopt : Bool}
    {s s' : State} (h : cacheStep t file setsockopt s = some s') :
    s'.view = s.view ∨ Latch.Step s.view s'.view := by
  unfold cacheStep at h
  split at h
  · next hpc =>
      split at h
      · obtain rfl := Option.some.inj h
        exact Or.inl rfl
      · obtain rfl := Option.some.inj h
        simp [State.view, hpc, CachePc.view]
  · next temp hpc =>
      obtain ⟨m, hm, rfl⟩ := Option.map_eq_some_iff.1 h
      exact Or.inr (.enter (by simp [State.view, hpc, CachePc.view]) hm)
  · next temp hpc =>
      obtain rfl := Option.some.inj h
      simp [State.view, hpc, CachePc.view]
  · next hpc =>
      obtain rfl := Option.some.inj h
      have hleave := Latch.Step.leave (s := s.view) (by simp [State.view, hpc, CachePc.view])
      right
      cases hb : t.build with
      | unicast => simpa [State.view, CachePc.view, hb] using hleave
      | multicast => simpa [State.view, CachePc.view, hb] using hleave
  · next i hpc =>
      split at h
      · split at h
        · obtain rfl := Option.some.inj h
          simp [State.view, hpc, CachePc.view]
        · obtain rfl := Option.some.inj h
          exact Or.inl rfl
      · obtain rfl := Option.some.inj h
        simp [State.view, hpc, CachePc.view]
  · next hpc =>
      obtain rfl := Option.some.inj h
      exact Or.inr (.set (by simp [State.view, hpc, CachePc.view]))
  · next hpc =>
      obtain rfl := Option.some.inj h
      have hsignal := Latch.Step.signal (s := s.view) (by simp [State.view, hpc, CachePc.view])
      right
      simpa [State.view, CachePc.view, signalled_view] using hsignal

theorem sendStep_view {t : Target} {g : Request} {made : Made} {group : InAddr}
    {copies : List Copy} {i : ℕ} {s s' : State}
    (hpc : s.handlerPc = .send g made group copies i)
    (h : sendStep t g made group copies i s = some s') :
    s'.view = s.view ∨ Latch.Step s.view s'.view := by
  have hrelease := Latch.Step.release (s := s.view) (by simp [State.view, hpc, HandlerPc.view])
  unfold sendStep at h
  split at h
  · obtain rfl := Option.some.inj h
    exact Or.inr hrelease
  · obtain ⟨addr, -, h⟩ := Option.bind_eq_some_iff.1 h
    dsimp only at h
    split at h
    · obtain rfl := Option.some.inj h
      simp [State.view, hpc, HandlerPc.view]
    · obtain rfl := Option.some.inj h
      exact Or.inr hrelease

theorem handlerStep_view {t : Target} {g : Request} {choice : ℕ → Bool} {s s' : State}
    (h : handlerStep t g choice s = some s') :
    s'.view = s.view ∨ Latch.Step s.view s'.view := by
  unfold handlerStep at h
  split at h
  · next hpc =>
      obtain ⟨m, hm, rfl⟩ := Option.map_eq_some_iff.1 h
      exact Or.inr (.lock (Or.inl (by simp [State.view, hpc, HandlerPc.view])) hm)
  · next hpc =>
      obtain rfl := Option.some.inj h
      have hcheck := Latch.Step.check (s := s.view) (by simp [State.view, hpc, HandlerPc.view])
      right
      by_cases hloaded : s.loaded = true
      · simpa [State.view, HandlerPc.view, hloaded] using hcheck
      · simpa [State.view, HandlerPc.view, hloaded] using hcheck
  · next hpc =>
      obtain rfl := Option.some.inj h
      exact Or.inr (.wait (by simp [State.view, hpc, HandlerPc.view]))
  · cases h
  · next hpc =>
      obtain ⟨m, hm, rfl⟩ := Option.map_eq_some_iff.1 h
      exact Or.inr (.lock (Or.inr (by simp [State.view, hpc, HandlerPc.view])) hm)
  · next hpc =>
      obtain rfl := Option.some.inj h
      exact Or.inr (.pass (by simp [State.view, hpc, HandlerPc.view]))
  · next hpc =>
      obtain rfl := Option.some.inj h
      simp [State.view, hpc, HandlerPc.view]
  · next hpc =>
      obtain rfl := Option.some.inj h
      simp [State.view, hpc, HandlerPc.view]
  · next hpc =>
      obtain rfl := Option.some.inj h
      simp [State.view, hpc, HandlerPc.view]
  · next hpc =>
      obtain ⟨⟨packet, seqNb⟩, -, h⟩ := Option.bind_eq_some_iff.1 h
      obtain rfl := Option.some.inj h
      simp [State.view, hpc, HandlerPc.view]
  · next hpc =>
      obtain rfl := Option.some.inj h
      simp [State.view, hpc, HandlerPc.view]
  · next hpc =>
      obtain ⟨m, hm, rfl⟩ := Option.map_eq_some_iff.1 h
      exact Or.inr (.acquire (by simp [State.view, hpc, HandlerPc.view]) hm)
  · next hpc => exact sendStep_view hpc h

/-- Every step of the process is one of the latch or none. -/
theorem step_view {t : Target} {s s' : State} {e : Event} (h : step t s e = some s') :
    s'.view = s.view ∨ Latch.Step s.view s'.view := by
  unfold step at h
  split at h
  · cases e with
    | cache file setsockopt => exact cacheStep_view h
    | handler g choice => exact handlerStep_view h
    | wakeup =>
        dsimp only at h
        split at h
        · next hpc =>
            obtain rfl := Option.some.inj h
            exact Or.inr (.spurious (by simp [State.view, hpc, HandlerPc.view]))
        · cases h
  · cases h

theorem inv_step {t : Target} {s s' : State} {e : Event} (hs : Latch.Inv s.view)
    (h : step t s e = some s') : Latch.Inv s'.view := by
  rcases step_view h with heq | hlatch
  · rw [heq]
    exact hs
  · exact hlatch.inv hs

theorem inv_run {t : Target} {es : List Event} {s : State} (h : run t es = some s) :
    Latch.Inv s.view :=
  Run.runFrom_preserved (fun s : State => Latch.Inv s.view)
    (fun _ _ _ hs hstep => inv_step hs hstep) (show Latch.Inv init.view from Latch.inv_init) h

end Iprp.Isd.Cache
