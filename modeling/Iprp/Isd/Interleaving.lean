import Iprp.Isd.Cache
import Mathlib.Data.List.Nodup

/-!
# What the interleaving of the ISD's threads comes to

Three things are wanted of the two threads together. The handler must not wait forever: it can
miss a wake-up, but only the first, and the threads never block each other (`handler_waits_once`).
The packets must be those of the sequential handler, although the fields of a header are read
without the mutex: as long as all peerbases in the file have the same link, every interleaving
has the outcomes of `Isd.run` on the datagrams that were taken off the queue, in their order, each
with one loaded base (`run_sequential`). And in the multicast build a copy must leave by its own
interface: it does when all peerbases have the same host (`sent_outgoing`).
-/

namespace Iprp.Isd.Cache

open Bytes

/-! ## Waiting -/

theorem handlerStep_defined (t : Target) (g : Request) (choice : ℕ → Bool) {s : State}
    (hblocked : s.handlerPc ≠ .blocked)
    (hlock : s.holder = none ∨ s.handlerPc.view.Inside) :
    ∃ s', handlerStep t g choice s = some s' := by
  have hacquire : ∀ pc : HandlerPc, s.handlerPc = pc → ¬ pc.view.Inside → s.holder = none := by
    rintro pc rfl hout
    exact hlock.resolve_right hout
  unfold handlerStep
  split
  · next hpc =>
      rw [hacquire _ hpc (by rintro (h | h | h | h) <;> cases h)]
      exact ⟨_, rfl⟩
  · exact ⟨_, rfl⟩
  · exact ⟨_, rfl⟩
  · next hpc => exact absurd hpc hblocked
  · next hpc =>
      rw [hacquire _ hpc (by rintro (h | h | h | h) <;> cases h)]
      exact ⟨_, rfl⟩
  · exact ⟨_, rfl⟩
  · exact ⟨_, rfl⟩
  · exact ⟨_, rfl⟩
  · exact ⟨_, rfl⟩
  · next g destPort destAddr hpc =>
      have hlt : g.buf.length ≤ 65535 := g.length_le
      have hge : 28 ≤ g.buf.length := g.headers_le
      have hload : load g.buf 28 (sizeSub g.buf.length 28) =
          some (read g.buf 28 (sizeSub g.buf.length 28)) := by
        rw [sizeSub_of_le hge (by omega)]
        exact load_eq_read (by omega)
      obtain ⟨packet, hpacket, -⟩ := createIprpPacket_defined t
        ⟨inAddr 0 0 0 0, destAddr, 0, destPort, s.seen choice fun base => base.link.snsid⟩
        g.heap s.seqNb hload
      simp only [hpacket, Option.bind_eq_bind, Option.bind_some]
      exact ⟨_, rfl⟩
  · exact ⟨_, rfl⟩
  · next hpc =>
      rw [hacquire _ hpc (by rintro (h | h | h | h) <;> cases h)]
      exact ⟨_, rfl⟩
  · next g made group copies i hpc =>
      unfold sendStep
      split
      · exact ⟨_, rfl⟩
      · next iface hiface =>
          have hind := s.base.ind_lt iface (List.mem_of_getElem? hiface)
          obtain ⟨addr, haddr⟩ : ∃ addr,
              destination t.build s.base.toPeerbase group iface = some addr := by
            unfold destination
            cases t.build with
            | unicast => exact ⟨s.base.destAddr[iface.ind.toNat], by simp [hind]⟩
            | multicast => exact ⟨group, rfl⟩
          simp only [haddr, Option.bind_eq_bind, Option.bind_some]
          split
          · exact ⟨_, rfl⟩
          · exact ⟨_, rfl⟩

theorem cacheStep_defined (t : Target) (file : Option CachedBase) (setsockopt : Bool)
    {s : State} (hlock : s.holder = none ∨ ∀ temp, s.cachePc ≠ .lock temp) :
    ∃ s', cacheStep t file setsockopt s = some s' := by
  unfold cacheStep
  split
  · split
    · exact ⟨_, rfl⟩
    · exact ⟨_, rfl⟩
  · next temp hpc =>
      rw [hlock.resolve_right fun hne => hne temp hpc]
      exact ⟨_, rfl⟩
  · exact ⟨_, rfl⟩
  · exact ⟨_, rfl⟩
  · split
    · split
      · exact ⟨_, rfl⟩
      · exact ⟨_, rfl⟩
    · exact ⟨_, rfl⟩
  · exact ⟨_, rfl⟩
  · exact ⟨_, rfl⟩

/-- In every interleaving: when the handler blocks or is about to, at most one wake-up has been
signalled, so that the second pass of the cache thread finds it past its wait at the latest; and
while the process lives, one of its threads can go on. -/
theorem handler_waits_once (t : Target) {es : List Event} {s : State}
    (h : run t es = some s) :
    (s.handlerPc = .wait ∨ s.handlerPc = .blocked → s.signals ≤ 1) ∧
      (s.alive = true → (∀ file setsockopt, ∃ s', step t s (.cache file setsockopt) = some s') ∨
        ∀ g choice, ∃ s', step t s (.handler g choice) = some s') := by
  have hinv := inv_run h
  constructor
  · rintro (hwait | hblocked)
    · rcases hinv.missed (congrArg HandlerPc.view hwait) with hzero | ⟨hone, -⟩
      · exact le_of_eq_of_le hzero (Nat.zero_le 1)
      · exact le_of_eq hone
    · exact hinv.waiting (congrArg HandlerPc.view hblocked)
  · intro halive
    simp only [step, halive, if_true]
    cases hholder : s.holder with
    | none =>
        exact Or.inl fun file setsockopt => cacheStep_defined t file setsockopt (Or.inl hholder)
    | some thread =>
        have hinside : s.view.Inside thread := hinv.confined thread hholder
        cases thread with
        | producer =>
            refine Or.inl fun file setsockopt => cacheStep_defined t file setsockopt (Or.inr ?_)
            intro temp hpc
            have hlocked : s.cachePc.view = .locked := hinside
            rw [hpc] at hlocked
            cases hlocked
        | consumer =>
            refine Or.inr fun g choice => handlerStep_defined t g choice ?_ (Or.inr hinside)
            intro hpc
            have hin : s.handlerPc.view.Inside := hinside
            rw [hpc] at hin
            rcases hin with h | h | h | h <;> cases h

theorem headers_le_bareBuf : 28 ≤ (List.replicate 28 (0 : UInt8)).length := by
  decide

theorem bareBuf_length_le : (List.replicate 28 (0 : UInt8)).length ≤ 65535 := by
  decide

/-- An empty datagram. -/
def bareRequest : Request where
  heap := fun _ => 0
  currTime := 0
  sendto := fun _ => true
  buf := List.replicate 28 0
  headers_le := headers_le_bareBuf
  length_le := bareBuf_length_le

/-- The first pass of the cache thread, up to its flag. -/
def firstPass : List Event :=
  List.replicate 4 (.cache (some .zero) true)

/-- The handler looks at the flag before it is set and blocks after the signal. -/
def lostWakeup : List Event :=
  firstPass ++ List.replicate 2 (.handler bareRequest fun _ => false) ++
    List.replicate 2 (.cache none true) ++ [.handler bareRequest fun _ => false]

theorem handler_waits_once_lost :
    ∃ s, run ⟨.unicast, .little⟩ lostWakeup = some s ∧ s.loaded = true ∧ s.signals = 1 ∧
      s.handlerPc.view = .blocked ∧
      (s.handlerPc = .wait ∨ s.handlerPc = .blocked → s.signals ≤ 1) ∧
      (s.alive = true → (∀ file setsockopt, ∃ s',
          step ⟨.unicast, .little⟩ s (.cache file setsockopt) = some s') ∨
        ∀ g choice, ∃ s', step ⟨.unicast, .little⟩ s (.handler g choice) = some s') := by
  have hview : (run ⟨.unicast, .little⟩ lostWakeup).map State.view =
      some ⟨none, true, 1, .start, .blocked⟩ := by decide +kernel
  obtain ⟨s, hs, hs'⟩ := Option.map_eq_some_iff.1 hview
  obtain ⟨-, hloaded, hsignals, -, hpc⟩ := Latch.State.mk.inj hs'
  exact ⟨s, hs, hloaded, hsignals, hpc, handler_waits_once ⟨.unicast, .little⟩ hs⟩

/-! ## Reading without the mutex -/

theorem mix_self {n : ℕ} (choice : ℕ → Bool) (v : Vector UInt8 n) : mix choice v v = v := by
  ext i hi
  simp [mix]

/-- The first part of a pass, in which `pb.base` is that of the pass before. -/
def CachePc.Before : CachePc → Prop
  | .load => True
  | .lock _ => True
  | .store _ => True
  | .unlock => False
  | .sockets _ => False
  | .setLoaded => False
  | .signal => False

/-- The bases in sight have the property that all peerbases in the file have. -/
structure FromFile (P : CachedBase → Prop) (s : State) : Prop where
  temp : ∀ temp, s.cachePc = .lock temp ∨ s.cachePc = .store temp → P temp
  base : s.loaded = false ∧ s.cachePc.Before ∨ P s.base

/-- An event in which a load gives a base with the property, if any. -/
def Event.Loads (P : CachedBase → Prop) (e : Event) : Prop :=
  ∀ base setsockopt, e = .cache (some base) setsockopt → P base

/-- What the handler leaves to the cache thread. -/
structure HandlerFrame (s s' : State) : Prop where
  base : s'.base = s.base
  loaded : s'.loaded = s.loaded
  cachePc : s'.cachePc = s.cachePc
  outgoing : s'.outgoing = s.outgoing

theorem sendStep_frame {t : Target} {g : Request} {made : Made} {group : InAddr}
    {copies : List Copy} {i : ℕ} {s s' : State}
    (h : sendStep t g made group copies i s = some s') : HandlerFrame s s' := by
  unfold sendStep at h
  split at h
  · obtain rfl := Option.some.inj h
    exact ⟨rfl, rfl, rfl, rfl⟩
  · obtain ⟨addr, -, h⟩ := Option.bind_eq_some_iff.1 h
    dsimp only at h
    split at h
    · obtain rfl := Option.some.inj h
      exact ⟨rfl, rfl, rfl, rfl⟩
    · obtain rfl := Option.some.inj h
      exact ⟨rfl, rfl, rfl, rfl⟩

theorem handlerStep_frame {t : Target} {g : Request} {choice : ℕ → Bool} {s s' : State}
    (h : handlerStep t g choice s = some s') : HandlerFrame s s' := by
  unfold handlerStep at h
  split at h
  · obtain ⟨m, -, rfl⟩ := Option.map_eq_some_iff.1 h
    exact ⟨rfl, rfl, rfl, rfl⟩
  · obtain rfl := Option.some.inj h
    exact ⟨rfl, rfl, rfl, rfl⟩
  · obtain rfl := Option.some.inj h
    exact ⟨rfl, rfl, rfl, rfl⟩
  · cases h
  · obtain ⟨m, -, rfl⟩ := Option.map_eq_some_iff.1 h
    exact ⟨rfl, rfl, rfl, rfl⟩
  · obtain rfl := Option.some.inj h
    exact ⟨rfl, rfl, rfl, rfl⟩
  · obtain rfl := Option.some.inj h
    exact ⟨rfl, rfl, rfl, rfl⟩
  · obtain rfl := Option.some.inj h
    exact ⟨rfl, rfl, rfl, rfl⟩
  · obtain rfl := Option.some.inj h
    exact ⟨rfl, rfl, rfl, rfl⟩
  · obtain ⟨r, -, h⟩ := Option.bind_eq_some_iff.1 h
    obtain rfl := Option.some.inj h
    exact ⟨rfl, rfl, rfl, rfl⟩
  · obtain rfl := Option.some.inj h
    exact ⟨rfl, rfl, rfl, rfl⟩
  · obtain ⟨m, -, rfl⟩ := Option.map_eq_some_iff.1 h
    exact ⟨rfl, rfl, rfl, rfl⟩
  · exact sendStep_frame h

theorem FromFile.of_frame {P : CachedBase → Prop} {s s' : State} (hs : FromFile P s)
    (h : HandlerFrame s s') : FromFile P s' := by
  refine ⟨?_, ?_⟩
  · rw [h.cachePc]
    exact hs.temp
  · rw [h.base, h.loaded, h.cachePc]
    exact hs.base

theorem FromFile.cacheStep {P : CachedBase → Prop} {t : Target} {file : Option CachedBase}
    {setsockopt : Bool} {s s' : State} (hs : FromFile P s)
    (hfile : ∀ base, file = some base → P base)
    (h : cacheStep t file setsockopt s = some s') : FromFile P s' := by
  have hafter : ¬ s.cachePc.Before → P s.base := fun hpc => hs.base.resolve_left fun hb => hpc hb.2
  unfold Cache.cacheStep at h
  split at h
  · next hpc =>
      split at h
      · obtain rfl := Option.some.inj h
        exact ⟨hs.temp, hs.base⟩
      · next temp =>
          obtain rfl := Option.some.inj h
          refine ⟨?_, hs.base.imp (fun hb => ⟨hb.1, trivial⟩) id⟩
          rintro temp' (heq | heq)
          · cases heq
            exact hfile temp rfl
          · cases heq
  · next temp hpc =>
      obtain ⟨m, -, rfl⟩ := Option.map_eq_some_iff.1 h
      refine ⟨?_, hs.base.imp (fun hb => ⟨hb.1, trivial⟩) id⟩
      rintro temp' (heq | heq)
      · cases heq
      · cases heq
        exact hs.temp temp (Or.inl hpc)
  · next temp hpc =>
      obtain rfl := Option.some.inj h
      exact ⟨nofun, Or.inr (hs.temp temp (Or.inr hpc))⟩
  · next hpc =>
      obtain rfl := Option.some.inj h
      refine ⟨?_, Or.inr (hafter (by rw [hpc]; exact id))⟩
      cases t.build with
      | unicast => nofun
      | multicast => nofun
  · next i hpc =>
      split at h
      · split at h
        · obtain rfl := Option.some.inj h
          exact ⟨nofun, Or.inr (hafter (by rw [hpc]; exact id))⟩
        · obtain rfl := Option.some.inj h
          exact ⟨hs.temp, hs.base⟩
      · obtain rfl := Option.some.inj h
        exact ⟨nofun, Or.inr (hafter (by rw [hpc]; exact id))⟩
  · next hpc =>
      obtain rfl := Option.some.inj h
      exact ⟨nofun, Or.inr (hafter (by rw [hpc]; exact id))⟩
  · next hpc =>
      obtain rfl := Option.some.inj h
      exact ⟨nofun, Or.inr (hafter (by rw [hpc]; exact id))⟩

theorem FromFile.step {P : CachedBase → Prop} {t : Target} {s s' : State} {e : Event}
    (hs : FromFile P s) (he : e.Loads P) (h : step t s e = some s') : FromFile P s' := by
  unfold Cache.step at h
  split at h
  · cases e with
    | cache file setsockopt =>
        refine hs.cacheStep ?_ h
        rintro base rfl
        exact he base setsockopt rfl
    | handler g choice => exact hs.of_frame (handlerStep_frame h)
    | wakeup =>
        dsimp only at h
        split at h
        · obtain rfl := Option.some.inj h
          exact ⟨hs.temp, hs.base⟩
        · cases h
  · cases h

theorem fromFile_init (P : CachedBase → Prop) : FromFile P init :=
  ⟨nofun, Or.inl ⟨rfl, trivial⟩⟩

theorem base_of_passed {P : CachedBase → Prop} {s : State} (hs : FromFile P s)
    (hinv : Latch.Inv s.view)
    (hpc : s.handlerPc.view = .leave ∨ s.handlerPc.view = .out ∨ s.handlerPc.view = .inside) :
    P s.base := by
  refine hs.base.resolve_left ?_
  rintro ⟨hunset, -⟩
  have hflag : s.loaded = true := hinv.passed hpc
  rw [hunset] at hflag
  cases hflag

/-- A field that is the same in all peerbases of the file is read as it is, whatever goes on. -/
theorem seen_eq {n : ℕ} {P : CachedBase → Prop} {s : State} (hs : FromFile P s)
    (hbase : P s.base) {field : Peerbase → Vector UInt8 n} {v : Vector UInt8 n}
    (hP : ∀ base, P base → field base.toPeerbase = v) (choice : ℕ → Bool) :
    s.seen choice field = v := by
  unfold State.seen
  split
  · next temp hpc => rw [hP s.base hbase, hP temp (hs.temp temp (Or.inr hpc)), mix_self]
  · exact hP s.base hbase

/-! ## The sequential handler -/

theorem createIprpPacket_congr {t : Target} {link link' : Link}
    (hport : link.destPort = link'.destPort)
    (haddr : t.build = .unicast → link.destAddr = link'.destAddr)
    (hsnsid : link.snsid = link'.snsid) (heap : ℕ → UInt8) (seqNb : UInt32) (buf : List UInt8) :
    createIprpPacket t link heap seqNb buf = createIprpPacket t link' heap seqNb buf := by
  unfold createIprpPacket
  rw [hport, hsnsid]
  cases hb : t.build with
  | unicast => rw [haddr hb]
  | multicast => rfl

/-- A packet that is under way: it was created and judged as the sequential handler in the state
`d.state` does it, and `st` is the state after it. -/
structure Built (t : Target) (link : Link) (st : Isd.State) (d : Daemon) (g : Request)
    (made : Made) : Prop where
  packet : createIprpPacket t link g.heap d.state.seqNb g.buf = some (made.packet, st.seqNb)
  verdict : getVerdict t.build g.currTime d.state.lastAllowedThru =
    (made.verdict, st.lastAllowedThru)

/-- What the handler has done since the last finished packet. -/
def Pending (t : Target) (link : Link) (base : CachedBase) (st : Isd.State) (d : Daemon) :
    HandlerPc → Prop
  | .lock => d.state = st
  | .check => d.state = st
  | .wait => d.state = st
  | .blocked => d.state = st
  | .relock => d.state = st
  | .leave => d.state = st
  | .receive => d.state = st
  | .readPort _ => d.state = st
  | .readAddr _ destPort => d.state = st ∧ destPort = link.destPort
  | .readSnsid _ destPort destAddr => d.state = st ∧ destPort = link.destPort ∧
      (t.build = .unicast → destAddr = link.destAddr)
  | .readGroup g made => Built t link st d g made
  | .sendLock g made group => Built t link st d g made ∧
      (t.build = .multicast → group = link.destAddr)
  | .send g made group copies i => Built t link st d g made ∧
      (t.build = .multicast → group = link.destAddr) ∧
      sendCopies t.build base.toPeerbase g.sendto 0 base.host.used =
        (sendCopies t.build base.toPeerbase g.sendto i (base.host.used.drop i)).map
          fun r => (copies ++ r.1, r.2)

/-- The process has done what the sequential handler does on the datagrams that were taken off
the queue, each with a base that has the property, and no more than one packet beyond it. -/
structure Handled (t : Target) (link : Link) (P : CachedBase → Prop) (s : State)
    (taken : List (Request × CachedBase)) (d : Daemon) : Prop where
  run : Isd.run t (taken.map fun p => p.1.datagram p.2) = some d
  received : s.received = taken.map Prod.fst ++ s.handlerPc.request.toList
  bases : ∀ p ∈ taken, P p.2
  length : s.outcomes.length = taken.length
  outcomes : d.outcomes = s.outcomes
  pending : s.alive = true → d.alive = true ∧
    Pending t link s.base ⟨s.seqNb, s.lastAllowedThru⟩ d s.handlerPc

def Sequential (t : Target) (link : Link) (P : CachedBase → Prop) (s : State) : Prop :=
  ∃ taken d, Handled t link P s taken d

/-- What a step of the cache thread leaves to the handler. -/
structure CacheFrame (s s' : State) : Prop where
  handlerPc : s'.handlerPc = s.handlerPc.signalled ∨ s'.handlerPc = s.handlerPc
  seqNb : s'.seqNb = s.seqNb
  lastAllowedThru : s'.lastAllowedThru = s.lastAllowedThru
  received : s'.received = s.received
  outcomes : s'.outcomes = s.outcomes
  base : s'.base = s.base ∨ ∃ temp, s.cachePc = .store temp

theorem cacheStep_frame {t : Target} {file : Option CachedBase} {setsockopt : Bool}
    {s s' : State} (h : cacheStep t file setsockopt s = some s') : CacheFrame s s' := by
  unfold cacheStep at h
  split at h
  · split at h
    · obtain rfl := Option.some.inj h
      exact ⟨Or.inr rfl, rfl, rfl, rfl, rfl, Or.inl rfl⟩
    · obtain rfl := Option.some.inj h
      exact ⟨Or.inr rfl, rfl, rfl, rfl, rfl, Or.inl rfl⟩
  · obtain ⟨m, -, rfl⟩ := Option.map_eq_some_iff.1 h
    exact ⟨Or.inr rfl, rfl, rfl, rfl, rfl, Or.inl rfl⟩
  · next temp hpc =>
      obtain rfl := Option.some.inj h
      exact ⟨Or.inr rfl, rfl, rfl, rfl, rfl, Or.inr ⟨temp, hpc⟩⟩
  · obtain rfl := Option.some.inj h
    exact ⟨Or.inr rfl, rfl, rfl, rfl, rfl, Or.inl rfl⟩
  · split at h
    · split at h
      · obtain rfl := Option.some.inj h
        exact ⟨Or.inr rfl, rfl, rfl, rfl, rfl, Or.inl rfl⟩
      · obtain rfl := Option.some.inj h
        exact ⟨Or.inr rfl, rfl, rfl, rfl, rfl, Or.inl rfl⟩
    · obtain rfl := Option.some.inj h
      exact ⟨Or.inr rfl, rfl, rfl, rfl, rfl, Or.inl rfl⟩
  · obtain rfl := Option.some.inj h
    exact ⟨Or.inr rfl, rfl, rfl, rfl, rfl, Or.inl rfl⟩
  · obtain rfl := Option.some.inj h
    exact ⟨Or.inl rfl, rfl, rfl, rfl, rfl, Or.inl rfl⟩

theorem Pending.signalled {t : Target} {link : Link} {base : CachedBase} {st : Isd.State}
    {d : Daemon} {pc : HandlerPc} (h : Pending t link base st d pc) :
    Pending t link base st d pc.signalled := by
  cases pc with
  | _ => exact h

theorem Pending.of_base {t : Target} {link : Link} {base base' : CachedBase} {st : Isd.State}
    {d : Daemon} {pc : HandlerPc} (h : Pending t link base st d pc)
    (hpc : pc.view ≠ .inside) : Pending t link base' st d pc := by
  cases pc with
  | send g made group copies i => exact absurd rfl hpc
  | _ => exact h

theorem signalled_request (pc : HandlerPc) : pc.signalled.request = pc.request := by
  cases pc with
  | _ => rfl

section Move

variable {t : Target} {link : Link} {P : CachedBase → Prop} {s s' : State}

theorem Sequential.move (hs : Sequential t link P s) (halive : s.alive = true)
    (hreceived : s'.received = s.received)
    (hrequest : s'.handlerPc.request = s.handlerPc.request)
    (houtcomes : s'.outcomes = s.outcomes)
    (hpending : ∀ d, Pending t link s.base ⟨s.seqNb, s.lastAllowedThru⟩ d s.handlerPc →
      Pending t link s'.base ⟨s'.seqNb, s'.lastAllowedThru⟩ d s'.handlerPc) :
    Sequential t link P s' := by
  obtain ⟨taken, d, hd⟩ := hs
  obtain ⟨hdalive, hd'⟩ := hd.pending halive
  refine ⟨taken, d, hd.run, ?_, hd.bases, ?_, hd.outcomes.trans houtcomes.symm,
    fun _ => ⟨hdalive, hpending d hd'⟩⟩
  · rw [hreceived, hrequest]
    exact hd.received
  · rw [houtcomes]
    exact hd.length

theorem Sequential.cacheStep (hs : Sequential t link P s) (hinv : Latch.Inv s.view)
    (halive : s.alive = true) {file : Option CachedBase} {setsockopt : Bool}
    (h : cacheStep t file setsockopt s = some s') : Sequential t link P s' := by
  have hframe := cacheStep_frame h
  refine hs.move halive hframe.received ?_ hframe.outcomes fun d hd => ?_
  · rcases hframe.handlerPc with heq | heq
    · rw [heq, signalled_request]
    · rw [heq]
  · rw [hframe.seqNb, hframe.lastAllowedThru]
    have hbase : Pending t link s'.base ⟨s.seqNb, s.lastAllowedThru⟩ d s.handlerPc := by
      rcases hframe.base with heq | ⟨temp, hpc⟩
      · rw [heq]
        exact hd
      · -- the mutex is taken by the copy of the base
        refine hd.of_base fun hin => ?_
        have hcache : s.view.Inside .producer := by
          change s.cachePc.view = .locked
          rw [hpc]
          rfl
        have hhandler : s.view.Inside .consumer := Or.inr (Or.inr (Or.inr hin))
        exact absurd (hinv.exclusive.unique hcache hhandler) nofun
    rcases hframe.handlerPc with heq | heq
    · rw [heq]
      exact hbase.signalled
    · rw [heq]
      exact hbase

end Move

/-! ## The loop over the interfaces -/

theorem sendCopies_drop {build : Build} {base : Peerbase} {sendto : ℕ → Bool} {i : ℕ}
    {iface : Iface} (hi : base.host.used[i]? = some iface) :
    sendCopies build base sendto i (base.host.used.drop i) =
      (copyAddr build base iface).bind fun addr =>
        let r := sendPacket iface (sockaddrFill addr iprpDataPort) base.inds (sendto i)
        if r.2 then
          (sendCopies build base sendto (i + 1) (base.host.used.drop (i + 1))).map
            fun r' => (r.1 ++ r'.1, r'.2)
        else some (r.1, false) := by
  obtain ⟨hlt, heq⟩ := List.getElem?_eq_some_iff.1 hi
  rw [List.drop_eq_getElem_cons hlt, heq, sendCopies, Option.bind_eq_bind]
  refine congrArg _ (funext fun addr => ?_)
  dsimp only
  split
  · rw [Option.bind_eq_bind]
    cases sendCopies build base sendto (i + 1) (base.host.used.drop (i + 1)) with
    | none => rfl
    | some r => rfl
  · rfl

theorem destination_eq {build : Build} {base : Peerbase} {group : InAddr}
    (hgroup : build = .multicast → group = base.link.destAddr) (iface : Iface) :
    destination build base group iface = copyAddr build base iface := by
  unfold destination copyAddr
  cases build with
  | unicast => rfl
  | multicast => rw [hgroup rfl]

/-- A packet that is under way is finished as the sequential handler finishes it. -/
theorem Built.handlePacket {t : Target} {base : Peerbase} {st : Isd.State} {d : Daemon}
    {g : Request} {made : Made} (h : Built t base.link st d g made) {copies : List Copy}
    {go : Bool}
    (hcopies : sendCopies t.build base g.sendto 0 base.host.used = some (copies, go)) :
    handlePacket t base g.heap g.currTime g.sendto g.buf d.state =
      some (⟨made.verdict, made.packet, copies, go⟩, st) := by
  unfold Isd.handlePacket
  simp only [h.packet, h.verdict, hcopies, Option.bind_eq_bind, Option.bind_some]
  rfl

section Handler

variable {t : Target} {link : Link} {P : CachedBase → Prop} {s : State}

/-- The datagram with its outcome is one more step of the sequential handler. -/
theorem Handled.finish {s' : State} {taken : List (Request × CachedBase)} {d : Daemon}
    (hd : Handled t s.base.link P s taken d) (hbase : P s.base) (halive : s.alive = true)
    {g : Request} (hg : s.handlerPc.request = some g) {made : Made}
    (hbuilt : Built t s.base.link ⟨s.seqNb, s.lastAllowedThru⟩ d g made)
    {copies : List Copy} {go : Bool}
    (hcopies : sendCopies t.build s.base.toPeerbase g.sendto 0 s.base.host.used =
      some (copies, go))
    (hpc : s'.handlerPc = .receive) (hreceived : s'.received = s.received)
    (houtcomes : s'.outcomes = s.outcomes ++ [⟨made.verdict, made.packet, copies, go⟩])
    (hstate : s'.seqNb = s.seqNb ∧ s'.lastAllowedThru = s.lastAllowedThru)
    (hgo : s'.alive = true → go = true) :
    Sequential t s.base.link P s' := by
  refine ⟨taken ++ [(g, s.base)], ⟨⟨s.seqNb, s.lastAllowedThru⟩, go,
    d.outcomes ++ [⟨made.verdict, made.packet, copies, go⟩]⟩, ?_, ?_, ?_, ?_, ?_, ?_⟩
  · rw [List.map_append]
    refine Run.runFrom_append_singleton_eq_some.2 ⟨d, hd.run, ?_⟩
    rw [daemonStep, if_pos (hd.pending halive).1]
    exact congrArg _ (hbuilt.handlePacket hcopies)
  · rw [hreceived, hd.received, hg, hpc]
    simp [HandlerPc.request]
  · intro p hp
    rcases List.mem_append.1 hp with hold | hnew
    · exact hd.bases p hold
    · rw [List.mem_singleton.1 hnew]
      exact hbase
  · rw [houtcomes, List.length_append, List.length_append, hd.length]
    rfl
  · rw [houtcomes, hd.outcomes]
  · intro halive'
    refine ⟨hgo halive', ?_⟩
    rw [hpc, hstate.1, hstate.2]
    rfl

theorem Sequential.sendStep (hP : ∀ base, P base → base.link = link) {s' : State}
    (hs : Sequential t link P s) (hbase : P s.base) (halive : s.alive = true) {g : Request}
    {made : Made} {group : InAddr} {copies : List Copy} {i : ℕ}
    (hpc : s.handlerPc = .send g made group copies i)
    (h : sendStep t g made group copies i s = some s') : Sequential t link P s' := by
  obtain ⟨taken, d, hd⟩ := hs
  have hpending := (hd.pending halive).2
  rw [hpc] at hpending
  obtain ⟨hbuilt, hgroup, hloop⟩ := hpending
  obtain rfl := hP s.base hbase
  have hg : s.handlerPc.request = some g := by rw [hpc, HandlerPc.request]
  unfold Cache.sendStep at h
  split at h
  · next hend =>
      obtain rfl := Option.some.inj h
      have hdrop : s.base.host.used.drop i = [] :=
        List.drop_eq_nil_of_le (List.getElem?_eq_none_iff.1 hend)
      rw [hdrop, sendCopies, Option.map_some, List.append_nil] at hloop
      exact hd.finish hbase halive hg hbuilt hloop rfl rfl rfl ⟨rfl, rfl⟩ fun _ => rfl
  · next iface hiface =>
      obtain ⟨addr, haddr, h⟩ := Option.bind_eq_some_iff.1 h
      rw [destination_eq hgroup] at haddr
      rw [sendCopies_drop hiface, haddr, Option.bind_some] at hloop
      dsimp only at h hloop
      split at h
      · next hgo =>
          obtain rfl := Option.some.inj h
          refine ⟨taken, d, hd.run, ?_, hd.bases, hd.length, hd.outcomes,
            fun _ => ⟨(hd.pending halive).1, hbuilt, hgroup, ?_⟩⟩
          · rw [hd.received, hg]
            rfl
          · rw [hloop, if_pos hgo, Option.map_map]
            refine congrArg (fun f => Option.map f _) (funext fun r => ?_)
            simp only [Function.comp_apply, List.append_assoc]
      · next hstop =>
          obtain rfl := Option.some.inj h
          rw [if_neg hstop, Option.map_some] at hloop
          exact hd.finish hbase halive hg hbuilt hloop rfl rfl rfl ⟨rfl, rfl⟩
            fun halive' => absurd halive' Bool.false_ne_true

theorem Sequential.receive (hs : Sequential t link P s) (halive : s.alive = true)
    (hpc : s.handlerPc = .receive) (g : Request) :
    Sequential t link P { s with handlerPc := .readPort g, received := s.received ++ [g] } := by
  obtain ⟨taken, d, hd⟩ := hs
  obtain ⟨hdalive, hpending⟩ := hd.pending halive
  rw [hpc] at hpending
  refine ⟨taken, d, hd.run, ?_, hd.bases, hd.length, hd.outcomes, fun _ => ⟨hdalive, hpending⟩⟩
  rw [hd.received, hpc]
  simp [HandlerPc.request]

theorem Sequential.readPort (hP : ∀ base, P base → base.link = link)
    (hs : Sequential t link P s) (hfile : FromFile P s) (hbase : P s.base)
    (halive : s.alive = true) {g : Request} (hpc : s.handlerPc = .readPort g)
    (choice : ℕ → Bool) :
    Sequential t link P { s with
      handlerPc := .readAddr g
        (UInt16.ofNat (decode t.order (s.seen choice (destPortBytes t.order)).toList)) } := by
  have hread : s.seen choice (destPortBytes t.order) = word16Bytes t.order link.destPort :=
    seen_eq hfile hbase (fun base hb => by rw [destPortBytes, hP base hb]) choice
  have hbytes : (word16Bytes t.order link.destPort).toList =
      encode t.order 2 link.destPort.toNat := by simp [word16Bytes]
  refine hs.move halive rfl (by rw [hpc]; rfl) rfl fun d hd => ?_
  rw [hpc] at hd
  refine ⟨hd, ?_⟩
  rw [hread, hbytes, decode_encode t.order link.destPort.toNat_lt, UInt16.ofNat_toNat]

theorem Sequential.readAddr (hP : ∀ base, P base → base.link = link)
    (hs : Sequential t link P s) (hfile : FromFile P s) (hbase : P s.base)
    (halive : s.alive = true) {g : Request} {destPort : UInt16}
    (hpc : s.handlerPc = .readAddr g destPort) {destAddr : InAddr} {choice : ℕ → Bool}
    (haddr : t.build = .unicast → destAddr = s.seen choice fun base => base.link.destAddr) :
    Sequential t link P { s with handlerPc := .readSnsid g destPort destAddr } := by
  refine hs.move halive rfl (by rw [hpc]; rfl) rfl fun d hd => ?_
  rw [hpc] at hd
  refine ⟨hd.1, hd.2, fun hb => (haddr hb).trans ?_⟩
  exact seen_eq hfile hbase (fun base hb => by rw [hP base hb]) choice

theorem Sequential.readSnsid (hP : ∀ base, P base → base.link = link)
    (hs : Sequential t link P s) (hfile : FromFile P s) (hbase : P s.base)
    (halive : s.alive = true) {g : Request} {destPort : UInt16} {destAddr : InAddr}
    (hpc : s.handlerPc = .readSnsid g destPort destAddr) {choice : ℕ → Bool}
    {packet : List UInt8} {seqNb : UInt32}
    (hpacket : createIprpPacket t ⟨inAddr 0 0 0 0, destAddr, 0, destPort,
      s.seen choice fun base => base.link.snsid⟩ g.heap s.seqNb g.buf = some (packet, seqNb)) :
    Sequential t link P { s with
      seqNb := seqNb
      lastAllowedThru := (getVerdict t.build g.currTime s.lastAllowedThru).2
      handlerPc :=
        .readGroup g ⟨packet, (getVerdict t.build g.currTime s.lastAllowedThru).1⟩ } := by
  have hsnsid : (s.seen choice fun base => base.link.snsid) = link.snsid :=
    seen_eq hfile hbase (fun base hb => by rw [hP base hb]) choice
  refine hs.move halive rfl (by rw [hpc]; rfl) rfl fun d hd => ?_
  rw [hpc] at hd
  obtain ⟨hstate, hport, haddr⟩ := hd
  refine ⟨?_, ?_⟩
  · rw [hstate]
    exact (createIprpPacket_congr hport haddr hsnsid g.heap s.seqNb g.buf).symm.trans hpacket
  · rw [hstate]

theorem Sequential.readGroup (hP : ∀ base, P base → base.link = link)
    (hs : Sequential t link P s) (hfile : FromFile P s) (hbase : P s.base)
    (halive : s.alive = true) {g : Request} {made : Made}
    (hpc : s.handlerPc = .readGroup g made) {group : InAddr} {choice : ℕ → Bool}
    (hgroup : t.build = .multicast → group = s.seen choice fun base => base.link.destAddr) :
    Sequential t link P { s with handlerPc := .sendLock g made group } := by
  refine hs.move halive rfl (by rw [hpc]; rfl) rfl fun d hd => ?_
  rw [hpc] at hd
  refine ⟨hd, fun hb => (hgroup hb).trans ?_⟩
  exact seen_eq hfile hbase (fun base hb => by rw [hP base hb]) choice

theorem Sequential.sendLock (hs : Sequential t link P s) (halive : s.alive = true) {g : Request}
    {made : Made} {group : InAddr} (hpc : s.handlerPc = .sendLock g made group)
    (m : Option Latch.Thread) :
    Sequential t link P { s with holder := m, handlerPc := .send g made group [] 0 } := by
  refine hs.move halive rfl (by rw [hpc]; rfl) rfl fun d hd => ?_
  rw [hpc] at hd
  refine ⟨hd.1, hd.2, ?_⟩
  rw [List.drop_zero]
  simp

/-- Without a datagram in hand the two have come equally far. -/
theorem pending_iff_of_idle {base : CachedBase} {st : Isd.State} {d : Daemon} {pc : HandlerPc}
    (hpc : pc.request = none) : Pending t link base st d pc ↔ d.state = st := by
  cases pc with
  | lock => exact Iff.rfl
  | check => exact Iff.rfl
  | wait => exact Iff.rfl
  | blocked => exact Iff.rfl
  | relock => exact Iff.rfl
  | leave => exact Iff.rfl
  | receive => exact Iff.rfl
  | _ => cases hpc

theorem Sequential.waits (hs : Sequential t link P s) (halive : s.alive = true)
    (hidle : s.handlerPc.request = none) {m : Option Latch.Thread} {pc : HandlerPc}
    (hpc : pc.request = none) : Sequential t link P { s with holder := m, handlerPc := pc } := by
  refine hs.move halive rfl (hpc.trans hidle.symm) rfl fun d hd => ?_
  exact (pending_iff_of_idle hpc).2 ((pending_iff_of_idle hidle).1 hd)

theorem Sequential.handlerStep (hP : ∀ base, P base → base.link = link) {s' : State}
    (hs : Sequential t link P s) (hfile : FromFile P s) (hinv : Latch.Inv s.view)
    (halive : s.alive = true) {g : Request} {choice : ℕ → Bool}
    (h : handlerStep t g choice s = some s') : Sequential t link P s' := by
  have hout : s.handlerPc.view = .out → P s.base := fun hpc =>
    base_of_passed hfile hinv (Or.inr (Or.inl hpc))
  unfold Cache.handlerStep at h
  split at h
  · next hpc =>
      obtain ⟨m, -, rfl⟩ := Option.map_eq_some_iff.1 h
      exact hs.waits halive (by rw [hpc]; rfl) rfl
  · next hpc =>
      obtain rfl := Option.some.inj h
      refine hs.waits halive (by rw [hpc]; rfl) ?_
      split
      · rfl
      · rfl
  · next hpc =>
      obtain rfl := Option.some.inj h
      exact hs.waits halive (by rw [hpc]; rfl) rfl
  · cases h
  · next hpc =>
      obtain ⟨m, -, rfl⟩ := Option.map_eq_some_iff.1 h
      exact hs.waits halive (by rw [hpc]; rfl) rfl
  · next hpc =>
      obtain rfl := Option.some.inj h
      exact hs.waits halive (by rw [hpc]; rfl) rfl
  · next hpc =>
      obtain rfl := Option.some.inj h
      exact hs.receive halive hpc g
  · next hpc =>
      obtain rfl := Option.some.inj h
      exact hs.readPort hP hfile (hout (by rw [hpc]; rfl)) halive hpc choice
  · next hpc =>
      obtain rfl := Option.some.inj h
      exact hs.readAddr hP hfile (hout (by rw [hpc]; rfl)) halive hpc fun hb => by rw [hb]
  · next hpc =>
      obtain ⟨⟨packet, seqNb⟩, hpacket, h⟩ := Option.bind_eq_some_iff.1 h
      obtain rfl := Option.some.inj h
      exact hs.readSnsid hP hfile (hout (by rw [hpc]; rfl)) halive hpc hpacket
  · next hpc =>
      obtain rfl := Option.some.inj h
      exact hs.readGroup hP hfile (hout (by rw [hpc]; rfl)) halive hpc fun hb => by rw [hb]
  · next hpc =>
      obtain ⟨m, -, rfl⟩ := Option.map_eq_some_iff.1 h
      exact hs.sendLock halive hpc m
  · next hpc =>
      exact hs.sendStep hP (base_of_passed hfile hinv (Or.inr (Or.inr (by rw [hpc]; rfl))))
        halive hpc h

end Handler

theorem Sequential.step {t : Target} {link : Link} {P : CachedBase → Prop}
    (hP : ∀ base, P base → base.link = link) {s s' : State} {e : Event}
    (hs : Sequential t link P s) (hfile : FromFile P s) (hinv : Latch.Inv s.view)
    (h : step t s e = some s') : Sequential t link P s' := by
  unfold Cache.step at h
  split at h
  · next halive =>
      cases e with
      | cache file setsockopt => exact hs.cacheStep hinv halive h
      | handler g choice => exact hs.handlerStep hP hfile hinv halive h
      | wakeup =>
          dsimp only at h
          split at h
          · next hpc =>
              obtain rfl := Option.some.inj h
              exact hs.waits halive (by rw [hpc]; rfl) rfl
          · cases h
  · cases h

theorem sequential_init (t : Target) (link : Link) (P : CachedBase → Prop) :
    Sequential t link P init :=
  ⟨[], Daemon.init, rfl, rfl, nofun, rfl, rfl, fun _ => ⟨rfl, rfl⟩⟩

/-- A base that was loaded in the run. -/
def LoadedIn (es : List Event) (base : CachedBase) : Prop :=
  ∃ setsockopt, Event.cache (some base) setsockopt ∈ es

theorem loads_of_mem {es : List Event} {e : Event} (he : e ∈ es) : e.Loads (LoadedIn es) := by
  rintro base setsockopt rfl
  exact ⟨setsockopt, he⟩

/-- In every interleaving of the two threads, with the bytes of the base torn in any way while it
is copied: when all peerbases that are loaded have the same link, the outcomes are those of the
sequential handler on the datagrams in the order in which they were taken off the queue, each
with one whole loaded base. Only the datagram in hand has no outcome yet. -/
theorem run_sequential (t : Target) {link : Link} {es : List Event}
    (hlink : ∀ base, LoadedIn es base → base.link = link) {s : State}
    (h : run t es = some s) :
    ∃ taken : List (Request × CachedBase), ∃ d,
      Isd.run t (taken.map fun p => p.1.datagram p.2) = some d ∧
      s.received = taken.map Prod.fst ++ s.handlerPc.request.toList ∧
      s.outcomes.length = taken.length ∧ d.outcomes = s.outcomes ∧
      ∀ p ∈ taken, LoadedIn es p.2 := by
  have hboth : FromFile (LoadedIn es) s ∧ Latch.Inv s.view ∧
      Sequential t link (LoadedIn es) s := by
    refine Run.runFrom_invariant (fun s => FromFile (LoadedIn es) s ∧ Latch.Inv s.view ∧
      Sequential t link (LoadedIn es) s) (· ∈ es) ?_
      ⟨fromFile_init _, Latch.inv_init, sequential_init t link _⟩ (fun _ he => he) h
    rintro s e s' ⟨hfile, hinv, hs⟩ he hstep
    exact ⟨hfile.step (loads_of_mem he) hstep, inv_step hinv hstep,
      hs.step hlink hfile hinv hstep⟩
  obtain ⟨-, -, taken, d, hd⟩ := hboth
  exact ⟨taken, d, hd.run, hd.received, hd.length, hd.outcomes, hd.bases⟩

/-- A host with two interfaces. -/
def twoIfaces : Host :=
  ⟨2, Vector.ofFn fun i => if i = 0 then ⟨3, inAddr 10 0 3 1⟩ else ⟨5, inAddr 10 0 5 1⟩⟩

theorem twoIfaces_nbIfaces_le : twoIfaces.nbIfaces ≤ 16 := by
  decide

theorem twoIfaces_ind_lt : ∀ iface ∈ twoIfaces.used, iface.ind.toNat < 16 := by
  decide

/-- The peerbase of a link from this host to a group. -/
def groupBase (inds : IndBitmap) : CachedBase where
  link := ⟨inAddr 10 0 0 1, inAddr 239 0 0 1, 4000, 5000, Vector.replicate 20 1⟩
  host := twoIfaces
  inds := inds
  destAddr := Vector.replicate 16 (inAddr 0 0 0 0)
  nbIfaces_le := twoIfaces_nbIfaces_le
  ind_lt := twoIfaces_ind_lt

theorem payloadBuf_length (payload : UInt8) :
    (List.replicate 28 (0 : UInt8) ++ [payload]).length = 29 := by
  simp

/-- A datagram with a byte of payload. -/
def payloadRequest (payload : UInt8) : Request where
  heap := fun _ => 0
  currTime := 0
  sendto := fun _ => true
  buf := List.replicate 28 0 ++ [payload]
  headers_le := by rw [payloadBuf_length]; exact Nat.le_add_right 28 1
  length_le := by rw [payloadBuf_length]; exact Nat.le_add_right 29 65506

/-- Two datagrams, of which the first is handled with the base of the first pass, for one IND.
While the fields for the header of the second are read, the second pass copies over it a base for
both INDs. -/
def groupEvents : List Event :=
  List.replicate 9 (.cache (some (groupBase 8)) true) ++
    List.replicate 12 (.handler (payloadRequest 1) fun _ => false) ++
    [.handler (payloadRequest 2) fun _ => false] ++
    List.replicate 2 (.cache (some (groupBase 40)) true) ++
    List.replicate 4 (.handler (payloadRequest 2) fun i => i % 2 == 0) ++
    List.replicate 2 (.cache none true) ++
    List.replicate 4 (.handler (payloadRequest 2) fun _ => false)

theorem loadedIn_groupEvents {base : CachedBase} (h : LoadedIn groupEvents base) :
    ∃ inds, base = groupBase inds := by
  obtain ⟨setsockopt, hmem⟩ := h
  simp only [groupEvents, List.mem_append, List.mem_replicate, List.mem_singleton] at hmem
  rcases hmem with (((((⟨-, h⟩ | ⟨-, h⟩) | h) | ⟨-, h⟩) | ⟨-, h⟩) | ⟨-, h⟩) | ⟨-, h⟩
  · cases h
    exact ⟨8, rfl⟩
  · cases h
  · cases h
  · cases h
    exact ⟨40, rfl⟩
  · cases h
  · cases h
  · cases h

theorem run_groupEvents : ∃ s, run ⟨.multicast, .little⟩ groupEvents = some s ∧
    s.received.map Request.buf = [(payloadRequest 1).buf, (payloadRequest 2).buf] ∧
    s.outcomes.map Outcome.copies =
      [[⟨3, sockaddrFill (inAddr 239 0 0 1) iprpDataPort⟩],
        [⟨3, sockaddrFill (inAddr 239 0 0 1) iprpDataPort⟩,
          ⟨5, sockaddrFill (inAddr 239 0 0 1) iprpDataPort⟩]] ∧
    s.sent.map (fun p => p.1.ind) = [3, 3, 5] := by
  have hrun : (run ⟨.multicast, .little⟩ groupEvents).map (fun s =>
      (s.received.map Request.buf, s.outcomes.map Outcome.copies,
        s.sent.map fun p => p.1.ind)) =
      some ([(payloadRequest 1).buf, (payloadRequest 2).buf],
        [[⟨3, sockaddrFill (inAddr 239 0 0 1) iprpDataPort⟩],
          [⟨3, sockaddrFill (inAddr 239 0 0 1) iprpDataPort⟩,
            ⟨5, sockaddrFill (inAddr 239 0 0 1) iprpDataPort⟩]], [3, 3, 5]) := by
    decide +kernel
  obtain ⟨s, hs, heq⟩ := Option.map_eq_some_iff.1 hrun
  obtain ⟨hreceived, heq⟩ := Prod.mk.inj heq
  obtain ⟨hcopies, hsent⟩ := Prod.mk.inj heq
  exact ⟨s, hs, hreceived, hcopies, hsent⟩

theorem run_sequential_group :
    ∃ s, ∃ taken : List (Request × CachedBase), ∃ d,
      run ⟨.multicast, .little⟩ groupEvents = some s ∧
      s.received.map Request.buf = [(payloadRequest 1).buf, (payloadRequest 2).buf] ∧
      (s.outcomes.map Outcome.copies).map List.length = [1, 2] ∧
      Isd.run ⟨.multicast, .little⟩ (taken.map fun p => p.1.datagram p.2) = some d ∧
      s.received = taken.map Prod.fst ++ s.handlerPc.request.toList ∧
      s.outcomes.length = taken.length ∧ d.outcomes = s.outcomes ∧
      ∀ p ∈ taken, LoadedIn groupEvents p.2 := by
  obtain ⟨s, hs, hreceived, hcopies, -⟩ := run_groupEvents
  have hlink : ∀ base, LoadedIn groupEvents base → base.link = (groupBase 8).link := by
    intro base hbase
    obtain ⟨inds, rfl⟩ := loadedIn_groupEvents hbase
    rfl
  obtain ⟨taken, d, hseq⟩ := run_sequential ⟨.multicast, .little⟩ hlink hs
  have hlengths : (s.outcomes.map Outcome.copies).map List.length = [1, 2] := by
    rw [hcopies]
    rfl
  exact ⟨s, taken, d, hs, hreceived, hlengths, hseq⟩

/-! ## Outgoing interfaces -/

/-- The socket of every interface of the host is configured, as far as the pass has come and all
of them once the handler can be past its wait. Copies were sent with such sockets. -/
structure Configured (host : Host) (s : State) : Prop where
  sockets : ∀ i, s.cachePc = .sockets i → ∀ j < i, ∀ iface, host.used[j]? = some iface →
    s.outgoing iface.ind.toNat = some iface.addr
  all : s.loaded = true ∨ s.cachePc = .setLoaded ∨ s.cachePc = .signal →
    ∀ iface ∈ host.used, s.outgoing iface.ind.toNat = some iface.addr
  sent : ∀ p ∈ s.sent, p.2 = some p.1.addr

theorem configured_init (host : Host) : Configured host init :=
  ⟨nofun, nofun, nofun⟩

theorem update_outgoing {host : Host} (hdistinct : (host.used.map Iface.ind).Nodup)
    {outgoing : ℕ → Option InAddr} {iface iface' : Iface} (hi : iface ∈ host.used)
    (hi' : iface' ∈ host.used) (h : outgoing iface'.ind.toNat = some iface'.addr) :
    Function.update outgoing iface.ind.toNat (some iface.addr) iface'.ind.toNat =
      some iface'.addr := by
  rw [Function.update_apply]
  split
  · next heq =>
      rw [List.inj_on_of_nodup_map hdistinct hi' hi (UInt8.toNat_inj.1 heq)]
  · exact h

/-- A step that configures no socket and tells nobody that all are configured. -/
theorem Configured.elsewhere {host : Host} {s s' : State} (hs : Configured host s)
    (hsockets : ∀ i, s'.cachePc ≠ .sockets i) (hset : s'.cachePc ≠ .setLoaded)
    (hsignal : s'.cachePc ≠ .signal) (hloaded : s'.loaded = s.loaded)
    (houtgoing : s'.outgoing = s.outgoing) (hsent : s'.sent = s.sent) : Configured host s' := by
  refine ⟨fun i hpc => absurd hpc (hsockets i), ?_, ?_⟩
  · rintro (hl | hl | hl)
    · rw [houtgoing]
      exact hs.all (Or.inl (hloaded.symm.trans hl))
    · exact absurd hl hset
    · exact absurd hl hsignal
  · rw [hsent]
    exact hs.sent

/-- The socket of one more interface. -/
theorem Configured.configure {host : Host} (hdistinct : (host.used.map Iface.ind).Nodup)
    {s : State} (hs : Configured host s) {i : ℕ} (hpc : s.cachePc = .sockets i) {iface : Iface}
    (hiface : host.used[i]? = some iface) :
    Configured host { s with
      outgoing := Function.update s.outgoing iface.ind.toNat (some iface.addr)
      cachePc := .sockets (i + 1) } := by
  have hmem := List.mem_of_getElem? hiface
  refine ⟨?_, ?_, hs.sent⟩
  · intro i' hpc' j hj iface' hiface'
    obtain rfl : i + 1 = i' := CachePc.sockets.inj hpc'
    rcases Nat.lt_succ_iff_lt_or_eq.1 hj with hlt | rfl
    · exact update_outgoing hdistinct hmem (List.mem_of_getElem? hiface')
        (hs.sockets i hpc j hlt iface' hiface')
    · obtain rfl := Option.some.inj (hiface.symm.trans hiface')
      exact Function.update_self _ _ _
  · intro hl iface' hiface'
    exact update_outgoing hdistinct hmem hiface'
      (hs.all (Or.inl (hl.resolve_right nofun)) iface' hiface')

/-- Past the last interface all sockets are configured. -/
theorem Configured.ends {host : Host} {s : State} (hs : Configured host s) {i : ℕ}
    (hpc : s.cachePc = .sockets i) (hend : host.used[i]? = none) :
    Configured host { s with cachePc := .setLoaded } := by
  refine ⟨nofun, fun _ iface hiface => ?_, hs.sent⟩
  obtain ⟨j, hj⟩ := List.mem_iff_getElem?.1 hiface
  have hlt : j < host.used.length := (List.getElem?_eq_some_iff.1 hj).1
  exact hs.sockets i hpc j (lt_of_lt_of_le hlt (List.getElem?_eq_none_iff.1 hend)) iface hj

theorem Configured.cacheStep {host : Host} (hdistinct : (host.used.map Iface.ind).Nodup)
    {t : Target} (ht : t.build = .multicast) {file : Option CachedBase} {setsockopt : Bool}
    {s s' : State} (hs : Configured host s)
    (hbase : ¬ s.cachePc.Before → s.base.host = host)
    (h : cacheStep t file setsockopt s = some s') : Configured host s' := by
  unfold Cache.cacheStep at h
  split at h
  · split at h
    · obtain rfl := Option.some.inj h
      exact ⟨hs.sockets, hs.all, hs.sent⟩
    · obtain rfl := Option.some.inj h
      exact hs.elsewhere nofun nofun nofun rfl rfl rfl
  · obtain ⟨m, -, rfl⟩ := Option.map_eq_some_iff.1 h
    exact hs.elsewhere nofun nofun nofun rfl rfl rfl
  · obtain rfl := Option.some.inj h
    exact hs.elsewhere nofun nofun nofun rfl rfl rfl
  · obtain rfl := Option.some.inj h
    rw [ht]
    refine ⟨?_, fun hl => hs.all (Or.inl (hl.resolve_right nofun)), hs.sent⟩
    intro i hpc j hj
    cases hpc
    exact absurd hj (Nat.not_lt_zero j)
  · next i hpc =>
      have hhost : s.base.host = host := hbase (by rw [hpc]; exact id)
      rw [hhost] at h
      split at h
      · next iface hiface =>
          split at h
          · obtain rfl := Option.some.inj h
            exact hs.configure hdistinct hpc hiface
          · obtain rfl := Option.some.inj h
            exact ⟨hs.sockets, hs.all, hs.sent⟩
      · next hend =>
          obtain rfl := Option.some.inj h
          exact hs.ends hpc hend
  · next hpc =>
      obtain rfl := Option.some.inj h
      exact ⟨nofun, fun _ => hs.all (Or.inr (Or.inl hpc)), hs.sent⟩
  · obtain rfl := Option.some.inj h
    exact hs.elsewhere nofun nofun nofun rfl rfl rfl

theorem Configured.sendStep {host : Host} {t : Target} {s s' : State} (hs : Configured host s)
    (hhost : s.base.host = host) (hloaded : s.loaded = true) {g : Request} {made : Made}
    {group : InAddr} {copies : List Copy} {i : ℕ}
    (h : sendStep t g made group copies i s = some s') : Configured host s' := by
  unfold Cache.sendStep at h
  split at h
  · obtain rfl := Option.some.inj h
    exact ⟨hs.sockets, hs.all, hs.sent⟩
  · next iface hiface =>
      obtain ⟨addr, -, h⟩ := Option.bind_eq_some_iff.1 h
      have hmem : iface ∈ host.used := hhost ▸ List.mem_of_getElem? hiface
      have hsent : ∀ copies' : List Copy,
          ∀ p ∈ s.sent ++ copies'.map fun _ => (iface, s.outgoing iface.ind.toNat),
            p.2 = some p.1.addr := by
        intro copies' p hp
        rcases List.mem_append.1 hp with hold | hnew
        · exact hs.sent p hold
        · obtain ⟨copy, -, rfl⟩ := List.mem_map.1 hnew
          exact hs.all (Or.inl hloaded) iface hmem
      dsimp only at h
      split at h
      · obtain rfl := Option.some.inj h
        exact ⟨hs.sockets, hs.all, hsent _⟩
      · obtain rfl := Option.some.inj h
        exact ⟨hs.sockets, hs.all, hsent _⟩

theorem handlerStep_sent {t : Target} {g : Request} {choice : ℕ → Bool} {s s' : State}
    (hpc : s.handlerPc.view ≠ .inside) (h : handlerStep t g choice s = some s') :
    s'.sent = s.sent := by
  unfold handlerStep at h
  split at h
  · obtain ⟨m, -, rfl⟩ := Option.map_eq_some_iff.1 h
    rfl
  · obtain rfl := Option.some.inj h
    rfl
  · obtain rfl := Option.some.inj h
    rfl
  · cases h
  · obtain ⟨m, -, rfl⟩ := Option.map_eq_some_iff.1 h
    rfl
  · obtain rfl := Option.some.inj h
    rfl
  · obtain rfl := Option.some.inj h
    rfl
  · obtain rfl := Option.some.inj h
    rfl
  · obtain rfl := Option.some.inj h
    rfl
  · obtain ⟨r, -, h⟩ := Option.bind_eq_some_iff.1 h
    obtain rfl := Option.some.inj h
    rfl
  · obtain rfl := Option.some.inj h
    rfl
  · obtain ⟨m, -, rfl⟩ := Option.map_eq_some_iff.1 h
    rfl
  · next hsend => exact absurd (by rw [hsend]; rfl) hpc

theorem Configured.handlerStep {host : Host} {P : CachedBase → Prop}
    (hP : ∀ base, P base → base.host = host) {t : Target} {s s' : State}
    (hs : Configured host s) (hfile : FromFile P s) (hinv : Latch.Inv s.view) {g : Request}
    {choice : ℕ → Bool} (h : handlerStep t g choice s = some s') : Configured host s' := by
  by_cases hin : s.handlerPc.view = .inside
  · have hhost := hP s.base (base_of_passed hfile hinv (Or.inr (Or.inr hin)))
    have hloaded : s.loaded = true := hinv.passed (Or.inr (Or.inr hin))
    unfold Cache.handlerStep at h
    split at h
    case h_13 => exact hs.sendStep hhost hloaded h
    all_goals next hpc => rw [hpc] at hin; cases hin
  · have hframe := handlerStep_frame h
    refine ⟨?_, ?_, ?_⟩
    · rw [hframe.cachePc, hframe.outgoing]
      exact hs.sockets
    · rw [hframe.loaded, hframe.cachePc, hframe.outgoing]
      exact hs.all
    · rw [handlerStep_sent hin h]
      exact hs.sent

theorem Configured.step {host : Host} (hdistinct : (host.used.map Iface.ind).Nodup)
    {P : CachedBase → Prop} (hP : ∀ base, P base → base.host = host) {t : Target}
    (ht : t.build = .multicast) {s s' : State} {e : Event} (hs : Configured host s)
    (hfile : FromFile P s) (hinv : Latch.Inv s.view) (h : step t s e = some s') :
    Configured host s' := by
  unfold Cache.step at h
  split at h
  · cases e with
    | cache file setsockopt =>
        refine hs.cacheStep hdistinct ht (fun hpc => hP s.base ?_) h
        exact hfile.base.resolve_left fun hb => hpc hb.2
    | handler g choice => exact hs.handlerStep hP hfile hinv h
    | wakeup =>
        dsimp only at h
        split at h
        · obtain rfl := Option.some.inj h
          exact ⟨hs.sockets, hs.all, hs.sent⟩
        · cases h
  · cases h

/-- In every interleaving of the multicast build: when all peerbases that are loaded have the same
host, with an IND of its own for each interface, every copy is sent on a socket whose outgoing
interface is the one the copy is for. -/
theorem sent_outgoing {t : Target} (ht : t.build = .multicast) {host : Host}
    (hdistinct : (host.used.map Iface.ind).Nodup) {es : List Event}
    (hhost : ∀ base, LoadedIn es base → base.host = host) {s : State} (h : run t es = some s) :
    ∀ p ∈ s.sent, p.2 = some p.1.addr := by
  have hboth : FromFile (LoadedIn es) s ∧ Latch.Inv s.view ∧ Configured host s := by
    refine Run.runFrom_invariant (fun s => FromFile (LoadedIn es) s ∧ Latch.Inv s.view ∧
      Configured host s) (· ∈ es) ?_
      ⟨fromFile_init _, Latch.inv_init, configured_init host⟩ (fun _ he => he) h
    rintro s e s' ⟨hfile, hinv, hs⟩ he hstep
    exact ⟨hfile.step (loads_of_mem he) hstep, inv_step hinv hstep,
      hs.step hdistinct hhost ht hfile hinv hstep⟩
  exact hboth.2.2.sent

theorem sent_outgoing_group :
    ∃ s, run ⟨.multicast, .little⟩ groupEvents = some s ∧
      s.sent.map (fun p => p.1.ind) = [3, 3, 5] ∧ ∀ p ∈ s.sent, p.2 = some p.1.addr := by
  obtain ⟨s, hs, -, -, hsent⟩ := run_groupEvents
  have hdistinct : (twoIfaces.used.map Iface.ind).Nodup := by decide
  have hhost : ∀ base, LoadedIn groupEvents base → base.host = twoIfaces := by
    intro base hbase
    obtain ⟨inds, rfl⟩ := loadedIn_groupEvents hbase
    rfl
  exact ⟨s, hs, hsent, sent_outgoing rfl hdistinct hhost hs⟩

end Iprp.Isd.Cache
