import Iprp.Icd.Acks
import Iprp.Icd.Indices
import Iprp.Imd.Timestamps
import Iprp.Library.Numbered

/-!
# The lists that are pushed to disk

`count_and_cleanup` and `get_entries` of `src/imd/activesenders.c`, and `count_and_cleanup` and
`get_file_contents` of `src/icd/senderifaces.c`, are the same two loops over two lists: the
active senders, which the packet handlers of the IMD use meanwhile, and the sender interfaces,
which the ACKs and the rounds of `as_routine` of the ICD use. The library's `Snapshot` is their
common form, and both daemons push exactly the entries that their cleanup has kept
(`pushed_exact`).
-/

namespace Iprp

open Bytes KeyedList Snapshot

/-! ## The IMD -/

namespace Imd

/-- What a packet does to the active senders. -/
def useActiveSenders (t : Target) (currTime : ℤ) (p : Bool × QueuedPacket)
    (activeSenders : List Entry) : Option (List Entry) :=
  (globalHandle t currTime p.1 p.2.buf activeSenders).map Handled.activeSenders

theorem useActiveSenders_grows (t : Target) (currTime : ℤ) (p : Bool × QueuedPacket)
    (activeSenders : List Entry) :
    ∃ activeSenders' keys, useActiveSenders t currTime p activeSenders = some activeSenders' ∧
      activeSenders'.map Entry.key = activeSenders.map Entry.key ++ keys := by
  obtain ⟨sender, hsender⟩ := p.2.linkInformation_defined t.order
  obtain ⟨keys, hkeys⟩ := keys_recordSender t.build currTime p.1 sender activeSenders
  refine ⟨_, keys, ?_, hkeys⟩
  rw [useActiveSenders, globalHandle_eq hsender, Option.map_some]

def activeSendersCache (t : Target) : Cache where
  Store := List Entry
  Entry := Entry
  Key := Icd.ActiveSender
  Time := ℤ
  Use := Bool × QueuedPacket
  list activeSenders := activeSenders
  setList activeSenders _ := activeSenders
  list_setList _ _ := rfl
  key := Entry.key
  aged := aged
  use := useActiveSenders t
  use_grows := useActiveSenders_grows t

end Imd

/-! ## The ICD -/

namespace Icd

/-- What the other threads do to the sender interfaces. -/
inductive SiUse where
  | ack (heap : Heap) (msg : AckMsg) (nbIfaces_le : msg.host.nbIfaces ≤ 16)
  | round (senders : List ActiveSender)

def useSenderIfaces (c : Config) (currTime : ℤ) (u : SiUse) (s : Control) : Option Control :=
  match u with
  | .ack heap msg _ => handleAck c currTime heap msg s
  | .round senders => some (asRound c.target.build c.this.toHost currTime senders s).2

theorem useSenderIfaces_grows (c : Config) (currTime : ℤ) (u : SiUse) (s : Control) :
    ∃ s' contents, useSenderIfaces c currTime u s = some s' ∧
      s'.senderIfaces.map SenderIfaces.content =
        s.senderIfaces.map SenderIfaces.content ++ contents := by
  cases u with
  | ack heap msg nbIfaces_le =>
      obtain ⟨s', hs'⟩ := (handleMessage_defined_iff c currTime heap (.ack msg) s).2
        fun _ => nbIfaces_le
      have hack : handleAck c currTime heap msg s = some s' := hs'
      rcases handleAck_cases hack with ⟨old, hfound, rfl⟩ | ⟨new, hnone, hnew, rfl⟩
      · refine ⟨_, [], hack, ?_⟩
        rw [List.append_nil]
        exact content_update currTime msg.key s.senderIfaces
      · exact ⟨_, [new.content], hack, List.map_append⟩
  | round senders =>
      refine ⟨_, [], rfl, ?_⟩
      rw [List.append_nil]
      exact content_asRound c.target.build c.this.toHost currTime senders s

def senderIfacesCache (c : Config) : Cache where
  Store := Control
  Entry := SenderIfaces
  Key := SenderIfaces
  Time := ℤ
  Use := SiUse
  list s := s.senderIfaces
  setList senderIfaces s := { s with senderIfaces := senderIfaces }
  list_setList _ _ := rfl
  key := SenderIfaces.content
  aged := siAged
  use := useSenderIfaces c
  use_grows := useSenderIfaces_grows c

end Icd

/-! ## Both lists -/

/-- The lists of which a daemon pushes a copy to disk. -/
inductive Pushed where
  | activeSenders (t : Target)
  | senderIfaces (c : Icd.Config)

def Pushed.cache : Pushed → Cache
  | .activeSenders t => Imd.activeSendersCache t
  | .senderIfaces c => Icd.senderIfacesCache c

/-- In every interleaving of the two loops with the threads that use the list, from every list
and with the clock of each step at will: no null pointer is followed, the cleanup deletes the
entries that are aged when it examines them and no others, it examines all that are there before
its iterator becomes null, and the array that is pushed holds the entries examined and kept, each
once and in the order of the list. Every turn of the thread takes it on. The numbers tell the
entries of the list apart. -/
theorem pushed_exact (p : Pushed) (store : p.cache.Store)
    (es : List (Event p.cache.Time p.cache.Use)) :
    ∃ s, run p.cache.numbered (p.cache.number store) es = some s ∧
      run p.cache store es = some s.plain ∧
      Pruned p.cache.numbered s ∧ ArrayExact p.cache.numbered s ∧
      Swept p.cache.numbered (p.cache.number store) es s ∧ Advances p.cache.numbered es s ∧
      ∀ entries, s.phase = .done entries → (entries.map Prod.fst).Nodup :=
  exact_numbered store es

/-! Two senders, of which the first is too old. A third one comes while the cleanup is at the
second, and a fourth one after its last iteration. -/

def senderAt (n : UInt8) : Icd.ActiveSender := ⟨inAddr 10 0 0 n, inAddr 10 0 0 9, 4000, 5000⟩

def datagramFrom (n : UInt8) : Imd.QueuedPacket where
  buf := List.replicate 12 0 ++ [10, 0, 0, n, 10, 0, 0, 9, 0x0f, 0xa0, 0x13, 0x88, 0, 8, 0, 0]
  headers := Nat.le_of_eq rfl

def arrivalEvents : List (Event ℤ (Bool × Imd.QueuedPacket)) :=
  [⟨200, .maintain⟩, ⟨200, .use (false, datagramFrom 3)⟩, ⟨201, .maintain⟩, ⟨201, .maintain⟩,
    ⟨201, .use (false, datagramFrom 4)⟩, ⟨201, .maintain⟩, ⟨202, .maintain⟩, ⟨202, .maintain⟩,
    ⟨202, .maintain⟩]

def arrivalStart : List Imd.Entry := [⟨senderAt 1, 0, false⟩, ⟨senderAt 2, 190, false⟩]

theorem pushed_exact_arrival :
    ∃ s, run (Pushed.activeSenders ⟨.multicast, .little⟩).cache arrivalStart arrivalEvents =
        some (State.plain s) ∧
      (s.store.store.map Imd.Entry.key : List Icd.ActiveSender) =
        [senderAt 2, senderAt 3, senderAt 4] ∧
      s.phase = .done [(1, ⟨senderAt 2, 190, false⟩), (2, ⟨senderAt 3, 200, false⟩)] ∧
      Pruned _ s ∧ Swept _ ((Imd.activeSendersCache ⟨.multicast, .little⟩).number arrivalStart)
        arrivalEvents s := by
  have hrun : ∃ s, run (Imd.activeSendersCache ⟨.multicast, .little⟩).numbered
        ((Imd.activeSendersCache ⟨.multicast, .little⟩).number arrivalStart) arrivalEvents =
        some s ∧
      (s.store.store.map Imd.Entry.key : List Icd.ActiveSender) =
        [senderAt 2, senderAt 3, senderAt 4] ∧
      s.phase = .done [(1, ⟨senderAt 2, 190, false⟩), (2, ⟨senderAt 3, 200, false⟩)] :=
    ⟨_, rfl, rfl, rfl⟩
  obtain ⟨s, hs, hlist, hphase⟩ := hrun
  obtain ⟨s', hs', hplain, hpruned, -, hswept, -⟩ :=
    pushed_exact (.activeSenders ⟨.multicast, .little⟩) arrivalStart arrivalEvents
  obtain rfl : s = s' := Option.some.inj (hs.symm.trans hs')
  exact ⟨s, hplain, hlist, hphase, hpruned, hswept⟩

/-- The first loop for the active senders is that of the sessions. -/
theorem examine_activeSenders {t : Target} {currTime : ℤ} {i count : ℕ}
    {s s' : Snapshot.State (Imd.activeSendersCache t)}
    (h : examine (Imd.activeSendersCache t) currTime i count s = some s') :
    s'.store = (Imd.cleanupIteration currTime ⟨s.store, some i⟩).activeSenders ∧
      ∃ count', s'.phase =
        .counting (Imd.cleanupIteration currTime ⟨s.store, some i⟩).asIterator count' := by
  obtain ⟨a, ha, rfl⟩ := Option.map_eq_some_iff.1 h
  exact ⟨rfl, _, rfl⟩

/-- The first loop for the sender interfaces is that of their ages. -/
theorem examine_senderIfaces {c : Icd.Config} {currTime : ℤ} {i count : ℕ}
    {s s' : Snapshot.State (Icd.senderIfacesCache c)}
    (h : examine (Icd.senderIfacesCache c) currTime i count s = some s') :
    s'.store = (Icd.siIteration currTime ⟨s.store, some i⟩).toControl ∧
      ∃ count', s'.phase =
        .counting (Icd.siIteration currTime ⟨s.store, some i⟩).siIterator count' := by
  obtain ⟨a, ha, rfl⟩ := Option.map_eq_some_iff.1 h
  exact ⟨rfl, _, rfl⟩

end Iprp
