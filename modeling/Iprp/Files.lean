import Iprp.Basic
import Iprp.Library.FileChannel
import Mathlib.Tactic.IntervalCases

/-!
# Disk management functions

`src/lib/files.c`: the three files through which the daemons hand values over, the peerbase
from the ICD to an ISD, the active senders from the IMD to the ICD and the sender interfaces
from the ICD to the IRD. The functions move the memory images of the structures and never look
into them, so a structure is the vector of its `sizeof` bytes, padding included.

No caller passes a null pointer, so the checks for that are left out, and a file that cannot be
opened ends the daemon. A load takes over whatever `fread` has stored, without asking how much
that was. What its destination held before is the parameter `stale`. Memory does not run out, but
a negative count makes `calloc` return the null pointer, and what `fread` does through that is
undefined.
-/

namespace Iprp.Files

open Bytes FileChannel

/-- `sizeof(iprp_peerbase_t)`. -/
def peerbaseSize : Build → ℕ
  | .unicast => 240
  | .multicast => 176

/-- `sizeof(iprp_active_sender_t)`. -/
def activeSenderSize : Build → ℕ
  | .unicast => 24
  | .multicast => 32

/-- `sizeof(iprp_sender_ifaces_t)`. -/
def senderIfacesSize : ℕ := 216

/-- The bytes that lie at the destination of a load before it. -/
abbrev Memory := ℕ → UInt8

/-- The `n` bytes at the destination after `fread`, and whether all items were read. -/
def fread (stale : Memory) (n : ℕ) (file : List UInt8) : List UInt8 × Bool :=
  ((List.range n).map fun i => file[i]?.getD (stale i), decide (n ≤ file.length))

/-- The bytes that `peerbase_store` writes. -/
def peerbaseStore {n : ℕ} (base : Vector UInt8 n) : List UInt8 := base.toList

def peerbaseLoad (n : ℕ) (stale : Memory) (file : List UInt8) :
    Option (List UInt8 × Bool) :=
  some (fread stale n file)

/-- The entries of a file of entries of `n` bytes. Their number is an `int`. -/
structure Entries (n : ℕ) where
  entries : List (Vector UInt8 n)
  length_lt : entries.length < 2 ^ 31

/-- What loading entries returns: the count and the block of the entries, absent for the null
pointer. -/
structure Loaded where
  count : ℤ
  senders : Option (List UInt8)

/-- The bytes of the entries in a row. -/
def Entries.bytes {n : ℕ} (v : Entries n) : List UInt8 := v.entries.flatMap Vector.toList

/-- The bytes that storing entries writes. -/
def entriesStore (o : ByteOrder) {n : ℕ} (v : Entries n) : List UInt8 :=
  encode o 4 v.entries.length ++ if 0 < v.entries.length then v.bytes else []

/-- Loads entries of `n` bytes. The test `count > 0` is one of the pointer, so it always holds.
A negative count makes the size that `calloc` is asked for overflow. -/
def entriesLoad (o : ByteOrder) (n : ℕ) (stale : Memory) (file : List UInt8) :
    Option (Loaded × Bool) :=
  let word := fread stale 4 file
  let count := (decode o word.1 : ℤ).bmod (2 ^ 32)
  let rest := file.drop 4
  if count < 0 then
    if rest = [] then some (⟨count, none⟩, false) else none
  else
    let block := fread (fun _ => 0) (count.toNat * n) rest
    some (⟨count, some block.1⟩, word.2 && block.2)

theorem fread_append (stale : Memory) (v rest : List UInt8) :
    fread stale v.length (v ++ rest) = (v, true) := by
  have hbytes : (List.range v.length).map (fun i => (v ++ rest)[i]?.getD (stale i)) = v := by
    apply List.ext_getElem
    · rw [List.length_map, List.length_range]
    · intro i hi hv
      rw [List.getElem_map, List.getElem_range, List.getElem?_append_left hv,
        List.getElem?_eq_getElem hv, Option.getD_some]
  have hall : v.length ≤ (v ++ rest).length := by simp
  rw [fread, hbytes, decide_eq_true hall]

theorem fread_complete {stale : Memory} {n : ℕ} {file : List UInt8}
    (h : (fread stale n file).2 = true) : (fread stale n file).1 <+: file := by
  have hle : n ≤ file.length := of_decide_eq_true h
  obtain ⟨v, rest, rfl, rfl⟩ : ∃ v rest, file = v ++ rest ∧ n = v.length :=
    ⟨file.take n, file.drop n, (List.take_append_drop n file).symm,
      (List.length_take_of_le hle).symm⟩
  rw [fread_append]
  exact List.prefix_append v rest

/-! ## The channels -/

/-- The channel of a single structure of `n` bytes. -/
def peerbaseChannel (n : ℕ) : Channel (Vector UInt8 n) (List UInt8) Memory where
  encode := peerbaseStore
  returned := Vector.toList
  load := peerbaseLoad n
  load_whole := by
    intro stale v rest
    have hlength : v.toList.length = n := Vector.length_toList
    have hread := fread_append stale v.toList rest
    rw [hlength] at hread
    rw [peerbaseLoad, peerbaseStore, hread]
  prefix_of_load := by
    intro stale v file h
    have hread : fread stale n file = (v.toList, true) := Option.some.inj h
    have hprefix := fread_complete (congrArg Prod.snd hread)
    rwa [hread] at hprefix
  prefix_free := by
    intro v w h
    exact Vector.toList_inj.1 (h.eq_of_length (by simp [peerbaseStore]))

theorem length_bytes {n : ℕ} (v : Entries n) : v.bytes.length = v.entries.length * n := by
  simp [Entries.bytes, List.length_flatMap, Vector.length_toList]

theorem entriesStore_eq (o : ByteOrder) {n : ℕ} (v : Entries n) :
    entriesStore o v = encode o 4 v.entries.length ++ v.bytes := by
  rw [entriesStore]
  split
  · rfl
  · next hempty =>
      have hbytes : v.bytes = [] := by
        apply List.eq_nil_of_length_eq_zero
        rw [length_bytes, Nat.eq_zero_of_not_pos hempty, Nat.zero_mul]
      rw [hbytes]

theorem flatMap_toList_inj {n : ℕ} {l l' : List (Vector UInt8 n)} (hlength : l.length = l'.length)
    (h : l.flatMap Vector.toList = l'.flatMap Vector.toList) : l = l' := by
  induction l generalizing l' with
  | nil => exact (List.length_eq_zero_iff.1 hlength.symm).symm
  | cons v l ih =>
      cases l' with
      | nil => cases hlength
      | cons w l' =>
          rw [List.flatMap_cons, List.flatMap_cons] at h
          obtain ⟨hhead, htail⟩ := List.append_inj h (by simp)
          rw [Vector.toList_inj.1 hhead, ih (Nat.succ.inj hlength) htail]

theorem count_of_encode (o : ByteOrder) {c : ℕ} (hc : c < 2 ^ 31) :
    ((decode o (encode o 4 c) : ℕ) : ℤ).bmod (2 ^ 32) = c := by
  rw [decode_encode o (by omega), Int.bmod]
  omega

theorem encode_of_count {o : ByteOrder} {word : List UInt8} (hword : word.length = 4) {c : ℕ}
    (h : ((decode o word : ℕ) : ℤ).bmod (2 ^ 32) = c) (hc : c < 2 ^ 31) :
    encode o 4 c = word := by
  have hlt : decode o word < 256 ^ 4 := hword ▸ decode_lt o word
  rw [Int.bmod] at h
  have hdecode : decode o word = c := by omega
  rw [← hdecode, ← hword, encode_decode]

theorem entriesLoad_whole (o : ByteOrder) {n : ℕ} (stale : Memory) (v : Entries n)
    (rest : List UInt8) :
    entriesLoad o n stale (entriesStore o v ++ rest) =
      some (⟨v.entries.length, some v.bytes⟩, true) := by
  have hlength : (encode o 4 v.entries.length).length = 4 := by
    rw [length_encode]
  have hword := fread_append stale (encode o 4 v.entries.length) (v.bytes ++ rest)
  have hblock := fread_append (fun _ => 0) v.bytes rest
  have hdrop : (encode o 4 v.entries.length ++ (v.bytes ++ rest)).drop 4 = v.bytes ++ rest :=
    List.drop_left' hlength
  have hnonneg : ¬ ((v.entries.length : ℕ) : ℤ) < 0 := by omega
  rw [hlength] at hword
  rw [length_bytes] at hblock
  unfold entriesLoad
  simp only [entriesStore_eq, List.append_assoc, hword, hdrop,
    count_of_encode o v.length_lt, Int.toNat_natCast, hblock]
  rw [if_neg hnonneg]
  rfl

theorem prefix_of_entriesLoad {o : ByteOrder} {n : ℕ} {stale : Memory} {v : Entries n}
    {file : List UInt8}
    (h : entriesLoad o n stale file = some (⟨v.entries.length, some v.bytes⟩, true)) :
    entriesStore o v <+: file := by
  unfold entriesLoad at h
  dsimp only at h
  split at h
  · split at h
    · exact absurd (congrArg Prod.snd (Option.some.inj h)) Bool.false_ne_true
    · cases h
  · obtain ⟨hloaded, hcomplete⟩ := Prod.mk.inj (Option.some.inj h)
    obtain ⟨hcount, hsenders⟩ := Loaded.mk.inj hloaded
    obtain ⟨hgot, hgotAll⟩ := Bool.and_eq_true_iff.1 hcomplete
    have hword := fread_complete hgot
    have hbytes := fread_complete hgotAll
    rw [Option.some.inj hsenders] at hbytes
    have hencode : encode o 4 v.entries.length = (fread stale 4 file).1 :=
      encode_of_count (by simp [fread]) hcount v.length_lt
    rw [← hencode] at hword
    obtain ⟨tail, rfl⟩ := hword
    rw [List.drop_left' (by rw [length_encode])] at hbytes
    rw [entriesStore_eq]
    exact (List.prefix_append_right_inj _).2 hbytes

theorem entriesStore_prefix_free {o : ByteOrder} {n : ℕ} {v w : Entries n}
    (h : entriesStore o v <+: entriesStore o w) : v = w := by
  rw [entriesStore_eq, entriesStore_eq] at h
  have hcount : encode o 4 v.entries.length = encode o 4 w.entries.length := by
    obtain ⟨tail, htail⟩ := h
    rw [List.append_assoc] at htail
    exact (List.append_inj htail (by rw [length_encode, length_encode])).1
  have hv := count_of_encode o v.length_lt
  rw [hcount, count_of_encode o w.length_lt] at hv
  have hlength : v.entries.length = w.entries.length := by omega
  rw [hlength] at h
  have hbytes : v.bytes = w.bytes := by
    apply ((List.prefix_append_right_inj _).1 h).eq_of_length
    rw [length_bytes, length_bytes, hlength]
  obtain ⟨entries, _⟩ := v
  obtain ⟨entries', _⟩ := w
  obtain rfl : entries = entries' := flatMap_toList_inj hlength hbytes
  rfl

/-- The channel of a list of structures of `n` bytes. -/
def entriesChannel (o : ByteOrder) (n : ℕ) :
    Channel (Entries n) Loaded Memory where
  encode := entriesStore o
  returned v := ⟨v.entries.length, some v.bytes⟩
  load := entriesLoad o n
  load_whole := entriesLoad_whole o _ _ _
  prefix_of_load := prefix_of_entriesLoad
  prefix_free := entriesStore_prefix_free

/-! ## The three files -/

/-- The files through which values are handed over. -/
inductive HandOver where
  | peerbase
  | activeSenders
  | senderIfaces

namespace HandOver

def Value (build : Build) : HandOver → Type
  | .peerbase => Vector UInt8 (peerbaseSize build)
  | .activeSenders => Entries (activeSenderSize build)
  | .senderIfaces => Entries senderIfacesSize

def Returned : HandOver → Type
  | .peerbase => List UInt8
  | .activeSenders => Loaded
  | .senderIfaces => Loaded

/-- `peerbase_store` and `peerbase_load`, `activesenders_store` and `activesenders_load`,
`senderifaces_store` and `senderifaces_load`. -/
def channel (t : Target) : (f : HandOver) → Channel (f.Value t.build) f.Returned Memory
  | .peerbase => peerbaseChannel (peerbaseSize t.build)
  | .activeSenders => entriesChannel t.order (activeSenderSize t.build)
  | .senderIfaces => entriesChannel t.order senderIfacesSize

end HandOver

/-- In every interleaving of stores and loads of one of the files: each load fails, or has read
everything and returned the value of one earlier store, if and only if the file begins with
such a value whenever a load reads. When the stores follow one another, this means that no load
reads before the last store has written everything. -/
theorem handOver_iff (t : Target) (f : HandOver) (es : List (Event (f.Value t.build) Memory))
    {s : State (f.Value t.build) f.Returned} (hrun : run (f.channel t) es = some s) :
    (AllOrNothing (f.channel t) es ↔ WholeAtReads (f.channel t) es) ∧
      (Sequential (f.channel t) es →
        (AllOrNothing (f.channel t) es ↔ WrittenAtReads (f.channel t) es)) :=
  ⟨FileChannel.allOrNothing_iff hrun, FileChannel.allOrNothing_iff_of_sequential hrun⟩

theorem senders_length_lt {n : ℕ} (h : n ≤ 2) : n < 2 ^ 31 :=
  lt_of_le_of_lt h (by decide)

/-- One active sender, and two of them. -/
def oneSender : Entries 24 := ⟨[Vector.replicate 24 1], senders_length_lt (Nat.le_succ 1)⟩

def twoSenders : Entries 24 :=
  ⟨[Vector.replicate 24 1, Vector.replicate 24 2], senders_length_lt (Nat.le_refl 2)⟩

/-- Two stores. One load opens the file when half of the first one is written, the other one when
the second has truncated it, and each reads when its store has written everything. -/
def sharedFile (stale : Memory) : List (Event (Entries 24) Memory) :=
  [.storeOpen oneSender, .storeWrite 0 14, .loadOpen, .storeWrite 0 14, .loadRead 0 stale,
    .storeClose 0, .storeOpen twoSenders, .loadOpen, .storeWrite 1 52, .loadRead 1 stale,
    .loadClose 0, .storeClose 1, .loadClose 1]

theorem loadRead_sharedFile {stale m : Memory} {k j : ℕ}
    (h : (sharedFile stale)[k]? = some (.loadRead j m)) : k = 4 ∨ k = 9 := by
  have hlt : k < 13 := (List.getElem?_eq_some_iff.1 h).1
  interval_cases k
  all_goals first
    | exact Or.inl rfl
    | exact Or.inr rfl
    | cases h

theorem storeOpen_sharedFile {stale : Memory} {k : ℕ} {v : Entries 24}
    (h : (sharedFile stale)[k]? = some (.storeOpen v)) : k = 0 ∨ k = 6 := by
  have hlt : k < 13 := (List.getElem?_eq_some_iff.1 h).1
  interval_cases k
  all_goals first
    | exact Or.inl rfl
    | exact Or.inr rfl
    | cases h

theorem handOver_iff_shared :
    AllOrNothing (HandOver.activeSenders.channel ⟨.unicast, .little⟩)
        (sharedFile fun _ => 0xff) ∧
      WrittenAtReads (HandOver.activeSenders.channel ⟨.unicast, .little⟩)
        (sharedFile fun _ => 0xff) := by
  obtain ⟨hall, hsequential⟩ :=
    handOver_iff ⟨.unicast, .little⟩ .activeSenders (sharedFile fun _ => 0xff) rfl
  have hclean := hall.2 fun k s j m hs he => by
    rcases loadRead_sharedFile he with rfl | rfl
    · obtain rfl := Option.some.inj hs
      exact ⟨oneSender, List.mem_cons_self, _, rfl, List.prefix_refl _⟩
    · obtain rfl := Option.some.inj hs
      exact ⟨twoSenders, List.mem_cons_of_mem _ List.mem_cons_self, _, rfl, List.prefix_refl _⟩
  refine ⟨hclean, (hsequential fun k s v hs he st hst => ?_).1 hclean⟩
  rcases storeOpen_sharedFile he with rfl | rfl
  · obtain rfl := Option.some.inj hs
    cases hst
  · obtain rfl := Option.some.inj hs
    rw [List.mem_singleton.1 hst]

/-- An ISD that loads its peerbase between the truncation and the first write returns what its
memory held before. -/
theorem truncated_peerbase_loaded :
    ¬ ∀ (t : Target) (f : HandOver) (es : List (Event (f.Value t.build) Memory)),
      AllOrNothing (f.channel t) es := by
  intro h
  have hclean := h ⟨.unicast, .little⟩ .peerbase
    [.storeOpen (Vector.replicate 240 1), .loadOpen, .loadRead 0 (fun _ => 0xff)] 3 _ rfl
  obtain ⟨v, -, heq⟩ := hclean _ (List.mem_singleton.2 rfl) _ rfl
  have hread : (fread (fun _ => 0xff) 240 []).2 = true :=
    congrArg Prod.snd (Option.some.inj heq)
  cases hread

end Iprp.Files
