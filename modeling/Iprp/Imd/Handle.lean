import Iprp.Icd.Message
import Iprp.Library.KeyedList

/-!
# The IMD's packet handler

`src/imd/handle.c`: both queues of the IMD lead to `global_handle`, which records the sender
of a packet in `active_senders` and gives the packet its verdict. The record carries the
ports in host order, as the control messages do.
-/

namespace Iprp.Imd

open Bytes KeyedList

/-- `iprp_active_sender_t`. -/
structure Entry extends Icd.ActiveSender where
  lastSeen : ℤ
  /-- Present in the multicast build only. -/
  iprpEnabled : Bool
  deriving DecidableEq

/-- The four components that an entry is looked up by. -/
def Entry.key (entry : Entry) : Icd.ActiveSender := entry.toActiveSender

/-- `NF_ACCEPT` or `NF_DROP`. -/
inductive NfVerdict where
  | accept
  | drop
  deriving DecidableEq

/-- The addresses and ports of a packet, absent when a header does not lie inside. -/
def linkInformation (o : ByteOrder) (buf : List UInt8) : Option Icd.ActiveSender := do
  let srcAddr ← loadVector buf 12 4
  let destAddr ← loadVector buf 16 4
  let source ← loadWord16 o buf 20
  let dest ← loadWord16 o buf 22
  return ⟨srcAddr, destAddr, ntohs o source, ntohs o dest⟩

/-- Find an entry in the active senders cache. -/
def activesendersFindEntry (sender : Icd.ActiveSender) (activeSenders : List Entry) :
    Option Entry :=
  lookup Entry.key sender activeSenders

/-- Creates an active sender entry. Its caller sets `last_seen`. -/
def activesendersCreateEntry (sender : Icd.ActiveSender) (iprpEnabled : Bool) : Entry :=
  ⟨sender, 0, iprpEnabled⟩

/-- The update of the entry found or created. -/
def updateEntry (build : Build) (currTime : ℤ) (iprpMessage : Bool) (entry : Entry) : Entry :=
  { entry with
    lastSeen := currTime
    iprpEnabled := match build with
      | .unicast => entry.iprpEnabled
      | .multicast => iprpMessage || entry.iprpEnabled }

def verdictFor (build : Build) (iprpMessage : Bool) (entry : Entry) : NfVerdict :=
  match build with
  | .unicast => .accept
  | .multicast => if iprpMessage || !entry.iprpEnabled then .accept else .drop

/-- What handling a packet leads to: its entry, its verdict and the cache. -/
structure Handled where
  entry : Entry
  verdict : NfVerdict
  activeSenders : List Entry

/-- The entry of a sender and the cache after a packet from it. -/
def recordSender (build : Build) (currTime : ℤ) (iprpMessage : Bool)
    (sender : Icd.ActiveSender) (activeSenders : List Entry) : Entry × List Entry :=
  match activesendersFindEntry sender activeSenders with
  | some entry =>
      let entry := updateEntry build currTime iprpMessage entry
      (entry, update Entry.key sender (fun _ => entry) activeSenders)
  | none =>
      let entry := updateEntry build currTime iprpMessage
        (activesendersCreateEntry sender iprpMessage)
      (entry, activeSenders ++ [entry])

/-- Handle a packet coming from one of the two queues monitored by the IMD. -/
def globalHandle (t : Target) (currTime : ℤ) (iprpMessage : Bool) (buf : List UInt8)
    (activeSenders : List Entry) : Option Handled := do
  let sender ← linkInformation t.order buf
  let (entry, activeSenders) :=
    recordSender t.build currTime iprpMessage sender activeSenders
  return ⟨entry, verdictFor t.build iprpMessage entry, activeSenders⟩

theorem linkInformation_eq {o : ByteOrder} {buf : List UInt8} {srcAddr destAddr : InAddr}
    {srcPort destPort : UInt16} (hlen : 24 ≤ buf.length)
    (hsrc : read buf 12 4 = srcAddr.toList) (hdest : read buf 16 4 = destAddr.toList)
    (hsrcPort : read buf 20 2 = encode .big 2 srcPort.toNat)
    (hdestPort : read buf 22 2 = encode .big 2 destPort.toNat) :
    linkInformation o buf = some ⟨srcAddr, destAddr, srcPort, destPort⟩ := by
  have h1 : loadVector buf 12 4 = some srcAddr := loadVector_eq (by omega) hsrc
  have h2 : loadVector buf 16 4 = some destAddr := loadVector_eq (by omega) hdest
  have h3 : loadWord16 o buf 20 = some (htons o srcPort) :=
    loadWord16_eq (by omega) (hsrcPort.trans (encode_htons o srcPort).symm)
  have h4 : loadWord16 o buf 22 = some (htons o destPort) :=
    loadWord16_eq (by omega) (hdestPort.trans (encode_htons o destPort).symm)
  simp only [linkInformation, h1, h2, h3, h4, Option.bind_eq_bind, Option.bind_some,
    ntohs_htons]
  rfl

theorem recordSender_spec (build : Build) (currTime : ℤ) (iprpMessage : Bool)
    (sender : Icd.ActiveSender) (activeSenders : List Entry) :
    let (entry, activeSenders') :=
      recordSender build currTime iprpMessage sender activeSenders
    entry.key = sender ∧ entry ∈ activeSenders' ∧ entry.lastSeen = currTime := by
  unfold recordSender activesendersFindEntry
  cases hfound : lookup Entry.key sender activeSenders with
  | some entry =>
      have hkey : entry.key = sender := key_of_lookup hfound
      have hmem : lookup Entry.key sender (update Entry.key sender
          (fun _ => updateEntry build currTime iprpMessage entry) activeSenders) =
          some (updateEntry build currTime iprpMessage entry) := by
        rw [lookup_update_same, hfound, Option.map_some]
        intro entry' hentry'
        obtain rfl := Option.some.inj (hfound.symm.trans hentry')
        rfl
      exact ⟨hkey, mem_of_lookup hmem, rfl⟩
  | none => exact ⟨rfl, List.mem_append.2 (Or.inr (List.mem_singleton.2 rfl)), rfl⟩

theorem globalHandle_records {t : Target} {buf : List UInt8} {sender : Icd.ActiveSender}
    (hsender : linkInformation t.order buf = some sender) (currTime : ℤ)
    (iprpMessage : Bool) (activeSenders : List Entry) :
    ∃ out, globalHandle t currTime iprpMessage buf activeSenders = some out ∧
      out.entry.key = sender ∧ out.entry ∈ out.activeSenders ∧
      out.entry.lastSeen = currTime := by
  have hspec := recordSender_spec t.build currTime iprpMessage sender activeSenders
  exact ⟨_, by rw [globalHandle, hsender]; rfl, hspec⟩

end Iprp.Imd
