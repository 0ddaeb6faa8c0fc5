import Iprp.Icd.Control
import Iprp.Library.HeldSet

/-!
# The IRD's sender interfaces

`src/ird/senderifaces.c`, in the multicast build only: `si_routine` reads the file of sender
interfaces again and again, compares it with its own list and adds or drops source-specific
memberships of its socket. The kernel is the set of memberships that the socket holds. Adding
one that is held and dropping one that is not are errors of `setsockopt` that end the IRD;
`none` stands for that.

An entry of the list is a copy of the file's entry at the time it was added. It keeps the
interfaces of that time: `update_memberships` changes the memberships and not the entry.
-/

namespace Iprp.Ird

open KeyedList

/-- `struct ip_mreq_source`. -/
structure Membership where
  groupAddr : InAddr
  srcAddr : InAddr
  hostAddr : InAddr
  deriving DecidableEq

/-- An entry that the IRD reads from the file of the ICD: its interfaces lie in the table and
have different addresses. -/
structure SenderIfaces extends Icd.SenderIfaces where
  nbIfaces_le : nbIfaces ≤ 16
  addrs_nodup : ((ifaces.toList.take nbIfaces).map Iface.addr).Nodup
  deriving DecidableEq

/-- The sender and the group, by which an entry is found. -/
def SenderIfaces.key (si : SenderIfaces) : InAddr × InAddr := (si.senderAddr, si.groupAddr)

/-- The source addresses of an entry. -/
def SenderIfaces.addrs (si : SenderIfaces) : List InAddr :=
  (si.ifaces.toList.take si.nbIfaces).map Iface.addr

/-- The memberships of an entry, one for each of its interfaces. -/
def SenderIfaces.memberships (si : SenderIfaces) : List Membership :=
  ((si.ifaces.toList.zip si.hostAddr.toList).take si.nbIfaces).map fun p =>
    ⟨si.groupAddr, p.1.addr, p.2⟩

/-- The contents of the sender interfaces file: each sender is listed once for a group. -/
structure SiFile where
  entries : List SenderIfaces
  uniqueKeys : UniqueKeys SenderIfaces.key entries

/-- Actually adds or drops the SSM membership. -/
def membership (m : Membership) (add : Bool) (held : Finset Membership) :
    Option (Finset Membership) :=
  if add then HeldSet.acquire m held else HeldSet.release m held

/-- Looks for an entry in an array of sender interfaces. -/
def findSiInArray (si : SenderIfaces) (array : List SenderIfaces) : Option SenderIfaces :=
  lookup SenderIfaces.key si.key array

/-- Looks for an entry in the list of sender interfaces. -/
def findSiInList (si : SenderIfaces) (senderIfaces : List SenderIfaces) : Bool :=
  (lookup SenderIfaces.key si.key senderIfaces).isSome

/-- Returns whether the given entry contains the given source address. -/
def findAddrInSender (addr : InAddr) (si : SenderIfaces) : Bool := si.addrs.contains addr

/-- Adds SSM memberships for the given entry. -/
def addMemberships (si : SenderIfaces) (held : Finset Membership) :
    Option (Finset Membership) :=
  si.memberships.foldlM (fun held m => membership m true held) held

/-- Updates SSM memberships for the old entry given the updated entry. -/
def updateMemberships (curr new : SenderIfaces) (held : Finset Membership) :
    Option (Finset Membership) := do
  -- Drop phase
  let held ← (curr.memberships.filter fun m => !findAddrInSender m.srcAddr new).foldlM
    (fun held m => membership m false held) held
  -- Add phase
  (new.memberships.filter fun m => !findAddrInSender m.srcAddr curr).foldlM
    (fun held m => membership m true held) held

/-- Drops all SSM memberships for the given entry. -/
def dropMemberships (si : SenderIfaces) (held : Finset Membership) :
    Option (Finset Membership) :=
  si.memberships.foldlM (fun held m => membership m false held) held

/-- The drop phase of a pass over the list, and the entries that stay. -/
def dropPhase (newSenderIfaces : List SenderIfaces) :
    List SenderIfaces → Finset Membership → Option (List SenderIfaces × Finset Membership)
  | [], held => some ([], held)
  | sender :: senders, held =>
      match findSiInArray sender newSenderIfaces with
      | none => do
          let held ← dropMemberships sender held
          dropPhase newSenderIfaces senders held
      | some newSender => do
          let held ← updateMemberships sender newSender held
          let (senders, held) ← dropPhase newSenderIfaces senders held
          return (sender :: senders, held)

/-- The add phase over the entries of the file. -/
def addPhase : List SenderIfaces → List SenderIfaces → Finset Membership →
    Option (List SenderIfaces × Finset Membership)
  | [], senderIfaces, held => some (senderIfaces, held)
  | newSender :: newSenders, senderIfaces, held =>
      if findSiInList newSender senderIfaces then
        addPhase newSenders senderIfaces held
      else do
        let held ← addMemberships newSender held
        addPhase newSenders (senderIfaces ++ [newSender]) held

namespace Si

/-- The list, the memberships of the socket and the entries read last. -/
structure State where
  senderIfaces : List SenderIfaces
  held : Finset Membership
  newSenderIfaces : List SenderIfaces

def init : State := ⟨[], ∅, []⟩

/-- A pass of `si_routine` that reads the given file. -/
def pass (s : State) (file : SiFile) : Option State := do
  let (senderIfaces, held) ← dropPhase file.entries s.senderIfaces s.held
  let (senderIfaces, held) ← addPhase file.entries senderIfaces held
  return ⟨senderIfaces, held, file.entries⟩

/-- The state of the IRD after passes over the given files. -/
def run (files : List SiFile) : Option State := Run.runFrom pass init files

end Si

end Iprp.Ird
