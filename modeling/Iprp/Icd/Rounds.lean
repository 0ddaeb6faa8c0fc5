import Iprp.Icd.Control

/-!
# CAP rounds

`as_routine` of `src/icd/activesenders.c`: in every round the active senders are read from
their file and the loop goes over them in the order of the array. In the multicast build a
sender is first looked up in `sender_ifaces`, which refreshes the entry found, and the loop
is left at the first sender that has none. So the CAPs go to the senders before that one
(`asRound_caps`), all of which are acknowledged.
-/

namespace Iprp.Icd

open KeyedList

/-- A CAP on its way: the message and where it is sent. -/
structure SentCap where
  destination : SockAddr
  msg : CapMsg
  deriving DecidableEq

/-- The CAP for an active sender, sent to its source address. -/
def capTo (build : Build) (this : Host) (sender : ActiveSender) : SentCap :=
  ⟨sockaddrFill sender.srcAddr iprpCtlPort, sendCap build this sender⟩

/-- What `in_sender_ifaces` is asked for an active sender. -/
def ActiveSender.ackKey (sender : ActiveSender) : InAddr × InAddr :=
  (sender.destAddr, sender.srcAddr)

/-- The loop of one round of `as_routine`: the CAPs sent, and the state with the entries
that were looked up refreshed. -/
def asRound (build : Build) (this : Host) (currTime : ℤ) :
    List ActiveSender → Control → List SentCap × Control
  | [], s => ([], s)
  | sender :: senders, s =>
      match build with
      | .unicast =>
          let (caps, s) := asRound build this currTime senders s
          (capTo build this sender :: caps, s)
      | .multicast =>
          -- Do not send CAP if ACK was received recently
          let (found, s) := inSenderIfaces currTime sender.ackKey s
          if !found then ([], s)
          else
            let (caps, s) := asRound build this currTime senders s
            (capTo build this sender :: caps, s)

/-- Whether an entry from an ACK is present for the sender. -/
def acked (s : Control) (sender : ActiveSender) : Bool :=
  (lookup SenderIfaces.key sender.ackKey s.senderIfaces).isSome

theorem capTo_injective (build : Build) (this : Host) :
    Function.Injective (capTo build this) := by
  rintro ⟨srcAddr, destAddr, srcPort, destPort⟩ ⟨srcAddr', destAddr', srcPort', destPort'⟩ h
  have hmsg : sendCap build this ⟨srcAddr, destAddr, srcPort, destPort⟩ =
      sendCap build this ⟨srcAddr', destAddr', srcPort', destPort'⟩ := congrArg SentCap.msg h
  simp only [sendCap, CapMsg.mk.injEq] at hmsg
  obtain ⟨_, rfl, rfl, _, rfl, rfl⟩ := hmsg
  rfl

theorem acked_inSenderIfaces (currTime : ℤ) (k : InAddr × InAddr) (s : Control) :
    acked (inSenderIfaces currTime k s).2 = acked s := by
  funext sender
  dsimp only [acked, inSenderIfaces]
  by_cases hk : sender.ackKey = k
  · rw [hk, lookup_update_same fun entry _ => by rfl, Option.isSome_map]
  · rw [lookup_update_of_ne (fun entry _ => by rfl) hk]

/-- In the unicast build a round reaches every active sender. -/
theorem asRound_unicast (this : Host) (currTime : ℤ) (senders : List ActiveSender)
    (s : Control) :
    asRound .unicast this currTime senders s = (senders.map (capTo .unicast this), s) := by
  induction senders with
  | nil => rfl
  | cons sender senders ih =>
      rw [asRound, ih]
      rfl

theorem asRound_caps (this : Host) (currTime : ℤ) (senders : List ActiveSender)
    (s : Control) :
    (asRound .multicast this currTime senders s).1 =
      (senders.takeWhile (acked s)).map (capTo .multicast this) := by
  induction senders generalizing s with
  | nil => rfl
  | cons sender senders ih =>
      rw [asRound, List.takeWhile_cons]
      have hfound : (inSenderIfaces currTime sender.ackKey s).1 = acked s sender := rfl
      cases hacked : acked s sender with
      | false =>
          dsimp only
          rw [hfound, hacked]
          rfl
      | true =>
          have hrest := ih (inSenderIfaces currTime sender.ackKey s).2
          rw [acked_inSenderIfaces] at hrest
          dsimp only
          rw [hfound, hacked]
          exact congrArg (capTo .multicast this sender :: ·) hrest

/-- A round of the multicast build sends one CAP to each active sender without an entry and
none to the others if and only if there are no active senders. -/
theorem asRound_unacked_iff (this : Host) (currTime : ℤ) (senders : List ActiveSender)
    (s : Control) :
    ((asRound .multicast this currTime senders s).1.Perm
      ((senders.filter fun sender => !acked s sender).map (capTo .multicast this))) ↔
      senders = [] := by
  constructor
  · intro h
    rw [asRound_caps] at h
    cases senders with
    | nil => rfl
    | cons sender senders =>
        exfalso
        cases hacked : acked s sender with
        | true =>
            -- the first sender is sent a CAP that it should not get
            have hmem : capTo .multicast this sender ∈
                (((sender :: senders).filter fun sender => !acked s sender).map
                  (capTo .multicast this)) := by
              rw [← h.mem_iff, List.takeWhile_cons_of_pos hacked]
              exact List.mem_cons_self
            obtain ⟨other, hother, heq⟩ := List.mem_map.1 hmem
            obtain rfl := capTo_injective .multicast this heq
            simp [hacked] at hother
        | false =>
            -- the first sender is not sent the CAP that it should get
            have hlength := h.length_eq
            rw [List.takeWhile_cons_of_neg (by simp [hacked]),
              List.filter_cons_of_pos (by simp [hacked])] at hlength
            simp at hlength
  · rintro rfl
    exact List.Perm.refl _

/-- From the empty `sender_ifaces` list the only active sender is not sent a CAP. -/
theorem asRound_never_starts :
    ¬ ∀ (this : Host) (currTime : ℤ) (senders : List ActiveSender) (s : Control),
      (asRound .multicast this currTime senders s).1.Perm
        ((senders.filter fun sender => !acked s sender).map (capTo .multicast this)) := by
  intro h
  have hperm := h absentHost 0 [⟨inAddr 10 0 0 1, inAddr 232 0 0 1, 4000, 5000⟩] Control.init
  have hlength := hperm.length_eq
  exact absurd hlength (by decide)

end Iprp.Icd
