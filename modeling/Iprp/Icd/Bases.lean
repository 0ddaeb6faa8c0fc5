import Iprp.Icd.Control

/-!
# What a control message does

One inversion lemma for each handler of the control routine: a CAP updates the base it
finds, creates a base or is without a match (`handleCap_cases`); an ACK refreshes an entry
or creates one (`handleAck_cases`). The fields of a new base are those of its CAP
(`createBase_fields`).
-/

namespace Iprp.Icd

open KeyedList

theorem sendAck_eq (c : Config) (link : Link) (s : Control) :
    ∃ sent, sendAck c link s = { s with sent := sent } := by
  unfold sendAck
  cases c.target.build with
  | unicast => exact ⟨s.sent, rfl⟩
  | multicast => exact ⟨_, rfl⟩

@[simp] theorem sendAck_peerbases (c : Config) (link : Link) (s : Control) :
    (sendAck c link s).peerbases = s.peerbases := by
  obtain ⟨sent, heq⟩ := sendAck_eq c link s
  rw [heq]

@[simp] theorem sendAck_senderIfaces (c : Config) (link : Link) (s : Control) :
    (sendAck c link s).senderIfaces = s.senderIfaces := by
  obtain ⟨sent, heq⟩ := sendAck_eq c link s
  rw [heq]

@[simp] theorem sendAck_rebootCounter (c : Config) (link : Link) (s : Control) :
    (sendAck c link s).rebootCounter = s.rebootCounter := by
  obtain ⟨sent, heq⟩ := sendAck_eq c link s
  rw [heq]

@[simp] theorem sendAck_serving (c : Config) (link : Link) (s : Control) :
    (sendAck c link s).serving = s.serving := by
  obtain ⟨sent, heq⟩ := sendAck_eq c link s
  rw [heq]

theorem handleCap_cases {c : Config} {currTime : ℤ} {heap : Heap} {msg : CapMsg}
    {s s' : Control} (h : handleCap c currTime heap msg s = some s') :
    (∃ base, lookup IcdBase.key msg.key s.peerbases = some base ∧
      s' = sendAck c base.link
        { s with
          peerbases := update IcdBase.key msg.key (updateBase c currTime msg)
            s.peerbases }) ∨
    (lookup IcdBase.key msg.key s.peerbases = none ∧
      indMatch c.this.toHost msg.inds = 0 ∧ s' = s) ∨
    ∃ base, lookup IcdBase.key msg.key s.peerbases = none ∧
      indMatch c.this.toHost msg.inds ≠ 0 ∧
      createBase c currTime heap msg (indMatch c.this.toHost msg.inds) s = some base ∧
      s' = sendAck c base.link
        { s with
          peerbases := s.peerbases ++ [base]
          rebootCounter := s.rebootCounter + 1 } := by
  unfold handleCap peerbaseQuery at h
  cases hquery : lookup IcdBase.key msg.key s.peerbases with
  | some base =>
      simp only [hquery] at h
      exact Or.inl ⟨base, rfl, (Option.some.inj h).symm⟩
  | none =>
      simp only [hquery] at h
      split at h
      · next hmatch =>
          obtain ⟨base, hbase, heq⟩ := Option.map_eq_some_iff.1 h
          exact Or.inr (Or.inr ⟨base, rfl, hmatch, hbase, heq.symm⟩)
      · next hmatch =>
          exact Or.inr (Or.inl ⟨rfl, not_not.1 hmatch, (Option.some.inj h).symm⟩)

theorem createBase_fields {c : Config} {currTime : ℤ} {heap : Heap} {msg : CapMsg}
    {matchingInds : IndBitmap} {s : Control} {base : IcdBase}
    (h : createBase c currTime heap msg matchingInds s = some base) :
    base.link = ⟨msg.srcAddr, msg.destAddr, msg.srcPort, msg.destPort,
        snsid c.target.order msg.srcAddr msg.srcPort s.rebootCounter⟩ ∧
      base.inds = matchingInds ∧
      c.target.build.ifUnicast (storeAddrs msg.receiver) heap.addrs = some base.destAddr ∧
      base.queueId = getQueueNumber s.peerbases (c.rand currTime) ∧
      base.isdPid = -1 ∧ base.lastCap = currTime := by
  obtain ⟨destAddr, hdest, hbase⟩ := Option.bind_eq_some_iff.1 h
  obtain rfl := Option.some.inj hbase
  exact ⟨rfl, rfl, hdest, rfl, rfl, rfl⟩

theorem createBase_key {c : Config} {currTime : ℤ} {heap : Heap} {msg : CapMsg}
    {matchingInds : IndBitmap} {s : Control} {base : IcdBase}
    (h : createBase c currTime heap msg matchingInds s = some base) :
    base.key = msg.key := by
  rw [IcdBase.key, (createBase_fields h).1]
  rfl

theorem handleAck_cases {c : Config} {currTime : ℤ} {heap : Heap} {msg : AckMsg}
    {s s' : Control} (h : handleAck c currTime heap msg s = some s') :
    (∃ entry, lookup SenderIfaces.key msg.key s.senderIfaces = some entry ∧
      s' = { s with
        senderIfaces := update SenderIfaces.key msg.key
          (fun entry => { entry with lastSeen := currTime }) s.senderIfaces }) ∨
    ∃ entry, lookup SenderIfaces.key msg.key s.senderIfaces = none ∧
      createSenderIfaces c currTime heap msg = some entry ∧
      s' = { s with senderIfaces := s.senderIfaces ++ [entry] } := by
  unfold handleAck inSenderIfaces at h
  cases hlookup : lookup SenderIfaces.key msg.key s.senderIfaces with
  | some entry =>
      simp only [hlookup, Option.isSome_some, if_true] at h
      exact Or.inl ⟨entry, rfl, (Option.some.inj h).symm⟩
  | none =>
      have hsame : update SenderIfaces.key msg.key
          (fun entry => { entry with lastSeen := currTime }) s.senderIfaces =
          s.senderIfaces := by
        rw [update_eq_self_iff]
        intro entry hentry
        rw [hlookup] at hentry
        cases hentry
      simp only [hlookup, hsame, Option.isSome_none, Bool.false_eq_true, if_false] at h
      obtain ⟨entry, hentry, heq⟩ := Option.map_eq_some_iff.1 h
      exact Or.inr ⟨entry, rfl, hentry, heq.symm⟩

theorem handleMessage_serving {c : Config} {currTime : ℤ} {heap : Heap} {msg : Message}
    {s s' : Control} (h : handleMessage c currTime heap msg s = some s') :
    s'.serving = s.serving := by
  cases msg with
  | cap msg =>
      rcases handleCap_cases h with ⟨base, _, rfl⟩ | ⟨_, _, rfl⟩ | ⟨base, _, _, _, rfl⟩
      · rw [sendAck_serving]
      · rfl
      · rw [sendAck_serving]
  | ack msg =>
      rcases handleAck_cases h with ⟨entry, _, rfl⟩ | ⟨entry, _, _, rfl⟩
      · rfl
      · rfl
  | other => rw [Option.some.inj h]

/-! ## A small host

The concrete runs of this development are those of an ICD on a host with two interfaces. -/

def smallHost : LocalHost where
  nbIfaces := 2
  ifaces := (Vector.replicate 16 ⟨0, Vector.replicate 4 0⟩).set 0 ⟨0, inAddr 10 0 0 1⟩
    |>.set 1 ⟨1, inAddr 10 1 0 1⟩
  nb_pos := by decide
  nb_le := by decide
  ind_eq := by
    intro i hi hlt
    obtain rfl | rfl : i = 0 ∨ i = 1 := by omega
    · rfl
    · rfl

def smallConfig (build : Build) : Config := ⟨⟨build, .little⟩, smallHost, fun t k => t.toNat + k⟩

def smallHeap : Heap := ⟨Vector.replicate 16 (inAddr 0xde 0xad 0xbe 0xef),
  Vector.replicate 16 ⟨0xff, inAddr 0xde 0xad 0xbe 0xef⟩⟩

end Iprp.Icd
