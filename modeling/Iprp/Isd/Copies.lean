import Iprp.Isd.Handle

/-!
# The copies the ISD sends

A copy goes out on an interface whose IND is set in the peerbase, to the address that the
peerbase has for that IND.
-/

namespace Iprp.Isd

theorem getLsbD_of_shift_and_ne_zero {n : ℕ} {b : IndBitmap}
    (h : (1#16 <<< n) &&& b ≠ 0#16) : b.getLsbD n = true := by
  by_contra hbit
  apply h
  ext j hj
  by_cases hn : j = n
  · subst hn
    have hfalse : b[j] = false := by simpa [BitVec.getLsbD_eq_getElem hj] using hbit
    simp [hfalse]
  · rw [BitVec.getElem_and, BitVec.getElem_shiftLeft]
    by_cases hlt : j < n
    · simp [hlt]
    · have hbound : j - n < 16 := by omega
      have hone : (1#16)[j - n] = false := by
        rw [BitVec.getElem_one]
        simp
        omega
      simp [hone]

theorem sendPacket_copies {iface : Iface} {addr : SockAddr} {baseInds : IndBitmap}
    {sent : Bool} {copy : Copy} (h : copy ∈ (sendPacket iface addr baseInds sent).1) :
    copy = ⟨iface.ind, addr⟩ ∧ baseInds.getLsbD iface.ind.toNat = true := by
  unfold sendPacket at h
  split at h
  · next hmatch =>
      exact ⟨List.mem_singleton.1 h, getLsbD_of_shift_and_ne_zero hmatch⟩
  · cases h

theorem sendCopies_unicast {base : Peerbase} {sendto : ℕ → Bool} {n : ℕ}
    {ifaces : List Iface} {copies : List Copy} {alive : Bool}
    (h : sendCopies .unicast base sendto n ifaces = some (copies, alive)) :
    ∀ copy ∈ copies, ∃ i, base.inds.getLsbD i = true ∧
      base.destAddr[i]? = some copy.destAddr.addr := by
  induction ifaces generalizing n copies alive with
  | nil =>
      obtain ⟨rfl, rfl⟩ := Prod.mk.inj (Option.some.inj h)
      intro copy hcopy
      cases hcopy
  | cons iface ifaces ih =>
      rw [sendCopies, Option.bind_eq_bind, Option.bind_eq_some_iff] at h
      obtain ⟨addr, haddr, h⟩ := h
      have hfirst : ∀ copy ∈ (sendPacket iface (sockaddrFill addr iprpDataPort) base.inds
          (sendto n)).1, ∃ i, base.inds.getLsbD i = true ∧
            base.destAddr[i]? = some copy.destAddr.addr := by
        intro copy hcopy
        obtain ⟨rfl, hbit⟩ := sendPacket_copies hcopy
        exact ⟨iface.ind.toNat, hbit, haddr⟩
      dsimp only at h
      split at h
      · obtain ⟨⟨copies', alive'⟩, hrest, h⟩ := Option.bind_eq_some_iff.1 h
        obtain ⟨rfl, rfl⟩ := Prod.mk.inj (Option.some.inj h)
        intro copy hcopy
        rcases List.mem_append.1 hcopy with hcopy | hcopy
        · exact hfirst copy hcopy
        · exact ih hrest copy hcopy
      · obtain ⟨rfl, rfl⟩ := Prod.mk.inj (Option.some.inj h)
        exact hfirst

theorem mem_sendCopies {build : Build} {base : Peerbase} {sendto : ℕ → Bool} {n : ℕ}
    {ifaces : List Iface} {copies : List Copy} {alive : Bool}
    (h : sendCopies build base sendto n ifaces = some (copies, alive)) :
    ∀ copy ∈ copies, ∃ iface ∈ ifaces, ∃ addr, base.inds.getLsbD iface.ind.toNat = true ∧
      copyAddr build base iface = some addr ∧
      copy = ⟨iface.ind, sockaddrFill addr iprpDataPort⟩ := by
  induction ifaces generalizing n copies alive with
  | nil =>
      obtain ⟨rfl, rfl⟩ := Prod.mk.inj (Option.some.inj h)
      intro copy hcopy
      cases hcopy
  | cons iface ifaces ih =>
      rw [sendCopies, Option.bind_eq_bind, Option.bind_eq_some_iff] at h
      obtain ⟨addr, haddr, h⟩ := h
      have hfirst : ∀ copy ∈ (sendPacket iface (sockaddrFill addr iprpDataPort) base.inds
          (sendto n)).1, ∃ iface' ∈ iface :: ifaces, ∃ addr,
            base.inds.getLsbD iface'.ind.toNat = true ∧
            copyAddr build base iface' = some addr ∧
            copy = ⟨iface'.ind, sockaddrFill addr iprpDataPort⟩ := by
        intro copy hcopy
        obtain ⟨hcopy, hbit⟩ := sendPacket_copies hcopy
        exact ⟨iface, List.mem_cons_self, addr, hbit, haddr, hcopy⟩
      dsimp only at h
      split at h
      · obtain ⟨⟨copies', alive'⟩, hrest, h⟩ := Option.bind_eq_some_iff.1 h
        obtain ⟨rfl, rfl⟩ := Prod.mk.inj (Option.some.inj h)
        intro copy hcopy
        rcases List.mem_append.1 hcopy with hcopy | hcopy
        · exact hfirst copy hcopy
        · obtain ⟨iface', hmem, hrest'⟩ := ih hrest copy hcopy
          exact ⟨iface', List.mem_cons_of_mem iface hmem, hrest'⟩
      · obtain ⟨rfl, rfl⟩ := Prod.mk.inj (Option.some.inj h)
        exact hfirst

/-- The copies that handling one datagram sends. -/
theorem handlePacket_copies {t : Target} {base : Peerbase} {heap : ℕ → UInt8}
    {currTime : ℤ} {sendto : ℕ → Bool} {buf : List UInt8} {s s' : State} {out : Outcome}
    (h : handlePacket t base heap currTime sendto buf s = some (out, s')) :
    ∃ alive, sendCopies t.build base sendto 0 base.host.used = some (out.copies, alive) := by
  unfold handlePacket at h
  obtain ⟨⟨packet, seqNb⟩, _, h⟩ := Option.bind_eq_some_iff.1 h
  obtain ⟨⟨copies, alive⟩, hcopies, h⟩ := Option.bind_eq_some_iff.1 h
  obtain ⟨rfl, rfl⟩ := Prod.mk.inj (Option.some.inj h)
  exact ⟨alive, hcopies⟩

end Iprp.Isd
