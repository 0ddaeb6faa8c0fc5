import Iprp.Icd.PeerTable

/-!
# What a CAP announces

Bitmaps of INDs read bit by bit, and the CAPs of the form that `send_cap` produces: their
interfaces have distinct INDs below sixteen, and their bitmap is that of the interfaces. On
such a CAP the loop that fills `dest_addr` is defined and stores each announced address
under its IND (`storeAddrs_wellFormed`), so no step of the ICD is undefined
(`step_defined`).
-/

namespace Iprp.Icd

open KeyedList

/-! ## Bitmaps -/

theorem getLsbD_foldl_inds (ifaces : List Iface) (b : IndBitmap) {i : ℕ} (hi : i < 16) :
    (ifaces.foldl (fun b iface => b ||| (1#16 <<< iface.ind.toNat)) b).getLsbD i =
      (b.getLsbD i || ifaces.any fun iface => iface.ind.toNat == i) := by
  induction ifaces generalizing b with
  | nil => simp
  | cons iface ifaces ih =>
      rw [List.foldl_cons, ih, List.any_cons, BitVec.getLsbD_or, Bool.or_assoc]
      congr 2
      rw [BitVec.getLsbD_shiftLeft]
      by_cases h : iface.ind.toNat = i
      · simp [h, hi]
      · by_cases hlt : i < iface.ind.toNat
        · simp [h, hlt]
        · have hone : (1#16).getLsbD (i - iface.ind.toNat) = false := by
            rw [BitVec.getLsbD_one]
            simp
            omega
          simp [h, hone]

theorem getLsbD_indMatch (host : Host) (inds : IndBitmap) {i : ℕ} (hi : i < 16) :
    (indMatch host inds).getLsbD i =
      (host.used.any (fun iface => iface.ind.toNat == i) && inds.getLsbD i) := by
  rw [indMatch, BitVec.getLsbD_and, getLsbD_foldl_inds host.used 0#16 hi]
  simp

theorem indMatch_eq (host : Host) (inds : IndBitmap) :
    indMatch host inds = hostInds host &&& inds := by
  rw [hostInds, indMatch, indMatch, BitVec.and_allOnes]

theorem getLsbD_hostInds (host : Host) {i : ℕ} (hi : i < 16) :
    (hostInds host).getLsbD i = host.used.any fun iface => iface.ind.toNat == i := by
  rw [hostInds, getLsbD_indMatch host _ hi, BitVec.getLsbD_allOnes]
  simp [hi]

/-! ## CAPs of the form of `send_cap` -/

/-- The interfaces of a receiver and the bitmap of their INDs. The multicast CAP carries
the bitmap alone. -/
structure CapMsg.WellFormed (build : Build) (msg : CapMsg) : Prop where
  nbIfaces_le : build = .unicast → msg.receiver.nbIfaces ≤ 16
  ind_lt : build = .unicast → ∀ iface ∈ msg.receiver.used, iface.ind.toNat < 16
  ind_nodup : build = .unicast → (msg.receiver.used.map Iface.ind).Nodup
  inds : build = .unicast → msg.inds = hostInds msg.receiver

theorem sendCap_wellFormed (build : Build) (this : LocalHost) (sender : ActiveSender) :
    (sendCap build this.toHost sender).WellFormed build := by
  cases build with
  | unicast =>
      refine ⟨fun _ => this.nb_le, ?_, ?_, fun _ => rfl⟩
      · intro _ iface hiface
        have hmem : iface.ind.toNat ∈ List.range this.nbIfaces := by
          rw [← this.used_inds]
          exact List.mem_map_of_mem hiface
        exact lt_of_lt_of_le (List.mem_range.1 hmem) this.nb_le
      · intro _
        have hnodup : ((this.used.map Iface.ind).map UInt8.toNat).Nodup := by
          rw [List.map_map]
          exact this.used_inds ▸ List.nodup_range
        exact hnodup.of_map
  | multicast =>
      exact ⟨fun h => (Build.noConfusion h), fun h => (Build.noConfusion h),
        fun h => (Build.noConfusion h), fun h => (Build.noConfusion h)⟩

/-- The address that a CAP announces for an IND. -/
def announcedAddr (msg : CapMsg) (i : ℕ) : Option InAddr :=
  (msg.receiver.used.find? fun iface => iface.ind.toNat == i).map Iface.addr

theorem foldlM_storeAddr {ifaces : List Iface} (hlt : ∀ iface ∈ ifaces, iface.ind.toNat < 16)
    (hnodup : (ifaces.map Iface.ind).Nodup) (destAddr : Vector InAddr 16) :
    ∃ destAddr', ifaces.foldlM storeAddr destAddr = some destAddr' ∧
      ∀ i, (∀ iface ∈ ifaces, iface.ind.toNat = i → destAddr'[i]? = some iface.addr) ∧
        ((∀ iface ∈ ifaces, iface.ind.toNat ≠ i) → destAddr'[i]? = destAddr[i]?) := by
  induction ifaces generalizing destAddr with
  | nil => exact ⟨destAddr, rfl, fun i => ⟨fun iface hmem => (by cases hmem), fun _ => rfl⟩⟩
  | cons iface ifaces ih =>
      have hind : iface.ind.toNat < 16 := hlt iface List.mem_cons_self
      obtain ⟨hnotin, hnodup⟩ := List.nodup_cons.1 hnodup
      obtain ⟨destAddr', hrun, hslots⟩ :=
        ih (fun iface' h => hlt iface' (List.mem_cons_of_mem iface h)) hnodup
          (destAddr.set iface.ind.toNat iface.addr hind)
      refine ⟨destAddr', ?_, ?_⟩
      · rw [List.foldlM_cons, storeAddr, dif_pos hind]
        exact hrun
      · intro i
        obtain ⟨hstored, hkept⟩ := hslots i
        constructor
        · intro iface' hmem hi
          rcases List.mem_cons.1 hmem with rfl | hmem
          · -- no later interface has the same IND
            rw [hkept, ← hi, Vector.getElem?_set_self hind]
            intro iface'' hmem'' hi'
            apply hnotin
            rw [← UInt8.toNat_inj.1 (hi'.trans hi.symm)]
            exact List.mem_map_of_mem hmem''
          · exact hstored iface' hmem hi
        · intro hne
          rw [hkept fun iface' h => hne iface' (List.mem_cons_of_mem iface h),
            Vector.getElem?_set_ne hind (hne iface List.mem_cons_self)]

/-- On a well-formed CAP `dest_addr` gets the announced addresses. -/
theorem storeAddrs_wellFormed {msg : CapMsg} (h : msg.WellFormed .unicast)
    (destAddr : Vector InAddr 16) :
    ∃ destAddr', storeAddrs msg.receiver destAddr = some destAddr' ∧
      ∀ i addr, announcedAddr msg i = some addr → destAddr'[i]? = some addr := by
  obtain ⟨destAddr', hrun, hslots⟩ :=
    foldlM_storeAddr (h.ind_lt rfl) (h.ind_nodup rfl) destAddr
  refine ⟨destAddr', ?_, ?_⟩
  · rw [storeAddrs, if_pos (h.nbIfaces_le rfl), hrun]
  · intro i addr haddr
    obtain ⟨iface, hfind, rfl⟩ := Option.map_eq_some_iff.1 haddr
    exact (hslots i).1 iface (List.mem_of_find?_eq_some hfind)
      (by simpa using List.find?_some hfind)

/-- The announced INDs are the bits of the bitmap. -/
theorem announcedAddr_isSome_iff {msg : CapMsg} (h : msg.WellFormed .unicast) {i : ℕ}
    (hi : i < 16) : (announcedAddr msg i).isSome = msg.inds.getLsbD i := by
  rw [h.inds rfl, getLsbD_hostInds _ hi, announcedAddr, Option.isSome_map,
    Bool.eq_iff_iff, List.find?_isSome, List.any_eq_true]

/-- The CAP of a receiver with the same two interfaces, for the flow from `10.0.0.1:4000`
to `10.0.0.2:5000`. -/
def smallCap : CapMsg :=
  sendCap .unicast smallHost.toHost ⟨inAddr 10 0 0 1, inAddr 10 0 0 2, 4000, 5000⟩

/-! ## Steps -/

theorem handleCap_defined {c : Config} {msg : CapMsg}
    (h : msg.WellFormed c.target.build) (currTime : ℤ) (heap : Heap) (s : Control) :
    ∃ s', handleCap c currTime heap msg s = some s' := by
  have haddrs : ∃ destAddr,
      c.target.build.ifUnicast (storeAddrs msg.receiver) heap.addrs = some destAddr := by
    cases hbuild : c.target.build with
    | unicast =>
        rw [hbuild] at h
        obtain ⟨destAddr, hrun, _⟩ := storeAddrs_wellFormed h heap.addrs
        exact ⟨destAddr, hrun⟩
    | multicast => exact ⟨heap.addrs, rfl⟩
  obtain ⟨destAddr, haddrs⟩ := haddrs
  unfold handleCap
  split
  · exact ⟨_, rfl⟩
  · dsimp only
    split
    · rw [createBase, haddrs]
      exact ⟨_, rfl⟩
    · exact ⟨s, rfl⟩

/-- No step on a well-formed CAP is undefined. -/
theorem step_defined {c : Config} {e : Event}
    (h : ∀ heap msg, e.action = .cap heap msg → msg.WellFormed c.target.build) (s : State) :
    ∃ s', step c s e = some s' := by
  obtain ⟨currTime, action⟩ := e
  cases action with
  | cap heap msg =>
      obtain ⟨control, hcontrol⟩ := handleCap_defined (h heap msg rfl) currTime heap s.toControl
      refine ⟨{ s with toControl := control }, ?_⟩
      change capStep c currTime heap msg s = _
      rw [capStep, hcontrol]
      rfl
  | pbStart => exact ⟨pbStart s, rfl⟩
  | pbIteration pid => exact ⟨pbIteration c currTime pid s, rfl⟩

end Iprp.Icd
