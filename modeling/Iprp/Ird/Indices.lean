import Iprp.Ird.LossWindow

/-!
# The indices of the duplicate-discard algorithm

The gap loop of `is_fresh_packet` counts with an `int` and takes its remainder for the index
into `list_sn`, while its comparison with `seq_nb` is unsigned. `gapLoop` runs it as the machine
does, an overflow of the counter wrapping around, and lists its stores. They have the numbers
strictly between `high_sn` and `seq_nb` over the whole range of 32 bits (`gapStores_numbers`),
but from `2 ^ 31` on the counter is negative, and so is every remainder that is not zero
(`signedRem_inside_iff`).
-/

namespace Iprp.Ird

/-- A store `list_sn[index] = number`. -/
structure SnStore where
  index : ℤ
  number : UInt32

/-- The stores of the gap loop from the counter `i` on. -/
def gapLoop (seqNb : UInt32) (i : Int32) : List SnStore :=
  if i.toUInt32 < seqNb then
    ⟨(i % 1024).toInt, i.toUInt32⟩ :: gapLoop seqNb (i + 1)
  else []
termination_by seqNb.toNat - i.toUInt32.toNat
decreasing_by
  next h =>
    have hlt : i.toUInt32.toNat < seqNb.toNat := UInt32.lt_iff_toNat_lt.1 h
    have hbound : seqNb.toNat < 2 ^ 32 := seqNb.toNat_lt
    have hone : (1 : Int32).toUInt32.toNat = 1 := rfl
    rw [Int32.toUInt32_add, UInt32.toNat_add, hone, Nat.mod_eq_of_lt (by omega)]
    omega

/-- The stores when `seqNb` is above `high_sn`. -/
def gapStores (seqNb : UInt32) (link : ReceiverLink) : List SnStore :=
  gapLoop seqNb (link.highSn + 1).toInt32

/-- The indices into `list_sn` that `is_fresh_packet` uses. -/
def snIndices (seqNb : UInt32) (link : ReceiverLink) : List ℤ :=
  if seqNb = link.highSn then []
  else if link.highSn < seqNb then (gapStores seqNb link).map SnStore.index
  else [(seqNb % 1024).toNat]

/-- Every index is inside `list_sn`, and the gap loop stores the numbers strictly between
`high_sn` and the new number. -/
structure IndicesSafe (seqNb : UInt32) (link : ReceiverLink) : Prop where
  inside : ∀ r ∈ snIndices seqNb link, 0 ≤ r ∧ r < iprpDdMaxLostPackets
  stored : link.highSn < seqNb → (gapStores seqNb link).map (fun st => st.number.toNat) =
    List.range' (link.highSn.toNat + 1) (seqNb.toNat - (link.highSn.toNat + 1))

theorem toInt_rem (i : Int32) : (i % 1024).toInt = signedRem i.toUInt32.toNat := by
  have hbmod : i.toInt = (i.toUInt32.toNat : ℤ).bmod (2 ^ 32) :=
    BitVec.toInt_eq_toNat_bmod i.toBitVec
  have hsize : (1024 : Int32).toInt = (iprpDdMaxLostPackets : ℤ) := by decide
  unfold signedRem
  rw [Int32.toInt_mod, hbmod, hsize]

theorem gapLoop_eq {seqNb : UInt32} (d : ℕ) {x : UInt32} (hd : seqNb.toNat - x.toNat = d) :
    gapLoop seqNb x.toInt32 =
      (List.range' x.toNat d).map fun i => ⟨signedRem i, UInt32.ofNat i⟩ := by
  induction d generalizing x with
  | zero =>
      have hge : ¬ x < seqNb := fun h => by
        have hlt := UInt32.lt_iff_toNat_lt.1 h
        omega
      rw [gapLoop, UInt32.toUInt32_toInt32, if_neg hge]
      rfl
  | succ d ih =>
      have hlt : x < seqNb := UInt32.lt_iff_toNat_lt.2 (by omega)
      have hbound : seqNb.toNat < 2 ^ 32 := seqNb.toNat_lt
      have hnext : (x + 1).toNat = x.toNat + 1 := by
        rw [UInt32.toNat_add]
        exact Nat.mod_eq_of_lt (by change x.toNat + 1 < _; omega)
      have hwrap : x.toInt32 + 1 = (x + 1).toInt32 := (UInt32.toInt32_add x 1).symm
      rw [gapLoop, UInt32.toUInt32_toInt32, if_pos hlt, hwrap, ih (x := x + 1) (by omega), hnext,
        List.range'_succ, List.map_cons, toInt_rem, UInt32.toUInt32_toInt32, UInt32.ofNat_toNat]

theorem gapStores_eq {seqNb : UInt32} {link : ReceiverLink} (hlt : link.highSn < seqNb) :
    gapStores seqNb link =
      (List.range' (link.highSn.toNat + 1) (seqNb.toNat - (link.highSn.toNat + 1))).map
        fun i => ⟨signedRem i, UInt32.ofNat i⟩ := by
  have hlt' : link.highSn.toNat < seqNb.toNat := UInt32.lt_iff_toNat_lt.1 hlt
  have hbound : seqNb.toNat < 2 ^ 32 := seqNb.toNat_lt
  have hnext : (link.highSn + 1).toNat = link.highSn.toNat + 1 := by
    rw [UInt32.toNat_add]
    exact Nat.mod_eq_of_lt (by change link.highSn.toNat + 1 < _; omega)
  rw [gapStores, gapLoop_eq (seqNb.toNat - (link.highSn.toNat + 1)) (by rw [hnext]), hnext]

theorem noteGap_eq {seqNb : UInt32} {link : ReceiverLink} (hlt : link.highSn < seqNb) :
    noteGap link.listSn link.highSn seqNb =
      (gapStores seqNb link).foldlM
        (fun listSn st => (slotAt st.index).map fun j => Function.update listSn j st.number)
        link.listSn := by
  have hstore : storeSn = fun listSn i => (slotAt (signedRem i)).map fun j =>
      Function.update listSn j (UInt32.ofNat i) := by
    funext listSn i
    rw [storeSn]
  rw [gapStores_eq hlt, List.foldlM_map, noteGap, hstore]

theorem gapStores_numbers {seqNb : UInt32} {link : ReceiverLink} (hlt : link.highSn < seqNb) :
    (gapStores seqNb link).map (fun st => st.number.toNat) =
      List.range' (link.highSn.toNat + 1) (seqNb.toNat - (link.highSn.toNat + 1)) := by
  rw [gapStores_eq hlt, List.map_map]
  refine (List.map_congr_left ?_).trans (List.map_id _)
  intro i hi
  have hbound : seqNb.toNat < 2 ^ 32 := seqNb.toNat_lt
  have hi' : i < seqNb.toNat := by
    rw [List.mem_range'_1] at hi
    omega
  exact UInt32.toNat_ofNat'.trans (Nat.mod_eq_of_lt (lt_trans hi' hbound))

theorem signedRem_inside_iff {i : ℕ} (hi : i < 2 ^ 32) :
    (0 ≤ signedRem i ∧ signedRem i < iprpDdMaxLostPackets) ↔
      (2 ^ 31 ≤ i → iprpDdMaxLostPackets ∣ i) := by
  by_cases hlow : i < 2 ^ 31
  · rw [signedRem_of_lt hlow]
    have hmod : i % iprpDdMaxLostPackets < iprpDdMaxLostPackets := Nat.mod_lt i (by decide)
    exact iff_of_true ⟨Int.natCast_nonneg _, by exact_mod_cast hmod⟩
      fun h => absurd h (not_le.2 hlow)
  · have hbmod : (i : ℤ).bmod (2 ^ 32) = -((2 ^ 32 - i : ℕ) : ℤ) := by
      rw [Int.bmod_def]
      omega
    have hrem : signedRem i = -(((2 ^ 32 - i) % iprpDdMaxLostPackets : ℕ) : ℤ) := by
      unfold signedRem
      rw [hbmod, Int.neg_tmod, Int.tmod_eq_emod_of_nonneg (Int.natCast_nonneg _),
        Int.natCast_mod]
    rw [hrem, Nat.dvd_iff_mod_eq_zero]
    dsimp only [iprpDdMaxLostPackets]
    omega

/-- One call is safe if and only if its gap loop meets no number from `2 ^ 31` on but multiples
of the size of `list_sn`. -/
theorem indicesSafe_iff (seqNb : UInt32) (link : ReceiverLink) :
    IndicesSafe seqNb link ↔
      ∀ i, link.highSn.toNat < i → i < seqNb.toNat → 2 ^ 31 ≤ i → iprpDdMaxLostPackets ∣ i := by
  have hbound : seqNb.toNat < 2 ^ 32 := seqNb.toNat_lt
  by_cases hlt : link.highSn < seqNb
  · have hne : ¬ seqNb = link.highSn := fun heq => by
      rw [heq] at hlt
      exact absurd hlt (UInt32.lt_irrefl _)
    have hindices : snIndices seqNb link =
        (List.range' (link.highSn.toNat + 1)
          (seqNb.toNat - (link.highSn.toNat + 1))).map signedRem := by
      have hindex : SnStore.index ∘ (fun i => ⟨signedRem i, UInt32.ofNat i⟩) = signedRem := by
        simp only [Function.comp_def]
      rw [snIndices, if_neg hne, if_pos hlt, gapStores_eq hlt, List.map_map, hindex]
    constructor
    · intro h i hi hi'
      have hmem : signedRem i ∈ snIndices seqNb link := by
        rw [hindices]
        refine List.mem_map_of_mem ?_
        rw [List.mem_range'_1]
        omega
      exact (signedRem_inside_iff (lt_trans hi' hbound)).1 (h.inside _ hmem)
    · intro h
      refine ⟨?_, fun _ => gapStores_numbers hlt⟩
      intro r hr
      rw [hindices] at hr
      obtain ⟨i, hi, rfl⟩ := List.mem_map.1 hr
      rw [List.mem_range'_1] at hi
      exact (signedRem_inside_iff (by omega)).2 (h i (by omega) (by omega))
  · have hle : seqNb.toNat ≤ link.highSn.toNat := Nat.not_lt.1 (mt UInt32.lt_iff_toNat_lt.2 hlt)
    refine iff_of_true ⟨?_, fun h => absurd h hlt⟩ fun i hi hi' => by omega
    intro r hr
    rw [snIndices] at hr
    split at hr
    · cases hr
    · rw [List.mem_singleton] at hr
      have hmod : (seqNb % 1024).toNat < 1024 := by
        rw [UInt32.toNat_mod]
        exact Nat.mod_lt _ (by decide)
      rw [hr]
      exact ⟨Int.natCast_nonneg _, by exact_mod_cast hmod⟩

/-! ## What is undefined -/

theorem slotAt_eq_some_iff {r : ℤ} :
    (∃ j, slotAt r = some j) ↔ 0 ≤ r ∧ r < iprpDdMaxLostPackets := by
  unfold slotAt
  split
  · next h => exact iff_of_true ⟨_, rfl⟩ ⟨h.1, (Int.toNat_lt h.1).1 h.2⟩
  · next h =>
      refine iff_of_false ?_ fun hr => h ⟨hr.1, (Int.toNat_lt hr.1).2 hr.2⟩
      rintro ⟨j, hj⟩
      cases hj

theorem foldlM_stores_defined_iff (stores : List SnStore)
    (listSn : Fin iprpDdMaxLostPackets → UInt32) :
    (∃ listSn', stores.foldlM
      (fun listSn st => (slotAt st.index).map fun j => Function.update listSn j st.number)
      listSn = some listSn') ↔
      ∀ st ∈ stores, 0 ≤ st.index ∧ st.index < iprpDdMaxLostPackets := by
  induction stores generalizing listSn with
  | nil => exact iff_of_true ⟨listSn, rfl⟩ fun st hst => by cases hst
  | cons st stores ih =>
      rw [List.forall_mem_cons, ← slotAt_eq_some_iff, List.foldlM_cons]
      cases hslot : slotAt st.index with
      | none =>
          refine iff_of_false ?_ ?_
          · rintro ⟨listSn', h⟩
            cases h
          · rintro ⟨⟨j, hj⟩, -⟩
            cases hj
      | some j =>
          rw [← ih (Function.update listSn j st.number)]
          exact (and_iff_right ⟨j, rfl⟩).symm

/-- The algorithm is defined exactly when its indices are inside `list_sn`. -/
theorem isFreshPacket_defined_iff (seqNb : UInt32) (link : ReceiverLink) :
    (∃ r, isFreshPacket seqNb link = some r) ↔ IndicesSafe seqNb link := by
  unfold isFreshPacket
  by_cases heq : seqNb = link.highSn
  · rw [if_pos heq]
    refine iff_of_true ⟨_, rfl⟩ ⟨?_, ?_⟩
    · rw [snIndices, if_pos heq]
      exact fun r hr => by cases hr
    · intro hlt
      rw [heq] at hlt
      exact absurd hlt (UInt32.lt_irrefl _)
  rw [if_neg heq]
  by_cases hlt : link.highSn < seqNb
  · have hinside : (∀ r ∈ snIndices seqNb link, 0 ≤ r ∧ r < iprpDdMaxLostPackets) ↔
        ∀ st ∈ gapStores seqNb link, 0 ≤ st.index ∧ st.index < iprpDdMaxLostPackets := by
      rw [snIndices, if_neg heq, if_pos hlt, List.forall_mem_map]
    rw [if_pos hlt, noteGap_eq hlt]
    constructor
    · rintro ⟨r, hr⟩
      obtain ⟨listSn', hgap, -⟩ := Option.map_eq_some_iff.1 hr
      exact ⟨hinside.2 ((foldlM_stores_defined_iff _ _).1 ⟨listSn', hgap⟩),
        fun _ => gapStores_numbers hlt⟩
    · intro h
      obtain ⟨listSn', hgap⟩ := (foldlM_stores_defined_iff _ link.listSn).2 (hinside.1 h.inside)
      rw [hgap]
      exact ⟨_, rfl⟩
  · rw [if_neg hlt]
    refine iff_of_true ?_ ((indicesSafe_iff seqNb link).2 ?_)
    · split
      · exact ⟨_, rfl⟩
      · exact ⟨_, rfl⟩
    · have hle := Nat.not_lt.1 (mt UInt32.lt_iff_toNat_lt.2 hlt)
      intro i hi hi'
      omega

/-! ## Along the calls on a link -/

/-- Along the calls on a link with any numbers: in every call all indices are inside `list_sn`
and the gap loop stores the numbers strictly between `high_sn` and the new number, if and only if
no call passes over a number from `2 ^ 31` on but multiples of the size of `list_sn`. -/
theorem indices_safe_iff (o : Bytes.ByteOrder) (currTime : ℤ) (header : IprpHeader)
    (seqNbs : List UInt32) :
    (∀ k link s, presentAll (receiverLinkCreate o currTime header) (seqNbs.take k) = some link →
      seqNbs[k]? = some s → IndicesSafe s link) ↔
    ∀ k link s, presentAll (receiverLinkCreate o currTime header) (seqNbs.take k) = some link →
      seqNbs[k]? = some s →
      ∀ i, link.highSn.toNat < i → i < s.toNat → 2 ^ 31 ≤ i → iprpDdMaxLostPackets ∣ i := by
  constructor
  · intro h k link s hlink hs
    exact (indicesSafe_iff s link).1 (h k link s hlink hs)
  · intro h k link s hlink hs
    exact (indicesSafe_iff s link).2 (h k link s hlink hs)

/-- A jump over the number `2 ^ 31 + 1` stores it at the index `-1023`. -/
theorem jump_outside :
    ¬ ∀ (o : Bytes.ByteOrder) (currTime : ℤ) (header : IprpHeader) (seqNbs : List UInt32),
      (∀ s ∈ header.seqNb :: seqNbs, s ≠ 0) →
      ∀ k link s, presentAll (receiverLinkCreate o currTime header) (seqNbs.take k) = some link →
        seqNbs[k]? = some s → IndicesSafe s link := by
  intro h
  have hne : ∀ s ∈ (bareHeader 2147483648).seqNb :: [2147483650], s ≠ 0 := by simp [bareHeader]
  have hsafe := h .little 0 (bareHeader 2147483648) [2147483650] hne 0 _ _ rfl rfl
  have hdvd := (indicesSafe_iff _ _).1 hsafe 2147483649 (by decide) (by decide) (by decide)
  exact absurd hdvd (by decide)

end Iprp.Ird
