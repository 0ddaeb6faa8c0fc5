import Iprp.Icd.Peerbase

/-!
# The files of two SNSIDs

A byte of the SNSID below `0x80` is printed as its two digits. From `0x80` on the plain
`char` is negative, `%02x` prints eight digits of which the first two fit, and these are
`ff`. So the path of a peerbase file keeps apart exactly the SNSIDs that differ at a byte
that is below `0x80` in one of them (`peerbasePath_ne_iff`).
-/

namespace Iprp.Icd

open CString

/-- The two characters that a byte contributes to the path. -/
def hexCode (c : UInt8) : List Char := (hex02 (promoteChar c)).take 2

/-- The value of a string of hexadecimal digits. -/
def hexValue (cs : List Char) : ℕ :=
  cs.foldl (fun v c => 16 * v + (if c.toNat < 58 then c.toNat - 48 else c.toNat - 87)) 0

theorem hexCode_table : ∀ n : Fin 256,
    nul ∉ hexCode (UInt8.ofNat n) ∧
      (n.val < 128 → hexValue (hexCode (UInt8.ofNat n)) = n) ∧
      (128 ≤ n.val → hexCode (UInt8.ofNat n) = ['f', 'f']) := by
  decide +kernel

theorem hexCode_spec (c : UInt8) :
    nul ∉ hexCode c ∧ (c.toNat < 128 → hexValue (hexCode c) = c.toNat) ∧
      (128 ≤ c.toNat → hexCode c = ['f', 'f']) := by
  have htable := hexCode_table ⟨c.toNat, c.toNat_lt⟩
  rwa [UInt8.ofNat_toNat] at htable

theorem length_hexCode (c : UInt8) : (hexCode c).length = 2 := by
  rw [hexCode, List.length_take, Nat.min_eq_left (two_le_length_hex02 _)]

theorem hexCode_eq_iff {c d : UInt8} :
    hexCode c = hexCode d ↔ c = d ∨ (128 ≤ c.toNat ∧ 128 ≤ d.toNat) := by
  obtain ⟨_, hc, hc'⟩ := hexCode_spec c
  obtain ⟨_, hd, hd'⟩ := hexCode_spec d
  have hff : hexValue ['f', 'f'] = 255 := by decide
  constructor
  · intro h
    rcases Nat.lt_or_ge c.toNat 128 with hlt | hge
    · rcases Nat.lt_or_ge d.toNat 128 with hlt' | hge'
      · left
        rw [← UInt8.toNat_inj, ← hc hlt, ← hd hlt', h]
      · have hval := hc hlt
        rw [h, hd' hge', hff] at hval
        omega
    · rcases Nat.lt_or_ge d.toNat 128 with hlt' | hge'
      · have hval := hd hlt'
        rw [← h, hc' hge, hff] at hval
        omega
      · exact Or.inr ⟨hge, hge'⟩
  · rintro (rfl | ⟨hge, hge'⟩)
    · rfl
    · rw [hc' hge, hd' hge']

/-! ## Paths -/

theorem cString_printSnsid (snsid : Snsid) {buf : List Char} (hbuf : buf.length = 41) :
    cString (printSnsid snsid buf) = snsid.toList.flatMap hexCode := by
  have hprint := cString_foldl_snprintf (w := 2)
    (f := fun i => hex02 (promoteChar (snsid[i]?.getD 0)))
    (fun i => two_le_length_hex02 _) (fun i => (hexCode_spec _).1) 19 buf
    (by omega)
  have hlist : snsid.toList = (List.range 20).map fun i => snsid[i]?.getD 0 := by
    apply List.ext_getElem
    · simp
    · intro i hi hi'
      have hlt : i < 20 := by simpa using hi
      simp [hlt]
  rw [printSnsid, hprint, hlist, List.flatMap_map]
  rfl

theorem length_flatMap_hexCode (cs : List UInt8) :
    (cs.flatMap hexCode).length = 2 * cs.length := by
  induction cs with
  | nil => rfl
  | cons c cs ih =>
      rw [List.flatMap_cons, List.length_append, length_hexCode, ih, List.length_cons]
      omega

theorem basePath_eq (snsid : Snsid) {buf : List Char} (hbuf : buf.length = 41) :
    basePath (printSnsid snsid buf) =
      "files/base_".toList ++ snsid.toList.flatMap hexCode ++ ".iprp".toList := by
  rw [basePath, cString_printSnsid snsid hbuf, List.take_of_length_le]
  rw [List.length_append, List.length_append, length_flatMap_hexCode, Vector.length_toList]
  decide

theorem peerbasePath_eq (snsid : Snsid) {buf : List Char} (hbuf : buf.length = 41) :
    basePath (printSnsid snsid buf) = peerbasePath snsid := by
  rw [peerbasePath, basePath_eq snsid hbuf, basePath_eq snsid (by simp)]

theorem flatMap_hexCode_eq_iff {cs ds : List UInt8} :
    cs.flatMap hexCode = ds.flatMap hexCode ↔ cs.map hexCode = ds.map hexCode := by
  constructor
  · intro h
    induction cs generalizing ds with
    | nil =>
        have hlen := congrArg List.length h
        rw [length_flatMap_hexCode, length_flatMap_hexCode, List.length_nil] at hlen
        have hnil : ds = [] := List.length_eq_zero_iff.1 (by omega)
        rw [hnil]
    | cons c cs ih =>
        cases ds with
        | nil =>
            have hlen := congrArg List.length h
            rw [length_flatMap_hexCode, length_flatMap_hexCode] at hlen
            cases hlen
        | cons d ds =>
            rw [List.flatMap_cons, List.flatMap_cons] at h
            obtain ⟨hcode, hrest⟩ :=
              List.append_inj h (by rw [length_hexCode, length_hexCode])
            rw [List.map_cons, List.map_cons, hcode, ih hrest]
  · intro h
    rw [List.flatMap_def, List.flatMap_def, h]

/-- Some byte is printed differently: the SNSIDs differ at a byte that is below `0x80` in
one of them. -/
def PrintedApart (a b : Snsid) : Prop :=
  ∃ i : Fin 20, a[i] ≠ b[i] ∧ (a[i].toNat < 128 ∨ b[i].toNat < 128)

instance (a b : Snsid) : Decidable (PrintedApart a b) :=
  inferInstanceAs (Decidable
    (∃ i : Fin 20, a[i] ≠ b[i] ∧ (a[i].toNat < 128 ∨ b[i].toNat < 128)))

theorem peerbasePath_eq_iff {a b : Snsid} :
    peerbasePath a = peerbasePath b ↔ ¬ PrintedApart a b := by
  have hpath : peerbasePath a = peerbasePath b ↔
      a.toList.map hexCode = b.toList.map hexCode := by
    rw [peerbasePath, peerbasePath, basePath_eq a (by simp), basePath_eq b (by simp),
      List.append_left_inj, List.append_right_inj, flatMap_hexCode_eq_iff]
  rw [hpath, PrintedApart, not_exists]
  constructor
  · rintro h i ⟨hne, hlow⟩
    have hget := congrArg (fun l => l[i.val]?) h
    simp only [List.getElem?_map, Vector.getElem?_toList, Vector.getElem?_eq_getElem i.isLt,
      Option.map_some, Option.some.injEq] at hget
    rcases hexCode_eq_iff.1 hget with heq | ⟨hge, hge'⟩
    · exact hne heq
    · exact absurd hlow (not_or.2 ⟨not_lt.2 hge, not_lt.2 hge'⟩)
  · intro h
    apply List.ext_getElem
    · simp
    · intro i hi hi'
      have hlt : i < 20 := by simpa using hi
      simp only [List.getElem_map, Vector.getElem_toList]
      apply hexCode_eq_iff.2
      by_contra hcon
      obtain ⟨hne, hlow⟩ := not_or.1 hcon
      apply h ⟨i, hlt⟩
      refine ⟨hne, ?_⟩
      rcases not_and_or.1 hlow with hlow | hlow
      · exact Or.inl (not_le.1 hlow)
      · exact Or.inr (not_le.1 hlow)

/-- A peerbase that holds nothing but an SNSID and a bitmap. -/
def barePeerbase (snsid : Snsid) (inds : IndBitmap) : Peerbase where
  link := ⟨Vector.replicate 4 0, Vector.replicate 4 0, 0, 0, snsid⟩
  host := ⟨0, Vector.replicate 16 ⟨0, Vector.replicate 4 0⟩⟩
  inds := inds
  destAddr := Vector.replicate 16 (Vector.replicate 4 0)

/-- The paths of two SNSIDs differ, and the file of the one is left alone when the file of
the other is stored, if and only if some byte is printed differently. -/
theorem peerbasePath_ne_iff (a b : Snsid) :
    (peerbasePath a ≠ peerbasePath b ↔ PrintedApart a b) ∧
      ((∀ files p q, p.link.snsid = a → q.link.snsid = b →
        peerbaseStore (peerbasePath b) q (peerbaseStore (peerbasePath a) p files)
          (peerbasePath a) = some p) ↔ PrintedApart a b) := by
  refine ⟨peerbasePath_eq_iff.not_left, ?_⟩
  constructor
  · intro h
    by_contra hcon
    have hpath := peerbasePath_eq_iff.2 hcon
    have hread := h (fun _ => none) (barePeerbase a 0) (barePeerbase b 1) rfl rfl
    rw [peerbaseStore, hpath, Function.update_self] at hread
    have hinds : (1 : IndBitmap) = 0 := congrArg Peerbase.inds (Option.some.inj hread)
    exact absurd hinds (by decide)
  · intro happart files p q _ _
    have hne : peerbasePath a ≠ peerbasePath b := fun h => peerbasePath_eq_iff.1 h happart
    rw [peerbaseStore, Function.update_of_ne hne, peerbaseStore, Function.update_self]

/-- The SNSIDs of one flow for the values `128` and `129` of the reboot counter share
their file. -/
theorem peerbasePath_collision :
    ¬ ∀ a b : Snsid, a ≠ b → peerbasePath a ≠ peerbasePath b := by
  intro h
  apply h (snsid .little (inAddr 10 0 0 1) 4000 128) (snsid .little (inAddr 10 0 0 1) 4000 129)
  · decide
  · rw [peerbasePath_eq_iff]
    decide

end Iprp.Icd
