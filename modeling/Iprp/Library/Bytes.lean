import Mathlib.Data.Nat.Digits.Defs

/-!
# Byte buffers

A buffer is a list of bytes, or of elements of any other type. `read` and `write` are the
total accesses at an offset; `load` and `store` are the checked ones, absent when the
access would leave the buffer. A machine word is stored in one of two byte orders:
`encode o w n` are the `w` bytes of `n` in the order `o`, and `decode` reads them back.
`htons` is the conversion of a 16-bit word to network order, so that a word converted and
then stored appears in memory most significant byte first on either kind of host.
-/

namespace Bytes

/-- The `n` bytes at offset `off`, as many of them as the buffer has. -/
def read {α : Type*} (b : List α) (off n : ℕ) : List α := (b.drop off).take n

/-- The buffer with `v` written over it at offset `off`. -/
def write {α : Type*} (b : List α) (off : ℕ) (v : List α) : List α :=
  b.take off ++ v ++ b.drop (off + v.length)

/-- Read `n` bytes at offset `off`, absent when they do not all lie inside. -/
def load {α : Type*} (b : List α) (off n : ℕ) : Option (List α) :=
  if off + n ≤ b.length then some (read b off n) else none

/-- Write `v` at offset `off`, absent when it does not fit inside. -/
def store {α : Type*} (b : List α) (off : ℕ) (v : List α) : Option (List α) :=
  if off + v.length ≤ b.length then some (write b off v) else none

theorem load_eq_read {α : Type*} {b : List α} {off n : ℕ} (h : off + n ≤ b.length) :
    load b off n = some (read b off n) := if_pos h

theorem store_eq_write {α : Type*} {b v : List α} {off : ℕ}
    (h : off + v.length ≤ b.length) : store b off v = some (write b off v) := if_pos h

theorem length_read {α : Type*} {b : List α} {off n : ℕ} (h : off + n ≤ b.length) :
    (read b off n).length = n := by
  simp only [read, List.length_take, List.length_drop]
  omega

theorem length_write {α : Type*} {b v : List α} {off : ℕ}
    (h : off + v.length ≤ b.length) : (write b off v).length = b.length := by
  simp only [write, List.length_append, List.length_take, List.length_drop]
  omega

theorem getElem?_read {α : Type*} (b : List α) (off n i : ℕ) :
    (read b off n)[i]? = if i < n then b[off + i]? else none := by
  rw [read, List.getElem?_take]
  by_cases h : i < n
  · rw [if_pos h, if_pos h, List.getElem?_drop]
  · rw [if_neg h, if_neg h]

theorem getElem?_write {α : Type*} {b v : List α} {off : ℕ}
    (h : off + v.length ≤ b.length) (i : ℕ) :
    (write b off v)[i]? =
      if off ≤ i ∧ i < off + v.length then v[i - off]? else b[i]? := by
  have htake : (b.take off).length = off := by
    rw [List.length_take]
    omega
  rw [write, List.append_assoc, List.getElem?_append, htake]
  by_cases hlt : i < off
  · rw [if_pos hlt, List.getElem?_take, if_pos hlt, if_neg (by omega)]
  · rw [if_neg hlt, List.getElem?_append]
    by_cases hv : i - off < v.length
    · rw [if_pos hv, if_pos (by omega)]
    · rw [if_neg hv, List.getElem?_drop, if_neg (by omega)]
      congr 1
      omega

theorem read_write_same {α : Type*} {b v : List α} {off : ℕ}
    (h : off + v.length ≤ b.length) : read (write b off v) off v.length = v := by
  apply List.ext_getElem?
  intro i
  rw [getElem?_read, getElem?_write h]
  by_cases hi : i < v.length
  · rw [if_pos hi, if_pos (by omega), Nat.add_sub_cancel_left]
  · rw [if_neg hi, List.getElem?_eq_none (by omega)]

theorem read_write_of_disjoint {α : Type*} {b v : List α} {off off' n : ℕ}
    (h : off + v.length ≤ b.length) (hd : off' + n ≤ off ∨ off + v.length ≤ off') :
    read (write b off v) off' n = read b off' n := by
  apply List.ext_getElem?
  intro i
  rw [getElem?_read, getElem?_read, getElem?_write h]
  by_cases hi : i < n
  · rw [if_pos hi, if_pos hi, if_neg (by omega)]
  · rw [if_neg hi, if_neg hi]

theorem read_read {α : Type*} (b : List α) (off : ℕ) {n off' n' : ℕ}
    (h : off' + n' ≤ n) :
    read (read b off n) off' n' = read b (off + off') n' := by
  apply List.ext_getElem?
  intro i
  rw [getElem?_read, getElem?_read, getElem?_read]
  by_cases hi : i < n'
  · rw [if_pos hi, if_pos hi, if_pos (by omega), Nat.add_assoc]
  · rw [if_neg hi, if_neg hi]

theorem read_take {α : Type*} {b : List α} {m off n : ℕ} (h : off + n ≤ m) :
    read (b.take m) off n = read b off n := by
  have hread := read_read b 0 h
  rwa [Nat.zero_add] at hread

theorem read_append_left {α : Type*} {a b : List α} {off n : ℕ} (h : off + n ≤ a.length) :
    read (a ++ b) off n = read a off n := by
  apply List.ext_getElem?
  intro i
  rw [getElem?_read, getElem?_read]
  by_cases hi : i < n
  · rw [if_pos hi, if_pos hi, List.getElem?_append_left (by omega)]
  · rw [if_neg hi, if_neg hi]

theorem read_append_right {α : Type*} {a b : List α} {off n : ℕ} (h : a.length ≤ off) :
    read (a ++ b) off n = read b (off - a.length) n := by
  apply List.ext_getElem?
  intro i
  rw [getElem?_read, getElem?_read]
  by_cases hi : i < n
  · rw [if_pos hi, if_pos hi, List.getElem?_append_right (by omega)]
    congr 1
    omega
  · rw [if_neg hi, if_neg hi]

/-- A part of a concatenation is found behind the parts before it. -/
theorem read_flatten {α : Type*} {parts : List (List α)} {i : ℕ} {v : List α}
    (h : parts[i]? = some v) {off n : ℕ} (hoff : (parts.take i).flatten.length = off)
    (hn : v.length = n) : read parts.flatten off n = v := by
  subst hn
  induction parts generalizing i off with
  | nil => cases h
  | cons part parts ih =>
      cases i with
      | zero =>
          obtain rfl : part = v := Option.some.inj h
          obtain rfl : 0 = off := hoff
          rw [List.flatten_cons, read_append_left (by omega), read, List.drop_zero,
            List.take_length]
      | succ i =>
          rw [List.take_succ_cons, List.flatten_cons, List.length_append] at hoff
          rw [List.flatten_cons, read_append_right (by omega)]
          exact ih h (by omega)

/-- What a store of `w` bytes that fits does: the length stays, the bytes are read back
and every disjoint range is as before. -/
theorem store_defined {α : Type*} (b : List α) (off w : ℕ) (v : List α)
    (hv : v.length = w) (h : off + w ≤ b.length) :
    ∃ b', store b off v = some b' ∧ b'.length = b.length ∧ read b' off w = v ∧
      ∀ off' n, off' + n ≤ off ∨ off + w ≤ off' → read b' off' n = read b off' n := by
  subst hv
  refine ⟨write b off v, store_eq_write h, length_write h, read_write_same h, ?_⟩
  intro off' n hd
  exact read_write_of_disjoint h hd

theorem load_append_right {α : Type*} (a b : List α) (off n : ℕ) :
    load (a ++ b) (a.length + off) n = load b off n := by
  rw [load, load, List.length_append, read_append_right (Nat.le_add_right _ _),
    Nat.add_sub_cancel_left]
  by_cases h : off + n ≤ b.length
  · rw [if_pos h, if_pos (by omega)]
  · rw [if_neg h, if_neg (by omega)]

/-! ## Words in memory -/

/-- The order in which a host keeps the bytes of a word. -/
inductive ByteOrder where
  | little
  | big
  deriving DecidableEq, Repr

/-- The `w` bytes of `n`, least significant first. -/
def encodeLittle : ℕ → ℕ → List UInt8
  | 0, _ => []
  | w + 1, n => UInt8.ofNat n :: encodeLittle w (n / 256)

/-- The number whose bytes are `bs`, least significant first. -/
def decodeLittle (bs : List UInt8) : ℕ := Nat.ofDigits 256 (bs.map UInt8.toNat)

/-- The `w` bytes of `n` in the order `o`. -/
def encode (o : ByteOrder) (w n : ℕ) : List UInt8 :=
  match o with
  | .little => encodeLittle w n
  | .big => (encodeLittle w n).reverse

/-- The number whose bytes in the order `o` are `bs`. -/
def decode (o : ByteOrder) (bs : List UInt8) : ℕ :=
  match o with
  | .little => decodeLittle bs
  | .big => decodeLittle bs.reverse

@[simp] theorem length_encodeLittle (w n : ℕ) : (encodeLittle w n).length = w := by
  induction w generalizing n with
  | zero => rfl
  | succ w ih => rw [encodeLittle, List.length_cons, ih]

@[simp] theorem length_encode (o : ByteOrder) (w n : ℕ) : (encode o w n).length = w := by
  cases o with
  | little => exact length_encodeLittle w n
  | big => rw [encode, List.length_reverse, length_encodeLittle]

theorem decodeLittle_cons (x : UInt8) (bs : List UInt8) :
    decodeLittle (x :: bs) = x.toNat + 256 * decodeLittle bs := by
  rw [decodeLittle, List.map_cons, Nat.ofDigits_cons]
  rfl

theorem decodeLittle_encodeLittle {w n : ℕ} (h : n < 256 ^ w) :
    decodeLittle (encodeLittle w n) = n := by
  induction w generalizing n with
  | zero =>
      have hn : n = 0 := by simpa using h
      rw [hn]
      rfl
  | succ w ih =>
      have hq : n / 256 < 256 ^ w := by
        rw [pow_succ] at h
        exact Nat.div_lt_of_lt_mul (by omega)
      rw [encodeLittle, decodeLittle_cons, ih hq, UInt8.toNat_ofNat']
      omega

/-- A word that fits is read back as it was stored. -/
theorem decode_encode (o : ByteOrder) {w n : ℕ} (h : n < 256 ^ w) :
    decode o (encode o w n) = n := by
  cases o with
  | little => exact decodeLittle_encodeLittle h
  | big =>
      rw [encode, decode, List.reverse_reverse]
      exact decodeLittle_encodeLittle h

theorem encodeLittle_decodeLittle (bs : List UInt8) :
    encodeLittle bs.length (decodeLittle bs) = bs := by
  induction bs with
  | nil => rfl
  | cons x bs ih =>
      have hx : x.toNat < 256 := x.toNat_lt
      have hdiv : (x.toNat + 256 * decodeLittle bs) / 256 = decodeLittle bs := by omega
      have hmod : UInt8.ofNat (x.toNat + 256 * decodeLittle bs) = x := by
        apply UInt8.toNat_inj.1
        rw [UInt8.toNat_ofNat']
        omega
      rw [List.length_cons, decodeLittle_cons, encodeLittle, hdiv, hmod, ih]

theorem encode_decode (o : ByteOrder) (bs : List UInt8) :
    encode o bs.length (decode o bs) = bs := by
  cases o with
  | little => exact encodeLittle_decodeLittle bs
  | big =>
      have h := encodeLittle_decodeLittle bs.reverse
      rw [List.length_reverse] at h
      rw [encode, decode, h, List.reverse_reverse]

theorem decodeLittle_lt (bs : List UInt8) : decodeLittle bs < 256 ^ bs.length := by
  induction bs with
  | nil => decide
  | cons x bs ih =>
      have hx : x.toNat < 256 := x.toNat_lt
      rw [decodeLittle_cons, List.length_cons, pow_succ]
      omega

theorem decode_lt (o : ByteOrder) (bs : List UInt8) : decode o bs < 256 ^ bs.length := by
  cases o with
  | little => exact decodeLittle_lt bs
  | big => simpa [decode] using decodeLittle_lt bs.reverse

/-- Convert a 16-bit word from host order to network order. -/
def htons (o : ByteOrder) (x : UInt16) : UInt16 :=
  match o with
  | .little => UInt16.ofNat (x.toNat % 256 * 256 + x.toNat / 256)
  | .big => x

theorem toNat_htons_little (x : UInt16) :
    (htons .little x).toNat = x.toNat % 256 * 256 + x.toNat / 256 := by
  have hx : x.toNat < 65536 := x.toNat_lt
  rw [htons, UInt16.toNat_ofNat']
  omega

theorem encode_htons (o : ByteOrder) (x : UInt16) :
    encode o 2 (htons o x).toNat = encode .big 2 x.toNat := by
  cases o with
  | big => rfl
  | little =>
      have hx : x.toNat < 65536 := x.toNat_lt
      have hlow : (x.toNat % 256 * 256 + x.toNat / 256) / 256 = x.toNat % 256 := by
        rw [Nat.add_comm, Nat.add_mul_div_right _ _ (by omega),
          Nat.div_eq_of_lt (by omega), Nat.zero_add]
      rw [toNat_htons_little]
      simp only [encode, encodeLittle, hlow, List.reverse_cons, List.reverse_nil,
        List.nil_append, List.singleton_append, List.cons.injEq, and_true]
      constructor
      · apply UInt8.toNat_inj.1
        rw [UInt8.toNat_ofNat', UInt8.toNat_ofNat']
        omega
      · apply UInt8.toNat_inj.1
        rw [UInt8.toNat_ofNat', UInt8.toNat_ofNat']
        omega

/-- Convert a 16-bit word from network order to host order. -/
def ntohs (o : ByteOrder) (x : UInt16) : UInt16 := htons o x

theorem ntohs_htons (o : ByteOrder) (x : UInt16) : ntohs o (htons o x) = x := by
  cases o with
  | big => rfl
  | little =>
      have hx : x.toNat < 65536 := x.toNat_lt
      have hlow : (x.toNat % 256 * 256 + x.toNat / 256) % 256 = x.toNat / 256 := by omega
      have hhigh : (x.toNat % 256 * 256 + x.toNat / 256) / 256 = x.toNat % 256 := by omega
      apply UInt16.toNat_inj.1
      rw [ntohs, toNat_htons_little, toNat_htons_little, hlow, hhigh]
      omega

end Bytes
