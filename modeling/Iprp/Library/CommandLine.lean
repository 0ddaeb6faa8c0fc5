import Mathlib.Data.List.Infix
import Mathlib.Algebra.Group.Action.Defs
import Mathlib.Algebra.Order.BigOperators.Group.List
import Mathlib.Data.List.TakeWhile
import Mathlib.Tactic.IntervalCases

/-!
# Command lines

Words with single blanks between them (`line`), which the shell takes apart again (`wordsOf_line`).
A command of a fixed form is a template of words and holes, which `holes` matches.

Numbers and IPv4 addresses are words too. `decimal` is the conversion `%d` of a number that is not
negative, and `atoi` and `number` read it; `dotted` and `parseDotted` are `inet_ntop` and
`inet_pton` for `AF_INET`, and the second one accepts exactly what the first one prints
(`parseDotted_eq_some_iff`).
-/

namespace CommandLine

/-! ## Words -/

/-- The words with a blank between each two of them. -/
def line (words : List String) : List Char := [' '].intercalate (words.map String.toList)

def wordsOf (text : List Char) : List String := (text.splitOn ' ').map String.ofList

theorem wordsOf_line {words : List String} (hne : words ≠ [])
    (h : ∀ w ∈ words, ' ' ∉ w.toList) : wordsOf (line words) = words := by
  have hblank : ∀ l ∈ words.map String.toList, ' ' ∉ l := by
    simpa using h
  rw [wordsOf, line, List.splitOn_intercalate ' ' hblank (by simpa using hne), List.map_map]
  simp [Function.comp_def]

theorem length_intercalate {c : Char} {ls : List (List Char)} (hne : ls ≠ []) :
    ([c].intercalate ls).length + 1 = (ls.map fun l => l.length + 1).sum := by
  induction ls with
  | nil => exact absurd rfl hne
  | cons l ls ih =>
      cases ls with
      | nil => simp
      | cons l' ls =>
          have hrest := ih (List.cons_ne_nil l' ls)
          rw [List.map_cons, List.sum_cons, ← hrest]
          simp
          omega

theorem not_mem_intercalate {c d : Char} {ls : List (List Char)} (hd : d ≠ c)
    (h : ∀ l ∈ ls, d ∉ l) : d ∉ [c].intercalate ls := by
  induction ls with
  | nil => simp
  | cons l ls ih =>
      obtain ⟨hl, hls⟩ := List.forall_mem_cons.1 h
      cases ls with
      | nil => simpa using hl
      | cons l' ls => simpa [hl, hd] using ih hls

theorem length_line {words : List String} (hne : words ≠ []) :
    (line words).length + 1 = (words.map fun w => w.toList.length + 1).sum := by
  rw [line, length_intercalate (by simpa using hne), List.map_map]
  rfl

/-! ## Templates -/

/-- The words at the holes, if the others are those of the template. -/
def holes : List (Option String) → List String → Option (List String)
  | [], [] => some []
  | some t :: ts, w :: ws => if w = t then holes ts ws else none
  | none :: ts, w :: ws => (holes ts ws).map (w :: ·)
  | [], _ :: _ => none
  | some _ :: _, [] => none
  | none :: _, [] => none

/-! ## Numbers -/

/-- `%d` of a number that is not negative. -/
def decimal (n : ℕ) : String := n.repr

/-- The value of digits. -/
def value (digits : List Char) : ℕ := Nat.ofDigitChars 10 digits 0

theorem value_decimal (n : ℕ) : value (decimal n).toList = n := by
  rw [value, decimal, Nat.toList_repr, Nat.ofDigitChars_ten_toDigits]

theorem isDigit_of_mem_decimal {n : ℕ} {c : Char} (hc : c ∈ (decimal n).toList) :
    c.isDigit = true := by
  rw [decimal, Nat.toList_repr] at hc
  exact Nat.isDigit_of_mem_toDigits (by decide) (by decide) hc

theorem decimal_ne_nil (n : ℕ) : (decimal n).toList ≠ [] := by
  rw [decimal, Nat.toList_repr]
  exact Nat.toDigits_ne_nil

theorem length_decimal_le {n k : ℕ} (hk : 0 < k) (h : n < 10 ^ k) :
    (decimal n).toList.length ≤ k := by
  rw [decimal, Nat.toList_repr]
  exact (Nat.length_toDigits_le_iff (by decide) hk).2 h

theorem not_mem_decimal {n : ℕ} {c : Char} (hc : c.isDigit = false) : c ∉ (decimal n).toList := by
  intro hmem
  rw [isDigit_of_mem_decimal hmem] at hc
  cases hc

/-- A word of digits, as a number. -/
def number (w : String) : Option ℕ :=
  if w.toList ≠ [] ∧ w.toList.all Char.isDigit then some (value w.toList) else none

theorem number_decimal (n : ℕ) : number (decimal n) = some n := by
  have hall : (decimal n).toList.all Char.isDigit = true :=
    List.all_eq_true.2 fun c hc => isDigit_of_mem_decimal hc
  rw [number, if_pos ⟨decimal_ne_nil n, hall⟩, value_decimal]

/-- `isspace`. -/
def isSpace (c : Char) : Bool := c.toNat == 32 || (9 ≤ c.toNat && c.toNat ≤ 13)

/-- `strtol` in base ten: a value that does not fit is replaced by the next one that does. -/
def strtol (s : List Char) : ℤ :=
  match s.dropWhile isSpace with
  | [] => 0
  | c :: cs =>
      if c = '-' then max (-2 ^ 63) (-(value (cs.takeWhile Char.isDigit) : ℤ))
      else if c = '+' then min (2 ^ 63 - 1) (value (cs.takeWhile Char.isDigit))
      else min (2 ^ 63 - 1) (value ((c :: cs).takeWhile Char.isDigit))

/-- `atoi`: what `strtol` gives, as an `int`. -/
def atoi (s : String) : ℤ := (strtol s.toList).bmod (2 ^ 32)

theorem isSpace_of_isDigit {c : Char} (h : c.isDigit = true) : isSpace c = false := by
  have hbounds : 48 ≤ c.toNat ∧ c.toNat ≤ 57 := by
    simpa [Char.isDigit, UInt32.le_iff_toNat_le] using h
  unfold isSpace
  simp
  omega

theorem atoi_decimal {n : ℕ} (h : n < 2 ^ 31) : atoi (decimal n) = n := by
  have hdigits : ∀ c ∈ (decimal n).toList, c.isDigit = true := fun c => isDigit_of_mem_decimal
  obtain ⟨c, cs, heq⟩ := List.exists_cons_of_ne_nil (decimal_ne_nil n)
  have hc : c.isDigit = true := hdigits c (by rw [heq]; exact List.mem_cons_self)
  have hminus : c ≠ '-' := by
    rintro rfl
    cases hc
  have hplus : c ≠ '+' := by
    rintro rfl
    cases hc
  have hvalue : value ((c :: cs).takeWhile Char.isDigit) = n := by
    rw [← heq, List.takeWhile_eq_self_iff.2 hdigits, value_decimal]
  unfold atoi strtol
  rw [heq, List.dropWhile_cons_of_neg (by simp [isSpace_of_isDigit hc])]
  dsimp only
  rw [if_neg hminus, if_neg hplus, hvalue, min_eq_right (by omega)]
  exact Int.bmod_eq_of_le (by omega) (by omega)

/-! ## Addresses -/

/-- `inet_ntop` for `AF_INET`: the bytes in decimal with dots between them. -/
def dotted (a : Vector UInt8 4) : String :=
  String.ofList (['.'].intercalate (a.toList.map fun b => (decimal b.toNat).toList))

theorem dotted_word (a : Vector UInt8 4) :
    ' ' ∉ (dotted a).toList ∧ (dotted a).toList.length ≤ 15 := by
  rw [dotted, String.toList_ofList]
  constructor
  · refine not_mem_intercalate (by decide) ?_
    intro l hl
    obtain ⟨b, -, rfl⟩ := List.mem_map.1 hl
    exact not_mem_decimal rfl
  · have hne : (a.toList.map fun b => (decimal b.toNat).toList) ≠ [] := by simp
    have hlength : (['.'].intercalate
        (a.toList.map fun b => (decimal b.toNat).toList)).length + 1 = _ := length_intercalate hne
    have hsum := List.sum_le_card_nsmul
      ((a.toList.map fun b => (decimal b.toNat).toList).map fun l => l.length + 1) 4 ?_
    · simp only [List.length_map, Vector.length_toList, smul_eq_mul] at hsum
      omega
    · intro n hn
      rw [List.map_map] at hn
      obtain ⟨b, -, rfl⟩ := List.mem_map.1 hn
      have hb : b.toNat < 10 ^ 3 := lt_trans b.toNat_lt (by decide)
      exact Nat.succ_le_succ (length_decimal_le (by decide) hb)

/-- A byte in decimal, without leading zeros. -/
def octet (s : List Char) : Option UInt8 :=
  if s ≠ [] ∧ s.all Char.isDigit ∧ (s.head? = some '0' → s.length = 1) ∧ value s ≤ 255 then
    some (UInt8.ofNat (value s))
  else none

/-- `inet_pton` for `AF_INET`. -/
def parseDotted (s : String) : Option (Vector UInt8 4) :=
  ((s.toList.splitOn '.').mapM octet).bind fun bs =>
    if h : bs.length = 4 then some ⟨bs.toArray, by simpa using h⟩ else none

theorem digitChar_of_isDigit {c : Char} (h : c.isDigit = true) :
    c.toNat - 48 < 10 ∧ (c.toNat - 48).digitChar = c := by
  have hbounds : 48 ≤ c.toNat ∧ c.toNat ≤ 57 := by
    simpa [Char.isDigit, UInt32.le_iff_toNat_le] using h
  refine ⟨by omega, ?_⟩
  have hlt : c.toNat - 48 < 10 := by omega
  have hc : c = Char.ofNat (48 + (c.toNat - 48)) := by
    rw [Nat.add_sub_cancel' hbounds.1, Char.ofNat_toNat]
  generalize c.toNat - 48 = d at hlt hc
  subst hc
  interval_cases d <;> rfl

theorem value_concat (s : List Char) (c : Char) :
    value (s ++ [c]) = 10 * value s + (c.toNat - 48) := by
  simp [value, Nat.ofDigitChars_append, Nat.ofDigitChars_cons]

theorem toDigits_value {s : List Char} (hne : s ≠ []) (hdigits : ∀ c ∈ s, c.isDigit = true)
    (hlead : s.head? = some '0' → s.length = 1) : Nat.toDigits 10 (value s) = s := by
  induction s using List.reverseRecOn with
  | nil => exact absurd rfl hne
  | append_singleton s c ih =>
      obtain ⟨hlt, hchar⟩ := digitChar_of_isDigit (hdigits c List.mem_concat_self)
      have hlast : Nat.toDigits 10 (c.toNat - 48) = [c] := by
        rw [Nat.toDigits_of_lt_base hlt, hchar]
      rw [value_concat]
      by_cases hs : s = []
      · subst hs
        simpa [value] using hlast
      · have hhead : s.head? ≠ some '0' := by
          intro hzero
          have hone := hlead (by rw [List.head?_append_of_ne_nil _ hs, hzero])
          rw [List.length_append, List.length_singleton] at hone
          exact hs (List.length_eq_zero_iff.1 (by omega))
        have hinit : Nat.toDigits 10 (value s) = s :=
          ih hs (fun d hd => hdigits d (List.mem_append_left [c] hd)) fun h => absurd h hhead
        have hpos : 0 < value s := by
          rw [Nat.pos_iff_ne_zero]
          intro hzero
          rw [hzero] at hinit
          exact hhead (by rw [← hinit]; rfl)
        rw [← Nat.toDigits_append_toDigits (by decide) hpos hlt, hinit, hlast]

theorem eq_zero_of_head_toDigits {n : ℕ} (h : (Nat.toDigits 10 n).head? = some '0') : n = 0 := by
  induction n using Nat.strong_induction_on with
  | _ n ih =>
      rcases Nat.lt_or_ge n 10 with hlt | hge
      · rw [Nat.toDigits_of_lt_base hlt] at h
        interval_cases n
        · rfl
        all_goals exact absurd (Option.some.inj h) (by decide)
      · rw [Nat.toDigits_of_base_le (by decide) hge,
          List.head?_append_of_ne_nil _ Nat.toDigits_ne_nil] at h
        have hzero := ih (n / 10) (by omega) h
        omega

theorem octet_eq_some_iff {s : List Char} {b : UInt8} :
    octet s = some b ↔ s = (decimal b.toNat).toList := by
  constructor
  · intro h
    obtain ⟨⟨hne, hdigits, hlead, hle⟩, hb⟩ := Option.ite_none_right_eq_some.1 h
    have hval : b.toNat = value s := by
      rw [← Option.some.inj hb, UInt8.toNat_ofNat_of_lt' (by simpa using Nat.lt_succ_of_le hle)]
    rw [decimal, Nat.toList_repr, hval,
      toDigits_value hne (List.all_eq_true.1 hdigits) hlead]
  · rintro rfl
    have hlead : (decimal b.toNat).toList.head? = some '0' →
        (decimal b.toNat).toList.length = 1 := by
      rw [decimal, Nat.toList_repr]
      intro hzero
      rw [eq_zero_of_head_toDigits hzero]
      rfl
    have hall : (decimal b.toNat).toList.all Char.isDigit = true :=
      List.all_eq_true.2 fun c hc => isDigit_of_mem_decimal hc
    have hle : b.toNat ≤ 255 := Nat.le_of_lt_succ b.toNat_lt
    rw [octet, value_decimal, if_pos ⟨decimal_ne_nil _, hall, hlead, hle⟩, UInt8.ofNat_toNat]

theorem mapM_octet_eq_some_iff {ls : List (List Char)} {bs : List UInt8} :
    ls.mapM octet = some bs ↔ ls = bs.map fun b => (decimal b.toNat).toList := by
  induction ls generalizing bs with
  | nil => cases bs <;> simp
  | cons l ls ih =>
      cases bs with
      | nil => simp [List.mapM_cons, Option.bind_eq_some_iff]
      | cons b bs => simp [List.mapM_cons, Option.bind_eq_some_iff, octet_eq_some_iff, ih]

/-- `inet_pton` accepts what `inet_ntop` prints, and nothing else. -/
theorem parseDotted_eq_some_iff {s : String} {a : Vector UInt8 4} :
    parseDotted s = some a ↔ s = dotted a := by
  have hdots : ∀ l ∈ a.toList.map fun b => (decimal b.toNat).toList, '.' ∉ l := by
    intro l hl
    obtain ⟨b, -, rfl⟩ := List.mem_map.1 hl
    exact not_mem_decimal rfl
  constructor
  · intro h
    obtain ⟨bs, hbs, hvec⟩ := Option.bind_eq_some_iff.1 h
    obtain ⟨hlen, hvec⟩ := Option.dite_none_right_eq_some.1 hvec
    have htoList : a.toList = bs := by
      rw [← Option.some.inj hvec]
      simp
    rw [dotted, htoList, ← mapM_octet_eq_some_iff.1 hbs, List.intercalate_splitOn,
      String.ofList_toList]
  · rintro rfl
    have hne : (a.toList.map fun b => (decimal b.toNat).toList) ≠ [] := by
      simp
    rw [parseDotted, dotted, String.toList_ofList, List.splitOn_intercalate '.' hdots hne,
      mapM_octet_eq_some_iff.2 rfl, Option.bind_some, dif_pos (Vector.length_toList)]
    exact congrArg some (Vector.toArray_inj.1 (Array.toArray_toList ..))

end CommandLine
