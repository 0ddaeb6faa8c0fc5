import Mathlib.Data.Nat.Digits.Defs
import Mathlib.Data.List.TakeWhile

/-!
# Scanning unsigned numbers

`scanHu` is `fscanf` with the format `%hu` on the bytes that are left of a stream: it skips white
space and takes an optional sign with the digits after it. A sign that no digit follows is
consumed, any other byte that cannot begin a number is left where it is. The value of the digits
is that of `strtoul` with 64 bits, which saturates, cut down to 16 bits.

`leadingRun` scans as long as there are numbers.
-/

namespace Scanf

/-- `isspace`: space, tab, newline, vertical tab, form feed and carriage return. -/
def isSpace (c : UInt8) : Bool := c == 32 || (9 ≤ c && c ≤ 13)

def isDigit (c : UInt8) : Bool := 48 ≤ c && c ≤ 57

/-- The value of the digits, the first one being the highest. -/
def digitsValue (digits : List UInt8) : ℕ :=
  Nat.ofDigits 10 (digits.reverse.map fun c => c.toNat - 48)

/-- The 16 bits that are stored for an optional minus sign and digits. -/
def storedValue (minus : Bool) (digits : List UInt8) : UInt16 :=
  let value := digitsValue digits
  if 2 ^ 64 ≤ value then UInt16.ofNat (2 ^ 64 - 1)
  else if minus then UInt16.ofNat (2 ^ 64 - value)
  else UInt16.ofNat value

/-- The outcomes of `fscanf` with what is left of the stream: 1 with the value stored, 0, and
`EOF`. -/
inductive Outcome where
  | stored (value : UInt16) (rest : List UInt8)
  | mismatch (rest : List UInt8)
  | eof
  deriving DecidableEq

/-- The digits of a number, after its sign. -/
def scanDigits (minus : Bool) (input : List UInt8) : Outcome :=
  let digits := input.takeWhile isDigit
  if digits = [] then .mismatch input
  else .stored (storedValue minus digits) (input.dropWhile isDigit)

def scanHu (input : List UInt8) : Outcome :=
  match input.dropWhile isSpace with
  | [] => .eof
  | c :: cs =>
      if c = 45 then scanDigits true cs
      else if c = 43 then scanDigits false cs
      else scanDigits false (c :: cs)

theorem scanDigits_length {minus : Bool} {input : List UInt8} {value : UInt16}
    {rest : List UInt8} (h : scanDigits minus input = .stored value rest) :
    rest.length < input.length := by
  unfold scanDigits at h
  dsimp only at h
  split at h
  · cases h
  · next hdigits =>
      obtain ⟨-, rfl⟩ := Outcome.stored.inj h
      have hlength := congrArg List.length
        (List.takeWhile_append_dropWhile (p := isDigit) (l := input))
      rw [List.length_append] at hlength
      have hpos : 0 < (input.takeWhile isDigit).length := List.length_pos_iff.2 hdigits
      omega

theorem scanHu_length {input : List UInt8} {value : UInt16} {rest : List UInt8}
    (h : scanHu input = .stored value rest) : rest.length < input.length := by
  have hspace : (input.dropWhile isSpace).length ≤ input.length :=
    (List.dropWhile_suffix isSpace).length_le
  unfold scanHu at h
  split at h
  · cases h
  · next c cs heq =>
      rw [heq, List.length_cons] at hspace
      split at h
      · have hlt := scanDigits_length h
        omega
      · split at h
        · have hlt := scanDigits_length h
          omega
        · have hlt := scanDigits_length h
          rw [List.length_cons] at hlt
          omega

theorem scanDigits_ne_eof (minus : Bool) (input : List UInt8) : scanDigits minus input ≠ .eof := by
  unfold scanDigits
  dsimp only
  split
  · exact fun h => by cases h
  · exact fun h => by cases h

theorem scanHu_eq_eof_iff {input : List UInt8} :
    scanHu input = .eof ↔ ∀ c ∈ input, isSpace c = true := by
  rw [← List.dropWhile_eq_nil_iff, scanHu]
  split
  · next heq => exact iff_of_true rfl heq
  · next c cs heq =>
      refine iff_of_false ?_ (heq ▸ List.cons_ne_nil c cs)
      split
      · exact scanDigits_ne_eof true cs
      · split
        · exact scanDigits_ne_eof false cs
        · exact scanDigits_ne_eof false (c :: cs)

/-- The numbers that the input begins with, and what comes after them. -/
def leadingRun (input : List UInt8) : List UInt16 × List UInt8 :=
  match h : scanHu input with
  | .stored value rest =>
      have : rest.length < input.length := scanHu_length h
      let (values, after) := leadingRun rest
      (value :: values, after)
  | .mismatch _ => ([], input)
  | .eof => ([], input)
termination_by input.length

theorem leadingRun_of_stored {input rest : List UInt8} {value : UInt16}
    (h : scanHu input = .stored value rest) :
    leadingRun input = (value :: (leadingRun rest).1, (leadingRun rest).2) := by
  rw [leadingRun]
  split
  · next value' rest' heq =>
      obtain ⟨rfl, rfl⟩ := Outcome.stored.inj (h.symm.trans heq)
      rfl
  · next heq => cases h.symm.trans heq
  · next heq => cases h.symm.trans heq

theorem leadingRun_of_mismatch {input rest : List UInt8} (h : scanHu input = .mismatch rest) :
    leadingRun input = ([], input) := by
  rw [leadingRun]
  split
  · next heq => cases h.symm.trans heq
  · rfl
  · rfl

theorem leadingRun_of_eof {input : List UInt8} (h : scanHu input = .eof) :
    leadingRun input = ([], input) := by
  rw [leadingRun]
  split
  · next heq => cases h.symm.trans heq
  · rfl
  · rfl

end Scanf
