import Mathlib.Algebra.BigOperators.Group.List.Basic
import Mathlib.Algebra.GroupWithZero.Nat

/-!
# Ones' complement sums of 16-bit words

`foldCarry` adds the carry above sixteen bits back in until none is left. Its value
is the representative of the sum modulo `2 ^ 16 - 1` in `1, …, 2 ^ 16 - 1`, except that
only zero is folded to zero (`foldCarry_eq`); this double role of zero is why a sum
and its complement always fold to `0xFFFF` (`foldCarry_add_complement`). A running sum
that folds after each word gives the fold of the whole sum (`foldl_foldCarry`).
-/

namespace OnesComplement

/-- Add the carry above sixteen bits back in until there is none. -/
def foldCarry (c : ℕ) : ℕ :=
  if c / 65536 = 0 then c else foldCarry (c % 65536 + c / 65536)
termination_by c
decreasing_by omega

/-- The closed form of the fold. -/
theorem foldCarry_eq (c : ℕ) :
    foldCarry c = if c = 0 then 0 else (c - 1) % 65535 + 1 := by
  induction c using foldCarry.induct with
  | case1 c h =>
      rw [foldCarry, if_pos h]
      split <;> omega
  | case2 c h ih =>
      rw [foldCarry, if_neg h, ih]
      rw [if_neg (by omega), if_neg (by omega)]
      omega

theorem foldCarry_lt (c : ℕ) : foldCarry c < 65536 := by
  rw [foldCarry_eq]
  split <;> omega

theorem foldCarry_of_lt {c : ℕ} (h : c < 65536) : foldCarry c = c := by
  rw [foldCarry_eq]
  split <;> omega

theorem foldCarry_add (a b : ℕ) : foldCarry (foldCarry a + b) = foldCarry (a + b) := by
  rw [foldCarry_eq a]
  split
  · next h => rw [h]
  · rw [foldCarry_eq, foldCarry_eq, if_neg (by omega), if_neg (by omega)]
    omega

/-- The running sum that folds after each word. -/
theorem foldl_foldCarry (ws : List ℕ) (a : ℕ) :
    ws.foldl (fun c w => foldCarry (c + w)) (foldCarry a) = foldCarry (a + ws.sum) := by
  induction ws generalizing a with
  | nil => rw [List.foldl_nil, List.sum_nil, Nat.add_zero]
  | cons w ws ih =>
      rw [List.foldl_cons, foldCarry_add, ih, List.sum_cons, Nat.add_assoc]

/-- The ones' complement sum of a list of words. -/
def onesSum (ws : List ℕ) : ℕ := foldCarry ws.sum

/-- A sum and the complement of its fold fold to all ones. -/
theorem foldCarry_add_complement (s : ℕ) :
    foldCarry (s + (65535 - foldCarry s)) = 65535 := by
  rw [foldCarry_eq s]
  split
  · next h => rw [h, foldCarry_of_lt (by omega)]
  · rw [foldCarry_eq, if_neg (by omega)]
    omega

end OnesComplement
