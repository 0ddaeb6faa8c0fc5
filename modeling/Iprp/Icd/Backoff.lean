import Mathlib.Algebra.Order.Floor.Ring
import Mathlib.Analysis.SpecialFunctions.Log.Basic
import Mathlib.Order.WithBot

/-!
# The backoff

`backoff` of `src/icd/activesenders.c`, after which `as_routine` of the multicast build sends the
next round of CAPs. It draws samples of `rand` and takes the logarithm of each, as long as the
sample is zero and the result above one. Since a sample other than zero ends the loop whatever its
logarithm is, the result is that of the first such sample (`drawLoop_eq`), and the backoff is in
its range if and only if that one is at most one (`backoffInRange_iff`). From well above one on
`sleep` takes the negative delay for decades (`sleeps_for_decades`).

The computation is that of an ordered field, without the rounding of a `double`. The logarithm is
a parameter, of which only the sign is known; `logCurve` is the real one.
-/

namespace Iprp.Icd

def iprpTcap : ℤ := 3

def iprpBackoffD : ℤ := 10

/-- `RAND_MAX`. -/
def randMax : ℕ := 2147483647

/-- What `rand` returns. -/
abbrev Sample := Fin (randMax + 1)

/-- `-log(random / RAND_MAX) / IPRP_BACKOFF_LAMBDA` of the samples other than zero. -/
structure Curve (K : Type*) [Zero K] [LE K] where
  value : Sample → K
  nonneg : ∀ sample, 0 ≤ value sample

section

variable {K : Type*} [Field K] [LinearOrder K] [IsStrictOrderedRing K]

/-- The logarithm of a sample, infinite for zero. -/
def Curve.x (c : Curve K) (random : Sample) : WithTop K :=
  if random = 0 then ⊤ else c.value random

/-- The variables of the loop of `backoff`. -/
structure Draw (K : Type*) where
  random : Sample
  x : WithTop K

def Draw.init : Draw K := ⟨0, 2⟩

/-- The loop of `backoff` on the values that `rand` returns, absent when it draws another one. -/
def drawLoop (c : Curve K) : Draw K → List Sample → Option (Draw K)
  | d, [] => if d.random = 0 ∧ 1 < d.x then none else some d
  | d, random :: samples =>
      if d.random = 0 ∧ 1 < d.x then drawLoop c ⟨random, c.x random⟩ samples else some d

/-- The conversion to an `int`, undefined when it does not fit. -/
def toInt [FloorRing K] (y : K) : Option ℤ :=
  let n := if 0 ≤ y then ⌊y⌋ else ⌈y⌉
  if -2 ^ 31 ≤ n ∧ n < 2 ^ 31 then some n else none

/-- What `backoff` returns at the end of its loop. -/
def backoffDelay [FloorRing K] (d : Draw K) : Option ℤ :=
  match d.x with
  | none => none
  | some x => toInt ((1 - x) * iprpBackoffD)

/-- Computes the time to wait before sending the next round of CAPs. -/
def backoff [FloorRing K] (c : Curve K) (samples : List Sample) : Option ℤ :=
  (drawLoop c Draw.init samples).bind backoffDelay

end

/-- The argument of `sleep` in `as_routine`, an `unsigned int`. -/
def sleepSeconds (delay : ℤ) : ℕ := ((iprpTcap + delay) % 2 ^ 32).toNat

section

variable {K : Type*} [Field K] [LinearOrder K]

theorem drawLoop_of_continues (c : Curve K) {d : Draw K} (h : d.random = 0 ∧ 1 < d.x)
    (samples : List Sample) :
    drawLoop c d samples =
      (samples.find? (· ≠ 0)).map fun random => ⟨random, c.value random⟩ := by
  induction samples generalizing d with
  | nil =>
      rw [drawLoop, if_pos h]
      rfl
  | cons random samples ih =>
      rw [drawLoop, if_pos h]
      by_cases hzero : random = 0
      · -- the logarithm of zero is infinite
        have hx : c.x random = ⊤ := if_pos hzero
        rw [List.find?_cons_of_neg (by simp [hzero])]
        exact ih ⟨hzero, hx ▸ WithTop.coe_lt_top 1⟩
      · -- any other sample ends the loop
        have hx : c.x random = c.value random := if_neg hzero
        have hends : ¬ (random = 0 ∧ 1 < c.x random) := fun h => hzero h.1
        rw [List.find?_cons_of_pos (by simp [hzero]), Option.map_some, ← hx]
        cases samples with
        | nil => exact if_neg hends
        | cons random' samples => exact if_neg hends

variable [IsStrictOrderedRing K]

theorem drawLoop_eq (c : Curve K) (samples : List Sample) :
    drawLoop c Draw.init samples =
      (samples.find? (· ≠ 0)).map fun random => ⟨random, c.value random⟩ := by
  have hinit : (1 : WithTop K) < 2 := by exact_mod_cast (one_lt_two : (1 : K) < 2)
  exact drawLoop_of_continues c ⟨rfl, hinit⟩ samples

variable [FloorRing K]

theorem toInt_delay {x : K} (hnonneg : 0 ≤ x) (hle : x ≤ 1) :
    ∃ delay, toInt ((1 - x) * iprpBackoffD) = some delay ∧ 0 ≤ delay ∧ delay ≤ iprpBackoffD := by
  have hd : (0 : K) ≤ iprpBackoffD := by norm_num [iprpBackoffD]
  have hpos : 0 ≤ (1 - x) * iprpBackoffD := mul_nonneg (sub_nonneg.2 hle) hd
  have hmax : (1 - x) * iprpBackoffD ≤ iprpBackoffD :=
    mul_le_of_le_one_left hd (sub_le_self 1 hnonneg)
  have hfloor : 0 ≤ ⌊(1 - x) * iprpBackoffD⌋ := Int.floor_nonneg.2 hpos
  have hfloor' : ⌊(1 - x) * iprpBackoffD⌋ ≤ iprpBackoffD := by
    exact_mod_cast (Int.floor_le _).trans hmax
  refine ⟨⌊(1 - x) * iprpBackoffD⌋, ?_, hfloor, hfloor'⟩
  have hfits : -2 ^ 31 ≤ ⌊(1 - x) * iprpBackoffD⌋ ∧ ⌊(1 - x) * iprpBackoffD⌋ < 2 ^ 31 := by
    unfold iprpBackoffD at hfloor hfloor' ⊢
    omega
  rw [toInt, if_pos hpos, if_pos hfits]

/-- When the loop ends, its result is between zero and one, the delay is between zero and
`IPRP_BACKOFF_D`, and the time to sleep between `IPRP_TCAP` and that much more. -/
structure BackoffInRange (c : Curve K) (samples : List Sample) : Prop where
  ends : ∀ d, drawLoop c Draw.init samples = some d → 0 ≤ d.x ∧ d.x ≤ 1
  delay : ∀ d, drawLoop c Draw.init samples = some d → ∃ delay,
    backoff c samples = some delay ∧ 0 ≤ delay ∧ delay ≤ iprpBackoffD ∧
      iprpTcap ≤ sleepSeconds delay ∧ sleepSeconds delay ≤ iprpTcap + iprpBackoffD

theorem inRange_iff_first (c : Curve K) (samples : List Sample) :
    BackoffInRange c samples ↔
      ∀ random, samples.find? (· ≠ 0) = some random → c.value random ≤ 1 := by
  have hloop := drawLoop_eq c samples
  constructor
  · intro h random hfind
    rw [hfind, Option.map_some] at hloop
    exact WithTop.coe_le_one.1 (h.ends _ hloop).2
  · intro h
    have hdrawn : ∀ d, drawLoop c Draw.init samples = some d →
        ∃ x : K, d.x = x ∧ 0 ≤ x ∧ x ≤ 1 := by
      intro d hd
      rw [hloop] at hd
      obtain ⟨random, hfind, rfl⟩ := Option.map_eq_some_iff.1 hd
      exact ⟨c.value random, rfl, c.nonneg random, h random hfind⟩
    refine ⟨?_, ?_⟩
    · intro d hd
      obtain ⟨x, hx, hnonneg, hle⟩ := hdrawn d hd
      rw [hx]
      exact ⟨WithTop.coe_nonneg.2 hnonneg, WithTop.coe_le_one.2 hle⟩
    · intro d hd
      obtain ⟨x, hx, hnonneg, hle⟩ := hdrawn d hd
      obtain ⟨delay, hint, hpos, hmax⟩ := toInt_delay hnonneg hle
      refine ⟨delay, ?_, hpos, hmax, ?_⟩
      · rw [backoff, hd, Option.bind_some, backoffDelay, hx]
        exact hint
      · unfold sleepSeconds iprpTcap iprpBackoffD at *
        omega

/-- With a result well above one the time to sleep is more than sixty years. -/
theorem sleeps_for_decades (c : Curve K) {samples : List Sample} {random : Sample}
    (hfind : samples.find? (· ≠ 0) = some random) (hx : 7 / 5 ≤ c.value random) {delay : ℤ}
    (hdelay : backoff c samples = some delay) : 2 ^ 31 ≤ sleepSeconds delay := by
  have hloop := drawLoop_eq c samples
  rw [hfind, Option.map_some] at hloop
  rw [backoff, hloop, Option.bind_some] at hdelay
  have hint : toInt ((1 - c.value random) * iprpBackoffD) = some delay := hdelay
  have hle : (1 - c.value random) * iprpBackoffD ≤ ((-4 : ℤ) : K) := by
    norm_num [iprpBackoffD]
    linarith
  have hneg : ¬ 0 ≤ (1 - c.value random) * iprpBackoffD := by
    push_cast at hle
    linarith
  have hceil : ⌈(1 - c.value random) * iprpBackoffD⌉ ≤ -4 := Int.ceil_le.2 hle
  rw [toInt, if_neg hneg] at hint
  split at hint
  · next hfits =>
      obtain rfl := Option.some.inj hint
      unfold sleepSeconds iprpTcap
      omega
  · cases hint

/-- For every sequence of samples and every logarithm: the backoff is in its range if and only if
the logarithm of the first sample that is not zero is at most one. The loop ends if and only if
there is such a sample. -/
theorem backoffInRange_iff (c : Curve K) (samples : List Sample) :
    (BackoffInRange c samples ↔
        ∀ random, samples.find? (· ≠ 0) = some random → c.value random ≤ 1) ∧
      ((drawLoop c Draw.init samples).isSome ↔ ∃ random ∈ samples, random ≠ 0) := by
  refine ⟨inRange_iff_first c samples, ?_⟩
  rw [drawLoop_eq, Option.isSome_map, List.find?_isSome]
  simp

end

/-! ## The logarithm -/

theorem randMax_pos : (0 : ℝ) < randMax := by
  exact_mod_cast (show 0 < randMax by decide)

theorem logCurve_nonneg (random : Sample) : 0 ≤ -Real.log (random.val / randMax) / (5 / 2) := by
  have hle : (random.val : ℝ) ≤ randMax := by
    exact_mod_cast Nat.le_of_lt_succ random.isLt
  have hratio : (random.val : ℝ) / randMax ≤ 1 := (div_le_one randMax_pos).2 hle
  have hpos : (0 : ℝ) ≤ random.val / randMax :=
    div_nonneg (Nat.cast_nonneg _) randMax_pos.le
  have hlog : Real.log (random.val / randMax) ≤ 0 := Real.log_nonpos hpos hratio
  linarith

/-- The real logarithm, with the rate 2.5. -/
noncomputable def logCurve : Curve ℝ where
  value random := -Real.log (random.val / randMax) / (5 / 2)
  nonneg := logCurve_nonneg

theorem logCurve_le_one_iff {random : Sample} (hne : random ≠ 0) :
    logCurve.value random ≤ 1 ↔ randMax * Real.exp (-(5 / 2)) ≤ random.val := by
  have hval : (0 : ℝ) < random.val := by
    exact_mod_cast Nat.pos_of_ne_zero fun hzero => hne (Fin.ext hzero)
  have hratio : (0 : ℝ) < random.val / randMax := div_pos hval randMax_pos
  calc logCurve.value random ≤ 1
      ↔ -Real.log (random.val / randMax) ≤ 1 * (5 / 2) := div_le_iff₀ (by norm_num)
    _ ↔ -(5 / 2) ≤ Real.log (random.val / randMax) := by rw [one_mul, neg_le]
    _ ↔ Real.exp (-(5 / 2)) ≤ random.val / randMax := Real.le_log_iff_exp_le hratio
    _ ↔ randMax * Real.exp (-(5 / 2)) ≤ random.val := by
        rw [le_div_iff₀ randMax_pos, mul_comm]

/-- The largest sample after a zero. -/
theorem backoffInRange_largest : BackoffInRange logCurve [0, Fin.last randMax] := by
  refine (backoffInRange_iff logCurve [0, Fin.last randMax]).1.2 ?_
  intro random hfind
  obtain rfl : Fin.last randMax = random := Option.some.inj hfind
  have hratio : ((Fin.last randMax).val : ℝ) / randMax = 1 := div_self randMax_pos.ne'
  have hzero : logCurve.value (Fin.last randMax) = 0 := by
    simp only [logCurve, hratio, Real.log_one, neg_zero, zero_div]
  exact hzero ▸ zero_le_one

/-- The backoff of the real logarithm is in its range if and only if the first sample that is not
zero is at least `RAND_MAX * exp (-2.5)`. -/
theorem backoffInRange_log_iff (samples : List Sample) :
    BackoffInRange logCurve samples ↔ ∀ random, samples.find? (· ≠ 0) = some random →
      randMax * Real.exp (-(5 / 2)) ≤ random.val := by
  rw [inRange_iff_first]
  refine forall_congr' fun random => forall_congr' fun hfind => logCurve_le_one_iff ?_
  simpa using List.find?_some hfind

/-- The sample 1 ends the loop although its logarithm is above one. -/
theorem small_sample_accepted :
    ¬ ∀ samples, BackoffInRange logCurve samples := by
  intro h
  have hexp : (3 / 8 : ℝ) ≤ Real.exp (-(5 / 8)) := by
    have hle := Real.add_one_le_exp (-(5 / 8) : ℝ)
    linarith
  have hpow : Real.exp (-(5 / 2)) = Real.exp (-(5 / 8)) ^ 4 := by
    rw [← Real.exp_nat_mul]
    norm_num
  have hlow : (3 / 8 : ℝ) ^ 4 ≤ Real.exp (-(5 / 2)) := by
    rw [hpow]
    exact pow_le_pow_left₀ (by norm_num) hexp 4
  have hone := (inRange_iff_first logCurve [1]).1 (h [1]) 1 rfl
  rw [logCurve_le_one_iff (by decide)] at hone
  norm_num [randMax] at hone
  linarith

end Iprp.Icd
