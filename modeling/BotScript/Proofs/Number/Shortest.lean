import Mathlib.Algebra.Order.Field.Power
import Mathlib.Tactic.FieldSimp
import Mathlib.Tactic.Linarith
import Mathlib.Tactic.NormNum
import Mathlib.Tactic.Positivity
import Mathlib.Tactic.Ring
import BotScript.Number.Shortest
import BotScript.Proofs.Number.Doubles

/-!
# Shortest decimals tell doubles apart

The decimal that is written for a double lies in the interval of numbers that round to the double.
The intervals of two doubles have no number in common: where they touch, one of the two mantissas is
odd, and its interval does not have its ends. So a decimal is written for one double only.

That the search for the decimal succeeds is a matter of widths. With seventeen digits neighbouring
decimals are so close that the interval, around which they lie, cannot fall between them.

## Main definitions

* `Decimal.value`: the number a decimal stands for.
* `Interval.Has`: a number lies in an interval.

## Main results

* `shortest_has`: the shortest decimal lies in the interval of its double.
* `regular_eq_of_has`: no number lies in the intervals of two doubles.
* `shortest_inj`: the shortest decimals of two doubles are different numbers.
-/

namespace BotScript.Number

variable {i i' : Interval} {num den point m m' : Nat} {e e' g lead : Int} {q u u' : ℚ}

/-- The number a decimal stands for. -/
def Decimal.value (d : Decimal) : ℚ := d.digits * 10 ^ d.exponent

/-- A number lies in an interval whose unit is `u`. -/
def Interval.Has (i : Interval) (u q : ℚ) : Prop :=
  if i.closed then i.low * u ≤ q ∧ q ≤ i.high * u else i.low * u < q ∧ q < i.high * u

/-! ### Fractions -/

theorem tenTo_eq (k : Nat) : ((tenTo k : Nat) : ℚ) = 10 ^ k := by
  simp [tenTo]

theorem scaleByTen_pos (num : Nat) (hden : 0 < den) (e : Int) : 0 < (scaleByTen num den e).2 := by
  unfold scaleByTen
  split_ifs
  · exact Nat.mul_pos hden (Nat.pow_pos (by decide))
  · exact hden

/-- What a scaled fraction stands for. -/
theorem scaleByTen_div (num den : Nat) (e : Int) :
    ((scaleByTen num den e).1 : ℚ) / (scaleByTen num den e).2 = num / den * 10 ^ e := by
  unfold scaleByTen
  split_ifs with hneg
  · have hpow : (10 : ℚ) ^ e = ((10 : ℚ) ^ e.natAbs)⁻¹ := by
      rw [← zpow_natCast, ← zpow_neg]
      congr 1
      omega
    rw [hpow]
    push_cast
    rw [tenTo_eq, div_mul_eq_div_div, div_eq_mul_inv (_ / _)]
  · have hpow : (10 : ℚ) ^ e = (10 : ℚ) ^ e.natAbs := by
      rw [← zpow_natCast]
      congr 1
      omega
    rw [hpow]
    push_cast
    rw [tenTo_eq, mul_div_right_comm]

/-- What a power of two stands for. -/
theorem binaryFraction_one (e : Int) :
    ((binaryFraction 1 e).1 : ℚ) / (binaryFraction 1 e).2 = 2 ^ e := by
  unfold binaryFraction
  split_ifs with hneg
  · have hpow : (2 : ℚ) ^ e = ((2 : ℚ) ^ e.natAbs)⁻¹ := by
      rw [← zpow_natCast, ← zpow_neg]
      congr 1
      omega
    rw [hpow]
    simp [twoTo]
  · have hpow : (2 : ℚ) ^ e = (2 : ℚ) ^ e.natAbs := by
      rw [← zpow_natCast]
      congr 1
      omega
    rw [hpow]
    simp [twoTo]

theorem binaryFraction_pos (e : Int) : 0 < (binaryFraction 1 e).1 ∧ 0 < (binaryFraction 1 e).2 := by
  unfold binaryFraction
  split_ifs
  · exact ⟨Nat.one_pos, Nat.pow_pos (by decide)⟩
  · rw [Nat.one_mul]
    exact ⟨Nat.pow_pos (by decide), Nat.one_pos⟩

/-- The test of the search says whether a decimal lies in the interval. -/
theorem contains_iff (hden : 0 < den) :
    i.contains num den point g = true ↔ i.Has (num / den) (point * 10 ^ g) := by
  have hpos := scaleByTen_pos point Nat.one_pos g
  have hvalue := scaleByTen_div point 1 g
  rw [Nat.cast_one, div_one] at hvalue
  rw [← hvalue]
  unfold Interval.contains Interval.Has
  generalize scaleByTen point 1 g = p at hpos
  have hd : (0 : ℚ) < p.2 := by exact_mod_cast hpos
  have hden' : (0 : ℚ) < den := by exact_mod_cast hden
  -- Both sides over the common denominator.
  have hscale : ∀ a : Nat, (a : ℚ) * (num / den) = ((a * num * p.2 : Nat) : ℚ) / (den * p.2) := by
    intro a
    push_cast
    field_simp
  have hpoint : (p.1 : ℚ) / p.2 = ((p.1 * den : Nat) : ℚ) / (den * p.2) := by
    push_cast
    field_simp
  have hcommon : (0 : ℚ) < den * p.2 := mul_pos hden' hd
  rw [hscale, hscale, hpoint, div_le_div_iff_of_pos_right hcommon,
    div_le_div_iff_of_pos_right hcommon,
    div_lt_div_iff_of_pos_right hcommon, div_lt_div_iff_of_pos_right hcommon]
  split_ifs <;> simp only [Bool.and_eq_true, decide_eq_true_eq] <;> norm_cast

/-! ### The search -/

/-- How many steps of `10 ^ g` fit into `num / den`. -/
def stepsIn (num den : Nat) (g : Int) : Nat :=
  (scaleByTen num den (-g)).1 / (scaleByTen num den (-g)).2

/-- One of the two decimals around the value of an interval lies in it. -/
def Hit (i : Interval) (num den : Nat) (g : Int) : Prop :=
  i.contains num den (stepsIn (i.value * num) den g) g = true ∨
    i.contains num den (stepsIn (i.value * num) den g + 1) g = true

theorem roundQuotient_mem (tie : Tie) (n d : Nat) :
    roundQuotient tie n d = n / d ∨ roundQuotient tie n d = n / d + 1 := by
  unfold roundQuotient
  cases compare (2 * (n % d)) d with
  | lt => exact .inl rfl
  | gt => exact .inr rfl
  | eq =>
    dsimp only
    split_ifs
    · exact .inl rfl
    · exact .inr rfl

/-- A search that meets a decimal in the interval ends with one. -/
theorem shortestFrom_contains (tie : Tie) {fuel k j : Nat} (hj : j < fuel)
    (hhit : Hit i num den (lead - (k + j : Nat))) :
    i.contains num den (shortestFrom tie i num den lead fuel k).digits
      (shortestFrom tie i num den lead fuel k).exponent = true := by
  induction fuel generalizing k j with
  | zero => omega
  | succ fuel ih =>
    unfold shortestFrom
    dsimp only
    split
    · rename_i hbelow habove
      rcases roundQuotient_mem tie (scaleByTen (i.value * num) den (-(lead - k))).1
        (scaleByTen (i.value * num) den (-(lead - k))).2 with hround | hround
      · rw [hround]
        exact hbelow
      · rw [hround]
        exact habove
    · rename_i hbelow habove
      exact hbelow
    · rename_i hbelow habove
      exact habove
    · rename_i hbelow habove
      cases j with
      | zero =>
        rw [Nat.add_zero] at hhit
        rcases hhit with hhit | hhit
        · exact absurd (hbelow.symm.trans hhit) Bool.false_ne_true
        · exact absurd (habove.symm.trans hhit) Bool.false_ne_true
      | succ j =>
        apply ih (j := j) (by omega)
        rwa [show k + 1 + j = k + (j + 1) by omega]

/-- The two decimals lie around the number. -/
theorem steps_around (hden : 0 < den) (num : Nat) (g : Int) :
    (stepsIn num den g : ℚ) * 10 ^ g ≤ num / den ∧
      (num : ℚ) / den < (stepsIn num den g + 1) * 10 ^ g := by
  have hpos := scaleByTen_pos num hden (-g)
  have hvalue := scaleByTen_div num den (-g)
  unfold stepsIn
  generalize scaleByTen num den (-g) = p at hpos hvalue
  have hten : (0 : ℚ) < 10 ^ g := by positivity
  have hback : (num : ℚ) / den = p.1 / p.2 * 10 ^ g := by
    rw [hvalue, mul_assoc, ← zpow_add₀ (by norm_num), neg_add_cancel, zpow_zero, mul_one]
  have hd : (0 : ℚ) < p.2 := by exact_mod_cast hpos
  rw [hback]
  constructor
  · apply mul_le_mul_of_nonneg_right _ hten.le
    rw [le_div_iff₀ hd]
    exact_mod_cast Nat.div_mul_le_self p.1 p.2
  · apply mul_lt_mul_of_pos_right _ hten
    rw [div_lt_iff₀ hd]
    rw [mul_comm]
    exact_mod_cast Nat.lt_mul_div_succ p.1 hpos

/-- On a grid that is finer than the interval is wide, there is a decimal in the interval. -/
theorem hit_of_fine (hden : 0 < den) (hnum : 0 < num) (hlow : i.low < i.value)
    (hhigh : i.value < i.high) (hfine : (10 : ℚ) ^ g < (i.high - i.low) * (num / den)) :
    Hit i num den g := by
  have hu : (0 : ℚ) < num / den := by positivity
  obtain ⟨hbelow, habove⟩ := steps_around hden (i.value * num) g
  push_cast at hbelow habove
  rw [mul_div_assoc] at hbelow habove
  have hlow' : (i.low : ℚ) * (num / den) < i.value * (num / den) :=
    mul_lt_mul_of_pos_right (by exact_mod_cast hlow) hu
  have hhigh' : (i.value : ℚ) * (num / den) < i.high * (num / den) :=
    mul_lt_mul_of_pos_right (by exact_mod_cast hhigh) hu
  unfold Hit
  rw [contains_iff hden, contains_iff hden]
  push_cast
  generalize (stepsIn (i.value * num) den g : ℚ) = k at *
  -- Should both lie outside, the interval lies between them.
  by_contra hnone
  rw [not_or] at hnone
  obtain ⟨hmiss, hmiss'⟩ := hnone
  unfold Interval.Has at hmiss hmiss'
  have hunder : k * 10 ^ g ≤ i.low * (num / den) := by
    by_contra hinside
    apply hmiss
    split_ifs <;> constructor <;> linarith
  have hover : i.high * (num / den) ≤ (k + 1) * 10 ^ g := by
    by_contra hinside
    apply hmiss'
    split_ifs <;> constructor <;> linarith
  linarith

/-! ### Leading digits -/

theorem lt_ten_pow_digitCount (n : Nat) : n < 10 ^ digitCount n :=
  (Nat.length_toDigits_le_iff (by decide) Nat.length_toDigits_pos).1 (Nat.le_refl _)

theorem ten_pow_digitCount_le (hnum : 0 < num) : 10 ^ (digitCount num - 1) ≤ num := by
  by_contra hlt
  rw [Nat.not_le] at hlt
  have hpos : 0 < digitCount num := Nat.length_toDigits_pos
  by_cases hone : digitCount num = 1
  · rw [hone] at hlt
    omega
  · have hle := (Nat.length_toDigits_le_iff (b := 10) (by decide) (by omega)).2 hlt
    have : digitCount num ≤ digitCount num - 1 := hle
    omega

/-- The leading digit is not further left than the number allows. -/
theorem ten_zpow_leadingExponent_le (hnum : 0 < num) (hden : 0 < den) :
    (10 : ℚ) ^ leadingExponent num den ≤ num / den := by
  have hden' : (0 : ℚ) < den := by exact_mod_cast hden
  unfold leadingExponent
  dsimp only
  generalize hguess : Int.ofNat (digitCount num) - Int.ofNat (digitCount den) = guess
  rw [Int.ofNat_eq_natCast, Int.ofNat_eq_natCast] at hguess
  split_ifs with hle
  · have hpos := scaleByTen_pos num hden (-guess)
    have hvalue := scaleByTen_div num den (-guess)
    generalize scaleByTen num den (-guess) = p at hle hpos hvalue
    have hone : (1 : ℚ) ≤ p.1 / p.2 := by
      rw [one_le_div (by exact_mod_cast hpos)]
      exact_mod_cast hle
    rw [hvalue, zpow_neg, ← div_eq_mul_inv, one_le_div (by positivity)] at hone
    exact hone
  · -- The guess is at most one too high: the numerator has its digits, the denominator not more.
    have hnum' : (10 : ℚ) ^ (digitCount num - 1) ≤ num := by
      exact_mod_cast ten_pow_digitCount_le hnum
    have hlt : (den : ℚ) < 10 ^ digitCount den := by exact_mod_cast lt_ten_pow_digitCount den
    have hpos : 0 < digitCount num := Nat.length_toDigits_pos
    calc (10 : ℚ) ^ (guess - 1) = 10 ^ (digitCount num - 1) / 10 ^ digitCount den := by
          rw [← zpow_natCast, ← zpow_natCast, ← zpow_sub₀ (by norm_num)]
          congr 1
          omega
      _ ≤ num / den := div_le_div₀ (by positivity) hnum' hden' hlt.le

/-! ### The shortest decimal lies in the interval -/

theorem trim_value (fuel : Nat) (d : Decimal) : (d.trim fuel).value = d.value := by
  induction fuel generalizing d with
  | zero => rfl
  | succ fuel ih =>
    unfold Decimal.trim
    split_ifs with hzero
    · rw [ih]
      obtain ⟨k, hk⟩ := Nat.dvd_of_mod_eq_zero hzero.2
      unfold Decimal.value
      rw [hk, Nat.mul_div_cancel_left k (by decide), zpow_add₀ (by norm_num), zpow_one]
      push_cast
      ring
    · rfl

theorem around_high : (Interval.around m e).high = 4 * m + 2 := rfl

theorem around_low_lt (hm : 0 < m) : (Interval.around m e).low < 4 * m := by
  unfold Interval.around
  dsimp only
  split_ifs <;> omega

/-- An interval is wide enough for seventeen digits. -/
theorem around_wide (hm : 0 < m) (h : m < 2 ^ 53) :
    4 * m + 10 ^ 16 * (Interval.around m e).low < 10 ^ 16 * (Interval.around m e).high := by
  unfold Interval.around
  dsimp only
  split_ifs with hleast
  · rw [show twoTo 52 = 2 ^ 52 from rfl] at hleast
    omega
  · omega

/-- The shortest decimal of a double lies in its interval. -/
theorem shortest_has (tie : Tie) (h : Regular m e) :
    (Interval.around m e).Has (2 ^ (e - 2)) (shortest tie m e).value := by
  unfold shortest
  split_ifs with hzero
  · subst hzero
    have hpos : (0 : ℚ) ≤ 2 ^ (e - 2) := by positivity
    simp [Interval.Has, Interval.around, Decimal.value, twoTo, hpos]
  · have hm : 0 < m := Nat.pos_of_ne_zero hzero
    dsimp only
    rw [trim_value, ← binaryFraction_one]
    obtain ⟨hnum, hden⟩ := binaryFraction_pos (e - 2)
    generalize binaryFraction 1 (e - 2) = p at hnum hden
    apply (contains_iff hden).1
    apply shortestFrom_contains tie (show 16 < 17 by decide)
    apply hit_of_fine hden hnum (around_low_lt hm) (Nat.lt_add_of_pos_right Nat.two_pos)
    have hlead := ten_zpow_leadingExponent_le (Nat.mul_pos (show 0 < 4 * m by omega) hnum) hden
    have hwide : (4 * m : ℚ) + 10 ^ 16 * (Interval.around m e).low <
        10 ^ 16 * (Interval.around m e).high := by exact_mod_cast around_wide hm h.lt
    have hu : (0 : ℚ) < p.1 / p.2 := by positivity
    generalize hlead' : leadingExponent (4 * m * p.1) p.2 = lead at hlead
    change (10 : ℚ) ^ (leadingExponent (4 * m * p.1) p.2 - (0 + 16 : Nat)) < _
    rw [hlead', Nat.zero_add, zpow_sub₀ (by norm_num), zpow_natCast, div_lt_iff₀ (by norm_num)]
    push_cast at hlead
    calc (10 : ℚ) ^ lead ≤ 4 * m * (p.1 / p.2) := by rwa [← mul_div_assoc]
      _ < (10 ^ 16 * (Interval.around m e).high - 10 ^ 16 * (Interval.around m e).low) *
        (p.1 / p.2) := by
          apply mul_lt_mul_of_pos_right _ hu
          linarith
      _ = _ := by ring

/-! ### Intervals have no number in common -/

/-- Two intervals of which one ends where the other begins, at the latest, have no number in common,
unless they touch in an end that belongs to both. -/
theorem not_has_both (hle : (i.high : ℚ) * u ≤ i'.low * u')
    (hlt : i.closed = true → i'.closed = true → (i.high : ℚ) * u < i'.low * u') (h : i.Has u q)
    (h' : i'.Has u' q) : False := by
  unfold Interval.Has at h h'
  split_ifs at h h' with hclosed hclosed'
  · linarith [hlt hclosed hclosed']
  · linarith
  · linarith
  · linarith

theorem around_closed : (Interval.around m e).closed = true ↔ m % 2 = 0 := by
  simp [Interval.around]

theorem le_around_low : 4 * m ≤ (Interval.around m e).low + 2 := by
  unfold Interval.around
  dsimp only
  split_ifs <;> omega

/-- With the hidden bit, an interval begins no further down than that of the least such mantissa. -/
theorem le_around_low_of_hidden (he : -1074 < e) (hm : 2 ^ 52 ≤ m) :
    2 ^ 54 ≤ (Interval.around m e).low + 1 := by
  unfold Interval.around
  dsimp only
  rw [show twoTo 52 = 2 ^ 52 from rfl]
  split_ifs with hleast
  · omega
  · have hne : m ≠ 2 ^ 52 := fun heq => hleast ⟨heq, he⟩
    omega

/-- The interval of a lesser double ends before that of a greater one begins. -/
theorem not_has_of_lt (h : Regular m e) (h' : Regular m' e') (hlt : e < e' ∨ e = e' ∧ m < m')
    (hq : (Interval.around m e).Has (2 ^ (e - 2)) q) :
    ¬ (Interval.around m' e').Has (2 ^ (e' - 2)) q := by
  intro hq'
  have hu : (0 : ℚ) < 2 ^ (e - 2) := by positivity
  have hmantissa := h.lt
  rcases hlt with hlt | ⟨rfl, hlt⟩
  · -- The greater double has a greater exponent, so its mantissa has the hidden bit.
    have hleast : -1074 < e' := lt_of_le_of_lt h.least_le hlt
    have hlow : (2 ^ 54 - 1 : ℚ) ≤ (Interval.around m' e').low := by
      have hnat := le_around_low_of_hidden hleast (h'.hidden_le hleast)
      rw [sub_le_iff_le_add]
      exact_mod_cast hnat
    have hunit : (2 : ℚ) * 2 ^ (e - 2) ≤ 2 ^ (e' - 2) := by
      rw [← zpow_one_add₀ (by norm_num)]
      exact zpow_le_zpow_right₀ (by norm_num) (by omega)
    have hbegin : (2 ^ 55 - 2 : ℚ) * 2 ^ (e - 2) ≤ (Interval.around m' e').low * 2 ^ (e' - 2) :=
      calc (2 ^ 55 - 2 : ℚ) * 2 ^ (e - 2) = (2 ^ 54 - 1) * (2 * 2 ^ (e - 2)) := by ring
        _ ≤ _ := mul_le_mul hlow hunit (by positivity) (by positivity)
    apply not_has_both _ _ hq hq'
    · apply le_trans _ hbegin
      apply mul_le_mul_of_nonneg_right _ hu.le
      rw [around_high, le_sub_iff_add_le]
      exact_mod_cast (show 4 * m + 2 + 2 ≤ 2 ^ 55 by omega)
    · intro hclosed _
      rw [around_closed] at hclosed
      apply lt_of_lt_of_le _ hbegin
      apply mul_lt_mul_of_pos_right _ hu
      rw [around_high, lt_sub_iff_add_lt]
      exact_mod_cast (show 4 * m + 2 + 2 < 2 ^ 55 by omega)
  · have hlow : 4 * m' ≤ (Interval.around m' e).low + 2 := le_around_low
    apply not_has_both _ _ hq hq'
    · apply mul_le_mul_of_nonneg_right _ hu.le
      exact_mod_cast (show 4 * m + 2 ≤ (Interval.around m' e).low by omega)
    · intro hclosed hclosed'
      rw [around_closed] at hclosed hclosed'
      apply mul_lt_mul_of_pos_right _ hu
      exact_mod_cast (show 4 * m + 2 < (Interval.around m' e).low by omega)

/-- No number lies in the intervals of two doubles. -/
theorem regular_eq_of_has (h : Regular m e) (h' : Regular m' e')
    (hq : (Interval.around m e).Has (2 ^ (e - 2)) q)
    (hq' : (Interval.around m' e').Has (2 ^ (e' - 2)) q) :
    m = m' ∧ e = e' := by
  rcases lt_trichotomy e e' with hlt | heq | hgt
  · exact absurd hq' (not_has_of_lt h h' (.inl hlt) hq)
  · rcases lt_trichotomy m m' with hlt | hm | hgt
    · exact absurd hq' (not_has_of_lt h h' (.inr ⟨heq, hlt⟩) hq)
    · exact ⟨hm, heq⟩
    · exact absurd hq (not_has_of_lt h' h (.inr ⟨heq.symm, hgt⟩) hq')
  · exact absurd hq (not_has_of_lt h' h (.inl hgt) hq')

/-- Doubles with the same shortest decimal are the same. -/
theorem shortest_inj (tie : Tie) (h : Regular m e) (h' : Regular m' e')
    (hvalue : (shortest tie m e).value = (shortest tie m' e').value) : m = m' ∧ e = e' := by
  have hq := shortest_has tie h
  rw [hvalue] at hq
  exact regular_eq_of_has h h' hq (shortest_has tie h')

end BotScript.Number
