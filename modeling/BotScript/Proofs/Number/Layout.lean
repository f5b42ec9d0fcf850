import Mathlib.Data.List.TakeWhile
import BotScript.Number.Digits
import BotScript.Number.Layout
import BotScript.Proofs.Number.Shortest

/-!
# The text of a number

The plain text of a finite double has its digits and perhaps a point, so the value of the decimal
that is written can be read off again. As doubles have different decimals, they have different
texts. A minus comes first if the number is negative, and behind it stands the text of the opposite.

## Main definitions

* `isNegative`: whether the text of a double begins with a minus.
* `writtenValue`: the number that digits with a point stand for.

## Main results

* `writtenValue_positional`: the value of a decimal can be read off its text.
* `text_injective`: doubles with the same text are the same.
* `text_of_negative`: the text of a negative number.
-/

namespace BotScript.Number

variable {x y : Float} {d : Decimal}

/-! ### Digits -/

theorem digitsValue_eq (cs : List Char) : digitsValue cs = Nat.ofDigitChars 10 cs 0 := by
  rw [Nat.ofDigitChars_eq_foldl]
  rfl

theorem toList_toString (n : Nat) : (toString n).toList = Nat.toDigits 10 n := by
  rw [Nat.toString_eq_ofList_toDigits, String.toList_ofList]

theorem isDigit_of_mem_digits {n : Nat} {c : Char} (h : c ∈ Nat.toDigits 10 n) : c.isDigit = true :=
  Nat.isDigit_of_mem_toDigits (by decide) (by decide) h

/-- The number that digits, with a point among them or not, stand for. -/
def writtenValue (cs : List Char) : ℚ :=
  digitsValue (cs.filter Char.isDigit) / 10 ^ (cs.dropWhile (· ≠ '.')).tail.length

theorem writtenValue_whole {cs : List Char} (h : ∀ c ∈ cs, c.isDigit = true) :
    writtenValue cs = digitsValue cs := by
  have hpoint : cs.dropWhile (· ≠ '.') = [] := by
    rw [List.dropWhile_eq_nil_iff]
    intro c hc
    have hdigit := h c hc
    rw [decide_eq_true_eq]
    rintro rfl
    exact absurd hdigit (by decide)
  rw [writtenValue, List.filter_eq_self.2 h, hpoint]
  simp

theorem writtenValue_point {whole fraction : List Char} (h : ∀ c ∈ whole, c.isDigit = true)
    (h' : ∀ c ∈ fraction, c.isDigit = true) :
    writtenValue (whole ++ '.' :: fraction) =
      digitsValue (whole ++ fraction) / 10 ^ fraction.length := by
  have hpoint : (whole ++ '.' :: fraction).dropWhile (· ≠ '.') = '.' :: fraction := by
    rw [List.dropWhile_append_of_pos]
    · simp
    · intro c hc
      have hdigit := h c hc
      rw [decide_eq_true_eq]
      rintro rfl
      exact absurd hdigit (by decide)
  rw [writtenValue, hpoint, List.filter_append, List.filter_eq_self.2 h,
    List.filter_cons_of_neg (by decide), List.filter_eq_self.2 h']
  rfl

theorem digitsValue_zeros_append (n : Nat) (cs : List Char) :
    digitsValue (List.replicate n '0' ++ cs) = digitsValue cs := by
  rw [digitsValue_eq, digitsValue_eq, Nat.ofDigitChars_append, Nat.ofDigitChars_replicate_zero,
    Nat.mul_zero]

theorem toList_zeros (n : Nat) : (zeros n).toList = List.replicate n '0' := String.toList_ofList

theorem isDigit_of_mem_zeros {n : Nat} {c : Char} (h : c ∈ List.replicate n '0') :
    c.isDigit = true := by
  rw [List.eq_of_mem_replicate h]
  rfl

/-- The text of a decimal: its digits with zeros behind, with a point between them, or
with zeros before. -/
theorem toList_positional (d : Decimal) :
    (0 ≤ d.exponent ∧ ∃ n, (d.positional false).toList = Nat.toDigits 10 d.digits ++
      List.replicate n '0' ∧ 10 ^ n * d.digits = 10 ^ d.exponent.natAbs * d.digits) ∨
    (d.exponent < 0 ∧ ∃ n, (d.positional false).toList =
      (Nat.toDigits 10 d.digits).take n ++ '.' :: (Nat.toDigits 10 d.digits).drop n ∧
        0 < n ∧ n + d.exponent.natAbs = (Nat.toDigits 10 d.digits).length) ∨
    (d.exponent < 0 ∧ ∃ n, (d.positional false).toList =
      ['0'] ++ '.' :: (List.replicate n '0' ++ Nat.toDigits 10 d.digits) ∧
        n + (Nat.toDigits 10 d.digits).length = d.exponent.natAbs) := by
  have hlength : (toString d.digits).length = (Nat.toDigits 10 d.digits).length := by
    rw [← String.length_toList, toList_toString]
  unfold Decimal.positional
  simp only [Bool.false_eq_true, if_false, String.append_empty, hlength]
  by_cases hwhole : 0 ≤ d.exponent
  · rw [if_pos hwhole]
    split_ifs with hzero
    · exact .inl ⟨hwhole, 0, by simp, by simp [hzero]⟩
    · exact .inl ⟨hwhole, d.exponent.natAbs, by simp [toList_zeros], rfl⟩
  · rw [if_neg hwhole]
    split_ifs with hplaces
    · refine .inr (.inl ⟨by omega, _, ?_, Nat.sub_pos_of_lt hplaces, Nat.sub_add_cancel hplaces.le⟩)
      simp
    · refine .inr (.inr ⟨by omega, _, ?_, Nat.sub_add_cancel (Nat.le_of_not_lt hplaces)⟩)
      simp [toList_zeros]

/-- The value of a decimal can be read off its text. -/
theorem writtenValue_positional (d : Decimal) :
    writtenValue (d.positional false).toList = d.value := by
  have hdigits : ∀ c ∈ Nat.toDigits 10 d.digits, c.isDigit = true :=
    fun c hc => isDigit_of_mem_digits hc
  have hvalue : digitsValue (Nat.toDigits 10 d.digits) = d.digits := by
    rw [digitsValue_eq, Nat.ofDigitChars_ten_toDigits]
  -- Places behind the point are powers of ten in the denominator.
  have hplaces : d.exponent < 0 → d.value = d.digits / 10 ^ d.exponent.natAbs := by
    intro hneg
    rw [Decimal.value, div_eq_mul_inv, ← zpow_natCast, ← zpow_neg]
    congr 2
    omega
  rcases toList_positional d with
    ⟨hwhole, n, htext, hn⟩ | ⟨hneg, n, htext, -, hn⟩ | ⟨hneg, n, htext, hn⟩
  · have hall : ∀ c ∈ Nat.toDigits 10 d.digits ++ List.replicate n '0', c.isDigit = true := by
      intro c hc
      rcases List.mem_append.1 hc with hc | hc
      · exact hdigits c hc
      · exact isDigit_of_mem_zeros hc
    rw [htext, writtenValue_whole hall, digitsValue_eq, Nat.ofDigitChars_append,
      Nat.ofDigitChars_replicate_zero, Nat.ofDigitChars_ten_toDigits, hn, Decimal.value]
    push_cast
    rw [mul_comm, ← zpow_natCast]
    congr 2
    omega
  · have hpoint := writtenValue_point (fun c hc => hdigits c (List.mem_of_mem_take (i := n) hc))
      (fun c hc => hdigits c (List.mem_of_mem_drop (i := n) hc))
    rw [htext, hpoint, List.take_append_drop, hvalue, hplaces hneg, List.length_drop, ← hn,
      Nat.add_sub_cancel_left]
  · have hfraction : ∀ c ∈ List.replicate n '0' ++ Nat.toDigits 10 d.digits, c.isDigit = true := by
      intro c hc
      rcases List.mem_append.1 hc with hc | hc
      · exact isDigit_of_mem_zeros hc
      · exact hdigits c hc
    rw [htext, writtenValue_point (by simp) hfraction, ← List.append_assoc,
      show ['0'] ++ List.replicate n '0' = List.replicate (n + 1) '0' from rfl,
        digitsValue_zeros_append,
      hvalue, hplaces hneg, List.length_append, List.length_replicate, hn]

/-- The text of a decimal begins with a digit. -/
theorem positional_head (d : Decimal) :
    ∃ c rest, (d.positional false).toList = c :: rest ∧ c.isDigit = true := by
  obtain ⟨c, rest, hdigits⟩ :=
    List.exists_cons_of_ne_nil (Nat.toDigits_ne_nil (n := d.digits) (b := 10))
  have hc : c.isDigit = true := isDigit_of_mem_digits (hdigits ▸ List.mem_cons_self)
  rcases toList_positional d with ⟨-, n, htext, -⟩ | ⟨-, n, htext, hpos, -⟩ | ⟨-, n, htext, -⟩
  · exact ⟨c, _, by rw [htext, hdigits, List.cons_append], hc⟩
  · obtain ⟨k, rfl⟩ : ∃ k, n = k + 1 := ⟨n - 1, by omega⟩
    exact ⟨c, _, by rw [htext, hdigits, List.take_succ_cons, List.cons_append], hc⟩
  · exact ⟨'0', _, htext, rfl⟩

/-- The text of a decimal has only digits, and perhaps a point. -/
theorem positional_chars {c : Char} (h : c ∈ (d.positional false).toList) :
    c.isDigit = true ∨ c = '.' := by
  rcases toList_positional d with ⟨-, n, htext, -⟩ | ⟨-, n, htext, -⟩ | ⟨-, n, htext, -⟩
  · rw [htext, List.mem_append] at h
    exact .inl (h.elim isDigit_of_mem_digits isDigit_of_mem_zeros)
  · rw [htext, List.mem_append, List.mem_cons] at h
    rcases h with h | h | h
    · exact .inl (isDigit_of_mem_digits (List.mem_of_mem_take h))
    · exact .inr h
    · exact .inl (isDigit_of_mem_digits (List.mem_of_mem_drop h))
  · rw [htext, List.mem_append, List.mem_singleton, List.mem_cons, List.mem_append] at h
    rcases h with rfl | h | h | h
    · exact .inl rfl
    · exact .inr h
    · exact .inl (isDigit_of_mem_zeros h)
    · exact .inl (isDigit_of_mem_digits h)

/-! ### Texts of doubles -/

/-- Whether there is a minus before the text of the parts of a double. -/
def Parts.negative : Parts → Bool
  | notANumber => false
  | infinite negative | finite negative _ _ => negative

/-- Whether the text of a double begins with a minus. -/
def isNegative (x : Float) : Bool := (Parts.ofFloat x).negative

/-- The text of the parts of a double, without a sign. -/
def Parts.magnitude : Parts → String
  | notANumber => "NaN"
  | infinite _ => "inf"
  | finite _ m e => (shortest .up m e).positional false

theorem text_eq (x : Float) :
    text x = (if isNegative x then "-" else "") ++ (Parts.ofFloat x).magnitude := by
  unfold text Layout.write isNegative
  cases Parts.ofFloat x with
  | notANumber => rfl
  | infinite negative => cases negative <;> rfl
  | finite negative m e => rfl

theorem isNegative_neg (h : isNegative x = true) : isNegative (-x) = false := by
  unfold isNegative at h ⊢
  rw [Parts.ofFloat_neg]
  cases hparts : Parts.ofFloat x with
  | notANumber => rfl
  | infinite negative | finite negative m e =>
    rw [hparts] at h
    simpa [Parts.negative, Parts.opposite] using h

/-- Behind the minus of a negative number stands the text of its opposite. -/
theorem text_of_negative (h : isNegative x = true) : text x = "-" ++ text (-x) := by
  have hmagnitude : (Parts.ofFloat x).opposite.magnitude = (Parts.ofFloat x).magnitude := by
    cases Parts.ofFloat x <;> rfl
  rw [text_eq x, text_eq (-x), h, isNegative_neg h, Parts.ofFloat_neg, hmagnitude]
  rfl

namespace Parts

variable {p p' : Parts}

/-- A text without a sign is one of two words, or begins with a digit. -/
theorem magnitude_cases (p : Parts) :
    p.magnitude = "NaN" ∨ p.magnitude = "inf" ∨
      ∃ c rest, p.magnitude.toList = c :: rest ∧ c.isDigit = true ∧
        ∀ c' ∈ rest, c'.isDigit = true ∨ c' = '.' := by
  cases p with
  | notANumber => exact .inl rfl
  | infinite negative => exact .inr (.inl rfl)
  | finite negative m e =>
    obtain ⟨c, rest, htext, hc⟩ := positional_head (shortest .up m e)
    refine .inr (.inr ⟨c, rest, htext, hc, fun c' hmem => ?_⟩)
    exact positional_chars (htext ▸ List.mem_cons_of_mem c hmem)

theorem magnitude_head (p : Parts) : p.magnitude.toList.head? ≠ some '-' := by
  rcases p.magnitude_cases with h | h | ⟨c, rest, h, hc, -⟩
  · rw [h]
    decide
  · rw [h]
    decide
  · rw [h]
    rintro ⟨⟩
    exact absurd hc (by decide)

/-- Parts with the same sign and the same text without it are the same. -/
theorem eq_of_magnitude (hx : ofFloat x = p) (hy : ofFloat y = p')
    (hsign : p.negative = p'.negative) (h : p.magnitude = p'.magnitude) : p = p' := by
  have hnoDigit : ∀ d : Decimal, d.positional false ≠ "NaN" ∧ d.positional false ≠ "inf" := by
    intro d
    obtain ⟨c, rest, htext, hc⟩ := positional_head d
    constructor <;> rintro heq <;> rw [heq] at htext <;> cases htext <;> exact absurd hc (by decide)
  cases p with
  | notANumber =>
    cases p' with
    | notANumber => rfl
    | infinite negative => exact absurd h (show "NaN" ≠ "inf" by decide)
    | finite negative m e => exact absurd h.symm (hnoDigit _).1
  | infinite negative =>
    cases p' with
    | notANumber => exact absurd h (show "inf" ≠ "NaN" by decide)
    | infinite negative' => exact congrArg infinite hsign
    | finite negative' m e => exact absurd h.symm (hnoDigit _).2
  | finite negative m e =>
    cases p' with
    | notANumber => exact absurd h (hnoDigit _).1
    | infinite negative' => exact absurd h (hnoDigit _).2
    | finite negative' m' e' =>
      have hvalue := congrArg (fun s : String => writtenValue s.toList) h
      dsimp only [magnitude] at hvalue
      rw [writtenValue_positional, writtenValue_positional] at hvalue
      obtain ⟨rfl, rfl⟩ := shortest_inj .up (regular_of_finite hx) (regular_of_finite hy) hvalue
      rw [show negative = negative' from hsign]

end Parts

/-- Doubles with the same text are the same. -/
theorem text_injective : Function.Injective text := by
  intro x y h
  rw [text_eq, text_eq] at h
  -- Only a minus begins with a minus.
  have hsign : isNegative x = isNegative y := by
    have hhead := congrArg (fun s : String => s.toList.head?) h
    cases hx : isNegative x <;> cases hy : isNegative y <;> rw [hx, hy] at hhead
    · exact absurd (by simpa using hhead) (Parts.ofFloat x).magnitude_head
    · exact absurd (by simpa using hhead.symm) (Parts.ofFloat y).magnitude_head
  rw [hsign, String.append_right_inj] at h
  exact Parts.ofFloat_injective (Parts.eq_of_magnitude rfl rfl hsign h)

end BotScript.Number
