import ParadiseOS.FloatModel
import Mathlib.Data.Rat.Floor
import Mathlib.Tactic.Linarith
import Mathlib.Tactic.Ring
import Mathlib.Tactic.NormNum

/-!
# Printed fractions

With exact arithmetic on rationals, the text of `snprint_float` is the sign, the digits of the
whole part, a point and the digits of the rounded fraction. It reads as the rounded number exactly
when the fraction has as many digits as asked for: the function neither fills it up with zeros nor
carries into the whole part.
-/

namespace ParadiseOS.FloatTexts

open FloatModel FormatModel FormatRuns MachineWord NumberTexts

set_option autoImplicit false

section Statement

/-- Exact arithmetic, with a conversion that truncates. -/
def rationalOps : FloatOps ℚ where
  isNan _ := false
  isInfinite _ := false
  negative val := decide (val < 0)
  neg val := -val
  toWord val := u32 ⌊val⌋₊
  ofWord word := word
  sub val other := val - other
  timesTen val := val * 10
  plusHalf val := val + 1 / 2

/-- The full output of the function: it returns the length of this text and stores what fits of it. -/
def FloatPrints (val : ℚ) (precision : Nat) (text : List UInt8) : Prop :=
  ∀ junk n buffer pos, snprintFloat rationalOps junk val precision n buffer pos =
    some (text.length, place buffer pos n text)

/-- The value rounded half away from zero to so many places. -/
def roundHalfAway (precision : Nat) (val : ℚ) : ℚ :=
  (if val < 0 then -1 else 1) * (⌊|val| * 10 ^ precision + 1 / 2⌋₊ / 10 ^ precision)

/-- The text is an optional minus, digits, a point and so many digits, and reads as the number. -/
def ReadsAs (text : List UInt8) (precision : Nat) (number : ℚ) : Prop :=
  ∃ (minus : Bool) (whole fraction : List UInt8) (w f : Nat),
    text = (if minus then [ch '-'] else []) ++ (whole ++ ch '.' :: fraction) ∧
      readNumber 10 whole = some w ∧ readNumber 10 fraction = some f ∧ fraction.length = precision ∧
      (if minus then -1 else 1) * ((w : ℚ) + f / 10 ^ precision) = number

/-- The function prints the value rounded. -/
def PrintsRounded (val : ℚ) (precision : Nat) : Prop :=
  ∃ text, FloatPrints val precision text ∧ ReadsAs text precision (roundHalfAway precision val)

/-- The fraction does not round up to one, and its first digit after rounding is not zero unless it
is the only one. -/
def FractionFits (val : ℚ) (precision : Nat) : Prop :=
  Int.fract |val| * 10 ^ precision + 1 / 2 < 10 ^ precision ∧
    (precision = 1 ∨ 10 ^ (precision - 1) ≤ Int.fract |val| * 10 ^ precision + 1 / 2)

end Statement

section Text

variable {val : ℚ} {precision : Nat}

theorem rational_words (val : ℚ) : rationalOps.toWord val < 4294967296 := Nat.mod_lt _ (by decide)

theorem rational_magnitude (val : ℚ) : magnitude rationalOps val = |val| := by
  unfold magnitude
  change (if decide (val < 0) = true then -val else val) = |val|
  by_cases negative : val < 0
  · rw [if_pos (decide_eq_true negative), abs_of_neg negative]
  · rw [if_neg (by simpa using negative), abs_of_nonneg (not_lt.1 negative)]

theorem times_ten_iterate (precision : Nat) (val : ℚ) :
    rationalOps.timesTen^[precision] val = val * 10 ^ precision := by
  induction precision generalizing val with
  | zero => rw [Function.iterate_zero, id, pow_zero, mul_one]
  | succ precision ih =>
      rw [Function.iterate_succ_apply, ih]
      change val * 10 * 10 ^ precision = _
      ring

theorem whole_word (bounded : |val| < 4294967295) : rationalOps.toWord |val| = ⌊|val|⌋₊ := by
  have small : ⌊|val|⌋₊ < 4294967296 := (Nat.floor_lt (abs_nonneg val)).2 (bounded.trans (by norm_num))
  exact Nat.mod_eq_of_lt small

/-- The fraction times a power of ten, rounded. -/
def fractionNumber (val : ℚ) (precision : Nat) : Nat := ⌊Int.fract |val| * 10 ^ precision + 1 / 2⌋₊

theorem whole_sub (val : ℚ) : |val| - (⌊|val|⌋₊ : ℚ) = Int.fract |val| := by
  rw [natCast_floor_eq_intCast_floor (abs_nonneg val), Int.self_sub_floor]

theorem fraction_word (bounded : |val| < 4294967295) (few : precision ≤ 9) :
    fractionWord rationalOps val precision = fractionNumber val precision := by
  unfold fractionWord
  rw [rational_magnitude, whole_word bounded, times_ten_iterate]
  change u32 ⌊(|val| - (⌊|val|⌋₊ : ℚ)) * 10 ^ precision + 1 / 2⌋₊ = _
  rw [whole_sub]
  apply Nat.mod_eq_of_lt
  have nonneg := Int.fract_nonneg |val|
  have less := Int.fract_lt_one |val|
  have power : (10 : ℚ) ^ precision ≤ 10 ^ 9 := pow_le_pow_right₀ (by norm_num) few
  have positive : (0 : ℚ) < 10 ^ precision := by positivity
  rw [Nat.floor_lt (by positivity)]
  have scaled : Int.fract |val| * 10 ^ precision ≤ 1 * 10 ^ precision :=
    mul_le_mul_of_nonneg_right less.le positive.le
  have whole : ((4294967296 : Nat) : ℚ) = 4294967296 := by norm_num
  rw [whole]
  norm_num at power
  linarith

end Text

section Prints

variable {val : ℚ} {precision : Nat} {text other : List UInt8}

/-- What the function prints of a value. -/
def printedText (val : ℚ) (precision : Nat) : List UInt8 :=
  (if val < 0 then [ch '-'] else []) ++
    (numberText 10 decimalDigit ⌊|val|⌋₊ ++ ch '.' :: numberText 10 decimalDigit (fractionNumber val precision))

theorem float_text_rational (bounded : |val| < 4294967295) (positive : 0 < precision) (few : precision ≤ 9) :
    floatText rationalOps val precision = printedText val precision := by
  unfold floatText printedText signText
  rw [rational_magnitude, whole_word bounded, fraction_word bounded few, if_pos positive,
    if_neg (show ¬ rationalOps.isInfinite val = true from Bool.false_ne_true)]
  congr 1
  change (if decide (val < 0) = true then _ else _) = _
  simp only [decide_eq_true_eq]

theorem number_text_digit {c : UInt8} {number : Nat} (member : c ∈ numberText 10 decimalDigit number) :
    ∃ d < 10, c = decimalDigit d := by
  unfold numberText at member
  split_ifs at member
  · exact ⟨0, by decide, List.mem_singleton.1 member⟩
  · obtain ⟨d, inside, rfl⟩ := List.mem_map.1 member
    exact ⟨d, Nat.digits_lt_base (by decide) (List.mem_reverse.1 inside), rfl⟩

theorem decimal_digit_proper : ∀ d < 10, decimalDigit d ≠ 0 ∧ decimalDigit d ≠ ch '.' := by decide

theorem printed_text_proper : ∀ c ∈ printedText val precision, c ≠ 0 := by
  intro c member
  unfold printedText at member
  rcases List.mem_append.1 member with sign | member
  · split_ifs at sign
    · rw [List.mem_singleton.1 sign]
      decide
    · cases sign
  rcases List.mem_append.1 member with whole | member
  · obtain ⟨d, digit, rfl⟩ := number_text_digit whole
    exact (decimal_digit_proper d digit).1
  rcases List.mem_cons.1 member with rfl | fraction
  · decide
  · obtain ⟨d, digit, rfl⟩ := number_text_digit fraction
    exact (decimal_digit_proper d digit).1

theorem float_prints (bounded : |val| < 4294967295) (positive : 0 < precision) (few : precision ≤ 9) :
    FloatPrints val precision (printedText val precision) := by
  intro junk n buffer pos
  have isText := float_text_rational bounded positive few
  have short := float_text_le rational_words val precision
  obtain ⟨temp, filled, writes⟩ := float_temp_writes rational_words val precision junk
  rw [isText] at writes short
  have read := read_text_writes writes printed_text_proper (short.trans_lt (by decide))
  unfold snprintFloat
  rw [if_neg (show ¬ rationalOps.isNan val = true from Bool.false_ne_true), filled]
  change some (snprintString (readText temp.bytes 0 tempSize) n buffer pos) = _
  rw [read, string_place _ (short.trans_lt (by decide))]

/-- There is one full output. -/
theorem float_prints_unique (prints : FloatPrints val precision text) (also : FloatPrints val precision other) :
    text = other := by
  have same := Option.some.inj ((prints (fun _ => 0) text.length (fun _ => 0) (some 0)).symm.trans
    (also (fun _ => 0) text.length (fun _ => 0) (some 0)))
  obtain ⟨long, stored⟩ := Prod.mk.inj same
  rw [place, place, List.take_length, long, List.take_length] at stored
  apply List.ext_getElem?
  intro i
  by_cases inside : i < text.length
  · rw [@write_at_inside (fun _ => 0) text 0 i inside, @write_at_inside (fun _ => 0) other 0 i (long ▸ inside), stored]
  · rw [List.getElem?_eq_none (by omega), List.getElem?_eq_none (by omega)]

end Prints

section Parsing

variable {digits : List UInt8}

theorem read_from_digits {base before number : Nat} (reads : readFrom base before digits = some number) :
    ∀ c ∈ digits, ∃ d, digitValue base c = some d := by
  induction digits generalizing before with
  | nil => exact fun _ member => nomatch member
  | cons c digits ih =>
      intro other member
      rw [readFrom] at reads
      cases value : digitValue base c with
      | none =>
          rw [value] at reads
          cases reads
      | some d =>
          rw [value] at reads
          rcases List.mem_cons.1 member with rfl | later
          · exact ⟨d, value⟩
          · exact ih reads other later

theorem read_no_dot {number : Nat} (reads : readNumber 10 digits = some number) : ch '.' ∉ digits := by
  intro member
  unfold readNumber at reads
  split_ifs at reads
  obtain ⟨d, value⟩ := read_from_digits reads _ member
  have none : digitValue 10 (ch '.') = none := by decide
  rw [none] at value
  cases value

/-- What stands behind the last point. -/
theorem behind_dot {front back left right : List UInt8} (same : front ++ ch '.' :: back = left ++ ch '.' :: right)
    (noBack : ch '.' ∉ back) (noRight : ch '.' ∉ right) : front = left ∧ back = right := by
  rcases List.append_eq_append_iff.1 same with ⟨gap, isLeft, joined⟩ | ⟨gap, isFront, joined⟩
  · cases gap with
    | nil => exact ⟨by rw [isLeft, List.append_nil], (List.cons.inj joined).2⟩
    | cons first gap =>
        rw [(List.cons.inj joined).2] at noBack
        exact absurd (List.mem_append_right _ List.mem_cons_self) noBack
  · cases gap with
    | nil => exact ⟨by rw [isFront, List.append_nil], (List.cons.inj joined).2.symm⟩
    | cons first gap =>
        rw [(List.cons.inj joined).2] at noRight
        exact absurd (List.mem_append_right _ List.mem_cons_self) noRight

theorem number_text_no_dot (number : Nat) : ch '.' ∉ numberText 10 decimalDigit number := by
  intro member
  obtain ⟨d, digit, same⟩ := number_text_digit member
  exact (decimal_digit_proper d digit).2 same.symm

end Parsing

section Rounding

variable {val : ℚ} {precision : Nat}

/-- A rounded value has the whole part and the rounded fraction. -/
theorem rounded_split (val : ℚ) (precision : Nat) :
    (⌊|val| * 10 ^ precision + 1 / 2⌋₊ : ℚ) / 10 ^ precision =
      ⌊|val|⌋₊ + (fractionNumber val precision : ℚ) / 10 ^ precision := by
  have nonneg := Int.fract_nonneg |val|
  have positive : (0 : ℚ) < 10 ^ precision := by positivity
  have split : |val| * 10 ^ precision + 1 / 2 =
      (Int.fract |val| * 10 ^ precision + 1 / 2) + (⌊|val|⌋₊ * 10 ^ precision : Nat) := by
    have whole := whole_sub val
    push_cast
    rw [← whole]
    ring
  rw [split, Nat.floor_add_natCast (by positivity)]
  push_cast
  rw [fractionNumber]
  field_simp
  ring

/-- The text has as many digits behind the point as asked for exactly if the fraction fits. -/
theorem fraction_length_iff (positive : 0 < precision) :
    (numberText 10 decimalDigit (fractionNumber val precision)).length = precision ↔
      FractionFits val precision := by
  have nonneg := Int.fract_nonneg |val|
  have rounded : (0 : ℚ) ≤ Int.fract |val| * 10 ^ precision + 1 / 2 := by positivity
  have high : fractionNumber val precision < 10 ^ precision ↔
      Int.fract |val| * 10 ^ precision + 1 / 2 < 10 ^ precision := by
    unfold fractionNumber
    rw [Nat.floor_lt rounded]
    norm_num
  have low : 10 ^ (precision - 1) ≤ fractionNumber val precision ↔
      (10 : ℚ) ^ (precision - 1) ≤ Int.fract |val| * 10 ^ precision + 1 / 2 := by
    unfold fractionNumber
    rw [Nat.le_floor_iff rounded]
    norm_num
  unfold FractionFits
  rw [← high, ← low]
  generalize fractionNumber val precision = number
  rw [numberText]
  split_ifs with zero
  · rw [zero, List.length_singleton]
    constructor
    · intro one
      exact ⟨by positivity, .inl one.symm⟩
    · rintro ⟨_, one | none⟩
      · exact one.symm
      · exact absurd none (not_le.2 (by positivity))
  · rw [List.length_map, List.length_reverse]
    have few := Nat.digits_length_le_iff (by decide : 1 < 10) number (k := precision)
    have many := Nat.lt_digits_length_iff (by decide : 1 < 10) number (k := precision - 1)
    rw [← few, ← many]
    constructor
    · intro long
      exact ⟨long.le, .inr (by omega)⟩
    · rintro ⟨least, one | most⟩
      · have some : 0 < (Nat.digits 10 number).length := by
          rw [List.length_pos_iff]
          exact Nat.digits_ne_nil_iff_ne_zero.2 zero
        omega
      · omega

end Rounding

section Results

variable {val : ℚ} {precision : Nat}

theorem decimal_reads (number : Nat) : readNumber 10 (numberText 10 decimalDigit number) = some number :=
  (number_text_represents (by decide) decimal_value (by decide) number).reads

/-- A text with enough digits behind the point reads as the rounded value. -/
theorem reads_of_length
    (long : (numberText 10 decimalDigit (fractionNumber val precision)).length = precision) :
    ReadsAs (printedText val precision) precision (roundHalfAway precision val) := by
  refine ⟨decide (val < 0), _, _, ⌊|val|⌋₊, _, ?_, decimal_reads _, decimal_reads _, long, ?_⟩
  · unfold printedText
    simp only [decide_eq_true_eq]
  · rw [roundHalfAway, rounded_split]
    simp only [decide_eq_true_eq]

/-- A text that reads as a number has all its digits behind the point. -/
theorem length_of_reads {number : ℚ} (reads : ReadsAs (printedText val precision) precision number) :
    (numberText 10 decimalDigit (fractionNumber val precision)).length = precision := by
  obtain ⟨minus, whole, fraction, w, f, split, _, isFraction, long, _⟩ := reads
  unfold printedText at split
  rw [← List.append_assoc, ← List.append_assoc] at split
  rw [(behind_dot split (number_text_no_dot _) (read_no_dot isFraction)).2]
  exact long

/-- For every value below the greatest word and every precision from 1 to 9, the value is printed
rounded exactly if its fraction fits. -/
theorem prints_rounded_iff (bounded : |val| < 4294967295) (positive : 1 ≤ precision) (few : precision ≤ 9) :
    PrintsRounded val precision ↔ FractionFits val precision := by
  have prints := float_prints bounded positive few
  rw [← fraction_length_iff positive]
  constructor
  · rintro ⟨text, also, reads⟩
    rw [float_prints_unique also prints] at reads
    exact length_of_reads reads
  · exact fun long => ⟨_, prints, reads_of_length long⟩

/-- `-1.25` with one place. -/
theorem prints_rounded_half : PrintsRounded (-5 / 4) 1 := by
  refine (prints_rounded_iff (by norm_num [abs_of_neg]) le_rfl (by decide)).2 ⟨?_, .inl rfl⟩
  have magnitude : |(-5 / 4 : ℚ)| = 5 / 4 := by norm_num [abs_of_neg]
  have fraction : Int.fract (5 / 4 : ℚ) = 1 / 4 := by
    rw [Int.fract_eq_iff]
    exact ⟨by norm_num, by norm_num, 1, by norm_num⟩
  rw [magnitude, fraction]
  norm_num

/-- `1.05` with two places is printed as `1.5`. -/
theorem fraction_loses_zero : ¬ ∀ (val : ℚ) (precision : Nat), |val| < 4294967295 → 1 ≤ precision →
    precision ≤ 9 → PrintsRounded val precision := by
  intro always
  have magnitude : |(21 / 20 : ℚ)| = 21 / 20 := abs_of_pos (by norm_num)
  have bounded : |(21 / 20 : ℚ)| < 4294967295 := by
    rw [magnitude]
    norm_num
  obtain ⟨text, also, reads⟩ := always (21 / 20) 2 bounded (by decide) (by decide)
  rw [float_prints_unique also (float_prints bounded (by decide) (by decide))] at reads
  have long := length_of_reads reads
  have fraction : Int.fract (21 / 20 : ℚ) = 1 / 20 := by
    rw [Int.fract_eq_iff]
    exact ⟨by norm_num, by norm_num, 1, by norm_num⟩
  have five : fractionNumber (21 / 20) 2 = 5 := by
    rw [fractionNumber, magnitude, fraction, Nat.floor_eq_iff (by norm_num)]
    norm_num
  rw [five, numberText, if_neg (by decide), Nat.digits_of_lt 10 5 (by decide) (by decide)] at long
  exact absurd long (by decide)

end Results

end ParadiseOS.FloatTexts
