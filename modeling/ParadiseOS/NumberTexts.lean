import ParadiseOS.FormatRuns
import Mathlib.Data.Nat.Digits.Lemmas

/-!
# Printed integers read back

The five functions that print an integer return the length of one text and store what fits
of it. The digits of the text read back to the number, and a text with a leading zero is the
one of zero.
-/

namespace ParadiseOS.NumberTexts

open FormatModel FormatRuns MachineWord

set_option autoImplicit false

section Statement

/-- The functions that print a word. -/
inductive Printer where
  | unsigned
  | int
  | hex
  | pointer
  | binary

def Printer.print (word : Nat) : Printer → Nat → Buffer → Option Nat → Nat × Buffer
  | .unsigned => snprintInt word false
  | .int => snprintInt word true
  | .hex => snprintHex word
  | .pointer => snprintPtr word
  | .binary => snprintBin word

/-- The number a digit stands for. -/
def digitValue (base : Nat) (c : UInt8) : Option Nat :=
  let digit := c.toNat - (ch '0').toNat
  let letter := c.toNat - (ch 'A').toNat + 10
  if ch '0' ≤ c ∧ c ≤ ch '9' ∧ digit < base then some digit
  else if ch 'A' ≤ c ∧ letter < base then some letter
  else none

/-- Reads digits behind those that were read before. -/
def readFrom (base before : Nat) : List UInt8 → Option Nat
  | [] => some before
  | c :: rest =>
      match digitValue base c with
      | some digit => readFrom base (before * base + digit) rest
      | none => none

def readNumber (base : Nat) (digits : List UInt8) : Option Nat :=
  if digits = [] then none else readFrom base 0 digits

/-- Digits that read as the number, without a leading zero except for zero itself. -/
structure Represents (base : Nat) (digits : List UInt8) (val : Nat) : Prop where
  reads : readNumber base digits = some val
  leading : digits.head? = some (ch '0') → val = 0 ∧ digits = [ch '0']

/-- What stands before the digits. -/
def Printer.sign (word : Nat) : Printer → List UInt8
  | .int => if signed32 word < 0 then [ch '-'] else []
  | .pointer => [ch '0', ch 'x']
  | _ => []

def Printer.base : Printer → Nat
  | .hex => 16
  | .pointer => 16
  | .binary => 2
  | _ => 10

/-- The number that the digits stand for. -/
def Printer.number (word : Nat) : Printer → Nat
  | .int => (signed32 word).natAbs
  | _ => word

/-- The function returns the length of the text and stores as much of it as the limit allows,
and nothing else. -/
def Prints (printer : Printer) (word : Nat) (text : List UInt8) : Prop :=
  ∀ n buffer,
    printer.print word n buffer none = (text.length, buffer) ∧
    ∀ start, (printer.print word n buffer (some start)).1 = text.length ∧
      (∀ i < min n text.length, text[i]? = some ((printer.print word n buffer (some start)).2 (start + i))) ∧
      ∀ i, i < start ∨ start + min n text.length ≤ i →
        (printer.print word n buffer (some start)).2 i = buffer i

end Statement

section Reading

variable {base : Nat} {digit : Nat → UInt8}

theorem read_from_append (before : Nat) (front back : List UInt8) :
    readFrom base before (front ++ back) = (readFrom base before front).bind fun val => readFrom base val back := by
  induction front generalizing before with
  | nil => rfl
  | cons c front ih =>
      rw [List.cons_append, readFrom, readFrom]
      cases digitValue base c with
      | none => rfl
      | some d => exact ih (before * base + d)

/-- Digits from the last one on read as their number. -/
theorem read_digits (value : ∀ d < base, digitValue base (digit d) = some d) {digits : List Nat}
    (bounded : ∀ d ∈ digits, d < base) :
    readFrom base 0 (digits.reverse.map digit) = some (Nat.ofDigits base digits) := by
  induction digits with
  | nil => rfl
  | cons d digits ih =>
      have rest := ih fun other member => bounded other (List.mem_cons_of_mem _ member)
      have last := value d (bounded d List.mem_cons_self)
      rw [List.reverse_cons, List.map_append, read_from_append, rest, Option.bind_some, List.map_singleton,
        readFrom, last, Nat.ofDigits_cons]
      change some (Nat.ofDigits base digits * base + d) = _
      rw [Nat.mul_comm, Nat.add_comm]

/-- The text of a number represents it. -/
theorem number_text_represents (large : 1 < base) (value : ∀ d < base, digitValue base (digit d) = some d)
    (zeroValue : digitValue base (ch '0') = some 0) (val : Nat) :
    Represents base (numberText base digit val) val := by
  rw [numberText]
  split_ifs with zero
  · rw [zero]
    refine ⟨?_, fun _ => ⟨rfl, rfl⟩⟩
    rw [readNumber, if_neg (List.cons_ne_nil _ _), readFrom, zeroValue]
    change some (0 * base + 0) = some 0
    rw [Nat.zero_mul]
  · have notEmpty : Nat.digits base val ≠ [] := Nat.digits_ne_nil_iff_ne_zero.2 zero
    constructor
    · rw [readNumber, if_neg (by simpa using notEmpty),
        read_digits value fun d member => Nat.digits_lt_base large member, Nat.ofDigits_digits]
    · intro leading
      rw [List.head?_map, List.head?_reverse, List.getLast?_eq_some_getLast notEmpty, Option.map_some] at leading
      have last := value _ (Nat.digits_lt_base large (List.getLast_mem notEmpty))
      rw [Option.some.inj leading, zeroValue] at last
      exact absurd (Option.some.inj last).symm (Nat.getLast_digit_ne_zero base zero)

theorem decimal_value : ∀ d < 10, digitValue 10 (decimalDigit d) = some d := by decide

theorem hex_value : ∀ d < 16, digitValue 16 (hexDigit d) = some d := by decide

theorem binary_value : ∀ d < 2, digitValue 2 (decimalDigit d) = some d := by decide

end Reading

section Printing

/-- What is stored behind the text stays. -/
theorem write_at_after (text : List UInt8) {buffer : Buffer} {start i : Nat} (after : start + text.length ≤ i) :
    writeAt buffer start text i = buffer i := by
  induction text generalizing buffer start with
  | nil => rfl
  | cons c text ih =>
      rw [List.length_cons] at after
      rw [writeAt, ih (by omega), Function.update_of_ne (by omega)]

/-- The texts of the conversions. -/
def Printer.text (word : Nat) : Printer → List UInt8
  | .unsigned => numberText 10 decimalDigit word
  | .int =>
      if word < 2147483648 then numberText 10 decimalDigit word
      else ch '-' :: numberText 10 decimalDigit (4294967296 - word)
  | .hex => numberText 16 hexDigit word
  | .pointer => ch '0' :: ch 'x' :: numberText 16 hexDigit word
  | .binary => numberText 2 decimalDigit word

theorem print_place (printer : Printer) {word : Nat} (bounded : word < 4294967296) (n : Nat) (buffer : Buffer)
    (pos : Option Nat) : printer.print word n buffer pos =
      ((printer.text word).length, place buffer pos n (printer.text word)) := by
  cases printer with
  | unsigned => exact unsigned_place bounded
  | int => exact int_place ⟨fun _ => 0, fun _ => [], fun _ _ _ => []⟩ bounded
  | hex => exact hex_place bounded
  | pointer => exact pointer_place ⟨fun _ => 0, fun _ => [], fun _ _ _ => []⟩ bounded
  | binary => exact bin_place bounded

theorem prints_text (printer : Printer) {word : Nat} (bounded : word < 4294967296) :
    Prints printer word (printer.text word) := by
  intro n buffer
  refine ⟨print_place printer bounded n buffer none, ?_⟩
  intro start
  rw [print_place printer bounded, place]
  refine ⟨rfl, ?_, ?_⟩
  · intro i inside
    have stored := @write_at_inside buffer ((printer.text word).take n) start i (by rw [List.length_take]; exact inside)
    rw [← stored, List.getElem?_take, if_pos (by omega)]
  · intro i outside
    rcases outside with before | after
    · exact write_at_before _ before
    · exact write_at_after _ (by rw [List.length_take]; exact after)

theorem text_digits (printer : Printer) {word : Nat} (bounded : word < 4294967296) :
    ∃ digits, printer.text word = printer.sign word ++ digits ∧
      Represents printer.base digits (printer.number word) := by
  have decimal := number_text_represents (by decide) decimal_value (by decide)
  have hex := number_text_represents (by decide) hex_value (by decide)
  have binary := number_text_represents (by decide) binary_value (by decide)
  cases printer with
  | unsigned => exact ⟨_, rfl, decimal word⟩
  | hex => exact ⟨_, rfl, hex word⟩
  | pointer => exact ⟨_, rfl, hex word⟩
  | binary => exact ⟨_, rfl, binary word⟩
  | int =>
      rw [Printer.text, Printer.sign, Printer.number, signed32]
      split_ifs with positive negative
      · omega
      · exact ⟨_, rfl, decimal word⟩
      · have same : ((word : Int) - 4294967296).natAbs = 4294967296 - word := by omega
        rw [same]
        exact ⟨_, rfl, decimal (4294967296 - word)⟩
      · omega

/-- For every word and printer there is one text: the function returns its length and stores its first
characters up to the limit, and its digits, behind the sign or `0x`, read back to the number. -/
theorem printed_integers_read_back (printer : Printer) (word : Nat) (bounded : word < 4294967296) :
    ∃ text digits, Prints printer word text ∧ text = printer.sign word ++ digits ∧
      Represents printer.base digits (printer.number word) := by
  obtain ⟨digits, split, represents⟩ := text_digits printer bounded
  exact ⟨_, digits, prints_text printer bounded, split, represents⟩

/-- The least signed number. -/
theorem printed_least_reads_back : ∃ text digits, Prints .int 2147483648 text ∧
    text = Printer.int.sign 2147483648 ++ digits ∧
    Represents Printer.int.base digits (Printer.int.number 2147483648) :=
  printed_integers_read_back .int 2147483648 (by decide)

end Printing

end ParadiseOS.NumberTexts
