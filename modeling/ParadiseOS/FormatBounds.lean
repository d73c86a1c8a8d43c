import ParadiseOS.FloatModel
import ParadiseOS.FormatScan

/-!
# Formatted output stays in its buffers

`vsnprintf` stores nothing from index `n` on and ends its output with a NUL, and the digit
buffers of the functions that print a value are long enough for every value.
-/

namespace ParadiseOS.FormatBounds

open FloatModel FormatModel FormatRuns FormatScan MachineWord

set_option autoImplicit false

section Statement

/-- The loops that fill a digit buffer of some capacity, and nothing where that is past its end. -/
def fillTemp (capacity base : Nat) (digit : Nat → UInt8) : Nat → Nat → List UInt8 → Option (List UInt8)
  | 0, _, temp => some temp
  | rounds + 1, val, temp =>
      if val = 0 then some temp
      else if temp.length < capacity then
        fillTemp capacity base digit rounds (val / base) (digit (val % base) :: temp)
      else none

def pushTemp (capacity : Nat) (temp : List UInt8) (c : UInt8) : Option (List UInt8) :=
  if temp.length < capacity then some (c :: temp) else none

/-- What `snprint_hex` puts into its `temp_buf[8]`. -/
def hexTemp (val : Nat) : Option (List UInt8) := fillTemp 8 16 hexDigit 32 val []

/-- What `snprint_bin` puts into its `temp_buf[32]`. -/
def binTemp (val : Nat) : Option (List UInt8) := fillTemp 32 2 decimalDigit 32 val []

/-- The digits that `snprint_int` puts into its `temp_buffer[12]`. -/
def intDigits (val : Nat) : Option (List UInt8) :=
  if val = 0 then pushTemp 12 [] (ch '0') else fillTemp 12 10 decimalDigit 32 val []

/-- The digits and the sign. -/
def intTemp (val : Nat) (isSigned : Bool) : Option (List UInt8) := do
  let isNegative := isSigned && decide (signed32 val < 0)
  let val := if isNegative then sub32 0 val else val
  let temp ← intDigits val
  if isNegative then pushTemp 12 temp (ch '-') else pure temp

/-- The digit buffers hold what is printed of a word. -/
structure DigitsFit (word : Nat) : Prop where
  hex : word ≠ 0 → ∃ temp, hexTemp word = some temp ∧ ∀ n buffer pos,
    snprintHex word n buffer pos = printTemp temp n buffer pos
  bin : word ≠ 0 → ∃ temp, binTemp word = some temp ∧ ∀ n buffer pos,
    snprintBin word n buffer pos = printTemp temp n buffer pos
  int : ∀ isSigned, ∃ temp, intTemp word isSigned = some temp ∧ ∀ n buffer pos,
    snprintInt word isSigned n buffer pos = printTemp temp n buffer pos

/-- Nothing is stored from index `n` on, and there is a NUL behind what is stored below. -/
def StaysInside (arguments : Arguments) (n : Nat) (fmt : List UInt8) (buffer : Buffer) : Prop :=
  ∃ length after, vsnprintf arguments true n fmt buffer = some (length, after) ∧
    (∀ i, n ≤ i → after i = buffer i) ∧ (0 < n → after (min length (n - 1)) = 0)

end Statement

section Digits

variable {capacity base : Nat} {digit : Nat → UInt8}

theorem push_digits_grow (base : Nat) (digit : Nat → UInt8) (rounds val : Nat) (temp : List UInt8) :
    temp.length ≤ (pushDigits base digit rounds val temp).length := by
  induction rounds generalizing val temp with
  | zero => exact le_rfl
  | succ rounds ih =>
      rw [pushDigits]
      split_ifs
      · exact le_rfl
      · have later := ih (val / base) (digit (val % base) :: temp)
        rw [List.length_cons] at later
        omega

/-- A buffer that is as long as all the digits is filled without running past it. -/
theorem fill_temp_ok (rounds val : Nat) (temp : List UInt8)
    (fits : (pushDigits base digit rounds val temp).length ≤ capacity) :
    fillTemp capacity base digit rounds val temp = some (pushDigits base digit rounds val temp) := by
  induction rounds generalizing val temp with
  | zero => rfl
  | succ rounds ih =>
      rw [pushDigits] at fits ⊢
      rw [fillTemp]
      split_ifs at fits ⊢ with zero room
      · rfl
      · exact ih _ _ fits
      · have grown := push_digits_grow base digit rounds (val / base) (digit (val % base) :: temp)
        rw [List.length_cons] at grown
        omega

theorem push_digits_le {val count : Nat} (digit : Nat → UInt8) (large : 1 < base) (word : val < 4294967296)
    (bounded : val < base ^ count) : (pushDigits base digit 32 val []).length ≤ count := by
  rw [word_digits digit large word, List.length_map, List.length_reverse]
  exact (Nat.digits_length_le_iff large val).2 bounded

theorem int_temp_ok {word : Nat} (bounded : word < 4294967296) (isSigned : Bool) :
    ∃ temp, intTemp word isSigned = some temp ∧ ∀ n buffer pos,
      snprintInt word isSigned n buffer pos = printTemp temp n buffer pos := by
  obtain ⟨isNegative, negative⟩ : ∃ isNegative, isNegative = (isSigned && decide (signed32 word < 0)) := ⟨_, rfl⟩
  obtain ⟨val, isVal⟩ : ∃ val, val = if isNegative = true then sub32 0 word else word := ⟨_, rfl⟩
  have small : val < 4294967296 := by
    rw [isVal]
    split_ifs
    · exact Nat.mod_lt _ (by decide)
    · exact bounded
  have few := push_digits_le decimalDigit (by decide : 1 < 10) small (small.trans (by decide : 4294967296 < 10 ^ 10))
  have digits : intDigits val = some (if val = 0 then [ch '0'] else pushDigits 10 decimalDigit 32 val []) := by
    unfold intDigits
    split_ifs
    · rfl
    · exact fill_temp_ok 32 val [] (few.trans (by decide))
  have short : (if val = 0 then [ch '0'] else pushDigits 10 decimalDigit 32 val []).length < 12 := by
    split_ifs
    · decide
    · omega
  unfold intTemp snprintInt
  dsimp only
  rw [← negative, ← isVal, digits]
  generalize (if val = 0 then [ch '0'] else pushDigits 10 decimalDigit 32 val []) = temp at short
  cases isNegative with
  | false => exact ⟨temp, rfl, fun _ _ _ => rfl⟩
  | true =>
      refine ⟨ch '-' :: temp, ?_, fun _ _ _ => rfl⟩
      change pushTemp 12 temp (ch '-') = _
      rw [pushTemp, if_pos short]

theorem digits_fit {word : Nat} (bounded : word < 4294967296) : DigitsFit word where
  hex notZero := by
    have few := push_digits_le hexDigit (by decide : 1 < 16) bounded
      (bounded.trans_eq (by decide : 4294967296 = 16 ^ 8))
    refine ⟨_, fill_temp_ok 32 word [] few, ?_⟩
    intro n buffer pos
    rw [snprintHex, if_neg notZero]
  bin notZero := by
    have few := push_digits_le decimalDigit (by decide : 1 < 2) bounded
      (bounded.trans_eq (by decide : 4294967296 = 2 ^ 32))
    refine ⟨_, fill_temp_ok 32 word [] few, ?_⟩
    intro n buffer pos
    rw [snprintBin, if_neg notZero]
  int := int_temp_ok bounded

end Digits

section Stores

variable {arguments : Arguments} {hasBuffer : Bool} {limit start n : Nat} {buffer : Buffer} {state : FormatState}

/-- Nothing is stored from an index on. -/
def Keeps (limit : Nat) (buffer after : Buffer) : Prop := ∀ i, limit ≤ i → after i = buffer i

theorem keeps_refl (limit : Nat) (buffer : Buffer) : Keeps limit buffer buffer := fun _ _ => rfl

theorem keeps_trans {first second third : Buffer} (one : Keeps limit first second)
    (two : Keeps limit second third) : Keeps limit first third :=
  fun i beyond => (two i beyond).trans (one i beyond)

theorem keeps_update {cell : Nat} (inside : cell < limit) (buffer : Buffer) (c : UInt8) :
    Keeps limit buffer (Function.update buffer cell c) := by
  intro i beyond
  rw [Function.update_of_ne (by omega)]

/-- A function that prints a value stores at most `n` bytes from its position on. -/
def KeepsLimit (print : Nat → Buffer → Option Nat → Nat × Buffer) : Prop :=
  ∀ n buffer, (print n buffer none).2 = buffer ∧
    ∀ start, Keeps (start + n) buffer (print n buffer (some start)).2

theorem copy_temp_keeps (temp : List UInt8) (buffer : Buffer) (start n copied : Nat) :
    Keeps (start + n) buffer (copyTemp buffer start n copied temp) := by
  induction temp generalizing buffer copied with
  | nil => exact keeps_refl _ _
  | cons c temp ih =>
      rw [copyTemp]
      split_ifs with room
      · exact keeps_trans (keeps_update (by omega) buffer c) (ih _ _)
      · exact keeps_refl _ _

theorem print_temp_keeps (temp : List UInt8) : KeepsLimit (printTemp temp) :=
  fun n buffer => ⟨rfl, fun start => copy_temp_keeps temp buffer start n 0⟩

theorem print_zero_keeps : KeepsLimit printZero := by
  intro n buffer
  refine ⟨rfl, ?_⟩
  intro start
  rw [printZero]
  dsimp only
  split_ifs with room
  · exact keeps_update (by omega) buffer _
  · exact keeps_refl _ _

theorem hex_keeps (val : Nat) : KeepsLimit (snprintHex val) := by
  unfold snprintHex
  split_ifs
  · exact print_zero_keeps
  · exact print_temp_keeps _

theorem bin_keeps (val : Nat) : KeepsLimit (snprintBin val) := by
  unfold snprintBin
  split_ifs
  · exact print_zero_keeps
  · exact print_temp_keeps _

theorem int_keeps (val : Nat) (isSigned : Bool) : KeepsLimit (snprintInt val isSigned) := print_temp_keeps _

theorem pointer_keeps (ptr : Nat) : KeepsLimit (snprintPtr ptr) := by
  intro n buffer
  refine ⟨rfl, ?_⟩
  intro start
  unfold snprintPtr
  dsimp only
  rcases n with _ | _ | n
  · exact keeps_refl _ _
  · exact keeps_update (by omega) buffer _
  · have two := keeps_trans (keeps_update (show start < start + (n + 1 + 1) by omega) buffer (ch '0'))
      (keeps_update (show start + 1 < start + (n + 1 + 1) by omega) _ (ch 'x'))
    rw [if_pos (Nat.succ_pos _)]
    dsimp only
    rw [if_pos (show 1 < n + 1 + 1 by omega)]
    dsimp only
    split_ifs with room
    · have hex := (hex_keeps ptr (n + 1 + 1 - (1 + 1))
        (Function.update (Function.update buffer start (ch '0')) (start + 1) (ch 'x'))).2 (start + (1 + 1))
      rw [show start + (1 + 1) + (n + 1 + 1 - (1 + 1)) = start + (n + 1 + 1) by omega] at hex
      exact keeps_trans two hex
    · exact two

theorem string_keeps_from (str : List UInt8) (buffer : Buffer) (start n len : Nat) :
    Keeps (start + n) buffer (snprintStringFrom buffer (some start) n len str).2 := by
  induction str generalizing buffer len with
  | nil => exact keeps_refl _ _
  | cons c str ih =>
      rw [snprintStringFrom]
      split_ifs with room
      · exact keeps_trans (keeps_update (by omega) buffer c) (ih _ _)
      · exact ih _ _

theorem string_keeps_none (str : List UInt8) (buffer : Buffer) (n len : Nat) :
    (snprintStringFrom buffer none n len str).2 = buffer := by
  induction str generalizing len with
  | nil => rfl
  | cons c str ih => exact ih _

theorem string_keeps (str : List UInt8) : KeepsLimit (snprintString str) :=
  fun n buffer => ⟨string_keeps_none str buffer n 0, fun start => string_keeps_from str buffer start n 0⟩

/-- A conversion stores below the limit. -/
theorem segment_keeps {print : Nat → Buffer → Option Nat → Nat × Buffer} (keeps : KeepsLimit print)
    (words : Nat) : Keeps limit state.buffer (printSegment hasBuffer limit state words print).buffer := by
  rw [printSegment]
  dsimp only
  unfold currentPos
  split_ifs with room
  · have here := (keeps (remaining limit state) state.buffer).2 state.currentLength
    have isLimit : state.currentLength + remaining limit state = limit := by
      rw [remaining, if_neg (by omega)]
      omega
    rwa [isLimit] at here
  · rw [(keeps (remaining limit state) state.buffer).1]
    exact keeps_refl _ _

theorem put_byte_keeps (c : UInt8) : Keeps limit state.buffer (putByte hasBuffer limit state c).buffer := by
  unfold putByte currentPos
  split_ifs with room
  · exact keeps_update (by omega) state.buffer c
  · exact keeps_refl _ _

theorem put_character_keeps :
    Keeps limit state.buffer (putCharArgument arguments hasBuffer limit state).buffer := by
  unfold putCharArgument currentPos
  split_ifs with room
  · exact keeps_update (by omega) state.buffer _
  · exact keeps_refl _ _

theorem convert_keeps (c : UInt8) :
    Keeps limit state.buffer (convert arguments hasBuffer limit state c).buffer := by
  unfold convert
  dsimp only
  split_ifs
  · exact segment_keeps (int_keeps _ false) 1
  · exact segment_keeps (int_keeps _ true) 1
  · exact segment_keeps (string_keeps _) 2
  · exact segment_keeps (hex_keeps _) 1
  · exact segment_keeps (pointer_keeps _) 1
  · exact segment_keeps (bin_keeps _) 1
  · exact segment_keeps (string_keeps _) 1
  · exact put_character_keeps
  · exact put_byte_keeps _
  · exact keeps_refl _ _

end Stores

section Loop

variable {arguments : Arguments} {hasBuffer : Bool} {limit : Nat}

theorem read_precision_rest (precision : Nat) (text : List UInt8) :
    (readPrecision precision text).2 = text.dropWhile isDigit := by
  induction text generalizing precision with
  | nil => rfl
  | cons c text ih =>
      rw [readPrecision]
      split_ifs with digit
      · rw [ih, List.dropWhile_cons_of_pos digit]
      · rw [List.dropWhile_cons_of_neg digit]

theorem convert_precision_keeps (state : FormatState) (text : List UInt8) :
    (convertPrecision arguments hasBuffer limit state text).2 = behindPrecision text ∧
      Keeps limit state.buffer (convertPrecision arguments hasBuffer limit state text).1.buffer := by
  have rest := read_precision_rest 0 text
  unfold convertPrecision behindPrecision
  rw [← rest]
  rcases readPrecision 0 text with ⟨precision, _ | ⟨c, after⟩⟩
  · exact ⟨rfl, keeps_refl _ _⟩
  · dsimp only
    split_ifs
    · exact ⟨rfl, segment_keeps (string_keeps _) 2⟩
    · exact ⟨rfl, keeps_refl _ _⟩

/-- The loop goes over the whole format and stores below the limit. -/
theorem format_loop_keeps (rounds : Nat) {text : List UInt8} (even : Even (trailingPercents text))
    (enough : text.length ≤ rounds) (state : FormatState) :
    ∃ final, formatLoop arguments hasBuffer limit rounds text state = some final ∧
      Keeps limit state.buffer final.buffer := by
  induction rounds generalizing text state with
  | zero =>
      rw [List.eq_nil_of_length_eq_zero (Nat.le_zero.1 enough)]
      exact ⟨state, rfl, keeps_refl _ _⟩
  | succ rounds ih =>
      cases text with
      | nil => exact ⟨state, rfl, keeps_refl _ _⟩
      | cons c rest =>
          rw [List.length_cons] at enough
          rw [formatLoop.eq_def]
          dsimp only
          by_cases percent : c = ch '%'
          · rw [if_pos percent]
            subst percent
            cases rest with
            | nil => exact absurd even trailing_lone
            | cons conversion after =>
                rw [trailing_conversion] at even
                rw [List.length_cons] at enough
                dsimp only
                split_ifs
                · obtain ⟨behind, kept⟩ := @convert_precision_keeps arguments hasBuffer limit state after
                  have few := behind_precision_le after
                  rw [← trailing_precision after, ← behind] at even
                  rw [← behind] at few
                  obtain ⟨final, completed, keeps⟩ := ih even (by omega)
                    (convertPrecision arguments hasBuffer limit state after).1
                  exact ⟨final, completed, keeps_trans kept keeps⟩
                · obtain ⟨final, completed, keeps⟩ := ih even (by omega)
                    (convert arguments hasBuffer limit state conversion)
                  exact ⟨final, completed, keeps_trans (convert_keeps conversion) keeps⟩
          · rw [if_neg percent]
            rw [trailing_other percent] at even
            obtain ⟨final, completed, keeps⟩ := ih even (by omega) (putByte hasBuffer limit state c)
            exact ⟨final, completed, keeps_trans (put_byte_keeps c) keeps⟩

theorem stays_inside (arguments : Arguments) (n : Nat) {fmt : List UInt8} (even : Even (trailingPercents fmt))
    (buffer : Buffer) : StaysInside arguments n fmt buffer := by
  obtain ⟨final, completed, keeps⟩ := @format_loop_keeps arguments true (limitOf n) fmt.length fmt even le_rfl
    ⟨buffer, 0, 0⟩
  have limit := limit_of_eq n
  unfold StaysInside vsnprintf
  dsimp only
  rw [completed]
  dsimp only
  by_cases positive : n > 0
  · rw [if_pos ⟨rfl, positive⟩]
    have isPlace : (if final.currentLength < limitOf n then final.currentLength else limitOf n) =
        min final.currentLength (n - 1) := by
      rw [limit]
      split_ifs <;> omega
    rw [isPlace]
    refine ⟨_, _, rfl, ?_, fun _ => Function.update_self _ _ _⟩
    intro i beyond
    rw [Function.update_of_ne (by omega)]
    exact keeps i (by omega)
  · rw [if_neg fun both => positive both.2]
    refine ⟨_, _, rfl, ?_, fun some => absurd some positive⟩
    intro i beyond
    exact keeps i (by omega)

/-- A format that does not end in a lone `%` is expanded within the buffer, and no digit buffer is
indexed past its end: for all arguments, sizes and values, and any arithmetic of floating-point values. -/
theorem formatted_output_stays_inside {fmt : List UInt8} (even : Even (trailingPercents fmt)) :
    (∀ arguments n buffer, StaysInside arguments n fmt buffer) ∧
      (∀ word < 4294967296, DigitsFit word) ∧
      ∀ (Value : Type) (ops : FloatOps Value), (∀ val, ops.toWord val < 4294967296) →
        ∀ val precision junk, floatTemp ops val precision junk ≠ none := by
  refine ⟨fun arguments n buffer => stays_inside arguments n even buffer, fun word bounded => digits_fit bounded, ?_⟩
  intro Value ops words val precision junk none
  obtain ⟨temp, filled, _⟩ := float_temp_writes words val precision junk
  rw [none] at filled
  cases filled

/-- The format `"%s: %x%%"`. -/
theorem formatted_output_stays_inside_string :
    (∀ arguments n buffer, StaysInside arguments n ("%s: %x%%".toList.map ch) buffer) ∧
      (∀ word < 4294967296, DigitsFit word) ∧
      ∀ (Value : Type) (ops : FloatOps Value), (∀ val, ops.toWord val < 4294967296) →
        ∀ val precision junk, floatTemp ops val precision junk ≠ none :=
  formatted_output_stays_inside (by decide)

end Loop

end ParadiseOS.FormatBounds
