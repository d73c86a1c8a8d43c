import ParadiseOS.FormatModel

/-!
# What formatted output holds

The expansion of a format is spelled out without any buffer. `vsnprintf` returns its
length and stores what fits, as long as no `%c` that is out of space comes before a
conversion of another kind: that `%c` leaves its argument to the next one.
-/

namespace ParadiseOS.FormatRuns

open FormatModel MachineWord

set_option autoImplicit false

section Statement

/-- The conversions of a value, but for characters. -/
inductive Conversion where
  | unsigned
  | int
  | hex
  | pointer
  | binary
  | string
  deriving DecidableEq

def Conversion.char : Conversion → UInt8
  | .unsigned => ch 'u'
  | .int => ch 'i'
  | .hex => ch 'x'
  | .pointer => ch 'p'
  | .binary => ch 'b'
  | .string => ch 's'

inductive Piece where
  | ordinary (c : UInt8)
  | percent
  | character
  | value (conversion : Conversion)
  deriving DecidableEq

/-- An ordinary character is not `%`, and not the end of the format. -/
def Piece.Proper : Piece → Prop
  | .ordinary c => c ≠ ch '%' ∧ c ≠ 0
  | _ => True

instance (piece : Piece) : Decidable piece.Proper :=
  match piece with
  | .ordinary _ => inferInstanceAs (Decidable (_ ∧ _))
  | .percent => isTrue trivial
  | .character => isTrue trivial
  | .value _ => isTrue trivial

def Piece.bytes : Piece → List UInt8
  | .ordinary c => [c]
  | .percent => [ch '%', ch '%']
  | .character => [ch '%', ch 'c']
  | .value conversion => [ch '%', conversion.char]

/-- The bytes of a format string. -/
def formatOf (pieces : List Piece) : List UInt8 := pieces.flatMap Piece.bytes

/-- A number in a base. -/
def numberText (base : Nat) (digit : Nat → UInt8) (val : Nat) : List UInt8 :=
  if val = 0 then [ch '0'] else (Nat.digits base val).reverse.map digit

def valueText (arguments : Arguments) (word : Nat) : Conversion → List UInt8
  | .unsigned => numberText 10 decimalDigit word
  | .int =>
      if word < 2147483648 then numberText 10 decimalDigit word
      else ch '-' :: numberText 10 decimalDigit (4294967296 - word)
  | .hex => numberText 16 hexDigit word
  | .pointer => ch '0' :: ch 'x' :: numberText 16 hexDigit word
  | .binary => numberText 2 decimalDigit word
  | .string => if word = 0 then nullText else arguments.strings word

/-- What a piece expands to, where the next argument is a word. -/
def pieceText (arguments : Arguments) (word : Nat) : Piece → List UInt8
  | .ordinary c => [c]
  | .percent => [ch '%']
  | .character => [UInt8.ofNat word]
  | .value conversion => valueText arguments word conversion

/-- The arguments that belong to a piece. -/
def Piece.takes : Piece → Nat
  | .ordinary _ => 0
  | .percent => 0
  | .character => 1
  | .value _ => 1

/-- The complete expansion, from an argument on. -/
def expansion (arguments : Arguments) : List Piece → Nat → List UInt8
  | [], _ => []
  | piece :: pieces, taken =>
      pieceText arguments (arguments.words taken) piece ++ expansion arguments pieces (taken + piece.takes)

/-- The length is that of the whole text, and the buffer holds its first characters and a NUL. -/
def Formats (arguments : Arguments) (hasBuffer : Bool) (n : Nat) (pieces : List Piece) (buffer : Buffer) :
    Prop :=
  ∃ after, vsnprintf arguments hasBuffer n (formatOf pieces) buffer =
      some ((expansion arguments pieces 0).length, after) ∧
    (hasBuffer = true → 0 < n →
      (∀ i < min (expansion arguments pieces 0).length (n - 1),
        (expansion arguments pieces 0)[i]? = some (after i)) ∧
      after (min (expansion arguments pieces 0).length (n - 1)) = 0)

/-- There is a conversion of a value among the pieces. -/
def HasValue (pieces : List Piece) : Prop := ∃ conversion, Piece.value conversion ∈ pieces

/-- Every `%c` before a conversion of a value is stored to the buffer. -/
def CharactersStored (arguments : Arguments) (hasBuffer : Bool) (n : Nat) (pieces : List Piece) : Prop :=
  ∀ before after, pieces = before ++ .character :: after → HasValue after →
    hasBuffer = true ∧ (expansion arguments before 0).length < n - 1

/-- Some `%c` comes before a conversion of a value. -/
def CharacterBeforeValue (pieces : List Piece) : Prop :=
  ∃ before after, pieces = before ++ .character :: after ∧ HasValue after

/-- The arguments are words. -/
def Words (arguments : Arguments) : Prop := ∀ taken, arguments.words taken < 4294967296

end Statement

section Values

variable {buffer : Buffer} {pos : Option Nat} {n : Nat}

/-- Characters are stored one after the other. -/
def writeAt (buffer : Buffer) (start : Nat) : List UInt8 → Buffer
  | [] => buffer
  | c :: text => writeAt (Function.update buffer start c) (start + 1) text

/-- What fits is stored, if there is a position. -/
def place (buffer : Buffer) (pos : Option Nat) (n : Nat) (text : List UInt8) : Buffer :=
  match pos with
  | some start => writeAt buffer start (text.take n)
  | none => buffer

theorem write_at_before (text : List UInt8) {start i : Nat} (before : i < start) :
    writeAt buffer start text i = buffer i := by
  induction text generalizing buffer start with
  | nil => rfl
  | cons c text ih =>
      rw [writeAt, ih (by omega), Function.update_of_ne (by omega)]

theorem write_at_inside (text : List UInt8) {start i : Nat} (inside : i < text.length) :
    text[i]? = some (writeAt buffer start text (start + i)) := by
  induction text generalizing buffer start i with
  | nil => exact absurd inside (Nat.not_lt_zero i)
  | cons c text ih =>
      cases i with
      | zero =>
          rw [writeAt, write_at_before text (by omega), Nat.add_zero, Function.update_self]
          rfl
      | succ i =>
          have here := @ih (Function.update buffer start c) (start + 1) i (Nat.lt_of_succ_lt_succ inside)
          rw [List.getElem?_cons_succ, here, writeAt]
          congr 2
          omega

theorem copy_temp_place (temp : List UInt8) (start copied : Nat) :
    copyTemp buffer start n copied temp = writeAt buffer (start + copied) (temp.take (n - copied)) := by
  induction temp generalizing buffer copied with
  | nil =>
      rw [List.take_nil]
      rfl
  | cons c temp ih =>
      rw [copyTemp]
      split_ifs with room
      · rw [ih, show n - copied = n - (copied + 1) + 1 by omega, List.take_succ_cons, writeAt]
        rfl
      · rw [show n - copied = 0 by omega]
        rfl

theorem print_temp_place (temp : List UInt8) :
    printTemp temp n buffer pos = (temp.length, place buffer pos n temp) := by
  cases pos with
  | none => rfl
  | some start =>
      rw [printTemp, place, copy_temp_place, Nat.add_zero, Nat.sub_zero]

theorem print_zero_place : printZero n buffer pos = (1, place buffer pos n [ch '0']) := by
  cases pos with
  | none => rfl
  | some start =>
      cases n with
      | zero => rfl
      | succ n =>
          rw [place, List.take_succ_cons, List.take_nil, printZero, if_pos (Nat.succ_pos n)]
          rfl

theorem string_place_from (str : List UInt8) (len : Nat) (short : len + str.length < 4294967296) :
    snprintStringFrom buffer pos n len str = (len + str.length, match pos with
      | some start => writeAt buffer (start + len) (str.take (n - len))
      | none => buffer) := by
  induction str generalizing buffer len with
  | nil =>
      rw [List.take_nil]
      cases pos with
      | none => rfl
      | some start => rfl
  | cons c str ih =>
      rw [List.length_cons] at short ⊢
      have next : u32 (len + 1) = len + 1 := u32_of_lt (by omega)
      have long : len + 1 + str.length = len + (str.length + 1) := by omega
      unfold snprintStringFrom
      dsimp only
      rw [next, ih (len + 1) (by omega), long]
      cases pos with
      | none => rfl
      | some start =>
          dsimp only
          split_ifs with room
          · rw [show n - len = n - (len + 1) + 1 by omega, List.take_succ_cons, writeAt]
            rfl
          · rw [show n - len = 0 by omega, show n - (len + 1) = 0 by omega]
            rfl

theorem string_place (str : List UInt8) (short : str.length < 4294967296) :
    snprintString str n buffer pos = (str.length, place buffer pos n str) := by
  rw [snprintString, string_place_from str 0 (by omega), Nat.zero_add]
  cases pos with
  | none => rfl
  | some start => rfl

/-- The digits are pushed from the last one on. -/
theorem push_digits {base : Nat} (digit : Nat → UInt8) (large : 1 < base) (rounds val : Nat)
    (temp : List UInt8) (bounded : val < base ^ rounds) :
    pushDigits base digit rounds val temp = (Nat.digits base val).reverse.map digit ++ temp := by
  induction rounds generalizing val temp with
  | zero =>
      have zero : val = 0 := by
        rw [pow_zero] at bounded
        omega
      rw [zero, Nat.digits_zero]
      rfl
  | succ rounds ih =>
      rw [pushDigits]
      split_ifs with zero
      · rw [zero, Nat.digits_zero]
        rfl
      · have smaller : val / base < base ^ rounds :=
          Nat.div_lt_of_lt_mul (by rwa [pow_succ, Nat.mul_comm] at bounded)
        rw [ih _ _ smaller, Nat.digits_def' large (Nat.pos_of_ne_zero zero), List.reverse_cons,
          List.map_append, List.append_assoc]
        rfl

theorem word_digits {base val : Nat} (digit : Nat → UInt8) (large : 1 < base) (word : val < 4294967296) :
    pushDigits base digit 32 val [] = (Nat.digits base val).reverse.map digit := by
  have bounded : val < base ^ 32 :=
    calc val < 2 ^ 32 := word
      _ ≤ base ^ 32 := Nat.pow_le_pow_left large 32
  rw [push_digits digit large 32 val [] bounded, List.append_nil]

theorem hex_place {val : Nat} (word : val < 4294967296) : snprintHex val n buffer pos =
    ((numberText 16 hexDigit val).length, place buffer pos n (numberText 16 hexDigit val)) := by
  rw [snprintHex, numberText]
  split_ifs with zero
  · exact print_zero_place
  · rw [word_digits hexDigit (by decide) word, print_temp_place]

theorem bin_place {val : Nat} (word : val < 4294967296) : snprintBin val n buffer pos =
    ((numberText 2 decimalDigit val).length, place buffer pos n (numberText 2 decimalDigit val)) := by
  rw [snprintBin, numberText]
  split_ifs with zero
  · exact print_zero_place
  · rw [word_digits decimalDigit (by decide) word, print_temp_place]

theorem push_digits_length (base : Nat) (digit : Nat → UInt8) (rounds val : Nat) (temp : List UInt8) :
    (pushDigits base digit rounds val temp).length ≤ temp.length + rounds := by
  induction rounds generalizing val temp with
  | zero => exact Nat.le_refl _
  | succ rounds ih =>
      rw [pushDigits]
      split_ifs
      · omega
      · have later := ih (val / base) (digit (val % base) :: temp)
        rw [List.length_cons] at later
        omega

theorem number_text_length {base val : Nat} (digit : Nat → UInt8) (large : 1 < base)
    (word : val < 4294967296) : (numberText base digit val).length ≤ 32 := by
  rw [numberText]
  split_ifs
  · exact (by decide : 1 ≤ 32)
  · rw [← word_digits digit large word]
    have short := push_digits_length base digit 32 val []
    rwa [List.length_nil, Nat.zero_add] at short

theorem decimal_temp {val : Nat} (word : val < 4294967296) :
    (if val = 0 then [ch '0'] else pushDigits 10 decimalDigit 32 val []) = numberText 10 decimalDigit val := by
  rw [numberText]
  split_ifs
  · rfl
  · exact word_digits decimalDigit (by decide) word

theorem unsigned_place {val : Nat} (word : val < 4294967296) : snprintInt val false n buffer pos =
    ((numberText 10 decimalDigit val).length, place buffer pos n (numberText 10 decimalDigit val)) := by
  rw [← decimal_temp word]
  exact print_temp_place _

theorem int_place {val : Nat} (arguments : Arguments) (word : val < 4294967296) :
    snprintInt val true n buffer pos =
      ((valueText arguments val .int).length, place buffer pos n (valueText arguments val .int)) := by
  rw [valueText]
  split_ifs with positive
  · have notNegative : ¬ signed32 val < 0 := by
      rw [signed32, if_pos positive]
      omega
    rw [snprintInt, decide_eq_false notNegative, ← decimal_temp word]
    exact print_temp_place _
  · have negative : signed32 val < 0 := by
      rw [signed32, if_neg positive]
      omega
    have opposite : sub32 0 val = 4294967296 - val := by
      unfold sub32 u32
      omega
    rw [snprintInt, decide_eq_true negative, ← decimal_temp (show 4294967296 - val < 4294967296 by omega),
      ← opposite]
    exact print_temp_place _

theorem pointer_place {val : Nat} (arguments : Arguments) (word : val < 4294967296) :
    snprintPtr val n buffer pos =
      ((valueText arguments val .pointer).length, place buffer pos n (valueText arguments val .pointer)) := by
  have short := number_text_length hexDigit (by decide : 1 < 16) word
  have long : u32 (2 + (numberText 16 hexDigit val).length) = (valueText arguments val .pointer).length := by
    rw [u32_of_lt (by omega), valueText, List.length_cons, List.length_cons]
    omega
  have full : u32 (2 + (snprintHex val 0xFFFFFFFF buffer none).1) =
      (valueText arguments val .pointer).length := by
    rw [hex_place word]
    exact long
  unfold snprintPtr
  dsimp only
  rw [full]
  cases pos with
  | none => rfl
  | some start =>
      rcases n with _ | _ | n
      · rfl
      · rw [place, valueText, List.take_succ_cons, List.take_zero]
        rfl
      · have hex : ∀ text : Buffer, snprintHex val n text (some (start + 2)) = _ :=
          fun text => hex_place word
        rw [place, valueText, List.take_succ_cons, List.take_succ_cons, writeAt, writeAt]
        dsimp only
        rw [if_pos (Nat.succ_pos _)]
        rw [if_pos (show 1 < n + 1 + 1 by omega)]
        dsimp only
        cases n with
        | zero =>
            rw [if_neg (by omega), List.take_zero]
            rfl
        | succ n =>
            rw [if_pos (by omega), show n + 1 + 1 + 1 - (1 + 1) = n + 1 by omega,
              show start + (1 + 1) = start + 2 by omega, hex]
            rfl

/-- The function that prints a value. -/
def printerOf (arguments : Arguments) (word : Nat) : Conversion → Nat → Buffer → Option Nat → Nat × Buffer
  | .unsigned => snprintInt word false
  | .int => snprintInt word true
  | .hex => snprintHex word
  | .pointer => snprintPtr word
  | .binary => snprintBin word
  | .string => snprintString (stringText arguments word)

theorem convert_value (arguments : Arguments) (hasBuffer : Bool) (limit : Nat) (state : FormatState)
    (conversion : Conversion) : convert arguments hasBuffer limit state conversion.char =
      printSegment hasBuffer limit state 1
        (printerOf arguments (arguments.words state.taken) conversion) := by
  unfold convert
  cases conversion with
  | unsigned => exact if_pos rfl
  | int =>
      rw [if_neg (by decide)]
      exact if_pos rfl
  | hex =>
      rw [if_neg (by decide), if_neg (by decide), if_neg (by decide)]
      exact if_pos rfl
  | pointer =>
      rw [if_neg (by decide), if_neg (by decide), if_neg (by decide), if_neg (by decide)]
      exact if_pos rfl
  | binary =>
      rw [if_neg (by decide), if_neg (by decide), if_neg (by decide), if_neg (by decide),
        if_neg (by decide)]
      exact if_pos rfl
  | string =>
      rw [if_neg (by decide), if_neg (by decide), if_neg (by decide), if_neg (by decide),
        if_neg (by decide), if_neg (by decide)]
      exact if_pos rfl

/-- Every value is printed as its text. -/
theorem printer_place (arguments : Arguments) {word : Nat} (conversion : Conversion)
    (bounded : word < 4294967296)
    (short : (valueText arguments word conversion).length < 4294967296) :
    printerOf arguments word conversion n buffer pos =
      ((valueText arguments word conversion).length,
        place buffer pos n (valueText arguments word conversion)) := by
  cases conversion with
  | unsigned => exact unsigned_place bounded
  | int => exact int_place arguments bounded
  | hex => exact hex_place bounded
  | pointer => exact pointer_place arguments bounded
  | binary => exact bin_place bounded
  | string => exact string_place _ short

end Values

section Loop

variable (arguments : Arguments) (hasBuffer : Bool) (limit : Nat)

/-- What the loop does for a piece of the format. -/
def pieceStep (state : FormatState) : Piece → FormatState
  | .ordinary c => putByte hasBuffer limit state c
  | .percent => putByte hasBuffer limit state (ch '%')
  | .character => putCharArgument arguments hasBuffer limit state
  | .value conversion =>
      printSegment hasBuffer limit state 1
        (printerOf arguments (arguments.words state.taken) conversion)

/-- A conversion takes two bytes of the format. -/
theorem loop_conversion {c : UInt8} (notDot : c ≠ ch '.') (rounds : Nat) (rest : List UInt8)
    (state : FormatState) : formatLoop arguments hasBuffer limit (rounds + 1) (ch '%' :: c :: rest) state =
      formatLoop arguments hasBuffer limit rounds rest (convert arguments hasBuffer limit state c) := by
  rw [formatLoop, if_pos rfl, if_neg notDot]

theorem loop_piece {piece : Piece} (proper : piece.Proper) (rounds : Nat) (rest : List UInt8)
    (state : FormatState) : formatLoop arguments hasBuffer limit (rounds + 1) (piece.bytes ++ rest) state =
      formatLoop arguments hasBuffer limit rounds rest (pieceStep arguments hasBuffer limit state piece) := by
  cases piece with
  | ordinary c =>
      change formatLoop arguments hasBuffer limit (rounds + 1) (c :: rest) state = _
      rw [formatLoop.eq_def]
      exact if_neg proper.1
  | percent =>
      have step := loop_conversion arguments hasBuffer limit (by decide : ch '%' ≠ ch '.') rounds rest state
      refine step.trans ?_
      unfold convert
      rw [if_neg (by decide), if_neg (by decide), if_neg (by decide), if_neg (by decide), if_neg (by decide),
        if_neg (by decide), if_neg (by decide), if_neg (by decide)]
      exact congrArg _ (if_pos rfl)
  | character =>
      have step := loop_conversion arguments hasBuffer limit (by decide : ch 'c' ≠ ch '.') rounds rest state
      refine step.trans ?_
      unfold convert
      rw [if_neg (by decide), if_neg (by decide), if_neg (by decide), if_neg (by decide), if_neg (by decide),
        if_neg (by decide), if_neg (by decide)]
      exact congrArg _ (if_pos rfl)
  | value conversion =>
      have notDot : conversion.char ≠ ch '.' := by
        cases conversion <;> decide
      refine (loop_conversion arguments hasBuffer limit notDot rounds rest state).trans ?_
      rw [convert_value]
      rfl

/-- The loop does one piece after the other. -/
theorem loop_pieces (pieces : List Piece) (proper : ∀ piece ∈ pieces, piece.Proper) (rounds : Nat)
    (enough : pieces.length ≤ rounds) (state : FormatState) :
    formatLoop arguments hasBuffer limit rounds (formatOf pieces) state =
      some (pieces.foldl (pieceStep arguments hasBuffer limit) state) := by
  induction pieces generalizing rounds state with
  | nil =>
      cases rounds with
      | zero => rfl
      | succ rounds => rfl
  | cons piece pieces ih =>
      rw [List.length_cons] at enough
      obtain ⟨fewer, rfl⟩ : ∃ fewer, rounds = fewer + 1 := ⟨rounds - 1, by omega⟩
      have step := loop_piece arguments hasBuffer limit (proper piece List.mem_cons_self) fewer
        (formatOf pieces) state
      refine step.trans ?_
      exact ih (fun other member => proper other (List.mem_cons_of_mem _ member)) fewer (by omega) _

theorem pieces_le_bytes (pieces : List Piece) : pieces.length ≤ (formatOf pieces).length := by
  induction pieces with
  | nil => exact Nat.le_refl _
  | cons piece pieces ih =>
      have here : 1 ≤ piece.bytes.length := by
        cases piece <;> simp [Piece.bytes]
      have both : (formatOf (piece :: pieces)).length = piece.bytes.length + (formatOf pieces).length :=
        List.length_append
      rw [List.length_cons, both]
      omega

end Loop

section Storing

variable {arguments : Arguments} {hasBuffer : Bool} {limit : Nat} {state : FormatState} {text : List UInt8}

/-- So much text was printed, and what fits of it is in the buffer. -/
structure Shows (hasBuffer : Bool) (limit : Nat) (state : FormatState) (text : List UInt8) : Prop where
  long : state.currentLength = text.length
  stored : hasBuffer = true → ∀ i < min text.length limit, text[i]? = some (state.buffer i)

/-- More text goes behind what is there. -/
theorem shows_place (shows : Shows hasBuffer limit state text) (more : List UInt8) (taken : Nat)
    (short : text.length + more.length < 4294967296) :
    Shows hasBuffer limit
      { buffer := place state.buffer (currentPos hasBuffer limit state) (remaining limit state) more
        currentLength := u32 (state.currentLength + more.length)
        taken := taken } (text ++ more) where
  long := by
    rw [shows.long, List.length_append]
    exact u32_of_lt short
  stored here i inside := by
    rw [List.length_append] at inside
    have old := shows.stored here i
    by_cases room : text.length < limit
    · have pos : currentPos hasBuffer limit state = some text.length := by
        rw [currentPos, shows.long, if_pos ⟨here, Nat.not_le.2 room⟩]
      have left : remaining limit state = limit - text.length := by
        rw [remaining, shows.long, if_neg (by omega)]
      dsimp only
      rw [pos, left, place]
      by_cases before : i < text.length
      · rw [List.getElem?_append_left before, old (by omega), write_at_before _ before]
      · have fits : i - text.length < (more.take (limit - text.length)).length := by
          rw [List.length_take]
          omega
        have found := @write_at_inside state.buffer (more.take (limit - text.length)) text.length
          (i - text.length) fits
        have back : text.length + (i - text.length) = i := by omega
        rw [List.getElem?_take_of_lt (by omega), back] at found
        rw [List.getElem?_append_right (by omega), found]
    · have pos : currentPos hasBuffer limit state = none := by
        rw [currentPos, shows.long, if_neg fun both => both.2 (by omega)]
      dsimp only
      rw [pos, place, List.getElem?_append_left (by omega)]
      exact old (by omega)

theorem put_byte_place (state : FormatState) (c : UInt8) : putByte hasBuffer limit state c =
    { buffer := place state.buffer (currentPos hasBuffer limit state) (remaining limit state) [c]
      currentLength := u32 (state.currentLength + [c].length)
      taken := state.taken } := by
  unfold putByte currentPos
  split_ifs with active
  · have left : remaining limit state = limit - state.currentLength - 1 + 1 := by
      rw [remaining, if_neg (by omega)]
      omega
    rw [left, place, List.take_succ_cons, List.take_nil]
    rfl
  · rfl

theorem shows_byte (shows : Shows hasBuffer limit state text) (c : UInt8)
    (short : text.length + 1 < 4294967296) :
    Shows hasBuffer limit (putByte hasBuffer limit state c) (text ++ [c]) := by
  rw [put_byte_place]
  exact shows_place shows [c] state.taken short

/-- There is room for another byte. -/
def Active (hasBuffer : Bool) (limit : Nat) (state : FormatState) : Prop :=
  hasBuffer = true ∧ ¬ state.currentLength ≥ limit

theorem current_pos_active (active : Active hasBuffer limit state) :
    currentPos hasBuffer limit state = some state.currentLength := if_pos active

theorem current_pos_lost (lost : ¬ Active hasBuffer limit state) :
    currentPos hasBuffer limit state = none := if_neg lost

/-- Out of space, a byte only counts. -/
theorem byte_lost (lost : ¬ Active hasBuffer limit state) (c : UInt8) :
    putByte hasBuffer limit state c = { state with currentLength := u32 (state.currentLength + 1) } := by
  rw [putByte, current_pos_lost lost]

/-- Out of space, a character argument counts as one byte. -/
theorem character_lost (lost : ¬ Active hasBuffer limit state) (c : UInt8) :
    putCharArgument arguments hasBuffer limit state = putByte hasBuffer limit state c := by
  rw [byte_lost lost, putCharArgument, current_pos_lost lost]

theorem character_stored (active : Active hasBuffer limit state) :
    putCharArgument arguments hasBuffer limit state =
      { putByte hasBuffer limit state (UInt8.ofNat (arguments.words state.taken)) with
        taken := state.taken + 1 } := by
  rw [putCharArgument, putByte, current_pos_active active]

theorem byte_taken (state : FormatState) (c : UInt8) :
    (putByte hasBuffer limit state c).taken = state.taken := by
  rw [put_byte_place]

/-- Out of space is out of space for good. -/
theorem lost_byte (lost : ¬ Active hasBuffer limit state) (c : UInt8)
    (short : state.currentLength + 1 < 4294967296) :
    ¬ Active hasBuffer limit (putByte hasBuffer limit state c) := by
  rw [byte_lost lost]
  rintro ⟨here, room⟩
  change ¬ u32 (state.currentLength + 1) ≥ limit at room
  rw [u32_of_lt short] at room
  exact lost ⟨here, by omega⟩

/-- The arguments taken are those of the format, or no more values are printed. -/
def InStep (hasBuffer : Bool) (limit : Nat) (state : FormatState) (taken : Nat) (pieces : List Piece) : Prop :=
  state.taken = taken ∨ (¬ HasValue pieces ∧ ¬ Active hasBuffer limit state)

theorem has_value_cons {piece : Piece} {pieces : List Piece} (later : HasValue pieces) :
    HasValue (piece :: pieces) := by
  obtain ⟨conversion, member⟩ := later
  exact ⟨conversion, List.mem_cons_of_mem _ member⟩

/-- A piece prints its text, and the state stays in step. -/
theorem piece_shows {piece : Piece} {pieces : List Piece} {taken : Nat} (words : Words arguments)
    (shows : Shows hasBuffer limit state text) (inStep : InStep hasBuffer limit state taken (piece :: pieces))
    (short : text.length + (pieceText arguments (arguments.words taken) piece).length < 4294967296)
    (stored : piece = .character → HasValue pieces → hasBuffer = true ∧ text.length < limit) :
    Shows hasBuffer limit (pieceStep arguments hasBuffer limit state piece)
        (text ++ pieceText arguments (arguments.words taken) piece) ∧
      InStep hasBuffer limit (pieceStep arguments hasBuffer limit state piece) (taken + piece.takes) pieces := by
  have long := shows.long
  -- a byte that takes no argument
  have byte : ∀ c, text.length + 1 < 4294967296 →
      Shows hasBuffer limit (putByte hasBuffer limit state c) (text ++ [c]) ∧
        InStep hasBuffer limit (putByte hasBuffer limit state c) taken pieces := by
    intro c small
    refine ⟨shows_byte shows c small, ?_⟩
    rcases inStep with same | ⟨none, lost⟩
    · exact .inl ((byte_taken state c).trans same)
    · exact .inr ⟨fun later => none (has_value_cons later), lost_byte lost c (by omega)⟩
  cases piece with
  | ordinary c => exact byte c short
  | percent => exact byte (ch '%') short
  | character =>
      change text.length + 1 < 4294967296 at short
      by_cases active : Active hasBuffer limit state
      · have same : state.taken = taken := by
          rcases inStep with same | ⟨_, lost⟩
          · exact same
          · exact absurd active lost
        have shown := shows_byte shows (UInt8.ofNat (arguments.words taken)) short
        rw [pieceStep, character_stored active, same]
        exact ⟨⟨shown.long, shown.stored⟩, .inl rfl⟩
      · have none : ¬ HasValue pieces := by
          intro later
          obtain ⟨here, room⟩ := stored rfl later
          exact active ⟨here, by omega⟩
        rw [pieceStep, character_lost active (UInt8.ofNat (arguments.words taken))]
        exact ⟨shows_byte shows _ short, .inr ⟨none, lost_byte active _ (by omega)⟩⟩
  | value conversion =>
      change text.length + (valueText arguments (arguments.words taken) conversion).length < 4294967296
        at short
      have same : state.taken = taken := by
        rcases inStep with same | ⟨none, _⟩
        · exact same
        · exact absurd ⟨conversion, List.mem_cons_self⟩ none
      rw [pieceStep, printSegment, same, printer_place arguments conversion (words taken) (by omega)]
      exact ⟨shows_place shows _ _ short, .inl rfl⟩

/-- From a state in step, the pieces print the rest of the expansion. -/
theorem pieces_show (pieces : List Piece) (taken : Nat) (words : Words arguments)
    (shows : Shows hasBuffer limit state text) (inStep : InStep hasBuffer limit state taken pieces)
    (short : text.length + (expansion arguments pieces taken).length < 4294967296)
    (stored : ∀ before after, pieces = before ++ .character :: after → HasValue after →
      hasBuffer = true ∧ text.length + (expansion arguments before taken).length < limit) :
    Shows hasBuffer limit (pieces.foldl (pieceStep arguments hasBuffer limit) state)
      (text ++ expansion arguments pieces taken) := by
  induction pieces generalizing state text taken with
  | nil =>
      rw [expansion, List.append_nil]
      exact shows
  | cons piece pieces ih =>
      rw [expansion, List.length_append] at short
      obtain ⟨shown, later⟩ := piece_shows words shows inStep (by omega) (by
        intro isCharacter value
        exact stored [] pieces (by rw [isCharacter]; rfl) value)
      rw [List.foldl_cons, expansion, ← List.append_assoc]
      refine ih (taken + piece.takes) shown later (by rw [List.length_append]; omega) ?_
      intro before after split value
      have here := stored (piece :: before) after (by rw [split, List.cons_append]) value
      rw [expansion, List.length_append] at here
      rw [List.length_append]
      exact ⟨here.1, by omega⟩

theorem limit_of_eq (n : Nat) : limitOf n = n - 1 := by
  unfold limitOf
  split_ifs <;> omega

/-- Where every `%c` before a value is stored, the output is as it should be. -/
theorem formats_of_stored {n : Nat} {pieces : List Piece} (buffer : Buffer) (words : Words arguments)
    (proper : ∀ piece ∈ pieces, piece.Proper)
    (short : (expansion arguments pieces 0).length < 4294967296)
    (stored : CharactersStored arguments hasBuffer n pieces) :
    Formats arguments hasBuffer n pieces buffer := by
  have start : Shows hasBuffer (n - 1) ⟨buffer, 0, 0⟩ [] :=
    ⟨rfl, fun _ i inside => absurd inside (by rw [List.length_nil]; omega)⟩
  have shown := pieces_show pieces 0 words start (.inl rfl) (by rw [List.length_nil]; omega)
    (by
      intro before after split value
      rw [List.length_nil, Nat.zero_add]
      exact stored before after split value)
  rw [List.nil_append] at shown
  have loop := loop_pieces arguments hasBuffer (n - 1) pieces proper _ (pieces_le_bytes pieces) ⟨buffer, 0, 0⟩
  have final : (if (expansion arguments pieces 0).length < n - 1 then
      (expansion arguments pieces 0).length else n - 1) =
      min (expansion arguments pieces 0).length (n - 1) := by
    split_ifs <;> omega
  unfold Formats vsnprintf
  dsimp only
  rw [limit_of_eq, loop]
  dsimp only
  rw [shown.long, final]
  split_ifs with writes
  · refine ⟨_, rfl, fun _ _ => ⟨?_, Function.update_self ..⟩⟩
    intro i inside
    rw [Function.update_of_ne (by omega)]
    exact shown.stored writes.1 i inside
  · exact ⟨_, rfl, fun here positive => absurd ⟨here, positive⟩ writes⟩

end Storing

section Probing

/-- Arguments that are all one but for one of them. -/
def probe (word place : Nat) : Arguments where
  words i := if i = place then word else 1
  strings word := if word = 1 then [] else [ch 'a']
  floatText _ _ _ := []

/-- The arguments that belong to some pieces. -/
def takenBy : List Piece → Nat
  | [] => 0
  | piece :: pieces => piece.takes + takenBy pieces

/-- The arguments that some pieces take when there is no buffer. -/
def takenBlind : List Piece → Nat
  | [] => 0
  | .value _ :: pieces => 1 + takenBlind pieces
  | _ :: pieces => takenBlind pieces

variable {word other place : Nat}

theorem probe_same (word other : Nat) {i : Nat} (differ : i ≠ place) :
    (probe word place).words i = (probe other place).words i :=
  (if_neg differ).trans (if_neg differ).symm

theorem taken_by_append (first second : List Piece) :
    takenBy (first ++ second) = takenBy first + takenBy second := by
  induction first with
  | nil => exact (Nat.zero_add _).symm
  | cons piece first ih =>
      rw [List.cons_append, takenBy, takenBy, ih, Nat.add_assoc]

theorem taken_blind_append (first second : List Piece) :
    takenBlind (first ++ second) = takenBlind first + takenBlind second := by
  induction first with
  | nil => exact (Nat.zero_add _).symm
  | cons piece first ih =>
      rw [List.cons_append]
      cases piece with
      | value conversion => rw [takenBlind, takenBlind, ih, Nat.add_assoc]
      | ordinary c => exact ih
      | percent => exact ih
      | character => exact ih

theorem taken_blind_le (pieces : List Piece) : takenBlind pieces ≤ takenBy pieces := by
  induction pieces with
  | nil => exact Nat.le_refl _
  | cons piece pieces ih =>
      cases piece with
      | value conversion => exact Nat.add_le_add_left ih 1
      | ordinary c => exact Nat.le_trans ih (Nat.le_add_left _ _)
      | percent => exact Nat.le_trans ih (Nat.le_add_left _ _)
      | character => exact Nat.le_trans ih (Nat.le_add_left _ _)

theorem taken_blind_none {pieces : List Piece} (none : ¬ HasValue pieces) : takenBlind pieces = 0 := by
  induction pieces with
  | nil => rfl
  | cons piece pieces ih =>
      have rest := ih fun later => none (has_value_cons later)
      cases piece with
      | value conversion => exact absurd ⟨conversion, List.mem_cons_self⟩ none
      | ordinary c => exact rest
      | percent => exact rest
      | character => exact rest

theorem expansion_append (arguments : Arguments) (first second : List Piece) (taken : Nat) :
    expansion arguments (first ++ second) taken =
      expansion arguments first taken ++ expansion arguments second (taken + takenBy first) := by
  induction first generalizing taken with
  | nil => rfl
  | cons piece first ih =>
      rw [List.cons_append, expansion, ih, expansion, List.append_assoc, takenBy, Nat.add_assoc]

theorem piece_text_probe (piece : Piece) (first word other place : Nat) :
    pieceText (probe word place) first piece = pieceText (probe other place) first piece := by
  cases piece with
  | value conversion => cases conversion <;> rfl
  | ordinary c => rfl
  | percent => rfl
  | character => rfl

/-- Pieces that do not reach the odd argument expand to the same. -/
theorem expansion_probe (pieces : List Piece) (taken other : Nat)
    (apart : place < taken ∨ taken + takenBy pieces ≤ place) :
    expansion (probe word place) pieces taken = expansion (probe other place) pieces taken := by
  induction pieces generalizing taken with
  | nil => rfl
  | cons piece pieces ih =>
      rw [takenBy] at apart
      rw [expansion, expansion, ih (taken + piece.takes) (by omega)]
      congr 1
      by_cases here : taken = place
      · -- only a piece that takes no argument stands there
        cases piece with
        | value conversion =>
            rw [Piece.takes] at apart
            omega
        | character =>
            rw [Piece.takes] at apart
            omega
        | ordinary c => rfl
        | percent => rfl
      · rw [probe_same word other here]
        exact piece_text_probe piece _ word other place

/-- Without a buffer, the pieces do not look further than the values they print. -/
theorem blind_probe (limit : Nat) (pieces : List Piece) (state : FormatState)
    (apart : state.taken + takenBlind pieces ≤ place) :
    pieces.foldl (pieceStep (probe word place) false limit) state =
      pieces.foldl (pieceStep (probe other place) false limit) state := by
  induction pieces generalizing state with
  | nil => rfl
  | cons piece pieces ih =>
      have lost : ¬ Active false limit state := fun active => Bool.false_ne_true active.1
      rw [List.foldl_cons, List.foldl_cons]
      cases piece with
      | value conversion =>
          rw [takenBlind] at apart
          have same := probe_same word other (show state.taken ≠ place by omega)
          have step : pieceStep (probe word place) false limit state (.value conversion) =
              pieceStep (probe other place) false limit state (.value conversion) := by
            rw [pieceStep, same, pieceStep]
            cases conversion <;> rfl
          rw [step]
          exact ih _ (by change state.taken + 1 + _ ≤ _; omega)
      | character =>
          rw [pieceStep, pieceStep, character_lost lost 0, character_lost lost 0]
          exact ih _ (by rw [byte_taken]; exact apart)
      | ordinary c => exact ih _ (by rw [pieceStep, byte_taken]; exact apart)
      | percent => exact ih _ (by rw [pieceStep, byte_taken]; exact apart)

theorem number_text_pushed {base val : Nat} (digit : Nat → UInt8) (large : 1 < base)
    (word : val < 4294967296) (positive : val ≠ 0) :
    numberText base digit val = pushDigits base digit 32 val [] := by
  rw [numberText, if_neg positive, word_digits digit large word]

/-- One is a short text in every conversion. -/
theorem value_one (conversion : Conversion) : (valueText (probe word place) 1 conversion).length ≤ 3 := by
  have hex := number_text_pushed hexDigit (by decide : 1 < 16) (by decide : 1 < 4294967296) (by decide)
  have decimal := number_text_pushed decimalDigit (by decide : 1 < 10) (by decide : 1 < 4294967296) (by decide)
  have binary := number_text_pushed decimalDigit (by decide : 1 < 2) (by decide : 1 < 4294967296) (by decide)
  cases conversion with
  | unsigned =>
      rw [valueText, decimal]
      decide
  | int =>
      rw [valueText, if_pos (by decide), decimal]
      decide
  | hex =>
      rw [valueText, hex]
      decide
  | pointer =>
      rw [valueText, hex]
      decide
  | binary =>
      rw [valueText, binary]
      decide
  | string => exact Nat.zero_le 3

/-- The greatest word is a longer one. -/
theorem value_full (conversion : Conversion) :
    (valueText (probe word place) 1 conversion).length <
      (valueText (probe word place) 0xFFFFFFFF conversion).length ∧
    (valueText (probe word place) 0xFFFFFFFF conversion).length ≤ 32 := by
  have hex := number_text_pushed hexDigit (by decide : 1 < 16) (by decide : 1 < 4294967296) (by decide)
  have decimal := number_text_pushed decimalDigit (by decide : 1 < 10) (by decide : 1 < 4294967296) (by decide)
  have binary := number_text_pushed decimalDigit (by decide : 1 < 2) (by decide : 1 < 4294967296) (by decide)
  have fullHex := number_text_pushed hexDigit (by decide : 1 < 16)
    (by decide : 0xFFFFFFFF < 4294967296) (by decide)
  have fullDecimal := number_text_pushed decimalDigit (by decide : 1 < 10)
    (by decide : 0xFFFFFFFF < 4294967296) (by decide)
  have fullBinary := number_text_pushed decimalDigit (by decide : 1 < 2)
    (by decide : 0xFFFFFFFF < 4294967296) (by decide)
  cases conversion with
  | unsigned =>
      rw [valueText, valueText, decimal, fullDecimal]
      decide
  | int =>
      rw [valueText, valueText, if_pos (by decide), if_neg (by decide),
        show 4294967296 - 0xFFFFFFFF = 1 from rfl, decimal]
      decide
  | hex =>
      rw [valueText, valueText, hex, fullHex]
      decide
  | pointer =>
      rw [valueText, valueText, hex, fullHex]
      decide
  | binary =>
      rw [valueText, valueText, binary, fullBinary]
      decide
  | string => exact ⟨Nat.zero_lt_one, Nat.le_add_left 1 31⟩

theorem probe_words (bounded : word < 4294967296) : Words (probe word place) := by
  intro taken
  unfold probe
  dsimp only
  split_ifs
  · exact bounded
  · decide

/-- All ones expand to three bytes for two of the format at most. -/
theorem expansion_ones (pieces : List Piece) (taken : Nat) :
    2 * (expansion (probe 1 place) pieces taken).length ≤ 3 * (formatOf pieces).length := by
  have one : ∀ i, (probe 1 place).words i = 1 := by
    intro i
    change (if i = place then 1 else 1) = 1
    rw [ite_self]
  induction pieces generalizing taken with
  | nil => exact Nat.le_refl _
  | cons piece pieces ih =>
      have later := ih (taken + piece.takes)
      have bytes : (formatOf (piece :: pieces)).length = piece.bytes.length + (formatOf pieces).length :=
        List.length_append
      have here : 2 * (pieceText (probe 1 place) 1 piece).length ≤ 3 * piece.bytes.length := by
        cases piece with
        | value conversion =>
            have short := @value_one 1 place conversion
            change 2 * (valueText (probe 1 place) 1 conversion).length ≤ 6
            omega
        | ordinary c => exact (by decide : 2 * 1 ≤ 3 * 1)
        | percent => exact (by decide : 2 * 1 ≤ 3 * 2)
        | character => exact (by decide : 2 * 1 ≤ 3 * 2)
      rw [expansion, one, List.length_append, bytes]
      omega

/-- The last value among some pieces. -/
theorem last_value {pieces : List Piece} (value : HasValue pieces) :
    ∃ front conversion rear, pieces = front ++ .value conversion :: rear ∧ ¬ HasValue rear := by
  induction pieces with
  | nil =>
      obtain ⟨conversion, member⟩ := value
      cases member
  | cons piece pieces ih =>
      by_cases later : HasValue pieces
      · obtain ⟨front, conversion, rear, split, none⟩ := ih later
        exact ⟨piece :: front, conversion, rear, by rw [split, List.cons_append], none⟩
      · obtain ⟨conversion, member⟩ := value
        rcases List.mem_cons.1 member with here | there
        · exact ⟨[], conversion, pieces, by rw [← here]; rfl, later⟩
        · exact absurd ⟨conversion, there⟩ later

/-- A format with a `%c` before a value prints it wrongly into no buffer, for some arguments. -/
theorem formats_fails {pieces : List Piece} (proper : ∀ piece ∈ pieces, piece.Proper)
    (small : (formatOf pieces).length < 2147483648) (mixed : CharacterBeforeValue pieces) (buffer : Buffer) :
    ∃ arguments, Words arguments ∧ (expansion arguments pieces 0).length < 4294967296 ∧
      ¬ Formats arguments false 0 pieces buffer := by
  obtain ⟨before, after, split, value⟩ := mixed
  obtain ⟨front, conversion, rear, lastSplit, none⟩ := last_value value
  obtain ⟨first, isFirst⟩ : ∃ first, first = before ++ .character :: front := ⟨_, rfl⟩
  have whole : pieces = first ++ .value conversion :: rear := by
    rw [split, lastSplit, isFirst, List.append_assoc]
    rfl
  -- the value's own argument, which is beyond those that are taken without a buffer
  obtain ⟨place, isPlace⟩ : ∃ place, place = takenBy first := ⟨_, rfl⟩
  have blind : takenBlind pieces ≤ place := by
    have beforeLe := taken_blind_le before
    have frontLe := taken_blind_le front
    rw [isPlace, whole, taken_blind_append, takenBlind, taken_blind_none none, isFirst,
      taken_blind_append, taken_by_append, takenBlind, takenBy, Piece.takes]
    · omega
    · exact fun _ same => nomatch same
  have texts : ∀ word, (expansion (probe word place) pieces 0).length =
      (expansion (probe 1 place) first 0).length + (valueText (probe 1 place) word conversion).length +
        (expansion (probe 1 place) rear (place + 1)).length := by
    intro word
    have own : (probe word place).words place = word := if_pos rfl
    rw [whole, expansion_append, Nat.zero_add, ← isPlace, expansion, own, List.length_append, List.length_append,
      expansion_probe first 0 1 (.inr (by omega)),
      expansion_probe rear _ 1 (.inl (by rw [Piece.takes]; omega)), Nat.add_assoc]
    have same := piece_text_probe (.value conversion) word word 1 place
    rw [same]
    rfl
  have ones := @expansion_ones place pieces 0
  have longer := @value_full 1 place conversion
  have shortText := texts 1
  have longText := texts 0xFFFFFFFF
  have sameRun : vsnprintf (probe 0xFFFFFFFF place) false 0 (formatOf pieces) buffer =
      vsnprintf (probe 1 place) false 0 (formatOf pieces) buffer := by
    unfold vsnprintf
    dsimp only
    rw [loop_pieces _ _ _ pieces proper _ (pieces_le_bytes pieces),
      loop_pieces _ _ _ pieces proper _ (pieces_le_bytes pieces),
      blind_probe _ pieces ⟨buffer, 0, 0⟩ (by rw [Nat.zero_add]; exact blind)]
  by_cases right : Formats (probe 1 place) false 0 pieces buffer
  · refine ⟨probe 0xFFFFFFFF place, probe_words (by decide), by omega, ?_⟩
    rintro ⟨_, returned, _⟩
    obtain ⟨_, expected, _⟩ := right
    rw [sameRun, expected] at returned
    have same := (Prod.mk.inj (Option.some.inj returned)).1
    omega
  · exact ⟨probe 1 place, probe_words (by decide), by omega, right⟩

end Probing

section Results

/-- Output is right whenever every `%c` before a value is stored; and a format is printed right for all
arguments, buffers and sizes exactly if it has no `%c` before a value. -/
theorem vsnprintf_formats_iff (pieces : List Piece) (proper : ∀ piece ∈ pieces, piece.Proper) :
    (∀ arguments hasBuffer n buffer, Words arguments → (expansion arguments pieces 0).length < 4294967296 →
      CharactersStored arguments hasBuffer n pieces → Formats arguments hasBuffer n pieces buffer) ∧
    ((formatOf pieces).length < 2147483648 →
      ((∀ arguments hasBuffer n buffer, Words arguments → (expansion arguments pieces 0).length < 4294967296 →
        Formats arguments hasBuffer n pieces buffer) ↔ ¬ CharacterBeforeValue pieces)) := by
  refine ⟨fun _ _ _ buffer words short stored => formats_of_stored buffer words proper short stored, ?_⟩
  intro small
  constructor
  · intro always mixed
    obtain ⟨arguments, words, short, wrong⟩ := formats_fails proper small mixed fun _ => 0
    exact wrong (always arguments false 0 _ words short)
  · intro none arguments hasBuffer n buffer words short
    apply formats_of_stored buffer words proper short
    intro before after split value
    exact absurd ⟨before, after, split, value⟩ none

/-- The prefix of a log message, `<%s>: `, sized without a buffer. -/
theorem vsnprintf_formats_log : Formats ⟨fun _ => 1, fun _ => [ch 'I', ch 'N'], fun _ _ _ => []⟩ false 0
    [.ordinary (ch '<'), .value .string, .ordinary (ch '>'), .ordinary (ch ':'), .ordinary (ch ' ')]
    fun _ => 0 := by
  refine (vsnprintf_formats_iff _ (by decide)).1 _ _ _ _ (fun _ => (by decide : 1 < 4294967296)) (by decide) ?_
  intro before after split _
  have member : Piece.character ∈ before ++ .character :: after :=
    List.mem_append_right _ List.mem_cons_self
  rw [← split] at member
  exact absurd member (by decide)

/-- `"%c%u"` without a buffer prints the character's code. -/
theorem vsnprintf_skips_argument : ¬ ∀ (pieces : List Piece) (arguments : Arguments) (hasBuffer : Bool)
    (n : Nat) (buffer : Buffer), (∀ piece ∈ pieces, piece.Proper) → Words arguments →
    (expansion arguments pieces 0).length < 4294967296 → Formats arguments hasBuffer n pieces buffer := by
  intro always
  have text : numberText 10 decimalDigit 1234 = pushDigits 10 decimalDigit 32 1234 [] :=
    number_text_pushed decimalDigit (by decide) (by decide) (by decide)
  have long : (expansion ⟨fun i => if i = 0 then 97 else 1234, fun _ => [], fun _ _ _ => []⟩
      [.character, .value .unsigned] 0).length = 5 := by
    change ([UInt8.ofNat 97] ++ (numberText 10 decimalDigit 1234 ++ [])).length = 5
    rw [text]
    decide
  have words : Words ⟨fun i => if i = 0 then 97 else 1234, fun _ => [], fun _ _ _ => []⟩ := by
    intro taken
    dsimp only
    split_ifs <;> decide
  obtain ⟨after, returned, _⟩ := always [.character, .value .unsigned]
    ⟨fun i => if i = 0 then 97 else 1234, fun _ => [], fun _ _ _ => []⟩ false 0 (fun _ => 0) (by decide)
    words (by rw [long]; decide)
  have blind : (vsnprintf ⟨fun i => if i = 0 then 97 else 1234, fun _ => [], fun _ _ _ => []⟩ false 0
      (formatOf [.character, .value .unsigned]) fun _ => 0).map Prod.fst = some 3 := by decide
  rw [returned, long] at blind
  have same : 5 = 3 := Option.some.inj blind
  exact absurd same (by decide)

end Results

end ParadiseOS.FormatRuns
