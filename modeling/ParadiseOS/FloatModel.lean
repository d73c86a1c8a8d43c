import ParadiseOS.NumberTexts

/-!
# Printed floating-point numbers

`snprint_float` over any arithmetic of its values. It builds its text in a buffer of 40 bytes
with two calls of `snprint_int`, and `snprint_string` prints that text.
-/

namespace ParadiseOS.FloatModel

open FormatModel FormatRuns MachineWord NumberTexts

set_option autoImplicit false

section Model

/-- What the function does with values of the type `f64`. -/
structure FloatOps (Value : Type) where
  /-- `val != val`. -/
  isNan : Value → Bool
  /-- `val == INFINITY || val == -INFINITY`. -/
  isInfinite : Value → Bool
  /-- `val < 0`. -/
  negative : Value → Bool
  neg : Value → Value
  /-- The conversion to `u32`. -/
  toWord : Value → Nat
  ofWord : Nat → Value
  sub : Value → Value → Value
  timesTen : Value → Value
  plusHalf : Value → Value

/-- `sizeof(temp_buf)`. -/
def tempSize : Nat := 40

/-- The temporary buffer and the pointer into it. -/
structure Temp where
  p : Nat
  bytes : Buffer

/-- `*p++ = c`, and nothing where that is past the end of the buffer. -/
def putTemp (temp : Temp) (c : UInt8) : Option Temp :=
  if temp.p < tempSize then some ⟨temp.p + 1, Function.update temp.bytes temp.p c⟩ else none

def putText (temp : Temp) : List UInt8 → Option Temp
  | [] => some temp
  | c :: text => do
      let temp ← putTemp temp c
      putText temp text

/-- `snprint_int` of an unsigned word to the rest of the buffer, and `p += len`. -/
def putInt (temp : Temp) (word : Nat) : Temp :=
  let (len, bytes) := snprintInt word false (tempSize - temp.p) temp.bytes (some temp.p)
  ⟨temp.p + len, bytes⟩

variable {Value : Type}

/-- The part of `snprint_float` that fills the temporary buffer, whatever was in it. -/
def floatTemp (ops : FloatOps Value) (val : Value) (precision : Nat) (junk : Buffer) : Option Temp := do
  let temp ← putText ⟨0, junk⟩ (if ops.negative val then [ch '-'] else [])
  if ops.isInfinite val then
    let temp ← putText temp ("inf".toList.map ch)
    putTemp temp 0
  else
    let val := if ops.negative val then ops.neg val else val
    let integerPart := ops.toWord val
    let temp := putInt temp integerPart
    if precision > 0 then
      let temp ← putTemp temp (ch '.')
      let fracPart := ops.timesTen^[precision] (ops.sub val (ops.ofWord integerPart))
      putTemp (putInt temp (ops.toWord (ops.plusHalf fracPart))) 0
    else putTemp temp 0

/-- The bytes of a buffer from an offset on, up to a NUL or so many of them. -/
def readText (bytes : Buffer) (start : Nat) : Nat → List UInt8
  | 0 => []
  | count + 1 => if bytes start = 0 then [] else bytes start :: readText bytes (start + 1) count

def snprintFloat (ops : FloatOps Value) (junk : Buffer) (val : Value) (precision n : Nat) (buffer : Buffer)
    (pos : Option Nat) : Option (Nat × Buffer) :=
  if ops.isNan val then some (snprintString ("nan".toList.map ch) n buffer pos)
  else do
    let temp ← floatTemp ops val precision junk
    pure (snprintString (readText temp.bytes 0 tempSize) n buffer pos)

end Model

section Texts

variable {temp : Temp} {text : List UInt8} {c : UInt8} {word : Nat}

/-- The buffer holds a text, up to the pointer. -/
structure Writes (temp : Temp) (text : List UInt8) : Prop where
  place : temp.p = text.length
  bytes : ∀ i < text.length, text[i]? = some (temp.bytes i)

theorem writes_nothing (junk : Buffer) : Writes ⟨0, junk⟩ [] := ⟨rfl, fun _ inside => absurd inside (Nat.not_lt_zero _)⟩

/-- A text that is stored at the pointer goes behind what is there. -/
theorem writes_append (writes : Writes temp text) (more : List UInt8) :
    Writes ⟨temp.p + more.length, writeAt temp.bytes temp.p more⟩ (text ++ more) := by
  refine ⟨by rw [List.length_append, writes.place], ?_⟩
  intro i inside
  rw [List.length_append] at inside
  by_cases early : i < text.length
  · have kept : writeAt temp.bytes temp.p more i = temp.bytes i :=
      write_at_before more (by rw [writes.place]; exact early)
    rw [List.getElem?_append_left early, writes.bytes i early]
    exact congrArg some kept.symm
  · have stored := @write_at_inside temp.bytes more temp.p (i - text.length) (by omega)
    rw [List.getElem?_append_right (by omega), stored]
    have same : temp.p + (i - text.length) = i := by
      rw [writes.place]
      omega
    rw [same]

theorem put_temp_writes (writes : Writes temp text) (room : text.length < tempSize) (c : UInt8) :
    ∃ next, putTemp temp c = some next ∧ Writes next (text ++ [c]) := by
  refine ⟨⟨temp.p + 1, Function.update temp.bytes temp.p c⟩, ?_, writes_append writes [c]⟩
  rw [putTemp, if_pos (by rw [writes.place]; exact room)]

theorem put_text_writes (writes : Writes temp text) (more : List UInt8)
    (room : text.length + more.length ≤ tempSize) :
    ∃ next, putText temp more = some next ∧ Writes next (text ++ more) := by
  induction more generalizing temp text with
  | nil => exact ⟨temp, rfl, by rwa [List.append_nil]⟩
  | cons c more ih =>
      rw [List.length_cons] at room
      obtain ⟨first, put, one⟩ := put_temp_writes writes (by omega) c
      obtain ⟨next, rest, all⟩ := ih one (by rw [List.length_append, List.length_singleton]; omega)
      refine ⟨next, ?_, ?_⟩
      · rw [putText, put]
        exact rest
      · rwa [List.append_assoc] at all

/-- The number of digits of a number below a power of the base. -/
theorem number_text_le {base val count : Nat} (digit : Nat → UInt8) (large : 1 < base) (positive : 0 < count)
    (bounded : val < base ^ count) : (numberText base digit val).length ≤ count := by
  rw [numberText]
  split_ifs
  · exact positive
  · rw [List.length_map, List.length_reverse]
    exact (Nat.digits_length_le_iff large val).2 bounded

theorem decimal_text_le (bounded : word < 4294967296) : (numberText 10 decimalDigit word).length ≤ 10 :=
  number_text_le decimalDigit (by decide) (by decide) (bounded.trans (by decide))

theorem put_int_writes (writes : Writes temp text) (bounded : word < 4294967296)
    (room : text.length + (numberText 10 decimalDigit word).length ≤ tempSize) :
    Writes (putInt temp word) (text ++ numberText 10 decimalDigit word) := by
  have printed := @unsigned_place temp.bytes (some temp.p) (tempSize - temp.p) _ bounded
  have whole : (numberText 10 decimalDigit word).take (tempSize - temp.p) = numberText 10 decimalDigit word := by
    apply List.take_of_length_le
    rw [writes.place]
    omega
  rw [place, whole] at printed
  rw [putInt, printed]
  exact writes_append writes _

/-- The text is read back up to its NUL. -/
theorem read_text_writes (writes : Writes temp (text ++ [0])) (proper : ∀ c ∈ text, c ≠ 0)
    (room : text.length < tempSize) : readText temp.bytes 0 tempSize = text := by
  have bytes := writes.bytes
  have step : ∀ (front back : List UInt8) (count : Nat), text = front ++ back → back.length < count →
      readText temp.bytes front.length count = back := by
    intro front back
    induction back generalizing front with
    | nil =>
        intro count split enough
        obtain ⟨rounds, rfl⟩ : ∃ rounds, count = rounds + 1 := ⟨count - 1, by omega⟩
        rw [List.append_nil] at split
        have nul := bytes front.length (by rw [List.length_append, List.length_singleton, split]; omega)
        rw [split, List.getElem?_append_right le_rfl, Nat.sub_self] at nul
        rw [readText, if_pos (Option.some.inj nul).symm]
    | cons c back ih =>
        intro count split enough
        rw [List.length_cons] at enough
        obtain ⟨rounds, rfl⟩ : ∃ rounds, count = rounds + 1 := ⟨count - 1, by omega⟩
        have long : front.length < text.length := by
          rw [split, List.length_append, List.length_cons]
          omega
        have here := bytes front.length (by rw [List.length_append]; omega)
        rw [List.getElem?_append_left long, split, List.getElem?_append_right le_rfl, Nat.sub_self] at here
        have isByte : temp.bytes front.length = c := (Option.some.inj here).symm
        have member : c ∈ text := split ▸ List.mem_append_right _ List.mem_cons_self
        have later := ih (front ++ [c]) rounds (by rw [split, List.append_assoc]; rfl) (by omega)
        rw [List.length_append, List.length_singleton] at later
        rw [readText, isByte, if_neg (proper c member), later]
  exact step [] text tempSize rfl room

end Texts

section Fills

variable {Value : Type} {ops : FloatOps Value} {val : Value} {precision : Nat}

def signText (ops : FloatOps Value) (val : Value) : List UInt8 := if ops.negative val then [ch '-'] else []

/-- The value without its sign. -/
def magnitude (ops : FloatOps Value) (val : Value) : Value := if ops.negative val then ops.neg val else val

/-- The digits behind the point, as a word. -/
def fractionWord (ops : FloatOps Value) (val : Value) (precision : Nat) : Nat :=
  ops.toWord (ops.plusHalf (ops.timesTen^[precision]
    (ops.sub (magnitude ops val) (ops.ofWord (ops.toWord (magnitude ops val))))))

/-- The text that the temporary buffer gets. -/
def floatText (ops : FloatOps Value) (val : Value) (precision : Nat) : List UInt8 :=
  signText ops val ++
    if ops.isInfinite val then "inf".toList.map ch
    else numberText 10 decimalDigit (ops.toWord (magnitude ops val)) ++
      if precision > 0 then ch '.' :: numberText 10 decimalDigit (fractionWord ops val precision) else []

theorem sign_text_le (ops : FloatOps Value) (val : Value) : (signText ops val).length ≤ 1 := by
  unfold signText
  split_ifs
  · exact le_rfl
  · exact Nat.zero_le 1

theorem float_text_le (words : ∀ other, ops.toWord other < 4294967296) (val : Value) (precision : Nat) :
    (floatText ops val precision).length ≤ 22 := by
  have sign := sign_text_le ops val
  have whole := decimal_text_le (words (magnitude ops val))
  have fraction := @decimal_text_le (fractionWord ops val precision) (words _)
  unfold floatText
  rw [List.length_append]
  split_ifs
  · have three : ("inf".toList.map ch).length = 3 := by decide
    omega
  · rw [List.length_append, List.length_cons]
    omega
  · rw [List.append_nil]
    omega

/-- The function fills its buffer with that text and a NUL, and stays inside of it. -/
theorem float_temp_writes (words : ∀ other, ops.toWord other < 4294967296) (val : Value) (precision : Nat)
    (junk : Buffer) :
    ∃ temp, floatTemp ops val precision junk = some temp ∧ Writes temp (floatText ops val precision ++ [0]) := by
  have sign := sign_text_le ops val
  have whole := decimal_text_le (words (magnitude ops val))
  have fraction := @decimal_text_le (fractionWord ops val precision) (words _)
  have size : tempSize = 40 := rfl
  obtain ⟨signed, putSign, writesSign⟩ := put_text_writes (writes_nothing junk) (signText ops val)
    (by rw [List.length_nil]; omega)
  rw [List.nil_append] at writesSign
  unfold floatTemp floatText
  change ∃ temp, ((putText ⟨0, junk⟩ (signText ops val)).bind _) = some temp ∧ _
  rw [putSign, Option.bind_some]
  by_cases infinite : ops.isInfinite val = true
  · rw [if_pos infinite, if_pos infinite]
    have three : ("inf".toList.map ch).length = 3 := by decide
    obtain ⟨text, putInf, writesInf⟩ := put_text_writes writesSign ("inf".toList.map ch) (by omega)
    obtain ⟨temp, putNul, writesNul⟩ := put_temp_writes writesInf (by rw [List.length_append]; omega) 0
    exact ⟨temp, by rw [putInf]; exact putNul, writesNul⟩
  · rw [if_neg infinite, if_neg infinite]
    have writesWhole := put_int_writes writesSign (words (magnitude ops val)) (by omega)
    by_cases positive : precision > 0
    · rw [if_pos positive, if_pos positive]
      obtain ⟨dotted, putDot, writesDot⟩ := put_temp_writes writesWhole
        (by rw [List.length_append]; omega) (ch '.')
      have writesAll := @put_int_writes _ _ (fractionWord ops val precision) writesDot (words _)
        (by rw [List.length_append, List.length_append, List.length_singleton]; omega)
      obtain ⟨temp, putNul, writesNul⟩ := put_temp_writes writesAll
        (by rw [List.length_append, List.length_append, List.length_append, List.length_singleton]; omega) 0
      refine ⟨temp, ?_, ?_⟩
      · change (putTemp (putInt signed (ops.toWord (magnitude ops val))) (ch '.')).bind _ = _
        rw [putDot, Option.bind_some]
        exact putNul
      · simpa only [List.append_assoc, List.singleton_append] using writesNul
    · rw [if_neg positive, if_neg positive, List.append_nil]
      obtain ⟨temp, putNul, writesNul⟩ := put_temp_writes writesWhole (by rw [List.length_append]; omega) 0
      exact ⟨temp, putNul, writesNul⟩

end Fills

end ParadiseOS.FloatModel
