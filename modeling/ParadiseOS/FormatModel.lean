import ParadiseOS.MachineWord
import Mathlib.Data.Nat.Digits.Defs
import Mathlib.Logic.Function.Basic

/-!
# Formatted output

`vsnprintf` of `lib/strings.c` and the functions that print a value. A buffer is a
map from offsets to bytes, apart from the format and from the strings it prints. The
functions get `none` where the source passes NULL, so that they print nothing and
only return a length. `floatText` stands for the text that `snprint_float` puts into
its temporary buffer.
-/

namespace ParadiseOS.FormatModel

open MachineWord

set_option autoImplicit false

abbrev Buffer := Nat → UInt8

def ch (c : Char) : UInt8 := UInt8.ofNat c.toNat

section Values

def hexDigits : List UInt8 := "0123456789ABCDEF".toList.map ch

def hexDigit (digit : Nat) : UInt8 := hexDigits.getD digit 0

def decimalDigit (digit : Nat) : UInt8 := UInt8.ofNat (digit + (ch '0').toNat)

def nullText : List UInt8 := "(null)".toList.map ch

/-- The loop of `snprint_string` from a length on. -/
def snprintStringFrom (buffer : Buffer) (pos : Option Nat) (n len : Nat) : List UInt8 → Nat × Buffer
  | [] => (len, buffer)
  | c :: rest =>
      let buffer := match pos with
        | some start => if len < n then Function.update buffer (start + len) c else buffer
        | none => buffer
      snprintStringFrom buffer pos n (u32 (len + 1)) rest

/-- `snprint_string` of the bytes before the NUL. -/
def snprintString (str : List UInt8) (n : Nat) (buffer : Buffer) (pos : Option Nat) : Nat × Buffer :=
  snprintStringFrom buffer pos n 0 str

/-- The loops that fill a temporary buffer with digits. The last digit pushed comes first; a word
has at most 32. -/
def pushDigits (base : Nat) (digit : Nat → UInt8) : Nat → Nat → List UInt8 → List UInt8
  | 0, _, temp => temp
  | rounds + 1, val, temp =>
      if val = 0 then temp else pushDigits base digit rounds (val / base) (digit (val % base) :: temp)

/-- The loops that copy the temporary buffer from its end, at most to `n` bytes. -/
def copyTemp (buffer : Buffer) (start n copied : Nat) : List UInt8 → Buffer
  | [] => buffer
  | c :: temp =>
      if copied < n then copyTemp (Function.update buffer (start + copied) c) start n (copied + 1) temp
      else buffer

/-- The end of the functions that print a number: the full length, and what fits. -/
def printTemp (temp : List UInt8) (n : Nat) (buffer : Buffer) (pos : Option Nat) : Nat × Buffer :=
  (temp.length, match pos with
    | some start => copyTemp buffer start n 0 temp
    | none => buffer)

/-- The digit zero, which `snprint_hex` and `snprint_bin` print apart. -/
def printZero (n : Nat) (buffer : Buffer) (pos : Option Nat) : Nat × Buffer :=
  (1, match pos with
    | some start => if 0 < n then Function.update buffer start (ch '0') else buffer
    | none => buffer)

def snprintHex (val n : Nat) (buffer : Buffer) (pos : Option Nat) : Nat × Buffer :=
  if val = 0 then printZero n buffer pos
  else printTemp (pushDigits 16 hexDigit 32 val []) n buffer pos

def snprintPtr (ptr n : Nat) (buffer : Buffer) (pos : Option Nat) : Nat × Buffer :=
  let hexLen := (snprintHex ptr 0xFFFFFFFF buffer none).1
  let fullLen := u32 (2 + hexLen)
  match pos with
  | none => (fullLen, buffer)
  | some start =>
      let (written, buffer) :=
        if 0 < n then (1, Function.update buffer start (ch '0')) else (0, buffer)
      let (written, buffer) :=
        if written < n then (written + 1, Function.update buffer (start + written) (ch 'x'))
        else (written, buffer)
      if written < n then (fullLen, (snprintHex ptr (n - written) buffer (some (start + written))).2)
      else (fullLen, buffer)

def snprintBin (val n : Nat) (buffer : Buffer) (pos : Option Nat) : Nat × Buffer :=
  if val = 0 then printZero n buffer pos
  else printTemp (pushDigits 2 decimalDigit 32 val []) n buffer pos

def snprintInt (val : Nat) (isSigned : Bool) (n : Nat) (buffer : Buffer) (pos : Option Nat) : Nat × Buffer :=
  let isNegative := isSigned && decide (signed32 val < 0)
  let val := if isNegative then sub32 0 val else val
  let temp := if val = 0 then [ch '0'] else pushDigits 10 decimalDigit 32 val []
  let temp := if isNegative then ch '-' :: temp else temp
  printTemp temp n buffer pos

end Values

/-- What the variable arguments lead to. -/
structure Arguments where
  /-- The words of the argument list. -/
  words : Nat → Nat
  /-- The bytes at an address, up to the NUL. -/
  strings : Nat → List UInt8
  floatText : Nat → Nat → Nat → List UInt8

structure FormatState where
  buffer : Buffer
  currentLength : Nat
  /-- The arguments that were taken. -/
  taken : Nat

section Loop

variable (arguments : Arguments) (hasBuffer : Bool) (limit : Nat)

def remaining (state : FormatState) : Nat :=
  if state.currentLength > limit then 0 else limit - state.currentLength

/-- `current_pos`: NULL without a buffer or out of space. -/
def currentPos (state : FormatState) : Option Nat :=
  if hasBuffer ∧ ¬ state.currentLength ≥ limit then some state.currentLength else none

/-- A conversion that takes words of the argument list and prints a segment. -/
def printSegment (state : FormatState) (words : Nat)
    (print : Nat → Buffer → Option Nat → Nat × Buffer) : FormatState :=
  let (segmentLen, buffer) := print (remaining limit state) state.buffer (currentPos hasBuffer limit state)
  { buffer := buffer
    currentLength := u32 (state.currentLength + segmentLen)
    taken := state.taken + words }

/-- A byte is stored if there is a position for it. -/
def putByte (state : FormatState) (c : UInt8) : FormatState :=
  match currentPos hasBuffer limit state with
  | some start =>
      { state with
        buffer := Function.update state.buffer start c
        currentLength := u32 (state.currentLength + 1) }
  | none => { state with currentLength := u32 (state.currentLength + 1) }

/-- The case `'c'`, which takes its argument only where it stores it. -/
def putCharArgument (state : FormatState) : FormatState :=
  match currentPos hasBuffer limit state with
  | some start =>
      { buffer := Function.update state.buffer start (UInt8.ofNat (arguments.words state.taken))
        currentLength := u32 (state.currentLength + 1)
        taken := state.taken + 1 }
  | none => { state with currentLength := u32 (state.currentLength + 1) }

/-- The text of a string argument. -/
def stringText (word : Nat) : List UInt8 := if word = 0 then nullText else arguments.strings word

/-- The cases behind `%`, but for the precision. -/
def convert (state : FormatState) (c : UInt8) : FormatState :=
  let word := arguments.words state.taken
  if c = ch 'u' then printSegment hasBuffer limit state 1 (snprintInt word false)
  else if c = ch 'i' then printSegment hasBuffer limit state 1 (snprintInt word true)
  else if c = ch 'f' then
    printSegment hasBuffer limit state 2
      (snprintString (arguments.floatText word (arguments.words (state.taken + 1)) 6))
  else if c = ch 'x' then printSegment hasBuffer limit state 1 (snprintHex word)
  else if c = ch 'p' then printSegment hasBuffer limit state 1 (snprintPtr word)
  else if c = ch 'b' then printSegment hasBuffer limit state 1 (snprintBin word)
  else if c = ch 's' then printSegment hasBuffer limit state 1 (snprintString (stringText arguments word))
  else if c = ch 'c' then putCharArgument arguments hasBuffer limit state
  else if c = ch '%' then putByte hasBuffer limit state (ch '%')
  else state

def isDigit (c : UInt8) : Bool := ch '0' ≤ c && c ≤ ch '9'

/-- The precision behind `%.`, and the format from the last byte of it on. -/
def readPrecision (precision : Nat) : List UInt8 → Nat × List UInt8
  | [] => (precision, [])
  | c :: rest =>
      if isDigit c then readPrecision (u32 (precision * 10 + (c.toNat - (ch '0').toNat))) rest
      else (precision, c :: rest)

/-- The case `'.'`: only a float has a precision. -/
def convertPrecision (state : FormatState) (rest : List UInt8) : FormatState × List UInt8 :=
  match readPrecision 0 rest with
  | (_, []) => (state, [])
  | (precision, c :: after) =>
      if c = ch 'f' then
        (printSegment hasBuffer limit state 2 (snprintString (arguments.floatText
          (arguments.words state.taken) (arguments.words (state.taken + 1)) precision)), after)
      else (state, c :: after)

/-- The loop over the format, with a round for each of its bytes. A format that ends in `%` makes the
source read on behind its NUL; that is `none`. -/
def formatLoop : Nat → List UInt8 → FormatState → Option FormatState
  | _, [], state => some state
  | 0, _ :: _, _ => none
  | rounds + 1, c :: rest, state =>
      if c = ch '%' then
        match rest with
        | [] => none
        | conversion :: after =>
            if conversion = ch '.' then
              let (state, after) := convertPrecision arguments hasBuffer limit state after
              formatLoop rounds after state
            else formatLoop rounds after (convert arguments hasBuffer limit state conversion)
      else formatLoop rounds rest (putByte hasBuffer limit state c)

end Loop

def limitOf (n : Nat) : Nat := if n ≠ 0 then n - 1 else 0

/-- The length that `vsnprintf` returns, and the buffer it leaves. -/
def vsnprintf (arguments : Arguments) (hasBuffer : Bool) (n : Nat) (fmt : List UInt8) (buffer : Buffer) :
    Option (Nat × Buffer) :=
  let limit := limitOf n
  match formatLoop arguments hasBuffer limit fmt.length fmt ⟨buffer, 0, 0⟩ with
  | none => none
  | some state =>
      if hasBuffer ∧ n > 0 then
        let finalPos := if state.currentLength < limit then state.currentLength else limit
        some (state.currentLength, Function.update state.buffer finalPos 0)
      else some (state.currentLength, state.buffer)

end ParadiseOS.FormatModel
