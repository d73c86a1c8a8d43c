import ParadiseOS.TerminalText

/-!
# The keyboard

`drivers/keyboard/keyboard.c` over the terminal: what a stream of key events leaves on the screen.
A shift counts as held while the last event of either shift key was a press, so that to let go of
one ends the shift also while the other is down.
-/

namespace ParadiseOS.Keyboard

open Terminal TerminalText TextLines

set_option autoImplicit false

section Model

structure KeyboardState where
  capsOn : Bool
  capsLock : Bool

def unknown : UInt8 := 0xFF
def esc : UInt8 := 0xFF - 1
def ctrl : UInt8 := 0xFF - 2
def lshft : UInt8 := 0xFF - 3
def rshft : UInt8 := 0xFF - 4
def alt : UInt8 := 0xFF - 5
def f1 : UInt8 := 0xFF - 6
def f2 : UInt8 := 0xFF - 7
def f3 : UInt8 := 0xFF - 8
def f4 : UInt8 := 0xFF - 9
def f5 : UInt8 := 0xFF - 10
def f6 : UInt8 := 0xFF - 11
def f7 : UInt8 := 0xFF - 12
def f8 : UInt8 := 0xFF - 13
def f9 : UInt8 := 0xFF - 14
def f10 : UInt8 := 0xFF - 15
def f11 : UInt8 := 0xFF - 16
def f12 : UInt8 := 0xFF - 17
def scrlck : UInt8 := 0xFF - 18
def home : UInt8 := 0xFF - 19
def up : UInt8 := 0xFF - 20
def left : UInt8 := 0xFF - 21
def right : UInt8 := 0xFF - 22
def down : UInt8 := 0xFF - 23
def pgup : UInt8 := 0xFF - 24
def pgdown : UInt8 := 0xFF - 25
def endKey : UInt8 := 0xFF - 26
def ins : UInt8 := 0xFF - 27
def del : UInt8 := 0xFF - 28
def caps : UInt8 := 0xFF - 29
def numlck : UInt8 := 0xFF - 32

def ascii (chars : List Char) : List UInt8 := chars.map fun char => UInt8.ofNat char.toNat

/-- The last keys of both tables, from `ALT` on. -/
def lastKeys : List UInt8 :=
  [alt] ++ ascii [' '] ++ [caps, f1, f2, f3, f4, f5, f6, f7, f8, f9, f10, numlck, scrlck, home, up, pgup] ++
    ascii ['-'] ++ [left, unknown, right] ++ ascii ['+'] ++
    [endKey, down, pgdown, ins, del, unknown, unknown, unknown, f11, f12] ++ List.replicate 39 unknown

def lowercase : List UInt8 :=
  [unknown, esc] ++ ascii ['1', '2', '3', '4', '5', '6', '7', '8', '9', '0', '-', '='] ++ [backspace, tab] ++
    ascii ['q', 'w', 'e', 'r', 't', 'y', 'u', 'i', 'o', 'p', '[', ']'] ++ [newline, ctrl] ++
    ascii ['a', 's', 'd', 'f', 'g', 'h', 'j', 'k', 'l', ';'] ++ [0x27, 0x60, lshft, 0x5C] ++
    ascii ['z', 'x', 'c', 'v', 'b', 'n', 'm', ',', '.', '/'] ++ [rshft] ++ ascii ['*'] ++ lastKeys

def uppercase : List UInt8 :=
  [unknown, esc] ++ ascii ['!', '@', '#', '$', '%', '^', '&', '*', '(', ')', '_', '+'] ++ [backspace, tab] ++
    ascii ['Q', 'W', 'E', 'R', 'T', 'Y', 'U', 'I', 'O', 'P'] ++ [0x7B, 0x7D, newline, ctrl] ++
    ascii ['A', 'S', 'D', 'F', 'G', 'H', 'J', 'K', 'L', ':'] ++ [0x22, 0x7E, lshft, 0x7C] ++
    ascii ['Z', 'X', 'C', 'V', 'B', 'N', 'M', '<', '>', '?'] ++ [rshft] ++ ascii ['*'] ++ lastKeys

/-- The keys that the handler ignores: escape, control, alt and the function keys. -/
def ignored : List (BitVec 8) :=
  [0x01, 0x1D, 0x38, 0x3B, 0x3C, 0x3D, 0x3E, 0x3F, 0x40, 0x41, 0x42, 0x43, 0x44, 0x57, 0x58]

def leftShift : BitVec 8 := 0x2A
def rightShift : BitVec 8 := 0x36
def capsKey : BitVec 8 := 0x3A

/-- `keyboardHandler`: the character that goes to `terminal_putchar`, if one does. -/
def keyboardHandler (keyboard : KeyboardState) (data : BitVec 8) : Option UInt8 × KeyboardState :=
  let scanCode := data &&& 0x7F
  let press := data &&& 0x80
  if scanCode ∈ ignored then (none, keyboard)
  else if scanCode = leftShift then
    (none, if press = 0 then { keyboard with capsOn := true } else { keyboard with capsOn := false })
  else if scanCode = rightShift then
    (none, if press = 0 then { keyboard with capsOn := true } else { keyboard with capsOn := false })
  else if scanCode = capsKey then
    (none, if keyboard.capsLock = false ∧ press = 0 then { keyboard with capsLock := true }
      else if keyboard.capsLock = true ∧ press = 0 then { keyboard with capsLock := false }
      else keyboard)
  else if press = 0 then
    if keyboard.capsOn ∨ keyboard.capsLock then (some (uppercase.getD scanCode.toNat unknown), keyboard)
    else (some (lowercase.getD scanCode.toNat unknown), keyboard)
  else (none, keyboard)

def initKeyboard : KeyboardState := ⟨false, false⟩

/-- One interrupt of the keyboard. -/
def keyboardStep (state : KeyboardState × TerminalState) (data : BitVec 8) : KeyboardState × TerminalState :=
  ((keyboardHandler state.1 data).2, terminalRun state.2 (keyboardHandler state.1 data).1.toList)

def keyboardRun (state : KeyboardState × TerminalState) (events : List (BitVec 8)) : KeyboardState × TerminalState :=
  events.foldl keyboardStep state

end Model

section Statement

def isShift (data : BitVec 8) : Bool := data &&& 0x7F = leftShift || data &&& 0x7F = rightShift

/-- The last event of a shift key was a press. -/
def shiftHeld (past : List (BitVec 8)) : Bool :=
  match (past.filter isShift).getLast? with
  | some data => data &&& 0x80 = 0
  | none => false

/-- The key that locks was pressed an odd number of times. -/
def locked (past : List (BitVec 8)) : Bool := past.count capsKey % 2 = 1

def Prints (data : BitVec 8) : Prop :=
  data &&& 0x80 = 0 ∧ data &&& 0x7F ∉ ignored ∧ isShift data = false ∧ data &&& 0x7F ≠ capsKey

instance (data : BitVec 8) : Decidable (Prints data) :=
  inferInstanceAs (Decidable (data &&& 0x80 = 0 ∧ data &&& 0x7F ∉ ignored ∧ isShift data = false ∧
    data &&& 0x7F ≠ capsKey))

/-- The character of an event, from the table that its past selects. -/
def character (past : List (BitVec 8)) (data : BitVec 8) : Option UInt8 :=
  if Prints data then
    some ((if shiftHeld past || locked past then uppercase else lowercase).getD (data &&& 0x7F).toNat unknown)
  else none

/-- The text that events type after a past. -/
def typed (past : List (BitVec 8)) : List (BitVec 8) → List UInt8
  | [] => []
  | data :: rest => (character past data).toList ++ typed (past ++ [data]) rest

/-- The keyboard's variables tell its past. -/
structure Follows (keyboard : KeyboardState) (past : List (BitVec 8)) : Prop where
  capsOn : keyboard.capsOn = shiftHeld past
  capsLock : keyboard.capsLock = locked past

end Statement

section Steps

variable {keyboard : KeyboardState} {past : List (BitVec 8)} {data : BitVec 8}

/-- Every scan code has its entry in both tables. -/
theorem tables_cover (data : BitVec 8) :
    (data &&& 0x7F).toNat < lowercase.length ∧ (data &&& 0x7F).toNat < uppercase.length := by
  have sizes : lowercase.length = 128 ∧ uppercase.length = 128 := by decide +kernel
  have low : (data &&& 0x7F).toNat ≤ 0x7F := by
    rw [BitVec.toNat_and]
    exact Nat.and_le_right
  omega

theorem shift_held_append (past : List (BitVec 8)) (data : BitVec 8) :
    shiftHeld (past ++ [data]) = if isShift data then decide (data &&& 0x80 = 0) else shiftHeld past := by
  rw [shiftHeld, List.filter_append]
  cases shift : isShift data with
  | true => simp [shift]
  | false => simp [shift, shiftHeld]

theorem locked_append (past : List (BitVec 8)) (data : BitVec 8) :
    locked (past ++ [data]) = if data = capsKey then !locked past else locked past := by
  rw [locked, locked, List.count_append, List.count_singleton]
  by_cases isCaps : data = capsKey
  · rw [if_pos isCaps, isCaps, beq_self_eq_true, if_pos rfl]
    rcases Nat.mod_two_eq_zero_or_one (past.count capsKey) with even | odd
    · simp [even, Nat.add_mod]
    · simp [odd, Nat.add_mod]
  · simp [isCaps]

/-- An event is its key and whether it is a release. -/
theorem press_of_key {key : BitVec 8} (small : key &&& 0x7F = key) :
    data = key ↔ data &&& 0x7F = key ∧ data &&& 0x80 = 0 := by
  have whole : data = (data &&& 0x7F) ||| (data &&& 0x80) := by
    rw [← BitVec.and_or_distrib_left]
    exact (BitVec.and_allOnes).symm
  constructor
  · intro same
    subst same
    refine ⟨small, ?_⟩
    rw [← small, BitVec.and_assoc]
    exact BitVec.and_zero
  · rintro ⟨code, press⟩
    rw [whole, code, press]
    exact BitVec.or_zero

/-- An event of no shift that does not lock leaves the variables. -/
theorem follows_other (follows : Follows keyboard past) (noShift : isShift data = false) (noCaps : data ≠ capsKey) :
    Follows keyboard (past ++ [data]) where
  capsOn := by
    rw [shift_held_append, noShift, follows.capsOn]
    rfl
  capsLock := by rw [locked_append, if_neg noCaps, follows.capsLock]

theorem follows_shift (follows : Follows keyboard past) (shift : isShift data = true) :
    Follows (if data &&& 0x80 = 0 then { keyboard with capsOn := true } else { keyboard with capsOn := false })
      (past ++ [data]) := by
  have noCaps : data ≠ capsKey := by
    intro isCaps
    subst isCaps
    exact absurd shift (by decide)
  by_cases press : data &&& 0x80 = 0
  · rw [if_pos press]
    refine ⟨?_, ?_⟩
    · rw [shift_held_append, if_pos shift, decide_eq_true press]
    · rw [locked_append, if_neg noCaps, ← follows.capsLock]
  · rw [if_neg press]
    refine ⟨?_, ?_⟩
    · rw [shift_held_append, if_pos shift, decide_eq_false press]
    · rw [locked_append, if_neg noCaps, ← follows.capsLock]

theorem follows_caps (follows : Follows keyboard past) (code : data &&& 0x7F = capsKey) :
    Follows (if keyboard.capsLock = false ∧ data &&& 0x80 = 0 then { keyboard with capsLock := true }
      else if keyboard.capsLock = true ∧ data &&& 0x80 = 0 then { keyboard with capsLock := false }
      else keyboard) (past ++ [data]) := by
  have noShift : isShift data = false := by
    rw [isShift, code]
    rfl
  have held : keyboard.capsOn = shiftHeld (past ++ [data]) := by
    rw [shift_held_append, noShift, follows.capsOn]
    rfl
  by_cases press : data &&& 0x80 = 0
  · have isCaps : data = capsKey := (press_of_key (by decide)).2 ⟨code, press⟩
    have turned : locked (past ++ [data]) = !keyboard.capsLock := by
      rw [locked_append, if_pos isCaps, follows.capsLock]
    cases lock : keyboard.capsLock with
    | false =>
        rw [if_pos ⟨rfl, press⟩]
        exact ⟨held, by rw [turned, lock]; rfl⟩
    | true =>
        rw [if_neg (fun both => nomatch both.1), if_pos ⟨rfl, press⟩]
        exact ⟨held, by rw [turned, lock]; rfl⟩
  · have released : data ≠ capsKey := fun isCaps => press ((press_of_key (by decide)).1 isCaps).2
    rw [if_neg (fun both => press both.2), if_neg (fun both => press both.2)]
    exact follows_other follows noShift released

/-- The handler sends the character that the past of an event selects, and notes the event. -/
theorem handler_follows (follows : Follows keyboard past) (data : BitVec 8) :
    (keyboardHandler keyboard data).1 = character past data ∧
      Follows (keyboardHandler keyboard data).2 (past ++ [data]) := by
  rw [keyboardHandler]
  by_cases skip : data &&& 0x7F ∈ ignored
  · have noShift : isShift data = false := by
      rw [isShift, Bool.or_eq_false_iff, decide_eq_false_iff_not, decide_eq_false_iff_not]
      constructor
      all_goals
        intro code
        rw [code] at skip
        exact absurd skip (by decide)
    have noCaps : data ≠ capsKey := by
      intro isCaps
      subst isCaps
      exact absurd skip (by decide)
    have silent : character past data = none := if_neg (fun prints => prints.2.1 skip)
    rw [if_pos skip, silent]
    exact ⟨rfl, follows_other follows noShift noCaps⟩
  rw [if_neg skip]
  by_cases isLeft : data &&& 0x7F = leftShift
  · have shift : isShift data = true := by
      rw [isShift, decide_eq_true isLeft, Bool.true_or]
    have silent : character past data = none :=
      if_neg (fun prints => Bool.false_ne_true (prints.2.2.1.symm.trans shift))
    rw [if_pos isLeft, silent]
    exact ⟨rfl, follows_shift follows shift⟩
  rw [if_neg isLeft]
  by_cases isRight : data &&& 0x7F = rightShift
  · have shift : isShift data = true := by
      rw [isShift, decide_eq_true isRight, Bool.or_true]
    have silent : character past data = none :=
      if_neg (fun prints => Bool.false_ne_true (prints.2.2.1.symm.trans shift))
    rw [if_pos isRight, silent]
    exact ⟨rfl, follows_shift follows shift⟩
  rw [if_neg isRight]
  have noShift : isShift data = false := by
    rw [isShift, decide_eq_false isLeft, decide_eq_false isRight]
    rfl
  by_cases code : data &&& 0x7F = capsKey
  · have silent : character past data = none := if_neg (fun prints => prints.2.2.2 code)
    rw [if_pos code, silent]
    exact ⟨rfl, follows_caps follows code⟩
  have noCaps : data ≠ capsKey := fun isCaps => code ((press_of_key (by decide)).1 isCaps).1
  rw [if_neg code]
  by_cases press : data &&& 0x80 = 0
  · have prints : Prints data := ⟨press, skip, noShift, code⟩
    rw [if_pos press, follows.capsOn, follows.capsLock, character, if_pos prints]
    by_cases shifted : shiftHeld past = true ∨ locked past = true
    · have both : (shiftHeld past || locked past) = true := Bool.or_eq_true_iff.2 shifted
      rw [if_pos shifted, if_pos both]
      exact ⟨rfl, follows_other follows noShift noCaps⟩
    · have neither : ¬ (shiftHeld past || locked past) = true := fun both => shifted (Bool.or_eq_true_iff.1 both)
      rw [if_neg shifted, if_neg neither]
      exact ⟨rfl, follows_other follows noShift noCaps⟩
  · have silent : character past data = none := if_neg (fun prints => press prints.1)
    rw [if_neg press, silent]
    exact ⟨rfl, follows_other follows noShift noCaps⟩

/-- Only the keys of tab and backspace move the cursor without a character. -/
theorem character_plain {c : UInt8} (printed : character past data = some c) (noBackspace : data ≠ 0x0E)
    (noTab : data ≠ 0x0F) : Plain c := by
  have entries : ∀ code < 128, code ≠ 0x0E → code ≠ 0x0F →
      Plain (lowercase.getD code unknown) ∧ Plain (uppercase.getD code unknown) := by
    decide +kernel
  rw [character] at printed
  by_cases prints : Prints data
  · rw [if_pos prints, Option.some.injEq] at printed
    have small : (data &&& 0x7F).toNat < 128 := by
      rw [BitVec.toNat_and]
      exact Nat.lt_of_le_of_lt Nat.and_le_right (by decide)
    have others : ∀ key : BitVec 8, key &&& 0x7F = key → data ≠ key → (data &&& 0x7F).toNat ≠ key.toNat :=
      fun key isKey other same => other ((press_of_key isKey).2 ⟨BitVec.eq_of_toNat_eq same, prints.1⟩)
    have both := entries _ small (others 0x0E (by decide) noBackspace) (others 0x0F (by decide) noTab)
    rw [← printed]
    split_ifs
    · exact both.2
    · exact both.1
  · rw [if_neg prints] at printed
    cases printed

end Steps

section Runs

variable {keyboard : KeyboardState} {terminal : TerminalState} {past : List (BitVec 8)}

/-- A run of the keyboard writes the text that its events type. -/
theorem keyboard_run_types (events : List (BitVec 8)) (follows : Follows keyboard past) :
    Follows (keyboardRun (keyboard, terminal) events).1 (past ++ events) ∧
      (keyboardRun (keyboard, terminal) events).2 = terminalRun terminal (typed past events) := by
  induction events generalizing keyboard terminal past with
  | nil =>
      rw [List.append_nil]
      exact ⟨follows, rfl⟩
  | cons data rest induction =>
      obtain ⟨sent, next⟩ := handler_follows follows data
      have later := @induction (keyboardHandler keyboard data).2
        (terminalRun terminal (keyboardHandler keyboard data).1.toList) _ next
      rw [List.append_assoc, List.singleton_append] at later
      rw [typed, terminalRun, List.foldl_append]
      refine ⟨later.1, later.2.trans ?_⟩
      rw [sent]
      rfl

theorem typed_plain (events : List (BitVec 8)) (plain : ∀ data ∈ events, data ≠ 0x0E ∧ data ≠ 0x0F) :
    ∀ c ∈ typed past events, Plain c := by
  induction events generalizing past with
  | nil => exact fun _ member => absurd member List.not_mem_nil
  | cons data rest induction =>
      rw [List.forall_mem_cons] at plain
      intro c member
      rw [typed, List.mem_append, Option.mem_toList] at member
      rcases member with printed | later
      · exact character_plain printed plain.1.1 plain.1.2
      · exact induction plain.2 c later

/-- From `init_keyboard` and `terminal_init` on, the screen shows the last lines of what was typed,
in every run of key events without tab and backspace. -/
theorem typed_text_shown (width height : Nat) (buffer : Nat → Nat) (events : List (BitVec 8))
    (widthPositive : 1 ≤ width) (heightPositive : 1 ≤ height) (addressable : width * height < 4294967296)
    (plain : ∀ data ∈ events, data ≠ 0x0E ∧ data ≠ 0x0F) :
    ShowsLastLines width height (breakLines newline width [] (typed [] events))
      (keyboardRun (initKeyboard, terminalInit width height buffer) events).2 := by
  have sized : Sized (terminalInit width height buffer) := ⟨widthPositive, heightPositive, addressable⟩
  obtain ⟨_, written⟩ := @keyboard_run_types initKeyboard (terminalInit width height buffer) [] events ⟨rfl, rfl⟩
  rw [written]
  obtain ⟨shown, sameWidth, sameHeight⟩ := run_shows (typed [] events) sized (typed_plain events plain)
    (init_shows buffer sized)
  have lines := @lines_put_all UInt8 _ newline width (typed [] events) ⟨[], []⟩
  rw [List.nil_append] at lines
  have narrow : ∀ line ∈ ((typed [] events).foldl (putSymbol newline width) ⟨[], []⟩).lines, line.length ≤ width := by
    rw [lines]
    exact break_lines_narrow widthPositive (typed [] events) (Nat.zero_le _)
  have final := shows_last_lines (sized_of_same sized sameWidth sameHeight) shown
  rw [sameWidth, sameHeight] at final
  rw [← lines]
  exact final narrow

/-- A capital, the release of its shift, a small letter, and a digit on the next line. -/
theorem typed_text_shown_shift :
    ShowsLastLines 3 2 [[72, 105], [49]]
      (keyboardRun (initKeyboard, terminalInit 3 2 fun _ => 0) [0x2A, 0x23, 0xAA, 0x17, 0x1C, 0x02]).2 :=
  typed_text_shown 3 2 (fun _ => 0) [0x2A, 0x23, 0xAA, 0x17, 0x1C, 0x02] (by decide) (by decide) (by decide)
    (by decide)

end Runs

end ParadiseOS.Keyboard
