import ParadiseOS.MachineWord

/-!
# The terminal

`terminal/terminal.c` over a screen of any size. A tab moves the column on without
wrapping; only the next printable character starts a new row, and a backspace
before it erases beyond the end of the row.
-/

namespace ParadiseOS.Terminal

open MachineWord

set_option autoImplicit false

section Model

/-- The terminal and the entries of its buffer. -/
structure TerminalState where
  row : Nat
  col : Nat
  width : Nat
  height : Nat
  color : Nat
  buffer : Nat → Nat
  /-- The indices that were stored to, the last one first. No code reads it. -/
  stores : List Nat

def vgaColorCreate (fg bg : Nat) : Nat := (bg <<< 4 ||| fg) % 256

def vgaEntryCreate (c : UInt8) (color : Nat) : Nat := u16 (color <<< 8) ||| c.toNat

/-- The blank of the terminal's colour. -/
def blank (terminal : TerminalState) : Nat := vgaEntryCreate 0x20 terminal.color

/-- `terminal.buffer[i] = entry`. -/
def putEntry (terminal : TerminalState) (i entry : Nat) : TerminalState :=
  { terminal with
    buffer := Function.update terminal.buffer i entry
    stores := i :: terminal.stores }

/-- `row * terminal.width + col`. -/
def position (terminal : TerminalState) (row col : Nat) : Nat := u32 (u32 (row * terminal.width) + col)

/-- The inner loop of `terminal_scroll`: row `r` is copied to the one above, from column `c` on. -/
def copyRow (terminal : TerminalState) (r c : Nat) : Nat → TerminalState
  | 0 => terminal
  | count + 1 =>
      copyRow (putEntry terminal (position terminal (r - 1) c) (terminal.buffer (position terminal r c)))
        r (c + 1) count

def copyRows (terminal : TerminalState) (r : Nat) : Nat → TerminalState
  | 0 => terminal
  | count + 1 => copyRows (copyRow terminal r 0 terminal.width) (r + 1) count

/-- The loop that blanks a row, from column `c` on. -/
def blankRow (terminal : TerminalState) (r c : Nat) : Nat → TerminalState
  | 0 => terminal
  | count + 1 => blankRow (putEntry terminal (position terminal r c) (blank terminal)) r (c + 1) count

def terminalScroll (terminal : TerminalState) : TerminalState :=
  let terminal := copyRows terminal 1 (terminal.height - 1)
  blankRow terminal (sub32 terminal.height 1) 0 terminal.width

def terminalBackspace (terminal : TerminalState) : TerminalState :=
  if terminal.col = 0 then terminal
  else
    let terminal := { terminal with col := terminal.col - 1 }
    putEntry terminal (position terminal terminal.row terminal.col) (blank terminal)

/-- A new row begins; the last one makes the terminal scroll. -/
def nextRow (terminal : TerminalState) : TerminalState :=
  let terminal := { terminal with col := 0, row := u32 (terminal.row + 1) }
  if terminal.row = terminal.height then terminalScroll { terminal with row := sub32 terminal.row 1 }
  else terminal

/-- The end of `terminal_putchar`, which shows a character. -/
def putVisible (terminal : TerminalState) (c : UInt8) : TerminalState :=
  let terminal := putEntry terminal (position terminal terminal.row terminal.col)
    (vgaEntryCreate c terminal.color)
  { terminal with col := u32 (terminal.col + 1) }

def newline : UInt8 := 10
def tab : UInt8 := 9
def backspace : UInt8 := 8

def terminalPutchar (terminal : TerminalState) (c : UInt8) : TerminalState :=
  if c = newline then nextRow terminal
  else if c = tab then { terminal with col := u32 (terminal.col + 4) }
  else if c = backspace then terminalBackspace terminal
  else if terminal.col ≥ terminal.width then putVisible (nextRow terminal) c
  else putVisible terminal c

/-- The loop of `terminal_init` over the buffer. -/
def clearFrom (buffer : Nat → Nat) (entry i : Nat) : Nat → Nat → Nat
  | 0 => buffer
  | count + 1 => clearFrom (Function.update buffer i entry) entry (i + 1) count

def terminalInit (width height : Nat) (buffer : Nat → Nat) : TerminalState where
  row := 0
  col := 0
  width := width
  height := height
  color := vgaColorCreate 7 0
  buffer := clearFrom buffer (vgaEntryCreate 0x20 (vgaColorCreate 7 0)) 0 (u32 (width * height))
  stores := []

def terminalRun (terminal : TerminalState) (chars : List UInt8) : TerminalState :=
  chars.foldl terminalPutchar terminal

end Model

section Statement

/-- The cursor is on the screen or behind a full row, and all stores were to the screen. -/
structure OnScreen (terminal : TerminalState) : Prop where
  row : terminal.row < terminal.height
  col : terminal.col ≤ terminal.width
  stores : ∀ i ∈ terminal.stores, i < terminal.width * terminal.height

/-- Every tab of a run ends inside the row or right behind it. -/
def TabsFit (terminal : TerminalState) (chars : List UInt8) : Prop :=
  ∀ before after, chars = before ++ tab :: after →
    u32 ((terminalRun terminal before).col + 4) ≤ (terminalRun terminal before).width

end Statement

section Steps

variable {terminal : TerminalState}

/-- Only the entries changed, and only on the screen. -/
structure Painted (terminal next : TerminalState) : Prop where
  row : next.row = terminal.row
  col : next.col = terminal.col
  width : next.width = terminal.width
  height : next.height = terminal.height
  stores : ∀ i ∈ next.stores, i ∈ terminal.stores ∨ i < terminal.width * terminal.height

theorem painted_refl (terminal : TerminalState) : Painted terminal terminal :=
  ⟨rfl, rfl, rfl, rfl, fun _ member => .inl member⟩

theorem painted_trans {middle next : TerminalState} (first : Painted terminal middle)
    (second : Painted middle next) : Painted terminal next where
  row := second.row.trans first.row
  col := second.col.trans first.col
  width := second.width.trans first.width
  height := second.height.trans first.height
  stores i member := by
    rcases second.stores i member with old | inside
    · exact first.stores i old
    · rw [first.width, first.height] at inside
      exact .inr inside

/-- A cell of the screen has an index on the screen, also where the product wraps. -/
theorem position_lt {row col : Nat} (rowLow : row < terminal.height) (colLow : col < terminal.width) :
    position terminal row col < terminal.width * terminal.height := by
  have below : row * terminal.width + terminal.width ≤ terminal.width * terminal.height := by
    calc
      row * terminal.width + terminal.width = terminal.width * (row + 1) := by
        rw [Nat.mul_add, Nat.mul_one, Nat.mul_comm]
      _ ≤ terminal.width * terminal.height := Nat.mul_le_mul_left _ rowLow
  have first : u32 (row * terminal.width) ≤ row * terminal.width := Nat.mod_le _ _
  have second : position terminal row col ≤ u32 (row * terminal.width) + col := Nat.mod_le _ _
  omega

theorem painted_put {row col entry : Nat} (rowLow : row < terminal.height) (colLow : col < terminal.width) :
    Painted terminal (putEntry terminal (position terminal row col) entry) where
  row := rfl
  col := rfl
  width := rfl
  height := rfl
  stores i member := by
    rcases List.mem_cons.1 member with rfl | old
    · exact .inr (position_lt rowLow colLow)
    · exact .inl old

theorem copy_row_painted (count : Nat) {r c : Nat} (rowLow : r - 1 < terminal.height)
    (room : c + count ≤ terminal.width) : Painted terminal (copyRow terminal r c count) := by
  induction count generalizing terminal c with
  | zero => exact painted_refl terminal
  | succ count ih =>
      have first : Painted terminal (putEntry terminal (position terminal (r - 1) c)
          (terminal.buffer (position terminal r c))) := painted_put rowLow (by omega)
      exact painted_trans first (ih rowLow (show c + 1 + count ≤ terminal.width by omega))

theorem copy_rows_painted (count : Nat) {r : Nat} (positive : 1 ≤ r) (room : r + count ≤ terminal.height) :
    Painted terminal (copyRows terminal r count) := by
  induction count generalizing terminal r with
  | zero => exact painted_refl terminal
  | succ count ih =>
      have first : Painted terminal (copyRow terminal r 0 terminal.width) :=
        copy_row_painted _ (by omega) (by omega)
      have later : r + 1 + count ≤ (copyRow terminal r 0 terminal.width).height := by
        rw [first.height]
        omega
      exact painted_trans first (ih (by omega) later)

theorem blank_row_painted (count : Nat) {r c : Nat} (rowLow : r < terminal.height)
    (room : c + count ≤ terminal.width) : Painted terminal (blankRow terminal r c count) := by
  induction count generalizing terminal c with
  | zero => exact painted_refl terminal
  | succ count ih =>
      have first : Painted terminal (putEntry terminal (position terminal r c) (blank terminal)) :=
        painted_put rowLow (by omega)
      exact painted_trans first (ih rowLow (show c + 1 + count ≤ terminal.width by omega))

theorem scroll_painted (positive : 1 ≤ terminal.height) (word : terminal.height < 4294967296) :
    Painted terminal (terminalScroll terminal) := by
  have first : Painted terminal (copyRows terminal 1 (terminal.height - 1)) :=
    copy_rows_painted _ (le_refl _) (by omega)
  refine painted_trans first (blank_row_painted _ ?_ (by omega))
  rw [first.height, sub32_of_le positive word]
  omega

/-- The screen has rows and columns, each counted by a word. -/
structure Screen (terminal : TerminalState) : Prop where
  widthPositive : 1 ≤ terminal.width
  widthWord : terminal.width < 4294967296
  heightWord : terminal.height < 4294967296

theorem next_row_ok (screen : Screen terminal) (shown : OnScreen terminal) :
    OnScreen (nextRow terminal) ∧ (nextRow terminal).col = 0 ∧
      (nextRow terminal).width = terminal.width ∧ (nextRow terminal).height = terminal.height := by
  have row := shown.row
  have word := screen.heightWord
  have step : u32 (terminal.row + 1) = terminal.row + 1 := u32_of_lt (by omega)
  have back : sub32 (terminal.row + 1) 1 = terminal.row := by
    rw [sub32_of_le (by omega) (by omega), Nat.add_sub_cancel]
  unfold nextRow
  dsimp only
  rw [step, back]
  split_ifs with last
  · have painted : Painted { terminal with row := terminal.row, col := 0 }
        (terminalScroll { terminal with row := terminal.row, col := 0 }) :=
      scroll_painted (show 1 ≤ terminal.height by omega) word
    refine ⟨⟨?_, ?_, ?_⟩, painted.col, painted.width, painted.height⟩
    · rw [painted.row, painted.height]
      exact row
    · rw [painted.col]
      exact Nat.zero_le _
    · intro i member
      rw [painted.width, painted.height]
      rcases painted.stores i member with old | inside
      · exact shown.stores i old
      · exact inside
  · exact ⟨⟨show terminal.row + 1 < terminal.height by omega, Nat.zero_le _, shown.stores⟩, rfl, rfl, rfl⟩

theorem put_visible_ok {c : UInt8} (screen : Screen terminal) (shown : OnScreen terminal)
    (room : terminal.col < terminal.width) : OnScreen (putVisible terminal c) := by
  have painted : Painted terminal (putEntry terminal (position terminal terminal.row terminal.col)
      (vgaEntryCreate c terminal.color)) := painted_put shown.row room
  have word := screen.widthWord
  have step : u32 (terminal.col + 1) = terminal.col + 1 := u32_of_lt (by omega)
  refine ⟨shown.row, ?_, ?_⟩
  · change u32 (terminal.col + 1) ≤ terminal.width
    omega
  · intro i member
    rcases painted.stores i member with old | inside
    · exact shown.stores i old
    · exact inside

theorem backspace_ok (shown : OnScreen terminal) : OnScreen (terminalBackspace terminal) := by
  have col := shown.col
  unfold terminalBackspace
  split_ifs with first
  · exact shown
  · have painted : Painted { terminal with col := terminal.col - 1 }
        (putEntry { terminal with col := terminal.col - 1 }
          (position { terminal with col := terminal.col - 1 } terminal.row (terminal.col - 1))
          (blank { terminal with col := terminal.col - 1 })) :=
      painted_put shown.row (show terminal.col - 1 < terminal.width by omega)
    refine ⟨shown.row, show terminal.col - 1 ≤ terminal.width by omega, ?_⟩
    intro i member
    rcases painted.stores i member with old | inside
    · exact shown.stores i old
    · exact inside

/-- One character keeps the terminal on the screen unless it is a tab that leads off it. -/
theorem putchar_ok {c : UInt8} (screen : Screen terminal) (shown : OnScreen terminal)
    (fits : c = tab → u32 (terminal.col + 4) ≤ terminal.width) :
    OnScreen (terminalPutchar terminal c) ∧ (terminalPutchar terminal c).width = terminal.width ∧
      (terminalPutchar terminal c).height = terminal.height := by
  unfold terminalPutchar
  split_ifs with isNewline isTab isBackspace full
  · obtain ⟨next, _, size⟩ := next_row_ok screen shown
    exact ⟨next, size⟩
  · exact ⟨⟨shown.row, fits isTab, shown.stores⟩, rfl, rfl⟩
  · refine ⟨backspace_ok shown, ?_⟩
    unfold terminalBackspace
    split_ifs <;> exact ⟨rfl, rfl⟩
  · obtain ⟨next, col, width, height⟩ := next_row_ok screen shown
    have positive := screen.widthPositive
    refine ⟨put_visible_ok ⟨?_, ?_, ?_⟩ next (by omega), width, height⟩
    · rw [width]
      exact positive
    · rw [width]
      exact screen.widthWord
    · rw [height]
      exact screen.heightWord
  · exact ⟨put_visible_ok screen shown (Nat.lt_of_not_le full), rfl, rfl⟩

end Steps

section Runs

variable {terminal : TerminalState}

theorem run_append (terminal : TerminalState) (before : List UInt8) (c : UInt8) :
    terminalRun terminal (before ++ [c]) = terminalPutchar (terminalRun terminal before) c := by
  rw [terminalRun, List.foldl_append]
  rfl

/-- Every run keeps the terminal on the screen if its tabs fit. -/
theorem run_ok (chars : List UInt8) (screen : Screen terminal) (shown : OnScreen terminal)
    (fits : TabsFit terminal chars) : OnScreen (terminalRun terminal chars) := by
  induction chars generalizing terminal with
  | nil => exact shown
  | cons c rest ih =>
      obtain ⟨next, width, height⟩ := putchar_ok screen shown (fun isTab =>
        fits [] rest (isTab ▸ rfl))
      refine ih ⟨?_, ?_, ?_⟩ next ?_
      · exact width.symm ▸ screen.widthPositive
      · exact width.symm ▸ screen.widthWord
      · exact height.symm ▸ screen.heightWord
      · intro before after split
        exact fits (c :: before) after (by rw [split, List.cons_append])

/-- From `terminal_init` on, the terminal stays on the screen exactly if no tab leads off it. -/
theorem terminal_on_screen_iff (width height : Nat) (buffer : Nat → Nat) (chars : List UInt8)
    (widthPositive : 1 ≤ width) (widthWord : width < 4294967296) (heightPositive : 1 ≤ height)
    (heightWord : height < 4294967296) :
    (∀ before after, chars = before ++ after →
      OnScreen (terminalRun (terminalInit width height buffer) before)) ↔
      TabsFit (terminalInit width height buffer) chars := by
  constructor
  · intro always before after split
    have shown := always (before ++ [tab]) after (by rw [split, List.append_assoc]; rfl)
    rw [run_append] at shown
    exact shown.col
  · intro fits before after split
    have screen : Screen (terminalInit width height buffer) := ⟨widthPositive, widthWord, heightWord⟩
    refine run_ok before screen ⟨heightPositive, Nat.zero_le _, fun _ member => nomatch member⟩ ?_
    intro front back isBefore
    exact fits front (back ++ after) (by rw [split, isBefore, List.append_assoc, List.cons_append])

/-- A character, a tab and a newline on a screen of eight columns and two rows. -/
theorem terminal_on_screen_tab : OnScreen (terminalRun (terminalInit 8 2 fun _ => 0) [97, tab, newline]) := by
  refine (terminal_on_screen_iff 8 2 (fun _ => 0) [97, tab, newline] (by decide) (by decide) (by decide)
    (by decide)).2 ?_ [97, tab, newline] [] rfl
  intro before after split
  rcases before with _ | ⟨a, _ | ⟨b, _ | ⟨c, before⟩⟩⟩
  · exact absurd (List.cons.inj split).1 (by decide)
  · obtain ⟨rfl, _⟩ := List.cons.inj split
    decide
  · exact absurd (List.cons.inj (List.cons.inj (List.cons.inj split).2).2).1 (by decide)
  · exact absurd (congrArg List.length split) (by simp)

/-- A tab in a row of two columns, and a backspace: the store is behind the screen. -/
theorem terminal_tab_leads_off : ¬ ∀ (width height : Nat) (buffer : Nat → Nat) (chars : List UInt8),
    1 ≤ width → width < 4294967296 → 1 ≤ height → height < 4294967296 →
      OnScreen (terminalRun (terminalInit width height buffer) chars) := by
  intro always
  have shown := always 2 1 (fun _ => 0) [tab, backspace] (by decide) (by decide) (by decide) (by decide)
  have stored := shown.stores 3 (by decide)
  exact absurd stored (by decide)

end Runs

end ParadiseOS.Terminal
