import ParadiseOS.Terminal
import ParadiseOS.TextLines

/-!
# What the screen shows

The buffer of the terminal is the window on the last lines of the text, entry by entry.
`terminal_scroll` copies the rows in place, each to the one above before it is overwritten
itself.
-/

namespace ParadiseOS.TerminalText

open MachineWord Terminal TextLines

set_option autoImplicit false

variable {terminal : TerminalState} {width height : Nat}

section Entries

/-- The cells of the screen are counted by a word, as those of every buffer in memory are. -/
def Addressable (terminal : TerminalState) : Prop := terminal.width * terminal.height < 4294967296

theorem position_eq {row col : Nat} (addressable : Addressable terminal) (rowLow : row < terminal.height)
    (colLow : col < terminal.width) : position terminal row col = row * terminal.width + col := by
  have below : row * terminal.width + terminal.width ≤ terminal.width * terminal.height := by
    calc
      row * terminal.width + terminal.width = terminal.width * (row + 1) := by
        rw [Nat.mul_add, Nat.mul_one, Nat.mul_comm]
      _ ≤ terminal.width * terminal.height := Nat.mul_le_mul_left _ rowLow
  rw [Addressable] at addressable
  have product : u32 (row * terminal.width) = row * terminal.width := u32_of_lt (by omega)
  rw [position, product, u32_of_lt (by omega)]

section Stores

variable (i entry : Nat)

@[simp] theorem put_entry_width : (putEntry terminal i entry).width = terminal.width := rfl

@[simp] theorem put_entry_height : (putEntry terminal i entry).height = terminal.height := rfl

@[simp] theorem put_entry_color : (putEntry terminal i entry).color = terminal.color := rfl

theorem put_entry_buffer (other : Nat) :
    (putEntry terminal i entry).buffer other = if other = i then entry else terminal.buffer other :=
  Function.update_apply terminal.buffer i entry other

end Stores

/-- The inner loop reads the row below the one it writes. -/
theorem copy_row_buffer (count : Nat) {r c : Nat} (addressable : Addressable terminal)
    (low : r + 1 < terminal.height) (room : c + count ≤ terminal.width) (i : Nat) :
    (copyRow terminal (r + 1) c count).buffer i =
      if r * terminal.width + c ≤ i ∧ i < r * terminal.width + c + count then
        terminal.buffer (i + terminal.width)
      else terminal.buffer i := by
  induction count generalizing terminal c with
  | zero => rw [copyRow, if_neg (by omega)]
  | succ count ih =>
      rw [copyRow, Nat.add_sub_cancel, position_eq addressable (by omega) (by omega),
        position_eq addressable low (by omega), Nat.add_mul, Nat.one_mul]
      generalize moved : putEntry terminal (r * terminal.width + c)
        (terminal.buffer (r * terminal.width + terminal.width + c)) = next
      have sameWidth : next.width = terminal.width := moved ▸ rfl
      have sameHeight : next.height = terminal.height := moved ▸ rfl
      have inRange : Addressable next := by rwa [Addressable, sameWidth, sameHeight]
      have buffer : ∀ other, next.buffer other = if other = r * terminal.width + c then
          terminal.buffer (r * terminal.width + terminal.width + c) else terminal.buffer other :=
        fun other => moved ▸ put_entry_buffer _ _ other
      rw [ih inRange (by omega) (by omega), sameWidth, buffer, buffer]
      by_cases here : i = r * terminal.width + c
      · rw [if_neg (by omega), if_pos here, if_pos (by omega), here]
        congr 1
        omega
      · by_cases inside : r * terminal.width + c ≤ i ∧ i < r * terminal.width + c + (count + 1)
        · rw [if_pos (by omega), if_neg (by omega), if_pos inside]
        · rw [if_neg (by omega), if_neg here, if_neg inside]

/-- The rows move up one by one, the ones below still as they were. -/
theorem copy_rows_buffer (count : Nat) {r : Nat} (addressable : Addressable terminal)
    (room : r + count < terminal.height) (i : Nat) :
    (copyRows terminal (r + 1) count).buffer i =
      if r * terminal.width ≤ i ∧ i < (r + count) * terminal.width then
        terminal.buffer (i + terminal.width)
      else terminal.buffer i := by
  induction count generalizing terminal r with
  | zero => rw [copyRows, if_neg (by rw [Nat.add_zero]; omega)]
  | succ count ih =>
      have painted : Painted terminal (copyRow terminal (r + 1) 0 terminal.width) :=
        copy_row_painted _ (by omega) (by omega)
      have buffer := copy_row_buffer terminal.width addressable (r := r) (c := 0) (by omega) (by omega)
      rw [copyRows]
      generalize copyRow terminal (r + 1) 0 terminal.width = next at painted buffer
      have inRange : Addressable next := by rwa [Addressable, painted.width, painted.height]
      rw [ih inRange (by rw [painted.height]; omega), painted.width, buffer, buffer]
      have split : (r + (count + 1)) * terminal.width =
          r * terminal.width + count * terminal.width + terminal.width := by
        rw [Nat.add_mul, Nat.add_mul, Nat.one_mul, Nat.add_assoc]
      have shorter : (r + 1 + count) * terminal.width =
          r * terminal.width + count * terminal.width + terminal.width := by
        rw [Nat.add_mul, Nat.add_mul, Nat.one_mul]
        omega
      rw [split, shorter, Nat.add_mul, Nat.one_mul]
      by_cases first : r * terminal.width ≤ i ∧ i < r * terminal.width + terminal.width
      · rw [if_neg (by omega), if_pos (by omega), if_pos (by omega)]
      · by_cases later : r * terminal.width + terminal.width ≤ i ∧
            i < r * terminal.width + count * terminal.width + terminal.width
        · rw [if_pos later, if_neg (by omega), if_pos (by omega)]
        · rw [if_neg later, if_neg (by omega), if_neg (by omega)]

theorem blank_row_buffer (count : Nat) {r c : Nat} (addressable : Addressable terminal)
    (low : r < terminal.height) (room : c + count ≤ terminal.width) (i : Nat) :
    (blankRow terminal r c count).buffer i =
      if r * terminal.width + c ≤ i ∧ i < r * terminal.width + c + count then blank terminal
      else terminal.buffer i := by
  induction count generalizing terminal c with
  | zero => rw [blankRow, if_neg (by omega)]
  | succ count ih =>
      rw [blankRow, position_eq addressable low (by omega)]
      generalize moved : putEntry terminal (r * terminal.width + c) (blank terminal) = next
      have sameWidth : next.width = terminal.width := moved ▸ rfl
      have sameHeight : next.height = terminal.height := moved ▸ rfl
      have sameBlank : blank next = blank terminal := moved ▸ rfl
      have inRange : Addressable next := by rwa [Addressable, sameWidth, sameHeight]
      have buffer : next.buffer i = if i = r * terminal.width + c then blank terminal
          else terminal.buffer i := moved ▸ put_entry_buffer _ _ i
      rw [ih inRange (by omega) (by omega), sameWidth, sameBlank, buffer]
      by_cases here : i = r * terminal.width + c
      · rw [if_neg (by omega), if_pos here, if_pos (by omega)]
      · by_cases inside : r * terminal.width + c ≤ i ∧ i < r * terminal.width + c + (count + 1)
        · rw [if_pos (by omega), if_pos inside]
        · rw [if_neg (by omega), if_neg here, if_neg inside]

end Entries

section Characters

def space : UInt8 := 0x20

/-- The character of an entry of the buffer. -/
def charAt (terminal : TerminalState) (i : Nat) : UInt8 := UInt8.ofNat (terminal.buffer i)

theorem char_of_entry (c : UInt8) (color : Nat) : UInt8.ofNat (vgaEntryCreate c color) = c := by
  have low : vgaEntryCreate c color % 2 ^ 8 = c.toNat := by
    have colorHigh : u16 (color <<< 8) % 2 ^ 8 = 0 := by
      rw [u16, Nat.shiftLeft_eq]
      omega
    rw [vgaEntryCreate, Nat.or_mod_two_pow, colorHigh, Nat.zero_or, Nat.mod_eq_of_lt c.toNat_lt]
  apply UInt8.toNat_inj.1
  rw [UInt8.toNat_ofNat']
  exact low

theorem char_put_entry (i other : Nat) (c : UInt8) :
    charAt (putEntry terminal i (vgaEntryCreate c terminal.color)) other =
      if other = i then c else charAt terminal other := by
  rw [charAt, put_entry_buffer]
  split_ifs with here
  · exact char_of_entry c terminal.color
  · rfl

/-- Scrolling moves every row up and blanks the last one. -/
theorem char_scroll (addressable : Addressable terminal) (positive : 1 ≤ terminal.height)
    (word : terminal.height < 4294967296) {r c : Nat} (low : r < terminal.height)
    (within : c < terminal.width) :
    charAt (terminalScroll terminal) (r * terminal.width + c) =
      if r + 1 < terminal.height then charAt terminal ((r + 1) * terminal.width + c) else space := by
  have painted : Painted terminal (copyRows terminal 1 (terminal.height - 1)) :=
    copy_rows_painted _ (Nat.le_refl _) (by omega)
  have copied := copy_rows_buffer (terminal.height - 1) (r := 0) addressable (by omega)
  rw [terminalScroll]
  generalize copyRows terminal 1 (terminal.height - 1) = next at painted copied
  have inRange : Addressable next := by rwa [Addressable, painted.width, painted.height]
  have lastRow : sub32 next.height 1 = terminal.height - 1 := by
    rw [painted.height, sub32_of_le positive word]
  rw [charAt, lastRow, blank_row_buffer next.width inRange (by rw [painted.height]; omega) (by omega), painted.width,
    copied, Nat.zero_mul, Nat.zero_add, Nat.add_zero]
  by_cases last : r + 1 < terminal.height
  · have above : (r + 1) * terminal.width ≤ (terminal.height - 1) * terminal.width :=
      Nat.mul_le_mul_right _ (by omega)
    rw [Nat.add_mul, Nat.one_mul] at above
    have below : r * terminal.width + c + terminal.width = r * terminal.width + terminal.width + c := by
      omega
    rw [if_neg (by omega), if_pos (by omega), if_pos last, charAt, Nat.add_mul, Nat.one_mul, below]
  · obtain rfl : r = terminal.height - 1 := by omega
    rw [if_pos (by omega), if_neg last]
    exact char_of_entry space next.color

end Characters

section Steps

variable {text : Text UInt8}

/-- The screen is the window on the last lines of the text, and the cursor is behind the text. -/
structure Shows (terminal : TerminalState) (text : Text UInt8) : Prop where
  row : terminal.row = lastRow terminal.height text
  col : terminal.col = text.current.length
  narrow : text.current.length ≤ terminal.width
  cells : ∀ r < terminal.height, ∀ c < terminal.width,
    charAt terminal (r * terminal.width + c) = cell space (window terminal.height text.lines) r c

/-- A screen with cells, all of them counted by a word. -/
structure Sized (terminal : TerminalState) : Prop where
  widthPositive : 1 ≤ terminal.width
  heightPositive : 1 ≤ terminal.height
  addressable : Addressable terminal

theorem sized_words (sized : Sized terminal) :
    terminal.width < 4294967296 ∧ terminal.height < 4294967296 := by
  have product := sized.addressable
  rw [Addressable] at product
  have first := Nat.le_mul_of_pos_right terminal.width sized.heightPositive
  have second := Nat.le_mul_of_pos_left terminal.height sized.widthPositive
  omega

theorem next_row_shows (sized : Sized terminal) (shown : Shows terminal text) :
    Shows (nextRow terminal) text.newLine ∧ (nextRow terminal).width = terminal.width ∧
      (nextRow terminal).height = terminal.height := by
  obtain ⟨_, heightWord⟩ := sized_words sized
  have positive := sized.heightPositive
  have row := shown.row
  have low : lastRow terminal.height text < terminal.height := by
    rw [lastRow]
    omega
  have step : u32 (terminal.row + 1) = terminal.row + 1 := u32_of_lt (by omega)
  have back : sub32 (terminal.row + 1) 1 = terminal.row := by
    rw [sub32_of_le (by omega) (by omega), Nat.add_sub_cancel]
  have newRow : ∀ total, lastRow total text.newLine = min (text.complete.length + 1) (total - 1) := by
    intro total
    rw [lastRow, Text.newLine, List.length_append, List.length_singleton]
  rw [lastRow] at row
  unfold nextRow
  dsimp only
  rw [step, back]
  split_ifs with last
  · have full : terminal.height ≤ text.complete.length + 1 := by omega
    generalize ready : ({ terminal with row := terminal.row, col := 0 } : TerminalState) = state
    have sameRow : state.row = terminal.row := ready ▸ rfl
    have sameCol : state.col = 0 := ready ▸ rfl
    have sameWidth : state.width = terminal.width := ready ▸ rfl
    have sameHeight : state.height = terminal.height := ready ▸ rfl
    have sameChars : ∀ i, charAt state i = charAt terminal i := ready ▸ fun _ => rfl
    have inRange : Addressable state := by
      rw [Addressable, sameWidth, sameHeight]
      exact sized.addressable
    have painted := scroll_painted (sameHeight ▸ positive) (sameHeight ▸ heightWord)
    refine ⟨⟨?_, painted.col.trans sameCol, Nat.zero_le _, ?_⟩, painted.width.trans sameWidth,
      painted.height.trans sameHeight⟩
    · rw [painted.row, painted.height, newRow, sameRow, sameHeight]
      omega
    · intro r rLow c cLow
      rw [painted.height] at rLow ⊢
      rw [painted.width] at cLow ⊢
      rw [char_scroll inRange (sameHeight ▸ positive) (sameHeight ▸ heightWord) rLow cLow, sameHeight,
        sameWidth, sameChars, cell_new_line_full positive text full]
      split_ifs with inner
      · exact shown.cells (r + 1) inner c (sameWidth ▸ cLow)
      · rw [cell_beyond]
        rw [window_length positive, lastRow]
        omega
  · have room : text.complete.length + 1 < terminal.height := by omega
    refine ⟨⟨?_, rfl, Nat.zero_le _, ?_⟩, rfl, rfl⟩
    · rw [newRow]
      change terminal.row + 1 = min (text.complete.length + 1) (terminal.height - 1)
      omega
    · intro r rLow c cLow
      exact (shown.cells r rLow c cLow).trans (cell_new_line_room text room r c).symm

theorem put_visible_shows (sized : Sized terminal) (shown : Shows terminal text)
    (room : terminal.col < terminal.width) (c : UInt8) :
    Shows (putVisible terminal c) (text.write c) ∧ (putVisible terminal c).width = terminal.width ∧
      (putVisible terminal c).height = terminal.height := by
  obtain ⟨widthWord, _⟩ := sized_words sized
  have positive := sized.heightPositive
  have row := shown.row
  have col := shown.col
  have low : terminal.row < terminal.height := by
    rw [row, lastRow]
    omega
  have next : u32 (terminal.col + 1) = terminal.col + 1 := u32_of_lt (by omega)
  have longer : (text.write c).current.length = text.current.length + 1 := by
    rw [Text.write, List.length_append, List.length_singleton]
  refine ⟨⟨row, ?_, ?_, ?_⟩, rfl, rfl⟩
  · change u32 (terminal.col + 1) = _
    rw [next, longer, col]
  · rw [longer, ← col]
    exact room
  · intro r rLow here hereLow
    change r < terminal.height at rLow
    change here < terminal.width at hereLow
    change charAt (putEntry terminal (position terminal terminal.row terminal.col)
      (vgaEntryCreate c terminal.color)) (r * terminal.width + here) = _
    rw [char_put_entry, position_eq sized.addressable low room]
    refine Eq.trans ?_ (cell_write positive text c r here).symm
    rw [← row, ← col]
    by_cases same : r = terminal.row ∧ here = terminal.col
    · rw [if_pos same, if_pos (by rw [same.1, same.2])]
    · rw [if_neg same, if_neg, shown.cells r rLow here hereLow]
      intro equal
      apply same
      -- two cells of the screen with one index are the same cell
      have rows : r = terminal.row := by
        have first := Nat.add_mul_div_right here r (Nat.zero_lt_of_lt hereLow)
        have second := Nat.add_mul_div_right terminal.col terminal.row (Nat.zero_lt_of_lt room)
        rw [Nat.div_eq_of_lt hereLow, Nat.zero_add, Nat.add_comm, equal, Nat.add_comm, second,
          Nat.div_eq_of_lt room, Nat.zero_add] at first
        exact first.symm
      subst rows
      exact ⟨rfl, by omega⟩

/-- The bytes that only show text. -/
def Plain (c : UInt8) : Prop := c ≠ tab ∧ c ≠ backspace

instance (c : UInt8) : Decidable (Plain c) := inferInstanceAs (Decidable (c ≠ tab ∧ c ≠ backspace))

theorem sized_of_same {next : TerminalState} (sized : Sized terminal) (sameWidth : next.width = terminal.width)
    (sameHeight : next.height = terminal.height) : Sized next where
  widthPositive := sameWidth ▸ sized.widthPositive
  heightPositive := sameHeight ▸ sized.heightPositive
  addressable := by
    rw [Addressable, sameWidth, sameHeight]
    exact sized.addressable

/-- One byte adds one symbol to the text on the screen. -/
theorem putchar_shows {c : UInt8} (sized : Sized terminal) (plain : Plain c) (shown : Shows terminal text) :
    Shows (terminalPutchar terminal c) (putSymbol newline terminal.width text c) ∧
      (terminalPutchar terminal c).width = terminal.width ∧
      (terminalPutchar terminal c).height = terminal.height := by
  unfold terminalPutchar putSymbol
  by_cases isNewline : c = newline
  · rw [if_pos isNewline, if_pos isNewline]
    exact next_row_shows sized shown
  · rw [if_neg isNewline, if_neg plain.1, if_neg plain.2, if_neg isNewline, ← shown.col]
    by_cases full : terminal.width ≤ terminal.col
    · rw [if_pos full, if_pos full]
      obtain ⟨moved, sameWidth, sameHeight⟩ := next_row_shows sized shown
      have first : (nextRow terminal).col < (nextRow terminal).width := by
        rw [moved.col, sameWidth]
        exact sized.widthPositive
      obtain ⟨final, finalWidth, finalHeight⟩ :=
        put_visible_shows (sized_of_same sized sameWidth sameHeight) moved first c
      exact ⟨final, finalWidth.trans sameWidth, finalHeight.trans sameHeight⟩
    · rw [if_neg full, if_neg full]
      exact put_visible_shows sized shown (Nat.lt_of_not_le full) c

end Steps

section Runs

theorem run_shows (chars : List UInt8) {text : Text UInt8} (sized : Sized terminal)
    (plain : ∀ c ∈ chars, Plain c) (shown : Shows terminal text) :
    Shows (terminalRun terminal chars) (chars.foldl (putSymbol newline terminal.width) text) ∧
      (terminalRun terminal chars).width = terminal.width ∧
      (terminalRun terminal chars).height = terminal.height := by
  induction chars generalizing terminal text with
  | nil => exact ⟨shown, rfl, rfl⟩
  | cons c rest ih =>
      rw [List.forall_mem_cons] at plain
      obtain ⟨next, sameWidth, sameHeight⟩ := putchar_shows sized plain.1 shown
      have later := ih (sized_of_same sized sameWidth sameHeight) plain.2 next
      rw [sameWidth, sameHeight] at later
      exact later

theorem clear_from_buffer (buffer : Nat → Nat) (entry : Nat) (count : Nat) {start : Nat} (i : Nat) :
    clearFrom buffer entry start count i = if start ≤ i ∧ i < start + count then entry else buffer i := by
  induction count generalizing buffer start with
  | zero => rw [clearFrom, if_neg (by omega)]
  | succ count ih =>
      rw [clearFrom, ih, Function.update_apply]
      by_cases here : i = start
      · rw [if_neg (by omega), if_pos here, if_pos (by omega)]
      · by_cases inside : start ≤ i ∧ i < start + (count + 1)
        · rw [if_pos (by omega), if_pos inside]
        · rw [if_neg (by omega), if_neg here, if_neg inside]

/-- `terminal_init` shows the empty text. -/
theorem init_shows {width height : Nat} (buffer : Nat → Nat)
    (sized : Sized (terminalInit width height buffer)) :
    Shows (terminalInit width height buffer) ⟨[], []⟩ where
  row := rfl
  col := rfl
  narrow := Nat.zero_le _
  cells r rLow c cLow := by
    change r < height at rLow
    change c < width at cLow
    have empty : cell space (window height (Text.lines ⟨[], []⟩)) r c = space := by
      rw [window_lines (show 1 ≤ height from sized.heightPositive), List.drop_nil, cell_append_empty]
      rfl
    have product := sized.addressable
    rw [Addressable] at product
    change width * height < 4294967296 at product
    have below : r * width + width ≤ width * height := by
      calc
        r * width + width = width * (r + 1) := by rw [Nat.mul_add, Nat.mul_one, Nat.mul_comm]
        _ ≤ width * height := Nat.mul_le_mul_left _ rLow
    refine Eq.trans ?_ empty.symm
    change UInt8.ofNat (clearFrom buffer _ 0 (u32 (width * height)) (r * width + c)) = space
    rw [clear_from_buffer, u32_of_lt product, if_pos (by omega)]
    exact char_of_entry space _

/-- A row of the screen. -/
def screenRow (terminal : TerminalState) (r : Nat) : List UInt8 :=
  (List.range terminal.width).map fun c => charAt terminal (r * terminal.width + c)

def screenText (terminal : TerminalState) : List (List UInt8) :=
  (List.range terminal.height).map (screenRow terminal)

/-- The rows on which the last lines of a text fill a screen. -/
def lastLines (width height : Nat) (lines : List (List UInt8)) : List (List UInt8) :=
  (window height lines).map (padded space width) ++
    List.replicate (height - (window height lines).length) (List.replicate width space)

/-- The last lines are on the screen, and the cursor is behind the last character. -/
structure ShowsLastLines (width height : Nat) (lines : List (List UInt8)) (terminal : TerminalState) :
    Prop where
  text : screenText terminal = lastLines width height lines
  row : terminal.row + 1 = (window height lines).length
  col : terminal.col = (lines.getLastD []).length

theorem padded_get {line : List UInt8} {width c : Nat} (narrow : line.length ≤ width) :
    (padded space width line)[c]? = if c < width then some (line.getD c space) else none := by
  rw [padded, List.getElem?_append]
  split_ifs with inside low low
  · rw [List.getElem?_eq_getElem inside, List.getD_eq_getElem _ _ inside]
  · omega
  · rw [List.getElem?_replicate, if_pos (by omega), List.getD_eq_default _ _ (by omega)]
  · rw [List.getElem?_replicate, if_neg (by omega)]

theorem map_range_get {Value : Type} (count : Nat) (value : Nat → Value) (i : Nat) :
    ((List.range count).map value)[i]? = if i < count then some (value i) else none := by
  rw [List.getElem?_map]
  split_ifs with inside
  · rw [List.getElem?_range inside, Option.map_some]
  · rw [List.getElem?_eq_none (by rw [List.length_range]; omega), Option.map_none]

theorem row_of_cells {line : List UInt8} {width : Nat} {row : Nat → UInt8} (narrow : line.length ≤ width)
    (cells : ∀ c < width, row c = line.getD c space) : (List.range width).map row = padded space width line := by
  apply List.ext_getElem?
  intro c
  rw [padded_get narrow, map_range_get]
  split_ifs with inside
  · rw [cells c inside]
  · rfl

/-- Row by row, the rows that the text does not reach included. -/
theorem last_lines_eq (width : Nat) {height : Nat} {lines : List (List UInt8)}
    (fits : (window height lines).length ≤ height) :
    lastLines width height lines =
      (List.range height).map fun r => padded space width ((window height lines).getD r []) := by
  apply List.ext_getElem?
  intro r
  rw [lastLines, map_range_get, List.getElem?_append, List.length_map]
  by_cases shown : r < (window height lines).length
  · rw [if_pos shown, if_pos (by omega), List.getElem?_map, List.getElem?_eq_getElem shown, Option.map_some,
      List.getD_eq_getElem _ _ shown]
  · rw [if_neg shown, List.getElem?_replicate]
    by_cases inside : r < height
    · rw [if_pos (by omega), if_pos inside, List.getD_eq_default _ _ (by omega)]
      rfl
    · rw [if_neg (by omega), if_neg inside]

theorem shows_last_lines {text : Text UInt8} (sized : Sized terminal) (shown : Shows terminal text)
    (narrow : ∀ line ∈ text.lines, line.length ≤ terminal.width) :
    ShowsLastLines terminal.width terminal.height text.lines terminal where
  text := by
    have size := window_length sized.heightPositive text
    have positive := sized.heightPositive
    rw [screenText, last_lines_eq]
    · apply List.map_congr_left
      intro r member
      refine row_of_cells ?_ (shown.cells r (List.mem_range.1 member))
      by_cases inside : r < (window terminal.height text.lines).length
      · rw [List.getD_eq_getElem _ _ inside]
        exact narrow _ (List.mem_of_mem_drop (List.getElem_mem inside))
      · rw [List.getD_eq_default _ _ (by omega)]
        exact Nat.zero_le _
    · rw [size, lastRow]
      omega
  row := by rw [shown.row, window_length sized.heightPositive]
  col := by rw [shown.col, Text.lines, List.getLastD_concat]

/-- From `terminal_init` on, every run of plain bytes shows the last lines of its text. -/
theorem terminal_shows_last_lines (width height : Nat) (buffer : Nat → Nat) (chars : List UInt8)
    (widthPositive : 1 ≤ width) (heightPositive : 1 ≤ height) (addressable : width * height < 4294967296)
    (plain : ∀ c ∈ chars, Plain c) :
    ShowsLastLines width height (breakLines newline width [] chars)
      (terminalRun (terminalInit width height buffer) chars) := by
  have sized : Sized (terminalInit width height buffer) := ⟨widthPositive, heightPositive, addressable⟩
  obtain ⟨shown, sameWidth, sameHeight⟩ := run_shows chars sized plain (init_shows buffer sized)
  have lines := @lines_put_all UInt8 _ newline width chars ⟨[], []⟩
  rw [List.nil_append] at lines
  have narrow : ∀ line ∈ (chars.foldl (putSymbol newline width) ⟨[], []⟩).lines, line.length ≤ width := by
    rw [lines]
    exact break_lines_narrow widthPositive chars (Nat.zero_le _)
  have final := shows_last_lines (sized_of_same sized sameWidth sameHeight) shown
  rw [sameWidth, sameHeight] at final
  rw [← lines]
  exact final narrow

/-- A full line, its newline, and a line that wraps, on a screen of two rows. -/
theorem terminal_shows_wrapped :
    ShowsLastLines 2 2 [[97, 98], [99, 100], [101]]
      (terminalRun (terminalInit 2 2 fun _ => 0) [97, 98, newline, 99, 100, 101]) :=
  terminal_shows_last_lines 2 2 (fun _ => 0) [97, 98, newline, 99, 100, 101] (by decide) (by decide)
    (by decide) (by decide +kernel)

end Runs

end ParadiseOS.TerminalText
