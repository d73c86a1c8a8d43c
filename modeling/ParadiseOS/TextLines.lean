import Mathlib.Data.List.GetD
import Mathlib.Tactic.SplitIfs

/-!
# Lines on a window of rows

A text is broken at a newline symbol and before every symbol that would exceed the
width. A window shows the last rows of it; symbols are added at the end of the last
line, and a new line moves the window down once it is full.
-/

namespace ParadiseOS.TextLines

set_option autoImplicit false

variable {Symbol : Type}

/-- The lines that are complete, and the line that is being written. -/
structure Text (Symbol : Type) where
  complete : List (List Symbol)
  current : List Symbol

namespace Text

def lines (text : Text Symbol) : List (List Symbol) := text.complete ++ [text.current]

def newLine (text : Text Symbol) : Text Symbol := ⟨text.complete ++ [text.current], []⟩

def write (text : Text Symbol) (symbol : Symbol) : Text Symbol :=
  ⟨text.complete, text.current ++ [symbol]⟩

end Text

/-- The lines of a text whose first line begins with `current`. -/
def breakLines [DecidableEq Symbol] (newline : Symbol) (width : Nat) (current : List Symbol) :
    List Symbol → List (List Symbol)
  | [] => [current]
  | symbol :: rest =>
      if symbol = newline then current :: breakLines newline width [] rest
      else if width < current.length + 1 then current :: breakLines newline width [symbol] rest
      else breakLines newline width (current ++ [symbol]) rest

/-- One symbol added to a text. -/
def putSymbol [DecidableEq Symbol] (newline : Symbol) (width : Nat) (text : Text Symbol)
    (symbol : Symbol) : Text Symbol :=
  if symbol = newline then text.newLine
  else if width ≤ text.current.length then text.newLine.write symbol
  else text.write symbol

/-- The last rows that fit. -/
def window (height : Nat) (lines : List (List Symbol)) : List (List Symbol) :=
  lines.drop (lines.length - height)

/-- The symbol in a cell of the rows, blank beyond the end of a line or of the rows. -/
def cell (blank : Symbol) (rows : List (List Symbol)) (r c : Nat) : Symbol :=
  (rows.getD r []).getD c blank

def padded (blank : Symbol) (width : Nat) (line : List Symbol) : List Symbol :=
  line ++ List.replicate (width - line.length) blank

/-- The row of the window in which the text is being written. -/
def lastRow (height : Nat) (text : Text Symbol) : Nat := min text.complete.length (height - 1)

section Breaking

variable [DecidableEq Symbol] {newline : Symbol} {width : Nat}

/-- Adding the symbols one by one breaks the text in the same places. -/
theorem lines_put_all (symbols : List Symbol) (text : Text Symbol) :
    (symbols.foldl (putSymbol newline width) text).lines =
      text.complete ++ breakLines newline width text.current symbols := by
  induction symbols generalizing text with
  | nil => rfl
  | cons symbol rest ih =>
      rw [List.foldl_cons, ih, putSymbol, breakLines]
      by_cases isNewline : symbol = newline
      · rw [if_pos isNewline, if_pos isNewline, Text.newLine, List.append_assoc, List.singleton_append]
      · rw [if_neg isNewline, if_neg isNewline]
        by_cases full : width ≤ text.current.length
        · rw [if_pos full, if_pos (by omega), Text.newLine, Text.write, List.nil_append, List.append_assoc,
            List.singleton_append]
        · rw [if_neg full, if_neg (by omega), Text.write]

/-- No line exceeds the width. -/
theorem break_lines_narrow (positive : 1 ≤ width) (symbols : List Symbol) {current : List Symbol}
    (narrow : current.length ≤ width) :
    ∀ line ∈ breakLines newline width current symbols, line.length ≤ width := by
  induction symbols generalizing current with
  | nil =>
      intro line member
      rw [List.mem_singleton.1 member]
      exact narrow
  | cons symbol rest ih =>
      rw [breakLines]
      split_ifs with isNewline full
      · rw [List.forall_mem_cons]
        exact ⟨narrow, ih (Nat.zero_le _)⟩
      · rw [List.forall_mem_cons]
        exact ⟨narrow, ih positive⟩
      · apply ih
        rw [List.length_append, List.length_singleton]
        omega

end Breaking

section Windows

variable {height : Nat} {blank : Symbol}

theorem window_lines (positive : 1 ≤ height) (text : Text Symbol) :
    window height text.lines =
      text.complete.drop (text.complete.length + 1 - height) ++ [text.current] := by
  rw [window, Text.lines, List.length_append, List.length_singleton, List.drop_append_of_le_length]
  omega

theorem length_before_last (positive : 1 ≤ height) (text : Text Symbol) :
    (text.complete.drop (text.complete.length + 1 - height)).length = lastRow height text := by
  rw [List.length_drop, lastRow]
  omega

theorem window_length (positive : 1 ≤ height) (text : Text Symbol) :
    (window height text.lines).length = lastRow height text + 1 := by
  rw [window_lines positive, List.length_append, length_before_last positive, List.length_singleton]

theorem cell_beyond {rows : List (List Symbol)} {r c : Nat} (beyond : rows.length ≤ r) :
    cell blank rows r c = blank := by
  rw [cell, List.getD_eq_default _ _ beyond]
  rfl

/-- An empty last line shows nothing. -/
theorem cell_append_empty (rows : List (List Symbol)) (r c : Nat) :
    cell blank (rows ++ [[]]) r c = cell blank rows r c := by
  by_cases inside : r < rows.length
  · rw [cell, cell, List.getD_append _ _ _ _ inside]
  · rw [cell_beyond (Nat.le_of_not_lt inside), cell, List.getD_append_right _ _ _ _ (Nat.le_of_not_lt inside)]
    cases r - rows.length <;> rfl

theorem cell_drop_one (rows : List (List Symbol)) (r c : Nat) :
    cell blank (rows.drop 1) r c = cell blank rows (r + 1) c := by
  cases rows <;> rfl

/-- A written symbol appears behind the last line and nowhere else. -/
theorem cell_write (positive : 1 ≤ height) (text : Text Symbol) (symbol : Symbol) (r c : Nat) :
    cell blank (window height (text.write symbol).lines) r c =
      if r = lastRow height text ∧ c = text.current.length then symbol
      else cell blank (window height text.lines) r c := by
  rw [window_lines positive, window_lines positive, ← length_before_last positive text]
  simp only [Text.write]
  generalize text.complete.drop (text.complete.length + 1 - height) = above
  by_cases low : r < above.length
  · rw [if_neg (by omega), cell, cell, List.getD_append _ _ _ _ low, List.getD_append _ _ _ _ low]
  · by_cases last : r = above.length
    · subst last
      rw [cell, cell, List.getD_append_right _ _ _ _ (Nat.le_refl _),
        List.getD_append_right _ _ _ _ (Nat.le_refl _), Nat.sub_self, List.getD_cons_zero, List.getD_cons_zero]
      by_cases before : c < text.current.length
      · rw [List.getD_append _ _ _ _ before, if_neg (by omega)]
      · rw [List.getD_append_right _ _ _ _ (Nat.le_of_not_lt before)]
        by_cases here : c = text.current.length
        · rw [if_pos ⟨rfl, here⟩, here, Nat.sub_self, List.getD_cons_zero]
        · rw [if_neg (by omega), List.getD_eq_default _ _ (by simp; omega),
            List.getD_eq_default _ _ (by omega)]
    · rw [if_neg (by omega), cell_beyond (by simp; omega), cell_beyond (by simp; omega)]

/-- A new line leaves a window with room as it is. -/
theorem cell_new_line_room (text : Text Symbol) (room : text.complete.length + 1 < height) (r c : Nat) :
    cell blank (window height text.newLine.lines) r c = cell blank (window height text.lines) r c := by
  rw [window_lines (by omega), window_lines (by omega)]
  simp only [Text.newLine, List.length_append, List.length_singleton]
  rw [show text.complete.length + 1 + 1 - height = 0 by omega,
    show text.complete.length + 1 - height = 0 by omega, List.drop_zero, List.drop_zero,
    cell_append_empty]

/-- A new line moves a full window down by one row. -/
theorem cell_new_line_full (positive : 1 ≤ height) (text : Text Symbol)
    (full : height ≤ text.complete.length + 1) (r c : Nat) :
    cell blank (window height text.newLine.lines) r c = cell blank (window height text.lines) (r + 1) c := by
  rw [window_lines positive, window_lines positive]
  simp only [Text.newLine, List.length_append, List.length_singleton]
  rw [cell_append_empty, ← cell_drop_one, show text.complete.length + 1 + 1 - height =
    text.complete.length + 1 - height + 1 by omega, ← List.drop_drop, List.drop_append_of_le_length (by omega)]

end Windows

end ParadiseOS.TextLines
