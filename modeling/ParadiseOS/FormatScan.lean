import ParadiseOS.FormatModel
import Mathlib.Algebra.Group.Nat.Even

/-!
# How far a format is read

The loop of `vsnprintf` with the places at which it reads the format. It stops at the NUL
exactly when an even number of `%` stands at the end of the format: behind a last lone `%`
the loop steps over the NUL.
-/

namespace ParadiseOS.FormatScan

open FormatModel

set_option autoImplicit false

section Statement

/-- The loop over the digits of a precision: the places it reads, and the last digit. -/
def scanPrecision (fmt : Nat → UInt8) : Nat → Nat → Option (List Nat × Nat)
  | 0, _ => none
  | fuel + 1, pos =>
      if isDigit (fmt (pos + 1)) then do
        let (reads, last) ← scanPrecision fmt fuel (pos + 1)
        pure ((pos + 1) :: reads, last)
      else some ([pos + 1], pos)

/-- The loop of `vsnprintf` over a format in memory: the places it reads, and where it ends. -/
def scanFormat (fmt : Nat → UInt8) : Nat → Nat → Option (List Nat × Nat)
  | 0, _ => none
  | fuel + 1, pos =>
      if fmt pos = 0 then some ([pos], pos)
      else if fmt pos = ch '%' then
        if fmt (pos + 1) = ch '.' then do
          let (digits, last) ← scanPrecision fmt fuel (pos + 1)
          let last := if fmt (last + 1) = ch 'f' then last + 1 else last
          let (reads, stop) ← scanFormat fmt fuel (last + 1)
          pure (pos :: (pos + 1) :: (digits ++ reads), stop)
        else do
          let (reads, stop) ← scanFormat fmt fuel (pos + 1 + 1)
          pure (pos :: (pos + 1) :: reads, stop)
      else do
        let (reads, stop) ← scanFormat fmt fuel (pos + 1)
        pure (pos :: reads, stop)

/-- A string of these bytes lies at the place. -/
def StringAt (fmt : Nat → UInt8) : Nat → List UInt8 → Prop
  | pos, [] => fmt pos = 0
  | pos, c :: text => c ≠ 0 ∧ fmt pos = c ∧ StringAt fmt (pos + 1) text

/-- The loop ends at the NUL and reads nothing behind it. -/
def StopsAtNul (fmt : Nat → UInt8) (length : Nat) : Prop :=
  ∃ fuel reads, scanFormat fmt fuel 0 = some (reads, length) ∧ ∀ pos ∈ reads, pos ≤ length

/-- The number of `%` at the end of a format. -/
def trailingPercents (text : List UInt8) : Nat := (text.reverse.takeWhile (· = ch '%')).length

end Statement

section Tokens

variable {c : UInt8} {text rest : List UInt8}

theorem trailing_le (text : List UInt8) : trailingPercents text ≤ text.length := by
  have short := (List.takeWhile_sublist (p := fun c => decide (c = ch '%')) (l := text.reverse)).length_le
  rwa [List.length_reverse] at short

theorem trailing_cons (c : UInt8) (rest : List UInt8) : trailingPercents (c :: rest) =
    if trailingPercents rest = rest.length ∧ c = ch '%' then rest.length + 1 else trailingPercents rest := by
  unfold trailingPercents
  rw [List.reverse_cons, List.takeWhile_append, List.length_reverse]
  by_cases whole : (List.takeWhile (fun c => decide (c = ch '%')) rest.reverse).length = rest.length
  · rw [if_pos whole]
    by_cases percent : c = ch '%'
    · rw [if_pos ⟨whole, percent⟩, percent]
      simp
    · rw [if_neg fun both => percent both.2, List.takeWhile_cons_of_neg (by simpa using percent), List.append_nil,
        List.length_reverse, whole]
  · rw [if_neg whole, if_neg fun both => whole both.1]

/-- Only a `%` can add to the ones at the end. -/
theorem trailing_other (other : c ≠ ch '%') : trailingPercents (c :: rest) = trailingPercents rest := by
  rw [trailing_cons, if_neg fun both => other both.2]

/-- Two bytes from a `%` on leave the parity as it is. -/
theorem trailing_conversion (c : UInt8) (rest : List UInt8) :
    Even (trailingPercents (ch '%' :: c :: rest)) ↔ Even (trailingPercents rest) := by
  have short := trailing_le rest
  rw [trailing_cons, trailing_cons c rest, List.length_cons]
  by_cases both : trailingPercents rest = rest.length ∧ c = ch '%'
  · rw [if_pos both, if_pos ⟨rfl, rfl⟩, both.1, Nat.even_add_one, Nat.even_add_one, not_not]
  · rw [if_neg both, if_neg fun whole => by omega]

theorem trailing_lone : ¬ Even (trailingPercents [ch '%']) := by decide

theorem trailing_digits (text : List UInt8) :
    trailingPercents (text.dropWhile isDigit) = trailingPercents text := by
  induction text with
  | nil => rfl
  | cons c text ih =>
      by_cases digit : isDigit c = true
      · have other : c ≠ ch '%' := by
          rintro rfl
          exact absurd digit (by decide)
        rw [List.dropWhile_cons_of_pos digit, ih, trailing_other other]
      · rw [List.dropWhile_cons_of_neg digit]

/-- What is left of the format behind a precision. -/
def behindPrecision (text : List UInt8) : List UInt8 :=
  match text.dropWhile isDigit with
  | [] => []
  | c :: rest => if c = ch 'f' then rest else c :: rest

theorem trailing_precision (text : List UInt8) :
    trailingPercents (behindPrecision text) = trailingPercents text := by
  rw [← trailing_digits text, behindPrecision]
  cases text.dropWhile isDigit with
  | nil => rfl
  | cons c rest =>
      dsimp only
      split_ifs with float
      · rw [trailing_other (by rw [float]; decide)]
      · rfl

theorem behind_precision_le (text : List UInt8) : (behindPrecision text).length ≤ text.length := by
  have short := (List.dropWhile_sublist isDigit (l := text)).length_le
  unfold behindPrecision
  revert short
  cases text.dropWhile isDigit with
  | nil => exact fun _ => Nat.zero_le _
  | cons c rest =>
      intro short
      rw [List.length_cons] at short
      dsimp only
      split_ifs
      · omega
      · rw [List.length_cons]
        exact short

end Tokens

section Scan

variable {fmt : Nat → UInt8} {text : List UInt8}

/-- The loop of a precision ends before the first byte that is no digit. -/
theorem scan_precision_ends {fuel pos last : Nat} {reads : List Nat} (string : StringAt fmt (pos + 1) text)
    (completed : scanPrecision fmt fuel pos = some (reads, last)) :
    StringAt fmt (last + 1) (text.dropWhile isDigit) ∧
      last + 1 + (text.dropWhile isDigit).length = pos + 1 + text.length ∧
      ∀ place ∈ reads, place ≤ pos + 1 + text.length := by
  induction fuel generalizing pos text reads with
  | zero => cases completed
  | succ fuel ih =>
      rw [scanPrecision] at completed
      cases text with
      | nil =>
          rw [show fmt (pos + 1) = 0 from string, if_neg (by decide)] at completed
          cases completed
          exact ⟨string, rfl, fun place member => (List.mem_singleton.1 member).le⟩
      | cons c text =>
          obtain ⟨_, isFirst, rest⟩ := string
          rw [isFirst] at completed
          by_cases digit : isDigit c = true
          · rw [if_pos digit] at completed
            obtain ⟨⟨digits, stop⟩, onward, same⟩ := Option.bind_eq_some_iff.1 completed
            cases same
            obtain ⟨string, place, bounded⟩ := ih rest onward
            rw [List.dropWhile_cons_of_pos digit, List.length_cons]
            refine ⟨string, by omega, ?_⟩
            intro other member
            rcases List.mem_cons.1 member with rfl | later
            · omega
            · have bound := bounded other later
              omega
          · rw [if_neg digit] at completed
            cases completed
            rw [List.dropWhile_cons_of_neg digit]
            refine ⟨⟨‹_›, isFirst, rest⟩, rfl, ?_⟩
            intro other member
            rw [List.mem_singleton.1 member]
            omega

theorem scan_precision_returns {fuel pos : Nat} (string : StringAt fmt (pos + 1) text)
    (enough : text.length < fuel) : ∃ result, scanPrecision fmt fuel pos = some result := by
  induction fuel generalizing pos text with
  | zero => omega
  | succ fuel ih =>
      rw [scanPrecision]
      cases text with
      | nil =>
          rw [show fmt (pos + 1) = 0 from string, if_neg (by decide)]
          exact ⟨_, rfl⟩
      | cons c text =>
          obtain ⟨_, isFirst, rest⟩ := string
          rw [isFirst]
          split_ifs
          · obtain ⟨result, onward⟩ := ih rest (Nat.lt_of_succ_lt_succ enough)
            rw [onward]
            exact ⟨_, rfl⟩
          · exact ⟨_, rfl⟩

/-- Behind a precision, and the `f` that may follow it, is the rest of the format. -/
theorem behind_precision_at {last : Nat} (string : StringAt fmt (last + 1) (text.dropWhile isDigit)) :
    StringAt fmt ((if fmt (last + 1) = ch 'f' then last + 1 else last) + 1) (behindPrecision text) ∧
      (if fmt (last + 1) = ch 'f' then last + 1 else last) + 1 + (behindPrecision text).length =
        last + 1 + (text.dropWhile isDigit).length := by
  unfold behindPrecision
  revert string
  cases text.dropWhile isDigit with
  | nil =>
      intro string
      rw [show fmt (last + 1) = 0 from string, if_neg (by decide)]
      exact ⟨string, rfl⟩
  | cons c rest =>
      intro string
      obtain ⟨notNul, isFirst, onward⟩ := string
      rw [isFirst]
      dsimp only
      split_ifs
      · refine ⟨onward, ?_⟩
        rw [List.length_cons]
        omega
      · exact ⟨⟨notNul, isFirst, onward⟩, rfl⟩

theorem first_read {fuel pos stop : Nat} {reads : List Nat}
    (completed : scanFormat fmt fuel pos = some (reads, stop)) : pos ∈ reads := by
  cases fuel with
  | zero => cases completed
  | succ fuel =>
      rw [scanFormat] at completed
      split_ifs at completed
      · cases completed
        exact List.mem_singleton_self pos
      · obtain ⟨_, _, later⟩ := Option.bind_eq_some_iff.1 completed
        obtain ⟨_, _, same⟩ := Option.bind_eq_some_iff.1 later
        cases same
        exact List.mem_cons_self
      · obtain ⟨_, _, same⟩ := Option.bind_eq_some_iff.1 completed
        cases same
        exact List.mem_cons_self
      · obtain ⟨_, _, same⟩ := Option.bind_eq_some_iff.1 completed
        cases same
        exact List.mem_cons_self

/-- What a scan that ends has read: nothing behind the NUL, or the byte behind it. -/
def ScanReads (text : List UInt8) (pos stop : Nat) (reads : List Nat) : Prop :=
  if Even (trailingPercents text) then stop = pos + text.length ∧ ∀ place ∈ reads, place ≤ pos + text.length
  else pos + text.length + 1 ∈ reads

/-- More reads before those of the rest of the format. -/
theorem scan_reads_before {pos next stop : Nat} {rest : List UInt8} {before reads : List Nat}
    (parity : Even (trailingPercents text) ↔ Even (trailingPercents rest))
    (same : next + rest.length = pos + text.length) (bounded : ∀ place ∈ before, place ≤ pos + text.length)
    (later : ScanReads rest next stop reads) : ScanReads text pos stop (before ++ reads) := by
  unfold ScanReads at later ⊢
  rw [same] at later
  by_cases even : Even (trailingPercents rest)
  · rw [if_pos even] at later
    rw [if_pos (parity.2 even)]
    refine ⟨later.1, ?_⟩
    intro place member
    rcases List.mem_append.1 member with early | late
    · exact bounded place early
    · exact later.2 place late
  · rw [if_neg even] at later
    rw [if_neg (mt parity.1 even)]
    exact List.mem_append_right _ later

theorem scan_format_reads {fuel pos stop : Nat} {reads : List Nat} (string : StringAt fmt pos text)
    (completed : scanFormat fmt fuel pos = some (reads, stop)) : ScanReads text pos stop reads := by
  induction fuel generalizing pos text reads with
  | zero => cases completed
  | succ fuel ih =>
      rw [scanFormat] at completed
      cases text with
      | nil =>
          rw [if_pos (show fmt pos = 0 from string)] at completed
          cases completed
          exact ⟨rfl, fun place member => (List.mem_singleton.1 member).le⟩
      | cons c rest =>
          obtain ⟨notNul, isFirst, onward⟩ := string
          rw [isFirst, if_neg notNul] at completed
          by_cases percent : c = ch '%'
          · rw [if_pos percent] at completed
            subst percent
            cases rest with
            | nil =>
                -- the conversion is the NUL, and the next round reads behind it
                rw [show fmt (pos + 1) = 0 from onward, if_neg (by decide)] at completed
                obtain ⟨⟨later, _⟩, scanned, same⟩ := Option.bind_eq_some_iff.1 completed
                cases same
                unfold ScanReads
                rw [if_neg trailing_lone]
                exact List.mem_cons_of_mem _ (List.mem_cons_of_mem _ (first_read scanned))
            | cons d rest =>
                obtain ⟨_, isSecond, onward⟩ := onward
                rw [isSecond] at completed
                by_cases dot : d = ch '.'
                · rw [if_pos dot] at completed
                  obtain ⟨⟨digits, last⟩, precision, later⟩ := Option.bind_eq_some_iff.1 completed
                  obtain ⟨⟨others, _⟩, scanned, same⟩ := Option.bind_eq_some_iff.1 later
                  cases same
                  obtain ⟨behind, place, bounded⟩ := scan_precision_ends onward precision
                  obtain ⟨rests, ends⟩ := behind_precision_at behind
                  have parity := trailing_conversion d rest
                  rw [← trailing_precision rest] at parity
                  refine @scan_reads_before _ pos _ _ _ (pos :: (pos + 1) :: digits) _ parity ?_ ?_ (ih rests scanned)
                  · rw [List.length_cons, List.length_cons]
                    omega
                  · intro read member
                    rw [List.length_cons, List.length_cons]
                    rcases List.mem_cons.1 member with rfl | member
                    · omega
                    rcases List.mem_cons.1 member with rfl | member
                    · omega
                    have bound := bounded read member
                    omega
                · rw [if_neg dot] at completed
                  obtain ⟨⟨others, _⟩, scanned, same⟩ := Option.bind_eq_some_iff.1 completed
                  cases same
                  refine @scan_reads_before _ pos _ _ _ [pos, pos + 1] _ (trailing_conversion d rest) ?_ ?_
                    (ih onward scanned)
                  · rw [List.length_cons, List.length_cons]
                    omega
                  · intro read member
                    rw [List.length_cons, List.length_cons]
                    rcases List.mem_cons.1 member with rfl | member
                    · omega
                    rw [List.mem_singleton.1 member]
                    omega
          · rw [if_neg percent] at completed
            obtain ⟨⟨others, _⟩, scanned, same⟩ := Option.bind_eq_some_iff.1 completed
            cases same
            refine @scan_reads_before _ pos _ _ _ [pos] _ (by rw [trailing_other percent]) ?_ ?_ (ih onward scanned)
            · rw [List.length_cons]
              omega
            · intro read member
              rw [List.mem_singleton.1 member]
              omega

theorem scan_format_returns {fuel pos : Nat} (string : StringAt fmt pos text)
    (even : Even (trailingPercents text)) (enough : text.length < fuel) :
    ∃ result, scanFormat fmt fuel pos = some result := by
  induction fuel generalizing pos text with
  | zero => omega
  | succ fuel ih =>
      rw [scanFormat]
      cases text with
      | nil =>
          rw [if_pos (show fmt pos = 0 from string)]
          exact ⟨_, rfl⟩
      | cons c rest =>
          obtain ⟨notNul, isFirst, onward⟩ := string
          rw [isFirst, if_neg notNul]
          rw [List.length_cons] at enough
          by_cases percent : c = ch '%'
          · rw [if_pos percent]
            subst percent
            cases rest with
            | nil => exact absurd even trailing_lone
            | cons d rest =>
                obtain ⟨_, isSecond, onward⟩ := onward
                rw [trailing_conversion] at even
                rw [isSecond]
                rw [List.length_cons] at enough
                split_ifs with dot
                · obtain ⟨⟨digits, last⟩, precision⟩ := @scan_precision_returns _ _ fuel _ onward (by omega)
                  obtain ⟨behind, _, _⟩ := scan_precision_ends onward precision
                  have few := behind_precision_le rest
                  rw [← trailing_precision rest] at even
                  obtain ⟨result, scanned⟩ := ih (behind_precision_at behind).1 even (by omega)
                  rw [precision, Option.bind_eq_bind, Option.bind_some]
                  dsimp only
                  rw [scanned]
                  exact ⟨_, rfl⟩
                · obtain ⟨result, scanned⟩ := ih onward even (by omega)
                  rw [scanned]
                  exact ⟨_, rfl⟩
          · rw [if_neg percent]
            rw [trailing_other percent] at even
            obtain ⟨result, scanned⟩ := ih onward even (by omega)
            rw [scanned]
            exact ⟨_, rfl⟩

/-- For every format, the loop ends at the NUL and reads nothing behind it exactly if an even number
of `%` stands at the end. -/
theorem stops_at_nul_iff (string : StringAt fmt 0 text) :
    StopsAtNul fmt text.length ↔ Even (trailingPercents text) := by
  constructor
  · rintro ⟨fuel, reads, completed, bounded⟩
    have facts := scan_format_reads string completed
    unfold ScanReads at facts
    by_contra odd
    rw [if_neg odd] at facts
    have bound := bounded _ facts
    omega
  · intro even
    obtain ⟨⟨reads, stop⟩, completed⟩ := scan_format_returns string even (Nat.lt_succ_self text.length)
    have facts := scan_format_reads string completed
    unfold ScanReads at facts
    rw [if_pos even, Nat.zero_add] at facts
    obtain ⟨rfl, bounded⟩ := facts
    exact ⟨_, reads, completed, bounded⟩

/-- `"%.5%%"` is read up to its NUL. -/
theorem stops_at_nul_precision :
    StopsAtNul (fun i => [ch '%', ch '.', ch '5', ch '%', ch '%'].getD i 0) 5 := by
  have string : StringAt (fun i => [ch '%', ch '.', ch '5', ch '%', ch '%'].getD i 0) 0
      [ch '%', ch '.', ch '5', ch '%', ch '%'] :=
    ⟨by decide, rfl, by decide, rfl, by decide, rfl, by decide, rfl, by decide, rfl, rfl⟩
  exact (stops_at_nul_iff string).2 (by decide)

/-- Behind the format `"%"` the byte after the NUL is read. -/
theorem scan_passes_nul : ¬ ∀ fmt text, StringAt fmt 0 text → StopsAtNul fmt text.length := by
  intro always
  obtain ⟨fuel, reads, completed, _⟩ := always (fun i => [ch '%'].getD i 0) [ch '%'] ⟨by decide, rfl, rfl⟩
  rcases fuel with _ | _ | fuel
  · cases completed
  · cases completed
  · have ran : scanFormat (fun i => [ch '%'].getD i 0) (fuel + 2) 0 = some ([0, 1, 2], 2) := rfl
    rw [ran] at completed
    have differ := (Prod.mk.inj (Option.some.inj completed)).2
    exact absurd differ (by decide)

end Scan

end ParadiseOS.FormatScan
