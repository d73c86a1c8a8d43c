import Mathlib.Tactic.IntervalCases
import ParadiseOS.HeapModel

/-!
# The packed usage map as an array, and what each loop of the allocator does to it

Everything later modules know about the bytes of the map is `get_usage_set`: the
two-bit fields are independent cells. The loops are then described by the cells
they read and write.
-/

namespace ParadiseOS.HeapUsage

open MachineWord HeapModel

set_option autoImplicit false

variable {heap : Heap}

private theorem set_pair_to_nat (byte : UInt8) (shift usage : Nat) (shiftBound : shift < 7)
    (small : usage < 4) :
    (setBitPair byte shift usage).toNat =
      (byte.toNat &&& (0xFF ^^^ (3 <<< shift))) ||| (usage <<< shift) := by
  have fits : (byte.toNat &&& (0xFF ^^^ (3 <<< shift))) ||| (usage <<< shift) < 2 ^ 8 := by
    apply Nat.or_lt_two_pow
    · exact lt_of_le_of_lt Nat.and_le_left byte.toNat_lt
    · rw [Nat.shiftLeft_eq]
      calc usage * 2 ^ shift ≤ 3 * 2 ^ 6 :=
            Nat.mul_le_mul (by omega) (Nat.pow_le_pow_right (by decide) (by omega))
        _ < 2 ^ 8 := by decide
  simp only [setBitPair, UInt8.toNat_ofNat']
  exact Nat.mod_eq_of_lt fits

private theorem test_bit_of_small {n bit : Nat} (small : n < 4) (high : 2 ≤ bit) :
    n.testBit bit = false :=
  Nat.testBit_lt_two_pow
    (lt_of_lt_of_le small (Nat.pow_le_pow_right (by decide : 0 < 2) high))

private theorem set_pair_same (byte : UInt8) (shift usage : Nat) (shiftBound : shift < 7)
    (small : usage < 4) : ((setBitPair byte shift usage).toNat >>> shift) &&& 3 = usage := by
  rw [set_pair_to_nat byte shift usage shiftBound small]
  apply Nat.eq_of_testBit_eq
  intro bit
  simp only [Nat.testBit_and, Nat.testBit_shiftRight, Nat.testBit_or, Nat.testBit_xor,
    Nat.testBit_shiftLeft]
  by_cases low : bit < 2
  · have field : (3 : Nat).testBit bit = true := by interval_cases bit <;> decide
    have inByte : (255 : Nat).testBit (shift + bit) = true := by
      interval_cases shift <;> interval_cases bit <;> decide
    simp [field, inByte]
  · have field : (3 : Nat).testBit bit = false := test_bit_of_small (by decide) (by omega)
    simp [field, test_bit_of_small small (by omega : 2 ≤ bit)]

private theorem set_pair_other (byte : UInt8) (shift other usage : Nat)
    (shiftBound : shift < 7) (otherBound : other < 7) (apart : shift + 2 ≤ other ∨ other + 2 ≤ shift)
    (small : usage < 4) :
    ((setBitPair byte shift usage).toNat >>> other) &&& 3 = (byte.toNat >>> other) &&& 3 := by
  rw [set_pair_to_nat byte shift usage shiftBound small]
  apply Nat.eq_of_testBit_eq
  intro bit
  simp only [Nat.testBit_and, Nat.testBit_shiftRight, Nat.testBit_or, Nat.testBit_xor,
    Nat.testBit_shiftLeft]
  by_cases low : bit < 2
  · have inByte : (255 : Nat).testBit (other + bit) = true := by
      interval_cases other <;> interval_cases bit <;> decide
    rcases apart with before | after
    · have outside : (3 : Nat).testBit (other + bit - shift) = false :=
        test_bit_of_small (by decide) (by omega)
      simp [inByte, outside, test_bit_of_small small (by omega : 2 ≤ other + bit - shift)]
    · simp [inByte, show ¬ shift ≤ other + bit by omega]
  · have field : (3 : Nat).testBit bit = false := test_bit_of_small (by decide) (by omega)
    simp [field]

theorem get_usage_lt (index : Nat) : heapGetUsage heap index < 4 := by
  simp only [heapGetUsage]
  exact lt_of_le_of_lt Nat.and_le_right (by decide)

/-- Reading after writing: the cells of the map are independent. -/
theorem get_usage_set (index other usage : Nat) (small : usage < 4) :
    heapGetUsage (heapSetUsage heap index usage) other =
      if other = index then usage else heapGetUsage heap other := by
  simp only [heapGetUsage, heapSetUsage]
  by_cases same : other = index
  · subst other
    rw [if_pos rfl, if_pos rfl]
    exact set_pair_same _ _ _ (by omega) small
  · rw [if_neg same]
    by_cases sameByte : other / 4 = index / 4
    · rw [if_pos sameByte, sameByte]
      exact set_pair_other _ _ _ _ (by omega) (by omega) (by omega) small
    · rw [if_neg sameByte]

@[simp] theorem set_usage_start (index usage : Nat) :
    (heapSetUsage heap index usage).heapStart = heap.heapStart := rfl

@[simp] theorem set_usage_count (index usage : Nat) :
    (heapSetUsage heap index usage).pageCount = heap.pageCount := rfl

@[simp] theorem set_usage_from_start (usage start count : Nat) :
    (setUsageFrom heap usage start count).heapStart = heap.heapStart := by
  induction count generalizing heap start with
  | zero => rfl
  | succ count ih => rw [setUsageFrom, ih, set_usage_start]

@[simp] theorem set_usage_from_count (usage start count : Nat) :
    (setUsageFrom heap usage start count).pageCount = heap.pageCount := by
  induction count generalizing heap start with
  | zero => rfl
  | succ count ih => rw [setUsageFrom, ih, set_usage_count]

/-- A marking loop sets exactly the cells of its range. -/
theorem get_usage_set_from (usage start count index : Nat) (small : usage < 4)
    (fits : start + count < 4294967296) :
    heapGetUsage (setUsageFrom heap usage start count) index =
      if start ≤ index ∧ index < start + count then usage else heapGetUsage heap index := by
  induction count generalizing heap start with
  | zero => rw [setUsageFrom, if_neg (by omega)]
  | succ count ih =>
      rw [setUsageFrom, u32_of_lt (by omega), ih (start + 1) (by omega),
        get_usage_set start index usage small]
      by_cases first : index = start
      · rw [if_neg (by omega), if_pos first, if_pos (by omega)]
      · rw [if_neg first]
        by_cases inside : start + 1 ≤ index ∧ index < start + 1 + count
        · rw [if_pos inside, if_pos (by omega)]
        · rw [if_neg inside, if_neg (by omega)]

theorem heap_is_space_free_iff (start space : Nat) (fits : start + space < 4294967296) :
    heapIsSpaceFree heap start space = true ↔
      ∀ index, start ≤ index → index < start + space → heapGetUsage heap index = heapPageFree := by
  induction space generalizing start with
  | zero =>
      simp only [heapIsSpaceFree, true_iff]
      intro index low high
      omega
  | succ space ih =>
      rw [heapIsSpaceFree, u32_of_lt (by omega)]
      by_cases free : heapGetUsage heap start = heapPageFree
      · rw [if_neg (not_not.mpr free), ih (start + 1) (by omega)]
        constructor
        · intro rest index low high
          by_cases first : index = start
          · exact first ▸ free
          · exact rest index (by omega) (by omega)
        · intro all index low high
          exact all index (by omega) (by omega)
      · rw [if_pos free]
        constructor
        · intro impossible
          cases impossible
        · intro all
          exact (free (all start (le_refl _) (by omega))).elim

/-- The three tries of `get_new_color` always find a used colour that differs
from both neighbours, so its assertion is unreachable. -/
theorem get_new_color_ok (left right : Nat) (leftBound : left < 4) (rightBound : right < 4) :
    ∃ color, getNewColor left right = .ok color ∧ 0 < color ∧ color < 4 ∧
      color ≠ left ∧ color ≠ right := by
  interval_cases left <;> interval_cases right <;>
    first
      | exact ⟨1, rfl, by decide⟩
      | exact ⟨2, rfl, by decide⟩
      | exact ⟨3, rfl, by decide⟩

/-- What `heap_mark_used` does inside the heap: the range gets one used colour
that differs from the usage on either side. -/
theorem heap_mark_used_ok (heap : Heap) (start space : Nat) (nonempty : 0 < space)
    (startBound : start < heap.pageCount) (fits : start + space < 4294967296)
    (countBound : heap.pageCount < 4294967296) :
    ∃ color, heapMarkUsed heap start space = .ok (setUsageFrom heap color start space) ∧
      0 < color ∧ color < 4 ∧
      (0 < start → color ≠ heapGetUsage heap (start - 1)) ∧
      (start + space < heap.pageCount → color ≠ heapGetUsage heap (start + space)) := by
  have endEq : sub32 (start + space) 1 = start + space - 1 := sub32_of_le (by omega) fits
  have lastEq : sub32 heap.pageCount 1 = heap.pageCount - 1 := sub32_of_le (by omega) countBound
  have nextEq : u32 (start + space - 1 + 1) = start + space := by
    rw [Nat.sub_add_cancel (by omega), u32_of_lt fits]
  obtain ⟨color, found, used, small, notLeft, notRight⟩ := get_new_color_ok
    (if start > 0 then heapGetUsage heap (start - 1) else heapPageFree)
    (if start + space - 1 < heap.pageCount - 1 then heapGetUsage heap (start + space)
      else heapPageFree)
    (by split_ifs; exacts [get_usage_lt _, by decide])
    (by split_ifs; exacts [get_usage_lt _, by decide])
  refine ⟨color, ?_, used, small, ?_, ?_⟩
  · simp only [heapMarkUsed, endEq, lastEq, nextEq, found, Trap.ok_bind, Trap.pure_ok]
  · intro interior
    simpa only [if_pos interior] using notLeft
  · intro interior
    simpa only [if_pos (show start + space - 1 < heap.pageCount - 1 by omega)] using notRight

/-- The scan of `heap_alloc` stops at the first window of free pages. -/
theorem alloc_scan_some {pages fuel i space start first found : Nat}
    (positive : 0 < pages) (window : start + space = i) (short : space < pages)
    (free : ∀ index, start ≤ index → index < i → heapGetUsage heap index = heapPageFree)
    (scanned : allocScan heap pages fuel i space start = some (first, found)) :
    found = pages ∧ start ≤ first ∧ first + pages ≤ i + fuel ∧
      (∀ index, first ≤ index → index < first + pages → heapGetUsage heap index = heapPageFree) ∧
      ∀ earlier, start ≤ earlier → earlier < first →
        ∃ index, earlier ≤ index ∧ index < earlier + pages ∧
          heapGetUsage heap index ≠ heapPageFree := by
  induction fuel generalizing i space start with
  | zero => simp [allocScan] at scanned
  | succ fuel ih =>
      rw [allocScan] at scanned
      by_cases here : heapGetUsage heap i = heapPageFree
      · rw [if_pos here] at scanned
        have extended : ∀ index, start ≤ index → index < i + 1 →
            heapGetUsage heap index = heapPageFree := by
          intro index low high
          by_cases last : index = i
          · exact last ▸ here
          · exact free index low (by omega)
        by_cases enough : space + 1 ≥ pages
        · rw [if_pos enough] at scanned
          simp only [Option.some.injEq, Prod.mk.injEq] at scanned
          obtain ⟨rfl, rfl⟩ := scanned
          exact ⟨by omega, le_refl _, by omega,
            fun index low high => extended index low (by omega),
            fun earlier low high => by omega⟩
        · rw [if_neg enough] at scanned
          obtain ⟨size, low, high, rest⟩ := ih (by omega) (by omega) extended scanned
          exact ⟨size, low, by omega, rest⟩
      · rw [if_neg here] at scanned
        obtain ⟨size, low, high, vacant, minimal⟩ := ih (by omega) (by omega)
          (fun index low high => by omega) scanned
        refine ⟨size, by omega, by omega, vacant, ?_⟩
        intro earlier from_start before
        -- a window that starts at or before the used page `i` and fits before it would have
        -- been returned, so it runs into `i`
        by_cases passed : i + 1 ≤ earlier
        · exact minimal earlier passed before
        · exact ⟨i, by omega, by omega, here⟩

theorem alloc_scan_none {pages fuel i space start : Nat}
    (positive : 0 < pages) (window : start + space = i) (short : space < pages)
    (scanned : allocScan heap pages fuel i space start = none) :
    ∀ first, start ≤ first → first + pages ≤ i + fuel →
      ∃ index, first ≤ index ∧ index < first + pages ∧ heapGetUsage heap index ≠ heapPageFree := by
  induction fuel generalizing i space start with
  | zero =>
      intro first low high
      omega
  | succ fuel ih =>
      rw [allocScan] at scanned
      intro first low high
      by_cases here : heapGetUsage heap i = heapPageFree
      · rw [if_pos here] at scanned
        by_cases enough : space + 1 ≥ pages
        · rw [if_pos enough] at scanned
          cases scanned
        · rw [if_neg enough] at scanned
          exact ih (by omega) (by omega) scanned first low (by omega)
      · rw [if_neg here] at scanned
        by_cases passed : i + 1 ≤ first
        · exact ih (by omega) (by omega) scanned first passed (by omega)
        · exact ⟨i, by omega, by omega, here⟩

/-- The colour run found by a scan. -/
theorem color_run_end_ok {color fuel start stop : Nat}
    (scanned : colorRunEnd heap color fuel start = .ok stop) :
    start ≤ stop ∧ stop < start + fuel ∧ heapGetUsage heap stop ≠ color ∧
      ∀ index, start ≤ index → index < stop → heapGetUsage heap index = color := by
  induction fuel generalizing start with
  | zero => simp [colorRunEnd] at scanned
  | succ fuel ih =>
      rw [colorRunEnd] at scanned
      by_cases here : heapGetUsage heap start = color
      · rw [if_pos here] at scanned
        obtain ⟨low, high, stopped, inside⟩ := ih scanned
        refine ⟨by omega, by omega, stopped, ?_⟩
        intro index above below
        by_cases first : index = start
        · exact first ▸ here
        · exact inside index (by omega) below
      · rw [if_neg here] at scanned
        simp only [Except.ok.injEq] at scanned
        subst stop
        exact ⟨le_refl _, by omega, here, fun index above below => by omega⟩

/-- A run that ends within the scanned indices is found. -/
theorem color_run_end_of_run {color fuel start stop : Nat} (ordered : start ≤ stop)
    (within : stop < start + fuel) (stopped : heapGetUsage heap stop ≠ color)
    (inside : ∀ index, start ≤ index → index < stop → heapGetUsage heap index = color) :
    colorRunEnd heap color fuel start = .ok stop := by
  induction fuel generalizing start with
  | zero => omega
  | succ fuel ih =>
      rw [colorRunEnd]
      by_cases done : start = stop
      · subst start
        rw [if_neg stopped]
      · rw [if_pos (inside start (le_refl _) (by omega))]
        exact ih (by omega) (by omega) (fun index low high => inside index (by omega) high)

/-- A scan does not see what was written below it. -/
theorem color_run_end_set_before {color fuel start index : Nat} (before : index < start) :
    colorRunEnd (heapSetUsage heap index heapPageFree) color fuel start =
      colorRunEnd heap color fuel start := by
  induction fuel generalizing start with
  | zero => rfl
  | succ fuel ih =>
      have different : start ≠ index := by omega
      rw [colorRunEnd, colorRunEnd, get_usage_set _ _ _ (by decide), if_neg different,
        ih (by omega)]

/-- The loop of `heap_free` clears the colour run from its start and counts it. -/
theorem free_run_eq (color fuel start count : Nat)
    (fits : start + fuel ≤ 4294967296) :
    freeRun color fuel heap start count =
      (colorRunEnd heap color fuel start).map fun stop =>
        (count + (stop - start), setUsageFrom heap heapPageFree start (stop - start)) := by
  induction fuel generalizing heap start count with
  | zero => rfl
  | succ fuel ih =>
      rw [freeRun, colorRunEnd]
      by_cases here : heapGetUsage heap start = color
      · rw [if_pos here, if_pos here, ih (start + 1) (count + 1) (by omega)]
        rw [color_run_end_set_before (Nat.lt_succ_self start)]
        cases scanned : colorRunEnd heap color fuel (start + 1) with
        | error trap => rfl
        | ok stop =>
            obtain ⟨low, high, _, _⟩ := color_run_end_ok scanned
            have split : stop - start = (stop - (start + 1)) + 1 := by omega
            simp only [Except.map]
            rw [split, setUsageFrom, u32_of_lt (by omega)]
            simp only [Except.ok.injEq, Prod.mk.injEq, and_true]
            omega
      · rw [if_neg here, if_neg here]
        simp [Except.map, setUsageFrom]

end ParadiseOS.HeapUsage
