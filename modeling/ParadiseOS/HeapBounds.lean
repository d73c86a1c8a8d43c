import ParadiseOS.HeapRuns

/-!
# The usage map with its bounds checked

The functions of `memory/heap.c` once more, stopped at the first access to the
usage of a page that the heap does not have. A call that is never stopped does
what the unchecked one does; only `heap_alloc` is never stopped by itself.
-/

namespace ParadiseOS.HeapBounds

open MachineWord HeapModel HeapUsage HeapRuns ColouredLine StepRun

set_option autoImplicit false

/-- Why a checked call does not return: as the code itself, or because it strays. -/
inductive Stop where
  | trap (trap : Trap)
  | stray (index : Nat)
  deriving DecidableEq

section Checked

def liftTrap {Value : Type} : Except Trap Value → Except Stop Value
  | .ok value => .ok value
  | .error trap => .error (.trap trap)

def checkedGetUsage (heap : Heap) (index : Nat) : Except Stop Nat :=
  if index < heap.pageCount then .ok (heapGetUsage heap index) else .error (.stray index)

def checkedSetUsage (heap : Heap) (index usage : Nat) : Except Stop Heap :=
  if index < heap.pageCount then .ok (heapSetUsage heap index usage) else .error (.stray index)

def checkedSetUsageFrom (heap : Heap) (usage : Nat) : Nat → Nat → Except Stop Heap
  | _, 0 => .ok heap
  | start, count + 1 => do
      let heap ← checkedSetUsage heap start usage
      checkedSetUsageFrom heap usage (u32 (start + 1)) count

def checkedIsSpaceFree (heap : Heap) : Nat → Nat → Except Stop Bool
  | _, 0 => .ok true
  | start, space + 1 => do
      let usage ← checkedGetUsage heap start
      if usage ≠ heapPageFree then pure false
      else checkedIsSpaceFree heap (u32 (start + 1)) space

/-- The usage of a neighbour that is looked at under a condition. -/
def checkedUsageIf (heap : Heap) (condition : Prop) [Decidable condition] (index : Nat) :
    Except Stop Nat :=
  if condition then checkedGetUsage heap index else .ok heapPageFree

def checkedMarkUsed (heap : Heap) (start space : Nat) : Except Stop Heap := do
  let endIdx := sub32 (start + space) 1
  let left ← checkedUsageIf heap (start > 0) (start - 1)
  let right ← checkedUsageIf heap (endIdx < sub32 heap.pageCount 1) (u32 (endIdx + 1))
  let color ← liftTrap (getNewColor left right)
  checkedSetUsageFrom heap color start space

def checkedAllocScan (heap : Heap) (pages : Nat) :
    Nat → Nat → Nat → Nat → Except Stop (Option (Nat × Nat))
  | 0, _, _, _ => .ok none
  | fuel + 1, i, space, start => do
      let usage ← checkedGetUsage heap i
      if usage = heapPageFree then
        if space + 1 ≥ pages then pure (some (start, space + 1))
        else checkedAllocScan heap pages fuel (i + 1) (space + 1) start
      else checkedAllocScan heap pages fuel (i + 1) 0 (i + 1)

def checkedAlloc (heap : Heap) (pages : Nat) : Except Stop (Nat × Heap) := do
  match ← checkedAllocScan heap pages heap.pageCount 0 0 0 with
  | none => .error (.trap .assertion)
  | some (start, space) => do
      let marked ← checkedMarkUsed heap start space
      pure (pagePtr heap start, marked)

def checkedRunEnd (heap : Heap) (color : Nat) : Nat → Nat → Except Stop Nat
  | 0, _ => .error (.trap .pageFault)
  | fuel + 1, endIdx => do
      let usage ← checkedGetUsage heap endIdx
      if usage = color then checkedRunEnd heap color fuel (endIdx + 1) else pure endIdx

def checkedFreeRun (color : Nat) : Nat → Heap → Nat → Nat → Except Stop (Nat × Heap)
  | 0, _, _, _ => .error (.trap .pageFault)
  | fuel + 1, heap, i, freedCount => do
      let usage ← checkedGetUsage heap i
      if usage = color then do
        let heap ← checkedSetUsage heap i heapPageFree
        checkedFreeRun color fuel heap (i + 1) (freedCount + 1)
      else pure (freedCount, heap)

def checkedFree (heap : Heap) (ptr : Nat) : Except Stop (Nat × Heap) := do
  liftTrap (kernelAssert (isPageAligned ptr = true))
  let start := pageIndex heap ptr
  let color ← checkedGetUsage heap start
  liftTrap (kernelAssert (color ≠ heapPageFree))
  checkedFreeRun color (indexLimit - start) heap start 0

/-- The last branch of `heap_realloc`. -/
def checkedMove (heap : Heap) (ptr pages : Nat) : Except Stop (Nat × Nat × Heap) := do
  let (newPtr, moved) ← checkedAlloc heap pages
  let (freedCount, freed) ← checkedFree moved ptr
  pure (freedCount, newPtr, freed)

/-- `heap_realloc` of the block at `start`, whose run of `color` ends at `endIdx`. -/
def checkedResize (heap : Heap) (ptr pages start color endIdx : Nat) :
    Except Stop (Nat × Nat × Heap) := do
  let reallocEnd := u32 (start + pages)
  if reallocEnd ≤ endIdx then do
    let shrunk ← checkedSetUsageFrom heap heapPageFree reallocEnd (endIdx - reallocEnd)
    pure (endIdx - start, ptr, shrunk)
  else do
    let free ← checkedIsSpaceFree heap endIdx (reallocEnd - endIdx)
    if free then do
      let next ← checkedGetUsage heap reallocEnd
      if next = color then do
        let marked ← checkedMarkUsed heap start pages
        pure (endIdx - start, ptr, marked)
      else do
        let grown ← checkedSetUsageFrom heap color endIdx (reallocEnd - endIdx)
        pure (endIdx - start, ptr, grown)
    else checkedMove heap ptr pages

def checkedRealloc (heap : Heap) (ptr pages : Nat) : Except Stop (Nat × Nat × Heap) := do
  liftTrap (kernelAssert (isPageAligned ptr = true))
  let start := pageIndex heap ptr
  let color ← checkedGetUsage heap start
  liftTrap (kernelAssert (color ≠ heapPageFree))
  let endIdx ← checkedRunEnd heap color (indexLimit - (start + 1)) (start + 1)
  checkedResize heap ptr pages start color endIdx

end Checked

section Agreement

variable {Value Result : Type}

/-- The checked computation strays, or it is the unchecked one. -/
def Agrees (checked : Except Stop Value) (plain : Except Trap Value) : Prop :=
  (∃ index, checked = .error (.stray index)) ∨ checked = liftTrap plain

theorem agrees_lift (plain : Except Trap Value) : Agrees (liftTrap plain) plain := .inr rfl

theorem agrees_ok (value : Value) : Agrees (.ok value) (.ok value) := .inr rfl

theorem checked_ok_bind (value : Value) (next : Value → Except Stop Result) :
    ((Except.ok value : Except Stop Value) >>= next) = next value := rfl

theorem checked_error_bind (stop : Stop) (next : Value → Except Stop Result) :
    ((Except.error stop : Except Stop Value) >>= next) = .error stop := rfl

theorem agrees_bind {checked : Except Stop Value} {plain : Except Trap Value}
    {next : Value → Except Stop Result} {plainNext : Value → Except Trap Result}
    (first : Agrees checked plain) (rest : ∀ value, Agrees (next value) (plainNext value)) :
    Agrees (checked >>= next) (plain >>= plainNext) := by
  rcases first with ⟨index, strayed⟩ | same
  · exact .inl ⟨index, by rw [strayed]; rfl⟩
  · rw [same]
    cases plain with
    | error trap => exact .inr rfl
    | ok value => exact rest value

/-- The unchecked computation needs no step here. -/
theorem agrees_bind_ok {checked : Except Stop Value} {value : Value}
    {next : Value → Except Stop Result} {plain : Except Trap Result}
    (first : Agrees checked (.ok value)) (rest : Agrees (next value) plain) :
    Agrees (checked >>= next) plain := by
  rcases first with ⟨index, strayed⟩ | same
  · exact .inl ⟨index, by rw [strayed]; rfl⟩
  · rw [same]
    exact rest

variable (heap : Heap)

theorem checked_get_agrees (index : Nat) :
    Agrees (checkedGetUsage heap index) (.ok (heapGetUsage heap index)) := by
  unfold checkedGetUsage
  split_ifs
  · exact agrees_ok _
  · exact .inl ⟨index, rfl⟩

theorem checked_set_agrees (index usage : Nat) :
    Agrees (checkedSetUsage heap index usage) (.ok (heapSetUsage heap index usage)) := by
  unfold checkedSetUsage
  split_ifs
  · exact agrees_ok _
  · exact .inl ⟨index, rfl⟩

theorem checked_set_from_agrees (usage start count : Nat) :
    Agrees (checkedSetUsageFrom heap usage start count) (.ok (setUsageFrom heap usage start count)) := by
  induction count generalizing heap start with
  | zero => exact agrees_ok _
  | succ count ih => exact agrees_bind_ok (checked_set_agrees heap start usage) (ih _ _)

theorem checked_space_agrees (start space : Nat) :
    Agrees (checkedIsSpaceFree heap start space) (.ok (heapIsSpaceFree heap start space)) := by
  induction space generalizing start with
  | zero => exact agrees_ok _
  | succ space ih =>
      refine agrees_bind_ok (checked_get_agrees heap start) ?_
      rw [heapIsSpaceFree]
      split_ifs
      · exact agrees_ok _
      · exact ih _

theorem checked_usage_if_agrees (condition : Prop) [Decidable condition] (index : Nat) :
    Agrees (checkedUsageIf heap condition index)
      (.ok (if condition then heapGetUsage heap index else heapPageFree)) := by
  unfold checkedUsageIf
  split_ifs
  · exact checked_get_agrees heap index
  · exact agrees_ok _

theorem checked_mark_agrees (start space : Nat) :
    Agrees (checkedMarkUsed heap start space) (heapMarkUsed heap start space) := by
  refine agrees_bind_ok (checked_usage_if_agrees heap _ _) ?_
  refine agrees_bind_ok (checked_usage_if_agrees heap _ _) ?_
  refine agrees_bind (agrees_lift _) fun color => ?_
  exact checked_set_from_agrees heap color start space

theorem checked_scan_agrees (pages fuel i space start : Nat) :
    Agrees (checkedAllocScan heap pages fuel i space start)
      (.ok (allocScan heap pages fuel i space start)) := by
  induction fuel generalizing i space start with
  | zero => exact agrees_ok _
  | succ fuel ih =>
      refine agrees_bind_ok (checked_get_agrees heap i) ?_
      rw [allocScan]
      split_ifs
      · exact agrees_ok _
      · exact ih _ _ _
      · exact ih _ _ _

theorem checked_alloc_agrees (pages : Nat) :
    Agrees (checkedAlloc heap pages) (heapAlloc heap pages) := by
  refine agrees_bind_ok (checked_scan_agrees heap pages heap.pageCount 0 0 0) ?_
  rw [heapAlloc]
  cases allocScan heap pages heap.pageCount 0 0 0 with
  | none => exact .inr rfl
  | some window =>
      refine agrees_bind (checked_mark_agrees heap window.1 window.2) fun marked => ?_
      exact agrees_ok _

theorem checked_run_agrees (color fuel endIdx : Nat) :
    Agrees (checkedRunEnd heap color fuel endIdx) (colorRunEnd heap color fuel endIdx) := by
  induction fuel generalizing endIdx with
  | zero => exact .inr rfl
  | succ fuel ih =>
      refine agrees_bind_ok (checked_get_agrees heap endIdx) ?_
      rw [colorRunEnd]
      split_ifs
      · exact ih _
      · exact agrees_ok _

theorem checked_free_run_agrees (color fuel i freedCount : Nat) :
    Agrees (checkedFreeRun color fuel heap i freedCount) (freeRun color fuel heap i freedCount) := by
  induction fuel generalizing heap i freedCount with
  | zero => exact .inr rfl
  | succ fuel ih =>
      refine agrees_bind_ok (checked_get_agrees heap i) ?_
      rw [freeRun]
      split_ifs
      · exact agrees_bind_ok (checked_set_agrees heap i heapPageFree) (ih _ _ _)
      · exact agrees_ok _

theorem checked_free_agrees (ptr : Nat) : Agrees (checkedFree heap ptr) (heapFree heap ptr) := by
  refine agrees_bind (agrees_lift _) fun _ => ?_
  refine agrees_bind_ok (checked_get_agrees heap _) ?_
  refine agrees_bind (agrees_lift _) fun _ => ?_
  exact checked_free_run_agrees heap _ _ _ _

theorem checked_realloc_agrees (ptr pages : Nat) :
    Agrees (checkedRealloc heap ptr pages) (heapRealloc heap ptr pages) := by
  refine agrees_bind (agrees_lift _) fun _ => ?_
  refine agrees_bind_ok (checked_get_agrees heap _) ?_
  refine agrees_bind (agrees_lift _) fun _ => ?_
  refine agrees_bind (checked_run_agrees heap _ _ _) fun endIdx => ?_
  unfold checkedResize
  by_cases shrinking : u32 (pageIndex heap ptr + pages) ≤ endIdx
  · rw [if_pos shrinking, if_pos shrinking]
    exact agrees_bind_ok (checked_set_from_agrees heap _ _ _) (agrees_ok _)
  · rw [if_neg shrinking, if_neg shrinking]
    refine agrees_bind_ok (checked_space_agrees heap _ _) ?_
    by_cases space : heapIsSpaceFree heap endIdx (u32 (pageIndex heap ptr + pages) - endIdx) = true
    · rw [if_pos space, if_pos space]
      refine agrees_bind_ok (checked_get_agrees heap _) ?_
      by_cases recolor : heapGetUsage heap (u32 (pageIndex heap ptr + pages)) =
          heapGetUsage heap (pageIndex heap ptr)
      · rw [if_pos recolor, if_pos recolor]
        exact agrees_bind (checked_mark_agrees heap _ _) fun marked => agrees_ok _
      · rw [if_neg recolor, if_neg recolor]
        exact agrees_bind_ok (checked_set_from_agrees heap _ _ _) (agrees_ok _)
    · rw [if_neg space, if_neg space]
      refine agrees_bind (checked_alloc_agrees heap pages) fun moved => ?_
      exact agrees_bind (checked_free_agrees moved.2 ptr) fun freed => agrees_ok _

end Agreement

section Inside

variable {heap : Heap}

/-- The computation is never stopped at an index. -/
def NeverStrays {Value : Type} (checked : Except Stop Value) : Prop :=
  ∀ index, checked ≠ .error (.stray index)

theorem never_strays_ok {Value : Type} (value : Value) :
    NeverStrays (.ok value : Except Stop Value) := by
  intro index strayed
  cases strayed

theorem never_strays_lift (Value : Type) (plain : Except Trap Value) :
    NeverStrays (liftTrap plain) := by
  intro index strayed
  cases plain with
  | error trap => cases strayed
  | ok value => cases strayed

theorem never_strays_bind {Value Result : Type} {checked : Except Stop Value}
    {next : Value → Except Stop Result} (first : NeverStrays checked)
    (rest : ∀ value, NeverStrays (next value)) : NeverStrays (checked >>= next) := by
  cases checked with
  | error stop =>
      intro index strayed
      cases stop with
      | trap trap => cases strayed
      | stray there => exact first there rfl
  | ok value => exact rest value

theorem checked_move_eq {pages newPtr : Nat} {moved : Heap} (ptr : Nat)
    (allocated : checkedAlloc heap pages = .ok (newPtr, moved)) :
    checkedMove heap ptr pages =
      (checkedFree moved ptr >>= fun freed => .ok (freed.1, newPtr, freed.2)) := by
  rw [checkedMove, allocated, checked_ok_bind]
  dsimp only
  cases checkedFree moved ptr with
  | error stop => rfl
  | ok freed => rfl

theorem checked_get_ok {index : Nat} (inside : index < heap.pageCount) :
    checkedGetUsage heap index = .ok (heapGetUsage heap index) := if_pos inside

theorem checked_get_strays {index : Nat} (outside : heap.pageCount ≤ index) :
    checkedGetUsage heap index = .error (.stray index) := if_neg (Nat.not_lt_of_le outside)

theorem checked_usage_if_ok (heap : Heap) (condition : Prop) [Decidable condition] {index : Nat}
    (inside : condition → index < heap.pageCount) :
    checkedUsageIf heap condition index =
      .ok (if condition then heapGetUsage heap index else heapPageFree) := by
  unfold checkedUsageIf
  split_ifs with holds
  · exact checked_get_ok (inside holds)
  · rfl

theorem checked_set_from_ok {usage start count : Nat} (inside : start + count ≤ heap.pageCount)
    (countBound : heap.pageCount < 4294967296) :
    checkedSetUsageFrom heap usage start count = .ok (setUsageFrom heap usage start count) := by
  induction count generalizing heap start with
  | zero => rfl
  | succ count ih =>
      have step : checkedSetUsage heap start usage = .ok (heapSetUsage heap start usage) :=
        if_pos (by omega)
      rw [checkedSetUsageFrom, step]
      change checkedSetUsageFrom (heapSetUsage heap start usage) usage (u32 (start + 1)) count = _
      rw [setUsageFrom]
      cases count with
      | zero => rfl
      | succ count =>
          rw [u32_of_lt (by omega)]
          exact ih (by rw [set_usage_count]; omega) (by rw [set_usage_count]; exact countBound)

theorem checked_mark_ok {start space : Nat} (positive : 0 < space)
    (inside : start + space ≤ heap.pageCount) (countBound : heap.pageCount < 4294967296) :
    checkedMarkUsed heap start space = liftTrap (heapMarkUsed heap start space) := by
  have endEq : sub32 (start + space) 1 = start + space - 1 := sub32_of_le (by omega) (by omega)
  have lastEq : sub32 heap.pageCount 1 = heap.pageCount - 1 := sub32_of_le (by omega) countBound
  have left := checked_usage_if_ok heap (start > 0)
    (show start > 0 → start - 1 < heap.pageCount by omega)
  have right := checked_usage_if_ok heap (sub32 (start + space) 1 < sub32 heap.pageCount 1)
    (show _ → u32 (sub32 (start + space) 1 + 1) < heap.pageCount from fun interior => by
      rw [endEq, lastEq] at interior
      rw [endEq, Nat.sub_add_cancel (by omega), u32_of_lt (by omega)]
      omega)
  rw [checkedMarkUsed, left, checked_ok_bind, right, checked_ok_bind, heapMarkUsed]
  cases getNewColor (if start > 0 then heapGetUsage heap (start - 1) else heapPageFree)
    (if sub32 (start + space) 1 < sub32 heap.pageCount 1 then
      heapGetUsage heap (u32 (sub32 (start + space) 1 + 1)) else heapPageFree) with
  | error trap => rfl
  | ok color => exact checked_set_from_ok inside countBound

theorem checked_scan_ok {pages fuel i space start : Nat} (inside : i + fuel ≤ heap.pageCount) :
    checkedAllocScan heap pages fuel i space start =
      .ok (allocScan heap pages fuel i space start) := by
  induction fuel generalizing i space start with
  | zero => rfl
  | succ fuel ih =>
      rw [checkedAllocScan, checked_get_ok (by omega), allocScan]
      rw [checked_ok_bind]
      split_ifs
      · rfl
      · exact ih (by omega)
      · exact ih (by omega)

/-- `heap_alloc` bounds its scan, and marks what it has found. -/
theorem checked_alloc_ok (heap : Heap) {pages : Nat} (positive : 0 < pages)
    (countBound : heap.pageCount < 4294967296) :
    checkedAlloc heap pages = liftTrap (heapAlloc heap pages) := by
  rw [checkedAlloc, checked_scan_ok (by omega), heapAlloc]
  change (match allocScan heap pages heap.pageCount 0 0 0 with
    | none => Except.error (Stop.trap .assertion)
    | some (start, space) => _) = _
  cases scanned : allocScan heap pages heap.pageCount 0 0 0 with
  | none => rfl
  | some window =>
      obtain ⟨first, found⟩ := window
      obtain ⟨rfl, _, fits, _, _⟩ := alloc_scan_some positive rfl positive
        (fun index low high => absurd high (Nat.not_lt_zero index)) scanned
      have marks := checked_mark_ok positive (by omega : first + found ≤ heap.pageCount) countBound
      change (checkedMarkUsed heap first found >>= _) = liftTrap (heapMarkUsed heap first found >>= _)
      rw [marks]
      cases heapMarkUsed heap first found with
      | error trap => rfl
      | ok marked => rfl

/-- A run that ends below `page_count` is found without straying. -/
theorem checked_run_ok (stop : Nat) {color fuel start : Nat} (ordered : start ≤ stop)
    (within : stop < start + fuel) (below : stop < heap.pageCount)
    (stopped : heapGetUsage heap stop ≠ color)
    (inside : ∀ index, start ≤ index → index < stop → heapGetUsage heap index = color) :
    checkedRunEnd heap color fuel start = .ok stop := by
  rcases checked_run_agrees heap color fuel start with ⟨index, strayed⟩ | same
  · exfalso
    induction fuel generalizing start with
    | zero => omega
    | succ fuel ih =>
        rw [checkedRunEnd, checked_get_ok (by omega)] at strayed
        change (if heapGetUsage heap start = color then _ else Except.ok start) = _ at strayed
        split_ifs at strayed with here
        have further : start ≠ stop := fun equal => stopped (equal ▸ here)
        exact ih (by omega) (by omega) (fun cell low high => inside cell (by omega) high) strayed
  · rw [same, color_run_end_of_run ordered within stopped inside]
    rfl

/-- A run that reaches the last page strays past it. -/
theorem checked_run_strays {color fuel start : Nat} (ordered : start ≤ heap.pageCount)
    (within : heap.pageCount < start + fuel)
    (inside : ∀ index, start ≤ index → index < heap.pageCount → heapGetUsage heap index = color) :
    checkedRunEnd heap color fuel start = .error (.stray heap.pageCount) := by
  induction fuel generalizing start with
  | zero => omega
  | succ fuel ih =>
      rw [checkedRunEnd]
      by_cases last : start = heap.pageCount
      · rw [checked_get_strays (Nat.le_of_eq last.symm), last]
        rfl
      · rw [checked_get_ok (by omega)]
        change (if heapGetUsage heap start = color then _ else Except.ok start) = _
        rw [if_pos (inside start (Nat.le_refl _) (by omega))]
        exact ih (by omega) (by omega) fun index low high => inside index (by omega) high

/-- The scan for space does not stray if it stays below `page_count` or meets a used page there. -/
theorem checked_space_ok {start space : Nat} (countBound : heap.pageCount < 4294967296)
    (room : start + space ≤ heap.pageCount ∨
      ∃ index, start ≤ index ∧ index < heap.pageCount ∧ heapGetUsage heap index ≠ heapPageFree) :
    checkedIsSpaceFree heap start space = .ok (heapIsSpaceFree heap start space) := by
  induction space generalizing start with
  | zero => rfl
  | succ space ih =>
      have inside : start < heap.pageCount := by
        rcases room with fits | ⟨index, low, high, _⟩
        · omega
        · omega
      rw [checkedIsSpaceFree, checked_get_ok inside, checked_ok_bind, heapIsSpaceFree]
      split_ifs with used
      · rfl
      · rw [u32_of_lt (by omega)]
        apply ih
        rcases room with fits | ⟨index, low, high, taken⟩
        · exact .inl (by omega)
        · right
          have differ : index ≠ start := fun equal => used (equal ▸ taken)
          exact ⟨index, by omega, high, taken⟩

theorem checked_space_strays {start space : Nat} (countBound : heap.pageCount < 4294967296)
    (ordered : start ≤ heap.pageCount) (past : heap.pageCount < start + space)
    (vacant : ∀ index, start ≤ index → index < heap.pageCount →
      heapGetUsage heap index = heapPageFree) :
    checkedIsSpaceFree heap start space = .error (.stray heap.pageCount) := by
  induction space generalizing start with
  | zero => omega
  | succ space ih =>
      rw [checkedIsSpaceFree]
      by_cases last : start = heap.pageCount
      · rw [checked_get_strays (Nat.le_of_eq last.symm), last]
        rfl
      · rw [checked_get_ok (by omega), checked_ok_bind,
          if_neg (not_not.2 (vacant start (Nat.le_refl _) (by omega))), u32_of_lt (by omega)]
        exact ih (by omega) (by omega) fun index low high => vacant index (by omega) high

theorem checked_run_set_before {color fuel start index : Nat} (before : index < start) :
    checkedRunEnd (heapSetUsage heap index heapPageFree) color fuel start =
      checkedRunEnd heap color fuel start := by
  induction fuel generalizing start with
  | zero => rfl
  | succ fuel ih =>
      have same : checkedGetUsage (heapSetUsage heap index heapPageFree) start =
          checkedGetUsage heap start := by
        unfold checkedGetUsage
        rw [set_usage_count, get_usage_set _ _ _ (by decide), if_neg (show start ≠ index by omega)]
      rw [checkedRunEnd, same, checkedRunEnd, ih (by omega)]

/-- The loop of `heap_free` strays where the scan for the end of its run does. -/
theorem checked_free_run_strays {color fuel i freedCount index : Nat} :
    checkedFreeRun color fuel heap i freedCount = .error (.stray index) ↔
      checkedRunEnd heap color fuel i = .error (.stray index) := by
  induction fuel generalizing heap i freedCount with
  | zero =>
      rw [checkedFreeRun, checkedRunEnd]
      simp only [Except.error.injEq, reduceCtorEq]
  | succ fuel ih =>
      rw [checkedFreeRun, checkedRunEnd]
      by_cases inside : i < heap.pageCount
      · have cleared : checkedSetUsage heap i heapPageFree = .ok (heapSetUsage heap i heapPageFree) :=
          if_pos inside
        rw [checked_get_ok inside, checked_ok_bind, checked_ok_bind]
        by_cases here : heapGetUsage heap i = color
        · rw [if_pos here, if_pos here, cleared, checked_ok_bind, ih,
            checked_run_set_before (Nat.lt_succ_self i)]
        · rw [if_neg here, if_neg here]
          exact iff_of_false (fun strayed => by cases strayed) fun strayed => by cases strayed
      · rw [checked_get_strays (Nat.le_of_not_lt inside), checked_error_bind, checked_error_bind]
        simp only [Except.error.injEq]

end Inside

section Calls

/-- The accesses of a call, checked. -/
def checkedCall (heap : Heap) : HeapCall → Except Stop Unit
  | .alloc pages => do
      let _ ← checkedAlloc heap pages
      pure ()
  | .realloc ptr pages => do
      let _ ← checkedRealloc heap ptr pages
      pure ()
  | .free ptr => do
      let _ ← checkedFree heap ptr
      pure ()
  | .elsewhere _ => .ok ()

/-- No call touches the usage of a page the heap does not have, and allocations end in the heap. -/
structure InBounds (state : HeapState) (call : HeapCall) : Prop where
  touched : NeverStrays (checkedCall state.heap call)
  extents : ∀ observation next, heapStep state call = .ok (observation, next) →
    ∀ block ∈ next.live, block.stop ≤ next.heap.pageCount

/-- The block of the call is in reach of its pointer and has a page behind it, and so has
the block it is to become, unless another allocation bars its growth. -/
def KeepsInside (state : HeapState) : HeapCall → Prop
  | .realloc ptr pages => ∀ block ∈ state.live, ptr = pagePtr state.heap block.start →
      Near block ∧ block.stop < state.heap.pageCount ∧
        (block.start + pages < state.heap.pageCount ∨
          ∃ other ∈ state.live, block.stop ≤ other.start)
  | .free ptr => ∀ block ∈ state.live, ptr = pagePtr state.heap block.start →
      Near block ∧ block.stop < state.heap.pageCount
  | _ => True

/-- What a run keeps as long as its calls stay inside. -/
structure WithinHeap (pageCount : Nat) (state : HeapState) : Prop where
  invariant : HeapInvariant pageCount state
  extents : ∀ block ∈ state.live, block.stop ≤ pageCount

theorem keeps_inside_near {state : HeapState} {call : HeapCall} (kept : KeepsInside state call) :
    NearCall state call := by
  cases call with
  | alloc pages => trivial
  | realloc ptr pages => exact fun block member same => (kept block member same).1
  | free ptr => exact fun block member same => (kept block member same).1
  | elsewhere memory => trivial

variable {state : HeapState} {pageCount : Nat} {block : Block}
  (addressable : pageCount ≤ 1048576) (within : WithinHeap pageCount state)
  (member : block ∈ state.live)

include addressable within member

theorem checked_free_inside (near : Near block) (interior : block.stop < pageCount) :
    NeverStrays (checkedFree state.heap (pagePtr state.heap block.start)) := by
  obtain ⟨invariant, _⟩ := within
  have count := invariant.count
  have inside := block_start_lt invariant member
  have start := page_index_ptr invariant.startBound near
  have stopEq : block.stop = block.start + block.size := rfl
  intro index strayed
  simp only [checkedFree, page_ptr_aligned invariant.startAligned, Trap.kernel_assert_of, start,
    liftTrap, checked_ok_bind, checked_get_ok (show block.start < state.heap.pageCount by omega),
    invariant.coloured.start_used member, ne_eq, not_false_eq_true] at strayed
  rw [checked_free_run_strays, checked_run_ok block.stop (by omega)
    (by unfold indexLimit; omega) (by omega) (invariant.coloured.run_end member interior)
    fun cell low high => invariant.coloured.uniform block member cell (by omega) ⟨low, high⟩] at strayed
  cases strayed

theorem checked_free_outside (outside : ¬ (Near block ∧ block.stop < pageCount)) :
    ∃ index, checkedFree state.heap (pagePtr state.heap block.start) = .error (.stray index) := by
  obtain ⟨invariant, extents⟩ := within
  have count := invariant.count
  have inside := block_start_lt invariant member
  have ends := extents block member
  by_cases near : Near block
  · have last : block.stop = pageCount := by
      by_contra differ
      exact outside ⟨near, by omega⟩
    have start := page_index_ptr invariant.startBound near
    refine ⟨state.heap.pageCount, ?_⟩
    simp only [checkedFree, page_ptr_aligned invariant.startAligned, Trap.kernel_assert_of, start,
      liftTrap, checked_ok_bind, checked_get_ok (show block.start < state.heap.pageCount by omega),
      invariant.coloured.start_used member, ne_eq, not_false_eq_true]
    rw [checked_free_run_strays]
    apply checked_run_strays (by omega) (by unfold indexLimit; omega)
    intro cell low high
    exact invariant.coloured.uniform block member cell (by omega) ⟨low, by omega⟩
  · have far := page_index_ptr_far state.heap invariant.startBound (Nat.le_of_not_lt near)
      (by omega : block.start < 1048576)
    refine ⟨block.start + 4293918720, ?_⟩
    simp only [checkedFree, page_ptr_aligned invariant.startAligned, Trap.kernel_assert_of, far,
      liftTrap, checked_ok_bind,
      checked_get_strays (show state.heap.pageCount ≤ block.start + 4293918720 by omega)]
    rfl

omit addressable in
/-- Everything behind a block up to the last page is free if no allocation starts there. -/
theorem vacant_behind (none : ¬ ∃ other ∈ state.live, block.stop ≤ other.start) {index : Nat}
    (low : block.stop ≤ index) (high : index < pageCount) :
    heapGetUsage state.heap index = heapPageFree := by
  obtain ⟨invariant, _⟩ := within
  have coloured := invariant.coloured
  by_contra used
  obtain ⟨other, second, covers⟩ := (coloured.used_iff index high).1 used
  have starts := covers.1
  have ends := covers.2
  have inside := block_start_lt invariant member
  have first := coloured.covers_start member
  have before : other.start < block.stop := by
    by_contra past
    exact none ⟨other, second, by omega⟩
  have same : block = other := by
    by_cases earlier : other.start ≤ block.start
    · exact coloured.eq_of_covers member second inside first ⟨earlier, by have := first.2; omega⟩
    · have otherInside := block_start_lt invariant second
      exact coloured.eq_of_covers member second otherInside ⟨by omega, before⟩
        (coloured.covers_start second)
  rw [← same] at ends
  omega

/-- `heap_realloc` up to the end of the block's run. -/
theorem checked_realloc_eq (near : Near block) (interior : block.stop < pageCount) (pages : Nat) :
    checkedRealloc state.heap (pagePtr state.heap block.start) pages =
      checkedResize state.heap (pagePtr state.heap block.start) pages block.start
        (heapGetUsage state.heap block.start) block.stop := by
  obtain ⟨invariant, _⟩ := within
  have count := invariant.count
  have inside := block_start_lt invariant member
  have stopEq : block.stop = block.start + block.size := rfl
  have size := (invariant.coloured.inhabited block member).2
  have start := page_index_ptr invariant.startBound near
  have scanned : checkedRunEnd state.heap (heapGetUsage state.heap block.start)
      (indexLimit - (block.start + 1)) (block.start + 1) = .ok block.stop := by
    apply checked_run_ok _ (by omega) (by unfold indexLimit; omega) (by omega)
      (invariant.coloured.run_end member interior)
    intro cell low high
    exact invariant.coloured.uniform block member cell (by omega) ⟨by omega, high⟩
  simp only [checkedRealloc, page_ptr_aligned invariant.startAligned, Trap.kernel_assert_of, start,
    liftTrap, checked_ok_bind, checked_get_ok (show block.start < state.heap.pageCount by omega),
    invariant.coloured.start_used member, ne_eq, not_false_eq_true, scanned]

/-- Moving a block: the new one is found inside, and the old one is freed as it was. -/
theorem checked_move_inside (near : Near block) (interior : block.stop < pageCount) {pages : Nat}
    (positive : 0 < pages) :
    NeverStrays (checkedMove state.heap (pagePtr state.heap block.start) pages) := by
  obtain ⟨invariant, extents⟩ := within
  have count := invariant.count
  have same := checked_alloc_ok state.heap positive (by omega)
  cases allocated : heapAlloc state.heap pages with
  | error trap =>
      rw [allocated] at same
      rw [checkedMove, same]
      exact never_strays_lift (Nat × Nat × Heap) (.error trap)
  | ok result =>
      obtain ⟨newPtr, moved⟩ := result
      have placed := alloc_invariant addressable invariant positive allocated
      obtain ⟨first, color, samePtr, marked, fits, _⟩ :=
        heap_alloc_ok positive (by omega) allocated
      have offset := page_offset_ptr invariant.startBound (by omega : first < 1048576)
      have ptr : pagePtr moved block.start = pagePtr state.heap block.start := by
        rw [marked, pagePtr, set_usage_from_start, pagePtr]
      have later : WithinHeap pageCount ⟨moved, ⟨pageOffset state.heap newPtr, pages⟩ :: state.live⟩ := by
        refine ⟨placed, ?_⟩
        intro other second
        rcases List.mem_cons.1 second with same | old
        · rw [same, samePtr, offset]
          exact count ▸ fits
        · exact extents other old
      have released := checked_free_inside addressable later (List.mem_cons_of_mem _ member) near interior
      rw [ptr] at released
      rw [allocated] at same
      rw [checked_move_eq _ same]
      exact never_strays_bind released fun freed => never_strays_ok _

theorem checked_realloc_inside (near : Near block) (interior : block.stop < pageCount) {pages : Nat}
    (positive : 0 < pages) (bounded : pages ≤ pageCount)
    (room : block.start + pages < pageCount ∨ ∃ other ∈ state.live, block.stop ≤ other.start) :
    NeverStrays (checkedRealloc state.heap (pagePtr state.heap block.start) pages) := by
  have invariant := within.invariant
  have count := invariant.count
  have inside := block_start_lt invariant member
  have reallocEnd : u32 (block.start + pages) = block.start + pages := u32_of_lt (by omega)
  rw [checked_realloc_eq addressable within member near interior, checkedResize, reallocEnd]
  by_cases shrinking : block.start + pages ≤ block.stop
  · rw [if_pos shrinking, checked_set_from_ok (by omega) (by omega)]
    exact never_strays_ok _
  · rw [if_neg shrinking]
    have bar : block.stop + (block.start + pages - block.stop) ≤ state.heap.pageCount ∨
        ∃ index, block.stop ≤ index ∧ index < state.heap.pageCount ∧
          heapGetUsage state.heap index ≠ heapPageFree := by
      rcases room with fits | ⟨other, second, behind⟩
      · exact .inl (by omega)
      · have otherInside := block_start_lt invariant second
        exact .inr ⟨other.start, behind, by omega, invariant.coloured.start_used second⟩
    rw [checked_space_ok (by omega) bar, checked_ok_bind]
    by_cases space : heapIsSpaceFree state.heap block.stop (block.start + pages - block.stop) = true
    · have vacant := (heap_is_space_free_iff _ _ (by omega)).1 space
      have fits : block.start + pages < state.heap.pageCount := by
        rcases room with fits | ⟨other, second, behind⟩
        · omega
        · have otherInside := block_start_lt invariant second
          by_contra past
          exact invariant.coloured.start_used second (vacant other.start behind (by omega))
      rw [if_pos space, checked_get_ok fits, checked_ok_bind]
      by_cases recolor : heapGetUsage state.heap (block.start + pages) =
          heapGetUsage state.heap block.start
      · rw [if_pos recolor, checked_mark_ok positive (by omega) (by omega)]
        cases heapMarkUsed state.heap block.start pages with
        | error trap => exact fun index strayed => by cases strayed
        | ok marked => exact never_strays_ok _
      · rw [if_neg recolor, checked_set_from_ok (by omega) (by omega)]
        exact never_strays_ok _
    · rw [if_neg space]
      exact checked_move_inside addressable within member near interior positive

theorem checked_realloc_outside {pages : Nat} (bounded : pages ≤ pageCount)
    (outside : ¬ (Near block ∧ block.stop < pageCount ∧ (block.start + pages < pageCount ∨
      ∃ other ∈ state.live, block.stop ≤ other.start))) :
    ∃ index, checkedRealloc state.heap (pagePtr state.heap block.start) pages =
      .error (.stray index) := by
  have invariant := within.invariant
  have count := invariant.count
  have inside := block_start_lt invariant member
  have ends := within.extents block member
  by_cases near : Near block
  · have start := page_index_ptr invariant.startBound near
    by_cases interior : block.stop < pageCount
    · have tight : pageCount ≤ block.start + pages := by
        by_contra room
        exact outside ⟨near, interior, .inl (by omega)⟩
      have none : ¬ ∃ other ∈ state.live, block.stop ≤ other.start :=
        fun other => outside ⟨near, interior, .inr other⟩
      have vacant : ∀ index, block.stop ≤ index → index < pageCount →
          heapGetUsage state.heap index = heapPageFree :=
        fun index low high => vacant_behind within member none low high
      have reallocEnd : u32 (block.start + pages) = block.start + pages := u32_of_lt (by omega)
      rw [checked_realloc_eq addressable within member near interior, checkedResize, reallocEnd,
        if_neg (by omega)]
      refine ⟨state.heap.pageCount, ?_⟩
      by_cases exact : block.start + pages = pageCount
      · have space : heapIsSpaceFree state.heap block.stop (block.start + pages - block.stop) = true :=
          (heap_is_space_free_iff _ _ (by omega)).2 fun index low high => vacant index low (by omega)
        rw [checked_space_ok (by omega) (.inl (by omega)), checked_ok_bind, if_pos space,
          checked_get_strays (by omega), checked_error_bind, exact, count]
      · rw [checked_space_strays (by omega) (by omega) (by omega)
          fun index low high => vacant index low (by omega), checked_error_bind]
    · have last : block.stop = pageCount := by omega
      have stopEq : block.stop = block.start + block.size := rfl
      refine ⟨state.heap.pageCount, ?_⟩
      simp only [checkedRealloc, page_ptr_aligned invariant.startAligned, Trap.kernel_assert_of, start,
        liftTrap, checked_ok_bind, checked_get_ok (show block.start < state.heap.pageCount by omega),
        invariant.coloured.start_used member, ne_eq, not_false_eq_true]
      rw [checked_run_strays (by omega) (by unfold indexLimit; omega)
        fun cell low high => invariant.coloured.uniform block member cell (by omega)
          ⟨by omega, by omega⟩, checked_error_bind]
  · have far := page_index_ptr_far state.heap invariant.startBound (Nat.le_of_not_lt near)
      (by omega : block.start < 1048576)
    refine ⟨block.start + 4293918720, ?_⟩
    simp only [checkedRealloc, page_ptr_aligned invariant.startAligned, Trap.kernel_assert_of, far,
      liftTrap, checked_ok_bind,
      checked_get_strays (show state.heap.pageCount ≤ block.start + 4293918720 by omega)]
    rfl

end Calls

section Extents

variable {state : HeapState} {pageCount : Nat}

theorem lift_eq_ok {Value : Type} {plain : Except Trap Value} {value : Value}
    (returned : liftTrap plain = .ok value) : plain = .ok value := by
  cases plain with
  | error trap => cases returned
  | ok other => exact congrArg Except.ok (Except.ok.inj returned)

theorem checked_bind_eq_ok {Value Result : Type} {checked : Except Stop Value}
    {next : Value → Except Stop Result} {result : Result}
    (returned : (checked >>= next) = .ok result) :
    ∃ value, checked = .ok value ∧ next value = .ok result := by
  cases checked with
  | error stop => cases returned
  | ok value => exact ⟨value, rfl, returned⟩

/-- A reallocation that returns has kept the start of its block or found a place for a new one. -/
theorem resize_extent {heap next : Heap} {ptr pages start color endIdx oldSize newPtr : Nat}
    (positive : 0 < pages) (countBound : heap.pageCount < 4294967296)
    (fits : start + pages < 4294967296) (ends : endIdx ≤ heap.pageCount)
    (returned : checkedResize heap ptr pages start color endIdx = .ok (oldSize, newPtr, next)) :
    (newPtr = ptr ∧ start + pages ≤ heap.pageCount) ∨
      ∃ first, newPtr = pagePtr heap first ∧ first + pages ≤ heap.pageCount := by
  unfold checkedResize at returned
  rw [u32_of_lt fits] at returned
  by_cases shrinking : start + pages ≤ endIdx
  · rw [if_pos shrinking] at returned
    obtain ⟨shrunk, _, finished⟩ := checked_bind_eq_ok returned
    cases finished
    exact .inl ⟨rfl, by omega⟩
  · rw [if_neg shrinking] at returned
    obtain ⟨free, _, branch⟩ := checked_bind_eq_ok returned
    by_cases space : free = true
    · rw [if_pos space] at branch
      obtain ⟨next, looked, finished⟩ := checked_bind_eq_ok branch
      have below : start + pages < heap.pageCount := by
        by_contra past
        rw [checked_get_strays (by omega)] at looked
        cases looked
      left
      split_ifs at finished with recolor
      · obtain ⟨marked, _, finished⟩ := checked_bind_eq_ok finished
        cases finished
        exact ⟨rfl, by omega⟩
      · obtain ⟨grown, _, finished⟩ := checked_bind_eq_ok finished
        cases finished
        exact ⟨rfl, by omega⟩
    · rw [if_neg space] at branch
      obtain ⟨⟨placed, moved⟩, allocated, finished⟩ := checked_bind_eq_ok branch
      obtain ⟨freed, _, finished⟩ := checked_bind_eq_ok finished
      cases finished
      have plain := lift_eq_ok ((checked_alloc_ok _ positive countBound).symm.trans allocated)
      obtain ⟨first, _, same, _, inside, _⟩ := heap_alloc_ok positive countBound plain
      exact .inr ⟨first, same, inside⟩

theorem agrees_of_never {Value : Type} {checked : Except Stop Value} {plain : Except Trap Value}
    (agrees : Agrees checked plain) (never : NeverStrays checked) : checked = liftTrap plain := by
  rcases agrees with ⟨index, strayed⟩ | same
  · exact absurd strayed (never index)
  · exact same

/-- A call that stays inside leaves every allocation inside. -/
theorem step_extents (addressable : pageCount ≤ 1048576) (within : WithinHeap pageCount state)
    {call : HeapCall} (legal : LegalCall state call) (kept : KeepsInside state call)
    {observation : Nat} {next : HeapState} (completed : heapStep state call = .ok (observation, next)) :
    ∀ block ∈ next.live, block.stop ≤ pageCount := by
  have invariant := within.invariant
  have count := invariant.count
  have startBound := invariant.startBound
  have dropped : ∀ start, ∀ block ∈ dropStart state.live start, block.stop ≤ pageCount :=
    fun start block member => within.extents block (mem_drop_start.1 member).1
  cases call with
  | alloc pages =>
      obtain ⟨⟨ptr, heap⟩, allocated, finished⟩ := Trap.bind_eq_ok.1 completed
      cases finished
      have positive := legal.1
      obtain ⟨first, _, same, _, fits, _⟩ := heap_alloc_ok positive (by omega) allocated
      intro block member
      rcases List.mem_cons.1 member with new | old
      · rw [new, same, page_offset_ptr startBound (by omega)]
        exact count ▸ fits
      · exact within.extents block old
  | realloc ptr pages =>
      obtain ⟨⟨block, member, rfl⟩, positive, bounded⟩ := legal
      obtain ⟨near, interior, room⟩ := kept block member rfl
      rw [count] at interior room bounded
      have inside := block_start_lt invariant member
      obtain ⟨⟨oldSize, newPtr, heap⟩, reallocated, finished⟩ := Trap.bind_eq_ok.1 completed
      cases finished
      have never := checked_realloc_inside addressable within member near interior positive bounded room
      have checked := agrees_of_never (checked_realloc_agrees state.heap _ pages) never
      rw [reallocated, checked_realloc_eq addressable within member near interior] at checked
      have extent := resize_extent positive (by omega) (by omega) (by omega) checked
      rw [count] at extent
      intro other second
      rcases List.mem_cons.1 second with new | old
      · rw [new]
        rcases extent with ⟨same, fits⟩ | ⟨first, same, fits⟩
        · rw [same, page_offset_ptr startBound (by omega)]
          exact fits
        · rw [same, page_offset_ptr startBound (by omega)]
          exact fits
      · exact dropped _ other old
  | free ptr =>
      obtain ⟨⟨freedCount, heap⟩, released, finished⟩ := Trap.bind_eq_ok.1 completed
      cases finished
      exact dropped _
  | elsewhere memory =>
      cases completed
      exact within.extents

theorem kept_within (addressable : pageCount ≤ 1048576) (within : WithinHeap pageCount state)
    {call : HeapCall} (legal : LegalCall state call) (kept : KeepsInside state call)
    {observation : Nat} {next : HeapState} (completed : heapStep state call = .ok (observation, next)) :
    WithinHeap pageCount next :=
  ⟨heap_step_invariant addressable within.invariant call legal (keeps_inside_near kept) completed,
    step_extents addressable within legal kept completed⟩

theorem never_strays_call {Value : Type} {checked : Except Stop Value} :
    NeverStrays (checked >>= fun _ => (pure () : Except Stop Unit)) ↔ NeverStrays checked := by
  constructor
  · intro never index strayed
    exact never index (by rw [strayed]; rfl)
  · exact fun never => never_strays_bind never fun _ => never_strays_ok _

/-- A call is in bounds exactly when it keeps inside. -/
theorem in_bounds_iff (addressable : pageCount ≤ 1048576) (within : WithinHeap pageCount state)
    (call : HeapCall) (legal : LegalCall state call) : InBounds state call ↔ KeepsInside state call := by
  have invariant := within.invariant
  have count := invariant.count
  have extents : KeepsInside state call → ∀ observation next,
      heapStep state call = .ok (observation, next) →
        ∀ block ∈ next.live, block.stop ≤ next.heap.pageCount := by
    intro kept observation next completed
    have later := kept_within addressable within legal kept completed
    rw [later.invariant.count]
    exact later.extents
  cases call with
  | alloc pages =>
      refine iff_of_true ⟨?_, extents trivial⟩ trivial
      apply never_strays_call.2
      rw [checked_alloc_ok _ legal.1 (by omega)]
      exact never_strays_lift _ _
  | realloc ptr pages =>
      constructor
      · intro bounds block member same
        by_contra outside
        rw [count] at outside
        obtain ⟨index, strayed⟩ := checked_realloc_outside addressable within member
          (count ▸ legal.2.2) outside
        rw [← same] at strayed
        exact never_strays_call.1 bounds.touched index strayed
      · intro kept
        refine ⟨?_, extents kept⟩
        obtain ⟨⟨block, member, rfl⟩, positive, bounded⟩ := legal
        obtain ⟨near, interior, room⟩ := kept block member rfl
        rw [count] at interior room bounded
        exact never_strays_call.2
          (checked_realloc_inside addressable within member near interior positive bounded room)
  | free ptr =>
      constructor
      · intro bounds block member same
        by_contra outside
        rw [count] at outside
        obtain ⟨index, strayed⟩ := checked_free_outside addressable within member outside
        rw [← same] at strayed
        exact never_strays_call.1 bounds.touched index strayed
      · intro kept
        refine ⟨?_, extents kept⟩
        obtain ⟨block, member, rfl⟩ := legal
        obtain ⟨near, interior⟩ := kept block member rfl
        rw [count] at interior
        exact never_strays_call.2 (checked_free_inside addressable within member near interior)
  | elsewhere memory => exact iff_of_true ⟨never_strays_ok _, extents trivial⟩ trivial

end Extents

/-- The calls of a run stay in bounds exactly when each keeps a page between its block and the
end of the heap. -/
theorem heap_in_bounds_runs {memory : Nat → UInt8} {heapStart pageCount : Nat} {heap : Heap}
    {calls : List HeapCall} (addressable : pageCount ≤ 1048576) (startBound : heapStart < 4294967296)
    (initialized : heapInit memory heapStart pageCount = .ok heap)
    (legal : Allowed heapStep LegalCall ⟨heap, []⟩ calls) :
    Allowed heapStep InBounds ⟨heap, []⟩ calls ↔ Allowed heapStep KeepsInside ⟨heap, []⟩ calls := by
  have start : WithinHeap pageCount ⟨heap, []⟩ :=
    ⟨init_invariant addressable startBound initialized, fun block member => by cases member⟩
  refine allowed_iff (WithinHeap pageCount) ?_ ?_ calls ⟨heap, []⟩ start legal
  · intro state call within allowed
    exact in_bounds_iff addressable within call allowed
  · intro state call observation next within allowed bounds completed
    exact kept_within addressable within allowed ((in_bounds_iff addressable within call allowed).1 bounds)
      completed

/-- A heap of four pages, with a byte behind its map that reads as a page in use. -/
def fullHeap : Heap := ⟨fun i => if i < 1 then 0 else 0x40, 0x2000, 4⟩

theorem full_heap_init : heapInit (fun _ => 0x40) 0x1000 4 = .ok fullHeap := rfl

theorem heap_in_bounds_runs_interior :
    Allowed heapStep InBounds ⟨fullHeap, []⟩ [.alloc 2, .free 0x2000] := by
  have first : heapStep ⟨fullHeap, []⟩ (.alloc 2) =
      .ok (0x2000, ⟨setUsageFrom fullHeap 1 0 2, [⟨0, 2⟩]⟩) := rfl
  have live : ∀ block ∈ [(⟨0, 2⟩ : Block)], block = ⟨0, 2⟩ := fun block member =>
    List.mem_singleton.1 member
  refine (heap_in_bounds_runs (by decide) (by decide) full_heap_init ?_).2 ?_
  · apply allowed_cons_of_step ⟨by decide, by decide⟩ first
    exact ⟨⟨⟨0, 2⟩, List.mem_singleton_self _, rfl⟩, fun _ _ _ => trivial⟩
  · apply allowed_cons_of_step trivial first
    refine ⟨?_, fun _ _ _ => trivial⟩
    intro block member _
    rw [live block member]
    exact ⟨by unfold Near; decide, by decide⟩

/-- All four pages are taken and freed again: five pages are freed. -/
theorem heap_in_bounds_runs_last_page :
    heapInit (fun _ => 0x40) 0x1000 4 = .ok fullHeap ∧
      Allowed heapStep LegalCall ⟨fullHeap, []⟩ [.alloc 4, .free 0x2000] ∧
      (∃ final, run heapStep ⟨fullHeap, []⟩ [.alloc 4, .free 0x2000] = .ok ([0x2000, 5], final)) ∧
      ¬ Allowed heapStep InBounds ⟨fullHeap, []⟩ [.alloc 4, .free 0x2000] := by
  have first : heapStep ⟨fullHeap, []⟩ (.alloc 4) =
      .ok (0x2000, ⟨setUsageFrom fullHeap 1 0 4, [⟨0, 4⟩]⟩) := rfl
  refine ⟨full_heap_init, ?_, ?_, ?_⟩
  · apply allowed_cons_of_step ⟨by decide, by decide⟩ first
    exact ⟨⟨⟨0, 4⟩, List.mem_singleton_self _, rfl⟩, fun _ _ _ => trivial⟩
  · exact ⟨_, run_cons_of_step first (run_cons_of_step rfl rfl)⟩
  · intro bounds
    have free := (bounds.2 _ _ first).1.touched
    exact free 4 rfl

end ParadiseOS.HeapBounds
