import ParadiseOS.ColouredLine
import ParadiseOS.HeapUsage
import ParadiseOS.StepRun

/-!
# Runs of the page allocator over its live allocations

The caller's view of the heap is the list of live allocations, kept beside the
heap as blocks of pages. A run mixes `heap_alloc`, `heap_realloc` and
`heap_free` on live pointers with writes of other code to the memory behind the
map. The colours of the map then tell the live blocks apart.

Pages are found again from pointers by a signed pointer difference, which is
the page's index only in the first half of the address space behind
`heap_start`; that is the bound of `three_colour_runs_iff`.
-/

namespace ParadiseOS.HeapRuns

open MachineWord HeapModel HeapUsage ColouredLine StepRun

set_option autoImplicit false

structure HeapState where
  heap : Heap
  live : List Block

inductive HeapCall where
  | alloc (pages : Nat)
  | realloc (ptr pages : Nat)
  | free (ptr : Nat)
  | elsewhere (memory : Nat → UInt8)

/-- The index of the page a pointer of the heap points to. -/
def pageOffset (heap : Heap) (ptr : Nat) : Nat := sub32 ptr heap.heapStart / 4096

def heapStep (state : HeapState) : HeapCall → Except Trap (Nat × HeapState)
  | .alloc pages => do
      let (ptr, heap) ← heapAlloc state.heap pages
      pure (ptr, ⟨heap, ⟨pageOffset state.heap ptr, pages⟩ :: state.live⟩)
  | .realloc ptr pages => do
      let (_, newPtr, heap) ← heapRealloc state.heap ptr pages
      pure (newPtr, ⟨heap, ⟨pageOffset state.heap newPtr, pages⟩ ::
        dropStart state.live (pageOffset state.heap ptr)⟩)
  | .free ptr => do
      let (freedCount, heap) ← heapFree state.heap ptr
      pure (freedCount, ⟨heap, dropStart state.live (pageOffset state.heap ptr)⟩)
  | .elsewhere memory =>
      .ok (0, { state with heap := { state.heap with
        usageMap := fun i =>
          if i < usageBytes state.heap.pageCount then state.heap.usageMap i else memory i } })

/-- The pointer is the start of a live allocation. -/
def LivePointer (state : HeapState) (ptr : Nat) : Prop :=
  ∃ block ∈ state.live, ptr = pagePtr state.heap block.start

def LegalCall (state : HeapState) : HeapCall → Prop
  | .alloc pages => 0 < pages ∧ pages ≤ state.heap.pageCount
  | .realloc ptr pages => LivePointer state ptr ∧ 0 < pages ∧ pages ≤ state.heap.pageCount
  | .free ptr => LivePointer state ptr
  | .elsewhere _ => True

/-- `heap_free` on the block frees and counts exactly its pages. -/
def FreedExactly (heap : Heap) (block : Block) : Prop :=
  ∃ freed, heapFree heap (pagePtr heap block.start) = .ok (block.size, freed) ∧
    ∀ index, heapGetUsage freed index =
      if block.Covers index then heapPageFree else heapGetUsage heap index

/-- The colours of the map determine the live allocations. -/
structure ThreeColour (state : HeapState) : Prop where
  coloured : Coloured heapPageFree state.heap.pageCount (heapGetUsage state.heap) state.live
  maximalRun : ∀ block ∈ state.live, block.stop < state.heap.pageCount →
    (∀ index, block.Covers index →
      heapGetUsage state.heap index = heapGetUsage state.heap block.start) ∧
    heapGetUsage state.heap block.stop ≠ heapGetUsage state.heap block.start
  freedExactly : ∀ block ∈ state.live, block.stop < state.heap.pageCount →
    FreedExactly state.heap block

section Pointers

variable {heap : Heap}

theorem page_ptr_aligned (aligned : heap.heapStart % 4096 = 0) (index : Nat) :
    isPageAligned (pagePtr heap index) = true := by
  simp only [isPageAligned, pagePtr, u32, Nat.shiftLeft_eq, beq_iff_eq]
  omega

theorem page_offset_ptr (startBound : heap.heapStart < 4294967296) {index : Nat}
    (bounded : index < 1048576) : pageOffset heap (pagePtr heap index) = index := by
  rw [pageOffset, pagePtr, u32_of_lt (by omega : index * 4096 < 4294967296),
    sub32_u32_add _ _ startBound (by omega)]
  omega

theorem page_index_ptr (startBound : heap.heapStart < 4294967296) {index : Nat}
    (bounded : index < 524288) : pageIndex heap (pagePtr heap index) = index := by
  rw [pageIndex, pagePtr, u32_of_lt (by omega : index * 4096 < 4294967296),
    ptr_diff_near _ _ startBound (by omega), ofSigned, Int.tdiv_eq_ediv_of_nonneg (by omega)]
  omega

/-- A page in the far half of the address space is taken for one near the top of
the index range. -/
theorem page_index_ptr_far (heap : Heap) (startBound : heap.heapStart < 4294967296) {index : Nat}
    (low : 524288 ≤ index) (high : index < 1048576) :
    pageIndex heap (pagePtr heap index) = index + 4293918720 := by
  rw [pageIndex, pagePtr, u32_of_lt (by omega : index * 4096 < 4294967296),
    ptr_diff_far _ _ startBound (by omega) (by omega), ofSigned]
  have negative : ((index * 4096 : Nat) : Int) - 4294967296 = -((1048576 - index : Nat) * 4096 : Int) := by
    omega
  rw [negative, Int.neg_tdiv, Int.mul_tdiv_cancel _ (by decide)]
  omega

end Pointers

/-- What a run keeps: the fixed fields, and the colouring below `page_count`. -/
structure HeapInvariant (pageCount : Nat) (state : HeapState) : Prop where
  count : state.heap.pageCount = pageCount
  startBound : state.heap.heapStart < 4294967296
  startAligned : state.heap.heapStart % 4096 = 0
  coloured : Coloured heapPageFree pageCount (heapGetUsage state.heap) state.live

section Blocks

variable {state : HeapState} {pageCount : Nat}

/-- The colour run from a live block's start covers exactly the block below `page_count`. -/
theorem run_covers (invariant : HeapInvariant pageCount state) {block : Block}
    (member : block ∈ state.live) {fuel stop : Nat}
    (scanned : colorRunEnd state.heap (heapGetUsage state.heap block.start) fuel block.start =
      .ok stop) {index : Nat} (below : index < pageCount) :
    (block.start ≤ index ∧ index < stop) ↔ block.Covers index := by
  have coloured := invariant.coloured
  obtain ⟨_, _, stopped, inside⟩ := color_run_end_ok scanned
  constructor
  · rintro ⟨low, high⟩
    refine ⟨low, ?_⟩
    by_contra past
    have size := (coloured.inhabited block member).2
    have stopEq : block.stop = block.start + block.size := rfl
    exact coloured.run_end member (by omega) (inside block.stop (by omega) (by omega))
  · rintro ⟨low, high⟩
    refine ⟨low, ?_⟩
    by_contra past
    apply stopped
    exact coloured.uniform block member stop (by omega)
      ⟨(color_run_end_ok scanned).1, by omega⟩

/-- Starting the scan one page later changes nothing. -/
theorem color_run_end_succ {heap : Heap} {start fuel : Nat} :
    colorRunEnd heap (heapGetUsage heap start) fuel (start + 1) =
      colorRunEnd heap (heapGetUsage heap start) (fuel + 1) start := by
  conv_rhs => rw [colorRunEnd, if_pos rfl]

theorem block_start_lt (invariant : HeapInvariant pageCount state) {block : Block}
    (member : block ∈ state.live) : block.start < pageCount :=
  (invariant.coloured.inhabited block member).1

/-- The block starts in the half of the heap whose pages are found again from pointers. -/
def Near (block : Block) : Prop := block.start < 524288

variable (addressable : pageCount ≤ 1048576)

include addressable

/-- `heap_free` on a live pointer is the clearing of the colour run at its start. -/
theorem heap_free_eq (invariant : HeapInvariant pageCount state) {block : Block}
    (member : block ∈ state.live) (near : Near block) :
    heapFree state.heap (pagePtr state.heap block.start) =
      (colorRunEnd state.heap (heapGetUsage state.heap block.start)
          (indexLimit - block.start) block.start).map fun stop =>
        (stop - block.start,
          setUsageFrom state.heap heapPageFree block.start (stop - block.start)) := by
  have inside := block_start_lt invariant member
  have index := page_index_ptr invariant.startBound near
  simp only [heapFree, index, page_ptr_aligned invariant.startAligned block.start,
    Trap.kernel_assert_of, invariant.coloured.start_used member, Trap.ok_bind, ne_eq,
    not_false_eq_true]
  rw [free_run_eq _ _ _ _ (by unfold indexLimit; omega)]
  simp only [Nat.zero_add]

theorem heap_free_effect (invariant : HeapInvariant pageCount state) {block : Block}
    (member : block ∈ state.live) (near : Near block) {freedCount : Nat} {freed : Heap}
    (completed : heapFree state.heap (pagePtr state.heap block.start) = .ok (freedCount, freed)) :
    freed.pageCount = state.heap.pageCount ∧ freed.heapStart = state.heap.heapStart ∧
      ∀ index, index < pageCount → heapGetUsage freed index =
        if block.Covers index then heapPageFree else heapGetUsage state.heap index := by
  rw [heap_free_eq addressable invariant member near] at completed
  have inside := block_start_lt invariant member
  cases scanned : colorRunEnd state.heap (heapGetUsage state.heap block.start)
      (indexLimit - block.start) block.start with
  | error trap => simp [scanned, Except.map] at completed
  | ok stop =>
      obtain ⟨low, high, _, _⟩ := color_run_end_ok scanned
      simp only [scanned, Except.map, Except.ok.injEq, Prod.mk.injEq] at completed
      obtain ⟨_, rfl⟩ := completed
      refine ⟨set_usage_from_count _ _ _, set_usage_from_start _ _ _, ?_⟩
      intro index below
      unfold indexLimit at high
      rw [get_usage_set_from _ _ _ _ (by decide) (by omega), Nat.add_sub_cancel' low]
      exact if_congr (run_covers invariant member scanned below) rfl rfl

/-- A block that ends before the last page is freed exactly. -/
theorem freed_exactly (invariant : HeapInvariant pageCount state) {block : Block}
    (member : block ∈ state.live) (near : Near block) (interior : block.stop < pageCount) :
    FreedExactly state.heap block := by
  have coloured := invariant.coloured
  have stopEq : block.stop = block.start + block.size := rfl
  have scanned : colorRunEnd state.heap (heapGetUsage state.heap block.start)
      (indexLimit - block.start) block.start = .ok block.stop := by
    apply color_run_end_of_run (by omega) (by unfold indexLimit; omega)
      (coloured.run_end member interior)
    intro index low high
    exact coloured.uniform block member index (by omega) ⟨low, high⟩
  refine ⟨setUsageFrom state.heap heapPageFree block.start block.size, ?_, ?_⟩
  · rw [heap_free_eq addressable invariant member near, scanned, stopEq]
    simp only [Except.map, Nat.add_sub_cancel_left]
  · intro index
    rw [get_usage_set_from _ _ _ _ (by decide) (by omega)]
    rfl

omit addressable in
theorem three_colour_of_invariant (countBound : pageCount ≤ 524288) (invariant : HeapInvariant pageCount state) :
    ThreeColour state where
  coloured := invariant.count ▸ invariant.coloured
  maximalRun := by
    intro block member interior
    rw [invariant.count] at interior
    refine ⟨?_, invariant.coloured.run_end member interior⟩
    intro index covers
    have high := covers.2
    exact invariant.coloured.uniform block member index (by omega) covers
  freedExactly := by
    intro block member interior
    have inside := block_start_lt invariant member
    exact freed_exactly (by omega) invariant member (by unfold Near; omega)
      (invariant.count ▸ interior)

end Blocks
/-- `heap_alloc` is first fit: the block starts at the smallest index with enough
free pages behind it, and gets a colour that differs from both neighbours. -/
theorem heap_alloc_ok {heap marked : Heap} {pages ptr : Nat} (positive : 0 < pages)
    (countBound : heap.pageCount < 4294967296)
    (completed : heapAlloc heap pages = .ok (ptr, marked)) :
    ∃ first color, ptr = pagePtr heap first ∧ marked = setUsageFrom heap color first pages ∧
      first + pages ≤ heap.pageCount ∧ 0 < color ∧ color < 4 ∧
      (∀ index, first ≤ index → index < first + pages →
        heapGetUsage heap index = heapPageFree) ∧
      (0 < first → color ≠ heapGetUsage heap (first - 1)) ∧
      (first + pages < heap.pageCount → color ≠ heapGetUsage heap (first + pages)) ∧
      ∀ earlier, earlier < first →
        ∃ index, earlier ≤ index ∧ index < earlier + pages ∧
          heapGetUsage heap index ≠ heapPageFree := by
  rw [heapAlloc] at completed
  cases scanned : allocScan heap pages heap.pageCount 0 0 0 with
  | none => simp [scanned] at completed
  | some window =>
      obtain ⟨first, found⟩ := window
      obtain ⟨rfl, _, fits, vacant, minimal⟩ := alloc_scan_some positive rfl positive
        (fun index low high => absurd high (Nat.not_lt_zero index)) scanned
      obtain ⟨color, marks, used, small, left, right⟩ := heap_mark_used_ok heap first found
        positive (by omega) (by omega) countBound
      simp only [scanned, marks, Trap.ok_bind, Trap.pure_ok, Except.ok.injEq,
        Prod.mk.injEq] at completed
      exact ⟨first, color, completed.1.symm, completed.2.symm, by omega, used, small, vacant,
        left, right, fun earlier before => minimal earlier (Nat.zero_le _) before⟩

/-- It succeeds as soon as some window of pages is free. -/
theorem heap_alloc_of_window (heap : Heap) (pages first : Nat) (positive : 0 < pages)
    (countBound : heap.pageCount < 4294967296) (fits : first + pages ≤ heap.pageCount)
    (vacant : ∀ index, first ≤ index → index < first + pages →
      heapGetUsage heap index = heapPageFree) :
    ∃ ptr marked, heapAlloc heap pages = .ok (ptr, marked) := by
  rw [heapAlloc]
  cases scanned : allocScan heap pages heap.pageCount 0 0 0 with
  | none =>
      obtain ⟨index, low, high, used⟩ := alloc_scan_none positive rfl positive scanned first
        (Nat.zero_le _) (by omega)
      exact (used (vacant index low high)).elim
  | some window =>
      obtain ⟨start, space⟩ := window
      obtain ⟨rfl, _, inside, _, _⟩ := alloc_scan_some positive rfl positive
        (fun index low high => absurd high (Nat.not_lt_zero index)) scanned
      obtain ⟨color, marks, _⟩ := heap_mark_used_ok heap start space positive (by omega)
        (by omega) countBound
      exact ⟨_, _, by simp only [marks, Trap.ok_bind, Trap.pure_ok]; rfl⟩

/-- The call is not about a block in the far half of the heap. -/
def NearCall (state : HeapState) : HeapCall → Prop
  | .realloc ptr _ => ∀ block ∈ state.live, ptr = pagePtr state.heap block.start → Near block
  | .free ptr => ∀ block ∈ state.live, ptr = pagePtr state.heap block.start → Near block
  | _ => True

theorem near_call {state : HeapState} {pageCount : Nat} (countBound : pageCount ≤ 524288)
    (invariant : HeapInvariant pageCount state) (call : HeapCall) : NearCall state call := by
  have near : ∀ block ∈ state.live, Near block :=
    fun block member => Nat.lt_of_lt_of_le (block_start_lt invariant member) countBound
  cases call with
  | alloc pages => trivial
  | realloc ptr pages => exact fun block member _ => near block member
  | free ptr => exact fun block member _ => near block member
  | elsewhere memory => trivial

section Steps

variable {state : HeapState} {pageCount : Nat} (addressable : pageCount ≤ 1048576)

include addressable

theorem alloc_invariant (invariant : HeapInvariant pageCount state) {pages ptr : Nat}
    {heap : Heap} (positive : 0 < pages)
    (completed : heapAlloc state.heap pages = .ok (ptr, heap)) :
    HeapInvariant pageCount ⟨heap, ⟨pageOffset state.heap ptr, pages⟩ :: state.live⟩ := by
  have count := invariant.count
  obtain ⟨first, color, rfl, rfl, fits, used, small, vacant, left, right, _⟩ :=
    heap_alloc_ok positive (by omega) completed
  have offset := page_offset_ptr invariant.startBound (by omega : first < 1048576)
  refine ⟨?_, ?_, ?_, ?_⟩
  · rw [set_usage_from_count, count]
  · rw [set_usage_from_start]
    exact invariant.startBound
  · rw [set_usage_from_start]
    exact invariant.startAligned
  · rw [offset]
    refine invariant.coloured.insert ⟨first, pages⟩
      (show first < pageCount by omega) positive ?_
      (by unfold heapPageFree; omega) left (fun interior => right (count ▸ interior)) ?_
    · intro cell _ covers
      exact vacant cell covers.1 covers.2
    · intro cell _
      exact get_usage_set_from _ _ _ _ small (by omega)

theorem free_invariant (invariant : HeapInvariant pageCount state) {block : Block}
    (member : block ∈ state.live) (near : Near block) {freedCount : Nat} {heap : Heap}
    (completed : heapFree state.heap (pagePtr state.heap block.start) = .ok (freedCount, heap)) :
    HeapInvariant pageCount ⟨heap, dropStart state.live block.start⟩ := by
  obtain ⟨count, start, cleared⟩ := heap_free_effect addressable invariant member near completed
  exact ⟨count.trans invariant.count, start ▸ invariant.startBound, start ▸ invariant.startAligned,
    invariant.coloured.remove member cleared⟩

omit addressable in
/-- Shrinking and growing in place change the extent of one block. -/
theorem resize_invariant (invariant : HeapInvariant pageCount state) {block : Block}
    (member : block ∈ state.live) {pages color stop : Nat} {heap : Heap} (positive : 0 < pages)
    (count : heap.pageCount = state.heap.pageCount) (start : heap.heapStart = state.heap.heapStart)
    (scanned : colorRunEnd state.heap (heapGetUsage state.heap block.start)
      (indexLimit - block.start) block.start = .ok stop)
    (vacant : ∀ index, stop ≤ index → index < block.start + pages →
      heapGetUsage state.heap index = heapPageFree)
    (used : color ≠ heapPageFree)
    (leftDiffers : 0 < block.start → color ≠ heapGetUsage state.heap (block.start - 1))
    (rightDiffers : block.start + pages < pageCount → stop ≤ block.start + pages →
      color ≠ heapGetUsage state.heap (block.start + pages))
    (painted : ∀ index, index < pageCount → heapGetUsage heap index =
      if block.start ≤ index ∧ index < block.start + pages then color
      else if block.start ≤ index ∧ index < stop then heapPageFree
      else heapGetUsage state.heap index) :
    HeapInvariant pageCount ⟨heap, ⟨block.start, pages⟩ :: dropStart state.live block.start⟩ := by
  have covers := fun index (below : index < pageCount) =>
    run_covers invariant member scanned below
  refine ⟨count.trans invariant.count, start ▸ invariant.startBound,
    start ▸ invariant.startAligned, ?_⟩
  refine invariant.coloured.replace member positive used ?_ leftDiffers ?_ ?_
  · intro cell below low high outside
    exact vacant cell (by
      by_contra inside
      exact outside ((covers cell below).mp ⟨low, by omega⟩)) high
  · intro interior outside
    exact rightDiffers interior (by
      by_contra inside
      exact outside ((covers _ interior).mp ⟨by omega, by omega⟩))
  · intro cell below
    rw [painted cell below]
    exact if_congr Iff.rfl rfl (if_congr (covers cell below) rfl rfl)

theorem realloc_invariant (invariant : HeapInvariant pageCount state) {block : Block}
    (member : block ∈ state.live) (near : Near block) {pages oldSize newPtr : Nat} {heap : Heap}
    (positive : 0 < pages) (fits : block.start + pages < 4294967296)
    (completed : heapRealloc state.heap (pagePtr state.heap block.start) pages =
      .ok (oldSize, newPtr, heap)) :
    HeapInvariant pageCount
      ⟨heap, ⟨pageOffset state.heap newPtr, pages⟩ :: dropStart state.live block.start⟩ := by
  have coloured := invariant.coloured
  have inside := block_start_lt invariant member
  have count := invariant.count
  have startUsed := coloured.start_used member
  have colorBound : heapGetUsage state.heap block.start < 4 := get_usage_lt _
  have pageAt := page_index_ptr invariant.startBound near
  have offset := page_offset_ptr invariant.startBound (by omega : block.start < 1048576)
  have reallocEnd : u32 (block.start + pages) = block.start + pages := u32_of_lt (by omega)
  have fuel : indexLimit - (block.start + 1) + 1 = indexLimit - block.start := by
    unfold indexLimit
    omega
  simp only [heapRealloc, pageAt, page_ptr_aligned invariant.startAligned, reallocEnd,
    Trap.kernel_assert_of, startUsed, Trap.ok_bind, ne_eq, not_false_eq_true] at completed
  rw [color_run_end_succ, fuel] at completed
  obtain ⟨stop, scanned, completed⟩ := Trap.bind_eq_ok.mp completed
  obtain ⟨low, high, stopped, inRun⟩ := color_run_end_ok scanned
  have leftColor : 0 < block.start → heapGetUsage state.heap block.start ≠
      heapGetUsage state.heap (block.start - 1) := fun interior =>
    (coloured.left_differs member interior).symm
  have stopBound : stop < 4294967296 := by
    unfold indexLimit at high
    omega
  by_cases shrinking : block.start + pages ≤ stop
  · rw [if_pos shrinking] at completed
    simp only [Trap.pure_ok, Except.ok.injEq, Prod.mk.injEq] at completed
    obtain ⟨_, rfl, rfl⟩ := completed
    rw [offset]
    refine resize_invariant invariant member positive (set_usage_from_count _ _ _)
      (set_usage_from_start _ _ _) scanned (fun index above below => by omega) startUsed leftColor ?_ ?_
    · intro _ reached
      rw [show block.start + pages = stop by omega]
      exact stopped.symm
    · intro index _
      rw [get_usage_set_from _ _ _ _ (by decide) (by omega)]
      by_cases kept : block.start ≤ index ∧ index < block.start + pages
      · rw [if_neg (by omega), if_pos kept, inRun index kept.1 (by omega)]
      · rw [if_neg kept]
        exact if_congr (by omega) rfl rfl
  · rw [if_neg shrinking] at completed
    have growing : stop < block.start + pages := by omega
    by_cases space : heapIsSpaceFree state.heap stop (block.start + pages - stop) = true
    · rw [if_pos space] at completed
      have vacant : ∀ index, stop ≤ index → index < block.start + pages →
          heapGetUsage state.heap index = heapPageFree := by
        intro index above below
        exact (heap_is_space_free_iff stop _ (by omega)).mp space index above (by omega)
      by_cases recolor : heapGetUsage state.heap (block.start + pages) =
          heapGetUsage state.heap block.start
      · obtain ⟨color, marks, used, small, left, right⟩ := heap_mark_used_ok state.heap
          block.start pages positive (by omega) (by omega) (by omega)
        simp only [if_pos recolor, marks, Trap.ok_bind, Trap.pure_ok, Except.ok.injEq,
          Prod.mk.injEq] at completed
        obtain ⟨_, rfl, rfl⟩ := completed
        rw [offset]
        refine resize_invariant invariant member positive (set_usage_from_count _ _ _)
          (set_usage_from_start _ _ _) scanned vacant (by unfold heapPageFree; omega) left
          (fun interior _ => right (count ▸ interior)) ?_
        intro index _
        rw [get_usage_set_from _ _ _ _ small (by omega)]
        by_cases covered : block.start ≤ index ∧ index < block.start + pages
        · rw [if_pos covered, if_pos covered]
        · rw [if_neg covered, if_neg covered, if_neg (by omega)]
      · simp only [if_neg recolor, Trap.pure_ok, Except.ok.injEq, Prod.mk.injEq] at completed
        obtain ⟨_, rfl, rfl⟩ := completed
        rw [offset]
        refine resize_invariant invariant member positive (set_usage_from_count _ _ _)
          (set_usage_from_start _ _ _) scanned vacant startUsed leftColor
          (fun _ _ => Ne.symm recolor) ?_
        intro index _
        rw [get_usage_set_from _ _ _ _ colorBound (by omega)]
        by_cases covered : block.start ≤ index ∧ index < block.start + pages
        · rw [if_pos covered]
          by_cases old : index < stop
          · rw [if_neg (by omega), inRun index covered.1 old]
          · rw [if_pos (by omega)]
        · rw [if_neg covered, if_neg (by omega), if_neg (by omega)]
    · rw [if_neg space] at completed
      obtain ⟨⟨movedPtr, moved⟩, allocated, completed⟩ := Trap.bind_eq_ok.mp completed
      obtain ⟨⟨freedCount, freed⟩, released, completed⟩ := Trap.bind_eq_ok.mp completed
      simp only [Trap.pure_ok, Except.ok.injEq, Prod.mk.injEq] at completed
      obtain ⟨_, rfl, rfl⟩ := completed
      have placed := alloc_invariant addressable invariant positive allocated
      obtain ⟨first, color, rfl, rfl, fits, _, _, free, _⟩ :=
        heap_alloc_ok positive (by omega) allocated
      have samePtr : pagePtr (setUsageFrom state.heap color first pages) block.start =
          pagePtr state.heap block.start := by
        simp only [pagePtr, set_usage_from_start]
      have newOffset := page_offset_ptr invariant.startBound (by omega : first < 1048576)
      rw [newOffset] at placed
      rw [← samePtr] at released
      have result := free_invariant addressable placed (List.mem_cons_of_mem _ member) near released
      have apart : first ≠ block.start := by
        intro same
        exact startUsed (free block.start (by omega) (by omega))
      have dropped : dropStart (⟨first, pages⟩ :: state.live) block.start =
          ⟨first, pages⟩ :: dropStart state.live block.start := by
        simp [dropStart, apart]
      rw [dropped] at result
      rw [newOffset]
      exact result

/-- One legal call preserves the colouring. -/
theorem heap_step_invariant (invariant : HeapInvariant pageCount state) (call : HeapCall)
    (legal : LegalCall state call) (near : NearCall state call) {observation : Nat} {next : HeapState}
    (completed : heapStep state call = .ok (observation, next)) :
    HeapInvariant pageCount next := by
  cases call with
  | alloc pages =>
      obtain ⟨⟨ptr, heap⟩, allocated, finished⟩ := Trap.bind_eq_ok.mp completed
      simp only [Trap.pure_ok, Except.ok.injEq, Prod.mk.injEq] at finished
      obtain ⟨_, rfl⟩ := finished
      exact alloc_invariant addressable invariant legal.1 allocated
  | realloc ptr pages =>
      obtain ⟨⟨block, member, rfl⟩, positive, bounded⟩ := legal
      have inside := block_start_lt invariant member
      have offset := page_offset_ptr invariant.startBound (by omega : block.start < 1048576)
      obtain ⟨⟨oldSize, newPtr, heap⟩, reallocated, finished⟩ := Trap.bind_eq_ok.mp completed
      simp only [Trap.pure_ok, Except.ok.injEq, Prod.mk.injEq, offset] at finished
      obtain ⟨_, rfl⟩ := finished
      have count := invariant.count
      exact realloc_invariant addressable invariant member (near block member rfl) positive
        (by omega) reallocated
  | free ptr =>
      obtain ⟨block, member, rfl⟩ := legal
      have inside := block_start_lt invariant member
      have offset := page_offset_ptr invariant.startBound (by omega : block.start < 1048576)
      obtain ⟨⟨freedCount, heap⟩, released, finished⟩ := Trap.bind_eq_ok.mp completed
      simp only [Trap.pure_ok, Except.ok.injEq, Prod.mk.injEq, offset] at finished
      obtain ⟨_, rfl⟩ := finished
      exact free_invariant addressable invariant member (near block member rfl) released
  | elsewhere memory =>
      simp only [heapStep, Except.ok.injEq, Prod.mk.injEq] at completed
      obtain ⟨_, rfl⟩ := completed
      refine ⟨invariant.count, invariant.startBound, invariant.startAligned, ?_⟩
      refine invariant.coloured.congr ?_
      intro index below
      have count := invariant.count
      have inMap : index / 4 < usageBytes state.heap.pageCount := by
        rw [usageBytes, u32_of_lt (by omega)]
        omega
      simp only [heapGetUsage, if_pos inMap]

end Steps

theorem zero_byte_usage {heap : Heap} {index : Nat} (zero : heap.usageMap (index / 4) = 0) :
    heapGetUsage heap index = heapPageFree := by
  simp [heapGetUsage, zero, heapPageFree]

theorem heap_init_fields {memory : Nat → UInt8} {heapStart pageCount : Nat} {heap : Heap}
    (initialized : heapInit memory heapStart pageCount = .ok heap) :
    heap.pageCount = pageCount ∧ heap.heapStart < 4294967296 ∧
      (heapStart < 4294967296 → heap.heapStart % 4096 = 0) ∧
      heap.usageMap = fun i => if i < usageBytes pageCount then 0 else memory i := by
  obtain ⟨_, aligned, fields⟩ := Trap.bind_eq_ok.mp initialized
  rw [Trap.kernel_assert_eq_ok] at aligned
  simp only [Trap.pure_ok, Except.ok.injEq] at fields
  subst heap
  refine ⟨rfl, u32_lt _, ?_, rfl⟩
  intro bounded
  simp only [isPageAligned, u32, Nat.shiftLeft_eq, beq_iff_eq] at aligned
  simp only [u32]
  omega

theorem heap_init_ok (memory : Nat → UInt8) (heapStart pageCount : Nat)
    (aligned : isPageAligned heapStart = true) :
    ∃ heap, heapInit memory heapStart pageCount = .ok heap := by
  simp only [heapInit, Trap.kernel_assert_of aligned, Trap.ok_bind, Trap.pure_ok]
  exact ⟨_, rfl⟩

/-- `heap_init` makes every page free. -/
theorem init_invariant {memory : Nat → UInt8} {heapStart pageCount : Nat} {heap : Heap}
    (addressable : pageCount ≤ 1048576) (startBound : heapStart < 4294967296)
    (initialized : heapInit memory heapStart pageCount = .ok heap) :
    HeapInvariant pageCount ⟨heap, []⟩ := by
  obtain ⟨count, bounded, aligned, map⟩ := heap_init_fields initialized
  refine ⟨count, bounded, aligned startBound, coloured_nil ?_⟩
  intro index below
  apply zero_byte_usage
  have inMap : index / 4 < usageBytes pageCount := by
    rw [usageBytes, u32_of_lt (by omega)]
    omega
  rw [map]
  exact if_pos inMap

section FarBlock

variable {heap : Heap} {pageCount : Nat}

/-- On an empty heap, half of the address space and one more page are handed out
in order. -/
theorem far_block_run {half : Nat} (halfEq : half = 524288)
    (count : heap.pageCount = pageCount) (low : half < pageCount)
    (high : pageCount < 4294967296) (startBound : heap.heapStart < 4294967296)
    (clear : ∀ index, index < pageCount → heapGetUsage heap index = heapPageFree) :
    ∃ first second ptr nextPtr middle, 0 < second ∧ second < 4 ∧ first < 4 ∧
      heapStep ⟨heap, []⟩ (.alloc half) = .ok (ptr, ⟨middle, [⟨0, half⟩]⟩) ∧
      middle = setUsageFrom heap first 0 half ∧
      heapStep ⟨middle, [⟨0, half⟩]⟩ (.alloc 1) =
        .ok (nextPtr, ⟨setUsageFrom middle second half 1, [⟨half, 1⟩, ⟨0, half⟩]⟩) := by
  obtain ⟨ptr, marked, allocated⟩ := heap_alloc_of_window heap half 0
    (by omega) (by omega) (by omega) (fun index _ below => clear index (by omega))
  obtain ⟨start, first, ptrEq, markedEq, _, used, small, _, _, _, minimal⟩ :=
    heap_alloc_ok (by omega) (by omega) allocated
  subst ptrEq markedEq
  have startZero : start = 0 := by
    by_contra later
    obtain ⟨index, _, below, taken⟩ := minimal 0 (by omega)
    exact taken (clear index (by omega))
  subst start
  have usage : ∀ index, heapGetUsage (setUsageFrom heap first 0 half) index =
      if 0 ≤ index ∧ index < half then first else heapGetUsage heap index := fun index => by
    rw [get_usage_set_from first 0 half index small (by omega), Nat.zero_add]
  obtain ⟨nextPtr, nextMarked, nextAllocated⟩ :=
    heap_alloc_of_window (setUsageFrom heap first 0 half) 1 half
      (by decide) (by rw [set_usage_from_count]; omega) (by rw [set_usage_from_count]; omega)
      (fun index above below => by
        rw [usage, if_neg (by omega)]
        exact clear index (by omega))
  obtain ⟨next, second, nextPtrEq, nextMarkedEq, _, secondUsed, secondSmall, vacant, _, _,
    nextMinimal⟩ := heap_alloc_ok (by decide) (by rw [set_usage_from_count]; omega) nextAllocated
  subst nextPtrEq nextMarkedEq
  have nextStart : next = half := by
    by_contra different
    rcases Nat.lt_or_gt_of_ne different with before | past
    · have free := vacant next (Nat.le_refl _) (by omega)
      rw [usage, if_pos ⟨Nat.zero_le _, before⟩] at free
      unfold heapPageFree at free
      omega
    · obtain ⟨index, above, below, taken⟩ := nextMinimal half past
      apply taken
      rw [usage, if_neg (by omega)]
      exact clear index (by omega)
  subst next
  have firstOffset := page_offset_ptr startBound (by omega : 0 < 1048576)
  have secondOffset : pageOffset (setUsageFrom heap first 0 half)
      (pagePtr (setUsageFrom heap first 0 half) half) = half :=
    page_offset_ptr (by rw [set_usage_from_start]; exact startBound) (by omega)
  refine ⟨first, second, pagePtr heap 0, pagePtr (setUsageFrom heap first 0 half) half,
    setUsageFrom heap first 0 half, secondUsed, secondSmall, small, ?_, rfl, ?_⟩
  · simp only [heapStep, allocated, firstOffset, Trap.ok_bind, Trap.pure_ok]
  · simp only [heapStep, nextAllocated, secondOffset, Trap.ok_bind, Trap.pure_ok]

/-- With clear memory behind the map the far block cannot be freed at all. -/
theorem far_block_free_panics {first second half : Nat} (halfEq : half = 524288)
    (startAligned : heap.heapStart % 4096 = 0) (startBound : heap.heapStart < 4294967296)
    (firstSmall : first < 4) (secondSmall : second < 4)
    (clear : ∀ index, heapGetUsage heap index = heapPageFree) :
    heapFree (setUsageFrom (setUsageFrom heap first 0 half) second half 1)
      (pagePtr (setUsageFrom (setUsageFrom heap first 0 half) second half 1) half) =
        .error .assertion := by
  have start : (setUsageFrom (setUsageFrom heap first 0 half) second half 1).heapStart =
      heap.heapStart := by rw [set_usage_from_start, set_usage_from_start]
  have usage : heapGetUsage (setUsageFrom (setUsageFrom heap first 0 half) second half 1)
      4294443008 = heapPageFree := by
    rw [get_usage_set_from _ _ _ _ secondSmall (by omega), if_neg (by omega),
      get_usage_set_from _ _ _ _ firstSmall (by omega), if_neg (by omega), clear]
  have index : pageIndex (setUsageFrom (setUsageFrom heap first 0 half) second half 1)
      (pagePtr (setUsageFrom (setUsageFrom heap first 0 half) second half 1) half) = 4294443008 := by
    have far := page_index_ptr_far (setUsageFrom (setUsageFrom heap first 0 half) second half 1)
      (by rw [start]; exact startBound) (by omega : 524288 ≤ half) (by omega)
    rw [far]
    omega
  simp only [heapFree, index, usage, page_ptr_aligned (start ▸ startAligned) half,
    Trap.kernel_assert_of, Trap.ok_bind]
  rfl

end FarBlock

/-- The three-colour law of all runs: what `ThreeColour` says holds after every
sequence of legal calls, for every heap set up with this page count. -/
def ThreeColourRuns (pageCount : Nat) : Prop :=
  ∀ memory heapStart heap calls observations final, heapStart < 4294967296 →
    heapInit memory heapStart pageCount = .ok heap →
    Allowed heapStep LegalCall ⟨heap, []⟩ calls →
    run heapStep ⟨heap, []⟩ calls = .ok (observations, final) → ThreeColour final

theorem three_colour_runs {pageCount : Nat} (countBound : pageCount ≤ 524288) :
    ThreeColourRuns pageCount := by
  intro memory heapStart heap calls observations final startBound initialized legal completed
  have start := init_invariant (by omega) startBound initialized
  refine three_colour_of_invariant countBound ?_
  exact run_preserves (HeapInvariant pageCount)
    (fun state call observation next holds allowed stepped =>
      heap_step_invariant (by omega) holds call allowed (near_call countBound holds call) stepped)
    calls ⟨heap, []⟩ final observations start legal completed

private theorem half_alloc_allowed {heap middle : Heap} {half ptr : Nat}
    (positive : 0 < half) (fits : half ≤ heap.pageCount) (one : 1 ≤ middle.pageCount)
    (first : heapStep ⟨heap, []⟩ (.alloc half) = .ok (ptr, ⟨middle, [⟨0, half⟩]⟩))
    {calls : List HeapCall}
    (rest : ∀ nextPtr next, heapStep ⟨middle, [⟨0, half⟩]⟩ (.alloc 1) = .ok (nextPtr, next) →
      Allowed heapStep LegalCall next calls) :
    Allowed heapStep LegalCall ⟨heap, []⟩ (.alloc half :: .alloc 1 :: calls) :=
  allowed_cons_of_step ⟨positive, fits⟩ first ⟨⟨by decide, one⟩, rest⟩

/-- Some page of the heap lies in the far half, and its block cannot be freed. -/
theorem three_colour_fails_interior (pageCount half : Nat) (halfEq : half = 524288)
    (low : half + 1 < pageCount) (high : pageCount < 4294967296) (heapStart : Nat)
    (aligned : isPageAligned heapStart = true) (startBound : heapStart < 4294967296) :
    ∃ heap observations final, heapInit (fun _ => 0) heapStart pageCount = .ok heap ∧
      Allowed heapStep LegalCall ⟨heap, []⟩ [.alloc half, .alloc 1] ∧
      run heapStep ⟨heap, []⟩ [.alloc half, .alloc 1] = .ok (observations, final) ∧
      final.live = [⟨half, 1⟩, ⟨0, half⟩] ∧ final.heap.pageCount = pageCount ∧
      heapFree final.heap (pagePtr final.heap half) = .error .assertion := by
  obtain ⟨heap, initialized⟩ := heap_init_ok (fun _ => 0) heapStart pageCount aligned
  obtain ⟨count, fieldBound, fieldAligned, map⟩ := heap_init_fields initialized
  have clear : ∀ index, heapGetUsage heap index = heapPageFree := fun index => by
    apply zero_byte_usage
    rw [map]
    exact ite_self _
  obtain ⟨first, second, ptr, nextPtr, middle, _, secondSmall, firstSmall, firstStep, middleEq,
    nextStep⟩ := far_block_run halfEq count (by omega) high fieldBound (fun index _ => clear index)
  refine ⟨heap, [ptr, nextPtr], _, initialized, ?_,
    run_cons_of_step firstStep (run_cons_of_step nextStep rfl), rfl, ?_, ?_⟩
  · refine half_alloc_allowed (by omega) (by omega) ?_ firstStep (fun _ _ _ => trivial)
    rw [middleEq, set_usage_from_count]
    omega
  · simp only [middleEq, set_usage_from_count, count]
  · rw [middleEq]
    exact far_block_free_panics halfEq (fieldAligned startBound) fieldBound firstSmall secondSmall
      clear

/-- With exactly one page in the far half, `heap_free` on it clears memory behind the
map instead, and the page stays marked. -/
theorem three_colour_fails_last {half : Nat} (halfEq : half = 524288) :
    ¬ ThreeColourRuns (half + 1) := by
  intro law
  obtain ⟨heap, initialized⟩ := heap_init_ok
    (fun i => if i = 1073610752 then 0x40 else 0) 0 (half + 1) rfl
  obtain ⟨count, fieldBound, fieldAligned, map⟩ := heap_init_fields initialized
  have mapSize : usageBytes (half + 1) = 131073 := by
    rw [usageBytes, u32_of_lt (by omega)]
    omega
  have clear : ∀ index, index < half + 1 → heapGetUsage heap index = heapPageFree := by
    intro index below
    apply zero_byte_usage
    rw [map]
    exact if_pos (by omega)
  have farByte : heap.usageMap 1073610752 = 0x40 := by
    rw [map, mapSize]
    rfl
  obtain ⟨first, second, ptr, nextPtr, middle, secondUsed, secondSmall, firstSmall, firstStep,
    middleEq, nextStep⟩ := far_block_run halfEq count (by omega) (by omega) fieldBound clear
  generalize finalEq : setUsageFrom middle second half 1 = marked at nextStep
  have start : marked.heapStart = heap.heapStart := by
    rw [← finalEq, middleEq, set_usage_from_start, set_usage_from_start]
  have usage : ∀ index, half < index → heapGetUsage marked index = heapGetUsage heap index := by
    intro index above
    rw [← finalEq, middleEq, get_usage_set_from _ _ _ _ secondSmall (by omega), if_neg (by omega),
      get_usage_set_from _ _ _ _ firstSmall (by omega), if_neg (by omega)]
  have farUsage : heapGetUsage marked 4294443008 = 1 := by
    rw [usage _ (by omega)]
    simp [heapGetUsage, farByte]
  have nextUsage : heapGetUsage marked 4294443009 = 0 := by
    rw [usage _ (by omega)]
    simp [heapGetUsage, farByte]
  have index : pageIndex marked (pagePtr marked half) = 4294443008 := by
    have far := page_index_ptr_far marked (by rw [start]; exact fieldBound)
      (by omega : 524288 ≤ half) (by omega)
    rw [far]
    omega
  have offset : pageOffset marked (pagePtr marked half) = half :=
    page_offset_ptr (by rw [start]; exact fieldBound) (by omega)
  have scanned : colorRunEnd marked 1 (indexLimit - 4294443008) 4294443008 = .ok 4294443009 := by
    apply color_run_end_of_run (by decide) (by decide)
    · rw [nextUsage]
      decide
    · intro cell above below
      rw [show cell = 4294443008 by omega, farUsage]
  have released : heapFree marked (pagePtr marked half) =
      .ok (1, setUsageFrom marked heapPageFree 4294443008 1) := by
    simp only [heapFree, index, farUsage,
      page_ptr_aligned (start ▸ fieldAligned (by decide)) half, Trap.kernel_assert_of,
      Trap.ok_bind]
    rw [free_run_eq _ _ _ _ (by decide), scanned]
    rfl
  have freeStep : heapStep ⟨marked, [⟨half, 1⟩, ⟨0, half⟩]⟩ (.free (pagePtr marked half)) =
      .ok (1, ⟨setUsageFrom marked heapPageFree 4294443008 1,
        dropStart [⟨half, 1⟩, ⟨0, half⟩] half⟩) := by
    simp only [heapStep, released, offset, Trap.ok_bind, Trap.pure_ok]
  have colouring := (law _ 0 heap [.alloc half, .alloc 1, .free (pagePtr marked half)]
    [ptr, nextPtr, 1] _ (by decide) initialized
    (half_alloc_allowed (by omega) (by omega)
      (by rw [middleEq, set_usage_from_count]; omega) firstStep
      (fun nextPtr' next same => by
        rw [nextStep] at same
        simp only [Except.ok.injEq, Prod.mk.injEq] at same
        rw [← same.2]
        exact ⟨⟨⟨half, 1⟩, by simp, rfl⟩, fun _ _ _ => trivial⟩))
    (run_cons_of_step firstStep (run_cons_of_step nextStep (run_cons_of_step freeStep rfl)))).coloured
  have finalCount : (setUsageFrom marked heapPageFree 4294443008 1).pageCount = half + 1 := by
    rw [set_usage_from_count, ← finalEq, middleEq, set_usage_from_count, set_usage_from_count, count]
  have still : heapGetUsage (setUsageFrom marked heapPageFree 4294443008 1) half ≠ heapPageFree := by
    rw [get_usage_set_from _ _ _ _ (by decide) (by omega), if_neg (by omega), ← finalEq,
      get_usage_set_from _ _ _ _ secondSmall (by omega), if_pos (by omega)]
    unfold heapPageFree
    omega
  obtain ⟨block, member, covers⟩ := (colouring.used_iff half (by rw [finalCount]; omega)).mp still
  obtain ⟨original, different⟩ := mem_drop_start.mp member
  rcases List.mem_cons.mp original with same | other
  · exact different (by rw [same])
  · rw [List.mem_singleton.mp other] at covers
    have below : half < 0 + half := covers.2
    omega

/-- The colours tell all live allocations apart in every run exactly when the heap
spans at most half of the address space, so that every pointer difference is a
positive signed word. -/
theorem three_colour_runs_iff (pageCount : Nat) (word : pageCount < 4294967296) :
    ThreeColourRuns pageCount ↔ pageCount ≤ 524288 := by
  constructor
  · intro law
    by_contra large
    have halfEq : ∃ half, half = 524288 := ⟨_, rfl⟩
    obtain ⟨half, halfEq⟩ := halfEq
    by_cases last : pageCount = half + 1
    · subst pageCount
      exact three_colour_fails_last halfEq law
    · obtain ⟨heap, observations, final, initialized, legal, completed, live, count, panics⟩ :=
        three_colour_fails_interior pageCount half halfEq (by omega) word 0 rfl (by decide)
      have colours := law _ 0 heap _ observations final (by decide) initialized legal completed
      obtain ⟨freed, released, _⟩ := colours.freedExactly ⟨half, 1⟩ (by rw [live]; simp)
        (by rw [count]; exact show half + 1 < pageCount by omega)
      rw [panics] at released
      cases released
  · exact three_colour_runs

/-- The heap of `user_ro_heap`'s size keeps the law. -/
theorem three_colour_runs_user_ro : ThreeColourRuns 1024 :=
  (three_colour_runs_iff 1024 (by decide)).mpr (by decide)

/-- The heap that `exec_sun` sets up behind a one-page program does not: after an
allocation of `0x80000` pages the next block lies at `0x80451000`, and
`heap_free` on it fails an assertion. -/
theorem three_colour_process_heap : ∃ heap observations final,
    heapInit (fun _ => 0) 0x421000 784351 = .ok heap ∧
      Allowed heapStep LegalCall ⟨heap, []⟩ [.alloc 524288, .alloc 1] ∧
      run heapStep ⟨heap, []⟩ [.alloc 524288, .alloc 1] = .ok (observations, final) ∧
      ¬ ThreeColour final := by
  obtain ⟨heap, observations, final, initialized, legal, completed, live, count, panics⟩ :=
    three_colour_fails_interior 784351 524288 rfl (by decide) (by decide)
      0x421000 rfl (by decide)
  refine ⟨heap, observations, final, initialized, legal, completed, ?_⟩
  intro colours
  obtain ⟨freed, released, _⟩ := colours.freedExactly ⟨524288, 1⟩ (by rw [live]; simp)
    (by rw [count]; decide)
  rw [panics] at released
  cases released

end ParadiseOS.HeapRuns
