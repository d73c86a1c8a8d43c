import ParadiseOS.HeapRuns
import ParadiseOS.ProcessModel
import ParadiseOS.WrittenArray

/-!
# The usage map is an array of page usages

The two-bit fields of the map are independent cells, so a run of `heap_set_usage`
leaves at each index what was last set there. The loops of the allocator set one
usage at the indices they visit, and `heap_init` clears every index of the heap.
-/

namespace ParadiseOS.UsageArray

open HeapModel HeapRuns HeapUsage MachineWord WrittenArray
open MemModel (heapPageCount userRoPages)
open PagingModel (pageSize)
open ProcessModel (stackTop)

set_option autoImplicit false

/-- A run of `heap_set_usage` calls, each with its index and its usage. -/
def setUsages (heap : Heap) (calls : List (Nat × Nat)) : Heap := writeAll heapSetUsage heap calls

/-- `pmemset` on the bytes at `memory`: the loop has reached byte `i`. -/
def pmemset (memory : Nat → UInt8) (byte : UInt8) (i : Nat) : Nat → Nat → UInt8
  | 0 => memory
  | count + 1 => pmemset (Function.update memory i byte) byte (i + 1) count

/-- The indices that a loop over `count` pages visits; the index is a 32-bit word. -/
def visited (start count : Nat) : List Nat := (List.range count).map fun round => u32 (start + round)

/-- The given indices were set to the usage, and nothing else changed. -/
structure Painted (heap painted : Heap) (usage : Nat) (range : Nat → Prop) : Prop where
  inside : ∀ index, range index → heapGetUsage painted index = usage
  outside : ∀ index, ¬ range index → heapGetUsage painted index = heapGetUsage heap index
  heapStart : painted.heapStart = heap.heapStart
  pageCount : painted.pageCount = heap.pageCount

/-- The run of one used colour that begins at `start`, up to the first page of another usage. -/
structure ColourRun (heap : Heap) (start stop : Nat) : Prop where
  used : heapGetUsage heap start ≠ heapPageFree
  nonempty : start < stop
  bound : stop < indexLimit
  colour : ∀ index, start ≤ index → index < stop → heapGetUsage heap index = heapGetUsage heap start
  stopped : heapGetUsage heap stop ≠ heapGetUsage heap start

/-- The page counts with which `heap_init` is called: by `init_heap` for its two
heaps, and by `exec_sun` for the heap of a process. -/
inductive Passed : Nat → Prop
  | kernel (heapAddr : Nat) (enough : heapPageCount heapAddr > userRoPages) :
      Passed (heapPageCount heapAddr - userRoPages)
  | userRo : Passed userRoPages
  | process (heapStart : Nat) : Passed (sub32 stackTop heapStart / pageSize)

section Cells

variable {heap : Heap}

theorem usage_independent : Independent (fun usage => usage < 4) heapGetUsage heapSetUsage :=
  fun _ index usage small other => get_usage_set index other usage small

theorem byte_independent :
    Independent (fun _ => True) (fun memory : Nat → UInt8 => memory) Function.update :=
  fun memory index byte _ other => Function.update_apply memory index byte other

theorem visited_succ {start : Nat} (bound : start < 4294967296) (count : Nat) :
    visited start (count + 1) = start :: visited (u32 (start + 1)) count := by
  have first : u32 (start + 0) = start := u32_of_lt bound
  have later : (fun round => u32 (start + round)) ∘ Nat.succ =
      fun round => u32 (u32 (start + 1) + round) := by
    funext round
    simp only [Function.comp, u32]
    omega
  rw [visited, List.range_succ_eq_map, List.map_cons, List.map_map, first, later, visited]

/-- A marking loop is a run of calls with one usage. -/
theorem set_usage_from_calls (usage start count : Nat) (bound : start < 4294967296) :
    setUsageFrom heap usage start count = setUsages heap (sameWrites usage (visited start count)) := by
  induction count generalizing heap start with
  | zero => rfl
  | succ count ih =>
      rw [setUsageFrom, ih _ (u32_lt _), visited_succ bound]
      rfl

theorem painted_visited {usage start : Nat} (count : Nat) (bound : start < 4294967296)
    (small : usage < 4) :
    Painted heap (setUsageFrom heap usage start count) usage fun index => index ∈ visited start count := by
  have usages : ∀ index, heapGetUsage (setUsageFrom heap usage start count) index =
      if index ∈ visited start count then usage else heapGetUsage heap index := by
    intro index
    rw [set_usage_from_calls usage start count bound]
    exact read_same_writes usage_independent heap small (visited start count) index
  refine ⟨?_, ?_, set_usage_from_start usage start count, set_usage_from_count usage start count⟩
  · intro index inside
    rw [usages, if_pos inside]
  · intro index outside
    rw [usages, if_neg outside]

theorem mem_visited {start count : Nat} (fits : start + count ≤ 4294967296) (index : Nat) :
    index ∈ visited start count ↔ start ≤ index ∧ index < start + count := by
  simp only [visited, List.mem_map, List.mem_range]
  constructor
  · rintro ⟨round, within, rfl⟩
    rw [u32_of_lt (by omega)]
    omega
  · rintro ⟨low, high⟩
    refine ⟨index - start, by omega, ?_⟩
    rw [Nat.add_sub_cancel' low, u32_of_lt (by omega)]

/-- A loop that does not wrap visits an interval. -/
theorem painted_interval {usage start stop : Nat} (ordered : start ≤ stop) (bound : stop < indexLimit)
    (small : usage < 4) :
    Painted heap (setUsageFrom heap usage start (stop - start)) usage
      fun index => start ≤ index ∧ index < stop := by
  have last : start + (stop - start) = stop := Nat.add_sub_cancel' ordered
  have interval : (fun index => index ∈ visited start (stop - start)) =
      fun index => start ≤ index ∧ index < stop := by
    funext index
    rw [mem_visited (last.le.trans bound.le), last]
  rw [← interval]
  exact painted_visited (stop - start) (ordered.trans_lt bound) small

end Cells

section Loops

variable {heap : Heap}

theorem color_run_end_iff {start : Nat} (bound : start < indexLimit) (stop : Nat)
    (used : heapGetUsage heap start ≠ heapPageFree) :
    colorRunEnd heap (heapGetUsage heap start) (indexLimit - start) start = .ok stop ↔
      ColourRun heap start stop := by
  have limit : start + (indexLimit - start) = indexLimit := by omega
  constructor
  · intro scanned
    obtain ⟨low, high, stopped, inside⟩ := color_run_end_ok scanned
    have later : start ≠ stop := fun same => stopped (same ▸ rfl)
    exact ⟨used, by omega, by omega, inside, stopped⟩
  · intro run
    exact color_run_end_of_run run.nonempty.le (limit.symm ▸ run.bound) run.stopped run.colour

theorem of_signed_lt (i : Int) : ofSigned i < 4294967296 := by
  have nonneg : (0 : Int) ≤ i % 4294967296 := Int.emod_nonneg _ (by decide)
  exact (Int.toNat_lt nonneg).mpr (Int.emod_lt_of_pos _ (by decide))

theorem page_index_lt (heap : Heap) (ptr : Nat) : pageIndex heap ptr < indexLimit :=
  of_signed_lt ((ptrDiff ptr heap.heapStart).tdiv 4096)

section Pointers

variable {ptr start : Nat} (same : pageIndex heap ptr = start)

include same

theorem heap_free_scans (aligned : isPageAligned ptr = true)
    (used : heapGetUsage heap start ≠ heapPageFree) :
    heapFree heap ptr =
      (colorRunEnd heap (heapGetUsage heap start) (indexLimit - start) start).map fun stop =>
        (stop - start, setUsageFrom heap heapPageFree start (stop - start)) := by
  have bound : start < indexLimit := same ▸ page_index_lt heap ptr
  have limit : start + (indexLimit - start) ≤ 4294967296 := by
    rw [Nat.add_sub_cancel' bound.le, indexLimit]
  rw [heapFree, Trap.kernel_assert_of aligned, Trap.ok_bind]
  simp only [same]
  rw [Trap.kernel_assert_of used, Trap.ok_bind, free_run_eq _ _ _ _ limit]
  simp only [Nat.zero_add]

/-- `heap_free` returns for the pointers to a colour run, and frees that run. -/
theorem heap_free_iff (freedCount : Nat) (freed : Heap) :
    heapFree heap ptr = .ok (freedCount, freed) ↔
      isPageAligned ptr = true ∧ ColourRun heap start (start + freedCount) ∧
        freed = setUsageFrom heap heapPageFree start freedCount := by
  have bound : start < indexLimit := same ▸ page_index_lt heap ptr
  constructor
  · intro completed
    obtain ⟨_, aligned, checked⟩ := Trap.bind_eq_ok.mp completed
    obtain ⟨_, used, _⟩ := Trap.bind_eq_ok.mp checked
    rw [Trap.kernel_assert_eq_ok] at aligned used
    rw [same] at used
    rw [heap_free_scans same aligned used] at completed
    cases scanned : colorRunEnd heap (heapGetUsage heap start) (indexLimit - start) start with
    | error trap =>
        rw [scanned] at completed
        cases completed
    | ok stop =>
        have run := (color_run_end_iff bound stop used).mp scanned
        have last : start + (stop - start) = stop := Nat.add_sub_cancel' run.nonempty.le
        rw [scanned] at completed
        simp only [Except.map, Except.ok.injEq, Prod.mk.injEq] at completed
        obtain ⟨rfl, rfl⟩ := completed
        exact ⟨aligned, last.symm ▸ run, rfl⟩
  · rintro ⟨aligned, run, rfl⟩
    rw [heap_free_scans same aligned run.used, (color_run_end_iff bound _ run.used).mpr run]
    simp only [Except.map, Nat.add_sub_cancel_left]

theorem heap_free_painted {freedCount : Nat} {freed : Heap}
    (completed : heapFree heap ptr = .ok (freedCount, freed)) :
    Painted heap freed heapPageFree fun index => start ≤ index ∧ index < start + freedCount := by
  obtain ⟨_, run, rfl⟩ := (heap_free_iff same freedCount freed).mp completed
  have painted : Painted heap (setUsageFrom heap heapPageFree start (start + freedCount - start))
      heapPageFree fun index => start ≤ index ∧ index < start + freedCount :=
    painted_interval run.nonempty.le run.bound (by decide)
  rw [Nat.add_sub_cancel_left] at painted
  exact painted

/-- The downsizing loop of `heap_realloc`. -/
theorem heap_realloc_shrinks {pages stop : Nat} (aligned : isPageAligned ptr = true)
    (run : ColourRun heap start stop) (smaller : u32 (start + pages) ≤ stop) :
    ∃ shrunk, heapRealloc heap ptr pages = .ok (stop - start, ptr, shrunk) ∧
      Painted heap shrunk heapPageFree fun index => u32 (start + pages) ≤ index ∧ index < stop := by
  have bound : start < indexLimit := same ▸ page_index_lt heap ptr
  have fuel : indexLimit - (start + 1) + 1 = indexLimit - start := by omega
  have scanned : colorRunEnd heap (heapGetUsage heap start) (indexLimit - (start + 1)) (start + 1) =
      .ok stop := by
    rw [color_run_end_succ, fuel]
    exact (color_run_end_iff bound stop run.used).mpr run
  refine ⟨_, ?_, painted_interval smaller run.bound (by decide)⟩
  rw [heapRealloc, Trap.kernel_assert_of aligned, Trap.ok_bind]
  simp only [same]
  rw [Trap.kernel_assert_of run.used, Trap.ok_bind, scanned, Trap.ok_bind, if_pos smaller, Trap.pure_ok]

end Pointers

/-- `heap_mark_used` returns for every range, also for one that leaves the heap or wraps around. -/
theorem heap_mark_used_painted (heap : Heap) {start : Nat} (bound : start < 4294967296) (space : Nat) :
    ∃ color marked, heapMarkUsed heap start space = .ok marked ∧ 0 < color ∧ color < 4 ∧
      Painted heap marked color fun index => index ∈ visited start space := by
  obtain ⟨color, found, used, small, _, _⟩ := get_new_color_ok
    (if start > 0 then heapGetUsage heap (start - 1) else heapPageFree)
    (if sub32 (start + space) 1 < sub32 heap.pageCount 1 then
      heapGetUsage heap (u32 (sub32 (start + space) 1 + 1)) else heapPageFree)
    (by split_ifs; exacts [get_usage_lt _, by decide])
    (by split_ifs; exacts [get_usage_lt _, by decide])
  refine ⟨color, setUsageFrom heap color start space, ?_, used, small, painted_visited space bound small⟩
  simp only [heapMarkUsed, found, Trap.ok_bind, Trap.pure_ok]

end Loops

section Clearing

theorem pmemset_eq (memory : Nat → UInt8) (byte : UInt8) (i count index : Nat) :
    pmemset memory byte i count index =
      if i ≤ index ∧ index < i + count then byte else memory index := by
  have writes : pmemset memory byte i count =
      writeAll Function.update memory (sameWrites byte (List.range' i count)) := by
    induction count generalizing memory i with
    | zero => rfl
    | succ count ih =>
        rw [pmemset, ih, List.range'_succ]
        rfl
  have read : writeAll Function.update memory (sameWrites byte (List.range' i count)) index =
      if index ∈ List.range' i count then byte else memory index :=
    read_same_writes byte_independent memory trivial _ index
  rw [writes, read]
  exact if_congr List.mem_range'_1 rfl rfl

theorem heap_init_clears {memory : Nat → UInt8} {heapStart pageCount : Nat} {heap : Heap}
    (initialized : heapInit memory heapStart pageCount = .ok heap) :
    heap.usageMap = pmemset memory 0 0 (usageBytes pageCount) := by
  obtain ⟨_, _, _, map⟩ := heap_init_fields initialized
  rw [map]
  funext i
  rw [pmemset_eq, Nat.zero_add]
  exact if_congr ⟨fun below => ⟨Nat.zero_le i, below⟩, And.right⟩ rfl rfl

/-- The cleared bytes hold every index of the heap, as long as `page_count + 3` does not wrap. -/
theorem heap_init_free {memory : Nat → UInt8} {heapStart pageCount : Nat} {heap : Heap}
    (counted : pageCount + 3 < 4294967296)
    (initialized : heapInit memory heapStart pageCount = .ok heap) (index : Nat)
    (below : index < pageCount) : heapGetUsage heap index = heapPageFree := by
  have inMap : index / 4 < usageBytes pageCount := by
    rw [usageBytes, u32_of_lt counted]
    omega
  apply zero_byte_usage
  rw [heap_init_clears initialized, pmemset_eq, Nat.zero_add, if_pos ⟨Nat.zero_le _, inMap⟩]

theorem passed_counted {pageCount : Nat} (passed : Passed pageCount) :
    pageCount + 3 < 4294967296 := by
  cases passed with
  | kernel heapAddr enough =>
      have word : heapPageCount heapAddr < 4294967296 :=
        of_signed_lt ((ptrDiff PagingModel.pageTableEntries heapAddr).tdiv 4096)
      rw [userRoPages]
      omega
  | userRo => decide
  | process heapStart =>
      have word : sub32 stackTop heapStart < 4294967296 := u32_lt _
      rw [pageSize]
      omega

end Clearing

/-- The map of any heap reads as an array whatever was set in it, the loops of the allocator set
the indices of their range, and a new heap is free. -/
theorem usage_map_is_array (heap : Heap) :
    (∀ calls : List (Nat × Nat), (∀ call ∈ calls, call.2 < 4) → ∀ index,
        heapGetUsage (setUsages heap calls) index =
          (lastWritten calls index).getD (heapGetUsage heap index)) ∧
      (∀ start space, start < 4294967296 →
        ∃ color marked, heapMarkUsed heap start space = .ok marked ∧ 0 < color ∧ color < 4 ∧
          Painted heap marked color fun index => index ∈ visited start space) ∧
      (∀ ptr freedCount freed, heapFree heap ptr = .ok (freedCount, freed) →
        Painted heap freed heapPageFree
          fun index => pageIndex heap ptr ≤ index ∧ index < pageIndex heap ptr + freedCount) ∧
      (∀ ptr freedCount, (∃ freed, heapFree heap ptr = .ok (freedCount, freed)) ↔
        isPageAligned ptr = true ∧
          ColourRun heap (pageIndex heap ptr) (pageIndex heap ptr + freedCount)) ∧
      (∀ ptr pages stop, isPageAligned ptr = true → ColourRun heap (pageIndex heap ptr) stop →
        u32 (pageIndex heap ptr + pages) ≤ stop →
        ∃ shrunk, heapRealloc heap ptr pages = .ok (stop - pageIndex heap ptr, ptr, shrunk) ∧
          Painted heap shrunk heapPageFree
            fun index => u32 (pageIndex heap ptr + pages) ≤ index ∧ index < stop) ∧
      (∀ memory heapStart pageCount, isPageAligned heapStart = true →
        pageCount + 3 < 4294967296 →
        ∃ fresh, heapInit memory heapStart pageCount = .ok fresh ∧ fresh.pageCount = pageCount ∧
          fresh.usageMap = pmemset memory 0 0 (usageBytes pageCount) ∧
          ∀ index, index < pageCount → heapGetUsage fresh index = heapPageFree) ∧
      ∀ pageCount, Passed pageCount → pageCount + 3 < 4294967296 := by
  refine ⟨?_, ?_, ?_, ?_, ?_, ?_, ?_⟩
  · intro calls small index
    exact read_write_all usage_independent heap small index
  · intro start space bound
    exact heap_mark_used_painted heap bound space
  · intro ptr freedCount freed completed
    exact heap_free_painted rfl completed
  · intro ptr freedCount
    constructor
    · rintro ⟨freed, completed⟩
      obtain ⟨aligned, run, _⟩ := (heap_free_iff rfl freedCount freed).mp completed
      exact ⟨aligned, run⟩
    · rintro ⟨aligned, run⟩
      exact ⟨_, (heap_free_iff rfl freedCount _).mpr ⟨aligned, run, rfl⟩⟩
  · intro ptr pages stop aligned run smaller
    exact heap_realloc_shrinks rfl aligned run smaller
  · intro memory heapStart pageCount aligned counted
    obtain ⟨fresh, initialized⟩ := heap_init_ok memory heapStart pageCount aligned
    obtain ⟨count, _, _, _⟩ := heap_init_fields initialized
    exact ⟨fresh, initialized, count, heap_init_clears initialized,
      heap_init_free counted initialized⟩
  · intro pageCount passed
    exact passed_counted passed

/-- A heap of four pages of which the first two are one allocation. -/
def pairHeap : Heap := ⟨fun _ => 0x50, 0x2000, 4⟩

theorem pair_run : ColourRun pairHeap (pageIndex pairHeap 0x2000) 2 := by
  have start : pageIndex pairHeap 0x2000 = 0 := by decide
  rw [start]
  refine ⟨by decide, by decide, by decide, ?_, by decide⟩
  intro index _ below
  have cases_of : index = 0 ∨ index = 1 := by omega
  rcases cases_of with rfl | rfl
  · rfl
  · rfl

theorem usage_map_is_array_pair :
    heapGetUsage (setUsages pairHeap [(1, 2), (2, 1), (1, 3)]) 1 = 3 ∧
      heapGetUsage (setUsages pairHeap [(1, 2), (2, 1), (1, 3)]) 0 = 1 ∧
      (∃ color marked, heapMarkUsed pairHeap 2 2 = .ok marked ∧ 0 < color ∧ color < 4 ∧
        Painted pairHeap marked color fun index => index ∈ visited 2 2) ∧
      (∃ freed, heapFree pairHeap 0x2000 = .ok (2, freed)) ∧
      (∃ shrunk, heapRealloc pairHeap 0x2000 1 = .ok (2 - pageIndex pairHeap 0x2000, 0x2000, shrunk) ∧
        Painted pairHeap shrunk heapPageFree
          fun index => u32 (pageIndex pairHeap 0x2000 + 1) ≤ index ∧ index < 2) ∧
      ∃ fresh, heapInit (fun _ => 0x50) 0x1000 4 = .ok fresh ∧ fresh.pageCount = 4 ∧
        fresh.usageMap = pmemset (fun _ => 0x50) 0 0 (usageBytes 4) ∧
        ∀ index, index < 4 → heapGetUsage fresh index = heapPageFree := by
  obtain ⟨sets, marks, _, frees, shrinks, clears, _⟩ := usage_map_is_array pairHeap
  exact ⟨sets _ (by decide) 1, sets _ (by decide) 0, marks 2 2 (by decide),
    (frees 0x2000 2).mpr ⟨by decide, pair_run⟩,
    shrinks 0x2000 1 2 (by decide) pair_run (by decide), clears _ 0x1000 4 (by decide) (by decide)⟩

end ParadiseOS.UsageArray
