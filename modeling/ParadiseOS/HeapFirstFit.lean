import ParadiseOS.HeapRuns

/-!
# The heap allocator is first fit

`heap_alloc` is judged by the windows of free pages that its usage map has: it takes
the first of them, marks it with a colour of its own, and stops at its last
assertion when there is none.
-/

namespace ParadiseOS.HeapFirstFit

open HeapModel HeapUsage HeapRuns

set_option autoImplicit false

/-- So many pages from `start` on are free and lie below `page_count`. -/
def Fits (heap : Heap) (pages start : Nat) : Prop :=
  start + pages ≤ heap.pageCount ∧
    ∀ index, start ≤ index → index < start + pages → heapGetUsage heap index = heapPageFree

/-- The window at `start` was marked with a used colour, and nothing else was. -/
structure Marked (heap marked : Heap) (pages start color : Nat) : Prop where
  used : 0 < color ∧ color < 4
  usage : ∀ index, heapGetUsage marked index =
    if start ≤ index ∧ index < start + pages then color else heapGetUsage heap index
  left : 0 < start → color ≠ heapGetUsage heap (start - 1)
  right : start + pages < heap.pageCount → color ≠ heapGetUsage heap (start + pages)
  heapStart : marked.heapStart = heap.heapStart
  pageCount : marked.pageCount = heap.pageCount

/-- `heap_alloc` together with the heap it leaves behind, also when an assertion fails. -/
def heapAllocOutcome (heap : Heap) (pages : Nat) : Except Trap Nat × Heap :=
  match allocScan heap pages heap.pageCount 0 0 0 with
  | none => (.error .assertion, heap)
  | some (start, space) =>
      match heapMarkUsed heap start space with
      | .error trap => (.error trap, heap)
      | .ok marked => (.ok (pagePtr heap start), marked)

theorem heap_alloc_outcome (heap : Heap) (pages : Nat) :
    heapAlloc heap pages =
      (heapAllocOutcome heap pages).1.map fun ptr => (ptr, (heapAllocOutcome heap pages).2) := by
  rw [heapAlloc, heapAllocOutcome]
  cases allocScan heap pages heap.pageCount 0 0 0 with
  | none => rfl
  | some window =>
      obtain ⟨start, space⟩ := window
      simp only
      cases heapMarkUsed heap start space with
      | error trap => rfl
      | ok marked => rfl

section FirstFit

variable {heap : Heap} {pages : Nat}

/-- Without a window the scan runs to the end of the heap and the call stops as it began. -/
theorem heap_alloc_none (none : ¬ ∃ start, Fits heap pages start) (positive : 0 < pages) :
    heapAllocOutcome heap pages = (.error .assertion, heap) := by
  rw [heapAllocOutcome]
  cases scanned : allocScan heap pages heap.pageCount 0 0 0 with
  | none => rfl
  | some window =>
      obtain ⟨start, found⟩ := window
      obtain ⟨_, _, fits, vacant, _⟩ := alloc_scan_some positive rfl positive
        (fun index _ high => absurd high (Nat.not_lt_zero index)) scanned
      exact absurd ⟨start, by omega, vacant⟩ none

theorem heap_alloc_marks {ptr : Nat} {marked : Heap} (positive : 0 < pages)
    (bounded : heap.pageCount < 4294967296) (completed : heapAlloc heap pages = .ok (ptr, marked)) :
    ∃ start color, Fits heap pages start ∧ (∀ earlier, Fits heap pages earlier → start ≤ earlier) ∧
      ptr = pagePtr heap start ∧ Marked heap marked pages start color := by
  obtain ⟨start, color, isPtr, isMarked, inside, used, small, vacant, left, right, minimal⟩ :=
    heap_alloc_ok positive bounded completed
  refine ⟨start, color, ⟨inside, vacant⟩, ?_, isPtr, ⟨used, small⟩, ?_, left, right, ?_, ?_⟩
  · intro earlier fits
    by_contra before
    obtain ⟨index, low, high, taken⟩ := minimal earlier (by omega)
    exact taken (fits.2 index low high)
  · intro index
    rw [isMarked]
    exact get_usage_set_from color start pages index small (by omega)
  · rw [isMarked, set_usage_from_start]
  · rw [isMarked, set_usage_from_count]

/-- For every usage map and every request: success means that a window of free pages exists, the
first one is taken, and otherwise the last assertion fails with the map as it was. -/
theorem heap_alloc_first_fit (heap : Heap) (pages : Nat) (positive : 0 < pages)
    (bounded : heap.pageCount < 4294967296) :
    ((∃ ptr marked, heapAlloc heap pages = .ok (ptr, marked)) ↔ ∃ start, Fits heap pages start) ∧
      (∀ ptr marked, heapAlloc heap pages = .ok (ptr, marked) →
        ∃ start color, Fits heap pages start ∧ (∀ earlier, Fits heap pages earlier → start ≤ earlier) ∧
          ptr = pagePtr heap start ∧ Marked heap marked pages start color) ∧
      ((¬ ∃ start, Fits heap pages start) →
        heapAllocOutcome heap pages = (.error .assertion, heap)) := by
  refine ⟨⟨?_, ?_⟩, ?_, fun none => heap_alloc_none none positive⟩
  · rintro ⟨ptr, marked, completed⟩
    obtain ⟨start, _, fits, _⟩ := heap_alloc_marks positive bounded completed
    exact ⟨start, fits⟩
  · rintro ⟨start, fits⟩
    exact heap_alloc_of_window heap pages start positive bounded fits.1 fits.2
  · exact fun ptr marked completed => heap_alloc_marks positive bounded completed

/-- A heap of four pages whose first page is used. -/
def takenHeap : Heap := ⟨fun _ => 0x40, 0x2000, 4⟩

theorem heap_alloc_first_fit_taken :
    heapAlloc takenHeap 2 = .ok (0x3000, setUsageFrom takenHeap 2 1 2) ∧
      ∃ start color, Fits takenHeap 2 start ∧ (∀ earlier, Fits takenHeap 2 earlier → start ≤ earlier) ∧
        0x3000 = pagePtr takenHeap start ∧
        Marked takenHeap (setUsageFrom takenHeap 2 1 2) 2 start color :=
  ⟨rfl, (heap_alloc_first_fit takenHeap 2 (by decide) (by decide)).2.1 _ _ rfl⟩

end FirstFit

end ParadiseOS.HeapFirstFit
