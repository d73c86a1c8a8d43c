import ParadiseOS.HeapLockstep
import ParadiseOS.HeapRegions

/-!
# Every kernel frame has exactly one owner

`init_frames` contributes frames to the free list; from there they go behind the
pages of the two kernel heaps, into page tables and into page directories. Through
every run of `mem_alloc`, `mem_realloc`, `mem_free` and `new_page_dir` each frame is
in exactly one of these places.
-/

namespace ParadiseOS.FrameOwners

open ColouredLine HeapModel HeapRuns HeapUsage MachineWord MemModel StepRun
open FrameLedger FrameSteps HeapLockstep HeapRegions NewDirectory PagingModel PagingSteps
open TwoLevelPaging

set_option autoImplicit false

section OneHeap

/-- The allocations of a heap lie in its span, which ends before the last page of the heap. -/
structure Placed (span : Span) (heap : Heap) (live : List Block) : Prop where
  start : heap.heapStart = span.base * 4096
  invariant : HeapInvariant heap.pageCount ⟨heap, live⟩
  near : heap.pageCount ≤ 524288
  limit : span.limit ≤ 1047552
  beyond : span.limit < span.base + heap.pageCount
  ends : ∀ block ∈ live, span.base + block.stop ≤ span.limit

def Inside (span : Span) (page : Nat) : Prop := span.base ≤ page ∧ page < span.limit

/-- The machine went from one ledger to another, with the same directories and no page outside of
the span freed. -/
structure Served (span : Span) (machine next : Machine) (ledger after : Ledger) : Prop where
  globals : SameGlobals machine next
  roots : after.roots = ledger.roots
  directories : after.directories = ledger.directories
  kept : ∀ page ∈ ledger.pages, ¬ Inside span page → page ∈ after.pages

variable {span : Span} {heap after : Heap} {live : List Block} {machine next : Machine}
  {region : Nat → Prop} {contributed : List Nat} {total : Nat} {ledger : Ledger}
  {pages flags ptr : Nat}

theorem served_of_carried {final : Ledger} {touched : Nat → Prop}
    (carried : Carried machine next ledger final touched)
    (kept : ∀ page ∈ ledger.pages, ¬ Inside span page → page ∈ final.pages) :
    Served span machine next ledger final :=
  ⟨carried.globals, carried.roots, carried.directories, kept⟩

theorem placed_ptr (placed : Placed span heap live) {index : Nat}
    (bounded : span.base + index ≤ 1047552) :
    pagePtr heap index = (span.base + index) * 4096 ∧ pagePtr heap index / 4096 = span.base + index := by
  have place : pagePtr heap index = (span.base + index) * 4096 := by
    rw [pagePtr, placed.start]
    unfold u32
    omega
  exact ⟨place, by omega⟩

theorem placed_delimited (placed : Placed span heap live) {block : Block} (member : block ∈ live) :
    Delimited heap.pageCount ⟨heap, live⟩ block := by
  have ends := placed.ends block member
  have beyond := placed.beyond
  have near := placed.near
  have inside := block_start_lt placed.invariant member
  refine ⟨?_, by omega, by omega⟩
  change block.start < 524288
  omega

theorem live_offset (placed : Placed span heap live) {block : Block} (member : block ∈ live) :
    pageOffset heap (pagePtr heap block.start) = block.start := by
  have near := placed.near
  have inside := block_start_lt placed.invariant member
  exact page_offset_ptr placed.invariant.startBound (by omega)

theorem placed_of_steps {later : List Block} (placed : Placed span heap live)
    (start : after.heapStart = heap.heapStart) (count : after.pageCount = heap.pageCount)
    (invariant : HeapInvariant heap.pageCount ⟨after, later⟩)
    (ends : ∀ block ∈ later, span.base + block.stop ≤ span.limit) : Placed span after later where
  start := start.trans placed.start
  invariant := count.symm ▸ invariant
  near := count.symm ▸ placed.near
  limit := placed.limit
  beyond := count.symm ▸ placed.beyond
  ends := ends

/-- First fit does not start behind the limit, where no page is used. -/
theorem first_fit_within (placed : Placed span heap live) {first : Nat} (fits : first + pages ≤ heap.pageCount)
    (minimal : ∀ earlier < first, ∃ index, earlier ≤ index ∧ index < earlier + pages ∧
      heapGetUsage heap index ≠ heapPageFree) : first ≤ span.limit - span.base := by
  by_contra behind
  obtain ⟨index, low, high, used⟩ := minimal (span.limit - span.base) (by omega)
  obtain ⟨block, member, covers⟩ := (placed.invariant.coloured.used_iff index (by omega)).1 used
  have ends := placed.ends block member
  have covered : index < block.stop := covers.2
  omega

/-- `mem_alloc` fails before it reaches the page at the limit, which is mapped. -/
theorem mem_alloc_carried (placed : Placed span heap live)
    (balanced : Balanced region contributed total machine ledger)
    (inside : ∀ page, Inside span page → region page) (small : flags < 4096)
    (ordered : span.base ≤ span.limit)
    (stop : Present (pageEntry machine.memory machine.cr3 span.limit))
    (completed : memAlloc machine heap pages flags = .ok (ptr, after, next)) :
    Placed span after (⟨pageOffset heap ptr, pages⟩ :: live) ∧
      ∃ final, Balanced region contributed total next final ∧
        Carried machine next ledger final (InRange (ptr / 4096) pages) ∧
        ∀ page, page ∈ final.pages ↔ page ∈ ledger.pages ∨ InRange (ptr / 4096) pages page := by
  have invariant := placed.invariant
  have near := placed.near
  have limit := placed.limit
  have beyond := placed.beyond
  obtain ⟨_, positive, completed⟩ := Trap.bind_eq_ok.mp completed
  rw [Trap.kernel_assert_eq_ok] at positive
  obtain ⟨⟨vaddr, marked⟩, allocated, completed⟩ := Trap.bind_eq_ok.mp completed
  obtain ⟨backed, backing, completed⟩ := Trap.bind_eq_ok.mp completed
  simp only [Trap.pure_ok, Except.ok.injEq, Prod.mk.injEq] at completed
  obtain ⟨rfl, rfl, rfl⟩ := completed
  have taken := alloc_invariant (show heap.pageCount ≤ 1048576 by omega) invariant (by omega) allocated
  obtain ⟨first, color, rfl, rfl, fits, _, _, _, _, _, minimal⟩ :=
    heap_alloc_ok (by omega) (by omega) allocated
  have offset : pageOffset heap (pagePtr heap first) = first :=
    page_offset_ptr invariant.startBound (by omega)
  change HeapInvariant heap.pageCount ⟨_, ⟨pageOffset heap (pagePtr heap first), pages⟩ :: live⟩ at taken
  rw [offset] at taken ⊢
  have within := first_fit_within placed fits minimal
  obtain ⟨place, quotient⟩ := placed_ptr placed (show span.base + first ≤ 1047552 by omega)
  have stops := alloc_pages_stops pages limit balanced.spaces balanced.free small stop (by omega) backing
  obtain ⟨final, held, carried, grown, _⟩ := alloc_pages_balanced _ balanced small (fun page range =>
    inside page (by
      rw [quotient] at range
      unfold InRange at range
      unfold Inside
      omega)) backing
  refine ⟨placed_of_steps placed (set_usage_from_start _ _ _) (set_usage_from_count _ _ _) taken ?_,
    final, held, carried, grown⟩
  refine List.forall_mem_cons.2 ⟨?_, placed.ends⟩
  change span.base + (first + pages) ≤ span.limit
  omega

theorem mem_alloc_placed (placed : Placed span heap live)
    (balanced : Balanced region contributed total machine ledger)
    (inside : ∀ page, Inside span page → region page) (small : flags < 4096)
    (ordered : span.base ≤ span.limit)
    (stop : Present (pageEntry machine.memory machine.cr3 span.limit))
    (completed : memAlloc machine heap pages flags = .ok (ptr, after, next)) :
    Placed span after (⟨pageOffset heap ptr, pages⟩ :: live) ∧
      ∃ final, Balanced region contributed total next final ∧ Served span machine next ledger final := by
  obtain ⟨taken, final, held, carried, grown⟩ :=
    mem_alloc_carried placed balanced inside small ordered stop completed
  exact ⟨taken, final, held, served_of_carried carried fun page member _ => (grown page).2 (.inl member)⟩

theorem mem_free_carried {block : Block} (placed : Placed span heap live) (member : block ∈ live)
    (balanced : Balanced region contributed total machine ledger)
    (inside : ∀ page, Inside span page → region page)
    (completed : memFree machine heap (pagePtr heap block.start) = .ok (after, next)) :
    Placed span after (dropStart live block.start) ∧
      ∃ final, Balanced region contributed total next final ∧
        Carried machine next ledger final (fun _ => False) ∧
        ∀ page ∈ ledger.pages, ¬ Inside span page → page ∈ final.pages := by
  have invariant := placed.invariant
  have near := placed.near
  have limit := placed.limit
  have ends := placed.ends block member
  have delimited := placed_delimited placed member
  have addressable : heap.pageCount ≤ 1048576 := by omega
  have stopEq : block.stop = block.start + block.size := rfl
  obtain ⟨⟨freedCount, freed⟩, released, completed⟩ := Trap.bind_eq_ok.mp completed
  obtain ⟨last, freeing, completed⟩ := Trap.bind_eq_ok.mp completed
  simp only [Trap.pure_ok, Except.ok.injEq, Prod.mk.injEq] at completed
  obtain ⟨rfl, rfl⟩ := completed
  obtain ⟨rfl, start, count, _⟩ := free_count addressable invariant member delimited released
  have cleared := free_invariant addressable invariant member delimited.near released
  obtain ⟨place, quotient⟩ := placed_ptr placed (show span.base + block.start ≤ 1047552 by omega)
  have range : ∀ page, InRange (pagePtr heap block.start / 4096) block.size page → Inside span page := by
    intro page range
    rw [quotient] at range
    unfold InRange at range
    unfold Inside
    omega
  obtain ⟨final, held, carried, left⟩ :=
    free_pages_balanced _ balanced (fun page freed => inside page (range page freed)) freeing
  refine ⟨placed_of_steps placed start count cleared ?_, final, held, carried, ?_⟩
  · exact fun other there => placed.ends other (mem_drop_start.1 there).1
  · exact fun page old outside => (left page).2 ⟨old, fun freed => outside (range page freed)⟩

theorem mem_free_placed {block : Block} (placed : Placed span heap live) (member : block ∈ live)
    (balanced : Balanced region contributed total machine ledger)
    (inside : ∀ page, Inside span page → region page)
    (completed : memFree machine heap (pagePtr heap block.start) = .ok (after, next)) :
    Placed span after (dropStart live block.start) ∧
      ∃ final, Balanced region contributed total next final ∧ Served span machine next ledger final := by
  obtain ⟨left, final, held, carried, kept⟩ := mem_free_carried placed member balanced inside completed
  exact ⟨left, final, held, served_of_carried carried kept⟩

/-- An allocation that keeps its place does not grow over the limit. -/
theorem mem_resize_placed {block : Block} {last : Machine} (placed : Placed span heap live)
    (member : block ∈ live) (balanced : Balanced region contributed total machine ledger)
    (small : flags < 4096) (stop : Present (pageEntry machine.memory machine.cr3 span.limit))
    (completed : memResize machine (pagePtr heap block.start) block.size pages flags = .ok last) :
    span.base + block.start + pages ≤ span.limit := by
  have limit := placed.limit
  have ends := placed.ends block member
  have stopEq : block.stop = block.start + block.size := rfl
  have place := (placed_ptr placed (show span.base + block.start ≤ 1047552 by omega)).1
  unfold memResize at completed
  split_ifs at completed with shrinks
  · omega
  · have vaddr : u32 (pagePtr heap block.start + u32 (block.size * pageSize)) =
        (span.base + block.start + block.size) * 4096 := by
      unfold u32 pageSize
      omega
    rw [vaddr] at completed
    have stops := alloc_pages_stops _ limit balanced.spaces balanced.free small stop (by omega) completed
    omega

theorem mem_realloc_carried {block : Block} {newPtr : Nat} (placed : Placed span heap live)
    (member : block ∈ live) (balanced : Balanced region contributed total machine ledger)
    (inside : ∀ page, Inside span page → region page) (word : pages < 4294967296)
    (ordered : span.base ≤ span.limit)
    (stop : Present (pageEntry machine.memory machine.cr3 span.limit))
    (completed : memRealloc machine heap (pagePtr heap block.start) pages =
      .ok (newPtr, after, next)) :
    Placed span after (⟨pageOffset heap newPtr, pages⟩ :: dropStart live block.start) ∧
      ∃ final, Balanced region contributed total next final ∧
        Carried machine next ledger final (InRange (newPtr / 4096) pages) ∧
        ∀ page ∈ ledger.pages, ¬ Inside span page → page ∈ final.pages := by
  have invariant := placed.invariant
  have near := placed.near
  have limit := placed.limit
  have beyond := placed.beyond
  have ends := placed.ends block member
  have delimited := placed_delimited placed member
  have addressable : heap.pageCount ≤ 1048576 := by omega
  have stopEq : block.stop = block.start + block.size := rfl
  have size := (invariant.coloured.inhabited block member).2
  obtain ⟨_, positive, completed⟩ := Trap.bind_eq_ok.mp completed
  rw [Trap.kernel_assert_eq_ok] at positive
  obtain ⟨⟨oldSize, place, marked⟩, reallocated, completed⟩ := Trap.bind_eq_ok.mp completed
  obtain ⟨entry, _, completed⟩ := Trap.bind_eq_ok.mp completed
  obtain ⟨changed, changing, completed⟩ := Trap.bind_eq_ok.mp completed
  simp only [Trap.pure_ok, Except.ok.injEq, Prod.mk.injEq] at completed
  obtain ⟨rfl, rfl, rfl⟩ := completed
  have small := get_flags_lt entry
  have offset : ∀ index, index < 1048576 → pageOffset heap (pagePtr heap index) = index :=
    fun index bounded => page_offset_ptr invariant.startBound bounded
  obtain ⟨spot, quotient⟩ := placed_ptr placed (show span.base + block.start ≤ 1047552 by omega)
  have old : ∀ page, InRange (pagePtr heap block.start / 4096) block.size page → Inside span page := by
    intro page range
    rw [quotient] at range
    unfold InRange at range
    unfold Inside
    omega
  have others : ∀ other ∈ dropStart live block.start, span.base + other.stop ≤ span.limit :=
    fun other there => placed.ends other (mem_drop_start.1 there).1
  obtain ⟨rfl, start, count, shape, _⟩ := realloc_cases addressable invariant member delimited
    (by omega) word reallocated
  change marked.heapStart = heap.heapStart at start
  change marked.pageCount = heap.pageCount at count
  rcases shape with ⟨rfl, _⟩ | ⟨first, rfl, fits, differ, grows, within, vacant, minimal, _⟩
  · rw [memPlace, if_neg (not_not.mpr rfl)] at changing
    have room := mem_resize_placed placed member balanced small stop changing
    have resized := realloc_invariant addressable invariant member delimited.near (by omega)
      (by omega) reallocated
    change HeapInvariant heap.pageCount ⟨marked, ⟨pageOffset heap (pagePtr heap block.start), pages⟩ ::
      dropStart live block.start⟩ at resized
    rw [offset block.start (by omega)] at resized ⊢
    obtain ⟨final, held, carried, left⟩ := mem_resize_balanced balanced small (by omega) (by omega)
      (fun page range => inside page (old page range))
      (fun page range => inside page (by
        rw [quotient] at range
        unfold InRange at range
        unfold Inside
        omega)) changing
    refine ⟨placed_of_steps placed start count resized (List.forall_mem_cons.2 ⟨?_, others⟩), final,
      held, carried, ?_⟩
    · change span.base + (block.start + pages) ≤ span.limit
      omega
    · intro page there outside
      refine (left page).2 ⟨.inl there, fun freed => outside (old page ?_)⟩
      rw [quotient] at freed ⊢
      unfold InRange at freed ⊢
      omega
  · have moved := realloc_invariant addressable invariant member delimited.near (by omega) within
      reallocated
    change HeapInvariant heap.pageCount ⟨marked, ⟨pageOffset heap (pagePtr heap first), pages⟩ ::
      dropStart live block.start⟩ at moved
    have differs : pagePtr heap first ≠ pagePtr heap block.start := by
      intro same
      have equal := congrArg (pageOffset heap) same
      rw [offset first (by omega), offset block.start (by omega)] at equal
      exact differ equal
    rw [memPlace, if_pos differs] at changing
    change memMove machine (pagePtr heap block.start) (pagePtr heap first) _ _ _ = _ at changing
    rw [offset first (by omega)] at moved ⊢
    have reached := first_fit_within placed fits minimal
    obtain ⟨newSpot, newQuotient⟩ := placed_ptr placed (show span.base + first ≤ 1047552 by omega)
    obtain ⟨backed, backing, _⟩ := Trap.bind_eq_ok.mp changing
    have stops := alloc_pages_stops _ limit balanced.spaces balanced.free small stop (by omega) backing
    obtain ⟨final, held, carried, left⟩ := mem_move_balanced balanced small (by omega) (by omega)
      (by omega) (fun page range => inside page (by
        rw [newQuotient] at range
        unfold InRange at range
        unfold Inside
        omega)) (fun page range => inside page (old page range)) changing
    refine ⟨placed_of_steps placed start count moved (List.forall_mem_cons.2 ⟨?_, others⟩), final,
      held, carried, ?_⟩
    · change span.base + (first + pages) ≤ span.limit
      omega
    · exact fun page there outside =>
        (left page).2 ⟨.inl there, fun freed => outside (old page freed)⟩

theorem mem_realloc_placed {block : Block} {newPtr : Nat} (placed : Placed span heap live)
    (member : block ∈ live) (balanced : Balanced region contributed total machine ledger)
    (inside : ∀ page, Inside span page → region page) (word : pages < 4294967296)
    (ordered : span.base ≤ span.limit)
    (stop : Present (pageEntry machine.memory machine.cr3 span.limit))
    (completed : memRealloc machine heap (pagePtr heap block.start) pages =
      .ok (newPtr, after, next)) :
    Placed span after (⟨pageOffset heap newPtr, pages⟩ :: dropStart live block.start) ∧
      ∃ final, Balanced region contributed total next final ∧ Served span machine next ledger final := by
  obtain ⟨moved, final, held, carried, kept⟩ :=
    mem_realloc_carried placed member balanced inside word ordered stop completed
  exact ⟨moved, final, held, served_of_carried carried kept⟩

end OneHeap

/-- The machine and the allocations that are live on its two heaps. -/
structure OwnerState where
  machine : Machine
  live : WhichHeap → List Block

inductive OwnerCall where
  | alloc (heap : WhichHeap) (pages flags : Nat)
  | realloc (heap : WhichHeap) (ptr pages : Nat)
  | free (heap : WhichHeap) (ptr : Nat)
  | newPageDir

def heapOf (machine : Machine) : WhichHeap → Heap
  | .kernel => machine.kernelHeap
  | .userRo => machine.userRoHeap

def withHeap (machine : Machine) (heap : Heap) : WhichHeap → Machine
  | .kernel => { machine with kernelHeap := heap }
  | .userRo => { machine with userRoHeap := heap }

def ownerStep (state : OwnerState) : OwnerCall → Except Trap (Nat × OwnerState)
  | .alloc which pages flags => do
      let before := heapOf state.machine which
      let (ptr, heap, machine) ← memAlloc state.machine before pages flags
      pure (ptr, ⟨withHeap machine heap which, Function.update state.live which
        (⟨pageOffset before ptr, pages⟩ :: state.live which)⟩)
  | .realloc which ptr pages => do
      let before := heapOf state.machine which
      let (newPtr, heap, machine) ← memRealloc state.machine before ptr pages
      pure (newPtr, ⟨withHeap machine heap which, Function.update state.live which
        (⟨pageOffset before newPtr, pages⟩ :: dropStart (state.live which) (pageOffset before ptr))⟩)
  | .free which ptr => do
      let before := heapOf state.machine which
      let (heap, machine) ← memFree state.machine before ptr
      pure (0, ⟨withHeap machine heap which, Function.update state.live which
        (dropStart (state.live which) (pageOffset before ptr))⟩)
  | .newPageDir => do
      let (frame, machine) ← newPageDir state.machine
      pure (frame, { state with machine := machine })

/-- Pointers are those of live allocations, and flags are flags of a page table entry. -/
def LegalOwner (state : OwnerState) : OwnerCall → Prop
  | .alloc _ _ flags => flags < 4096
  | .realloc which ptr pages =>
      LivePointer ⟨heapOf state.machine which, state.live which⟩ ptr ∧ pages < 4294967296
  | .free which ptr => LivePointer ⟨heapOf state.machine which, state.live which⟩ ptr
  | .newPageDir => True

/-- The pages of a heap behind its usage map, when the kernel's begin at page `first`. -/
def heapSpan (first : Nat) : WhichHeap → Span
  | .kernel => ⟨first, 1046528⟩
  | .userRo => ⟨1046529, 1047552⟩

/-- What a run keeps. The map of the read-only heap, at page 1046528, stays where it is. -/
structure Owners (contributed roots : List Nat) (total base first : Nat) (state : OwnerState) : Prop where
  ledger : ∃ ledger, Balanced (Inside ⟨base, 1047552⟩) contributed total state.machine ledger ∧
    ledger.roots = ledger.directories ++ roots ∧ 1046528 ∈ ledger.pages
  placed : ∀ which, Placed (heapSpan first which) (heapOf state.machine which) (state.live which)
  behind : base ≤ first
  ordered : first ≤ 1046528
  kernelHalf : kernelPdiStart ≤ windowPage state.machine / 1024
  window : windowPage state.machine + 1 = base
  total : state.machine.totalFrames = total

section Steps

variable {contributed roots : List Nat} {total base first : Nat} {state next : OwnerState}
  {machine after : Machine} {ledger final : Ledger}

theorem same_paging_with_heap (machine : Machine) (heap : Heap) (which : WhichHeap) :
    SamePaging machine (withHeap machine heap which) := by
  cases which <;> exact ⟨rfl, rfl, rfl, rfl, rfl, rfl⟩

theorem heap_of_with_heap (machine : Machine) (heap : Heap) (which other : WhichHeap) :
    heapOf (withHeap machine heap which) other = if other = which then heap else heapOf machine other := by
  cases which <;> cases other <;> rfl

theorem heap_span_inside (behind : base ≤ first) (ordered : first ≤ 1046528) (which : WhichHeap) (page : Nat)
    (inside : Inside (heapSpan first which) page) : Inside ⟨base, 1047552⟩ page := by
  cases which with
  | kernel =>
      have within : first ≤ page ∧ page < 1046528 := inside
      change base ≤ page ∧ page < 1047552
      omega
  | userRo =>
      have within : 1046529 ≤ page ∧ page < 1047552 := inside
      change base ≤ page ∧ page < 1047552
      omega

/-- The page at the limit of each heap is mapped: the map of the read-only heap, and the first page
of the page-table window. -/
theorem limit_present (balanced : Balanced (Inside ⟨base, 1047552⟩) contributed total machine ledger)
    (map : 1046528 ∈ ledger.pages) (which : WhichHeap) :
    Present (pageEntry machine.memory machine.cr3 (heapSpan first which).limit) := by
  cases which with
  | kernel => exact page_present balanced map
  | userRo => exact window_page_present balanced.spaces balanced.low

theorem span_ordered (ordered : first ≤ 1046528) (which : WhichHeap) :
    (heapSpan first which).base ≤ (heapSpan first which).limit := by
  cases which with
  | kernel => exact ordered
  | userRo => exact (by decide : 1046529 ≤ 1047552)

/-- A call on one heap that serves its span preserves the accounting. -/
theorem owners_served {which : WhichHeap} {heap : Heap} {blocks : List Block}
    (owners : Owners contributed roots total base first state)
    (isLedger : ledger.roots = ledger.directories ++ roots) (map : 1046528 ∈ ledger.pages)
    (placed : Placed (heapSpan first which) heap blocks)
    (held : Balanced (Inside ⟨base, 1047552⟩) contributed total machine final)
    (served : Served (heapSpan first which) state.machine machine ledger final) :
    Owners contributed roots total base first
      ⟨withHeap machine heap which, Function.update state.live which blocks⟩ := by
  have same := same_paging_with_heap machine heap which
  have ordered := owners.ordered
  have window : windowPage (withHeap machine heap which) = windowPage state.machine := by
    rw [windowPage, same.head]
    exact same_globals_window served.globals
  have heaps : ∀ other, heapOf machine other = heapOf state.machine other := by
    intro other
    rw [served.globals]
    cases other <;> rfl
  refine ⟨⟨final, balanced_same_paging held same (by cases which <;> rfl), ?_, ?_⟩, ?_, owners.behind,
    ordered, window.symm ▸ owners.kernelHalf, window.symm ▸ owners.window, ?_⟩
  · rw [served.roots, served.directories]
    exact isLedger
  · apply served.kept _ map
    cases which with
    | kernel => exact fun inside => absurd inside.2 (lt_irrefl 1046528)
    | userRo => exact fun inside => absurd inside.1 (by decide : ¬ 1046529 ≤ 1046528)
  · intro other
    by_cases isWhich : other = which
    · subst isWhich
      rw [heap_of_with_heap, if_pos rfl]
      simpa only [Function.update_self] using placed
    · rw [heap_of_with_heap, if_neg isWhich, heaps]
      simpa only [Function.update_of_ne isWhich] using owners.placed other
  · have kept : machine.totalFrames = state.machine.totalFrames := by rw [served.globals]
    have moved : (withHeap machine heap which).totalFrames = machine.totalFrames := by
      cases which <;> rfl
    exact (moved.trans kept).trans owners.total

/-- `new_page_dir` leaves the heap as it was, and makes a directory. -/
theorem new_page_dir_placed {frame : Nat} {blocks : List Block}
    (balanced : Balanced (Inside ⟨base, 1047552⟩) contributed total machine ledger)
    (placed : Placed ⟨first, 1046528⟩ machine.kernelHeap blocks) (behind : base ≤ first)
    (ordered : first ≤ 1046528) (kernelHalf : kernelPdiStart ≤ windowPage machine / 1024)
    (made : newPageDir machine = .ok (frame, after)) :
    ∃ ptr heap final, heapAlloc machine.kernelHeap 1 = .ok (ptr, heap) ∧
      Placed ⟨first, 1046528⟩ after.kernelHeap blocks ∧
      Balanced (Inside ⟨base, 1047552⟩) contributed total after final ∧
      Made machine after ledger final frame (· = ptr / 4096) := by
  have near := placed.near
  have beyond : 1046528 < first + machine.kernelHeap.pageCount := placed.beyond
  have taken : ∀ ptr heap, heapAlloc machine.kernelHeap 1 = .ok (ptr, heap) →
      ∃ index, ptr = pagePtr machine.kernelHeap index ∧ index ≤ 1046528 - first ∧
        index < machine.kernelHeap.pageCount ∧ heapGetUsage machine.kernelHeap index = heapPageFree := by
    intro ptr heap allocated
    obtain ⟨index, _, rfl, _, fits, _, _, vacant, _, _, minimal⟩ :=
      heap_alloc_ok (by decide) (by omega) allocated
    exact ⟨index, rfl, first_fit_within placed fits minimal, by omega, vacant index (by omega) (by omega)⟩
  obtain ⟨ptr, marked, freedCount, freed, final, allocated, released, isHeap, held, created⟩ :=
    new_page_dir_ok balanced kernelHalf (fun ptr heap allocated => by
      obtain ⟨index, rfl, within, _⟩ := taken ptr heap allocated
      obtain ⟨place, quotient⟩ := placed_ptr placed (show first + index ≤ 1047552 by omega)
      rw [quotient]
      change _ ∧ base ≤ first + index ∧ first + index < 1047552
      omega) made
  obtain ⟨index, _, _, low, free⟩ := taken ptr marked allocated
  obtain ⟨start, count, kept⟩ := borrow_page (by omega) placed.invariant ⟨index, by omega, low, free⟩
    allocated released
  refine ⟨ptr, marked, final, allocated, ?_, held, created⟩
  rw [isHeap]
  exact placed_of_steps placed start count kept placed.ends

theorem new_page_dir_owners {frame : Nat} (owners : Owners contributed roots total base first state)
    (made : newPageDir state.machine = .ok (frame, machine)) :
    Owners contributed roots total base first { state with machine := machine } := by
  obtain ⟨ledger, balanced, isLedger, map⟩ := owners.ledger
  obtain ⟨ptr, marked, final, _, placed, held, created⟩ :=
    new_page_dir_placed balanced (owners.placed .kernel) owners.behind owners.ordered owners.kernelHalf made
  have globals := created.globals
  have window := same_globals_window globals
  change windowPage machine = windowPage state.machine at window
  refine ⟨⟨final, held, ?_, (created.pages _).2 map⟩, ?_, owners.behind, owners.ordered,
    window.symm ▸ owners.kernelHalf, window.symm ▸ owners.window, ?_⟩
  · rw [created.roots, created.directories, isLedger]
    rfl
  · intro which
    cases which with
    | kernel => exact placed
    | userRo =>
        have same : machine.userRoHeap = state.machine.userRoHeap := by rw [globals]
        change Placed _ machine.userRoHeap _
        rw [same]
        exact owners.placed .userRo
  · have same : machine.totalFrames = state.machine.totalFrames := by rw [globals]
    exact same.trans owners.total

/-- One call that does not panic preserves the accounting. -/
theorem owner_step_owners (owners : Owners contributed roots total base first state)
    {call : OwnerCall} (legal : LegalOwner state call) {observation : Nat}
    (stepped : ownerStep state call = .ok (observation, next)) :
    Owners contributed roots total base first next := by
  obtain ⟨ledger, balanced, isLedger, map⟩ := owners.ledger
  have inside := fun which => heap_span_inside owners.behind owners.ordered which
  cases call with
  | alloc which pages flags =>
      obtain ⟨⟨ptr, heap, machine⟩, allocated, finished⟩ := Trap.bind_eq_ok.mp stepped
      simp only [Trap.pure_ok, Except.ok.injEq, Prod.mk.injEq] at finished
      obtain ⟨rfl, rfl⟩ := finished
      obtain ⟨placed, final, held, served⟩ := mem_alloc_placed (owners.placed which) balanced
        (inside which) legal (span_ordered owners.ordered which) (limit_present balanced map which)
        allocated
      exact owners_served owners isLedger map placed held served
  | realloc which ptr pages =>
      obtain ⟨⟨block, member, rfl⟩, word⟩ := legal
      obtain ⟨⟨newPtr, heap, machine⟩, reallocated, finished⟩ := Trap.bind_eq_ok.mp stepped
      simp only [Trap.pure_ok, Except.ok.injEq, Prod.mk.injEq] at finished
      obtain ⟨rfl, rfl⟩ := finished
      have offset := live_offset (owners.placed which) member
      obtain ⟨placed, final, held, served⟩ := mem_realloc_placed (owners.placed which) member balanced
        (inside which) word (span_ordered owners.ordered which) (limit_present balanced map which)
        reallocated
      rw [offset]
      exact owners_served owners isLedger map placed held served
  | free which ptr =>
      obtain ⟨block, member, rfl⟩ := legal
      obtain ⟨⟨heap, machine⟩, freed, finished⟩ := Trap.bind_eq_ok.mp stepped
      simp only [Trap.pure_ok, Except.ok.injEq, Prod.mk.injEq] at finished
      obtain ⟨rfl, rfl⟩ := finished
      have offset := live_offset (owners.placed which) member
      obtain ⟨placed, final, held, served⟩ :=
        mem_free_placed (owners.placed which) member balanced (inside which) freed
      rw [offset]
      exact owners_served owners isLedger map placed held served
  | newPageDir =>
      obtain ⟨⟨frame, machine⟩, made, finished⟩ := Trap.bind_eq_ok.mp stepped
      simp only [Trap.pure_ok, Except.ok.injEq, Prod.mk.injEq] at finished
      obtain ⟨rfl, rfl⟩ := finished
      exact new_page_dir_owners owners made

end Steps

/-- Where a frame of the kernel may be: at a position of the free list, behind a page of the heaps,
the page table of an index, or a page directory. -/
inductive Place where
  | free (position : Nat)
  | page (page : Nat)
  | table (index : Nat)
  | directory

/-- The frame is at this place. The heaps have the pages from the free list's window to the
page-table window. -/
def At (machine : Machine) (roots free : List Nat) (frame : Nat) : Place → Prop
  | .free position => free[position]? = some frame
  | .page page => windowPage machine < page ∧ page < 1047552 ∧
      Present (pageEntry machine.memory machine.cr3 page) ∧ backingFrame machine page = frame
  | .table index => index < 1023 ∧ ∃ root ∈ roots, Present (directoryEntry machine.memory root index) ∧
      frameOf (directoryEntry machine.memory root index) = frame
  | .directory => frame ∈ roots

/-- Each contributed frame is at exactly one place, every free frame and every frame of the heaps is
a contributed one, and `used_frames` is what the free list leaves of the total. -/
structure OneOwner (machine : Machine) (roots frames contributed : List Nat) : Prop where
  spaces : Spaces machine roots
  linked : FreeList machine roots frames
  place : ∀ frame ∈ contributed, ∃! place, At machine roots frames frame place
  free : ∀ frame ∈ frames, frame ∈ contributed
  pages : ∀ page, windowPage machine < page → page < 1047552 →
    Present (pageEntry machine.memory machine.cr3 page) → backingFrame machine page ∈ contributed
  usage : u32 (machine.usedFrames + frames.length) = machine.totalFrames

section Places

variable {contributed roots : List Nat} {total base : Nat} {machine : Machine} {ledger : Ledger}

theorem isTable_of_at {frames : List Nat} {frame index : Nat}
    (held : At machine roots frames frame (.table index)) : IsTable machine.memory roots frame := by
  obtain ⟨low, root, isRoot, present, same⟩ := held
  exact ⟨root, isRoot, index, low, present, same⟩

/-- Behind a page of the heaps is no frame that is in use otherwise. -/
theorem page_apart (balanced : Balanced (Inside ⟨base, 1047552⟩) contributed total machine ledger)
    (window : windowPage machine + 1 = base) {frame page : Nat}
    (held : At machine ledger.roots ledger.free frame (.page page)) :
    page ∈ ledger.pages ∧ ¬ InUse machine ledger.roots ledger.free frame := by
  obtain ⟨low, high, present, same⟩ := held
  have member := (balanced.exact page (show base ≤ page ∧ page < 1047552 by omega)).1 present
  exact ⟨member, same ▸ balanced.apart page member⟩

/-- No frame is at two places. -/
theorem at_unique (balanced : Balanced (Inside ⟨base, 1047552⟩) contributed total machine ledger)
    (window : windowPage machine + 1 = base) {frame : Nat} {place other : Place}
    (first : At machine ledger.roots ledger.free frame place)
    (second : At machine ledger.roots ledger.free frame other) : place = other := by
  have family := balanced.spaces.family
  have list := balanced.free
  have rootNotTable : frame ∈ ledger.roots → ¬ IsTable machine.memory ledger.roots frame := by
    rintro isRoot ⟨root, member, index, low, present, same⟩
    exact family.apart root member index low present (same ▸ isRoot)
  have notPage : ∀ page, At machine ledger.roots ledger.free frame (.page page) →
      ∀ used, InUse machine ledger.roots ledger.free used → used ≠ frame := by
    intro page held used inUse same
    exact (page_apart balanced window held).2 (same ▸ inUse)
  cases place with
  | free position =>
      have member := List.mem_of_getElem? first
      cases other with
      | free again =>
          have bound := (List.getElem?_eq_some_iff.1 first).1
          exact congrArg Place.free ((List.getElem?_inj bound list.nodup).1 (first.trans second.symm))
      | page page => exact absurd rfl (notPage page second _ (.inr (.inr member)))
      | table index => exact absurd (isTable_of_at second) (list.notTable _ member)
      | directory => exact absurd second (list.notRoot _ member)
  | page page =>
      cases other with
      | free position =>
          exact absurd rfl (notPage page first _ (.inr (.inr (List.mem_of_getElem? second))))
      | page again =>
          have same := first.2.2.2.trans second.2.2.2.symm
          exact congrArg Place.page (balanced.own page (page_apart balanced window first).1 again
            (page_apart balanced window second).1 same)
      | table index => exact absurd rfl (notPage page first _ (.inr (.inl (isTable_of_at second))))
      | directory => exact absurd rfl (notPage page first _ (.inl second))
  | table index =>
      cases other with
      | free position => exact absurd (isTable_of_at first) (list.notTable _ (List.mem_of_getElem? second))
      | page page => exact absurd rfl (notPage page second _ (.inr (.inl (isTable_of_at first))))
      | table again =>
          obtain ⟨low, root, isRoot, present, same⟩ := first
          obtain ⟨small, against, isAgainst, there, equal⟩ := second
          exact congrArg Place.table (family.owner root isRoot against isAgainst index low again small
            present there (same.trans equal.symm))
      | directory => exact absurd (isTable_of_at first) (rootNotTable second)
  | directory =>
      cases other with
      | free position => exact absurd first (list.notRoot _ (List.mem_of_getElem? second))
      | page page => exact absurd rfl (notPage page second _ (.inl first))
      | table index => exact absurd (isTable_of_at second) (rootNotTable first)
      | directory => rfl

/-- A balanced ledger accounts for every contributed frame once. -/
theorem one_owner_of_balanced
    (balanced : Balanced (Inside ⟨base, 1047552⟩) contributed total machine ledger)
    (window : windowPage machine + 1 = base) (same : machine.totalFrames = total) :
    OneOwner machine ledger.roots ledger.free contributed := by
  have account : ∀ frame, frame ∈ contributed ↔ frame ∈ ledger.free ∨
      (∃ page ∈ ledger.pages, backingFrame machine page = frame) ∨ frame ∈ ledger.tables ∨
        frame ∈ ledger.directories := by
    intro frame
    rw [← balanced.accounts.mem_iff, List.mem_append, List.mem_append, List.mem_append, List.mem_map]
  refine ⟨balanced.spaces, balanced.free, ?_, ?_, ?_, same ▸ balanced.usage⟩
  · intro frame member
    have some : ∃ place, At machine ledger.roots ledger.free frame place := by
      rcases (account frame).1 member with free | ⟨page, backed, rfl⟩ | table | directory
      · obtain ⟨position, found⟩ := List.mem_iff_getElem?.1 free
        exact ⟨.free position, found⟩
      · have within : base ≤ page ∧ page < 1047552 := balanced.inside page backed
        exact ⟨.page page, by omega, within.2, page_present balanced backed, rfl⟩
      · obtain ⟨root, isRoot, index, low, present, isFrame⟩ := balanced.tables frame table
        exact ⟨.table index, low, root, isRoot, present, isFrame⟩
      · exact ⟨.directory, balanced.directories frame directory⟩
    obtain ⟨place, held⟩ := some
    exact ⟨place, held, fun other there => at_unique balanced window there held⟩
  · exact fun frame free => (account frame).2 (.inl free)
  · intro page low high present
    have backed := (balanced.exact page (show base ≤ page ∧ page < 1047552 by omega)).1 present
    exact (account _).2 (.inr (.inl ⟨page, backed, rfl⟩))

end Places

section Setup

variable {contributed roots frames tables : List Nat} {total : Nat} {machine start next : Machine}
  {region : Nat → Prop} {ledger : Ledger}

/-- What `init_heap` finds: the free frames, the frames that became page tables since `init_frames`,
and no page mapped where the heaps are going to be. -/
structure FramesReady (machine : Machine) (roots frames tables : List Nat) : Prop where
  spaces : Spaces machine roots
  linked : FreeList machine roots frames
  low : Present (directoryEntry machine.memory machine.cr3 0)
  kernelHalf : kernelPdiStart ≤ windowPage machine / 1024
  tables : ∀ frame ∈ tables, IsTable machine.memory roots frame
  clear : ∀ page, windowPage machine < page → page < 1047552 →
    ¬ Present (pageEntry machine.memory machine.cr3 page)
  usage : u32 (machine.usedFrames + frames.length) = machine.totalFrames

theorem balanced_of_ready (ready : FramesReady machine roots frames tables) :
    Balanced (Inside ⟨windowPage machine + 1, 1047552⟩) (frames ++ tables) machine.totalFrames machine
      ⟨roots, frames, [], tables, []⟩ where
  spaces := ready.spaces
  free := ready.linked
  low := ready.low
  placed page inside := by
    have within : windowPage machine + 1 ≤ page ∧ page < 1047552 := inside
    exact ⟨within.2, by omega⟩
  exact page inside := by
    have within : windowPage machine + 1 ≤ page ∧ page < 1047552 := inside
    exact iff_of_false (ready.clear page (by omega) within.2) List.not_mem_nil
  inside _ member := nomatch member
  nodup := List.nodup_nil
  positive _ member := nomatch member
  apart _ member := nomatch member
  own _ member := nomatch member
  tables := ready.tables
  directories _ member := nomatch member
  accounts := by
    rw [List.map_nil, List.nil_append, List.append_nil]
  usage := ready.usage

/-- `heap_init` backs the pages of the usage map. -/
theorem mem_heap_init_placed {memory : Nat → UInt8} {heapStart pageCount flags first limit : Nat}
    {heap : Heap} (balanced : Balanced region contributed total machine ledger) (small : flags < 4096)
    (place : heapStart = first * 4096) (near : pageCount ≤ 524288) (limitBound : limit ≤ 1047552)
    (within : first + sizeInPages (usageBytes pageCount) ≤ limit)
    (beyond : limit < first + sizeInPages (usageBytes pageCount) + pageCount)
    (inside : ∀ page, InRange first (sizeInPages (usageBytes pageCount)) page → region page)
    (completed : memHeapInit machine memory heapStart pageCount flags = .ok (heap, next)) :
    Placed ⟨first + sizeInPages (usageBytes pageCount), limit⟩ heap [] ∧
      ∃ final, Balanced region contributed total next final ∧ SameGlobals machine next ∧
        final.roots = ledger.roots ∧ final.directories = ledger.directories ∧
        ∀ page, page ∈ final.pages ↔
          page ∈ ledger.pages ∨ InRange first (sizeInPages (usageBytes pageCount)) page := by
  obtain ⟨filled, _⟩ := mem_heap_init_filled balanced.spaces balanced.free small place (by omega) within
    limitBound completed
  obtain ⟨_, _, completed⟩ := Trap.bind_eq_ok.mp completed
  obtain ⟨backed, backing, completed⟩ := Trap.bind_eq_ok.mp completed
  obtain ⟨after, initialized, completed⟩ := Trap.bind_eq_ok.mp completed
  simp only [Trap.pure_ok, Except.ok.injEq, Prod.mk.injEq] at completed
  obtain ⟨rfl, rfl⟩ := completed
  have page : heapStart / 4096 = first := by omega
  obtain ⟨final, held, carried, grown, _⟩ :=
    alloc_pages_balanced _ balanced small (page.symm ▸ inside) backing
  rw [page] at grown
  obtain ⟨count, _⟩ := heap_init_fields initialized
  have start : after.heapStart = (first + sizeInPages (usageBytes pageCount)) * 4096 := filled.start
  refine ⟨⟨start, ⟨rfl, ?_, ?_, ?_⟩, ?_, limitBound, ?_, fun _ member => nomatch member⟩, final, held,
    carried.globals, carried.roots, carried.directories, grown⟩
  · change after.heapStart < 4294967296
    omega
  · change after.heapStart % 4096 = 0
    omega
  · apply coloured_nil
    intro index below
    by_contra used
    exact absurd ((filled.marks index below).1 used) (Nat.not_lt_zero index)
  · omega
  · change limit < first + sizeInPages (usageBytes pageCount) + after.pageCount
    omega

/-- With the kernel in the upper half, its heap has all pages before the read-only heap. -/
theorem kernel_region (ready : FramesReady machine roots frames tables)
    (accepted : heapPageCount (u32 (machine.freeListHead + pageSize)) > userRoPages) :
    Cut machine (windowPage machine + 1) ∧ 786432 ≤ windowPage machine ∧
      (regionOf machine .kernel).pageCount = 1046528 - (windowPage machine + 1) ∧
      windowPage machine + 1 < 1046528 := by
  obtain ⟨base, cut⟩ := cut_of_spaces ready.spaces accepted
  have aligned := ready.spaces.headAligned
  have low := ready.spaces.headLow
  have half := ready.kernelHalf
  have isWindow : windowPage machine = machine.freeListHead / 4096 := rfl
  have place : u32 (machine.freeListHead + pageSize) = (windowPage machine + 1) * 4096 := by
    unfold u32 pageSize
    omega
  have isBase : base = windowPage machine + 1 := by
    have start := cut.kernelStart
    change u32 (machine.freeListHead + pageSize) = _ at start
    omega
  subst isBase
  unfold kernelPdiStart at half
  unfold userRoPages at accepted
  rw [place, heap_page_count_eq (by omega), if_pos (by omega)] at accepted
  have count : (regionOf machine .kernel).pageCount =
      heapPageCount ((windowPage machine + 1) * 4096) - 1024 := by
    rw [regionOf, place]
    rfl
  rw [heap_page_count_eq (by omega), if_pos (by omega)] at count
  exact ⟨cut, by omega, by omega, by omega⟩

/-- The heaps are empty, and no directory was made. -/
structure Opened (machine start : Machine) (contributed roots : List Nat) (first : Nat) (ledger : Ledger) :
    Prop where
  balanced : Balanced (Inside ⟨windowPage machine + 1, 1047552⟩) contributed machine.totalFrames start ledger
  roots : ledger.roots = roots
  directories : ledger.directories = []
  map : 1046528 ∈ ledger.pages
  placed : ∀ which, Placed (heapSpan first which) (heapOf start which) []
  behind : windowPage machine + 1 ≤ first
  ordered : first ≤ 1046528
  globals : SameGlobals { machine with kernelHeap := start.kernelHeap, userRoHeap := start.userRoHeap } start

theorem init_heap_opened {memory userRoMemory : Nat → UInt8}
    (ready : FramesReady machine roots frames tables)
    (initialized : initHeap machine memory userRoMemory = .ok start) :
    ∃ first ledger, Opened machine start (frames ++ tables) roots first ledger := by
  have balanced := balanced_of_ready ready
  obtain ⟨_, accepted, completed⟩ := Trap.bind_eq_ok.mp initialized
  rw [Trap.kernel_assert_eq_ok] at accepted
  obtain ⟨cut, half, count, below⟩ := kernel_region ready accepted
  obtain ⟨⟨kernelHeap, middle⟩, kernelInit, completed⟩ := Trap.bind_eq_ok.mp completed
  obtain ⟨⟨userRoHeap, last⟩, userRoInit, completed⟩ := Trap.bind_eq_ok.mp completed
  simp only [Trap.pure_ok, Except.ok.injEq] at completed
  subst completed
  have map := cut.map
  have mapEq : (regionOf machine .kernel).mapPages =
      sizeInPages (usageBytes (regionOf machine .kernel).pageCount) := rfl
  have mapSize : (regionOf machine .kernel).mapPages =
      u32 (u32 ((regionOf machine .kernel).pageCount + 3) / 4 + 4095) / 4096 := rfl
  have nonempty : 0 < (regionOf machine .kernel).mapPages := by
    rw [mapSize]
    unfold u32
    omega
  obtain ⟨kernelPlaced, between, held, globals, isRoots, isDirectories, _⟩ :=
    mem_heap_init_placed balanced (by decide) cut.kernelStart (by omega) (by decide) map
      (by omega) (fun page range => by
        unfold InRange at range
        change windowPage machine + 1 ≤ page ∧ page < 1047552
        omega) kernelInit
  have userRoMap : sizeInPages (usageBytes userRoPages) = 1 := by decide
  obtain ⟨userRoPlaced, final, kept, again, sameRoots, sameDirectories, grown⟩ :=
    mem_heap_init_placed held (by decide) cut.userRoStart (by decide) (by decide : 1047552 ≤ 1047552)
      (by decide) (by decide) (fun page range => by
        rw [userRoMap] at range
        unfold InRange at range
        change windowPage machine + 1 ≤ page ∧ page < 1047552
        omega) userRoInit
  rw [userRoMap] at userRoPlaced grown
  obtain ⟨finished, isFinished⟩ : ∃ finished : Machine,
      finished = { last with kernelHeap := kernelHeap, userRoHeap := userRoHeap } := ⟨_, rfl⟩
  have same : SamePaging last finished := by
    rw [isFinished]
    exact ⟨rfl, rfl, rfl, rfl, rfl, rfl⟩
  have both := same_globals_trans globals again
  have window : windowPage finished = windowPage machine := by
    rw [windowPage, same.head]
    exact same_globals_window both
  rw [← isFinished]
  have used : finished.usedFrames = last.usedFrames := by rw [isFinished]
  refine ⟨windowPage machine + 1 + (regionOf machine .kernel).mapPages, final,
    balanced_same_paging kept same used, sameRoots.trans isRoots, sameDirectories.trans isDirectories,
    (grown 1046528).2 (.inr ⟨le_refl _, by decide⟩), ?_, ?_, ?_, ?_⟩
  · intro which
    cases which with
    | kernel =>
        have heap : finished.kernelHeap = kernelHeap := by rw [isFinished]
        change Placed _ finished.kernelHeap []
        rw [heap]
        exact kernelPlaced
    | userRo =>
        have heap : finished.userRoHeap = userRoHeap := by rw [isFinished]
        change Placed _ finished.userRoHeap []
        rw [heap]
        exact userRoPlaced
  · omega
  · omega
  · unfold SameGlobals at both ⊢
    rw [isFinished, both]

/-- After `init_heap` the accounting holds, with both heaps empty. -/
theorem init_heap_owners {memory userRoMemory : Nat → UInt8}
    (ready : FramesReady machine roots frames tables)
    (initialized : initHeap machine memory userRoMemory = .ok start) :
    ∃ base first, Owners (frames ++ tables) roots machine.totalFrames base first ⟨start, fun _ => []⟩ := by
  obtain ⟨first, ledger, opened⟩ := init_heap_opened ready initialized
  have window := same_globals_window opened.globals
  change windowPage start = windowPage machine at window
  have total : start.totalFrames = machine.totalFrames := by rw [opened.globals]
  refine ⟨windowPage machine + 1, first, ⟨ledger, opened.balanced, ?_, opened.map⟩, opened.placed,
    opened.behind, opened.ordered, ?_, congrArg (· + 1) window, total⟩
  · rw [opened.roots, opened.directories]
    rfl
  · change kernelPdiStart ≤ windowPage start / 1024
    rw [window]
    exact ready.kernelHalf

end Setup

section Runs

variable {roots frames tables : List Nat} {machine start : Machine} {final : OwnerState}

/-- From the state after `init_frames`, through `init_heap` and every run of `mem_alloc`,
`mem_realloc`, `mem_free` and `new_page_dir`, every contributed frame has exactly one owner. -/
theorem frame_owners {memory userRoMemory : Nat → UInt8} {calls : List OwnerCall}
    {observations : List Nat} (ready : FramesReady machine roots frames tables)
    (initialized : initHeap machine memory userRoMemory = .ok start)
    (legal : Allowed ownerStep LegalOwner ⟨start, fun _ => []⟩ calls)
    (completed : run ownerStep ⟨start, fun _ => []⟩ calls = .ok (observations, final)) :
    ∃ directories left, OneOwner final.machine (directories ++ roots) left (frames ++ tables) := by
  obtain ⟨base, first, owners⟩ := init_heap_owners ready initialized
  have kept := run_preserves (Owners (frames ++ tables) roots machine.totalFrames base first)
    (fun state call observation next owners allowed stepped =>
      owner_step_owners owners allowed stepped)
    calls _ final observations owners legal completed
  obtain ⟨ledger, balanced, isLedger, _⟩ := kept.ledger
  refine ⟨ledger.directories, ledger.free, ?_⟩
  rw [← isLedger]
  exact one_owner_of_balanced balanced kept.window kept.total

end Runs

section Boot

open PagingChecks

def countedMachine : Machine := { bootMachine with totalFrames := 4 }

theorem counted_clear {page : Nat} (low : 0xFF7FD < page) (high : page < 1047552) :
    ¬ Present (pageEntry bootMachine.memory bootMachine.cr3 page) := by
  intro present
  obtain ⟨listed, pair, member, same⟩ :=
    page_stored _ boot_covers (List.mem_singleton_self _) high present
  obtain ⟨table, tables, located⟩ : ∃ table, (table = 0x12000 ∧ page / 1024 = 0x3FD ∨ table = 0x13000) ∧
      slot bootMachine.memory 0x10000 page = table + 4 * (page % 1024) := by
    simp only [List.mem_cons, List.not_mem_nil, or_false] at listed
    rcases listed with zero | below | above
    · omega
    · refine ⟨0x12000, Or.inl ⟨rfl, below⟩, ?_⟩
      rw [slot, below]
      congr 1
    · refine ⟨0x13000, Or.inr rfl, ?_⟩
      rw [slot, above]
      congr 1
  have place := same.trans located
  simp only [List.mem_cons, List.not_mem_nil, or_false] at member
  rcases member with rfl | rfl | rfl | rfl | rfl | rfl | rfl | rfl <;> omega

theorem counted_ready : FramesReady countedMachine [0x10000] bootFrames [] := by
  have same : SamePaging bootMachine countedMachine := ⟨rfl, rfl, rfl, rfl, rfl, rfl⟩
  refine ⟨spaces_same_paging same boot_spaces, free_list_same_paging same boot_free, by decide +kernel,
    by decide, (fun _ member => nomatch member), ?_, by decide⟩
  exact fun page low high => counted_clear low high

def bootOwnerCalls : List OwnerCall :=
  [.alloc .kernel 1 pageWritable, .alloc .userRo 1 pageUserMode, .free .kernel 0xFF7FF000]

/-- One page is taken from each heap, and that of the kernel's heap is given back. -/
theorem frame_owners_boot : ∃ start final,
    initHeap countedMachine (fun _ => 0) (fun _ => 0) = .ok start ∧
      run ownerStep ⟨start, fun _ => []⟩ bootOwnerCalls = .ok ([0xFF7FF000, 0xFF801000, 0], final) ∧
      ∃ directories left, OneOwner final.machine (directories ++ [0x10000]) left (bootFrames ++ []) := by
  obtain ⟨start, initialized, passed⟩ := returns_with_iff.1
    (by decide +kernel : returnsWith (initHeap countedMachine (fun _ => 0) (fun _ => 0)) (fun start =>
      returnsWith (ownerStep ⟨start, fun _ => []⟩ (.alloc .kernel 1 pageWritable)) (fun first =>
        first.1 = 0xFF7FF000 ∧
        returnsWith (ownerStep first.2 (.alloc .userRo 1 pageUserMode)) (fun second =>
          (second.1 = 0xFF801000 ∧ second.2.live .kernel = [⟨0, 1⟩] ∧
            second.2.machine.kernelHeap.heapStart = 0xFF7FF000) ∧
          returnsWith (ownerStep second.2 (.free .kernel 0xFF7FF000))
            (fun third => third.1 = 0)))) = true)
  obtain ⟨⟨ptr, afterFirst⟩, first, passed⟩ := returns_with_iff.1 passed
  obtain ⟨isPtr, passed⟩ := of_decide_eq_true passed
  obtain ⟨⟨other, afterSecond⟩, second, passed⟩ := returns_with_iff.1 passed
  obtain ⟨⟨isOther, live, heapStart⟩, passed⟩ := of_decide_eq_true passed
  obtain ⟨⟨nothing, final⟩, third, passed⟩ := returns_with_iff.1 passed
  have isNothing := of_decide_eq_true passed
  subst isPtr isOther isNothing
  have ended : run ownerStep final [] = .ok ([], final) := rfl
  have completed := run_cons_of_step first (run_cons_of_step second (run_cons_of_step third ended))
  refine ⟨start, final, initialized, completed, frame_owners counted_ready initialized ?_ completed⟩
  refine allowed_cons_of_step (by decide : pageWritable < 4096) first ?_
  refine allowed_cons_of_step (by decide : pageUserMode < 4096) second ?_
  refine allowed_cons_of_step ⟨⟨0, 1⟩, ?_, ?_⟩ third ?_
  · change _ ∈ afterSecond.live .kernel
    rw [live]
    exact List.mem_singleton_self _
  · change 0xFF7FF000 = pagePtr afterSecond.machine.kernelHeap 0
    rw [pagePtr, heapStart]
    decide
  · exact trivial

end Boot

end ParadiseOS.FrameOwners
