import ParadiseOS.HeapRuns
import ParadiseOS.NewDirectory
import ParadiseOS.PagingChecks

/-!
# Heap marks and page tables in lockstep

`debug_heap` checks that a page of a heap is marked as used exactly when it is
mapped. The functions that work on both, `mem_alloc`, `mem_realloc`, `mem_free`
and `new_page_dir`, keep it that way as long as the scan of `heap_free` and
`heap_realloc` finds the allocation it is given.
-/

namespace ParadiseOS.HeapLockstep

open ColouredLine HeapModel HeapRuns HeapUsage MachineWord MemModel StepRun
open FrameLedger FrameSteps NewDirectory PagingModel PagingSteps TwoLevelPaging

set_option autoImplicit false

/-- An address space, a heap in it, and the allocations of the heap that are live. -/
structure MemState where
  machine : Machine
  heap : Heap
  live : List Block

inductive MemCall where
  | alloc (pages flags : Nat)
  | realloc (ptr pages : Nat)
  | free (ptr : Nat)
  | newPageDir
  | elsewhere (memory : Nat → UInt8)

/-- One call on the heap. `new_page_dir` works on `kernel_heap`; other code may write to the bytes
behind the usage map. -/
def memStep (state : MemState) : MemCall → Except Trap (Nat × MemState)
  | .alloc pages flags => do
      let (ptr, heap, machine) ← memAlloc state.machine state.heap pages flags
      pure (ptr, ⟨machine, heap, ⟨pageOffset state.heap ptr, pages⟩ :: state.live⟩)
  | .realloc ptr pages => do
      let (newPtr, heap, machine) ← memRealloc state.machine state.heap ptr pages
      pure (newPtr, ⟨machine, heap, ⟨pageOffset state.heap newPtr, pages⟩ ::
        dropStart state.live (pageOffset state.heap ptr)⟩)
  | .free ptr => do
      let (heap, machine) ← memFree state.machine state.heap ptr
      pure (0, ⟨machine, heap, dropStart state.live (pageOffset state.heap ptr)⟩)
  | .newPageDir => do
      let (frame, machine) ← newPageDir { state.machine with kernelHeap := state.heap }
      pure (frame, ⟨machine, machine.kernelHeap, state.live⟩)
  | .elsewhere memory =>
      .ok (0, { state with heap := { state.heap with
        usageMap := fun i =>
          if i < usageBytes state.heap.pageCount then state.heap.usageMap i else memory i } })

/-- The page of an index of the heap. -/
def heapPage (heap : Heap) (index : Nat) : Nat := heap.heapStart / 4096 + index

def OnHeap (heap : Heap) (page : Nat) : Prop := InRange (heap.heapStart / 4096) heap.pageCount page

/-- A page of the heap is marked as used exactly when it is mapped, and the colours tell the live
allocations apart. -/
structure Lockstep (state : MemState) : Prop where
  marks : ∀ index < state.heap.pageCount, (heapGetUsage state.heap index ≠ heapPageFree ↔
    Present (pageEntry state.machine.memory state.machine.cr3 (heapPage state.heap index)))
  invariant : HeapInvariant state.heap.pageCount ⟨state.heap, state.live⟩
  extents : ∀ block ∈ state.live, block.stop ≤ state.heap.pageCount

/-- The paging structures are sound, the heap lies between the free list's window and the page
tables, and its pages have frames of their own. -/
structure Housed (machine : Machine) (heap : Heap) (roots frames : List Nat) : Prop where
  spaces : Spaces machine roots
  free : FreeList machine roots frames
  low : Present (directoryEntry machine.memory machine.cr3 0)
  kernelHalf : kernelPdiStart ≤ windowPage machine / 1024
  below : heap.heapStart / 4096 + heap.pageCount ≤ 1047552
  window : ¬ OnHeap heap (windowPage machine)
  own : ∀ page, OnHeap heap page → Present (pageEntry machine.memory machine.cr3 page) →
    0 < backingFrame machine page ∧ ¬ InUse machine roots frames (backingFrame machine page)
  distinct : ∀ page, OnHeap heap page → Present (pageEntry machine.memory machine.cr3 page) →
    ∀ other, OnHeap heap other → Present (pageEntry machine.memory machine.cr3 other) →
    backingFrame machine page = backingFrame machine other → page = other

section Ledgers

variable {machine : Machine} {heap : Heap} {roots frames : List Nat} {ledger : Ledger}
  {contributed : List Nat} {total : Nat}

/-- The pages of a heap that are mapped. -/
def mappedPages (machine : Machine) (heap : Heap) : List Nat :=
  (List.range' (heap.heapStart / 4096) heap.pageCount).filter fun page =>
    decide (Present (pageEntry machine.memory machine.cr3 page))

theorem mem_mapped_pages (page : Nat) : page ∈ mappedPages machine heap ↔
    OnHeap heap page ∧ Present (pageEntry machine.memory machine.cr3 page) := by
  rw [mappedPages, List.mem_filter, decide_eq_true_iff, List.mem_range'_1]
  exact Iff.rfl

/-- A ledger for the pages of a heap. -/
theorem balanced_of_housed (housed : Housed machine heap roots frames) :
    ∃ ledger contributed total, Balanced (OnHeap heap) contributed total machine ledger ∧
      ledger.roots = roots ∧ ledger.free = frames := by
  have below := housed.below
  refine ⟨⟨roots, frames, mappedPages machine heap, [], []⟩, _, _,
    ⟨housed.spaces, housed.free, housed.low, ?_, ?_, ?_, ?_, ?_, ?_, ?_, ?_, ?_, List.Perm.refl _, rfl⟩,
    rfl, rfl⟩
  · intro page within
    refine ⟨?_, fun same => housed.window (same ▸ within)⟩
    unfold OnHeap InRange at within
    omega
  · intro page within
    rw [mem_mapped_pages]
    exact ⟨fun present => ⟨within, present⟩, fun both => both.2⟩
  · intro page member
    exact ((mem_mapped_pages page).1 member).1
  · exact (List.nodup_range' 1).filter _
  · intro page member
    obtain ⟨within, present⟩ := (mem_mapped_pages page).1 member
    exact (housed.own page within present).1
  · intro page member
    obtain ⟨within, present⟩ := (mem_mapped_pages page).1 member
    exact (housed.own page within present).2
  · intro page member other second same
    obtain ⟨within, present⟩ := (mem_mapped_pages page).1 member
    obtain ⟨otherWithin, otherPresent⟩ := (mem_mapped_pages other).1 second
    exact housed.distinct page within present other otherWithin otherPresent same
  · intro frame member
    cases member
  · intro frame member
    cases member

theorem housed_of_balanced (balanced : Balanced (OnHeap heap) contributed total machine ledger)
    (kernelHalf : kernelPdiStart ≤ windowPage machine / 1024)
    (below : heap.heapStart / 4096 + heap.pageCount ≤ 1047552) :
    Housed machine heap ledger.roots ledger.free := by
  refine ⟨balanced.spaces, balanced.free, balanced.low, kernelHalf, below, ?_, ?_, ?_⟩
  · exact fun within => (balanced.placed _ within).2 rfl
  · intro page within present
    have member := (balanced.exact page within).1 present
    exact ⟨balanced.positive page member, balanced.apart page member⟩
  · intro page within present other otherWithin otherPresent same
    exact balanced.own page ((balanced.exact page within).1 present) other
      ((balanced.exact other otherWithin).1 otherPresent) same

end Ledgers

section Scans

variable {state : HeapState} {pageCount : Nat} {block : Block}

/-- The scan from the block's first page ends with the block. -/
structure Delimited (pageCount : Nat) (state : HeapState) (block : Block) : Prop where
  near : Near block
  ends : block.stop ≤ pageCount
  colour : block.stop = pageCount →
    heapGetUsage state.heap pageCount ≠ heapGetUsage state.heap block.start

variable (addressable : pageCount ≤ 1048576) (invariant : HeapInvariant pageCount state)
  (member : block ∈ state.live) (delimited : Delimited pageCount state block)

include addressable invariant member delimited

theorem run_exact : colorRunEnd state.heap (heapGetUsage state.heap block.start)
    (indexLimit - block.start) block.start = .ok block.stop := by
  have ends := delimited.ends
  have stopEq : block.stop = block.start + block.size := rfl
  apply color_run_end_of_run (by omega) (by unfold indexLimit; omega)
  · by_cases last : block.stop = pageCount
    · rw [last]
      exact delimited.colour last
    · exact invariant.coloured.run_end member (by omega)
  · intro index low high
    exact invariant.coloured.uniform block member index (by omega) ⟨low, high⟩

/-- `heap_free` counts the pages of the block. -/
theorem free_count {freedCount : Nat} {freed : Heap}
    (completed : heapFree state.heap (pagePtr state.heap block.start) = .ok (freedCount, freed)) :
    freedCount = block.size ∧ freed.heapStart = state.heap.heapStart ∧
      freed.pageCount = state.heap.pageCount ∧
      ∀ index, ¬ block.Covers index → heapGetUsage freed index = heapGetUsage state.heap index := by
  have stopEq : block.stop = block.start + block.size := rfl
  rw [heap_free_eq addressable invariant member delimited.near,
    run_exact addressable invariant member delimited] at completed
  simp only [Except.map, Except.ok.injEq, Prod.mk.injEq] at completed
  obtain ⟨count, rfl⟩ := completed
  refine ⟨by omega, set_usage_from_start _ _ _, set_usage_from_count _ _ _, ?_⟩
  intro index outside
  have ends := delimited.ends
  unfold Block.Covers at outside
  rw [get_usage_set_from _ _ _ _ (by decide) (by omega), if_neg (by omega)]

omit addressable invariant member delimited in
/-- Growing in place, recoloured or not. -/
theorem grow_in_place {heap grown : Heap} {start stop pages color ptr oldSize newPtr : Nat}
    (positive : 0 < pages) (fits : start + pages < 4294967296) (inside : start < heap.pageCount)
    (within : start ≤ stop) (grows : stop < start + pages) (small : color < 4)
    (countBound : heap.pageCount < 4294967296)
    (completed : (if heapGetUsage heap (start + pages) = color then do
        let marked ← heapMarkUsed heap start pages
        pure (stop - start, ptr, marked)
      else pure (stop - start, ptr, setUsageFrom heap color stop (start + pages - stop))) =
        (.ok (oldSize, newPtr, grown) : Except Trap (Nat × Nat × Heap))) :
    oldSize = stop - start ∧ newPtr = ptr ∧ grown.heapStart = heap.heapStart ∧
      grown.pageCount = heap.pageCount ∧
      ∀ index, ¬ (start ≤ index ∧ index < start + pages) →
        heapGetUsage grown index = heapGetUsage heap index := by
  split_ifs at completed with recolor
  · obtain ⟨color, marks, _, colorBound, _⟩ :=
      heap_mark_used_ok heap start pages positive inside fits countBound
    simp only [marks, Trap.ok_bind, Trap.pure_ok, Except.ok.injEq, Prod.mk.injEq] at completed
    obtain ⟨rfl, rfl, rfl⟩ := completed
    refine ⟨rfl, rfl, set_usage_from_start _ _ _, set_usage_from_count _ _ _, ?_⟩
    intro index outside
    rw [get_usage_set_from _ _ _ _ colorBound fits, if_neg outside]
  · simp only [Trap.pure_ok, Except.ok.injEq, Prod.mk.injEq] at completed
    obtain ⟨rfl, rfl, rfl⟩ := completed
    refine ⟨rfl, rfl, set_usage_from_start _ _ _, set_usage_from_count _ _ _, ?_⟩
    intro index outside
    rw [get_usage_set_from _ _ _ _ small (by omega), if_neg (by omega)]

/-- How `heap_realloc` answers: the block keeps its place, or it moves to where there was room. -/
theorem realloc_cases {pages oldSize newPtr : Nat} {heap : Heap} (positive : 0 < pages)
    (word : pages < 4294967296)
    (completed : heapRealloc state.heap (pagePtr state.heap block.start) pages =
      .ok (oldSize, newPtr, heap)) :
    oldSize = block.size ∧ heap.heapStart = state.heap.heapStart ∧
      heap.pageCount = state.heap.pageCount ∧
      (newPtr = pagePtr state.heap block.start ∧
          (pages ≤ block.size ∨ 4294967296 ≤ block.start + pages ∨
            heapIsSpaceFree state.heap block.stop (block.start + pages - block.stop) = true) ∨
        ∃ first, newPtr = pagePtr state.heap first ∧ first + pages ≤ pageCount ∧
          first ≠ block.start ∧ block.size < pages ∧ block.start + pages < 4294967296 ∧
          (∀ index, first ≤ index → index < first + pages →
            heapGetUsage state.heap index = heapPageFree) ∧
          (∀ earlier < first, ∃ index, earlier ≤ index ∧ index < earlier + pages ∧
            heapGetUsage state.heap index ≠ heapPageFree) ∧
          heapIsSpaceFree state.heap block.stop (block.start + pages - block.stop) ≠ true) ∧
      (block.start + pages < 4294967296 → ∀ index, ¬ block.Covers index →
        ¬ (Block.mk (pageOffset state.heap newPtr) pages).Covers index →
        heapGetUsage heap index = heapGetUsage state.heap index) := by
  have inside := block_start_lt invariant member
  have count := invariant.count
  have stopEq : block.stop = block.start + block.size := rfl
  have startUsed := invariant.coloured.start_used member
  have pageAt := page_index_ptr invariant.startBound delimited.near
  have offset := page_offset_ptr invariant.startBound (show block.start < 1048576 by omega)
  have fuel : indexLimit - (block.start + 1) + 1 = indexLimit - block.start := by
    unfold indexLimit
    omega
  simp only [heapRealloc, pageAt, page_ptr_aligned invariant.startAligned,
    Trap.kernel_assert_of, startUsed, Trap.ok_bind, ne_eq, not_false_eq_true] at completed
  rw [color_run_end_succ, fuel, run_exact addressable invariant member delimited,
    Trap.ok_bind] at completed
  by_cases shrinking : u32 (block.start + pages) ≤ block.stop
  · rw [if_pos shrinking] at completed
    simp only [Trap.pure_ok, Except.ok.injEq, Prod.mk.injEq] at completed
    obtain ⟨rfl, rfl, rfl⟩ := completed
    refine ⟨by omega, set_usage_from_start _ _ _, set_usage_from_count _ _ _, .inl ⟨rfl, ?_⟩, ?_⟩
    · by_cases wraps : 4294967296 ≤ block.start + pages
      · exact .inr (.inl wraps)
      · rw [u32_of_lt (by omega)] at shrinking
        exact .inl (by omega)
    · intro fits index outside apart
      have ends := delimited.ends
      rw [offset] at apart
      rw [u32_of_lt fits] at shrinking ⊢
      unfold Block.Covers Block.stop at outside apart
      dsimp only at apart
      rw [get_usage_set_from _ _ _ _ (by decide) (by omega), if_neg (by omega)]
  · rw [if_neg shrinking] at completed
    have within : block.start + pages < 4294967296 := by
      unfold u32 at shrinking
      omega
    rw [u32_of_lt within] at shrinking completed
    by_cases space : heapIsSpaceFree state.heap block.stop (block.start + pages - block.stop) = true
    · rw [if_pos space] at completed
      obtain ⟨size, rfl, start, total, marks⟩ :=
        grow_in_place positive within (by omega) (by omega) (by omega) (get_usage_lt _) (by omega) completed
      refine ⟨by omega, start, total, .inl ⟨rfl, .inr (.inr space)⟩, ?_⟩
      intro _ index _ apart
      rw [offset] at apart
      exact marks index apart
    · rw [if_neg space] at completed
      obtain ⟨⟨movedPtr, moved⟩, allocated, completed⟩ := Trap.bind_eq_ok.mp completed
      obtain ⟨⟨freedCount, freed⟩, released, completed⟩ := Trap.bind_eq_ok.mp completed
      simp only [Trap.pure_ok, Except.ok.injEq, Prod.mk.injEq] at completed
      obtain ⟨rfl, rfl, rfl⟩ := completed
      have placed := alloc_invariant addressable invariant positive allocated
      obtain ⟨first, color, rfl, rfl, fits, _, small, vacant, _, _, minimal⟩ :=
        heap_alloc_ok positive (by omega) allocated
      have apart : first ≠ block.start := by
        intro same
        exact startUsed (vacant block.start (by omega) (by omega))
      have samePtr : pagePtr (setUsageFrom state.heap color first pages) block.start =
          pagePtr state.heap block.start := by
        simp only [pagePtr, set_usage_from_start]
      rw [← samePtr] at released
      have colour : block.stop = pageCount →
          heapGetUsage (setUsageFrom state.heap color first pages) pageCount ≠
            heapGetUsage (setUsageFrom state.heap color first pages) block.start := by
        intro last
        have outside : ¬ (first ≤ block.start ∧ block.start < first + pages) :=
          fun covers => startUsed (vacant block.start covers.1 covers.2)
        rw [get_usage_set_from _ _ _ _ small (by omega), if_neg (by omega),
          get_usage_set_from _ _ _ _ small (by omega), if_neg outside]
        exact delimited.colour last
      obtain ⟨size, start, total, marks⟩ := free_count addressable placed (List.mem_cons_of_mem _ member)
        ⟨delimited.near, delimited.ends, colour⟩ released
      refine ⟨size, start.trans (set_usage_from_start _ _ _), total.trans (set_usage_from_count _ _ _),
        .inr ⟨first, rfl, by omega, apart, by omega, within, vacant, minimal, space⟩, ?_⟩
      intro _ index outside away
      rw [page_offset_ptr invariant.startBound (by omega)] at away
      rw [marks index outside]
      change heapGetUsage (setUsageFrom state.heap color first pages) index = _
      rw [get_usage_set_from _ _ _ _ small (by omega)]
      exact if_neg away

end Scans

section Tracking

variable {heap next : Heap} {machine : Machine} {live : List Block} {ledger : Ledger}
  {contributed : List Nat} {total : Nat}

theorem page_ptr_eq (aligned : heap.heapStart % 4096 = 0) {index : Nat}
    (bounded : heap.heapStart / 4096 + index < 1048576) :
    pagePtr heap index = heapPage heap index * 4096 := by
  unfold pagePtr heapPage u32
  omega

theorem on_heap_page {index : Nat} (below : index < heap.pageCount) : OnHeap heap (heapPage heap index) := by
  unfold OnHeap InRange heapPage
  omega

/-- The backed pages are those of the live allocations. -/
def Tracks (heap : Heap) (live : List Block) (ledger : Ledger) : Prop :=
  ∀ index < heap.pageCount, (heapPage heap index ∈ ledger.pages ↔ ∃ block ∈ live, block.Covers index)

theorem tracks_of_lockstep (lockstep : Lockstep ⟨machine, heap, live⟩)
    (balanced : Balanced (OnHeap heap) contributed total machine ledger) : Tracks heap live ledger := by
  intro index below
  rw [← balanced.exact _ (on_heap_page below), ← lockstep.marks index below]
  exact lockstep.invariant.coloured.used_iff index below

theorem lockstep_of_tracks (invariant : HeapInvariant heap.pageCount ⟨heap, live⟩)
    (extents : ∀ block ∈ live, block.stop ≤ heap.pageCount)
    (balanced : Balanced (OnHeap heap) contributed total machine ledger)
    (tracks : Tracks heap live ledger) : Lockstep ⟨machine, heap, live⟩ := by
  refine ⟨?_, invariant, extents⟩
  intro index below
  change heapGetUsage heap index ≠ _ ↔ Present (pageEntry _ _ (heapPage heap index))
  rw [balanced.exact _ (on_heap_page below), tracks index below]
  exact invariant.coloured.used_iff index below

/-- Only the place and the size of a heap say which pages are its own. -/
theorem on_heap_congr (start : next.heapStart = heap.heapStart) (count : next.pageCount = heap.pageCount) :
    OnHeap next = OnHeap heap := by
  funext page
  rw [OnHeap, OnHeap, start, count]

theorem covers_drop (invariant : HeapInvariant heap.pageCount ⟨heap, live⟩) {block : Block}
    (member : block ∈ live) {index : Nat} (below : index < heap.pageCount) :
    (∃ other ∈ dropStart live block.start, other.Covers index) ↔
      (∃ other ∈ live, other.Covers index) ∧ ¬ block.Covers index := by
  constructor
  · rintro ⟨other, there, covers⟩
    obtain ⟨old, differ⟩ := mem_drop_start.1 there
    refine ⟨⟨other, old, covers⟩, fun shared => differ ?_⟩
    rw [invariant.coloured.eq_of_covers old member below covers shared]
  · rintro ⟨⟨other, old, covers⟩, apart⟩
    refine ⟨other, mem_drop_start.2 ⟨old, fun same => apart ?_⟩, covers⟩
    rw [← invariant.coloured.eq_of_start old member same]
    exact covers

end Tracking

/-- What is kept from call to call. -/
structure Kept (state : MemState) : Prop where
  lockstep : Lockstep state
  housed : ∃ roots frames, Housed state.machine state.heap roots frames

section Calls

variable {machine next : Machine} {heap after : Heap} {live : List Block}

theorem kept_of_steps {ledger final : Ledger} {contributed : List Nat} {total : Nat}
    {later : List Block}
    (housed : Housed machine heap ledger.roots ledger.free)
    (start : after.heapStart = heap.heapStart) (count : after.pageCount = heap.pageCount)
    (balanced : Balanced (OnHeap heap) contributed total next final)
    (window : windowPage next = windowPage machine)
    (invariant : HeapInvariant heap.pageCount ⟨after, later⟩)
    (extents : ∀ block ∈ later, block.stop ≤ heap.pageCount) (tracks : Tracks heap later final) :
    Kept ⟨next, after, later⟩ := by
  have same := on_heap_congr start count
  have held : Balanced (OnHeap after) contributed total next final := same.symm ▸ balanced
  have pages : ∀ index, heapPage after index = heapPage heap index := by
    intro index
    rw [heapPage, heapPage, start]
  refine ⟨lockstep_of_tracks (count.symm ▸ invariant) (count.symm ▸ extents) held ?_, _, _,
    housed_of_balanced held ?_ ?_⟩
  · intro index below
    rw [pages]
    exact tracks index (count ▸ below)
  · rw [window]
    exact housed.kernelHalf
  · rw [start, count]
    exact housed.below

theorem mem_alloc_kept {pages flags ptr : Nat} (kept : Kept ⟨machine, heap, live⟩)
    (small : flags < 4096) (completed : memAlloc machine heap pages flags = .ok (ptr, after, next)) :
    Kept ⟨next, after, ⟨pageOffset heap ptr, pages⟩ :: live⟩ := by
  obtain ⟨lockstep, roots, frames, sound⟩ := kept
  have housed : Housed machine heap roots frames := sound
  obtain ⟨ledger, contributed, total, balanced, rfl, rfl⟩ := balanced_of_housed housed
  have tracks := tracks_of_lockstep lockstep balanced
  have invariant : HeapInvariant heap.pageCount ⟨heap, live⟩ := lockstep.invariant
  have below : heap.heapStart / 4096 + heap.pageCount ≤ 1047552 := housed.below
  have aligned : heap.heapStart % 4096 = 0 := invariant.startAligned
  obtain ⟨_, positive, completed⟩ := Trap.bind_eq_ok.mp completed
  rw [Trap.kernel_assert_eq_ok] at positive
  obtain ⟨⟨vaddr, marked⟩, allocated, completed⟩ := Trap.bind_eq_ok.mp completed
  obtain ⟨backed, backing, completed⟩ := Trap.bind_eq_ok.mp completed
  simp only [Trap.pure_ok, Except.ok.injEq, Prod.mk.injEq] at completed
  obtain ⟨rfl, rfl, rfl⟩ := completed
  have placed := alloc_invariant (show heap.pageCount ≤ 1048576 by omega) invariant (by omega) allocated
  obtain ⟨first, color, rfl, rfl, fits, _⟩ := heap_alloc_ok (by omega) (by omega) allocated
  have offset : pageOffset heap (pagePtr heap first) = first :=
    page_offset_ptr invariant.startBound (by omega)
  have place : pagePtr heap first = heapPage heap first * 4096 :=
    page_ptr_eq aligned (by omega)
  have quotient : pagePtr heap first / 4096 = heapPage heap first := by omega
  change HeapInvariant heap.pageCount ⟨_, ⟨pageOffset heap (pagePtr heap first), pages⟩ :: live⟩ at placed
  rw [offset] at placed ⊢
  obtain ⟨final, held, carried, grown, _⟩ := alloc_pages_balanced _ balanced small (fun page range => by
    rw [quotient] at range
    unfold heapPage InRange at range
    unfold OnHeap InRange
    omega) backing
  refine kept_of_steps housed (set_usage_from_start _ _ _) (set_usage_from_count _ _ _) held
    (same_globals_window carried.globals) placed ?_ ?_
  · exact List.forall_mem_cons.2 ⟨fits, lockstep.extents⟩
  · intro index inside
    have range : InRange (heapPage heap first) pages (heapPage heap index) ↔
        (Block.mk first pages).Covers index := by
      unfold InRange heapPage Block.Covers Block.stop
      dsimp only
      omega
    rw [grown, quotient, range, tracks index inside, List.exists_mem_cons_iff, or_comm]

theorem mem_free_kept {block : Block} (kept : Kept ⟨machine, heap, live⟩) (member : block ∈ live)
    (delimited : Delimited heap.pageCount ⟨heap, live⟩ block)
    (completed : memFree machine heap (pagePtr heap block.start) = .ok (after, next)) :
    Kept ⟨next, after, dropStart live block.start⟩ := by
  obtain ⟨lockstep, roots, frames, sound⟩ := kept
  have housed : Housed machine heap roots frames := sound
  obtain ⟨ledger, contributed, total, balanced, rfl, rfl⟩ := balanced_of_housed housed
  have tracks := tracks_of_lockstep lockstep balanced
  have invariant : HeapInvariant heap.pageCount ⟨heap, live⟩ := lockstep.invariant
  have below : heap.heapStart / 4096 + heap.pageCount ≤ 1047552 := housed.below
  have aligned : heap.heapStart % 4096 = 0 := invariant.startAligned
  have addressable : heap.pageCount ≤ 1048576 := by omega
  have inside := block_start_lt invariant member
  have ends : block.stop ≤ heap.pageCount := delimited.ends
  have stopEq : block.stop = block.start + block.size := rfl
  obtain ⟨⟨freedCount, freed⟩, released, completed⟩ := Trap.bind_eq_ok.mp completed
  obtain ⟨final, freeing, completed⟩ := Trap.bind_eq_ok.mp completed
  simp only [Trap.pure_ok, Except.ok.injEq, Prod.mk.injEq] at completed
  obtain ⟨rfl, rfl⟩ := completed
  obtain ⟨rfl, start, count, _⟩ := free_count addressable invariant member delimited released
  have cleared := free_invariant addressable invariant member delimited.near released
  have place : pagePtr heap block.start = heapPage heap block.start * 4096 :=
    page_ptr_eq aligned (by omega)
  have quotient : pagePtr heap block.start / 4096 = heapPage heap block.start := by omega
  obtain ⟨left, held, carried, pages⟩ := free_pages_balanced _ balanced (fun page range => by
    rw [quotient] at range
    unfold heapPage InRange at range
    unfold OnHeap InRange
    omega) freeing
  refine kept_of_steps housed start count held (same_globals_window carried.globals) cleared ?_ ?_
  · exact fun other there => lockstep.extents other (mem_drop_start.1 there).1
  · intro index small
    have range : InRange (heapPage heap block.start) block.size (heapPage heap index) ↔
        block.Covers index := by
      unfold InRange heapPage Block.Covers Block.stop
      omega
    rw [pages, quotient, range, tracks index small, covers_drop invariant member small]

/-- The scan of the call finds its allocation, and the allocation does not grow out of the heap. -/
def GrowsInside (heap : Heap) (block : Block) (pages : Nat) : Prop :=
  block.start + pages ≤ heap.pageCount ∨ 4294967296 ≤ block.start + pages ∨
    heapIsSpaceFree heap block.stop (block.start + pages - block.stop) = false

theorem covers_resized (invariant : HeapInvariant heap.pageCount ⟨heap, live⟩) {block : Block}
    (member : block ∈ live) {index pages : Nat} (below : index < heap.pageCount) :
    (∃ other ∈ Block.mk block.start pages :: dropStart live block.start, other.Covers index) ↔
      (block.start ≤ index ∧ index < block.start + pages) ∨
        ((∃ other ∈ live, other.Covers index) ∧ ¬ block.Covers index) := by
  rw [List.exists_mem_cons_iff, covers_drop invariant member below]
  exact Iff.rfl

theorem mem_resize_kept {block : Block} {pages flags : Nat} (kept : Kept ⟨machine, heap, live⟩)
    (member : block ∈ live) (delimited : Delimited heap.pageCount ⟨heap, live⟩ block)
    (small : flags < 4096) (inside : block.start + pages ≤ heap.pageCount)
    (start : after.heapStart = heap.heapStart) (count : after.pageCount = heap.pageCount)
    (resized : HeapInvariant heap.pageCount
      ⟨after, ⟨block.start, pages⟩ :: dropStart live block.start⟩)
    (completed : memResize machine (pagePtr heap block.start) block.size pages flags = .ok next) :
    Kept ⟨next, after, ⟨block.start, pages⟩ :: dropStart live block.start⟩ := by
  obtain ⟨lockstep, roots, frames, sound⟩ := kept
  have housed : Housed machine heap roots frames := sound
  obtain ⟨ledger, contributed, total, balanced, rfl, rfl⟩ := balanced_of_housed housed
  have tracks := tracks_of_lockstep lockstep balanced
  have invariant : HeapInvariant heap.pageCount ⟨heap, live⟩ := lockstep.invariant
  have below : heap.heapStart / 4096 + heap.pageCount ≤ 1047552 := housed.below
  have aligned : heap.heapStart % 4096 = 0 := invariant.startAligned
  have ends : block.stop ≤ heap.pageCount := delimited.ends
  have stopEq : block.stop = block.start + block.size := rfl
  have place : pagePtr heap block.start = heapPage heap block.start * 4096 :=
    page_ptr_eq aligned (by omega)
  have quotient : pagePtr heap block.start / 4096 = heapPage heap block.start := by omega
  have page : heapPage heap block.start = heap.heapStart / 4096 + block.start := rfl
  have range : ∀ size, block.start + size ≤ heap.pageCount →
      ∀ page, InRange (pagePtr heap block.start / 4096) size page → OnHeap heap page := by
    intro size fits page range
    rw [quotient] at range
    unfold heapPage InRange at range
    unfold OnHeap InRange
    omega
  obtain ⟨final, held, carried, pagesOf⟩ := mem_resize_balanced balanced small (by omega) (by omega)
    (range block.size (by omega)) (range pages inside) completed
  refine kept_of_steps housed start count held (same_globals_window carried.globals) resized ?_ ?_
  · exact List.forall_mem_cons.2 ⟨inside, fun other there =>
      lockstep.extents other (mem_drop_start.1 there).1⟩
  · intro index small
    have own : block.Covers index → ∃ other ∈ live, other.Covers index :=
      fun covers => ⟨block, member, covers⟩
    rw [covers_resized invariant member small, pagesOf, tracks index small, quotient]
    have first : InRange (heapPage heap block.start + block.size) (pages - block.size)
        (heapPage heap index) ↔ block.stop ≤ index ∧ index < block.start + pages := by
      unfold InRange heapPage
      omega
    have second : InRange (heapPage heap block.start + pages) (block.size - pages)
        (heapPage heap index) ↔ block.start + pages ≤ index ∧ index < block.stop := by
      unfold InRange heapPage
      omega
    rw [first, second]
    have covers : block.Covers index ↔ block.start ≤ index ∧ index < block.stop := Iff.rfl
    rw [covers] at own ⊢
    by_cases held : ∃ other ∈ live, other.Covers index
    · simp only [held, true_or, true_and]
      omega
    · have outside : ¬ (block.start ≤ index ∧ index < block.stop) := fun covers => held (own covers)
      simp only [held, false_or, false_and, or_false]
      omega

theorem mem_move_kept {block : Block} {pages flags first : Nat} (kept : Kept ⟨machine, heap, live⟩)
    (member : block ∈ live) (delimited : Delimited heap.pageCount ⟨heap, live⟩ block)
    (small : flags < 4096) (fits : first + pages ≤ heap.pageCount) (grows : block.size ≤ pages)
    (vacant : ∀ index, first ≤ index → index < first + pages → heapGetUsage heap index = heapPageFree)
    (start : after.heapStart = heap.heapStart) (count : after.pageCount = heap.pageCount)
    (moved : HeapInvariant heap.pageCount ⟨after, ⟨first, pages⟩ :: dropStart live block.start⟩)
    (completed : memMove machine (pagePtr heap block.start) (pagePtr heap first) block.size pages flags =
      .ok next) :
    Kept ⟨next, after, ⟨first, pages⟩ :: dropStart live block.start⟩ := by
  obtain ⟨lockstep, roots, frames, sound⟩ := kept
  have housed : Housed machine heap roots frames := sound
  obtain ⟨ledger, contributed, total, balanced, rfl, rfl⟩ := balanced_of_housed housed
  have tracks := tracks_of_lockstep lockstep balanced
  have invariant : HeapInvariant heap.pageCount ⟨heap, live⟩ := lockstep.invariant
  have below : heap.heapStart / 4096 + heap.pageCount ≤ 1047552 := housed.below
  have aligned : heap.heapStart % 4096 = 0 := invariant.startAligned
  have ends : block.stop ≤ heap.pageCount := delimited.ends
  have stopEq : block.stop = block.start + block.size := rfl
  have place : ∀ index, index ≤ heap.pageCount →
      pagePtr heap index = heapPage heap index * 4096 ∧ pagePtr heap index / 4096 = heapPage heap index := by
    intro index bounded
    have place : pagePtr heap index = heapPage heap index * 4096 := page_ptr_eq aligned (by omega)
    exact ⟨place, by omega⟩
  obtain ⟨oldPlace, oldPage⟩ := place block.start (by omega)
  obtain ⟨newPlace, newPage⟩ := place first (by omega)
  have range : ∀ index size, index + size ≤ heap.pageCount →
      ∀ page, InRange (heapPage heap index) size page → OnHeap heap page := by
    intro index size fits page range
    unfold heapPage InRange at range
    unfold OnHeap InRange
    omega
  have firstPage : heapPage heap first = heap.heapStart / 4096 + first := rfl
  obtain ⟨final, held, carried, pagesOf⟩ := mem_move_balanced balanced small (by omega) grows (by omega)
    (newPage.symm ▸ range first pages fits) (oldPage.symm ▸ range block.start block.size (by omega))
    completed
  refine kept_of_steps housed start count held (same_globals_window carried.globals) moved ?_ ?_
  · exact List.forall_mem_cons.2 ⟨fits, fun other there =>
      lockstep.extents other (mem_drop_start.1 there).1⟩
  · intro index small
    rw [List.exists_mem_cons_iff, covers_drop invariant member small, pagesOf, tracks index small,
      newPage, oldPage]
    have new : InRange (heapPage heap first) pages (heapPage heap index) ↔
        (Block.mk first pages).Covers index := by
      unfold InRange heapPage Block.Covers Block.stop
      dsimp only
      omega
    have old : InRange (heapPage heap block.start) block.size (heapPage heap index) ↔
        block.Covers index := by
      unfold InRange heapPage Block.Covers Block.stop
      omega
    have apart : (Block.mk first pages).Covers index → ¬ block.Covers index := by
      intro covers shared
      exact invariant.coloured.used member small shared (vacant index covers.1 covers.2)
    rw [new, old]
    constructor
    · rintro ⟨held | covers, outside⟩
      · exact .inr ⟨held, outside⟩
      · exact .inl covers
    · rintro (covers | ⟨held, outside⟩)
      · exact ⟨.inr covers, apart covers⟩
      · exact ⟨.inl held, outside⟩

theorem resize_grows {block : Block} {pages : Nat} (flags : Nat) (aligned : heap.heapStart % 4096 = 0)
    (below : heap.heapStart / 4096 + heap.pageCount ≤ 1047552) (ends : block.stop ≤ heap.pageCount)
    (grows : block.size < pages) :
    memResize machine (pagePtr heap block.start) block.size pages flags =
      allocPages machine ((heapPage heap block.start + block.size) * 4096) flags (pages - block.size) := by
  have stopEq : block.stop = block.start + block.size := rfl
  have page : heapPage heap block.start = heap.heapStart / 4096 + block.start := rfl
  have spot : pagePtr heap block.start = heapPage heap block.start * 4096 :=
    page_ptr_eq aligned (by omega)
  have vaddr : u32 (pagePtr heap block.start + u32 (block.size * pageSize)) =
      (heapPage heap block.start + block.size) * 4096 := by
    unfold u32 pageSize
    omega
  rw [memResize, if_neg (by omega), vaddr]

/-- No more pages are mapped than there are before the page tables. -/
theorem resize_below {roots frames : List Nat} {block : Block} {pages flags : Nat}
    (housed : Housed machine heap roots frames) (aligned : heap.heapStart % 4096 = 0)
    (ends : block.stop ≤ heap.pageCount) (small : flags < 4096) (grows : block.size < pages)
    (completed : memResize machine (pagePtr heap block.start) block.size pages flags = .ok next) :
    heapPage heap block.start + pages ≤ 1047552 := by
  have below := housed.below
  have stopEq : block.stop = block.start + block.size := rfl
  have page : heapPage heap block.start = heap.heapStart / 4096 + block.start := rfl
  rw [resize_grows flags aligned below ends grows] at completed
  have stops := alloc_pages_stops _ (by decide) housed.spaces housed.free small
    (window_page_present housed.spaces housed.low) (by omega) completed
  omega

theorem mem_realloc_kept {block : Block} {pages newPtr : Nat} (kept : Kept ⟨machine, heap, live⟩)
    (member : block ∈ live) (delimited : Delimited heap.pageCount ⟨heap, live⟩ block)
    (word : pages < 4294967296) (inside : GrowsInside heap block pages)
    (completed : memRealloc machine heap (pagePtr heap block.start) pages =
      .ok (newPtr, after, next)) :
    Kept ⟨next, after, ⟨pageOffset heap newPtr, pages⟩ :: dropStart live block.start⟩ := by
  have invariant : HeapInvariant heap.pageCount ⟨heap, live⟩ := kept.lockstep.invariant
  obtain ⟨roots, frames, sound⟩ := kept.housed
  have housed : Housed machine heap roots frames := sound
  have below : heap.heapStart / 4096 + heap.pageCount ≤ 1047552 := housed.below
  have aligned : heap.heapStart % 4096 = 0 := invariant.startAligned
  have addressable : heap.pageCount ≤ 1048576 := by omega
  have ends : block.stop ≤ heap.pageCount := delimited.ends
  have stopEq : block.stop = block.start + block.size := rfl
  have size := (invariant.coloured.inhabited block member).2
  obtain ⟨_, positive, completed⟩ := Trap.bind_eq_ok.mp completed
  rw [Trap.kernel_assert_eq_ok] at positive
  obtain ⟨⟨oldSize, place, marked⟩, reallocated, completed⟩ := Trap.bind_eq_ok.mp completed
  obtain ⟨entry, _, completed⟩ := Trap.bind_eq_ok.mp completed
  obtain ⟨changed, changing, completed⟩ := Trap.bind_eq_ok.mp completed
  simp only [Trap.pure_ok, Except.ok.injEq, Prod.mk.injEq] at completed
  obtain ⟨rfl, rfl, rfl⟩ := completed
  have small := get_flags_lt entry
  have offset : ∀ index, index < 1048576 → pageOffset heap (pagePtr heap index) = index :=
    fun index bounded => page_offset_ptr invariant.startBound bounded
  obtain ⟨rfl, start, count, shape, _⟩ := realloc_cases addressable invariant member delimited
    (by omega) word reallocated
  change marked.heapStart = heap.heapStart at start
  change marked.pageCount = heap.pageCount at count
  rcases shape with ⟨rfl, why⟩ | ⟨first, rfl, fits, differ, grows, within, vacant, _⟩
  · rw [memPlace, if_neg (not_not.mpr rfl)] at changing
    rw [offset block.start (by omega)]
    by_cases wraps : 4294967296 ≤ block.start + pages
    · have page : heapPage heap block.start = heap.heapStart / 4096 + block.start := rfl
      have stops := resize_below housed aligned ends small (by omega) changing
      omega
    · have room : block.start + pages ≤ heap.pageCount := by
        rcases inside with room | far | full
        · exact room
        · exact absurd far wraps
        · rcases why with shrinks | far | free
          · omega
          · exact absurd far wraps
          · rw [full] at free
            cases free
      have resized := realloc_invariant addressable invariant member delimited.near (by omega)
        (by omega) reallocated
      change HeapInvariant heap.pageCount ⟨marked, ⟨pageOffset heap (pagePtr heap block.start), pages⟩ ::
        dropStart live block.start⟩ at resized
      rw [offset block.start (by omega)] at resized
      exact mem_resize_kept kept member delimited small room start count resized changing
  · have moved := realloc_invariant addressable invariant member delimited.near (by omega) within
      reallocated
    change HeapInvariant heap.pageCount ⟨marked, ⟨pageOffset heap (pagePtr heap first), pages⟩ ::
      dropStart live block.start⟩ at moved
    have differs : pagePtr heap first ≠ pagePtr heap block.start := by
      intro same
      have equal := congrArg (pageOffset heap) same
      rw [offset first (by omega), offset block.start (by omega)] at equal
      exact differ equal
    rw [memPlace, if_pos differs] at changing
    rw [offset first (by omega)] at moved ⊢
    exact mem_move_kept kept member delimited small fits (by omega) vacant start count moved changing

/-- Taking the first free page of a heap and giving it back. -/
theorem borrow_page {ptr freedCount : Nat} {marked freed : Heap} (addressable : heap.pageCount ≤ 1048576)
    (invariant : HeapInvariant heap.pageCount ⟨heap, live⟩)
    (near : ∃ index < 524288, index < heap.pageCount ∧ heapGetUsage heap index = heapPageFree)
    (allocated : heapAlloc heap 1 = .ok (ptr, marked))
    (released : heapFree marked ptr = .ok (freedCount, freed)) :
    freed.heapStart = heap.heapStart ∧ freed.pageCount = heap.pageCount ∧
      HeapInvariant heap.pageCount ⟨freed, live⟩ := by
  have placed := alloc_invariant addressable invariant (by decide) allocated
  obtain ⟨first, color, rfl, rfl, fits, used, small, vacant, _, _, minimal⟩ :=
    heap_alloc_ok (by decide) (by omega) allocated
  have offset : pageOffset heap (pagePtr heap first) = first :=
    page_offset_ptr invariant.startBound (by omega)
  change HeapInvariant heap.pageCount ⟨_, ⟨pageOffset heap (pagePtr heap first), 1⟩ :: live⟩ at placed
  rw [offset] at placed
  have isNear : Near ⟨first, 1⟩ := by
    obtain ⟨index, low, inHeap, free⟩ := near
    change first < 524288
    by_contra far
    obtain ⟨other, above, under, taken⟩ := minimal index (by omega)
    exact taken (by rw [show other = index by omega]; exact free)
  have samePtr : pagePtr heap first = pagePtr (setUsageFrom heap color first 1) first := by
    simp only [pagePtr, set_usage_from_start]
  rw [samePtr] at released
  obtain ⟨count, start, _⟩ := heap_free_effect addressable placed List.mem_cons_self isNear released
  have cleared := free_invariant addressable placed List.mem_cons_self isNear released
  have fresh : ∀ block ∈ live, block.start ≠ first := by
    intro block member equal
    exact invariant.coloured.start_used member (vacant block.start (by omega) (by omega))
  have dropped : dropStart (⟨first, 1⟩ :: live) first = live := by
    rw [dropStart, List.filter_cons_of_neg (by simp), List.filter_eq_self]
    intro block member
    exact decide_eq_true (fresh block member)
  change HeapInvariant heap.pageCount ⟨freed, dropStart (⟨first, 1⟩ :: live) first⟩ at cleared
  rw [dropped] at cleared
  change freed.pageCount = (setUsageFrom heap color first 1).pageCount at count
  change freed.heapStart = (setUsageFrom heap color first 1).heapStart at start
  rw [set_usage_from_count] at count
  rw [set_usage_from_start] at start
  exact ⟨start, count, cleared⟩

/-- `new_page_dir` leaves the marks and the pages of its heap as they were. -/
theorem new_page_dir_kept {frame : Nat} (kept : Kept ⟨machine, heap, live⟩)
    (near : ∃ index < 524288, index < heap.pageCount ∧ heapGetUsage heap index = heapPageFree)
    (completed : newPageDir { machine with kernelHeap := heap } = .ok (frame, next)) :
    Kept ⟨next, next.kernelHeap, live⟩ := by
  obtain ⟨lockstep, roots, frames, sound⟩ := kept
  have housed : Housed machine heap roots frames := sound
  obtain ⟨ledger, contributed, total, balanced, rfl, rfl⟩ := balanced_of_housed housed
  have tracks := tracks_of_lockstep lockstep balanced
  have invariant : HeapInvariant heap.pageCount ⟨heap, live⟩ := lockstep.invariant
  have below : heap.heapStart / 4096 + heap.pageCount ≤ 1047552 := housed.below
  have aligned : heap.heapStart % 4096 = 0 := invariant.startAligned
  have addressable : heap.pageCount ≤ 1048576 := by omega
  have same : SamePaging machine { machine with kernelHeap := heap } := ⟨rfl, rfl, rfl, rfl, rfl, rfl⟩
  have ready := balanced_same_paging balanced same rfl
  obtain ⟨ptr, marked, freedCount, freed, final, allocated, released, isHeap, held, made⟩ :=
    new_page_dir_ok ready housed.kernelHalf (fun ptr marked allocated => by
      change heapAlloc heap 1 = _ at allocated
      obtain ⟨first, _, rfl, _, fits, _⟩ := heap_alloc_ok (by decide) (by omega) allocated
      have place : pagePtr heap first = heapPage heap first * 4096 := page_ptr_eq aligned (by omega)
      change pagePtr heap first % 4096 = 0 ∧ OnHeap heap (pagePtr heap first / 4096)
      have quotient : pagePtr heap first / 4096 = heapPage heap first := by omega
      rw [quotient]
      exact ⟨by omega, on_heap_page (by omega)⟩) completed
  obtain ⟨start, count, cleared⟩ := borrow_page addressable invariant near allocated released
  rw [isHeap]
  have window := same_globals_window made.globals
  change windowPage next = windowPage machine at window
  refine kept_of_steps housed start count held window cleared lockstep.extents ?_
  intro index inside
  rw [made.pages]
  exact tracks index inside

theorem elsewhere_kept (kept : Kept ⟨machine, heap, live⟩) (memory : Nat → UInt8) :
    Kept ⟨machine, { heap with
      usageMap := fun i => if i < usageBytes heap.pageCount then heap.usageMap i else memory i }, live⟩ := by
  obtain ⟨lockstep, roots, frames, sound⟩ := kept
  have housed : Housed machine heap roots frames := sound
  obtain ⟨ledger, contributed, total, balanced, rfl, rfl⟩ := balanced_of_housed housed
  have below : heap.heapStart / 4096 + heap.pageCount ≤ 1047552 := housed.below
  have later := heap_step_invariant (show heap.pageCount ≤ 1048576 by omega) lockstep.invariant
    (.elsewhere memory) trivial trivial rfl
  refine kept_of_steps housed ?_ ?_ balanced rfl later lockstep.extents
    (tracks_of_lockstep lockstep balanced)
  · rfl
  · rfl

end Calls

section Runs

variable {state final : MemState}

/-- The arguments are words, and a pointer is that of a live allocation. -/
def LegalMem (state : MemState) : MemCall → Prop
  | .alloc pages flags => pages < 4294967296 ∧ flags < 4096
  | .realloc ptr pages => LivePointer ⟨state.heap, state.live⟩ ptr ∧ pages < 4294967296
  | .free ptr => LivePointer ⟨state.heap, state.live⟩ ptr
  | .newPageDir => True
  | .elsewhere _ => True

/-- The allocation is found again from its pointer and told from what lies behind it. -/
def Found (state : MemState) (block : Block) : Prop :=
  Near block ∧ (block.stop = state.heap.pageCount →
    heapGetUsage state.heap state.heap.pageCount ≠ heapGetUsage state.heap block.start)

/-- What the call needs to keep to its allocation. -/
def FindsItsPages (state : MemState) : MemCall → Prop
  | .realloc ptr pages => ∀ block ∈ state.live, ptr = pagePtr state.heap block.start →
      Found state block ∧ GrowsInside state.heap block pages
  | .free ptr => ∀ block ∈ state.live, ptr = pagePtr state.heap block.start → Found state block
  | .newPageDir => ∃ index < 524288, index < state.heap.pageCount ∧
      heapGetUsage state.heap index = heapPageFree
  | _ => True

/-- One call that does not panic keeps marks and page tables in lockstep. -/
theorem mem_step_kept (kept : Kept state) {call : MemCall} (legal : LegalMem state call)
    (finds : FindsItsPages state call) {observation : Nat} {next : MemState}
    (completed : memStep state call = .ok (observation, next)) : Kept next := by
  obtain ⟨machine, heap, live⟩ := state
  have invariant : HeapInvariant heap.pageCount ⟨heap, live⟩ := kept.lockstep.invariant
  obtain ⟨roots, frames, sound⟩ := kept.housed
  have housed : Housed machine heap roots frames := sound
  have below : heap.heapStart / 4096 + heap.pageCount ≤ 1047552 := housed.below
  have offset : ∀ block ∈ live, pageOffset heap (pagePtr heap block.start) = block.start := by
    intro block member
    have inside := block_start_lt invariant member
    exact page_offset_ptr invariant.startBound (by omega)
  cases call with
  | alloc pages flags =>
      obtain ⟨⟨ptr, after, changed⟩, allocated, finished⟩ := Trap.bind_eq_ok.mp completed
      simp only [Trap.pure_ok, Except.ok.injEq, Prod.mk.injEq] at finished
      obtain ⟨_, rfl⟩ := finished
      exact mem_alloc_kept kept legal.2 allocated
  | realloc ptr pages =>
      obtain ⟨⟨block, member, rfl⟩, word⟩ := legal
      obtain ⟨⟨near, colour⟩, inside⟩ := finds block member rfl
      obtain ⟨⟨newPtr, after, changed⟩, reallocated, finished⟩ := Trap.bind_eq_ok.mp completed
      simp only [Trap.pure_ok, Except.ok.injEq, Prod.mk.injEq] at finished
      obtain ⟨_, rfl⟩ := finished
      change Kept ⟨_, _, _ :: dropStart live (pageOffset heap (pagePtr heap block.start))⟩
      rw [offset block member]
      exact mem_realloc_kept kept member ⟨near, kept.lockstep.extents block member, colour⟩ word inside
        reallocated
  | free ptr =>
      obtain ⟨block, member, rfl⟩ := legal
      obtain ⟨near, colour⟩ := finds block member rfl
      obtain ⟨⟨after, changed⟩, released, finished⟩ := Trap.bind_eq_ok.mp completed
      simp only [Trap.pure_ok, Except.ok.injEq, Prod.mk.injEq] at finished
      obtain ⟨_, rfl⟩ := finished
      change Kept ⟨_, _, dropStart live (pageOffset heap (pagePtr heap block.start))⟩
      rw [offset block member]
      exact mem_free_kept kept member ⟨near, kept.lockstep.extents block member, colour⟩ released
  | newPageDir =>
      obtain ⟨⟨frame, changed⟩, made, finished⟩ := Trap.bind_eq_ok.mp completed
      simp only [Trap.pure_ok, Except.ok.injEq, Prod.mk.injEq] at finished
      obtain ⟨_, rfl⟩ := finished
      exact new_page_dir_kept kept finds made
  | elsewhere memory =>
      simp only [memStep, Except.ok.injEq, Prod.mk.injEq] at completed
      obtain ⟨_, rfl⟩ := completed
      exact elsewhere_kept kept memory

/-- In every run whose calls find their allocations, the marks of the heap stay in lockstep with
the page tables. -/
theorem lockstep_runs (calls : List MemCall) {observations : List Nat} {roots frames : List Nat}
    (lockstep : Lockstep state) (housed : Housed state.machine state.heap roots frames)
    (legal : Allowed memStep LegalMem state calls)
    (finds : Allowed memStep FindsItsPages state calls)
    (completed : run memStep state calls = .ok (observations, final)) : Lockstep final := by
  have both : Allowed memStep (fun state call => LegalMem state call ∧ FindsItsPages state call) state
      calls := allowed_and legal finds
  have kept := run_preserves Kept
    (fun state call observation next kept allowed stepped =>
      mem_step_kept kept allowed.1 allowed.2 stepped)
    calls state final observations ⟨lockstep, roots, frames, housed⟩ both completed
  exact kept.lockstep

end Runs

section Samples

open PagingChecks

/-- A heap with nothing allocated and nothing mapped. -/
theorem lockstep_empty {machine : Machine} {heap : Heap} (startBound : heap.heapStart < 4294967296)
    (aligned : heap.heapStart % 4096 = 0)
    (free : ∀ index < heap.pageCount, heapGetUsage heap index = heapPageFree)
    (absent : ∀ index < heap.pageCount,
      ¬ Present (pageEntry machine.memory machine.cr3 (heapPage heap index))) :
    Lockstep ⟨machine, heap, []⟩ where
  marks index below := iff_of_false (not_not.mpr (free index below)) (absent index below)
  invariant := ⟨rfl, startBound, aligned, coloured_nil free⟩
  extents _ member := nomatch member

theorem sample_housed : Housed sampleMachine sampleHeap sampleRoots sampleFrames := by
  have absent : ∀ index < 16, ¬ Present (pageEntry sampleMachine.memory sampleMachine.cr3
      (heapPage sampleHeap index)) := by decide +kernel
  have none : ∀ page, OnHeap sampleHeap page →
      ¬ Present (pageEntry sampleMachine.memory sampleMachine.cr3 page) := by
    intro page within
    have low : 786434 ≤ page := within.1
    have high : page < 786434 + 16 := within.2
    have seen := absent (page - 786434) (by omega)
    have same : heapPage sampleHeap (page - 786434) = page := by
      change 786434 + (page - 786434) = page
      omega
    rwa [same] at seen
  refine ⟨sample_spaces, sample_free, by decide +kernel, by decide, by decide, ?_, ?_, ?_⟩
  · exact fun within => absurd within.1 (by decide)
  · exact fun page within present => absurd present (none page within)
  · exact fun page within present => absurd present (none page within)

theorem lockstep_runs_sample : ∃ observations final,
    run memStep ⟨sampleMachine, sampleHeap, []⟩ [.alloc 1 pageWritable, .free 0xC0002000] =
      .ok (observations, final) ∧ Lockstep final := by
  obtain ⟨⟨ptr, middle⟩, first, passed⟩ := returns_with_iff.1
    (by decide +kernel : returnsWith
      (memStep ⟨sampleMachine, sampleHeap, []⟩ (.alloc 1 pageWritable))
      (fun result => (result.2.live = [⟨0, 1⟩] ∧ result.2.heap.heapStart = 0xC0002000 ∧
        result.2.heap.pageCount = 16) ∧
        returnsWith (memStep result.2 (.free 0xC0002000)) (fun _ => true)) = true)
  obtain ⟨⟨live, start, count⟩, passed⟩ := of_decide_eq_true passed
  obtain ⟨⟨observation, final⟩, second, _⟩ := returns_with_iff.1 passed
  have ended : run memStep final [] = .ok ([], final) := rfl
  have completed := run_cons_of_step first (run_cons_of_step second ended)
  have only : ∀ block ∈ middle.live, block = ⟨0, 1⟩ := by
    intro block member
    rw [live] at member
    exact List.mem_singleton.1 member
  refine ⟨_, final, completed, lockstep_runs [.alloc 1 pageWritable, .free 0xC0002000]
    (lockstep_empty (by decide) (by decide) (by decide) (by decide +kernel)) sample_housed ?_ ?_
    completed⟩
  · refine allowed_cons_of_step ⟨by decide, by decide⟩ first ⟨⟨⟨0, 1⟩, ?_, ?_⟩, fun _ _ _ => trivial⟩
    · rw [live]
      exact List.mem_singleton_self _
    · change 0xC0002000 = pagePtr middle.heap 0
      rw [pagePtr, start]
      decide
  · refine allowed_cons_of_step trivial first ⟨?_, fun _ _ _ => trivial⟩
    intro block member _
    rw [only block member]
    refine ⟨(show 0 < 524288 by decide), ?_⟩
    rw [count]
    intro last
    cases last

/-- A heap that spans more than half of the address space, with two pages in use, the last one and
the one that lies where the mark of the last page is taken to be. That page holds the byte `0x40`. -/
def farHeap : Heap where
  usageMap i :=
    if i = 131072 then 0x40 else if i = 65519 then 0x01 else if i = 1073610752 then 0x40 else 0
  heapStart := 0x101000
  pageCount := 524289

def farWords : List (Nat × Nat) :=
  [(0x10000, 0x1D003), (0x10400, 0x1B003), (0x10800, 0x14003), (0x10C00, 0x12003),
    (0x10FFC, 0x10003), (0x12004, 0x16003), (0x1B300, 0x1A003), (0x14404, 0x19003),
    (0x16000, 0x17000)]

def farMachine : Machine := { sampleMachine with memory := imageOf farWords }

def farState : MemState := ⟨farMachine, farHeap, [⟨524288, 1⟩, ⟨262079, 1⟩]⟩

theorem far_covers : Covers farMachine.memory [0x10000] [0, 0x100, 0x200, 0x300] :=
  covers_of_words _ (by decide) (by decide)

theorem far_free {index : Nat} (below : index < 524289) (last : index ≠ 524288)
    (other : index ≠ 262079) : heapGetUsage farHeap index = heapPageFree := by
  by_cases near : index / 4 = 65519
  · have cases : index = 262076 ∨ index = 262077 ∨ index = 262078 := by omega
    rcases cases with rfl | rfl | rfl <;> decide
  · apply zero_byte_usage
    change (if index / 4 = 131072 then (0x40 : UInt8) else if index / 4 = 65519 then 0x01 else
      if index / 4 = 1073610752 then 0x40 else 0) = 0
    rw [if_neg (by omega), if_neg near, if_neg (by omega)]

/-- Of the pages of the heap, only those two are mapped. -/
theorem far_present {index : Nat} (below : index < 524289) :
    Present (pageEntry farMachine.memory farMachine.cr3 (heapPage farHeap index)) ↔
      index = 524288 ∨ index = 262079 := by
  constructor
  · intro present
    have page : heapPage farHeap index = 257 + index := rfl
    rw [page] at present
    obtain ⟨listed, pair, member, same⟩ :=
      page_stored _ far_covers (List.mem_singleton_self _) (by omega) present
    obtain ⟨table, tables, located⟩ : ∃ table, (table = 0x1D000 ∧ 257 + index < 1024 ∨
        table = 0x1B000 ∧ (257 + index) / 1024 = 256 ∨ table = 0x14000 ∧ 524288 ≤ 257 + index) ∧
        slot farMachine.memory 0x10000 (257 + index) = table + 4 * ((257 + index) % 1024) := by
      simp only [List.mem_cons, List.not_mem_nil, or_false] at listed
      rcases listed with zero | quarter | half | kernel
      · refine ⟨0x1D000, Or.inl ⟨rfl, by omega⟩, ?_⟩
        rw [slot, zero]
        congr 1
      · refine ⟨0x1B000, Or.inr (Or.inl ⟨rfl, quarter⟩), ?_⟩
        rw [slot, quarter]
        congr 1
      · refine ⟨0x14000, Or.inr (Or.inr ⟨rfl, by omega⟩), ?_⟩
        rw [slot, half]
        congr 1
      · omega
    have place := same.trans located
    simp only [farWords, List.mem_cons, List.not_mem_nil, or_false] at member
    rcases member with rfl | rfl | rfl | rfl | rfl | rfl | rfl | rfl | rfl <;> omega
  · rintro (rfl | rfl) <;> decide +kernel

theorem far_used {index : Nat} (below : index < 524289) :
    heapGetUsage farHeap index ≠ heapPageFree ↔ index = 524288 ∨ index = 262079 := by
  constructor
  · intro used
    by_contra neither
    obtain ⟨last, other⟩ := not_or.1 neither
    exact used (far_free below last other)
  · rintro (rfl | rfl) <;> decide

theorem one_covers {start cell : Nat} : (Block.mk start 1).Covers cell ↔ cell = start := by
  change start ≤ cell ∧ cell < start + 1 ↔ cell = start
  omega

theorem far_coloured :
    Coloured heapPageFree 524289 (heapGetUsage farHeap) [⟨524288, 1⟩, ⟨262079, 1⟩] where
  inhabited := by decide
  apart := by
    refine List.pairwise_pair.2 ?_
    rintro cell _ ⟨last, other⟩
    rw [one_covers] at last other
    omega
  used_iff cell below := by
    simp only [far_used below, List.exists_mem_cons_iff, one_covers, List.not_mem_nil, false_and,
      exists_false, or_false]
  uniform block member cell below covers := by
    simp only [List.mem_cons, List.not_mem_nil, or_false] at member
    rcases member with rfl | rfl <;> rw [one_covers.1 covers]
  separated := by decide

theorem far_lockstep : Lockstep farState where
  marks index below := by
    have bound : index < 524289 := below
    exact (far_used bound).trans (far_present bound).symm
  invariant := ⟨rfl, by decide, by decide, far_coloured⟩
  extents := by decide

theorem far_housed : Housed farMachine farHeap [0x10000] sampleFrames := by
  have mapped : ∀ page, OnHeap farHeap page →
      Present (pageEntry farMachine.memory farMachine.cr3 page) → page = 524545 ∨ page = 262336 := by
    intro page within present
    have low : 257 ≤ page := within.1
    have high : page < 257 + 524289 := within.2
    have same : heapPage farHeap (page - 257) = page := by
      change 257 + (page - 257) = page
      omega
    rw [← same] at present
    rcases (far_present (by omega)).1 present with last | other
    · exact Or.inl (by omega)
    · exact Or.inr (by omega)
  refine ⟨⟨family_of_checks _ far_covers (by decide +kernel) (by decide +kernel), rfl, by decide,
    by decide, by decide, by decide, by decide +kernel⟩, free_list_of_checks _ far_covers
    (by decide +kernel)
    ⟨rfl, by decide +kernel, (by decide +kernel : readWord farMachine.memory 0x17000 = 0)⟩
    (by decide) (by decide +kernel), by decide +kernel, by decide, by decide, ?_, ?_, ?_⟩
  · exact fun within => absurd within.2 (by decide)
  · intro page within present
    have free : ∀ frame, frame = 0x19000 ∨ frame = 0x1A000 →
        ¬ InUse farMachine [0x10000] sampleFrames frame := by
      intro frame which
      rintro (root | ⟨root, second, index, low, there, same⟩ | member)
      · rcases which with rfl | rfl <;> exact absurd root (by decide)
      · have root := List.mem_singleton.1 second
        have listed := far_covers _ second index low there
        rw [root] at same
        simp only [List.mem_cons, List.not_mem_nil, or_false] at listed
        rcases listed with rfl | rfl | rfl | rfl <;> rcases which with rfl | rfl <;>
          exact absurd same (by decide +kernel)
      · rcases which with rfl | rfl <;> exact absurd member (by decide)
    rcases mapped page within present with rfl | rfl
    · exact ⟨by decide +kernel, free _ (Or.inl (by decide +kernel))⟩
    · exact ⟨by decide +kernel, free _ (Or.inr (by decide +kernel))⟩
  · intro page within present other beside there same
    rcases mapped page within present with rfl | rfl <;>
      rcases mapped other beside there with rfl | rfl
    · rfl
    · exact absurd same (by decide +kernel)
    · exact absurd same (by decide +kernel)
    · rfl

/-- The scan for the allocation at `0x80101000` starts at a page index of its own, and the page is
unmapped without its mark being cleared. -/
theorem lockstep_runs_far_block : Lockstep farState ∧
    Housed farState.machine farState.heap [0x10000] sampleFrames ∧
    LegalMem farState (.free 0x80101000) ∧
    ∃ observation next, memStep farState (.free 0x80101000) = .ok (observation, next) ∧
      ¬ Lockstep next := by
  obtain ⟨⟨observation, next⟩, freed, passed⟩ := returns_with_iff.1
    (by decide +kernel : returnsWith (memStep farState (.free 0x80101000)) (fun result =>
      heapGetUsage result.2.heap 524288 ≠ heapPageFree ∧ 524288 < result.2.heap.pageCount ∧
      ¬ Present (pageEntry result.2.machine.memory result.2.machine.cr3
        (heapPage result.2.heap 524288))) = true)
  obtain ⟨used, below, absent⟩ := of_decide_eq_true passed
  refine ⟨far_lockstep, far_housed, ⟨⟨524288, 1⟩, List.mem_cons_self, by decide⟩, observation, next,
    freed, ?_⟩
  intro lockstep
  exact absent ((lockstep.marks 524288 below).1 used)

end Samples

end ParadiseOS.HeapLockstep
