import ParadiseOS.FrameSteps
import ParadiseOS.HeapRuns
import ParadiseOS.PagingChecks

/-!
# The regions of the two kernel heaps

`init_heap` cuts the addresses between the free list's window and the page-table
window into a region for `kernel_heap` and one for `user_ro_heap`. Each heap also
counts the pages that its usage map took from the front, so that its last indices
lie past its region; the pages there are mapped, and `mem_alloc` fails an assertion
before it hands one of them out.
-/

namespace ParadiseOS.HeapRegions

open HeapModel HeapRuns HeapUsage MachineWord MemModel StepRun
open FrameSteps PagingModel PagingSteps TwoLevelPaging

set_option autoImplicit false

/-- The arguments of one `heap_init`. -/
structure Region where
  start : Nat
  pageCount : Nat

namespace Region

def mapPages (region : Region) : Nat := sizeInPages (usageBytes region.pageCount)

/-- The page lies in the region. -/
def Contains (region : Region) (page : Nat) : Prop :=
  region.start / 4096 ≤ page ∧ page < region.start / 4096 + region.pageCount

/-- The page is one of the usage map. -/
def InMap (region : Region) (page : Nat) : Prop :=
  region.start / 4096 ≤ page ∧ page < region.start / 4096 + region.mapPages

end Region

inductive WhichHeap where
  | kernel
  | userRo
  deriving DecidableEq

/-- What `init_heap` passes to `heap_init`. -/
def regionOf (machine : Machine) : WhichHeap → Region
  | .kernel =>
      ⟨u32 (machine.freeListHead + pageSize),
        heapPageCount (u32 (machine.freeListHead + pageSize)) - userRoPages⟩
  | .userRo =>
      ⟨u32 (u32 (machine.freeListHead + pageSize) +
        u32 ((heapPageCount (u32 (machine.freeListHead + pageSize)) - userRoPages) * pageSize)),
        userRoPages⟩

structure AllocCall where
  heap : WhichHeap
  pages : Nat
  flags : Nat

def allocStep (machine : Machine) (call : AllocCall) : Except Trap (Nat × Machine) :=
  match call.heap with
  | .kernel => do
      let (ptr, heap, machine) ← memAlloc machine machine.kernelHeap call.pages call.flags
      pure (ptr, { machine with kernelHeap := heap })
  | .userRo => do
      let (ptr, heap, machine) ← memAlloc machine machine.userRoHeap call.pages call.flags
      pure (ptr, { machine with userRoHeap := heap })

/-- The flags are flags of a page table entry. -/
def LegalFlags (call : AllocCall) : Prop := call.flags < 4096

instance (call : AllocCall) : Decidable (LegalFlags call) := inferInstanceAs (Decidable (_ < _))

/-- The page belongs to an allocation that one of the calls returned. -/
def HandedOut (calls : List AllocCall) (observations : List Nat) (heap : WhichHeap) (page : Nat) : Prop :=
  ∃ pair ∈ calls.zip observations, pair.1.heap = heap ∧
    ∃ index < pair.1.pages, page = u32 (pair.2 + index * pageSize) / 4096

/-- Where the pages of a heap may lie: from the page at its first index to before a limit. -/
structure Span where
  base : Nat
  limit : Nat

/-- The pages of a heap are used in order, from its first one to before the limit. -/
structure Filled (span : Span) (heap : Heap) (used : Nat) : Prop where
  start : heap.heapStart = span.base * 4096
  count : heap.pageCount < 4294967296
  marks : ∀ index < heap.pageCount, heapGetUsage heap index ≠ heapPageFree ↔ index < used
  within : span.base + used ≤ span.limit

section OneHeap

variable {span : Span} {heap marked : Heap} {machine next : Machine} {roots frames : List Nat}
  {used pages flags ptr : Nat}

/-- First fit on a heap that was never freed from. -/
theorem filled_alloc (filled : Filled span heap used) (positive : 0 < pages)
    (completed : heapAlloc heap pages = .ok (ptr, marked)) :
    ptr = pagePtr heap used ∧ marked.heapStart = heap.heapStart ∧ marked.pageCount = heap.pageCount ∧
      ∀ index < heap.pageCount, heapGetUsage marked index ≠ heapPageFree ↔ index < used + pages := by
  obtain ⟨first, color, rfl, rfl, fits, colored, small, vacant, _, _, minimal⟩ :=
    heap_alloc_ok positive filled.count completed
  have count := filled.count
  have reached : used ≤ first := by
    by_contra before
    exact (filled.marks first (by omega)).2 (by omega) (vacant first (by omega) (by omega))
  have exact : first = used := by
    by_contra later
    obtain ⟨index, low, high, taken⟩ := minimal used (by omega)
    have below := (filled.marks index (by omega)).1 taken
    omega
  subst exact
  refine ⟨rfl, set_usage_from_start _ _ _, set_usage_from_count _ _ _, ?_⟩
  intro index below
  rw [get_usage_set_from color first pages index small (by omega)]
  split_ifs with inside
  · unfold heapPageFree
    constructor
    · intro _
      exact inside.2
    · intro _
      omega
  · rw [filled.marks index below]
    omega

/-- The addresses of an allocation are those of its pages. -/
theorem handed_page {first index : Nat} (bounded : first + index < 1048576) :
    u32 (first * 4096 + index * pageSize) / 4096 = first + index := by
  unfold u32 pageSize
  omega

/-- A mapped page at the limit stops the allocation that would reach it. -/
theorem mem_alloc_filled (filled : Filled span heap used) (spaces : Spaces machine roots)
    (free : FreeList machine roots frames) (small : flags < 4096) (limitBound : span.limit ≤ 1047552)
    (mapped : Present (pageEntry machine.memory machine.cr3 span.limit))
    (completed : memAlloc machine heap pages flags = .ok (ptr, marked, next)) :
    Filled span marked (used + pages) ∧ (∃ rest, Grown machine next roots rest) ∧
      ∀ index < pages, span.base ≤ u32 (ptr + index * pageSize) / 4096 ∧
        u32 (ptr + index * pageSize) / 4096 < span.limit := by
  obtain ⟨_, positive, completed⟩ := Trap.bind_eq_ok.mp completed
  rw [Trap.kernel_assert_eq_ok] at positive
  obtain ⟨⟨vaddr, after⟩, allocated, completed⟩ := Trap.bind_eq_ok.mp completed
  obtain ⟨grownMachine, backed, completed⟩ := Trap.bind_eq_ok.mp completed
  simp only [Trap.pure_ok, Except.ok.injEq, Prod.mk.injEq] at completed
  obtain ⟨rfl, rfl, rfl⟩ := completed
  obtain ⟨place, start, count, marks⟩ := filled_alloc filled (by omega) allocated
  have within := filled.within
  have address : vaddr = (span.base + used) * 4096 := by
    rw [place, pagePtr, filled.start]
    unfold u32
    omega
  have first : vaddr / 4096 = span.base + used := by omega
  have stops := alloc_pages_stops pages limitBound spaces free small mapped (by omega) backed
  obtain ⟨rest, grown, _⟩ := alloc_pages_grown pages limitBound spaces free small stops backed
  refine ⟨⟨start ▸ filled.start, count ▸ filled.count, ?_, by omega⟩, ⟨rest, grown⟩, ?_⟩
  · intro index below
    exact marks index (count ▸ below)
  · intro index below
    rw [address, handed_page (by omega)]
    omega

end OneHeap

section Setup

variable {machine start : Machine} {roots frames : List Nat} {base : Nat}

/-- The difference of the pointers is negative where the kernel lies in the lower half. -/
theorem heap_page_count_eq (bounded : base ≤ 1047552) :
    heapPageCount (base * 4096) =
      if 1047552 - base < 524288 then 1047552 - base else 4293918720 + (1047552 - base) := by
  have distance : pageTableEntries = u32 (base * 4096 + (1047552 - base) * 4096) := by
    unfold u32 pageTableEntries
    omega
  rw [heapPageCount, distance]
  by_cases near : 1047552 - base < 524288
  · rw [if_pos near, ptr_diff_near _ _ (by omega) (by omega), ofSigned,
      Int.tdiv_eq_ediv_of_nonneg (by omega)]
    omega
  · rw [if_neg near, ptr_diff_far _ _ (by omega) (by omega) (by omega), ofSigned]
    have negative : (((1047552 - base) * 4096 : Nat) : Int) - 4294967296 =
        -((1048576 - (1047552 - base) : Nat) * 4096 : Int) := by omega
    rw [negative, Int.neg_tdiv, Int.mul_tdiv_cancel _ (by decide)]
    omega

/-- The numbers of `init_heap`: the first page of the kernel's region, its page count and the
pages of its usage map. -/
structure Cut (machine : Machine) (base : Nat) : Prop where
  kernelStart : (regionOf machine .kernel).start = base * 4096
  userRoStart : (regionOf machine .userRo).start = 1046528 * 4096
  count : (regionOf machine .kernel).pageCount + 3 < 4294967296
  covers : 1046528 ≤ base + (regionOf machine .kernel).pageCount
  map : base + (regionOf machine .kernel).mapPages ≤ 1046528

theorem user_ro_map (machine : Machine) : (regionOf machine .userRo).mapPages = 1 :=
  (by decide : sizeInPages (usageBytes 1024) = 1)

theorem cut_of_spaces (spaces : Spaces machine roots)
    (accepted : heapPageCount (u32 (machine.freeListHead + pageSize)) > userRoPages) :
    ∃ base, Cut machine base := by
  have aligned := spaces.headAligned
  have low := spaces.headLow
  have place : u32 (machine.freeListHead + pageSize) = (machine.freeListHead / 4096 + 1) * 4096 := by
    unfold u32 pageSize
    omega
  obtain ⟨base, isBase⟩ : ∃ base, base = machine.freeListHead / 4096 + 1 := ⟨_, rfl⟩
  have bounded : base ≤ 1047552 := by omega
  rw [place, ← isBase, heap_page_count_eq bounded] at accepted
  refine ⟨base, ?_⟩
  have kernelStart : (regionOf machine .kernel).start = base * 4096 := by
    rw [regionOf, place, ← isBase]
  have count : (regionOf machine .kernel).pageCount = heapPageCount (base * 4096) - 1024 := by
    rw [regionOf, place, ← isBase]
    rfl
  have userRoStart : (regionOf machine .userRo).start =
      u32 (base * 4096 + u32 ((heapPageCount (base * 4096) - 1024) * 4096)) := by
    rw [regionOf, place, ← isBase]
    rfl
  have mapPages : (regionOf machine .kernel).mapPages =
      u32 (u32 (heapPageCount (base * 4096) - 1024 + 3) / 4 + 4095) / 4096 := by
    rw [Region.mapPages, count, usageBytes, sizeInPages]
  rw [heap_page_count_eq bounded] at count userRoStart mapPages
  unfold userRoPages at accepted
  by_cases near : 1047552 - base < 524288
  · rw [if_pos near] at accepted count userRoStart mapPages
    refine ⟨kernelStart, ?_, by omega, by omega, ?_⟩
    · rw [userRoStart]
      unfold u32
      omega
    · rw [mapPages]
      unfold u32
      omega
  · rw [if_neg near] at accepted count userRoStart mapPages
    refine ⟨kernelStart, ?_, by omega, by omega, ?_⟩
    · rw [userRoStart]
      unfold u32
      omega
    · rw [mapPages]
      unfold u32
      omega

/-- What one `heap_init` does: the pages of the usage map are mapped, and no page is used. -/
theorem mem_heap_init_filled {memory : Nat → UInt8} {heapStart pageCount flags limit : Nat}
    {heap : Heap} {next : Machine} (spaces : Spaces machine roots) (free : FreeList machine roots frames)
    (small : flags < 4096) (place : heapStart = base * 4096) (count : pageCount + 3 < 4294967296)
    (within : base + sizeInPages (usageBytes pageCount) ≤ limit) (limitBound : limit ≤ 1047552)
    (completed : memHeapInit machine memory heapStart pageCount flags = .ok (heap, next)) :
    Filled ⟨base + sizeInPages (usageBytes pageCount), limit⟩ heap 0 ∧ (∃ rest, Grown machine next roots rest) ∧
      ∀ page, base ≤ page → page < base + sizeInPages (usageBytes pageCount) →
        Present (pageEntry next.memory next.cr3 page) := by
  obtain ⟨_, _, completed⟩ := Trap.bind_eq_ok.mp completed
  obtain ⟨grownMachine, backed, completed⟩ := Trap.bind_eq_ok.mp completed
  obtain ⟨after, initialized, completed⟩ := Trap.bind_eq_ok.mp completed
  simp only [Trap.pure_ok, Except.ok.injEq, Prod.mk.injEq] at completed
  obtain ⟨rfl, rfl⟩ := completed
  have first : heapStart / 4096 = base := by omega
  obtain ⟨rest, grown, mapped⟩ :=
    alloc_pages_grown _ limitBound spaces free small (first ▸ within) backed
  rw [first] at mapped
  have start : after.heapStart = u32 (heapStart + sizeInPages (usageBytes pageCount) * 4096) := by
    obtain ⟨_, _, fields⟩ := Trap.bind_eq_ok.mp initialized
    simp only [Trap.pure_ok, Except.ok.injEq] at fields
    rw [← fields]
  obtain ⟨fields, _, _, map⟩ := heap_init_fields initialized
  refine ⟨⟨?_, ?_, ?_, ?_⟩, ⟨rest, grown⟩, mapped⟩
  · change after.heapStart = (base + sizeInPages (usageBytes pageCount)) * 4096
    rw [start, place, u32_of_lt (by omega)]
    omega
  · omega
  · intro index below
    have clear : heapGetUsage after index = heapPageFree := by
      apply zero_byte_usage
      rw [fields] at below
      rw [map]
      apply if_pos
      rw [usageBytes, u32_of_lt count]
      omega
    simp [clear]
  · exact within

end Setup

/-- What a run keeps: both heaps are used from the front, and the page after the region of each
is mapped. -/
structure Separate (setup machine : Machine) (roots : List Nat) (base : Nat) : Prop where
  sound : ∃ frames, Spaces machine roots ∧ FreeList machine roots frames
  kernel : ∃ used, Filled ⟨base + (regionOf setup .kernel).mapPages, 1046528⟩ machine.kernelHeap used
  userRo : ∃ used, Filled ⟨1046529, 1047552⟩ machine.userRoHeap used
  userRoMap : Present (pageEntry machine.memory machine.cr3 1046528)
  window : Present (pageEntry machine.memory machine.cr3 1047552)

section Runs

variable {setup machine start final : Machine} {roots frames : List Nat} {base : Nat}

theorem init_heap_separate {memory userRoMemory : Nat → UInt8} (spaces : Spaces machine roots)
    (free : FreeList machine roots frames)
    (low : Present (directoryEntry machine.memory machine.cr3 0))
    (initialized : initHeap machine memory userRoMemory = .ok start) :
    ∃ base, Cut machine base ∧ Separate machine start roots base := by
  obtain ⟨_, accepted, completed⟩ := Trap.bind_eq_ok.mp initialized
  rw [Trap.kernel_assert_eq_ok] at accepted
  obtain ⟨base, cut⟩ := cut_of_spaces spaces accepted
  obtain ⟨⟨kernelHeap, middle⟩, kernelInit, completed⟩ := Trap.bind_eq_ok.mp completed
  obtain ⟨⟨userRoHeap, last⟩, userRoInit, completed⟩ := Trap.bind_eq_ok.mp completed
  simp only [Trap.pure_ok, Except.ok.injEq] at completed
  subst completed
  have kernelMap := cut.map
  obtain ⟨kernelFilled, ⟨rest, grown⟩, _⟩ := mem_heap_init_filled spaces free (by decide)
    cut.kernelStart cut.count kernelMap (by decide) kernelInit
  have userRoWithin : 1046528 + sizeInPages (usageBytes userRoPages) ≤ 1047552 := by decide
  obtain ⟨userRoFilled, ⟨final, again⟩, mapped⟩ := mem_heap_init_filled
    grown.spaces grown.free (by decide) cut.userRoStart (by decide) userRoWithin (by decide) userRoInit
  have same : SamePaging last { last with kernelHeap := kernelHeap, userRoHeap := userRoHeap } :=
    ⟨rfl, rfl, rfl, rfl, rfl, rfl⟩
  refine ⟨base, cut, ⟨final, spaces_same_paging same again.spaces, free_list_same_paging same again.free⟩,
    ⟨0, kernelFilled⟩, ⟨0, userRoFilled⟩, ?_, ?_⟩
  · exact mapped 1046528 (by decide) (by decide)
  · exact again.present _ (by decide) (grown.present _ (by decide) (window_page_present spaces low))

def spanOf (setup : Machine) (base : Nat) : WhichHeap → Span
  | .kernel => ⟨base + (regionOf setup .kernel).mapPages, 1046528⟩
  | .userRo => ⟨1046529, 1047552⟩

/-- One call preserves the separation and hands out pages of its heap's span. -/
theorem alloc_step_separate (separate : Separate setup machine roots base) {call : AllocCall}
    (legal : LegalFlags call) {ptr : Nat} {next : Machine}
    (stepped : allocStep machine call = .ok (ptr, next)) :
    Separate setup next roots base ∧ ∀ index < call.pages,
      (spanOf setup base call.heap).base ≤ u32 (ptr + index * pageSize) / 4096 ∧
        u32 (ptr + index * pageSize) / 4096 < (spanOf setup base call.heap).limit := by
  obtain ⟨frames, spaces, free⟩ := separate.sound
  obtain ⟨kernelUsed, kernel⟩ := separate.kernel
  obtain ⟨userRoUsed, userRo⟩ := separate.userRo
  obtain ⟨heap, pages, flags⟩ := call
  cases heap with
  | kernel =>
      obtain ⟨⟨vaddr, marked, after⟩, allocated, finished⟩ := Trap.bind_eq_ok.mp stepped
      simp only [Trap.pure_ok, Except.ok.injEq, Prod.mk.injEq] at finished
      obtain ⟨rfl, rfl⟩ := finished
      obtain ⟨filled, ⟨rest, grown⟩, placed⟩ := mem_alloc_filled kernel spaces free legal
        (show 1046528 ≤ 1047552 by decide) separate.userRoMap allocated
      have same : SamePaging after { after with kernelHeap := marked } :=
        ⟨rfl, rfl, rfl, rfl, rfl, rfl⟩
      have heaps : after.userRoHeap = machine.userRoHeap := by rw [grown.globals]
      refine ⟨⟨⟨rest, spaces_same_paging same grown.spaces, free_list_same_paging same grown.free⟩,
        ⟨_, filled⟩, ⟨userRoUsed, ?_⟩, grown.present _ (by decide) separate.userRoMap,
        grown.present _ (by decide) separate.window⟩, placed⟩
      change Filled _ after.userRoHeap _
      rw [heaps]
      exact userRo
  | userRo =>
      obtain ⟨⟨vaddr, marked, after⟩, allocated, finished⟩ := Trap.bind_eq_ok.mp stepped
      simp only [Trap.pure_ok, Except.ok.injEq, Prod.mk.injEq] at finished
      obtain ⟨rfl, rfl⟩ := finished
      obtain ⟨filled, ⟨rest, grown⟩, placed⟩ := mem_alloc_filled userRo spaces free legal
        (show 1047552 ≤ 1047552 by decide) separate.window allocated
      have same : SamePaging after { after with userRoHeap := marked } :=
        ⟨rfl, rfl, rfl, rfl, rfl, rfl⟩
      have heaps : after.kernelHeap = machine.kernelHeap := by rw [grown.globals]
      refine ⟨⟨⟨rest, spaces_same_paging same grown.spaces, free_list_same_paging same grown.free⟩,
        ⟨kernelUsed, ?_⟩, ⟨_, filled⟩, grown.present _ (by decide) separate.userRoMap,
        grown.present _ (by decide) separate.window⟩, placed⟩
      change Filled _ after.kernelHeap _
      rw [heaps]
      exact kernel

/-- In a run, every page that a heap hands out lies in its span. -/
theorem handed_out_span (calls : List AllocCall) {observations : List Nat}
    (separate : Separate setup machine roots base) (legal : ∀ call ∈ calls, LegalFlags call)
    (completed : run allocStep machine calls = .ok (observations, final)) {heap : WhichHeap} {page : Nat}
    (handed : HandedOut calls observations heap page) :
    (spanOf setup base heap).base ≤ page ∧ page < (spanOf setup base heap).limit := by
  induction calls generalizing machine observations with
  | nil =>
      obtain ⟨pair, member, _⟩ := handed
      cases member
  | cons call calls ih =>
      obtain ⟨ptr, next, later, stepped, tail, rfl⟩ := run_cons completed
      obtain ⟨kept, placed⟩ := alloc_step_separate separate (legal call List.mem_cons_self) stepped
      obtain ⟨pair, member, isHeap, index, below, place⟩ := handed
      rw [List.zip_cons_cons, List.mem_cons] at member
      rcases member with here | further
      · subst here
        rw [← isHeap, place]
        exact placed index below
      · exact ih kept (fun other second => legal other (List.mem_cons_of_mem _ second)) tail
          ⟨pair, further, isHeap, index, below, place⟩

/-- Every page that `mem_alloc` hands out of one of the kernel's heaps lies in the region that
`init_heap` gave to that heap, in neither usage map and below the page-table window, and no page
is handed out by both. -/
theorem heap_regions_apart {memory userRoMemory : Nat → UInt8} {calls : List AllocCall}
    {observations : List Nat} (spaces : Spaces machine roots) (free : FreeList machine roots frames)
    (low : Present (directoryEntry machine.memory machine.cr3 0))
    (initialized : initHeap machine memory userRoMemory = .ok start)
    (legal : ∀ call ∈ calls, LegalFlags call)
    (completed : run allocStep start calls = .ok (observations, final)) :
    (∀ heap page, HandedOut calls observations heap page →
      (regionOf machine heap).Contains page ∧ ¬ (regionOf machine .kernel).InMap page ∧
        ¬ (regionOf machine .userRo).InMap page ∧ page * pageSize < pageTableEntries) ∧
      ∀ page, ¬ (HandedOut calls observations .kernel page ∧ HandedOut calls observations .userRo page) := by
  obtain ⟨base, cut, separate⟩ := init_heap_separate spaces free low initialized
  have kernelStart : (regionOf machine .kernel).start / 4096 = base := by
    rw [cut.kernelStart]
    omega
  have userRoStart : (regionOf machine .userRo).start / 4096 = 1046528 := by
    rw [cut.userRoStart]
  have covers := cut.covers
  have map := cut.map
  have userRoMap := user_ro_map machine
  have userRoCount : (regionOf machine .userRo).pageCount = 1024 := rfl
  constructor
  · intro heap page handed
    have span := handed_out_span calls separate legal completed handed
    unfold Region.Contains Region.InMap
    rw [kernelStart, userRoStart, userRoMap]
    unfold pageSize pageTableEntries
    cases heap with
    | kernel =>
        have placed : base + (regionOf machine .kernel).mapPages ≤ page ∧ page < 1046528 := span
        rw [kernelStart]
        omega
    | userRo =>
        have placed : 1046529 ≤ page ∧ page < 1047552 := span
        rw [userRoStart, userRoCount]
        omega
  · rintro page ⟨first, second⟩
    have kernelSpan := (handed_out_span calls separate legal completed first).2
    have userRoSpan := (handed_out_span calls separate legal completed second).1
    have below : page < 1046528 := kernelSpan
    have above : 1046529 ≤ page := userRoSpan
    omega

end Runs

section Boot

open PagingChecks

/-- One address space whose window on the free list lies three pages before the read-only heap. -/
def bootMachine : Machine :=
  { sampleMachine with
    memory := imageOf [(0x10000, 0x1D003), (0x10FF4, 0x12003), (0x10FF8, 0x13007), (0x10FFC, 0x10003),
      (0x12FF4, 0x16003), (0x16000, 0x17000), (0x17000, 0x18000), (0x18000, 0x19000)]
    freeListHead := 0xFF7FD000
    freeListHeadPte := 0xFFFFDFF4 }

def bootFrames : List Nat := [0x16000, 0x17000, 0x18000, 0x19000]

theorem boot_covers : Covers bootMachine.memory [0x10000] [0, 0x3FD, 0x3FE] :=
  covers_of_words _ (by decide) (by decide)

theorem boot_spaces : Spaces bootMachine [0x10000] where
  family := family_of_checks _ boot_covers (by decide +kernel) (by decide +kernel)
  current := rfl
  member := by decide
  headAligned := by decide
  headLow := by decide
  headPte := by decide
  headShared := by decide +kernel

theorem boot_free : FreeList bootMachine [0x10000] bootFrames :=
  free_list_of_checks _ boot_covers (by decide +kernel)
    ⟨rfl, by decide +kernel, by decide +kernel, by decide +kernel,
      (by decide +kernel : readWord bootMachine.memory 0x19000 = 0)⟩
    (by decide) (by decide +kernel)

def bootCalls : List AllocCall := [⟨.kernel, 1, pageWritable⟩, ⟨.userRo, 1, pageUserMode⟩]

/-- The kernel's heap gets its only page before the read-only heap, which begins with its map. -/
theorem heap_regions_apart_boot : ∃ start final,
    initHeap bootMachine (fun _ => 0) (fun _ => 0) = .ok start ∧
      run allocStep start bootCalls = .ok ([0xFF7FF000, 0xFF801000], final) ∧
      (∀ heap page, HandedOut bootCalls [0xFF7FF000, 0xFF801000] heap page →
        (regionOf bootMachine heap).Contains page ∧ ¬ (regionOf bootMachine .kernel).InMap page ∧
          ¬ (regionOf bootMachine .userRo).InMap page ∧ page * pageSize < pageTableEntries) ∧
        ∀ page, ¬ (HandedOut bootCalls [0xFF7FF000, 0xFF801000] .kernel page ∧
          HandedOut bootCalls [0xFF7FF000, 0xFF801000] .userRo page) := by
  obtain ⟨start, initialized, checked⟩ := returns_with_iff.1
    (by decide +kernel : returnsWith (initHeap bootMachine (fun _ => 0) (fun _ => 0)) (fun start =>
      returnsWith (run allocStep start bootCalls)
        (fun result => result.1 = [0xFF7FF000, 0xFF801000])) = true)
  obtain ⟨⟨observations, final⟩, completed, seen⟩ := returns_with_iff.1 checked
  have same : observations = [0xFF7FF000, 0xFF801000] := of_decide_eq_true seen
  subst same
  exact ⟨start, final, initialized, completed, heap_regions_apart boot_spaces boot_free
    (by decide +kernel) initialized (by decide) completed⟩

end Boot

end ParadiseOS.HeapRegions
