import ParadiseOS.HeapRuns
import ParadiseOS.NewDirectory
import ParadiseOS.ProcessFrames

/-!
# One page of the kernel's heap at a time

What `kernel_alloc` of a page and `new_page_dir` do needs no account of the pages
that the heap has already: the ledger that matters is one of the new page alone.
-/

namespace ParadiseOS.KernelPages

open FrameLedger FrameSteps NewDirectory
open HeapModel (Heap heapAlloc heapFree freeRun pagePtr)
open HeapRuns (heap_alloc_ok)
open HeapUsage (set_usage_from_count set_usage_from_start)
open MachineWord MemModel PagingModel PagingSteps TwoLevelPaging

set_option autoImplicit false

/-- The paging structures are sound, the first 4 MiB have a table, and the kernel's heap lies
behind the window, in the kernel's half and below the last 4 MiB. -/
structure Sound (machine : Machine) (roots frames : List Nat) : Prop where
  spaces : Spaces machine roots
  free : FreeList machine roots frames
  low : Present (directoryEntry machine.memory machine.cr3 0)
  kernelHalf : kernelPdiStart ≤ windowPage machine / 1024
  heapAligned : machine.kernelHeap.heapStart % 4096 = 0
  heapHigh : machine.kernelHeap.heapStart / 4096 + machine.kernelHeap.pageCount ≤ 1047552

section Pages

variable {machine next : Machine} {roots frames : List Nat} {page ptr : Nat} {heap : Heap}

/-- The ledger of a page that is not mapped yet. -/
def emptyLedger (roots frames : List Nat) : Ledger := ⟨roots, frames, [], [], []⟩

theorem page_balanced (sound : Sound machine roots frames) (low : page < 1047552)
    (absent : ¬ Present (pageEntry machine.memory machine.cr3 page)) :
    Balanced (· = page) (frames ++ []) (u32 (machine.usedFrames + frames.length)) machine
      (emptyLedger roots frames) where
  spaces := sound.spaces
  free := sound.free
  low := sound.low
  placed := by
    rintro other rfl
    exact ⟨low, fun same => absent (same ▸ window_present sound.free)⟩
  exact := by
    rintro other rfl
    exact iff_of_false absent List.not_mem_nil
  inside := List.forall_mem_nil _
  nodup := List.nodup_nil
  positive := List.forall_mem_nil _
  apart := List.forall_mem_nil _
  own := List.forall_mem_nil _
  tables := List.forall_mem_nil _
  directories := List.forall_mem_nil _
  accounts := List.Perm.refl _
  usage := rfl

/-- A page of the heap is a page of the address space. -/
theorem heap_page_place (aligned : heap.heapStart % 4096 = 0)
    (high : heap.heapStart / 4096 + heap.pageCount ≤ 1047552) {marked : Heap}
    (allocated : heapAlloc heap 1 = .ok (ptr, marked)) :
    ptr % 4096 = 0 ∧ heap.heapStart / 4096 ≤ ptr / 4096 ∧ ptr / 4096 < 1047552 := by
  obtain ⟨first, color, isPtr, _, fits, _⟩ := heap_alloc_ok (by decide) (by omega) allocated
  have place : ptr = heap.heapStart + first * 4096 := by
    rw [isPtr]
    unfold pagePtr u32
    omega
  omega

/-- A page that `kernel_alloc` returns was not mapped. -/
theorem kernel_alloc_fresh (sound : Sound machine roots frames)
    (completed : kernelAlloc machine 1 = .ok (ptr, next)) :
    ptr % 4096 = 0 ∧ ptr / 4096 < 1047552 ∧
      ¬ Present (pageEntry machine.memory machine.cr3 (ptr / 4096)) := by
  obtain ⟨⟨vaddr, heap, middle⟩, allocated, finished⟩ := Trap.bind_eq_ok.mp completed
  simp only [Trap.pure_ok, Except.ok.injEq, Prod.mk.injEq] at finished
  obtain ⟨rfl, _⟩ := finished
  obtain ⟨_, _, allocated⟩ := Trap.bind_eq_ok.mp allocated
  obtain ⟨⟨place, marked⟩, found, allocated⟩ := Trap.bind_eq_ok.mp allocated
  obtain ⟨backed, backing, allocated⟩ := Trap.bind_eq_ok.mp allocated
  simp only [Trap.pure_ok, Except.ok.injEq, Prod.mk.injEq] at allocated
  obtain ⟨rfl, _⟩ := allocated
  obtain ⟨aligned, _, low⟩ := heap_page_place sound.heapAligned sound.heapHigh found
  rw [alloc_pages_succ] at backing
  obtain ⟨first, allocating, _⟩ := Trap.bind_eq_ok.mp backing
  exact ⟨aligned, low, alloc_page_absent sound.spaces sound.free (by omega) allocating⟩

/-- The heap's marks change, not its place. -/
theorem sound_of_balanced {region : Nat → Prop} {contributed : List Nat} {total : Nat} {ledger : Ledger}
    (sound : Sound machine roots frames) (held : Balanced region contributed total next ledger)
    (window : windowPage next = windowPage machine)
    (start : next.kernelHeap.heapStart = machine.kernelHeap.heapStart)
    (count : next.kernelHeap.pageCount = machine.kernelHeap.pageCount) :
    Sound next ledger.roots ledger.free where
  spaces := held.spaces
  free := held.free
  low := held.low
  kernelHalf := window ▸ sound.kernelHalf
  heapAligned := start ▸ sound.heapAligned
  heapHigh := by rw [start, count]; exact sound.heapHigh

theorem free_run_place {freed : Heap} {color count number : Nat} (fuel index : Nat)
    (completed : freeRun color fuel heap index count = .ok (number, freed)) :
    freed.heapStart = heap.heapStart ∧ freed.pageCount = heap.pageCount := by
  induction fuel generalizing heap index count with
  | zero =>
      cases completed
  | succ fuel ih =>
      rw [freeRun] at completed
      split_ifs at completed
      · obtain ⟨start, pages⟩ := ih _ completed
        exact ⟨start, pages⟩
      · cases completed
        exact ⟨rfl, rfl⟩

theorem heap_free_place {freed : Heap} {number : Nat} (completed : heapFree heap ptr = .ok (number, freed)) :
    freed.heapStart = heap.heapStart ∧ freed.pageCount = heap.pageCount := by
  obtain ⟨_, _, completed⟩ := Trap.bind_eq_ok.mp completed
  obtain ⟨_, _, completed⟩ := Trap.bind_eq_ok.mp completed
  exact free_run_place _ _ completed

theorem heap_alloc_place {pages : Nat} {marked : Heap} (positive : 0 < pages)
    (high : heap.heapStart / 4096 + heap.pageCount ≤ 1047552)
    (completed : heapAlloc heap pages = .ok (ptr, marked)) :
    marked.heapStart = heap.heapStart ∧ marked.pageCount = heap.pageCount := by
  obtain ⟨first, color, _, rfl, _⟩ := heap_alloc_ok positive (by omega) completed
  exact ⟨set_usage_from_start _ _ _, set_usage_from_count _ _ _⟩

/-- `kernel_alloc` of a page keeps the kernel sound. -/
theorem kernel_alloc_sound (sound : Sound machine roots frames)
    (completed : kernelAlloc machine 1 = .ok (ptr, next)) :
    ∃ after, Sound next roots after.free ∧
      ∃ middle, Carried machine middle (emptyLedger roots frames) after (InRange (ptr / 4096) 1) ∧
        next = { middle with kernelHeap := next.kernelHeap } := by
  obtain ⟨aligned, low, absent⟩ := kernel_alloc_fresh sound completed
  have balanced := page_balanced sound low absent
  obtain ⟨marked, after, found, isHeap, held, ⟨middle, carried, isNext⟩, _⟩ :=
    kernel_alloc_balanced balanced (fun vaddr heap placed page range => by
      have same := (ProcessFrames.kernel_alloc_objects completed).2.2.symm.trans placed
      simp only [Except.ok.injEq, Prod.mk.injEq] at same
      unfold InRange at range
      omega) completed
  obtain ⟨start, count⟩ := heap_alloc_place (by decide) sound.heapHigh found
  have window := same_globals_window carried.globals
  have roots_ : after.roots = roots := carried.roots
  refine ⟨after, roots_ ▸ sound_of_balanced sound held ?_ (isHeap ▸ start) (isHeap ▸ count), middle, carried, ?_⟩
  · rw [isNext]
    exact window
  · rw [isHeap]
    exact isNext

/-- `new_page_dir` takes at most two frames, leaves the pages below the heap alone and gives the page
that it borrowed back. -/
theorem new_page_dir_taken {frame : Nat} (sound : Sound machine roots frames)
    (completed : newPageDir machine = .ok (frame, next)) :
    ∃ ptr after, Sound next (frame :: roots) after.free ∧
      Made machine next (emptyLedger roots frames) after frame (· = ptr / 4096) ∧
      (frame ∈ frames ∧ after.free ⊆ frames ∧ frames.length ≤ after.free.length + 2) ∧
      (machine.kernelHeap.heapStart / 4096 ≤ ptr / 4096 ∧
        ¬ Present (pageEntry next.memory next.cr3 (ptr / 4096))) ∧
      ∀ written, Spares written machine next (emptyLedger roots frames) after (· = ptr / 4096) := by
  obtain ⟨⟨dir, allocated⟩, allocating, _⟩ := Trap.bind_eq_ok.mp completed
  obtain ⟨aligned, low, absent⟩ := kernel_alloc_fresh sound allocating
  have balanced := page_balanced sound low absent
  obtain ⟨ptr, marked, freedCount, heap, after, found, released, isHeap, held, made, ⟨listed, taken⟩, spares⟩ :=
    new_page_dir_made balanced sound.kernelHalf (fun ptr heap placed => by
      have same := (ProcessFrames.kernel_alloc_objects allocating).2.2.symm.trans placed
      simp only [Except.ok.injEq, Prod.mk.injEq] at same
      exact same.1 ▸ ⟨aligned, rfl⟩) completed
  obtain ⟨start, count⟩ := heap_alloc_place (by decide) sound.heapHigh found
  obtain ⟨freedStart, freedPages⟩ := heap_free_place released
  have window := same_globals_window made.globals
  have roots_ : after.roots = frame :: roots := made.roots
  have same := (ProcessFrames.kernel_alloc_objects allocating).2.2.symm.trans found
  simp only [Except.ok.injEq, Prod.mk.injEq] at same
  refine ⟨ptr, after, roots_ ▸ sound_of_balanced sound held window ?_ ?_, made, ⟨listed, ?_, taken⟩, ⟨?_, ?_⟩,
    spares⟩
  · rw [isHeap, freedStart, start]
  · rw [isHeap, freedPages, count]
  · intro other there
    have account := held.accounts.mem_iff.1 (List.mem_append_left _ there)
    rwa [List.append_nil] at account
  · exact (heap_page_place sound.heapAligned sound.heapHigh found).2.1
  · intro present
    have mapped := (held.exact _ (congrArg (· / 4096) same.1.symm)).1 present
    exact absurd ((made.pages _).1 mapped) List.not_mem_nil

/-- `new_page_dir` adds a directory with the kernel's tables and no others. -/
theorem new_page_dir_sound {frame : Nat} (sound : Sound machine roots frames)
    (completed : newPageDir machine = .ok (frame, next)) :
    ∃ ptr after, Sound next (frame :: roots) after.free ∧
      Made machine next (emptyLedger roots frames) after frame (· = ptr / 4096) := by
  obtain ⟨ptr, after, held, made, _⟩ := new_page_dir_taken sound completed
  exact ⟨ptr, after, held, made⟩

end Pages

end ParadiseOS.KernelPages
