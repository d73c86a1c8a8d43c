import ParadiseOS.ProcessModel

/-!
# What the process functions leave alone

The functions on page tables and address spaces do not touch the objects of the
process layer: the tree, the slots of the pool and, but for `new_page_dir` and
`kernel_alloc`, the kernel's heap.
-/

namespace ParadiseOS.ProcessFrames

open HeapModel (Heap heapAlloc heapFree)
open MachineWord MemModel PagingModel ProcessModel

set_option autoImplicit false

/-- The machines differ in memory, directory and frames only. -/
structure SameObjects (machine next : Machine) : Prop where
  processTree : next.processTree = machine.processTree
  pageDirPaddr : next.pageDirPaddr = machine.pageDirPaddr
  kernelHeap : next.kernelHeap = machine.kernelHeap

section Machines

variable {machine middle next : Machine} {vaddr word paddr flags count : Nat}

theorem same_objects_refl (machine : Machine) : SameObjects machine machine := ⟨rfl, rfl, rfl⟩

theorem same_objects_trans (first : SameObjects machine middle) (second : SameObjects middle next) :
    SameObjects machine next :=
  ⟨second.processTree.trans first.processTree, second.pageDirPaddr.trans first.pageDirPaddr,
    second.kernelHeap.trans first.kernelHeap⟩

theorem store_word_objects (stored : storeWord machine vaddr word = .ok next) :
    SameObjects machine next := by
  obtain ⟨_, _, stored⟩ := Trap.bind_eq_ok.mp stored
  obtain ⟨_, _, stored⟩ := Trap.bind_eq_ok.mp stored
  obtain ⟨_, _, stored⟩ := Trap.bind_eq_ok.mp stored
  obtain ⟨_, _, stored⟩ := Trap.bind_eq_ok.mp stored
  simp only [Trap.pure_ok, Except.ok.injEq] at stored
  exact stored ▸ ⟨rfl, rfl, rfl⟩

theorem set_page_dir_objects (machine : Machine) (paddr : Nat) :
    SameObjects machine (setPageDir machine paddr) := by
  unfold setPageDir
  split_ifs
  · exact ⟨rfl, rfl, rfl⟩
  · exact same_objects_refl machine

theorem init_page_table_objects {table : Nat} (cleared : initPageTableFrom machine table count = .ok next) :
    SameObjects machine next := by
  induction count generalizing machine with
  | zero =>
      rw [initPageTableFrom, Except.ok.injEq] at cleared
      exact cleared ▸ same_objects_refl machine
  | succ count ih =>
      obtain ⟨middle, stored, cleared⟩ := Trap.bind_eq_ok.mp cleared
      exact same_objects_trans (store_word_objects stored) (ih cleared)

theorem alloc_frame_objects {frame : Nat} (allocated : allocFrame machine = .ok (frame, next)) :
    SameObjects machine next := by
  obtain ⟨_, _, allocated⟩ := Trap.bind_eq_ok.mp allocated
  obtain ⟨_, _, allocated⟩ := Trap.bind_eq_ok.mp allocated
  obtain ⟨_, stored, allocated⟩ := Trap.bind_eq_ok.mp allocated
  simp only [Trap.pure_ok, Except.ok.injEq, Prod.mk.injEq] at allocated
  obtain ⟨_, rfl⟩ := allocated
  have kept := store_word_objects stored
  exact ⟨kept.processTree, kept.pageDirPaddr, kept.kernelHeap⟩

theorem free_frame_objects (freed : freeFrame machine paddr = .ok next) : SameObjects machine next := by
  obtain ⟨middle, first, freed⟩ := Trap.bind_eq_ok.mp freed
  obtain ⟨last, second, freed⟩ := Trap.bind_eq_ok.mp freed
  simp only [Trap.pure_ok, Except.ok.injEq] at freed
  subst freed
  have kept := same_objects_trans (store_word_objects first) (store_word_objects second)
  exact ⟨kept.processTree, kept.pageDirPaddr, kept.kernelHeap⟩

theorem make_page_table_objects {pdi : Nat} (made : makePageTable machine pdi flags = .ok next) :
    SameObjects machine next := by
  obtain ⟨directory, _, made⟩ := Trap.bind_eq_ok.mp made
  split_ifs at made
  · simp only [Trap.pure_ok, Except.ok.injEq] at made
    exact made ▸ same_objects_refl machine
  · obtain ⟨⟨frame, first⟩, allocated, made⟩ := Trap.bind_eq_ok.mp made
    obtain ⟨second, stored, made⟩ := Trap.bind_eq_ok.mp made
    exact same_objects_trans (alloc_frame_objects allocated)
      (same_objects_trans (store_word_objects stored) (init_page_table_objects made))

theorem map_page_objects {mapped : Bool} (completed : mapPage machine vaddr paddr flags = .ok (mapped, next)) :
    SameObjects machine next := by
  obtain ⟨middle, made, completed⟩ := Trap.bind_eq_ok.mp completed
  obtain ⟨_, _, completed⟩ := Trap.bind_eq_ok.mp completed
  obtain ⟨_, _, completed⟩ := Trap.bind_eq_ok.mp completed
  obtain ⟨entry, _, completed⟩ := Trap.bind_eq_ok.mp completed
  have first := make_page_table_objects made
  split_ifs at completed
  · simp only [Trap.pure_ok, Except.ok.injEq, Prod.mk.injEq] at completed
    exact completed.2 ▸ first
  · obtain ⟨last, stored, completed⟩ := Trap.bind_eq_ok.mp completed
    simp only [Trap.pure_ok, Except.ok.injEq, Prod.mk.injEq] at completed
    exact completed.2 ▸ same_objects_trans first (store_word_objects stored)

theorem alloc_pages_objects (completed : allocPages machine vaddr flags count = .ok next) :
    SameObjects machine next := by
  induction count generalizing machine vaddr with
  | zero =>
      rw [allocPages, Except.ok.injEq] at completed
      exact completed ▸ same_objects_refl machine
  | succ count ih =>
      obtain ⟨⟨frame, first⟩, allocated, completed⟩ := Trap.bind_eq_ok.mp completed
      obtain ⟨⟨mapped, second⟩, mapping, completed⟩ := Trap.bind_eq_ok.mp completed
      obtain ⟨_, _, completed⟩ := Trap.bind_eq_ok.mp completed
      exact same_objects_trans (alloc_frame_objects allocated)
        (same_objects_trans (map_page_objects mapping) (ih completed))

theorem unmap_page_objects {removed : Option Nat} (completed : unmapPage machine vaddr = .ok (removed, next)) :
    SameObjects machine next := by
  obtain ⟨entry, _, completed⟩ := Trap.bind_eq_ok.mp completed
  split_ifs at completed
  · obtain ⟨middle, flushed, completed⟩ := Trap.bind_eq_ok.mp completed
    simp only [Trap.pure_ok, Except.ok.injEq, Prod.mk.injEq] at completed
    obtain ⟨_, _, flushed⟩ := Trap.bind_eq_ok.mp flushed
    obtain ⟨_, _, flushed⟩ := Trap.bind_eq_ok.mp flushed
    obtain ⟨_, _, flushed⟩ := Trap.bind_eq_ok.mp flushed
    obtain ⟨_, _, flushed⟩ := Trap.bind_eq_ok.mp flushed
    exact completed.2 ▸ store_word_objects flushed
  · simp only [Trap.pure_ok, Except.ok.injEq, Prod.mk.injEq] at completed
    exact completed.2 ▸ same_objects_refl machine

theorem store_byte_objects {byte : UInt8} (stored : storeByte machine vaddr byte = .ok next) :
    SameObjects machine next := by
  obtain ⟨_, _, stored⟩ := Trap.bind_eq_ok.mp stored
  simp only [Trap.pure_ok, Except.ok.injEq] at stored
  exact stored ▸ ⟨rfl, rfl, rfl⟩

theorem store_bytes_objects {bytes : List UInt8} (stored : storeBytes machine vaddr bytes = .ok next) :
    SameObjects machine next := by
  induction bytes generalizing machine vaddr with
  | nil =>
      rw [storeBytes, Except.ok.injEq] at stored
      exact stored ▸ same_objects_refl machine
  | cons byte bytes ih =>
      obtain ⟨middle, first, stored⟩ := Trap.bind_eq_ok.mp stored
      exact same_objects_trans (store_byte_objects first) (ih stored)

theorem copy_bytes_objects {dst src : Nat} (copied : copyBytes machine dst src count = .ok next) :
    SameObjects machine next := by
  induction count generalizing machine dst src with
  | zero =>
      rw [copyBytes, Except.ok.injEq] at copied
      exact copied ▸ same_objects_refl machine
  | succ count ih =>
      obtain ⟨_, _, copied⟩ := Trap.bind_eq_ok.mp copied
      obtain ⟨middle, stored, copied⟩ := Trap.bind_eq_ok.mp copied
      exact same_objects_trans (store_byte_objects stored) (ih copied)

theorem store_registers_objects {words : List Nat} {offset : Nat}
    (stored : storeRegisters machine offset words = .ok next) : SameObjects machine next := by
  induction words generalizing machine offset with
  | nil =>
      rw [storeRegisters, Except.ok.injEq] at stored
      exact stored ▸ same_objects_refl machine
  | cons word words ih =>
      obtain ⟨middle, first, stored⟩ := Trap.bind_eq_ok.mp stored
      exact same_objects_trans (store_word_objects first) (ih stored)

theorem save_context_objects {context : Context} (saved : saveContext machine context = .ok next) :
    SameObjects machine next := by
  obtain ⟨_, first, saved⟩ := Trap.bind_eq_ok.mp saved
  obtain ⟨_, second, saved⟩ := Trap.bind_eq_ok.mp saved
  obtain ⟨_, third, saved⟩ := Trap.bind_eq_ok.mp saved
  obtain ⟨_, fourth, saved⟩ := Trap.bind_eq_ok.mp saved
  exact same_objects_trans (store_registers_objects first) (same_objects_trans (store_word_objects second)
    (same_objects_trans (store_word_objects third) (same_objects_trans (store_word_objects fourth)
      (store_bytes_objects saved))))

theorem alloc_page_objects (completed : allocPage machine vaddr flags = .ok next) :
    SameObjects machine next := by
  obtain ⟨⟨frame, first⟩, allocated, completed⟩ := Trap.bind_eq_ok.mp completed
  obtain ⟨⟨mapped, second⟩, mapping, completed⟩ := Trap.bind_eq_ok.mp completed
  obtain ⟨_, _, completed⟩ := Trap.bind_eq_ok.mp completed
  simp only [Trap.pure_ok, Except.ok.injEq] at completed
  exact completed ▸ same_objects_trans (alloc_frame_objects allocated) (map_page_objects mapping)

theorem link_page_objects {src : Nat} (completed : linkPage machine vaddr src = .ok next) :
    SameObjects machine next := by
  obtain ⟨_, _, completed⟩ := Trap.bind_eq_ok.mp completed
  obtain ⟨⟨mapped, middle⟩, mapping, completed⟩ := Trap.bind_eq_ok.mp completed
  obtain ⟨_, _, completed⟩ := Trap.bind_eq_ok.mp completed
  simp only [Trap.pure_ok, Except.ok.injEq] at completed
  exact completed ▸ map_page_objects mapping

theorem clear_entries_objects {dir i : Nat} (cleared : clearEntries machine dir i count = .ok next) :
    SameObjects machine next := by
  induction count generalizing machine i with
  | zero =>
      rw [clearEntries, Except.ok.injEq] at cleared
      exact cleared ▸ same_objects_refl machine
  | succ count ih =>
      obtain ⟨middle, stored, cleared⟩ := Trap.bind_eq_ok.mp cleared
      exact same_objects_trans (store_word_objects stored) (ih cleared)

theorem copy_entries_objects {dir i : Nat} (copied : copyEntries machine dir i count = .ok next) :
    SameObjects machine next := by
  induction count generalizing machine i with
  | zero =>
      rw [copyEntries, Except.ok.injEq] at copied
      exact copied ▸ same_objects_refl machine
  | succ count ih =>
      obtain ⟨_, _, copied⟩ := Trap.bind_eq_ok.mp copied
      obtain ⟨middle, stored, copied⟩ := Trap.bind_eq_ok.mp copied
      exact same_objects_trans (store_word_objects stored) (ih copied)

theorem kernel_alloc_objects {pages ptr : Nat} (completed : kernelAlloc machine pages = .ok (ptr, next)) :
    next.processTree = machine.processTree ∧ next.pageDirPaddr = machine.pageDirPaddr ∧
      heapAlloc machine.kernelHeap pages = .ok (ptr, next.kernelHeap) := by
  obtain ⟨⟨vaddr, heap, middle⟩, allocated, finished⟩ := Trap.bind_eq_ok.mp completed
  simp only [Trap.pure_ok, Except.ok.injEq, Prod.mk.injEq] at finished
  obtain ⟨rfl, rfl⟩ := finished
  obtain ⟨_, _, allocated⟩ := Trap.bind_eq_ok.mp allocated
  obtain ⟨⟨place, marked⟩, found, allocated⟩ := Trap.bind_eq_ok.mp allocated
  obtain ⟨backed, backing, allocated⟩ := Trap.bind_eq_ok.mp allocated
  simp only [Trap.pure_ok, Except.ok.injEq, Prod.mk.injEq] at allocated
  obtain ⟨rfl, rfl, rfl⟩ := allocated
  have kept := alloc_pages_objects backing
  exact ⟨kept.processTree, kept.pageDirPaddr, found⟩

/-- `new_page_dir` takes a page of the kernel's heap and gives it back. -/
theorem new_page_dir_objects {frame : Nat} (completed : newPageDir machine = .ok (frame, next)) :
    next.processTree = machine.processTree ∧ next.pageDirPaddr = machine.pageDirPaddr ∧
      ∃ ptr marked freedCount, heapAlloc machine.kernelHeap 1 = .ok (ptr, marked) ∧
        heapFree marked ptr = .ok (freedCount, next.kernelHeap) := by
  obtain ⟨⟨dir, allocated⟩, allocating, completed⟩ := Trap.bind_eq_ok.mp completed
  obtain ⟨cleared, clearing, completed⟩ := Trap.bind_eq_ok.mp completed
  obtain ⟨copied, copying, completed⟩ := Trap.bind_eq_ok.mp completed
  obtain ⟨_, _, completed⟩ := Trap.bind_eq_ok.mp completed
  obtain ⟨linked, linking, completed⟩ := Trap.bind_eq_ok.mp completed
  obtain ⟨_, _, completed⟩ := Trap.bind_eq_ok.mp completed
  obtain ⟨filled, filling, completed⟩ := Trap.bind_eq_ok.mp completed
  obtain ⟨⟨freedCount, heap⟩, freeing, completed⟩ := Trap.bind_eq_ok.mp completed
  obtain ⟨⟨removed, unmapped⟩, unmapping, completed⟩ := Trap.bind_eq_ok.mp completed
  obtain ⟨tree, dirs, found⟩ := kernel_alloc_objects allocating
  have written := same_objects_trans (clear_entries_objects clearing)
    (same_objects_trans (copy_entries_objects copying)
      (same_objects_trans (store_word_objects linking) (store_word_objects filling)))
  have last := unmap_page_objects unmapping
  cases removed with
  | none => cases completed
  | some entry =>
      simp only [Trap.pure_ok, Except.ok.injEq, Prod.mk.injEq] at completed
      obtain ⟨_, rfl⟩ := completed
      have heaps : unmapped.kernelHeap = heap := last.kernelHeap
      refine ⟨last.processTree.trans (written.processTree.trans tree),
        last.pageDirPaddr.trans (written.pageDirPaddr.trans dirs), dir, _, freedCount, found, ?_⟩
      rw [heaps, ← written.kernelHeap]
      exact freeing

theorem alloc_section_objects {size start stop : Nat}
    (completed : allocSection machine size start stop flags = .ok next) : SameObjects machine next := by
  unfold allocSection at completed
  split_ifs at completed
  · exact alloc_pages_objects completed
  · rw [Except.ok.injEq] at completed
    exact completed ▸ same_objects_refl machine

theorem alloc_sections_objects {entry : SunEntry} (completed : allocSections machine entry = .ok next) :
    SameObjects machine next := by
  obtain ⟨_, text, completed⟩ := Trap.bind_eq_ok.mp completed
  obtain ⟨_, rodata, completed⟩ := Trap.bind_eq_ok.mp completed
  obtain ⟨_, data, completed⟩ := Trap.bind_eq_ok.mp completed
  obtain ⟨_, bss, completed⟩ := Trap.bind_eq_ok.mp completed
  obtain ⟨_, stack, completed⟩ := Trap.bind_eq_ok.mp completed
  exact same_objects_trans (alloc_pages_objects text) (same_objects_trans (alloc_section_objects rodata)
    (same_objects_trans (alloc_section_objects data) (same_objects_trans (alloc_section_objects bss)
      (same_objects_trans (alloc_pages_objects stack) (alloc_pages_objects completed)))))

theorem load_sections_objects {entry : SunEntry} (completed : loadSections machine entry = .ok next) :
    SameObjects machine next := by
  obtain ⟨_, text, completed⟩ := Trap.bind_eq_ok.mp completed
  obtain ⟨_, rodata, completed⟩ := Trap.bind_eq_ok.mp completed
  obtain ⟨_, data, completed⟩ := Trap.bind_eq_ok.mp completed
  exact same_objects_trans (store_bytes_objects text) (same_objects_trans (store_bytes_objects rodata)
    (same_objects_trans (store_bytes_objects data) (store_bytes_objects completed)))

theorem mailbox_init_objects {start : Nat} (completed : mailboxInit machine start flags = .ok next) :
    SameObjects machine next := by
  obtain ⟨_, sizes, completed⟩ := Trap.bind_eq_ok.mp completed
  obtain ⟨_, head, completed⟩ := Trap.bind_eq_ok.mp completed
  obtain ⟨_, tail, completed⟩ := Trap.bind_eq_ok.mp completed
  obtain ⟨_, first, completed⟩ := Trap.bind_eq_ok.mp completed
  obtain ⟨_, last, completed⟩ := Trap.bind_eq_ok.mp completed
  obtain ⟨_, copy, completed⟩ := Trap.bind_eq_ok.mp completed
  obtain ⟨_, page, completed⟩ := Trap.bind_eq_ok.mp completed
  exact same_objects_trans (store_bytes_objects sizes) (same_objects_trans (store_word_objects head)
    (same_objects_trans (store_word_objects tail) (same_objects_trans (store_word_objects first)
      (same_objects_trans (store_word_objects last) (same_objects_trans (store_word_objects copy)
        (same_objects_trans (alloc_page_objects page) (link_page_objects completed)))))))

theorem pcb_heap_init_objects {heapStart pageCount : Nat}
    (completed : pcbHeapInit machine heapStart pageCount flags = .ok next) : SameObjects machine next := by
  obtain ⟨_, _, completed⟩ := Trap.bind_eq_ok.mp completed
  obtain ⟨_, pages, completed⟩ := Trap.bind_eq_ok.mp completed
  obtain ⟨_, map, completed⟩ := Trap.bind_eq_ok.mp completed
  obtain ⟨_, first, completed⟩ := Trap.bind_eq_ok.mp completed
  obtain ⟨_, second, completed⟩ := Trap.bind_eq_ok.mp completed
  exact same_objects_trans (alloc_pages_objects pages) (same_objects_trans (store_bytes_objects map)
    (same_objects_trans (store_word_objects first) (same_objects_trans (store_word_objects second)
      (store_word_objects completed))))

theorem pcb_init_objects {entry : SunEntry} {pageDir arg : Nat}
    (completed : pcbInit machine entry pageDir arg = .ok next) : SameObjects machine next := by
  obtain ⟨_, brk, completed⟩ := Trap.bind_eq_ok.mp completed
  obtain ⟨_, eip, completed⟩ := Trap.bind_eq_ok.mp completed
  obtain ⟨_, esp, completed⟩ := Trap.bind_eq_ok.mp completed
  obtain ⟨_, eflags, completed⟩ := Trap.bind_eq_ok.mp completed
  obtain ⟨_, dir, completed⟩ := Trap.bind_eq_ok.mp completed
  obtain ⟨_, eax, completed⟩ := Trap.bind_eq_ok.mp completed
  obtain ⟨_, fpu, completed⟩ := Trap.bind_eq_ok.mp completed
  obtain ⟨_, mailbox, completed⟩ := Trap.bind_eq_ok.mp completed
  exact same_objects_trans (store_word_objects brk) (same_objects_trans (store_word_objects eip)
    (same_objects_trans (store_word_objects esp) (same_objects_trans (store_word_objects eflags)
      (same_objects_trans (store_word_objects dir) (same_objects_trans (store_word_objects eax)
        (same_objects_trans (store_bytes_objects fpu) (same_objects_trans (mailbox_init_objects mailbox)
          (pcb_heap_init_objects completed))))))))

/-- The address space of a new process is made like a directory alone. -/
theorem make_space_objects {entry : SunEntry} {arg frame : Nat}
    (completed : makeSpace machine entry arg = .ok (frame, next)) :
    ∃ middle, newPageDir machine = .ok (frame, middle) ∧ SameObjects middle next := by
  obtain ⟨⟨pageDir, middle⟩, made, completed⟩ := Trap.bind_eq_ok.mp completed
  obtain ⟨_, allocated, completed⟩ := Trap.bind_eq_ok.mp completed
  obtain ⟨_, loaded, completed⟩ := Trap.bind_eq_ok.mp completed
  obtain ⟨_, controlled, completed⟩ := Trap.bind_eq_ok.mp completed
  simp only [Trap.pure_ok, Except.ok.injEq, Prod.mk.injEq] at completed
  obtain ⟨rfl, rfl⟩ := completed
  exact ⟨middle, made, same_objects_trans (set_page_dir_objects middle pageDir)
    (same_objects_trans (alloc_sections_objects allocated) (same_objects_trans
      (load_sections_objects loaded) (same_objects_trans (pcb_init_objects controlled)
        (set_page_dir_objects _ _))))⟩

end Machines

end ParadiseOS.ProcessFrames
