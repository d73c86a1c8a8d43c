import ParadiseOS.BootModel
import ParadiseOS.PagingSteps

/-!
# The paging structures of boot.s

The boot directory has its one table twice, for the low addresses and for the kernel's,
and itself in the last entry. The table maps the physical memory up to the kernel's end
in order. A kernel that fills the table leaves no place for the window behind it.
-/

namespace ParadiseOS.BootTables

open BootModel MachineWord PagingModel PagingSteps TwoLevelPaging
open ProcessModel (alignNextPage)

set_option autoImplicit false

section Filling

variable {memory : Memory} {addr table index entry count : Nat}

theorem fill_entries_outside (tableAligned : table % 4 = 0) (addrAligned : addr % 4 = 0)
    (outside : addr < table + 4 * index ∨ table + 4 * (index + count) ≤ addr) :
    readWord (fillEntries table index entry count memory) addr = readWord memory addr := by
  induction count generalizing index entry memory with
  | zero => rfl
  | succ count ih =>
      rw [fillEntries, ih (by omega)]
      exact read_write_aligned (by omega) addrAligned (by omega)

theorem fill_entries_word (tableAligned : table % 4 = 0) (room : entry + 4096 * count ≤ 4294967296)
    {position : Nat} (inside : position < count) :
    readWord (fillEntries table index entry count memory) (table + 4 * (index + position)) =
      entry + 4096 * position := by
  induction count generalizing index entry memory position with
  | zero => exact absurd inside (Nat.not_lt_zero _)
  | succ count ih =>
      rw [fillEntries]
      cases position with
      | zero =>
          rw [fill_entries_outside tableAligned (by omega) (by omega)]
          exact read_write_same (by omega)
      | succ position =>
          have wrapped : u32 (entry + pageSize) = entry + 4096 ∨ count = 0 := by
            unfold u32 pageSize
            omega
          rcases wrapped with same | none
          · have place : table + 4 * (index + (position + 1)) = table + 4 * (index + 1 + position) := by
              omega
            rw [same, place, ih (by omega) (by omega)]
            omega
          · omega

end Filling

section Image

variable (image : Image)

theorem image_places : kernelStartPaddr = 0x100000 ∧ image.pageDirectory + 8192 = image.endPaddr ∧
    image.bootPageTable = image.pageDirectory + 4096 ∧ image.pageDirectory % 4096 = 0 ∧
    0x101000 ≤ image.pageDirectory := by
  have behind := image.behind
  have aligned := image.aligned
  unfold kernelStartPaddr pageSize at behind
  unfold kernelStartPaddr Image.pageDirectory Image.bootPageTable pageSize
  omega

theorem kernel_pages_eq : kernelPages image = image.endPaddr / 4096 - 256 := by
  have behind := image.behind
  have aligned := image.aligned
  have bounded := image.bounded
  unfold kernelStartPaddr pageSize at behind
  rw [kernelPages, Nat.shiftRight_eq_div_pow]
  unfold Image.endVaddr kernelOffset kernelStartPaddr sub32 u32
  omega

theorem clear_tables_word {memory : Memory} {addr count : Nat} (aligned : addr % 4 = 0) :
    readWord (clearTables image count memory) addr =
      if (image.pageDirectory ≤ addr ∧ addr < image.pageDirectory + 4 * count) ∨
          (image.bootPageTable ≤ addr ∧ addr < image.bootPageTable + 4 * count) then 0
      else readWord memory addr := by
  obtain ⟨_, _, table, directoryAligned, _⟩ := image_places image
  induction count generalizing memory with
  | zero =>
      rw [clearTables, if_neg (by omega)]
  | succ ecx ih =>
      have written : readWord (writeWord (writeWord memory (image.pageDirectory + 4 * ecx) 0)
          (image.bootPageTable + 4 * ecx) 0) addr =
          if addr = image.pageDirectory + 4 * ecx ∨ addr = image.bootPageTable + 4 * ecx then 0
          else readWord memory addr := by
        by_cases second : addr = image.bootPageTable + 4 * ecx
        · rw [if_pos (.inr second), second]
          exact read_write_same (by decide)
        · rw [read_write_aligned (by omega) aligned second]
          by_cases first : addr = image.pageDirectory + 4 * ecx
          · rw [if_pos (.inl first), first]
            exact read_write_same (by decide)
          · rw [if_neg (not_or.2 ⟨first, second⟩)]
            exact read_write_aligned (by omega) aligned first
      rw [clearTables, ih, written]
      split_ifs
      all_goals first
        | rfl
        | omega

end Image

/-- The machine runs under the directory and the table of `boot.s`. -/
structure BootPaging (image : Image) (machine : Machine) : Prop where
  cr3 : machine.cr3 = image.pageDirectory
  current : machine.currentPageDir = image.pageDirectory
  directory : ∀ index < 1024, directoryEntry machine.memory image.pageDirectory index =
    if index = 0 ∨ index = 0x300 then image.bootPageTable + 1
    else if index = 1023 then image.pageDirectory + 1 else 0
  table : ∀ position < 1024, readWord machine.memory (image.bootPageTable + 4 * position) =
    if 4096 * position < image.endPaddr then 4096 * position + 1 else 0

section Start

variable {image : Image} {machine next : Machine} {memory : Memory}

/-- `start` refuses a kernel that does not fit behind the lower memory in one table. -/
theorem start_ok (small : image.endPaddr ≤ 0x400000) :
    start image machine.memory = .ok (fillEntries image.bootPageTable 256 0x100001 (kernelPages image)
      (fillEntries image.bootPageTable 0 1 256
        (writeWord (writeWord (writeWord (clearTables image 1024 machine.memory)
          (image.pageDirectory + 4 * 1023) (image.pageDirectory + 1))
          (image.pageDirectory + 4 * 0x300) (image.bootPageTable + 1))
          image.pageDirectory (image.bootPageTable + 1)))) := by
  have fits : ¬ 0x300 < kernelPages image := by
    rw [kernel_pages_eq]
    omega
  have kernelIndex : ((kernelStartPaddr + kernelOffset) >>> 12) &&& 0x3FF = 256 := by decide
  have kernelEntry : kernelStartPaddr ||| 1 = 0x100001 := by decide
  have kernelDirectory : kernelOffset >>> 22 = 0x300 := by decide
  rw [start, Trap.kernel_assert_of fits, kernelIndex, kernelEntry, kernelDirectory]
  rfl

theorem start_refuses (large : 0x400000 < image.endPaddr) :
    start image memory = .error .assertion := by
  have aligned := image.aligned
  have refused : ¬ ¬ 0x300 < kernelPages image := by
    rw [kernel_pages_eq]
    omega
  rw [start, kernelAssert, if_neg refused]
  rfl

theorem booted_size (completed : booted image machine = .ok next) : image.endPaddr ≤ 0x400000 := by
  by_contra large
  rw [booted, start_refuses (by omega)] at completed
  cases completed

theorem booted_tables (completed : booted image machine = .ok next) : BootPaging image next := by
  have small := booted_size completed
  obtain ⟨_, ends, place, aligned, low⟩ := image_places image
  have pages := kernel_pages_eq image
  rw [booted, start_ok small, Trap.ok_bind, Trap.pure_ok, Except.ok.injEq] at completed
  subst completed
  refine ⟨rfl, rfl, ?_, ?_⟩
  · intro index bounded
    rw [directoryEntry, fill_entries_outside (by omega) (by omega) (by omega),
      fill_entries_outside (by omega) (by omega) (by omega)]
    by_cases isLow : index = 0
    · have word : image.bootPageTable + 1 < 4294967296 := by omega
      have first : image.pageDirectory + 4 * 0 = image.pageDirectory := by omega
      rw [if_pos (.inl isLow), isLow, first, read_write_same word]
    · rw [read_write_aligned (by omega) (by omega) (by omega)]
      by_cases isKernel : index = 0x300
      · rw [if_pos (.inr isKernel), isKernel]
        exact read_write_same (by omega)
      · rw [if_neg (by omega), read_write_aligned (by omega) (by omega) (by omega)]
        by_cases isLast : index = 1023
        · rw [if_pos isLast, isLast]
          exact read_write_same (by omega)
        · rw [if_neg isLast, read_write_aligned (by omega) (by omega) (by omega),
            clear_tables_word image (by omega)]
          exact if_pos (by omega)
  · intro position bounded
    by_cases inLow : position < 256
    · have word := @fill_entries_word (writeWord (writeWord (writeWord
          (clearTables image 1024 machine.memory)
          (image.pageDirectory + 4 * 1023) (image.pageDirectory + 1))
          (image.pageDirectory + 4 * 0x300) (image.bootPageTable + 1))
          image.pageDirectory (image.bootPageTable + 1)) image.bootPageTable 0 1 256 (by omega)
          (by decide) position inLow
      rw [Nat.zero_add] at word
      rw [fill_entries_outside (by omega) (by omega) (by omega), word, if_pos (by omega)]
      omega
    · by_cases inKernel : position < 256 + kernelPages image
      · obtain ⟨offset, rfl⟩ := Nat.exists_eq_add_of_le (Nat.not_lt.1 inLow)
        rw [fill_entries_word (by omega) (by omega) (by omega), if_pos (by omega)]
        omega
      · rw [fill_entries_outside (by omega) (by omega) (by omega),
          fill_entries_outside (by omega) (by omega) (by omega),
          read_write_aligned (by omega) (by omega) (by omega),
          read_write_aligned (by omega) (by omega) (by omega),
          read_write_aligned (by omega) (by omega) (by omega), clear_tables_word image (by omega),
          if_pos (by omega), if_neg (by omega)]

theorem boot_self_mapped (tables : BootPaging image machine) : SelfMapped machine.memory machine.cr3 := by
  obtain ⟨_, ends, place, aligned, low⟩ := image_places image
  have bounded := image.bounded
  have last := tables.directory 1023 (by decide)
  rw [if_neg (by decide), if_pos rfl] at last
  rw [SelfMapped, tables.cr3, last]
  unfold Present frameOf
  omega

end Start

section Window

variable {image : Image} {machine next : Machine}

/-- The page behind the kernel. -/
theorem window_addr (image : Image) : alignNextPage (sub32 image.endVaddr 1) = image.endVaddr := by
  have aligned := image.aligned
  have bounded := image.bounded
  have behind := image.behind
  unfold kernelStartPaddr pageSize at behind
  unfold alignNextPage Image.endVaddr kernelOffset sub32 u32 pageSize
  omega

/-- Where the kernel fills the boot table, the page behind it has no table. -/
theorem init_free_list_page_refuses (tables : BootPaging image machine)
    (full : image.endPaddr = 0x400000) : initFreeListPage image machine = .error .assertion := by
  have page : image.endVaddr = 0xC0400000 := by
    rw [Image.endVaddr, full]
    rfl
  have selfMapped := boot_self_mapped tables
  have entry : directoryEntry machine.memory machine.cr3 0x301 = 0 := by
    rw [tables.cr3, tables.directory 0x301 (by decide)]
    rfl
  have index : getPdIndex 0xC0400000 = 0x301 := by decide
  rw [initFreeListPage, initFreeListPageBehind, window_addr, page]
  dsimp only
  rw [index]
  have read : pde { machine with freeListHeadPte := pteAddr 0x301 (getPtIndex 0xC0400000) } 0x301 =
      .ok 0 := entry ▸ pde_ok selfMapped (by decide)
  rw [read, Trap.ok_bind]
  rfl

theorem init_free_list_page_ok (tables : BootPaging image machine) (small : image.endPaddr < 0x400000) :
    initFreeListPage image machine = .ok { machine with
      freeListHeadPte := 0xFFC00000 + 4 * (image.endVaddr / 4096)
      freeListHead := image.endVaddr } := by
  obtain ⟨_, ends, place, aligned, low⟩ := image_places image
  have selfMapped := boot_self_mapped tables
  have whole := image.aligned
  have isPage : image.endVaddr / 4096 = 0xC0000 + image.endPaddr / 4096 := by
    unfold Image.endVaddr kernelOffset
    omega
  have index : image.endVaddr / 4096 / 1024 = 0x300 := by omega
  have entry : directoryEntry machine.memory machine.cr3 0x300 = image.bootPageTable + 1 := by
    rw [tables.cr3, tables.directory 0x300 (by decide)]
    rfl
  have present : Present (image.bootPageTable + 1) := by
    unfold Present
    omega
  have isSlot : slot machine.memory machine.cr3 (image.endVaddr / 4096) =
      image.bootPageTable + 4 * (image.endPaddr / 4096) := by
    rw [slot, index, entry]
    unfold frameOf
    omega
  have free : readWord machine.memory (slot machine.memory machine.cr3 (image.endVaddr / 4096)) = 0 := by
    rw [isSlot, tables.table _ (by omega), if_neg (by omega)]
  have isPte : pteAddr 0x300 (image.endVaddr / 4096 % 1024) = 0xFFC00000 + 4 * (image.endVaddr / 4096) := by
    rw [← index]
    exact pte_addr_page (by omega)
  obtain ⟨middle, isMiddle⟩ : ∃ middle : Machine, middle = { machine with
      freeListHeadPte := 0xFFC00000 + 4 * (image.endVaddr / 4096) } := ⟨_, rfl⟩
  have read : pde middle 0x300 = .ok (image.bootPageTable + 1) := by
    rw [isMiddle, ← entry]
    exact pde_ok selfMapped (by decide)
  have seen : loadWord middle (0xFFC00000 + 4 * (image.endVaddr / 4096)) = .ok 0 := by
    rw [isMiddle, ← free]
    exact load_word_at (translate_self_map selfMapped (by omega) (by
      rw [index, entry]
      exact present)) (by omega) (by omega)
  rw [initFreeListPage, initFreeListPageBehind, window_addr]
  dsimp only
  rw [get_pd_index_page, get_pt_index_page, index, isPte, ← isMiddle, read, Trap.ok_bind,
    Trap.kernel_assert_of ((entry_present_iff _).2 present), Trap.ok_bind, seen, Trap.ok_bind,
    Trap.kernel_assert_of (by decide), Trap.ok_bind]
  rfl

end Window
end ParadiseOS.BootTables
