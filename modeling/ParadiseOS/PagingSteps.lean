import ParadiseOS.PagingModel

/-!
# What the page-table functions do to physical memory

Under a directory that maps itself, the words at `PDE` and `PTE` are words of
physical memory, and `get_entry`, `map_page` and `unmap_page` read and write the
slot of a page. `alloc_frame` and `free_frame` pop and push the stack of free
frames through the window page, which all directories share.
-/

namespace ParadiseOS.PagingSteps

open MachineWord PagingModel TwoLevelPaging

set_option autoImplicit false

section Arithmetic

variable {vaddr paddr flags entry : Nat}

theorem get_pd_index_page (vaddr : Nat) : getPdIndex vaddr = vaddr / 4096 / 1024 := by
  rw [getPdIndex, Nat.shiftRight_eq_div_pow, Nat.div_div_eq_div_mul]

theorem get_pt_index_page (vaddr : Nat) : getPtIndex vaddr = vaddr / 4096 % 1024 := by
  rw [getPtIndex, Nat.shiftRight_eq_div_pow]
  exact Nat.and_two_pow_sub_one_eq_mod _ 10

theorem pte_addr_page {page : Nat} (bounded : page < 1048576) :
    pteAddr (page / 1024) (page % 1024) = 0xFFC00000 + 4 * page := by
  unfold pteAddr pageTableEntries u32
  omega

theorem pte_addr_table {index : Nat} (bounded : index < 1024) :
    pteAddr index 0 = 0xFFC00000 + 4 * (1024 * index) := by
  unfold pteAddr pageTableEntries u32
  omega

theorem pde_addr_page {index : Nat} (bounded : index < 1024) :
    pdeAddr index = 0xFFC00000 + 4 * (1023 * 1024 + index) := by
  unfold pdeAddr pageDirectoryEntries u32
  omega

theorem entry_present_iff (entry : Nat) : entryPresent entry ↔ Present entry := by
  unfold entryPresent Present
  rw [and_one]
  omega

theorem get_paddr_frame (bounded : entry < 4294967296) : getPaddr entry = frameOf entry :=
  and_high_mask bounded

theorem get_flags_mod (entry : Nat) : getFlags entry = entry % 4096 := and_low_mask entry

theorem or_one_mod_two (n : Nat) : (n ||| 1) % 2 = 1 := by
  rw [← Nat.and_one_is_mod, Nat.and_or_distrib_right]
  have parity := Nat.and_one_is_mod n
  rcases Nat.mod_two_eq_zero_or_one n with even | odd
  · rw [parity, even]
    rfl
  · rw [parity, odd]
    rfl

theorem or_one_of_odd {n : Nat} (odd : n % 2 = 1) : n ||| 1 = n := by
  have half : (n ||| 1) / 2 = n / 2 := by
    rw [Nat.or_div_two]
    exact Nat.or_zero _
  have parity := or_one_mod_two n
  omega

theorem flags_or_lt (small : flags < 4096) : flags ||| 1 < 4096 :=
  Nat.or_lt_two_pow (n := 12) small (by decide)

theorem create_entry_eq (bounded : paddr < 4294967296) (small : flags < 4096) :
    createEntry paddr flags = frameOf paddr + (flags ||| 1) := by
  rw [createEntry, and_high_mask bounded, Nat.or_assoc]
  exact aligned_or (Nat.mul_mod_left _ _) (flags_or_lt small)

theorem create_entry_lt (bounded : paddr < 4294967296) (small : flags < 4096) :
    createEntry paddr flags < 4294967296 := by
  have low := flags_or_lt small
  rw [create_entry_eq bounded small, frameOf]
  omega

theorem create_entry_present (paddr flags : Nat) : Present (createEntry paddr flags) :=
  or_one_mod_two _

theorem create_entry_frame (bounded : paddr < 4294967296) (small : flags < 4096) :
    frameOf (createEntry paddr flags) = frameOf paddr := by
  have low := flags_or_lt small
  rw [create_entry_eq bounded small]
  unfold frameOf
  omega

theorem create_entry_flags (bounded : paddr < 4294967296) (small : flags < 4096) :
    createEntry paddr flags % 4096 = flags ||| 1 := by
  have low := flags_or_lt small
  rw [create_entry_eq bounded small]
  unfold frameOf
  omega

theorem user_mask_iff (n : Nat) : n &&& 4 ≠ 0 ↔ UserMode n := by
  have bit : n &&& 4 = (n.testBit 2).toNat * 4 := Nat.and_two_pow n 2
  rw [bit, Nat.testBit_eq_decide_div_mod_eq, UserMode]
  by_cases set : n / 4 % 2 = 1
  · simp [set]
  · simp [set]

theorem user_mode_test_bit (n : Nat) : UserMode n ↔ n.testBit 2 = true := by
  rw [Nat.testBit_eq_decide_div_mod_eq, UserMode, decide_eq_true_iff]

theorem writable_test_bit (n : Nat) : Writable n ↔ n.testBit 1 = true := by
  rw [Nat.testBit_eq_decide_div_mod_eq, Writable, decide_eq_true_iff]

/-- An entry is in reach of users if its flags say so. -/
theorem create_entry_user (paddr flags : Nat) : UserMode (createEntry paddr flags) ↔ UserMode flags := by
  have mask : Nat.testBit 0xFFFFF000 2 = false := by decide
  have one : Nat.testBit 1 2 = false := by decide
  rw [user_mode_test_bit, user_mode_test_bit, createEntry, Nat.testBit_or, Nat.testBit_or,
    Nat.testBit_and, mask, one, Bool.and_false, Bool.false_or, Bool.or_false]

theorem create_entry_writable (paddr flags : Nat) :
    Writable (createEntry paddr flags) ↔ Writable flags := by
  have mask : Nat.testBit 0xFFFFF000 1 = false := by decide
  have one : Nat.testBit 1 1 = false := by decide
  rw [writable_test_bit, writable_test_bit, createEntry, Nat.testBit_or, Nat.testBit_or,
    Nat.testBit_and, mask, one, Bool.and_false, Bool.false_or, Bool.or_false]

theorem get_flags_user_iff (entry : Nat) : getFlags entry &&& 4 ≠ 0 ↔ UserMode entry := by
  rw [user_mask_iff, get_flags_mod, UserMode, UserMode]
  omega

/-- A present entry is put together again from its address and its flags. -/
theorem create_entry_restores (bounded : entry < 4294967296) (present : Present entry) :
    createEntry (getPaddr entry) (getFlags entry) = entry := by
  have one : entry % 4096 ||| 1 = entry % 4096 := by
    apply or_one_of_odd
    unfold Present at present
    omega
  have frame : frameOf entry < 4294967296 := by
    unfold frameOf
    omega
  rw [get_paddr_frame bounded, get_flags_mod, create_entry_eq frame (Nat.mod_lt _ (by decide)), one]
  unfold frameOf
  omega

end Arithmetic

section Access

variable {machine : Machine} {vaddr paddr page index word : Nat}

/-- A load inside one page reads a word of memory. -/
theorem load_word_at (found : translate machine.memory machine.cr3 vaddr = some paddr)
    (inside : vaddr % 4096 ≤ 4092) (bounded : vaddr < 4294967296) :
    loadWord machine vaddr = .ok (readWord machine.memory paddr) := by
  have second := translate_offset 1 found (by omega)
  have third := translate_offset 2 found (by omega)
  have fourth := translate_offset 3 found (by omega)
  rw [loadWord, u32_of_lt (by omega), u32_of_lt (by omega), u32_of_lt (by omega)]
  simp only [physical, found, second, third, fourth, Trap.ok_bind]
  rfl

theorem store_word_at (found : translate machine.memory machine.cr3 vaddr = some paddr)
    (inside : vaddr % 4096 ≤ 4092) (bounded : vaddr < 4294967296) :
    storeWord machine vaddr word =
      .ok { machine with memory := writeWord machine.memory paddr word } := by
  have second := translate_offset 1 found (by omega)
  have third := translate_offset 2 found (by omega)
  have fourth := translate_offset 3 found (by omega)
  rw [storeWord, u32_of_lt (by omega), u32_of_lt (by omega), u32_of_lt (by omega)]
  simp only [physical, found, second, third, fourth, Trap.ok_bind]
  rfl

theorem load_word_absent (absent : ¬ Present (pageEntry machine.memory machine.cr3 (vaddr / 4096))) :
    loadWord machine vaddr = .error .pageFault := by
  have missing : translate machine.memory machine.cr3 vaddr = none := if_neg absent
  rw [loadWord, physical, missing]
  rfl

variable (selfMapped : SelfMapped machine.memory machine.cr3)

include selfMapped

theorem pte_ok (bounded : page < 1048576)
    (present : Present (directoryEntry machine.memory machine.cr3 (page / 1024))) :
    pte machine (page / 1024) (page % 1024) =
      .ok (readWord machine.memory (slot machine.memory machine.cr3 page)) := by
  rw [pte, pte_addr_page bounded]
  exact load_word_at (translate_self_map selfMapped bounded present) (by omega) (by omega)

theorem set_pte_ok (bounded : page < 1048576)
    (present : Present (directoryEntry machine.memory machine.cr3 (page / 1024))) :
    setPte machine (page / 1024) (page % 1024) word =
      .ok { machine with
        memory := writeWord machine.memory (slot machine.memory machine.cr3 page) word } := by
  rw [setPte, pte_addr_page bounded]
  exact store_word_at (translate_self_map selfMapped bounded present) (by omega) (by omega)

theorem directory_slot (bounded : index < 1024) :
    translate machine.memory machine.cr3 (0xFFC00000 + 4 * (1023 * 1024 + index)) =
      some (machine.cr3 + 4 * index) := by
  have outer : (1023 * 1024 + index) / 1024 = 1023 := by omega
  have inner : (1023 * 1024 + index) % 1024 = index := by omega
  have present : Present (directoryEntry machine.memory machine.cr3 ((1023 * 1024 + index) / 1024)) := by
    rw [outer]
    exact selfMapped.1
  rw [translate_self_map selfMapped (by omega) present, slot, outer, inner, selfMapped.2]

theorem pde_ok (bounded : index < 1024) :
    pde machine index = .ok (directoryEntry machine.memory machine.cr3 index) := by
  rw [pde, pde_addr_page bounded]
  exact load_word_at (directory_slot selfMapped bounded) (by omega) (by omega)

theorem set_pde_ok (bounded : index < 1024) :
    setPde machine index word =
      .ok { machine with memory := writeWord machine.memory (machine.cr3 + 4 * index) word } := by
  rw [setPde, pde_addr_page bounded]
  exact store_word_at (directory_slot selfMapped bounded) (by omega) (by omega)

/-- `get_entry` reads the entry of the page. -/
theorem get_entry_ok (bounded : vaddr < 4294967296) :
    getEntry machine vaddr = .ok (pageEntry machine.memory machine.cr3 (vaddr / 4096)) := by
  rw [getEntry, get_pd_index_page, get_pt_index_page, pde_ok selfMapped (by omega), Trap.ok_bind,
    pageEntry]
  by_cases present : Present (directoryEntry machine.memory machine.cr3 (vaddr / 4096 / 1024))
  · rw [if_neg (not_not.mpr ((entry_present_iff _).2 present)), if_pos present,
      pte_ok selfMapped (by omega) present]
  · rw [if_pos (mt (entry_present_iff _).1 present), if_neg present]
    rfl

/-- `unmap_page` clears the slot of a mapped page. -/
theorem unmap_page_ok (bounded : vaddr < 4294967296) :
    unmapPage machine vaddr =
      if Present (pageEntry machine.memory machine.cr3 (vaddr / 4096)) then
        .ok (some (pageEntry machine.memory machine.cr3 (vaddr / 4096)),
          { machine with
            memory := writeWord machine.memory (slot machine.memory machine.cr3 (vaddr / 4096)) 0 })
      else .ok (none, machine) := by
  rw [unmapPage, get_entry_ok selfMapped bounded, Trap.ok_bind]
  by_cases present : Present (pageEntry machine.memory machine.cr3 (vaddr / 4096))
  · have table := page_entry_present present
    have entry : readWord machine.memory (slot machine.memory machine.cr3 (vaddr / 4096)) =
        pageEntry machine.memory machine.cr3 (vaddr / 4096) := by rw [pageEntry, if_pos table]
    have flushed : flushEntryInfo machine vaddr 0 = .ok { machine with
        memory := writeWord machine.memory (slot machine.memory machine.cr3 (vaddr / 4096)) 0 } := by
      rw [flushEntryInfo, get_pd_index_page, get_pt_index_page, pde_ok selfMapped (by omega),
        Trap.ok_bind, Trap.kernel_assert_of ((entry_present_iff _).2 table), Trap.ok_bind,
        pte_ok selfMapped (by omega) table, Trap.ok_bind, entry,
        Trap.kernel_assert_of ((entry_present_iff _).2 present), Trap.ok_bind,
        set_pte_ok selfMapped (by omega) table]
    rw [if_neg (not_not.mpr ((entry_present_iff _).2 present)), if_pos present, flushed]
    rfl
  · rw [if_pos (mt (entry_present_iff _).1 present), if_neg present]
    rfl

/-- `map_page` under a present table fills the slot of an unmapped page. -/
theorem map_page_table (bounded : vaddr < 4294967296) {flags : Nat}
    (table : Present (directoryEntry machine.memory machine.cr3 (vaddr / 4096 / 1024))) :
    mapPage machine vaddr paddr flags =
      if flags &&& 4 ≠ 0 ∧
          getFlags (directoryEntry machine.memory machine.cr3 (vaddr / 4096 / 1024)) &&& 4 = 0 then
        .error .assertion
      else if Present (pageEntry machine.memory machine.cr3 (vaddr / 4096)) then .ok (true, machine)
      else .ok (false, { machine with
        memory := writeWord machine.memory (slot machine.memory machine.cr3 (vaddr / 4096))
          (createEntry paddr flags) }) := by
  have entry : readWord machine.memory (slot machine.memory machine.cr3 (vaddr / 4096)) =
      pageEntry machine.memory machine.cr3 (vaddr / 4096) := by rw [pageEntry, if_pos table]
  have made : makePageTable machine (vaddr / 4096 / 1024) flags = .ok machine := by
    rw [makePageTable, pde_ok selfMapped (by omega), Trap.ok_bind,
      if_neg (not_not.mpr ((entry_present_iff _).2 table)), Trap.pure_ok]
  rw [mapPage, get_pd_index_page, get_pt_index_page, made, Trap.ok_bind,
    pde_ok selfMapped (by omega), Trap.ok_bind, pageUserMode]
  dsimp only
  split_ifs with refused present
  · have failed : ¬ (¬ flags &&& 4 ≠ 0 ∨
        getFlags (directoryEntry machine.memory machine.cr3 (vaddr / 4096 / 1024)) &&& 4 ≠ 0) := by
      rw [not_or, not_not, not_not]
      exact refused
    rw [kernelAssert, if_neg failed, Trap.error_bind]
  · rw [Trap.kernel_assert_of (by tauto), Trap.ok_bind, pte_ok selfMapped (by omega) table,
      Trap.ok_bind, entry, if_pos ((entry_present_iff _).2 present), Trap.pure_ok]
  · rw [Trap.kernel_assert_of (by tauto), Trap.ok_bind, pte_ok selfMapped (by omega) table,
      Trap.ok_bind, entry, if_neg (mt (entry_present_iff _).1 present),
      set_pte_ok selfMapped (by omega) table]
    rfl

end Access

section Tables

variable {machine : Machine} {index : Nat} {memory : Memory}

/-- One more word of a table is cleared. -/
theorem init_page_table_step (selfMapped : SelfMapped machine.memory machine.cr3) (low : index < 1023)
    (present : Present (directoryEntry machine.memory machine.cr3 index)) {position : Nat}
    (inside : position < 1024) :
    storeWord machine (u32 (pteAddr index 0 + u32 (4 * position))) 0 =
      .ok { machine with
        memory := writeWord machine.memory
          (frameOf (directoryEntry machine.memory machine.cr3 index) + 4 * position) 0 } := by
  have outer : (1024 * index + position) / 1024 = index := by omega
  have inner : (1024 * index + position) % 1024 = position := by omega
  have place : u32 (pteAddr index 0 + u32 (4 * position)) =
      0xFFC00000 + 4 * (1024 * index + position) := by
    rw [pte_addr_table (by omega)]
    unfold u32
    omega
  have found := translate_self_map selfMapped (show 1024 * index + position < 1048576 by omega)
    (by rw [outer]; exact present)
  rw [slot, outer, inner] at found
  rw [place]
  exact store_word_at found (by omega) (by omega)

/-- The words that are not cleared yet are the last `count` of the table. -/
theorem init_page_table_from (count : Nat) (small : count ≤ 1024)
    (selfMapped : SelfMapped machine.memory machine.cr3) (aligned : machine.cr3 % 4096 = 0)
    (low : index < 1023) (present : Present (directoryEntry machine.memory machine.cr3 index))
    (apart : frameOf (directoryEntry machine.memory machine.cr3 index) ≠ machine.cr3)
    (cleared : machine.memory = zeroBytes memory
      (frameOf (directoryEntry machine.memory machine.cr3 index)) (4 * (1024 - count))) :
    initPageTableFrom machine (pteAddr index 0) count =
      .ok { machine with
        memory := zeroFrame memory (frameOf (directoryEntry machine.memory machine.cr3 index)) } := by
  induction count generalizing machine with
  | zero =>
      rw [initPageTableFrom, zeroFrame]
      rw [Nat.sub_zero] at cleared
      rw [← cleared]
  | succ count ih =>
      have stored := init_page_table_step selfMapped low present
        (show 1023 - count < 1024 by omega)
      have same : SameOn machine.memory (writeWord machine.memory
          (frameOf (directoryEntry machine.memory machine.cr3 index) + 4 * (1023 - count)) 0)
          machine.cr3 :=
        write_same_on (frame_of_aligned _) aligned (by omega) apart.symm
      have entry := directory_entry_same_on same (show index < 1024 by omega)
      have next := @ih { machine with
          memory := writeWord machine.memory
            (frameOf (directoryEntry machine.memory machine.cr3 index) + 4 * (1023 - count)) 0 }
        (by omega) (self_mapped_same_on same selfMapped) aligned
      simp only [entry] at next
      rw [initPageTableFrom, stored, Trap.ok_bind]
      apply next present apart
      have place : 4 * (1023 - count) = 4 * (1024 - (count + 1)) := by omega
      have after : 4 * (1024 - count) = 4 * (1024 - (count + 1)) + 4 := by omega
      rw [after, ← zero_bytes_word, place]
      exact congrArg (fun rest => writeWord rest _ 0) cleared

theorem init_page_table_ok (selfMapped : SelfMapped machine.memory machine.cr3)
    (aligned : machine.cr3 % 4096 = 0) (low : index < 1023)
    (present : Present (directoryEntry machine.memory machine.cr3 index))
    (apart : frameOf (directoryEntry machine.memory machine.cr3 index) ≠ machine.cr3) :
    initPageTable machine (pteAddr index 0) =
      .ok { machine with
        memory := zeroFrame machine.memory
          (frameOf (directoryEntry machine.memory machine.cr3 index)) } :=
  init_page_table_from 1024 le_rfl selfMapped aligned low present apart zero_bytes_none.symm

end Tables

/-- The page through which the kernel sees the frame on top of the free list. -/
def windowPage (machine : Machine) : Nat := machine.freeListHead / 4096

/-- The directories of a machine, one of them current, and the window on the free list, whose
page table they share. -/
structure Spaces (machine : Machine) (roots : List Nat) : Prop where
  family : Family machine.memory roots
  current : machine.currentPageDir = machine.cr3
  member : machine.cr3 ∈ roots
  headAligned : machine.freeListHead % 4096 = 0
  headLow : machine.freeListHead < 0xFFC00000
  headPte : machine.freeListHeadPte = 0xFFC00000 + 4 * windowPage machine
  headShared : ∀ root ∈ roots, ∀ other ∈ roots,
    Shares machine.memory root other (windowPage machine)

/-- The free frames, from the top of the list. None of them holds a paging structure, and the
window shows the first. -/
structure FreeList (machine : Machine) (roots frames : List Nat) : Prop where
  linked : Linked machine.memory machine.freeFramePaddr frames
  nodup : frames.Nodup
  aligned : ∀ frame ∈ frames, frame % 4096 = 0
  positive : ∀ frame ∈ frames, 0 < frame
  bounded : ∀ frame ∈ frames, frame < 4294967296
  notRoot : ∀ frame ∈ frames, frame ∉ roots
  notTable : ∀ frame ∈ frames, ¬ IsTable machine.memory roots frame
  window : pageEntry machine.memory machine.cr3 (windowPage machine) =
    createEntry machine.freeFramePaddr pteWritable

/-- The frame holds a paging structure or is free. -/
def InUse (machine : Machine) (roots frames : List Nat) (frame : Nat) : Prop :=
  frame ∈ roots ∨ IsTable machine.memory roots frame ∨ frame ∈ frames

namespace Spaces

variable {machine : Machine} {roots : List Nat} (spaces : Spaces machine roots)

include spaces

theorem selfMapped : SelfMapped machine.memory machine.cr3 :=
  spaces.family.selfMapped _ spaces.member

theorem windowLow : windowPage machine < 1047552 := by
  have low := spaces.headLow
  unfold windowPage
  omega

theorem windowTable :
    Present (directoryEntry machine.memory machine.cr3 (windowPage machine / 1024)) :=
  (spaces.headShared _ spaces.member _ spaces.member).1

/-- Storing to `*free_list_head_pte` fills the slot of the window. -/
theorem store_head_pte (used head word : Nat) :
    storeWord { machine with usedFrames := used, freeFramePaddr := head } machine.freeListHeadPte word =
      .ok { machine with
        usedFrames := used
        freeFramePaddr := head
        memory := writeWord machine.memory
          (slot machine.memory machine.cr3 (windowPage machine)) word } := by
  have low := spaces.windowLow
  have place := spaces.headPte
  have found : translate machine.memory machine.cr3 machine.freeListHeadPte =
      some (slot machine.memory machine.cr3 (windowPage machine)) := by
    rw [spaces.headPte]
    exact translate_self_map spaces.selfMapped (by omega) spaces.windowTable
  exact store_word_at found (by omega) (by omega)

theorem window_write_roots (word : Nat) : ∀ root ∈ roots, SameOn machine.memory
    (writeWord machine.memory (slot machine.memory machine.cr3 (windowPage machine)) word) root :=
  slot_write_roots spaces.family spaces.member spaces.windowLow spaces.windowTable

/-- The window's entry is one for all directories. -/
theorem window_entry {root : Nat} (member : root ∈ roots) :
    pageEntry machine.memory root (windowPage machine) =
      pageEntry machine.memory machine.cr3 (windowPage machine) :=
  page_entry_shared (spaces.headShared _ member _ spaces.member)

end Spaces

section FreeFrames

variable {machine : Machine} {roots frames : List Nat} {frame : Nat}

theorem alloc_frame_empty (empty : machine.freeFramePaddr = 0) :
    allocFrame machine = .error .assertion := by
  have failed : kernelAssert (machine.freeFramePaddr ≠ 0) = .error .assertion :=
    if_neg (not_not.mpr empty)
  rw [allocFrame, failed, Trap.error_bind]

/-- Without the window, the next free frame cannot be read. -/
theorem alloc_frame_no_window
    (absent : ¬ Present (pageEntry machine.memory machine.cr3 (windowPage machine))) :
    ∃ trap, allocFrame machine = .error trap := by
  by_cases empty : machine.freeFramePaddr = 0
  · exact ⟨_, alloc_frame_empty empty⟩
  · refine ⟨.pageFault, ?_⟩
    rw [allocFrame, Trap.kernel_assert_of empty, Trap.ok_bind]
    have missing : loadWord { machine with usedFrames := u32 (machine.usedFrames + 1) }
        machine.freeListHead = .error .pageFault := load_word_absent absent
    simp only [missing, Trap.error_bind]

/-- The memory after the top frame has left the list. -/
def popMemory (machine : Machine) (frame : Nat) : Memory :=
  writeWord machine.memory (slot machine.memory machine.cr3 (windowPage machine))
    (createEntry (readWord machine.memory frame) pteWritable)

theorem alloc_frame_ok (spaces : Spaces machine roots)
    (free : FreeList machine roots (frame :: frames)) :
    allocFrame machine = .ok (frame,
      { machine with
        memory := popMemory machine frame
        freeFramePaddr := readWord machine.memory frame
        usedFrames := u32 (machine.usedFrames + 1) }) := by
  have top := free.linked.1
  have aligned := free.aligned frame List.mem_cons_self
  have positive := free.positive frame List.mem_cons_self
  have bounded := free.bounded frame List.mem_cons_self
  have headAligned := spaces.headAligned
  have headLow := spaces.headLow
  have shown : pageEntry machine.memory machine.cr3 (machine.freeListHead / 4096) =
      createEntry machine.freeFramePaddr pteWritable := free.window
  have found : translate machine.memory machine.cr3 machine.freeListHead = some frame := by
    rw [translate_page (by rw [shown]; exact create_entry_present _ _), shown, top,
      create_entry_frame bounded (by decide), headAligned, frameOf]
    congr 1
    omega
  have next : loadWord { machine with usedFrames := u32 (machine.usedFrames + 1) }
      machine.freeListHead = .ok (readWord machine.memory frame) :=
    load_word_at found (by omega) (by omega)
  have stored := spaces.store_head_pte (u32 (machine.usedFrames + 1)) (readWord machine.memory frame)
    (createEntry (readWord machine.memory frame) pteWritable)
  rw [allocFrame, Trap.kernel_assert_of (by omega), Trap.ok_bind]
  simp only [next, Trap.ok_bind, stored]
  rw [Trap.pure_ok, top, popMemory]
theorem is_table_pop (spaces : Spaces machine roots) (other : Nat) :
    IsTable (popMemory machine frame) roots other ↔ IsTable machine.memory roots other :=
  is_table_same_on (spaces.window_write_roots _) other

/-- The structure of the spaces depends on the frames of the directories only. -/
theorem spaces_same_on (spaces : Spaces machine roots) {next : Machine}
    (same : ∀ root ∈ roots, SameOn machine.memory next.memory root) (cr3 : next.cr3 = machine.cr3)
    (current : next.currentPageDir = machine.currentPageDir)
    (head : next.freeListHead = machine.freeListHead)
    (headPte : next.freeListHeadPte = machine.freeListHeadPte) : Spaces next roots where
  family := family_same_on spaces.family same
  current := by rw [current, cr3, spaces.current]
  member := cr3 ▸ spaces.member
  headAligned := head ▸ spaces.headAligned
  headLow := head ▸ spaces.headLow
  headPte := by rw [headPte, spaces.headPte, windowPage, windowPage, head]
  headShared root first other second := by
    have low := spaces.windowLow
    have page : windowPage next = windowPage machine := by rw [windowPage, windowPage, head]
    rw [page]
    exact (shares_same_on (same root first) (same other second) (by omega)).2
      (spaces.headShared root first other second)

theorem spaces_pop (spaces : Spaces machine roots) (frame next used : Nat) :
    Spaces { machine with
      memory := popMemory machine frame
      freeFramePaddr := next
      usedFrames := used } roots :=
  spaces_same_on spaces (spaces.window_write_roots _) rfl rfl rfl rfl

/-- Popping changes one entry: that of the window. -/
theorem page_entry_pop (spaces : Spaces machine roots) (frame : Nat) {root page : Nat} (member : root ∈ roots)
    (low : page < 1047552) :
    pageEntry (popMemory machine frame) root page =
      if page = windowPage machine then createEntry (readWord machine.memory frame) pteWritable
      else pageEntry machine.memory root page := by
  have written := page_entry_write spaces.family spaces.member spaces.windowLow spaces.windowTable
    (create_entry_lt (read_word_lt machine.memory frame) (by decide : pteWritable < 4096)) member low
  rw [popMemory, written]
  simp only [spaces.headShared _ spaces.member _ member, and_true]

theorem window_not_frame (spaces : Spaces machine roots) (free : FreeList machine roots frames)
    {other : Nat} (member : other ∈ frames) (word : Nat) :
    SameOn machine.memory
      (writeWord machine.memory (slot machine.memory machine.cr3 (windowPage machine)) word) other := by
  have table := is_table_of_present spaces.member spaces.windowLow spaces.windowTable
  apply write_same_on (frame_of_aligned _) (free.aligned other member) (by omega)
  intro same
  exact free.notTable other member (same ▸ table)

theorem free_list_pop (spaces : Spaces machine roots)
    (free : FreeList machine roots (frame :: frames)) (used : Nat) :
    FreeList { machine with
      memory := popMemory machine frame
      freeFramePaddr := readWord machine.memory frame
      usedFrames := used } roots frames where
  linked := linked_same_on free.linked.2 fun _ member =>
    window_not_frame spaces free (List.mem_cons_of_mem _ member) _
  nodup := free.nodup.of_cons
  aligned other member := free.aligned other (List.mem_cons_of_mem _ member)
  positive other member := free.positive other (List.mem_cons_of_mem _ member)
  bounded other member := free.bounded other (List.mem_cons_of_mem _ member)
  notRoot other member := free.notRoot other (List.mem_cons_of_mem _ member)
  notTable other member := by
    rw [is_table_pop spaces]
    exact free.notTable other (List.mem_cons_of_mem _ member)
  window := by
    have seen := page_entry_pop spaces frame spaces.member spaces.windowLow
    rw [if_pos rfl] at seen
    exact seen

/-- A frame can be freed if it holds no paging structure and is not free yet. -/
structure Freeable (machine : Machine) (roots frames : List Nat) (frame : Nat) : Prop where
  aligned : frame % 4096 = 0
  positive : 0 < frame
  bounded : frame < 4294967296
  notUsed : ¬ InUse machine roots frames frame

/-- The memory after a frame was put on the list. -/
def pushMemory (machine : Machine) (frame : Nat) : Memory :=
  writeWord (writeWord machine.memory (slot machine.memory machine.cr3 (windowPage machine))
    (createEntry frame pteWritable)) frame machine.freeFramePaddr

theorem push_same_on (freeable : Freeable machine roots frames frame) {other : Nat}
    (aligned : other % 4096 = 0) (differ : other ≠ frame)
    (notWindow : other ≠
      frameOf (directoryEntry machine.memory machine.cr3 (windowPage machine / 1024))) :
    SameOn machine.memory (pushMemory machine frame) other := by
  have first : SameOn machine.memory (writeWord machine.memory
      (slot machine.memory machine.cr3 (windowPage machine)) (createEntry frame pteWritable)) other :=
    write_same_on (frame_of_aligned _) aligned (by omega) notWindow
  intro cell low high
  rw [← first cell low high]
  exact write_first_same_on freeable.aligned aligned differ cell low high

theorem push_roots (spaces : Spaces machine roots) (freeable : Freeable machine roots frames frame) :
    ∀ root ∈ roots, SameOn machine.memory (pushMemory machine frame) root := by
  intro root member
  have low := spaces.windowLow
  apply push_same_on freeable (spaces.family.aligned root member)
  · intro same
    exact freeable.notUsed (.inl (same ▸ member))
  · intro same
    exact spaces.family.apart _ spaces.member _ (by omega) spaces.windowTable (same ▸ member)

theorem spaces_push (spaces : Spaces machine roots) (freeable : Freeable machine roots frames frame)
    (used : Nat) :
    Spaces { machine with
      memory := pushMemory machine frame
      freeFramePaddr := frame
      usedFrames := used } roots :=
  spaces_same_on spaces (push_roots spaces freeable) rfl rfl rfl rfl

/-- Pushing changes one entry: that of the window. -/
theorem page_entry_push (spaces : Spaces machine roots) (freeable : Freeable machine roots frames frame)
    {root page : Nat} (member : root ∈ roots) (low : page < 1047552) :
    pageEntry (pushMemory machine frame) root page =
      if page = windowPage machine then createEntry frame pteWritable
      else pageEntry machine.memory root page := by
  have small : createEntry frame pteWritable < 4294967296 :=
    create_entry_lt freeable.bounded (by decide)
  have written := page_entry_write spaces.family spaces.member spaces.windowLow spaces.windowTable
    small member low
  have roots := spaces.window_write_roots (createEntry frame pteWritable)
  have family := family_same_on spaces.family roots
  have differ : ∀ other, other % 4096 = 0 → other ≠ frame → SameOn
      (writeWord machine.memory (slot machine.memory machine.cr3 (windowPage machine))
        (createEntry frame pteWritable)) (pushMemory machine frame) other :=
    fun other aligned apart => write_first_same_on freeable.aligned aligned apart
  have kept : pageEntry (pushMemory machine frame) root page =
      pageEntry (writeWord machine.memory (slot machine.memory machine.cr3 (windowPage machine))
        (createEntry frame pteWritable)) root page := by
    apply page_entry_same_on
    · exact differ root (spaces.family.aligned root member)
        fun same => freeable.notUsed (.inl (same ▸ member))
    · omega
    · intro present
      apply differ _ (frame_of_aligned _)
      intro same
      have table := is_table_of_present member low present
      rw [is_table_same_on roots, same] at table
      exact freeable.notUsed (.inr (.inl table))
  rw [kept, written]
  simp only [spaces.headShared _ spaces.member _ member, and_true]

theorem free_list_push (spaces : Spaces machine roots) (free : FreeList machine roots frames)
    (freeable : Freeable machine roots frames frame) (used : Nat) :
    FreeList { machine with
      memory := pushMemory machine frame
      freeFramePaddr := frame
      usedFrames := used } roots (frame :: frames) := by
  have table := is_table_of_present spaces.member spaces.windowLow spaces.windowTable
  have word : machine.freeFramePaddr < 4294967296 := by
    cases frames with
    | nil => exact free.linked ▸ (by decide : 0 < 4294967296)
    | cons top rest => exact free.linked.1 ▸ free.bounded top List.mem_cons_self
  have tables : ∀ other, IsTable (pushMemory machine frame) roots other ↔
      IsTable machine.memory roots other := is_table_same_on (push_roots spaces freeable)
  refine ⟨⟨rfl, ?_⟩, ?_, ?_, ?_, ?_, ?_, ?_, ?_⟩
  · have top : readWord (pushMemory machine frame) frame = machine.freeFramePaddr :=
      read_write_same word
    rw [top]
    apply linked_same_on free.linked
    intro other member
    apply push_same_on freeable (free.aligned other member)
    · intro same
      exact freeable.notUsed (.inr (.inr (same ▸ member)))
    · intro same
      exact free.notTable other member (same ▸ table)
  · exact List.nodup_cons.2 ⟨fun member => freeable.notUsed (.inr (.inr member)), free.nodup⟩
  · exact List.forall_mem_cons.2 ⟨freeable.aligned, free.aligned⟩
  · exact List.forall_mem_cons.2 ⟨freeable.positive, free.positive⟩
  · exact List.forall_mem_cons.2 ⟨freeable.bounded, free.bounded⟩
  · exact List.forall_mem_cons.2 ⟨fun member => freeable.notUsed (.inl member), free.notRoot⟩
  · refine List.forall_mem_cons.2 ⟨?_, ?_⟩
    · rw [tables]
      exact fun isTable => freeable.notUsed (.inr (.inl isTable))
    · intro other member
      rw [tables]
      exact free.notTable other member
  · have seen := page_entry_push spaces freeable spaces.member spaces.windowLow
    rw [if_pos rfl] at seen
    exact seen

theorem free_frame_ok (spaces : Spaces machine roots) (freeable : Freeable machine roots frames frame) :
    freeFrame machine frame = .ok { machine with
      memory := pushMemory machine frame
      freeFramePaddr := frame
      usedFrames := sub32 machine.usedFrames 1 } := by
  have aligned := freeable.aligned
  have bounded := freeable.bounded
  have headAligned := spaces.headAligned
  have headLow := spaces.headLow
  have marked := spaces.store_head_pte (sub32 machine.usedFrames 1) machine.freeFramePaddr
    (createEntry frame pteWritable)
  have entry := page_entry_write spaces.family spaces.member spaces.windowLow spaces.windowTable
    (create_entry_lt bounded (by decide : pteWritable < 4096)) spaces.member spaces.windowLow
  rw [if_pos ⟨rfl, shares_self spaces.windowTable⟩] at entry
  have found : translate (writeWord machine.memory
      (slot machine.memory machine.cr3 (windowPage machine)) (createEntry frame pteWritable))
      machine.cr3 machine.freeListHead = some frame := by
    have shown : pageEntry (writeWord machine.memory
        (slot machine.memory machine.cr3 (windowPage machine)) (createEntry frame pteWritable))
        machine.cr3 (machine.freeListHead / 4096) = createEntry frame pteWritable := entry
    rw [translate_page (by rw [shown]; exact create_entry_present _ _), shown,
      create_entry_frame bounded (by decide), headAligned, frameOf]
    congr 1
    omega
  have stored : storeWord { machine with
      usedFrames := sub32 machine.usedFrames 1
      memory := writeWord machine.memory (slot machine.memory machine.cr3 (windowPage machine))
        (createEntry frame pteWritable) } machine.freeListHead machine.freeFramePaddr =
      .ok { machine with
        usedFrames := sub32 machine.usedFrames 1
        memory := pushMemory machine frame } :=
    store_word_at found (by omega) (by omega)
  change (storeWord _ machine.freeListHeadPte (createEntry frame pteWritable) >>= _) = _
  rw [marked, Trap.ok_bind]
  change (storeWord _ machine.freeListHead machine.freeFramePaddr >>= _) = _
  rw [stored]
  rfl

end FreeFrames

end ParadiseOS.PagingSteps
