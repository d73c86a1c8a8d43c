import ParadiseOS.BootFrames
import ParadiseOS.PagingMaps

/-!
# Moving off the boot page tables

`reinit_paging` builds an identity table and a kernel table at two scratch indices of the
directory, with frames from the free list, whose window is still in the boot table. Then
it gives both tables their places, clears the scratch indices and puts the window's entry
into the new kernel table.
-/

namespace ParadiseOS.KernelMove

open BootFrames BootModel BootTables MachineWord PagingMaps PagingModel PagingSteps TwoLevelPaging

set_option autoImplicit false

section Statement

/-- The frames on the free list. -/
def FreeFrames (machine : Machine) (frames : List Nat) : Prop :=
  Linked machine.memory machine.freeFramePaddr frames ∧ ∀ frame ∈ frames, 0 < frame

/-- What the kernel sees is what it saw, under the two new tables. -/
structure SameView (image : Image) (before final : Machine) : Prop where
  kernel : ∀ vaddr, kernelStartVaddr ≤ vaddr → vaddr < image.endVaddr → ∃ paddr,
    translate before.memory before.cr3 vaddr = some paddr ∧
      translate final.memory final.cr3 vaddr = some paddr
  low : ∀ vaddr < 4096 * lowerMemPageCount, translate final.memory final.cr3 vaddr = some vaddr
  window : translate final.memory final.cr3 final.freeListHead = some final.freeFramePaddr
  selfMapped : SelfMapped final.memory final.cr3
  idMapClear : directoryEntry final.memory final.cr3 (getPdIndex idMapVaddr) = 0
  kernelMapClear : directoryEntry final.memory final.cr3 (getPdIndex kernelMapVaddr) = 0
  free : ∃ rest, FreeFrames final rest ∧
    frameOf (directoryEntry final.memory final.cr3 (getPdIndex 0)) ∉ rest ∧
    frameOf (directoryEntry final.memory final.cr3 (getPdIndex kernelStartVaddr)) ∉ rest

/-- `init_free_list_page` succeeds, and `reinit_paging` after it with any two frames that
`init_frames` collected. -/
def MovesInvisibly (image : Image) (early : Machine) (info : MultibootInfo) : Prop :=
  (∃ first, initFreeListPage image early = .ok first) ∧
    ∀ first userMap collected frames, initFreeListPage image early = .ok first →
      initFrames image first info = .ok (userMap, collected) → FreeFrames collected frames →
        2 ≤ frames.length → ∃ final, reinitPaging image collected = .ok final ∧
          SameView image collected final

/-- The kernel was loaded into the entry that starts with it: no other begins inside of it. -/
def ClearsKernel (image : Image) (mmap : List MMapEntry) : Prop :=
  ∀ entry ∈ mmap, entry.Available → entry.baseAddrLo = kernelStartPaddr ∨ image.endPaddr ≤ entry.baseAddrLo

end Statement

/-- The window's slot in the boot table. -/
def bootSlot (image : Image) : Nat := image.bootPageTable + 4 * (image.endPaddr / 4096)

/-- The machine runs under the boot directory, which has these entries by now, and the free list
goes through the window in the boot table. -/
structure Stage (image : Image) (machine : Machine) (given : Nat → Nat) (frames : List Nat) : Prop where
  cr3 : machine.cr3 = image.pageDirectory
  head : machine.freeListHead = image.endVaddr
  headPte : machine.freeListHeadPte = 0xFFC00000 + 4 * (image.endVaddr / 4096)
  directory : ∀ index < 1024, directoryEntry machine.memory image.pageDirectory index = given index
  kernel : given 0x300 = image.bootPageTable + 1
  last : given 1023 = image.pageDirectory + 1
  shown : readWord machine.memory (bootSlot image) = createEntry machine.freeFramePaddr pteWritable
  linked : Linked machine.memory machine.freeFramePaddr frames
  nodup : frames.Nodup
  aligned : ∀ frame ∈ frames, frame % 4096 = 0
  behind : ∀ frame ∈ frames, image.endPaddr ≤ frame ∧ frame < 4294967296

section Access

variable {image : Image} {machine : Machine} {given : Nat → Nat} {frames rest : List Nat} {frame index : Nat}

/-- Where the pages and frames of a kernel that has a window are. -/
theorem small_places (small : image.endPaddr < 0x400000) :
    image.endVaddr = 0xC0000000 + image.endPaddr ∧ image.pageDirectory + 8192 = image.endPaddr ∧
      image.bootPageTable = image.pageDirectory + 4096 ∧ image.pageDirectory % 4096 = 0 ∧
      0x101000 ≤ image.pageDirectory ∧ bootSlot image = image.bootPageTable + 4 * (image.endPaddr / 4096) ∧
      image.endPaddr / 4096 < 1024 ∧ image.endVaddr / 4096 = 0xC0000 + image.endPaddr / 4096 ∧
      image.endPaddr % 4096 = 0 := by
  obtain ⟨_, ends, place, aligned, low⟩ := image_places image
  have whole := image.aligned
  unfold bootSlot Image.endVaddr kernelOffset
  omega

theorem stage_self_mapped (stage : Stage image machine given frames) (small : image.endPaddr < 0x400000) :
    SelfMapped machine.memory machine.cr3 := by
  obtain ⟨_, _, _, aligned, _⟩ := small_places small
  have entry := stage.directory 1023 (by decide)
  rw [stage.last] at entry
  rw [SelfMapped, stage.cr3, entry]
  unfold Present frameOf
  omega

theorem stage_window (stage : Stage image machine given frames) (small : image.endPaddr < 0x400000) :
    Present (directoryEntry machine.memory machine.cr3 (image.endVaddr / 4096 / 1024)) ∧
      slot machine.memory machine.cr3 (image.endVaddr / 4096) = bootSlot image := by
  obtain ⟨_, _, table, aligned, _, isSlot, inside, page, _⟩ := small_places small
  have index : image.endVaddr / 4096 / 1024 = 0x300 := by omega
  have entry := stage.directory 0x300 (by decide)
  rw [stage.kernel] at entry
  rw [slot, index, stage.cr3, entry]
  unfold Present frameOf
  omega

/-- The window's slot is reached through the last entry of the directory. -/
theorem stage_head_pte (stage : Stage image machine given frames) (small : image.endPaddr < 0x400000) :
    translate machine.memory machine.cr3 machine.freeListHeadPte = some (bootSlot image) := by
  obtain ⟨_, _, _, _, _, _, inside, page, _⟩ := small_places small
  obtain ⟨present, isSlot⟩ := stage_window stage small
  rw [stage.headPte, ← isSlot]
  exact translate_self_map (stage_self_mapped stage small) (by omega) present

/-- The window shows the head of the free list. -/
theorem stage_head (stage : Stage image machine given frames) (small : image.endPaddr < 0x400000)
    (aligned : machine.freeFramePaddr % 4096 = 0) (bounded : machine.freeFramePaddr < 4294967296) :
    translate machine.memory machine.cr3 machine.freeListHead = some machine.freeFramePaddr := by
  obtain ⟨isEnd, _, _, _, _, _, inside, page, whole⟩ := small_places small
  obtain ⟨present, isSlot⟩ := stage_window stage small
  have shown : pageEntry machine.memory machine.cr3 (image.endVaddr / 4096) =
      createEntry machine.freeFramePaddr pteWritable := by
    rw [pageEntry, if_pos present, isSlot, stage.shown]
  have first : image.endVaddr % 4096 = 0 := by omega
  have isFrame : machine.freeFramePaddr / 4096 * 4096 = machine.freeFramePaddr := by omega
  rw [stage.head, translate_page (by rw [shown]; exact create_entry_present _ _), shown,
    create_entry_frame bounded (by decide), frameOf, isFrame, first, Nat.add_zero]

theorem stage_alloc_frame (stage : Stage image machine given (frame :: rest)) (small : image.endPaddr < 0x400000) :
    allocFrame machine = .ok (frame, { machine with
      memory := writeWord machine.memory (bootSlot image) (createEntry (readWord machine.memory frame) pteWritable)
      freeFramePaddr := readWord machine.memory frame
      usedFrames := u32 (machine.usedFrames + 1) }) := by
  have top := stage.linked.1
  have aligned := stage.aligned frame List.mem_cons_self
  obtain ⟨low, bounded⟩ := stage.behind frame List.mem_cons_self
  obtain ⟨isEnd, _, _, _, _, _, _, page, whole⟩ := small_places small
  have headPte := stage.headPte
  have head := stage.head
  have found := stage_head stage small (top ▸ aligned) (top ▸ bounded)
  have next : loadWord { machine with usedFrames := u32 (machine.usedFrames + 1) } machine.freeListHead =
      .ok (readWord machine.memory frame) := by
    rw [top] at found
    exact load_word_at found (by omega) (by omega)
  have place := stage_head_pte stage small
  have stored : storeWord { machine with
      freeFramePaddr := readWord machine.memory frame
      usedFrames := u32 (machine.usedFrames + 1) } machine.freeListHeadPte
      (createEntry (readWord machine.memory frame) pteWritable) = .ok { machine with
        memory := writeWord machine.memory (bootSlot image)
          (createEntry (readWord machine.memory frame) pteWritable)
        freeFramePaddr := readWord machine.memory frame
        usedFrames := u32 (machine.usedFrames + 1) } :=
    store_word_at place (by omega) (by omega)
  rw [allocFrame, Trap.kernel_assert_of (by omega), Trap.ok_bind]
  simp only [next, Trap.ok_bind, stored]
  rw [Trap.pure_ok, top]

end Access

section Tables

variable {image : Image} {machine : Machine} {given : Nat → Nat} {frames rest : List Nat} {frame index : Nat}

/-- The frames of the boot structures, and the rest of memory below them, are apart from a new
table. -/
structure NewTable (image : Image) (machine next : Machine) (frame : Nat) : Prop where
  empty : ∀ position < 1024, readWord next.memory (frame + 4 * position) = 0
  others : ∀ other, other % 4096 = 0 → other ≠ frame → other ≠ image.pageDirectory →
    other ≠ image.bootPageTable → SameOn machine.memory next.memory other

/-- A page table is made at an index that has none. -/
theorem stage_make_table (stage : Stage image machine given (frame :: rest)) (small : image.endPaddr < 0x400000)
    (low : index < 1023) (absent : given index = 0) :
    ∃ next, makePageTable machine index pageWritable = .ok next ∧
      Stage image next (Function.update given index (createEntry frame pdeWritable)) rest ∧
      NewTable image machine next frame := by
  obtain ⟨isEnd, ends, table, directoryAligned, _, isSlot, inside, page, whole⟩ := small_places small
  have aligned := stage.aligned frame List.mem_cons_self
  obtain ⟨behind, bounded⟩ := stage.behind frame List.mem_cons_self
  have selfMapped := stage_self_mapped stage small
  have cr3 := stage.cr3
  have entryBound := create_entry_lt bounded (by decide : pdeWritable < 4096)
  have entryFrame : frameOf (createEntry frame pdeWritable) = frame := by
    rw [create_entry_frame bounded (by decide), frameOf]
    omega
  have notKernel : index ≠ 0x300 := by
    rintro rfl
    rw [stage.kernel] at absent
    omega
  obtain ⟨popped, isPopped⟩ : ∃ popped, popped = writeWord machine.memory (bootSlot image)
      (createEntry (readWord machine.memory frame) pteWritable) := ⟨_, rfl⟩
  have poppedSame : ∀ other, other % 4096 = 0 → other ≠ image.bootPageTable →
      SameOn machine.memory popped other := by
    intro other otherAligned differ
    rw [isPopped, isSlot]
    exact write_same_on (by omega) otherAligned (by omega) differ
  obtain ⟨linked, isLinked⟩ : ∃ linked, linked = writeWord popped (image.pageDirectory + 4 * index)
      (createEntry frame pdeWritable) := ⟨_, rfl⟩
  have linkedSame : ∀ other, other % 4096 = 0 → other ≠ image.pageDirectory → SameOn popped linked other := by
    intro other otherAligned differ
    rw [isLinked]
    exact write_same_on directoryAligned otherAligned (by omega) differ
  have clearedSame : ∀ other, other % 4096 = 0 → other ≠ frame → SameOn linked (zeroFrame linked frame) other :=
    fun other otherAligned differ => zero_same_on aligned otherAligned differ
  have poppedDirectory : ∀ position < 1024, directoryEntry popped image.pageDirectory position = given position := by
    intro position high
    rw [directory_entry_same_on (poppedSame _ directoryAligned (by omega)) high, stage.directory _ high]
  have linkedDirectory : ∀ position < 1024, directoryEntry linked image.pageDirectory position =
      Function.update given index (createEntry frame pdeWritable) position := by
    intro position high
    rw [isLinked]
    by_cases here : position = index
    · rw [here, Function.update_self]
      exact read_write_same entryBound
    · rw [Function.update_of_ne here, directoryEntry, read_write_aligned (by omega) (by omega) (by omega)]
      exact poppedDirectory position high
  have poppedSelf : SelfMapped popped image.pageDirectory := by
    rw [← cr3]
    exact self_mapped_same_on (poppedSame _ (by omega) (by omega)) selfMapped
  have linkedLast := linkedDirectory 1023 (by decide)
  rw [Function.update_of_ne (by omega), stage.last] at linkedLast
  have linkedSelf : SelfMapped linked image.pageDirectory := by
    rw [SelfMapped, linkedLast]
    unfold Present frameOf
    omega
  have linkedEntry := linkedDirectory index (by omega)
  rw [Function.update_self] at linkedEntry
  obtain ⟨used, isUsed⟩ : ∃ used, used = u32 (machine.usedFrames + 1) := ⟨_, rfl⟩
  obtain ⟨next, isNext⟩ : ∃ next : Machine, next = { machine with
      memory := zeroFrame linked frame
      freeFramePaddr := readWord machine.memory frame
      usedFrames := used } := ⟨_, rfl⟩
  have made : makePageTable machine index pageWritable = .ok next := by
    have entry : pde machine index = .ok 0 := by
      rw [← absent, ← stage.directory index (by omega), ← cr3]
      exact pde_ok selfMapped (by omega)
    have flags : pdeWritable ||| (pageWritable &&& pageUserMode) = pdeWritable := by decide
    have stored : setPde { machine with
        memory := popped
        freeFramePaddr := readWord machine.memory frame
        usedFrames := used } index (createEntry frame pdeWritable) = .ok { machine with
          memory := linked
          freeFramePaddr := readWord machine.memory frame
          usedFrames := used } := by
      have written := @set_pde_ok { machine with
        memory := popped
        freeFramePaddr := readWord machine.memory frame
        usedFrames := used } index (createEntry frame pdeWritable) (by
          change SelfMapped popped machine.cr3
          rw [cr3]
          exact poppedSelf) (by omega)
      rw [written, isLinked]
      dsimp only
      rw [cr3]
    have cleared := @init_page_table_ok { machine with
        memory := linked
        freeFramePaddr := readWord machine.memory frame
        usedFrames := used } index (by
          change SelfMapped linked machine.cr3
          rw [cr3]
          exact linkedSelf) (by
          change machine.cr3 % 4096 = 0
          rw [cr3]
          exact directoryAligned) low (by
          change Present (directoryEntry linked machine.cr3 index)
          rw [cr3, linkedEntry]
          exact create_entry_present _ _) (by
          change frameOf (directoryEntry linked machine.cr3 index) ≠ machine.cr3
          rw [cr3, linkedEntry, entryFrame]
          omega)
    dsimp only at cleared
    rw [cr3, linkedEntry, entryFrame] at cleared
    rw [makePageTable, entry, Trap.ok_bind, if_pos (by decide), stage_alloc_frame stage small, Trap.ok_bind,
      flags, ← isPopped, ← isUsed]
    dsimp only
    rw [stored, Trap.ok_bind, isNext, cr3]
    exact cleared
  have word := read_word_lt machine.memory frame
  refine ⟨next, made, ?_, ?_⟩
  · subst isNext
    refine ⟨cr3, stage.head, stage.headPte, ?_, ?_, ?_, ?_, ?_, stage.nodup.of_cons, ?_, ?_⟩
    · intro position high
      rw [← linkedDirectory position high]
      exact directory_entry_same_on (clearedSame _ directoryAligned (by omega)) high
    · rw [Function.update_of_ne (Ne.symm notKernel), stage.kernel]
    · rw [Function.update_of_ne (by omega), stage.last]
    · have kept : readWord (zeroFrame linked frame) (bootSlot image) = readWord popped (bootSlot image) := by
        rw [zero_frame_apart (by omega), isLinked]
        exact read_write_aligned (by omega) (by omega) (by omega)
      change readWord (zeroFrame linked frame) (bootSlot image) = _
      rw [kept, isPopped]
      exact read_write_same (create_entry_lt word (by decide))
    · apply linked_same_on stage.linked.2
      intro other member
      have otherAligned := stage.aligned other (List.mem_cons_of_mem _ member)
      have otherBehind := (stage.behind other (List.mem_cons_of_mem _ member)).1
      have differ : other ≠ frame := fun same => (List.nodup_cons.1 stage.nodup).1 (same ▸ member)
      intro cell cellLow cellHigh
      exact ((clearedSame other otherAligned differ cell cellLow cellHigh).trans
        (linkedSame other otherAligned (by omega) cell cellLow cellHigh)).trans
        (poppedSame other otherAligned (by omega) cell cellLow cellHigh)
    · exact fun other member => stage.aligned other (List.mem_cons_of_mem _ member)
    · exact fun other member => stage.behind other (List.mem_cons_of_mem _ member)
  · subst isNext
    constructor
    · intro position high
      exact zero_frame_inside (by omega) (by omega)
    · intro other otherAligned notFrame notDirectory notTable cell cellLow cellHigh
      exact ((clearedSame other otherAligned notFrame cell cellLow cellHigh).trans
        (linkedSame other otherAligned notDirectory cell cellLow cellHigh)).trans
        (poppedSame other otherAligned notTable cell cellLow cellHigh)

end Tables

section Filling

variable {image : Image} {machine middle next : Machine} {given : Nat → Nat} {frames : List Nat}
  {frame index position paddr count vaddr : Nat}

/-- The table of an index: behind the kernel, and not free. -/
structure TableAt (image : Image) (given : Nat → Nat) (frames : List Nat) (index frame : Nat) : Prop where
  entry : given index = createEntry frame pdeWritable
  aligned : frame % 4096 = 0
  behind : image.endPaddr ≤ frame
  bounded : frame < 4294967296
  fresh : frame ∉ frames

/-- Entries of the table map frames in order, and nothing else changed. -/
structure Filled (machine next : Machine) (frame position paddr count : Nat) : Prop where
  words : ∀ other < 1024, readWord next.memory (frame + 4 * other) =
    if position ≤ other ∧ other < position + count then createEntry (paddr + 4096 * (other - position)) pageWritable
    else readWord machine.memory (frame + 4 * other)
  others : ∀ other, other % 4096 = 0 → other ≠ frame → SameOn machine.memory next.memory other

theorem table_at_slot (stage : Stage image machine given frames) (table : TableAt image given frames index frame)
    (low : index < 1024) (inside : position < 1024) :
    Present (directoryEntry machine.memory machine.cr3 ((1024 * index + position) / 1024)) ∧
      slot machine.memory machine.cr3 (1024 * index + position) = frame + 4 * position := by
  have aligned := table.aligned
  have isIndex : (1024 * index + position) / 1024 = index := by omega
  have isPosition : (1024 * index + position) % 1024 = position := by omega
  rw [slot, isIndex, isPosition, stage.cr3, stage.directory index low, table.entry,
    create_entry_frame table.bounded (by decide)]
  refine ⟨create_entry_present _ _, ?_⟩
  unfold frameOf
  omega

/-- One more page is mapped. -/
theorem stage_map_page (stage : Stage image machine given frames) (small : image.endPaddr < 0x400000)
    (table : TableAt image given frames index frame) (low : index < 1023) (inside : position < 1024)
    (page : vaddr = 4096 * (1024 * index + position))
    (empty : readWord machine.memory (frame + 4 * position) = 0) (address : paddr < 4294967296) :
    ∃ next, mapPage machine vaddr paddr pageWritable = .ok (false, next) ∧ Stage image next given frames ∧
      Filled machine next frame position paddr 1 := by
  obtain ⟨_, ends, isTable, directoryAligned, _, isSlot, inTable, _⟩ := small_places small
  have aligned := table.aligned
  have behind := table.behind
  have selfMapped := stage_self_mapped stage small
  obtain ⟨present, place⟩ := table_at_slot stage table (show index < 1024 by omega) inside
  have isPage : vaddr / 4096 = 1024 * index + position := by omega
  have absent : ¬ Present (pageEntry machine.memory machine.cr3 (1024 * index + position)) := by
    rw [pageEntry, if_pos present, place, empty]
    exact not_present_zero
  have entryBound := create_entry_lt address (by decide : pageWritable < 4096)
  have kept : ∀ other, other % 4096 = 0 → other ≠ frame → SameOn machine.memory
      (writeWord machine.memory (frame + 4 * position) (createEntry paddr pageWritable)) other :=
    fun other otherAligned differ => write_same_on aligned otherAligned (by omega) differ
  have mapped := @map_page_table machine vaddr paddr selfMapped (by omega) pageWritable
    (by rw [isPage]; exact present)
  rw [isPage, if_neg (fun both => both.1 (by decide)), if_neg absent, place] at mapped
  refine ⟨_, mapped, ?_, ?_⟩
  · refine ⟨stage.cr3, stage.head, stage.headPte, ?_, stage.kernel, stage.last, ?_, ?_, stage.nodup,
      stage.aligned, stage.behind⟩
    · intro other high
      rw [← stage.directory other high]
      exact directory_entry_same_on (kept _ directoryAligned (by omega)) high
    · rw [← stage.shown]
      exact read_write_aligned (by omega) (by omega) (by omega)
    · apply linked_same_on stage.linked
      intro other member
      exact kept other (stage.aligned other member) fun same => table.fresh (same ▸ member)
  · refine ⟨?_, kept⟩
    intro other high
    by_cases here : other = position
    · rw [if_pos (by omega), here, Nat.sub_self]
      exact read_write_same entryBound
    · rw [if_neg (by omega)]
      exact read_write_aligned (by omega) (by omega) (by omega)

/-- `map_pages` over entries of one table that are empty. -/
theorem stage_map_pages (stage : Stage image machine given frames) (small : image.endPaddr < 0x400000)
    (table : TableAt image given frames index frame) (low : index < 1023) (inside : position + count ≤ 1024)
    (page : count ≠ 0 → vaddr = 4096 * (1024 * index + position))
    (empty : ∀ other, position ≤ other → other < position + count →
      readWord machine.memory (frame + 4 * other) = 0) (address : paddr + 4096 * count ≤ 4294967296) :
    ∃ next, mapPages machine vaddr paddr pageWritable count = .ok next ∧ Stage image next given frames ∧
      Filled machine next frame position paddr count := by
  induction count generalizing machine position paddr vaddr with
  | zero =>
      refine ⟨machine, rfl, stage, fun other _ => ?_, fun _ _ _ _ _ _ => rfl⟩
      rw [if_neg (by omega)]
  | succ count ih =>
      have isPage := page (Nat.succ_ne_zero count)
      obtain ⟨middle, mapped, staged, first⟩ := stage_map_page stage small table low (by omega) isPage
        (empty position le_rfl (by omega)) (show paddr < 4294967296 by omega)
      have laterEmpty : ∀ other, position + 1 ≤ other → other < position + 1 + count →
          readWord middle.memory (frame + 4 * other) = 0 := by
        intro other behind before
        rw [first.words other (by omega), if_neg (by omega)]
        exact empty other (by omega) (by omega)
      have laterPage : count ≠ 0 → u32 (vaddr + pageSize) = 4096 * (1024 * index + (position + 1)) := by
        intro more
        unfold u32 pageSize
        omega
      have laterAddress : count = 0 ∨ u32 (paddr + pageSize) = paddr + 4096 := by
        unfold u32 pageSize
        omega
      have step : mapPages machine vaddr paddr pageWritable (count + 1) =
          mapPages middle (u32 (vaddr + pageSize)) (u32 (paddr + pageSize)) pageWritable count := by
        rw [mapPages, mapped, Trap.ok_bind]
        rfl
      rw [step]
      obtain ⟨next, completed, after, rest⟩ := @ih middle (position + 1) (u32 (paddr + pageSize))
        (u32 (vaddr + pageSize)) staged (by omega) laterPage laterEmpty (by
          rcases laterAddress with none | same
          · have word := u32_lt (paddr + pageSize)
            omega
          · omega)
      refine ⟨next, completed, after, ?_, ?_⟩
      · intro other high
        rw [rest.words other high, first.words other high]
        by_cases isFirst : other = position
        · rw [if_neg (by omega), if_pos (by omega), if_pos (by omega), isFirst]
        · by_cases isLater : position + 1 ≤ other ∧ other < position + 1 + count
          · have same := laterAddress.resolve_left (by omega)
            have place : paddr + 4096 + 4096 * (other - (position + 1)) = paddr + 4096 * (other - position) := by
              omega
            rw [if_pos isLater, if_pos (by omega), same, place]
          · rw [if_neg isLater, if_neg (by omega), if_neg (by omega)]
      · intro other aligned differ cell cellLow cellHigh
        exact (rest.others other aligned differ cell cellLow cellHigh).trans
          (first.others other aligned differ cell cellLow cellHigh)

/-- `map_pages` at an index without a table. -/
theorem map_pages_made (small : vaddr / 4096 / 1024 < 1024)
    (made : makePageTable machine (vaddr / 4096 / 1024) pageWritable = .ok middle)
    (selfMapped : SelfMapped middle.memory middle.cr3)
    (present : Present (directoryEntry middle.memory middle.cr3 (vaddr / 4096 / 1024))) :
    mapPages machine vaddr paddr pageWritable (count + 1) =
      mapPages middle vaddr paddr pageWritable (count + 1) := by
  rw [mapPages, mapPages, map_page_made small made selfMapped present]

/-- A table is made at an index that has none, and entries of it are filled. -/
theorem stage_build (stage : Stage image machine given (frame :: frames)) (small : image.endPaddr < 0x400000)
    (low : index < 1023) (absent : given index = 0) (inside : position + (count + 1) ≤ 1024)
    (page : vaddr = 4096 * (1024 * index + position)) (address : paddr + 4096 * (count + 1) ≤ 4294967296) :
    ∃ next, mapPages machine vaddr paddr pageWritable (count + 1) = .ok next ∧
      Stage image next (Function.update given index (createEntry frame pdeWritable)) frames ∧
      (∀ other, position ≤ other → other < position + (count + 1) →
        readWord next.memory (frame + 4 * other) =
          createEntry (paddr + 4096 * (other - position)) pageWritable) ∧
      ∀ other, other % 4096 = 0 → other ≠ frame → other ≠ image.pageDirectory →
        other ≠ image.bootPageTable → SameOn machine.memory next.memory other := by
  have aligned := stage.aligned frame List.mem_cons_self
  obtain ⟨behind, bounded⟩ := stage.behind frame List.mem_cons_self
  obtain ⟨middle, made, staged, new⟩ := stage_make_table stage small low absent
  have table : TableAt image (Function.update given index (createEntry frame pdeWritable)) frames index frame :=
    ⟨Function.update_self _ _ _, aligned, behind, bounded, (List.nodup_cons.1 stage.nodup).1⟩
  obtain ⟨next, completed, after, filled⟩ := stage_map_pages staged small table low inside
    (fun _ => page) (fun other _ before => new.empty other (by omega)) address
  have isIndex : vaddr / 4096 / 1024 = index := by omega
  obtain ⟨present, _⟩ := table_at_slot staged table (show index < 1024 by omega) (show position < 1024 by omega)
  refine ⟨next, ?_, after, ?_, ?_⟩
  · rw [map_pages_made (by omega) (by rw [isIndex]; exact made) (stage_self_mapped staged small) (by
      rw [isIndex]
      have same : (1024 * index + position) / 1024 = index := by omega
      rw [← same]
      exact present)]
    exact completed
  · intro other low high
    rw [filled.words other (by omega), if_pos ⟨low, high⟩]
  · intro other otherAligned notFrame notDirectory notTable cell cellLow cellHigh
    exact (filled.others other otherAligned notFrame cell cellLow cellHigh).trans
      (new.others other otherAligned notFrame notDirectory notTable cell cellLow cellHigh)

end Filling

section Installing

variable {image : Image} {machine next : Machine} {given : Nat → Nat} {frames : List Nat}
  {low kernel index word : Nat}

/-- The machine runs under the boot directory with these entries. -/
structure Directory (image : Image) (machine : Machine) (given : Nat → Nat) : Prop where
  cr3 : machine.cr3 = image.pageDirectory
  entries : ∀ index < 1024, directoryEntry machine.memory image.pageDirectory index = given index
  last : given 1023 = image.pageDirectory + 1

theorem directory_self_mapped (directory : Directory image machine given) (small : image.endPaddr < 0x400000) :
    SelfMapped machine.memory machine.cr3 := by
  obtain ⟨_, _, _, aligned, _⟩ := small_places small
  have entry := directory.entries 1023 (by decide)
  rw [directory.last] at entry
  rw [SelfMapped, directory.cr3, entry]
  unfold Present frameOf
  omega

theorem directory_read (directory : Directory image machine given) (small : image.endPaddr < 0x400000)
    (bounded : index < 1024) : pde machine index = .ok (given index) := by
  rw [← directory.entries index bounded, ← directory.cr3]
  exact pde_ok (directory_self_mapped directory small) bounded

/-- Only one entry of the directory changes. -/
structure EntrySet (image : Image) (machine next : Machine) (given : Nat → Nat) : Prop where
  globals : next = { machine with memory := next.memory }
  directory : Directory image next given
  others : ∀ other, other % 4096 = 0 → other ≠ image.pageDirectory → SameOn machine.memory next.memory other

theorem directory_set (directory : Directory image machine given) (small : image.endPaddr < 0x400000)
    (bounded : index < 1023) (wordBounded : word < 4294967296) :
    ∃ next, setPde machine index word = .ok next ∧
      EntrySet image machine next (Function.update given index word) := by
  obtain ⟨_, _, _, aligned, _⟩ := small_places small
  have written := @set_pde_ok machine index word (directory_self_mapped directory small) (by omega)
  have cr3 := directory.cr3
  refine ⟨_, written, rfl, ⟨cr3, ?_, ?_⟩, ?_⟩
  · intro other high
    rw [directoryEntry, cr3]
    by_cases here : other = index
    · rw [here, Function.update_self, read_write_same wordBounded]
    · rw [Function.update_of_ne here, ← directory.entries other high]
      exact read_write_aligned (by omega) (by omega) (by omega)
  · rw [Function.update_of_ne (by omega), directory.last]
  · intro other otherAligned differ
    exact write_same_on (by omega) otherAligned (by omega) (by omega)

theorem entry_set_same {middle : Machine} {later : Nat → Nat} (first : EntrySet image machine middle given)
    (second : EntrySet image middle next later) : EntrySet image machine next later :=
  ⟨by rw [second.globals, first.globals], second.directory, fun other aligned differ cell cellLow cellHigh =>
    (second.others other aligned differ cell cellLow cellHigh).trans
      (first.others other aligned differ cell cellLow cellHigh)⟩

theorem table_paddr {frame : Nat} (aligned : frame % 4096 = 0) (bounded : frame < 4294967296) :
    getPaddr (createEntry frame pdeWritable) = frame := by
  rw [get_paddr_frame (create_entry_lt bounded (by decide)), create_entry_frame bounded (by decide), frameOf]
  omega

/-- The entries when both tables have their places. -/
def installed (given : Nat → Nat) (low kernel : Nat) : Nat → Nat :=
  Function.update (Function.update (Function.update (Function.update given 0 (createEntry low pdeWritable))
    0x300 (createEntry kernel pdeWritable)) 0x2FC 0) 0x2F8 0

/-- What `reinit_paging` leaves. -/
structure Installed (image : Image) (machine final : Machine) (given : Nat → Nat) (low kernel : Nat) :
    Prop where
  globals : final = { machine with memory := final.memory }
  directory : Directory image final (installed given low kernel)
  words : ∀ position < 1024, readWord final.memory (kernel + 4 * position) =
    if position = image.endPaddr / 4096 then createEntry machine.freeFramePaddr pteWritable
    else readWord machine.memory (kernel + 4 * position)
  others : ∀ other, other % 4096 = 0 → other ≠ image.pageDirectory → other ≠ kernel →
    SameOn machine.memory final.memory other

theorem install_ok (stage : Stage image machine given frames) (small : image.endPaddr < 0x400000)
    (lowTable : TableAt image given frames 0x2FC low) (kernelTable : TableAt image given frames 0x2F8 kernel)
    (free : machine.freeFramePaddr < 4294967296) :
    ∃ final, installTables machine = .ok final ∧ Installed image machine final given low kernel := by
  obtain ⟨_, ends, isTable, directoryAligned, _, isSlot, inTable, page, _⟩ := small_places small
  have lowAligned := lowTable.aligned
  have kernelAligned := kernelTable.aligned
  have lowBehind := lowTable.behind
  have kernelBehind := kernelTable.behind
  have headPte := stage.headPte
  have lowWord := create_entry_lt lowTable.bounded (by decide : pdeWritable < 4096)
  have kernelWord := create_entry_lt kernelTable.bounded (by decide : pdeWritable < 4096)
  have directory : Directory image machine given := ⟨stage.cr3, stage.directory, stage.last⟩
  have old : loadWord machine machine.freeListHeadPte =
      .ok (createEntry machine.freeFramePaddr pteWritable) := by
    rw [← stage.shown]
    exact load_word_at (stage_head_pte stage small) (by omega) (by omega)
  have readLow : pde machine 0x2FC = .ok (createEntry low pdeWritable) := by
    rw [directory_read directory small (by decide), lowTable.entry]
  obtain ⟨first, setFirst, entryFirst⟩ := directory_set directory small (show 0 < 1023 by decide) lowWord
  have readKernel : pde first 0x2F8 = .ok (createEntry kernel pdeWritable) := by
    rw [directory_read entryFirst.directory small (by decide), Function.update_of_ne (by decide),
      kernelTable.entry]
  obtain ⟨second, setSecond, entrySecond⟩ := directory_set entryFirst.directory small
    (show 0x300 < 1023 by decide) kernelWord
  obtain ⟨third, setThird, entryThird⟩ := directory_set entrySecond.directory small
    (show 0x2FC < 1023 by decide) (show 0 < 4294967296 by decide)
  obtain ⟨fourth, setFourth, entryFourth⟩ := directory_set entryThird.directory small
    (show 0x2F8 < 1023 by decide) (show 0 < 4294967296 by decide)
  have set_ := entry_set_same (entry_set_same (entry_set_same entryFirst entrySecond) entryThird) entryFourth
  have lastDirectory := set_.directory
  have kernelEntry : directoryEntry fourth.memory fourth.cr3 0x300 = createEntry kernel pdeWritable := by
    rw [lastDirectory.cr3, lastDirectory.entries 0x300 (by decide), Function.update_of_ne (by decide),
      Function.update_of_ne (by decide), Function.update_self]
  have isIndex : image.endVaddr / 4096 / 1024 = 0x300 := by omega
  have place : translate fourth.memory fourth.cr3 fourth.freeListHeadPte =
      some (kernel + 4 * (image.endPaddr / 4096)) := by
    have isHeadPte : fourth.freeListHeadPte = machine.freeListHeadPte := by rw [set_.globals]
    have isKernelSlot : slot fourth.memory fourth.cr3 (image.endVaddr / 4096) =
        kernel + 4 * (image.endPaddr / 4096) := by
      rw [slot, isIndex, kernelEntry, create_entry_frame kernelTable.bounded (by decide)]
      unfold frameOf
      omega
    rw [isHeadPte, headPte, ← isKernelSlot]
    apply translate_self_map (directory_self_mapped lastDirectory small) (by omega)
    rw [isIndex, kernelEntry]
    exact create_entry_present _ _
  have isHeadPte : fourth.freeListHeadPte = machine.freeListHeadPte := by rw [set_.globals]
  have stored := @store_word_at fourth _ _ (createEntry machine.freeFramePaddr pteWritable) place
    (by omega) (by omega)
  have written : ∀ other, other % 4096 = 0 → other ≠ kernel → SameOn fourth.memory
      (writeWord fourth.memory (kernel + 4 * (image.endPaddr / 4096))
        (createEntry machine.freeFramePaddr pteWritable)) other :=
    fun other aligned differ => write_same_on kernelAligned aligned (by omega) differ
  obtain ⟨final, isFinal⟩ : ∃ final : Machine, final = { fourth with
      memory := writeWord fourth.memory (kernel + 4 * (image.endPaddr / 4096))
        (createEntry machine.freeFramePaddr pteWritable) } := ⟨_, rfl⟩
  rw [← isFinal] at stored
  have isMemory : final.memory = writeWord fourth.memory (kernel + 4 * (image.endPaddr / 4096))
      (createEntry machine.freeFramePaddr pteWritable) := by rw [isFinal]
  rw [← isMemory] at written
  refine ⟨final, ?_, ?_⟩
  · have lowIndex : getPdIndex idMapVaddr = 0x2FC := by decide
    have zeroIndex : getPdIndex 0 = 0 := by decide
    have scratchIndex : getPdIndex kernelMapVaddr = 0x2F8 := by decide
    have kernelIndex : getPdIndex kernelStartVaddr = 0x300 := by decide
    rw [installTables, old, Trap.ok_bind]
    dsimp only
    rw [lowIndex, zeroIndex, scratchIndex, kernelIndex, readLow, Trap.ok_bind,
      table_paddr lowAligned lowTable.bounded, setFirst, Trap.ok_bind, readKernel, Trap.ok_bind,
      table_paddr kernelAligned kernelTable.bounded, setSecond, Trap.ok_bind, setThird, Trap.ok_bind,
      setFourth, Trap.ok_bind]
    rw [isHeadPte] at stored ⊢
    exact stored
  · refine ⟨by rw [isFinal, set_.globals], ⟨by rw [isFinal]; exact lastDirectory.cr3, ?_, lastDirectory.last⟩,
      ?_, ?_⟩
    · intro other high
      exact (directory_entry_same_on (written _ directoryAligned (by omega)) high).trans
        (lastDirectory.entries other high)
    · intro position high
      by_cases here : position = image.endPaddr / 4096
      · rw [if_pos here, here, isMemory, read_write_same (create_entry_lt free (by decide))]
      · rw [if_neg here]
        have kept := read_word_same_on (set_.others kernel kernelAligned (by omega))
          (show 4 * position + 4 ≤ 4096 by omega)
        rw [← kept, isMemory]
        exact read_write_aligned (by omega) (by omega) (by omega)
    · intro other aligned notDirectory notKernel cell cellLow cellHigh
      exact (written other aligned notKernel cell cellLow cellHigh).trans
        (set_.others other aligned notDirectory cell cellLow cellHigh)

end Installing

section Moving

variable {image : Image} {machine early first collected final : Machine} {info : MultibootInfo}
  {userMap : List PhysicalMap} {frames rest : List Nat} {low kernel : Nat}

theorem translate_entry {memory : Memory} {root vaddr directory word : Nat}
    (isDirectory : directoryEntry memory root (vaddr / 4096 / 1024) = directory) (table : Present directory)
    (isWord : readWord memory (frameOf directory + 4 * (vaddr / 4096 % 1024)) = word) (present : Present word) :
    translate memory root vaddr = some (frameOf word + vaddr % 4096) := by
  have entry : pageEntry memory root (vaddr / 4096) = word := by
    rw [pageEntry, slot, isDirectory, if_pos table, isWord]
  rw [translate_page (by rw [entry]; exact present), entry]

/-- The entries that `boot.s` makes. -/
def bootEntries (image : Image) (index : Nat) : Nat :=
  if index = 0 ∨ index = 0x300 then image.bootPageTable + 1
  else if index = 1023 then image.pageDirectory + 1 else 0

/-- With the frames collected the boot structures are as before, but for the window. -/
structure Ready (image : Image) (collected : Machine) (frames : List Nat) : Prop where
  stage : Stage image collected (bootEntries image) frames
  table : ∀ position < 1024, position ≠ image.endPaddr / 4096 →
    readWord collected.memory (image.bootPageTable + 4 * position) =
      if 4096 * position < image.endPaddr then 4096 * position + 1 else 0

theorem ready_of_collected (started : booted image machine = .ok early)
    (found : initFreeListPage image early = .ok first) (all : Collected first collected frames)
    (nonempty : frames ≠ []) (behind : ∀ frame ∈ frames, image.endPaddr ≤ frame) :
    Ready image collected frames := by
  have small := free_list_page_size started found
  have tables := booted_tables started
  obtain ⟨isEnd, ends, isTable, directoryAligned, low, isSlot, inTable, page, _⟩ := small_places small
  rw [init_free_list_page_ok tables small, Except.ok.injEq] at found
  have firstTables : BootPaging image first := by
    subst found
    exact ⟨tables.cr3, tables.current, tables.directory, tables.table⟩
  have firstCr3 := firstTables.cr3
  have isWindow : windowSlot first = bootSlot image := by
    have isPage : windowPage first = image.endVaddr / 4096 := by
      subst found
      rfl
    have isIndex : image.endVaddr / 4096 / 1024 = 0x300 := by omega
    rw [windowSlot, isPage, slot, isIndex, firstCr3, firstTables.directory 0x300 (by decide),
      if_pos (.inr rfl), isSlot]
    unfold frameOf
    omega
  have notFrame : ∀ addr, addr < image.endPaddr → addr ∉ frames := by
    intro addr below member
    have bound := behind addr member
    omega
  have shown := all.shown nonempty
  have kept := all.words
  rw [isWindow] at shown kept
  refine ⟨⟨?_, ?_, ?_, ?_, rfl, rfl, shown, all.linked, all.nodup, all.aligned, ?_⟩, ?_⟩
  · rw [all.globals]
    exact firstCr3
  · rw [all.globals]
    subst found
    rfl
  · rw [all.globals]
    subst found
    rfl
  · intro index high
    have entry : directoryEntry first.memory image.pageDirectory index = bootEntries image index :=
      firstTables.directory index high
    rw [← entry]
    exact kept _ (by omega) (notFrame _ (by omega)) (by omega)
  · exact fun frame member => ⟨behind frame member, (all.bounded frame member).2⟩
  · intro position high differ
    rw [← firstTables.table position high]
    exact kept _ (by omega) (notFrame _ (by omega)) (by omega)

/-- Where the two tables are, and what they map. -/
structure Built (image : Image) (ready final : Machine) (rest : List Nat) (low kernel : Nat) : Prop where
  cr3 : final.cr3 = image.pageDirectory
  head : final.freeListHead = image.endVaddr
  linked : Linked final.memory final.freeFramePaddr rest
  directory : Directory image final (installed (Function.update (Function.update (bootEntries image) 0x2FC
    (createEntry low pdeWritable)) 0x2F8 (createEntry kernel pdeWritable)) low kernel)
  lowWords : ∀ position < 256, readWord final.memory (low + 4 * position) = createEntry (4096 * position) pageWritable
  kernelWords : ∀ position, 256 ≤ position → position < image.endPaddr / 4096 →
    readWord final.memory (kernel + 4 * position) = createEntry (4096 * position) pageWritable
  window : readWord final.memory (kernel + 4 * (image.endPaddr / 4096)) =
    createEntry final.freeFramePaddr pteWritable

theorem size_in_pages_eq (image : Image) :
    sizeInPages (sub32 image.endPaddr kernelStartPaddr) = image.endPaddr / 4096 - 256 := by
  have behind := image.behind
  have bounded := image.bounded
  have aligned := image.aligned
  unfold kernelStartPaddr pageSize at behind
  unfold sizeInPages kernelStartPaddr pageSize
  have size := sub32_of_le (show 0x100000 ≤ image.endPaddr by omega) (by omega)
  have rounded := u32_of_lt (show image.endPaddr - 0x100000 + 4096 < 4294967296 by omega)
  rw [size, rounded, sub32_of_le (by omega) (by omega)]
  omega

theorem reinit_paging_ok (ready : Ready image collected (low :: kernel :: rest))
    (small : image.endPaddr < 0x400000) :
    ∃ final, reinitPaging image collected = .ok final ∧ Built image collected final rest low kernel := by
  have imageBehind := image.behind
  unfold kernelStartPaddr pageSize at imageBehind
  obtain ⟨_, ends, isTable, directoryAligned, _, _, inTable, _⟩ := small_places small
  have stage := ready.stage
  have lowAligned := stage.aligned low List.mem_cons_self
  have kernelAligned := stage.aligned kernel (List.mem_cons_of_mem _ List.mem_cons_self)
  obtain ⟨lowBehind, lowBounded⟩ := stage.behind low List.mem_cons_self
  obtain ⟨kernelBehind, kernelBounded⟩ := stage.behind kernel (List.mem_cons_of_mem _ List.mem_cons_self)
  obtain ⟨lowFresh, laterNodup⟩ := List.nodup_cons.1 stage.nodup
  obtain ⟨kernelFresh, _⟩ := List.nodup_cons.1 laterNodup
  rw [List.mem_cons, not_or] at lowFresh
  obtain ⟨count, isCount⟩ : ∃ count, image.endPaddr / 4096 - 256 = count + 1 :=
    ⟨image.endPaddr / 4096 - 257, by omega⟩
  have room : 256 + (count + 1) ≤ 1024 ∧ 0x100000 + 4096 * (count + 1) ≤ 4294967296 := by omega
  have few : count + 1 ≤ maxKernelPageCount := by
    unfold maxKernelPageCount
    omega
  obtain ⟨second, buildLow, secondStage, lowMapped, _⟩ := @stage_build image collected (bootEntries image)
    (kernel :: rest) low 0x2FC 0 0 255 idMapVaddr stage small (by decide) rfl (by decide) (by decide) (by decide)
  obtain ⟨third, buildKernel, thirdStage, kernelMapped, kernelKept⟩ := @stage_build image second _
    rest kernel 0x2F8 256 0x100000 count kernelMapVaddr secondStage small (by decide)
    (by rw [Function.update_of_ne (by decide)]; rfl) room.1 (by decide) room.2
  have lowTable : TableAt image (Function.update (Function.update (bootEntries image) 0x2FC
      (createEntry low pdeWritable)) 0x2F8 (createEntry kernel pdeWritable)) rest 0x2FC low :=
    ⟨by rw [Function.update_of_ne (by decide), Function.update_self], lowAligned, lowBehind, lowBounded, lowFresh.2⟩
  have kernelTable : TableAt image (Function.update (Function.update (bootEntries image) 0x2FC
      (createEntry low pdeWritable)) 0x2F8 (createEntry kernel pdeWritable)) rest 0x2F8 kernel :=
    ⟨Function.update_self _ _ _, kernelAligned, kernelBehind, kernelBounded, kernelFresh⟩
  have free : third.freeFramePaddr < 4294967296 := by
    cases rest with
    | nil => exact thirdStage.linked ▸ (by decide : 0 < 4294967296)
    | cons top others => exact thirdStage.linked.1 ▸ (thirdStage.behind top List.mem_cons_self).2
  obtain ⟨final, install, installed⟩ := install_ok thirdStage small lowTable kernelTable free
  have isHead : final.freeListHead = third.freeListHead := by rw [installed.globals]
  have isFree : final.freeFramePaddr = third.freeFramePaddr := by rw [installed.globals]
  refine ⟨final, ?_, installed.directory.cr3, isHead.trans thirdStage.head, ?_, installed.directory, ?_, ?_, ?_⟩
  · rw [reinitPaging, size_in_pages_eq, isCount, Trap.kernel_assert_of few, Trap.ok_bind]
    change (mapPages collected idMapVaddr 0 pageWritable (255 + 1) >>= _) = _
    rw [buildLow, Trap.ok_bind]
    change (mapPages second kernelMapVaddr 0x100000 pageWritable (count + 1) >>= _) = _
    rw [buildKernel, Trap.ok_bind]
    exact install
  · rw [isFree]
    apply linked_same_on thirdStage.linked
    intro frame member
    have behind := (thirdStage.behind frame member).1
    exact installed.others frame (thirdStage.aligned frame member) (by omega)
      fun same => kernelFresh (same ▸ member)
  · intro position high
    have kept := read_word_same_on (installed.others low lowAligned (by omega) lowFresh.1)
      (show 4 * position + 4 ≤ 4096 by omega)
    have earlier := read_word_same_on (kernelKept low lowAligned lowFresh.1 (by omega) (by omega))
      (show 4 * position + 4 ≤ 4096 by omega)
    rw [kept, earlier, lowMapped position (Nat.zero_le _) (by omega), Nat.zero_add, Nat.sub_zero]
  · intro position behind before
    have place : 0x100000 + 4096 * (position - 256) = 4096 * position := by omega
    rw [installed.words position (by omega), if_neg (by omega), kernelMapped position behind (by omega), place]
  · rw [installed.words _ inTable, if_pos rfl, isFree]

theorem same_view (ready : Ready image collected (low :: kernel :: rest)) (small : image.endPaddr < 0x400000)
    (built : Built image collected final rest low kernel) : SameView image collected final := by
  obtain ⟨isEnd, ends, isTable, directoryAligned, _, isSlot, inTable, isPage, whole⟩ := small_places small
  have stage := ready.stage
  have lowAligned := stage.aligned low List.mem_cons_self
  have kernelAligned := stage.aligned kernel (List.mem_cons_of_mem _ List.mem_cons_self)
  have lowBounded := (stage.behind low List.mem_cons_self).2
  have kernelBounded := (stage.behind kernel (List.mem_cons_of_mem _ List.mem_cons_self)).2
  obtain ⟨lowFresh, laterNodup⟩ := List.nodup_cons.1 stage.nodup
  obtain ⟨kernelFresh, _⟩ := List.nodup_cons.1 laterNodup
  rw [List.mem_cons, not_or] at lowFresh
  have lowFrame : frameOf (createEntry low pdeWritable) = low := by
    rw [create_entry_frame lowBounded (by decide), frameOf]
    omega
  have kernelFrame : frameOf (createEntry kernel pdeWritable) = kernel := by
    rw [create_entry_frame kernelBounded (by decide), frameOf]
    omega
  have lowEntry : directoryEntry final.memory final.cr3 0 = createEntry low pdeWritable := by
    rw [built.cr3, built.directory.entries 0 (by decide)]
    rfl
  have kernelEntry : directoryEntry final.memory final.cr3 0x300 = createEntry kernel pdeWritable := by
    rw [built.cr3, built.directory.entries 0x300 (by decide)]
    rfl
  have mapped : ∀ position < 1024, frameOf (createEntry (4096 * position) pageWritable) = 4096 * position := by
    intro position high
    rw [create_entry_frame (by omega) (by decide), frameOf]
    omega
  have lowIndex : getPdIndex 0 = 0 := by decide
  have kernelIndex : getPdIndex kernelStartVaddr = 0x300 := by decide
  have idIndex : getPdIndex idMapVaddr = 0x2FC := by decide
  have scratchIndex : getPdIndex kernelMapVaddr = 0x2F8 := by decide
  constructor
  · intro vaddr behind before
    unfold kernelStartVaddr at behind
    have isIndex : vaddr / 4096 / 1024 = 0x300 := by omega
    obtain ⟨position, isPosition⟩ : ∃ position, vaddr / 4096 % 1024 = position := ⟨_, rfl⟩
    have inKernel : 256 ≤ position ∧ position < image.endPaddr / 4096 := by omega
    have tableFrame : frameOf (image.bootPageTable + 1) = image.bootPageTable := by
      unfold frameOf
      omega
    have tablePresent : Present (image.bootPageTable + 1) := by
      unfold Present
      omega
    have bootEntry : directoryEntry collected.memory collected.cr3 0x300 = image.bootPageTable + 1 := by
      rw [stage.cr3, stage.directory 0x300 (by decide), stage.kernel]
    have bootWord : readWord collected.memory (image.bootPageTable + 4 * position) = 4096 * position + 1 := by
      rw [ready.table position (by omega) (by omega), if_pos (by omega)]
    have wordFrame : frameOf (4096 * position + 1) = 4096 * position := by
      unfold frameOf
      omega
    have wordPresent : Present (4096 * position + 1) := by
      unfold Present
      omega
    refine ⟨4096 * position + vaddr % 4096, ?_, ?_⟩
    · rw [translate_entry (by rw [isIndex]; exact bootEntry) tablePresent
        (by rw [tableFrame, isPosition]; exact bootWord) wordPresent, wordFrame]
    · rw [translate_entry (by rw [isIndex]; exact kernelEntry) (create_entry_present _ _)
        (by rw [kernelFrame, isPosition]; exact built.kernelWords position inKernel.1 inKernel.2)
        (create_entry_present _ _), mapped position (by omega)]
  · intro vaddr below
    unfold lowerMemPageCount at below
    have isIndex : vaddr / 4096 / 1024 = 0 := by omega
    obtain ⟨position, isPosition⟩ : ∃ position, vaddr / 4096 % 1024 = position := ⟨_, rfl⟩
    have place : 4096 * position + vaddr % 4096 = vaddr := by omega
    rw [translate_entry (by rw [isIndex]; exact lowEntry) (create_entry_present _ _)
      (by rw [lowFrame, isPosition]; exact built.lowWords position (by omega)) (create_entry_present _ _),
      mapped position (by omega), place]
  · have freeWord : final.freeFramePaddr % 4096 = 0 ∧ final.freeFramePaddr < 4294967296 := by
      cases rest with
      | nil =>
          have none : final.freeFramePaddr = 0 := built.linked
          omega
      | cons top others =>
          have isTop : final.freeFramePaddr = top := built.linked.1
          have member : top ∈ low :: kernel :: top :: others :=
            List.mem_cons_of_mem _ (List.mem_cons_of_mem _ List.mem_cons_self)
          have aligned := stage.aligned top member
          have bounded := (stage.behind top member).2
          omega
    have isIndex : final.freeListHead / 4096 / 1024 = 0x300 := by
      rw [built.head]
      omega
    have isPosition : final.freeListHead / 4096 % 1024 = image.endPaddr / 4096 := by
      rw [built.head]
      omega
    have first : final.freeListHead % 4096 = 0 := by
      rw [built.head]
      omega
    have isFree : final.freeFramePaddr / 4096 * 4096 = final.freeFramePaddr := by omega
    rw [translate_entry (by rw [isIndex]; exact kernelEntry) (create_entry_present _ _)
      (by rw [kernelFrame, isPosition]; exact built.window) (create_entry_present _ _),
      create_entry_frame freeWord.2 (by decide), frameOf, isFree, first, Nat.add_zero]
  · exact directory_self_mapped built.directory small
  · rw [idIndex, built.cr3, built.directory.entries 0x2FC (by decide)]
    rfl
  · rw [scratchIndex, built.cr3, built.directory.entries 0x2F8 (by decide)]
    rfl
  · refine ⟨rest, ⟨built.linked, ?_⟩, ?_, ?_⟩
    · intro frame member
      have behind := (stage.behind frame (List.mem_cons_of_mem _ (List.mem_cons_of_mem _ member))).1
      omega
    · rw [lowIndex, lowEntry, lowFrame]
      exact lowFresh.2
    · rw [kernelIndex, kernelEntry, kernelFrame]
      exact kernelFresh

/-- The frames that `init_frames` collects are behind the kernel. -/
theorem collected_behind (clear : ClearsKernel image info.mmap) {frame : Nat}
    (begins : ∃ entry ∈ info.mmap, entry.Available ∧ BeginsIn image entry frame) : image.endPaddr ≤ frame := by
  obtain ⟨entry, member, available, _, low, _⟩ := begins
  unfold kernelFrom at low
  split_ifs at low with isKernel
  · exact low
  · exact ((clear entry member available).resolve_left isKernel).trans low

theorem two_frames (enough : 2 ≤ frames.length) :
    ∃ low kernel rest, frames = low :: kernel :: rest := by
  cases frames with
  | nil => exact absurd enough (by decide)
  | cons low rest =>
      cases rest with
      | nil => exact absurd enough (show ¬ 2 ≤ 1 by decide)
      | cons kernel rest => exact ⟨low, kernel, rest, rfl⟩

/-- The boot tables hold a page for the free list only behind a kernel that leaves one. -/
theorem moves_leaves_page (started : booted image machine = .ok early)
    (moves : MovesInvisibly image early info) : kernelPages image < maxKernelPageCount := by
  obtain ⟨⟨first, found⟩, _⟩ := moves
  have small := free_list_page_size started found
  have behind := image.behind
  have aligned := image.aligned
  unfold kernelStartPaddr pageSize at behind
  rw [kernel_pages_eq, maxKernelPageCount]
  omega

/-- The move is invisible exactly if the kernel leaves a page of the boot table. -/
theorem moves_invisibly_iff (started : booted image machine = .ok early) (sound : SoundMap info.mmap)
    (clear : ClearsKernel image info.mmap) :
    MovesInvisibly image early info ↔ kernelPages image < maxKernelPageCount := by
  have behind := image.behind
  have aligned := image.aligned
  unfold kernelStartPaddr pageSize at behind
  constructor
  · exact moves_leaves_page started
  · intro fits
    rw [kernel_pages_eq, maxKernelPageCount] at fits
    have small : image.endPaddr < 0x400000 := by omega
    refine ⟨⟨_, init_free_list_page_ok (booted_tables started) small⟩, ?_⟩
    intro first userMap collected frames found completed free enough
    obtain ⟨_, none⟩ := boot_window started found
    obtain ⟨_, _, entries⟩ := Trap.bind_eq_ok.mp completed
    have low := entries_ended info.mmap sound.words sound.fits entries
    rcases collect_entries image [] info.mmap sound low none (List.forall_mem_nil _) with failed | passed
    · rw [failed] at entries
      cases entries
    · obtain ⟨later, after, added, again, all, members⟩ := passed
      rw [entries, Except.ok.injEq, Prod.mk.injEq] at again
      obtain ⟨rfl, rfl⟩ := again
      rw [List.append_nil] at all
      have same := linked_unique free.2 (fun frame member => (all.bounded frame member).1) free.1 all.linked
      obtain ⟨lowFrame, kernelFrame, rest, isFrames⟩ := two_frames enough
      rw [← same, isFrames] at all members
      have ready := ready_of_collected started found all (List.cons_ne_nil _ _)
        fun frame member => collected_behind clear ((members frame).1 member)
      obtain ⟨final, moved, built⟩ := reinit_paging_ok ready small
      exact ⟨final, moved, same_view ready small built⟩

end Moving

section Sample

theorem half_memory_clears (image : Image) : ClearsKernel image [halfMemory] :=
  List.forall_mem_singleton.2 fun _ => .inl rfl

theorem moves_invisibly_half_memory : ∃ early, booted sampleImage PagingChecks.sampleMachine = .ok early ∧
    (MovesInvisibly sampleImage early ⟨mbFlagMmap, [halfMemory]⟩ ↔
      kernelPages sampleImage < maxKernelPageCount) := by
  obtain ⟨early, _, started, _⟩ := sample_boots
  exact ⟨early, started, @moves_invisibly_iff sampleImage _ early ⟨mbFlagMmap, [halfMemory]⟩ started
    (one_entry_sound (by decide) (by decide)) (half_memory_clears _)⟩

/-- A kernel of 0x300 pages. -/
def fullImage : Image := ⟨0x400000, by decide, by decide, by decide⟩

/-- The largest kernel that the checks accept has no place for the window. -/
theorem full_kernel_stuck : ¬ ∀ (image : Image) (machine early : Machine) (info : MultibootInfo),
    booted image machine = .ok early → SoundMap info.mmap → ClearsKernel image info.mmap →
      MovesInvisibly image early info := by
  intro always
  obtain ⟨early, started⟩ : ∃ early, booted fullImage PagingChecks.sampleMachine = .ok early := by
    rw [booted, start_ok (by decide), Trap.ok_bind]
    exact ⟨_, rfl⟩
  have sound : SoundMap [halfMemory] := one_entry_sound (by decide) (by decide)
  have moves := always fullImage _ early ⟨mbFlagMmap, [halfMemory]⟩ started sound (half_memory_clears _)
  have fits := moves_leaves_page started moves
  rw [kernel_pages_eq] at fits
  exact absurd fits (by decide)

end Sample
end ParadiseOS.KernelMove
