import ParadiseOS.PagingSteps

/-!
# Mapping and unmapping in a family of address spaces

`Kept` says what every step of the paging code leaves alone: the directories keep
their tables and what they share, free frames stay apart from tables, and memory
outside paging structures and free frames is untouched. On top of it a mapping
changes one entry, in the current directory and in those that share its table.
-/

namespace ParadiseOS.PagingMaps

open MachineWord PagingModel PagingSteps TwoLevelPaging

set_option autoImplicit false

/-- A step that took the free list from `frames` to `rest` and kept the paging structures sound. -/
structure Kept (machine next : Machine) (roots frames rest : List Nat) : Prop where
  globals : next = { machine with
    memory := next.memory
    freeFramePaddr := next.freeFramePaddr
    usedFrames := next.usedFrames }
  spaces : Spaces next roots
  free : FreeList next roots rest
  inUse : ∀ frame, InUse next roots rest frame ↔ InUse machine roots frames frame
  directory : ∀ root ∈ roots, ∀ index < 1024, Present (directoryEntry machine.memory root index) →
    directoryEntry next.memory root index = directoryEntry machine.memory root index
  ties : ∀ root ∈ roots, ∀ other ∈ roots, root ≠ other → ∀ page < 1047552,
    (Shares next.memory root other page ↔ Shares machine.memory root other page)
  outside : ∀ frame, frame % 4096 = 0 → ¬ InUse machine roots frames frame →
    SameOn machine.memory next.memory frame

/-- The directories whose entry of a page is that of the given one. -/
def Tied (machine : Machine) (root other page : Nat) : Prop :=
  root = other ∨ Shares machine.memory root other page

instance (machine : Machine) (root other page : Nat) : Decidable (Tied machine root other page) :=
  inferInstanceAs (Decidable (_ ∨ _))

section Keeping

variable {machine middle next : Machine} {roots frames rest : List Nat}

theorem kept_refl (spaces : Spaces machine roots) (free : FreeList machine roots frames) :
    Kept machine machine roots frames frames where
  globals := rfl
  spaces := spaces
  free := free
  inUse _ := Iff.rfl
  directory _ _ _ _ _ := rfl
  ties _ _ _ _ _ _ _ := Iff.rfl
  outside _ _ _ _ _ _ := rfl

theorem kept_trans {between : List Nat} (first : Kept machine middle roots frames between)
    (second : Kept middle next roots between rest) : Kept machine next roots frames rest where
  globals := by
    rw [second.globals, first.globals]
  spaces := second.spaces
  free := second.free
  inUse frame := (second.inUse frame).trans (first.inUse frame)
  directory root member index low present := by
    have kept := first.directory root member index low present
    rw [← kept] at present
    exact (second.directory root member index low present).trans kept
  ties root member other second' differ page low :=
    (second.ties root member other second' differ page low).trans
      (first.ties root member other second' differ page low)
  outside frame aligned unused cell low high := by
    have later : ¬ InUse middle roots between frame := fun used => unused ((first.inUse frame).1 used)
    exact (second.outside frame aligned later cell low high).trans
      (first.outside frame aligned unused cell low high)

theorem kept_cr3 (kept : Kept machine next roots frames rest) : next.cr3 = machine.cr3 := by
  rw [kept.globals]

theorem kept_window (kept : Kept machine next roots frames rest) :
    windowPage next = windowPage machine := by
  rw [kept.globals]
  rfl

theorem kept_tied (kept : Kept machine next roots frames rest) {root other page : Nat}
    (member : root ∈ roots) (second : other ∈ roots) (low : page < 1047552) :
    Tied next root other page ↔ Tied machine root other page := by
  by_cases same : root = other
  · exact ⟨fun _ => .inl same, fun _ => .inl same⟩
  · exact or_congr Iff.rfl (kept.ties root member other second same page low)

end Keeping

section Writing

variable {machine : Machine} {roots frames : List Nat} {page word : Nat}

/-- The machine after the slot of a page was written. -/
def fillSlot (machine : Machine) (page word : Nat) : Machine :=
  { machine with memory := writeWord machine.memory (slot machine.memory machine.cr3 page) word }

theorem fill_slot_table (spaces : Spaces machine roots) (low : page < 1047552)
    (present : Present (directoryEntry machine.memory machine.cr3 (page / 1024))) :
    IsTable machine.memory roots (frameOf (directoryEntry machine.memory machine.cr3 (page / 1024))) :=
  is_table_of_present spaces.member low present

theorem fill_slot_entry (spaces : Spaces machine roots) (low : page < 1047552)
    (present : Present (directoryEntry machine.memory machine.cr3 (page / 1024)))
    (bounded : word < 4294967296) {other position : Nat} (member : other ∈ roots)
    (high : position < 1047552) :
    pageEntry (fillSlot machine page word).memory other position =
      if position = page ∧ Tied machine machine.cr3 other page then word
      else pageEntry machine.memory other position := by
  have written := page_entry_write spaces.family spaces.member low present bounded member high
  have tied : Tied machine machine.cr3 other page ↔ Shares machine.memory machine.cr3 other page := by
    constructor
    · rintro (same | shared)
      · exact same ▸ shares_self present
      · exact shared
    · exact Or.inr
  rw [fillSlot, written]
  simp only [tied]

/-- Writing the slot of any page but the window's keeps the paging structures sound. -/
theorem kept_fill_slot (spaces : Spaces machine roots) (free : FreeList machine roots frames)
    (low : page < 1047552) (present : Present (directoryEntry machine.memory machine.cr3 (page / 1024)))
    (bounded : word < 4294967296) (notWindow : page ≠ windowPage machine) :
    Kept machine (fillSlot machine page word) roots frames frames := by
  have same : ∀ root ∈ roots, SameOn machine.memory (fillSlot machine page word).memory root :=
    slot_write_roots spaces.family spaces.member low present
  have table := fill_slot_table spaces low present
  have tables : ∀ frame, IsTable (fillSlot machine page word).memory roots frame ↔
      IsTable machine.memory roots frame := is_table_same_on same
  have apart : ∀ frame, frame % 4096 = 0 → ¬ IsTable machine.memory roots frame →
      SameOn machine.memory (fillSlot machine page word).memory frame := by
    intro frame aligned notTable
    apply write_same_on (frame_of_aligned _) aligned (by omega)
    intro equal
    exact notTable (equal ▸ table)
  refine ⟨rfl, spaces_same_on spaces same rfl rfl rfl rfl, ?_, ?_, ?_, ?_, ?_⟩
  · refine ⟨?_, free.nodup, free.aligned, free.positive, free.bounded, free.notRoot, ?_, ?_⟩
    · exact linked_same_on free.linked fun frame member =>
        apart frame (free.aligned frame member) (free.notTable frame member)
    · intro frame member
      rw [tables]
      exact free.notTable frame member
    · have window := fill_slot_entry spaces low present bounded spaces.member spaces.windowLow
      rw [if_neg (fun both => notWindow both.1.symm)] at window
      exact window.trans free.window
  · intro frame
    unfold InUse
    rw [tables]
  · intro root member index small _
    exact directory_entry_same_on (same root member) small
  · intro root member other second _ position high
    exact shares_same_on (same root member) (same other second) (by omega)
  · intro frame aligned unused
    exact apart frame aligned fun isTable => unused (.inr (.inl isTable))

end Writing

section Tables

variable {machine next : Machine} {roots frames rest : List Nat} {frame index flags : Nat}

def tableEntry (frame flags : Nat) : Nat :=
  createEntry frame (pdeWritable ||| (flags &&& pageUserMode))

theorem table_flags_lt (flags : Nat) : pdeWritable ||| (flags &&& pageUserMode) < 4096 :=
  Nat.or_lt_two_pow (n := 12) (by decide)
    (lt_of_le_of_lt Nat.and_le_right (by decide : pageUserMode < 2 ^ 12))

/-- The machine after a page table was made in the current directory. -/
def withTable (machine : Machine) (frame index flags : Nat) : Machine :=
  { machine with
    memory := addTable (popMemory machine frame) machine.cr3 index (tableEntry frame flags)
    freeFramePaddr := readWord machine.memory frame
    usedFrames := u32 (machine.usedFrames + 1) }

theorem table_entry_of (flags : Nat) (aligned : frame % 4096 = 0) (bounded : frame < 4294967296) :
    frameOf (tableEntry frame flags) = frame := by
  rw [tableEntry, create_entry_frame bounded (table_flags_lt flags), frameOf]
  omega

/-- A frame that holds no paging structure can become a table once it has left the list. -/
theorem addable_frame (spaces : Spaces machine roots) (flags : Nat) (aligned : frame % 4096 = 0)
    (bounded : frame < 4294967296) (notRoot : frame ∉ roots) (notTable : ¬ IsTable machine.memory roots frame)
    (low : index < 1023) (absent : ¬ Present (directoryEntry machine.memory machine.cr3 index)) :
    Addable (popMemory machine frame) roots machine.cr3 index (tableEntry frame flags) := by
  have same := table_entry_of flags aligned bounded
  refine ⟨spaces.member, low, ?_, create_entry_present _ _,
    create_entry_lt bounded (table_flags_lt flags), ?_, ?_⟩
  · rw [popMemory, directory_entry_same_on (spaces.window_write_roots _ _ spaces.member) (by omega)]
    exact absent
  · rw [same]
    exact notRoot
  · rw [same, is_table_pop spaces]
    exact notTable

theorem addable_table (spaces : Spaces machine roots) (free : FreeList machine roots (frame :: rest))
    (flags : Nat) (low : index < 1023) (absent : ¬ Present (directoryEntry machine.memory machine.cr3 index)) :
    Addable (popMemory machine frame) roots machine.cr3 index (tableEntry frame flags) :=
  addable_frame spaces flags (free.aligned frame List.mem_cons_self)
    (free.bounded frame List.mem_cons_self) (free.notRoot frame List.mem_cons_self)
    (free.notTable frame List.mem_cons_self) low absent

theorem table_entry_frame (flags : Nat) (free : FreeList machine roots (frame :: rest)) :
    frameOf (tableEntry frame flags) = frame :=
  table_entry_of flags (free.aligned frame List.mem_cons_self) (free.bounded frame List.mem_cons_self)

/-- Setting a directory entry and clearing its table. -/
theorem add_table_ok {entry : Nat} (spaces : Spaces machine roots)
    (addable : Addable machine.memory roots machine.cr3 index entry) :
    (setPde machine index entry >>= fun next => initPageTable next (pteAddr index 0)) =
      .ok { machine with memory := addTable machine.memory machine.cr3 index entry } := by
  have low := addable.low
  have aligned := spaces.family.aligned _ spaces.member
  have seen : directoryEntry (writeWord machine.memory (machine.cr3 + 4 * index) entry)
      machine.cr3 index = entry := read_write_same addable.bounded
  have last : directoryEntry (writeWord machine.memory (machine.cr3 + 4 * index) entry)
      machine.cr3 1023 = directoryEntry machine.memory machine.cr3 1023 := by
    apply read_write_aligned
    · omega
    · omega
    · omega
  have selfMapped : SelfMapped (writeWord machine.memory (machine.cr3 + 4 * index) entry)
      machine.cr3 := by
    rw [SelfMapped, last]
    exact spaces.selfMapped
  have present : Present (directoryEntry (writeWord machine.memory (machine.cr3 + 4 * index) entry)
      machine.cr3 index) := seen.symm ▸ addable.present
  have apart : frameOf (directoryEntry (writeWord machine.memory (machine.cr3 + 4 * index) entry)
      machine.cr3 index) ≠ machine.cr3 := by
    rw [seen]
    exact fun same => addable.notRoot (same ▸ spaces.member)
  have cleared := @init_page_table_ok
    { machine with memory := writeWord machine.memory (machine.cr3 + 4 * index) entry } index
    selfMapped aligned low present apart
  rw [set_pde_ok spaces.selfMapped (by omega), Trap.ok_bind, cleared, addTable]
  simp only [seen]

theorem make_page_table_ok (flags : Nat) (spaces : Spaces machine roots)
    (free : FreeList machine roots (frame :: rest)) (low : index < 1023)
    (absent : ¬ Present (directoryEntry machine.memory machine.cr3 index)) :
    makePageTable machine index flags = .ok (withTable machine frame index flags) := by
  have popped := spaces_pop spaces frame (readWord machine.memory frame) (u32 (machine.usedFrames + 1))
  have addable := addable_table spaces free flags low absent
  have added := add_table_ok popped addable
  rw [makePageTable, pde_ok spaces.selfMapped (by omega), Trap.ok_bind,
    if_pos (mt (entry_present_iff _).1 absent), alloc_frame_ok spaces free, Trap.ok_bind]
  exact added

/-- What the directories and the pages are after a page table was made. -/
theorem table_added_directory (flags : Nat) (spaces : Spaces machine roots)
    (addable : Addable (popMemory machine frame) roots machine.cr3 index (tableEntry frame flags))
    {root position : Nat} (member : root ∈ roots) (high : position < 1024) :
    directoryEntry (withTable machine frame index flags).memory root position =
      if root = machine.cr3 ∧ position = index then tableEntry frame flags
      else directoryEntry machine.memory root position := by
  have popped := spaces_pop spaces frame (readWord machine.memory frame) (u32 (machine.usedFrames + 1))
  have added := directory_entry_add popped.family addable member high
  have kept : directoryEntry (popMemory machine frame) root position =
      directoryEntry machine.memory root position :=
    directory_entry_same_on (spaces.window_write_roots _ root member) high
  rw [← kept]
  exact added

theorem table_added_entry (flags : Nat) (spaces : Spaces machine roots)
    (addable : Addable (popMemory machine frame) roots machine.cr3 index (tableEntry frame flags))
    {root page : Nat} (member : root ∈ roots) (high : page < 1047552) :
    pageEntry (withTable machine frame index flags).memory root page =
      if page = windowPage machine then createEntry (readWord machine.memory frame) pteWritable
      else pageEntry machine.memory root page := by
  have popped := spaces_pop spaces frame (readWord machine.memory frame) (u32 (machine.usedFrames + 1))
  have added := page_entry_add popped.family addable member high
  exact added.trans (page_entry_pop spaces frame member high)

theorem table_added_spaces (flags : Nat) (spaces : Spaces machine roots)
    (addable : Addable (popMemory machine frame) roots machine.cr3 index (tableEntry frame flags)) :
    Spaces (withTable machine frame index flags) roots := by
  have popped := spaces_pop spaces frame (readWord machine.memory frame) (u32 (machine.usedFrames + 1))
  refine ⟨family_add popped.family addable, spaces.current, spaces.member, spaces.headAligned,
    spaces.headLow, spaces.headPte, ?_⟩
  intro root member other second
  have shared := spaces.headShared root member other second
  have low := spaces.windowLow
  have kept : ∀ root ∈ roots, Present (directoryEntry machine.memory root (windowPage machine / 1024)) →
      directoryEntry (withTable machine frame index flags).memory root (windowPage machine / 1024) =
        directoryEntry machine.memory root (windowPage machine / 1024) := by
    intro root member present
    have before : directoryEntry (popMemory machine frame) root (windowPage machine / 1024) =
        directoryEntry machine.memory root (windowPage machine / 1024) :=
      directory_entry_same_on (spaces.window_write_roots _ root member) (by omega)
    rw [← before] at present ⊢
    exact directory_entry_add_present popped.family addable member (by omega) present
  change Shares _ _ _ (windowPage machine)
  rw [Shares, kept root member shared.1, kept other second shared.2.1]
  exact shared

/-- Making a page table takes the top frame from the list and changes no page but the window. -/
theorem kept_with_table (flags : Nat) (spaces : Spaces machine roots)
    (free : FreeList machine roots (frame :: rest)) (low : index < 1023)
    (absent : ¬ Present (directoryEntry machine.memory machine.cr3 index)) :
    Kept machine (withTable machine frame index flags) roots (frame :: rest) rest := by
  have popped := spaces_pop spaces frame (readWord machine.memory frame) (u32 (machine.usedFrames + 1))
  have poppedFree := free_list_pop spaces free (u32 (machine.usedFrames + 1))
  have addable := addable_table spaces free flags low absent
  have isFrame := table_entry_frame flags free
  have popRoots : ∀ root ∈ roots, SameOn machine.memory (popMemory machine frame) root :=
    spaces.window_write_roots _
  have family := popped.family
  have tables : ∀ other, IsTable (withTable machine frame index flags).memory roots other ↔
      other = frame ∨ IsTable machine.memory roots other := by
    intro other
    have added := is_table_add family addable other
    rw [isFrame, is_table_pop spaces] at added
    exact added
  have popDirectory : ∀ root ∈ roots, ∀ position < 1024,
      directoryEntry (popMemory machine frame) root position =
        directoryEntry machine.memory root position :=
    fun root member position small => directory_entry_same_on (popRoots root member) small
  have directory : ∀ root ∈ roots, ∀ position < 1024,
      Present (directoryEntry machine.memory root position) →
      directoryEntry (withTable machine frame index flags).memory root position =
        directoryEntry machine.memory root position := by
    intro root member position small present
    rw [← popDirectory root member position small] at present ⊢
    exact directory_entry_add_present family addable member small present
  have ties : ∀ root ∈ roots, ∀ other ∈ roots, root ≠ other → ∀ page < 1047552,
      (Shares (withTable machine frame index flags).memory root other page ↔
        Shares machine.memory root other page) := by
    intro root member other second differ page high
    have added := shares_add family addable member second high differ
    have kept := shares_same_on (popRoots root member) (popRoots other second)
      (show page < 1048576 by omega)
    exact added.trans kept
  refine ⟨rfl, table_added_spaces flags spaces addable, ?_, ?_, directory, ties, ?_⟩
  · refine ⟨?_, free.nodup.of_cons, poppedFree.aligned, poppedFree.positive, poppedFree.bounded,
      poppedFree.notRoot, ?_, ?_⟩
    · apply linked_same_on poppedFree.linked
      intro other member
      apply add_table_same_on family addable (poppedFree.aligned other member)
      · exact fun same => poppedFree.notRoot other member (same ▸ spaces.member)
      · rw [isFrame]
        exact fun same => (List.nodup_cons.1 free.nodup).1 (same ▸ member)
    · intro other member
      rw [tables, not_or]
      exact ⟨fun same => (List.nodup_cons.1 free.nodup).1 (same ▸ member),
        free.notTable other (List.mem_cons_of_mem _ member)⟩
    · have window := page_entry_add family addable spaces.member spaces.windowLow
      exact window.trans poppedFree.window
  · intro other
    unfold InUse
    rw [tables, List.mem_cons]
    tauto
  · intro other aligned unused cell cellLow cellHigh
    have windowFrame : other ≠
        frameOf (directoryEntry machine.memory machine.cr3 (windowPage machine / 1024)) := by
      intro same
      exact unused (.inr (.inl (same ▸
        is_table_of_present spaces.member spaces.windowLow spaces.windowTable)))
    have first : SameOn machine.memory (popMemory machine frame) other :=
      write_same_on (frame_of_aligned _) aligned (by omega) windowFrame
    have second : SameOn (popMemory machine frame) (withTable machine frame index flags).memory other := by
      apply add_table_same_on family addable aligned
      · exact fun same => unused (.inl (same ▸ spaces.member))
      · rw [isFrame]
        exact fun same => unused (.inr (.inr (same ▸ List.mem_cons_self)))
    exact (second cell cellLow cellHigh).trans (first cell cellLow cellHigh)

theorem with_table_directory (flags : Nat) (spaces : Spaces machine roots)
    (free : FreeList machine roots (frame :: rest)) (low : index < 1023)
    (absent : ¬ Present (directoryEntry machine.memory machine.cr3 index)) {root position : Nat}
    (member : root ∈ roots) (high : position < 1024) :
    directoryEntry (withTable machine frame index flags).memory root position =
      if root = machine.cr3 ∧ position = index then tableEntry frame flags
      else directoryEntry machine.memory root position :=
  table_added_directory flags spaces (addable_table spaces free flags low absent) member high

theorem with_table_entry (flags : Nat) (spaces : Spaces machine roots)
    (free : FreeList machine roots (frame :: rest)) (low : index < 1023)
    (absent : ¬ Present (directoryEntry machine.memory machine.cr3 index)) {root page : Nat}
    (member : root ∈ roots) (high : page < 1047552) :
    pageEntry (withTable machine frame index flags).memory root page =
      if page = windowPage machine then createEntry (readWord machine.memory frame) pteWritable
      else pageEntry machine.memory root page :=
  table_added_entry flags spaces (addable_table spaces free flags low absent) member high

end Tables

/-- A page was mapped; a page table was made if there was none for it. -/
structure Mapped (machine next : Machine) (roots frames rest : List Nat) (page paddr flags : Nat) :
    Prop where
  kept : Kept machine next roots frames rest
  absent : ¬ Present (pageEntry machine.memory machine.cr3 page)
  table : Present (directoryEntry next.memory machine.cr3 (page / 1024))
  userTable : flags &&& 4 ≠ 0 → UserMode (directoryEntry next.memory machine.cr3 (page / 1024))
  entries : ∀ other ∈ roots, ∀ position < 1047552, position ≠ windowPage machine →
    pageEntry next.memory other position =
      if position = page ∧ Tied machine machine.cr3 other page then createEntry paddr flags
      else pageEntry machine.memory other position
  taken : (Present (directoryEntry machine.memory machine.cr3 (page / 1024)) ∧ rest = frames ∧
      next.usedFrames = machine.usedFrames ∧ next.memory = writeWord machine.memory
        (slot machine.memory machine.cr3 page) (createEntry paddr flags)) ∨
    (¬ Present (directoryEntry machine.memory machine.cr3 (page / 1024)) ∧ ∃ frame,
      frames = frame :: rest ∧ next.usedFrames = u32 (machine.usedFrames + 1) ∧
      next.memory = (fillSlot (withTable machine frame (page / 1024) flags) page
        (createEntry paddr flags)).memory)

section MapPage

variable {machine next : Machine} {roots frames : List Nat} {vaddr paddr flags : Nat} {mapped : Bool}

/-- Once a page table is made, `map_page` goes on as if it had been there. -/
theorem map_page_made {middle : Machine} (small : vaddr / 4096 / 1024 < 1024)
    (made : makePageTable machine (vaddr / 4096 / 1024) flags = .ok middle)
    (selfMapped : SelfMapped middle.memory middle.cr3)
    (present : Present (directoryEntry middle.memory middle.cr3 (vaddr / 4096 / 1024))) :
    mapPage machine vaddr paddr flags = mapPage middle vaddr paddr flags := by
  have again : makePageTable middle (vaddr / 4096 / 1024) flags = .ok middle := by
    rw [makePageTable, pde_ok selfMapped small, Trap.ok_bind,
      if_neg (not_not.mpr ((entry_present_iff _).2 present)), Trap.pure_ok]
  rw [mapPage, mapPage, get_pd_index_page, get_pt_index_page, made, again]

theorem table_entry_user (frame flags : Nat) : UserMode (tableEntry frame flags) ↔ UserMode flags := by
  have writable : pdeWritable.testBit 2 = false := by decide
  have user : pageUserMode.testBit 2 = true := by decide
  rw [tableEntry, create_entry_user, user_mode_test_bit, user_mode_test_bit, Nat.testBit_or,
    Nat.testBit_and, writable, user, Bool.false_or, Bool.and_true]

/-- With a free frame, a page in an empty 4 MiB can be mapped. -/
theorem map_page_new_table (paddr : Nat) {frame : Nat} {rest : List Nat} (spaces : Spaces machine roots)
    (free : FreeList machine roots (frame :: rest)) (low : vaddr / 4096 < 1047552)
    (notWindow : vaddr / 4096 ≠ windowPage machine)
    (absent : ¬ Present (directoryEntry machine.memory machine.cr3 (vaddr / 4096 / 1024))) :
    ∃ next, mapPage machine vaddr paddr flags = .ok (false, next) := by
  have made := make_page_table_ok flags spaces free (show vaddr / 4096 / 1024 < 1023 by omega) absent
  have kept := kept_with_table flags spaces free (show vaddr / 4096 / 1024 < 1023 by omega) absent
  have directory : directoryEntry (withTable machine frame (vaddr / 4096 / 1024) flags).memory
      machine.cr3 (vaddr / 4096 / 1024) = tableEntry frame flags := by
    rw [with_table_directory _ spaces free (by omega) absent spaces.member (by omega), if_pos ⟨rfl, rfl⟩]
  have table : Present (directoryEntry (withTable machine frame (vaddr / 4096 / 1024) flags).memory
      machine.cr3 (vaddr / 4096 / 1024)) := directory ▸ create_entry_present _ _
  have entry : pageEntry (withTable machine frame (vaddr / 4096 / 1024) flags).memory
      machine.cr3 (vaddr / 4096) = 0 := by
    rw [with_table_entry _ spaces free (by omega) absent spaces.member low, if_neg notWindow, pageEntry,
      if_neg absent]
  have mapping := @map_page_table (withTable machine frame (vaddr / 4096 / 1024) flags) vaddr paddr
    kept.spaces.selfMapped (by omega) flags table
  have cr3 : (withTable machine frame (vaddr / 4096 / 1024) flags).cr3 = machine.cr3 := rfl
  rw [cr3, directory, entry, if_neg not_present_zero] at mapping
  rw [map_page_made (by omega) made kept.spaces.selfMapped table, mapping, if_neg]
  · exact ⟨_, rfl⟩
  · rintro ⟨user, refused⟩
    exact (get_flags_user_iff _).2 ((table_entry_user frame flags).2 ((user_mask_iff _).1 user)) refused

/-- `map_page` reports a page that was mapped, or maps it. -/
theorem map_page_ok (spaces : Spaces machine roots) (free : FreeList machine roots frames)
    (low : vaddr / 4096 < 1047552) (notWindow : vaddr / 4096 ≠ windowPage machine)
    (address : paddr < 4294967296) (small : flags < 4096)
    (completed : mapPage machine vaddr paddr flags = .ok (mapped, next)) :
    (mapped = true ∧ next = machine ∧ Present (pageEntry machine.memory machine.cr3 (vaddr / 4096))) ∨
      (mapped = false ∧ ∃ rest, Mapped machine next roots frames rest (vaddr / 4096) paddr flags) := by
  have bounded : vaddr < 4294967296 := by omega
  have entryBound := create_entry_lt address small
  by_cases present : Present (directoryEntry machine.memory machine.cr3 (vaddr / 4096 / 1024))
  · rw [map_page_table spaces.selfMapped bounded present] at completed
    split_ifs at completed with refused there
    · left
      cases completed
      exact ⟨rfl, rfl, there⟩
    · right
      cases completed
      refine ⟨rfl, frames, ?_⟩
      have kept := kept_fill_slot spaces free low present entryBound notWindow
      refine ⟨kept, there, ?_, ?_, ?_, .inl ⟨present, rfl, rfl, rfl⟩⟩
      · have same := kept.directory _ spaces.member (vaddr / 4096 / 1024) (by omega) present
        exact same.symm ▸ present
      · intro user
        have same := kept.directory _ spaces.member (vaddr / 4096 / 1024) (by omega) present
        have allowed : getFlags (directoryEntry machine.memory machine.cr3 (vaddr / 4096 / 1024)) &&& 4
            ≠ 0 := fun none => refused ⟨user, none⟩
        exact same.symm ▸ (get_flags_user_iff _).1 allowed
      · intro other member position high _
        exact fill_slot_entry spaces low present entryBound member high
  · cases frames with
    | nil =>
        have empty : allocFrame machine = .error .assertion := alloc_frame_empty free.linked
        rw [mapPage, makePageTable, get_pd_index_page, pde_ok spaces.selfMapped (by omega),
          Trap.ok_bind, if_pos (mt (entry_present_iff _).1 present), empty] at completed
        cases completed
    | cons frame rest =>
        have made := make_page_table_ok flags spaces free (by omega) present
        have kept := kept_with_table flags spaces free (by omega) present
        have directory : directoryEntry (withTable machine frame (vaddr / 4096 / 1024) flags).memory
            machine.cr3 (vaddr / 4096 / 1024) = tableEntry frame flags := by
          rw [with_table_directory _ spaces free (by omega) present spaces.member (by omega),
            if_pos ⟨rfl, rfl⟩]
        have table : Present (directoryEntry
            (withTable machine frame (vaddr / 4096 / 1024) flags).memory machine.cr3
              (vaddr / 4096 / 1024)) := directory ▸ create_entry_present _ _
        have entry : pageEntry (withTable machine frame (vaddr / 4096 / 1024) flags).memory
            machine.cr3 (vaddr / 4096) = 0 := by
          rw [with_table_entry _ spaces free (by omega) present spaces.member low, if_neg notWindow,
            pageEntry, if_neg present]
        rw [map_page_made (by omega) made kept.spaces.selfMapped table,
          map_page_table kept.spaces.selfMapped bounded table] at completed
        split_ifs at completed with refused there
        · have none : Present (pageEntry (withTable machine frame (vaddr / 4096 / 1024) flags).memory
              machine.cr3 (vaddr / 4096)) := there
          rw [entry] at none
          exact absurd none not_present_zero
        · right
          cases completed
          refine ⟨rfl, rest, ?_⟩
          have window : vaddr / 4096 ≠ windowPage (withTable machine frame (vaddr / 4096 / 1024) flags) :=
            notWindow
          have filled := kept_fill_slot kept.spaces kept.free low table entryBound window
          have both := kept_trans kept filled
          have same := filled.directory _ spaces.member (vaddr / 4096 / 1024) (by omega) table
          refine ⟨both, ?_, ?_, ?_, ?_, .inr ⟨present, frame, rfl, rfl, rfl⟩⟩
          · rw [pageEntry, if_neg present]
            exact not_present_zero
          · exact same.symm ▸ table
          · intro user
            have allowed : getFlags (directoryEntry
                (withTable machine frame (vaddr / 4096 / 1024) flags).memory machine.cr3
                  (vaddr / 4096 / 1024)) &&& 4 ≠ 0 := fun none => refused ⟨user, none⟩
            exact same.symm ▸ (get_flags_user_iff _).1 allowed
          · intro other member position high notHere
            have written := fill_slot_entry kept.spaces low table entryBound member high
            have before := with_table_entry flags spaces free (by omega) present member high
            rw [if_neg notHere] at before
            rw [before] at written
            have tied := kept_tied kept spaces.member member low
            change pageEntry _ other position = if position = vaddr / 4096 ∧
              Tied (withTable machine frame (vaddr / 4096 / 1024) flags) machine.cr3 other
                (vaddr / 4096) then _ else _ at written
            refine written.trans ?_
            simp only [tied]

end MapPage

end ParadiseOS.PagingMaps
