import ParadiseOS.MemModel
import ParadiseOS.PagingMaps

/-!
# Backing a page with a frame, and freeing it

One round of `alloc_pages` takes a frame from the free list for the page, and a
second one where the page has no table yet; one round of `free_pages` gives the
frame of the page back. All other entries keep their values.
-/

namespace ParadiseOS.FrameSteps

open MachineWord PagingModel PagingSteps PagingMaps TwoLevelPaging

set_option autoImplicit false

/-- Only memory, the head of the free list and the count of used frames differ. -/
def SameGlobals (machine next : Machine) : Prop :=
  next = { machine with
    memory := next.memory
    freeFramePaddr := next.freeFramePaddr
    usedFrames := next.usedFrames }

section Globals

variable {machine middle next : Machine}

theorem same_globals_refl (machine : Machine) : SameGlobals machine machine := rfl

theorem same_globals_trans (first : SameGlobals machine middle) (second : SameGlobals middle next) :
    SameGlobals machine next := by
  unfold SameGlobals at first second ⊢
  rw [second, first]

theorem same_globals_cr3 (same : SameGlobals machine next) : next.cr3 = machine.cr3 := by
  rw [same]

theorem same_globals_window (same : SameGlobals machine next) : windowPage next = windowPage machine := by
  rw [same]
  rfl

/-- The same memory, registers and free list, whatever the other globals are. -/
structure SamePaging (machine next : Machine) : Prop where
  memory : next.memory = machine.memory
  cr3 : next.cr3 = machine.cr3
  current : next.currentPageDir = machine.currentPageDir
  head : next.freeListHead = machine.freeListHead
  headPte : next.freeListHeadPte = machine.freeListHeadPte
  top : next.freeFramePaddr = machine.freeFramePaddr

theorem spaces_same_paging {roots : List Nat} (same : SamePaging machine next)
    (spaces : Spaces machine roots) : Spaces next roots := by
  apply spaces_same_on spaces _ same.cr3 same.current same.head same.headPte
  intro root _ cell _ _
  rw [same.memory]

theorem free_list_same_paging {roots frames : List Nat} (same : SamePaging machine next)
    (free : FreeList machine roots frames) : FreeList next roots frames where
  linked := by
    rw [same.memory, same.top]
    exact free.linked
  nodup := free.nodup
  aligned := free.aligned
  positive := free.positive
  bounded := free.bounded
  notRoot := free.notRoot
  notTable := by
    rw [same.memory]
    exact free.notTable
  window := by
    rw [windowPage, same.memory, same.cr3, same.head, same.top]
    exact free.window

end Globals

section Directories

variable {machine next : Machine} {roots frames rest : List Nat} {page paddr flags : Nat}

/-- Mapping a page changes at most the directory entry of its table. -/
theorem mapped_directory (spaces : Spaces machine roots) (free : FreeList machine roots frames)
    (low : page < 1047552) (mapped : Mapped machine next roots frames rest page paddr flags)
    {root index : Nat} (member : root ∈ roots) (high : index < 1024)
    (other : ¬ (root = machine.cr3 ∧ index = page / 1024 ∧
      ¬ Present (directoryEntry machine.memory machine.cr3 (page / 1024)))) :
    directoryEntry next.memory root index = directoryEntry machine.memory root index := by
  rcases mapped.taken with ⟨present, _, _, written⟩ | ⟨absent, frame, taken, _, written⟩
  · rw [written]
    exact directory_entry_same_on
      (slot_write_roots spaces.family spaces.member low present root member) high
  · subst taken
    have kept := kept_with_table flags spaces free (by omega) absent
    have own := with_table_directory flags spaces free (by omega) absent
      spaces.member (show page / 1024 < 1024 by omega)
    rw [if_pos ⟨rfl, rfl⟩] at own
    have present : Present (directoryEntry
        (withTable machine frame (page / 1024) flags).memory machine.cr3 (page / 1024)) := by
      rw [own]
      exact create_entry_present _ _
    have before := with_table_directory flags spaces free (by omega) absent member high
    rw [if_neg (fun here => other ⟨here.1, here.2, absent⟩)] at before
    rw [written, ← before]
    exact directory_entry_same_on
      (slot_write_roots kept.spaces.family kept.spaces.member low present root member) high

/-- Where there was no table, the top frame became one. -/
theorem mapped_new_table (spaces : Spaces machine roots) (free : FreeList machine roots frames)
    (low : page < 1047552) (mapped : Mapped machine next roots frames rest page paddr flags)
    (absent : ¬ Present (directoryEntry machine.memory machine.cr3 (page / 1024))) :
    ∃ table, frames = table :: rest ∧ next.usedFrames = u32 (machine.usedFrames + 1) ∧
      directoryEntry next.memory machine.cr3 (page / 1024) = tableEntry table flags := by
  rcases mapped.taken with ⟨present, _⟩ | ⟨_, frame, taken, used, written⟩
  · exact absurd present absent
  · subst taken
    refine ⟨frame, rfl, used, ?_⟩
    have kept := kept_with_table flags spaces free (by omega) absent
    have own := with_table_directory flags spaces free (by omega) absent
      spaces.member (show page / 1024 < 1024 by omega)
    rw [if_pos ⟨rfl, rfl⟩] at own
    have present : Present (directoryEntry
        (withTable machine frame (page / 1024) flags).memory machine.cr3 (page / 1024)) := by
      rw [own]
      exact create_entry_present _ _
    rw [written, ← own]
    exact directory_entry_same_on (slot_write_roots kept.spaces.family kept.spaces.member low present
      machine.cr3 spaces.member) (by omega)

theorem mapped_old_table (mapped : Mapped machine next roots frames rest page paddr flags)
    (present : Present (directoryEntry machine.memory machine.cr3 (page / 1024))) :
    rest = frames ∧ next.usedFrames = machine.usedFrames := by
  rcases mapped.taken with ⟨_, same, used, _⟩ | ⟨absent, _⟩
  · exact ⟨same, used⟩
  · exact absurd present absent

end Directories

/-- A frame from the list backs a page that was not mapped. -/
structure Backed (machine next : Machine) (roots frames rest : List Nat) (page frame flags : Nat) :
    Prop where
  globals : SameGlobals machine next
  spaces : Spaces next roots
  free : FreeList next roots rest
  absent : ¬ Present (pageEntry machine.memory machine.cr3 page)
  notWindow : page ≠ windowPage machine
  table : Present (directoryEntry next.memory machine.cr3 (page / 1024))
  userTable : flags &&& 4 ≠ 0 → UserMode (directoryEntry next.memory machine.cr3 (page / 1024))
  entries : ∀ other ∈ roots, ∀ position < 1047552, position ≠ windowPage machine →
    pageEntry next.memory other position =
      if position = page ∧ Tied machine machine.cr3 other page then createEntry frame flags
      else pageEntry machine.memory other position
  directories : ∀ other ∈ roots, ∀ index < 1024,
    ¬ (other = machine.cr3 ∧ index = page / 1024 ∧
      ¬ Present (directoryEntry machine.memory machine.cr3 (page / 1024))) →
    directoryEntry next.memory other index = directoryEntry machine.memory other index
  ties : ∀ root ∈ roots, ∀ other ∈ roots, root ≠ other → ∀ position < 1047552,
    (Shares next.memory root other position ↔ Shares machine.memory root other position)
  taken : (Present (directoryEntry machine.memory machine.cr3 (page / 1024)) ∧
      frames = frame :: rest ∧ next.usedFrames = u32 (machine.usedFrames + 1)) ∨
    (¬ Present (directoryEntry machine.memory machine.cr3 (page / 1024)) ∧
      ∃ table, frames = frame :: table :: rest ∧
        next.usedFrames = u32 (u32 (machine.usedFrames + 1) + 1) ∧
        directoryEntry next.memory machine.cr3 (page / 1024) = tableEntry table flags)
  inUse : ∀ other, InUse next roots rest other ↔ InUse machine roots frames other ∧ other ≠ frame
  outside : ∀ other, other % 4096 = 0 → ¬ InUse next roots rest other →
    SameOn machine.memory next.memory other

section Backing

variable {machine next : Machine} {roots frames : List Nat} {vaddr flags : Nat}

/-- The state between taking the frame and mapping the page. -/
def popped (machine : Machine) (frame : Nat) : Machine :=
  { machine with
    memory := popMemory machine frame
    freeFramePaddr := readWord machine.memory frame
    usedFrames := u32 (machine.usedFrames + 1) }

theorem popped_entry (spaces : Spaces machine roots) (frame : Nat) {root page : Nat} (member : root ∈ roots)
    (low : page < 1047552) (notWindow : page ≠ windowPage machine) :
    pageEntry (popped machine frame).memory root page = pageEntry machine.memory root page := by
  have kept := page_entry_pop spaces frame member low
  rw [if_neg notWindow] at kept
  exact kept

theorem popped_directory (spaces : Spaces machine roots) (frame : Nat) {root index : Nat} (member : root ∈ roots)
    (high : index < 1024) :
    directoryEntry (popped machine frame).memory root index = directoryEntry machine.memory root index :=
  directory_entry_same_on (spaces.window_write_roots _ root member) high

theorem popped_shares (spaces : Spaces machine roots) {frame root other page : Nat}
    (member : root ∈ roots) (second : other ∈ roots) (low : page < 1048576) :
    Shares (popped machine frame).memory root other page ↔ Shares machine.memory root other page :=
  shares_same_on (spaces.window_write_roots _ root member) (spaces.window_write_roots _ other second) low

theorem popped_in_use (spaces : Spaces machine roots) {frame : Nat} {rest : List Nat}
    (free : FreeList machine roots (frame :: rest)) (other : Nat) :
    InUse (popped machine frame) roots rest other ↔
      InUse machine roots (frame :: rest) other ∧ other ≠ frame := by
  have absent := (List.nodup_cons.1 free.nodup).1
  have table : IsTable (popped machine frame).memory roots other ↔ IsTable machine.memory roots other :=
    is_table_pop spaces other
  unfold InUse
  rw [table, List.mem_cons]
  constructor
  · rintro (root | isTable | member)
    · exact ⟨.inl root, fun same => free.notRoot frame List.mem_cons_self (same ▸ root)⟩
    · exact ⟨.inr (.inl isTable),
        fun same => free.notTable frame List.mem_cons_self (same ▸ isTable)⟩
    · exact ⟨.inr (.inr (.inr member)), fun same => absent (same ▸ member)⟩
  · rintro ⟨root | isTable | same | member, differ⟩
    · exact .inl root
    · exact .inr (.inl isTable)
    · exact absurd same differ
    · exact .inr (.inr member)

theorem popped_outside (spaces : Spaces machine roots) {frame : Nat} {rest : List Nat} {other : Nat}
    (aligned : other % 4096 = 0) (unused : ¬ InUse (popped machine frame) roots rest other) :
    SameOn machine.memory (popped machine frame).memory other := by
  apply write_same_on (frame_of_aligned _) aligned (by omega)
  intro same
  have table := is_table_of_present spaces.member spaces.windowLow spaces.windowTable
  exact unused (.inr (.inl ((is_table_pop spaces _).2 (same ▸ table))))

/-- The window on the free list is a mapped page. -/
theorem window_present {frames : List Nat} (free : FreeList machine roots frames) :
    Present (pageEntry machine.memory machine.cr3 (windowPage machine)) := by
  rw [free.window]
  exact create_entry_present _ _

/-- `map_page` does not map a page again. -/
theorem map_page_fresh {paddr : Nat} (selfMapped : SelfMapped machine.memory machine.cr3)
    (bounded : vaddr < 4294967296) (mapping : mapPage machine vaddr paddr flags = .ok (false, next)) :
    ¬ Present (pageEntry machine.memory machine.cr3 (vaddr / 4096)) := by
  intro present
  rw [map_page_table selfMapped bounded (page_entry_present present)] at mapping
  split_ifs at mapping
  simp only [Except.ok.injEq, Prod.mk.injEq, Bool.true_eq_false, false_and] at mapping

/-- `alloc_page` backs a page that was not mapped. -/
theorem alloc_page_ok (spaces : Spaces machine roots) (free : FreeList machine roots frames)
    (low : vaddr / 4096 < 1047552) (small : flags < 4096)
    (completed : MemModel.allocPage machine vaddr flags = .ok next) :
    ∃ frame rest, frame ∈ frames ∧ Backed machine next roots frames rest (vaddr / 4096) frame flags := by
  cases frames with
  | nil =>
      rw [MemModel.allocPage, alloc_frame_empty free.linked, Trap.error_bind] at completed
      cases completed
  | cons frame frames =>
      have poppedSpaces : Spaces (popped machine frame) roots := spaces_pop spaces frame _ _
      have poppedFree : FreeList (popped machine frame) roots frames := free_list_pop spaces free _
      rw [MemModel.allocPage, alloc_frame_ok spaces free, Trap.ok_bind] at completed
      change (mapPage (popped machine frame) vaddr frame flags >>= _) = _ at completed
      obtain ⟨⟨mapped, final⟩, mapping, completed⟩ := Trap.bind_eq_ok.mp completed
      obtain ⟨_, fresh, completed⟩ := Trap.bind_eq_ok.mp completed
      rw [Trap.kernel_assert_eq_ok] at fresh
      rw [Trap.pure_ok, Except.ok.injEq] at completed
      subst completed
      have bounded := free.bounded frame List.mem_cons_self
      have unmapped : ¬ Present (pageEntry (popped machine frame).memory machine.cr3 (vaddr / 4096)) :=
        map_page_fresh poppedSpaces.selfMapped (by omega) (fresh ▸ mapping)
      have notWindow : vaddr / 4096 ≠ windowPage machine := by
        intro same
        rw [same] at unmapped
        exact unmapped (window_present poppedFree)
      rcases map_page_ok poppedSpaces poppedFree low notWindow bounded small mapping with
        ⟨taken, _⟩ | ⟨_, rest, done⟩
      · rw [taken] at fresh
        cases fresh
      refine ⟨frame, rest, List.mem_cons_self, ?_⟩
      have cr3 : (popped machine frame).cr3 = machine.cr3 := rfl
      have entry := popped_entry spaces frame spaces.member low notWindow
      have directory := popped_directory spaces frame spaces.member
        (show vaddr / 4096 / 1024 < 1024 by omega)
      refine ⟨?_, done.kept.spaces, done.kept.free, ?_, notWindow, done.table, done.userTable, ?_, ?_,
        ?_, ?_, ?_, ?_⟩
      · have first : SameGlobals machine (popped machine frame) := rfl
        exact same_globals_trans first done.kept.globals
      · have absent := done.absent
        rw [cr3, entry] at absent
        exact absent
      · intro other member position high notHere
        have seen := done.entries other member position high notHere
        have before := popped_entry spaces frame member high notHere
        have tied : Tied (popped machine frame) machine.cr3 other (vaddr / 4096) ↔
            Tied machine machine.cr3 other (vaddr / 4096) :=
          or_congr Iff.rfl (popped_shares spaces spaces.member member (by omega))
        rw [seen, before, cr3]
        simp only [tied]
      · intro other member index high differ
        have seen := mapped_directory poppedSpaces poppedFree low done member high (by
          rw [cr3, directory]
          exact differ)
        exact seen.trans (popped_directory spaces _ member high)
      · intro root member other second differ position high
        exact (done.kept.ties root member other second differ position high).trans
          (popped_shares spaces member second (by omega))
      · by_cases present : Present (directoryEntry machine.memory machine.cr3 (vaddr / 4096 / 1024))
        · rw [← directory] at present
          obtain ⟨same, used⟩ := mapped_old_table done present
          rw [directory] at present
          exact .inl ⟨present, by rw [same], used⟩
        · rw [← directory] at present
          obtain ⟨table, taken, used, made⟩ := mapped_new_table poppedSpaces poppedFree low done present
          rw [directory] at present
          exact .inr ⟨present, table, by rw [taken], used, made⟩
      · intro other
        exact (done.kept.inUse other).trans (popped_in_use spaces free other)
      · intro other aligned unused cell first last
        have between : ¬ InUse (popped machine frame) roots frames other :=
          fun used => unused ((done.kept.inUse other).2 used)
        exact (done.kept.outside other aligned between cell first last).trans
          (popped_outside spaces aligned between cell first last)

/-- With a page table and a free frame, a page for the kernel can be backed. -/
theorem alloc_page_returns {frame : Nat} {rest : List Nat} (spaces : Spaces machine roots)
    (free : FreeList machine roots (frame :: rest)) (low : vaddr / 4096 < 1047552)
    (notWindow : vaddr / 4096 ≠ windowPage machine)
    (table : Present (directoryEntry machine.memory machine.cr3 (vaddr / 4096 / 1024)))
    (absent : ¬ Present (pageEntry machine.memory machine.cr3 (vaddr / 4096))) (kernel : flags &&& 4 = 0) :
    ∃ next, MemModel.allocPage machine vaddr flags = .ok next := by
  have poppedSpaces : Spaces (popped machine frame) roots := spaces_pop spaces frame _ _
  have directory : directoryEntry (popped machine frame).memory machine.cr3 (vaddr / 4096 / 1024) = _ :=
    popped_directory spaces _ spaces.member (by omega)
  have entry : pageEntry (popped machine frame).memory machine.cr3 (vaddr / 4096) = _ :=
    popped_entry spaces _ spaces.member low notWindow
  have mapping : mapPage (popped machine frame) vaddr frame flags = _ :=
    map_page_table poppedSpaces.selfMapped (by omega) (directory.symm ▸ table)
  have cr3 : (popped machine frame).cr3 = machine.cr3 := rfl
  rw [cr3, entry, if_neg (fun both => both.1 kernel), if_neg absent] at mapping
  rw [MemModel.allocPage, alloc_frame_ok spaces free, Trap.ok_bind]
  change ∃ next, (mapPage (popped machine frame) vaddr frame flags >>= _) = .ok next
  rw [mapping]
  exact ⟨_, rfl⟩

/-- `alloc_page` makes the page table if there is a second frame. -/
theorem alloc_page_new_table_returns {frame table : Nat} {rest : List Nat} (spaces : Spaces machine roots)
    (free : FreeList machine roots (frame :: table :: rest)) (low : vaddr / 4096 < 1047552)
    (notWindow : vaddr / 4096 ≠ windowPage machine)
    (missing : ¬ Present (directoryEntry machine.memory machine.cr3 (vaddr / 4096 / 1024))) :
    ∃ next, MemModel.allocPage machine vaddr flags = .ok next := by
  have poppedSpaces : Spaces (popped machine frame) roots := spaces_pop spaces frame _ _
  have poppedFree : FreeList (popped machine frame) roots (table :: rest) := free_list_pop spaces free _
  have directory : directoryEntry (popped machine frame).memory (popped machine frame).cr3
      (vaddr / 4096 / 1024) = _ := popped_directory spaces _ spaces.member (by omega)
  obtain ⟨next, mapping⟩ := @map_page_new_table _ _ _ flags frame _ _ poppedSpaces poppedFree low notWindow
    (directory.symm ▸ missing)
  rw [MemModel.allocPage, alloc_frame_ok spaces free, Trap.ok_bind]
  change ∃ next, (mapPage (popped machine frame) vaddr frame flags >>= _) = .ok next
  rw [mapping]
  exact ⟨next, rfl⟩

/-- Pages of the last 4 MiB show the directory. -/
theorem page_entry_high {page : Nat} (selfMapped : SelfMapped machine.memory machine.cr3)
    (low : 1047552 ≤ page) (high : page < 1048576) :
    pageEntry machine.memory machine.cr3 page =
      directoryEntry machine.memory machine.cr3 (page - 1047552) := by
  have seen := page_entry_self_map selfMapped (show page - 1047552 < 1024 by omega)
  have same : 1023 * 1024 + (page - 1047552) = page := by omega
  rw [same] at seen
  exact seen

/-- The page at 0xFFC00000 shows the table of low memory. -/
theorem window_page_present (spaces : Spaces machine roots)
    (low : Present (directoryEntry machine.memory machine.cr3 0)) :
    Present (pageEntry machine.memory machine.cr3 1047552) := by
  rw [page_entry_high spaces.selfMapped (by omega) (by omega)]
  exact low

/-- What holds of every mapped page after a step that keeps tables and entries. -/
theorem present_kept {rest : List Nat} (spaces : Spaces machine roots) (after : Spaces next roots)
    (free : FreeList next roots rest) (cr3 : next.cr3 = machine.cr3)
    (window : windowPage next = windowPage machine)
    (directory : ∀ index < 1024, Present (directoryEntry machine.memory machine.cr3 index) →
      Present (directoryEntry next.memory machine.cr3 index))
    (entry : ∀ page < 1047552, page ≠ windowPage machine →
      Present (pageEntry machine.memory machine.cr3 page) →
      Present (pageEntry next.memory machine.cr3 page))
    {page : Nat} (bounded : page < 1048576)
    (present : Present (pageEntry machine.memory machine.cr3 page)) :
    Present (pageEntry next.memory next.cr3 page) := by
  by_cases high : 1047552 ≤ page
  · rw [page_entry_high spaces.selfMapped high bounded] at present
    rw [page_entry_high after.selfMapped high bounded, cr3]
    exact directory _ (by omega) present
  · by_cases here : page = windowPage machine
    · rw [here, ← window]
      exact window_present free
    · rw [cr3]
      exact entry page (by omega) here present

theorem popped_present {frame : Nat} {rest : List Nat} (spaces : Spaces machine roots)
    (free : FreeList machine roots (frame :: rest)) {page : Nat} (bounded : page < 1048576)
    (present : Present (pageEntry machine.memory machine.cr3 page)) :
    Present (pageEntry (popped machine frame).memory (popped machine frame).cr3 page) := by
  have after : Spaces (popped machine frame) roots := spaces_pop spaces frame _ _
  have afterFree : FreeList (popped machine frame) roots rest := free_list_pop spaces free _
  have cr3 : (popped machine frame).cr3 = machine.cr3 := rfl
  have window : windowPage (popped machine frame) = windowPage machine := rfl
  refine present_kept spaces after afterFree cr3 window ?_ ?_ bounded present
  · intro index high there
    have same := popped_directory spaces frame spaces.member high
    exact same.symm ▸ there
  · intro page low notWindow there
    have same := popped_entry spaces frame spaces.member low notWindow
    exact same.symm ▸ there

theorem backed_present {frame page : Nat} {rest : List Nat} (spaces : Spaces machine roots)
    (backed : Backed machine next roots frames rest page frame flags) {other : Nat}
    (bounded : other < 1048576) (present : Present (pageEntry machine.memory machine.cr3 other)) :
    Present (pageEntry next.memory next.cr3 other) := by
  have cr3 := same_globals_cr3 backed.globals
  refine present_kept spaces backed.spaces backed.free cr3 (same_globals_window backed.globals) ?_ ?_
    bounded present
  · intro index high there
    rw [backed.directories _ spaces.member index high]
    · exact there
    · rintro ⟨_, same, absent⟩
      exact absent (same ▸ there)
  · intro position low notWindow there
    rw [backed.entries _ spaces.member position low notWindow]
    split_ifs
    · exact create_entry_present _ _
    · exact there

/-- Without a free page there is no success. -/
theorem alloc_page_absent (spaces : Spaces machine roots) (free : FreeList machine roots frames)
    (bounded : vaddr < 4294967296) (completed : MemModel.allocPage machine vaddr flags = .ok next) :
    ¬ Present (pageEntry machine.memory machine.cr3 (vaddr / 4096)) := by
  intro present
  cases frames with
  | nil =>
      rw [MemModel.allocPage, alloc_frame_empty free.linked, Trap.error_bind] at completed
      cases completed
  | cons frame frames =>
      have poppedSpaces : Spaces (popped machine frame) roots := spaces_pop spaces frame _ _
      rw [MemModel.allocPage, alloc_frame_ok spaces free, Trap.ok_bind] at completed
      change (mapPage (popped machine frame) vaddr frame flags >>= _) = _ at completed
      obtain ⟨⟨mapped, final⟩, mapping, completed⟩ := Trap.bind_eq_ok.mp completed
      obtain ⟨_, fresh, _⟩ := Trap.bind_eq_ok.mp completed
      rw [Trap.kernel_assert_eq_ok] at fresh
      exact map_page_fresh poppedSpaces.selfMapped bounded (fresh ▸ mapping)
        (popped_present spaces free (by omega) present)

theorem alloc_pages_succ (machine : Machine) (vaddr flags count : Nat) :
    allocPages machine vaddr flags (count + 1) =
      (MemModel.allocPage machine vaddr flags >>= fun next =>
        allocPages next (u32 (vaddr + pageSize)) flags count) := by
  simp only [allocPages, MemModel.allocPage, bind_assoc, pure_bind]

/-- Pages are backed in order, and none that was mapped before is among them. -/
theorem alloc_pages_stops (count : Nat) {limit : Nat} (limitBound : limit ≤ 1047552)
    (spaces : Spaces machine roots) (free : FreeList machine roots frames) (small : flags < 4096)
    (present : Present (pageEntry machine.memory machine.cr3 limit)) (below : vaddr / 4096 ≤ limit)
    (completed : allocPages machine vaddr flags count = .ok next) :
    vaddr / 4096 + count ≤ limit := by
  induction count generalizing machine vaddr frames with
  | zero => exact below
  | succ count ih =>
      rw [alloc_pages_succ] at completed
      obtain ⟨middle, first, completed⟩ := Trap.bind_eq_ok.mp completed
      have absent := alloc_page_absent spaces free (by omega) first
      have differ : vaddr / 4096 ≠ limit := fun same => absent (same ▸ present)
      obtain ⟨frame, rest, _, backed⟩ := alloc_page_ok spaces free (by omega) small first
      have after : u32 (vaddr + pageSize) = vaddr + 4096 := u32_of_lt (by unfold pageSize; omega)
      rw [after] at completed
      have later := ih backed.spaces backed.free (backed_present spaces backed (by omega) present)
        (by omega) completed
      omega

/-- What a number of rounds keeps: the paging structures stay sound, and mapped pages mapped. -/
structure Grown (machine next : Machine) (roots rest : List Nat) : Prop where
  globals : SameGlobals machine next
  spaces : Spaces next roots
  free : FreeList next roots rest
  present : ∀ page < 1048576, Present (pageEntry machine.memory machine.cr3 page) →
    Present (pageEntry next.memory next.cr3 page)

theorem alloc_pages_grown (count : Nat) {limit : Nat} (limitBound : limit ≤ 1047552)
    (spaces : Spaces machine roots) (free : FreeList machine roots frames) (small : flags < 4096)
    (within : vaddr / 4096 + count ≤ limit)
    (completed : allocPages machine vaddr flags count = .ok next) :
    ∃ rest, Grown machine next roots rest ∧ ∀ page, vaddr / 4096 ≤ page → page < vaddr / 4096 + count →
      Present (pageEntry next.memory next.cr3 page) := by
  induction count generalizing machine vaddr frames with
  | zero =>
      rw [allocPages, Except.ok.injEq] at completed
      subst completed
      refine ⟨frames, ⟨same_globals_refl machine, spaces, free, fun _ _ present => present⟩, ?_⟩
      intro page low high
      omega
  | succ count ih =>
      rw [alloc_pages_succ] at completed
      obtain ⟨middle, first, completed⟩ := Trap.bind_eq_ok.mp completed
      obtain ⟨frame, between, _, backed⟩ := alloc_page_ok spaces free (by omega) small first
      have after : u32 (vaddr + pageSize) = vaddr + 4096 := u32_of_lt (by unfold pageSize; omega)
      rw [after] at completed
      obtain ⟨rest, grown, filled⟩ := ih backed.spaces backed.free (by omega) completed
      have cr3 := same_globals_cr3 backed.globals
      have here : Present (pageEntry middle.memory middle.cr3 (vaddr / 4096)) := by
        rw [cr3, backed.entries _ spaces.member _ (by omega) backed.notWindow,
          if_pos ⟨rfl, .inl rfl⟩]
        exact create_entry_present _ _
      refine ⟨rest, ⟨same_globals_trans backed.globals grown.globals, grown.spaces, grown.free, ?_⟩, ?_⟩
      · intro page bounded present
        exact grown.present page bounded (backed_present spaces backed bounded present)
      · intro page low high
        by_cases same : page = vaddr / 4096
        · rw [same]
          exact grown.present _ (by omega) here
        · exact filled page (by omega) (by omega)

end Backing

/-- The frame behind a page of the current directory. -/
def backingFrame (machine : Machine) (page : Nat) : Nat :=
  frameOf (pageEntry machine.memory machine.cr3 page)

/-- A page was unmapped and its frame put on the list. -/
structure Freed (machine next : Machine) (roots frames : List Nat) (page : Nat) : Prop where
  globals : SameGlobals machine next
  spaces : Spaces next roots
  free : FreeList next roots (backingFrame machine page :: frames)
  present : Present (pageEntry machine.memory machine.cr3 page)
  used : next.usedFrames = sub32 machine.usedFrames 1
  entries : ∀ other ∈ roots, ∀ position < 1047552, position ≠ windowPage machine →
    pageEntry next.memory other position =
      if position = page ∧ Tied machine machine.cr3 other page then 0
      else pageEntry machine.memory other position
  directories : ∀ other ∈ roots, ∀ index < 1024,
    directoryEntry next.memory other index = directoryEntry machine.memory other index
  inUse : ∀ other, InUse next roots (backingFrame machine page :: frames) other ↔
    InUse machine roots frames other ∨ other = backingFrame machine page
  outside : ∀ other, other % 4096 = 0 →
    ¬ InUse next roots (backingFrame machine page :: frames) other →
    SameOn machine.memory next.memory other

section Freeing

variable {machine next : Machine} {roots frames : List Nat} {vaddr flags : Nat}

theorem in_use_push (spaces : Spaces machine roots) {frame : Nat}
    (freeable : Freeable machine roots frames frame) (other : Nat) :
    InUse { machine with
      memory := pushMemory machine frame
      freeFramePaddr := frame
      usedFrames := sub32 machine.usedFrames 1 } roots (frame :: frames) other ↔
      InUse machine roots frames other ∨ other = frame := by
  have table : IsTable (pushMemory machine frame) roots other ↔ IsTable machine.memory roots other :=
    is_table_same_on (push_roots spaces freeable) other
  unfold InUse
  rw [table, List.mem_cons]
  tauto

/-- `free_frame` leaves the frames that are not in use as they were. -/
theorem push_outside (spaces : Spaces machine roots) {frame other : Nat}
    (freeable : Freeable machine roots frames frame) (aligned : other % 4096 = 0)
    (unused : ¬ (InUse machine roots frames other ∨ other = frame)) :
    SameOn machine.memory (pushMemory machine frame) other := by
  rw [not_or] at unused
  apply push_same_on freeable aligned unused.2
  intro same
  exact unused.1 (.inr (.inl (same ▸
    is_table_of_present spaces.member spaces.windowLow spaces.windowTable)))

/-- Freeing a page whose frame is nobody else's. -/
theorem free_page_ok (spaces : Spaces machine roots) (free : FreeList machine roots frames)
    (low : vaddr / 4096 < 1047552) (notWindow : vaddr / 4096 ≠ windowPage machine)
    (freeable : Freeable machine roots frames (backingFrame machine (vaddr / 4096)))
    {removed : Option Nat} {middle : Machine}
    (unmapped : unmapPage machine vaddr = .ok (removed, middle)) {entry : Nat}
    (found : removed = some entry)
    (completed : freeFrame middle (getPaddr entry) = .ok next) :
    Freed machine next roots frames (vaddr / 4096) := by
  rw [unmap_page_ok spaces.selfMapped (by omega)] at unmapped
  split_ifs at unmapped with present
  · simp only [Except.ok.injEq, Prod.mk.injEq] at unmapped
    obtain ⟨first, second⟩ := unmapped
    rw [found, Option.some.injEq] at first
    have table := page_entry_present present
    have filled := kept_fill_slot spaces free low table (by decide : 0 < 4294967296) notWindow
    change fillSlot machine (vaddr / 4096) 0 = middle at second
    subst second
    have isFrame : getPaddr entry = backingFrame machine (vaddr / 4096) := by
      rw [← first, get_paddr_frame (page_entry_lt _ _ _), backingFrame]
    rw [isFrame] at completed
    have ready : Freeable (fillSlot machine (vaddr / 4096) 0) roots frames
        (backingFrame machine (vaddr / 4096)) :=
      ⟨freeable.aligned, freeable.positive, freeable.bounded,
        fun used => freeable.notUsed ((filled.inUse _).1 used)⟩
    rw [free_frame_ok filled.spaces ready, Except.ok.injEq] at completed
    subst completed
    refine ⟨rfl, spaces_push filled.spaces ready _, free_list_push filled.spaces filled.free ready _,
      present, rfl, ?_, ?_, ?_, ?_⟩
    · intro other member position high notHere
      have pushed := page_entry_push filled.spaces ready member high
      have window : windowPage (fillSlot machine (vaddr / 4096) 0) = windowPage machine := rfl
      rw [window, if_neg notHere] at pushed
      exact pushed.trans (fill_slot_entry spaces low table (by decide) member high)
    · intro other member index high
      have pushed := directory_entry_same_on (push_roots filled.spaces ready other member) high
      exact pushed.trans (directory_entry_same_on
        (slot_write_roots spaces.family spaces.member low table other member) high)
    · intro other
      exact (in_use_push filled.spaces ready other).trans (or_congr (filled.inUse other) Iff.rfl)
    · intro other aligned unused cell first last
      rw [in_use_push filled.spaces ready other] at unused
      have before : ¬ InUse machine roots frames other :=
        fun used => unused (.inl ((filled.inUse other).2 used))
      exact (push_outside filled.spaces ready aligned unused cell first last).trans
        (filled.outside other aligned before cell first last)
  · simp only [Except.ok.injEq, Prod.mk.injEq] at unmapped
    rw [found] at unmapped
    cases unmapped.1

end Freeing

end ParadiseOS.FrameSteps
