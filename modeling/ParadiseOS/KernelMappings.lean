import ParadiseOS.UnmapCalls

/-!
# The kernel's mappings under the mapping system calls

The calls look at the present bits of a range only. A page that is mapped for the kernel
stays if no range takes it, and its half stays closed to users if no range adds to it.
The window of the free list follows the top of the list, so that it moves with every page
table that is made.
-/

namespace ParadiseOS.KernelMappings

open MachineWord MapInstalls PagingChecks PagingModel PagingSteps PagingMaps SpaceCalls StepRun TransferMoves
open TwoLevelPaging UnmapCalls VirtModel VirtRanges
open RbTreeRuns (getProcess)

set_option autoImplicit false

section Statement

/-- A page that is mapped, but not for users. -/
def KernelPage (memory : Memory) (root page : Nat) : Prop :=
  Present (pageEntry memory root page) ∧ ¬ UserPage memory root page

instance (memory : Memory) (root page : Nat) : Decidable (KernelPage memory root page) :=
  inferInstanceAs (Decidable (_ ∧ _))

def InKernelHalf (page : Nat) : Prop := kernelPdiStart ≤ page / 1024 ∧ page / 1024 < kernelPdiEnd

instance (page : Nat) : Decidable (InKernelHalf page) := inferInstanceAs (Decidable (_ ∧ _))

variable (machine next : Machine) (roots : List Nat)

/-- No page table was taken away, the kernel's pages among the watched ones have the entries they
had, and users reach nothing new in the kernel's half. -/
structure KernelKept (watched : Nat → Prop) : Prop where
  directories : ∀ root ∈ roots, ∀ index < 1024, Present (directoryEntry machine.memory root index) →
    directoryEntry next.memory root index = directoryEntry machine.memory root index
  pages : ∀ root ∈ roots, ∀ page < 1048576, watched page → KernelPage machine.memory root page →
    pageEntry next.memory root page = pageEntry machine.memory root page
  opened : ∀ root ∈ roots, ∀ page, InKernelHalf page → UserPage next.memory root page →
    UserPage machine.memory root page ∧
      pageEntry next.memory root page = pageEntry machine.memory root page

/-- A call of the process that runs with a directory. -/
structure UserCall where
  directory : Nat
  call : SpaceCall

def userStep (call : UserCall) : Except Trap (SyscallResult × Machine) :=
  spaceStep (setPageDir machine call.directory) call.call

/-- No directory that shows a page of the range maps it for the kernel. -/
def NoKernelPages (root vaddr n : Nat) : Prop :=
  ∀ i < n, ∀ other ∈ roots, Tied machine root other (pageOf vaddr i) →
    ¬ KernelPage machine.memory other (pageOf vaddr i)

/-- The two regions of a transfer. -/
def sourceOf (vaddrSrc aidPair : Nat) : Region := ⟨spaceOf machine (aidPair &&& 0xFFFF), vaddrSrc⟩
def destinationOf (vaddrDst aidPair : Nat) : Region :=
  ⟨spaceOf machine ((aidPair >>> 16) &&& 0xFFFF), vaddrDst⟩

/-- A call that is carried out takes no page of the kernel, adds none in its half, and stores nothing
on paging structures or free frames. -/
def SparesKernel : SpaceCall → Prop
  | .map aid vaddr paddr n _ => MapCalls.Accepted machine aid (spaceOf machine aid) vaddr paddr n →
      ∀ i < n, ¬ InKernelHalf (pageOf vaddr i)
  | .unmap aid vaddr paddr n => Unmappable machine aid (spaceOf machine aid) vaddr paddr n →
      NoKernelPages machine roots (spaceOf machine aid) vaddr n ∧
        PlainArray machine roots (spaceOf machine aid) paddr n
  | .transfer vaddrSrc vaddrDst aidPair n =>
      ((∀ i < n, Present (pageEntry machine.memory (sourceOf machine vaddrSrc aidPair).root
        (pageOf vaddrSrc i))) → ∀ i < n, pageOf vaddrSrc i < 1047552) ∧
      (TransferMoves.Accepted machine aidPair (sourceOf machine vaddrSrc aidPair)
          (destinationOf machine vaddrDst aidPair) n →
        NoKernelPages machine roots (sourceOf machine vaddrSrc aidPair).root vaddrSrc n ∧
          ∀ j < n, ¬ InKernelHalf (pageOf vaddrDst j))

/-- A call that is carried out finds all page tables that it needs. -/
def FindsTables : SpaceCall → Prop
  | .map aid vaddr paddr n _ => MapCalls.Accepted machine aid (spaceOf machine aid) vaddr paddr n →
      MapCalls.Tabled machine (spaceOf machine aid) vaddr n
  | .unmap _ _ _ _ => True
  | .transfer vaddrSrc vaddrDst aidPair n =>
      TransferMoves.Accepted machine aidPair (sourceOf machine vaddrSrc aidPair)
        (destinationOf machine vaddrDst aidPair) n →
      MapCalls.Tabled machine (destinationOf machine vaddrDst aidPair).root vaddrDst n

end Statement

section Keeping

variable {machine middle next : Machine} {roots frames rest : List Nat} {watched : Nat → Prop}

theorem kernel_kept_refl (machine : Machine) (roots : List Nat) (watched : Nat → Prop) :
    KernelKept machine machine roots watched :=
  ⟨fun _ _ _ _ _ => rfl, fun _ _ _ _ _ _ => rfl, fun _ _ _ _ reached => ⟨reached, rfl⟩⟩

/-- A kernel page whose entry and table are kept is a kernel page afterwards. -/
theorem kernel_page_kept {root page : Nat} (member : root ∈ roots) (small : page < 1048576)
    (kept : KernelKept machine next roots watched) (seen : watched page)
    (kernel : KernelPage machine.memory root page) : KernelPage next.memory root page := by
  have entry := kept.pages root member page small seen kernel
  have directory := kept.directories root member (page / 1024) (by omega) (page_entry_present kernel.1)
  unfold KernelPage UserPage at kernel ⊢
  rw [entry, directory]
  exact kernel

theorem kernel_kept_trans (first : KernelKept machine middle roots watched)
    (second : KernelKept middle next roots watched) : KernelKept machine next roots watched where
  directories root member index small present := by
    have kept := first.directories root member index small present
    rw [second.directories root member index small (kept ▸ present), kept]
  pages root member page small seen kernel := by
    rw [second.pages root member page small seen (kernel_page_kept member small first seen kernel),
      first.pages root member page small seen kernel]
  opened root member page half reached := by
    obtain ⟨before, entry⟩ := second.opened root member page half reached
    obtain ⟨earlier, same⟩ := first.opened root member page half before
    exact ⟨earlier, entry.trans same⟩

/-- The tables' own pages show the directories, so that it is enough to look below them. -/
theorem kernel_kept_of_low (spaces : Spaces machine roots) (nextSpaces : Spaces next roots)
    (directories : ∀ root ∈ roots, ∀ index < 1024, Present (directoryEntry machine.memory root index) →
      directoryEntry next.memory root index = directoryEntry machine.memory root index)
    (pages : ∀ root ∈ roots, ∀ page < 1047552, watched page → KernelPage machine.memory root page →
      pageEntry next.memory root page = pageEntry machine.memory root page)
    (opened : ∀ root ∈ roots, ∀ page < 1047552, InKernelHalf page → UserPage next.memory root page →
      pageEntry next.memory root page = pageEntry machine.memory root page) :
    KernelKept machine next roots watched where
  directories := directories
  pages root member page small seen kernel := by
    by_cases low : page < 1047552
    · exact pages root member page low seen kernel
    · have index : page = 1023 * 1024 + (page - 1047552) := by omega
      have present := kernel.1
      rw [index, page_entry_self_map (spaces.family.selfMapped root member) (by omega)] at present ⊢
      rw [page_entry_self_map (nextSpaces.family.selfMapped root member) (by omega)]
      exact directories root member _ (by omega) present
  opened root member page half reached := by
    have low : page < 1047552 := by
      unfold InKernelHalf kernelPdiEnd at half
      omega
    have entry := opened root member page low half reached
    have present := reached.1
    rw [entry] at present
    have directory := directories root member (page / 1024) (by omega) (page_entry_present present)
    unfold UserPage at reached ⊢
    rw [entry, directory] at reached
    exact ⟨reached, entry⟩

/-- It is a matter of the two memories, whatever directories are loaded. -/
theorem kernel_kept_switch {root : Nat} {last : Machine}
    (kept : KernelKept (switch machine root) next roots watched) (memory : last.memory = next.memory) :
    KernelKept machine last roots watched := by
  obtain ⟨directories, pages, opened⟩ := kept
  rw [← memory] at directories pages opened
  exact ⟨directories, pages, opened⟩

theorem window_kernel_page (spaces : Spaces machine roots) (free : FreeList machine roots frames) {root : Nat}
    (member : root ∈ roots) : KernelPage machine.memory root (windowPage machine) := by
  have entry := (spaces.window_entry member).trans free.window
  exact ⟨entry ▸ create_entry_present _ _, window_not_user machine entry⟩

end Keeping

section Mapping

variable {machine middle next : Machine} {roots frames : List Nat} {watched : Nat → Prop}
  {vaddr paddr flags i count : Nat}

/-- `map_page` fills a free page; where it makes a table, the window moves. -/
theorem map_page_kernel_kept {word : Nat} (spaces : Spaces machine roots) (free : FreeList machine roots frames)
    (low : vaddr / 4096 < 1047552) (bounded : word < 4294967296) (small : flags < 4096)
    (off : ¬ InKernelHalf (vaddr / 4096))
    (tabled : watched (windowPage machine) →
      Present (directoryEntry machine.memory machine.cr3 (vaddr / 4096 / 1024)))
    (mapping : mapPage machine vaddr word flags = .ok (false, next)) :
    ∃ rest, Kept machine next roots frames rest ∧ KernelKept machine next roots watched := by
  have absent := map_page_absent spaces (by omega) mapping
  have away : vaddr / 4096 ≠ windowPage machine := fun same => absent (same ▸ FrameSteps.window_present free)
  rcases map_page_ok spaces free low away bounded small mapping with ⟨wrong, _⟩ | ⟨_, rest, mapped⟩
  · cases wrong
  have fresh : ∀ root ∈ roots, Tied machine machine.cr3 root (vaddr / 4096) →
      ¬ Present (pageEntry machine.memory root (vaddr / 4096)) := by
    rintro root member (same | shared)
    · exact same ▸ absent
    · rw [← page_entry_shared shared]
      exact absent
  -- the pages whose entries are known
  have entries : ∀ root ∈ roots, ∀ page < 1047552, (watched page ∨ page ≠ windowPage machine) →
      pageEntry next.memory root page =
        if page = vaddr / 4096 ∧ Tied machine machine.cr3 root (vaddr / 4096) then createEntry word flags
        else pageEntry machine.memory root page := by
    intro root member page lower known
    by_cases isWindow : page = windowPage machine
    · have table := tabled (isWindow ▸ known.resolve_right (not_not.2 isWindow))
      rw [map_page_table spaces.selfMapped (by omega) table] at mapping
      split_ifs at mapping
      have isNext := (Prod.mk.inj (Except.ok.inj mapping)).2
      change fillSlot machine (vaddr / 4096) (createEntry word flags) = next at isNext
      rw [← isNext]
      exact fill_slot_entry spaces low table (create_entry_lt bounded small) member lower
    · exact mapped.entries root member page lower isWindow
  refine ⟨rest, mapped.kept, kernel_kept_of_low spaces mapped.kept.spaces mapped.kept.directory ?_ ?_⟩
  · intro root member page lower seen kernel
    rw [entries root member page lower (.inl seen), if_neg]
    rintro ⟨rfl, tied⟩
    exact fresh root member tied kernel.1
  · intro root member page lower half reached
    by_cases isWindow : page = windowPage machine
    · have user := reached.2.1
      have entry := (mapped.kept.spaces.window_entry member).trans mapped.kept.free.window
      rw [kept_window mapped.kept, ← isWindow] at entry
      rw [entry, create_entry_user] at user
      exact absurd user (by decide)
    · rw [entries root member page lower (.inr isWindow), if_neg]
      rintro ⟨rfl, _⟩
      exact off half

/-- The installing loop, page by page. -/
theorem map_install_kernel_kept (spaces : Spaces machine roots) (free : FreeList machine roots frames)
    (closed : ¬ UserMode (directoryEntry machine.memory machine.cr3 1023)) (user : flags &&& 4 ≠ 0)
    (small : flags < 4096) (off : ∀ j < count, ¬ InKernelHalf (pageOf vaddr (i + j)))
    (tabled : watched (windowPage machine) → ∀ j < count,
      Present (directoryEntry machine.memory machine.cr3 (pageOf vaddr (i + j) / 1024)))
    (completed : virtMapInstall machine vaddr paddr flags i count = .ok next) :
    ∃ rest, Kept machine next roots frames rest ∧ KernelKept machine next roots watched := by
  induction count generalizing machine i frames with
  | zero =>
      cases completed
      exact ⟨frames, kept_refl spaces free, kernel_kept_refl _ _ _⟩
  | succ count ih =>
      obtain ⟨word, middle, loaded, mapping, completed⟩ := map_install_cons completed
      have page := range_page_page vaddr i
      have low := map_page_closed spaces closed user (range_page_lt vaddr i) mapping
      have shift : ∀ j, i + 1 + j = i + (j + 1) := fun j => by omega
      obtain ⟨between, kept, kernel⟩ := map_page_kernel_kept spaces free low (load_word_lt loaded) small
        (page ▸ off 0 (by omega)) (fun seen => page ▸ tabled seen 0 (by omega)) mapping
      have cr3 := kept_cr3 kept
      obtain ⟨rest, later, kernelLater⟩ := ih kept.spaces kept.free
        (by rw [cr3, kept.directory _ spaces.member 1023 (by decide) spaces.selfMapped.1]; exact closed)
        (fun j inside => shift j ▸ off (j + 1) (by omega))
        (fun seen j inside => by
          have there := shift j ▸ tabled (kept_window kept ▸ seen) (j + 1) (by omega)
          have bound := page_of_lt vaddr (i + 1 + j)
          rw [cr3, kept.directory _ spaces.member _ (by omega) there]
          exact there) completed
      exact ⟨rest, kept_trans kept later, kernel_kept_trans kernel kernelLater⟩

end Mapping

section Removing

variable {machine next : Machine} {roots frames : List Nat} {watched : Nat → Prop} {vaddr paddr n : Nat}

/-- Pages that the kernel has for itself are not in the range. -/
theorem range_off_kernel (closed : ClosedTables machine roots) {root i : Nat}
    (member : root ∈ roots) (spared : NoKernelPages machine roots root vaddr n) (inside : i < n)
    (present : Present (pageEntry machine.memory root (pageOf vaddr i))) :
    pageOf vaddr i < 1047552 ∧ UserPage machine.memory root (pageOf vaddr i) := by
  have user : UserPage machine.memory root (pageOf vaddr i) := by
    by_contra kernel
    exact spared i inside root member (.inl rfl) ⟨present, kernel⟩
  refine ⟨?_, user⟩
  by_contra high
  have index : pageOf vaddr i / 1024 = 1023 := by
    have bound := page_of_lt vaddr i
    omega
  have open_ := user.2.2
  rw [index] at open_
  exact closed root member open_

theorem range_off_window (spaces : Spaces machine roots) (free : FreeList machine roots frames) {root i : Nat}
    (member : root ∈ roots) (spared : NoKernelPages machine roots root vaddr n) (inside : i < n) :
    pageOf vaddr i ≠ windowPage machine :=
  fun same => spared i inside root member (.inl rfl) (same ▸ window_kernel_page spaces free member)

/-- The removing loop takes user pages only. -/
theorem removed_kernel_kept {cells : Nat → Nat → Nat} (spaces : Spaces machine roots)
    (spared : NoKernelPages machine roots machine.cr3 vaddr n)
    (removed : Removed machine next roots vaddr paddr 0 n cells) : KernelKept machine next roots watched := by
  have nextSpaces : Spaces next roots := by
    apply spaces_same_on spaces removed.sameRoots
    all_goals rw [removed.globals]
  have entries : ∀ root ∈ roots, ∀ page < 1047552,
      (InRange vaddr n page → ¬ Tied machine machine.cr3 root page) →
        pageEntry next.memory root page = pageEntry machine.memory root page := by
    intro root member page low off
    apply (removed.entries page low).outside root member
    by_cases inside : InRange vaddr n page
    · exact .inr (off inside)
    · left
      intro j small same
      rw [Nat.zero_add] at same
      exact inside ⟨j, small, same⟩
  apply kernel_kept_of_low spaces nextSpaces
  · exact fun root member index small _ => directory_entry_same_on (removed.sameRoots root member) small
  · intro root member page low _ kernel
    apply entries root member page low
    rintro ⟨j, inside, rfl⟩ tied
    exact spared j inside root member tied kernel
  · intro root member page low _ reached
    apply entries root member page low
    rintro ⟨j, inside, same⟩ tied
    have present := reached.1
    have gone := (removed.entries page low).inside root member j inside (by rw [Nat.zero_add]; exact same) tied
    rw [gone] at present
    exact not_present_zero present

/-- Away from the window and the free frames, the list is as before. -/
theorem removed_steady {cells : Nat → Nat → Nat} (spaces : Spaces machine roots)
    (free : FreeList machine roots frames) (away : ∀ j < n, pageOf vaddr j ≠ windowPage machine)
    (plain : ∀ j < n, ∀ byte < 4, ∀ cell,
      translate machine.memory machine.cr3 (u32 (elementAddr paddr j + byte)) = some cell →
        ¬ InUse machine roots frames (cell / 4096 * 4096))
    (removed : Removed machine next roots vaddr paddr 0 n cells) :
    Steady machine next roots frames frames := by
  have tables : ∀ frame, IsTable next.memory roots frame ↔ IsTable machine.memory roots frame :=
    is_table_same_on removed.sameRoots
  have cr3 : next.cr3 = machine.cr3 := by rw [removed.globals]
  have top : next.freeFramePaddr = machine.freeFramePaddr := by rw [removed.globals]
  have window : windowPage next = windowPage machine := by rw [removed.globals]; rfl
  refine ⟨by rw [removed.globals], ?_, ?_, ?_, ?_⟩
  · apply spaces_same_on spaces removed.sameRoots
    all_goals rw [removed.globals]
  · refine ⟨?_, free.nodup, free.aligned, free.positive, free.bounded, free.notRoot,
      fun frame member => (tables frame).not.2 (free.notTable frame member), ?_⟩
    · rw [top]
      refine linked_same_on free.linked fun frame member cell low high => ?_
      have aligned := free.aligned frame member
      have isFrame : cell / 4096 * 4096 = frame := by omega
      rw [removed.stored cell (isFrame ▸ free.notTable frame member)]
      apply store_cells_apart
      intro j inside byte small same
      rw [Nat.zero_add] at same
      have located := removed.located j inside byte small
      rw [Nat.zero_add] at located
      exact plain j inside byte small _ located (same ▸ isFrame ▸ .inr (.inr member))
    · rw [window, cr3, top]
      refine Eq.trans ((removed.entries _ spaces.windowLow).outside _ spaces.member (.inl ?_)) free.window
      intro j inside same
      rw [Nat.zero_add] at same
      exact away j inside same.symm
  · intro frame
    unfold InUse
    rw [tables]
  · exact fun root member index small _ => directory_entry_same_on (removed.sameRoots root member) small

end Removing

section Moving

variable {machine next : Machine} {roots frames : List Nat} {watched : Nat → Prop} {vaddr i count n : Nat}
  {value : Nat → Nat} {source destination : Region}

/-- Entries of user pages cannot be put among the tables' own pages. -/
theorem transfer_put_low (spaces : Spaces machine roots) (free : FreeList machine roots frames)
    (closed : ¬ UserMode (directoryEntry machine.memory machine.cr3 1023))
    (user : ∀ j, i ≤ j → j < i + count → UserMode (value j))
    (completed : virtTransferPut machine vaddr i ((List.range' i count).map value) = .ok next) :
    ∀ j < count, pageOf vaddr (i + j) < 1047552 := by
  induction count generalizing machine i frames with
  | zero => exact fun j wrong => absurd wrong (Nat.not_lt_zero j)
  | succ count ih =>
      rw [List.range'_succ, List.map_cons] at completed
      obtain ⟨middle, mapping, completed⟩ := transfer_put_cons completed
      have flags : getFlags (value i) &&& 4 ≠ 0 := (get_flags_user_iff _).2 (user i le_rfl (by omega))
      have page := range_page_page vaddr i
      have low := map_page_closed spaces closed flags (range_page_lt vaddr i) mapping
      have absent := map_page_absent spaces (range_page_lt vaddr i) mapping
      have away : rangePage vaddr i / 4096 ≠ windowPage machine :=
        fun same => absent (same ▸ FrameSteps.window_present free)
      rcases map_page_ok spaces free low away (get_paddr_lt _) (get_flags_lt _) mapping with
        ⟨wrong, _⟩ | ⟨_, between, mapped⟩
      · cases wrong
      have same := mapped.kept.directory _ spaces.member 1023 (by decide) spaces.selfMapped.1
      have rest := ih mapped.kept.spaces mapped.kept.free (by rw [kept_cr3 mapped.kept, same]; exact closed)
        (fun j above below => user j (by omega) (by omega)) completed
      intro j inside
      cases j with
      | zero => exact page ▸ low
      | succ j =>
          have place : i + (j + 1) = i + 1 + j := by omega
          rw [place]
          exact rest j (by omega)

/-- A transfer of user pages to places outside of the kernel's half. -/
theorem carried_kernel_kept (spaces : Spaces machine roots) (nextSpaces : Spaces next roots)
    (transferable : Transferable machine source destination n)
    (spared : NoKernelPages machine roots source.root source.vaddr n)
    (off : ∀ j < n, ¬ InKernelHalf (destination.page j))
    (window : watched (windowPage machine) → ∀ page < 1047552,
      Transferred machine next roots source destination n page)
    (carried : Carried machine next roots source destination n) : KernelKept machine next roots watched := by
  have moved : ∀ page < 1047552, watched page ∨ page ≠ windowPage machine →
      Transferred machine next roots source destination n page := by
    intro page low known
    by_cases isWindow : page = windowPage machine
    · exact window (isWindow ▸ known.resolve_right (not_not.2 isWindow)) page low
    · exact (carried.pages page low).resolve_right fun other => isWindow other.1
  apply kernel_kept_of_low spaces nextSpaces carried.directories
  · intro root member page low seen kernel
    have offSource : ∀ i < n, page = source.page i → ¬ Tied machine source.root root page :=
      fun i inside same tied => by
        rw [same] at tied kernel
        exact spared i inside root member tied kernel
    refine (moved page low (.inl seen)).kept root member offSource ?_
    rintro j inside same tied
    -- the place was taken, so that it had to be given away first
    have present : Present (pageEntry machine.memory destination.root (destination.page j)) := by
      rw [← same]
      rcases tied with rfl | shared
      · exact kernel.1
      · rw [page_entry_shared shared]
        exact kernel.1
    obtain ⟨i, bounded, isPage, joined⟩ := transferable.free j inside present
    rw [← same] at isPage joined
    refine offSource i bounded isPage.symm ?_
    rcases joined with first | first <;> rcases tied with second | second
    · exact .inl (first.trans second)
    · exact .inr (first ▸ second)
    · exact .inr (second ▸ first)
    · exact .inr (shares_trans first second)
  · intro root member page low half reached
    rcases carried.pages page low with transferred | ⟨_, _, _, hidden⟩
    · have offDestination : ∀ j < n, page = destination.page j → ¬ Tied machine destination.root root page :=
        fun j inside same => absurd half (same ▸ off j inside)
      apply transferred.kept root member _ offDestination
      intro i inside same tied
      have present := reached.1
      rw [transferred.left root member i inside same tied offDestination] at present
      exact not_present_zero present
    · exact absurd reached (hidden root member).2

end Moving

/-- The paging structures are sound, with the directories of all processes. -/
structure KernelSound (machine : Machine) (roots : List Nat) : Prop where
  spaces : Spaces machine roots
  free : ∃ frames, FreeList machine roots frames
  processes : ProcessRoots machine roots
  closed : ClosedTables machine roots

section Calls

variable {machine next : Machine} {roots frames rest : List Nat} {watched : Nat → Prop} {result : SyscallResult}

theorem kernel_sound_steady (sound : KernelSound machine roots) (steady : Steady machine next roots frames rest) :
    KernelSound next roots where
  spaces := steady.spaces
  free := ⟨rest, steady.free⟩
  processes := steady_processes steady sound.processes
  closed root member := by
    rw [steady.directory root member 1023 (by decide) (sound.spaces.family.selfMapped root member).1]
    exact sound.closed root member

theorem map_call_kept {aid vaddr paddr n flags : Nat} (sound : KernelSound machine roots)
    (spares : SparesKernel machine roots (.map aid vaddr paddr n flags))
    (tables : watched (windowPage machine) → FindsTables machine (.map aid vaddr paddr n flags))
    (completed : syscallVirtMap machine aid vaddr paddr n flags = .ok (result, next)) :
    ∃ frames rest, Steady machine next roots frames rest ∧ KernelKept machine next roots watched := by
  obtain ⟨frames, free⟩ := sound.free
  rcases MapCalls.virt_map_ok sound.spaces sound.processes rfl completed with ⟨_, _, rfl⟩ |
    ⟨accepted, _, member, installed, installing, isNext⟩
  · exact ⟨frames, frames, steady_refl sound.spaces free, kernel_kept_refl _ _ _⟩
  · have switched := spaces_switch sound.spaces member
    obtain ⟨rest, kept, kernel⟩ := map_install_kernel_kept switched
      (free_list_switch sound.spaces free member) (sound.closed _ member) (MapCalls.pte_flags_user _).1
      (pte_flags_lt _) (fun j inside => by rw [Nat.zero_add]; exact spares accepted j inside)
      (fun seen j inside => by rw [Nat.zero_add]; exact tables seen accepted j inside) installing
    have steady := steady_switch sound.spaces (steady_of_kept kept)
    rw [← isNext] at steady
    refine ⟨frames, rest, steady, kernel_kept_switch kernel ?_⟩
    rw [isNext, set_page_dir_ok kept.spaces.current]
    rfl

theorem unmap_call_kept {aid vaddr paddr n : Nat} (sound : KernelSound machine roots)
    (spares : SparesKernel machine roots (.unmap aid vaddr paddr n))
    (completed : syscallVirtUnmap machine aid vaddr paddr n = .ok (result, next)) :
    ∃ frames rest, Steady machine next roots frames rest ∧ KernelKept machine next roots watched := by
  obtain ⟨frames, free⟩ := sound.free
  rcases virt_unmap_ok sound.spaces sound.processes rfl completed with ⟨_, _, rfl⟩ |
    ⟨accepted, _, member, removed, removing, isNext⟩
  · exact ⟨frames, frames, steady_refl sound.spaces free, kernel_kept_refl _ _ _⟩
  · obtain ⟨spared, plain⟩ := spares accepted
    have switched := spaces_switch sound.spaces member
    obtain ⟨cells, done⟩ := unmap_remove_ok switched
      (fun j inside => by
        rw [Nat.zero_add]
        exact (range_off_kernel sound.closed member spared inside (accepted.mapped j inside)).1)
      (fun j inside byte small cell found used => by
        rw [Nat.zero_add] at found
        refine plain frames free j inside byte small cell found ?_
        rcases used with isRoot | isTable
        · exact .inl isRoot
        · exact .inr (.inl isTable)) removing
    have steady := steady_switch sound.spaces (removed_steady switched
      (free_list_switch sound.spaces free member)
      (fun j inside => range_off_window sound.spaces free member spared inside)
      (fun j inside byte small cell found => plain frames free j inside byte small cell found) done)
    rw [← isNext] at steady
    refine ⟨frames, frames, steady, kernel_kept_switch (removed_kernel_kept switched spared done) ?_⟩
    have current : removed.currentPageDir = removed.cr3 := by
      rw [done.globals]
      rfl
    rw [isNext, set_page_dir_ok current]
    rfl

theorem transfer_call_kept {vaddrSrc vaddrDst aidPair n : Nat} (sound : KernelSound machine roots)
    (spares : SparesKernel machine roots (.transfer vaddrSrc vaddrDst aidPair n))
    (tables : watched (windowPage machine) → FindsTables machine (.transfer vaddrSrc vaddrDst aidPair n))
    (completed : syscallVirtTransfer machine vaddrSrc vaddrDst aidPair n = .ok (result, next)) :
    ∃ frames rest, Steady machine next roots frames rest ∧ KernelKept machine next roots watched := by
  obtain ⟨frames, free⟩ := sound.free
  obtain ⟨below, spares⟩ := spares
  obtain ⟨source, isSource⟩ : ∃ source, source = sourceOf machine vaddrSrc aidPair := ⟨_, rfl⟩
  obtain ⟨destination, isDestination⟩ : ∃ destination, destination = destinationOf machine vaddrDst aidPair :=
    ⟨_, rfl⟩
  have atSource : source.vaddr = vaddrSrc := by rw [isSource]; rfl
  have isPage : ∀ i, pageOf vaddrSrc i = source.page i := fun i => by rw [isSource]; rfl
  have isPlace : ∀ j, pageOf vaddrDst j = destination.page j := fun j => by rw [isDestination]; rfl
  change watched (windowPage machine) → TransferMoves.Accepted machine aidPair
    (sourceOf machine vaddrSrc aidPair) (destinationOf machine vaddrDst aidPair) n →
      MapCalls.Tabled machine (destinationOf machine vaddrDst aidPair).root vaddrDst n at tables
  rw [← isSource, ← isDestination] at spares tables
  rw [← isSource] at below
  rcases virt_transfer_ok frames sound.spaces sound.processes isSource isDestination
    (fun mapped i inside => isPage i ▸ below (fun k small => isPage k ▸ mapped k small) i inside) completed with ⟨_, _, rfl⟩ |
    ⟨accepted, _, sourceMember, destinationMember, taken, put, halves⟩
  · exact ⟨frames, frames, steady_refl sound.spaces free, kernel_kept_refl _ _ _⟩
  · obtain ⟨spared, off⟩ := spares accepted
    have transferable := accepted.transferable
    have few : n ≤ 1048576 := accepted.small.trans (by decide)
    have users := fun i (inside : i < n) =>
      range_off_kernel sound.closed sourceMember spared inside (isPage i ▸ transferable.mapped i inside)
    have sourceAway : ∀ i < n, source.page i ≠ windowPage machine :=
      fun i inside => isPage i ▸ range_off_window sound.spaces free sourceMember spared inside
    have first := halves.kept (free_list_switch sound.spaces free sourceMember) sourceAway
    have takenSame : directoryEntry taken.memory destination.root 1023 =
        directoryEntry machine.memory destination.root 1023 :=
      directory_entry_same_on (halves.rewritten.sameRoots _ destinationMember) (by decide)
    have destinationLow : ∀ j < n, destination.page j < 1047552 := by
      intro j inside
      have low := transfer_put_low (spaces_switch first.spaces destinationMember)
        (free_list_switch first.spaces first.free destinationMember)
        (by
          change ¬ UserMode (directoryEntry taken.memory destination.root 1023)
          rw [takenSame]
          exact sound.closed _ destinationMember)
        (fun j above small => isPage j ▸ (users j (by omega)).2.2.1) halves.completed j inside
      rw [Nat.zero_add] at low
      exact low
    have destinationAway : ∀ j < n, destination.page j ≠ windowPage machine := by
      intro j inside same
      have present : Present (pageEntry machine.memory destination.root (destination.page j)) :=
        same ▸ (window_kernel_page sound.spaces free destinationMember).1
      obtain ⟨i, bounded, isWindow, _⟩ := transferable.free j inside present
      exact sourceAway i bounded (isWindow.trans same)
    have carried := transfer_carried sound.spaces free sourceMember destinationMember few destinationLow
      transferable (fun ⟨j, inside, same⟩ => absurd same.symm (destinationAway j inside)) halves
    obtain ⟨rest, steady⟩ := virt_transfer_steady sound.spaces free sound.processes
      (fun i inside => isPage i ▸ ⟨(isPage i ▸ users i inside).1, sourceAway i inside⟩)
      (fun j inside => isPlace j ▸ ⟨destinationLow j inside, destinationAway j inside⟩) completed
    refine ⟨frames, rest, steady, carried_kernel_kept sound.spaces steady.spaces transferable
      (atSource.symm ▸ spared) (fun j inside => isPlace j ▸ off j inside) ?_ carried⟩
    intro seen
    exact (transfer_tabled sound.spaces sourceMember destinationMember few destinationLow transferable.mapped
      (fun j inside => isPlace j ▸ tables seen accepted j inside) halves).2.2

theorem call_kept {call : SpaceCall} (sound : KernelSound machine roots) (spares : SparesKernel machine roots call)
    (tables : watched (windowPage machine) → FindsTables machine call)
    (completed : spaceStep machine call = .ok (result, next)) :
    ∃ frames rest, Steady machine next roots frames rest ∧ KernelKept machine next roots watched := by
  cases call with
  | map aid vaddr paddr n flags => exact map_call_kept sound spares tables completed
  | unmap aid vaddr paddr n => exact unmap_call_kept sound spares completed
  | transfer vaddrSrc vaddrDst aidPair n => exact transfer_call_kept sound spares tables completed

end Calls

section Runs

variable {machine middle next : Machine} {roots : List Nat} {watched : Nat → Prop} {result : SyscallResult}

/-- The directory is that of a process, and the call spares the kernel. -/
def SparingCall (roots : List Nat) (machine : Machine) (call : UserCall) : Prop :=
  call.directory ∈ roots ∧ SparesKernel (setPageDir machine call.directory) roots call.call

theorem user_step_kept {call : UserCall} (sound : KernelSound machine roots)
    (sparing : SparingCall roots machine call)
    (tables : watched (windowPage machine) → FindsTables (setPageDir machine call.directory) call.call)
    (completed : userStep machine call = .ok (result, next)) :
    KernelSound next roots ∧ KernelKept machine next roots watched := by
  obtain ⟨member, spares⟩ := sparing
  obtain ⟨frames, free⟩ := sound.free
  unfold userStep at completed
  rw [set_page_dir_ok sound.spaces.current] at spares tables completed
  have switched : KernelSound (switch machine call.directory) roots :=
    ⟨spaces_switch sound.spaces member, ⟨frames, free_list_switch sound.spaces free member⟩, sound.processes,
      sound.closed⟩
  obtain ⟨_, _, steady, kept⟩ := call_kept switched spares tables completed
  exact ⟨kernel_sound_steady switched steady, kernel_kept_switch kept rfl⟩

/-- Whatever processes run in between, a call that spares the kernel leaves its mappings as they are,
the window of the free list too if no page table has to be made. -/
theorem kernel_mappings_kept_runs {calls : List UserCall} {results : List SyscallResult} {call : UserCall}
    (sound : KernelSound machine roots) (sparing : Allowed userStep (SparingCall roots) machine calls)
    (completed : run userStep machine calls = .ok (results, middle))
    (last : SparingCall roots middle call) (stepped : userStep middle call = .ok (result, next)) :
    KernelKept middle next roots (· ≠ windowPage middle) ∧
      (FindsTables (setPageDir middle call.directory) call.call →
        KernelKept middle next roots fun _ => True) := by
  have held : KernelSound middle roots := run_preserves (fun state => KernelSound state roots)
    (fun state call observation after sound legal stepped =>
      (@user_step_kept state after roots (fun _ => False) observation call sound legal
        (fun none => none.elim) stepped).1)
    calls machine middle results sound sparing completed
  constructor
  · exact (user_step_kept held last (fun wrong => absurd rfl wrong) stepped).2
  · intro tables
    exact (user_step_kept held last (fun _ => tables) stepped).2

end Runs

section Sample

theorem array_sound : KernelSound MapCalls.arrayMachine sampleRoots :=
  ⟨MapCalls.array_spaces, ⟨_, MapCalls.array_free⟩, sample_processes, MapCalls.array_closed⟩

instance (machine : Machine) (roots : List Nat) (root vaddr n : Nat) :
    Decidable (NoKernelPages machine roots root vaddr n) :=
  inferInstanceAs (Decidable (∀ i < n, ∀ other ∈ roots, _ → ¬ _))

/-- Process 1 maps a page, and process 2 moves another one to itself. -/
theorem kernel_mappings_kept_two_processes : ∃ results middle result next,
    run userStep MapCalls.arrayMachine [⟨0x10000, .map 1 0x403000 0x401000 1 1⟩] = .ok (results, middle) ∧
      userStep middle ⟨0x11000, .transfer 0x401000 0x402000 0x20001 1⟩ = .ok (result, next) ∧
        KernelKept middle next sampleRoots (· ≠ windowPage middle) := by
  obtain ⟨⟨first, middle⟩, mapping, passed⟩ := returns_with_iff.1
    (by decide +kernel : returnsWith (userStep MapCalls.arrayMachine ⟨0x10000, .map 1 0x403000 0x401000 1 1⟩)
      (fun (_, middle) => decide (NoKernelPages (setPageDir middle 0x11000) sampleRoots
        (sourceOf (setPageDir middle 0x11000) 0x401000 0x20001).root 0x401000 1) &&
        returnsWith (userStep middle ⟨0x11000, .transfer 0x401000 0x402000 0x20001 1⟩) (fun _ => true)) = true)
  obtain ⟨spared, returned⟩ := Bool.and_eq_true_iff.1 passed
  obtain ⟨⟨result, next⟩, moving, _⟩ := returns_with_iff.1 returned
  have ended : run userStep middle [] = .ok ([], middle) := rfl
  have completed := run_cons_of_step mapping ended
  have only : ∀ {i : Nat}, i < 1 → i = 0 := fun small => by omega
  have place : ∀ i < 1, ¬ InKernelHalf (pageOf 0x403000 i) := fun i small => by
    rw [only small]
    decide
  have legal : Allowed userStep (SparingCall sampleRoots) MapCalls.arrayMachine
      [⟨0x10000, .map 1 0x403000 0x401000 1 1⟩] :=
    allowed_cons_of_step ⟨(by decide : 0x10000 ∈ sampleRoots), fun _ => place⟩ mapping trivial
  have last : SparingCall sampleRoots middle ⟨0x11000, .transfer 0x401000 0x402000 0x20001 1⟩ := by
    refine ⟨(by decide : 0x11000 ∈ sampleRoots), fun _ i small => ?_, fun _ =>
      ⟨of_decide_eq_true spared, fun j small => ?_⟩⟩
    · rw [only small]
      decide
    · rw [only small]
      decide
  exact ⟨_, middle, result, next, completed, moving,
    (kernel_mappings_kept_runs array_sound legal completed last moving).1⟩

/-- Process 1 unmaps its control block. -/
theorem kernel_mappings_not_kept : ¬ ∀ (machine middle next : Machine) (roots : List Nat)
    (calls : List UserCall) (results : List SyscallResult) (call : UserCall) (result : SyscallResult),
    KernelSound machine roots →
      Allowed userStep (fun _ (call : UserCall) => call.directory ∈ roots) machine calls →
        run userStep machine calls = .ok (results, middle) → call.directory ∈ roots →
          userStep middle call = .ok (result, next) → KernelKept middle next roots (· ≠ windowPage middle) := by
  intro always
  obtain ⟨⟨result, next⟩, stepped, gone⟩ := returns_with_iff.1
    (by decide +kernel : returnsWith (userStep MapCalls.arrayMachine ⟨0x10000, .unmap 1 0x40E000 0x401000 1⟩)
      (fun (_, next) => pageEntry next.memory 0x10000 0x40E == 0) = true)
  have kept := always MapCalls.arrayMachine MapCalls.arrayMachine next sampleRoots [] [] _ result array_sound
    trivial rfl (show 0x10000 ∈ sampleRoots by decide) stepped
  have same := kept.pages 0x10000 (by decide) 0x40E (by decide) (by decide) (by decide +kernel)
  rw [eq_of_beq gone] at same
  exact absurd same (by decide +kernel)

end Sample

end ParadiseOS.KernelMappings
