import ParadiseOS.FrameSteps
import ParadiseOS.StepRun
import ParadiseOS.TransferMoves

/-!
# Runs of the mapping system calls

A call on pages below the last 4 MiB and off the kernel's window keeps the paging
structures sound: its page tables come from the free list, and no page table is ever
taken back. What it stores for its caller must not hit a paging structure or a free
frame.
-/

namespace ParadiseOS.SpaceCalls

open FrameSteps MachineWord PagingModel PagingSteps PagingMaps StepRun TransferMoves TwoLevelPaging VirtModel VirtRanges
open RbTreeRuns (getProcess)

set_option autoImplicit false

inductive SpaceCall where
  | map (aid vaddr paddr n flags : Nat)
  | unmap (aid vaddr paddr n : Nat)
  | transfer (vaddrSrc vaddrDst aidPair n : Nat)

def spaceStep (machine : Machine) : SpaceCall → Except Trap (SyscallResult × Machine)
  | .map aid vaddr paddr n flags => syscallVirtMap machine aid vaddr paddr n flags
  | .unmap aid vaddr paddr n => syscallVirtUnmap machine aid vaddr paddr n
  | .transfer vaddrSrc vaddrDst aidPair n => syscallVirtTransfer machine vaddrSrc vaddrDst aidPair n

/-- The pages of a range lie below the last 4 MiB and are not the window of the free list. -/
def PlainRange (machine : Machine) (vaddr n : Nat) : Prop :=
  ∀ i < n, pageOf vaddr i < 1047552 ∧ pageOf vaddr i ≠ windowPage machine

/-- The words of an array do not lie on paging structures or free frames. -/
def PlainArray (machine : Machine) (roots : List Nat) (root paddr n : Nat) : Prop :=
  ∀ frames, FreeList machine roots frames → ∀ i < n, ∀ byte < 4, ∀ cell,
    translate machine.memory root (u32 (elementAddr paddr i + byte)) = some cell →
      ¬ InUse machine roots frames (cell / 4096 * 4096)

/-- A call that keeps to pages that are its own to change. -/
def PlainCall (roots : List Nat) (machine : Machine) : SpaceCall → Prop
  | .map _ vaddr _ n _ => PlainRange machine vaddr n
  | .unmap aid vaddr paddr n =>
      PlainRange machine vaddr n ∧ PlainArray machine roots (spaceOf machine aid) paddr n
  | .transfer vaddrSrc vaddrDst _ n => PlainRange machine vaddrSrc n ∧ PlainRange machine vaddrDst n

/-- What a call keeps: the directories, their tables, and all frames that are in use. -/
structure Steady (machine next : Machine) (roots frames rest : List Nat) : Prop where
  globals : next = { machine with
    memory := next.memory
    freeFramePaddr := next.freeFramePaddr
    usedFrames := next.usedFrames }
  spaces : Spaces next roots
  free : FreeList next roots rest
  inUse : ∀ frame, InUse next roots rest frame ↔ InUse machine roots frames frame
  directory : ∀ root ∈ roots, ∀ index < 1024, Present (directoryEntry machine.memory root index) →
    directoryEntry next.memory root index = directoryEntry machine.memory root index

section Steadiness

variable {machine middle next : Machine} {roots frames rest : List Nat}

theorem steady_refl (spaces : Spaces machine roots) (free : FreeList machine roots frames) :
    Steady machine machine roots frames frames :=
  ⟨rfl, spaces, free, fun _ => Iff.rfl, fun _ _ _ _ _ => rfl⟩

theorem steady_of_kept (kept : Kept machine next roots frames rest) :
    Steady machine next roots frames rest :=
  ⟨kept.globals, kept.spaces, kept.free, kept.inUse, kept.directory⟩

theorem steady_trans {between : List Nat} (first : Steady machine middle roots frames between)
    (second : Steady middle next roots between rest) : Steady machine next roots frames rest where
  globals := by rw [second.globals, first.globals]
  spaces := second.spaces
  free := second.free
  inUse frame := (second.inUse frame).trans (first.inUse frame)
  directory root member index low present := by
    have kept := first.directory root member index low present
    rw [← kept] at present
    exact (second.directory root member index low present).trans kept

theorem steady_cr3 (steady : Steady machine next roots frames rest) : next.cr3 = machine.cr3 := by
  rw [steady.globals]

theorem steady_window (steady : Steady machine next roots frames rest) :
    windowPage next = windowPage machine := by
  rw [steady.globals]
  rfl

/-- Whatever directory is loaded meanwhile, the caller's is loaded again. -/
theorem steady_switch {root : Nat} (spaces : Spaces machine roots)
    (steady : Steady (switch machine root) next roots frames rest) :
    Steady machine (setPageDir next (getPageDir machine)) roots frames rest := by
  have back : setPageDir next (getPageDir machine) = switch next machine.cr3 := by
    rw [set_page_dir_ok steady.spaces.current, getPageDir, spaces.current]
  rw [back]
  refine ⟨?_, spaces_switch steady.spaces spaces.member, free_list_switch steady.spaces steady.free spaces.member,
    steady.inUse, steady.directory⟩
  have globals := steady.globals
  have current := spaces.current
  rw [switch] at globals ⊢
  rw [globals, ← current]

/-- Addresses are translated by page, and those of the last 4 MiB by the directory. -/
theorem translate_of_entries (spaces : Spaces machine roots) (nextSpaces : Spaces next roots)
    (entry : ∀ page < 1047552,
      pageEntry next.memory next.cr3 page = pageEntry machine.memory machine.cr3 page)
    (directory : ∀ index < 1024,
      directoryEntry next.memory next.cr3 index = directoryEntry machine.memory machine.cr3 index)
    (addr : Nat) (small : addr < 4294967296) :
    translate next.memory next.cr3 addr = translate machine.memory machine.cr3 addr := by
  have same : pageEntry next.memory next.cr3 (addr / 4096) =
      pageEntry machine.memory machine.cr3 (addr / 4096) := by
    by_cases low : addr / 4096 < 1047552
    · exact entry _ low
    · rw [page_entry_high nextSpaces.selfMapped (by omega) (by omega),
        page_entry_high spaces.selfMapped (by omega) (by omega)]
      exact directory _ (by omega)
  rw [TwoLevelPaging.translate, TwoLevelPaging.translate, same]

/-- Memory that changes in frames that nothing of the kernel lies on. -/
theorem change_steady (spaces : Spaces machine roots) (free : FreeList machine roots frames)
    (changed : next = { machine with memory := next.memory })
    (same : ∀ frame, frame % 4096 = 0 → InUse machine roots frames frame →
      SameOn machine.memory next.memory frame) :
    Steady machine next roots frames frames ∧ ∀ addr < 4294967296,
      translate next.memory next.cr3 addr = translate machine.memory machine.cr3 addr := by
  have sameRoots : ∀ root ∈ roots, SameOn machine.memory next.memory root :=
    fun root member => same root (spaces.family.aligned root member) (.inl member)
  have tables : ∀ frame, IsTable next.memory roots frame ↔ IsTable machine.memory roots frame :=
    is_table_same_on sameRoots
  have cr3 : next.cr3 = machine.cr3 := by rw [changed]
  have top : next.freeFramePaddr = machine.freeFramePaddr := by rw [changed]
  have window : windowPage next = windowPage machine := by rw [changed]; rfl
  have entry : ∀ page < 1047552,
      pageEntry next.memory next.cr3 page = pageEntry machine.memory machine.cr3 page := by
    intro page low
    rw [cr3]
    apply page_entry_same_on (sameRoots _ spaces.member) (by omega)
    intro present
    exact same _ (frame_of_aligned _) (.inr (.inl (is_table_of_present spaces.member low present)))
  have nextSpaces : Spaces next roots := by
    apply spaces_same_on spaces sameRoots cr3
    all_goals rw [changed]
  refine ⟨⟨?_, nextSpaces, ?_, ?_, ?_⟩, translate_of_entries spaces nextSpaces entry fun index high => ?_⟩
  · rw [changed]
  · refine ⟨?_, free.nodup, free.aligned, free.positive, free.bounded, free.notRoot, ?_, ?_⟩
    · rw [top]
      exact linked_same_on free.linked fun frame member =>
        same frame (free.aligned frame member) (.inr (.inr member))
    · intro frame member
      rw [tables]
      exact free.notTable frame member
    · rw [window, entry _ spaces.windowLow, top]
      exact free.window
  · intro frame
    unfold InUse
    rw [tables]
  · intro root member index low _
    exact directory_entry_same_on (sameRoots root member) low
  · rw [cr3]
    exact directory_entry_same_on (sameRoots _ spaces.member) high

/-- A store into frames that nothing of the kernel lies on. -/
theorem store_word_steady {vaddr word : Nat} (spaces : Spaces machine roots)
    (free : FreeList machine roots frames)
    (away : ∀ byte < 4, ∀ cell, translate machine.memory machine.cr3 (u32 (vaddr + byte)) = some cell →
      ¬ InUse machine roots frames (cell / 4096 * 4096))
    (small : vaddr < 4294967296) (stored : storeWord machine vaddr word = .ok next) :
    Steady machine next roots frames frames ∧ ∀ addr < 4294967296,
      translate next.memory next.cr3 addr = translate machine.memory machine.cr3 addr := by
  have located : ∀ {addr cell : Nat}, physical machine addr = .ok cell →
      translate machine.memory machine.cr3 addr = some cell := by
    intro addr cell found
    unfold physical at found
    split at found
    · rename_i paddr same
      rw [same, Except.ok.inj found]
    · cases found
  obtain ⟨first, firstAt, stored⟩ := Trap.bind_eq_ok.mp stored
  obtain ⟨second, secondAt, stored⟩ := Trap.bind_eq_ok.mp stored
  obtain ⟨third, thirdAt, stored⟩ := Trap.bind_eq_ok.mp stored
  obtain ⟨fourth, fourthAt, stored⟩ := Trap.bind_eq_ok.mp stored
  simp only [Trap.pure_ok, Except.ok.injEq] at stored
  have whole : u32 (vaddr + 0) = vaddr := u32_of_lt small
  have firstAway := away 0 (by decide) first (by rw [whole]; exact located firstAt)
  have secondAway := away 1 (by decide) second (located secondAt)
  have thirdAway := away 2 (by decide) third (located thirdAt)
  have fourthAway := away 3 (by decide) fourth (located fourthAt)
  refine change_steady spaces free ?_ fun frame aligned used cell low high => ?_
  · rw [← stored]
  rw [← stored]
  have differ : ∀ other, ¬ InUse machine roots frames (other / 4096 * 4096) → cell ≠ other := by
    rintro other unused rfl
    have page : cell / 4096 * 4096 = frame := by omega
    exact unused (page ▸ used)
  simp only [writeBytes, if_neg (differ first firstAway), if_neg (differ second secondAway),
    if_neg (differ third thirdAway), if_neg (differ fourth fourthAway)]

end Steadiness

section Loops

variable {machine middle next : Machine} {roots frames rest : List Nat} {vaddr paddr flags i count : Nat}

theorem plain_range_steady {n : Nat} (steady : Steady machine next roots frames rest)
    (plain : PlainRange machine vaddr n) : PlainRange next vaddr n := by
  intro i inside
  rw [steady_window steady]
  exact plain i inside

theorem load_word_lt {word : Nat} (loaded : loadWord machine vaddr = .ok word) : word < 4294967296 := by
  obtain ⟨first, _, loaded⟩ := Trap.bind_eq_ok.mp loaded
  obtain ⟨second, _, loaded⟩ := Trap.bind_eq_ok.mp loaded
  obtain ⟨third, _, loaded⟩ := Trap.bind_eq_ok.mp loaded
  obtain ⟨fourth, _, loaded⟩ := Trap.bind_eq_ok.mp loaded
  simp only [Trap.pure_ok, Except.ok.injEq] at loaded
  have low := UInt8.toNat_lt (machine.memory first)
  have lower := UInt8.toNat_lt (machine.memory second)
  have upper := UInt8.toNat_lt (machine.memory third)
  have high := UInt8.toNat_lt (machine.memory fourth)
  rw [← loaded, wordOf]
  omega

/-- The installing loop makes tables from free frames. -/
theorem map_install_steady {n : Nat} (plain : PlainRange machine vaddr n) (within : i + count ≤ n)
    (spaces : Spaces machine roots) (free : FreeList machine roots frames) (small : flags < 4096)
    (completed : virtMapInstall machine vaddr paddr flags i count = .ok next) :
    ∃ rest, Steady machine next roots frames rest := by
  induction count generalizing machine i frames with
  | zero =>
      cases completed
      exact ⟨frames, steady_refl spaces free⟩
  | succ count ih =>
      obtain ⟨element, loaded, completed⟩ := Trap.bind_eq_ok.mp completed
      obtain ⟨⟨mapped, middle⟩, mapping, completed⟩ := Trap.bind_eq_ok.mp completed
      obtain ⟨_, asserted, completed⟩ := Trap.bind_eq_ok.mp completed
      obtain ⟨low, away⟩ := plain i (by omega)
      rw [← range_page_page] at low away
      rcases map_page_ok spaces free low away (load_word_lt loaded) small mapping with
        ⟨taken, _⟩ | ⟨_, between, done⟩
      · rw [Trap.kernel_assert_eq_ok, taken] at asserted
        cases asserted
      · have first := steady_of_kept done.kept
        obtain ⟨rest, later⟩ := ih (plain_range_steady first plain) (by omega) first.spaces first.free
          completed
        exact ⟨rest, steady_trans first later⟩

/-- A page that is unmapped takes translations away and adds none. -/
theorem clear_slot_translate {page addr cell : Nat} (spaces : Spaces machine roots) (low : page < 1047552)
    (table : Present (directoryEntry machine.memory machine.cr3 (page / 1024))) (small : addr < 4294967296)
    (found : translate (fillSlot machine page 0).memory machine.cr3 addr = some cell) :
    translate machine.memory machine.cr3 addr = some cell := by
  have same : SameOn machine.memory (fillSlot machine page 0).memory machine.cr3 :=
    slot_write_roots spaces.family spaces.member low table _ spaces.member
  have selfMapped : SelfMapped (fillSlot machine page 0).memory machine.cr3 :=
    (rewritten_spaces spaces (rewritten_fill_slot spaces 0 low table)).selfMapped
  by_cases here : addr / 4096 < 1047552
  · have entry := fill_slot_entry spaces low table (by decide : 0 < 4294967296) spaces.member here
    rw [TwoLevelPaging.translate, entry] at found
    split_ifs at found with cleared present present
    · exact absurd present not_present_zero
    · rw [TwoLevelPaging.translate, if_pos present]
      exact found
  · have entry : pageEntry (fillSlot machine page 0).memory machine.cr3 (addr / 4096) =
        pageEntry machine.memory machine.cr3 (addr / 4096) := by
      have high := @page_entry_high (fillSlot machine page 0) (addr / 4096) selfMapped (by omega) (by omega)
      change pageEntry (fillSlot machine page 0).memory machine.cr3 _ = _ at high
      rw [high, page_entry_high spaces.selfMapped (by omega) (by omega)]
      exact directory_entry_same_on same (by omega)
    rw [TwoLevelPaging.translate, entry] at found
    exact found

/-- The removing loop stores what it removes where nothing of the kernel lies. -/
theorem unmap_remove_steady {n : Nat} (plain : PlainRange machine vaddr n) (within : i + count ≤ n)
    (spaces : Spaces machine roots) (free : FreeList machine roots frames)
    (away : ∀ j, i ≤ j → j < i + count → ∀ byte < 4, ∀ cell,
      translate machine.memory machine.cr3 (u32 (elementAddr paddr j + byte)) = some cell →
        ¬ InUse machine roots frames (cell / 4096 * 4096))
    (completed : virtUnmapRemove machine vaddr paddr i count = .ok next) :
    Steady machine next roots frames frames := by
  induction count generalizing machine i with
  | zero =>
      cases completed
      exact steady_refl spaces free
  | succ count ih =>
      obtain ⟨⟨removed, middle⟩, unmapping, completed⟩ := Trap.bind_eq_ok.mp completed
      obtain ⟨low, notWindow⟩ := plain i (by omega)
      rw [unmap_page_ok spaces.selfMapped (range_page_lt vaddr i), range_page_page] at unmapping
      split_ifs at unmapping with present
      · simp only [Except.ok.injEq, Prod.mk.injEq] at unmapping
        obtain ⟨rfl, isMiddle⟩ := unmapping
        change fillSlot machine (pageOf vaddr i) 0 = middle at isMiddle
        obtain ⟨stored, storing, completed⟩ := Trap.bind_eq_ok.mp completed
        have table := page_entry_present present
        have cleared := steady_of_kept
          (kept_fill_slot spaces free low table (by decide : 0 < 4294967296) notWindow)
        have fewer : ∀ addr < 4294967296, ∀ cell, translate middle.memory middle.cr3 addr = some cell →
            translate machine.memory machine.cr3 addr = some cell := by
          intro addr small cell found
          rw [← isMiddle] at found
          exact clear_slot_translate spaces low table small found
        rw [isMiddle] at cleared
        have awayHere : ∀ byte < 4, ∀ cell,
            translate middle.memory middle.cr3 (u32 (elementAddr paddr i + byte)) = some cell →
              ¬ InUse middle roots frames (cell / 4096 * 4096) := by
          intro byte small cell found used
          exact away i le_rfl (by omega) byte small cell (fewer _ (u32_lt _) cell found)
            ((cleared.inUse _).1 used)
        obtain ⟨written, same⟩ := store_word_steady cleared.spaces cleared.free awayHere (u32_lt _) storing
        have first := steady_trans cleared written
        refine steady_trans first (ih (plain_range_steady first plain) (by omega) first.spaces first.free ?_
          completed)
        intro j above below byte small cell found used
        rw [same _ (u32_lt _)] at found
        exact away j (by omega) (by omega) byte small cell (fewer _ (u32_lt _) cell found)
          ((first.inUse _).1 used)
      · simp only [Except.ok.injEq, Prod.mk.injEq] at unmapping
        obtain ⟨rfl, _⟩ := unmapping
        cases completed

end Loops

section Calls

variable {machine next : Machine} {roots frames : List Nat} {result : SyscallResult}

theorem pte_flags_lt (flags : Nat) : getPteFlags flags < 4096 := by
  unfold getPteFlags
  split_ifs <;> decide

theorem virt_map_steady {aid vaddr paddrPtr n flags : Nat} (spaces : Spaces machine roots)
    (free : FreeList machine roots frames) (processes : ProcessRoots machine roots)
    (plain : PlainRange machine vaddr n)
    (completed : syscallVirtMap machine aid vaddr paddrPtr n flags = .ok (result, next)) :
    ∃ rest, Steady machine next roots frames rest := by
  obtain ⟨process, found, completed⟩ := Trap.bind_eq_ok.mp completed
  split_ifs at completed with missing
  · cases completed
    exact ⟨frames, steady_refl spaces free⟩
  · obtain ⟨paddr, _, completed⟩ := Trap.bind_eq_ok.mp completed
    split_ifs at completed with invalid
    · cases completed
      exact ⟨frames, steady_refl spaces free⟩
    · have member : machine.pageDirPaddr process ∈ roots := by
        unfold findProcess at found
        split_ifs at found with word
        · exact processes aid process found missing
        · cases found
          exact absurd rfl missing
      have switched := spaces_switch spaces member
      have freeSwitched := free_list_switch spaces free member
      rw [virtMapInto, set_page_dir_ok spaces.current] at completed
      obtain ⟨err, _, completed⟩ := Trap.bind_eq_ok.mp completed
      split_ifs at completed with refused
      · cases completed
        exact ⟨frames, steady_switch spaces (steady_refl switched freeSwitched)⟩
      · obtain ⟨installed, installing, completed⟩ := Trap.bind_eq_ok.mp completed
        obtain ⟨rest, steady⟩ := map_install_steady (show PlainRange (switch machine _) vaddr n from plain)
          (by omega) switched freeSwitched (pte_flags_lt _) installing
        cases completed
        exact ⟨rest, steady_switch spaces steady⟩

theorem virt_unmap_steady {aid vaddr paddrPtr n : Nat} (spaces : Spaces machine roots)
    (free : FreeList machine roots frames) (processes : ProcessRoots machine roots)
    (plain : PlainRange machine vaddr n)
    (array : PlainArray machine roots (spaceOf machine aid) paddrPtr n)
    (completed : syscallVirtUnmap machine aid vaddr paddrPtr n = .ok (result, next)) :
    ∃ rest, Steady machine next roots frames rest := by
  obtain ⟨process, found, completed⟩ := Trap.bind_eq_ok.mp completed
  split_ifs at completed with missing
  · cases completed
    exact ⟨frames, steady_refl spaces free⟩
  · obtain ⟨paddr, validated, completed⟩ := Trap.bind_eq_ok.mp completed
    split_ifs at completed with invalid
    · cases completed
      exact ⟨frames, steady_refl spaces free⟩
    · have looked : getProcess machine.processTree aid = .ok process := by
        unfold findProcess at found
        split_ifs at found with word
        · exact found
        · cases found
          exact absurd rfl missing
      have isPtr : paddr = paddrPtr := by
        obtain ⟨_, _, validated⟩ := Trap.bind_eq_ok.mp validated
        split_ifs at validated
        · cases validated
          rfl
        · cases validated
          exact absurd rfl invalid
      have isSpace : spaceOf machine aid = machine.pageDirPaddr process := by
        simp only [spaceOf, looked]
      have member : machine.pageDirPaddr process ∈ roots := processes aid process looked missing
      have switched := spaces_switch spaces member
      have freeSwitched := free_list_switch spaces free member
      rw [virtUnmapFrom, set_page_dir_ok spaces.current] at completed
      obtain ⟨allMapped, _, completed⟩ := Trap.bind_eq_ok.mp completed
      split_ifs at completed with refused
      · cases completed
        exact ⟨frames, steady_switch spaces (steady_refl switched freeSwitched)⟩
      · obtain ⟨removed, removing, completed⟩ := Trap.bind_eq_ok.mp completed
        rw [isSpace, ← isPtr] at array
        have steady := unmap_remove_steady (show PlainRange (switch machine _) vaddr n from plain)
          (by omega) switched freeSwitched (fun j _ below byte small cell found =>
            array frames free j (by omega) byte small cell found) removing
        cases completed
        exact ⟨frames, steady_switch spaces steady⟩

theorem virt_transfer_steady {vaddrSrc vaddrDst aidPair n : Nat} (spaces : Spaces machine roots)
    (free : FreeList machine roots frames) (processes : ProcessRoots machine roots)
    (source : PlainRange machine vaddrSrc n) (destination : PlainRange machine vaddrDst n)
    (completed : syscallVirtTransfer machine vaddrSrc vaddrDst aidPair n = .ok (result, next)) :
    ∃ rest, Steady machine next roots frames rest := by
  rcases virt_transfer_ok frames spaces processes rfl rfl (fun _ i inside => (source i inside).1)
    completed with
    ⟨_, _, rfl⟩ | ⟨accepted, _, sourceMember, destinationMember, taken, put, halves⟩
  · exact ⟨frames, steady_refl spaces free⟩
  · have zero : ∀ j, 0 + j = j := Nat.zero_add
    have first := halves.kept (free_list_switch spaces free sourceMember) fun i inside => (source i inside).2
    have takenSpaces := spaces_switch first.spaces destinationMember
    have takenFree := free_list_switch first.spaces first.free destinationMember
    have window := kept_window first
    change windowPage taken = windowPage machine at window
    have few : 0 + n ≤ 1048576 := by
      have := accepted.small
      unfold entriesLen at this
      omega
    have put_ := halves.completed
    unfold sourceEntries at put_
    obtain ⟨rest, second, _⟩ := transfer_put_ok takenSpaces takenFree few
      (fun j inside => by rw [zero]; exact (destination j inside).1)
      (fun j inside => by
        rw [zero]
        change pageOf vaddrDst j ≠ windowPage taken
        rw [window]
        exact (destination j inside).2)
      (fun j _ below => ⟨accepted.transferable.mapped j (by omega), page_entry_lt _ _ _⟩) put_
    have later := steady_switch first.spaces (steady_of_kept second)
    have both := steady_switch spaces (steady_trans (steady_of_kept first) later)
    rw [set_page_dir_ok second.spaces.current, set_page_dir_ok rfl, switch_switch] at both
    rw [halves.returned, set_page_dir_ok second.spaces.current]
    exact ⟨rest, both⟩

/-- A plain call. -/
theorem space_step_steady {call : SpaceCall} (spaces : Spaces machine roots)
    (free : FreeList machine roots frames) (processes : ProcessRoots machine roots)
    (plain : PlainCall roots machine call) (completed : spaceStep machine call = .ok (result, next)) :
    ∃ rest, Steady machine next roots frames rest := by
  cases call with
  | map aid vaddr paddr n flags => exact virt_map_steady spaces free processes plain completed
  | unmap aid vaddr paddr n => exact virt_unmap_steady spaces free processes plain.1 plain.2 completed
  | transfer vaddrSrc vaddrDst aidPair n =>
      exact virt_transfer_steady spaces free processes plain.1 plain.2 completed

theorem steady_processes {rest : List Nat} (steady : Steady machine next roots frames rest)
    (processes : ProcessRoots machine roots) : ProcessRoots next roots := by
  rw [steady.globals]
  exact processes

/-- A run of plain calls. -/
theorem space_run_steady {calls : List SpaceCall} {results : List SyscallResult}
    (spaces : Spaces machine roots) (free : FreeList machine roots frames)
    (processes : ProcessRoots machine roots) (plain : Allowed spaceStep (PlainCall roots) machine calls)
    (completed : run spaceStep machine calls = .ok (results, next)) :
    ∃ rest, Steady machine next roots frames rest := by
  exact run_preserves (fun state => ∃ rest, Steady machine state roots frames rest)
    (fun state call observation after ⟨between, first⟩ legal stepped => by
      obtain ⟨rest, second⟩ := space_step_steady first.spaces first.free (steady_processes first processes)
        legal stepped
      exact ⟨rest, steady_trans first second⟩)
    calls machine next results ⟨frames, steady_refl spaces free⟩ plain completed

end Calls

end ParadiseOS.SpaceCalls
