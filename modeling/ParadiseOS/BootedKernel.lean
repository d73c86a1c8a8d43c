import ParadiseOS.KernelMove
import ParadiseOS.SharedTables
import ParadiseOS.TimeSharing

/-!
# From boot to the first process

Behind `reinit_paging` only low memory, the kernel and the window of the free list are mapped.
From there `init_heap` and the map for user programs take at most 36 frames, and
`processes_init` begins with the state that every run of processes starts from.
-/

namespace ParadiseOS.BootedKernel

open BootModel hiding sizeInPages
open BootFrames BootTables FrameLedger FrameOwners FrameSteps HeapModel HeapRegions HeapRuns Isolation
open KernelMove KernelPages MachineWord MemModel NewSpaces PagingMaps PagingModel PagingSteps Preemption ProcessModel
open ProcessTable ProgramLoading SharedTables TwoLevelPaging

set_option autoImplicit false

section Tables

variable {image : Image} {machine next collected moved : Machine} {given : Nat → Nat} {frames rest : List Nat}
  {frame index position paddr count vaddr low kernel : Nat}

/-- The entries that `map_pages` leaves alone in a new table are clear. -/
theorem stage_build_clear (stage : Stage image machine given (frame :: frames)) (small : image.endPaddr < 0x400000)
    (lowIndex : index < 1023) (absent : given index = 0) (inside : position + (count + 1) ≤ 1024)
    (page : vaddr = 4096 * (1024 * index + position)) (address : paddr + 4096 * (count + 1) ≤ 4294967296)
    (built : mapPages machine vaddr paddr pageWritable (count + 1) = .ok next) {other : Nat} (high : other < 1024)
    (behind : position + (count + 1) ≤ other) : readWord next.memory (frame + 4 * other) = 0 := by
  have aligned := stage.aligned frame List.mem_cons_self
  obtain ⟨behindImage, bounded⟩ := stage.behind frame List.mem_cons_self
  obtain ⟨middle, made, staged, new⟩ := stage_make_table stage small lowIndex absent
  have table : TableAt image (Function.update given index (createEntry frame pdeWritable)) frames index frame :=
    ⟨Function.update_self _ _ _, aligned, behindImage, bounded, (List.nodup_cons.1 stage.nodup).1⟩
  obtain ⟨after, completed, _, filled⟩ := stage_map_pages staged small table lowIndex inside
    (fun _ => page) (fun other _ before => new.empty other (by omega)) address
  have isIndex : vaddr / 4096 / 1024 = index := by omega
  obtain ⟨present, _⟩ := table_at_slot staged table (show index < 1024 by omega) (show position < 1024 by omega)
  have same : (1024 * index + position) / 1024 = index := by omega
  rw [map_pages_made (by omega) (by rw [isIndex]; exact made) (stage_self_mapped staged small)
    (by rw [isIndex, ← same]; exact present), completed, Except.ok.injEq] at built
  rw [← built, filled.words other high, if_neg (by omega)]
  exact new.empty other high

/-- Behind the window the new kernel table is clear. -/
theorem reinit_paging_clear (ready : Ready image collected (low :: kernel :: rest))
    (small : image.endPaddr < 0x400000) (completed : reinitPaging image collected = .ok moved) {other : Nat}
    (high : other < 1024) (behind : image.endPaddr / 4096 < other) :
    readWord moved.memory (kernel + 4 * other) = 0 := by
  have imageBehind := image.behind
  unfold kernelStartPaddr pageSize at imageBehind
  have whole := image.aligned
  have stage := ready.stage
  have kernelAligned := stage.aligned kernel (List.mem_cons_of_mem _ List.mem_cons_self)
  obtain ⟨kernelBehind, kernelBounded⟩ := stage.behind kernel (List.mem_cons_of_mem _ List.mem_cons_self)
  have lowAligned := stage.aligned low List.mem_cons_self
  obtain ⟨lowBehind, lowBounded⟩ := stage.behind low List.mem_cons_self
  obtain ⟨lowFresh, laterNodup⟩ := List.nodup_cons.1 stage.nodup
  obtain ⟨kernelFresh, _⟩ := List.nodup_cons.1 laterNodup
  rw [List.mem_cons, not_or] at lowFresh
  obtain ⟨count, isCount⟩ : ∃ count, image.endPaddr / 4096 - 256 = count + 1 :=
    ⟨image.endPaddr / 4096 - 257, by omega⟩
  have room : 256 + (count + 1) ≤ 1024 ∧ 0x100000 + 4096 * (count + 1) ≤ 4294967296 := by omega
  have few : count + 1 ≤ maxKernelPageCount := by
    unfold maxKernelPageCount
    omega
  obtain ⟨second, buildLow, secondStage, _⟩ := @stage_build image collected (bootEntries image)
    (kernel :: rest) low 0x2FC 0 0 255 idMapVaddr stage small (by decide) rfl (by decide) (by decide) (by decide)
  have absent : Function.update (bootEntries image) 0x2FC (createEntry low pdeWritable) 0x2F8 = 0 := by
    rw [Function.update_of_ne (by decide)]
    rfl
  obtain ⟨third, buildKernel, thirdStage, _⟩ := @stage_build image second _
    rest kernel 0x2F8 256 0x100000 count kernelMapVaddr secondStage small (by decide) absent room.1 (by decide) room.2
  have clear := @stage_build_clear image second third _ rest kernel 0x2F8 256 0x100000 count kernelMapVaddr secondStage
    small (by decide) absent room.1 (by decide) room.2 buildKernel other high (by omega)
  have lowTable : TableAt image (Function.update (Function.update (bootEntries image) 0x2FC
      (createEntry low pdeWritable)) 0x2F8 (createEntry kernel pdeWritable)) rest 0x2FC low :=
    ⟨by rw [Function.update_of_ne (by decide), Function.update_self], lowAligned, lowBehind, lowBounded, lowFresh.2⟩
  have kernelTable : TableAt image (Function.update (Function.update (bootEntries image) 0x2FC
      (createEntry low pdeWritable)) 0x2F8 (createEntry kernel pdeWritable)) rest 0x2F8 kernel :=
    ⟨Function.update_self _ _ _, kernelAligned, kernelBehind, kernelBounded, kernelFresh⟩
  have free : third.freeFramePaddr < 4294967296 := by
    cases rest with
    | nil => exact thirdStage.linked ▸ (by decide : 0 < 4294967296)
    | cons top others => exact thirdStage.linked.1 ▸ (thirdStage.behind top List.mem_cons_self).2
  obtain ⟨final, install, installed⟩ := install_ok thirdStage small lowTable kernelTable free
  have finished : reinitPaging image collected = .ok final := by
    rw [reinitPaging, size_in_pages_eq, isCount, Trap.kernel_assert_of few, Trap.ok_bind]
    change (mapPages collected idMapVaddr 0 pageWritable (255 + 1) >>= _) = _
    rw [buildLow, Trap.ok_bind]
    change (mapPages second kernelMapVaddr 0x100000 pageWritable (count + 1) >>= _) = _
    rw [buildKernel, Trap.ok_bind]
    exact install
  rw [finished, Except.ok.injEq] at completed
  rw [← completed, installed.words other high, if_neg (by omega)]
  exact clear

end Tables

section Globals

variable {machine middle next : Machine} {vaddr word paddr flags count : Nat}

theorem store_word_globals (stored : storeWord machine vaddr word = .ok next) : SameGlobals machine next := by
  obtain ⟨_, _, stored⟩ := Trap.bind_eq_ok.mp stored
  obtain ⟨_, _, stored⟩ := Trap.bind_eq_ok.mp stored
  obtain ⟨_, _, stored⟩ := Trap.bind_eq_ok.mp stored
  obtain ⟨_, _, stored⟩ := Trap.bind_eq_ok.mp stored
  simp only [Trap.pure_ok, Except.ok.injEq] at stored
  exact stored ▸ rfl

theorem init_page_table_globals {table : Nat} (cleared : initPageTableFrom machine table count = .ok next) :
    SameGlobals machine next := by
  induction count generalizing machine with
  | zero =>
      rw [initPageTableFrom, Except.ok.injEq] at cleared
      exact cleared ▸ same_globals_refl machine
  | succ count ih =>
      obtain ⟨middle, stored, cleared⟩ := Trap.bind_eq_ok.mp cleared
      exact same_globals_trans (store_word_globals stored) (ih cleared)

theorem alloc_frame_globals {frame : Nat} (allocated : allocFrame machine = .ok (frame, next)) :
    SameGlobals machine next := by
  obtain ⟨_, _, allocated⟩ := Trap.bind_eq_ok.mp allocated
  obtain ⟨_, _, allocated⟩ := Trap.bind_eq_ok.mp allocated
  obtain ⟨_, stored, allocated⟩ := Trap.bind_eq_ok.mp allocated
  simp only [Trap.pure_ok, Except.ok.injEq, Prod.mk.injEq] at allocated
  obtain ⟨_, rfl⟩ := allocated
  have kept := store_word_globals stored
  unfold SameGlobals at kept ⊢
  rw [kept]

theorem make_page_table_globals {pdi : Nat} (made : makePageTable machine pdi flags = .ok next) :
    SameGlobals machine next := by
  obtain ⟨directory, _, made⟩ := Trap.bind_eq_ok.mp made
  split_ifs at made
  · simp only [Trap.pure_ok, Except.ok.injEq] at made
    exact made ▸ same_globals_refl machine
  · obtain ⟨⟨frame, first⟩, allocated, made⟩ := Trap.bind_eq_ok.mp made
    obtain ⟨second, stored, made⟩ := Trap.bind_eq_ok.mp made
    exact same_globals_trans (alloc_frame_globals allocated)
      (same_globals_trans (store_word_globals stored) (init_page_table_globals made))

theorem map_page_globals {mapped : Bool} (completed : mapPage machine vaddr paddr flags = .ok (mapped, next)) :
    SameGlobals machine next := by
  obtain ⟨middle, made, completed⟩ := Trap.bind_eq_ok.mp completed
  obtain ⟨_, _, completed⟩ := Trap.bind_eq_ok.mp completed
  obtain ⟨_, _, completed⟩ := Trap.bind_eq_ok.mp completed
  obtain ⟨entry, _, completed⟩ := Trap.bind_eq_ok.mp completed
  have first := make_page_table_globals made
  split_ifs at completed
  · simp only [Trap.pure_ok, Except.ok.injEq, Prod.mk.injEq] at completed
    exact completed.2 ▸ first
  · obtain ⟨last, stored, completed⟩ := Trap.bind_eq_ok.mp completed
    simp only [Trap.pure_ok, Except.ok.injEq, Prod.mk.injEq] at completed
    exact completed.2 ▸ same_globals_trans first (store_word_globals stored)

theorem map_pages_globals (completed : mapPages machine vaddr paddr flags count = .ok next) :
    SameGlobals machine next := by
  induction count generalizing machine vaddr paddr with
  | zero =>
      rw [mapPages, Except.ok.injEq] at completed
      exact completed ▸ same_globals_refl machine
  | succ count ih =>
      obtain ⟨⟨mapped, first⟩, mapping, completed⟩ := Trap.bind_eq_ok.mp completed
      obtain ⟨_, _, completed⟩ := Trap.bind_eq_ok.mp completed
      exact same_globals_trans (map_page_globals mapping) (ih completed)

end Globals

section Filling

variable {region : Nat → Prop} {contributed : List Nat} {total : Nat} {machine next : Machine} {ledger : Ledger}
  {vaddr flags src : Nat}

/-- `alloc_pages` returns for the kernel when there are two frames for every page. -/
theorem kernel_pages_fill (count : Nat) (balanced : Balanced region contributed total machine ledger)
    (small : flags < 4096) (kernel : flags &&& 4 = 0)
    (inside : ∀ page, InRange (vaddr / 4096) count page → region page)
    (fresh : ∀ page, InRange (vaddr / 4096) count page → page ∉ ledger.pages)
    (enough : 2 * count ≤ ledger.free.length) : ∃ next, allocPages machine vaddr flags count = .ok next := by
  induction count generalizing machine ledger vaddr with
  | zero => exact ⟨machine, rfl⟩
  | succ count ih =>
      have range : InRange (vaddr / 4096) (count + 1) (vaddr / 4096) := ⟨le_refl _, by omega⟩
      have here := inside _ range
      obtain ⟨low, away⟩ := balanced.placed _ here
      have absent := mt (balanced.exact _ here).1 (fresh _ range)
      obtain ⟨middle, filled⟩ := @alloc_page_fills _ _ _ _ flags balanced.spaces balanced.free low away absent
        (fun user => absurd kernel user) (by omega)
      obtain ⟨frame, rest, _, backed⟩ := alloc_page_ok balanced.spaces balanced.free low small filled
      obtain ⟨tables, held⟩ := balanced_alloc balanced small here backed
      have step : u32 (vaddr + pageSize) = vaddr + 4096 := u32_of_lt (by unfold pageSize; omega)
      have left : ledger.free.length ≤ rest.length + 2 := by
        rcases backed.taken with ⟨_, free, _⟩ | ⟨_, table, free, _⟩
        · rw [free, List.length_cons]
          omega
        · rw [free, List.length_cons, List.length_cons]
      obtain ⟨last, completed⟩ := @ih middle _ (vaddr + 4096) held
        (fun page inner => inside page (in_range_rest inner))
        (by
          intro page inner member
          rcases List.mem_cons.1 member with same | old
          · unfold InRange at inner
            omega
          · exact fresh page (in_range_rest inner) old)
        (by dsimp only; omega)
      refine ⟨last, ?_⟩
      rw [alloc_pages_succ, filled, Trap.ok_bind, step]
      exact completed

/-- One page is backed, under a table that is open to user mode if the page is. -/
theorem one_page_fills (balanced : Balanced region contributed total machine ledger) (small : flags < 4096)
    (here : region (vaddr / 4096)) (fresh : vaddr / 4096 ∉ ledger.pages)
    (allowed : flags &&& 4 ≠ 0 → Present (directoryEntry machine.memory machine.cr3 (vaddr / 4096 / 1024)) →
      UserMode (directoryEntry machine.memory machine.cr3 (vaddr / 4096 / 1024)))
    (enough : 2 ≤ ledger.free.length) :
    ∃ next after, allocPages machine vaddr flags 1 = .ok next ∧ Balanced region contributed total next after ∧
      Extended (fun _ => False) machine next ledger after flags (vaddr / 4096) 1 ∧
      (flags &&& 4 ≠ 0 → UserMode (directoryEntry next.memory next.cr3 (vaddr / 4096 / 1024))) := by
  obtain ⟨low, away⟩ := balanced.placed _ here
  have absent := mt (balanced.exact _ here).1 fresh
  obtain ⟨next, filled⟩ := alloc_page_fills balanced.spaces balanced.free low away absent allowed enough
  have completed : allocPages machine vaddr flags 1 = .ok next := by
    rw [alloc_pages_succ, filled]
    rfl
  obtain ⟨_, _, _, backed⟩ := alloc_page_ok balanced.spaces balanced.free low small filled
  have inside : ∀ page, InRange (vaddr / 4096) 1 page → region page := by
    intro page range
    have isPage : page = vaddr / 4096 := by
      unfold InRange at range
      omega
    exact isPage ▸ here
  obtain ⟨after, held, extended⟩ := alloc_pages_extended 1 (fun _ => False) balanced small inside completed
  exact ⟨next, after, completed, held, extended, (same_globals_cr3 backed.globals).symm ▸ backed.userTable⟩

/-- `pmemcpy` returns from mapped pages to backed ones. -/
theorem copy_bytes_returns (count : Nat) (balanced : Balanced region contributed total machine ledger)
    (target : ∀ offset < count, (vaddr + offset) / 4096 ∈ ledger.pages)
    (source : ∀ offset < count, src + offset < 4190208 * 1024 ∧
      Present (pageEntry machine.memory machine.cr3 ((src + offset) / 4096))) :
    ∃ next, copyBytes machine vaddr src count = .ok next := by
  induction count generalizing machine vaddr src with
  | zero => exact ⟨machine, rfl⟩
  | succ count ih =>
      have member := target 0 (Nat.succ_pos count)
      obtain ⟨sourceLow, present⟩ := source 0 (Nat.succ_pos count)
      rw [Nat.add_zero] at member sourceLow present
      have low := (balanced.placed _ (balanced.inside _ member)).1
      obtain ⟨byte, loaded⟩ : ∃ byte, loadByte machine src = .ok byte := by
        rw [loadByte, physical, translate_page present]
        exact ⟨_, rfl⟩
      obtain ⟨middle, stored⟩ : ∃ middle, storeByte machine vaddr byte = .ok middle := by
        rw [storeByte, physical, page_translate balanced member]
        exact ⟨_, rfl⟩
      have changed : NewDirectory.Rewritten machine middle (backingFrame machine (vaddr / 4096)) := by
        refine ⟨?_, fun frame aligned differ => store_byte_elsewhere balanced member stored aligned differ⟩
        rw [store_byte_eq balanced member stored]
      obtain ⟨held, entries⟩ := NewDirectory.rewritten_balanced balanced member changed
      obtain ⟨next, copied⟩ := @ih _ (vaddr + 1) (src + 1) held
        (fun offset below => by
          have there := target (offset + 1) (by omega)
          rwa [← Nat.add_assoc, Nat.add_right_comm] at there)
        (fun offset below => by
          have there := source (offset + 1) (by omega)
          rw [← Nat.add_assoc, Nat.add_right_comm] at there
          exact ⟨there.1, by rw [entries _ (by omega)]; exact there.2⟩)
      refine ⟨next, ?_⟩
      rw [copyBytes, loaded, Trap.ok_bind, stored, Trap.ok_bind, u32_of_lt (by omega), u32_of_lt (by omega)]
      exact copied

end Filling

section Moving

variable {image : Image} {machine next collected moved : Machine} {frames rest : List Nat}
  {index page position low kernel : Nat}

theorem reinit_paging_globals (completed : reinitPaging image collected = .ok moved) : SameGlobals collected moved := by
  obtain ⟨_, _, completed⟩ := Trap.bind_eq_ok.mp completed
  obtain ⟨first, building, completed⟩ := Trap.bind_eq_ok.mp completed
  obtain ⟨second, mapping, completed⟩ := Trap.bind_eq_ok.mp completed
  obtain ⟨_, _, completed⟩ := Trap.bind_eq_ok.mp completed
  obtain ⟨_, _, completed⟩ := Trap.bind_eq_ok.mp completed
  obtain ⟨third, lowEntry, completed⟩ := Trap.bind_eq_ok.mp completed
  obtain ⟨_, _, completed⟩ := Trap.bind_eq_ok.mp completed
  obtain ⟨fourth, kernelEntry, completed⟩ := Trap.bind_eq_ok.mp completed
  obtain ⟨fifth, lowScratch, completed⟩ := Trap.bind_eq_ok.mp completed
  obtain ⟨sixth, kernelScratch, completed⟩ := Trap.bind_eq_ok.mp completed
  have tables := same_globals_trans (map_pages_globals building) (map_pages_globals mapping)
  have places := same_globals_trans (store_word_globals lowEntry) (store_word_globals kernelEntry)
  have scratch := same_globals_trans (store_word_globals lowScratch) (store_word_globals kernelScratch)
  exact same_globals_trans tables
    (same_globals_trans places (same_globals_trans scratch (store_word_globals completed)))

/-- Only low memory, the kernel and the window of the free list are mapped. -/
structure Settled (image : Image) (machine : Machine) (frames : List Nat) : Prop where
  spaces : Spaces machine [machine.cr3]
  free : FreeList machine [machine.cr3] frames
  low : Present (directoryEntry machine.memory machine.cr3 0)
  window : windowPage machine = 0xC0000 + image.endPaddr / 4096
  clear : ∀ page, windowPage machine < page → page < 1047552 →
    ¬ Present (pageEntry machine.memory machine.cr3 page)
  kernel : ∀ page, 0xC0100 ≤ page → page < windowPage machine →
    Present (pageEntry machine.memory machine.cr3 page)
  unused : ∀ index, 0x300 < index → index < 1023 → ¬ Present (directoryEntry machine.memory machine.cr3 index)

/-- The directory when both tables have their places. -/
theorem built_directory (built : Built image collected moved rest low kernel) (bounded : index < 1024) :
    directoryEntry moved.memory moved.cr3 index =
      if index = 0 then createEntry low pdeWritable
      else if index = 0x300 then createEntry kernel pdeWritable
      else if index = 1023 then image.pageDirectory + 1 else 0 := by
  rw [built.cr3, built.directory.entries index bounded, installed]
  by_cases isLow : index = 0
  · rw [if_pos isLow, isLow, Function.update_of_ne (by decide), Function.update_of_ne (by decide),
      Function.update_of_ne (by decide), Function.update_self]
  · by_cases isKernel : index = 0x300
    · rw [if_neg isLow, if_pos isKernel, isKernel, Function.update_of_ne (by decide),
        Function.update_of_ne (by decide), Function.update_self]
    · rw [if_neg isLow, if_neg isKernel]
      by_cases isKernelMap : index = 0x2F8
      · rw [isKernelMap, Function.update_self, if_neg (by decide)]
      · by_cases isIdMap : index = 0x2FC
        · rw [isIdMap, Function.update_of_ne (by decide), Function.update_self, if_neg (by decide)]
        · rw [Function.update_of_ne isKernelMap, Function.update_of_ne isIdMap, Function.update_of_ne isKernel,
            Function.update_of_ne isLow, Function.update_of_ne isKernelMap, Function.update_of_ne isIdMap, bootEntries,
            if_neg (not_or.2 ⟨isLow, isKernel⟩)]

/-- The frames of the two tables. -/
theorem built_table (ready : Ready image collected (low :: kernel :: rest))
    (built : Built image collected moved rest low kernel) (bounded : index < 1023)
    (present : Present (directoryEntry moved.memory moved.cr3 index)) :
    index = 0 ∧ frameOf (directoryEntry moved.memory moved.cr3 index) = low ∨
      index = 0x300 ∧ frameOf (directoryEntry moved.memory moved.cr3 index) = kernel := by
  have stage := ready.stage
  have lowAligned := stage.aligned low List.mem_cons_self
  have kernelAligned := stage.aligned kernel (List.mem_cons_of_mem _ List.mem_cons_self)
  have lowBounded := (stage.behind low List.mem_cons_self).2
  have kernelBounded := (stage.behind kernel (List.mem_cons_of_mem _ List.mem_cons_self)).2
  rw [built_directory built (by omega)] at present ⊢
  split_ifs at present ⊢ with first second last
  · refine .inl ⟨first, ?_⟩
    rw [create_entry_frame lowBounded (by decide), frameOf]
    omega
  · refine .inr ⟨second, ?_⟩
    rw [create_entry_frame kernelBounded (by decide), frameOf]
    omega
  · omega
  · exact absurd present not_present_zero

/-- A page of the kernel's table. -/
theorem built_kernel_page (ready : Ready image collected (low :: kernel :: rest))
    (built : Built image collected moved rest low kernel) (isKernel : page / 1024 = 0x300) :
    pageEntry moved.memory moved.cr3 page = readWord moved.memory (kernel + 4 * (page % 1024)) := by
  have entry := built_directory built (show 0x300 < 1024 by decide)
  rw [if_neg (by decide), if_pos rfl] at entry
  have present : Present (directoryEntry moved.memory moved.cr3 0x300) := entry ▸ create_entry_present _ _
  have isTable : frameOf (directoryEntry moved.memory moved.cr3 0x300) = kernel := by
    rcases built_table ready built (by decide : 0x300 < 1023) present with ⟨other, _⟩ | ⟨_, same⟩
    · cases other
    · exact same
  rw [pageEntry, isKernel, if_pos present, slot, isKernel, isTable]

/-- `reinit_paging` leaves the boot directory as the only one, and nothing mapped behind the window. -/
theorem settled_of_built (ready : Ready image collected (low :: kernel :: rest)) (small : image.endPaddr < 0x400000)
    (current : collected.currentPageDir = collected.cr3) (completed : reinitPaging image collected = .ok moved)
    (built : Built image collected moved rest low kernel) : Settled image moved rest := by
  obtain ⟨isEnd, ends, isTable, directoryAligned, _, _, inTable, isPage, _⟩ := small_places small
  have stage := ready.stage
  have globals := reinit_paging_globals completed
  have whole := image.aligned
  have imageBehind := image.behind
  unfold kernelStartPaddr pageSize at imageBehind
  have lowBehind := (stage.behind low List.mem_cons_self).1
  have kernelBehind := (stage.behind kernel (List.mem_cons_of_mem _ List.mem_cons_self)).1
  obtain ⟨lowFresh, laterNodup⟩ := List.nodup_cons.1 stage.nodup
  obtain ⟨kernelFresh, restNodup⟩ := List.nodup_cons.1 laterNodup
  rw [List.mem_cons, not_or] at lowFresh
  have inRest : ∀ frame ∈ rest, frame ∈ low :: kernel :: rest := fun frame member =>
    List.mem_cons_of_mem _ (List.mem_cons_of_mem _ member)
  have cr3 := built.cr3
  have window : windowPage moved = 0xC0000 + image.endPaddr / 4096 := by
    rw [windowPage, built.head]
    omega
  have isKernel : windowPage moved / 1024 = 0x300 := by omega
  have kernelEntry := built_directory built (show 0x300 < 1024 by decide)
  rw [if_neg (by decide), if_pos rfl] at kernelEntry
  have kernelPresent : Present (directoryEntry moved.memory moved.cr3 0x300) :=
    kernelEntry ▸ create_entry_present _ _
  have lowPresent : Present (directoryEntry moved.memory moved.cr3 0) := by
    rw [built_directory built (by decide), if_pos rfl]
    exact create_entry_present _ _
  have pageBound : ∀ page, 0xC0000 ≤ page → page < 0xC0400 → page / 1024 = 0x300 ∧ page % 1024 = page - 0xC0000 := by
    intro page first last
    omega
  refine ⟨⟨⟨?_, ?_, ?_, ?_, ?_⟩, ?_, List.mem_singleton_self _, ?_, ?_, ?_, ?_⟩,
    ⟨built.linked, restNodup, fun frame member => stage.aligned frame (inRest frame member), ?_, ?_, ?_, ?_, ?_⟩,
    lowPresent, window, ?_, ?_, ?_⟩
  · refine List.forall_mem_singleton.2 ?_
    rw [cr3]
    exact directoryAligned
  · refine List.forall_mem_singleton.2 ?_
    rw [cr3]
    omega
  · exact List.forall_mem_singleton.2 (directory_self_mapped built.directory small)
  · refine List.forall_mem_singleton.2 fun index bounded present member => ?_
    rw [List.mem_singleton, cr3] at member
    rw [← cr3] at member
    rcases built_table ready built bounded present with ⟨_, same⟩ | ⟨_, same⟩
    all_goals
      rw [same, cr3] at member
      omega
  · intro root isRoot other isOther index bounded position below present there same
    rw [List.mem_singleton.1 isRoot] at present same
    rw [List.mem_singleton.1 isOther] at there same
    rcases built_table ready built bounded present with ⟨first, frame⟩ | ⟨first, frame⟩ <;>
      rcases built_table ready built below there with ⟨second, again⟩ | ⟨second, again⟩
    · rw [first, second]
    · exact absurd (frame.symm.trans (same.trans again)) lowFresh.1
    · exact absurd (again.symm.trans (same.symm.trans frame)) lowFresh.1
    · rw [first, second]
  · have sameCurrent : moved.currentPageDir = collected.currentPageDir := by rw [globals]
    rw [sameCurrent, current, same_globals_cr3 globals]
  · rw [built.head]
    omega
  · rw [built.head]
    omega
  · have samePte : moved.freeListHeadPte = collected.freeListHeadPte := by rw [globals]
    rw [samePte, stage.headPte, window, isPage]
  · refine List.forall_mem_singleton.2 (List.forall_mem_singleton.2 ?_)
    rw [Shares, isKernel]
    exact ⟨kernelPresent, kernelPresent, rfl⟩
  · intro frame member
    have behind := (stage.behind frame (inRest frame member)).1
    omega
  · exact fun frame member => (stage.behind frame (inRest frame member)).2
  · intro frame member root
    have behind := (stage.behind frame (inRest frame member)).1
    rw [List.mem_singleton, cr3] at root
    omega
  · rintro frame member ⟨root, isRoot, index, bounded, present, same⟩
    rw [List.mem_singleton.1 isRoot] at present same
    rcases built_table ready built bounded present with ⟨_, isLow⟩ | ⟨_, isFrame⟩
    · exact lowFresh.2 (isLow.symm.trans same ▸ member)
    · exact kernelFresh (isFrame.symm.trans same ▸ member)
  · rw [built_kernel_page ready built isKernel, (pageBound _ (by omega) (by omega)).2]
    have offset : windowPage moved - 0xC0000 = image.endPaddr / 4096 := by omega
    rw [offset]
    exact built.window
  · intro page behind before present
    by_cases inside : page < 0xC0400
    · obtain ⟨isIndex, isOffset⟩ := pageBound page (by omega) inside
      rw [built_kernel_page ready built isIndex, isOffset,
        reinit_paging_clear ready small completed (by omega) (by omega)] at present
      exact not_present_zero present
    · rw [pageEntry] at present
      split_ifs at present with table
      · rcases built_table ready built (by omega) table with ⟨isIndex, _⟩ | ⟨isIndex, _⟩ <;> omega
      · exact not_present_zero present
  · intro page behind before
    obtain ⟨isIndex, isOffset⟩ := pageBound page (by omega) (by omega)
    rw [built_kernel_page ready built isIndex, isOffset, built.kernelWords _ (by omega) (by omega)]
    exact create_entry_present _ _
  · intro index behind below present
    rcases built_table ready built below present with ⟨isIndex, _⟩ | ⟨isIndex, _⟩ <;> omega

end Moving

section Heaps

variable {image : Image} {machine : Machine} {frames : List Nat} {memory userRoMemory : Nat → UInt8} {buffer : Nat}

/-- `heap_init` returns when its usage map is backed. -/
theorem heap_init_returns {next : Machine} {heapStart pageCount flags first : Nat} (place : heapStart = first * 4096)
    (bounded : (first + sizeInPages (usageBytes pageCount)) * 4096 < 4294967296)
    (backing : allocPages machine heapStart flags (sizeInPages (usageBytes pageCount)) = .ok next) :
    ∃ heap, memHeapInit machine memory heapStart pageCount flags = .ok (heap, next) ∧
      heap.heapStart = (first + sizeInPages (usageBytes pageCount)) * 4096 ∧ heap.pageCount = pageCount := by
  have aligned := LoadedPrograms.page_aligned_of (by omega : heapStart % 4096 = 0)
  have start : u32 (heapStart + sizeInPages (usageBytes pageCount) * 4096) =
      (first + sizeInPages (usageBytes pageCount)) * 4096 := by
    rw [u32_of_lt (by omega)]
    omega
  rw [memHeapInit, Trap.kernel_assert_of aligned, Trap.ok_bind, backing, Trap.ok_bind, heapInit,
    Trap.kernel_assert_of aligned, Trap.ok_bind]
  exact ⟨_, rfl, start, rfl⟩

/-- Both heaps are empty, and the pages of the kernel are as they were. -/
structure HeapsReady (machine start : Machine) (frames : List Nat) (ledger : Ledger) : Prop where
  balanced : Balanced (Inside ⟨windowPage machine + 1, 1047552⟩) (frames ++ [])
    (u32 (machine.usedFrames + frames.length)) start ledger
  roots : ledger.roots = [machine.cr3]
  fresh : 1046529 ∉ ledger.pages
  firstPage : windowPage machine + 17 ∉ ledger.pages
  userTable : UserMode (directoryEntry start.memory start.cr3 1022)
  kept : ∀ page < windowPage machine, pageEntry start.memory start.cr3 page =
    pageEntry machine.memory machine.cr3 page
  globals : SameGlobals { machine with kernelHeap := start.kernelHeap, userRoHeap := start.userRoHeap } start
  kernelStart : start.kernelHeap.heapStart = (windowPage machine + 17) * 4096
  kernelCount : start.kernelHeap.pageCount = 1046527 - windowPage machine
  kernelFree : ∀ index < start.kernelHeap.pageCount, heapGetUsage start.kernelHeap index = heapPageFree
  userStart : start.userRoHeap.heapStart = 1046529 * 4096
  userCount : start.userRoHeap.pageCount = 1024
  userFree : ∀ index < start.userRoHeap.pageCount, heapGetUsage start.userRoHeap index = heapPageFree
  taken : frames.length ≤ ledger.free.length + 34

theorem settled_balanced (settled : Settled image machine frames) :
    Balanced (Inside ⟨windowPage machine + 1, 1047552⟩) (frames ++ []) (u32 (machine.usedFrames + frames.length))
      machine (emptyLedger [machine.cr3] frames) where
  spaces := settled.spaces
  free := settled.free
  low := settled.low
  placed page inside := by
    have within : windowPage machine + 1 ≤ page ∧ page < 1047552 := inside
    omega
  exact page inside := by
    have within : windowPage machine + 1 ≤ page ∧ page < 1047552 := inside
    exact iff_of_false (settled.clear page (by omega) within.2) List.not_mem_nil
  inside := List.forall_mem_nil _
  nodup := List.nodup_nil
  positive := List.forall_mem_nil _
  apart := List.forall_mem_nil _
  own := List.forall_mem_nil _
  tables := List.forall_mem_nil _
  directories := List.forall_mem_nil _
  accounts := by
    rw [emptyLedger]
    exact List.Perm.refl _
  usage := rfl

theorem init_heap_returns (settled : Settled image machine frames) (small : image.endPaddr < 0x400000)
    (enough : 34 ≤ frames.length) :
    ∃ start ledger, initHeap machine memory userRoMemory = .ok start ∧ HeapsReady machine start frames ledger := by
  have imageBehind := image.behind
  unfold kernelStartPaddr pageSize at imageBehind
  have isWindow := settled.window
  obtain ⟨window, same⟩ : ∃ window, windowPage machine = window := ⟨_, rfl⟩
  rw [same] at isWindow
  have spaces := settled.spaces
  have headAligned := spaces.headAligned
  have isHead : machine.freeListHead = window * 4096 := by
    have page : machine.freeListHead / 4096 = window := same
    omega
  have place : u32 (machine.freeListHead + pageSize) = (window + 1) * 4096 := by
    rw [isHead, pageSize, u32_of_lt (by omega)]
    omega
  have count : heapPageCount ((window + 1) * 4096) = 1047551 - window := by
    rw [heap_page_count_eq (by omega), if_pos (by omega)]
    omega
  have left : 1047551 - window - userRoPages = 1046527 - window := by
    unfold userRoPages
    omega
  have userPlace : u32 ((window + 1) * 4096 + u32 ((1046527 - window) * pageSize)) = 1046528 * 4096 := by
    have offset : u32 ((1046527 - window) * pageSize) = (1046527 - window) * 4096 := by
      rw [pageSize]
      exact u32_of_lt (by omega)
    rw [offset, u32_of_lt (by omega)]
    omega
  have kernelMap : sizeInPages (usageBytes (1046527 - window)) = 16 := by
    change u32 (u32 (1046527 - window + 3) / 4 + 4095) / 4096 = 16
    unfold u32
    omega
  have userMap : sizeInPages (usageBytes userRoPages) = 1 := by decide
  have balanced := settled_balanced settled
  rw [same] at balanced
  have page : (window + 1) * 4096 / 4096 = window + 1 := by omega
  -- the usage map of the kernel's heap
  obtain ⟨first, backing⟩ := @kernel_pages_fill _ _ _ machine _ ((window + 1) * 4096) (pageWritable ||| pageGlobal) 16
    balanced (by decide) (by decide)
    (fun other range => by
      rw [page] at range
      unfold InRange at range
      change window + 1 ≤ other ∧ other < 1047552
      omega)
    (fun other _ => List.not_mem_nil) (show 2 * 16 ≤ frames.length by omega)
  obtain ⟨between, held, extended⟩ := alloc_pages_extended 16 (fun _ => False) balanced
    (by decide : pageWritable ||| pageGlobal < 4096) (fun other range => by
      rw [page] at range
      unfold InRange at range
      change window + 1 ≤ other ∧ other < 1047552
      omega) backing
  rw [page] at extended
  have firstTaken : frames.length ≤ between.free.length + 2 * 16 := extended.taken
  obtain ⟨kernelHeap, kernelInit, kernelStart, kernelCount⟩ := @heap_init_returns machine memory first _
    (1046527 - window) (pageWritable ||| pageGlobal) (window + 1) rfl (by rw [kernelMap]; omega)
    (by rw [kernelMap]; exact backing)
  rw [kernelMap] at kernelStart
  obtain ⟨kernelFilled, _⟩ := @mem_heap_init_filled machine [machine.cr3] frames (window + 1) memory _
    (1046527 - window) (pageWritable ||| pageGlobal) 1046528 kernelHeap first spaces settled.free (by decide) rfl
    (by omega)
    (by rw [kernelMap]; omega) (by decide) kernelInit
  -- the usage map of the heap for users, whose table is new
  have firstCr3 := same_globals_cr3 extended.carried.globals
  have absent : ¬ Present (directoryEntry first.memory first.cr3 1022) := by
    rw [firstCr3, extended.carried.entries machine.cr3 (List.mem_singleton_self _) 1022 (by decide)]
    · exact settled.unused 1022 (by decide) (by decide)
    · rintro ⟨_, _, other, range, isIndex⟩
      unfold InRange at range
      omega
  obtain ⟨second, after, userBacking, kept, grown, userTable⟩ := @one_page_fills _ _ _ first between (1046528 * 4096)
    (pageWritable ||| pageUserMode ||| pageGlobal) held (by decide)
    (show window + 1 ≤ 1046528 * 4096 / 4096 ∧ 1046528 * 4096 / 4096 < 1047552 by omega)
    (by
      intro member
      rcases (extended.pages _).1 member with none | range
      · exact absurd none List.not_mem_nil
      · unfold InRange at range
        omega)
    (fun _ present => absurd present absent) (by omega)
  have grownTaken := grown.taken
  obtain ⟨userRoHeap, userInit, userStart, userCount⟩ := @heap_init_returns first userRoMemory second _ userRoPages
    (pageWritable ||| pageUserMode ||| pageGlobal) 1046528 rfl (by rw [userMap]; decide)
    (by rw [userMap]; exact userBacking)
  rw [userMap] at userStart
  obtain ⟨userFilled, _⟩ := @mem_heap_init_filled first between.roots between.free 1046528 userRoMemory _ userRoPages
    (pageWritable ||| pageUserMode ||| pageGlobal) 1047552 userRoHeap second held.spaces held.free (by decide) rfl
    (by decide) (by rw [userMap]; decide) le_rfl userInit
  have finished : initHeap machine memory userRoMemory =
      .ok { second with kernelHeap := kernelHeap, userRoHeap := userRoHeap } := by
    rw [initHeap]
    dsimp only
    rw [place, count, Trap.kernel_assert_of (by unfold userRoPages; omega), Trap.ok_bind, left, kernelInit,
      Trap.ok_bind, userPlace, userInit]
    rfl
  have all := same_globals_trans extended.carried.globals grown.carried.globals
  have secondCr3 := same_globals_cr3 grown.carried.globals
  have isRoots : between.roots = [machine.cr3] := extended.carried.roots
  have listed : ∀ other ∈ after.pages, window + 1 ≤ other ∧ other < window + 17 ∨ other = 1046528 := by
    intro other member
    rcases (grown.pages _).1 member with old | range
    · rcases (extended.pages _).1 old with none | range
      · exact absurd none List.not_mem_nil
      · unfold InRange at range
        omega
    · unfold InRange at range
      omega
  refine ⟨_, after, finished, ?_, grown.carried.roots.trans isRoots, ?_, ?_, ?_, ?_, ?_, ?_, kernelCount.trans ?_, ?_,
    userStart, userCount, ?_, by omega⟩
  · rw [same]
    exact balanced_same_paging kept ⟨rfl, rfl, rfl, rfl, rfl, rfl⟩ rfl
  · intro member
    rcases listed _ member with range | isMap <;> omega
  · intro member
    rw [same] at member
    rcases listed _ member with range | isMap <;> omega
  · exact userTable (by decide)
  · intro other below
    rw [same] at below
    change pageEntry second.memory second.cr3 other = _
    have firstWindow := same_globals_window extended.carried.globals
    rw [secondCr3, grown.spares.entries first.cr3 (by rw [isRoots, firstCr3]; exact List.mem_singleton_self _) other
      (by omega) (by rw [firstWindow]; omega), firstCr3,
      extended.spares.entries machine.cr3 (List.mem_singleton_self _) other (by omega) (by omega)]
    · rintro ⟨range, _⟩
      unfold InRange at range
      omega
    · rintro ⟨range, _⟩
      unfold InRange at range
      omega
  · unfold SameGlobals at all ⊢
    rw [all]
  · rw [same]
    exact kernelStart
  · rw [same]
  · intro index below
    by_contra used
    exact absurd ((kernelFilled.marks index below).1 used) (Nat.not_lt_zero index)
  · intro index below
    by_contra used
    exact absurd ((userFilled.marks index below).1 used) (Nat.not_lt_zero index)

end Heaps

section Boot

open AidCycles FreeAids LoadedPrograms ProgramLayout ProgramStarts ProcessSpaces

variable {image : Image} {machine early first collected : Machine} {info : MultibootInfo} {frames : List Nat}
  {userMap : List PhysicalMap} {memory userRoMemory : Nat → UInt8} {buffer nil : Nat}

/-- What the run behind `reinit_paging` leaves. -/
structure HeapsMade (machine final : Machine) (frames rest : List Nat) : Prop where
  sound : Sound final [machine.cr3] rest
  kernelStart : final.kernelHeap.heapStart = (windowPage machine + 17) * 4096
  kernelCount : final.kernelHeap.pageCount = 1046527 - windowPage machine
  kernelFree : ∀ index < final.kernelHeap.pageCount, heapGetUsage final.kernelHeap index = heapPageFree
  window : windowPage final = windowPage machine
  absent : ¬ Present (pageEntry final.memory final.cr3 (windowPage machine + 17))
  taken : frames.length ≤ rest.length + 36

/-- The first page of an empty heap is handed out. -/
theorem empty_heap_alloc {heap : Heap} {base : Nat} (start : heap.heapStart = base * 4096) (below : base < 1048576)
    (positive : 0 < heap.pageCount) (bounded : heap.pageCount < 4294967296)
    (free : ∀ index < heap.pageCount, heapGetUsage heap index = heapPageFree) :
    ∃ marked, heapAlloc heap 1 = .ok (base * 4096, marked) := by
  obtain ⟨ptr, marked, allocated⟩ := heap_alloc_of_window heap 1 0 (by decide) bounded (by omega)
    (fun index _ small => free index (by omega))
  obtain ⟨index, _, isPtr, _, _, _, _, _, _, _, minimal⟩ := heap_alloc_ok (by decide) bounded allocated
  have isFirst : index = 0 := by
    by_contra behind
    obtain ⟨other, _, small, used⟩ := minimal 0 (by omega)
    exact used (free other (by omega))
  refine ⟨marked, ?_⟩
  rw [allocated, isPtr, isFirst, pagePtr, start]
  congr 2
  unfold u32
  omega

theorem init_heaps_returns (settled : Settled image machine frames) (small : image.endPaddr < 0x400000)
    (few : machine.userPhysicalMapLen ≤ physicalMapRoom) (begins : kernelStartVaddr ≤ buffer)
    (ends : buffer + pageSize ≤ image.endVaddr) (enough : 36 ≤ frames.length) :
    ∃ final rest, initHeaps machine memory userRoMemory buffer = .ok final ∧ HeapsMade machine final frames rest := by
  obtain ⟨isEnd, _⟩ := small_places small
  have imageBehind := image.behind
  have whole := image.aligned
  unfold kernelStartPaddr pageSize at imageBehind
  unfold physicalMapRoom pageSize at few
  unfold kernelStartVaddr at begins
  unfold pageSize at ends
  have isWindow := settled.window
  obtain ⟨start, ledger, opening, ready⟩ :=
    @init_heap_returns image machine frames memory userRoMemory settled small (by omega)
  have userCount := ready.userCount
  obtain ⟨marked, allocating⟩ := empty_heap_alloc ready.userStart (by decide) (by omega) (by omega) ready.userFree
  have startTaken := ready.taken
  have startCr3 := same_globals_cr3 ready.globals
  change start.cr3 = machine.cr3 at startCr3
  have startWindow := same_globals_window ready.globals
  change windowPage start = windowPage machine at startWindow
  obtain ⟨mapped, after, backing, held, extended, _⟩ := @one_page_fills _ _ _ start ledger (1046529 * 4096) pageUserMode
    ready.balanced (by decide) (show windowPage machine + 1 ≤ 1046529 * 4096 / 4096 ∧ 1046529 * 4096 / 4096 < 1047552
      by omega) ready.fresh (fun _ _ => ready.userTable) (by omega)
  have taken := extended.taken
  have globals := extended.carried.globals
  have mappedCr3 := same_globals_cr3 globals
  have allocated : memAlloc start start.userRoHeap 1 pageUserMode = .ok (1046529 * 4096, marked, mapped) := by
    rw [memAlloc, Trap.kernel_assert_of (by decide), Trap.ok_bind, allocating, Trap.ok_bind]
    dsimp only
    rw [backing]
    rfl
  have length : mapped.userPhysicalMapLen = machine.userPhysicalMapLen := by
    have first : start.userPhysicalMapLen = machine.userPhysicalMapLen := by rw [ready.globals]
    rw [globals]
    exact first
  have member : 1046529 ∈ after.pages := (extended.pages _).2 (.inr ⟨le_rfl, by decide⟩)
  have bytes : u32 (mapped.userPhysicalMapLen * 8) = machine.userPhysicalMapLen * 8 := by
    rw [length, u32_of_lt (by omega)]
  have target : ∀ offset < machine.userPhysicalMapLen * 8, (1046529 * 4096 + offset) / 4096 ∈ after.pages := by
    intro offset below
    rw [show (1046529 * 4096 + offset) / 4096 = 1046529 by omega]
    exact member
  obtain ⟨copied, copying⟩ := @copy_bytes_returns _ _ _ mapped after (1046529 * 4096) buffer
    (machine.userPhysicalMapLen * 8) held target
    (by
      intro offset below
      refine ⟨by omega, ?_⟩
      have present := settled.kernel ((buffer + offset) / 4096) (by omega) (by omega)
      rw [mappedCr3, extended.spares.entries start.cr3 (by
          rw [ready.roots, startCr3]
          exact List.mem_singleton_self _) _ (by omega) (by omega) (by
          rintro ⟨range, _⟩
          unfold InRange at range
          omega), ready.kept _ (by omega)]
      exact present)
  obtain ⟨heldCopy, carried⟩ := copy_bytes_balanced _ held target copying
  have all := same_globals_trans globals carried.globals
  obtain ⟨final, isFinal⟩ : ∃ final : Machine,
      final = { copied with userRoHeap := marked, userPhysicalMap := 1046529 * 4096 } := ⟨_, rfl⟩
  have finished : initHeaps machine memory userRoMemory buffer = .ok final := by
    rw [initHeaps, opening, Trap.ok_bind, allocated, Trap.ok_bind]
    dsimp only
    rw [bytes, copying, isFinal]
    rfl
  have same : SamePaging copied final := by
    rw [isFinal]
    exact ⟨rfl, rfl, rfl, rfl, rfl, rfl⟩
  have balanced := balanced_same_paging heldCopy same (by rw [isFinal])
  have kernel : final.kernelHeap = start.kernelHeap := by
    rw [isFinal]
    change copied.kernelHeap = _
    rw [all]
  have window : windowPage final = windowPage machine := by
    have copiedWindow : windowPage copied = windowPage start := same_globals_window all
    rw [isFinal]
    exact copiedWindow.trans startWindow
  have roots : after.roots = [machine.cr3] := extended.carried.roots.trans ready.roots
  have kernelStart : final.kernelHeap.heapStart = (windowPage machine + 17) * 4096 := kernel ▸ ready.kernelStart
  have kernelCount : final.kernelHeap.pageCount = 1046527 - windowPage machine := kernel ▸ ready.kernelCount
  refine ⟨final, after.free, finished, ⟨roots ▸ balanced.spaces, roots ▸ balanced.free, balanced.low, ?_, ?_, ?_⟩,
    kernelStart, kernelCount, kernel ▸ ready.kernelFree, window, ?_, by omega⟩
  · rw [window, kernelPdiStart]
    omega
  · rw [kernelStart]
    omega
  · rw [kernelStart, kernelCount]
    omega
  · have inside : Inside ⟨windowPage machine + 1, 1047552⟩ (windowPage machine + 17) :=
      show windowPage machine + 1 ≤ _ ∧ _ < 1047552 by omega
    refine mt (balanced.exact _ inside).1 fun there => ?_
    rcases (extended.pages _).1 there with old | range
    · exact ready.firstPage old
    · unfold InRange at range
      omega

/-- `mem_init` behind the stores of the current directory, which `booted` makes. The usage maps of the
heaps held `memory` and `userRoMemory`, and `buffer` is `user_physical_map_buffer`. -/
def memInit (image : Image) (machine : Machine) (info : MultibootInfo) (memory userRoMemory : Nat → UInt8)
    (buffer : Nat) : Except Trap Machine := do
  let machine ← initFreeListPage image machine
  let (userPhysicalMap, machine) ← initFrames image machine info
  let machine ← reinitPaging image machine
  initHeaps { machine with userPhysicalMapLen := userPhysicalMap.length } memory userRoMemory buffer

/-- `init_frames` keeps to the room of the map. -/
theorem init_entries_room {later : List PhysicalMap} {next after : Machine} (entries : List MMapEntry)
    (room : userMap.length ≤ physicalMapRoom)
    (completed : initEntries image next userMap entries = .ok (later, after)) :
    later.length ≤ physicalMapRoom := by
  induction entries generalizing next userMap with
  | nil =>
      rw [initEntries, Except.ok.injEq, Prod.mk.injEq] at completed
      exact completed.1 ▸ room
  | cons entry entries ih =>
      rw [init_entries_cons] at completed
      split_ifs at completed with accepted available left
      · obtain ⟨middle, _, completed⟩ := Trap.bind_eq_ok.mp completed
        refine ih ?_ completed
        rw [List.length_append, List.length_singleton]
        omega
      · exact ih room completed

/-- What `init_frames` collects is what `reinit_paging` starts from. -/
theorem collected_ready (started : booted image machine = .ok early) (found : initFreeListPage image early = .ok first)
    (sound : SoundMap info.mmap) (clear : ClearsKernel image info.mmap)
    (collecting : initFrames image first info = .ok (userMap, collected)) (listed : FreeFrames collected frames)
    (nonempty : frames ≠ []) : Ready image collected frames ∧ collected.currentPageDir = collected.cr3 ∧
      userMap.length ≤ physicalMapRoom := by
  obtain ⟨_, none⟩ := boot_window started found
  obtain ⟨_, _, entries⟩ := Trap.bind_eq_ok.mp collecting
  have low := entries_ended info.mmap sound.words sound.fits entries
  rcases collect_entries image [] info.mmap sound low none (List.forall_mem_nil _) with failed | passed
  · rw [failed] at entries
    cases entries
  · obtain ⟨later, after, added, again, all, members⟩ := passed
    rw [entries, Except.ok.injEq, Prod.mk.injEq] at again
    obtain ⟨rfl, rfl⟩ := again
    rw [List.append_nil] at all
    have same := linked_unique listed.2 (fun frame member => (all.bounded frame member).1) listed.1 all.linked
    rw [← same] at all members
    have current : first.currentPageDir = first.cr3 := by
      have small := free_list_page_size started found
      have tables := booted_tables started
      rw [init_free_list_page_ok tables small, Except.ok.injEq] at found
      subst found
      exact tables.current.trans tables.cr3.symm
    refine ⟨ready_of_collected started found all nonempty
      fun frame member => collected_behind clear ((members frame).1 member), ?_,
      init_entries_room info.mmap (Nat.zero_le _) entries⟩
    rw [all.globals]
    exact current

/-- The kernel's heap is empty, lies behind the window and reaches no further than the page tables. -/
theorem heaps_made_ready {final : Machine} {rest : List Nat} (made : HeapsMade machine final frames rest)
    (low : 0xC0000 ≤ windowPage machine) (high : windowPage machine < 0xC0400) (inImage : nil < windowPage machine * 4096) :
    HeapReady final nil ∧ HeapInvariant final.kernelHeap.pageCount ⟨final.kernelHeap, []⟩ ∧ HeapBehind final := by
  have start := made.kernelStart
  have count := made.kernelCount
  have empty : HeapInvariant final.kernelHeap.pageCount ⟨final.kernelHeap, []⟩ := by
    refine ⟨rfl, ?_, ?_, ColouredLine.coloured_nil made.kernelFree⟩
    · change final.kernelHeap.heapStart < 4294967296
      omega
    · change final.kernelHeap.heapStart % 4096 = 0
      omega
  refine ⟨⟨⟨[], empty⟩, ?_, ?_, ?_⟩, empty, ?_⟩
  · omega
  · omega
  · omega
  · rw [HeapBehind, made.window, start]
    omega

/-- Its first page is free for a first process. -/
theorem heaps_made_room {final : Machine} {rest : List Nat} (made : HeapsMade machine final frames rest)
    (low : 0xC0000 ≤ windowPage machine) (high : windowPage machine < 0xC0400) (links : Nat → RbTreeModel.RbNode)
    (queue : Nat → Nat) : HeapRoom (processesInit final nil links queue).machine 0 := by
  have start := made.kernelStart
  have count := made.kernelCount
  refine ⟨⟨?_, ?_, ?_, ?_, fun _ below => absurd below (Nat.not_lt_zero _), ?_, ?_⟩, ?_⟩
  · change final.kernelHeap.heapStart % 4096 = 0
    omega
  · change final.kernelHeap.heapStart + final.kernelHeap.pageCount * 4096 ≤ 4294967296
    omega
  · change final.kernelHeap.pageCount ≤ 524288
    omega
  · change 0 < final.kernelHeap.pageCount
    omega
  · exact made.kernelFree 0 (by omega)
  · exact made.kernelFree 1 (by omega)
  · have page : final.kernelHeap.heapStart / 4096 + 0 = windowPage machine + 17 := by omega
    change ¬ Present (pageEntry final.memory final.cr3 (final.kernelHeap.heapStart / 4096 + 0))
    rw [page]
    exact made.absent

/-- Once `init_frames` has collected 38 frames the rest of `mem_init` returns. The kernel's heap has
its first page free, and the first application id is unused. -/
theorem mem_init_ready (started : booted image machine = .ok early)
    (found : initFreeListPage image early = .ok first) (sound : SoundMap info.mmap)
    (clear : ClearsKernel image info.mmap) (collecting : initFrames image first info = .ok (userMap, collected))
    (listed : FreeFrames collected frames) (enough : 38 ≤ frames.length) (begins : kernelStartVaddr ≤ buffer)
    (ends : buffer + pageSize ≤ image.endVaddr) (inImage : nil < image.endVaddr) :
    ∃ final rest, memInit image early info memory userRoMemory buffer = .ok final ∧
      HeapReady final nil ∧ HeapInvariant final.kernelHeap.pageCount ⟨final.kernelHeap, []⟩ ∧
      Sound final [image.pageDirectory] rest ∧ HeapBehind final ∧
        frames.length ≤ rest.length + 38 ∧ ∀ links queue,
          HeapRoom (processesInit final nil links queue).machine 0 ∧
            SomeUnused (processesInit final nil links queue) := by
  have small := free_list_page_size started found
  obtain ⟨isEnd, _⟩ := small_places small
  obtain ⟨low, kernel, others, rfl⟩ := two_frames (show 2 ≤ frames.length by omega)
  obtain ⟨ready, current, room⟩ :=
    collected_ready started found sound clear collecting listed (List.cons_ne_nil _ _)
  obtain ⟨moved, moving, built⟩ := reinit_paging_ok ready small
  have settled := settled_of_built ready small current moving built
  have same : SamePaging moved { moved with userPhysicalMapLen := userMap.length } := ⟨rfl, rfl, rfl, rfl, rfl, rfl⟩
  have again : Settled image { moved with userPhysicalMapLen := userMap.length } others :=
    ⟨spaces_same_paging same settled.spaces, free_list_same_paging same settled.free, settled.low, settled.window,
      settled.clear, settled.kernel, settled.unused⟩
  rw [List.length_cons, List.length_cons] at enough
  obtain ⟨final, rest, opening, made⟩ := @init_heaps_returns image _ others memory userRoMemory buffer again small room
    begins ends (by omega)
  have left : others.length ≤ rest.length + 36 := made.taken
  have isSound : Sound final [image.pageDirectory] rest := built.cr3 ▸ made.sound
  have isWindow := settled.window
  obtain ⟨heapReady, empty, behind⟩ := @heaps_made_ready _ _ nil final rest made
    (show 0xC0000 ≤ windowPage moved by omega) (show windowPage moved < 0xC0400 by omega) (by
      change nil < windowPage moved * 4096
      omega)
  refine ⟨final, rest, ?_, heapReady, empty, isSound, behind, ?_, ?_⟩
  · rw [memInit, found, Trap.ok_bind, collecting, Trap.ok_bind]
    dsimp only
    rw [moving, Trap.ok_bind]
    exact opening
  · rw [List.length_cons, List.length_cons]
    omega
  · intro links queue
    have unused : Unused (processesInit final nil links queue) 1 :=
      (unused_iff (RbTreeRuns.related_init nil links) (by decide)).2 rfl
    exact ⟨heaps_made_room made (show 0xC0000 ≤ windowPage moved by omega) (show windowPage moved < 0xC0400 by omega)
      links queue, 1, by decide, by decide, unused⟩

/-- From boot to the first program: once `init_frames` has collected 38 frames, the rest of `mem_init` returns, in
the state that all runs of processes start from, and `exec_sun` then starts every program there are frames for. -/
theorem kernel_boots (links : Nat → RbTreeModel.RbNode) (queue : Nat → Nat)
    (started : booted image machine = .ok early) (found : initFreeListPage image early = .ok first)
    (sound : SoundMap info.mmap) (clear : ClearsKernel image info.mmap)
    (collecting : initFrames image first info = .ok (userMap, collected)) (listed : FreeFrames collected frames)
    (enough : 38 ≤ frames.length) (begins : kernelStartVaddr ≤ buffer) (ends : buffer + pageSize ≤ image.endVaddr)
    (inImage : nil < image.endVaddr) :
    ∃ final rest, memInit image early info memory userRoMemory buffer = .ok final ∧
      HeapReady final nil ∧ HeapInvariant final.kernelHeap.pageCount ⟨final.kernelHeap, []⟩ ∧
      Sound final [image.pageDirectory] rest ∧ HeapBehind final ∧
        frames.length ≤ rest.length + 38 ∧
          ∀ entry arg, FitsBelowStack entry → NearSections entry → StartWords entry arg →
            2 * totalPages (spaceAllocations entry) + 42 ≤ frames.length →
              ∃ launched, execSun (processesInit final nil links queue) (some entry) arg = .ok launched := by
  obtain ⟨final, rest, opening, heapReady, empty, isSound, behind, left, room⟩ := @mem_init_ready image machine early
    first collected info frames userMap memory userRoMemory buffer nil started found sound clear collecting listed enough
    begins ends inImage
  refine ⟨final, rest, opening, heapReady, empty, isSound, behind, left, ?_⟩
  intro entry arg fits near words pages
  obtain ⟨spare, unused⟩ := room links queue
  exact exec_sun_returns (isolated_init links queue heapReady isSound behind) fits near words spare unused (by omega)

/-- The timer stops the only process: it goes on at once, with the registers it had. -/
theorem preempt_alone {system : System} {dict : RbTreeRuns.Dictionary} {roots free : List Nat} {context : Context}
    (held : Isolated system dict [] roots free) (running : system.current ≠ 0) (legal : LegalContext context) :
    ∃ next, move system (.preempt context) = .ok (some (resumed context), next) ∧ Isolated next dict [] roots free ∧
      next.current = system.current ∧ next.machine.cr3 = system.machine.cr3 ∧
      ∀ page, UserPage page → page ≠ pcbPage → SamePage system.machine next.machine system.machine.cr3 page := by
  obtain ⟨entered, next, left, completed, isolated, moved, stopped, turned, there⟩ :=
    preempt_isolated held running legal
  obtain ⟨isFirst, alone⟩ := List.cons.inj turned
  subst alone
  have same : next.current = system.current := (Nat.add_right_cancel isFirst).symm
  obtain ⟨isProcess, before⟩ := held.current.resolve_left running
  have after := (isolated.current.resolve_left (same ▸ running)).2
  rw [same, moved.directories _ isProcess, ← before] at after
  have self : VirtRanges.switch next.machine system.machine.cr3 = next.machine := by
    rw [← after]
    exact VirtRanges.switch_self isolated.apart.sound.spaces.current
  have space := isolated.apart.spaces _ there
  rw [same, moved.directories _ isProcess, ← before] at space
  obtain ⟨_, _, _, growing, member, _⟩ := space_growing isolated.apart.sound space
  rw [self] at growing
  have saved := stopped.context
  rw [← before, self] at saved
  refine ⟨next, ?_, isolated, same, after, ?_⟩
  · rw [move, completed, Trap.ok_bind]
    dsimp only
    rw [restore_context_ok growing member, saved]
    rfl
  · intro page user differ
    rw [before]
    exact stopped.pages page user differ

/-- It does so after each interrupt, and its memory stays as it is. -/
theorem preempts_alone {dict : RbTreeRuns.Dictionary} {roots free : List Nat} (contexts : List Context)
    {system : System} (held : Isolated system dict [] roots free) (running : system.current ≠ 0)
    (legal : ∀ context ∈ contexts, LegalContext context) :
    ∃ last, StepRun.run move system (contexts.map .preempt) = .ok (contexts.map (some ∘ resumed), last) ∧
      last.current = system.current ∧ last.machine.cr3 = system.machine.cr3 ∧
      ∀ page, UserPage page → page ≠ pcbPage → SamePage system.machine last.machine system.machine.cr3 page := by
  induction contexts generalizing system with
  | nil => exact ⟨system, rfl, rfl, rfl, fun _ _ _ => ⟨rfl, fun _ _ _ _ => rfl⟩⟩
  | cons context contexts induction =>
      obtain ⟨next, stepped, isolated, same, cr3, pages⟩ := preempt_alone held running (legal _ List.mem_cons_self)
      obtain ⟨last, completed, ended, lastCr3, kept⟩ :=
        induction isolated (same ▸ running) fun other member => legal other (List.mem_cons_of_mem _ member)
      refine ⟨last, StepRun.run_cons_of_step stepped completed, ended.trans same, lastCr3.trans cr3, ?_⟩
      intro page user differ
      have late := kept page user differ
      rw [cr3] at late
      exact same_page_trans (pages page user differ) late

/-- From boot to user mode: `mem_init` returns, `exec_sun` starts a program there are frames for, and `schedule`
enters it at its entry point, loaded as its file says. From there on no timer interrupt fails, and each one
comes back to the program with its registers and its memory. -/
theorem first_program_runs (links : Nat → RbTreeModel.RbNode) (queue : Nat → Nat)
    (started : booted image machine = .ok early) (found : initFreeListPage image early = .ok first)
    (sound : SoundMap info.mmap) (clear : ClearsKernel image info.mmap)
    (collecting : initFrames image first info = .ok (userMap, collected)) (listed : FreeFrames collected frames)
    (begins : kernelStartVaddr ≤ buffer) (ends : buffer + pageSize ≤ image.endVaddr) (inImage : nil < image.endVaddr)
    {entry : SunEntry} {arg : Nat} (fits : FitsBelowStack entry) (near : NearSections entry)
    (words : StartWords entry arg) (enough : 2 * totalPages (spaceAllocations entry) + 42 ≤ frames.length) :
    ∃ final launched entered outcome, memInit image early info memory userRoMemory buffer = .ok final ∧
      execSun (processesInit final nil links queue) (some entry) arg = .ok launched ∧
      move launched .schedule = .ok (outcome, entered) ∧ entered.current ≠ 0 ∧ Begins entered.machine entry arg ∧
      ∀ contexts : List Context, (∀ context ∈ contexts, LegalContext context) →
        ∃ last, StepRun.run move entered (contexts.map .preempt) = .ok (contexts.map (some ∘ resumed), last) ∧
          last.current = entered.current ∧ last.machine.cr3 = entered.machine.cr3 ∧
          ∀ page, UserPage page → page ≠ pcbPage →
            SamePage entered.machine last.machine entered.machine.cr3 page := by
  obtain ⟨final, rest, opening, heapReady, _, isSound, behind, left, room⟩ := @mem_init_ready image machine early
    first collected info frames userMap memory userRoMemory buffer nil started found sound clear collecting listed
    (by omega) begins ends inImage
  obtain ⟨spare, unused⟩ := room links queue
  have isolated := isolated_init links queue heapReady isSound behind
  obtain ⟨launched, executing⟩ := exec_sun_returns isolated fits near words spare unused (by omega)
  obtain ⟨after, process, root, remaining, launchedIsolated, _, current, fresh⟩ :=
    exec_isolated isolated fits near words executing
  have idle : launched.current = 0 := current
  obtain ⟨outcome, entered, entering⟩ := schedule_move_returns launchedIsolated idle
  have legal : LegalMove launched .schedule := idle
  obtain ⟨now, waiting, larger, free, enteredIsolated, moved, running, turned⟩ :=
    move_isolated launchedIsolated legal entering
  obtain ⟨isFirst, alone⟩ := List.cons.inj turned
  have here : entered.current = process := (Nat.add_right_cancel isFirst).symm
  have entersProgram : Begins entered.machine entry arg := by
    obtain ⟨made, _, loaded, inPlace⟩ := fresh.loaded
    have there := moved.registered _ fresh.registered
    have away : process ≠ launched.current := by
      rw [idle, ← here]
      exact running
    have same := moved.spaces _ fresh.registered away
    have directory := (moved.directories _ fresh.registered).trans fresh.directory
    have cr3 := (enteredIsolated.current.resolve_left running).2
    rw [here, directory] at cr3
    have space := enteredIsolated.apart.spaces _ there
    rw [directory] at space
    rw [fresh.directory] at same
    exact begins_of_loaded isolated.apart.sound loaded fits near (same_space_trans inPlace same)
      enteredIsolated.apart.sound space cr3
  refine ⟨final, launched, entered, outcome, opening, executing, entering, running, entersProgram, ?_⟩
  intro contexts pushed
  have none : waiting = [] := alone.symm
  subst none
  exact preempts_alone contexts enteredIsolated running pushed

end Boot

section Sample

open ProgramLayout (haltProgram)

variable {image : Image} {machine early first collected : Machine} {info : MultibootInfo} {userMap : List PhysicalMap}

/-- A list of frames that has a frame for each of the numbers is at least as long. -/
theorem frames_at_least {frames : List Nat} {base : Nat} (count : Nat)
    (inside : ∀ number < count, base + 4096 * number ∈ frames) : count ≤ frames.length := by
  have distinct : ((List.range count).map fun number => base + 4096 * number).Nodup := by
    apply List.Nodup.map_on _ List.nodup_range
    intro number _ other _ same
    omega
  have subset : ((List.range count).map fun number => base + 4096 * number) ⊆ frames := by
    intro frame member
    obtain ⟨number, small, rfl⟩ := List.mem_map.1 member
    exact inside number (List.mem_range.1 small)
  have short := (List.subperm_of_subset distinct subset).length_le
  rwa [List.length_map, List.length_range] at short

/-- The frames that `init_frames` collects. -/
theorem collected_frames (started : booted image machine = .ok early)
    (found : initFreeListPage image early = .ok first) (sound : SoundMap info.mmap)
    (collecting : initFrames image first info = .ok (userMap, collected)) :
    ∃ frames, FreeFrames collected frames ∧
      ∀ frame, frame ∈ frames ↔ ∃ entry ∈ info.mmap, entry.Available ∧ BeginsIn image entry frame := by
  obtain ⟨_, none⟩ := boot_window started found
  obtain ⟨_, _, entries⟩ := Trap.bind_eq_ok.mp collecting
  have low := entries_ended info.mmap sound.words sound.fits entries
  rcases collect_entries image [] info.mmap sound low none (List.forall_mem_nil _) with failed | passed
  · rw [failed] at entries
    cases entries
  · obtain ⟨later, after, added, again, all, members⟩ := passed
    rw [entries, Except.ok.injEq, Prod.mk.injEq] at again
    obtain ⟨rfl, rfl⟩ := again
    rw [List.append_nil] at all
    exact ⟨added, ⟨all.linked, fun frame member => (all.bounded frame member).1⟩, members⟩

/-- A small kernel on a machine with 127 MiB collects at least 200 frames. -/
theorem half_memory_collects : ∃ early first collected userMap frames,
    booted sampleImage PagingChecks.sampleMachine = .ok early ∧ initFreeListPage sampleImage early = .ok first ∧
      initFrames sampleImage first ⟨mbFlagMmap, [halfMemory]⟩ = .ok (userMap, collected) ∧
      FreeFrames collected frames ∧ 200 ≤ frames.length := by
  obtain ⟨early, first, started, found⟩ := sample_boots
  have sound : SoundMap [halfMemory] := one_entry_sound (by decide) (by decide)
  obtain ⟨userMap, collected, collecting⟩ := one_region_boots halfMemory started found (by decide)
    (by decide) sound (by decide) (by decide)
  obtain ⟨frames, listed, members⟩ :=
    @collected_frames _ _ _ _ _ ⟨mbFlagMmap, [halfMemory]⟩ _ started found sound collecting
  refine ⟨early, first, collected, userMap, frames, started, found, collecting, listed, ?_⟩
  apply @frames_at_least frames 0x105000 200
  intro number small
  refine (members _).2 ⟨halfMemory, List.mem_singleton_self _, by decide, ?_⟩
  change (0x105000 + 4096 * number) % 4096 = 0 ∧ 0x105000 ≤ _ ∧ _ < 0x1A60000
  omega

theorem half_memory_sound : SoundMap [halfMemory] := one_entry_sound (by decide) (by decide)

/-- They are enough for a small program. -/
theorem halt_program_frames :
    2 * LoadedPrograms.totalPages (LoadedPrograms.spaceAllocations haltProgram) + 42 ≤ 200 := by
  rw [TimeSharing.halt_pages]
  decide

theorem kernel_boots_half_memory : ∃ early final launched,
    booted sampleImage PagingChecks.sampleMachine = .ok early ∧
      memInit sampleImage early ⟨mbFlagMmap, [halfMemory]⟩ (fun _ => 0) (fun _ => 0) 0xC0101000 = .ok final ∧
        execSun (processesInit final 0xC0102000 (fun _ => ⟨0, 0, 0, 0, .black⟩) fun _ => 0) (some haltProgram) 7 =
          .ok launched := by
  obtain ⟨early, first, collected, userMap, frames, started, found, collecting, listed, many⟩ := half_memory_collects
  obtain ⟨final, _, opening, _, _, _, _, _, starts⟩ := @kernel_boots sampleImage _ early first collected
    ⟨mbFlagMmap, [halfMemory]⟩ frames userMap (fun _ => 0) (fun _ => 0) 0xC0101000 0xC0102000
    (fun _ => ⟨0, 0, 0, 0, .black⟩) (fun _ => 0) started found half_memory_sound (half_memory_clears _) collecting
    listed (by omega) (by decide) (by decide) (by decide)
  obtain ⟨fits, near, words⟩ := TimeSharing.halt_legal TimeSharing.startSystem (show 7 < 4294967296 by decide)
  have pages := halt_program_frames
  obtain ⟨launched, executing⟩ := starts haltProgram 7 fits near words (by omega)
  exact ⟨early, final, launched, started, opening, executing⟩

theorem first_program_runs_half_memory : ∃ early final launched entered outcome,
    booted sampleImage PagingChecks.sampleMachine = .ok early ∧
      memInit sampleImage early ⟨mbFlagMmap, [halfMemory]⟩ (fun _ => 0) (fun _ => 0) 0xC0101000 = .ok final ∧
      execSun (processesInit final 0xC0102000 (fun _ => ⟨0, 0, 0, 0, .black⟩) fun _ => 0) (some haltProgram) 7 =
        .ok launched ∧
      move launched .schedule = .ok (outcome, entered) ∧ Begins entered.machine haltProgram 7 := by
  obtain ⟨early, first, collected, userMap, frames, started, found, collecting, listed, many⟩ := half_memory_collects
  obtain ⟨fits, near, words⟩ := TimeSharing.halt_legal TimeSharing.startSystem (show 7 < 4294967296 by decide)
  have pages := halt_program_frames
  obtain ⟨final, launched, entered, outcome, opening, executing, entering, _, enters, _⟩ :=
    @first_program_runs sampleImage _ early first collected ⟨mbFlagMmap, [halfMemory]⟩ frames userMap (fun _ => 0)
      (fun _ => 0) 0xC0101000 0xC0102000 (fun _ => ⟨0, 0, 0, 0, .black⟩) (fun _ => 0) started found half_memory_sound
      (half_memory_clears _) collecting listed (by decide) (by decide) (by decide) haltProgram 7 fits near words
      (by omega)
  exact ⟨early, final, launched, entered, outcome, started, opening, executing, entering, enters⟩

end Sample

end ParadiseOS.BootedKernel
