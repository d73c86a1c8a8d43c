import ParadiseOS.AidCycles
import ParadiseOS.FreeAids
import ParadiseOS.Preemption

/-!
# When a program can be started

`exec_sun` needs two frames for each page of the program, four for its directory and for the
kernel's heap, a free page of that heap and an application id that no process has. With these
it returns.
-/

namespace ParadiseOS.ProgramStarts

open AidCycles FrameSteps FreeAids HeapModel HeapRuns Isolation KernelPages LoadedPrograms MachineWord MemModel NewSpaces
open PagingModel PagingSteps Preemption ProcessModel ProcessSpaces ProcessTable ProgramLayout ProgramLoading
open StepRun TwoLevelPaging VirtRanges
open RbTreeRuns (Dictionary rbNodeOffset)

set_option autoImplicit false

section Heaps

variable {machine next : Machine} {roots frames : List Nat} {index : Nat}

/-- The first free page of the kernel's heap is not mapped. -/
structure HeapRoom (machine : Machine) (index : Nat) : Prop where
  spare : SparePage machine.kernelHeap index
  absent : ¬ Present (pageEntry machine.memory machine.cr3 (machine.kernelHeap.heapStart / 4096 + index))

/-- `kernel_alloc` of a page takes at most two frames. -/
theorem heap_room_takes (sound : Sound machine roots frames) (room : HeapRoom machine index)
    (enough : 2 ≤ frames.length) : ∃ taken freed,
      kernelAlloc machine 1 = .ok (machine.kernelHeap.heapStart + index * 4096, taken) ∧
        heapFree taken.kernelHeap (machine.kernelHeap.heapStart + index * 4096) = .ok (1, freed) ∧
          SparePage freed index ∧ ∀ other, heapGetUsage freed other = heapGetUsage machine.kernelHeap other := by
  obtain ⟨marked, freed, allocated, freeing, spare, usage⟩ := spare_page_cycle room.spare
  have aligned := sound.heapAligned
  have high := sound.heapHigh
  have inside := room.spare.inside
  have page : (machine.kernelHeap.heapStart + index * 4096) / 4096 =
      machine.kernelHeap.heapStart / 4096 + index := by omega
  obtain ⟨backed, backing⟩ := @alloc_page_fills machine roots frames (machine.kernelHeap.heapStart + index * 4096)
    pageWritable sound.spaces sound.free (by omega)
    (fun same => room.absent (page ▸ same ▸ window_present sound.free)) (page ▸ room.absent)
    (fun user => absurd rfl user) enough
  refine ⟨{ backed with kernelHeap := marked }, freed, ?_, freeing, spare, usage⟩
  have pages : allocPages machine (machine.kernelHeap.heapStart + index * 4096) pageWritable 1 = .ok backed := by
    rw [alloc_pages_succ, backing]
    rfl
  simp only [kernelAlloc, memAlloc, Trap.kernel_assert_of (by decide : (1 : Nat) ≠ 0), allocated, pages,
    Trap.ok_bind, Trap.pure_ok]

/-- `new_page_dir` returns, and the page of the heap that it borrowed is free again. -/
theorem heap_room_makes (sound : Sound machine roots frames) (room : HeapRoom machine index)
    (enough : 2 ≤ frames.length) : ∃ root next, newPageDir machine = .ok (root, next) ∧
      SparePage next.kernelHeap index ∧
      ∀ other, heapGetUsage next.kernelHeap other = heapGetUsage machine.kernelHeap other := by
  obtain ⟨taken, freed, taking, freeing, spare, usage⟩ := heap_room_takes sound room enough
  have aligned := sound.heapAligned
  have high := sound.heapHigh
  have inside := room.spare.inside
  have balanced := page_balanced sound
    (by omega : machine.kernelHeap.heapStart / 4096 + index < 1047552) room.absent
  have found := (ProcessFrames.kernel_alloc_objects taking).2.2
  obtain ⟨⟨root, next⟩, making⟩ := NewDirectory.new_page_dir_returns balanced (fun ptr heap other => by
    have same := found.symm.trans other
    simp only [Except.ok.injEq, Prod.mk.injEq] at same
    omega) taking freeing
  obtain ⟨_, _, ptr, marked, count, allocated, released⟩ := ProcessFrames.new_page_dir_objects making
  have same := found.symm.trans allocated
  simp only [Except.ok.injEq, Prod.mk.injEq] at same
  rw [← same.1, ← same.2, freeing, Except.ok.injEq, Prod.mk.injEq] at released
  rw [released.2] at spare usage
  exact ⟨root, next, making, spare, usage⟩

end Heaps

section Stocks

variable {machine next made : Machine} {roots frames rest : List Nat} {index count root arg ptr : Nat}
  {entry : SunEntry}

/-- From the first free page of the kernel's heap on so many more are free and not mapped, and one
behind them is free. -/
structure HeapStock (machine : Machine) (index count : Nat) : Prop where
  spare : SparePage machine.kernelHeap index
  inside : index + count < machine.kernelHeap.pageCount
  free : ∀ page, index ≤ page → page ≤ index + count + 1 → heapGetUsage machine.kernelHeap page = heapPageFree
  absent : ∀ page, index ≤ page → page ≤ index + count →
    ¬ Present (pageEntry machine.memory machine.cr3 (machine.kernelHeap.heapStart / 4096 + page))

theorem heap_stock_room (stock : HeapStock machine index count) : HeapRoom machine index :=
  ⟨stock.spare, stock.absent index le_rfl (Nat.le_add_right _ _)⟩

theorem heap_stock_less (stock : HeapStock machine index (count + 1)) : HeapStock machine index count where
  spare := stock.spare
  inside := Nat.lt_of_succ_lt stock.inside
  free page low high := stock.free page low (by omega)
  absent page low high := stock.absent page low (by omega)

/-- A new address space takes nothing of the kernel's heap. -/
theorem make_space_stock (sound : Sound machine roots frames) (behind : HeapBehind machine)
    (stock : HeapStock machine index count) (enough : 2 ≤ frames.length)
    (making : makeSpace machine entry arg = .ok (root, made))
    (loaded : Loaded machine made roots frames rest entry root arg) : HeapStock made index count := by
  obtain ⟨other, created, creating, spare, usage⟩ := heap_room_makes sound (heap_stock_room stock) enough
  obtain ⟨opened, opening, objects⟩ := ProcessFrames.make_space_objects making
  rw [creating, Except.ok.injEq, Prod.mk.injEq] at opening
  obtain ⟨_, rfl⟩ := opening
  obtain ⟨_, _, ptr, marked, freedCount, allocated, released⟩ := ProcessFrames.new_page_dir_objects creating
  have start : made.kernelHeap.heapStart = machine.kernelHeap.heapStart := by
    rw [objects.kernelHeap, (heap_free_place released).1, (heap_alloc_place (by decide) sound.heapHigh allocated).1]
  have pageCount : made.kernelHeap.pageCount = machine.kernelHeap.pageCount := by
    rw [objects.kernelHeap, (heap_free_place released).2, (heap_alloc_place (by decide) sound.heapHigh allocated).2]
  have cr3 : made.cr3 = machine.cr3 := by
    rw [loaded.globals]
  have inside := stock.inside
  have high := sound.heapHigh
  have half := sound.kernelHalf
  have kernelStart : kernelPdiStart = 768 := rfl
  unfold HeapBehind at behind
  refine ⟨objects.kernelHeap ▸ spare, pageCount ▸ inside, ?_, ?_⟩
  · intro page low below
    rw [objects.kernelHeap, usage]
    exact stock.free page low below
  · intro page low below
    rw [start, cr3]
    exact loaded.kernel _ (by omega) (by omega) (by omega) (stock.absent page low below)

/-- A page for the kernel takes the first one of the stock, and two frames at most. -/
theorem kernel_alloc_stock (sound : Sound machine roots frames) (behind : HeapBehind machine)
    (stock : HeapStock machine index (count + 1)) (completed : kernelAlloc machine 1 = .ok (ptr, next))
    (held : Sound next roots rest) : HeapStock next (index + 1) count ∧ frames.length ≤ rest.length + 2 := by
  obtain ⟨marked, color, allocated, used, small, start, pageCount, usage⟩ := spare_page_taken stock.spare
  obtain ⟨⟨vaddr, heap, middle⟩, allocating, finished⟩ := Trap.bind_eq_ok.mp completed
  simp only [Trap.pure_ok, Except.ok.injEq, Prod.mk.injEq] at finished
  obtain ⟨rfl, rfl⟩ := finished
  obtain ⟨_, _, allocating⟩ := Trap.bind_eq_ok.mp allocating
  obtain ⟨⟨place, taken⟩, found, allocating⟩ := Trap.bind_eq_ok.mp allocating
  obtain ⟨backed, backing, allocating⟩ := Trap.bind_eq_ok.mp allocating
  simp only [Trap.pure_ok, Except.ok.injEq, Prod.mk.injEq] at allocating
  obtain ⟨rfl, rfl, rfl⟩ := allocating
  rw [allocated, Except.ok.injEq, Prod.mk.injEq] at found
  obtain ⟨rfl, rfl⟩ := found
  have aligned := sound.heapAligned
  have high := sound.heapHigh
  have inside := stock.inside
  have page : (machine.kernelHeap.heapStart + index * 4096) / 4096 =
      machine.kernelHeap.heapStart / 4096 + index := by omega
  rw [alloc_pages_one] at backing
  obtain ⟨frame, left, _, done⟩ := alloc_page_ok sound.spaces sound.free (by omega) (by decide) backing
  have cr3 : backed.cr3 = machine.cr3 := by
    rw [done.globals]
  unfold HeapBehind at behind
  refine ⟨⟨⟨?_, ?_, ?_, ?_, ?_, ?_, ?_⟩, ?_, ?_, ?_⟩, ?_⟩
  · exact start ▸ stock.spare.aligned
  · exact start ▸ pageCount ▸ stock.spare.room
  · exact pageCount ▸ stock.spare.near
  · change index + 1 < marked.pageCount
    omega
  · intro earlier before
    change heapGetUsage marked earlier ≠ _
    rw [usage]
    split_ifs with same
    · unfold heapPageFree
      omega
    · exact stock.spare.taken earlier (by omega)
  · change heapGetUsage marked (index + 1) = _
    rw [usage, if_neg (by omega)]
    exact stock.free _ (by omega) (by omega)
  · change heapGetUsage marked (index + 1 + 1) = _
    rw [usage, if_neg (by omega)]
    exact stock.free _ (by omega) (by omega)
  · change index + 1 + count < marked.pageCount
    omega
  · intro other low below
    change heapGetUsage marked other = _
    rw [usage, if_neg (by omega)]
    exact stock.free other (by omega) (by omega)
  · intro other low below
    change ¬ Present (pageEntry backed.memory backed.cr3 (marked.heapStart / 4096 + other))
    rw [start, cr3, done.entries _ sound.spaces.member _ (by omega) (by omega), if_neg (by omega)]
    exact stock.absent other (by omega) (by omega)
  · have same : rest = left := linked_unique held.free.positive done.free.positive held.free.linked done.free.linked
    rcases done.taken with ⟨_, isFrames, _⟩ | ⟨_, table, isFrames, _⟩
    · rw [isFrames, same, List.length_cons]
      omega
    · rw [isFrames, same, List.length_cons, List.length_cons]

theorem same_paging_trans {middle : Machine} (first : SamePaging machine middle) (second : SamePaging middle next) :
    SamePaging machine next :=
  ⟨second.memory.trans first.memory, second.cr3.trans first.cr3, second.current.trans first.current,
    second.head.trans first.head, second.headPte.trans first.headPte, second.top.trans first.top⟩

theorem heap_stock_same (stock : HeapStock machine index count) (paging : SamePaging machine next)
    (heap : next.kernelHeap = machine.kernelHeap) : HeapStock next index count where
  spare := heap ▸ stock.spare
  inside := heap ▸ stock.inside
  free := heap ▸ stock.free
  absent := by
    rw [paging.memory, paging.cr3, heap]
    exact stock.absent

end Stocks

section Starting

variable {system : System} {dict : Dictionary} {nodes roots frames slots : List Nat} {live : List ColouredLine.Block}
  {index arg : Nat} {entry : SunEntry}

/-- The address space of a program is made. -/
theorem make_space_returns {machine : Machine} (sound : Sound machine roots frames) (behind : HeapBehind machine)
    (room : HeapRoom machine index) (fits : FitsBelowStack entry) (near : NearSections entry)
    (words : StartWords entry arg) (enough : 2 * totalPages (spaceAllocations entry) + 4 ≤ frames.length) :
    ∃ root made rest, makeSpace machine entry arg = .ok (root, made) ∧
      Loaded machine made roots frames rest entry root arg ∧ HeapRoom made index ∧ 2 ≤ rest.length := by
  obtain ⟨root, created, creating, spare, _⟩ := heap_room_makes sound room (by omega)
  obtain ⟨made, rest, making, loaded⟩ := make_space_runs sound behind fits near words creating (.inl (by omega))
  obtain ⟨opened, opening, objects⟩ := ProcessFrames.make_space_objects making
  rw [creating, Except.ok.injEq, Prod.mk.injEq] at opening
  obtain ⟨_, rfl⟩ := opening
  obtain ⟨_, _, ptr, marked, count, allocated, released⟩ := ProcessFrames.new_page_dir_objects creating
  have start : made.kernelHeap.heapStart = machine.kernelHeap.heapStart := by
    rw [objects.kernelHeap, (heap_free_place released).1, (heap_alloc_place (by decide) sound.heapHigh allocated).1]
  have cr3 : made.cr3 = machine.cr3 := by
    rw [loaded.globals]
  have left := loaded.left
  have inside := room.spare.inside
  have high := sound.heapHigh
  have half := sound.kernelHalf
  have kernelStart : kernelPdiStart = 768 := rfl
  refine ⟨root, made, rest, making, loaded, ⟨objects.kernelHeap ▸ spare, ?_⟩, by omega⟩
  unfold HeapBehind at behind
  rw [start, cr3]
  exact loaded.kernel _ (by omega) (by omega) (by omega) room.absent

/-- `pool_create` returns with a slot on the free list or a page for new ones. -/
theorem pool_create_returns (sound : Sound system.machine roots frames) (room : HeapRoom system.machine index)
    (enough : 2 ≤ frames.length) : ∃ process created, poolCreate system = .ok (process, created) := by
  by_cases empty : system.freeList = 0
  · obtain ⟨taken, _, taking, _, _⟩ := heap_room_takes sound room enough
    rw [poolCreate, poolRefill, if_pos empty, taking]
    exact ⟨_, _, rfl⟩
  · rw [poolCreate, poolRefill, if_neg empty]
    exact ⟨_, _, rfl⟩

/-- `exec_sun` returns if it has what it needs. -/
theorem exec_sun_returns (held : Isolated system dict nodes roots frames) (fits : FitsBelowStack entry)
    (near : NearSections entry) (words : StartWords entry arg) (room : HeapRoom system.machine index)
    (unused : SomeUnused system) (enough : 2 * totalPages (spaceAllocations entry) + 4 ≤ frames.length) :
    ∃ next, execSun system (some entry) arg = .ok next := by
  obtain ⟨slots, live, accounted, _⟩ := held.table
  obtain ⟨root, made, rest, making, loaded, madeRoom, left⟩ :=
    make_space_returns held.apart.sound held.apart.behind room fits near words enough
  obtain ⟨opened, opening, objects⟩ := ProcessFrames.make_space_objects making
  have afterDir := accounted_new_page_dir accounted opening
  have afterSpace : Accounted (system.onMachine made) dict slots live :=
    accounted_same afterDir ⟨objects.processTree, objects.pageDirPaddr, rfl, rfl, id⟩ objects.kernelHeap
  have tree : made.processTree = system.machine.processTree :=
    objects.processTree.trans (ProcessFrames.new_page_dir_objects opening).1
  have someUnused : SomeUnused (system.onMachine made) := by
    obtain ⟨aid, positive, small, free⟩ := unused
    refine ⟨aid, positive, small, ?_⟩
    unfold Unused at free ⊢
    change RbTreeModel.rbFind made.processTree _ = _
    rw [tree]
    exact free
  obtain ⟨first, _, free, _, numbering⟩ := next_free_aid_finds afterSpace.related afterSpace.aid someUnused
  obtain ⟨_, whole, word, afterAid, _⟩ := next_free_aid_ok afterSpace numbering
  obtain ⟨numbered, isNumbered⟩ : ∃ numbered, numbered = { system.onMachine made with
      aidCounter := aidAfter (system.onMachine made) (first + 1) } := ⟨_, rfl⟩
  rw [← isNumbered] at numbering afterAid
  have machine : numbered.machine = made := by
    rw [isNumbered]
    rfl
  obtain ⟨process, created, creating⟩ := @pool_create_returns numbered _ rest index (machine.symm ▸ loaded.sound)
    (machine.symm ▸ madeRoom) left
  obtain ⟨after, later, afterPool, fresh, occupied, notFree, _⟩ := pool_create_ok afterAid creating
  have sameOccupied : numbered.occupied = system.occupied := by
    rw [isNumbered]
    rfl
  rw [sameOccupied] at fresh
  have placed := set_process_dir_accounted afterPool notFree root
  obtain ⟨place, legal⟩ := slot_insertable placed (occupied ▸ List.mem_cons_self)
    (unregistered_of_fresh accounted fresh) (aidAfter (system.onMachine made) first * 65536)
  obtain ⟨inserted, inserting⟩ := insert_unused placed.related free legal
  rw [execSun, Trap.kernel_assert_of fits.1, Trap.ok_bind, making, Trap.ok_bind]
  dsimp only
  rw [numbering, Trap.ok_bind]
  dsimp only
  rw [creating, Trap.ok_bind]
  dsimp only
  rw [insertProcess, place, inserting]
  exact ⟨_, rfl⟩

/-- `exec_sun` takes no more from the stock and the free list than it needs. -/
theorem exec_sun_stock {next : System} {after : Dictionary} {waiting more left : List Nat} {count : Nat}
    (held : Isolated system dict nodes roots frames) (fits : FitsBelowStack entry) (near : NearSections entry)
    (words : StartWords entry arg) (stock : HeapStock system.machine index (count + 1)) (enough : 2 ≤ frames.length)
    (completed : execSun system (some entry) arg = .ok next) (reached : Isolated next after waiting more left) :
    (∃ later, HeapStock next.machine later count) ∧
      frames.length ≤ left.length + (2 * totalPages (spaceAllocations entry) + 4) := by
  obtain ⟨slots, live, accounted, _⟩ := held.table
  obtain ⟨root, process, made, numbered, created, launched⟩ := exec_sun_launched accounted completed
  obtain ⟨⟨dir, opened⟩, creating, _⟩ := Trap.bind_eq_ok.mp ((make_space_eq _ _ _).symm.trans launched.space)
  obtain ⟨again, rest, making, loaded⟩ := make_space_runs held.apart.sound held.apart.behind fits near words creating
    (.inr ⟨_, launched.space⟩)
  have equal := making.symm.trans launched.space
  simp only [Except.ok.injEq, Prod.mk.injEq] at equal
  rw [equal.1, equal.2] at loaded
  have madeStock := make_space_stock held.apart.sound held.apart.behind stock enough launched.space loaded
  have behind := loaded_behind held.apart launched.space loaded
  have taken := loaded.left
  have list := reached.apart.sound.free
  rcases pool_create_machine launched.creating with same | ⟨ptr, backed, allocating, isMachine⟩
  · rw [launched.counted] at same
    have paging : SamePaging made next.machine := same ▸ launched.paging
    have isLeft : left = rest := linked_unique list.positive loaded.sound.free.positive list.linked
      (paging.memory.symm ▸ paging.top.symm ▸ loaded.sound.free.linked)
    rw [isLeft]
    exact ⟨⟨index, heap_stock_same (heap_stock_less madeStock) paging (same ▸ launched.heap)⟩, by omega⟩
  · rw [launched.counted] at allocating
    obtain ⟨others, sound, _, _, _⟩ := kernel_alloc_undisturbed loaded.sound behind allocating
    obtain ⟨backedStock, two⟩ := kernel_alloc_stock loaded.sound behind madeStock allocating sound
    have paging : SamePaging backed next.machine := by
      have pool : SamePaging backed created.machine := by
        rw [isMachine]
        exact ⟨rfl, rfl, rfl, rfl, rfl, rfl⟩
      exact same_paging_trans pool launched.paging
    have heap : next.machine.kernelHeap = backed.kernelHeap := by
      rw [launched.heap, isMachine]
    have isLeft : left = others := linked_unique list.positive sound.free.positive list.linked
      (paging.memory.symm ▸ paging.top.symm ▸ sound.free.linked)
    rw [isLeft]
    exact ⟨⟨index + 1, heap_stock_same backedStock paging heap⟩, by omega⟩

/-- An aid that is not that of the new process stays as it was. -/
theorem exec_sun_keeps_unused {next : System} (held : Isolated system dict nodes roots frames)
    (completed : execSun system (some entry) arg = .ok next) :
    ∃ pid, ∀ aid, u32 (aid <<< 16) ≠ pid → Unused system aid → Unused next aid := by
  obtain ⟨slots, live, accounted, _⟩ := held.table
  obtain ⟨process, pid, middle, made, isNext⟩ := exec_sun_made accounted completed
  obtain ⟨after, later, kept, _⟩ := made.accounted
  have tree : next.machine.processTree = middle.machine.processTree := by
    rw [isNext]
    rfl
  refine ⟨pid, fun aid differ unused => ?_⟩
  unfold Unused at unused ⊢
  rw [RbTreeRuns.find_answer accounted.related, Except.ok.injEq] at unused
  rw [tree, RbTreeRuns.find_answer kept.related, register, if_neg differ, unused]

/-- Of two application ids that no process has, one is left when a program was started. -/
theorem exec_sun_unused {next : System} {first second : Nat} (held : Isolated system dict nodes roots frames)
    (completed : execSun system (some entry) arg = .ok next) (differ : first ≠ second)
    (firstAid : 0 < first ∧ first < 65536) (secondAid : 0 < second ∧ second < 65536)
    (firstUnused : Unused system first) (secondUnused : Unused system second) : SomeUnused next := by
  obtain ⟨pid, kept⟩ := exec_sun_keeps_unused held completed
  have apart : u32 (first <<< 16) ≠ u32 (second <<< 16) := by
    rw [Nat.shiftLeft_eq, Nat.shiftLeft_eq, u32_of_lt (by omega), u32_of_lt (by omega)]
    omega
  by_cases isFirst : u32 (first <<< 16) = pid
  · exact ⟨second, secondAid.1, secondAid.2, kept second (isFirst ▸ apart.symm) secondUnused⟩
  · exact ⟨first, firstAid.1, firstAid.2, kept first isFirst firstUnused⟩

/-- The first process is always entered. -/
theorem schedule_move_returns {system : System} {dict : Dictionary} {node : Nat} {nodes roots frames : List Nat}
    (held : Isolated system dict (node :: nodes) roots frames) (idle : system.current = 0) :
    ∃ outcome next, move system .schedule = .ok (outcome, next) := by
  obtain ⟨slots, live, accounted, scheduled⟩ := held.table
  obtain ⟨process, key, found, rfl⟩ := scheduled.registered node List.mem_cons_self
  have isProcess : IsProcess dict process := ⟨key, found⟩
  obtain ⟨notNull, word, _⟩ := process_bounds accounted isProcess
  obtain ⟨entered, next, entering⟩ := schedule_returns held.apart isProcess scheduled.chain scheduled.tail word notNull
  obtain ⟨left, isolated, _, _, there⟩ := schedule_isolated held idle entering
  obtain ⟨_, _, nextAccounted, _⟩ := isolated.table
  have cr3 := (isolated.current.resolve_left (process_bounds nextAccounted there).1).2
  obtain ⟨_, _, _, growing, member, _⟩ := space_growing isolated.apart.sound (isolated.apart.spaces _ there)
  rw [← cr3, switch_self isolated.apart.sound.spaces.current] at growing
  rw [move, entering, Trap.ok_bind]
  dsimp only
  rw [restore_context_ok growing member]
  exact ⟨_, _, rfl⟩

end Starting

end ParadiseOS.ProgramStarts
