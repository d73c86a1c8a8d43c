import ParadiseOS.FreeAids

/-!
# Processes that come and go

A process that is registered and deleted again leaves the kernel ready for the next
one: the page that `new_page_dir` works through is free and not mapped, and the
directory is on the free list. Only the counter of `next_free_aid` moves on, so it
wraps after 65535 such processes, and the next one is given aid 0.
-/

namespace ParadiseOS.AidCycles

open FrameLedger FrameSteps FreeAids HeapModel HeapRuns HeapUsage KernelPages MachineWord MemModel NewDirectory
open PagingChecks PagingModel PagingSteps ProcessCycles ProcessFrames ProcessModel ProcessTable RbTreeRuns StepRun
open TwoLevelPaging VirtModel
open MailboxModel (getPidAid getPidTid)

set_option autoImplicit false

section SparePages

variable {heap : Heap} {index : Nat}

/-- The first free page of the heap, and the one behind it is not in use. -/
structure SparePage (heap : Heap) (index : Nat) : Prop where
  aligned : heap.heapStart % 4096 = 0
  room : heap.heapStart + heap.pageCount * 4096 ≤ 4294967296
  near : heap.pageCount ≤ 524288
  inside : index < heap.pageCount
  taken : ∀ earlier < index, heapGetUsage heap earlier ≠ heapPageFree
  free : heapGetUsage heap index = heapPageFree
  behind : heapGetUsage heap (index + 1) = heapPageFree

/-- The page is handed out, in a colour of its own. -/
theorem spare_page_taken (spare : SparePage heap index) : ∃ marked color,
    heapAlloc heap 1 = .ok (heap.heapStart + index * 4096, marked) ∧ 0 < color ∧ color < 4 ∧
      marked.heapStart = heap.heapStart ∧ marked.pageCount = heap.pageCount ∧
      ∀ other, heapGetUsage marked other = if other = index then color else heapGetUsage heap other := by
  have near := spare.near
  have room := spare.room
  have inside := spare.inside
  obtain ⟨ptr, marked, allocated⟩ := heap_alloc_of_window heap 1 index (by decide) (by omega) (by omega)
    (fun other low high => by rw [show other = index by omega]; exact spare.free)
  obtain ⟨first, color, isPtr, isMarked, fits, used, small, vacant, _, _, minimal⟩ :=
    heap_alloc_ok (by decide) (by omega) allocated
  have isFirst : first = index := by
    rcases Nat.lt_trichotomy first index with before | same | past
    · exact absurd (vacant first (Nat.le_refl _) (by omega)) (spare.taken first before)
    · exact same
    · obtain ⟨other, low, high, notFree⟩ := minimal index past
      rw [show other = index by omega] at notFree
      exact absurd spare.free notFree
  subst isFirst
  have place : pagePtr heap first = heap.heapStart + first * 4096 := page_ptr_room room inside
  refine ⟨marked, color, by rw [allocated, isPtr, place], used, small, by rw [isMarked, set_usage_from_start],
    by rw [isMarked, set_usage_from_count], ?_⟩
  intro other
  rw [isMarked, get_usage_set_from color first 1 other small (by omega)]
  exact if_congr (by omega) rfl rfl

/-- The page is handed out, and it is the first free page again when it was given back. -/
theorem spare_page_cycle (spare : SparePage heap index) : ∃ marked freed,
    heapAlloc heap 1 = .ok (heap.heapStart + index * 4096, marked) ∧
      heapFree marked (heap.heapStart + index * 4096) = .ok (1, freed) ∧ SparePage freed index ∧
      ∀ other, heapGetUsage freed other = heapGetUsage heap other := by
  have near := spare.near
  have room := spare.room
  have inside := spare.inside
  obtain ⟨marked, color, allocated, used, small, start, count, usage⟩ := spare_page_taken spare
  have place : pagePtr heap index = heap.heapStart + index * 4096 := page_ptr_room room inside
  have here : heapGetUsage marked index = color := by rw [usage, if_pos rfl]
  have scanned : colorRunEnd marked color (indexLimit - index) index = .ok (index + 1) := by
    apply color_run_end_of_run (by omega) (by unfold indexLimit; omega)
    · rw [usage, if_neg (by omega), spare.behind]
      exact fun same => absurd same (by unfold heapPageFree; omega)
    · intro other low high
      rw [show other = index by omega]
      exact here
  have isIndex : pageIndex marked (heap.heapStart + index * 4096) = index := by
    rw [← place, show pagePtr heap index = pagePtr marked index by rw [pagePtr, pagePtr, start]]
    exact page_index_ptr (start ▸ by omega) (by omega)
  have freeing : heapFree marked (heap.heapStart + index * 4096) =
      .ok (1, setUsageFrom marked heapPageFree index 1) := by
    have notFree : color ≠ heapPageFree := by
      unfold heapPageFree
      omega
    have aligned : isPageAligned (heap.heapStart + index * 4096) = true :=
      place ▸ page_ptr_aligned spare.aligned index
    simp only [heapFree, isIndex, here, aligned, Trap.kernel_assert_of, notFree, Trap.ok_bind, ne_eq,
      not_false_eq_true]
    rw [free_run_eq _ _ _ _ (by unfold indexLimit; omega), scanned]
    simp only [Except.map, Nat.add_sub_cancel_left, Nat.zero_add]
  have freedUsage : ∀ other, heapGetUsage (setUsageFrom marked heapPageFree index 1) other =
      heapGetUsage heap other := by
    intro other
    rw [get_usage_set_from heapPageFree index 1 other (by decide) (by omega), usage]
    by_cases same : other = index
    · rw [if_pos (by omega), same, spare.free]
    · rw [if_neg (by omega), if_neg same]
  refine ⟨marked, _, allocated, freeing, ?_, freedUsage⟩
  constructor
  · rw [set_usage_from_start, start]
    exact spare.aligned
  · rw [set_usage_from_start, set_usage_from_count, start, count]
    exact room
  · rw [set_usage_from_count, count]
    exact near
  · rw [set_usage_from_count, count]
    exact inside
  · intro earlier before
    rw [freedUsage]
    exact spare.taken earlier before
  · rw [freedUsage]
    exact spare.free
  · rw [freedUsage]
    exact spare.behind

end SparePages

section Directories

variable {machine next : Machine} {roots frames : List Nat} {index root : Nat}

/-- The first free page of the kernel's heap has a page table and is not mapped. -/
structure Roomy (machine : Machine) (index : Nat) : Prop where
  spare : SparePage machine.kernelHeap index
  table : Present (directoryEntry machine.memory machine.cr3
    ((machine.kernelHeap.heapStart / 4096 + index) / 1024))
  absent : ¬ Present (pageEntry machine.memory machine.cr3 (machine.kernelHeap.heapStart / 4096 + index))

theorem roomy_takes (sound : Sound machine roots frames) (roomy : Roomy machine index)
    (some : machine.freeFramePaddr ≠ 0) : ∃ taken freed,
      kernelAlloc machine 1 = .ok (machine.kernelHeap.heapStart + index * 4096, taken) ∧
        heapFree taken.kernelHeap (machine.kernelHeap.heapStart + index * 4096) = .ok (1, freed) ∧
          SparePage freed index := by
  obtain ⟨marked, freed, allocated, freeing, spare, _⟩ := spare_page_cycle roomy.spare
  have aligned := sound.heapAligned
  have high := sound.heapHigh
  have inside := roomy.spare.inside
  have page : (machine.kernelHeap.heapStart + index * 4096) / 4096 =
      machine.kernelHeap.heapStart / 4096 + index := by omega
  obtain ⟨top, rest, isFrames⟩ : ∃ top rest, frames = top :: rest := by
    cases frames with
    | nil => exact absurd sound.free.linked some
    | cons top rest => exact ⟨top, rest, rfl⟩
  subst isFrames
  obtain ⟨backed, backing⟩ := @alloc_page_returns machine roots
    (machine.kernelHeap.heapStart + index * 4096) pageWritable top rest sound.spaces sound.free (by omega)
    (fun same => roomy.absent (page ▸ same ▸ window_present sound.free)) (page ▸ roomy.table)
    (page ▸ roomy.absent) (by decide)
  refine ⟨{ backed with kernelHeap := marked }, freed, ?_, freeing, spare⟩
  have pages : allocPages machine (machine.kernelHeap.heapStart + index * 4096) pageWritable 1 =
      .ok backed := by
    rw [alloc_pages_succ, backing]
    rfl
  simp only [kernelAlloc, memAlloc, Trap.kernel_assert_of (by decide : (1 : Nat) ≠ 0), allocated, pages,
    Trap.ok_bind, Trap.pure_ok]

/-- With a free frame, `new_page_dir` returns and leaves the page as it found it. -/
theorem roomy_makes (sound : Sound machine roots frames) (roomy : Roomy machine index)
    (some : machine.freeFramePaddr ≠ 0) : ∃ root next, newPageDir machine = .ok (root, next) ∧
      Roomy next index := by
  obtain ⟨taken, freed, taking, freeing, spare⟩ := roomy_takes sound roomy some
  have aligned := sound.heapAligned
  have high := sound.heapHigh
  have inside := roomy.spare.inside
  have page : (machine.kernelHeap.heapStart + index * 4096) / 4096 =
      machine.kernelHeap.heapStart / 4096 + index := by omega
  have balanced := page_balanced sound
    (by omega : machine.kernelHeap.heapStart / 4096 + index < 1047552) roomy.absent
  have places : ∀ ptr heap, heapAlloc machine.kernelHeap 1 = .ok (ptr, heap) →
      ptr % 4096 = 0 ∧ ptr / 4096 = machine.kernelHeap.heapStart / 4096 + index := by
    intro ptr heap found
    have same := (kernel_alloc_objects taking).2.2.symm.trans found
    simp only [Except.ok.injEq, Prod.mk.injEq] at same
    omega
  obtain ⟨⟨root, next⟩, making⟩ := new_page_dir_returns balanced places taking freeing
  obtain ⟨ptr, marked, count, left, after, found, released, isLeft, held, made⟩ :=
    new_page_dir_ok balanced sound.kernelHalf places making
  have isFreed : next.kernelHeap = freed := by
    have same := (kernel_alloc_objects taking).2.2.symm.trans found
    simp only [Except.ok.injEq, Prod.mk.injEq] at same
    rw [← same.1, ← same.2] at released
    have equal := freeing.symm.trans released
    simp only [Except.ok.injEq, Prod.mk.injEq] at equal
    rw [isLeft, equal.2]
  have start : next.kernelHeap.heapStart = machine.kernelHeap.heapStart := by
    obtain ⟨marking, _⟩ := heap_alloc_place (by decide) high found
    obtain ⟨freeingStart, _⟩ := heap_free_place released
    rw [isLeft, freeingStart, marking]
  have cr3 := same_globals_cr3 made.globals
  change next.cr3 = machine.cr3 at cr3
  refine ⟨root, next, making, ⟨isFreed ▸ spare, ?_, ?_⟩⟩
  · have kept := made.entries machine.cr3 sound.spaces.member
      ((machine.kernelHeap.heapStart / 4096 + index) / 1024) (by omega) (fun both => both.2.1 roomy.table)
    rw [start, cr3, kept]
    exact roomy.table
  · rw [start]
    intro present
    have mapped := (held.exact _ rfl).1 present
    exact absurd ((made.pages _).1 mapped) List.not_mem_nil

/-- A directory that is not loaded can be freed, and is on top of the free list. -/
theorem directory_freed (sound : Sound machine (root :: roots) frames) (roomy : Roomy machine index)
    (current : machine.cr3 ∈ roots) (fresh : root ∉ roots) (positive : 0 < root) :
    ∃ next, freeFrame machine root = .ok next ∧ next.freeFramePaddr = root ∧
      Sound next roots (root :: frames) ∧ Roomy next index := by
  have subset : roots ⊆ root :: roots := List.subset_cons_self _ _
  have fewer := spaces_subset sound.spaces subset current
  have freeable := root_freeable sound.spaces sound.free subset List.mem_cons_self positive fresh
  have freed := free_frame_ok fewer freeable
  have keeps := push_roots fewer freeable machine.cr3 current
  have high := sound.heapHigh
  have inside := roomy.spare.inside
  have notWindow : machine.kernelHeap.heapStart / 4096 + index ≠ windowPage machine :=
    fun same => roomy.absent (same ▸ window_present sound.free)
  refine ⟨_, freed, rfl, ⟨spaces_push fewer freeable _,
    free_list_push fewer (free_list_subset sound.free subset) freeable _, ?_, sound.kernelHalf,
    sound.heapAligned, sound.heapHigh⟩, ⟨roomy.spare, ?_, ?_⟩⟩
  · have kept := directory_entry_same_on keeps (by decide : 0 < 1024)
    exact kept.symm ▸ sound.low
  · have kept := directory_entry_same_on keeps
      (by omega : (machine.kernelHeap.heapStart / 4096 + index) / 1024 < 1024)
    exact kept.symm ▸ roomy.table
  · have kept := page_entry_push fewer freeable current
      (by omega : machine.kernelHeap.heapStart / 4096 + index < 1047552)
    rw [if_neg notWindow] at kept
    exact kept.symm ▸ roomy.absent

end Directories

section Lives

variable {system created next : System} {roots : List Nat} {index process pid : Nat}

/-- No process is registered, and there is a slot, a frame and a page for the next one. -/
structure Idle (system : System) (roots : List Nat) (index : Nat) : Prop where
  sound : ∃ frames, Sound system.machine roots frames
  accounted : ∃ slots live, Accounted system (fun _ => none) slots live
  creates : ∃ process created, poolCreate system = .ok (process, created) ∧
    created.machine.freeFramePaddr ≠ 0 ∧ Roomy created.machine index

theorem idle_ready (idle : Idle system roots index) : ∃ frames, Ready system roots frames := by
  obtain ⟨frames, sound⟩ := idle.sound
  obtain ⟨slots, live, accounted⟩ := idle.accounted
  refine ⟨frames, sound, ⟨_, slots, live, accounted⟩, ?_⟩
  intro aid process found notNull
  cases get_process_found accounted found notNull

/-- Without processes the search takes the aid of the counter. -/
theorem empty_search {slots : List Nat} {live : List ColouredLine.Block}
    (accounted : Accounted system (fun _ => none) slots live) :
    nextFreeAid system = .ok (system.aidCounter * 65536,
      { system with aidCounter := (system.aidCounter + 1) % 65536 }) := by
  have related := accounted.related
  obtain ⟨first, _, _, taken, found⟩ := next_free_aid_finds related accounted.aid
    ⟨1, by decide, by decide, (unused_iff related (by decide)).2 rfl⟩
  have isFirst : first = 0 := by
    by_contra later
    exact taken 0 (by omega) rfl
  subst isFirst
  have here : aidAfter system 0 = system.aidCounter := Nat.mod_eq_of_lt accounted.aid
  rw [found, here]
  rfl

/-- A process can be registered, and gets the aid of the counter. -/
theorem idle_registers (idle : Idle system roots index) :
    ∃ next, syscallRegisterProcess system = .ok (⟨system.aidCounter * 65536, 0⟩, next) ∧
      next.aidCounter = (system.aidCounter + 1) % 65536 ∧ Roomy next.machine index := by
  obtain ⟨frames, sound⟩ := idle.sound
  obtain ⟨slots, live, accounted⟩ := idle.accounted
  obtain ⟨process, created, creating, some, roomy⟩ := idle.creates
  obtain ⟨after, later, afterPool, fresh, occupied, _⟩ := pool_create_ok accounted creating
  obtain ⟨rest, createdSound, _⟩ := pool_create_sound sound creating
  have counter := pool_create_counter creating
  have numbering := empty_search afterPool
  rw [counter] at numbering
  obtain ⟨root, machine, making, made⟩ := roomy_makes createdSound roomy some
  have objects := new_page_dir_objects making
  obtain ⟨place, legal⟩ := slot_insertable afterPool (occupied ▸ List.mem_cons_self)
    (fun _ found => by cases found) (system.aidCounter * 65536)
  obtain ⟨tree, inserting⟩ := insert_unused afterPool.related rfl legal
  rw [← place, ← objects.1] at inserting
  exact ⟨_, register_returns creating numbering making inserting, rfl,
    ⟨made.spare, made.table, made.absent⟩⟩

/-- A process that was registered can be deleted, and the kernel is as ready as before. -/
theorem idle_deletes (idle : Idle system roots index)
    (registering : syscallRegisterProcess system = .ok (⟨pid, 0⟩, next)) (whole : getPidTid pid = 0)
    (word : pid < 4294967296) (roomy : Roomy next.machine index) :
    ∃ final, syscallDeleteProcess next pid = .ok (⟨0, pidNotFound⟩, final) ∧ Idle final roots index ∧
      final.aidCounter = next.aidCounter := by
  obtain ⟨frames, ready⟩ := idle_ready idle
  obtain ⟨slots, live, accounted⟩ := idle.accounted
  obtain ⟨root, process, state⟩ := register_sound ready registering
  obtain ⟨handed, made⟩ := register_made accounted registering
  obtain ⟨after, later, registered, _⟩ := made.accounted
  obtain ⟨rest, restReady⟩ := state.ready
  have key := whole_pid_key word whole
  have entry := get_process_found registered state.found state.notNull
  change register _ handed pid (u32 (getPidAid pid <<< 16)) = _ at entry
  rw [key] at entry
  obtain ⟨machine, freeing, top, sound, left⟩ := directory_freed restReady.sound roomy
    (state.cr3 ▸ ready.sound.spaces.member) state.fresh state.positive
  have objects := free_frame_objects freeing
  obtain ⟨tree, answered, _⟩ := @remove_answered next.machine.processTree _ pid registered.related
  obtain ⟨⟨removed, other⟩, removing, _⟩ := Trap.bind_eq_ok.mp answered.answer
  rw [← objects.processTree] at removing
  rw [← state.directory] at freeing
  obtain ⟨final, isFinal⟩ : ∃ final : System, final =
      { poolDestroy (next.onMachine { machine with processTree := other }) process with
        started := next.started.filter (· ≠ process) } := ⟨_, rfl⟩
  have deleting : deleteProcess next pid process = .ok final := by
    rw [deleteProcess, freeing, Trap.ok_bind, removing, isFinal]
    rfl
  obtain ⟨afterDelete, _⟩ := delete_process_ok registered entry deleting
  have emptied : unregister (register (fun _ => none) handed pid) pid = fun _ => none := by
    funext other
    unfold unregister register
    split_ifs <;> rfl
  rw [emptied] at afterDelete
  have paging : SamePaging machine final.machine := by
    rw [isFinal]
    exact ⟨rfl, rfl, rfl, rfl, rfl, rfl⟩
  have heap : final.machine.kernelHeap = machine.kernelHeap := by
    rw [isFinal]
    rfl
  have slot : final.freeList = process := by
    rw [isFinal]
    rfl
  have refilled : poolRefill final = .ok final := by
    rw [poolRefill, if_neg (slot ▸ state.notNull)]
  have creating : poolCreate final = .ok (process, { final with
      freeList := final.machine.pageDirPaddr process
      occupied := process :: final.occupied }) := by
    rw [poolCreate, refilled, Trap.ok_bind, slot]
    rfl
  refine ⟨final, ?_, ⟨⟨_, sound_same_paging sound paging heap⟩, ⟨_, _, afterDelete⟩, process, _, creating,
    ?_, ?_⟩, ?_⟩
  · rw [syscallDeleteProcess, state.found, Trap.ok_bind, if_pos state.notNull, deleting]
    rfl
  · change final.machine.freeFramePaddr ≠ 0
    rw [paging.top, top]
    exact Nat.pos_iff_ne_zero.1 state.positive
  · change Roomy final.machine index
    rw [isFinal]
    exact ⟨left.spare, left.table, left.absent⟩
  · rw [isFinal]
    rfl

/-- Processes that are registered and deleted one after the other, with one aid after the other. -/
def lives : Nat → Nat → List SystemCall
  | _, 0 => []
  | aid, n + 1 => .register :: .delete (aid * 65536) :: lives (aid + 1) n

theorem lives_calls (n : Nat) {aid : Nat} (bound : aid + n ≤ 65536) :
    ∀ call ∈ lives aid n, call = .register ∨ ∃ other < 65536, call = .delete (other * 65536) := by
  induction n generalizing aid with
  | zero => exact List.forall_mem_nil _
  | succ n ih =>
      refine List.forall_mem_cons.2 ⟨.inl rfl, List.forall_mem_cons.2 ⟨.inr ⟨aid, by omega, rfl⟩, ?_⟩⟩
      exact ih (by omega)

/-- Such calls name their processes by whole pids. -/
theorem whole_calls {calls : List SystemCall} (system : System)
    (plain : ∀ call ∈ calls, call = .register ∨ ∃ other < 65536, call = .delete (other * 65536)) :
    Allowed systemStep ProcessTable.LegalCall system calls ∧
      Allowed systemStep DeletesWholeAid system calls := by
  constructor
  · apply allowed_of_always
    intro call member state
    rcases plain call member with rfl | ⟨other, small, rfl⟩
    · trivial
    · change other * 65536 < 4294967296
      omega
  · apply allowed_of_always
    intro call member state
    rcases plain call member with rfl | ⟨other, small, rfl⟩
    · trivial
    · exact .inl (pid_of_aid small).1

theorem life_returns (idle : Idle system roots index) : ∃ registered final,
    systemStep system .register = .ok (.returned ⟨system.aidCounter * 65536, 0⟩, registered) ∧
      systemStep registered (.delete (system.aidCounter * 65536)) =
        .ok (.returned ⟨0, pidNotFound⟩, final) ∧
      Idle final roots index ∧ final.aidCounter = (system.aidCounter + 1) % 65536 := by
  obtain ⟨slots, live, accounted⟩ := idle.accounted
  have small := accounted.aid
  obtain ⟨registered, registering, counter, roomy⟩ := idle_registers idle
  obtain ⟨final, deleting, after, same⟩ := idle_deletes idle registering (pid_of_aid small).1 (by omega) roomy
  refine ⟨registered, final, ?_, ?_, after, same.trans counter⟩
  · rw [systemStep, registering]
    rfl
  · rw [systemStep, deleting]
    rfl

theorem lives_return (n : Nat) {aid : Nat} (idle : Idle system roots index)
    (counter : system.aidCounter = aid % 65536) (bound : aid + n ≤ 65536) : ∃ outcomes final,
    run systemStep system (lives aid n) = .ok (outcomes, final) ∧ Idle final roots index ∧
      final.aidCounter = (aid + n) % 65536 := by
  induction n generalizing system aid with
  | zero => exact ⟨[], system, rfl, idle, counter⟩
  | succ n ih =>
      obtain ⟨registered, middle, first, second, between, same⟩ := life_returns idle
      have here : system.aidCounter = aid := by omega
      rw [here] at first second same
      obtain ⟨outcomes, final, rest, last, ended⟩ := @ih middle (aid + 1) between same (by omega)
      refine ⟨_, final, run_cons_of_step first (run_cons_of_step second rest), last, ?_⟩
      rw [ended]
      congr 1
      omega

end Lives

section Boot

/-- What the next process needs of the kernel's memory. -/
def idleChecks (created : System) : Bool :=
  (created.machine.freeFramePaddr ≠ 0 ∧ created.machine.kernelHeap.heapStart = 0xFF7FE000 ∧
    created.machine.kernelHeap.pageCount = 2) ∧
  (heapGetUsage created.machine.kernelHeap 0 ≠ heapPageFree ∧
    heapGetUsage created.machine.kernelHeap 1 = heapPageFree ∧
    heapGetUsage created.machine.kernelHeap 2 = heapPageFree) ∧
  Present (directoryEntry created.machine.memory created.machine.cr3 1021) ∧
  ¬ Present (pageEntry created.machine.memory created.machine.cr3 0xFF7FF)

theorem pool_idle : Idle poolSystem [0x10000] 1 := by
  obtain ⟨live, start⟩ := processes_init_accounted (fun _ => ⟨0x100, 0x100, 0x100, 0, .black⟩)
    (fun _ => 0) pool_machine_ready
  obtain ⟨⟨process, created⟩, creating, passed⟩ := returns_with_iff.1
    (by decide +kernel : returnsWith (poolCreate poolSystem) (fun created => idleChecks created.2) = true)
  obtain ⟨⟨some, place, count⟩, ⟨taken, free, behind⟩, table, absent⟩ := of_decide_eq_true passed
  refine ⟨⟨_, pool_balanced.spaces, pool_balanced.free, pool_balanced.low, by decide, by decide, by decide⟩,
    ⟨_, live, start⟩, process, created, creating, some, ⟨⟨?_, ?_, ?_, ?_, ?_, free, behind⟩, ?_, ?_⟩⟩
  · rw [place]
  · rw [place, count]
    decide
  · rw [count]
    decide
  · rw [count]
    decide
  · intro earlier before
    rw [show earlier = 0 by omega]
    exact taken
  · rw [place]
    exact table
  · rw [place]
    exact absent

/-- After 65535 processes that came and went, aid 0 is given to the next one. -/
theorem creations_not_fresh : ¬ ∀ (machine : Machine) (nil : Nat) (nodes : Nat → RbTreeModel.RbNode)
    (next : Nat → Nat) (calls : List SystemCall), HeapReady machine nil →
      Allowed systemStep ProcessTable.LegalCall (processesInit machine nil nodes next) calls →
        Allowed systemStep DeletesWholeAid (processesInit machine nil nodes next) calls →
          Allowed systemStep CreationFresh (processesInit machine nil nodes next) calls := by
  intro always
  have calls : ∀ call ∈ lives 1 65535 ++ [.register],
      call = .register ∨ ∃ other < 65536, call = .delete (other * 65536) := by
    intro call member
    rcases List.mem_append.1 member with before | last
    · exact lives_calls 65535 (by decide) call before
    · exact .inl (List.mem_singleton.1 last)
  obtain ⟨legal, whole⟩ := whole_calls poolSystem calls
  have fresh := always poolMachine 0x100 _ _ _ pool_machine_ready legal whole
  obtain ⟨outcomes, final, completed, idle, wrapped⟩ := lives_return 65535 pool_idle rfl (by decide : 1 + 65535 ≤ 65536)
  have last := ((allowed_append_iff completed).1 fresh).2.1
  obtain ⟨slots, live, accounted⟩ := idle.accounted
  obtain ⟨process, created, creating, _⟩ := idle.creates
  obtain ⟨_, _, after, _⟩ := pool_create_ok accounted creating
  have unused : ∀ aid < 65536, Unused created aid :=
    fun aid small => (unused_iff after.related small).2 rfl
  have counter : created.aidCounter = 0 := (pool_create_counter creating).trans wrapped
  rcases (creation_fresh_iff accounted).1 last created ⟨process, creating⟩
    ⟨1, by decide, by decide, unused 1 (by decide)⟩ with taken | ⟨nonzero, _⟩
  · exact taken (unused 0 (by decide))
  · exact nonzero counter

/-- The first process is given a fresh pid. -/
theorem creations_fresh_boot : Allowed systemStep CreationFresh poolSystem (lives 1 1) := by
  obtain ⟨legal, whole⟩ := whole_calls poolSystem (lives_calls 1 (by decide : 1 + 1 ≤ 65536))
  apply (creations_fresh_iff (lives 1 1) pool_machine_ready legal whole).2
  obtain ⟨slots, live, accounted⟩ := pool_idle.accounted
  refine ⟨?_, fun _ _ _ => ⟨fun _ searches => searches.elim, fun _ _ _ => trivial⟩⟩
  rintro created ⟨process, creating⟩ _
  obtain ⟨_, _, after, _⟩ := pool_create_ok accounted creating
  have counter : created.aidCounter = 1 := pool_create_counter creating
  rw [AvoidsZero, counter]
  exact .inr ⟨by decide, 1, Nat.le_refl _, by decide, (unused_iff after.related (by decide)).2 rfl⟩

end Boot

end ParadiseOS.AidCycles
