import ParadiseOS.KernelPages
import ParadiseOS.ProcessDeletes
import ParadiseOS.SpaceCalls

/-!
# The frames of a process from its registration to its deletion

A process starts with a directory whose user half is empty. Page tables are added to
it by the mapping calls and taken back by none; `syscall_delete_process` frees the
directory, which is the only record of them.
-/

namespace ParadiseOS.ProcessCycles

open FrameLedger FrameSteps KernelPages MachineWord MemModel NewDirectory
open PagingModel PagingSteps ProcessFrames ProcessModel ProcessTable SpaceCalls StepRun TransferMoves
open TwoLevelPaging VirtModel
open VirtRanges (pageOf)
open MailboxModel (getPidAid getPidTid)
open RbTreeRuns

set_option autoImplicit false

section Statement

/-- The entries of a directory that `new_page_dir` clears. -/
def UserIndex (index : Nat) : Prop := 1 ≤ index ∧ index < kernelPdiStart

/-- The directory of an address space, and the page tables of its user half. -/
def OwnFrame (memory : Memory) (root frame : Nat) : Prop :=
  frame = root ∨ ∃ index, UserIndex index ∧ Present (directoryEntry memory root index) ∧
    frame = frameOf (directoryEntry memory root index)

/-- A process is registered, calls are made, and it is deleted. -/
structure Life (system registered : System) (calls : List SpaceCall) (pid : Nat) (used : Machine)
    (final : System) : Prop where
  created : syscallRegisterProcess system = .ok (⟨pid, 0⟩, registered)
  called : ∃ results, run spaceStep registered.machine calls = .ok (results, used)
  deleted : ∃ result, syscallDeleteProcess (registered.onMachine used) pid = .ok (result, final)

/-- The frames of an address space are on the free list, each of them once. -/
def GivesBack (used final : Machine) (root : Nat) : Prop :=
  ∃ frames, Linked final.memory final.freeFramePaddr frames ∧ (∀ frame ∈ frames, 0 < frame) ∧
    ∀ frame, OwnFrame used.memory root frame → frames.count frame = 1

/-- The kernel between two calls: its paging is sound, its process table is accounted for, and
every process has a live directory. -/
structure Ready (system : System) (roots frames : List Nat) : Prop where
  sound : Sound system.machine roots frames
  accounted : ∃ dict slots live, Accounted system dict slots live
  processes : ProcessRoots system.machine roots

end Statement

section Registering

variable {system created next : System} {roots frames : List Nat} {process : Nat}

theorem sound_same_paging {machine last : Machine} (sound : Sound machine roots frames)
    (same : SamePaging machine last) (heap : last.kernelHeap = machine.kernelHeap) : Sound last roots frames where
  spaces := spaces_same_paging same sound.spaces
  free := free_list_same_paging same sound.free
  low := by
    rw [same.memory, same.cr3]
    exact sound.low
  kernelHalf := by
    rw [windowPage, same.head]
    exact sound.kernelHalf
  heapAligned := heap ▸ sound.heapAligned
  heapHigh := heap ▸ sound.heapHigh

theorem pool_create_sound (sound : Sound system.machine roots frames)
    (creating : poolCreate system = .ok (process, created)) :
    ∃ rest, Sound created.machine roots rest ∧ created.machine.cr3 = system.machine.cr3 := by
  rcases pool_create_machine creating with same | ⟨ptr, machine, allocating, isMachine⟩
  · exact ⟨frames, same ▸ sound, by rw [same]⟩
  · obtain ⟨after, held, middle, carried, isNext⟩ := kernel_alloc_sound sound allocating
    have cr3 := same_globals_cr3 carried.globals
    have paging : SamePaging machine created.machine := by
      rw [isMachine]
      exact ⟨rfl, rfl, rfl, rfl, rfl, rfl⟩
    refine ⟨after.free, sound_same_paging held paging (by rw [isMachine]), ?_⟩
    rw [paging.cr3, isNext]
    exact cr3

/-- What `syscall_register_process` leaves behind. -/
structure Registered (system next : System) (roots : List Nat) (pid root process : Nat) : Prop where
  ready : ∃ rest, Ready next (root :: roots) rest
  fresh : root ∉ roots
  positive : 0 < root
  cr3 : next.machine.cr3 = system.machine.cr3
  found : getProcess next.machine.processTree (getPidAid pid) = .ok process
  notNull : process ≠ 0
  directory : next.machine.pageDirPaddr process = root
  empty : ∀ index, UserIndex index → directoryEntry next.machine.memory root index = 0

/-- The parts of `syscall_register_process`. -/
theorem register_parts {result : SyscallResult} (completed : syscallRegisterProcess system = .ok (result, next)) :
    ∃ process created numbered root machine tree, poolCreate system = .ok (process, created) ∧
      nextFreeAid created = .ok (result.value, numbered) ∧ newPageDir numbered.machine = .ok (root, machine) ∧
      next = numbered.onMachine { machine with
        pageDirPaddr := Function.update machine.pageDirPaddr process root
        processTree := tree } := by
  obtain ⟨⟨process, created⟩, creating, completed⟩ := Trap.bind_eq_ok.mp completed
  obtain ⟨⟨pid, initialized⟩, initializing, completed⟩ := Trap.bind_eq_ok.mp completed
  obtain ⟨middle, inserting, completed⟩ := Trap.bind_eq_ok.mp completed
  simp only [Trap.pure_ok, Except.ok.injEq, Prod.mk.injEq] at completed
  obtain ⟨rfl, rfl⟩ := completed
  obtain ⟨⟨free, numbered⟩, searched, initializing⟩ := Trap.bind_eq_ok.mp initializing
  obtain ⟨⟨root, machine⟩, making, initializing⟩ := Trap.bind_eq_ok.mp initializing
  simp only [Trap.pure_ok, Except.ok.injEq, Prod.mk.injEq] at initializing
  obtain ⟨rfl, rfl⟩ := initializing
  obtain ⟨⟨isNew, tree⟩, inserted, inserting⟩ := Trap.bind_eq_ok.mp inserting
  simp only [Trap.pure_ok, Except.ok.injEq] at inserting
  exact ⟨process, created, numbered, root, machine, tree, creating, searched, making, inserting.symm⟩

/-- The address space of a process that was there before is found and is as it was. -/
theorem registered_processes {dict : Dictionary} {slots live after later} {pid root process : Nat}
    (accounted : Accounted system dict slots live) (processes : ProcessRoots system.machine roots)
    (registered : Accounted next (register dict process pid) after later)
    (fresh : process ∉ system.occupied) (directory : next.machine.pageDirPaddr process = root)
    (others : ∀ other ∈ system.occupied, other ≠ process →
      next.machine.pageDirPaddr other = system.machine.pageDirPaddr other) :
    ProcessRoots next.machine (root :: roots) := by
  intro aid other found notNull
  have entry := get_process_found registered found notNull
  unfold register at entry
  split_ifs at entry with here
  · have same : process = other := by
      have equal := Option.some.inj entry
      omega
    rw [← same, directory]
    exact List.mem_cons_self
  · obtain ⟨_, _, occupied, member, same⟩ := accounted.keys _ _ entry
    have equal : other = occupied := by omega
    subst equal
    have before := (serves_of_related accounted.related).process aid other entry
    rw [others other member fun isNew => fresh (isNew ▸ member)]
    exact List.mem_cons_of_mem _ (processes aid other before notNull)

theorem register_sound {result : SyscallResult} (ready : Ready system roots frames)
    (completed : syscallRegisterProcess system = .ok (result, next)) :
    ∃ root process, Registered system next roots result.value root process := by
  obtain ⟨dict, slots, live, accounted⟩ := ready.accounted
  obtain ⟨handed, made⟩ := register_made accounted completed
  obtain ⟨after, later, registered, _⟩ := made.accounted
  obtain ⟨process, created, numbered, root, machine, tree, creating, searched, making, isNext⟩ :=
    register_parts completed
  obtain ⟨_, _, afterPool, fresh, occupied, _⟩ := pool_create_ok accounted creating
  obtain ⟨_, whole, word, _, isNumbered⟩ := next_free_aid_ok afterPool searched
  have numberedMachine : numbered.machine = created.machine := by rw [isNumbered]
  have isHanded : handed = process := by
    have both : handed :: system.occupied = process :: system.occupied := by
      rw [← made.occupied, ← occupied, isNext]
      change numbered.occupied = created.occupied
      rw [isNumbered]
    exact (List.cons.inj both).1
  subst isHanded
  obtain ⟨between, createdSound, createdCr3⟩ := pool_create_sound ready.sound creating
  rw [← numberedMachine] at createdSound createdCr3
  obtain ⟨ptr, ledger, madeSound, dirMade⟩ := new_page_dir_sound createdSound making
  obtain ⟨_, sameDirs, _⟩ := new_page_dir_objects making
  have paging : SamePaging machine next.machine := by
    rw [isNext]
    exact ⟨rfl, rfl, rfl, rfl, rfl, rfl⟩
  have dirs : next.machine.pageDirPaddr = Function.update created.machine.pageDirPaddr handed root := by
    rw [isNext, ← numberedMachine, ← sameDirs]
    rfl
  have directory : next.machine.pageDirPaddr handed = root := by
    rw [dirs]
    exact Function.update_self _ _ _
  have nextSound : Sound next.machine (root :: roots) ledger.free :=
    sound_same_paging madeSound paging (by rw [isNext]; rfl)
  have key : u32 (getPidAid result.value <<< 16) = result.value := by
    apply whole_pid_key word
    have same : result.value &&& 65535 = result.value % 65536 :=
      Nat.and_two_pow_sub_one_eq_mod result.value 16
    unfold getPidTid u16
    omega
  have member : handed ∈ next.occupied := made.occupied ▸ List.mem_cons_self
  have bounds := on_page_bounds registered.invariant registered.room (registered.usedOnPage handed member)
  have behind := registered.behind
  refine ⟨root, handed, ⟨ledger.free, nextSound, ⟨_, _, _, registered⟩, ?_⟩, dirMade.notRoot, dirMade.positive,
    ?_, ?_, by omega, directory, ?_⟩
  · apply registered_processes accounted ready.processes registered fresh directory
    intro other isOld differ
    rw [dirs, Function.update_of_ne differ]
    exact pool_create_keeps accounted isOld creating
  · have cr3 := same_globals_cr3 dirMade.globals
    change machine.cr3 = numbered.machine.cr3 at cr3
    rw [paging.cr3, cr3, createdCr3]
  · apply (serves_of_related registered.related).process
    rw [key]
    exact if_pos rfl
  · rintro index ⟨low, high⟩
    have own := dirMade.own index (high.trans (by decide))
    rw [if_neg (by omega)] at own
    rw [paging.memory]
    exact own

end Registering

section Deleting

variable {system registered final : System} {calls : List SpaceCall} {used : Machine} {pid root process : Nat}
  {roots frames rest : List Nat}

/-- A directory that is not loaded can be freed. -/
theorem free_directory (spaces : Spaces used (root :: roots)) (free : FreeList used (root :: roots) frames)
    (current : used.cr3 ∈ roots) (fresh : root ∉ roots) (positive : 0 < root) :
    freeFrame used root = .ok { used with
        memory := pushMemory used root
        freeFramePaddr := root
        usedFrames := sub32 used.usedFrames 1 } ∧
      Linked (pushMemory used root) root (root :: frames) := by
  have subset : roots ⊆ root :: roots := List.subset_cons_self _ _
  have fewer := spaces_subset spaces subset current
  have freeable := root_freeable spaces free subset List.mem_cons_self positive fresh
  have pushed := free_list_push fewer (free_list_subset free subset) freeable (sub32 used.usedFrames 1)
  exact ⟨free_frame_ok fewer freeable, pushed.linked⟩

/-- A delete puts the directory on the free list, and nothing else. -/
theorem delete_frees (spaces : Spaces used (root :: roots)) (free : FreeList used (root :: roots) frames)
    (current : used.cr3 ∈ roots) (fresh : root ∉ roots) (positive : 0 < root)
    (found : getProcess used.processTree (getPidAid pid) = .ok process) (notNull : process ≠ 0)
    (directory : used.pageDirPaddr process = root) {result : SyscallResult}
    (completed : syscallDeleteProcess (registered.onMachine used) pid = .ok (result, final)) :
    Linked final.machine.memory final.machine.freeFramePaddr (root :: frames) := by
  obtain ⟨freed, linked⟩ := free_directory spaces free current fresh positive
  obtain ⟨other, looked, completed⟩ := Trap.bind_eq_ok.mp completed
  have same : other = process := Except.ok.inj (looked.symm.trans found)
  subst same
  split_ifs at completed
  obtain ⟨deleted, deleting, completed⟩ := Trap.bind_eq_ok.mp completed
  simp only [Trap.pure_ok, Except.ok.injEq, Prod.mk.injEq] at completed
  obtain ⟨_, rfl⟩ := completed
  obtain ⟨machine, freeing, deleting⟩ := Trap.bind_eq_ok.mp deleting
  obtain ⟨removed, _, deleting⟩ := Trap.bind_eq_ok.mp deleting
  simp only [Trap.pure_ok, Except.ok.injEq] at deleting
  change freeFrame used (used.pageDirPaddr other) = .ok machine at freeing
  rw [directory, freed, Except.ok.injEq] at freeing
  rw [← deleting]
  change Linked machine.memory machine.freeFramePaddr _
  rw [← freeing]
  exact linked

/-- A delete returns if the tree lets go of the process. -/
theorem delete_returns {removed : Nat × RbTreeModel.RbTree} (spaces : Spaces used (root :: roots))
    (free : FreeList used (root :: roots) frames) (current : used.cr3 ∈ roots) (fresh : root ∉ roots)
    (positive : 0 < root) (found : getProcess used.processTree (getPidAid pid) = .ok process)
    (notNull : process ≠ 0) (directory : used.pageDirPaddr process = root)
    (removing : RbTreeModel.rbRemove used.processTree pid = .ok removed) :
    ∃ result final, syscallDeleteProcess (registered.onMachine used) pid = .ok (result, final) := by
  obtain ⟨freed, _⟩ := free_directory spaces free current fresh positive
  rw [← directory] at freed
  have looked : getProcess (registered.onMachine used).machine.processTree (getPidAid pid) = .ok process := found
  have freeing : freeFrame (registered.onMachine used).machine
      ((registered.onMachine used).machine.pageDirPaddr process) = _ := freed
  rw [syscallDeleteProcess, looked, Trap.ok_bind, if_pos notNull, deleteProcess, freeing, Trap.ok_bind]
  dsimp only
  rw [removing]
  exact ⟨_, _, rfl⟩

/-- What a life leaves: sound paging structures, and the directory on top of the free list. -/
structure Ended (registered : System) (pid : Nat) (used : Machine) (final : System) (roots left : List Nat)
    (root : Nat) : Prop where
  space : spaceOf registered.machine (getPidAid pid) = root
  spaces : Spaces used (root :: roots)
  free : FreeList used (root :: roots) left
  positive : 0 < root
  linked : Linked final.machine.memory final.machine.freeFramePaddr (root :: left)

theorem life_ended (ready : Ready system roots frames) (life : Life system registered calls pid used final)
    (plain : Allowed spaceStep (PlainCall (spaceOf registered.machine (getPidAid pid) :: roots))
      registered.machine calls) :
    ∃ free root, Ended registered pid used final roots free root := by
  obtain ⟨root, process, state⟩ := register_sound ready life.created
  obtain ⟨between, started⟩ := state.ready
  have isRoot : spaceOf registered.machine (getPidAid pid) = root := by
    have found := state.found
    dsimp only at found
    simp only [spaceOf, found]
    exact state.directory
  rw [isRoot] at plain
  obtain ⟨results, called⟩ := life.called
  obtain ⟨free, steady⟩ := space_run_steady started.sound.spaces started.sound.free started.processes plain called
  obtain ⟨result, deleted⟩ := life.deleted
  have globals := steady.globals
  have sameTree : used.processTree = registered.machine.processTree := by rw [globals]
  have sameDirs : used.pageDirPaddr = registered.machine.pageDirPaddr := by rw [globals]
  have current : used.cr3 ∈ roots := by
    rw [steady_cr3 steady, state.cr3]
    exact ready.sound.spaces.member
  have linked := delete_frees steady.spaces steady.free current state.fresh state.positive
    (sameTree ▸ state.found) state.notNull (sameDirs ▸ state.directory) deleted
  exact ⟨free, root, isRoot, steady.spaces, steady.free, state.positive, linked⟩

/-- A page table that is left in the directory is not on the free list. -/
theorem table_not_given_back {free : List Nat} {index : Nat}
    (ended : Ended registered pid used final roots free root) (inside : UserIndex index)
    (present : Present (directoryEntry used.memory root index)) : ¬ GivesBack used final.machine root := by
  rintro ⟨frames, again, allPositive, once⟩
  obtain ⟨low, high⟩ := inside
  have positive : ∀ frame ∈ root :: free, 0 < frame :=
    List.forall_mem_cons.2 ⟨ended.positive, ended.free.positive⟩
  have same := linked_unique allPositive positive again ended.linked
  have count := once _ (.inr ⟨index, ⟨low, high⟩, present, rfl⟩)
  have member : frameOf (directoryEntry used.memory root index) ∈ root :: free := by
    rw [← same]
    apply List.count_pos_iff.1
    omega
  have isTable : IsTable used.memory (root :: roots) (frameOf (directoryEntry used.memory root index)) :=
    ⟨root, List.mem_cons_self, index, high.trans (by decide), present, rfl⟩
  rcases List.mem_cons.1 member with isDirectory | listed
  · have apart := ended.spaces.family.apart root List.mem_cons_self index (high.trans (by decide)) present
    rw [isDirectory] at apart
    exact apart List.mem_cons_self
  · exact ended.free.notTable _ listed isTable

/-- The frames of a process are all given back exactly if no page table was left in the user half of its
directory. -/
theorem gives_back_iff (ready : Ready system roots frames) (life : Life system registered calls pid used final)
    (plain : Allowed spaceStep (PlainCall (spaceOf registered.machine (getPidAid pid) :: roots))
      registered.machine calls) :
    GivesBack used final.machine (spaceOf registered.machine (getPidAid pid)) ↔
      ∀ index, UserIndex index →
        ¬ Present (directoryEntry used.memory (spaceOf registered.machine (getPidAid pid)) index) := by
  obtain ⟨free, root, ended⟩ := life_ended ready life plain
  rw [ended.space]
  constructor
  · intro gives index inside present
    exact table_not_given_back ended inside present gives
  · intro empty
    refine ⟨root :: free, ended.linked, List.forall_mem_cons.2 ⟨ended.positive, ended.free.positive⟩, ?_⟩
    rintro frame (rfl | ⟨index, inside, present, _⟩)
    · rw [List.count_cons_self, List.count_eq_zero.2 fun listed =>
        ended.free.notRoot _ listed List.mem_cons_self]
    · exact absurd present (empty index inside)

end Deleting

section Home

open PagingChecks

/-- An address space with a user page of its own, and five free frames. -/
def homeWords : List (Nat × Nat) :=
  [(0x10000, 0x1D003), (0x10004, 0x14007), (0x10C00, 0x12003), (0x10FFC, 0x10003), (0x12004, 0x16003),
    (0x14004, 0x19007), (0x16000, 0x17000), (0x17000, 0x18000), (0x18000, 0x1A000), (0x1A000, 0x1B000)]

def homeFrames : List Nat := [0x16000, 0x17000, 0x18000, 0x1A000, 0x1B000]

def homeMachine : Machine := { sampleMachine with memory := imageOf homeWords, totalFrames := 5 }

/-- The user page, and the first two pages of the kernel's heap. -/
def HomePage (page : Nat) : Prop := page = 0x401 ∨ page = 0xC0002 ∨ page = 0xC0003

theorem home_covers : Covers homeMachine.memory [0x10000] [0, 1, 0x300] :=
  covers_of_words _ (by decide) (by decide)

theorem home_spaces : Spaces homeMachine [0x10000] where
  family := family_of_checks _ home_covers (by decide +kernel) (by decide +kernel)
  current := rfl
  member := by decide
  headAligned := by decide
  headLow := by decide
  headPte := by decide
  headShared := by decide +kernel

theorem home_free : FreeList homeMachine [0x10000] homeFrames :=
  free_list_of_checks _ home_covers (by decide +kernel)
    ⟨rfl, by decide +kernel, by decide +kernel, by decide +kernel, by decide +kernel,
      (by decide +kernel : readWord homeMachine.memory 0x1B000 = 0)⟩
    (by decide) (by decide +kernel)

theorem home_frame : backingFrame homeMachine 0x401 = 0x19000 := by decide +kernel

theorem home_frame_apart : ¬ InUse homeMachine [0x10000] homeFrames 0x19000 := by
  rintro (isRoot | ⟨root, member, index, low, present, same⟩ | listed)
  · revert isRoot
    decide
  · have covered := home_covers root member index low present
    have differ : ∀ root ∈ [0x10000], ∀ index ∈ [0, 1, 0x300],
        frameOf (directoryEntry homeMachine.memory root index) ≠ 0x19000 := by decide +kernel
    exact differ root member index covered same
  · revert listed
    decide

theorem home_balanced : Balanced HomePage (homeFrames ++ [0x19000]) 5 homeMachine
    ⟨[0x10000], homeFrames, [0x401], [], []⟩ where
  spaces := home_spaces
  free := home_free
  low := by decide +kernel
  placed := by
    rintro page (rfl | rfl | rfl) <;> decide
  exact := by
    rintro page (rfl | rfl | rfl)
    · exact iff_of_true (by decide +kernel) (List.mem_singleton_self _)
    · exact iff_of_false (by decide +kernel) (by decide)
    · exact iff_of_false (by decide +kernel) (by decide)
  inside := List.forall_mem_singleton.2 (.inl rfl)
  nodup := List.nodup_singleton _
  positive := List.forall_mem_singleton.2 (home_frame ▸ by decide)
  apart := List.forall_mem_singleton.2 (home_frame ▸ home_frame_apart)
  own page member other second _ :=
    (List.mem_singleton.1 member).trans (List.mem_singleton.1 second).symm
  tables := List.forall_mem_nil _
  directories := List.forall_mem_nil _
  accounts := by
    rw [List.map_singleton, home_frame]
    exact List.Perm.refl _
  usage := by decide

def homeSystem : System :=
  processesInit homeMachine 0x100 (fun _ => ⟨0x100, 0x100, 0x100, 0, .black⟩) (fun _ => 0)

/-- The first process gets the directory that is loaded. -/
def homeStart : Except Trap (Nat × System) := do
  let (process, system) ← poolCreate homeSystem
  let (pid, system) ← nextFreeAid system
  let system ← insertProcess (setProcessDir system process 0x10000) process pid
  pure (pid, system)

/-- What a second process finds in the tree. -/
def homeTreeChecks (tree : RbTreeModel.RbTree) : Bool :=
  returnsWith (getProcess tree 1) (fun found => found = 0xC0002000) = true ∧
  returnsWith (getProcess tree 2) (fun found => found = 0xC0002020) = true ∧
  returnsWith (RbTreeModel.rbRemove tree 0x20000) (fun _ => true) = true

/-- What the registration of a second process needs. -/
def homeChecks (started : Nat × System) : Bool :=
  (started.1 = 0x10000 ∧ started.2.freeList ≠ 0 ∧
    started.2.machine.pageDirPaddr 0xC0002000 = 0x10000) ∧
  returnsWith (poolCreate started.2) (fun created =>
    created.1 = 0xC0002020 ∧
    returnsWith (nextFreeAid created.2) (fun numbered =>
      numbered.1 = 0x20000 ∧ returnsWith (kernelAlloc numbered.2.machine 1) (fun taken =>
        taken.1 = 0xC0003000 ∧ taken.2.usedFrames = 2 ∧
          returnsWith (HeapModel.heapFree taken.2.kernelHeap taken.1) (fun _ => true) = true) = true) = true ∧
    returnsWith (RbTreeModel.rbInsert created.2.machine.processTree 0xC0002028 0x20000)
      (fun inserted => homeTreeChecks inserted.2) = true) = true

theorem home_started : ∃ started, homeStart = .ok started ∧ homeChecks started = true :=
  returns_with_iff.1 (by decide +kernel)

theorem home_heap_ready : HeapReady homeMachine 0x100 where
  invariant := by
    refine ⟨[], rfl, by decide, by decide, ColouredLine.coloured_nil ?_⟩
    intro index below
    change index < 16 at below
    interval_cases index <;> decide
  near := by decide
  room := by decide
  behind := by decide

theorem home_sound : Sound homeMachine [0x10000] homeFrames :=
  ⟨home_spaces, home_free, home_balanced.low, by decide, by decide, by decide⟩

theorem home_created_balanced {created : System} {process : Nat}
    (creating : poolCreate homeSystem = .ok (process, created)) :
    ∃ ledger, Balanced HomePage (homeFrames ++ [0x19000]) 5 created.machine ledger ∧
      ledger.roots = [0x10000] ∧ 0x401 ∈ ledger.pages ∧ created.machine.cr3 = 0x10000 ∧
      windowPage created.machine = 0xC0001 := by
  have start : Balanced HomePage (homeFrames ++ [0x19000]) 5 homeSystem.machine
      ⟨[0x10000], homeFrames, [0x401], [], []⟩ :=
    balanced_same_paging home_balanced ⟨rfl, rfl, rfl, rfl, rfl, rfl⟩ rfl
  rcases pool_create_machine creating with same | ⟨ptr, allocated, allocating, isMachine⟩
  · rw [same]
    exact ⟨_, start, rfl, List.mem_singleton_self _, rfl, rfl⟩
  · obtain ⟨⟨dir, taken⟩, taking, isDir⟩ := returns_with_iff.1
      (by decide +kernel : returnsWith (kernelAlloc homeSystem.machine 1)
        (fun taken => taken.1 = 0xC0002000) = true)
    have isDir := of_decide_eq_true isDir
    change dir = 0xC0002000 at isDir
    subst isDir
    obtain ⟨marked, after, _, _, held, ⟨middle, carried, isAllocated⟩, pages, _⟩ :=
      kernel_alloc_balanced start (fun vaddr heap found page range => by
        have same := (kernel_alloc_objects taking).2.2.symm.trans found
        simp only [Except.ok.injEq, Prod.mk.injEq] at same
        rw [← same.1] at range
        unfold FrameLedger.InRange at range
        exact .inr (.inl (by omega))) allocating
    have cr3 := same_globals_cr3 carried.globals
    have window := same_globals_window carried.globals
    rw [isMachine]
    refine ⟨after, balanced_same_paging held ⟨rfl, rfl, rfl, rfl, rfl, rfl⟩ rfl, carried.roots, ?_, ?_, ?_⟩
    · exact (pages _).2 (.inl (List.mem_singleton_self _))
    · rw [isAllocated]
      exact cr3
    · rw [isAllocated]
      exact window

/-- The state with one process. -/
structure HomeStarted (started : System) : Prop where
  ready : ∃ frames, Ready started [0x10000] frames
  ledger : ∃ ledger, Balanced HomePage (homeFrames ++ [0x19000]) 5 started.machine ledger ∧
    ledger.roots = [0x10000] ∧ 0x401 ∈ ledger.pages
  cr3 : started.machine.cr3 = 0x10000
  window : windowPage started.machine = 0xC0001
  checks : homeChecks (0x10000, started) = true

theorem home_started_sound : ∃ started, HomeStarted started := by
  obtain ⟨⟨pid, started⟩, starting, checks⟩ := home_started
  have isPid : pid = 0x10000 := (of_decide_eq_true checks).1.1
  subst isPid
  obtain ⟨⟨process, created⟩, creating, starting⟩ := Trap.bind_eq_ok.mp starting
  obtain ⟨⟨free, numbered⟩, searched, starting⟩ := Trap.bind_eq_ok.mp starting
  obtain ⟨last, inserting, starting⟩ := Trap.bind_eq_ok.mp starting
  simp only [Trap.pure_ok, Except.ok.injEq, Prod.mk.injEq] at starting
  obtain ⟨rfl, rfl⟩ := starting
  obtain ⟨live, accounted⟩ := processes_init_accounted (fun _ => ⟨0x100, 0x100, 0x100, 0, .black⟩)
    (fun _ => 0) home_heap_ready
  obtain ⟨after, later, afterPool, fresh, occupied, notFree, _⟩ := pool_create_ok accounted creating
  obtain ⟨absent, whole, word, afterAid, isNumbered⟩ := next_free_aid_ok afterPool searched
  have numberedMachine : numbered.machine = created.machine := by rw [isNumbered]
  have member : process ∈ numbered.occupied := by
    rw [isNumbered]
    change process ∈ created.occupied
    rw [occupied]
    exact List.mem_cons_self
  obtain ⟨registered, _⟩ := insert_process_ok (set_process_dir_accounted afterAid notFree 0x10000) member
    (unregistered_of_fresh accounted fresh) absent whole word inserting
  obtain ⟨⟨isNew, tree⟩, inserted, isLast⟩ := Trap.bind_eq_ok.mp inserting
  simp only [Trap.pure_ok, Except.ok.injEq] at isLast
  have paging : SamePaging created.machine last.machine := by
    rw [← isLast, ← numberedMachine]
    exact ⟨rfl, rfl, rfl, rfl, rfl, rfl⟩
  have heap : last.machine.kernelHeap = created.machine.kernelHeap := by
    rw [← isLast, ← numberedMachine]
    rfl
  have used : last.machine.usedFrames = created.machine.usedFrames := by
    rw [← isLast, ← numberedMachine]
    rfl
  have start : Sound homeSystem.machine [0x10000] homeFrames :=
    sound_same_paging home_sound ⟨rfl, rfl, rfl, rfl, rfl, rfl⟩ rfl
  obtain ⟨rest, sound, _⟩ := pool_create_sound start creating
  obtain ⟨ledger, balanced, isRoots, page, cr3, window⟩ := home_created_balanced creating
  refine ⟨last, ⟨rest, sound_same_paging sound paging heap, ⟨_, _, _, registered⟩, ?_⟩,
    ⟨ledger, balanced_same_paging balanced paging used, isRoots, page⟩, paging.cr3.trans cr3, ?_, checks⟩
  · have directory : last.machine.pageDirPaddr process = 0x10000 := by
      rw [← isLast]
      exact Function.update_self _ _ _
    have processes : ProcessRoots homeSystem.machine [] := by
      intro aid other found notNull
      have entry := get_process_found accounted found notNull
      cases entry
    exact registered_processes accounted processes registered fresh directory
      fun other member => absurd member List.not_mem_nil
  · rw [windowPage, paging.head]
    exact window

/-- The state with a second process, whose address space is empty. -/
structure HomeRegistered (started registered : System) (root : Nat) : Prop where
  registering : syscallRegisterProcess started = .ok (⟨0x20000, 0⟩, registered)
  ready : ∃ rest, Ready registered [root, 0x10000] rest ∧ rest.length = 3
  page : Present (pageEntry registered.machine.memory 0x10000 0x401)
  cr3 : registered.machine.cr3 = 0x10000
  window : windowPage registered.machine = 0xC0001
  differ : root ≠ 0x10000
  positive : 0 < root
  first : registered.machine.pageDirPaddr 0xC0002000 = 0x10000
  second : registered.machine.pageDirPaddr 0xC0002020 = root
  empty : ∀ index, UserIndex index → directoryEntry registered.machine.memory root index = 0
  tree : homeTreeChecks registered.machine.processTree = true

theorem home_registered {started : System} (state : HomeStarted started) :
    ∃ registered root, HomeRegistered started registered root := by
  obtain ⟨⟨_, slots, isFirst⟩, createdPassed⟩ := of_decide_eq_true state.checks
  obtain ⟨⟨process, created⟩, creating, passed⟩ := returns_with_iff.1 createdPassed
  obtain ⟨isProcess, numberedPassed, insertPassed⟩ := of_decide_eq_true passed
  change process = 0xC0002020 at isProcess
  subst isProcess
  obtain ⟨⟨pid, numbered⟩, numbering, passed⟩ := returns_with_iff.1 numberedPassed
  obtain ⟨isPid, takenPassed⟩ := of_decide_eq_true passed
  change pid = 0x20000 at isPid
  subst isPid
  obtain ⟨⟨dir, taken⟩, taking, passed⟩ := returns_with_iff.1 takenPassed
  obtain ⟨isDir, isUsed, freePassed⟩ := of_decide_eq_true passed
  change dir = 0xC0003000 at isDir
  subst isDir
  obtain ⟨⟨freedCount, heap⟩, freeing, _⟩ := returns_with_iff.1 freePassed
  obtain ⟨⟨isNew, tree⟩, inserting, treePassed⟩ := returns_with_iff.1 insertPassed
  have createdMachine : created.machine = started.machine := by
    obtain ⟨refilled, filling, finished⟩ := Trap.bind_eq_ok.mp creating
    rw [poolRefill, if_neg slots, Except.ok.injEq] at filling
    simp only [Trap.pure_ok, Except.ok.injEq, Prod.mk.injEq] at finished
    rw [← finished.2, ← filling]
  have isNumbered : numbered = { created with aidCounter := numbered.aidCounter } := by
    obtain ⟨_, _, numbering⟩ := Trap.bind_eq_ok.mp numbering
    simp only [Trap.pure_ok, Except.ok.injEq, Prod.mk.injEq] at numbering
    rw [← numbering.2]
  have numberedMachine : numbered.machine = started.machine := by
    rw [isNumbered]
    exact createdMachine
  obtain ⟨ledger, balanced, isRoots, page⟩ := state.ledger
  have kernelHalf : kernelPdiStart ≤ windowPage started.machine / 1024 := by
    rw [state.window]
    decide
  rw [← numberedMachine] at balanced kernelHalf
  have places : ∀ ptr heap, HeapModel.heapAlloc numbered.machine.kernelHeap 1 = .ok (ptr, heap) →
      ptr % 4096 = 0 ∧ HomePage (ptr / 4096) := by
    intro ptr heap found
    have same := (kernel_alloc_objects taking).2.2.symm.trans found
    simp only [Except.ok.injEq, Prod.mk.injEq] at same
    exact same.1 ▸ ⟨by decide, .inr (.inr rfl)⟩
  obtain ⟨⟨root, machine⟩, making⟩ := new_page_dir_returns balanced places taking freeing
  obtain ⟨_, _, _, _, after, _, _, _, held, made⟩ := new_page_dir_ok balanced kernelHalf places making
  obtain ⟨sameTree, sameDirs, _⟩ := new_page_dir_objects making
  have sameTree' : machine.processTree = created.machine.processTree := by
    rw [sameTree, numberedMachine, createdMachine]
  have registering := register_returns creating numbering making (sameTree' ▸ inserting)
  obtain ⟨last, isLast⟩ : ∃ last : Machine, last = { machine with
      pageDirPaddr := Function.update machine.pageDirPaddr 0xC0002020 root
      processTree := tree } := ⟨_, rfl⟩
  rw [← isLast] at registering
  have paging : SamePaging machine last := by
    rw [isLast]
    exact ⟨rfl, rfl, rfl, rfl, rfl, rfl⟩
  have dirs : last.pageDirPaddr = Function.update started.machine.pageDirPaddr 0xC0002020 root := by
    rw [isLast, ← numberedMachine, ← sameDirs]
  have lastTree : last.processTree = tree := by rw [isLast]
  obtain ⟨frames, ready⟩ := state.ready
  obtain ⟨other, process, registered⟩ := register_sound ready registering
  obtain ⟨rest, restReady⟩ := registered.ready
  -- the directory is the new one, and the free frames are those of the account
  have isProcess : process = 0xC0002020 := by
    obtain ⟨found, finding, isFound⟩ := returns_with_iff.1 (of_decide_eq_true treePassed).2.1
    have isFound := of_decide_eq_true isFound
    rw [← lastTree] at finding
    have same := registered.found.symm.trans finding
    exact (Except.ok.inj same).trans isFound
  have isRoot : other = root := by
    have directory := registered.directory
    change last.pageDirPaddr process = other at directory
    rw [isProcess, dirs, Function.update_self] at directory
    exact directory.symm
  subst isRoot
  have isRest : rest = after.free := by
    have linked := restReady.sound.free.linked
    change Linked last.memory last.freeFramePaddr rest at linked
    rw [paging.memory, paging.top] at linked
    exact linked_unique restReady.sound.free.positive held.free.positive linked held.free.linked
  have three : after.free.length = 3 := by
    have usage := held.usage
    rw [(made.used _ _ taking).trans isUsed] at usage
    have total := held.accounts.length_eq
    simp only [List.length_append, List.length_map] at total
    change _ = 6 at total
    unfold u32 at usage
    omega
  have member : 0x401 ∈ after.pages := (made.pages _).2 page
  have present := page_present held member
  have madeCr3 := same_globals_cr3 made.globals
  have window := same_globals_window made.globals
  change machine.cr3 = numbered.machine.cr3 at madeCr3
  rw [numberedMachine, state.cr3] at madeCr3
  refine ⟨numbered.onMachine last, other, registering, ⟨rest, restReady, isRest ▸ three⟩, ?_, ?_, ?_, ?_,
    registered.positive, ?_, ?_, registered.empty, ?_⟩
  · change Present (pageEntry last.memory 0x10000 0x401)
    rw [paging.memory, ← madeCr3]
    exact present
  · exact paging.cr3.trans madeCr3
  · change windowPage last = _
    rw [windowPage, paging.head]
    change windowPage machine = windowPage numbered.machine at window
    exact window.trans ((congrArg windowPage numberedMachine).trans state.window)
  · exact fun same => registered.fresh (same ▸ List.mem_singleton_self _)
  · change last.pageDirPaddr 0xC0002000 = _
    rw [dirs, Function.update_of_ne (by decide)]
    exact isFirst
  · change last.pageDirPaddr 0xC0002020 = _
    rw [dirs, Function.update_self]
  · change homeTreeChecks last.processTree = true
    rw [lastTree]
    exact treePassed

/-- The first process gives its page to the second. -/
theorem home_transfers {started registered : System} {root : Nat} (state : HomeRegistered started registered root) :
    ∃ used, spaceStep registered.machine (.transfer 0x401000 0x402000 0x20001 1) = .ok (⟨0, 0⟩, used) ∧
      Present (directoryEntry used.memory root 1) := by
  obtain ⟨rest, ready, three⟩ := state.ready
  obtain ⟨firstPassed, secondPassed, _⟩ := of_decide_eq_true state.tree
  obtain ⟨first, findingFirst, isFirst⟩ := returns_with_iff.1 firstPassed
  obtain ⟨second, findingSecond, isSecond⟩ := returns_with_iff.1 secondPassed
  have isFirst := of_decide_eq_true isFirst
  have isSecond := of_decide_eq_true isSecond
  subst isFirst isSecond
  have sourceMember : 0x10000 ∈ [root, 0x10000] := by simp
  have window := state.window
  have sourcePage : pageOf 0x401000 0 = 0x401 := by decide
  have destinationPage : pageOf 0x402000 0 = 0x402 := by decide
  have empty : ¬ Present (directoryEntry registered.machine.memory root (pageOf 0x402000 0 / 1024)) := by
    rw [destinationPage, state.empty _ ⟨by decide, by decide⟩]
    exact not_present_zero
  cases rest with
  | nil => cases three
  | cons frame rest =>
      obtain ⟨used, returned⟩ := @transfer_one_returns registered.machine [root, 0x10000] ⟨0x10000, 0x401000⟩
        ⟨root, 0x402000⟩ frame rest ready.sound.spaces ready.sound.free sourceMember List.mem_cons_self
        (by decide) (by rw [window]; decide) (show pageOf 0x402000 0 < 1047552 by decide)
        (show pageOf 0x402000 0 ≠ windowPage registered.machine by rw [window]; decide) state.page empty
      have completed : syscallVirtTransfer registered.machine 0x401000 0x402000 0x20001 1 =
          .ok (⟨0, 0⟩, used) := by
        have sourceAid : 0x20001 &&& 0xFFFF = 1 := by decide
        have destinationAid : (0x20001 >>> 16) &&& 0xFFFF = 2 := by decide
        rw [syscallVirtTransfer, if_neg (by decide), sourceAid, destinationAid, findingFirst, Trap.ok_bind,
          findingSecond, Trap.ok_bind, if_neg (by decide), state.first, state.second]
        exact returned
      refine ⟨used, completed, ?_⟩
      have only : ∀ {j : Nat}, j < 1 → j = 0 := fun small => by omega
      have destinationRoot : spaceOf registered.machine ((0x20001 >>> 16) &&& 0xFFFF) = root := by
        have found : getProcess registered.machine.processTree ((0x20001 >>> 16) &&& 0xFFFF) =
            .ok 0xC0002020 := findingSecond
        rw [spaceOf, found]
        exact state.second
      rcases virt_transfer_ok (frame :: rest) ready.sound.spaces ready.processes rfl rfl
        (fun _ i small => by rw [only small]; exact (by decide : pageOf 0x401000 0 < 1047552)) completed with
        ⟨_, refused, _⟩ | ⟨accepted, _, sourceIn, destinationIn, taken, put, halves⟩
      · exact absurd rfl refused
      · have carried := transfer_carried ready.sound.spaces ready.sound.free sourceIn destinationIn
          (by decide) (fun j small => by rw [only small]; exact (by decide : pageOf 0x402000 0 < 1047552))
          accepted.transferable (by
            rintro ⟨j, small, same⟩
            rw [only small, window] at same
            exact absurd (same.trans destinationPage) (by decide)) halves
        rcases carried.pages 0x402 (by decide) with moved | ⟨isWindow, _⟩
        · have arrived := moved.arrived _ destinationIn 0 (by decide) destinationPage.symm (.inl rfl)
          have there := accepted.transferable.mapped 0 (by decide)
          rw [← arrived] at there
          have table := page_entry_present there
          rw [← destinationRoot]
          exact table
        · rw [window] at isWindow
          exact absurd isWindow (by decide)

/-- After plain calls the second process can be deleted. -/
theorem home_deletes {started registered : System} {root : Nat} {used : Machine} {rest left : List Nat}
    (state : HomeRegistered started registered root)
    (steady : Steady registered.machine used [root, 0x10000] rest left) :
    ∃ result final, syscallDeleteProcess (registered.onMachine used) 0x20000 = .ok (result, final) := by
  obtain ⟨_, secondPassed, removePassed⟩ := of_decide_eq_true state.tree
  obtain ⟨process, finding, isProcess⟩ := returns_with_iff.1 secondPassed
  have isProcess := of_decide_eq_true isProcess
  subst isProcess
  obtain ⟨removed, removing, _⟩ := returns_with_iff.1 removePassed
  have globals := steady.globals
  have sameTree : used.processTree = registered.machine.processTree := by rw [globals]
  have sameDirs : used.pageDirPaddr = registered.machine.pageDirPaddr := by rw [globals]
  have isAid : getPidAid 0x20000 = 2 := by decide
  have current : used.cr3 ∈ [0x10000] := by
    rw [steady_cr3 steady, state.cr3]
    exact List.mem_singleton_self _
  refine delete_returns steady.spaces steady.free current
    (fun same => state.differ (List.mem_singleton.1 same)) state.positive ?_
    (show 0xC0002020 ≠ 0 by decide) ?_ (sameTree ▸ removing)
  · rw [sameTree, isAid]
    exact finding
  · rw [sameDirs]
    exact state.second

theorem home_space {started registered : System} {root : Nat} (state : HomeRegistered started registered root) :
    spaceOf registered.machine (getPidAid 0x20000) = root := by
  obtain ⟨_, secondPassed, _⟩ := of_decide_eq_true state.tree
  obtain ⟨process, finding, isProcess⟩ := returns_with_iff.1 secondPassed
  have isProcess := of_decide_eq_true isProcess
  subst isProcess
  have isAid : getPidAid 0x20000 = 2 := by decide
  rw [isAid, spaceOf, finding]
  exact state.second

/-- A process that got nothing gives everything back: the call that would have given it pages is too
large. -/
theorem gives_back_empty : ∃ started registered used final,
    Life started registered [.transfer 0x401000 0x402000 0x20001 2049] 0x20000 used final ∧
      GivesBack used final.machine (spaceOf registered.machine (getPidAid 0x20000)) := by
  obtain ⟨started, first⟩ := home_started_sound
  obtain ⟨registered, root, second⟩ := home_registered first
  obtain ⟨rest, ready, _⟩ := second.ready
  obtain ⟨frames, startedReady⟩ := first.ready
  have refused : spaceStep registered.machine (.transfer 0x401000 0x402000 0x20001 2049) =
      .ok (⟨0, virtTransferTooLarge⟩, registered.machine) := by
    rw [spaceStep, syscallVirtTransfer, if_pos (by decide), Trap.pure_ok]
  have ended : run spaceStep registered.machine [] = .ok ([], registered.machine) := rfl
  obtain ⟨result, final, deleted⟩ := home_deletes second (steady_refl ready.sound.spaces ready.sound.free)
  have life : Life started registered [.transfer 0x401000 0x402000 0x20001 2049] 0x20000 registered.machine final :=
    ⟨second.registering, ⟨_, run_cons_of_step refused ended⟩, result, deleted⟩
  have plain : ∀ roots, PlainCall roots registered.machine (.transfer 0x401000 0x402000 0x20001 2049) := by
    intro roots
    have window := second.window
    constructor <;> intro i small <;> rw [window]
    · unfold pageOf
      omega
    · unfold pageOf
      omega
  refine ⟨started, registered, registered.machine, final, life,
    (gives_back_iff startedReady life (allowed_cons_of_step (plain _) refused trivial)).2 ?_⟩
  intro index inside
  rw [home_space second, second.empty index inside]
  exact not_present_zero

/-- A process that is given one page leaves its page table behind. -/
theorem gives_back_leaks : ¬ ∀ (system registered final : System) (calls : List SpaceCall) (used : Machine)
    (pid : Nat) (roots frames : List Nat), Ready system roots frames →
      Life system registered calls pid used final →
        Allowed spaceStep (PlainCall (spaceOf registered.machine (getPidAid pid) :: roots))
          registered.machine calls →
          GivesBack used final.machine (spaceOf registered.machine (getPidAid pid)) := by
  intro always
  obtain ⟨started, first⟩ := home_started_sound
  obtain ⟨registered, root, second⟩ := home_registered first
  obtain ⟨used, moving, table⟩ := home_transfers second
  obtain ⟨rest, ready, _⟩ := second.ready
  obtain ⟨frames, startedReady⟩ := first.ready
  have plain : ∀ roots, PlainCall roots registered.machine (.transfer 0x401000 0x402000 0x20001 1) := by
    intro roots
    have window := second.window
    constructor <;> intro i small <;> rw [window]
    · unfold pageOf
      omega
    · unfold pageOf
      omega
  obtain ⟨between, steady⟩ :=
    space_step_steady ready.sound.spaces ready.sound.free ready.processes (plain _) moving
  obtain ⟨result, final, deleted⟩ := home_deletes second steady
  have ended : run spaceStep used [] = .ok ([], used) := rfl
  have life : Life started registered [.transfer 0x401000 0x402000 0x20001 1] 0x20000 used final :=
    ⟨second.registering, ⟨_, run_cons_of_step moving ended⟩, result, deleted⟩
  have legal : ∀ roots, Allowed spaceStep (PlainCall roots) registered.machine
      [.transfer 0x401000 0x402000 0x20001 1] :=
    fun roots => allowed_cons_of_step (plain roots) moving trivial
  have gives := always started registered final _ used 0x20000 [0x10000] frames startedReady life (legal _)
  obtain ⟨left, other, state⟩ := life_ended startedReady life (legal _)
  have isRoot : other = root := state.space.symm.trans (home_space second)
  subst isRoot
  rw [state.space] at gives
  exact table_not_given_back state ⟨by decide, by decide⟩ table gives

end Home

end ParadiseOS.ProcessCycles
