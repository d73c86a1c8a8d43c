import ParadiseOS.ProcessSpaces
import ParadiseOS.RunQueue

/-!
# Processes apart from each other

Programs are started, the timer takes turns among them, and in user mode they write to
their memory. Whatever the others do, a process finds its address space and its
registers as it left them.
-/

namespace ParadiseOS.Isolation

open FrameSteps MachineWord MemModel PagingModel PagingSteps ProcessModel ProcessTable
open KernelPages LinkedChain LoadedPrograms NewSpaces ProcessSpaces ProgramLayout ProgramLoading RunQueue TwoLevelPaging
open VirtRanges
open RbTreeRuns (Dictionary rbNodeOffset)

set_option autoImplicit false

section Moves

/-- What happens to the system: a program is started, the kernel enters the first process, the
timer stops the current process, or the process stores a byte. -/
inductive Move where
  | exec (entry : SunEntry) (arg : Nat)
  | schedule
  | preempt (context : Context)
  | store (vaddr : Nat) (byte : UInt8)

/-- A move, and what the processor goes on with if it enters a process. -/
def move (system : System) : Move → Except Trap (Option Context × System)
  | .exec entry arg => do
      let system ← execSun system (some entry) arg
      pure (none, system)
  | .schedule => do
      let (_, system) ← schedule system
      let context ← restoreContext system.machine
      pure (some context, system)
  | .preempt context => do
      let (_, system) ← preempt system true context
      let context ← restoreContext system.machine
      pure (some context, system)
  | .store vaddr byte => do
      let machine ← userStore system.machine vaddr byte
      pure (none, system.onMachine machine)

/-- Programs fit below the stack, `kernel_main` enters the first process, and the timer stops what
the processor can run. User mode stores in its own half. -/
def LegalMove (system : System) : Move → Prop
  | .exec entry arg => FitsBelowStack entry ∧ NearSections entry ∧ StartWords entry arg
  | .schedule => system.current = 0
  | .preempt context => system.current ≠ 0 ∧ LegalContext context
  | .store vaddr _ => system.current ≠ 0 ∧ UserPage (vaddr / 4096)

end Moves

section Starting

variable {system next : System} {dict : Dictionary} {slots : List Nat} {live : List ColouredLine.Block}
  {entry : SunEntry} {arg : Nat}

/-- What `exec_sun` does: it makes the address space, takes a slot and writes the directory to it. -/
structure Launched (system next : System) (entry : SunEntry) (arg root process : Nat) (made : Machine)
    (numbered created : System) : Prop where
  space : makeSpace system.machine entry arg = .ok (root, made)
  counted : numbered.machine = made
  creating : poolCreate numbered = .ok (process, created)
  started : next.started = process :: created.started
  paging : SamePaging created.machine next.machine
  heap : next.machine.kernelHeap = created.machine.kernelHeap
  directory : next.machine.pageDirPaddr process = root
  others : ∀ other ∈ system.occupied, other ≠ process →
    next.machine.pageDirPaddr other = system.machine.pageDirPaddr other

theorem exec_sun_launched (accounted : Accounted system dict slots live)
    (completed : execSun system (some entry) arg = .ok next) :
    ∃ root process made numbered created, Launched system next entry arg root process made numbered created := by
  obtain ⟨_, _, completed⟩ := Trap.bind_eq_ok.mp completed
  obtain ⟨⟨root, made⟩, spaced, completed⟩ := Trap.bind_eq_ok.mp completed
  obtain ⟨⟨pid, numbered⟩, searched, completed⟩ := Trap.bind_eq_ok.mp completed
  obtain ⟨⟨process, created⟩, creating, completed⟩ := Trap.bind_eq_ok.mp completed
  obtain ⟨middle, inserting, completed⟩ := Trap.bind_eq_ok.mp completed
  obtain ⟨⟨isNew, tree⟩, inserted, inserting⟩ := Trap.bind_eq_ok.mp inserting
  simp only [Trap.pure_ok, Except.ok.injEq] at completed inserting
  obtain ⟨opened, opening, objects⟩ := ProcessFrames.make_space_objects spaced
  have afterSpace : Accounted (system.onMachine made) dict slots live :=
    accounted_same (accounted_new_page_dir accounted opening) ⟨objects.processTree, objects.pageDirPaddr, rfl, rfl, id⟩
      objects.kernelHeap
  obtain ⟨_, _, _, afterAid, isNumbered⟩ := next_free_aid_ok afterSpace searched
  have machine : numbered.machine = made := by
    rw [isNumbered]
    rfl
  have occupied : numbered.occupied = system.occupied := by
    rw [isNumbered]
    rfl
  have isMachine : next.machine = { created.machine with
      pageDirPaddr := Function.update created.machine.pageDirPaddr process root
      processTree := tree } := by
    rw [← completed, ← inserting]
    rfl
  refine ⟨root, process, made, numbered, created, spaced, machine, creating, ?_, ?_, ?_, ?_, ?_⟩
  · rw [← completed, ← inserting]
    rfl
  · rw [isMachine]
    exact ⟨rfl, rfl, rfl, rfl, rfl, rfl⟩
  · rw [isMachine]
  · rw [isMachine]
    exact Function.update_self _ _ _
  · intro other member differ
    have directories : made.pageDirPaddr = system.machine.pageDirPaddr :=
      objects.pageDirPaddr.trans (ProcessFrames.new_page_dir_objects opening).2.1
    rw [isMachine]
    change Function.update created.machine.pageDirPaddr process root other = _
    rw [Function.update_of_ne differ, pool_create_keeps afterAid (occupied.symm ▸ member) creating, machine, directories]

end Starting

section Machines

/-- The address spaces of the processes, each with its directory written in its control block. -/
structure Apart (machine : Machine) (registered : Nat → Prop) (roots frames : List Nat) : Prop where
  sound : Sound machine roots frames
  behind : HeapBehind machine
  spaces : ∀ process, registered process → Space machine roots frames (machine.pageDirPaddr process)
  named : ∀ process, registered process →
    pcbWord (switch machine (machine.pageDirPaddr process)) pcbPageDirPaddr = machine.pageDirPaddr process
  apart : ∀ process other, registered process → registered other → process ≠ other →
    SpacesApart machine (machine.pageDirPaddr process) (machine.pageDirPaddr other)

variable {machine next : Machine} {registered written : Nat → Prop} {roots frames more rest : List Nat}
  {process page : Nat}

/-- What a machine step must say for the processes to stay apart. -/
theorem apart_undisturbed (held : Apart machine registered roots frames) (sound : Sound next more rest)
    (behind : HeapBehind next) (undisturbed : Undisturbed written machine next roots frames more rest)
    (subset : roots ⊆ more)
    (directories : ∀ process, registered process → next.pageDirPaddr process = machine.pageDirPaddr process)
    (named : ∀ process, registered process →
      pcbWord (switch next (machine.pageDirPaddr process)) pcbPageDirPaddr =
        pcbWord (switch machine (machine.pageDirPaddr process)) pcbPageDirPaddr) :
    Apart next registered more rest where
  sound := sound
  behind := behind
  spaces process isProcess := by
    rw [directories process isProcess]
    exact space_undisturbed (held.spaces process isProcess) undisturbed subset
  named process isProcess := by
    rw [directories process isProcess, named process isProcess]
    exact held.named process isProcess
  apart process other isProcess isOther differ := by
    rw [directories process isProcess, directories other isOther]
    exact spaces_apart_undisturbed (held.apart process other isProcess isOther differ) undisturbed
      (held.spaces process isProcess).member (held.spaces other isOther).member

/-- Another directory is loaded. -/
theorem apart_switch (held : Apart machine registered roots frames) (isProcess : registered process) :
    Apart (switch machine (machine.pageDirPaddr process)) registered roots frames := by
  have space := held.spaces process isProcess
  have sound := held.sound
  have same : Undisturbed (fun _ => False) machine (switch machine (machine.pageDirPaddr process)) roots frames roots
      frames := undisturbed_same rfl
  refine apart_undisturbed held ?_ held.behind same (fun _ => id) (fun _ _ => rfl) fun _ _ => rfl
  exact ⟨spaces_switch sound.spaces space.member, free_list_switch sound.spaces sound.free space.member, space.low,
    sound.kernelHalf, sound.heapAligned, sound.heapHigh⟩

/-- The control block has its frame to itself. -/
theorem pcb_frame_apart {root : Nat} (space : Space machine roots frames root) (user : UserPage page)
    (differ : page ≠ pcbPage) (present : Present (pageEntry machine.memory root page)) :
    frameOf (pageEntry machine.memory root pcbPage) ≠ frameOf (pageEntry machine.memory root page) := by
  have ownPcb : OwnPage pcbPage := ⟨⟨by decide, by decide⟩, by decide⟩
  intro same
  by_cases second : page = linkedPage
  · rw [second, space.linked] at same present
    have equal := space.distinct pcbPage mailboxPage ownPcb ⟨⟨by decide, by decide⟩, by decide⟩ space.pcb present same
    exact absurd equal (by decide)
  · exact differ (space.distinct pcbPage page ownPcb ⟨user, second⟩ space.pcb present same).symm

/-- A process writes to one of its pages: pages with other frames, its own and those of the others,
are as they were. -/
theorem rewritten_same (held : Apart machine registered roots frames) (isProcess : registered process)
    (user : UserPage page) (present : Present (pageEntry machine.memory (machine.pageDirPaddr process) page))
    (rewritten : NewDirectory.Rewritten machine next
      (frameOf (pageEntry machine.memory (machine.pageDirPaddr process) page))) :
    (∀ other, registered other → other ≠ process → SameSpace machine next (machine.pageDirPaddr other)) ∧
      ∀ second, UserPage second → (Present (pageEntry machine.memory (machine.pageDirPaddr process) second) →
        frameOf (pageEntry machine.memory (machine.pageDirPaddr process) second) ≠
          frameOf (pageEntry machine.memory (machine.pageDirPaddr process) page)) →
        SamePage machine next (machine.pageDirPaddr process) second := by
  have space := held.spaces process isProcess
  obtain ⟨_, undisturbed⟩ := rewritten_undisturbed held.sound (space.frames page user present).2 rewritten
  constructor
  · intro other isOther differ
    apply same_space_of_undisturbed (held.spaces other isOther) undisturbed
    intro second userSecond there
    exact held.apart other process isOther isProcess differ second page userSecond user there present
  · exact fun second userSecond foreign => same_page_of_undisturbed space undisturbed userSecond foreign

theorem apart_rewritten (held : Apart machine registered roots frames) (isProcess : registered process)
    (user : UserPage page) (present : Present (pageEntry machine.memory (machine.pageDirPaddr process) page))
    (rewritten : NewDirectory.Rewritten machine next
      (frameOf (pageEntry machine.memory (machine.pageDirPaddr process) page)))
    (named : pcbWord (switch next (machine.pageDirPaddr process)) pcbPageDirPaddr =
      pcbWord (switch machine (machine.pageDirPaddr process)) pcbPageDirPaddr) :
    Apart next registered roots frames := by
  have unused := ((held.spaces process isProcess).frames page user present).2
  obtain ⟨sound, undisturbed⟩ := rewritten_undisturbed held.sound unused rewritten
  obtain ⟨others, _⟩ := rewritten_same held isProcess user present rewritten
  refine apart_undisturbed held sound ?_ undisturbed (fun _ => id) ?_ ?_
  · have behind := held.behind
    rw [rewritten.same]
    exact behind
  · intro other _
    rw [rewritten.same]
  · intro other isOther
    by_cases same : other = process
    · rw [same]
      exact named
    · exact pcb_word_same (held.spaces other isOther).pcb (others other isOther same _ ⟨by decide, by decide⟩)
        (by decide)

/-- The pages of a program that was just loaded. -/
theorem space_of_loaded {entry : SunEntry} {root arg : Nat} {made : Machine} (sound : Sound machine roots frames)
    (loaded : Loaded machine made roots frames rest entry root arg) : Space made (root :: roots) rest root := by
  have mapped := loaded.mapped
  have listed : pcbAllocation ∈ spaceAllocations entry := List.mem_append_right _ List.mem_cons_self
  have covers : pcbAllocation.Covers pcbPage := ⟨le_refl _, Nat.lt_succ_self _⟩
  refine ⟨List.mem_cons_self, mapped.low, ?_, ?_, ?_, ?_, mapped.distinct, mapped.linked⟩
  · intro index low high present
    have start : kernelPdiStart = 768 := rfl
    have quotient : index * 1024 / 1024 = index := Nat.mul_div_cancel _ (by decide)
    have tables := mapped.tables (index * 1024) ⟨by omega, by omega⟩
    rw [quotient] at tables
    exact tables present
  · exact (mapped.pages pcbPage ⟨by decide, by decide⟩).2 (.inr ⟨_, listed, covers⟩)
  · have flags := mapped.flags _ listed pcbPage covers
    have isFlags : pcbAllocation.flags ||| 1 = 3 := by decide
    rw [get_flags_mod, isFlags] at flags
    unfold UserMode
    omega
  · intro page user present
    obtain ⟨free, unused⟩ := loaded.taken page user present
    exact ⟨sound.free.positive _ free, unused⟩

/-- A new program names its directory, and what it takes was nobody's. -/
theorem loaded_apart {entry : SunEntry} {root arg : Nat} {made : Machine} (held : Apart machine registered roots frames)
    (loaded : Loaded machine made roots frames rest entry root arg) :
    pcbWord (switch made root) pcbPageDirPaddr = root ∧
      ∀ other, registered other → SpacesApart made root (machine.pageDirPaddr other) := by
  have space := space_of_loaded held.sound loaded
  constructor
  · obtain ⟨start, first, ledger, growing, member, _⟩ := space_growing loaded.sound space
    have field : (pcbPageDirPaddr, root) ∈ initialFields entry root arg := by
      simp only [initialFields, pcbFields, List.cons_append, List.mem_cons, true_or, or_true]
    have loads := loaded.started.fields _ field
    dsimp only at loads
    rw [load_pcb_ok growing member (by decide), Except.ok.injEq] at loads
    exact loads
  · intro other isOther page second user userSecond present there same
    have old := held.spaces other isOther
    rw [loaded.others.entries _ old.member second userSecond] at there same
    obtain ⟨free, _⟩ := loaded.taken page user present
    exact (old.frames second userSecond there).2 (same ▸ .inr (.inr free))

theorem spaces_apart_symm {root other : Nat} (apart : SpacesApart machine root other) :
    SpacesApart machine other root :=
  fun page second user userSecond present there same => apart second page userSecond user there present same.symm

/-- The processes stay apart when one more is registered. -/
theorem apart_register {wider : Nat → Prop} (held : Apart machine registered roots frames)
    (space : Space machine roots frames (machine.pageDirPaddr process))
    (named : pcbWord (switch machine (machine.pageDirPaddr process)) pcbPageDirPaddr = machine.pageDirPaddr process)
    (apart : ∀ other, registered other →
      SpacesApart machine (machine.pageDirPaddr process) (machine.pageDirPaddr other))
    (only : ∀ other, wider other → other = process ∨ registered other) : Apart machine wider roots frames where
  sound := held.sound
  behind := held.behind
  spaces other isOther := (only other isOther).elim (fun same => same ▸ space) (held.spaces other)
  named other isOther := (only other isOther).elim (fun same => same ▸ named) (held.named other)
  apart other second isOther isSecond differ := by
    rcases only other isOther with isNew | old
    · rcases only second isSecond with same | oldSecond
      · exact absurd (isNew.trans same.symm) differ
      · rw [isNew]
        exact apart second oldSecond
    · rcases only second isSecond with isNew | oldSecond
      · rw [isNew]
        exact spaces_apart_symm (apart other old)
      · exact held.apart other second old oldSecond differ

end Machines

section Entering

variable {system next : System} {registered : Nat → Prop} {roots frames nodes : List Nat} {process : Nat}

/-- The first process of the queue is taken off it. -/
theorem run_queue_first (chain : Chain 0 system.next system.runQueue.head ((process + queueNodeOffset) :: nodes))
    (tail : system.runQueue.tail = ((process + queueNodeOffset) :: nodes).getLastD 0)
    (word : process + queueNodeOffset < 4294967296) :
    (runQueueNext system).1 = process ∧
      Chain 0 (runQueueNext system).2.next (runQueueNext system).2.runQueue.head nodes := by
  obtain ⟨isFirst, rest, _⟩ := queue_poll_chain chain tail
  refine ⟨?_, rest⟩
  change (if (queuePoll system).1 ≠ 0 then sub32 (queuePoll system).1 queueNodeOffset else 0) = process
  rw [isFirst, if_pos chain.2.1, sub32_of_le (by unfold queueNodeOffset; omega) word, Nat.add_sub_cancel]

/-- `schedule` enters the first process of the queue. -/
theorem schedule_enters {context : Nat × Nat} (current : system.machine.currentPageDir = system.machine.cr3)
    (chain : Chain 0 system.next system.runQueue.head ((process + queueNodeOffset) :: nodes))
    (tail : system.runQueue.tail = ((process + queueNodeOffset) :: nodes).getLastD 0)
    (word : process + queueNodeOffset < 4294967296) (completed : schedule system = .ok (context, next)) :
    next.current = process ∧ next.machine = switch system.machine (system.machine.pageDirPaddr process) ∧
      Chain 0 next.next next.runQueue.head nodes := by
  obtain ⟨isFirst, rest⟩ := run_queue_first chain tail word
  obtain ⟨_, rfl⟩ := schedule_cases completed
  refine ⟨isFirst, ?_, rest⟩
  rw [(run_queue_next_table system).2, isFirst, set_page_dir_ok current]

/-- The assertions of `schedule` hold. -/
theorem schedule_returns (held : Apart system.machine registered roots frames) (isProcess : registered process)
    (chain : Chain 0 system.next system.runQueue.head ((process + queueNodeOffset) :: nodes))
    (tail : system.runQueue.tail = ((process + queueNodeOffset) :: nodes).getLastD 0)
    (word : process + queueNodeOffset < 4294967296) (notNull : process ≠ 0) :
    ∃ context next, schedule system = .ok (context, next) := by
  obtain ⟨isFirst, _⟩ := run_queue_first chain tail word
  have machine := (run_queue_next_table system).2
  have current := held.sound.spaces.current
  obtain ⟨start, first, ledger, growing, member, _⟩ :=
    space_growing held.sound (held.spaces process isProcess)
  have named := held.named process isProcess
  have loads := fun offset => @load_pcb_ok start _ first ledger _ growing member offset
  rw [schedule]
  dsimp only
  rw [isFirst, Trap.kernel_assert_of notNull, Trap.ok_bind, machine, set_page_dir_ok current, loads _ (by decide),
    Trap.ok_bind, Trap.kernel_assert_of named, Trap.ok_bind, resume, jumpUsermode]
  dsimp only
  rw [loads _ (by decide), Trap.ok_bind, loads _ (by decide), Trap.ok_bind, loads _ (by decide), Trap.ok_bind]
  exact ⟨_, _, rfl⟩

end Entering

section Systems

def IsProcess (dict : Dictionary) (process : Nat) : Prop := ∃ key, dict key = some (process + rbNodeOffset)

/-- The processes of the dictionary are apart from each other. `nodes` wait in the run queue. -/
structure Isolated (system : System) (dict : Dictionary) (nodes roots frames : List Nat) : Prop where
  apart : Apart system.machine (IsProcess dict) roots frames
  table : ∃ slots live, Accounted system dict slots live ∧ Scheduled system dict slots nodes
  current : system.current = 0 ∨ IsProcess dict system.current ∧
    system.machine.cr3 = system.machine.pageDirPaddr system.current

/-- A step leaves the processes where they are, and the memory of those that do not run. -/
structure Moved (system next : System) (dict after : Dictionary) : Prop where
  registered : ∀ process, IsProcess dict process → IsProcess after process
  directories : ∀ process, IsProcess dict process →
    next.machine.pageDirPaddr process = system.machine.pageDirPaddr process
  spaces : ∀ process, IsProcess dict process → process ≠ system.current →
    SameSpace system.machine next.machine (system.machine.pageDirPaddr process)

variable {system next : System} {dict : Dictionary} {nodes roots frames slots : List Nat}
  {live : List ColouredLine.Block} {process : Nat} {context : Context}

theorem process_bounds (accounted : Accounted system dict slots live) (isProcess : IsProcess dict process) :
    process ≠ 0 ∧ process + queueNodeOffset < 4294967296 ∧ process ∈ system.occupied := by
  obtain ⟨key, found⟩ := isProcess
  obtain ⟨_, _, other, occupied, same⟩ := accounted.keys key _ found
  have equal : process = other := by omega
  rw [← equal] at occupied
  have bounds := on_page_bounds accounted.invariant accounted.room (accounted.usedOnPage process occupied)
  have behind := accounted.behind
  unfold queueNodeOffset
  exact ⟨by omega, by omega, occupied⟩

/-- User mode writes to pages of the current process only. -/
theorem store_isolated {vaddr : Nat} {byte : UInt8} {machine : Machine}
    (held : Isolated system dict nodes roots frames) (running : system.current ≠ 0) (user : UserPage (vaddr / 4096))
    (stored : userStore system.machine vaddr byte = .ok machine) :
    Isolated (system.onMachine machine) dict nodes roots frames ∧
      Moved system (system.onMachine machine) dict dict := by
  obtain ⟨isProcess, cr3⟩ := held.current.resolve_left running
  obtain ⟨slots, live, accounted, scheduled⟩ := held.table
  have space := held.apart.spaces _ isProcess
  have isPcb : UserPage pcbPage := ⟨by decide, by decide⟩
  obtain ⟨⟨present, userMode⟩, rewritten⟩ := user_store_rewritten stored
  rw [cr3] at present userMode rewritten
  have differ : vaddr / 4096 ≠ pcbPage := fun same => space.kernelOnly (same ▸ userMode)
  obtain ⟨others, own⟩ := rewritten_same held.apart isProcess user present rewritten
  have pcb := own pcbPage isPcb fun _ => pcb_frame_apart space user differ present
  have apart := apart_rewritten held.apart isProcess user present rewritten
    (pcb_word_same space.pcb pcb (by decide))
  have objects : machine.processTree = system.machine.processTree ∧
      machine.pageDirPaddr = system.machine.pageDirPaddr ∧ machine.kernelHeap = system.machine.kernelHeap ∧
      machine.cr3 = system.machine.cr3 := by
    rw [rewritten.same]
    exact ⟨rfl, rfl, rfl, rfl⟩
  obtain ⟨tree, directories, heap, sameCr3⟩ := objects
  refine ⟨⟨apart, ⟨slots, live, ?_, ?_⟩, .inr ⟨isProcess, ?_⟩⟩, ?_, ?_, others⟩
  · exact accounted_same accounted ⟨tree, directories, rfl, rfl, id⟩ heap
  · exact ⟨scheduled.chain, scheduled.tail, scheduled.count, scheduled.registered, scheduled.placed,
      scheduled.apart, scheduled.started⟩
  · change machine.cr3 = machine.pageDirPaddr system.current
    rw [sameCr3, directories, cr3]
  · exact fun _ there => there
  · exact fun other _ => congrFun directories other

/-- The kernel enters its first process. -/
theorem schedule_isolated (held : Isolated system dict nodes roots frames) (idle : system.current = 0)
    {entered : Nat × Nat} (completed : schedule system = .ok (entered, next)) :
    ∃ left, Isolated next dict left roots frames ∧ Moved system next dict dict ∧
      nodes = (next.current + queueNodeOffset) :: left ∧ IsProcess dict next.current := by
  obtain ⟨slots, live, accounted, scheduled⟩ := held.table
  have fresh : system.current ∉ system.started := by
    intro started
    have occupied := (scheduled.started _ started).1
    have bounds := on_page_bounds accounted.invariant accounted.room (accounted.usedOnPage _ occupied)
    have behind := accounted.behind
    omega
  obtain ⟨left, after⟩ := idle_scheduled accounted scheduled fresh completed
  have kept := schedule_accounted accounted completed
  cases nodes with
  | nil =>
      obtain ⟨found, _⟩ := schedule_cases completed
      rw [runQueueNext, queue_poll_empty scheduled.chain] at found
      exact absurd rfl found
  | cons first nodes =>
      obtain ⟨process, key, found, rfl⟩ := scheduled.registered first List.mem_cons_self
      have isProcess : IsProcess dict process := ⟨key, found⟩
      obtain ⟨_, word, _⟩ := process_bounds accounted isProcess
      obtain ⟨isCurrent, isMachine, rest⟩ := schedule_enters held.apart.sound.spaces.current scheduled.chain
        scheduled.tail word completed
      rw [chain_unique after.chain rest] at after
      have apart := apart_switch held.apart isProcess
      rw [← isMachine] at apart
      refine ⟨nodes, ⟨apart, ⟨slots, live, kept, after⟩, .inr ⟨isCurrent ▸ isProcess, ?_⟩⟩, ⟨fun _ there => there, ?_, ?_⟩,
        by rw [isCurrent], isCurrent ▸ isProcess⟩
      · rw [isMachine, isCurrent]
        rfl
      · intro other _
        rw [isMachine]
        rfl
      · intro other _ _
        rw [isMachine]
        exact same_space_refl _ _

/-- The stopped process has its context in its control block, and its other pages as they were. -/
structure Stopped (system next : System) (context : Context) : Prop where
  context : pcbContext (switch next.machine (system.machine.pageDirPaddr system.current)) = resumed context
  pages : ∀ page, UserPage page → page ≠ pcbPage →
    SamePage system.machine next.machine (system.machine.pageDirPaddr system.current) page

/-- Saving the context of the current process. -/
theorem save_isolated (held : Isolated system dict nodes roots frames) (running : system.current ≠ 0)
    (legal : LegalContext context) : ∃ machine, saveContext system.machine context = .ok machine ∧
      loadPcb system.machine pcbPageDirPaddr = .ok (system.machine.pageDirPaddr system.current) ∧
      Apart machine (IsProcess dict) roots frames ∧ machine = { system.machine with memory := machine.memory } ∧
      Moved system (system.onMachine machine) dict dict ∧ Stopped system (system.onMachine machine) context := by
  obtain ⟨isProcess, cr3⟩ := held.current.resolve_left running
  have space := held.apart.spaces _ isProcess
  have self : switch system.machine (system.machine.pageDirPaddr system.current) = system.machine := by
    rw [← cr3]
    exact switch_self held.apart.sound.spaces.current
  obtain ⟨start, first, ledger, growing, member, _⟩ := space_growing held.apart.sound space
  rw [self] at growing
  obtain ⟨machine, saved, rewritten, context, word⟩ := save_context_ok growing member legal
  have again : switch machine (system.machine.pageDirPaddr system.current) = machine := by
    have same : machine.cr3 = system.machine.pageDirPaddr system.current := by
      rw [rewritten.same]
      exact cr3
    have current : machine.currentPageDir = machine.cr3 := by
      rw [rewritten.same]
      exact held.apart.sound.spaces.current
    rw [← same]
    exact switch_self current
  have isPcb : UserPage pcbPage := ⟨by decide, by decide⟩
  rw [FrameSteps.backingFrame, cr3] at rewritten
  obtain ⟨others, own⟩ := rewritten_same held.apart isProcess isPcb space.pcb rewritten
  have apart := apart_rewritten held.apart isProcess isPcb space.pcb rewritten (by rw [again, self, word])
  have named := held.apart.named _ isProcess
  rw [self] at named
  refine ⟨machine, saved, ?_, apart, rewritten.same, ⟨fun _ there => there, fun other _ => ?_, others⟩, ?_, ?_⟩
  · rw [load_pcb_ok growing member (by decide), named]
  · change machine.pageDirPaddr other = _
    rw [rewritten.same]
  · change pcbContext (switch machine _) = _
    rw [again]
    exact context
  · exact fun page user differ => own page user fun present => (pcb_frame_apart space user differ present).symm

/-- The timer stops the current process and enters the next one. No assertion fails. -/
theorem preempt_isolated (held : Isolated system dict nodes roots frames) (running : system.current ≠ 0)
    (legal : LegalContext context) :
    ∃ entered next left, preempt system true context = .ok (some entered, next) ∧
      Isolated next dict left roots frames ∧ Moved system next dict dict ∧ Stopped system next context ∧
      nodes ++ [system.current + queueNodeOffset] = (next.current + queueNodeOffset) :: left ∧
      IsProcess dict next.current := by
  obtain ⟨slots, live, accounted, scheduled⟩ := held.table
  obtain ⟨isProcess, cr3⟩ := held.current.resolve_left running
  obtain ⟨notNull, word, _⟩ := process_bounds accounted isProcess
  obtain ⟨machine, saved, own, apart, same, moved, stopped⟩ := save_isolated held running legal
  have directories : machine.pageDirPaddr = system.machine.pageDirPaddr := by rw [same]
  have positive : system.current + queueNodeOffset ≠ 0 := by
    unfold queueNodeOffset
    omega
  have chain := @queue_add_chain (system.onMachine machine) nodes _ scheduled.chain scheduled.tail
    positive scheduled.apart
  have tail := @queue_add_tail (system.onMachine machine) (system.current + queueNodeOffset) nodes
  obtain ⟨process, left, first, isFirst⟩ : ∃ process left,
      nodes ++ [system.current + queueNodeOffset] = (process + queueNodeOffset) :: left ∧
        IsProcess dict process := by
    cases nodes with
    | nil => exact ⟨system.current, [], rfl, isProcess⟩
    | cons first nodes =>
        obtain ⟨process, key, found, rfl⟩ := scheduled.registered first List.mem_cons_self
        exact ⟨process, _, rfl, key, found⟩
  obtain ⟨firstNotNull, firstWord, _⟩ := process_bounds accounted isFirst
  rw [first] at chain tail
  obtain ⟨entered, next, entering⟩ := @schedule_returns (queueAdd (system.onMachine machine) _) _ _ _ _ _ apart
    isFirst chain tail firstWord firstNotNull
  obtain ⟨isCurrent, isMachine, rest⟩ := @schedule_enters (queueAdd (system.onMachine machine) _) _ _ _ _
    apart.sound.spaces.current chain tail firstWord entering
  have completed : preempt system true context = .ok (some entered, next) := by
    rw [preempt, if_pos rfl, own, Trap.ok_bind, Trap.kernel_assert_of rfl, Trap.ok_bind, saved, Trap.ok_bind,
      u32_of_lt word]
    dsimp only
    rw [entering]
    rfl
  obtain ⟨key, found⟩ := isProcess
  obtain ⟨other, after⟩ := preempt_scheduled accounted scheduled
    (.inr ((RbTreeRuns.related_reachable accounted.related).2 ⟨key, found⟩)) completed
  have kept := preempt_accounted accounted completed
  rw [chain_unique after.chain rest] at after
  have entersApart := apart_switch apart isFirst
  have nextMachine : next.machine = switch machine (machine.pageDirPaddr process) := isMachine
  rw [← nextMachine] at entersApart
  refine ⟨entered, next, left, completed, ⟨entersApart, ⟨slots, live, kept, after⟩, .inr ⟨isCurrent ▸ isFirst, ?_⟩⟩,
    ⟨fun _ there => there, ?_, ?_⟩, ⟨?_, ?_⟩, by rw [isCurrent, first], isCurrent ▸ isFirst⟩
  · rw [nextMachine, isCurrent]
    rfl
  · intro other isOther
    rw [nextMachine]
    exact moved.directories other isOther
  · intro other isOther differ
    rw [nextMachine]
    exact moved.spaces other isOther differ
  · rw [nextMachine]
    exact stopped.context
  · rw [nextMachine]
    exact stopped.pages

/-- The kernel's heap stays where it is when a program is loaded. -/
theorem loaded_behind {machine made : Machine} {registered : Nat → Prop} {entry : SunEntry} {arg root : Nat}
    {rest : List Nat} (held : Apart machine registered roots frames)
    (making : makeSpace machine entry arg = .ok (root, made))
    (loaded : Loaded machine made roots frames rest entry root arg) : HeapBehind made := by
  obtain ⟨opened, opening, objects⟩ := ProcessFrames.make_space_objects making
  obtain ⟨_, _, ptr, marked, freedCount, allocated, released⟩ := ProcessFrames.new_page_dir_objects opening
  have start : made.kernelHeap.heapStart = machine.kernelHeap.heapStart := by
    rw [objects.kernelHeap, (heap_free_place released).1, (heap_alloc_place (by decide) held.sound.heapHigh allocated).1]
  have window : windowPage made = windowPage machine := by
    rw [loaded.globals]
    rfl
  have before := held.behind
  unfold HeapBehind at before ⊢
  rw [window, start]
  exact before

/-- What `exec_sun` does to the machine: nobody is disturbed. -/
theorem launched_undisturbed {entry : SunEntry} {arg root : Nat} {made : Machine} {numbered created : System}
    {rest : List Nat} (held : Apart system.machine (IsProcess dict) roots frames)
    (launched : Launched system next entry arg root process made numbered created)
    (loaded : Loaded system.machine made roots frames rest entry root arg) :
    ∃ left, Sound next.machine (root :: roots) left ∧ HeapBehind next.machine ∧
      next.machine.cr3 = system.machine.cr3 ∧
      Undisturbed (fun _ => False) made next.machine (root :: roots) rest (root :: roots) left := by
  have cr3 : made.cr3 = system.machine.cr3 := by
    rw [loaded.globals]
  have behind := loaded_behind held launched.space loaded
  have counted := launched.counted
  obtain ⟨left, sound, stillBehind, sameCr3, undisturbed⟩ := @pool_create_undisturbed _ _ numbered created process
    (counted.symm ▸ loaded.sound) (counted.symm ▸ behind) launched.creating
  rw [counted] at sameCr3 undisturbed
  refine ⟨left, ProcessCycles.sound_same_paging sound launched.paging launched.heap, ?_, ?_,
    undisturbed_trans undisturbed (undisturbed_same launched.paging.memory) fun _ => id⟩
  · unfold HeapBehind at stillBehind ⊢
    unfold windowPage at stillBehind ⊢
    rw [launched.heap, launched.paging.head]
    exact stillBehind
  · rw [launched.paging.cr3, sameCr3, cr3]

theorem launched_apart {entry : SunEntry} {arg root : Nat} {made : Machine} {numbered created : System}
    (held : Apart system.machine (IsProcess dict) roots frames)
    (launched : Launched system next entry arg root process made numbered created)
    (fits : FitsBelowStack entry) (near : NearSections entry) (words : StartWords entry arg)
    (directories : ∀ old, IsProcess dict old →
      next.machine.pageDirPaddr old = system.machine.pageDirPaddr old)
    {wider : Nat → Prop} (only : ∀ old, wider old → old = process ∨ IsProcess dict old) :
    ∃ left, Apart next.machine wider (root :: roots) left ∧ next.machine.cr3 = system.machine.cr3 ∧
      (∀ old, IsProcess dict old → SameSpace system.machine next.machine (system.machine.pageDirPaddr old)) ∧
      ∃ rest, Loaded system.machine made roots frames rest entry root arg ∧ SameSpace made next.machine root := by
  obtain ⟨⟨dir, opened⟩, creating, _⟩ := Trap.bind_eq_ok.mp ((make_space_eq _ _ _).symm.trans launched.space)
  obtain ⟨again, rest, making, loaded⟩ := make_space_runs held.sound held.behind fits near words creating
    (.inr ⟨_, launched.space⟩)
  have equal := making.symm.trans launched.space
  simp only [Except.ok.injEq, Prod.mk.injEq] at equal
  rw [equal.1, equal.2] at loaded
  obtain ⟨left, sound, behind, cr3, undisturbed⟩ := launched_undisturbed held launched loaded
  have all := undisturbed_trans loaded.others undisturbed (List.subset_cons_self _ _)
  have isPcb : UserPage pcbPage := ⟨by decide, by decide⟩
  have spaces : ∀ old, IsProcess dict old →
      SameSpace system.machine next.machine (system.machine.pageDirPaddr old) := fun old there =>
    same_space_of_undisturbed (held.spaces old there) all fun _ _ _ => id
  have apart : Apart next.machine (IsProcess dict) (root :: roots) left :=
    apart_undisturbed held sound behind all (List.subset_cons_self _ _) directories fun old there =>
      pcb_word_same (held.spaces old there).pcb (spaces old there _ isPcb) (by decide)
  have space := space_of_loaded held.sound loaded
  obtain ⟨named, apartNew⟩ := loaded_apart held loaded
  have kept : SameSpace made next.machine root := same_space_of_undisturbed space undisturbed fun _ _ _ => id
  have isRoot := launched.directory
  refine ⟨left, apart_register apart ?_ ?_ ?_ only, cr3, spaces, rest, loaded, kept⟩
  · rw [isRoot]
    exact space_undisturbed space undisturbed fun _ => id
  · rw [isRoot, pcb_word_same space.pcb (kept _ isPcb) (by decide)]
    exact named
  · intro old there
    rw [isRoot, directories old there]
    exact spaces_apart_undisturbed (apartNew old there) undisturbed List.mem_cons_self
      (List.mem_cons_of_mem _ (held.spaces old there).member)

/-- A fresh pid adds its process and no other. -/
theorem is_process_register {pid : Nat} (unregistered : dict pid = none) (other : Nat) :
    IsProcess (register dict process pid) other ↔ other = process ∨ IsProcess dict other := by
  constructor
  · rintro ⟨key, found⟩
    unfold register at found
    split_ifs at found with here
    · rw [Option.some.injEq, Nat.add_right_cancel_iff] at found
      exact .inl found.symm
    · exact .inr ⟨key, found⟩
  · rintro (rfl | ⟨key, found⟩)
    · exact ⟨pid, if_pos rfl⟩
    · refine ⟨key, ?_⟩
      unfold register
      rw [if_neg]
      · exact found
      · rintro rfl
        rw [unregistered] at found
        cases found

/-- A process that a program was just started for. -/
structure Fresh (system next : System) (dict after : Dictionary) (roots frames : List Nat) (entry : SunEntry)
    (arg process root : Nat) : Prop where
  registered : IsProcess after process
  unregistered : ¬ IsProcess dict process
  directory : next.machine.pageDirPaddr process = root
  last : next.runQueue.tail = process + queueNodeOffset
  loaded : ∃ made rest, Loaded system.machine made roots frames rest entry root arg ∧ SameSpace made next.machine root

/-- A new program disturbs no process, and it waits behind the others. -/
theorem exec_isolated {entry : SunEntry} {arg : Nat} (held : Isolated system dict nodes roots frames)
    (fits : FitsBelowStack entry) (near : NearSections entry) (words : StartWords entry arg)
    (completed : execSun system (some entry) arg = .ok next) :
    ∃ after process root left, Isolated next after (nodes ++ [process + queueNodeOffset]) (root :: roots) left ∧
      Moved system next dict after ∧ next.current = system.current ∧
      Fresh system next dict after roots frames entry arg process root := by
  obtain ⟨slots, live, accounted, scheduled⟩ := held.table
  obtain ⟨root, process, made, numbered, created, launched⟩ := exec_sun_launched accounted completed
  obtain ⟨other, pid, middle, madeMiddle, isNext⟩ := exec_sun_made accounted completed
  have same : other = process := by
    have first : other :: middle.started = process :: created.started := by
      rw [← launched.started, isNext]
    exact (List.cons.inj first).1
  rw [same] at madeMiddle isNext
  have occupied : ∀ old, IsProcess dict old → old ∈ system.occupied := fun old there =>
    (process_bounds accounted there).2.2
  have notOld : ∀ old, IsProcess dict old → old ≠ process := fun old there isNew =>
    madeMiddle.fresh (isNew ▸ occupied old there)
  have directories : ∀ old, IsProcess dict old →
      next.machine.pageDirPaddr old = system.machine.pageDirPaddr old := fun old there =>
    launched.others old (occupied old there) (notOld old there)
  have grows := fun old => @is_process_register dict process pid madeMiddle.unregistered old
  obtain ⟨left, apart, cr3, spaces, rest, loaded, inPlace⟩ := launched_apart held.apart launched fits near words directories
    fun old => (grows old).1
  -- the process table and the run queue
  obtain ⟨afterSlots, afterLive, kept, between⟩ := made_scheduled scheduled madeMiddle
  obtain ⟨notNull, _, _⟩ := process_bounds kept ((grows process).2 (.inl rfl))
  have current : next.current = system.current := by
    rw [isNext]
    exact madeMiddle.runs.current
  have differ : process ≠ middle.current := by
    rw [madeMiddle.runs.current]
    rcases held.current with none | ⟨running, _⟩
    · rw [none]
      exact notNull
    · exact (notOld _ running).symm
  have queued := enqueue_scheduled kept between (if_pos rfl) differ fun waits =>
    madeMiddle.fresh (waiting_occupied accounted scheduled waits)
  rw [← isNext] at queued
  have table : Accounted next (register dict process pid) afterSlots afterLive := by
    rw [isNext]
    exact accounted_same kept ⟨rfl, rfl, rfl, rfl, id⟩ rfl
  refine ⟨_, process, root, left, ⟨apart, ⟨_, _, table, queued⟩, ?_⟩,
    ⟨fun old there => (grows old).2 (.inr there), directories, fun old there _ => spaces old there⟩, current,
    ⟨(grows _).2 (.inl rfl), fun there => notOld _ there rfl, launched.directory, ?_, made, rest, loaded, inPlace⟩⟩
  · rw [current, cr3]
    refine held.current.imp id ?_
    rintro ⟨running, isDir⟩
    exact ⟨(grows _).2 (.inr running), isDir.trans (directories _ running).symm⟩
  · rw [queued.tail, List.getLastD_concat]

end Systems

end ParadiseOS.Isolation
