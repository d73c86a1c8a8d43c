import ParadiseOS.PagingChecks
import ParadiseOS.ProgramStarts

/-!
# Sharing the processor

Over whole runs: the address spaces of processes have no frame in common, a program begins at its
entry point, a process that the timer stopped goes on as if it had not been, and the processes
take turns in a fixed order without any assertion failing.
-/

namespace ParadiseOS.TimeSharing

open FreeAids Isolation KernelPages LinkedChain LoadedPrograms MachineWord MemModel NewSpaces PagingChecks PagingModel
open PagingSteps Preemption ProcessModel ProcessSpaces ProcessTable ProgramLayout ProgramLoading ProgramStarts
open RunQueue StepRun TwoLevelPaging VirtRanges
open RbTreeRuns (Dictionary Reachable rbNodeOffset)

set_option autoImplicit false

section Boots

/-- The words of the boot directory and of its table. -/
def startWords : List (Nat × Nat) :=
  [(0x10000, 0x1D003), (0x10C00, 0x12003), (0x10FFC, 0x10003), (0x12004, 0x100003)]

/-- The first word of a free frame, which links it to the next one. -/
def startLink (addr : Nat) : Nat := if addr % 4096 = 0 ∧ addr < 0x1EF000 then addr + 4096 else 0

/-- A kernel with free frames from 0x100000 on, each linked to the next one. -/
def startMemory : Memory := fun cell =>
  if cell < 0x100000 then imageOf startWords cell else UInt8.ofNat (startLink (cell / 4 * 4) / 256 ^ (cell % 4))

def startFrames : List Nat := List.range' 0x100000 240 4096

def startMachine : Machine :=
  { sampleMachine with memory := startMemory, freeFramePaddr := 0x100000, totalFrames := 240 }

theorem start_covers : Covers startMachine.memory [0x10000] [0, 0x300] := by
  have words : Covers (imageOf startWords) [0x10000] [0, 0x300] := covers_of_words _ (by decide) (by decide)
  intro root member index low present
  apply words root member index low
  have low : root + 4 * index + 3 < 0x100000 := by
    rw [List.mem_singleton.1 member]
    omega
  have same : directoryEntry startMachine.memory root index = directoryEntry (imageOf startWords) root index := by
    change readWord startMemory _ = _
    simp only [directoryEntry, readWord, startMemory]
    rw [if_pos (by omega), if_pos (by omega), if_pos (by omega), if_pos (by omega)]
  exact same ▸ present

theorem start_linked : Linked startMachine.memory 0x100000 startFrames :=
  linked_run 239 (by decide +kernel) (by decide +kernel)

theorem start_sound : Sound startMachine [0x10000] startFrames where
  spaces := ⟨family_of_checks _ start_covers (by decide +kernel) (by decide +kernel), rfl, by decide, by decide,
    by decide, by decide, by decide +kernel⟩
  free := free_list_of_checks _ start_covers (by decide +kernel) start_linked
    (List.nodup_range' 4096 (by decide)) (by decide +kernel)
  low := by decide +kernel
  kernelHalf := by decide
  heapAligned := by decide
  heapHigh := by decide

theorem start_heap_ready : HeapReady startMachine 0x100 where
  invariant := by
    refine ⟨[], rfl, by decide, by decide, ColouredLine.coloured_nil ?_⟩
    intro index below
    change index < 16 at below
    interval_cases index <;> decide
  near := by decide
  room := by decide
  behind := by decide

theorem halt_pages : totalPages (spaceAllocations haltProgram) = 55 := by
  have usage : usagePages haltProgram = 48 := by decide +kernel
  have user : totalPages (userAllocations haltProgram) = 5 := by decide +kernel
  rw [spaceAllocations, total_pages_append, user, total_pages_cons, pcbAllocations, total_pages_cons,
    total_pages_one, usage]
  rfl

def startSystem : System :=
  processesInit startMachine 0x100 (fun _ => ⟨0x100, 0x100, 0x100, 0, .black⟩) (fun _ => 0)

theorem start_behind : HeapBehind startMachine := by
  unfold HeapBehind
  decide

theorem start_stock : HeapStock startSystem.machine 0 1 where
  spare := ⟨by decide, by decide, by decide, by decide, by decide, by decide, by decide⟩
  inside := by decide
  free page _ below := by
    change page ≤ 2 at below
    interval_cases page <;> decide
  absent page _ below := by
    change page ≤ 1 at below
    interval_cases page <;> decide +kernel

theorem start_isolated : Isolated startSystem (fun _ => none) [] [0x10000] startFrames :=
  isolated_init _ _ start_heap_ready start_sound start_behind

theorem start_unused (aid : Nat) : Unused startSystem aid :=
  RbTreeRuns.find_answer (RbTreeRuns.related_init 0x100 _) _

theorem start_some_unused : SomeUnused startSystem := ⟨1, by decide, by decide, start_unused 1⟩

theorem halt_legal (system : System) {arg : Nat} (small : arg < 4294967296) : LegalMove system (.exec haltProgram arg) :=
  ⟨halt_program_fits, ⟨by decide, by decide, by decide, by decide⟩, by decide, small⟩

/-- A run that starts two programs and enters the first one. -/
structure StartRun (opened launched entered : System) (process other : Nat) (outcome : Option Context) : Prop where
  opening : move startSystem (.exec haltProgram 7) = .ok (none, opened)
  launching : move opened (.exec haltProgram 8) = .ok (none, launched)
  idle : launched.current = 0
  waiting : Chain 0 launched.next launched.runQueue.head [process + queueNodeOffset, other + queueNodeOffset]
  last : launched.runQueue.tail = other + queueNodeOffset
  entering : move launched .schedule = .ok (outcome, entered)
  current : entered.current = process
  running : process ≠ 0
  left : Chain 0 entered.next entered.runQueue.head [other + queueNodeOffset]
  differ : process ≠ other

theorem start_run : ∃ opened launched entered process other outcome,
    StartRun opened launched entered process other outcome := by
  obtain ⟨fits, near, words⟩ := halt_legal startSystem (show 7 < 4294967296 by decide)
  obtain ⟨_, _, moreWords⟩ := halt_legal startSystem (show 8 < 4294967296 by decide)
  have pages := halt_pages
  have many : startFrames.length = 240 := List.length_range'
  obtain ⟨opened, opening⟩ := exec_sun_returns start_isolated fits near words (heap_stock_room start_stock)
    start_some_unused (by omega)
  obtain ⟨first, process, _, frames, isolated, _, openedCurrent, fresh⟩ :=
    exec_isolated start_isolated fits near words opening
  obtain ⟨⟨index, stock⟩, taken⟩ :=
    exec_sun_stock start_isolated fits near words start_stock (by omega) opening isolated
  have unused := exec_sun_unused start_isolated opening (show 1 ≠ 2 by decide) (by decide) (by decide)
    (start_unused 1) (start_unused 2)
  obtain ⟨launched, launching⟩ := exec_sun_returns isolated fits near moreWords (heap_stock_room stock) unused (by omega)
  obtain ⟨second, other, _, _, both, _, launchedCurrent, newest⟩ :=
    exec_isolated isolated fits near moreWords launching
  have idle : launched.current = 0 := launchedCurrent.trans openedCurrent
  have differ : process ≠ other := by
    rintro rfl
    exact newest.unregistered fresh.registered
  obtain ⟨outcome, entered, entering⟩ := schedule_move_returns both idle
  have legal : LegalMove launched .schedule := idle
  obtain ⟨_, waiting, _, _, enteredIsolated, _, running, turned⟩ := move_isolated both legal entering
  obtain ⟨isFirst, rest⟩ := List.cons.inj turned
  have current : entered.current = process := (Nat.add_right_cancel isFirst).symm
  obtain ⟨_, _, _, scheduled⟩ := both.table
  obtain ⟨_, _, _, enteredScheduled⟩ := enteredIsolated.table
  refine ⟨opened, launched, entered, process, other, outcome, ?_, ?_, idle, scheduled.chain, newest.last, entering,
    current, current ▸ running, ?_, differ⟩
  · rw [move, opening]
    rfl
  · rw [move, launching]
    rfl
  · rw [← rest] at enteredScheduled
    exact enteredScheduled.chain

variable {opened launched entered : System} {process other : Nat} {outcome : Option Context}

/-- The moves of the run. -/
def startMoves : List Move := [.exec haltProgram 7, .exec haltProgram 8, .schedule]

theorem start_run_allowed (state : StartRun opened launched entered process other outcome) (later : List Move)
    (legal : Allowed move LegalMove entered later) : Allowed move LegalMove startSystem (startMoves ++ later) :=
  allowed_cons_of_step (halt_legal _ (by decide)) state.opening
    (allowed_cons_of_step (halt_legal _ (by decide)) state.launching
      (allowed_cons_of_step state.idle state.entering legal))

theorem start_run_runs (state : StartRun opened launched entered process other outcome) :
    run move startSystem startMoves = .ok ([none, none, outcome], entered) :=
  run_cons_of_step state.opening (run_cons_of_step state.launching (run_cons_of_step state.entering rfl))

theorem start_run_isolated (state : StartRun opened launched entered process other outcome) :
    ∃ dict more rest, Isolated entered dict [other + queueNodeOffset] more rest := by
  have legal := start_run_allowed state [] trivial
  rw [List.append_nil] at legal
  obtain ⟨dict, left, more, rest, isolated⟩ := run_isolated start_isolated legal (start_run_runs state)
  obtain ⟨_, _, _, scheduled⟩ := isolated.table
  exact ⟨dict, more, rest, chain_unique scheduled.chain state.left ▸ isolated⟩

/-- What the timer may find when it stops the program. -/
def stoppedContext : Context := ⟨[1, 2, 3, 4, 5, 6, 7, 8], 0x246, 0x420000, 0xBFBFFFF0, List.replicate 512 9⟩

theorem stopped_context_legal : LegalContext stoppedContext :=
  ⟨rfl, by decide, by decide, by decide, by decide, by decide +kernel⟩

/-- The timer stops the first program and enters the second one. -/
theorem start_run_stops (state : StartRun opened launched entered process other outcome) :
    ∃ saved stopped dict more rest, move entered (.preempt stoppedContext) = .ok (saved, stopped) ∧
      Isolated stopped dict [process + queueNodeOffset] more rest ∧ stopped.current = other ∧ other ≠ 0 := by
  obtain ⟨dict, more, rest, isolated⟩ := start_run_isolated state
  obtain ⟨saved, stopped, left, stopping, held, running, turned⟩ :=
    preempt_move_returns isolated (state.current.symm ▸ state.running) stopped_context_legal
  obtain ⟨isOther, isLeft⟩ := List.cons.inj turned
  have now : stopped.current = other := (Nat.add_right_cancel isOther).symm
  rw [← isLeft, state.current] at held
  exact ⟨saved, stopped, dict, more, rest, stopping, held, now, now ▸ running⟩

end Boots

section Runs

variable {machine : Machine} {nil : Nat} {links : Nat → RbTreeModel.RbNode} {queue : Nat → Nat}
  {roots frames : List Nat} {system stopped final : System}

/-- A process that the timer stopped goes on with its registers and its memory, whatever other
processes did and whichever programs were started in between. -/
theorem preempted_process_goes_on {first later : List Move} {context : Context} {before after : List (Option Context)}
    {outcome : Option Context} (ready : HeapReady machine nil) (sound : Sound machine roots frames)
    (behind : HeapBehind machine)
    (legal : Allowed move LegalMove (processesInit machine nil links queue) (first ++ .preempt context :: later))
    (started : run move (processesInit machine nil links queue) first = .ok (before, system))
    (stopping : move system (.preempt context) = .ok (outcome, stopped))
    (away : Allowed move (fun state _ => state.current ≠ system.current) stopped later)
    (going : run move stopped later = .ok (after, final)) (back : final.current = system.current) :
    restoreContext final.machine = .ok (resumed context) ∧ final.machine.cr3 = system.machine.cr3 ∧
      ∀ page, UserPage page → page ≠ pcbPage →
        SamePage system.machine final.machine system.machine.cr3 page := by
  obtain ⟨legalFirst, legalHere, legalLater⟩ := (allowed_append_iff started).1 legal
  obtain ⟨dict, nodes, larger, rest, held⟩ := run_isolated (isolated_init links queue ready sound behind) legalFirst
    started
  obtain ⟨isProcess, cr3⟩ := held.current.resolve_left legalHere.1
  obtain ⟨_, again, left, returned, isolated, moved, saved, _⟩ := preempt_isolated held legalHere.1 legalHere.2
  obtain ⟨⟨entered, last⟩, entering, finished⟩ := Trap.bind_eq_ok.mp stopping
  obtain ⟨_, _, finished⟩ := Trap.bind_eq_ok.mp finished
  simp only [Trap.pure_ok, Except.ok.injEq, Prod.mk.injEq] at finished
  obtain ⟨_, rfl⟩ := finished
  rw [entering, Except.ok.injEq, Prod.mk.injEq] at returned
  obtain ⟨_, rfl⟩ := returned
  obtain ⟨now, waiting, more, remaining, finally_, there, directory, same⟩ :=
    run_moved isolated (moved.registered _ isProcess) (legalLater _ _ stopping) away going
  have root := moved.directories _ isProcess
  rw [root] at same directory
  have finalCr3 : final.machine.cr3 = system.machine.pageDirPaddr system.current := by
    have here := (finally_.current.resolve_left (back.symm ▸ legalHere.1)).2
    rw [here, back, directory]
  have self : switch final.machine (system.machine.pageDirPaddr system.current) = final.machine := by
    rw [← finalCr3]
    exact switch_self finally_.apart.sound.spaces.current
  have space := finally_.apart.spaces _ there
  rw [directory] at space
  obtain ⟨start, begun, ledger, growing, member, _⟩ := space_growing finally_.apart.sound space
  rw [self] at growing
  have stoppedSpace := isolated.apart.spaces _ (moved.registered _ isProcess)
  rw [root] at stoppedSpace
  refine ⟨?_, finalCr3.trans cr3.symm, ?_⟩
  · have restored := pcb_context_same stoppedSpace.pcb (same _ ⟨by decide, by decide⟩)
    rw [self, saved.context] at restored
    rw [restore_context_ok growing member, restored]
  · intro page user differ
    rw [cr3]
    exact same_page_trans (saved.pages page user differ) (same page user)

/-- The first program goes on after the second one was entered and stopped. -/
theorem preempted_process_goes_on_after_other : ∃ opened launched entered process other outcome saved stopped again back,
    StartRun opened launched entered process other outcome ∧
      move entered (.preempt stoppedContext) = .ok (saved, stopped) ∧ stopped.current = other ∧
      move stopped (.preempt stoppedContext) = .ok (again, back) ∧ back.current = process ∧
      restoreContext back.machine = .ok (resumed stoppedContext) ∧
      ∀ page, UserPage page → page ≠ pcbPage → SamePage entered.machine back.machine entered.machine.cr3 page := by
  obtain ⟨opened, launched, entered, process, other, outcome, state⟩ := start_run
  obtain ⟨saved, stopped, dict, more, rest, stopping, held, now, notNull⟩ := start_run_stops state
  have running : stopped.current ≠ 0 := now.symm ▸ notNull
  obtain ⟨again, back, left, returning, _, _, turned⟩ := preempt_move_returns held running stopped_context_legal
  have isBack : back.current = process := (Nat.add_right_cancel (List.cons.inj turned).1).symm
  have legal : Allowed move LegalMove startSystem (startMoves ++ .preempt stoppedContext :: [.preempt stoppedContext]) :=
    start_run_allowed state _ (allowed_cons_of_step ⟨state.current.symm ▸ state.running, stopped_context_legal⟩ stopping
      (allowed_cons_of_step ⟨running, stopped_context_legal⟩ returning trivial))
  have apart : stopped.current ≠ entered.current := by
    rw [now, state.current]
    exact state.differ.symm
  have away : Allowed move (fun state _ => state.current ≠ entered.current) stopped [.preempt stoppedContext] :=
    allowed_cons_of_step apart returning trivial
  have going : run move stopped [.preempt stoppedContext] = .ok ([again], back) := run_cons_of_step returning rfl
  obtain ⟨restored, _, same⟩ := preempted_process_goes_on start_heap_ready start_sound start_behind legal
    (start_run_runs state) stopping away going (isBack.trans state.current.symm)
  exact ⟨opened, launched, entered, process, other, outcome, saved, stopped, again, back, state, stopping, now, returning,
    isBack, restored, same⟩

/-- `exec_sun` makes a process that was not there and that waits behind all others. When it is first
entered, its program is loaded and begins at its entry point, whatever happened in between. -/
theorem started_program_begins {first : List Move} {entry : SunEntry} {arg : Nat} {before : List (Option Context)}
    {outcome : Option Context} {launched : System} (ready : HeapReady machine nil) (sound : Sound machine roots frames)
    (behind : HeapBehind machine)
    (legal : Allowed move LegalMove (processesInit machine nil links queue) first)
    (started : run move (processesInit machine nil links queue) first = .ok (before, system))
    (legalHere : LegalMove system (.exec entry arg))
    (launching : move system (.exec entry arg) = .ok (outcome, launched)) :
    ∃ process, launched.runQueue.tail = process + queueNodeOffset ∧
      ¬ Reachable system.machine.processTree (process + rbNodeOffset) ∧
      Reachable launched.machine.processTree (process + rbNodeOffset) ∧
      ∀ later after final, Allowed move LegalMove launched later →
        Allowed move (fun state _ => state.current ≠ process) launched later →
        run move launched later = .ok (after, final) → final.current = process →
        Begins final.machine entry arg := by
  obtain ⟨dict, nodes, larger, rest, held⟩ := run_isolated (isolated_init links queue ready sound behind) legal started
  obtain ⟨last, executing, finished⟩ := Trap.bind_eq_ok.mp launching
  simp only [Trap.pure_ok, Except.ok.injEq, Prod.mk.injEq] at finished
  obtain ⟨_, rfl⟩ := finished
  obtain ⟨fits, near, words⟩ := legalHere
  obtain ⟨grown, process, root, left, isolated, moved, current, fresh⟩ := exec_isolated held fits near words executing
  obtain ⟨_, _, accounted, _⟩ := held.table
  obtain ⟨_, _, grownAccounted, _⟩ := isolated.table
  refine ⟨process, fresh.last, ?_, ?_, ?_⟩
  · intro reached
    exact fresh.unregistered ((RbTreeRuns.related_reachable accounted.related).1 reached)
  · exact (RbTreeRuns.related_reachable grownAccounted.related).2 fresh.registered
  · intro later after final legalLater away going here
    obtain ⟨now, waiting, more, remaining, reached, there, directory, same⟩ :=
      run_moved isolated fresh.registered legalLater away going
    obtain ⟨made, loadedRest, loaded, inPlace⟩ := fresh.loaded
    have notNull := (process_bounds grownAccounted fresh.registered).1
    have cr3 := (reached.current.resolve_left (here ▸ notNull)).2
    rw [here, directory, fresh.directory] at cr3
    have space := reached.apart.spaces _ there
    rw [directory, fresh.directory] at space
    rw [fresh.directory] at same
    exact begins_of_loaded held.apart.sound loaded fits near (same_space_trans inPlace same) reached.apart.sound space
      cr3

/-- The second program begins when the timer has stopped the first one. -/
theorem halt_program_begins : ∃ opened launched entered process other outcome saved stopped,
    StartRun opened launched entered process other outcome ∧
      move entered (.preempt stoppedContext) = .ok (saved, stopped) ∧ Begins stopped.machine haltProgram 8 := by
  obtain ⟨opened, launched, entered, process, other, outcome, state⟩ := start_run
  obtain ⟨saved, stopped, _, _, _, stopping, _, now, notNull⟩ := start_run_stops state
  have first : Allowed move LegalMove startSystem [.exec haltProgram 7] := ⟨halt_legal _ (by decide), fun _ _ _ => trivial⟩
  have begun : run move startSystem [.exec haltProgram 7] = .ok ([none], opened) := run_cons_of_step state.opening rfl
  obtain ⟨newest, last, _, _, begins⟩ := started_program_begins start_heap_ready start_sound start_behind first begun
    (halt_legal _ (by decide)) state.launching
  have isOther : newest = other := Nat.add_right_cancel (last.symm.trans state.last)
  rw [isOther] at begins
  have going : run move launched [.schedule, .preempt stoppedContext] = .ok ([outcome, saved], stopped) :=
    run_cons_of_step state.entering (run_cons_of_step stopping rfl)
  have legal : Allowed move LegalMove launched [.schedule, .preempt stoppedContext] :=
    allowed_cons_of_step state.idle state.entering
      (allowed_cons_of_step ⟨state.current.symm ▸ state.running, stopped_context_legal⟩ stopping trivial)
  have away : Allowed move (fun state _ => state.current ≠ other) launched [.schedule, .preempt stoppedContext] :=
    allowed_cons_of_step (state.idle.symm ▸ notNull.symm) state.entering
      (allowed_cons_of_step (state.current.symm ▸ state.differ) stopping trivial)
  exact ⟨opened, launched, entered, process, other, outcome, saved, stopped, state, stopping,
    begins _ _ _ legal away going now⟩

/-- In every state of a run the address spaces of two processes have no frame in common, no frame of
a process is free or holds a directory or a table, and user mode cannot write to control blocks. -/
theorem processes_stay_apart {moves : List Move} {outcomes : List (Option Context)} (ready : HeapReady machine nil)
    (sound : Sound machine roots frames) (behind : HeapBehind machine)
    (legal : Allowed move LegalMove (processesInit machine nil links queue) moves)
    (completed : run move (processesInit machine nil links queue) moves = .ok (outcomes, final)) :
    ∃ larger rest, Sound final.machine larger rest ∧
      ∀ process, Reachable final.machine.processTree (process + rbNodeOffset) →
        final.machine.pageDirPaddr process ∈ larger ∧
        (∀ page, UserPage page →
          Present (pageEntry final.machine.memory (final.machine.pageDirPaddr process) page) →
          ¬ InUse final.machine larger rest
            (frameOf (pageEntry final.machine.memory (final.machine.pageDirPaddr process) page))) ∧
        (∀ vaddr, vaddr / 4096 = pcbPage →
          userWritable (switch final.machine (final.machine.pageDirPaddr process)) vaddr = none) ∧
        ∀ other, Reachable final.machine.processTree (other + rbNodeOffset) → process ≠ other →
          SpacesApart final.machine (final.machine.pageDirPaddr process) (final.machine.pageDirPaddr other) := by
  obtain ⟨dict, nodes, larger, rest, held⟩ := run_isolated (isolated_init links queue ready sound behind) legal completed
  obtain ⟨_, _, accounted, _⟩ := held.table
  have registered := fun process =>
    @RbTreeRuns.related_reachable final.machine.processTree dict (process + rbNodeOffset) accounted.related
  refine ⟨larger, rest, held.apart.sound, fun process there => ?_⟩
  have isProcess : IsProcess dict process := (registered process).1 there
  have space := held.apart.spaces process isProcess
  refine ⟨space.member, fun page user present => (space.frames page user present).2, ?_, ?_⟩
  · intro vaddr isPcb
    unfold userWritable
    dsimp only
    rw [isPcb, if_neg]
    exact fun allowed => space.kernelOnly allowed.2.1.2
  · exact fun other isOther differ => held.apart.apart process other isProcess ((registered other).1 isOther) differ

theorem processes_stay_apart_start : ∃ opened launched entered process other outcome larger rest,
    StartRun opened launched entered process other outcome ∧ Sound entered.machine larger rest ∧
      SpacesApart entered.machine (entered.machine.pageDirPaddr process) (entered.machine.pageDirPaddr other) := by
  obtain ⟨opened, launched, entered, process, other, outcome, state⟩ := start_run
  obtain ⟨dict, _, _, isolated⟩ := start_run_isolated state
  obtain ⟨_, _, accounted, scheduled⟩ := isolated.table
  have registered := fun process =>
    @RbTreeRuns.related_reachable entered.machine.processTree dict (process + rbNodeOffset) accounted.related
  have isProcess := (isolated.current.resolve_left (state.current.symm ▸ state.running)).1
  rw [state.current] at isProcess
  obtain ⟨waits, key, found, isOther⟩ := scheduled.registered _ List.mem_cons_self
  rw [← Nat.add_right_cancel isOther] at found
  have legal := start_run_allowed state [] trivial
  rw [List.append_nil] at legal
  obtain ⟨larger, rest, sound, apart⟩ := processes_stay_apart start_heap_ready start_sound start_behind legal
    (start_run_runs state)
  obtain ⟨_, _, _, others⟩ := apart process ((registered process).2 isProcess)
  exact ⟨opened, launched, entered, process, other, outcome, larger, rest, state, sound,
    others other ((registered other).2 ⟨key, found⟩) state.differ⟩

/-- A process is entered as soon as those that wait before it were, whatever else happens: programs
that are started later do not get ahead of it. -/
theorem waiting_process_gets_its_turn {first moves : List Move} {last : Move} {before after : List (Option Context)}
    {nodes : List Nat} {process : Nat} (ready : HeapReady machine nil) (sound : Sound machine roots frames)
    (behind : HeapBehind machine)
    (legal : Allowed move LegalMove (processesInit machine nil links queue) (first ++ (moves ++ [last])))
    (started : run move (processesInit machine nil links queue) first = .ok (before, system))
    (chain : Chain 0 system.next system.runQueue.head nodes)
    (waits : nodes[entries moves]? = some (process + queueNodeOffset)) (enters : entries [last] = 1)
    (going : run move system (moves ++ [last]) = .ok (after, final)) : final.current = process := by
  obtain ⟨legalFirst, legalMoves⟩ := (allowed_append_iff started).1 legal
  obtain ⟨dict, waiting, larger, rest, held⟩ := run_isolated (isolated_init links queue ready sound behind) legalFirst
    started
  obtain ⟨_, _, _, scheduled⟩ := held.table
  obtain ⟨early, middle, late, moving, stopping, _⟩ := run_append going
  obtain ⟨legalEarly, legalLast⟩ := (allowed_append_iff moving).1 legalMoves
  rw [chain_unique chain scheduled.chain, ← Nat.add_zero (entries moves)] at waits
  obtain ⟨now, left, more, remaining, isolated, here⟩ := run_queue_advances moves held legalEarly moving waits
  obtain ⟨outcome, next, _, stepped, ended, _⟩ := run_cons stopping
  simp only [run, Except.ok.injEq, Prod.mk.injEq] at ended
  obtain ⟨_, rfl⟩ := ended
  obtain ⟨_, _, _, _, _, _, turns⟩ := move_isolated isolated legalLast.1 stepped
  cases last with
  | exec entry arg => cases enters
  | schedule =>
      obtain ⟨_, turned⟩ := turns
      rw [turned, List.getElem?_cons_zero, Option.some.injEq] at here
      exact Nat.add_right_cancel here
  | preempt context =>
      obtain ⟨_, turned⟩ := turns
      have ahead := waits_append here (middle.current + queueNodeOffset)
      rw [turned, List.getElem?_cons_zero, Option.some.injEq] at ahead
      exact Nat.add_right_cancel ahead
  | store vaddr byte => cases enters

/-- The second process waits behind the first one, and is the one that is entered after it. -/
theorem second_process_gets_its_turn : ∃ opened launched entered process other outcome saved stopped,
    StartRun opened launched entered process other outcome ∧
      run move launched ([.schedule] ++ [.preempt stoppedContext]) = .ok ([outcome, saved], stopped) ∧
      stopped.current = other := by
  obtain ⟨opened, launched, entered, process, other, outcome, state⟩ := start_run
  obtain ⟨saved, stopped, _, _, _, stopping, _, _, _⟩ := start_run_stops state
  have begun : run move startSystem [.exec haltProgram 7, .exec haltProgram 8] = .ok ([none, none], launched) :=
    run_cons_of_step state.opening (run_cons_of_step state.launching rfl)
  have whole : Allowed move LegalMove startSystem
      ([.exec haltProgram 7, .exec haltProgram 8] ++ ([.schedule] ++ [.preempt stoppedContext])) :=
    start_run_allowed state _
      (allowed_cons_of_step ⟨state.current.symm ▸ state.running, stopped_context_legal⟩ stopping trivial)
  have going : run move launched ([.schedule] ++ [.preempt stoppedContext]) = .ok ([outcome, saved], stopped) :=
    run_cons_of_step state.entering (run_cons_of_step stopping rfl)
  exact ⟨opened, launched, entered, process, other, outcome, saved, stopped, state, going,
    waiting_process_gets_its_turn start_heap_ready start_sound start_behind whole begun state.waiting rfl rfl going⟩

end Runs

end ParadiseOS.TimeSharing
