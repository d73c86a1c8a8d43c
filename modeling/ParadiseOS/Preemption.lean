import ParadiseOS.Isolation

/-!
# Runs of processes

What a run of moves keeps: the processes stay apart, the memory of a process changes only while it
is the current one, and the run queue goes around.
-/

namespace ParadiseOS.Preemption

open HeapContents Isolation KernelPages LinkedChain LoadedPrograms MachineWord MemModel NewSpaces PagingModel PagingSteps
open ProcessModel ProcessSpaces ProcessTable ProgramLayout ProgramLoading RunQueue StepRun TwoLevelPaging VirtRanges
open RbTreeRuns (Dictionary Reachable rbNodeOffset)

set_option autoImplicit false

section Steps

variable {system next final : System} {dict : Dictionary} {nodes roots frames : List Nat} {process root : Nat}
  {outcome : Option Context} {made : Move}

/-- How a move changes the run queue. -/
def Turns (system next : System) (nodes left : List Nat) : Move → Prop
  | .exec _ _ => next.current = system.current ∧ ∃ node, left = nodes ++ [node]
  | .schedule => next.current ≠ 0 ∧ nodes = (next.current + queueNodeOffset) :: left
  | .preempt _ => next.current ≠ 0 ∧
      nodes ++ [system.current + queueNodeOffset] = (next.current + queueNodeOffset) :: left
  | .store _ _ => next.current = system.current ∧ left = nodes

/-- A move keeps the processes apart. -/
theorem move_isolated (held : Isolated system dict nodes roots frames) (legal : LegalMove system made)
    (completed : move system made = .ok (outcome, next)) :
    ∃ after left more rest, Isolated next after left more rest ∧ Moved system next dict after ∧
      Turns system next nodes left made := by
  cases made with
  | exec entry arg =>
      obtain ⟨last, launching, completed⟩ := Trap.bind_eq_ok.mp completed
      simp only [Trap.pure_ok, Except.ok.injEq, Prod.mk.injEq] at completed
      obtain ⟨_, rfl⟩ := completed
      obtain ⟨fits, near, words⟩ := legal
      obtain ⟨after, process, root, left, isolated, moved, current, _⟩ := exec_isolated held fits near words launching
      exact ⟨after, _, _, left, isolated, moved, current, _, rfl⟩
  | schedule =>
      obtain ⟨⟨entered, last⟩, entering, completed⟩ := Trap.bind_eq_ok.mp completed
      obtain ⟨_, _, completed⟩ := Trap.bind_eq_ok.mp completed
      simp only [Trap.pure_ok, Except.ok.injEq, Prod.mk.injEq] at completed
      obtain ⟨_, rfl⟩ := completed
      obtain ⟨left, isolated, moved, turns, there⟩ := schedule_isolated held legal entering
      obtain ⟨_, _, accounted, _⟩ := isolated.table
      exact ⟨dict, left, _, _, isolated, moved, (process_bounds accounted there).1, turns⟩
  | preempt context =>
      obtain ⟨⟨entered, last⟩, entering, completed⟩ := Trap.bind_eq_ok.mp completed
      obtain ⟨_, _, completed⟩ := Trap.bind_eq_ok.mp completed
      simp only [Trap.pure_ok, Except.ok.injEq, Prod.mk.injEq] at completed
      obtain ⟨_, rfl⟩ := completed
      obtain ⟨_, again, left, returned, isolated, moved, _, turns, there⟩ := preempt_isolated held legal.1 legal.2
      rw [entering, Except.ok.injEq, Prod.mk.injEq] at returned
      obtain ⟨_, rfl⟩ := returned
      obtain ⟨_, _, accounted, _⟩ := isolated.table
      exact ⟨dict, left, _, _, isolated, moved, (process_bounds accounted there).1, turns⟩
  | store vaddr byte =>
      obtain ⟨machine, storing, completed⟩ := Trap.bind_eq_ok.mp completed
      simp only [Trap.pure_ok, Except.ok.injEq, Prod.mk.injEq] at completed
      obtain ⟨_, rfl⟩ := completed
      obtain ⟨isolated, moved⟩ := store_isolated held legal.1 legal.2 storing
      exact ⟨dict, nodes, _, _, isolated, moved, rfl, rfl⟩

/-- Before any program is started there is no process. -/
theorem isolated_init {machine : Machine} {nil : Nat} (links : Nat → RbTreeModel.RbNode) (queue : Nat → Nat)
    (ready : HeapReady machine nil) (sound : Sound machine roots frames) (behind : HeapBehind machine) :
    Isolated (processesInit machine nil links queue) (fun _ => none) [] roots frames := by
  obtain ⟨live, accounted⟩ := processes_init_accounted links queue ready
  have nobody : ∀ process, ¬ IsProcess (fun _ => none) process := fun process ⟨_, found⟩ => nomatch found
  refine ⟨⟨?_, behind, ?_, ?_, ?_⟩, ⟨[], live, accounted, processes_init_scheduled _⟩, .inl rfl⟩
  · exact ProcessCycles.sound_same_paging sound ⟨rfl, rfl, rfl, rfl, rfl, rfl⟩ rfl
  · exact fun process there => (nobody process there).elim
  · exact fun process there => (nobody process there).elim
  · exact fun process _ there => (nobody process there).elim

/-- Over a run in which a process is not the current one, its address space does not change. -/
theorem run_moved {moves : List Move} {outcomes : List (Option Context)}
    (held : Isolated system dict nodes roots frames) (isProcess : IsProcess dict process)
    (legal : Allowed move LegalMove system moves)
    (away : Allowed move (fun state _ => state.current ≠ process) system moves)
    (completed : run move system moves = .ok (outcomes, final)) :
    ∃ after left more rest, Isolated final after left more rest ∧ IsProcess after process ∧
      final.machine.pageDirPaddr process = system.machine.pageDirPaddr process ∧
      SameSpace system.machine final.machine (system.machine.pageDirPaddr process) := by
  refine run_preserves (fun state => ∃ after left more rest, Isolated state after left more rest ∧
    IsProcess after process ∧ state.machine.pageDirPaddr process = system.machine.pageDirPaddr process ∧
      SameSpace system.machine state.machine (system.machine.pageDirPaddr process)) ?_ moves system final outcomes
    ⟨dict, nodes, roots, frames, held, isProcess, rfl, same_space_refl _ _⟩ (allowed_and legal away) completed
  rintro state made outcome next ⟨now, waiting, more, rest, isolated, there, directory, same⟩ ⟨legalHere, elsewhere⟩
    stepped
  obtain ⟨after, left, larger, remaining, isolated', moved, _⟩ := move_isolated isolated legalHere stepped
  have kept := moved.spaces process there fun equal => elsewhere equal.symm
  rw [directory] at kept
  exact ⟨after, left, larger, remaining, isolated', moved.registered process there,
    (moved.directories process there).trans directory, same_space_trans same kept⟩

theorem run_isolated {moves : List Move} {outcomes : List (Option Context)}
    (held : Isolated system dict nodes roots frames) (legal : Allowed move LegalMove system moves)
    (completed : run move system moves = .ok (outcomes, final)) :
    ∃ after left more rest, Isolated final after left more rest :=
  run_preserves (fun state => ∃ after left more rest, Isolated state after left more rest)
    (fun _ _ _ _ ⟨_, _, _, _, isolated⟩ legalHere stepped =>
      have ⟨after, left, more, rest, kept, _⟩ := move_isolated isolated legalHere stepped
      ⟨after, left, more, rest, kept⟩) moves system final outcomes ⟨dict, nodes, roots, frames, held⟩ legal completed

end Steps

section Turning

variable {system final : System} {dict : Dictionary} {nodes roots frames : List Nat} {node : Nat}

/-- How often a run enters a process that waited. -/
def entries : List Move → Nat
  | [] => 0
  | .exec _ _ :: moves => entries moves
  | .schedule :: moves => entries moves + 1
  | .preempt _ :: moves => entries moves + 1
  | .store _ _ :: moves => entries moves

theorem waits_append {place : Nat} (waits : nodes[place]? = some node) (last : Nat) :
    (nodes ++ [last])[place]? = some node :=
  (List.getElem?_append_left (List.getElem?_eq_some_iff.1 waits).1).trans waits

/-- Whoever is entered, the others come one place forward; other moves leave them where they are. -/
theorem run_queue_advances (moves : List Move) {outcomes : List (Option Context)} {place : Nat}
    (held : Isolated system dict nodes roots frames) (legal : Allowed move LegalMove system moves)
    (completed : run move system moves = .ok (outcomes, final))
    (waits : nodes[entries moves + place]? = some node) :
    ∃ after left more rest, Isolated final after left more rest ∧ left[place]? = some node := by
  induction moves generalizing system dict nodes roots frames outcomes with
  | nil =>
      simp only [run, Except.ok.injEq, Prod.mk.injEq] at completed
      obtain ⟨_, rfl⟩ := completed
      rw [entries, Nat.zero_add] at waits
      exact ⟨dict, nodes, roots, frames, held, waits⟩
  | cons made moves ih =>
      obtain ⟨outcome, next, later, stepped, going, _⟩ := run_cons completed
      obtain ⟨legalHere, legalLater⟩ := legal
      obtain ⟨after, left, more, rest, isolated, _, turns⟩ := move_isolated held legalHere stepped
      have onwards := fun waitsLater => ih isolated (legalLater _ _ stepped) going waitsLater
      apply onwards
      cases made with
      | exec entry arg =>
          obtain ⟨_, last, rfl⟩ := turns
          exact waits_append waits last
      | schedule =>
          obtain ⟨_, turned⟩ := turns
          rw [entries, Nat.add_right_comm, turned, List.getElem?_cons_succ] at waits
          exact waits
      | preempt context =>
          obtain ⟨_, turned⟩ := turns
          rw [entries, Nat.add_right_comm] at waits
          have ahead := waits_append waits (system.current + queueNodeOffset)
          rw [turned, List.getElem?_cons_succ] at ahead
          exact ahead
      | store vaddr byte =>
          obtain ⟨_, rfl⟩ := turns
          exact waits

/-- The timer's interrupt always gets to the next process. -/
theorem preempt_move_returns {context : Context} (held : Isolated system dict nodes roots frames)
    (running : system.current ≠ 0) (legal : LegalContext context) :
    ∃ outcome next left, move system (.preempt context) = .ok (outcome, next) ∧
      Isolated next dict left roots frames ∧ next.current ≠ 0 ∧
      nodes ++ [system.current + queueNodeOffset] = (next.current + queueNodeOffset) :: left := by
  obtain ⟨entered, next, left, completed, isolated, _, _, turned, there⟩ := preempt_isolated held running legal
  obtain ⟨_, _, accounted, _⟩ := isolated.table
  have runs := (process_bounds accounted there).1
  have cr3 := (isolated.current.resolve_left runs).2
  obtain ⟨_, _, _, growing, member, _⟩ := space_growing isolated.apart.sound (isolated.apart.spaces _ there)
  rw [← cr3, switch_self isolated.apart.sound.spaces.current] at growing
  refine ⟨some (pcbContext next.machine), next, left, ?_, isolated, runs, turned⟩
  rw [move, completed, Trap.ok_bind]
  dsimp only
  rw [restore_context_ok growing member]
  rfl

end Turning

section Beginning

/-- The current address space is that of a program that has not run yet. -/
structure Begins (machine : Machine) (entry : SunEntry) (arg : Nat) : Prop where
  started : Started machine entry machine.cr3 arg
  pages : ∀ page, UserPage page → (Present (pageEntry machine.memory machine.cr3 page) ↔
    page = linkedPage ∨ CoveredBy (spaceAllocations entry) page)
  flags : ∀ allocation ∈ spaceAllocations entry, ∀ page, allocation.Covers page →
    getFlags (pageEntry machine.memory machine.cr3 page) = allocation.flags ||| 1
  context : ∃ context, restoreContext machine = .ok context ∧ context.eip = entry.entryPoint ∧
    context.esp = stackTop ∧ context.eflags = initEflags ∧ context.registers[5]? = some arg ∧
    context.fpu = List.replicate 512 0

variable {machine next : Machine} {roots frames more rest : List Nat} {root arg link : Nat} {entry : SunEntry}

/-- What a program begins with is read from its control block. -/
theorem begins_context {start : Machine} {first ledger : FrameLedger.Ledger}
    (growing : Growing start first link machine ledger) (member : pcbPage ∈ ledger.pages)
    (started : Started machine entry root arg) :
    ∃ context, restoreContext machine = .ok context ∧ context.eip = entry.entryPoint ∧
      context.esp = stackTop ∧ context.eflags = initEflags ∧ context.registers[5]? = some arg ∧
      context.fpu = List.replicate 512 0 := by
  have word : ∀ field ∈ pcbFields entry root arg, pcbWord machine field.1 = field.2 := by
    intro field listed
    have all : field ∈ initialFields entry root arg := List.mem_append_left _ listed
    have loads := started.fields _ all
    rw [load_pcb_ok growing member (initial_fields_place entry root arg field all), Except.ok.injEq] at loads
    exact loads
  simp only [pcbFields, List.forall_mem_cons] at word
  obtain ⟨_, eip, esp, eflags, _, eax, _⟩ := word
  have fpu : (List.range' (pcbAddr + pcbFpuRegs) 512).map (byteAt machine) = List.replicate 512 0 := by
    apply List.ext_getElem
    · rw [List.length_map, List.length_range', List.length_replicate]
    · intro i small there
      rw [List.length_replicate] at there
      have zeros : (pcbAddr + pcbFpuRegs, List.replicate 512 (0 : UInt8)) ∈ initialBytes entry :=
        List.mem_append_right _ List.mem_cons_self
      have loads := started.bytes _ zeros i 0 (List.getElem?_replicate_of_lt there)
      rw [load_byte_at growing.balanced (fpu_inside member i there), Except.ok.injEq] at loads
      rw [List.getElem_map, List.getElem_range', Nat.one_mul, List.getElem_replicate]
      exact loads
  refine ⟨_, restore_context_ok growing member, eip, esp, ?_, ?_, fpu⟩
  · rw [pcbContext, eflags]
    rfl
  · exact congrArg some eax

/-- Bytes of an address space that did not change are read as before. -/
theorem load_byte_same {vaddr : Nat} (sound : Sound machine roots frames) (space : Space machine roots frames root)
    (nextSound : Sound next more rest) (nextSpace : Space next more rest root) (own : OwnPage (vaddr / 4096))
    (present : Present (pageEntry machine.memory root (vaddr / 4096)))
    (same : SamePage machine next root (vaddr / 4096)) :
    loadByte (switch next root) vaddr = loadByte (switch machine root) vaddr := by
  obtain ⟨_, _, _, growing, _, listed⟩ := space_growing sound space
  obtain ⟨_, _, _, nextGrowing, _, nextListed⟩ := space_growing nextSound nextSpace
  obtain ⟨entry, contents⟩ := same
  rw [load_byte_at growing.balanced (listed _ own present),
    load_byte_at nextGrowing.balanced (nextListed _ own (entry.symm ▸ present))]
  apply congrArg
  change next.memory (frameOf (pageEntry next.memory root _) + _) = machine.memory _
  rw [entry]
  exact contents present _ (by omega) (by omega)

/-- A loaded program begins where its address space was not touched. -/
theorem begins_of_loaded {start made : Machine} (sound : Sound start roots frames)
    (loaded : Loaded start made roots frames rest entry root arg) (fits : FitsBelowStack entry)
    (near : NearSections entry) {larger left : List Nat} (same : SameSpace made machine root)
    (nowSound : Sound machine larger left) (nowSpace : Space machine larger left root) (current : machine.cr3 = root) :
    Begins machine entry arg := by
  have space := space_of_loaded sound loaded
  have mapped := loaded.mapped
  have self : switch machine root = machine := by
    rw [← current]
    exact switch_self nowSound.spaces.current
  obtain ⟨_, _, _, growing, member, _⟩ := space_growing loaded.sound space
  obtain ⟨_, _, _, nowGrowing, nowMember, _⟩ := space_growing nowSound nowSpace
  rw [self] at nowGrowing
  have started : Started machine entry root arg := by
    constructor
    · intro place listed i byte found
      have small : i < place.2.length := (List.getElem?_eq_some_iff.1 found).1
      obtain ⟨allocation, isAllocation, covers⟩ := initial_bytes_covered fits near place listed i small
      have own := space_pages_own fits near isAllocation covers
      have present := (mapped.pages _ own.1).2 (.inr ⟨allocation, isAllocation, covers⟩)
      have reads := load_byte_same loaded.sound space nowSound nowSpace own present (same _ own.1)
      rw [self] at reads
      rw [reads]
      exact loaded.started.bytes place listed i byte found
    · intro field listed
      have small := initial_fields_place entry root arg field listed
      have loads := loaded.started.fields field listed
      have word := pcb_word_same space.pcb (same _ ⟨by decide, by decide⟩) small
      rw [self] at word
      rw [load_pcb_ok growing member small] at loads
      rw [load_pcb_ok nowGrowing nowMember small, word]
      exact loads
  refine ⟨current.symm ▸ started, ?_, ?_, begins_context nowGrowing nowMember started⟩
  · intro page user
    rw [current, (same page user).1]
    exact mapped.pages page user
  · intro allocation listed page covers
    rw [current, (same page (space_pages_own fits near listed covers).1).1]
    exact mapped.flags allocation listed page covers

end Beginning

end ParadiseOS.Preemption
