import ParadiseOS.BootFrames
import ParadiseOS.StepRun

/-!
# The stack of free frames

`free_frame` and `alloc_frame` reach the links of the free list through one window
page, whose entry they move. Here the window is all that is assumed of the paging
structures: the current directory maps itself and has a table for the window.
Between the calls other code may run, as long as it leaves the free frames and the
window alone.
-/

namespace ParadiseOS.FreeStack

open BootModel (initFreeListPageBehind)
open ProcessModel (alignNextPage)
open BootFrames (Window free_frame_window linked_words push_directory push_window windowSlot window_slot_aligned)
open MachineWord PagingModel PagingSteps StepRun TwoLevelPaging

set_option autoImplicit false

section Model

/-- A call, or a stretch of other code that leads to a machine. -/
inductive Operation where
  | freeFrame (frame : Nat)
  | allocFrame
  | elsewhere (next : Machine)

/-- A call answers with the frame that `alloc_frame` returns. -/
def machineStep (machine : Machine) : Operation → Except Trap (Option Nat × Machine)
  | .freeFrame frame => do
      let machine ← freeFrame machine frame
      pure (none, machine)
  | .allocFrame => do
      let (frame, machine) ← allocFrame machine
      pure (some frame, machine)
  | .elsewhere next => .ok (none, next)

end Model

section Statement

/-- A stack of frames, without any memory. -/
def stackStep : List Nat → Operation → Except Trap (Option Nat × List Nat)
  | stack, .freeFrame frame => .ok (none, frame :: stack)
  | [], .allocFrame => .error .assertion
  | frame :: stack, .allocFrame => .ok (some frame, stack)
  | stack, .elsewhere _ => .ok (none, stack)

/-- The entry of the window. -/
def windowEntry (machine : Machine) : Nat := readWord machine.memory (windowSlot machine)

/-- Other code left the free list, its window and the free frames alone. -/
structure Untouched (machine next : Machine) (stack : List Nat) : Prop where
  head : next.freeListHead = machine.freeListHead
  headPte : next.freeListHeadPte = machine.freeListHeadPte
  top : next.freeFramePaddr = machine.freeFramePaddr
  used : next.usedFrames = machine.usedFrames
  window : Window next
  entry : windowEntry next = windowEntry machine
  frames : ∀ frame ∈ stack, SameOn machine.memory next.memory frame

/-- A frame is freed only if it is not free, and other code leaves free frames alone. -/
def legal : Machine × List Nat → Operation → Prop
  | (_, stack), .freeFrame frame => frame % 4096 = 0 ∧ 0 < frame ∧ frame < 4294967296 ∧ frame ∉ stack
  | _, .allocFrame => True
  | (machine, stack), .elsewhere next => Untouched machine next stack

/-- The frames hold the stack: each is linked to the one below it, and the window shows the top. -/
structure Holds (machine : Machine) (stack : List Nat) : Prop where
  linked : Linked machine.memory machine.freeFramePaddr stack
  entry : stack ≠ [] → loadWord machine machine.freeListHeadPte =
    .ok (createEntry machine.freeFramePaddr pteWritable)
  shown : stack ≠ [] →
    translate machine.memory machine.cr3 machine.freeListHead = some machine.freeFramePaddr

/-- The paging structures of the boot code, which hold the kernel in one table. -/
structure Boot (machine : Machine) (kernelEndVaddr : Nat) : Prop where
  root : machine.cr3 % 4096 = 0 ∧ machine.cr3 < 4294967296
  table : ∃ table, table % 4096 = 0 ∧ table < 4294967296 ∧ table ≠ machine.cr3 ∧
    ∀ index < 1024, directoryEntry machine.memory machine.cr3 index =
      if index = 1023 then machine.cr3 + 1 else if index = 0 ∨ index = 0x300 then table + 1 else 0
  kernelLow : 0xC0100000 < kernelEndVaddr
  kernelHigh : kernelEndVaddr ≤ 0xC0400000
  empty : machine.freeFramePaddr = 0

end Statement

section Writes

variable {machine : Machine}

theorem window_low (window : Window machine) : windowPage machine < 1047552 := by
  have low := window.headLow
  unfold windowPage
  omega

/-- The window depends on two entries of the directory. -/
theorem window_congr (window : Window machine) {memory : Memory}
    (last : directoryEntry memory machine.cr3 1023 = directoryEntry machine.memory machine.cr3 1023)
    (own : directoryEntry memory machine.cr3 (windowPage machine / 1024) =
      directoryEntry machine.memory machine.cr3 (windowPage machine / 1024)) (head used : Nat) :
    Window { machine with memory := memory, freeFramePaddr := head, usedFrames := used } where
  selfMapped := by
    rw [SelfMapped, last]
    exact window.selfMapped
  aligned := window.aligned
  headAligned := window.headAligned
  headLow := window.headLow
  headPte := window.headPte
  table := own.symm ▸ window.table
  apart := own.symm ▸ window.apart
  notFirst := window.notFirst

/-- Writing the window's entry changes no entry of the directory. -/
theorem slot_write_directory (window : Window machine) (word : Nat) {index : Nat} (small : index < 1024) :
    directoryEntry (writeWord machine.memory (windowSlot machine) word) machine.cr3 index =
      directoryEntry machine.memory machine.cr3 index :=
  directory_entry_same_on (write_same_on (frame_of_aligned _) window.aligned (by omega) window.apart.symm) small

theorem slot_apart (window : Window machine) {frame : Nat} (aligned : frame % 4096 = 0) :
    frame + 4 ≤ windowSlot machine ∨ windowSlot machine + 4 ≤ frame := by
  have place := window_slot_aligned window
  omega

/-- The entry of the window is where `free_list_head_pte` points. -/
theorem translate_entry (window : Window machine) :
    translate machine.memory machine.cr3 machine.freeListHeadPte = some (windowSlot machine) := by
  have low := window_low window
  rw [window.headPte]
  exact translate_self_map window.selfMapped (by omega) window.table

/-- Storing to `*free_list_head_pte` writes the window's entry. -/
theorem store_entry (window : Window machine) (used head word : Nat) :
    storeWord { machine with usedFrames := used, freeFramePaddr := head } machine.freeListHeadPte word =
      .ok { machine with
        usedFrames := used
        freeFramePaddr := head
        memory := writeWord machine.memory (windowSlot machine) word } := by
  have low := window_low window
  have place := window.headPte
  have found := translate_entry window
  exact store_word_at found (by omega) (by omega)

theorem load_entry (window : Window machine) :
    loadWord machine machine.freeListHeadPte = .ok (windowEntry machine) := by
  have low := window_low window
  have place := window.headPte
  exact load_word_at (translate_entry window) (by omega) (by omega)

/-- The window shows the frame of its entry. -/
theorem translate_window (window : Window machine) {frame : Nat} (aligned : frame % 4096 = 0)
    (bounded : frame < 4294967296) (entry : windowEntry machine = createEntry frame pteWritable) :
    translate machine.memory machine.cr3 machine.freeListHead = some frame := by
  have shown : pageEntry machine.memory machine.cr3 (machine.freeListHead / 4096) =
      createEntry frame pteWritable := by
    rw [pageEntry]
    exact (if_pos window.table).trans entry
  have headAligned := window.headAligned
  rw [translate_page (by rw [shown]; exact create_entry_present _ _), shown,
    create_entry_frame bounded (by decide), headAligned, frameOf]
  congr 1
  omega

end Writes

section Steps

variable {machine next : Machine} {stack : List Nat} {frame : Nat}

/-- The window stands, and the free frames are linked in the order of the stack. -/
structure Stacked (machine : Machine) (stack : List Nat) : Prop where
  window : Window machine
  linked : Linked machine.memory machine.freeFramePaddr stack
  nodup : stack.Nodup
  aligned : ∀ frame ∈ stack, frame % 4096 = 0
  positive : ∀ frame ∈ stack, 0 < frame
  bounded : ∀ frame ∈ stack, frame < 4294967296
  entry : stack ≠ [] → windowEntry machine = createEntry machine.freeFramePaddr pteWritable

theorem holds_of_stacked (stacked : Stacked machine stack) : Holds machine stack where
  linked := stacked.linked
  entry filled := by rw [load_entry stacked.window, stacked.entry filled]
  shown filled := by
    cases stack with
    | nil => exact absurd rfl filled
    | cons top rest =>
        have isTop := stacked.linked.1
        apply translate_window stacked.window
        · exact isTop ▸ stacked.aligned top List.mem_cons_self
        · exact isTop ▸ stacked.bounded top List.mem_cons_self
        · exact stacked.entry filled

/-- The machine after the top of the stack was taken. -/
def popped (machine : Machine) (frame : Nat) : Machine :=
  { machine with
    memory := popMemory machine frame
    freeFramePaddr := readWord machine.memory frame
    usedFrames := u32 (machine.usedFrames + 1) }

theorem pop_ok (stacked : Stacked machine (frame :: stack)) :
    allocFrame machine = .ok (frame, popped machine frame) := by
  have top : machine.freeFramePaddr = frame := stacked.linked.1
  have positive := stacked.positive frame List.mem_cons_self
  have bounded := stacked.bounded frame List.mem_cons_self
  have aligned := stacked.aligned frame List.mem_cons_self
  have headAligned := stacked.window.headAligned
  have headLow := stacked.window.headLow
  have entry := stacked.entry (List.cons_ne_nil _ _)
  rw [top] at entry
  have found := translate_window stacked.window aligned bounded entry
  have next : loadWord { machine with usedFrames := u32 (machine.usedFrames + 1) }
      machine.freeListHead = .ok (readWord machine.memory frame) :=
    load_word_at found (by omega) (by omega)
  have stored := store_entry stacked.window (u32 (machine.usedFrames + 1)) (readWord machine.memory frame)
    (createEntry (readWord machine.memory frame) pteWritable)
  rw [allocFrame, Trap.kernel_assert_of (by omega), Trap.ok_bind]
  simp only [next, Trap.ok_bind, stored]
  rw [Trap.pure_ok, top]
  rfl

theorem stacked_pop (stacked : Stacked machine (frame :: stack)) : Stacked (popped machine frame) stack := by
  have low := window_low stacked.window
  have small : createEntry (readWord machine.memory frame) pteWritable < 4294967296 :=
    create_entry_lt (read_word_lt _ _) (by decide)
  have own := slot_write_directory stacked.window (createEntry (readWord machine.memory frame) pteWritable)
    (show windowPage machine / 1024 < 1024 by omega)
  refine ⟨window_congr stacked.window (slot_write_directory stacked.window _ (by decide)) own _ _, ?_,
    stacked.nodup.of_cons, ?_, ?_, ?_, ?_⟩
  · apply linked_words stacked.linked.2
    intro other member
    exact read_write_apart (slot_apart stacked.window (stacked.aligned other (List.mem_cons_of_mem _ member)))
  · exact fun other member => stacked.aligned other (List.mem_cons_of_mem _ member)
  · exact fun other member => stacked.positive other (List.mem_cons_of_mem _ member)
  · exact fun other member => stacked.bounded other (List.mem_cons_of_mem _ member)
  · intro _
    have place : windowSlot (popped machine frame) = windowSlot machine := by
      change frameOf (directoryEntry (popMemory machine frame) machine.cr3 (windowPage machine / 1024)) + _ = _
      rw [popMemory]
      exact congrArg (frameOf · + 4 * (windowPage machine % 1024)) own
    rw [windowEntry, place]
    exact read_write_same small

/-- The machine after a frame was put on the stack. -/
def pushed (machine : Machine) (frame : Nat) : Machine :=
  { machine with
    memory := pushMemory machine frame
    freeFramePaddr := frame
    usedFrames := sub32 machine.usedFrames 1 }

theorem pushed_window (window : Window machine) (aligned : frame % 4096 = 0) : Window (pushed machine frame) :=
  push_window window aligned _ machine.totalFrames

/-- The window shows the frame that was put on the stack. -/
theorem pushed_entry (window : Window machine) (aligned : frame % 4096 = 0) (bounded : frame < 4294967296) :
    windowEntry (pushed machine frame) = createEntry frame pteWritable := by
  have low := window_low window
  have own := push_directory window aligned (show windowPage machine / 1024 < 1024 by omega) window.notFirst.1
  have place : windowSlot (pushed machine frame) = windowSlot machine := by
    change frameOf (directoryEntry (pushMemory machine frame) machine.cr3 (windowPage machine / 1024)) + _ = _
    rw [own]
    rfl
  have small : createEntry frame pteWritable < 4294967296 := create_entry_lt bounded (by decide)
  rw [windowEntry, place]
  change readWord (pushMemory machine frame) (windowSlot machine) = _
  rw [pushMemory, read_write_apart (slot_apart window aligned).symm]
  exact read_write_same small

theorem stacked_push (stacked : Stacked machine stack) (aligned : frame % 4096 = 0) (positive : 0 < frame)
    (bounded : frame < 4294967296) (fresh : frame ∉ stack) :
    Stacked (pushed machine frame) (frame :: stack) := by
  have window := pushed_window stacked.window aligned
  have entry := pushed_entry stacked.window aligned bounded
  have word : machine.freeFramePaddr < 4294967296 := by
    cases stack with
    | nil => exact stacked.linked ▸ (by decide : 0 < 4294967296)
    | cons top rest => exact stacked.linked.1 ▸ stacked.bounded top List.mem_cons_self
  refine ⟨window, ⟨rfl, ?_⟩, List.nodup_cons.2 ⟨fresh, stacked.nodup⟩,
    List.forall_mem_cons.2 ⟨aligned, stacked.aligned⟩, List.forall_mem_cons.2 ⟨positive, stacked.positive⟩,
    List.forall_mem_cons.2 ⟨bounded, stacked.bounded⟩, fun _ => entry⟩
  have link : readWord (pushMemory machine frame) frame = machine.freeFramePaddr := read_write_same word
  change Linked (pushMemory machine frame) (readWord (pushMemory machine frame) frame) stack
  rw [link]
  apply linked_words stacked.linked
  intro other member
  have otherAligned := stacked.aligned other member
  have differ : other ≠ frame := fun same => fresh (same ▸ member)
  rw [pushMemory, read_write_aligned (by omega) (by omega) differ]
  exact read_write_apart (slot_apart stacked.window otherAligned)

theorem stacked_elsewhere (stacked : Stacked machine stack) (untouched : Untouched machine next stack) :
    Stacked next stack where
  window := untouched.window
  linked := by
    rw [untouched.top]
    exact linked_same_on stacked.linked untouched.frames
  nodup := stacked.nodup
  aligned := stacked.aligned
  positive := stacked.positive
  bounded := stacked.bounded
  entry filled := by rw [untouched.entry, untouched.top, stacked.entry filled]

end Steps

section Runs

variable {machine : Machine} {stack : List Nat} {total : Nat}

/-- The free list is a stack, and the frames in use and on it add up to the total. -/
def Accounted (total : Nat) (machine : Machine) (stack : List Nat) : Prop :=
  Stacked machine stack ∧ u32 (machine.usedFrames + stack.length) = u32 total

/-- One call does to the machine what it does to the stack. -/
theorem step_matches (operation : Operation) (accounted : Accounted total machine stack)
    (allowed : legal (machine, stack) operation) :
    Matches (Accounted total) (machineStep machine operation) (stackStep stack operation) := by
  obtain ⟨stacked, counted⟩ := accounted
  cases operation with
  | freeFrame frame =>
      obtain ⟨aligned, positive, bounded, fresh⟩ := allowed
      rw [machineStep, free_frame_window stacked.window aligned bounded]
      refine ⟨rfl, stacked_push stacked aligned positive bounded fresh, ?_⟩
      change u32 (sub32 machine.usedFrames 1 + (stack.length + 1)) = u32 total
      rw [← counted, sub32]
      unfold u32
      omega
  | allocFrame =>
      cases stack with
      | nil =>
          rw [machineStep, alloc_frame_empty stacked.linked]
          rfl
      | cons frame rest =>
          rw [machineStep, pop_ok stacked]
          refine ⟨rfl, stacked_pop stacked, ?_⟩
          change u32 (u32 (machine.usedFrames + 1) + rest.length) = u32 total
          rw [← counted, List.length_cons]
          unfold u32
          omega
  | elsewhere next =>
      refine ⟨rfl, stacked_elsewhere stacked allowed, ?_⟩
      rw [allowed.used]
      exact counted

/-- A frame that is not on the stack gets there only by `free_frame`. -/
theorem stack_keeps_out {operations : List Operation} {observations : List (Option Nat)}
    {rest later : List Nat} {frame : Nat} (out : frame ∉ rest)
    (completed : run stackStep rest operations = .ok (observations, later))
    (notFreed : Operation.freeFrame frame ∉ operations) : frame ∉ later := by
  induction operations generalizing rest observations with
  | nil =>
      cases completed
      exact out
  | cons operation operations ih =>
      obtain ⟨observation, next, tail, first, second, _⟩ := run_cons completed
      refine ih ?_ second (fun member => notFreed (List.mem_cons_of_mem _ member))
      cases operation with
      | freeFrame other =>
          cases first
          have differ : frame ≠ other := fun same => notFreed (same ▸ List.mem_cons_self)
          exact fun member => out ((List.mem_cons.1 member).resolve_left differ)
      | allocFrame =>
          cases rest with
          | nil => cases first
          | cons top below =>
              cases first
              exact fun member => out (List.mem_cons_of_mem _ member)
      | elsewhere _ =>
          cases first
          exact out

/-- No frame is handed out twice unless it was freed in between. -/
def ReturnsOnce (machine : Machine) (operations : List Operation) : Prop :=
  ∀ before middle after frame observations final,
    operations = before ++ .allocFrame :: (middle ++ .allocFrame :: after) →
    run machineStep machine operations = .ok (observations, final) →
    observations[before.length]? = some (some frame) →
    observations[before.length + 1 + middle.length]? = some (some frame) →
    Operation.freeFrame frame ∈ middle

/-- The last of the operations took the top of the stack. -/
theorem alloc_takes_top {rest later : List Nat} {operations : List Operation}
    {observations : List (Option Nat)} {frame : Nat}
    (completed : run stackStep rest (.allocFrame :: operations) = .ok (observations, later))
    (taken : observations[0]? = some (some frame)) :
    ∃ below tail, rest = frame :: below ∧ observations = some frame :: tail ∧
      run stackStep below operations = .ok (tail, later) := by
  obtain ⟨observation, next, tail, first, second, same⟩ := run_cons completed
  rw [same, List.getElem?_cons_zero] at taken
  cases rest with
  | nil => cases first
  | cons top below =>
      cases first
      cases taken
      exact ⟨_, tail, rfl, same, second⟩

theorem returns_once_of_run {operations : List Operation} (accounted : Accounted total machine stack)
    (allowed : Allowed (bothStep machineStep stackStep) legal (machine, stack) operations) :
    ReturnsOnce machine operations := by
  intro before middle after frame observations final split completed first second
  by_contra notFreed
  have matched := run_matches (Accounted total) (fun _ _ operation related permitted =>
    step_matches operation related permitted) operations machine stack accounted allowed
  rw [split] at allowed matched completed
  have front := run_matches (Accounted total) (fun _ _ operation related permitted =>
    step_matches operation related permitted) before machine stack accounted (allowed_append allowed)
  rw [completed] at matched
  cases whole : run stackStep stack (before ++ .allocFrame :: (middle ++ .allocFrame :: after)) with
  | error trap =>
      rw [whole] at matched
      exact matched
  | ok outcome =>
      obtain ⟨expected, last⟩ := outcome
      rw [whole] at matched
      rw [matched.1] at first second
      obtain ⟨early, between, late, runBefore, runLate, parts, long⟩ := run_append whole
      rw [parts, List.getElem?_append_right (by omega), long, Nat.sub_self] at first
      obtain ⟨below, tail, isTop, isLate, runTail⟩ := alloc_takes_top runLate first
      obtain ⟨inner, end', rear, runMiddle, runRear, tailParts, innerLong⟩ := run_append runTail
      rw [parts, List.getElem?_append_right (by omega), isLate, long,
        show before.length + 1 + middle.length - before.length = middle.length + 1 by omega,
        List.getElem?_cons_succ, tailParts, List.getElem?_append_right (by omega), innerLong,
        Nat.sub_self] at second
      obtain ⟨lower, _, isAgain, _, _⟩ := alloc_takes_top runRear second
      -- the frame left the stack with the first call, and the second finds it on top
      have distinct : between.Nodup := by
        rw [runBefore] at front
        revert front
        cases run machineStep machine before with
        | error trap => exact False.elim
        | ok reached => exact fun front => front.2.1.nodup
      rw [isTop] at distinct
      have out := stack_keeps_out (List.nodup_cons.1 distinct).1 runMiddle notFreed
      rw [isAgain] at out
      exact out List.mem_cons_self

/-- The free-list page is set up behind the kernel, with the list empty. -/
theorem init_free_list_page_stacked {kernelEndVaddr : Nat} {start : Machine} (boot : Boot machine kernelEndVaddr)
    (made : initFreeListPageBehind kernelEndVaddr machine = .ok start) :
    Stacked start [] ∧ start.usedFrames = machine.usedFrames := by
  obtain ⟨rootAligned, rootBound⟩ := boot.root
  obtain ⟨table, tableAligned, tableBound, differ, entries⟩ := boot.table
  have kernelLow := boot.kernelLow
  have kernelHigh := boot.kernelHigh
  have selfMapped : SelfMapped machine.memory machine.cr3 := by
    rw [SelfMapped, entries 1023 (by decide), if_pos rfl, Present, frameOf]
    omega
  obtain ⟨addr, isAddr⟩ : ∃ addr, addr = alignNextPage (sub32 kernelEndVaddr 1) := ⟨_, rfl⟩
  have place : addr % 4096 = 0 ∧ 0xC0101000 ≤ addr ∧ addr ≤ 0xC0400000 := by
    rw [isAddr, sub32_of_le (by omega) (by omega), alignNextPage, pageSize]
    unfold u32
    omega
  rw [initFreeListPageBehind, ← isAddr] at made
  simp only [get_pd_index_page, get_pt_index_page] at made
  obtain ⟨directory, loaded, made⟩ := Trap.bind_eq_ok.1 made
  rw [show pde { machine with freeListHeadPte := pteAddr (addr / 4096 / 1024) (addr / 4096 % 1024) }
      (addr / 4096 / 1024) = .ok (directoryEntry machine.memory machine.cr3 (addr / 4096 / 1024)) from
    pde_ok selfMapped (by omega), Except.ok.injEq] at loaded
  obtain ⟨_, there, made⟩ := Trap.bind_eq_ok.1 made
  obtain ⟨_, _, made⟩ := Trap.bind_eq_ok.1 made
  obtain ⟨_, _, made⟩ := Trap.bind_eq_ok.1 made
  rw [Trap.kernel_assert_eq_ok, entry_present_iff, ← loaded] at there
  have notNext : addr / 4096 / 1024 ≠ 0x301 := by
    intro next
    rw [next, entries 0x301 (by decide), if_neg (by decide), if_neg (by decide)] at there
    exact not_present_zero there
  have index : addr / 4096 / 1024 = 0x300 := by omega
  have isTable : directoryEntry machine.memory machine.cr3 0x300 = table + 1 := entries 0x300 (by decide)
  cases made
  have page : windowPage { machine with
      freeListHead := addr
      freeListHeadPte := pteAddr (addr / 4096 / 1024) (addr / 4096 % 1024) } = addr / 4096 := rfl
  refine ⟨⟨⟨selfMapped, rootAligned, place.1, show addr < 0xFFC00000 by omega, ?_, ?_, ?_, ?_⟩, boot.empty,
    List.nodup_nil, ?_, ?_, ?_, ?_⟩, rfl⟩
  · rw [page]
    exact pte_addr_page (by omega)
  · rw [page]
    exact there
  · rw [page, index, isTable, frameOf]
    change (table + 1) / 4096 * 4096 ≠ machine.cr3
    omega
  · rw [page]
    omega
  · exact List.forall_mem_nil _
  · exact List.forall_mem_nil _
  · exact List.forall_mem_nil _
  · exact fun filled => absurd rfl filled

/-- From the empty list on, `free_frame` and `alloc_frame` are push and pop of a stack that is held
in the free frames, whatever happens to the other frames in between. -/
theorem free_list_is_stack (machine start : Machine) (kernelEndVaddr : Nat) (operations : List Operation)
    (boot : Boot machine kernelEndVaddr) (made : initFreeListPageBehind kernelEndVaddr machine = .ok start)
    (allowed : Allowed (bothStep machineStep stackStep) legal (start, []) operations) :
    Matches (fun final stack => Holds final stack ∧
        u32 (final.usedFrames + stack.length) = u32 machine.usedFrames)
      (run machineStep start operations) (run stackStep [] operations) ∧
      ReturnsOnce start operations := by
  obtain ⟨stacked, used⟩ := init_free_list_page_stacked boot made
  have accounted : Accounted machine.usedFrames start [] :=
    ⟨stacked, by rw [used, List.length_nil, Nat.add_zero]⟩
  refine ⟨?_, returns_once_of_run accounted allowed⟩
  have matched := run_matches (Accounted machine.usedFrames) (fun _ _ operation related permitted =>
    step_matches operation related permitted) operations start [] accounted allowed
  revert matched
  cases run machineStep start operations with
  | error trap =>
      cases run stackStep [] operations with
      | error expected => exact id
      | ok expected => exact id
  | ok outcome =>
      cases run stackStep [] operations with
      | error expected => exact id
      | ok expected =>
          rintro ⟨same, final, counted⟩
          exact ⟨same, holds_of_stacked final, counted⟩

end Runs

section Sample

/-- The directory of the boot code at 0x10000, with its table behind it. -/
def bootWords : List (Nat × Nat) := [(0x10000, 0x11001), (0x10C00, 0x11001), (0x10FFC, 0x10001)]

def bootMachine : Machine :=
  { PagingChecks.sampleMachine with
    memory := PagingChecks.imageOf bootWords
    freeFramePaddr := 0 }

theorem boot_machine_boot : Boot bootMachine 0xC0110000 where
  root := by decide
  table := ⟨0x11000, by decide, by decide, by decide, by decide +kernel⟩
  kernelLow := by decide
  kernelHigh := by decide
  empty := rfl

/-- Behind a small kernel, a frame that was freed is the next one allocated. -/
theorem free_list_is_stack_boot : ∃ start final, initFreeListPageBehind 0xC0110000 bootMachine = .ok start ∧
    run machineStep start [.freeFrame 0x20000, .allocFrame] = .ok ([none, some 0x20000], final) := by
  obtain ⟨start, made, _⟩ := PagingChecks.returns_with_iff.1
    (by decide +kernel : PagingChecks.returnsWith (initFreeListPageBehind 0xC0110000 bootMachine)
      (fun _ => true) = true)
  have allowed : Allowed (bothStep machineStep stackStep) legal (start, [])
      [.freeFrame 0x20000, .allocFrame] := by
    refine ⟨⟨by decide, by decide, by decide, List.not_mem_nil⟩, ?_⟩
    rintro _ ⟨next, stack⟩ _
    exact ⟨trivial, fun _ _ _ => trivial⟩
  have both := (free_list_is_stack bootMachine start 0xC0110000 [.freeFrame 0x20000, .allocFrame]
    boot_machine_boot made allowed).1
  cases reached : run machineStep start [.freeFrame 0x20000, .allocFrame] with
  | error trap =>
      rw [reached] at both
      exact both.elim
  | ok outcome =>
      obtain ⟨observations, final⟩ := outcome
      rw [reached] at both
      obtain ⟨same, _⟩ := both
      exact ⟨start, final, made, by rw [reached, same]⟩

end Sample

end ParadiseOS.FreeStack
