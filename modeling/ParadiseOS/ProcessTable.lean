import ParadiseOS.FrameOwners
import ParadiseOS.LinkedChain
import ParadiseOS.ProcessFrames

/-!
# The process table and the pool

Slots come in pages of the kernel's heap. A slot is free, and on the list of the
pool, or it was handed out and is registered under its pid. Deleting a process by a
pid with a thread half finds the process and frees its slot, but takes nothing out
of the table.
-/

namespace ParadiseOS.ProcessTable

open ColouredLine HeapModel HeapRuns HeapLockstep HeapUsage MachineWord LinkedChain MemModel PagingModel
open FrameLedger FrameOwners FrameSteps HeapRegions NewDirectory PagingChecks PagingMaps PagingSteps
open ProcessFrames ProcessModel StepRun
open MailboxModel (getPidAid getPidTid)
open RbTreeModel (RbTree rbFind rbInsert rbRemove)
open RbTreeRuns

set_option autoImplicit false

section Statement

/-- A place for a process on a page of the kernel's heap that is in use. -/
def IsSlot (system : System) (slot : Nat) : Prop :=
  ∃ index < system.machine.kernelHeap.pageCount,
    heapGetUsage system.machine.kernelHeap index ≠ heapPageFree ∧
    ∃ number < 128, slot = pagePtr system.machine.kernelHeap index + sizeOfProcess * number

/-- The free list of the pool is a finite list of distinct slots that are not in the table, the
table has only slots that are handed out, and no slot was handed out twice. -/
structure TableIntegrity (system : System) : Prop where
  free : ∃ slots, Chain 0 system.machine.pageDirPaddr system.freeList slots ∧ slots.Nodup ∧
    ∀ slot ∈ slots, IsSlot system slot ∧
      ¬ Reachable system.machine.processTree (slot + rbNodeOffset)
  table : ∀ node, Reachable system.machine.processTree node →
    ∃ process ∈ system.occupied, node = process + rbNodeOffset
  occupied : system.occupied.Nodup

/-- Pids are words. -/
def LegalCall (_ : System) : SystemCall → Prop
  | .delete pid => pid < 4294967296
  | _ => True

/-- A pid to delete names its process by the whole key, with no thread half. -/
def DeletesWholeAid (system : System) : SystemCall → Prop
  | .delete pid => getPidTid pid = 0 ∨ getProcess system.machine.processTree (getPidAid pid) = .ok 0
  | _ => True

/-- The kernel's heap when the process layer starts: sound, in the upper half, and behind the
kernel's own objects, of which the tree's sentinel is one. -/
structure HeapReady (machine : Machine) (nil : Nat) : Prop where
  invariant : ∃ live, HeapInvariant machine.kernelHeap.pageCount ⟨machine.kernelHeap, live⟩
  near : machine.kernelHeap.pageCount ≤ 524288
  room : machine.kernelHeap.heapStart + machine.kernelHeap.pageCount * 4096 ≤ 4294967296
  behind : nil < machine.kernelHeap.heapStart

end Statement

/-- A slot on a page that one of the live blocks begins with. -/
def OnPage (heap : Heap) (live : List Block) (slot : Nat) : Prop :=
  ∃ block ∈ live, ∃ number < 128, slot = heap.heapStart + block.start * 4096 + sizeOfProcess * number

/-- The table is the dictionary, and the free slots and the occupied ones are told apart. -/
structure Accounted (system : System) (dict : Dictionary) (slots : List Nat) (live : List Block) :
    Prop where
  related : Related system.machine.processTree dict
  chain : Chain 0 system.machine.pageDirPaddr system.freeList slots
  keys : ∀ key node, dict key = some node → key % 65536 = 0 ∧ key < 4294967296 ∧
    ∃ process ∈ system.occupied, node = process + rbNodeOffset
  nodup : system.occupied.Nodup
  apart : ∀ slot ∈ slots, slot ∉ system.occupied
  freeOnPage : ∀ slot ∈ slots, OnPage system.machine.kernelHeap live slot
  usedOnPage : ∀ process ∈ system.occupied, OnPage system.machine.kernelHeap live process
  invariant : HeapInvariant system.machine.kernelHeap.pageCount ⟨system.machine.kernelHeap, live⟩
  near : system.machine.kernelHeap.pageCount ≤ 524288
  room : system.machine.kernelHeap.heapStart + system.machine.kernelHeap.pageCount * 4096 ≤ 4294967296
  behind : system.machine.processTree.nil < system.machine.kernelHeap.heapStart
  aid : system.aidCounter < 65536

section Slots

variable {system next : System} {dict : Dictionary} {slots : List Nat} {live : List Block}
  {heap : Heap} {slot process : Nat}

theorem page_ptr_room {index : Nat} (room : heap.heapStart + heap.pageCount * 4096 ≤ 4294967296)
    (below : index < heap.pageCount) : pagePtr heap index = heap.heapStart + index * 4096 := by
  unfold pagePtr u32
  omega

/-- Where the slots of a live page lie. -/
theorem on_page_bounds (invariant : HeapInvariant heap.pageCount ⟨heap, live⟩)
    (room : heap.heapStart + heap.pageCount * 4096 ≤ 4294967296) (placed : OnPage heap live slot) :
    heap.heapStart ≤ slot ∧ slot + 32 ≤ 4294967296 := by
  obtain ⟨block, member, number, small, rfl⟩ := placed
  have inside : block.start < heap.pageCount := (invariant.coloured.inhabited block member).1
  unfold sizeOfProcess
  omega

theorem integrity_of_accounted (accounted : Accounted system dict slots live) : TableIntegrity system := by
  refine ⟨⟨slots, accounted.chain, chain_nodup accounted.chain, ?_⟩, ?_, accounted.nodup⟩
  · intro slot member
    constructor
    · obtain ⟨block, isLive, number, small, rfl⟩ := accounted.freeOnPage slot member
      have inside : block.start < system.machine.kernelHeap.pageCount :=
        (accounted.invariant.coloured.inhabited block isLive).1
      refine ⟨block.start, inside, accounted.invariant.coloured.start_used isLive, number, small, ?_⟩
      rw [page_ptr_room accounted.room inside]
    · intro reachable
      obtain ⟨key, found⟩ := (related_reachable accounted.related).1 reachable
      obtain ⟨_, _, process, occupied, same⟩ := accounted.keys key _ found
      have equal : slot = process := by omega
      exact accounted.apart slot member (equal ▸ occupied)
  · intro node reachable
    obtain ⟨key, found⟩ := (related_reachable accounted.related).1 reachable
    exact (accounted.keys key node found).2.2

/-- The tree, the slots and who has them are the same. -/
structure SameTable (system next : System) : Prop where
  processTree : next.machine.processTree = system.machine.processTree
  pageDirPaddr : next.machine.pageDirPaddr = system.machine.pageDirPaddr
  freeList : next.freeList = system.freeList
  occupied : next.occupied = system.occupied
  aid : system.aidCounter < 65536 → next.aidCounter < 65536

/-- A step that changes the marks of the heap only. -/
theorem accounted_heap (accounted : Accounted system dict slots live) (same : SameTable system next)
    (start : next.machine.kernelHeap.heapStart = system.machine.kernelHeap.heapStart)
    (count : next.machine.kernelHeap.pageCount = system.machine.kernelHeap.pageCount)
    (invariant : HeapInvariant system.machine.kernelHeap.pageCount ⟨next.machine.kernelHeap, live⟩) :
    Accounted next dict slots live where
  related := same.processTree ▸ accounted.related
  chain := by
    rw [same.pageDirPaddr, same.freeList]
    exact accounted.chain
  keys := same.occupied ▸ accounted.keys
  nodup := same.occupied ▸ accounted.nodup
  apart := same.occupied ▸ accounted.apart
  freeOnPage slot member := by
    have placed := accounted.freeOnPage slot member
    rw [OnPage] at placed ⊢
    rwa [start]
  usedOnPage process member := by
    have placed := accounted.usedOnPage process (same.occupied ▸ member)
    rw [OnPage] at placed ⊢
    rwa [start]
  invariant := count.symm ▸ invariant
  near := count.symm ▸ accounted.near
  room := by
    rw [start, count]
    exact accounted.room
  behind := by
    rw [start, same.processTree]
    exact accounted.behind
  aid := same.aid accounted.aid

theorem accounted_same (accounted : Accounted system dict slots live) (same : SameTable system next)
    (heap : next.machine.kernelHeap = system.machine.kernelHeap) : Accounted next dict slots live :=
  accounted_heap accounted same (by rw [heap]) (by rw [heap]) (heap ▸ accounted.invariant)

end Slots

section Steps

variable {system next : System} {machine : Machine} {dict : Dictionary} {slots : List Nat}
  {live : List Block} {process pid : Nat}

theorem accounted_new_page_dir {frame : Nat} (accounted : Accounted system dict slots live)
    (made : newPageDir system.machine = .ok (frame, machine)) :
    Accounted (system.onMachine machine) dict slots live := by
  obtain ⟨tree, dirs, ptr, marked, freedCount, allocated, released⟩ := new_page_dir_objects made
  have near := accounted.near
  obtain ⟨first, _, _, _, fits, _, _, vacant, _⟩ := heap_alloc_ok (by decide) (by omega) allocated
  have free : ∃ index < 524288, index < system.machine.kernelHeap.pageCount ∧
      heapGetUsage system.machine.kernelHeap index = heapPageFree :=
    ⟨first, by omega, by omega, vacant first (by omega) (by omega)⟩
  obtain ⟨start, count, invariant⟩ :=
    borrow_page (by omega) accounted.invariant free allocated released
  exact accounted_heap accounted ⟨tree, dirs, rfl, rfl, id⟩ start count invariant

/-- `next_free_aid` returns a pid with no thread half that is not registered. -/
theorem free_aid_loop_ok (related : Related system.machine.processTree dict) (fuel : Nat)
    {aid aidCounter : Nat} (small : aid < 65536)
    (found : freeAidLoop system fuel aid = .ok (pid, aidCounter)) :
    dict pid = none ∧ pid % 65536 = 0 ∧ pid < 4294967296 ∧ aidCounter < 65536 := by
  induction fuel generalizing aid with
  | zero => cases found
  | succ fuel ih =>
      obtain ⟨node, search, found⟩ := Trap.bind_eq_ok.mp found
      have place : u32 (aid <<< 16) = aid * 65536 := by
        rw [Nat.shiftLeft_eq]
        exact u32_of_lt (by omega)
      rw [find_answer related, Except.ok.injEq] at search
      split_ifs at found with free again
      · simp only [Trap.pure_ok, Except.ok.injEq, Prod.mk.injEq] at found
        obtain ⟨rfl, rfl⟩ := found
        refine ⟨?_, by omega, by omega, Nat.mod_lt _ (by decide)⟩
        cases entry : dict (u32 (aid <<< 16)) with
        | none => rfl
        | some other =>
            rw [entry, Option.getD_some] at search
            obtain ⟨shape, wellFormed, registered⟩ := related
            have member := List.mem_map_of_mem (f := RbTreeShape.Entry.addr) ((registered _ _).1 entry)
            exact absurd (search.trans free) (wellFormed.represents.nonzero _ member)
      · exact ih (Nat.mod_lt _ (by decide)) found

theorem next_free_aid_ok (accounted : Accounted system dict slots live)
    (found : nextFreeAid system = .ok (pid, next)) :
    dict pid = none ∧ pid % 65536 = 0 ∧ pid < 4294967296 ∧ Accounted next dict slots live ∧
      next = { system with aidCounter := next.aidCounter } := by
  obtain ⟨⟨free, aidCounter⟩, searched, found⟩ := Trap.bind_eq_ok.mp found
  simp only [Trap.pure_ok, Except.ok.injEq, Prod.mk.injEq] at found
  obtain ⟨rfl, rfl⟩ := found
  obtain ⟨absent, whole, word, small⟩ := free_aid_loop_ok accounted.related _ accounted.aid searched
  exact ⟨absent, whole, word, accounted_same accounted ⟨rfl, rfl, rfl, rfl, fun _ => small⟩ rfl, rfl⟩

/-- Only the links and the head of the pool's free list differ. -/
def LinksOnly (system next : System) : Prop :=
  next = { system with
    machine := { system.machine with pageDirPaddr := next.machine.pageDirPaddr }
    freeList := next.freeList }

/-- The slots of a new page are put on the free list. -/
theorem pool_fill_ok (n : Nat) {processes : Nat}
    (chain : Chain 0 system.machine.pageDirPaddr system.freeList slots) (positive : 0 < processes)
    (room : processes + 32 * n ≤ 4294967296)
    (fresh : ∀ number < n, processes + 32 * number ∉ slots)
    (vacant : ∀ number < n, processes + 32 * number ∉ system.occupied) :
    LinksOnly system (poolFill system processes n) ∧ ∃ after,
      Chain 0 (poolFill system processes n).machine.pageDirPaddr (poolFill system processes n).freeList
        after ∧
      ∀ slot, slot ∈ after ↔ slot ∈ slots ∨ ∃ number < n, slot = processes + 32 * number := by
  induction n generalizing system slots with
  | zero =>
      refine ⟨rfl, slots, chain, ?_⟩
      intro slot
      constructor
      · exact .inl
      · rintro (member | ⟨number, small, _⟩)
        · exact member
        · omega
  | succ n ih =>
      have place : u32 (processes + sizeOfProcess * n) = processes + 32 * n :=
        u32_of_lt (by unfold sizeOfProcess; omega)
      have here := fresh n (by omega)
      have pushed := chain_push chain (show processes + 32 * n ≠ 0 by omega) here
      have kept : system.occupied.erase (processes + 32 * n) = system.occupied :=
        List.erase_of_not_mem (vacant n (by omega))
      rw [poolFill, place]
      have destroyed : LinksOnly system (poolDestroy system (processes + 32 * n)) := by
        rw [LinksOnly, poolDestroy, kept]
      obtain ⟨links, after, walk, members⟩ := @ih (poolDestroy system (processes + 32 * n))
        ((processes + 32 * n) :: slots) pushed (by omega) (by
          intro number small member
          rcases List.mem_cons.1 member with same | old
          · omega
          · exact fresh number (by omega) old) (by
          intro number small member
          change _ ∈ system.occupied.erase _ at member
          rw [kept] at member
          exact vacant number (by omega) member)
      refine ⟨?_, after, walk, ?_⟩
      · unfold LinksOnly at links destroyed ⊢
        rw [links, destroyed]
      · intro slot
        rw [members slot, List.mem_cons]
        constructor
        · rintro ((same | old) | ⟨number, small, same⟩)
          · exact .inr ⟨n, by omega, same⟩
          · exact .inl old
          · exact .inr ⟨number, by omega, same⟩
        · rintro (old | ⟨number, small, same⟩)
          · exact .inl (.inr old)
          · by_cases last : number = n
            · exact .inl (.inl (last ▸ same))
            · exact .inr ⟨number, by omega, same⟩

/-- The queue, what runs and what was started are the same. -/
structure SameRuns (system after : System) : Prop where
  runQueue : after.runQueue = system.runQueue
  next : after.next = system.next
  current : after.current = system.current
  started : after.started = system.started

/-- A slot of a live page does not lie on the page that was free. -/
theorem fresh_page_apart (accounted : Accounted system dict slots live) {processes slot : Nat} {marked : Heap}
    (allocated : heapAlloc system.machine.kernelHeap 1 = .ok (processes, marked))
    (placed : OnPage system.machine.kernelHeap live slot) (number : Nat) (small : number < 128) :
    processes + 32 * number ≠ slot := by
  have near := accounted.near
  have room := accounted.room
  obtain ⟨first, color, isPtr, _, fits, _, _, vacant, _⟩ := heap_alloc_ok (by decide) (by omega) allocated
  have address := page_ptr_room room (show first < system.machine.kernelHeap.pageCount by omega)
  obtain ⟨block, member, other, low, rfl⟩ := placed
  have differ : block.start ≠ first := by
    intro equal
    exact accounted.invariant.coloured.start_used member (vacant block.start (by omega) (by omega))
  rw [isPtr, address]
  unfold sizeOfProcess
  omega

/-- A new page gives slots of its own. -/
theorem pool_refill_ok (accounted : Accounted system dict slots live)
    (refilled : poolRefill system = .ok next) :
    ∃ after later, Accounted next dict after later ∧ slots ⊆ after ∧ next.freeList ≠ 0 ∧
      (system.freeList ≠ 0 → next = system) ∧ next.occupied = system.occupied ∧ SameRuns system next ∧
      next.machine.processTree = system.machine.processTree := by
  unfold poolRefill at refilled
  split_ifs at refilled with empty
  · obtain ⟨⟨processes, machine⟩, allocating, refilled⟩ := Trap.bind_eq_ok.mp refilled
    simp only [Trap.pure_ok, Except.ok.injEq] at refilled
    obtain ⟨tree, dirs, allocated⟩ := kernel_alloc_objects allocating
    have near := accounted.near
    have room := accounted.room
    have placed := alloc_invariant (by omega) accounted.invariant (by decide) allocated
    obtain ⟨first, color, isPtr, isMarked, fits, _, _, vacant, _⟩ :=
      heap_alloc_ok (by decide) (by omega) allocated
    have inside : first < system.machine.kernelHeap.pageCount := by omega
    have address := page_ptr_room room inside
    have offset : pageOffset system.machine.kernelHeap processes = first := by
      rw [isPtr]
      exact page_offset_ptr accounted.invariant.startBound (by omega)
    change HeapInvariant _ ⟨machine.kernelHeap, ⟨pageOffset system.machine.kernelHeap processes, 1⟩ :: live⟩
      at placed
    rw [offset] at placed
    have start : machine.kernelHeap.heapStart = system.machine.kernelHeap.heapStart := by
      rw [isMarked, set_usage_from_start]
    have count : machine.kernelHeap.pageCount = system.machine.kernelHeap.pageCount := by
      rw [isMarked, set_usage_from_count]
    have where_ : processes = system.machine.kernelHeap.heapStart + first * 4096 := isPtr.trans address
    have behind := accounted.behind
    have noSlots : slots = [] := (chain_nil_iff accounted.chain).2 empty
    subst noSlots
    have elsewhere := fun slot => @fresh_page_apart system dict [] live accounted processes slot _ allocated
    have chain : Chain 0 (system.onMachine machine).machine.pageDirPaddr
        (system.onMachine machine).freeList [] := empty
    have count128 : pageSize / sizeOfProcess = 128 := by decide
    rw [count128] at refilled
    obtain ⟨links, after, walk, members⟩ := pool_fill_ok 128 chain (by omega) (by omega)
      (fun _ _ => List.not_mem_nil)
      (fun number small member => elsewhere _ (accounted.usedOnPage _ member) number small rfl)
    rw [refilled] at links walk
    have isTree : next.machine.processTree = system.machine.processTree := by
      rw [links]
      exact tree
    have isHeap : next.machine.kernelHeap = machine.kernelHeap := by rw [links]; rfl
    have isOccupied : next.occupied = system.occupied := by rw [links]; rfl
    have nonempty : next.freeList ≠ 0 := by
      intro zero
      have none := (chain_nil_iff walk).2 zero
      have some := (members processes).2 (.inr ⟨0, by decide, rfl⟩)
      rw [none] at some
      cases some
    have older : ∀ slot, OnPage system.machine.kernelHeap live slot →
        OnPage next.machine.kernelHeap (⟨first, 1⟩ :: live) slot := by
      rintro slot ⟨block, member, number, small, same⟩
      refine ⟨block, List.mem_cons_of_mem _ member, number, small, ?_⟩
      rw [isHeap, start]
      exact same
    refine ⟨after, ⟨first, 1⟩ :: live, ⟨isTree ▸ accounted.related, walk, isOccupied ▸ accounted.keys,
      isOccupied ▸ accounted.nodup, ?_, ?_, ?_, ?_, ?_, ?_, ?_, ?_⟩, List.nil_subset _, nonempty,
      fun filled => absurd empty filled, isOccupied, ⟨?_, ?_, ?_, ?_⟩, isTree⟩
    · intro slot member occupied
      rw [isOccupied] at occupied
      rcases (members slot).1 member with old | ⟨number, small, same⟩
      · cases old
      · exact elsewhere slot (accounted.usedOnPage slot occupied) number small same.symm
    · intro slot member
      rcases (members slot).1 member with old | ⟨number, small, same⟩
      · cases old
      · refine ⟨⟨first, 1⟩, List.mem_cons_self, number, small, ?_⟩
        rw [isHeap, start, same, where_]
        rfl
    · intro process member
      exact older process (accounted.usedOnPage process (isOccupied ▸ member))
    · rw [isHeap, count]
      exact placed
    · rw [isHeap, count]
      exact near
    · rw [isHeap, start, count]
      exact room
    · rw [isTree, isHeap, start]
      exact behind
    · have kept : next.aidCounter = system.aidCounter := by rw [links]; rfl
      rw [kept]
      exact accounted.aid
    all_goals rw [links]; rfl
  · rw [Except.ok.injEq] at refilled
    subst refilled
    exact ⟨slots, live, accounted, List.Subset.refl _, empty, fun _ => rfl, rfl, ⟨rfl, rfl, rfl, rfl⟩, rfl⟩

/-- `pool_create` hands out a slot that nobody has. -/
theorem pool_create_ok (accounted : Accounted system dict slots live)
    (created : poolCreate system = .ok (process, next)) :
    ∃ after later, Accounted next dict after later ∧ process ∉ system.occupied ∧
      next.occupied = process :: system.occupied ∧ process ∉ after ∧ slots ⊆ process :: after ∧
      (system.freeList ≠ 0 → process = system.freeList) ∧ SameRuns system next ∧
      next.machine.processTree = system.machine.processTree := by
  obtain ⟨refilled, filling, created⟩ := Trap.bind_eq_ok.mp created
  simp only [Trap.pure_ok, Except.ok.injEq, Prod.mk.injEq] at created
  obtain ⟨rfl, rfl⟩ := created
  obtain ⟨after, later, filled, subset, nonzero, untouched, occupied, runs, tree⟩ :=
    pool_refill_ok accounted filling
  cases after with
  | nil => exact absurd ((chain_nil_iff filled.chain).1 rfl) nonzero
  | cons first rest =>
      have nodup := chain_nodup filled.chain
      obtain ⟨isFirst, notNull, chain⟩ := filled.chain
      have free : first ∉ refilled.occupied := filled.apart first List.mem_cons_self
      rw [isFirst]
      refine ⟨rest, later, ⟨filled.related, isFirst ▸ chain, ?_, ?_, ?_, ?_, ?_, filled.invariant,
        filled.near, filled.room, filled.behind, filled.aid⟩, occupied ▸ free, ?_,
        (List.nodup_cons.1 nodup).1, subset, ?_, ⟨runs.runQueue, runs.next, runs.current, runs.started⟩,
        tree⟩
      · intro key node found
        obtain ⟨whole, word, process, member, same⟩ := filled.keys key node found
        exact ⟨whole, word, process, List.mem_cons_of_mem _ member, same⟩
      · exact List.nodup_cons.2 ⟨isFirst ▸ free, filled.nodup⟩
      · intro slot member taken
        rcases List.mem_cons.1 taken with same | old
        · exact (List.nodup_cons.1 nodup).1 (same ▸ member)
        · exact filled.apart slot (List.mem_cons_of_mem _ member) old
      · exact fun slot member => filled.freeOnPage slot (List.mem_cons_of_mem _ member)
      · intro process member
        rcases List.mem_cons.1 member with same | old
        · rw [same]
          exact filled.freeOnPage first List.mem_cons_self
        · exact filled.usedOnPage process old
      · rw [occupied]
      · intro full
        rw [← isFirst, untouched full]

theorem pool_fill_machine (processes n : Nat) : (poolFill system processes n).machine =
    { system.machine with pageDirPaddr := (poolFill system processes n).machine.pageDirPaddr } := by
  induction n generalizing system with
  | zero => rfl
  | succ n ih =>
      rw [poolFill, ih]
      rfl

theorem pool_fill_counter (processes n : Nat) :
    (poolFill system processes n).aidCounter = system.aidCounter := by
  induction n generalizing system with
  | zero => rfl
  | succ n ih => exact ih

theorem pool_create_counter (created : poolCreate system = .ok (process, next)) :
    next.aidCounter = system.aidCounter := by
  obtain ⟨refilled, filling, created⟩ := Trap.bind_eq_ok.mp created
  simp only [Trap.pure_ok, Except.ok.injEq, Prod.mk.injEq] at created
  obtain ⟨_, rfl⟩ := created
  unfold poolRefill at filling
  split_ifs at filling with empty
  · obtain ⟨⟨ptr, machine⟩, _, filling⟩ := Trap.bind_eq_ok.mp filling
    simp only [Trap.pure_ok, Except.ok.injEq] at filling
    subst filling
    have kept := @pool_fill_counter (system.onMachine machine) ptr (pageSize / sizeOfProcess)
    generalize poolFill (system.onMachine machine) ptr (pageSize / sizeOfProcess) = filled at kept ⊢
    exact kept
  · rw [Except.ok.injEq] at filling
    subst filling
    rfl

theorem pool_fill_free_list (processes n : Nat) :
    (poolFill system processes (n + 1)).freeList = u32 processes := by
  induction n generalizing system with
  | zero => rfl
  | succ n ih => exact ih

/-- `pool_create` leaves memory alone, or takes a page whose start is the slot. -/
theorem pool_create_takes (created : poolCreate system = .ok (process, next)) :
    (system.freeList ≠ 0 ∧ next.machine = system.machine) ∨
      (system.freeList = 0 ∧ ∃ ptr machine, kernelAlloc system.machine 1 = .ok (ptr, machine) ∧
        process = u32 ptr ∧ next.machine = { machine with pageDirPaddr := next.machine.pageDirPaddr }) := by
  obtain ⟨refilled, filling, created⟩ := Trap.bind_eq_ok.mp created
  simp only [Trap.pure_ok, Except.ok.injEq, Prod.mk.injEq] at created
  obtain ⟨rfl, rfl⟩ := created
  unfold poolRefill at filling
  split_ifs at filling with empty
  · obtain ⟨⟨ptr, machine⟩, allocating, filling⟩ := Trap.bind_eq_ok.mp filling
    simp only [Trap.pure_ok, Except.ok.injEq] at filling
    subst filling
    exact .inr ⟨empty, ptr, machine, allocating, pool_fill_free_list _ 127, pool_fill_machine _ _⟩
  · rw [Except.ok.injEq] at filling
    subst filling
    exact .inl ⟨empty, rfl⟩

theorem pool_create_machine (created : poolCreate system = .ok (process, next)) :
    next.machine = system.machine ∨ ∃ ptr machine, kernelAlloc system.machine 1 = .ok (ptr, machine) ∧
      next.machine = { machine with pageDirPaddr := next.machine.pageDirPaddr } := by
  rcases pool_create_takes created with ⟨_, same⟩ | ⟨_, ptr, machine, allocating, _, same⟩
  · exact .inl same
  · exact .inr ⟨ptr, machine, allocating, same⟩

/-- The links of new slots are written to those slots only. -/
theorem pool_fill_keeps (processes n : Nat) {other : Nat}
    (apart : ∀ number < n, u32 (processes + sizeOfProcess * number) ≠ other) :
    (poolFill system processes n).machine.pageDirPaddr other = system.machine.pageDirPaddr other := by
  induction n generalizing system with
  | zero => rfl
  | succ n ih =>
      rw [poolFill, ih fun number small => apart number (by omega)]
      exact Function.update_of_ne (apart n (by omega)).symm _ _

/-- Processes keep their directories when another one is created. -/
theorem pool_create_keeps (accounted : Accounted system dict slots live) {other : Nat}
    (member : other ∈ system.occupied) (created : poolCreate system = .ok (process, next)) :
    next.machine.pageDirPaddr other = system.machine.pageDirPaddr other := by
  obtain ⟨refilled, filling, created⟩ := Trap.bind_eq_ok.mp created
  simp only [Trap.pure_ok, Except.ok.injEq, Prod.mk.injEq] at created
  obtain ⟨_, rfl⟩ := created
  unfold poolRefill at filling
  split_ifs at filling with empty
  · obtain ⟨⟨processes, machine⟩, allocating, filling⟩ := Trap.bind_eq_ok.mp filling
    simp only [Trap.pure_ok, Except.ok.injEq] at filling
    subst filling
    obtain ⟨_, dirs, allocated⟩ := kernel_alloc_objects allocating
    change (poolFill (system.onMachine machine) processes _).machine.pageDirPaddr other = _
    rw [pool_fill_keeps]
    · exact congrFun dirs other
    · intro number small
      have placed := accounted.usedOnPage other member
      have room := accounted.room
      have bounds := on_page_bounds accounted.invariant accounted.room placed
      have apart := fresh_page_apart accounted allocated placed number small
      intro same
      unfold u32 sizeOfProcess at same
      have near := accounted.near
      obtain ⟨first, _, isPtr, _, fits, _⟩ := heap_alloc_ok (by decide) (by omega) allocated
      have address := page_ptr_room room
        (show first < system.machine.kernelHeap.pageCount by omega)
      rw [isPtr, address] at same apart
      unfold pageSize sizeOfProcess at small
      omega
  · rw [Except.ok.injEq] at filling
    subst filling
    rfl

theorem set_process_dir_accounted (accounted : Accounted system dict slots live) (fresh : process ∉ slots)
    (pageDir : Nat) : Accounted (setProcessDir system process pageDir) dict slots live where
  related := accounted.related
  chain := chain_update accounted.chain fresh pageDir
  keys := accounted.keys
  nodup := accounted.nodup
  apart := accounted.apart
  freeOnPage := accounted.freeOnPage
  usedOnPage := accounted.usedOnPage
  invariant := accounted.invariant
  near := accounted.near
  room := accounted.room
  behind := accounted.behind
  aid := accounted.aid

def register (dict : Dictionary) (process pid : Nat) : Dictionary :=
  fun key => if key = pid then some (process + rbNodeOffset) else dict key

/-- A slot that was handed out and is not registered is a node to insert. -/
theorem slot_insertable (accounted : Accounted system dict slots live) (member : process ∈ system.occupied)
    (unregistered : ∀ key, dict key ≠ some (process + rbNodeOffset)) (pid : Nat) :
    u32 (process + rbNodeOffset) = process + rbNodeOffset ∧
      RbTreeRuns.LegalCall system.machine.processTree (.insert (process + rbNodeOffset) pid) := by
  obtain ⟨low, high⟩ := on_page_bounds accounted.invariant accounted.room
    (accounted.usedOnPage process member)
  have behind := accounted.behind
  have absent : ¬ Reachable system.machine.processTree (process + rbNodeOffset) := by
    intro reachable
    obtain ⟨key, found⟩ := (related_reachable accounted.related).1 reachable
    exact unregistered key found
  refine ⟨u32_of_lt (by unfold rbNodeOffset; omega), ?_, ?_, ?_, absent⟩ <;> unfold rbNodeOffset <;> omega

theorem insert_process_ok (accounted : Accounted system dict slots live) (member : process ∈ system.occupied)
    (unregistered : ∀ key, dict key ≠ some (process + rbNodeOffset)) (free : dict pid = none)
    (whole : pid % 65536 = 0) (word : pid < 4294967296)
    (inserted : insertProcess system process pid = .ok next) :
    Accounted next (register dict process pid) slots live ∧ SameRuns system next ∧
      next.occupied = system.occupied := by
  obtain ⟨⟨done, tree⟩, inserting, inserted⟩ := Trap.bind_eq_ok.mp inserted
  simp only [Trap.pure_ok, Except.ok.injEq] at inserted
  subst inserted
  have behind := accounted.behind
  obtain ⟨place, legal⟩ := slot_insertable accounted member unregistered pid
  rw [place] at inserting
  obtain ⟨related, nil⟩ := insert_related accounted.related legal free inserting
  refine ⟨⟨related, accounted.chain, ?_, accounted.nodup, accounted.apart, accounted.freeOnPage,
    accounted.usedOnPage, accounted.invariant, accounted.near, accounted.room, ?_, accounted.aid⟩,
    ⟨rfl, rfl, rfl, rfl⟩, rfl⟩
  · intro key node found
    unfold register at found
    split_ifs at found with here
    · exact ⟨here ▸ whole, here ▸ word, process, member, (Option.some.inj found).symm⟩
    · exact accounted.keys key node found
  · change tree.nil < _
    rw [nil]
    exact behind

/-- What a call that makes a process leaves: a slot of its own, registered under a new pid. -/
structure Made (system middle : System) (dict : Dictionary) (slots : List Nat) (process pid : Nat) : Prop where
  accounted : ∃ after later, Accounted middle (register dict process pid) after later ∧
    slots ⊆ process :: after
  runs : SameRuns system middle
  unregistered : dict pid = none
  fresh : process ∉ system.occupied
  occupied : middle.occupied = process :: system.occupied
  first : system.freeList ≠ 0 → process = system.freeList

theorem unregistered_of_fresh (accounted : Accounted system dict slots live)
    (fresh : process ∉ system.occupied) (key : Nat) : dict key ≠ some (process + rbNodeOffset) := by
  intro found
  obtain ⟨_, _, other, member, same⟩ := accounted.keys key _ found
  have equal : process = other := by omega
  exact fresh (equal ▸ member)

theorem exec_sun_made {lookup : Option SunEntry} {arg : Nat} (accounted : Accounted system dict slots live)
    (completed : execSun system lookup arg = .ok next) :
    ∃ process pid middle, Made system middle dict slots process pid ∧
      next = { queueAdd middle (u32 (process + queueNodeOffset)) with
        started := process :: middle.started } := by
  cases lookup with
  | none => cases completed
  | some entry =>
      obtain ⟨_, _, completed⟩ := Trap.bind_eq_ok.mp completed
      obtain ⟨⟨pageDir, machine⟩, spaced, completed⟩ := Trap.bind_eq_ok.mp completed
      obtain ⟨⟨pid, numbered⟩, searched, completed⟩ := Trap.bind_eq_ok.mp completed
      obtain ⟨⟨process, created⟩, creating, completed⟩ := Trap.bind_eq_ok.mp completed
      obtain ⟨middle, inserting, completed⟩ := Trap.bind_eq_ok.mp completed
      simp only [Trap.pure_ok, Except.ok.injEq] at completed
      obtain ⟨directory, made, objects⟩ := make_space_objects spaced
      have afterDir := accounted_new_page_dir accounted made
      have afterSpace : Accounted (system.onMachine machine) dict slots live :=
        accounted_same afterDir ⟨objects.processTree, objects.pageDirPaddr, rfl, rfl, id⟩
          objects.kernelHeap
      obtain ⟨free, whole, word, afterAid, numberedEq⟩ := next_free_aid_ok afterSpace searched
      obtain ⟨after, later, afterPool, fresh, occupied, notFree, subset, first, runs, _⟩ :=
        pool_create_ok afterAid creating
      have isOccupied : numbered.occupied = system.occupied := by rw [numberedEq]; rfl
      have isFirst : numbered.freeList = system.freeList := by rw [numberedEq]; rfl
      rw [isOccupied] at fresh occupied
      obtain ⟨afterInsert, insertRuns, insertOccupied⟩ := insert_process_ok
        (set_process_dir_accounted afterPool notFree pageDir) (occupied ▸ List.mem_cons_self)
        (unregistered_of_fresh accounted fresh) free whole word inserting
      refine ⟨process, pid, middle, ⟨⟨after, later, afterInsert, subset⟩, ?_, free, fresh,
        insertOccupied.trans occupied, ?_⟩, completed.symm⟩
      · have numberedRuns : SameRuns system numbered := by
          rw [numberedEq]
          exact ⟨rfl, rfl, rfl, rfl⟩
        exact ⟨insertRuns.runQueue.trans (runs.runQueue.trans numberedRuns.runQueue),
          insertRuns.next.trans (runs.next.trans numberedRuns.next),
          insertRuns.current.trans (runs.current.trans numberedRuns.current),
          insertRuns.started.trans (runs.started.trans numberedRuns.started)⟩
      · rw [← isFirst]
        exact first

theorem register_made {result : VirtModel.SyscallResult} (accounted : Accounted system dict slots live)
    (completed : syscallRegisterProcess system = .ok (result, next)) :
    ∃ process, Made system next dict slots process result.value := by
  obtain ⟨⟨process, created⟩, creating, completed⟩ := Trap.bind_eq_ok.mp completed
  obtain ⟨⟨pid, initialized⟩, initializing, completed⟩ := Trap.bind_eq_ok.mp completed
  obtain ⟨middle, inserting, completed⟩ := Trap.bind_eq_ok.mp completed
  simp only [Trap.pure_ok, Except.ok.injEq, Prod.mk.injEq] at completed
  obtain ⟨rfl, rfl⟩ := completed
  obtain ⟨⟨free, numbered⟩, searched, initializing⟩ := Trap.bind_eq_ok.mp initializing
  obtain ⟨⟨pageDir, machine⟩, made, initializing⟩ := Trap.bind_eq_ok.mp initializing
  simp only [Trap.pure_ok, Except.ok.injEq, Prod.mk.injEq] at initializing
  obtain ⟨rfl, rfl⟩ := initializing
  obtain ⟨after, later, afterPool, fresh, occupied, notFree, subset, first, runs, _⟩ :=
    pool_create_ok accounted creating
  obtain ⟨absent, whole, word, afterAid, numberedEq⟩ := next_free_aid_ok afterPool searched
  have afterDir := accounted_new_page_dir afterAid made
  have isOccupied : numbered.occupied = process :: system.occupied := by
    rw [numberedEq]
    exact occupied
  obtain ⟨afterInsert, insertRuns, insertOccupied⟩ := insert_process_ok
    (set_process_dir_accounted afterDir notFree pageDir)
    (show process ∈ numbered.occupied from isOccupied ▸ List.mem_cons_self)
    (unregistered_of_fresh accounted fresh) absent whole word inserting
  have numberedRuns : SameRuns created numbered := by
    rw [numberedEq]
    exact ⟨rfl, rfl, rfl, rfl⟩
  exact ⟨process, ⟨after, later, afterInsert, subset⟩,
    ⟨insertRuns.runQueue.trans (numberedRuns.runQueue.trans runs.runQueue),
      insertRuns.next.trans (numberedRuns.next.trans runs.next),
      insertRuns.current.trans (numberedRuns.current.trans runs.current),
      insertRuns.started.trans (numberedRuns.started.trans runs.started)⟩,
    absent, fresh, insertOccupied.trans isOccupied, first⟩

/-- Registering a process returns when its parts do. -/
theorem register_returns {created numbered : System} {machine : Machine} {frame : Nat} {isNew : Bool}
    {tree : RbTree} (creating : poolCreate system = .ok (process, created))
    (numbering : nextFreeAid created = .ok (pid, numbered))
    (making : newPageDir numbered.machine = .ok (frame, machine))
    (inserting : rbInsert machine.processTree (u32 (process + rbNodeOffset)) pid = .ok (isNew, tree)) :
    syscallRegisterProcess system = .ok (⟨pid, 0⟩, numbered.onMachine { machine with
      pageDirPaddr := Function.update machine.pageDirPaddr process frame
      processTree := tree }) := by
  have inserted : insertProcess (setProcessDir (numbered.onMachine machine) process frame) process pid =
      .ok (numbered.onMachine { machine with
        pageDirPaddr := Function.update machine.pageDirPaddr process frame
        processTree := tree }) := by
    change (rbInsert machine.processTree _ _ >>= _) = _
    rw [inserting]
    rfl
  simp only [syscallRegisterProcess, creating, processInit, numbering, making, inserted, Trap.ok_bind,
    Trap.pure_ok]

theorem get_process_found (accounted : Accounted system dict slots live) {aid : Nat}
    (found : getProcess system.machine.processTree aid = .ok process) (notNull : process ≠ 0) :
    dict (u32 (aid <<< 16)) = some (process + rbNodeOffset) := by
  have serves := serves_of_related accounted.related
  cases entry : dict (u32 (aid <<< 16)) with
  | none =>
      rw [serves.noProcess aid entry, Except.ok.injEq] at found
      exact absurd found.symm notNull
  | some node =>
      obtain ⟨_, _, other, _, rfl⟩ := accounted.keys _ node entry
      rw [serves.process aid other entry, Except.ok.injEq] at found
      rw [found]

/-- A pid without a thread half is the key of its process. -/
theorem whole_pid_key (word : pid < 4294967296) (whole : getPidTid pid = 0) :
    u32 (getPidAid pid <<< 16) = pid := by
  have low : pid % 65536 = 0 := by
    have same : pid &&& 65535 = pid % 65536 := Nat.and_two_pow_sub_one_eq_mod pid 16
    unfold getPidTid u16 at whole
    omega
  have high : getPidAid pid = pid / 65536 := by
    unfold getPidAid u16
    rw [Nat.shiftRight_eq_div_pow]
    omega
  rw [high, Nat.shiftLeft_eq]
  unfold u32
  omega

def unregister (dict : Dictionary) (pid : Nat) : Dictionary :=
  fun key => if key = pid then none else dict key

theorem delete_process_ok (accounted : Accounted system dict slots live)
    (found : dict pid = some (process + rbNodeOffset))
    (completed : deleteProcess system pid process = .ok next) :
    Accounted next (unregister dict pid) (process :: slots) live ∧
      next.occupied = system.occupied.erase process ∧ next.runQueue = system.runQueue ∧
      next.next = system.next ∧ next.current = system.current ∧
      next.started = system.started.filter (· ≠ process) := by
  obtain ⟨machine, freed, completed⟩ := Trap.bind_eq_ok.mp completed
  obtain ⟨⟨removed, tree⟩, removing, completed⟩ := Trap.bind_eq_ok.mp completed
  simp only [Trap.pure_ok, Except.ok.injEq] at completed
  subst completed
  have objects := free_frame_objects freed
  rw [objects.processTree] at removing
  obtain ⟨related, nil⟩ := remove_related accounted.related removing
  have member : process ∈ system.occupied := by
    obtain ⟨_, _, other, member, same⟩ := accounted.keys pid _ found
    have equal : process = other := by omega
    exact equal ▸ member
  have placed := accounted.usedOnPage process member
  have notFree : process ∉ slots := fun free => accounted.apart process free member
  have bounds := on_page_bounds accounted.invariant accounted.room placed
  have behind := accounted.behind
  have chain : Chain 0 machine.pageDirPaddr system.freeList slots :=
    objects.pageDirPaddr ▸ accounted.chain
  have heap := objects.kernelHeap
  refine ⟨⟨related, chain_push chain (by omega) notFree, ?_, accounted.nodup.erase process, ?_, ?_, ?_,
    ?_, ?_, ?_, ?_, accounted.aid⟩, rfl, rfl, rfl, rfl, rfl⟩
  · intro key node present
    unfold unregister at present
    split_ifs at present with here
    obtain ⟨whole, word, other, occupied, rfl⟩ := accounted.keys key node present
    refine ⟨whole, word, other, ?_, rfl⟩
    change other ∈ system.occupied.erase process
    rw [accounted.nodup.mem_erase_iff]
    refine ⟨?_, occupied⟩
    rintro rfl
    exact here (related_injective accounted.related present found)
  · intro slot free occupied
    change slot ∈ system.occupied.erase process at occupied
    rw [accounted.nodup.mem_erase_iff] at occupied
    rcases List.mem_cons.1 free with same | old
    · exact occupied.1 same
    · exact accounted.apart slot old occupied.2
  · intro slot free
    change OnPage machine.kernelHeap live slot
    rw [heap]
    rcases List.mem_cons.1 free with rfl | old
    · exact placed
    · exact accounted.freeOnPage slot old
  · intro other occupied
    change OnPage machine.kernelHeap live other
    rw [heap]
    exact accounted.usedOnPage other (List.mem_of_mem_erase occupied)
  · change HeapInvariant machine.kernelHeap.pageCount ⟨machine.kernelHeap, live⟩
    rw [heap]
    exact accounted.invariant
  · change machine.kernelHeap.pageCount ≤ 524288
    rw [heap]
    exact accounted.near
  · change machine.kernelHeap.heapStart + machine.kernelHeap.pageCount * 4096 ≤ 4294967296
    rw [heap]
    exact accounted.room
  · change tree.nil < machine.kernelHeap.heapStart
    rw [heap, nil]
    exact behind

/-- Picking the next process touches the queue and the address space. -/
theorem schedule_cases {context : Nat × Nat} (completed : schedule system = .ok (context, next)) :
    (runQueueNext system).1 ≠ 0 ∧ next = { (runQueueNext system).2 with
      current := (runQueueNext system).1
      machine := setPageDir (runQueueNext system).2.machine
        ((runQueueNext system).2.machine.pageDirPaddr (runQueueNext system).1) } := by
  obtain ⟨_, found, completed⟩ := Trap.bind_eq_ok.mp completed
  obtain ⟨_, _, completed⟩ := Trap.bind_eq_ok.mp completed
  obtain ⟨_, _, completed⟩ := Trap.bind_eq_ok.mp completed
  obtain ⟨_, _, completed⟩ := Trap.bind_eq_ok.mp completed
  simp only [Trap.pure_ok, Except.ok.injEq, Prod.mk.injEq] at completed
  rw [Trap.kernel_assert_eq_ok] at found
  exact ⟨found, completed.2.symm⟩

theorem run_queue_next_table (system : System) :
    SameTable system (runQueueNext system).2 ∧ (runQueueNext system).2.machine = system.machine := by
  by_cases empty : system.runQueue.head = 0
  · rw [runQueueNext, queuePoll, if_pos empty]
    exact ⟨⟨rfl, rfl, rfl, rfl, id⟩, rfl⟩
  · rw [runQueueNext, queuePoll, if_neg empty]
    exact ⟨⟨rfl, rfl, rfl, rfl, id⟩, rfl⟩

theorem schedule_accounted {context : Nat × Nat} (accounted : Accounted system dict slots live)
    (completed : schedule system = .ok (context, next)) : Accounted next dict slots live := by
  obtain ⟨_, rfl⟩ := schedule_cases completed
  obtain ⟨table, machine⟩ := run_queue_next_table system
  have objects := set_page_dir_objects (runQueueNext system).2.machine
    ((runQueueNext system).2.machine.pageDirPaddr (runQueueNext system).1)
  refine accounted_same accounted ⟨objects.processTree.trans (congrArg _ machine),
    objects.pageDirPaddr.trans (congrArg _ machine), table.freeList, table.occupied, table.aid⟩
    (objects.kernelHeap.trans (congrArg _ machine))

theorem preempt_cases {context : Context} {resumed : Option (Nat × Nat)}
    (completed : preempt system true context = .ok (resumed, next)) :
    ∃ machine entered, SameObjects system.machine machine ∧
      schedule (queueAdd (system.onMachine machine) (u32 (system.current + queueNodeOffset))) =
        .ok (entered, next) := by
  obtain ⟨_, _, completed⟩ := Trap.bind_eq_ok.mp completed
  obtain ⟨_, _, completed⟩ := Trap.bind_eq_ok.mp completed
  obtain ⟨machine, saved, completed⟩ := Trap.bind_eq_ok.mp completed
  obtain ⟨⟨entered, last⟩, scheduled, completed⟩ := Trap.bind_eq_ok.mp completed
  simp only [Trap.pure_ok, Except.ok.injEq, Prod.mk.injEq] at completed
  obtain ⟨_, rfl⟩ := completed
  exact ⟨machine, entered, save_context_objects saved, scheduled⟩

theorem preempt_accounted {userMode : Bool} {context : Context} {resumed : Option (Nat × Nat)}
    (accounted : Accounted system dict slots live)
    (completed : preempt system userMode context = .ok (resumed, next)) :
    Accounted next dict slots live := by
  cases userMode with
  | true =>
      obtain ⟨machine, entered, objects, scheduled⟩ := preempt_cases completed
      have queued : Accounted (queueAdd (system.onMachine machine)
          (u32 (system.current + queueNodeOffset))) dict slots live :=
        accounted_same accounted ⟨objects.processTree, objects.pageDirPaddr, rfl, rfl, id⟩
          objects.kernelHeap
      exact schedule_accounted queued scheduled
  | false =>
      simp only [preempt, Bool.false_eq_true, if_false, Except.ok.injEq, Prod.mk.injEq] at completed
      exact completed.2 ▸ accounted

/-- A jump goes to the process it finds. -/
theorem jump_cases {outcome : Outcome} (completed : syscallJumpProcess system pid = .ok (outcome, next)) :
    next = system ∨ ∃ process, process ≠ 0 ∧
      getProcess system.machine.processTree (getPidAid pid) = .ok process ∧ next = { system with
        current := process
        machine := setPageDir system.machine (system.machine.pageDirPaddr process)
        started := process :: system.started } := by
  obtain ⟨process, found, completed⟩ := Trap.bind_eq_ok.mp completed
  split_ifs at completed with notNull
  · obtain ⟨⟨⟨eip, esp⟩, last⟩, jumped, completed⟩ := Trap.bind_eq_ok.mp completed
    simp only [Trap.pure_ok, Except.ok.injEq, Prod.mk.injEq] at completed
    obtain ⟨_, rfl⟩ := completed
    obtain ⟨_, _, jumped⟩ := Trap.bind_eq_ok.mp jumped
    simp only [Trap.pure_ok, Except.ok.injEq, Prod.mk.injEq] at jumped
    exact .inr ⟨process, notNull, found, jumped.2.symm⟩
  · simp only [Trap.pure_ok, Except.ok.injEq, Prod.mk.injEq] at completed
    exact .inl completed.2.symm

theorem jump_accounted {outcome : Outcome} (accounted : Accounted system dict slots live)
    (completed : syscallJumpProcess system pid = .ok (outcome, next)) : Accounted next dict slots live := by
  rcases jump_cases completed with rfl | ⟨process, _, _, rfl⟩
  · exact accounted
  · have objects := set_page_dir_objects system.machine (system.machine.pageDirPaddr process)
    exact accounted_same accounted ⟨objects.processTree, objects.pageDirPaddr, rfl, rfl, id⟩
      objects.kernelHeap

/-- One call preserves the accounting when it deletes by whole keys. -/
theorem system_step_accounted (accounted : Accounted system dict slots live) {call : SystemCall}
    (legal : LegalCall system call) (whole : DeletesWholeAid system call) {outcome : Outcome}
    (stepped : systemStep system call = .ok (outcome, next)) :
    ∃ after free pages, Accounted next after free pages := by
  cases call with
  | exec lookup arg =>
      obtain ⟨last, completed, stepped⟩ := Trap.bind_eq_ok.mp stepped
      simp only [Trap.pure_ok, Except.ok.injEq, Prod.mk.injEq] at stepped
      obtain ⟨_, rfl⟩ := stepped
      obtain ⟨process, pid, middle, made, rfl⟩ := exec_sun_made accounted completed
      obtain ⟨after, later, kept, _⟩ := made.accounted
      exact ⟨_, _, _, accounted_same kept ⟨rfl, rfl, rfl, rfl, id⟩ rfl⟩
  | register =>
      obtain ⟨⟨result, last⟩, completed, stepped⟩ := Trap.bind_eq_ok.mp stepped
      simp only [Trap.pure_ok, Except.ok.injEq, Prod.mk.injEq] at stepped
      obtain ⟨_, rfl⟩ := stepped
      obtain ⟨process, made⟩ := register_made accounted completed
      obtain ⟨after, later, kept, _⟩ := made.accounted
      exact ⟨_, _, _, kept⟩
  | delete pid =>
      obtain ⟨⟨result, last⟩, completed, stepped⟩ := Trap.bind_eq_ok.mp stepped
      simp only [Trap.pure_ok, Except.ok.injEq, Prod.mk.injEq] at stepped
      obtain ⟨_, rfl⟩ := stepped
      obtain ⟨process, found, completed⟩ := Trap.bind_eq_ok.mp completed
      split_ifs at completed with notNull
      · obtain ⟨deleted, deleting, completed⟩ := Trap.bind_eq_ok.mp completed
        simp only [Trap.pure_ok, Except.ok.injEq, Prod.mk.injEq] at completed
        obtain ⟨_, rfl⟩ := completed
        have key := get_process_found accounted found notNull
        rcases whole with noThread | nothing
        · rw [whole_pid_key legal noThread] at key
          exact ⟨_, _, _, (delete_process_ok accounted key deleting).1⟩
        · rw [nothing, Except.ok.injEq] at found
          exact absurd found.symm notNull
      · simp only [Trap.pure_ok, Except.ok.injEq, Prod.mk.injEq] at completed
        exact ⟨_, _, _, completed.2 ▸ accounted⟩
  | jump pid => exact ⟨_, _, _, jump_accounted accounted stepped⟩
  | preempt userMode context =>
      obtain ⟨⟨resumed, last⟩, completed, stepped⟩ := Trap.bind_eq_ok.mp stepped
      simp only [Trap.pure_ok, Except.ok.injEq, Prod.mk.injEq] at stepped
      obtain ⟨_, rfl⟩ := stepped
      exact ⟨_, _, _, preempt_accounted accounted completed⟩
  | schedule =>
      obtain ⟨⟨⟨eip, esp⟩, last⟩, completed, stepped⟩ := Trap.bind_eq_ok.mp stepped
      simp only [Trap.pure_ok, Except.ok.injEq, Prod.mk.injEq] at stepped
      obtain ⟨_, rfl⟩ := stepped
      exact ⟨_, _, _, schedule_accounted accounted completed⟩
  | elsewhere memory freeFramePaddr usedFrames =>
      simp only [systemStep, Except.ok.injEq, Prod.mk.injEq] at stepped
      obtain ⟨_, rfl⟩ := stepped
      exact ⟨_, _, _, accounted_same accounted ⟨rfl, rfl, rfl, rfl, id⟩ rfl⟩

end Steps

section Runs

variable {machine : Machine} {nil : Nat} {nodes : Nat → RbTreeModel.RbNode} {next : Nat → Nat}
  {final : System}

theorem processes_init_accounted (nodes : Nat → RbTreeModel.RbNode) (next : Nat → Nat)
    (ready : HeapReady machine nil) :
    ∃ live, Accounted (processesInit machine nil nodes next) (fun _ => none) [] live := by
  obtain ⟨live, invariant⟩ := ready.invariant
  refine ⟨live, related_init nil nodes, rfl, ?_, List.nodup_nil, ?_, ?_, ?_, invariant, ready.near,
    ready.room, ready.behind, (show 1 < 65536 by decide)⟩
  · exact fun _ _ found => nomatch found
  · exact fun _ member => nomatch member
  · exact fun _ member => nomatch member
  · exact fun _ member => nomatch member

/-- From `processes_init`, in every run that deletes processes by whole keys, table and pool agree. -/
theorem process_table_runs {calls : List SystemCall} {outcomes : List Outcome}
    (ready : HeapReady machine nil)
    (legal : Allowed systemStep LegalCall (processesInit machine nil nodes next) calls)
    (whole : Allowed systemStep DeletesWholeAid (processesInit machine nil nodes next) calls)
    (completed : run systemStep (processesInit machine nil nodes next) calls = .ok (outcomes, final)) :
    TableIntegrity final := by
  obtain ⟨live, start⟩ := processes_init_accounted nodes next ready
  obtain ⟨dict, slots, pages, accounted⟩ := run_preserves
    (fun system => ∃ dict slots live, Accounted system dict slots live)
    (fun system call outcome after ⟨dict, slots, live, accounted⟩ allowed stepped =>
      system_step_accounted accounted allowed.1 allowed.2 stepped)
    calls _ final outcomes ⟨_, _, live, start⟩ (allowed_and legal whole) completed
  exact integrity_of_accounted accounted

end Runs

section Boot

/-- Two pages are free in the kernel's heap. -/
def poolMachine : Machine := { countedMachine with kernelHeap := ⟨fun _ => 0, 0xFF7FE000, 2⟩ }

def poolSystem : System :=
  processesInit poolMachine 0x100 (fun _ => ⟨0x100, 0x100, 0x100, 0, .black⟩) (fun _ => 0)

theorem pool_balanced : Balanced (Inside ⟨0xFF7FE, 1047552⟩) (bootFrames ++ []) 4 poolSystem.machine
    ⟨[0x10000], bootFrames, [], [], []⟩ :=
  balanced_same_paging (balanced_of_ready counted_ready) ⟨rfl, rfl, rfl, rfl, rfl, rfl⟩ rfl

theorem pool_machine_ready : HeapReady poolMachine 0x100 where
  invariant := by
    refine ⟨[], rfl, by decide, by decide, coloured_nil ?_⟩
    intro index below
    change index < 2 at below
    interval_cases index <;> decide
  near := by decide
  room := by decide
  behind := by decide

/-- What the calls find that register and delete the process and register another one. -/
def poolTreeChecks (tree : RbTree) : Bool :=
  returnsWith (getProcess tree 1) (fun found => found = 0xFF7FE000) = true ∧
  returnsWith (rbRemove tree 0x10000) (fun _ => true) = true ∧
  returnsWith (rbRemove tree 0x10001) (fun removed =>
    removed.2.root = 0xFF7FE008 ∧ removed.2.nil = 0x100) = true ∧
  returnsWith (rbFind tree 0x20000) (fun found => found = 0) = true ∧
  returnsWith (rbInsert tree 0xFF7FE028 0x20000) (fun inserted =>
    returnsWith (getProcess inserted.2 1) (fun found => found = 0xFF7FE000) = true ∧
    returnsWith (getProcess inserted.2 2) (fun found => found = 0xFF7FE020) = true) = true

/-- The last page of the heap can be taken and given back. -/
def poolHeapChecks (heap : Heap) : Bool :=
  returnsWith (heapAlloc heap 1) (fun taken =>
    taken.1 = 0xFF7FF000 ∧ returnsWith (heapFree taken.2 taken.1) (fun _ => true) = true)

def poolChecks (created : Nat × System) : Bool :=
  created.1 = 0xFF7FE000 ∧ created.2.freeList = 0xFF7FE020 ∧
  returnsWith (nextFreeAid created.2) (fun numbered =>
    (numbered.1 = 0x10000 ∧ numbered.2.aidCounter = 2) ∧ returnsWith (kernelAlloc numbered.2.machine 1) (fun taken =>
      taken.1 = 0xFF7FF000 ∧ taken.2.usedFrames = 2 ∧
        returnsWith (heapFree taken.2.kernelHeap taken.1) (fun freed => poolHeapChecks freed.2) = true)
          = true) = true ∧
  returnsWith (rbInsert created.2.machine.processTree 0xFF7FE008 0x10000)
    (fun inserted => poolTreeChecks inserted.2) = true

theorem pool_created : ∃ created, poolCreate poolSystem = .ok created ∧ poolChecks created = true :=
  returns_with_iff.1 (by decide +kernel)

theorem pool_places {machine next : Machine} {dir : Nat} (taking : kernelAlloc machine 1 = .ok (dir, next))
    (aligned : dir % 4096 = 0) (low : 0xFF7FE ≤ dir / 4096) (high : dir / 4096 < 1047552) (ptr : Nat)
    (heap : Heap) (found : heapAlloc machine.kernelHeap 1 = .ok (ptr, heap)) :
    ptr % 4096 = 0 ∧ Inside ⟨0xFF7FE, 1047552⟩ (ptr / 4096) := by
  have same := (kernel_alloc_objects taking).2.2.symm.trans found
  simp only [Except.ok.injEq, Prod.mk.injEq] at same
  exact same.1 ▸ ⟨aligned, low, high⟩

theorem pool_created_balanced {created : System} {process : Nat}
    (creating : poolCreate poolSystem = .ok (process, created)) :
    ∃ ledger, Balanced (Inside ⟨0xFF7FE, 1047552⟩) (bootFrames ++ []) 4 created.machine ledger ∧
      ledger.roots = [0x10000] ∧ 0xFF7FF ∉ ledger.pages ∧ created.machine.cr3 = 0x10000 ∧
      windowPage created.machine = 0xFF7FD := by
  rcases pool_create_machine creating with same | ⟨ptr, allocated, allocating, isMachine⟩
  · rw [same]
    exact ⟨_, pool_balanced, rfl, List.not_mem_nil, rfl, rfl⟩
  · obtain ⟨⟨dir, taken⟩, taking, isDir⟩ := returns_with_iff.1
      (by decide +kernel : returnsWith (kernelAlloc poolSystem.machine 1)
        (fun taken => taken.1 = 0xFF7FE000) = true)
    have isDir := of_decide_eq_true isDir
    change dir = 0xFF7FE000 at isDir
    subst isDir
    have isPtr := taking.symm.trans allocating
    simp only [Except.ok.injEq, Prod.mk.injEq] at isPtr
    obtain ⟨marked, after, _, _, held, ⟨middle, carried, isAllocated⟩, pages, _⟩ :=
      kernel_alloc_balanced pool_balanced (fun vaddr heap found page range => by
        have placed := pool_places taking (by decide) (by decide) (by decide) vaddr heap found
        have single : page = vaddr / 4096 := by
          unfold InRange at range
          omega
        exact single ▸ placed.2) allocating
    have cr3 := same_globals_cr3 carried.globals
    have window := same_globals_window carried.globals
    rw [isMachine]
    refine ⟨after, balanced_same_paging held ⟨rfl, rfl, rfl, rfl, rfl, rfl⟩ rfl, carried.roots, ?_, ?_, ?_⟩
    · rw [pages, ← isPtr.1]
      rintro (none | range)
      · cases none
      · unfold InRange at range
        omega
    · rw [isAllocated]
      exact cr3
    · rw [isAllocated]
      exact window

/-- The state after one process was registered, in the first slot and with a directory of its own. -/
structure PoolRegistered (registered : System) (frame : Nat) (ledger : Ledger) : Prop where
  step : systemStep poolSystem .register = .ok (.returned ⟨0x10000, 0⟩, registered)
  balanced : Balanced (Inside ⟨0xFF7FE, 1047552⟩) (bootFrames ++ []) 4 registered.machine ledger
  roots : ledger.roots = [frame, 0x10000]
  unmapped : 0xFF7FF ∉ ledger.pages
  used : registered.machine.usedFrames = 2
  positive : 0 < frame
  differ : frame ≠ 0x10000
  cr3 : registered.machine.cr3 = 0x10000
  window : windowPage registered.machine = 0xFF7FD
  dir : registered.machine.pageDirPaddr 0xFF7FE000 = frame
  aid : registered.aidCounter = 2
  free : registered.freeList = 0xFF7FE020
  heap : poolHeapChecks registered.machine.kernelHeap = true
  tree : poolTreeChecks registered.machine.processTree = true
  runs : SameRuns poolSystem registered

theorem pool_registered : ∃ registered frame ledger, PoolRegistered registered frame ledger := by
  obtain ⟨⟨process, created⟩, creating, passed⟩ := pool_created
  obtain ⟨isProcess, isFree, numberedPassed, insertPassed⟩ := of_decide_eq_true passed
  change process = 0xFF7FE000 at isProcess
  subst isProcess
  obtain ⟨⟨pid, numbered⟩, numbering, passed⟩ := returns_with_iff.1 numberedPassed
  obtain ⟨⟨isPid, isAid⟩, takenPassed⟩ := of_decide_eq_true passed
  change pid = 0x10000 at isPid
  subst isPid
  obtain ⟨⟨dir, taken⟩, taking, passed⟩ := returns_with_iff.1 takenPassed
  obtain ⟨isDir, isUsed, freePassed⟩ := of_decide_eq_true passed
  change dir = 0xFF7FF000 at isDir
  subst isDir
  obtain ⟨⟨freedCount, heap⟩, freeing, heapPassed⟩ := returns_with_iff.1 freePassed
  obtain ⟨⟨isNew, tree⟩, inserting, treePassed⟩ := returns_with_iff.1 insertPassed
  have isNumbered : numbered = { created with aidCounter := numbered.aidCounter } := by
    obtain ⟨_, _, numbering⟩ := Trap.bind_eq_ok.mp numbering
    simp only [Trap.pure_ok, Except.ok.injEq, Prod.mk.injEq] at numbering
    rw [← numbering.2]
  have numberedMachine : numbered.machine = created.machine := by rw [isNumbered]
  obtain ⟨ledger, balanced, isRoots, unmapped, cr3, window⟩ := pool_created_balanced creating
  rw [← numberedMachine] at balanced cr3 window
  have places := pool_places taking (by decide) (by decide) (by decide)
  obtain ⟨⟨frame, machine⟩, making⟩ := new_page_dir_returns balanced places taking freeing
  obtain ⟨ptr, marked, count, left, after, found, freed, isLeft, held, made⟩ :=
    new_page_dir_ok balanced (window ▸ by decide) places making
  have kept := new_page_dir_objects making
  have sameTree : machine.processTree = created.machine.processTree := by
    rw [kept.1, numberedMachine]
  have sameHeap : machine.kernelHeap = heap := by
    have same := (kernel_alloc_objects taking).2.2.symm.trans found
    simp only [Except.ok.injEq, Prod.mk.injEq] at same
    rw [← same.1, ← same.2] at freed
    have equal := freeing.symm.trans freed
    simp only [Except.ok.injEq, Prod.mk.injEq] at equal
    rw [isLeft, equal.2]
  obtain ⟨last, isLast⟩ : ∃ last : Machine, last = { machine with
      pageDirPaddr := Function.update machine.pageDirPaddr 0xFF7FE000 frame
      processTree := tree } := ⟨_, rfl⟩
  have paging : SamePaging machine last := by
    rw [isLast]
    exact ⟨rfl, rfl, rfl, rfl, rfl, rfl⟩
  have notRoot := made.notRoot
  rw [isRoots, List.mem_singleton] at notRoot
  have registering := register_returns creating numbering making (sameTree ▸ inserting)
  rw [← isLast] at registering
  refine ⟨numbered.onMachine last, frame, after, ?_, ?_, ?_, ?_, ?_, made.positive, notRoot, ?_, ?_, ?_,
    isAid, ?_, ?_, ?_, ?_⟩
  · change (syscallRegisterProcess poolSystem >>= _) = _
    rw [registering]
    rfl
  · exact balanced_same_paging held paging (show last.usedFrames = _ by rw [isLast])
  · rw [made.roots, isRoots]
  · rw [made.pages]
    exact unmapped
  · change last.usedFrames = 2
    rw [isLast]
    exact (made.used _ _ taking).trans isUsed
  · change last.cr3 = _
    rw [paging.cr3, same_globals_cr3 made.globals]
    exact cr3
  · change windowPage last = _
    rw [windowPage, paging.head]
    exact (same_globals_window made.globals).trans window
  · change last.pageDirPaddr 0xFF7FE000 = frame
    rw [isLast]
    exact Function.update_self 0xFF7FE000 frame machine.pageDirPaddr
  · change numbered.freeList = _
    rw [isNumbered]
    exact isFree
  · change poolHeapChecks last.kernelHeap = true
    rw [isLast]
    exact sameHeap ▸ heapPassed
  · change poolTreeChecks last.processTree = true
    rw [isLast]
    exact treePassed
  · obtain ⟨live, start⟩ := processes_init_accounted _ _ pool_machine_ready
    obtain ⟨_, made⟩ := register_made start registering
    exact made.runs

/-- Deleting the process by a pid frees its directory and its slot. -/
theorem pool_deletes {registered : System} {frame removed : Nat} {ledger : Ledger} {tree : RbTree}
    (pid : Nat) (aid : getPidAid pid = 1) (state : PoolRegistered registered frame ledger)
    (removing : rbRemove registered.machine.processTree pid = .ok (removed, tree)) :
    ∃ final, systemStep registered (.delete pid) = .ok (.returned ⟨0, 1⟩, final) ∧
      final.freeList = 0xFF7FE000 ∧ final.machine.processTree = tree := by
  obtain ⟨foundPassed, _⟩ := of_decide_eq_true state.tree
  obtain ⟨found, finding, isFound⟩ := returns_with_iff.1 foundPassed
  have isFound := of_decide_eq_true isFound
  subst isFound
  have member : frame ∈ ledger.roots := state.roots ▸ List.mem_cons_self
  have subset : [0x10000] ⊆ ledger.roots := state.roots ▸ List.subset_cons_self _ _
  have fewer := spaces_subset state.balanced.spaces subset (state.cr3 ▸ List.mem_singleton_self _)
  have freeable := root_freeable state.balanced.spaces state.balanced.free subset member state.positive
    (fun member => state.differ (List.mem_singleton.1 member))
  have freed := free_frame_ok fewer freeable
  obtain ⟨machine, isMachine⟩ : ∃ machine : Machine, machine = { registered.machine with
      memory := pushMemory registered.machine frame
      freeFramePaddr := frame
      usedFrames := sub32 registered.machine.usedFrames 1 } := ⟨_, rfl⟩
  rw [← isMachine] at freed
  have sameTree : machine.processTree = registered.machine.processTree := by rw [isMachine]
  refine ⟨{ poolDestroy (registered.onMachine { machine with processTree := tree }) 0xFF7FE000 with
    started := registered.started.filter (· ≠ 0xFF7FE000) }, ?_, rfl, rfl⟩
  rw [← sameTree] at removing
  simp only [systemStep, syscallDeleteProcess, aid, finding, deleteProcess, state.dir, freed, removing,
    Trap.ok_bind, Trap.pure_ok]
  rfl

/-- A process is deleted by its pid with a thread half: its slot is free and still in the table. -/
theorem process_table_half_pid : ¬ ∀ (machine : Machine) (nil : Nat) (nodes : Nat → RbTreeModel.RbNode)
    (next : Nat → Nat) (calls : List SystemCall) (outcomes : List Outcome) (final : System),
    HeapReady machine nil → Allowed systemStep LegalCall (processesInit machine nil nodes next) calls →
      run systemStep (processesInit machine nil nodes next) calls = .ok (outcomes, final) →
        TableIntegrity final := by
  intro always
  obtain ⟨registered, frame, ledger, state⟩ := pool_registered
  obtain ⟨_, _, halfPassed, _⟩ := of_decide_eq_true state.tree
  obtain ⟨⟨removed, tree⟩, removing, passed⟩ := returns_with_iff.1 halfPassed
  obtain ⟨isRoot, isNil⟩ := of_decide_eq_true passed
  have first := state.step
  obtain ⟨final, second, isFree, isTree⟩ := pool_deletes 0x10001 (by decide) state removing
  have ended : run systemStep final [] = .ok ([], final) := rfl
  have completed := run_cons_of_step first (run_cons_of_step second ended)
  have legal : Allowed systemStep LegalCall poolSystem [.register, .delete 0x10001] :=
    allowed_cons_of_step trivial first
      (allowed_cons_of_step (show 0x10001 < 4294967296 by decide) second trivial)
  have integrity := always poolMachine 0x100 _ _ _ _ final pool_machine_ready legal completed
  obtain ⟨slots, chain, _, placed⟩ := integrity.free
  rw [isFree] at chain
  cases slots with
  | nil => exact absurd chain (show 0xFF7FE000 ≠ 0 by decide)
  | cons slot slots =>
      have isSlot := chain.1
      apply (placed slot List.mem_cons_self).2
      rw [isTree, ← isSlot]
      have root : tree.root = 0xFF7FE000 + rbNodeOffset := isRoot.trans (by decide)
      rw [← root]
      apply Reachable.root
      change tree.root = 0xFF7FE008 at isRoot
      change tree.nil = 0x100 at isNil
      rw [isRoot, isNil]
      decide

/-- A process is registered and deleted by its pid. -/
theorem process_table_runs_boot : ∃ final,
    run systemStep poolSystem [.register, .delete 0x10000] =
      .ok ([.returned ⟨0x10000, 0⟩, .returned ⟨0, 1⟩], final) ∧ TableIntegrity final := by
  obtain ⟨registered, frame, ledger, state⟩ := pool_registered
  obtain ⟨_, wholePassed, _⟩ := of_decide_eq_true state.tree
  obtain ⟨⟨removed, tree⟩, removing, _⟩ := returns_with_iff.1 wholePassed
  have first := state.step
  obtain ⟨final, second, _⟩ := pool_deletes 0x10000 (by decide) state removing
  have ended : run systemStep final [] = .ok ([], final) := rfl
  have completed := run_cons_of_step first (run_cons_of_step second ended)
  refine ⟨final, completed, process_table_runs pool_machine_ready ?_ ?_ completed⟩
  · exact allowed_cons_of_step trivial first
      (allowed_cons_of_step (show 0x10000 < 4294967296 by decide) second trivial)
  · exact allowed_cons_of_step trivial first
      (allowed_cons_of_step (.inl (by decide)) second trivial)

end Boot
end ParadiseOS.ProcessTable
