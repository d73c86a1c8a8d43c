import ParadiseOS.BootModel
import ParadiseOS.FrameOwners
import ParadiseOS.ProcessTable
import ParadiseOS.VirtRanges

/-!
# The kernel's half of the address spaces

`new_page_dir` copies the kernel's page tables that there are; a table that `map_page`
makes afterwards is entered in the current directory only. The directories agree as long
as the kernel's heap stays within the tables that it had when the second one was made.
-/

namespace ParadiseOS.SharedTables

open ColouredLine FrameLedger FrameOwners FrameSteps HeapModel HeapRegions HeapRuns MachineWord MemModel
open NewDirectory PagingModel PagingSteps ProcessModel ProcessTable StepRun TwoLevelPaging VirtRanges

set_option autoImplicit false

section Statement

/-- Two entries lead to the same page table, or both to none. -/
def SameTable (entry other : Nat) : Prop :=
  (Present entry ↔ Present other) ∧ (Present entry → frameOf entry = frameOf other)

/-- The kernel's half is the same in all directories: the page tables, and where addresses lead. -/
structure OneKernelHalf (memory : Memory) (directories : List Nat) : Prop where
  tables : ∀ root ∈ directories, ∀ other ∈ directories, ∀ index, kernelPdiStart ≤ index →
    index < kernelPdiEnd → SameTable (directoryEntry memory root index) (directoryEntry memory other index)
  addresses : ∀ root ∈ directories, ∀ other ∈ directories, ∀ vaddr, kernelPdiStart ≤ vaddr / 4096 / 1024 →
    vaddr / 4096 / 1024 < kernelPdiEnd →
      TwoLevelPaging.translate memory root vaddr = TwoLevelPaging.translate memory other vaddr

/-- The kernel with the live allocations of `kernel_heap` and the live directories. -/
structure KernelState where
  system : System
  live : List Block
  directories : List Nat

inductive KernelCall where
  | kernelAlloc (pages : Nat)
  | kernelRealloc (ptr pages : Nat)
  | kernelFree (ptr : Nat)
  | poolCreate
  | newPageDir
  | setPageDir (paddr : Nat)

variable (state : KernelState)

def KernelState.heap : Heap := state.system.machine.kernelHeap

def KernelState.onMachine (machine : Machine) (live : List Block) : KernelState :=
  { state with system := state.system.onMachine machine, live := live }

def kernelStep : KernelCall → Except Trap (Nat × KernelState)
  | .kernelAlloc pages => do
      let (ptr, machine) ← kernelAlloc state.system.machine pages
      pure (ptr, state.onMachine machine (⟨pageOffset state.heap ptr, pages⟩ :: state.live))
  | .kernelRealloc ptr pages => do
      let (newPtr, machine) ← kernelRealloc state.system.machine ptr pages
      pure (newPtr, state.onMachine machine
        (⟨pageOffset state.heap newPtr, pages⟩ :: dropStart state.live (pageOffset state.heap ptr)))
  | .kernelFree ptr => do
      let machine ← kernelFree state.system.machine ptr
      pure (0, state.onMachine machine (dropStart state.live (pageOffset state.heap ptr)))
  | .poolCreate => do
      let (process, system) ← poolCreate state.system
      pure (process, { state with
        system := system
        -- the first slot of a new page is its start
        live := if state.system.freeList = 0 then ⟨pageOffset state.heap process, 1⟩ :: state.live
          else state.live })
  | .newPageDir => do
      let (frame, machine) ← newPageDir state.system.machine
      pure (frame, { state with
        system := state.system.onMachine machine
        directories := frame :: state.directories })
  | .setPageDir paddr => .ok (0, state.onMachine (setPageDir state.system.machine paddr) state.live)

/-- Pointers are those of live allocations, and directories are live. -/
def LegalKernel : KernelCall → Prop
  | .kernelAlloc _ => True
  | .kernelRealloc ptr pages => LivePointer ⟨state.heap, state.live⟩ ptr ∧ pages < 4294967296
  | .kernelFree ptr => LivePointer ⟨state.heap, state.live⟩ ptr
  | .poolCreate => True
  | .newPageDir => True
  | .setPageDir paddr => paddr ∈ state.directories

/-- The pages that the heap hands out for a call. -/
def Takes : KernelCall → Nat → Prop
  | .kernelAlloc pages, page => ∃ ptr heap, heapAlloc state.heap pages = .ok (ptr, heap) ∧
      InRange (ptr / 4096) pages page
  | .kernelRealloc ptr pages, page => ∃ oldSize newPtr heap,
      heapRealloc state.heap ptr pages = .ok (oldSize, newPtr, heap) ∧ InRange (newPtr / 4096) pages page
  | .kernelFree _, _ => False
  | .poolCreate, page => state.system.freeList = 0 ∧ ∃ ptr heap, heapAlloc state.heap 1 = .ok (ptr, heap) ∧
      InRange (ptr / 4096) 1 page
  | .newPageDir, page => ∃ ptr heap, heapAlloc state.heap 1 = .ok (ptr, heap) ∧ page = ptr / 4096
  | .setPageDir _, _ => False

/-- There are page tables for the pages that the call takes, or the current directory is the only
one. -/
def FindsTables (call : KernelCall) : Prop :=
  (∀ page, Takes state call page → Present (directoryEntry state.system.machine.memory
    state.system.machine.cr3 (page / 1024))) ∨ state.directories = [state.system.machine.cr3]

end Statement

section Agreement

variable {memory : Memory} {root other : Nat}

theorem same_table_refl (entry : Nat) : SameTable entry entry := ⟨Iff.rfl, fun _ => rfl⟩

/-- The same table makes the same entries. -/
theorem page_entry_same_table {page : Nat}
    (same : SameTable (directoryEntry memory root (page / 1024)) (directoryEntry memory other (page / 1024))) :
    pageEntry memory root page = pageEntry memory other page := by
  obtain ⟨both, frames⟩ := same
  unfold pageEntry
  by_cases present : Present (directoryEntry memory root (page / 1024))
  · rw [if_pos present, if_pos (both.1 present), slot, slot, frames present]
  · rw [if_neg present, if_neg (mt both.2 present)]

theorem translate_same_table {vaddr : Nat}
    (same : SameTable (directoryEntry memory root (vaddr / 4096 / 1024))
      (directoryEntry memory other (vaddr / 4096 / 1024))) :
    TwoLevelPaging.translate memory root vaddr = TwoLevelPaging.translate memory other vaddr := by
  have entry := page_entry_same_table same
  by_cases present : Present (pageEntry memory root (vaddr / 4096))
  · rw [translate_page present, translate_page (entry ▸ present), entry]
  · unfold TwoLevelPaging.translate
    rw [if_neg present, if_neg (entry ▸ present)]

end Agreement

/-- What every call keeps as long as tables are found. -/
structure Sharing (contributed : List Nat) (total base first : Nat) (state : KernelState) (ledger : Ledger) :
    Prop where
  balanced : Balanced (Inside ⟨base, 1047552⟩) contributed total state.system.machine ledger
  directories : ledger.roots = state.directories
  map : 1046528 ∈ ledger.pages
  placed : Placed ⟨first, 1046528⟩ state.heap state.live
  behind : base ≤ first
  ordered : first ≤ 1046528
  kernelHalf : kernelPdiStart ≤ windowPage state.system.machine / 1024
  window : windowPage state.system.machine < base
  low : ∀ root ∈ state.directories, Present (directoryEntry state.system.machine.memory root 0)
  tables : ∀ root ∈ state.directories, ∀ other ∈ state.directories, ∀ index, kernelPdiStart ≤ index →
    index < kernelPdiEnd → SameTable (directoryEntry state.system.machine.memory root index)
      (directoryEntry state.system.machine.memory other index)

section Steps

variable {contributed : List Nat} {total base first : Nat} {state next : KernelState}
  {machine middle : Machine} {ledger final : Ledger} {touched : Nat → Prop}

theorem sharing_half (sharing : Sharing contributed total base first state ledger) :
    OneKernelHalf state.system.machine.memory state.directories where
  tables := sharing.tables
  addresses root member other second _ start stop :=
    translate_same_table (sharing.tables root member other second _ start stop)

/-- Directories that agree on the pages of the region have the same account. -/
theorem balanced_switch {region : Nat → Prop} (balanced : Balanced region contributed total machine ledger)
    {root : Nat} (member : root ∈ ledger.roots) (low : Present (directoryEntry machine.memory root 0))
    (same : ∀ page, region page → pageEntry machine.memory root page = pageEntry machine.memory machine.cr3 page) :
    Balanced region contributed total (switch machine root) ledger := by
  have frames : ∀ page ∈ ledger.pages, backingFrame (switch machine root) page = backingFrame machine page :=
    fun page there => congrArg frameOf (same page (balanced.inside page there))
  refine ⟨spaces_switch balanced.spaces member, free_list_switch balanced.spaces balanced.free member, low,
    balanced.placed, ?_, balanced.inside, balanced.nodup, ?_, ?_, ?_, balanced.tables, balanced.directories,
    ?_, balanced.usage⟩
  · intro page inside
    change Present (pageEntry machine.memory root page) ↔ _
    rw [same page inside]
    exact balanced.exact page inside
  · intro page there
    rw [frames page there]
    exact balanced.positive page there
  · intro page there
    rw [frames page there]
    exact balanced.apart page there
  · intro page there other second equal
    rw [frames page there, frames other second] at equal
    exact balanced.own page there other second equal
  · rw [List.map_congr_left frames]
    exact balanced.accounts

/-- A call on the heap that finds its tables leaves the directories as they are. -/
theorem directories_carried (carried : Carried state.system.machine middle ledger final touched)
    (sharing : Sharing contributed total base first state ledger)
    (found : ∀ page, touched page → Present (directoryEntry state.system.machine.memory
      state.system.machine.cr3 (page / 1024))) {root index : Nat} (member : root ∈ state.directories)
    (small : index < 1024) :
    directoryEntry middle.memory root index = directoryEntry state.system.machine.memory root index := by
  apply carried.entries root (sharing.directories ▸ member) index small
  rintro ⟨_, absent, page, reached, rfl⟩
  exact absent (found page reached)

/-- With one directory there is nothing to agree on. -/
theorem only_directory {root other current : Nat} {directories : List Nat} (only : directories = [current])
    (member : root ∈ directories) (second : other ∈ directories) : root = other := by
  subst only
  exact (List.mem_singleton.1 member).trans (List.mem_singleton.1 second).symm

/-- A call on the heap keeps the sharing. -/
theorem sharing_carried {heap : Heap} {live : List Block}
    (sharing : Sharing contributed total base first state ledger)
    (carried : Carried state.system.machine middle ledger final touched)
    (held : Balanced (Inside ⟨base, 1047552⟩) contributed total middle final)
    (kept : ∀ page ∈ ledger.pages, ¬ Inside ⟨first, 1046528⟩ page → page ∈ final.pages)
    (placed : Placed ⟨first, 1046528⟩ heap live)
    (found : (∀ page, touched page → Present (directoryEntry state.system.machine.memory
      state.system.machine.cr3 (page / 1024))) ∨ state.directories = [state.system.machine.cr3]) :
    Sharing contributed total base first (state.onMachine { middle with kernelHeap := heap } live) final := by
  have same : SamePaging middle { middle with kernelHeap := heap } := ⟨rfl, rfl, rfl, rfl, rfl, rfl⟩
  have window : windowPage { middle with kernelHeap := heap } = windowPage state.system.machine := by
    change windowPage middle = _
    exact same_globals_window carried.globals
  have low : ∀ root ∈ state.directories, directoryEntry middle.memory root 0 =
      directoryEntry state.system.machine.memory root 0 := by
    intro root member
    apply carried.entries root (sharing.directories ▸ member) 0 (by decide)
    rintro ⟨_, absent, _⟩
    exact absent sharing.balanced.low
  refine ⟨balanced_same_paging held same rfl, carried.roots.trans sharing.directories, ?_, placed,
    sharing.behind, sharing.ordered, ?_, ?_, ?_, ?_⟩
  · exact kept _ sharing.map fun inside => absurd inside.2 (lt_irrefl 1046528)
  · change kernelPdiStart ≤ windowPage { middle with kernelHeap := heap } / 1024
    rw [window]
    exact sharing.kernelHalf
  · change windowPage { middle with kernelHeap := heap } < base
    rw [window]
    exact sharing.window
  · intro root member
    change Present (directoryEntry middle.memory root 0)
    rw [low root member]
    exact sharing.low root member
  · intro root member other second index start stop
    change SameTable (directoryEntry middle.memory root index) (directoryEntry middle.memory other index)
    have small : index < 1024 := by
      unfold kernelPdiEnd at stop
      omega
    rcases found with tables | only
    · rw [directories_carried carried sharing tables member small,
        directories_carried carried sharing tables second small]
      exact sharing.tables root member other second index start stop
    · rw [only_directory only member second]
      exact same_table_refl _

/-- The current directory can be any of them. -/
theorem sharing_switch {root : Nat} (sharing : Sharing contributed total base first state ledger)
    (member : root ∈ state.directories) :
    Sharing contributed total base first
      (state.onMachine (setPageDir state.system.machine root) state.live) ledger := by
  have isRoot : root ∈ ledger.roots := sharing.directories.symm ▸ member
  have current : state.system.machine.cr3 ∈ state.directories :=
    sharing.directories ▸ sharing.balanced.spaces.member
  rw [set_page_dir_ok sharing.balanced.spaces.current]
  refine ⟨balanced_switch sharing.balanced isRoot (sharing.low root member) ?_, sharing.directories, sharing.map,
    sharing.placed, sharing.behind, sharing.ordered, sharing.kernelHalf, sharing.window, sharing.low,
    sharing.tables⟩
  intro page inside
  have behind := sharing.window
  have half := sharing.kernelHalf
  have within : base ≤ page ∧ page < 1047552 := inside
  apply page_entry_same_table
  apply sharing.tables root member _ current
  · unfold kernelPdiStart at half ⊢
    omega
  · unfold kernelPdiEnd
    omega

/-- A new directory has the kernel's tables of the current one. -/
theorem sharing_new_page_dir {frame : Nat} (sharing : Sharing contributed total base first state ledger)
    (found : FindsTables state .newPageDir)
    (made : newPageDir state.system.machine = .ok (frame, middle)) :
    ∃ final, Sharing contributed total base first
      { state with system := state.system.onMachine middle, directories := frame :: state.directories }
      final := by
  obtain ⟨ptr, marked, final, allocated, placed, held, created⟩ := new_page_dir_placed sharing.balanced
    sharing.placed sharing.behind sharing.ordered sharing.kernelHalf made
  have isCr3 := same_globals_cr3 created.globals
  have window := same_globals_window created.globals
  change middle.cr3 = state.system.machine.cr3 at isCr3
  change windowPage middle = windowPage state.system.machine at window
  have current : state.system.machine.cr3 ∈ state.directories :=
    sharing.directories ▸ sharing.balanced.spaces.member
  have low : ∀ root ∈ state.directories, directoryEntry middle.memory root 0 =
      directoryEntry state.system.machine.memory root 0 := by
    intro root member
    apply created.entries root (sharing.directories ▸ member) 0 (by decide)
    rintro ⟨_, absent, _⟩
    exact absent sharing.balanced.low
  -- the older directories agree with each other
  have old : ∀ root ∈ state.directories, ∀ other ∈ state.directories, ∀ index, kernelPdiStart ≤ index →
      index < kernelPdiEnd →
        SameTable (directoryEntry middle.memory root index) (directoryEntry middle.memory other index) := by
    intro root member other second index start stop
    have small : index < 1024 := by
      unfold kernelPdiEnd at stop
      omega
    rcases found with tables | only
    · have kept : ∀ root ∈ state.directories, directoryEntry middle.memory root index =
          directoryEntry state.system.machine.memory root index := by
        intro root member
        apply created.entries root (sharing.directories ▸ member) index small
        rintro ⟨_, absent, page, isPage, rfl⟩
        exact absent (tables page ⟨ptr, marked, allocated, isPage⟩)
      rw [kept root member, kept other second]
      exact sharing.tables root member other second index start stop
    · rw [only_directory only member second]
      exact same_table_refl _
  have own : ∀ index, kernelPdiStart ≤ index → index < kernelPdiEnd →
      directoryEntry middle.memory frame index = directoryEntry middle.memory state.system.machine.cr3 index := by
    intro index start stop
    rw [created.own index (by unfold kernelPdiEnd at stop; exact stop), if_pos (.inr start), isCr3]
  refine ⟨final, held, ?_, (created.pages _).2 sharing.map, placed, sharing.behind, sharing.ordered, ?_, ?_,
    ?_, ?_⟩
  · exact created.roots.trans (congrArg (frame :: ·) sharing.directories)
  · change kernelPdiStart ≤ windowPage middle / 1024
    rw [window]
    exact sharing.kernelHalf
  · change windowPage middle < base
    rw [window]
    exact sharing.window
  · refine List.forall_mem_cons.2 ⟨?_, fun root member => ?_⟩
    · change Present (directoryEntry middle.memory frame 0)
      rw [created.own 0 (by decide), if_pos (.inl rfl), isCr3, low _ current]
      exact sharing.balanced.low
    · change Present (directoryEntry middle.memory root 0)
      rw [low root member]
      exact sharing.low root member
  · intro root member other second index start stop
    change SameTable (directoryEntry middle.memory root index) (directoryEntry middle.memory other index)
    have reached : ∀ root ∈ frame :: state.directories, ∃ like ∈ state.directories,
        directoryEntry middle.memory root index = directoryEntry middle.memory like index := by
      refine List.forall_mem_cons.2 ⟨⟨_, current, own index start stop⟩, fun root member => ?_⟩
      exact ⟨root, member, rfl⟩
    obtain ⟨like, isLike, entry⟩ := reached root member
    obtain ⟨alike, isAlike, otherEntry⟩ := reached other second
    rw [entry, otherEntry]
    exact old like isLike alike isAlike index start stop

/-- A state with the same memory and heap shares as well. -/
theorem sharing_same {other : System} (sharing : Sharing contributed total base first state ledger)
    (same : other.machine = { state.system.machine with pageDirPaddr := other.machine.pageDirPaddr }) :
    Sharing contributed total base first { state with system := other } ledger := by
  obtain ⟨balanced, directories, map, placed, behind, ordered, kernelHalf, window, low, tables⟩ := sharing
  have paging : SamePaging state.system.machine other.machine := by
    rw [same]
    exact ⟨rfl, rfl, rfl, rfl, rfl, rfl⟩
  have head : windowPage other.machine = windowPage state.system.machine := by
    rw [same]
    rfl
  have heap : other.machine.kernelHeap = state.heap := by
    rw [same]
    rfl
  refine ⟨balanced_same_paging balanced paging (by rw [same]), directories, map, ?_, behind, ordered, ?_, ?_, ?_,
    ?_⟩
  · change Placed _ other.machine.kernelHeap _
    rw [heap]
    exact placed
  · change kernelPdiStart ≤ windowPage other.machine / 1024
    rw [head]
    exact kernelHalf
  · change windowPage other.machine < base
    rw [head]
    exact window
  · change ∀ root ∈ _, Present (directoryEntry other.machine.memory root 0)
    rw [paging.memory]
    exact low
  · change ∀ root ∈ _, ∀ other' ∈ _, ∀ index, _ → _ → SameTable (directoryEntry other.machine.memory root index)
      (directoryEntry other.machine.memory other' index)
    rw [paging.memory]
    exact tables

theorem live_pointer_offset (sharing : Sharing contributed total base first state ledger) {ptr : Nat}
    (live : LivePointer ⟨state.heap, state.live⟩ ptr) :
    ∃ block ∈ state.live, ptr = pagePtr state.heap block.start ∧ pageOffset state.heap ptr = block.start := by
  obtain ⟨block, member, rfl⟩ := live
  exact ⟨block, member, rfl, live_offset sharing.placed member⟩

/-- Taking pages from the kernel's heap keeps the sharing. -/
theorem sharing_kernel_alloc {pages ptr : Nat} (sharing : Sharing contributed total base first state ledger)
    (found : FindsTables state (.kernelAlloc pages))
    (allocating : kernelAlloc state.system.machine pages = .ok (ptr, machine)) :
    ∃ final, Sharing contributed total base first
      (state.onMachine machine (⟨pageOffset state.heap ptr, pages⟩ :: state.live)) final := by
  obtain ⟨⟨vaddr, heap, middle⟩, allocated, finished⟩ := Trap.bind_eq_ok.mp allocating
  simp only [Trap.pure_ok, Except.ok.injEq, Prod.mk.injEq] at finished
  obtain ⟨rfl, rfl⟩ := finished
  obtain ⟨placed, final, held, carried, grown⟩ := mem_alloc_carried sharing.placed sharing.balanced
    (fun page inside => heap_span_inside sharing.behind sharing.ordered .kernel page inside) (by decide)
    sharing.ordered (page_present sharing.balanced sharing.map) allocated
  refine ⟨final, sharing_carried sharing carried held (fun page member _ => (grown page).2 (.inl member)) placed
    (found.imp_left fun tables page range => ?_)⟩
  obtain ⟨_, _, allocated⟩ := Trap.bind_eq_ok.mp allocated
  obtain ⟨⟨place, marked⟩, taken, allocated⟩ := Trap.bind_eq_ok.mp allocated
  obtain ⟨_, _, allocated⟩ := Trap.bind_eq_ok.mp allocated
  simp only [Trap.pure_ok, Except.ok.injEq, Prod.mk.injEq] at allocated
  exact tables page ⟨place, marked, taken, allocated.1 ▸ range⟩

theorem sharing_kernel_realloc {ptr pages newPtr : Nat}
    (sharing : Sharing contributed total base first state ledger)
    (legal : LegalKernel state (.kernelRealloc ptr pages))
    (found : FindsTables state (.kernelRealloc ptr pages))
    (reallocating : kernelRealloc state.system.machine ptr pages = .ok (newPtr, machine)) :
    ∃ final, Sharing contributed total base first (state.onMachine machine
      (⟨pageOffset state.heap newPtr, pages⟩ :: dropStart state.live (pageOffset state.heap ptr))) final := by
  obtain ⟨block, member, rfl, offset⟩ := live_pointer_offset sharing legal.1
  obtain ⟨⟨place, heap, middle⟩, reallocated, finished⟩ := Trap.bind_eq_ok.mp reallocating
  simp only [Trap.pure_ok, Except.ok.injEq, Prod.mk.injEq] at finished
  obtain ⟨rfl, rfl⟩ := finished
  obtain ⟨placed, final, held, carried, kept⟩ := mem_realloc_carried sharing.placed member sharing.balanced
    (fun page inside => heap_span_inside sharing.behind sharing.ordered .kernel page inside) legal.2
    sharing.ordered (page_present sharing.balanced sharing.map) reallocated
  rw [offset]
  refine ⟨final, sharing_carried sharing carried held kept placed (found.imp_left fun tables page range => ?_)⟩
  obtain ⟨_, _, reallocated⟩ := Trap.bind_eq_ok.mp reallocated
  obtain ⟨⟨oldSize, target, marked⟩, taken, reallocated⟩ := Trap.bind_eq_ok.mp reallocated
  obtain ⟨_, _, reallocated⟩ := Trap.bind_eq_ok.mp reallocated
  obtain ⟨_, _, reallocated⟩ := Trap.bind_eq_ok.mp reallocated
  simp only [Trap.pure_ok, Except.ok.injEq, Prod.mk.injEq] at reallocated
  exact tables page ⟨oldSize, target, marked, taken, reallocated.1 ▸ range⟩

theorem sharing_kernel_free {ptr : Nat} (sharing : Sharing contributed total base first state ledger)
    (legal : LegalKernel state (.kernelFree ptr)) (freeing : kernelFree state.system.machine ptr = .ok machine) :
    ∃ final, Sharing contributed total base first
      (state.onMachine machine (dropStart state.live (pageOffset state.heap ptr))) final := by
  obtain ⟨block, member, rfl, offset⟩ := live_pointer_offset sharing legal
  obtain ⟨⟨heap, middle⟩, freed, finished⟩ := Trap.bind_eq_ok.mp freeing
  simp only [Trap.pure_ok, Except.ok.injEq] at finished
  subst finished
  obtain ⟨placed, final, held, carried, kept⟩ := mem_free_carried sharing.placed member sharing.balanced
    (fun page inside => heap_span_inside sharing.behind sharing.ordered .kernel page inside) freed
  rw [offset]
  exact ⟨final, sharing_carried sharing carried held kept placed (.inl fun _ impossible => impossible.elim)⟩

/-- One call that finds its tables keeps the sharing. -/
theorem kernel_step_sharing {call : KernelCall} {observation : Nat}
    (sharing : Sharing contributed total base first state ledger) (legal : LegalKernel state call)
    (found : FindsTables state call) (stepped : kernelStep state call = .ok (observation, next)) :
    ∃ final, Sharing contributed total base first next final := by
  cases call with
  | kernelAlloc pages =>
      obtain ⟨⟨ptr, machine⟩, allocating, finished⟩ := Trap.bind_eq_ok.mp stepped
      simp only [Trap.pure_ok, Except.ok.injEq, Prod.mk.injEq] at finished
      obtain ⟨rfl, rfl⟩ := finished
      exact sharing_kernel_alloc sharing found allocating
  | kernelRealloc ptr pages =>
      obtain ⟨⟨newPtr, machine⟩, reallocating, finished⟩ := Trap.bind_eq_ok.mp stepped
      simp only [Trap.pure_ok, Except.ok.injEq, Prod.mk.injEq] at finished
      obtain ⟨rfl, rfl⟩ := finished
      exact sharing_kernel_realloc sharing legal found reallocating
  | kernelFree ptr =>
      obtain ⟨machine, freeing, finished⟩ := Trap.bind_eq_ok.mp stepped
      simp only [Trap.pure_ok, Except.ok.injEq, Prod.mk.injEq] at finished
      obtain ⟨_, rfl⟩ := finished
      exact sharing_kernel_free sharing legal freeing
  | poolCreate =>
      obtain ⟨⟨process, created⟩, creating, finished⟩ := Trap.bind_eq_ok.mp stepped
      simp only [Trap.pure_ok, Except.ok.injEq, Prod.mk.injEq] at finished
      obtain ⟨rfl, rfl⟩ := finished
      rcases pool_create_takes creating with ⟨some, same⟩ | ⟨none, ptr, taken, allocating, isSlot, same⟩
      · rw [if_neg some]
        exact ⟨ledger, sharing_same sharing (by rw [same])⟩
      · have tables : FindsTables state (.kernelAlloc 1) :=
          found.imp_left fun tables page taken => tables page ⟨none, taken⟩
        obtain ⟨final, after⟩ := sharing_kernel_alloc sharing tables allocating
        have isPtr : process = ptr := by
          obtain ⟨_, _, found⟩ := ProcessFrames.kernel_alloc_objects allocating
          obtain ⟨index, _, rfl, _⟩ := heap_alloc_ok (by decide)
            (show state.heap.pageCount < 4294967296 by have near := sharing.placed.near; omega) found
          rw [isSlot, pagePtr]
          exact Nat.mod_mod _ _
        rw [if_pos none, isPtr]
        exact ⟨final, sharing_same after same⟩
  | newPageDir =>
      obtain ⟨⟨frame, machine⟩, made, finished⟩ := Trap.bind_eq_ok.mp stepped
      simp only [Trap.pure_ok, Except.ok.injEq, Prod.mk.injEq] at finished
      obtain ⟨rfl, rfl⟩ := finished
      exact sharing_new_page_dir sharing found made
  | setPageDir paddr =>
      simp only [kernelStep, Except.ok.injEq, Prod.mk.injEq] at stepped
      obtain ⟨_, rfl⟩ := stepped
      exact ⟨ledger, sharing_switch sharing legal⟩

end Steps

section Runs

/-- The end of `mem_init`, behind `reinit_paging`: the heaps, and the map of the frames for users.
`buffer` is `user_physical_map_buffer`. -/
def initHeaps (machine : Machine) (memory userRoMemory : Nat → UInt8) (buffer : Nat) :
    Except Trap Machine := do
  let machine ← initHeap machine memory userRoMemory
  let (userPhysicalMap, heap, machine) ← memAlloc machine machine.userRoHeap 1 pageUserMode
  let machine ← copyBytes machine userPhysicalMap buffer (u32 (machine.userPhysicalMapLen * 8))
  pure { machine with userRoHeap := heap, userPhysicalMap := userPhysicalMap }

/-- No page of the kernel's heap is taken, and the boot directory is the only one. -/
def bootState (system : System) : KernelState := ⟨system, [], [system.machine.cr3]⟩

variable {system : System} {machine : Machine} {memory userRoMemory : Nat → UInt8} {buffer : Nat}
  {frames tables : List Nat} {calls : List KernelCall} {observations : List Nat} {final : KernelState}

theorem boot_sharing (ready : FramesReady machine [machine.cr3] frames tables)
    (few : machine.userPhysicalMapLen ≤ BootModel.physicalMapRoom)
    (initialized : initHeaps machine memory userRoMemory buffer = .ok system.machine) :
    ∃ first ledger, Sharing (frames ++ tables) machine.totalFrames (windowPage machine + 1) first
      (bootState system) ledger := by
  obtain ⟨start, opening, initialized⟩ := Trap.bind_eq_ok.mp initialized
  obtain ⟨⟨ptr, heap, mapped⟩, allocated, initialized⟩ := Trap.bind_eq_ok.mp initialized
  obtain ⟨copied, copying, initialized⟩ := Trap.bind_eq_ok.mp initialized
  simp only [Trap.pure_ok, Except.ok.injEq] at initialized
  obtain ⟨first, ledger, opened⟩ := init_heap_opened ready opening
  have inside := fun page => heap_span_inside opened.behind opened.ordered .userRo page
  obtain ⟨_, final, held, carried, grown⟩ := mem_alloc_carried (opened.placed .userRo) opened.balanced inside
    (by decide) (span_ordered opened.ordered .userRo) (limit_present opened.balanced opened.map .userRo) allocated
  have kept := same_globals_trans opened.globals carried.globals
  have mapLen : mapped.userPhysicalMapLen = machine.userPhysicalMapLen := by rw [kept]
  have aligned : ptr % 4096 = 0 := by
    obtain ⟨_, _, allocated⟩ := Trap.bind_eq_ok.mp allocated
    obtain ⟨⟨place, marked⟩, taken, allocated⟩ := Trap.bind_eq_ok.mp allocated
    obtain ⟨_, _, allocated⟩ := Trap.bind_eq_ok.mp allocated
    simp only [Trap.pure_ok, Except.ok.injEq, Prod.mk.injEq] at allocated
    have placed := opened.placed .userRo
    have near := placed.near
    change start.userRoHeap.pageCount ≤ 524288 at near
    have isStart : start.userRoHeap.heapStart = 1046529 * 4096 := placed.start
    obtain ⟨index, _, isPlace, _⟩ := heap_alloc_ok (by decide) (by omega) taken
    rw [← allocated.1, isPlace, pagePtr, isStart]
    unfold u32
    omega
  obtain ⟨heldCopy, carriedCopy⟩ := copy_bytes_balanced _ held (fun offset small => by
    rw [grown]
    right
    unfold InRange
    unfold BootModel.physicalMapRoom pageSize at few
    rw [mapLen] at small
    unfold u32 at small
    omega) copying
  obtain ⟨finished, isFinished⟩ : ∃ finished : Machine, finished =
      { copied with userRoHeap := heap, userPhysicalMap := ptr } := ⟨_, rfl⟩
  rw [← isFinished] at initialized
  have all := same_globals_trans kept carriedCopy.globals
  have window := same_globals_window all
  have cr3 := same_globals_cr3 all
  change windowPage copied = windowPage machine at window
  change copied.cr3 = machine.cr3 at cr3
  have copiedWindow : windowPage finished = windowPage copied := by
    rw [isFinished]
    rfl
  have copiedCr3 : finished.cr3 = copied.cr3 := by rw [isFinished]
  have same : SamePaging copied finished := by
    rw [isFinished]
    exact ⟨rfl, rfl, rfl, rfl, rfl, rfl⟩
  have balanced := balanced_same_paging heldCopy same (by rw [isFinished])
  have kernel : finished.kernelHeap = start.kernelHeap := by
    rw [isFinished]
    change copied.kernelHeap = _
    rw [all]
  have isRoots : final.roots = [finished.cr3] := by
    rw [copiedCr3, cr3, carried.roots, opened.roots]
  refine ⟨first, final, ?_⟩
  rw [bootState, ← initialized]
  refine ⟨initialized ▸ balanced, ?_, (grown _).2 (.inl opened.map), ?_, opened.behind, opened.ordered, ?_, ?_, ?_, ?_⟩
  · exact isRoots
  · change Placed _ system.machine.kernelHeap []
    rw [← initialized, kernel]
    exact opened.placed .kernel
  · change kernelPdiStart ≤ windowPage system.machine / 1024
    rw [← initialized, copiedWindow, window]
    exact ready.kernelHalf
  · change windowPage system.machine < _
    rw [← initialized, copiedWindow, window]
    exact Nat.lt_succ_self _
  · refine List.forall_mem_singleton.2 ?_
    change Present (directoryEntry system.machine.memory finished.cr3 0)
    rw [← initialized]
    exact balanced.low
  · intro root member other second index _ _
    rw [List.mem_singleton.1 member, List.mem_singleton.1 second]
    exact same_table_refl _

/-- From `mem_init` on, the directories have one kernel's half in every run whose calls find their
page tables. -/
theorem kernel_half_shared_runs (ready : FramesReady machine [machine.cr3] frames tables)
    (few : machine.userPhysicalMapLen ≤ BootModel.physicalMapRoom)
    (initialized : initHeaps machine memory userRoMemory buffer = .ok system.machine)
    (allowed : Allowed kernelStep (fun state call => LegalKernel state call ∧ FindsTables state call)
      (bootState system) calls)
    (completed : run kernelStep (bootState system) calls = .ok (observations, final)) :
    OneKernelHalf final.system.machine.memory final.directories := by
  obtain ⟨first, ledger, sharing⟩ := boot_sharing ready few initialized
  obtain ⟨_, kept⟩ := run_preserves (fun state => ∃ ledger,
      Sharing (frames ++ tables) machine.totalFrames (windowPage machine + 1) first state ledger)
    (fun state call observation next sharing legal stepped => by
      obtain ⟨_, sharing⟩ := sharing
      exact kernel_step_sharing sharing legal.1 legal.2 stepped)
    calls _ final observations ⟨ledger, sharing⟩ allowed completed
  exact sharing_half kept

end Runs

section Sample

open PagingChecks

/-- A kernel of 0x2EE pages, which leaves its heap one page under its page table. These are its directory, the
entry of its window and a word in a free frame, the one on top of the list once the heaps are made. -/
def edgeWords : List (Nat × Nat) :=
  [(0x3EC000, 0x3EE003), (0x3ECC00, 0x3EF003), (0x3ECFF8, 0x3F0007), (0x3ECFFC, 0x3EC003), (0x3EFFB8, 0x3F1003),
    (0x403014, 0x1F003)]

/-- The kernel's own pages are mapped, and each free frame is linked to the next one. -/
def edgeWord (place : Nat) : Nat :=
  if 0x3EF400 ≤ place ∧ place < 0x3EFFB8 then createEntry (0x100000 + (place - 0x3EF400) * 1024) pageWritable
  else if 0x3F1000 ≤ place ∧ place < 0x406000 ∧ place % 4096 = 0 then place + 4096
  else wordAt edgeWords place

def edgeMemory : Memory := fun cell => UInt8.ofNat (edgeWord (cell / 4 * 4) / 256 ^ (cell % 4))

def edgeMachine : Machine :=
  { sampleMachine with
    memory := edgeMemory
    cr3 := 0x3EC000
    currentPageDir := 0x3EC000
    kernelPageDir := 0x3EC000
    freeListHead := 0xC03EE000
    freeListHeadPte := 0xFFF00FB8
    freeFramePaddr := 0x3F1000
    usedFrames := 3
    totalFrames := 25
    userPhysicalMapLen := 0 }

def edgeFrames : List Nat := List.range' 0x3F1000 22 4096

def edgeTables : List Nat := [0x3EE000, 0x3EF000, 0x3F0000]

theorem edge_word {addr : Nat} (aligned : addr % 4 = 0)
    (outside : addr < 0x3EF400 ∨ 0x3EFFB8 ≤ addr ∧ addr < 0x3F1000) :
    readWord edgeMemory addr = readWord (imageOf edgeWords) addr := by
  apply read_word_congr
  intro offset small
  rw [edgeMemory, imageOf, edgeWord, if_neg (by omega), if_neg (by omega)]

theorem edge_entry {index : Nat} (small : index < 1024) :
    directoryEntry edgeMemory 0x3EC000 index = directoryEntry (imageOf edgeWords) 0x3EC000 index :=
  edge_word (by omega) (by omega)

theorem edge_covers : Covers edgeMachine.memory [0x3EC000] [0, 0x300, 0x3FE] := by
  have listed : Covers (imageOf edgeWords) [0x3EC000] [0, 0x300, 0x3FE] := covers_of_words _ (by decide) (by decide)
  intro root member index low present
  apply listed root member index low
  rw [List.mem_singleton.1 member] at present ⊢
  exact (edge_entry (Nat.lt_succ_of_lt low)) ▸ present

theorem edge_spaces : Spaces edgeMachine [0x3EC000] where
  family := family_of_checks _ edge_covers (by decide +kernel) (by decide +kernel)
  current := rfl
  member := by decide
  headAligned := by decide
  headLow := by decide
  headPte := by decide
  headShared := by decide +kernel

theorem edge_free : FreeList edgeMachine [0x3EC000] edgeFrames :=
  free_list_of_checks _ edge_covers (by decide +kernel) (linked_run 21 (by decide +kernel) (by decide +kernel))
    (List.nodup_range' 4096 (by decide)) (by decide +kernel)

/-- Behind the window no page is mapped. -/
theorem edge_clear {page : Nat} (low : 0xC03EE < page) (high : page < 1047552) :
    ¬ Present (pageEntry edgeMachine.memory edgeMachine.cr3 page) := by
  intro present
  have index := edge_covers _ (List.mem_singleton_self _) _ (show page / 1024 < 1023 by omega)
    (page_entry_present present)
  have directory : directoryEntry edgeMemory 0x3EC000 (page / 1024) =
      directoryEntry (imageOf edgeWords) 0x3EC000 (page / 1024) := edge_entry (by omega)
  obtain ⟨table, tables, located⟩ : ∃ table, (table = 0x3EF000 ∧ page / 1024 = 0x300 ∨ table = 0x3F0000) ∧
      slot (imageOf edgeWords) 0x3EC000 page = table + 4 * (page % 1024) := by
    simp only [List.mem_cons, List.not_mem_nil, or_false] at index
    rcases index with zero | below | above
    · omega
    · refine ⟨0x3EF000, Or.inl ⟨rfl, below⟩, ?_⟩
      rw [slot, below]
      congr 1
    · refine ⟨0x3F0000, Or.inr rfl, ?_⟩
      rw [slot, above]
      congr 1
  have same : pageEntry edgeMemory 0x3EC000 page = pageEntry (imageOf edgeWords) 0x3EC000 page := by
    have place : slot edgeMemory 0x3EC000 page = slot (imageOf edgeWords) 0x3EC000 page := by
      rw [slot, directory, slot]
    rw [pageEntry, pageEntry, directory, place, located, edge_word (by omega) (by omega)]
  obtain ⟨_, pair, member, place⟩ := page_stored _ (covers_of_words [0, 0x300, 0x3FE] (by decide) (by decide))
    (List.mem_singleton_self 0x3EC000) high (same ▸ present)
  have apart : ∀ pair ∈ edgeWords, pair.1 ≤ 0x3EFFB8 ∨ 0x3F1000 ≤ pair.1 := by decide
  have beside := apart pair member
  omega

theorem edge_ready : FramesReady edgeMachine [0x3EC000] edgeFrames edgeTables where
  spaces := edge_spaces
  linked := edge_free
  low := by decide +kernel
  kernelHalf := by decide
  tables := by
    have table : ∀ frame ∈ edgeTables, ∃ index ∈ [0, 0x300, 0x3FE], index < 1023 ∧
        Present (directoryEntry edgeMemory 0x3EC000 index) ∧
          frameOf (directoryEntry edgeMemory 0x3EC000 index) = frame := by decide +kernel
    intro frame member
    obtain ⟨index, _, low, present, same⟩ := table frame member
    exact ⟨0x3EC000, List.mem_singleton_self _, index, low, present, same⟩
  clear _ low high := edge_clear low high
  usage := by decide

/-- What the first directory and the pages after it need. -/
def edgeChecks (start : Machine) : Bool :=
  (Present (directoryEntry start.memory 0x3EC000 0x300) ∧
    ¬ Present (directoryEntry start.memory 0x3EC000 0x301) ∧
    ¬ Present (pageEntry start.memory 0x3EC000 0xC03FF) ∧ start.cr3 = 0x3EC000 ∧
    windowPage start = 0xC03EE ∧ start.freeFramePaddr = 0x403000 ∧ Present (readWord start.memory 0x403014)) ∧
  returnsWith (kernelAlloc start 1) (fun taken => (taken.1 = 0xC03FF000 ∧ taken.2.usedFrames = 22) ∧
    returnsWith (heapFree taken.2.kernelHeap taken.1) (fun freed =>
      returnsWith (heapAlloc freed.2 2) (fun again => again.1 = 0xC03FF000)) = true) = true

theorem edge_started : ∃ start, initHeaps edgeMachine (fun _ => 0) (fun _ => 0) 0 = .ok start ∧
    edgeChecks start = true :=
  returns_with_iff.1 (by decide +kernel)

def edgeSystem (start : Machine) : System := ⟨start, 0, ⟨0, 0, 0⟩, fun _ => 0, 0, 1, [], []⟩

/-- The kernel at the end of `mem_init`. Its first free frame is not blank, and a page that its heap hands out
and takes back is the last one under its page table. -/
structure EdgeStarted (start : Machine) : Prop where
  started : initHeaps edgeMachine (fun _ => 0) (fun _ => 0) 0 = .ok start
  cr3 : start.cr3 = 0x3EC000
  window : windowPage start = 0xC03EE
  table : Present (directoryEntry start.memory 0x3EC000 0x300)
  missing : ¬ Present (directoryEntry start.memory 0x3EC000 0x301)
  page : ¬ Present (pageEntry start.memory 0x3EC000 0xC03FF)
  top : start.freeFramePaddr = 0x403000
  dirty : Present (readWord start.memory 0x403014)
  turn : ∃ allocated count heap marked, kernelAlloc start 1 = .ok (0xC03FF000, allocated) ∧
    allocated.usedFrames = 22 ∧ heapFree allocated.kernelHeap 0xC03FF000 = .ok (count, heap) ∧
      heapAlloc heap 2 = .ok (0xC03FF000, marked)

theorem edge_starts : ∃ start, EdgeStarted start := by
  obtain ⟨start, started, passed⟩ := edge_started
  obtain ⟨⟨table, missing, page, cr3, window, top, dirty⟩, taken⟩ := of_decide_eq_true passed
  obtain ⟨⟨ptr, allocated⟩, allocating, passed⟩ := returns_with_iff.1 taken
  obtain ⟨⟨isPtr, used⟩, freed⟩ := of_decide_eq_true passed
  obtain ⟨⟨count, heap⟩, freeing, again⟩ := returns_with_iff.1 freed
  obtain ⟨⟨place, marked⟩, placing, isPlace⟩ := returns_with_iff.1 again
  change ptr = 0xC03FF000 at isPtr
  have isPlace := of_decide_eq_true isPlace
  change place = 0xC03FF000 at isPlace
  subst isPtr isPlace
  exact ⟨start, started, cr3, window, table, missing, page, top, dirty, allocated, count, heap, marked, allocating, used,
    freeing, placing⟩

theorem edge_sharing {start : Machine} (state : EdgeStarted start) :
    ∃ first ledger, Sharing (edgeFrames ++ edgeTables) 25 (windowPage edgeMachine + 1) first
      (bootState (edgeSystem start)) ledger ∧ ledger.roots = [0x3EC000] := by
  obtain ⟨first, ledger, sharing⟩ := @boot_sharing (edgeSystem start) edgeMachine (fun _ => 0) (fun _ => 0) 0
    edgeFrames edgeTables edge_ready (by decide) state.started
  refine ⟨first, ledger, sharing, sharing.directories.trans ?_⟩
  change [start.cr3] = _
  rw [state.cr3]

/-- The free frame that is not blank is the next one to be taken. -/
theorem edge_top {start : Machine} (state : EdgeStarted start) :
    Spaces start [0x3EC000] ∧ ∃ rest, FreeList start [0x3EC000] (0x403000 :: rest) := by
  obtain ⟨_, ledger, sharing, roots⟩ := edge_sharing state
  have spaces : Spaces start ledger.roots := sharing.balanced.spaces
  have free : FreeList start ledger.roots ledger.free := sharing.balanced.free
  have top := state.top
  rw [roots] at spaces free
  refine ⟨spaces, ?_⟩
  have linked := free.linked
  cases frames : ledger.free with
  | nil =>
      rw [frames, top] at linked
      change 0x403000 = 0 at linked
      omega
  | cons frame rest =>
      rw [frames, top] at linked
      refine ⟨rest, ?_⟩
      rw [linked.1, ← frames]
      exact free

theorem edge_place {start : Machine} (state : EdgeStarted start) {ptr : Nat} {marked : Heap}
    (found : heapAlloc start.kernelHeap 1 = .ok (ptr, marked)) : ptr = 0xC03FF000 := by
  obtain ⟨_, _, _, _, allocating, _⟩ := state.turn
  have same := (ProcessFrames.kernel_alloc_objects allocating).2.2.symm.trans found
  simp only [Except.ok.injEq, Prod.mk.injEq] at same
  exact same.1.symm

/-- The kernel with a second directory. -/
structure EdgeMade (start : Machine) (root : Nat) (machine : Machine) : Prop extends EdgeStarted start where
  made : newPageDir start = .ok (root, machine)
  madeCr3 : machine.cr3 = 0x3EC000
  madeWindow : windowPage machine = 0xC03EE
  spaces : Spaces machine [root, 0x3EC000]
  free : ∃ first second third, FreeList machine [root, 0x3EC000] [first, second, third]
  madeTable : Present (directoryEntry machine.memory 0x3EC000 0x300)
  madeMissing : ¬ Present (directoryEntry machine.memory 0x3EC000 0x301)
  own : ¬ Present (directoryEntry machine.memory root 0x301)
  madePage : ¬ Present (pageEntry machine.memory 0x3EC000 0xC03FF)
  differ : root ≠ 0x3EC000
  heap : ∃ marked, heapAlloc machine.kernelHeap 2 = .ok (0xC03FF000, marked)

theorem edge_made : ∃ start root machine, EdgeMade start root machine := by
  obtain ⟨start, state⟩ := edge_starts
  obtain ⟨first, ledger, sharing, isRoots⟩ := edge_sharing state
  obtain ⟨allocated, count, heap, marked, allocating, used, freeing, placing⟩ := state.turn
  have cr3 := state.cr3
  have balanced : Balanced _ (edgeFrames ++ edgeTables) 25 start ledger := sharing.balanced
  have kernelHalf : kernelPdiStart ≤ windowPage start / 1024 := sharing.kernelHalf
  have inside : Inside ⟨windowPage edgeMachine + 1, 1047552⟩ 0xC03FF := ⟨by decide, by decide⟩
  have places : ∀ ptr other, heapAlloc start.kernelHeap 1 = .ok (ptr, other) →
      ptr % 4096 = 0 ∧ Inside ⟨windowPage edgeMachine + 1, 1047552⟩ (ptr / 4096) := by
    intro ptr other found
    rw [edge_place state found]
    exact ⟨by decide, inside⟩
  obtain ⟨⟨root, machine⟩, making⟩ := new_page_dir_returns balanced places allocating freeing
  obtain ⟨dir, other, freedCount, again, final, taking, giving, isHeap, held, made⟩ :=
    new_page_dir_ok balanced kernelHalf places making
  have isDir := edge_place state taking
  subst isDir
  have same := (ProcessFrames.kernel_alloc_objects allocating).2.2.symm.trans taking
  simp only [Except.ok.injEq, Prod.mk.injEq, true_and] at same
  rw [← same] at giving
  have gives := freeing.symm.trans giving
  simp only [Except.ok.injEq, Prod.mk.injEq] at gives
  have madeCr3 := same_globals_cr3 made.globals
  have madeWindow := same_globals_window made.globals
  change machine.cr3 = start.cr3 at madeCr3
  change windowPage machine = windowPage start at madeWindow
  rw [cr3] at madeCr3
  have entries : ∀ index < 1024, directoryEntry machine.memory 0x3EC000 index =
      directoryEntry start.memory 0x3EC000 index := by
    intro index small
    apply made.entries 0x3EC000 (isRoots ▸ List.mem_singleton_self _) index small
    rintro ⟨_, absent, other, isPage, rfl⟩
    rw [isPage, cr3] at absent
    exact absent state.table
  have roots : final.roots = [root, 0x3EC000] := made.roots.trans (congrArg (root :: ·) isRoots)
  have missing : ¬ Present (directoryEntry machine.memory 0x3EC000 0x301) := by
    rw [entries _ (by decide)]
    exact state.missing
  have three : final.free.length = 3 := by
    have usage := held.usage
    rw [made.used _ _ allocating] at usage
    have total := held.accounts.length_eq
    simp only [List.length_append, List.length_map] at total
    change _ = 25 at total
    rw [used] at usage
    unfold u32 at usage
    omega
  obtain ⟨frame, second, third, isFree⟩ := List.length_eq_three.1 three
  refine ⟨start, root, machine, state, making, madeCr3, madeWindow.trans state.window, roots ▸ held.spaces,
    ⟨frame, second, third, isFree ▸ roots ▸ held.free⟩, ?_, missing, ?_, ?_, ?_, marked, ?_⟩
  · rw [entries _ (by decide)]
    exact state.table
  · rw [made.own 0x301 (by decide), if_pos (.inr (by decide)), madeCr3]
    exact missing
  · intro present
    have there := (held.exact 0xC03FF inside).1 (by rwa [madeCr3])
    have before := (balanced.exact 0xC03FF inside).2 ((made.pages _).1 there)
    rw [cr3] at before
    exact state.page before
  · exact fun isRoot => made.notRoot (isRoots ▸ isRoot ▸ List.mem_singleton_self _)
  · rw [isHeap, ← gives.2]
    exact placing

/-- The second page needs a page table, which the new directory does not get. -/
theorem edge_splits {start machine : Machine} {root : Nat} (state : EdgeMade start root machine) :
    ∃ last, kernelAlloc machine 2 = .ok (0xC03FF000, last) ∧
      Present (directoryEntry last.memory 0x3EC000 0x301) ∧ ¬ Present (directoryEntry last.memory root 0x301) := by
  obtain ⟨marked, placing⟩ := state.heap
  obtain ⟨frame, second, third, free⟩ := state.free
  have isCr3 := state.madeCr3
  have window := state.madeWindow
  have rootMember : root ∈ [root, 0x3EC000] := List.mem_cons_self
  obtain ⟨next, first⟩ := @alloc_page_returns machine _ 0xC03FF000 pageWritable _ _ state.spaces free (by decide)
    (by rw [window]; decide) (by rw [isCr3]; exact state.madeTable) (by rw [isCr3]; exact state.madePage) (by decide)
  obtain ⟨taken, rest, _, backed⟩ := alloc_page_ok state.spaces free (by decide) (by decide) first
  have nextCr3 := (same_globals_cr3 backed.globals).trans isCr3
  have nextWindow := (same_globals_window backed.globals).trans window
  have isRest : rest = [second, third] := by
    rcases backed.taken with ⟨_, same, _⟩ | ⟨absent, _⟩
    · exact (List.cons.inj same).2.symm
    · rw [isCr3] at absent
      exact absurd state.madeTable absent
  subst isRest
  have kept : ∀ other ∈ [root, 0x3EC000], directoryEntry next.memory other 0x301 =
      directoryEntry machine.memory other 0x301 := by
    intro other member
    apply backed.directories other member 0x301 (by decide)
    rintro ⟨_, same, _⟩
    exact absurd same (by decide)
  have missing : ¬ Present (directoryEntry next.memory next.cr3 (0xC0400000 / 4096 / 1024)) := by
    rw [nextCr3]
    change ¬ Present (directoryEntry next.memory 0x3EC000 0x301)
    rw [kept _ (by simp)]
    exact state.madeMissing
  obtain ⟨last, after⟩ := @alloc_page_new_table_returns next _ 0xC0400000 pageWritable _ _ _ backed.spaces
    backed.free (by decide) (by rw [nextWindow]; decide) missing
  obtain ⟨_, _, _, again⟩ := alloc_page_ok backed.spaces backed.free (by decide) (by decide) after
  have backing : allocPages machine 0xC03FF000 pageWritable 2 = .ok last := by
    have step : u32 (0xC03FF000 + pageSize) = 0xC0400000 := by decide
    rw [alloc_pages_succ, first, Trap.ok_bind, step, alloc_pages_succ, after, Trap.ok_bind]
    rfl
  refine ⟨{ last with kernelHeap := marked }, ?_, ?_, ?_⟩
  · rw [kernelAlloc, memAlloc, Trap.kernel_assert_of (by decide), Trap.ok_bind, placing, Trap.ok_bind]
    dsimp only
    rw [backing]
    rfl
  · have table := again.table
    rw [nextCr3] at table
    exact table
  · have own : directoryEntry last.memory root 0x301 = directoryEntry next.memory root 0x301 := by
      apply again.directories root rootMember 0x301 (by decide)
      rintro ⟨same, _⟩
      exact state.differ (same.trans nextCr3)
    change ¬ Present (directoryEntry last.memory root 0x301)
    rw [own, kept root rootMember]
    exact state.own

/-- The second directory is loaded as soon as it is made. -/
theorem kernel_half_shared_second : ∃ start root final,
    initHeaps edgeMachine (fun _ => 0) (fun _ => 0) 0 = .ok start ∧
      run kernelStep (bootState (edgeSystem start)) [.newPageDir, .setPageDir root] = .ok ([root, 0], final) ∧
      OneKernelHalf final.system.machine.memory final.directories := by
  obtain ⟨start, root, machine, state⟩ := edge_made
  have first : kernelStep (bootState (edgeSystem start)) .newPageDir = .ok (root,
      ⟨(edgeSystem start).onMachine machine, [], [root, start.cr3]⟩) := by
    change (newPageDir start >>= _) = _
    rw [state.made]
    rfl
  have ended : ∀ last : KernelState, run kernelStep last [] = .ok ([], last) := fun _ => rfl
  have second : ∀ last : KernelState, kernelStep last (.setPageDir root) = .ok (0,
      last.onMachine (setPageDir last.system.machine root) last.live) := fun _ => rfl
  have completed := run_cons_of_step first (run_cons_of_step (second _) (ended _))
  refine ⟨start, root, _, state.started, completed, kernel_half_shared_runs edge_ready (by decide) state.started ?_
    completed⟩
  refine allowed_cons_of_step ⟨trivial, .inr rfl⟩ first ?_
  exact allowed_cons_of_step ⟨List.mem_cons_self, .inl fun _ impossible => impossible.elim⟩ (second _) trivial

/-- Two pages over the edge of a page table, taken after a directory was made. -/
theorem kernel_half_not_shared : ¬ ∀ (system : System) (machine : Machine) (memory userRoMemory : Nat → UInt8)
    (buffer : Nat) (frames tables : List Nat) (calls : List KernelCall) (observations : List Nat)
    (final : KernelState), FramesReady machine [machine.cr3] frames tables →
      machine.userPhysicalMapLen ≤ BootModel.physicalMapRoom →
        initHeaps machine memory userRoMemory buffer = .ok system.machine →
          Allowed kernelStep LegalKernel (bootState system) calls →
            run kernelStep (bootState system) calls = .ok (observations, final) →
              OneKernelHalf final.system.machine.memory final.directories := by
  intro always
  obtain ⟨start, root, machine, state⟩ := edge_made
  obtain ⟨last, allocating, present, absent⟩ := edge_splits state
  have first : kernelStep (bootState (edgeSystem start)) .newPageDir = .ok (root,
      ⟨(edgeSystem start).onMachine machine, [], [root, start.cr3]⟩) := by
    change (newPageDir start >>= _) = _
    rw [state.made]
    rfl
  have second : kernelStep ⟨(edgeSystem start).onMachine machine, [], [root, start.cr3]⟩ (.kernelAlloc 2) =
      .ok (0xC03FF000, ⟨(edgeSystem start).onMachine last, [⟨pageOffset machine.kernelHeap 0xC03FF000, 2⟩],
        [root, start.cr3]⟩) := by
    change (kernelAlloc machine 2 >>= _) = _
    rw [allocating]
    rfl
  have ended : ∀ last : KernelState, run kernelStep last [] = .ok ([], last) := fun _ => rfl
  have completed := run_cons_of_step first (run_cons_of_step second (ended _))
  have legal : Allowed kernelStep LegalKernel (bootState (edgeSystem start)) [.newPageDir, .kernelAlloc 2] :=
    allowed_cons_of_step trivial first (allowed_cons_of_step trivial second trivial)
  have shared := always (edgeSystem start) edgeMachine _ _ _ edgeFrames edgeTables _ _ _ edge_ready (by decide)
    state.started legal completed
  have same := shared.tables start.cr3 (by simp) root (by simp) 0x301 (by decide) (by decide)
  rw [state.cr3] at same
  exact absent (same.1.1 present)

end Sample

end ParadiseOS.SharedTables
