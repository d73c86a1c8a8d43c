import ParadiseOS.MapReturns
import ParadiseOS.SharedTables
import ParadiseOS.TlbMaps
import ParadiseOS.UsageArray

/-!
# No stale translations

Every call of the paging code keeps the TLB fresh as long as new page tables are made
of blank frames, directories are switched only where they agree on the global pages,
and nothing that is still in use is freed or unmapped.
-/

namespace ParadiseOS.TlbRuns

open FillingCache
open FrameLedger FrameOwners FrameSteps HeapModel HeapRuns StepRun VirtRanges
open MailboxModel (getPidAid)
open ProcessFrames ProcessModel SharedTables
open MachineWord MemModel NewDirectory PagingModel PagingSteps PagingMaps
open TlbModel TlbSteps TlbMaps
open TwoLevelPaging hiding writeAll

set_option autoImplicit false

section Statement

/-- The end of `mem_init`: the boot directory is the only one, and any of its translations may be
cached. -/
def bootTlb (system : System) : TlbState :=
  ⟨system, walks system.machine, [system.machine.cr3]⟩

variable (state : TlbState)

/-- Arguments of their types, the global flag in the kernel's half only, frames that are not in use,
and directories in existence. -/
def LegalTlb : TlbCall → Prop
  | .mapPage vaddr paddr flags => vaddr < 4294967296 ∧ paddr < 4294967296 ∧ flags < 4096 ∧
      (flags &&& pageGlobal ≠ 0 → kernelPdiStart ≤ getPdIndex vaddr ∧ getPdIndex vaddr < kernelPdiEnd)
  | .unmapPage vaddr => vaddr < 4294967296
  | .swapPageFrames vaddr1 vaddr2 => vaddr1 < 4294967296 ∧ vaddr2 < 4294967296
  | .allocFrame => True
  | .freeFrame paddr => paddr % 4096 = 0 ∧ 0 < paddr ∧ paddr < 4294967296 ∧
      paddr ∉ state.directories ∧ ¬ IsTable state.system.machine.memory state.directories paddr ∧
      ∀ frames, Linked state.system.machine.memory state.system.machine.freeFramePaddr frames →
        paddr ∉ frames
  | .newPageDir => True
  | .setPageDir paddr => paddr ∈ state.directories
  | .deleteProcess _ => True

/-- A page table for the page would be made of a blank frame, if there is none. -/
def TableOrBlank (machine : Machine) (page frame : Nat) : Prop :=
  Present (directoryEntry machine.memory machine.cr3 (page / 1024)) ∨ Blank machine.memory frame

/-- The address is neither in the self-map nor that of the window on the free list. -/
def Plain (machine : Machine) (vaddr : Nat) : Prop :=
  vaddr < 0xFFC00000 ∧ vaddr / 4096 ≠ windowPage machine

/-- The other directory has every global page of the current one. -/
def HasGlobals (machine : Machine) (root : Nat) : Prop :=
  ∀ page < 1047552, ∀ translation, walks machine page translation → translation.Global →
    walks (switch machine root) page translation

/-- What the calls must find so that nothing stale is left. -/
def Careful : TlbCall → Prop
  | .mapPage vaddr _ _ => vaddr < 0xFFC00000 ∧
      TableOrBlank state.system.machine (vaddr / 4096) state.system.machine.freeFramePaddr
  | .unmapPage vaddr => Plain state.system.machine vaddr
  | .swapPageFrames vaddr1 vaddr2 =>
      Plain state.system.machine vaddr1 ∧ Plain state.system.machine vaddr2
  | .allocFrame => True
  | .freeFrame _ => True
  | .newPageDir => ∀ ptr heap, heapAlloc state.system.machine.kernelHeap 1 = .ok (ptr, heap) →
      TableOrBlank state.system.machine (ptr / 4096)
        (readWord state.system.machine.memory state.system.machine.freeFramePaddr)
  | .setPageDir paddr => HasGlobals state.system.machine paddr
  | .deleteProcess pid => ∀ process,
      RbTreeRuns.getProcess state.system.machine.processTree (getPidAid pid) = .ok process → process ≠ 0 →
        state.system.machine.pageDirPaddr process ∈ state.directories ∧
          state.system.machine.pageDirPaddr process ≠ state.system.machine.cr3 ∧
          state.system.machine.pageDirPaddr process ≠ 0

end Statement

section Filling

variable {region : Nat → Prop} {contributed : List Nat} {total : Nat} {cpu next : Cpu}
  {ledger : Ledger} {page dir index word : Nat}

/-- The contents of a backed page are no part of the paging structures. -/
theorem rewritten_keeps {machine after : Machine} (balanced : Balanced region contributed total machine ledger)
    (member : page ∈ ledger.pages) (rewritten : Rewritten machine after (backingFrame machine page)) :
    Keeps SelfMapPage (walks machine) (walks after) := by
  have cr3 := rewritten_cr3 rewritten
  have entries := (rewritten_balanced balanced member rewritten).2
  apply keeps_of_entries cr3
  intro position clean _ _
  unfold SelfMapPage at clean
  refine ⟨rewritten_directory balanced member rewritten balanced.spaces.member (by omega), ?_⟩
  have entry := entries position (by omega)
  rw [cr3] at entry
  exact entry

theorem store_entry_fresh (balanced : Balanced region contributed total cpu.machine ledger)
    (aligned : dir % 4096 = 0) (member : dir / 4096 ∈ ledger.pages) (high : index < 1024)
    (bounded : word < 4294967296) (fresh : Fresh cpu)
    (stored : TlbModel.storeWord cpu (u32 (dir + u32 (4 * index))) word = .ok next) :
    Fresh next ∧ Balanced region contributed total next.machine ledger := by
  obtain ⟨machine, plain, isNext⟩ := Trap.bind_eq_ok.mp stored
  cases isNext
  obtain ⟨rewritten, _⟩ := store_entry balanced aligned member high bounded plain
  exact ⟨fresh_goes_on fresh (rewritten_keeps balanced member rewritten),
    (rewritten_balanced balanced member rewritten).1⟩

theorem clear_entries_fresh (count : Nat) (balanced : Balanced region contributed total cpu.machine ledger)
    (aligned : dir % 4096 = 0) (member : dir / 4096 ∈ ledger.pages) (high : index + count ≤ 1024)
    (fresh : Fresh cpu) (cleared : TlbModel.clearEntries cpu dir index count = .ok next) :
    Fresh next ∧ Balanced region contributed total next.machine ledger := by
  induction count generalizing cpu index with
  | zero =>
      cases cleared
      exact ⟨fresh, balanced⟩
  | succ count ih =>
      obtain ⟨middle, stored, cleared⟩ := Trap.bind_eq_ok.mp cleared
      obtain ⟨middleFresh, held⟩ :=
        store_entry_fresh balanced aligned member (by omega) (by decide) fresh stored
      exact ih held (by omega) middleFresh cleared

theorem copy_entries_fresh (count : Nat) (balanced : Balanced region contributed total cpu.machine ledger)
    (aligned : dir % 4096 = 0) (member : dir / 4096 ∈ ledger.pages) (high : index + count ≤ 1024)
    (fresh : Fresh cpu) (copied : TlbModel.copyEntries cpu dir index count = .ok next) :
    Fresh next ∧ Balanced region contributed total next.machine ledger := by
  induction count generalizing cpu index with
  | zero =>
      cases copied
      exact ⟨fresh, balanced⟩
  | succ count ih =>
      obtain ⟨entry, reading, copied⟩ := Trap.bind_eq_ok.mp copied
      rw [pde_ok balanced.spaces.selfMapped (by omega), Except.ok.injEq] at reading
      subst reading
      obtain ⟨middle, stored, copied⟩ := Trap.bind_eq_ok.mp copied
      obtain ⟨middleFresh, held⟩ :=
        store_entry_fresh balanced aligned member (by omega) (read_word_lt _ _) fresh stored
      exact ih held (by omega) middleFresh copied

end Filling

section Allocating

variable {cpu next : Cpu} {roots frames : List Nat} {vaddr paddr flags : Nat}

/-- Without a free frame no page table is made. -/
theorem map_page_no_frame {machine after : Machine} {mapped : Bool} (spaces : Spaces machine roots)
    (free : FreeList machine roots []) (low : vaddr / 4096 < 1047552)
    (completed : PagingModel.mapPage machine vaddr paddr flags = .ok (mapped, after)) :
    Present (directoryEntry machine.memory machine.cr3 (vaddr / 4096 / 1024)) := by
  by_contra absent
  have empty : PagingModel.allocFrame machine = .error .assertion := alloc_frame_empty free.linked
  rw [PagingModel.mapPage, PagingModel.makePageTable, get_pd_index_page, pde_ok spaces.selfMapped (by omega),
    Trap.ok_bind, if_pos (mt (entry_present_iff _).1 absent), empty] at completed
  cases completed

/-- The frame for the page is on top of the list, that for a new page table comes after it. -/
theorem alloc_pages_fresh (spaces : Spaces cpu.machine roots) (free : FreeList cpu.machine roots frames)
    (fresh : Fresh cpu) (low : vaddr / 4096 < 1047552) (small : flags < 4096)
    (blank : Present (directoryEntry cpu.machine.memory cpu.machine.cr3 (vaddr / 4096 / 1024)) ∨
      Blank cpu.machine.memory (readWord cpu.machine.memory cpu.machine.freeFramePaddr))
    (completed : TlbModel.allocPages cpu vaddr flags 1 = .ok next) : Fresh next := by
  obtain ⟨⟨frame, taken⟩, allocating, completed⟩ := Trap.bind_eq_ok.mp completed
  obtain ⟨⟨mapped, last⟩, mapping, completed⟩ := Trap.bind_eq_ok.mp completed
  obtain ⟨_, _, completed⟩ := Trap.bind_eq_ok.mp completed
  cases completed
  obtain ⟨takenFresh, isTaken, rest, isFrames⟩ := alloc_frame_fresh spaces free fresh allocating
  subst isFrames
  have isTop : cpu.machine.freeFramePaddr = frame := free.linked.1
  have takenSpaces : Spaces taken.machine roots := isTaken ▸ spaces_pop spaces frame _ _
  have takenFree : FreeList taken.machine roots rest := isTaken ▸ free_list_pop spaces free _
  have directory : directoryEntry taken.machine.memory taken.machine.cr3 (vaddr / 4096 / 1024) =
      directoryEntry cpu.machine.memory cpu.machine.cr3 (vaddr / 4096 / 1024) := by
    rw [isTaken]
    exact popped_directory spaces frame spaces.member (by omega)
  have bounded : frame < 4294967296 := free.bounded frame List.mem_cons_self
  refine map_page_fresh takenSpaces takenFree takenFresh low bounded small ?_ mapping
  by_cases table : Present (directoryEntry taken.machine.memory taken.machine.cr3 (vaddr / 4096 / 1024))
  · exact .inl table
  · right
    have clean := blank.resolve_left (directory ▸ table)
    cases rest with
    | nil =>
        have plain := erases_eq_ok (map_page_erases taken _ _ _) mapping
        exact absurd (map_page_no_frame takenSpaces takenFree low plain) table
    | cons second rest =>
        have isSecond : taken.machine.freeFramePaddr = second := takenFree.linked.1
        have link : readWord cpu.machine.memory frame = second := free.linked.2.1
        have popping : SameOn cpu.machine.memory taken.machine.memory second := by
          rw [isTaken]
          exact window_not_frame spaces free (List.mem_cons_of_mem _ List.mem_cons_self) _
        rw [isTop, link] at clean
        rw [isSecond]
        intro position inside
        rw [read_word_same_on popping (by omega)]
        exact clean position inside

end Allocating

section Directories

variable {cpu next : Cpu} {roots frames : List Nat} {frame : Nat}

/-- The account of the one page that a new directory is made in. -/
def pageLedger (roots frames : List Nat) : Ledger := ⟨roots, frames, [], [], []⟩

theorem page_balanced {machine : Machine} {page : Nat} (spaces : Spaces machine roots)
    (free : FreeList machine roots frames) (low : Present (directoryEntry machine.memory machine.cr3 0))
    (pageLow : page < 1047552) (notWindow : page ≠ windowPage machine)
    (absent : ¬ Present (pageEntry machine.memory machine.cr3 page)) :
    Balanced (· = page) frames (u32 (machine.usedFrames + frames.length)) machine
      (pageLedger roots frames) where
  spaces := spaces
  free := free
  low := low
  placed other same := same ▸ ⟨pageLow, notWindow⟩
  exact other same := by
    rw [same]
    exact iff_of_false absent List.not_mem_nil
  inside _ member := nomatch member
  nodup := List.nodup_nil
  positive _ member := nomatch member
  apart _ member := nomatch member
  own _ member := nomatch member
  tables _ member := nomatch member
  directories _ member := nomatch member
  accounts := by
    change (frames ++ ([] ++ ([] ++ []))).Perm frames
    rw [List.append_nil, List.append_nil, List.append_nil]
  usage := rfl

/-- The page that the kernel's heap would hand out can hold a directory, and a page table for it, if
there is none, would be made of a blank frame. -/
structure RoomForDirectory (machine : Machine) (ptr : Nat) : Prop where
  aligned : ptr % 4096 = 0
  low : ptr / 4096 < 1047552
  notWindow : ptr / 4096 ≠ windowPage machine
  blank : TableOrBlank machine (ptr / 4096) (readWord machine.memory machine.freeFramePaddr)

theorem new_page_dir_fresh (spaces : Spaces cpu.machine roots) (free : FreeList cpu.machine roots frames)
    (fresh : Fresh cpu) (low : Present (directoryEntry cpu.machine.memory cpu.machine.cr3 0))
    (kernelHalf : kernelPdiStart ≤ windowPage cpu.machine / 1024)
    (room : ∀ ptr heap, heapAlloc cpu.machine.kernelHeap 1 = .ok (ptr, heap) →
      RoomForDirectory cpu.machine ptr)
    (completed : TlbModel.newPageDir cpu = .ok (frame, next)) :
    Fresh next ∧ ∃ ptr marked heap after, heapAlloc cpu.machine.kernelHeap 1 = .ok (ptr, marked) ∧
      (∃ count, heapFree marked ptr = .ok (count, heap)) ∧ next.machine.kernelHeap = heap ∧
      Balanced (· = ptr / 4096) frames (u32 (cpu.machine.usedFrames + frames.length)) next.machine after ∧
      Made cpu.machine next.machine (pageLedger roots frames) after frame (· = ptr / 4096) := by
  have plain := erases_eq_ok (new_page_dir_erases cpu) completed
  obtain ⟨⟨dir, allocated⟩, allocating, completed⟩ := Trap.bind_eq_ok.mp completed
  have plainAllocating := erases_eq_ok (kernel_alloc_erases cpu 1) allocating
  obtain ⟨_, _, allocating⟩ := Trap.bind_eq_ok.mp allocating
  obtain ⟨⟨vaddr, marked⟩, found, allocating⟩ := Trap.bind_eq_ok.mp allocating
  obtain ⟨backed, backing, allocating⟩ := Trap.bind_eq_ok.mp allocating
  cases allocating
  have place := room dir marked found
  have dirLow := place.low
  have plainBacking := erases_eq_ok (alloc_pages_erases cpu _ _ _) backing
  rw [alloc_pages_succ] at plainBacking
  obtain ⟨middle, first, _⟩ := Trap.bind_eq_ok.mp plainBacking
  have absent := alloc_page_absent spaces free (by omega) first
  have balanced := page_balanced spaces free low dirLow place.notWindow absent
  have places : ∀ ptr heap, heapAlloc cpu.machine.kernelHeap 1 = .ok (ptr, heap) →
      ptr % 4096 = 0 ∧ ptr / 4096 = dir / 4096 := by
    intro ptr heap again
    have same := found.symm.trans again
    simp only [Except.ok.injEq, Prod.mk.injEq] at same
    rw [← same.1]
    exact ⟨place.aligned, rfl⟩
  obtain ⟨ptr, again, freedCount, heap, after, placed, freed, isHeap, held, made⟩ :=
    new_page_dir_ok balanced kernelHalf places plain
  have isPtr := (places ptr again placed).2
  refine ⟨?_, ptr, again, heap, after, placed, ⟨freedCount, freed⟩, isHeap, isPtr ▸ held, made⟩
  -- the same steps once more, for the TLB
  have backedFresh := alloc_pages_fresh spaces free fresh dirLow (by decide) place.blank backing
  have single : ∀ page, InRange (dir / 4096) 1 page → page = dir / 4096 := by
    intro page range
    unfold InRange at range
    omega
  obtain ⟨_, between, _, _, heldAllocated, _, pages, _⟩ := kernel_alloc_balanced balanced
    (fun ptr heap taken page range => by
      rw [(places ptr heap taken).2] at range
      exact single page range) plainAllocating
  have member : dir / 4096 ∈ between.pages := (pages _).2 (.inr ⟨le_refl _, Nat.lt_succ_self _⟩)
  have aligned := place.aligned
  obtain ⟨cleared, clearing, completed⟩ := Trap.bind_eq_ok.mp completed
  obtain ⟨copied, copying, completed⟩ := Trap.bind_eq_ok.mp completed
  obtain ⟨lowEntry, readingLow, completed⟩ := Trap.bind_eq_ok.mp completed
  obtain ⟨linked, linking, completed⟩ := Trap.bind_eq_ok.mp completed
  obtain ⟨own, readingOwn, completed⟩ := Trap.bind_eq_ok.mp completed
  obtain ⟨filled, filling, completed⟩ := Trap.bind_eq_ok.mp completed
  obtain ⟨⟨_, freedHeap⟩, _, completed⟩ := Trap.bind_eq_ok.mp completed
  obtain ⟨⟨removed, last⟩, unmapping, completed⟩ := Trap.bind_eq_ok.mp completed
  obtain ⟨clearedFresh, heldCleared⟩ :=
    clear_entries_fresh _ heldAllocated aligned member (by decide) backedFresh clearing
  obtain ⟨copiedFresh, heldCopied⟩ :=
    copy_entries_fresh _ heldCleared aligned member (by decide) clearedFresh copying
  rw [pde_ok heldCopied.spaces.selfMapped (by decide), Except.ok.injEq] at readingLow
  obtain ⟨linkedFresh, heldLinked⟩ := store_entry_fresh heldCopied aligned member (by decide)
    (readingLow ▸ read_word_lt _ _) copiedFresh linking
  rw [get_entry_ok heldLinked.spaces.selfMapped (by omega), Except.ok.injEq] at readingOwn
  have ownBound : createEntry (getPaddr own) pdeWritable < 4294967296 := by
    apply create_entry_lt _ (by decide)
    rw [← readingOwn, get_paddr_frame (page_entry_lt _ _ _)]
    exact lt_of_lt_of_le (frame_of_lt (page_entry_lt _ _ _)) (by decide)
  obtain ⟨filledFresh, heldFilled⟩ :=
    store_entry_fresh heldLinked aligned member (by decide) ownBound linkedFresh filling
  obtain ⟨ready, isReady⟩ : ∃ ready : Cpu,
      ready = { filled with machine := { filled.machine with kernelHeap := freedHeap } } := ⟨_, rfl⟩
  have samePaging : SamePaging filled.machine ready.machine := by
    rw [isReady]
    exact ⟨rfl, rfl, rfl, rfl, rfl, rfl⟩
  have heldReady : Balanced (· = dir / 4096) frames _ ready.machine between :=
    balanced_same_paging heldFilled samePaging (by rw [isReady])
  have readyFresh : Fresh ready := by
    rw [isReady]
    exact filledFresh
  rw [← isReady] at unmapping
  have notWindow := (heldReady.placed (dir / 4096) rfl).2
  obtain ⟨_, lastFresh⟩ :=
    unmap_page_fresh heldReady.spaces heldReady.free dirLow notWindow readyFresh unmapping
  cases removed with
  | none => cases completed
  | some entry =>
      cases completed
      exact lastFresh

end Directories

/-- The kernel's heap lies between the window and the self-map. -/
structure HeapBelow (machine : Machine) : Prop where
  aligned : machine.kernelHeap.heapStart % 4096 = 0
  behind : windowPage machine < machine.kernelHeap.heapStart / 4096
  below : machine.kernelHeap.heapStart / 4096 + machine.kernelHeap.pageCount ≤ 1047552

/-- What every careful call keeps. -/
structure TlbSound (state : TlbState) : Prop where
  spaces : Spaces state.system.machine state.directories
  free : ∃ frames, FreeList state.system.machine state.directories frames
  fresh : Coherent SelfMapPage state.cached (walks state.system.machine)
  low : ∀ root ∈ state.directories, Present (directoryEntry state.system.machine.memory root 0)
  kernelHalf : kernelPdiStart ≤ windowPage state.system.machine / 1024
  heap : HeapBelow state.system.machine

section Steps

variable {state next : TlbState} {cpu : Cpu} {frames rest : List Nat}

theorem cpu_fresh (sound : TlbSound state) : Fresh state.cpu :=
  fresh_goes_on sound.fresh (keeps_refl _ _)

theorem room_of_sound (sound : TlbSound state) {ptr : Nat} {heap : Heap}
    (found : heapAlloc state.system.machine.kernelHeap 1 = .ok (ptr, heap))
    (blank : TableOrBlank state.system.machine (ptr / 4096)
      (readWord state.system.machine.memory state.system.machine.freeFramePaddr)) :
    RoomForDirectory state.system.machine ptr := by
  obtain ⟨aligned, behind, below⟩ := sound.heap
  obtain ⟨index, _, isPtr, _, inside, _⟩ := heap_alloc_ok (by decide) (by omega) found
  have place : ptr = state.system.machine.kernelHeap.heapStart + index * 4096 := by
    rw [isPtr, pagePtr]
    unfold u32
    omega
  exact ⟨by omega, by omega, by omega, blank⟩

/-- A call that keeps the directories, with what is free afterwards. -/
structure Onward (machine after : Machine) (roots rest : List Nat) : Prop where
  globals : SameGlobals machine after
  spaces : Spaces after roots
  free : FreeList after roots rest
  low : ∀ root ∈ roots, Present (directoryEntry machine.memory root 0) →
    Present (directoryEntry after.memory root 0)

theorem onward_kept {machine after : Machine} {roots : List Nat}
    (kept : Kept machine after roots frames rest) : Onward machine after roots rest where
  globals := kept.globals
  spaces := kept.spaces
  free := kept.free
  low root member present := by
    rw [kept.directory root member 0 (by decide) present]
    exact present

theorem onward_popped {machine : Machine} {roots : List Nat} {frame : Nat} (spaces : Spaces machine roots)
    (free : FreeList machine roots (frame :: rest)) : Onward machine (popped machine frame) roots rest where
  globals := rfl
  spaces := spaces_pop spaces frame _ _
  free := free_list_pop spaces free _
  low root member present := by
    rw [popped_directory spaces frame member (by decide)]
    exact present

/-- The machine after a frame was freed. -/
def pushed (machine : Machine) (frame : Nat) : Machine :=
  { machine with
    memory := pushMemory machine frame
    freeFramePaddr := frame
    usedFrames := sub32 machine.usedFrames 1 }

theorem onward_pushed {machine : Machine} {roots : List Nat} {frame : Nat} (spaces : Spaces machine roots)
    (free : FreeList machine roots frames) (freeable : Freeable machine roots frames frame) :
    Onward machine (pushed machine frame) roots (frame :: frames) where
  globals := rfl
  spaces := spaces_push spaces freeable _
  free := free_list_push spaces free freeable _
  low root member present := by
    have same := directory_entry_same_on (push_roots spaces freeable root member) (by decide : 0 < 1024)
    exact same.symm ▸ present

theorem heap_below_globals {machine after : Machine} (below : HeapBelow machine)
    (globals : SameGlobals machine after) : HeapBelow after := by
  have heap : after.kernelHeap = machine.kernelHeap := by rw [globals]
  obtain ⟨aligned, behind, ends⟩ := below
  rw [← heap] at aligned behind ends
  rw [← same_globals_window globals] at behind
  exact ⟨aligned, behind, ends⟩

theorem sound_onward (sound : TlbSound state)
    (onward : Onward state.system.machine cpu.machine state.directories rest) (fresh : Fresh cpu) :
    TlbSound (state.onCpu cpu) where
  spaces := onward.spaces
  free := ⟨rest, onward.free⟩
  fresh := fresh
  low root member := onward.low root member (sound.low root member)
  kernelHalf := by
    change _ ≤ windowPage cpu.machine / 1024
    rw [same_globals_window onward.globals]
    exact sound.kernelHalf
  heap := heap_below_globals sound.heap onward.globals

theorem sound_map_page {vaddr paddr flags : Nat} {mapped : Bool} (sound : TlbSound state)
    (legal : LegalTlb state (.mapPage vaddr paddr flags)) (careful : Careful state (.mapPage vaddr paddr flags))
    (completed : TlbModel.mapPage state.cpu vaddr paddr flags = .ok (mapped, cpu)) :
    TlbSound (state.onCpu cpu) := by
  obtain ⟨_, address, small, _⟩ := legal
  obtain ⟨below, blank⟩ := careful
  obtain ⟨frames, free⟩ := sound.free
  have low : vaddr / 4096 < 1047552 := by omega
  have plain := erases_eq_ok (map_page_erases state.cpu vaddr paddr flags) completed
  obtain ⟨rest, kept⟩ := map_page_kept sound.spaces free low address small plain
  exact sound_onward sound (onward_kept kept)
    (map_page_fresh sound.spaces free (cpu_fresh sound) low address small blank completed)

theorem sound_unmap_page {vaddr : Nat} {removed : Option Nat} (sound : TlbSound state)
    (careful : Plain state.system.machine vaddr)
    (completed : TlbModel.unmapPage state.cpu vaddr = .ok (removed, cpu)) :
    TlbSound (state.onCpu cpu) := by
  obtain ⟨below, notWindow⟩ := careful
  obtain ⟨frames, free⟩ := sound.free
  obtain ⟨kept, fresh⟩ :=
    unmap_page_fresh sound.spaces free (by omega) notWindow (cpu_fresh sound) completed
  exact sound_onward sound (onward_kept kept) fresh

theorem sound_swap_page_frames {vaddr1 vaddr2 : Nat} (sound : TlbSound state)
    (first : Plain state.system.machine vaddr1) (second : Plain state.system.machine vaddr2)
    (completed : TlbModel.swapPageFrames state.cpu vaddr1 vaddr2 = .ok cpu) :
    TlbSound (state.onCpu cpu) := by
  obtain ⟨below1, notWindow1⟩ := first
  obtain ⟨below2, notWindow2⟩ := second
  obtain ⟨frames, free⟩ := sound.free
  obtain ⟨kept, fresh⟩ := swap_page_frames_fresh sound.spaces free (by omega) notWindow1 (by omega)
    notWindow2 (cpu_fresh sound) completed
  exact sound_onward sound (onward_kept kept) fresh

theorem sound_alloc_frame {frame : Nat} (sound : TlbSound state)
    (completed : TlbModel.allocFrame state.cpu = .ok (frame, cpu)) : TlbSound (state.onCpu cpu) := by
  obtain ⟨frames, free⟩ := sound.free
  obtain ⟨fresh, isMachine, rest, isFrames⟩ :=
    alloc_frame_fresh sound.spaces free (cpu_fresh sound) completed
  rw [isFrames] at free
  have onward := onward_popped sound.spaces free
  change cpu.machine = popped state.system.machine frame at isMachine
  rw [← isMachine] at onward
  exact sound_onward sound onward fresh

theorem sound_free_frame {paddr : Nat} (sound : TlbSound state)
    (legal : LegalTlb state (.freeFrame paddr))
    (completed : TlbModel.freeFrame state.cpu paddr = .ok cpu) : TlbSound (state.onCpu cpu) := by
  obtain ⟨aligned, positive, bounded, notRoot, notTable, notFree⟩ := legal
  obtain ⟨frames, free⟩ := sound.free
  have freeable : Freeable state.system.machine state.directories frames paddr := by
    refine ⟨aligned, positive, bounded, ?_⟩
    rintro (isRoot | isTable | isFree)
    · exact notRoot isRoot
    · exact notTable isTable
    · exact notFree frames free.linked isFree
  have plain := erases_eq_ok (free_frame_erases state.cpu paddr) completed
  rw [show state.cpu.machine = state.system.machine from rfl,
    free_frame_ok sound.spaces freeable, Except.ok.injEq] at plain
  have onward := onward_pushed sound.spaces free freeable
  change pushed state.system.machine paddr = cpu.machine at plain
  rw [plain] at onward
  exact sound_onward sound onward (free_frame_fresh sound.spaces freeable (cpu_fresh sound) completed)

theorem sound_set_page_dir {paddr : Nat} (sound : TlbSound state) (member : paddr ∈ state.directories)
    (globals : HasGlobals state.system.machine paddr) :
    TlbSound (state.onCpu (TlbModel.setPageDir state.cpu paddr)) := by
  obtain ⟨frames, free⟩ := sound.free
  have machine : state.cpu.machine = state.system.machine := rfl
  unfold TlbModel.setPageDir
  split_ifs with differ
  · have switched : PagingModel.setPageDir state.cpu.machine paddr = switch state.system.machine paddr := by
      rw [PagingModel.setPageDir, if_pos differ]
      rfl
    rw [switched]
    refine ⟨spaces_switch sound.spaces member, ⟨frames, free_list_switch sound.spaces free member⟩, ?_,
      sound.low, sound.kernelHalf, ⟨sound.heap.aligned, sound.heap.behind, sound.heap.below⟩⟩
    refine coherent_switch (cpu_fresh sound) ?_
    intro page clean translation held kept
    unfold SelfMapPage at clean
    exact globals page (by omega) translation held (not_not.mp kept)
  · exact ⟨sound.spaces, ⟨frames, free⟩, cpu_fresh sound, sound.low, sound.kernelHalf, sound.heap⟩

theorem sound_new_page_dir {frame : Nat} (sound : TlbSound state) (careful : Careful state .newPageDir)
    (completed : TlbModel.newPageDir state.cpu = .ok (frame, cpu)) :
    TlbSound { state.onCpu cpu with directories := frame :: state.directories } := by
  obtain ⟨frames, free⟩ := sound.free
  have room : ∀ ptr heap, heapAlloc state.system.machine.kernelHeap 1 = .ok (ptr, heap) →
      RoomForDirectory state.system.machine ptr :=
    fun ptr heap found => room_of_sound sound found (careful ptr heap found)
  have current := sound.low _ sound.spaces.member
  obtain ⟨fresh, ptr, marked, heap, after, found, ⟨count, freed⟩, isHeap, held, made⟩ :=
    new_page_dir_fresh sound.spaces free (cpu_fresh sound) current sound.kernelHalf room completed
  have roots : after.roots = frame :: state.directories := made.roots
  have window : windowPage cpu.machine = windowPage state.system.machine := by
    rw [windowPage, windowPage, made.globals]
    rfl
  have old : ∀ root ∈ state.directories, directoryEntry cpu.machine.memory root 0 =
      directoryEntry state.system.machine.memory root 0 := by
    intro root member
    apply made.entries root member 0 (by decide)
    rintro ⟨isCurrent, absent, _⟩
    exact absent current
  have cr3 : cpu.machine.cr3 = state.system.machine.cr3 := by
    rw [made.globals]
    rfl
  refine ⟨?_, ⟨after.free, ?_⟩, fresh, ?_, ?_, ?_⟩
  · exact roots ▸ held.spaces
  · exact roots ▸ held.free
  · intro root member
    rcases List.mem_cons.1 member with rfl | there
    · change Present (directoryEntry cpu.machine.memory root 0)
      rw [made.own 0 (by decide), if_pos (.inl rfl), cr3, old _ sound.spaces.member]
      exact current
    · exact (old root there).symm ▸ sound.low root there
  · change _ ≤ windowPage cpu.machine / 1024
    rw [window]
    exact sound.kernelHalf
  · obtain ⟨aligned, behind, below⟩ := sound.heap
    change heapAlloc state.system.machine.kernelHeap 1 = _ at found
    obtain ⟨index, color, _, isMarked, _⟩ := heap_alloc_ok (by decide) (by omega) found
    have painted := UsageArray.heap_free_painted rfl freed
    have start : cpu.machine.kernelHeap.heapStart = state.system.machine.kernelHeap.heapStart := by
      rw [isHeap, painted.heapStart, isMarked, HeapUsage.set_usage_from_start]
    have pages : cpu.machine.kernelHeap.pageCount = state.system.machine.kernelHeap.pageCount := by
      rw [isHeap, painted.pageCount, isMarked, HeapUsage.set_usage_from_count]
    refine ⟨?_, ?_, ?_⟩
    · change cpu.machine.kernelHeap.heapStart % 4096 = 0
      rw [start]
      exact aligned
    · change windowPage cpu.machine < cpu.machine.kernelHeap.heapStart / 4096
      rw [start, window]
      exact behind
    · change cpu.machine.kernelHeap.heapStart / 4096 + cpu.machine.kernelHeap.pageCount ≤ 1047552
      rw [start, pages]
      exact below

/-- Directories other than the current one can be forgotten. -/
theorem sound_fewer (sound : TlbSound state) {fewer : List Nat} (subset : fewer ⊆ state.directories)
    (current : state.system.machine.cr3 ∈ fewer) : TlbSound { state with directories := fewer } where
  spaces := spaces_subset sound.spaces subset current
  free := by
    obtain ⟨frames, free⟩ := sound.free
    exact ⟨frames, free_list_subset free subset⟩
  fresh := sound.fresh
  low root member := sound.low root (subset member)
  kernelHalf := sound.kernelHalf
  heap := sound.heap

/-- The other globals of the system play no part. -/
theorem sound_same_paging {system : System} (sound : TlbSound state)
    (heap : system.machine.kernelHeap = state.system.machine.kernelHeap)
    (same : SamePaging state.system.machine system.machine) :
    TlbSound { state with system := system } where
  spaces := spaces_same_paging same sound.spaces
  free := by
    obtain ⟨frames, free⟩ := sound.free
    exact ⟨frames, free_list_same_paging same free⟩
  fresh := by
    rw [walks_congr same.memory same.cr3]
    exact sound.fresh
  low root member := by
    rw [same.memory]
    exact sound.low root member
  kernelHalf := by
    rw [windowPage, same.head]
    exact sound.kernelHalf
  heap := by
    obtain ⟨aligned, behind, below⟩ := sound.heap
    rw [← heap] at aligned behind below
    rw [windowPage, ← same.head] at behind
    exact ⟨aligned, behind, below⟩

theorem sound_delete_process {pid process : Nat} (sound : TlbSound state)
    (found : RbTreeRuns.getProcess state.system.machine.processTree (getPidAid pid) = .ok process)
    (some : process ≠ 0) (careful : Careful state (.deleteProcess pid))
    (completed : TlbModel.deleteProcess state pid process = .ok next) : TlbSound next := by
  obtain ⟨isRoot, notCurrent, notZero⟩ := careful process found some
  obtain ⟨paddr, isPaddr⟩ : ∃ paddr, state.system.machine.pageDirPaddr process = paddr := ⟨_, rfl⟩
  rw [isPaddr] at isRoot notCurrent notZero
  obtain ⟨cpu, freeing, completed⟩ := Trap.bind_eq_ok.mp completed
  obtain ⟨⟨_, tree⟩, _, completed⟩ := Trap.bind_eq_ok.mp completed
  cases completed
  rw [isPaddr] at freeing ⊢
  have left : ∀ root, root ∈ state.directories.filter (· ≠ paddr) ↔ root ∈ state.directories ∧ root ≠ paddr := by
    intro root
    rw [List.mem_filter, decide_eq_true_eq]
  have subset : state.directories.filter (· ≠ paddr) ⊆ state.directories :=
    fun root member => ((left root).1 member).1
  have fewer := sound_fewer sound subset ((left _).2 ⟨sound.spaces.member, notCurrent.symm⟩)
  obtain ⟨frames, allFree⟩ := sound.free
  have free := free_list_subset allFree subset
  have out : paddr ∉ state.directories.filter (· ≠ paddr) := fun member => ((left _).1 member).2 rfl
  have freeable := root_freeable sound.spaces allFree subset isRoot (Nat.pos_of_ne_zero notZero) out
  have plain := erases_eq_ok (free_frame_erases state.cpu paddr) freeing
  rw [show state.cpu.machine = state.system.machine from rfl,
    free_frame_ok fewer.spaces freeable, Except.ok.injEq] at plain
  have onward := onward_pushed fewer.spaces free freeable
  change pushed state.system.machine paddr = cpu.machine at plain
  rw [plain] at onward
  have fresh := free_frame_fresh fewer.spaces freeable (cpu_fresh fewer) freeing
  have after := sound_onward fewer onward fresh
  exact sound_same_paging after rfl ⟨rfl, rfl, rfl, rfl, rfl, rfl⟩

/-- One careful call leaves nothing stale. -/
theorem tlb_step_sound {call : TlbCall} {observation : Option Nat} (sound : TlbSound state)
    (legal : LegalTlb state call) (careful : Careful state call)
    (stepped : tlbStep state call = .ok (observation, next)) : TlbSound next := by
  cases call with
  | mapPage vaddr paddr flags =>
      obtain ⟨⟨mapped, cpu⟩, mapping, finished⟩ := Trap.bind_eq_ok.mp stepped
      cases finished
      exact sound_map_page sound legal careful mapping
  | unmapPage vaddr =>
      obtain ⟨⟨removed, cpu⟩, unmapping, finished⟩ := Trap.bind_eq_ok.mp stepped
      cases finished
      exact sound_unmap_page sound careful unmapping
  | swapPageFrames vaddr1 vaddr2 =>
      obtain ⟨cpu, swapping, finished⟩ := Trap.bind_eq_ok.mp stepped
      cases finished
      exact sound_swap_page_frames sound careful.1 careful.2 swapping
  | allocFrame =>
      obtain ⟨⟨frame, cpu⟩, allocating, finished⟩ := Trap.bind_eq_ok.mp stepped
      cases finished
      exact sound_alloc_frame sound allocating
  | freeFrame paddr =>
      obtain ⟨cpu, freeing, finished⟩ := Trap.bind_eq_ok.mp stepped
      cases finished
      exact sound_free_frame sound legal freeing
  | newPageDir =>
      obtain ⟨⟨frame, cpu⟩, making, finished⟩ := Trap.bind_eq_ok.mp stepped
      cases finished
      exact sound_new_page_dir sound careful making
  | setPageDir paddr =>
      cases stepped
      exact sound_set_page_dir sound legal careful
  | deleteProcess pid =>
      obtain ⟨deleted, deleting, finished⟩ := Trap.bind_eq_ok.mp stepped
      cases finished
      obtain ⟨process, found, deleting⟩ := Trap.bind_eq_ok.mp deleting
      split_ifs at deleting with some
      · exact sound_delete_process sound found some careful deleting
      · cases deleting
        exact sound

end Steps

section Runs

variable {system : System} {machine last : Machine} {memory userRoMemory : Nat → UInt8} {buffer : Nat}
  {frames tables : List Nat} {calls : List TlbCall} {observations : List (Option Nat)} {final : TlbState}

/-- The kernel's heap ends behind the pages that it was given, by the pages of its usage map. -/
theorem boot_heap_ends (ready : FramesReady machine [machine.cr3] frames tables)
    (initialized : initHeaps machine memory userRoMemory buffer = .ok last) :
    last.kernelHeap.heapStart / 4096 + last.kernelHeap.pageCount ≤ 1047552 := by
  obtain ⟨start, opening, initialized⟩ := Trap.bind_eq_ok.mp initialized
  obtain ⟨⟨ptr, userRo, mapped⟩, allocated, initialized⟩ := Trap.bind_eq_ok.mp initialized
  obtain ⟨copied, copying, initialized⟩ := Trap.bind_eq_ok.mp initialized
  cases initialized
  obtain ⟨_, _, allocated⟩ := Trap.bind_eq_ok.mp allocated
  obtain ⟨_, _, allocated⟩ := Trap.bind_eq_ok.mp allocated
  obtain ⟨_, backing, allocated⟩ := Trap.bind_eq_ok.mp allocated
  cases allocated
  have kept := same_objects_trans (alloc_pages_objects backing) (copy_bytes_objects copying)
  change copied.kernelHeap.heapStart / 4096 + copied.kernelHeap.pageCount ≤ 1047552
  rw [kept.kernelHeap]
  obtain ⟨_, accepted, opening⟩ := Trap.bind_eq_ok.mp opening
  rw [Trap.kernel_assert_eq_ok] at accepted
  obtain ⟨cut, half, count, below⟩ := kernel_region ready accepted
  obtain ⟨⟨kernelHeap, _⟩, kernelInit, opening⟩ := Trap.bind_eq_ok.mp opening
  obtain ⟨⟨_, _⟩, _, opening⟩ := Trap.bind_eq_ok.mp opening
  cases opening
  obtain ⟨_, _, kernelInit⟩ := Trap.bind_eq_ok.mp kernelInit
  obtain ⟨_, _, kernelInit⟩ := Trap.bind_eq_ok.mp kernelInit
  obtain ⟨_, fields, kernelInit⟩ := Trap.bind_eq_ok.mp kernelInit
  cases kernelInit
  obtain ⟨_, _, fields⟩ := Trap.bind_eq_ok.mp fields
  cases fields
  have map := cut.map
  have start := cut.kernelStart
  obtain ⟨region, isRegion⟩ : ∃ region, region = HeapRegions.regionOf machine .kernel := ⟨_, rfl⟩
  change u32 ((HeapRegions.regionOf machine .kernel).start + (HeapRegions.regionOf machine .kernel).mapPages * 4096) / 4096 +
    (HeapRegions.regionOf machine .kernel).pageCount ≤ 1047552
  rw [← isRegion] at map start count ⊢
  have mapSize : region.mapPages = (region.pageCount + 3) / 4 / 4096 + 1 ∨
      region.mapPages = (region.pageCount + 3) / 4 / 4096 := by
    change u32 (u32 (region.pageCount + 3) / 4 + 4095) / 4096 = _ ∨
      u32 (u32 (region.pageCount + 3) / 4 + 4095) / 4096 = _
    rw [u32_of_lt (show region.pageCount + 3 < 4294967296 by omega), u32_of_lt (by omega)]
    omega
  rw [u32_of_lt (by omega)]
  omega

theorem boot_tlb_sound (ready : FramesReady machine [machine.cr3] frames tables)
    (few : machine.userPhysicalMapLen ≤ BootModel.physicalMapRoom)
    (initialized : initHeaps machine memory userRoMemory buffer = .ok system.machine) :
    TlbSound (bootTlb system) := by
  obtain ⟨first, ledger, sharing⟩ := boot_sharing ready few initialized
  have roots : ledger.roots = [system.machine.cr3] := sharing.directories
  have start : system.machine.kernelHeap.heapStart = first * 4096 := sharing.placed.start
  have behind := sharing.behind
  have window : windowPage system.machine < windowPage machine + 1 := sharing.window
  have spaces := sharing.balanced.spaces
  have free := sharing.balanced.free
  have low := sharing.low
  rw [roots] at spaces free
  refine ⟨spaces, ⟨ledger.free, free⟩, fun _ _ _ held => held, low, sharing.kernelHalf, ?_, ?_,
    boot_heap_ends ready initialized⟩
  · change system.machine.kernelHeap.heapStart % 4096 = 0
    omega
  · change windowPage system.machine < system.machine.kernelHeap.heapStart / 4096
    omega

/-- From `mem_init` on, no careful run leaves a stale translation. -/
theorem no_stale_translations_runs (ready : FramesReady machine [machine.cr3] frames tables)
    (few : machine.userPhysicalMapLen ≤ BootModel.physicalMapRoom)
    (initialized : initHeaps machine memory userRoMemory buffer = .ok system.machine)
    (allowed : Allowed tlbStep (fun state call => LegalTlb state call ∧ Careful state call)
      (bootTlb system) calls)
    (completed : run tlbStep (bootTlb system) calls = .ok (observations, final)) :
    Coherent SelfMapPage final.cached (walks final.system.machine) := by
  have kept := run_preserves TlbSound
    (fun state call observation next sound legal stepped =>
      tlb_step_sound sound legal.1 legal.2 stepped)
    calls _ final observations (boot_tlb_sound ready few initialized) allowed completed
  exact kept.fresh

end Runs

section Sample

variable {start machine : Machine} {root : Nat} {cached : Table Nat Translation}

/-- The kernel at the edge of a page table, with a second directory. -/
def secondMade (start machine : Machine) (root : Nat) (cached : Table Nat Translation) : TlbState :=
  ⟨(edgeSystem start).onMachine machine, cached, [root, start.cr3]⟩

theorem second_made (state : EdgeMade start root machine) : ∃ cached,
    tlbStep (bootTlb (edgeSystem start)) .newPageDir = .ok (some root, secondMade start machine root cached) := by
  obtain ⟨⟨frame, cpu⟩, making, plain⟩ :=
    erases_returns (new_page_dir_erases (bootTlb (edgeSystem start)).cpu) state.made
  simp only [Cpu.withFrame, Prod.mk.injEq] at plain
  obtain ⟨isRoot, isMachine⟩ := plain
  subst isRoot isMachine
  refine ⟨cpu.cached, ?_⟩
  change (TlbModel.newPageDir (bootTlb (edgeSystem start)).cpu >>= _) = _
  rw [making]
  rfl

theorem map_page_step {state : TlbState} {next : Machine} {vaddr paddr flags : Nat} {mapped : Bool}
    (completed : PagingModel.mapPage state.system.machine vaddr paddr flags = .ok (mapped, next)) :
    ∃ cpu, TlbModel.mapPage state.cpu vaddr paddr flags = .ok (mapped, cpu) ∧
      tlbStep state (.mapPage vaddr paddr flags) = .ok (none, state.onCpu cpu) := by
  obtain ⟨⟨result, cpu⟩, mapping, plain⟩ :=
    erases_returns (map_page_erases state.cpu vaddr paddr flags) completed
  simp only [Cpu.withMapped, Prod.mk.injEq] at plain
  obtain ⟨isMapped, _⟩ := plain
  subst isMapped
  refine ⟨cpu, mapping, ?_⟩
  change (TlbModel.mapPage state.cpu vaddr paddr flags >>= _) = _
  rw [mapping]
  rfl

/-- A second directory, and a page under the last page table that both have. -/
theorem no_stale_translations_second : ∃ start root final,
    initHeaps edgeMachine (fun _ => 0) (fun _ => 0) 0 = .ok start ∧
      run tlbStep (bootTlb (edgeSystem start)) [.newPageDir, .mapPage 0xC03FF000 0xFEC00000 pageWritable] =
        .ok ([some root, none], final) ∧ Coherent SelfMapPage final.cached (walks final.system.machine) := by
  obtain ⟨start, root, machine, state⟩ := edge_made
  obtain ⟨first, second, third, free⟩ := state.free
  have isCr3 := state.madeCr3
  have window := state.madeWindow
  obtain ⟨made, making⟩ := second_made state
  obtain ⟨next, mapping⟩ := @MapReturns.map_page_returns machine _ _ 0xC03FF000 0xFEC00000 pageWritable state.spaces
    free (by decide) (by rw [window]; decide) (by rw [isCr3]; exact state.madePage)
    (fun user => absurd (by decide) user) (fun absent => by
      rw [isCr3] at absent
      exact absurd state.madeTable absent)
  obtain ⟨cpu, _, mapped⟩ := @map_page_step (secondMade start machine root made) _ _ _ _ _ mapping
  have ended : ∀ last : TlbState, run tlbStep last [] = .ok ([], last) := fun _ => rfl
  have completed := run_cons_of_step making (run_cons_of_step mapped (ended _))
  refine ⟨start, root, _, state.started, completed,
    no_stale_translations_runs edge_ready (by decide) state.started ?_ completed⟩
  refine allowed_cons_of_step ⟨trivial, ?_⟩ making (allowed_cons_of_step ⟨?_, ?_⟩ mapped trivial)
  · intro ptr marked found
    rw [edge_place state.toEdgeStarted found]
    left
    change Present (directoryEntry start.memory start.cr3 0x300)
    rw [state.cr3]
    exact state.table
  · exact ⟨by decide, by decide, by decide, fun isGlobal => absurd (by decide) isGlobal⟩
  · refine ⟨by decide, .inl ?_⟩
    change Present (directoryEntry machine.memory machine.cr3 0x300)
    rw [isCr3]
    exact state.madeTable

/-- A page table is made of a frame that is not blank. -/
theorem no_stale_translations_not : ¬ ∀ (system : System) (machine : Machine)
    (memory userRoMemory : Nat → UInt8) (buffer : Nat) (frames tables : List Nat) (calls : List TlbCall)
    (observations : List (Option Nat)) (final : TlbState), FramesReady machine [machine.cr3] frames tables →
      machine.userPhysicalMapLen ≤ BootModel.physicalMapRoom →
        initHeaps machine memory userRoMemory buffer = .ok system.machine →
          Allowed tlbStep LegalTlb (bootTlb system) calls →
            run tlbStep (bootTlb system) calls = .ok (observations, final) →
              Coherent SelfMapPage final.cached (walks final.system.machine) := by
  intro always
  obtain ⟨start, state⟩ := edge_starts
  obtain ⟨spaces, rest, free⟩ := edge_top state
  have missing := state.missing
  rw [← state.cr3] at missing
  have low : 0xC0400000 / 4096 < 1047552 := by decide
  have notWindow : 0xC0400000 / 4096 ≠ windowPage start := by
    rw [state.window]
    decide
  obtain ⟨next, plain⟩ := @map_page_new_table start _ 0xC0400000 pageWritable 0xFEC00000 _ _ spaces free low
    notWindow missing
  obtain ⟨cpu, mapping, mapped⟩ := @map_page_step (bootTlb (edgeSystem start)) _ _ _ _ _ plain
  have ended : ∀ last : TlbState, run tlbStep last [] = .ok ([], last) := fun _ => rfl
  have legal : Allowed tlbStep LegalTlb (bootTlb (edgeSystem start)) [.mapPage 0xC0400000 0xFEC00000 pageWritable] :=
    allowed_cons_of_step ⟨by decide, by decide, by decide, fun isGlobal => absurd (by decide) isGlobal⟩ mapped trivial
  have coherent := always (edgeSystem start) edgeMachine _ _ _ edgeFrames edgeTables _ _ _ edge_ready (by decide)
    state.started legal (run_cons_of_step mapped (ended _))
  -- the sixth word of the table is the one that was loaded
  exact @map_page_stale (bootTlb (edgeSystem start)).cpu cpu _ 0xC0400000 0xFEC00000 pageWritable _ 0x403000 0xC0405
    rest spaces free low (by decide) (by decide) missing (by decide) (by decide) state.dirty mapping coherent

end Sample

end ParadiseOS.TlbRuns
