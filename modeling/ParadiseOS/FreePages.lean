import ParadiseOS.FrameSteps
import ParadiseOS.LinkedChain
import ParadiseOS.PagingChecks
import ParadiseOS.StepRun

/-!
# Freeing one page

`free_page` hands the whole entry of the page to `free_frame`, where `free_pages`
hands over its frame. `create_entry` masks the flags away, so the window still shows
the right frame and the list can be walked. The address with the flags is seen once it
leaves the list; when it becomes a page table, it is masked again and never seen.
-/

namespace ParadiseOS.FreePages

open FrameSteps LinkedChain MachineWord PagingChecks PagingMaps PagingModel PagingSteps StepRun TwoLevelPaging

set_option autoImplicit false

section Model

def freePage (machine : Machine) (vaddr : Nat) : Except Trap Machine := do
  let (removed, machine) ← unmapPage machine vaddr
  match removed with
  | none => .error .assertion
  | some entry => freeFrame machine entry

inductive FrameCall where
  | allocFrame
  | mapPage (vaddr paddr flags : Nat)
  | freeFrame (paddr : Nat)

inductive FrameAnswer where
  | frame (paddr : Nat)
  | mapped (already : Bool)
  | freed

def frameStep (machine : Machine) : FrameCall → Except Trap (FrameAnswer × Machine)
  | .allocFrame => do
      let (frame, machine) ← allocFrame machine
      pure (.frame frame, machine)
  | .mapPage vaddr paddr flags => do
      let (already, machine) ← mapPage machine vaddr paddr flags
      pure (.mapped already, machine)
  | .freeFrame paddr => do
      let machine ← freeFrame machine paddr
      pure (.freed, machine)

/-- What a sequence of calls comes to. -/
structure Outcome where
  answers : List FrameAnswer
  final : Machine
  trap : Option Trap

/-- Makes the calls up to the first that does not return. -/
def follow (machine : Machine) : List FrameCall → Outcome
  | [] => ⟨[], machine, none⟩
  | call :: rest =>
      match frameStep machine call with
      | .error trap => ⟨[], machine, some trap⟩
      | .ok (answer, next) =>
          let outcome := follow next rest
          ⟨answer :: outcome.answers, outcome.final, outcome.trap⟩

end Model

section Statement

/-- The directories and the page tables have the same entries. -/
structure SameTables (machine other : Machine) (roots : List Nat) : Prop where
  directories : ∀ root ∈ roots, ∀ index < 1024,
    directoryEntry other.memory root index = directoryEntry machine.memory root index
  pages : ∀ root ∈ roots, ∀ page < 1047552,
    pageEntry other.memory root page = pageEntry machine.memory root page

/-- The link in the frame of an address on the free list. -/
def link (machine : Machine) (addr : Nat) : Nat := readWord machine.memory (frameOf addr)

/-- The addresses on the free list, as they are stored. -/
def Stored (machine : Machine) (addrs : List Nat) : Prop :=
  Chain 0 (link machine) machine.freeFramePaddr addrs

/-- The calls came to the same: the page tables, the frames that were returned, and the free list. -/
structure SameUses (roots : List Nat) (first second : Outcome) : Prop where
  answers : second.answers = first.answers
  aligned : ∀ addr, .frame addr ∈ second.answers → addr % 4096 = 0
  trap : second.trap = first.trap
  tables : SameTables first.final second.final roots
  list : ∀ addrs, Stored second.final addrs ↔ Stored first.final addrs

/-- The address on the free list with so many others above it leaves the list for a page table. -/
def BecomesTable : Machine → Nat → List FrameCall → Prop
  | _, _, [] => False
  | machine, above, call :: rest =>
      ∃ answer next, frameStep machine call = .ok (answer, next) ∧
        match call with
        | .allocFrame => 0 < above ∧ BecomesTable next (above - 1) rest
        | .freeFrame _ => BecomesTable next (above + 1) rest
        | .mapPage vaddr _ _ =>
            if Present (directoryEntry machine.memory machine.cr3 (vaddr / 4096 / 1024)) then
              BecomesTable next above rest
            else above = 0 ∨ BecomesTable next (above - 1) rest

/-- Pages are mapped below the page tables, and a frame is freed that is not in use. -/
def LegalUse (roots : List Nat) (machine : Machine) : FrameCall → Prop
  | .allocFrame => True
  | .mapPage vaddr paddr flags => vaddr / 4096 < 1047552 ∧ paddr < 4294967296 ∧ flags < 65536
  | .freeFrame paddr => ∃ frames, FreeList machine roots frames ∧ Freeable machine roots frames paddr

end Statement

section Lists

variable {machine other : Machine} {roots frames addrs : List Nat} {frame addr word page index flags : Nat}

theorem frame_of_own (aligned : frame % 4096 = 0) : frameOf frame = frame := by
  unfold frameOf
  omega

/-- The entry for an address is that for its frame. -/
theorem create_entry_of (bounded : addr < 4294967296) (flags : Nat) :
    createEntry addr flags = createEntry (frameOf addr) flags := by
  have first : addr &&& 0xFFFFF000 = frameOf addr := get_paddr_frame bounded
  have small : frameOf addr < 4294967296 := by
    have below := frame_of_lt bounded
    omega
  have second : frameOf addr &&& 0xFFFFF000 = frameOf (frameOf addr) := get_paddr_frame small
  rw [createEntry, createEntry, first, second, frame_of_own (frame_of_aligned addr)]

/-- A free list whose addresses may have flags. -/
structure Tagged (machine : Machine) (roots addrs : List Nat) : Prop where
  chain : Stored machine addrs
  nodup : (addrs.map frameOf).Nodup
  positive : ∀ addr ∈ addrs, 0 < frameOf addr
  bounded : ∀ addr ∈ addrs, addr < 4294967296
  notRoot : ∀ addr ∈ addrs, frameOf addr ∉ roots
  notTable : ∀ addr ∈ addrs, ¬ IsTable machine.memory roots (frameOf addr)
  window : pageEntry machine.memory machine.cr3 (windowPage machine) =
    createEntry machine.freeFramePaddr pteWritable

theorem stored_of_free (free : FreeList machine roots frames) : Stored machine frames := by
  have linked := free.linked
  have aligned := free.aligned
  have positive := free.positive
  unfold Stored
  generalize machine.freeFramePaddr = head at linked ⊢
  clear free
  induction frames generalizing head with
  | nil => exact linked
  | cons frame frames ih =>
      obtain ⟨rfl, linked⟩ := linked
      refine ⟨rfl, Nat.pos_iff_ne_zero.1 (positive head List.mem_cons_self), ?_⟩
      rw [link, frame_of_own (aligned head List.mem_cons_self)]
      exact ih (fun other member => aligned other (List.mem_cons_of_mem _ member))
        (fun other member => positive other (List.mem_cons_of_mem _ member)) _ linked

/-- The links survive what leaves the free frames alone. -/
theorem stored_same_on {next : Machine} {head : Nat} (chain : Chain 0 (link machine) head addrs)
    (same : ∀ addr ∈ addrs, SameOn machine.memory next.memory (frameOf addr)) :
    Chain 0 (link next) head addrs := by
  apply chain_congr chain
  intro addr member
  have kept : readWord next.memory (frameOf addr + 0) = readWord machine.memory (frameOf addr + 0) :=
    read_word_same_on (same addr member) (by omega)
  rw [Nat.add_zero] at kept
  exact kept

theorem tagged_word (list : Tagged machine roots addrs) : machine.freeFramePaddr < 4294967296 := by
  have chain := list.chain
  have bounded := list.bounded
  cases addrs with
  | nil => exact Nat.lt_of_le_of_lt (Nat.le_of_eq chain) (by decide)
  | cons addr rest => exact chain.1 ▸ bounded addr List.mem_cons_self

/-- The first address leaves the list as it is stored. -/
theorem tagged_alloc (spaces : Spaces machine roots) (list : Tagged machine roots (addr :: addrs)) :
    allocFrame machine = .ok (addr, popped machine (frameOf addr)) := by
  have top : machine.freeFramePaddr = addr := list.chain.1
  have notNull : addr ≠ 0 := list.chain.1 ▸ list.chain.2.1
  have bounded := list.bounded addr List.mem_cons_self
  have aligned := frame_of_aligned addr
  have isEntry := create_entry_of bounded pteWritable
  have small := frame_of_lt bounded
  generalize frameOf addr = frame at aligned isEntry small ⊢
  have headAligned := spaces.headAligned
  have headLow := spaces.headLow
  have shown : pageEntry machine.memory machine.cr3 (machine.freeListHead / 4096) =
      createEntry machine.freeFramePaddr pteWritable := list.window
  have found : translate machine.memory machine.cr3 machine.freeListHead = some frame := by
    rw [translate_page (by rw [shown]; exact create_entry_present _ _), shown, top, isEntry,
      create_entry_frame (by omega) (by decide), frame_of_own aligned, headAligned]
    rfl
  have next : loadWord { machine with usedFrames := u32 (machine.usedFrames + 1) }
      machine.freeListHead = .ok (readWord machine.memory frame) :=
    load_word_at found (by omega) (by omega)
  have stored := spaces.store_head_pte (u32 (machine.usedFrames + 1)) (readWord machine.memory frame)
    (createEntry (readWord machine.memory frame) pteWritable)
  rw [allocFrame, Trap.kernel_assert_of (top ▸ notNull), Trap.ok_bind]
  simp only [next, Trap.ok_bind, stored]
  rw [Trap.pure_ok, top, popped, popMemory]

theorem tagged_popped (spaces : Spaces machine roots) (list : Tagged machine roots (addr :: addrs)) :
    Tagged (popped machine (frameOf addr)) roots addrs where
  chain := by
    apply stored_same_on list.chain.2.2
    intro other member
    have table := is_table_of_present spaces.member spaces.windowLow spaces.windowTable
    apply write_same_on (frame_of_aligned _) (frame_of_aligned _) (by omega)
    intro same
    rw [← same] at table
    exact list.notTable other (List.mem_cons_of_mem _ member) table
  nodup := (List.nodup_cons.1 list.nodup).2
  positive other member := list.positive other (List.mem_cons_of_mem _ member)
  bounded other member := list.bounded other (List.mem_cons_of_mem _ member)
  notRoot other member := list.notRoot other (List.mem_cons_of_mem _ member)
  notTable other member isTable :=
    list.notTable other (List.mem_cons_of_mem _ member) ((is_table_pop spaces _).1 isTable)
  window := by
    have seen := page_entry_pop spaces (frameOf addr) spaces.member spaces.windowLow
    rw [if_pos rfl] at seen
    exact seen

/-- The machine after a frame was freed under an address. -/
def pushedAs (machine : Machine) (frame addr : Nat) : Machine :=
  { machine with
    memory := pushMemory machine frame
    freeFramePaddr := addr
    usedFrames := sub32 machine.usedFrames 1 }

/-- `free_frame` stores the address as it is given, and otherwise looks at its frame only. -/
theorem tagged_free (spaces : Spaces machine roots) (freeable : Freeable machine roots frames (frameOf addr))
    (bounded : addr < 4294967296) : freeFrame machine addr = .ok (pushedAs machine (frameOf addr) addr) := by
  have plain := free_frame_ok spaces freeable
  obtain ⟨marked, marking, plain⟩ := Trap.bind_eq_ok.mp plain
  obtain ⟨stored, storing, plain⟩ := Trap.bind_eq_ok.mp plain
  simp only [Trap.pure_ok, Except.ok.injEq] at plain
  rw [← create_entry_of bounded] at marking
  simp only [freeFrame, marking, storing, Trap.ok_bind, Trap.pure_ok, Except.ok.injEq]
  exact congrArg (fun last : Machine => { last with freeFramePaddr := addr }) plain

theorem tagged_pushed (spaces : Spaces machine roots) (list : Tagged machine roots addrs)
    (freeable : Freeable machine roots frames (frameOf addr)) (bounded : addr < 4294967296)
    (fresh : frameOf addr ∉ addrs.map frameOf) :
    Tagged (pushedAs machine (frameOf addr) addr) roots (addr :: addrs) := by
  have table := is_table_of_present spaces.member spaces.windowLow spaces.windowTable
  have tables : ∀ other, IsTable (pushMemory machine (frameOf addr)) roots other ↔
      IsTable machine.memory roots other := is_table_same_on (push_roots spaces freeable)
  have notNull : addr ≠ 0 := by
    rintro rfl
    exact absurd freeable.positive (by decide)
  refine ⟨⟨rfl, notNull, ?_⟩, List.nodup_cons.2 ⟨fresh, list.nodup⟩,
    List.forall_mem_cons.2 ⟨freeable.positive, list.positive⟩,
    List.forall_mem_cons.2 ⟨bounded, list.bounded⟩,
    List.forall_mem_cons.2 ⟨fun member => freeable.notUsed (.inl member), list.notRoot⟩,
    List.forall_mem_cons.2 ⟨?_, ?_⟩, ?_⟩
  · have top : link (pushedAs machine (frameOf addr) addr) addr = machine.freeFramePaddr :=
      read_write_same (tagged_word list)
    rw [top]
    apply stored_same_on list.chain
    intro other member
    apply push_same_on freeable (frame_of_aligned _)
    · intro same
      rw [← same] at fresh
      exact fresh (List.mem_map_of_mem member)
    · intro same
      rw [← same] at table
      exact list.notTable other member table
  · exact fun isTable => freeable.notUsed (.inr (.inl ((tables _).1 isTable)))
  · exact fun other member isTable => list.notTable other member ((tables _).1 isTable)
  · have seen := page_entry_push spaces freeable spaces.member spaces.windowLow
    rw [if_pos rfl, ← create_entry_of bounded] at seen
    exact seen

theorem tagged_fill (spaces : Spaces machine roots) (list : Tagged machine roots addrs)
    (low : page < 1047552) (present : Present (directoryEntry machine.memory machine.cr3 (page / 1024)))
    (bounded : word < 4294967296) (notWindow : page ≠ windowPage machine) :
    Spaces (fillSlot machine page word) roots ∧ Tagged (fillSlot machine page word) roots addrs := by
  have same : ∀ root ∈ roots, SameOn machine.memory (fillSlot machine page word).memory root :=
    slot_write_roots spaces.family spaces.member low present
  have table := fill_slot_table spaces low present
  have tables := is_table_same_on same
  refine ⟨spaces_same_on spaces same rfl rfl rfl rfl, ⟨?_, list.nodup, list.positive, list.bounded,
    list.notRoot, fun other member isTable => list.notTable other member ((tables _).1 isTable), ?_⟩⟩
  · apply stored_same_on list.chain
    intro other member
    apply write_same_on (frame_of_aligned _) (frame_of_aligned _) (by omega)
    intro same
    rw [← same] at table
    exact list.notTable other member table
  · have window := fill_slot_entry spaces low present bounded spaces.member spaces.windowLow
    rw [if_neg (fun both => notWindow both.1.symm)] at window
    exact window.trans list.window

theorem tagged_addable (flags : Nat) (spaces : Spaces machine roots)
    (list : Tagged machine roots (addr :: addrs)) (low : index < 1023)
    (absent : ¬ Present (directoryEntry machine.memory machine.cr3 index)) :
    Addable (popMemory machine (frameOf addr)) roots machine.cr3 index (tableEntry (frameOf addr) flags) := by
  have small := frame_of_lt (list.bounded addr List.mem_cons_self)
  exact addable_frame spaces flags (frame_of_aligned addr) (by omega) (list.notRoot addr List.mem_cons_self)
    (list.notTable addr List.mem_cons_self) low absent

/-- The flags of an address are masked where it becomes a page table. -/
theorem tagged_make (flags : Nat) (spaces : Spaces machine roots)
    (list : Tagged machine roots (addr :: addrs)) (low : index < 1023)
    (absent : ¬ Present (directoryEntry machine.memory machine.cr3 index)) :
    makePageTable machine index flags = .ok (withTable machine (frameOf addr) index flags) := by
  have popped := spaces_pop spaces (frameOf addr) (readWord machine.memory (frameOf addr))
    (u32 (machine.usedFrames + 1))
  have added := add_table_ok popped (tagged_addable flags spaces list low absent)
  rw [makePageTable, pde_ok spaces.selfMapped (by omega), Trap.ok_bind,
    if_pos (mt (entry_present_iff _).1 absent), tagged_alloc spaces list, Trap.ok_bind]
  dsimp only
  rw [create_entry_of (list.bounded addr List.mem_cons_self)]
  exact added

theorem tagged_table (flags : Nat) (spaces : Spaces machine roots)
    (list : Tagged machine roots (addr :: addrs)) (low : index < 1023)
    (absent : ¬ Present (directoryEntry machine.memory machine.cr3 index)) :
    Tagged (withTable machine (frameOf addr) index flags) roots addrs := by
  have addable := tagged_addable flags spaces list low absent
  have popped := spaces_pop spaces (frameOf addr) (readWord machine.memory (frameOf addr))
    (u32 (machine.usedFrames + 1))
  have rest := tagged_popped spaces list
  have isFrame := table_entry_of flags (frame_of_aligned addr)
    (by have small := frame_of_lt (list.bounded addr List.mem_cons_self); omega)
  have fresh := (List.nodup_cons.1 list.nodup).1
  refine ⟨?_, rest.nodup, rest.positive, rest.bounded, rest.notRoot, ?_, ?_⟩
  · apply stored_same_on rest.chain
    intro other member
    apply add_table_same_on popped.family addable (frame_of_aligned _)
    · exact fun same => rest.notRoot other member (same ▸ spaces.member)
    · rw [isFrame]
      intro same
      rw [← same] at fresh
      exact fresh (List.mem_map_of_mem member)
  · intro other member isTable
    have added := (is_table_add popped.family addable _).1 isTable
    rw [isFrame] at added
    rcases added with same | before
    · rw [← same] at fresh
      exact fresh (List.mem_map_of_mem member)
    · exact rest.notTable other member before
  · have window := page_entry_add popped.family addable spaces.member spaces.windowLow
    exact window.trans rest.window

end Lists

section Lockstep

variable {machine other : Machine} {roots frames addrs : List Nat} {frame addr vaddr paddr flags : Nat}

/-- Two machines with the same page tables and the same free frames. The addresses on the list of
the second may have flags, and what is in frames that hold no paging structure may differ. -/
structure Alike (machine other : Machine) (roots frames addrs : List Nat) : Prop where
  spaces : Spaces machine roots
  free : FreeList machine roots frames
  otherSpaces : Spaces other roots
  list : Tagged other roots addrs
  same : addrs.map frameOf = frames
  globals : SameGlobals machine other
  tables : SameTables machine other roots

/-- The window's entries are the same as soon as the lists are. -/
theorem alike_of (spaces : Spaces machine roots) (free : FreeList machine roots frames)
    (otherSpaces : Spaces other roots) (list : Tagged other roots addrs) (same : addrs.map frameOf = frames)
    (globals : SameGlobals machine other)
    (directories : ∀ root ∈ roots, ∀ index < 1024,
      directoryEntry other.memory root index = directoryEntry machine.memory root index)
    (pages : ∀ root ∈ roots, ∀ page < 1047552, page ≠ windowPage machine →
      pageEntry other.memory root page = pageEntry machine.memory root page) :
    Alike machine other roots frames addrs := by
  refine ⟨spaces, free, otherSpaces, list, same, globals, directories, ?_⟩
  intro root member page low
  by_cases window : page = windowPage machine
  · have shown := free.window
    have otherShown := list.window
    have otherWindow := otherSpaces.window_entry member
    rw [same_globals_window globals] at otherShown otherWindow
    rw [window, otherWindow, otherShown, spaces.window_entry member, shown,
      create_entry_of (tagged_word list)]
    subst same
    cases addrs with
    | nil =>
        have top : machine.freeFramePaddr = 0 := free.linked
        have otherTop : other.freeFramePaddr = 0 := list.chain
        rw [top, otherTop]
        rfl
    | cons addr rest =>
        have top : machine.freeFramePaddr = frameOf addr := free.linked.1
        have otherTop : other.freeFramePaddr = addr := list.chain.1
        rw [top, otherTop]
  · exact pages root member page low window

theorem alike_table (alike : Alike machine other roots frames addrs) (frame : Nat) :
    IsTable other.memory roots frame ↔ IsTable machine.memory roots frame := by
  have same := alike.tables.directories
  unfold IsTable
  constructor
  · rintro ⟨root, member, index, low, present, equal⟩
    rw [same root member index (by omega)] at present equal
    exact ⟨root, member, index, low, present, equal⟩
  · rintro ⟨root, member, index, low, present, equal⟩
    rw [← same root member index (by omega)] at present equal
    exact ⟨root, member, index, low, present, equal⟩

theorem alike_tied (alike : Alike machine other roots frames addrs) {root page : Nat} (member : root ∈ roots)
    (low : page < 1047552) : Tied other other.cr3 root page ↔ Tied machine machine.cr3 root page := by
  have same := alike.tables.directories
  rw [same_globals_cr3 alike.globals, Tied, Tied, Shares, Shares, same root member _ (by omega),
    same _ alike.spaces.member _ (by omega)]

theorem alike_alloc (alike : Alike machine other roots (frame :: frames) (addr :: addrs)) :
    allocFrame machine = .ok (frame, popped machine frame) ∧
      allocFrame other = .ok (addr, popped other frame) ∧
      Alike (popped machine frame) (popped other frame) roots frames addrs := by
  have isFrame : frameOf addr = frame := (List.cons.inj alike.same).1
  have spaces := alike.spaces
  have taken := tagged_alloc alike.otherSpaces alike.list
  have list := tagged_popped alike.otherSpaces alike.list
  rw [isFrame] at taken list
  refine ⟨alloc_frame_ok spaces alike.free, taken, alike_of (spaces_pop spaces _ _ _)
    (free_list_pop spaces alike.free _) (spaces_pop alike.otherSpaces _ _ _) list
    (List.cons.inj alike.same).2 ?_ ?_ ?_⟩
  · have before : SameGlobals (popped machine frame) machine := rfl
    have after : SameGlobals other (popped other frame) := rfl
    exact same_globals_trans before (same_globals_trans alike.globals after)
  · intro root member index low
    rw [popped_directory spaces _ member low, popped_directory alike.otherSpaces _ member low]
    exact alike.tables.directories root member index low
  · intro root member page low notWindow
    have window : windowPage other = windowPage machine := same_globals_window alike.globals
    change page ≠ windowPage machine at notWindow
    rw [popped_entry spaces _ member low notWindow,
      popped_entry alike.otherSpaces _ member low (window ▸ notWindow)]
    exact alike.tables.pages root member page low

/-- A frame is freed under two addresses of it. -/
theorem alike_freed (alike : Alike machine other roots frames addrs)
    (freeable : Freeable machine roots frames (frameOf addr)) (bounded : addr < 4294967296) :
    freeFrame machine (frameOf addr) = .ok (pushedAs machine (frameOf addr) (frameOf addr)) ∧
      freeFrame other addr = .ok (pushedAs other (frameOf addr) addr) ∧
      Alike (pushedAs machine (frameOf addr) (frameOf addr)) (pushedAs other (frameOf addr) addr) roots
        (frameOf addr :: frames) (addr :: addrs) := by
  have spaces := alike.spaces
  have otherFreeable : Freeable other roots frames (frameOf addr) := by
    refine ⟨freeable.aligned, freeable.positive, freeable.bounded, ?_⟩
    rintro (isRoot | isTable | listed)
    · exact freeable.notUsed (.inl isRoot)
    · exact freeable.notUsed (.inr (.inl ((alike_table alike _).1 isTable)))
    · exact freeable.notUsed (.inr (.inr listed))
  have fresh : frameOf addr ∉ addrs.map frameOf :=
    fun member => freeable.notUsed (.inr (.inr (alike.same ▸ member)))
  refine ⟨free_frame_ok spaces freeable, tagged_free alike.otherSpaces otherFreeable bounded,
    alike_of (spaces_push spaces freeable _) (free_list_push spaces alike.free freeable _)
      (spaces_same_on alike.otherSpaces (push_roots alike.otherSpaces otherFreeable) rfl rfl rfl rfl)
      (tagged_pushed alike.otherSpaces alike.list otherFreeable bounded fresh)
      (congrArg (List.cons _) alike.same) ?_ ?_ ?_⟩
  · have before : SameGlobals (pushedAs machine (frameOf addr) (frameOf addr)) machine := rfl
    have after : SameGlobals other (pushedAs other (frameOf addr) addr) := rfl
    exact same_globals_trans before (same_globals_trans alike.globals after)
  · intro root member index low
    have kept := directory_entry_same_on (push_roots spaces freeable root member) low
    have otherKept := directory_entry_same_on (push_roots alike.otherSpaces otherFreeable root member) low
    exact otherKept.trans ((alike.tables.directories root member index low).trans kept.symm)
  · intro root member page low notWindow
    have window : windowPage other = windowPage machine := same_globals_window alike.globals
    change page ≠ windowPage machine at notWindow
    have kept := page_entry_push spaces freeable member low
    have otherKept := page_entry_push alike.otherSpaces otherFreeable member low
    rw [if_neg notWindow] at kept
    rw [if_neg (window ▸ notWindow)] at otherKept
    exact otherKept.trans ((alike.tables.pages root member page low).trans kept.symm)

theorem alike_filled (alike : Alike machine other roots frames addrs) {page word : Nat} (low : page < 1047552)
    (present : Present (directoryEntry machine.memory machine.cr3 (page / 1024)))
    (bounded : word < 4294967296) (notWindow : page ≠ windowPage machine) :
    Alike (fillSlot machine page word) (fillSlot other page word) roots frames addrs := by
  have spaces := alike.spaces
  have cr3 : other.cr3 = machine.cr3 := same_globals_cr3 alike.globals
  have window : windowPage other = windowPage machine := same_globals_window alike.globals
  have otherPresent : Present (directoryEntry other.memory other.cr3 (page / 1024)) := by
    rw [cr3, alike.tables.directories _ spaces.member _ (by omega)]
    exact present
  have kept := kept_fill_slot spaces alike.free low present bounded notWindow
  obtain ⟨otherSpaces, list⟩ := tagged_fill alike.otherSpaces alike.list low otherPresent bounded
    (window ▸ notWindow)
  refine alike_of kept.spaces kept.free otherSpaces list alike.same ?_ ?_ ?_
  · have before : SameGlobals (fillSlot machine page word) machine := rfl
    have after : SameGlobals other (fillSlot other page word) := rfl
    exact same_globals_trans before (same_globals_trans alike.globals after)
  · intro root member index high
    have same : directoryEntry (fillSlot machine page word).memory root index =
        directoryEntry machine.memory root index := directory_entry_same_on
      (slot_write_roots spaces.family spaces.member low present root member) high
    have otherSame : directoryEntry (fillSlot other page word).memory root index =
        directoryEntry other.memory root index := directory_entry_same_on
      (slot_write_roots alike.otherSpaces.family alike.otherSpaces.member low otherPresent root member) high
    rw [same, otherSame]
    exact alike.tables.directories root member index high
  · intro root member position high _
    rw [fill_slot_entry spaces low present bounded member high,
      fill_slot_entry alike.otherSpaces low otherPresent bounded member high]
    simp only [alike_tied alike member low, alike.tables.pages root member position high]

theorem mapped_entry_lt (address : paddr < 4294967296) (small : flags < 65536) :
    createEntry paddr flags < 4294967296 := by
  have masked : paddr &&& 0xFFFFF000 < 2 ^ 32 := Nat.lt_of_le_of_lt Nat.and_le_left address
  have flagged : flags < 2 ^ 32 := Nat.lt_trans small (by decide)
  exact Nat.or_lt_two_pow (Nat.or_lt_two_pow masked flagged) (by decide)

/-- Under a page table, `map_page` does the same to both. -/
theorem alike_mapped (alike : Alike machine other roots frames addrs) (low : vaddr / 4096 < 1047552)
    (address : paddr < 4294967296) (small : flags < 65536)
    (present : Present (directoryEntry machine.memory machine.cr3 (vaddr / 4096 / 1024))) :
    (∃ trap, mapPage machine vaddr paddr flags = .error trap ∧
      mapPage other vaddr paddr flags = .error trap) ∨
    ∃ already next otherNext, mapPage machine vaddr paddr flags = .ok (already, next) ∧
      mapPage other vaddr paddr flags = .ok (already, otherNext) ∧
      Alike next otherNext roots frames addrs := by
  have spaces := alike.spaces
  have cr3 : other.cr3 = machine.cr3 := same_globals_cr3 alike.globals
  have directory : directoryEntry other.memory other.cr3 (vaddr / 4096 / 1024) =
      directoryEntry machine.memory machine.cr3 (vaddr / 4096 / 1024) := by
    rw [cr3]
    exact alike.tables.directories _ spaces.member _ (by omega)
  have entry : pageEntry other.memory other.cr3 (vaddr / 4096) =
      pageEntry machine.memory machine.cr3 (vaddr / 4096) := by
    rw [cr3]
    exact alike.tables.pages _ spaces.member _ low
  have otherPresent : Present (directoryEntry other.memory other.cr3 (vaddr / 4096 / 1024)) :=
    directory.symm ▸ present
  have mapping := @map_page_table machine vaddr paddr spaces.selfMapped (by omega) flags present
  have otherMapping := @map_page_table other vaddr paddr alike.otherSpaces.selfMapped (by omega) flags otherPresent
  rw [directory, entry] at otherMapping
  rw [mapping, otherMapping]
  split_ifs with refused there
  · exact .inl ⟨_, rfl, rfl⟩
  · exact .inr ⟨_, _, _, rfl, rfl, alike⟩
  · have notWindow : vaddr / 4096 ≠ windowPage machine :=
      fun same => there (same ▸ window_present alike.free)
    exact .inr ⟨_, _, _, rfl, rfl,
      alike_filled alike low present (mapped_entry_lt address small) notWindow⟩

theorem alike_with_table {index : Nat} (flags : Nat)
    (alike : Alike machine other roots (frame :: frames) (addr :: addrs)) (low : index < 1023)
    (absent : ¬ Present (directoryEntry machine.memory machine.cr3 index)) :
    Alike (withTable machine frame index flags) (withTable other frame index flags) roots frames addrs := by
  have isFrame : frameOf addr = frame := (List.cons.inj alike.same).1
  have spaces := alike.spaces
  have cr3 : other.cr3 = machine.cr3 := same_globals_cr3 alike.globals
  have window : windowPage other = windowPage machine := same_globals_window alike.globals
  have otherAbsent : ¬ Present (directoryEntry other.memory other.cr3 index) := by
    rw [cr3, alike.tables.directories _ spaces.member _ (by omega)]
    exact absent
  have addable := addable_table spaces alike.free flags low absent
  have otherAddable := tagged_addable flags alike.otherSpaces alike.list low otherAbsent
  have list := tagged_table flags alike.otherSpaces alike.list low otherAbsent
  rw [isFrame] at otherAddable list
  have kept := kept_with_table flags spaces alike.free low absent
  refine alike_of kept.spaces kept.free (table_added_spaces flags alike.otherSpaces otherAddable) list
    (List.cons.inj alike.same).2 ?_ ?_ ?_
  · have before : SameGlobals (withTable machine frame index flags) machine := rfl
    have after : SameGlobals other (withTable other frame index flags) := rfl
    exact same_globals_trans before (same_globals_trans alike.globals after)
  · intro root member position high
    rw [table_added_directory flags spaces addable member high,
      table_added_directory flags alike.otherSpaces otherAddable member high, cr3,
      alike.tables.directories root member position high]
  · intro root member page high notWindow
    change page ≠ windowPage machine at notWindow
    rw [table_added_entry flags spaces addable member high,
      table_added_entry flags alike.otherSpaces otherAddable member high, if_neg notWindow,
      if_neg (window ▸ notWindow)]
    exact alike.tables.pages root member page high

/-- Where there is no page table, the first free frame becomes one in both. -/
theorem alike_mapped_new (alike : Alike machine other roots (frame :: frames) (addr :: addrs))
    (low : vaddr / 4096 < 1047552) (address : paddr < 4294967296) (small : flags < 65536)
    (absent : ¬ Present (directoryEntry machine.memory machine.cr3 (vaddr / 4096 / 1024))) :
    ∃ already next otherNext, mapPage machine vaddr paddr flags = .ok (already, next) ∧
      mapPage other vaddr paddr flags = .ok (already, otherNext) ∧
      Alike next otherNext roots frames addrs := by
  have spaces := alike.spaces
  have cr3 : other.cr3 = machine.cr3 := same_globals_cr3 alike.globals
  have index : vaddr / 4096 / 1024 < 1023 := by omega
  have isFrame : frameOf addr = frame := (List.cons.inj alike.same).1
  have otherAbsent : ¬ Present (directoryEntry other.memory other.cr3 (vaddr / 4096 / 1024)) := by
    rw [cr3, alike.tables.directories _ spaces.member _ (by omega)]
    exact absent
  have tabled := alike_with_table flags alike index absent
  have made := make_page_table_ok flags spaces alike.free index absent
  have otherMade := tagged_make flags alike.otherSpaces alike.list index otherAbsent
  rw [isFrame] at otherMade
  have directory : directoryEntry (withTable machine frame (vaddr / 4096 / 1024) flags).memory
      machine.cr3 (vaddr / 4096 / 1024) = tableEntry frame flags := by
    rw [with_table_directory _ spaces alike.free index absent spaces.member (by omega), if_pos ⟨rfl, rfl⟩]
  have present : Present (directoryEntry (withTable machine frame (vaddr / 4096 / 1024) flags).memory
      machine.cr3 (vaddr / 4096 / 1024)) := directory ▸ create_entry_present _ _
  have otherPresent : Present (directoryEntry (withTable other frame (vaddr / 4096 / 1024) flags).memory
      other.cr3 (vaddr / 4096 / 1024)) := by
    rw [cr3, tabled.tables.directories _ spaces.member _ (by omega)]
    exact present
  have notWindow : vaddr / 4096 ≠ windowPage machine := by
    intro same
    rw [same] at absent
    exact absent spaces.windowTable
  obtain ⟨next, returned⟩ := @map_page_new_table machine roots vaddr flags paddr frame frames spaces
    alike.free low notWindow absent
  have same := @map_page_made machine vaddr paddr flags _ (by omega) made tabled.spaces.selfMapped present
  have otherSame := @map_page_made other vaddr paddr flags _ (by omega) otherMade tabled.otherSpaces.selfMapped
    otherPresent
  rw [otherSame]
  rw [same] at returned ⊢
  rcases alike_mapped tabled low address small present with ⟨trap, failed, _⟩ | mapped
  · rw [failed] at returned
    cases returned
  · exact mapped

/-- Without a free frame, neither makes a page table. -/
theorem alike_mapped_none (alike : Alike machine other roots [] [])
    (low : vaddr / 4096 < 1047552)
    (absent : ¬ Present (directoryEntry machine.memory machine.cr3 (vaddr / 4096 / 1024))) :
    mapPage machine vaddr paddr flags = .error .assertion ∧
      mapPage other vaddr paddr flags = .error .assertion := by
  have cr3 : other.cr3 = machine.cr3 := same_globals_cr3 alike.globals
  have otherAbsent : ¬ Present (directoryEntry other.memory other.cr3 (vaddr / 4096 / 1024)) := by
    rw [cr3, alike.tables.directories _ alike.spaces.member _ (by omega)]
    exact absent
  have empty : allocFrame machine = .error .assertion := alloc_frame_empty alike.free.linked
  have otherEmpty : allocFrame other = .error .assertion := alloc_frame_empty alike.list.chain
  constructor
  · rw [mapPage, makePageTable, get_pd_index_page, pde_ok alike.spaces.selfMapped (by omega), Trap.ok_bind,
      if_pos (mt (entry_present_iff _).1 absent), empty]
    rfl
  · rw [mapPage, makePageTable, get_pd_index_page, pde_ok alike.otherSpaces.selfMapped (by omega),
      Trap.ok_bind, if_pos (mt (entry_present_iff _).1 otherAbsent), otherEmpty]
    rfl

theorem alike_list_iff (alike : Alike machine other roots frames addrs) :
    (∀ list, Stored other list ↔ Stored machine list) ↔ addrs = frames := by
  have stored := stored_of_free alike.free
  constructor
  · intro same
    exact chain_unique alike.list.chain ((same frames).2 stored)
  · rintro rfl list
    constructor
    · intro other
      rw [chain_unique other alike.list.chain]
      exact stored
    · intro own
      rw [chain_unique own stored]
      exact alike.list.chain

end Lockstep

section Runs

variable {machine other next otherNext : Machine} {roots frames addrs rest otherRest above below : List Nat}
  {frame addr : Nat} {call : FrameCall} {answer otherAnswer : FrameAnswer}

/-- What a call does to two free lists, and what it returns. -/
def ListStep (machine : Machine) (frames addrs rest otherRest : List Nat) (answer otherAnswer : FrameAnswer) :
    FrameCall → Prop
  | .allocFrame => ∃ frame addr, frames = frame :: rest ∧ addrs = addr :: otherRest ∧
      answer = .frame frame ∧ otherAnswer = .frame addr
  | .freeFrame paddr => rest = paddr :: frames ∧ otherRest = paddr :: addrs ∧
      answer = .freed ∧ otherAnswer = .freed
  | .mapPage vaddr _ _ => (∃ already, answer = .mapped already ∧ otherAnswer = .mapped already) ∧
      if Present (directoryEntry machine.memory machine.cr3 (vaddr / 4096 / 1024)) then
        rest = frames ∧ otherRest = addrs
      else ∃ frame addr, frames = frame :: rest ∧ addrs = addr :: otherRest

/-- A call fails on both machines, or leads to machines that are alike again. -/
theorem alike_step (alike : Alike machine other roots frames addrs) (legal : LegalUse roots machine call) :
    (∃ trap, frameStep machine call = .error trap ∧ frameStep other call = .error trap) ∨
    ∃ answer otherAnswer next otherNext rest otherRest, frameStep machine call = .ok (answer, next) ∧
      frameStep other call = .ok (otherAnswer, otherNext) ∧ Alike next otherNext roots rest otherRest ∧
      ListStep machine frames addrs rest otherRest answer otherAnswer call := by
  have lengths := congrArg List.length alike.same
  rw [List.length_map] at lengths
  cases call with
  | allocFrame =>
      cases frames with
      | nil =>
          obtain rfl : addrs = [] := List.length_eq_zero_iff.1 lengths
          left
          refine ⟨.assertion, ?_, ?_⟩
          · rw [frameStep, alloc_frame_empty alike.free.linked]
            rfl
          · rw [frameStep, alloc_frame_empty alike.list.chain]
            rfl
      | cons frame frames =>
          cases addrs with
          | nil => cases lengths
          | cons addr addrs =>
              obtain ⟨taken, otherTaken, after⟩ := alike_alloc alike
              right
              refine ⟨.frame frame, .frame addr, _, _, frames, addrs, ?_, ?_, after, frame, addr, rfl, rfl, rfl,
                rfl⟩
              · rw [frameStep, taken]
                rfl
              · rw [frameStep, otherTaken]
                rfl
  | freeFrame paddr =>
      obtain ⟨listed, free, freeable⟩ := legal
      obtain rfl : listed = frames :=
        linked_unique free.positive alike.free.positive free.linked alike.free.linked
      have own := frame_of_own freeable.aligned
      rw [← own] at freeable
      obtain ⟨freed, otherFreed, after⟩ := alike_freed alike freeable (own ▸ freeable.bounded)
      rw [own] at freed otherFreed after
      right
      refine ⟨.freed, .freed, _, _, _, _, ?_, ?_, after, rfl, rfl, rfl, rfl⟩
      · rw [frameStep, freed]
        rfl
      · rw [frameStep, otherFreed]
        rfl
  | mapPage vaddr paddr flags =>
      obtain ⟨low, address, small⟩ := legal
      by_cases present : Present (directoryEntry machine.memory machine.cr3 (vaddr / 4096 / 1024))
      · rcases alike_mapped alike low address small present with
          ⟨trap, failed, otherFailed⟩ | ⟨already, next, otherNext, mapped, otherMapped, after⟩
        · left
          refine ⟨trap, ?_, ?_⟩
          · rw [frameStep, failed]
            rfl
          · rw [frameStep, otherFailed]
            rfl
        · right
          refine ⟨.mapped already, .mapped already, next, otherNext, frames, addrs, ?_, ?_, after,
            ⟨already, rfl, rfl⟩, ?_⟩
          · rw [frameStep, mapped]
            rfl
          · rw [frameStep, otherMapped]
            rfl
          · rw [if_pos present]
            exact ⟨rfl, rfl⟩
      · cases frames with
        | nil =>
            obtain rfl : addrs = [] := List.length_eq_zero_iff.1 lengths
            obtain ⟨failed, otherFailed⟩ := @alike_mapped_none machine other roots vaddr paddr flags alike low present
            left
            refine ⟨.assertion, ?_, ?_⟩
            · rw [frameStep, failed]
              rfl
            · rw [frameStep, otherFailed]
              rfl
        | cons frame frames =>
            cases addrs with
            | nil => cases lengths
            | cons addr addrs =>
                obtain ⟨already, next, otherNext, mapped, otherMapped, after⟩ :=
                  alike_mapped_new alike low address small present
                right
                refine ⟨.mapped already, .mapped already, next, otherNext, frames, addrs, ?_, ?_, after,
                  ⟨already, rfl, rfl⟩, ?_⟩
                · rw [frameStep, mapped]
                  rfl
                · rw [frameStep, otherMapped]
                  rfl
                · rw [if_neg present]
                  exact ⟨frame, addr, rfl, rfl⟩

theorem follow_error {calls : List FrameCall} {trap : Trap} (failed : frameStep machine call = .error trap) :
    follow machine (call :: calls) = ⟨[], machine, some trap⟩ := by
  rw [follow, failed]

theorem follow_ok {calls : List FrameCall} (stepped : frameStep machine call = .ok (answer, next)) :
    follow machine (call :: calls) =
      ⟨answer :: (follow next calls).answers, (follow next calls).final, (follow next calls).trap⟩ := by
  rw [follow, stepped]

/-- Where no more calls are made, the free lists decide. -/
theorem same_uses_stop (alike : Alike machine other roots frames addrs) (trap : Option Trap) :
    SameUses roots ⟨[], machine, trap⟩ ⟨[], other, trap⟩ ↔ addrs = frames := by
  rw [← alike_list_iff alike]
  constructor
  · exact fun same => same.list
  · exact fun same => ⟨rfl, fun _ member => absurd member List.not_mem_nil, rfl, alike.tables, same⟩

theorem same_uses_cons {calls : List FrameCall} (stepped : frameStep machine call = .ok (answer, next))
    (otherStepped : frameStep other call = .ok (otherAnswer, otherNext)) :
    SameUses roots (follow machine (call :: calls)) (follow other (call :: calls)) ↔
      otherAnswer = answer ∧ (∀ addr, otherAnswer = .frame addr → addr % 4096 = 0) ∧
        SameUses roots (follow next calls) (follow otherNext calls) := by
  rw [follow_ok stepped, follow_ok otherStepped]
  constructor
  · intro same
    obtain ⟨here, later⟩ := List.cons.inj same.answers
    refine ⟨here, ?_, later, ?_, same.trap, same.tables, same.list⟩
    · exact fun addr isFrame => same.aligned addr (isFrame ▸ List.mem_cons_self)
    · exact fun addr member => same.aligned addr (List.mem_cons_of_mem _ member)
  · rintro ⟨rfl, own, same⟩
    refine ⟨congrArg (List.cons _) same.answers, ?_, same.trap, same.tables, same.list⟩
    intro addr member
    rcases List.mem_cons.1 member with here | later
    · exact own addr here.symm
    · exact same.aligned addr later

/-- Lists without flags stay the same. -/
theorem alike_follow (calls : List FrameCall) (alike : Alike machine other roots frames frames)
    (legal : Allowed frameStep (LegalUse roots) machine calls) :
    SameUses roots (follow machine calls) (follow other calls) := by
  induction calls generalizing machine other frames with
  | nil => exact (same_uses_stop alike none).2 rfl
  | cons call calls ih =>
      rcases alike_step alike legal.1 with ⟨trap, failed, otherFailed⟩ |
        ⟨answer, otherAnswer, next, otherNext, rest, otherRest, stepped, otherStepped, after, lists⟩
      · rw [follow_error failed, follow_error otherFailed]
        exact (same_uses_stop alike _).2 rfl
      · have later := legal.2 answer next stepped
        rw [same_uses_cons stepped otherStepped]
        cases call with
        | allocFrame =>
            obtain ⟨frame, addr, isFrames, same, rfl, rfl⟩ := lists
            obtain ⟨rfl, rfl⟩ := List.cons.inj (isFrames.symm.trans same)
            refine ⟨rfl, ?_, ih after later⟩
            rintro addr ⟨⟩
            exact alike.free.aligned frame (isFrames ▸ List.mem_cons_self)
        | freeFrame paddr =>
            obtain ⟨rfl, rfl, rfl, rfl⟩ := lists
            exact ⟨rfl, fun _ => nofun, ih after later⟩
        | mapPage vaddr paddr flags =>
            obtain ⟨⟨already, rfl, rfl⟩, same⟩ := lists
            obtain rfl : otherRest = rest := by
              split_ifs at same
              · rw [same.1, same.2]
              · obtain ⟨frame, addr, isFrames, isAddrs⟩ := same
                exact (List.cons.inj (isAddrs.symm.trans isFrames)).2
            exact ⟨rfl, fun _ => nofun, ih after later⟩

/-- An address with flags is seen, on the list or as an answer, unless it becomes a page table. -/
theorem tagged_follow (calls : List FrameCall)
    (alike : Alike machine other roots (above ++ frame :: below) (above ++ addr :: below))
    (differ : addr ≠ frame) (legal : Allowed frameStep (LegalUse roots) machine calls) :
    SameUses roots (follow machine calls) (follow other calls) ↔
      BecomesTable machine above.length calls := by
  have unlike : above ++ addr :: below ≠ above ++ frame :: below := by
    intro same
    exact differ (List.cons.inj (List.append_cancel_left same)).1
  induction calls generalizing machine other above with
  | nil => exact iff_of_false (mt (same_uses_stop alike none).1 unlike) id
  | cons call calls ih =>
      rcases alike_step alike legal.1 with ⟨trap, failed, otherFailed⟩ |
        ⟨answer, otherAnswer, next, otherNext, rest, otherRest, stepped, otherStepped, after, lists⟩
      · rw [follow_error failed, follow_error otherFailed]
        refine iff_of_false (mt (same_uses_stop alike _).1 unlike) ?_
        rintro ⟨answer, next, returned, _⟩
        rw [failed] at returned
        cases returned
      · have later := legal.2 answer next stepped
        have unique : BecomesTable machine above.length (call :: calls) ↔ _ :=
          ⟨fun ⟨_, _, returned, state⟩ => by
              rw [stepped, Except.ok.injEq, Prod.mk.injEq] at returned
              exact returned.2 ▸ state,
            fun state => ⟨answer, next, stepped, state⟩⟩
        rw [same_uses_cons stepped otherStepped, unique]
        cases call with
        | allocFrame =>
            obtain ⟨first, second, isFrames, isAddrs, rfl, rfl⟩ := lists
            cases above with
            | nil =>
                obtain ⟨rfl, rfl⟩ := List.cons.inj isFrames
                obtain ⟨rfl, rfl⟩ := List.cons.inj isAddrs
                apply iff_of_false
                · rintro ⟨same, _⟩
                  exact differ (FrameAnswer.frame.inj same)
                · exact fun state => absurd state.1 (Nat.lt_irrefl 0)
            | cons top above =>
                obtain ⟨rfl, rfl⟩ := List.cons.inj isFrames
                obtain ⟨rfl, rfl⟩ := List.cons.inj isAddrs
                have aligned := alike.free.aligned top List.mem_cons_self
                have still := ih after later (fun same => unlike (congrArg (List.cons top) same))
                constructor
                · rintro ⟨_, _, same⟩
                  exact ⟨Nat.succ_pos _, still.1 same⟩
                · rintro ⟨_, state⟩
                  refine ⟨rfl, ?_, still.2 state⟩
                  rintro addr ⟨⟩
                  exact aligned
        | freeFrame paddr =>
            obtain ⟨rfl, rfl, rfl, rfl⟩ := lists
            have still := @ih next otherNext (paddr :: above) after later
              (fun same => unlike (List.cons.inj same).2)
            constructor
            · rintro ⟨_, _, same⟩
              exact still.1 same
            · exact fun state => ⟨rfl, fun _ => nofun, still.2 state⟩
        | mapPage vaddr paddr flags =>
            obtain ⟨⟨already, rfl, rfl⟩, lists⟩ := lists
            dsimp only
            split_ifs at lists ⊢ with present
            · obtain ⟨rfl, rfl⟩ := lists
              have still := ih after later unlike
              constructor
              · rintro ⟨_, _, same⟩
                exact still.1 same
              · exact fun state => ⟨rfl, fun _ => nofun, still.2 state⟩
            · obtain ⟨first, second, isFrames, isAddrs⟩ := lists
              cases above with
              | nil =>
                  -- the address is masked, and the lists are the same from here on
                  obtain ⟨rfl, rfl⟩ := List.cons.inj isFrames
                  obtain ⟨rfl, rfl⟩ := List.cons.inj isAddrs
                  exact iff_of_true ⟨rfl, fun _ => nofun, alike_follow calls after later⟩ (.inl rfl)
              | cons top above =>
                  obtain ⟨rfl, rfl⟩ := List.cons.inj isFrames
                  obtain ⟨rfl, rfl⟩ := List.cons.inj isAddrs
                  have still := ih after later (fun same => unlike (congrArg (List.cons top) same))
                  constructor
                  · rintro ⟨_, _, same⟩
                    exact .inr (still.1 same)
                  · rintro (none | state)
                    · exact absurd none (Nat.succ_ne_zero _)
                    · exact ⟨rfl, fun _ => nofun, still.2 state⟩

end Runs

section Frees

variable {machine first : Machine} {roots frames : List Nat} {vaddr : Nat}

theorem map_frame_of (aligned : ∀ frame ∈ frames, frame % 4096 = 0) : frames.map frameOf = frames := by
  induction frames with
  | nil => rfl
  | cons frame frames ih =>
      rw [List.map_cons, frame_of_own (aligned frame List.mem_cons_self),
        ih fun other member => aligned other (List.mem_cons_of_mem _ member)]

theorem alike_refl (spaces : Spaces machine roots) (free : FreeList machine roots frames) :
    Alike machine machine roots frames frames := by
  have own : ∀ frame ∈ frames, frameOf frame = frame :=
    fun frame member => frame_of_own (free.aligned frame member)
  have same := map_frame_of free.aligned
  refine ⟨spaces, free, spaces, ⟨stored_of_free free, same.symm ▸ free.nodup, ?_, free.bounded, ?_, ?_,
    free.window⟩, same, rfl, ⟨fun _ _ _ _ => rfl, fun _ _ _ _ => rfl⟩⟩
  · intro frame member
    rw [own frame member]
    exact free.positive frame member
  · intro frame member
    rw [own frame member]
    exact free.notRoot frame member
  · intro frame member
    rw [own frame member]
    exact free.notTable frame member

/-- The window shows a free frame, or no frame at all. -/
theorem freeable_not_window (free : FreeList machine roots frames) {page : Nat}
    (freeable : Freeable machine roots frames (backingFrame machine page)) : page ≠ windowPage machine := by
  rintro rfl
  have positive := freeable.positive
  rw [backingFrame, free.window] at positive freeable
  cases frames with
  | nil =>
      have top : machine.freeFramePaddr = 0 := free.linked
      rw [top] at positive
      exact absurd positive (by decide)
  | cons frame rest =>
      have top : machine.freeFramePaddr = frame := free.linked.1
      have bounded := free.bounded frame List.mem_cons_self
      have aligned := free.aligned frame List.mem_cons_self
      have shown : frameOf (createEntry frame pteWritable) = frame := by
        rw [create_entry_frame bounded (by decide), frame_of_own aligned]
      rw [top, shown] at freeable
      exact freeable.notUsed (.inr (.inr List.mem_cons_self))

/-- After `free_page` and after `free_pages` the machines are alike, but for the flags of the entry. -/
theorem free_page_alike (spaces : Spaces machine roots) (free : FreeList machine roots frames)
    (low : vaddr / 4096 < 1047552) (freeable : Freeable machine roots frames (backingFrame machine (vaddr / 4096)))
    (stripped : freePages machine vaddr 1 = .ok first) : ∃ second frame entry,
      freePage machine vaddr = .ok second ∧ entry ≠ frame ∧
        Alike first second roots (frame :: frames) (entry :: frames) := by
  obtain ⟨⟨removed, middle⟩, unmapped, stripped⟩ := Trap.bind_eq_ok.mp stripped
  have unmapping := @unmap_page_ok machine vaddr spaces.selfMapped (by omega)
  rw [unmapped] at unmapping
  split_ifs at unmapping with present
  · simp only [Except.ok.injEq, Prod.mk.injEq] at unmapping
    obtain ⟨rfl, rfl⟩ := unmapping
    obtain ⟨last, freeing, stripped⟩ := Trap.bind_eq_ok.mp stripped
    obtain rfl : last = first := Except.ok.inj stripped
    obtain ⟨entry, isEntry⟩ : ∃ entry, entry = pageEntry machine.memory machine.cr3 (vaddr / 4096) :=
      ⟨_, rfl⟩
    have bounded : entry < 4294967296 := isEntry ▸ page_entry_lt _ _ _
    have isFrame : backingFrame machine (vaddr / 4096) = frameOf entry := by rw [backingFrame, isEntry]
    rw [isFrame] at freeable
    have notWindow := freeable_not_window free (isFrame ▸ freeable)
    have filled := kept_fill_slot spaces free low (page_entry_present present)
      (by decide : 0 < 4294967296) notWindow
    have ready : Freeable (fillSlot machine (vaddr / 4096) 0) roots frames (frameOf entry) :=
      ⟨freeable.aligned, freeable.positive, freeable.bounded,
        fun used => freeable.notUsed ((filled.inUse _).1 used)⟩
    obtain ⟨freed, whole, alike⟩ := alike_freed (alike_refl filled.spaces filled.free) ready bounded
    rw [← isEntry, get_paddr_frame bounded] at freeing
    change freeFrame (fillSlot machine (vaddr / 4096) 0) (frameOf entry) = .ok last at freeing
    rw [freed, Except.ok.injEq] at freeing
    subst freeing
    refine ⟨_, _, entry, ?_, ?_, alike⟩
    · rw [freePage, unmapped, Trap.ok_bind]
      dsimp only
      rw [← isEntry]
      exact whole
    · rw [← isEntry] at present
      unfold Present at present
      unfold frameOf
      omega
  · simp only [Except.ok.injEq, Prod.mk.injEq] at unmapping
    rw [unmapping.1] at stripped
    cases stripped

/-- `free_page` and the same calls behind `free_pages` come to the same exactly if the address that was
freed is taken from the list again for a page table. -/
theorem free_page_agrees_iff (calls : List FrameCall) (spaces : Spaces machine roots)
    (free : FreeList machine roots frames) (low : vaddr / 4096 < 1047552)
    (freeable : Freeable machine roots frames (backingFrame machine (vaddr / 4096)))
    (stripped : freePages machine vaddr 1 = .ok first)
    (legal : Allowed frameStep (LegalUse roots) first calls) : ∃ second, freePage machine vaddr = .ok second ∧
      (SameUses roots (follow first calls) (follow second calls) ↔ BecomesTable first 0 calls) := by
  obtain ⟨second, frame, entry, whole, differ, alike⟩ := free_page_alike spaces free low freeable stripped
  exact ⟨second, whole, @tagged_follow first second roots [] frames frame entry calls alike differ legal⟩

end Frees

section Sample

theorem sample_page_freeable :
    Freeable sampleMachine sampleRoots sampleFrames (backingFrame sampleMachine (0x401000 / 4096)) := by
  have frame : backingFrame sampleMachine (0x401000 / 4096) = 0x19000 := by decide +kernel
  rw [frame]
  refine ⟨by decide, by decide, by decide, ?_⟩
  rintro (isRoot | ⟨root, member, index, low, present, same⟩ | listed)
  · exact absurd isRoot (by decide)
  · have differ : ∀ root ∈ sampleRoots, ∀ index ∈ sampleIndices,
        frameOf (directoryEntry sampleMachine.memory root index) ≠ 0x19000 := by decide +kernel
    exact differ root member index (sample_covers root member index low present) same
  · exact absurd listed (by decide)

/-- The frame of the page comes back from `alloc_frame` with the flags of the entry. -/
theorem free_page_keeps_flags : ¬ ∀ (machine first second : Machine) (roots frames : List Nat) (vaddr : Nat)
    (calls : List FrameCall), Spaces machine roots → FreeList machine roots frames → vaddr / 4096 < 1047552 →
      Freeable machine roots frames (backingFrame machine (vaddr / 4096)) →
        freePages machine vaddr 1 = .ok first → freePage machine vaddr = .ok second →
          Allowed frameStep (LegalUse roots) first calls →
            SameUses roots (follow first calls) (follow second calls) := by
  intro always
  obtain ⟨first, stripped, _⟩ := returns_with_iff.1
    (by decide +kernel : returnsWith (freePages sampleMachine 0x401000 1) (fun _ => true) = true)
  obtain ⟨second, frame, entry, whole, differ, alike⟩ :=
    free_page_alike sample_spaces sample_free (by decide) sample_page_freeable stripped
  have legal : Allowed frameStep (LegalUse sampleRoots) first [.allocFrame] :=
    ⟨trivial, fun _ _ _ => trivial⟩
  have same := always sampleMachine first second sampleRoots sampleFrames 0x401000 [.allocFrame]
    sample_spaces sample_free (by decide) sample_page_freeable stripped whole legal
  obtain ⟨_, _, _, onTop, _⟩ :=
    (@tagged_follow first second sampleRoots [] sampleFrames frame entry _ alike differ legal).1 same
  exact absurd onTop (Nat.lt_irrefl 0)

/-- A page is mapped where there is no page table yet: the frame becomes the table. -/
theorem free_page_agrees_new_table : ∃ first second, freePages sampleMachine 0x401000 1 = .ok first ∧
    freePage sampleMachine 0x401000 = .ok second ∧
      SameUses sampleRoots (follow first [.mapPage 0x800000 0x1A000 7])
        (follow second [.mapPage 0x800000 0x1A000 7]) := by
  obtain ⟨first, stripped, passed⟩ := returns_with_iff.1
    (by decide +kernel : returnsWith (freePages sampleMachine 0x401000 1) (fun first =>
      windowPage first = 0xC0001 ∧ ¬ Present (directoryEntry first.memory first.cr3 2)) = true)
  obtain ⟨window, absent⟩ := of_decide_eq_true passed
  obtain ⟨_, _, _, _, _, alike⟩ :=
    free_page_alike sample_spaces sample_free (by decide) sample_page_freeable stripped
  obtain ⟨next, mapped⟩ := @map_page_new_table first sampleRoots 0x800000 7 0x1A000 _ _ alike.spaces alike.free
    (by decide) (window ▸ by decide) absent
  have stepped : frameStep first (.mapPage 0x800000 0x1A000 7) = .ok (.mapped false, next) := by
    rw [frameStep, mapped]
    rfl
  have legal : Allowed frameStep (LegalUse sampleRoots) first [.mapPage 0x800000 0x1A000 7] :=
    ⟨⟨by decide, by decide, by decide⟩, fun _ _ _ => trivial⟩
  obtain ⟨second, whole, agrees⟩ := free_page_agrees_iff [.mapPage 0x800000 0x1A000 7] sample_spaces
    sample_free (by decide) sample_page_freeable stripped legal
  refine ⟨first, second, stripped, whole, agrees.2 ⟨_, next, stepped, ?_⟩⟩
  dsimp only
  rw [if_neg absent]
  exact .inl rfl

end Sample

end ParadiseOS.FreePages
