import ParadiseOS.TlbSteps

/-!
# Mapping, unmapping and swapping under the TLB

`map_page` links a new page table before it clears it. While it is cleared, the TLB
may load whatever looks like an entry in it; if nothing does, no store on the way
changes a present translation.
-/

namespace ParadiseOS.TlbMaps

open FillingCache
open FrameLedger FrameSteps
open MachineWord PagingModel PagingSteps PagingMaps
open TlbModel TlbSteps
open TwoLevelPaging hiding writeAll

set_option autoImplicit false

/-- No word of the frame looks like a present entry. -/
def Blank (memory : Memory) (frame : Nat) : Prop :=
  ∀ index < 1024, ¬ Present (readWord memory (frame + 4 * index))

section Clearing

variable {cpu next : Cpu} {base machine middle : Machine} {frame index : Nat}

/-- While a linked page table is cleared: it holds no entries, and nothing else was written. -/
structure Clearing (base machine : Machine) (frame : Nat) : Prop where
  cr3 : machine.cr3 = base.cr3
  outside : ∀ other, other % 4096 = 0 → other ≠ frame → SameOn base.memory machine.memory other
  blank : Blank machine.memory frame

theorem clearing_start (blank : Blank base.memory frame) : Clearing base base frame :=
  ⟨rfl, fun _ _ _ _ _ _ => rfl, blank⟩

/-- Between two states of the clearing no translation is lost. -/
theorem clearing_keeps (aligned : base.cr3 % 4096 = 0) (apart : base.cr3 ≠ frame)
    (first : Clearing base machine frame) (second : Clearing base middle frame) :
    Keeps SelfMapPage (walks machine) (walks middle) := by
  have firstRoot := first.outside base.cr3 aligned apart
  have secondRoot := second.outside base.cr3 aligned apart
  apply keeps_of_entries (second.cr3.trans first.cr3.symm)
  intro page clean table present
  unfold SelfMapPage at clean
  have small : page / 1024 < 1024 := by omega
  rw [first.cr3] at table present ⊢
  have before := directory_entry_same_on firstRoot small
  have after := directory_entry_same_on secondRoot small
  have notFrame : frameOf (directoryEntry base.memory base.cr3 (page / 1024)) ≠ frame := by
    intro same
    rw [pageEntry, if_pos table, slot, before, same] at present
    exact first.blank (page % 1024) (by omega) present
  have firstTable := first.outside _ (frame_of_aligned _) notFrame
  have secondTable := second.outside _ (frame_of_aligned _) notFrame
  have firstEntry := page_entry_same_on firstRoot (show page < 1048576 by omega) fun _ => firstTable
  have secondEntry := page_entry_same_on secondRoot (show page < 1048576 by omega) fun _ => secondTable
  exact ⟨after.trans before.symm, secondEntry.trans firstEntry.symm⟩

/-- One more word is cleared. -/
theorem clearing_step (clearing : Clearing base machine frame) (aligned : frame % 4096 = 0)
    {position : Nat} (inside : position < 1024) :
    Clearing base
      { machine with memory := writeWord machine.memory (frame + 4 * position) 0 } frame where
  cr3 := clearing.cr3
  outside other otherAligned differ := by
    have first := clearing.outside other otherAligned differ
    have second : SameOn machine.memory (writeWord machine.memory (frame + 4 * position) 0) other :=
      write_same_on aligned otherAligned (by omega) differ
    exact fun cell low high => (second cell low high).trans (first cell low high)
  blank other otherInside := by
    by_cases same : other = position
    · rw [same, read_write_same (by decide)]
      exact not_present_zero
    · rw [read_write_aligned (by omega) (by omega) (by omega)]
      exact clearing.blank other otherInside

/-- `init_page_table` on the table that `base` has linked. -/
theorem init_page_table_fresh (count : Nat) (small : count ≤ 1024) (low : index < 1023)
    (rootAligned : base.cr3 % 4096 = 0) (apart : base.cr3 ≠ frame)
    (linked : directoryEntry base.memory base.cr3 index % 2 = 1 ∧
      frameOf (directoryEntry base.memory base.cr3 index) = frame)
    (selfMapped : SelfMapped base.memory base.cr3) (clearing : Clearing base cpu.machine frame)
    (fresh : Fresh cpu) (completed : initPageTableFrom cpu (pteAddr index 0) count = .ok next) :
    Fresh next := by
  induction count generalizing cpu with
  | zero =>
      cases completed
      exact fresh
  | succ count ih =>
      obtain ⟨cleared, storing, completed⟩ := Trap.bind_eq_ok.mp completed
      obtain ⟨machine, stored, isCleared⟩ := Trap.bind_eq_ok.mp storing
      cases isCleared
      have root := clearing.outside base.cr3 rootAligned apart
      have entry := directory_entry_same_on root (show index < 1024 by omega)
      have selfNow : SelfMapped cpu.machine.memory cpu.machine.cr3 := by
        rw [clearing.cr3]
        exact self_mapped_same_on root selfMapped
      have present : Present (directoryEntry cpu.machine.memory cpu.machine.cr3 index) := by
        rw [clearing.cr3, entry]
        exact linked.1
      have place : frameOf (directoryEntry cpu.machine.memory cpu.machine.cr3 index) = frame := by
        rw [clearing.cr3, entry, linked.2]
      have isStored := init_page_table_step selfNow low present (show 1023 - count < 1024 by omega)
      rw [place] at isStored
      have isMachine := Except.ok.inj (isStored.symm.trans stored)
      have after := clearing_step clearing (linked.2 ▸ frame_of_aligned _)
        (show 1023 - count < 1024 by omega)
      rw [isMachine] at after
      exact ih (by omega) after
        (fresh_goes_on fresh (clearing_keeps rootAligned apart clearing after)) completed

end Clearing

section Maps

variable {cpu next : Cpu} {roots frames : List Nat} {vaddr paddr flags : Nat}

/-- The state between linking a page table and clearing it. -/
def tableLinked (machine : Machine) (index entry : Nat) : Machine :=
  { machine with memory := writeWord machine.memory (machine.cr3 + 4 * index) entry }

/-- Linking a page table where there was none takes no translation away. -/
theorem table_linked_keeps {machine : Machine} {index : Nat} (spaces : Spaces machine roots) (low : index < 1023)
    (absent : ¬ Present (directoryEntry machine.memory machine.cr3 index)) (entry : Nat) :
    Keeps SelfMapPage (walks machine) (walks (tableLinked machine index entry)) := by
  have aligned := spaces.family.aligned _ spaces.member
  apply keeps_of_entries (show (tableLinked machine index entry).cr3 = machine.cr3 from rfl)
  intro page clean table _
  unfold SelfMapPage at clean
  have differ : page / 1024 ≠ index := fun same => absent (same ▸ table)
  have directory : directoryEntry (tableLinked machine index entry).memory machine.cr3 (page / 1024) =
      directoryEntry machine.memory machine.cr3 (page / 1024) :=
    read_write_aligned (by omega) (by omega) (by omega)
  refine ⟨directory, ?_⟩
  have notRoot : frameOf (directoryEntry machine.memory machine.cr3 (page / 1024)) ≠ machine.cr3 := by
    intro same
    apply spaces.family.apart _ spaces.member (page / 1024) (by omega) table
    rw [same]
    exact spaces.member
  have kept : SameOn machine.memory (writeWord machine.memory (machine.cr3 + 4 * index) entry)
      (frameOf (directoryEntry machine.memory machine.cr3 (page / 1024))) :=
    write_same_on aligned (frame_of_aligned _) (by omega) notRoot
  have word := read_word_same_on kept (show 4 * (page % 1024) + 4 ≤ 4096 by omega)
  rw [pageEntry, pageEntry, slot, slot, directory, if_pos table, if_pos table]
  exact word

/-- A page table was linked, with the words that its frame held. -/
structure Linking (machine linked : Machine) (index frame flags : Nat) : Prop where
  cr3 : linked.cr3 = machine.cr3
  own : directoryEntry linked.memory linked.cr3 index = tableEntry frame flags
  place : frameOf (tableEntry frame flags) = frame
  selfMapped : SelfMapped linked.memory linked.cr3
  words : SameOn machine.memory linked.memory frame

theorem table_linking {machine : Machine} {frame index : Nat} {rest : List Nat} (spaces : Spaces machine roots)
    (free : FreeList machine roots (frame :: rest)) (low : index < 1023) :
    Linking machine (tableLinked (popped machine frame) index (tableEntry frame flags)) index frame flags := by
  have takenSpaces : Spaces (popped machine frame) roots := spaces_pop spaces frame _ _
  have aligned : frame % 4096 = 0 := free.aligned frame List.mem_cons_self
  have bounded : frame < 4294967296 := free.bounded frame List.mem_cons_self
  have rootAligned := spaces.family.aligned _ spaces.member
  have apart : machine.cr3 ≠ frame := fun same => free.notRoot frame List.mem_cons_self (same ▸ spaces.member)
  refine ⟨rfl, read_write_same (create_entry_lt bounded (table_flags_lt flags)), table_entry_of flags aligned bounded,
    ?_, ?_⟩
  · have kept : readWord (writeWord (popped machine frame).memory (machine.cr3 + 4 * index)
        (tableEntry frame flags)) (machine.cr3 + 4 * 1023) =
          readWord (popped machine frame).memory (machine.cr3 + 4 * 1023) :=
      read_write_aligned (by omega) (by omega) (by omega)
    have before : Present (readWord (popped machine frame).memory (machine.cr3 + 4 * 1023)) ∧
      frameOf (readWord (popped machine frame).memory (machine.cr3 + 4 * 1023)) = machine.cr3 := takenSpaces.selfMapped
    rw [← kept] at before
    exact before
  · have popping : SameOn machine.memory (popped machine frame).memory frame :=
      window_not_frame spaces free List.mem_cons_self _
    have writing : SameOn (popped machine frame).memory (writeWord (popped machine frame).memory
        (machine.cr3 + 4 * index) (tableEntry frame flags)) frame :=
      write_same_on rootAligned aligned (by omega) apart.symm
    exact fun cell low high => (writing cell low high).trans (popping cell low high)

/-- Where there is no page table, `map_page` takes the top frame and links it before it clears it. -/
theorem make_page_table_links {index : Nat} (spaces : Spaces cpu.machine roots)
    (free : FreeList cpu.machine roots frames) (low : index < 1023)
    (absent : ¬ Present (directoryEntry cpu.machine.memory cpu.machine.cr3 index))
    (completed : makePageTable cpu index flags = .ok next) :
    ∃ frame rest taken, frames = frame :: rest ∧ allocFrame cpu = .ok (frame, taken) ∧
      taken.machine = popped cpu.machine frame ∧
      initPageTable (taken.goesOn (tableLinked (popped cpu.machine frame) index (tableEntry frame flags)))
        (pteAddr index 0) = .ok next := by
  obtain ⟨directory, reading, completed⟩ := Trap.bind_eq_ok.mp completed
  rw [pde_ok spaces.selfMapped (by omega), Except.ok.injEq] at reading
  subst reading
  rw [if_pos (mt (entry_present_iff _).1 absent)] at completed
  obtain ⟨⟨frame, taken⟩, allocating, completed⟩ := Trap.bind_eq_ok.mp completed
  obtain ⟨linked, linking, completed⟩ := Trap.bind_eq_ok.mp completed
  obtain ⟨machine, stored, isLinked⟩ := Trap.bind_eq_ok.mp linking
  cases isLinked
  obtain ⟨isTaken, rest, isFrames⟩ := alloc_frame_popped spaces free allocating
  have takenSpaces : Spaces taken.machine roots := isTaken ▸ spaces_pop spaces frame _ _
  have isStored : PagingModel.setPde taken.machine index (tableEntry frame flags) =
      .ok (tableLinked taken.machine index (tableEntry frame flags)) :=
    set_pde_ok takenSpaces.selfMapped (by omega)
  have isMachine := Except.ok.inj (isStored.symm.trans stored)
  rw [← isMachine, isTaken] at completed
  exact ⟨frame, rest, taken, isFrames, allocating, isTaken, completed⟩

/-- `map_page` makes a page table, if there is none, out of a blank frame. -/
theorem make_page_table_fresh {index : Nat} (spaces : Spaces cpu.machine roots)
    (free : FreeList cpu.machine roots frames) (fresh : Fresh cpu) (low : index < 1023)
    (blank : Present (directoryEntry cpu.machine.memory cpu.machine.cr3 index) ∨
      Blank cpu.machine.memory cpu.machine.freeFramePaddr)
    (completed : makePageTable cpu index flags = .ok next) : Fresh next := by
  by_cases present : Present (directoryEntry cpu.machine.memory cpu.machine.cr3 index)
  · obtain ⟨directory, reading, completed⟩ := Trap.bind_eq_ok.mp completed
    rw [pde_ok spaces.selfMapped (by omega), Except.ok.injEq] at reading
    subst reading
    rw [if_neg (not_not.mpr ((entry_present_iff _).2 present))] at completed
    cases completed
    exact fresh
  · obtain ⟨frame, rest, taken, isFrames, allocating, isTaken, clearing⟩ :=
      make_page_table_links spaces free low present completed
    subst isFrames
    have takenFresh := (alloc_frame_fresh spaces free fresh allocating).1
    have absent : ¬ Present (directoryEntry (popped cpu.machine frame).memory (popped cpu.machine frame).cr3
        index) := by
      change ¬ Present (directoryEntry (popped cpu.machine frame).memory cpu.machine.cr3 index)
      rw [popped_directory spaces frame spaces.member (by omega)]
      exact present
    have keeps := table_linked_keeps (spaces_pop spaces frame (readWord cpu.machine.memory frame)
      (u32 (cpu.machine.usedFrames + 1))) low absent (tableEntry frame flags)
    have linking := @table_linking roots flags cpu.machine frame index rest spaces free low
    obtain ⟨linked, isLinked⟩ : ∃ linked, linked = tableLinked (popped cpu.machine frame) index
        (tableEntry frame flags) := ⟨_, rfl⟩
    rw [← isLinked] at linking clearing
    have isTop : cpu.machine.freeFramePaddr = frame := free.linked.1
    have clean : Blank linked.memory frame := by
      intro position inside
      rw [read_word_same_on linking.words (by omega)]
      exact isTop ▸ blank.resolve_left present position inside
    have linkedFresh : Fresh (taken.goesOn linked) := by
      apply fresh_goes_on takenFresh
      rw [isTaken, isLinked]
      exact keeps
    have isRoot := linking.cr3
    refine init_page_table_fresh 1024 (le_refl _) low ?_ ?_ ⟨?_, ?_⟩ linking.selfMapped (clearing_start clean)
      linkedFresh clearing
    · rw [isRoot]
      exact spaces.family.aligned _ spaces.member
    · rw [isRoot]
      exact fun same => free.notRoot frame List.mem_cons_self (same ▸ spaces.member)
    · rw [linking.own]
      exact create_entry_present _ _
    · rw [linking.own]
      exact linking.place

theorem make_page_table_kept {machine made : Machine} {index : Nat} (spaces : Spaces machine roots)
    (free : FreeList machine roots frames) (low : index < 1023)
    (completed : PagingModel.makePageTable machine index flags = .ok made) :
    (∃ rest, Kept machine made roots frames rest) ∧ Present (directoryEntry made.memory made.cr3 index) := by
  by_cases present : Present (directoryEntry machine.memory machine.cr3 index)
  · rw [PagingModel.makePageTable, pde_ok spaces.selfMapped (by omega), Trap.ok_bind,
      if_neg (not_not.mpr ((entry_present_iff _).2 present))] at completed
    cases completed
    exact ⟨⟨frames, kept_refl spaces free⟩, present⟩
  · cases frames with
    | nil =>
        rw [PagingModel.makePageTable, pde_ok spaces.selfMapped (by omega), Trap.ok_bind,
          if_pos (mt (entry_present_iff _).1 present), alloc_frame_empty free.linked] at completed
        cases completed
    | cons frame rest =>
        rw [make_page_table_ok flags spaces free low present, Except.ok.injEq] at completed
        subst completed
        have own := with_table_directory flags spaces free low present spaces.member
          (show index < 1024 by omega)
        rw [if_pos ⟨rfl, rfl⟩] at own
        refine ⟨⟨rest, kept_with_table flags spaces free low present⟩, ?_⟩
        change Present (directoryEntry _ machine.cr3 index)
        rw [own]
        exact create_entry_present _ _

theorem map_page_fresh {mapped : Bool} (spaces : Spaces cpu.machine roots)
    (free : FreeList cpu.machine roots frames) (fresh : Fresh cpu) (low : vaddr / 4096 < 1047552)
    (address : paddr < 4294967296) (small : flags < 4096)
    (blank : Present (directoryEntry cpu.machine.memory cpu.machine.cr3 (vaddr / 4096 / 1024)) ∨
      Blank cpu.machine.memory cpu.machine.freeFramePaddr)
    (completed : mapPage cpu vaddr paddr flags = .ok (mapped, next)) : Fresh next := by
  obtain ⟨made, making, completed⟩ := Trap.bind_eq_ok.mp completed
  rw [get_pd_index_page] at making
  have madeFresh := make_page_table_fresh spaces free fresh (by omega) blank making
  obtain ⟨⟨rest, kept⟩, table⟩ := make_page_table_kept spaces free (by omega)
    (erases_eq_ok (make_page_table_erases cpu _ _) making)
  obtain ⟨directory, _, completed⟩ := Trap.bind_eq_ok.mp completed
  obtain ⟨_, _, completed⟩ := Trap.bind_eq_ok.mp completed
  obtain ⟨entry, reading, completed⟩ := Trap.bind_eq_ok.mp completed
  rw [get_pd_index_page, get_pt_index_page, pte_ok kept.spaces.selfMapped (by omega) table,
    Except.ok.injEq] at reading
  have isEntry : pageEntry made.machine.memory made.machine.cr3 (vaddr / 4096) = entry := by
    rw [pageEntry, if_pos table, reading]
  split_ifs at completed with present
  · cases completed
    exact madeFresh
  · obtain ⟨filled, filling, completed⟩ := Trap.bind_eq_ok.mp completed
    cases completed
    obtain ⟨machine, stored, isFilled⟩ := Trap.bind_eq_ok.mp filling
    cases isFilled
    have absent : ¬ Present (pageEntry made.machine.memory made.machine.cr3 (vaddr / 4096)) := by
      rw [isEntry]
      exact mt (entry_present_iff entry).2 present
    have isStored : PagingModel.setPte made.machine (vaddr / 4096 / 1024) (vaddr / 4096 % 1024)
        (createEntry paddr flags) = .ok (fillSlot made.machine (vaddr / 4096) (createEntry paddr flags)) :=
      set_pte_ok kept.spaces.selfMapped (by omega) table
    rw [get_pd_index_page, get_pt_index_page] at stored
    have isMachine := Except.ok.inj (isStored.symm.trans stored)
    rw [← isMachine]
    exact fresh_goes_on madeFresh
      (fill_absent_keeps kept.spaces low table absent (create_entry_lt address small))

/-- A store fills the TLB and takes nothing out of it. -/
theorem init_page_table_grows {table page : Nat} {translation : Translation} (count : Nat)
    (held : cpu.cached page translation) (completed : initPageTableFrom cpu table count = .ok next) :
    next.cached page translation := by
  induction count generalizing cpu with
  | zero =>
      cases completed
      exact held
  | succ count ih =>
      obtain ⟨cleared, storing, completed⟩ := Trap.bind_eq_ok.mp completed
      refine ih ?_ completed
      rw [(store_word_cached storing).2]
      exact .inl held

theorem map_page_grows {mapped : Bool} {made : Cpu} {page : Nat} {translation : Translation}
    (making : makePageTable cpu (getPdIndex vaddr) flags = .ok made) (held : made.cached page translation)
    (completed : mapPage cpu vaddr paddr flags = .ok (mapped, next)) : next.cached page translation := by
  obtain ⟨again, same, completed⟩ := Trap.bind_eq_ok.mp completed
  cases making.symm.trans same
  obtain ⟨_, _, completed⟩ := Trap.bind_eq_ok.mp completed
  obtain ⟨_, _, completed⟩ := Trap.bind_eq_ok.mp completed
  obtain ⟨_, _, completed⟩ := Trap.bind_eq_ok.mp completed
  split_ifs at completed
  · cases completed
    exact held
  · obtain ⟨filled, filling, completed⟩ := Trap.bind_eq_ok.mp completed
    cases completed
    rw [(store_word_cached filling).2]
    exact .inl held

/-- A frame with a word that looks like an entry leaves a stale translation when it becomes a page table: the TLB
may load the word before it is cleared. -/
theorem map_page_stale {mapped : Bool} {frame page : Nat} {rest : List Nat} (spaces : Spaces cpu.machine roots)
    (free : FreeList cpu.machine roots (frame :: rest)) (low : vaddr / 4096 < 1047552) (address : paddr < 4294967296)
    (small : flags < 4096)
    (absent : ¬ Present (directoryEntry cpu.machine.memory cpu.machine.cr3 (vaddr / 4096 / 1024)))
    (beside : page / 1024 = vaddr / 4096 / 1024) (differ : page ≠ vaddr / 4096)
    (dirty : Present (readWord cpu.machine.memory (frame + 4 * (page % 1024))))
    (completed : mapPage cpu vaddr paddr flags = .ok (mapped, next)) :
    ¬ Coherent SelfMapPage next.cached (walks next.machine) := by
  have notWindow : ∀ other, other / 1024 = vaddr / 4096 / 1024 → other ≠ windowPage cpu.machine := by
    rintro other same rfl
    exact absent (same ▸ spaces.windowTable)
  have clean : ¬ SelfMapPage page := by
    unfold SelfMapPage
    omega
  obtain ⟨made, making, _⟩ := Trap.bind_eq_ok.mp completed
  have again := making
  rw [get_pd_index_page] at making
  obtain ⟨_, _, taken, isFrames, _, _, clearing⟩ := make_page_table_links spaces free (by omega) absent making
  cases isFrames
  have linking := @table_linking roots flags cpu.machine frame (vaddr / 4096 / 1024) rest spaces free (by omega)
  obtain ⟨linked, isLinked⟩ : ∃ linked, linked = tableLinked (popped cpu.machine frame) (vaddr / 4096 / 1024)
      (tableEntry frame flags) := ⟨_, rfl⟩
  rw [← isLinked] at linking clearing
  -- the table is entered and the word is still there
  have table : directoryEntry linked.memory linked.cr3 (page / 1024) = tableEntry frame flags := beside ▸ linking.own
  have present : Present (tableEntry frame flags) := create_entry_present _ _
  have word : pageEntry linked.memory linked.cr3 page = readWord cpu.machine.memory (frame + 4 * (page % 1024)) := by
    rw [pageEntry, slot, table, if_pos present, linking.place]
    exact read_word_same_on linking.words (by omega)
  have seen : walks linked page ⟨tableEntry frame flags, readWord cpu.machine.memory (frame + 4 * (page % 1024))⟩ :=
    ⟨table, word, present, dirty⟩
  have loaded : (taken.goesOn linked).cached page
      ⟨tableEntry frame flags, readWord cpu.machine.memory (frame + 4 * (page % 1024))⟩ := Or.inr seen
  have held := map_page_grows again (init_page_table_grows 1024 loaded clearing) completed
  apply not_coherent_of_stale clean held
  rintro ⟨_, entry, _, there⟩
  -- afterwards the page is not mapped
  have plain := erases_eq_ok (map_page_erases cpu vaddr paddr flags) completed
  rcases map_page_ok spaces free low (notWindow _ rfl) address small plain with ⟨_, _, old⟩ | ⟨_, _, done⟩
  · exact absent (page_entry_present old)
  · have same := done.entries _ spaces.member page (by omega) (notWindow page beside)
    rw [if_neg (fun both => differ both.1)] at same
    have cr3 : next.machine.cr3 = cpu.machine.cr3 := kept_cr3 done.kept
    rw [← entry, cr3] at there
    change Present (pageEntry next.machine.memory cpu.machine.cr3 page) at there
    rw [show pageEntry next.machine.memory cpu.machine.cr3 page = _ from same] at there
    exact absent (beside ▸ page_entry_present there)

/-- What `map_page` does to the paging structures, also at the window, which is mapped. -/
theorem map_page_kept {machine after : Machine} {mapped : Bool} (spaces : Spaces machine roots)
    (free : FreeList machine roots frames) (low : vaddr / 4096 < 1047552)
    (address : paddr < 4294967296) (small : flags < 4096)
    (completed : PagingModel.mapPage machine vaddr paddr flags = .ok (mapped, after)) :
    ∃ rest, Kept machine after roots frames rest := by
  by_cases window : vaddr / 4096 = windowPage machine
  · have present := window_present free
    rw [map_page_table spaces.selfMapped (by omega) (window.symm ▸ page_entry_present present)] at completed
    split_ifs at completed with _ there
    · cases completed
      exact ⟨frames, kept_refl spaces free⟩
    · exact absurd (window.symm ▸ present) there
  · rcases map_page_ok spaces free low window address small completed with ⟨_, same, _⟩ | ⟨_, rest, done⟩
    · rw [same]
      exact ⟨frames, kept_refl spaces free⟩
    · exact ⟨rest, done.kept⟩

end Maps

section Unmaps

variable {cpu next : Cpu} {roots frames : List Nat} {vaddr entry : Nat} {dirty : Nat → Prop}

/-- `flush_entry_info` makes its page dirty. -/
theorem flush_entry_info_fresh (spaces : Spaces cpu.machine roots) (free : FreeList cpu.machine roots frames)
    (low : vaddr / 4096 < 1047552) (notWindow : vaddr / 4096 ≠ windowPage cpu.machine)
    (bounded : entry < 4294967296) (fresh : FreshBut dirty cpu)
    (completed : flushEntryInfo cpu vaddr entry = .ok next) :
    next.machine = fillSlot cpu.machine (vaddr / 4096) entry ∧
      Kept cpu.machine next.machine roots frames frames ∧
      FreshBut (fun page => page = vaddr / 4096 ∨ dirty page) next := by
  obtain ⟨directory, reading, completed⟩ := Trap.bind_eq_ok.mp completed
  obtain ⟨_, tablePresent, completed⟩ := Trap.bind_eq_ok.mp completed
  obtain ⟨old, _, completed⟩ := Trap.bind_eq_ok.mp completed
  obtain ⟨_, _, completed⟩ := Trap.bind_eq_ok.mp completed
  obtain ⟨machine, stored, isNext⟩ := Trap.bind_eq_ok.mp completed
  cases isNext
  rw [get_pd_index_page, pde_ok spaces.selfMapped (by omega), Except.ok.injEq] at reading
  subst reading
  rw [Trap.kernel_assert_eq_ok] at tablePresent
  have table := (entry_present_iff _).1 tablePresent
  have isStored : PagingModel.setPte cpu.machine (vaddr / 4096 / 1024) (vaddr / 4096 % 1024) entry =
      .ok (fillSlot cpu.machine (vaddr / 4096) entry) := set_pte_ok spaces.selfMapped (by omega) table
  rw [get_pd_index_page, get_pt_index_page] at stored
  have isMachine := Except.ok.inj (isStored.symm.trans stored)
  subst isMachine
  refine ⟨rfl, kept_fill_slot spaces free low table bounded notWindow, ?_⟩
  apply fresh_but_goes_on
  · apply coherent_mono fresh
    rintro page (selfMap | isDirty)
    · exact .inl selfMap
    · exact .inr (.inr isDirty)
  · apply keeps_mono (fill_slot_keeps spaces low table bounded)
    rintro page (selfMap | here)
    · exact .inl selfMap
    · exact .inr (.inl here)

theorem unmap_page_fresh {removed : Option Nat} (spaces : Spaces cpu.machine roots)
    (free : FreeList cpu.machine roots frames) (low : vaddr / 4096 < 1047552)
    (notWindow : vaddr / 4096 ≠ windowPage cpu.machine) (fresh : Fresh cpu)
    (completed : unmapPage cpu vaddr = .ok (removed, next)) :
    Kept cpu.machine next.machine roots frames frames ∧ Fresh next := by
  obtain ⟨entry, _, completed⟩ := Trap.bind_eq_ok.mp completed
  split_ifs at completed with present
  · obtain ⟨flushed, flushing, completed⟩ := Trap.bind_eq_ok.mp completed
    cases completed
    have started : FreshBut (fun _ => False) cpu := fresh_but_of_fresh fresh
    obtain ⟨_, kept, flushedFresh⟩ :=
      flush_entry_info_fresh spaces free low notWindow (by decide) started flushing
    refine ⟨kept, fresh_invalidate_last (coherent_mono flushedFresh ?_)⟩
    rintro page (selfMap | here | impossible)
    · exact .inl selfMap
    · exact .inr here
    · exact impossible.elim
  · cases completed
    exact ⟨kept_refl spaces free, fresh⟩

theorem set_paddr_lt {paddr : Nat} (address : paddr < 4294967296) : setPaddr entry paddr < 4294967296 := by
  have flags : getFlags entry < 2 ^ 32 := by
    rw [get_flags_mod]
    exact lt_of_lt_of_le (Nat.mod_lt _ (by decide)) (by decide)
  exact Nat.or_lt_two_pow flags address

theorem swap_page_frames_fresh {other : Nat} (spaces : Spaces cpu.machine roots)
    (free : FreeList cpu.machine roots frames) (low : vaddr / 4096 < 1047552)
    (notWindow : vaddr / 4096 ≠ windowPage cpu.machine) (otherLow : other / 4096 < 1047552)
    (otherNotWindow : other / 4096 ≠ windowPage cpu.machine) (fresh : Fresh cpu)
    (completed : swapPageFrames cpu vaddr other = .ok next) :
    Kept cpu.machine next.machine roots frames frames ∧ Fresh next := by
  obtain ⟨entry1, reading1, completed⟩ := Trap.bind_eq_ok.mp completed
  obtain ⟨entry2, reading2, completed⟩ := Trap.bind_eq_ok.mp completed
  obtain ⟨first, flushing1, completed⟩ := Trap.bind_eq_ok.mp completed
  obtain ⟨second, flushing2, completed⟩ := Trap.bind_eq_ok.mp completed
  cases completed
  rw [get_entry_ok spaces.selfMapped (by omega), Except.ok.injEq] at reading1 reading2
  have bound1 : getPaddr entry1 < 4294967296 := by
    rw [← reading1, get_paddr_frame (page_entry_lt _ _ _)]
    exact lt_of_lt_of_le (frame_of_lt (page_entry_lt _ _ _)) (by decide)
  have bound2 : getPaddr entry2 < 4294967296 := by
    rw [← reading2, get_paddr_frame (page_entry_lt _ _ _)]
    exact lt_of_lt_of_le (frame_of_lt (page_entry_lt _ _ _)) (by decide)
  have started : FreshBut (fun _ => False) cpu := fresh_but_of_fresh fresh
  obtain ⟨_, kept, firstFresh⟩ :=
    flush_entry_info_fresh spaces free low notWindow (set_paddr_lt bound2) started flushing1
  have window := kept_window kept
  obtain ⟨_, keptAgain, secondFresh⟩ := flush_entry_info_fresh kept.spaces kept.free otherLow
    (window.symm ▸ otherNotWindow) (set_paddr_lt bound1) firstFresh flushing2
  refine ⟨kept_trans kept keptAgain, fresh_invalidate_last (fresh_invalidate (coherent_mono secondFresh ?_))⟩
  rintro page (selfMap | here | there | impossible)
  · exact .inl selfMap
  · exact .inr (.inl here)
  · exact .inr (.inr there)
  · exact impossible.elim

end Unmaps

end ParadiseOS.TlbMaps
