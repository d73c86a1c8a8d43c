import ParadiseOS.BootTables
import ParadiseOS.PagingChecks

/-!
# Collecting the kernel's frames

`init_frames` gives a fifth of every region of memory to the kernel, and puts the frames
that begin in it on the free list. The last of them ends behind the fifth when that is
not a whole number of pages, and the loop over a region that ends in the last page of
the address space does not end.
-/

namespace ParadiseOS.BootFrames

open BootModel BootTables MachineWord PagingModel PagingSteps TwoLevelPaging
open ProcessModel (alignNextPage)

set_option autoImplicit false

section Statement

/-- The address lies in the region of the entry. -/
def Holds (entry : MMapEntry) (addr : Nat) : Prop :=
  entry.baseAddrLo ≤ addr ∧ addr < entry.baseAddrLo + entry.lengthLo

/-- The entries lie below 4 GiB and have no address in common. -/
structure SoundMap (mmap : List MMapEntry) : Prop where
  words : ∀ entry ∈ mmap, entry.baseAddrLo < 4294967296
  fits : ∀ entry ∈ mmap, entry.baseAddrLo + entry.lengthLo ≤ 4294967296
  apart : mmap.Pairwise fun first second => ∀ addr, Holds first addr → ¬ Holds second addr

/-- Where the kernel's part of an entry begins: behind the kernel if the entry starts with it. -/
def kernelFrom (image : Image) (entry : MMapEntry) : Nat :=
  if entry.baseAddrLo = kernelStartPaddr then image.endPaddr else entry.baseAddrLo

def kernelTo (entry : MMapEntry) : Nat := entry.baseAddrLo + entry.lengthLo / 5

/-- A frame that lies entirely inside the kernel's part of an available entry. -/
def IsKernelFrame (image : Image) (mmap : List MMapEntry) (frame : Nat) : Prop :=
  frame % 4096 = 0 ∧ ∃ entry ∈ mmap, entry.Available ∧ kernelFrom image entry ≤ frame ∧
    frame + 4096 ≤ kernelTo entry

/-- The free list has the kernel's frames once each, and they are counted. -/
def CollectsFrames (image : Image) (mmap : List MMapEntry) (machine : Machine) : Prop :=
  ∃ frames, Linked machine.memory machine.freeFramePaddr frames ∧ frames.Nodup ∧
    (∀ frame, frame ∈ frames ↔ IsKernelFrame image mmap frame) ∧
    machine.totalFrames = frames.length ∧ machine.usedFrames = 0

/-- No frame sticks out of the kernel's part of the entry: it ends with a page, or no frame begins
in it and it ends before the last page below 4 GiB. -/
def EndsWithFrame (image : Image) (entry : MMapEntry) : Prop :=
  kernelTo entry % 4096 = 0 ∨
    (kernelTo entry ≤ (kernelFrom image entry + 4095) / 4096 * 4096 ∧ kernelTo entry ≤ 0xFFFFF000)

end Statement

section Window

/-- What the boot directory offers to `free_frame`: the window has a slot in another frame, and
neither it nor the entries that lead to it are the first word of a frame. -/
structure Window (machine : Machine) : Prop where
  selfMapped : SelfMapped machine.memory machine.cr3
  aligned : machine.cr3 % 4096 = 0
  headAligned : machine.freeListHead % 4096 = 0
  headLow : machine.freeListHead < 0xFFC00000
  headPte : machine.freeListHeadPte = 0xFFC00000 + 4 * windowPage machine
  table : Present (directoryEntry machine.memory machine.cr3 (windowPage machine / 1024))
  apart : frameOf (directoryEntry machine.memory machine.cr3 (windowPage machine / 1024)) ≠ machine.cr3
  notFirst : windowPage machine / 1024 ≠ 0 ∧ windowPage machine % 1024 ≠ 0

variable {machine next : Machine} {frame : Nat}

/-- The slot of the window. -/
def windowSlot (machine : Machine) : Nat := slot machine.memory machine.cr3 (windowPage machine)

theorem window_slot_aligned (window : Window machine) :
    windowSlot machine % 4 = 0 ∧ windowSlot machine % 4096 ≠ 0 := by
  have notFirst := window.notFirst.2
  unfold windowSlot slot frameOf
  omega

/-- Entries of the directory behind the first stay when a frame is pushed. -/
theorem push_directory (window : Window machine) (aligned : frame % 4096 = 0) {index : Nat}
    (low : index < 1024) (notFirst : index ≠ 0) :
    directoryEntry (pushMemory machine frame) machine.cr3 index =
      directoryEntry machine.memory machine.cr3 index := by
  have cr3 := window.aligned
  have same : SameOn machine.memory (writeWord machine.memory (windowSlot machine)
      (createEntry frame pteWritable)) machine.cr3 :=
    write_same_on (frame_of_aligned _) cr3 (by omega) window.apart.symm
  rw [directoryEntry, pushMemory, read_write_aligned (by omega) (by omega) (by omega)]
  exact directory_entry_same_on same low

theorem free_frame_window (window : Window machine) (aligned : frame % 4096 = 0)
    (bounded : frame < 4294967296) : freeFrame machine frame = .ok { machine with
      memory := pushMemory machine frame
      freeFramePaddr := frame
      usedFrames := sub32 machine.usedFrames 1 } := by
  have headAligned := window.headAligned
  have headLow := window.headLow
  have small := create_entry_lt bounded (by decide : pteWritable < 4096)
  have isPage : windowPage machine < 1047552 := by
    unfold windowPage
    omega
  have place : translate machine.memory machine.cr3 machine.freeListHeadPte = some (windowSlot machine) := by
    rw [window.headPte]
    exact translate_self_map window.selfMapped (by omega) window.table
  have marked : storeWord { machine with usedFrames := sub32 machine.usedFrames 1 }
      machine.freeListHeadPte (createEntry frame pteWritable) = .ok { machine with
        usedFrames := sub32 machine.usedFrames 1
        memory := writeWord machine.memory (windowSlot machine) (createEntry frame pteWritable) } := by
    have headPte := window.headPte
    exact store_word_at place (by omega) (by omega)
  have same : SameOn machine.memory (writeWord machine.memory (windowSlot machine)
      (createEntry frame pteWritable)) machine.cr3 :=
    write_same_on (frame_of_aligned _) window.aligned (by omega) window.apart.symm
  have table := directory_entry_same_on same (show windowPage machine / 1024 < 1024 by omega)
  have entry : pageEntry (writeWord machine.memory (windowSlot machine)
      (createEntry frame pteWritable)) machine.cr3 (machine.freeListHead / 4096) =
      createEntry frame pteWritable := by
    have isSlot : slot (writeWord machine.memory (windowSlot machine) (createEntry frame pteWritable))
        machine.cr3 (machine.freeListHead / 4096) = windowSlot machine := by
      rw [slot]
      change frameOf (directoryEntry _ machine.cr3 (windowPage machine / 1024)) + _ = _
      rw [table]
      rfl
    rw [pageEntry, isSlot, if_pos (by
      change Present (directoryEntry _ machine.cr3 (windowPage machine / 1024))
      rw [table]
      exact window.table)]
    exact read_write_same small
  have found : translate (writeWord machine.memory (windowSlot machine) (createEntry frame pteWritable))
      machine.cr3 machine.freeListHead = some frame := by
    rw [translate_page (by rw [entry]; exact create_entry_present _ _), entry,
      create_entry_frame bounded (by decide), headAligned, frameOf]
    congr 1
    omega
  have stored : storeWord { machine with
      usedFrames := sub32 machine.usedFrames 1
      memory := writeWord machine.memory (windowSlot machine) (createEntry frame pteWritable) }
      machine.freeListHead machine.freeFramePaddr =
      .ok { machine with
        usedFrames := sub32 machine.usedFrames 1
        memory := pushMemory machine frame } :=
    store_word_at found (by omega) (by omega)
  change (storeWord _ machine.freeListHeadPte (createEntry frame pteWritable) >>= _) = _
  rw [marked, Trap.ok_bind]
  change (storeWord _ machine.freeListHead machine.freeFramePaddr >>= _) = _
  rw [stored]
  rfl

end Window

section Collecting

variable {machine next after : Machine} {frames : List Nat} {frame : Nat}

/-- Since `machine`, whose list was empty, the frames were put on the list, the last first. -/
structure Collected (machine next : Machine) (frames : List Nat) : Prop where
  globals : next = { machine with
    memory := next.memory
    freeFramePaddr := next.freeFramePaddr
    usedFrames := next.usedFrames
    totalFrames := next.totalFrames }
  window : Window next
  place : windowSlot next = windowSlot machine
  words : ∀ addr, addr % 4 = 0 → addr ∉ frames → addr ≠ windowSlot machine →
    readWord next.memory addr = readWord machine.memory addr
  linked : Linked next.memory next.freeFramePaddr frames
  shown : frames ≠ [] → readWord next.memory (windowSlot machine) = createEntry next.freeFramePaddr pteWritable
  nodup : frames.Nodup
  aligned : ∀ frame ∈ frames, frame % 4096 = 0
  bounded : ∀ frame ∈ frames, 0 < frame ∧ frame < 4294967296
  total : next.totalFrames = u32 frames.length
  used : next.usedFrames = 0

theorem collected_none (window : Window machine) (empty : machine.freeFramePaddr = 0)
    (total : machine.totalFrames = 0) (used : machine.usedFrames = 0) : Collected machine machine [] :=
  ⟨rfl, window, rfl, fun _ _ _ _ => rfl, empty, fun nonempty => absurd rfl nonempty, List.nodup_nil,
    List.forall_mem_nil _, List.forall_mem_nil _, total, used⟩

/-- The words of a list are not the ones that pushing another frame writes. -/
theorem push_words (window : Window machine) (aligned : frame % 4096 = 0) {addr : Nat}
    (addrAligned : addr % 4 = 0) (notFrame : addr ≠ frame) (notSlot : addr ≠ windowSlot machine) :
    readWord (pushMemory machine frame) addr = readWord machine.memory addr := by
  have place := (window_slot_aligned window).1
  rw [pushMemory, read_write_aligned (by omega) addrAligned notFrame]
  exact read_write_aligned place addrAligned notSlot

theorem linked_words {memory changed : Memory} {head : Nat} (linked : Linked memory head frames)
    (same : ∀ frame ∈ frames, readWord changed frame = readWord memory frame) :
    Linked changed head frames := by
  induction frames generalizing head with
  | nil => exact linked
  | cons frame frames ih =>
      refine ⟨linked.1, ?_⟩
      rw [same frame List.mem_cons_self]
      exact ih linked.2 fun other member => same other (List.mem_cons_of_mem _ member)

theorem push_window (window : Window machine) (aligned : frame % 4096 = 0) (used total : Nat) :
    Window { machine with
      memory := pushMemory machine frame
      freeFramePaddr := frame
      usedFrames := used
      totalFrames := total } := by
  have headLow := window.headLow
  have notFirst := window.notFirst
  have isPage : windowPage machine < 1047552 := by
    unfold windowPage
    omega
  have last := push_directory window aligned (show 1023 < 1024 by decide) (by decide)
  have table := push_directory window aligned (show windowPage machine / 1024 < 1024 by omega) notFirst.1
  refine ⟨?_, window.aligned, window.headAligned, headLow, window.headPte, ?_, ?_, notFirst⟩
  · change Present _ ∧ frameOf _ = _
    rw [last]
    exact window.selfMapped
  · change Present (directoryEntry (pushMemory machine frame) machine.cr3 (windowPage machine / 1024))
    rw [table]
    exact window.table
  · change frameOf (directoryEntry (pushMemory machine frame) machine.cr3 (windowPage machine / 1024)) ≠ _
    rw [table]
    exact window.apart

/-- The body of the loop: a frame is counted as used and freed. -/
theorem collect_step (collected : Collected machine next frames) (aligned : frame % 4096 = 0)
    (positive : 0 < frame) (bounded : frame < 4294967296) (fresh : frame ∉ frames) :
    ∃ after, freeFrame { next with
        totalFrames := u32 (next.totalFrames + 1)
        usedFrames := u32 (next.usedFrames + 1) } frame = .ok after ∧
      Collected machine after (frame :: frames) := by
  have window := collected.window
  have counted : Window { next with
      totalFrames := u32 (next.totalFrames + 1)
      usedFrames := u32 (next.usedFrames + 1) } :=
    ⟨window.selfMapped, window.aligned, window.headAligned, window.headLow, window.headPte,
      window.table, window.apart, window.notFirst⟩
  have freed := free_frame_window counted aligned bounded
  dsimp only at freed
  have usedAgain : sub32 (u32 (next.usedFrames + 1)) 1 = 0 := by
    rw [collected.used]
    rfl
  rw [usedAgain] at freed
  have small := create_entry_lt bounded (by decide : pteWritable < 4096)
  have slotAligned := window_slot_aligned window
  have headLow := window.headLow
  have isPage : windowPage next < 1047552 := by
    unfold windowPage
    omega
  have table := push_directory window aligned (show windowPage next / 1024 < 1024 by omega)
    window.notFirst.1
  have word : next.freeFramePaddr < 4294967296 := by
    cases frames with
    | nil => exact collected.linked ▸ (by decide : 0 < 4294967296)
    | cons top rest => exact collected.linked.1 ▸ (collected.bounded top List.mem_cons_self).2
  have top : readWord (pushMemory next frame) frame = next.freeFramePaddr := read_write_same word
  have place := collected.place
  refine ⟨_, freed, ?_⟩
  refine ⟨?_, push_window window aligned _ _, ?_, ?_, ?_, ?_, ?_, ?_, ?_, ?_, rfl⟩
  · rw [collected.globals]
  · rw [← place]
    change frameOf (directoryEntry (pushMemory next frame) next.cr3 (windowPage next / 1024)) + _ = _
    rw [table]
    rfl
  · intro addr addrAligned notMember notSlot
    rw [List.mem_cons, not_or] at notMember
    rw [← place] at notSlot
    have kept := push_words window aligned addrAligned notMember.1 notSlot
    rw [place] at notSlot
    exact kept.trans (collected.words addr addrAligned notMember.2 notSlot)
  · refine ⟨rfl, ?_⟩
    change Linked (pushMemory next frame) (readWord (pushMemory next frame) frame) frames
    rw [top]
    apply linked_words collected.linked
    intro other member
    have otherAligned := collected.aligned other member
    apply push_words window aligned (by omega)
    · rintro rfl
      exact fresh member
    · omega
  · intro _
    change readWord (pushMemory next frame) (windowSlot machine) = _
    rw [← place, pushMemory, read_write_aligned (by omega) slotAligned.1 (by omega)]
    exact read_write_same small
  · exact List.nodup_cons.2 ⟨fresh, collected.nodup⟩
  · exact List.forall_mem_cons.2 ⟨aligned, collected.aligned⟩
  · exact List.forall_mem_cons.2 ⟨⟨positive, bounded⟩, collected.bounded⟩
  · change u32 (next.totalFrames + 1) = _
    rw [collected.total, List.length_cons]
    unfold u32
    omega

/-- The loop collects the frames that begin before the end. -/
theorem collect_loop {endAddr : Nat} (fuel : Nat) (low : endAddr ≤ 0xFFFFF000)
    (enough : (endAddr - frame + 4095) / 4096 < fuel) (aligned : frame % 4096 = 0) (positive : 0 < frame)
    (collected : Collected machine next frames)
    (fresh : ∀ other, other % 4096 = 0 → frame ≤ other → other < endAddr → other ∉ frames) :
    ∃ after added, initFrameLoop next endAddr frame fuel = .ok after ∧
      Collected machine after (added ++ frames) ∧
      ∀ other, other ∈ added ↔ other % 4096 = 0 ∧ frame ≤ other ∧ other < endAddr := by
  induction fuel generalizing next frame frames with
  | zero => exact absurd enough (Nat.not_lt_zero _)
  | succ fuel ih =>
      rw [initFrameLoop]
      by_cases more : frame < endAddr
      · obtain ⟨middle, freed, later⟩ := collect_step collected aligned positive (by omega)
          (fresh frame aligned le_rfl more)
        have step : u32 (frame + pageSize) = frame + 4096 := by
          unfold u32 pageSize
          omega
        rw [if_pos more]
        dsimp only
        rw [freed, Trap.ok_bind, step]
        have laterFresh : ∀ other, other % 4096 = 0 → frame + 4096 ≤ other → other < endAddr →
            other ∉ frame :: frames := by
          intro other otherAligned behind before member
          rcases List.mem_cons.1 member with same | old
          · omega
          · exact fresh other otherAligned (by omega) before old
        obtain ⟨after, added, completed, all, members⟩ :=
          @ih middle (frame :: frames) (frame + 4096) (by omega) (by omega) (by omega) later laterFresh
        refine ⟨after, added ++ [frame], completed, ?_, ?_⟩
        · rw [List.append_assoc]
          exact all
        · intro other
          rw [List.mem_append, members, List.mem_singleton]
          omega
      · refine ⟨next, [], if_neg more, collected, ?_⟩
        intro other
        constructor
        · exact fun member => absurd member (List.not_mem_nil)
        · rintro ⟨_, behind, before⟩
          omega

/-- A region that reaches into the last page keeps the loop going round. -/
theorem loop_never_ends {endAddr : Nat} (fuel : Nat) (high : 0xFFFFF000 < endAddr)
    (aligned : frame % 4096 = 0) (bounded : frame < 4294967296) :
    initFrameLoop next endAddr frame fuel ≠ .ok after := by
  induction fuel generalizing next frame with
  | zero => exact fun completed => by cases completed
  | succ fuel ih =>
      intro completed
      rw [initFrameLoop, if_pos (by omega)] at completed
      obtain ⟨middle, _, completed⟩ := Trap.bind_eq_ok.mp completed
      have stepAligned : u32 (frame + pageSize) % 4096 = 0 := by
        unfold u32 pageSize
        omega
      exact ih stepAligned (u32_lt _) completed

end Collecting

section Entries

variable {image : Image} {machine next after : Machine} {frames : List Nat} {entry : MMapEntry}
  {userMap later : List PhysicalMap} {mmap entries : List MMapEntry}

/-- The frames that begin in the kernel's part of the entry. -/
def BeginsIn (image : Image) (entry : MMapEntry) (frame : Nat) : Prop :=
  frame % 4096 = 0 ∧ kernelFrom image entry ≤ frame ∧ frame < kernelTo entry

theorem kernel_from_bounds (image : Image) (available : entry.Available) :
    entry.baseAddrLo ≤ kernelFrom image entry ∧ 0 < kernelFrom image entry := by
  have behind := image.behind
  have start := available.2
  unfold kernelStartPaddr pageSize at behind
  unfold kernelStartPaddr at start
  unfold kernelFrom kernelStartPaddr
  split_ifs
  all_goals omega

theorem begins_in_holds (available : entry.Available) {frame : Nat} (begins : BeginsIn image entry frame) :
    Holds entry frame := by
  have from_ := (kernel_from_bounds image available).1
  obtain ⟨_, low, high⟩ := begins
  unfold kernelTo at high
  unfold Holds
  omega

theorem kernel_to_word (word : entry.baseAddrLo < 4294967296)
    (fits : entry.baseAddrLo + entry.lengthLo ≤ 4294967296) :
    u32 (entry.baseAddrLo + entry.lengthLo / kernelMemShareDiv) = kernelTo entry ∧
      kernelTo entry < 4294967296 := by
  unfold kernelMemShareDiv kernelTo u32
  omega

theorem empty_region_refused {startAddr endAddr : Nat} (empty : ¬ startAddr < endAddr) :
    initFrameRegion next startAddr endAddr = .error .assertion := by
  rw [initFrameRegion, kernelAssert, if_neg empty]
  rfl

/-- A region of frames below the last page is collected. -/
theorem collect_region {startAddr endAddr : Nat} (positive : 0 < startAddr) (order : startAddr < endAddr)
    (low : endAddr ≤ 0xFFFFF000) (collected : Collected machine next frames)
    (fresh : ∀ other, other % 4096 = 0 → startAddr ≤ other → other < endAddr → other ∉ frames) :
    ∃ after added, initFrameRegion next startAddr endAddr = .ok after ∧
      Collected machine after (added ++ frames) ∧
      ∀ other, other ∈ added ↔ other % 4096 = 0 ∧ startAddr ≤ other ∧ other < endAddr := by
  have rounded : alignNextFrame (sub32 startAddr 1) = (startAddr + 4095) / 4096 * 4096 := by
    rw [alignNextFrame, alignNextPage, sub32_of_le positive (by omega), u32_of_lt (by
      unfold pageSize
      omega)]
    unfold pageSize
    omega
  obtain ⟨after, added, completed, all, members⟩ := collect_loop 1048577 low (by omega) (by omega)
    (show 0 < (startAddr + 4095) / 4096 * 4096 by omega) collected (by
      intro other aligned behind before
      exact fresh other aligned (by omega) before)
  refine ⟨after, added, ?_, all, ?_⟩
  · rw [initFrameRegion, Trap.kernel_assert_of order, Trap.ok_bind, rounded]
    exact completed
  · intro other
    rw [members]
    omega

/-- The three checks of an entry. -/
def Accepted (entry : MMapEntry) : Prop :=
  entry.baseAddrHi = 0 ∧ entry.lengthHi = 0 ∧ entry.size = sizeOfMMapEntry - 4

instance (entry : MMapEntry) : Decidable (Accepted entry) := inferInstanceAs (Decidable (_ ∧ _ ∧ _))

/-- How the loop of `init_frames` treats one entry. -/
theorem init_entries_cons (image : Image) (machine : Machine) (userMap : List PhysicalMap)
    (entry : MMapEntry) (entries : List MMapEntry) :
    initEntries image machine userMap (entry :: entries) =
      if Accepted entry then
        if entry.Available then
          if userMap.length < physicalMapRoom then
            initFrameRegion machine (kernelFrom image entry)
              (u32 (entry.baseAddrLo + entry.lengthLo / kernelMemShareDiv)) >>= fun machine =>
            initEntries image machine (userMap ++
              [⟨u32 (entry.baseAddrLo + entry.lengthLo / kernelMemShareDiv),
                sub32 entry.lengthLo (entry.lengthLo / kernelMemShareDiv)⟩]) entries
          else .error .assertion
        else initEntries image machine userMap entries
      else .error .assertion := by
  rw [initEntries]
  unfold kernelAssert kernelFrom
  by_cases baseHigh : entry.baseAddrHi = 0
  · by_cases lengthHigh : entry.lengthHi = 0
    · by_cases size : entry.size = sizeOfMMapEntry - 4
      · have accepted : Accepted entry := ⟨baseHigh, lengthHigh, size⟩
        rw [if_pos baseHigh, if_pos lengthHigh, if_pos size, if_pos accepted, Trap.ok_bind, Trap.ok_bind,
          Trap.ok_bind]
        dsimp only
        by_cases available : entry.Available
        · rw [if_pos available, if_pos available]
          by_cases room : userMap.length < physicalMapRoom
          · rw [if_pos room, if_pos room, Trap.ok_bind]
          · rw [if_neg room, if_neg room, Trap.error_bind]
        · rw [if_neg available, if_neg available]
      · have refused : ¬ Accepted entry := fun all => size all.2.2
        rw [if_pos baseHigh, if_pos lengthHigh, if_neg size, if_neg refused]
        rfl
    · have refused : ¬ Accepted entry := fun all => lengthHigh all.2.1
      rw [if_pos baseHigh, if_neg lengthHigh, if_neg refused]
      rfl
  · have refused : ¬ Accepted entry := fun all => baseHigh all.1
    rw [if_neg baseHigh, if_neg refused]
    rfl

/-- The run over the entries collects the frames that begin in their parts. -/
theorem collect_entries (image : Image) (userMap : List PhysicalMap) (entries : List MMapEntry)
    (sound : SoundMap entries) (low : ∀ entry ∈ entries, entry.Available → kernelTo entry ≤ 0xFFFFF000)
    (collected : Collected machine next frames)
    (fresh : ∀ frame ∈ frames, ∀ entry ∈ entries, ¬ Holds entry frame) :
    initEntries image next userMap entries = .error .assertion ∨
      ∃ later after added, initEntries image next userMap entries = .ok (later, after) ∧
        Collected machine after (added ++ frames) ∧
        ∀ frame, frame ∈ added ↔ ∃ entry ∈ entries, entry.Available ∧ BeginsIn image entry frame := by
  induction entries generalizing next userMap frames with
  | nil =>
      refine .inr ⟨userMap, next, [], rfl, collected, ?_⟩
      intro frame
      constructor
      · exact fun member => absurd member List.not_mem_nil
      · rintro ⟨entry, member, _⟩
        exact absurd member List.not_mem_nil
  | cons entry entries ih =>
      have rest : SoundMap entries := ⟨fun other member => sound.words other (List.mem_cons_of_mem _ member),
        fun other member => sound.fits other (List.mem_cons_of_mem _ member), sound.apart.of_cons⟩
      have restLow := fun other member => low other (List.mem_cons_of_mem entry member)
      rw [init_entries_cons]
      by_cases accepted : Accepted entry
      · rw [if_pos accepted]
        by_cases available : entry.Available
        · rw [if_pos available]
          by_cases room : userMap.length < physicalMapRoom
          · have toWord := (kernel_to_word (sound.words entry List.mem_cons_self)
              (sound.fits entry List.mem_cons_self)).1
            have fromBounds := kernel_from_bounds image available
            rw [if_pos room, toWord]
            by_cases order : kernelFrom image entry < kernelTo entry
            · obtain ⟨middle, first, completed, all, members⟩ := collect_region fromBounds.2 order
                (low entry List.mem_cons_self available) collected (by
                  intro other aligned behind before member
                  exact fresh other member entry List.mem_cons_self
                    (begins_in_holds available ⟨aligned, behind, before⟩))
              rw [completed, Trap.ok_bind]
              have laterFresh : ∀ frame ∈ first ++ frames, ∀ other ∈ entries, ¬ Holds other frame := by
                intro frame member other isEntry
                rcases List.mem_append.1 member with new | old
                · exact (List.pairwise_cons.1 sound.apart).1 other isEntry frame
                    (begins_in_holds available ((members frame).1 new))
                · exact fresh frame old other (List.mem_cons_of_mem _ isEntry)
              rcases ih _ rest restLow all laterFresh with failed | ⟨later, after, added, done, kept, belongs⟩
              · exact .inl failed
              · refine .inr ⟨later, after, added ++ first, done, ?_, ?_⟩
                · rw [List.append_assoc]
                  exact kept
                · intro frame
                  rw [List.mem_append, belongs, members, List.exists_mem_cons_iff]
                  constructor
                  · rintro (behind | here)
                    · exact .inr behind
                    · exact .inl ⟨available, here⟩
                  · rintro (⟨_, here⟩ | behind)
                    · exact .inr here
                    · exact .inl behind
            · left
              rw [empty_region_refused order]
              rfl
          · exact .inl (if_neg room)
        · rw [if_neg available]
          have restFresh := fun frame member other isEntry =>
            fresh frame member other (List.mem_cons_of_mem entry isEntry)
          rcases ih _ rest restLow collected restFresh with failed | ⟨later, after, added, done, kept, belongs⟩
          · exact .inl failed
          · refine .inr ⟨later, after, added, done, kept, ?_⟩
            intro frame
            rw [belongs, List.exists_mem_cons_iff]
            constructor
            · exact .inr
            · rintro (⟨here, _⟩ | behind)
              · exact absurd here available
              · exact behind
      · exact .inl (if_neg accepted)

/-- A run that ends has met no region that reaches into the last page. -/
theorem entries_ended (entries : List MMapEntry) (words : ∀ entry ∈ entries, entry.baseAddrLo < 4294967296)
    (fits : ∀ entry ∈ entries, entry.baseAddrLo + entry.lengthLo ≤ 4294967296)
    (completed : initEntries image next userMap entries = .ok (later, after)) :
    ∀ entry ∈ entries, entry.Available → kernelTo entry ≤ 0xFFFFF000 := by
  induction entries generalizing next userMap with
  | nil => exact fun _ member => absurd member List.not_mem_nil
  | cons entry entries ih =>
      have restWords := fun other member => words other (List.mem_cons_of_mem entry member)
      have restFits := fun other member => fits other (List.mem_cons_of_mem entry member)
      rw [init_entries_cons] at completed
      split_ifs at completed with accepted available room
      · obtain ⟨middle, region, completed⟩ := Trap.bind_eq_ok.mp completed
        refine List.forall_mem_cons.2 ⟨fun _ => ?_, ih restWords restFits completed⟩
        rw [(kernel_to_word (words entry List.mem_cons_self) (fits entry List.mem_cons_self)).1] at region
        obtain ⟨_, _, region⟩ := Trap.bind_eq_ok.mp region
        by_contra high
        refine loop_never_ends 1048577 (by omega) ?_ ?_ region
        · unfold alignNextFrame alignNextPage pageSize
          omega
        · unfold alignNextFrame alignNextPage pageSize u32
          omega
      · exact List.forall_mem_cons.2 ⟨fun here => absurd here available, ih restWords restFits completed⟩

end Entries

section Boot

variable {image : Image} {machine early first : Machine} {info : MultibootInfo}

theorem booted_variables (started : booted image machine = .ok early) :
    early.freeFramePaddr = 0 ∧ early.totalFrames = 0 ∧ early.usedFrames = 0 := by
  rw [booted, start_ok (booted_size started), Trap.ok_bind, Trap.pure_ok, Except.ok.injEq] at started
  subst started
  exact ⟨rfl, rfl, rfl⟩

/-- A window was found, so the kernel does not fill the boot table. -/
theorem free_list_page_size (started : booted image machine = .ok early)
    (found : initFreeListPage image early = .ok first) : image.endPaddr < 0x400000 := by
  have size := booted_size started
  by_contra full
  rw [init_free_list_page_refuses (booted_tables started) (by omega)] at found
  cases found

theorem boot_window (started : booted image machine = .ok early)
    (found : initFreeListPage image early = .ok first) : Window first ∧ Collected first first [] := by
  have small := free_list_page_size started found
  have tables := booted_tables started
  obtain ⟨_, ends, place, aligned, low⟩ := image_places image
  obtain ⟨noFree, noTotal, noUsed⟩ := booted_variables started
  rw [init_free_list_page_ok tables small, Except.ok.injEq] at found
  have whole := image.aligned
  have isPage : image.endVaddr / 4096 = 0xC0000 + image.endPaddr / 4096 := by
    unfold Image.endVaddr kernelOffset
    omega
  have window : Window first := by
    subst found
    have isWindow : image.endVaddr / 4096 / 1024 = 0x300 := by omega
    have entry : directoryEntry early.memory early.cr3 (image.endVaddr / 4096 / 1024) =
        image.bootPageTable + 1 := by
      rw [isWindow, tables.cr3, tables.directory 0x300 (by decide)]
      rfl
    have selfMapped : SelfMapped early.memory early.cr3 := boot_self_mapped tables
    refine ⟨selfMapped, ?_, ?_, ?_, rfl, ?_, ?_, ?_⟩
    · change early.cr3 % 4096 = 0
      rw [tables.cr3]
      omega
    · change image.endVaddr % 4096 = 0
      unfold Image.endVaddr kernelOffset
      omega
    · change image.endVaddr < 0xFFC00000
      omega
    · change Present (directoryEntry early.memory early.cr3 (image.endVaddr / 4096 / 1024))
      rw [entry]
      unfold Present
      omega
    · change frameOf (directoryEntry early.memory early.cr3 (image.endVaddr / 4096 / 1024)) ≠ early.cr3
      rw [entry, tables.cr3]
      unfold frameOf
      omega
    · change image.endVaddr / 4096 / 1024 ≠ 0 ∧ image.endVaddr / 4096 % 1024 ≠ 0
      omega
  refine ⟨window, collected_none window ?_ ?_ ?_⟩
  all_goals
    subst found
    assumption

/-- There are 2^20 frames. -/
theorem frame_count {frames : List Nat} (nodup : frames.Nodup) (aligned : ∀ frame ∈ frames, frame % 4096 = 0)
    (bounded : ∀ frame ∈ frames, frame < 4294967296) : frames.length ≤ 1048576 := by
  have distinct : (frames.map (· / 4096)).Nodup := by
    apply List.Nodup.map_on _ nodup
    intro frame member other second same
    have first := aligned frame member
    have next := aligned other second
    omega
  have inside : frames.map (· / 4096) ⊆ List.range 1048576 := by
    intro page member
    obtain ⟨frame, isFrame, rfl⟩ := List.mem_map.1 member
    have low := bounded frame isFrame
    rw [List.mem_range]
    omega
  have short := (List.subperm_of_subset distinct inside).length_le
  rw [List.length_map, List.length_range] at short
  exact short

/-- Without a frame that sticks out, the frames that begin in a part lie inside it. -/
theorem begins_iff_inside {entry : MMapEntry} (whole : EndsWithFrame image entry) {frame : Nat} :
    BeginsIn image entry frame ↔
      frame % 4096 = 0 ∧ kernelFrom image entry ≤ frame ∧ frame + 4096 ≤ kernelTo entry := by
  unfold EndsWithFrame at whole
  unfold BeginsIn
  omega

/-- The frame that sticks out of a part. -/
theorem frame_sticks_out {entry : MMapEntry} (low : kernelTo entry ≤ 0xFFFFF000)
    (cut : ¬ EndsWithFrame image entry) :
    BeginsIn image entry (kernelTo entry / 4096 * 4096) ∧
      kernelTo entry < kernelTo entry / 4096 * 4096 + 4096 := by
  unfold EndsWithFrame at cut
  unfold BeginsIn
  omega

theorem entries_apart {mmap : List MMapEntry} (sound : SoundMap mmap) {entry other : MMapEntry}
    (member : entry ∈ mmap) (second : other ∈ mmap) (differ : entry ≠ other) {addr : Nat}
    (here : Holds entry addr) : ¬ Holds other addr := by
  have symmetric : Std.Symm fun first second : MMapEntry => ∀ addr, Holds first addr → ¬ Holds second addr :=
    ⟨fun _ _ apart addr holds also => apart addr also holds⟩
  exact sound.apart.forall member second differ addr here

/-- The list that `init_frames` leaves has the frames that begin in the kernel's parts. -/
theorem listed_begins {info : MultibootInfo} {userMap : List PhysicalMap} {final : Machine} {frames : List Nat}
    (started : booted image machine = .ok early) (found : initFreeListPage image early = .ok first)
    (sound : SoundMap info.mmap) (completed : initFrames image first info = .ok (userMap, final))
    (linked : Linked final.memory final.freeFramePaddr frames) (positive : ∀ frame ∈ frames, 0 < frame)
    (frame : Nat) :
    frame ∈ frames ↔ ∃ entry ∈ info.mmap, entry.Available ∧ BeginsIn image entry frame := by
  obtain ⟨window, none⟩ := boot_window started found
  obtain ⟨_, _, collecting⟩ := Trap.bind_eq_ok.mp completed
  have low := entries_ended info.mmap sound.words sound.fits collecting
  rcases collect_entries image [] info.mmap sound low none (List.forall_mem_nil _) with failed |
    ⟨userMap', final', added, again, collected, members⟩
  · rw [failed] at collecting
    cases collecting
  · rw [collecting, Except.ok.injEq, Prod.mk.injEq] at again
    obtain ⟨rfl, rfl⟩ := again
    rw [List.append_nil] at collected
    have same := linked_unique positive (fun frame listed => (collected.bounded frame listed).1) linked
      collected.linked
    rw [same]
    exact members frame

/-- The free list of a map that collects the kernel's frames holds no frame that sticks out. -/
theorem collects_ends {info : MultibootInfo} {userMap : List PhysicalMap} {final : Machine}
    (started : booted image machine = .ok early) (found : initFreeListPage image early = .ok first)
    (sound : SoundMap info.mmap) (completed : initFrames image first info = .ok (userMap, final))
    (collects : CollectsFrames image info.mmap final) :
    ∀ entry ∈ info.mmap, entry.Available → EndsWithFrame image entry := by
  intro entry member available
  obtain ⟨frames, linked, _, exact_, _⟩ := collects
  obtain ⟨_, _, collecting⟩ := Trap.bind_eq_ok.mp completed
  have low := entries_ended info.mmap sound.words sound.fits collecting
  by_contra cut
  obtain ⟨begins, sticks⟩ := frame_sticks_out (low entry member available) cut
  have positive : ∀ frame ∈ frames, 0 < frame := by
    intro frame listed
    obtain ⟨_, other, _, usable, behind, _⟩ := (exact_ frame).1 listed
    have bounds := kernel_from_bounds image usable
    omega
  have listed := (listed_begins started found sound completed linked positive _).2
    ⟨entry, member, available, begins⟩
  obtain ⟨aligned, other, second, usable, behind, before⟩ := (exact_ _).1 listed
  by_cases equal : entry = other
  · subst equal
    omega
  · exact entries_apart sound member second equal (begins_in_holds available begins)
      (begins_in_holds usable ⟨aligned, behind, by omega⟩)

/-- `init_frames` collects exactly the kernel's frames if no frame sticks out of a kernel's part. -/
theorem frames_collected_iff (started : booted image machine = .ok early)
    (found : initFreeListPage image early = .ok first) (sound : SoundMap info.mmap)
    (quiet : initFrames image first info ≠ .error .assertion) :
    (∃ userMap final, initFrames image first info = .ok (userMap, final) ∧
        CollectsFrames image info.mmap final) ↔
      ∀ entry ∈ info.mmap, entry.Available → EndsWithFrame image entry := by
  constructor
  · rintro ⟨userMap, final, completed, collects⟩
    exact collects_ends started found sound completed collects
  · intro whole
    obtain ⟨window, none⟩ := boot_window started found
    have flagged : info.flags &&& mbFlagMmap ≠ 0 := by
      intro missing
      apply quiet
      rw [initFrames, kernelAssert, if_neg (not_not.2 missing)]
      rfl
    rw [initFrames, Trap.kernel_assert_of flagged, Trap.ok_bind] at quiet ⊢
    have low : ∀ entry ∈ info.mmap, entry.Available → kernelTo entry ≤ 0xFFFFF000 := by
      intro entry member available
      have word := (kernel_to_word (sound.words entry member) (sound.fits entry member)).2
      rcases whole entry member available with aligned | ⟨_, below⟩
      · omega
      · exact below
    rcases collect_entries image [] info.mmap sound low none (List.forall_mem_nil _) with failed |
      ⟨userMap, final, added, completed, collected, members⟩
    · exact absurd failed quiet
    · rw [List.append_nil] at collected
      refine ⟨userMap, final, completed, added, collected.linked, collected.nodup, ?_, ?_, collected.used⟩
      · intro frame
        rw [members]
        constructor
        · rintro ⟨entry, member, available, begins⟩
          obtain ⟨aligned, behind, before⟩ := (begins_iff_inside (whole entry member available)).1 begins
          exact ⟨aligned, entry, member, available, behind, before⟩
        · rintro ⟨aligned, entry, member, available, behind, before⟩
          exact ⟨entry, member, available,
            (begins_iff_inside (whole entry member available)).2 ⟨aligned, behind, before⟩⟩
      · rw [collected.total]
        apply u32_of_lt
        have count := frame_count collected.nodup collected.aligned
          (fun frame member => (collected.bounded frame member).2)
        omega

end Boot

section Sample

variable {image : Image} {early first : Machine}

/-- The kernel boots from a map with one region that holds it. -/
theorem one_region_boots (entry : MMapEntry) (started : booted image PagingChecks.sampleMachine = .ok early)
    (found : initFreeListPage image early = .ok first) (accepted : Accepted entry)
    (available : entry.Available) (sound : SoundMap [entry]) (low : kernelTo entry ≤ 0xFFFFF000)
    (order : kernelFrom image entry < kernelTo entry) :
    ∃ userMap final, initFrames image first ⟨mbFlagMmap, [entry]⟩ = .ok (userMap, final) := by
  obtain ⟨_, none⟩ := boot_window started found
  have toWord := (kernel_to_word (sound.words entry List.mem_cons_self)
    (sound.fits entry List.mem_cons_self)).1
  obtain ⟨final, added, completed, _⟩ := collect_region (kernel_from_bounds image available).2 order low
    none fun _ _ _ _ member => absurd member List.not_mem_nil
  have room : ([] : List PhysicalMap).length < physicalMapRoom := by decide
  have flagged : mbFlagMmap &&& mbFlagMmap ≠ 0 := by decide
  rw [initFrames, Trap.kernel_assert_of flagged, Trap.ok_bind, init_entries_cons, if_pos accepted,
    if_pos available, if_pos room, toWord, completed, Trap.ok_bind]
  exact ⟨_, _, rfl⟩

/-- A kernel of five pages. -/
def sampleImage : Image := ⟨0x105000, by decide, by decide, by decide⟩

theorem sample_boots : ∃ early first, booted sampleImage PagingChecks.sampleMachine = .ok early ∧
    initFreeListPage sampleImage early = .ok first := by
  obtain ⟨early, started⟩ : ∃ early, booted sampleImage PagingChecks.sampleMachine = .ok early := by
    rw [booted, start_ok (by decide), Trap.ok_bind]
    exact ⟨_, rfl⟩
  exact ⟨early, _, started, init_free_list_page_ok (booted_tables started) (by decide)⟩

/-- The memory above 1 MiB of a machine with 256 MiB, whose fifth is no whole number of pages. -/
def upperMemory : MMapEntry := ⟨20, 0x100000, 0, 0xFEE0000, 0, 1⟩

/-- The same with 128 MiB, whose fifth is. -/
def halfMemory : MMapEntry := ⟨20, 0x100000, 0, 0x7EE0000, 0, 1⟩

theorem one_entry_sound {entry : MMapEntry} (word : entry.baseAddrLo < 4294967296)
    (fits : entry.baseAddrLo + entry.lengthLo ≤ 4294967296) : SoundMap [entry] :=
  ⟨List.forall_mem_singleton.2 word, List.forall_mem_singleton.2 fits, List.pairwise_singleton _ _⟩

theorem frames_collected_half_memory : ∃ early first,
    booted sampleImage PagingChecks.sampleMachine = .ok early ∧
    initFreeListPage sampleImage early = .ok first ∧
    ((∃ userMap final, initFrames sampleImage first ⟨mbFlagMmap, [halfMemory]⟩ = .ok (userMap, final) ∧
        CollectsFrames sampleImage [halfMemory] final) ↔
      ∀ entry ∈ [halfMemory], entry.Available → EndsWithFrame sampleImage entry) := by
  obtain ⟨early, first, started, found⟩ := sample_boots
  have sound : SoundMap [halfMemory] := one_entry_sound (by decide) (by decide)
  refine ⟨early, first, started, found, @frames_collected_iff _ _ _ _ ⟨mbFlagMmap, [halfMemory]⟩ started
    found sound ?_⟩
  obtain ⟨userMap, final, completed⟩ := one_region_boots halfMemory started found (by decide)
    (by decide) sound (by decide) (by decide)
  rw [completed]
  exact fun failed => by cases failed

/-- With 256 MiB the last frame of the kernel's fifth sticks out. -/
theorem frames_not_collected : ¬ ∀ (image : Image) (machine early first : Machine) (info : MultibootInfo),
    booted image machine = .ok early → initFreeListPage image early = .ok first → SoundMap info.mmap →
      initFrames image first info ≠ .error .assertion →
        ∃ userMap final, initFrames image first info = .ok (userMap, final) ∧
          CollectsFrames image info.mmap final := by
  intro always
  obtain ⟨early, first, started, found⟩ := sample_boots
  have sound : SoundMap [upperMemory] := one_entry_sound (by decide) (by decide)
  have quiet : initFrames sampleImage first ⟨mbFlagMmap, [upperMemory]⟩ ≠ .error .assertion := by
    obtain ⟨userMap, final, completed⟩ := one_region_boots upperMemory started found (by decide)
      (by decide) sound (by decide) (by decide)
    rw [completed]
    exact fun failed => by cases failed
  obtain ⟨userMap, final, completed, collects⟩ := always sampleImage _ early first ⟨mbFlagMmap, [upperMemory]⟩ started
    found sound quiet
  have whole := @collects_ends sampleImage _ early first ⟨mbFlagMmap, [upperMemory]⟩ _ _ started found sound
    completed collects upperMemory List.mem_cons_self (by decide)
  unfold EndsWithFrame at whole
  revert whole
  decide

end Sample
end ParadiseOS.BootFrames
