import ParadiseOS.MapReturns

/-!
# Frames that the kernel and user programs share

The kernel takes the frames that begin in its part of a region, and user programs map the
frame of any address in theirs. The parts meet at a fifth of the length, which need not
be the edge of a frame. The regions are looked up where `init_frames` left them, and a user
program can have the kernel write there: of the array of an unmap only the first word is
checked.
-/

namespace ParadiseOS.FrameSharing

open BootFrames BootModel MachineWord MapCalls MapInstalls MapReturns PagingChecks PagingModel PagingSteps PagingMaps
open SpaceCalls TransferMoves TwoLevelPaging UserFrames VirtModel VirtRanges
open RbTreeRuns (getProcess)

set_option autoImplicit false

section Statement

/-- A frame that begins in the kernel's part of an entry has an address in the user's part of an
entry that ends below 4 GiB. -/
def ReachesInto (image : Image) (entry other : MMapEntry) : Prop :=
  ∃ frame addr, BeginsIn image entry frame ∧ frame ≤ addr ∧ addr < frame + 4096 ∧ kernelTo other ≤ addr ∧
    addr < other.baseAddrLo + other.lengthLo ∧ other.baseAddrLo + other.lengthLo < 4294967296

/-- A frame that begins in the kernel's part of an entry has an address that a map admits. -/
def Overlaps (image : Image) (mmap : List MMapEntry) (shown : List PhysicalMap) : Prop :=
  ∃ entry ∈ mmap, entry.Available ∧ ∃ frame addr, BeginsIn image entry frame ∧ frame ≤ addr ∧
    addr < frame + 4096 ∧ Admits shown addr

/-- What may stand at `user_physical_map` later: as many regions, of any words. -/
structure MapWords (userMap shown : List PhysicalMap) : Prop where
  length : shown.length = userMap.length
  words : ∀ region ∈ shown, region.addr < 4294967296 ∧ region.len < 4294967296

/-- A later kernel: its paging structures are sound, and this stands at `user_physical_map`. -/
structure Later (machine : Machine) (roots free : List Nat) (shown : List PhysicalMap) : Prop where
  spaces : Spaces machine roots
  free : FreeList machine roots free
  processes : ProcessRoots machine roots
  closed : ClosedTables machine roots
  shown : ∀ root ∈ roots, ShowsMap (switch machine root) shown

/-- No later call of `syscall_virt_map` that meets this map, with its array outside of the paging
structures, maps one of the frames. -/
def KeepsApart (shown : List PhysicalMap) (frames : List Nat) : Prop :=
  ∀ (machine next : Machine) (roots free : List Nat) (aid vaddr paddr n flags : Nat) (result : SyscallResult),
    Later machine roots free shown →
      (∀ i < n, PlainWord (switch machine (spaceOf machine aid)) roots free (elementAddr paddr i)) →
        syscallVirtMap machine aid vaddr paddr n flags = .ok (result, next) → result.err = 0 →
          ∀ i < n, frameOf (pageEntry next.memory (spaceOf machine aid) (pageOf vaddr i)) ∉ frames

end Statement

section Maps

variable {image : Image} {machine early first final : Machine} {info : MultibootInfo}
  {userMap : List PhysicalMap} {frames : List Nat}

/-- `user_physical_map` is a page. -/
theorem map_room (entries : List MMapEntry) {machine next : Machine} {userMap later : List PhysicalMap}
    (few : userMap.length ≤ physicalMapRoom)
    (completed : initEntries image machine userMap entries = .ok (later, next)) :
    later.length ≤ physicalMapRoom := by
  induction entries generalizing machine userMap with
  | nil =>
      cases completed
      exact few
  | cons entry entries ih =>
      rw [init_entries_cons] at completed
      split_ifs at completed with accepted available room
      · obtain ⟨middle, _, completed⟩ := Trap.bind_eq_ok.mp completed
        apply ih _ completed
        rw [List.length_append, List.length_singleton]
        exact room
      · exact ih few completed

/-- The regions are the user's parts of the available entries. -/
theorem built_map (completed : initFrames image first info = .ok (userMap, final)) :
    userMap = (info.mmap.filter fun entry => entry.Available).map userRegion := by
  obtain ⟨_, _, completed⟩ := Trap.bind_eq_ok.mp completed
  have built := entries_map info.mmap completed
  rwa [List.nil_append] at built

theorem user_part_iff (sound : SoundMap info.mmap)
    (completed : initFrames image first info = .ok (userMap, final)) {addr : Nat} :
    Admits userMap addr ↔ ∃ other ∈ info.mmap, other.Available ∧ kernelTo other ≤ addr ∧
      addr < other.baseAddrLo + other.lengthLo ∧ other.baseAddrLo + other.lengthLo < 4294967296 := by
  rw [admits_iff (built_region sound.words sound.fits completed), built_map completed]
  constructor
  · rintro ⟨region, member, contains, below⟩
    obtain ⟨entry, listed, rfl⟩ := List.mem_map.1 member
    obtain ⟨inMap, available⟩ := List.mem_filter.1 listed
    obtain ⟨start, stop⟩ := user_region_bounds (sound.words entry inMap) (sound.fits entry inMap)
    have fits := sound.fits entry inMap
    unfold Contains at contains
    unfold ReachesTop at below
    exact ⟨entry, inMap, of_decide_eq_true available, by omega, by omega, by omega⟩
  · rintro ⟨entry, inMap, available, low, high, below⟩
    obtain ⟨start, stop⟩ := user_region_bounds (sound.words entry inMap) (sound.fits entry inMap)
    refine ⟨userRegion entry, List.mem_map.2 ⟨entry, List.mem_filter.2 ⟨inMap, decide_eq_true available⟩, rfl⟩,
      ?_, ?_⟩
    · unfold Contains
      omega
    · unfold ReachesTop
      omega

/-- The map that `init_frames` built admits what reaches from one part into another. -/
theorem built_overlaps_iff (sound : SoundMap info.mmap)
    (completed : initFrames image first info = .ok (userMap, final)) :
    ¬ Overlaps image info.mmap userMap ↔ ∀ entry ∈ info.mmap, entry.Available → ∀ other ∈ info.mmap,
      other.Available → ¬ ReachesInto image entry other := by
  constructor
  · intro apart entry inMap available other second usable reaches
    obtain ⟨frame, addr, begins, behind, before, inside⟩ := reaches
    exact apart ⟨entry, inMap, available, frame, addr, begins, behind, before,
      (user_part_iff sound completed).2 ⟨other, second, usable, inside⟩⟩
  · rintro aligned ⟨entry, inMap, available, frame, addr, begins, behind, before, admitted⟩
    obtain ⟨other, second, usable, inside⟩ := (user_part_iff sound completed).1 admitted
    exact aligned entry inMap available other second usable ⟨frame, addr, begins, behind, before, inside⟩

/-- A map that admits no address of the kernel's frames keeps them apart. -/
theorem apart_of_overlaps (started : booted image machine = .ok early)
    (found : initFreeListPage image early = .ok first) (sound : SoundMap info.mmap)
    (completed : initFrames image first info = .ok (userMap, final))
    (linked : Linked final.memory final.freeFramePaddr frames) (positive : ∀ frame ∈ frames, 0 < frame)
    {shown : List PhysicalMap} (apart : ¬ Overlaps image info.mmap shown) : KeepsApart shown frames := by
  intro running next roots free aid vaddr paddr n flags result later plain called success i inside member
  rcases virt_map_ok later.spaces later.processes rfl called with ⟨_, refused, _⟩ |
    ⟨accepted, _, isRoot, installed, installing, isNext⟩
  · exact refused success
  · have done := map_done later.spaces later.free later.closed isRoot plain accepted installing isNext
    rw [(done_leads done isRoot inside).frame] at member
    obtain ⟨word, loaded, valid⟩ := accepted.valid i inside
    have isWord : arrayWord running (spaceOf running aid) paddr i = word := by
      unfold arrayWord
      rw [loaded]
    rw [isWord, listed_begins started found sound completed linked positive] at member
    obtain ⟨entry, inMap, available, begins⟩ := member
    obtain ⟨accepts, returned, judged⟩ := @user_frame_valid_admits _ shown word (later.shown _ isRoot)
    rw [returned, Except.ok.injEq] at valid
    refine apart ⟨entry, inMap, available, _, word, begins, ?_, ?_, judged.1 valid⟩
    · unfold frameOf
      omega
    · unfold frameOf
      omega

end Maps

section Boundary

variable {userMap : List PhysicalMap} {addr : Nat}

/-- The words of `user_physical_map`. -/
def mapWord (userMap : List PhysicalMap) (index : Nat) : Nat :=
  match userMap[index / 2]? with
  | some region => if index % 2 = 0 then region.addr else region.len
  | none => 0

/-- The word of the map page or of the array page at an address. -/
def boundaryWord (userMap : List PhysicalMap) (addr cell : Nat) : Nat :=
  if cell < 0x19000 then mapWord userMap ((cell - 0x18000) / 4) else if cell < 0x19004 then addr else 0

/-- The sample machine with a map, and with an address in the array of process 1. -/
def boundaryMachine (userMap : List PhysicalMap) (addr : Nat) : Machine :=
  { sampleMachine with
    memory := fun cell =>
      if 0x18000 ≤ cell ∧ cell < 0x1A000 then
        UInt8.ofNat (boundaryWord userMap addr (cell / 4 * 4) / 256 ^ (cell % 4))
      else sampleMachine.memory cell
    userPhysicalMapLen := userMap.length }

theorem read_stored {memory : Memory} {place word : Nat} (small : word < 4294967296)
    (stored : ∀ offset < 4, memory (place + offset) = UInt8.ofNat (word / 256 ^ offset)) :
    readWord memory place = word := by
  have first := stored 0 (by decide)
  have second := stored 1 (by decide)
  have third := stored 2 (by decide)
  have fourth := stored 3 (by decide)
  rw [Nat.add_zero] at first
  simp only [readWord, wordOf, first, second, third, fourth, UInt8.toNat_ofNat']
  omega

theorem boundary_read {place : Nat} (aligned : place % 4 = 0) (low : 0x18000 ≤ place) (high : place < 0x1A000)
    (small : boundaryWord userMap addr place < 4294967296) :
    readWord (boundaryMachine userMap addr).memory place = boundaryWord userMap addr place := by
  apply read_stored small
  intro offset inside
  have inPage : 0x18000 ≤ place + offset ∧ place + offset < 0x1A000 := by omega
  have word : (place + offset) / 4 * 4 = place := by omega
  have byte : (place + offset) % 4 = offset := by omega
  change (if 0x18000 ≤ place + offset ∧ place + offset < 0x1A000 then _ else _) = _
  rw [if_pos inPage, word, byte]

/-- What the sample's tables hold: in each directory the page of the map and a self mapping the user cannot
reach, and in the first the page of the array, none at 0x403000 and a table above it. -/
structure SampleEntries (memory : Memory) : Prop where
  mapPage : ∀ root ∈ sampleRoots, pageEntry memory root 0xFF800 = 0x18005
  selfMap : ∀ root ∈ sampleRoots, ¬ UserMode (directoryEntry memory root 1023)
  tables : ∀ root ∈ sampleRoots, ∀ index ∈ sampleIndices, Present (directoryEntry memory root index) →
    frameOf (directoryEntry memory root index) ≠ 0x18000 ∧ frameOf (directoryEntry memory root index) ≠ 0x19000
  arrayPage : pageEntry memory 0x10000 0x401 = 0x19007
  absent : ¬ Present (pageEntry memory 0x10000 0x403)
  userTable : UserMode (directoryEntry memory 0x10000 (0x403 / 1024))

theorem sample_entries : SampleEntries sampleMachine.memory where
  mapPage := by decide +kernel
  selfMap := by decide +kernel
  tables := by decide +kernel
  arrayPage := by decide +kernel
  absent := by decide +kernel
  userTable := by decide +kernel

/-- The map page and the array page hold nothing of the kernel. -/
theorem sample_unused {frame : Nat} (used : InUse sampleMachine sampleRoots sampleFrames frame) :
    frame ≠ 0x18000 ∧ frame ≠ 0x19000 := by
  rcases used with isRoot | ⟨root, member, index, low, present, same⟩ | isFree
  · have all : ∀ root ∈ sampleRoots, root ≠ 0x18000 ∧ root ≠ 0x19000 := by decide
    exact all frame isRoot
  · exact same ▸ sample_entries.tables root member index (sample_covers root member index low present) present
  · have all : ∀ free ∈ sampleFrames, free ≠ 0x18000 ∧ free ≠ 0x19000 := by decide
    exact all frame isFree

theorem boundary_same {frame : Nat} (aligned : frame % 4096 = 0)
    (used : InUse sampleMachine sampleRoots sampleFrames frame) :
    SameOn sampleMachine.memory (boundaryMachine userMap addr).memory frame := by
  have apart := sample_unused used
  intro cell low high
  exact if_neg (by omega)

theorem boundary_steady : Steady { sampleMachine with userPhysicalMapLen := userMap.length }
    (boundaryMachine userMap addr) sampleRoots sampleFrames sampleFrames := by
  have spaces : Spaces { sampleMachine with userPhysicalMapLen := userMap.length } sampleRoots :=
    ⟨sample_spaces.family, sample_spaces.current, sample_spaces.member, sample_spaces.headAligned,
      sample_spaces.headLow, sample_spaces.headPte, sample_spaces.headShared⟩
  have free : FreeList { sampleMachine with userPhysicalMapLen := userMap.length } sampleRoots sampleFrames :=
    ⟨sample_free.linked, sample_free.nodup, sample_free.aligned, sample_free.positive, sample_free.bounded,
      sample_free.notRoot, sample_free.notTable, sample_free.window⟩
  exact (change_steady spaces free rfl fun frame aligned used => boundary_same aligned used).1

theorem boundary_entry {root page : Nat} (member : root ∈ sampleRoots) (low : page < 1047552) :
    pageEntry (boundaryMachine userMap addr).memory root page = pageEntry sampleMachine.memory root page := by
  have rootAligned := sample_spaces.family.aligned root member
  apply page_entry_same_on (boundary_same rootAligned (.inl member)) (by omega)
  intro present
  exact boundary_same (frame_of_aligned _) (.inr (.inl ⟨root, member, _, by omega, present, rfl⟩))

theorem boundary_directory {root index : Nat} (member : root ∈ sampleRoots) (small : index < 1024) :
    directoryEntry (boundaryMachine userMap addr).memory root index =
      directoryEntry sampleMachine.memory root index :=
  directory_entry_same_on (boundary_same (sample_spaces.family.aligned root member) (.inl member)) small

/-- Words of the map page are seen in every space. -/
theorem boundary_load {root offset : Nat} (member : root ∈ sampleRoots) (aligned : offset % 4 = 0)
    (inside : offset < 4096) (small : boundaryWord userMap addr (0x18000 + offset) < 4294967296) :
    loadWord (switch (boundaryMachine userMap addr) root) (0xFF800000 + offset) =
      .ok (boundaryWord userMap addr (0x18000 + offset)) := by
  have quotient : (0xFF800000 + offset) / 4096 = 0xFF800 := by omega
  have remainder : (0xFF800000 + offset) % 4096 = offset := by omega
  have entry : pageEntry (boundaryMachine userMap addr).memory root ((0xFF800000 + offset) / 4096) = 0x18005 := by
    rw [quotient, boundary_entry member (by decide), sample_entries.mapPage root member]
  have place := @translate_page (boundaryMachine userMap addr).memory root (0xFF800000 + offset)
    (entry.symm ▸ by decide)
  rw [entry, remainder] at place
  have loaded := @load_word_at (switch (boundaryMachine userMap addr) root) _ _ place (by omega) (by omega)
  have frame : frameOf 0x18005 = 0x18000 := by decide
  rw [loaded, frame]
  exact congrArg Except.ok (boundary_read (by omega) (by omega) (by omega) small)

theorem boundary_shows (few : userMap.length ≤ 512)
    (words : ∀ region ∈ userMap, region.addr < 4294967296 ∧ region.len < 4294967296) {root : Nat}
    (member : root ∈ sampleRoots) : ShowsMap (switch (boundaryMachine userMap addr) root) userMap := by
  have address : (switch (boundaryMachine userMap addr) root).userPhysicalMap = 0xFF800000 := rfl
  refine ⟨rfl, ?_, ?_⟩
  · intro i region listed
    have inside := (List.getElem?_eq_some_iff.1 listed).1
    have place : u32 (0xFF800000 + u32 (8 * i)) = 0xFF800000 + 8 * i := by
      unfold u32
      omega
    have word : boundaryWord userMap addr (0x18000 + 8 * i) = region.addr := by
      have index : (0x18000 + 8 * i - 0x18000) / 4 = 2 * i := by omega
      rw [boundaryWord, if_pos (by omega), index, mapWord, Nat.mul_div_cancel_left _ (by decide), listed]
      exact if_pos (Nat.mul_mod_right 2 i)
    rw [address, place, boundary_load member (by omega) (by omega)]
    · rw [word]
    · rw [word]
      exact (words region (List.mem_of_getElem? listed)).1
  · intro i region listed
    have inside := (List.getElem?_eq_some_iff.1 listed).1
    have place : u32 (0xFF800000 + u32 (8 * i) + 4) = 0xFF800000 + (8 * i + 4) := by
      unfold u32
      omega
    have word : boundaryWord userMap addr (0x18000 + (8 * i + 4)) = region.len := by
      have index : (0x18000 + (8 * i + 4) - 0x18000) / 4 = 2 * i + 1 := by omega
      have half : (2 * i + 1) / 2 = i := by omega
      rw [boundaryWord, if_pos (by omega), index, mapWord, half, listed]
      exact if_neg (by omega)
    rw [address, place, boundary_load member (by omega) (by omega)]
    · rw [word]
    · rw [word]
      exact (words region (List.mem_of_getElem? listed)).2

/-- The array of process 1 holds the address. -/
theorem boundary_array (small : addr < 4294967296) :
    loadWord (switch (boundaryMachine userMap addr) 0x10000) 0x401000 = .ok addr := by
  have entry : pageEntry (boundaryMachine userMap addr).memory 0x10000 (0x401000 / 4096) = 0x19007 :=
    (boundary_entry (by decide) (by decide)).trans sample_entries.arrayPage
  have place := @translate_page (boundaryMachine userMap addr).memory 0x10000 0x401000 (entry.symm ▸ by decide)
  rw [entry] at place
  have loaded := @load_word_at (switch (boundaryMachine userMap addr) 0x10000) _ _ place (by decide) (by decide)
  have isFrame : frameOf 0x19007 + 0x401000 % 4096 = 0x19000 := by decide
  have word : boundaryWord userMap addr 0x19000 = addr := by
    rw [boundaryWord, if_neg (by decide), if_pos (by decide)]
  have read := @boundary_read userMap addr 0x19000 (by decide) (by decide) (by decide) (word.symm ▸ small)
  rw [loaded, isFrame]
  exact congrArg Except.ok (read.trans word)

theorem boundary_plain : ∀ i < 1, PlainWord (switch (boundaryMachine userMap addr) 0x10000) sampleRoots
    sampleFrames (elementAddr 0x401000 i) := by
  intro i only byte small cell found
  have isFirst : i = 0 := by omega
  have element : elementAddr 0x401000 0 = 0x401000 := by decide
  have here : u32 (0x401000 + byte) = 0x401000 + byte := by
    unfold u32
    omega
  have page : (0x401000 + byte) / 4096 = 0x401 := by omega
  have entry : pageEntry (boundaryMachine userMap addr).memory 0x10000 ((0x401000 + byte) / 4096) = 0x19007 := by
    rw [page]
    exact (boundary_entry (by decide) (by decide)).trans sample_entries.arrayPage
  rw [isFirst, element, here] at found
  change TwoLevelPaging.translate (boundaryMachine userMap addr).memory 0x10000 (0x401000 + byte) = some cell at found
  rw [translate_page (entry.symm ▸ by decide), entry] at found
  have isCell := Option.some.inj found
  have frame : frameOf 0x19007 = 0x19000 := by decide
  rw [frame] at isCell
  have place : cell / 4096 * 4096 = 0x19000 := by omega
  intro used
  have kept := (@boundary_steady userMap addr).inUse (cell / 4096 * 4096)
  exact (sample_unused (kept.1 used)).2 place

theorem boundary_later (few : userMap.length ≤ 512)
    (words : ∀ region ∈ userMap, region.addr < 4294967296 ∧ region.len < 4294967296) :
    Later (boundaryMachine userMap addr) sampleRoots sampleFrames userMap where
  spaces := boundary_steady.spaces
  free := boundary_steady.free
  processes := sample_processes
  closed root member := by
    rw [boundary_directory member (by decide)]
    exact sample_entries.selfMap root member
  shown root member := boundary_shows few words member

theorem boundary_found : getProcess (boundaryMachine userMap addr).processTree 1 = .ok 0xC0002000 := by
  obtain ⟨process, found, same⟩ := returns_with_iff.1 (by decide +kernel :
    returnsWith (getProcess sampleMachine.processTree 1) (fun process => process = 0xC0002000) = true)
  exact of_decide_eq_true same ▸ found

theorem boundary_root : spaceOf (boundaryMachine userMap addr) 1 = 0x10000 := by
  unfold spaceOf
  rw [boundary_found]
  change (if 0xC0002000 = 0xC0002000 then 0x10000 else 0x11000) = 0x10000
  exact if_pos rfl

theorem boundary_absent : ¬ Present (pageEntry (boundaryMachine userMap addr).memory 0x10000 0x403) := by
  rw [boundary_entry (by decide) (by decide)]
  exact sample_entries.absent

theorem boundary_element : elementAddr 0x401000 0 = 0x401000 := by decide

theorem boundary_page : pageOf 0x403000 0 = 0x403 := by decide

/-- Process 1 may read its array. -/
theorem boundary_looked (later : Later (boundaryMachine userMap addr) sampleRoots sampleFrames userMap) :
    Looked (boundaryMachine userMap addr) 1 0x401000 := by
  refine ⟨by decide, ?_, ?_⟩
  · rw [boundary_found]
    exact fun none => absurd (Except.ok.inj none) (by decide)
  · have entry : pageEntry (boundaryMachine userMap addr).memory 0x10000 (0x401000 / 4096) = 0x19007 :=
      (boundary_entry (by decide) (by decide)).trans sample_entries.arrayPage
    have seen := get_entry_ok later.spaces.selfMapped (show 0x401000 < 4294967296 by decide)
    change getEntry _ _ = .ok (pageEntry (boundaryMachine userMap addr).memory 0x10000 _) at seen
    rw [validateUserReadable, seen, entry, Trap.ok_bind, if_pos (by decide)]
    exact fun none => absurd (Except.ok.inj none) (by decide)

/-- The map admits the address of the array. -/
theorem boundary_valid (later : Later (boundaryMachine userMap addr) sampleRoots sampleFrames userMap)
    (accepts : Admits userMap addr) :
    userFrameValid (switch (boundaryMachine userMap addr) 0x10000) addr = .ok true := by
  obtain ⟨valid, returned, judged⟩ := @user_frame_valid_admits _ userMap addr (later.shown 0x10000 (by decide))
  exact judged.2 accepts ▸ returned

theorem boundary_accepted (later : Later (boundaryMachine userMap addr) sampleRoots sampleFrames userMap)
    (small : addr < 4294967296) (accepts : Admits userMap addr) :
    MapCalls.Accepted (boundaryMachine userMap addr) 1 0x10000 0x403000 0x401000 1 := by
  refine ⟨boundary_looked later, fun i inside => ?_, fun i inside => ?_⟩
  · rw [Nat.lt_one_iff.1 inside, boundary_page]
    exact boundary_absent
  · rw [Nat.lt_one_iff.1 inside, boundary_element]
    exact ⟨addr, boundary_array small, boundary_valid later accepts⟩

theorem boundary_safe (later : Later (boundaryMachine userMap addr) sampleRoots sampleFrames userMap)
    (small : addr < 4294967296) (accepts : Admits userMap addr) :
    MapSafe (boundaryMachine userMap addr) 1 0x10000 0x403000 0x401000 1 := by
  intro _
  refine ⟨0, ?_, fun _ i inside => ?_⟩
  · have switched := spaces_switch later.spaces (show 0x10000 ∈ sampleRoots by decide)
    have seen := get_entry_ok switched.selfMapped (range_page_lt 0x403000 0)
    rw [range_page_page, boundary_page] at seen
    change getEntry _ _ = .ok (pageEntry (boundaryMachine userMap addr).memory 0x10000 0x403) at seen
    rw [virtMapCheck, seen, Trap.ok_bind, if_neg (mt (entry_present_iff _).1 boundary_absent), boundary_element,
      boundary_array small, Trap.ok_bind, boundary_valid later accepts]
    rfl
  · rw [Nat.lt_one_iff.1 inside, boundary_page]
    refine ⟨by decide, fun _ => ?_⟩
    rw [boundary_directory (by decide) (by decide)]
    exact sample_entries.userTable

theorem boundary_enough : (newTables (switch (boundaryMachine userMap addr) 0x10000) 0x403000 0 1).card ≤
    sampleFrames.length := by
  have filtered := Finset.card_filter_le ((Finset.range 1).image fun j => pageOf 0x403000 (0 + j) / 1024)
    fun index => ¬ Present (directoryEntry (switch (boundaryMachine userMap addr) 0x10000).memory
      (switch (boundaryMachine userMap addr) 0x10000).cr3 index)
  have image := Finset.card_image_le (s := Finset.range 1) (f := fun j => pageOf 0x403000 (0 + j) / 1024)
  rw [Finset.card_range] at image
  exact (filtered.trans image).trans (by decide)

/-- Process 1 maps the frame of any address that the map admits. -/
theorem boundary_maps (few : userMap.length ≤ 512)
    (words : ∀ region ∈ userMap, region.addr < 4294967296 ∧ region.len < 4294967296)
    (small : addr < 4294967296) (accepts : Admits userMap addr) {frames : List Nat}
    (apart : KeepsApart userMap frames) : frameOf addr ∉ frames := by
  have later := @boundary_later userMap addr few words
  obtain ⟨result, next, completed⟩ := @map_returns_of_safe _ sampleRoots sampleFrames 1 0x10000 0x403000 0x401000
    1 0 later.spaces later.free later.processes ⟨_, boundary_found⟩ boundary_root.symm boundary_plain (by decide)
    boundary_enough (boundary_safe later small accepts)
  have accepted := boundary_accepted later small accepts
  rcases virt_map_ok later.spaces later.processes boundary_root.symm completed with ⟨no, _, _⟩ |
    ⟨_, success, member, installed, installing, isNext⟩
  · exact absurd accepted no
  · have done := map_done later.spaces later.free later.closed member boundary_plain accepted installing isNext
    have leads := (done_leads done member (show 0 < 1 by decide)).frame
    have word : arrayWord (boundaryMachine userMap addr) 0x10000 0x401000 0 = addr := by
      unfold arrayWord
      rw [boundary_element, boundary_array small]
    rw [word] at leads
    rw [← leads, ← boundary_root]
    exact apart _ next sampleRoots sampleFrames 1 0x403000 0x401000 1 0 result later
      (boundary_root.symm ▸ boundary_plain) completed success 0 (by decide)

end Boundary

section Results

variable {image : Image} {machine early first final : Machine} {info : MultibootInfo}
  {userMap : List PhysicalMap} {frames : List Nat}

theorem built_words (completed : initFrames image first info = .ok (userMap, final)) :
    ∀ region ∈ userMap, region.addr < 4294967296 ∧ region.len < 4294967296 := by
  rw [built_map completed]
  intro region member
  obtain ⟨entry, _, rfl⟩ := List.mem_map.1 member
  exact ⟨u32_lt _, u32_lt _⟩

/-- A map that admits an address of one of the kernel's frames lets a user program map it. -/
theorem overlaps_apart (started : booted image machine = .ok early)
    (found : initFreeListPage image early = .ok first) (sound : SoundMap info.mmap)
    (completed : initFrames image first info = .ok (userMap, final))
    (linked : Linked final.memory final.freeFramePaddr frames) (positive : ∀ frame ∈ frames, 0 < frame)
    {shown : List PhysicalMap} (words : MapWords userMap shown) (apart : KeepsApart shown frames) :
    ¬ Overlaps image info.mmap shown := by
  rintro ⟨entry, inMap, available, frame, addr, begins, behind, before, admitted⟩
  have few : shown.length ≤ 512 := by
    obtain ⟨_, _, completed⟩ := Trap.bind_eq_ok.mp completed
    rw [words.length]
    exact map_room info.mmap (by decide) completed
  have isFrame : frameOf addr = frame := by
    have aligned := begins.1
    unfold frameOf
    omega
  have small : addr < 4294967296 := by
    obtain ⟨region, _, _, high⟩ := admitted
    exact high.trans (u32_lt _)
  apply boundary_maps few words.words small admitted apart
  rw [isFrame, listed_begins started found sound completed linked positive]
  exact ⟨entry, inMap, available, begins⟩

/-- Whatever stands at `user_physical_map`, user programs never map a frame that `init_frames` took for
the kernel if and only if it admits no address of such a frame. As long as it is what `init_frames`
left there, that means that no such frame reaches into a user's part. -/
theorem user_frames_apart_iff (started : booted image machine = .ok early)
    (found : initFreeListPage image early = .ok first) (sound : SoundMap info.mmap)
    (completed : initFrames image first info = .ok (userMap, final))
    (linked : Linked final.memory final.freeFramePaddr frames) (positive : ∀ frame ∈ frames, 0 < frame) :
    (∀ shown, MapWords userMap shown → (KeepsApart shown frames ↔ ¬ Overlaps image info.mmap shown)) ∧
      (KeepsApart userMap frames ↔ ∀ entry ∈ info.mmap, entry.Available → ∀ other ∈ info.mmap,
        other.Available → ¬ ReachesInto image entry other) := by
  have exactly : ∀ shown, MapWords userMap shown →
      (KeepsApart shown frames ↔ ¬ Overlaps image info.mmap shown) := fun _ words =>
    ⟨overlaps_apart started found sound completed linked positive words,
      apart_of_overlaps started found sound completed linked positive⟩
  refine ⟨exactly, ?_⟩
  rw [exactly userMap ⟨rfl, built_words completed⟩]
  exact built_overlaps_iff sound completed

/-- The list of a kernel that boots from one region. -/
theorem one_region_listed (entry : MMapEntry) (accepted : BootFrames.Accepted entry)
    (available : entry.Available) (sound : SoundMap [entry]) (low : kernelTo entry ≤ 0xFFFFF000)
    (order : kernelFrom sampleImage entry < kernelTo entry) : ∃ early first userMap final frames,
      booted sampleImage sampleMachine = .ok early ∧ initFreeListPage sampleImage early = .ok first ∧
      initFrames sampleImage first ⟨mbFlagMmap, [entry]⟩ = .ok (userMap, final) ∧
      Linked final.memory final.freeFramePaddr frames ∧ ∀ frame ∈ frames, 0 < frame := by
  obtain ⟨early, first, started, found⟩ := sample_boots
  obtain ⟨userMap, final, completed⟩ := one_region_boots entry started found accepted available sound low order
  obtain ⟨window, none⟩ := boot_window started found
  have collecting := completed
  obtain ⟨_, _, collecting⟩ := Trap.bind_eq_ok.mp collecting
  rcases collect_entries sampleImage [] [entry] sound (List.forall_mem_singleton.2 fun _ => low) none
    (List.forall_mem_nil _) with failed | ⟨userMap', final', added, again, collected, _⟩
  · rw [failed] at collecting
    cases collecting
  · rw [collecting] at again
    cases again
    refine ⟨early, first, userMap, final, _, started, found, completed, collected.linked, fun frame member => ?_⟩
    exact (collected.bounded frame member).1

/-- With 128 MiB the parts meet at the edge of a frame. The built map keeps them apart, and one whose
first word was overwritten does not. -/
theorem user_frames_apart_half_memory : ∃ early first userMap final frames,
    booted sampleImage sampleMachine = .ok early ∧ initFreeListPage sampleImage early = .ok first ∧
    initFrames sampleImage first ⟨mbFlagMmap, [halfMemory]⟩ = .ok (userMap, final) ∧
    KeepsApart userMap frames ∧ ¬ KeepsApart [⟨0x1A00000, 0x6580000⟩] frames := by
  have sound : SoundMap [halfMemory] := one_entry_sound (by decide) (by decide)
  obtain ⟨early, first, userMap, final, frames, started, found, completed, linked, positive⟩ :=
    one_region_listed halfMemory (by decide) (by decide) sound (by decide) (by decide)
  obtain ⟨exactly, built⟩ := @user_frames_apart_iff _ _ _ _ _ ⟨mbFlagMmap, [halfMemory]⟩ _ _ started found sound
    completed linked positive
  refine ⟨early, first, userMap, final, frames, started, found, completed, ?_, ?_⟩
  · rw [built]
    have isTo : kernelTo halfMemory = 0x1A60000 := by decide
    intro entry inMap _ other second _ reaches
    rw [List.mem_singleton.1 inMap, List.mem_singleton.1 second] at reaches
    obtain ⟨frame, addr, ⟨aligned, _, below⟩, _, before, low, _⟩ := reaches
    omega
  · have isMap := @built_map _ _ _ ⟨mbFlagMmap, [halfMemory]⟩ _ completed
    have one : userMap.length = 1 := by
      rw [isMap]
      decide
    rw [exactly [⟨0x1A00000, 0x6580000⟩] ⟨one.symm, by decide⟩, not_not]
    exact ⟨halfMemory, List.mem_cons_self, by decide, 0x1A00000, 0x1A00000, by unfold BeginsIn; decide, by decide,
      by decide, ⟨0x1A00000, 0x6580000⟩, List.mem_cons_self, by decide, by decide⟩

/-- With 256 MiB the frame 0x33F9000 is the kernel's and the user's. -/
theorem user_frames_not_apart : ¬ ∀ (image : Image) (machine early first final : Machine)
    (info : MultibootInfo) (userMap : List PhysicalMap) (frames : List Nat),
    booted image machine = .ok early → initFreeListPage image early = .ok first → SoundMap info.mmap →
      initFrames image first info = .ok (userMap, final) →
        Linked final.memory final.freeFramePaddr frames → (∀ frame ∈ frames, 0 < frame) →
          KeepsApart userMap frames := by
  intro always
  have sound : SoundMap [upperMemory] := one_entry_sound (by decide) (by decide)
  obtain ⟨early, first, userMap, final, frames, started, found, completed, linked, positive⟩ :=
    one_region_listed upperMemory (by decide) (by decide) sound (by decide) (by decide)
  have apart := always _ _ _ _ _ ⟨mbFlagMmap, [upperMemory]⟩ _ _ started found sound completed linked positive
  have none := @overlaps_apart _ _ _ _ _ ⟨mbFlagMmap, [upperMemory]⟩ _ _ started found sound completed linked
    positive _ ⟨rfl, built_words completed⟩ apart
  apply none
  exact ⟨upperMemory, List.mem_cons_self, by decide, 0x33F9000, 0x33F9999, by unfold BeginsIn; decide, by decide,
    by decide, (@user_part_iff _ _ _ ⟨mbFlagMmap, [upperMemory]⟩ _ sound completed 0x33F9999).2
      ⟨upperMemory, List.mem_cons_self, by decide, by decide, by decide, by decide⟩⟩

end Results
end ParadiseOS.FrameSharing
