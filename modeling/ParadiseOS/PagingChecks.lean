import ParadiseOS.PagingSteps

/-!
# Checking a set of paging structures

Whether directories, tables and free list are sound is a matter of the few entries
that are present. `imageOf` is memory with a few words in it; the checks run over
the indices at which a directory may have a table.
-/

namespace ParadiseOS.PagingChecks

open MachineWord PagingModel PagingSteps TwoLevelPaging

set_option autoImplicit false

/-- The word stored at an address, zero if none is. -/
def wordAt : List (Nat × Nat) → Nat → Nat
  | [], _ => 0
  | (stored, word) :: rest, addr => if stored = addr then word else wordAt rest addr

/-- Memory that holds some words, at multiples of 4, and zeros elsewhere. -/
def imageOf (words : List (Nat × Nat)) : Memory :=
  fun cell => UInt8.ofNat (wordAt words (cell / 4 * 4) / 256 ^ (cell % 4))

section Images

variable {words : List (Nat × Nat)} {addr : Nat}

theorem word_at_stored (stored : wordAt words addr ≠ 0) : ∃ pair ∈ words, pair.1 = addr := by
  induction words with
  | nil => exact absurd rfl stored
  | cons pair words ih =>
      rw [wordAt] at stored
      split_ifs at stored with here
      · exact ⟨pair, List.mem_cons_self, here⟩
      · obtain ⟨other, member, same⟩ := ih stored
        exact ⟨other, List.mem_cons_of_mem _ member, same⟩

/-- A word that nothing is stored in is zero. -/
theorem image_read_zero (aligned : addr % 4 = 0) (empty : wordAt words addr = 0) :
    readWord (imageOf words) addr = 0 := by
  have byte : ∀ offset < 4, imageOf words (addr + offset) = 0 := by
    intro offset small
    have place : (addr + offset) / 4 * 4 = addr := by omega
    rw [imageOf, place, empty, Nat.zero_div]
    rfl
  have first := byte 0 (by decide)
  rw [Nat.add_zero] at first
  rw [readWord, first, byte 1 (by decide), byte 2 (by decide), byte 3 (by decide)]
  rfl

end Images

section Checks

variable {memory : Memory} {machine : Machine} {roots frames : List Nat} (indices : List Nat)

/-- Every directory has tables at some of the given indices only. -/
def Covers (memory : Memory) (roots indices : List Nat) : Prop :=
  ∀ root ∈ roots, ∀ index < 1023, Present (directoryEntry memory root index) → index ∈ indices

theorem covers_of_words {words : List (Nat × Nat)} (aligned : ∀ root ∈ roots, root % 4 = 0)
    (listed : ∀ pair ∈ words, ∀ root ∈ roots, root ≤ pair.1 → pair.1 < root + 4092 →
      (pair.1 - root) / 4 ∈ indices) : Covers (imageOf words) roots indices := by
  intro root member index low present
  have rootAligned := aligned root member
  have stored : wordAt words (root + 4 * index) ≠ 0 := by
    intro empty
    rw [directoryEntry, image_read_zero (by omega) empty] at present
    exact not_present_zero present
  obtain ⟨pair, inside, same⟩ := word_at_stored stored
  have found := listed pair inside root member (by omega) (by omega)
  have place : (pair.1 - root) / 4 = index := by omega
  rwa [place] at found

/-- A page that is mapped has a stored entry in one of the tables. -/
theorem page_stored {words : List (Nat × Nat)} {root page : Nat} (covers : Covers (imageOf words) roots indices)
    (member : root ∈ roots) (low : page < 1047552)
    (present : Present (pageEntry (imageOf words) root page)) :
    page / 1024 ∈ indices ∧ ∃ pair ∈ words, pair.1 = slot (imageOf words) root page := by
  have table := page_entry_present present
  refine ⟨covers root member _ (by omega) table, ?_⟩
  rw [pageEntry, if_pos table] at present
  apply word_at_stored
  intro empty
  have aligned : slot (imageOf words) root page % 4 = 0 := by
    have tableAligned := frame_of_aligned (directoryEntry (imageOf words) root (page / 1024))
    unfold slot
    omega
  rw [image_read_zero aligned empty] at present
  exact not_present_zero present

/-- No directory is a table, and no frame is a table at two indices. -/
def TablesApart (memory : Memory) (roots indices : List Nat) : Prop :=
  ∀ root ∈ roots, ∀ index ∈ indices, Present (directoryEntry memory root index) →
    frameOf (directoryEntry memory root index) ∉ roots ∧
    ∀ other ∈ roots, ∀ position ∈ indices, Present (directoryEntry memory other position) →
      frameOf (directoryEntry memory root index) = frameOf (directoryEntry memory other position) →
      index = position

instance (memory : Memory) (roots indices : List Nat) : Decidable (TablesApart memory roots indices) :=
  inferInstanceAs (Decidable (∀ root ∈ roots, ∀ index ∈ indices, _))

def DirectoriesSound (memory : Memory) (roots : List Nat) : Prop :=
  ∀ root ∈ roots, root % 4096 = 0 ∧ root < 4294967296 ∧ SelfMapped memory root

instance (memory : Memory) (roots : List Nat) : Decidable (DirectoriesSound memory roots) :=
  inferInstanceAs (Decidable (∀ root ∈ roots, _ ∧ _ ∧ _ ∧ _))

theorem family_of_checks (covers : Covers memory roots indices)
    (sound : DirectoriesSound memory roots) (apart : TablesApart memory roots indices) :
    Family memory roots where
  aligned root member := (sound root member).1
  bounded root member := (sound root member).2.1
  selfMapped root member := (sound root member).2.2
  apart root member index low present :=
    (apart root member index (covers root member index low present) present).1
  owner root member other second index low position small present there same :=
    (apart root member index (covers root member index low present) present).2 other second position
      (covers other second position small there) there same

/-- The free frames are frames of their own. -/
def FreeSound (memory : Memory) (roots frames indices : List Nat) : Prop :=
  ∀ frame ∈ frames, frame % 4096 = 0 ∧ 0 < frame ∧ frame < 4294967296 ∧ frame ∉ roots ∧
    ∀ root ∈ roots, ∀ index ∈ indices, Present (directoryEntry memory root index) →
      frameOf (directoryEntry memory root index) ≠ frame

instance (memory : Memory) (roots frames indices : List Nat) :
    Decidable (FreeSound memory roots frames indices) :=
  inferInstanceAs (Decidable (∀ frame ∈ frames, _ ∧ _ ∧ _ ∧ _ ∧ _))

/-- Frames in a row, each linked to the next one. -/
theorem linked_run {start : Nat} (count : Nat)
    (links : ∀ i < count, readWord memory (start + 4096 * i) = start + 4096 * (i + 1))
    (last : readWord memory (start + 4096 * count) = 0) :
    Linked memory start (List.range' start (count + 1) 4096) := by
  induction count generalizing start with
  | zero => exact ⟨rfl, last⟩
  | succ count ih =>
      refine ⟨rfl, ?_⟩
      have next := links 0 (Nat.zero_lt_succ _)
      rw [Nat.mul_zero, Nat.add_zero, Nat.zero_add, Nat.mul_one] at next
      rw [next]
      apply ih
      · intro i small
        have here := links (i + 1) (Nat.succ_lt_succ small)
        rw [show start + 4096 + 4096 * i = start + 4096 * (i + 1) by omega, here]
        omega
      · rw [show start + 4096 + 4096 * count = start + 4096 * (count + 1) by omega]
        exact last

theorem free_list_of_checks (covers : Covers machine.memory roots indices)
    (sound : FreeSound machine.memory roots frames indices)
    (linked : Linked machine.memory machine.freeFramePaddr frames) (nodup : frames.Nodup)
    (window : pageEntry machine.memory machine.cr3 (windowPage machine) =
      createEntry machine.freeFramePaddr pteWritable) : FreeList machine roots frames where
  linked := linked
  nodup := nodup
  aligned frame member := (sound frame member).1
  positive frame member := (sound frame member).2.1
  bounded frame member := (sound frame member).2.2.1
  notRoot frame member := (sound frame member).2.2.2.1
  notTable := by
    rintro frame member ⟨root, second, index, low, present, same⟩
    exact (sound frame member).2.2.2.2 root second index (covers root second index low present) present
      same
  window := window

end Checks

section Outcomes

variable {Value : Type} {outcome : Except Trap Value} {check : Value → Bool}

/-- A call returns, and what it returns passes a check. -/
def returnsWith (outcome : Except Trap Value) (check : Value → Bool) : Bool :=
  match outcome with
  | .ok value => check value
  | .error _ => false

theorem returns_with_iff :
    returnsWith outcome check = true ↔ ∃ value, outcome = .ok value ∧ check value = true := by
  unfold returnsWith
  split
  · rename_i value
    exact ⟨fun passed => ⟨value, rfl, passed⟩, fun ⟨other, same, passed⟩ => Except.ok.inj same ▸ passed⟩
  · exact iff_of_false Bool.false_ne_true fun ⟨other, same, _⟩ => by cases same

end Outcomes

section Sample

/-- Two address spaces, at 0x10000 and 0x11000, with a table at index 0, the kernel's table and
that of its read-only heap in common and a table at index 1 of their own. The words are those
tables, the list of two free frames and the map of the user frames. -/
def sampleWords : List (Nat × Nat) :=
  [(0x10000, 0x1D003), (0x10004, 0x14007), (0x10C00, 0x12003), (0x10FF8, 0x13007), (0x10FFC, 0x10003),
    (0x11000, 0x1D003), (0x11004, 0x15007), (0x11C00, 0x12003), (0x11FF8, 0x13007), (0x11FFC, 0x11003),
    (0x12004, 0x16003), (0x13000, 0x18005), (0x14004, 0x19007), (0x14008, 0x1A007), (0x14038, 0x1B003),
    (0x15004, 0x1C007), (0x16000, 0x17000), (0x18000, 0x20000), (0x18004, 0x10000),
    (0x1D400, 0x100003)]

def sampleRoots : List Nat := [0x10000, 0x11000]

def sampleFrames : List Nat := [0x16000, 0x17000]

def sampleIndices : List Nat := [0, 1, 0x300, 0x3FE]

def sampleHeap : HeapModel.Heap := ⟨fun _ => 0, 0xC0002000, 16⟩

/-- Processes 1 and 2, at 0xC0002000 and 0xC0003000. -/
def sampleTree : RbTreeModel.RbTree where
  root := 0xC0002008
  nil := 0x100
  count := 2
  node addr :=
    if addr = 0xC0002008 then ⟨0x100, 0x100, 0xC0003008, 0x10000, .black⟩
    else if addr = 0xC0003008 then ⟨0xC0002008, 0x100, 0x100, 0x20000, .red⟩
    else ⟨0x100, 0x100, 0x100, 0, .black⟩

/-- Process 1 runs. -/
def sampleMachine : Machine where
  memory := imageOf sampleWords
  cr3 := 0x10000
  currentPageDir := 0x10000
  kernelPageDir := 0x10000
  freeListHead := 0xC0001000
  freeListHeadPte := 0xFFF00004
  freeFramePaddr := 0x16000
  usedFrames := 0
  totalFrames := 2
  kernelHeap := sampleHeap
  userRoHeap := sampleHeap
  userPhysicalMap := 0xFF800000
  userPhysicalMapLen := 1
  processTree := sampleTree
  pageDirPaddr process := if process = 0xC0002000 then 0x10000 else 0x11000

theorem sample_covers : Covers sampleMachine.memory sampleRoots sampleIndices :=
  covers_of_words sampleIndices (by decide) (by decide)

theorem sample_spaces : Spaces sampleMachine sampleRoots where
  family := family_of_checks sampleIndices sample_covers (by decide +kernel) (by decide +kernel)
  current := rfl
  member := by decide
  headAligned := by decide
  headLow := by decide
  headPte := by decide
  headShared := by decide +kernel

theorem sample_free : FreeList sampleMachine sampleRoots sampleFrames :=
  free_list_of_checks sampleIndices sample_covers (by decide +kernel)
    ⟨rfl, by decide +kernel, (by decide +kernel : readWord sampleMachine.memory 0x17000 = 0)⟩
    (by decide) (by decide +kernel)

end Sample

end ParadiseOS.PagingChecks
