import ParadiseOS.MapInstalls

/-!
# What `syscall_virt_map` maps

The array of addresses is checked in the caller's address space and read in the target's,
where another one may lie at its address. The pages go into the target's page tables,
which other directories may share.
-/

namespace ParadiseOS.MapCalls

open MachineWord MapInstalls PagingChecks PagingModel PagingSteps PagingMaps TransferMoves TwoLevelPaging
open SpaceCalls VirtModel VirtRanges
open RbTreeRuns (getProcess)

set_option autoImplicit false

section Statement

variable (machine next : Machine) (roots : List Nat) (aid root vaddr paddr n flags : Nat)

/-- The word that an address space shows in an array, zero if it shows none. -/
def arrayWord (i : Nat) : Nat :=
  match loadWord (switch machine root) (elementAddr paddr i) with
  | .ok word => word
  | .error _ => 0

/-- The page leads users to the frame of the word, and lets them write if that was asked for. -/
structure LeadsTo (memory : Memory) (page word : Nat) : Prop where
  present : Present (pageEntry memory root page)
  frame : frameOf (pageEntry memory root page) = frameOf word
  user : UserMode (pageEntry memory root page)
  writable : Writable (pageEntry memory root page) ↔ flags &&& virtMapWritable ≠ 0

/-- The call mapped the range to the caller's array, or nothing; of the other pages, the watched
ones are as before. -/
structure InstallsArray (watched : Nat → Prop) (result : SyscallResult) : Prop where
  success : result.err = 0 → ∀ i < n,
    LeadsTo root flags next.memory (pageOf vaddr i) (arrayWord machine machine.cr3 paddr i)
  others : result.err = 0 → ∀ other ∈ roots, ∀ page < 1048576, watched page →
    ¬ (other = root ∧ InRange vaddr n page) →
    pageEntry next.memory other page = pageEntry machine.memory other page
  failure : result.err ≠ 0 → ∀ other page,
    pageEntry next.memory other page = pageEntry machine.memory other page
  caller : next.cr3 = machine.cr3 ∧ next.currentPageDir = machine.currentPageDir

/-- The pages that are neither part of the tables nor the window of the free list. -/
def Ordinary (page : Nat) : Prop := page < 1047552 ∧ page ≠ windowPage machine

/-- The process is there, and the array starts on a page that the caller may read. -/
def Looked : Prop :=
  aid >>> 16 = 0 ∧ getProcess machine.processTree aid ≠ .ok 0 ∧ validateUserReadable machine paddr ≠ .ok 0

/-- Both lookups succeed, the range is free, and the target's array holds frames for users. -/
structure Accepted : Prop where
  looked : Looked machine aid paddr
  free : ∀ i < n, ¬ Present (pageEntry machine.memory root (pageOf vaddr i))
  valid : ∀ i < n, ∃ word, loadWord (switch machine root) (elementAddr paddr i) = .ok word ∧
    userFrameValid (switch machine root) word = .ok true

/-- Caller and target have the same frames at the address of the array. -/
def SameArray : Prop := ∀ i < n,
  frameOf (arrayWord machine root paddr i) = frameOf (arrayWord machine machine.cr3 paddr i)

/-- No other directory shares a page table of the range. -/
def Unshared : Prop := ∀ i < n, ∀ other ∈ roots, other ≠ root →
  ¬ Shares machine.memory root other (pageOf vaddr i)

/-- All pages of the range have a page table. -/
def Tabled : Prop := ∀ i < n, Present (directoryEntry machine.memory root (pageOf vaddr i / 1024))

end Statement

section Calls

variable {machine next : Machine} {roots frames : List Nat} {aid root vaddr paddr n flags : Nat}
  {result : SyscallResult}

/-- The steps of a call that returns: the lookups, the first loop and the second. -/
theorem virt_map_steps (spaces : Spaces machine roots) (processes : ProcessRoots machine roots)
    (isRoot : root = spaceOf machine aid)
    (completed : syscallVirtMap machine aid vaddr paddr n flags = .ok (result, next)) :
    (¬ Looked machine aid paddr ∧ result.err ≠ 0 ∧ next = machine) ∨
      (Looked machine aid paddr ∧ root ∈ roots ∧
        ∃ err, virtMapCheck (switch machine root) vaddr paddr 0 n = .ok err ∧
          ((err ≠ 0 ∧ result.err ≠ 0 ∧ next = machine) ∨
            (err = 0 ∧ result.err = 0 ∧
              ∃ installed, virtMapInstall (switch machine root) vaddr paddr (getPteFlags (u16 flags)) 0 n =
                .ok installed ∧ next = setPageDir installed (getPageDir machine)))) := by
  obtain ⟨process, found, completed⟩ := Trap.bind_eq_ok.mp completed
  unfold findProcess at found
  split_ifs at completed with missing
  · cases completed
    refine .inl ⟨fun looked => ?_, by decide, rfl⟩
    rw [if_pos looked.1, missing] at found
    exact looked.2.1 found
  · split_ifs at found with small
    · obtain ⟨pointer, validated, completed⟩ := Trap.bind_eq_ok.mp completed
      split_ifs at completed with invalid
      · cases completed
        exact .inl ⟨fun looked => looked.2.2 (invalid ▸ validated), by decide, rfl⟩
      · have isPtr : pointer = paddr := by
          have entry := validated
          obtain ⟨_, _, entry⟩ := Trap.bind_eq_ok.mp entry
          split_ifs at entry
          · exact (Except.ok.inj entry).symm
          · exact absurd (Except.ok.inj entry).symm invalid
        rw [isPtr] at completed validated invalid
        have isSpace : root = machine.pageDirPaddr process := by
          rw [isRoot]
          simp only [spaceOf, found]
        have member : root ∈ roots := isSpace ▸ processes aid process found missing
        have looked : Looked machine aid paddr := by
          refine ⟨small, ?_, ?_⟩
          · rw [found]
            exact fun none => missing (Except.ok.inj none)
          · rw [validated]
            exact fun none => invalid (Except.ok.inj none)
        rw [← isSpace, virtMapInto, set_page_dir_ok spaces.current] at completed
        obtain ⟨err, checked, completed⟩ := Trap.bind_eq_ok.mp completed
        refine .inr ⟨looked, member, err, checked, ?_⟩
        split_ifs at completed with refused
        · have back : setPageDir (switch machine root) (getPageDir machine) = machine := by
            rw [set_page_dir_ok rfl, switch_switch, getPageDir, spaces.current, switch_self spaces.current]
          rw [back] at completed
          cases completed
          exact .inl ⟨refused, refused, rfl⟩
        · obtain ⟨installed, installing, completed⟩ := Trap.bind_eq_ok.mp completed
          cases completed
          exact .inr ⟨not_not.1 refused, rfl, installed, installing, rfl⟩
    · exact absurd (Except.ok.inj found).symm missing

/-- What the first loop finds, in terms of the target. -/
theorem accepted_iff (spaces : Spaces machine roots) (member : root ∈ roots)
    (looked : Looked machine aid paddr) {err : Nat}
    (checked : virtMapCheck (switch machine root) vaddr paddr 0 n = .ok err) :
    Accepted machine aid root vaddr paddr n ↔ err = 0 := by
  have seen := map_check_iff (spaces_switch spaces member).selfMapped checked
  simp only [Nat.zero_add] at seen
  rw [seen]
  exact ⟨fun accepted j inside => ⟨accepted.free j inside, accepted.valid j inside⟩,
    fun all => ⟨looked, fun j inside => (all j inside).1, fun j inside => (all j inside).2⟩⟩

/-- A call that returns has refused and changed nothing, or was accepted and has installed. -/
theorem virt_map_ok (spaces : Spaces machine roots) (processes : ProcessRoots machine roots)
    (isRoot : root = spaceOf machine aid)
    (completed : syscallVirtMap machine aid vaddr paddr n flags = .ok (result, next)) :
    (¬ Accepted machine aid root vaddr paddr n ∧ result.err ≠ 0 ∧ next = machine) ∨
      (Accepted machine aid root vaddr paddr n ∧ result.err = 0 ∧ root ∈ roots ∧
        ∃ installed, virtMapInstall (switch machine root) vaddr paddr (getPteFlags (u16 flags)) 0 n =
          .ok installed ∧ next = setPageDir installed (getPageDir machine)) := by
  rcases virt_map_steps spaces processes isRoot completed with ⟨no, refused, same⟩ |
    ⟨looked, member, err, checked, outcome⟩
  · exact .inl ⟨fun accepted => no accepted.looked, refused, same⟩
  · have accepted := accepted_iff spaces member looked checked
    rcases outcome with ⟨wrong, refused, same⟩ | ⟨right, success, installing⟩
    · exact .inl ⟨fun yes => wrong (accepted.1 yes), refused, same⟩
    · exact .inr ⟨accepted.2 right, success, member, installing⟩

theorem pte_flags_user (flags : Nat) : getPteFlags flags &&& 4 ≠ 0 ∧ UserMode (getPteFlags flags) := by
  unfold getPteFlags
  split_ifs <;> decide

theorem pte_flags_writable (flags : Nat) :
    Writable (getPteFlags (u16 flags)) ↔ flags &&& virtMapWritable ≠ 0 := by
  have same : u16 flags &&& virtMapWritable = flags &&& virtMapWritable := by
    unfold u16 virtMapWritable
    rw [Nat.and_one_is_mod, Nat.and_one_is_mod]
    omega
  unfold getPteFlags
  rw [same]
  split_ifs with writes
  · exact iff_of_true (by decide) writes
  · exact iff_of_false (by decide) writes

/-- What an accepted call leaves. -/
structure MapDone (machine next : Machine) (roots frames : List Nat) (root vaddr paddr n flags : Nat) : Prop where
  caller : next.cr3 = machine.cr3 ∧ next.currentPageDir = machine.currentPageDir
  words : ∀ i < n, arrayWord machine root paddr i < 4294967296
  installed : ∃ installed rest, next.memory = installed.memory ∧
    Installed (switch machine root) installed roots frames rest vaddr (getPteFlags (u16 flags)) 0 n
      (arrayWord machine root paddr)

theorem map_done (spaces : Spaces machine roots) (free : FreeList machine roots frames)
    (closed : ClosedTables machine roots) (member : root ∈ roots)
    (plain : ∀ i < n, PlainWord (switch machine root) roots frames (elementAddr paddr i))
    (accepted : Accepted machine aid root vaddr paddr n) {installed : Machine}
    (installing : virtMapInstall (switch machine root) vaddr paddr (getPteFlags (u16 flags)) 0 n = .ok installed)
    (isNext : next = setPageDir installed (getPageDir machine)) :
    MapDone machine next roots frames root vaddr paddr n flags := by
  have shown : ∀ i < n, loadWord (switch machine root) (elementAddr paddr i) =
      .ok (arrayWord machine root paddr i) := by
    intro i inside
    obtain ⟨word, loaded, _⟩ := accepted.valid i inside
    unfold arrayWord
    rw [loaded]
  obtain ⟨rest, done⟩ := map_install_ok (spaces_switch spaces member) (free_list_switch spaces free member)
    (closed root member) (pte_flags_user _).1 (pte_flags_lt _)
    (fun j inside => by rw [Nat.zero_add]; exact shown j inside)
    (fun j inside => by rw [Nat.zero_add]; exact plain j inside) installing
  have back : next = switch installed machine.cr3 := by
    rw [isNext, set_page_dir_ok done.kept.spaces.current, getPageDir, spaces.current]
  refine ⟨?_, fun i inside => load_word_lt (shown i inside), installed, rest, ?_, done⟩
  · rw [back]
    exact ⟨rfl, spaces.current.symm⟩
  · rw [back]
    rfl

section Pages

variable {page : Nat}

theorem done_page (done : MapDone machine next roots frames root vaddr paddr n flags) {i : Nat} (inside : i < n) :
    pageOf vaddr i < 1047552 ∧ pageOf vaddr i ≠ windowPage machine ∧
      ¬ Present (pageEntry machine.memory root (pageOf vaddr i)) := by
  obtain ⟨_, _, _, installed⟩ := done.installed
  have low := installed.low i inside
  have away := installed.away i inside
  have absent := installed.absent i inside
  rw [Nat.zero_add] at low away absent
  exact ⟨low, away, absent⟩

/-- A page of the range has the entry of its word, in every directory that shares its table. -/
theorem done_inside (done : MapDone machine next roots frames root vaddr paddr n flags) {other i : Nat}
    (member : other ∈ roots) (inside : i < n) (tied : Tied machine root other (pageOf vaddr i)) :
    pageEntry next.memory other (pageOf vaddr i) =
      createEntry (arrayWord machine root paddr i) (getPteFlags (u16 flags)) := by
  obtain ⟨low, away, _⟩ := done_page done inside
  obtain ⟨_, _, memory, installed⟩ := done.installed
  have assigned := (installed.entries _ low away).inside other member i inside (by rw [Nat.zero_add]) tied
  rw [Nat.zero_add] at assigned
  rw [memory]
  exact assigned

theorem done_outside (done : MapDone machine next roots frames root vaddr paddr n flags) {other : Nat}
    (member : other ∈ roots) (ordinary : Ordinary machine page)
    (off : ∀ i < n, page = pageOf vaddr i → ¬ Tied machine root other page) :
    pageEntry next.memory other page = pageEntry machine.memory other page := by
  obtain ⟨_, _, memory, installed⟩ := done.installed
  rw [memory]
  refine (installed.entries _ ordinary.1 ordinary.2).outside other member ?_
  by_cases tied : Tied machine root other page
  · left
    intro i inside same
    rw [Nat.zero_add] at same
    exact off i inside same tied
  · exact .inr tied

/-- Where no table is made, the window and the tables' own pages stay as well. -/
theorem done_outside_tabled (spaces : Spaces machine roots)
    (done : MapDone machine next roots frames root vaddr paddr n flags)
    (tabled : Tabled machine root vaddr n) {other : Nat} (member : other ∈ roots) (small : page < 1048576)
    (off : ∀ i < n, page = pageOf vaddr i → ¬ Tied machine root other page) :
    pageEntry next.memory other page = pageEntry machine.memory other page := by
  by_cases ordinary : Ordinary machine page
  · exact done_outside done member ordinary off
  · obtain ⟨installed, rest, memory, all⟩ := done.installed
    obtain ⟨rewritten, assigned⟩ := all.inPlace fun j inside => by
      rw [Nat.zero_add]
      exact tabled j inside
    rw [memory]
    by_cases low : page < 1047552
    · have window : page = windowPage machine := by
        by_contra away
        exact ordinary ⟨low, away⟩
      rw [window]
      refine assigned.outside other member (.inl fun j inside same => ?_)
      exact all.away j inside same.symm
    · have same := rewritten.sameRoots other member
      have selfMapped := spaces.family.selfMapped other member
      have later := self_mapped_same_on same selfMapped
      have index : page = 1023 * 1024 + (page - 1047552) := by omega
      rw [index, page_entry_self_map later (by omega), page_entry_self_map selfMapped (by omega)]
      exact directory_entry_same_on same (by omega)

end Pages

theorem installs_refused {watched : Nat → Prop} (refused : result.err ≠ 0) :
    InstallsArray machine machine roots root vaddr paddr n flags watched result :=
  ⟨fun success => absurd success refused, fun success => absurd success refused, fun _ _ _ => rfl, rfl, rfl⟩

/-- The pages lead to the frames of the words that the target shows. -/
theorem done_leads (done : MapDone machine next roots frames root vaddr paddr n flags) (member : root ∈ roots)
    {i : Nat} (inside : i < n) :
    LeadsTo root flags next.memory (pageOf vaddr i) (arrayWord machine root paddr i) := by
  have entry := done_inside done member inside (.inl rfl)
  have bounded := done.words i inside
  have small := pte_flags_lt (u16 flags)
  refine ⟨?_, ?_, ?_, ?_⟩
  · rw [entry]
    exact create_entry_present _ _
  · rw [entry, create_entry_frame bounded small]
  · rw [entry, create_entry_user]
    exact (pte_flags_user _).2
  · rw [entry, create_entry_writable]
    exact pte_flags_writable flags

theorem done_installs {watched : Nat → Prop} (done : MapDone machine next roots frames root vaddr paddr n flags)
    (member : root ∈ roots) (success : result.err = 0) (same : SameArray machine root paddr n)
    (others : ∀ other ∈ roots, ∀ page < 1048576, watched page → ¬ (other = root ∧ InRange vaddr n page) →
      pageEntry next.memory other page = pageEntry machine.memory other page) :
    InstallsArray machine next roots root vaddr paddr n flags watched result := by
  refine ⟨fun _ i inside => ?_, fun _ => others, fun refused => absurd success refused, done.caller⟩
  obtain ⟨present, frame, user, writable⟩ := done_leads done member inside
  exact ⟨present, frame.trans (same i inside), user, writable⟩

theorem same_of_installs {watched : Nat → Prop} (done : MapDone machine next roots frames root vaddr paddr n flags)
    (member : root ∈ roots) (success : result.err = 0)
    (installs : InstallsArray machine next roots root vaddr paddr n flags watched result) :
    SameArray machine root paddr n := by
  intro i inside
  rw [← (done_leads done member inside).frame]
  exact (installs.success success i inside).frame

theorem off_of_unshared {page other : Nat} (unshared : Unshared machine roots root vaddr n) (member : other ∈ roots)
    (away : ¬ (other = root ∧ InRange vaddr n page)) :
    ∀ i < n, page = pageOf vaddr i → ¬ Tied machine root other page := by
  rintro i inside same (here | shared)
  · exact away ⟨here.symm, i, inside, same⟩
  · by_cases equal : other = root
    · exact away ⟨equal, i, inside, same⟩
    · exact unshared i inside other member equal (same ▸ shared)

theorem unshared_of_installs {watched : Nat → Prop}
    (done : MapDone machine next roots frames root vaddr paddr n flags) (success : result.err = 0)
    (seen : ∀ page, Ordinary machine page → watched page)
    (installs : InstallsArray machine next roots root vaddr paddr n flags watched result) :
    Unshared machine roots root vaddr n := by
  intro i inside other member differ shared
  obtain ⟨low, away, absent⟩ := done_page done inside
  have kept := installs.others success other member _ (by omega) (seen _ ⟨low, away⟩) fun both => differ both.1
  rw [done_inside done member inside (.inr shared), ← page_entry_shared shared] at kept
  rw [← kept] at absent
  exact absent (create_entry_present _ _)

/-- A table that is made shows in the pages of the tables. -/
theorem tabled_of_installs (spaces : Spaces machine roots)
    (done : MapDone machine next roots frames root vaddr paddr n flags) (member : root ∈ roots)
    (success : result.err = 0)
    (installs : InstallsArray machine next roots root vaddr paddr n flags (fun _ => True) result) :
    Tabled machine root vaddr n := by
  intro i inside
  obtain ⟨low, _, _⟩ := done_page done inside
  have present := (done_leads done member inside).present
  have table := page_entry_present present
  have index : pageOf vaddr i / 1024 < 1023 := by omega
  have kept := installs.others success root member (1023 * 1024 + pageOf vaddr i / 1024) (by omega) trivial
    (by
      rintro ⟨_, j, other, same⟩
      have lower := (done_page done other).1
      omega)
  obtain ⟨installed, rest, memory, all⟩ := done.installed
  have later := all.kept.spaces.family.selfMapped root member
  rw [← memory] at later
  rw [page_entry_self_map later (by omega),
    page_entry_self_map (spaces.family.selfMapped root member) (by omega)] at kept
  rw [← kept]
  exact table

/-- `syscall_virt_map` installs the caller's array or nothing exactly if an accepted call finds the
same frames in the target's array and no table of the range is shared; and no entry of any other page
changes, also of the window and the tables' own pages, exactly if no table has to be made, too. -/
theorem virt_map_installs_iff (spaces : Spaces machine roots) (free : FreeList machine roots frames)
    (processes : ProcessRoots machine roots) (closed : ClosedTables machine roots)
    (isRoot : root = spaceOf machine aid)
    (plain : ∀ i < n, PlainWord (switch machine root) roots frames (elementAddr paddr i))
    (completed : syscallVirtMap machine aid vaddr paddr n flags = .ok (result, next)) :
    (InstallsArray machine next roots root vaddr paddr n flags (Ordinary machine) result ↔
      (Accepted machine aid root vaddr paddr n →
        SameArray machine root paddr n ∧ Unshared machine roots root vaddr n)) ∧
    (InstallsArray machine next roots root vaddr paddr n flags (fun _ => True) result ↔
      (Accepted machine aid root vaddr paddr n →
        SameArray machine root paddr n ∧ Unshared machine roots root vaddr n ∧
          Tabled machine root vaddr n)) := by
  rcases virt_map_ok spaces processes isRoot completed with ⟨no, refused, rfl⟩ |
    ⟨accepted, success, member, installed, installing, isNext⟩
  · exact ⟨iff_of_true (installs_refused refused) fun yes => absurd yes no,
      iff_of_true (installs_refused refused) fun yes => absurd yes no⟩
  · have done := map_done spaces free closed member plain accepted installing isNext
    constructor
    · constructor
      · intro installs _
        exact ⟨same_of_installs done member success installs,
          unshared_of_installs done success (fun _ ordinary => ordinary) installs⟩
      · intro condition
        obtain ⟨same, unshared⟩ := condition accepted
        apply done_installs done member success same
        intro other second page _ ordinary away
        exact done_outside done second ordinary (off_of_unshared unshared second away)
    · constructor
      · intro installs _
        exact ⟨same_of_installs done member success installs,
          unshared_of_installs done success (fun _ _ => trivial) installs,
          tabled_of_installs spaces done member success installs⟩
      · intro condition
        obtain ⟨same, unshared, tabled⟩ := condition accepted
        apply done_installs done member success same
        intro other second page small _ away
        exact done_outside_tabled spaces done tabled second small (off_of_unshared unshared second away)

end Calls

section Sample

/-- The frame of a byte is no directory, no free frame, and no table at one of the indices. -/
def PlainChecks (machine : Machine) (roots frames indices : List Nat) (addr : Nat) : Prop :=
  ∀ byte < 4, ∀ cell ∈ translate machine.memory machine.cr3 (u32 (addr + byte)),
    cell / 4096 * 4096 ∉ roots ∧ cell / 4096 * 4096 ∉ frames ∧
    ∀ root ∈ roots, ∀ index ∈ indices, Present (directoryEntry machine.memory root index) →
      frameOf (directoryEntry machine.memory root index) ≠ cell / 4096 * 4096

instance (machine : Machine) (roots frames indices : List Nat) (addr : Nat) :
    Decidable (PlainChecks machine roots frames indices addr) :=
  inferInstanceAs (Decidable (∀ byte < 4, ∀ cell ∈ translate machine.memory machine.cr3 _, _))

theorem plain_of_checks {machine : Machine} {roots frames indices : List Nat} {addr : Nat}
    (covers : Covers machine.memory roots indices)
    (passed : PlainChecks machine roots frames indices addr) : PlainWord machine roots frames addr := by
  intro byte small cell found
  obtain ⟨notRoot, notFree, notTable⟩ := passed byte small cell found
  rintro (isRoot | ⟨root, member, index, low, present, same⟩ | isFree)
  · exact notRoot isRoot
  · exact notTable root member index (covers root member index low present) present same
  · exact notFree isFree

/-- At 0x401000, process 1 has the address of one frame for users, and process 2 that of another. -/
def arrayMachine : Machine :=
  { sampleMachine with memory := imageOf ((0x19000, 0x21000) :: (0x1C000, 0x20000) :: sampleWords) }

theorem array_covers : Covers arrayMachine.memory sampleRoots sampleIndices :=
  covers_of_words sampleIndices (by decide) (by decide)

theorem array_spaces : Spaces arrayMachine sampleRoots where
  family := family_of_checks sampleIndices array_covers (by decide +kernel) (by decide +kernel)
  current := rfl
  member := by decide
  headAligned := by decide
  headLow := by decide
  headPte := by decide
  headShared := by decide +kernel

theorem array_free : FreeList arrayMachine sampleRoots sampleFrames :=
  free_list_of_checks sampleIndices array_covers (by decide +kernel)
    ⟨rfl, by decide +kernel, (by decide +kernel : readWord arrayMachine.memory 0x17000 = 0)⟩
    (by decide) (by decide +kernel)

theorem array_closed : ClosedTables arrayMachine sampleRoots := by
  unfold ClosedTables
  decide +kernel

theorem array_plain {root : Nat} (passed : PlainChecks (switch arrayMachine root) sampleRoots sampleFrames
    sampleIndices 0x401000) : ∀ i < 1, PlainWord (switch arrayMachine root) sampleRoots sampleFrames
      (elementAddr 0x401000 i) := by
  intro i inside
  have only : i = 0 := by omega
  have place : elementAddr 0x401000 0 = 0x401000 := by decide
  rw [only, place]
  exact plain_of_checks array_covers passed

/-- Process 1 maps the frame of its array. -/
theorem virt_map_installs_own_page : ∃ result next,
    syscallVirtMap arrayMachine 1 0x403000 0x401000 1 1 = .ok (result, next) ∧
      InstallsArray arrayMachine next sampleRoots 0x10000 0x403000 0x401000 1 1 (fun _ => True) result := by
  obtain ⟨⟨result, next⟩, completed, _⟩ := returns_with_iff.1
    (by decide +kernel : returnsWith (syscallVirtMap arrayMachine 1 0x403000 0x401000 1 1) (fun _ => true) = true)
  refine ⟨result, next, completed, ?_⟩
  apply (virt_map_installs_iff array_spaces array_free sample_processes array_closed (by decide +kernel)
    (array_plain (by decide +kernel)) completed).2.2
  intro _
  refine ⟨?_, ?_, ?_⟩
  · unfold SameArray
    decide +kernel
  · unfold Unshared
    decide +kernel
  · unfold Tabled
    decide +kernel

/-- Process 1 maps for process 2, which gets the frame of its own array. -/
theorem virt_map_installs_other_array : ∃ result next,
    Spaces arrayMachine sampleRoots ∧ FreeList arrayMachine sampleRoots sampleFrames ∧
      ProcessRoots arrayMachine sampleRoots ∧ ClosedTables arrayMachine sampleRoots ∧
      syscallVirtMap arrayMachine 2 0x402000 0x401000 1 1 = .ok (result, next) ∧
      ¬ InstallsArray arrayMachine next sampleRoots 0x11000 0x402000 0x401000 1 1 (Ordinary arrayMachine)
        result := by
  obtain ⟨⟨result, next⟩, completed, passed⟩ := returns_with_iff.1
    (by decide +kernel : returnsWith (syscallVirtMap arrayMachine 2 0x402000 0x401000 1 1)
      (fun (result, next) => result.err == 0 && frameOf (pageEntry next.memory 0x11000 0x402) == 0x20000) = true)
  refine ⟨result, next, array_spaces, array_free, sample_processes, array_closed, completed, fun installs => ?_⟩
  obtain ⟨success, frame⟩ := Bool.and_eq_true_iff.1 passed
  have wanted := (installs.success (eq_of_beq success) 0 (by decide)).frame
  have page : pageOf 0x402000 0 = 0x402 := by decide
  rw [page, eq_of_beq frame] at wanted
  have word : arrayWord arrayMachine arrayMachine.cr3 0x401000 0 = 0x21000 := by decide +kernel
  rw [word] at wanted
  exact absurd wanted (by decide)

end Sample

end ParadiseOS.MapCalls
