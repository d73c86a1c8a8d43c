import ParadiseOS.UnmapCalls

/-!
# What `syscall_virt_unmap` hands back

The frames go to an array of the caller, but through the target's address space: they
arrive where both show the array at the same cells. A range must not take the array's own
pages from the caller, and other directories that share a page table lose its pages, too.
-/

namespace ParadiseOS.UnmapArrays

open MachineWord MapCalls MapInstalls PagingChecks PagingModel PagingSteps PagingMaps TransferMoves TwoLevelPaging
open UnmapCalls VirtModel VirtRanges

set_option autoImplicit false

section Statement

variable (machine next : Machine) (roots : List Nat) (root vaddr paddr n : Nat)

/-- The address of a byte of the array. -/
def byteAddr (i byte : Nat) : Nat := u32 (elementAddr paddr i + byte)

/-- A call took the range and handed back its frames, or changed nothing. -/
structure HandsBack (result : SyscallResult) : Prop where
  unmapped : result.err = 0 → ∀ i < n, ¬ Present (pageEntry next.memory root (pageOf vaddr i))
  others : result.err = 0 → ∀ other ∈ roots, ∀ page < 1048576, ¬ (other = root ∧ InRange vaddr n page) →
    pageEntry next.memory other page = pageEntry machine.memory other page
  array : result.err = 0 → ∀ i < n, loadWord next (elementAddr paddr i) =
    .ok (frameOf (pageEntry machine.memory root (pageOf vaddr i)))
  untouched : result.err = 0 → ∀ cell, ¬ IsTable machine.memory roots (cell / 4096 * 4096) →
    (∀ i < n, ∀ byte < 4, translate machine.memory machine.cr3 (byteAddr paddr i byte) ≠ some cell) →
      next.memory cell = machine.memory cell
  failure : result.err ≠ 0 → next.memory = machine.memory
  caller : next.cr3 = machine.cr3 ∧ next.currentPageDir = machine.currentPageDir

/-- The pages of the array are not taken from the caller. -/
def KeepsArray : Prop := root = machine.cr3 →
  ∀ i < n, ∀ byte < 4, ¬ InRange vaddr n (byteAddr paddr i byte / 4096)

/-- Caller and target show each byte of the array at a cell of its own, and the same one. -/
structure OneArray : Prop where
  same : ∀ i < n, ∀ byte < 4, translate machine.memory root (byteAddr paddr i byte) =
    translate machine.memory machine.cr3 (byteAddr paddr i byte)
  single : ∀ i < n, ∀ byte < 4, ∀ j < n, ∀ other < 4,
    translate machine.memory machine.cr3 (byteAddr paddr i byte) =
      translate machine.memory machine.cr3 (byteAddr paddr j other) → i = j ∧ byte = other

instance : Decidable (KeepsArray machine root vaddr paddr n) :=
  inferInstanceAs (Decidable (_ → ∀ i < n, ∀ byte < 4, ¬ _))

/-- The words of the array lie on no paging structure of the directories. -/
def OffTables (space : Nat) : Prop := ∀ i < n, PlainWord (switch machine space) roots [] (elementAddr paddr i)

end Statement

section Calls

variable {machine next removed : Machine} {roots : List Nat} {aid root vaddr paddr n : Nat}
  {result : SyscallResult} {cells : Nat → Nat → Nat}

theorem hands_back_refused (refused : result.err ≠ 0) :
    HandsBack machine machine roots root vaddr paddr n result :=
  ⟨fun success => absurd success refused, fun success => absurd success refused,
    fun success => absurd success refused, fun success => absurd success refused, fun _ => rfl, rfl, rfl⟩

/-- The loop in the target's address space, below the tables' own pages. -/
theorem removed_of_off (spaces : Spaces machine roots) (member : root ∈ roots)
    (low : ∀ i < n, pageOf vaddr i < 1047552) (off : OffTables machine roots paddr n root)
    (completed : virtUnmapRemove (switch machine root) vaddr paddr 0 n = .ok removed) :
    ∃ cells, Removed (switch machine root) removed roots vaddr paddr 0 n cells := by
  apply unmap_remove_ok (spaces_switch spaces member) _ _ completed
  · intro j inside
    rw [Nat.zero_add]
    exact low j inside
  · intro j inside byte small cell found used
    rw [Nat.zero_add] at found
    refine off j inside byte small cell found ?_
    rcases used with isRoot | isTable
    · exact .inl isRoot
    · exact .inr (.inl isTable)

/-- A page that is not taken has its entry in every directory. -/
theorem removed_outside (spaces : Spaces machine roots)
    (done : Removed (switch machine root) removed roots vaddr paddr 0 n cells) {other page : Nat}
    (second : other ∈ roots) (small : page < 1048576)
    (off : ∀ i < n, page = pageOf vaddr i → ¬ Tied machine root other page) :
    pageEntry removed.memory other page = pageEntry machine.memory other page := by
  by_cases low : page < 1047552
  · apply (done.entries page low).outside other second
    by_cases tied : Tied machine root other page
    · left
      intro j inside same
      rw [Nat.zero_add] at same
      exact off j inside same tied
    · exact .inr tied
  · have index : page = 1023 * 1024 + (page - 1047552) := by omega
    have same : SameOn machine.memory removed.memory other := done.sameRoots other second
    have selfMapped := spaces.family.selfMapped other second
    rw [index, page_entry_self_map (self_mapped_same_on same selfMapped) (by omega),
      page_entry_self_map selfMapped (by omega), directory_entry_same_on same (by omega)]

section Taken

variable (done : Removed (switch machine root) removed roots vaddr paddr 0 n cells)

include done

theorem removed_unmapped {other i : Nat} (low : pageOf vaddr i < 1047552) (second : other ∈ roots)
    (inside : i < n) (tied : Tied machine root other (pageOf vaddr i)) :
    pageEntry removed.memory other (pageOf vaddr i) = 0 :=
  (done.entries _ low).inside other second i inside (by rw [Nat.zero_add]) tied

variable (one : OneArray machine root paddr n)

include one

/-- The cells of the array, as the caller sees them. -/
theorem removed_cells {i byte : Nat} (inside : i < n) (small : byte < 4) :
    translate machine.memory machine.cr3 (byteAddr paddr i byte) = some (cells i byte) := by
  have located := done.located i inside byte small
  rw [Nat.zero_add] at located
  rw [← one.same i inside byte small]
  exact located

/-- Each byte of the frame addresses is in its cell. -/
theorem removed_byte (off : ∀ i < n, ∀ byte < 4, ¬ IsTable machine.memory roots (cells i byte / 4096 * 4096))
    {i byte : Nat} (inside : i < n) (small : byte < 4) : removed.memory (cells i byte) =
      UInt8.ofNat (frameOf (pageEntry machine.memory root (pageOf vaddr i)) / 256 ^ byte) := by
  rw [done.stored _ (off i inside byte small)]
  have stored := @store_cells_last (switch machine root).memory cells
    (fun j => getPaddr (pageEntry machine.memory root (pageOf vaddr j))) 0 n i byte inside small (by
      intro j within other below same
      rw [Nat.zero_add, Nat.zero_add] at same
      apply one.single j within other below i inside byte small
      rw [removed_cells done one within below, removed_cells done one inside small, same])
  rw [Nat.zero_add, get_paddr_frame (page_entry_lt _ _ _)] at stored
  exact stored

end Taken

/-- What an accepted call needs to hand back what it took: a range below the tables' own pages that
leaves the array to the caller and is in no shared page table, and an array that both spaces show. -/
structure Rightful (machine : Machine) (roots : List Nat) (root vaddr paddr n : Nat) : Prop where
  low : ∀ i < n, pageOf vaddr i < 1047552
  unshared : Unshared machine roots root vaddr n
  kept : KeepsArray machine root vaddr paddr n
  one : OneArray machine root paddr n

/-- The range does not reach a page through another directory. -/
theorem untied_of_unshared (unshared : Unshared machine roots root vaddr n) {other page : Nat}
    (second : other ∈ roots) (off : ¬ (other = root ∧ InRange vaddr n page)) :
    ∀ i < n, page = pageOf vaddr i → ¬ Tied machine root other page := by
  rintro i inside rfl (same | shared)
  · exact off ⟨same.symm, i, inside, rfl⟩
  · by_cases equal : other = root
    · exact off ⟨equal, i, inside, rfl⟩
    · exact unshared i inside other second equal shared

theorem hands_back_of_rightful (spaces : Spaces machine roots) (member : root ∈ roots)
    (off : OffTables machine roots paddr n machine.cr3) (rightful : Rightful machine roots root vaddr paddr n)
    (success : result.err = 0)
    (completed : virtUnmapRemove (switch machine root) vaddr paddr 0 n = .ok removed)
    (isNext : next = setPageDir removed (getPageDir machine)) :
    HandsBack machine next roots root vaddr paddr n result := by
  obtain ⟨low, unshared, kept, one⟩ := rightful
  have offTarget : OffTables machine roots paddr n root := by
    intro i inside byte small cell found
    change translate machine.memory root (byteAddr paddr i byte) = some cell at found
    rw [one.same i inside byte small] at found
    exact off i inside byte small cell found
  obtain ⟨cells, done⟩ := removed_of_off spaces member low offTarget completed
  have current : removed.currentPageDir = removed.cr3 := by
    rw [done.globals]
    rfl
  have back : next = switch removed machine.cr3 := by
    rw [isNext, set_page_dir_ok current, getPageDir, spaces.current]
  have seen := fun {i byte : Nat} (inside : i < n) (small : byte < 4) => removed_cells done one inside small
  have offCells : ∀ i < n, ∀ byte < 4, ¬ IsTable machine.memory roots (cells i byte / 4096 * 4096) :=
    fun i inside byte small table => off i inside byte small _ (seen inside small) (.inr (.inl table))
  have others : ∀ other ∈ roots, ∀ page < 1048576, ¬ (other = root ∧ InRange vaddr n page) →
      pageEntry removed.memory other page = pageEntry machine.memory other page :=
    fun other second page small away =>
      removed_outside spaces done second small (untied_of_unshared unshared second away)
  rw [back]
  refine ⟨fun _ i inside => ?_, fun _ => others, fun _ i inside => ?_, fun _ cell notTable away => ?_,
    fun failed => absurd success failed, rfl, spaces.current.symm⟩
  · change ¬ Present (pageEntry removed.memory root (pageOf vaddr i))
    rw [removed_unmapped done (low i inside) member inside (.inl rfl)]
    exact not_present_zero
  · -- the caller still maps the array, and its cells hold the address
    have shown : ∀ byte < 4,
        physical (switch removed machine.cr3) (byteAddr paddr i byte) = .ok (cells i byte) := by
      intro byte small
      rw [physical_iff]
      change translate removed.memory machine.cr3 (byteAddr paddr i byte) = some (cells i byte)
      rw [← seen inside small]
      have bounded : byteAddr paddr i byte < 4294967296 := u32_lt _
      rw [TwoLevelPaging.translate, TwoLevelPaging.translate, others machine.cr3 spaces.member _ (by omega)]
      exact fun both => kept both.1.symm i inside byte small both.2
    have whole : byteAddr paddr i 0 = elementAddr paddr i := u32_of_lt (u32_lt _)
    have first := shown 0 (by decide)
    rw [whole] at first
    rw [loadWord, first, Trap.ok_bind]
    change (physical (switch removed machine.cr3) (byteAddr paddr i 1) >>= _) = _
    rw [shown 1 (by decide), Trap.ok_bind]
    change (physical (switch removed machine.cr3) (byteAddr paddr i 2) >>= _) = _
    rw [shown 2 (by decide), Trap.ok_bind]
    change (physical (switch removed machine.cr3) (byteAddr paddr i 3) >>= _) = _
    rw [shown 3 (by decide), Trap.ok_bind]
    change Except.ok (wordOf (removed.memory (cells i 0)) (removed.memory (cells i 1))
      (removed.memory (cells i 2)) (removed.memory (cells i 3))) = _
    have bytes := fun {byte : Nat} (small : byte < 4) => removed_byte done one offCells inside small
    rw [bytes (by decide : 0 < 4), bytes (by decide : 1 < 4), bytes (by decide : 2 < 4),
      bytes (by decide : 3 < 4)]
    have bounded := frame_of_lt (page_entry_lt machine.memory root (pageOf vaddr i))
    rw [Nat.pow_zero, Nat.div_one, Nat.pow_one]
    exact congrArg Except.ok (word_of_bytes (bounded.trans (by decide)))
  · change removed.memory cell = machine.memory cell
    rw [done.stored cell notTable]
    apply store_cells_apart
    intro j inside byte small same
    rw [Nat.zero_add] at same
    exact away j inside byte small (same ▸ seen inside small)

/-- A call that hands back its frames took no page from another space, and not the array. -/
theorem owned_of_hands_back (spaces : Spaces machine roots) (member : root ∈ roots)
    (low : ∀ i < n, pageOf vaddr i < 1047552) (off : OffTables machine roots paddr n root)
    (mapped : ∀ i < n, Present (pageEntry machine.memory root (pageOf vaddr i))) (success : result.err = 0)
    (completed : virtUnmapRemove (switch machine root) vaddr paddr 0 n = .ok removed)
    (isNext : next = setPageDir removed (getPageDir machine))
    (handsBack : HandsBack machine next roots root vaddr paddr n result) :
    Unshared machine roots root vaddr n ∧ KeepsArray machine root vaddr paddr n := by
  obtain ⟨cells, done⟩ := removed_of_off spaces member low off completed
  have memory : next.memory = removed.memory := by
    have current : removed.currentPageDir = removed.cr3 := by
      rw [done.globals]
      rfl
    rw [isNext, set_page_dir_ok current]
    rfl
  constructor
  · intro i inside other second differ shared
    have same := handsBack.others success other second (pageOf vaddr i) (page_of_lt _ _) fun both => differ both.1
    rw [memory, removed_unmapped done (low i inside) second inside (.inr shared),
      ← page_entry_shared shared] at same
    have present := mapped i inside
    rw [← same] at present
    exact not_present_zero present
  · rintro rfl i inside byte small ⟨k, within, same⟩
    have loaded := handsBack.array success i inside
    have gone := handsBack.unmapped success k within
    rw [← same] at gone
    have faults : physical next (byteAddr paddr i byte) = .error .pageFault := by
      have nothing : translate next.memory next.cr3 (byteAddr paddr i byte) = none := by
        rw [handsBack.caller.1, TwoLevelPaging.translate, if_neg gone]
      unfold physical
      rw [nothing]
    obtain ⟨first, firstAt, loaded⟩ := Trap.bind_eq_ok.mp loaded
    obtain ⟨second, secondAt, loaded⟩ := Trap.bind_eq_ok.mp loaded
    obtain ⟨third, thirdAt, loaded⟩ := Trap.bind_eq_ok.mp loaded
    obtain ⟨fourth, fourthAt, _⟩ := Trap.bind_eq_ok.mp loaded
    have whole : byteAddr paddr i 0 = elementAddr paddr i := u32_of_lt (u32_lt _)
    have cases_ : byte = 0 ∨ byte = 1 ∨ byte = 2 ∨ byte = 3 := by omega
    rcases cases_ with rfl | rfl | rfl | rfl
    · rw [whole, firstAt] at faults
      cases faults
    · have found : physical next (byteAddr paddr i 1) = .ok second := secondAt
      rw [found] at faults
      cases faults
    · have found : physical next (byteAddr paddr i 2) = .ok third := thirdAt
      rw [found] at faults
      cases faults
    · have found : physical next (byteAddr paddr i 3) = .ok fourth := fourthAt
      rw [found] at faults
      cases faults

/-- `syscall_virt_unmap` hands back the frames of the range, or changes nothing, if an accepted call
is rightful; it does not if the range is shared or holds the caller's array. -/
theorem virt_unmap_hands_back (spaces : Spaces machine roots) (processes : ProcessRoots machine roots)
    (isRoot : root = spaceOf machine aid) (off : OffTables machine roots paddr n machine.cr3)
    (completed : syscallVirtUnmap machine aid vaddr paddr n = .ok (result, next)) :
    ((Unmappable machine aid root vaddr paddr n → Rightful machine roots root vaddr paddr n) →
      HandsBack machine next roots root vaddr paddr n result) ∧
    ((∀ i < n, pageOf vaddr i < 1047552) → OffTables machine roots paddr n root →
      HandsBack machine next roots root vaddr paddr n result → Unmappable machine aid root vaddr paddr n →
        Unshared machine roots root vaddr n ∧ KeepsArray machine root vaddr paddr n) := by
  rcases virt_unmap_ok spaces processes isRoot completed with ⟨no, refused, rfl⟩ |
    ⟨accepted, success, member, removed, removing, isNext⟩
  · exact ⟨fun _ => hands_back_refused refused, fun _ _ _ yes => absurd yes no⟩
  · constructor
    · intro condition
      exact hands_back_of_rightful spaces member off (condition accepted) success removing isNext
    · intro low offTarget handsBack _
      exact owned_of_hands_back spaces member low offTarget accepted.mapped success removing isNext handsBack

end Calls

section Sample

/-- Process 2 has a second page. -/
def secondPageMachine : Machine :=
  { sampleMachine with memory := imageOf ((0x15008, 0x1E007) :: sampleWords) }

theorem second_page_covers : Covers secondPageMachine.memory sampleRoots sampleIndices :=
  covers_of_words sampleIndices (by decide) (by decide)

theorem second_page_spaces : Spaces secondPageMachine sampleRoots where
  family := family_of_checks sampleIndices second_page_covers (by decide +kernel) (by decide +kernel)
  current := rfl
  member := by decide
  headAligned := by decide
  headLow := by decide
  headPte := by decide
  headShared := by decide +kernel

theorem second_page_off : OffTables secondPageMachine sampleRoots 0x401000 1 0x10000 := by
  intro i inside
  have only : i = 0 := by omega
  have place : elementAddr 0x401000 0 = 0x401000 := by decide
  rw [only, place]
  exact plain_of_checks second_page_covers
    (by decide +kernel : PlainChecks (switch secondPageMachine 0x10000) sampleRoots [] sampleIndices 0x401000)

/-- Process 1 takes a page of its own. -/
theorem virt_unmap_hands_back_own_page : ∃ result next,
    syscallVirtUnmap secondPageMachine 1 0x402000 0x401000 1 = .ok (result, next) ∧
      HandsBack secondPageMachine next sampleRoots 0x10000 0x402000 0x401000 1 result := by
  obtain ⟨⟨result, next⟩, completed, _⟩ := returns_with_iff.1
    (by decide +kernel : returnsWith (syscallVirtUnmap secondPageMachine 1 0x402000 0x401000 1)
      (fun _ => true) = true)
  refine ⟨result, next, completed, ?_⟩
  apply (virt_unmap_hands_back second_page_spaces sample_processes (by decide +kernel) second_page_off completed).1
  intro _
  refine ⟨?_, ?_, ?_, fun _ _ _ _ => rfl, ?_⟩
  · decide
  · unfold Unshared
    decide +kernel
  · decide +kernel
  · intro i inside byte small j within other below same
    obtain ⟨rfl, rfl⟩ : i = 0 ∧ j = 0 := by omega
    have bytes : ∀ byte < 4, ∀ other < 4,
        translate secondPageMachine.memory 0x10000 (byteAddr 0x401000 0 byte) =
          translate secondPageMachine.memory 0x10000 (byteAddr 0x401000 0 other) → byte = other := by
      decide +kernel
    exact ⟨rfl, bytes byte small other below same⟩

/-- Process 1 takes the second page of process 2, whose array gets the frame. -/
theorem virt_unmap_hands_back_other_array : ∃ result next,
    Spaces secondPageMachine sampleRoots ∧ ProcessRoots secondPageMachine sampleRoots ∧
      OffTables secondPageMachine sampleRoots 0x401000 1 0x10000 ∧
      (UserPage secondPageMachine.memory 0x10000 0x401 ∧
        Writable (pageEntry secondPageMachine.memory 0x10000 0x401)) ∧
      syscallVirtUnmap secondPageMachine 2 0x402000 0x401000 1 = .ok (result, next) ∧
      ¬ HandsBack secondPageMachine next sampleRoots 0x11000 0x402000 0x401000 1 result := by
  obtain ⟨⟨result, next⟩, completed, passed⟩ := returns_with_iff.1
    (by decide +kernel : returnsWith (syscallVirtUnmap secondPageMachine 2 0x402000 0x401000 1)
      (fun (result, next) => result.err == 0 &&
        returnsWith (loadWord next (elementAddr 0x401000 0)) (fun word => word == 0)) = true)
  refine ⟨result, next, second_page_spaces, sample_processes, second_page_off, by decide +kernel, completed,
    fun handsBack => ?_⟩
  obtain ⟨success, held⟩ := Bool.and_eq_true_iff.1 passed
  obtain ⟨word, loaded, isZero⟩ := returns_with_iff.1 held
  have wanted := handsBack.array (eq_of_beq success) 0 (by decide)
  rw [loaded, eq_of_beq isZero, Except.ok.injEq] at wanted
  exact absurd wanted (by decide +kernel)

end Sample

end ParadiseOS.UnmapArrays
