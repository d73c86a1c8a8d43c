import ParadiseOS.HeapRuns
import ParadiseOS.ProcessModel

/-!
# The layout of a program's memory

`exec_sun` puts the sections behind each other, then the usage map of the heap, and the
stack below its fixed top. It counts the heap's pages from the start of the usage map
up to the top of the stack, and `heap_init` moves the heap behind the map: the heap
runs over the stack.
-/

namespace ParadiseOS.ProgramLayout

open HeapModel HeapRuns MachineWord StepRun
open ProcessModel (SunEntry processOrg stackTop stackSize pcbAddr mailboxDataAddr pagesBetween roFlags rwFlags
  alignNextPage sectionEnd allocSection allocSections)
open PagingModel (Machine allocPages pageSize pageWritable)

set_option autoImplicit false

section Statement

/-- A call of `alloc_pages`. -/
structure Allocation where
  start : Nat
  flags : Nat
  count : Nat

def Allocation.Covers (allocation : Allocation) (page : Nat) : Prop :=
  allocation.start / 4096 ≤ page ∧ page < allocation.start / 4096 + allocation.count

/-- The pages of a section, if it has a size. -/
def sectionPages (size start stop flags : Nat) : List Allocation :=
  if size ≠ 0 then [⟨start, flags, pagesBetween start stop⟩] else []

/-- What `exec_sun` allocates itself. -/
def sectionAllocations (entry : SunEntry) : List Allocation :=
  ⟨processOrg, roFlags, pagesBetween processOrg entry.rodataStart⟩ ::
    sectionPages entry.rodata.length entry.rodataStart entry.dataStart roFlags ++
    sectionPages entry.data.length entry.dataStart entry.bssStart rwFlags ++
    sectionPages entry.bssSize entry.bssStart entry.heapStart rwFlags ++
    [⟨stackTop - stackSize, rwFlags, stackSize / pageSize⟩, ⟨pcbAddr, pageWritable, 1⟩]

/-- `heap_pages`. -/
def heapPages (entry : SunEntry) : Nat := sub32 stackTop entry.heapStart / pageSize

/-- The pages of the heap's usage map. -/
def usagePages (entry : SunEntry) : Nat := HeapModel.sizeInPages (usageBytes (heapPages entry))

/-- With the two pages of the mailbox and the usage map. -/
def allocations (entry : SunEntry) : List Allocation :=
  sectionAllocations entry ++ [⟨mailboxDataAddr, pageWritable, 2⟩, ⟨entry.heapStart, rwFlags, usagePages entry⟩]

def pagesFor (size : Nat) : Nat := (size + 4095) / 4096

/-- Where the sections end, each rounded up to pages. -/
def sectionsEnd (entry : SunEntry) : Nat :=
  processOrg + 4096 * (pagesFor entry.text.length + pagesFor entry.rodata.length +
    pagesFor entry.data.length + pagesFor entry.bssSize)

/-- The program has text, and its sections and the usage map of its heap end below the stack. -/
def FitsBelowStack (entry : SunEntry) : Prop :=
  entry.text.length ≠ 0 ∧
    sectionsEnd entry + 4096 * HeapModel.sizeInPages (usageBytes ((stackTop - sectionsEnd entry) / 4096)) ≤
      stackTop - stackSize

/-- The pages of a section hold its bytes. -/
def HoldsSection (entry : SunEntry) (start size : Nat) : Prop :=
  ∃ allocation ∈ allocations entry, allocation.start = start ∧ size ≤ 4096 * allocation.count

/-- The memory of the program is laid out without overlaps, whatever its heap is used for. -/
structure LaysOut (entry : SunEntry) : Prop where
  apart : (allocations entry).Pairwise fun first second => ∀ page, first.Covers page → ¬ second.Covers page
  text : HoldsSection entry processOrg entry.text.length
  rodata : entry.rodata.length ≠ 0 → HoldsSection entry entry.rodataStart entry.rodata.length
  data : entry.data.length ≠ 0 → HoldsSection entry entry.dataStart entry.data.length
  bss : entry.bssSize ≠ 0 → HoldsSection entry entry.bssStart entry.bssSize
  heap : ∀ memory heap calls observations final pages ptr after,
    heapInit memory entry.heapStart (heapPages entry) = .ok heap →
      Allowed heapStep LegalCall ⟨heap, []⟩ calls →
        run heapStep ⟨heap, []⟩ calls = .ok (observations, final) →
          heapAlloc final.heap pages = .ok (ptr, after) → ∀ index < pages,
            entry.heapStart + 4096 * usagePages entry ≤ ptr + 4096 * index ∧
              ptr + 4096 * index + 4096 ≤ stackTop - stackSize

end Statement

section Sections

variable {entry : SunEntry}

/-- A run of `alloc_pages`. -/
def allocAll (machine : Machine) : List Allocation → Except Trap Machine
  | [] => .ok machine
  | allocation :: rest => do
      let machine ← allocPages machine allocation.start allocation.flags allocation.count
      allocAll machine rest

theorem alloc_all_append (machine : Machine) (first second : List Allocation) :
    allocAll machine (first ++ second) = allocAll machine first >>= fun next => allocAll next second := by
  induction first generalizing machine with
  | nil => rfl
  | cons allocation rest ih =>
      rw [List.cons_append, allocAll, allocAll]
      cases allocPages machine allocation.start allocation.flags allocation.count with
      | error trap => rfl
      | ok next => exact ih next

theorem alloc_all_one (machine : Machine) (allocation : Allocation) :
    allocAll machine [allocation] = allocPages machine allocation.start allocation.flags allocation.count := by
  rw [allocAll]
  cases allocPages machine allocation.start allocation.flags allocation.count with
  | error trap => rfl
  | ok next => rfl

theorem alloc_section_eq (machine : Machine) (size start stop flags : Nat) :
    allocSection machine size start stop flags = allocAll machine (sectionPages size start stop flags) := by
  unfold allocSection sectionPages
  split_ifs with sized
  · rw [alloc_all_one]
  · rfl

/-- `exec_sun` makes these allocations. -/
theorem alloc_sections_eq (machine : Machine) (entry : SunEntry) :
    allocSections machine entry = allocAll machine (sectionAllocations entry) := by
  have returns : ∀ outcome : Except Trap Machine, (outcome >>= fun next => .ok next) = outcome := by
    intro outcome
    cases outcome with
    | error trap => rfl
    | ok next => rfl
  simp only [sectionAllocations, List.cons_append, allocAll, alloc_all_append, ← alloc_section_eq, bind_assoc,
    returns]
  rfl

theorem section_end_eq {start size : Nat} (aligned : start % 4096 = 0) (positive : 0 < start)
    (room : start + 4096 * pagesFor size < 4294967296) :
    sectionEnd start size = start + 4096 * pagesFor size := by
  unfold pagesFor at room ⊢
  have whole := u32_of_lt (show start + size < 4294967296 by omega)
  have last := sub32_of_le (show 1 ≤ start + size by omega) (show start + size < 4294967296 by omega)
  have rounded := u32_of_lt (show start + size - 1 + 4096 < 4294967296 by omega)
  rw [sectionEnd, whole, last, alignNextPage]
  unfold pageSize
  rw [rounded]
  omega

/-- Where the sections are. -/
theorem section_starts (fits : FitsBelowStack entry) :
    entry.rodataStart = processOrg + 4096 * pagesFor entry.text.length ∧
      entry.dataStart = entry.rodataStart + 4096 * pagesFor entry.rodata.length ∧
      entry.bssStart = entry.dataStart + 4096 * pagesFor entry.data.length ∧
      entry.heapStart = entry.bssStart + 4096 * pagesFor entry.bssSize ∧
      entry.heapStart = sectionsEnd entry := by
  have below := fits.2
  have org : processOrg = 0x420000 := rfl
  have top : stackTop - stackSize = 0xBFBFC000 := by decide
  unfold sectionsEnd at below ⊢
  have rodata : entry.rodataStart = processOrg + 4096 * pagesFor entry.text.length :=
    section_end_eq (by decide) (by decide) (by omega)
  have data : entry.dataStart = entry.rodataStart + 4096 * pagesFor entry.rodata.length :=
    section_end_eq (by omega) (by omega) (by omega)
  have bss : entry.bssStart = entry.dataStart + 4096 * pagesFor entry.data.length :=
    section_end_eq (by omega) (by omega) (by omega)
  have heap : entry.heapStart = entry.bssStart + 4096 * pagesFor entry.bssSize :=
    section_end_eq (by omega) (by omega) (by omega)
  omega

/-- Below 2 GiB a difference of pointers counts the pages between them. -/
theorem pages_between_eq {low high : Nat} (order : low ≤ high) (near : high - low < 2147483648)
    (bounded : high < 4294967296) : pagesBetween low high = (high - low) / 4096 := by
  have difference := sub32_of_le order bounded
  have signed : signed32 (high - low) = ((high - low : Nat) : Int) := if_pos near
  rw [pagesBetween, ptrDiff, difference, signed, ofSigned, Int.tdiv_eq_ediv_of_nonneg (by omega)]
  omega

/-- No section has 2 GiB. -/
def NearSections (entry : SunEntry) : Prop :=
  entry.text.length ≤ 2147479552 ∧ entry.rodata.length ≤ 2147479552 ∧ entry.data.length ≤ 2147479552 ∧
    entry.bssSize ≤ 2147479552

/-- The sections count their pages right. -/
theorem section_counts (fits : FitsBelowStack entry) (near : NearSections entry) :
    pagesBetween processOrg entry.rodataStart = pagesFor entry.text.length ∧
      pagesBetween entry.rodataStart entry.dataStart = pagesFor entry.rodata.length ∧
      pagesBetween entry.dataStart entry.bssStart = pagesFor entry.data.length ∧
      pagesBetween entry.bssStart entry.heapStart = pagesFor entry.bssSize := by
  have below := fits.2
  have org : processOrg = 0x420000 := rfl
  have top : stackTop - stackSize = 0xBFBFC000 := by decide
  obtain ⟨rodata, data, bss, heap, isEnd⟩ := section_starts fits
  obtain ⟨nearText, nearRodata, nearData, nearBss⟩ := near
  unfold sectionsEnd at below isEnd
  unfold pagesFor at *
  rw [pages_between_eq (by omega) (by omega) (by omega), pages_between_eq (by omega) (by omega) (by omega),
    pages_between_eq (by omega) (by omega) (by omega), pages_between_eq (by omega) (by omega) (by omega)]
  omega

end Sections

section Layout

variable {entry : SunEntry}

theorem usage_pages_eq (fits : FitsBelowStack entry) :
    sectionsEnd entry + 4096 * usagePages entry ≤ stackTop - stackSize ∧
      heapPages entry = (stackTop - sectionsEnd entry) / 4096 := by
  have below := fits.2
  obtain ⟨_, _, _, _, isEnd⟩ := section_starts fits
  have top : stackTop - stackSize = 0xBFBFC000 := by decide
  have isTop : stackTop = 0xBFC00000 := rfl
  have count : heapPages entry = (stackTop - sectionsEnd entry) / 4096 := by
    rw [heapPages, isEnd, sub32_of_le (by omega) (by omega)]
    rfl
  rw [usagePages, count]
  exact ⟨below, rfl⟩

/-- A member of a list of pages of a section. -/
theorem section_pages_covers {size start stop flags page : Nat} {allocation : Allocation}
    (member : allocation ∈ sectionPages size start stop flags) (covered : allocation.Covers page) :
    start / 4096 ≤ page ∧ page < start / 4096 + pagesBetween start stop := by
  unfold sectionPages at member
  split_ifs at member with sized
  · rw [List.mem_singleton] at member
    subst member
    exact covered
  · exact absurd member List.not_mem_nil

theorem section_pages_pairwise (size start stop flags : Nat) (apart : Allocation → Allocation → Prop) :
    (sectionPages size start stop flags).Pairwise apart := by
  unfold sectionPages
  split_ifs with sized
  · exact List.pairwise_singleton _ _
  · exact List.Pairwise.nil

/-- What `exec_sun` allocates has no page in common. -/
theorem allocations_apart (fits : FitsBelowStack entry) (near : NearSections entry) :
    (allocations entry).Pairwise fun first second => ∀ page, first.Covers page → ¬ second.Covers page := by
  obtain ⟨rodata, data, bss, heap, isEnd⟩ := section_starts fits
  obtain ⟨textCount, rodataCount, dataCount, bssCount⟩ := section_counts fits near
  obtain ⟨below, _⟩ := usage_pages_eq fits
  have org : processOrg = 0x420000 := rfl
  have top : stackTop - stackSize = 0xBFBFC000 := by decide
  have stackPages : stackSize / pageSize = 4 := by decide
  have pcb : pcbAddr = 0x40E000 := by decide
  have mailbox : mailboxDataAddr = 0x40F000 := by decide
  have isAlloc : allocations entry = [⟨processOrg, roFlags, pagesBetween processOrg entry.rodataStart⟩] ++
      (sectionPages entry.rodata.length entry.rodataStart entry.dataStart roFlags ++
      (sectionPages entry.data.length entry.dataStart entry.bssStart rwFlags ++
      (sectionPages entry.bssSize entry.bssStart entry.heapStart rwFlags ++
      [⟨stackTop - stackSize, rwFlags, stackSize / pageSize⟩, ⟨pcbAddr, pageWritable, 1⟩,
        ⟨mailboxDataAddr, pageWritable, 2⟩, ⟨entry.heapStart, rwFlags, usagePages entry⟩]))) := by
    simp only [allocations, sectionAllocations, List.append_assoc, List.cons_append, List.nil_append]
  -- Where the fixed pages and the usage map are.
  have fixed : ∀ allocation ∈ [(⟨stackTop - stackSize, rwFlags, stackSize / pageSize⟩ : Allocation),
      ⟨pcbAddr, pageWritable, 1⟩, ⟨mailboxDataAddr, pageWritable, 2⟩,
      ⟨entry.heapStart, rwFlags, usagePages entry⟩], ∀ page, allocation.Covers page →
      page < 0x420 ∨ entry.heapStart / 4096 ≤ page := by
    intro allocation member page covered
    simp only [List.mem_cons, List.not_mem_nil, or_false] at member
    rcases member with rfl | rfl | rfl | rfl
    all_goals
      unfold Allocation.Covers at covered
      dsimp only at covered
      omega
  rw [isAlloc, List.pairwise_append, List.pairwise_append, List.pairwise_append, List.pairwise_append]
  refine ⟨List.pairwise_singleton _ _, ⟨section_pages_pairwise _ _ _ _ _, ⟨section_pages_pairwise _ _ _ _ _,
    ⟨section_pages_pairwise _ _ _ _ _, ?_, ?_⟩, ?_⟩, ?_⟩, ?_⟩
  · refine List.pairwise_cons.2 ⟨?_, List.pairwise_cons.2 ⟨?_, List.pairwise_cons.2 ⟨?_,
      List.pairwise_singleton _ _⟩⟩⟩
    · intro second member page covered again
      simp only [List.mem_cons, List.not_mem_nil, or_false] at member
      unfold Allocation.Covers at covered again
      rcases member with rfl | rfl | rfl
      all_goals
        dsimp only at covered again
        omega
    · intro second member page covered again
      simp only [List.mem_cons, List.not_mem_nil, or_false] at member
      unfold Allocation.Covers at covered again
      rcases member with rfl | rfl
      all_goals
        dsimp only at covered again
        omega
    · intro second member page covered again
      rw [List.mem_singleton] at member
      unfold Allocation.Covers at covered again
      subst member
      dsimp only at covered again
      omega
  · intro first member second other page covered again
    have here := section_pages_covers member covered
    have there := fixed second other page again
    omega
  · intro first member second other page covered again
    have here := section_pages_covers member covered
    rcases List.mem_append.1 other with later | later
    · have there := section_pages_covers later again
      omega
    · have there := fixed second later page again
      omega
  · intro first member second other page covered again
    have here := section_pages_covers member covered
    rcases List.mem_append.1 other with later | later
    · have there := section_pages_covers later again
      omega
    · rcases List.mem_append.1 later with last | last
      · have there := section_pages_covers last again
        omega
      · have there := fixed second last page again
        omega
  · intro first member second other page covered again
    rw [List.mem_singleton] at member
    subst member
    unfold Allocation.Covers at covered
    dsimp only at covered
    rcases List.mem_append.1 other with later | later
    · have there := section_pages_covers later again
      omega
    · rcases List.mem_append.1 later with last | last
      · have there := section_pages_covers last again
        omega
      · rcases List.mem_append.1 last with final | final
        · have there := section_pages_covers final again
          omega
        · have there := fixed second final page again
          omega

theorem section_pages_hold {size start stop flags : Nat} (sized : size ≠ 0)
    (count : pagesBetween start stop = pagesFor size)
    (subset : sectionPages size start stop flags ⊆ allocations entry) : HoldsSection entry start size := by
  refine ⟨⟨start, flags, pagesBetween start stop⟩, subset ?_, rfl, ?_⟩
  · unfold sectionPages
    rw [if_pos sized]
    exact List.mem_singleton_self _
  · change size ≤ 4096 * pagesBetween start stop
    rw [count]
    unfold pagesFor
    omega

/-- Every section has pages for all of its bytes. -/
theorem sections_held (fits : FitsBelowStack entry) (near : NearSections entry) :
    HoldsSection entry processOrg entry.text.length ∧
      (entry.rodata.length ≠ 0 → HoldsSection entry entry.rodataStart entry.rodata.length) ∧
      (entry.data.length ≠ 0 → HoldsSection entry entry.dataStart entry.data.length) ∧
      (entry.bssSize ≠ 0 → HoldsSection entry entry.bssStart entry.bssSize) := by
  obtain ⟨textCount, rodataCount, dataCount, bssCount⟩ := section_counts fits near
  have textFits : entry.text.length ≤ 4096 * pagesBetween processOrg entry.rodataStart := by
    rw [textCount]
    unfold pagesFor
    omega
  refine ⟨⟨⟨processOrg, roFlags, pagesBetween processOrg entry.rodataStart⟩, ?_, rfl, ?_⟩,
    fun sized => ?_, fun sized => ?_, fun sized => ?_⟩
  · exact List.mem_append_left _ (List.mem_append_left _ (List.mem_append_left _
      (List.mem_append_left _ List.mem_cons_self)))
  · dsimp only
    exact textFits
  · apply section_pages_hold sized rodataCount
    intro allocation member
    exact List.mem_append_left _ (List.mem_append_left _ (List.mem_append_left _
      (List.mem_append_left _ (List.mem_cons_of_mem _ member))))
  · apply section_pages_hold sized dataCount
    intro allocation member
    exact List.mem_append_left _ (List.mem_append_left _ (List.mem_append_left _
      (List.mem_append_right _ member)))
  · apply section_pages_hold sized bssCount
    intro allocation member
    exact List.mem_append_left _ (List.mem_append_left _ (List.mem_append_right _ member))

/-- The last page of the heap is not below the top of the stack. -/
theorem heap_over_stack (fits : FitsBelowStack entry) (memory : Nat → UInt8) :
    ∃ heap ptr after, heapInit memory entry.heapStart (heapPages entry) = .ok heap ∧
      heapAlloc heap (heapPages entry) = .ok (ptr, after) ∧ 0 < heapPages entry ∧
      stackTop ≤ ptr + 4096 * (heapPages entry - 1) := by
  obtain ⟨_, _, _, _, isEnd⟩ := section_starts fits
  obtain ⟨below, count⟩ := usage_pages_eq fits
  have top : stackTop - stackSize = 0xBFBFC000 := by decide
  have isTop : stackTop = 0xBFC00000 := rfl
  have low : sectionsEnd entry % 4096 = 0 ∧ 0x420000 ≤ sectionsEnd entry := by
    have org : processOrg = 0x420000 := rfl
    unfold sectionsEnd
    omega
  have some_ : 0 < usagePages entry := by
    have bytes : usageBytes (heapPages entry) = (heapPages entry + 3) / 4 := by
      rw [usageBytes, u32_of_lt (by omega)]
    rw [usagePages, bytes, HeapModel.sizeInPages, u32_of_lt (by omega)]
    omega
  have aligned : isPageAligned entry.heapStart = true := by
    rw [isEnd]
    simp only [isPageAligned, u32, Nat.shiftLeft_eq, beq_iff_eq]
    omega
  have few : heapPages entry ≤ 1048576 := by omega
  obtain ⟨heap, made⟩ := heap_init_ok memory entry.heapStart (heapPages entry) aligned
  have invariant := init_invariant few (by omega) made
  have pageCount : heap.pageCount = heapPages entry := invariant.count
  have vacant : ∀ index, 0 ≤ index → index < 0 + heapPages entry → heapGetUsage heap index = heapPageFree := by
    intro index _ inside
    by_contra used
    obtain ⟨block, member, _⟩ := (invariant.coloured.used_iff index (by omega)).1 used
    exact absurd member List.not_mem_nil
  obtain ⟨ptr, after, taken⟩ := heap_alloc_of_window heap (heapPages entry) 0 (by omega) (by omega)
    (by omega) vacant
  obtain ⟨first, color, isPtr, _, inside, _⟩ := heap_alloc_ok (by omega) (by omega) taken
  have isFirst : first = 0 := by omega
  have isStart : heap.heapStart = sectionsEnd entry + 4096 * usagePages entry := by
    obtain ⟨_, _, fields⟩ := Trap.bind_eq_ok.mp made
    simp only [Trap.pure_ok, Except.ok.injEq] at fields
    rw [← fields]
    change u32 (entry.heapStart + usagePages entry * 4096) = _
    rw [u32_of_lt (by omega), isEnd]
    omega
  refine ⟨heap, ptr, after, made, taken, by omega, ?_⟩
  have place : pagePtr heap 0 = heap.heapStart := by
    have offset : u32 (0 * 4096) = 0 := rfl
    rw [pagePtr, offset]
    exact u32_of_lt (by rw [isStart]; omega)
  rw [isPtr, isFirst, place, isStart]
  omega

/-- No program has a heap that stays off its stack. -/
theorem layout_overlaps (entry : SunEntry) (fits : FitsBelowStack entry) : ¬ LaysOut entry := by
  intro laysOut
  obtain ⟨heap, ptr, after, made, taken, some_, past⟩ := heap_over_stack fits fun _ => 0
  have bounds := laysOut.heap _ heap [] [] ⟨heap, []⟩ _ ptr after made trivial rfl taken
    (heapPages entry - 1) (by omega)
  have top : stackTop - stackSize = 0xBFBFC000 := by decide
  have isTop : stackTop = 0xBFC00000 := rfl
  omega

/-- A program of one instruction. -/
def haltProgram : SunEntry := ⟨0x420000, [0xF4], [], [], 0⟩

theorem halt_program_fits : FitsBelowStack haltProgram := by
  refine ⟨by decide, ?_⟩
  unfold sectionsEnd
  decide

theorem halt_program_overlaps : ¬ LaysOut haltProgram := layout_overlaps haltProgram halt_program_fits

theorem layout_not_disjoint : ¬ ∀ entry : SunEntry, FitsBelowStack entry → LaysOut entry := by
  intro always
  have laysOut := always haltProgram halt_program_fits
  obtain ⟨heap, ptr, after, made, taken, some_, past⟩ := heap_over_stack halt_program_fits fun _ => 0
  have bounds := laysOut.heap _ heap [] [] ⟨heap, []⟩ _ ptr after made trivial rfl taken
    (heapPages haltProgram - 1) (by omega)
  have top : stackTop - stackSize = 0xBFBFC000 := by decide
  have isTop : stackTop = 0xBFC00000 := rfl
  omega

end Layout
end ParadiseOS.ProgramLayout
