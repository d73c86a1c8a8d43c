import ParadiseOS.KernelPages
import ParadiseOS.LoadedPrograms

/-!
# The address space of a new process

`exec_sun` makes a directory, fills it and goes back to the one it came from. The program
finds its sections, its stack and its control block there; nobody else finds a change.
-/

namespace ParadiseOS.NewSpaces

open FrameLedger FrameSteps HeapContents KernelPages LoadedPrograms MachineWord MemModel NewDirectory
open PagingMaps PagingModel PagingSteps ProcessModel ProgramLayout ProgramLoading TwoLevelPaging VirtRanges

set_option autoImplicit false

section Statement

/-- Loads from an address on return the bytes. -/
def Reads (machine : Machine) (vaddr : Nat) (bytes : List UInt8) : Prop :=
  ∀ i byte, bytes[i]? = some byte → loadByte machine (vaddr + i) = .ok byte

/-- What is copied for a new program: its sections, the state of the FPU and the usage map of its heap. -/
def initialBytes (entry : SunEntry) : List (Nat × List UInt8) :=
  programSections entry ++
    [(pcbAddr + pcbFpuRegs, List.replicate 512 0),
      (entry.heapStart, List.replicate (HeapModel.usageBytes (heapPages entry)) 0)]

def initialFields (entry : SunEntry) (root arg : Nat) : List (Nat × Nat) :=
  pcbFields entry root arg ++ heapFields entry.heapStart (heapPages entry)

/-- The program and its first context are in the address space that is current. -/
structure Started (machine : Machine) (entry : SunEntry) (root arg : Nat) : Prop where
  bytes : ∀ place ∈ initialBytes entry, Reads machine place.1 place.2
  fields : ∀ field ∈ initialFields entry root arg, loadPcb machine field.1 = .ok field.2

/-- A directory maps the pages of a program, with the flags of its sections, and no others. -/
structure Mapped (machine : Machine) (entry : SunEntry) (root : Nat) : Prop where
  pages : ∀ page, UserPage page → (Present (pageEntry machine.memory root page) ↔
    page = linkedPage ∨ CoveredBy (spaceAllocations entry) page)
  flags : ∀ allocation ∈ spaceAllocations entry, ∀ page, allocation.Covers page →
    getFlags (pageEntry machine.memory root page) = allocation.flags ||| 1
  linked : pageEntry machine.memory root linkedPage = pageEntry machine.memory root mailboxPage
  low : Present (directoryEntry machine.memory root 0)
  tables : ∀ page, UserPage page → Present (directoryEntry machine.memory root (page / 1024)) →
    UserMode (directoryEntry machine.memory root (page / 1024))
  distinct : ∀ page other, OwnPage page → OwnPage other → Present (pageEntry machine.memory root page) →
    Present (pageEntry machine.memory root other) →
    frameOf (pageEntry machine.memory root page) = frameOf (pageEntry machine.memory root other) → page = other

/-- The user halves of the directories stay as they are, and so do the frames that are not in use,
but for the written ones. -/
structure Undisturbed (written : Nat → Prop) (machine next : Machine) (roots frames more rest : List Nat) :
    Prop where
  entries : ∀ root ∈ roots, ∀ page, UserPage page →
    pageEntry next.memory root page = pageEntry machine.memory root page
  directories : ∀ root ∈ roots, ∀ index < kernelPdiStart,
    directoryEntry next.memory root index = directoryEntry machine.memory root index
  frames : ∀ frame, frame % 4096 = 0 → ¬ InUse machine roots frames frame →
    ¬ InUse next more rest frame ∧ (¬ written frame → SameOn machine.memory next.memory frame)

/-- A new address space was made for a program, from frames that were free. Nobody else's pages and
frames are touched. -/
structure Loaded (machine next : Machine) (roots frames rest : List Nat) (entry : SunEntry) (root arg : Nat) :
    Prop where
  sound : Sound next (root :: roots) rest
  fresh : root ∈ frames
  globals : SameGlobals { machine with kernelHeap := next.kernelHeap } next
  mapped : Mapped next entry root
  started : Started (switch next root) entry root arg
  taken : ∀ page, UserPage page → Present (pageEntry next.memory root page) →
    frameOf (pageEntry next.memory root page) ∈ frames ∧
      ¬ InUse next (root :: roots) rest (frameOf (pageEntry next.memory root page))
  others : Undisturbed (fun _ => False) machine next roots frames (root :: roots) rest
  kernel : ∀ page, 786432 ≤ page → page < 1047552 → page ≠ windowPage machine →
    ¬ Present (pageEntry machine.memory machine.cr3 page) → ¬ Present (pageEntry next.memory machine.cr3 page)
  left : frames.length ≤ rest.length + (2 * totalPages (spaceAllocations entry) + 2)

end Statement

section Starting

variable {machine created : Machine} {roots frames : List Nat} {root : Nat}

/-- The kernel's heap lies behind the window. -/
def HeapBehind (machine : Machine) : Prop := windowPage machine < machine.kernelHeap.heapStart / 4096

/-- A new directory has nothing in its user half. -/
structure Bare (machine : Machine) (root : Nat) : Prop where
  directory : ∀ index, 1 ≤ index → index < kernelPdiStart → directoryEntry machine.memory root index = 0
  low : Present (directoryEntry machine.memory root 0)

theorem bare_entry (bare : Bare machine root) {page : Nat} (user : UserPage page) :
    pageEntry machine.memory root page = 0 := by
  obtain ⟨low, high⟩ := user_page_index user
  rw [pageEntry, bare.directory _ low high, if_neg not_present_zero]

/-- Loading starts in the new directory. -/
theorem growing_start (sound : Sound created (root :: roots) frames) (bare : Bare created root) :
    Growing (switch created root) (emptyLedger (root :: roots) frames) 0 (switch created root)
      (emptyLedger (root :: roots) frames) where
  balanced := by
    have member : root ∈ root :: roots := List.mem_cons_self
    have start : kernelPdiStart = 768 := rfl
    have high := sound.kernelHalf
    refine ⟨spaces_switch sound.spaces member, free_list_switch sound.spaces sound.free member, bare.low, ?_, ?_,
      List.forall_mem_nil _, List.nodup_nil, List.forall_mem_nil _, List.forall_mem_nil _, List.forall_mem_nil _,
      List.forall_mem_nil _, List.forall_mem_nil _, ?_, rfl⟩
    · rintro page ⟨user, _⟩
      obtain ⟨_, below⟩ := user_page_bounds user
      change page < 1047552 ∧ page ≠ windowPage created
      omega
    · rintro page ⟨user, _⟩
      change Present (pageEntry created.memory root page) ↔ _
      rw [bare_entry bare user]
      exact iff_of_false not_present_zero List.not_mem_nil
    · change (frames ++ ([] ++ ([] ++ []))).Perm frames
      rw [List.append_nil, List.append_nil, List.append_nil]
  globals := same_globals_refl _
  roots := rfl
  current := List.mem_cons_self
  spares := spares_refl _ _ _ _
  directories := fun _ _ _ _ _ => rfl
  kernelHalf := sound.kernelHalf
  userTables index low high present := by
    change Present (directoryEntry created.memory root index) at present
    rw [bare.directory index low high] at present
    exact absurd present not_present_zero
  linked := bare_entry bare ⟨by decide, by decide⟩

/-- `new_page_dir` made a bare directory. -/
structure Opened (machine created : Machine) (roots frames rest : List Nat) (root : Nat) : Prop where
  sound : Sound created (root :: roots) rest
  bare : Bare created root
  fresh : root ∈ frames ∧ root ∉ roots
  fewer : rest ⊆ frames
  taken : frames.length ≤ rest.length + 2
  globals : SameGlobals { machine with kernelHeap := created.kernelHeap } created
  others : Undisturbed (fun _ => False) machine created roots frames (root :: roots) rest
  kernel : ∀ page, 786432 ≤ page → page < 1047552 → page ≠ windowPage machine →
    ¬ Present (pageEntry machine.memory machine.cr3 page) → ¬ Present (pageEntry created.memory machine.cr3 page)

theorem new_page_dir_opened (sound : Sound machine roots frames) (behind : HeapBehind machine)
    (creating : newPageDir machine = .ok (root, created)) :
    ∃ rest, Opened machine created roots frames rest root := by
  obtain ⟨ptr, after, held, made, ⟨fresh, fewer, taken⟩, ⟨place, returned⟩, spares⟩ := new_page_dir_taken sound creating
  have start : kernelPdiStart = 768 := rfl
  have high := sound.kernelHalf
  have spared := spares fun _ => False
  have behindUser : 786432 ≤ ptr / 4096 := by
    unfold HeapBehind at behind
    omega
  refine ⟨after.free, held, ⟨?_, ?_⟩, ⟨fresh, made.notRoot⟩, fewer, taken, made.globals, ⟨?_, ?_, ?_⟩, ?_⟩
  · intro index low below
    rw [made.own index (by omega), if_neg (by omega)]
  · rw [made.own 0 (by decide), if_pos (.inl rfl)]
    exact held.low
  · intro other member page user
    obtain ⟨_, below⟩ := user_page_bounds user
    apply spared.entries other member page (by omega) (by omega)
    rintro ⟨same, _⟩
    omega
  · intro other member index high
    apply made.entries other member index (by omega)
    rintro ⟨_, _, page, same, isIndex⟩
    omega
  · intro frame aligned unused
    have roots_ : after.roots = root :: roots := made.roots
    obtain ⟨still, same⟩ := spared.frames frame aligned unused
    rw [roots_] at still
    exact ⟨still, same⟩
  · intro page _ low notWindow absent
    by_cases borrowed : page = ptr / 4096
    · have cr3 := same_globals_cr3 made.globals
      change created.cr3 = machine.cr3 at cr3
      rw [borrowed, ← cr3]
      exact returned
    · rw [spared.entries machine.cr3 sound.spaces.member page low notWindow fun both => borrowed both.1]
      exact absent

end Starting

section Making

variable {machine created filled : Machine} {roots frames rest : List Nat} {root arg link : Nat} {after : Ledger}
  {entry : SunEntry}

theorem reads_of_holds {start : Machine} {first ledger : Ledger} {vaddr : Nat} {bytes : List UInt8}
    (growing : Growing start first link machine ledger)
    (inside : ∀ i < bytes.length, (vaddr + i) / 4096 ∈ ledger.pages) (holds : Holds machine vaddr bytes) :
    Reads machine vaddr bytes := by
  intro i byte found
  have small : i < bytes.length := (List.getElem?_eq_some_iff.1 found).1
  rw [load_byte_at growing.balanced (inside i small), holds i byte found]

theorem initial_bytes_covered (fits : FitsBelowStack entry) (near : NearSections entry) :
    ∀ place ∈ initialBytes entry, ∀ i < place.2.length,
      CoveredBy (spaceAllocations entry) ((place.1 + i) / 4096) := by
  intro place member i small
  rcases List.mem_append.1 member with inSection | rest
  · obtain ⟨allocation, listed, covered⟩ := sections_covered fits near place inSection i small
    exact ⟨allocation, List.mem_append_left _ listed, covered⟩
  · simp only [List.mem_cons, List.not_mem_nil, or_false] at rest
    rcases rest with rfl | rfl
    · have fpu : pcbFpuRegs = 48 := rfl
      rw [List.length_replicate] at small
      refine ⟨pcbAllocation, List.mem_append_right _ List.mem_cons_self, ?_⟩
      rw [Nat.add_assoc, (pcb_place (by omega : pcbFpuRegs + i ≤ 4092)).1]
      exact ⟨le_refl _, Nat.lt_succ_self _⟩
    · rw [List.length_replicate] at small
      obtain ⟨rodata, data, bss, heap, isEnd⟩ := section_starts fits
      have whole := usage_fits (heapPages entry)
      have org : processOrg = 0x420000 := rfl
      refine ⟨⟨entry.heapStart, rwFlags, usagePages entry⟩, ?_, ?_⟩
      · exact List.mem_append_right _
          (List.mem_cons_of_mem _ (List.mem_cons_of_mem _ (List.mem_singleton_self _)))
      · unfold Allocation.Covers usagePages
        dsimp only
        omega

theorem initial_fields_place (entry : SunEntry) (root arg : Nat) :
    ∀ field ∈ initialFields entry root arg, field.1 ≤ 4092 := by
  intro field member
  simp only [initialFields, pcbFields, heapFields, List.cons_append, List.nil_append, List.mem_cons,
    List.not_mem_nil, or_false] at member
  rcases member with rfl | rfl | rfl | rfl | rfl | rfl | rfl | rfl | rfl
  all_goals
    dsimp only
    decide

/-- What was filled in is what is read. -/
theorem started_of_filled {start : Machine} {first ledger : Ledger}
    (growing : Growing start first link machine ledger) (fits : FitsBelowStack entry) (near : NearSections entry)
    (isFilled : Filled first machine ledger entry root arg) : Started machine entry root arg := by
  have pcbCovered : pcbPage ∈ ledger.pages := by
    refine (isFilled.pages _).2 ⟨pcbAllocation, List.mem_append_right _ List.mem_cons_self, le_refl _, ?_⟩
    exact Nat.lt_succ_self _
  constructor
  · intro place member
    apply reads_of_holds growing fun i small =>
      (isFilled.pages _).2 (initial_bytes_covered fits near place member i small)
    rcases List.mem_append.1 member with inSection | rest
    · exact isFilled.sections place inSection
    · simp only [List.mem_cons, List.not_mem_nil, or_false] at rest
      rcases rest with rfl | rfl
      · exact isFilled.pcb.fpu
      · exact isFilled.pcb.usage
  · intro field member
    obtain ⟨page, place⟩ := pcb_place (initial_fields_place entry root arg field member)
    have word : pcbWord machine field.1 = field.2 :=
      (List.mem_append.1 member).elim (isFilled.pcb.context field) (isFilled.pcb.heap field)
    rw [loadPcb, load_word_backed growing (page.symm ▸ pcbCovered)
      (place.symm ▸ initial_fields_place entry root arg field member)]
    exact congrArg Except.ok word

theorem space_flags {allocation : Allocation} (listed : allocation ∈ spaceAllocations entry) :
    allocation.flags < 4096 := by
  rcases List.mem_append.1 listed with user | rest
  · rcases user_flags user with same | same
    all_goals
      rw [same]
      decide
  · simp only [pcbAllocations, pcbAllocation, List.mem_cons, List.not_mem_nil, or_false] at rest
    rcases rest with rfl | rfl | rfl
    all_goals
      dsimp only
      decide

/-- Where the pages of a program are. -/
theorem mapped_of_filled {start : Machine} {first ledger : Ledger}
    (bounded : ∀ frame ∈ first.free, frame < 4294967296)
    (growing : Growing start first (pageEntry machine.memory machine.cr3 mailboxPage) machine ledger)
    (fits : FitsBelowStack entry) (near : NearSections entry)
    (isFilled : Filled first machine ledger entry root arg) : Mapped machine entry machine.cr3 := by
  have balanced := growing.balanced
  have covered : ∀ page, CoveredBy (spaceAllocations entry) page →
      OwnPage page ∧ Present (pageEntry machine.memory machine.cr3 page) := by
    rintro page ⟨allocation, listed, covers⟩
    have own := space_pages_own fits near listed covers
    exact ⟨own, (balanced.exact page own).2 ((isFilled.pages page).2 ⟨allocation, listed, covers⟩)⟩
  have mailbox : CoveredBy (spaceAllocations entry) mailboxPage :=
    ⟨_, List.mem_append_right _ (List.mem_cons_of_mem _ List.mem_cons_self), mailbox_covered⟩
  refine ⟨?_, ?_, growing.linked, balanced.low, ?_, ?_⟩
  · intro page user
    constructor
    · intro present
      by_cases second : page = linkedPage
      · exact .inl second
      · exact .inr ((isFilled.pages page).1 ((balanced.exact page ⟨user, second⟩).1 present))
    · rintro (rfl | there)
      · rw [growing.linked]
        exact (covered _ mailbox).2
      · exact (covered page there).2
  · intro allocation listed page covers
    obtain ⟨frame, free, entry⟩ := isFilled.entries allocation listed page covers
    rw [entry, get_flags_mod, create_entry_flags (bounded frame free) (space_flags listed)]
  · intro page user present
    obtain ⟨low, high⟩ := user_page_index user
    exact growing.userTables _ low high present
  · intro page other own second present there same
    exact balanced.own page ((balanced.exact page own).1 present) other ((balanced.exact other second).1 there) same

theorem make_space_eq (machine : Machine) (entry : SunEntry) (arg : Nat) :
    makeSpace machine entry arg = newPageDir machine >>= fun made =>
      fillSpace (setPageDir made.2 made.1) entry made.1 arg >>= fun next =>
        .ok (made.1, setPageDir next (getPageDir machine)) := by
  simp only [makeSpace, fillSpace, bind_assoc]
  rfl

/-- Back in the old directory, the new one is one of its companions. -/
theorem loaded_of_growing (sound : Sound machine roots frames)
    (opened : Opened machine created roots frames rest root)
    (growing : Growing (switch created root) (emptyLedger (root :: roots) rest)
      (pageEntry filled.memory filled.cr3 mailboxPage) filled after)
    (fits : FitsBelowStack entry) (near : NearSections entry)
    (isFilled : Filled (emptyLedger (root :: roots) rest) filled after entry root arg)
    (spent : rest.length ≤ after.free.length + 2 * totalPages (spaceAllocations entry)) :
    Loaded machine (switch filled machine.cr3) roots frames after.free entry root arg := by
  have balanced := growing.balanced
  have cr3 : filled.cr3 = root := growing_cr3 growing
  have afterRoots : after.roots = root :: roots := growing.roots
  have spaces := balanced.spaces
  have free := balanced.free
  rw [afterRoots] at spaces free
  have member : machine.cr3 ∈ root :: roots := List.mem_cons_of_mem _ sound.spaces.member
  have differ : machine.cr3 ≠ root := fun same => opened.fresh.2 (same ▸ sound.spaces.member)
  have globals : SameGlobals { machine with kernelHeap := (switch filled machine.cr3).kernelHeap }
      (switch filled machine.cr3) := by
    have early := opened.globals
    have late := growing.globals
    have current := sound.spaces.current
    unfold SameGlobals at early late ⊢
    unfold switch at late ⊢
    rw [late, early]
    simp only [current]
  have heap : filled.kernelHeap = created.kernelHeap := by
    have late := growing.globals
    unfold SameGlobals switch at late
    rw [late]
  have window : windowPage filled = windowPage (switch created root) := same_globals_window growing.globals
  have createdCr3 : created.cr3 = machine.cr3 := by
    have same := same_globals_cr3 opened.globals
    exact same
  have low : directoryEntry filled.memory machine.cr3 0 = directoryEntry created.memory machine.cr3 0 :=
    growing.directories _ member 0 (by decide) fun both => differ both.1
  have mapped := mapped_of_filled opened.sound.free.bounded growing fits near isFilled
  have backed : ∀ page, UserPage page → Present (pageEntry filled.memory root page) → ∃ other ∈ after.pages,
      pageEntry filled.memory root page = pageEntry filled.memory filled.cr3 other := by
    intro page user present
    rcases (mapped.pages page user).1 (cr3.symm ▸ present) with rfl | covered
    · refine ⟨mailboxPage, (isFilled.pages _).2 ?_, ?_⟩
      · exact ⟨_, List.mem_append_right _ (List.mem_cons_of_mem _ List.mem_cons_self), mailbox_covered⟩
      · rw [← growing.linked, cr3]
    · exact ⟨page, (isFilled.pages _).2 covered, by rw [cr3]⟩
  have taken := opened.taken
  refine ⟨⟨spaces_switch spaces member, free_list_switch spaces free member, ?_, ?_, ?_, ?_⟩, opened.fresh.1, globals,
    ?_, ?_, ?_, ⟨?_, ?_, ?_⟩, ?_, by omega⟩
  · change Present (directoryEntry filled.memory machine.cr3 0)
    rw [low, ← createdCr3]
    exact opened.sound.low
  · change kernelPdiStart ≤ windowPage filled / 1024
    rw [window]
    exact opened.sound.kernelHalf
  · change filled.kernelHeap.heapStart % 4096 = 0
    rw [heap]
    exact opened.sound.heapAligned
  · change filled.kernelHeap.heapStart / 4096 + filled.kernelHeap.pageCount ≤ 1047552
    rw [heap]
    exact opened.sound.heapHigh
  · rw [cr3] at mapped
    exact ⟨mapped.pages, mapped.flags, mapped.linked, mapped.low, mapped.tables, mapped.distinct⟩
  · have again : switch (switch filled machine.cr3) root = filled := by
      have same := switch_self balanced.spaces.current
      rw [cr3] at same
      exact same
    rw [again]
    exact started_of_filled growing fits near isFilled
  · intro page user present
    obtain ⟨other, there, same⟩ := backed page user present
    have account := own_frame_free growing there
    have unused := balanced.apart other there
    rw [afterRoots, backingFrame, ← same] at unused
    rw [backingFrame, ← same] at account
    exact ⟨opened.fewer account, unused⟩
  · intro other isOld page user
    rw [← opened.others.entries other isOld page user]
    obtain ⟨_, below⟩ := user_page_bounds user
    obtain ⟨indexLow, indexHigh⟩ := user_page_index user
    have high := opened.sound.kernelHalf
    have start : kernelPdiStart = 768 := rfl
    apply growing.spares.entries other (List.mem_cons_of_mem _ isOld) page (by omega)
    · change page ≠ windowPage created
      omega
    · rintro ⟨_, same | shares⟩
      · have here : root = other := same
        exact opened.fresh.2 (here.symm ▸ isOld)
      · have present : Present (directoryEntry created.memory root (page / 1024)) := shares.1
        rw [opened.bare.directory _ indexLow indexHigh] at present
        exact not_present_zero present
  · intro other isOld index high
    have start : kernelPdiStart = 768 := rfl
    rw [← opened.others.directories other isOld index high]
    apply growing.directories other (List.mem_cons_of_mem _ isOld) index (by omega)
    rintro ⟨same, _⟩
    have here : other = root := same
    exact opened.fresh.2 (here ▸ isOld)
  · intro frame aligned unused
    obtain ⟨still, same⟩ := opened.others.frames frame aligned unused
    obtain ⟨later, kept⟩ := growing.spares.frames frame aligned still
    rw [afterRoots] at later
    have foreign : frame ∉ rest := fun listed => still (.inr (.inr listed))
    refine ⟨later, fun _ cell low high => ?_⟩
    rw [← same id cell low high]
    exact kept foreign cell low high
  · intro page high below notWindow absent
    have sameWindow : windowPage (switch created root) = windowPage machine := by
      have same := same_globals_window opened.globals
      exact same
    have entry := growing.spares.entries machine.cr3 member page below (sameWindow.symm ▸ notWindow) fun both =>
      absurd (user_page_bounds both.1).2 (by omega)
    change ¬ Present (pageEntry filled.memory machine.cr3 page)
    rw [entry]
    exact opened.kernel page high below notWindow absent

/-- `exec_sun` loads the program, if it does not run out of memory. -/
theorem make_space_runs (sound : Sound machine roots frames) (behind : HeapBehind machine)
    (fits : FitsBelowStack entry) (near : NearSections entry) (words : StartWords entry arg)
    (creating : newPageDir machine = .ok (root, created))
    (runs : 2 * totalPages (spaceAllocations entry) + 2 ≤ frames.length ∨ Returns (makeSpace machine entry arg)) :
    ∃ next rest, makeSpace machine entry arg = .ok (root, next) ∧
      Loaded machine next roots frames rest entry root arg := by
  obtain ⟨rest, opened⟩ := new_page_dir_opened sound behind creating
  have taken := opened.taken
  have growing := growing_start opened.sound opened.bare
  have changed := set_page_dir_ok opened.sound.spaces.current root
  rw [make_space_eq, returns_after creating, changed] at runs
  obtain ⟨filled, after, filling, advance, isFilled, spent⟩ := fill_space_advance growing rfl fits near words
    (sound.free.bounded root opened.fresh.1) (runs.imp (fun enough => (by omega : _ ≤ rest.length)) returns_first)
  have loaded := loaded_of_growing sound opened advance.growing fits near isFilled spent
  refine ⟨_, after.free, ?_, loaded⟩
  rw [make_space_eq, creating, Trap.ok_bind, changed, filling, Trap.ok_bind, getPageDir, sound.spaces.current,
    set_page_dir_ok advance.growing.balanced.spaces.current]

end Making

end ParadiseOS.NewSpaces
