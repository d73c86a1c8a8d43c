import ParadiseOS.NewSpaces
import ParadiseOS.ProcessCycles

/-!
# The address spaces of processes

A process has its pages of the user half for itself. User mode writes to the pages that its
tables open to it, the kernel saves a stopped context in the control block, and both reach
frames of the current process only.
-/

namespace ParadiseOS.ProcessSpaces

open FrameLedger FrameSteps HeapContents KernelPages LoadedPrograms MachineWord MemModel NewDirectory NewSpaces
open PagingMaps PagingModel PagingSteps ProcessModel ProgramLoading TwoLevelPaging VirtRanges

set_option autoImplicit false

section UserMode

/-- Where user mode may write: the entries of the directory and of the table both allow it. -/
def userWritable (machine : Machine) (vaddr : Nat) : Option Nat :=
  let directory := directoryEntry machine.memory machine.cr3 (vaddr / 4096 / 1024)
  let entry := pageEntry machine.memory machine.cr3 (vaddr / 4096)
  if Present entry ∧ (UserMode directory ∧ UserMode entry) ∧ Writable directory ∧ Writable entry then
    some (frameOf entry + vaddr % 4096)
  else none

/-- A store of user mode. -/
def userStore (machine : Machine) (vaddr : Nat) (byte : UInt8) : Except Trap Machine :=
  match userWritable machine vaddr with
  | some paddr => .ok { machine with memory := Function.update machine.memory paddr byte }
  | none => .error .pageFault

end UserMode

section Resuming

/-- The registers that `jump_usermode` loads, and where they are in the control block. -/
def loadRegisters (machine : Machine) : List Nat → Except Trap (List Nat)
  | [] => .ok []
  | offset :: offsets => do
      let word ← loadPcb machine offset
      let words ← loadRegisters machine offsets
      pure (word :: words)

def loadBytes (machine : Machine) (vaddr : Nat) : Nat → Except Trap (List UInt8)
  | 0 => .ok []
  | count + 1 => do
      let byte ← loadByte machine vaddr
      let bytes ← loadBytes machine (u32 (vaddr + 1)) count
      pure (byte :: bytes)

/-- `edi`, `esi`, `ebp`, `ebx`, `ecx`, `eax` and `edx`. -/
def jumpRegisters : List Nat := [0x00, 0x04, 0x08, 0x10, 0x18, 0x1C, 0x14]

/-- All that `fpu_restore` and `jump_usermode` load. Interrupts are enabled in any case. -/
def restoreContext (machine : Machine) : Except Trap Context := do
  let fpu ← loadBytes machine (pcbAddr + pcbFpuRegs) 512
  let eip ← loadPcb machine pcbEip
  let esp ← loadPcb machine pcbEsp
  let eflags ← loadPcb machine pcbEflags
  let registers ← loadRegisters machine jumpRegisters
  pure ⟨registers, eflags ||| (1 <<< 9), eip, esp, fpu⟩

end Resuming

/-- The pages of a process. -/
structure Space (machine : Machine) (roots frames : List Nat) (root : Nat) : Prop where
  member : root ∈ roots
  low : Present (directoryEntry machine.memory root 0)
  tables : ∀ index, 1 ≤ index → index < kernelPdiStart → Present (directoryEntry machine.memory root index) →
    UserMode (directoryEntry machine.memory root index)
  pcb : Present (pageEntry machine.memory root pcbPage)
  kernelOnly : ¬ UserMode (pageEntry machine.memory root pcbPage)
  frames : ∀ page, UserPage page → Present (pageEntry machine.memory root page) →
    0 < frameOf (pageEntry machine.memory root page) ∧
      ¬ InUse machine roots frames (frameOf (pageEntry machine.memory root page))
  distinct : ∀ page other, OwnPage page → OwnPage other → Present (pageEntry machine.memory root page) →
    Present (pageEntry machine.memory root other) →
    frameOf (pageEntry machine.memory root page) = frameOf (pageEntry machine.memory root other) → page = other
  linked : pageEntry machine.memory root linkedPage = pageEntry machine.memory root mailboxPage

/-- Two address spaces have no frame of their user halves in common. -/
def SpacesApart (machine : Machine) (root other : Nat) : Prop :=
  ∀ page second, UserPage page → UserPage second → Present (pageEntry machine.memory root page) →
    Present (pageEntry machine.memory other second) →
    frameOf (pageEntry machine.memory root page) ≠ frameOf (pageEntry machine.memory other second)

/-- A page is mapped as it was, and its frame holds what it held. -/
def SamePage (machine next : Machine) (root page : Nat) : Prop :=
  pageEntry next.memory root page = pageEntry machine.memory root page ∧
    (Present (pageEntry machine.memory root page) →
      SameOn machine.memory next.memory (frameOf (pageEntry machine.memory root page)))

/-- The pages of an address space and their contents are as they were. -/
def SameSpace (machine next : Machine) (root : Nat) : Prop :=
  ∀ page, UserPage page → SamePage machine next root page

section Preserving

variable {machine middle next : Machine} {roots frames more rest : List Nat} {root other : Nat}
  {written : Nat → Prop}

theorem undisturbed_trans {between left : List Nat}
    (early : Undisturbed written machine middle roots frames between left)
    (late : Undisturbed written middle next between left more rest) (subset : roots ⊆ between) :
    Undisturbed written machine next roots frames more rest where
  entries root member page user := by
    rw [late.entries root (subset member) page user, early.entries root member page user]
  directories root member index low := by
    rw [late.directories root (subset member) index low, early.directories root member index low]
  frames frame aligned unused := by
    obtain ⟨still, same⟩ := early.frames frame aligned unused
    obtain ⟨later, kept⟩ := late.frames frame aligned still
    refine ⟨later, fun untouched cell low high => ?_⟩
    rw [kept untouched cell low high, same untouched cell low high]

theorem undisturbed_same (same : next.memory = machine.memory) :
    Undisturbed written machine next roots frames roots frames where
  entries _ _ _ _ := by rw [same]
  directories _ _ _ _ := by rw [same]
  frames frame _ unused := by
    refine ⟨?_, fun _ cell _ _ => by rw [same]⟩
    unfold InUse at unused ⊢
    rw [same]
    exact unused

theorem space_undisturbed (space : Space machine roots frames root)
    (undisturbed : Undisturbed written machine next roots frames more rest) (subset : roots ⊆ more) :
    Space next more rest root := by
  have entry := undisturbed.entries root space.member
  have isPcb : UserPage pcbPage := ⟨by decide, by decide⟩
  have directory := undisturbed.directories root space.member
  refine ⟨subset space.member, ?_, ?_, ?_, ?_, ?_, ?_, ?_⟩
  · rw [directory 0 (by decide)]
    exact space.low
  · intro index low high
    rw [directory index high]
    exact space.tables index low high
  · rw [entry _ isPcb]
    exact space.pcb
  · rw [entry _ isPcb]
    exact space.kernelOnly
  · intro page user
    rw [entry page user]
    intro present
    obtain ⟨positive, unused⟩ := space.frames page user present
    exact ⟨positive, (undisturbed.frames _ (frame_of_aligned _) unused).1⟩
  · intro page second own ownSecond
    rw [entry page own.1, entry second ownSecond.1]
    exact space.distinct page second own ownSecond
  · rw [entry _ ⟨by decide, by decide⟩, entry _ ⟨by decide, by decide⟩]
    exact space.linked

theorem spaces_apart_undisturbed (apart : SpacesApart machine root other)
    (undisturbed : Undisturbed written machine next roots frames more rest) (member : root ∈ roots)
    (otherMember : other ∈ roots) : SpacesApart next root other := by
  intro page second user userSecond
  rw [undisturbed.entries root member page user, undisturbed.entries other otherMember second userSecond]
  exact apart page second user userSecond

theorem same_page_of_undisturbed {page : Nat} (space : Space machine roots frames root)
    (undisturbed : Undisturbed written machine next roots frames more rest) (user : UserPage page)
    (untouched : Present (pageEntry machine.memory root page) →
      ¬ written (frameOf (pageEntry machine.memory root page))) : SamePage machine next root page := by
  refine ⟨undisturbed.entries root space.member page user, fun present => ?_⟩
  exact (undisturbed.frames _ (frame_of_aligned _) (space.frames page user present).2).2 (untouched present)

theorem same_space_of_undisturbed (space : Space machine roots frames root)
    (undisturbed : Undisturbed written machine next roots frames more rest)
    (untouched : ∀ page, UserPage page → Present (pageEntry machine.memory root page) →
      ¬ written (frameOf (pageEntry machine.memory root page))) : SameSpace machine next root :=
  fun page user => same_page_of_undisturbed space undisturbed user (untouched page user)

theorem same_space_refl (machine : Machine) (root : Nat) : SameSpace machine machine root :=
  fun _ _ => ⟨rfl, fun _ _ _ _ => rfl⟩

theorem same_page_trans {page : Nat} (early : SamePage machine middle root page)
    (late : SamePage middle next root page) : SamePage machine next root page := by
  obtain ⟨entry, same⟩ := early
  obtain ⟨later, kept⟩ := late
  rw [entry] at later kept
  refine ⟨later, fun present cell low high => ?_⟩
  rw [kept present cell low high, same present cell low high]

theorem same_space_trans (early : SameSpace machine middle root) (late : SameSpace middle next root) :
    SameSpace machine next root :=
  fun page user => same_page_trans (early page user) (late page user)

end Preserving

section Rewriting

variable {machine middle next : Machine} {roots frames : List Nat} {root frame : Nat}

/-- The paging of the kernel without any pages of processes. -/
theorem empty_balanced (sound : Sound machine roots frames) :
    Balanced (fun _ => False) (frames ++ []) (u32 (machine.usedFrames + frames.length)) machine
      (emptyLedger roots frames) :=
  ⟨sound.spaces, sound.free, sound.low, nofun, nofun, List.forall_mem_nil _, List.nodup_nil, List.forall_mem_nil _,
    List.forall_mem_nil _, List.forall_mem_nil _, List.forall_mem_nil _, List.forall_mem_nil _, List.Perm.refl _,
    rfl⟩

/-- Writing to a frame that is not in use leaves all tables alone. -/
theorem rewritten_undisturbed (sound : Sound machine roots frames) (unused : ¬ InUse machine roots frames frame)
    (rewritten : Rewritten machine next frame) :
    Sound next roots frames ∧ Undisturbed (· = frame) machine next roots frames roots frames := by
  have spaces := sound.spaces
  have start : kernelPdiStart = 768 := rfl
  have globals : SameGlobals machine next := by
    unfold SameGlobals
    rw [rewritten.same]
  have same : ∀ other, other % 4096 = 0 → InUse machine roots frames other →
      SameOn machine.memory next.memory other :=
    fun other aligned used => rewritten.elsewhere other aligned fun equal => unused (equal ▸ used)
  have sameRoots : ∀ root ∈ roots, SameOn machine.memory next.memory root :=
    fun root member => same root (spaces.family.aligned root member) (.inl member)
  obtain ⟨held, _⟩ := balanced_outside (empty_balanced sound) globals (by rw [rewritten.same])
    (by rw [rewritten.same]) same
  have sameHeap : next.kernelHeap = machine.kernelHeap := by rw [rewritten.same]
  have after : Sound next roots frames :=
    sound_of_balanced sound held (same_globals_window globals) (by rw [sameHeap]) (by rw [sameHeap])
  refine ⟨after, ?_, ?_, ?_⟩
  · intro root member page user
    obtain ⟨low, high⟩ := user_page_bounds user
    apply page_entry_same_on (sameRoots root member) (by omega)
    intro present
    exact same _ (frame_of_aligned _) (.inr (.inl (is_table_of_present member (by omega) present)))
  · intro root member index low
    exact directory_entry_same_on (sameRoots root member) (by omega)
  · intro other aligned otherUnused
    refine ⟨?_, rewritten.elsewhere other aligned⟩
    unfold InUse at otherUnused ⊢
    rw [is_table_same_on sameRoots]
    exact otherUnused

/-- User mode writes to a frame of its own. -/
theorem user_store_rewritten {vaddr : Nat} {byte : UInt8} (stored : userStore machine vaddr byte = .ok next) :
    (Present (pageEntry machine.memory machine.cr3 (vaddr / 4096)) ∧
      UserMode (pageEntry machine.memory machine.cr3 (vaddr / 4096))) ∧
      Rewritten machine next (frameOf (pageEntry machine.memory machine.cr3 (vaddr / 4096))) := by
  unfold userStore userWritable at stored
  dsimp only at stored
  split_ifs at stored with allowed
  · simp only [Except.ok.injEq] at stored
    subst stored
    refine ⟨⟨allowed.1, allowed.2.1.2⟩, rfl, ?_⟩
    intro other aligned differ cell low high
    have place := frame_of_aligned (pageEntry machine.memory machine.cr3 (vaddr / 4096))
    exact Function.update_of_ne (by omega) _ _

end Rewriting

section Settling

variable {machine next : Machine} {roots frames : List Nat} {root : Nat}

theorem own_pages_listed (machine : Machine) (root : Nat) : ∃ pages : List Nat, pages.Nodup ∧
    ∀ page, page ∈ pages ↔ OwnPage page ∧ Present (pageEntry machine.memory root page) := by
  classical
  refine ⟨(List.range 786432).filter fun page => OwnPage page ∧ Present (pageEntry machine.memory root page),
    List.nodup_range.filter _, fun page => ?_⟩
  rw [List.mem_filter, decide_eq_true_iff, List.mem_range]
  exact ⟨fun both => both.2, fun both => ⟨(user_page_bounds both.1.1).2, both⟩⟩

/-- The pages of a process are backed like those of a program that is being loaded. -/
theorem space_growing (sound : Sound machine roots frames) (space : Space machine roots frames root) :
    ∃ start first ledger, Growing start first (pageEntry machine.memory root linkedPage) (switch machine root) ledger ∧
      pcbPage ∈ ledger.pages ∧
      ∀ page, OwnPage page → Present (pageEntry machine.memory root page) → page ∈ ledger.pages := by
  have kernelStart : kernelPdiStart = 768 := rfl
  have high := sound.kernelHalf
  have windowPlace : windowPage (switch machine root) = windowPage machine := rfl
  obtain ⟨pages, nodup, listed⟩ := own_pages_listed machine root
  have unused : ∀ page ∈ pages, 0 < backingFrame (switch machine root) page ∧
      ¬ InUse (switch machine root) roots frames (backingFrame (switch machine root) page) :=
    fun page member => space.frames page ((listed page).1 member).1.1 ((listed page).1 member).2
  -- the loading began before any of the pages was taken
  obtain ⟨used, before⟩ : ∃ used, u32 (machine.usedFrames + frames.length) =
      u32 (used + (frames ++ pages.map (backingFrame (switch machine root))).length) := by
    refine ⟨machine.usedFrames + 4294967295 * pages.length, ?_⟩
    rw [List.length_append, List.length_map]
    unfold u32
    omega
  have balanced : Balanced OwnPage (frames ++ pages.map (backingFrame (switch machine root)))
      (u32 (machine.usedFrames + frames.length)) (switch machine root) ⟨roots, frames, pages, [], []⟩ := by
    refine ⟨spaces_switch sound.spaces space.member, free_list_switch sound.spaces sound.free space.member,
      space.low, ?_, ?_, ?_, nodup, ?_, ?_, ?_, List.forall_mem_nil _, List.forall_mem_nil _, ?_, rfl⟩
    · rintro page ⟨user, _⟩
      obtain ⟨_, below⟩ := user_page_bounds user
      rw [windowPlace]
      omega
    · intro page own
      exact ⟨fun present => (listed page).2 ⟨own, present⟩, fun member => ((listed page).1 member).2⟩
    · exact fun page member => ((listed page).1 member).1
    · exact fun page member => (unused page member).1
    · exact fun page member => (unused page member).2
    · intro page member other there same
      obtain ⟨own, present⟩ := (listed page).1 member
      obtain ⟨otherOwn, otherPresent⟩ := (listed other).1 there
      exact space.distinct page other own otherOwn present otherPresent same
    · rw [List.append_nil, List.append_nil]
  refine ⟨{ switch machine root with usedFrames := used },
    ⟨roots, frames ++ pages.map (backingFrame (switch machine root)), pages, [], []⟩, ⟨roots, frames, pages, [], []⟩,
    ⟨?_, ?_, rfl, space.member, ?_, ?_, high, space.tables, rfl⟩, ?_, fun page own present => (listed page).2 ⟨own, present⟩⟩
  · rw [before] at balanced
    exact balanced
  · exact rfl
  · refine ⟨?_, fun _ _ _ _ _ _ => rfl, fun _ _ _ _ _ _ _ => Iff.rfl⟩
    intro frame _ apart
    refine ⟨?_, fun _ _ _ _ => rfl⟩
    rintro (isRoot | isTable | free)
    · exact apart (.inl isRoot)
    · exact apart (.inr (.inl isTable))
    · exact apart (.inr (.inr (List.mem_append_left _ free)))
  · exact fun _ _ _ _ _ => rfl
  · exact (listed _).2 ⟨⟨⟨by decide, by decide⟩, by decide⟩, space.pcb⟩

end Settling

section Pooling

variable {machine next : Machine} {roots frames : List Nat} {system created : System} {process : Nat}

/-- A page for the kernel's heap is no page of a process. -/
theorem kernel_alloc_undisturbed {ptr : Nat} (sound : Sound machine roots frames) (behind : HeapBehind machine)
    (completed : kernelAlloc machine 1 = .ok (ptr, next)) :
    ∃ rest, Sound next roots rest ∧ HeapBehind next ∧ next.cr3 = machine.cr3 ∧
      Undisturbed (fun _ => False) machine next roots frames roots rest := by
  have kernelStart : kernelPdiStart = 768 := rfl
  have high := sound.kernelHalf
  obtain ⟨aligned, low, absent⟩ := kernel_alloc_fresh sound completed
  have balanced := page_balanced sound low absent
  obtain ⟨marked, after, found, isHeap, held, middle, extended, isNext⟩ :=
    kernel_alloc_extended (fun _ => False) balanced (fun vaddr heap placed page range => by
      have same := (ProcessFrames.kernel_alloc_objects completed).2.2.symm.trans placed
      simp only [Except.ok.injEq, Prod.mk.injEq] at same
      unfold InRange at range
      omega) completed
  obtain ⟨start, count⟩ := heap_alloc_place (by decide) sound.heapHigh found
  obtain ⟨_, above, _⟩ := heap_page_place sound.heapAligned sound.heapHigh found
  have window : windowPage next = windowPage machine := by
    have same := same_globals_window extended.carried.globals
    rw [isNext]
    exact same
  have roots_ : after.roots = roots := extended.carried.roots
  have memory : next.memory = middle.memory := by rw [isNext]
  have cr3 : next.cr3 = machine.cr3 := by
    have same := same_globals_cr3 extended.carried.globals
    rw [isNext]
    exact same
  refine ⟨after.free, roots_ ▸ sound_of_balanced sound held window (isHeap ▸ start) (isHeap ▸ count), ?_, cr3,
    ?_, ?_, ?_⟩
  · unfold HeapBehind at behind ⊢
    rw [window, isHeap, start]
    exact behind
  · unfold HeapBehind at behind
    intro root member page user
    obtain ⟨_, below⟩ := user_page_bounds user
    rw [memory]
    apply extended.spares.entries root member page (by omega) (by omega)
    rintro ⟨⟨rangeLow, _⟩, _⟩
    omega
  · unfold HeapBehind at behind
    intro root member index userHalf
    rw [memory]
    apply extended.carried.entries root member index (by omega)
    rintro ⟨_, _, page, ⟨rangeLow, rangeHigh⟩, isIndex⟩
    omega
  · intro frame frameAligned unused
    obtain ⟨still, same⟩ := extended.spares.frames frame frameAligned unused
    rw [roots_] at still
    unfold InUse at still ⊢
    rw [memory]
    exact ⟨still, same⟩

/-- `pool_create` disturbs nobody. -/
theorem pool_create_undisturbed (sound : Sound system.machine roots frames) (behind : HeapBehind system.machine)
    (creating : poolCreate system = .ok (process, created)) :
    ∃ rest, Sound created.machine roots rest ∧ HeapBehind created.machine ∧
      created.machine.cr3 = system.machine.cr3 ∧
      Undisturbed (fun _ => False) system.machine created.machine roots frames roots rest := by
  rcases ProcessTable.pool_create_machine creating with same | ⟨ptr, machine, allocating, isMachine⟩
  · rw [same]
    exact ⟨frames, sound, behind, rfl, undisturbed_same rfl⟩
  · obtain ⟨rest, held, still, cr3, undisturbed⟩ := kernel_alloc_undisturbed sound behind allocating
    have paging : SamePaging machine created.machine := by
      rw [isMachine]
      exact ⟨rfl, rfl, rfl, rfl, rfl, rfl⟩
    refine ⟨rest, ProcessCycles.sound_same_paging held paging (by rw [isMachine]), ?_, paging.cr3.trans cr3,
      undisturbed_trans undisturbed (undisturbed_same paging.memory) fun _ => id⟩
    rw [isMachine]
    exact still

end Pooling

section Storing

variable {region : Nat → Prop} {contributed : List Nat} {total : Nat} {machine next : Machine} {ledger : Ledger}
  {page vaddr : Nat}

theorem store_bytes_rewritten (bytes : List UInt8) (balanced : Balanced region contributed total machine ledger)
    (member : page ∈ ledger.pages) (inside : ∀ i < bytes.length, (vaddr + i) / 4096 = page)
    (stored : storeBytes machine vaddr bytes = .ok next) :
    Rewritten machine next (backingFrame machine page) := by
  induction bytes generalizing machine vaddr with
  | nil =>
      rw [storeBytes, Except.ok.injEq] at stored
      exact stored ▸ rewritten_refl machine _
  | cons byte bytes ih =>
      have sized : (byte :: bytes).length = bytes.length + 1 := List.length_cons
      have here : vaddr / 4096 = page := by simpa using inside 0 (by omega)
      have low := (balanced.placed page (balanced.inside page member)).1
      have step : u32 (vaddr + 1) = vaddr + 1 := u32_of_lt (by omega)
      obtain ⟨middle, storing, stored⟩ := Trap.bind_eq_ok.mp stored
      have first : Rewritten machine middle (backingFrame machine page) := by
        refine ⟨by rw [store_byte_eq balanced (here.symm ▸ member) storing], ?_⟩
        intro other aligned differ
        exact store_byte_elsewhere balanced (here.symm ▸ member) storing aligned (here.symm ▸ differ)
      have held := (rewritten_balanced balanced member first).1
      rw [step] at stored
      have later : ∀ i < bytes.length, (vaddr + 1 + i) / 4096 = page := by
        intro i small
        have place : vaddr + 1 + i = vaddr + (i + 1) := by omega
        rw [place]
        exact inside (i + 1) (by omega)
      have rest := ih held later stored
      rw [rewritten_frame balanced member first] at rest
      exact rewritten_trans first rest

theorem store_fields_rewritten (fields : List (Nat × Nat))
    (balanced : Balanced region contributed total machine ledger) (member : pcbPage ∈ ledger.pages)
    (inside : ∀ field ∈ fields, field.1 ≤ 4092) (stored : storeFields machine fields = .ok next) :
    Rewritten machine next (backingFrame machine pcbPage) := by
  induction fields generalizing machine with
  | nil =>
      rw [storeFields, Except.ok.injEq] at stored
      exact stored ▸ rewritten_refl machine _
  | cons field fields ih =>
      obtain ⟨middle, storing, stored⟩ := Trap.bind_eq_ok.mp stored
      obtain ⟨here, place⟩ := pcb_place (inside field List.mem_cons_self)
      have low := (balanced.placed _ (balanced.inside _ member)).1
      have found := page_translate balanced (here.symm ▸ member)
      rw [here, place] at found
      have small := inside field List.mem_cons_self
      rw [storePcb, store_word_at found (by omega) (by omega), Except.ok.injEq] at storing
      have first : Rewritten machine middle (backingFrame machine pcbPage) := by
        rw [← storing]
        exact ⟨rfl, fun other aligned differ => write_same_on (frame_of_aligned _) aligned (by omega) differ⟩
      have rest := ih (rewritten_balanced balanced member first).1
        (fun other there => inside other (List.mem_cons_of_mem _ there)) stored
      rw [rewritten_frame balanced member first] at rest
      exact rewritten_trans first rest

end Storing

section Contexts

/-- A context that the processor can push: eight registers and an area of 512 bytes. -/
structure LegalContext (context : Context) : Prop where
  registers : context.registers.length = 8
  words : ∀ word ∈ context.registers, word < 4294967296
  eflags : context.eflags < 4294967296
  eip : context.eip < 4294967296
  esp : context.esp < 4294967296
  fpu : context.fpu.length = 512

/-- What a stopped context goes on with. -/
def resumed (context : Context) : Context where
  registers := jumpRegisters.map fun offset => context.registers.getD (offset / 4) 0
  eflags := context.eflags ||| (1 <<< 9)
  eip := context.eip
  esp := context.esp
  fpu := context.fpu

/-- What the control block of the current address space shows. -/
def pcbContext (machine : Machine) : Context where
  registers := jumpRegisters.map (pcbWord machine)
  eflags := pcbWord machine pcbEflags ||| (1 <<< 9)
  eip := pcbWord machine pcbEip
  esp := pcbWord machine pcbEsp
  fpu := (List.range' (pcbAddr + pcbFpuRegs) 512).map (byteAt machine)

def registerFields (offset : Nat) : List Nat → List (Nat × Nat)
  | [] => []
  | word :: words => (offset, word) :: registerFields (offset + 4) words

def contextFields (context : Context) : List (Nat × Nat) :=
  registerFields 0 context.registers ++
    [(pcbEflags, context.eflags), (pcbEip, context.eip), (pcbEsp, context.esp)]

variable {start machine next : Machine} {first ledger : Ledger} {link vaddr : Nat} {context : Context}

theorem store_registers_fields (machine : Machine) (offset : Nat) (words : List Nat) :
    storeRegisters machine offset words = storeFields machine (registerFields offset words) := by
  induction words generalizing machine offset with
  | nil => rfl
  | cons word words ih => simp only [storeRegisters, registerFields, storeFields, ih]

theorem store_fields_append (machine : Machine) (fields more : List (Nat × Nat)) :
    storeFields machine (fields ++ more) = storeFields machine fields >>= fun next => storeFields next more := by
  induction fields generalizing machine with
  | nil => rfl
  | cons field fields ih =>
      obtain ⟨offset, word⟩ := field
      rw [List.cons_append, storeFields, storeFields, bind_assoc]
      exact bind_congr fun middle => ih middle

theorem save_context_eq (machine : Machine) (context : Context) :
    saveContext machine context = storeFields machine (contextFields context) >>= fun next =>
      storeBytes next (pcbAddr + pcbFpuRegs) context.fpu := by
  rw [contextFields, store_fields_append, bind_assoc, saveContext, store_registers_fields]
  apply bind_congr
  intro middle
  simp only [storeFields, bind_assoc]
  rfl

theorem register_fields_place (words : List Nat) (offset : Nat) (aligned : offset % 4 = 0) :
    ∀ field ∈ registerFields offset words, field.1 % 4 = 0 ∧ offset ≤ field.1 ∧
      field.1 < offset + 4 * words.length ∧ field.2 ∈ words := by
  induction words generalizing offset with
  | nil => exact List.forall_mem_nil _
  | cons word words ih =>
      intro field member
      rw [List.length_cons]
      rcases List.mem_cons.1 member with rfl | later
      · exact ⟨aligned, le_refl _, by omega, List.mem_cons_self⟩
      · obtain ⟨here, low, high, there⟩ := ih (offset + 4) (by omega) field later
        exact ⟨here, by omega, by omega, List.mem_cons_of_mem _ there⟩

theorem field_word_absent (fields : List (Nat × Nat)) {offset : Nat} (word : Nat)
    (absent : ∀ field ∈ fields, field.1 ≠ offset) : fieldWord word fields offset = word := by
  induction fields generalizing word with
  | nil => rfl
  | cons field fields ih =>
      rw [fieldWord, if_neg (absent field List.mem_cons_self)]
      exact ih word fun other there => absent other (List.mem_cons_of_mem _ there)

theorem field_word_append (word : Nat) (fields more : List (Nat × Nat)) (offset : Nat) :
    fieldWord word (fields ++ more) offset = fieldWord (fieldWord word fields offset) more offset := by
  induction fields generalizing word with
  | nil => rfl
  | cons field fields ih => exact ih _

theorem field_word_registers (words : List Nat) (word start index : Nat) (small : index < words.length) :
    fieldWord word (registerFields (4 * start) words) (4 * (start + index)) = words.getD index 0 := by
  induction words generalizing word start index with
  | nil => exact absurd small (Nat.not_lt_zero _)
  | cons first words ih =>
      rw [registerFields, fieldWord]
      have step : 4 * start + 4 = 4 * (start + 1) := by omega
      cases index with
      | zero =>
          rw [Nat.add_zero, if_pos rfl, step, field_word_absent, List.getD_cons_zero]
          intro field member
          have place := (register_fields_place words _ (by omega) field member).2.1
          omega
      | succ index =>
          have place : start + (index + 1) = start + 1 + index := by omega
          rw [if_neg (by omega), step, place, List.getD_cons_succ]
          rw [List.length_cons] at small
          exact ih _ (start + 1) index (by omega)

theorem load_pcb_ok (growing : Growing start first link machine ledger) (member : pcbPage ∈ ledger.pages)
    {offset : Nat} (small : offset ≤ 4092) : loadPcb machine offset = .ok (pcbWord machine offset) := by
  obtain ⟨page, place⟩ := pcb_place small
  exact load_word_backed growing (page.symm ▸ member) (place.symm ▸ small)

theorem load_registers_ok (growing : Growing start first link machine ledger) (member : pcbPage ∈ ledger.pages)
    (offsets : List Nat) (small : ∀ offset ∈ offsets, offset ≤ 4092) :
    loadRegisters machine offsets = .ok (offsets.map (pcbWord machine)) := by
  induction offsets with
  | nil => rfl
  | cons offset offsets ih =>
      rw [loadRegisters, load_pcb_ok growing member (small offset List.mem_cons_self), Trap.ok_bind,
        ih fun other there => small other (List.mem_cons_of_mem _ there)]
      rfl

theorem load_bytes_ok (growing : Growing start first link machine ledger) (count : Nat)
    (inside : ∀ i < count, (vaddr + i) / 4096 ∈ ledger.pages) :
    loadBytes machine vaddr count = .ok ((List.range' vaddr count).map (byteAt machine)) := by
  induction count generalizing vaddr with
  | zero => rfl
  | succ count ih =>
      have here : vaddr / 4096 ∈ ledger.pages := by simpa using inside 0 (by omega)
      have low := user_page_bounds (growing.balanced.inside _ here).1
      have step : u32 (vaddr + 1) = vaddr + 1 := u32_of_lt (by omega)
      have later : ∀ i < count, (vaddr + 1 + i) / 4096 ∈ ledger.pages := by
        intro i small
        have place : vaddr + 1 + i = vaddr + (i + 1) := by omega
        rw [place]
        exact inside (i + 1) (by omega)
      rw [loadBytes, load_byte_at growing.balanced here, Trap.ok_bind, step, ih later]
      rfl

theorem fpu_inside (member : pcbPage ∈ ledger.pages) :
    ∀ i < 512, (pcbAddr + pcbFpuRegs + i) / 4096 ∈ ledger.pages := by
  intro i small
  have fpu : pcbFpuRegs = 48 := rfl
  rw [Nat.add_assoc, (pcb_place (by omega : pcbFpuRegs + i ≤ 4092)).1]
  exact member

theorem restore_context_ok (growing : Growing start first link machine ledger) (member : pcbPage ∈ ledger.pages) :
    restoreContext machine = .ok (pcbContext machine) := by
  rw [restoreContext, load_bytes_ok growing 512 (fpu_inside member), Trap.ok_bind,
    load_pcb_ok growing member (by decide), Trap.ok_bind, load_pcb_ok growing member (by decide), Trap.ok_bind,
    load_pcb_ok growing member (by decide), Trap.ok_bind, load_registers_ok growing member jumpRegisters (by decide)]
  rfl

/-- The words of a saved context are where `jump_usermode` looks for them. -/
theorem context_fields_word (legal : LegalContext context) (word offset : Nat) :
    (offset ∈ jumpRegisters →
      fieldWord word (contextFields context) offset = context.registers.getD (offset / 4) 0) ∧
    fieldWord word (contextFields context) pcbEflags = context.eflags ∧
    fieldWord word (contextFields context) pcbEip = context.eip ∧
    fieldWord word (contextFields context) pcbEsp = context.esp ∧
    fieldWord word (contextFields context) pcbPageDirPaddr = word := by
  have count := legal.registers
  have low : ∀ field ∈ registerFields 0 context.registers, field.1 < 32 := by
    intro field member
    have place := (register_fields_place context.registers 0 rfl field member).2.2.1
    omega
  have above : ∀ other, 32 ≤ other → fieldWord word (registerFields 0 context.registers) other = word := by
    intro other high
    apply field_word_absent
    intro field member
    have place := low field member
    omega
  refine ⟨?_, ?_, ?_, ?_, ?_⟩
  · intro member
    have place : ∃ index < 8, offset = 4 * (0 + index) ∧ index ≠ 3 := by
      simp only [jumpRegisters, List.mem_cons, List.not_mem_nil, or_false] at member
      rcases member with rfl | rfl | rfl | rfl | rfl | rfl | rfl
      · exact ⟨0, by decide⟩
      · exact ⟨1, by decide⟩
      · exact ⟨2, by decide⟩
      · exact ⟨4, by decide⟩
      · exact ⟨6, by decide⟩
      · exact ⟨7, by decide⟩
      · exact ⟨5, by decide⟩
    obtain ⟨index, small, rfl, notEsp⟩ := place
    have quotient : 4 * (0 + index) / 4 = index := by omega
    have eflags : pcbEflags = 32 := rfl
    have eip : pcbEip = 36 := rfl
    have esp : pcbEsp = 12 := rfl
    rw [contextFields, field_word_append, field_word_absent [_, _, _], quotient]
    · exact field_word_registers context.registers word 0 index (by omega)
    · intro field listed
      simp only [List.mem_cons, List.not_mem_nil, or_false] at listed
      rcases listed with rfl | rfl | rfl
      · dsimp only
        omega
      · dsimp only
        omega
      · dsimp only
        omega
  all_goals
    rw [contextFields, field_word_append]
  · rfl
  · rfl
  · rfl
  · exact above _ (by decide)

theorem context_fields_legal (legal : LegalContext context) : ∀ field ∈ contextFields context, PageField field := by
  have count := legal.registers
  intro field member
  rcases List.mem_append.1 member with register | rest
  · obtain ⟨aligned, _, high, there⟩ := register_fields_place context.registers 0 rfl field register
    exact ⟨aligned, by omega, legal.words _ there⟩
  · simp only [List.mem_cons, List.not_mem_nil, or_false] at rest
    rcases rest with rfl | rfl | rfl
    · exact ⟨(by decide : pcbEflags % 4 = 0), (by decide : pcbEflags ≤ 4092), legal.eflags⟩
    · exact ⟨(by decide : pcbEip % 4 = 0), (by decide : pcbEip ≤ 4092), legal.eip⟩
    · exact ⟨(by decide : pcbEsp % 4 = 0), (by decide : pcbEsp ≤ 4092), legal.esp⟩

/-- A saved context is the one that is restored. Nothing but the control block is written. -/
theorem save_context_ok (growing : Growing start first link machine ledger) (member : pcbPage ∈ ledger.pages)
    (legal : LegalContext context) : ∃ next, saveContext machine context = .ok next ∧
      Rewritten machine next (backingFrame machine pcbPage) ∧ pcbContext next = resumed context ∧
      pcbWord next pcbPageDirPaddr = pcbWord machine pcbPageDirPaddr := by
  have fpu : pcbFpuRegs = 48 := rfl
  have sized := legal.fpu
  have isField := context_fields_legal legal
  obtain ⟨middle, stored, advance, words⟩ := store_fields_advance (contextFields context) growing member isField
  have saved := store_fields_rewritten (contextFields context) growing.balanced member
    (fun field there => (isField field there).2.1) stored
  obtain ⟨next, copied, later, contents⟩ := store_bytes_advance context.fpu advance.growing
    (fun i small => fpu_inside (advance.pages member) i (sized ▸ small))
  have filled := store_bytes_rewritten context.fpu advance.growing.balanced (advance.pages member)
    (fun i small => by rw [Nat.add_assoc, (pcb_place (by omega : pcbFpuRegs + i ≤ 4092)).1]) copied
  rw [rewritten_frame growing.balanced member saved] at filled
  have word : ∀ offset, offset % 4 = 0 → offset < 48 →
      pcbWord next offset = fieldWord (pcbWord machine offset) (contextFields context) offset := by
    intro offset aligned small
    obtain ⟨page, place⟩ := pcb_place (show offset ≤ 4092 by omega)
    rw [← words offset aligned (by omega)]
    apply wrote_word later.wrote (page.symm ▸ advance.pages member) (by omega)
    intro i few range
    omega
  have restored := fun offset => context_fields_word legal (pcbWord machine offset) offset
  refine ⟨next, ?_, rewritten_trans saved filled, ?_, ?_⟩
  · rw [save_context_eq, stored, Trap.ok_bind]
    exact copied
  · have registers : jumpRegisters.map (pcbWord next) =
        jumpRegisters.map fun offset => context.registers.getD (offset / 4) 0 := by
      apply List.map_congr_left
      intro offset listed
      have place : ∀ offset ∈ jumpRegisters, offset % 4 = 0 ∧ offset < 48 := by decide
      obtain ⟨aligned, small⟩ := place offset listed
      rw [word offset aligned small]
      exact (restored offset).1 listed
    have bytes : (List.range' (pcbAddr + pcbFpuRegs) 512).map (byteAt next) = context.fpu := by
      apply List.ext_getElem
      · rw [List.length_map, List.length_range', sized]
      · intro i small there
        rw [List.getElem_map, List.getElem_range', Nat.one_mul]
        exact contents i _ (List.getElem?_eq_getElem there)
    rw [pcbContext, resumed, registers, bytes, word pcbEflags rfl (by decide), word pcbEip rfl (by decide),
      word pcbEsp rfl (by decide), (restored pcbEflags).2.1, (restored pcbEip).2.2.1, (restored pcbEsp).2.2.2.1]
  · rw [word pcbPageDirPaddr rfl (by decide)]
    exact (restored pcbPageDirPaddr).2.2.2.2

/-- The control block shows what it did if its page and the page's contents are as they were. -/
theorem pcb_byte_same {root : Nat} (present : Present (pageEntry machine.memory root pcbPage))
    (same : SamePage machine next root pcbPage) {offset : Nat} (small : offset < 4096) :
    byteAt (switch next root) (pcbAddr + offset) = byteAt (switch machine root) (pcbAddr + offset) := by
  obtain ⟨entry, contents⟩ := same
  have address : pcbAddr = 0x40E000 := by decide
  have isPage : pcbPage = 1038 := by decide
  have page : (pcbAddr + offset) / 4096 = pcbPage := by omega
  have cell := contents present (frameOf (pageEntry machine.memory root pcbPage) + (pcbAddr + offset) % 4096)
    (by omega) (by omega)
  rw [byteAt, byteAt, page]
  change next.memory (frameOf (pageEntry next.memory root pcbPage) + _) = _
  rw [entry]
  exact cell

theorem pcb_word_same {root : Nat} (present : Present (pageEntry machine.memory root pcbPage))
    (same : SamePage machine next root pcbPage) {offset : Nat} (small : offset ≤ 4092) :
    pcbWord (switch next root) offset = pcbWord (switch machine root) offset := by
  have byte : ∀ i < 4, byteAt (switch next root) (pcbAddr + offset + i) =
      byteAt (switch machine root) (pcbAddr + offset + i) := by
    intro i few
    rw [Nat.add_assoc]
    exact pcb_byte_same present same (by omega)
  have zero := byte 0 (by decide)
  rw [Nat.add_zero] at zero
  rw [pcbWord, pcbWord, wordAt, wordAt, zero, byte 1 (by decide), byte 2 (by decide),
    byte 3 (by decide)]

theorem pcb_context_same {root : Nat} (present : Present (pageEntry machine.memory root pcbPage))
    (same : SamePage machine next root pcbPage) :
    pcbContext (switch next root) = pcbContext (switch machine root) := by
  have registers : jumpRegisters.map (pcbWord (switch next root)) =
      jumpRegisters.map (pcbWord (switch machine root)) := by
    apply List.map_congr_left
    intro offset listed
    have place : ∀ offset ∈ jumpRegisters, offset ≤ 4092 := by decide
    exact pcb_word_same present same (place offset listed)
  have fpu : (List.range' (pcbAddr + pcbFpuRegs) 512).map (byteAt (switch next root)) =
      (List.range' (pcbAddr + pcbFpuRegs) 512).map (byteAt (switch machine root)) := by
    apply List.map_congr_left
    intro vaddr listed
    obtain ⟨i, small, rfl⟩ := List.mem_range'.1 listed
    have offset : pcbFpuRegs = 48 := rfl
    rw [Nat.one_mul, Nat.add_assoc]
    exact pcb_byte_same present same (by omega)
  rw [pcbContext, pcbContext, registers, fpu, pcb_word_same present same (by decide),
    pcb_word_same present same (by decide), pcb_word_same present same (by decide)]

end Contexts

end ParadiseOS.ProcessSpaces
