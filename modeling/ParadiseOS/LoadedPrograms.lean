import ParadiseOS.ProgramLayout
import ParadiseOS.ProgramLoading

/-!
# What a loaded program finds

`exec_sun` backs the pages of a program, copies its sections and writes its control block,
all in a directory of its own. What the program finds there is what its file holds.
-/

namespace ParadiseOS.LoadedPrograms

open FrameLedger FrameSteps HeapContents MachineWord MemModel NewDirectory PagingModel PagingSteps
open ProcessModel ProgramLayout ProgramLoading TwoLevelPaging

set_option autoImplicit false

section Allocating

variable {start machine : Machine} {first ledger : Ledger} {link : Nat}

def totalPages (allocations : List Allocation) : Nat := (allocations.map fun allocation => allocation.count).sum

/-- Some allocation of a list has the page. -/
def CoveredBy (allocations : List Allocation) (page : Nat) : Prop :=
  ∃ allocation ∈ allocations, allocation.Covers page

/-- Calls of `alloc_pages` on pages that are apart. -/
structure Plan (machine : Machine) (ledger : Ledger) (allocations : List Allocation) : Prop where
  small : ∀ allocation ∈ allocations, allocation.flags < 4096
  inside : ∀ allocation ∈ allocations, ∀ page, allocation.Covers page → OwnPage page
  apart : allocations.Pairwise fun early late => ∀ page, early.Covers page → ¬ late.Covers page
  fresh : ∀ allocation ∈ allocations, ∀ page, allocation.Covers page → page ∉ ledger.pages
  ready : ∀ allocation ∈ allocations, allocation.flags &&& 4 ≠ 0 ∨
    ∀ page, allocation.Covers page → Present (directoryEntry machine.memory machine.cr3 (page / 1024))

/-- There are two frames for every page, or the calls return all the same. -/
def Runs (ledger : Ledger) (allocations : List Allocation) (outcome : Except Trap Machine) : Prop :=
  2 * totalPages allocations ≤ ledger.free.length ∨ Returns outcome

/-- The pages of all allocations are backed, each by a frame that was free at first. -/
structure Provided (first : Ledger) (next : Machine) (ledger after : Ledger) (allocations : List Allocation) :
    Prop where
  pages : ∀ page, page ∈ after.pages ↔ page ∈ ledger.pages ∨ CoveredBy allocations page
  entries : ∀ allocation ∈ allocations, ∀ page, allocation.Covers page → ∃ frame ∈ first.free,
    pageEntry next.memory next.cr3 page = createEntry frame allocation.flags
  taken : ledger.free.length ≤ after.free.length + 2 * totalPages allocations

theorem free_frame_first (growing : Growing start first link machine ledger) {frame : Nat}
    (listed : frame ∈ ledger.free) : frame ∈ first.free :=
  growing.balanced.accounts.mem_iff.1 (List.mem_append_left _ listed)

theorem in_range_covers (allocation : Allocation) (page : Nat) :
    InRange (allocation.start / 4096) allocation.count page ↔ allocation.Covers page := Iff.rfl

theorem plan_rest {next : Machine} {after : Ledger} {allocation : Allocation} {rest : List Allocation}
    (growing : Growing start first link machine ledger) (plan : Plan machine ledger (allocation :: rest))
    (extended : Extended (fun _ => False) machine next ledger after allocation.flags (allocation.start / 4096)
      allocation.count) : Plan next after rest where
  small other member := plan.small other (List.mem_cons_of_mem _ member)
  inside other member := plan.inside other (List.mem_cons_of_mem _ member)
  apart := (List.pairwise_cons.1 plan.apart).2
  fresh other member page covered there := by
    rcases (extended.pages page).1 there with old | range
    · exact plan.fresh other (List.mem_cons_of_mem _ member) page covered old
    · exact (List.pairwise_cons.1 plan.apart).1 other member page range covered
  ready other member := by
    refine (plan.ready other (List.mem_cons_of_mem _ member)).imp_right fun present page covered => ?_
    have known := present page covered
    have own := plan.inside other (List.mem_cons_of_mem _ member) page covered
    have low := (growing.balanced.placed page own).1
    rw [same_globals_cr3 extended.carried.globals,
      extended.carried.entries _ growing.balanced.spaces.member _ (by omega)]
    · exact known
    · rintro ⟨_, missing, _⟩
      exact missing known

theorem total_pages_cons (allocation : Allocation) (rest : List Allocation) :
    totalPages (allocation :: rest) = allocation.count + totalPages rest := by
  rw [totalPages, totalPages, List.map_cons, List.sum_cons]

theorem total_pages_append (early late : List Allocation) :
    totalPages (early ++ late) = totalPages early + totalPages late := by
  rw [totalPages, totalPages, totalPages, List.map_append, List.sum_append]

theorem total_pages_one (allocation : Allocation) : totalPages [allocation] = allocation.count :=
  List.sum_singleton

/-- All allocations of a plan are made. -/
theorem alloc_all_advance (allocations : List Allocation) (growing : Growing start first link machine ledger)
    (plan : Plan machine ledger allocations) (runs : Runs ledger allocations (allocAll machine allocations)) :
    ∃ next after, allocAll machine allocations = .ok next ∧
      Advance start first link machine next ledger after (fun _ => False) ∧
      Provided first next ledger after allocations := by
  induction allocations generalizing machine ledger with
  | nil =>
      refine ⟨machine, ledger, rfl, advance_refl growing _, ?_, ?_, ?_⟩
      · simp [CoveredBy]
      · simp
      · simp [totalPages]
  | cons allocation rest ih =>
      have member : allocation ∈ allocation :: rest := List.mem_cons_self
      rw [Runs, total_pages_cons, allocAll] at runs
      obtain ⟨middle, between, completed, advance, extended⟩ := alloc_pages_advance allocation.count growing
        (plan.small _ member) (plan.inside _ member) (plan.fresh _ member) (plan.ready _ member)
        (runs.imp (fun enough => by omega) returns_first)
      have taken := extended.taken
      obtain ⟨next, after, others, later, provided⟩ :=
        ih advance.growing (plan_rest growing plan extended)
          (runs.imp (fun enough => by omega) (returns_after completed).1)
      refine ⟨next, after, ?_, advance_trans advance later, ?_, ?_, ?_⟩
      · rw [allocAll, completed, Trap.ok_bind]
        exact others
      · intro page
        rw [provided.pages page, extended.pages page, in_range_covers, or_assoc]
        simp only [CoveredBy, List.exists_mem_cons_iff]
      · intro other there page covered
        rcases List.mem_cons.1 there with same | inner
        · rw [same] at covered ⊢
          obtain ⟨frame, listed, entry⟩ := extended.entry page covered
          have backed : page ∈ between.pages := (extended.pages page).2 (.inr covered)
          refine ⟨frame, free_frame_first growing listed, ?_⟩
          rw [later.wrote.entries page backed, entry]
        · exact provided.entries other inner page covered
      · have there := provided.taken
        rw [total_pages_cons]
        omega

theorem provided_wrote {next last : Machine} {after : Ledger} {written : Nat → Prop}
    {allocations : List Allocation} (provided : Provided first next ledger after allocations)
    (wrote : Wrote next last after.pages written) : Provided first last ledger after allocations where
  pages := provided.pages
  entries allocation there page covered := by
    obtain ⟨frame, listed, entry⟩ := provided.entries allocation there page covered
    refine ⟨frame, listed, ?_⟩
    rw [wrote.entries page ((provided.pages page).2 (.inr ⟨allocation, there, covered⟩)), entry]
  taken := provided.taken

theorem provided_append {next last : Machine} {between after : Ledger} {written : Nat → Prop}
    {early late : List Allocation} (before : Provided first next ledger between early)
    (wrote : Wrote next last between.pages written) (behind : Provided first last between after late) :
    Provided first last ledger after (early ++ late) where
  pages page := by
    rw [behind.pages page, before.pages page, or_assoc]
    simp only [CoveredBy, List.mem_append, or_and_right, exists_or]
  entries allocation there page covered := by
    rcases List.mem_append.1 there with first_ | second
    · exact (provided_wrote before wrote).entries allocation first_ page covered
    · exact behind.entries allocation second page covered
  taken := by
    have first_ := before.taken
    have second := behind.taken
    rw [total_pages_append]
    omega

end Allocating

section Copying

variable {start machine : Machine} {first ledger : Ledger} {link : Nat}

/-- Bytes that go to an address. -/
def copySections (machine : Machine) : List (Nat × List UInt8) → Except Trap Machine
  | [] => .ok machine
  | (vaddr, bytes) :: sections => do
      let machine ← storeBytes machine vaddr bytes
      copySections machine sections

/-- The bytes are at the address. -/
def Holds (machine : Machine) (vaddr : Nat) (bytes : List UInt8) : Prop :=
  ∀ i byte, bytes[i]? = some byte → byteAt machine (vaddr + i) = byte

def WithinSection (place : Nat × List UInt8) (vaddr : Nat) : Prop :=
  place.1 ≤ vaddr ∧ vaddr < place.1 + place.2.length

theorem holds_wrote {next : Machine} {pages : List Nat} {written : Nat → Prop} {vaddr : Nat} {bytes : List UInt8}
    (wrote : Wrote machine next pages written) (inside : ∀ i < bytes.length, (vaddr + i) / 4096 ∈ pages)
    (apart : ∀ i < bytes.length, ¬ written (vaddr + i)) (holds : Holds machine vaddr bytes) :
    Holds next vaddr bytes := by
  intro i byte found
  have small : i < bytes.length := (List.getElem?_eq_some_iff.1 found).1
  rw [wrote.bytes _ (inside i small) (apart i small)]
  exact holds i byte found

/-- Sections that are apart all arrive. -/
theorem copy_sections_advance (sections : List (Nat × List UInt8))
    (growing : Growing start first link machine ledger)
    (inside : ∀ place ∈ sections, ∀ i < place.2.length, (place.1 + i) / 4096 ∈ ledger.pages)
    (apart : sections.Pairwise fun early late => ∀ vaddr, WithinSection early vaddr → ¬ WithinSection late vaddr) :
    ∃ next, copySections machine sections = .ok next ∧
      Advance start first link machine next ledger ledger (fun vaddr => ∃ place ∈ sections, WithinSection place vaddr) ∧
      ∀ place ∈ sections, Holds next place.1 place.2 := by
  induction sections generalizing machine with
  | nil => exact ⟨machine, rfl, advance_refl growing _, by simp⟩
  | cons place sections ih =>
      obtain ⟨vaddr, bytes⟩ := place
      obtain ⟨separate, apart⟩ := List.pairwise_cons.1 apart
      obtain ⟨middle, stored, advance, arrived⟩ :=
        store_bytes_advance bytes growing (inside _ List.mem_cons_self)
      obtain ⟨next, copied, later, others⟩ :=
        ih advance.growing (fun place member => inside place (List.mem_cons_of_mem _ member)) apart
      refine ⟨next, ?_, advance_trans (advance_mono advance ?_) (advance_mono later ?_), ?_⟩
      · rw [copySections, stored, Trap.ok_bind]
        exact copied
      · exact fun other range => ⟨_, List.mem_cons_self, range⟩
      · rintro other ⟨place, member, within⟩
        exact ⟨place, List.mem_cons_of_mem _ member, within⟩
      · intro place member
        rcases List.mem_cons.1 member with rfl | inner
        · refine holds_wrote later.wrote (inside _ List.mem_cons_self) ?_ arrived
          rintro i small ⟨other, there, within⟩
          refine separate other there _ ⟨?_, ?_⟩ within
          · dsimp only
            omega
          · dsimp only at small ⊢
            omega
        · exact others place inner

end Copying

section ControlBlock

variable {start machine : Machine} {first ledger : Ledger} {link pageCount heapStart : Nat}

def mailboxPage : Nat := mailboxDataAddr / 4096

/-- An address in a part of the control block. -/
def InPcb (low high vaddr : Nat) : Prop := pcbAddr + low ≤ vaddr ∧ vaddr < pcbAddr + high

theorem pcb_inside {low size : Nat} (member : pcbPage ∈ ledger.pages) (fits : low + size ≤ 4096) :
    ∀ i < size, (pcbAddr + low + i) / 4096 ∈ ledger.pages := by
  intro i small
  have page : (pcbAddr + (low + i)) / 4096 = pcbPage := by
    have place : pcbAddr = 0x40E000 := by decide
    have isPage : pcbPage = 0x40E := by decide
    omega
  rw [Nat.add_assoc, page]
  exact member

theorem in_pcb_page {low high vaddr : Nat} (within : InPcb low high vaddr) (fits : high ≤ 4096) :
    vaddr / 4096 = pcbPage := by
  have place : pcbAddr = 0x40E000 := by decide
  have isPage : pcbPage = 0x40E := by decide
  unfold InPcb at within
  omega

theorem pcb_word_kept {next : Machine} {pages : List Nat} {written : Nat → Prop} {offset : Nat}
    (wrote : Wrote machine next pages written) (member : pcbPage ∈ pages) (small : offset ≤ 4092)
    (untouched : ∀ vaddr, InPcb offset (offset + 4) vaddr → ¬ written vaddr) :
    pcbWord next offset = pcbWord machine offset := by
  obtain ⟨page, place⟩ := pcb_place small
  apply wrote_word wrote (page.symm ▸ member) (place.symm ▸ small)
  intro i few
  apply untouched
  unfold InPcb
  omega

theorem alloc_pages_one (machine : Machine) (vaddr flags : Nat) :
    allocPages machine vaddr flags 1 = allocPage machine vaddr flags := by
  rw [alloc_pages_succ]
  cases allocPage machine vaddr flags with
  | error trap => rfl
  | ok next => rfl

theorem is_field {offset word : Nat} (aligned : offset % 4 = 0) (small : offset ≤ 4092)
    (bounded : word < 4294967296) : PageField (offset, word) := ⟨aligned, small, bounded⟩

/-- The words of the mailbox in the control block. -/
def mailboxFields (start : Nat) : List (Nat × Nat) :=
  [(pcbMailbox, start), (pcbMailbox + 4, start), (pcbMailbox + 16, start), (pcbMailbox + 20, start),
    (pcbMailbox + 24, u32 (start + pageSize))]

theorem returned_bind {Value : Type} (outcome : Except Trap Value) :
    (outcome >>= fun value => .ok value) = outcome := by
  cases outcome with
  | error trap => rfl
  | ok value => rfl

theorem mailbox_init_eq (machine : Machine) (start flags : Nat) :
    mailboxInit machine start flags = storeBytes machine (pcbAddr + pcbMailbox + 8) mailboxSizes >>= fun next =>
      storeFields next (mailboxFields start) >>= fun next => allocPage next start flags >>= fun next =>
        linkPage next (u32 (start + pageSize)) start := by
  simp only [mailboxInit, mailboxFields, storeFields, bind_assoc, returned_bind]

/-- The mailbox gets a page, twice, and its place in the control block is filled. -/
theorem mailbox_init_advance (growing : Growing start first 0 machine ledger) (pcb : pcbPage ∈ ledger.pages)
    (fresh : mailboxPage ∉ ledger.pages)
    (runs : 2 ≤ ledger.free.length ∨ Returns (mailboxInit machine mailboxDataAddr pageWritable)) :
    ∃ next after, mailboxInit machine mailboxDataAddr pageWritable = .ok next ∧
      Advance start first (pageEntry next.memory next.cr3 mailboxPage) machine next ledger after
        (InPcb pcbMailbox pcbHeap) ∧
      Provided first next ledger after [⟨mailboxDataAddr, pageWritable, 1⟩] := by
  have sizesInside : ∀ i < mailboxSizes.length, (pcbAddr + (pcbMailbox + 8) + i) / 4096 ∈ ledger.pages :=
    pcb_inside pcb (by decide)
  obtain ⟨sized, storing, sizes, _⟩ := store_bytes_advance mailboxSizes growing sizesInside
  have areFields : ∀ field ∈ mailboxFields mailboxDataAddr, PageField field := by
    unfold mailboxFields PageField
    decide
  obtain ⟨filled, filling, fields, _⟩ := store_fields_advance _ sizes.growing pcb areFields
  have page : ∀ page, InRange (mailboxDataAddr / 4096) 1 page ↔ page = mailboxPage := by
    intro page
    unfold InRange mailboxPage
    omega
  have own : OwnPage mailboxPage := ⟨⟨by decide, by decide⟩, by decide⟩
  rw [mailbox_init_eq, Nat.add_assoc] at runs
  have backs : 2 * 1 ≤ ledger.free.length ∨ Returns (allocPages filled mailboxDataAddr pageWritable 1) := by
    rw [alloc_pages_one]
    rw [returns_after storing, returns_after filling] at runs
    exact runs.imp id returns_first
  have present : Present (directoryEntry filled.memory filled.cr3 (mailboxPage / 1024)) := by
    have shared : mailboxPage / 1024 = pcbPage / 1024 := by decide
    rw [shared]
    exact page_entry_present (page_present fields.growing.balanced pcb)
  obtain ⟨backed, after, backing, pages, extended⟩ := alloc_pages_advance 1 fields.growing
    (by decide : pageWritable < 4096) (fun other range => (page other).1 range ▸ own)
    (fun other range => (page other).1 range ▸ fresh)
    (.inr fun other range => (page other).1 range ▸ present) backs
  have member : mailboxDataAddr / 4096 ∈ after.pages := (extended.pages _).2 (.inr ((page _).2 rfl))
  obtain ⟨next, linking, linked⟩ := link_page_advance pages.growing member
  have entries := linked.wrote.entries
  refine ⟨next, after, ?_, ?_, ?_, ?_, ?_⟩
  · rw [alloc_pages_one] at backing
    rw [mailbox_init_eq, Nat.add_assoc, storing, Trap.ok_bind, filling, Trap.ok_bind, backing, Trap.ok_bind]
    exact linking
  · rw [mailboxPage, entries _ member]
    refine advance_trans (advance_mono sizes ?_) (advance_trans (advance_mono fields ?_)
      (advance_trans (advance_mono pages ?_) (advance_mono linked ?_)))
    · intro vaddr range
      have size : mailboxSizes.length = 6 := rfl
      unfold InPcb pcbMailbox pcbHeap
      unfold pcbMailbox at range
      omega
    · rintro vaddr ⟨field, listed, range⟩
      have inside : ∀ field ∈ mailboxFields mailboxDataAddr, pcbMailbox ≤ field.1 ∧ field.1 + 4 ≤ pcbHeap := by
        unfold mailboxFields
        decide
      have place := inside field listed
      unfold InPcb
      omega
    · exact fun _ none => none.elim
    · exact fun _ none => none.elim
  · intro other
    rw [extended.pages other]
    simp [CoveredBy, ← in_range_covers]
  · intro allocation there other covered
    rw [List.mem_singleton.1 there] at covered ⊢
    obtain ⟨frame, listed, entry⟩ := extended.entry other covered
    refine ⟨frame, free_frame_first fields.growing listed, ?_⟩
    rw [entries other ((extended.pages other).2 (.inr covered)), entry]
  · have taken := extended.taken
    simpa [totalPages] using taken

theorem page_aligned_of {ptr : Nat} (aligned : ptr % 4096 = 0) : HeapModel.isPageAligned ptr = true := by
  rw [HeapModel.isPageAligned, Nat.shiftLeft_eq]
  unfold u32
  have multiple : ptr * 2 ^ 20 % 4294967296 = 0 := by omega
  rw [multiple]
  rfl

theorem usage_fits (pageCount : Nat) :
    HeapModel.usageBytes pageCount ≤ 4096 * HeapModel.sizeInPages (HeapModel.usageBytes pageCount) := by
  unfold HeapModel.usageBytes HeapModel.sizeInPages u32
  omega

/-- The words of the heap in the control block. -/
def heapFields (heapStart pageCount : Nat) : List (Nat × Nat) :=
  [(pcbHeap, heapStart),
    (pcbHeap + 4,
      u32 (heapStart + u32 (HeapModel.sizeInPages (HeapModel.usageBytes pageCount) * pageSize))),
    (pcbHeap + 8, pageCount)]

theorem pcb_heap_init_eq (machine : Machine) (heapStart pageCount flags : Nat) (aligned : heapStart % 4096 = 0) :
    pcbHeapInit machine heapStart pageCount flags =
      allocPages machine heapStart flags (HeapModel.sizeInPages (HeapModel.usageBytes pageCount)) >>= fun next =>
        storeBytes next heapStart (List.replicate (HeapModel.usageBytes pageCount) 0) >>= fun next =>
          storeFields next (heapFields heapStart pageCount) := by
  have holds := page_aligned_of aligned
  simp only [pcbHeapInit, heapFields, storeFields, returned_bind]
  rw [Trap.kernel_assert_of holds, Trap.ok_bind]

/-- The usage map of the heap, and what `heap_init` stores. -/
def InHeapInit (heapStart pageCount vaddr : Nat) : Prop :=
  InPcb pcbHeap (pcbHeap + 12) vaddr ∨
    heapStart ≤ vaddr ∧ vaddr < heapStart + HeapModel.usageBytes pageCount

/-- The usage map is backed and cleared. -/
theorem pcb_heap_init_advance (growing : Growing start first link machine ledger) (pcb : pcbPage ∈ ledger.pages)
    (aligned : heapStart % 4096 = 0) (startBound : heapStart < 4294967296) (bounded : pageCount < 4294967296)
    (plan : Plan machine ledger
      [⟨heapStart, rwFlags, HeapModel.sizeInPages (HeapModel.usageBytes pageCount)⟩])
    (runs : Runs ledger [⟨heapStart, rwFlags, HeapModel.sizeInPages (HeapModel.usageBytes pageCount)⟩]
      (pcbHeapInit machine heapStart pageCount rwFlags)) :
    ∃ next after, pcbHeapInit machine heapStart pageCount rwFlags = .ok next ∧
      Advance start first link machine next ledger after (InHeapInit heapStart pageCount) ∧
      Provided first next ledger after
        [⟨heapStart, rwFlags, HeapModel.sizeInPages (HeapModel.usageBytes pageCount)⟩] ∧
      Holds next heapStart (List.replicate (HeapModel.usageBytes pageCount) 0) ∧
      ∀ field ∈ heapFields heapStart pageCount, pcbWord next field.1 = field.2 := by
  rw [pcb_heap_init_eq machine heapStart pageCount rwFlags aligned] at runs
  obtain ⟨backed, after, backing, pages, provided⟩ := alloc_all_advance _ growing plan (by
    rw [alloc_all_one]
    exact runs.imp id returns_first)
  rw [alloc_all_one] at backing
  have fits := usage_fits pageCount
  have inside : ∀ i < (List.replicate (HeapModel.usageBytes pageCount) (0 : UInt8)).length,
      (heapStart + i) / 4096 ∈ after.pages := by
    intro i small
    rw [List.length_replicate] at small
    refine (provided.pages _).2 (.inr ⟨_, List.mem_singleton_self _, ?_⟩)
    unfold Allocation.Covers
    dsimp only
    omega
  obtain ⟨cleared, clearing, clears, zeros⟩ := store_bytes_advance _ pages.growing inside
  have areFields : ∀ field ∈ heapFields heapStart pageCount, PageField field := by
    intro field listed
    simp only [heapFields, List.mem_cons, List.not_mem_nil, or_false] at listed
    rcases listed with rfl | rfl | rfl
    · exact is_field (by decide) (by decide) startBound
    · exact is_field (by decide) (by decide) (u32_lt _)
    · exact is_field (by decide) (by decide) bounded
  have pcbAfter : pcbPage ∈ after.pages := pages.pages pcb
  obtain ⟨next, filling, fields, words⟩ := store_fields_advance _ clears.growing pcbAfter areFields
  -- The usage map and the fields are on different pages.
  have apart : ∀ i < HeapModel.usageBytes pageCount, (heapStart + i) / 4096 ≠ pcbPage := by
    intro i small same
    refine plan.fresh _ (List.mem_singleton_self _) ((heapStart + i) / 4096) ?_ (same ▸ pcb)
    unfold Allocation.Covers
    dsimp only
    omega
  have inPcb : ∀ vaddr, (∃ field ∈ heapFields heapStart pageCount,
      pcbAddr + field.1 ≤ vaddr ∧ vaddr < pcbAddr + field.1 + 4) → InPcb pcbHeap (pcbHeap + 12) vaddr := by
    rintro vaddr ⟨field, listed, range⟩
    simp only [heapFields, List.mem_cons, List.not_mem_nil, or_false] at listed
    unfold InPcb
    rcases listed with rfl | rfl | rfl
    all_goals
      dsimp only at range
      omega
  refine ⟨next, after, ?_, ?_, ?_, ?_, ?_⟩
  · rw [pcb_heap_init_eq machine heapStart pageCount rwFlags aligned, backing, Trap.ok_bind, clearing, Trap.ok_bind]
    exact filling
  · refine advance_trans (advance_mono pages fun _ none => none.elim)
      (advance_trans (advance_mono clears ?_) (advance_mono fields fun vaddr range => .inl (inPcb vaddr range)))
    intro vaddr range
    rw [List.length_replicate] at range
    exact .inr range
  · refine ⟨provided.pages, ?_, provided.taken⟩
    intro allocation there other covered
    obtain ⟨frame, listed, entry⟩ := provided.entries allocation there other covered
    have member : other ∈ after.pages := (provided.pages other).2 (.inr ⟨allocation, there, covered⟩)
    refine ⟨frame, listed, ?_⟩
    rw [fields.wrote.entries other member, clears.wrote.entries other member, entry]
  · apply holds_wrote fields.wrote inside _ zeros
    intro i small range
    rw [List.length_replicate] at small
    obtain ⟨low, high⟩ := inPcb _ range
    refine apart i small ?_
    have place : pcbAddr = 0x40E000 := by decide
    have isPage : pcbPage = 0x40E := by decide
    have isHeap : pcbHeap = 588 := rfl
    omega
  · intro field listed
    have isField := areFields field listed
    rw [words field.1 isField.1 isField.2.1]
    simp only [heapFields, List.mem_cons, List.not_mem_nil, or_false] at listed
    rcases listed with rfl | rfl | rfl
    · rfl
    · rfl
    · rfl

/-- The words of the control block that say where the program starts. -/
def pcbFields (entry : SunEntry) (pageDir arg : Nat) : List (Nat × Nat) :=
  [(pcbProgBrk, entry.heapStart), (pcbEip, entry.entryPoint), (pcbEsp, stackTop), (pcbEflags, initEflags),
    (pcbPageDirPaddr, pageDir), (pcbEax, arg)]

variable {entry : SunEntry} {pageDir arg : Nat}

theorem pcb_init_eq (machine : Machine) (entry : SunEntry) (pageDir arg : Nat) :
    pcbInit machine entry pageDir arg = storeFields machine (pcbFields entry pageDir arg) >>= fun next =>
      storeBytes next (pcbAddr + pcbFpuRegs) (List.replicate 512 0) >>= fun next =>
        mailboxInit next mailboxDataAddr pageWritable >>= fun next =>
          pcbHeapInit next entry.heapStart (heapPages entry) rwFlags := by
  simp only [pcbInit, pcbFields, storeFields, heapPages, bind_assoc, returned_bind]

/-- The pages that `mailbox_init` and `heap_init` back. -/
def pcbAllocations (entry : SunEntry) : List Allocation :=
  [⟨mailboxDataAddr, pageWritable, 1⟩, ⟨entry.heapStart, rwFlags, usagePages entry⟩]

/-- What the control block of a new process holds. -/
structure PcbReady (machine : Machine) (entry : SunEntry) (pageDir arg : Nat) : Prop where
  context : ∀ field ∈ pcbFields entry pageDir arg, pcbWord machine field.1 = field.2
  fpu : Holds machine (pcbAddr + pcbFpuRegs) (List.replicate 512 0)
  heap : ∀ field ∈ heapFields entry.heapStart (heapPages entry), pcbWord machine field.1 = field.2
  usage : Holds machine entry.heapStart (List.replicate (HeapModel.usageBytes (heapPages entry)) 0)

theorem pcb_fields_ok (heapBound : entry.heapStart < 4294967296) (entryBound : entry.entryPoint < 4294967296)
    (dirBound : pageDir < 4294967296) (argBound : arg < 4294967296) :
    ∀ field ∈ pcbFields entry pageDir arg, PageField field ∧ field.1 + 4 ≤ pcbFpuRegs := by
  intro field listed
  simp only [pcbFields, List.mem_cons, List.not_mem_nil, or_false] at listed
  rcases listed with rfl | rfl | rfl | rfl | rfl | rfl
  · exact ⟨is_field (by decide) (by decide) heapBound, (by decide : pcbProgBrk + 4 ≤ pcbFpuRegs)⟩
  · exact ⟨is_field (by decide) (by decide) entryBound, (by decide : pcbEip + 4 ≤ pcbFpuRegs)⟩
  · exact ⟨is_field (by decide) (by decide) (by decide), (by decide : pcbEsp + 4 ≤ pcbFpuRegs)⟩
  · exact ⟨is_field (by decide) (by decide) (by decide), (by decide : pcbEflags + 4 ≤ pcbFpuRegs)⟩
  · exact ⟨is_field (by decide) (by decide) dirBound, (by decide : pcbPageDirPaddr + 4 ≤ pcbFpuRegs)⟩
  · exact ⟨is_field (by decide) (by decide) argBound, (by decide : pcbEax + 4 ≤ pcbFpuRegs)⟩

/-- Each of the words is stored once. -/
theorem pcb_fields_last (word : Nat) :
    ∀ field ∈ pcbFields entry pageDir arg, fieldWord word (pcbFields entry pageDir arg) field.1 = field.2 := by
  intro field listed
  simp only [pcbFields, List.mem_cons, List.not_mem_nil, or_false] at listed
  rcases listed with rfl | rfl | rfl | rfl | rfl | rfl
  all_goals simp [pcbFields, fieldWord, pcbProgBrk, pcbEip, pcbEsp, pcbEflags, pcbPageDirPaddr, pcbEax]

theorem heap_pages_lt (entry : SunEntry) : heapPages entry < 4294967296 := by
  have small := u32_lt (stackTop + 4294967296 - u32 entry.heapStart)
  unfold heapPages sub32 pageSize
  omega

theorem mailbox_covered : (⟨mailboxDataAddr, pageWritable, 1⟩ : Allocation).Covers mailboxPage :=
  ⟨le_refl _, Nat.lt_succ_self _⟩

/-- The heap's pages are still to back when the mailbox has its page. -/
theorem heap_plan {mailed : Machine} {between : Ledger} (plan : Plan machine ledger (pcbAllocations entry))
    (provided : Provided first mailed ledger between [⟨mailboxDataAddr, pageWritable, 1⟩]) :
    Plan mailed between [⟨entry.heapStart, rwFlags, usagePages entry⟩] := by
  have only : ∀ other ∈ [(⟨entry.heapStart, rwFlags, usagePages entry⟩ : Allocation)],
      other ∈ pcbAllocations entry := fun other there => List.mem_cons_of_mem _ there
  refine ⟨fun other there => plan.small other (only other there),
    fun other there => plan.inside other (only other there), List.pairwise_singleton _ _, ?_, ?_⟩
  · intro other there page covered member
    rcases (provided.pages page).1 member with old | ⟨mailboxPages, isMailbox, reached⟩
    · exact plan.fresh other (only other there) page covered old
    · rw [List.mem_singleton.1 isMailbox] at reached
      exact (List.pairwise_cons.1 plan.apart).1 other there page reached covered
  · intro other there
    rw [List.mem_singleton.1 there]
    exact .inl (by decide : rwFlags &&& 4 ≠ 0)

/-- Stores behind a word of the block leave it alone. -/
theorem behind_word {offset low high vaddr : Nat} (order : offset + 4 ≤ low)
    (within : InPcb offset (offset + 4) vaddr) : ¬ InPcb low high vaddr := by
  unfold InPcb at *
  omega

/-- `exec_sun` fills the control block, `mailbox_init` and `heap_init` included. -/
theorem pcb_init_advance (growing : Growing start first 0 machine ledger) (pcb : pcbPage ∈ ledger.pages)
    (aligned : entry.heapStart % 4096 = 0) (heapBound : entry.heapStart < 4294967296)
    (entryBound : entry.entryPoint < 4294967296) (dirBound : pageDir < 4294967296) (argBound : arg < 4294967296)
    (plan : Plan machine ledger (pcbAllocations entry))
    (runs : Runs ledger (pcbAllocations entry) (pcbInit machine entry pageDir arg)) :
    ∃ next after, pcbInit machine entry pageDir arg = .ok next ∧
      Advance start first (pageEntry next.memory next.cr3 mailboxPage) machine next ledger after
        (fun vaddr => vaddr / 4096 ∉ ledger.pages ∨ vaddr / 4096 = pcbPage) ∧
      Provided first next ledger after (pcbAllocations entry) ∧ PcbReady next entry pageDir arg := by
  have fieldsOk := pcb_fields_ok heapBound entryBound dirBound argBound
  obtain ⟨filled, filling, fields, words⟩ :=
    store_fields_advance _ growing pcb fun field listed => (fieldsOk field listed).1
  have sized : (List.replicate 512 (0 : UInt8)).length = 512 := List.length_replicate
  have fpuInside : ∀ i < (List.replicate 512 (0 : UInt8)).length,
      (pcbAddr + pcbFpuRegs + i) / 4096 ∈ ledger.pages := by
    rw [sized]
    exact pcb_inside pcb (by decide)
  obtain ⟨cleared, clearing, clears, zeros⟩ := store_bytes_advance _ fields.growing fpuInside
  have mailboxFresh : mailboxPage ∉ ledger.pages := plan.fresh _ List.mem_cons_self _ mailbox_covered
  have one : totalPages [(⟨mailboxDataAddr, pageWritable, 1⟩ : Allocation)] = 1 := total_pages_one _
  have only : totalPages [(⟨entry.heapStart, rwFlags, usagePages entry⟩ : Allocation)] = usagePages entry :=
    total_pages_one _
  have total : totalPages (pcbAllocations entry) = 1 + usagePages entry := by
    rw [pcbAllocations, total_pages_cons, only]
  rw [Runs, total, pcb_init_eq, returns_after filling, returns_after clearing] at runs
  obtain ⟨mailed, between, mailing, mailbox, mailboxProvided⟩ :=
    mailbox_init_advance clears.growing pcb mailboxFresh (runs.imp (fun enough => by omega) returns_first)
  have taken := mailboxProvided.taken
  have rest := heap_plan plan mailboxProvided
  have pcbBetween : pcbPage ∈ between.pages := mailbox.pages pcb
  rw [returns_after mailing] at runs
  obtain ⟨next, after, heaping, heap, heapProvided, usage, heapWords⟩ :=
    pcb_heap_init_advance mailbox.growing pcbBetween aligned heapBound (heap_pages_lt entry) rest
      (runs.imp (fun enough => by
        change 2 * totalPages [(⟨entry.heapStart, rwFlags, usagePages entry⟩ : Allocation)] ≤ _
        omega) id)
  have inFields : ∀ vaddr, (∃ field ∈ pcbFields entry pageDir arg,
      pcbAddr + field.1 ≤ vaddr ∧ vaddr < pcbAddr + field.1 + 4) → InPcb 0 pcbFpuRegs vaddr := by
    rintro vaddr ⟨field, listed, range⟩
    have place := (fieldsOk field listed).2
    unfold InPcb
    omega
  have inFpu : ∀ vaddr, (pcbAddr + pcbFpuRegs ≤ vaddr ∧
      vaddr < pcbAddr + pcbFpuRegs + (List.replicate 512 (0 : UInt8)).length) → InPcb pcbFpuRegs pcbMailbox vaddr := by
    intro vaddr range
    rw [sized] at range
    exact range
  have onHeap : ∀ vaddr, (entry.heapStart ≤ vaddr ∧
      vaddr < entry.heapStart + HeapModel.usageBytes (heapPages entry)) → vaddr / 4096 ∉ ledger.pages := by
    intro vaddr range
    apply plan.fresh _ (List.mem_cons_of_mem _ (List.mem_singleton_self _))
    have fits := usage_fits (heapPages entry)
    unfold Allocation.Covers usagePages
    dsimp only
    omega
  have offHeap : ∀ {offset vaddr : Nat}, offset + 4 ≤ pcbHeap → InPcb offset (offset + 4) vaddr →
      ¬ InHeapInit entry.heapStart (heapPages entry) vaddr := by
    rintro offset vaddr early within (again | range)
    · exact behind_word early within again
    · have bounded : offset + 4 ≤ 4096 := early.trans (by decide)
      exact onHeap _ range (in_pcb_page within bounded ▸ pcb)
  refine ⟨next, after, ?_, ?_, provided_append mailboxProvided heap.wrote heapProvided, ?_, ?_, heapWords, usage⟩
  · rw [pcb_init_eq, filling, Trap.ok_bind, clearing, Trap.ok_bind, mailing, Trap.ok_bind]
    exact heaping
  · have mailboxEntry := heap.wrote.entries mailboxPage
      ((mailboxProvided.pages _).2 (.inr ⟨_, List.mem_singleton_self _, mailbox_covered⟩))
    rw [mailboxEntry]
    refine advance_trans (advance_mono fields ?_) (advance_trans (advance_mono clears ?_)
      (advance_trans (advance_mono mailbox ?_) (advance_mono heap ?_)))
    · exact fun vaddr range => .inr (in_pcb_page (inFields vaddr range) (by decide))
    · exact fun vaddr range => .inr (in_pcb_page (inFpu vaddr range) (by decide))
    · exact fun vaddr range => .inr (in_pcb_page range (by decide))
    · rintro vaddr (range | range)
      · exact .inr (in_pcb_page range (by decide))
      · exact .inl (onHeap vaddr range)
  · intro field listed
    obtain ⟨isField, place⟩ := fieldsOk field listed
    rw [pcb_word_kept heap.wrote pcbBetween isField.2.1 fun _ => offHeap (place.trans (by decide)),
      pcb_word_kept mailbox.wrote pcb isField.2.1 fun _ => behind_word (place.trans (by decide)),
      pcb_word_kept clears.wrote pcb isField.2.1 fun vaddr within range =>
        behind_word place within (inFpu vaddr range),
      words field.1 isField.1 isField.2.1]
    exact pcb_fields_last _ field listed
  · have fpuPlace : ∀ i < (List.replicate 512 (0 : UInt8)).length,
        InPcb pcbFpuRegs pcbMailbox (pcbAddr + pcbFpuRegs + i) := by
      intro i small
      rw [sized] at small
      unfold InPcb pcbMailbox pcbFpuRegs
      omega
    apply holds_wrote heap.wrote fun i small => mailbox.pages (fpuInside i small)
    · rintro i small (range | range)
      · have here := fpuPlace i small
        have order : pcbMailbox ≤ pcbHeap := by decide
        unfold InPcb at here range
        omega
      · exact onHeap _ range (fpuInside i small)
    · apply holds_wrote mailbox.wrote fpuInside
      · intro i small range
        have here := fpuPlace i small
        unfold InPcb at here range
        omega
      · exact zeros

end ControlBlock

section Geometry

variable {entry : SunEntry}

/-- The pages of user mode. -/
def userAllocations (entry : SunEntry) : List Allocation :=
  ⟨processOrg, roFlags, pagesBetween processOrg entry.rodataStart⟩ ::
    (sectionPages entry.rodata.length entry.rodataStart entry.dataStart roFlags ++
    (sectionPages entry.data.length entry.dataStart entry.bssStart rwFlags ++
    (sectionPages entry.bssSize entry.bssStart entry.heapStart rwFlags ++
    [⟨stackTop - stackSize, rwFlags, stackSize / pageSize⟩])))

def pcbAllocation : Allocation := ⟨pcbAddr, pageWritable, 1⟩

theorem section_allocations_eq (entry : SunEntry) :
    sectionAllocations entry = userAllocations entry ++ [pcbAllocation] := by
  simp only [sectionAllocations, userAllocations, pcbAllocation, List.append_assoc, List.cons_append,
    List.nil_append]

/-- All pages of a program, the second one of its mailbox aside. -/
def spaceAllocations (entry : SunEntry) : List Allocation :=
  userAllocations entry ++ (pcbAllocation :: pcbAllocations entry)

theorem user_flags {allocation : Allocation} (member : allocation ∈ userAllocations entry) :
    allocation.flags = roFlags ∨ allocation.flags = rwFlags := by
  have sections : ∀ {size start stop flags : Nat}, allocation ∈ sectionPages size start stop flags →
      allocation.flags = flags := by
    intro size start stop flags listed
    unfold sectionPages at listed
    split_ifs at listed with sized
    · rw [List.mem_singleton.1 listed]
    · exact absurd listed List.not_mem_nil
  simp only [userAllocations, List.mem_cons, List.mem_append, List.not_mem_nil, or_false] at member
  rcases member with rfl | listed | listed | listed | rfl
  · exact .inl rfl
  · exact .inl (sections listed)
  · exact .inr (sections listed)
  · exact .inr (sections listed)
  · exact .inr rfl

/-- The user pages lie between the start of the program and the top of its stack. -/
theorem user_pages_place (fits : FitsBelowStack entry) (near : NearSections entry) {allocation : Allocation}
    (member : allocation ∈ userAllocations entry) {page : Nat} (covered : allocation.Covers page) :
    0x420 ≤ page ∧ page < 0xBFC00 ∧ (page < entry.heapStart / 4096 ∨ 0xBFBFC ≤ page) := by
  obtain ⟨rodata, data, bss, heap, isEnd⟩ := section_starts fits
  obtain ⟨textCount, rodataCount, dataCount, bssCount⟩ := section_counts fits near
  obtain ⟨below, _⟩ := usage_pages_eq fits
  have org : processOrg = 0x420000 := rfl
  have top : stackTop - stackSize = 0xBFBFC000 := by decide
  have stackPages : stackSize / pageSize = 4 := by decide
  simp only [userAllocations, List.mem_cons, List.mem_append, List.not_mem_nil, or_false] at member
  rcases member with rfl | listed | listed | listed | rfl
  · unfold Allocation.Covers at covered
    dsimp only at covered
    omega
  · have range := section_pages_covers listed covered
    omega
  · have range := section_pages_covers listed covered
    omega
  · have range := section_pages_covers listed covered
    omega
  · unfold Allocation.Covers at covered
    dsimp only at covered
    omega

theorem space_pages_own (fits : FitsBelowStack entry) (near : NearSections entry) {allocation : Allocation}
    (member : allocation ∈ spaceAllocations entry) {page : Nat} (covered : allocation.Covers page) :
    OwnPage page := by
  have isStart : kernelPdiStart = 768 := rfl
  have isLinked : linkedPage = 1040 := linked_page_eq
  unfold OwnPage UserPage
  rcases List.mem_append.1 member with user | rest
  · have place := user_pages_place fits near user covered
    omega
  · obtain ⟨below, _⟩ := usage_pages_eq fits
    obtain ⟨rodata, data, bss, heap, isEnd⟩ := section_starts fits
    have org : processOrg = 0x420000 := rfl
    have top : stackTop - stackSize = 0xBFBFC000 := by decide
    have pcb : pcbAddr = 0x40E000 := by decide
    have mailbox : mailboxDataAddr = 0x40F000 := by decide
    simp only [pcbAllocations, pcbAllocation, List.mem_cons, List.not_mem_nil, or_false] at rest
    unfold Allocation.Covers at covered
    rcases rest with rfl | rfl | rfl
    all_goals
      dsimp only at covered
      omega

theorem space_pages_apart (fits : FitsBelowStack entry) (near : NearSections entry) :
    (spaceAllocations entry).Pairwise fun early late => ∀ page, early.Covers page → ¬ late.Covers page := by
  have apart := allocations_apart fits near
  rw [allocations, section_allocations_eq, List.append_assoc, List.pairwise_append] at apart
  obtain ⟨users, others, cross⟩ := apart
  have fewer : ∀ page, (⟨mailboxDataAddr, pageWritable, 1⟩ : Allocation).Covers page →
      (⟨mailboxDataAddr, pageWritable, 2⟩ : Allocation).Covers page := by
    intro page covered
    unfold Allocation.Covers at covered ⊢
    dsimp only at covered ⊢
    omega
  simp only [List.cons_append, List.nil_append, List.pairwise_cons, List.mem_cons, List.not_mem_nil, or_false,
    forall_eq_or_imp, forall_eq] at others
  obtain ⟨⟨pcbMailbox, pcbHeap⟩, mailboxHeap, _⟩ := others
  rw [spaceAllocations, List.pairwise_append]
  refine ⟨users, ?_, ?_⟩
  · unfold pcbAllocations
    simp only [List.pairwise_cons, List.mem_cons, List.not_mem_nil, or_false, forall_eq_or_imp, forall_eq]
    exact ⟨⟨fun page covered again => pcbMailbox page covered (fewer page again), pcbHeap⟩,
      fun page covered => mailboxHeap page (fewer page covered), fun _ absent => absent.elim, List.Pairwise.nil⟩
  · intro user isUser other there page covered again
    simp only [pcbAllocations, List.mem_cons, List.not_mem_nil, or_false] at there
    rcases there with rfl | rfl | rfl
    · exact cross user isUser _ (by simp) page covered again
    · exact cross user isUser _ (by simp) page covered (fewer page again)
    · exact cross user isUser _ (by simp) page covered again

/-- The sections of a program and where they go. -/
def programSections (entry : SunEntry) : List (Nat × List UInt8) :=
  [(processOrg, entry.text), (entry.rodataStart, entry.rodata), (entry.dataStart, entry.data),
    (entry.bssStart, List.replicate entry.bssSize 0)]

theorem load_sections_eq (machine : Machine) (entry : SunEntry) :
    loadSections machine entry = copySections machine (programSections entry) := by
  simp only [loadSections, programSections, copySections, returned_bind]

theorem section_covered {size start stop : Nat} (flags : Nat) (aligned : start % 4096 = 0)
    (counted : pagesBetween start stop = pagesFor size) {i : Nat} (small : i < size) :
    CoveredBy (sectionPages size start stop flags) ((start + i) / 4096) := by
  refine ⟨⟨start, flags, pagesBetween start stop⟩, ?_, ?_⟩
  · rw [sectionPages, if_pos (by omega)]
    exact List.mem_singleton_self _
  · unfold Allocation.Covers
    dsimp only
    rw [counted]
    unfold pagesFor
    omega

theorem sections_covered (fits : FitsBelowStack entry) (near : NearSections entry) :
    ∀ place ∈ programSections entry, ∀ i < place.2.length,
      CoveredBy (userAllocations entry) ((place.1 + i) / 4096) := by
  obtain ⟨rodata, data, bss, heap, isEnd⟩ := section_starts fits
  obtain ⟨textCount, rodataCount, dataCount, bssCount⟩ := section_counts fits near
  have org : processOrg = 0x420000 := rfl
  have widen : ∀ {part : List Allocation} {page : Nat}, CoveredBy part page → part ⊆ userAllocations entry →
      CoveredBy (userAllocations entry) page :=
    fun ⟨allocation, member, covered⟩ subset => ⟨allocation, subset member, covered⟩
  intro place member i small
  simp only [programSections, List.mem_cons, List.not_mem_nil, or_false] at member
  rcases member with rfl | rfl | rfl | rfl
  · refine ⟨_, List.mem_cons_self, ?_⟩
    unfold Allocation.Covers
    dsimp only at small ⊢
    rw [textCount]
    unfold pagesFor
    omega
  · apply widen (section_covered roFlags (by omega) rodataCount small)
    intro other there
    simp [userAllocations, there]
  · apply widen (section_covered rwFlags (by omega) dataCount small)
    intro other there
    simp [userAllocations, there]
  · dsimp only at small
    rw [List.length_replicate] at small
    apply widen (section_covered rwFlags (by omega) bssCount small)
    intro other there
    simp [userAllocations, there]

theorem sections_apart (fits : FitsBelowStack entry) :
    (programSections entry).Pairwise fun early late =>
      ∀ vaddr, WithinSection early vaddr → ¬ WithinSection late vaddr := by
  obtain ⟨rodata, data, bss, heap, isEnd⟩ := section_starts fits
  unfold pagesFor at *
  simp only [programSections, List.pairwise_cons, List.mem_cons, List.not_mem_nil, or_false, forall_eq_or_imp,
    forall_eq, WithinSection, List.length_replicate]
  refine ⟨⟨?_, ?_, ?_⟩, ⟨?_, ?_⟩, ?_, nofun, List.Pairwise.nil⟩
  all_goals
    intro vaddr here there
    omega

end Geometry

section Filling

variable {start machine : Machine} {first ledger : Ledger} {entry : SunEntry} {pageDir arg : Nat}

/-- What `exec_sun` does in the new directory. -/
def fillSpace (machine : Machine) (entry : SunEntry) (pageDir arg : Nat) : Except Trap Machine := do
  let machine ← allocSections machine entry
  let machine ← loadSections machine entry
  pcbInit machine entry pageDir arg

/-- The words of a program and of its start fit into registers. -/
structure StartWords (entry : SunEntry) (arg : Nat) : Prop where
  entryPoint : entry.entryPoint < 4294967296
  argument : arg < 4294967296

/-- The pages of a program are backed with the flags they are given, and the sections and the
control block are in place. -/
structure Filled (first : Ledger) (next : Machine) (after : Ledger) (entry : SunEntry) (pageDir arg : Nat) :
    Prop where
  pages : ∀ page, page ∈ after.pages ↔ CoveredBy (spaceAllocations entry) page
  entries : ∀ allocation ∈ spaceAllocations entry, ∀ page, allocation.Covers page → ∃ frame ∈ first.free,
    pageEntry next.memory next.cr3 page = createEntry frame allocation.flags
  sections : ∀ place ∈ programSections entry, Holds next place.1 place.2
  pcb : PcbReady next entry pageDir arg

/-- An empty directory takes all pages of a program. -/
theorem user_plan (fits : FitsBelowStack entry) (near : NearSections entry) (none : ledger.pages = []) :
    Plan machine ledger (userAllocations entry) := by
  have subset : ∀ allocation ∈ userAllocations entry, allocation ∈ spaceAllocations entry :=
    fun allocation member => List.mem_append_left _ member
  refine ⟨?_, fun allocation member page => space_pages_own fits near (subset allocation member),
    (List.pairwise_append.1 (space_pages_apart fits near)).1, ?_, ?_⟩
  · intro allocation member
    rcases user_flags member with same | same
    all_goals
      rw [same]
      decide
  · intro allocation member page covered there
    rw [none] at there
    exact absurd there List.not_mem_nil
  · intro allocation member
    left
    rcases user_flags member with same | same
    all_goals
      rw [same]
      decide

theorem fill_space_advance (growing : Growing start first 0 machine ledger) (none : ledger.pages = [])
    (fits : FitsBelowStack entry) (near : NearSections entry) (words : StartWords entry arg)
    (dirBound : pageDir < 4294967296)
    (runs : Runs ledger (spaceAllocations entry) (fillSpace machine entry pageDir arg)) :
    ∃ next after, fillSpace machine entry pageDir arg = .ok next ∧
      Advance start first (pageEntry next.memory next.cr3 mailboxPage) machine next ledger after (fun _ => True) ∧
      Filled first next after entry pageDir arg ∧
      ledger.free.length ≤ after.free.length + 2 * totalPages (spaceAllocations entry) := by
  have onePcb : totalPages [pcbAllocation] = 1 := total_pages_one _
  have totals : totalPages (spaceAllocations entry) =
      totalPages (userAllocations entry) + (1 + totalPages (pcbAllocations entry)) := by
    rw [spaceAllocations, total_pages_append, total_pages_cons, ← total_pages_one pcbAllocation, onePcb]
  have planned : allocSections machine entry =
      allocAll machine (userAllocations entry) >>= fun next => allocAll next [pcbAllocation] := by
    rw [alloc_sections_eq, section_allocations_eq, alloc_all_append]
  rw [Runs, totals, fillSpace] at runs
  have allApart := space_pages_apart fits near
  rw [spaceAllocations, List.pairwise_append, List.pairwise_cons] at allApart
  obtain ⟨_, ⟨pcbApart, restApart⟩, cross⟩ := allApart
  have own : ∀ allocation ∈ pcbAllocation :: pcbAllocations entry, ∀ page, allocation.Covers page → OwnPage page :=
    fun allocation member page => space_pages_own fits near (List.mem_append_right _ member)
  obtain ⟨textCount, _⟩ := section_counts fits near
  obtain ⟨users, userLedger, allocating, userStep, userPages⟩ :=
    alloc_all_advance _ growing (user_plan fits near none)
      (runs.imp (fun enough => by omega) fun returned => by
        have first_ := returns_first returned
        rw [planned] at first_
        exact returns_first first_)
  have isUser : ∀ page, page ∈ userLedger.pages ↔ CoveredBy (userAllocations entry) page := by
    intro page
    rw [userPages.pages page, none]
    simp
  -- The first page of the text keeps a table for the control block and the mailbox.
  have firstPage : 0x420 ∈ userLedger.pages := by
    refine (isUser _).2 ⟨_, List.mem_cons_self, ?_⟩
    have sized := fits.1
    unfold Allocation.Covers
    dsimp only
    rw [textCount]
    unfold pagesFor processOrg
    omega
  have table : ∀ page, page / 1024 = 1 → Present (directoryEntry users.memory users.cr3 (page / 1024)) := by
    intro page index
    have here := page_entry_present (page_present userStep.growing.balanced firstPage)
    rw [index]
    exact here
  have userTaken := userPages.taken
  have isPcb : ∀ page, pcbAllocation.Covers page ↔ page = pcbPage := by
    intro page
    unfold Allocation.Covers pcbAllocation pcbPage
    dsimp only
    omega
  have pcbPlan : Plan users userLedger [pcbAllocation] := by
    refine ⟨?_, ?_, List.pairwise_singleton _ _, ?_, ?_⟩
    · intro allocation member
      rw [List.mem_singleton.1 member]
      decide
    · intro allocation member page
      exact own allocation (List.mem_singleton.1 member ▸ List.mem_cons_self) page
    · intro allocation member page covered there
      obtain ⟨user, listed, again⟩ := (isUser page).1 there
      rw [List.mem_singleton.1 member] at covered
      exact cross user listed _ List.mem_cons_self page again covered
    · intro allocation member
      right
      intro page covered
      rw [List.mem_singleton.1 member, isPcb] at covered
      have index : pcbPage / 1024 = 1 := by decide
      exact table page (covered ▸ index)
  rw [allocating, Trap.ok_bind] at planned
  obtain ⟨allocated, between, pcbAllocating, pcbStep, pcbPages⟩ :=
    alloc_all_advance _ userStep.growing pcbPlan (by
      rw [Runs, onePcb, ← planned]
      exact runs.imp (fun enough => by omega) returns_first)
  have provided := provided_append userPages pcbStep.wrote pcbPages
  have isBetween : ∀ page, page ∈ between.pages ↔ CoveredBy (userAllocations entry) page ∨ page = pcbPage := by
    intro page
    rw [pcbPages.pages page, isUser page]
    simp [CoveredBy, isPcb]
  obtain ⟨loaded, loading, loadStep, sections⟩ := copy_sections_advance (programSections entry) pcbStep.growing
    (fun place member i small => (isBetween _).2 (.inl (sections_covered fits near place member i small)))
    (sections_apart fits)
  have taken := provided.taken
  rw [total_pages_append, onePcb] at taken
  have backing : allocSections machine entry = .ok allocated := by
    rw [planned]
    exact pcbAllocating
  rw [returns_after backing, load_sections_eq, returns_after loading] at runs
  have lastPlan : Plan loaded between (pcbAllocations entry) := by
    refine ⟨?_, fun allocation member => own allocation (List.mem_cons_of_mem _ member), restApart, ?_, ?_⟩
    · unfold pcbAllocations
      simp only [List.mem_cons, List.not_mem_nil, or_false, forall_eq_or_imp, forall_eq]
      decide
    · intro allocation member page covered there
      rcases (isBetween page).1 there with ⟨user, listed, again⟩ | same
      · exact cross user listed _ (List.mem_cons_of_mem _ member) page again covered
      · exact pcbApart allocation member page ((isPcb page).2 same) covered
    · unfold pcbAllocations
      simp only [List.mem_cons, List.not_mem_nil, or_false, forall_eq_or_imp, forall_eq]
      refine ⟨.inr ?_, .inl (by decide)⟩
      intro page covered
      have index : page / 1024 = pcbPage / 1024 := by
        unfold Allocation.Covers at covered
        have mailbox : mailboxDataAddr = 0x40F000 := by decide
        have pcb : pcbPage = 0x40E := by decide
        dsimp only at covered
        omega
      rw [index]
      exact page_entry_present (page_present loadStep.growing.balanced ((isBetween _).2 (.inr rfl)))
  obtain ⟨rodata, data, bss, heap, isEnd⟩ := section_starts fits
  obtain ⟨below, _⟩ := usage_pages_eq fits
  have org : processOrg = 0x420000 := rfl
  have top : stackTop - stackSize = 0xBFBFC000 := by decide
  obtain ⟨next, after, filling, pcbReady, last, ready⟩ := pcb_init_advance loadStep.growing
    ((isBetween _).2 (.inr rfl)) (by omega) (by omega) words.entryPoint dirBound words.argument lastPlan
    (runs.imp (fun enough => by omega) id)
  have wrote := wrote_trans (fun _ => id) (wrote_mono loadStep.wrote fun _ _ => trivial)
    (wrote_mono pcbReady.wrote fun _ _ => trivial)
  have all := provided_append provided wrote last
  rw [List.append_assoc, List.singleton_append] at all
  refine ⟨next, after, ?_, ?_, ⟨?_, all.entries, ?_, ready⟩, all.taken⟩
  · rw [fillSpace, backing, Trap.ok_bind, load_sections_eq, loading, Trap.ok_bind]
    exact filling
  · exact advance_trans (advance_mono userStep fun _ _ => trivial) (advance_trans
      (advance_mono pcbStep fun _ _ => trivial) (advance_trans (advance_mono loadStep fun _ _ => trivial)
      (advance_mono pcbReady fun _ _ => trivial)))
  · intro page
    rw [all.pages page, none]
    simp [spaceAllocations]
  · intro place member
    have inside : ∀ i < place.2.length, CoveredBy (userAllocations entry) ((place.1 + i) / 4096) :=
      sections_covered fits near place member
    apply holds_wrote pcbReady.wrote (fun i small => (isBetween _).2 (.inl (inside i small))) _
      (sections place member)
    rintro i small (missing | same)
    · exact missing ((isBetween _).2 (.inl (inside i small)))
    · obtain ⟨allocation, listed, covered⟩ := inside i small
      have low := (user_pages_place fits near listed covered).1
      have pcb : pcbPage = 0x40E := by decide
      omega

end Filling

end ParadiseOS.LoadedPrograms
