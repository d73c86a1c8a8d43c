import ParadiseOS.NewDirectory
import ParadiseOS.TlbModel
import ParadiseOS.VirtRanges

/-!
# The TLB through the steps of the paging code

A store that leaves all present translations as they are keeps the TLB fresh; one
that takes the translation of a page away makes that page dirty until it is
invalidated. A page table is linked before it is cleared, so its frame must not hold
anything that looks like an entry.
-/

namespace ParadiseOS.TlbSteps

open FillingCache
open FrameLedger FrameSteps
open MachineWord PagingModel PagingSteps PagingMaps
open TlbModel
open TwoLevelPaging hiding writeAll

set_option autoImplicit false

/-- The last 4 MiB of the address space, where a directory shows its tables. -/
def SelfMapPage (page : Nat) : Prop := 1047552 ≤ page

def SelfMapOr (dirty : Nat → Prop) (page : Nat) : Prop := SelfMapPage page ∨ dirty page

/-- Every cached translation outside the self-map is in the current page tables. -/
def Fresh (cpu : Cpu) : Prop := Coherent SelfMapPage cpu.cached (walks cpu.machine)

def FreshBut (dirty : Nat → Prop) (cpu : Cpu) : Prop :=
  Coherent (SelfMapOr dirty) cpu.cached (walks cpu.machine)

section Walks

variable {dirty : Nat → Prop} {machine next : Machine} {roots frames : List Nat} {page word : Nat}

/-- The other fields of a machine do not matter for its translations. -/
theorem walks_congr (memory : next.memory = machine.memory) (cr3 : next.cr3 = machine.cr3) :
    walks next = walks machine := by
  unfold walks
  rw [memory, cr3]

theorem keeps_of_entries (cr3 : next.cr3 = machine.cr3)
    (entries : ∀ page, ¬ dirty page →
      Present (directoryEntry machine.memory machine.cr3 (page / 1024)) →
      Present (pageEntry machine.memory machine.cr3 page) →
      directoryEntry next.memory machine.cr3 (page / 1024) =
          directoryEntry machine.memory machine.cr3 (page / 1024) ∧
        pageEntry next.memory machine.cr3 page = pageEntry machine.memory machine.cr3 page) :
    Keeps dirty (walks machine) (walks next) := by
  rintro page clean value ⟨directory, entry, tablePresent, present⟩
  rw [← directory] at tablePresent
  rw [← entry] at present
  obtain ⟨sameDirectory, sameEntry⟩ := entries page clean tablePresent present
  refine ⟨?_, ?_, directory ▸ tablePresent, entry ▸ present⟩
  · rw [cr3, sameDirectory, directory]
  · rw [cr3, sameEntry, entry]

/-- Writing the slot of a page takes away at most the translation of that page. -/
theorem fill_slot_keeps (spaces : Spaces machine roots) (low : page < 1047552)
    (table : Present (directoryEntry machine.memory machine.cr3 (page / 1024)))
    (bounded : word < 4294967296) :
    Keeps (SelfMapOr (· = page)) (walks machine) (walks (fillSlot machine page word)) := by
  apply keeps_of_entries (show (fillSlot machine page word).cr3 = machine.cr3 from rfl)
  intro position clean _ _
  unfold SelfMapOr SelfMapPage at clean
  have same : SameOn machine.memory (fillSlot machine page word).memory machine.cr3 :=
    slot_write_roots spaces.family spaces.member low table _ spaces.member
  have entry := fill_slot_entry spaces low table bounded spaces.member (show position < 1047552 by omega)
  rw [if_neg (by omega)] at entry
  exact ⟨directory_entry_same_on same (by omega), entry⟩

/-- A page that was not mapped has no translation to lose. -/
theorem fill_absent_keeps (spaces : Spaces machine roots) (low : page < 1047552)
    (table : Present (directoryEntry machine.memory machine.cr3 (page / 1024)))
    (absent : ¬ Present (pageEntry machine.memory machine.cr3 page)) (bounded : word < 4294967296) :
    Keeps SelfMapPage (walks machine) (walks (fillSlot machine page word)) := by
  intro position clean value held
  by_cases here : position = page
  · have present := held.2.2.2
    rw [← held.2.1, here] at present
    exact absurd present absent
  · refine fill_slot_keeps spaces low table bounded position ?_ value held
    rintro (selfMap | same)
    · exact clean selfMap
    · exact here same

theorem pop_keeps (spaces : Spaces machine roots) (frame : Nat) :
    Keeps (SelfMapOr (· = windowPage machine)) (walks machine) (walks (popped machine frame)) := by
  apply keeps_of_entries (show (popped machine frame).cr3 = machine.cr3 from rfl)
  intro page clean _ _
  unfold SelfMapOr SelfMapPage at clean
  exact ⟨popped_directory spaces frame spaces.member (by omega),
    popped_entry spaces frame spaces.member (by omega) (by omega)⟩

end Walks

section Rules

variable {cpu : Cpu} {dirty : Nat → Prop} {machine : Machine} {vaddr : Nat}

theorem fresh_goes_on (fresh : Fresh cpu) (keeps : Keeps SelfMapPage (walks cpu.machine) (walks machine)) :
    Fresh (cpu.goesOn machine) := coherent_fill fresh keeps

theorem fresh_but_goes_on (fresh : FreshBut dirty cpu)
    (keeps : Keeps (SelfMapOr dirty) (walks cpu.machine) (walks machine)) :
    FreshBut dirty (cpu.goesOn machine) := coherent_fill fresh keeps

theorem fresh_but_of_fresh (fresh : Fresh cpu) : FreshBut dirty cpu :=
  coherent_mono fresh fun _ => Or.inl

/-- `invalidate_page` cleans its page. -/
theorem fresh_invalidate (fresh : FreshBut (fun page => dirty page ∨ page = vaddr / 4096) cpu) :
    FreshBut dirty (invalidatePage cpu vaddr) := by
  refine coherent_refill fresh ?_
  rintro page clean (selfMap | isDirty | here) value
  · exact absurd (.inl selfMap) clean
  · exact absurd (.inr isDirty) clean
  · exact here

theorem fresh_invalidate_last (fresh : FreshBut (· = vaddr / 4096) cpu) :
    Fresh (invalidatePage cpu vaddr) := by
  refine coherent_refill fresh ?_
  rintro page clean (selfMap | here) value
  · exact absurd selfMap clean
  · exact here

end Rules

section Frames

variable {cpu next : Cpu} {roots frames : List Nat} {frame : Nat}

theorem alloc_frame_cached (completed : allocFrame cpu = .ok (frame, next)) :
    next = invalidatePage (cpu.goesOn next.machine) cpu.machine.freeListHead := by
  obtain ⟨_, _, completed⟩ := Trap.bind_eq_ok.mp completed
  obtain ⟨link, _, completed⟩ := Trap.bind_eq_ok.mp completed
  obtain ⟨popped, storing, completed⟩ := Trap.bind_eq_ok.mp completed
  obtain ⟨machine, stored, isPopped⟩ := Trap.bind_eq_ok.mp storing
  cases completed
  cases isPopped
  have globals : machine.freeListHead = cpu.machine.freeListHead := by
    obtain ⟨first, _, stored⟩ := Trap.bind_eq_ok.mp stored
    obtain ⟨second, _, stored⟩ := Trap.bind_eq_ok.mp stored
    obtain ⟨third, _, stored⟩ := Trap.bind_eq_ok.mp stored
    obtain ⟨fourth, _, stored⟩ := Trap.bind_eq_ok.mp stored
    cases stored
    rfl
  change invalidatePage (cpu.goesOn machine) machine.freeListHead =
    invalidatePage (cpu.goesOn machine) cpu.machine.freeListHead
  rw [globals]

theorem alloc_frame_popped (spaces : Spaces cpu.machine roots) (free : FreeList cpu.machine roots frames)
    (completed : allocFrame cpu = .ok (frame, next)) :
    next.machine = popped cpu.machine frame ∧ ∃ rest, frames = frame :: rest := by
  have plain := erases_eq_ok (alloc_frame_erases cpu) completed
  cases frames with
  | nil =>
      rw [alloc_frame_empty free.linked] at plain
      cases plain
  | cons top rest =>
      rw [alloc_frame_ok spaces free] at plain
      simp only [Cpu.withFrame, Except.ok.injEq, Prod.mk.injEq] at plain
      obtain ⟨isTop, isMachine⟩ := plain
      subst isTop
      exact ⟨isMachine.symm, rest, rfl⟩

theorem alloc_frame_fresh (spaces : Spaces cpu.machine roots) (free : FreeList cpu.machine roots frames)
    (fresh : Fresh cpu) (completed : allocFrame cpu = .ok (frame, next)) :
    Fresh next ∧ next.machine = popped cpu.machine frame ∧ ∃ rest, frames = frame :: rest := by
  obtain ⟨isMachine, rest, isFrames⟩ := alloc_frame_popped spaces free completed
  have isNext := alloc_frame_cached completed
  refine ⟨?_, isMachine, rest, isFrames⟩
  rw [isNext, isMachine]
  apply fresh_invalidate_last
  exact fresh_but_goes_on (fresh_but_of_fresh fresh) (pop_keeps spaces frame)

theorem store_word_cached {vaddr word : Nat} (stored : storeWord cpu vaddr word = .ok next) :
    PagingModel.storeWord cpu.machine vaddr word = .ok next.machine ∧
      next.cached = fill cpu.cached (walks next.machine) := by
  obtain ⟨machine, plain, isNext⟩ := Trap.bind_eq_ok.mp stored
  cases isNext
  exact ⟨plain, rfl⟩

/-- Writing to a frame that holds no paging structure changes no translation. -/
theorem link_keeps {machine : Machine} (spaces : Spaces machine roots)
    (freeable : Freeable machine roots frames frame) :
    Keeps SelfMapPage (walks (fillSlot machine (windowPage machine) (createEntry frame pteWritable)))
      (walks { machine with memory := pushMemory machine frame }) := by
  have bounded := create_entry_lt freeable.bounded (by decide : pteWritable < 4096)
  apply keeps_of_entries (show ({ machine with memory := pushMemory machine frame } : Machine).cr3 =
    (fillSlot machine (windowPage machine) (createEntry frame pteWritable)).cr3 from rfl)
  intro page clean _ _
  unfold SelfMapPage at clean
  have low : page < 1047552 := by omega
  have pushed := page_entry_push spaces freeable spaces.member low
  have marked := fill_slot_entry spaces spaces.windowLow spaces.windowTable bounded spaces.member low
  have tied : Tied machine machine.cr3 machine.cr3 (windowPage machine) := .inl rfl
  simp only [tied, and_true] at marked
  have index : page / 1024 < 1024 := by omega
  have first := directory_entry_same_on (push_roots spaces freeable _ spaces.member) index
  have second := directory_entry_same_on
    (spaces.window_write_roots (createEntry frame pteWritable) _ spaces.member) index
  exact ⟨first.trans second.symm, pushed.trans marked.symm⟩

/-- The window is marked and invalidated before the link is stored through it. -/
theorem link_frame_cached (completed : linkFrame cpu frame = .ok next) :
    ∃ marked : Cpu,
      PagingModel.storeWord cpu.machine cpu.machine.freeListHeadPte
          (createEntry frame pteWritable) = .ok marked.machine ∧
        marked.cached = fill cpu.cached (walks marked.machine) ∧
        next.cached = fill (invalidatePage marked marked.machine.freeListHead).cached
          (walks next.machine) := by
  obtain ⟨marked, marking, completed⟩ := Trap.bind_eq_ok.mp completed
  obtain ⟨linked, linking, isNext⟩ := Trap.bind_eq_ok.mp completed
  cases isNext
  obtain ⟨plain, isMarked⟩ := store_word_cached marking
  obtain ⟨_, isLinked⟩ := store_word_cached linking
  exact ⟨marked, plain, isMarked, isLinked⟩

/-- The counter of the used frames plays no part. -/
theorem link_frame_fresh {machine : Machine} {cached : Table Nat Translation} (used : Nat)
    (spaces : Spaces machine roots) (freeable : Freeable machine roots frames frame)
    (fresh : Coherent SelfMapPage cached (walks machine))
    (completed : linkFrame ⟨{ machine with usedFrames := used }, cached⟩ frame = .ok next)
    (memory : next.machine.memory = pushMemory machine frame) (cr3 : next.machine.cr3 = machine.cr3) :
    Fresh next := by
  obtain ⟨marked, stored, isMarked, isNext⟩ := link_frame_cached completed
  have storing := spaces.store_head_pte used machine.freeFramePaddr (createEntry frame pteWritable)
  have isStored := Except.ok.inj (storing.symm.trans stored)
  have bounded := create_entry_lt freeable.bounded (by decide : pteWritable < 4096)
  have before : walks marked.machine =
      walks (fillSlot machine (windowPage machine) (createEntry frame pteWritable)) :=
    walks_congr (congrArg Machine.memory isStored).symm (congrArg Machine.cr3 isStored).symm
  have after : walks next.machine = walks { machine with memory := pushMemory machine frame } :=
    walks_congr memory cr3
  have window : windowPage machine = marked.machine.freeListHead / 4096 := by
    unfold windowPage
    rw [← isStored]
  have marks := fill_slot_keeps spaces spaces.windowLow spaces.windowTable bounded
  rw [← before, window] at marks
  have started : Coherent (SelfMapOr (· = marked.machine.freeListHead / 4096)) cached (walks machine) :=
    coherent_mono fresh fun _ => Or.inl
  have markedFresh : FreshBut (· = marked.machine.freeListHead / 4096) marked := by
    rw [FreshBut, isMarked]
    exact coherent_fill started marks
  have cleaned := fresh_invalidate_last markedFresh
  have links := link_keeps spaces freeable
  rw [← before, ← after] at links
  rw [Fresh, isNext]
  exact coherent_fill cleaned links

theorem free_frame_fresh (spaces : Spaces cpu.machine roots)
    (freeable : Freeable cpu.machine roots frames frame) (fresh : Fresh cpu)
    (completed : freeFrame cpu frame = .ok next) : Fresh next := by
  have plain := erases_eq_ok (free_frame_erases cpu frame) completed
  rw [free_frame_ok spaces freeable, Except.ok.injEq] at plain
  exact link_frame_fresh _ spaces freeable fresh completed (congrArg Machine.memory plain).symm
    (congrArg Machine.cr3 plain).symm

end Frames

end ParadiseOS.TlbSteps
