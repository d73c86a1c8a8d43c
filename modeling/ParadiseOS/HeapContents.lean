import ParadiseOS.HeapLockstep

/-!
# What `mem_realloc` does to pages and bytes

`heap_realloc` changes the marks first; `mem_realloc` then maps, copies and unmaps
from the size it returns. Pages that stay keep their frames and their bytes, new
ones get the flags of the old, a copy arrives byte for byte, and the frames of the
pages that are left go back to the free list.
-/

namespace ParadiseOS.HeapContents

open ColouredLine HeapModel HeapRuns HeapUsage MachineWord MemModel StepRun
open FrameLedger FrameSteps HeapLockstep PagingModel PagingSteps TwoLevelPaging

set_option autoImplicit false

/-- Pages keep their entries, and the frames behind them their bytes. -/
def Untouched (machine next : Machine) (pages : Nat → Prop) : Prop :=
  ∀ page, pages page →
    pageEntry next.memory next.cr3 page = pageEntry machine.memory machine.cr3 page ∧
      SameOn machine.memory next.memory (backingFrame machine page)

/-- The byte behind an address of the current directory. -/
def byteAt (machine : Machine) (vaddr : Nat) : UInt8 :=
  machine.memory (backingFrame machine (vaddr / 4096) + vaddr % 4096)

section Pages

variable {region : Nat → Prop} {contributed : List Nat} {total : Nat} {machine middle next : Machine}
  {ledger : Ledger} {vaddr flags page : Nat} {pages fewer : Nat → Prop}

theorem untouched_refl (machine : Machine) (pages : Nat → Prop) : Untouched machine machine pages :=
  fun _ _ => ⟨rfl, fun _ _ _ => rfl⟩

theorem untouched_frame (untouched : Untouched machine next pages) (kept : pages page) :
    backingFrame next page = backingFrame machine page := by
  rw [backingFrame, backingFrame, (untouched page kept).1]

theorem untouched_trans (first : Untouched machine middle pages) (second : Untouched middle next fewer)
    (fewerPages : ∀ page, fewer page → pages page) : Untouched machine next fewer := by
  intro page kept
  have before := fewerPages page kept
  obtain ⟨entry, bytes⟩ := first page before
  obtain ⟨laterEntry, laterBytes⟩ := second page kept
  refine ⟨laterEntry.trans entry, ?_⟩
  intro cell low high
  rw [untouched_frame first before] at laterBytes
  rw [laterBytes cell low high, bytes cell low high]

theorem untouched_mono (untouched : Untouched machine next pages)
    (fewerPages : ∀ page, fewer page → pages page) : Untouched machine next fewer :=
  fun page kept => untouched page (fewerPages page kept)

theorem untouched_byte (untouched : Untouched machine next pages) (kept : pages (vaddr / 4096)) :
    byteAt next vaddr = byteAt machine vaddr := by
  rw [byteAt, byteAt, untouched_frame untouched kept]
  exact (untouched _ kept).2 _ (by omega) (by omega)

theorem load_byte_at (balanced : Balanced region contributed total machine ledger)
    (member : vaddr / 4096 ∈ ledger.pages) : loadByte machine vaddr = .ok (byteAt machine vaddr) := by
  rw [loadByte, physical, page_translate balanced member]
  rfl

/-- Backing a page does not touch those that were backed. -/
theorem untouched_backed (balanced : Balanced region contributed total machine ledger) {frame : Nat}
    {rest : List Nat} (backed : Backed machine next ledger.roots ledger.free rest page frame flags) :
    Untouched machine next (· ∈ ledger.pages) := by
  intro other member
  have cr3 := same_globals_cr3 backed.globals
  obtain ⟨low, notWindow⟩ := balanced.placed other (balanced.inside other member)
  have differ : other ≠ page := by
    intro same
    exact backed.absent (same ▸ page_present balanced member)
  constructor
  · rw [cr3, backed.entries _ balanced.spaces.member other low notWindow, if_neg fun here => differ here.1]
  · apply backed.outside _ (frame_of_aligned _)
    rw [backed.inUse]
    exact fun used => balanced.apart other member used.1

/-- Freeing a page does not touch the other ones. -/
theorem untouched_freed (balanced : Balanced region contributed total machine ledger)
    (member : page ∈ ledger.pages) (freed : Freed machine next ledger.roots ledger.free page) :
    Untouched machine next fun other => other ∈ ledger.pages ∧ other ≠ page := by
  rintro other ⟨there, differ⟩
  have cr3 := same_globals_cr3 freed.globals
  obtain ⟨low, notWindow⟩ := balanced.placed other (balanced.inside other there)
  constructor
  · rw [cr3, freed.entries _ balanced.spaces.member other low notWindow, if_neg fun here => differ here.1]
  · apply freed.outside _ (frame_of_aligned _)
    rw [freed.inUse]
    rintro (used | same)
    · exact balanced.apart other there used
    · exact differ (balanced.own other there page member same)

/-- `alloc_pages` gives its pages the flags, and does not touch the pages that were backed. -/
theorem alloc_pages_contents (count : Nat)
    (balanced : Balanced region contributed total machine ledger) (small : flags < 4096)
    (inside : ∀ page, InRange (vaddr / 4096) count page → region page)
    (completed : allocPages machine vaddr flags count = .ok next) :
    Untouched machine next (· ∈ ledger.pages) ∧
      ∀ page, InRange (vaddr / 4096) count page →
        getFlags (pageEntry next.memory next.cr3 page) = flags ||| 1 := by
  induction count generalizing machine ledger vaddr with
  | zero =>
      rw [allocPages, Except.ok.injEq] at completed
      subst completed
      refine ⟨untouched_refl machine _, ?_⟩
      rintro page ⟨low, high⟩
      omega
  | succ count ih =>
      obtain ⟨middle, frame, rest, tables, backed, held, completed⟩ :=
        alloc_round balanced small inside completed
      obtain ⟨later, filled⟩ := ih held (fun page range => inside page (in_range_rest range)) completed
      refine ⟨untouched_trans (untouched_backed balanced backed)
        (untouched_mono later fun _ => List.mem_cons_of_mem _) fun _ => id, ?_⟩
      intro page range
      by_cases here : page = vaddr / 4096
      · obtain ⟨low, notWindow⟩ := balanced.placed _ (inside _ ⟨le_refl _, by omega⟩)
        have taken : frame < 4294967296 := by
          rcases backed.taken with ⟨_, free, _⟩ | ⟨_, table, free, _⟩
          · exact balanced.free.bounded frame (free ▸ List.mem_cons_self)
          · exact balanced.free.bounded frame (free ▸ List.mem_cons_self)
        have own := backed.entries _ balanced.spaces.member _ low notWindow
        rw [if_pos ⟨rfl, .inl rfl⟩] at own
        rw [here, (later _ List.mem_cons_self).1, same_globals_cr3 backed.globals, own, get_flags_mod,
          create_entry_flags taken small]
      · apply filled
        unfold InRange at range ⊢
        omega

/-- `free_pages` puts the frames of its pages on the list, and does not touch the other pages. -/
theorem free_pages_contents (count : Nat)
    (balanced : Balanced region contributed total machine ledger)
    (inside : ∀ page, InRange (vaddr / 4096) count page → region page)
    (completed : freePages machine vaddr count = .ok next) :
    Untouched machine next (fun page => page ∈ ledger.pages ∧ ¬ InRange (vaddr / 4096) count page) ∧
      ∃ frames, FreeList next ledger.roots frames ∧
        (∀ frame ∈ ledger.free, frame ∈ frames) ∧
        ∀ page, InRange (vaddr / 4096) count page → page ∈ ledger.pages ∧ backingFrame machine page ∈ frames := by
  induction count generalizing machine ledger vaddr with
  | zero =>
      rw [freePages, Except.ok.injEq] at completed
      subst completed
      refine ⟨untouched_refl machine _, ledger.free, balanced.free, fun _ => id, ?_⟩
      rintro page ⟨low, high⟩
      omega
  | succ count ih =>
      obtain ⟨middle, member, freed, held, completed⟩ := free_round balanced inside completed
      have first := untouched_freed balanced member freed
      have left : ∀ other, other ∈ ledger.pages.erase (vaddr / 4096) ↔
          other ≠ vaddr / 4096 ∧ other ∈ ledger.pages := fun other => balanced.nodup.mem_erase_iff
      obtain ⟨later, frames, free, kept, returned⟩ :=
        ih held (fun page range => inside page (in_range_rest range)) completed
      refine ⟨untouched_trans first (untouched_mono later ?_) ?_, frames, free, ?_, ?_⟩
      · rintro page ⟨there, outside⟩
        refine ⟨(left page).2 ⟨?_, there⟩, fun range => outside (in_range_rest range)⟩
        rintro rfl
        exact outside ⟨le_refl _, by omega⟩
      · rintro page ⟨there, outside⟩
        refine ⟨there, ?_⟩
        rintro rfl
        exact outside ⟨le_refl _, by omega⟩
      · exact fun frame there => kept frame (List.mem_cons_of_mem _ there)
      · intro page range
        by_cases here : page = vaddr / 4096
        · rw [here]
          exact ⟨member, kept _ List.mem_cons_self⟩
        · obtain ⟨there, inFrames⟩ := returned page (by
            unfold InRange at range ⊢
            omega)
          have old := (left page).1 there
          rw [untouched_frame first ⟨old.2, old.1⟩] at inFrames
          exact ⟨old.2, inFrames⟩

/-- A stored byte is read back, and the other bytes of backed pages are as before. -/
theorem store_byte_contents (balanced : Balanced region contributed total machine ledger)
    (member : vaddr / 4096 ∈ ledger.pages) {byte : UInt8}
    (stored : storeByte machine vaddr byte = .ok next) {other : Nat} (there : other / 4096 ∈ ledger.pages) :
    byteAt next other = if other = vaddr then byte else byteAt machine other := by
  obtain ⟨_, _, entries⟩ := store_byte_balanced balanced member stored
  have changed := store_byte_eq balanced member stored
  have frame : backingFrame next (other / 4096) = backingFrame machine (other / 4096) := by
    rw [backingFrame, backingFrame, entries _ there]
  rw [byteAt, frame, changed]
  dsimp only
  have first := frame_of_aligned (pageEntry machine.memory machine.cr3 (vaddr / 4096))
  have second := frame_of_aligned (pageEntry machine.memory machine.cr3 (other / 4096))
  by_cases same : other = vaddr
  · rw [if_pos (by rw [same]), if_pos same]
  · rw [if_neg same, if_neg]
    · rfl
    · intro cell
      have frames : backingFrame machine (other / 4096) = backingFrame machine (vaddr / 4096) := by
        unfold backingFrame at cell ⊢
        omega
      have page := balanced.own _ there _ member frames
      omega

/-- What a copy between backed pages leaves: no entry is changed, the bytes have arrived, and the
others are as before. -/
structure Copied (machine next : Machine) (ledger : Ledger) (dst src count : Nat) : Prop where
  entries : ∀ page ∈ ledger.pages,
    pageEntry next.memory next.cr3 page = pageEntry machine.memory machine.cr3 page
  outside : ∀ vaddr, vaddr / 4096 ∈ ledger.pages → (∀ offset < count, vaddr ≠ dst + offset) →
    byteAt next vaddr = byteAt machine vaddr
  arrived : ∀ offset < count, byteAt next (dst + offset) = byteAt machine (src + offset)

theorem copy_bytes_contents (count : Nat) {dst src : Nat}
    (balanced : Balanced region contributed total machine ledger)
    (target : ∀ offset < count, (dst + offset) / 4096 ∈ ledger.pages)
    (source : ∀ offset < count, (src + offset) / 4096 ∈ ledger.pages)
    (apart : ∀ i < count, ∀ j < count, src + i ≠ dst + j)
    (copied : copyBytes machine dst src count = .ok next) : Copied machine next ledger dst src count := by
  induction count generalizing machine dst src with
  | zero =>
      rw [copyBytes, Except.ok.injEq] at copied
      subst copied
      exact ⟨fun _ _ => rfl, fun _ _ _ => rfl, fun _ none => absurd none (Nat.not_lt_zero _)⟩
  | succ count ih =>
      obtain ⟨byte, loaded, copied⟩ := Trap.bind_eq_ok.mp copied
      obtain ⟨middle, stored, copied⟩ := Trap.bind_eq_ok.mp copied
      have here := target 0 (by omega)
      have from0 := source 0 (by omega)
      rw [Nat.add_zero] at here from0
      have targetLow := (balanced.placed _ (balanced.inside _ here)).1
      have sourceLow := (balanced.placed _ (balanced.inside _ from0)).1
      rw [load_byte_at balanced from0, Except.ok.injEq] at loaded
      obtain ⟨held, _, entries⟩ := store_byte_balanced balanced here stored
      have shift : ∀ base offset, base + 1 + offset = base + (offset + 1) := by omega
      rw [u32_of_lt (show dst + 1 < 4294967296 by omega), u32_of_lt (show src + 1 < 4294967296 by omega)]
        at copied
      have later := ih held (fun offset below => (shift dst offset).symm ▸ target (offset + 1) (by omega))
        (fun offset below => (shift src offset).symm ▸ source (offset + 1) (by omega))
        (fun i first j second => by
          have differ := apart (i + 1) (by omega) (j + 1) (by omega)
          omega) copied
      refine ⟨fun page member => (later.entries page member).trans (entries page member), ?_, ?_⟩
      · intro vaddr member outside
        have first : vaddr ≠ dst := outside 0 (by omega)
        rw [later.outside vaddr member fun offset below => by
          have differ := outside (offset + 1) (by omega)
          omega, store_byte_contents balanced here stored member, if_neg first]
      · intro offset below
        cases offset with
        | zero =>
            rw [Nat.add_zero, Nat.add_zero, later.outside dst here fun offset _ => by omega,
              store_byte_contents balanced here stored here, if_pos rfl, loaded]
        | succ offset =>
            have place := source (offset + 1) below
            have differ : src + (offset + 1) ≠ dst := apart (offset + 1) below 0 (by omega)
            have arrived := later.arrived offset (by omega)
            rw [shift, shift] at arrived
            rw [arrived, store_byte_contents balanced here stored place, if_neg differ]

theorem untouched_copied {dst src count : Nat}
    (copied : Copied machine next ledger dst src count) :
    Untouched machine next fun page =>
      page ∈ ledger.pages ∧ ∀ offset < count, (dst + offset) / 4096 ≠ page := by
  rintro page ⟨member, outside⟩
  have entry := copied.entries page member
  refine ⟨entry, ?_⟩
  intro cell low high
  have quotient : (page * 4096 + (cell - backingFrame machine page)) / 4096 = page := by omega
  have remainder : (page * 4096 + (cell - backingFrame machine page)) % 4096 =
      cell - backingFrame machine page := by omega
  have same := copied.outside (page * 4096 + (cell - backingFrame machine page)) (quotient.symm ▸ member)
    fun offset below equal => outside offset below (equal ▸ quotient)
  have frame : backingFrame next page = backingFrame machine page := by
    rw [backingFrame, backingFrame, entry]
  rw [byteAt, byteAt, quotient, remainder, frame, Nat.add_sub_cancel' low] at same
  exact same

end Pages

section Extents

variable {region : Nat → Prop} {contributed : List Nat} {total : Nat} {machine next : Machine}
  {ledger : Ledger} {ptr newPtr oldSize pages flags : Nat}

/-- What `mem_resize` and `mem_move` do to the pages of the allocation: the pages of `kept` are not
touched, those of `fresh` have the flags, and the frames of those of `left` are free. -/
structure Repaged (machine next : Machine) (roots : List Nat) (flags : Nat) (kept fresh left : Nat → Prop) :
    Prop where
  untouched : Untouched machine next kept
  filled : ∀ page, fresh page → getFlags (pageEntry next.memory next.cr3 page) = flags ||| 1
  returned : ∃ frames, FreeList next roots frames ∧ ∀ page, left page → backingFrame machine page ∈ frames

theorem mem_resize_contents (balanced : Balanced region contributed total machine ledger)
    (small : flags < 4096) (aligned : ptr % 4096 = 0) (word : ptr / 4096 + oldSize < 1048576)
    (old : ∀ page, InRange (ptr / 4096) oldSize page → region page)
    (inside : ∀ page, InRange (ptr / 4096) pages page → region page)
    (completed : memResize machine ptr oldSize pages flags = .ok next) :
    Repaged machine next ledger.roots flags
      (fun page => page ∈ ledger.pages ∧ ¬ InRange (ptr / 4096 + pages) (oldSize - pages) page)
      (InRange (ptr / 4096 + oldSize) (pages - oldSize))
      (InRange (ptr / 4096 + pages) (oldSize - pages)) := by
  unfold memResize at completed
  split_ifs at completed with shrinks
  · have place : u32 (ptr + u32 (pages * pageSize)) = ptr + pages * 4096 := by
      unfold u32 pageSize
      omega
    have quotient : (ptr + pages * 4096) / 4096 = ptr / 4096 + pages := by omega
    rw [place] at completed
    obtain ⟨untouched, frames, free, _, returned⟩ := free_pages_contents _ balanced
      (fun page range => old page (by
        rw [quotient] at range
        unfold InRange at range ⊢
        omega)) completed
    rw [quotient] at untouched returned
    refine ⟨untouched, ?_, frames, free, fun page range => (returned page range).2⟩
    rintro page ⟨low, high⟩
    omega
  · have place : u32 (ptr + u32 (oldSize * pageSize)) = ptr + oldSize * 4096 := by
      unfold u32 pageSize
      omega
    have quotient : (ptr + oldSize * 4096) / 4096 = ptr / 4096 + oldSize := by omega
    rw [place] at completed
    have range : ∀ page, InRange ((ptr + oldSize * 4096) / 4096) (pages - oldSize) page → region page := by
      intro page range
      apply inside
      rw [quotient] at range
      unfold InRange at range ⊢
      omega
    obtain ⟨after, held, carried, _⟩ := alloc_pages_balanced _ balanced small range completed
    obtain ⟨untouched, filled⟩ := alloc_pages_contents _ balanced small range completed
    rw [quotient] at filled
    refine ⟨untouched_mono untouched fun _ => And.left, filled, after.free, carried.roots ▸ held.free, ?_⟩
    rintro page ⟨low, high⟩
    omega

/-- A move copies the old pages, and then gives their frames back. -/
theorem mem_move_contents (balanced : Balanced region contributed total machine ledger)
    (small : flags < 4096) (oldAligned : ptr % 4096 = 0) (aligned : newPtr % 4096 = 0)
    (grows : oldSize ≤ pages) (word : newPtr / 4096 + pages ≤ 1048576)
    (inside : ∀ page, InRange (newPtr / 4096) pages page → region page)
    (old : ∀ page, InRange (ptr / 4096) oldSize page → page ∈ ledger.pages)
    (completed : memMove machine ptr newPtr oldSize pages flags = .ok next) :
    Repaged machine next ledger.roots flags
        (fun page => page ∈ ledger.pages ∧ ¬ InRange (ptr / 4096) oldSize page)
        (InRange (newPtr / 4096) pages) (InRange (ptr / 4096) oldSize) ∧
      ∀ offset < oldSize * 4096, byteAt next (newPtr + offset) = byteAt machine (ptr + offset) := by
  obtain ⟨backed, backing, completed⟩ := Trap.bind_eq_ok.mp completed
  obtain ⟨copied, copying, freeing⟩ := Trap.bind_eq_ok.mp completed
  obtain ⟨between, held, carried, grown, fresh⟩ := alloc_pages_balanced _ balanced small inside backing
  obtain ⟨allocated, filled⟩ := alloc_pages_contents _ balanced small inside backing
  have size : u32 (oldSize * pageSize) = oldSize * 4096 := by
    by_cases none : oldSize = 0
    · rw [none]
      rfl
    · have last := (balanced.placed _ (balanced.inside _ (old (ptr / 4096 + oldSize - 1)
        ⟨by omega, by omega⟩))).1
      exact u32_of_lt (by unfold pageSize; omega)
  rw [size] at copying
  have target : ∀ offset < oldSize * 4096, InRange (newPtr / 4096) pages ((newPtr + offset) / 4096) := by
    intro offset below
    unfold InRange
    omega
  have source : ∀ offset < oldSize * 4096, InRange (ptr / 4096) oldSize ((ptr + offset) / 4096) := by
    intro offset below
    unfold InRange
    omega
  have inTarget : ∀ offset < oldSize * 4096, (newPtr + offset) / 4096 ∈ between.pages :=
    fun offset below => (grown _).2 (.inr (target offset below))
  obtain ⟨kept, _⟩ := copy_bytes_balanced _ held inTarget copying
  have copies := copy_bytes_contents _ held inTarget
    (fun offset below => (grown _).2 (.inl (old _ (source offset below))))
    (fun i first j second same => fresh _ (target j second) (same ▸ old _ (source i first))) copying
  obtain ⟨released, frames, free, _, returned⟩ := free_pages_contents _ kept
    (fun page range => balanced.inside page (old page range)) freeing
  have moved : Untouched machine copied (· ∈ ledger.pages) := by
    apply untouched_trans allocated (untouched_mono (untouched_copied copies) ?_) fun _ => id
    intro page member
    refine ⟨(grown page).2 (.inl member), ?_⟩
    intro offset below same
    exact fresh _ (target offset below) (same ▸ member)
  refine ⟨⟨?_, ?_, frames, carried.roots ▸ free, ?_⟩, ?_⟩
  · apply untouched_trans moved (untouched_mono released ?_) fun _ => And.left
    rintro page ⟨member, outside⟩
    exact ⟨(grown page).2 (.inl member), outside⟩
  · intro page range
    have apart : ¬ InRange (ptr / 4096) oldSize page := fun there => fresh page range (old page there)
    have member := (grown page).2 (.inr range)
    rw [(released page ⟨member, apart⟩).1, copies.entries page member, filled page range]
  · intro page range
    rw [← untouched_frame moved (old page range)]
    exact (returned page range).2
  · intro offset below
    have range := target offset below
    have apart : ¬ InRange (ptr / 4096) oldSize ((newPtr + offset) / 4096) :=
      fun there => fresh _ range (old _ there)
    have last : byteAt next (newPtr + offset) = byteAt copied (newPtr + offset) :=
      untouched_byte released ⟨inTarget offset below, apart⟩
    have first : byteAt backed (ptr + offset) = byteAt machine (ptr + offset) :=
      untouched_byte allocated (old _ (source offset below))
    rw [last, copies.arrived offset below, first]

/-- The region may take in pages that are not mapped. -/
theorem balanced_widen (wider : Nat → Prop)
    (balanced : Balanced region contributed total machine ledger)
    (within : ∀ page, region page → wider page)
    (fresh : ∀ page, wider page → region page ∨ page < 1047552 ∧ page ≠ windowPage machine ∧
      ¬ Present (pageEntry machine.memory machine.cr3 page)) :
    Balanced wider contributed total machine ledger :=
  { balanced with
    placed := fun page there => (fresh page there).elim (balanced.placed page) fun new => ⟨new.1, new.2.1⟩
    exact := fun page there => (fresh page there).elim (balanced.exact page) fun new =>
      iff_of_false new.2.2 fun member => new.2.2 (page_present balanced member)
    inside := fun page member => within page (balanced.inside page member) }

/-- All pages that `alloc_pages` backs lie before the page tables, and were not mapped. -/
theorem alloc_pages_fresh {roots frames : List Nat} {vaddr count : Nat} (spaces : Spaces machine roots)
    (free : FreeList machine roots frames) (low : Present (directoryEntry machine.memory machine.cr3 0))
    (small : flags < 4096) (below : vaddr / 4096 ≤ 1047552)
    (completed : allocPages machine vaddr flags count = .ok next) {page : Nat}
    (range : InRange (vaddr / 4096) count page) : page < 1047552 ∧ page ≠ windowPage machine ∧
      ¬ Present (pageEntry machine.memory machine.cr3 page) := by
  have stops := alloc_pages_stops count (by decide) spaces free small (window_page_present spaces low) below
    completed
  unfold InRange at range
  have absent : ¬ Present (pageEntry machine.memory machine.cr3 page) := by
    intro present
    have before := alloc_pages_stops count (by omega) spaces free small present range.1 completed
    omega
  refine ⟨by omega, ?_, absent⟩
  intro window
  exact absent (window ▸ window_present free)

end Extents

section Rehousing

variable {region : Nat → Prop} {contributed : List Nat} {total : Nat} {machine next : Machine}
  {ledger after : Ledger} {page size newPage pages : Nat}

/-- The pages of an allocation went from one range to another. -/
structure Rehoused (machine next : Machine) (ledger after : Ledger) (page size newPage newSize : Nat) :
    Prop where
  members : ∀ other, other ∈ after.pages ↔
    (other ∈ ledger.pages ∧ ¬ InRange page size other) ∨ InRange newPage newSize other
  untouched : Untouched machine next fun other => other ∈ ledger.pages ∧ ¬ InRange page size other
  bytes : ∀ offset < min size newSize * 4096,
    byteAt next (newPage * 4096 + offset) = byteAt machine (page * 4096 + offset)
  flags : ∀ flags,
    (∀ index < size, getFlags (pageEntry machine.memory machine.cr3 (page + index)) = flags) →
    ∀ index < newSize, getFlags (pageEntry next.memory next.cr3 (newPage + index)) = flags
  returned : ∃ frames, FreeList next ledger.roots frames ∧ ∀ other, InRange page size other →
    ¬ InRange newPage newSize other → backingFrame machine other ∈ frames

theorem page_place (page offset : Nat) : (page * 4096 + offset) / 4096 = page + offset / 4096 := by
  omega

variable (balanced : Balanced region contributed total machine ledger)
  (old : ∀ other, InRange page size other → other ∈ ledger.pages) (positive : 0 < size)

include balanced old positive

/-- The flags of a mapped page have the present bit. -/
theorem flags_present : getFlags (pageEntry machine.memory machine.cr3 page) ||| 1 =
    getFlags (pageEntry machine.memory machine.cr3 page) := by
  have present := page_present balanced (old page ⟨le_refl _, by omega⟩)
  rw [get_flags_mod]
  apply or_one_of_odd
  unfold Present at present
  omega

theorem old_below : page + size ≤ 1047552 := by
  have last := (balanced.placed _ (balanced.inside _ (old (page + size - 1) ⟨by omega, by omega⟩))).1
  omega

theorem resize_rehoused (inside : ∀ other, InRange page pages other → region other)
    (completed : memResize machine (page * 4096) size pages
      (getFlags (pageEntry machine.memory machine.cr3 page)) = .ok next) :
    ∃ after, Balanced region contributed total next after ∧
      Rehoused machine next ledger after page size page pages := by
  have below := old_below balanced old positive
  have quotient : page * 4096 / 4096 = page := Nat.mul_div_cancel _ (by decide)
  have aligned : page * 4096 % 4096 = 0 := Nat.mul_mod_left _ _
  have small := get_flags_lt (pageEntry machine.memory machine.cr3 page)
  have range : ∀ other, InRange (page * 4096 / 4096) size other → region other := by
    rw [quotient]
    exact fun other there => balanced.inside other (old other there)
  have target : ∀ other, InRange (page * 4096 / 4096) pages other → region other := by
    rw [quotient]
    exact inside
  have word : page * 4096 / 4096 + size < 1048576 := by
    rw [quotient]
    omega
  obtain ⟨after, held, carried, pagesOf⟩ := mem_resize_balanced balanced small aligned word range target
    completed
  have repaged := mem_resize_contents balanced small aligned word range target completed
  rw [quotient] at pagesOf repaged
  obtain ⟨untouched, filled, frames, free, returned⟩ := repaged
  have stays : ∀ index < min size pages, page + index ∈ ledger.pages ∧
      ¬ InRange (page + pages) (size - pages) (page + index) := by
    intro index small
    refine ⟨old _ ⟨by omega, by omega⟩, ?_⟩
    unfold InRange
    omega
  refine ⟨after, held, ?_, ?_, ?_, ?_, frames, free, ?_⟩
  · intro other
    rw [pagesOf]
    have known := old other
    unfold InRange at known ⊢
    by_cases member : other ∈ ledger.pages
    · simp only [member, true_or, true_and]
      omega
    · have outside : ¬ (page ≤ other ∧ other < page + size) := fun there => member (known there)
      simp only [member, false_or, false_and]
      omega
  · apply untouched_mono untouched
    rintro other ⟨member, outside⟩
    refine ⟨member, ?_⟩
    unfold InRange at outside ⊢
    omega
  · intro offset low
    apply untouched_byte untouched
    rw [page_place]
    exact stays _ (Nat.div_lt_of_lt_mul (Nat.mul_comm _ _ ▸ low))
  · intro flags uniform index low
    by_cases kept : index < size
    · rw [(untouched _ (stays index (by omega))).1]
      exact uniform index kept
    · rw [filled _ ⟨by omega, by omega⟩, flags_present balanced old positive]
      exact uniform 0 positive
  · intro other there outside
    apply returned
    unfold InRange at there outside ⊢
    omega

theorem move_rehoused (grows : size < pages) (word : newPage + pages ≤ 1048576)
    (inside : ∀ other, InRange newPage pages other → region other)
    (fresh : ∀ other, InRange newPage pages other → ¬ InRange page size other)
    (completed : memMove machine (page * 4096) (newPage * 4096) size pages
      (getFlags (pageEntry machine.memory machine.cr3 page)) = .ok next) :
    ∃ after, Balanced region contributed total next after ∧
      Rehoused machine next ledger after page size newPage pages := by
  have below := old_below balanced old positive
  have quotient : page * 4096 / 4096 = page := Nat.mul_div_cancel _ (by decide)
  have newQuotient : newPage * 4096 / 4096 = newPage := Nat.mul_div_cancel _ (by decide)
  have aligned : page * 4096 % 4096 = 0 := Nat.mul_mod_left _ _
  have small := get_flags_lt (pageEntry machine.memory machine.cr3 page)
  have range : ∀ other, InRange (page * 4096 / 4096) size other → other ∈ ledger.pages := by
    rw [quotient]
    exact old
  have target : ∀ other, InRange (newPage * 4096 / 4096) pages other → region other := by
    rw [newQuotient]
    exact inside
  have newAligned : newPage * 4096 % 4096 = 0 := Nat.mul_mod_left _ _
  have newWord : newPage * 4096 / 4096 + pages ≤ 1048576 := by
    rw [newQuotient]
    exact word
  obtain ⟨after, held, carried, pagesOf⟩ := mem_move_balanced balanced small newAligned (by omega) newWord
    target (fun other there => balanced.inside other (range other there)) completed
  obtain ⟨repaged, bytes⟩ := mem_move_contents balanced small aligned newAligned (by omega) newWord
    target range completed
  rw [quotient, newQuotient] at pagesOf repaged
  obtain ⟨untouched, filled, frames, free, returned⟩ := repaged
  refine ⟨after, held, ?_, untouched, ?_, ?_, frames, free, fun other there _ => returned other there⟩
  · intro other
    rw [pagesOf]
    have apart := fresh other
    constructor
    · rintro ⟨member | there, outside⟩
      · exact .inl ⟨member, outside⟩
      · exact .inr there
    · rintro (⟨member, outside⟩ | there)
      · exact ⟨.inl member, outside⟩
      · exact ⟨.inr there, apart there⟩
  · intro offset low
    exact bytes offset (lt_of_lt_of_le low (Nat.mul_le_mul_right _ (Nat.min_le_left _ _)))
  · intro flags uniform index low
    rw [filled _ ⟨by omega, by omega⟩, flags_present balanced old positive]
    exact uniform 0 positive

end Rehousing

section Reallocation

variable {machine next : Machine} {heap after : Heap} {live : List Block} {roots frames : List Nat}
  {block : Block} {pages newPtr : Nat}

/-- No slot behind the heap is marked. -/
def FreeBehind (heap : Heap) : Prop :=
  ∀ index, heap.pageCount ≤ index → heapGetUsage heap index = heapPageFree

/-- The scan of `heap_free` and `heap_realloc` from the block's first page ends with the block. -/
def Scans (heap : Heap) (block : Block) : Prop :=
  colorRunEnd heap (heapGetUsage heap block.start) (indexLimit - block.start) block.start = .ok block.stop

/-- An allocation keeps its extent, its frames and what is in them. -/
structure LeftAlone (machine next : Machine) (heap after : Heap) (block : Block) : Prop where
  marks : ∀ index, block.Covers index → heapGetUsage after index = heapGetUsage heap index
  scans : Scans after block
  pages : Untouched machine next (InRange (heapPage heap block.start) block.size)

/-- A block of the heap was reallocated to `pages` pages at `newPtr`. -/
structure Reallocated (machine next : Machine) (heap after : Heap) (live : List Block) (roots : List Nat)
    (block : Block) (pages newPtr : Nat) : Prop where
  contents : ∀ offset < min block.size pages * 4096, ∃ byte,
    loadByte machine (pagePtr heap block.start + offset) = .ok byte ∧
      loadByte next (newPtr + offset) = .ok byte
  mapped : ∀ index < pages, Present (pageEntry next.memory next.cr3 (newPtr / 4096 + index))
  flags : ∀ flags,
    (∀ index < block.size,
      getFlags (pageEntry machine.memory machine.cr3 (heapPage heap block.start + index)) = flags) →
    ∀ index < pages, getFlags (pageEntry next.memory next.cr3 (newPtr / 4096 + index)) = flags
  released : ∃ frames, FreeList next roots frames ∧
    ∀ page, InRange (heapPage heap block.start) block.size page → ¬ InRange (newPtr / 4096) pages page →
      ¬ Present (pageEntry next.memory next.cr3 page) ∧ backingFrame machine page ∈ frames
  place : (pages ≤ block.size ∨ ∀ index, block.stop ≤ index → index < block.start + pages →
    heapGetUsage heap index = heapPageFree) → newPtr = pagePtr heap block.start
  extents : HeapInvariant heap.pageCount
    ⟨after, ⟨pageOffset heap newPtr, pages⟩ :: dropStart live block.start⟩
  others : ∀ other ∈ live, other ≠ block → LeftAlone machine next heap after other

section Assembly

variable {region : Nat → Prop} {contributed : List Nat} {total first : Nat} {ledger later : Ledger}

theorem extent_backed (lockstep : Lockstep ⟨machine, heap, live⟩) (tracks : Tracks heap live ledger)
    (member : block ∈ live) {page : Nat} (range : InRange (heapPage heap block.start) block.size page) :
    page ∈ ledger.pages := by
  have ends : block.stop ≤ heap.pageCount := lockstep.extents block member
  unfold InRange heapPage at range
  have covers : block.Covers (page - heap.heapStart / 4096) := by
    unfold Block.Covers Block.stop
    omega
  have high := covers.2
  have place : heapPage heap (page - heap.heapStart / 4096) = page := by
    unfold heapPage
    omega
  have backed := (tracks (page - heap.heapStart / 4096) (by omega)).2 ⟨block, member, covers⟩
  exact place ▸ backed

/-- Two allocations have no page in common. -/
theorem extents_apart (lockstep : Lockstep ⟨machine, heap, live⟩) (member : block ∈ live) {other : Block}
    (there : other ∈ live) (differ : other ≠ block) {index : Nat} (covers : other.Covers index) :
    index < heap.pageCount ∧ ¬ block.Covers index := by
  have invariant : HeapInvariant heap.pageCount ⟨heap, live⟩ := lockstep.invariant
  have ends : other.stop ≤ heap.pageCount := lockstep.extents other there
  have high := covers.2
  exact ⟨by omega, fun shared =>
    differ (invariant.coloured.eq_of_covers there member (by omega) covers shared)⟩

theorem left_alone (lockstep : Lockstep ⟨machine, heap, live⟩) (behind : FreeBehind heap)
    (bound : heap.pageCount < 4294967296)
    (tracks : Tracks heap live ledger) (member : block ∈ live)
    (untouched : Untouched machine next fun page =>
      page ∈ ledger.pages ∧ ¬ InRange (heapPage heap block.start) block.size page)
    (vacant : ∀ index, (Block.mk first pages).Covers index → ¬ block.Covers index →
      heapGetUsage heap index = heapPageFree)
    (marks : ∀ index, ¬ block.Covers index → ¬ (Block.mk first pages).Covers index →
      heapGetUsage after index = heapGetUsage heap index)
    (extents : HeapInvariant heap.pageCount ⟨after, ⟨first, pages⟩ :: dropStart live block.start⟩)
    {other : Block} (there : other ∈ live) (differ : other ≠ block) :
    LeftAlone machine next heap after other := by
  have invariant : HeapInvariant heap.pageCount ⟨heap, live⟩ := lockstep.invariant
  have ends : other.stop ≤ heap.pageCount := lockstep.extents other there
  have blockEnds : block.stop ≤ heap.pageCount := lockstep.extents block member
  obtain ⟨start, size⟩ := invariant.coloured.inhabited other there
  obtain ⟨low, _⟩ := extents.coloured.inhabited _ List.mem_cons_self
  have stopEq : other.stop = other.start + other.size := rfl
  have outside : ∀ index, other.Covers index →
      ¬ block.Covers index ∧ ¬ (Block.mk first pages).Covers index := by
    intro index covers
    obtain ⟨below, apart⟩ := extents_apart lockstep member there differ covers
    exact ⟨apart, fun shared =>
      invariant.coloured.used there below covers (vacant index shared apart)⟩
  have same : ∀ index, other.Covers index → heapGetUsage after index = heapGetUsage heap index :=
    fun index covers => marks index (outside index covers).1 (outside index covers).2
  have startSame := same other.start (invariant.coloured.covers_start there)
  have kept : other ∈ (⟨first, pages⟩ :: dropStart live block.start : List Block) :=
    List.mem_cons_of_mem _ (mem_drop_start.2 ⟨there, fun equal =>
      differ (invariant.coloured.eq_of_start there member equal)⟩)
  refine ⟨same, ?_, ?_⟩
  · apply color_run_end_of_run (by omega) (by unfold indexLimit; omega)
    · by_cases last : other.stop = heap.pageCount
      · have covers : other.Covers (heap.pageCount - 1) := ⟨by omega, by omega⟩
        have away : ¬ (Block.mk first pages).Covers heap.pageCount := by
          rintro ⟨_, high⟩
          exact (outside _ covers).2 ⟨by dsimp only at low ⊢; omega, by omega⟩
        have notBlock : ¬ block.Covers heap.pageCount := fun covers => by
          have high := covers.2
          omega
        rw [last, startSame, marks _ notBlock away, behind _ (le_refl _)]
        exact (invariant.coloured.start_used there).symm
      · exact extents.coloured.run_end kept (by omega)
    · intro index atLeast below
      rw [startSame, same index ⟨atLeast, below⟩]
      exact invariant.coloured.uniform other there index (by omega) ⟨atLeast, below⟩
  · apply untouched_mono untouched
    intro page range
    refine ⟨extent_backed lockstep tracks there range, ?_⟩
    intro shared
    unfold InRange heapPage at range shared
    have covers : other.Covers (page - heap.heapStart / 4096) := by
      unfold Block.Covers Block.stop
      omega
    refine (extents_apart lockstep member there differ covers).2 ?_
    unfold Block.Covers Block.stop
    omega

/-- What holds of the pages and of the marks makes up the reallocation. -/
theorem reallocated_of_rehoused (lockstep : Lockstep ⟨machine, heap, live⟩) (behind : FreeBehind heap)
    (bound : heap.pageCount < 4294967296) (tracks : Tracks heap live ledger) (member : block ∈ live)
    (balanced : Balanced region contributed total machine ledger)
    (final : Balanced region contributed total next later)
    (rehoused : Rehoused machine next ledger later (heapPage heap block.start) block.size
      (heapPage heap first) pages)
    (spot : pagePtr heap block.start = heapPage heap block.start * 4096)
    (newSpot : newPtr = heapPage heap first * 4096) (offset : pageOffset heap newPtr = first)
    (vacant : ∀ index, (Block.mk first pages).Covers index → ¬ block.Covers index →
      heapGetUsage heap index = heapPageFree)
    (marks : ∀ index, ¬ block.Covers index → ¬ (Block.mk first pages).Covers index →
      heapGetUsage after index = heapGetUsage heap index)
    (extents : HeapInvariant heap.pageCount ⟨after, ⟨first, pages⟩ :: dropStart live block.start⟩)
    (place : (pages ≤ block.size ∨ ∀ index, block.stop ≤ index → index < block.start + pages →
      heapGetUsage heap index = heapPageFree) → newPtr = pagePtr heap block.start) :
    Reallocated machine next heap after live ledger.roots block pages newPtr := by
  have quotient : newPtr / 4096 = heapPage heap first := by
    rw [newSpot]
    exact Nat.mul_div_cancel _ (by decide)
  have old : ∀ page, InRange (heapPage heap block.start) block.size page → page ∈ ledger.pages :=
    fun page range => extent_backed lockstep tracks member range
  obtain ⟨frames, free, returned⟩ := rehoused.returned
  have mapped : ∀ index < pages, heapPage heap first + index ∈ later.pages :=
    fun index small => (rehoused.members _).2 (.inr ⟨by omega, by omega⟩)
  refine ⟨?_, ?_, quotient.symm ▸ rehoused.flags, ⟨frames, free, ?_⟩, place, offset.symm ▸ extents, ?_⟩
  · intro offset low
    have atPage : offset / 4096 < min block.size pages := Nat.div_lt_of_lt_mul (Nat.mul_comm _ _ ▸ low)
    refine ⟨byteAt machine (heapPage heap block.start * 4096 + offset), ?_, ?_⟩
    · rw [spot]
      apply load_byte_at balanced
      rw [page_place]
      exact old _ ⟨by omega, by omega⟩
    · rw [newSpot, ← rehoused.bytes offset low]
      apply load_byte_at final
      rw [page_place]
      exact mapped _ (by omega)
  · rw [quotient]
    exact fun index small => page_present final (mapped index small)
  · rw [quotient]
    intro page range outside
    refine ⟨?_, returned page range outside⟩
    have there := balanced.inside page (old page range)
    rw [final.exact page there, rehoused.members]
    rintro (⟨_, apart⟩ | inside)
    · exact apart range
    · exact outside inside
  · exact fun other there differ =>
      left_alone lockstep behind bound tracks member rehoused.untouched vacant marks extents there differ

end Assembly

/-- Nothing is reallocated in the far half of a heap: the slot that is looked at is behind the heap. -/
theorem realloc_near (behind : FreeBehind heap) (startBound : heap.heapStart < 4294967296)
    (bound : heap.pageCount ≤ 1047552) (low : block.start < heap.pageCount) {result : Nat × Nat × Heap}
    (completed : heapRealloc heap (pagePtr heap block.start) pages = .ok result) : Near block := by
  by_contra far
  unfold Near at far
  obtain ⟨_, _, completed⟩ := Trap.bind_eq_ok.mp completed
  obtain ⟨_, used, _⟩ := Trap.bind_eq_ok.mp completed
  rw [Trap.kernel_assert_eq_ok, page_index_ptr_far heap startBound (by omega) (by omega)] at used
  exact used (behind _ (by omega))

/-- The pages an allocation grows by were not mapped. -/
theorem resize_fresh {flags page : Nat} (housed : Housed machine heap roots frames)
    (aligned : heap.heapStart % 4096 = 0) (ends : block.stop ≤ heap.pageCount) (small : flags < 4096)
    (completed : memResize machine (pagePtr heap block.start) block.size pages flags = .ok next)
    (range : InRange (heapPage heap block.start + block.size) (pages - block.size) page) :
    page < 1047552 ∧ page ≠ windowPage machine ∧
      ¬ Present (pageEntry machine.memory machine.cr3 page) := by
  have below := housed.below
  have stopEq : block.stop = block.start + block.size := rfl
  have first : heapPage heap block.start = heap.heapStart / 4096 + block.start := rfl
  have grows : block.size < pages := by
    unfold InRange at range
    omega
  have quotient : (heapPage heap block.start + block.size) * 4096 / 4096 =
      heapPage heap block.start + block.size := Nat.mul_div_cancel _ (by decide)
  rw [resize_grows flags aligned below ends grows] at completed
  exact alloc_pages_fresh housed.spaces housed.free housed.low small (by rw [quotient]; omega) completed
    (quotient.symm ▸ range)

/-- `mem_realloc` preserves the data of its allocation and leaves everything else alone. -/
theorem mem_realloc_preserves (lockstep : Lockstep ⟨machine, heap, live⟩)
    (housed : Housed machine heap roots frames) (behind : FreeBehind heap) (member : block ∈ live)
    (positive : 0 < pages) (word : pages < 4294967296)
    (completed : memRealloc machine heap (pagePtr heap block.start) pages = .ok (newPtr, after, next)) :
    Reallocated machine next heap after live roots block pages newPtr := by
  have invariant : HeapInvariant heap.pageCount ⟨heap, live⟩ := lockstep.invariant
  have below : heap.heapStart / 4096 + heap.pageCount ≤ 1047552 := housed.below
  have aligned : heap.heapStart % 4096 = 0 := invariant.startAligned
  have startBound : heap.heapStart < 4294967296 := invariant.startBound
  have addressable : heap.pageCount ≤ 1048576 := by omega
  have ends : block.stop ≤ heap.pageCount := lockstep.extents block member
  have stopEq : block.stop = block.start + block.size := rfl
  obtain ⟨low, size⟩ := invariant.coloured.inhabited block member
  obtain ⟨ledger, contributed, total, balanced, rfl, rfl⟩ := balanced_of_housed housed
  have tracks := tracks_of_lockstep lockstep balanced
  obtain ⟨_, _, completed⟩ := Trap.bind_eq_ok.mp completed
  obtain ⟨⟨oldSize, place, marked⟩, reallocated, completed⟩ := Trap.bind_eq_ok.mp completed
  obtain ⟨entry, found, completed⟩ := Trap.bind_eq_ok.mp completed
  obtain ⟨changed, changing, completed⟩ := Trap.bind_eq_ok.mp completed
  simp only [Trap.pure_ok, Except.ok.injEq, Prod.mk.injEq] at completed
  obtain ⟨rfl, rfl, rfl⟩ := completed
  have near := realloc_near behind startBound (by omega) low reallocated
  have colour : block.stop = heap.pageCount →
      heapGetUsage heap heap.pageCount ≠ heapGetUsage heap block.start := by
    intro _
    rw [behind _ (le_refl _)]
    exact (invariant.coloured.start_used member).symm
  have offset : ∀ index, index < 1048576 → pageOffset heap (pagePtr heap index) = index :=
    fun index bounded => page_offset_ptr startBound bounded
  have spot : ∀ index, index < heap.pageCount → pagePtr heap index = heapPage heap index * 4096 :=
    fun index inside => page_ptr_eq aligned (by omega)
  have atStart := spot block.start low
  have page : heapPage heap block.start = heap.heapStart / 4096 + block.start := rfl
  rw [get_entry_ok balanced.spaces.selfMapped (by omega), atStart, Nat.mul_div_cancel _ (by decide),
    Except.ok.injEq] at found
  subst found
  have small := get_flags_lt (pageEntry machine.memory machine.cr3 (heapPage heap block.start))
  have old : ∀ page, InRange (heapPage heap block.start) block.size page → page ∈ ledger.pages :=
    fun page range => extent_backed lockstep tracks member range
  obtain ⟨rfl, start, count, shape, marks⟩ := realloc_cases addressable invariant member
    ⟨near, ends, colour⟩ positive word reallocated
  rcases shape with ⟨rfl, why⟩ | ⟨first, rfl, fits, differ, grows, within, vacant, _, occupied⟩
  · rw [memPlace, if_neg (not_not.mpr rfl)] at changing
    have stays : block.start + pages < 4294967296 := by
      by_cases grows : block.size < pages
      · have stops := resize_below housed aligned ends small grows changing
        omega
      · omega
    have vacant : ∀ index, block.stop ≤ index → index < block.start + pages →
        heapGetUsage heap index = heapPageFree := by
      intro index above under
      rcases why with shrinks | wraps | free
      · omega
      · omega
      · exact (heap_is_space_free_iff _ _ (by omega)).mp free index above (by omega)
    have extents := realloc_invariant addressable invariant member near positive stays reallocated
    change HeapInvariant heap.pageCount ⟨marked, ⟨pageOffset heap (pagePtr heap block.start), pages⟩ ::
      dropStart live block.start⟩ at extents
    change block.start + pages < 4294967296 → ∀ index, ¬ block.Covers index →
      ¬ (Block.mk (pageOffset heap (pagePtr heap block.start)) pages).Covers index →
        heapGetUsage marked index = heapGetUsage heap index at marks
    rw [offset block.start (by omega)] at extents marks
    have wide := balanced_widen (fun page => OnHeap heap page ∨
        InRange (heapPage heap block.start + block.size) (pages - block.size) page) balanced (fun _ => .inl)
        (fun page range => range.imp_right fun growth => resize_fresh housed aligned ends small changing growth)
    rw [atStart] at changing
    obtain ⟨later, final, rehoused⟩ := resize_rehoused wide old size (fun page range => by
      unfold OnHeap
      unfold InRange at range ⊢
      omega) changing
    refine reallocated_of_rehoused lockstep behind (by omega) tracks member wide final rehoused atStart
      atStart (offset _ (by omega)) ?_ (marks stays) extents fun _ => rfl
    intro index covers apart
    unfold Block.Covers Block.stop at covers apart
    dsimp only at covers
    exact vacant index (by omega) (by omega)
  · have newSpot := spot first (by omega)
    have extents := realloc_invariant addressable invariant member near positive within reallocated
    change HeapInvariant heap.pageCount ⟨marked, ⟨pageOffset heap (pagePtr heap first), pages⟩ ::
      dropStart live block.start⟩ at extents
    change block.start + pages < 4294967296 → ∀ index, ¬ block.Covers index →
      ¬ (Block.mk (pageOffset heap (pagePtr heap first)) pages).Covers index →
        heapGetUsage marked index = heapGetUsage heap index at marks
    rw [offset first (by omega)] at extents marks
    have differs : pagePtr heap first ≠ pagePtr heap block.start := by
      intro same
      have equal := congrArg (pageOffset heap) same
      rw [offset first (by omega), offset block.start (by omega)] at equal
      exact differ equal
    have newPage : heapPage heap first = heap.heapStart / 4096 + first := rfl
    rw [memPlace, if_pos differs, atStart, newSpot] at changing
    have fresh : ∀ page, InRange (heapPage heap first) pages page →
        ¬ InRange (heapPage heap block.start) block.size page := by
      intro page range shared
      unfold InRange at range shared
      have covers : block.Covers (page - heap.heapStart / 4096) := by
        unfold Block.Covers
        omega
      exact invariant.coloured.used member (by omega) covers (vacant _ (by omega) (by omega))
    obtain ⟨later, final, rehoused⟩ := move_rehoused balanced old size grows (by omega) (fun page range => by
      unfold OnHeap
      unfold InRange at range ⊢
      omega) fresh changing
    refine reallocated_of_rehoused lockstep behind (by omega) tracks member balanced final rehoused atStart
      newSpot (offset _ (by omega)) (fun index covers _ => vacant index covers.1 covers.2) (marks within)
      extents ?_
    rintro (shrinks | free)
    · omega
    · refine absurd ((heap_is_space_free_iff _ _ (by omega)).mpr ?_) occupied
      exact fun index above under => free index above (by omega)

theorem mem_alloc_behind {pages flags ptr : Nat} (behind : FreeBehind heap)
    (bound : heap.pageCount < 4294967296)
    (completed : memAlloc machine heap pages flags = .ok (ptr, after, next)) : FreeBehind after := by
  obtain ⟨_, positive, completed⟩ := Trap.bind_eq_ok.mp completed
  rw [Trap.kernel_assert_eq_ok] at positive
  obtain ⟨⟨vaddr, marked⟩, allocated, completed⟩ := Trap.bind_eq_ok.mp completed
  obtain ⟨_, _, completed⟩ := Trap.bind_eq_ok.mp completed
  simp only [Trap.pure_ok, Except.ok.injEq, Prod.mk.injEq] at completed
  obtain ⟨_, rfl, _⟩ := completed
  obtain ⟨first, color, _, rfl, fits, _, small, _⟩ := heap_alloc_ok (by omega) bound allocated
  intro index outside
  rw [set_usage_from_count] at outside
  rw [get_usage_set_from _ _ _ _ small (by omega), if_neg (by omega)]
  exact behind index outside

section Samples

open PagingChecks

/-- A page that was just allocated is grown in place. -/
theorem mem_realloc_preserves_sample : ∃ heap after middle final roots,
    memAlloc sampleMachine sampleHeap 1 pageWritable = .ok (0xC0002000, heap, middle) ∧
      memRealloc middle heap 0xC0002000 2 = .ok (0xC0002000, after, final) ∧
      Reallocated middle final heap after [⟨0, 1⟩] roots ⟨0, 1⟩ 2 0xC0002000 := by
  obtain ⟨⟨ptr, heap, middle⟩, first, passed⟩ := returns_with_iff.1
    (by decide +kernel : returnsWith (memAlloc sampleMachine sampleHeap 1 pageWritable) (fun result =>
      (result.1 = 0xC0002000 ∧ result.2.1.heapStart = 0xC0002000) ∧
      returnsWith (memRealloc result.2.2 result.2.1 0xC0002000 2)
        (fun moved => moved.1 = 0xC0002000)) = true)
  obtain ⟨⟨rfl, start⟩, passed⟩ := of_decide_eq_true passed
  obtain ⟨⟨newPtr, after, final⟩, second, same⟩ := returns_with_iff.1 passed
  obtain rfl : newPtr = 0xC0002000 := of_decide_eq_true same
  have empty : Lockstep ⟨sampleMachine, sampleHeap, []⟩ :=
    lockstep_empty (by decide) (by decide) (by decide) (by decide +kernel)
  have kept := mem_alloc_kept ⟨empty, _, _, sample_housed⟩ (by decide) first
  obtain ⟨lockstep, roots, frames, housed⟩ := kept
  have offset : pageOffset sampleHeap 0xC0002000 = 0 := by decide
  rw [offset] at lockstep
  have behind : FreeBehind sampleHeap := by
    intro index _
    change (0 >>> (6 - 2 * (index % 4))) &&& 3 = 0
    rw [Nat.zero_shiftRight, Nat.zero_and]
  have place : pagePtr heap 0 = 0xC0002000 := by
    rw [pagePtr, start]
    rfl
  refine ⟨heap, after, middle, final, roots, first, second, ?_⟩
  exact mem_realloc_preserves lockstep housed (mem_alloc_behind behind (by decide) first)
    List.mem_cons_self (by decide) (by decide) (by rw [place]; exact second)

end Samples

end Reallocation

end ParadiseOS.HeapContents
