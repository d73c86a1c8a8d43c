import ParadiseOS.HeapContents
import ParadiseOS.MapReturns
import ParadiseOS.ProgramLayout

/-!
# Loading a program

`exec_sun` fills a new address space: its pages are backed by free frames, the sections
are copied in, and the control block is written. All of it happens behind pages of the
user half that nobody else has, so that other address spaces do not change.
-/

namespace ParadiseOS.ProgramLoading

open FrameLedger FrameSteps HeapContents MachineWord MemModel NewDirectory PagingMaps PagingModel
open PagingSteps ProcessModel TwoLevelPaging

set_option autoImplicit false

section Pages

/-- The pages of the user half that `new_page_dir` leaves empty. -/
def UserPage (page : Nat) : Prop := 1024 ≤ page ∧ page < 1024 * kernelPdiStart

/-- The second page of the mailbox, which has no frame of its own. -/
def linkedPage : Nat := mailboxDataAddr / 4096 + 1

def OwnPage (page : Nat) : Prop := UserPage page ∧ page ≠ linkedPage

theorem user_page_bounds {page : Nat} (user : UserPage page) : 1024 ≤ page ∧ page < 786432 := user

theorem linked_page_eq : linkedPage = 1040 := by decide

end Pages

section Writing

/-- Backed pages keep their entries, and their bytes but for the written ones. -/
structure Wrote (machine next : Machine) (pages : List Nat) (written : Nat → Prop) : Prop where
  entries : ∀ page ∈ pages, pageEntry next.memory next.cr3 page = pageEntry machine.memory machine.cr3 page
  bytes : ∀ vaddr, vaddr / 4096 ∈ pages → ¬ written vaddr → byteAt next vaddr = byteAt machine vaddr

variable {machine middle next : Machine} {pages more : List Nat} {written later : Nat → Prop}

theorem wrote_refl (machine : Machine) (pages : List Nat) (written : Nat → Prop) :
    Wrote machine machine pages written :=
  ⟨fun _ _ => rfl, fun _ _ _ => rfl⟩

theorem wrote_trans (subset : pages ⊆ more) (first : Wrote machine middle pages written)
    (second : Wrote middle next more written) : Wrote machine next pages written where
  entries page member := (second.entries page (subset member)).trans (first.entries page member)
  bytes vaddr member untouched :=
    (second.bytes vaddr (subset member) untouched).trans (first.bytes vaddr member untouched)

theorem wrote_mono (wrote : Wrote machine next pages written) (wider : ∀ vaddr, written vaddr → later vaddr) :
    Wrote machine next pages later where
  entries := wrote.entries
  bytes vaddr member untouched := wrote.bytes vaddr member fun here => untouched (wider vaddr here)

theorem wrote_of_untouched (untouched : Untouched machine next (· ∈ pages)) (written : Nat → Prop) :
    Wrote machine next pages written where
  entries page member := (untouched page member).1
  bytes _ member _ := untouched_byte untouched member

end Writing

/-- Page tables of the user half let user mode through. -/
def UserTables (machine : Machine) : Prop :=
  ∀ index, 1 ≤ index → index < kernelPdiStart → Present (directoryEntry machine.memory machine.cr3 index) →
    UserMode (directoryEntry machine.memory machine.cr3 index)

/-- The new address space between two steps: `first` is what it started from, `link` the entry
of the mailbox's second page. -/
structure Growing (start : Machine) (first : Ledger) (link : Nat) (machine : Machine) (ledger : Ledger) :
    Prop where
  balanced : Balanced OwnPage first.free (u32 (start.usedFrames + first.free.length)) machine ledger
  globals : SameGlobals start machine
  roots : ledger.roots = first.roots
  current : start.cr3 ∈ first.roots
  spares : Spares (· ∈ first.free) start machine first ledger UserPage
  directories : ∀ root ∈ first.roots, ∀ index < 1024,
    ¬ (root = start.cr3 ∧ 1 ≤ index ∧ index < kernelPdiStart) →
    directoryEntry machine.memory root index = directoryEntry start.memory root index
  kernelHalf : kernelPdiStart ≤ windowPage start / 1024
  userTables : UserTables machine
  linked : pageEntry machine.memory machine.cr3 linkedPage = link

/-- A step of the loading. -/
structure Advance (start : Machine) (first : Ledger) (link : Nat) (machine next : Machine)
    (ledger after : Ledger) (written : Nat → Prop) : Prop where
  growing : Growing start first link next after
  pages : ledger.pages ⊆ after.pages
  wrote : Wrote machine next ledger.pages written

section Steps

variable {start machine middle next : Machine} {first ledger between after : Ledger}
  {written later : Nat → Prop} {link before vaddr page flags : Nat}

theorem advance_refl (growing : Growing start first link machine ledger) (written : Nat → Prop) :
    Advance start first link machine machine ledger ledger written :=
  ⟨growing, fun _ => id, wrote_refl machine _ _⟩

theorem advance_trans (early : Advance start first before machine middle ledger between written)
    (late : Advance start first link middle next between after written) :
    Advance start first link machine next ledger after written :=
  ⟨late.growing, fun _ member => late.pages (early.pages member),
    wrote_trans early.pages early.wrote late.wrote⟩

theorem advance_mono (advance : Advance start first link machine next ledger after written)
    (wider : ∀ vaddr, written vaddr → later vaddr) :
    Advance start first link machine next ledger after later :=
  ⟨advance.growing, advance.pages, wrote_mono advance.wrote wider⟩

theorem growing_cr3 (growing : Growing start first link machine ledger) : machine.cr3 = start.cr3 :=
  same_globals_cr3 growing.globals

/-- Steps that spare the others go on from what was spared before. -/
theorem growing_spares {more touched : Nat → Prop} (growing : Growing start first link machine ledger)
    (spares : Spares more machine next ledger after touched) (kept : ∀ frame, more frame → frame ∈ first.free)
    (inside : ∀ page, touched page → UserPage page) : Spares (· ∈ first.free) start next first after UserPage :=
  spares_trans growing.current (fun _ member => growing.roots.symm ▸ member) (growing_cr3 growing)
    (same_globals_window growing.globals) growing.spares (spares_mono spares kept inside)

theorem own_frame_free (growing : Growing start first link machine ledger) (member : page ∈ ledger.pages) :
    backingFrame machine page ∈ first.free := by
  apply growing.balanced.accounts.mem_iff.1
  exact List.mem_append_right _ (List.mem_append_left _ (List.mem_map_of_mem member))

theorem user_page_index (user : UserPage page) : 1 ≤ page / 1024 ∧ page / 1024 < kernelPdiStart := by
  obtain ⟨low, high⟩ := user_page_bounds user
  have start : kernelPdiStart = 768 := rfl
  omega

end Steps

section Returning

variable {Value Result : Type} {first : Except Trap Value} {next : Value → Except Trap Result}

def Returns (outcome : Except Trap Value) : Prop := ∃ value, outcome = .ok value

theorem returns_first (returned : Returns (first >>= next)) : Returns first := by
  obtain ⟨result, completed⟩ := returned
  obtain ⟨value, here, _⟩ := Trap.bind_eq_ok.mp completed
  exact ⟨value, here⟩

theorem returns_after {value : Value} (here : first = .ok value) :
    Returns (first >>= next) ↔ Returns (next value) := by
  rw [here, Trap.ok_bind]

end Returning

section Backing

variable {machine middle next : Machine} {roots frames : List Nat} {vaddr flags : Nat}

/-- `alloc_page` needs at most two frames. -/
theorem alloc_page_fills (spaces : Spaces machine roots) (free : FreeList machine roots frames)
    (low : vaddr / 4096 < 1047552) (away : vaddr / 4096 ≠ windowPage machine)
    (absent : ¬ Present (pageEntry machine.memory machine.cr3 (vaddr / 4096)))
    (allowed : flags &&& 4 ≠ 0 → Present (directoryEntry machine.memory machine.cr3 (vaddr / 4096 / 1024)) →
      UserMode (directoryEntry machine.memory machine.cr3 (vaddr / 4096 / 1024)))
    (enough : 2 ≤ frames.length) : ∃ next, allocPage machine vaddr flags = .ok next := by
  obtain ⟨frame, rest, rfl⟩ : ∃ frame rest, frames = frame :: rest :=
    List.exists_cons_of_ne_nil fun none => by simp [none] at enough
  have poppedSpaces : Spaces (popped machine frame) roots := spaces_pop spaces frame _ _
  have poppedFree : FreeList (popped machine frame) roots rest := free_list_pop spaces free _
  have cr3 : (popped machine frame).cr3 = machine.cr3 := rfl
  have directory : directoryEntry (popped machine frame).memory machine.cr3 (vaddr / 4096 / 1024) = _ :=
    popped_directory spaces _ spaces.member (by omega)
  have entry : pageEntry (popped machine frame).memory machine.cr3 (vaddr / 4096) = _ :=
    popped_entry spaces _ spaces.member low away
  obtain ⟨next, mapping⟩ : ∃ next, mapPage (popped machine frame) vaddr frame flags = .ok (false, next) := by
    apply MapReturns.map_page_returns poppedSpaces poppedFree low away
    · rw [cr3, entry]
      exact absent
    · rw [cr3, directory]
      exact allowed
    · rintro _ rfl
      simp at enough
  refine ⟨next, ?_⟩
  rw [allocPage, alloc_frame_ok spaces free, Trap.ok_bind]
  change (mapPage (popped machine frame) vaddr frame flags >>= _) = .ok next
  rw [mapping]
  rfl

/-- Flags of user pages keep their tables open to user mode; other pages need tables that exist. -/
def TablesReady (machine : Machine) (flags first count : Nat) : Prop :=
  flags &&& 4 ≠ 0 ∨
    ∀ page, InRange first count page → Present (directoryEntry machine.memory machine.cr3 (page / 1024))

variable {contributed : List Nat} {total : Nat} {ledger : Ledger}

theorem user_tables_backed {page frame : Nat} {rest : List Nat} (spaces : Spaces machine roots)
    (backed : Backed machine next roots frames rest page frame flags) (userTables : UserTables machine)
    (ready : flags &&& 4 ≠ 0 ∨ Present (directoryEntry machine.memory machine.cr3 (page / 1024))) :
    UserTables next := by
  have cr3 := same_globals_cr3 backed.globals
  intro index low high present
  rw [cr3] at present ⊢
  have start : kernelPdiStart = 768 := rfl
  by_cases made : index = page / 1024 ∧ ¬ Present (directoryEntry machine.memory machine.cr3 (page / 1024))
  · rw [made.1]
    exact backed.userTable (ready.resolve_right made.2)
  · have same := backed.directories _ spaces.member index (by omega) (fun both => made both.2)
    rw [same] at present ⊢
    exact userTables index low high present

/-- `alloc_pages` returns when there are two frames for every page; whenever it does, user mode
gets through the tables. -/
theorem alloc_pages_fills (count : Nat) (balanced : Balanced OwnPage contributed total machine ledger)
    (userTables : UserTables machine) (small : flags < 4096)
    (inside : ∀ page, InRange (vaddr / 4096) count page → OwnPage page)
    (fresh : ∀ page, InRange (vaddr / 4096) count page → page ∉ ledger.pages)
    (ready : TablesReady machine flags (vaddr / 4096) count)
    (runs : 2 * count ≤ ledger.free.length ∨ Returns (allocPages machine vaddr flags count)) :
    ∃ next, allocPages machine vaddr flags count = .ok next ∧ UserTables next := by
  induction count generalizing machine ledger vaddr with
  | zero => exact ⟨machine, rfl, userTables⟩
  | succ count ih =>
      have range : InRange (vaddr / 4096) (count + 1) (vaddr / 4096) := ⟨le_refl _, by omega⟩
      have here := inside _ range
      obtain ⟨indexLow, indexHigh⟩ := user_page_index here.1
      obtain ⟨low, away⟩ := balanced.placed _ here
      have absent := mt (balanced.exact _ here).1 (fresh _ range)
      rw [alloc_pages_succ] at runs
      obtain ⟨middle, filled⟩ : ∃ middle, allocPage machine vaddr flags = .ok middle := by
        rcases runs with enough | returned
        · exact alloc_page_fills balanced.spaces balanced.free low away absent
            (fun _ present => userTables _ indexLow indexHigh present) (by omega)
        · exact returns_first returned
      obtain ⟨frame, rest, _, backed⟩ := alloc_page_ok balanced.spaces balanced.free low small filled
      obtain ⟨tables, held⟩ := balanced_alloc balanced small here backed
      have readyHere := ready.imp_right fun present => present _ range
      have later := user_tables_backed balanced.spaces backed userTables readyHere
      have step : u32 (vaddr + pageSize) = vaddr + 4096 := u32_of_lt (by unfold pageSize; omega)
      have left : ledger.free.length ≤ rest.length + 2 := by
        rcases backed.taken with ⟨_, free, _⟩ | ⟨_, table, free, _⟩
        · rw [free, List.length_cons]
          omega
        · rw [free, List.length_cons, List.length_cons]
      obtain ⟨next, completed, nextTables⟩ := ih held later (fun page inner => inside page (in_range_rest inner))
        (by
          intro page inner member
          rcases List.mem_cons.1 member with same | old
          · unfold InRange at inner
            omega
          · exact fresh page (in_range_rest inner) old)
        (by
          refine ready.imp_right fun present page inner => ?_
          have known := present page (in_range_rest inner)
          have pageLow := (balanced.placed page (inside page (in_range_rest inner))).1
          rw [same_globals_cr3 backed.globals, backed.directories _ balanced.spaces.member _ (by omega)]
          · exact known
          · rintro ⟨_, sameIndex, missing⟩
            exact missing (sameIndex ▸ known))
        (by
          dsimp only
          refine runs.imp (fun enough => by omega) fun returned => ?_
          rw [returns_after filled, step] at returned
          exact returned)
      refine ⟨next, ?_, nextTables⟩
      rw [alloc_pages_succ, filled, Trap.ok_bind, step]
      exact completed

end Backing

section Advancing

variable {start machine next : Machine} {first ledger : Ledger} {link vaddr page flags : Nat}

theorem linked_page_away (growing : Growing start first link machine ledger) :
    linkedPage ≠ windowPage machine := by
  have high := growing.kernelHalf
  have start : kernelPdiStart = 768 := rfl
  rw [same_globals_window growing.globals, linked_page_eq]
  omega

/-- Backing a range of pages writes nothing that is in sight. -/
theorem alloc_pages_advance (count : Nat) (growing : Growing start first link machine ledger)
    (small : flags < 4096) (inside : ∀ page, InRange (vaddr / 4096) count page → OwnPage page)
    (fresh : ∀ page, InRange (vaddr / 4096) count page → page ∉ ledger.pages)
    (ready : TablesReady machine flags (vaddr / 4096) count)
    (runs : 2 * count ≤ ledger.free.length ∨ Returns (allocPages machine vaddr flags count)) :
    ∃ next after, allocPages machine vaddr flags count = .ok next ∧
      Advance start first link machine next ledger after (fun _ => False) ∧
      Extended (fun _ => False) machine next ledger after flags (vaddr / 4096) count := by
  have cr3 := growing_cr3 growing
  obtain ⟨next, completed, userTables⟩ :=
    alloc_pages_fills count growing.balanced growing.userTables small inside fresh ready runs
  obtain ⟨after, held, extended⟩ :=
    alloc_pages_extended count (fun _ => False) growing.balanced small inside completed
  obtain ⟨untouched, _⟩ := alloc_pages_contents count growing.balanced small inside completed
  refine ⟨next, after, completed, ⟨⟨held, same_globals_trans growing.globals extended.carried.globals,
    extended.carried.roots.trans growing.roots, growing.current, ?_, ?_, growing.kernelHalf, userTables, ?_⟩, ?_,
    wrote_of_untouched untouched _⟩, extended⟩
  · exact growing_spares growing extended.spares (fun _ none => none.elim) fun page range => (inside page range).1
  · intro root isRoot index high apart
    rw [← growing.directories root isRoot index high apart]
    apply extended.carried.entries root (growing.roots.symm ▸ isRoot) index high
    rintro ⟨isCurrent, _, page, range, rfl⟩
    exact apart ⟨isCurrent.trans cr3, user_page_index (inside page range).1⟩
  · rw [← growing.linked, same_globals_cr3 extended.carried.globals]
    apply extended.spares.entries _ growing.balanced.spaces.member _ (by decide) (linked_page_away growing)
    exact fun touched => (inside _ touched.1).2 rfl
  · exact fun page member => (extended.pages page).2 (.inl member)

/-- The contents of a backed page change. -/
theorem growing_rewritten (growing : Growing start first link machine ledger) (member : page ∈ ledger.pages)
    (rewritten : Rewritten machine next (backingFrame machine page)) :
    Growing start first link next ledger ∧ ∀ other ∈ ledger.pages,
      pageEntry next.memory next.cr3 other = pageEntry machine.memory machine.cr3 other := by
  have balanced := growing.balanced
  have cr3 := rewritten_cr3 rewritten
  obtain ⟨held, entries⟩ := rewritten_balanced balanced member rewritten
  have globals : SameGlobals machine next := by
    unfold SameGlobals
    rw [rewritten.same]
  have directory : ∀ root ∈ ledger.roots, ∀ index < 1024,
      directoryEntry next.memory root index = directoryEntry machine.memory root index :=
    fun root isRoot index high => rewritten_directory balanced member rewritten isRoot high
  refine ⟨⟨held, same_globals_trans growing.globals globals, growing.roots, growing.current, ?_, ?_,
    growing.kernelHalf, ?_, ?_⟩,
    fun other there => entries other (balanced.placed other (balanced.inside other there)).1⟩
  · have spares : Spares (· ∈ first.free) machine next ledger ledger UserPage := by
      apply spares_outside balanced
      intro frame aligned apart
      apply rewritten.elsewhere frame aligned
      rintro rfl
      rcases apart with used | foreign
      · exact balanced.apart page member used
      · exact foreign (own_frame_free growing member)
    exact growing_spares growing spares (fun _ => id) fun _ => id
  · intro root isRoot index high apart
    rw [directory root (growing.roots.symm ▸ isRoot) index high]
    exact growing.directories root isRoot index high apart
  · intro index low high
    have start : kernelPdiStart = 768 := rfl
    rw [cr3, directory _ balanced.spaces.member index (by omega)]
    exact growing.userTables index low high
  · rw [entries _ (by decide)]
    exact growing.linked

/-- Storing a byte in a backed page. -/
theorem store_byte_advance (growing : Growing start first link machine ledger)
    (member : vaddr / 4096 ∈ ledger.pages) (byte : UInt8) :
    ∃ next, storeByte machine vaddr byte = .ok next ∧
      Advance start first link machine next ledger ledger (· = vaddr) ∧ byteAt next vaddr = byte := by
  have balanced := growing.balanced
  obtain ⟨next, stored⟩ : ∃ next, storeByte machine vaddr byte = .ok next := by
    rw [storeByte, physical, page_translate balanced member]
    exact ⟨_, rfl⟩
  have changed := store_byte_eq balanced member stored
  have rewritten : Rewritten machine next (backingFrame machine (vaddr / 4096)) := by
    refine ⟨by rw [changed], ?_⟩
    intro other aligned differ
    exact store_byte_elsewhere balanced member stored aligned differ
  obtain ⟨held, entries⟩ := growing_rewritten growing member rewritten
  refine ⟨next, stored, ⟨held, fun _ => id, entries, ?_⟩, ?_⟩
  · intro other there differ
    rw [store_byte_contents balanced member stored there, if_neg differ]
  · rw [store_byte_contents balanced member stored member, if_pos rfl]

/-- `pmemcpy` into backed pages. -/
theorem store_bytes_advance (bytes : List UInt8) (growing : Growing start first link machine ledger)
    (inside : ∀ i < bytes.length, (vaddr + i) / 4096 ∈ ledger.pages) :
    ∃ next, storeBytes machine vaddr bytes = .ok next ∧
      Advance start first link machine next ledger ledger
        (fun other => vaddr ≤ other ∧ other < vaddr + bytes.length) ∧
      ∀ i byte, bytes[i]? = some byte → byteAt next (vaddr + i) = byte := by
  induction bytes generalizing machine vaddr with
  | nil => exact ⟨machine, rfl, advance_refl growing _, by simp⟩
  | cons byte bytes ih =>
      have sized : (byte :: bytes).length = bytes.length + 1 := List.length_cons
      have member : vaddr / 4096 ∈ ledger.pages := by simpa using inside 0 (by omega)
      obtain ⟨middle, stored, advance, arrived⟩ := store_byte_advance growing member byte
      have low := user_page_bounds (growing.balanced.inside _ member).1
      have step : u32 (vaddr + 1) = vaddr + 1 := u32_of_lt (by omega)
      have later : ∀ i < bytes.length, (vaddr + 1 + i) / 4096 ∈ ledger.pages := by
        intro i small
        have place : vaddr + 1 + i = vaddr + (i + 1) := by omega
        rw [place]
        exact inside (i + 1) (by omega)
      obtain ⟨next, completed, rest, contents⟩ := ih advance.growing later
      refine ⟨next, ?_, ?_, ?_⟩
      · rw [storeBytes, stored, Trap.ok_bind, step]
        exact completed
      · refine advance_trans (advance_mono advance ?_) (advance_mono rest ?_)
        · rintro other rfl
          omega
        · intro other range
          omega
      · intro i found
        cases i with
        | zero =>
            rintro ⟨⟩
            rw [← arrived]
            exact rest.wrote.bytes vaddr member (by omega)
        | succ i =>
            intro here
            have place : vaddr + (i + 1) = vaddr + 1 + i := by omega
            rw [place]
            exact contents i found here

end Advancing

section Words

/-- The word that the current address space shows at an address. -/
def wordAt (machine : Machine) (vaddr : Nat) : Nat :=
  wordOf (byteAt machine vaddr) (byteAt machine (vaddr + 1)) (byteAt machine (vaddr + 2))
    (byteAt machine (vaddr + 3))

def pcbPage : Nat := pcbAddr / 4096

/-- A word of the control block. -/
def pcbWord (machine : Machine) (offset : Nat) : Nat := wordAt machine (pcbAddr + offset)

/-- Fields of the control block, one after the other. -/
def storeFields (machine : Machine) : List (Nat × Nat) → Except Trap Machine
  | [] => .ok machine
  | (offset, word) :: fields => do
      let machine ← storePcb machine offset word
      storeFields machine fields

/-- What a field holds after stores: the last one counts. -/
def fieldWord (word : Nat) : List (Nat × Nat) → Nat → Nat
  | [], _ => word
  | (other, stored) :: fields, offset => fieldWord (if other = offset then stored else word) fields offset

variable {start machine next : Machine} {first ledger : Ledger} {link vaddr word : Nat} {pages : List Nat}
  {written : Nat → Prop}

theorem word_at_eq (inside : vaddr % 4096 ≤ 4092) :
    wordAt machine vaddr = readWord machine.memory (backingFrame machine (vaddr / 4096) + vaddr % 4096) := by
  have byte : ∀ i < 4, byteAt machine (vaddr + i) =
      machine.memory (backingFrame machine (vaddr / 4096) + vaddr % 4096 + i) := by
    intro i small
    have quotient : (vaddr + i) / 4096 = vaddr / 4096 := by omega
    have remainder : (vaddr + i) % 4096 = vaddr % 4096 + i := by omega
    rw [byteAt, quotient, remainder, Nat.add_assoc]
  have zero := byte 0 (by decide)
  rw [Nat.add_zero, Nat.add_zero] at zero
  rw [wordAt, readWord, zero, byte 1 (by decide), byte 2 (by decide), byte 3 (by decide)]

theorem wrote_word (wrote : Wrote machine next pages written) (member : vaddr / 4096 ∈ pages)
    (inside : vaddr % 4096 ≤ 4092) (untouched : ∀ i < 4, ¬ written (vaddr + i)) :
    wordAt next vaddr = wordAt machine vaddr := by
  have byte : ∀ i < 4, byteAt next (vaddr + i) = byteAt machine (vaddr + i) := by
    intro i small
    have quotient : (vaddr + i) / 4096 = vaddr / 4096 := by omega
    exact wrote.bytes _ (quotient.symm ▸ member) (untouched i small)
  have zero := byte 0 (by decide)
  rw [Nat.add_zero] at zero
  rw [wordAt, wordAt, zero, byte 1 (by decide), byte 2 (by decide), byte 3 (by decide)]

/-- Storing a word in a backed page. -/
theorem store_word_advance (growing : Growing start first link machine ledger)
    (member : vaddr / 4096 ∈ ledger.pages) (inside : vaddr % 4096 ≤ 4092) (bounded : word < 4294967296) :
    ∃ next, storeWord machine vaddr word = .ok next ∧
      Advance start first link machine next ledger ledger (fun other => vaddr ≤ other ∧ other < vaddr + 4) ∧
      wordAt next vaddr = word := by
  have balanced := growing.balanced
  have low := user_page_bounds (balanced.inside _ member).1
  have found := page_translate balanced member
  have aligned := frame_of_aligned (pageEntry machine.memory machine.cr3 (vaddr / 4096))
  obtain ⟨next, isNext⟩ : ∃ next, next = { machine with
      memory := writeWord machine.memory (backingFrame machine (vaddr / 4096) + vaddr % 4096) word } := ⟨_, rfl⟩
  have stored : storeWord machine vaddr word = .ok next := by
    rw [store_word_at found inside (by omega), isNext]
  have rewritten : Rewritten machine next (backingFrame machine (vaddr / 4096)) := by
    refine ⟨by rw [isNext], ?_⟩
    intro other otherAligned differ
    rw [isNext]
    exact write_same_on aligned otherAligned (by omega) differ
  obtain ⟨held, entries⟩ := growing_rewritten growing member rewritten
  have frames : ∀ page ∈ ledger.pages, backingFrame next page = backingFrame machine page :=
    fun page there => congrArg frameOf (entries page there)
  refine ⟨next, stored, ⟨held, fun _ => id, entries, ?_⟩, ?_⟩
  · intro other there apart
    have otherAligned := frame_of_aligned (pageEntry machine.memory machine.cr3 (other / 4096))
    rw [byteAt, byteAt, frames _ there, isNext]
    apply write_word_apart
    by_cases same : other / 4096 = vaddr / 4096
    · rw [same]
      omega
    · have differ : backingFrame machine (other / 4096) ≠ backingFrame machine (vaddr / 4096) :=
        fun equal => same (balanced.own _ there _ member equal)
      unfold backingFrame at differ ⊢
      omega
  · rw [word_at_eq inside, frames _ member, isNext]
    exact read_write_same bounded

theorem load_word_backed (growing : Growing start first link machine ledger)
    (member : vaddr / 4096 ∈ ledger.pages) (inside : vaddr % 4096 ≤ 4092) :
    loadWord machine vaddr = .ok (wordAt machine vaddr) := by
  have low := user_page_bounds (growing.balanced.inside _ member).1
  rw [word_at_eq inside]
  exact load_word_at (page_translate growing.balanced member) inside (by omega)

/-- A field of the control block is a word of its page. -/
def PageField (field : Nat × Nat) : Prop := field.1 % 4 = 0 ∧ field.1 ≤ 4092 ∧ field.2 < 4294967296

theorem pcb_place {offset : Nat} (small : offset ≤ 4092) :
    (pcbAddr + offset) / 4096 = pcbPage ∧ (pcbAddr + offset) % 4096 = offset := by
  have place : pcbAddr = 0x40E000 := by decide
  have page : pcbPage = 1038 := by decide
  omega

/-- Stores to fields change these fields and nothing else. -/
theorem store_fields_advance (fields : List (Nat × Nat)) (growing : Growing start first link machine ledger)
    (member : pcbPage ∈ ledger.pages) (isField : ∀ field ∈ fields, PageField field) :
    ∃ next, storeFields machine fields = .ok next ∧
      Advance start first link machine next ledger ledger
        (fun other => ∃ field ∈ fields, pcbAddr + field.1 ≤ other ∧ other < pcbAddr + field.1 + 4) ∧
      ∀ offset, offset % 4 = 0 → offset ≤ 4092 →
        pcbWord next offset = fieldWord (pcbWord machine offset) fields offset := by
  induction fields generalizing machine with
  | nil => exact ⟨machine, rfl, advance_refl growing _, fun _ _ _ => rfl⟩
  | cons field fields ih =>
      obtain ⟨offset, word⟩ := field
      obtain ⟨aligned, small, bounded⟩ : offset % 4 = 0 ∧ offset ≤ 4092 ∧ word < 4294967296 :=
        isField _ List.mem_cons_self
      obtain ⟨page, place⟩ := pcb_place small
      obtain ⟨middle, stored, advance, arrived⟩ :=
        store_word_advance growing (page.symm ▸ member) (place.symm ▸ small) bounded
      obtain ⟨next, completed, rest, words⟩ :=
        ih advance.growing fun other there => isField other (List.mem_cons_of_mem _ there)
      refine ⟨next, ?_, advance_trans (advance_mono advance ?_) (advance_mono rest ?_), ?_⟩
      · rw [storeFields, storePcb, stored, Trap.ok_bind]
        exact completed
      · intro other range
        exact ⟨_, List.mem_cons_self, range⟩
      · rintro other ⟨later, there, range⟩
        exact ⟨later, List.mem_cons_of_mem _ there, range⟩
      · intro other otherAligned otherSmall
        have here : pcbWord middle other = if offset = other then word else pcbWord machine other := by
          split_ifs with same
          · rw [← same]
            exact arrived
          · obtain ⟨otherPage, otherPlace⟩ := pcb_place otherSmall
            apply wrote_word advance.wrote (otherPage.symm ▸ member) (otherPlace.symm ▸ otherSmall)
            intro i few range
            omega
        rw [words other otherAligned otherSmall, fieldWord, here]

end Words

section Linking

variable {region : Nat → Prop} {contributed : List Nat} {total : Nat} {start machine : Machine}
  {first ledger : Ledger} {page word link : Nat}

/-- The slot of a page outside the region is nobody's bookkeeping. -/
theorem balanced_fill_slot (balanced : Balanced region contributed total machine ledger)
    (outside : ¬ region page) (low : page < 1047552) (away : page ≠ windowPage machine)
    (present : Present (directoryEntry machine.memory machine.cr3 (page / 1024)))
    (bounded : word < 4294967296) : Balanced region contributed total (fillSlot machine page word) ledger := by
  have spaces := balanced.spaces
  have kept := kept_fill_slot spaces balanced.free low present bounded away
  have entry : ∀ other, region other → pageEntry (fillSlot machine page word).memory machine.cr3 other =
      pageEntry machine.memory machine.cr3 other := by
    intro other within
    rw [fill_slot_entry spaces low present bounded spaces.member (balanced.placed other within).1, if_neg]
    rintro ⟨rfl, _⟩
    exact outside within
  have frames : ∀ other ∈ ledger.pages,
      backingFrame (fillSlot machine page word) other = backingFrame machine other :=
    fun other member => congrArg frameOf (entry other (balanced.inside other member))
  have directory : ∀ root ∈ ledger.roots, ∀ index < 1024,
      directoryEntry (fillSlot machine page word).memory root index = directoryEntry machine.memory root index :=
    fun root isRoot index high =>
      directory_entry_same_on (slot_write_roots spaces.family spaces.member low present root isRoot) high
  refine ⟨kept.spaces, kept.free, ?_, balanced.placed, ?_, balanced.inside, balanced.nodup, ?_, ?_, ?_, ?_,
    balanced.directories, ?_, balanced.usage⟩
  · rw [kept_cr3 kept, directory _ spaces.member 0 (by decide)]
    exact balanced.low
  · intro other within
    rw [kept_cr3 kept, entry other within]
    exact balanced.exact other within
  · intro other member
    rw [frames other member]
    exact balanced.positive other member
  · intro other member used
    rw [frames other member] at used
    exact balanced.apart other member ((kept.inUse _).1 used)
  · intro other member another there same
    rw [frames other member, frames another there] at same
    exact balanced.own other member another there same
  · intro frame listed
    obtain ⟨root, isRoot, index, indexLow, there, same⟩ := balanced.tables frame listed
    have kept := directory root isRoot index (by omega)
    exact ⟨root, isRoot, index, indexLow, kept ▸ there, kept ▸ same⟩
  · rw [List.map_congr_left frames]
    exact balanced.accounts

/-- `link_page` gives the mailbox's second page the frame of its first. -/
theorem link_page_advance (growing : Growing start first 0 machine ledger)
    (member : mailboxDataAddr / 4096 ∈ ledger.pages) :
    ∃ next, linkPage machine (u32 (mailboxDataAddr + pageSize)) mailboxDataAddr = .ok next ∧
      Advance start first (pageEntry machine.memory machine.cr3 (mailboxDataAddr / 4096)) machine next ledger
        ledger (fun _ => False) := by
  have balanced := growing.balanced
  have spaces := balanced.spaces
  have cr3 := growing_cr3 growing
  have away := linked_page_away growing
  obtain ⟨entry, isEntry⟩ : ∃ entry, entry = pageEntry machine.memory machine.cr3 (mailboxDataAddr / 4096) :=
    ⟨_, rfl⟩
  have there : Present entry := isEntry ▸ page_present balanced member
  have bounded : entry < 4294967296 := isEntry ▸ page_entry_lt _ _ _
  have target : u32 (mailboxDataAddr + pageSize) / 4096 = linkedPage := by decide
  have table : Present (directoryEntry machine.memory machine.cr3 (linkedPage / 1024)) := by
    have shared : linkedPage / 1024 = mailboxDataAddr / 4096 / 1024 := by decide
    rw [shared]
    exact page_entry_present (isEntry ▸ there)
  have user : UserMode (directoryEntry machine.memory machine.cr3 (linkedPage / 1024)) :=
    growing.userTables _ (by decide) (by decide) table
  have absent : ¬ Present (pageEntry machine.memory machine.cr3 linkedPage) := by
    rw [growing.linked]
    exact not_present_zero
  have restored : createEntry (getPaddr entry) (getFlags entry) = entry := create_entry_restores bounded there
  have mapping : mapPage machine (u32 (mailboxDataAddr + pageSize)) (getPaddr entry) (getFlags entry) =
      .ok (false, fillSlot machine linkedPage entry) := by
    rw [map_page_table spaces.selfMapped (u32_lt _) (target.symm ▸ table), target, if_neg, if_neg absent, restored]
    · rfl
    · exact fun refused => (get_flags_user_iff _).2 user refused.2
  have kept := kept_fill_slot spaces balanced.free (by decide) table bounded away
  have untouched : Untouched machine (fillSlot machine linkedPage entry) (· ∈ ledger.pages) := by
    intro page inside
    have region := balanced.inside page inside
    refine ⟨?_, kept.outside _ (frame_of_aligned _) (balanced.apart page inside)⟩
    rw [kept_cr3 kept, fill_slot_entry spaces (by decide) table bounded spaces.member (balanced.placed page region).1,
      if_neg]
    exact fun both => region.2 both.1
  refine ⟨fillSlot machine linkedPage entry, ?_, ⟨⟨?_, ?_, growing.roots, growing.current, ?_, ?_,
    growing.kernelHalf, ?_, ?_⟩, fun _ => id, wrote_of_untouched untouched _⟩⟩
  · rw [linkPage, get_entry_ok spaces.selfMapped (by decide), Trap.ok_bind, ← isEntry, mapping]
    rfl
  · exact balanced_fill_slot balanced (fun own => own.2 rfl) (by decide) away table bounded
  · exact same_globals_trans growing.globals rfl
  · have spares : Spares (· ∈ first.free) machine (fillSlot machine linkedPage entry) ledger ledger
        (· = linkedPage) := spares_fill_slot _ spaces balanced.free (by decide) table bounded away
    apply growing_spares growing spares fun _ => id
    rintro page rfl
    exact ⟨by decide, by decide⟩
  · intro root isRoot index high apart
    rw [← growing.directories root isRoot index high apart]
    exact directory_entry_same_on
      (slot_write_roots spaces.family spaces.member (by decide) table root (growing.roots.symm ▸ isRoot)) high
  · intro index low high
    have start : kernelPdiStart = 768 := rfl
    have same : directoryEntry (fillSlot machine linkedPage entry).memory machine.cr3 index =
        directoryEntry machine.memory machine.cr3 index :=
      directory_entry_same_on (slot_write_roots spaces.family spaces.member (by decide) table _ spaces.member)
        (by omega)
    rw [kept_cr3 kept, same]
    exact growing.userTables index low high
  · rw [kept_cr3 kept, fill_slot_entry spaces (by decide) table bounded spaces.member (by decide),
      if_pos ⟨rfl, .inl rfl⟩, isEntry]

end Linking

end ParadiseOS.ProgramLoading
