import Mathlib.Data.List.Basic
import Mathlib.Tactic.SplitIfs

/-!
# Two-level page tables that map themselves

Physical memory is a map from addresses to bytes. A directory is a frame of 1024
words, each the entry of a table of 1024 words, and an address space is known by
the address of its directory. A directory whose last entry leads back to itself
lets the words of all its tables be reached through the last 4 MiB of the address
space. `Family` collects what keeps several directories over one memory from
damaging each other when one of their words is written.
-/

namespace ParadiseOS.TwoLevelPaging

set_option autoImplicit false

abbrev Memory := Nat → UInt8

section Words

variable {memory : Memory} {addr other word : Nat}

/-- The word with the given bytes, lowest first. -/
def wordOf (first second third fourth : UInt8) : Nat :=
  first.toNat + 256 * second.toNat + 65536 * third.toNat + 16777216 * fourth.toNat

def readWord (memory : Memory) (addr : Nat) : Nat :=
  wordOf (memory addr) (memory (addr + 1)) (memory (addr + 2)) (memory (addr + 3))

/-- Stores the bytes of a word at four addresses. -/
def writeBytes (memory : Memory) (first second third fourth word : Nat) : Memory := fun cell =>
  if cell = first then UInt8.ofNat word
  else if cell = second then UInt8.ofNat (word / 256)
  else if cell = third then UInt8.ofNat (word / 65536)
  else if cell = fourth then UInt8.ofNat (word / 16777216)
  else memory cell

def writeWord (memory : Memory) (addr word : Nat) : Memory :=
  writeBytes memory addr (addr + 1) (addr + 2) (addr + 3) word

/-- Fills a number of bytes with zeros. -/
def zeroBytes (memory : Memory) (addr count : Nat) : Memory := fun cell =>
  if addr ≤ cell ∧ cell < addr + count then 0 else memory cell

def zeroFrame (memory : Memory) (frame : Nat) : Memory := zeroBytes memory frame 4096

theorem read_word_lt (memory : Memory) (addr : Nat) : readWord memory addr < 4294967296 := by
  have first := (memory addr).toNat_lt
  have second := (memory (addr + 1)).toNat_lt
  have third := (memory (addr + 2)).toNat_lt
  have fourth := (memory (addr + 3)).toNat_lt
  unfold readWord wordOf
  omega

theorem read_word_congr {changed : Memory}
    (same : ∀ offset < 4, changed (addr + offset) = memory (addr + offset)) :
    readWord changed addr = readWord memory addr := by
  have first := same 0 (by decide)
  have second := same 1 (by decide)
  have third := same 2 (by decide)
  have fourth := same 3 (by decide)
  rw [Nat.add_zero] at first
  rw [readWord, first, second, third, fourth]
  rfl

theorem write_word_apart (apart : other < addr ∨ addr + 4 ≤ other) :
    writeWord memory addr word other = memory other := by
  rw [writeWord, writeBytes, if_neg (by omega), if_neg (by omega), if_neg (by omega),
    if_neg (by omega)]

/-- The bytes written do not depend on the memory before. -/
theorem write_word_inside {rest : Memory} (low : addr ≤ other) (high : other < addr + 4) :
    writeWord rest addr word other = writeWord memory addr word other := by
  unfold writeWord writeBytes
  split_ifs
  · rfl
  · rfl
  · rfl
  · rfl
  · omega

theorem word_of_bytes (bounded : word < 4294967296) :
    wordOf (UInt8.ofNat word) (UInt8.ofNat (word / 256)) (UInt8.ofNat (word / 65536))
      (UInt8.ofNat (word / 16777216)) = word := by
  simp only [wordOf, UInt8.toNat_ofNat']
  omega

theorem read_write_same (bounded : word < 4294967296) :
    readWord (writeWord memory addr word) addr = word := by
  have first : writeWord memory addr word addr = UInt8.ofNat word := if_pos rfl
  have second : writeWord memory addr word (addr + 1) = UInt8.ofNat (word / 256) := by
    rw [writeWord, writeBytes, if_neg (by omega), if_pos rfl]
  have third : writeWord memory addr word (addr + 2) = UInt8.ofNat (word / 65536) := by
    rw [writeWord, writeBytes, if_neg (by omega), if_neg (by omega), if_pos rfl]
  have fourth : writeWord memory addr word (addr + 3) = UInt8.ofNat (word / 16777216) := by
    rw [writeWord, writeBytes, if_neg (by omega), if_neg (by omega), if_neg (by omega), if_pos rfl]
  rw [readWord, first, second, third, fourth, word_of_bytes bounded]

theorem read_write_apart (apart : other + 4 ≤ addr ∨ addr + 4 ≤ other) :
    readWord (writeWord memory addr word) other = readWord memory other := by
  apply read_word_congr
  intro offset small
  exact write_word_apart (by omega)

/-- Words at different aligned addresses do not overlap. -/
theorem read_write_aligned (first : addr % 4 = 0) (second : other % 4 = 0) (differ : other ≠ addr) :
    readWord (writeWord memory addr word) other = readWord memory other :=
  read_write_apart (by omega)

theorem write_word_self (bounded : readWord memory addr = word) :
    writeWord memory addr word = memory := by
  have first := (memory addr).toNat_lt
  have second := (memory (addr + 1)).toNat_lt
  have third := (memory (addr + 2)).toNat_lt
  have fourth := (memory (addr + 3)).toNat_lt
  have value : word = (memory addr).toNat + 256 * (memory (addr + 1)).toNat +
      65536 * (memory (addr + 2)).toNat + 16777216 * (memory (addr + 3)).toNat := bounded.symm
  funext cell
  unfold writeWord writeBytes
  split_ifs with atFirst atSecond atThird atFourth
  · rw [atFirst, ← UInt8.toNat_inj, UInt8.toNat_ofNat']
    omega
  · rw [atSecond, ← UInt8.toNat_inj, UInt8.toNat_ofNat']
    omega
  · rw [atThird, ← UInt8.toNat_inj, UInt8.toNat_ofNat']
    omega
  · rw [atFourth, ← UInt8.toNat_inj, UInt8.toNat_ofNat']
    omega
  · rfl

theorem write_write_same {later : Nat} :
    writeWord (writeWord memory addr word) addr later = writeWord memory addr later := by
  funext cell
  unfold writeWord writeBytes
  split_ifs <;> rfl

/-- Writes to words that do not overlap commute. -/
theorem write_write_comm {later : Nat} (apart : other + 4 ≤ addr ∨ addr + 4 ≤ other) :
    writeWord (writeWord memory addr word) other later =
      writeWord (writeWord memory other later) addr word := by
  funext cell
  by_cases atAddr : addr ≤ cell ∧ cell < addr + 4
  · rw [write_word_apart (by omega), write_word_inside atAddr.1 atAddr.2]
  · rw [write_word_apart (show cell < addr ∨ addr + 4 ≤ cell by omega)]
    by_cases atOther : other ≤ cell ∧ cell < other + 4
    · exact write_word_inside atOther.1 atOther.2
    · rw [write_word_apart (by omega), write_word_apart (by omega), write_word_apart (by omega)]

/-- Writes a list of words, each to its address. -/
def writeAll (memory : Memory) : List (Nat × Nat) → Memory
  | [] => memory
  | (addr, word) :: rest => writeAll (writeWord memory addr word) rest

/-- A write that overlaps none of the list may come last. -/
theorem write_all_comm (rest : List (Nat × Nat))
    (apart : ∀ pair ∈ rest, pair.1 + 4 ≤ addr ∨ addr + 4 ≤ pair.1) :
    writeAll (writeWord memory addr word) rest = writeWord (writeAll memory rest) addr word := by
  induction rest generalizing memory with
  | nil => rfl
  | cons pair rest ih =>
      rw [writeAll, writeAll, write_write_comm (apart pair List.mem_cons_self)]
      exact ih fun other member => apart other (List.mem_cons_of_mem _ member)

/-- Words that were overwritten and written again are as before. -/
theorem write_all_restore (addrs : List Nat) (filler : Nat) (distinct : addrs.Nodup)
    (aligned : ∀ addr ∈ addrs, addr % 4 = 0) :
    writeAll (writeAll memory (addrs.map fun addr => (addr, filler)))
      (addrs.map fun addr => (addr, readWord memory addr)) = memory := by
  induction addrs generalizing memory with
  | nil => rfl
  | cons addr addrs ih =>
      have here := aligned addr List.mem_cons_self
      obtain ⟨absent, distinctRest⟩ := List.nodup_cons.1 distinct
      have alignedRest : ∀ other ∈ addrs, other % 4 = 0 :=
        fun other member => aligned other (List.mem_cons_of_mem _ member)
      have apart : ∀ (word : Nat → Nat), ∀ pair ∈ addrs.map fun other => (other, word other),
          pair.1 + 4 ≤ addr ∨ addr + 4 ≤ pair.1 := by
        intro word pair member
        obtain ⟨other, inside, same⟩ := List.mem_map.1 member
        have differ : other ≠ addr := fun equal => absent (equal ▸ inside)
        have otherAligned := alignedRest other inside
        rw [← same]
        dsimp only
        omega
      rw [List.map_cons, List.map_cons, writeAll, writeAll,
        write_all_comm _ (apart fun _ => filler), write_write_same,
        write_all_comm _ (apart fun other => readWord memory other), ih distinctRest alignedRest,
        write_word_self rfl]

theorem zero_bytes_none : zeroBytes memory addr 0 = memory := by
  funext cell
  exact if_neg (by omega)

/-- Clearing goes on with the next word. -/
theorem zero_bytes_word {count : Nat} :
    writeWord (zeroBytes memory addr count) (addr + count) 0 = zeroBytes memory addr (count + 4) := by
  funext cell
  by_cases here : addr + count ≤ cell ∧ cell < addr + count + 4
  · have cleared : zeroBytes memory addr (count + 4) cell = 0 := if_pos (by omega)
    rw [cleared, writeWord, writeBytes]
    split_ifs
    · rfl
    · rfl
    · rfl
    · rfl
    · omega
  · rw [write_word_apart (by omega), zeroBytes, zeroBytes]
    have same : (addr ≤ cell ∧ cell < addr + count) ↔ (addr ≤ cell ∧ cell < addr + (count + 4)) := by
      omega
    simp only [same]

theorem zero_frame_inside {frame : Nat} (low : frame ≤ addr) (high : addr + 4 ≤ frame + 4096) :
    readWord (zeroFrame memory frame) addr = 0 := by
  unfold readWord zeroFrame zeroBytes
  rw [if_pos (by omega), if_pos (by omega), if_pos (by omega), if_pos (by omega)]
  rfl

theorem zero_frame_apart {frame : Nat} (apart : addr + 4 ≤ frame ∨ frame + 4096 ≤ addr) :
    readWord (zeroFrame memory frame) addr = readWord memory addr := by
  apply read_word_congr
  intro offset small
  exact if_neg (by omega)

end Words

section Translation

/-- The present bit of an entry. -/
def Present (entry : Nat) : Prop := entry % 2 = 1

instance (entry : Nat) : Decidable (Present entry) := inferInstanceAs (Decidable (_ = _))

/-- The user bit of an entry. -/
def UserMode (entry : Nat) : Prop := entry / 4 % 2 = 1

instance (entry : Nat) : Decidable (UserMode entry) := inferInstanceAs (Decidable (_ = _))

/-- The write bit of an entry. -/
def Writable (entry : Nat) : Prop := entry / 2 % 2 = 1

instance (entry : Nat) : Decidable (Writable entry) := inferInstanceAs (Decidable (_ = _))

/-- The frame an entry leads to. -/
def frameOf (entry : Nat) : Nat := entry / 4096 * 4096

def directoryEntry (memory : Memory) (root index : Nat) : Nat := readWord memory (root + 4 * index)

/-- Where the entry of a page is stored, if its table is present. -/
def slot (memory : Memory) (root page : Nat) : Nat :=
  frameOf (directoryEntry memory root (page / 1024)) + 4 * (page % 1024)

/-- The entry of a page, zero if there is no table for it. -/
def pageEntry (memory : Memory) (root page : Nat) : Nat :=
  if Present (directoryEntry memory root (page / 1024)) then readWord memory (slot memory root page)
  else 0

def translate (memory : Memory) (root vaddr : Nat) : Option Nat :=
  let entry := pageEntry memory root (vaddr / 4096)
  if Present entry then some (frameOf entry + vaddr % 4096) else none

/-- The last entry of the directory leads to the directory. -/
def SelfMapped (memory : Memory) (root : Nat) : Prop :=
  Present (directoryEntry memory root 1023) ∧ frameOf (directoryEntry memory root 1023) = root

variable {memory : Memory} {root page : Nat}

@[simp] theorem not_present_zero : ¬ Present 0 := by decide

theorem frame_of_aligned (entry : Nat) : frameOf entry % 4096 = 0 := Nat.mul_mod_left _ _

theorem frame_of_lt {entry : Nat} (bounded : entry < 4294967296) : frameOf entry < 4294963201 := by
  unfold frameOf
  omega

theorem page_entry_lt (memory : Memory) (root page : Nat) :
    pageEntry memory root page < 4294967296 := by
  unfold pageEntry
  split_ifs
  · exact read_word_lt _ _
  · decide

/-- The words of the tables are seen in the last 4 MiB of the address space. -/
theorem translate_self_map (selfMapped : SelfMapped memory root) (bounded : page < 1048576)
    (table : Present (directoryEntry memory root (page / 1024))) :
    translate memory root (0xFFC00000 + 4 * page) = some (slot memory root page) := by
  have quotient : (0xFFC00000 + 4 * page) / 4096 = 1023 * 1024 + page / 1024 := by omega
  have remainder : (0xFFC00000 + 4 * page) % 4096 = 4 * (page % 1024) := by omega
  have index : (1023 * 1024 + page / 1024) / 1024 = 1023 := by omega
  have inner : (1023 * 1024 + page / 1024) % 1024 = page / 1024 := by omega
  have seen : pageEntry memory root (1023 * 1024 + page / 1024) =
      directoryEntry memory root (page / 1024) := by
    rw [pageEntry, index, if_pos selfMapped.1, slot, index, inner, selfMapped.2]
    rfl
  rw [translate, quotient, seen, remainder, if_pos table, slot]

/-- Within a page, translation keeps distances. -/
theorem translate_offset {vaddr paddr : Nat} (offset : Nat) (found : translate memory root vaddr = some paddr)
    (inside : vaddr % 4096 + offset < 4096) :
    translate memory root (vaddr + offset) = some (paddr + offset) := by
  have quotient : (vaddr + offset) / 4096 = vaddr / 4096 := by omega
  have remainder : (vaddr + offset) % 4096 = vaddr % 4096 + offset := by omega
  rw [translate] at found ⊢
  rw [quotient, remainder]
  split_ifs at found with present
  rw [if_pos present, ← Nat.add_assoc]
  exact congrArg (fun found => some (found + offset)) (Option.some.inj found)

theorem translate_page {vaddr : Nat} (present : Present (pageEntry memory root (vaddr / 4096))) :
    translate memory root vaddr =
      some (frameOf (pageEntry memory root (vaddr / 4096)) + vaddr % 4096) := if_pos present

/-- A page of the last 4 MiB has a directory entry for its entry. -/
theorem page_entry_self_map (selfMapped : SelfMapped memory root) {index : Nat} (bounded : index < 1024) :
    pageEntry memory root (1023 * 1024 + index) = directoryEntry memory root index := by
  have outer : (1023 * 1024 + index) / 1024 = 1023 := by omega
  have inner : (1023 * 1024 + index) % 1024 = index := by omega
  rw [pageEntry, outer, if_pos selfMapped.1, slot, outer, inner, selfMapped.2]
  rfl

end Translation

section Frames

variable {memory changed : Memory} {roots : List Nat} {root other page frame index word : Nat}

/-- The two memories agree on a frame. -/
def SameOn (memory changed : Memory) (frame : Nat) : Prop :=
  ∀ cell, frame ≤ cell → cell < frame + 4096 → changed cell = memory cell

theorem read_word_same_on (same : SameOn memory changed frame) {offset : Nat}
    (inside : offset + 4 ≤ 4096) : readWord changed (frame + offset) = readWord memory (frame + offset) := by
  apply read_word_congr
  intro position small
  exact same _ (by omega) (by omega)

theorem write_same_on {offset : Nat} (aligned : frame % 4096 = 0) (otherAligned : other % 4096 = 0)
    (inside : offset + 4 ≤ 4096) (differ : other ≠ frame) :
    SameOn memory (writeWord memory (frame + offset) word) other := by
  intro cell low high
  apply write_word_apart
  omega

theorem write_first_same_on (aligned : frame % 4096 = 0) (otherAligned : other % 4096 = 0)
    (differ : other ≠ frame) : SameOn memory (writeWord memory frame word) other := by
  intro cell low high
  apply write_word_apart
  omega

theorem zero_same_on (aligned : frame % 4096 = 0) (otherAligned : other % 4096 = 0)
    (differ : other ≠ frame) : SameOn memory (zeroFrame memory frame) other := by
  intro cell low high
  exact if_neg (by omega)

theorem directory_entry_same_on (same : SameOn memory changed root) (bounded : index < 1024) :
    directoryEntry changed root index = directoryEntry memory root index :=
  read_word_same_on same (by omega)

theorem slot_same_on (same : SameOn memory changed root) (bounded : page < 1048576) :
    slot changed root page = slot memory root page := by
  rw [slot, directory_entry_same_on same (by omega), slot]

theorem self_mapped_same_on (same : SameOn memory changed root) (selfMapped : SelfMapped memory root) :
    SelfMapped changed root := by
  unfold SelfMapped
  rw [directory_entry_same_on same (by decide)]
  exact selfMapped

/-- The entry of a page depends on its directory and its table. -/
theorem page_entry_same_on (same : SameOn memory changed root) (bounded : page < 1048576)
    (table : Present (directoryEntry memory root (page / 1024)) →
      SameOn memory changed (frameOf (directoryEntry memory root (page / 1024)))) :
    pageEntry changed root page = pageEntry memory root page := by
  unfold pageEntry
  rw [directory_entry_same_on same (by omega), slot_same_on same bounded]
  split_ifs with present
  · exact read_word_same_on (table present) (by omega)
  · rfl

end Frames

/-- Directories over one memory: each maps itself, no table is a directory, and a table stands
at one index, in one directory or in several. -/
structure Family (memory : Memory) (roots : List Nat) : Prop where
  aligned : ∀ root ∈ roots, root % 4096 = 0
  bounded : ∀ root ∈ roots, root < 4294967296
  selfMapped : ∀ root ∈ roots, SelfMapped memory root
  apart : ∀ root ∈ roots, ∀ index < 1023, Present (directoryEntry memory root index) →
    frameOf (directoryEntry memory root index) ∉ roots
  owner : ∀ root ∈ roots, ∀ other ∈ roots, ∀ index < 1023, ∀ position < 1023,
    Present (directoryEntry memory root index) → Present (directoryEntry memory other position) →
    frameOf (directoryEntry memory root index) = frameOf (directoryEntry memory other position) →
    index = position

/-- The frame serves as a table of one of the directories. -/
def IsTable (memory : Memory) (roots : List Nat) (frame : Nat) : Prop :=
  ∃ root ∈ roots, ∃ index < 1023, Present (directoryEntry memory root index) ∧
    frameOf (directoryEntry memory root index) = frame

/-- Two directories have the same table for a page. -/
def Shares (memory : Memory) (root other page : Nat) : Prop :=
  Present (directoryEntry memory root (page / 1024)) ∧
    Present (directoryEntry memory other (page / 1024)) ∧
    frameOf (directoryEntry memory root (page / 1024)) =
      frameOf (directoryEntry memory other (page / 1024))

instance (memory : Memory) (root other page : Nat) : Decidable (Shares memory root other page) :=
  inferInstanceAs (Decidable (_ ∧ _ ∧ _))

section Families

variable {memory changed : Memory} {roots : List Nat} {root other page position word : Nat}

theorem shares_self (present : Present (directoryEntry memory root (page / 1024))) :
    Shares memory root root page := ⟨present, present, rfl⟩

theorem shares_symm (shared : Shares memory root other page) : Shares memory other root page :=
  ⟨shared.2.1, shared.1, shared.2.2.symm⟩

theorem shares_trans {third : Nat} (first : Shares memory root other page)
    (second : Shares memory other third page) : Shares memory root third page :=
  ⟨first.1, second.2.1, first.2.2.trans second.2.2⟩

/-- Pages that share a table have the same entry. -/
theorem page_entry_shared (shared : Shares memory root other page) :
    pageEntry memory root page = pageEntry memory other page := by
  rw [pageEntry, pageEntry, if_pos shared.1, if_pos shared.2.1, slot, slot, shared.2.2]

theorem page_entry_present (present : Present (pageEntry memory root page)) :
    Present (directoryEntry memory root (page / 1024)) := by
  by_contra absent
  rw [pageEntry, if_neg absent] at present
  exact not_present_zero present

theorem is_table_of_present (member : root ∈ roots) (low : page < 1047552)
    (present : Present (directoryEntry memory root (page / 1024))) :
    IsTable memory roots (frameOf (directoryEntry memory root (page / 1024))) :=
  ⟨root, member, page / 1024, by omega, present, rfl⟩

/-- A family depends on the frames of its directories only. -/
theorem family_same_on (family : Family memory roots)
    (same : ∀ root ∈ roots, SameOn memory changed root) : Family changed roots where
  aligned := family.aligned
  bounded := family.bounded
  selfMapped root member := self_mapped_same_on (same root member) (family.selfMapped root member)
  apart root member index low := by
    rw [directory_entry_same_on (same root member) (by omega)]
    exact family.apart root member index low
  owner root member other second index low position high := by
    rw [directory_entry_same_on (same root member) (by omega),
      directory_entry_same_on (same other second) (by omega)]
    exact family.owner root member other second index low position high

theorem family_subset (family : Family memory roots) {fewer : List Nat} (subset : fewer ⊆ roots) :
    Family memory fewer where
  aligned root member := family.aligned root (subset member)
  bounded root member := family.bounded root (subset member)
  selfMapped root member := family.selfMapped root (subset member)
  apart root member index low present inside :=
    family.apart root (subset member) index low present (subset inside)
  owner root member other second := family.owner root (subset member) other (subset second)

theorem is_table_same_on (same : ∀ root ∈ roots, SameOn memory changed root) (frame : Nat) :
    IsTable changed roots frame ↔ IsTable memory roots frame := by
  unfold IsTable
  constructor
  · rintro ⟨root, member, index, low, present, equal⟩
    rw [directory_entry_same_on (same root member) (by omega)] at present equal
    exact ⟨root, member, index, low, present, equal⟩
  · rintro ⟨root, member, index, low, present, equal⟩
    rw [← directory_entry_same_on (same root member) (by omega)] at present equal
    exact ⟨root, member, index, low, present, equal⟩

theorem shares_same_on (first : SameOn memory changed root) (second : SameOn memory changed other)
    (bounded : page < 1048576) : Shares changed root other page ↔ Shares memory root other page := by
  unfold Shares
  rw [directory_entry_same_on first (by omega), directory_entry_same_on second (by omega)]

/-- A write into a table leaves every directory as it is. -/
theorem slot_write_roots (family : Family memory roots) (member : root ∈ roots) (low : page < 1047552)
    (present : Present (directoryEntry memory root (page / 1024))) :
    ∀ other ∈ roots, SameOn memory (writeWord memory (slot memory root page) word) other := by
  intro other second
  apply write_same_on (frame_of_aligned _) (family.aligned other second) (by omega)
  intro same
  exact family.apart root member _ (by omega) present (same ▸ second)

/-- A write of an entry changes it in every directory that shares the table, and no other entry. -/
theorem page_entry_write (family : Family memory roots) (member : root ∈ roots) (low : page < 1047552)
    (present : Present (directoryEntry memory root (page / 1024))) (bounded : word < 4294967296)
    (second : other ∈ roots) (high : position < 1047552) :
    pageEntry (writeWord memory (slot memory root page) word) other position =
      if position = page ∧ Shares memory root other page then word
      else pageEntry memory other position := by
  have same : SameOn memory (writeWord memory (slot memory root page) word) other :=
    slot_write_roots family member low present other second
  by_cases table : Present (directoryEntry memory other (position / 1024)) ∧
      frameOf (directoryEntry memory root (page / 1024)) =
        frameOf (directoryEntry memory other (position / 1024))
  · have index := family.owner root member other second (page / 1024) (by omega) (position / 1024)
      (by omega) present table.1 table.2
    have slots : slot memory other position =
        frameOf (directoryEntry memory root (page / 1024)) + 4 * (position % 1024) := by
      rw [slot, table.2]
    have aligned := frame_of_aligned (directoryEntry memory root (page / 1024))
    rw [pageEntry, pageEntry, directory_entry_same_on same (by omega), if_pos table.1,
      slot_same_on same (by omega), slots]
    by_cases here : position = page
    · have shared : Shares memory root other page := by
        rw [here] at table
        exact ⟨present, table⟩
      rw [if_pos ⟨here, shared⟩, here, slot, read_write_same bounded]
    · rw [if_neg (fun both => here both.1), if_pos table.1, slot]
      apply read_write_aligned
      · omega
      · omega
      · omega
  · have apart : ¬ (position = page ∧ Shares memory root other page) := by
      rintro ⟨here, shared⟩
      rw [here] at table
      exact table ⟨shared.2.1, shared.2.2⟩
    rw [if_neg apart]
    apply page_entry_same_on same (by omega)
    intro otherPresent
    apply write_same_on (frame_of_aligned _) (frame_of_aligned _) (by omega)
    intro equal
    exact table ⟨otherPresent, equal.symm⟩

/-- A directory whose entries are some of those of another one. -/
structure CopyOf (memory : Memory) (roots : List Nat) (root copy : Nat) : Prop where
  aligned : copy % 4096 = 0
  bounded : copy < 4294967296
  selfMapped : SelfMapped memory copy
  notRoot : copy ∉ roots
  notTable : ¬ IsTable memory roots copy
  member : root ∈ roots
  entries : ∀ index < 1023, Present (directoryEntry memory copy index) →
    directoryEntry memory copy index = directoryEntry memory root index

theorem is_table_copy {copy : Nat} (copied : CopyOf memory roots root copy) (frame : Nat) :
    IsTable memory (copy :: roots) frame ↔ IsTable memory roots frame := by
  constructor
  · rintro ⟨other, member, index, low, present, same⟩
    rcases List.mem_cons.1 member with here | old
    · rw [here] at present same
      have entry := copied.entries index low present
      rw [entry] at present same
      exact ⟨root, copied.member, index, low, present, same⟩
    · exact ⟨other, old, index, low, present, same⟩
  · rintro ⟨other, member, rest⟩
    exact ⟨other, List.mem_cons_of_mem _ member, rest⟩

/-- The copy belongs to the family. -/
theorem family_copy {copy : Nat} (family : Family memory roots)
    (copied : CopyOf memory roots root copy) : Family memory (copy :: roots) := by
  -- every entry of a member is the entry of an old member at the same index
  have old : ∀ other ∈ copy :: roots, ∀ index < 1023, Present (directoryEntry memory other index) →
      ∃ before ∈ roots, directoryEntry memory other index = directoryEntry memory before index := by
    intro other member index low present
    rcases List.mem_cons.1 member with here | there
    · rw [here] at present ⊢
      exact ⟨root, copied.member, copied.entries index low present⟩
    · exact ⟨other, there, rfl⟩
  refine ⟨?_, ?_, ?_, ?_, ?_⟩
  · exact List.forall_mem_cons.2 ⟨copied.aligned, family.aligned⟩
  · exact List.forall_mem_cons.2 ⟨copied.bounded, family.bounded⟩
  · exact List.forall_mem_cons.2 ⟨copied.selfMapped, family.selfMapped⟩
  · intro other member index low present
    obtain ⟨before, isRoot, same⟩ := old other member index low present
    rw [same] at present ⊢
    rw [List.mem_cons, not_or]
    refine ⟨?_, family.apart before isRoot index low present⟩
    intro equal
    exact copied.notTable (equal ▸ ⟨before, isRoot, index, low, present, rfl⟩)
  · intro first firstMember second secondMember index low position high present there same
    obtain ⟨before, isRoot, firstSame⟩ := old first firstMember index low present
    obtain ⟨after, isOther, secondSame⟩ := old second secondMember position high there
    rw [firstSame] at present same
    rw [secondSame] at there same
    exact family.owner before isRoot after isOther index low position high present there same

end Families

/-- A directory entry is set, and the frame it leads to is cleared. -/
def addTable (memory : Memory) (root index entry : Nat) : Memory :=
  zeroFrame (writeWord memory (root + 4 * index) entry) (frameOf entry)

/-- What a new table needs: an empty place in a directory, and a frame that is not in use. -/
structure Addable (memory : Memory) (roots : List Nat) (root index entry : Nat) : Prop where
  member : root ∈ roots
  low : index < 1023
  absent : ¬ Present (directoryEntry memory root index)
  present : Present entry
  bounded : entry < 4294967296
  notRoot : frameOf entry ∉ roots
  notTable : ¬ IsTable memory roots (frameOf entry)

section Addition

variable {memory : Memory} {roots : List Nat} {root other index entry position : Nat}

theorem add_table_same_on (family : Family memory roots) (addable : Addable memory roots root index entry)
    {frame : Nat} (aligned : frame % 4096 = 0) (notRoot : frame ≠ root) (notTable : frame ≠ frameOf entry) :
    SameOn memory (addTable memory root index entry) frame := by
  intro cell low high
  have low := addable.low
  rw [addTable, zero_same_on (frame_of_aligned entry) aligned notTable cell ‹_› high]
  exact write_same_on (family.aligned root addable.member) aligned (by omega) notRoot cell ‹_› high

theorem directory_entry_add (family : Family memory roots)
    (addable : Addable memory roots root index entry) (second : other ∈ roots) (high : position < 1024) :
    directoryEntry (addTable memory root index entry) other position =
      if other = root ∧ position = index then entry else directoryEntry memory other position := by
  have rootAligned := family.aligned root addable.member
  have otherAligned := family.aligned other second
  have low := addable.low
  have differ : other ≠ frameOf entry := fun same => addable.notRoot (same ▸ second)
  have cleared : directoryEntry (addTable memory root index entry) other position =
      directoryEntry (writeWord memory (root + 4 * index) entry) other position :=
    directory_entry_same_on (zero_same_on (frame_of_aligned entry) otherAligned differ) high
  rw [cleared, directoryEntry]
  split_ifs with here
  · rw [here.1, here.2, read_write_same addable.bounded]
  · exact read_write_aligned (by omega) (by omega) (by omega)

/-- A new table holds no entries, so that no page changes. -/
theorem page_entry_add (family : Family memory roots) (addable : Addable memory roots root index entry)
    (second : other ∈ roots) (high : position < 1047552) :
    pageEntry (addTable memory root index entry) other position = pageEntry memory other position := by
  have seen := directory_entry_add family addable second (show position / 1024 < 1024 by omega)
  by_cases here : other = root ∧ position / 1024 = index
  · rw [if_pos here] at seen
    rw [pageEntry, slot, seen, if_pos addable.present, pageEntry, here.1, here.2,
      if_neg addable.absent]
    exact zero_frame_inside (by omega) (by omega)
  · rw [if_neg here] at seen
    rw [pageEntry, slot, seen, pageEntry, slot]
    split_ifs with present
    · have tableFrame : IsTable memory roots (frameOf (directoryEntry memory other (position / 1024))) :=
        ⟨other, second, position / 1024, by omega, present, rfl⟩
      have same : SameOn memory (addTable memory root index entry)
          (frameOf (directoryEntry memory other (position / 1024))) := by
        apply add_table_same_on family addable (frame_of_aligned _)
        · intro equal
          exact family.apart other second _ (by omega) present (equal ▸ addable.member)
        · intro equal
          exact addable.notTable (equal ▸ tableFrame)
      exact read_word_same_on same (by omega)
    · rfl

theorem is_table_add (family : Family memory roots) (addable : Addable memory roots root index entry)
    (frame : Nat) : IsTable (addTable memory root index entry) roots frame ↔
      frame = frameOf entry ∨ IsTable memory roots frame := by
  constructor
  · rintro ⟨other, second, position, low, present, equal⟩
    rw [directory_entry_add family addable second (by omega)] at present equal
    split_ifs at present equal with here
    · exact .inl equal.symm
    · exact .inr ⟨other, second, position, low, present, equal⟩
  · rintro (same | ⟨other, second, position, low, present, equal⟩)
    · refine ⟨root, addable.member, index, addable.low, ?_⟩
      have low := addable.low
      rw [directory_entry_add family addable addable.member (by omega), if_pos ⟨rfl, rfl⟩]
      exact ⟨addable.present, same.symm⟩
    · refine ⟨other, second, position, low, ?_⟩
      rw [directory_entry_add family addable second (by omega), if_neg]
      · exact ⟨present, equal⟩
      · rintro ⟨sameRoot, sameIndex⟩
        rw [sameRoot, sameIndex] at present
        exact addable.absent present

theorem family_add (family : Family memory roots) (addable : Addable memory roots root index entry) :
    Family (addTable memory root index entry) roots where
  aligned := family.aligned
  bounded := family.bounded
  selfMapped other second := by
    have low := addable.low
    have seen := directory_entry_add family addable second (show 1023 < 1024 by omega)
    rw [if_neg (fun here => absurd here.2 (by omega))] at seen
    unfold SelfMapped
    rw [seen]
    exact family.selfMapped other second
  apart other second position low := by
    rw [directory_entry_add family addable second (by omega)]
    split_ifs with here
    · intro _
      exact addable.notRoot
    · exact family.apart other second position low
  owner first member second other index low position high := by
    rw [directory_entry_add family addable member (by omega),
      directory_entry_add family addable other (by omega)]
    split_ifs with here there there
    · intro _ _ _
      exact here.2.trans there.2.symm
    · intro _ present equal
      exact absurd ⟨second, other, position, high, present, equal.symm⟩ addable.notTable
    · intro present _ equal
      exact absurd ⟨first, member, index, low, present, equal⟩ addable.notTable
    · exact family.owner first member second other index low position high

/-- A table that was there stays in its place. -/
theorem directory_entry_add_present (family : Family memory roots)
    (addable : Addable memory roots root index entry) (second : other ∈ roots) (high : position < 1024)
    (present : Present (directoryEntry memory other position)) :
    directoryEntry (addTable memory root index entry) other position =
      directoryEntry memory other position := by
  rw [directory_entry_add family addable second high, if_neg]
  rintro ⟨sameRoot, samePosition⟩
  rw [sameRoot, samePosition] at present
  exact addable.absent present

theorem shares_add (family : Family memory roots) (addable : Addable memory roots root index entry)
    {first second page : Nat} (member : first ∈ roots) (other : second ∈ roots) (high : page < 1047552)
    (differ : first ≠ second) :
    Shares (addTable memory root index entry) first second page ↔ Shares memory first second page := by
  unfold Shares
  rw [directory_entry_add family addable member (by omega),
    directory_entry_add family addable other (by omega)]
  by_cases here : first = root ∧ page / 1024 = index
  · have there : ¬ (second = root ∧ page / 1024 = index) := fun both => differ (here.1.trans both.1.symm)
    rw [if_pos here, if_neg there, here.1, here.2]
    constructor
    · rintro ⟨_, present, equal⟩
      exact absurd ⟨second, other, index, addable.low, present, equal.symm⟩
        addable.notTable
    · rintro ⟨present, _, _⟩
      exact absurd present addable.absent
  · rw [if_neg here]
    by_cases there : second = root ∧ page / 1024 = index
    · rw [if_pos there, there.1, there.2]
      constructor
      · rintro ⟨present, _, equal⟩
        exact absurd ⟨first, member, index, addable.low, present, equal⟩ addable.notTable
      · rintro ⟨_, present, _⟩
        exact absurd present addable.absent
    · rw [if_neg there]

end Addition

section FreeFrames

variable {memory changed : Memory}

/-- A stack of frames that is threaded through the first words of the frames. -/
def Linked (memory : Memory) : Nat → List Nat → Prop
  | head, [] => head = 0
  | head, frame :: frames => head = frame ∧ Linked memory (readWord memory frame) frames

theorem linked_same_on {head : Nat} {frames : List Nat} (linked : Linked memory head frames)
    (same : ∀ frame ∈ frames, SameOn memory changed frame) : Linked changed head frames := by
  induction frames generalizing head with
  | nil => exact linked
  | cons frame frames ih =>
      refine ⟨linked.1, ?_⟩
      have first : readWord changed (frame + 0) = readWord memory (frame + 0) :=
        read_word_same_on (same frame List.mem_cons_self) (by omega)
      rw [Nat.add_zero] at first
      rw [first]
      exact ih linked.2 fun other member => same other (List.mem_cons_of_mem _ member)

/-- The list that a chain of frames spells is the only one. -/
theorem linked_unique {head : Nat} {frames others : List Nat}
    (positive : ∀ frame ∈ frames, 0 < frame) (otherPositive : ∀ frame ∈ others, 0 < frame)
    (linked : Linked memory head frames) (again : Linked memory head others) : frames = others := by
  induction frames generalizing head others with
  | nil =>
      cases others with
      | nil => rfl
      | cons other others =>
          have zero : other = 0 := again.1.symm.trans linked
          exact absurd (otherPositive other List.mem_cons_self) (by omega)
  | cons frame frames ih =>
      cases others with
      | nil =>
          have zero : frame = 0 := linked.1.symm.trans again
          exact absurd (positive frame List.mem_cons_self) (by omega)
      | cons other others =>
          have same : frame = other := linked.1.symm.trans again.1
          subst same
          rw [ih (fun other member => positive other (List.mem_cons_of_mem _ member))
            (fun other member => otherPositive other (List.mem_cons_of_mem _ member)) linked.2 again.2]

end FreeFrames

end ParadiseOS.TwoLevelPaging
