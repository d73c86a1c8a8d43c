import Mathlib.Data.Finset.Card
import ParadiseOS.MapCalls
import ParadiseOS.UserFrames

/-!
# When `syscall_virt_map` returns

The second loop asserts that every page is mapped, and `map_page` that the page table is
one for users. With frames for the tables that have to be made, nothing else stops it.
-/

namespace ParadiseOS.MapReturns

open FrameSteps MachineWord MapCalls MapInstalls PagingModel PagingSteps PagingMaps SpaceCalls TransferMoves
open TwoLevelPaging UserFrames VirtModel VirtRanges
open RbTreeRuns (getProcess)

set_option autoImplicit false

section Pages

variable {machine next : Machine} {roots frames rest : List Nat} {vaddr page paddr flags : Nat}

/-- Only the directory entry of the mapped page can change, in the current directory. -/
theorem mapped_directory (spaces : Spaces machine roots) (free : FreeList machine roots frames)
    (mapped : Mapped machine next roots frames rest page paddr flags) (low : page < 1047552)
    {root index : Nat} (member : root ∈ roots) (small : index < 1024)
    (differ : ¬ (root = machine.cr3 ∧ index = page / 1024)) :
    directoryEntry next.memory root index = directoryEntry machine.memory root index := by
  rcases mapped.taken with ⟨table, _, _, memory⟩ | ⟨missing, frame, isFree, _, memory⟩
  · rw [memory]
    exact directory_entry_same_on (slot_write_roots spaces.family spaces.member low table root member) small
  · subst isFree
    have kept := kept_with_table flags spaces free (show page / 1024 < 1023 by omega) missing
    have directory : directoryEntry (withTable machine frame (page / 1024) flags).memory machine.cr3
        (page / 1024) = tableEntry frame flags := by
      rw [with_table_directory flags spaces free (by omega) missing spaces.member (by omega), if_pos ⟨rfl, rfl⟩]
    have table : Present (directoryEntry (withTable machine frame (page / 1024) flags).memory machine.cr3
        (page / 1024)) := directory ▸ create_entry_present _ _
    have written : directoryEntry (fillSlot (withTable machine frame (page / 1024) flags) page
        (createEntry paddr flags)).memory root index =
          directoryEntry (withTable machine frame (page / 1024) flags).memory root index :=
      directory_entry_same_on
        (slot_write_roots kept.spaces.family kept.spaces.member low table root member) small
    rw [memory, written, with_table_directory flags spaces free (by omega) missing member small, if_neg differ]

/-- `map_page` maps a free page, given a table for users or a frame for one. -/
theorem map_page_returns (spaces : Spaces machine roots) (free : FreeList machine roots frames)
    (low : vaddr / 4096 < 1047552) (away : vaddr / 4096 ≠ windowPage machine)
    (absent : ¬ Present (pageEntry machine.memory machine.cr3 (vaddr / 4096)))
    (allowed : flags &&& 4 ≠ 0 → Present (directoryEntry machine.memory machine.cr3 (vaddr / 4096 / 1024)) →
      UserMode (directoryEntry machine.memory machine.cr3 (vaddr / 4096 / 1024)))
    (enough : ¬ Present (directoryEntry machine.memory machine.cr3 (vaddr / 4096 / 1024)) → frames ≠ []) :
    ∃ next, mapPage machine vaddr paddr flags = .ok (false, next) := by
  by_cases table : Present (directoryEntry machine.memory machine.cr3 (vaddr / 4096 / 1024))
  · rw [map_page_table spaces.selfMapped (by omega) table, if_neg, if_neg absent]
    · exact ⟨_, rfl⟩
    · rintro ⟨user, refused⟩
      exact (get_flags_user_iff _).2 (allowed user table) refused
  · cases frames with
    | nil => exact absurd rfl (enough table)
    | cons frame rest => exact map_page_new_table paddr spaces free low away table

end Pages

section Loops

variable {machine : Machine} {roots frames : List Nat} {vaddr paddr flags i count : Nat} {element : Nat → Nat}

/-- The indices at which a range needs new page tables. -/
def newTables (machine : Machine) (vaddr i count : Nat) : Finset Nat :=
  ((Finset.range count).image fun j => pageOf vaddr (i + j) / 1024).filter fun index =>
    ¬ Present (directoryEntry machine.memory machine.cr3 index)

theorem mem_new_tables {index : Nat} : index ∈ newTables machine vaddr i count ↔
    (∃ j < count, pageOf vaddr (i + j) / 1024 = index) ∧
      ¬ Present (directoryEntry machine.memory machine.cr3 index) := by
  unfold newTables
  rw [Finset.mem_filter, Finset.mem_image]
  simp only [Finset.mem_range]

/-- Once the first page is mapped, the others need no more tables than there are frames. -/
theorem new_tables_left {next : Machine} {rest : List Nat} (spaces : Spaces machine roots)
    (mapped : Mapped machine next roots frames rest (pageOf vaddr i) paddr flags)
    (enough : (newTables machine vaddr i (count + 1)).card ≤ frames.length) :
    (newTables next vaddr (i + 1) count).card ≤ rest.length := by
  have cr3 := kept_cr3 mapped.kept
  have small : ∀ j, pageOf vaddr j / 1024 < 1024 := fun j => by
    have := page_of_lt vaddr j
    omega
  have subset : newTables next vaddr (i + 1) count ⊆
      (newTables machine vaddr i (count + 1)).erase (pageOf vaddr i / 1024) := by
    intro index member
    rw [mem_new_tables, cr3] at member
    obtain ⟨⟨j, inside, rfl⟩, absent⟩ := member
    rw [Finset.mem_erase, mem_new_tables]
    refine ⟨fun same => absent (same ▸ mapped.table), ⟨j + 1, by omega, ?_⟩, fun present => absent ?_⟩
    · have place : i + (j + 1) = i + 1 + j := by omega
      rw [place]
    · rw [mapped.kept.directory _ spaces.member _ (small _) present]
      exact present
  have fewer := Finset.card_le_card subset
  rcases mapped.taken with ⟨_, same, _⟩ | ⟨missing, frame, isFree, _⟩
  · rw [same]
    have erased := Finset.card_erase_le (s := newTables machine vaddr i (count + 1))
      (a := pageOf vaddr i / 1024)
    omega
  · have member : pageOf vaddr i / 1024 ∈ newTables machine vaddr i (count + 1) :=
      mem_new_tables.2 ⟨⟨0, by omega, rfl⟩, missing⟩
    have erased := Finset.card_erase_of_mem member
    rw [isFree, List.length_cons] at enough
    omega

/-- The second loop maps a range of free pages. -/
theorem map_install_returns (spaces : Spaces machine roots) (free : FreeList machine roots frames)
    (small : flags < 4096) (few : i + count ≤ 1048576)
    (shown : ∀ j < count, loadWord machine (elementAddr paddr (i + j)) = .ok (element (i + j)))
    (plain : ∀ j < count, PlainWord machine roots frames (elementAddr paddr (i + j)))
    (low : ∀ j < count, pageOf vaddr (i + j) < 1047552)
    (absent : ∀ j < count, ¬ Present (pageEntry machine.memory machine.cr3 (pageOf vaddr (i + j))))
    (allowed : ∀ j < count, flags &&& 4 ≠ 0 →
      Present (directoryEntry machine.memory machine.cr3 (pageOf vaddr (i + j) / 1024)) →
      UserMode (directoryEntry machine.memory machine.cr3 (pageOf vaddr (i + j) / 1024)))
    (enough : (newTables machine vaddr i count).card ≤ frames.length) :
    ∃ next, virtMapInstall machine vaddr paddr flags i count = .ok next := by
  induction count generalizing machine i frames with
  | zero => exact ⟨machine, rfl⟩
  | succ count ih =>
      have lowHere := low 0 (by omega)
      have absentHere := absent 0 (by omega)
      have loaded := shown 0 (by omega)
      rw [Nat.add_zero] at lowHere absentHere loaded
      have page := range_page_page vaddr i
      have away : pageOf vaddr i ≠ windowPage machine := fun same => absentHere (same ▸ window_present free)
      obtain ⟨middle, mapping⟩ := @map_page_returns machine roots frames (rangePage vaddr i) (element i)
        flags spaces free (page ▸ lowHere) (page ▸ away) (page ▸ absentHere) (page ▸ allowed 0 (by omega))
        (fun missing none => by
          have member : pageOf vaddr i / 1024 ∈ newTables machine vaddr i (count + 1) :=
            mem_new_tables.2 ⟨⟨0, by omega, rfl⟩, page ▸ missing⟩
          have some := Finset.card_pos.2 ⟨_, member⟩
          rw [none, List.length_nil] at enough
          omega)
      have bounded := load_word_lt loaded
      have entryBound := create_entry_lt bounded small
      rcases map_page_ok spaces free (page ▸ lowHere) (page ▸ away) bounded small mapping with
        ⟨wrong, _⟩ | ⟨_, between, mapped⟩
      · cases wrong
      · rw [page] at mapped
        have cr3 := kept_cr3 mapped.kept
        have window := kept_window mapped.kept
        have shift : ∀ j, i + 1 + j = i + (j + 1) := fun j => by omega
        have kept := fun j (inside : j < count) => mapped_word_kept spaces free mapped lowHere away entryBound
          (u32_lt _) (shift j ▸ plain (j + 1) (by omega)) (shift j ▸ shown (j + 1) (by omega))
        have restLow : ∀ j < count, pageOf vaddr (i + 1 + j) < 1047552 :=
          fun j inside => shift j ▸ low (j + 1) (by omega)
        have distinct : ∀ j < count, pageOf vaddr (i + 1 + j) ≠ pageOf vaddr i := by
          intro j inside same
          have equal := page_of_injective (by omega) (by omega) same
          omega
        obtain ⟨next, rest⟩ := ih mapped.kept.spaces mapped.kept.free (by omega)
          (fun j inside => (kept j inside).1) (fun j inside => (kept j inside).2) restLow
          (fun j inside => by
            have free_ := shift j ▸ absent (j + 1) (by omega)
            have apart : pageOf vaddr (i + 1 + j) ≠ windowPage machine :=
              fun same => free_ (same ▸ window_present free)
            rw [cr3, mapped.entries _ spaces.member _ (restLow j inside) apart,
              if_neg fun both => distinct j inside both.1]
            exact free_)
          (fun j inside user present => by
            have lower := restLow j inside
            rw [cr3] at present ⊢
            by_cases here : pageOf vaddr (i + 1 + j) / 1024 = pageOf vaddr i / 1024
            · rw [here]
              exact mapped.userTable user
            · rw [mapped_directory spaces free mapped lowHere spaces.member (by omega) fun both => here both.2]
                at present ⊢
              exact shift j ▸ allowed (j + 1) (by omega) user (shift j ▸ present))
          (new_tables_left spaces mapped enough)
        refine ⟨next, ?_⟩
        rw [virtMapInstall, loaded, Trap.ok_bind, mapping, Trap.ok_bind]
        exact rest

end Loops

section Calls

variable {machine : Machine} {roots frames : List Nat} {aid root vaddr paddr n flags : Nat}
  {userMap : List BootModel.PhysicalMap}

/-- The first loop comes to an end, and a range that it accepts lies below the last 4 MiB and meets
no page table that users may not use. -/
def MapSafe (machine : Machine) (aid root vaddr paddr n : Nat) : Prop :=
  Looked machine aid paddr → ∃ err, virtMapCheck (switch machine root) vaddr paddr 0 n = .ok err ∧
    (err = 0 → ∀ i < n, pageOf vaddr i < 1047552 ∧
      (Present (directoryEntry machine.memory root (pageOf vaddr i / 1024)) →
        UserMode (directoryEntry machine.memory root (pageOf vaddr i / 1024))))

/-- A range below the last 4 MiB has fewer pages than the address space. -/
theorem low_range_few (low : ∀ i < n, pageOf vaddr i < 1047552) : n ≤ 1048576 := by
  by_contra large
  have last := low ((1048575 + 1048576 - vaddr / 4096 % 1048576) % 1048576) (by omega)
  unfold pageOf at last
  omega

theorem validate_readable_returns (spaces : Spaces machine roots) (small : paddr < 4294967296) :
    ∃ pointer, validateUserReadable machine paddr = .ok pointer ∧ (pointer = paddr ∨ pointer = 0) := by
  rw [validateUserReadable, get_entry_ok spaces.selfMapped small, Trap.ok_bind]
  split_ifs
  · exact ⟨paddr, rfl, .inl rfl⟩
  · exact ⟨0, rfl, .inr rfl⟩

/-- A call that returned was safe. -/
theorem map_safe_of_returns {result : SyscallResult} {next : Machine} (spaces : Spaces machine roots)
    (free : FreeList machine roots frames) (processes : ProcessRoots machine roots)
    (closed : ClosedTables machine roots) (isRoot : root = spaceOf machine aid)
    (plain : ∀ i < n, PlainWord (switch machine root) roots frames (elementAddr paddr i))
    (completed : syscallVirtMap machine aid vaddr paddr n flags = .ok (result, next)) :
    MapSafe machine aid root vaddr paddr n := by
  intro looked
  rcases virt_map_steps spaces processes isRoot completed with ⟨no, _, _⟩ |
    ⟨_, member, err, checked, outcome⟩
  · exact absurd looked no
  · refine ⟨err, checked, fun none i inside => ?_⟩
    rcases outcome with ⟨wrong, _, _⟩ | ⟨right, _, installed, installing, isNext⟩
    · exact absurd none wrong
    · have accepted := (accepted_iff spaces member looked checked).2 right
      have done := map_done spaces free closed member plain accepted installing isNext
      obtain ⟨_, _, _, all⟩ := done.installed
      have allowed := all.allowed i inside
      rw [Nat.zero_add] at allowed
      exact ⟨(done_page done inside).1, allowed⟩

/-- A safe call returns if there are frames for the tables that it needs. -/
theorem map_returns_of_safe (spaces : Spaces machine roots) (free : FreeList machine roots frames)
    (processes : ProcessRoots machine roots)
    (lookup : ∃ process, getProcess machine.processTree aid = .ok process) (isRoot : root = spaceOf machine aid)
    (plain : ∀ i < n, PlainWord (switch machine root) roots frames (elementAddr paddr i))
    (small : paddr < 4294967296) (enough : (newTables (switch machine root) vaddr 0 n).card ≤ frames.length)
    (safe : MapSafe machine aid root vaddr paddr n) :
    ∃ result next, syscallVirtMap machine aid vaddr paddr n flags = .ok (result, next) := by
  obtain ⟨process, found⟩ := lookup
  obtain ⟨pointer, validated, isPointer⟩ := validate_readable_returns spaces small
  unfold syscallVirtMap findProcess
  by_cases word : aid >>> 16 = 0
  · rw [if_pos word, found, Trap.ok_bind]
    split_ifs with missing
    · exact ⟨_, _, rfl⟩
    · rw [validated, Trap.ok_bind]
      split_ifs with invalid
      · exact ⟨_, _, rfl⟩
      · have isPtr := isPointer.resolve_right invalid
        have isSpace : root = machine.pageDirPaddr process := by
          rw [isRoot]
          simp only [spaceOf, found]
        have member : root ∈ roots := isSpace ▸ processes aid process found missing
        have looked : Looked machine aid paddr := by
          refine ⟨word, ?_, ?_⟩
          · rw [found]
            exact fun none => missing (Except.ok.inj none)
          · rw [validated]
            exact fun none => invalid (Except.ok.inj none)
        obtain ⟨err, checked, allowed⟩ := safe looked
        rw [isPtr, ← isSpace, virtMapInto, set_page_dir_ok spaces.current, checked, Trap.ok_bind]
        split_ifs with refused
        · exact ⟨_, _, rfl⟩
        · have none := not_not.1 refused
          have accepted := (accepted_iff spaces member looked checked).2 none
          have shown : ∀ i < n, loadWord (switch machine root) (elementAddr paddr i) =
              .ok (arrayWord machine root paddr i) := by
            intro i inside
            obtain ⟨value, loaded, _⟩ := accepted.valid i inside
            unfold arrayWord
            rw [loaded]
          have few := low_range_few fun i inside => (allowed none i inside).1
          obtain ⟨installed, installing⟩ := @map_install_returns (switch machine root) roots frames vaddr paddr
            (getPteFlags (u16 flags)) 0 n (arrayWord machine root paddr) (spaces_switch spaces member)
            (free_list_switch spaces free member) (pte_flags_lt _) (by omega)
            (fun j inside => by rw [Nat.zero_add]; exact shown j inside)
            (fun j inside => by rw [Nat.zero_add]; exact plain j inside)
            (fun j inside => by rw [Nat.zero_add]; exact (allowed none j inside).1)
            (fun j inside => by rw [Nat.zero_add]; exact accepted.free j inside)
            (fun j inside _ => by rw [Nat.zero_add]; exact (allowed none j inside).2) enough
          rw [installing]
          exact ⟨_, _, rfl⟩
  · rw [if_neg word]
    exact ⟨_, _, rfl⟩

end Calls

end ParadiseOS.MapReturns
