import ParadiseOS.PagingMaps
import ParadiseOS.VirtModel

/-!
# Ranges of pages under the mapping system calls

A range of fewer than `2 ^ 20` pages has no page twice, so that the loops of the
system calls read and write different slots. `Assigned` says what a loop did to
the entries of all directories: those tied to a page of the range got its new
value, and all others kept theirs.
-/

namespace ParadiseOS.VirtRanges

open MachineWord PagingModel PagingSteps PagingMaps TwoLevelPaging VirtModel

set_option autoImplicit false

section Pages

variable {vaddr i j : Nat}

/-- The number of page `i` of a range, which may wrap around the address space. -/
def pageOf (vaddr i : Nat) : Nat := (vaddr / 4096 + i) % 1048576

theorem range_page_lt (vaddr i : Nat) : rangePage vaddr i < 4294967296 := u32_lt _

theorem range_page_page (vaddr i : Nat) : rangePage vaddr i / 4096 = pageOf vaddr i := by
  unfold rangePage pageOf pageSize u32
  omega

theorem page_of_lt (vaddr i : Nat) : pageOf vaddr i < 1048576 := Nat.mod_lt _ (by decide)

theorem page_of_injective (small : i < 1048576) (other : j < 1048576)
    (same : pageOf vaddr i = pageOf vaddr j) : i = j := by
  unfold pageOf at same
  omega

end Pages

section Switching

variable {machine : Machine} {roots frames : List Nat} {root : Nat}

/-- The machine with another directory loaded. -/
def switch (machine : Machine) (root : Nat) : Machine :=
  { machine with cr3 := root, currentPageDir := root }

theorem set_page_dir_ok (current : machine.currentPageDir = machine.cr3) (root : Nat) :
    setPageDir machine root = switch machine root := by
  rw [setPageDir, switch]
  split_ifs with differ
  · rfl
  · have same : root = machine.currentPageDir := not_not.1 differ
    have loaded : root = machine.cr3 := same.trans current
    cases machine
    simp_all

theorem switch_self (current : machine.currentPageDir = machine.cr3) :
    switch machine machine.cr3 = machine := by
  cases machine
  simp_all [switch]

theorem spaces_switch (spaces : Spaces machine roots) (member : root ∈ roots) :
    Spaces (switch machine root) roots :=
  ⟨spaces.family, rfl, member, spaces.headAligned, spaces.headLow, spaces.headPte, spaces.headShared⟩

theorem free_list_switch (spaces : Spaces machine roots) (free : FreeList machine roots frames)
    (member : root ∈ roots) : FreeList (switch machine root) roots frames where
  linked := free.linked
  nodup := free.nodup
  aligned := free.aligned
  positive := free.positive
  bounded := free.bounded
  notRoot := free.notRoot
  notTable := free.notTable
  window := (spaces.window_entry member).trans free.window

end Switching

/-- Whether the presence of every page of a range is the wanted one. -/
theorem range_is_ok {machine : Machine} (selfMapped : SelfMapped machine.memory machine.cr3)
    (vaddr : Nat) (wanted : Bool) (i count : Nat) :
    ∃ found, rangeIs machine wanted vaddr i count = .ok found ∧
      (found = true ↔ ∀ j < count,
        (Present (pageEntry machine.memory machine.cr3 (pageOf vaddr (i + j))) ↔ wanted = true)) := by
  induction count generalizing i with
  | zero => exact ⟨true, rfl, by simp⟩
  | succ count ih =>
      obtain ⟨found, rest, meaning⟩ := ih (i + 1)
      have entry := get_entry_ok selfMapped (range_page_lt vaddr i)
      rw [range_page_page] at entry
      have first : decide (entryPresent (pageEntry machine.memory machine.cr3 (pageOf vaddr i))) = wanted ↔
          (Present (pageEntry machine.memory machine.cr3 (pageOf vaddr i)) ↔ wanted = true) := by
        rw [← entry_present_iff]
        cases wanted with
        | true => simp
        | false => simp
      rw [rangeIs, entry, Trap.ok_bind]
      split_ifs with differ
      · refine ⟨false, rfl, ?_⟩
        simp only [Bool.false_eq_true, false_iff, not_forall]
        exact ⟨0, by omega, fun holds => differ (first.2 holds)⟩
      · refine ⟨found, rest, meaning.trans ?_⟩
        have here := first.1 (not_not.1 differ)
        constructor
        · intro later j small
          cases j with
          | zero => exact here
          | succ j =>
              have next := later j (by omega)
              rwa [Nat.add_assoc, Nat.add_comm 1 j] at next
        · intro all j small
          have next := all (j + 1) (by omega)
          rwa [Nat.add_comm j 1, ← Nat.add_assoc] at next

/-- What a loop over a range did to the entries of a page, in all directories. -/
structure Assigned (machine next : Machine) (roots : List Nat) (vaddr i count : Nat)
    (value : Nat → Nat) (page : Nat) : Prop where
  inside : ∀ root ∈ roots, ∀ j < count, page = pageOf vaddr (i + j) →
    Tied machine machine.cr3 root page → pageEntry next.memory root page = value (i + j)
  outside : ∀ root ∈ roots, (∀ j < count, page ≠ pageOf vaddr (i + j)) ∨
    ¬ Tied machine machine.cr3 root page →
    pageEntry next.memory root page = pageEntry machine.memory root page

section Slots

variable {machine next : Machine} {roots frames : List Nat} {vaddr : Nat}

/-- A step that wrote slots of present tables and nothing else. -/
structure Rewritten (machine next : Machine) (roots : List Nat) : Prop where
  globals : next = { machine with memory := next.memory }
  sameRoots : ∀ root ∈ roots, SameOn machine.memory next.memory root
  outside : ∀ frame, frame % 4096 = 0 → ¬ IsTable machine.memory roots frame →
    SameOn machine.memory next.memory frame

theorem rewritten_refl (machine : Machine) (roots : List Nat) : Rewritten machine machine roots :=
  ⟨rfl, fun _ _ _ _ _ => rfl, fun _ _ _ _ _ _ => rfl⟩

theorem rewritten_trans {middle : Machine} (first : Rewritten machine middle roots)
    (second : Rewritten middle next roots) : Rewritten machine next roots where
  globals := by rw [second.globals, first.globals]
  sameRoots root member cell low high :=
    (second.sameRoots root member cell low high).trans (first.sameRoots root member cell low high)
  outside frame aligned notTable cell low high := by
    have later : ¬ IsTable middle.memory roots frame := by
      rw [is_table_same_on first.sameRoots]
      exact notTable
    exact (second.outside frame aligned later cell low high).trans
      (first.outside frame aligned notTable cell low high)

theorem rewritten_spaces (spaces : Spaces machine roots) (rewritten : Rewritten machine next roots) :
    Spaces next roots := by
  refine spaces_same_on spaces rewritten.sameRoots ?_ ?_ ?_ ?_
  all_goals rw [rewritten.globals]

theorem rewritten_cr3 (rewritten : Rewritten machine next roots) : next.cr3 = machine.cr3 := by
  rw [rewritten.globals]

theorem rewritten_tied (rewritten : Rewritten machine next roots)
    {root other page : Nat} (member : root ∈ roots) (second : other ∈ roots) (low : page < 1047552) :
    Tied next root other page ↔ Tied machine root other page :=
  or_congr Iff.rfl (shares_same_on (rewritten.sameRoots root member)
    (rewritten.sameRoots other second) (by omega))

theorem rewritten_fill_slot (spaces : Spaces machine roots) {page : Nat} (word : Nat)
    (low : page < 1047552) (present : Present (directoryEntry machine.memory machine.cr3 (page / 1024))) :
    Rewritten machine (fillSlot machine page word) roots := by
  refine ⟨rfl, slot_write_roots spaces.family spaces.member low present, ?_⟩
  intro frame aligned notTable
  apply write_same_on (frame_of_aligned _) aligned (by omega)
  intro equal
  exact notTable (equal ▸ fill_slot_table spaces low present)

end Slots

section Loops

variable {machine middle next : Machine} {roots frames : List Nat} {vaddr i count page : Nat}
  {value : Nat → Nat}

/-- One page is set, then the others. -/
theorem assigned_cons (middle : Machine)
    (filled : ∀ root ∈ roots, pageEntry middle.memory root page =
      if page = pageOf vaddr i ∧ Tied machine machine.cr3 root page then value i
      else pageEntry machine.memory root page)
    (tied : ∀ root ∈ roots, Tied middle middle.cr3 root page ↔ Tied machine machine.cr3 root page)
    (distinct : ∀ j < count, pageOf vaddr i ≠ pageOf vaddr (i + 1 + j))
    (rest : Assigned middle next roots vaddr (i + 1) count value page) :
    Assigned machine next roots vaddr i (count + 1) value page where
  inside root member j small here joined := by
    cases j with
    | zero =>
        rw [Nat.add_zero] at here ⊢
        rw [rest.outside root member (.inl fun j small same => distinct j small (here.symm.trans same)),
          filled root member, if_pos ⟨here, joined⟩]
    | succ j =>
        have place : i + (j + 1) = i + 1 + j := by omega
        rw [place] at here ⊢
        exact rest.inside root member j (by omega) here ((tied root member).2 joined)
  outside root member away := by
    have later : (∀ j < count, page ≠ pageOf vaddr (i + 1 + j)) ∨ ¬ Tied middle middle.cr3 root page := by
      rcases away with off | loose
      · left
        intro j small same
        apply off (j + 1) (by omega)
        rw [same]
        congr 1
        omega
      · exact .inr fun joined => loose ((tied root member).1 joined)
    have first : ¬ (page = pageOf vaddr i ∧ Tied machine machine.cr3 root page) := by
      rintro ⟨here, joined⟩
      rcases away with off | loose
      · exact off 0 (by omega) here
      · exact loose joined
    rw [rest.outside root member later, filled root member, if_neg first]

theorem assigned_none : Assigned machine machine roots vaddr i 0 value page where
  inside _ _ _ small _ _ := absurd small (Nat.not_lt_zero _)
  outside _ _ _ := rfl

/-- The slots of pages of the current directory, with the words to be written there. -/
def slotWords (machine : Machine) (vaddr i count : Nat) (value : Nat → Nat) : List (Nat × Nat) :=
  (List.range' i count).map fun j => (slot machine.memory machine.cr3 (pageOf vaddr j), value j)

theorem slot_words_succ (middle : Machine)
    (same : ∀ j < count, slot middle.memory middle.cr3 (pageOf vaddr (i + 1 + j)) =
      slot machine.memory machine.cr3 (pageOf vaddr (i + 1 + j))) :
    writeAll machine.memory (slotWords machine vaddr i (count + 1) value) =
      writeAll (writeWord machine.memory (slot machine.memory machine.cr3 (pageOf vaddr i)) (value i))
        (slotWords middle vaddr (i + 1) count value) := by
  rw [slotWords, List.range'_succ, List.map_cons, writeAll, slotWords]
  refine congrArg (writeAll _) ?_
  apply List.map_congr_left
  intro j member
  obtain ⟨low, high⟩ := List.mem_range'_1.1 member
  have place : i + 1 + (j - (i + 1)) = j := by omega
  have equal := same (j - (i + 1)) (by omega)
  rw [place] at equal
  rw [equal]

/-- The loop of a transfer that takes mapped pages clears their slots. -/
theorem transfer_take_ok (frames : List Nat) (vaddr : Nat) (spaces : Spaces machine roots) (small : i + count ≤ 1048576)
    (low : ∀ j < count, pageOf vaddr (i + j) < 1047552)
    (present : ∀ j < count, Present (pageEntry machine.memory machine.cr3 (pageOf vaddr (i + j)))) :
    ∃ next, virtTransferTake machine vaddr i count =
        .ok ((List.range' i count).map fun j => pageEntry machine.memory machine.cr3 (pageOf vaddr j), next) ∧
      Rewritten machine next roots ∧
      next.memory = writeAll machine.memory (slotWords machine vaddr i count fun _ => 0) ∧
      (∀ page < 1047552, Assigned machine next roots vaddr i count (fun _ => 0) page) ∧
      (FreeList machine roots frames → (∀ j < count, pageOf vaddr (i + j) ≠ windowPage machine) →
        Kept machine next roots frames frames) := by
  induction count generalizing machine i with
  | zero =>
      exact ⟨machine, rfl, rewritten_refl machine roots, rfl, fun _ _ => assigned_none,
        fun free _ => kept_refl spaces free⟩
  | succ count ih =>
      have firstPresent := present 0 (by omega)
      have firstLow := low 0 (by omega)
      rw [Nat.add_zero] at firstPresent firstLow
      have table := page_entry_present firstPresent
      have unmapped := unmap_page_ok spaces.selfMapped (range_page_lt vaddr i)
      rw [range_page_page, if_pos firstPresent] at unmapped
      have rewritten := rewritten_fill_slot spaces 0 firstLow table
      have entry : ∀ root ∈ roots, ∀ page < 1047552,
          pageEntry (fillSlot machine (pageOf vaddr i) 0).memory root page =
            if page = pageOf vaddr i ∧ Tied machine machine.cr3 root (pageOf vaddr i) then 0
            else pageEntry machine.memory root page :=
        fun root member page high => fill_slot_entry spaces firstLow table (by decide) member high
      have distinct : ∀ j < count, pageOf vaddr i ≠ pageOf vaddr (i + 1 + j) := by
        intro j inside same
        have equal := page_of_injective (by omega) (by omega) same
        omega
      have kept : ∀ j < count, pageEntry (fillSlot machine (pageOf vaddr i) 0).memory machine.cr3
          (pageOf vaddr (i + 1 + j)) =
            pageEntry machine.memory machine.cr3 (pageOf vaddr (i + 1 + j)) := by
        intro j inside
        have place : i + 1 + j = i + (j + 1) := by omega
        rw [entry _ spaces.member _ (place ▸ low (j + 1) (by omega)),
          if_neg fun both => distinct j inside both.1.symm]
      have restLow : ∀ j < count, pageOf vaddr (i + 1 + j) < 1047552 := by
        intro j inside
        have place : i + 1 + j = i + (j + 1) := by omega
        exact place ▸ low (j + 1) (by omega)
      have restPresent : ∀ j < count, Present (pageEntry
          (fillSlot machine (pageOf vaddr i) 0).memory machine.cr3 (pageOf vaddr (i + 1 + j))) := by
        intro j inside
        have place : i + 1 + j = i + (j + 1) := by omega
        rw [kept j inside]
        exact place ▸ present (j + 1) (by omega)
      obtain ⟨next, taken, later, memory, assigned, keeps⟩ :=
        ih (rewritten_spaces spaces rewritten) (by omega) restLow restPresent
      refine ⟨next, ?_, rewritten_trans rewritten later, ?_, ?_, ?_⟩
      · have entries : (List.range' (i + 1) count).map (fun j => pageEntry
            (fillSlot machine (pageOf vaddr i) 0).memory machine.cr3 (pageOf vaddr j)) =
            (List.range' (i + 1) count).map fun j =>
              pageEntry machine.memory machine.cr3 (pageOf vaddr j) := by
          apply List.map_congr_left
          intro j member
          obtain ⟨above, below⟩ := List.mem_range'_1.1 member
          have place : i + 1 + (j - (i + 1)) = j := by omega
          exact place ▸ kept (j - (i + 1)) (by omega)
        change virtTransferTake (fillSlot machine (pageOf vaddr i) 0) vaddr (i + 1) count = _ at taken
        rw [virtTransferTake, unmapped, Trap.ok_bind]
        change (virtTransferTake (fillSlot machine (pageOf vaddr i) 0) vaddr (i + 1) count >>= _) = _
        rw [taken, Trap.ok_bind, List.range'_succ, List.map_cons]
        change Except.ok (_ :: _, next) = _
        exact congrArg (fun rest => Except.ok (_ :: rest, next)) entries
      · rw [memory, slot_words_succ (fillSlot machine (pageOf vaddr i) 0)]
        · rfl
        · intro j inside
          exact slot_same_on (rewritten.sameRoots _ spaces.member) (page_of_lt _ _)
      · intro page high
        apply assigned_cons (fillSlot machine (pageOf vaddr i) 0)
        · intro root member
          rw [entry root member page high]
          by_cases here : page = pageOf vaddr i
          · rw [here]
          · rw [if_neg fun both => here both.1, if_neg fun both => here both.1]
        · intro root member
          exact rewritten_tied rewritten spaces.member member high
        · exact distinct
        · exact assigned page high
      · intro free away
        have firstAway := away 0 (by omega)
        rw [Nat.add_zero] at firstAway
        have keptFirst := kept_fill_slot spaces free firstLow table (by decide : 0 < 4294967296) firstAway
        refine kept_trans keptFirst (keeps keptFirst.free ?_)
        intro j inside
        have place : i + 1 + j = i + (j + 1) := by omega
        exact place ▸ away (j + 1) (by omega)

/-- One round of the loop that maps kept entries. -/
theorem transfer_put_cons {entry : Nat} {entries : List Nat}
    (completed : virtTransferPut machine vaddr i (entry :: entries) = .ok next) :
    ∃ middle, mapPage machine (rangePage vaddr i) (getPaddr entry) (getFlags entry) =
        .ok (false, middle) ∧ virtTransferPut middle vaddr (i + 1) entries = .ok next := by
  rw [virtTransferPut, Trap.bind_eq_ok] at completed
  obtain ⟨⟨mapped, middle⟩, first, rest⟩ := completed
  dsimp only at rest
  rw [Trap.bind_eq_ok] at rest
  obtain ⟨_, asserted, rest⟩ := rest
  rw [Trap.kernel_assert_eq_ok] at asserted
  exact ⟨middle, asserted ▸ first, rest⟩

theorem get_flags_lt (entry : Nat) : getFlags entry < 4096 := by
  rw [get_flags_mod]
  exact Nat.mod_lt _ (by decide)

theorem get_paddr_lt (entry : Nat) : getPaddr entry < 4294967296 :=
  lt_of_le_of_lt Nat.and_le_right (by decide)

/-- Where all tables are there, the loop writes the entries to their slots. -/
theorem transfer_put_tables (spaces : Spaces machine roots) (small : i + count ≤ 1048576)
    (low : ∀ j < count, pageOf vaddr (i + j) < 1047552)
    (tables : ∀ j < count,
      Present (directoryEntry machine.memory machine.cr3 (pageOf vaddr (i + j) / 1024)))
    (valid : ∀ j, i ≤ j → j < i + count → Present (value j) ∧ value j < 4294967296)
    (completed : virtTransferPut machine vaddr i ((List.range' i count).map value) = .ok next) :
    Rewritten machine next roots ∧
      next.memory = writeAll machine.memory (slotWords machine vaddr i count value) ∧
      ∀ page < 1047552, Assigned machine next roots vaddr i count value page := by
  induction count generalizing machine i with
  | zero =>
      cases completed
      exact ⟨rewritten_refl _ roots, rfl, fun _ _ => assigned_none⟩
  | succ count ih =>
      rw [List.range'_succ, List.map_cons] at completed
      obtain ⟨middle, first, rest⟩ := transfer_put_cons completed
      have firstLow := low 0 (by omega)
      have table := tables 0 (by omega)
      rw [Nat.add_zero] at firstLow table
      obtain ⟨valuePresent, valueBound⟩ := valid i le_rfl (by omega)
      rw [map_page_table spaces.selfMapped (range_page_lt vaddr i) (by rw [range_page_page]; exact table),
        range_page_page, create_entry_restores valueBound valuePresent] at first
      have filled : middle = fillSlot machine (pageOf vaddr i) (value i) := by
        split_ifs at first
        · cases first
        · exact (Prod.mk.inj (Except.ok.inj first)).2.symm
      have rewritten := rewritten_fill_slot spaces (value i) firstLow table
      have sameRoot := rewritten.sameRoots _ spaces.member
      have distinct : ∀ j < count, pageOf vaddr i ≠ pageOf vaddr (i + 1 + j) := by
        intro j inside same
        have equal := page_of_injective (by omega) (by omega) same
        omega
      have shift : ∀ j, i + 1 + j = i + (j + 1) := fun j => by omega
      rw [filled] at rest
      obtain ⟨later, memory, assigned⟩ := ih (rewritten_spaces spaces rewritten) (by omega)
        (fun j inside => shift j ▸ low (j + 1) (by omega))
        (fun j inside => by
          have kept := directory_entry_same_on sameRoot
            (show pageOf vaddr (i + 1 + j) / 1024 < 1024 by have := page_of_lt vaddr (i + 1 + j); omega)
          change Present (directoryEntry _ machine.cr3 _)
          rw [kept, shift j]
          exact tables (j + 1) (by omega))
        (fun j above below => valid j (by omega) (by omega)) rest
      refine ⟨rewritten_trans rewritten later, ?_, ?_⟩
      · rw [memory, slot_words_succ (fillSlot machine (pageOf vaddr i) (value i))]
        · rfl
        · intro j inside
          exact slot_same_on sameRoot (page_of_lt _ _)
      · intro page high
        apply assigned_cons (fillSlot machine (pageOf vaddr i) (value i))
        · intro root member
          rw [fill_slot_entry spaces firstLow table valueBound member high]
          by_cases here : page = pageOf vaddr i
          · rw [here]
          · rw [if_neg fun both => here both.1, if_neg fun both => here both.1]
        · intro root member
          exact rewritten_tied rewritten spaces.member member high
        · exact distinct
        · exact assigned page high

/-- Away from the window, the loop maps the entries and makes tables where it has to. -/
theorem transfer_put_ok (spaces : Spaces machine roots) (free : FreeList machine roots frames)
    (small : i + count ≤ 1048576) (low : ∀ j < count, pageOf vaddr (i + j) < 1047552)
    (away : ∀ j < count, pageOf vaddr (i + j) ≠ windowPage machine)
    (valid : ∀ j, i ≤ j → j < i + count → Present (value j) ∧ value j < 4294967296)
    (completed : virtTransferPut machine vaddr i ((List.range' i count).map value) = .ok next) :
    ∃ rest, Kept machine next roots frames rest ∧ ∀ page < 1047552, page ≠ windowPage machine →
      Assigned machine next roots vaddr i count value page := by
  induction count generalizing machine i frames with
  | zero =>
      cases completed
      exact ⟨frames, kept_refl spaces free, fun _ _ _ => assigned_none⟩
  | succ count ih =>
      rw [List.range'_succ, List.map_cons] at completed
      obtain ⟨middle, first, rest⟩ := transfer_put_cons completed
      have firstLow := low 0 (by omega)
      have firstAway := away 0 (by omega)
      rw [Nat.add_zero] at firstLow firstAway
      obtain ⟨valuePresent, valueBound⟩ := valid i le_rfl (by omega)
      rcases map_page_ok spaces free (by rw [range_page_page]; exact firstLow)
        (by rw [range_page_page]; exact firstAway) (get_paddr_lt _) (get_flags_lt _) first with
        ⟨wrong, _⟩ | ⟨_, between, mapped⟩
      · cases wrong
      · have shift : ∀ j, i + 1 + j = i + (j + 1) := fun j => by omega
        have window := kept_window mapped.kept
        obtain ⟨last, later, assigned⟩ := ih mapped.kept.spaces mapped.kept.free (by omega)
          (fun j inside => shift j ▸ low (j + 1) (by omega))
          (fun j inside => window ▸ shift j ▸ away (j + 1) (by omega))
          (fun j above below => valid j (by omega) (by omega)) rest
        refine ⟨last, kept_trans mapped.kept later, ?_⟩
        intro page high notWindow
        apply assigned_cons
        · intro root member
          have entries := mapped.entries root member page high notWindow
          rw [range_page_page, create_entry_restores valueBound valuePresent] at entries
          rw [entries]
          by_cases here : page = pageOf vaddr i
          · rw [here]
          · rw [if_neg fun both => here both.1, if_neg fun both => here both.1]
        · intro root member
          have tied := kept_tied mapped.kept spaces.member member high
          rw [kept_cr3 mapped.kept]
          exact tied
        · intro j inside same
          have equal := page_of_injective (by omega) (by omega) same
          omega
        · exact assigned page high (window ▸ notWindow)

/-- Without the window no page table can be made, and `map_page` does not return. -/
theorem map_page_no_window (paddr flags : Nat) (spaces : Spaces machine roots)
    (absent : ¬ Present (pageEntry machine.memory machine.cr3 (windowPage machine)))
    (missing : ¬ Present (directoryEntry machine.memory machine.cr3 (vaddr / 4096 / 1024)))
    (bounded : vaddr < 4294967296) : ∃ trap, mapPage machine vaddr paddr flags = .error trap := by
  obtain ⟨trap, stuck⟩ := alloc_frame_no_window absent
  refine ⟨trap, ?_⟩
  rw [mapPage, makePageTable, get_pd_index_page, pde_ok spaces.selfMapped (by omega), Trap.ok_bind,
    if_pos (mt (entry_present_iff _).1 missing), stuck]
  rfl

theorem transfer_put_no_window (spaces : Spaces machine roots) (small : i + count ≤ 1048576)
    (low : ∀ j < count, pageOf vaddr (i + j) < 1047552)
    (away : ∀ j < count, pageOf vaddr (i + j) ≠ windowPage machine)
    (valid : ∀ j, i ≤ j → j < i + count → Present (value j) ∧ value j < 4294967296)
    (absent : ¬ Present (pageEntry machine.memory machine.cr3 (windowPage machine)))
    (completed : virtTransferPut machine vaddr i ((List.range' i count).map value) = .ok next) :
    ∀ j < count, Present (directoryEntry machine.memory machine.cr3 (pageOf vaddr (i + j) / 1024)) := by
  induction count generalizing machine i with
  | zero => exact fun j inside => absurd inside (Nat.not_lt_zero j)
  | succ count ih =>
      rw [List.range'_succ, List.map_cons] at completed
      obtain ⟨middle, first, rest⟩ := transfer_put_cons completed
      have firstLow := low 0 (by omega)
      have firstAway := away 0 (by omega)
      rw [Nat.add_zero] at firstLow firstAway
      obtain ⟨valuePresent, valueBound⟩ := valid i le_rfl (by omega)
      by_cases table : Present (directoryEntry machine.memory machine.cr3 (pageOf vaddr i / 1024))
      · rw [map_page_table spaces.selfMapped (range_page_lt vaddr i) (by rw [range_page_page]; exact table),
          range_page_page, create_entry_restores valueBound valuePresent] at first
        have filled : middle = fillSlot machine (pageOf vaddr i) (value i) := by
          split_ifs at first
          · cases first
          · exact (Prod.mk.inj (Except.ok.inj first)).2.symm
        have rewritten := rewritten_fill_slot spaces (value i) firstLow table
        have sameRoot := rewritten.sameRoots _ spaces.member
        have shift : ∀ j, i + 1 + j = i + (j + 1) := fun j => by omega
        have window := fill_slot_entry spaces firstLow table valueBound spaces.member spaces.windowLow
        rw [if_neg fun both => firstAway both.1.symm] at window
        rw [filled] at rest
        have later := ih (rewritten_spaces spaces rewritten) (by omega)
          (fun j inside => shift j ▸ low (j + 1) (by omega))
          (fun j inside => shift j ▸ away (j + 1) (by omega))
          (fun j above below => valid j (by omega) (by omega))
          (fun present => absent (window ▸ present)) rest
        intro j inside
        cases j with
        | zero => exact table
        | succ j =>
            have present := later j (by omega)
            have kept := directory_entry_same_on sameRoot
              (show pageOf vaddr (i + 1 + j) / 1024 < 1024 by
                have := page_of_lt vaddr (i + 1 + j); omega)
            change Present (directoryEntry _ machine.cr3 _) at present
            rw [kept, shift j] at present
            exact present
      · obtain ⟨trap, stuck⟩ := map_page_no_window (getPaddr (value i))
          (getFlags (value i)) spaces absent (by rw [range_page_page]; exact table)
          (range_page_lt vaddr i)
        rw [stuck] at first
        cases first

end Loops

end ParadiseOS.VirtRanges
