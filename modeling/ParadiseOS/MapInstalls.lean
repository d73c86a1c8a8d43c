import ParadiseOS.SpaceCalls

/-!
# The loops of `syscall_virt_map`

The first loop looks at every page of the range and every word of the array, the
second reads the array again and maps. What it maps are the words that the first
loop has seen, as long as the array does not lie on paging structures or free frames,
which `map_page` writes to. A page of the last 4 MiB is refused there, since no
directory leads users to its own tables.
-/

namespace ParadiseOS.MapInstalls

open FrameSteps MachineWord PagingModel PagingSteps PagingMaps SpaceCalls TransferMoves TwoLevelPaging VirtModel VirtRanges

set_option autoImplicit false

/-- No directory shows users its tables. -/
def ClosedTables (machine : Machine) (roots : List Nat) : Prop :=
  ∀ root ∈ roots, ¬ UserMode (directoryEntry machine.memory root 1023)

/-- The bytes of the word at an address do not lie on paging structures or free frames. -/
def PlainWord (machine : Machine) (roots frames : List Nat) (addr : Nat) : Prop :=
  ∀ byte < 4, ∀ cell, translate machine.memory machine.cr3 (u32 (addr + byte)) = some cell →
    ¬ InUse machine roots frames (cell / 4096 * 4096)

section Words

variable {machine next : Machine} {roots frames rest : List Nat} {page paddr flags addr cell : Nat}

theorem physical_iff : physical machine addr = .ok cell ↔
    translate machine.memory machine.cr3 addr = some cell := by
  unfold physical
  split
  · rename_i found same
    rw [same, Except.ok.injEq, Option.some.injEq]
  · rename_i same
    rw [same]
    exact iff_of_false (fun wrong => by cases wrong) (fun wrong => by cases wrong)

/-- Where an address of the last 4 MiB leads: to a table or to the directory. -/
theorem high_address_in_use (spaces : Spaces machine roots) (small : addr < 4294967296)
    (high : 1047552 ≤ addr / 4096) (found : translate machine.memory machine.cr3 addr = some cell) :
    InUse machine roots frames (cell / 4096 * 4096) := by
  have entry := page_entry_high spaces.selfMapped high (by omega)
  rw [TwoLevelPaging.translate, entry] at found
  split_ifs at found with present
  have place : cell / 4096 * 4096 =
      frameOf (directoryEntry machine.memory machine.cr3 (addr / 4096 - 1047552)) := by
    have isCell := Option.some.inj found
    have aligned := frame_of_aligned (directoryEntry machine.memory machine.cr3 (addr / 4096 - 1047552))
    omega
  rw [place]
  by_cases last : addr / 4096 - 1047552 = 1023
  · left
    rw [last, spaces.selfMapped.2]
    exact spaces.member
  · exact .inr (.inl ⟨_, spaces.member, _, by omega, present, rfl⟩)

/-- The entries of all pages but the mapped one are the same where plain memory is behind them. -/
theorem mapped_entry_kept (spaces : Spaces machine roots) (free : FreeList machine roots frames)
    (mapped : Mapped machine next roots frames rest page paddr flags) (low : page < 1047552)
    (notWindow : page ≠ windowPage machine) (word : createEntry paddr flags < 4294967296) {other : Nat}
    (high : other < 1047552) (present : Present (pageEntry machine.memory machine.cr3 other))
    (unused : ¬ InUse machine roots frames (frameOf (pageEntry machine.memory machine.cr3 other))) :
    pageEntry next.memory machine.cr3 other = pageEntry machine.memory machine.cr3 other := by
  have differ : other ≠ page := by
    rintro rfl
    exact mapped.absent present
  by_cases window : other = windowPage machine
  · rcases mapped.taken with ⟨table, _, _, memory⟩ | ⟨_, frame, isFree, _⟩
    · have filled := fill_slot_entry spaces low table word spaces.member high
      rw [if_neg fun both => differ both.1] at filled
      rw [memory]
      exact filled
    · have member : frame ∈ frames := isFree ▸ List.mem_cons_self
      have top : machine.freeFramePaddr = frame := by
        have linked := free.linked
        rw [isFree] at linked
        exact linked.1
      have aligned := free.aligned frame member
      have shown : frameOf (pageEntry machine.memory machine.cr3 other) = frame := by
        rw [window, free.window, top, create_entry_frame (free.bounded frame member) (by decide), frameOf]
        omega
      exact absurd (.inr (.inr (shown.symm ▸ member))) unused
  · have entries := mapped.entries _ spaces.member other high window
    rwa [if_neg fun both => differ both.1] at entries

/-- A plain byte is found where it was, with the value it had. -/
theorem mapped_byte_kept (spaces : Spaces machine roots) (free : FreeList machine roots frames)
    (mapped : Mapped machine next roots frames rest page paddr flags) (low : page < 1047552)
    (notWindow : page ≠ windowPage machine) (word : createEntry paddr flags < 4294967296)
    (small : addr < 4294967296) (found : translate machine.memory machine.cr3 addr = some cell)
    (unused : ¬ InUse machine roots frames (cell / 4096 * 4096)) :
    translate next.memory machine.cr3 addr = some cell ∧ next.memory cell = machine.memory cell := by
  have below : addr / 4096 < 1047552 := by
    by_contra high
    exact unused (high_address_in_use spaces small (by omega) found)
  constructor
  · have here := found
    rw [TwoLevelPaging.translate] at here
    split_ifs at here with present
    have aligned := frame_of_aligned (pageEntry machine.memory machine.cr3 (addr / 4096))
    have isCell := Option.some.inj here
    have place : cell / 4096 * 4096 = frameOf (pageEntry machine.memory machine.cr3 (addr / 4096)) := by omega
    have entry := mapped_entry_kept spaces free mapped low notWindow word below present (place ▸ unused)
    rw [TwoLevelPaging.translate, entry, ← TwoLevelPaging.translate]
    exact found
  · exact mapped.kept.outside _ (by omega) unused cell (by omega) (by omega)

/-- A plain word is read as before, and stays plain. -/
theorem mapped_word_kept {value : Nat} (spaces : Spaces machine roots) (free : FreeList machine roots frames)
    (mapped : Mapped machine next roots frames rest page paddr flags) (low : page < 1047552)
    (notWindow : page ≠ windowPage machine) (word : createEntry paddr flags < 4294967296)
    (small : addr < 4294967296) (plain : PlainWord machine roots frames addr)
    (loaded : loadWord machine addr = .ok value) :
    loadWord next addr = .ok value ∧ PlainWord next roots rest addr := by
  have cr3 := kept_cr3 mapped.kept
  have kept : ∀ byte < 4, ∀ cell, physical machine (u32 (addr + byte)) = .ok cell →
      physical next (u32 (addr + byte)) = .ok cell ∧ next.memory cell = machine.memory cell ∧
        ¬ InUse next roots rest (cell / 4096 * 4096) := by
    intro byte inside cell found
    rw [physical_iff] at found ⊢
    have unused := plain byte inside cell found
    rw [cr3, mapped.kept.inUse]
    obtain ⟨same, value⟩ := mapped_byte_kept spaces free mapped low notWindow word (u32_lt _) found unused
    exact ⟨same, value, unused⟩
  have whole : u32 (addr + 0) = addr := u32_of_lt small
  obtain ⟨first, firstAt, loaded⟩ := Trap.bind_eq_ok.mp loaded
  obtain ⟨second, secondAt, loaded⟩ := Trap.bind_eq_ok.mp loaded
  obtain ⟨third, thirdAt, loaded⟩ := Trap.bind_eq_ok.mp loaded
  obtain ⟨fourth, fourthAt, loaded⟩ := Trap.bind_eq_ok.mp loaded
  have firstKept := kept 0 (by decide) first (whole.symm ▸ firstAt)
  have secondKept := kept 1 (by decide) second secondAt
  have thirdKept := kept 2 (by decide) third thirdAt
  have fourthKept := kept 3 (by decide) fourth fourthAt
  have located : ∀ byte < 4, ∃ cell, physical machine (u32 (addr + byte)) = .ok cell := by
    intro byte inside
    have cases_ : byte = 0 ∨ byte = 1 ∨ byte = 2 ∨ byte = 3 := by omega
    rcases cases_ with rfl | rfl | rfl | rfl
    · exact ⟨first, whole.symm ▸ firstAt⟩
    · exact ⟨second, secondAt⟩
    · exact ⟨third, thirdAt⟩
    · exact ⟨fourth, fourthAt⟩
  constructor
  · rw [whole] at firstKept
    rw [loadWord, firstKept.1, Trap.ok_bind, secondKept.1, Trap.ok_bind, thirdKept.1, Trap.ok_bind,
      fourthKept.1, Trap.ok_bind, firstKept.2.1, secondKept.2.1, thirdKept.2.1, fourthKept.2.1]
    exact loaded
  · intro byte inside cell found
    obtain ⟨other, was⟩ := located byte inside
    obtain ⟨now, _, unused⟩ := kept byte inside other was
    rw [← physical_iff, now, Except.ok.injEq] at found
    exact found ▸ unused

end Words

section Loops

variable {machine middle next : Machine} {roots frames rest : List Nat} {vaddr paddr flags i count : Nat}
  {element : Nat → Nat}

/-- The first loop finds nothing wrong if all pages are free and all words are addresses of frames
for users. -/
theorem map_check_iff {err : Nat} (selfMapped : SelfMapped machine.memory machine.cr3)
    (completed : virtMapCheck machine vaddr paddr i count = .ok err) :
    err = 0 ↔ ∀ j < count, ¬ Present (pageEntry machine.memory machine.cr3 (pageOf vaddr (i + j))) ∧
      ∃ word, loadWord machine (elementAddr paddr (i + j)) = .ok word ∧
        userFrameValid machine word = .ok true := by
  induction count generalizing i with
  | zero =>
      rw [virtMapCheck, Except.ok.injEq] at completed
      exact iff_of_true completed.symm fun j small => absurd small (Nat.not_lt_zero j)
  | succ count ih =>
      have entry := get_entry_ok selfMapped (range_page_lt vaddr i)
      rw [range_page_page] at entry
      rw [virtMapCheck, entry, Trap.ok_bind] at completed
      split_ifs at completed with present
      · rw [Trap.pure_ok, Except.ok.injEq] at completed
        refine iff_of_false (completed ▸ by decide) fun all => ?_
        exact (all 0 (by omega)).1 ((entry_present_iff _).1 present)
      · obtain ⟨word, loaded, completed⟩ := Trap.bind_eq_ok.mp completed
        obtain ⟨valid, checked, completed⟩ := Trap.bind_eq_ok.mp completed
        split_ifs at completed with invalid
        · rw [Trap.pure_ok, Except.ok.injEq] at completed
          refine iff_of_false (completed ▸ by decide) fun all => ?_
          obtain ⟨_, other, again, accepted⟩ := all 0 (by omega)
          rw [Nat.add_zero, loaded, Except.ok.injEq] at again
          rw [← again, checked, invalid] at accepted
          cases accepted
        · have accepted : userFrameValid machine word = .ok true := by
            rw [checked, Bool.eq_true_of_not_eq_false invalid]
          refine (ih completed).trans ⟨fun later j small => ?_, fun all j small => ?_⟩
          · cases j with
            | zero => exact ⟨mt (entry_present_iff _).2 present, word, loaded, accepted⟩
            | succ j =>
                have place : i + (j + 1) = i + 1 + j := by omega
                rw [place]
                exact later j (by omega)
          · have place : i + 1 + j = i + (j + 1) := by omega
            rw [place]
            exact all (j + 1) (by omega)

/-- `map_page` does not map a page of the last 4 MiB for users. -/
theorem map_page_closed {address : Nat} {mapped : Bool} (spaces : Spaces machine roots)
    (closed : ¬ UserMode (directoryEntry machine.memory machine.cr3 1023)) (user : flags &&& 4 ≠ 0)
    (small : vaddr < 4294967296) (completed : mapPage machine vaddr address flags = .ok (mapped, next)) :
    vaddr / 4096 < 1047552 := by
  by_contra high
  have index : vaddr / 4096 / 1024 = 1023 := by omega
  have present : Present (directoryEntry machine.memory machine.cr3 (vaddr / 4096 / 1024)) := by
    rw [index]
    exact spaces.selfMapped.1
  rw [map_page_table spaces.selfMapped small present, index, if_pos] at completed
  · cases completed
  · exact ⟨user, not_not.1 fun allowed => closed ((get_flags_user_iff _).1 allowed)⟩

/-- One round of the second loop. -/
theorem map_install_cons (completed : virtMapInstall machine vaddr paddr flags i (count + 1) = .ok next) :
    ∃ word middle, loadWord machine (elementAddr paddr i) = .ok word ∧
      mapPage machine (rangePage vaddr i) word flags = .ok (false, middle) ∧
      virtMapInstall middle vaddr paddr flags (i + 1) count = .ok next := by
  obtain ⟨word, loaded, completed⟩ := Trap.bind_eq_ok.mp completed
  obtain ⟨⟨mapped, middle⟩, mapping, completed⟩ := Trap.bind_eq_ok.mp completed
  obtain ⟨_, asserted, completed⟩ := Trap.bind_eq_ok.mp completed
  rw [Trap.kernel_assert_eq_ok] at asserted
  exact ⟨word, middle, loaded, asserted ▸ mapping, completed⟩

/-- What the second loop did: it mapped pages that were free, with the words of the array. -/
structure Installed (machine next : Machine) (roots frames rest : List Nat) (vaddr flags i count : Nat)
    (element : Nat → Nat) : Prop where
  kept : Kept machine next roots frames rest
  low : ∀ j < count, pageOf vaddr (i + j) < 1047552
  away : ∀ j < count, pageOf vaddr (i + j) ≠ windowPage machine
  absent : ∀ j < count, ¬ Present (pageEntry machine.memory machine.cr3 (pageOf vaddr (i + j)))
  allowed : ∀ j < count, Present (directoryEntry machine.memory machine.cr3 (pageOf vaddr (i + j) / 1024)) →
    UserMode (directoryEntry machine.memory machine.cr3 (pageOf vaddr (i + j) / 1024))
  entries : ∀ page < 1047552, page ≠ windowPage machine →
    Assigned machine next roots vaddr i count (fun j => createEntry (element j) flags) page
  inPlace : (∀ j < count, Present (directoryEntry machine.memory machine.cr3 (pageOf vaddr (i + j) / 1024))) →
    Rewritten machine next roots ∧
      Assigned machine next roots vaddr i count (fun j => createEntry (element j) flags) (windowPage machine)

/-- `map_page` maps free pages only. -/
theorem map_page_absent {address : Nat} (spaces : Spaces machine roots) (small : vaddr < 4294967296)
    (completed : mapPage machine vaddr address flags = .ok (false, next)) :
    ¬ Present (pageEntry machine.memory machine.cr3 (vaddr / 4096)) := by
  by_cases table : Present (directoryEntry machine.memory machine.cr3 (vaddr / 4096 / 1024))
  · rw [map_page_table spaces.selfMapped small table] at completed
    split_ifs at completed with refused there
    · cases completed
    · exact there
  · exact fun present => table (page_entry_present present)

/-- A page is mapped, and then the others. -/
theorem installed_cons {between : List Nat} {word : Nat} (spaces : Spaces machine roots) (user : flags &&& 4 ≠ 0)
    (entryBound : createEntry word flags < 4294967296) (isWord : element i = word)
    (low : pageOf vaddr i < 1047552) (away : pageOf vaddr i ≠ windowPage machine)
    (mapped : Mapped machine middle roots frames between (pageOf vaddr i) word flags)
    (filled : Present (directoryEntry machine.memory machine.cr3 (pageOf vaddr i / 1024)) →
      middle = fillSlot machine (pageOf vaddr i) (createEntry word flags))
    (later : Installed middle next roots between rest vaddr flags (i + 1) count element) :
    Installed machine next roots frames rest vaddr flags i (count + 1) element := by
  have cr3 := kept_cr3 mapped.kept
  have window := kept_window mapped.kept
  have shift : ∀ j, i + (j + 1) = i + 1 + j := fun j => by omega
  have here := mapped.entries _ spaces.member _ low away
  rw [if_pos ⟨rfl, .inl rfl⟩] at here
  have distinct : ∀ j < count, pageOf vaddr i ≠ pageOf vaddr (i + 1 + j) := by
    intro j inside same
    have absent := later.absent j inside
    rw [← same, cr3, here] at absent
    exact absent (create_entry_present _ _)
  have split : ∀ {P : Nat → Prop}, P i → (∀ j < count, P (i + 1 + j)) → ∀ j < count + 1, P (i + j) := by
    intro P first rest j inside
    cases j with
    | zero => exact first
    | succ j => exact shift j ▸ rest j (by omega)
  have assign : ∀ page < 1047552, (∀ root ∈ roots, pageEntry middle.memory root page =
      if page = pageOf vaddr i ∧ Tied machine machine.cr3 root (pageOf vaddr i) then createEntry word flags
      else pageEntry machine.memory root page) →
      Assigned middle next roots vaddr (i + 1) count (fun j => createEntry (element j) flags) page →
      Assigned machine next roots vaddr i (count + 1) (fun j => createEntry (element j) flags) page := by
    intro page high entries assigned
    apply assigned_cons middle
    · intro root member
      rw [entries root member, isWord]
      by_cases same : page = pageOf vaddr i
      · rw [same]
      · rw [if_neg fun both => same both.1, if_neg fun both => same both.1]
    · intro root member
      rw [cr3]
      exact kept_tied mapped.kept spaces.member member high
    · exact distinct
    · exact assigned
  refine ⟨kept_trans mapped.kept later.kept, @split (fun j => pageOf vaddr j < 1047552) low later.low,
    @split (fun j => pageOf vaddr j ≠ windowPage machine) away fun j inside => window ▸ later.away j inside,
    @split (fun j => ¬ Present (pageEntry machine.memory machine.cr3 (pageOf vaddr j))) mapped.absent ?_,
    @split (fun j => Present (directoryEntry machine.memory machine.cr3 (pageOf vaddr j / 1024)) →
      UserMode (directoryEntry machine.memory machine.cr3 (pageOf vaddr j / 1024))) ?_ ?_, ?_, ?_⟩
  · intro j inside present
    apply later.absent j inside
    have lower := later.low j inside
    have apart : pageOf vaddr (i + 1 + j) ≠ windowPage machine := window ▸ later.away j inside
    have entry := mapped.entries _ spaces.member _ lower apart
    rw [if_neg fun both => distinct j inside both.1.symm] at entry
    rw [cr3, entry]
    exact present
  · intro present
    have same := mapped.kept.directory _ spaces.member _ (by omega) present
    exact same ▸ mapped.userTable user
  · intro j inside present
    have small := page_of_lt vaddr (i + 1 + j)
    have same := mapped.kept.directory _ spaces.member (pageOf vaddr (i + 1 + j) / 1024) (by omega) present
    have later := later.allowed j inside
    rw [cr3, same] at later
    exact later present
  · intro page high notWindow
    exact assign page high (fun root member => mapped.entries root member page high notWindow)
      (later.entries page high (window ▸ notWindow))
  · intro tables
    have table := tables 0 (by omega)
    rw [Nat.add_zero] at table
    have isMiddle := filled table
    obtain ⟨rewritten, assigned⟩ := later.inPlace fun j inside => by
      have small := page_of_lt vaddr (i + 1 + j)
      have there := tables (j + 1) (by omega)
      rw [shift j] at there
      rw [cr3, mapped.kept.directory _ spaces.member _ (by omega) there]
      exact there
    have first := rewritten_fill_slot spaces (createEntry word flags) low table
    rw [← isMiddle] at first
    refine ⟨rewritten_trans first rewritten, ?_⟩
    rw [window] at assigned
    refine assign _ spaces.windowLow (fun root member => ?_) assigned
    rw [isMiddle]
    exact fill_slot_entry spaces low table entryBound member spaces.windowLow

theorem map_install_ok (spaces : Spaces machine roots) (free : FreeList machine roots frames)
    (closed : ¬ UserMode (directoryEntry machine.memory machine.cr3 1023)) (user : flags &&& 4 ≠ 0)
    (small : flags < 4096)
    (shown : ∀ j < count, loadWord machine (elementAddr paddr (i + j)) = .ok (element (i + j)))
    (plain : ∀ j < count, PlainWord machine roots frames (elementAddr paddr (i + j)))
    (completed : virtMapInstall machine vaddr paddr flags i count = .ok next) :
    ∃ rest, Installed machine next roots frames rest vaddr flags i count element := by
  induction count generalizing machine i frames with
  | zero =>
      cases completed
      have none : ∀ {P : Nat → Prop}, ∀ j < 0, P j := fun j wrong => absurd wrong (Nat.not_lt_zero j)
      exact ⟨frames, kept_refl spaces free, none, none, none, none, fun _ _ _ => assigned_none,
        fun _ => ⟨rewritten_refl _ roots, assigned_none⟩⟩
  | succ count ih =>
      obtain ⟨word, middle, loaded, mapping, completed⟩ := map_install_cons completed
      have isWord : element i = word := by
        have here := shown 0 (by omega)
        rw [Nat.add_zero, loaded, Except.ok.injEq] at here
        exact here.symm
      have bounded := load_word_lt loaded
      have entryBound := create_entry_lt bounded small
      have low := map_page_closed spaces closed user (range_page_lt vaddr i) mapping
      have absent := map_page_absent spaces (range_page_lt vaddr i) mapping
      have away : rangePage vaddr i / 4096 ≠ windowPage machine :=
        fun same => absent (same ▸ window_present free)
      rcases map_page_ok spaces free low away bounded small mapping with ⟨wrong, _⟩ | ⟨_, between, mapped⟩
      · cases wrong
      · have cr3 := kept_cr3 mapped.kept
        have same := mapped.kept.directory _ spaces.member 1023 (by decide) spaces.selfMapped.1
        have shift : ∀ j, i + 1 + j = i + (j + 1) := fun j => by omega
        have kept := fun j (inside : j < count) => mapped_word_kept spaces free mapped low away entryBound
          (u32_lt _) (shift j ▸ plain (j + 1) (by omega)) (shift j ▸ shown (j + 1) (by omega))
        obtain ⟨rest, later⟩ := ih mapped.kept.spaces mapped.kept.free (by rw [cr3, same]; exact closed)
          (fun j inside => (kept j inside).1) (fun j inside => (kept j inside).2) completed
        rw [range_page_page] at low away absent mapped
        refine ⟨rest, installed_cons spaces user entryBound isWord low away mapped ?_ later⟩
        intro table
        rw [map_page_table spaces.selfMapped (range_page_lt vaddr i) (by rw [range_page_page]; exact table),
          range_page_page] at mapping
        split_ifs at mapping
        exact (Prod.mk.inj (Except.ok.inj mapping)).2.symm

end Loops

end ParadiseOS.MapInstalls
