import ParadiseOS.MapCalls

/-!
# What `syscall_virt_unmap` does

Its second loop clears the slot of a page and stores the frame in the array, which is
looked up in the target's address space as it is at that moment. The array's words must not
lie on paging structures.
-/

namespace ParadiseOS.UnmapCalls

open MachineWord MapInstalls PagingModel PagingSteps PagingMaps SpaceCalls TransferMoves TwoLevelPaging VirtModel
open VirtRanges
open RbTreeRuns (getProcess)

set_option autoImplicit false

section Cells

variable {memory other : Memory} {cells : Nat → Nat → Nat} {word : Nat → Nat} {i count cell : Nat}

/-- Words stored one after the other, each byte in its cell. -/
def storeCells (memory : Memory) (cells : Nat → Nat → Nat) (word : Nat → Nat) (i : Nat) : Nat → Memory
  | 0 => memory
  | count + 1 =>
      storeCells (writeBytes memory (cells i 0) (cells i 1) (cells i 2) (cells i 3) (word i)) cells word
        (i + 1) count

theorem write_bytes_congr {first second third fourth value : Nat} (same : memory cell = other cell) :
    writeBytes memory first second third fourth value cell =
      writeBytes other first second third fourth value cell := by
  simp only [writeBytes, same]

/-- A cell's byte depends on what it was and on the stores. -/
theorem store_cells_congr (same : memory cell = other cell) :
    storeCells memory cells word i count cell = storeCells other cells word i count cell := by
  induction count generalizing memory other i with
  | zero => exact same
  | succ count ih => exact ih (write_bytes_congr same)

/-- Only the words that are stored matter. -/
theorem store_cells_agree {others : Nat → Nat → Nat} {value : Nat → Nat}
    (agree : ∀ j, i ≤ j → j < i + count → cells j = others j ∧ word j = value j) :
    storeCells memory cells word i count = storeCells memory others value i count := by
  induction count generalizing memory i with
  | zero => rfl
  | succ count ih =>
      obtain ⟨sameCells, sameWord⟩ := agree i le_rfl (by omega)
      rw [storeCells, storeCells, sameCells, sameWord]
      exact ih fun j above below => agree j (by omega) (by omega)

theorem write_bytes_apart {first second third fourth value : Nat} (apart : cell ≠ first ∧ cell ≠ second ∧
    cell ≠ third ∧ cell ≠ fourth) : writeBytes memory first second third fourth value cell = memory cell := by
  obtain ⟨one, two, three, four⟩ := apart
  simp only [writeBytes, if_neg one, if_neg two, if_neg three, if_neg four]

theorem store_cells_apart (apart : ∀ j < count, ∀ byte < 4, cells (i + j) byte ≠ cell) :
    storeCells memory cells word i count cell = memory cell := by
  induction count generalizing memory i with
  | zero => rfl
  | succ count ih =>
      rw [storeCells, ih fun j inside byte small => ?_]
      · have here := apart 0 (by omega)
        rw [Nat.add_zero] at here
        exact write_bytes_apart ⟨(here 0 (by decide)).symm, (here 1 (by decide)).symm, (here 2 (by decide)).symm,
          (here 3 (by decide)).symm⟩
      · have place : i + 1 + j = i + (j + 1) := by omega
        rw [place]
        exact apart (j + 1) (by omega) byte small

/-- Where no two bytes fall on one cell, each word ends up in its cells. -/
theorem store_cells_last {k byte : Nat} (inside : k < count) (small : byte < 4)
    (single : ∀ j < count, ∀ other < 4, cells (i + j) other = cells (i + k) byte → j = k ∧ other = byte) :
    storeCells memory cells word i count (cells (i + k) byte) = UInt8.ofNat (word (i + k) / 256 ^ byte) := by
  induction count generalizing memory i k with
  | zero => exact absurd inside (Nat.not_lt_zero k)
  | succ count ih =>
      have shift : ∀ j, i + 1 + j = i + (j + 1) := fun j => by omega
      rw [storeCells]
      cases k with
      | zero =>
          have here : ∀ other < 4, cells i other = cells i byte → 0 = 0 ∧ other = byte :=
            fun other below => single 0 (by omega) other below
          change storeCells _ cells word (i + 1) count (cells i byte) = UInt8.ofNat (word i / 256 ^ byte)
          rw [store_cells_apart fun j within other below same => ?_]
          · have cases_ : byte = 0 ∨ byte = 1 ∨ byte = 2 ∨ byte = 3 := by omega
            have differ : ∀ other < 4, other ≠ byte → cells i byte ≠ cells i other :=
              fun other below away same => away (here other below same.symm).2
            rcases cases_ with rfl | rfl | rfl | rfl
            · simp only [writeBytes, if_true, Nat.pow_zero, Nat.div_one]
            · simp only [writeBytes, if_neg (differ 0 (by decide) (by decide)), if_true, Nat.pow_one]
            · simp only [writeBytes, if_neg (differ 0 (by decide) (by decide)),
                if_neg (differ 1 (by decide) (by decide)), if_true]
              rfl
            · simp only [writeBytes, if_neg (differ 0 (by decide) (by decide)),
                if_neg (differ 1 (by decide) (by decide)), if_neg (differ 2 (by decide) (by decide)), if_true]
              rfl
          · rw [shift j] at same
            have equal := (single (j + 1) (by omega) other below same).1
            omega
      | succ k =>
          rw [← shift k]
          apply ih (by omega)
          intro j within other below same
          rw [shift j, shift k] at same
          have equal := single (j + 1) (by omega) other below same
          exact ⟨Nat.succ.inj equal.1, equal.2⟩

end Cells

section Steps

variable {machine next : Machine} {roots : List Nat} {aid root vaddr paddr n : Nat} {result : SyscallResult}

/-- The process is there, the array starts on a page that the caller may write, and all pages of the
range are mapped. -/
structure Unmappable (machine : Machine) (aid root vaddr paddr n : Nat) : Prop where
  small : aid >>> 16 = 0
  found : getProcess machine.processTree aid ≠ .ok 0
  writable : validateUserWritable machine paddr ≠ .ok 0
  mapped : ∀ i < n, Present (pageEntry machine.memory root (pageOf vaddr i))

/-- A call that returns has refused and changed nothing, or was accepted and removes the range. -/
theorem virt_unmap_ok (spaces : Spaces machine roots) (processes : ProcessRoots machine roots)
    (isRoot : root = spaceOf machine aid)
    (completed : syscallVirtUnmap machine aid vaddr paddr n = .ok (result, next)) :
    (¬ Unmappable machine aid root vaddr paddr n ∧ result.err ≠ 0 ∧ next = machine) ∨
      (Unmappable machine aid root vaddr paddr n ∧ result.err = 0 ∧ root ∈ roots ∧
        ∃ removed, virtUnmapRemove (switch machine root) vaddr paddr 0 n = .ok removed ∧
          next = setPageDir removed (getPageDir machine)) := by
  obtain ⟨process, found, completed⟩ := Trap.bind_eq_ok.mp completed
  unfold findProcess at found
  split_ifs at completed with missing
  · cases completed
    refine .inl ⟨fun accepted => ?_, by decide, rfl⟩
    rw [if_pos accepted.small, missing] at found
    exact accepted.found found
  · split_ifs at found with small
    · obtain ⟨pointer, validated, completed⟩ := Trap.bind_eq_ok.mp completed
      split_ifs at completed with invalid
      · cases completed
        exact .inl ⟨fun accepted => accepted.writable (invalid ▸ validated), by decide, rfl⟩
      · have isPtr : pointer = paddr := by
          have entry := validated
          obtain ⟨_, _, entry⟩ := Trap.bind_eq_ok.mp entry
          split_ifs at entry
          · exact (Except.ok.inj entry).symm
          · exact absurd (Except.ok.inj entry).symm invalid
        rw [isPtr] at completed validated invalid
        have isSpace : root = machine.pageDirPaddr process := by
          rw [isRoot]
          simp only [spaceOf, found]
        have member : root ∈ roots := isSpace ▸ processes aid process found missing
        rw [← isSpace, virtUnmapFrom, set_page_dir_ok spaces.current] at completed
        obtain ⟨mapped, looked, meaning⟩ :=
          range_is_ok (spaces_switch spaces member).selfMapped vaddr true 0 n
        simp only [Nat.zero_add, iff_true] at meaning
        rw [looked, Trap.ok_bind] at completed
        split_ifs at completed with refused
        · have back : setPageDir (switch machine root) (getPageDir machine) = machine := by
            rw [set_page_dir_ok rfl, switch_switch, getPageDir, spaces.current, switch_self spaces.current]
          rw [back] at completed
          cases completed
          refine .inl ⟨fun accepted => ?_, by decide, rfl⟩
          rw [refused] at meaning
          exact Bool.false_ne_true (meaning.2 accepted.mapped)
        · obtain ⟨removed, removing, completed⟩ := Trap.bind_eq_ok.mp completed
          cases completed
          refine .inr ⟨⟨small, ?_, ?_, meaning.1 (Bool.eq_true_of_not_eq_false refused)⟩, rfl, member, removed,
            removing, rfl⟩
          · rw [found]
            exact fun none => missing (Except.ok.inj none)
          · rw [validated]
            exact fun none => invalid (Except.ok.inj none)
    · exact absurd (Except.ok.inj found).symm missing

end Steps

section Words

variable {machine next : Machine} {addr word : Nat}

/-- A store of a word finds a cell for each byte. -/
theorem store_word_cells (small : addr < 4294967296) (stored : storeWord machine addr word = .ok next) :
    ∃ cells : Nat → Nat,
      (∀ byte < 4, translate machine.memory machine.cr3 (u32 (addr + byte)) = some (cells byte)) ∧
        next = { machine with
          memory := writeBytes machine.memory (cells 0) (cells 1) (cells 2) (cells 3) word } := by
  obtain ⟨first, firstAt, stored⟩ := Trap.bind_eq_ok.mp stored
  obtain ⟨second, secondAt, stored⟩ := Trap.bind_eq_ok.mp stored
  obtain ⟨third, thirdAt, stored⟩ := Trap.bind_eq_ok.mp stored
  obtain ⟨fourth, fourthAt, stored⟩ := Trap.bind_eq_ok.mp stored
  rw [Trap.pure_ok, Except.ok.injEq] at stored
  rw [physical_iff] at firstAt secondAt thirdAt fourthAt
  refine ⟨fun byte => if byte = 0 then first else if byte = 1 then second else if byte = 2 then third
    else fourth, ?_, stored.symm⟩
  intro byte inside
  have cases_ : byte = 0 ∨ byte = 1 ∨ byte = 2 ∨ byte = 3 := by omega
  rcases cases_ with rfl | rfl | rfl | rfl
  · rw [Nat.add_zero, u32_of_lt small]
    exact firstAt
  · exact secondAt
  · exact thirdAt
  · exact fourthAt

end Words

/-- What the second loop did: the pages were mapped and are not any more, and the array has their
frames, each stored through a page that was still mapped. -/
structure Removed (machine next : Machine) (roots : List Nat) (vaddr paddr i count : Nat)
    (cells : Nat → Nat → Nat) : Prop where
  globals : next = { machine with memory := next.memory }
  sameRoots : ∀ root ∈ roots, SameOn machine.memory next.memory root
  present : ∀ j < count, Present (pageEntry machine.memory machine.cr3 (pageOf vaddr (i + j)))
  entries : ∀ page < 1047552, Assigned machine next roots vaddr i count (fun _ => 0) page
  located : ∀ j < count, ∀ byte < 4,
    translate machine.memory machine.cr3 (u32 (elementAddr paddr (i + j) + byte)) = some (cells (i + j) byte)
  mapped : ∀ j < count, ∀ byte < 4, ∀ k ≤ j,
    u32 (elementAddr paddr (i + j) + byte) / 4096 ≠ pageOf vaddr (i + k)
  stored : ∀ cell, ¬ IsTable machine.memory roots (cell / 4096 * 4096) →
    next.memory cell = storeCells machine.memory cells
      (fun j => getPaddr (pageEntry machine.memory machine.cr3 (pageOf vaddr j))) i count cell

section Loop

variable {machine next : Machine} {roots frames : List Nat} {vaddr paddr i count : Nat}

/-- A store off the paging structures changes no entry. -/
theorem store_keeps_entries (spaces : Spaces machine roots) (changed : next = { machine with memory := next.memory })
    (same : ∀ cell, (cell / 4096 * 4096 ∈ roots ∨ IsTable machine.memory roots (cell / 4096 * 4096)) →
      next.memory cell = machine.memory cell) :
    (∀ root ∈ roots, SameOn machine.memory next.memory root) ∧ Spaces next roots ∧
      ∀ root ∈ roots, ∀ page < 1047552,
        pageEntry next.memory root page = pageEntry machine.memory root page := by
  have whole : ∀ frame, frame % 4096 = 0 → (frame ∈ roots ∨ IsTable machine.memory roots frame) →
      SameOn machine.memory next.memory frame := by
    intro frame aligned used cell low high
    have isFrame : cell / 4096 * 4096 = frame := by omega
    exact same cell (isFrame ▸ used)
  have sameRoots : ∀ root ∈ roots, SameOn machine.memory next.memory root :=
    fun root member => whole root (spaces.family.aligned root member) (.inl member)
  refine ⟨sameRoots, ?_, ?_⟩
  · apply spaces_same_on spaces sameRoots
    all_goals rw [changed]
  · intro root member page low
    apply page_entry_same_on (sameRoots root member) (by omega)
    intro present
    exact whole _ (frame_of_aligned _) (.inr (is_table_of_present member low present))

/-- The tables' pages keep their translations where the directories do. -/
theorem translate_high {root addr : Nat} (same : SameOn machine.memory next.memory root)
    (selfMapped : SelfMapped machine.memory root) (high : 1047552 ≤ addr / 4096) (small : addr < 4294967296) :
    translate next.memory root addr = translate machine.memory root addr := by
  have index : addr / 4096 = 1023 * 1024 + (addr / 4096 - 1047552) := by omega
  have entry : pageEntry next.memory root (addr / 4096) = pageEntry machine.memory root (addr / 4096) := by
    rw [index, page_entry_self_map (self_mapped_same_on same selfMapped) (by omega),
      page_entry_self_map selfMapped (by omega), directory_entry_same_on same (by omega)]
  rw [TwoLevelPaging.translate, TwoLevelPaging.translate, entry]

/-- A page that is unmapped takes its translations away, and no others. -/
theorem clear_translate {page addr cell : Nat} (spaces : Spaces machine roots) (low : page < 1047552)
    (table : Present (directoryEntry machine.memory machine.cr3 (page / 1024))) (small : addr < 4294967296)
    (found : translate (fillSlot machine page 0).memory machine.cr3 addr = some cell) :
    translate machine.memory machine.cr3 addr = some cell ∧ addr / 4096 ≠ page := by
  by_cases here : addr / 4096 < 1047552
  · have entry := fill_slot_entry spaces low table (by decide : 0 < 4294967296) spaces.member here
    rw [TwoLevelPaging.translate, entry] at found
    rw [TwoLevelPaging.translate]
    split_ifs at found with cleared present present
    · exact absurd present not_present_zero
    · rw [if_pos present]
      exact ⟨found, fun same => cleared ⟨same, .inl rfl⟩⟩
  · have same : SameOn machine.memory (fillSlot machine page 0).memory machine.cr3 :=
      slot_write_roots spaces.family spaces.member low table _ spaces.member
    rw [translate_high same spaces.selfMapped (by omega) small] at found
    exact ⟨found, by omega⟩

/-- One page is removed, and its frame stored. -/
structure RemovedOne (machine next : Machine) (roots : List Nat) (vaddr paddr i : Nat) (cells : Nat → Nat) :
    Prop where
  globals : next = { machine with memory := next.memory }
  sameRoots : ∀ root ∈ roots, SameOn machine.memory next.memory root
  spaces : Spaces next roots
  present : Present (pageEntry machine.memory machine.cr3 (pageOf vaddr i))
  entries : ∀ root ∈ roots, ∀ page < 1047552, pageEntry next.memory root page =
    if page = pageOf vaddr i ∧ Tied machine machine.cr3 root page then 0
    else pageEntry machine.memory root page
  located : ∀ byte < 4,
    translate machine.memory machine.cr3 (u32 (elementAddr paddr i + byte)) = some (cells byte)
  mapped : ∀ byte < 4, u32 (elementAddr paddr i + byte) / 4096 ≠ pageOf vaddr i
  fewer : ∀ addr < 4294967296, ∀ cell, translate next.memory machine.cr3 addr = some cell →
    translate machine.memory machine.cr3 addr = some cell ∧ addr / 4096 ≠ pageOf vaddr i
  stored : ∀ cell, ¬ IsTable machine.memory roots (cell / 4096 * 4096) →
    next.memory cell = writeBytes machine.memory (cells 0) (cells 1) (cells 2) (cells 3)
      (getPaddr (pageEntry machine.memory machine.cr3 (pageOf vaddr i))) cell

theorem unmap_round (spaces : Spaces machine roots) (low : pageOf vaddr i < 1047552)
    (away : ∀ byte < 4, ∀ cell,
      translate machine.memory machine.cr3 (u32 (elementAddr paddr i + byte)) = some cell →
        ¬ (cell / 4096 * 4096 ∈ roots ∨ IsTable machine.memory roots (cell / 4096 * 4096)))
    (completed : virtUnmapRemove machine vaddr paddr i (count + 1) = .ok next) :
    ∃ middle cells, RemovedOne machine middle roots vaddr paddr i cells ∧
      virtUnmapRemove middle vaddr paddr (i + 1) count = .ok next := by
  obtain ⟨⟨entry, cleared⟩, unmapping, completed⟩ := Trap.bind_eq_ok.mp completed
  rw [unmap_page_ok spaces.selfMapped (range_page_lt vaddr i), range_page_page] at unmapping
  split_ifs at unmapping with present
  swap
  · cases unmapping
    cases completed
  simp only [Except.ok.injEq, Prod.mk.injEq] at unmapping
  obtain ⟨rfl, isCleared⟩ := unmapping
  change fillSlot machine (pageOf vaddr i) 0 = cleared at isCleared
  obtain ⟨middle, storing, completed⟩ := Trap.bind_eq_ok.mp completed
  have table := page_entry_present present
  have rewritten := rewritten_fill_slot spaces 0 low table
  rw [isCleared] at rewritten
  have cr3 : cleared.cr3 = machine.cr3 := rewritten_cr3 rewritten
  have tables : ∀ frame, IsTable cleared.memory roots frame ↔ IsTable machine.memory roots frame :=
    is_table_same_on rewritten.sameRoots
  have dropped : ∀ addr < 4294967296, ∀ cell, translate cleared.memory machine.cr3 addr = some cell →
      translate machine.memory machine.cr3 addr = some cell ∧ addr / 4096 ≠ pageOf vaddr i := by
    intro addr small cell found
    rw [← isCleared] at found
    exact clear_translate spaces low table small found
  obtain ⟨cells, found, isMiddle⟩ := store_word_cells (u32_lt _) storing
  rw [cr3] at found
  have clean : ∀ byte < 4, ∀ cell, cell = cells byte →
      ¬ (cell / 4096 * 4096 ∈ roots ∨ IsTable machine.memory roots (cell / 4096 * 4096)) :=
    fun byte small cell same => same ▸ away byte small _ (dropped _ (u32_lt _) _ (found byte small)).1
  obtain ⟨sameRoots, middleSpaces, entries⟩ := @store_keeps_entries cleared middle roots
    (rewritten_spaces spaces rewritten) (by rw [isMiddle]) fun cell used => by
      rw [tables] at used
      rw [isMiddle]
      exact write_bytes_apart ⟨fun same => clean 0 (by decide) cell same used,
        fun same => clean 1 (by decide) cell same used, fun same => clean 2 (by decide) cell same used,
        fun same => clean 3 (by decide) cell same used⟩
  have bothRoots : ∀ root ∈ roots, SameOn machine.memory middle.memory root :=
    fun root member cell lower upper => (sameRoots root member cell lower upper).trans
      (rewritten.sameRoots root member cell lower upper)
  refine ⟨middle, cells, ⟨?_, bothRoots, middleSpaces, present, ?_,
    fun byte small => (dropped _ (u32_lt _) _ (found byte small)).1,
    fun byte small => (dropped _ (u32_lt _) _ (found byte small)).2, ?_, ?_⟩, completed⟩
  · rw [isMiddle, rewritten.globals]
  · intro root member page lower
    rw [entries root member page lower, ← isCleared,
      fill_slot_entry spaces low table (by decide : 0 < 4294967296) member lower]
    by_cases here : page = pageOf vaddr i
    · rw [here]
    · rw [if_neg fun both => here both.1, if_neg fun both => here both.1]
  · intro addr small cell seen
    apply dropped addr small cell
    by_cases lower : addr / 4096 < 1047552
    · rw [TwoLevelPaging.translate, entries _ spaces.member _ lower] at seen
      exact seen
    · have selfMapped : SelfMapped cleared.memory machine.cr3 :=
        (rewritten_spaces spaces rewritten).family.selfMapped _ spaces.member
      rwa [translate_high (sameRoots _ spaces.member) selfMapped (by omega) small] at seen
  · intro cell notTable
    rw [isMiddle]
    apply write_bytes_congr
    exact rewritten.outside (cell / 4096 * 4096) (Nat.mul_mod_left _ _) notTable cell (by omega) (by omega)

theorem unmap_remove_ok (spaces : Spaces machine roots) (low : ∀ j < count, pageOf vaddr (i + j) < 1047552)
    (away : ∀ j < count, ∀ byte < 4, ∀ cell,
      translate machine.memory machine.cr3 (u32 (elementAddr paddr (i + j) + byte)) = some cell →
        ¬ (cell / 4096 * 4096 ∈ roots ∨ IsTable machine.memory roots (cell / 4096 * 4096)))
    (completed : virtUnmapRemove machine vaddr paddr i count = .ok next) :
    ∃ cells, Removed machine next roots vaddr paddr i count cells := by
  induction count generalizing machine i with
  | zero =>
      cases completed
      exact ⟨fun _ _ => 0, rfl, fun _ _ _ _ _ => rfl, fun j wrong => absurd wrong (Nat.not_lt_zero j),
        fun _ _ => assigned_none, fun j wrong => absurd wrong (Nat.not_lt_zero j),
        fun j wrong => absurd wrong (Nat.not_lt_zero j), fun _ _ => rfl⟩
  | succ count ih =>
      obtain ⟨middle, first, one, completed⟩ := unmap_round spaces (low 0 (by omega)) (away 0 (by omega)) completed
      have cr3 : middle.cr3 = machine.cr3 := by rw [one.globals]
      have shift : ∀ j, i + 1 + j = i + (j + 1) := fun j => by omega
      have tables : ∀ frame, IsTable middle.memory roots frame ↔ IsTable machine.memory roots frame :=
        is_table_same_on one.sameRoots
      obtain ⟨others, later⟩ := ih one.spaces (fun j inside => shift j ▸ low (j + 1) (by omega))
        (fun j inside byte small cell seen => by
          rw [cr3] at seen
          rw [tables]
          rw [shift j] at seen
          exact away (j + 1) (by omega) byte small cell (one.fewer _ (u32_lt _) cell seen).1) completed
      -- a page of the rest is another one, since it is still there
      have rest : ∀ j < count, pageOf vaddr (i + 1 + j) ≠ pageOf vaddr i ∧
          pageEntry middle.memory middle.cr3 (pageOf vaddr (i + 1 + j)) =
            pageEntry machine.memory machine.cr3 (pageOf vaddr (i + 1 + j)) := by
        intro j inside
        have present := later.present j inside
        have entry := one.entries machine.cr3 spaces.member (pageOf vaddr (i + 1 + j))
          (shift j ▸ low (j + 1) (by omega))
        rw [cr3] at present ⊢
        rw [entry] at present ⊢
        split_ifs at present ⊢ with here
        · exact absurd present not_present_zero
        · exact ⟨fun same => here ⟨same, .inl rfl⟩, rfl⟩
      refine ⟨fun j => if j = i then first else others j, ?_, ?_, ?_, ?_, ?_, ?_, ?_⟩
      · rw [later.globals, one.globals]
      · exact fun root member cell lower upper => (later.sameRoots root member cell lower upper).trans
          (one.sameRoots root member cell lower upper)
      · intro j inside
        cases j with
        | zero => exact one.present
        | succ j =>
            rw [← shift j, ← (rest j (by omega)).2]
            exact later.present j (by omega)
      · intro page lower
        apply assigned_cons middle
        · exact fun root member => one.entries root member page lower
        · intro root member
          rw [cr3]
          exact or_congr Iff.rfl (shares_same_on (one.sameRoots _ spaces.member) (one.sameRoots root member)
            (by omega))
        · exact fun j inside same => (rest j inside).1 same.symm
        · exact later.entries page lower
      · intro j inside byte small
        cases j with
        | zero =>
            rw [Nat.add_zero, if_pos rfl]
            exact one.located byte small
        | succ j =>
            have located := later.located j (by omega) byte small
            rw [cr3] at located
            rw [← shift j, if_neg (by omega)]
            exact (one.fewer _ (u32_lt _) _ located).1
      · intro j inside byte small k below
        cases j with
        | zero =>
            obtain rfl : k = 0 := by omega
            exact one.mapped byte small
        | succ j =>
            cases k with
            | zero =>
                have located := later.located j (by omega) byte small
                rw [cr3] at located
                rw [← shift j]
                exact (one.fewer _ (u32_lt _) _ located).2
            | succ k =>
                have mapped := later.mapped j (by omega) byte small k (by omega)
                rwa [shift j, shift k] at mapped
      · intro cell notTable
        rw [later.stored cell (fun table => notTable ((tables _).1 table)), storeCells, if_pos rfl]
        rw [store_cells_congr (one.stored cell notTable)]
        refine congrFun (store_cells_agree fun j above below => ?_) cell
        rw [if_neg (by omega)]
        have place : i + 1 + (j - (i + 1)) = j := by omega
        have same := (rest (j - (i + 1)) (by omega)).2
        rw [place] at same
        exact ⟨rfl, congrArg getPaddr same⟩

end Loop

end ParadiseOS.UnmapCalls
