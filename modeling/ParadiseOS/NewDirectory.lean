import ParadiseOS.FrameLedger

/-!
# Making a page directory

`new_page_dir` fills a page of the kernel's heap with the entries of a directory,
gives the page back to the heap and keeps its frame. The new directory has the
kernel's tables of the current one.
-/

namespace ParadiseOS.NewDirectory

open HeapModel (Heap heapAlloc heapFree)
open MachineWord MemModel PagingModel PagingSteps PagingMaps TwoLevelPaging
open FrameSteps FrameLedger

set_option autoImplicit false

/-- Only the contents of one frame were written. -/
structure Rewritten (machine next : Machine) (frame : Nat) : Prop where
  same : next = { machine with memory := next.memory }
  elsewhere : ∀ other, other % 4096 = 0 → other ≠ frame → SameOn machine.memory next.memory other

section Contents

variable {region : Nat → Prop} {contributed : List Nat} {total : Nat} {machine middle next : Machine}
  {ledger : Ledger} {page frame : Nat}

theorem rewritten_refl (machine : Machine) (frame : Nat) : Rewritten machine machine frame :=
  ⟨rfl, fun _ _ _ _ _ _ => rfl⟩

theorem rewritten_trans (first : Rewritten machine middle frame) (second : Rewritten middle next frame) :
    Rewritten machine next frame where
  same := by
    rw [second.same, first.same]
  elsewhere other aligned differ cell low high :=
    (second.elsewhere other aligned differ cell low high).trans
      (first.elsewhere other aligned differ cell low high)

theorem rewritten_cr3 (rewritten : Rewritten machine next frame) : next.cr3 = machine.cr3 := by
  rw [rewritten.same]

/-- The contents of a backed page are free to change. -/
theorem rewritten_balanced (balanced : Balanced region contributed total machine ledger)
    (member : page ∈ ledger.pages) (rewritten : Rewritten machine next (backingFrame machine page)) :
    Balanced region contributed total next ledger ∧
      ∀ other < 1047552, pageEntry next.memory next.cr3 other =
        pageEntry machine.memory machine.cr3 other := by
  have globals : SameGlobals machine next := by
    unfold SameGlobals
    rw [rewritten.same]
  apply balanced_outside balanced globals
  · rw [rewritten.same]
  · rw [rewritten.same]
  · intro other aligned used
    exact rewritten.elsewhere other aligned fun same => balanced.apart page member (same ▸ used)

theorem rewritten_frame (balanced : Balanced region contributed total machine ledger)
    (member : page ∈ ledger.pages) (rewritten : Rewritten machine next (backingFrame machine page)) :
    backingFrame next page = backingFrame machine page := by
  have low := (balanced.placed page (balanced.inside page member)).1
  rw [backingFrame, backingFrame, (rewritten_balanced balanced member rewritten).2 page low]

theorem rewritten_directory (balanced : Balanced region contributed total machine ledger)
    (member : page ∈ ledger.pages) (rewritten : Rewritten machine next (backingFrame machine page))
    {root index : Nat} (isRoot : root ∈ ledger.roots) (high : index < 1024) :
    directoryEntry next.memory root index = directoryEntry machine.memory root index := by
  apply directory_entry_same_on _ high
  apply rewritten.elsewhere root (balanced.spaces.family.aligned root isRoot)
  intro same
  exact balanced.apart page member (same ▸ .inl isRoot)

/-- Storing to `dir[index]`. -/
theorem store_entry (balanced : Balanced region contributed total machine ledger)
    {dir index word : Nat} (aligned : dir % 4096 = 0) (member : dir / 4096 ∈ ledger.pages)
    (high : index < 1024) (bounded : word < 4294967296)
    (stored : storeWord machine (u32 (dir + u32 (4 * index))) word = .ok next) :
    Rewritten machine next (backingFrame machine (dir / 4096)) ∧ ∀ position < 1024,
      directoryEntry next.memory (backingFrame machine (dir / 4096)) position =
        if position = index then word
        else directoryEntry machine.memory (backingFrame machine (dir / 4096)) position := by
  have low := (balanced.placed _ (balanced.inside _ member)).1
  have place : u32 (dir + u32 (4 * index)) = dir + 4 * index := by
    unfold u32
    omega
  have quotient : (dir + 4 * index) / 4096 = dir / 4096 := by omega
  have remainder : (dir + 4 * index) % 4096 = 4 * index := by omega
  have inPages : (dir + 4 * index) / 4096 ∈ ledger.pages := quotient.symm ▸ member
  have found := page_translate balanced inPages
  rw [quotient, remainder] at found
  rw [place, store_word_at found (by omega) (by omega), Except.ok.injEq] at stored
  subst stored
  have frameAligned := frame_of_aligned (pageEntry machine.memory machine.cr3 (dir / 4096))
  refine ⟨⟨rfl, ?_⟩, ?_⟩
  · intro other otherAligned differ
    exact write_same_on (frame_of_aligned _) otherAligned (by omega) differ
  · intro position positionHigh
    unfold directoryEntry backingFrame
    split_ifs with here
    · rw [here, read_write_same bounded]
    · apply read_write_aligned
      · omega
      · omega
      · omega

theorem store_entry_returns (balanced : Balanced region contributed total machine ledger)
    {dir index : Nat} (word : Nat) (aligned : dir % 4096 = 0) (member : dir / 4096 ∈ ledger.pages)
    (high : index < 1024) : ∃ next, storeWord machine (u32 (dir + u32 (4 * index))) word = .ok next := by
  have low := (balanced.placed _ (balanced.inside _ member)).1
  have place : u32 (dir + u32 (4 * index)) = dir + 4 * index := by
    unfold u32
    omega
  have quotient : (dir + 4 * index) / 4096 = dir / 4096 := by omega
  have remainder : (dir + 4 * index) % 4096 = 4 * index := by omega
  have inPages : (dir + 4 * index) / 4096 ∈ ledger.pages := quotient.symm ▸ member
  have found := page_translate balanced inPages
  rw [place, store_word_at found (by omega) (by omega)]
  exact ⟨_, rfl⟩

/-- The loop that clears the entries of the lower half. -/
theorem clear_entries_ok (count : Nat) {dir index : Nat}
    (balanced : Balanced region contributed total machine ledger) (aligned : dir % 4096 = 0)
    (member : dir / 4096 ∈ ledger.pages) (high : index + count ≤ 1024)
    (cleared : clearEntries machine dir index count = .ok next) :
    Rewritten machine next (backingFrame machine (dir / 4096)) ∧ ∀ position < 1024,
      directoryEntry next.memory (backingFrame machine (dir / 4096)) position =
        if index ≤ position ∧ position < index + count then 0
        else directoryEntry machine.memory (backingFrame machine (dir / 4096)) position := by
  induction count generalizing machine index with
  | zero =>
      rw [clearEntries, Except.ok.injEq] at cleared
      subst cleared
      refine ⟨rewritten_refl _ _, ?_⟩
      intro position _
      rw [if_neg (by omega)]
  | succ count ih =>
      obtain ⟨middle, stored, cleared⟩ := Trap.bind_eq_ok.mp cleared
      obtain ⟨first, entries⟩ := store_entry balanced aligned member (by omega) (by decide) stored
      have held := (rewritten_balanced balanced member first).1
      have frame := rewritten_frame balanced member first
      obtain ⟨second, later⟩ := ih held (by omega) cleared
      rw [frame] at second later
      refine ⟨rewritten_trans first second, ?_⟩
      intro position positionHigh
      rw [later position positionHigh, entries position positionHigh]
      by_cases same : position = index
      · rw [if_neg (by omega), if_pos same, if_pos (by omega)]
      · rw [if_neg same]
        exact if_congr (by omega) rfl rfl

/-- The loop that copies entries of the current directory. -/
theorem copy_entries_ok (count : Nat) {dir index : Nat}
    (balanced : Balanced region contributed total machine ledger) (aligned : dir % 4096 = 0)
    (member : dir / 4096 ∈ ledger.pages) (high : index + count ≤ 1024)
    (copied : copyEntries machine dir index count = .ok next) :
    Rewritten machine next (backingFrame machine (dir / 4096)) ∧ ∀ position < 1024,
      directoryEntry next.memory (backingFrame machine (dir / 4096)) position =
        if index ≤ position ∧ position < index + count then
          directoryEntry machine.memory machine.cr3 position
        else directoryEntry machine.memory (backingFrame machine (dir / 4096)) position := by
  induction count generalizing machine index with
  | zero =>
      rw [copyEntries, Except.ok.injEq] at copied
      subst copied
      refine ⟨rewritten_refl _ _, ?_⟩
      intro position _
      rw [if_neg (by omega)]
  | succ count ih =>
      rw [copyEntries, pde_ok balanced.spaces.selfMapped (by omega), Trap.ok_bind] at copied
      obtain ⟨middle, stored, copied⟩ := Trap.bind_eq_ok.mp copied
      obtain ⟨first, entries⟩ :=
        store_entry balanced aligned member (by omega) (read_word_lt _ _) stored
      have held := (rewritten_balanced balanced member first).1
      have frame := rewritten_frame balanced member first
      obtain ⟨second, later⟩ := ih held (by omega) copied
      rw [frame] at second later
      refine ⟨rewritten_trans first second, ?_⟩
      intro position positionHigh
      have current := rewritten_directory balanced member first balanced.spaces.member positionHigh
      rw [later position positionHigh, entries position positionHigh, rewritten_cr3 first, current]
      by_cases same : position = index
      · rw [if_neg (by omega), if_pos same, if_pos (by omega), same]
        rfl
      · rw [if_neg same]
        exact if_congr (by omega) rfl rfl

theorem clear_entries_returns (count : Nat) {dir index : Nat}
    (balanced : Balanced region contributed total machine ledger) (aligned : dir % 4096 = 0)
    (member : dir / 4096 ∈ ledger.pages) (high : index + count ≤ 1024) :
    ∃ next, clearEntries machine dir index count = .ok next := by
  induction count generalizing machine index with
  | zero => exact ⟨machine, rfl⟩
  | succ count ih =>
      obtain ⟨middle, stored⟩ := store_entry_returns balanced 0 aligned member (by omega : index < 1024)
      obtain ⟨first, _⟩ := store_entry balanced aligned member (by omega) (by decide) stored
      obtain ⟨next, cleared⟩ := ih (rewritten_balanced balanced member first).1 (by omega : index + 1 + count ≤ 1024)
      refine ⟨next, ?_⟩
      rw [clearEntries, stored, Trap.ok_bind, cleared]

theorem copy_entries_returns (count : Nat) {dir index : Nat}
    (balanced : Balanced region contributed total machine ledger) (aligned : dir % 4096 = 0)
    (member : dir / 4096 ∈ ledger.pages) (high : index + count ≤ 1024) :
    ∃ next, copyEntries machine dir index count = .ok next := by
  induction count generalizing machine index with
  | zero => exact ⟨machine, rfl⟩
  | succ count ih =>
      have entry := pde_ok balanced.spaces.selfMapped (by omega : index < 1024)
      obtain ⟨middle, stored⟩ := store_entry_returns balanced
        (directoryEntry machine.memory machine.cr3 index) aligned member (by omega : index < 1024)
      obtain ⟨first, _⟩ := store_entry balanced aligned member (by omega) (read_word_lt _ _) stored
      obtain ⟨next, copied⟩ := ih (rewritten_balanced balanced member first).1 (by omega : index + 1 + count ≤ 1024)
      refine ⟨next, ?_⟩
      rw [copyEntries, entry, Trap.ok_bind, stored, Trap.ok_bind, copied]

end Contents

/-- The page holds a finished directory: what it does not copy is absent, and it maps itself. -/
structure Finished (machine : Machine) (page : Nat) : Prop where
  entries : ∀ index < 1023,
    directoryEntry machine.memory (backingFrame machine page) index =
      if index = 0 ∨ kernelPdiStart ≤ index then directoryEntry machine.memory machine.cr3 index else 0
  selfMapped : SelfMapped machine.memory (backingFrame machine page)

section Unmapping

variable {region : Nat → Prop} {contributed : List Nat} {total : Nat} {machine : Machine}
  {ledger : Ledger} {page : Nat}

theorem finished_copy (balanced : Balanced region contributed total machine ledger)
    (member : page ∈ ledger.pages) (finished : Finished machine page) :
    CopyOf machine.memory ledger.roots machine.cr3 (backingFrame machine page) := by
  have freeable := frame_freeable balanced member
  refine ⟨freeable.aligned, freeable.bounded, finished.selfMapped,
    fun isRoot => freeable.notUsed (.inl isRoot), fun isTable => freeable.notUsed (.inr (.inl isTable)),
    balanced.spaces.member, ?_⟩
  intro index low present
  rw [finished.entries index low] at present ⊢
  split_ifs at present ⊢
  · rfl
  · exact absurd present not_present_zero

/-- Once its page is unmapped, the frame is a directory like the others. -/
theorem unmap_directory (balanced : Balanced region contributed total machine ledger)
    (kernelHalf : kernelPdiStart ≤ windowPage machine / 1024) (member : page ∈ ledger.pages)
    (finished : Finished machine page) :
    Balanced region contributed total (fillSlot machine page 0)
      { ledger with
        roots := backingFrame machine page :: ledger.roots
        pages := ledger.pages.erase page
        directories := backingFrame machine page :: ledger.directories } ∧
      ∀ root ∈ backingFrame machine page :: ledger.roots, ∀ index < 1024,
        directoryEntry (fillSlot machine page 0).memory root index =
          directoryEntry machine.memory root index := by
  have spaces := balanced.spaces
  obtain ⟨low, notWindow⟩ := balanced.placed page (balanced.inside page member)
  have table := page_entry_present (page_present balanced member)
  have copied := finished_copy balanced member finished
  have filled := kept_fill_slot spaces balanced.free low table (by decide : 0 < 4294967296) notWindow
  have same : ∀ root ∈ backingFrame machine page :: ledger.roots, ∀ index < 1024,
      directoryEntry (fillSlot machine page 0).memory root index =
        directoryEntry machine.memory root index := by
    intro root isRoot index high
    rcases List.mem_cons.1 isRoot with here | old
    · rw [here]
      exact directory_entry_same_on
        (filled.outside _ copied.aligned (balanced.apart page member)) high
    · exact directory_entry_same_on (slot_write_roots spaces.family spaces.member low table root old) high
  have current := same machine.cr3 (List.mem_cons_of_mem _ spaces.member)
  have own := same _ List.mem_cons_self
  have after : CopyOf (fillSlot machine page 0).memory ledger.roots machine.cr3
      (backingFrame machine page) := by
    refine ⟨copied.aligned, copied.bounded, ?_, copied.notRoot, ?_, copied.member, ?_⟩
    · unfold SelfMapped
      rw [own 1023 (by decide)]
      exact copied.selfMapped
    · intro isTable
      exact balanced.apart page member ((filled.inUse _).1 (.inr (.inl isTable)))
    · intro index indexLow present
      rw [own index (by omega)] at present
      rw [own index (by omega), current index (by omega)]
      exact copied.entries index indexLow present
  have isTable := is_table_copy after
  have entry : ∀ other, region other → pageEntry (fillSlot machine page 0).memory machine.cr3 other =
      if other = page then 0 else pageEntry machine.memory machine.cr3 other := by
    intro other within
    have seen := fill_slot_entry spaces low table (by decide : 0 < 4294967296) spaces.member
      (balanced.placed other within).1
    have tied : Tied machine machine.cr3 machine.cr3 page := .inl rfl
    rw [seen]
    simp only [tied, and_true]
  have left : ∀ other, other ∈ ledger.pages.erase page ↔ other ≠ page ∧ other ∈ ledger.pages :=
    fun other => balanced.nodup.mem_erase_iff
  have frames : ∀ other ∈ ledger.pages.erase page,
      backingFrame (fillSlot machine page 0) other = backingFrame machine other := by
    intro other there
    obtain ⟨differ, old⟩ := (left other).1 there
    have seen := entry other (balanced.inside other old)
    rw [if_neg differ] at seen
    exact congrArg frameOf seen
  have window : windowPage (fillSlot machine page 0) = windowPage machine := rfl
  have windowLow := spaces.windowLow
  refine ⟨⟨?_, ?_, ?_, balanced.placed, ?_, ?_, balanced.nodup.erase page, ?_, ?_, ?_, ?_, ?_, ?_,
    balanced.usage⟩, same⟩
  · have kept := filled.spaces
    refine ⟨family_copy kept.family after, kept.current, List.mem_cons_of_mem _ kept.member,
      kept.headAligned, kept.headLow, kept.headPte, ?_⟩
    have shared : Shares (fillSlot machine page 0).memory machine.cr3 (backingFrame machine page)
        (windowPage machine) := by
      have entries := finished.entries (windowPage machine / 1024) (by omega)
      rw [if_pos (.inr kernelHalf)] at entries
      have present := spaces.windowTable
      rw [Shares, current _ (by omega), own _ (by omega), entries]
      exact ⟨present, present, rfl⟩
    have toCurrent : ∀ root ∈ backingFrame machine page :: ledger.roots,
        Shares (fillSlot machine page 0).memory machine.cr3 root (windowPage machine) := by
      intro root isRoot
      rcases List.mem_cons.1 isRoot with here | old
      · exact here ▸ shared
      · exact kept.headShared _ kept.member root old
    intro root first other second
    exact shares_trans (shares_symm (toCurrent root first)) (toCurrent other second)
  · have kept := filled.free
    refine ⟨kept.linked, kept.nodup, kept.aligned, kept.positive, kept.bounded, ?_, ?_, kept.window⟩
    · intro frame free
      rw [List.mem_cons, not_or]
      refine ⟨?_, kept.notRoot frame free⟩
      intro equal
      exact balanced.apart page member (equal ▸ .inr (.inr free))
    · intro frame free
      rw [isTable]
      exact kept.notTable frame free
  · change Present (directoryEntry _ machine.cr3 0)
    rw [current 0 (by decide)]
    exact balanced.low
  · intro other within
    change Present (pageEntry (fillSlot machine page 0).memory machine.cr3 other) ↔ _
    rw [entry other within, left]
    split_ifs with here
    · exact iff_of_false not_present_zero fun both => both.1 here
    · rw [balanced.exact other within]
      exact ⟨fun there => ⟨here, there⟩, fun both => both.2⟩
  · intro other there
    exact balanced.inside other ((left other).1 there).2
  · intro other there
    rw [frames other there]
    exact balanced.positive other ((left other).1 there).2
  · intro other there
    obtain ⟨differ, old⟩ := (left other).1 there
    rw [frames other there]
    rintro (isRoot | isOther | free)
    · rcases List.mem_cons.1 isRoot with here | before
      · exact differ (balanced.own other old page member here)
      · exact balanced.apart other old (.inl before)
    · rw [isTable] at isOther
      exact balanced.apart other old ((filled.inUse _).1 (.inr (.inl isOther)))
    · exact balanced.apart other old (.inr (.inr free))
  · intro first firstThere second secondThere equal
    rw [frames first firstThere, frames second secondThere] at equal
    exact balanced.own first ((left first).1 firstThere).2 second ((left second).1 secondThere).2 equal
  · intro frame there
    rw [isTable]
    obtain ⟨root, isRoot, index, indexLow, present, equal⟩ := balanced.tables frame there
    have kept := same root (List.mem_cons_of_mem _ isRoot) index (by omega)
    exact ⟨root, isRoot, index, indexLow, kept ▸ present, kept ▸ equal⟩
  · exact List.forall_mem_cons.2 ⟨List.mem_cons_self,
      fun frame there => List.mem_cons_of_mem _ (balanced.directories frame there)⟩
  · refine List.Perm.trans ?_ balanced.accounts
    apply List.Perm.append_left
    have mapped : (ledger.pages.erase page).map (backingFrame (fillSlot machine page 0)) =
        (ledger.pages.erase page).map (backingFrame machine) := List.map_congr_left frames
    have moved : ((ledger.pages.erase page).map (backingFrame machine) ++
        (ledger.tables ++ backingFrame machine page :: ledger.directories)).Perm
        ((page :: ledger.pages.erase page).map (backingFrame machine) ++
          (ledger.tables ++ ledger.directories)) := by
      rw [List.map_cons, List.cons_append, ← List.append_assoc, ← List.append_assoc]
      exact List.perm_middle
    rw [mapped]
    exact moved.trans (List.Perm.append_right _ ((List.perm_cons_erase member).symm.map _))

end Unmapping

/-- `new_page_dir` took a page of the kernel's heap and gave it back, and its frame became a
directory with the kernel's tables of the current one. -/
structure Made (machine next : Machine) (ledger after : Ledger) (frame : Nat) (touched : Nat → Prop) :
    Prop where
  globals : SameGlobals { machine with kernelHeap := next.kernelHeap } next
  roots : after.roots = frame :: ledger.roots
  directories : after.directories = frame :: ledger.directories
  pages : ∀ page, page ∈ after.pages ↔ page ∈ ledger.pages
  notRoot : frame ∉ ledger.roots
  positive : 0 < frame
  used : ∀ ptr allocated, kernelAlloc machine 1 = .ok (ptr, allocated) → next.usedFrames = allocated.usedFrames
  entries : ∀ root ∈ ledger.roots, ∀ index < 1024,
    ¬ (root = machine.cr3 ∧ ¬ Present (directoryEntry machine.memory machine.cr3 index) ∧
      ∃ page, touched page ∧ page / 1024 = index) →
    directoryEntry next.memory root index = directoryEntry machine.memory root index
  own : ∀ index < 1023, directoryEntry next.memory frame index =
    if index = 0 ∨ kernelPdiStart ≤ index then directoryEntry next.memory next.cr3 index else 0

section Making

variable {region : Nat → Prop} {contributed : List Nat} {total : Nat} {machine next : Machine}
  {ledger : Ledger} {frame : Nat}

/-- The five writes to the new directory's page. -/
theorem fill_directory_ok {dir low own : Nat} {cleared copied linked filled : Machine}
    (balanced : Balanced region contributed total machine ledger) (aligned : dir % 4096 = 0)
    (member : dir / 4096 ∈ ledger.pages)
    (clearing : clearEntries machine dir 1 (kernelPdiStart - 1) = .ok cleared)
    (copying : copyEntries cleared dir kernelPdiStart (kernelPdiEnd - kernelPdiStart) = .ok copied)
    (lowEntry : pde copied 0 = .ok low)
    (linking : storeWord copied (u32 (dir + u32 (4 * getPdIndex 0))) low = .ok linked)
    (ownEntry : getEntry linked dir = .ok own)
    (filling : storeWord linked (u32 (dir + u32 (4 * 1023))) (createEntry (getPaddr own) pdeWritable) =
      .ok filled) :
    Rewritten machine filled (backingFrame machine (dir / 4096)) ∧ Finished filled (dir / 4096) ∧
      getPaddr own = backingFrame machine (dir / 4096) := by
  have dirLow := (balanced.placed _ (balanced.inside _ member)).1
  obtain ⟨first, clearedEntries⟩ := clear_entries_ok _ balanced aligned member (by decide) clearing
  have held := (rewritten_balanced balanced member first).1
  have frame := rewritten_frame balanced member first
  obtain ⟨second, copiedEntries⟩ := copy_entries_ok _ held aligned member (by decide) copying
  have heldCopied := (rewritten_balanced held member second).1
  have frameCopied := rewritten_frame held member second
  rw [pde_ok heldCopied.spaces.selfMapped (by decide), Except.ok.injEq] at lowEntry
  obtain ⟨third, linkedEntries⟩ := store_entry heldCopied aligned member (by decide)
    (lowEntry ▸ read_word_lt _ _) linking
  have heldLinked := (rewritten_balanced heldCopied member third).1
  have frameLinked := rewritten_frame heldCopied member third
  rw [get_entry_ok heldLinked.spaces.selfMapped (by omega), Except.ok.injEq] at ownEntry
  have ownFrame : getPaddr own = backingFrame linked (dir / 4096) := by
    rw [← ownEntry, get_paddr_frame (page_entry_lt _ _ _), backingFrame]
  have freeable := frame_freeable heldLinked member
  have ownBound : createEntry (getPaddr own) pdeWritable < 4294967296 :=
    create_entry_lt (ownFrame ▸ freeable.bounded) (by decide)
  obtain ⟨fourth, filledEntries⟩ := store_entry heldLinked aligned member (by decide) ownBound filling
  have frameFilled := rewritten_frame heldLinked member fourth
  rw [frame] at second copiedEntries frameCopied
  rw [frameCopied] at third linkedEntries frameLinked
  rw [frameLinked] at fourth filledEntries frameFilled ownFrame
  have all := rewritten_trans first (rewritten_trans second (rewritten_trans third fourth))
  have current : ∀ index < 1024, directoryEntry filled.memory filled.cr3 index =
      directoryEntry machine.memory machine.cr3 index := by
    intro index high
    rw [rewritten_cr3 all]
    exact rewritten_directory balanced member all balanced.spaces.member high
  have clearedCurrent : ∀ index < 1024, directoryEntry cleared.memory cleared.cr3 index =
      directoryEntry machine.memory machine.cr3 index := by
    intro index high
    rw [rewritten_cr3 first]
    exact rewritten_directory balanced member first balanced.spaces.member high
  have copiedCurrent : directoryEntry copied.memory copied.cr3 0 =
      directoryEntry machine.memory machine.cr3 0 := by
    rw [rewritten_cr3 (rewritten_trans first second)]
    exact rewritten_directory balanced member (rewritten_trans first second) balanced.spaces.member
      (by decide)
  refine ⟨all, ⟨?_, ?_⟩, ownFrame⟩
  · intro index indexLow
    rw [frameFilled, filledEntries index (by omega), if_neg (by omega), linkedEntries index (by omega),
      copiedEntries index (by omega), clearedEntries index (by omega), current index (by omega),
      clearedCurrent index (by omega), ← lowEntry, copiedCurrent]
    have zero : getPdIndex 0 = 0 := rfl
    have ends : kernelPdiStart + (kernelPdiEnd - kernelPdiStart) = 1023 := by decide
    have lower : 1 + (kernelPdiStart - 1) = kernelPdiStart := by decide
    rw [zero, ends, lower]
    by_cases first : index = 0
    · rw [if_pos first, if_pos (.inl first), first]
    · rw [if_neg first]
      by_cases kernel : kernelPdiStart ≤ index
      · rw [if_pos ⟨kernel, indexLow⟩, if_pos (.inr kernel)]
      · rw [if_neg (fun both => kernel both.1), if_pos (by omega), if_neg (by tauto)]
  · have last := filledEntries 1023 (by decide)
    rw [if_pos rfl, ownFrame] at last
    have freeable := frame_freeable balanced member
    rw [frameFilled]
    unfold SelfMapped
    rw [last, create_entry_frame freeable.bounded (by decide)]
    refine ⟨create_entry_present _ _, ?_⟩
    have aligned := freeable.aligned
    unfold frameOf
    omega

/-- Taking the page from the kernel's heap. -/
theorem kernel_alloc_extended {pages ptr : Nat} (written : Nat → Prop)
    (balanced : Balanced region contributed total machine ledger)
    (places : ∀ vaddr heap, heapAlloc machine.kernelHeap pages = .ok (vaddr, heap) →
      ∀ page, InRange (vaddr / 4096) pages page → region page)
    (completed : kernelAlloc machine pages = .ok (ptr, next)) :
    ∃ marked after, heapAlloc machine.kernelHeap pages = .ok (ptr, marked) ∧ next.kernelHeap = marked ∧
      Balanced region contributed total next after ∧
      ∃ middle, Extended written machine middle ledger after pageWritable (ptr / 4096) pages ∧
        next = { middle with kernelHeap := marked } := by
  obtain ⟨⟨vaddr, heap, middle⟩, allocated, finished⟩ := Trap.bind_eq_ok.mp completed
  simp only [Trap.pure_ok, Except.ok.injEq, Prod.mk.injEq] at finished
  obtain ⟨rfl, rfl⟩ := finished
  obtain ⟨_, _, allocated⟩ := Trap.bind_eq_ok.mp allocated
  obtain ⟨⟨place, marked⟩, found, allocated⟩ := Trap.bind_eq_ok.mp allocated
  obtain ⟨backed, backing, allocated⟩ := Trap.bind_eq_ok.mp allocated
  simp only [Trap.pure_ok, Except.ok.injEq, Prod.mk.injEq] at allocated
  obtain ⟨rfl, rfl, rfl⟩ := allocated
  obtain ⟨after, held, extended⟩ :=
    alloc_pages_extended _ written balanced (by decide) (places place marked found) backing
  have same : SamePaging backed { backed with kernelHeap := marked } := ⟨rfl, rfl, rfl, rfl, rfl, rfl⟩
  exact ⟨marked, after, found, rfl, balanced_same_paging held same rfl, backed, extended, rfl⟩

theorem kernel_alloc_balanced {pages ptr : Nat}
    (balanced : Balanced region contributed total machine ledger)
    (places : ∀ vaddr heap, heapAlloc machine.kernelHeap pages = .ok (vaddr, heap) →
      ∀ page, InRange (vaddr / 4096) pages page → region page)
    (completed : kernelAlloc machine pages = .ok (ptr, next)) :
    ∃ marked after, heapAlloc machine.kernelHeap pages = .ok (ptr, marked) ∧ next.kernelHeap = marked ∧
      Balanced region contributed total next after ∧
      (∃ middle, Carried machine middle ledger after (InRange (ptr / 4096) pages) ∧
        next = { middle with kernelHeap := marked }) ∧
      (∀ page, page ∈ after.pages ↔ page ∈ ledger.pages ∨ InRange (ptr / 4096) pages page) ∧
      ∀ page, InRange (ptr / 4096) pages page → page ∉ ledger.pages := by
  obtain ⟨marked, after, found, heap, held, middle, extended, isNext⟩ :=
    kernel_alloc_extended (fun _ => False) balanced places completed
  exact ⟨marked, after, found, heap, held, ⟨middle, extended.carried, isNext⟩, extended.pages, extended.fresh⟩

/-- What `new_page_dir` does with the page that it took. -/
theorem directory_filled {dir : Nat} {allocated : Machine} {between : Ledger} (aligned : dir % 4096 = 0)
    (held : Balanced region contributed total allocated between) (member : dir / 4096 ∈ between.pages)
    (allocating : kernelAlloc machine 1 = .ok (dir, allocated))
    (completed : newPageDir machine = .ok (frame, next)) :
    ∃ freedCount heap filled, heapFree allocated.kernelHeap dir = .ok (freedCount, heap) ∧
      Rewritten allocated filled (backingFrame allocated (dir / 4096)) ∧ Finished filled (dir / 4096) ∧
      frame = backingFrame filled (dir / 4096) ∧
      next = fillSlot { filled with kernelHeap := heap } (dir / 4096) 0 := by
  rw [newPageDir, allocating, Trap.ok_bind] at completed
  obtain ⟨cleared, clearing, completed⟩ := Trap.bind_eq_ok.mp completed
  obtain ⟨copied, copying, completed⟩ := Trap.bind_eq_ok.mp completed
  obtain ⟨low, lowEntry, completed⟩ := Trap.bind_eq_ok.mp completed
  obtain ⟨linked, linking, completed⟩ := Trap.bind_eq_ok.mp completed
  obtain ⟨own, ownEntry, completed⟩ := Trap.bind_eq_ok.mp completed
  obtain ⟨filled, filling, completed⟩ := Trap.bind_eq_ok.mp completed
  obtain ⟨⟨freedCount, heap⟩, freeing, completed⟩ := Trap.bind_eq_ok.mp completed
  obtain ⟨⟨removed, unmapped⟩, unmapping, completed⟩ := Trap.bind_eq_ok.mp completed
  obtain ⟨rewritten, finished, _⟩ :=
    fill_directory_ok held aligned member clearing copying lowEntry linking ownEntry filling
  have heldFilled := (rewritten_balanced held member rewritten).1
  have sameHeap : filled.kernelHeap = allocated.kernelHeap := by rw [rewritten.same]
  have dirLow := (heldFilled.placed _ (heldFilled.inside _ member)).1
  have unmapped_ok := @unmap_page_ok { filled with kernelHeap := heap } dir
    heldFilled.spaces.selfMapped (by omega)
  have present : Present (pageEntry filled.memory filled.cr3 (dir / 4096)) := page_present heldFilled member
  dsimp only at unmapped_ok unmapping
  rw [unmapping, if_pos present] at unmapped_ok
  simp only [Except.ok.injEq, Prod.mk.injEq] at unmapped_ok
  obtain ⟨rfl, rfl⟩ := unmapped_ok
  simp only [Trap.pure_ok, Except.ok.injEq, Prod.mk.injEq] at completed
  obtain ⟨isFrame, rfl⟩ := completed
  rw [get_paddr_frame (page_entry_lt _ _ _)] at isFrame
  exact ⟨freedCount, heap, filled, sameHeap ▸ freeing, rewritten, finished, isFrame.symm, rfl⟩

/-- Taking a page from the kernel's heap, writing to it and giving it back. -/
structure Borrowed (machine next : Machine) (heap : Heap) : Prop where
  globals : SameGlobals { machine with kernelHeap := heap } next
  cr3 : next.cr3 = machine.cr3
  window : windowPage next = windowPage machine

theorem borrowed_of_steps {backed allocated filled freed : Machine} {marked heap : Heap}
    (globals : SameGlobals machine backed)
    (taken : allocated = { backed with kernelHeap := marked })
    (written : filled = { allocated with memory := filled.memory })
    (given : freed = { filled with kernelHeap := heap }) : Borrowed machine freed heap := by
  have all : SameGlobals { machine with kernelHeap := heap } freed := by
    unfold SameGlobals at globals ⊢
    rw [given, written, taken, globals]
  have cr3 := same_globals_cr3 all
  have window := same_globals_window all
  exact ⟨all, cr3, window⟩

/-- Writing a slot touches its page only. -/
theorem spares_fill_slot {page word : Nat} (written : Nat → Prop) (spaces : Spaces machine ledger.roots)
    (free : FreeList machine ledger.roots ledger.free) (low : page < 1047552)
    (present : Present (directoryEntry machine.memory machine.cr3 (page / 1024)))
    (bounded : word < 4294967296) (notWindow : page ≠ windowPage machine) :
    Spares written machine (fillSlot machine page word) ledger ledger (· = page) := by
  have kept := kept_fill_slot spaces free low present bounded notWindow
  refine ⟨?_, ?_, kept.ties⟩
  · intro frame aligned unused
    exact ⟨fun used => unused ((kept.inUse frame).1 used), fun _ => kept.outside frame aligned unused⟩
  · intro root member position high _ untouched
    rw [fill_slot_entry spaces low present bounded member high, if_neg]
    rintro ⟨rfl, tied⟩
    exact untouched ⟨rfl, tied⟩

/-- Taking the page, writing to it and unmapping it spares all but the frame. -/
theorem borrowed_spares {page : Nat} {marked heap : Heap} {backed allocated filled : Machine} {between : Ledger}
    {written : Nat → Prop} (balanced : Balanced region contributed total machine ledger)
    (extended : Extended written machine backed ledger between pageWritable page 1)
    (isAllocated : allocated = { backed with kernelHeap := marked })
    (held : Balanced region contributed total allocated between) (member : page ∈ between.pages)
    (rewritten : Rewritten allocated filled (backingFrame allocated page))
    (isWritten : written (backingFrame allocated page)) :
    Spares written machine (fillSlot { filled with kernelHeap := heap } page 0) ledger between (· = page) := by
  obtain ⟨low, notWindow⟩ := held.placed page (held.inside page member)
  have heldFilled := (rewritten_balanced held member rewritten).1
  have roots : between.roots = ledger.roots := extended.carried.roots
  have subset : ledger.roots ⊆ between.roots := fun _ isRoot => roots.symm ▸ isRoot
  have globals := extended.carried.globals
  have first : Spares written machine allocated ledger between (· = page) := by
    subst isAllocated
    have spares := spares_mono extended.spares (fun _ => id) fun other range => (by
      unfold InRange at range
      omega : other = page)
    exact ⟨spares.frames, spares.entries, spares.ties⟩
  have cr3 : allocated.cr3 = machine.cr3 := by
    have same := same_globals_cr3 globals
    rw [isAllocated]
    exact same
  have window : windowPage allocated = windowPage machine := by
    have same := same_globals_window globals
    rw [isAllocated]
    exact same
  have spared : Spares written allocated filled between between (· = page) := by
    apply spares_outside held
    intro frame aligned apart
    apply rewritten.elsewhere frame aligned
    rintro rfl
    rcases apart with used | foreign
    · exact held.apart page member used
    · exact foreign isWritten
  obtain ⟨freed, isFreed⟩ : ∃ freed, freed = { filled with kernelHeap := heap } := ⟨_, rfl⟩
  have samePaging : SamePaging filled freed := by
    rw [isFreed]
    exact ⟨rfl, rfl, rfl, rfl, rfl, rfl⟩
  have heldFreed := balanced_same_paging heldFilled samePaging (by rw [isFreed])
  have second : Spares written allocated freed between between (· = page) := by
    rw [isFreed]
    exact ⟨spared.frames, spared.entries, spared.ties⟩
  have sameCr3 : freed.cr3 = allocated.cr3 := by rw [samePaging.cr3, rewritten_cr3 rewritten]
  have sameWindow : windowPage freed = windowPage allocated := by
    rw [windowPage, windowPage, samePaging.head, rewritten.same]
  have third := spares_fill_slot written heldFreed.spaces heldFreed.free low
    (page_entry_present (page_present heldFreed member)) (by decide : 0 < 4294967296) (sameWindow ▸ notWindow)
  have later := spares_trans held.spaces.member (List.Subset.refl _) sameCr3 sameWindow second third
  rw [← isFreed]
  exact spares_trans balanced.spaces.member subset cr3 window first later

/-- A frame of the list that became a directory with tables of the others is spared like the list. -/
theorem spares_directory {between after : Ledger} {touched : Nat → Prop} (written : Nat → Prop)
    (spares : Spares (· = frame) machine next ledger between touched) (taken : frame ∈ ledger.free)
    (roots : after.roots = frame :: between.roots) (free : after.free = between.free)
    (tables : ∀ other, IsTable next.memory (frame :: between.roots) other →
      IsTable next.memory between.roots other) : Spares written machine next ledger after touched where
  frames other aligned unused := by
    obtain ⟨still, same⟩ := spares.frames other aligned unused
    have differ : other ≠ frame := fun here => unused (here ▸ .inr (.inr taken))
    refine ⟨?_, fun _ => same differ⟩
    rw [roots, free]
    rintro (isRoot | isTable | listed)
    · exact still (.inl ((List.mem_cons.1 isRoot).resolve_left differ))
    · exact still (.inr (.inl (tables other isTable)))
    · exact still (.inr (.inr listed))
  entries := spares.entries
  ties := spares.ties

/-- What `new_page_dir` did, and what it spared. -/
theorem new_page_dir_made (balanced : Balanced region contributed total machine ledger)
    (kernelHalf : kernelPdiStart ≤ windowPage machine / 1024)
    (places : ∀ ptr heap, heapAlloc machine.kernelHeap 1 = .ok (ptr, heap) →
      ptr % 4096 = 0 ∧ region (ptr / 4096))
    (creating : newPageDir machine = .ok (frame, next)) :
    ∃ ptr marked freedCount heap after, heapAlloc machine.kernelHeap 1 = .ok (ptr, marked) ∧
      heapFree marked ptr = .ok (freedCount, heap) ∧ next.kernelHeap = heap ∧
      Balanced region contributed total next after ∧
      Made machine next ledger after frame (· = ptr / 4096) ∧
      (frame ∈ ledger.free ∧ ledger.free.length ≤ after.free.length + 2) ∧
      ∀ written, Spares written machine next ledger after (· = ptr / 4096) := by
  have single : ∀ first page, InRange first 1 page ↔ page = first := by
    intro first page
    unfold InRange
    omega
  obtain ⟨⟨dir, allocated⟩, allocating, _⟩ := Trap.bind_eq_ok.mp creating
  obtain ⟨marked, between, found, heapEq, held, backed, extended, isBacked⟩ :=
    kernel_alloc_extended (· = backingFrame allocated (dir / 4096)) balanced (fun ptr heap placed page range =>
      (single _ _).1 range ▸ (places ptr heap placed).2) allocating
  have carried := extended.carried
  have pages := extended.pages
  have fresh := extended.fresh
  obtain ⟨aligned, within⟩ := places dir marked found
  have member : dir / 4096 ∈ between.pages := (pages _).2 (.inr ((single _ _).2 rfl))
  obtain ⟨freedCount, heap, filled, freeing, rewritten, finished, isFrame, rfl⟩ :=
    directory_filled aligned held member allocating creating
  have isFilled := isFrame.symm
  have heldFilled := (rewritten_balanced held member rewritten).1
  obtain ⟨freed, isFreed⟩ : ∃ freed, freed = { filled with kernelHeap := heap } := ⟨_, rfl⟩
  rw [← isFreed]
  have samePaging : SamePaging filled freed := by
    rw [isFreed]
    exact ⟨rfl, rfl, rfl, rfl, rfl, rfl⟩
  have heldFreed : Balanced region contributed total freed between :=
    balanced_same_paging heldFilled samePaging (by rw [isFreed])
  have finishedFreed : Finished freed (dir / 4096) := by
    rw [isFreed]
    exact ⟨finished.entries, finished.selfMapped⟩
  have isFrame : backingFrame freed (dir / 4096) = frame := by
    rw [isFrame, isFreed]
    rfl
  have borrowed := borrowed_of_steps carried.globals isBacked rewritten.same isFreed
  obtain ⟨after, entries⟩ :=
    unmap_directory heldFreed (borrowed.window.symm ▸ kernelHalf) member finishedFreed
  rw [isFrame] at after entries
  have notRoot : frame ∉ ledger.roots := by
    rw [← isFrame, ← carried.roots]
    exact fun isRoot => heldFreed.apart _ member (.inl isRoot)
  have positive : 0 < frame := isFrame ▸ heldFreed.positive _ member
  have own : ∀ index < 1023, directoryEntry (fillSlot freed (dir / 4096) 0).memory frame index =
      if index = 0 ∨ kernelPdiStart ≤ index then
        directoryEntry (fillSlot freed (dir / 4096) 0).memory freed.cr3 index else 0 := by
    intro index indexLow
    have ownEntry := finishedFreed.entries index indexLow
    rw [isFrame] at ownEntry
    have current := entries freed.cr3 (List.mem_cons_of_mem _ heldFreed.spaces.member) index (by omega)
    rw [entries frame List.mem_cons_self index (by omega), ownEntry, current]
  have sameFrame : backingFrame allocated (dir / 4096) = frame := by
    rw [← rewritten_frame held member rewritten, isFilled]
  have taken : frame ∈ ledger.free := by
    obtain ⟨source, listed, entry⟩ := extended.entry _ ((single _ _).2 rfl)
    have free := balanced.free
    have isSource : backingFrame allocated (dir / 4096) = frameOf source := by
      rw [backingFrame, isBacked]
      change frameOf (pageEntry backed.memory backed.cr3 (dir / 4096)) = _
      rw [entry, create_entry_frame (free.bounded source listed) (by decide)]
    have aligned := free.aligned source listed
    have same : frame = source := by
      rw [← sameFrame, isSource]
      unfold frameOf
      omega
    exact same ▸ listed
  have spares : ∀ written, Spares written machine (fillSlot freed (dir / 4096) 0) ledger
      { between with
        roots := frame :: between.roots
        pages := between.pages.erase (dir / 4096)
        directories := frame :: between.directories } (· = dir / 4096) := by
    intro written
    have borrowing := @borrowed_spares _ _ _ _ _ _ marked heap _ _ _ _ _ balanced extended isBacked held member
      rewritten rfl
    rw [← isFreed, sameFrame] at borrowing
    refine spares_directory written borrowing taken ?_ ?_ ?_
    · rfl
    · rfl
    · rintro other ⟨root, isRoot, index, indexLow, present, same⟩
      rcases List.mem_cons.1 isRoot with here | old
      · rw [here, own index indexLow] at present same
        split_ifs at present same
        · exact ⟨freed.cr3, heldFreed.spaces.member, index, indexLow, present, same⟩
        · exact absurd present not_present_zero
      · exact ⟨root, old, index, indexLow, present, same⟩
  refine ⟨dir, marked, freedCount, heap, _, found, heapEq ▸ freeing, ?_, after,
    ⟨?_, ?_, ?_, ?_, notRoot, positive, ?_, ?_, own⟩, ⟨taken, extended.taken⟩, spares⟩
  · rw [fillSlot, isFreed]
  · have same : (fillSlot freed (dir / 4096) 0).kernelHeap = heap := by rw [fillSlot, isFreed]
    rw [same]
    have kept := borrowed.globals
    exact same_globals_trans kept (rfl : SameGlobals freed (fillSlot freed (dir / 4096) 0))
  · rw [carried.roots]
  · rw [carried.directories]
  · intro page
    change page ∈ between.pages.erase (dir / 4096) ↔ _
    rw [heldFreed.nodup.mem_erase_iff, pages, single]
    constructor
    · rintro ⟨differ, old | same⟩
      · exact old
      · exact absurd same differ
    · intro old
      refine ⟨?_, .inl old⟩
      rintro rfl
      exact fresh _ ((single _ _).2 rfl) old
  · intro ptr other again
    have same := allocating.symm.trans again
    simp only [Except.ok.injEq, Prod.mk.injEq] at same
    rw [← same.2, fillSlot, isFreed, rewritten.same]
  · intro root isRoot index high untouched
    have rootBetween : root ∈ between.roots := carried.roots.symm ▸ isRoot
    have allocatedEntry : directoryEntry allocated.memory root index =
        directoryEntry machine.memory root index := by
      rw [isBacked]
      apply carried.entries root isRoot index high
      rintro ⟨isCurrent, absent, page, range, same⟩
      exact untouched ⟨isCurrent, absent, page, (single _ _).1 range, same⟩
    have filledEntry := rewritten_directory held member rewritten rootBetween high
    have freedEntry : directoryEntry freed.memory root index = directoryEntry filled.memory root index := by
      rw [isFreed]
    rw [entries root (List.mem_cons_of_mem _ rootBetween) index high, freedEntry, filledEntry,
      allocatedEntry]

theorem new_page_dir_ok (balanced : Balanced region contributed total machine ledger)
    (kernelHalf : kernelPdiStart ≤ windowPage machine / 1024)
    (places : ∀ ptr heap, heapAlloc machine.kernelHeap 1 = .ok (ptr, heap) →
      ptr % 4096 = 0 ∧ region (ptr / 4096))
    (creating : newPageDir machine = .ok (frame, next)) :
    ∃ ptr marked freedCount heap after, heapAlloc machine.kernelHeap 1 = .ok (ptr, marked) ∧
      heapFree marked ptr = .ok (freedCount, heap) ∧ next.kernelHeap = heap ∧
      Balanced region contributed total next after ∧
      Made machine next ledger after frame (· = ptr / 4096) := by
  obtain ⟨ptr, marked, freedCount, heap, after, found, freeing, same, held, made, _⟩ :=
    new_page_dir_made balanced kernelHalf places creating
  exact ⟨ptr, marked, freedCount, heap, after, found, freeing, same, held, made⟩

/-- `new_page_dir` fails in the kernel's heap only. -/
theorem new_page_dir_returns {dir freedCount : Nat} {allocated : Machine} {heap : HeapModel.Heap}
    (balanced : Balanced region contributed total machine ledger)
    (places : ∀ ptr heap, heapAlloc machine.kernelHeap 1 = .ok (ptr, heap) →
      ptr % 4096 = 0 ∧ region (ptr / 4096))
    (allocating : kernelAlloc machine 1 = .ok (dir, allocated))
    (freeing : heapFree allocated.kernelHeap dir = .ok (freedCount, heap)) :
    ∃ result, newPageDir machine = .ok result := by
  have single : ∀ first page, InRange first 1 page ↔ page = first := by
    intro first page
    unfold InRange
    omega
  obtain ⟨marked, between, found, heapEq, held, _, pages, _⟩ :=
    kernel_alloc_balanced balanced (fun ptr heap placed page range =>
      (single _ _).1 range ▸ (places ptr heap placed).2) allocating
  obtain ⟨aligned, within⟩ := places dir marked found
  have member : dir / 4096 ∈ between.pages := (pages _).2 (.inr ((single _ _).2 rfl))
  have dirLow := (balanced.placed _ within).1
  obtain ⟨cleared, clearing⟩ := clear_entries_returns (kernelPdiStart - 1) held aligned member
    (by decide : 1 + (kernelPdiStart - 1) ≤ 1024)
  obtain ⟨first, _⟩ := clear_entries_ok _ held aligned member (by decide) clearing
  have heldCleared := (rewritten_balanced held member first).1
  obtain ⟨copied, copying⟩ := copy_entries_returns (kernelPdiEnd - kernelPdiStart) heldCleared aligned
    member (by decide : kernelPdiStart + (kernelPdiEnd - kernelPdiStart) ≤ 1024)
  obtain ⟨second, _⟩ := copy_entries_ok _ heldCleared aligned member (by decide) copying
  have heldCopied := (rewritten_balanced heldCleared member second).1
  have lowEntry := pde_ok heldCopied.spaces.selfMapped (by decide : 0 < 1024)
  obtain ⟨linked, linking⟩ := store_entry_returns heldCopied
    (directoryEntry copied.memory copied.cr3 0) aligned member (by decide : getPdIndex 0 < 1024)
  obtain ⟨third, _⟩ :=
    store_entry heldCopied aligned member (by decide) (read_word_lt _ _) linking
  have heldLinked := (rewritten_balanced heldCopied member third).1
  have ownEntry := get_entry_ok heldLinked.spaces.selfMapped (by omega : dir < 4294967296)
  obtain ⟨filled, filling⟩ := store_entry_returns heldLinked
    (createEntry (getPaddr (pageEntry linked.memory linked.cr3 (dir / 4096))) pdeWritable) aligned
    member (by decide : 1023 < 1024)
  obtain ⟨rewritten, _, _⟩ :=
    fill_directory_ok held aligned member clearing copying lowEntry linking ownEntry filling
  have heldFilled := (rewritten_balanced held member rewritten).1
  have sameHeap : filled.kernelHeap = allocated.kernelHeap := by rw [rewritten.same]
  obtain ⟨freed, isFreed⟩ : ∃ freed, freed = { filled with kernelHeap := heap } := ⟨_, rfl⟩
  have heldFreed : Balanced region contributed total freed between := by
    rw [isFreed]
    exact balanced_same_paging heldFilled ⟨rfl, rfl, rfl, rfl, rfl, rfl⟩ rfl
  have unmapping := unmap_page_ok heldFreed.spaces.selfMapped (by omega : dir < 4294967296)
  rw [if_pos (page_present heldFreed member), isFreed] at unmapping
  rw [← sameHeap] at freeing
  simp only [newPageDir, allocating, clearing, copying, lowEntry, linking, ownEntry, filling, freeing,
    unmapping, Trap.ok_bind, Trap.pure_ok]
  exact ⟨_, rfl⟩

end Making

section Removing

variable {machine : Machine} {roots fewer frames : List Nat} {frame : Nat}

theorem is_table_subset {memory : Memory} (subset : fewer ⊆ roots) (isTable : IsTable memory fewer frame) :
    IsTable memory roots frame := by
  obtain ⟨root, member, entry⟩ := isTable
  exact ⟨root, subset member, entry⟩

/-- Directories other than the current one can be left out of sight. -/
theorem spaces_subset (spaces : Spaces machine roots) (subset : fewer ⊆ roots)
    (current : machine.cr3 ∈ fewer) : Spaces machine fewer where
  family := family_subset spaces.family subset
  current := spaces.current
  member := current
  headAligned := spaces.headAligned
  headLow := spaces.headLow
  headPte := spaces.headPte
  headShared root member other second := spaces.headShared root (subset member) other (subset second)

theorem free_list_subset (free : FreeList machine roots frames) (subset : fewer ⊆ roots) :
    FreeList machine fewer frames where
  linked := free.linked
  nodup := free.nodup
  aligned := free.aligned
  positive := free.positive
  bounded := free.bounded
  notRoot frame member isRoot := free.notRoot frame member (subset isRoot)
  notTable frame member isTable := free.notTable frame member (is_table_subset subset isTable)
  window := free.window

/-- A directory that is not used any more can be freed. -/
theorem root_freeable (spaces : Spaces machine roots) (free : FreeList machine roots frames)
    (subset : fewer ⊆ roots) (member : frame ∈ roots) (positive : 0 < frame) (out : frame ∉ fewer) :
    Freeable machine fewer frames frame := by
  refine ⟨spaces.family.aligned frame member, positive, spaces.family.bounded frame member, ?_⟩
  rintro (isRoot | ⟨root, isRoot, index, low, present, same⟩ | listed)
  · exact out isRoot
  · exact spaces.family.apart root (subset isRoot) index low present (same ▸ member)
  · exact free.notRoot frame listed member

end Removing

end ParadiseOS.NewDirectory
