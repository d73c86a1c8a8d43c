import ParadiseOS.FrameSteps

/-!
# Who owns a frame

A ledger says where the frames of the kernel are: on the free list, behind the
pages of a region of the current address space, or in use as page tables and page
directories. Backing pages, freeing them and copying between them keep the machine
balanced with its ledger.
-/

namespace ParadiseOS.FrameLedger

open MachineWord MemModel PagingModel PagingSteps PagingMaps TwoLevelPaging
open FrameSteps

set_option autoImplicit false

/-- All directories, the free frames, the backed pages of a region, and the frames that became
page tables and page directories. -/
structure Ledger where
  roots : List Nat
  free : List Nat
  pages : List Nat
  tables : List Nat
  directories : List Nat

/-- The machine is as its ledger says. -/
structure Balanced (region : Nat → Prop) (contributed : List Nat) (total : Nat) (machine : Machine)
    (ledger : Ledger) : Prop where
  spaces : Spaces machine ledger.roots
  free : FreeList machine ledger.roots ledger.free
  low : Present (directoryEntry machine.memory machine.cr3 0)
  placed : ∀ page, region page → page < 1047552 ∧ page ≠ windowPage machine
  exact : ∀ page, region page →
    (Present (pageEntry machine.memory machine.cr3 page) ↔ page ∈ ledger.pages)
  inside : ∀ page ∈ ledger.pages, region page
  nodup : ledger.pages.Nodup
  positive : ∀ page ∈ ledger.pages, 0 < backingFrame machine page
  apart : ∀ page ∈ ledger.pages,
    ¬ InUse machine ledger.roots ledger.free (backingFrame machine page)
  own : ∀ page ∈ ledger.pages, ∀ other ∈ ledger.pages,
    backingFrame machine page = backingFrame machine other → page = other
  tables : ∀ frame ∈ ledger.tables, IsTable machine.memory ledger.roots frame
  directories : ∀ frame ∈ ledger.directories, frame ∈ ledger.roots
  accounts : (ledger.free ++ (ledger.pages.map (backingFrame machine) ++
    (ledger.tables ++ ledger.directories))).Perm contributed
  usage : u32 (machine.usedFrames + ledger.free.length) = total

section Steps

variable {region : Nat → Prop} {contributed : List Nat} {total : Nat} {machine next : Machine}
  {ledger : Ledger}

theorem frame_freeable (balanced : Balanced region contributed total machine ledger) {page : Nat}
    (member : page ∈ ledger.pages) :
    Freeable machine ledger.roots ledger.free (backingFrame machine page) := by
  have bounded := frame_of_lt (page_entry_lt machine.memory machine.cr3 page)
  refine ⟨frame_of_aligned _, balanced.positive page member, ?_, balanced.apart page member⟩
  unfold backingFrame
  omega

theorem page_present (balanced : Balanced region contributed total machine ledger) {page : Nat}
    (member : page ∈ ledger.pages) : Present (pageEntry machine.memory machine.cr3 page) :=
  (balanced.exact page (balanced.inside page member)).2 member

/-- Backing a page of the region moves one frame to it, and perhaps one to its new table. -/
theorem balanced_alloc (balanced : Balanced region contributed total machine ledger)
    {page frame flags : Nat} {rest : List Nat} (small : flags < 4096) (inside : region page)
    (backed : Backed machine next ledger.roots ledger.free rest page frame flags) :
    ∃ tables, Balanced region contributed total next
      { ledger with free := rest, pages := page :: ledger.pages, tables := tables } := by
  have spaces := balanced.spaces
  have cr3 := same_globals_cr3 backed.globals
  have window := same_globals_window backed.globals
  have fresh : page ∉ ledger.pages := fun member => backed.absent (page_present balanced member)
  have taken : frame ∈ ledger.free := by
    rcases backed.taken with ⟨_, free, _⟩ | ⟨_, table, free, _⟩
    · exact free ▸ List.mem_cons_self
    · exact free ▸ List.mem_cons_self
  have bounded := balanced.free.bounded frame taken
  have aligned := balanced.free.aligned frame taken
  have entry : ∀ other, region other → other ≠ page →
      pageEntry next.memory next.cr3 other = pageEntry machine.memory machine.cr3 other := by
    intro other within differ
    obtain ⟨low, notWindow⟩ := balanced.placed other within
    rw [cr3, backed.entries _ spaces.member other low notWindow, if_neg (fun here => differ here.1)]
  have own : pageEntry next.memory next.cr3 page = createEntry frame flags := by
    obtain ⟨low, notWindow⟩ := balanced.placed page inside
    rw [cr3, backed.entries _ spaces.member page low notWindow, if_pos ⟨rfl, .inl rfl⟩]
  have keptFrame : ∀ other ∈ ledger.pages, backingFrame next other = backingFrame machine other := by
    intro other member
    rw [backingFrame, backingFrame, entry other (balanced.inside other member)
      (fun same => fresh (same ▸ member))]
  have ownFrame : backingFrame next page = frame := by
    rw [backingFrame, own, create_entry_frame bounded small, frameOf]
    omega
  have notFrame : ∀ other ∈ ledger.pages, backingFrame machine other ≠ frame := by
    intro other member same
    exact balanced.apart other member (same ▸ .inr (.inr taken))
  have present : ∀ index < 1024, Present (directoryEntry machine.memory machine.cr3 index) →
      directoryEntry next.memory machine.cr3 index = directoryEntry machine.memory machine.cr3 index := by
    intro index high there
    apply backed.directories _ spaces.member index high
    rintro ⟨_, same, absent⟩
    exact absent (same ▸ there)
  have keptTable : ∀ other, IsTable machine.memory ledger.roots other →
      IsTable next.memory ledger.roots other := by
    rintro other ⟨root, member, index, low, there, same⟩
    have kept : directoryEntry next.memory root index = directoryEntry machine.memory root index := by
      apply backed.directories root member index (by omega)
      rintro ⟨isRoot, isIndex, absent⟩
      rw [isRoot, isIndex] at there
      exact absent there
    exact ⟨root, member, index, low, kept ▸ there, kept ▸ same⟩
  have mapped : (page :: ledger.pages).map (backingFrame next) =
      frame :: ledger.pages.map (backingFrame machine) := by
    rw [List.map_cons, ownFrame, List.map_congr_left keptFrame]
  have common : ∀ tables, (∀ other ∈ tables, IsTable next.memory ledger.roots other) →
      (rest ++ (frame :: ledger.pages.map (backingFrame machine) ++
        (tables ++ ledger.directories))).Perm contributed →
      u32 (next.usedFrames + rest.length) = total →
      Balanced region contributed total next
        { ledger with free := rest, pages := page :: ledger.pages, tables := tables } := by
    intro tables areTables accounts usage
    refine ⟨backed.spaces, backed.free, ?_, ?_, ?_, ?_, ?_, ?_, ?_, ?_, areTables,
      balanced.directories, ?_, usage⟩
    · rw [cr3, present 0 (by decide) balanced.low]
      exact balanced.low
    · intro other within
      rw [window]
      exact balanced.placed other within
    · intro other within
      by_cases here : other = page
      · rw [here, own]
        exact iff_of_true (create_entry_present _ _) List.mem_cons_self
      · rw [entry other within here, balanced.exact other within, List.mem_cons, or_iff_right here]
    · exact List.forall_mem_cons.2 ⟨inside, balanced.inside⟩
    · exact List.nodup_cons.2 ⟨fresh, balanced.nodup⟩
    · refine List.forall_mem_cons.2 ⟨?_, ?_⟩
      · rw [ownFrame]
        exact balanced.free.positive frame taken
      · intro other member
        rw [keptFrame other member]
        exact balanced.positive other member
    · refine List.forall_mem_cons.2 ⟨?_, ?_⟩
      · rw [ownFrame, backed.inUse]
        exact fun both => both.2 rfl
      · intro other member
        rw [keptFrame other member, backed.inUse]
        exact fun both => balanced.apart other member both.1
    · intro first firstMember second secondMember same
      rcases List.mem_cons.1 firstMember with firstHere | firstOld
      · rcases List.mem_cons.1 secondMember with secondHere | secondOld
        · rw [firstHere, secondHere]
        · rw [firstHere, ownFrame, keptFrame second secondOld] at same
          exact absurd same.symm (notFrame second secondOld)
      · rcases List.mem_cons.1 secondMember with secondHere | secondOld
        · rw [secondHere, ownFrame, keptFrame first firstOld] at same
          exact absurd same (notFrame first firstOld)
        · rw [keptFrame first firstOld, keptFrame second secondOld] at same
          exact balanced.own first firstOld second secondOld same
    · change (rest ++ ((page :: ledger.pages).map (backingFrame next) ++ _)).Perm contributed
      rw [mapped]
      exact accounts
  have accounts := balanced.accounts
  have usage := balanced.usage
  rcases backed.taken with ⟨_, free, used⟩ | ⟨_, table, free, used, made⟩
  · rw [free] at accounts usage
    refine ⟨ledger.tables, common _ (fun other member => keptTable other (balanced.tables other member))
      (List.perm_middle.trans accounts) ?_⟩
    rw [used, ← usage, List.length_cons]
    unfold u32
    omega
  · rw [free] at accounts usage
    refine ⟨table :: ledger.tables, common _ ?_ ?_ ?_⟩
    · refine List.forall_mem_cons.2 ⟨?_, fun other member => keptTable other (balanced.tables other member)⟩
      obtain ⟨low, _⟩ := balanced.placed page inside
      refine ⟨machine.cr3, spaces.member, page / 1024, by omega, backed.table, ?_⟩
      have tableMember : table ∈ ledger.free := free ▸ List.mem_cons_of_mem _ List.mem_cons_self
      have tableAligned := balanced.free.aligned table tableMember
      rw [made, tableEntry, create_entry_frame (balanced.free.bounded table tableMember)
        (table_flags_lt flags), frameOf]
      omega
    · refine List.Perm.trans ?_ accounts
      have moved : (rest ++ (frame :: ledger.pages.map (backingFrame machine) ++
          (table :: ledger.tables ++ ledger.directories))).Perm
          (rest ++ (table :: (frame :: ledger.pages.map (backingFrame machine) ++
            (ledger.tables ++ ledger.directories)))) :=
        List.Perm.append_left rest List.perm_middle
      refine moved.trans (List.perm_middle.trans ?_)
      refine (List.Perm.cons table List.perm_middle).trans ?_
      exact List.Perm.swap frame table _
    · rw [used, ← usage, List.length_cons, List.length_cons]
      unfold u32
      omega

/-- Freeing a page of the region puts its frame back on the list. -/
theorem balanced_free (balanced : Balanced region contributed total machine ledger) {page : Nat}
    (member : page ∈ ledger.pages) (freed : Freed machine next ledger.roots ledger.free page) :
    Balanced region contributed total next
      { ledger with
        free := backingFrame machine page :: ledger.free
        pages := ledger.pages.erase page } := by
  have spaces := balanced.spaces
  have cr3 := same_globals_cr3 freed.globals
  have window := same_globals_window freed.globals
  have entry : ∀ other, region other → pageEntry next.memory next.cr3 other =
      if other = page then 0 else pageEntry machine.memory machine.cr3 other := by
    intro other within
    obtain ⟨low, notWindow⟩ := balanced.placed other within
    rw [cr3, freed.entries _ spaces.member other low notWindow]
    have tied : Tied machine machine.cr3 machine.cr3 page := .inl rfl
    simp only [tied, and_true]
  have left : ∀ other, other ∈ ledger.pages.erase page ↔ other ≠ page ∧ other ∈ ledger.pages :=
    fun other => balanced.nodup.mem_erase_iff
  have keptFrame : ∀ other ∈ ledger.pages.erase page,
      backingFrame next other = backingFrame machine other := by
    intro other there
    obtain ⟨differ, old⟩ := (left other).1 there
    rw [backingFrame, backingFrame, entry other (balanced.inside other old), if_neg differ]
  have keptTable : ∀ other, IsTable machine.memory ledger.roots other →
      IsTable next.memory ledger.roots other := by
    rintro other ⟨root, isRoot, index, low, there, same⟩
    have kept := freed.directories root isRoot index (by omega)
    exact ⟨root, isRoot, index, low, kept ▸ there, kept ▸ same⟩
  refine ⟨freed.spaces, freed.free, ?_, ?_, ?_, ?_, ?_, ?_, ?_, ?_, ?_, balanced.directories, ?_, ?_⟩
  · rw [cr3, freed.directories _ spaces.member 0 (by decide)]
    exact balanced.low
  · intro other within
    rw [window]
    exact balanced.placed other within
  · intro other within
    rw [entry other within, left]
    split_ifs with here
    · exact iff_of_false not_present_zero fun both => both.1 here
    · rw [balanced.exact other within]
      exact ⟨fun there => ⟨here, there⟩, fun both => both.2⟩
  · intro other there
    exact balanced.inside other ((left other).1 there).2
  · exact balanced.nodup.erase page
  · intro other there
    rw [keptFrame other there]
    exact balanced.positive other ((left other).1 there).2
  · intro other there
    obtain ⟨differ, old⟩ := (left other).1 there
    rw [keptFrame other there, freed.inUse, not_or]
    exact ⟨balanced.apart other old, fun same => differ (balanced.own other old page member same)⟩
  · intro first firstThere second secondThere same
    rw [keptFrame first firstThere, keptFrame second secondThere] at same
    exact balanced.own first ((left first).1 firstThere).2 second ((left second).1 secondThere).2 same
  · exact fun frame there => keptTable frame (balanced.tables frame there)
  · refine List.Perm.trans ?_ balanced.accounts
    have frames : (ledger.pages.erase page).map (backingFrame next) =
        (ledger.pages.erase page).map (backingFrame machine) := List.map_congr_left keptFrame
    change (backingFrame machine page :: ledger.free ++
      ((ledger.pages.erase page).map (backingFrame next) ++ (ledger.tables ++ ledger.directories))).Perm _
    rw [frames]
    have moved : (backingFrame machine page :: ledger.free ++
        ((ledger.pages.erase page).map (backingFrame machine) ++
          (ledger.tables ++ ledger.directories))).Perm
        (ledger.free ++ ((page :: ledger.pages.erase page).map (backingFrame machine) ++
          (ledger.tables ++ ledger.directories))) :=
      List.perm_middle.symm
    refine moved.trans (List.Perm.append_left _ (List.Perm.append_right _ ?_))
    exact (List.perm_cons_erase member).symm.map _
  · change u32 (next.usedFrames + (ledger.free.length + 1)) = total
    rw [freed.used, ← balanced.usage]
    unfold sub32 u32
    omega

/-- Memory may change outside the frames that are in use. -/
theorem balanced_outside (balanced : Balanced region contributed total machine ledger)
    (globals : SameGlobals machine next) (top : next.freeFramePaddr = machine.freeFramePaddr)
    (used : next.usedFrames = machine.usedFrames)
    (same : ∀ frame, frame % 4096 = 0 → InUse machine ledger.roots ledger.free frame →
      SameOn machine.memory next.memory frame) :
    Balanced region contributed total next ledger ∧
      ∀ page < 1047552, pageEntry next.memory next.cr3 page = pageEntry machine.memory machine.cr3 page := by
  have spaces := balanced.spaces
  have cr3 := same_globals_cr3 globals
  have window := same_globals_window globals
  have sameRoots : ∀ root ∈ ledger.roots, SameOn machine.memory next.memory root :=
    fun root member => same root (spaces.family.aligned root member) (.inl member)
  have entry : ∀ page < 1047552,
      pageEntry next.memory next.cr3 page = pageEntry machine.memory machine.cr3 page := by
    intro page low
    rw [cr3]
    apply page_entry_same_on (sameRoots _ spaces.member) (by omega)
    intro present
    exact same _ (frame_of_aligned _) (.inr (.inl (is_table_of_present spaces.member low present)))
  have tables : ∀ frame, IsTable next.memory ledger.roots frame ↔
      IsTable machine.memory ledger.roots frame := is_table_same_on sameRoots
  have inUse : ∀ frame, InUse next ledger.roots ledger.free frame ↔
      InUse machine ledger.roots ledger.free frame := by
    intro frame
    unfold InUse
    rw [tables]
  have frames : ∀ page ∈ ledger.pages, backingFrame next page = backingFrame machine page := by
    intro page member
    rw [backingFrame, backingFrame, entry page (balanced.placed page (balanced.inside page member)).1]
  refine ⟨⟨?_, ?_, ?_, ?_, ?_, balanced.inside, balanced.nodup, ?_, ?_, ?_, ?_, balanced.directories, ?_,
    ?_⟩, entry⟩
  · apply spaces_same_on spaces sameRoots cr3
    · rw [globals]
    · rw [globals]
    · rw [globals]
  · have free := balanced.free
    refine ⟨?_, free.nodup, free.aligned, free.positive, free.bounded, free.notRoot, ?_, ?_⟩
    · rw [top]
      exact linked_same_on free.linked fun frame member =>
        same frame (free.aligned frame member) (.inr (.inr member))
    · intro frame member
      rw [tables]
      exact free.notTable frame member
    · rw [window, entry _ spaces.windowLow, top]
      exact free.window
  · rw [cr3, directory_entry_same_on (sameRoots _ spaces.member) (by decide)]
    exact balanced.low
  · intro page within
    rw [window]
    exact balanced.placed page within
  · intro page within
    rw [entry page (balanced.placed page within).1]
    exact balanced.exact page within
  · intro page member
    rw [frames page member]
    exact balanced.positive page member
  · intro page member
    rw [frames page member, inUse]
    exact balanced.apart page member
  · intro page member other second equal
    rw [frames page member, frames other second] at equal
    exact balanced.own page member other second equal
  · intro frame member
    rw [tables]
    exact balanced.tables frame member
  · rw [List.map_congr_left frames]
    exact balanced.accounts
  · rw [used]
    exact balanced.usage

/-- Globals outside paging do not matter. -/
theorem balanced_same_paging (balanced : Balanced region contributed total machine ledger)
    (same : SamePaging machine next) (used : next.usedFrames = machine.usedFrames) :
    Balanced region contributed total next ledger := by
  have window : windowPage next = windowPage machine := by rw [windowPage, windowPage, same.head]
  have frames : backingFrame next = backingFrame machine := by
    funext page
    rw [backingFrame, backingFrame, same.memory, same.cr3]
  have inUse : ∀ frame, InUse next ledger.roots ledger.free frame ↔
      InUse machine ledger.roots ledger.free frame := by
    intro frame
    unfold InUse
    rw [same.memory]
  refine ⟨spaces_same_paging same balanced.spaces, free_list_same_paging same balanced.free, ?_, ?_, ?_,
    balanced.inside, balanced.nodup, ?_, ?_, ?_, ?_, balanced.directories, ?_, ?_⟩
  · rw [same.memory, same.cr3]
    exact balanced.low
  · rw [window]
    exact balanced.placed
  · rw [same.memory, same.cr3]
    exact balanced.exact
  · rw [frames]
    exact balanced.positive
  · intro page member
    rw [frames, inUse]
    exact balanced.apart page member
  · rw [frames]
    exact balanced.own
  · rw [same.memory]
    exact balanced.tables
  · rw [frames]
    exact balanced.accounts
  · rw [used]
    exact balanced.usage

end Steps

def InRange (first count page : Nat) : Prop := first ≤ page ∧ page < first + count

instance (first count page : Nat) : Decidable (InRange first count page) :=
  inferInstanceAs (Decidable (_ ∧ _))

/-- The machine went from one ledger to another over the same directories. Of these only the
current one may have got new tables, for pages that were touched. -/
structure Carried (machine next : Machine) (ledger after : Ledger) (touched : Nat → Prop) : Prop where
  globals : SameGlobals machine next
  roots : after.roots = ledger.roots
  directories : after.directories = ledger.directories
  entries : ∀ root ∈ ledger.roots, ∀ index < 1024,
    ¬ (root = machine.cr3 ∧ ¬ Present (directoryEntry machine.memory machine.cr3 index) ∧
      ∃ page, touched page ∧ page / 1024 = index) →
    directoryEntry next.memory root index = directoryEntry machine.memory root index

/-- The machine went from one ledger to another. Frames out of use stay so, and but for the written
ones as they are; so do the entries of untouched pages and what the directories share. -/
structure Spares (written : Nat → Prop) (machine next : Machine) (ledger after : Ledger)
    (touched : Nat → Prop) : Prop where
  frames : ∀ frame, frame % 4096 = 0 → ¬ InUse machine ledger.roots ledger.free frame →
    ¬ InUse next after.roots after.free frame ∧
      (¬ written frame → SameOn machine.memory next.memory frame)
  entries : ∀ root ∈ ledger.roots, ∀ page < 1047552, page ≠ windowPage machine →
    ¬ (touched page ∧ Tied machine machine.cr3 root page) →
      pageEntry next.memory root page = pageEntry machine.memory root page
  ties : ∀ root ∈ ledger.roots, ∀ other ∈ ledger.roots, root ≠ other → ∀ page < 1047552,
    (Shares next.memory root other page ↔ Shares machine.memory root other page)

section Sparing

variable {machine middle next : Machine} {ledger between after : Ledger}
  {written more touched later : Nat → Prop}

theorem spares_refl (written : Nat → Prop) (machine : Machine) (ledger : Ledger) (touched : Nat → Prop) :
    Spares written machine machine ledger ledger touched :=
  ⟨fun _ _ unused => ⟨unused, fun _ _ _ _ => rfl⟩, fun _ _ _ _ _ _ => rfl, fun _ _ _ _ _ _ _ => Iff.rfl⟩

theorem spares_trans (current : machine.cr3 ∈ ledger.roots) (subset : ledger.roots ⊆ between.roots)
    (cr3 : middle.cr3 = machine.cr3) (window : windowPage middle = windowPage machine)
    (first : Spares written machine middle ledger between touched)
    (second : Spares written middle next between after touched) :
    Spares written machine next ledger after touched where
  frames frame aligned unused := by
    obtain ⟨still, same⟩ := first.frames frame aligned unused
    obtain ⟨last, again⟩ := second.frames frame aligned still
    exact ⟨last, fun foreign cell low high =>
      (again foreign cell low high).trans (same foreign cell low high)⟩
  entries root member page low notWindow untouched := by
    refine (second.entries root (subset member) page low (window ▸ notWindow) ?_).trans
      (first.entries root member page low notWindow untouched)
    rintro ⟨reached, tied⟩
    refine untouched ⟨reached, ?_⟩
    rw [cr3] at tied
    rcases tied with same | shares
    · exact .inl same
    · by_cases equal : machine.cr3 = root
      · exact .inl equal
      · exact .inr ((first.ties _ current root member equal page low).1 shares)
  ties root isRoot other isOther differ page low :=
    (second.ties root (subset isRoot) other (subset isOther) differ page low).trans
      (first.ties root isRoot other isOther differ page low)

theorem spares_mono (spares : Spares written machine next ledger after touched)
    (moreWritten : ∀ frame, written frame → more frame) (wider : ∀ page, touched page → later page) :
    Spares more machine next ledger after later where
  frames frame aligned unused :=
    have kept := spares.frames frame aligned unused
    ⟨kept.1, fun foreign => kept.2 fun here => foreign (moreWritten frame here)⟩
  entries root member page low notWindow untouched :=
    spares.entries root member page low notWindow fun both => untouched ⟨wider page both.1, both.2⟩
  ties := spares.ties

/-- Backing a page takes frames from the list. -/
theorem spares_backed {page frame flags : Nat} {rest : List Nat} (written : Nat → Prop)
    (roots : after.roots = ledger.roots) (free : after.free = rest)
    (backed : Backed machine next ledger.roots ledger.free rest page frame flags) :
    Spares written machine next ledger after (· = page) where
  frames other aligned unused := by
    have still : ¬ InUse next ledger.roots rest other := fun used => unused ((backed.inUse other).1 used).1
    rw [roots, free]
    exact ⟨still, fun _ => backed.outside other aligned still⟩
  entries root member position low notWindow untouched := by
    rw [backed.entries root member position low notWindow, if_neg]
    rintro ⟨rfl, tied⟩
    exact untouched ⟨rfl, tied⟩
  ties root isRoot other isOther differ position low := backed.ties root isRoot other isOther differ position low

end Sparing

section Loops

variable {region : Nat → Prop} {contributed : List Nat} {total : Nat} {machine middle next : Machine}
  {ledger between after : Ledger} {vaddr flags : Nat} {touched later : Nat → Prop}

theorem carried_refl (machine : Machine) (ledger : Ledger) (touched : Nat → Prop) :
    Carried machine machine ledger ledger touched :=
  ⟨same_globals_refl machine, rfl, rfl, fun _ _ _ _ _ => rfl⟩

theorem carried_trans (first : Carried machine middle ledger between touched)
    (second : Carried middle next between after touched) : Carried machine next ledger after touched where
  globals := same_globals_trans first.globals second.globals
  roots := second.roots.trans first.roots
  directories := second.directories.trans first.directories
  entries root member index high untouched := by
    have kept := first.entries root member index high untouched
    have cr3 := same_globals_cr3 first.globals
    refine (second.entries root (first.roots.symm ▸ member) index high ?_).trans kept
    rintro ⟨isCurrent, absent, reached⟩
    rw [cr3] at isCurrent absent
    rw [← isCurrent, kept, isCurrent] at absent
    exact untouched ⟨isCurrent, absent, reached⟩

theorem carried_mono (carried : Carried machine next ledger after touched)
    (wider : ∀ page, touched page → later page) : Carried machine next ledger after later where
  globals := carried.globals
  roots := carried.roots
  directories := carried.directories
  entries root member index high untouched := by
    apply carried.entries root member index high
    rintro ⟨isCurrent, absent, page, reached, same⟩
    exact untouched ⟨isCurrent, absent, page, wider page reached, same⟩

theorem carried_backed {page frame : Nat} {rest : List Nat}
    (backed : Backed machine next ledger.roots ledger.free rest page frame flags)
    (roots : after.roots = ledger.roots) (directories : after.directories = ledger.directories) :
    Carried machine next ledger after (· = page) where
  globals := backed.globals
  roots := roots
  directories := directories
  entries root member index high untouched := by
    apply backed.directories root member index high
    rintro ⟨isCurrent, same, absent⟩
    exact untouched ⟨isCurrent, same ▸ absent, page, rfl, same.symm⟩

theorem carried_freed {page : Nat} (freed : Freed machine next ledger.roots ledger.free page)
    (roots : after.roots = ledger.roots) (directories : after.directories = ledger.directories)
    (touched : Nat → Prop) : Carried machine next ledger after touched where
  globals := freed.globals
  roots := roots
  directories := directories
  entries root member index high _ := freed.directories root member index high

/-- One round of `alloc_pages`. -/
theorem alloc_round {count : Nat} (balanced : Balanced region contributed total machine ledger)
    (small : flags < 4096) (inside : ∀ page, InRange (vaddr / 4096) (count + 1) page → region page)
    (completed : allocPages machine vaddr flags (count + 1) = .ok next) :
    ∃ middle frame rest tables,
      Backed machine middle ledger.roots ledger.free rest (vaddr / 4096) frame flags ∧
      Balanced region contributed total middle
        { ledger with free := rest, pages := vaddr / 4096 :: ledger.pages, tables := tables } ∧
      allocPages middle (vaddr + 4096) flags count = .ok next := by
  rw [alloc_pages_succ] at completed
  obtain ⟨middle, first, completed⟩ := Trap.bind_eq_ok.mp completed
  have here : region (vaddr / 4096) := inside _ ⟨le_refl _, by omega⟩
  have low := (balanced.placed _ here).1
  obtain ⟨frame, rest, _, backed⟩ := alloc_page_ok balanced.spaces balanced.free low small first
  obtain ⟨tables, held⟩ := balanced_alloc balanced small here backed
  have step : u32 (vaddr + pageSize) = vaddr + 4096 := u32_of_lt (by unfold pageSize; omega)
  rw [step] at completed
  exact ⟨middle, frame, rest, tables, backed, held, completed⟩

theorem in_range_rest {first count page : Nat} (range : InRange ((first + 4096) / 4096) count page) :
    InRange (first / 4096) (count + 1) page := by
  unfold InRange at range ⊢
  omega

/-- The pages of a range were backed, none of which was before, each by a frame of the list. -/
structure Extended (written : Nat → Prop) (machine next : Machine) (ledger after : Ledger)
    (flags first count : Nat) : Prop where
  carried : Carried machine next ledger after (InRange first count)
  spares : Spares written machine next ledger after (InRange first count)
  pages : ∀ page, page ∈ after.pages ↔ page ∈ ledger.pages ∨ InRange first count page
  fresh : ∀ page, InRange first count page → page ∉ ledger.pages
  entry : ∀ page, InRange first count page → ∃ frame ∈ ledger.free,
    pageEntry next.memory next.cr3 page = createEntry frame flags
  taken : ledger.free.length ≤ after.free.length + 2 * count

theorem extended_none (written : Nat → Prop) (machine : Machine) (ledger : Ledger) (flags first : Nat) :
    Extended written machine machine ledger ledger flags first 0 where
  carried := carried_refl machine ledger _
  spares := spares_refl written machine ledger _
  pages page := by
    unfold InRange
    constructor
    · exact .inl
    · rintro (member | ⟨low, high⟩)
      · exact member
      · omega
  fresh page range := by
    unfold InRange at range
    omega
  entry page range := by
    unfold InRange at range
    omega
  taken := Nat.le_add_right _ _

/-- The first page of a range, and the rest. -/
theorem extended_cons {written : Nat → Prop} {first count frame : Nat} {rest tables : List Nat}
    (balanced : Balanced region contributed total machine ledger) (inside : region first)
    (backed : Backed machine middle ledger.roots ledger.free rest first frame flags)
    (extended : Extended written middle next
      { ledger with free := rest, pages := first :: ledger.pages, tables := tables } after flags (first + 1)
      count) :
    Extended written machine next ledger after flags first (count + 1) := by
  have cr3 := same_globals_cr3 backed.globals
  have window := same_globals_window backed.globals
  have wider : ∀ page, InRange (first + 1) count page → InRange first (count + 1) page := by
    intro page range
    unfold InRange at range ⊢
    omega
  have here : ∀ page, page = first → InRange first (count + 1) page := by
    intro page same
    unfold InRange
    omega
  have start : Carried machine middle ledger
      { ledger with free := rest, pages := first :: ledger.pages, tables := tables }
      (InRange first (count + 1)) := by
    refine carried_mono (carried_backed backed ?_ ?_) here
    · rfl
    · rfl
  have spared : Spares written machine middle ledger
      { ledger with free := rest, pages := first :: ledger.pages, tables := tables }
      (InRange first (count + 1)) := by
    refine spares_mono (spares_backed written ?_ ?_ backed) (fun _ => id) here
    · rfl
    · rfl
  refine ⟨carried_trans start (carried_mono extended.carried wider),
    spares_trans balanced.spaces.member (fun _ member => start.roots.symm ▸ member) cr3 window spared
      (spares_mono extended.spares (fun _ => id) wider), ?_, ?_, ?_, ?_⟩
  · intro other
    rw [extended.pages other, List.mem_cons]
    unfold InRange
    constructor
    · rintro ((same | old) | range)
      · exact .inr (by omega)
      · exact .inl old
      · exact .inr (by omega)
    · rintro (old | range)
      · exact .inl (.inr old)
      · by_cases same : other = first
        · exact .inl (.inl same)
        · exact .inr (by omega)
  · intro other range member
    by_cases same : other = first
    · rw [same] at member
      exact backed.absent (page_present balanced member)
    · refine extended.fresh other ?_ (List.mem_cons_of_mem _ member)
      unfold InRange at range ⊢
      omega
  · obtain ⟨taken, fewer⟩ : frame ∈ ledger.free ∧ rest ⊆ ledger.free := by
      rcases backed.taken with ⟨_, free, _⟩ | ⟨_, table, free, _⟩
      · rw [free]
        exact ⟨List.mem_cons_self, List.subset_cons_self _ _⟩
      · rw [free]
        exact ⟨List.mem_cons_self, fun other there => List.mem_cons_of_mem _ (List.mem_cons_of_mem _ there)⟩
    intro other range
    by_cases same : other = first
    · obtain ⟨low, notWindow⟩ := balanced.placed first inside
      refine ⟨frame, taken, ?_⟩
      have own := backed.entries _ balanced.spaces.member first low notWindow
      rw [if_pos ⟨rfl, .inl rfl⟩] at own
      have current := same_globals_cr3 extended.carried.globals
      rw [same, current, cr3, ← own]
      refine extended.spares.entries _ balanced.spaces.member first low (window ▸ notWindow) ?_
      rintro ⟨reached, _⟩
      unfold InRange at reached
      omega
    · obtain ⟨source, listed, entry⟩ := extended.entry other (by
        unfold InRange at range ⊢
        omega)
      exact ⟨source, fewer listed, entry⟩
  · have later : rest.length ≤ after.free.length + 2 * count := extended.taken
    rcases backed.taken with ⟨_, free, _⟩ | ⟨_, table, free, _⟩
    · rw [free, List.length_cons]
      omega
    · rw [free, List.length_cons, List.length_cons]
      omega

/-- `alloc_pages` adds its pages to the backed ones, none of which it had before. -/
theorem alloc_pages_extended (count : Nat) (written : Nat → Prop)
    (balanced : Balanced region contributed total machine ledger) (small : flags < 4096)
    (inside : ∀ page, InRange (vaddr / 4096) count page → region page)
    (completed : allocPages machine vaddr flags count = .ok next) :
    ∃ after, Balanced region contributed total next after ∧
      Extended written machine next ledger after flags (vaddr / 4096) count := by
  induction count generalizing machine ledger vaddr with
  | zero =>
      rw [allocPages, Except.ok.injEq] at completed
      subst completed
      exact ⟨ledger, balanced, extended_none written machine ledger flags _⟩
  | succ count ih =>
      obtain ⟨middle, frame, rest, tables, backed, held, completed⟩ :=
        alloc_round balanced small inside completed
      have page : (vaddr + 4096) / 4096 = vaddr / 4096 + 1 := by omega
      obtain ⟨after, kept, extended⟩ :=
        ih held (fun page range => inside page (in_range_rest range)) completed
      rw [page] at extended
      exact ⟨after, kept, extended_cons balanced (inside _ ⟨le_refl _, by omega⟩) backed extended⟩

theorem alloc_pages_balanced (count : Nat)
    (balanced : Balanced region contributed total machine ledger) (small : flags < 4096)
    (inside : ∀ page, InRange (vaddr / 4096) count page → region page)
    (completed : allocPages machine vaddr flags count = .ok next) :
    ∃ after, Balanced region contributed total next after ∧
      Carried machine next ledger after (InRange (vaddr / 4096) count) ∧
      (∀ page, page ∈ after.pages ↔ page ∈ ledger.pages ∨ InRange (vaddr / 4096) count page) ∧
      ∀ page, InRange (vaddr / 4096) count page → page ∉ ledger.pages := by
  obtain ⟨after, held, extended⟩ := alloc_pages_extended count (fun _ => False) balanced small inside completed
  exact ⟨after, held, extended.carried, extended.pages, extended.fresh⟩

/-- One round of `free_pages`. -/
theorem free_round {count : Nat} (balanced : Balanced region contributed total machine ledger)
    (inside : ∀ page, InRange (vaddr / 4096) (count + 1) page → region page)
    (completed : freePages machine vaddr (count + 1) = .ok next) :
    ∃ middle, vaddr / 4096 ∈ ledger.pages ∧
      Freed machine middle ledger.roots ledger.free (vaddr / 4096) ∧
      Balanced region contributed total middle
        { ledger with
          free := backingFrame machine (vaddr / 4096) :: ledger.free
          pages := ledger.pages.erase (vaddr / 4096) } ∧
      freePages middle (vaddr + 4096) count = .ok next := by
  obtain ⟨⟨removed, unmapped⟩, unmapping, completed⟩ := Trap.bind_eq_ok.mp completed
  have here : region (vaddr / 4096) := inside _ ⟨le_refl _, by omega⟩
  obtain ⟨low, notWindow⟩ := balanced.placed _ here
  cases removed with
  | none => cases completed
  | some entry =>
      obtain ⟨middle, freeing, completed⟩ := Trap.bind_eq_ok.mp completed
      have present : Present (pageEntry machine.memory machine.cr3 (vaddr / 4096)) := by
        by_contra absent
        rw [unmap_page_ok balanced.spaces.selfMapped (by omega), if_neg absent] at unmapping
        simp only [Except.ok.injEq, Prod.mk.injEq, reduceCtorEq, false_and] at unmapping
      have member : vaddr / 4096 ∈ ledger.pages := (balanced.exact _ here).1 present
      have freed := free_page_ok balanced.spaces balanced.free low notWindow
        (frame_freeable balanced member) unmapping rfl freeing
      have step : u32 (vaddr + pageSize) = vaddr + 4096 := u32_of_lt (by unfold pageSize; omega)
      rw [step] at completed
      exact ⟨middle, member, freed, balanced_free balanced member freed, completed⟩

/-- `free_pages` takes its pages from the backed ones, all of which were. -/
theorem free_pages_balanced (count : Nat)
    (balanced : Balanced region contributed total machine ledger)
    (inside : ∀ page, InRange (vaddr / 4096) count page → region page)
    (completed : freePages machine vaddr count = .ok next) :
    ∃ after, Balanced region contributed total next after ∧
      Carried machine next ledger after (fun _ => False) ∧
      ∀ page, page ∈ after.pages ↔ page ∈ ledger.pages ∧ ¬ InRange (vaddr / 4096) count page := by
  induction count generalizing machine ledger vaddr with
  | zero =>
      rw [freePages, Except.ok.injEq] at completed
      subst completed
      refine ⟨ledger, balanced, carried_refl machine ledger _, ?_⟩
      intro page
      unfold InRange
      exact ⟨fun member => ⟨member, by omega⟩, fun both => both.1⟩
  | succ count ih =>
      obtain ⟨middle, member, freed, held, completed⟩ := free_round balanced inside completed
      have page : (vaddr + 4096) / 4096 = vaddr / 4096 + 1 := by omega
      obtain ⟨after, kept, carried, pages⟩ :=
        ih held (fun page range => inside page (in_range_rest range)) completed
      have start : Carried machine middle ledger
          { ledger with
            free := backingFrame machine (vaddr / 4096) :: ledger.free
            pages := ledger.pages.erase (vaddr / 4096) } (fun _ => False) := by
        refine carried_freed freed ?_ ?_ _
        · rfl
        · rfl
      refine ⟨after, kept, carried_trans start carried, ?_⟩
      intro other
      rw [pages other]
      change other ∈ ledger.pages.erase (vaddr / 4096) ∧ _ ↔ _
      rw [balanced.nodup.mem_erase_iff]
      unfold InRange
      constructor
      · rintro ⟨⟨differ, old⟩, apart⟩
        exact ⟨old, by omega⟩
      · rintro ⟨old, apart⟩
        exact ⟨⟨by omega, old⟩, by omega⟩

end Loops

section Contents

variable {region : Nat → Prop} {contributed : List Nat} {total : Nat} {machine next : Machine}
  {ledger : Ledger} {vaddr : Nat}

theorem page_translate {vaddr : Nat} (balanced : Balanced region contributed total machine ledger)
    (member : vaddr / 4096 ∈ ledger.pages) :
    translate machine.memory machine.cr3 vaddr =
      some (backingFrame machine (vaddr / 4096) + vaddr % 4096) :=
  translate_page (page_present balanced member)

theorem store_byte_eq (balanced : Balanced region contributed total machine ledger)
    (member : vaddr / 4096 ∈ ledger.pages) {byte : UInt8}
    (stored : storeByte machine vaddr byte = .ok next) :
    next = { machine with memory := fun cell =>
      if cell = backingFrame machine (vaddr / 4096) + vaddr % 4096 then byte else machine.memory cell } := by
  rw [storeByte, physical, page_translate balanced member] at stored
  simp only [Trap.ok_bind, Trap.pure_ok, Except.ok.injEq] at stored
  exact stored.symm

theorem store_byte_elsewhere (balanced : Balanced region contributed total machine ledger)
    (member : vaddr / 4096 ∈ ledger.pages) {byte : UInt8}
    (stored : storeByte machine vaddr byte = .ok next) {frame : Nat} (aligned : frame % 4096 = 0)
    (differ : frame ≠ backingFrame machine (vaddr / 4096)) : SameOn machine.memory next.memory frame := by
  have frameAligned := frame_of_aligned (pageEntry machine.memory machine.cr3 (vaddr / 4096))
  intro cell low high
  rw [store_byte_eq balanced member stored]
  unfold backingFrame at differ ⊢
  exact if_neg (by omega)

/-- A byte of a backed page is nobody's bookkeeping. -/
theorem store_byte_balanced (balanced : Balanced region contributed total machine ledger)
    (member : vaddr / 4096 ∈ ledger.pages) {byte : UInt8}
    (stored : storeByte machine vaddr byte = .ok next) :
    Balanced region contributed total next ledger ∧
      Carried machine next ledger ledger (fun _ => False) ∧
      ∀ page ∈ ledger.pages,
        pageEntry next.memory next.cr3 page = pageEntry machine.memory machine.cr3 page := by
  have changed := store_byte_eq balanced member stored
  have same : ∀ frame, frame % 4096 = 0 → InUse machine ledger.roots ledger.free frame →
      SameOn machine.memory next.memory frame := by
    intro frame aligned used
    apply store_byte_elsewhere balanced member stored aligned
    exact fun same => balanced.apart _ member (same ▸ used)
  have globals : SameGlobals machine next := by
    rw [changed]
    rfl
  have top : next.freeFramePaddr = machine.freeFramePaddr := by rw [changed]
  have used : next.usedFrames = machine.usedFrames := by rw [changed]
  obtain ⟨held, entries⟩ := balanced_outside balanced globals top used same
  refine ⟨held, ⟨globals, rfl, rfl, ?_⟩, ?_⟩
  · intro root isRoot index high _
    exact directory_entry_same_on
      (same root (balanced.spaces.family.aligned root isRoot) (.inl isRoot)) high
  · exact fun page there => entries page (balanced.placed page (balanced.inside page there)).1

/-- Memory that only changes in the written frames is spared. -/
theorem spares_outside (balanced : Balanced region contributed total machine ledger) {written : Nat → Prop}
    (touched : Nat → Prop)
    (same : ∀ frame, frame % 4096 = 0 → InUse machine ledger.roots ledger.free frame ∨ ¬ written frame →
      SameOn machine.memory next.memory frame) :
    Spares written machine next ledger ledger touched := by
  have family := balanced.spaces.family
  have sameRoots : ∀ root ∈ ledger.roots, SameOn machine.memory next.memory root :=
    fun root member => same root (family.aligned root member) (.inl (.inl member))
  refine ⟨?_, ?_, ?_⟩
  · intro frame aligned unused
    refine ⟨fun used => unused ?_, fun foreign => same frame aligned (.inr foreign)⟩
    rcases used with isRoot | isTable | isFree
    · exact .inl isRoot
    · exact .inr (.inl ((is_table_same_on sameRoots frame).1 isTable))
    · exact .inr (.inr isFree)
  · intro root member page low _ _
    apply page_entry_same_on (sameRoots root member) (by omega)
    intro present
    apply same _ (frame_of_aligned _)
    exact .inl (.inr (.inl ⟨root, member, _, by omega, present, rfl⟩))
  · intro root isRoot other isOther _ page low
    exact shares_same_on (sameRoots root isRoot) (sameRoots other isOther) (by omega)

/-- Copying into backed pages. -/
theorem copy_bytes_balanced (count : Nat) {src : Nat}
    (balanced : Balanced region contributed total machine ledger)
    (inside : ∀ offset < count, (vaddr + offset) / 4096 ∈ ledger.pages)
    (copied : copyBytes machine vaddr src count = .ok next) :
    Balanced region contributed total next ledger ∧
      Carried machine next ledger ledger (fun _ => False) := by
  induction count generalizing machine vaddr src with
  | zero =>
      rw [copyBytes, Except.ok.injEq] at copied
      subst copied
      exact ⟨balanced, carried_refl machine ledger _⟩
  | succ count ih =>
      obtain ⟨byte, _, copied⟩ := Trap.bind_eq_ok.mp copied
      obtain ⟨middle, stored, copied⟩ := Trap.bind_eq_ok.mp copied
      have member := inside 0 (by omega)
      have low := (balanced.placed _ (balanced.inside _ member)).1
      rw [Nat.add_zero] at member low
      obtain ⟨held, carried, _⟩ := store_byte_balanced balanced member stored
      rw [u32_of_lt (show vaddr + 1 < 4294967296 by omega)] at copied
      obtain ⟨kept, later⟩ := ih held (fun offset below => by
        have next := inside (offset + 1) (by omega)
        rwa [← Nat.add_assoc, Nat.add_right_comm] at next) copied
      exact ⟨kept, carried_trans carried later⟩

end Contents

section Extents

variable {region : Nat → Prop} {contributed : List Nat} {total : Nat} {machine next : Machine}
  {ledger : Ledger} {ptr newPtr oldSize pages flags : Nat}

theorem get_flags_lt (entry : Nat) : getFlags entry < 4096 := by
  rw [get_flags_mod]
  omega

/-- The pages of an allocation that moved, with those it left. -/
theorem mem_move_balanced (balanced : Balanced region contributed total machine ledger)
    (small : flags < 4096) (aligned : newPtr % 4096 = 0) (grows : oldSize ≤ pages)
    (word : newPtr / 4096 + pages ≤ 1048576)
    (inside : ∀ page, InRange (newPtr / 4096) pages page → region page)
    (old : ∀ page, InRange (ptr / 4096) oldSize page → region page)
    (completed : memMove machine ptr newPtr oldSize pages flags = .ok next) :
    ∃ after, Balanced region contributed total next after ∧
      Carried machine next ledger after (InRange (newPtr / 4096) pages) ∧
      ∀ page, page ∈ after.pages ↔ (page ∈ ledger.pages ∨ InRange (newPtr / 4096) pages page) ∧
        ¬ InRange (ptr / 4096) oldSize page := by
  obtain ⟨backed, backing, completed⟩ := Trap.bind_eq_ok.mp completed
  obtain ⟨copied, copying, freeing⟩ := Trap.bind_eq_ok.mp completed
  obtain ⟨between, held, carried, grown, _⟩ := alloc_pages_balanced _ balanced small inside backing
  have size : u32 (oldSize * pageSize) ≤ pages * 4096 := by
    unfold u32 pageSize
    omega
  obtain ⟨kept, copies⟩ := copy_bytes_balanced _ held (fun offset below => by
    rw [grown]
    right
    unfold InRange
    omega) copying
  obtain ⟨after, final, released, left⟩ := free_pages_balanced _ kept old freeing
  have rest := carried_trans copies released
  refine ⟨after, final, carried_trans carried (carried_mono rest fun _ none => none.elim), ?_⟩
  intro page
  rw [left, grown]

/-- The pages of an allocation that kept its place: the pages it lost or won. -/
theorem mem_resize_balanced (balanced : Balanced region contributed total machine ledger)
    (small : flags < 4096) (aligned : ptr % 4096 = 0) (word : ptr / 4096 + oldSize < 1048576)
    (old : ∀ page, InRange (ptr / 4096) oldSize page → region page)
    (inside : ∀ page, InRange (ptr / 4096) pages page → region page)
    (completed : memResize machine ptr oldSize pages flags = .ok next) :
    ∃ after, Balanced region contributed total next after ∧
      Carried machine next ledger after (InRange (ptr / 4096) pages) ∧
      ∀ page, page ∈ after.pages ↔
        (page ∈ ledger.pages ∨ InRange (ptr / 4096 + oldSize) (pages - oldSize) page) ∧
          ¬ InRange (ptr / 4096 + pages) (oldSize - pages) page := by
  unfold memResize at completed
  split_ifs at completed with shrinks
  · have place : u32 (ptr + u32 (pages * pageSize)) = ptr + pages * 4096 := by
      unfold u32 pageSize
      omega
    have quotient : (ptr + pages * 4096) / 4096 = ptr / 4096 + pages := by omega
    rw [place] at completed
    obtain ⟨after, kept, carried, left⟩ := free_pages_balanced _ balanced (fun page range => old page (by
      rw [quotient] at range
      unfold InRange at range ⊢
      omega)) completed
    refine ⟨after, kept, carried_mono carried fun _ none => none.elim, ?_⟩
    intro page
    rw [left, quotient]
    unfold InRange
    constructor
    · rintro ⟨member, apart⟩
      exact ⟨.inl member, apart⟩
    · rintro ⟨member | range, apart⟩
      · exact ⟨member, apart⟩
      · omega
  · have place : u32 (ptr + u32 (oldSize * pageSize)) = ptr + oldSize * 4096 := by
      unfold u32 pageSize
      omega
    have quotient : (ptr + oldSize * 4096) / 4096 = ptr / 4096 + oldSize := by omega
    rw [place] at completed
    obtain ⟨after, kept, carried, grown, _⟩ :=
      alloc_pages_balanced _ balanced small (fun page range => inside page (by
        rw [quotient] at range
        unfold InRange at range ⊢
        omega)) completed
    refine ⟨after, kept, carried_mono carried ?_, ?_⟩
    · intro page range
      rw [quotient] at range
      unfold InRange at range ⊢
      omega
    · intro page
      rw [grown, quotient]
      unfold InRange
      constructor
      · intro member
        exact ⟨member, by omega⟩
      · exact fun both => both.1

end Extents

end ParadiseOS.FrameLedger
