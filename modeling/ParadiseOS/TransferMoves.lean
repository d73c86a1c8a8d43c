import ParadiseOS.PagingChecks
import ParadiseOS.VirtRanges

/-!
# Moving pages between address spaces

`syscall_virt_transfer` puts the entries it has taken back if the destination is
in use, which restores memory to the byte. When it succeeds, every space tied to
a page of one of the ranges sees the move, so that the move is one between two
processes only as far as no other space shares the tables.
-/

namespace ParadiseOS.TransferMoves

open MachineWord PagingModel PagingSteps PagingMaps TwoLevelPaging VirtModel VirtRanges
open PagingChecks
open RbTreeRuns (getProcess)

set_option autoImplicit false

/-- A page that user code can reach in a space. -/
def UserPage (memory : Memory) (root page : Nat) : Prop :=
  Present (pageEntry memory root page) ∧ UserMode (pageEntry memory root page) ∧
    UserMode (directoryEntry memory root (page / 1024))

instance (memory : Memory) (root page : Nat) : Decidable (UserPage memory root page) :=
  inferInstanceAs (Decidable (_ ∧ _ ∧ _))

def InRange (vaddr n page : Nat) : Prop := ∃ i < n, page = pageOf vaddr i

instance (vaddr n page : Nat) : Decidable (InRange vaddr n page) :=
  inferInstanceAs (Decidable (∃ i < n, _))

/-- The directory of the process with an address-space id. -/
def spaceOf (machine : Machine) (aid : Nat) : Nat :=
  match getProcess machine.processTree aid with
  | .ok process => machine.pageDirPaddr process
  | .error _ => 0

/-- Every process of the tree has a live directory. -/
def ProcessRoots (machine : Machine) (roots : List Nat) : Prop :=
  ∀ aid process, getProcess machine.processTree aid = .ok process → process ≠ 0 →
    machine.pageDirPaddr process ∈ roots

/-- A directory, and a range of its pages. -/
structure Region where
  root : Nat
  vaddr : Nat
  deriving DecidableEq

namespace Region

variable (region : Region)

def page (i : Nat) : Nat := pageOf region.vaddr i

def Holds (n root page : Nat) : Prop := root = region.root ∧ InRange region.vaddr n page

instance (n root page : Nat) : Decidable (region.Holds n root page) :=
  inferInstanceAs (Decidable (_ ∧ _))

end Region

section Statement

variable (machine next : Machine) (roots : List Nat) (source destination : Region) (n : Nat)

/-- The entries of the source stand in the destination, and no other user page changed. -/
structure Moved : Prop where
  arrived : ∀ i < n, pageEntry next.memory destination.root (destination.page i) =
    pageEntry machine.memory source.root (source.page i)
  gone : ∀ i < n, ¬ destination.Holds n source.root (source.page i) →
    ¬ Present (pageEntry next.memory source.root (source.page i))
  others : ∀ root ∈ roots, ∀ page < 1047552, ¬ source.Holds n root page →
    ¬ destination.Holds n root page → UserPage machine.memory root page ∨ UserPage next.memory root page →
    pageEntry next.memory root page = pageEntry machine.memory root page

/-- A call that moved everything, or nothing. -/
structure AllOrNothing (result : SyscallResult) : Prop where
  success : result.err = 0 → Moved machine next roots source destination n
  failure : result.err ≠ 0 → ∀ root page,
    pageEntry next.memory root page = pageEntry machine.memory root page
  caller : next.cr3 = machine.cr3 ∧ next.currentPageDir = machine.currentPageDir

/-- All pages of the source are there, and those of the destination are free once the source
has been taken away. -/
structure Transferable : Prop where
  mapped : ∀ i < n, Present (pageEntry machine.memory source.root (source.page i))
  free : ∀ j < n, Present (pageEntry machine.memory destination.root (destination.page j)) →
    ∃ i < n, source.page i = destination.page j ∧
      Tied machine source.root destination.root (destination.page j)

/-- No other space sees the move: a page that another directory shares with the source or the
destination gets the entry it had, or is out of reach for users before and after. -/
structure Private : Prop where
  both : source.root ≠ destination.root → ∀ i < n, InRange destination.vaddr n (source.page i) →
    ¬ Shares machine.memory source.root destination.root (source.page i)
  arriving : ∀ root ∈ roots, ∀ j < n, ¬ source.Holds n root (destination.page j) →
    root ≠ destination.root → Shares machine.memory destination.root root (destination.page j) →
    UserPage machine.memory root (destination.page j) ∨
      UserMode (pageEntry machine.memory source.root (source.page j)) ∧
        UserMode (directoryEntry machine.memory root (destination.page j / 1024)) →
    pageEntry machine.memory source.root (source.page j) =
      pageEntry machine.memory root (destination.page j)
  leaving : ∀ root ∈ roots, ∀ i < n, ¬ destination.Holds n root (source.page i) →
    root ≠ source.root → Shares machine.memory source.root root (source.page i) →
    (InRange destination.vaddr n (source.page i) →
      ¬ Tied machine destination.root root (source.page i)) →
    ¬ UserPage machine.memory root (source.page i)

/-- A call that moves the window of the free list does not have to make page tables. -/
def WindowSafe : Prop :=
  InRange destination.vaddr n (windowPage machine) →
    ∀ j < n, Present (directoryEntry machine.memory destination.root (destination.page j / 1024))

instance : Decidable (WindowSafe machine destination n) := inferInstanceAs (Decidable (_ → _))

end Statement

section Entries

variable {machine next taken : Machine} {roots frames : List Nat} {source destination : Region}
  {n : Nat}

/-- What a successful transfer did to a page, in all directories. -/
structure Transferred (machine next : Machine) (roots : List Nat) (source destination : Region)
    (n page : Nat) : Prop where
  arrived : ∀ root ∈ roots, ∀ j < n, page = destination.page j →
    Tied machine destination.root root page →
    pageEntry next.memory root page = pageEntry machine.memory source.root (source.page j)
  left : ∀ root ∈ roots, ∀ i < n, page = source.page i → Tied machine source.root root page →
    (∀ j < n, page = destination.page j → ¬ Tied machine destination.root root page) →
    pageEntry next.memory root page = 0
  kept : ∀ root ∈ roots, (∀ i < n, page = source.page i → ¬ Tied machine source.root root page) →
    (∀ j < n, page = destination.page j → ¬ Tied machine destination.root root page) →
    pageEntry next.memory root page = pageEntry machine.memory root page

/-- The two loops together. -/
theorem transferred_of_assigned {page : Nat} (low : page < 1047552)
    (member : destination.root ∈ roots) (rewritten : Rewritten (switch machine source.root) taken roots)
    (cleared : Assigned (switch machine source.root) taken roots source.vaddr 0 n (fun _ => 0) page)
    (filled : Assigned (switch taken destination.root) next roots destination.vaddr 0 n
      (fun j => pageEntry machine.memory source.root (source.page j)) page) :
    Transferred machine next roots source destination n page := by
  have tied : ∀ root ∈ roots, Tied taken destination.root root page ↔
      Tied machine destination.root root page :=
    fun root second => rewritten_tied rewritten member second low
  have zero : ∀ j, 0 + j = j := Nat.zero_add
  refine ⟨?_, ?_, ?_⟩
  · intro root second j small here joined
    have set := filled.inside root second j small (by rw [zero]; exact here)
      ((tied root second).2 joined)
    rw [zero] at set
    exact set
  · intro root second i small here joined loose
    have away : (∀ j < n, page ≠ pageOf destination.vaddr (0 + j)) ∨
        ¬ Tied (switch taken destination.root) destination.root root page := by
      by_cases inside : ∃ j < n, page = destination.page j
      · obtain ⟨j, bounded, same⟩ := inside
        exact .inr fun linked => loose j bounded same ((tied root second).1 linked)
      · left
        intro j bounded same
        rw [zero] at same
        exact inside ⟨j, bounded, same⟩
    rw [filled.outside root second away]
    exact cleared.inside root second i small (by rw [zero]; exact here) joined
  · intro root second off loose
    have away : (∀ j < n, page ≠ pageOf destination.vaddr (0 + j)) ∨
        ¬ Tied (switch taken destination.root) destination.root root page := by
      by_cases inside : ∃ j < n, page = destination.page j
      · obtain ⟨j, bounded, same⟩ := inside
        exact .inr fun linked => loose j bounded same ((tied root second).1 linked)
      · left
        intro j bounded same
        rw [zero] at same
        exact inside ⟨j, bounded, same⟩
    have clear : (∀ i < n, page ≠ pageOf source.vaddr (0 + i)) ∨
        ¬ Tied (switch machine source.root) source.root root page := by
      by_cases inside : ∃ i < n, page = source.page i
      · obtain ⟨i, bounded, same⟩ := inside
        exact .inr fun linked => off i bounded same linked
      · left
        intro i bounded same
        rw [zero] at same
        exact inside ⟨i, bounded, same⟩
    rw [filled.outside root second away]
    exact cleared.outside root second clear

end Entries

section Outcome

variable {machine next : Machine} {roots frames : List Nat} {source destination : Region} {n : Nat}
  {result : SyscallResult}

theorem switch_switch (machine : Machine) (first second : Nat) :
    switch (switch machine first) second = switch machine second := rfl

/-- The slots of a range are different words. -/
theorem slots_nodup (spaces : Spaces machine roots) {vaddr : Nat} (small : n ≤ 1048576)
    (low : ∀ i < n, pageOf vaddr i < 1047552)
    (present : ∀ i < n, Present (pageEntry machine.memory machine.cr3 (pageOf vaddr i))) :
    ((List.range' 0 n).map fun i => slot machine.memory machine.cr3 (pageOf vaddr i)).Nodup := by
  have distinct : (List.range' 0 n).Nodup := List.nodup_range'
  apply List.Nodup.map_on _ distinct
  intro i first j second same
  obtain ⟨_, high⟩ := List.mem_range'_1.1 first
  obtain ⟨_, above⟩ := List.mem_range'_1.1 second
  have lowI := low i (by omega)
  have lowJ := low j (by omega)
  have tableI := page_entry_present (present i (by omega))
  have tableJ := page_entry_present (present j (by omega))
  have alignedI := frame_of_aligned (directoryEntry machine.memory machine.cr3 (pageOf vaddr i / 1024))
  have alignedJ := frame_of_aligned (directoryEntry machine.memory machine.cr3 (pageOf vaddr j / 1024))
  unfold slot at same
  have frames : frameOf (directoryEntry machine.memory machine.cr3 (pageOf vaddr i / 1024)) =
      frameOf (directoryEntry machine.memory machine.cr3 (pageOf vaddr j / 1024)) := by omega
  have index := spaces.family.owner _ spaces.member _ spaces.member (pageOf vaddr i / 1024) (by omega)
    (pageOf vaddr j / 1024) (by omega) tableI tableJ frames
  have equal : pageOf vaddr i = pageOf vaddr j := by omega
  exact page_of_injective (by omega) (by omega) equal

/-- Taking the entries of a range and putting them back restores memory. -/
theorem put_back (spaces : Spaces machine roots) {taken put : Machine} {vaddr : Nat}
    (small : n ≤ 1048576) (low : ∀ i < n, pageOf vaddr i < 1047552)
    (present : ∀ i < n, Present (pageEntry machine.memory machine.cr3 (pageOf vaddr i)))
    (rewritten : Rewritten machine taken roots)
    (cleared : taken.memory = writeAll machine.memory (slotWords machine vaddr 0 n fun _ => 0))
    (completed : virtTransferPut taken vaddr 0 ((List.range' 0 n).map fun i =>
      pageEntry machine.memory machine.cr3 (pageOf vaddr i)) = .ok put) : put = machine := by
  have zero : ∀ j, 0 + j = j := Nat.zero_add
  have same := rewritten.sameRoots _ spaces.member
  have loaded := rewritten_cr3 rewritten
  obtain ⟨later, filled, _⟩ := transfer_put_tables (rewritten_spaces spaces rewritten) (by omega)
    (fun j inside => by rw [zero]; exact low j inside)
    (fun j inside => by
      have bounded := page_of_lt vaddr (0 + j)
      rw [loaded, directory_entry_same_on same (by omega), zero]
      exact page_entry_present (present j inside))
    (fun j _ high => ⟨present j (by omega), page_entry_lt _ _ _⟩) completed
  have words : slotWords taken vaddr 0 n (fun i =>
      pageEntry machine.memory machine.cr3 (pageOf vaddr i)) =
      ((List.range' 0 n).map fun i => slot machine.memory machine.cr3 (pageOf vaddr i)).map
        fun addr => (addr, readWord machine.memory addr) := by
    rw [slotWords, List.map_map]
    apply List.map_congr_left
    intro i member
    obtain ⟨_, high⟩ := List.mem_range'_1.1 member
    have table := page_entry_present (present i (by omega))
    rw [loaded, slot_same_on same (page_of_lt _ _), pageEntry, if_pos table]
    rfl
  have zeros : slotWords machine vaddr 0 n (fun _ => 0) =
      ((List.range' 0 n).map fun i => slot machine.memory machine.cr3 (pageOf vaddr i)).map
        fun addr => (addr, 0) := by
    rw [slotWords, List.map_map]
    rfl
  have memory : put.memory = machine.memory := by
    rw [filled, words, cleared, zeros]
    apply write_all_restore _ _ (slots_nodup spaces small low present)
    intro addr member
    obtain ⟨i, _, equal⟩ := List.mem_map.1 member
    rw [← equal]
    unfold slot frameOf
    omega
  rw [later.globals, memory, rewritten.globals]

/-- The entries of the source, in the order in which they are kept. -/
def sourceEntries (machine : Machine) (source : Region) (n : Nat) : List Nat :=
  (List.range' 0 n).map fun i => pageEntry machine.memory source.root (source.page i)

/-- A successful transfer, cut where the destination's directory is loaded. -/
structure Halves (machine next : Machine) (roots frames : List Nat) (source destination : Region)
    (n : Nat) (taken put : Machine) : Prop where
  rewritten : Rewritten (switch machine source.root) taken roots
  cleared : ∀ page < 1047552,
    Assigned (switch machine source.root) taken roots source.vaddr 0 n (fun _ => 0) page
  kept : FreeList (switch machine source.root) roots frames →
    (∀ i < n, source.page i ≠ windowPage machine) →
    Kept (switch machine source.root) taken roots frames frames
  completed : virtTransferPut (switch taken destination.root) destination.vaddr 0
    (sourceEntries machine source n) = .ok put
  returned : next = setPageDir put machine.currentPageDir

/-- A call that returns has refused and changed nothing, or found everything in order. -/
theorem transfer_between_ok (spaces : Spaces machine roots) (frames : List Nat)
    (sourceMember : source.root ∈ roots) (destinationMember : destination.root ∈ roots)
    (small : n ≤ 1048576)
    (below : (∀ i < n, Present (pageEntry machine.memory source.root (source.page i))) →
      ∀ i < n, source.page i < 1047552)
    (completed : virtTransferBetween machine source.root destination.root source.vaddr
      destination.vaddr n = .ok (result, next)) :
    (¬ Transferable machine source destination n ∧ result.err ≠ 0 ∧ next = machine) ∨
      (Transferable machine source destination n ∧ result.err = 0 ∧
        ∃ taken put, Halves machine next roots frames source destination n taken put) := by
  have zero : ∀ j, 0 + j = j := Nat.zero_add
  have sourceSpaces := spaces_switch spaces sourceMember
  obtain ⟨mapped, looked, meaning⟩ := range_is_ok sourceSpaces.selfMapped source.vaddr true 0 n
  rw [virtTransferBetween, set_page_dir_ok spaces.current, looked, Trap.ok_bind] at completed
  cases mapped with
  | false =>
      rw [if_pos rfl] at completed
      left
      refine ⟨fun transferable => ?_, ?_, ?_⟩
      · have all := meaning.2 fun i inside => by
          rw [zero]
          exact iff_of_true (transferable.mapped i inside) rfl
        cases all
      · cases completed
        decide
      · have back : setPageDir (switch machine source.root) (getPageDir machine) = machine := by
          rw [set_page_dir_ok rfl, switch_switch, getPageDir, spaces.current, switch_self spaces.current]
        cases completed
        exact back
  | true =>
      have present : ∀ i < n, Present (pageEntry machine.memory source.root (source.page i)) := by
        intro i inside
        have here := (meaning.1 rfl i inside).2 rfl
        rw [zero] at here
        exact here
      have sourceLow := below present
      obtain ⟨taken, took, rewritten, memory, cleared, kept⟩ :=
        transfer_take_ok frames source.vaddr sourceSpaces (show 0 + n ≤ 1048576 by omega)
          (fun i inside => by rw [zero]; exact sourceLow i inside)
          (fun i inside => by rw [zero]; exact present i inside)
      have takenSpaces := rewritten_spaces sourceSpaces rewritten
      have destinationSpaces := spaces_switch takenSpaces destinationMember
      obtain ⟨allFree, looked, freeMeaning⟩ :=
        range_is_ok destinationSpaces.selfMapped destination.vaddr false 0 n
      -- whether a destination page is free once the source has been taken away
      have entryAfter : ∀ j < n, (Present (pageEntry taken.memory destination.root (destination.page j)) ↔
          Present (pageEntry machine.memory destination.root (destination.page j)) ∧
            ¬ ∃ i < n, source.page i = destination.page j ∧
              Tied machine source.root destination.root (destination.page j)) := by
        intro j inside
        by_cases high : destination.page j < 1047552
        swap
        · -- the tables' own pages show the directory, which stays
          have bound : destination.page j < 1048576 := page_of_lt _ _
          have index : destination.page j = 1023 * 1024 + (destination.page j - 1047552) := by omega
          have same := rewritten.sameRoots _ destinationMember
          have selfMapped := spaces.family.selfMapped _ destinationMember
          rw [index, page_entry_self_map (self_mapped_same_on same selfMapped) (by omega),
            page_entry_self_map selfMapped (by omega), directory_entry_same_on same (by omega)]
          refine (and_iff_left ?_).symm
          rintro ⟨i, bounded, equal, _⟩
          have low := sourceLow i bounded
          omega
        have assigned := cleared (destination.page j) high
        by_cases tookIt : ∃ i < n, source.page i = destination.page j ∧
            Tied machine source.root destination.root (destination.page j)
        · obtain ⟨i, bounded, same, tied⟩ := tookIt
          have gone := assigned.inside _ destinationMember i bounded (by rw [zero]; exact same.symm) tied
          rw [gone]
          exact iff_of_false not_present_zero fun both => both.2 ⟨i, bounded, same, tied⟩
        · have stays := assigned.outside _ destinationMember (by
            by_cases tied : Tied machine source.root destination.root (destination.page j)
            · left
              intro i bounded same
              rw [zero] at same
              exact tookIt ⟨i, bounded, same.symm, tied⟩
            · exact .inr tied)
          rw [stays]
          exact ⟨fun there => ⟨there, tookIt⟩, And.left⟩
      have transferable : allFree = true ↔ Transferable machine source destination n := by
        rw [freeMeaning]
        constructor
        · intro off
          refine ⟨present, ?_⟩
          intro j inside there
          by_contra none
          have after := (entryAfter j inside).2 ⟨there, none⟩
          have wrong := (off j inside).1 (by rw [zero]; exact after)
          cases wrong
        · intro transferable j inside
          rw [zero]
          refine iff_of_false ?_ (by decide)
          intro there
          obtain ⟨before, none⟩ := (entryAfter j inside).1 there
          exact none (transferable.free j inside before)
      have current : taken.currentPageDir = taken.cr3 := takenSpaces.current
      rw [if_neg (by decide), took, Trap.ok_bind] at completed
      dsimp only at completed
      rw [set_page_dir_ok current, looked, Trap.ok_bind] at completed
      cases allFree with
      | false =>
          left
          rw [if_pos rfl, set_page_dir_ok rfl, switch_switch] at completed
          have unswitched : switch taken source.root = taken := by
            have loaded : taken.cr3 = source.root := rewritten_cr3 rewritten
            rw [← loaded]
            exact switch_self current
          rw [unswitched, Trap.bind_eq_ok] at completed
          obtain ⟨put, putBack, finished⟩ := completed
          have restored := put_back sourceSpaces small sourceLow present rewritten memory putBack
          refine ⟨fun yes => ?_, ?_, ?_⟩
          · cases transferable.2 yes
          · cases finished
            decide
          · rw [restored] at finished
            have back : setPageDir (switch machine source.root) (getPageDir machine) = machine := by
              rw [set_page_dir_ok rfl, switch_switch, getPageDir, spaces.current,
                switch_self spaces.current]
            cases finished
            exact back
      | true =>
          right
          rw [if_neg (by decide), Trap.bind_eq_ok] at completed
          obtain ⟨put, placed, finished⟩ := completed
          refine ⟨transferable.1 rfl, ?_, taken, put, rewritten, cleared, ?_, placed, ?_⟩
          · cases finished
            rfl
          · intro free away
            exact kept free fun i inside => by rw [zero]; exact away i inside
          · cases finished
            rfl

/-- One page goes to an empty 4 MiB if a frame is left for the table. -/
theorem transfer_one_returns {frame : Nat} {rest : List Nat} (spaces : Spaces machine roots)
    (free : FreeList machine roots (frame :: rest)) (sourceMember : source.root ∈ roots)
    (destinationMember : destination.root ∈ roots) (sourceLow : source.page 0 < 1047552)
    (sourceAway : source.page 0 ≠ windowPage machine) (destinationLow : destination.page 0 < 1047552)
    (destinationAway : destination.page 0 ≠ windowPage machine)
    (present : Present (pageEntry machine.memory source.root (source.page 0)))
    (absent : ¬ Present (directoryEntry machine.memory destination.root (destination.page 0 / 1024))) :
    ∃ next, virtTransferBetween machine source.root destination.root source.vaddr destination.vaddr 1 =
      .ok (⟨0, 0⟩, next) := by
  have only : ∀ {j : Nat}, j < 1 → 0 + j = 0 := fun small => by omega
  have sourceSpaces := spaces_switch spaces sourceMember
  have sourceFree := free_list_switch spaces free sourceMember
  obtain ⟨mapped, looked, meaning⟩ := range_is_ok sourceSpaces.selfMapped source.vaddr true 0 1
  have isMapped : mapped = true := meaning.2 fun j small => by
    rw [only small]
    exact iff_of_true present rfl
  subst isMapped
  obtain ⟨taken, took, rewritten, _, _, kept⟩ := transfer_take_ok (frame :: rest) source.vaddr sourceSpaces
    (show 0 + 1 ≤ 1048576 by decide) (fun j small => by rw [only small]; exact sourceLow)
    (fun j small => by rw [only small]; exact present)
  have keeps := kept sourceFree fun j small => by rw [only small]; exact sourceAway
  have takenSpaces := spaces_switch keeps.spaces destinationMember
  have takenFree := free_list_switch keeps.spaces keeps.free destinationMember
  have window := kept_window keeps
  change windowPage taken = windowPage machine at window
  have page : rangePage destination.vaddr 0 / 4096 = destination.page 0 := range_page_page _ _
  have stillAbsent : ¬ Present (directoryEntry taken.memory destination.root (destination.page 0 / 1024)) := by
    have same := directory_entry_same_on (rewritten.sameRoots _ destinationMember)
      (show destination.page 0 / 1024 < 1024 by omega)
    rw [same]
    exact absent
  obtain ⟨allFree, lookedAgain, freeMeaning⟩ :=
    range_is_ok takenSpaces.selfMapped destination.vaddr false 0 1
  have isFree : allFree = true := freeMeaning.2 fun j small => by
    rw [only small]
    refine iff_of_false (fun there => ?_) Bool.false_ne_true
    exact stillAbsent (page_entry_present there)
  subst isFree
  obtain ⟨last, mapping⟩ := @map_page_new_table (switch taken destination.root) roots
    (rangePage destination.vaddr 0) (getFlags (pageEntry machine.memory source.root (source.page 0)))
    (getPaddr (pageEntry machine.memory source.root (source.page 0))) frame rest takenSpaces takenFree
    (by rw [page]; exact destinationLow)
    (by rw [page]; change _ ≠ windowPage taken; rw [window]; exact destinationAway)
    (by rw [page]; exact stillAbsent)
  have put : virtTransferPut (switch taken destination.root) destination.vaddr 0
      ((List.range' 0 1).map fun j => pageEntry machine.memory source.root (pageOf source.vaddr j)) =
      .ok last := by
    change (mapPage _ _ _ _ >>= _) = _
    rw [show (fun j => pageEntry machine.memory source.root (pageOf source.vaddr j)) 0 =
      pageEntry machine.memory source.root (source.page 0) from rfl, mapping]
    rfl
  rw [virtTransferBetween, set_page_dir_ok spaces.current, looked, Trap.ok_bind, if_neg (by decide)]
  rw [took, Trap.ok_bind]
  dsimp only
  rw [set_page_dir_ok keeps.spaces.current, lookedAgain, Trap.ok_bind, if_neg (by decide)]
  refine ⟨setPageDir last (getPageDir machine), ?_⟩
  exact Trap.bind_eq_ok.2 ⟨last, put, rfl⟩

theorem assigned_switch {before after : Machine} {vaddr page : Nat} {value : Nat → Nat} {root : Nat}
    (assigned : Assigned before after roots vaddr 0 n value page) :
    Assigned before (switch after root) roots vaddr 0 n value page :=
  ⟨assigned.inside, assigned.outside⟩

theorem window_not_user (machine : Machine) {root page : Nat} {paddr : Nat}
    (window : pageEntry machine.memory root page = createEntry paddr pteWritable) :
    ¬ UserPage machine.memory root page := by
  rintro ⟨_, user, _⟩
  rw [window, create_entry_user] at user
  exact absurd user (by decide)

/-- What became of the directories and of every page after a successful transfer. The window of
the free list keeps out of users' reach. -/
structure Carried (machine next : Machine) (roots : List Nat) (source destination : Region)
    (n : Nat) : Prop where
  caller : next.cr3 = machine.cr3 ∧ next.currentPageDir = machine.currentPageDir
  directories : ∀ root ∈ roots, ∀ index < 1024, Present (directoryEntry machine.memory root index) →
    directoryEntry next.memory root index = directoryEntry machine.memory root index
  pages : ∀ page < 1047552, Transferred machine next roots source destination n page ∨
    page = windowPage machine ∧ (∀ i < n, page ≠ source.page i) ∧
      (∀ j < n, page ≠ destination.page j) ∧
      ∀ root ∈ roots, ¬ UserPage machine.memory root page ∧ ¬ UserPage next.memory root page

/-- Where all page tables are there, the window is a page like the others. -/
theorem transfer_tabled (spaces : Spaces machine roots)
    (sourceMember : source.root ∈ roots) (destinationMember : destination.root ∈ roots)
    (small : n ≤ 1048576) (destinationLow : ∀ j < n, destination.page j < 1047552)
    (mapped : ∀ i < n, Present (pageEntry machine.memory source.root (source.page i)))
    (tables : ∀ j < n, Present (directoryEntry machine.memory destination.root (destination.page j / 1024)))
    {taken put : Machine} (halves : Halves machine next roots frames source destination n taken put) :
    (next.cr3 = machine.cr3 ∧ next.currentPageDir = machine.currentPageDir) ∧
      (∀ root ∈ roots, ∀ index < 1024,
        directoryEntry next.memory root index = directoryEntry machine.memory root index) ∧
      ∀ page < 1047552, Transferred machine next roots source destination n page := by
  have zero : ∀ j, 0 + j = j := Nat.zero_add
  have destinationSpaces := spaces_switch (rewritten_spaces (spaces_switch spaces sourceMember) halves.rewritten)
    destinationMember
  have takenDirectory : ∀ root ∈ roots, ∀ index < 1024,
      directoryEntry taken.memory root index = directoryEntry machine.memory root index :=
    fun root member index high => directory_entry_same_on (halves.rewritten.sameRoots root member) high
  obtain ⟨rewritten, _, assigned⟩ := transfer_put_tables destinationSpaces (by omega)
    (fun j inside => by rw [zero]; exact destinationLow j inside)
    (fun j inside => by
      have bounded := page_of_lt destination.vaddr (0 + j)
      change Present (directoryEntry taken.memory destination.root _)
      rw [takenDirectory _ destinationMember _ (by omega), zero]
      exact tables j inside)
    (fun j _ high => ⟨mapped j (by omega), page_entry_lt _ _ _⟩) halves.completed
  have current : put.currentPageDir = put.cr3 := by
    rw [rewritten.globals]
    rfl
  have result : next = switch put machine.cr3 := by
    rw [halves.returned, set_page_dir_ok current, spaces.current]
  rw [result]
  refine ⟨⟨rfl, spaces.current.symm⟩, ?_, ?_⟩
  · intro root member index high
    exact (directory_entry_same_on (rewritten.sameRoots root member) high).trans
      (takenDirectory root member index high)
  · intro page high
    exact transferred_of_assigned high destinationMember halves.rewritten
      (halves.cleared page high) (assigned_switch (assigned page high))

theorem transfer_carried (spaces : Spaces machine roots) (free : FreeList machine roots frames)
    (sourceMember : source.root ∈ roots) (destinationMember : destination.root ∈ roots)
    (small : n ≤ 1048576) (destinationLow : ∀ j < n, destination.page j < 1047552)
    (transferable : Transferable machine source destination n)
    (windowSafe : WindowSafe machine destination n) {taken put : Machine}
    (halves : Halves machine next roots frames source destination n taken put) :
    Carried machine next roots source destination n := by
  have zero : ∀ j, 0 + j = j := Nat.zero_add
  have takenSpaces := rewritten_spaces (spaces_switch spaces sourceMember) halves.rewritten
  have destinationSpaces := spaces_switch takenSpaces destinationMember
  have valid : ∀ j, 0 ≤ j → j < 0 + n →
      Present (pageEntry machine.memory source.root (source.page j)) ∧
        pageEntry machine.memory source.root (source.page j) < 4294967296 :=
    fun j _ high => ⟨transferable.mapped j (by omega), page_entry_lt _ _ _⟩
  have low : ∀ j < n, pageOf destination.vaddr (0 + j) < 1047552 :=
    fun j inside => by rw [zero]; exact destinationLow j inside
  have placed := halves.completed
  have takenDirectory : ∀ root ∈ roots, ∀ index < 1024,
      directoryEntry taken.memory root index = directoryEntry machine.memory root index :=
    fun root member index high => directory_entry_same_on (halves.rewritten.sameRoots root member) high
  by_cases tables : ∀ j < n,
      Present (directoryEntry machine.memory destination.root (destination.page j / 1024))
  · obtain ⟨caller, directories, pages⟩ := transfer_tabled spaces sourceMember destinationMember small
      destinationLow transferable.mapped tables halves
    exact ⟨caller, fun root member index high _ => directories root member index high,
      fun page high => .inl (pages page high)⟩
  · have destinationAway : ∀ j < n, destination.page j ≠ windowPage machine :=
      fun j inside same => tables (windowSafe ⟨j, inside, same.symm⟩)
    have awayTaken : windowPage taken = windowPage machine := by
      rw [halves.rewritten.globals]
      rfl
    have windowLow := spaces.windowLow
    by_cases sourceAway : ∀ i < n, source.page i ≠ windowPage machine
    · have keptFirst := halves.kept (free_list_switch spaces free sourceMember) sourceAway
      have keptFree := free_list_switch keptFirst.spaces keptFirst.free destinationMember
      obtain ⟨rest, kept, assigned⟩ := transfer_put_ok destinationSpaces keptFree (by omega) low
        (fun j inside => by
          rw [zero]
          exact fun same => destinationAway j inside (same.trans awayTaken)) valid placed
      have current : put.currentPageDir = put.cr3 := kept.spaces.current
      have result : next = switch put machine.cr3 := by
        rw [halves.returned, set_page_dir_ok current, spaces.current]
      have entryAtWindow : ∀ root ∈ roots, pageEntry put.memory root (windowPage machine) =
          createEntry put.freeFramePaddr pteWritable := by
        intro root member
        have window := kept_window kept
        have seen := (kept.spaces.window_entry member).trans kept.free.window
        rw [window] at seen
        change pageEntry put.memory root (windowPage taken) = _ at seen
        rw [awayTaken] at seen
        exact seen
      rw [result]
      refine ⟨⟨rfl, spaces.current.symm⟩, ?_, ?_⟩
      · intro root member index high present
        have same := takenDirectory root member index high
        rw [← same] at present
        exact (kept.directory root member index high present).trans same
      · intro page high
        by_cases window : page = windowPage machine
        · right
          refine ⟨window, fun i inside same => sourceAway i inside (same.symm.trans window),
            fun j inside same => destinationAway j inside (same.symm.trans window), ?_⟩
          intro root member
          rw [window]
          exact ⟨window_not_user machine ((spaces.window_entry member).trans free.window),
            window_not_user put (entryAtWindow root member)⟩
        · left
          exact transferred_of_assigned high destinationMember halves.rewritten
            (halves.cleared page high)
            (assigned_switch (assigned page high fun same => window (same.trans awayTaken)))
    · obtain ⟨i, bounded, isWindow⟩ : ∃ i < n, source.page i = windowPage machine := by
        by_contra none
        exact sourceAway fun i inside same => none ⟨i, inside, same⟩
      have gone : pageEntry taken.memory destination.root (windowPage machine) = 0 :=
        (halves.cleared _ windowLow).inside _ destinationMember i bounded
          (by rw [zero]; exact isWindow.symm)
          (.inr (spaces.headShared _ sourceMember _ destinationMember))
      have present := transfer_put_no_window destinationSpaces (by omega) low
        (fun j inside => by
          rw [zero]
          exact fun same => destinationAway j inside (same.trans awayTaken)) valid
        (by
          change ¬ Present (pageEntry taken.memory destination.root (windowPage taken))
          rw [awayTaken, gone]
          exact not_present_zero) placed
      exact absurd (fun j inside => by
        have bound := destinationLow j inside
        have there := present j inside
        rw [zero] at there
        change Present (directoryEntry taken.memory destination.root (destination.page j / 1024)) at there
        rw [takenDirectory _ destinationMember _ (by omega)] at there
        exact there) tables

end Outcome

section Equivalence

variable {machine next : Machine} {roots : List Nat} {source destination : Region} {n : Nat}

theorem tied_iff {root other page : Nat} (differ : other ≠ root) :
    Tied machine root other page ↔ Shares machine.memory root other page :=
  ⟨fun tied => tied.resolve_left fun same => differ same.symm, .inr⟩

/-- A page with a changed directory entry had no table, and is still not mapped. -/
theorem user_page_kept (next : Machine) {root page : Nat}
    (directory : Present (directoryEntry machine.memory root (page / 1024)) →
      directoryEntry next.memory root (page / 1024) = directoryEntry machine.memory root (page / 1024))
    (table : Present (directoryEntry machine.memory root (page / 1024))) :
    UserPage next.memory root page ↔ Present (pageEntry next.memory root page) ∧
      UserMode (pageEntry next.memory root page) ∧
        UserMode (directoryEntry machine.memory root (page / 1024)) := by
  rw [UserPage, directory table]

variable (carried : Carried machine next roots source destination n)

include carried

theorem transferred_source {i : Nat} (inside : i < n) (low : source.page i < 1047552) :
    Transferred machine next roots source destination n (source.page i) :=
  (carried.pages _ low).resolve_right fun window => window.2.1 i inside rfl

theorem transferred_destination {j : Nat} (inside : j < n) (low : destination.page j < 1047552) :
    Transferred machine next roots source destination n (destination.page j) :=
  (carried.pages _ low).resolve_right fun window => window.2.2.1 j inside rfl

variable (sourceMember : source.root ∈ roots) (destinationMember : destination.root ∈ roots)
  (sourceLow : ∀ i < n, source.page i < 1047552)
  (destinationLow : ∀ j < n, destination.page j < 1047552)

include sourceMember sourceLow destinationLow

include destinationMember in
theorem moved_of_private (hidden : Private machine roots source destination n) :
    Moved machine next roots source destination n := by
  refine ⟨?_, ?_, ?_⟩
  · intro j inside
    exact (transferred_destination carried inside (destinationLow j inside)).arrived _ destinationMember j inside rfl (.inl rfl)
  · intro i inside away
    have transferred := transferred_source carried inside (sourceLow i inside)
    have loose : ∀ j < n, source.page i = destination.page j →
        ¬ Tied machine destination.root source.root (source.page i) := by
      intro j bounded same tied
      by_cases equal : source.root = destination.root
      · exact away ⟨equal, j, bounded, same⟩
      · exact hidden.both equal i inside ⟨j, bounded, same⟩
          (shares_symm ((tied_iff equal).1 tied))
    rw [transferred.left _ sourceMember i inside rfl (.inl rfl) loose]
    exact not_present_zero
  · intro root member page low offSource offDestination reach
    rcases carried.pages page low with transferred | ⟨_, _, _, hiddenWindow⟩
    · by_cases arriving : ∃ j < n, page = destination.page j ∧
          Tied machine destination.root root page
      · obtain ⟨j, bounded, same, tied⟩ := arriving
        have differ : root ≠ destination.root := fun equal => offDestination ⟨equal, j, bounded, same⟩
        have shared := (tied_iff differ).1 tied
        have result := transferred.arrived root member j bounded same tied
        have kept := user_page_kept next (carried.directories root member (page / 1024) (by omega))
          shared.2.1
        rw [result]
        rw [same] at offSource shared ⊢
        apply hidden.arriving root member j bounded offSource differ shared
        rw [same] at reach kept result
        rcases reach with before | after
        · exact .inl before
        · have visible := kept.1 after
          rw [result] at visible
          exact .inr visible.2
      · have loose : ∀ j < n, page = destination.page j →
            ¬ Tied machine destination.root root page :=
          fun j bounded same tied => arriving ⟨j, bounded, same, tied⟩
        by_cases leaving : ∃ i < n, page = source.page i ∧ Tied machine source.root root page
        · obtain ⟨i, bounded, same, tied⟩ := leaving
          have differ : root ≠ source.root := fun equal => offSource ⟨equal, i, bounded, same⟩
          have result := transferred.left root member i bounded same tied loose
          have notBefore : ¬ UserPage machine.memory root page := by
            rw [same] at offDestination tied loose ⊢
            apply hidden.leaving root member i bounded offDestination differ ((tied_iff differ).1 tied)
            rintro ⟨j, inside, equal⟩
            exact loose j inside equal
          rcases reach with before | after
          · exact absurd before notBefore
          · have present := after.1
            rw [result] at present
            exact absurd present not_present_zero
        · exact transferred.kept root member
            (fun i bounded same tied => leaving ⟨i, bounded, same, tied⟩) loose
    · obtain ⟨before, after⟩ := hiddenWindow root member
      rcases reach with old | new
      · exact absurd old before
      · exact absurd new after

theorem private_of_moved (transferable : Transferable machine source destination n)
    (moved : Moved machine next roots source destination n) :
    Private machine roots source destination n := by
  refine ⟨?_, ?_, ?_⟩
  · rintro differ i inside ⟨j, bounded, same⟩ shared
    have transferred := transferred_source carried inside (sourceLow i inside)
    have arrived := transferred.arrived _ sourceMember j bounded same (.inr (shares_symm shared))
    have gone := moved.gone i inside fun holds => differ holds.1
    rw [arrived] at gone
    exact gone (transferable.mapped j bounded)
  · intro root member j inside offSource differ shared reach
    have transferred := transferred_destination carried inside (destinationLow j inside)
    have result := transferred.arrived root member j inside rfl (.inr shared)
    have low := destinationLow j inside
    have kept := user_page_kept next
      (carried.directories root member (destination.page j / 1024) (by omega)) shared.2.1
    rw [← result]
    apply moved.others root member _ low offSource fun holds => differ holds.1
    rcases reach with before | visible
    · exact .inl before
    · right
      rw [kept, result]
      exact ⟨transferable.mapped j inside, visible⟩
  · intro root member i inside offDestination differ shared loose before
    have transferred := transferred_source carried inside (sourceLow i inside)
    have result := transferred.left root member i inside rfl (.inr shared)
      fun j bounded same => loose ⟨j, bounded, same⟩
    have same := moved.others root member _ (sourceLow i inside) (fun holds => differ holds.1)
      offDestination (.inl before)
    have present := before.1
    rw [← same, result] at present
    exact not_present_zero present

end Equivalence

/-- The call finds both processes, is not too large and finds both ranges in order. -/
structure Accepted (machine : Machine) (aidPair : Nat) (source destination : Region) (n : Nat) :
    Prop where
  small : n ≤ entriesLen
  sourceFound : getProcess machine.processTree (aidPair &&& 0xFFFF) ≠ .ok 0
  destinationFound : getProcess machine.processTree ((aidPair >>> 16) &&& 0xFFFF) ≠ .ok 0
  transferable : Transferable machine source destination n

theorem all_or_nothing_refused {machine : Machine} {roots : List Nat} {source destination : Region}
    {n : Nat} {result : SyscallResult} (refused : result.err ≠ 0) :
    AllOrNothing machine machine roots source destination n result :=
  ⟨fun success => absurd success refused, fun _ _ _ => rfl, rfl, rfl⟩

/-- A call that returns has refused and changed nothing, or was accepted and moved the pages. -/
theorem virt_transfer_ok {machine next : Machine} {roots : List Nat} (frames : List Nat)
    {vaddrSrc vaddrDst aidPair n : Nat} {result : SyscallResult} {source destination : Region}
    (spaces : Spaces machine roots) (processes : ProcessRoots machine roots)
    (isSource : source = ⟨spaceOf machine (aidPair &&& 0xFFFF), vaddrSrc⟩)
    (isDestination : destination = ⟨spaceOf machine ((aidPair >>> 16) &&& 0xFFFF), vaddrDst⟩)
    (below : (∀ i < n, Present (pageEntry machine.memory source.root (source.page i))) →
      ∀ i < n, source.page i < 1047552)
    (completed : syscallVirtTransfer machine vaddrSrc vaddrDst aidPair n = .ok (result, next)) :
    (¬ Accepted machine aidPair source destination n ∧ result.err ≠ 0 ∧ next = machine) ∨
      (Accepted machine aidPair source destination n ∧ result.err = 0 ∧ source.root ∈ roots ∧
        destination.root ∈ roots ∧
        ∃ taken put, Halves machine next roots frames source destination n taken put) := by
  unfold syscallVirtTransfer at completed
  split_ifs at completed with large
  · left
    cases completed
    exact ⟨fun accepted => absurd accepted.small (by omega), by decide, rfl⟩
  · obtain ⟨procSrc, foundSrc, completed⟩ := Trap.bind_eq_ok.1 completed
    obtain ⟨procDst, foundDst, completed⟩ := Trap.bind_eq_ok.1 completed
    split_ifs at completed with missing
    · left
      cases completed
      refine ⟨fun accepted => ?_, by decide, rfl⟩
      rcases missing with noSource | noDestination
      · exact accepted.sourceFound (noSource ▸ foundSrc)
      · exact accepted.destinationFound (noDestination ▸ foundDst)
    · obtain ⟨haveSrc, haveDst⟩ := not_or.1 missing
      have rootSrc : source.root = machine.pageDirPaddr procSrc := by
        rw [isSource]
        simp only [spaceOf, foundSrc]
      have rootDst : destination.root = machine.pageDirPaddr procDst := by
        rw [isDestination]
        simp only [spaceOf, foundDst]
      have atSrc : source.vaddr = vaddrSrc := by rw [isSource]
      have atDst : destination.vaddr = vaddrDst := by rw [isDestination]
      rw [← rootSrc, ← rootDst, ← atSrc, ← atDst] at completed
      have sourceMember : source.root ∈ roots := rootSrc ▸ processes _ _ foundSrc haveSrc
      have destinationMember : destination.root ∈ roots := rootDst ▸ processes _ _ foundDst haveDst
      have bounded : n ≤ entriesLen := Nat.le_of_not_lt large
      have few : n ≤ 1048576 := bounded.trans (by decide)
      rcases transfer_between_ok spaces frames sourceMember destinationMember few below completed with
        ⟨no, refused, same⟩ | ⟨yes, success, taken, put, halves⟩
      · exact .inl ⟨fun accepted => no accepted.transferable, refused, same⟩
      · refine .inr ⟨⟨bounded, ?_, ?_, yes⟩, success, sourceMember, destinationMember, taken, put, halves⟩
        · rw [foundSrc]
          exact fun none => haveSrc (Except.ok.inj none)
        · rw [foundDst]
          exact fun none => haveDst (Except.ok.inj none)

/-- A transfer that returns is all or nothing, and a move between two processes only, if no
other space shares the pages it moves; and only then, where it does not move the kernel's window
and make page tables at once. -/
theorem virt_transfer_moves {machine next : Machine} {roots frames : List Nat}
    {vaddrSrc vaddrDst aidPair n : Nat} {result : SyscallResult} {source destination : Region}
    (spaces : Spaces machine roots) (free : FreeList machine roots frames)
    (processes : ProcessRoots machine roots)
    (isSource : source = ⟨spaceOf machine (aidPair &&& 0xFFFF), vaddrSrc⟩)
    (isDestination : destination = ⟨spaceOf machine ((aidPair >>> 16) &&& 0xFFFF), vaddrDst⟩)
    (sourceLow : ∀ i < n, source.page i < 1047552)
    (destinationLow : ∀ j < n, destination.page j < 1047552)
    (completed : syscallVirtTransfer machine vaddrSrc vaddrDst aidPair n = .ok (result, next)) :
    ((Accepted machine aidPair source destination n →
        Private machine roots source destination n ∧ WindowSafe machine destination n) →
      AllOrNothing machine next roots source destination n result) ∧
    ((Accepted machine aidPair source destination n → WindowSafe machine destination n) →
      AllOrNothing machine next roots source destination n result →
      Accepted machine aidPair source destination n → Private machine roots source destination n) := by
  rcases virt_transfer_ok frames spaces processes isSource isDestination (fun _ => sourceLow)
    completed with ⟨refused, failed, same⟩ | ⟨accepted, success, sourceMember, destinationMember,
      taken, put, halves⟩
  · rw [same]
    exact ⟨fun _ => all_or_nothing_refused failed, fun _ _ accepted => absurd accepted refused⟩
  · have few : n ≤ 1048576 := accepted.small.trans (by decide)
    constructor
    · intro condition
      obtain ⟨hidden, windowSafe⟩ := condition accepted
      have carried := transfer_carried spaces free sourceMember destinationMember few destinationLow
        accepted.transferable windowSafe halves
      refine ⟨fun _ => ?_, fun failed => absurd success failed, carried.caller⟩
      exact moved_of_private carried sourceMember destinationMember sourceLow destinationLow hidden
    · intro windowSafe moved _
      have carried := transfer_carried spaces free sourceMember destinationMember few destinationLow
        accepted.transferable (windowSafe accepted) halves
      exact private_of_moved carried sourceMember sourceLow destinationLow accepted.transferable
        (moved.success success)

theorem sample_processes : ProcessRoots sampleMachine sampleRoots := by
  intro aid process _ _
  change (if process = 0xC0002000 then 0x10000 else 0x11000) ∈ [0x10000, 0x11000]
  split_ifs
  · decide
  · decide

/-- Process 1 gives a page of its own to process 2. -/
theorem virt_transfer_moves_own_page : ∃ result next,
    syscallVirtTransfer sampleMachine 0x401000 0x402000 0x20001 1 = .ok (result, next) ∧
      AllOrNothing sampleMachine next sampleRoots ⟨0x10000, 0x401000⟩ ⟨0x11000, 0x402000⟩ 1 result := by
  obtain ⟨⟨result, next⟩, completed, _⟩ := returns_with_iff.1
    (by decide +kernel : returnsWith (syscallVirtTransfer sampleMachine 0x401000 0x402000 0x20001 1)
      (fun _ => true) = true)
  refine ⟨result, next, completed, ?_⟩
  apply (virt_transfer_moves sample_spaces sample_free sample_processes (by decide +kernel)
    (by decide +kernel) (by decide) (by decide) completed).1
  intro _
  exact ⟨⟨by decide +kernel, by decide +kernel, by decide +kernel⟩, by decide +kernel⟩

/-- Process 1 moves a page of the read-only heap, which process 2 also sees. -/
theorem virt_transfer_moves_shared_heap : ∃ result next,
    Spaces sampleMachine sampleRoots ∧ FreeList sampleMachine sampleRoots sampleFrames ∧
      ProcessRoots sampleMachine sampleRoots ∧
      syscallVirtTransfer sampleMachine 0xFF800000 0x403000 0x10001 1 = .ok (result, next) ∧
      ¬ AllOrNothing sampleMachine next sampleRoots ⟨0x10000, 0xFF800000⟩ ⟨0x10000, 0x403000⟩ 1
        result := by
  obtain ⟨⟨result, next⟩, completed, passed⟩ := returns_with_iff.1
    (by decide +kernel : returnsWith (syscallVirtTransfer sampleMachine 0xFF800000 0x403000 0x10001 1)
      (fun (result, next) => result.err == 0 && pageEntry next.memory 0x11000 0xFF800 == 0) = true)
  refine ⟨result, next, sample_spaces, sample_free, sample_processes, completed, fun moves => ?_⟩
  obtain ⟨success, gone⟩ := Bool.and_eq_true_iff.1 passed
  have same := (moves.success (eq_of_beq success)).others 0x11000 (by decide) 0xFF800 (by decide)
    (by decide) (by decide) (.inl (by decide +kernel))
  rw [eq_of_beq gone] at same
  exact absurd same (by decide +kernel)

end ParadiseOS.TransferMoves
