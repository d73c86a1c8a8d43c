import ParadiseOS.PagingMaps
import ParadiseOS.PagingChecks
import ParadiseOS.StepRun

/-!
# Page tables as a flat map

Under `map_page` and `unmap_page` the entries of the current address space are a
map from page numbers to entries. One page is not: making a page table takes a
frame from the free list and so moves the window on it.
-/

namespace ParadiseOS.FlatMap

open MachineWord PagingMaps PagingModel PagingSteps StepRun TwoLevelPaging

set_option autoImplicit false

section Statement

inductive Call where
  | mapPage (vaddr paddr flags : Nat)
  | unmapPage (vaddr : Nat)

/-- What a call reports: whether the page was mapped, or the entry that was removed. -/
inductive Answer where
  | mapped (already : Bool)
  | removed (entry : Option Nat)
  deriving DecidableEq

def pagingStep (machine : Machine) : Call → Except Trap (Answer × Machine)
  | .mapPage vaddr paddr flags => do
      let (already, machine) ← mapPage machine vaddr paddr flags
      pure (.mapped already, machine)
  | .unmapPage vaddr => do
      let (entry, machine) ← unmapPage machine vaddr
      pure (.removed entry, machine)

/-- The entries of the mapped pages, by page number. -/
abbrev PageMap := Nat → Option Nat

def flatStep (map : PageMap) : Call → Answer × PageMap
  | .mapPage vaddr paddr flags =>
      match map (vaddr / 4096) with
      | some _ => (.mapped true, map)
      | none => (.mapped false,
          Function.update map (vaddr / 4096) (some ((paddr &&& 0xFFFFF000) ||| flags ||| 1)))
  | .unmapPage vaddr => (.removed (map (vaddr / 4096)), Function.update map (vaddr / 4096) none)

/-- The mapped pages of the current directory. -/
def entryMap (machine : Machine) : PageMap := fun page =>
  if Present (pageEntry machine.memory machine.cr3 page) then
    some (pageEntry machine.memory machine.cr3 page)
  else none

/-- The address a call is about. -/
def Call.vaddr : Call → Nat
  | .mapPage vaddr _ _ => vaddr
  | .unmapPage vaddr => vaddr

/-- An address outside the self-map, and flags that fit in an entry. -/
def Call.Valid (call : Call) : Prop :=
  call.vaddr / 4096 < 1047552 ∧
    match call with
    | .mapPage _ paddr flags => paddr < 4294967296 ∧ flags < 4096
    | .unmapPage _ => True

/-- What `get_entry` reads is the entry of the map, or an absent one. -/
def AgreesAt (machine : Machine) (map : PageMap) (vaddr : Nat) : Prop :=
  ∃ entry, getEntry machine vaddr = .ok entry ∧
    map (vaddr / 4096) = if entryPresent entry then some entry else none

/-- The tables of user pages belong to one directory each. -/
def TablesOwned (memory : Memory) (roots : List Nat) : Prop :=
  ∀ root ∈ roots, ∀ other ∈ roots, root ≠ other → ∀ page, 1 ≤ page / 1024 → page / 1024 ≤ 0x2FF →
    ¬ Shares memory root other page

/-- Translations of the user half of the other directories are as before. -/
def OthersKept (machine final : Machine) (roots : List Nat) : Prop :=
  ∀ root ∈ roots, root ≠ machine.cr3 → ∀ vaddr, 1 ≤ vaddr / 4194304 → vaddr / 4194304 ≤ 0x2FF →
    translate final.memory root vaddr = translate machine.memory root vaddr

end Statement

section Steps

variable {start machine next : Machine} {roots : List Nat} {map : PageMap}

/-- A machine that a run from `start` has got to, with the map it stands for. -/
structure Reached (start : Machine) (roots : List Nat) (machine : Machine) (map : PageMap) : Prop where
  sound : ∃ frames, Spaces machine roots ∧ FreeList machine roots frames
  cr3 : machine.cr3 = start.cr3
  window : windowPage machine = windowPage start
  owned : TablesOwned machine.memory roots
  entries : ∀ page < 1047552, page ≠ windowPage start → map page = entryMap machine page
  others : ∀ root ∈ roots, root ≠ start.cr3 → ∀ page, 1 ≤ page / 1024 → page / 1024 ≤ 0x2FF →
    page ≠ windowPage start → pageEntry machine.memory root page = pageEntry start.memory root page

/-- One entry was written in the current directory. -/
theorem reached_write {frames rest : List Nat} {page : Nat} (word : Nat)
    (reached : Reached start roots machine map)
    (kept : Kept machine next roots frames rest) (low : page < 1047552)
    (written : ∀ other ∈ roots, ∀ position < 1047552, position ≠ windowPage machine →
      pageEntry next.memory other position =
        if position = page ∧ Tied machine machine.cr3 other page then word
        else pageEntry machine.memory other position) :
    Reached start roots next (Function.update map page (if Present word then some word else none)) := by
  obtain ⟨_, spaces, _⟩ := reached.sound
  have sameRoot := kept_cr3 kept
  have sameWindow := kept_window kept
  have ties : TablesOwned next.memory roots := by
    intro root member other second differ position low high shared
    have old := (kept.ties root member other second differ position (by omega)).1 shared
    exact reached.owned root member other second differ position low high old
  refine ⟨⟨rest, kept.spaces, kept.free⟩, sameRoot.trans reached.cr3, sameWindow.trans reached.window, ties,
    ?_, ?_⟩
  · intro position high notWindow
    have seen := written machine.cr3 spaces.member position high (reached.window ▸ notWindow)
    by_cases here : position = page
    · rw [if_pos ⟨here, .inl rfl⟩] at seen
      rw [entryMap, sameRoot, seen, here, Function.update_self]
    · rw [if_neg fun both => here both.1] at seen
      rw [entryMap, sameRoot, seen, Function.update_of_ne here, reached.entries position high notWindow,
        entryMap]
  · intro root member differ position lowIndex highIndex notWindow
    have seen := written root member position (by omega) (reached.window ▸ notWindow)
    have apart : ¬ (position = page ∧ Tied machine machine.cr3 root page) := by
      rintro ⟨rfl, same | shared⟩
      · exact differ (same.symm.trans reached.cr3)
      · exact reached.owned machine.cr3 spaces.member root member
          (fun same => differ (same.symm.trans reached.cr3)) position lowIndex highIndex shared
    rw [if_neg apart] at seen
    exact seen.trans (reached.others root member differ position lowIndex highIndex notWindow)

/-- A call on any page but the window's does to the page tables what it does to the map. -/
theorem paging_step_flat {call : Call} {answer : Answer} (reached : Reached start roots machine map)
    (valid : call.Valid) (notWindow : call.vaddr / 4096 ≠ windowPage start)
    (completed : pagingStep machine call = .ok (answer, next)) :
    answer = (flatStep map call).1 ∧ Reached start roots next (flatStep map call).2 := by
  obtain ⟨frames, spaces, free⟩ := reached.sound
  cases call with
  | mapPage vaddr paddr flags =>
      obtain ⟨low, address, small⟩ := valid
      change vaddr / 4096 < 1047552 at low
      change vaddr / 4096 ≠ windowPage start at notWindow
      obtain ⟨⟨already, final⟩, mapping, completed⟩ := Trap.bind_eq_ok.1 completed
      cases completed
      have here := reached.entries (vaddr / 4096) low notWindow
      rcases map_page_ok spaces free low (reached.window ▸ notWindow) address small mapping with
        ⟨rfl, rfl, present⟩ | ⟨rfl, rest, done⟩
      · rw [entryMap, if_pos present] at here
        rw [flatStep, here]
        exact ⟨rfl, reached⟩
      · rw [entryMap, if_neg done.absent] at here
        rw [flatStep, here]
        refine ⟨rfl, ?_⟩
        have written := reached_write _ reached done.kept low done.entries
        rw [if_pos (create_entry_present paddr flags)] at written
        exact written
  | unmapPage vaddr =>
      obtain ⟨low, _⟩ := valid
      change vaddr / 4096 < 1047552 at low
      change vaddr / 4096 ≠ windowPage start at notWindow
      obtain ⟨⟨entry, final⟩, unmapping, completed⟩ := Trap.bind_eq_ok.1 completed
      cases completed
      have here := reached.entries (vaddr / 4096) low notWindow
      rw [unmap_page_ok spaces.selfMapped (by omega)] at unmapping
      rw [flatStep]
      split_ifs at unmapping with present
      · cases unmapping
        rw [entryMap, if_pos present] at here
        refine ⟨by rw [here], ?_⟩
        have table := page_entry_present present
        have kept := @kept_fill_slot _ _ _ _ 0 spaces free low table (by decide)
          (reached.window ▸ notWindow)
        have written := reached_write 0 reached kept low
          fun other member position high _ => fill_slot_entry spaces low table (by decide) member high
        rw [if_neg not_present_zero] at written
        exact written
      · cases unmapping
        rw [entryMap, if_neg present] at here
        refine ⟨by rw [here], ?_⟩
        have same : Function.update map (vaddr / 4096) none = map := by
          rw [← here, Function.update_eq_self]
        rw [same]
        exact reached

end Steps

section Runs

variable {machine final : Machine} {roots frames : List Nat} {operations : List Call} {answers : List Answer}

/-- A page is mapped only by a call that maps it. -/
theorem mapped_by_call {map : PageMap} {page entry : Nat}
    (mapped : (observe flatStep map operations).2 page = some entry) :
    map page = some entry ∨ ∃ vaddr paddr flags, Call.mapPage vaddr paddr flags ∈ operations ∧
      vaddr / 4096 = page := by
  induction operations generalizing map with
  | nil => exact .inl mapped
  | cons call rest ih =>
      rcases ih mapped with before | ⟨vaddr, paddr, flags, member, same⟩
      · cases call with
        | mapPage vaddr paddr flags =>
            by_cases here : vaddr / 4096 = page
            · exact .inr ⟨vaddr, paddr, flags, List.mem_cons_self, here⟩
            · left
              dsimp only [flatStep] at before
              split at before
              · exact before
              · dsimp only at before
                rwa [Function.update_of_ne (Ne.symm here)] at before
        | unmapPage vaddr =>
            left
            dsimp only [flatStep] at before
            by_cases here : page = vaddr / 4096
            · rw [here, Function.update_self] at before
              cases before
            · rwa [Function.update_of_ne here] at before
      · exact .inr ⟨vaddr, paddr, flags, List.mem_cons_of_mem _ member, same⟩

/-- Apart from the page of the window, every run of `map_page` and `unmap_page` does to the page
tables what it does to the map. -/
theorem paging_run_flat (machine final : Machine) (roots frames : List Nat) (operations : List Call)
    (answers : List Answer) (spaces : Spaces machine roots) (free : FreeList machine roots frames)
    (owned : TablesOwned machine.memory roots) (valid : ∀ call ∈ operations, call.Valid)
    (away : ∀ call ∈ operations, call.vaddr / 4096 ≠ windowPage machine)
    (completed : run pagingStep machine operations = .ok (answers, final)) :
    answers = (observe flatStep (entryMap machine) operations).1 ∧
      (∀ vaddr, vaddr / 4096 < 1047552 → vaddr / 4096 ≠ windowPage machine →
        AgreesAt final (observe flatStep (entryMap machine) operations).2 vaddr) ∧
      (∀ page < 1047552, page ≠ windowPage machine →
        Present (pageEntry final.memory final.cr3 page) →
        Present (pageEntry machine.memory machine.cr3 page) ∨
          ∃ vaddr paddr flags, Call.mapPage vaddr paddr flags ∈ operations ∧ vaddr / 4096 = page) ∧
      OthersKept machine final roots := by
  have start : Reached machine roots machine (entryMap machine) :=
    ⟨⟨frames, spaces, free⟩, rfl, rfl, owned, fun _ _ _ => rfl, fun _ _ _ _ _ _ _ => rfl⟩
  have legal : Allowed pagingStep (fun _ call => call.Valid ∧ call.vaddr / 4096 ≠ windowPage machine)
      machine operations :=
    allowed_of_always (fun call member _ => ⟨valid call member, away call member⟩) machine
  obtain ⟨same, reached⟩ := run_refines flatStep (Reached machine roots)
    (fun _ _ _ _ _ related permitted => paging_step_flat related permitted.1 permitted.2)
    operations machine final (entryMap machine) answers start legal completed
  obtain ⟨_, finalSpaces, _⟩ := reached.sound
  refine ⟨same, ?_, ?_, ?_⟩
  · intro vaddr low notWindow
    refine ⟨_, get_entry_ok finalSpaces.selfMapped (by omega), ?_⟩
    rw [reached.entries _ low notWindow, entryMap]
    simp only [entry_present_iff]
  · intro page low notWindow present
    have here := reached.entries page low notWindow
    rw [entryMap, if_pos present] at here
    rcases mapped_by_call here with before | byCall
    · left
      rw [entryMap] at before
      split_ifs at before with old
      exact old
    · exact .inr byCall
  · intro root member differ vaddr low high
    have shared := spaces.headShared machine.cr3 spaces.member root member
    have notWindow : vaddr / 4096 ≠ windowPage machine := by
      intro here
      refine owned machine.cr3 spaces.member root member differ.symm (windowPage machine) ?_ ?_ shared
      · omega
      · omega
    have entry := reached.others root member differ (vaddr / 4096) (by omega) (by omega) notWindow
    rw [TwoLevelPaging.translate, TwoLevelPaging.translate, entry]

end Runs

section Sample

open PagingChecks

variable {machine : Machine} {roots frames : List Nat}

/-- Where a table has to be made, `map_page` takes the top frame from the free list. -/
theorem map_page_takes_frame {frame vaddr paddr flags : Nat} (spaces : Spaces machine roots)
    (free : FreeList machine roots (frame :: frames)) (low : vaddr / 4096 < 1047552)
    (notWindow : vaddr / 4096 ≠ windowPage machine) (address : paddr < 4294967296) (small : flags < 4096)
    (kernelOnly : flags &&& 4 = 0)
    (absent : ¬ Present (directoryEntry machine.memory machine.cr3 (vaddr / 4096 / 1024))) :
    ∃ next, mapPage machine vaddr paddr flags = .ok (false, next) ∧
      Kept machine next roots (frame :: frames) frames := by
  have made := make_page_table_ok flags spaces free (by omega) absent
  have kept := kept_with_table flags spaces free (by omega) absent
  have directory : directoryEntry (withTable machine frame (vaddr / 4096 / 1024) flags).memory
      machine.cr3 (vaddr / 4096 / 1024) = tableEntry frame flags := by
    rw [with_table_directory _ spaces free (by omega) absent spaces.member (by omega), if_pos ⟨rfl, rfl⟩]
  have table : Present (directoryEntry (withTable machine frame (vaddr / 4096 / 1024) flags).memory
      machine.cr3 (vaddr / 4096 / 1024)) := directory ▸ create_entry_present _ _
  have entry : pageEntry (withTable machine frame (vaddr / 4096 / 1024) flags).memory machine.cr3
      (vaddr / 4096) = 0 := by
    rw [with_table_entry _ spaces free (by omega) absent spaces.member low, if_neg notWindow, pageEntry,
      if_neg absent]
  have unmapped : ¬ Present (pageEntry (withTable machine frame (vaddr / 4096 / 1024) flags).memory
      (withTable machine frame (vaddr / 4096 / 1024) flags).cr3 (vaddr / 4096)) := by
    change ¬ Present (pageEntry _ machine.cr3 (vaddr / 4096))
    rw [entry]
    exact not_present_zero
  rw [map_page_made (by omega) made kept.spaces.selfMapped table,
    map_page_table kept.spaces.selfMapped (by omega) table, if_neg fun both => both.1 kernelOnly,
    if_neg unmapped]
  exact ⟨_, rfl, kept_trans kept
    (kept_fill_slot kept.spaces kept.free low table (create_entry_lt address small) notWindow)⟩

theorem sample_owned : TablesOwned sampleMachine.memory sampleRoots := by
  have apart : ∀ index ∈ sampleIndices, 1 ≤ index → index ≤ 0x2FF → ∀ root ∈ sampleRoots,
      ∀ other ∈ sampleRoots, root ≠ other →
        frameOf (directoryEntry sampleMachine.memory root index) ≠
          frameOf (directoryEntry sampleMachine.memory other index) := by decide +kernel
  intro root member other second differ page low high shared
  have inside := sample_covers root member (page / 1024) (by omega) shared.1
  exact apart (page / 1024) inside low high root member other second differ shared.2.2

/-- Mapping a page of a new table moves the window, so that its entry changes with no call for it. -/
theorem paging_moves_window : ¬ ∀ (machine final : Machine) (roots frames : List Nat)
    (operations : List Call) (answers : List Answer), Spaces machine roots → FreeList machine roots frames →
    TablesOwned machine.memory roots → (∀ call ∈ operations, call.Valid) →
    run pagingStep machine operations = .ok (answers, final) →
    ∀ vaddr, vaddr / 4096 < 1047552 →
      AgreesAt final (observe flatStep (entryMap machine) operations).2 vaddr := by
  intro always
  have absent : ¬ Present (directoryEntry sampleMachine.memory sampleMachine.cr3 (0x00800000 / 4096 / 1024)) := by
    decide +kernel
  obtain ⟨next, mapping, kept⟩ := map_page_takes_frame sample_spaces sample_free
    (show 0x00800000 / 4096 < 1047552 by decide) (by decide) (show 0x20000 < 4294967296 by decide)
    (show 2 < 4096 by decide) (by decide) absent
  have step : pagingStep sampleMachine (.mapPage 0x00800000 0x20000 2) = .ok (.mapped false, next) := by
    rw [pagingStep, mapping]
    rfl
  obtain ⟨entry, got, agrees⟩ := always sampleMachine next sampleRoots sampleFrames
    [.mapPage 0x00800000 0x20000 2] [.mapped false] sample_spaces sample_free sample_owned
    (List.forall_mem_cons.2 ⟨⟨by decide, by decide, by decide⟩, fun _ member => nomatch member⟩)
    (run_cons_of_step step rfl) 0xC0001000 (by decide)
  have window : windowPage next = 0xC0001 := kept_window kept
  have top : next.freeFramePaddr = 0x17000 := kept.free.linked.1
  have shown := kept.free.window
  rw [window, top] at shown
  rw [get_entry_ok kept.spaces.selfMapped (by decide), Except.ok.injEq] at got
  change pageEntry next.memory next.cr3 0xC0001 = entry at got
  have before : (observe flatStep (entryMap sampleMachine) [.mapPage 0x00800000 0x20000 2]).2 0xC0001 =
      some 0x16003 := by decide +kernel
  rw [← got, shown] at agrees
  change (observe flatStep (entryMap sampleMachine) [.mapPage 0x00800000 0x20000 2]).2 0xC0001 = _ at agrees
  rw [before] at agrees
  exact absurd agrees (by decide)

/-- A page of the sample machine is unmapped and mapped to another frame. -/
theorem paging_run_flat_sample : ∃ final,
    run pagingStep sampleMachine [.unmapPage 0x00401000, .mapPage 0x00401000 0x30000 6] =
      .ok ([.removed (some 0x19007), .mapped false], final) ∧
    OthersKept sampleMachine final sampleRoots := by
  obtain ⟨⟨answers, final⟩, completed, check⟩ := returns_with_iff.1
    (by decide +kernel : returnsWith
      (run pagingStep sampleMachine [.unmapPage 0x00401000, .mapPage 0x00401000 0x30000 6])
      (fun outcome => outcome.1 = [.removed (some 0x19007), .mapped false]) = true)
  have flat := paging_run_flat sampleMachine final sampleRoots sampleFrames
    [.unmapPage 0x00401000, .mapPage 0x00401000 0x30000 6] answers sample_spaces sample_free sample_owned
    (List.forall_mem_cons.2 ⟨⟨by decide, trivial⟩,
      List.forall_mem_cons.2 ⟨⟨by decide, by decide, by decide⟩, fun _ member => nomatch member⟩⟩)
    (by decide) completed
  have same : answers = [.removed (some 0x19007), .mapped false] := of_decide_eq_true check
  exact ⟨final, by rw [completed, same], flat.2.2.2⟩

end Sample

end ParadiseOS.FlatMap
