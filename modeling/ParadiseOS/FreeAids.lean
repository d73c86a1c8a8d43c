import Mathlib.Data.Nat.Find
import ParadiseOS.ProcessCycles

/-!
# The search for a free address-space id

`next_free_aid` goes up from `aid_counter` and wraps at 2^16. Aid 0 stands for no
process, and it is only the initial counter that keeps the search away from it: once
no aid from the counter to 65535 is free, the search comes to 0.
-/

namespace ParadiseOS.FreeAids

open MachineWord MailboxModel ProcessModel ProcessTable RbTreeRuns StepRun
open RbTreeModel (rbFind rbInsert)

set_option autoImplicit false

section Statement

/-- No process has the aid. -/
def Unused (system : System) (aid : Nat) : Prop :=
  rbFind system.machine.processTree (u32 (aid <<< 16)) = .ok 0

/-- An aid that a process could have is free. -/
def SomeUnused (system : System) : Prop := ∃ aid, 0 < aid ∧ aid < 65536 ∧ Unused system aid

/-- What a new process needs of its pid: the pid of a whole aid, not the reserved one, that is not
in the table, so that a node that is not in the table can be inserted under it. -/
structure FreshPid (system next : System) (pid : Nat) : Prop where
  found : nextFreeAid system = .ok (pid, next)
  whole : getPidTid pid = 0
  nonzero : getPidAid pid ≠ 0
  absent : rbFind next.machine.processTree pid = .ok 0
  inserted : ∀ node, RbTreeRuns.LegalCall next.machine.processTree (.insert node pid) →
    ∃ tree, rbInsert next.machine.processTree node pid = .ok (true, tree)

/-- The states in which a creation searches: behind the new address space, or behind the new slot. -/
def SearchesIn (system state : System) : SystemCall → Prop
  | .exec (some entry) arg => ∃ pageDir machine,
      makeSpace system.machine entry arg = .ok (pageDir, machine) ∧ state = system.onMachine machine
  | .register => ∃ process, poolCreate system = .ok (process, state)
  | _ => False

/-- A creation is given a fresh pid as long as there is one. -/
def CreationFresh (system : System) (call : SystemCall) : Prop :=
  ∀ state, SearchesIn system state call → SomeUnused state → ∃ pid next, FreshPid state next pid

/-- The search does not come to 0, or 0 is taken. -/
def AvoidsZero (system : System) : Prop :=
  ¬ Unused system 0 ∨ system.aidCounter ≠ 0 ∧
    ∃ aid, system.aidCounter ≤ aid ∧ aid < 65536 ∧ Unused system aid

def CreationAvoidsZero (system : System) (call : SystemCall) : Prop :=
  ∀ state, SearchesIn system state call → SomeUnused state → AvoidsZero state

end Statement

section Search

variable {system : System} {dict : Dictionary} {aid first : Nat}

theorem aid_key (small : aid < 65536) : u32 (aid <<< 16) = aid * 65536 := by
  rw [Nat.shiftLeft_eq]
  exact u32_of_lt (by omega)

theorem pid_of_aid (small : aid < 65536) : getPidTid (aid * 65536) = 0 ∧ getPidAid (aid * 65536) = aid := by
  have low : aid * 65536 &&& 65535 = aid * 65536 % 65536 := Nat.and_two_pow_sub_one_eq_mod _ 16
  constructor
  · unfold getPidTid u16
    omega
  · unfold getPidAid u16
    rw [Nat.shiftRight_eq_div_pow]
    omega

/-- What the tree finds under a key is a node, not null. -/
theorem find_some (related : Related system.machine.processTree dict) {key node : Nat}
    (found : dict key = some node) :
    rbFind system.machine.processTree key = .ok node ∧ node ≠ 0 := by
  constructor
  · rw [find_answer related, found, Option.getD_some]
  · obtain ⟨shape, wellFormed, registered⟩ := related
    have member := List.mem_map_of_mem (f := RbTreeShape.Entry.addr) ((registered _ _).1 found)
    exact wellFormed.represents.nonzero _ member

theorem unused_iff (related : Related system.machine.processTree dict) (small : aid < 65536) :
    Unused system aid ↔ dict (aid * 65536) = none := by
  rw [Unused, aid_key small]
  constructor
  · intro unused
    cases found : dict (aid * 65536) with
    | none => rfl
    | some node =>
        obtain ⟨returned, nonzero⟩ := find_some related found
        rw [unused, Except.ok.injEq] at returned
        exact absurd returned.symm nonzero
  · intro free
    rw [find_answer related, free, Option.getD_none]

/-- The aid that the search looks at after some rounds. -/
def aidAfter (system : System) (rounds : Nat) : Nat := (system.aidCounter + rounds) % 65536

/-- The search passes the aids that are taken and stops at the first one that is free. -/
theorem free_aid_loop_finds (related : Related system.machine.processTree dict) (low : first < 65536)
    (free : dict (aidAfter system first * 65536) = none)
    (taken : ∀ rounds < first, dict (aidAfter system rounds * 65536) ≠ none) (left : Nat) {rounds : Nat}
    (split : rounds + left = first) :
    freeAidLoop system (65536 - rounds) (aidAfter system rounds) =
      .ok (aidAfter system first * 65536, aidAfter system (first + 1)) := by
  have next : ∀ other, u16 (aidAfter system other + 1) = aidAfter system (other + 1) := by
    intro other
    unfold aidAfter u16
    omega
  have bounded : ∀ other, aidAfter system other < 65536 := fun _ => Nat.mod_lt _ (by decide)
  induction left generalizing rounds with
  | zero =>
      obtain rfl : rounds = first := split
      rw [show 65536 - rounds = 65535 - rounds + 1 by omega, freeAidLoop]
      simp only [aid_key (bounded rounds), find_answer related, free, Option.getD_none, Trap.ok_bind, if_true,
        Trap.pure_ok, next]
  | succ left ih =>
      cases found : dict (aidAfter system rounds * 65536) with
      | none => exact absurd found (taken rounds (by omega))
      | some node =>
          obtain ⟨returned, nonzero⟩ := find_some related found
          have again : aidAfter system (rounds + 1) ≠ system.aidCounter := by
            unfold aidAfter
            omega
          have later := @ih (rounds + 1) (by omega)
          rw [show 65536 - rounds = 65536 - (rounds + 1) + 1 by omega, freeAidLoop]
          simp only [aid_key (bounded rounds), returned, Trap.ok_bind, nonzero, if_false, next, again, ne_eq,
            not_false_eq_true, if_true]
          exact later

/-- With an aid left over, the search returns the first free one from the counter on. -/
theorem next_free_aid_finds (related : Related system.machine.processTree dict)
    (small : system.aidCounter < 65536) (some : SomeUnused system) :
    ∃ first < 65536, dict (aidAfter system first * 65536) = none ∧
      (∀ rounds < first, dict (aidAfter system rounds * 65536) ≠ none) ∧
      nextFreeAid system = .ok (aidAfter system first * 65536,
        { system with aidCounter := aidAfter system (first + 1) }) := by
  obtain ⟨aid, positive, below, unused⟩ := some
  rw [unused_iff related below] at unused
  have reached : dict (aidAfter system ((65536 + aid - system.aidCounter) % 65536) * 65536) = none := by
    have place : aidAfter system ((65536 + aid - system.aidCounter) % 65536) = aid := by
      unfold aidAfter
      omega
    rw [place]
    exact unused
  have exist : ∃ rounds, dict (aidAfter system rounds * 65536) = none := ⟨_, reached⟩
  have least : ∀ rounds < Nat.find exist, dict (aidAfter system rounds * 65536) ≠ none :=
    fun rounds before => Nat.find_min exist before
  have early : Nat.find exist < 65536 :=
    Nat.lt_of_le_of_lt (Nat.find_min' exist reached) (Nat.mod_lt _ (by decide))
  refine ⟨Nat.find exist, early, Nat.find_spec exist, least, ?_⟩
  have start : aidAfter system 0 = system.aidCounter := Nat.mod_eq_of_lt small
  have searched := @free_aid_loop_finds _ _ _ related early (Nat.find_spec exist) least (Nat.find exist) 0
    (Nat.zero_add _)
  rw [start, Nat.sub_zero] at searched
  rw [nextFreeAid, searched, Trap.ok_bind]
  rfl

/-- A node that is not in the tree can be inserted under a key that is not. -/
theorem insert_unused {key node : Nat} (related : Related system.machine.processTree dict)
    (free : dict key = none)
    (legal : RbTreeRuns.LegalCall system.machine.processTree (.insert node key)) :
    ∃ tree, rbInsert system.machine.processTree node key = .ok (true, tree) := by
  obtain ⟨next, answered, _⟩ := insert_answered related legal
  have answer := answered.answer
  obtain ⟨⟨done, tree⟩, inserted, same⟩ := Trap.bind_eq_ok.mp answer
  simp only [dictStep, free, Trap.pure_ok, Except.ok.injEq, Prod.mk.injEq, Answer.inserted.injEq] at same
  obtain ⟨rfl, rfl⟩ := same
  exact ⟨tree, inserted⟩

/-- The search gives a fresh pid exactly if it does not come to 0 before another free aid. -/
theorem fresh_pid_iff (related : Related system.machine.processTree dict)
    (small : system.aidCounter < 65536) (some : SomeUnused system) :
    (∃ pid next, FreshPid system next pid) ↔ AvoidsZero system := by
  obtain ⟨first, low, free, taken, found⟩ := next_free_aid_finds related small some
  have bounded : aidAfter system first < 65536 := Nat.mod_lt _ (by decide)
  obtain ⟨whole, isAid⟩ := pid_of_aid bounded
  have isFirst : aidAfter system first = (system.aidCounter + first) % 65536 := rfl
  constructor
  · rintro ⟨pid, next, fresh⟩
    have same := fresh.found.symm.trans found
    simp only [Except.ok.injEq, Prod.mk.injEq] at same
    have nonzero := fresh.nonzero
    rw [same.1, isAid] at nonzero
    by_cases zero : Unused system 0
    · right
      -- the search has not come to 0 yet
      have before : ∀ rounds ≤ first, aidAfter system rounds ≠ 0 := by
        intro rounds within isZero
        rcases Nat.lt_or_eq_of_le within with earlier | rfl
        · apply taken rounds earlier
          rw [isZero]
          exact (unused_iff related (by decide)).1 zero
        · exact nonzero isZero
      have notWrapped : system.aidCounter + first < 65536 := by
        by_contra wrapped
        apply before (65536 - system.aidCounter) (by omega)
        unfold aidAfter
        omega
      refine ⟨fun isZero => ?_, system.aidCounter + first, Nat.le_add_right _ _, notWrapped, ?_⟩
      · apply before 0 (Nat.zero_le _)
        rw [aidAfter, isZero]
      · rw [unused_iff related notWrapped, ← Nat.mod_eq_of_lt notWrapped]
        exact free
    · exact .inl zero
  · intro avoids
    have nonzero : aidAfter system first ≠ 0 := by
      rcases avoids with taken0 | ⟨positive, aid, above, below, unused⟩
      · intro isZero
        apply taken0
        rw [unused_iff related (by decide), ← isZero]
        exact free
      · have place : aidAfter system (aid - system.aidCounter) = aid := by
          unfold aidAfter
          omega
        have early : first ≤ aid - system.aidCounter := by
          by_contra later
          apply taken (aid - system.aidCounter) (by omega)
          rw [place]
          exact (unused_iff related below).1 unused
        omega
    refine ⟨_, _, ⟨found, whole, by rwa [isAid], ?_, fun node legal => insert_unused related free legal⟩⟩
    change rbFind system.machine.processTree _ = _
    rw [find_answer related, free, Option.getD_none]

end Search

section Runs

variable {system state : System} {dict : Dictionary} {slots : List Nat} {live : List ColouredLine.Block}
  {machine : PagingModel.Machine} {nil : Nat} {nodes : Nat → RbTreeModel.RbNode} {next : Nat → Nat}

/-- What a creation does before its search keeps the table. -/
theorem searched_related {call : SystemCall} (accounted : Accounted system dict slots live)
    (searches : SearchesIn system state call) :
    Related state.machine.processTree dict ∧ state.aidCounter < 65536 := by
  cases call with
  | exec lookup arg =>
      cases lookup with
      | none => exact searches.elim
      | some entry =>
          obtain ⟨pageDir, machine, spaced, rfl⟩ := searches
          obtain ⟨directory, made, objects⟩ := ProcessFrames.make_space_objects spaced
          have after := accounted_new_page_dir accounted made
          have related := after.related
          refine ⟨?_, accounted.aid⟩
          change Related machine.processTree dict
          rw [objects.processTree]
          exact related
  | register =>
      obtain ⟨process, creating⟩ := searches
      obtain ⟨_, _, after, _⟩ := pool_create_ok accounted creating
      exact ⟨after.related, after.aid⟩
  | delete pid => exact searches.elim
  | jump pid => exact searches.elim
  | preempt userMode context => exact searches.elim
  | schedule => exact searches.elim
  | elsewhere memory freeFramePaddr usedFrames => exact searches.elim

theorem creation_fresh_iff {call : SystemCall} (accounted : Accounted system dict slots live) :
    CreationFresh system call ↔ CreationAvoidsZero system call := by
  have each : ∀ state, SearchesIn system state call → SomeUnused state →
      ((∃ pid next, FreshPid state next pid) ↔ AvoidsZero state) := by
    intro state searches some
    obtain ⟨related, small⟩ := searched_related accounted searches
    exact fresh_pid_iff related small some
  constructor
  · intro fresh state searches some
    exact (each state searches some).1 (fresh state searches some)
  · intro avoids state searches some
    exact (each state searches some).2 (avoids state searches some)

/-- In every history that deletes processes by whole pids, the creations are given fresh pids
exactly if no search comes to 0. -/
theorem creations_fresh_iff (calls : List SystemCall) (ready : HeapReady machine nil)
    (legal : Allowed systemStep ProcessTable.LegalCall (processesInit machine nil nodes next) calls)
    (whole : Allowed systemStep DeletesWholeAid (processesInit machine nil nodes next) calls) :
    Allowed systemStep CreationFresh (processesInit machine nil nodes next) calls ↔
      Allowed systemStep CreationAvoidsZero (processesInit machine nil nodes next) calls := by
  obtain ⟨live, start⟩ := processes_init_accounted nodes next ready
  apply allowed_iff (fun system => ∃ dict slots live, Accounted system dict slots live) _ _ calls _
    ⟨_, _, live, start⟩ (allowed_and legal whole)
  · rintro system call ⟨dict, slots, live, accounted⟩ _
    exact creation_fresh_iff accounted
  · rintro system call outcome after ⟨dict, slots, live, accounted⟩ allowed _ stepped
    exact system_step_accounted accounted allowed.1 allowed.2 stepped

end Runs

end ParadiseOS.FreeAids
