import ParadiseOS.ProcessTable

/-!
# What deleting a process reports

Success and failure of `syscall_delete_process` share one return. A delete that found
its process and undid its registration reports that no process was found.
-/

namespace ParadiseOS.ProcessDeletes

open ColouredLine FrameLedger FrameSteps HeapRuns LinkedChain MachineWord MemModel PagingChecks PagingModel
open ProcessFrames ProcessModel ProcessTable StepRun
open MailboxModel (getPidAid getPidTid)
open RbTreeModel (RbTree rbFind rbInsert rbRemove)
open RbTreeRuns

set_option autoImplicit false

section Statement

/-- A process is registered under the address space of the pid. -/
def RegisteredAs (system : System) (pid process : Nat) : Prop :=
  getProcess system.machine.processTree (getPidAid pid) = .ok process ∧ process ≠ 0

/-- The process is gone: lookups of its address space find nothing, every other process is found
with its directory as before, and its slot is once on the free list of the pool. -/
structure Deleted (system next : System) (pid process : Nat) : Prop where
  gone : getProcess next.machine.processTree (getPidAid pid) = .ok 0
  others : ∀ aid < 65536, aid ≠ getPidAid pid →
    ∀ other, getProcess system.machine.processTree aid = .ok other →
      getProcess next.machine.processTree aid = .ok other ∧
        (other ≠ 0 → next.machine.pageDirPaddr other = system.machine.pageDirPaddr other)
  freed : ∃ slots, Chain 0 next.machine.pageDirPaddr next.freeList slots ∧ slots.count process = 1

/-- The system call deletes what is registered and says so, and touches nothing when nothing is
registered. -/
structure DeletesExactly (system : System) (pid : Nat) : Prop where
  found : ∀ process, RegisteredAs system pid process → ∃ result next,
    syscallDeleteProcess system pid = .ok (result, next) ∧ result.err = 0 ∧
      Deleted system next pid process
  missing : (∀ process, ¬ RegisteredAs system pid process) →
    ∃ result, syscallDeleteProcess system pid = .ok (result, system) ∧ result.err = pidNotFound

end Statement

variable {system next : System} {pid process : Nat}

/-- There is one way out of the call. -/
theorem delete_result {result : VirtModel.SyscallResult}
    (completed : syscallDeleteProcess system pid = .ok (result, next)) :
    result = ⟨0, pidNotFound⟩ := by
  obtain ⟨process, _, completed⟩ := Trap.bind_eq_ok.mp completed
  split_ifs at completed with found
  · obtain ⟨deleted, _, completed⟩ := Trap.bind_eq_ok.mp completed
    simp only [Trap.pure_ok, Except.ok.injEq, Prod.mk.injEq] at completed
    exact completed.1.symm
  · simp only [Trap.pure_ok, Except.ok.injEq, Prod.mk.injEq] at completed
    exact completed.1.symm

theorem delete_missing (missing : getProcess system.machine.processTree (getPidAid pid) = .ok 0) :
    syscallDeleteProcess system pid = .ok (⟨0, pidNotFound⟩, system) := by
  rw [syscallDeleteProcess, missing]
  rfl

/-- A call that returns looked its process up. -/
theorem delete_looks_up {result : VirtModel.SyscallResult}
    (completed : syscallDeleteProcess system pid = .ok (result, next)) :
    ∃ process, getProcess system.machine.processTree (getPidAid pid) = .ok process := by
  obtain ⟨process, found, _⟩ := Trap.bind_eq_ok.mp completed
  exact ⟨process, found⟩

/-- A registered process is deleted without a success result, so an exact call finds none. -/
theorem exact_finds_none {system : System} {pid : Nat} (exactly : DeletesExactly system pid) :
    getProcess system.machine.processTree (getPidAid pid) = .ok 0 := by
  by_cases registered : ∃ process, RegisteredAs system pid process
  · obtain ⟨process, registered⟩ := registered
    obtain ⟨result, next, completed, success, _⟩ := exactly.found process registered
    rw [delete_result completed] at success
    exact absurd success (by decide)
  · rw [not_exists] at registered
    obtain ⟨result, completed, _⟩ := exactly.missing registered
    obtain ⟨process, found⟩ := delete_looks_up completed
    have none : process = 0 := by
      by_contra notNull
      exact registered process ⟨found, notNull⟩
    rw [found, none]

/-- The call keeps its promise exactly when its lookup finds no process. -/
theorem delete_exact_iff (system : System) (pid : Nat) :
    DeletesExactly system pid ↔ getProcess system.machine.processTree (getPidAid pid) = .ok 0 := by
  constructor
  · exact exact_finds_none
  · intro missing
    constructor
    · intro process registered
      have same := missing.symm.trans registered.1
      rw [Except.ok.injEq] at same
      exact absurd same.symm registered.2
    · intro _
      exact ⟨_, delete_missing missing, rfl⟩

/-- The first process of the system is registered and deleted, and the call reports that it was
not found. -/
theorem delete_not_reported : ¬ ∀ (machine : Machine) (nil : Nat) (nodes : Nat → RbTreeModel.RbNode)
    (next : Nat → Nat) (calls : List SystemCall) (outcomes : List Outcome) (final : System) (pid : Nat),
    HeapReady machine nil → Allowed systemStep LegalCall (processesInit machine nil nodes next) calls →
      run systemStep (processesInit machine nil nodes next) calls = .ok (outcomes, final) →
        pid < 4294967296 → DeletesExactly final pid := by
  intro always
  obtain ⟨registered, frame, ledger, state⟩ := pool_registered
  have ended : run systemStep registered [] = .ok ([], registered) := rfl
  have completed := run_cons_of_step state.step ended
  have legal : Allowed systemStep LegalCall poolSystem [.register] :=
    allowed_cons_of_step trivial state.step trivial
  have exactly := always poolMachine 0x100 _ _ _ _ registered 0x10000 pool_machine_ready legal completed
    (by decide)
  obtain ⟨foundPassed, _⟩ := of_decide_eq_true state.tree
  obtain ⟨process, finding, isProcess⟩ := returns_with_iff.1 foundPassed
  have isProcess := of_decide_eq_true isProcess
  have missing := exact_finds_none exactly
  have same := finding.symm.trans missing
  rw [Except.ok.injEq, isProcess] at same
  exact absurd same (by decide)

section Table

variable {dict : Dictionary} {slots : List Nat} {live : List Block}

theorem aid_key_injective {aid other : Nat} (aidSmall : aid < 65536) (otherSmall : other < 65536)
    (same : u32 (aid <<< 16) = u32 (other <<< 16)) : aid = other := by
  rw [Nat.shiftLeft_eq, Nat.shiftLeft_eq] at same
  unfold u32 at same
  omega

/-- But for what it reports, a delete by a whole pid does what it should. -/
theorem delete_whole_pid (accounted : Accounted system dict slots live) (word : pid < 4294967296)
    (whole : getPidTid pid = 0) (registered : RegisteredAs system pid process)
    {result : VirtModel.SyscallResult} (completed : syscallDeleteProcess system pid = .ok (result, next)) :
    Deleted system next pid process := by
  obtain ⟨finding, notNull⟩ := registered
  have key := get_process_found accounted finding notNull
  rw [whole_pid_key word whole] at key
  rw [syscallDeleteProcess, finding, Trap.ok_bind, if_pos notNull] at completed
  obtain ⟨deleted, deleting, completed⟩ := Trap.bind_eq_ok.mp completed
  simp only [Trap.pure_ok, Except.ok.injEq, Prod.mk.injEq] at completed
  obtain ⟨_, rfl⟩ := completed
  obtain ⟨after, _⟩ := delete_process_ok accounted key deleting
  have serves := serves_of_related after.related
  constructor
  · apply serves.noProcess
    rw [whole_pid_key word whole]
    exact if_pos rfl
  · intro aid small apart other found
    have differ : u32 (aid <<< 16) ≠ pid := by
      intro same
      rw [← whole_pid_key word whole] at same
      exact apart (aid_key_injective small (Nat.mod_lt _ (by decide)) same)
    by_cases isNull : other = 0
    · subst isNull
      refine ⟨serves.noProcess aid ?_, fun notNull => absurd rfl notNull⟩
      cases entry : dict (u32 (aid <<< 16)) with
      | none => exact (if_neg differ).trans entry
      | some node =>
          obtain ⟨_, _, held, member, rfl⟩ := accounted.keys _ node entry
          have again := (serves_of_related accounted.related).process aid held entry
          have bounds := on_page_bounds accounted.invariant accounted.room (accounted.usedOnPage held member)
          have behind := accounted.behind
          rw [found, Except.ok.injEq] at again
          omega
    · have entry := get_process_found accounted found isNull
      refine ⟨serves.process aid other ((if_neg differ).trans entry), fun _ => ?_⟩
      have notSame : other ≠ process := by
        rintro rfl
        exact differ (related_injective accounted.related entry key)
      obtain ⟨machine, freed, deleting⟩ := Trap.bind_eq_ok.mp deleting
      obtain ⟨removed, _, deleting⟩ := Trap.bind_eq_ok.mp deleting
      simp only [Trap.pure_ok, Except.ok.injEq] at deleting
      rw [← deleting]
      change Function.update machine.pageDirPaddr process system.freeList other = _
      rw [Function.update_of_ne notSame, (free_frame_objects freed).pageDirPaddr]
  · refine ⟨process :: slots, after.chain, ?_⟩
    exact List.count_eq_one_of_mem (chain_nodup after.chain) List.mem_cons_self

end Table
end ParadiseOS.ProcessDeletes
