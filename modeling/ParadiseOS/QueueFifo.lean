import ParadiseOS.RunQueue

/-!
# The queue is first in, first out

From `queue_init`, in every run of `queue_add` and `queue_poll`, the queue is the list of
the nodes that were added and not yet polled, in the order they were added.
-/

namespace ParadiseOS.QueueFifo

open LinkedChain MachineWord PagingModel ProcessModel RunQueue StepRun

set_option autoImplicit false

section Calls

def queueInit (system : System) : System := { system with runQueue := ⟨0, 0, 0⟩ }

/-- A call of the queue's functions. The node that is added has a stale link in its field `next`. -/
inductive QueueCall where
  | add (node stale : Nat)
  | poll

/-- `queue_poll` answers with a node or null. -/
def queueStep (system : System) : QueueCall → Except Trap (Option Nat × System)
  | .add node stale =>
      .ok (none, queueAdd { system with next := Function.update system.next node stale } node)
  | .poll => .ok (some (queuePoll system).1, (queuePoll system).2)

/-- The caller adds an object that does not wait. -/
def LegalCall (system : System) : QueueCall → Prop
  | .add node _ => 0 < node ∧ node < 4294967296 ∧ ¬ OnQueue system node
  | .poll => True

end Calls

section Lists

/-- The abstract queue is the list of the waiting nodes. -/
def fifoStep (nodes : List Nat) : QueueCall → Option Nat × List Nat
  | .add node _ => (none, nodes ++ [node])
  | .poll => (some (nodes.headD 0), nodes.tail)

/-- The nodes of the calls of `queue_add`. -/
def added : List QueueCall → List Nat
  | [] => []
  | .add node _ :: calls => node :: added calls
  | .poll :: calls => added calls

/-- The nodes that `queue_poll` returned. -/
def polled (answers : List (Option Nat)) : List Nat :=
  (answers.filterMap id).filter (· ≠ 0)

/-- What was waiting and what is added is polled first, the rest waits. -/
theorem fifo_order {calls : List QueueCall} {nodes : List Nat} (notNull : ∀ node ∈ nodes, node ≠ 0)
    (addsNodes : ∀ node ∈ added calls, node ≠ 0) :
    nodes ++ added calls = polled (observe fifoStep nodes calls).1 ++ (observe fifoStep nodes calls).2 := by
  induction calls generalizing nodes with
  | nil => exact List.append_nil nodes
  | cons call calls ih =>
      cases call with
      | add node stale =>
          have later := @ih (nodes ++ [node]) (fun other member => by
            rcases List.mem_append.1 member with inside | last
            · exact notNull other inside
            · exact List.mem_singleton.1 last ▸ addsNodes node List.mem_cons_self)
            (fun other member => addsNodes other (List.mem_cons_of_mem _ member))
          rw [List.append_assoc] at later
          exact later
      | poll =>
          cases nodes with
          | nil => exact @ih [] notNull addsNodes
          | cons first nodes =>
              have later := @ih nodes (fun other member => notNull other (List.mem_cons_of_mem _ member))
                addsNodes
              have kept : polled (observe fifoStep (first :: nodes) (.poll :: calls)).1 =
                  first :: polled (observe fifoStep nodes calls).1 :=
                List.filter_cons_of_pos (decide_eq_true (notNull first List.mem_cons_self))
              rw [kept]
              exact congrArg (first :: ·) later

end Lists

/-- The fields of the queue and the links of the nodes are those of the list. -/
structure Fifo (system : System) (nodes : List Nat) : Prop where
  chain : Chain 0 system.next system.runQueue.head nodes
  nodup : nodes.Nodup
  tail : system.runQueue.tail = nodes.getLastD 0
  count : system.runQueue.count = nodes.length
  bounds : ∀ node ∈ nodes, 0 < node ∧ node < 4294967296

section Steps

variable {system : System} {nodes : List Nat} {node : Nat}

theorem fifo_init (system : System) : Fifo (queueInit system) [] where
  chain := rfl
  nodup := List.nodup_nil
  tail := rfl
  count := rfl
  bounds _ member := nomatch member

/-- Both ends are null exactly when nothing waits. -/
theorem ends_null (holds : Fifo system nodes) :
    (system.runQueue.head = 0 ↔ nodes = []) ∧ (system.runQueue.tail = 0 ↔ nodes = []) := by
  refine ⟨(chain_nil_iff holds.chain).symm, ?_⟩
  rw [holds.tail]
  rcases List.eq_nil_or_concat nodes with rfl | ⟨front, last, rfl⟩
  · exact iff_of_true rfl rfl
  · have positive := (holds.bounds last (by simp)).1
    rw [List.concat_eq_append, List.getLastD_concat]
    exact iff_of_false positive.ne' (List.append_ne_nil_of_right_ne_nil _ (List.cons_ne_nil _ _))

/-- The stale link of a node that does not wait is no part of the queue. -/
theorem fifo_stale (holds : Fifo system nodes) (fresh : node ∉ nodes) (stale : Nat) :
    Fifo { system with next := Function.update system.next node stale } nodes :=
  { holds with chain := chain_update holds.chain fresh stale }

theorem add_fifo (holds : Fifo system nodes) (positive : 0 < node) (bound : node < 4294967296)
    (fresh : node ∉ nodes) : Fifo (queueAdd system node) (nodes ++ [node]) := by
  have distinct : (nodes ++ [node]).Nodup := List.nodup_append.2
    ⟨holds.nodup, List.nodup_singleton node, fun other inside last isLast same =>
      fresh (List.mem_singleton.1 isLast ▸ same ▸ inside)⟩
  have bounds : ∀ other ∈ nodes ++ [node], 0 < other ∧ other < 4294967296 := by
    intro other member
    rcases List.mem_append.1 member with inside | last
    · exact holds.bounds other inside
    · exact List.mem_singleton.1 last ▸ ⟨positive, bound⟩
  have few := waiting_length distinct bounds
  refine ⟨queue_add_chain holds.chain holds.tail positive.ne' fresh, distinct, queue_add_tail nodes, ?_, bounds⟩
  rw [List.length_append, List.length_singleton] at few ⊢
  change u32 (system.runQueue.count + 1) = _
  rw [holds.count]
  exact Nat.mod_eq_of_lt few

theorem poll_fifo (holds : Fifo system nodes) :
    (queuePoll system).1 = nodes.headD 0 ∧ Fifo (queuePoll system).2 nodes.tail := by
  cases nodes with
  | nil =>
      rw [queue_poll_empty holds.chain]
      exact ⟨rfl, holds⟩
  | cons first nodes =>
      obtain ⟨isFirst, chain, tail, count⟩ := queue_poll_chain holds.chain holds.tail
      have few := waiting_length holds.nodup holds.bounds
      refine ⟨isFirst, chain, (List.nodup_cons.1 holds.nodup).2, tail, ?_,
        fun other member => holds.bounds other (List.mem_cons_of_mem _ member)⟩
      rw [count, holds.count]
      rw [List.length_cons] at few ⊢
      change (nodes.length + 1 + 4294967296 - 1) % 4294967296 = nodes.length
      omega

/-- A call answers and leaves what the abstract queue does. -/
theorem queue_step_fifo (holds : Fifo system nodes) {call : QueueCall} (legal : LegalCall system call) :
    ∃ next, queueStep system call = .ok ((fifoStep nodes call).1, next) ∧
      Fifo next (fifoStep nodes call).2 := by
  cases call with
  | add node stale =>
      obtain ⟨positive, bound, absent⟩ := legal
      have fresh := mt (on_queue_iff holds.chain).2 absent
      exact ⟨_, rfl, add_fifo (fifo_stale holds fresh stale) positive bound fresh⟩
  | poll =>
      obtain ⟨answer, rest⟩ := poll_fifo holds
      exact ⟨_, congrArg (fun node => Except.ok (some node, (queuePoll system).2)) answer, rest⟩

end Steps

section Runs

theorem added_not_null {calls : List QueueCall} {system : System}
    (legal : Allowed queueStep LegalCall system calls) : ∀ node ∈ added calls, node ≠ 0 := by
  induction calls generalizing system with
  | nil => exact fun _ member => nomatch member
  | cons call calls ih =>
      cases call with
      | add node stale =>
          intro other member
          rcases List.mem_cons.1 member with rfl | later
          · exact legal.1.1.ne'
          · exact ih (legal.2 none _ rfl) other later
      | poll => exact ih (legal.2 _ _ rfl)

/-- From `queue_init`, every run of legal calls succeeds and is one of the abstract queue: the
nodes are polled in the order they were added, what was not polled waits, and the count and both
ends say how many wait. -/
theorem queue_runs_fifo (system : System) (calls : List QueueCall)
    (legal : Allowed queueStep LegalCall (queueInit system) calls) :
    ∃ answers final nodes, run queueStep (queueInit system) calls = .ok (answers, final) ∧
      observe fifoStep [] calls = (answers, nodes) ∧
      added calls = polled answers ++ nodes ∧ Fifo final nodes ∧
      (queuePoll final).1 = nodes.headD 0 ∧ ((queuePoll final).1 = 0 ↔ nodes = []) ∧
      (final.runQueue.head = 0 ↔ nodes = []) ∧ (final.runQueue.tail = 0 ↔ nodes = []) := by
  obtain ⟨final, completed, holds⟩ := run_simulates fifoStep Fifo
    (fun _ _ _ holds legal => queue_step_fifo holds legal) calls (queueInit system) [] (fifo_init system) legal
  have order := @fifo_order calls [] (fun _ member => nomatch member) (added_not_null legal)
  have answer := (poll_fifo holds).1
  refine ⟨_, final, _, completed, rfl, order, holds, answer, ?_, ends_null holds⟩
  rw [answer]
  cases waiting : (observe fifoStep [] calls).2 with
  | nil => exact iff_of_true rfl rfl
  | cons first nodes =>
      have positive := (holds.bounds first (by simp [waiting])).1
      exact iff_of_false positive.ne' (List.cons_ne_nil _ _)

/-- The call adds an object that is not in the list. -/
def FreshCall (nodes : List Nat) : QueueCall → Prop
  | .add node _ => 0 < node ∧ node < 4294967296 ∧ node ∉ nodes
  | .poll => True

instance (nodes : List Nat) : ∀ call, Decidable (FreshCall nodes call)
  | .add node _ => inferInstanceAs (Decidable (0 < node ∧ node < 4294967296 ∧ node ∉ nodes))
  | .poll => isTrue trivial

/-- Whether the calls are legal can be seen from the abstract queue. -/
theorem allowed_of_fresh {calls : List QueueCall} {system : System} {nodes : List Nat}
    (holds : Fifo system nodes)
    (fresh : Allowed (fun nodes call => (.ok (fifoStep nodes call) : Except Trap _)) FreshCall nodes calls) :
    Allowed queueStep LegalCall system calls := by
  induction calls generalizing system nodes with
  | nil => trivial
  | cons call calls ih =>
      have legal : LegalCall system call := by
        cases call with
        | add node stale =>
            obtain ⟨positive, bound, absent⟩ := fresh.1
            exact ⟨positive, bound, mt (on_queue_iff holds.chain).1 absent⟩
        | poll => trivial
      obtain ⟨next, stepped, later⟩ := queue_step_fifo holds legal
      refine ⟨legal, ?_⟩
      intro answer reached same
      cases stepped.symm.trans same
      exact ih later (fresh.2 _ _ rfl)

/-- Two nodes are polled and the first is put behind the second again. -/
theorem queue_runs_fifo_twice :
    ∃ answers final nodes, run queueStep (queueInit (processesInit PagingChecks.sampleMachine 0x100
        (fun _ => ⟨0, 0, 0, 0, .red⟩) fun _ => 0))
        [.add 8 40, .add 40 8, .poll, .add 8 40, .poll, .poll, .poll, .add 40 8] = .ok (answers, final) ∧
      observe fifoStep [] [.add 8 40, .add 40 8, .poll, .add 8 40, .poll, .poll, .poll, .add 40 8] =
        (answers, nodes) ∧
      added [.add 8 40, .add 40 8, .poll, .add 8 40, .poll, .poll, .poll, .add 40 8] =
        polled answers ++ nodes ∧ Fifo final nodes ∧
      (queuePoll final).1 = nodes.headD 0 ∧ ((queuePoll final).1 = 0 ↔ nodes = []) ∧
      (final.runQueue.head = 0 ↔ nodes = []) ∧ (final.runQueue.tail = 0 ↔ nodes = []) :=
  queue_runs_fifo _ _ (allowed_of_fresh (fifo_init _) (by decide))

end Runs

end ParadiseOS.QueueFifo
