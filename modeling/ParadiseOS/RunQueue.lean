import ParadiseOS.ProcessTable
import ParadiseOS.VirtRanges

/-!
# The run queue

`queue_add` and `queue_poll` work on the chain of queue nodes inside the processes.
The queue, what runs and what was started agree as long as nobody jumps to or
deletes a queued process, or jumps away from one that runs.
-/

namespace ParadiseOS.RunQueue

open LinkedChain MachineWord PagingModel ProcessModel ProcessTable StepRun
open MailboxModel (getPidAid getPidTid)
open RbTreeRuns

set_option autoImplicit false

section Statement

/-- The walk over the queue visits the node. -/
def OnQueue (system : System) (node : Nat) : Prop :=
  ∃ nodes, Chain 0 system.next system.runQueue.head nodes ∧ node ∈ nodes

/-- The queue is a finite list of distinct nodes of registered processes, and what was started
runs or waits. -/
structure QueueIntegrity (system : System) : Prop where
  walk : ∃ nodes, Chain 0 system.next system.runQueue.head nodes ∧ nodes.Nodup ∧
    system.runQueue.tail = nodes.getLastD 0 ∧ system.runQueue.count = nodes.length
  registered : ∀ node, OnQueue system node → ∃ process, node = process + queueNodeOffset ∧
    Reachable system.machine.processTree (process + rbNodeOffset)
  started : ∀ process ∈ system.started,
    Xor (process = system.current) (OnQueue system (process + queueNodeOffset))

/-- A call that the queue is meant for: a deleted process does not wait and goes by its whole
key, a jump goes to a process that does not wait and from one that was not started, and the slot
of a deleted process that runs on is not started or made to wait again. -/
def QueueSafe (system : System) : SystemCall → Prop
  | .exec _ _ => system.current = 0 ∨ system.current ≠ system.freeList
  | .register => True
  | .delete pid => ∀ process, getProcess system.machine.processTree (getPidAid pid) = .ok process →
      process = 0 ∨ getPidTid pid = 0 ∧ ¬ OnQueue system (process + queueNodeOffset)
  | .jump pid => ∀ process, getProcess system.machine.processTree (getPidAid pid) = .ok process →
      process = 0 ∨ ¬ OnQueue system (process + queueNodeOffset) ∧
        (system.current = process ∨ system.current ∉ system.started)
  | .preempt userMode _ => userMode = true → system.runQueue.head = 0 ∨
      Reachable system.machine.processTree (system.current + rbNodeOffset)
  | .schedule => system.current ∉ system.started
  | .elsewhere _ _ _ => True

end Statement

section Queues

variable {system : System} {nodes : List Nat} {node : Nat}

theorem on_queue_iff (chain : Chain 0 system.next system.runQueue.head nodes) :
    OnQueue system node ↔ node ∈ nodes := by
  constructor
  · rintro ⟨others, walk, member⟩
    rw [chain_unique chain walk]
    exact member
  · exact fun member => ⟨nodes, chain, member⟩

/-- A node that does not wait is put behind the others. -/
theorem queue_add_chain (chain : Chain 0 system.next system.runQueue.head nodes)
    (tail : system.runQueue.tail = nodes.getLastD 0) (notNull : node ≠ 0) (fresh : node ∉ nodes) :
    Chain 0 (queueAdd system node).next (queueAdd system node).runQueue.head (nodes ++ [node]) := by
  rcases List.eq_nil_or_concat nodes with rfl | ⟨front, last, rfl⟩
  · have empty : system.runQueue.tail = 0 := tail
    rw [queueAdd, if_neg (not_not.2 empty), if_neg (not_not.2 empty)]
    exact ⟨rfl, notNull, Function.update_self node 0 system.next⟩
  · rw [List.concat_eq_append] at chain fresh ⊢
    have isTail : system.runQueue.tail = last := by
      rw [tail, List.concat_eq_append, List.getLastD_concat]
    have lastNotNull : last ≠ 0 :=
      chain_not_null chain last (List.mem_append_right _ (List.mem_singleton_self _))
    rw [queueAdd, isTail, if_pos lastNotNull, if_pos lastNotNull]
    exact chain_append chain notNull fresh

theorem queue_add_tail (nodes : List Nat) : (queueAdd system node).runQueue.tail = (nodes ++ [node]).getLastD 0 := by
  rw [List.getLastD_concat]
  rfl

/-- The first node leaves the queue. -/
theorem queue_poll_chain {first : Nat} (chain : Chain 0 system.next system.runQueue.head (first :: nodes))
    (tail : system.runQueue.tail = (first :: nodes).getLastD 0) :
    (queuePoll system).1 = first ∧
      Chain 0 (queuePoll system).2.next (queuePoll system).2.runQueue.head nodes ∧
      (queuePoll system).2.runQueue.tail = nodes.getLastD 0 ∧
      (queuePoll system).2.runQueue.count = sub32 system.runQueue.count 1 := by
  obtain ⟨isFirst, notNull, rest⟩ := chain
  rw [← isFirst] at notNull rest
  rw [queuePoll, if_neg notNull]
  refine ⟨isFirst, rest, ?_, rfl⟩
  change (if system.next system.runQueue.head = 0 then 0 else system.runQueue.tail) = _
  cases nodes with
  | nil => rw [if_pos ((chain_nil_iff rest).1 rfl)]; rfl
  | cons second nodes =>
      rw [if_neg (fun none => List.cons_ne_nil _ _ ((chain_nil_iff rest).2 none)), tail]
      rfl

theorem queue_poll_empty (chain : Chain 0 system.next system.runQueue.head []) :
    queuePoll system = (0, system) := by
  rw [queuePoll, if_pos (show system.runQueue.head = 0 from chain)]

end Queues

/-- The queue is a chain of nodes of registered processes, and the one that runs is not on it. -/
structure Scheduled (system : System) (dict : Dictionary) (slots nodes : List Nat) : Prop where
  chain : Chain 0 system.next system.runQueue.head nodes
  tail : system.runQueue.tail = nodes.getLastD 0
  count : system.runQueue.count = nodes.length
  registered : ∀ node ∈ nodes, ∃ process key, dict key = some (process + rbNodeOffset) ∧
    node = process + queueNodeOffset
  placed : system.current = 0 ∨ system.current ∈ system.occupied ∨ system.current ∈ slots
  apart : system.current + queueNodeOffset ∉ nodes
  started : ∀ process ∈ system.started, process ∈ system.occupied ∧
    (process = system.current ∨ process + queueNodeOffset ∈ nodes)

section Invariant

variable {system next middle : System} {dict : Dictionary} {slots nodes : List Nat}
  {live : List ColouredLine.Block} {process pid : Nat}

theorem integrity_of_scheduled (accounted : Accounted system dict slots live)
    (scheduled : Scheduled system dict slots nodes) : QueueIntegrity system := by
  have chain := scheduled.chain
  refine ⟨⟨nodes, chain, chain_nodup chain, scheduled.tail, scheduled.count⟩, ?_, ?_⟩
  · intro node queued
    obtain ⟨process, key, found, same⟩ := scheduled.registered node ((on_queue_iff chain).1 queued)
    exact ⟨process, same, (related_reachable accounted.related).2 ⟨key, found⟩⟩
  · intro process member
    rw [on_queue_iff chain]
    rcases (scheduled.started process member).2 with rfl | waits
    · exact .inl ⟨rfl, scheduled.apart⟩
    · exact .inr ⟨waits, fun same => scheduled.apart (same ▸ waits)⟩

/-- A waiting process has a slot of the pool. -/
theorem waiting_occupied (accounted : Accounted system dict slots live)
    (scheduled : Scheduled system dict slots nodes) (waits : process + queueNodeOffset ∈ nodes) :
    process ∈ system.occupied := by
  obtain ⟨other, key, found, same⟩ := scheduled.registered _ waits
  obtain ⟨_, _, third, member, equal⟩ := accounted.keys key _ found
  have isProcess : process = third := by omega
  exact isProcess ▸ member

theorem waiting_bounds (accounted : Accounted system dict slots live)
    (scheduled : Scheduled system dict slots nodes) : ∀ node ∈ nodes, 0 < node ∧ node < 4294967296 := by
  intro node waits
  obtain ⟨process, _, _, rfl⟩ := scheduled.registered _ waits
  have bounds := on_page_bounds accounted.invariant accounted.room
    (accounted.usedOnPage process (waiting_occupied accounted scheduled waits))
  unfold queueNodeOffset
  omega

/-- A queue of distinct nodes is not longer than there are addresses. -/
theorem waiting_length (nodup : nodes.Nodup) (bounds : ∀ node ∈ nodes, 0 < node ∧ node < 4294967296) :
    nodes.length < 4294967296 := by
  have subset : nodes.toFinset ⊆ Finset.Ico 1 4294967296 := by
    intro node member
    have bound := bounds node (List.mem_toFinset.1 member)
    exact Finset.mem_Ico.2 bound
  have card := Finset.card_le_card subset
  rw [List.toFinset_card_of_nodup nodup, Nat.card_Ico] at card
  omega

theorem made_scheduled (scheduled : Scheduled system dict slots nodes) (made : Made system middle dict slots process pid) :
    ∃ after later, Accounted middle (register dict process pid) after later ∧
      Scheduled middle (register dict process pid) after nodes := by
  obtain ⟨after, later, kept, subset⟩ := made.accounted
  obtain ⟨runQueue, links, current, started⟩ := made.runs
  refine ⟨after, later, kept, ?_, ?_, ?_, ?_, ?_, ?_, ?_⟩
  · rw [links, runQueue]
    exact scheduled.chain
  · rw [runQueue]
    exact scheduled.tail
  · rw [runQueue]
    exact scheduled.count
  · intro node waits
    obtain ⟨other, key, found, same⟩ := scheduled.registered node waits
    refine ⟨other, key, ?_, same⟩
    unfold register
    rw [if_neg]
    · exact found
    · rintro rfl
      rw [made.unregistered] at found
      cases found
  · rw [current, made.occupied]
    rcases scheduled.placed with none | occupied | free
    · exact .inl none
    · exact .inr (.inl (List.mem_cons_of_mem _ occupied))
    · rcases List.mem_cons.1 (subset free) with here | left
      · exact .inr (.inl (here ▸ List.mem_cons_self))
      · exact .inr (.inr left)
  · rw [current]
    exact scheduled.apart
  · rw [current, started, made.occupied]
    intro other member
    have kept := scheduled.started other member
    exact ⟨List.mem_cons_of_mem _ kept.1, kept.2⟩

/-- A new process has the slot of the one that runs only if that was deleted. -/
theorem made_not_current (accounted : Accounted system dict slots live)
    (scheduled : Scheduled system dict slots nodes) (made : Made system middle dict slots process pid)
    (safe : system.current = 0 ∨ system.current ≠ system.freeList) : process ≠ system.current := by
  rintro rfl
  obtain ⟨after, later, kept, subset⟩ := made.accounted
  have occupied : system.current ∈ middle.occupied := made.occupied ▸ List.mem_cons_self
  have bounds := on_page_bounds kept.invariant kept.room (kept.usedOnPage _ occupied)
  have behind := kept.behind
  rcases scheduled.placed with none | member | free
  · omega
  · exact made.fresh member
  · have notEmpty : system.freeList ≠ 0 := by
      intro empty
      have none := (chain_nil_iff accounted.chain).2 empty
      rw [none] at free
      cases free
    rcases safe with none | differ
    · omega
    · exact differ (made.first notEmpty)

/-- A process of its own is queued and counts as started. -/
theorem enqueue_scheduled (accounted : Accounted system dict slots live)
    (scheduled : Scheduled system dict slots nodes) {key : Nat}
    (found : dict key = some (process + rbNodeOffset)) (differ : process ≠ system.current)
    (fresh : process + queueNodeOffset ∉ nodes) :
    Scheduled { queueAdd system (u32 (process + queueNodeOffset)) with
      started := process :: system.started } dict slots (nodes ++ [process + queueNodeOffset]) := by
  obtain ⟨_, _, other, occupied, same⟩ := accounted.keys key _ found
  have isProcess : process = other := by omega
  rw [← isProcess] at occupied
  have bounds := on_page_bounds accounted.invariant accounted.room (accounted.usedOnPage process occupied)
  have place : u32 (process + queueNodeOffset) = process + queueNodeOffset :=
    u32_of_lt (by unfold queueNodeOffset; omega)
  have positive : process + queueNodeOffset ≠ 0 := by
    unfold queueNodeOffset
    omega
  have chain := queue_add_chain scheduled.chain scheduled.tail positive fresh
  have registered : ∀ node ∈ nodes ++ [process + queueNodeOffset], ∃ other key,
      dict key = some (other + rbNodeOffset) ∧ node = other + queueNodeOffset := by
    intro node waits
    rcases List.mem_append.1 waits with old | new
    · exact scheduled.registered node old
    · exact ⟨process, key, found, List.mem_singleton.1 new⟩
  have length := waiting_length (chain_nodup chain) (by
    intro node waits
    rcases List.mem_append.1 waits with old | new
    · exact waiting_bounds accounted scheduled node old
    · rw [List.mem_singleton.1 new]
      unfold queueNodeOffset
      omega)
  rw [place]
  refine ⟨chain, queue_add_tail nodes, ?_, registered, scheduled.placed, ?_, ?_⟩
  · change u32 (system.runQueue.count + 1) = _
    rw [List.length_append, List.length_singleton] at length ⊢
    rw [scheduled.count, u32_of_lt length]
  · change system.current + queueNodeOffset ∉ _
    intro waits
    rcases List.mem_append.1 waits with old | new
    · exact scheduled.apart old
    · exact differ (Nat.add_right_cancel (List.mem_singleton.1 new)).symm
  · intro other member
    rcases List.mem_cons.1 member with rfl | old
    · exact ⟨occupied, .inr (List.mem_append_right _ (List.mem_singleton_self _))⟩
    · obtain ⟨isOccupied, runs | waits⟩ := scheduled.started other old
      · exact ⟨isOccupied, .inl runs⟩
      · exact ⟨isOccupied, .inr (List.mem_append_left _ waits)⟩

/-- Deleting a process that does not wait. -/
theorem delete_scheduled (accounted : Accounted system dict slots live)
    (scheduled : Scheduled system dict slots nodes) (found : dict pid = some (process + rbNodeOffset))
    (idle : process + queueNodeOffset ∉ nodes) (completed : deleteProcess system pid process = .ok next) :
    Accounted next (unregister dict pid) (process :: slots) live ∧
      Scheduled next (unregister dict pid) (process :: slots) nodes := by
  obtain ⟨kept, occupied, runQueue, links, current, started⟩ :=
    delete_process_ok accounted found completed
  refine ⟨kept, ?_, ?_, ?_, ?_, ?_, ?_, ?_⟩
  · rw [links, runQueue]
    exact scheduled.chain
  · rw [runQueue]
    exact scheduled.tail
  · rw [runQueue]
    exact scheduled.count
  · intro node waits
    obtain ⟨other, key, registered, same⟩ := scheduled.registered node waits
    refine ⟨other, key, ?_, same⟩
    unfold unregister
    rw [if_neg]
    · exact registered
    · rintro rfl
      rw [found, Option.some.injEq] at registered
      have isOther : other = process := by omega
      exact idle (isOther ▸ same ▸ waits)
  · rw [current, occupied]
    rcases scheduled.placed with none | member | free
    · exact .inl none
    · by_cases here : system.current = process
      · exact .inr (.inr (here ▸ List.mem_cons_self))
      · exact .inr (.inl ((List.mem_erase_of_ne here).2 member))
    · exact .inr (.inr (List.mem_cons_of_mem _ free))
  · rw [current]
    exact scheduled.apart
  · rw [started, current, occupied]
    intro other member
    obtain ⟨inside, differ⟩ := List.mem_filter.1 member
    have kept := scheduled.started other inside
    exact ⟨(List.mem_erase_of_ne (of_decide_eq_true differ)).2 kept.1, kept.2⟩

/-- The first process of the queue runs next. -/
theorem schedule_scheduled {context : Nat × Nat}
    (chain : Chain 0 system.next system.runQueue.head ((process + queueNodeOffset) :: nodes))
    (tail : system.runQueue.tail = ((process + queueNodeOffset) :: nodes).getLastD 0)
    (count : system.runQueue.count = nodes.length + 1) (small : nodes.length + 1 < 4294967296)
    (word : process + queueNodeOffset < 4294967296)
    (registered : ∀ node ∈ nodes, ∃ other key, dict key = some (other + rbNodeOffset) ∧
      node = other + queueNodeOffset)
    (placed : process = 0 ∨ process ∈ system.occupied ∨ process ∈ slots)
    (started : ∀ other ∈ system.started, other ∈ system.occupied ∧
      other + queueNodeOffset ∈ (process + queueNodeOffset) :: nodes)
    (completed : schedule system = .ok (context, next)) : Scheduled next dict slots nodes := by
  obtain ⟨_, rfl⟩ := schedule_cases completed
  obtain ⟨isFirst, rest, isTail, isCount⟩ := queue_poll_chain chain tail
  have notNull := chain.2.1
  have isNext : (runQueueNext system).1 = process := by
    change (if (queuePoll system).1 ≠ 0 then sub32 (queuePoll system).1 queueNodeOffset else 0) = process
    rw [isFirst, if_pos notNull]
    rw [sub32_of_le (by unfold queueNodeOffset; omega) word, Nat.add_sub_cancel]
  have queue : (runQueueNext system).2 = (queuePoll system).2 := rfl
  have same : (queuePoll system).2.occupied = system.occupied ∧
      (queuePoll system).2.started = system.started := by
    by_cases empty : system.runQueue.head = 0
    · rw [queuePoll, if_pos empty]
      exact ⟨rfl, rfl⟩
    · rw [queuePoll, if_neg empty]
      exact ⟨rfl, rfl⟩
  rw [isNext, queue]
  refine ⟨rest, isTail, ?_, registered, ?_, ?_, ?_⟩
  · change (queuePoll system).2.runQueue.count = _
    rw [isCount, count, sub32_of_le (by omega) small, Nat.add_sub_cancel]
  · change process = 0 ∨ process ∈ (queuePoll system).2.occupied ∨ process ∈ slots
    rw [same.1]
    exact placed
  · exact (List.nodup_cons.1 (chain_nodup chain)).1
  · intro other member
    change other ∈ (queuePoll system).2.occupied ∧ _
    change other ∈ (queuePoll system).2.started at member
    rw [same.2] at member
    rw [same.1]
    obtain ⟨occupied, waits⟩ := started other member
    refine ⟨occupied, ?_⟩
    rcases List.mem_cons.1 waits with first | later
    · exact .inl (Nat.add_right_cancel first)
    · exact .inr later

theorem current_word (accounted : Accounted system dict slots live)
    (scheduled : Scheduled system dict slots nodes) : system.current + queueNodeOffset < 4294967296 := by
  have room : ∀ slot, OnPage system.machine.kernelHeap live slot → slot + 32 ≤ 4294967296 :=
    fun slot placed => (on_page_bounds accounted.invariant accounted.room placed).2
  unfold queueNodeOffset
  rcases scheduled.placed with none | occupied | free
  · omega
  · have bound := room _ (accounted.usedOnPage _ occupied)
    omega
  · have bound := room _ (accounted.freeOnPage _ free)
    omega

/-- The process that runs waits behind the others, and the first one runs. -/
theorem preempt_scheduled {context : Context} {resumed : Option (Nat × Nat)}
    (accounted : Accounted system dict slots live) (scheduled : Scheduled system dict slots nodes)
    (safe : system.runQueue.head = 0 ∨ Reachable system.machine.processTree (system.current + rbNodeOffset))
    (completed : preempt system true context = .ok (resumed, next)) :
    ∃ left, Scheduled next dict slots left := by
  obtain ⟨machine, entered, objects, completed⟩ := preempt_cases completed
  have word := current_word accounted scheduled
  have positive : system.current + queueNodeOffset ≠ 0 := by
    unfold queueNodeOffset
    omega
  have chain := @queue_add_chain (system.onMachine machine) nodes _ scheduled.chain scheduled.tail
    positive scheduled.apart
  have tail := @queue_add_tail (system.onMachine machine) (system.current + queueNodeOffset) nodes
  have length := waiting_length (chain_nodup chain) (by
    intro node waits
    rcases List.mem_append.1 waits with old | new
    · exact waiting_bounds accounted scheduled node old
    · rw [List.mem_singleton.1 new]
      omega)
  rw [List.length_append, List.length_singleton] at length
  have count : (queueAdd (system.onMachine machine)
      (system.current + queueNodeOffset)).runQueue.count = nodes.length + 1 := by
    change u32 (system.runQueue.count + 1) = _
    rw [scheduled.count, u32_of_lt length]
  have waiting : ∀ other ∈ system.started, other ∈ system.occupied ∧
      other + queueNodeOffset ∈ nodes ++ [system.current + queueNodeOffset] := by
    intro other member
    obtain ⟨occupied, runs | waits⟩ := scheduled.started other member
    · exact ⟨occupied, List.mem_append_right _ (runs ▸ List.mem_singleton_self _)⟩
    · exact ⟨occupied, List.mem_append_left _ waits⟩
  rw [u32_of_lt word] at completed
  cases nodes with
  | nil =>
      -- Nobody else waits: the process is queued and taken off again.
      exact ⟨[], schedule_scheduled chain tail count (by decide) word (fun _ member => nomatch member)
        scheduled.placed waiting completed⟩
  | cons first nodes =>
      have notEmpty : system.runQueue.head ≠ 0 := scheduled.chain.1 ▸ scheduled.chain.2.1
      obtain ⟨key, found⟩ := (related_reachable accounted.related).1 (safe.resolve_left notEmpty)
      obtain ⟨process, firstKey, _, rfl⟩ := scheduled.registered first List.mem_cons_self
      have occupied := waiting_occupied accounted scheduled List.mem_cons_self
      have bounds := waiting_bounds accounted scheduled _ List.mem_cons_self
      refine ⟨nodes ++ [system.current + queueNodeOffset], schedule_scheduled chain tail ?_ ?_ bounds.2 ?_
        (.inr (.inl occupied)) waiting completed⟩
      · rw [count, List.length_append, List.length_singleton, List.length_cons]
      · rw [List.length_append, List.length_singleton]
        rw [List.length_cons] at length
        exact length
      · intro node member
        rcases List.mem_append.1 member with old | new
        · exact scheduled.registered node (List.mem_cons_of_mem _ old)
        · exact ⟨system.current, key, found, List.mem_singleton.1 new⟩

/-- A jump to a process that does not wait. -/
theorem jump_scheduled {outcome : Outcome} (accounted : Accounted system dict slots live)
    (scheduled : Scheduled system dict slots nodes) (safe : QueueSafe system (.jump pid))
    (completed : syscallJumpProcess system pid = .ok (outcome, next)) :
    Scheduled next dict slots nodes := by
  rcases jump_cases completed with rfl | ⟨process, notNull, found, rfl⟩
  · exact scheduled
  obtain ⟨idle, left⟩ := (safe process found).resolve_left notNull
  rw [on_queue_iff scheduled.chain] at idle
  obtain ⟨_, _, other, occupied, same⟩ := accounted.keys _ _ (get_process_found accounted found notNull)
  have isProcess : process = other := by omega
  rw [← isProcess] at occupied
  refine ⟨scheduled.chain, scheduled.tail, scheduled.count, scheduled.registered,
    .inr (.inl occupied), idle, ?_⟩
  intro started member
  rcases List.mem_cons.1 member with rfl | old
  · exact ⟨occupied, .inl rfl⟩
  · obtain ⟨isOccupied, runs | waits⟩ := scheduled.started started old
    · rcases left with here | notStarted
      · exact ⟨isOccupied, .inl (runs.trans here)⟩
      · exact absurd (runs ▸ old) notStarted
    · exact ⟨isOccupied, .inr waits⟩

/-- `schedule` when nothing that was started runs. -/
theorem idle_scheduled {context : Nat × Nat} (accounted : Accounted system dict slots live)
    (scheduled : Scheduled system dict slots nodes) (idle : system.current ∉ system.started)
    (completed : schedule system = .ok (context, next)) : ∃ left, Scheduled next dict slots left := by
  cases nodes with
  | nil =>
      obtain ⟨found, _⟩ := schedule_cases completed
      rw [runQueueNext, queue_poll_empty scheduled.chain] at found
      exact absurd rfl found
  | cons first nodes =>
      obtain ⟨process, key, _, rfl⟩ := scheduled.registered first List.mem_cons_self
      have occupied := waiting_occupied accounted scheduled List.mem_cons_self
      have bounds := waiting_bounds accounted scheduled _ List.mem_cons_self
      have length := waiting_length (chain_nodup scheduled.chain) (waiting_bounds accounted scheduled)
      refine ⟨nodes, schedule_scheduled scheduled.chain scheduled.tail scheduled.count length bounds.2
        (fun node member => scheduled.registered node (List.mem_cons_of_mem _ member))
        (.inr (.inl occupied)) ?_ completed⟩
      intro other member
      obtain ⟨isOccupied, runs | waits⟩ := scheduled.started other member
      · exact absurd (runs ▸ member) idle
      · exact ⟨isOccupied, waits⟩

end Invariant

section Steps

variable {system next : System} {dict : Dictionary} {slots nodes : List Nat}
  {live : List ColouredLine.Block}

/-- One call keeps the queue in order if it is safe. -/
theorem system_step_scheduled (accounted : Accounted system dict slots live)
    (scheduled : Scheduled system dict slots nodes) {call : SystemCall} (legal : LegalCall system call)
    (safe : QueueSafe system call) {outcome : Outcome}
    (stepped : systemStep system call = .ok (outcome, next)) :
    ∃ after free pages left, Accounted next after free pages ∧ Scheduled next after free left := by
  have onQueue : ∀ {node}, OnQueue system node ↔ node ∈ nodes := on_queue_iff scheduled.chain
  cases call with
  | exec lookup arg =>
      obtain ⟨last, completed, stepped⟩ := Trap.bind_eq_ok.mp stepped
      simp only [Trap.pure_ok, Except.ok.injEq, Prod.mk.injEq] at stepped
      obtain ⟨_, rfl⟩ := stepped
      obtain ⟨process, pid, middle, made, rfl⟩ := exec_sun_made accounted completed
      obtain ⟨after, later, kept, between⟩ := made_scheduled scheduled made
      have key : register dict process pid pid = some (process + rbNodeOffset) := if_pos rfl
      have differ : process ≠ middle.current := by
        rw [made.runs.current]
        exact made_not_current accounted scheduled made safe
      have fresh : process + queueNodeOffset ∉ nodes := fun waits =>
        made.fresh (waiting_occupied accounted scheduled waits)
      have queued := enqueue_scheduled kept between key differ fresh
      exact ⟨_, _, _, _, accounted_same kept ⟨rfl, rfl, rfl, rfl, id⟩ rfl, queued⟩
  | register =>
      obtain ⟨⟨result, last⟩, completed, stepped⟩ := Trap.bind_eq_ok.mp stepped
      simp only [Trap.pure_ok, Except.ok.injEq, Prod.mk.injEq] at stepped
      obtain ⟨_, rfl⟩ := stepped
      obtain ⟨process, made⟩ := register_made accounted completed
      obtain ⟨after, later, kept, between⟩ := made_scheduled scheduled made
      exact ⟨_, _, _, _, kept, between⟩
  | delete pid =>
      obtain ⟨⟨result, last⟩, completed, stepped⟩ := Trap.bind_eq_ok.mp stepped
      simp only [Trap.pure_ok, Except.ok.injEq, Prod.mk.injEq] at stepped
      obtain ⟨_, rfl⟩ := stepped
      obtain ⟨process, found, completed⟩ := Trap.bind_eq_ok.mp completed
      split_ifs at completed with notNull
      · obtain ⟨deleted, deleting, completed⟩ := Trap.bind_eq_ok.mp completed
        simp only [Trap.pure_ok, Except.ok.injEq, Prod.mk.injEq] at completed
        obtain ⟨_, rfl⟩ := completed
        have key := get_process_found accounted found notNull
        obtain ⟨noThread, idle⟩ := (safe process found).resolve_left notNull
        rw [whole_pid_key legal noThread] at key
        rw [onQueue] at idle
        obtain ⟨kept, left⟩ := delete_scheduled accounted scheduled key idle deleting
        exact ⟨_, _, _, _, kept, left⟩
      · simp only [Trap.pure_ok, Except.ok.injEq, Prod.mk.injEq] at completed
        exact ⟨_, _, _, _, completed.2 ▸ accounted, completed.2 ▸ scheduled⟩
  | jump pid =>
      have kept := jump_accounted accounted stepped
      exact ⟨_, _, _, _, kept, jump_scheduled accounted scheduled safe stepped⟩
  | preempt userMode context =>
      obtain ⟨⟨resumed, last⟩, completed, stepped⟩ := Trap.bind_eq_ok.mp stepped
      simp only [Trap.pure_ok, Except.ok.injEq, Prod.mk.injEq] at stepped
      obtain ⟨_, rfl⟩ := stepped
      have kept := preempt_accounted accounted completed
      cases userMode with
      | true =>
          obtain ⟨left, waiting⟩ := preempt_scheduled accounted scheduled (safe rfl) completed
          exact ⟨_, _, _, left, kept, waiting⟩
      | false =>
          simp only [preempt, Bool.false_eq_true, if_false, Except.ok.injEq, Prod.mk.injEq] at completed
          exact ⟨_, _, _, nodes, kept, completed.2 ▸ scheduled⟩
  | schedule =>
      obtain ⟨⟨⟨eip, esp⟩, last⟩, completed, stepped⟩ := Trap.bind_eq_ok.mp stepped
      simp only [Trap.pure_ok, Except.ok.injEq, Prod.mk.injEq] at stepped
      obtain ⟨_, rfl⟩ := stepped
      have kept := schedule_accounted accounted completed
      obtain ⟨left, waiting⟩ := idle_scheduled accounted scheduled safe completed
      exact ⟨_, _, _, left, kept, waiting⟩
  | elsewhere memory freeFramePaddr usedFrames =>
      simp only [systemStep, Except.ok.injEq, Prod.mk.injEq] at stepped
      obtain ⟨_, rfl⟩ := stepped
      exact ⟨_, _, _, _, accounted_same accounted ⟨rfl, rfl, rfl, rfl, id⟩ rfl, scheduled.chain,
        scheduled.tail, scheduled.count, scheduled.registered, scheduled.placed, scheduled.apart,
        scheduled.started⟩

end Steps

section Runs

variable {machine : Machine} {nil : Nat} {nodes : Nat → RbTreeModel.RbNode} {next : Nat → Nat}
  {final : System}

theorem processes_init_scheduled (dict : Dictionary) :
    Scheduled (processesInit machine nil nodes next) dict [] [] where
  chain := rfl
  tail := rfl
  count := rfl
  registered _ member := nomatch member
  placed := .inl rfl
  apart member := nomatch member
  started _ member := nomatch member

/-- From `processes_init`, in every run of safe calls, the queue is in order. -/
theorem run_queue_runs {calls : List SystemCall} {outcomes : List Outcome}
    (ready : HeapReady machine nil)
    (legal : Allowed systemStep LegalCall (processesInit machine nil nodes next) calls)
    (safe : Allowed systemStep QueueSafe (processesInit machine nil nodes next) calls)
    (completed : run systemStep (processesInit machine nil nodes next) calls = .ok (outcomes, final)) :
    QueueIntegrity final := by
  obtain ⟨live, start⟩ := processes_init_accounted nodes next ready
  obtain ⟨dict, slots, pages, left, accounted, scheduled⟩ := run_preserves
    (fun system => ∃ dict slots live nodes, Accounted system dict slots live ∧
      Scheduled system dict slots nodes)
    (fun system call outcome after ⟨dict, slots, live, nodes, accounted, scheduled⟩ allowed stepped =>
      system_step_scheduled accounted scheduled allowed.1 allowed.2 stepped)
    calls _ final outcomes ⟨_, _, live, _, start, processes_init_scheduled _⟩ (allowed_and legal safe)
    completed
  exact integrity_of_scheduled accounted scheduled

end Runs

section Boot

open ProcessFrames FrameLedger FrameOwners FrameSteps HeapModel HeapRegions MemModel NewDirectory PagingChecks PagingMaps
open PagingSteps RbTreeModel TwoLevelPaging VirtRanges

/-- The last page of the heap is taken once more. -/
theorem pool_takes_again {registered : System} {frame : Nat} {ledger : Ledger}
    (state : PoolRegistered registered frame ledger) :
    ∃ taken freed, kernelAlloc registered.machine 1 = .ok (0xFF7FF000, taken) ∧
      heapFree taken.kernelHeap 0xFF7FF000 = .ok freed := by
  obtain ⟨⟨dir, marked⟩, allocated, passed⟩ := returns_with_iff.1 state.heap
  obtain ⟨isDir, freePassed⟩ := of_decide_eq_true passed
  change dir = 0xFF7FF000 at isDir
  subst isDir
  obtain ⟨freed, freeing, _⟩ := returns_with_iff.1 freePassed
  have balanced := state.balanced
  have window := state.window
  have table : Present (directoryEntry registered.machine.memory registered.machine.cr3
      (0xFF7FF000 / 4096 / 1024)) := by
    have present := balanced.spaces.windowTable
    rw [window] at present
    exact present
  have absent : ¬ Present (pageEntry registered.machine.memory registered.machine.cr3
      (0xFF7FF000 / 4096)) := fun present =>
    state.unmapped ((balanced.exact 0xFF7FF ⟨by decide, by decide⟩).1 present)
  have usage := balanced.usage
  rw [state.used] at usage
  obtain ⟨top, rest, isFree⟩ : ∃ top rest, ledger.free = top :: rest := by
    cases isFree : ledger.free with
    | nil => rw [isFree] at usage; cases usage
    | cons top rest => exact ⟨top, rest, rfl⟩
  obtain ⟨backed, backing⟩ := @alloc_page_returns registered.machine ledger.roots 0xFF7FF000
    pageWritable top rest balanced.spaces (isFree ▸ balanced.free) (by decide) (window ▸ by decide) table absent (by decide)
  refine ⟨{ backed with kernelHeap := marked }, freed, ?_, freeing⟩
  have pages : allocPages registered.machine 0xFF7FF000 pageWritable 1 = .ok backed := by
    rw [alloc_pages_succ, backing]
    rfl
  simp only [kernelAlloc, memAlloc, Trap.kernel_assert_of (by decide : (1 : Nat) ≠ 0), allocated, pages,
    Trap.ok_bind, Trap.pure_ok]

/-- The state after a second process was registered. -/
structure PoolTwice (registered second : System) (frame other : Nat) : Prop where
  step : systemStep registered .register = .ok (.returned ⟨0x20000, 0⟩, second)
  current : second.machine.currentPageDir = second.machine.cr3
  firstDir : second.machine.pageDirPaddr 0xFF7FE000 = frame
  secondDir : second.machine.pageDirPaddr 0xFF7FE020 = other
  firstAligned : frame % 4096 = 0
  secondAligned : other % 4096 = 0
  differ : frame ≠ other
  firstFound : getProcess second.machine.processTree 1 = .ok 0xFF7FE000
  secondFound : getProcess second.machine.processTree 2 = .ok 0xFF7FE020
  runs : SameRuns poolSystem second

theorem pool_twice {registered : System} {frame : Nat} {ledger : Ledger}
    (state : PoolRegistered registered frame ledger) :
    ∃ second other, PoolTwice registered second frame other := by
  obtain ⟨_, _, _, emptyPassed, insertPassed⟩ := of_decide_eq_true state.tree
  obtain ⟨found, finding, isEmpty⟩ := returns_with_iff.1 emptyPassed
  have isEmpty := of_decide_eq_true isEmpty
  subst isEmpty
  obtain ⟨⟨isNew, tree⟩, inserting, passed⟩ := returns_with_iff.1 insertPassed
  obtain ⟨firstPassed, secondPassed⟩ := of_decide_eq_true passed
  obtain ⟨first, firstFinding, isFirst⟩ := returns_with_iff.1 firstPassed
  obtain ⟨second, secondFinding, isSecond⟩ := returns_with_iff.1 secondPassed
  have isFirst := of_decide_eq_true isFirst
  have isSecond := of_decide_eq_true isSecond
  subst isFirst isSecond
  obtain ⟨taken, ⟨freedCount, heap⟩, taking, freeing⟩ := pool_takes_again state
  have places := pool_places taking (by decide) (by decide) (by decide)
  obtain ⟨⟨other, machine⟩, making⟩ := new_page_dir_returns state.balanced places taking freeing
  obtain ⟨_, _, _, _, after, _, _, _, held, made⟩ :=
    new_page_dir_ok state.balanced (state.window ▸ by decide) places making
  have kept := new_page_dir_objects making
  obtain ⟨created, isCreated⟩ : ∃ created : System, created = { registered with
      freeList := registered.machine.pageDirPaddr 0xFF7FE020
      occupied := 0xFF7FE020 :: registered.occupied } := ⟨_, rfl⟩
  have creating : poolCreate registered = .ok (0xFF7FE020, created) := by
    have filled : poolRefill registered = .ok registered := by
      rw [poolRefill, if_neg (state.free ▸ by decide)]
    rw [poolCreate, filled, Trap.ok_bind, isCreated, state.free]
    rfl
  have numbering : nextFreeAid created = .ok (0x20000, { created with aidCounter := 3 }) := by
    have here : created.aidCounter = 2 := by
      rw [isCreated]
      exact state.aid
    have loop : freeAidLoop created (65535 + 1) 2 = .ok (0x20000, 3) := by
      have absent : rbFind created.machine.processTree (u32 (2 <<< 16)) = .ok 0 := by
        rw [isCreated]
        exact finding
      rw [freeAidLoop, absent]
      rfl
    rw [nextFreeAid, here, loop]
    rfl
  have sameMachine : created.machine = registered.machine := by rw [isCreated]
  have registering := register_returns creating numbering (sameMachine.symm ▸ making)
    (kept.1.symm ▸ inserting)
  have roots : after.roots = [other, frame, 0x10000] := by rw [made.roots, state.roots]
  have aligned := held.spaces.family.aligned
  rw [roots] at aligned
  have notRoot := made.notRoot
  rw [state.roots] at notRoot
  obtain ⟨last, isLast⟩ : ∃ last : Machine, last = { machine with
      pageDirPaddr := Function.update machine.pageDirPaddr 0xFF7FE020 other
      processTree := tree } := ⟨_, rfl⟩
  rw [← isLast] at registering
  refine ⟨System.onMachine { created with aidCounter := 3 } last, other, ?_, ?_, ?_, ?_,
    aligned frame (by simp), aligned other (by simp), ?_, ?_, ?_, ?_⟩
  · rw [systemStep, registering]
    rfl
  · change last.currentPageDir = last.cr3
    rw [isLast]
    exact held.spaces.current
  · change last.pageDirPaddr 0xFF7FE000 = frame
    rw [isLast, ← state.dir, ← kept.2.1]
    exact Function.update_of_ne (show 0xFF7FE000 ≠ 0xFF7FE020 by decide) other machine.pageDirPaddr
  · change last.pageDirPaddr 0xFF7FE020 = other
    rw [isLast]
    exact Function.update_self 0xFF7FE020 other machine.pageDirPaddr
  · rintro rfl
    exact notRoot List.mem_cons_self
  · change getProcess last.processTree 1 = _
    rw [isLast]
    exact firstFinding
  · change getProcess last.processTree 2 = _
    rw [isLast]
    exact secondFinding
  · have runs := state.runs
    rw [isCreated]
    exact ⟨runs.runQueue, runs.next, runs.current, runs.started⟩

/-- The page of the control block is mapped in two address spaces, in a table that they share. -/
def withBlocks (memory : Memory) (first second : Nat) : Memory :=
  writeWord (writeWord (writeWord memory (first + 4) 0x30007) (second + 4) 0x30007) 0x30038 0x31007

theorem blocks_mapped {memory : Memory} {first second root : Nat} (firstAligned : first % 4096 = 0)
    (secondAligned : second % 4096 = 0) (differ : first ≠ second) (here : root = first ∨ root = second) :
    pageEntry (withBlocks memory first second) root (pcbAddr / 4096) = 0x31007 := by
  have table : directoryEntry (withBlocks memory first second) root 1 = 0x30007 := by
    unfold directoryEntry withBlocks
    rw [read_write_aligned (by decide) (by omega) (by omega)]
    rcases here with rfl | rfl
    · rw [read_write_aligned (by omega) (by omega) (by omega)]
      exact read_write_same (by decide)
    · exact read_write_same (by decide)
  have page : pcbAddr / 4096 = 0x40E := by decide
  have index : 0x40E / 1024 = 1 := by decide
  have place : slot (withBlocks memory first second) root 0x40E = 0x30038 := by
    rw [slot, index, table]
    decide
  rw [page, pageEntry, index, table, if_pos (by decide), place]
  exact read_write_same (by decide)

/-- A jump to a process with a control block does not come back. -/
theorem jump_returns {system : System} {pid process : Nat}
    (current : system.machine.currentPageDir = system.machine.cr3)
    (found : getProcess system.machine.processTree (getPidAid pid) = .ok process) (notNull : process ≠ 0)
    (mapped : pageEntry system.machine.memory (system.machine.pageDirPaddr process) (pcbAddr / 4096) =
      0x31007) :
    ∃ eip esp next, systemStep system (.jump pid) = .ok (.resumed eip esp, next) ∧
      next = { system with
        current := process
        machine := switch system.machine (system.machine.pageDirPaddr process)
        started := process :: system.started } := by
  have switched := set_page_dir_ok current (system.machine.pageDirPaddr process)
  have load : ∀ offset, offset % 4 = 0 → offset < 4096 → ∃ word, loadPcb
      (switch system.machine (system.machine.pageDirPaddr process)) offset = .ok word := by
    intro offset aligned small
    have page : (pcbAddr + offset) / 4096 = pcbAddr / 4096 := by
      unfold pcbAddr mailboxDataAddr processOrg pageSize
      omega
    have address : (pcbAddr + offset) % 4096 = offset := by
      unfold pcbAddr mailboxDataAddr processOrg pageSize
      omega
    have present : Present (pageEntry system.machine.memory (system.machine.pageDirPaddr process)
        ((pcbAddr + offset) / 4096)) := by
      rw [page, mapped]
      decide
    have place := translate_page present
    have bounded : pcbAddr + offset < 4294967296 := by
      unfold pcbAddr mailboxDataAddr processOrg pageSize
      omega
    exact ⟨_, @load_word_at (switch system.machine (system.machine.pageDirPaddr process))
      _ _ place (by omega) bounded⟩
  obtain ⟨fpu, fpuLoaded⟩ := load pcbFpuRegs (by decide) (by decide)
  obtain ⟨eip, eipLoaded⟩ := load pcbEip (by decide) (by decide)
  obtain ⟨esp, espLoaded⟩ := load pcbEsp (by decide) (by decide)
  refine ⟨eip, esp, _, ?_, rfl⟩
  simp only [systemStep, syscallJumpProcess, found, jumpTo, switched, resume, jumpUsermode, fpuLoaded,
    eipLoaded, espLoaded, Trap.ok_bind, Trap.pure_ok, if_pos notNull]

/-- Both control blocks are mapped by the parent, and one of the processes is jumped to. -/
theorem pool_jumped {registered second : System} {frame other : Nat}
    (twice : PoolTwice registered second frame other) :
    ∃ memory third fourth eip esp,
      systemStep second (.elsewhere memory second.machine.freeFramePaddr second.machine.usedFrames) =
        .ok (.done, third) ∧
      systemStep third (.jump 0x10000) = .ok (.resumed eip esp, fourth) ∧ SameRuns poolSystem third ∧
      fourth.runQueue = ⟨0, 0, 0⟩ ∧ fourth.started = [0xFF7FE000] ∧
      fourth.machine.currentPageDir = fourth.machine.cr3 ∧
      getProcess fourth.machine.processTree 2 = .ok 0xFF7FE020 ∧
      pageEntry fourth.machine.memory (fourth.machine.pageDirPaddr 0xFF7FE020) (pcbAddr / 4096) =
        0x31007 := by
  have runs := twice.runs
  obtain ⟨memory, isMemory⟩ : ∃ memory, memory = withBlocks second.machine.memory frame other := ⟨_, rfl⟩
  have mapped : ∀ root, root = frame ∨ root = other →
      pageEntry memory root (pcbAddr / 4096) = 0x31007 := by
    intro root here
    rw [isMemory]
    exact blocks_mapped twice.firstAligned twice.secondAligned twice.differ here
  obtain ⟨third, isThird⟩ : ∃ third : System, third = second.onMachine { second.machine with
      memory := memory
      freeFramePaddr := second.machine.freeFramePaddr
      usedFrames := second.machine.usedFrames } := ⟨_, rfl⟩
  have mapping : systemStep second (.elsewhere memory second.machine.freeFramePaddr
      second.machine.usedFrames) = .ok (.done, third) := by
    rw [isThird]
    rfl
  have thirdRuns : SameRuns poolSystem third := by
    rw [isThird]
    exact ⟨runs.runQueue, runs.next, runs.current, runs.started⟩
  obtain ⟨eip, esp, fourth, jumped, isFourth⟩ := @jump_returns third 0x10000 0xFF7FE000
    (isThird ▸ twice.current) (isThird ▸ twice.firstFound) (by decide)
    (isThird ▸ mapped _ (.inl twice.firstDir))
  refine ⟨memory, third, fourth, eip, esp, mapping, jumped, thirdRuns, ?_, ?_, ?_, ?_, ?_⟩
  · rw [isFourth]
    exact thirdRuns.runQueue
  · rw [isFourth]
    exact congrArg (0xFF7FE000 :: ·) thirdRuns.started
  · rw [isFourth]
    rfl
  · rw [isFourth, isThird]
    exact twice.secondFound
  · rw [isFourth, isThird]
    exact mapped _ (.inr twice.secondDir)

/-- Two processes are made, and both are jumped to: the first one is lost. -/
theorem run_queue_loses_process : ¬ ∀ (machine : Machine) (nil : Nat) (nodes : Nat → RbNode)
    (next : Nat → Nat) (calls : List SystemCall) (outcomes : List Outcome) (final : System),
    HeapReady machine nil →
      Allowed systemStep ProcessTable.LegalCall (processesInit machine nil nodes next) calls →
      run systemStep (processesInit machine nil nodes next) calls = .ok (outcomes, final) →
        QueueIntegrity final := by
  intro always
  obtain ⟨registered, frame, ledger, state⟩ := pool_registered
  obtain ⟨second, other, twice⟩ := pool_twice state
  obtain ⟨memory, third, fourth, eip, esp, mapping, firstJump, _, queue, started, current, found,
    mapped⟩ := pool_jumped twice
  obtain ⟨nextEip, nextEsp, final, secondJump, isFinal⟩ :=
    @jump_returns fourth 0x20000 0xFF7FE020 current found (by decide) mapped
  have ended : run systemStep final [] = .ok ([], final) := rfl
  have completed := run_cons_of_step state.step (run_cons_of_step twice.step (run_cons_of_step mapping
    (run_cons_of_step firstJump (run_cons_of_step secondJump ended))))
  have legal : Allowed systemStep ProcessTable.LegalCall poolSystem [.register, .register,
      .elsewhere memory second.machine.freeFramePaddr second.machine.usedFrames, .jump 0x10000,
      .jump 0x20000] := by
    apply allowed_of_always
    intro call member _
    simp only [List.mem_cons, List.not_mem_nil, or_false] at member
    rcases member with rfl | rfl | rfl | rfl | rfl <;> trivial
  have integrity := always poolMachine 0x100 _ _ _ _ final pool_machine_ready legal completed
  have empty : final.runQueue = ⟨0, 0, 0⟩ := by
    rw [isFinal]
    exact queue
  have running : final.current = 0xFF7FE020 := by rw [isFinal]
  have member : 0xFF7FE000 ∈ final.started := by
    rw [isFinal]
    exact List.mem_cons_of_mem _ (started ▸ List.mem_cons_self)
  rcases integrity.started _ member with ⟨runs, _⟩ | ⟨⟨nodes, chain, waits⟩, _⟩
  · rw [running] at runs
    exact absurd runs (by decide)
  · rw [empty] at chain
    rw [(chain_nil_iff chain).2 rfl] at waits
    cases waits

/-- Two processes are made, and one of them is started by a jump. -/
theorem run_queue_runs_boot : ∃ memory top used outcomes final,
    run systemStep poolSystem [.register, .register, .elsewhere memory top used, .jump 0x10000] =
      .ok (outcomes, final) ∧ QueueIntegrity final := by
  obtain ⟨registered, frame, ledger, state⟩ := pool_registered
  obtain ⟨second, other, twice⟩ := pool_twice state
  obtain ⟨memory, third, final, eip, esp, mapping, jumped, runs, _⟩ := pool_jumped twice
  have ended : run systemStep final [] = .ok ([], final) := rfl
  have completed := run_cons_of_step state.step (run_cons_of_step twice.step (run_cons_of_step mapping
    (run_cons_of_step jumped ended)))
  refine ⟨_, _, _, _, final, completed, run_queue_runs pool_machine_ready ?_ ?_ completed⟩
  · apply allowed_of_always
    intro call member _
    simp only [List.mem_cons, List.not_mem_nil, or_false] at member
    rcases member with rfl | rfl | rfl | rfl <;> trivial
  · refine allowed_cons_of_step trivial state.step (allowed_cons_of_step trivial twice.step
      (allowed_cons_of_step trivial mapping (allowed_cons_of_step ?_ jumped trivial)))
    intro process _
    refine .inr ⟨?_, .inr ?_⟩
    · rintro ⟨nodes, chain, waits⟩
      rw [runs.runQueue] at chain
      rw [(chain_nil_iff chain).2 rfl] at waits
      cases waits
    · rw [runs.started]
      exact List.not_mem_nil

end Boot

end ParadiseOS.RunQueue
