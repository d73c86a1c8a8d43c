import ParadiseOS.RbTreeDict
import ParadiseOS.StepRun

/-!
# Runs of the intrusive tree

From `rb_init`, every run of insertions of nodes that are not in the tree,
removals and searches returns, keeps the red-black invariant in the pointer
structure itself, and answers like a finite map from keys to node addresses.
-/

namespace ParadiseOS.RbTreeRuns

open MachineWord RbTreeModel RedBlackTree RbTreeShape RbTreeDict StepRun

set_option autoImplicit false

inductive TreeCall where
  | insert (node key : Nat)
  | remove (key : Nat)
  | find (key : Nat)

inductive Answer where
  | inserted (done : Bool)
  | node (ptr : Nat)
  deriving DecidableEq, Repr

def treeStep (tree : RbTree) : TreeCall → Except Trap (Answer × RbTree)
  | .insert node key => do
      let (done, next) ← rbInsert tree node key
      pure (.inserted done, next)
  | .remove key => do
      let (ptr, next) ← rbRemove tree key
      pure (.node ptr, next)
  | .find key => do
      let ptr ← rbFind tree key
      pure (.node ptr, tree)

/-- The nodes reachable from the root pointer. -/
inductive Reachable (tree : RbTree) : Nat → Prop where
  | root : tree.root ≠ tree.nil → Reachable tree tree.root
  | child {ptr : Nat} (dir : Dir) : Reachable tree ptr → tree.childOf ptr dir ≠ tree.nil →
      Reachable tree (tree.childOf ptr dir)

/-- The caller inserts nodes of its own that are not in the tree. -/
def LegalCall (tree : RbTree) : TreeCall → Prop
  | .insert node _ => node ≠ 0 ∧ node ≠ tree.nil ∧ node < 4294967296 ∧ ¬ Reachable tree node
  | .remove _ => True
  | .find _ => True

variable {tree : RbTree} {shape : Shape}

section Reach

/-- Every node of a tree is at the end of a path. -/
theorem exists_focus {addr : Nat} (member : addr ∈ addrs shape) :
    ∃ color left entry right path,
      shape = plug (.node color left entry right) path ∧ entry.addr = addr := by
  induction shape with
  | leaf => simp [addrs, RedBlackTree.Tree.items] at member
  | node color left entry right leftFocus rightFocus =>
      rcases mem_addrs_node.1 member with here | inLeft | inRight
      · exact ⟨color, left, entry, right, [], rfl, here.symm⟩
      · obtain ⟨lowColor, lowLeft, low, lowRight, path, same, found⟩ := leftFocus inLeft
        refine ⟨lowColor, lowLeft, low, lowRight, path ++ [⟨.left, color, entry, right⟩], ?_, found⟩
        rw [plug_append, ← same]
        rfl
      · obtain ⟨lowColor, lowLeft, low, lowRight, path, same, found⟩ := rightFocus inRight
        refine ⟨lowColor, lowLeft, low, lowRight, path ++ [⟨.right, color, entry, left⟩], ?_, found⟩
        rw [plug_append, ← same]
        rfl

theorem reachable_of_member (represents : Represents tree shape) {addr : Nat}
    (member : addr ∈ addrs shape) : Reachable tree addr := by
  have below : ∀ {parent : Nat} (subtree : Shape), Holds tree parent subtree →
      (∀ inner ∈ addrs subtree, inner ≠ tree.nil) →
      (subtree ≠ .leaf → Reachable tree (ptr tree.nil subtree)) →
      ∀ inner ∈ addrs subtree, Reachable tree inner := by
    intro parent subtree held notNil reached
    induction subtree generalizing parent with
    | leaf => simp [addrs, RedBlackTree.Tree.items]
    | node color left entry right leftReached rightReached =>
        obtain ⟨record, leftHeld, rightHeld⟩ := held
        have here : Reachable tree entry.addr := reached (by simp)
        have leftNil : ∀ inner ∈ addrs left, inner ≠ tree.nil :=
          fun inner inside => notNil inner (mem_addrs_node.2 (.inr (.inl inside)))
        have rightNil : ∀ inner ∈ addrs right, inner ≠ tree.nil :=
          fun inner inside => notNil inner (mem_addrs_node.2 (.inr (.inr inside)))
        intro inner inside
        rcases mem_addrs_node.1 inside with same | inLeft | inRight
        · exact same ▸ here
        · apply leftReached leftHeld leftNil _ inner inLeft
          intro nonempty
          have child : tree.childOf entry.addr .left = ptr tree.nil left := by
            rw [RbTree.childOf, record]
            rfl
          rw [← child]
          exact .child .left here (child ▸ leftNil _ (ptr_mem nonempty tree.nil))
        · apply rightReached rightHeld rightNil _ inner inRight
          intro nonempty
          have child : tree.childOf entry.addr .right = ptr tree.nil right := by
            rw [RbTree.childOf, record]
            rfl
          rw [← child]
          exact .child .right here (child ▸ rightNil _ (ptr_mem nonempty tree.nil))
  apply below shape represents.holds _ _ addr member
  · rintro inner inside rfl
    exact represents.sentinel inside
  · intro nonempty
    rw [← represents.root]
    apply Reachable.root
    rw [represents.root]
    intro same
    exact represents.sentinel (same ▸ ptr_mem nonempty tree.nil)

theorem member_of_reachable (represents : Represents tree shape) {addr : Nat}
    (reachable : Reachable tree addr) : addr ∈ addrs shape := by
  induction reachable with
  | root nonempty =>
      rw [represents.root] at nonempty ⊢
      apply ptr_mem
      rintro rfl
      exact nonempty rfl
  | @child parent dir _ inner member =>
      obtain ⟨color, left, entry, right, path, same, here⟩ := exists_focus member
      subst same
      obtain ⟨leftChild, rightChild⟩ := child_of_turn represents
      rw [← here] at inner ⊢
      rw [mem_addrs_plug, mem_addrs_node]
      cases dir with
      | left =>
          rw [leftChild] at inner ⊢
          have nonempty : left ≠ .leaf := by
            rintro rfl
            exact inner rfl
          exact .inl (.inr (.inl (ptr_mem nonempty tree.nil)))
      | right =>
          rw [rightChild] at inner ⊢
          have nonempty : right ≠ .leaf := by
            rintro rfl
            exact inner rfl
          exact .inl (.inr (.inr (ptr_mem nonempty tree.nil)))

end Reach

/-- The red-black invariant of the pointer structure, for the tree it represents. -/
structure RedBlackInvariant (tree : RbTree) (shape : Shape) : Prop where
  represents : Represents tree shape
  nodes : ∀ ptr, Reachable tree ptr ↔ ptr ∈ addrs shape
  ordered : shape.items.Pairwise fun low high => low.key < high.key
  rootBlack : tree.colorOf tree.root = .black
  nilBlack : tree.colorOf tree.nil = .black
  redsApart : shape.RedsApart
  blackCounts : ∃ total, ∀ blacks ∈ shape.blackCounts, blacks = total
  height : shape.height ≤ 2 * Nat.log2 (tree.count + 1)
  count : tree.count = shape.items.length


theorem red_black_of_well_formed (wellFormed : WellFormed tree shape) :
    RedBlackInvariant tree shape := by
  obtain ⟨total, balanced⟩ := wellFormed.balanced
  have rooted : Represents tree (plug shape []) := wellFormed.represents
  refine ⟨wellFormed.represents, fun _ => ⟨member_of_reachable wellFormed.represents,
    reachable_of_member wellFormed.represents⟩, wellFormed.sorted, ?_, wellFormed.represents.nilBlack,
    balanced_reds_apart balanced, ⟨total, balanced_black_counts balanced⟩, ?_, wellFormed.count⟩
  · rw [wellFormed.represents.root, color_of_focus rooted, balanced_color balanced]
  · rw [wellFormed.count]
    exact height_le_log balanced

/-- The abstract dictionary: which node is registered under a key. -/
abbrev Dictionary := Nat → Option Nat

/-- What the calls mean for the dictionary. -/
def dictStep (dict : Dictionary) : TreeCall → Answer × Dictionary
  | .insert node key =>
      match dict key with
      | some _ => (.inserted false, dict)
      | none => (.inserted true, fun other => if other = key then some node else dict other)
  | .remove key =>
      match dict key with
      | none => (.node 0, dict)
      | some node => (.node node, fun other => if other = key then none else dict other)
  | .find key => (.node ((dict key).getD 0), dict)

/-- The calls after which the tree differs. -/
def Changes (dict : Dictionary) : TreeCall → Prop
  | .insert _ key => dict key = none
  | .remove key => dict key ≠ none
  | .find _ => False

/-- The tree holds exactly the registrations of the dictionary. -/
def Registered (dict : Dictionary) (shape : Shape) : Prop :=
  ∀ key addr, dict key = some addr ↔ ⟨addr, key⟩ ∈ shape.items

def Related (tree : RbTree) (dict : Dictionary) : Prop :=
  ∃ shape, WellFormed tree shape ∧ Registered dict shape

/-- How a call is answered: as by the dictionary, and with every other key left alone. -/
structure Answered (tree : RbTree) (dict : Dictionary) (call : TreeCall) (next : RbTree) : Prop where
  answer : treeStep tree call = .ok ((dictStep dict call).1, next)
  unchanged : ¬ Changes dict call → next = tree
  keys : ∀ addr, (∀ key, call ≠ .insert addr key) → next.keyOf addr = tree.keyOf addr

section Steps

variable {dict : Dictionary} {call : TreeCall} {key : Nat}

theorem registered_none (registered : Registered dict shape)
    (absent : ∀ entry ∈ shape.items, entry.key ≠ key) : dict key = none := by
  cases found : dict key with
  | none => rfl
  | some addr => exact absurd rfl (absent _ ((registered key addr).1 found))

theorem insert_answered {node : Nat} (related : Related tree dict)
    (legal : LegalCall tree (.insert node key)) :
    ∃ next, Answered tree dict (.insert node key) next ∧
      Related next (dictStep dict (.insert node key)).2 ∧ next.nil = tree.nil := by
  obtain ⟨shape, wellFormed, registered⟩ := related
  obtain ⟨nonzero, notNil, word, unreachable⟩ := legal
  have fresh : Fresh tree shape node := ⟨nonzero, notNil,
    fun member => unreachable (reachable_of_member wellFormed.represents member), word⟩
  rcases rb_insert_ok key wellFormed fresh with ⟨⟨entry, member, same⟩, finds⟩ |
    ⟨grown, left, right, items, spread, below, above, inserts⟩
  · have returned := finds tree wellFormed
    have found : dict key = some entry.addr := (registered key entry.addr).2 (same ▸ member)
    refine ⟨tree, ⟨?_, fun _ => rfl, fun _ _ => rfl⟩, ?_, rfl⟩
    · rw [treeStep, returned, Trap.ok_bind, dictStep, found]
      rfl
    · rw [dictStep, found]
      exact ⟨shape, wellFormed, registered⟩
  · obtain ⟨next, returned, grownFormed, sameNil, keys⟩ := inserts tree wellFormed fresh
    have absent : ∀ entry ∈ shape.items, entry.key ≠ key := by
      intro entry member
      rw [items, List.mem_append] at member
      rcases member with low | high
      · exact Nat.ne_of_lt (below entry low)
      · exact Nat.ne_of_gt (above entry high)
    have free := registered_none registered absent
    refine ⟨next, ⟨?_, fun same => absurd free same, ?_⟩, ?_, sameNil⟩
    · rw [treeStep, returned, Trap.ok_bind, dictStep, free]
      rfl
    · intro addr other
      exact keys addr fun same => other key (same ▸ rfl)
    · rw [dictStep, free]
      refine ⟨grown, grownFormed, ?_⟩
      intro otherKey addr
      dsimp only
      rw [spread, List.mem_append, List.mem_cons]
      have old := registered otherKey addr
      rw [items, List.mem_append] at old
      by_cases same : otherKey = key
      · rw [if_pos same]
        have gone : ¬ (⟨addr, otherKey⟩ ∈ left ∨ ⟨addr, otherKey⟩ ∈ right) := by
          rw [← List.mem_append, ← items]
          exact fun member => absent _ member same
        constructor
        · intro here
          rw [Option.some.injEq] at here
          exact .inr (.inl (by rw [here, same]))
        · rintro (low | here | high)
          · exact absurd (.inl low) gone
          · rw [Entry.mk.injEq] at here
            rw [here.1]
          · exact absurd (.inr high) gone
      · rw [if_neg same, old]
        have other : (⟨addr, otherKey⟩ : Entry) ≠ ⟨node, key⟩ := by
          intro equal
          rw [Entry.mk.injEq] at equal
          exact same equal.2
        tauto

theorem remove_answered (related : Related tree dict) :
    ∃ next, Answered tree dict (.remove key) next ∧
      Related next (dictStep dict (.remove key)).2 ∧ next.nil = tree.nil := by
  obtain ⟨shape, wellFormed, registered⟩ := related
  rcases rb_remove_ok key wellFormed with ⟨absent, finds⟩ |
    ⟨shrunk, entry, left, right, same, items, rest, removes⟩
  · have returned := finds tree wellFormed
    have free := registered_none registered absent
    refine ⟨tree, ⟨?_, fun _ => rfl, fun _ _ => rfl⟩, ?_, rfl⟩
    · rw [treeStep, returned, Trap.ok_bind, dictStep, free]
      rfl
    · rw [dictStep, free]
      exact ⟨shape, wellFormed, registered⟩
  · obtain ⟨next, returned, shrunkFormed, sameNil, keys⟩ := removes tree wellFormed
    have found : dict key = some entry.addr := by
      rw [registered, items, ← same]
      exact List.mem_append_right _ List.mem_cons_self
    refine ⟨next, ⟨?_, fun unchanged => absurd found (not_not.1 unchanged ▸ nofun), fun addr _ => keys addr⟩, ?_,
      sameNil⟩
    · rw [treeStep, returned, Trap.ok_bind, dictStep, found]
      rfl
    · rw [dictStep, found]
      refine ⟨shrunk, shrunkFormed, ?_⟩
      intro otherKey addr
      have sorted := wellFormed.sorted
      rw [items, List.pairwise_append, List.pairwise_cons] at sorted
      obtain ⟨_, ⟨above, _⟩, across⟩ := sorted
      have old := registered otherKey addr
      rw [items, List.mem_append, List.mem_cons] at old
      dsimp only
      rw [rest, List.mem_append]
      by_cases equal : otherKey = key
      · rw [if_pos equal]
        simp only [reduceCtorEq, false_iff, not_or]
        refine ⟨fun low => ?_, fun high => ?_⟩
        · have less := across _ low entry List.mem_cons_self
          simp only at less
          omega
        · have more := above _ high
          simp only at more
          omega
      · rw [if_neg equal, old]
        have other : (⟨addr, otherKey⟩ : Entry) ≠ entry := by
          rintro rfl
          exact equal same
        tauto

theorem find_answer (related : Related tree dict) (key : Nat) :
    rbFind tree key = .ok ((dict key).getD 0) := by
  obtain ⟨shape, wellFormed, registered⟩ := related
  rcases rb_find_ok key wellFormed with ⟨absent, returned⟩ | ⟨entry, member, same, returned⟩
  · rw [returned, registered_none registered absent, Option.getD_none]
  · have found : dict key = some entry.addr := (registered key entry.addr).2 (same ▸ member)
    rw [returned, found, Option.getD_some]

theorem tree_step_answered (related : Related tree dict) (legal : LegalCall tree call) :
    ∃ next, Answered tree dict call next ∧ Related next (dictStep dict call).2 ∧
      next.nil = tree.nil := by
  cases call with
  | insert node key => exact insert_answered related legal
  | remove key => exact remove_answered related
  | find key =>
      refine ⟨tree, ⟨?_, fun _ => rfl, fun _ _ => rfl⟩, related, rfl⟩
      rw [treeStep, find_answer related key, Trap.ok_bind]
      rfl

end Steps

theorem related_init (nil : Nat) (memory : Nat → RbNode) :
    Related (rbInit nil memory) fun _ => none := by
  refine ⟨.leaf, ⟨⟨rfl, trivial, List.nodup_nil, ?_, ?_, ?_⟩, List.Pairwise.nil, ⟨0, .leaf⟩, rfl, ?_⟩, ?_⟩
  · simp [addrs, RedBlackTree.Tree.items]
  · simp [addrs, RedBlackTree.Tree.items]
  · exact congrArg RbNode.color (node_set_color_self _ _)
  · simp [addrs, RedBlackTree.Tree.items]
  · simp [Registered, RedBlackTree.Tree.items]

section Runs

variable {nil : Nat} {memory : Nat → RbNode} {calls : List TreeCall}

/-- Every legal run from `rb_init` returns, answers like the dictionary and ends in a
state related to it. -/
theorem runs_related (legal : Allowed treeStep LegalCall (rbInit nil memory) calls) :
    ∃ final, run treeStep (rbInit nil memory) calls =
        .ok ((observe dictStep (fun _ => none) calls).1, final) ∧
      Related final (observe dictStep (fun _ => none) calls).2 := by
  apply run_simulates dictStep Related _ calls _ _ (related_init nil memory) legal
  intro state dict call related allowed
  obtain ⟨next, answered, relatedNext, _⟩ := tree_step_answered related allowed
  exact ⟨next, answered.answer, relatedNext⟩

theorem red_black_runs (legal : Allowed treeStep LegalCall (rbInit nil memory) calls) :
    ∃ observations final shape,
      run treeStep (rbInit nil memory) calls = .ok (observations, final) ∧
      RedBlackInvariant final shape := by
  obtain ⟨final, returned, shape, wellFormed, _⟩ := runs_related legal
  exact ⟨_, final, shape, returned, red_black_of_well_formed wellFormed⟩

/-- `offsetof(Process, rb_node)`. -/
def rbNodeOffset : Nat := 8

/-- `get_process`: the object around the node found under `aid << 16`. -/
def getProcess (tree : RbTree) (aid : Nat) : Except Trap Nat := do
  let node ← rbFind tree (u32 (aid <<< 16))
  if node ≠ 0 then pure (sub32 node rbNodeOffset) else pure 0

/-- What a state of the tree offers when it stands for the dictionary. -/
structure Serves (tree : RbTree) (dict : Dictionary) : Prop where
  find : ∀ key, rbFind tree key = .ok ((dict key).getD 0)
  calls : ∀ call, LegalCall tree call → ∃ next, Answered tree dict call next
  process : ∀ aid process, dict (u32 (aid <<< 16)) = some (process + rbNodeOffset) →
    getProcess tree aid = .ok process
  noProcess : ∀ aid, dict (u32 (aid <<< 16)) = none → getProcess tree aid = .ok 0

theorem serves_of_related {tree : RbTree} {dict : Dictionary} (related : Related tree dict) :
    Serves tree dict where
  find := find_answer related
  calls call legal := by
    obtain ⟨next, answered, _⟩ := tree_step_answered related legal
    exact ⟨next, answered⟩
  process aid process found := by
    obtain ⟨shape, wellFormed, registered⟩ := id related
    have member := List.mem_map_of_mem (f := Entry.addr) ((registered _ _).1 found)
    have word := wellFormed.words _ member
    rw [getProcess, find_answer related, found, Trap.ok_bind, Option.getD_some,
      if_pos (by rw [rbNodeOffset]; omega), sub32_of_le (Nat.le_add_left _ _) word,
      Nat.add_sub_cancel]
    rfl
  noProcess aid free := by
    rw [getProcess, find_answer related, free, Trap.ok_bind]
    rfl

section Registered

variable {tree next : RbTree} {dict : Dictionary} {node key other : Nat}

theorem related_reachable (related : Related tree dict) :
    Reachable tree node ↔ ∃ key, dict key = some node := by
  obtain ⟨shape, wellFormed, registered⟩ := related
  constructor
  · intro reachable
    obtain ⟨⟨addr, key⟩, member, rfl⟩ :=
      List.mem_map.1 (member_of_reachable wellFormed.represents reachable)
    exact ⟨key, (registered key addr).2 member⟩
  · rintro ⟨key, found⟩
    exact reachable_of_member wellFormed.represents
      (List.mem_map_of_mem (f := Entry.addr) ((registered key node).1 found))

/-- A node is registered under one key only. -/
theorem related_injective (related : Related tree dict) (first : dict key = some node)
    (second : dict other = some node) : key = other := by
  obtain ⟨shape, wellFormed, registered⟩ := related
  have same := List.inj_on_of_nodup_map wellFormed.represents.distinct
    ((registered key node).1 first) ((registered other node).1 second) rfl
  exact congrArg Entry.key same

theorem insert_related {done : Bool} (related : Related tree dict)
    (legal : LegalCall tree (.insert node key)) (free : dict key = none)
    (inserted : rbInsert tree node key = .ok (done, next)) :
    Related next (fun other => if other = key then some node else dict other) ∧ next.nil = tree.nil := by
  obtain ⟨after, answered, kept, nil⟩ := tree_step_answered related legal
  have answer := answered.answer
  simp only [treeStep, inserted, Trap.ok_bind, Trap.pure_ok, Except.ok.injEq, Prod.mk.injEq] at answer
  simp only [dictStep, free] at kept
  exact answer.2 ▸ ⟨kept, nil⟩

theorem remove_related {removed : Nat} (related : Related tree dict)
    (completed : rbRemove tree key = .ok (removed, next)) :
    Related next (fun other => if other = key then none else dict other) ∧ next.nil = tree.nil := by
  have legal : LegalCall tree (.remove key) := trivial
  obtain ⟨after, answered, kept, nil⟩ := tree_step_answered related legal
  have answer := answered.answer
  simp only [treeStep, completed, Trap.ok_bind, Trap.pure_ok, Except.ok.injEq, Prod.mk.injEq] at answer
  rw [answer.2]
  refine ⟨?_, nil⟩
  cases found : dict key with
  | none =>
      simp only [dictStep, found] at kept
      have same : (fun other => if other = key then none else dict other) = dict := by
        funext other
        split_ifs with equal
        · rw [equal, found]
        · rfl
      rw [same]
      exact kept
  | some node =>
      simp only [dictStep, found] at kept
      exact kept

end Registered

theorem intrusive_dictionary_runs (legal : Allowed treeStep LegalCall (rbInit nil memory) calls) :
    ∃ final, run treeStep (rbInit nil memory) calls =
        .ok ((observe dictStep (fun _ => none) calls).1, final) ∧
      Serves final (observe dictStep (fun _ => none) calls).2 := by
  obtain ⟨final, returned, related⟩ := runs_related legal
  exact ⟨final, returned, serves_of_related related⟩

/-- The nodes that a list of calls inserts. -/
def inserted : List TreeCall → List Nat
  | [] => []
  | .insert node _ :: calls => node :: inserted calls
  | .remove _ :: calls => inserted calls
  | .find _ :: calls => inserted calls

/-- A node that a caller may insert, registered under no key. -/
def Unused (nil : Nat) (dict : Dictionary) (node : Nat) : Prop :=
  node ≠ 0 ∧ node ≠ nil ∧ node < 4294967296 ∧ ∀ key, dict key ≠ some node

/-- Only an insertion registers a node, and only its own. -/
theorem dict_step_registered {dict : Dictionary} {call : TreeCall} {key node : Nat}
    (found : (dictStep dict call).2 key = some node) : dict key = some node ∨ ∃ new, call = .insert node new := by
  cases call with
  | insert other new =>
      cases taken : dict new with
      | some _ =>
          simp only [dictStep, taken] at found
          exact .inl found
      | none =>
          simp only [dictStep, taken] at found
          split_ifs at found with same
          · cases found
            exact .inr ⟨new, rfl⟩
          · exact .inl found
  | remove old =>
      cases taken : dict old with
      | none =>
          simp only [dictStep, taken] at found
          exact .inl found
      | some _ =>
          simp only [dictStep, taken] at found
          split_ifs at found with same
          exact .inl found
  | find _ => exact .inl found

/-- A run that inserts every node once is legal. -/
theorem allowed_of_distinct {tree : RbTree} {dict : Dictionary} (related : Related tree dict)
    (unused : ∀ node ∈ inserted calls, Unused tree.nil dict node) (distinct : (inserted calls).Nodup) :
    Allowed treeStep LegalCall tree calls := by
  induction calls generalizing tree dict with
  | nil => trivial
  | cons call calls ih =>
      have later : ∀ node ∈ inserted calls, node ∈ inserted (call :: calls) ∧ ∀ new, call ≠ .insert node new := by
        intro node member
        cases call with
        | insert other key =>
            have apart := (List.nodup_cons.1 distinct).1
            refine ⟨List.mem_cons_of_mem _ member, ?_⟩
            rintro new same
            cases same
            exact apart member
        | remove key => exact ⟨member, fun _ same => TreeCall.noConfusion same⟩
        | find key => exact ⟨member, fun _ same => TreeCall.noConfusion same⟩
      have rest : (inserted calls).Nodup := by
        cases call with
        | insert other key => exact (List.nodup_cons.1 distinct).2
        | remove key => exact distinct
        | find key => exact distinct
      have legal : LegalCall tree call := by
        cases call with
        | insert node key =>
            obtain ⟨nonzero, notNil, word, absent⟩ := unused node List.mem_cons_self
            refine ⟨nonzero, notNil, word, ?_⟩
            rw [related_reachable related]
            rintro ⟨old, found⟩
            exact absent old found
        | remove key => trivial
        | find key => trivial
      obtain ⟨next, answered, relatedNext, sameNil⟩ := tree_step_answered related legal
      apply allowed_cons_of_step legal answered.answer
      apply ih relatedNext _ rest
      intro node member
      obtain ⟨here, notNow⟩ := later node member
      obtain ⟨nonzero, notNil, word, absent⟩ := unused node here
      refine ⟨nonzero, sameNil ▸ notNil, word, fun key found => ?_⟩
      rcases dict_step_registered found with before | ⟨new, now⟩
      · exact absent key before
      · exact notNow new now

/-- Five processes are registered, one aid a second time, and the root with its two children is removed. -/
def registryRun : List TreeCall :=
  [.insert 0x1000 0x10000, .insert 0x2000 0x20000, .insert 0x3000 0x30000, .insert 0x4000 0x40000,
    .insert 0x5000 0x40000, .insert 0x6000 0x50000, .remove 0x20000, .find 0x30000, .find 0x20000]

def blankMemory : Nat → RbNode := fun _ => ⟨0, 0, 0, 0, .red⟩

theorem registry_allowed : Allowed treeStep LegalCall (rbInit 8 blankMemory) registryRun := by
  apply allowed_of_distinct (related_init 8 blankMemory)
  · have words : ∀ node ∈ inserted registryRun, node ≠ 0 ∧ node ≠ 8 ∧ node < 4294967296 := by decide
    intro node member
    obtain ⟨nonzero, notNil, word⟩ := words node member
    refine ⟨nonzero, notNil, word, ?_⟩
    intro _ found
    cases found
  · decide

theorem red_black_runs_registry : ∃ observations final shape,
    run treeStep (rbInit 8 blankMemory) registryRun = .ok (observations, final) ∧
    RedBlackInvariant final shape :=
  red_black_runs registry_allowed

theorem intrusive_dictionary_runs_registry : ∃ final,
    run treeStep (rbInit 8 blankMemory) registryRun =
      .ok ([.inserted true, .inserted true, .inserted true, .inserted true, .inserted false, .inserted true,
        .node 0x2000, .node 0x3000, .node 0], final) ∧
    Serves final (observe dictStep (fun _ => none) registryRun).2 :=
  intrusive_dictionary_runs registry_allowed

end Runs

end ParadiseOS.RbTreeRuns
