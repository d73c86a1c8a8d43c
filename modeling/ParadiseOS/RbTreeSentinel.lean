import ParadiseOS.RbTreeRuns

/-!
# The shared sentinel in the fix-up loops

Every empty place of the tree is the one record `nil`, whose parent is whatever the
last operation left there. The loops read that parent, so that what they do with it is
stated at every loop head they reach.
-/

namespace ParadiseOS.RbTreeSentinel

open MachineWord RbTreeModel RedBlackTree RbTreeShape RbTreeSteps RbTreeFixes RbTreeUnlink RbTreeDict
open RbTreeRuns

set_option autoImplicit false

/-- The loop heads that repeated rounds reach while the guard holds. -/
inductive Heads (guard : RbTree → Nat → Prop) (round : RbTree → Nat → Except Trap (RbTree × Nat))
    (tree : RbTree) (node : Nat) : RbTree → Nat → Prop where
  | first : Heads guard round tree node tree node
  | next {middle after : RbTree} {here there : Nat} : Heads guard round tree node middle here →
      guard middle here → round middle here = .ok (after, there) →
      Heads guard round tree node after there

/-- The guard of the loop of `insert_fix`. -/
def InsertGuard (tree : RbTree) (node : Nat) : Prop := tree.colorOf (tree.parentOf node) = .red

/-- The guard of the loop of `remove_fix`. -/
def RemoveGuard (tree : RbTree) (node : Nat) : Prop :=
  node ≠ tree.root ∧ tree.colorOf node = .black

/-- A round of `insert_fix` finds a parent and a grandparent, also after the inner turn. -/
structure InsertRoundSafe (tree : RbTree) (node : Nat) : Prop where
  parent : tree.parentOf node ≠ 0
  grandparent : tree.parentOf (tree.parentOf node) ≠ 0
  turned : ∀ side, direction tree (tree.parentOf node) = .ok side →
    tree.colorOf (tree.childOf (tree.parentOf (tree.parentOf node)) side.inv) = .black →
    ∃ next turn, innerTurn tree node side.inv = .ok (next, turn) ∧ next.parentOf turn ≠ 0 ∧
      next.parentOf (next.parentOf turn) ≠ 0
  returns : ∃ next after, insertRound tree node = .ok (next, after)

/-- The parent and the sibling that a part of a round of `remove_fix` leaves. -/
def SiblingKept (node : Nat) (pair : RbTree × Nat) : Prop :=
  pair.1.parentOf node ≠ 0 ∧ pair.2 ≠ pair.1.nil

/-- A round of `remove_fix` on the given side: its node hangs on that side of a node of the
tree and on no other, and no sibling is the sentinel. -/
structure RemoveRoundSafe (tree : RbTree) (node : Nat) (side : Dir) : Prop where
  parent : tree.parentOf node ≠ 0
  inTree : Reachable tree (tree.parentOf node)
  turned : direction tree node = .ok side
  here : tree.childOf (tree.parentOf node) side = node
  notThere : tree.childOf (tree.parentOf node) side.inv ≠ node
  sibling : tree.childOf (tree.parentOf node) side.inv ≠ tree.nil
  blackened : ∃ pair, blackSibling tree node side.inv = .ok pair ∧ SiblingKept node pair ∧
    (¬ (pair.1.colorOf (pair.1.childOf pair.2 .left) = .black ∧
        pair.1.colorOf (pair.1.childOf pair.2 .right) = .black) →
      ∃ last, redFarChild pair.1 node side.inv pair.2 = .ok last ∧ SiblingKept node last)
  returns : ∃ next after, removeRound tree node = .ok (next, after)

variable {tree next : RbTree} {focus : Shape} {path : Path} {node count key : Nat}

section Insertion

/-- What holds at the head of the loop of `insert_fix`: the node is a red subtree below a
path that takes a black one. -/
def RedFocus (tree : RbTree) (node : Nat) : Prop :=
  ∃ focus path count, Represents tree (plug focus path) ∧ node = ptr tree.nil focus ∧
    Balanced focus .red count ∧ Accepts path .black count

theorem nonzero_of_focus (represents : Represents tree (plug focus path)) (inner : focus ≠ .leaf) :
    ptr tree.nil focus ≠ 0 :=
  represents.nonzero _ (mem_addrs_plug.2 (.inl (ptr_mem inner tree.nil)))

/-- The frames above a red focus with a red parent. -/
theorem frames_of_guard (represents : Represents tree (plug focus path))
    (red : Balanced focus .red count) (accepts : Accepts path .black count)
    (guard : InsertGuard tree (ptr tree.nil focus)) :
    ∃ dir item other grandDir grandItem uncle uncleColor above,
      path = ⟨dir, .red, item, other⟩ :: ⟨grandDir, .black, grandItem, uncle⟩ :: above ∧
      Balanced other .black count ∧ Balanced uncle uncleColor count ∧
      Accepts above .black (count + 1) := by
  have inner := ne_leaf_of_red (balanced_color red)
  rw [InsertGuard, parent_of_focus inner represents] at guard
  cases accepts with
  | top =>
      rw [top, represents.nilBlack] at guard
      cases guard
  | @black dir item other path _ _ _ _ _ =>
      have whole : Represents tree (plug (branch dir .black focus item other) path) := represents
      rw [top, color_of_branch whole] at guard
      cases guard
  | red otherBalanced above =>
      cases above with
      | black uncleBalanced above =>
          exact ⟨_, _, _, _, _, _, _, _, rfl, otherBalanced, uncleBalanced, above⟩

theorem insert_round_safe (position : RedFocus tree node) (guard : InsertGuard tree node) :
    InsertRoundSafe tree node ∧
      ∀ next after, insertRound tree node = .ok (next, after) → RedFocus next after := by
  obtain ⟨focus, path, count, represents, rfl, red, accepts⟩ := position
  obtain ⟨dir, item, other, grandDir, grandItem, uncle, uncleColor, above, rfl, otherBalanced,
    uncleBalanced, takes⟩ := frames_of_guard represents red accepts guard
  have inner := ne_leaf_of_red (balanced_color red)
  obtain ⟨parent, grand, _, _, side, reached, uncleRead⟩ := insert_round inner represents
  obtain ⟨higher, upper, total, _, redder, accepted, _, step⟩ :=
    @insert_round_ok _ above _ dir grandDir item grandItem _ _ _ red otherBalanced uncleBalanced takes
  obtain ⟨next, round, moved, _⟩ := step tree represents
  have middleFocus : Represents tree (plug (branch dir .red focus item other)
      (⟨grandDir, .black, grandItem, uncle⟩ :: above)) := represents
  have grandFocus : Represents tree
      (plug (branch grandDir .black (branch dir .red focus item other) grandItem uncle) above) :=
    middleFocus
  have itemNonzero := nonzero_of_focus middleFocus (branch_ne_leaf _ _ _ _ _)
  have grandNonzero := nonzero_of_focus grandFocus (branch_ne_leaf _ _ _ _ _)
  rw [ptr_branch] at itemNonzero grandNonzero
  refine ⟨⟨parent ▸ itemNonzero, ?_, ?_, next, _, round⟩, ?_⟩
  · rw [parent, grand]
    exact grandNonzero
  · intro turn turned _
    rw [parent, side, Except.ok.injEq] at turned
    subst turned
    obtain ⟨near, low, middle, nearBalanced, _, _, turning⟩ :=
      @inner_turn_ok _ above _ dir grandDir item _ red otherBalanced
    obtain ⟨last, returned, whole, _⟩ := turning tree grandItem uncle represents
    have lowFocus : Represents last (plug (branch grandDir .red near low middle)
        (⟨grandDir, .black, grandItem, uncle⟩ :: above)) := whole
    have nearFocus : Represents last (plug near (⟨grandDir, .red, low, middle⟩ ::
        ⟨grandDir, .black, grandItem, uncle⟩ :: above)) := whole
    have up := parent_of_focus (ne_leaf_of_red (balanced_color nearBalanced)) nearFocus
    have lowNonzero := nonzero_of_focus lowFocus (branch_ne_leaf _ _ _ _ _)
    have highNonzero := nonzero_of_focus whole (branch_ne_leaf _ _ _ _ _)
    rw [ptr_branch] at lowNonzero highNonzero
    refine ⟨last, _, returned, up ▸ lowNonzero, ?_⟩
    rw [up, top, parent_of_branch lowFocus]
    exact highNonzero
  · intro other after returned
    rw [round, Except.ok.injEq, Prod.mk.injEq] at returned
    obtain ⟨rfl, rfl⟩ := returned
    exact ⟨higher, upper, total, moved, rfl, redder, accepted⟩

/-- The parent that the guard of `insert_fix` reads is a node or the sentinel. -/
theorem parent_nonzero (position : RedFocus tree node) :
    tree.parentOf node = tree.nil ∨ tree.parentOf node ≠ 0 := by
  obtain ⟨focus, path, count, represents, rfl, red, _⟩ := position
  rw [parent_of_focus (ne_leaf_of_red (balanced_color red)) represents]
  cases path with
  | nil => exact .inl rfl
  | cons frame path =>
      right
      apply represents.nonzero
      rw [mem_addrs_plug, path_addrs_cons]
      exact .inr List.mem_cons_self

end Insertion

section Removal

variable {frame : RedBlackTree.Frame Entry}

theorem sibling_ne_nil {dir : Dir} {color : Color} {item : Entry} {other : Shape}
    (represents : Represents tree (plug focus (⟨dir, color, item, other⟩ :: path)))
    (inner : other ≠ .leaf) : ptr tree.nil other ≠ tree.nil := by
  rw [plug_cons, plug_turn] at represents
  exact focus_ne_nil represents inner

theorem frame_nonzero (represents : Represents tree (plug focus (frame :: path))) :
    frame.item.addr ≠ 0 := by
  apply represents.nonzero
  rw [mem_addrs_plug, path_addrs_cons]
  exact .inr List.mem_cons_self

/-- The rest of a round with a black sibling keeps clear of the sentinel. -/
theorem far_child_safe {dir : Dir} {color : Color} {item : Entry} {sibling : Shape}
    (black : Balanced sibling .black (count + 1))
    (represents : Represents tree (plug focus (⟨dir, color, item, sibling⟩ :: path)))
    (parent : tree.parentOf (ptr tree.nil focus) = item.addr) :
    SiblingKept (ptr tree.nil focus) (tree, ptr tree.nil sibling) ∧
      (¬ (tree.colorOf (tree.childOf (ptr tree.nil sibling) .left) = .black ∧
          tree.colorOf (tree.childOf (ptr tree.nil sibling) .right) = .black) →
        ∃ last, redFarChild tree (ptr tree.nil focus) dir.inv (ptr tree.nil sibling) = .ok last ∧
          SiblingKept (ptr tree.nil focus) last) := by
  have inner : sibling ≠ .leaf := by
    rintro rfl
    cases black
  have kept : SiblingKept (ptr tree.nil focus) (tree, ptr tree.nil sibling) :=
    ⟨parent ▸ frame_nonzero represents, sibling_ne_nil represents inner⟩
  refine ⟨kept, ?_⟩
  intro redChild
  obtain ⟨near, low, far, same⟩ := exists_branch dir inner
  rw [balanced_color black] at same
  subst same
  obtain ⟨nearColor, farColor, below, _, _, nearBalanced, farBalanced⟩ := balanced_black_branch black
  rw [ptr_branch] at redChild kept ⊢
  rw [both_black_iff represents] at redChild
  cases farColor with
  | red =>
      obtain ⟨_, farChild, _, farRead⟩ := sibling_children represents
      rw [balanced_color farBalanced] at farRead
      refine ⟨(tree, low.addr), ?_, kept⟩
      rw [redFarChild, farChild, if_neg (by rw [farRead]; simp), Trap.pure_ok]
  | black =>
      have farBlack := balanced_color farBalanced
      have nearRed : near.color = .red := by
        cases nearColor with
        | red => exact balanced_color nearBalanced
        | black => exact absurd ⟨balanced_color nearBalanced, farBlack⟩ redChild
      obtain ⟨first, newLow, second, same⟩ := exists_branch dir (ne_leaf_of_red nearRed)
      rw [nearRed] at same
      subst same
      obtain ⟨next, brought, moved, keptTurn⟩ := red_far_child_near farBlack represents parent
      have parentEnd := parent_kept keptTurn moved parent
      have siblingEnd := sibling_ne_nil moved (branch_ne_leaf _ _ _ _ _)
      rw [ptr_branch] at siblingEnd
      rw [keptTurn.nil] at parentEnd
      exact ⟨_, brought, parentEnd ▸ frame_nonzero moved, siblingEnd⟩

/-- The position that a sentinel or a node takes in the loop of `remove_fix`. -/
def ShortFocus (tree : RbTree) (node : Nat) : Prop :=
  ∃ focus path count, Deficit tree focus path count ∧ node = ptr tree.nil focus

theorem frame_of_guard (deficit : Deficit tree focus path count)
    (guard : RemoveGuard tree (ptr tree.nil focus)) :
    focus.color = .black ∧ ∃ frame above, path = frame :: above := by
  refine ⟨(color_of_focus deficit.represents).symm.trans guard.2, ?_⟩
  cases path with
  | nil =>
      have root := deficit.represents.root
      rw [plug_nil] at root
      exact absurd root.symm guard.1
  | cons frame above => exact ⟨frame, above, rfl⟩

theorem remove_round_safe (position : ShortFocus tree node) (guard : RemoveGuard tree node) :
    (∃ side, RemoveRoundSafe tree node side) ∧
      ∀ next after, removeRound tree node = .ok (next, after) → ShortFocus next after := by
  obtain ⟨focus, path, count, deficit, rfl⟩ := position
  obtain ⟨focusBlack, ⟨dir, color, item, other⟩, above, rfl⟩ := frame_of_guard deficit guard
  have represents := deficit.represents
  have parent : tree.parentOf (ptr tree.nil focus) = item.addr := deficit.parent
  obtain ⟨otherColor, otherBalanced⟩ : ∃ color, Balanced other color (count + 1) := by
    cases deficit.accepts with
    | red other _ => exact ⟨_, other⟩
    | black other _ => exact ⟨_, other⟩
  have otherInner : other ≠ .leaf := by
    rintro rfl
    cases otherBalanced
  have whole : Represents tree (plug (branch dir color focus item other) above) := represents
  have near := near_of_branch whole
  have far := far_of_branch whole
  have turned := direction_of_focus represents parent (.inr otherInner)
  have nonzero : item.addr ≠ 0 := frame_nonzero represents
  have siblingReal : ptr tree.nil other ≠ tree.nil := sibling_ne_nil represents otherInner
  have apart : ptr tree.nil other ≠ ptr tree.nil focus := by
    have absent := focus_not_above represents
    rw [path_addrs_cons, List.mem_cons, List.mem_append, not_or, not_or] at absent
    exact fun same => absent.2.1 (same ▸ ptr_mem otherInner tree.nil)
  have inTree : Reachable tree item.addr := by
    apply reachable_of_member represents
    rw [mem_addrs_plug, path_addrs_cons]
    exact .inr List.mem_cons_self
  have blackened : ∃ pair, blackSibling tree (ptr tree.nil focus) dir.inv = .ok pair ∧
      SiblingKept (ptr tree.nil focus) pair ∧
      (¬ (pair.1.colorOf (pair.1.childOf pair.2 .left) = .black ∧
          pair.1.colorOf (pair.1.childOf pair.2 .right) = .black) →
        ∃ last, redFarChild pair.1 (ptr tree.nil focus) dir.inv pair.2 = .ok last ∧
          SiblingKept (ptr tree.nil focus) last) := by
    cases otherColor with
    | black =>
        exact ⟨_, black_sibling_black (balanced_color otherBalanced) represents parent,
          far_child_safe otherBalanced represents parent⟩
    | red =>
        obtain ⟨nearTree, low, farTree, same⟩ := exists_branch dir otherInner
        rw [balanced_color otherBalanced] at same
        subst same
        obtain ⟨_, nearBalanced, _⟩ := balanced_red_branch otherBalanced
        have itemBlack : color = .black := by
          cases deficit.accepts with
          | red black _ => cases balanced_color black ▸ balanced_color otherBalanced
          | black _ _ => rfl
        subst itemBlack
        obtain ⟨middle, reached, moved, kept⟩ := black_sibling_red represents parent
        have parentEnd := parent_kept kept moved parent
        have safe := far_child_safe nearBalanced moved parentEnd
        rw [kept.nil] at safe reached
        exact ⟨_, reached, safe⟩
  obtain ⟨higher, upper, total, _, _, _, _, step⟩ :=
    remove_round_ok focusBlack deficit.short deficit.accepts
  obtain ⟨next, returned, moved, _⟩ := step tree deficit
  refine ⟨⟨dir, ?_⟩, ?_⟩
  · refine ⟨parent ▸ nonzero, parent ▸ inTree, turned, ?_, ?_, ?_, blackened, next, _, returned⟩
    · rw [parent, near]
    · rw [parent, far]
      exact apart
    · rw [parent, far]
      exact siblingReal
  · intro last after same
    rw [returned, Except.ok.injEq, Prod.mk.injEq] at same
    obtain ⟨rfl, rfl⟩ := same
    exact ⟨higher, upper, total, moved, rfl⟩

end Removal

section Starts

variable {shape : Shape} {last : RbTree} {here : Nat}

/-- What every round keeps holds at every head. -/
theorem heads_keep {guard position : RbTree → Nat → Prop}
    {round : RbTree → Nat → Except Trap (RbTree × Nat)} (start : position tree node)
    (step : ∀ middle here, position middle here → guard middle here →
      ∀ next after, round middle here = .ok (next, after) → position next after)
    (heads : Heads guard round tree node last here) : position last here := by
  induction heads with
  | first => exact start
  | next _ continues returned ih => exact step _ _ ih continues _ _ returned

/-- The state in which `rb_insert` calls `insert_fix`, if the key is new. -/
def insertStart (tree : RbTree) (node key : Nat) : Except Trap (Option RbTree) := do
  match ← insertDescent tree key loopLimit tree.root tree.nil .left with
  | none => pure none
  | some (parent, dir) =>
      let linked := attach tree node key parent dir
      pure (some { linked with count := u32 (linked.count + 1) })

theorem rb_insert_start (tree : RbTree) (node key : Nat) :
    rbInsert tree node key = (insertStart tree node key).bind fun
      | none => .ok (false, tree)
      | some linked => (insertFix linked node).bind fun fixed => .ok (true, fixed) := by
  rw [rbInsert, insertStart]
  cases insertDescent tree key loopLimit tree.root tree.nil .left with
  | error trap => rfl
  | ok place =>
      cases place with
      | none => rfl
      | some place => rfl

/-- `insert_fix` starts at the new red node. -/
theorem insert_start_red {linked : RbTree} (wellFormed : WellFormed tree shape)
    (fresh : Fresh tree shape node) (started : insertStart tree node key = .ok (some linked)) :
    RedFocus linked node := by
  rw [insertStart, insert_descent_located wellFormed, Trap.ok_bind] at started
  have plugged := plug_locate key shape []
  generalize locate key shape [] = place at started plugged
  obtain ⟨focus, path⟩ := place
  cases focus with
  | node color left entry right => cases started
  | leaf =>
      rw [plug_nil] at plugged
      subst plugged
      simp only [placeFound, Trap.pure_ok, Except.ok.injEq, Option.some.injEq] at started
      obtain ⟨color, height, leafBalanced, accepts⟩ := balanced_split wellFormed.balanced
      cases leafBalanced
      obtain ⟨attached, _⟩ := attach_ok key .left fresh wellFormed.represents rfl
      rw [← started]
      exact ⟨_, path, 0, represents_count attached _, rfl, .red .leaf .leaf, accepts⟩

/-- `remove_fix` starts one black node short, at what took the place of a black node. -/
theorem remove_start_short {found x : Nat} (wellFormed : WellFormed tree shape)
    (located : rbFind tree key = .ok found) (present : found ≠ 0)
    (removed : removeNode tree found = .ok (next, x, .black)) : ShortFocus next x := by
  rw [rb_find_located wellFormed, Except.ok.injEq] at located
  have plugged := plug_locate key shape []
  generalize locate key shape [] = place at located plugged
  obtain ⟨focus, path⟩ := place
  cases focus with
  | leaf => exact absurd located.symm present
  | node color left entry right =>
      rw [plug_nil] at plugged
      subst plugged
      have bounded := items_length_lt wellFormed.represents wellFormed.words
      have height : right.height ≤ loopLimit := by
        have small := height_le_length right
        rw [items_plug] at bounded
        simp only [RedBlackTree.Tree.items, List.length_append, List.length_cons] at bounded
        rw [loopLimit]
        omega
      obtain ⟨dir, moved, lower, nodeColor, count, taken, _, _, ⟨outer, balanced, accepts⟩, _, _, step⟩ :=
        remove_node_ok wellFormed.balanced height
      obtain ⟨after, returned, unlinked⟩ := step tree wellFormed.represents
      rw [← located, foundPtr, returned, Except.ok.injEq, Prod.mk.injEq, Prod.mk.injEq] at removed
      obtain ⟨rfl, rfl, rfl⟩ := removed
      obtain ⟨nearColor, _, below, rfl, rfl, near, _⟩ := balanced_black_branch balanced
      exact ⟨moved, lower, below,
        ⟨unlinked.represents, short_of_balanced near, accepts, unlinked.parent⟩, rfl⟩

end Starts

section Independence

variable {shape : Shape} {other : RbTree}

/-- Two states with the same tree of real nodes. -/
structure SameNodes (tree other : RbTree) : Prop where
  root : other.root = tree.root
  nil : other.nil = tree.nil
  count : other.count = tree.count
  reachable : ∀ addr, Reachable other addr ↔ Reachable tree addr
  node : ∀ addr, Reachable tree addr → other.node addr = tree.node addr

theorem holds_same_nodes {parent : Nat} (sameNil : other.nil = tree.nil) (held : Holds tree parent shape)
    (otherHeld : Holds other parent shape) :
    ∀ addr ∈ addrs shape, other.node addr = tree.node addr := by
  induction shape generalizing parent with
  | leaf => simp [addrs, RedBlackTree.Tree.items]
  | node color left entry right leftSame rightSame =>
      obtain ⟨record, leftHeld, rightHeld⟩ := held
      obtain ⟨otherRecord, otherLeft, otherRight⟩ := otherHeld
      intro addr member
      rcases mem_addrs_node.1 member with rfl | inLeft | inRight
      · rw [record, otherRecord, sameNil]
      · exact leftSame leftHeld otherLeft addr inLeft
      · exact rightSame rightHeld otherRight addr inRight

theorem same_nodes (wellFormed : WellFormed tree shape) (otherFormed : WellFormed other shape)
    (sameNil : other.nil = tree.nil) : SameNodes tree other where
  root := by rw [otherFormed.represents.root, wellFormed.represents.root, sameNil]
  nil := sameNil
  count := otherFormed.count.trans wellFormed.count.symm
  reachable addr := by
    constructor
    · intro reachable
      exact reachable_of_member wellFormed.represents
        (member_of_reachable otherFormed.represents reachable)
    · intro reachable
      exact reachable_of_member otherFormed.represents
        (member_of_reachable wellFormed.represents reachable)
  node addr reachable := by
    have otherHeld := otherFormed.represents.holds
    rw [sameNil] at otherHeld
    exact holds_same_nodes sameNil wellFormed.represents.holds otherHeld addr
      (member_of_reachable wellFormed.represents reachable)

/-- The sentinel's parent is no part of a well-formed tree. -/
theorem well_formed_parent (wellFormed : WellFormed tree shape) (value : Nat) :
    WellFormed (tree.setParent tree.nil value) shape where
  represents :=
    { root := wellFormed.represents.root
      holds := by
        apply holds_within (within_set_parent tree tree.nil value) _ wellFormed.represents.holds
        simpa using wellFormed.represents.sentinel
      distinct := wellFormed.represents.distinct
      nonzero := wellFormed.represents.nonzero
      sentinel := wellFormed.represents.sentinel
      nilBlack := by
        have black := wellFormed.represents.nilBlack
        have record := @node_set_parent_self tree tree.nil value
        rw [RbTree.colorOf]
        exact (congrArg RbNode.color record).trans black }
  sorted := wellFormed.sorted
  balanced := wellFormed.balanced
  count := wellFormed.count
  words := wellFormed.words

theorem fresh_parent (fresh : Fresh tree shape node) (value : Nat) :
    Fresh (tree.setParent tree.nil value) shape node :=
  ⟨fresh.nonzero, fresh.notNil, fresh.absent, fresh.word⟩

end Independence

/-- How `rb_insert` treats the sentinel: it returns, reads no null parent, leaves the
sentinel black, and its tree does not depend on the sentinel's parent. -/
structure InsertSafe (tree : RbTree) (node key : Nat) : Prop where
  returns : ∃ done next, rbInsert tree node key = .ok (done, next) ∧
    next.colorOf next.nil = .black ∧
    ∀ value, ∃ other, rbInsert (tree.setParent tree.nil value) node key = .ok (done, other) ∧
      SameNodes next other
  heads : ∀ linked, insertStart tree node key = .ok (some linked) →
    ∀ last here, Heads InsertGuard insertRound linked node last here →
      (last.parentOf here = last.nil ∨ last.parentOf here ≠ 0) ∧
        (InsertGuard last here → InsertRoundSafe last here)

/-- The same for `rb_remove`, whose loop may start at the sentinel. -/
structure RemoveSafe (tree : RbTree) (key : Nat) : Prop where
  returns : ∃ node next, rbRemove tree key = .ok (node, next) ∧
    next.colorOf next.nil = .black ∧
    ∀ value, ∃ other, rbRemove (tree.setParent tree.nil value) key = .ok (node, other) ∧
      SameNodes next other
  heads : ∀ node unlinked x, rbFind tree key = .ok node → node ≠ 0 →
    removeNode tree node = .ok (unlinked, x, .black) →
    ∀ last here, Heads RemoveGuard removeRound unlinked x last here →
      RemoveGuard last here → ∃ side, RemoveRoundSafe last here side

section Calls

variable {shape : Shape}

theorem insert_safe (key : Nat) (wellFormed : WellFormed tree shape) (fresh : Fresh tree shape node) :
    InsertSafe tree node key where
  returns := by
    rcases rb_insert_ok key wellFormed fresh with ⟨_, finds⟩ | ⟨grown, _, _, _, _, _, _, inserts⟩
    · refine ⟨false, tree, finds tree wellFormed, wellFormed.represents.nilBlack, ?_⟩
      intro value
      have moved := well_formed_parent wellFormed value
      exact ⟨_, finds _ moved, same_nodes wellFormed moved rfl⟩
    · obtain ⟨next, returned, formed, nil, _⟩ := inserts tree wellFormed fresh
      refine ⟨true, next, returned, formed.represents.nilBlack, ?_⟩
      intro value
      obtain ⟨other, otherReturned, otherFormed, otherNil, _⟩ :=
        inserts _ (well_formed_parent wellFormed value) (fresh_parent fresh value)
      exact ⟨other, otherReturned, same_nodes formed otherFormed (otherNil.trans nil.symm)⟩
  heads := by
    intro linked started last here heads
    have position := heads_keep (insert_start_red wellFormed fresh started)
      (fun _ _ position guard => (insert_round_safe position guard).2) heads
    exact ⟨parent_nonzero position, fun guard => (insert_round_safe position guard).1⟩

theorem remove_safe (key : Nat) (wellFormed : WellFormed tree shape) : RemoveSafe tree key where
  returns := by
    rcases rb_remove_ok key wellFormed with ⟨_, finds⟩ | ⟨shrunk, entry, _, _, _, _, _, removes⟩
    · refine ⟨0, tree, finds tree wellFormed, wellFormed.represents.nilBlack, ?_⟩
      intro value
      have moved := well_formed_parent wellFormed value
      exact ⟨_, finds _ moved, same_nodes wellFormed moved rfl⟩
    · obtain ⟨next, returned, formed, nil, _⟩ := removes tree wellFormed
      refine ⟨entry.addr, next, returned, formed.represents.nilBlack, ?_⟩
      intro value
      obtain ⟨other, otherReturned, otherFormed, otherNil, _⟩ :=
        removes _ (well_formed_parent wellFormed value)
      exact ⟨other, otherReturned, same_nodes formed otherFormed (otherNil.trans nil.symm)⟩
  heads := by
    intro found unlinked x located present removed last here heads
    have position := heads_keep (remove_start_short wellFormed located present removed)
      (fun _ _ position guard => (remove_round_safe position guard).2) heads
    exact fun guard => (remove_round_safe position guard).1

theorem fix_up_loops_safe (key : Nat) (wellFormed : WellFormed tree shape) :
    (∀ node, Fresh tree shape node → InsertSafe tree node key) ∧ RemoveSafe tree key :=
  ⟨fun _ fresh => insert_safe key wellFormed fresh, remove_safe key wellFormed⟩

/-- Three black nodes above a sentinel whose parent was never written. -/
def blackMemory : Nat → RbNode := fun addr =>
  if addr = 4096 then ⟨8, 8192, 12288, 2, .black⟩
  else if addr = 8192 then ⟨4096, 8, 8, 1, .black⟩
  else if addr = 12288 then ⟨4096, 8, 8, 3, .black⟩
  else ⟨3735928559, 8, 8, 0, .black⟩

def blackTree : RbTree := { root := 4096, nil := 8, count := 3, node := blackMemory }

def blackShape : Shape :=
  .node .black (.node .black .leaf ⟨8192, 1⟩ .leaf) ⟨4096, 2⟩ (.node .black .leaf ⟨12288, 3⟩ .leaf)

theorem black_tree_well_formed : WellFormed blackTree blackShape where
  represents := ⟨rfl, ⟨rfl, ⟨rfl, trivial, trivial⟩, rfl, trivial, trivial⟩, by decide, by decide,
    by decide, rfl⟩
  sorted := by decide
  balanced := ⟨2, .black (.black .leaf .leaf) (.black .leaf .leaf)⟩
  count := rfl
  words := by decide

theorem fix_up_loops_safe_black :
    InsertSafe blackTree 16384 4 ∧ RemoveSafe blackTree 1 := by
  obtain ⟨inserts, removes⟩ := fix_up_loops_safe 1 black_tree_well_formed
  have fresh : Fresh blackTree blackShape 16384 := ⟨by decide, by decide, by decide, by decide⟩
  exact ⟨(fix_up_loops_safe 4 black_tree_well_formed).1 16384 fresh, removes⟩

end Calls

end ParadiseOS.RbTreeSentinel
