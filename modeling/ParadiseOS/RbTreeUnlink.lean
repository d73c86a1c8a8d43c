import ParadiseOS.RbTreeSteps

/-!
# Unlinking a node

`rb_remove` either hangs the only subtree of the node in its place, or relinks
the smallest node of the right subtree there. No key is copied: the node that
moves keeps its address and its key.
-/

namespace ParadiseOS.RbTreeUnlink

open RbTreeModel RedBlackTree RbTreeShape RbTreeSteps

set_option autoImplicit false

variable {tree : RbTree} {shape : Shape} {path : Path} {parent : Nat}

/-- A subtree keeps its records but for the parent pointer of its root. -/
theorem holds_moved {next : RbTree} {newParent : Nat} (held : Holds tree parent shape)
    (distinct : (addrs shape).Nodup) (sameNil : next.nil = tree.nil)
    (record : next.node (ptr tree.nil shape) =
      { tree.node (ptr tree.nil shape) with parent := newParent })
    (kept : ∀ addr ∈ addrs shape, addr ≠ ptr tree.nil shape → next.node addr = tree.node addr) :
    Holds next newParent shape := by
  cases shape with
  | leaf => trivial
  | node color left entry right =>
      obtain ⟨same, leftHeld, rightHeld⟩ := held
      obtain ⟨⟨notLeft, notRight⟩, _⟩ := nodup_node.1 distinct
      refine ⟨?_, ?_, ?_⟩
      · rw [ptr, same] at record
        rw [record, sameNil]
      · apply holds_congr sameNil _ leftHeld
        intro addr member
        apply kept addr (mem_addrs_node.2 (.inr (.inl member)))
        rintro rfl
        exact notLeft member
      · apply holds_congr sameNil _ rightHeld
        intro addr member
        apply kept addr (mem_addrs_node.2 (.inr (.inr member)))
        rintro rfl
        exact notRight member

theorem parent_set_parent (tree : RbTree) (addr newParent : Nat) :
    (tree.setParent addr newParent).parentOf addr = newParent := by
  rw [RbTree.parentOf, node_set_parent_self]

/-- `b` is hung in the place of `a` below the path, with its parent pointer set. -/
theorem transplant_ok {a b : Nat} (parentA : tree.parentOf a = top tree.nil path)
    (root : tree.root = rootOf a path) (above : HoldsPath tree a path)
    (distinct : (pathAddrs path).Nodup) (nonzero : 0 ∉ pathAddrs path)
    (sentinel : tree.nil ∉ pathAddrs path) (freshA : a ∉ pathAddrs path) (real : a ≠ tree.nil)
    (freshB : b ∉ pathAddrs path) :
    ∃ next, transplant tree a b = .ok next ∧ next.root = rootOf b path ∧ HoldsPath next b path ∧
      next.node b = { tree.node b with parent := top tree.nil path } ∧
      Within (pathAddrs path ++ [b]) tree next := by
  obtain ⟨hung, replaced, rootHung, aboveHung, within⟩ :=
    replace_at_parent_ok b parentA root above distinct nonzero sentinel freshA real
  have parentHung : hung.parentOf a = top tree.nil path := by
    rw [RbTree.parentOf, within.kept a freshA]
    exact parentA
  have last := within_set_parent hung b (hung.parentOf a)
  refine ⟨hung.setParent b (hung.parentOf a), ?_, rootHung, holds_path_within last (by simpa using freshB) aboveHung, ?_,
    within_trans within last⟩
  · rw [transplant, replaced, Trap.ok_bind, Trap.pure_ok]
  · rw [node_set_parent_self, parentHung, within.kept b freshB]

/-- The smallest node of a subtree hangs at the end of a path of left turns. -/
theorem minimum_loop_ok (inner : shape ≠ .leaf) {fuel : Nat} (bounded : shape.height ≤ fuel) :
    ∃ color entry last spine, shape = plug (.node color .leaf entry last) spine ∧ before spine = [] ∧
      ∀ tree path, Represents tree (plug shape path) →
        minimumLoop tree fuel (ptr tree.nil shape) = .ok entry.addr := by
  induction shape generalizing fuel with
  | leaf => exact absurd rfl inner
  | node color left entry right leftFound _ =>
      obtain ⟨rounds, rfl⟩ : ∃ rounds, fuel = rounds + 1 := ⟨fuel - 1, by
        rw [RedBlackTree.Tree.height] at bounded
        omega⟩
      have child : ∀ tree path, Represents tree (plug (.node color left entry right) path) →
          tree.childOf entry.addr .left = ptr tree.nil left := fun tree path represents =>
        near_of_branch (show Represents tree (plug (branch .left color left entry right) path) from represents)
      by_cases empty : left = .leaf
      · refine ⟨color, entry, right, [], by rw [empty]; rfl, rfl, ?_⟩
        intro tree path represents
        rw [minimumLoop, ptr, child tree path represents, empty, ptr, if_pos rfl]
      · have bounded' : left.height ≤ rounds := by
          rw [RedBlackTree.Tree.height] at bounded
          omega
        obtain ⟨lowColor, low, last, spine, same, leftmost, found⟩ := leftFound empty bounded'
        refine ⟨lowColor, low, last, spine ++ [⟨.left, color, entry, right⟩], ?_, ?_, ?_⟩
        · rw [plug_append, ← same]
          rfl
        · rw [before_append, leftmost]
          rfl
        · intro tree path represents
          have nearer : Represents tree (plug left (⟨.left, color, entry, right⟩ :: path)) := represents
          have sentinel := nearer.sentinel
          rw [mem_addrs_plug, not_or] at sentinel
          rw [minimumLoop, ptr, child tree path represents, if_neg (by rwa [ptr_eq_nil sentinel.1])]
          exact found tree _ nearer

/-- What unlinking leaves: the subtree `focus` in a position whose parent pointer it
carries, even when it is empty. -/
structure Unlinked (tree next : RbTree) (focus : Shape) (path : Path) : Prop where
  represents : Represents next (plug focus path)
  parent : next.parentOf (ptr next.nil focus) = top next.nil path
  nil : next.nil = tree.nil
  count : next.count = tree.count
  keys : ∀ addr, next.keyOf addr = tree.keyOf addr

/-- The sentinel's colour survives changes to other records and to its parent. -/
theorem nil_black_within {touched : List Nat} {next : RbTree} (within : Within touched tree next)
    (untouched : tree.nil ∉ touched) (black : tree.colorOf tree.nil = .black) :
    next.colorOf tree.nil = .black := by
  rwa [RbTree.colorOf, within.kept _ untouched]

theorem nil_black_moved {next : RbTree} {b newParent : Nat} (list : List Nat)
    (record : next.node b = { tree.node b with parent := newParent })
    (within : Within (list ++ [b]) tree next) (untouched : tree.nil ∉ list)
    (black : tree.colorOf tree.nil = .black) : next.colorOf tree.nil = .black := by
  by_cases same : tree.nil = b
  · rw [RbTree.colorOf, same, record, ← same]
    exact black
  · exact nil_black_within within (by simp [untouched, same]) black

/-- A node with at most one subtree is replaced by it. -/
theorem remove_outer_ok {dir : Dir} {color : Color} {entry : Entry}
    (represents : Represents tree (plug (branch dir color shape entry .leaf) path)) :
    ∃ next, transplant tree entry.addr (ptr tree.nil shape) = .ok next ∧
      Unlinked tree next shape path := by
  obtain ⟨⟨root, held, above⟩, ⟨focusNodup, pathNodup, apart⟩, nonzero, sentinel, nilBlack⟩ :=
    represents_plug.1 represents
  have parent := parent_of_branch represents
  obtain ⟨_, shapeHeld, _⟩ := holds_branch.1 held
  obtain ⟨_, shapeNodup, _⟩ := nodup_branch.1 focusNodup
  simp only [mem_addrs_plug, mem_addrs_branch, not_or] at sentinel nonzero
  simp only [List.disjoint_left, mem_addrs_branch] at apart
  rw [ptr_branch] at root above
  have fresh : ptr tree.nil shape ∉ pathAddrs path := by
    by_cases inner : shape = .leaf
    · rw [inner]
      exact sentinel.2
    · exact apart (.inr (.inl (ptr_mem inner tree.nil)))
  obtain ⟨next, returned, rootNext, aboveNext, record, within⟩ :=
    transplant_ok parent root above pathNodup (fun zero => nonzero 0 (.inr zero) rfl) sentinel.2
      (apart (.inl rfl)) (Ne.symm sentinel.1.1) fresh
  refine ⟨next, returned, ⟨?_, ?_, within.nil, within.count, within.keys⟩⟩
  · apply represents_of_sublist represents _ within.nil (nil_black_moved _ record within
      sentinel.2 nilBlack)
    · rw [ptr_plug, within.nil]
      exact rootNext
    · rw [holds_plug, within.nil]
      refine ⟨holds_moved shapeHeld shapeNodup within.nil record ?_, aboveNext⟩
      intro addr member differ
      apply within.kept
      simp only [List.mem_append, List.mem_singleton, not_or]
      exact ⟨apart (.inr (.inl member)), differ⟩
    · rw [items_plug, items_plug]
      apply List.Sublist.append_right
      apply List.Sublist.append_left
      cases dir <;> simp [branch, RedBlackTree.Tree.items]
  · rw [within.nil, RbTree.parentOf, record]

section Inner

variable {color lowColor : Color} {left last : Shape} {node low : Entry} {spine : Path}

/-- The state after the smallest node `low` has left the right subtree of `node` and has been
given what remains of it: `last` at the end of `spine`. -/
structure Detached (tree next : RbTree) (color : Color) (left last : Shape) (node low : Entry)
    (spine path : Path) : Prop where
  root : next.root = rootOf node.addr path
  above : HoldsPath next node.addr path
  parent : next.parentOf node.addr = top tree.nil path
  leftChild : next.childOf node.addr .left = ptr tree.nil left
  sameColor : next.colorOf node.addr = color
  leftHeld : Holds next node.addr left
  restHeld : Holds next low.addr (plug last spine)
  rightChild : next.childOf low.addr .right = ptr tree.nil (plug last spine)
  moved : next.parentOf (ptr tree.nil last) = top low.addr spine
  nilBlack : next.colorOf tree.nil = .black
  nil : next.nil = tree.nil
  count : next.count = tree.count
  keys : ∀ addr, next.keyOf addr = tree.keyOf addr

/-- The addresses around the smallest node of the right subtree. -/
def around (last left : Shape) (node low : Entry) (spine path : Path) : List Nat :=
  low.addr :: (addrs last ++ (pathAddrs spine ++ node.addr :: (addrs left ++ pathAddrs path)))

/-- The smallest node of the right subtree as the focus. -/
theorem low_focus
    (represents : Represents tree
      (plug (.node color left node (plug (.node lowColor .leaf low last) spine)) path)) :
    Represents tree
      (plug (.node lowColor .leaf low last) (spine ++ ⟨.right, color, node, left⟩ :: path)) := by
  rw [plug_append]
  exact represents

theorem around_apart (spine : Path)
    (represents : Represents tree
      (plug (.node color left node (plug (.node lowColor .leaf low last) spine)) path)) :
    (around last left node low spine path).Nodup ∧
      (∀ addr ∈ around last left node low spine path, addr ≠ 0) ∧
      tree.nil ∉ around last left node low spine path := by
  have focused := low_focus represents
  have perm := addrs_plug_perm (.node lowColor .leaf low last)
    (spine ++ ⟨.right, color, node, left⟩ :: path)
  rw [path_addrs_append, path_addrs_cons] at perm
  change (addrs _).Perm (around last left node low spine path) at perm
  exact ⟨perm.nodup_iff.1 focused.distinct,
    fun addr member => focused.nonzero addr (perm.mem_iff.2 member),
    fun member => focused.sentinel (perm.mem_iff.2 member)⟩

/-- The pointer to a subtree avoids everything beside the subtree. -/
theorem ptr_not_mem {list : List Nat} (apart : List.Disjoint (addrs shape) list)
    (sentinel : tree.nil ∉ list) : ptr tree.nil shape ∉ list := by
  by_cases inner : shape = .leaf
  · rwa [inner]
  · exact apart (ptr_mem inner tree.nil)

theorem last_fresh (distinct : (around last left node low spine path).Nodup)
    (sentinel : tree.nil ∉ around last left node low spine path) :
    ptr tree.nil last ∉
      low.addr :: (pathAddrs spine ++ node.addr :: (addrs left ++ pathAddrs path)) := by
  rw [around, List.nodup_cons, List.nodup_append', List.mem_append] at distinct
  rw [around, List.mem_cons, List.mem_append] at sentinel
  apply ptr_not_mem
  · intro addr member listed
    rcases List.mem_cons.1 listed with same | beside
    · exact distinct.1 (.inl (same ▸ member))
    · exact distinct.2.2.2 member beside
  · rw [List.mem_cons]
    tauto

theorem detach_child
    (represents : Represents tree
      (plug (.node color left node (.node lowColor .leaf low last)) path)) :
    ∃ next, detachMinimum tree node.addr low.addr (ptr tree.nil last) = .ok next ∧
      Detached tree next color left last node low [] path := by
  have whole : Represents tree
      (plug (branch .left color left node (.node lowColor .leaf low last)) path) := represents
  obtain ⟨distinct, _, sentinel⟩ := around_apart [] represents
  have fresh := last_fresh distinct sentinel
  rw [around, List.nodup_cons, List.nodup_append'] at distinct
  obtain ⟨_, lastNodup, _⟩ := distinct
  simp only [pathAddrs, pathItems, List.map_nil, List.nil_append, List.mem_cons, List.mem_append,
    not_or] at fresh
  obtain ⟨⟨root, held, above⟩, _, _, _, nilBlack⟩ := represents_plug.1 whole
  obtain ⟨record, leftHeld, lowHeld⟩ := holds_branch.1 held
  obtain ⟨lowRecord, _, lastHeld⟩ := lowHeld
  have within := within_set_parent tree (ptr tree.nil last) low.addr
  have nodeKept := within.kept node.addr (by simpa using Ne.symm fresh.2.1)
  have lowKept := within.kept low.addr (by simpa using Ne.symm fresh.1)
  refine ⟨tree.setParent (ptr tree.nil last) low.addr, ?_, ?_⟩
  · have child := far_of_branch whole
    rw [detachMinimum, if_neg]
    rw [show tree.childOf node.addr .right = _ from child]
    exact fun differ => differ rfl
  · constructor
    case root => exact root
    case above => exact holds_path_within within (by simpa [pathAddrs] using fresh.2.2.2) above
    case parent => rw [RbTree.parentOf, nodeKept, record, cell_parent]
    case leftChild => rw [RbTree.childOf, nodeKept, record, cell_near]
    case sameColor => rw [RbTree.colorOf, nodeKept, record, cell_color]
    case leftHeld => exact holds_within within (by simpa [addrs] using fresh.2.2.1) leftHeld
    case restHeld =>
      exact holds_moved lastHeld lastNodup rfl (node_set_parent_self _ _)
        fun addr _ differ => within.kept addr (by simpa using differ)
    case rightChild => rw [RbTree.childOf, lowKept, lowRecord]; rfl
    case moved => exact parent_set_parent _ _ _
    case nilBlack =>
      exact nil_black_moved [] (node_set_parent_self _ _) within List.not_mem_nil nilBlack
    case nil => rfl
    case count => rfl
    case keys => exact within.keys

theorem detach_deeper (nonempty : spine ≠ [])
    (represents : Represents tree
      (plug (.node color left node (plug (.node lowColor .leaf low last) spine)) path)) :
    ∃ next, detachMinimum tree node.addr low.addr (ptr tree.nil last) = .ok next ∧
      Detached tree next color left last node low spine path := by
  have whole : Represents tree (plug (branch .left color left node
      (plug (.node lowColor .leaf low last) spine)) path) := represents
  have focused : Represents tree (plug (branch .left lowColor .leaf low last)
      (spine ++ ⟨.right, color, node, left⟩ :: path)) := low_focus represents
  obtain ⟨distinct, nonzero, sentinel⟩ := around_apart spine represents
  have fresh := last_fresh distinct sentinel
  simp only [around, List.nodup_cons, List.nodup_append', List.mem_cons, List.mem_append, not_or,
    List.disjoint_left] at distinct nonzero sentinel fresh
  obtain ⟨⟨lowLast, lowSpine, lowNode, lowLeft, lowPath⟩, lastNodup,
    ⟨spineNodup, ⟨⟨nodeLeft, nodePath⟩, leftNodup, pathNodup, leftPath⟩, spineApart⟩, lastApart⟩ :=
    distinct
  obtain ⟨nilLow, nilLast, nilSpine, nilNode, nilLeft, nilPath⟩ := sentinel
  have nodeSpine : node.addr ∉ pathAddrs spine := fun member => (spineApart member).1 rfl
  obtain ⟨⟨root, held, above⟩, ⟨_, aboveNodup, _⟩, _, _, nilBlack⟩ := represents_plug.1 focused
  rw [ptr_branch] at root above
  obtain ⟨_, _, lastHeld⟩ := holds_branch.1 held
  have lowRight : tree.childOf low.addr .right = ptr tree.nil last := far_of_branch focused
  have spread : ∀ addr, addr ∈ pathAddrs (spine ++ ⟨.right, color, node, left⟩ :: path) ↔
      addr ∈ pathAddrs spine ∨ addr = node.addr ∨ addr ∈ addrs left ∨ addr ∈ pathAddrs path := by
    intro addr
    rw [path_addrs_append, path_addrs_cons, List.mem_append, List.mem_cons, List.mem_append]
  have restPtr : ptr tree.nil (plug last spine) ∈ pathAddrs spine := by
    rw [ptr_plug]
    exact root_of_mem_of_ne_nil nonempty _
  -- the smallest node is unlinked from the right subtree
  have nilAbove : tree.nil ∉ pathAddrs (spine ++ ⟨.right, color, node, left⟩ :: path) := by
    rw [spread]
    tauto
  have lastAbove : ptr tree.nil last ∉
      pathAddrs (spine ++ ⟨.right, color, node, left⟩ :: path) := by
    rw [spread]
    tauto
  obtain ⟨cut, unlinked, rootCut, aboveCut, lastRecord, within⟩ :=
    transplant_ok (parent_of_branch focused) root above aboveNodup
      (fun zero => nonzero 0 (by rw [spread] at zero; tauto) rfl) nilAbove
      (fun member => by rw [spread] at member; tauto) (Ne.symm nilLow) lastAbove
  have lastCut := holds_moved lastHeld lastNodup within.nil lastRecord
    fun addr member differ => within.kept addr (by
      have outside := lastApart member
      rw [List.mem_append, List.mem_singleton, spread]
      tauto)
  have cutHeld : Holds cut cut.nil (plug last (spine ++ ⟨.right, color, node, left⟩ :: path)) := by
    rw [holds_plug, within.nil]
    exact ⟨lastCut, aboveCut⟩
  rw [plug_append, holds_plug, within.nil] at cutHeld
  obtain ⟨restCut, nodeRecord, leftCut, pathCut⟩ := cutHeld
  simp only [within.nil] at nodeRecord
  have nodeRight : cut.childOf node.addr .right = ptr tree.nil (plug last spine) := by
    rw [RbTree.childOf, nodeRecord, cell_near]
  -- and takes what remains of that subtree
  let taken := cut.setChild low.addr .right (cut.childOf node.addr .right)
  have second := within_set_child cut low.addr .right (cut.childOf node.addr .right)
  have lowTaken : taken.childOf low.addr .right = ptr tree.nil (plug last spine) := by
    rw [RbTree.childOf, node_set_child_self, nodeRight]
    rfl
  have third := within_set_parent taken (ptr tree.nil (plug last spine)) low.addr
  have later := within_trans second third
  have untouched : ∀ addr, addr ≠ low.addr → addr ∉ pathAddrs spine →
      addr ∉ [low.addr] ++ [ptr tree.nil (plug last spine)] := by
    intro addr notLow notSpine listed
    rcases List.mem_append.1 listed with listed | listed
    · exact notLow (List.mem_singleton.1 listed)
    · exact notSpine (List.mem_singleton.1 listed ▸ restPtr)
  have nodeEnd := later.kept node.addr (untouched _ (Ne.symm lowNode) nodeSpine)
  have lowEnd := third.kept low.addr (by
    rw [List.mem_singleton]
    exact fun same => lowSpine (same ▸ restPtr))
  refine ⟨taken.setParent (ptr tree.nil (plug last spine)) low.addr, ?_, ?_⟩
  · have child : tree.childOf node.addr .right =
        ptr tree.nil (plug (.node lowColor .leaf low last) spine) := far_of_branch whole
    have differ : low.addr ≠ tree.childOf node.addr .right := by
      rw [child, ptr_plug]
      exact fun same => lowSpine (same ▸ root_of_mem_of_ne_nil nonempty _)
    rw [detachMinimum, if_pos differ, lowRight, unlinked, Trap.ok_bind, Trap.pure_ok]
    exact congrArg (fun addr => Except.ok (taken.setParent addr low.addr)) lowTaken
  · constructor
    case root =>
      rw [root_of_append] at rootCut
      exact rootCut
    case above =>
      apply holds_path_within later _ pathCut
      intro addr member
      exact untouched addr (fun same => lowPath (same ▸ member))
        fun listed => (spineApart listed).2.2 member
    case parent => rw [RbTree.parentOf, nodeEnd, nodeRecord, cell_parent]
    case leftChild =>
      rw [RbTree.childOf, nodeEnd, nodeRecord]
      rfl
    case sameColor => rw [RbTree.colorOf, nodeEnd, nodeRecord, cell_color]
    case leftHeld =>
      apply holds_within later _ leftCut
      intro addr member
      exact untouched addr (fun same => lowLeft (same ▸ member))
        fun listed => (spineApart listed).2.1 member
    case restHeld =>
      have lowRest : low.addr ∉ addrs (plug last spine) := by
        rw [mem_addrs_plug]
        tauto
      have restTaken := holds_within second (by simpa using lowRest) restCut
      have restNodup : (addrs (plug last spine)).Nodup :=
        nodup_plug.2 ⟨lastNodup, spineNodup, fun _ member => (lastApart member).1⟩
      have sameNil : taken.nil = tree.nil := second.nil.trans within.nil
      apply holds_moved restTaken restNodup third.nil
      · rw [sameNil]
        exact node_set_parent_self _ _
      · intro addr _ differ
        rw [sameNil] at differ
        exact third.kept addr (by simpa using differ)
    case rightChild =>
      rw [RbTree.childOf, lowEnd]
      exact lowTaken
    case moved =>
      rw [RbTree.parentOf, later.kept _ (untouched _ fresh.1 fresh.2.1), lastRecord]
      cases spine with
      | nil => exact absurd rfl nonempty
      | cons frame spine => rfl
    case nilBlack =>
      have blackCut := nil_black_moved _ lastRecord within nilAbove nilBlack
      rw [RbTree.colorOf, later.kept _ (untouched _ nilLow nilSpine)]
      exact blackCut
    case nil => exact later.nil.trans within.nil
    case count => exact later.count.trans within.count
    case keys => exact fun addr => (later.keys addr).trans (within.keys addr)

/-- The smallest node of the right subtree takes the place of `node`. -/
theorem take_place_ok {next : RbTree} {right : Shape}
    (represents : Represents tree (plug (.node color left node right) path)) (inner : left ≠ .leaf)
    (distinct : (around last left node low spine path).Nodup)
    (sentinel : tree.nil ∉ around last left node low spine path)
    (fewer : (plug (.node color left low (plug last spine)) path).items.Sublist
      (plug (.node color left node right) path).items)
    (key : tree.keyOf low.addr = low.key)
    (detached : Detached tree next color left last node low spine path) :
    ∃ placed, takePlace next node.addr low.addr = .ok placed ∧
      Unlinked tree placed last (spine ++ ⟨.right, color, low, left⟩ :: path) := by
  have nonzero := represents.nonzero
  have fresh := last_fresh distinct sentinel
  simp only [around, List.nodup_cons, List.nodup_append', List.mem_cons, List.mem_append, not_or,
    List.disjoint_left] at distinct sentinel fresh
  obtain ⟨⟨lowLast, lowSpine, lowNode, lowLeft, lowPath⟩, _,
    ⟨_, ⟨⟨nodeLeft, nodePath⟩, leftNodup, pathNodup, leftPath⟩, spineApart⟩, lastApart⟩ := distinct
  obtain ⟨nilLow, nilLast, nilSpine, nilNode, nilLeft, nilPath⟩ := sentinel
  rw [← detached.nil] at nilLow nilLast nilSpine nilNode nilLeft nilPath
  have zeroPath : 0 ∉ pathAddrs path := fun member =>
    nonzero 0 (mem_addrs_plug.2 (.inr member)) rfl
  obtain ⟨placed, transplanted, rootPlaced, abovePlaced, lowRecord, within⟩ :=
    transplant_ok (by rw [detached.nil]; exact detached.parent) detached.root detached.above
      pathNodup zeroPath nilPath nodePath (Ne.symm nilNode) lowPath
  have nodePlaced : placed.node node.addr = next.node node.addr := within.kept node.addr (by
    rw [List.mem_append, List.mem_singleton]
    tauto)
  have leftPlaced : placed.childOf node.addr .left = ptr tree.nil left := by
    rw [RbTree.childOf, nodePlaced]
    exact detached.leftChild
  have leftPtr := ptr_mem inner tree.nil
  have nilNotLeft : tree.nil ≠ ptr tree.nil left := by
    rw [← detached.nil] at leftPtr ⊢
    exact fun same => nilLeft (same ▸ leftPtr)
  -- the left subtree
  let given := placed.setChild low.addr .left (placed.childOf node.addr .left)
  have second := within_set_child placed low.addr .left (placed.childOf node.addr .left)
  have givenLeft : given.childOf low.addr .left = ptr tree.nil left := by
    rw [RbTree.childOf, node_set_child_self, leftPlaced]
    rfl
  have third := within_set_parent given (ptr tree.nil left) low.addr
  let adopted := given.setParent (ptr tree.nil left) low.addr
  have fourth := within_set_color adopted low.addr (adopted.colorOf node.addr)
  have later := within_trans (within_trans second third) fourth
  have untouched : ∀ addr, addr ≠ low.addr → addr ≠ ptr tree.nil left →
      addr ∉ [low.addr] ++ [ptr tree.nil left] ++ [low.addr] := by
    intro addr notLow notLeft
    simp [notLow, notLeft]
  have whole := within_trans within later
  have kept : ∀ addr, addr ∉ pathAddrs path → addr ≠ low.addr → addr ≠ ptr tree.nil left →
      (adopted.setColor low.addr (adopted.colorOf node.addr)).node addr = next.node addr := by
    intro addr notPath notLow notLeft
    apply whole.kept
    simp [notPath, notLow, notLeft]
  have colorAdopted : adopted.colorOf node.addr = color := by
    have same : adopted.node node.addr = next.node node.addr := by
      rw [third.kept _ (by simpa using fun same : node.addr = _ => nodeLeft (same ▸ leftPtr)),
        second.kept _ (by simpa using Ne.symm lowNode), nodePlaced]
    rw [RbTree.colorOf, same]
    exact detached.sameColor
  have lowAdopted : adopted.node low.addr = given.node low.addr :=
    third.kept _ (by simpa using fun same : low.addr = _ => lowLeft (same ▸ leftPtr))
  have lowEnd : (adopted.setColor low.addr (adopted.colorOf node.addr)).node low.addr =
      ⟨top tree.nil path, ptr tree.nil left, ptr tree.nil (plug last spine), low.key, color⟩ := by
    rw [node_set_color_self, lowAdopted, node_set_child_self, lowRecord, leftPlaced, colorAdopted,
      ← detached.rightChild, ← key, ← detached.keys low.addr, detached.nil]
    rfl
  have sameNil : (adopted.setColor low.addr (adopted.colorOf node.addr)).nil = tree.nil :=
    whole.nil.trans detached.nil
  refine ⟨adopted.setColor low.addr (adopted.colorOf node.addr), ?_, ?_, ?_, sameNil, ?_, ?_⟩
  · rw [takePlace, transplanted, Trap.ok_bind, Trap.pure_ok]
    change Except.ok ((given.setParent (given.childOf low.addr .left) low.addr).setColor low.addr
      ((given.setParent (given.childOf low.addr .left) low.addr).colorOf node.addr)) = _
    rw [givenLeft]
  · rw [plug_append]
    apply represents_of_sublist represents fewer sameNil
    · rw [RbTree.colorOf, kept _ (detached.nil ▸ nilPath) (detached.nil ▸ nilLow) nilNotLeft]
      exact detached.nilBlack
    · rw [ptr_plug]
      exact rootPlaced
    · change Holds _ _ (plug (branch .left color left low (plug last spine)) path)
      rw [holds_plug, holds_branch, sameNil]
      refine ⟨⟨lowEnd, ?_, ?_⟩, ?_⟩
      · have leftOutside : ∀ addr ∈ addrs left, addr ≠ low.addr :=
          fun addr member same => lowLeft (same ▸ member)
        have early : Holds given node.addr left := by
          apply holds_within second _ (holds_within within _ detached.leftHeld)
          · simpa using lowLeft
          · intro addr member
            simp [leftPath member, leftOutside addr member]
        have sameGiven : given.nil = tree.nil := second.nil.trans (within.nil.trans detached.nil)
        apply holds_within fourth (by simpa using lowLeft)
        apply holds_moved early leftNodup third.nil
        · rw [sameGiven]
          exact node_set_parent_self _ _
        · intro addr _ differ
          rw [sameGiven] at differ
          exact third.kept addr (by simpa using differ)
      · apply holds_within whole _ detached.restHeld
        intro addr member
        have beside : addr ∉ pathAddrs path ∧ addr ≠ low.addr ∧ addr ∉ addrs left := by
          rcases mem_addrs_plug.1 member with inLast | inSpine
          · have outside := lastApart inLast
            exact ⟨outside.2.2.2, fun same => lowLast (same ▸ inLast), outside.2.2.1⟩
          · have outside := spineApart inSpine
            exact ⟨outside.2.2, fun same => lowSpine (same ▸ inSpine), outside.2.1⟩
        have notLeft : addr ≠ ptr tree.nil left := fun same => beside.2.2 (same ▸ leftPtr)
        simp [beside, notLeft]
      · rw [ptr_branch]
        apply holds_path_within later _ abovePlaced
        intro addr member
        exact untouched addr (fun same => lowPath (same ▸ member))
          fun same => leftPath (same ▸ leftPtr) member
  · have same := kept (ptr tree.nil last) fresh.2.2.2.2 fresh.1
      fun same => fresh.2.2.2.1 (same ▸ leftPtr)
    have moved := detached.moved
    rw [RbTree.parentOf] at moved
    rw [sameNil, RbTree.parentOf, same, moved]
    cases spine <;> rfl
  · exact whole.count.trans detached.count
  · exact fun addr => (whole.keys addr).trans (detached.keys addr)

/-- A node with two subtrees is replaced by the smallest node of the right one. -/
theorem remove_inner_ok {right : Shape} (leftInner : left ≠ .leaf) (rightInner : right ≠ .leaf)
    (bounded : right.height ≤ loopLimit) :
    ∃ lowColor low last spine, right = plug (.node lowColor .leaf low last) spine ∧ before spine = [] ∧
      ∀ tree, Represents tree (plug (.node color left node right) path) →
        ∃ next, removeInner tree node.addr = .ok (next, ptr next.nil last, lowColor) ∧
          Unlinked tree next last (spine ++ ⟨.right, color, low, left⟩ :: path) := by
  obtain ⟨lowColor, low, last, spine, same, leftmost, found⟩ := minimum_loop_ok rightInner bounded
  refine ⟨lowColor, low, last, spine, same, leftmost, ?_⟩
  intro tree represents
  have whole : Represents tree (plug (branch .left color left node right) path) := represents
  have rightFocus : Represents tree (plug right (⟨.right, color, node, left⟩ :: path)) := represents
  have lowest := found tree _ rightFocus
  have child : tree.childOf node.addr .right = ptr tree.nil right := far_of_branch whole
  subst same
  have focused : Represents tree (plug (branch .left lowColor .leaf low last)
      (spine ++ ⟨.right, color, node, left⟩ :: path)) := low_focus represents
  obtain ⟨distinct, _, sentinel⟩ := around_apart spine represents
  have lastChild : tree.childOf low.addr .right = ptr tree.nil last := far_of_branch focused
  have detach : ∃ next, detachMinimum tree node.addr low.addr (ptr tree.nil last) = .ok next ∧
      Detached tree next color left last node low spine path := by
    by_cases child : spine = []
    · subst child
      exact detach_child represents
    · exact detach_deeper child represents
  obtain ⟨next, returned, detached⟩ := detach
  have fewer : (plug (.node color left low (plug last spine)) path).items.Sublist
      (plug (.node color left node (plug (.node lowColor .leaf low last) spine)) path).items := by
    rw [items_plug, items_plug]
    apply List.Sublist.append_right
    apply List.Sublist.append_left
    simp [RedBlackTree.Tree.items, items_plug, leftmost]
  have key : tree.keyOf low.addr = low.key := by
    rw [RbTree.keyOf, node_of_branch focused, cell_key]
  obtain ⟨placed, placing, unlinked⟩ :=
    take_place_ok represents leftInner distinct sentinel fewer key detached
  refine ⟨placed, ?_, unlinked⟩
  rw [removeInner, minimum, child, lowest]
  simp only [Trap.ok_bind, Trap.pure_ok, lastChild, returned, placing, color_of_branch focused,
    unlinked.nil]

end Inner

end ParadiseOS.RbTreeUnlink
