import ParadiseOS.RbTreeShape

/-!
# Single changes of the represented tree

Recolouring a node, hanging another subtree below a path, and rotating: each
changes the represented tree in place and leaves the other records alone.
-/

namespace ParadiseOS.RbTreeSteps

open RbTreeModel RedBlackTree RbTreeShape

set_option autoImplicit false

variable {tree : RbTree} {path : Path} {dir : Dir} {color : Color} {near far shape : Shape}
  {entry : Entry}

theorem set_color_ok (represents : Represents tree (plug (branch dir color near entry far) path))
    (other : Color) :
    Represents (tree.setColor entry.addr other) (plug (branch dir other near entry far) path) ∧
      Kept tree (tree.setColor entry.addr other) := by
  have within := within_set_color tree entry.addr other
  have kept : Kept tree (tree.setColor entry.addr other) := by
    apply kept_of_within within
    have sentinel := represents.sentinel
    rw [mem_addrs_plug, mem_addrs_branch, not_or, not_or] at sentinel
    simpa using sentinel.1.1
  obtain ⟨⟨root, held, above⟩, ⟨focusNodup, _, apart⟩, _⟩ := represents_plug.1 represents
  obtain ⟨record, nearHeld, farHeld⟩ := holds_branch.1 held
  obtain ⟨⟨notNear, notFar⟩, _⟩ := nodup_branch.1 focusNodup
  have notPath : entry.addr ∉ pathAddrs path := apart (mem_addrs_branch.2 (.inl rfl))
  refine ⟨represents_of_items represents kept ?_ ?_ (holds_plug.2 ⟨?_, ?_⟩), kept⟩
  · exact items_plug_congr (by cases dir <;> rfl) path
  · rw [ptr_plug, ptr_branch]
    rwa [ptr_branch] at root
  · refine holds_branch.2 ⟨?_, ?_, ?_⟩
    · rw [node_set_color_self, record, cell_set_color]
      rfl
    · exact holds_within within (by simpa using notNear) nearHeld
    · exact holds_within within (by simpa using notFar) farHeld
  · rw [ptr_branch] at above ⊢
    exact holds_path_within within (by simpa using notPath) above

section Parent

variable {node : Nat}

/-- The side of a node is found from its parent's left child. -/
theorem direction_ok {frame : RedBlackTree.Frame Entry}
    (parent : tree.parentOf node = frame.item.addr) (nonzero : frame.item.addr ≠ 0)
    (above : HoldsPath tree node (frame :: path)) (differ : node ≠ ptr tree.nil frame.other) :
    direction tree node = .ok frame.dir := by
  obtain ⟨record, _⟩ := above
  rw [direction, parent, Trap.kernel_assert_of nonzero, Trap.ok_bind, Trap.pure_ok, RbTree.childOf,
    record]
  cases side : frame.dir with
  | left => simp [cell, RbNode.child]
  | right => simp [cell, RbNode.child, differ]

/-- `replacement` is hung in the place of `node` below the path. -/
theorem replace_at_parent_ok (replacement : Nat)
    (parent : tree.parentOf node = top tree.nil path)
    (root : tree.root = rootOf node path) (above : HoldsPath tree node path)
    (distinct : (pathAddrs path).Nodup) (nonzero : 0 ∉ pathAddrs path)
    (sentinel : tree.nil ∉ pathAddrs path)
    (fresh : node ∉ pathAddrs path) (real : node ≠ tree.nil) :
    ∃ next, replaceAtParent tree node replacement = .ok next ∧
      next.root = rootOf replacement path ∧ HoldsPath next replacement path ∧
      Within (pathAddrs path) tree next := by
  cases path with
  | nil =>
      rw [top] at parent
      rw [replaceAtParent, if_pos parent]
      exact ⟨_, rfl, rfl, trivial, rfl, rfl, fun _ => rfl, fun _ _ => rfl⟩
  | cons frame path =>
      simp only [path_addrs_cons, List.nodup_cons, List.mem_cons, List.mem_append, not_or]
        at distinct nonzero sentinel fresh
      have differ : node ≠ ptr tree.nil frame.other := by
        rintro rfl
        have inner : frame.other ≠ .leaf := fun leaf => real (by rw [leaf, ptr])
        exact fresh.2.1 (ptr_mem inner tree.nil)
      have side := direction_ok parent (fun zero => nonzero.1 zero.symm) above differ
      rw [top] at parent
      have inside : tree.parentOf node ≠ tree.nil := by
        rw [parent]
        exact fun same => sentinel.1 same.symm
      rw [replaceAtParent, if_neg inside, side, Trap.ok_bind, Trap.pure_ok, parent]
      have within := within_set_child tree frame.item.addr frame.dir replacement
      obtain ⟨record, other, higher⟩ := above
      refine ⟨_, rfl, root, ⟨?_, ?_, ?_⟩, within.nil, within.count, within.keys, ?_⟩
      · rw [node_set_child_self, record, set_child_near]
        rfl
      · exact holds_within within (by simpa using distinct.1.1) other
      · exact holds_path_within within (by simpa using distinct.1.2) higher
      · intro addr untouched
        apply within.kept
        simp only [path_addrs_cons, List.mem_cons, not_or] at untouched
        simpa using untouched.1

/-- The parent pointer of a subtree that is moved, unless the subtree is empty. -/
theorem reparent_ok {parent : Nat} (newParent : Nat) (held : Holds tree parent shape)
    (distinct : (addrs shape).Nodup) (sentinel : tree.nil ∉ addrs shape) {next : RbTree}
    (moved : next = if ptr tree.nil shape = tree.nil then tree
      else tree.setParent (ptr tree.nil shape) newParent) :
    Holds next newParent shape ∧ next.root = tree.root ∧ Within (addrs shape) tree next := by
  cases shape with
  | leaf =>
      simp only [ptr, if_true] at moved
      rw [moved]
      exact ⟨trivial, rfl, rfl, rfl, fun _ => rfl, fun _ _ => rfl⟩
  | node color left entry right =>
      rw [if_neg (by rw [ptr_eq_nil sentinel]; exact fun impossible => by cases impossible)] at moved
      have within := within_set_parent tree entry.addr newParent
      obtain ⟨record, leftHeld, rightHeld⟩ := held
      obtain ⟨⟨notLeft, notRight⟩, _⟩ := nodup_node.1 distinct
      rw [moved]
      refine ⟨⟨?_, ?_, ?_⟩, rfl, within.nil, within.count, within.keys, ?_⟩
      · rw [ptr, node_set_parent_self, record]
        rfl
      · exact holds_within within (by simpa using notLeft) leftHeld
      · exact holds_within within (by simpa using notRight) rightHeld
      · intro addr untouched
        apply within.kept
        intro listed
        rw [List.mem_singleton.1 listed] at untouched
        exact untouched (ptr_mem (by simp) tree.nil)

end Parent

/-- A rotation of a node `upper` with its child `lower`, away from that child. -/
theorem rotate_subtree_ok {upperColor lowerColor : Color} {outer inner last : Shape}
    {upper lower : Entry}
    (represents : Represents tree
      (plug (branch dir upperColor outer upper (branch dir lowerColor inner lower last)) path)) :
    ∃ rotated, rotateSubtree tree upper.addr dir = .ok rotated ∧
      Represents rotated
        (plug (branch dir lowerColor (branch dir upperColor outer upper inner) lower last) path) ∧
      Kept tree rotated := by
  have sub := far_of_branch represents
  rw [ptr_branch] at sub
  obtain ⟨⟨root, held, above⟩, ⟨focusNodup, pathNodup, apart⟩, nonzero, sentinel, _⟩ :=
    represents_plug.1 represents
  obtain ⟨upperRecord, outerHeld, lowerHeld⟩ := holds_branch.1 held
  obtain ⟨lowerRecord, innerHeld, lastHeld⟩ := holds_branch.1 lowerHeld
  obtain ⟨⟨upperOuter, upperLower⟩, outerNodup, lowerNodup, outerApart⟩ := nodup_branch.1 focusNodup
  obtain ⟨⟨lowerInner, lowerLast⟩, innerNodup, lastNodup, innerApart⟩ := nodup_branch.1 lowerNodup
  simp only [mem_addrs_plug, mem_addrs_branch, not_or] at sentinel upperLower nonzero
  simp only [List.disjoint_left, mem_addrs_branch, not_or] at apart outerApart innerApart
  rw [ptr_branch] at root above upperRecord
  have upperPath : upper.addr ∉ pathAddrs path := apart (.inl rfl)
  have lowerPath : lower.addr ∉ pathAddrs path := apart (.inr (.inr (.inl rfl)))
  -- the subtree between the two nodes changes hands
  have first := within_set_child tree upper.addr dir.inv (ptr tree.nil inner)
  let cut := tree.setChild upper.addr dir.inv (ptr tree.nil inner)
  have lowerCut : cut.node lower.addr = tree.node lower.addr :=
    first.kept _ (by simpa using fun same => upperLower.1 same.symm)
  have between : cut.childOf lower.addr dir = ptr cut.nil inner := by
    rw [RbTree.childOf, lowerCut, lowerRecord, cell_near]
    rfl
  have innerCut : Holds cut lower.addr inner :=
    holds_within first (by simpa using upperLower.2.1) innerHeld
  obtain ⟨innerMoved, rootMoved, second⟩ := reparent_ok upper.addr innerCut innerNodup
    sentinel.1.2.2.2.1 rfl
  let moved := if ptr cut.nil inner = cut.nil then cut else cut.setParent (ptr cut.nil inner) upper.addr
  have upperCut : cut.node upper.addr = cell (top tree.nil path) dir (ptr tree.nil outer)
      (ptr tree.nil inner) upper.key upperColor := by
    rw [node_set_child_self, upperRecord, set_child_far]
  have upperMoved := (second.kept _ upperLower.2.1).trans upperCut
  have lowerMoved := (second.kept _ lowerInner).trans lowerCut
  have parentMoved : moved.parentOf upper.addr = top tree.nil path := by
    rw [RbTree.parentOf, upperMoved, cell_parent]
  -- the lower node takes the place of the upper one
  have third := within_set_parent moved lower.addr (moved.parentOf upper.addr)
  let raised := moved.setParent lower.addr (moved.parentOf upper.addr)
  have toRaised := within_trans (within_trans first second) third
  have upperRaised := (third.kept upper.addr (by simpa using upperLower.1)).trans upperMoved
  have lowerRaised : raised.node lower.addr = cell (top tree.nil path) dir (ptr tree.nil inner)
      (ptr tree.nil last) lower.key lowerColor := by
    rw [node_set_parent_self, lowerMoved, lowerRecord, cell_set_parent, parentMoved]
  have pathRaised : List.Disjoint (pathAddrs path) ([upper.addr] ++ addrs inner ++ [lower.addr]) := by
    intro addr member listed
    simp only [List.mem_append, List.mem_singleton] at listed
    exact apart (by tauto) member
  have parentRaised : raised.parentOf upper.addr = top raised.nil path := by
    rw [RbTree.parentOf, upperRaised, cell_parent, toRaised.nil]
  obtain ⟨hung, replaced, rootHung, aboveHung, fourth⟩ :=
    replace_at_parent_ok lower.addr parentRaised (rootMoved.trans root)
      (holds_path_within toRaised pathRaised above) pathNodup
      (fun member => nonzero 0 (.inr member) rfl) (by rw [toRaised.nil]; exact sentinel.2)
      upperPath (by rw [toRaised.nil]; exact fun same => sentinel.1.1 same.symm)
  have upperHung := (fourth.kept _ upperPath).trans upperRaised
  have lowerHung := (fourth.kept _ lowerPath).trans lowerRaised
  -- the upper node becomes a child of the lower one
  let child := hung.setChild lower.addr dir upper.addr
  have fifth := within_set_child hung lower.addr dir upper.addr
  have sixth := within_set_parent child upper.addr lower.addr
  have toEnd := within_trans fifth sixth
  have whole := within_trans (within_trans toRaised fourth) toEnd
  have kept : Kept tree (child.setParent upper.addr lower.addr) := by
    apply kept_of_within whole
    simp only [List.mem_append, List.mem_singleton]
    tauto
  have upperEnd : (child.setParent upper.addr lower.addr).node upper.addr =
      cell lower.addr dir (ptr tree.nil outer) (ptr tree.nil inner) upper.key upperColor := by
    rw [node_set_parent_self, fifth.kept _ (by simpa using upperLower.1), upperHung,
      cell_set_parent]
  have lowerEnd : (child.setParent upper.addr lower.addr).node lower.addr =
      cell (top tree.nil path) dir upper.addr (ptr tree.nil last) lower.key lowerColor := by
    rw [sixth.kept _ (by simpa using Ne.symm upperLower.1), node_set_child_self, lowerHung,
      set_child_near]
  refine ⟨child.setParent upper.addr lower.addr, ?_, ?_, kept⟩
  · have near : tree.childOf lower.addr dir = ptr tree.nil inner := by
      rw [RbTree.childOf, lowerRecord, cell_near]
    have conditional : (if cut.childOf lower.addr dir = cut.nil then cut
        else cut.setParent (cut.childOf lower.addr dir) upper.addr) = moved := by rw [between]
    simp only [rotateSubtree, sub, near]
    change (replaceAtParent ((if cut.childOf lower.addr dir = cut.nil then cut
      else cut.setParent (cut.childOf lower.addr dir) upper.addr).setParent lower.addr _) _ _ >>= _) = _
    rw [conditional, replaced]
    rfl
  · refine represents_of_items represents kept ?_ ?_ (holds_plug.2 ⟨?_, ?_⟩)
    · exact items_plug_congr (by cases dir <;> simp [branch, RedBlackTree.Tree.items]) path
    · rw [ptr_plug, ptr_branch]
      exact rootHung
    · simp only [holds_branch, kept.nil, ptr_branch]
      refine ⟨lowerEnd, ⟨upperEnd, ?_, ?_⟩, ?_⟩
      · apply holds_within whole _ outerHeld
        intro addr member
        grind
      · have early := holds_within third (by simpa using lowerInner) innerMoved
        have late := within_trans fourth toEnd
        apply holds_within late _ early
        intro addr member
        grind
      · apply holds_within whole _ lastHeld
        intro addr member
        grind
    · rw [kept.nil, ptr_branch]
      apply holds_path_within toEnd _ aboveHung
      intro addr member
      grind

end ParadiseOS.RbTreeSteps
