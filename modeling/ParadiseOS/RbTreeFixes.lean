import ParadiseOS.RbTreeSteps

/-!
# The fix-up loops

`insert_fix` starts from a red node below a path that takes a black tree, and
`remove_fix` from a position that is one black node short. Each round either
moves the same situation up the path or ends with a balanced tree. What is left
depends on the shape alone, not on the memory that holds it.
-/

namespace ParadiseOS.RbTreeFixes

open RbTreeModel RedBlackTree RbTreeShape RbTreeSteps

set_option autoImplicit false

variable {tree : RbTree} {focus : Shape} {path : Path} {count fuel : Nat}

theorem direction_of_focus {frame : RedBlackTree.Frame Entry}
    (represents : Represents tree (plug focus (frame :: path)))
    (parent : tree.parentOf (ptr tree.nil focus) = frame.item.addr)
    (inner : focus ≠ .leaf ∨ frame.other ≠ .leaf) :
    direction tree (ptr tree.nil focus) = .ok frame.dir := by
  obtain ⟨⟨_, _, above⟩, ⟨_, pathNodup, apart⟩, nonzero, sentinel, _⟩ := represents_plug.1 represents
  rw [path_addrs_cons, List.nodup_cons] at pathNodup
  simp only [mem_addrs_plug, path_addrs_cons, List.mem_cons, List.mem_append, not_or]
    at nonzero sentinel
  refine direction_ok parent (nonzero _ (.inr (.inl rfl))) above ?_
  intro same
  rcases inner with inner | inner
  · have member := ptr_mem inner tree.nil
    have other : frame.other ≠ .leaf := by
      intro leaf
      rw [same, leaf] at member
      exact sentinel.1 member
    apply apart member
    rw [path_addrs_cons, same]
    exact List.mem_cons_of_mem _ (List.mem_append_left _ (ptr_mem other tree.nil))
  · have member := ptr_mem inner tree.nil
    have other : focus ≠ .leaf := by
      intro leaf
      rw [← same, leaf] at member
      exact sentinel.2.2.1 member
    apply apart (ptr_mem other tree.nil)
    rw [path_addrs_cons, same]
    exact List.mem_cons_of_mem _ (List.mem_append_left _ member)

/-- A subtree beside the focus is reached by turning the other way. -/
theorem plug_turn (dir : Dir) (color : Color) (near far : Shape) (item : Entry) (path : Path) :
    plug (branch dir color near item far) path = plug far (⟨dir.inv, color, item, near⟩ :: path) := by
  rw [plug_cons, branch_inv]

/-- A red focus under a red parent, and what the code reads around it. -/
theorem insert_round {dir grandDir : Dir} {item grandItem : Entry} {other uncle : Shape}
    (inner : focus ≠ .leaf)
    (represents : Represents tree
      (plug focus (⟨dir, .red, item, other⟩ :: ⟨grandDir, .black, grandItem, uncle⟩ :: path))) :
    tree.parentOf (ptr tree.nil focus) = item.addr ∧ tree.parentOf item.addr = grandItem.addr ∧
      tree.colorOf item.addr = .red ∧ direction tree (ptr tree.nil focus) = .ok dir ∧
      direction tree item.addr = .ok grandDir ∧
      tree.childOf grandItem.addr grandDir.inv = ptr tree.nil uncle ∧
      tree.colorOf (ptr tree.nil uncle) = uncle.color := by
  have parent := parent_of_focus inner represents
  have above : Represents tree (plug (branch dir .red focus item other)
      (⟨grandDir, .black, grandItem, uncle⟩ :: path)) := represents
  have higher : Represents tree
      (plug (branch grandDir .black (branch dir .red focus item other) grandItem uncle) path) := above
  have beside := higher
  rw [plug_turn] at beside
  have grand := parent_of_branch above
  have side := direction_of_focus above (by rwa [ptr_branch]) (.inl (branch_ne_leaf _ _ _ _ _))
  rw [ptr_branch] at side
  exact ⟨parent, grand, color_of_branch above, direction_of_focus represents parent (.inl inner),
    side, far_of_branch higher, color_of_focus beside⟩

/-- Both children of the grandparent are red: the blackness moves down one level. -/
theorem insert_recolour {dir grandDir : Dir} {item grandItem : Entry} {other uncle : Shape}
    (inner : focus ≠ .leaf) (uncleRed : uncle.color = .red)
    (represents : Represents tree
      (plug focus (⟨dir, .red, item, other⟩ :: ⟨grandDir, .black, grandItem, uncle⟩ :: path))) :
    ∃ next, insertRound tree (ptr tree.nil focus) = .ok (next, grandItem.addr) ∧
      Represents next
        (plug (branch grandDir .red (branch dir .black focus item other) grandItem uncle.blacken)
          path) ∧ Kept tree next := by
  obtain ⟨parent, grand, red, _, side, reached, uncleColor⟩ := insert_round inner represents
  obtain ⟨near, uncleItem, far, same⟩ := exists_branch grandDir (ne_leaf_of_red uncleRed)
  have above : Represents tree (plug (branch dir .red focus item other)
      (⟨grandDir, .black, grandItem, uncle⟩ :: path)) := represents
  obtain ⟨first, keptFirst⟩ := set_color_ok above .black
  rw [plug_cons, plug_turn, same] at first
  obtain ⟨second, keptSecond⟩ := set_color_ok first .black
  rw [← plug_turn] at second
  obtain ⟨third, keptThird⟩ := set_color_ok second .red
  refine ⟨_, ?_, ?_, kept_trans keptFirst (kept_trans keptSecond keptThird)⟩
  · have unclePtr : ptr tree.nil uncle = uncleItem.addr := by rw [same, ptr_branch]
    simp only [insertRound, parent, if_true, side, Trap.ok_bind, Trap.pure_ok, grand, reached, unclePtr,
      unclePtr ▸ uncleColor, uncleRed, parent_of_set_color]
  · rw [same, blacken_branch]
    exact third

/-- The last rotation of `insert_fix`, around the grandparent. -/
theorem insert_straight {dir : Dir} {item grandItem : Entry} {near middle uncle : Shape}
    {itemColor grandColor : Color} {node : Nat} (inner : near ≠ .leaf)
    (pointer : node = ptr tree.nil near)
    (represents : Represents tree
      (plug (branch dir grandColor (branch dir itemColor near item middle) grandItem uncle) path)) :
    tree.parentOf node = item.addr ∧ tree.parentOf item.addr = grandItem.addr ∧
      ∃ next, rotateSubtree ((tree.setColor item.addr .black).setColor grandItem.addr .red)
        grandItem.addr dir.inv = .ok next ∧
      Represents next
        (plug (branch dir .black near item (branch dir .red middle grandItem uncle)) path) ∧
      Kept tree next := by
  have below : Represents tree (plug (branch dir itemColor near item middle)
      (⟨dir, grandColor, grandItem, uncle⟩ :: path)) := represents
  have lowest : Represents tree (plug near
      (⟨dir, itemColor, item, middle⟩ :: ⟨dir, grandColor, grandItem, uncle⟩ :: path)) := represents
  have parent : tree.parentOf node = item.addr := pointer ▸ parent_of_focus inner lowest
  have grand : tree.parentOf item.addr = grandItem.addr := parent_of_branch below
  obtain ⟨first, keptFirst⟩ := set_color_ok below .black
  have above : Represents (tree.setColor item.addr .black)
      (plug (branch dir grandColor (branch dir .black near item middle) grandItem uncle) path) := first
  obtain ⟨second, keptSecond⟩ := set_color_ok above .red
  rw [← branch_inv, ← branch_inv dir .black] at second
  obtain ⟨next, rotated, third, keptThird⟩ := rotate_subtree_ok second
  rw [branch_inv, branch_inv] at third
  exact ⟨parent, grand, next, rotated, third, kept_trans keptFirst (kept_trans keptSecond keptThird)⟩

/-- A red focus on the inner side is turned to the outer side of the grandparent. -/
theorem inner_turn_ok {dir grandDir : Dir} {item : Entry} {other : Shape}
    (red : Balanced focus .red count) (otherBalanced : Balanced other .black count) :
    ∃ near low middle, Balanced near .red count ∧ Balanced middle .black count ∧
      (branch grandDir .red near low middle).items = (branch dir .red focus item other).items ∧
      ∀ tree grandItem uncle, Represents tree
          (plug focus (⟨dir, .red, item, other⟩ :: ⟨grandDir, .black, grandItem, uncle⟩ :: path)) →
        ∃ next, innerTurn tree (ptr tree.nil focus) grandDir.inv = .ok (next, ptr next.nil near) ∧
          Represents next
            (plug (branch grandDir .black (branch grandDir .red near low middle) grandItem uncle) path) ∧
          Kept tree next := by
  have inner := ne_leaf_of_red (balanced_color red)
  by_cases straight : dir = grandDir
  · subst straight
    refine ⟨focus, item, other, red, otherBalanced, rfl, ?_⟩
    intro tree grandItem uncle represents
    obtain ⟨_, _, _, turn, _⟩ := insert_round inner represents
    refine ⟨tree, ?_, represents, kept_refl tree⟩
    rw [innerTurn, turn, Trap.ok_bind, if_neg (Ne.symm (inv_ne dir)), Trap.pure_ok]
  · obtain rfl := inv_of_ne straight
    obtain ⟨first, top, second, same⟩ := exists_branch grandDir inner
    rw [balanced_color red] at same
    rw [same] at red ⊢
    obtain ⟨_, firstBalanced, secondBalanced⟩ := balanced_red_branch red
    refine ⟨branch grandDir .red other item first, top, second,
      balanced_branch_red otherBalanced firstBalanced, secondBalanced, ?_, ?_⟩
    · cases grandDir <;> simp [branch, RedBlackTree.Tree.items, Dir.inv]
    · intro tree grandItem uncle represents
      obtain ⟨parent, _, _, turn, _⟩ := insert_round (branch_ne_leaf _ _ _ _ _) represents
      have below : Represents tree
          (plug (branch grandDir .red other item (branch grandDir .red first top second))
            (⟨grandDir, .black, grandItem, uncle⟩ :: path)) := by
        rw [← branch_inv grandDir]
        exact represents
      obtain ⟨turned, rotated, final, kept⟩ := rotate_subtree_ok below
      refine ⟨turned, ?_, final, kept⟩
      rw [innerTurn, turn, Trap.ok_bind, if_pos rfl, parent, inv_of_inv, rotated, ptr_branch,
        Trap.ok_bind, Trap.pure_ok]

/-- One round below a red parent moves the red node up, or leaves it under a black one. -/
theorem insert_round_ok {dir grandDir : Dir} {item grandItem : Entry} {other uncle : Shape}
    {uncleColor : Color} (red : Balanced focus .red count) (otherBalanced : Balanced other .black count)
    (uncleBalanced : Balanced uncle uncleColor count) (accepts : Accepts path .black (count + 1)) :
    ∃ higher above total, above.length < path.length + 2 ∧ Balanced higher .red total ∧
      Accepts above .black total ∧
      (plug higher above).items =
        (plug focus
          (⟨dir, .red, item, other⟩ :: ⟨grandDir, .black, grandItem, uncle⟩ :: path)).items ∧
      ∀ tree, Represents tree
          (plug focus (⟨dir, .red, item, other⟩ :: ⟨grandDir, .black, grandItem, uncle⟩ :: path)) →
        ∃ next, insertRound tree (ptr tree.nil focus) = .ok (next, ptr next.nil higher) ∧
          Represents next (plug higher above) ∧ Kept tree next := by
  have inner := ne_leaf_of_red (balanced_color red)
  cases uncleColor with
  | red =>
      refine ⟨branch grandDir .red (branch dir .black focus item other) grandItem uncle.blacken, path,
        count + 1, by omega, balanced_branch_red (balanced_branch_black red otherBalanced)
          (balanced_blacken_red uncleBalanced), accepts, ?_, ?_⟩
      · rw [plug_cons, plug_cons]
        apply items_plug_congr
        cases grandDir <;> cases dir <;> simp [branch, RedBlackTree.Tree.items]
      · intro tree represents
        obtain ⟨next, round, moved, kept⟩ :=
          insert_recolour inner (balanced_color uncleBalanced) represents
        exact ⟨next, by rw [ptr_branch]; exact round, moved, kept⟩
  | black =>
      obtain ⟨near, low, middle, nearBalanced, middleBalanced, same, turn⟩ :=
        @inner_turn_ok _ path _ dir grandDir item _ red otherBalanced
      refine ⟨near, ⟨grandDir, .black, low, branch grandDir .red middle grandItem uncle⟩ :: path, count,
        by simp, nearBalanced,
        .black (balanced_branch_red middleBalanced uncleBalanced) accepts, ?_, ?_⟩
      · rw [plug_cons, plug_cons, plug_cons]
        apply items_plug_congr
        cases grandDir <;>
          simp only [branch, RedBlackTree.Tree.items] at same ⊢ <;> simp [← same]
      · intro tree represents
        obtain ⟨parent, grand, _, _, side, reached, uncleColor⟩ := insert_round inner represents
        rw [balanced_color uncleBalanced] at uncleColor
        obtain ⟨turned, turning, whole, keptTurn⟩ := turn tree grandItem uncle represents
        obtain ⟨up, higher, next, rotated, final, kept⟩ :=
          insert_straight (ne_leaf_of_red (balanced_color nearBalanced)) rfl whole
        have keptAll := kept_trans keptTurn kept
        refine ⟨next, ?_, final, keptAll⟩
        simp only [insertRound, parent, side, Trap.ok_bind, grand, reached, uncleColor, reduceCtorEq,
          if_false, turning, Trap.pure_ok, parent_of_set_color, up, higher, rotated, kept.nil]

theorem insert_fix_loop_ok (bounded : path.length < fuel) (red : Balanced focus .red count)
    (accepts : Accepts path .black count) :
    ∃ shape color total, Balanced shape color total ∧ shape.items = (plug focus path).items ∧
      ∀ tree, Represents tree (plug focus path) →
        ∃ fixed, insertFixLoop fuel tree (ptr tree.nil focus) = .ok fixed ∧
          Represents fixed shape ∧ Kept tree fixed := by
  induction fuel generalizing focus path count with
  | zero => omega
  | succ fuel ih =>
      have inner := ne_leaf_of_red (balanced_color red)
      cases accepts with
      | top =>
          refine ⟨focus, .red, count, red, rfl, ?_⟩
          intro tree represents
          refine ⟨tree, ?_, represents, kept_refl tree⟩
          rw [insertFixLoop, parent_of_focus inner represents, top, represents.nilBlack, if_neg (by simp)]
      | @black dir item other path _ otherColor _ otherBalanced above =>
          obtain ⟨total, balanced⟩ :=
            balanced_plug above
              (balanced_branch_black red otherBalanced :
                Balanced (branch dir .black focus item other) .black (count + 1))
          refine ⟨plug (branch dir .black focus item other) path, .black, total, balanced, rfl, ?_⟩
          intro tree represents
          have above : Represents tree (plug (branch dir .black focus item other) path) := represents
          refine ⟨tree, ?_, above, kept_refl tree⟩
          rw [insertFixLoop, parent_of_focus inner represents, top, color_of_branch above, if_neg (by simp)]
      | @red dir item other path _ otherBalanced above =>
          cases above with
          | @black grandDir grandItem uncle path _ uncleColor _ uncleBalanced above =>
              obtain ⟨higher, upper, total, shallower, redder, takes, items, step⟩ :=
                @insert_round_ok _ path _ dir grandDir item grandItem _ _ _ red otherBalanced
                  uncleBalanced above
              have fewer : upper.length < fuel := by
                simp only [List.length_cons] at bounded
                omega
              obtain ⟨shape, color, height, balanced, same, later⟩ := ih fewer redder takes
              refine ⟨shape, color, height, balanced, same.trans items, ?_⟩
              intro tree represents
              obtain ⟨next, round, moved, kept⟩ := step tree represents
              obtain ⟨fixed, returned, final, keptLater⟩ := later next moved
              obtain ⟨parent, _, parentRed, _⟩ := insert_round inner represents
              refine ⟨fixed, ?_, final, kept_trans kept keptLater⟩
              rw [insert_fix_loop_round, parent, if_pos parentRed, round]
              exact returned

/-- Blackening the focus; the sentinel is black already. -/
theorem blacken_ok (represents : Represents tree (plug focus path)) :
    Represents (tree.setColor (ptr tree.nil focus) .black) (plug focus.blacken path) ∧
      Kept tree (tree.setColor (ptr tree.nil focus) .black) := by
  by_cases inner : focus = .leaf
  · have same : tree.setColor (ptr tree.nil focus) .black = tree := by
      have nilBlack := represents.nilBlack
      rw [inner, RbTree.setColor, RbTree.write]
      congr 1
      funext addr
      split_ifs with isNil
      · rw [isNil, ptr, ← nilBlack]
        rfl
      · rfl
    rw [same, inner]
    rw [inner] at represents
    exact ⟨represents, kept_refl tree⟩
  · obtain ⟨near, item, far, same⟩ := exists_branch .left inner
    rw [same] at represents ⊢
    rw [ptr_branch, blacken_branch]
    exact set_color_ok represents .black

theorem insert_fix_ok (bounded : path.length < loopLimit) (red : Balanced focus .red count)
    (accepts : Accepts path .black count) :
    ∃ shape total, Balanced shape .black total ∧ shape.items = (plug focus path).items ∧
      ∀ tree, Represents tree (plug focus path) →
        ∃ fixed, insertFix tree (ptr tree.nil focus) = .ok fixed ∧
          Represents fixed shape ∧ Kept tree fixed := by
  obtain ⟨shape, color, total, balanced, items, step⟩ := insert_fix_loop_ok bounded red accepts
  obtain ⟨height, rooted⟩ := balanced_blacken balanced
  refine ⟨shape.blacken, height, rooted, by rw [RedBlackTree.Tree.items_blacken, items], ?_⟩
  intro tree represents
  obtain ⟨looped, returned, final, kept⟩ := step tree represents
  have blackened : Represents looped (plug shape []) := final
  obtain ⟨last, keptLast⟩ := blacken_ok blackened
  refine ⟨looped.setColor looped.root .black, ?_, ?_, ?_⟩
  · rw [insertFix, returned, Trap.ok_bind, Trap.pure_ok]
  · rw [final.root]
    exact last
  · rw [final.root]
    exact kept_trans kept keptLast

/-- A position one black node short. The sentinel stands for an empty focus and
then carries its parent. -/
structure Deficit (tree : RbTree) (focus : Shape) (path : Path) (count : Nat) : Prop where
  represents : Represents tree (plug focus path)
  short : Short focus count
  accepts : Accepts path .black (count + 1)
  parent : tree.parentOf (ptr tree.nil focus) = top tree.nil path

/-- The rounds `remove_fix` has left. -/
def rounds (focus : Shape) (path : Path) : Nat :=
  match focus.color with
  | .red => 0
  | .black => path.length

theorem parent_kept {next : RbTree} {frame : RedBlackTree.Frame Entry} (kept : Kept tree next)
    (represents : Represents next (plug focus (frame :: path)))
    (parent : tree.parentOf (ptr tree.nil focus) = frame.item.addr) :
    next.parentOf (ptr next.nil focus) = frame.item.addr := by
  by_cases inner : focus = .leaf
  · rw [inner] at parent ⊢
    rw [kept.nil, ptr, RbTree.parentOf, kept.sentinel]
    exact parent
  · exact parent_of_focus inner represents

theorem black_sibling_red {dir : Dir} {item low : Entry} {near far : Shape}
    (represents : Represents tree
      (plug focus (⟨dir, .black, item, branch dir .red near low far⟩ :: path)))
    (parent : tree.parentOf (ptr tree.nil focus) = item.addr) :
    ∃ next, blackSibling tree (ptr tree.nil focus) dir.inv = .ok (next, ptr next.nil near) ∧
      Represents next
        (plug focus (⟨dir, .red, item, near⟩ :: ⟨dir, .black, low, far⟩ :: path)) ∧
      Kept tree next := by
  have above : Represents tree
      (plug (branch dir .black focus item (branch dir .red near low far)) path) := represents
  have reached := far_of_branch above
  have beside := above
  rw [plug_turn] at beside
  have siblingRed := color_of_focus beside
  rw [ptr_branch] at reached siblingRed
  obtain ⟨first, keptFirst⟩ := set_color_ok beside .black
  rw [← plug_turn] at first
  obtain ⟨second, keptSecond⟩ := set_color_ok first .red
  obtain ⟨next, rotated, third, keptThird⟩ := rotate_subtree_ok second
  have kept := kept_trans keptFirst (kept_trans keptSecond keptThird)
  have final : Represents next
      (plug focus (⟨dir, .red, item, near⟩ :: ⟨dir, .black, low, far⟩ :: path)) := third
  have under : Represents next
      (plug (branch dir .red focus item near) (⟨dir, .black, low, far⟩ :: path)) := third
  refine ⟨next, ?_, final, kept⟩
  have parentEnd := parent_kept kept final parent
  rw [kept.nil] at parentEnd
  simp only [blackSibling, parent, reached, siblingRed, color_branch, if_true, parent_of_set_color,
    inv_of_inv, rotated, Trap.ok_bind, Trap.pure_ok, parentEnd, far_of_branch under]

theorem black_sibling_black {dir : Dir} {color : Color} {item : Entry} {other : Shape}
    (black : other.color = .black)
    (represents : Represents tree (plug focus (⟨dir, color, item, other⟩ :: path)))
    (parent : tree.parentOf (ptr tree.nil focus) = item.addr) :
    blackSibling tree (ptr tree.nil focus) dir.inv = .ok (tree, ptr tree.nil other) := by
  have above : Represents tree (plug (branch dir color focus item other) path) := represents
  have reached := far_of_branch above
  have beside := above
  rw [plug_turn] at beside
  have siblingBlack := color_of_focus beside
  rw [black] at siblingBlack
  simp only [blackSibling, parent, reached, siblingBlack, reduceCtorEq, if_false, Trap.pure_ok]

section Sibling

variable {dir : Dir} {color siblingColor : Color} {item low : Entry} {near far : Shape}

/-- The sibling of the focus as a focus of its own. -/
theorem sibling_focus
    (represents : Represents tree
      (plug focus (⟨dir, color, item, branch dir siblingColor near low far⟩ :: path))) :
    Represents tree (plug (branch dir siblingColor near low far)
      (⟨dir.inv, color, item, focus⟩ :: path)) := by
  rw [plug_cons, plug_turn] at represents
  exact represents

/-- What the code reads of the sibling's children. -/
theorem sibling_children
    (represents : Represents tree
      (plug focus (⟨dir, color, item, branch dir siblingColor near low far⟩ :: path))) :
    tree.childOf low.addr dir = ptr tree.nil near ∧
      tree.childOf low.addr dir.inv = ptr tree.nil far ∧
      tree.colorOf (ptr tree.nil near) = near.color ∧
      tree.colorOf (ptr tree.nil far) = far.color := by
  have sibling := sibling_focus represents
  have nearFocus : Represents tree (plug near
      (⟨dir, siblingColor, low, far⟩ :: ⟨dir.inv, color, item, focus⟩ :: path)) := sibling
  have farFocus := sibling
  rw [plug_turn] at farFocus
  exact ⟨near_of_branch sibling, far_of_branch sibling, color_of_focus nearFocus,
    color_of_focus farFocus⟩

theorem both_black_iff
    (represents : Represents tree
      (plug focus (⟨dir, color, item, branch dir siblingColor near low far⟩ :: path))) :
    (tree.colorOf (tree.childOf low.addr .left) = .black ∧
      tree.colorOf (tree.childOf low.addr .right) = .black) ↔
      near.color = .black ∧ far.color = .black := by
  obtain ⟨nearChild, farChild, nearColor, farColor⟩ := sibling_children represents
  cases dir with
  | left =>
      rw [nearChild, show tree.childOf low.addr .right = _ from farChild, nearColor, farColor]
  | right =>
      rw [nearChild, show tree.childOf low.addr .left = _ from farChild, nearColor, farColor,
        and_comm]

/-- Both children of the sibling are black: the deficit moves up. -/
theorem sibling_recolour (nearBlack : near.color = .black) (farBlack : far.color = .black)
    (represents : Represents tree
      (plug focus (⟨dir, color, item, branch dir siblingColor near low far⟩ :: path)))
    (parent : tree.parentOf (ptr tree.nil focus) = item.addr) :
    ∃ next, siblingRound tree (ptr tree.nil focus) dir.inv low.addr = .ok (next, item.addr) ∧
      Represents next (plug (branch dir color focus item (branch dir .red near low far)) path) ∧
      Kept tree next := by
  obtain ⟨next, kept⟩ := set_color_ok (sibling_focus represents) .red
  rw [← plug_turn] at next
  refine ⟨_, ?_, next, kept⟩
  rw [siblingRound, if_pos ((both_black_iff represents).2 ⟨nearBlack, farBlack⟩), parent]

/-- A red child of the sibling is on its near side: it changes places with the sibling. -/
theorem red_far_child_near {newLow : Entry} {first second : Shape} (farBlack : far.color = .black)
    (represents : Represents tree
      (plug focus
        (⟨dir, color, item, branch dir .black (branch dir .red first newLow second) low far⟩ ::
          path)))
    (parent : tree.parentOf (ptr tree.nil focus) = item.addr) :
    ∃ next, redFarChild tree (ptr tree.nil focus) dir.inv low.addr = .ok (next, newLow.addr) ∧
      Represents next
        (plug focus
          (⟨dir, color, item, branch dir .black first newLow (branch dir .red second low far)⟩ ::
            path)) ∧ Kept tree next := by
  obtain ⟨nearChild, farChild, _, farColor⟩ := sibling_children represents
  rw [ptr_branch] at nearChild
  have sibling := sibling_focus represents
  have nearFocus : Represents tree (plug (branch dir .red first newLow second)
      (⟨dir, .black, low, far⟩ :: ⟨dir.inv, color, item, focus⟩ :: path)) := sibling
  obtain ⟨one, keptOne⟩ := set_color_ok nearFocus .black
  have up : Represents (tree.setColor newLow.addr .black)
      (plug (branch dir .black (branch dir .black first newLow second) low far)
        (⟨dir.inv, color, item, focus⟩ :: path)) := one
  obtain ⟨two, keptTwo⟩ := set_color_ok up .red
  rw [← branch_inv, ← branch_inv dir .black] at two
  obtain ⟨next, rotated, three, keptThree⟩ := rotate_subtree_ok two
  rw [branch_inv, branch_inv] at three
  have kept := kept_trans keptOne (kept_trans keptTwo keptThree)
  have final := three
  rw [← plug_turn] at final
  have focused : Represents next
      (plug focus
        (⟨dir, color, item, branch dir .black first newLow (branch dir .red second low far)⟩ ::
          path)) := final
  refine ⟨next, ?_, focused, kept⟩
  have parentEnd := parent_kept kept focused parent
  have reached := far_of_branch final
  rw [ptr_branch] at reached
  rw [kept.nil] at parentEnd
  simp only [redFarChild, farChild, farColor, farBlack, if_true, inv_of_inv, nearChild, rotated,
    Trap.ok_bind, Trap.pure_ok, parentEnd, reached]

/-- The far child of the sibling is red: a rotation around the parent makes up for
the missing black node. -/
theorem far_rotation {sibling : Nat} (farRed : far.color = .red) (pointer : sibling = low.addr)
    (represents : Represents tree
      (plug focus (⟨dir, color, item, branch dir siblingColor near low far⟩ :: path))) :
    ∃ next, rotateSubtree
        (((tree.setColor sibling (tree.colorOf item.addr)).setColor item.addr .black).setColor
          (tree.childOf sibling dir.inv) .black) item.addr dir = .ok next ∧
      Represents next
        (plug (branch dir color (branch dir .black focus item near) low far.blacken) path) ∧
      Kept tree next := by
  obtain ⟨nearChild, farChild, _, _⟩ := sibling_children represents
  obtain ⟨inner, farItem, outer, same⟩ := exists_branch dir (ne_leaf_of_red farRed)
  rw [same, ptr_branch] at farChild
  have whole : Represents tree
      (plug (branch dir color focus item (branch dir siblingColor near low far)) path) := represents
  obtain ⟨one, keptOne⟩ := set_color_ok (sibling_focus represents) color
  rw [← plug_turn] at one
  obtain ⟨two, keptTwo⟩ := set_color_ok one .black
  rw [plug_turn, plug_turn, same] at two
  obtain ⟨three, keptThree⟩ := set_color_ok two .black
  rw [← plug_turn, ← plug_turn] at three
  obtain ⟨next, rotated, final, keptLast⟩ := rotate_subtree_ok three
  refine ⟨next, ?_, ?_, kept_trans keptOne (kept_trans keptTwo (kept_trans keptThree keptLast))⟩
  · rw [pointer, color_of_branch whole, farChild]
    exact rotated
  · rw [same, blacken_branch]
    exact final

/-- One child of the sibling is red: one or two rotations restore the black height. -/
theorem sibling_rotate {nearColor farColor : Color}
    (redChild : ¬ (near.color = .black ∧ far.color = .black))
    (focusBalanced : Balanced focus .black count) (nearBalanced : Balanced near nearColor count)
    (farBalanced : Balanced far farColor count)
    (accepts : Accepts (⟨dir, color, item, branch dir .black near low far⟩ :: path) .black (count + 1)) :
    ∃ shape total, Balanced shape .black total ∧
      shape.items =
        (plug focus (⟨dir, color, item, branch dir .black near low far⟩ :: path)).items ∧
      ∀ tree, Represents tree
          (plug focus (⟨dir, color, item, branch dir .black near low far⟩ :: path)) →
        tree.parentOf (ptr tree.nil focus) = item.addr →
        ∃ next, siblingRound tree (ptr tree.nil focus) dir.inv low.addr = .ok (next, next.root) ∧
          Represents next shape ∧ Kept tree next := by
  cases farColor with
  | red =>
      have farRed := balanced_color farBalanced
      obtain ⟨total, balanced⟩ := balanced_reframe accepts
        (balanced_branch_black focusBalanced nearBalanced) (balanced_blacken_red farBalanced)
      refine ⟨plug (branch dir color (branch dir .black focus item near) low far.blacken) path, total, balanced,
        ?_, ?_⟩
      · rw [plug_cons]
        apply items_plug_congr
        cases dir <;> simp [branch, RedBlackTree.Tree.items]
      · intro tree represents parent
        obtain ⟨_, farChild, _, farRead⟩ := sibling_children represents
        rw [farRed] at farRead
        obtain ⟨next, rotated, final, kept⟩ := far_rotation farRed rfl represents
        refine ⟨next, ?_, final, kept⟩
        rw [siblingRound, if_neg (fun black => redChild ((both_black_iff represents).1 black))]
        rw [farChild] at rotated
        simp only [redFarChild, farChild, farRead, reduceCtorEq, if_false, Trap.pure_ok,
          Trap.ok_bind, parent_of_set_color, child_of_set_color, parent, inv_of_inv, rotated]
  | black =>
      have farBlack := balanced_color farBalanced
      have nearRed : nearColor = .red := by
        rw [balanced_color nearBalanced, farBlack] at redChild
        cases nearColor with
        | red => rfl
        | black => exact absurd ⟨rfl, rfl⟩ redChild
      obtain ⟨first, newLow, second, same⟩ := exists_branch dir
        (ne_leaf_of_red (nearRed ▸ balanced_color nearBalanced))
      rw [balanced_color nearBalanced, nearRed] at same
      rw [same] at nearBalanced redChild accepts ⊢
      obtain ⟨_, firstBalanced, secondBalanced⟩ := balanced_red_branch nearBalanced
      obtain ⟨total, balanced⟩ := balanced_reframe accepts
        (balanced_branch_black focusBalanced firstBalanced)
        (balanced_branch_black secondBalanced farBalanced)
      refine ⟨plug (branch dir color (branch dir .black focus item first) newLow
        (branch dir .black second low far)) path, total, balanced, ?_, ?_⟩
      · rw [plug_cons]
        apply items_plug_congr
        cases dir <;> simp [branch, RedBlackTree.Tree.items]
      · intro tree represents parent
        obtain ⟨_, farChild, _, _⟩ := sibling_children represents
        obtain ⟨turned, brought, middle, keptTurn⟩ := red_far_child_near farBlack represents parent
        have parentTurned := parent_kept keptTurn middle parent
        rw [keptTurn.nil] at parentTurned
        obtain ⟨next, rotated, final, kept⟩ := far_rotation (color_branch _ _ _ _ _) rfl middle
        rw [blacken_branch] at final
        refine ⟨next, ?_, final, kept_trans keptTurn kept⟩
        rw [siblingRound, if_neg (fun black => redChild ((both_black_iff represents).1 black))]
        simp only [brought, Trap.ok_bind, Trap.pure_ok, parent_of_set_color, child_of_set_color,
          parentTurned, inv_of_inv, rotated]

end Sibling

theorem deficit_of_root {shape : Shape} {next : RbTree} (represents : Represents next shape)
    (balanced : Balanced shape .black count) (inner : shape ≠ .leaf) :
    Deficit next shape [] count where
  represents := represents
  short := short_of_balanced balanced
  accepts := .top
  parent := by
    have focused : Represents next (plug shape []) := represents
    exact parent_of_focus inner focused

/-- One round with a black sibling moves the deficit up or ends with a balanced tree. -/
theorem sibling_round_ok {dir : Dir} {color : Color} {item : Entry} {sibling : Shape}
    (black : Balanced sibling .black (count + 1)) (focusBalanced : Balanced focus .black count)
    (accepts : Accepts (⟨dir, color, item, sibling⟩ :: path) .black (count + 1)) :
    ∃ higher above total, rounds higher above ≤ path.length ∧
      (color = .red → rounds higher above = 0) ∧ Short higher total ∧ Accepts above .black (total + 1) ∧
      (plug higher above).items = (plug focus (⟨dir, color, item, sibling⟩ :: path)).items ∧
      ∀ tree, Represents tree (plug focus (⟨dir, color, item, sibling⟩ :: path)) →
        tree.parentOf (ptr tree.nil focus) = item.addr →
        ∃ next, siblingRound tree (ptr tree.nil focus) dir.inv (ptr tree.nil sibling) =
            .ok (next, ptr next.nil higher) ∧
          Deficit next higher above total ∧ Kept tree next := by
  have inner : sibling ≠ .leaf := by
    rintro rfl
    cases black
  obtain ⟨near, low, far, same⟩ := exists_branch dir inner
  rw [balanced_color black] at same
  rw [same] at black accepts ⊢
  obtain ⟨nearColor, farColor, below, _, heights, nearBalanced, farBalanced⟩ :=
    balanced_black_branch black
  obtain rfl : below = count := by omega
  by_cases blackChildren : near.color = .black ∧ far.color = .black
  · obtain ⟨nearBlack, farBlack⟩ := blackChildren
    have bothBlack := And.intro nearBlack farBlack
    rw [balanced_color nearBalanced] at nearBlack
    rw [balanced_color farBalanced] at farBlack
    rw [nearBlack] at nearBalanced
    rw [farBlack] at farBalanced
    have sides : Balanced (branch dir .black focus item (branch dir .red near low far)) .black
        (below + 1) :=
      balanced_branch_black focusBalanced (balanced_branch_red nearBalanced farBalanced)
    have items : (plug (branch dir color focus item (branch dir .red near low far)) path).items =
        (plug focus (⟨dir, color, item, branch dir .black near low far⟩ :: path)).items := by
      rw [plug_cons]
      apply items_plug_congr
      cases dir <;> simp [branch, RedBlackTree.Tree.items]
    refine ⟨branch dir color focus item (branch dir .red near low far), path, ?_⟩
    -- the colours of the new position, and the step that leads to it
    have moves : ∀ total, Short (branch dir color focus item (branch dir .red near low far)) total →
        Accepts path .black (total + 1) → ∀ tree,
        Represents tree (plug focus (⟨dir, color, item, branch dir .black near low far⟩ :: path)) →
        tree.parentOf (ptr tree.nil focus) = item.addr →
        ∃ next, siblingRound tree (ptr tree.nil focus) dir.inv (ptr tree.nil (branch dir .black near low far)) =
            .ok (next, ptr next.nil (branch dir color focus item (branch dir .red near low far))) ∧
          Deficit next (branch dir color focus item (branch dir .red near low far)) path total ∧
          Kept tree next := by
      intro total short takes tree represents parent
      obtain ⟨next, returned, final, kept⟩ := sibling_recolour bothBlack.1 bothBlack.2 represents parent
      have up := parent_of_focus (branch_ne_leaf _ _ _ _ _) final
      rw [ptr_branch]
      exact ⟨next, by rw [ptr_branch]; exact returned, ⟨final, short, takes, up⟩, kept⟩
    cases accepts with
    | red _ above =>
        have short : Short (branch dir .red focus item (branch dir .red near low far)) below := by
          simp only [Short, color_branch, blacken_branch]
          exact sides
        exact ⟨below, by simp [rounds], by simp [rounds], short, accepts_black above, items,
          moves below short (accepts_black above)⟩
    | black _ above =>
        have short : Short (branch dir .black focus item (branch dir .red near low far)) (below + 1) := by
          simp only [Short, color_branch]
          exact sides
        exact ⟨below + 1, by simp [rounds], fun red => absurd red (by decide), short, above, items,
          moves (below + 1) short above⟩
  · obtain ⟨shape, total, balanced, items, step⟩ :=
      sibling_rotate blackChildren focusBalanced nearBalanced farBalanced accepts
    have nonempty : shape ≠ .leaf := by
      rintro rfl
      exact items_below_frame focus _ path items.symm
    refine ⟨shape, [], total, ?_, ?_, short_of_balanced balanced, .top, items, ?_⟩
    · simp only [rounds]
      split <;> simp
    · simp only [rounds]
      split <;> simp
    · intro tree represents parent
      obtain ⟨next, returned, final, kept⟩ := step tree represents parent
      rw [ptr_branch]
      refine ⟨next, ?_, deficit_of_root final balanced nonempty, kept⟩
      rw [← final.root]
      exact returned

theorem remove_round_ok {frame : RedBlackTree.Frame Entry} (focusBlack : focus.color = .black)
    (short : Short focus count) (accepts : Accepts (frame :: path) .black (count + 1)) :
    ∃ higher above total, rounds higher above ≤ path.length ∧ Short higher total ∧
      Accepts above .black (total + 1) ∧ (plug higher above).items = (plug focus (frame :: path)).items ∧
      ∀ tree, Deficit tree focus (frame :: path) count →
        ∃ next, removeRound tree (ptr tree.nil focus) = .ok (next, ptr next.nil higher) ∧
          Deficit next higher above total ∧ Kept tree next := by
  have focusBalanced : Balanced focus .black count := by
    simp only [Short, focusBlack] at short
    exact short
  -- the sibling of a short position is not empty
  obtain ⟨otherColor, otherBalanced⟩ : ∃ color, Balanced frame.other color (count + 1) := by
    cases accepts with
    | red other _ => exact ⟨_, other⟩
    | black other _ => exact ⟨_, other⟩
  have otherInner : frame.other ≠ .leaf := by
    intro leaf
    rw [leaf] at otherBalanced
    cases otherBalanced
  have turned : ∀ tree, Deficit tree focus (frame :: path) count →
      removeRound tree (ptr tree.nil focus) =
        (blackSibling tree (ptr tree.nil focus) frame.dir.inv).bind fun pair =>
          siblingRound pair.1 (ptr tree.nil focus) frame.dir.inv pair.2 := by
    intro tree deficit
    have side := direction_of_focus deficit.represents deficit.parent (.inr otherInner)
    rw [removeRound, side, Trap.ok_bind]
    rfl
  obtain ⟨dir, color, item, other⟩ := frame
  cases otherColor with
  | black =>
      obtain ⟨higher, above, total, fewer, _, shorter, takes, items, step⟩ :=
        sibling_round_ok otherBalanced focusBalanced accepts
      refine ⟨higher, above, total, fewer, shorter, takes, items, ?_⟩
      intro tree deficit
      obtain ⟨next, returned, moved, kept⟩ := step tree deficit.represents deficit.parent
      refine ⟨next, ?_, moved, kept⟩
      rw [turned tree deficit, black_sibling_black (balanced_color otherBalanced) deficit.represents deficit.parent]
      exact returned
  | red =>
      cases accepts with
      | red black _ => cases balanced_color black ▸ balanced_color otherBalanced
      | black _ higherAccepts =>
          obtain ⟨near, low, far, same⟩ := exists_branch dir otherInner
          simp only at same
          rw [balanced_color otherBalanced] at same
          rw [same] at otherBalanced turned ⊢
          obtain ⟨_, nearBalanced, farBalanced⟩ := balanced_red_branch otherBalanced
          obtain ⟨higher, above, total, _, ended, shorter, takes, items, step⟩ :=
            @sibling_round_ok focus (⟨dir, .black, low, far⟩ :: path) count dir .red item near nearBalanced
              focusBalanced (.red nearBalanced (.black farBalanced higherAccepts))
          refine ⟨higher, above, total, ?_, shorter, takes, ?_, ?_⟩
          · rw [ended rfl]
            exact Nat.zero_le _
          · rw [items, plug_cons, plug_cons, plug_cons]
            apply items_plug_congr
            cases dir <;> simp [branch, RedBlackTree.Tree.items]
          · intro tree deficit
            obtain ⟨represents, _, _, parent⟩ := deficit
            obtain ⟨middleTree, reached, middle, keptTurn⟩ := black_sibling_red represents parent
            have parentTurned := parent_kept keptTurn middle parent
            obtain ⟨next, returned, moved, kept⟩ := step middleTree middle parentTurned
            refine ⟨next, ?_, moved, kept_trans keptTurn kept⟩
            rw [turned tree ⟨represents, ‹_›, ‹_›, parent⟩, reached, ← keptTurn.nil]
            exact returned

theorem remove_fix_loop_ok (bounded : rounds focus path < fuel) (short : Short focus count)
    (accepts : Accepts path .black (count + 1)) :
    ∃ last upper, (∃ total, Balanced (plug last.blacken upper) .black total) ∧
      (plug last upper).items = (plug focus path).items ∧
      ∀ tree, Deficit tree focus path count →
        ∃ fixed, removeFixLoop fuel tree (ptr tree.nil focus) = .ok (fixed, ptr fixed.nil last) ∧
          Represents fixed (plug last upper) ∧ Kept tree fixed := by
  induction fuel generalizing focus path count with
  | zero => omega
  | succ fuel ih =>
      cases color : focus.color with
      | red =>
          simp only [Short, color] at short
          refine ⟨focus, path, balanced_plug accepts short, rfl, ?_⟩
          intro tree deficit
          refine ⟨tree, ?_, deficit.represents, kept_refl tree⟩
          rw [removeFixLoop, color_of_focus deficit.represents, color, if_neg (by simp)]
      | black =>
          cases path with
          | nil =>
              have shortBlack := short
              simp only [Short, color] at shortBlack
              refine ⟨focus, [], balanced_blacken shortBlack, rfl, ?_⟩
              intro tree deficit
              refine ⟨tree, ?_, deficit.represents, kept_refl tree⟩
              have root := deficit.represents.root
              rw [plug_nil] at root
              rw [removeFixLoop, root, if_neg (by simp)]
          | cons frame path =>
              obtain ⟨higher, above, total, fewer, shorter, takes, items, step⟩ :=
                remove_round_ok color short accepts
              have shallower : rounds higher above < fuel := by
                simp only [rounds, color, List.length_cons] at bounded
                omega
              obtain ⟨last, upper, balanced, same, later⟩ := ih shallower shorter takes
              refine ⟨last, upper, balanced, same.trans items, ?_⟩
              intro tree deficit
              obtain ⟨next, returned, moved, kept⟩ := step tree deficit
              obtain ⟨fixed, looped, final, keptLater⟩ := later next moved
              refine ⟨fixed, ?_, final, kept_trans kept keptLater⟩
              rw [removeFixLoop, color_of_focus deficit.represents, color,
                if_pos ⟨focus_ne_root deficit.represents, rfl⟩, returned, Trap.ok_bind]
              exact looped

theorem remove_fix_ok (bounded : path.length < loopLimit) (short : Short focus count)
    (accepts : Accepts path .black (count + 1)) :
    ∃ shape total, Balanced shape .black total ∧ shape.items = (plug focus path).items ∧
      ∀ tree, Deficit tree focus path count →
        ∃ fixed, removeFix tree (ptr tree.nil focus) = .ok fixed ∧
          Represents fixed shape ∧ Kept tree fixed := by
  have few : rounds focus path < loopLimit := by
    apply Nat.lt_of_le_of_lt _ bounded
    simp only [rounds]
    split <;> simp
  obtain ⟨last, upper, ⟨total, balanced⟩, items, step⟩ := remove_fix_loop_ok few short accepts
  refine ⟨_, total, balanced, ?_, ?_⟩
  · rw [items_plug_congr (RedBlackTree.Tree.items_blacken last), items]
  · intro tree deficit
    obtain ⟨looped, returned, final, kept⟩ := step tree deficit
    obtain ⟨blackened, keptLast⟩ := blacken_ok final
    refine ⟨_, ?_, blackened, kept_trans kept keptLast⟩
    rw [removeFix, returned, Trap.ok_bind]
    rfl

end ParadiseOS.RbTreeFixes
