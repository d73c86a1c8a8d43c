import ParadiseOS.KernelTrap
import ParadiseOS.MachineWord
import ParadiseOS.RedBlackTree

/-!
# The intrusive tree of `process/rb_tree.c`

Nodes are records at addresses, linked by pointers to parent and children; the
tree's own `nil` record is the sentinel, at the address `nil`. The node objects
are the callers' and do not overlap, so that memory is a map from the address
of a node to its fields. A null pointer is 0.
-/

namespace ParadiseOS.RbTreeModel

open MachineWord
open RedBlackTree (Color Dir)

set_option autoImplicit false

structure RbNode where
  parent : Nat
  left : Nat
  right : Nat
  key : Nat
  color : Color
  deriving DecidableEq

structure RbTree where
  root : Nat
  nil : Nat
  count : Nat
  node : Nat → RbNode

namespace RbNode

def child (node : RbNode) : Dir → Nat
  | .left => node.left
  | .right => node.right

def setChild (node : RbNode) (dir : Dir) (ptr : Nat) : RbNode :=
  match dir with
  | .left => { node with left := ptr }
  | .right => { node with right := ptr }

end RbNode

namespace RbTree

variable (tree : RbTree)

def parentOf (ptr : Nat) : Nat := (tree.node ptr).parent

def childOf (ptr : Nat) (dir : Dir) : Nat := (tree.node ptr).child dir

def colorOf (ptr : Nat) : Color := (tree.node ptr).color

def keyOf (ptr : Nat) : Nat := (tree.node ptr).key

def write (ptr : Nat) (change : RbNode → RbNode) : RbTree :=
  { tree with node := fun other => if other = ptr then change (tree.node ptr) else tree.node other }

def setParent (ptr parent : Nat) : RbTree :=
  tree.write ptr fun node => { node with parent := parent }

def setChild (ptr : Nat) (dir : Dir) (child : Nat) : RbTree :=
  tree.write ptr fun node => node.setChild dir child

def setColor (ptr : Nat) (color : Color) : RbTree :=
  tree.write ptr fun node => { node with color := color }

end RbTree

/-- The side on which a node hangs from its parent. -/
def direction (tree : RbTree) (node : Nat) : Except Trap Dir := do
  kernelAssert (tree.parentOf node ≠ 0)
  pure (if node = tree.childOf (tree.parentOf node) .left then .left else .right)

/-- `if (NIL(parent)) tree->root = ptr; else parent->child[dir] = ptr;` for the
parent of `node` and the side of `node`. -/
def replaceAtParent (tree : RbTree) (node ptr : Nat) : Except Trap RbTree :=
  if tree.parentOf node = tree.nil then .ok { tree with root := ptr }
  else do
    let dir ← direction tree node
    pure (tree.setChild (tree.parentOf node) dir ptr)

def rotateSubtree (tree : RbTree) (node : Nat) (dir : Dir) : Except Trap RbTree := do
  let sub := tree.childOf node dir.inv
  let tree := tree.setChild node dir.inv (tree.childOf sub dir)
  let tree :=
    if tree.childOf sub dir = tree.nil then tree
    else tree.setParent (tree.childOf sub dir) node
  let tree := tree.setParent sub (tree.parentOf node)
  let tree ← replaceAtParent tree node sub
  let tree := tree.setChild sub dir node
  pure (tree.setParent node sub)

/-- More rounds than any of the loops can take: pointers are 32-bit words. -/
def loopLimit : Nat := 4294967296

def insertFixLoop : Nat → RbTree → Nat → Except Trap RbTree
  | 0, _, _ => .error .noReturn
  | fuel + 1, tree, node =>
      if tree.colorOf (tree.parentOf node) = .red then do
        let side ← direction tree (tree.parentOf node)
        let pinv := side.inv
        let uncle := tree.childOf (tree.parentOf (tree.parentOf node)) pinv
        if tree.colorOf uncle = .red then
          let tree := tree.setColor (tree.parentOf node) .black
          let tree := tree.setColor uncle .black
          let tree := tree.setColor (tree.parentOf (tree.parentOf node)) .red
          insertFixLoop fuel tree (tree.parentOf (tree.parentOf node))
        else
          let dir ← direction tree node
          let (tree, node) ←
            if dir = pinv then do
              let rotated ← rotateSubtree tree (tree.parentOf node) pinv.inv
              pure (rotated, tree.parentOf node)
            else pure (tree, node)
          let tree := tree.setColor (tree.parentOf node) .black
          let tree := tree.setColor (tree.parentOf (tree.parentOf node)) .red
          let tree ← rotateSubtree tree (tree.parentOf (tree.parentOf node)) pinv
          insertFixLoop fuel tree node
      else .ok tree

/-- The inner branch of a round of `insert_fix`: a node on the inner side changes places
with its parent. -/
def innerTurn (tree : RbTree) (node : Nat) (pinv : Dir) : Except Trap (RbTree × Nat) := do
  let dir ← direction tree node
  if dir = pinv then do
    let rotated ← rotateSubtree tree (tree.parentOf node) pinv.inv
    pure (rotated, tree.parentOf node)
  else pure (tree, node)

/-- The body of the loop of `insert_fix`. -/
def insertRound (tree : RbTree) (node : Nat) : Except Trap (RbTree × Nat) := do
  let side ← direction tree (tree.parentOf node)
  let pinv := side.inv
  let uncle := tree.childOf (tree.parentOf (tree.parentOf node)) pinv
  if tree.colorOf uncle = .red then
    let tree := tree.setColor (tree.parentOf node) .black
    let tree := tree.setColor uncle .black
    let tree := tree.setColor (tree.parentOf (tree.parentOf node)) .red
    pure (tree, tree.parentOf (tree.parentOf node))
  else
    let (tree, node) ← innerTurn tree node pinv
    let tree := tree.setColor (tree.parentOf node) .black
    let tree := tree.setColor (tree.parentOf (tree.parentOf node)) .red
    let tree ← rotateSubtree tree (tree.parentOf (tree.parentOf node)) pinv
    pure (tree, node)

theorem insert_fix_loop_round (fuel : Nat) (tree : RbTree) (node : Nat) :
    insertFixLoop (fuel + 1) tree node =
      if tree.colorOf (tree.parentOf node) = .red then
        (insertRound tree node).bind fun pair => insertFixLoop fuel pair.1 pair.2
      else .ok tree := by
  rw [insertFixLoop]
  split_ifs with red
  · rw [insertRound]
    cases direction tree (tree.parentOf node) with
    | error trap => rfl
    | ok side =>
        simp only [Trap.ok_bind]
        split_ifs with uncleRed
        · rfl
        · rw [innerTurn]
          cases direction tree node with
          | error trap => rfl
          | ok dir =>
              simp only [Trap.ok_bind]
              split_ifs with inner
              · cases rotateSubtree tree (tree.parentOf node) side.inv.inv with
                | error trap => rfl
                | ok rotated =>
                    simp only [Trap.ok_bind, Trap.pure_ok]
                    generalize rotateSubtree _ _ side.inv = last
                    cases last <;> rfl
              · simp only [Trap.ok_bind, Trap.pure_ok]
                generalize rotateSubtree _ _ side.inv = last
                cases last <;> rfl
  · rfl

def insertFix (tree : RbTree) (node : Nat) : Except Trap RbTree := do
  let tree ← insertFixLoop loopLimit tree node
  pure (tree.setColor tree.root .black)

/-- The first part of a round of `remove_fix`: a red sibling is rotated away. -/
def blackSibling (tree : RbTree) (node : Nat) (inv : Dir) : Except Trap (RbTree × Nat) :=
  let sibling := tree.childOf (tree.parentOf node) inv
  if tree.colorOf sibling = .red then do
    let tree := tree.setColor sibling .black
    let tree := tree.setColor (tree.parentOf node) .red
    let tree ← rotateSubtree tree (tree.parentOf node) inv.inv
    pure (tree, tree.childOf (tree.parentOf node) inv)
  else pure (tree, sibling)

/-- The sibling's red child is brought to its far side. -/
def redFarChild (tree : RbTree) (node : Nat) (inv : Dir) (sibling : Nat) :
    Except Trap (RbTree × Nat) :=
  if tree.colorOf (tree.childOf sibling inv) = .black then do
    let tree := tree.setColor (tree.childOf sibling inv.inv) .black
    let tree := tree.setColor sibling .red
    let tree ← rotateSubtree tree sibling inv
    pure (tree, tree.childOf (tree.parentOf node) inv)
  else pure (tree, sibling)

/-- The rest of a round, with a black sibling. Returns the next `node`. -/
def siblingRound (tree : RbTree) (node : Nat) (inv : Dir) (sibling : Nat) :
    Except Trap (RbTree × Nat) :=
  if tree.colorOf (tree.childOf sibling .left) = .black ∧
      tree.colorOf (tree.childOf sibling .right) = .black then
    .ok (tree.setColor sibling .red, tree.parentOf node)
  else do
    let (tree, sibling) ← redFarChild tree node inv sibling
    let tree := tree.setColor sibling (tree.colorOf (tree.parentOf node))
    let tree := tree.setColor (tree.parentOf node) .black
    let tree := tree.setColor (tree.childOf sibling inv) .black
    let tree ← rotateSubtree tree (tree.parentOf node) inv.inv
    pure (tree, tree.root)

/-- The body of the loop of `remove_fix`. -/
def removeRound (tree : RbTree) (node : Nat) : Except Trap (RbTree × Nat) := do
  let side ← direction tree node
  let (tree, sibling) ← blackSibling tree node side.inv
  siblingRound tree node side.inv sibling

/-- The loop of `remove_fix`; it ends with the node that is to be blackened. -/
def removeFixLoop : Nat → RbTree → Nat → Except Trap (RbTree × Nat)
  | 0, _, _ => .error .noReturn
  | fuel + 1, tree, node =>
      if node ≠ tree.root ∧ tree.colorOf node = .black then do
        let (tree, node) ← removeRound tree node
        removeFixLoop fuel tree node
      else .ok (tree, node)

def removeFix (tree : RbTree) (node : Nat) : Except Trap RbTree := do
  let (tree, node) ← removeFixLoop loopLimit tree node
  pure (tree.setColor node .black)

def transplant (tree : RbTree) (a b : Nat) : Except Trap RbTree := do
  let tree ← replaceAtParent tree a b
  pure (tree.setParent b (tree.parentOf a))

def minimumLoop (tree : RbTree) : Nat → Nat → Except Trap Nat
  | 0, _ => .error .noReturn
  | fuel + 1, node =>
      if tree.childOf node .left = tree.nil then .ok node
      else minimumLoop tree fuel (tree.childOf node .left)

def minimum (tree : RbTree) (node : Nat) : Except Trap Nat := minimumLoop tree loopLimit node

/-- `rb_init` on an `RbTree` object whose sentinel is at `nil`. The sentinel's
parent and key are left as they were. -/
def rbInit (nil : Nat) (memory : Nat → RbNode) : RbTree :=
  let tree : RbTree := { root := nil, nil := nil, count := 0, node := memory }
  let tree := tree.setChild nil .left nil
  let tree := tree.setChild nil .right nil
  tree.setColor nil .black

/-- `dir = key > loc->key`. -/
def keyDir (key here : Nat) : Dir := if key > here then .right else .left

/-- The descent of `rb_insert`: `none` when the key is found, else the parent of
the free place and its side. -/
def insertDescent (tree : RbTree) (key : Nat) : Nat → Nat → Nat → Dir →
    Except Trap (Option (Nat × Dir))
  | 0, _, _, _ => .error .noReturn
  | fuel + 1, loc, parent, dir =>
      if loc = tree.nil then .ok (some (parent, dir))
      else if tree.keyOf loc = key then .ok none
      else
        let dir := keyDir key (tree.keyOf loc)
        insertDescent tree key fuel (tree.childOf loc dir) loc dir

/-- The fields `rb_insert` gives the new node. -/
def newNode (tree : RbTree) (parent key : Nat) : RbNode :=
  { parent := parent, left := tree.nil, right := tree.nil, key := key, color := .red }

def rbInsert (tree : RbTree) (node key : Nat) : Except Trap (Bool × RbTree) := do
  match ← insertDescent tree key loopLimit tree.root tree.nil .left with
  | none => pure (false, tree)
  | some (parent, dir) =>
      let tree := tree.write node fun _ => newNode tree parent key
      let tree :=
        if parent = tree.nil then { tree with root := node } else tree.setChild parent dir node
      let tree ← insertFix { tree with count := u32 (tree.count + 1) } node
      pure (true, tree)

def findLoop (tree : RbTree) (key : Nat) : Nat → Nat → Except Trap Nat
  | 0, _ => .error .noReturn
  | fuel + 1, node =>
      if node = tree.nil then .ok 0
      else if tree.keyOf node = key then .ok node
      else findLoop tree key fuel (tree.childOf node (keyDir key (tree.keyOf node)))

def rbFind (tree : RbTree) (key : Nat) : Except Trap Nat := findLoop tree key loopLimit tree.root

/-- `y`, the smallest node of the right subtree of `node`, leaves that subtree to `x` and
takes what remains of it. -/
def detachMinimum (tree : RbTree) (node y x : Nat) : Except Trap RbTree :=
  if y ≠ tree.childOf node .right then do
    let tree ← transplant tree y (tree.childOf y .right)
    let tree := tree.setChild y .right (tree.childOf node .right)
    pure (tree.setParent (tree.childOf y .right) y)
  else .ok (tree.setParent x y)

/-- `y` takes the place, the left subtree and the colour of `node`. -/
def takePlace (tree : RbTree) (node y : Nat) : Except Trap RbTree := do
  let tree ← transplant tree node y
  let tree := tree.setChild y .left (tree.childOf node .left)
  let tree := tree.setParent (tree.childOf y .left) y
  pure (tree.setColor y (tree.colorOf node))

/-- The second branch of `rb_remove`. Returns `x`, which took the place of `y`, and the
old colour of `y`. -/
def removeInner (tree : RbTree) (node : Nat) : Except Trap (RbTree × Nat × Color) := do
  let y ← minimum tree (tree.childOf node .right)
  let yColor := tree.colorOf y
  let x := tree.childOf y .right
  let tree ← detachMinimum tree node y x
  let tree ← takePlace tree node y
  pure (tree, x, yColor)

/-- The unlinking of `node`, before the colours are repaired. -/
def removeNode (tree : RbTree) (node : Nat) : Except Trap (RbTree × Nat × Color) :=
  if tree.childOf node .left = tree.nil ∨ tree.childOf node .right = tree.nil then do
    let dir := if tree.childOf node .left = tree.nil then Dir.right else Dir.left
    let x := tree.childOf node dir
    let unlinked ← transplant tree node x
    pure (unlinked, x, tree.colorOf node)
  else removeInner tree node

def rbRemove (tree : RbTree) (key : Nat) : Except Trap (Nat × RbTree) := do
  let node ← rbFind tree key
  if node = 0 then pure (0, tree)
  else
    let (tree, x, yColor) ← removeNode tree node
    let tree ← if yColor = .black then removeFix tree x else pure tree
    pure (node, { tree with count := sub32 tree.count 1 })

end ParadiseOS.RbTreeModel
