import Mathlib.Algebra.Order.Ring.Nat
import Mathlib.Data.List.Perm.Basic
import Mathlib.Tactic.SplitIfs

/-!
# Red-black trees with a hole

Trees over arbitrary items, and paths to one of their positions. A tree is put
together from a focus and a path by `plug`; the in-order items and the balance of
the whole are those of the two parts. `branch` names a node's subtrees by the
side they are on, so that mirrored cases are one case.
-/

namespace ParadiseOS.RedBlackTree

set_option autoImplicit false

inductive Color where
  | red
  | black
  deriving DecidableEq, Repr

inductive Dir where
  | left
  | right
  deriving DecidableEq, Repr

def Dir.inv : Dir → Dir
  | .left => .right
  | .right => .left

@[simp] theorem inv_of_inv (dir : Dir) : dir.inv.inv = dir := by cases dir <;> rfl

@[simp] theorem inv_ne (dir : Dir) : dir.inv ≠ dir := by cases dir <;> decide

theorem inv_of_ne {dir other : Dir} (differ : dir ≠ other) : dir = other.inv := by
  cases dir <;> cases other <;> simp_all [Dir.inv]

variable {Item : Type}

inductive Tree (Item : Type) where
  | leaf
  | node (color : Color) (left : Tree Item) (item : Item) (right : Tree Item)

open RedBlackTree.Tree

namespace Tree

def color : Tree Item → Color
  | leaf => .black
  | node color _ _ _ => color

def blacken : Tree Item → Tree Item
  | leaf => leaf
  | node _ left item right => node .black left item right

/-- The items from left to right. -/
def items : Tree Item → List Item
  | leaf => []
  | node _ left item right => left.items ++ item :: right.items

def height : Tree Item → Nat
  | leaf => 0
  | node _ left _ right => max left.height right.height + 1

def blackWeight : Color → Nat
  | .red => 0
  | .black => 1

/-- The number of black nodes on each path from the root to a leaf. -/
def blackCounts : Tree Item → List Nat
  | leaf => [0]
  | node color left _ right =>
      (left.blackCounts ++ right.blackCounts).map (blackWeight color + ·)

/-- No red node has a red child. -/
def RedsApart : Tree Item → Prop
  | leaf => True
  | node color left _ right =>
      (color = .red → left.color = .black ∧ right.color = .black) ∧
        left.RedsApart ∧ right.RedsApart

@[simp] theorem items_blacken (tree : Tree Item) : tree.blacken.items = tree.items := by
  cases tree <;> rfl

@[simp] theorem color_blacken (tree : Tree Item) : tree.blacken.color = .black := by
  cases tree <;> rfl

end Tree

/-- A node with one subtree on the given side and the other opposite. -/
def branch (dir : Dir) (color : Color) (near : Tree Item) (item : Item) (far : Tree Item) :
    Tree Item :=
  match dir with
  | .left => node color near item far
  | .right => node color far item near

/-- One step up from a position: the node above it, the side the position is on,
and the subtree on the other side. -/
structure Frame (Item : Type) where
  dir : Dir
  color : Color
  item : Item
  other : Tree Item

/-- The frames from a position up to the root. -/
def plug : Tree Item → List (Frame Item) → Tree Item
  | tree, [] => tree
  | tree, frame :: path => plug (branch frame.dir frame.color tree frame.item frame.other) path

@[simp] theorem plug_nil (tree : Tree Item) : plug tree [] = tree := rfl

@[simp] theorem plug_cons (tree : Tree Item) (frame : Frame Item) (path : List (Frame Item)) :
    plug tree (frame :: path) =
      plug (branch frame.dir frame.color tree frame.item frame.other) path := rfl

theorem plug_append (tree : Tree Item) (lower upper : List (Frame Item)) :
    plug tree (lower ++ upper) = plug (plug tree lower) upper := by
  induction lower generalizing tree with
  | nil => rfl
  | cons frame path ih => exact ih _

section Branch

variable (dir : Dir) (color : Color) (near far : Tree Item) (item : Item)

@[simp] theorem branch_ne_leaf : branch dir color near item far ≠ leaf := by
  cases dir <;> simp [branch]

@[simp] theorem color_branch : (branch dir color near item far).color = color := by
  cases dir <;> rfl

@[simp] theorem blacken_branch :
    (branch dir color near item far).blacken = branch dir .black near item far := by
  cases dir <;> rfl

theorem branch_inv : branch dir.inv color near item far = branch dir color far item near := by
  cases dir <;> rfl

theorem items_branch_perm :
    (branch dir color near item far).items.Perm (item :: (near.items ++ far.items)) := by
  cases dir with
  | left => exact List.perm_middle
  | right => exact List.perm_middle.trans (List.Perm.cons _ List.perm_append_comm)

/-- Every node is a branch to either side. -/
theorem exists_branch {tree : Tree Item} (inner : tree ≠ leaf) :
    ∃ near item far, tree = branch dir tree.color near item far := by
  cases tree with
  | leaf => exact absurd rfl inner
  | node color left item right =>
      cases dir with
      | left => exact ⟨left, item, right, rfl⟩
      | right => exact ⟨right, item, left, rfl⟩

end Branch

theorem ne_leaf_of_red {tree : Tree Item} (red : tree.color = .red) : tree ≠ leaf := by
  rintro rfl
  cases red

section Items

/-- Trees with the same items are interchangeable under a path, as far as items go. -/
theorem items_plug_congr {first second : Tree Item} (same : first.items = second.items)
    (path : List (Frame Item)) : (plug first path).items = (plug second path).items := by
  induction path generalizing first second with
  | nil => exact same
  | cons frame path ih =>
      apply ih
      cases direction : frame.dir <;> simp [branch, items, same]

/-- The items of a path left and right of its position. -/
def before : List (Frame Item) → List Item
  | [] => []
  | frame :: path =>
      match frame.dir with
      | .left => before path
      | .right => before path ++ (frame.other.items ++ [frame.item])

def after : List (Frame Item) → List Item
  | [] => []
  | frame :: path =>
      match frame.dir with
      | .left => frame.item :: frame.other.items ++ after path
      | .right => after path

theorem items_plug (tree : Tree Item) (path : List (Frame Item)) :
    (plug tree path).items = before path ++ tree.items ++ after path := by
  induction path generalizing tree with
  | nil => simp [before, after]
  | cons frame path ih =>
      rw [plug_cons, ih]
      cases direction : frame.dir <;> simp [branch, items, before, after, direction]

theorem before_append (lower upper : List (Frame Item)) :
    before (lower ++ upper) = before upper ++ before lower := by
  induction lower with
  | nil => simp [before]
  | cons frame path ih => cases direction : frame.dir <;> simp [before, direction, ih]

/-- The items of a path. -/
def pathItems : List (Frame Item) → List Item
  | [] => []
  | frame :: path => frame.item :: (frame.other.items ++ pathItems path)

theorem items_plug_perm (tree : Tree Item) (path : List (Frame Item)) :
    (plug tree path).items.Perm (tree.items ++ pathItems path) := by
  induction path generalizing tree with
  | nil => simp [pathItems]
  | cons frame path ih =>
      apply (ih _).trans
      apply ((items_branch_perm _ _ _ _ _).append_right _).trans
      simp only [pathItems, List.cons_append, List.append_assoc]
      exact List.perm_middle.symm

theorem items_below_frame (tree : Tree Item) (frame : Frame Item) (path : List (Frame Item)) :
    (plug tree (frame :: path)).items ≠ [] := by
  intro empty
  have same := (items_plug_perm tree (frame :: path)).length_eq
  rw [empty, pathItems] at same
  simp at same

theorem path_length_le (path : List (Frame Item)) : path.length ≤ (pathItems path).length := by
  induction path with
  | nil => exact Nat.le_refl _
  | cons frame path ih => simp only [pathItems, List.length_cons, List.length_append]; omega

end Items

/-- A tree of the given root colour and black height in which no red node has a
red child. -/
inductive Balanced : Tree Item → Color → Nat → Prop where
  | leaf : Balanced .leaf .black 0
  | red {left right : Tree Item} {item : Item} {count : Nat} :
      Balanced left .black count → Balanced right .black count →
      Balanced (.node .red left item right) .red count
  | black {left right : Tree Item} {item : Item} {leftColor rightColor : Color} {count : Nat} :
      Balanced left leftColor count → Balanced right rightColor count →
      Balanced (.node .black left item right) .black (count + 1)

section Balance

variable {dir : Dir} {near far tree : Tree Item} {item : Item} {color nearColor farColor : Color}
  {count : Nat}

theorem balanced_color (balanced : Balanced tree color count) : tree.color = color := by
  cases balanced <;> rfl

theorem balanced_branch_red (first : Balanced near .black count)
    (second : Balanced far .black count) : Balanced (branch dir .red near item far) .red count := by
  cases dir with
  | left => exact .red first second
  | right => exact .red second first

theorem balanced_branch_black (first : Balanced near nearColor count)
    (second : Balanced far farColor count) :
    Balanced (branch dir .black near item far) .black (count + 1) := by
  cases dir with
  | left => exact .black first second
  | right => exact .black second first

theorem balanced_red_branch (balanced : Balanced (branch dir .red near item far) color count) :
    color = .red ∧ Balanced near .black count ∧ Balanced far .black count := by
  cases dir <;> cases balanced <;> simp_all

theorem balanced_black_branch (balanced : Balanced (branch dir .black near item far) color count) :
    ∃ nearColor farColor below, color = .black ∧ count = below + 1 ∧
      Balanced near nearColor below ∧ Balanced far farColor below := by
  cases dir with
  | left => cases balanced with
    | black first second => exact ⟨_, _, _, rfl, rfl, first, second⟩
  | right => cases balanced with
    | black first second => exact ⟨_, _, _, rfl, rfl, second, first⟩

/-- A red root turned black counts once more. -/
theorem balanced_blacken_red (balanced : Balanced tree .red count) :
    Balanced tree.blacken .black (count + 1) := by
  cases balanced with
  | red first second => exact .black first second

theorem balanced_blacken (balanced : Balanced tree color count) :
    ∃ total, Balanced tree.blacken .black total := by
  cases balanced with
  | leaf => exact ⟨0, .leaf⟩
  | red first second => exact ⟨_, balanced_blacken_red (.red first second)⟩
  | black first second => exact ⟨_, .black first second⟩

theorem balanced_reds_apart (balanced : Balanced tree color count) : tree.RedsApart := by
  induction balanced with
  | leaf => trivial
  | red first second firstApart secondApart =>
      exact ⟨fun _ => ⟨balanced_color first, balanced_color second⟩, firstApart, secondApart⟩
  | black first second firstApart secondApart =>
      exact ⟨nofun, firstApart, secondApart⟩

theorem balanced_black_counts (balanced : Balanced tree color count) :
    ∀ blacks ∈ tree.blackCounts, blacks = count := by
  induction balanced with
  | leaf => simp [blackCounts]
  | red first second firstSame secondSame =>
      simp only [blackCounts, blackWeight, List.mem_map, List.mem_append]
      rintro _ ⟨blacks, member | member, rfl⟩
      · rw [firstSame blacks member, Nat.zero_add]
      · rw [secondSame blacks member, Nat.zero_add]
  | black first second firstSame secondSame =>
      simp only [blackCounts, blackWeight, List.mem_map, List.mem_append]
      rintro _ ⟨blacks, member | member, rfl⟩
      · rw [firstSame blacks member, Nat.add_comm]
      · rw [secondSame blacks member, Nat.add_comm]

theorem two_pow_black_height (balanced : Balanced tree color count) :
    2 ^ count ≤ tree.items.length + 1 := by
  induction balanced with
  | leaf => simp [items]
  | red first second firstSize secondSize =>
      simp only [items, List.length_append, List.length_cons]
      omega
  | black first second firstSize secondSize =>
      simp only [items, List.length_append, List.length_cons, pow_succ]
      omega

theorem height_le_black_height (balanced : Balanced tree color count) :
    tree.height + blackWeight color ≤ 2 * count + 1 := by
  induction balanced with
  | leaf => simp [height, blackWeight]
  | red first second firstHeight secondHeight =>
      simp only [height, blackWeight] at firstHeight secondHeight ⊢
      omega
  | @black _ _ _ leftColor rightColor _ first second firstHeight secondHeight =>
      simp only [height, blackWeight] at firstHeight secondHeight ⊢
      omega

/-- A tree with a black root is at most twice as high as the logarithm of its size. -/
theorem height_le_log (balanced : Balanced tree .black count) :
    tree.height ≤ 2 * Nat.log2 (tree.items.length + 1) := by
  have blackHeight : count ≤ Nat.log2 (tree.items.length + 1) :=
    (Nat.le_log2 (Nat.succ_ne_zero _)).2 (two_pow_black_height balanced)
  have total := height_le_black_height balanced
  simp only [blackWeight] at total
  omega

end Balance

/-- A path whose position takes a balanced tree of the given root colour and black
height, so that the whole is balanced with a black root. -/
inductive Accepts : List (Frame Item) → Color → Nat → Prop where
  | top {count : Nat} : Accepts [] .black count
  | red {dir : Dir} {item : Item} {other : Tree Item} {path : List (Frame Item)} {count : Nat} :
      Balanced other .black count → Accepts path .red count →
      Accepts (⟨dir, .red, item, other⟩ :: path) .black count
  | black {dir : Dir} {item : Item} {other : Tree Item} {path : List (Frame Item)}
      {color otherColor : Color} {count : Nat} :
      Balanced other otherColor count → Accepts path .black (count + 1) →
      Accepts (⟨dir, .black, item, other⟩ :: path) color count

section Paths

variable {tree : Tree Item} {path : List (Frame Item)} {color : Color} {count : Nat}

theorem accepts_black (accepts : Accepts path color count) : Accepts path .black count := by
  cases accepts with
  | top => exact .top
  | red other above => exact .red other above
  | black other above => exact .black other above

theorem balanced_plug (accepts : Accepts path color count) (balanced : Balanced tree color count) :
    ∃ total, Balanced (plug tree path) .black total := by
  induction accepts generalizing tree with
  | top => exact ⟨_, balanced⟩
  | red other above ih => exact ih (balanced_branch_red balanced other)
  | black other above ih => exact ih (balanced_branch_black balanced other)

/-- Every balanced tree splits at a position into a balanced focus and a path that accepts it. -/
theorem balanced_split (balanced : ∃ total, Balanced (plug tree path) .black total) :
    ∃ color count, Balanced tree color count ∧ Accepts path color count := by
  induction path generalizing tree with
  | nil =>
      obtain ⟨total, balanced⟩ := balanced
      exact ⟨.black, total, balanced, .top⟩
  | cons frame path ih =>
      obtain ⟨color, count, focus, above⟩ := ih balanced
      obtain ⟨dir, frameColor, item, other⟩ := frame
      cases frameColor with
      | red =>
          obtain ⟨rfl, near, far⟩ := balanced_red_branch focus
          exact ⟨.black, count, near, .red far above⟩
      | black =>
          obtain ⟨nearColor, farColor, below, rfl, rfl, near, far⟩ := balanced_black_branch focus
          exact ⟨nearColor, below, near, .black far above⟩

/-- A node in the place of a frame's node, with black subtrees. -/
theorem balanced_reframe {dir turn : Dir} {frameColor : Color} {item other : Item}
    {near far sibling : Tree Item}
    (accepts : Accepts (⟨dir, frameColor, item, sibling⟩ :: path) color count)
    (first : Balanced near .black count) (second : Balanced far .black count) :
    ∃ total, Balanced (plug (branch turn frameColor near other far) path) .black total := by
  cases accepts with
  | red _ above => exact balanced_plug above (balanced_branch_red first second)
  | black _ above => exact balanced_plug above (balanced_branch_black first second)

/-- Acceptance does not look at the items of the path. -/
theorem accepts_replace {lower upper : List (Frame Item)} {frame : Frame Item} (item : Item)
    (accepts : Accepts (lower ++ frame :: upper) color count) :
    Accepts (lower ++ { frame with item := item } :: upper) color count := by
  induction lower generalizing color count with
  | nil =>
      cases accepts with
      | red other above => exact .red other above
      | black other above => exact .black other above
  | cons head lower ih =>
      cases accepts with
      | red other above => exact .red other (ih above)
      | black other above => exact .black other (ih above)

end Paths

/-- A focus that is one black node short of the given black height, unless
blackening its red root makes up for it. -/
def Short (tree : Tree Item) (count : Nat) : Prop :=
  match tree.color with
  | .red => Balanced tree.blacken .black (count + 1)
  | .black => Balanced tree .black count

theorem short_of_balanced {tree : Tree Item} {color : Color} {count : Nat}
    (balanced : Balanced tree color count) : Short tree count := by
  cases balanced with
  | leaf => exact .leaf
  | red first second => exact .black first second
  | black first second => exact .black first second

end ParadiseOS.RedBlackTree
