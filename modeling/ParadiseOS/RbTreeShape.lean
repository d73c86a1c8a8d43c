import Mathlib.Data.List.Nodup
import ParadiseOS.RbTreeModel

/-!
# The tree that a pointer structure represents

`Represents` ties the records reachable from the root, parent pointers included,
to a tree of addresses and keys. Every write of the code changes one piece of
it: a node, the parent pointer of a subtree, or a child pointer of a path. The
specifications here are stated for a focus and its path, so that the fix-up
loops can move the focus instead of following pointers.
-/

namespace ParadiseOS.RbTreeShape

open RbTreeModel RedBlackTree

set_option autoImplicit false

structure Entry where
  addr : Nat
  key : Nat
  deriving DecidableEq

abbrev Shape := RedBlackTree.Tree Entry

abbrev Path := List (Frame Entry)

def addrs (shape : Shape) : List Nat := shape.items.map Entry.addr

def pathAddrs (path : Path) : List Nat := (pathItems path).map Entry.addr

theorem path_addrs_cons (frame : RedBlackTree.Frame Entry) (path : Path) :
    pathAddrs (frame :: path) = frame.item.addr :: (addrs frame.other ++ pathAddrs path) := by
  simp [pathAddrs, pathItems, addrs]

theorem path_addrs_append (lower upper : Path) :
    pathAddrs (lower ++ upper) = pathAddrs lower ++ pathAddrs upper := by
  induction lower with
  | nil => rfl
  | cons frame path ih => simp [path_addrs_cons, ih]

/-- The pointer to a subtree. -/
def ptr (nil : Nat) : Shape → Nat
  | .leaf => nil
  | .node _ _ entry _ => entry.addr

/-- The parent pointer of what hangs below a path. -/
def top (nil : Nat) : Path → Nat
  | [] => nil
  | frame :: _ => frame.item.addr

/-- The root pointer when `focus` hangs below the path. -/
def rootOf (focus : Nat) : Path → Nat
  | [] => focus
  | frame :: path => rootOf frame.item.addr path

/-- A record whose child on the given side is `near`. -/
def cell (parent : Nat) (dir : Dir) (near far key : Nat) (color : Color) : RbNode :=
  match dir with
  | .left => ⟨parent, near, far, key, color⟩
  | .right => ⟨parent, far, near, key, color⟩

section Cells

variable (parent near far key : Nat) (dir : Dir) (color : Color)

@[simp] theorem cell_parent : (cell parent dir near far key color).parent = parent := by
  cases dir <;> rfl

@[simp] theorem cell_key : (cell parent dir near far key color).key = key := by
  cases dir <;> rfl

@[simp] theorem cell_color : (cell parent dir near far key color).color = color := by
  cases dir <;> rfl

@[simp] theorem cell_near : (cell parent dir near far key color).child dir = near := by
  cases dir <;> rfl

@[simp] theorem cell_far : (cell parent dir near far key color).child dir.inv = far := by
  cases dir <;> rfl

@[simp] theorem set_child_near (ptr : Nat) :
    (cell parent dir near far key color).setChild dir ptr = cell parent dir ptr far key color := by
  cases dir <;> rfl

@[simp] theorem set_child_far (ptr : Nat) :
    (cell parent dir near far key color).setChild dir.inv ptr =
      cell parent dir near ptr key color := by
  cases dir <;> rfl

@[simp] theorem cell_set_parent (ptr : Nat) :
    { cell parent dir near far key color with parent := ptr } = cell ptr dir near far key color := by
  cases dir <;> rfl

@[simp] theorem cell_set_color (other : Color) :
    { cell parent dir near far key color with color := other } =
      cell parent dir near far key other := by
  cases dir <;> rfl

end Cells

/-- The records of a subtree whose root has the given parent. -/
def Holds (tree : RbTree) : Nat → Shape → Prop
  | _, .leaf => True
  | parent, .node color left entry right =>
      tree.node entry.addr =
          ⟨parent, ptr tree.nil left, ptr tree.nil right, entry.key, color⟩ ∧
        Holds tree entry.addr left ∧ Holds tree entry.addr right

/-- The records of a path above `focus`. -/
def HoldsPath (tree : RbTree) : Nat → Path → Prop
  | _, [] => True
  | focus, frame :: path =>
      tree.node frame.item.addr =
          cell (top tree.nil path) frame.dir focus (ptr tree.nil frame.other) frame.item.key
            frame.color ∧
        Holds tree frame.item.addr frame.other ∧ HoldsPath tree frame.item.addr path

section Pieces

variable {tree next : RbTree} {dir : Dir} {color : Color} {near far shape : Shape} {entry : Entry}
  {path : Path} {parent focus addr : Nat}

@[simp] theorem ptr_branch (nil : Nat) : ptr nil (branch dir color near entry far) = entry.addr := by
  cases dir <;> rfl

theorem ptr_plug (nil : Nat) : ptr nil (plug shape path) = rootOf (ptr nil shape) path := by
  induction path generalizing shape with
  | nil => rfl
  | cons frame path ih => simp only [plug_cons, ih, ptr_branch, rootOf]

theorem ptr_mem (inner : shape ≠ .leaf) (nil : Nat) : ptr nil shape ∈ addrs shape := by
  cases shape with
  | leaf => exact absurd rfl inner
  | node color left item right => simp [ptr, addrs, RedBlackTree.Tree.items]

theorem ptr_eq_nil {nil : Nat} (fresh : nil ∉ addrs shape) : ptr nil shape = nil ↔ shape = .leaf := by
  cases shape with
  | leaf => simp [ptr]
  | node color left item right =>
      have same : ptr nil (.node color left item right) = item.addr := rfl
      simp only [addrs, RedBlackTree.Tree.items, List.map_append, List.map_cons, List.mem_append,
        List.mem_cons, not_or] at fresh
      simp only [same, reduceCtorEq, iff_false]
      exact fun equal => fresh.2.1 equal.symm

theorem mem_addrs_branch :
    addr ∈ addrs (branch dir color near entry far) ↔
      addr = entry.addr ∨ addr ∈ addrs near ∨ addr ∈ addrs far := by
  have perm := (items_branch_perm dir color near far entry).map Entry.addr
  simp only [addrs, perm.mem_iff, List.map_cons, List.map_append, List.mem_cons, List.mem_append]

theorem nodup_branch :
    (addrs (branch dir color near entry far)).Nodup ↔
      (entry.addr ∉ addrs near ∧ entry.addr ∉ addrs far) ∧
        (addrs near).Nodup ∧ (addrs far).Nodup ∧ List.Disjoint (addrs near) (addrs far) := by
  have perm := (items_branch_perm dir color near far entry).map Entry.addr
  simp only [addrs, perm.nodup_iff, List.map_cons, List.map_append, List.nodup_cons,
    List.mem_append, not_or, List.nodup_append']

theorem mem_addrs_node {left right : Shape} :
    addr ∈ addrs (.node color left entry right) ↔
      addr = entry.addr ∨ addr ∈ addrs left ∨ addr ∈ addrs right := by
  have asBranch : RedBlackTree.Tree.node color left entry right = branch .left color left entry right := rfl
  rw [asBranch, mem_addrs_branch]

theorem nodup_node {left right : Shape} :
    (addrs (.node color left entry right)).Nodup ↔
      (entry.addr ∉ addrs left ∧ entry.addr ∉ addrs right) ∧
        (addrs left).Nodup ∧ (addrs right).Nodup ∧ List.Disjoint (addrs left) (addrs right) := by
  have asBranch : RedBlackTree.Tree.node color left entry right = branch .left color left entry right := rfl
  rw [asBranch, nodup_branch]

theorem addrs_plug_perm (shape : Shape) (path : Path) :
    (addrs (plug shape path)).Perm (addrs shape ++ pathAddrs path) := by
  rw [addrs, addrs, pathAddrs, ← List.map_append]
  exact (items_plug_perm shape path).map Entry.addr

theorem nodup_plug :
    (addrs (plug shape path)).Nodup ↔
      (addrs shape).Nodup ∧ (pathAddrs path).Nodup ∧
        List.Disjoint (addrs shape) (pathAddrs path) := by
  rw [(addrs_plug_perm shape path).nodup_iff, List.nodup_append']

theorem mem_addrs_plug :
    addr ∈ addrs (plug shape path) ↔ addr ∈ addrs shape ∨ addr ∈ pathAddrs path := by
  rw [(addrs_plug_perm shape path).mem_iff, List.mem_append]

theorem holds_branch :
    Holds tree parent (branch dir color near entry far) ↔
      tree.node entry.addr =
          cell parent dir (ptr tree.nil near) (ptr tree.nil far) entry.key color ∧
        Holds tree entry.addr near ∧ Holds tree entry.addr far := by
  cases dir with
  | left => exact Iff.rfl
  | right =>
      simp only [branch, Holds, cell]
      exact and_congr Iff.rfl and_comm

theorem holds_plug :
    Holds tree tree.nil (plug shape path) ↔
      Holds tree (top tree.nil path) shape ∧ HoldsPath tree (ptr tree.nil shape) path := by
  induction path generalizing shape with
  | nil => simp [top, HoldsPath]
  | cons frame path ih =>
      simp only [plug_cons, ih, holds_branch, ptr_branch, top, HoldsPath]
      constructor
      · rintro ⟨⟨record, focus, other⟩, above⟩
        exact ⟨focus, record, other, above⟩
      · rintro ⟨focus, record, other, above⟩
        exact ⟨⟨record, focus, other⟩, above⟩

/-- A subtree is held as long as its own records are kept. -/
theorem holds_congr (sameNil : next.nil = tree.nil)
    (kept : ∀ addr ∈ addrs shape, next.node addr = tree.node addr)
    (holds : Holds tree parent shape) : Holds next parent shape := by
  induction shape generalizing parent with
  | leaf => trivial
  | node color left item right leftHeld rightHeld =>
      obtain ⟨record, first, second⟩ := holds
      simp only [addrs, RedBlackTree.Tree.items, List.map_append, List.map_cons, List.mem_append,
        List.mem_cons] at kept leftHeld rightHeld
      refine ⟨?_, ?_, ?_⟩
      · rw [kept _ (.inr (.inl rfl)), record, sameNil]
      · exact leftHeld (fun addr member => kept addr (.inl member)) first
      · exact rightHeld (fun addr member => kept addr (.inr (.inr member))) second

theorem holds_path_congr (sameNil : next.nil = tree.nil)
    (kept : ∀ addr ∈ pathAddrs path, next.node addr = tree.node addr)
    (holds : HoldsPath tree focus path) : HoldsPath next focus path := by
  induction path generalizing focus with
  | nil => trivial
  | cons frame path ih =>
      obtain ⟨record, other, above⟩ := holds
      simp only [path_addrs_cons, List.mem_cons, List.mem_append] at kept
      refine ⟨?_, ?_, ?_⟩
      · rw [kept _ (.inl rfl), record, sameNil]
      · exact holds_congr sameNil (fun addr member => kept addr (.inr (.inl member))) other
      · exact ih (fun addr member => kept addr (.inr (.inr member))) above

theorem root_of_mem (path : Path) (focus : Nat) :
    rootOf focus path = focus ∨ rootOf focus path ∈ pathAddrs path := by
  induction path generalizing focus with
  | nil => exact .inl rfl
  | cons frame path ih =>
      rw [path_addrs_cons, rootOf]
      rcases ih frame.item.addr with same | member
      · exact .inr (by rw [same]; exact List.mem_cons_self)
      · exact .inr (List.mem_cons_of_mem _ (List.mem_append_right _ member))

theorem root_of_append (lower : Path) (focus : Nat) :
    rootOf focus (lower ++ path) = rootOf (rootOf focus lower) path := by
  induction lower generalizing focus with
  | nil => rfl
  | cons frame lower ih => exact ih _

theorem root_of_mem_of_ne_nil (nonempty : path ≠ []) (focus : Nat) :
    rootOf focus path ∈ pathAddrs path := by
  cases path with
  | nil => exact absurd rfl nonempty
  | cons frame path =>
      rw [path_addrs_cons, rootOf, List.mem_cons, List.mem_append]
      rcases root_of_mem path frame.item.addr with same | member
      · exact .inl same
      · exact .inr (.inr member)

end Pieces

section Writes

variable (tree : RbTree) (addr other : Nat) (change : RbNode → RbNode)

@[simp] theorem write_nil : (tree.write addr change).nil = tree.nil := rfl

@[simp] theorem write_root : (tree.write addr change).root = tree.root := rfl

@[simp] theorem write_count : (tree.write addr change).count = tree.count := rfl

@[simp] theorem node_write_self : (tree.write addr change).node addr = change (tree.node addr) :=
  if_pos rfl

variable {addr other}

@[simp] theorem node_write_of_ne (differ : other ≠ addr) :
    (tree.write addr change).node other = tree.node other := if_neg differ

@[simp] theorem node_set_parent_self (parent : Nat) :
    (tree.setParent addr parent).node addr = { tree.node addr with parent := parent } :=
  node_write_self tree addr _

@[simp] theorem node_set_child_self (dir : Dir) (child : Nat) :
    (tree.setChild addr dir child).node addr = (tree.node addr).setChild dir child :=
  node_write_self tree addr _

@[simp] theorem node_set_color_self (color : Color) :
    (tree.setColor addr color).node addr = { tree.node addr with color := color } :=
  node_write_self tree addr _

/-- Recolouring moves no pointer. -/
@[simp] theorem parent_of_set_color (addr other : Nat) (color : Color) :
    (tree.setColor addr color).parentOf other = tree.parentOf other := by
  by_cases same : other = addr
  · rw [same, RbTree.parentOf, node_set_color_self]
    rfl
  · rw [RbTree.parentOf, RbTree.setColor, node_write_of_ne tree _ same]
    rfl

@[simp] theorem child_of_set_color (addr other : Nat) (color : Color) (dir : Dir) :
    (tree.setColor addr color).childOf other dir = tree.childOf other dir := by
  by_cases same : other = addr
  · rw [same, RbTree.childOf, node_set_color_self]
    cases dir <;> rfl
  · rw [RbTree.childOf, RbTree.setColor, node_write_of_ne tree _ same]
    rfl

@[simp] theorem root_set_color (addr : Nat) (color : Color) :
    (tree.setColor addr color).root = tree.root := rfl

@[simp] theorem nil_set_color (addr : Nat) (color : Color) :
    (tree.setColor addr color).nil = tree.nil := rfl

end Writes

/-- What the repair of colours keeps: the sentinel, the count, and every key. -/
structure Kept (tree next : RbTree) : Prop where
  nil : next.nil = tree.nil
  count : next.count = tree.count
  sentinel : next.node tree.nil = tree.node tree.nil
  keys : ∀ addr, next.keyOf addr = tree.keyOf addr

theorem kept_refl (tree : RbTree) : Kept tree tree := ⟨rfl, rfl, rfl, fun _ => rfl⟩

theorem kept_trans {tree middle next : RbTree} (first : Kept tree middle)
    (second : Kept middle next) : Kept tree next where
  nil := second.nil.trans first.nil
  count := second.count.trans first.count
  sentinel := by rw [← first.sentinel, ← first.nil, second.sentinel]
  keys addr := (second.keys addr).trans (first.keys addr)

/-- The pointer structure reachable from the root is the given tree. -/
structure Represents (tree : RbTree) (shape : Shape) : Prop where
  root : tree.root = ptr tree.nil shape
  holds : Holds tree tree.nil shape
  distinct : (addrs shape).Nodup
  nonzero : ∀ addr ∈ addrs shape, addr ≠ 0
  sentinel : tree.nil ∉ addrs shape
  nilBlack : tree.colorOf tree.nil = .black

/-- Only the records of the listed addresses change, and of these not the keys. -/
structure Within (touched : List Nat) (tree next : RbTree) : Prop where
  nil : next.nil = tree.nil
  count : next.count = tree.count
  keys : ∀ addr, next.keyOf addr = tree.keyOf addr
  kept : ∀ addr, addr ∉ touched → next.node addr = tree.node addr

theorem within_trans {first second : List Nat} {tree middle next : RbTree}
    (before : Within first tree middle) (after : Within second middle next) :
    Within (first ++ second) tree next where
  nil := after.nil.trans before.nil
  count := after.count.trans before.count
  keys addr := (after.keys addr).trans (before.keys addr)
  kept addr untouched := by
    simp only [List.mem_append, not_or] at untouched
    rw [after.kept addr untouched.2, before.kept addr untouched.1]

theorem within_write (tree : RbTree) (addr : Nat) (change : RbNode → RbNode)
    (sameKey : ∀ node : RbNode, (change node).key = node.key) :
    Within [addr] tree (tree.write addr change) where
  nil := rfl
  count := rfl
  keys other := by
    simp only [RbTree.keyOf]
    by_cases same : other = addr
    · rw [same, node_write_self, sameKey]
    · rw [node_write_of_ne tree change same]
  kept other untouched := node_write_of_ne tree change (by simpa using untouched)

theorem within_set_parent (tree : RbTree) (addr parent : Nat) :
    Within [addr] tree (tree.setParent addr parent) := within_write tree addr _ fun _ => rfl

theorem within_set_child (tree : RbTree) (addr : Nat) (dir : Dir) (child : Nat) :
    Within [addr] tree (tree.setChild addr dir child) :=
  within_write tree addr _ fun _ => by cases dir <;> rfl

theorem within_set_color (tree : RbTree) (addr : Nat) (color : Color) :
    Within [addr] tree (tree.setColor addr color) := within_write tree addr _ fun _ => rfl

theorem kept_of_within {touched : List Nat} {tree next : RbTree} (within : Within touched tree next)
    (sentinel : tree.nil ∉ touched) : Kept tree next :=
  ⟨within.nil, within.count, within.kept _ sentinel, within.keys⟩

theorem holds_within {touched : List Nat} {tree next : RbTree} {parent : Nat} {shape : Shape}
    (within : Within touched tree next) (untouched : List.Disjoint (addrs shape) touched)
    (holds : Holds tree parent shape) : Holds next parent shape :=
  holds_congr within.nil (fun addr member => within.kept addr (untouched member)) holds

theorem holds_path_within {touched : List Nat} {tree next : RbTree} {focus : Nat} {path : Path}
    (within : Within touched tree next) (untouched : List.Disjoint (pathAddrs path) touched)
    (holds : HoldsPath tree focus path) : HoldsPath next focus path :=
  holds_path_congr within.nil (fun addr member => within.kept addr (untouched member)) holds

/-- Everything but the links and the sentinel's colour depends on the items alone. -/
theorem represents_of_sublist {tree next : RbTree} {shape changed : Shape}
    (represents : Represents tree shape) (fewer : changed.items.Sublist shape.items)
    (sameNil : next.nil = tree.nil) (nilBlack : next.colorOf tree.nil = .black)
    (root : next.root = ptr next.nil changed) (holds : Holds next next.nil changed) :
    Represents next changed where
  root := root
  holds := holds
  distinct := represents.distinct.sublist (fewer.map _)
  nonzero addr member := represents.nonzero addr ((fewer.map _).subset member)
  sentinel member := represents.sentinel ((fewer.map _).subset (sameNil ▸ member))
  nilBlack := by rwa [sameNil]

theorem represents_of_items {tree next : RbTree} {shape changed : Shape}
    (represents : Represents tree shape) (kept : Kept tree next)
    (same : changed.items = shape.items) (root : next.root = ptr next.nil changed)
    (holds : Holds next next.nil changed) : Represents next changed := by
  have nilBlack : next.colorOf tree.nil = .black := by
    rw [RbTree.colorOf, kept.sentinel]
    exact represents.nilBlack
  exact represents_of_sublist represents (same ▸ List.Sublist.refl _) kept.nil nilBlack root holds

section Focus

variable {tree : RbTree} {focus : Shape} {path : Path}

theorem represents_plug :
    Represents tree (plug focus path) ↔
      (tree.root = rootOf (ptr tree.nil focus) path ∧ Holds tree (top tree.nil path) focus ∧
        HoldsPath tree (ptr tree.nil focus) path) ∧
      ((addrs focus).Nodup ∧ (pathAddrs path).Nodup ∧
        List.Disjoint (addrs focus) (pathAddrs path)) ∧
      (∀ addr ∈ addrs (plug focus path), addr ≠ 0) ∧ tree.nil ∉ addrs (plug focus path) ∧
        tree.colorOf tree.nil = .black := by
  rw [← nodup_plug, ← holds_plug, ← ptr_plug]
  constructor
  · intro represents
    exact ⟨⟨represents.root, represents.holds⟩, represents.distinct, represents.nonzero,
      represents.sentinel, represents.nilBlack⟩
  · rintro ⟨⟨root, holds⟩, distinct, nonzero, sentinel, nilBlack⟩
    exact ⟨root, holds, distinct, nonzero, sentinel, nilBlack⟩

theorem color_of_focus (represents : Represents tree (plug focus path)) :
    tree.colorOf (ptr tree.nil focus) = focus.color := by
  obtain ⟨⟨_, held, _⟩, _, _, _, nilBlack⟩ := represents_plug.1 represents
  cases focus with
  | leaf => exact nilBlack
  | node color left item right => simp only [RbTree.colorOf, ptr, held.1, RedBlackTree.Tree.color]

theorem parent_of_focus (inner : focus ≠ .leaf) (represents : Represents tree (plug focus path)) :
    tree.parentOf (ptr tree.nil focus) = top tree.nil path := by
  obtain ⟨⟨_, held, _⟩, _⟩ := represents_plug.1 represents
  cases focus with
  | leaf => exact absurd rfl inner
  | node color left item right => simp only [RbTree.parentOf, ptr, held.1]

/-- The focus, empty or not, is not a node of its path. -/
theorem focus_not_above (represents : Represents tree (plug focus path)) :
    ptr tree.nil focus ∉ pathAddrs path := by
  obtain ⟨_, ⟨_, _, apart⟩, _, sentinel, _⟩ := represents_plug.1 represents
  rw [mem_addrs_plug, not_or] at sentinel
  by_cases inner : focus = .leaf
  · rw [inner]
    exact sentinel.2
  · exact apart (ptr_mem inner tree.nil)

theorem focus_ne_root {frame : RedBlackTree.Frame Entry}
    (represents : Represents tree (plug focus (frame :: path))) :
    ptr tree.nil focus ≠ tree.root := by
  have absent := focus_not_above represents
  obtain ⟨⟨root, _⟩, _⟩ := represents_plug.1 represents
  rw [path_addrs_cons, List.mem_cons, List.mem_append, not_or, not_or] at absent
  rw [root, rootOf]
  intro same
  rcases root_of_mem path frame.item.addr with top | member
  · exact absent.1 (same.trans top)
  · exact absent.2.2 (same ▸ member)

variable {dir : Dir} {color : Color} {near far : Shape} {entry : Entry}

/-- The record of a node whose subtrees are named by their sides. -/
theorem node_of_branch (represents : Represents tree (plug (branch dir color near entry far) path)) :
    tree.node entry.addr = cell (top tree.nil path) dir (ptr tree.nil near) (ptr tree.nil far)
      entry.key color :=
  (holds_branch.1 (represents_plug.1 represents).1.2.1).1

theorem near_of_branch (represents : Represents tree (plug (branch dir color near entry far) path)) :
    tree.childOf entry.addr dir = ptr tree.nil near := by
  rw [RbTree.childOf, node_of_branch represents, cell_near]

theorem far_of_branch (represents : Represents tree (plug (branch dir color near entry far) path)) :
    tree.childOf entry.addr dir.inv = ptr tree.nil far := by
  rw [RbTree.childOf, node_of_branch represents, cell_far]

theorem color_of_branch (represents : Represents tree (plug (branch dir color near entry far) path)) :
    tree.colorOf entry.addr = color := by
  rw [RbTree.colorOf, node_of_branch represents, cell_color]

theorem parent_of_branch
    (represents : Represents tree (plug (branch dir color near entry far) path)) :
    tree.parentOf entry.addr = top tree.nil path := by
  rw [RbTree.parentOf, node_of_branch represents, cell_parent]

end Focus

end ParadiseOS.RbTreeShape
