import Mathlib.Data.Finset.Card
import Mathlib.Order.Interval.Finset.Nat
import ParadiseOS.RbTreeFixes
import ParadiseOS.RbTreeUnlink

/-!
# Insertion, removal and search

Each operation of `rb_tree.c` on a well-formed tree, in terms of the in-order
list of addresses and keys: where it finds a key, and what list it leaves. The shape
it leaves depends on the shape it finds and nothing else in memory.
-/

namespace ParadiseOS.RbTreeDict

open MachineWord RbTreeModel RedBlackTree RbTreeShape RbTreeFixes RbTreeUnlink

set_option autoImplicit false

/-- A red-black search tree of 32-bit addresses, and its node count. -/
structure WellFormed (tree : RbTree) (shape : Shape) : Prop where
  represents : Represents tree shape
  sorted : shape.items.Pairwise fun low high => low.key < high.key
  balanced : ∃ total, Balanced shape .black total
  count : tree.count = shape.items.length
  words : ∀ addr ∈ addrs shape, addr < 4294967296

variable {tree : RbTree} {shape focus : Shape} {path : Path} {key fuel : Nat}

theorem height_le_length (shape : Shape) : shape.height ≤ shape.items.length := by
  induction shape with
  | leaf => exact Nat.le_refl _
  | node color left entry right leftBound rightBound =>
      simp only [RedBlackTree.Tree.height, RedBlackTree.Tree.items, List.length_append, List.length_cons]
      omega

/-- There are fewer nodes than non-null addresses. -/
theorem items_length_lt (represents : Represents tree shape)
    (words : ∀ addr ∈ addrs shape, addr < 4294967296) : shape.items.length < 4294967296 := by
  have nodup := represents.distinct
  have within : (addrs shape).toFinset ⊆ Finset.Ioo 0 4294967296 := by
    intro addr member
    have listed := List.mem_toFinset.1 member
    rw [Finset.mem_Ioo]
    exact ⟨Nat.pos_of_ne_zero (represents.nonzero addr listed), words addr listed⟩
  have card := Finset.card_le_card within
  rw [List.toFinset_card_of_nodup nodup, Nat.card_Ioo, addrs, List.length_map] at card
  omega

section Search

/-- The descent for a key. -/
def locate (key : Nat) : Shape → Path → Shape × Path
  | .leaf, path => (.leaf, path)
  | .node color left entry right, path =>
      if entry.key = key then (.node color left entry right, path)
      else
        match keyDir key entry.key with
        | .left => locate key left (⟨.left, color, entry, right⟩ :: path)
        | .right => locate key right (⟨.right, color, entry, left⟩ :: path)

/-- The pointer that a descent ends with; null for an empty place. -/
def foundPtr : Shape → Nat
  | .leaf => 0
  | .node _ _ entry _ => entry.addr

/-- The keys left and right of a position enclose the key. -/
def Between (key : Nat) (path : Path) : Prop :=
  (∀ entry ∈ before path, entry.key < key) ∧ (∀ entry ∈ after path, key < entry.key)

theorem plug_locate (key : Nat) (shape : Shape) (path : Path) :
    plug (locate key shape path).1 (locate key shape path).2 = plug shape path := by
  induction shape generalizing path with
  | leaf => rfl
  | node color left entry right leftEq rightEq =>
      rw [locate]
      split_ifs with same
      · rfl
      · cases keyDir key entry.key with
        | left => exact leftEq _
        | right => exact rightEq _

theorem locate_between (sorted : focus.items.Pairwise fun low high => low.key < high.key)
    (between : Between key path) : Between key (locate key focus path).2 := by
  induction focus generalizing path with
  | leaf => exact between
  | node color left entry right leftBetween rightBetween =>
      rw [locate]
      simp only [RedBlackTree.Tree.items, List.pairwise_append, List.pairwise_cons, List.mem_cons] at sorted
      obtain ⟨leftSorted, ⟨above, rightSorted⟩, across⟩ := sorted
      split_ifs with same
      · exact between
      · by_cases larger : key > entry.key
        · rw [keyDir, if_pos larger]
          apply rightBetween rightSorted
          refine ⟨?_, between.2⟩
          intro other member
          simp only [before, List.mem_append, List.mem_singleton] at member
          rcases member with outer | inner | here
          · exact between.1 other outer
          · exact (across other inner entry (.inl rfl)).trans larger
          · exact here ▸ larger
        · rw [keyDir, if_neg larger]
          have smaller : key < entry.key := by omega
          apply leftBetween leftSorted
          refine ⟨between.1, ?_⟩
          intro other member
          simp only [after, List.cons_append, List.mem_cons, List.mem_append] at member
          rcases member with here | inner | outer
          · exact here ▸ smaller
          · exact smaller.trans (above other inner)
          · exact between.2 other outer

theorem locate_key {color : Color} {left right : Shape} {entry : Entry}
    (found : (locate key focus path).1 = .node color left entry right) : entry.key = key := by
  induction focus generalizing path with
  | leaf => cases found
  | node nodeColor nodeLeft here nodeRight leftFound rightFound =>
      rw [locate] at found
      split_ifs at found with same
      · simp only [RedBlackTree.Tree.node.injEq] at found
        exact found.2.2.1 ▸ same
      · cases turn : keyDir key here.key with
        | left =>
            rw [turn] at found
            exact leftFound found
        | right =>
            rw [turn] at found
            exact rightFound found

/-- The record a descent meets at an inner node. -/
theorem key_of_focus {color : Color} {left right : Shape} {entry : Entry}
    (represents : Represents tree (plug (.node color left entry right) path)) :
    tree.keyOf entry.addr = entry.key := by
  have whole : Represents tree (plug (branch .left color left entry right) path) := represents
  rw [RbTree.keyOf, node_of_branch whole, cell_key]

theorem focus_ne_nil (represents : Represents tree (plug focus path)) (inner : focus ≠ .leaf) :
    ptr tree.nil focus ≠ tree.nil := by
  have sentinel := represents.sentinel
  rw [mem_addrs_plug, not_or] at sentinel
  rwa [Ne, ptr_eq_nil sentinel.1]

/-- A turn of the descent moves the focus to a child. -/
theorem child_of_turn {color : Color} {left right : Shape} {entry : Entry}
    (represents : Represents tree (plug (.node color left entry right) path)) :
    tree.childOf entry.addr .left = ptr tree.nil left ∧
      tree.childOf entry.addr .right = ptr tree.nil right := by
  have whole : Represents tree (plug (branch .left color left entry right) path) := represents
  exact ⟨near_of_branch whole, far_of_branch whole⟩

theorem find_loop_ok (bounded : focus.height < fuel)
    (represents : Represents tree (plug focus path)) :
    findLoop tree key fuel (ptr tree.nil focus) =
      .ok (foundPtr (locate key focus path).1) := by
  induction focus generalizing path fuel with
  | leaf =>
      obtain ⟨rounds, rfl⟩ : ∃ rounds, fuel = rounds + 1 := ⟨fuel - 1, by omega⟩
      rw [findLoop, ptr, if_pos rfl]
      rfl
  | node color left entry right leftFound rightFound =>
      rw [RedBlackTree.Tree.height] at bounded
      obtain ⟨rounds, rfl⟩ : ∃ rounds, fuel = rounds + 1 := ⟨fuel - 1, by omega⟩
      obtain ⟨leftChild, rightChild⟩ := child_of_turn represents
      rw [findLoop, if_neg (focus_ne_nil represents (by simp)), ptr, key_of_focus represents, locate]
      split_ifs with same
      · rfl
      · cases turn : keyDir key entry.key with
        | left =>
            rw [leftChild]
            exact leftFound (by omega) represents
        | right =>
            rw [rightChild]
            exact rightFound (by omega) represents

/-- The side on which a path leaves its last node. -/
def side (dir : Dir) : Path → Dir
  | [] => dir
  | frame :: _ => frame.dir

/-- What the descent of `rb_insert` returns at the place it ends. -/
def placeFound (nil : Nat) (dir : Dir) : Shape × Path → Option (Nat × Dir)
  | (.leaf, path) => some (top nil path, side dir path)
  | (.node _ _ _ _, _) => none

theorem insert_descent_ok (key : Nat) (dir : Dir) (bounded : focus.height < fuel)
    (represents : Represents tree (plug focus path)) :
    insertDescent tree key fuel (ptr tree.nil focus) (top tree.nil path) (side dir path) =
      .ok (placeFound tree.nil dir (locate key focus path)) := by
  induction focus generalizing path fuel with
  | leaf =>
      obtain ⟨rounds, rfl⟩ : ∃ rounds, fuel = rounds + 1 := ⟨fuel - 1, by omega⟩
      rw [insertDescent, ptr, if_pos rfl]
      rfl
  | node color left entry right leftFound rightFound =>
      rw [RedBlackTree.Tree.height] at bounded
      obtain ⟨rounds, rfl⟩ : ∃ rounds, fuel = rounds + 1 := ⟨fuel - 1, by omega⟩
      obtain ⟨leftChild, rightChild⟩ := child_of_turn represents
      rw [insertDescent, if_neg (focus_ne_nil represents (by simp)), ptr, key_of_focus represents,
        locate]
      split_ifs with same
      · rfl
      · cases turn : keyDir key entry.key with
        | left =>
            have nearer : Represents tree
                (plug left (⟨.left, color, entry, right⟩ :: path)) := represents
            dsimp only
            rw [leftChild]
            exact leftFound (by omega) nearer
        | right =>
            have nearer : Represents tree
                (plug right (⟨.right, color, entry, left⟩ :: path)) := represents
            dsimp only
            rw [rightChild]
            exact rightFound (by omega) nearer

end Search

theorem rb_find_located (wellFormed : WellFormed tree shape) (key : Nat) :
    rbFind tree key = .ok (foundPtr (locate key shape []).1) := by
  have bounded := items_length_lt wellFormed.represents wellFormed.words
  have rooted : Represents tree (plug shape []) := wellFormed.represents
  rw [rbFind, wellFormed.represents.root]
  exact find_loop_ok (Nat.lt_of_le_of_lt (height_le_length shape) bounded) rooted

/-- The descent of `rb_insert` ends where the key belongs. -/
theorem insert_descent_located (wellFormed : WellFormed tree shape) (key : Nat) :
    insertDescent tree key loopLimit tree.root tree.nil .left =
      .ok (placeFound tree.nil .left (locate key shape [])) := by
  have bounded := items_length_lt wellFormed.represents wellFormed.words
  have rooted : Represents tree (plug shape []) := wellFormed.represents
  rw [wellFormed.represents.root]
  exact insert_descent_ok key .left (Nat.lt_of_le_of_lt (height_le_length shape) bounded) rooted

theorem root_between (wellFormed : WellFormed tree shape) (key : Nat) :
    Between key (locate key shape []).2 :=
  locate_between wellFormed.sorted ⟨by simp [before], by simp [after]⟩

/-- A descent that ends in an empty place shows that the key is absent. -/
theorem absent_of_between (between : Between key path) :
    ∀ entry ∈ (plug .leaf path : Shape).items, entry.key ≠ key := by
  intro entry member
  rw [items_plug] at member
  simp only [RedBlackTree.Tree.items, List.append_nil, List.mem_append] at member
  rcases member with low | high
  · exact Nat.ne_of_lt (between.1 entry low)
  · exact Nat.ne_of_gt (between.2 entry high)

theorem rb_find_ok (key : Nat) (wellFormed : WellFormed tree shape) :
    ((∀ entry ∈ shape.items, entry.key ≠ key) ∧ rbFind tree key = .ok 0) ∨
      ∃ entry ∈ shape.items, entry.key = key ∧ rbFind tree key = .ok entry.addr := by
  have found := rb_find_located wellFormed key
  have between := root_between wellFormed key
  have plugged := plug_locate key shape []
  rcases located : locate key shape [] with ⟨focus, path⟩
  rw [located] at found plugged between
  simp only [plug_nil] at plugged
  rw [← plugged]
  cases focus with
  | leaf => exact .inl ⟨absent_of_between between, found⟩
  | node color left entry right =>
      refine .inr ⟨entry, ?_, locate_key (congrArg Prod.fst located), found⟩
      rw [items_plug]
      simp [RedBlackTree.Tree.items]

section Insert

variable {node : Nat}

/-- A node that is not in the tree and whose record does not overlap the sentinel. -/
structure Fresh (tree : RbTree) (shape : Shape) (node : Nat) : Prop where
  nonzero : node ≠ 0
  notNil : node ≠ tree.nil
  absent : node ∉ addrs shape
  word : node < 4294967296

/-- The new node hung in an empty place. -/
def attach (tree : RbTree) (node key parent : Nat) (dir : Dir) : RbTree :=
  let tree := tree.write node fun _ => newNode tree parent key
  if parent = tree.nil then { tree with root := node } else tree.setChild parent dir node

/-- The new node hangs in the empty place, and only its record and the parent's change. -/
theorem attach_ok (key : Nat) (dir : Dir) (fresh : Fresh tree (plug .leaf path) node)
    (represents : Represents tree (plug .leaf path)) {next : RbTree}
    (attached : next = attach tree node key (top tree.nil path) (side dir path)) :
    Represents next (plug (.node .red .leaf ⟨node, key⟩ .leaf) path) ∧ next.nil = tree.nil ∧
      next.count = tree.count ∧ ∀ addr, addr ≠ node → next.keyOf addr = tree.keyOf addr := by
  obtain ⟨⟨root, _, above⟩, ⟨_, pathNodup, _⟩, nonzero, sentinel, nilBlack⟩ :=
    represents_plug.1 represents
  have absent := fresh.absent
  rw [mem_addrs_plug, not_or] at absent sentinel
  have pathFresh := absent.2
  have written : ∀ addr, addr ≠ node →
      (tree.write node fun _ => newNode tree (top tree.nil path) key).node addr = tree.node addr :=
    fun addr differ => node_write_of_ne tree _ differ
  have record : (tree.write node fun _ => newNode tree (top tree.nil path) key).node node =
      newNode tree (top tree.nil path) key := node_write_self tree node _
  -- the pieces of the new tree, from the root pointer and the changes of records
  have assemble : ∀ next : RbTree, next.nil = tree.nil → next.count = tree.count →
      next.root = rootOf node path → HoldsPath next node path →
      next.node node = newNode tree (top tree.nil path) key →
      next.node tree.nil = tree.node tree.nil →
      (∀ addr, addr ≠ node → next.keyOf addr = tree.keyOf addr) →
      Represents next (plug (.node .red .leaf ⟨node, key⟩ .leaf) path) ∧ next.nil = tree.nil ∧
        next.count = tree.count ∧ ∀ addr, addr ≠ node → next.keyOf addr = tree.keyOf addr := by
    intro next sameNil sameCount rootNext aboveNext recordNext nilNext keys
    have single : addrs (.node .red .leaf ⟨node, key⟩ .leaf) = [node] := rfl
    refine ⟨represents_plug.2 ⟨⟨rootNext, ⟨?_, trivial, trivial⟩, aboveNext⟩,
      ⟨?_, pathNodup, ?_⟩, ?_, ?_, ?_⟩, sameNil, sameCount, keys⟩
    · rw [recordNext, sameNil]
      rfl
    · rw [single]
      exact List.nodup_singleton node
    · rw [single, List.singleton_disjoint]
      exact pathFresh
    · intro addr member
      rw [mem_addrs_plug, single, List.mem_singleton] at member
      rcases member with same | member
      · exact same ▸ fresh.nonzero
      · exact nonzero addr (mem_addrs_plug.2 (.inr member))
    · rw [mem_addrs_plug, single, List.mem_singleton, sameNil, not_or]
      exact ⟨Ne.symm fresh.notNil, sentinel.2⟩
    · rw [RbTree.colorOf, sameNil, nilNext]
      exact nilBlack
  rw [attached]
  cases path with
  | nil =>
      let held := tree.write node fun _ => newNode tree tree.nil key
      have attachEq : attach tree node key (top tree.nil []) (side dir []) =
          { held with root := node } := by
        simp only [attach, write_nil, top, if_true, held]
      rw [attachEq]
      apply assemble { held with root := node } rfl rfl rfl trivial record
        (written _ (Ne.symm fresh.notNil))
      intro addr differ
      rw [RbTree.keyOf]
      exact congrArg RbNode.key (written addr differ)
  | cons frame path =>
      simp only [path_addrs_cons, List.mem_cons, List.mem_append, not_or] at pathFresh sentinel
      obtain ⟨upRecord, other, higher⟩ := above
      rw [path_addrs_cons, List.nodup_cons, List.mem_append, not_or] at pathNodup
      let held := tree.write node fun _ => newNode tree frame.item.addr key
      have within := within_set_child held frame.item.addr frame.dir node
      have upKept : held.node frame.item.addr = tree.node frame.item.addr :=
        written _ (Ne.symm pathFresh.1)
      have outside : ∀ {list : List Nat}, node ∉ list → frame.item.addr ∉ list → ∀ addr ∈ list,
          (held.setChild frame.item.addr frame.dir node).node addr = tree.node addr := by
        intro list notNode notUp addr member
        rw [within.kept addr (by simpa using fun same : addr = frame.item.addr => notUp (same ▸ member))]
        exact written addr fun same => notNode (same ▸ member)
      have attachEq : attach tree node key (top tree.nil (frame :: path)) (side dir (frame :: path)) =
          held.setChild frame.item.addr frame.dir node := by
        rw [attach, write_nil, top, if_neg (Ne.symm sentinel.2.1)]
        rfl
      rw [attachEq]
      have sameNil : (held.setChild frame.item.addr frame.dir node).nil = tree.nil := rfl
      apply assemble (held.setChild frame.item.addr frame.dir node) rfl rfl root
      · refine ⟨?_, ?_, ?_⟩
        · rw [node_set_child_self, upKept, upRecord, set_child_near]
          rfl
        · exact holds_congr sameNil (outside pathFresh.2.1 pathNodup.1.1) other
        · exact holds_path_congr sameNil (outside pathFresh.2.2 pathNodup.1.2) higher
      · rw [within.kept node (by simpa using pathFresh.1)]
        exact record
      · rw [within.kept _ (by simpa using sentinel.2.1)]
        exact written _ (Ne.symm fresh.notNil)
      · intro addr differ
        rw [within.keys addr, RbTree.keyOf]
        exact congrArg RbNode.key (written addr differ)

theorem represents_count (represents : Represents tree shape) (count : Nat) :
    Represents { tree with count := count } shape where
  root := represents.root
  holds := by
    have sameNil : ({ tree with count := count } : RbTree).nil = tree.nil := rfl
    exact holds_congr sameNil (fun _ _ => rfl) represents.holds
  distinct := represents.distinct
  nonzero := represents.nonzero
  sentinel := represents.sentinel
  nilBlack := represents.nilBlack

theorem key_of_count (tree : RbTree) (count addr : Nat) :
    ({ tree with count := count } : RbTree).keyOf addr = tree.keyOf addr := rfl

theorem path_length_lt (represents : Represents tree (plug focus path))
    (words : ∀ addr ∈ addrs (plug focus path), addr < 4294967296) : path.length < loopLimit := by
  have total := items_length_lt represents words
  have perm := (items_plug_perm focus path).length_eq
  have short := path_length_le path
  rw [List.length_append] at perm
  rw [loopLimit]
  omega

/-- `rb_insert` adds the node at the place of its key, or finds the key and changes nothing. -/
theorem rb_insert_ok (key : Nat) (wellFormed : WellFormed tree shape) (fresh : Fresh tree shape node) :
    ((∃ entry ∈ shape.items, entry.key = key) ∧
        ∀ other, WellFormed other shape → rbInsert other node key = .ok (false, other)) ∨
      ∃ grown left right, shape.items = left ++ right ∧ grown.items = left ++ ⟨node, key⟩ :: right ∧
        (∀ entry ∈ left, entry.key < key) ∧ (∀ entry ∈ right, key < entry.key) ∧
        ∀ other, WellFormed other shape → Fresh other shape node →
          ∃ next, rbInsert other node key = .ok (true, next) ∧ WellFormed next grown ∧
            next.nil = other.nil ∧ ∀ addr, addr ≠ node → next.keyOf addr = other.keyOf addr := by
  have descent := fun other (formed : WellFormed other shape) => insert_descent_located formed key
  have plugged := plug_locate key shape []
  have between := root_between wellFormed key
  rcases located : locate key shape [] with ⟨focus, path⟩
  rw [located] at descent plugged between
  simp only [plug_nil] at plugged
  cases focus with
  | node color left entry right =>
      left
      refine ⟨⟨entry, ?_, locate_key (congrArg Prod.fst located)⟩, ?_⟩
      · rw [← plugged, items_plug]
        simp [RedBlackTree.Tree.items]
      · intro other formed
        rw [rbInsert, descent other formed, Trap.ok_bind]
        rfl
  | leaf =>
      right
      subst plugged
      obtain ⟨color, blackHeight, leafBalanced, accepts⟩ := balanced_split wellFormed.balanced
      cases leafBalanced
      have redLeaf : Balanced (.node .red .leaf ⟨node, key⟩ .leaf : Shape) .red 0 :=
        .red .leaf .leaf
      obtain ⟨grown, total, balanced, items, step⟩ :=
        insert_fix_ok (path_length_lt wellFormed.represents wellFormed.words) redLeaf accepts
      have spread : grown.items = before path ++ ⟨node, key⟩ :: after path := by
        rw [items, items_plug]
        simp [RedBlackTree.Tree.items]
      have whole : (plug .leaf path : Shape).items = before path ++ after path := by
        rw [items_plug]
        simp [RedBlackTree.Tree.items]
      have grownWords : ∀ addr ∈ addrs grown, addr < 4294967296 := by
        intro addr member
        have old := wellFormed.words addr
        simp only [addrs, spread, whole, List.map_append, List.map_cons, List.mem_append,
          List.mem_cons] at member old
        rcases member with below | same | above
        · exact old (.inl below)
        · exact same ▸ fresh.word
        · exact old (.inr above)
      have grownSorted : grown.items.Pairwise fun low high => low.key < high.key := by
        have sorted := wellFormed.sorted
        rw [whole, List.pairwise_append] at sorted
        obtain ⟨leftSorted, rightSorted, across⟩ := sorted
        rw [spread, List.pairwise_append, List.pairwise_cons]
        refine ⟨leftSorted, ⟨between.2, rightSorted⟩, ?_⟩
        intro low lowMember high highMember
        rcases List.mem_cons.1 highMember with same | member
        · exact same ▸ between.1 low lowMember
        · exact across low lowMember high member
      refine ⟨grown, before path, after path, whole, spread, between.1, between.2, ?_⟩
      intro other formed otherFresh
      obtain ⟨attachedOk, sameNil, sameCount, sameKeys⟩ :=
        attach_ok key .left otherFresh formed.represents rfl
      let attached := attach other node key (top other.nil path) (side .left path)
      have counted := represents_count attachedOk (u32 (attached.count + 1))
      obtain ⟨fixed, returned, represents, kept⟩ := step _ counted
      refine ⟨fixed, ?_, ⟨represents, grownSorted, ⟨total, balanced⟩, ?_, grownWords⟩,
        kept.nil.trans sameNil, ?_⟩
      · rw [rbInsert, descent other formed, Trap.ok_bind]
        exact congrArg (· >>= fun fixed => pure (true, fixed)) returned
      · have size := formed.count
        have few := items_length_lt represents grownWords
        rw [whole, List.length_append] at size
        rw [spread, List.length_append, List.length_cons] at few ⊢
        rw [kept.count]
        change u32 (attached.count + 1) = _
        rw [show attached.count = other.count from sameCount, size, u32_of_lt (by omega)]
        omega
      · intro addr differ
        exact (kept.keys addr).trans (sameKeys addr differ)

end Insert

section Remove

/-- After the unlinking of a node with one free side, the repair of colours when that
node was black. -/
theorem repair_ok {dir : Dir} {color nodeColor : Color} {count : Nat} {node : Entry}
    (balanced : Balanced (branch dir color focus node .leaf) nodeColor count)
    (accepts : Accepts path nodeColor count) (bounded : path.length < loopLimit) :
    ∃ shape total, Balanced shape .black total ∧ shape.items = (plug focus path).items ∧
      ∀ tree next, Unlinked tree next focus path →
        ∃ fixed, (if color = .black then removeFix next (ptr next.nil focus) else pure next) = .ok fixed ∧
          Represents fixed shape ∧ Kept next fixed := by
  cases color with
  | red =>
      obtain ⟨rfl, near, _⟩ := balanced_red_branch balanced
      obtain ⟨total, whole⟩ := balanced_plug (accepts_black accepts) near
      refine ⟨_, total, whole, rfl, ?_⟩
      intro tree next unlinked
      refine ⟨next, ?_, unlinked.represents, kept_refl next⟩
      rw [if_neg (by simp)]
      rfl
  | black =>
      obtain ⟨nearColor, _, below, rfl, rfl, near, _⟩ := balanced_black_branch balanced
      have short := short_of_balanced near
      obtain ⟨shape, total, whole, items, step⟩ := remove_fix_ok bounded short accepts
      refine ⟨shape, total, whole, items, ?_⟩
      intro tree next unlinked
      rw [if_pos rfl]
      exact step next ⟨unlinked.represents, short, accepts, unlinked.parent⟩

/-- The unlinking of a found node, whichever branch of `rb_remove` it takes. -/
theorem remove_node_ok {color : Color} {left right : Shape} {node : Entry}
    (balanced : ∃ total, Balanced (plug (.node color left node right) path) .black total)
    (bounded : right.height ≤ loopLimit) :
    ∃ dir moved lower nodeColor count taken below above,
      (∃ outer, Balanced (branch dir nodeColor moved taken .leaf) outer count ∧
        Accepts lower outer count) ∧
      (plug (.node color left node right) path).items = below ++ node :: above ∧
      (plug moved lower).items = below ++ above ∧
      ∀ tree, Represents tree (plug (.node color left node right) path) →
        ∃ next, removeNode tree node.addr = .ok (next, ptr next.nil moved, nodeColor) ∧
          Unlinked tree next moved lower := by
  have leftNil : ∀ tree, Represents tree (plug (.node color left node right) path) →
      (tree.childOf node.addr .left = tree.nil ↔ left = .leaf) := by
    intro tree represents
    have leftFocus : Represents tree (plug left (⟨.left, color, node, right⟩ :: path)) := represents
    have sentinel := leftFocus.sentinel
    rw [mem_addrs_plug, not_or] at sentinel
    rw [(child_of_turn represents).1]
    exact ptr_eq_nil sentinel.1
  have rightNil : ∀ tree, Represents tree (plug (.node color left node right) path) →
      (tree.childOf node.addr .right = tree.nil ↔ right = .leaf) := by
    intro tree represents
    have rightFocus : Represents tree (plug right (⟨.right, color, node, left⟩ :: path)) := represents
    have sentinel := rightFocus.sentinel
    rw [mem_addrs_plug, not_or] at sentinel
    rw [(child_of_turn represents).2]
    exact ptr_eq_nil sentinel.1
  have nodeColor : ∀ tree, Represents tree (plug (.node color left node right) path) →
      tree.colorOf node.addr = color := fun tree represents =>
    color_of_branch (show Represents tree (plug (branch .left color left node right) path) from represents)
  obtain ⟨outer, count, nodeBalanced, accepts⟩ := balanced_split balanced
  by_cases leftEmpty : left = .leaf
  · subst leftEmpty
    refine ⟨.right, right, path, color, count, node, before path, right.items ++ after path,
      ⟨outer, nodeBalanced, accepts⟩, ?_, ?_, ?_⟩
    · simp [items_plug, RedBlackTree.Tree.items]
    · simp [items_plug]
    · intro tree represents
      have outerForm : Represents tree (plug (branch .right color right node .leaf) path) := represents
      obtain ⟨next, returned, unlinked⟩ := remove_outer_ok outerForm
      refine ⟨next, ?_, unlinked⟩
      simp only [removeNode, (leftNil tree represents).2 rfl, true_or, if_true,
        (child_of_turn represents).2, returned, Trap.ok_bind, Trap.pure_ok, unlinked.nil,
        nodeColor tree represents]
  · by_cases rightEmpty : right = .leaf
    · subst rightEmpty
      refine ⟨.left, left, path, color, count, node, before path ++ left.items, after path,
        ⟨outer, nodeBalanced, accepts⟩, ?_, ?_, ?_⟩
      · simp [items_plug, RedBlackTree.Tree.items]
      · simp [items_plug]
      · intro tree represents
        have outerForm : Represents tree (plug (branch .left color left node .leaf) path) := represents
        obtain ⟨next, returned, unlinked⟩ := remove_outer_ok outerForm
        refine ⟨next, ?_, unlinked⟩
        have notLeft := mt (leftNil tree represents).1 leftEmpty
        rw [removeNode, if_pos (.inr ((rightNil tree represents).2 rfl)), if_neg notLeft]
        simp only [(child_of_turn represents).1, returned, Trap.ok_bind, Trap.pure_ok, unlinked.nil, nodeColor tree represents]
    · obtain ⟨lowColor, low, last, spine, same, leftmost, step⟩ :=
        @remove_inner_ok path color left node right leftEmpty rightEmpty bounded
      subst same
      have lowWhole : (plug (.node color left node (plug (.node lowColor .leaf low last) spine)) path
          : Shape) =
          plug (branch .right lowColor last low .leaf)
            (spine ++ ⟨.right, color, node, left⟩ :: path) := by
        rw [plug_append]
        rfl
      rw [lowWhole] at balanced
      obtain ⟨lowOuter, lowCount, lowBalanced, lowAccepts⟩ := balanced_split balanced
      refine ⟨.right, last, _, lowColor, lowCount, low, before path ++ left.items,
        (low :: last.items ++ after spine) ++ after path,
        ⟨lowOuter, lowBalanced, accepts_replace low lowAccepts⟩, ?_, ?_, ?_⟩
      · simp [items_plug, RedBlackTree.Tree.items, leftmost]
      · rw [plug_append]
        simp [items_plug, branch, RedBlackTree.Tree.items, leftmost]
      · intro tree represents
        obtain ⟨next, returned, unlinked⟩ := step tree represents
        refine ⟨next, ?_, unlinked⟩
        rw [removeNode, if_neg (not_or.2 ⟨mt (leftNil tree represents).1 leftEmpty,
          mt (rightNil tree represents).1 rightEmpty⟩)]
        exact returned

/-- `rb_remove` unlinks exactly the node with the key, or finds none and changes nothing. -/
theorem rb_remove_ok (key : Nat) (wellFormed : WellFormed tree shape) :
    ((∀ entry ∈ shape.items, entry.key ≠ key) ∧
        ∀ other, WellFormed other shape → rbRemove other key = .ok (0, other)) ∨
      ∃ shrunk entry left right, entry.key = key ∧ shape.items = left ++ entry :: right ∧
        shrunk.items = left ++ right ∧
        ∀ other, WellFormed other shape →
          ∃ next, rbRemove other key = .ok (entry.addr, next) ∧ WellFormed next shrunk ∧
            next.nil = other.nil ∧ ∀ addr, next.keyOf addr = other.keyOf addr := by
  have bounded := items_length_lt wellFormed.represents wellFormed.words
  have found := fun other (formed : WellFormed other shape) => rb_find_located formed key
  have plugged := plug_locate key shape []
  have between := root_between wellFormed key
  rcases located : locate key shape [] with ⟨focus, path⟩
  rw [located] at plugged between
  simp only [plug_nil] at plugged
  cases focus with
  | leaf =>
      left
      refine ⟨plugged ▸ absent_of_between between, ?_⟩
      intro other formed
      rw [rbRemove, found other formed, located, Trap.ok_bind]
      rfl
  | node color leftTree node rightTree =>
      right
      subst plugged
      have height : rightTree.height ≤ loopLimit := by
        have small := height_le_length rightTree
        rw [items_plug] at bounded
        simp only [RedBlackTree.Tree.items, List.length_append, List.length_cons] at bounded
        rw [loopLimit]
        omega
      obtain ⟨dir, moved, lower, nodeColor, count, taken, left, right, ⟨outer, balanced, accepts⟩,
        items, rest, step⟩ := remove_node_ok wellFormed.balanced height
      have fewer : (plug moved lower).items.Sublist
          (plug (.node color leftTree node rightTree) path).items := by
        rw [items, rest]
        exact (List.sublist_cons_self _ _).append_left _
      have words : ∀ addr ∈ addrs (plug moved lower), addr < 4294967296 :=
        fun addr member => wellFormed.words addr ((fewer.map _).subset member)
      obtain ⟨_, _, unlinked⟩ := step tree wellFormed.represents
      obtain ⟨shrunk, total, whole, same, repair⟩ :=
        repair_ok balanced accepts (path_length_lt unlinked.represents words)
      refine ⟨shrunk, node, left, right, locate_key (congrArg Prod.fst located), items, same.trans rest, ?_⟩
      intro other formed
      obtain ⟨next, removed, unlinked⟩ := step other formed.represents
      obtain ⟨fixed, repaired, represents, kept⟩ := repair other next unlinked
      have nonzero : node.addr ≠ 0 := by
        apply formed.represents.nonzero
        rw [mem_addrs_plug]
        exact .inl (ptr_mem (by simp) other.nil)
      refine ⟨{ fixed with count := sub32 fixed.count 1 }, ?_,
        ⟨represents_count represents _, ?_, ⟨total, whole⟩, ?_, ?_⟩,
        kept.nil.trans unlinked.nil, fun addr => ?_⟩
      · rw [rbRemove, found other formed, located, Trap.ok_bind]
        simp only [foundPtr, nonzero, if_false, removed, Trap.ok_bind]
        split_ifs at repaired ⊢ with black
        all_goals
          rw [repaired]
          rfl
      · rw [same]
        exact wellFormed.sorted.sublist fewer
      · have size := formed.count
        have lengths := congrArg List.length items
        simp only [List.length_append, List.length_cons] at lengths
        rw [same, rest, List.length_append]
        change sub32 fixed.count 1 = _
        rw [kept.count, unlinked.count, size, sub32_of_le (by omega) (by omega)]
        omega
      · rw [addrs, same]
        exact words
      · rw [key_of_count]
        exact (kept.keys addr).trans (unlinked.keys addr)

end Remove

end ParadiseOS.RbTreeDict
