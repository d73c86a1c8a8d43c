import Mathlib.Data.List.Nodup
import Mathlib.Logic.Function.Basic

/-!
# Chains of links

A singly linked list is a map from a node to the next one, with a null node at the
end. `Chain null next head nodes` says which nodes a walk from `head` visits. A walk
that ends visits no node twice.
-/

namespace ParadiseOS.LinkedChain

set_option autoImplicit false

variable {Node : Type} {null : Node}

/-- The walk from a head over the links visits these nodes and ends at the null node. -/
def Chain (null : Node) (next : Node → Node) : Node → List Node → Prop
  | head, [] => head = null
  | head, node :: nodes => head = node ∧ node ≠ null ∧ Chain null next (next node) nodes

variable {next later : Node → Node} {head node tail : Node} {nodes others : List Node}

theorem chain_not_null (chain : Chain null next head nodes) : ∀ node ∈ nodes, node ≠ null := by
  induction nodes generalizing head with
  | nil => exact fun _ member => nomatch member
  | cons first nodes ih =>
      intro node member
      rcases List.mem_cons.1 member with rfl | inside
      · exact chain.2.1
      · exact ih chain.2.2 node inside

theorem chain_nil_iff (chain : Chain null next head nodes) : nodes = [] ↔ head = null := by
  cases nodes with
  | nil => exact iff_of_true rfl chain
  | cons first nodes => exact iff_of_false (List.cons_ne_nil _ _) (chain.1 ▸ chain.2.1)

/-- The nodes are determined by the links. -/
theorem chain_unique (chain : Chain null next head nodes) (other : Chain null next head others) :
    nodes = others := by
  induction nodes generalizing head others with
  | nil => exact ((chain_nil_iff other).2 chain).symm
  | cons first nodes ih =>
      obtain ⟨rfl, notNull, rest⟩ := chain
      cases others with
      | nil => exact absurd other notNull
      | cons second others =>
          obtain ⟨rfl, _, more⟩ := other
          rw [ih rest more]

/-- Only the links of the visited nodes matter. -/
theorem chain_congr (chain : Chain null next head nodes) (same : ∀ node ∈ nodes, later node = next node) :
    Chain null later head nodes := by
  induction nodes generalizing head with
  | nil => exact chain
  | cons first nodes ih =>
      obtain ⟨rfl, notNull, rest⟩ := chain
      refine ⟨rfl, notNull, ?_⟩
      rw [same head List.mem_cons_self]
      exact ih rest fun node member => same node (List.mem_cons_of_mem _ member)

/-- From every visited node on, the walk is a part of the whole one. -/
theorem chain_suffix (chain : Chain null next head nodes) (member : node ∈ nodes) :
    ∃ front back, nodes = front ++ node :: back ∧ Chain null next node (node :: back) := by
  induction nodes generalizing head with
  | nil => cases member
  | cons first nodes ih =>
      rcases List.mem_cons.1 member with rfl | inside
      · exact ⟨[], nodes, rfl, rfl, chain.2⟩
      · obtain ⟨front, back, rfl, walk⟩ := ih chain.2.2 inside
        exact ⟨first :: front, back, rfl, walk⟩

/-- A walk that came back to a node would never end. -/
theorem chain_nodup (chain : Chain null next head nodes) : nodes.Nodup := by
  induction nodes generalizing head with
  | nil => exact List.nodup_nil
  | cons first nodes ih =>
      refine List.nodup_cons.2 ⟨?_, ih chain.2.2⟩
      intro again
      obtain ⟨front, back, split, walk⟩ := chain_suffix chain.2.2 again
      have whole : Chain null next first (first :: nodes) := ⟨rfl, chain.1 ▸ chain.2⟩
      have same := chain_unique whole walk
      have lengths := congrArg List.length (List.cons.inj same).2
      rw [split, List.length_append, List.length_cons] at lengths
      omega

variable [DecidableEq Node]

/-- A node that is not on the chain is put in front. -/
theorem chain_push (chain : Chain null next head nodes) (notNull : node ≠ null) (fresh : node ∉ nodes) :
    Chain null (Function.update next node head) node (node :: nodes) := by
  refine ⟨rfl, notNull, ?_⟩
  rw [Function.update_self]
  apply chain_congr chain
  intro other member
  apply Function.update_of_ne
  rintro rfl
  exact fresh member

/-- The link of a node that is not on the chain may change. -/
theorem chain_update (chain : Chain null next head nodes) (fresh : node ∉ nodes) (link : Node) :
    Chain null (Function.update next node link) head nodes := by
  apply chain_congr chain
  intro other member
  apply Function.update_of_ne
  rintro rfl
  exact fresh member

/-- A node that is not on the chain is put behind the last one. -/
theorem chain_append (chain : Chain null next head (nodes ++ [tail])) (notNull : node ≠ null)
    (fresh : node ∉ nodes ++ [tail]) :
    Chain null (Function.update (Function.update next tail node) node null) head
      (nodes ++ [tail] ++ [node]) := by
  induction nodes generalizing head with
  | nil =>
      obtain ⟨rfl, tailNotNull, _⟩ := chain
      have differ : head ≠ node := fun same => fresh (same ▸ List.mem_cons_self)
      refine ⟨rfl, tailNotNull, ?_⟩
      rw [Function.update_of_ne differ, Function.update_self]
      refine ⟨rfl, notNull, ?_⟩
      rw [Function.update_self]
      rfl
  | cons first nodes ih =>
      have nodup := chain_nodup chain
      obtain ⟨rfl, firstNotNull, rest⟩ := chain
      have notTail : head ≠ tail := by
        rintro rfl
        exact (List.nodup_cons.1 nodup).1 (List.mem_append_right _ (List.mem_singleton_self _))
      have differ : head ≠ node := fun same => fresh (same ▸ List.mem_cons_self)
      refine ⟨rfl, firstNotNull, ?_⟩
      rw [Function.update_of_ne differ, Function.update_of_ne notTail]
      exact ih rest fun member => fresh (List.mem_cons_of_mem _ member)

end ParadiseOS.LinkedChain
