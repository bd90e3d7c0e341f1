/-!
The order of a node and its ancestors, and the two ways in which a node can fail to have one. All
of it is stated for any type of nodes.
-/
namespace Ancestry

/-- A node followed by its ancestors, in order of precedence. -/
structure Linearization (α : Type) where
  node : α
  ancestors : List α
deriving DecidableEq

namespace Linearization

variable {α : Type}

/-- The whole order, which starts with the node itself. -/
def toList (order : Linearization α) : List α := order.node :: order.ancestors

variable [DecidableEq α]

def position? (order : Linearization α) (node : α) : Option Nat := order.toList.idxOf? node

/-- Whether both nodes are in the order, the first strictly before the second. -/
def precedes (order : Linearization α) (first second : α) : Bool :=
  match order.position? first, order.position? second with
  | some i, some j => i < j
  | _, _ => false

end Linearization

/-- A merge that got stuck: the orders to be merged agree on no next node. -/
structure Conflict (α : Type) where
  /-- The node whose ancestors were merged. -/
  node : α
  parents : List α
  /-- The order up to the point of failure, which starts with the node. -/
  placed : List α
  /-- What is left of each merged order: one for each parent, then that of the parents
  themselves. An order that is used up is left as an empty one. -/
  remaining : List (List α)
deriving DecidableEq

/-- The nodes that could come next if the others allowed it, each once. -/
def Conflict.conflicting {α : Type} [DecidableEq α] (conflict : Conflict α) : List α :=
  (conflict.remaining.filterMap List.head?).eraseDups

/-- Why a node has no linearization. -/
inductive Failure (α : Type) where
  /-- The ancestors of the node, or of one of its ancestors, cannot be ordered. -/
  | inconsistent (conflict : Conflict α)
  /-- The chain of ancestors under examination has as many members as the limit allows, and its
  last one has the parent `node`, whose ancestors are not known yet. The chain begins with
  `requested`. -/
  | tooDeep (requested node : α) (limit : Nat) (chain : List α)
deriving DecidableEq

end Ancestry
