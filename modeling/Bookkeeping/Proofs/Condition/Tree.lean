import Bookkeeping.Condition

/-!
# Condition trees

A condition is a tree whose compound nodes hold lists of trees. What is to hold of every
condition may be shown node by node, and the nodes of a tree stand in depth-first order, each
before those below it.
-/

namespace Bookkeeping.Condition

/-- Induction on a condition: what holds of a compound node may be shown from its children. -/
@[elab_as_elim]
theorem child_induction {motive : Condition → Prop}
    (leaf : ∀ typeKey operator value, motive (.leaf typeKey operator value))
    (compound : ∀ operator children, (∀ child ∈ children, motive child) →
      motive (.compound operator children)) (condition : Condition) : motive condition :=
  match condition with
  | .leaf typeKey operator value => leaf typeKey operator value
  | .compound operator children =>
    compound operator children fun child _ => child_induction leaf compound child

/-- A forest is as deep as its deepest condition. -/
theorem forestDepth_le_iff {conditions : List Condition} {limit : Nat} :
    forestDepth conditions ≤ limit ↔ ∀ condition ∈ conditions, condition.depth ≤ limit := by
  induction conditions with
  | nil => simp [forestDepth]
  | cons condition rest ih => rw [forestDepth, Nat.max_le, ih, List.forall_mem_cons]

mutual

/-- The nodes of a condition, each before those below it, from left to right. -/
def preorder : Condition → List Condition
  | .leaf typeKey operator value => [.leaf typeKey operator value]
  | .compound operator children => .compound operator children :: forestPreorder children

/-- The nodes of a forest, tree by tree. -/
def forestPreorder : List Condition → List Condition
  | [] => []
  | condition :: rest => preorder condition ++ forestPreorder rest

end

end Bookkeeping.Condition
