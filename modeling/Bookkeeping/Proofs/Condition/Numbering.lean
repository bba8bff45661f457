import Bookkeeping.Proofs.Condition.Flattening
import Bookkeeping.Proofs.Condition.Tree
import Mathlib.Data.List.Forall2
import Mathlib.Data.List.Lex

/-!
# How flattening numbers a forest

A node is found by its address: the positions on the way down from the roots. In the order of their
addresses the nodes stand depth first, each before those below it and those below it together.
Flattening gives one row to each node in this order and numbers the rows from 1. A row points at the
row of the node above, which has children and comes earlier; and the rows below one parent have the
positions 0, 1, 2 and so on.
-/

namespace Bookkeeping.Condition

open ConditionRow (compoundKey)

/-- The node at an address: a root by its position, or a child by the address of the node above and
its position there. -/
inductive NodeAt (forest : List Condition) : List Nat → Condition → Prop where
  | root {i : Nat} {node : Condition} (hnode : forest[i]? = some node) : NodeAt forest [i] node
  | child {address : List Nat} {operator : String} {children : List Condition} {i : Nat}
      {node : Condition} (habove : NodeAt forest address (.compound operator children))
      (hnode : children[i]? = some node) : NodeAt forest (address ++ [i]) node

/-- A node with the address of the node above it, none for a root, and its position there. -/
@[ext]
structure Placed where
  above : List Nat
  position : Nat
  node : Condition

/-- The address of the node itself. -/
def Placed.address (placed : Placed) : List Nat :=
  placed.above ++ [placed.position]

/-- The row holds what its node says, at the position of the node. It is a root if there is no node
above, and otherwise points at the row of that node, an earlier one with children. -/
structure Placed.HasRow (nodes : List Placed) (rows : List ConditionRow) (placed : Placed)
    (row : ConditionRow) : Prop where
  eq_headRow : row = headRow row.id row.parent placed.position placed.node
  root_iff : row.parent = none ↔ placed.above = []
  above_row : placed.above ≠ [] → ∃ above aboveRow, (above, aboveRow) ∈ nodes.zip rows ∧
    above.address = placed.above ∧ row.parent = some aboveRow.id ∧ aboveRow.id < row.id ∧
      aboveRow.typeKey = compoundKey ∧ above.node.children[row.position]? = some placed.node

mutual

/-- The nodes of a tree from left to right, each before those below it. -/
def placedTree (above : List Nat) (position : Nat) : Condition → List Placed
  | .leaf typeKey operator value => [⟨above, position, .leaf typeKey operator value⟩]
  | .compound operator children =>
    ⟨above, position, .compound operator children⟩ ::
      placedForest (above ++ [position]) 0 children

/-- The nodes of siblings from a position on, tree by tree. -/
def placedForest (above : List Nat) (position : Nat) : List Condition → List Placed
  | [] => []
  | condition :: rest =>
    placedTree above position condition ++ placedForest above (position + 1) rest

end

section Addresses

variable {above : List Nat} {position : Nat} {forest whole : List Condition} {placed : Placed}

private theorem placedForest_cons (above : List Nat) (position : Nat) (condition : Condition)
    (rest : List Condition) :
    placedForest above position (condition :: rest) =
      ⟨above, position, condition⟩ ::
        (placedForest (above ++ [position]) 0 condition.children ++
          placedForest above (position + 1) rest) := by
  cases condition with
  | leaf typeKey operator value => simp [placedForest, placedTree, children]
  | compound operator inside => simp [placedForest, placedTree, children]

private theorem length_placedForest (forest : List Condition) :
    (placedForest above position forest).length = forestNodes forest := by
  induction forest using forest_induction generalizing above position with
  | nil => rfl
  | cons condition rest ihchildren ihrest =>
    rw [placedForest_cons, List.length_cons, List.length_append, ihchildren, ihrest, forestNodes,
      nodes_eq]
    omega

/-- The nodes are those of the depth-first list. -/
theorem map_node_placedForest (forest : List Condition) :
    (placedForest above position forest).map (·.node) = forestPreorder forest := by
  induction forest using forest_induction generalizing above position with
  | nil => rfl
  | cons condition rest ihchildren ihrest =>
    rw [placedForest_cons, List.map_cons, List.map_append, ihchildren, ihrest]
    cases condition <;> rfl

/-- Whatever is listed for siblings has the address of one of them, or one that goes on from it. -/
theorem exists_address_of_mem_placedForest (h : placed ∈ placedForest above position forest) :
    ∃ k rest, placed.address = above ++ (position + k) :: rest := by
  induction forest using forest_induction generalizing above position with
  | nil => cases h
  | cons condition rest ihchildren ihrest =>
    rw [placedForest_cons, List.mem_cons, List.mem_append] at h
    rcases h with rfl | h | h
    · exact ⟨0, [], rfl⟩
    · obtain ⟨k, more, haddress⟩ := ihchildren h
      exact ⟨0, (0 + k) :: more, by rw [haddress, List.append_assoc]; rfl⟩
    · obtain ⟨k, more, haddress⟩ := ihrest h
      exact ⟨k + 1, more, by rw [haddress, Nat.add_right_comm, Nat.add_assoc]⟩

private theorem lt_append_cons (address : List Nat) (position : Nat) (rest : List Nat) :
    address < address ++ position :: rest := by
  have hlonger : address ++ [] < address ++ position :: rest :=
    List.append_left_lt (List.nil_lt_cons position rest)
  rwa [List.append_nil] at hlonger

/-- The nodes are listed in the order of their addresses. -/
theorem pairwise_placedForest (above : List Nat) (position : Nat) (forest : List Condition) :
    (placedForest above position forest).Pairwise fun placed other =>
      placed.address < other.address := by
  induction forest using forest_induction generalizing above position with
  | nil => exact .nil
  | cons condition rest ihchildren ihrest =>
    rw [placedForest_cons]
    refine List.pairwise_cons.2 ⟨fun other hother => ?_, List.pairwise_append.2
      ⟨ihchildren _ _, ihrest _ _, fun inner hinner other hother => ?_⟩⟩
    · rcases List.mem_append.1 hother with hinside | hbeside
      · obtain ⟨k, more, haddress⟩ := exists_address_of_mem_placedForest hinside
        rw [haddress]
        exact lt_append_cons ..
      · obtain ⟨k, more, haddress⟩ := exists_address_of_mem_placedForest hbeside
        have hlater : position < position + 1 + k := by omega
        rw [haddress]
        exact List.append_left_lt (List.cons_lt_cons_iff.2 (.inl hlater))
    · obtain ⟨k, more, haddress⟩ := exists_address_of_mem_placedForest hinner
      obtain ⟨k', more', haddress'⟩ := exists_address_of_mem_placedForest hother
      rw [haddress, haddress', List.append_assoc]
      exact List.append_left_lt (List.cons_lt_cons_iff.2 (.inl (by omega)))

/-- Each of the siblings is listed. -/
theorem mem_placedForest_of_getElem? (above : List Nat) (position : Nat) {k : Nat}
    {node : Condition} (hnode : forest[k]? = some node) :
    ⟨above, position + k, node⟩ ∈ placedForest above position forest := by
  induction forest generalizing k position with
  | nil => cases hnode
  | cons condition rest ih =>
    rw [placedForest_cons]
    cases k with
    | zero =>
      obtain rfl := Option.some.inj hnode
      exact List.mem_cons_self
    | succ k =>
      have hrest := ih (position + 1) hnode
      rw [Nat.add_assoc, Nat.add_comm 1] at hrest
      exact List.mem_cons_of_mem _ (List.mem_append_right _ hrest)

/-- With a node its children are listed. -/
theorem mem_placedForest_of_child {k : Nat} {node : Condition}
    (h : placed ∈ placedForest above position forest)
    (hnode : placed.node.children[k]? = some node) :
    ⟨placed.address, k, node⟩ ∈ placedForest above position forest := by
  induction forest using forest_induction generalizing above position with
  | nil => cases h
  | cons condition rest ihchildren ihrest =>
    rw [placedForest_cons, List.mem_cons, List.mem_append] at h
    rw [placedForest_cons]
    refine List.mem_cons_of_mem _ (List.mem_append.2 ?_)
    rcases h with rfl | h | h
    · have hlisted := mem_placedForest_of_getElem? (above ++ [position]) 0 hnode
      rw [Nat.zero_add] at hlisted
      exact .inl hlisted
    · exact .inl (ihchildren h)
    · exact .inr (ihrest h)

/-- Of nodes of a forest, only nodes of it are listed. -/
theorem nodeAt_of_mem_placedForest
    (hforest : ∀ k node, forest[k]? = some node → NodeAt whole (above ++ [position + k]) node)
    (h : placed ∈ placedForest above position forest) :
    NodeAt whole placed.address placed.node := by
  induction forest using forest_induction generalizing above position with
  | nil => cases h
  | cons condition rest ihchildren ihrest =>
    rw [placedForest_cons, List.mem_cons, List.mem_append] at h
    have hcondition : NodeAt whole (above ++ [position]) condition := hforest 0 condition rfl
    rcases h with rfl | h | h
    · exact hcondition
    · refine ihchildren (fun k node hnode => ?_) h
      rw [Nat.zero_add]
      cases condition with
      | leaf typeKey operator value => cases hnode
      | compound operator inside => exact .child hcondition hnode
    · refine ihrest (fun k node hnode => ?_) h
      rw [Nat.add_assoc, Nat.add_comm 1]
      exact hforest (k + 1) node hnode

/-- The nodes of a forest are listed with their addresses. -/
theorem mem_placedForest_iff :
    placed ∈ placedForest [] 0 forest ↔ NodeAt forest placed.address placed.node := by
  constructor
  · refine nodeAt_of_mem_placedForest fun k node hnode => ?_
    rw [Nat.zero_add]
    exact .root hnode
  · have hlisted {address : List Nat} {node : Condition} (h : NodeAt forest address node) :
        ∃ listed ∈ placedForest [] 0 forest, listed.address = address ∧ listed.node = node := by
      induction h with
      | @root i node hnode =>
        have hroot := mem_placedForest_of_getElem? [] 0 hnode
        rw [Nat.zero_add] at hroot
        exact ⟨_, hroot, rfl, rfl⟩
      | @child address operator children i node habove hnode ih =>
        obtain ⟨listed, hmem, rfl, hcompound⟩ := ih
        exact ⟨_, mem_placedForest_of_child hmem (by rw [hcompound]; exact hnode), rfl, rfl⟩
    intro h
    obtain ⟨listed, hmem, haddress, hnode⟩ := hlisted h
    obtain ⟨habove, hposition⟩ := List.append_inj' haddress rfl
    obtain rfl : listed = placed := Placed.ext habove (List.cons.inj hposition).1 hnode
    exact hmem

end Addresses

section Rows

/-- What a row below an address points at, when addresses are numbered: nothing at the top. -/
def pointer (number : List Nat → Nat) (above : List Nat) : Option Nat :=
  if above = [] then none else some (number above)

private theorem pointer_eq_none_iff {number : List Nat → Nat} {above : List Nat} :
    pointer number above = none ↔ above = [] := by
  unfold pointer
  split <;> simp [*]

/-- The row of a node when addresses are numbered. -/
def Placed.row (number : List Nat → Nat) (placed : Placed) : ConditionRow :=
  headRow (number placed.address) (pointer number placed.above) placed.position placed.node

variable {number : List Nat → Nat} {above : List Nat} {id position : Nat} {parent : Option Nat}
  {forest : List Condition}

/-- Where the numbers of the addresses count the nodes from `id` on, flattening numbers the rows so,
and they point at the numbers of the addresses above. -/
theorem siblingRows_eq_map
    (hnumber : ∀ k placed, (placedForest above position forest)[k]? = some placed →
      number placed.address = id + k) :
    siblingRows id (pointer number above) position forest =
      (placedForest above position forest).map (Placed.row number) := by
  induction forest using forest_induction generalizing id above position with
  | nil => rfl
  | cons condition rest ihchildren ihrest =>
    rw [placedForest_cons] at hnumber ⊢
    have hhead : number (above ++ [position]) = id := hnumber 0 _ rfl
    have hpointer : pointer number (above ++ [position]) = some id := by
      rw [pointer, if_neg (by simp), hhead]
    have hinside : siblingRows (id + 1) (some id) 0 condition.children =
        (placedForest (above ++ [position]) 0 condition.children).map (Placed.row number) := by
      rw [← hpointer]
      refine ihchildren fun k placed hplaced => ?_
      have hlisted := hnumber (k + 1) placed (by
        rw [List.getElem?_cons_succ,
          List.getElem?_append_left (List.getElem?_eq_some_iff.1 hplaced).1]
        exact hplaced)
      omega
    have hbeside : siblingRows (id + nodes condition) (pointer number above) (position + 1) rest =
        (placedForest above (position + 1) rest).map (Placed.row number) := by
      refine ihrest fun k placed hplaced => ?_
      have hlisted := hnumber (forestNodes condition.children + k + 1) placed (by
        rw [List.getElem?_cons_succ, ← length_placedForest condition.children,
          List.getElem?_append_right (Nat.le_add_right ..), Nat.add_sub_cancel_left]
        exact hplaced)
      rw [nodes_eq]
      omega
    rw [siblingRows_cons, hinside, hbeside, List.map_cons, List.map_append]
    congr 1
    rw [Placed.row]
    exact congrArg (headRow · _ _ _) hhead.symm

private theorem map_position_headRows (forest : List Condition) :
    (headRows id parent position forest).map (·.position) =
      List.range' position forest.length := by
  induction forest generalizing id position with
  | nil => rfl
  | cons condition rest ih =>
    rw [headRows, List.map_cons, position_headRow, ih, List.length_cons, List.range'_succ]

/-- What is inside a node and what is beside it have no parent in common, unless it is that of the
siblings. -/
theorem parent_ne_of_mem_siblingRows {condition : Condition} {rest : List Condition}
    {row row' : ConditionRow}
    (hrow : row ∈ siblingRows (id + 1) (some id) 0 condition.children)
    (hrow' : row' ∈ siblingRows (id + nodes condition) parent (position + 1) rest)
    (hother : row'.parent ≠ parent) : row.parent ≠ row'.parent := by
  have hnodes := nodes_eq condition
  rcases parent_of_mem_siblingRows hrow' with h | ⟨above, h, hlow, -⟩
  · exact absurd h hother
  · rw [h]
    rcases parent_of_mem_siblingRows hrow with h' | ⟨inner, h', -, hhigh⟩
    · rw [h', ne_eq, Option.some.injEq]
      omega
    · rw [h', ne_eq, Option.some.injEq]
      omega

/-- The rows below one of the nodes have the positions of its children, in their order. -/
theorem exists_range_of_siblingRows (hparent : ∀ above, parent = some above → above < id)
    {other : Option Nat} (hother : other ≠ parent) :
    ∃ count, ((siblingRows id parent position forest).filter (·.parent = other)).map (·.position) =
      List.range count := by
  induction forest using forest_induction generalizing id parent position with
  | nil => exact ⟨0, rfl⟩
  | cons condition rest ihchildren ihrest =>
    have hhead : ¬(headRow id parent position condition).parent = other := by
      rw [parent_headRow]
      exact hother.symm
    rw [siblingRows_cons, List.filter_cons_of_neg (by simpa using hhead), List.filter_append]
    have hinside : ∃ count, ((siblingRows (id + 1) (some id) 0 condition.children).filter
        (·.parent = other)).map (·.position) = List.range count := by
      by_cases hid : other = some id
      · rw [hid, filter_siblingRows (by simp), map_position_headRows, ← List.range_eq_range']
        exact ⟨_, rfl⟩
      · exact ihchildren (by simp) hid
    have hbeside : ∃ count, ((siblingRows (id + nodes condition) parent (position + 1) rest).filter
        (·.parent = other)).map (·.position) = List.range count :=
      ihrest (fun above h => (hparent above h).trans_le (Nat.le_add_right ..)) hother
    -- the rows below the one parent are all inside the first tree or all beside it
    by_cases hnone : ∀ row ∈ siblingRows (id + nodes condition) parent (position + 1) rest,
        row.parent ≠ other
    · have hempty : (siblingRows (id + nodes condition) parent (position + 1) rest).filter
          (·.parent = other) = [] :=
        List.filter_eq_nil_iff.2 fun row hrow => by simpa using hnone row hrow
      rw [hempty, List.append_nil]
      exact hinside
    · simp only [ne_eq, not_forall, not_not, exists_prop] at hnone
      obtain ⟨row', hrow', rfl⟩ := hnone
      have hempty : (siblingRows (id + 1) (some id) 0 condition.children).filter
          (·.parent = row'.parent) = [] :=
        List.filter_eq_nil_iff.2 fun row hrow => by
          simpa using parent_ne_of_mem_siblingRows hrow hrow' hother
      rw [hempty, List.nil_append]
      exact hbeside

end Rows

section Forest

variable {nodes : List Placed} {placed above : Placed}

/-- Addresses numbered from 1 in the order of the nodes. -/
def numberIn (nodes : List Placed) (address : List Nat) : Nat :=
  (nodes.map Placed.address).idxOf address + 1

private theorem numberIn_address (hsorted : nodes.Pairwise fun placed other =>
      placed.address < other.address) {k : Nat} (hplaced : nodes[k]? = some placed) :
    numberIn nodes placed.address = 1 + k := by
  have hnodup : (nodes.map Placed.address).Nodup :=
    List.pairwise_map.2 (hsorted.imp fun hless => ne_of_lt hless)
  obtain ⟨hk, rfl⟩ := List.getElem?_eq_some_iff.1 hplaced
  have hindex := hnodup.idxOf_getElem k (by simpa using hk)
  rw [List.getElem_map] at hindex
  rw [numberIn, hindex, Nat.add_comm]

/-- Of two nodes the one with the lesser address has the lesser number. -/
theorem numberIn_lt (hsorted : nodes.Pairwise fun placed other =>
      placed.address < other.address) (habove : above ∈ nodes) (hplaced : placed ∈ nodes)
    (hless : above.address < placed.address) :
    numberIn nodes above.address < numberIn nodes placed.address := by
  obtain ⟨i, hi⟩ := List.mem_iff_getElem?.1 habove
  obtain ⟨j, hj⟩ := List.mem_iff_getElem?.1 hplaced
  rw [numberIn_address hsorted hi, numberIn_address hsorted hj]
  obtain ⟨hilength, rfl⟩ := List.getElem?_eq_some_iff.1 hi
  obtain ⟨hjlength, rfl⟩ := List.getElem?_eq_some_iff.1 hj
  rcases lt_trichotomy i j with hij | rfl | hji
  · omega
  · exact absurd hless (lt_irrefl _)
  · exact absurd hless (lt_asymm (List.pairwise_iff_getElem.1 hsorted j i hjlength hilength hji))

/-- A node that is no root is a child of the node at the address above it. -/
theorem NodeAt.exists_above {forest : List Condition} {address : List Nat} {i : Nat}
    {node : Condition} (h : NodeAt forest (address ++ [i]) node) (hne : address ≠ []) :
    ∃ operator children, NodeAt forest address (.compound operator children) ∧
      children[i]? = some node := by
  generalize hwhole : address ++ [i] = whole at h
  cases h with
  | @root j node hnode => exact absurd (List.append_eq_singleton_iff.1 hwhole) (by simp [hne])
  | @child other operator children j node habove hnode =>
    obtain ⟨rfl, hlast⟩ := List.append_inj' hwhole rfl
    obtain rfl := (List.cons.inj hlast).1
    exact ⟨operator, children, habove, hnode⟩

/-- The row of a node points at the row of the node above it. -/
theorem Placed.hasRow {forest : List Condition}
    (hsorted : nodes.Pairwise fun placed other => placed.address < other.address)
    (hnodes : ∀ placed, placed ∈ nodes ↔ NodeAt forest placed.address placed.node)
    (hplaced : placed ∈ nodes) :
    placed.HasRow nodes (nodes.map (Placed.row (numberIn nodes)))
      (placed.row (numberIn nodes)) := by
  refine ⟨by rw [row, id_headRow, parent_headRow], ?_, fun hbelow => ?_⟩
  · rw [row, parent_headRow, pointer_eq_none_iff]
  · obtain ⟨operator, children, habove, hnode⟩ := ((hnodes placed).1 hplaced).exists_above hbelow
    obtain ⟨above, haddress, hcompound⟩ :
        ∃ above : Placed,
          above.address = placed.above ∧ above.node = .compound operator children := by
      rcases List.eq_nil_or_concat placed.above with hnil | ⟨first, last, hlast⟩
      · exact absurd hnil hbelow
      · exact ⟨⟨first, last, _⟩, by rw [hlast, List.concat_eq_append]; rfl, rfl⟩
    have hmem : above ∈ nodes := (hnodes above).2 (by rw [haddress, hcompound]; exact habove)
    have hless : above.address < placed.address := by
      rw [haddress]
      exact lt_append_cons ..
    refine ⟨above, above.row (numberIn nodes), ?_, haddress, ?_, ?_, ?_, ?_⟩
    · rw [← List.map_prod_left_eq_zip]
      exact List.mem_map_of_mem hmem
    · rw [row, row, parent_headRow, id_headRow, pointer, if_neg hbelow, haddress]
    · rw [row, row, id_headRow, id_headRow]
      exact numberIn_lt hsorted hmem hplaced hless
    · rw [row, hcompound]
      rfl
    · rw [row, position_headRow, hcompound]
      exact hnode

/-- The rows of a forest are those of its nodes in the order of their addresses, depth first, and
their ids are 1, 2, 3 and so on up to the number of nodes. Each row tells what its node says, a
root's row points nowhere, and any other at the earlier row of the node above it, which has
children. The rows below one parent have the positions 0, 1, 2 and so on. -/
theorem toRows_depthFirst (forest : List Condition) :
    ∃ nodes : List Placed,
      (nodes.Pairwise fun placed other => placed.address < other.address) ∧
        (∀ placed, placed ∈ nodes ↔ NodeAt forest placed.address placed.node) ∧
        nodes.map (·.node) = forestPreorder forest ∧ nodes.length = forestNodes forest ∧
        (toRows forest).map (·.id) = List.range' 1 nodes.length ∧
        List.Forall₂ (Placed.HasRow nodes (toRows forest)) nodes (toRows forest) ∧
        ∀ parent, ∃ count, ((toRows forest).filter (·.parent = parent)).map (·.position) =
          List.range count := by
  have hsorted := pairwise_placedForest [] 0 forest
  have hnodes (placed : Placed) : placed ∈ placedForest [] 0 forest ↔
      NodeAt forest placed.address placed.node := mem_placedForest_iff
  have hrows : toRows forest = (placedForest [] 0 forest).map
      (Placed.row (numberIn (placedForest [] 0 forest))) := by
    rw [toRows_eq]
    exact siblingRows_eq_map fun k placed hplaced => numberIn_address hsorted hplaced
  refine ⟨placedForest [] 0 forest, hsorted, hnodes, map_node_placedForest forest,
    length_placedForest forest, ?_, ?_, fun parent => ?_⟩
  · rw [toRows_eq, map_id_siblingRows, length_placedForest]
  · rw [hrows, List.forall₂_map_right_iff, List.forall₂_same]
    exact fun placed hplaced => Placed.hasRow hsorted hnodes hplaced
  · by_cases hroots : parent = none
    · refine ⟨forest.length, ?_⟩
      rw [hroots, toRows_eq, filter_siblingRows (by simp), map_position_headRows,
        List.range_eq_range']
    · rw [toRows_eq]
      exact exists_range_of_siblingRows (by simp) hroots

/-- The root behind a compound one comes after all that is below that one. -/
example :
    (toRows
        [.compound "and" [.leaf "amount" ">" (.int 1), .compound "or" [],
            .leaf "name" "=" (.text "rent")],
          .leaf "name" "like" (.text "rent")]).map
        (fun row => (row.id, row.parent, row.position)) =
      [(1, none, 0), (2, some 1, 0), (3, some 1, 1), (4, some 1, 2), (5, none, 1)] :=
  rfl

end Forest

end Bookkeeping.Condition
