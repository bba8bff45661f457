import Bookkeeping.Proofs.Condition.Rebuilding
import Mathlib.Data.List.Nodup

/-!
# Flattening a forest

Flattening writes one row for each node. The ids count the nodes depth first, so a row points at an
earlier one, and the rows below a node are those of its children. Hence the rows stand for the
forest that was flattened.
-/

namespace Bookkeeping.Condition

open ConditionRow (compoundKey Siblings Mirrors)

/-- The conditions below a node. -/
def children : Condition → List Condition
  | .leaf _ _ _ => []
  | .compound _ children => children

/-- Induction on a forest, by what is below its first node and by its other trees. -/
@[elab_as_elim]
theorem forest_induction {motive : List Condition → Prop} (nil : motive [])
    (cons : ∀ condition rest, motive condition.children → motive rest →
      motive (condition :: rest)) (forest : List Condition) : motive forest :=
  match forest with
  | [] => nil
  | .leaf _ _ _ :: rest => cons _ rest nil (forest_induction nil cons rest)
  | .compound _ inside :: rest =>
    cons _ rest (forest_induction nil cons inside) (forest_induction nil cons rest)

mutual

/-- The number of nodes. -/
def nodes : Condition → Nat
  | .leaf _ _ _ => 1
  | .compound _ children => 1 + forestNodes children

/-- The number of nodes of a forest. -/
def forestNodes : List Condition → Nat
  | [] => 0
  | condition :: rest => nodes condition + forestNodes rest

end

mutual

/-- The rows of a node and of what is below it, numbered from `id`. -/
def rowsFrom (id : Nat) (parent : Option Nat) (position : Nat) :
    Condition → List ConditionRow
  | .leaf typeKey operator value => [⟨id, parent, position, typeKey, operator, some value⟩]
  | .compound operator children =>
    ⟨id, parent, position, compoundKey, operator, none⟩ ::
      siblingRows (id + 1) (some id) 0 children

/-- The rows of siblings from a position on, numbered from `id`. What is below the first one takes
as many ids as there are nodes. -/
def siblingRows (id : Nat) (parent : Option Nat) (position : Nat) :
    List Condition → List ConditionRow
  | [] => []
  | condition :: rest =>
    rowsFrom id parent position condition ++
      siblingRows (id + nodes condition) parent (position + 1) rest

end

/-- The row of a node itself. -/
def headRow (id : Nat) (parent : Option Nat) (position : Nat) : Condition → ConditionRow
  | .leaf typeKey operator value => ⟨id, parent, position, typeKey, operator, some value⟩
  | .compound operator _ => ⟨id, parent, position, compoundKey, operator, none⟩

/-- The rows of siblings themselves, from a position on. -/
def headRows (id : Nat) (parent : Option Nat) (position : Nat) :
    List Condition → List ConditionRow
  | [] => []
  | condition :: rest =>
    headRow id parent position condition ::
      headRows (id + nodes condition) parent (position + 1) rest

section Rows

variable {id position : Nat} {parent : Option Nat} {condition : Condition}
  {forest rest : List Condition} {row : ConditionRow}

/-- The first row of a condition has the next number. -/
@[simp]
theorem id_headRow : (headRow id parent position condition).id = id := by
  cases condition <;> rfl

/-- The first row of a condition is below the parent. -/
@[simp]
theorem parent_headRow : (headRow id parent position condition).parent = parent := by
  cases condition <;> rfl

/-- The first row of a condition has its position among the siblings. -/
@[simp]
theorem position_headRow : (headRow id parent position condition).position = position := by
  cases condition <;> rfl

/-- A condition has one node more than the conditions below it. -/
theorem nodes_eq (condition : Condition) :
    nodes condition = 1 + forestNodes condition.children := by
  cases condition <;> simp [nodes, children, forestNodes]

private theorem rowsFrom_eq (id : Nat) (parent : Option Nat) (position : Nat)
    (condition : Condition) :
    rowsFrom id parent position condition =
      headRow id parent position condition ::
        siblingRows (id + 1) (some id) 0 condition.children := by
  cases condition with
  | leaf typeKey operator value => simp [rowsFrom, headRow, children, siblingRows]
  | compound operator inside => simp [rowsFrom, headRow, children]

/-- Numbering one node after another gives the rows their ids, and has come as far as there are
nodes. -/
theorem flattenForest_eq (forest : List Condition) :
    flattenForest id parent position forest =
      (siblingRows id parent position forest, id + forestNodes forest) := by
  induction forest using forest_induction generalizing id parent position with
  | nil => rfl
  | cons condition rest ihchildren ihrest =>
    have htree : flattenTree id parent position condition =
        (rowsFrom id parent position condition, id + nodes condition) := by
      cases condition with
      | leaf typeKey operator value => rfl
      | compound operator inside =>
        rw [children] at ihchildren
        rw [flattenTree, ihchildren, rowsFrom, nodes, Nat.add_assoc]
    rw [flattenForest, htree]
    dsimp only
    rw [ihrest, siblingRows, forestNodes, Nat.add_assoc]

/-- The rows of a forest are those of its trees as siblings. -/
theorem toRows_eq (forest : List Condition) : toRows forest = siblingRows 1 none 0 forest := by
  rw [toRows, flattenForest_eq]

/-- The rows of a forest are the first node's own, those below it, and those of the other trees. -/
theorem siblingRows_cons (id : Nat) (parent : Option Nat) (position : Nat) (condition : Condition)
    (rest : List Condition) :
    siblingRows id parent position (condition :: rest) =
      headRow id parent position condition ::
        (siblingRows (id + 1) (some id) 0 condition.children ++
          siblingRows (id + nodes condition) parent (position + 1) rest) := by
  rw [siblingRows, rowsFrom_eq, List.cons_append]

/-- The ids count the nodes. -/
theorem map_id_siblingRows (forest : List Condition) :
    (siblingRows id parent position forest).map (·.id) = List.range' id (forestNodes forest) := by
  induction forest using forest_induction generalizing id parent position with
  | nil => rfl
  | cons condition rest ihchildren ihrest =>
    have hnode : List.range' id (nodes condition) =
        id :: List.range' (id + 1) (forestNodes condition.children) := by
      rw [nodes_eq, Nat.add_comm 1, List.range'_succ]
    calc
      (siblingRows id parent position (condition :: rest)).map (·.id) =
          id :: (List.range' (id + 1) (forestNodes condition.children) ++
            List.range' (id + nodes condition) (forestNodes rest)) := by
        rw [siblingRows_cons, List.map_cons, List.map_append, ihchildren, ihrest, id_headRow]
      _ = List.range' id (forestNodes (condition :: rest)) := by
        rw [← List.cons_append, ← hnode, List.range'_append_1, forestNodes]

/-- A row below the siblings points at one of the ids given out to them and to what is below. -/
theorem parent_of_mem_siblingRows (h : row ∈ siblingRows id parent position forest) :
    row.parent = parent ∨
      ∃ above, row.parent = some above ∧ id ≤ above ∧ above < id + forestNodes forest := by
  induction forest using forest_induction generalizing id parent position with
  | nil => simp [siblingRows] at h
  | cons condition rest ihchildren ihrest =>
    have hnodes := nodes_eq condition
    rw [siblingRows_cons, List.mem_cons, List.mem_append] at h
    rw [forestNodes]
    rcases h with rfl | h | h
    · exact .inl parent_headRow
    · rcases ihchildren h with hparent | ⟨above, hparent, hlow, hhigh⟩
      · exact .inr ⟨id, hparent, by omega, by omega⟩
      · exact .inr ⟨above, hparent, by omega, by omega⟩
    · rcases ihrest h with hparent | ⟨above, hparent, hlow, hhigh⟩
      · exact .inl hparent
      · exact .inr ⟨above, hparent, by omega, by omega⟩

/-- Of the rows of siblings and of what is below them, the siblings' own are below the parent. -/
theorem filter_siblingRows (hparent : ∀ above, parent = some above → above < id) :
    (siblingRows id parent position forest).filter (·.parent = parent) =
      headRows id parent position forest := by
  induction forest using forest_induction generalizing id position with
  | nil => rfl
  | cons condition rest _ ihrest =>
    have hbelow : (siblingRows (id + 1) (some id) 0 condition.children).filter
        (·.parent = parent) = [] := by
      refine List.filter_eq_nil_iff.2 fun row hrow => ?_
      simp only [decide_eq_true_eq]
      intro hsame
      rcases parent_of_mem_siblingRows hrow with h | ⟨above, h, hlow, -⟩
      · have := hparent id (hsame.symm.trans h)
        omega
      · have := hparent above (hsame.symm.trans h)
        omega
    rw [siblingRows_cons, List.filter_cons_of_pos (by simp), List.filter_append, hbelow,
      List.nil_append, ihrest fun above h => (hparent above h).trans_le (Nat.le_add_right ..),
      headRows]

private theorem position_of_mem_headRows (h : row ∈ headRows id parent position forest) :
    position ≤ row.position := by
  induction forest generalizing id position with
  | nil => cases h
  | cons condition rest ih =>
    rcases List.mem_cons.1 h with rfl | h
    · exact position_headRow.ge
    · exact (Nat.le_succ position).trans (ih h)

private theorem pairwise_headRows :
    (headRows id parent position forest).Pairwise ConditionRow.Before := by
  induction forest generalizing id position with
  | nil => exact .nil
  | cons condition rest ih =>
    refine List.pairwise_cons.2 ⟨fun row hrow => .inl ?_, ih⟩
    rw [position_headRow]
    exact position_of_mem_headRows hrow

end Rows

mutual

/-- The condition that the rows of a condition stand for. A leaf whose type key is that of rows
with children stands there as one without any. -/
def restored : Condition → Condition
  | .leaf typeKey operator value =>
    if typeKey = compoundKey then .compound operator [] else .leaf typeKey operator value
  | .compound operator children => .compound operator (restoredForest children)

/-- The forest that the rows of a forest stand for. -/
def restoredForest : List Condition → List Condition
  | [] => []
  | condition :: rest => restored condition :: restoredForest rest

end

/-- No row points at one of so many ids from this one on. -/
def Apart (rows : List ConditionRow) (id count : Nat) : Prop :=
  ∀ row ∈ rows, ∀ above, row.parent = some above → above < id ∨ id + count ≤ above

section Apart

variable {id count position : Nat} {parent : Option Nat} {condition : Condition}
  {forest : List Condition} {rows others : List ConditionRow}

private theorem apart_append_iff : Apart (rows ++ others) id count ↔ Apart rows id count ∧
    Apart others id count :=
  List.forall_mem_append

/-- Rows that keep off ids keep off some of them. -/
theorem Apart.mono {first less : Nat} (h : Apart rows id count) (hfirst : id ≤ first)
    (hless : first + less ≤ id + count) : Apart rows first less := by
  intro row hrow above habove
  have := h row hrow above habove
  omega

private theorem apart_headRow {number : Nat} (hparent : ∀ above, parent = some above → above < id) :
    Apart [headRow number parent position condition] id count := by
  intro row hrow above habove
  obtain rfl := List.mem_singleton.1 hrow
  exact .inl (hparent above (parent_headRow.symm.trans habove))

/-- Rows with later ids keep off the ids before. -/
theorem apart_siblingRows_of_later (hparent : ∀ above, parent = some above → above < id) :
    Apart (siblingRows (id + count) parent position forest) id count := by
  intro row hrow above habove
  rcases parent_of_mem_siblingRows hrow with h | ⟨other, h, hlow, -⟩
  · exact .inl (hparent above (h.symm.trans habove))
  · obtain rfl := Option.some.inj (h.symm.trans habove)
    exact .inr hlow

/-- Rows keep off the ids that are given out after theirs. -/
theorem apart_siblingRows_of_earlier {first : Nat}
    (hparent : ∀ above, parent = some above → above < first)
    (hfirst : id + forestNodes forest ≤ first) :
    Apart (siblingRows id parent position forest) first count := by
  intro row hrow above habove
  rcases parent_of_mem_siblingRows hrow with h | ⟨other, h, -, hhigh⟩
  · exact .inl (hparent above (h.symm.trans habove))
  · obtain rfl := Option.some.inj (h.symm.trans habove)
    exact .inl (hhigh.trans_le hfirst)

end Apart

section Mirror

variable {id position : Nat} {parent : Option Nat} {forest : List Condition}
  {rows before after : List ConditionRow}

/-- Where no other row is below the parent, the siblings' own rows are all that are. -/
theorem siblings_headRows (hrows : rows = before ++ siblingRows id parent position forest ++ after)
    (hothers : ∀ row ∈ before ++ after, row.parent ≠ parent)
    (hparent : ∀ above, parent = some above → above < id) :
    Siblings rows parent (headRows id parent position forest) := by
  refine ⟨List.Perm.of_eq ?_, pairwise_headRows⟩
  have hbefore : before.filter (·.parent = parent) = [] :=
    List.filter_eq_nil_iff.2 fun row hrow => by simpa using hothers row (by simp [hrow])
  have hafter : after.filter (·.parent = parent) = [] :=
    List.filter_eq_nil_iff.2 fun row hrow => by simpa using hothers row (by simp [hrow])
  rw [hrows, List.filter_append, List.filter_append, hbefore, hafter, filter_siblingRows hparent,
    List.nil_append, List.append_nil]

/-- A node's own row, with rows for its children and for its siblings, stands for the node as it is
restored. -/
theorem mirrors_headRow_cons {condition : Condition} {rest : List Condition}
    {below siblings inner order : List ConditionRow} (hbelow : Siblings rows (some id) below)
    (hchildren : Mirrors rows below (restoredForest condition.children) inner)
    (hrest : Mirrors rows siblings (restoredForest rest) order) :
    Mirrors rows (headRow id parent position condition :: siblings)
      (restored condition :: restoredForest rest)
      (headRow id parent position condition :: (inner ++ order)) := by
  cases condition with
  | leaf typeKey operator value =>
    cases hchildren
    rw [restored]
    split
    · rename_i hkey
      exact Mirrors.compound hkey hbelow .nil hrest
    · rename_i hkey
      exact Mirrors.leaf hkey rfl hrest
  | compound operator children =>
    rw [restored]
    exact Mirrors.compound rfl hbelow hchildren hrest

/-- The rows of siblings, among rows that do not point into them, stand for the siblings. -/
theorem mirrors_siblingRows
    (hrows : rows = before ++ siblingRows id parent position forest ++ after)
    (hapart : Apart (before ++ after) id (forestNodes forest))
    (hparent : ∀ above, parent = some above → above < id) :
    Mirrors rows (headRows id parent position forest) (restoredForest forest)
      (siblingRows id parent position forest) := by
  induction forest using forest_induction generalizing id parent position before after with
  | nil => exact .nil
  | cons condition rest ihchildren ihrest =>
    have hnodes := nodes_eq condition
    let head := headRow id parent position condition
    let inside := siblingRows (id + 1) (some id) 0 condition.children
    let others := siblingRows (id + nodes condition) parent (position + 1) rest
    rw [siblingRows_cons] at hrows
    rw [forestNodes, apart_append_iff] at hapart
    obtain ⟨hbefore, hafter⟩ := hapart
    have hbelow : rows = (before ++ [head]) ++ inside ++ (others ++ after) := by
      simp [hrows, head, inside, others]
    have hbeside : rows = (before ++ ([head] ++ inside)) ++ others ++ after := by
      simp [hrows, head, inside, others]
    -- only the rows inside the node point into it
    have hinto : Apart ((before ++ [head]) ++ (others ++ after)) id (nodes condition) := by
      simp only [apart_append_iff]
      exact ⟨⟨hbefore.mono le_rfl (by omega), apart_headRow hparent⟩,
        apart_siblingRows_of_later hparent, hafter.mono le_rfl (by omega)⟩
    have hbesides : Apart ((before ++ ([head] ++ inside)) ++ after) (id + nodes condition)
        (forestNodes rest) := by
      have hinside : Apart inside (id + nodes condition) (forestNodes rest) :=
        apart_siblingRows_of_earlier (fun above h => by cases h; omega) (by omega)
      have hhead : Apart [head] (id + nodes condition) (forestNodes rest) :=
        apart_headRow fun above h => (hparent above h).trans_le (Nat.le_add_right ..)
      simp only [apart_append_iff]
      exact ⟨⟨hbefore.mono (by omega) (by omega), hhead, hinside⟩,
        hafter.mono (by omega) (by omega)⟩
    have hsiblings : Siblings rows (some id)
        (headRows (id + 1) (some id) 0 condition.children) := by
      refine siblings_headRows hbelow (fun row hrow h => ?_) (fun above h => ?_)
      · have := hinto row hrow id h
        omega
      · obtain rfl := Option.some.inj h
        omega
    have hchildren := ihchildren hbelow (hinto.mono (by omega) (by omega))
      (fun above h => by obtain rfl := Option.some.inj h; omega)
    have hrest := ihrest hbeside hbesides fun above h => by have := hparent above h; omega
    rw [headRows, restoredForest, siblingRows_cons]
    exact mirrors_headRow_cons hsiblings hchildren hrest

/-- Flattening gives rows that stand for the forest. -/
theorem mirrors_toRows (forest : List Condition) :
    ((toRows forest).map (·.id)).Nodup ∧ Siblings (toRows forest) none (headRows 1 none 0 forest) ∧
      Mirrors (toRows forest) (headRows 1 none 0 forest) (restoredForest forest)
        (toRows forest) := by
  rw [toRows_eq]
  have hrows : siblingRows 1 none 0 forest = [] ++ siblingRows 1 none 0 forest ++ [] := by simp
  refine ⟨?_, siblings_headRows hrows (by simp) (by simp),
    mirrors_siblingRows hrows (by simp [Apart]) (by simp)⟩
  rw [map_id_siblingRows]
  exact List.nodup_range'

end Mirror

end Bookkeeping.Condition
