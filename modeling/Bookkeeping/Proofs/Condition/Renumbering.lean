import Bookkeeping.Proofs.Condition.Flattening
import Mathlib.Data.List.Permutation

/-!
# What rebuilding keeps of the rows

Flattening a forest that was rebuilt from rows gives these rows back in depth-first order, each
once. Their ids are renamed, which keeps who is below whom; positions count the siblings before a
row; and rows with children have no value.
-/

namespace Bookkeeping.ConditionRow

open Condition (ofRows toRows siblingRows nodes forestNodes)

/-- How many siblings come before a row. -/
def place (rows : List ConditionRow) (row : ConditionRow) : Nat :=
  rows.countP fun other => other.parent = row.parent ∧ other.Before row

/-- The row under new ids, in its place among its siblings and without a value that nothing
reads. -/
def renumbered (rows : List ConditionRow) (rename : Nat → Nat) (row : ConditionRow) :
    ConditionRow where
  id := rename row.id
  parent := row.parent.map rename
  position := place rows row
  typeKey := row.typeKey
  operator := row.operator
  value := if row.typeKey = compoundKey then none else row.value

variable {rows siblings order : List ConditionRow} {forest : List Condition}
  {row : ConditionRow} {parent : Option Nat}

/-- In the list of the rows below a parent each stands at its place. -/
theorem Siblings.place_eq {earlier later : List ConditionRow}
    (h : Siblings rows parent (earlier ++ row :: later)) : place rows row = earlier.length := by
  have hparent : row.parent = parent := (h.mem_iff.1 (by simp)).2
  have hsplit : place rows row =
      (earlier ++ row :: later).countP fun other => decide (other.Before row) := by
    rw [h.perm.countP_eq, List.countP_filter]
    refine List.countP_congr fun other _ => ?_
    simp [hparent, and_comm]
  obtain ⟨-, hrest, hearlier⟩ := List.pairwise_append.1 h.ordered
  have hbefore : earlier.countP (fun other => decide (other.Before row)) = earlier.length :=
    List.countP_eq_length.2 fun other hother => by
      simpa using hearlier other hother row List.mem_cons_self
  have hafter : later.countP (fun other => decide (other.Before row)) = 0 := by
    refine List.countP_eq_zero.2 fun other hother => ?_
    have hlater := (List.pairwise_cons.1 hrest).1 other hother
    simp only [decide_eq_true_eq]
    unfold Before at hlater ⊢
    omega
  have hself : ¬row.Before row := by
    unfold Before
    omega
  rw [hsplit, List.countP_append, List.countP_cons, hbefore, hafter]
  simp [hself]

private theorem Mirrors.forestNodes_eq (h : Mirrors rows siblings forest order) :
    forestNodes forest = order.length := by
  induction h with
  | nil => rfl
  | leaf hkey hvalue hrest ih => simp [forestNodes, nodes, ih]; omega
  | compound hkey hbelow hchildren hrest ihchildren ihrest =>
    simp [forestNodes, nodes, ihchildren, ihrest]
    omega

/-- The own row of a node is the renumbered row that it stands for. -/
theorem Siblings.headRow_eq {rename : Nat → Nat} {earlier later : List ConditionRow} {id : Nat}
    {condition : Condition} (h : Siblings rows parent (earlier ++ row :: later))
    (hid : rename row.id = id)
    (hcondition : (row.typeKey ≠ compoundKey ∧ ∃ value, row.value = some value ∧
        condition = .leaf row.typeKey row.operator value) ∨
      (row.typeKey = compoundKey ∧ ∃ children, condition = .compound row.operator children)) :
    Condition.headRow id (parent.map rename) earlier.length condition =
      renumbered rows rename row := by
  have hparent : row.parent = parent := (h.mem_iff.1 (by simp)).2
  rcases hcondition with ⟨hkey, value, hvalue, rfl⟩ | ⟨hkey, children, rfl⟩
  · simp [Condition.headRow, renumbered, hid, hparent, h.place_eq, hkey, hvalue]
  · simp [Condition.headRow, renumbered, hid, hparent, h.place_eq, hkey]

/-- Siblings and what is below them are flattened to their rows, renumbered by the order of all
nodes. -/
theorem Mirrors.siblingRows_eq {all : List ConditionRow} {rename : Nat → Nat}
    (hrename : ∀ {earlier row later}, all = earlier ++ row :: later →
      rename row.id = earlier.length + 1)
    (hmirrors : Mirrors rows siblings forest order) :
    ∀ (before after earlier : List ConditionRow) (parent : Option Nat),
      all = before ++ order ++ after → Siblings rows parent (earlier ++ siblings) →
        siblingRows (before.length + 1) (parent.map rename) earlier.length forest =
          order.map (renumbered rows rename) := by
  induction hmirrors with
  | nil =>
    intros
    rfl
  | @leaf row value siblings order forest hkey hvalue hrest ih =>
    intro before after earlier parent hall hsiblings
    have hid : rename row.id = before.length + 1 := hrename (by simpa using hall)
    have hothers := ih (before ++ [row]) after (earlier ++ [row]) parent (by simpa using hall)
      (by simpa using hsiblings)
    rw [List.length_append, List.length_append] at hothers
    rw [Condition.siblingRows_cons, hsiblings.headRow_eq hid (.inl ⟨hkey, value, hvalue, rfl⟩)]
    exact congrArg (renumbered rows rename row :: ·) hothers
  | @compound row below siblings inner order children forest hkey hbelow hchildren hrest
      ihchildren ihrest =>
    intro before after earlier parent hall hsiblings
    have hid : rename row.id = before.length + 1 := hrename (by simpa using hall)
    have hinside := ihchildren (before ++ [row]) (order ++ after) [] (some row.id)
      (by simpa using hall) hbelow
    have hothers := ihrest (before ++ row :: inner) after (earlier ++ [row]) parent
      (by simpa using hall) (by simpa using hsiblings)
    have hnodes : nodes (.compound row.operator children) = inner.length + 1 := by
      rw [nodes, hchildren.forestNodes_eq, Nat.add_comm]
    rw [Option.map_some, hid, List.length_append, List.length_singleton, List.length_nil] at hinside
    rw [List.length_append, List.length_append, List.length_cons, List.length_singleton] at hothers
    rw [Condition.siblingRows_cons, hsiblings.headRow_eq hid (.inr ⟨hkey, children, rfl⟩), hnodes,
      Condition.children, hinside, List.map_cons, List.map_append, ← hothers]
    congr 3
    omega

/-- Counting the rows of a list in which ids are distinct names each by its place in the list. -/
theorem exists_rename (hdistinct : (order.map (·.id)).Nodup) :
    ∃ rename : Nat → Nat, ∀ {earlier row later}, order = earlier ++ row :: later →
      rename row.id = earlier.length + 1 := by
  refine ⟨fun id => (order.map (·.id)).idxOf id + 1, fun {earlier row later} h => ?_⟩
  subst h
  rw [List.map_append, List.map_cons] at hdistinct ⊢
  have hearlier : row.id ∉ earlier.map (·.id) := fun hmem =>
    (List.nodup_append.1 hdistinct).2.2 _ hmem _ List.mem_cons_self rfl
  beta_reduce
  rw [List.idxOf_append_of_notMem hearlier]
  simp

end Bookkeeping.ConditionRow

namespace Bookkeeping.Condition

open ConditionRow

/-- Rebuilding succeeds exactly for rows with distinct ids, each a root or below a row that holds
children, with a root above each and a value in every leaf. The forest has one node for each row:
`order` lists the rows as the nodes stand, siblings by position and then by id. Flattening gives
them back in that order, with their ids renamed one to one. -/
theorem ofRows_keeps_rows (rows : List ConditionRow) :
    ((∃ forest, ofRows rows = .ok forest) ↔ Sound rows) ∧
      ∀ forest, ofRows rows = .ok forest → ∃ roots order rename,
        Siblings rows none roots ∧ Mirrors rows roots forest order ∧ order.Perm rows ∧
          toRows forest = order.map (renumbered rows rename) ∧
            ∀ a ∈ rows, ∀ b ∈ rows, rename a.id = rename b.id → a = b := by
  refine ⟨exists_ofRows_eq_ok_iff, fun forest h => ?_⟩
  obtain ⟨hdistinct, roots, order, hroots, hmirrors, hperm⟩ := ofRows_eq_ok_iff.1 h
  obtain ⟨rename, hrename⟩ := exists_rename ((hperm.map _).nodup_iff.2 hdistinct)
  have hflat : toRows forest = order.map (renumbered rows rename) :=
    (toRows_eq forest).trans (hmirrors.siblingRows_eq hrename [] [] [] none (by simp) hroots)
  refine ⟨roots, order, rename, hroots, hmirrors, hperm, hflat, fun a ha b hb hsame => ?_⟩
  have hids : (order.map fun row => rename row.id).Nodup := by
    have hmap : (toRows forest).map (·.id) = order.map fun row => rename row.id := by
      rw [hflat, List.map_map]
      rfl
    rw [← hmap, toRows_eq, map_id_siblingRows]
    exact List.nodup_range'
  exact List.inj_on_of_nodup_map hids (hperm.mem_iff.2 ha) (hperm.mem_iff.2 hb) hsame

/-- Rows out of order, with two siblings at one position and a row with children that has a value:
they are rebuilt, and flattened to four rows in which only the leaves have values. -/
theorem ofRows_keeps_rows_unordered :
    let rows : List ConditionRow :=
      [⟨40, some 7, 5, "transaction_amount", ">", some (.int 2)⟩,
        ⟨7, none, 3, "compound", "or", some (.flag true)⟩,
        ⟨9, some 7, 5, "transaction_name", "like", some (.text "rent")⟩,
        ⟨2, none, 3, "compound", "AND", none⟩]
    ∃ (forest : List Condition) (order : List ConditionRow) (rename : Nat → Nat),
      ofRows rows = .ok forest ∧ order.Perm rows ∧
        toRows forest = order.map (renumbered rows rename) ∧
        (toRows forest).map (fun row => (row.id, row.parent, row.position, row.typeKey)) =
          [(1, none, 0, "compound"), (2, none, 1, "compound"), (3, some 2, 0, "transaction_name"),
            (4, some 2, 1, "transaction_amount")] := by
  intro rows
  have hforest : ofRows rows = .ok [.compound "AND" [], .compound "or"
      [.leaf "transaction_name" "like" (.text "rent"),
        .leaf "transaction_amount" ">" (.int 2)]] := by
    cbv
  obtain ⟨-, order, rename, -, -, hperm, hflat, -⟩ := (ofRows_keeps_rows rows).2 _ hforest
  exact ⟨_, order, rename, hforest, hperm, hflat, rfl⟩

end Bookkeeping.Condition
