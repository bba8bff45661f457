import Bookkeeping.Proofs.Predicate
import Mathlib.Data.List.Lex

/-!
# The columns a predicate reads, in order

The leaves of a predicate are found by their addresses: the indices of the parts on the way down.
In the order of their addresses they stand from left to right. The list of columns has the column of
each leaf once, at its first use.
-/

namespace Bookkeeping.Predicate

/-- The leaf at an address reads this column. -/
inductive ReadsAt : Predicate → List Nat → Column → Prop where
  | compare (column : Column) (op : Operator) (value : Value) :
    ReadsAt (.compare column op value) [] column
  | like (column : Column) (pattern : String) : ReadsAt (.like column pattern) [] column
  | allOf {parts : List Predicate} {i : Nat} {part : Predicate} {address : List Nat}
      {column : Column} (hpart : parts[i]? = some part) (hread : ReadsAt part address column) :
    ReadsAt (.allOf parts) (i :: address) column
  | anyOf {parts : List Predicate} {i : Nat} {part : Predicate} {address : List Nat}
      {column : Column} (hpart : parts[i]? = some part) (hread : ReadsAt part address column) :
    ReadsAt (.anyOf parts) (i :: address) column

/-- These are the columns that a predicate reads, each once, in the order of first use: every leaf
that reads a later one has a leaf before it that reads the earlier one. -/
structure FirstUses (p : Predicate) (columns : List Column) : Prop where
  nodup : columns.Nodup
  mem_iff : ∀ column, column ∈ columns ↔ ∃ address, p.ReadsAt address column
  ordered : columns.Pairwise fun earlier later =>
    ∀ address, p.ReadsAt address later → ∃ before < address, p.ReadsAt before earlier

section Leaves

mutual

/-- The leaves from left to right, each by its address and its column. -/
def leaves : Predicate → List (List Nat × Column)
  | .all => []
  | .compare column _ _ => [([], column)]
  | .like column _ => [([], column)]
  | .allOf parts => partLeaves 0 parts
  | .anyOf parts => partLeaves 0 parts

/-- The leaves of parts, the first of which has this index. -/
def partLeaves (i : Nat) : List Predicate → List (List Nat × Column)
  | [] => []
  | part :: parts =>
    (leaves part).map (fun leaf => (i :: leaf.1, leaf.2)) ++ partLeaves (i + 1) parts

end

variable {p : Predicate} {parts : List Predicate} {i : Nat} {address : List Nat} {column : Column}

private theorem map_snd_partLeaves (h : ∀ part ∈ parts, part.leaves.map (·.2) = part.atomColumns) :
    (partLeaves i parts).map (·.2) = partColumns parts := by
  induction parts generalizing i with
  | nil => rfl
  | cons part parts ih =>
    obtain ⟨hpart, hparts⟩ := List.forall_mem_cons.1 h
    rw [partLeaves, partColumns, List.map_append, List.map_map, ih hparts, ← hpart]
    rfl

/-- The leaves read the columns of the atoms. -/
theorem map_snd_leaves (p : Predicate) : p.leaves.map (·.2) = p.atomColumns := by
  induction p using part_induction with
  | all => rfl
  | compare column op value => rfl
  | like column pattern => rfl
  | allOf parts ih => exact map_snd_partLeaves ih
  | anyOf parts ih => exact map_snd_partLeaves ih

private theorem mem_partLeaves_iff :
    (address, column) ∈ partLeaves i parts ↔ ∃ k part rest, parts[k]? = some part ∧
      address = (i + k) :: rest ∧ (rest, column) ∈ part.leaves := by
  induction parts generalizing i with
  | nil => simp [partLeaves]
  | cons part parts ih =>
    rw [partLeaves, List.mem_append, ih]
    constructor
    · rintro (h | ⟨k, other, rest, hother, rfl, hmem⟩)
      · obtain ⟨leaf, hmem, hleaf⟩ := List.mem_map.1 h
        obtain ⟨rfl, rfl⟩ := Prod.mk.inj hleaf
        exact ⟨0, part, leaf.1, rfl, rfl, hmem⟩
      · exact ⟨k + 1, other, rest, hother, by rw [Nat.add_right_comm, Nat.add_assoc], hmem⟩
    · rintro ⟨k, other, rest, hother, rfl, hmem⟩
      cases k with
      | zero =>
        obtain rfl := Option.some.inj hother
        exact .inl (List.mem_map.2 ⟨_, hmem, rfl⟩)
      | succ k =>
        exact .inr ⟨k, other, rest, hother, by rw [Nat.add_right_comm, Nat.add_assoc], hmem⟩

/-- The leaves of all parts are those of each, below its index. -/
theorem mem_joinedLeaves_iff
    (h : ∀ part ∈ parts, ∀ address, (address, column) ∈ part.leaves ↔ part.ReadsAt address column) :
    (address, column) ∈ partLeaves 0 parts ↔ ∃ k part rest, parts[k]? = some part ∧
      address = k :: rest ∧ part.ReadsAt rest column := by
  rw [mem_partLeaves_iff]
  refine exists_congr fun k => exists_congr fun part => exists_congr fun rest =>
    and_congr_right fun hpart => ?_
  rw [Nat.zero_add, h part (List.mem_of_getElem? hpart)]

private theorem readsAt_allOf_iff :
    (allOf parts).ReadsAt address column ↔ ∃ k part rest, parts[k]? = some part ∧
      address = k :: rest ∧ part.ReadsAt rest column := by
  constructor
  · intro h
    cases h with
    | allOf hpart hread => exact ⟨_, _, _, hpart, rfl, hread⟩
  · rintro ⟨k, part, rest, hpart, rfl, hread⟩
    exact .allOf hpart hread

private theorem readsAt_anyOf_iff :
    (anyOf parts).ReadsAt address column ↔ ∃ k part rest, parts[k]? = some part ∧
      address = k :: rest ∧ part.ReadsAt rest column := by
  constructor
  · intro h
    cases h with
    | anyOf hpart hread => exact ⟨_, _, _, hpart, rfl, hread⟩
  · rintro ⟨k, part, rest, hpart, rfl, hread⟩
    exact .anyOf hpart hread

/-- The leaves are listed with their addresses. -/
theorem mem_leaves_iff : (address, column) ∈ p.leaves ↔ p.ReadsAt address column := by
  induction p using part_induction generalizing address with
  | all =>
    rw [leaves]
    constructor <;> rintro ⟨⟩
  | compare other op value =>
    rw [leaves, List.mem_singleton, Prod.mk.injEq]
    constructor
    · rintro ⟨rfl, rfl⟩
      exact .compare column op value
    · rintro ⟨⟩
      exact ⟨rfl, rfl⟩
  | like other pattern =>
    rw [leaves, List.mem_singleton, Prod.mk.injEq]
    constructor
    · rintro ⟨rfl, rfl⟩
      exact .like column pattern
    · rintro ⟨⟩
      exact ⟨rfl, rfl⟩
  | allOf parts ih =>
    rw [leaves, readsAt_allOf_iff]
    exact mem_joinedLeaves_iff fun part hpart address => ih part hpart
  | anyOf parts ih =>
    rw [leaves, readsAt_anyOf_iff]
    exact mem_joinedLeaves_iff fun part hpart address => ih part hpart

private theorem pairwise_partLeaves
    (h : ∀ part ∈ parts, part.leaves.Pairwise fun leaf other => leaf.1 < other.1) :
    (partLeaves i parts).Pairwise fun leaf other => leaf.1 < other.1 := by
  induction parts generalizing i with
  | nil => exact .nil
  | cons part parts ih =>
    obtain ⟨hpart, hparts⟩ := List.forall_mem_cons.1 h
    rw [partLeaves]
    refine List.pairwise_append.2 ⟨?_, ih hparts, ?_⟩
    · exact List.pairwise_map.2 (hpart.imp fun hless => List.cons_lt_cons_iff.2 (.inr ⟨rfl, hless⟩))
    · rintro leaf hleaf ⟨address, column⟩ hlater
      obtain ⟨inner, -, rfl⟩ := List.mem_map.1 hleaf
      obtain ⟨k, other, rest, -, rfl, -⟩ := mem_partLeaves_iff.1 hlater
      exact List.cons_lt_cons_iff.2 (.inl (by omega))

/-- The leaves are listed in the order of their addresses. -/
theorem pairwise_leaves (p : Predicate) :
    p.leaves.Pairwise fun leaf other => leaf.1 < other.1 := by
  induction p using part_induction with
  | all => exact .nil
  | compare column op value => exact List.pairwise_singleton ..
  | like column pattern => exact List.pairwise_singleton ..
  | allOf parts ih => exact pairwise_partLeaves ih
  | anyOf parts ih => exact pairwise_partLeaves ih

end Leaves

/-- The list of columns of a predicate has the column of each leaf once, at its first use. -/
theorem firstUses_columns (p : Predicate) : p.FirstUses p.columns := by
  have honce : Once (p.leaves.map (·.2)) p.columns := by
    rw [map_snd_leaves]
    exact once_foldl p.atomColumns
  refine ⟨honce.nodup, fun column => ?_,
    honce.ordered.imp fun {earlier later} h address hread => ?_⟩
  · rw [honce.mem_iff, List.mem_map]
    constructor
    · rintro ⟨leaf, hleaf, rfl⟩
      exact ⟨leaf.1, mem_leaves_iff.1 hleaf⟩
    · rintro ⟨address, hread⟩
      exact ⟨_, mem_leaves_iff.2 hread, rfl⟩
  · -- what is listed in front of the leaf has the lesser addresses
    obtain ⟨before, after, hleaves⟩ := List.append_of_mem (mem_leaves_iff.2 hread)
    have hearlier : earlier ∈ before.map (·.2) :=
      h _ (after.map (·.2)) (by rw [hleaves, List.map_append, List.map_cons])
    obtain ⟨leaf, hleaf, rfl⟩ := List.mem_map.1 hearlier
    have hless : leaf.1 < address := by
      have hsorted := p.pairwise_leaves
      rw [hleaves] at hsorted
      exact (List.pairwise_append.1 hsorted).2.2 leaf hleaf _ List.mem_cons_self
    refine ⟨leaf.1, hless, mem_leaves_iff.1 ?_⟩
    rw [hleaves]
    exact List.mem_append_left _ hleaf

end Bookkeeping.Predicate
