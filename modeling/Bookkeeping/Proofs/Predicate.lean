import Bookkeeping.Predicate
import Mathlib.Data.List.Induction
import Mathlib.Data.List.Nodup

/-!
# Joined predicates

The simplified conjunction and disjunction hold of the same records as all, or some, of their
parts, and read the columns that their parts read.
-/

namespace Bookkeeping.Predicate

/-- Induction on a predicate: what holds of joined predicates may be shown from their parts. -/
@[elab_as_elim]
theorem part_induction {motive : Predicate → Prop} (all : motive .all)
    (compare : ∀ column op value, motive (.compare column op value))
    (like : ∀ column pattern, motive (.like column pattern))
    (allOf : ∀ parts, (∀ part ∈ parts, motive part) → motive (.allOf parts))
    (anyOf : ∀ parts, (∀ part ∈ parts, motive part) → motive (.anyOf parts))
    (p : Predicate) : motive p :=
  match p with
  | .all => all
  | .compare column op value => compare column op value
  | .like column pattern => like column pattern
  | .allOf parts => allOf parts fun part _ => part_induction all compare like allOf anyOf part
  | .anyOf parts => anyOf parts fun part _ => part_induction all compare like allOf anyOf part

/-- Only the predicate without restriction is it. -/
theorem isAll_iff {p : Predicate} : p.isAll = true ↔ p = .all := by
  cases p <;> simp [isAll]

private theorem partColumns_eq (parts : List Predicate) :
    partColumns parts = parts.flatMap atomColumns := by
  induction parts with
  | nil => simp [partColumns]
  | cons part parts ih => simp [partColumns, ih]

private theorem mem_partColumns_iff {parts : List Predicate} {column : Column} :
    column ∈ partColumns parts ↔ ∃ part ∈ parts, column ∈ part.atomColumns := by
  rw [partColumns_eq, List.mem_flatMap]

section Once

/-- The columns seen so far with one more use of a column. -/
def see (seen : List Column) (column : Column) : List Column :=
  if column ∈ seen then seen else seen ++ [column]

/-- The members of a list, each once: a later one has an earlier one before each of its uses. -/
structure Once (uses seen : List Column) : Prop where
  nodup : seen.Nodup
  mem_iff : ∀ column, column ∈ seen ↔ column ∈ uses
  ordered : seen.Pairwise fun earlier later =>
    ∀ before after, uses = before ++ later :: after → earlier ∈ before

variable {uses seen : List Column} {column : Column}

private theorem mem_see_iff {other : Column} :
    other ∈ see seen column ↔ other ∈ seen ∨ other = column := by
  unfold see
  split
  · rename_i hseen
    constructor
    · exact .inl
    · rintro (hother | rfl)
      · exact hother
      · exact hseen
  · rw [List.mem_append, List.mem_singleton]

/-- One more use comes after all others, so it takes a column seen before no further forward. -/
theorem Once.see (h : Once uses seen) : Once (uses ++ [column]) (see seen column) := by
  have hlast {earlier later : Column} {before after : List Column}
      (hearlier : earlier ∈ seen) (heq : uses ++ [column] = before ++ later :: after)
      (hbefore : ∀ rest, uses = before ++ later :: rest → earlier ∈ before) :
      earlier ∈ before := by
    rcases List.eq_nil_or_concat after with rfl | ⟨rest, last, rfl⟩
    · obtain ⟨rfl, -⟩ := List.append_inj' heq rfl
      exact (h.mem_iff earlier).1 hearlier
    · rw [List.concat_eq_append, ← List.cons_append, ← List.append_assoc] at heq
      exact hbefore rest (List.append_inj' heq rfl).1
  have hordered : seen.Pairwise fun earlier later =>
      ∀ before after, uses ++ [column] = before ++ later :: after → earlier ∈ before :=
    h.ordered.imp_of_mem fun hearlier _ hbefore before after heq =>
      hlast hearlier heq fun rest => hbefore before rest
  refine ⟨?_, fun other => ?_, ?_⟩
  · unfold Predicate.see
    split
    · exact h.nodup
    · rename_i hnew
      rw [← List.concat_eq_append]
      exact h.nodup.concat hnew
  · rw [mem_see_iff, h.mem_iff, List.mem_append, List.mem_singleton]
  · unfold Predicate.see
    split
    · exact hordered
    · rename_i hnew
      refine List.pairwise_append.2 ⟨hordered, List.pairwise_singleton .., ?_⟩
      intro earlier hearlier later hlater before after heq
      obtain rfl := List.mem_singleton.1 hlater
      refine hlast hearlier heq fun rest hrest => absurd ?_ hnew
      rw [h.mem_iff, hrest]
      simp

/-- The columns seen one after the other are there once, in the order of first use. -/
theorem once_foldl (uses : List Column) : Once uses (uses.foldl see []) := by
  induction uses using List.reverseRecOn with
  | nil => exact ⟨.nil, fun _ => Iff.rfl, .nil⟩
  | append_singleton uses column ih =>
    rw [List.foldl_append, List.foldl_cons, List.foldl_nil]
    exact ih.see

end Once

/-- A column is listed when some atom reads it. -/
theorem mem_columns_iff {p : Predicate} {column : Column} :
    column ∈ p.columns ↔ column ∈ p.atomColumns :=
  (once_foldl p.atomColumns).mem_iff column

variable {record : Column → Option Value} {parts : List Predicate}

/-- Records that agree on the columns a predicate reads satisfy it both or neither. -/
theorem holds_congr {other : Column → Option Value} {p : Predicate}
    (h : ∀ column ∈ p.atomColumns, record column = other column) :
    p.holds record = p.holds other := by
  induction p using part_induction with
  | all => rw [holds, holds]
  | compare column op value =>
    rw [holds, holds, h column (by simp [atomColumns])]
  | like column pattern =>
    rw [holds, holds, h column (by simp [atomColumns])]
  | allOf parts ih =>
    have hparts (part : Predicate) (hpart : part ∈ parts) :=
      ih part hpart fun column hcolumn => h column (mem_partColumns_iff.2 ⟨part, hpart, hcolumn⟩)
    rw [holds, holds, holdsAll_eq, holdsAll_eq, Bool.eq_iff_iff, List.all_eq_true,
      List.all_eq_true]
    exact forall₂_congr fun part hpart => by rw [hparts part hpart]
  | anyOf parts ih =>
    have hparts (part : Predicate) (hpart : part ∈ parts) :=
      ih part hpart fun column hcolumn => h column (mem_partColumns_iff.2 ⟨part, hpart, hcolumn⟩)
    rw [holds, holds, holdsAny_eq, holdsAny_eq, Bool.eq_iff_iff, List.any_eq_true,
      List.any_eq_true]
    exact exists_congr fun part => and_congr_right fun hpart => by rw [hparts part hpart]

/-- The conjunction holds where every part does. -/
theorem holds_conjunction_iff :
    (conjunction parts).holds record = true ↔ ∀ part ∈ parts, part.holds record = true := by
  have hkept : (∀ part ∈ parts.filter (!·.isAll), part.holds record = true) ↔
      ∀ part ∈ parts, part.holds record = true := by
    simp only [List.mem_filter, Bool.not_eq_true', and_imp]
    refine forall₂_congr fun part _ => ⟨fun h => ?_, fun h _ => h⟩
    cases hall : part.isAll with
    | false => exact h hall
    | true => rw [isAll_iff.1 hall, holds]
  rw [← hkept, conjunction]
  split
  · simp [holds, *]
  · simp [*]
  · rw [holds, holdsAll_eq, List.all_eq_true]

/-- The conjunction of all parts holds where those of the first and of the others do. -/
theorem holds_conjunction_append (others : List Predicate) :
    (conjunction (parts ++ others)).holds record =
      ((conjunction parts).holds record && (conjunction others).holds record) := by
  rw [Bool.eq_iff_iff, Bool.and_eq_true]
  simp only [holds_conjunction_iff, List.forall_mem_append]

/-- The disjunction holds where some part does. -/
theorem holds_disjunction_iff :
    (disjunction parts).holds record = true ↔ ∃ part ∈ parts, part.holds record = true := by
  unfold disjunction
  split
  · rename_i hany
    obtain ⟨part, hmem, hall⟩ := List.any_eq_true.1 hany
    simp only [holds, true_iff]
    exact ⟨part, hmem, by rw [isAll_iff.1 hall, holds]⟩
  · split
    · simp
    · rw [holds, holdsAny_eq, List.any_eq_true]

/-- The conjunction reads what its parts read. -/
theorem atomColumns_conjunction :
    (conjunction parts).atomColumns = parts.flatMap atomColumns := by
  have hkept : (parts.filter (!·.isAll)).flatMap atomColumns = parts.flatMap atomColumns := by
    induction parts with
    | nil => rfl
    | cons part parts ih =>
      cases hall : part.isAll with
      | false => simp [hall, ih]
      | true =>
        have hcolumns : part.atomColumns = [] := by rw [isAll_iff.1 hall, atomColumns]
        simp [hall, ih, hcolumns]
  rw [← hkept, conjunction]
  split
  · simp [atomColumns, *]
  · simp [*]
  · rw [atomColumns, partColumns_eq]

/-- A disjunction of restrictions is its only part, or joins the parts as they are. -/
theorem disjunction_cases (hparts : ∀ part ∈ parts, part.isAll = false) :
    (∃ part, parts = [part] ∧ disjunction parts = part) ∨ disjunction parts = .anyOf parts := by
  unfold disjunction
  rw [if_neg (by simpa using hparts)]
  split
  · exact .inl ⟨_, rfl, rfl⟩
  · exact .inr rfl

/-- The disjunction of restrictions reads what its parts read. -/
theorem atomColumns_disjunction (hparts : ∀ part ∈ parts, part.isAll = false) :
    (disjunction parts).atomColumns = parts.flatMap atomColumns := by
  rcases disjunction_cases hparts with ⟨part, rfl, h⟩ | h
  · simp [h]
  · rw [h, atomColumns, partColumns_eq]

/-- The conjunction of restrictions is one, unless there are none. -/
theorem isAll_conjunction (hparts : ∀ part ∈ parts, part.isAll = false) (hne : parts ≠ []) :
    (conjunction parts).isAll = false := by
  have hkept : parts.filter (!·.isAll) = parts := by
    rw [List.filter_eq_self]
    simpa using hparts
  rw [conjunction, hkept]
  split
  · exact absurd rfl hne
  · exact hparts _ (by simp)
  · rfl

/-- The disjunction of restrictions is one. -/
theorem isAll_disjunction (hparts : ∀ part ∈ parts, part.isAll = false) :
    (disjunction parts).isAll = false := by
  rcases disjunction_cases hparts with ⟨part, rfl, h⟩ | h
  · rw [h]
    exact hparts part (by simp)
  · rw [h]
    rfl

/-- A predicate that reads nothing but what the parts read lists no other columns than they do. -/
theorem columns_subset {p : Predicate} (h : p.atomColumns ⊆ parts.flatMap atomColumns) :
    p.columns ⊆ parts.flatMap columns := by
  intro column hcolumn
  obtain ⟨part, hpart, hreads⟩ := List.mem_flatMap.1 (h (mem_columns_iff.1 hcolumn))
  exact List.mem_flatMap.2 ⟨part, hpart, mem_columns_iff.2 hreads⟩

/-- The conjunction reads the same columns in the same order as the parts joined as they are. -/
theorem columns_conjunction : (conjunction parts).columns = (allOf parts).columns := by
  rw [columns, columns, atomColumns_conjunction, atomColumns, partColumns_eq]

/-- The disjunction reads the same columns in the same order as the parts joined as they are, or
none when a part is without restriction. -/
theorem columns_disjunction :
    (disjunction parts).columns = if parts.any isAll then [] else (anyOf parts).columns := by
  split
  · rename_i hany
    have hall : disjunction parts = .all := if_pos hany
    rw [hall, columns, atomColumns, List.foldl_nil]
  · rename_i hany
    have hparts : ∀ part ∈ parts, part.isAll = false := by simpa using hany
    rw [columns, columns, atomColumns_disjunction hparts, atomColumns, partColumns_eq]

/-- The simplified conjunction and disjunction hold of the same records as the parts joined as they
are, whatever the parts, and read no column that no part reads. -/
theorem joins_agree (parts : List Predicate) (record : Column → Option Value) :
    (conjunction parts).holds record = (allOf parts).holds record ∧
      (disjunction parts).holds record = (anyOf parts).holds record ∧
      (conjunction parts).columns = (allOf parts).columns ∧
      (disjunction parts).columns = (if parts.any isAll then [] else (anyOf parts).columns) ∧
      (conjunction parts).columns ⊆ parts.flatMap columns ∧
      (disjunction parts).columns ⊆ parts.flatMap columns := by
  have hconjunction : (conjunction parts).holds record = (allOf parts).holds record := by
    rw [Bool.eq_iff_iff, holds_conjunction_iff, holds, holdsAll_eq, List.all_eq_true]
  have hdisjunction : (disjunction parts).holds record = (anyOf parts).holds record := by
    rw [Bool.eq_iff_iff, holds_disjunction_iff, holds, holdsAny_eq, List.any_eq_true]
  have hall : (allOf parts).columns ⊆ parts.flatMap columns := by
    refine columns_subset ?_
    rw [atomColumns, partColumns_eq]
    exact List.Subset.refl _
  have hany : (anyOf parts).columns ⊆ parts.flatMap columns := by
    refine columns_subset ?_
    rw [atomColumns, partColumns_eq]
    exact List.Subset.refl _
  refine ⟨hconjunction, hdisjunction, columns_conjunction, columns_disjunction, ?_, ?_⟩
  · rw [columns_conjunction]
    exact hall
  · rw [columns_disjunction]
    split
    · exact List.nil_subset _
    · exact hany

end Bookkeeping.Predicate
