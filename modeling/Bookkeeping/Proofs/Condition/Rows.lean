import Bookkeeping.Condition.Row
import Bookkeeping.Proofs.Bind
import Mathlib.Data.List.Count
import Mathlib.Data.List.Perm.Subperm
import Mathlib.Data.List.Sort

/-!
# Rows that stand for a forest

Rows stand for a forest when its nodes, listed depth first, are the rows: below each compound node
the rows that point at it, in their order. Rebuilding gives the one forest that the rows stand for,
and refuses all other rows.
-/

namespace Bookkeeping.ConditionRow

deriving instance DecidableEq for ConditionRow

/-- The order of siblings: by position, then by id. -/
def Before (a b : ConditionRow) : Prop :=
  a.position < b.position ∨ a.position = b.position ∧ a.id < b.id

instance (a b : ConditionRow) : Decidable (a.Before b) :=
  inferInstanceAs (Decidable (_ ∨ _))

/-- All rows below a parent, in their order; the roots are below none. -/
structure Siblings (rows : List ConditionRow) (parent : Option Nat)
    (siblings : List ConditionRow) : Prop where
  perm : siblings.Perm (rows.filter (·.parent = parent))
  ordered : siblings.Pairwise Before

/-- The rows met depth first from siblings on, each before those below it. -/
inductive DepthFirst (rows : List ConditionRow) : List ConditionRow → List ConditionRow → Prop
  | nil : DepthFirst rows [] []
  | leaf {row : ConditionRow} {siblings order : List ConditionRow}
      (hkey : row.typeKey ≠ compoundKey) (hrest : DepthFirst rows siblings order) :
      DepthFirst rows (row :: siblings) (row :: order)
  | compound {row : ConditionRow} {below siblings inner order : List ConditionRow}
      (hkey : row.typeKey = compoundKey) (hbelow : Siblings rows (some row.id) below)
      (hinner : DepthFirst rows below inner) (hrest : DepthFirst rows siblings order) :
      DepthFirst rows (row :: siblings) (row :: (inner ++ order))

/-- The forest that siblings and all rows below them stand for. The last list holds these rows in
the order of the nodes, each before those below it. -/
inductive Mirrors (rows : List ConditionRow) :
    List ConditionRow → List Condition → List ConditionRow → Prop
  | nil : Mirrors rows [] [] []
  | leaf {row : ConditionRow} {value : Value} {siblings order : List ConditionRow}
      {forest : List Condition} (hkey : row.typeKey ≠ compoundKey)
      (hvalue : row.value = some value) (hrest : Mirrors rows siblings forest order) :
      Mirrors rows (row :: siblings) (.leaf row.typeKey row.operator value :: forest)
        (row :: order)
  | compound {row : ConditionRow} {below siblings inner order : List ConditionRow}
      {children forest : List Condition} (hkey : row.typeKey = compoundKey)
      (hbelow : Siblings rows (some row.id) below) (hchildren : Mirrors rows below children inner)
      (hrest : Mirrors rows siblings forest order) :
      Mirrors rows (row :: siblings) (.compound row.operator children :: forest)
        (row :: (inner ++ order))

/-- So many steps from a row to its parent lead to a root. -/
inductive AtLevel (rows : List ConditionRow) : Nat → ConditionRow → Prop
  | root {row : ConditionRow} (hparent : row.parent = none) : AtLevel rows 0 row
  | step {row above : ConditionRow} {level : Nat} (hparent : row.parent = some above.id)
      (hmem : above ∈ rows) (habove : AtLevel rows level above) : AtLevel rows (level + 1) row

variable {rows siblings order : List ConditionRow} {forest : List Condition}
  {row : ConditionRow} {parent : Option Nat}

section Distinct

variable (hdistinct : (rows.map (·.id)).Nodup)

include hdistinct

/-- Where ids differ, the row that is found for an id is the one that has it. -/
theorem find?_eq_some_iff {id : Nat} : find? rows id = some row ↔ row ∈ rows ∧ row.id = id := by
  constructor
  · intro h
    exact ⟨List.mem_of_find?_eq_some h, by simpa using List.find?_some h⟩
  · rintro ⟨hmem, rfl⟩
    cases hfound : find? rows row.id with
    | none =>
      have := List.find?_eq_none.1 hfound row hmem
      simp at this
    | some found =>
      have hid : found.id = row.id := by simpa using List.find?_some hfound
      rw [List.inj_on_of_nodup_map hdistinct (List.mem_of_find?_eq_some hfound) hmem hid]

/-- Sorting gives the rows below a parent in their order. -/
theorem siblings_below (parent : Option Nat) : Siblings rows parent (below rows parent) := by
  have hperm := List.mergeSort_perm (rows.filter (·.parent = parent)) precedes
  refine ⟨hperm, ?_⟩
  have hsorted : (below rows parent).Pairwise fun a b => precedes a b = true := by
    refine List.pairwise_mergeSort ?_ ?_ _
    · intro a b c
      simp only [precedes, Bool.or_eq_true, Bool.and_eq_true, decide_eq_true_eq, beq_iff_eq]
      omega
    · intro a b
      simp only [precedes, Bool.or_eq_true, Bool.and_eq_true, decide_eq_true_eq, beq_iff_eq]
      omega
  have hne : (below rows parent).Pairwise fun a b => a.id ≠ b.id := by
    have hfilter : (rows.filter (·.parent = parent)).Pairwise fun a b => a.id ≠ b.id :=
      (List.pairwise_map.1 hdistinct).sublist List.filter_sublist
    exact hfilter.perm hperm.symm fun h => h.symm
  refine (hsorted.and hne).imp fun {a b} h => ?_
  simp only [precedes, Bool.or_eq_true, Bool.and_eq_true, decide_eq_true_eq, beq_iff_eq] at h
  unfold Before
  omega

end Distinct

/-- There is one list of the rows below a parent. -/
theorem Siblings.eq {others : List ConditionRow} (h : Siblings rows parent siblings)
    (hothers : Siblings rows parent others) : siblings = others := by
  refine List.Perm.eq_of_pairwise (fun a b _ _ hab hba => ?_) h.ordered hothers.ordered
    (h.perm.trans hothers.perm.symm)
  unfold Before at hab hba
  omega

/-- The siblings are all the rows with that parent. -/
theorem Siblings.mem_iff (h : Siblings rows parent siblings) :
    row ∈ siblings ↔ row ∈ rows ∧ row.parent = parent := by
  rw [h.perm.mem_iff, List.mem_filter, decide_eq_true_eq]

/-- A row stands once below its own parent, and below no other. -/
theorem Siblings.count (h : Siblings rows parent siblings) (hdistinct : (rows.map (·.id)).Nodup)
    (hmem : row ∈ rows) : siblings.count row = if row.parent = parent then 1 else 0 := by
  split
  · rename_i hparent
    have hnodup : siblings.Nodup :=
      h.perm.nodup_iff.2 ((List.Nodup.of_map _ hdistinct).filter _)
    exact List.count_eq_one_of_mem hnodup (h.mem_iff.2 ⟨hmem, hparent⟩)
  · rename_i hparent
    exact List.count_eq_zero_of_not_mem fun hlisted => hparent (h.mem_iff.1 hlisted).2

section Levels

private theorem AtLevel.unique (hdistinct : (rows.map (·.id)).Nodup) {level other : Nat}
    (h : AtLevel rows level row) (hother : AtLevel rows other row) : level = other := by
  induction h generalizing other with
  | root hparent =>
    cases hother with
    | root _ => rfl
    | step hparent' _ _ => rw [hparent] at hparent'; cases hparent'
  | @step row above level hparent hmem habove ih =>
    cases hother with
    | root hparent' => rw [hparent] at hparent'; cases hparent'
    | @step _ above' level' hparent' hmem' habove' =>
      have hid : above.id = above'.id := Option.some.inj (hparent.symm.trans hparent')
      obtain rfl := List.inj_on_of_nodup_map hdistinct hmem hmem' hid
      rw [ih habove']

/-- The rows on the way to a root are distinct, so the way is shorter than the list. -/
theorem AtLevel.lt_length (hdistinct : (rows.map (·.id)).Nodup) {level : Nat}
    (h : AtLevel rows level row) (hmem : row ∈ rows) : level < rows.length := by
  have hchain : ∃ chain : List ConditionRow, chain.Nodup ∧ chain ⊆ rows ∧
      chain.length = level + 1 ∧ ∀ passed ∈ chain, ∃ below ≤ level, AtLevel rows below passed := by
    induction h with
    | @root row hparent =>
      refine ⟨[row], List.nodup_singleton _, by simpa using hmem, rfl, ?_⟩
      simpa using AtLevel.root hparent
    | @step row above level hparent habove hlevel ih =>
      obtain ⟨chain, hnodup, hsub, hlength, hlevels⟩ := ih habove
      refine ⟨row :: chain, List.nodup_cons.2 ⟨fun hpassed => ?_, hnodup⟩,
        List.cons_subset.2 ⟨hmem, hsub⟩, by simp [hlength], ?_⟩
      · obtain ⟨lower, hlower, hat⟩ := hlevels row hpassed
        have := (AtLevel.step hparent habove hlevel).unique hdistinct hat
        omega
      · intro passed hpassed
        rcases List.mem_cons.1 hpassed with rfl | hpassed
        · exact ⟨level + 1, le_rfl, .step hparent habove hlevel⟩
        · obtain ⟨lower, hlower, hat⟩ := hlevels passed hpassed
          exact ⟨lower, by omega, hat⟩
  obtain ⟨chain, hnodup, hsub, hlength, -⟩ := hchain
  have := (hnodup.subperm hsub).length_le
  omega

/-- The row that the step from a row to its parent leads to. -/
theorem AtLevel.of_step (hdistinct : (rows.map (·.id)).Nodup) {above : ConditionRow} {level : Nat}
    (h : AtLevel rows (level + 1) row) (hmem : above ∈ rows)
    (hparent : row.parent = some above.id) : AtLevel rows level above := by
  cases h with
  | @step _ other _ hstep hother habove =>
    have hid := Option.some.inj (hparent.symm.trans hstep)
    rwa [List.inj_on_of_nodup_map hdistinct hmem hother hid]

/-- Climbing so many steps finds a root when one is so near. -/
theorem isRooted_iff (hdistinct : (rows.map (·.id)).Nodup) {steps : Nat} :
    isRooted rows steps row = true ↔ ∃ level ≤ steps, AtLevel rows level row := by
  induction steps generalizing row with
  | zero =>
    unfold isRooted
    cases hparent : row.parent with
    | none => simpa using AtLevel.root hparent
    | some id =>
      simp only [Bool.false_eq_true, false_iff]
      rintro ⟨level, hlevel, h⟩
      cases h with
      | root hroot => rw [hparent] at hroot; cases hroot
      | step => omega
  | succ steps ih =>
    unfold isRooted
    cases hparent : row.parent with
    | none =>
      simp only [true_iff]
      exact ⟨0, by omega, .root hparent⟩
    | some id =>
      cases hfound : find? rows id with
      | none =>
        simp only [hfound, Bool.false_eq_true, false_iff]
        rintro ⟨level, -, h⟩
        cases h with
        | root hroot => rw [hparent] at hroot; cases hroot
        | step hstep hmem _ =>
          have hid := Option.some.inj (hparent.symm.trans hstep)
          rw [(find?_eq_some_iff hdistinct).2 ⟨hmem, hid.symm⟩] at hfound
          cases hfound
      | some above =>
        obtain ⟨hmem, rfl⟩ := (find?_eq_some_iff hdistinct).1 hfound
        simp only [hfound, ih]
        constructor
        · rintro ⟨level, hlevel, h⟩
          exact ⟨level + 1, by omega, .step hparent hmem h⟩
        · rintro ⟨level, hlevel, h⟩
          cases level with
          | zero =>
            cases h with
            | root hroot => rw [hparent] at hroot; cases hroot
          | succ level => exact ⟨level, by omega, h.of_step hdistinct hmem hparent⟩

/-- No row of a list is further from a root than the list is long. -/
theorem isRooted_length_iff (hdistinct : (rows.map (·.id)).Nodup) (hmem : row ∈ rows) :
    isRooted rows rows.length row = true ↔ ∃ level, AtLevel rows level row := by
  rw [isRooted_iff hdistinct]
  exact ⟨fun ⟨level, _, h⟩ => ⟨level, h⟩, fun ⟨level, h⟩ =>
    ⟨level, (h.lt_length hdistinct hmem).le, h⟩⟩

end Levels

section Order

/-- The nodes of what rows stand for are met depth first. -/
theorem Mirrors.depthFirst (h : Mirrors rows siblings forest order) :
    DepthFirst rows siblings order := by
  induction h with
  | nil => exact .nil
  | leaf hkey _ _ ih => exact .leaf hkey ih
  | compound hkey hbelow _ _ ihchildren ihrest => exact .compound hkey hbelow ihchildren ihrest

/-- Whatever is met from rows of the list is one of them. -/
theorem DepthFirst.order_subset (h : DepthFirst rows siblings order) (hsiblings : siblings ⊆ rows) :
    order ⊆ rows := by
  induction h with
  | nil => exact List.nil_subset _
  | leaf hkey hrest ih =>
    obtain ⟨hrow, hrest⟩ := List.cons_subset.1 hsiblings
    exact List.cons_subset.2 ⟨hrow, ih hrest⟩
  | compound hkey hbelow hinner hrest ihinner ihrest =>
    obtain ⟨hrow, hrest⟩ := List.cons_subset.1 hsiblings
    have hinside := ihinner fun below hmem => (hbelow.mem_iff.1 hmem).1
    exact List.cons_subset.2 ⟨hrow, List.append_subset.2 ⟨hinside, ihrest hrest⟩⟩

/-- A row is met as a sibling at the top, and once below each row met that it points at. -/
theorem DepthFirst.count_order (hdistinct : (rows.map (·.id)).Nodup)
    (h : DepthFirst rows siblings order) (hmem : row ∈ rows) :
    order.count row = siblings.count row +
      order.countP fun above => row.parent = some above.id ∧ above.typeKey = compoundKey := by
  induction h with
  | nil => rfl
  | leaf hkey hrest ih =>
    simp only [List.count_cons, List.countP_cons, ih, hkey, and_false, decide_false,
      Bool.false_eq_true, if_false]
    omega
  | @compound top below siblings inner order hkey hbelow hinner hrest ihinner ihrest =>
    simp only [List.count_cons, List.countP_cons, List.count_append, List.countP_append, ihinner,
      ihrest, hbelow.count hdistinct hmem, hkey, and_true, decide_eq_true_eq]
    omega

/-- A row that is met is a sibling at the top or below a row met that holds children. -/
theorem DepthFirst.mem_order (h : DepthFirst rows siblings order) (hmem : row ∈ order) :
    row ∈ siblings ∨ ∃ above ∈ order, row.parent = some above.id ∧ above.typeKey = compoundKey := by
  induction h with
  | nil => cases hmem
  | leaf hkey hrest ih =>
    rcases List.mem_cons.1 hmem with rfl | hmem
    · exact .inl List.mem_cons_self
    · rcases ih hmem with hsibling | ⟨above, habove, hparent⟩
      · exact .inl (List.mem_cons_of_mem _ hsibling)
      · exact .inr ⟨above, List.mem_cons_of_mem _ habove, hparent⟩
  | @compound top below siblings inner order hkey hbelow hinner hrest ihinner ihrest =>
    rcases List.mem_cons.1 hmem with rfl | hmem
    · exact .inl List.mem_cons_self
    rcases List.mem_append.1 hmem with hmem | hmem
    · rcases ihinner hmem with hchild | ⟨above, habove, hparent⟩
      · exact .inr ⟨top, List.mem_cons_self, (hbelow.mem_iff.1 hchild).2, hkey⟩
      · exact .inr ⟨above, List.mem_cons_of_mem _ (List.mem_append_left _ habove), hparent⟩
    · rcases ihrest hmem with hsibling | ⟨above, habove, hparent⟩
      · exact .inl (List.mem_cons_of_mem _ hsibling)
      · exact .inr ⟨above, List.mem_cons_of_mem _ (List.mem_append_right _ habove), hparent⟩

/-- Below siblings at some level every row that is met is at some level. -/
theorem DepthFirst.exists_level (h : DepthFirst rows siblings order) {level : Nat}
    (hlevel : ∀ row ∈ siblings, row ∈ rows ∧ AtLevel rows level row) (hmem : row ∈ order) :
    ∃ lower, AtLevel rows lower row := by
  induction h generalizing level with
  | nil => cases hmem
  | leaf hkey hrest ih =>
    obtain ⟨⟨-, htop⟩, hsiblings⟩ := List.forall_mem_cons.1 hlevel
    rcases List.mem_cons.1 hmem with rfl | hmem
    · exact ⟨level, htop⟩
    · exact ih hsiblings hmem
  | compound hkey hbelow hinner hrest ihinner ihrest =>
    obtain ⟨⟨htopmem, htop⟩, hsiblings⟩ := List.forall_mem_cons.1 hlevel
    rcases List.mem_cons.1 hmem with rfl | hmem
    · exact ⟨level, htop⟩
    rcases List.mem_append.1 hmem with hmem | hmem
    · exact ihinner (fun child hchild => ⟨(hbelow.mem_iff.1 hchild).1,
        .step (hbelow.mem_iff.1 hchild).2 htopmem htop⟩) hmem
    · exact ihrest hsiblings hmem

/-- From the roots only rows are met that lie below a root. -/
theorem DepthFirst.exists_level_of_roots (h : DepthFirst rows siblings order)
    (hroots : Siblings rows none siblings) (hmem : row ∈ order) :
    ∃ level, AtLevel rows level row := by
  have hlevel : ∀ root ∈ siblings, root ∈ rows ∧ AtLevel rows 0 root := fun _ hroot =>
    ⟨(hroots.mem_iff.1 hroot).1, .root (hroots.mem_iff.1 hroot).2⟩
  exact h.exists_level hlevel hmem

end Order

end Bookkeeping.ConditionRow
