import Bookkeeping.Proofs.Condition.Rebuilding
import Mathlib.Data.List.Chain

/-!
# Faults of rows

Rows that are no forest are refused for a fault that they have. When there are several, a repeated
id counts before a row that is not attached, that before a leaf without a value, and that before a
loop of parents; of several of one kind the first one counts. Leaves are looked at in the order in
which the depth-first walk from the roots meets them, and the loop is the one that the first row
without a root leads into.
-/

namespace Bookkeeping.ConditionRow

/-- The row is no leaf without a value. -/
def Valued (row : ConditionRow) : Prop :=
  row.typeKey ≠ compoundKey → ∃ value, row.value = some value

/-- Each id is that of a row whose parent has the next id. -/
def Climbs (rows : List ConditionRow) (ids : List Nat) : Prop :=
  ids.IsChain fun id above => ∃ row ∈ rows, row.id = id ∧ row.parent = some above

/-- The way up from a row comes back to an id that it has passed. The loop is told with this id at
both ends; it repeats no other, and the way to it repeats none either. -/
inductive LeadsInto (rows : List ConditionRow) (row : ConditionRow) : List Nat → Prop
  | mk {approach between : List Nat} {close : Nat}
      (hstart : (approach ++ close :: between).head? = some row.id)
      (hclimbs : Climbs rows (approach ++ close :: (between ++ [close])))
      (hnodup : (approach ++ close :: between).Nodup) :
      LeadsInto rows row (close :: (between ++ [close]))

/-- The fault for which rows are refused: the first of its kind, with no fault of a kind that is
looked at before. -/
inductive Fault (rows : List ConditionRow) : RuleError → Prop
  | repeated {row : ConditionRow} {earlier later : List ConditionRow}
      (hrows : rows = earlier ++ row :: later) (hearlier : (earlier.map (·.id)).Nodup)
      (hrepeated : row.id ∈ earlier.map (·.id)) : Fault rows (.duplicateId row.id)
  | orphaned {row : ConditionRow} {earlier later : List ConditionRow}
      (hdistinct : (rows.map (·.id)).Nodup) (hrows : rows = earlier ++ row :: later)
      (hearlier : ∀ other ∈ earlier, Attached rows other) (horphaned : ¬Attached rows row) :
      Fault rows (.orphaned row.id)
  | unvalued {row : ConditionRow} {roots earlier later : List ConditionRow}
      (hdistinct : (rows.map (·.id)).Nodup) (hattached : ∀ other ∈ rows, Attached rows other)
      (hroots : Siblings rows none roots) (horder : DepthFirst rows roots (earlier ++ row :: later))
      (hearlier : ∀ other ∈ earlier, Valued other) (hunvalued : ¬Valued row) :
      Fault rows (.invalidConditionValue row.typeKey "null" "a value is required")
  | cyclic {row : ConditionRow} {roots order earlier later : List ConditionRow} {path : List Nat}
      (hdistinct : (rows.map (·.id)).Nodup) (hattached : ∀ other ∈ rows, Attached rows other)
      (hroots : Siblings rows none roots) (horder : DepthFirst rows roots order)
      (hvalued : ∀ other ∈ order, Valued other) (hrows : rows = earlier ++ row :: later)
      (hearlier : ∀ other ∈ earlier, ∃ level, AtLevel rows level other)
      (hstray : ¬∃ level, AtLevel rows level row) (hpath : LeadsInto rows row path) :
      Fault rows (.cyclic path)

variable {rows siblings order : List ConditionRow} {row : ConditionRow} {parent : Option Nat}

section Repetitions

/-- The first repeated id is that of the first row with an id that came before. -/
theorem repeatedId?_eq_some_iff {seen : List Nat} {id : Nat} :
    repeatedId? seen rows = some id ↔ ∃ row earlier later, rows = earlier ++ row :: later ∧
      row.id = id ∧ (earlier.map (·.id)).Nodup ∧ (∀ other ∈ earlier, other.id ∉ seen) ∧
        (row.id ∈ earlier.map (·.id) ∨ row.id ∈ seen) := by
  induction rows generalizing seen with
  | nil => simp [repeatedId?]
  | cons first rows ih =>
    rw [repeatedId?]
    constructor
    · intro h
      split at h
      · rename_i hseen
        exact ⟨first, [], rows, rfl, Option.some.inj h, List.nodup_nil, by simp, .inr hseen⟩
      · rename_i hseen
        obtain ⟨row, earlier, later, rfl, hid, hnodup, hnew, hrepeated⟩ := ih.1 h
        obtain ⟨hfirst, hnew⟩ : first.id ∉ earlier.map (·.id) ∧ ∀ other ∈ earlier,
            other.id ∉ seen := by
          simp only [List.mem_cons, not_or] at hnew
          exact ⟨by simpa using fun other hother => (hnew other hother).1,
            fun other hother => (hnew other hother).2⟩
        refine ⟨row, first :: earlier, later, rfl, hid, List.nodup_cons.2 ⟨hfirst, hnodup⟩,
          List.forall_mem_cons.2 ⟨hseen, hnew⟩, ?_⟩
        simp only [List.map_cons, List.mem_cons] at hrepeated ⊢
        tauto
    · rintro ⟨row, earlier, later, hrows, hid, hnodup, hnew, hrepeated⟩
      cases earlier with
      | nil =>
        obtain ⟨rfl, rfl⟩ := List.cons.inj hrows
        rw [if_pos (by simpa using hrepeated), hid]
      | cons other earlier =>
        obtain ⟨rfl, rfl⟩ := List.cons.inj hrows
        obtain ⟨hfirst, hnew⟩ := List.forall_mem_cons.1 hnew
        rw [List.map_cons, List.nodup_cons] at hnodup
        rw [if_neg hfirst]
        refine ih.2 ⟨row, earlier, later, rfl, hid, hnodup.2, fun later hlater => ?_, ?_⟩
        · rw [List.mem_cons, not_or]
          exact ⟨fun hsame => hnodup.1 (List.mem_map.2 ⟨later, hlater, hsame⟩),
            hnew later hlater⟩
        · simp only [List.map_cons, List.mem_cons] at hrepeated ⊢
          tauto

end Repetitions

section Walk

/-- There is one depth-first walk. -/
theorem DepthFirst.unique {other : List ConditionRow} (h : DepthFirst rows siblings order)
    (hother : DepthFirst rows siblings other) : order = other := by
  induction h generalizing other with
  | nil =>
    cases hother
    rfl
  | leaf hkey hrest ih =>
    cases hother with
    | leaf _ hrest' => rw [ih hrest']
    | compound hkey' => exact absurd hkey' hkey
  | compound hkey hbelow hinner hrest ihinner ihrest =>
    cases hother with
    | leaf hkey' => exact absurd hkey hkey'
    | compound _ hbelow' hinner' hrest' =>
      obtain rfl := hbelow.eq hbelow'
      rw [ihinner hinner', ihrest hrest']

/-- The refusal of a leaf without a value. -/
def missingValue? (row : ConditionRow) : Option RuleError :=
  if row.isCompound then none else errorOf? row.toLeaf

private theorem missingValue?_eq_none_iff : row.missingValue? = none ↔ Valued row := by
  unfold missingValue? isCompound Valued
  by_cases hkey : row.typeKey = compoundKey
  · simp [hkey]
  · simp [hkey, errorOf?_eq_none_iff, toLeaf_eq_ok_iff]

private theorem missingValue?_eq_some_iff {cause : RuleError} :
    row.missingValue? = some cause ↔ ¬Valued row ∧
      cause = .invalidConditionValue row.typeKey "null" "a value is required" := by
  rw [← missingValue?_eq_none_iff]
  unfold missingValue? toLeaf
  cases row.isCompound <;> cases row.value <;> simp [errorOf?, eq_comm]

/-- The walk from the rows below a parent comes to an end, and building refuses the first leaf
without a value that it meets. The depth suffices, as no row is so far from a root. -/
theorem exists_depthFirst (hdistinct : (rows.map (·.id)).Nodup) {depth level : Nat}
    (hlevel : ∀ row ∈ below rows parent, AtLevel rows level row)
    (hdepth : rows.length ≤ level + depth) :
    ∃ order, DepthFirst rows (below rows parent) order ∧
      errorOf? (build rows depth parent) = order.findSome? missingValue? := by
  induction depth generalizing level parent with
  | zero =>
    rw [below_eq_nil hdistinct hlevel (by omega)]
    exact ⟨[], .nil, rfl⟩
  | succ depth ih =>
    rw [build_succ]
    have hrows : ∀ row ∈ below rows parent, row ∈ rows := fun _ => mem_of_mem_below hdistinct
    -- the siblings are taken one by one, each at the level of them all
    generalize below rows parent = siblings at hlevel hrows
    induction siblings with
    | nil => exact ⟨[], .nil, rfl⟩
    | cons row siblings ihsiblings =>
      obtain ⟨hrow, hsiblings⟩ := List.forall_mem_cons.1 hlevel
      obtain ⟨hmem, hrest⟩ := List.forall_mem_cons.1 hrows
      obtain ⟨order, horder, herrors⟩ := ihsiblings hsiblings hrest
      rw [errorOf?_mapM_cons, herrors]
      by_cases hkey : row.typeKey = compoundKey
      · have hbelow := siblings_below hdistinct (some row.id)
        obtain ⟨inner, hinner, herrorsInner⟩ := ih (atLevel_lower hdistinct hrow hmem) (by omega)
        refine ⟨row :: (inner ++ order), .compound hkey hbelow hinner horder, ?_⟩
        rw [List.findSome?_cons, List.findSome?_append, ← herrorsInner]
        simp [node, missingValue?, isCompound, hkey, errorOf?_map]
      · refine ⟨row :: order, .leaf hkey horder, ?_⟩
        have hnode : errorOf? (node rows depth row) = row.missingValue? := by
          simp [node, missingValue?, isCompound, hkey]
        rw [List.findSome?_cons, hnode]
        cases row.missingValue? <;> rfl

/-- To a greater depth there is nothing to build. -/
theorem build_add (hdistinct : (rows.map (·.id)).Nodup) {depth level : Nat}
    (hlevel : ∀ row ∈ below rows parent, AtLevel rows level row)
    (hdepth : rows.length ≤ level + depth) (more : Nat) :
    build rows (depth + more) parent = build rows depth parent := by
  induction depth generalizing level parent with
  | zero =>
    cases more with
    | zero => rfl
    | succ more =>
      rw [Nat.zero_add, build_succ, below_eq_nil hdistinct hlevel (by omega)]
      rfl
  | succ depth ih =>
    rw [Nat.add_right_comm, build_succ, build_succ]
    refine mapM_congr fun row hrow => ?_
    have hlower := atLevel_lower hdistinct (hlevel row hrow) (mem_of_mem_below hdistinct hrow)
    rw [node, node, ih hlower (by omega)]

private theorem atLevel_roots (hdistinct : (rows.map (·.id)).Nodup) :
    ∀ root ∈ below rows none, AtLevel rows 0 root := fun _ hroot =>
  .root ((siblings_below hdistinct none).mem_iff.1 hroot).2

/-- The walk from the roots comes to an end. -/
theorem exists_walk (hdistinct : (rows.map (·.id)).Nodup) :
    ∃ roots order, Siblings rows none roots ∧ DepthFirst rows roots order ∧
      errorOf? (build rows rows.length none) = order.findSome? missingValue? := by
  obtain ⟨order, horder, herrors⟩ :=
    exists_depthFirst hdistinct (atLevel_roots hdistinct) (Nat.zero_add _).ge
  exact ⟨_, order, siblings_below hdistinct none, horder, herrors⟩

/-- Building refuses the first leaf without a value that the walk from the roots meets. -/
theorem DepthFirst.errorOf?_build (hdistinct : (rows.map (·.id)).Nodup)
    (hroots : Siblings rows none siblings) (h : DepthFirst rows siblings order) :
    errorOf? (build rows rows.length none) = order.findSome? missingValue? := by
  obtain ⟨roots, walked, hroots', hwalked, herrors⟩ := exists_walk hdistinct
  obtain rfl := hroots.eq hroots'
  rw [h.unique hwalked, herrors]

end Walk

section Climb

/-- All ids but the last are those of rows. -/
theorem Climbs.subset {ids : List Nat} {last : Nat} (h : Climbs rows (ids ++ [last])) :
    ids ⊆ rows.map (·.id) := by
  induction ids with
  | nil => exact List.nil_subset _
  | cons id ids ih =>
    rw [Climbs, List.cons_append, List.isChain_cons] at h
    obtain ⟨hnext, hrest⟩ := h
    obtain ⟨above, habove⟩ : ∃ above, above ∈ (ids ++ [last]).head? := by
      cases ids <;> simp
    obtain ⟨row, hmem, rfl, -⟩ := hnext above habove
    exact List.cons_subset.2 ⟨List.mem_map_of_mem hmem, ih hrest⟩

/-- Distinct ids of rows are no more than there are rows. -/
theorem length_le_of_nodup {ids : List Nat} (hnodup : ids.Nodup) (hids : ids ⊆ rows.map (·.id)) :
    ids.length ≤ rows.length := by
  have h := (hnodup.subperm hids).length_le
  rwa [List.length_map] at h

/-- From a row without a root the way up comes back to an id that it has passed: there are no more
ids to pass than rows. -/
theorem exists_climbs (hattached : ∀ row ∈ rows, Attached rows row) (chain : List Nat)
    (hmem : row ∈ rows) (hstray : ¬∃ level, AtLevel rows level row)
    (hchain : chain ⊆ rows.map (·.id)) (hnodup : (chain ++ [row.id]).Nodup) :
    ∃ ahead close, Climbs rows (row.id :: (ahead ++ [close])) ∧
      (chain ++ row.id :: ahead).Nodup ∧ close ∈ chain ++ row.id :: ahead := by
  -- the rows that are still to be passed become fewer
  obtain ⟨left, hleft⟩ : ∃ left, rows.length ≤ chain.length + left := ⟨_, Nat.le_add_left ..⟩
  induction left generalizing chain row with
  | zero =>
    have hids : chain ++ [row.id] ⊆ rows.map (·.id) :=
      List.append_subset.2 ⟨hchain, by simpa using ⟨row, hmem, rfl⟩⟩
    have hlength := length_le_of_nodup hnodup hids
    rw [List.length_append, List.length_singleton] at hlength
    omega
  | succ left ih =>
    cases hparent : row.parent with
    | none => exact absurd ⟨0, .root hparent⟩ hstray
    | some id =>
      obtain ⟨above, habove, rfl, -⟩ := hattached row hmem id hparent
      have hstep : ∃ passed ∈ rows, passed.id = row.id ∧ passed.parent = some above.id :=
        ⟨row, hmem, rfl, hparent⟩
      by_cases hagain : above.id ∈ chain ++ [row.id]
      · exact ⟨[], above.id, List.isChain_pair.2 hstep, hnodup, hagain⟩
      · have habovestray : ¬∃ level, AtLevel rows level above :=
          fun ⟨level, h⟩ => hstray ⟨level + 1, .step hparent habove h⟩
        have hpassed : chain ++ [row.id] ⊆ rows.map (·.id) :=
          List.append_subset.2 ⟨hchain, by simpa using ⟨row, hmem, rfl⟩⟩
        have hnew : (chain ++ [row.id] ++ [above.id]).Nodup :=
          List.nodup_append_comm.1 (List.nodup_cons.2 ⟨hagain, hnodup⟩)
        obtain ⟨ahead, close, hclimbs, hnodup', hclose⟩ := ih _ habove habovestray hpassed
          hnew (by rw [List.length_append, List.length_singleton]; omega)
        rw [List.append_assoc, List.singleton_append] at hnodup' hclose
        exact ⟨above.id :: ahead, close, List.isChain_cons_cons.2 ⟨hstep, hclimbs⟩, hnodup', hclose⟩

private theorem Climbs.parent_eq (hdistinct : (rows.map (·.id)).Nodup) {next : Nat} {ids : List Nat}
    (h : Climbs rows (row.id :: next :: ids)) (hmem : row ∈ rows) : row.parent = some next := by
  obtain ⟨passed, hpassed, hid, hparent⟩ := (List.isChain_cons_cons.1 h).1
  rwa [List.inj_on_of_nodup_map hdistinct hpassed hmem hid] at hparent

/-- Climbing finds the loop: what was passed from the id on that comes again. -/
theorem parentLoop_of_climbs (hdistinct : (rows.map (·.id)).Nodup)
    (hattached : ∀ row ∈ rows, Attached rows row) (chain : List Nat) {ahead : List Nat}
    {close steps : Nat}
    (hmem : row ∈ rows) (hclimbs : Climbs rows (row.id :: (ahead ++ [close])))
    (hnodup : (chain ++ row.id :: ahead).Nodup) (hclose : close ∈ chain ++ row.id :: ahead)
    (hsteps : ahead.length + 2 ≤ steps) :
    parentLoop rows steps chain row =
      (chain ++ row.id :: ahead).dropWhile (· != close) ++ [close] := by
  have hnew {chain ahead : List Nat} {row : ConditionRow}
      (hnodup : (chain ++ row.id :: ahead).Nodup) : row.id ∉ chain :=
    fun hmem => (List.nodup_append.1 hnodup).2.2 _ hmem _ List.mem_cons_self rfl
  induction ahead generalizing chain row steps with
  | nil =>
    have hparent := hclimbs.parent_eq hdistinct hmem
    obtain ⟨above, habove, rfl, -⟩ := hattached row hmem _ hparent
    obtain ⟨steps, rfl⟩ : ∃ less, steps = less + 2 := ⟨steps - 2, by simp at hsteps; omega⟩
    rw [parentLoop, if_neg (hnew hnodup), hparent, Option.bind_some,
      (find?_eq_some_iff hdistinct).2 ⟨habove, rfl⟩]
    dsimp only
    rw [parentLoop, if_pos hclose]
  | cons next ahead ih =>
    have hparent := hclimbs.parent_eq hdistinct hmem
    obtain ⟨above, habove, rfl, -⟩ := hattached row hmem _ hparent
    rw [List.length_cons] at hsteps
    obtain ⟨steps, rfl⟩ : ∃ less, steps = less + 1 := ⟨steps - 1, by omega⟩
    rw [parentLoop, if_neg (hnew hnodup), hparent, Option.bind_some,
      (find?_eq_some_iff hdistinct).2 ⟨habove, rfl⟩]
    dsimp only
    rw [List.append_cons chain row.id (above.id :: ahead)] at hnodup hclose ⊢
    have hless : ahead.length + 2 ≤ steps := by omega
    exact ih _ habove (List.isChain_cons_cons.1 hclimbs).2 hnodup hclose hless

private theorem LeadsInto.parentLoop_eq (hdistinct : (rows.map (·.id)).Nodup)
    (hattached : ∀ row ∈ rows, Attached rows row) (hmem : row ∈ rows) {path : List Nat}
    (h : LeadsInto rows row path) : parentLoop rows (rows.length + 1) [] row = path := by
  obtain @⟨approach, between, close, hstart, hclimbs, hnodup⟩ := h
  rw [← List.cons_append, ← List.append_assoc] at hclimbs
  have hlength := length_le_of_nodup hnodup hclimbs.subset
  obtain ⟨ahead, hids⟩ := List.head?_eq_some_iff.1 hstart
  have hfirst : ∀ id ∈ approach, (id != close) = true := by
    intro id hid
    exact bne_iff_ne.2 ((List.nodup_append.1 hnodup).2.2 id hid close List.mem_cons_self)
  have hloop : (row.id :: ahead).dropWhile (· != close) = close :: between := by
    rw [← hids, List.dropWhile_append_of_pos hfirst]
    simp
  have hclose : close ∈ row.id :: ahead := by
    rw [← hids]
    exact List.mem_append_right _ List.mem_cons_self
  rw [hids] at hclimbs hnodup hlength
  rw [parentLoop_of_climbs hdistinct hattached [] hmem hclimbs hnodup hclose
    (by simpa using hlength), List.nil_append, hloop, List.cons_append]

/-- With more steps the climb goes no further. -/
theorem parentLoop_add {chain : List Nat} {steps : Nat} (hmem : row ∈ rows)
    (hchain : chain ⊆ rows.map (·.id)) (hnodup : chain.Nodup)
    (hsteps : rows.length < chain.length + steps) (more : Nat) :
    parentLoop rows (steps + more) chain row = parentLoop rows steps chain row := by
  induction steps generalizing chain row with
  | zero =>
    have := length_le_of_nodup hnodup hchain
    omega
  | succ steps ih =>
    rw [Nat.add_right_comm, parentLoop, parentLoop]
    split
    · rfl
    rename_i hnew
    cases habove : row.parent.bind (find? rows) with
    | none => rfl
    | some above =>
      obtain ⟨id, -, hfound⟩ := Option.bind_eq_some_iff.1 habove
      have hpassed : chain ++ [row.id] ⊆ rows.map (·.id) :=
        List.append_subset.2 ⟨hchain, by simpa using ⟨row, hmem, rfl⟩⟩
      have hnext : (chain ++ [row.id]).Nodup :=
        List.nodup_append_comm.1 (List.nodup_cons.2 ⟨hnew, hnodup⟩)
      exact ih (List.mem_of_find?_eq_some hfound) hpassed hnext
        (by rw [List.length_append, List.length_singleton]; omega)

/-- From a row without a root the way up leads into a loop. -/
theorem exists_leadsInto (hattached : ∀ row ∈ rows, Attached rows row) (hmem : row ∈ rows)
    (hstray : ¬∃ level, AtLevel rows level row) : ∃ path, LeadsInto rows row path := by
  obtain ⟨ahead, close, hclimbs, hnodup, hclose⟩ := exists_climbs hattached [] hmem hstray
    (List.nil_subset _) (List.nodup_singleton _)
  rw [List.nil_append] at hnodup hclose
  obtain ⟨approach, between, hids⟩ := List.append_of_mem hclose
  rw [← List.cons_append, hids, List.append_assoc, List.cons_append] at hclimbs
  rw [hids] at hnodup
  exact ⟨_, .mk (by rw [← hids]; rfl) hclimbs hnodup⟩

end Climb

section Checks

/-- The first row that a check does not pass, and what comes before it. -/
theorem find?_not_eq_some_iff {check : ConditionRow → Bool} {passes : ConditionRow → Prop}
    (hcheck : ∀ other ∈ rows, check other = true ↔ passes other) :
    rows.find? (!check ·) = some row ↔ ∃ earlier later, rows = earlier ++ row :: later ∧
      (∀ other ∈ earlier, passes other) ∧ ¬passes row := by
  simp only [List.find?_eq_some_iff_append, Bool.not_not, Bool.not_eq_true']
  constructor
  · rintro ⟨hrow, earlier, later, rfl, hearlier⟩
    refine ⟨earlier, later, rfl, fun other hmem => ?_, fun hpasses => ?_⟩
    · exact (hcheck other (by simp [hmem])).1 (hearlier other hmem)
    · rw [(hcheck row (by simp)).2 hpasses] at hrow
      cases hrow
  · rintro ⟨earlier, later, rfl, hearlier, hrow⟩
    refine ⟨Bool.eq_false_iff.2 fun hpasses => hrow ((hcheck row (by simp)).1 hpasses), earlier,
      later, rfl, fun other hmem => (hcheck other (by simp [hmem])).2 (hearlier other hmem)⟩

private theorem find?_not_eq_none_iff {check : ConditionRow → Bool} {passes : ConditionRow → Prop}
    (hcheck : ∀ other ∈ rows, check other = true ↔ passes other) :
    rows.find? (!check ·) = none ↔ ∀ other ∈ rows, passes other := by
  rw [List.find?_eq_none]
  refine forall₂_congr fun other hmem => ?_
  rw [← hcheck other hmem]
  simp

/-- The checks of rebuilding in their order. -/
theorem errorOf?_ofRows (rows : List ConditionRow) :
    errorOf? (Condition.ofRows rows) = ((repeatedId? [] rows).map .duplicateId).or
      (((rows.find? (!isAttached rows ·)).map (.orphaned ·.id)).or
        ((errorOf? (build rows rows.length none)).or
          ((rows.find? (!isRooted rows rows.length ·)).map fun row =>
            .cyclic (parentLoop rows (rows.length + 1) [] row)))) := by
  unfold Condition.ofRows
  cases repeatedId? [] rows with
  | some repeated => rfl
  | none =>
    cases rows.find? (!isAttached rows ·) with
    | some stray => rfl
    | none =>
      cases build rows rows.length none with
      | error cause => rfl
      | ok forest => cases rows.find? (!isRooted rows rows.length ·) <;> rfl

/-- Rows are refused by the first check that they do not pass. -/
theorem ofRows_eq_error_iff_checks {cause : RuleError} :
    Condition.ofRows rows = .error cause ↔
      (∃ id, repeatedId? [] rows = some id ∧ .duplicateId id = cause) ∨
        (rows.map (·.id)).Nodup ∧
          ((∃ row, rows.find? (!isAttached rows ·) = some row ∧ .orphaned row.id = cause) ∨
            rows.find? (!isAttached rows ·) = none ∧
              (errorOf? (build rows rows.length none) = some cause ∨
                errorOf? (build rows rows.length none) = none ∧
                  ∃ row, rows.find? (!isRooted rows rows.length ·) = some row ∧
                    .cyclic (parentLoop rows (rows.length + 1) [] row) = cause)) := by
  have hids : repeatedId? [] rows = none ↔ (rows.map (·.id)).Nodup := by
    simp [repeatedId?_eq_none_iff]
  rw [← errorOf?_eq_some_iff, errorOf?_ofRows]
  simp only [Option.or_eq_some_iff, Option.map_eq_some_iff, Option.map_eq_none_iff, hids]

/-- What the walk from the roots refuses, or what it leaves unmet, is the fault of attached rows
with distinct ids. -/
theorem fault_of_walk (hdistinct : (rows.map (·.id)).Nodup)
    (hattached : ∀ row ∈ rows, Attached rows row) {cause : RuleError}
    (h : errorOf? (build rows rows.length none) = some cause ∨
      errorOf? (build rows rows.length none) = none ∧
        ∃ row, rows.find? (!isRooted rows rows.length ·) = some row ∧
          .cyclic (parentLoop rows (rows.length + 1) [] row) = cause) : Fault rows cause := by
  obtain ⟨roots, order, hroots, horder, herrors⟩ := exists_walk hdistinct
  rw [herrors] at h
  rcases h with hmissing | ⟨hmissing, row, hstray, rfl⟩
  · obtain ⟨earlier, row, later, rfl, hrow, hearlier⟩ := List.findSome?_eq_some_iff.1 hmissing
    obtain ⟨hunvalued, rfl⟩ := missingValue?_eq_some_iff.1 hrow
    exact .unvalued hdistinct hattached hroots horder
      (fun other hmem => missingValue?_eq_none_iff.1 (hearlier other hmem)) hunvalued
  · have hvalued : ∀ other ∈ order, Valued other := fun other hmem =>
      missingValue?_eq_none_iff.1 (List.findSome?_eq_none_iff.1 hmissing other hmem)
    obtain ⟨earlier, later, hrows, hearlier, hrow⟩ :=
      (find?_not_eq_some_iff fun _ => isRooted_length_iff hdistinct).1 hstray
    have hmem : row ∈ rows := by rw [hrows]; simp
    obtain ⟨path, hpath⟩ := exists_leadsInto hattached hmem hrow
    rw [hpath.parentLoop_eq hdistinct hattached hmem]
    exact .cyclic hdistinct hattached hroots horder hvalued hrows hearlier hrow hpath

/-- Rows are refused for a fault that counts. -/
theorem fault_of_ofRows_eq_error {cause : RuleError} (h : Condition.ofRows rows = .error cause) :
    Fault rows cause := by
  rcases ofRows_eq_error_iff_checks.1 h with
    ⟨id, hrepeated, rfl⟩ | ⟨hdistinct, ⟨row, horphaned, rfl⟩ | ⟨hnone, hwalk⟩⟩
  · obtain ⟨row, earlier, later, hrows, rfl, hearlier, -, hmem⟩ :=
      repeatedId?_eq_some_iff.1 hrepeated
    exact .repeated hrows hearlier (by simpa using hmem)
  · obtain ⟨earlier, later, hrows, hearlier, hrow⟩ :=
      (find?_not_eq_some_iff fun _ _ => isAttached_iff hdistinct).1 horphaned
    exact .orphaned hdistinct hrows hearlier hrow
  · have hattached := (find?_not_eq_none_iff fun _ _ => isAttached_iff hdistinct).1 hnone
    exact fault_of_walk hdistinct hattached hwalk

/-- The fault that counts is the one for which rows are refused. -/
theorem Fault.ofRows_eq_error {cause : RuleError} (h : Fault rows cause) :
    Condition.ofRows rows = .error cause := by
  refine ofRows_eq_error_iff_checks.2 ?_
  cases h with
  | @repeated row earlier later hrows hearlier hrepeated =>
    have hfirst := repeatedId?_eq_some_iff.2
      ⟨row, earlier, later, hrows, rfl, hearlier, fun _ _ => List.not_mem_nil, .inl hrepeated⟩
    exact .inl ⟨_, hfirst, rfl⟩
  | @orphaned row earlier later hdistinct hrows hearlier horphaned =>
    have hfirst := (find?_not_eq_some_iff fun _ _ => isAttached_iff hdistinct).2
      ⟨earlier, later, hrows, hearlier, horphaned⟩
    exact .inr ⟨hdistinct, .inl ⟨row, hfirst, rfl⟩⟩
  | @unvalued row roots earlier later hdistinct hattached hroots horder hearlier hunvalued =>
    have hnone := (find?_not_eq_none_iff fun _ _ => isAttached_iff hdistinct).2 hattached
    have hfirst : (earlier ++ row :: later).findSome? missingValue? =
        some (.invalidConditionValue row.typeKey "null" "a value is required") :=
      List.findSome?_eq_some_iff.2 ⟨earlier, row, later, rfl,
        missingValue?_eq_some_iff.2 ⟨hunvalued, rfl⟩,
        fun other hmem => missingValue?_eq_none_iff.2 (hearlier other hmem)⟩
    have hrefused := (horder.errorOf?_build hdistinct hroots).trans hfirst
    exact .inr ⟨hdistinct, .inr ⟨hnone, .inl hrefused⟩⟩
  | @cyclic row roots order earlier later path hdistinct hattached hroots horder hvalued hrows
      hearlier hstray hpath =>
    have hnone := (find?_not_eq_none_iff fun _ _ => isAttached_iff hdistinct).2 hattached
    have hmissing : order.findSome? missingValue? = none :=
      List.findSome?_eq_none_iff.2 fun other hmem =>
        missingValue?_eq_none_iff.2 (hvalued other hmem)
    have hbuilt := (horder.errorOf?_build hdistinct hroots).trans hmissing
    have hfirst := (find?_not_eq_some_iff fun _ => isRooted_length_iff hdistinct).2
      ⟨earlier, later, hrows, hearlier, hstray⟩
    have hmem : row ∈ rows := by rw [hrows]; simp
    exact .inr ⟨hdistinct, .inr ⟨hnone, .inr ⟨hbuilt, row, hfirst,
      by rw [hpath.parentLoop_eq hdistinct hattached hmem]⟩⟩⟩

end Checks

end Bookkeeping.ConditionRow

namespace Bookkeeping.Condition

open ConditionRow

/-- Rows are refused exactly for the fault that counts. The walks that find it come to an end: the
one down from the roots once ids are distinct, at a depth of no more than the number of rows, and
the one up from any row after no more steps than that and one. -/
theorem ofRows_refuses_faults (rows : List ConditionRow) :
    (∀ cause, ofRows rows = .error cause ↔ Fault rows cause) ∧
      ((rows.map (·.id)).Nodup →
        (∃ roots order, Siblings rows none roots ∧ DepthFirst rows roots order) ∧
          ∀ more, build rows (rows.length + more) none = build rows rows.length none) ∧
        ∀ row ∈ rows, ∀ more, parentLoop rows (rows.length + 1 + more) [] row =
          parentLoop rows (rows.length + 1) [] row := by
  refine ⟨fun cause => ⟨fault_of_ofRows_eq_error, Fault.ofRows_eq_error⟩,
    fun hdistinct => ⟨?_, fun more => ?_⟩, fun row hmem more => ?_⟩
  · obtain ⟨roots, order, hroots, horder, -⟩ := exists_walk hdistinct
    exact ⟨roots, order, hroots, horder⟩
  · exact build_add hdistinct (atLevel_roots hdistinct) (Nat.zero_add _).ge more
  · exact parentLoop_add hmem (List.nil_subset _) List.nodup_nil (by simp) more

/-- A leaf without a value that hangs on a loop is not met from the roots: the loop is told, as the
way up from this leaf finds it. -/
theorem ofRows_refuses_faults_hanging :
    let hanging : ConditionRow := ⟨6, some 4, 0, "transaction_name", "=", none⟩
    let rows : List ConditionRow :=
      [⟨1, none, 0, "compound", "and", none⟩, hanging, ⟨4, some 5, 0, "compound", "or", none⟩,
        ⟨5, some 4, 1, "compound", "or", none⟩]
    (rows.map (·.id)).Nodup ∧ hanging ∈ rows ∧ Fault rows (.cyclic [4, 5, 4]) ∧
      (∀ more, build rows (rows.length + more) none = build rows rows.length none) ∧
        ∀ more, parentLoop rows (rows.length + 1 + more) [] hanging = [4, 5, 4] := by
  intro hanging rows
  have hdistinct : (rows.map (·.id)).Nodup := by decide
  have hmem : hanging ∈ rows := by decide
  have hcyclic : ofRows rows = .error (.cyclic [4, 5, 4]) :=
    errorOf?_eq_some_iff.1 (by decide +kernel)
  obtain ⟨hfaults, hdown, hup⟩ := ofRows_refuses_faults rows
  exact ⟨hdistinct, hmem, (hfaults _).1 hcyclic, (hdown hdistinct).2,
    fun more => (hup _ hmem more).trans (by decide +kernel)⟩

end Bookkeeping.Condition
