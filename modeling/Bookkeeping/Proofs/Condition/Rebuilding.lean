import Bookkeeping.Proofs.Condition.Rows

/-!
# Rebuilding a forest

Rebuilding succeeds for the rows that stand for a forest, and gives it. These are the rows with
distinct ids, each a root or below a row that holds children, from which a root can be reached, and
with a value in every leaf.
-/

namespace Bookkeeping.ConditionRow

open Condition (ofRows)

/-- The row is a root or below a row that holds children. -/
def Attached (rows : List ConditionRow) (row : ConditionRow) : Prop :=
  ∀ id, row.parent = some id → ∃ above ∈ rows, above.id = id ∧ above.typeKey = compoundKey

/-- Rows without a fault. -/
structure Sound (rows : List ConditionRow) : Prop where
  distinct : (rows.map (·.id)).Nodup
  attached : ∀ row ∈ rows, Attached rows row
  rooted : ∀ row ∈ rows, ∃ level, AtLevel rows level row
  valued : ∀ row ∈ rows, row.typeKey ≠ compoundKey → ∃ value, row.value = some value

variable {rows siblings roots order : List ConditionRow} {forest : List Condition}
  {row : ConditionRow} {parent : Option Nat}

section Checks

/-- No id repeats one that was seen before. -/
theorem repeatedId?_eq_none_iff {seen : List Nat} :
    repeatedId? seen rows = none ↔ (rows.map (·.id)).Nodup ∧ ∀ row ∈ rows, row.id ∉ seen := by
  induction rows generalizing seen with
  | nil => simp [repeatedId?]
  | cons row rows ih =>
    rw [repeatedId?, List.map_cons, List.nodup_cons, List.forall_mem_cons]
    by_cases hseen : row.id ∈ seen
    · simp [hseen]
    · simp only [hseen, if_false, ih, List.mem_cons, not_or, not_false_eq_true, true_and,
        List.mem_map, not_exists, not_and]
      constructor
      · rintro ⟨hnodup, hrows⟩
        exact ⟨⟨fun other hother h => (hrows other hother).1 h, hnodup⟩,
          fun other hother => (hrows other hother).2⟩
      · rintro ⟨⟨hrow, hnodup⟩, hrows⟩
        exact ⟨hnodup, fun other hother => ⟨hrow other hother, hrows other hother⟩⟩

/-- Where ids differ, attached rows are told by the lookup. -/
theorem isAttached_iff (hdistinct : (rows.map (·.id)).Nodup) :
    isAttached rows row = true ↔ Attached rows row := by
  unfold isAttached Attached
  cases hparent : row.parent with
  | none => simp
  | some parent =>
    simp only [Option.any_eq_true, find?_eq_some_iff hdistinct, Option.some.injEq, forall_eq',
      isCompound, beq_iff_eq, and_assoc]

/-- A leaf is made of a row with a value. -/
theorem toLeaf_eq_ok_iff {condition : Condition} :
    row.toLeaf = .ok condition ↔
      ∃ value, row.value = some value ∧ .leaf row.typeKey row.operator value = condition := by
  unfold toLeaf
  cases row.value <;> simp

end Checks

section Build

/-- The condition of a row, with what is below it to a depth. -/
def node (rows : List ConditionRow) (depth : Nat) (row : ConditionRow) :
    Except RuleError Condition :=
  if row.isCompound then
    (build rows depth (some row.id)).map (.compound row.operator)
  else
    row.toLeaf

/-- The conditions below a parent are those of the rows below it. -/
theorem build_succ (rows : List ConditionRow) (depth : Nat) (parent : Option Nat) :
    build rows (depth + 1) parent = (below rows parent).mapM (node rows depth) :=
  rfl

private theorem node_eq_ok_iff {depth : Nat} {condition : Condition} :
    node rows depth row = .ok condition ↔
      (row.typeKey ≠ compoundKey ∧ ∃ value, row.value = some value ∧
        .leaf row.typeKey row.operator value = condition) ∨
      (row.typeKey = compoundKey ∧ ∃ children, build rows depth (some row.id) = .ok children ∧
        .compound row.operator children = condition) := by
  unfold node isCompound
  by_cases hkey : row.typeKey = compoundKey
  · cases build rows depth (some row.id) <;> simp [hkey, Except.map]
  · simp [hkey, toLeaf_eq_ok_iff]

/-- To the depth of its nodes, a forest is built if its siblings are. -/
theorem build_of_mapM_node (hdistinct : (rows.map (·.id)).Nodup)
    (hsiblings : Siblings rows parent siblings) (hmirrors : Mirrors rows siblings forest order)
    {depth : Nat} (hdepth : order.length ≤ depth)
    (hnodes : ∀ {less : Nat}, order.length ≤ less + 1 →
      siblings.mapM (node rows less) = .ok forest) :
    build rows depth parent = .ok forest := by
  cases depth with
  | zero =>
    cases hmirrors with
    | nil => rfl
    | leaf => simp at hdepth
    | compound => simp at hdepth
  | succ depth => rw [build_succ, (siblings_below hdistinct parent).eq hsiblings, hnodes hdepth]

private theorem Mirrors.mapM_node (hdistinct : (rows.map (·.id)).Nodup)
    (h : Mirrors rows siblings forest order) :
    ∀ {depth : Nat}, order.length ≤ depth + 1 → siblings.mapM (node rows depth) = .ok forest := by
  induction h with
  | nil =>
    intro depth _
    rfl
  | @leaf row value siblings order forest hkey hvalue hrest ih =>
    intro depth hdepth
    rw [List.length_cons] at hdepth
    exact mapM_cons_eq_ok_iff.2 ⟨_, _, node_eq_ok_iff.2 (.inl ⟨hkey, value, hvalue, rfl⟩),
      ih (by omega), rfl⟩
  | @compound row below siblings inner order children forest hkey hbelow hchildren hrest
      ihchildren ihrest =>
    intro depth hdepth
    rw [List.length_cons, List.length_append] at hdepth
    have hbuild : build rows depth (some row.id) = .ok children :=
      build_of_mapM_node hdistinct hbelow hchildren (by omega) ihchildren
    exact mapM_cons_eq_ok_iff.2 ⟨_, _, node_eq_ok_iff.2 (.inr ⟨hkey, children, hbuild, rfl⟩),
      ihrest (by omega), rfl⟩

/-- What rows stand for is built from them. -/
theorem Mirrors.build (hdistinct : (rows.map (·.id)).Nodup) (hroots : Siblings rows none roots)
    (hmirrors : Mirrors rows roots forest order) (hlength : order.length = rows.length) :
    build rows rows.length none = .ok forest :=
  build_of_mapM_node hdistinct hroots hmirrors hlength.le (hmirrors.mapM_node hdistinct)

/-- The rows below a parent are among all rows. -/
theorem mem_of_mem_below (hdistinct : (rows.map (·.id)).Nodup) (h : row ∈ below rows parent) :
    row ∈ rows :=
  ((siblings_below hdistinct parent).mem_iff.1 h).1

/-- What is below a row is one level lower. -/
theorem atLevel_lower (hdistinct : (rows.map (·.id)).Nodup) {level : Nat}
    (h : AtLevel rows level row) (hmem : row ∈ rows) :
    ∀ lower ∈ below rows (some row.id), AtLevel rows (level + 1) lower := fun _ hlower =>
  .step ((siblings_below hdistinct (some row.id)).mem_iff.1 hlower).2 hmem h

/-- There are no more levels than rows. -/
theorem below_eq_nil (hdistinct : (rows.map (·.id)).Nodup) {level : Nat}
    (hlevel : ∀ row ∈ below rows parent, AtLevel rows level row) (h : rows.length ≤ level) :
    below rows parent = [] := by
  refine List.eq_nil_iff_forall_not_mem.2 fun row hrow => ?_
  have := (hlevel row hrow).lt_length hdistinct (mem_of_mem_below hdistinct hrow)
  omega

/-- What is built from rows stands for them, when the depth suffices: no row is so far from a root
that it is left out. -/
theorem exists_mirrors_of_build (hdistinct : (rows.map (·.id)).Nodup) {depth level : Nat}
    (hlevel : ∀ row ∈ below rows parent, AtLevel rows level row)
    (hdepth : rows.length ≤ level + depth) (h : build rows depth parent = .ok forest) :
    ∃ order, Mirrors rows (below rows parent) forest order := by
  induction depth generalizing level parent forest with
  | zero =>
    obtain rfl : [] = forest := Except.ok.inj h
    rw [below_eq_nil hdistinct hlevel (by omega)]
    exact ⟨[], .nil⟩
  | succ depth ih =>
    rw [build_succ] at h
    have hrows : ∀ row ∈ below rows parent, row ∈ rows := fun _ => mem_of_mem_below hdistinct
    -- the siblings are taken one by one, each at the level of them all
    generalize below rows parent = siblings at h hlevel hrows
    induction siblings generalizing forest with
    | nil =>
      obtain rfl : [] = forest := Except.ok.inj h
      exact ⟨[], .nil⟩
    | cons row siblings ihsiblings =>
      obtain ⟨hrow, hsiblings⟩ := List.forall_mem_cons.1 hlevel
      obtain ⟨hmem, hrest⟩ := List.forall_mem_cons.1 hrows
      obtain ⟨condition, others, hnode, hothers, rfl⟩ := mapM_cons_eq_ok_iff.1 h
      obtain ⟨order, horder⟩ := ihsiblings hothers hsiblings hrest
      rcases node_eq_ok_iff.1 hnode with ⟨hkey, value, hvalue, rfl⟩ | ⟨hkey, children, hbuild, rfl⟩
      · exact ⟨row :: order, .leaf hkey hvalue horder⟩
      · obtain ⟨inner, hinner⟩ := ih (atLevel_lower hdistinct hrow hmem) (by omega) hbuild
        exact ⟨row :: (inner ++ order),
          .compound hkey (siblings_below hdistinct (some row.id)) hinner horder⟩

/-- With a value in every leaf, something is built. -/
theorem exists_build_eq_ok (hdistinct : (rows.map (·.id)).Nodup)
    (hvalued : ∀ row ∈ rows, row.typeKey ≠ compoundKey → ∃ value, row.value = some value)
    (depth : Nat) (parent : Option Nat) : ∃ forest, build rows depth parent = .ok forest := by
  induction depth generalizing parent with
  | zero => exact ⟨[], rfl⟩
  | succ depth ih =>
    have hrows : ∀ row ∈ below rows parent, row ∈ rows := fun _ => mem_of_mem_below hdistinct
    rw [build_succ]
    generalize below rows parent = siblings at hrows
    induction siblings with
    | nil => exact ⟨[], rfl⟩
    | cons row siblings ihsiblings =>
      obtain ⟨hmem, hrest⟩ := List.forall_mem_cons.1 hrows
      obtain ⟨others, hothers⟩ := ihsiblings hrest
      have hnode : ∃ condition, node rows depth row = .ok condition := by
        by_cases hkey : row.typeKey = compoundKey
        · obtain ⟨children, hchildren⟩ := ih (some row.id)
          exact ⟨_, node_eq_ok_iff.2 (.inr ⟨hkey, children, hchildren, rfl⟩)⟩
        · obtain ⟨value, hvalue⟩ := hvalued row hmem hkey
          exact ⟨_, node_eq_ok_iff.2 (.inl ⟨hkey, value, hvalue, rfl⟩)⟩
      obtain ⟨condition, hcondition⟩ := hnode
      exact ⟨_, mapM_cons_eq_ok_iff.2 ⟨condition, others, hcondition, hothers, rfl⟩⟩

end Build

section Order

/-- From the roots each row below a root is met once, where every row is attached. -/
theorem DepthFirst.count_eq_one (hdistinct : (rows.map (·.id)).Nodup)
    (hattached : ∀ row ∈ rows, Attached rows row) (hroots : Siblings rows none roots)
    (h : DepthFirst rows roots order) {level : Nat} (hlevel : AtLevel rows level row)
    (hmem : row ∈ rows) : order.count row = 1 := by
  have hsubset : order ⊆ rows := h.order_subset fun row hmem => (hroots.mem_iff.1 hmem).1
  induction hlevel with
  | root hparent =>
    rw [h.count_order hdistinct hmem, hroots.count hdistinct hmem]
    simp [hparent]
  | @step row above level hparent habove hlevel ih =>
    obtain ⟨holder, hholder, hid, hkey⟩ := hattached row hmem _ hparent
    obtain rfl := List.inj_on_of_nodup_map hdistinct hholder habove hid
    have hcount : (order.countP fun other =>
        row.parent = some other.id ∧ other.typeKey = compoundKey) = order.count holder := by
      refine List.countP_congr fun other hother => ?_
      simp only [hparent, Option.some.injEq, decide_eq_true_eq, beq_iff_eq]
      constructor
      · rintro ⟨hsame, -⟩
        exact List.inj_on_of_nodup_map hdistinct (hsubset hother) hholder hsame.symm
      · rintro rfl
        exact ⟨rfl, hkey⟩
    rw [h.count_order hdistinct hmem, hcount, ih habove, hroots.count hdistinct hmem,
      if_neg (by simp [hparent])]

/-- The rows met from the roots are exactly those that are rooted, each once: so a row that is not
met is one from which no root is reached. -/
theorem DepthFirst.perm_filter_isRooted (hdistinct : (rows.map (·.id)).Nodup)
    (hattached : ∀ row ∈ rows, Attached rows row) (hroots : Siblings rows none roots)
    (h : DepthFirst rows roots order) : order.Perm (rows.filter (isRooted rows rows.length)) := by
  have hmet : ∀ row ∈ order, row ∈ rows.filter (isRooted rows rows.length) := fun row hmem => by
    have hrow := h.order_subset (fun root hroot => (hroots.mem_iff.1 hroot).1) hmem
    exact List.mem_filter.2
      ⟨hrow, (isRooted_length_iff hdistinct hrow).2 (h.exists_level_of_roots hroots hmem)⟩
  refine List.perm_iff_count.2 fun row => ?_
  by_cases hmem : row ∈ rows.filter (isRooted rows rows.length)
  · obtain ⟨hrow, hrooted⟩ := List.mem_filter.1 hmem
    obtain ⟨level, hlevel⟩ := (isRooted_length_iff hdistinct hrow).1 hrooted
    have hnodup : (rows.filter (isRooted rows rows.length)).Nodup :=
      (List.Nodup.of_map _ hdistinct).filter _
    rw [h.count_eq_one hdistinct hattached hroots hlevel hrow, List.count_eq_one_of_mem hnodup hmem]
  · rw [List.count_eq_zero_of_not_mem hmem, List.count_eq_zero_of_not_mem (mt (hmet row) hmem)]

/-- Where every row is rooted, each occurs once in the order of the nodes. -/
theorem Mirrors.perm (hdistinct : (rows.map (·.id)).Nodup)
    (hattached : ∀ row ∈ rows, Attached rows row)
    (hrooted : ∀ row ∈ rows, isRooted rows rows.length row = true)
    (hroots : Siblings rows none roots) (hmirrors : Mirrors rows roots forest order) :
    order.Perm rows := by
  have hperm := hmirrors.depthFirst.perm_filter_isRooted hdistinct hattached hroots
  rwa [List.filter_eq_self.2 hrooted] at hperm

/-- Listed leaves have values. -/
theorem Mirrors.valued (h : Mirrors rows siblings forest order) (hmem : row ∈ order)
    (hleaf : row.typeKey ≠ compoundKey) : ∃ value, row.value = some value := by
  induction h with
  | nil => cases hmem
  | leaf hkey hvalue hrest ih =>
    rcases List.mem_cons.1 hmem with rfl | hmem
    · exact ⟨_, hvalue⟩
    · exact ih hmem
  | compound hkey hbelow hchildren hrest ihchildren ihrest =>
    rcases List.mem_cons.1 hmem with rfl | hmem
    · exact absurd hkey hleaf
    · exact (List.mem_append.1 hmem).elim ihchildren ihrest

/-- Rows that stand for a forest have no fault. -/
theorem Mirrors.sound (hdistinct : (rows.map (·.id)).Nodup) (hroots : Siblings rows none roots)
    (hmirrors : Mirrors rows roots forest order) (hperm : order.Perm rows) : Sound rows where
  distinct := hdistinct
  attached := by
    intro row hmem id hparent
    rcases hmirrors.depthFirst.mem_order (hperm.mem_iff.2 hmem) with
      hroot | ⟨above, habove, habove', hkey⟩
    · rw [(hroots.mem_iff.1 hroot).2] at hparent
      cases hparent
    · exact ⟨above, hperm.mem_iff.1 habove, Option.some.inj (habove'.symm.trans hparent), hkey⟩
  rooted := fun _ hmem =>
    hmirrors.depthFirst.exists_level_of_roots hroots (hperm.mem_iff.2 hmem)
  valued := fun _ hmem => hmirrors.valued (hperm.mem_iff.2 hmem)

end Order

/-- Rebuilding is building, with checks before and after. -/
theorem ofRows_eq_ok_iff_checks :
    ofRows rows = .ok forest ↔ repeatedId? [] rows = none ∧
      rows.find? (!isAttached rows ·) = none ∧ rows.find? (!isRooted rows rows.length ·) = none ∧
        build rows rows.length none = .ok forest := by
  unfold ofRows
  cases repeatedId? [] rows with
  | some repeated => simp
  | none =>
    cases rows.find? (!isAttached rows ·) with
    | some stray => simp
    | none =>
      cases build rows rows.length none with
      | error cause => simp
      | ok found => cases rows.find? (!isRooted rows rows.length ·) <;> simp

/-- Rebuilding gives what the rows stand for: a forest whose nodes, each before those below it, are
the rows in some order. -/
theorem ofRows_eq_ok_iff :
    ofRows rows = .ok forest ↔ (rows.map (·.id)).Nodup ∧ ∃ roots order,
      Siblings rows none roots ∧ Mirrors rows roots forest order ∧ order.Perm rows := by
  have hids : repeatedId? [] rows = none ↔ (rows.map (·.id)).Nodup := by
    simp [repeatedId?_eq_none_iff]
  rw [ofRows_eq_ok_iff_checks, hids]
  refine and_congr_right fun hdistinct => ?_
  simp only [List.find?_eq_none, Bool.not_eq_true', Bool.not_eq_false, isAttached_iff hdistinct]
  constructor
  · rintro ⟨hattached, hrooted, hbuild⟩
    have hroots := siblings_below hdistinct none
    have hlevel : ∀ root ∈ below rows none, AtLevel rows 0 root := fun root hroot =>
      .root (hroots.mem_iff.1 hroot).2
    obtain ⟨order, hmirrors⟩ := exists_mirrors_of_build hdistinct hlevel (by omega) hbuild
    exact ⟨_, order, hroots, hmirrors, hmirrors.perm hdistinct hattached hrooted hroots⟩
  · rintro ⟨roots, order, hroots, hmirrors, hperm⟩
    have hsound := hmirrors.sound hdistinct hroots hperm
    exact ⟨hsound.attached, fun row hmem =>
      (isRooted_length_iff hdistinct hmem).2 (hsound.rooted row hmem),
      hmirrors.build hdistinct hroots hperm.length_eq⟩

/-- Rows without a fault are rebuilt, and no others. -/
theorem exists_ofRows_eq_ok_iff : (∃ forest, ofRows rows = .ok forest) ↔ Sound rows := by
  constructor
  · rintro ⟨forest, h⟩
    obtain ⟨hdistinct, roots, order, hroots, hmirrors, hperm⟩ := ofRows_eq_ok_iff.1 h
    exact hmirrors.sound hdistinct hroots hperm
  · intro h
    obtain ⟨forest, hbuild⟩ := exists_build_eq_ok h.distinct h.valued rows.length none
    refine ⟨forest, ofRows_eq_ok_iff_checks.2 ⟨?_, ?_, ?_, hbuild⟩⟩
    · exact repeatedId?_eq_none_iff.2 ⟨h.distinct, by simp⟩
    · simpa [List.find?_eq_none, isAttached_iff h.distinct] using h.attached
    · simp only [List.find?_eq_none, Bool.not_eq_true', Bool.not_eq_false]
      exact fun row hmem => (isRooted_length_iff h.distinct hmem).2 (h.rooted row hmem)

section Reordering

variable {others : List ConditionRow}

private theorem Siblings.of_perm (h : Siblings rows parent siblings) (hperm : rows.Perm others) :
    Siblings others parent siblings where
  perm := h.perm.trans (hperm.filter _)
  ordered := h.ordered

/-- What rows stand for does not depend on the order in which they are stored. -/
theorem Mirrors.of_perm (h : Mirrors rows siblings forest order) (hperm : rows.Perm others) :
    Mirrors others siblings forest order := by
  induction h with
  | nil => exact .nil
  | leaf hkey hvalue hrest ih => exact .leaf hkey hvalue ih
  | compound hkey hbelow hchildren hrest ihchildren ihrest =>
    exact .compound hkey (hbelow.of_perm hperm) ihchildren ihrest

private theorem ofRows_eq_ok_of_perm (hperm : rows.Perm others) (h : ofRows rows = .ok forest) :
    ofRows others = .ok forest := by
  obtain ⟨hdistinct, roots, order, hroots, hmirrors, horder⟩ := ofRows_eq_ok_iff.1 h
  exact ofRows_eq_ok_iff.2 ⟨(hperm.map _).nodup_iff.1 hdistinct, roots, order,
    hroots.of_perm hperm, hmirrors.of_perm hperm, horder.trans hperm⟩

end Reordering

end Bookkeeping.ConditionRow

namespace Bookkeeping.Condition

open ConditionRow

/-- In whatever order rows are stored, they are rebuilt to one forest, or in no order at all. -/
theorem ofRows_reordered {rows others : List ConditionRow} (hperm : rows.Perm others)
    (forest : List Condition) : ofRows rows = .ok forest ↔ ofRows others = .ok forest :=
  ⟨ofRows_eq_ok_of_perm hperm, ofRows_eq_ok_of_perm hperm.symm⟩

/-- Siblings at one position come by their ids, also when they are stored the other way round and
around the row that holds them. -/
theorem ofRows_reordered_siblings :
    let holder : ConditionRow := ⟨7, none, 3, "compound", "or", none⟩
    let first : ConditionRow := ⟨9, some 7, 5, "transaction_name", "like", some (.text "rent")⟩
    let second : ConditionRow := ⟨40, some 7, 5, "transaction_amount", ">", some (.int 2)⟩
    [holder, first, second].Perm [second, holder, first] ∧
      ofRows [second, holder, first] = .ok [.compound "or"
        [.leaf "transaction_name" "like" (.text "rent"),
          .leaf "transaction_amount" ">" (.int 2)]] := by
  intro holder first second
  have hperm : [holder, first, second].Perm [second, holder, first] := by decide
  have hroots : Siblings [holder, first, second] none [holder] := ⟨by decide, by decide⟩
  have hbelow : Siblings [holder, first, second] (some holder.id) [first, second] :=
    ⟨by decide, by decide⟩
  have hmirrors := Mirrors.compound rfl hbelow
    (.leaf (by decide) rfl (.leaf (by decide) rfl .nil)) .nil
  exact ⟨hperm, (ofRows_reordered hperm _).1
    (ofRows_eq_ok_iff.2 ⟨by decide, _, _, hroots, hmirrors, .refl _⟩)⟩

end Bookkeeping.Condition
