import Bookkeeping.Catalog.Transaction
import Bookkeeping.Proofs.Condition.Predicate
import Mathlib.Data.String.Basic
import Mathlib.Order.Compare

/-!
# Tables joined for conditions

Evaluating conditions joins the tables that the columns of their predicate need, and no others,
and changes nothing else of the collection. So the predicate it adds never misses a join.
-/

namespace Bookkeeping

namespace Collection

variable {name other : String} {rest : List String}

private theorem insertName_cons_of_lt (h : name < other) :
    insertName name (other :: rest) = name :: other :: rest := by
  rw [insertName, compare_lt_iff_lt.2 h]

private theorem insertName_cons_self : insertName name (name :: rest) = name :: rest := by
  rw [insertName, compare_eq_iff_eq.2 rfl]

private theorem insertName_cons_of_gt (h : other < name) :
    insertName name (other :: rest) = other :: insertName name rest := by
  rw [insertName, compare_gt_iff_gt.2 h]

/-- In whatever order two tables are joined, the same are joined. -/
theorem insertName_comm (first second : String) (names : List String) :
    insertName first (insertName second names) = insertName second (insertName first names) := by
  wlog hle : first ≤ second generalizing first second
  · exact (this second first (le_of_not_ge hle)).symm
  rcases hle.eq_or_lt with rfl | hlt
  · rfl
  induction names with
  | nil =>
    have hsecond : insertName second [] = [second] := rfl
    have hfirst : insertName first [] = [first] := rfl
    rw [hsecond, hfirst, insertName_cons_of_lt hlt, insertName_cons_of_gt hlt, hsecond]
  | cons other rest ih =>
    -- the greater name decides whether the head stays in front of both
    rcases lt_trichotomy second other with hother | rfl | hother
    · rw [insertName_cons_of_lt hother, insertName_cons_of_lt hlt,
        insertName_cons_of_lt (hlt.trans hother), insertName_cons_of_gt hlt,
        insertName_cons_of_lt hother]
    · rw [insertName_cons_self, insertName_cons_of_lt hlt, insertName_cons_of_gt hlt,
        insertName_cons_self]
    · rw [insertName_cons_of_gt hother]
      rcases lt_trichotomy first other with hfirst | rfl | hfirst
      · rw [insertName_cons_of_lt hfirst, insertName_cons_of_lt hfirst,
          insertName_cons_of_gt hlt, insertName_cons_of_gt hother]
      · rw [insertName_cons_self, insertName_cons_self, insertName_cons_of_gt hother]
      · rw [insertName_cons_of_gt hfirst, insertName_cons_of_gt hfirst,
          insertName_cons_of_gt hother, ih]

private theorem mem_insertName_iff {table name : String} {names : List String} :
    table ∈ insertName name names ↔ table = name ∨ table ∈ names := by
  induction names with
  | nil => simp [insertName]
  | cons other rest ih =>
    unfold insertName
    split
    · simp
    · rename_i hcompare
      obtain rfl : name = other := by simpa using hcompare
      simp
    · simp only [List.mem_cons, ih]
      tauto

/-- Names in strict order stay so. -/
theorem pairwise_insertName {names : List String} (h : names.Pairwise (· < ·)) :
    (insertName name names).Pairwise (· < ·) := by
  induction names with
  | nil => exact List.pairwise_singleton ..
  | cons other rest ih =>
    obtain ⟨habove, hrest⟩ := List.pairwise_cons.1 h
    rcases lt_trichotomy name other with hname | rfl | hname
    · rw [insertName_cons_of_lt hname]
      refine List.pairwise_cons.2 ⟨?_, h⟩
      exact List.forall_mem_cons.2 ⟨hname, fun table hmem => hname.trans (habove table hmem)⟩
    · rwa [insertName_cons_self]
    · rw [insertName_cons_of_gt hname]
      refine List.pairwise_cons.2 ⟨fun table hmem => ?_, ih hrest⟩
      rcases mem_insertName_iff.1 hmem with rfl | hmem
      · exact hname
      · exact habove table hmem

/-- Restricting adds one restriction behind the others. -/
theorem restrictions_restrict (collection : Collection) (p : Predicate) :
    (collection.restrict p).restrictions = collection.restrictions ++ [p] := by
  simp [restrictions, restrict, filter]

/-- Whether a record belongs to a collection depends on its id and its owner, on the columns that
restrictions read, and on the locks that are asked for. -/
theorem selects_congr {collection : Collection} {record other : Record} (hid : record.id = other.id)
    (howner : record.owner = other.owner)
    (hread : ∀ p ∈ collection.restrictions, ∀ column ∈ p.atomColumns,
      record.fields.get? column = other.fields.get? column)
    (hlocked : ∀ column, .unlocked column ∈ collection.filters →
      record.isLocked column = other.isLocked column) :
    collection.selects record = collection.selects other := by
  have hpasses (filter : Filter) (hfilter : filter ∈ collection.filters) :
      filter.passes record = filter.passes other := by
    cases filter with
    | restrict p => exact Predicate.holds_congr (hread p (List.mem_filterMap.2 ⟨_, hfilter, rfl⟩))
    | unlocked column => rw [Filter.passes, Filter.passes, hlocked column hfilter]
    | pinned ids => rw [Filter.passes, Filter.passes, hid]
  have hall : collection.filters.all (·.passes record) =
      collection.filters.all (·.passes other) := by
    rw [Bool.eq_iff_iff, List.all_eq_true, List.all_eq_true]
    exact forall₂_congr fun filter hfilter => by rw [hpasses filter hfilter]
  rw [selects, selects, howner, hall]

/-- The collection joins the tables that the columns of the predicate need. -/
def JoinsFor (collection : Collection) (p : Predicate) : Prop :=
  ∀ column ∈ p.atomColumns, ∀ table,
    column.relation? collection.baseTable = some table → table ∈ collection.joins

/-- No join is missing when every column that a restriction reads can be read. -/
theorem missingJoin?_eq_none_iff {collection : Collection} :
    collection.missingJoin? = none ↔ ∀ p ∈ collection.restrictions, collection.JoinsFor p := by
  simp only [missingJoin?, List.findSome?_eq_none_iff, List.mem_flatMap,
    Predicate.mem_columns_iff]
  constructor
  · intro h p hp column hmem table htable
    have hjoined := h column ⟨p, hp, hmem⟩
    rw [htable] at hjoined
    simpa using hjoined
  · rintro h column ⟨p, hp, hmem⟩
    cases htable : column.relation? collection.baseTable with
    | none => rfl
    | some table => simp [h p hp column hmem table htable]

/-- A restriction misses no further join if what it needs is joined. -/
theorem missingJoin?_restrict {collection : Collection} {p : Predicate}
    (h : collection.JoinsFor p) :
    (collection.restrict p).missingJoin? = collection.missingJoin? := by
  simp only [missingJoin?, restrictions_restrict, List.flatMap_append, List.flatMap_singleton,
    List.findSome?_append]
  refine (congrArg _ (List.findSome?_eq_none_iff.2 fun column hcolumn => ?_)).trans Option.or_none
  cases htable : column.relation? collection.baseTable with
  | none => simp [restrict, filter, htable]
  | some table =>
    have hjoined := h column (Predicate.mem_columns_iff.1 hcolumn) table htable
    simp [restrict, filter, htable, hjoined]

end Collection

/-- A collection passes the check of its joins when it misses none. -/
theorem Store.checkJoins_eq_ok_iff {collection : Collection} :
    checkJoins collection = .ok () ↔ collection.missingJoin? = none := by
  unfold checkJoins
  split <;> simp [*]

namespace ConditionType

/-- Preparing a collection for a type changes only its joins. -/
theorem prepare_eq (type : ConditionType) (collection : Collection) :
    ∃ joins, type.prepare collection = { collection with joins } := by
  unfold prepare
  split
  · exact ⟨_, rfl⟩
  · exact ⟨_, rfl⟩

private theorem mem_joins_prepare_iff {type : ConditionType} {collection : Collection}
    {table : String} :
    table ∈ (type.prepare collection).joins ↔
      table ∈ collection.joins ∨ type.relation = some table := by
  unfold prepare
  split
  · rename_i needed hrelation
    rw [hrelation, Option.some.injEq, Collection.join, Collection.mem_insertName_iff, eq_comm,
      or_comm]
  · rename_i hrelation
    simp [hrelation]

/-- The collection prepared for each type of a list. -/
def prepareEach (types : List ConditionType) (collection : Collection) : Collection :=
  types.foldl (fun prepared type => type.prepare prepared) collection

/-- Preparing for two lists of types is preparing for one after the other. -/
theorem prepareEach_append (first second : List ConditionType) (collection : Collection) :
    prepareEach (first ++ second) collection = prepareEach second (prepareEach first collection) :=
  List.foldl_append

/-- Preparing for types changes nothing but the joins. -/
theorem prepareEach_eq (types : List ConditionType) (collection : Collection) :
    ∃ joins, prepareEach types collection = { collection with joins } := by
  induction types generalizing collection with
  | nil => exact ⟨_, rfl⟩
  | cons type types ih =>
    have hstep : prepareEach (type :: types) collection =
        prepareEach types (type.prepare collection) := rfl
    obtain ⟨_, hprepare⟩ := type.prepare_eq collection
    obtain ⟨joins, hrest⟩ := ih (type.prepare collection)
    exact ⟨joins, by rw [hstep, hrest, hprepare]⟩

/-- It does not matter for which of two types a collection is prepared first. -/
theorem prepare_comm (first second : ConditionType) (collection : Collection) :
    first.prepare (second.prepare collection) = second.prepare (first.prepare collection) := by
  unfold prepare
  cases first.relation with
  | none => rfl
  | some table =>
    cases second.relation with
    | none => rfl
    | some other =>
      simp only [Collection.join]
      rw [Collection.insertName_comm]

/-- It does not matter in which order a collection is prepared for types. -/
theorem prepareEach_perm {types others : List ConditionType} (h : types.Perm others)
    (collection : Collection) : prepareEach types collection = prepareEach others collection :=
  h.foldl_eq' (fun first _ second _ prepared => prepare_comm second first prepared) collection

/-- A collection may be restricted before it is prepared as well as after that. -/
theorem prepareEach_restrict (types : List ConditionType) (collection : Collection)
    (p : Predicate) :
    prepareEach types (collection.restrict p) = (prepareEach types collection).restrict p := by
  induction types generalizing collection with
  | nil => rfl
  | cons type types ih =>
    have hstep : type.prepare (collection.restrict p) = (type.prepare collection).restrict p := by
      unfold prepare
      split <;> rfl
    simp only [prepareEach, List.foldl_cons, hstep] at ih ⊢
    exact ih _

/-- The joined tables stay in name order. -/
theorem pairwise_joins_prepareEach {types : List ConditionType} {collection : Collection}
    (h : collection.joins.Pairwise (· < ·)) :
    (prepareEach types collection).joins.Pairwise (· < ·) := by
  induction types generalizing collection with
  | nil => exact h
  | cons type types ih =>
    refine @ih (type.prepare collection) ?_
    unfold prepare
    split
    · exact Collection.pairwise_insertName h
    · exact h

private theorem mem_joins_prepareEach_iff {types : List ConditionType} {collection : Collection}
    {table : String} :
    table ∈ (prepareEach types collection).joins ↔
      table ∈ collection.joins ∨ ∃ type ∈ types, type.relation = some table := by
  induction types generalizing collection with
  | nil => simp [prepareEach]
  | cons type types ih =>
    have hstep : prepareEach (type :: types) collection =
        prepareEach types (type.prepare collection) := rfl
    rw [hstep, ih, mem_joins_prepare_iff, or_assoc]
    simp

/-- A collection that misses no join misses none after being prepared. -/
theorem missingJoin?_prepareEach (types : List ConditionType) {collection : Collection}
    (h : collection.missingJoin? = none) : (prepareEach types collection).missingJoin? = none := by
  rw [Collection.missingJoin?_eq_none_iff] at h ⊢
  intro p hp column hcolumn table hneeded
  refine mem_joins_prepareEach_iff.2 (.inl ?_)
  obtain ⟨joins, hprepared⟩ := prepareEach_eq types collection
  rw [hprepared] at hp hneeded
  exact h p hp column hcolumn table hneeded

end ConditionType

namespace Catalog

variable {catalog : Catalog}

/-- A type that the catalog has, under some key or for the first day of a rule. -/
def Declares (catalog : Catalog) (type : ConditionType) : Prop :=
  (∃ key, catalog.conditionType key = .ok type) ∨ type = catalog.effectiveDate

/-- Each type of the catalog joins the table that its column needs from the base table. -/
def JoinsColumns (catalog : Catalog) (baseTable : String) : Prop :=
  ∀ type, catalog.Declares type → type.relation = type.column.relation? baseTable

/-- A collection is prepared for the types of the leaves, from left to right, and these read the
columns of the predicates. -/
structure LeafTypes (catalog : Catalog) (types : List ConditionType) (columns : List Column)
    (before after : Collection) : Prop where
  declared : ∀ type ∈ types, catalog.Declares type
  prepared : after = ConditionType.prepareEach types before
  columns_eq : columns = types.map (·.column)

namespace LeafTypes

variable {types others : List ConditionType} {columns otherColumns : List Column}
  {before between after : Collection}

private theorem append (hfirst : catalog.LeafTypes types columns before between)
    (hsecond : catalog.LeafTypes others otherColumns between after) :
    catalog.LeafTypes (types ++ others) (columns ++ otherColumns) before after := by
  refine ⟨fun type hmem => ?_, ?_, ?_⟩
  · rcases List.mem_append.1 hmem with hmem | hmem
    · exact hfirst.declared type hmem
    · exact hsecond.declared type hmem
  · rw [ConditionType.prepareEach_append, ← hfirst.prepared, hsecond.prepared]
  · rw [hfirst.columns_eq, hsecond.columns_eq, List.map_append]

/-- Preparing for the types of the leaves changes nothing but the joins. -/
theorem same (h : catalog.LeafTypes types columns before after) :
    ∃ joins, after = { before with joins } := by
  rw [h.prepared]
  exact ConditionType.prepareEach_eq types before

/-- The tables joined are those that the columns need. -/
theorem mem_joins_iff (h : catalog.LeafTypes types columns before after) {baseTable : String}
    (hcatalog : catalog.JoinsColumns baseTable) {table : String} :
    table ∈ after.joins ↔
      table ∈ before.joins ∨ ∃ column ∈ columns, column.relation? baseTable = some table := by
  rw [h.prepared, ConditionType.mem_joins_prepareEach_iff, h.columns_eq]
  refine or_congr_right ?_
  constructor
  · rintro ⟨type, hmem, hrelation⟩
    refine ⟨type.column, List.mem_map_of_mem hmem, ?_⟩
    rw [← hcatalog type (h.declared type hmem), hrelation]
  · rintro ⟨column, hmem, hneeded⟩
    obtain ⟨type, htype, rfl⟩ := List.mem_map.1 hmem
    refine ⟨type, htype, ?_⟩
    rw [hcatalog type (h.declared type htype), hneeded]

/-- What the leaves need is joined. -/
theorem joinsFor {p : Predicate} (h : catalog.LeafTypes types columns before after)
    (hcatalog : catalog.JoinsColumns before.baseTable) (hp : p.atomColumns ⊆ columns) :
    after.JoinsFor p := by
  intro column hcolumn table hneeded
  obtain ⟨joins, rfl⟩ := h.same
  exact (h.mem_joins_iff hcatalog).2 (.inr ⟨column, hp hcolumn, hneeded⟩)

/-- A collection that misses no join misses none after being prepared and restricted. -/
theorem missingJoin?_restrict {p : Predicate}
    (h : catalog.LeafTypes types p.atomColumns before after)
    (hcatalog : catalog.JoinsColumns before.baseTable) (hbefore : before.missingJoin? = none) :
    (after.restrict p).missingJoin? = none := by
  rw [Collection.missingJoin?_restrict (h.joinsFor hcatalog (List.Subset.refl _)), h.prepared]
  exact ConditionType.missingJoin?_prepareEach types hbefore

end LeafTypes

private theorem prepareForest_append (conditions others : List Condition)
    (collection : Collection) :
    catalog.prepareForest (conditions ++ others) collection =
      catalog.prepareForest conditions collection >>= catalog.prepareForest others := by
  induction conditions generalizing collection with
  | nil => rfl
  | cons condition rest ih =>
    simp only [List.cons_append, prepareForest, ih, bind_assoc]

/-- The conditions stand for these predicates, and any collection is prepared for these types of
their leaves, from left to right; the predicates read the columns of the types. -/
structure Resolves (catalog : Catalog) (conditions : List Condition) (parts : List Predicate)
    (types : List ConditionType) : Prop where
  predicates : catalog.predicates conditions = .ok parts
  prepares : ∀ collection,
    catalog.prepareForest conditions collection = .ok (ConditionType.prepareEach types collection)
  declared : ∀ type ∈ types, catalog.Declares type
  columns_eq : parts.flatMap Predicate.atomColumns = types.map (·.column)

namespace Resolves

variable {conditions others : List Condition} {parts otherParts : List Predicate}
  {types otherTypes : List ConditionType}

/-- The types of the leaves prepare any collection for the columns of the predicates. -/
theorem leafTypes (h : catalog.Resolves conditions parts types) (collection : Collection) :
    catalog.LeafTypes types (parts.flatMap Predicate.atomColumns) collection
      (ConditionType.prepareEach types collection) :=
  ⟨h.declared, rfl, h.columns_eq⟩

/-- Two forests stand for the predicates of both and are prepared for the types of both. -/
theorem append (hfirst : catalog.Resolves conditions parts types)
    (hsecond : catalog.Resolves others otherParts otherTypes) :
    catalog.Resolves (conditions ++ others) (parts ++ otherParts) (types ++ otherTypes) := by
  refine ⟨predicates_append_eq_ok_iff.2
    ⟨parts, otherParts, hfirst.predicates, hsecond.predicates, rfl⟩, fun collection => ?_, ?_, ?_⟩
  · rw [prepareForest_append, hfirst.prepares, ok_bind, hsecond.prepares,
      ConditionType.prepareEach_append]
  · exact List.forall_mem_append.2 ⟨hfirst.declared, hsecond.declared⟩
  · rw [List.flatMap_append, hfirst.columns_eq, hsecond.columns_eq, List.map_append]

end Resolves

/-- A forest resolves if each of its conditions does. -/
theorem exists_resolves_of_each {conditions : List Condition}
    (heach : ∀ condition ∈ conditions, ∀ {p : Predicate}, catalog.predicate condition = .ok p →
      ∃ types, catalog.Resolves [condition] [p] types)
    {parts : List Predicate} (hparts : catalog.predicates conditions = .ok parts) :
    ∃ types, catalog.Resolves conditions parts types := by
  induction conditions generalizing parts with
  | nil =>
    obtain rfl : [] = parts := by simpa [predicates] using hparts
    exact ⟨[], hparts, fun _ => rfl, by simp, rfl⟩
  | cons condition rest ih =>
    obtain ⟨first, others, hfirst, hothers, rfl⟩ := predicates_cons_eq_ok_iff.1 hparts
    obtain ⟨firstTypes, hfirstTypes⟩ := heach condition (by simp) hfirst
    obtain ⟨restTypes, hrestTypes⟩ := ih (fun other hmem => heach other (by simp [hmem])) hothers
    exact ⟨firstTypes ++ restTypes, hfirstTypes.append hrestTypes⟩

/-- A condition that has a predicate resolves to it. -/
theorem exists_resolves_singleton {condition : Condition} :
    ∀ {p : Predicate}, catalog.predicate condition = .ok p →
      ∃ types, catalog.Resolves [condition] [p] types := by
  induction condition using Condition.child_induction with
  | leaf typeKey operator value =>
    intro p hp
    obtain ⟨type, htype, hbuild⟩ := predicate_leaf_eq_ok_iff.1 hp
    obtain ⟨op, -, -, read, -, -, rfl⟩ := ConditionType.build_eq_ok_iff.1 hbuild
    refine ⟨[type], by rw [predicates, hp]; rfl, fun collection => ?_, ?_, ?_⟩
    · simp only [prepareForest, prepare, htype]
      rfl
    · intro other hother
      obtain rfl := List.mem_singleton.1 hother
      exact .inl ⟨typeKey, htype⟩
    · simp [type.atomColumns_atom op read]
  | compound operator children ih =>
    intro p hp
    obtain ⟨op, -, -, parts, hparts, rfl⟩ := predicate_compound_eq_ok_iff.1 hp
    obtain ⟨types, htypes⟩ := exists_resolves_of_each ih hparts
    have hcolumns : (junction op parts).atomColumns = parts.flatMap Predicate.atomColumns := by
      cases op with
      | and => exact Predicate.atomColumns_conjunction
      | or => exact Predicate.atomColumns_disjunction (isAll_of_mem_predicates hparts)
    refine ⟨types, by rw [predicates, hp]; rfl, fun collection => ?_, htypes.declared, ?_⟩
    · simp only [prepareForest, prepare, htypes.prepares]
      rfl
    · rw [List.flatMap_singleton, hcolumns, htypes.columns_eq]

/-- A forest whose conditions have predicates resolves to them. -/
theorem exists_resolves {conditions : List Condition} {parts : List Predicate}
    (h : catalog.predicates conditions = .ok parts) :
    ∃ types, catalog.Resolves conditions parts types :=
  exists_resolves_of_each (fun _ _ => exists_resolves_singleton) h

/-- The one predicate of a forest is all of its predicates and the bound on the date. -/
theorem combined_eq_ok_iff {conditions : List Condition} {since : Option Date} {p : Predicate} :
    catalog.combined conditions since = .ok p ↔
      ∃ parts, catalog.predicates conditions = .ok parts ∧
        ∃ bound, catalog.datePredicate since = .ok bound ∧
          Predicate.conjunction (parts ++ bound) = p := by
  simp only [combined, bind_eq_ok_iff, pure, Except.pure, Except.ok.injEq]

/-- Preparing for a forest and a first day is preparing for one after the other. -/
theorem prepareAll_eq_ok_iff {conditions : List Condition} {since : Option Date}
    {before after : Collection} :
    catalog.prepareAll conditions since before = .ok after ↔
      ∃ between, catalog.prepareForest conditions before = .ok between ∧
        catalog.prepareAll [] since between = .ok after := by
  simp only [prepareAll, bind_eq_ok_iff, prepareForest, Except.ok.injEq, exists_eq_left']

/-- A first day is prepared for, and reads the column of, its own type. -/
theorem exists_leafTypes_date {since : Option Date} {bound : List Predicate}
    {before after : Collection} (hbound : catalog.datePredicate since = .ok bound)
    (h : catalog.prepareAll [] since before = .ok after) :
    ∃ types, catalog.LeafTypes types (bound.flatMap Predicate.atomColumns) before after := by
  cases since with
  | none =>
    obtain rfl : [] = bound := Except.ok.inj hbound
    obtain rfl : before = after := Except.ok.inj h
    exact ⟨[], by simp, rfl, rfl⟩
  | some date =>
    obtain rfl : catalog.effectiveDate.prepare before = after := Except.ok.inj h
    rw [datePredicate] at hbound
    cases hbuild : catalog.effectiveDate.build Operator.gte.key (.date date) with
    | error cause => simp [hbuild, Except.map] at hbound
    | ok p =>
      obtain ⟨op, -, -, read, -, -, rfl⟩ := ConditionType.build_eq_ok_iff.1 hbuild
      rw [hbuild] at hbound
      obtain rfl := Except.ok.inj hbound
      refine ⟨[catalog.effectiveDate], by simp [Declares], rfl, ?_⟩
      simp [ConditionType.atomColumns_atom]

end Catalog

namespace Registry

variable {registry : Registry} {collection result : Collection} {conditions : List Condition}
  {since : Option Date}

/-- An evaluation checks the depth, prepares the collection and restricts it by one predicate. -/
theorem evaluateFrom_eq_ok_iff :
    registry.evaluateFrom collection conditions since = .ok result ↔
      registry.settings.checkDepth conditions = .ok () ∧
        ∃ prepared, registry.catalog.prepareAll conditions since collection = .ok prepared ∧
          ∃ p, registry.catalog.combined conditions since = .ok p ∧
            prepared.restrict p = result := by
  simp only [evaluateFrom, bind_eq_ok_iff, pure, Except.pure, Except.ok.injEq]
  constructor
  · rintro ⟨⟨⟩, hdepth, hrest⟩
    exact ⟨hdepth, hrest⟩
  · rintro ⟨hdepth, hrest⟩
    exact ⟨(), hdepth, hrest⟩

/-- Evaluating prepares the collection for the types of the leaves and of the first day, and
restricts it once, by the predicate of them all. -/
theorem exists_leafTypes_of_evaluateFrom
    (h : registry.evaluateFrom collection conditions since = .ok result) :
    ∃ p types prepared, registry.catalog.combined conditions since = .ok p ∧
      registry.catalog.LeafTypes types p.atomColumns collection prepared ∧
        prepared.restrict p = result := by
  obtain ⟨-, prepared, hprepared, p, hp, rfl⟩ := evaluateFrom_eq_ok_iff.1 h
  obtain ⟨parts, hparts, bound, hbound, rfl⟩ := Catalog.combined_eq_ok_iff.1 hp
  obtain ⟨between, hforest, hdate⟩ := Catalog.prepareAll_eq_ok_iff.1 hprepared
  obtain ⟨types, htypes⟩ := Catalog.exists_resolves hparts
  obtain rfl := Except.ok.inj ((htypes.prepares collection).symm.trans hforest)
  have hcolumns : (Predicate.conjunction (parts ++ bound)).atomColumns =
      parts.flatMap Predicate.atomColumns ++ bound.flatMap Predicate.atomColumns := by
    rw [Predicate.atomColumns_conjunction, List.flatMap_append]
  obtain ⟨dateTypes, hdateTypes⟩ := Catalog.exists_leafTypes_date hbound hdate
  refine ⟨_, types ++ dateTypes, prepared, hp, ?_, rfl⟩
  rw [hcolumns]
  exact (htypes.leafTypes collection).append hdateTypes

/-- What is evaluated from a collection that misses no join misses none either. -/
theorem checkJoins_of_evaluateFrom
    (hcatalog : registry.catalog.JoinsColumns collection.baseTable)
    (hcollection : Store.checkJoins collection = .ok ())
    (h : registry.evaluateFrom collection conditions since = .ok result) :
    Store.checkJoins result = .ok () := by
  obtain ⟨p, types, prepared, -, htypes, rfl⟩ := exists_leafTypes_of_evaluateFrom h
  rw [Store.checkJoins_eq_ok_iff] at hcollection ⊢
  exact htypes.missingJoin?_restrict hcatalog hcollection

end Registry

end Bookkeeping
