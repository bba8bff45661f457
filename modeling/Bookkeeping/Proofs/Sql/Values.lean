import Bookkeeping.Proofs.Rule.Coverage
import Bookkeeping.Proofs.Sql.Clause

/-!
# Values stay out of clauses

A clause shows which conditions are asked, and not for which values. The values are bound, one for
each leaf from left to right and then the first day, and the clause has a placeholder for each of
them, in their order.
-/

namespace Bookkeeping

open Sql (Keyword Token)

namespace Condition

mutual

/-- The condition with one and the same value in all of its leaves. -/
def outline : Condition → Condition
  | .leaf typeKey operator _ => .leaf typeKey operator (.flag false)
  | .compound operator children => .compound operator (forestOutline children)

/-- The conditions of a forest with one and the same value in all of their leaves. -/
def forestOutline : List Condition → List Condition
  | [] => []
  | condition :: rest => outline condition :: forestOutline rest

end

/-- The leaves of a condition, from left to right. -/
def leaves (condition : Condition) : List Condition :=
  condition.preorder.filter (!·.isCompound)

/-- The leaves of a forest, from left to right. -/
def forestLeaves (conditions : List Condition) : List Condition :=
  (forestPreorder conditions).filter (!·.isCompound)

private theorem leaves_leaf (typeKey operator : String) (value : Value) :
    (leaf typeKey operator value).leaves = [.leaf typeKey operator value] := by
  rw [leaves, preorder]
  rfl

private theorem leaves_compound (operator : String) (children : List Condition) :
    (compound operator children).leaves = forestLeaves children := by
  rw [leaves, preorder]
  rfl

private theorem forestLeaves_cons (condition : Condition) (rest : List Condition) :
    forestLeaves (condition :: rest) = condition.leaves ++ forestLeaves rest := by
  rw [forestLeaves, forestPreorder, List.filter_append]
  rfl

end Condition

/-- What is bound for a leaf: its value as its type reads it, or the pattern for the texts that
contain this value. -/
inductive Catalog.Binds (catalog : Catalog) : Condition → Value → Prop
  | pattern {typeKey operator text : String} {type : ConditionType} {value : Value}
      (htype : catalog.conditionType typeKey = .ok type)
      (hop : type.operator? operator = some .like)
      (hread : type.kind.read? value = some (.text text)) :
      catalog.Binds (.leaf typeKey operator value)
        (.text (String.ofList (Like.containing text.toList)))
  | value {typeKey operator : String} {type : ConditionType} {op : Operator} {value read : Value}
      (htype : catalog.conditionType typeKey = .ok type)
      (hop : type.operator? operator = some op) (hlike : op ≠ .like)
      (hread : type.kind.read? value = some read) :
      catalog.Binds (.leaf typeKey operator value) read

/-- The expression binds a value for each leaf of a forest, from left to right, and then the first
day; its placeholders are those of its binds, each once and in their order. -/
structure Sql.Parametrizes (sql : Sql) (catalog : Catalog) (conditions : List Condition)
    (since : Option Date) : Prop where
  binds : ∃ values, List.Forall₂ catalog.Binds (Condition.forestLeaves conditions) values ∧
    sql.binds = values ++ (since.map .date).toList
  placeholders : ∃ tokens, Sql.tokens? sql.clause = some tokens ∧
    tokens.filterMap Token.number? = List.range' 1 sql.binds.length

namespace Predicate

/-- The predicates have the same clause, whatever values they bind. -/
structure SameClause (p q : Predicate) : Prop where
  isAll : p.isAll = q.isAll
  bound : p.binds.length = q.binds.length
  clause : ∀ next, p.clauseFrom next = q.clauseFrom next

namespace SameClause

private theorem refl (p : Predicate) : p.SameClause p :=
  ⟨rfl, rfl, fun _ => rfl⟩

private theorem compare (column : Column) (op : Operator) (value other : Value) :
    SameClause (.compare column op value) (.compare column op other) :=
  ⟨rfl, rfl, fun _ => rfl⟩

private theorem like (column : Column) (pattern other : String) :
    SameClause (.like column pattern) (.like column other) :=
  ⟨rfl, rfl, fun _ => rfl⟩

section Joined

variable {parts others : List Predicate} (h : List.Forall₂ SameClause parts others)
include h

/-- Lists of predicates bind equally many values, so that each part starts from the same number. -/
theorem parts_eq : (partBinds parts).length = (partBinds others).length ∧
    ∀ next, partClauses next parts = partClauses next others := by
  induction h with
  | nil => exact ⟨rfl, fun _ => rfl⟩
  | cons hfirst _ ih =>
    obtain ⟨hbound, hclauses⟩ := ih
    refine ⟨?_, fun next => ?_⟩
    · rw [partBinds, partBinds, List.length_append, List.length_append, hfirst.bound, hbound]
    · rw [partClauses, partClauses, hfirst.clause, hfirst.bound, hclauses]

private theorem allOf : SameClause (.allOf parts) (.allOf others) := by
  obtain ⟨hbound, hclauses⟩ := parts_eq h
  refine ⟨rfl, ?_, fun next => ?_⟩
  · rw [binds, binds, hbound]
  · rw [clauseFrom, clauseFrom, hclauses]

private theorem anyOf : SameClause (.anyOf parts) (.anyOf others) := by
  obtain ⟨hbound, hclauses⟩ := parts_eq h
  refine ⟨rfl, ?_, fun next => ?_⟩
  · rw [binds, binds, hbound]
  · rw [clauseFrom, clauseFrom, hclauses]

/-- The same parts drop out of conjunctions. -/
theorem conjunction : SameClause (conjunction parts) (Predicate.conjunction others) := by
  have hkept : List.Forall₂ SameClause (parts.filter (!·.isAll)) (others.filter (!·.isAll)) := by
    refine List.rel_filter (fun part other hpart => ?_) h
    simp only [hpart.isAll]
  unfold Predicate.conjunction
  generalize parts.filter (!·.isAll) = kept at hkept ⊢
  generalize others.filter (!·.isAll) = otherKept at hkept ⊢
  cases hkept with
  | nil => exact refl .all
  | cons hfirst hrest =>
    cases hrest with
    | nil => exact hfirst
    | cons hnext hothers => exact allOf (.cons hfirst (.cons hnext hothers))

private theorem disjunction : SameClause (disjunction parts) (Predicate.disjunction others) := by
  have hany : parts.any Predicate.isAll = others.any Predicate.isAll := by
    induction h with
    | nil => rfl
    | cons hfirst _ ih => rw [List.any_cons, List.any_cons, hfirst.isAll, ih]
  unfold Predicate.disjunction
  rw [hany]
  split
  · exact refl .all
  · cases h with
    | nil => exact anyOf .nil
    | cons hfirst hrest =>
      cases hrest with
      | nil => exact hfirst
      | cons hnext hothers => exact anyOf (.cons hfirst (.cons hnext hothers))

end Joined

end SameClause

private theorem partBinds_eq (parts : List Predicate) : partBinds parts = parts.flatMap binds := by
  induction parts with
  | nil => rfl
  | cons part parts ih => rw [partBinds, ih, List.flatMap_cons]

/-- The conjunction binds what its parts bind. -/
theorem binds_conjunction (parts : List Predicate) :
    (conjunction parts).binds = parts.flatMap binds := by
  have hkept : (parts.filter (!·.isAll)).flatMap binds = parts.flatMap binds := by
    induction parts with
    | nil => rfl
    | cons part parts ih =>
      cases hall : part.isAll with
      | false => simp [hall, ih]
      | true =>
        have hbinds : part.binds = [] := by rw [isAll_iff.1 hall, binds]
        simp [hall, ih, hbinds]
  rw [← hkept, conjunction]
  split
  · simp [binds, *]
  · simp [*]
  · rw [binds, partBinds_eq]

/-- The disjunction of restrictions binds what its parts bind. -/
theorem binds_disjunction {parts : List Predicate} (hparts : ∀ part ∈ parts, part.isAll = false) :
    (disjunction parts).binds = parts.flatMap binds := by
  rcases disjunction_cases hparts with ⟨part, rfl, h⟩ | h
  · simp [h]
  · rw [h, binds, partBinds_eq]

section Proper

variable {parts : List Predicate} (h : ∀ part ∈ parts, part.Proper)
include h

private theorem proper_conjunction : (conjunction parts).Proper := by
  have hkept : ∀ part ∈ parts.filter (!·.isAll), part.Proper :=
    fun part hpart => h part (List.mem_filter.1 hpart).1
  unfold conjunction
  split
  · exact .all
  · rename_i part heq
    exact hkept part (by simp [heq])
  · exact .allOf hkept

private theorem proper_disjunction : (disjunction parts).Proper := by
  unfold disjunction
  split
  · exact .all
  · split
    · exact h _ (by simp)
    · exact .anyOf h

end Proper

section Numbers

/-- Joining clauses adds no placeholder. -/
theorem numbers_joinTokens (keyword constant : Keyword) (tokens : List (List Token)) :
    (Sql.joinTokens keyword constant tokens).filterMap Token.number? =
      tokens.flatMap (·.filterMap Token.number?) := by
  have hothers (others : List (List Token)) :
      (others.flatMap (.word keyword :: ·)).filterMap Token.number? =
        others.flatMap (·.filterMap Token.number?) := by
    induction others with
    | nil => rfl
    | cons next others ih =>
      rw [List.flatMap_cons, List.flatMap_cons, List.filterMap_append, ih]
      rfl
  cases tokens with
  | nil => rfl
  | cons first others =>
    have hopening : Token.opening.number? = none := rfl
    have hclosing : [Token.closing].filterMap Token.number? = [] := rfl
    rw [Sql.joinTokens, List.filterMap_cons_none hopening, List.filterMap_append, hclosing,
      List.append_nil, List.filterMap_append, hothers, List.flatMap_cons]

/-- The clauses of a list of predicates are numbered on from one to the next. -/
theorem numbers_partTokens {parts : List Predicate}
    (h : ∀ part ∈ parts, ∀ next, (part.tokensFrom next).filterMap Token.number? =
      List.range' next part.binds.length) (next : Nat) :
    (partTokens next parts).flatMap (·.filterMap Token.number?) =
      List.range' next (partBinds parts).length := by
  induction parts generalizing next with
  | nil => rfl
  | cons part parts ih =>
    obtain ⟨hpart, hparts⟩ := List.forall_mem_cons.1 h
    rw [partTokens, partBinds, List.flatMap_cons, hpart, ih hparts, List.length_append,
      List.range'_append_1]

/-- The placeholders of a clause are numbered from left to right, one for each value. -/
theorem numbers_tokensFrom (p : Predicate) (next : Nat) :
    (p.tokensFrom next).filterMap Token.number? = List.range' next p.binds.length := by
  induction p using part_induction generalizing next with
  | all => rfl
  | compare column op value => rfl
  | like column pattern => rfl
  | allOf parts ih => rw [tokensFrom, binds, numbers_joinTokens, numbers_partTokens ih]
  | anyOf parts ih => rw [tokensFrom, binds, numbers_joinTokens, numbers_partTokens ih]

end Numbers

end Predicate

namespace ConditionType

variable {type : ConditionType} {operator : String} {value other : Value} {p q : Predicate}

/-- A leaf asks for a pattern with `like`, which only texts can be asked for, and compares with
every other operator. -/
theorem build_cases (h : type.build operator value = .ok p) :
    (∃ text, type.operator? operator = some .like ∧
      type.kind.read? value = some (.text text) ∧ p = .contains type.column text) ∨
    ∃ op read, type.operator? operator = some op ∧ op ≠ .like ∧
      type.kind.read? value = some read ∧ p = .compare type.column op read := by
  obtain ⟨op, hop, hkey, read, hread, -, rfl⟩ := build_eq_ok_iff.1 h
  have hoperator := operator?_eq_some_iff.2 ⟨hkey, hop⟩
  by_cases hlike : op = .like
  · subst hlike
    have hkind : type.kind = .text := by
      cases hkind : type.kind <;> simp [hkind, ConditionKind.operators] at hop ⊢
    obtain ⟨text, -, rfl⟩ : ∃ text, value.text? = some text ∧ .text text = read := by
      simpa [hkind, ConditionKind.read?] using hread
    exact .inl ⟨text, hoperator, hread, rfl⟩
  · refine .inr ⟨op, read, hoperator, hlike, hread, ?_⟩
    cases op with
    | like => exact absurd rfl hlike
    | _ => rfl

/-- Of one type and one operator all values give the same clause. -/
theorem sameClause_of_build (h : type.build operator value = .ok p)
    (hother : type.build operator other = .ok q) : p.SameClause q := by
  rcases build_cases h with ⟨text, hop, -, rfl⟩ | ⟨op, read, hop, hlike, -, rfl⟩
  · rcases build_cases hother with ⟨_, -, -, rfl⟩ | ⟨op, _, hop', hlike, -, -⟩
    · exact .like type.column _ _
    · exact absurd (Option.some.inj (hop'.symm.trans hop)) hlike
  · rcases build_cases hother with ⟨_, hop', -, -⟩ | ⟨_, _, hop', -, -, rfl⟩
    · exact absurd (Option.some.inj (hop.symm.trans hop')) hlike
    · obtain rfl := Option.some.inj (hop.symm.trans hop')
      exact .compare type.column op _ _

private theorem proper_of_build (h : type.build operator value = .ok p) : p.Proper := by
  rcases build_cases h with ⟨text, -, -, rfl⟩ | ⟨op, read, -, hlike, -, rfl⟩
  · exact .like type.column _
  · exact .compare hlike

/-- A type that compares dates as such binds the very date. -/
theorem build_gte_date {date : Date} (h : type.build Operator.gte.key (.date date) = .ok p) :
    p = .compare type.column .gte (.date date) := by
  obtain ⟨op, hop, hkey, read, hread, -, rfl⟩ := build_eq_ok_iff.1 h
  have hgte : Operator.gte = op := by
    have hsame := Operator.ofKey?_eq_some_iff.2 hkey
    rw [Operator.ofKey?_key] at hsame
    exact Option.some.inj hsame
  subst hgte
  cases hkind : type.kind with
  | date =>
    obtain rfl : .date date = read := by
      simpa [hkind, ConditionKind.read?, Value.date?] using hread
    rfl
  | text => simp [hkind, ConditionKind.operators] at hop
  | select => simp [hkind, ConditionKind.operators] at hop
  | number kind => simp [hkind, ConditionKind.read?, Value.number?] at hread

end ConditionType

namespace Catalog

variable {catalog : Catalog}

section Clauses

/-- Forests that differ in values only have the same clauses one by one. -/
theorem sameClause_forest {conditions : List Condition}
    (heach : ∀ condition ∈ conditions, ∀ {other : Condition} {p q : Predicate},
      condition.outline = other.outline → catalog.predicate condition = .ok p →
        catalog.predicate other = .ok q → p.SameClause q)
    {others : List Condition} {parts otherParts : List Predicate}
    (hsame : Condition.forestOutline conditions = Condition.forestOutline others)
    (hparts : catalog.predicates conditions = .ok parts)
    (hotherParts : catalog.predicates others = .ok otherParts) :
    List.Forall₂ Predicate.SameClause parts otherParts := by
  induction conditions generalizing others parts otherParts with
  | nil =>
    cases others with
    | nil =>
      obtain rfl : [] = parts := by simpa [predicates] using hparts
      obtain rfl : [] = otherParts := by simpa [predicates] using hotherParts
      exact .nil
    | cons other rest => simp [Condition.forestOutline] at hsame
  | cons condition conditions ih =>
    cases others with
    | nil => simp [Condition.forestOutline] at hsame
    | cons other others =>
      rw [Condition.forestOutline, Condition.forestOutline, List.cons.injEq] at hsame
      obtain ⟨hfirst, hrest⟩ := hsame
      obtain ⟨p, ps, hp, hps, rfl⟩ := predicates_cons_eq_ok_iff.1 hparts
      obtain ⟨q, qs, hq, hqs, rfl⟩ := predicates_cons_eq_ok_iff.1 hotherParts
      refine .cons (heach condition (by simp) hfirst hp hq) ?_
      exact ih (fun condition hmem => heach condition (by simp [hmem])) hrest hps hqs

/-- Conditions that differ in values only have the same clause. -/
theorem sameClause_of_outline {condition : Condition} :
    ∀ {other : Condition} {p q : Predicate}, condition.outline = other.outline →
      catalog.predicate condition = .ok p → catalog.predicate other = .ok q →
        p.SameClause q := by
  induction condition using Condition.child_induction with
  | leaf typeKey operator value =>
    intro other p q hsame hp hq
    cases other with
    | compound => simp [Condition.outline] at hsame
    | leaf otherKey otherOperator otherValue =>
      obtain ⟨rfl, rfl, -⟩ : typeKey = otherKey ∧ operator = otherOperator ∧ True := by
        simpa [Condition.outline] using hsame
      obtain ⟨type, htype, hbuild⟩ := predicate_leaf_eq_ok_iff.1 hp
      obtain ⟨otherType, hotherType, hotherBuild⟩ := predicate_leaf_eq_ok_iff.1 hq
      obtain rfl := Except.ok.inj (htype.symm.trans hotherType)
      exact ConditionType.sameClause_of_build hbuild hotherBuild
  | compound operator children ih =>
    intro other p q hsame hp hq
    cases other with
    | leaf => simp [Condition.outline] at hsame
    | compound otherOperator otherChildren =>
      rw [Condition.outline, Condition.outline, Condition.compound.injEq] at hsame
      obtain ⟨rfl, hchildren⟩ := hsame
      obtain ⟨op, hop, -, parts, hparts, rfl⟩ := predicate_compound_eq_ok_iff.1 hp
      obtain ⟨otherOp, hotherOp, -, otherParts, hotherParts, rfl⟩ :=
        predicate_compound_eq_ok_iff.1 hq
      have hconnective : op = otherOp := by
        rw [← Connective.ofKey?_eq_some_iff] at hop hotherOp
        exact Option.some.inj (hop.symm.trans hotherOp)
      subst hconnective
      have hforest := sameClause_forest ih hchildren hparts hotherParts
      cases op with
      | and => exact Predicate.SameClause.conjunction hforest
      | or => exact Predicate.SameClause.disjunction hforest

/-- So do first days. -/
theorem sameClause_datePredicate {since otherSince : Option Date}
    (hsame : since.isSome = otherSince.isSome) {bound otherBound : List Predicate}
    (h : catalog.datePredicate since = .ok bound)
    (hother : catalog.datePredicate otherSince = .ok otherBound) :
    List.Forall₂ Predicate.SameClause bound otherBound := by
  cases since with
  | none =>
    obtain rfl : otherSince = none := by
      cases otherSince with
      | none => rfl
      | some => cases hsame
    obtain rfl : [] = bound := Except.ok.inj h
    obtain rfl : [] = otherBound := Except.ok.inj hother
    exact .nil
  | some date =>
    obtain ⟨otherDate, rfl⟩ := Option.isSome_iff_exists.1 hsame.symm
    obtain ⟨p, hp, rfl⟩ := map_eq_ok_iff.1 h
    obtain ⟨q, hq, rfl⟩ := map_eq_ok_iff.1 hother
    exact .cons (ConditionType.sameClause_of_build hp hq) .nil

end Clauses

section Bound

/-- A forest binds the values of its leaves if each of its conditions does. -/
theorem binds_forest {conditions : List Condition}
    (heach : ∀ condition ∈ conditions, ∀ {p : Predicate}, catalog.predicate condition = .ok p →
      p.Proper ∧ List.Forall₂ catalog.Binds condition.leaves p.binds)
    {parts : List Predicate} (hparts : catalog.predicates conditions = .ok parts) :
    (∀ part ∈ parts, part.Proper) ∧ List.Forall₂ catalog.Binds
      (Condition.forestLeaves conditions) (parts.flatMap Predicate.binds) := by
  induction conditions generalizing parts with
  | nil =>
    obtain rfl : [] = parts := by simpa [predicates] using hparts
    exact ⟨by simp, .nil⟩
  | cons condition rest ih =>
    obtain ⟨p, others, hp, hothers, rfl⟩ := predicates_cons_eq_ok_iff.1 hparts
    obtain ⟨hproper, hbinds⟩ := heach condition (by simp) hp
    obtain ⟨hrestProper, hrestBinds⟩ := ih (fun other hmem => heach other (by simp [hmem])) hothers
    refine ⟨List.forall_mem_cons.2 ⟨hproper, hrestProper⟩, ?_⟩
    rw [Condition.forestLeaves_cons, List.flatMap_cons]
    exact List.rel_append hbinds hrestBinds

/-- A condition binds the values of its leaves. -/
theorem binds_of_predicate {condition : Condition} :
    ∀ {p : Predicate}, catalog.predicate condition = .ok p →
      p.Proper ∧ List.Forall₂ catalog.Binds condition.leaves p.binds := by
  induction condition using Condition.child_induction with
  | leaf typeKey operator value =>
    intro p hp
    obtain ⟨type, htype, hbuild⟩ := predicate_leaf_eq_ok_iff.1 hp
    refine ⟨ConditionType.proper_of_build hbuild, ?_⟩
    rw [Condition.leaves_leaf]
    rcases ConditionType.build_cases hbuild with
      ⟨text, hop, hread, rfl⟩ | ⟨op, read, hop, hlike, hread, rfl⟩
    · exact .cons (.pattern htype hop hread) .nil
    · exact .cons (.value htype hop hlike hread) .nil
  | compound operator children ih =>
    intro p hp
    obtain ⟨op, -, -, parts, hparts, rfl⟩ := predicate_compound_eq_ok_iff.1 hp
    obtain ⟨hproper, hbinds⟩ := binds_forest ih hparts
    have hrestrict := isAll_of_mem_predicates hparts
    rw [Condition.leaves_compound]
    cases op with
    | and =>
      refine ⟨Predicate.proper_conjunction hproper, ?_⟩
      rw [junction, Predicate.binds_conjunction]
      exact hbinds
    | or =>
      refine ⟨Predicate.proper_disjunction hproper, ?_⟩
      rw [junction, Predicate.binds_disjunction hrestrict]
      exact hbinds

/-- A first day is bound as it is. -/
theorem binds_datePredicate {since : Option Date} {bound : List Predicate}
    (h : catalog.datePredicate since = .ok bound) :
    (∀ part ∈ bound, part.Proper) ∧
      bound.flatMap Predicate.binds = (since.map Value.date).toList := by
  cases since with
  | none =>
    obtain rfl : [] = bound := Except.ok.inj h
    exact ⟨by simp, rfl⟩
  | some date =>
    obtain ⟨p, hp, rfl⟩ := map_eq_ok_iff.1 h
    refine ⟨by simpa using ConditionType.proper_of_build hp, ?_⟩
    rw [ConditionType.build_gte_date hp]
    rfl

/-- The predicate of a forest and a first day binds their values and has a placeholder for each. -/
theorem parametrizes_of_combined {conditions : List Condition} {since : Option Date}
    {p : Predicate} (h : catalog.combined conditions since = .ok p) :
    p.toSql.Parametrizes catalog conditions since := by
  obtain ⟨parts, hparts, bound, hbound, rfl⟩ := combined_eq_ok_iff.1 h
  obtain ⟨hproper, hvalues⟩ := binds_forest (fun _ _ _ => binds_of_predicate) hparts
  obtain ⟨hdateProper, hdate⟩ := binds_datePredicate hbound
  have hall := Predicate.proper_conjunction (List.forall_mem_append.2 ⟨hproper, hdateProper⟩)
  constructor
  · refine ⟨parts.flatMap Predicate.binds, hvalues, ?_⟩
    rw [Predicate.toSql, Predicate.binds_conjunction, List.flatMap_append, hdate]
  · exact ⟨_, (Predicate.lexes_clauseFrom hall 1).tokens?_eq, Predicate.numbers_tokensFrom _ 1⟩

end Bound

end Catalog

/-- **Values stay out of clauses.** Let two forests with their first days, if any, be evaluated, and
let them differ in nothing but the values of their leaves and the days. The predicates that
they come to have one and the same clause. Each binds the values of its own leaves, as their types
read them, and then its day, and the clause has their placeholders in this order. -/
theorem Registry.clause_eq_of_outline {registry : Registry} {collection result : Collection}
    {conditions : List Condition} {since : Option Date}
    (h : registry.evaluateFrom collection conditions since = .ok result)
    {otherCollection otherResult : Collection} {others : List Condition}
    {otherSince : Option Date}
    (hother : registry.evaluateFrom otherCollection others otherSince = .ok otherResult)
    (hsame : Condition.forestOutline conditions = Condition.forestOutline others)
    (hsince : since.isSome = otherSince.isSome) :
    ∃ p q, registry.catalog.combined conditions since = .ok p ∧
      registry.catalog.combined others otherSince = .ok q ∧
      p.toSql.clause = q.toSql.clause ∧
      p.toSql.Parametrizes registry.catalog conditions since ∧
      q.toSql.Parametrizes registry.catalog others otherSince := by
  obtain ⟨-, -, -, p, hp, -⟩ := Registry.evaluateFrom_eq_ok_iff.1 h
  obtain ⟨-, -, -, q, hq, -⟩ := Registry.evaluateFrom_eq_ok_iff.1 hother
  refine ⟨p, q, hp, hq, ?_, Catalog.parametrizes_of_combined hp,
    Catalog.parametrizes_of_combined hq⟩
  obtain ⟨parts, hparts, bound, hbound, rfl⟩ := Catalog.combined_eq_ok_iff.1 hp
  obtain ⟨otherParts, hotherParts, otherBound, hotherBound, rfl⟩ := Catalog.combined_eq_ok_iff.1 hq
  have hforest := Catalog.sameClause_forest (fun _ _ => Catalog.sameClause_of_outline) hsame hparts
    hotherParts
  have hdates := Catalog.sameClause_datePredicate hsince hbound hotherBound
  exact (Predicate.SameClause.conjunction (List.rel_append hforest hdates)).clause 1

namespace Sample

private theorem exists_anniversary : Date.Exists 2031 12 24 := by decide

/-- Another day than the first one of the sample rule. -/
def anniversary : Date := ⟨2031, 12, 24, exists_anniversary⟩

/-- The conditions of the sample rule with other values, one of them a number and one in the form of
an expression. -/
def disguised : List Condition :=
  [.compound "OR" [.leaf "transaction_merchant" "=" (.text "m2"),
    .compound "and" [.leaf "transaction_merchant" "=" (.text "m1"),
      .compound "or" [.leaf "transaction_name" "=" (.int 7),
        .leaf "transaction_name" "like" (.text "50%' OR '1'='1")]]]]

end Sample

/-- What is disguised as an expression is bound as a text, and leaves the clause of the sample rule
as it is. -/
theorem Registry.clause_eq_of_outline_disguised :
    ∃ p q, Sample.registry.catalog.combined Sample.meals.conditions (some Sample.firstDay) = .ok p ∧
      Sample.registry.catalog.combined Sample.disguised (some Sample.anniversary) = .ok q ∧
      p.toSql.clause = q.toSql.clause ∧
      q.toSql.binds = [.text "m2", .text "m1", .text "7", .text "%50\\%' OR '1'='1%",
        .date Sample.anniversary] ∧
      q.toSql.Parametrizes Sample.registry.catalog Sample.disguised (some Sample.anniversary) := by
  have heach : ∃ result, Sample.registry.evaluateFrom Sample.registry.base
      Sample.meals.conditions (some Sample.firstDay) = .ok result := ⟨_, rfl⟩
  have hother : ∃ result, Sample.registry.evaluateFrom Sample.registry.base
      Sample.disguised (some Sample.anniversary) = .ok result := ⟨_, rfl⟩
  obtain ⟨result, hresult⟩ := heach
  obtain ⟨otherResult, hotherResult⟩ := hother
  obtain ⟨p, q, hp, hq, hclause, -, hbinds⟩ :=
    Registry.clause_eq_of_outline hresult hotherResult (by rfl) rfl
  refine ⟨p, q, hp, hq, hclause, ?_, hbinds⟩
  obtain rfl := Except.ok.inj hq
  rfl

end Bookkeeping
