import Bookkeeping.Catalog.Transaction
import Bookkeeping.Proofs.Condition.Predicate

/-!
# Conditions joined one to another

Joining two conditions either puts a new node above both or makes the right one the last child of
the left one, and whichever it is, the result says what the two say. So a chain of conditions says
the same however it is bracketed. Its depth depends on the bracketing.
-/

namespace Bookkeeping

namespace Connective

/-- What two statements joined say. -/
def Joins : Connective → Prop → Prop → Prop
  | .and, first, second => first ∧ second
  | .or, first, second => first ∨ second

/-- What a list of statements joined says. -/
def Over {α : Type} (op : Connective) (members : List α) (meaning : α → Prop) : Prop :=
  match op with
  | .and => ∀ member ∈ members, meaning member
  | .or => ∃ member ∈ members, meaning member

variable {α : Type} {op : Connective} {meaning : α → Prop}

private theorem over_singleton {member : α} : op.Over [member] meaning ↔ meaning member := by
  cases op <;> simp [Over]

private theorem over_append {members others : List α} :
    op.Over (members ++ others) meaning ↔
      op.Joins (op.Over members meaning) (op.Over others meaning) := by
  cases op with
  | and => exact List.forall_mem_append
  | or => simp only [Over, Joins, List.mem_append, or_and_right, exists_or]

private theorem over_pair {first second : α} :
    op.Over [first, second] meaning ↔ op.Joins (meaning first) (meaning second) := by
  rw [← List.singleton_append, over_append, over_singleton, over_singleton]

private theorem joins_congr {first second first' second' : Prop} (hfirst : first ↔ first')
    (hsecond : second ↔ second') : op.Joins first second ↔ op.Joins first' second' := by
  rw [propext hfirst, propext hsecond]

end Connective

namespace Condition

/-- The condition takes another one in: it is joined that way already, in whatever case of the
letters. -/
def Absorbs (op : Connective) : Condition → Prop
  | .leaf _ _ _ => False
  | .compound operator _ => operator.toLower = op.key

instance (op : Connective) (condition : Condition) : Decidable (condition.Absorbs op) :=
  match condition with
  | .leaf _ _ _ => inferInstanceAs (Decidable False)
  | .compound operator _ => inferInstanceAs (Decidable (operator.toLower = op.key))

variable {op : Connective} {left right : Condition}

/-- A node that takes the other in has it as its last child and keeps its operator as it is. -/
theorem combine_compound {operator : String} {children : List Condition}
    (h : operator.toLower = op.key) :
    combine op (.compound operator children) right = .compound operator (children ++ [right]) := by
  rw [combine, if_pos (Connective.ofKey?_eq_some_iff.2 h)]

/-- Any other condition is put under a new node, next to the other. -/
theorem combine_of_not_absorbs (h : ¬left.Absorbs op) :
    combine op left right = .compound op.key [left, right] := by
  cases left with
  | leaf typeKey operator value => rfl
  | compound operator children =>
    rw [combine, if_neg fun hkey => h (Connective.ofKey?_eq_some_iff.1 hkey)]
    rfl

private theorem forestDepth_append (conditions others : List Condition) :
    forestDepth (conditions ++ others) = max (forestDepth conditions) (forestDepth others) := by
  induction conditions with
  | nil => simp [forestDepth]
  | cons condition rest ih => rw [List.cons_append, forestDepth, forestDepth, ih, Nat.max_assoc]

/-- Joining adds a level to the right condition, and to the left one only if that does not take
the right one in. -/
theorem depth_combine (op : Connective) (left right : Condition) :
    (combine op left right).depth =
      if left.Absorbs op then max left.depth (1 + right.depth)
      else 1 + max left.depth right.depth := by
  split
  · rename_i h
    cases left with
    | leaf typeKey operator value => cases h
    | compound operator children =>
      rw [combine_compound h, depth, depth, forestDepth_append, forestDepth, forestDepth,
        Nat.max_zero, Nat.add_max_add_left]
  · rename_i h
    rw [combine_of_not_absorbs h, depth, forestDepth, forestDepth, forestDepth, Nat.max_zero]

end Condition

namespace Catalog

variable {catalog : Catalog} {op : Connective}

/-- A node holds of the records that its children say. -/
theorem holds_junction_iff {parts : List Predicate} {record : Column → Option Value} :
    (junction op parts).holds record = true ↔
      op.Over parts fun part => part.holds record = true := by
  cases op with
  | and => exact Predicate.holds_conjunction_iff
  | or => exact Predicate.holds_disjunction_iff

/-- **Joining two conditions.** If both have predicates, so have the two joined, and it says what
they say. -/
theorem exists_predicate_combine (op : Connective) {left right : Condition} {p q : Predicate}
    (hleft : catalog.predicate left = .ok p) (hright : catalog.predicate right = .ok q) :
    ∃ both, catalog.predicate (Condition.combine op left right) = .ok both ∧
      ∀ record, both.holds record = true ↔
        op.Joins (p.holds record = true) (q.holds record = true) := by
  have hlast : catalog.predicates [right] = .ok [q] :=
    predicates_cons_eq_ok_iff.2 ⟨q, [], hright, by rw [predicates], rfl⟩
  by_cases habsorbs : left.Absorbs op
  · cases left with
    | leaf typeKey operator value => cases habsorbs
    | compound operator children =>
      obtain ⟨other, hother, -, parts, hparts, rfl⟩ := predicate_compound_eq_ok_iff.1 hleft
      -- the node keeps its operator, and this names one connective only
      obtain rfl : other = op := by
        have hread := Connective.ofKey?_eq_some_iff.2 hother
        rwa [Connective.ofKey?_eq_some_iff.2 habsorbs, Option.some.injEq, eq_comm] at hread
      refine ⟨junction other (parts ++ [q]), ?_, fun record => ?_⟩
      · rw [Condition.combine_compound habsorbs, predicate_compound_eq_ok_iff]
        exact ⟨other, hother, by simp, _,
          predicates_append_eq_ok_iff.2 ⟨parts, [q], hparts, hlast, rfl⟩, rfl⟩
      · rw [holds_junction_iff, Connective.over_append, Connective.over_singleton,
          holds_junction_iff]
  · refine ⟨junction op [p, q], ?_, fun record => ?_⟩
    · have hlower : op.key.toLower = op.key :=
        Connective.ofKey?_eq_some_iff.1 (Connective.ofKey?_key op)
      rw [Condition.combine_of_not_absorbs habsorbs, predicate_compound_eq_ok_iff]
      exact ⟨op, hlower, by simp, _,
        predicates_cons_eq_ok_iff.2 ⟨p, [q], hleft, hlast, rfl⟩, rfl⟩
    · rw [holds_junction_iff, Connective.over_pair]

end Catalog

/-- Conditions in a row, joined two by two in some bracketing. -/
inductive Chain where
  | single (condition : Condition)
  | link (left right : Chain)

namespace Chain

/-- The conditions of a chain from left to right. -/
def members : Chain → List Condition
  | .single condition => [condition]
  | .link left right => left.members ++ right.members

/-- The condition that the chain is joined to. -/
def joined (op : Connective) : Chain → Condition
  | .single condition => condition
  | .link left right => Condition.combine op (left.joined op) (right.joined op)

variable {catalog : Catalog}

/-- A chain says what its members say, whatever its bracketing. -/
theorem exists_predicate_joined (op : Connective) {chain : Chain} :
    ∀ {parts : List Predicate}, catalog.predicates chain.members = .ok parts →
      ∃ p, catalog.predicate (chain.joined op) = .ok p ∧
        ∀ record, p.holds record = true ↔ op.Over parts fun part => part.holds record = true := by
  induction chain with
  | single condition =>
    intro parts h
    obtain ⟨p, others, hp, hothers, rfl⟩ := Catalog.predicates_cons_eq_ok_iff.1 h
    obtain rfl : [] = others := by simpa [Catalog.predicates] using hothers
    refine ⟨p, hp, fun record => ?_⟩
    rw [Connective.over_singleton]
  | link left right hleft hright =>
    intro parts h
    obtain ⟨first, second, hfirst, hsecond, rfl⟩ := Catalog.predicates_append_eq_ok_iff.1 h
    obtain ⟨p, hp, hpmeans⟩ := hleft hfirst
    obtain ⟨q, hq, hqmeans⟩ := hright hsecond
    obtain ⟨both, hboth, hmeans⟩ := Catalog.exists_predicate_combine op hp hq
    refine ⟨both, hboth, fun record => ?_⟩
    rw [hmeans, Connective.over_append]
    exact Connective.joins_congr (hpmeans record) (hqmeans record)

end Chain

/-- **Chains of conditions.** Two conditions that have predicates have one when they are joined by
`and` or by `or`, and it holds of a record exactly if both hold, or at least one. The depth of the
two joined goes by whether the left one takes the right one in. Two chains with the same members
have predicates that hold of the same records, so joining is associative in meaning. -/
theorem Condition.and_or_meaning {catalog : Catalog} {c d : Condition} {p q : Predicate}
    (hc : catalog.predicate c = .ok p) (hd : catalog.predicate d = .ok q) :
    (∃ both, catalog.predicate (c.and d) = .ok both ∧
      ∀ record, both.holds record = (p.holds record && q.holds record)) ∧
    (∃ either, catalog.predicate (c.or d) = .ok either ∧
      ∀ record, either.holds record = (p.holds record || q.holds record)) ∧
    ((c.and d).depth =
      if c.Absorbs .and then max c.depth (1 + d.depth) else 1 + max c.depth d.depth) ∧
    ((c.or d).depth =
      if c.Absorbs .or then max c.depth (1 + d.depth) else 1 + max c.depth d.depth) ∧
    ∀ (op : Connective) (chain other : Chain) (parts : List Predicate),
      chain.members = other.members → catalog.predicates chain.members = .ok parts →
        ∃ first second, catalog.predicate (chain.joined op) = .ok first ∧
          catalog.predicate (other.joined op) = .ok second ∧
          ∀ record, first.holds record = second.holds record := by
  refine ⟨?_, ?_, depth_combine .and c d, depth_combine .or c d, ?_⟩
  · obtain ⟨both, hboth, hmeans⟩ := Catalog.exists_predicate_combine .and hc hd
    refine ⟨both, hboth, fun record => ?_⟩
    rw [Bool.eq_iff_iff, Bool.and_eq_true]
    exact hmeans record
  · obtain ⟨either, heither, hmeans⟩ := Catalog.exists_predicate_combine .or hc hd
    refine ⟨either, heither, fun record => ?_⟩
    rw [Bool.eq_iff_iff, Bool.or_eq_true]
    exact hmeans record
  · intro op chain other parts hsame hparts
    obtain ⟨first, hfirst, hmeans⟩ := Chain.exists_predicate_joined op hparts
    obtain ⟨second, hsecond, hother⟩ := Chain.exists_predicate_joined op (hsame ▸ hparts)
    refine ⟨first, second, hfirst, hsecond, fun record => ?_⟩
    rw [Bool.eq_iff_iff, hmeans, hother]

namespace Sample

/-- A node written in capitals. -/
def shouted : Condition :=
  .compound "AND" [.leaf "transaction_name" "like" (.text "cafe")]

/-- A leaf. -/
def large : Condition :=
  .leaf "transaction_amount" ">" (.int 10)

end Sample

/-- A node in capitals takes a leaf in by `and`, and by `or` it is put next to it. -/
theorem Condition.and_or_meaning_shouted :
    ∃ p q both either, (Transaction.catalog {}).predicate Sample.shouted = .ok p ∧
      (Transaction.catalog {}).predicate Sample.large = .ok q ∧
      (Transaction.catalog {}).predicate (Sample.shouted.and Sample.large) = .ok both ∧
      (∀ record, both.holds record = (p.holds record && q.holds record)) ∧
      (Transaction.catalog {}).predicate (Sample.shouted.or Sample.large) = .ok either ∧
      (∀ record, either.holds record = (p.holds record || q.holds record)) ∧
      (Sample.shouted.and Sample.large).depth = 1 ∧ (Sample.shouted.or Sample.large).depth = 2 := by
  have hc : (Transaction.catalog {}).predicate Sample.shouted =
      .ok (.contains Transaction.name "cafe") := rfl
  have hd : (Transaction.catalog {}).predicate Sample.large =
      .ok (.compare Transaction.amount .gt (.decimal (Binary64.ofInt 10))) := rfl
  obtain ⟨⟨both, hboth, hand⟩, ⟨either, heither, hor⟩, handDepth, horDepth, -⟩ :=
    Condition.and_or_meaning hc hd
  refine ⟨_, _, both, either, hc, hd, hboth, hand, heither, hor, ?_, ?_⟩
  · rw [handDepth, if_pos (by decide +kernel)]
    decide
  · rw [horDepth, if_neg (by decide +kernel)]
    decide

end Bookkeeping
