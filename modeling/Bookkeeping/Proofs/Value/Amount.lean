import Bookkeeping.Proofs.Binary64.Integers
import Bookkeeping.Proofs.Condition.Satisfaction
import Bookkeeping.Proofs.Text.Numeral

/-!
# Whole amounts

A condition on the amount compares decimals, so a whole amount and a whole number are both rounded
before they are compared. They compare as integers, unless they are different ones that are rounded
to the same decimal.
-/

namespace Bookkeeping

namespace Operator

/-- What an operator says of two integers. -/
def Relates : Operator → Int → Int → Prop
  | .like, _, _ => False
  | .eq, a, b => a = b
  | .gt, a, b => a > b
  | .gte, a, b => a ≥ b
  | .lt, a, b => a < b
  | .lte, a, b => a ≤ b

instance (op : Operator) (a b : Int) : Decidable (op.Relates a b) :=
  match op with
  | .like => inferInstanceAs (Decidable False)
  | .eq => inferInstanceAs (Decidable (a = b))
  | .gt => inferInstanceAs (Decidable (a > b))
  | .gte => inferInstanceAs (Decidable (a ≥ b))
  | .lt => inferInstanceAs (Decidable (a < b))
  | .lte => inferInstanceAs (Decidable (a ≤ b))

private theorem accepts?_compare_iff {op : Operator} {a b : Int} :
    op.accepts? (compare a b) = some true ↔ op.Relates a b := by
  rcases Int.lt_trichotomy a b with h | rfl | h
  · rw [compare_lt_iff_lt.2 h]
    cases op <;> simp [accepts?, Relates] <;> omega
  · rw [compare_eq_iff_eq.2 rfl]
    cases op <;> simp [accepts?, Relates]
  · rw [compare_gt_iff_gt.2 h]
    cases op <;> simp [accepts?, Relates] <;> omega

/-- The operators that accept equal values. -/
theorem accepts?_eq_iff {op : Operator} :
    op.accepts? .eq = some true ↔ op ∈ [.eq, .gte, .lte] := by
  cases op <;> decide

end Operator

namespace Value

/-- A 64-bit integer, or the digits of one, is a number of the decimal kind: the one that the
integer is rounded to. -/
theorem number?_decimal_of_integer {n : Int64} {value : Value}
    (h : value = .int n ∨ value = .text (Text.intText n.toInt)) :
    value.number? .decimal = some (.decimal (Binary64.ofInt n.toInt)) := by
  rcases h with rfl | rfl
  · rfl
  · have hform := Text.integerForm_intText n.toInt
    simp only [number?, hform.trim_eq, Text.readInt64?_eq_some_iff.2 hform, ofInt64]

/-- A 64-bit integer and a rounded one compare as the two do when both are rounded. -/
theorem compare?_int_decimal {m n : Int64} {op : Operator} :
    (Value.int m).compare? op (.decimal (Binary64.ofInt n.toInt)) =
      op.accepts? (if Binary64.ofInt m.toInt = Binary64.ofInt n.toInt then .eq
        else compare m.toInt n.toInt) := by
  rw [compare?, order?, Binary64.compare?_ofInt, Option.bind_some]

end Value

namespace Transaction

/-- A condition on the amount compares the amount with the number of its value. -/
theorem predicate_amount {vocabulary : Vocabulary} {op : Operator} (hop : op ≠ .like)
    {value number : Value} (hnumber : value.number? .decimal = some number) :
    (catalog vocabulary).predicate (.leaf "transaction_amount" op.key value) =
      .ok (.compare amount op number) := by
  have htype : (catalog vocabulary).conditionType "transaction_amount" = .ok amountCondition :=
    conditionType_eq_ok_iff.2 (.inr (.inl ⟨rfl, rfl⟩))
  refine Catalog.predicate_leaf_eq_ok_iff.2 ⟨amountCondition, htype, ?_⟩
  refine ConditionType.build_eq_ok_iff.2 ⟨op, ?_, rfl, number, hnumber, rfl, ?_⟩
  · cases op with
    | like => exact absurd rfl hop
    | _ => decide
  · cases op with
    | like => exact absurd rfl hop
    | _ => rfl

/-- **Whole amounts.** Let the amount of a record be a whole number of 64 bits, and the value of a
condition another one, or its digits. The record satisfies the condition exactly if the two stand to
each other as the operator says. Only different ones that are rounded to the same decimal are taken
for equal; these are both beyond `2 ^ 53` and at most 1024 apart. -/
theorem wholeAmount_matches_iff {vocabulary : Vocabulary} {op : Operator} (hop : op ≠ .like)
    {m n : Int64} {value : Value} (hvalue : value = .int n ∨ value = .text (Text.intText n.toInt))
    {record : Column → Option Value} (hrecord : record amount = some (.int m)) :
    ∃ p, (catalog vocabulary).predicate (.leaf "transaction_amount" op.key value) = .ok p ∧
      (m = n ∨ Binary64.ofInt m.toInt ≠ Binary64.ofInt n.toInt →
        (p.holds record = true ↔ op.Relates m.toInt n.toInt)) ∧
      (m ≠ n → Binary64.ofInt m.toInt = Binary64.ofInt n.toInt →
        (p.holds record = true ↔ op ∈ [.eq, .gte, .lte]) ∧
          2 ^ 53 ≤ m.toInt.natAbs ∧ 2 ^ 53 ≤ n.toInt.natAbs ∧
            (m.toInt - n.toInt).natAbs ≤ 1024) := by
  refine ⟨_, predicate_amount hop (Value.number?_decimal_of_integer hvalue), ?_⟩
  rw [Predicate.holds, comparison_iff, hrecord]
  simp only [Option.some.injEq, exists_eq_left', Value.compare?_int_decimal]
  refine ⟨fun hexact => ?_, fun hne hsame => ⟨?_, ?_⟩⟩
  · have hcompare : (if Binary64.ofInt m.toInt = Binary64.ofInt n.toInt then .eq
        else compare m.toInt n.toInt) = compare m.toInt n.toInt := by
      rcases hexact with rfl | hdifferent
      · rw [if_pos rfl, compare_eq_iff_eq.2 rfl]
      · exact if_neg hdifferent
    rw [hcompare, Operator.accepts?_compare_iff]
  · rw [if_pos hsame, Operator.accepts?_eq_iff]
  · have hbound (k : Int64) : k.toInt.natAbs ≤ 2 ^ 63 := by
      have hlow := k.le_toInt
      have hhigh := k.toInt_lt
      omega
    exact Binary64.bounds_of_ofInt_eq hsame (fun h => hne (Int64.toInt_inj.1 h)) (hbound m)
      (hbound n)

end Transaction

namespace Sample

/-- A record that holds an amount and nothing else. -/
def paid (n : Int64) : Column → Option Value :=
  fun column => if column = Transaction.amount then some (.int n) else none

end Sample

namespace Transaction

/-- Four more than `2 ^ 53` and one more than it are rounded to different decimals. -/
theorem wholeAmount_matches_iff_digits :
    ∃ p, (catalog {}).predicate (.leaf "transaction_amount" "<" (.text "9007199254740996")) =
        .ok p ∧ p.holds (Sample.paid 9007199254740993) = true := by
  have hdifferent : Binary64.ofInt (9007199254740993 : Int64).toInt ≠
      Binary64.ofInt (9007199254740996 : Int64).toInt := by decide +kernel
  obtain ⟨p, hp, hholds, -⟩ := @wholeAmount_matches_iff {} .lt (by decide) 9007199254740993
    9007199254740996 (.text "9007199254740996") (.inr (by decide +kernel))
    (Sample.paid 9007199254740993) rfl
  refine ⟨p, hp, (hholds (.inr hdifferent)).2 ?_⟩
  decide

/-- One more than `2 ^ 53` is taken for `2 ^ 53`, and not for more. -/
theorem wholeAmount_matches_neighbour :
    ∃ equal more,
      (catalog {}).predicate (.leaf "transaction_amount" "=" (.int 9007199254740992)) = .ok equal ∧
      (catalog {}).predicate (.leaf "transaction_amount" ">" (.int 9007199254740992)) = .ok more ∧
      equal.holds (Sample.paid 9007199254740993) = true ∧
      more.holds (Sample.paid 9007199254740993) = false ∧
      ¬Operator.eq.Relates (9007199254740993 : Int64).toInt (9007199254740992 : Int64).toInt ∧
      Operator.gt.Relates (9007199254740993 : Int64).toInt (9007199254740992 : Int64).toInt := by
  refine ⟨_, _, predicate_amount (show Operator.eq ≠ .like by decide) rfl,
    predicate_amount (show Operator.gt ≠ .like by decide) rfl, ?_, ?_, ?_, ?_⟩
  · decide +kernel
  · decide +kernel
  · decide
  · decide

end Transaction

end Bookkeeping
