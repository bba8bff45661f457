import Bookkeeping.Predicate
import Bookkeeping.Proofs.Sql.Token

/-!
# The grammar of expressions

What tokens stand for as a boolean expression: `AND` binds tighter than `OR`, both join from left
to right, and parentheses make an operand of a whole expression. No tokens stand for two different
expressions. This is shown with a reader that goes through the tokens once and keeps, for each
parenthesis that is open, what has been joined before it.
-/

namespace Bookkeeping.Sql

/-- A boolean expression over the columns of a record and the bound values. -/
inductive Expression where
  | constant (value : Bool)
  /-- The column compared with the value of a placeholder. -/
  | compare (column : Column) (op : Operator) (number : Nat)
  /-- The column matched, letter case aside, with the pattern of a placeholder, in which a backslash
  escapes. -/
  | ilike (column : Column) (number : Nat)
  | and (left right : Expression)
  | or (left right : Expression)

/-- The value of a placeholder. -/
def bound? (binds : List Value) : Nat → Option Value
  | 0 => none
  | number + 1 => binds[number]?

/-- Whether a bound value is a pattern that the stored value matches. -/
def matchesBound (stored : Option Value) : Option Value → Bool
  | some (.text pattern) => Predicate.likeness pattern stored
  | _ => false

/-- Whether a record satisfies the expression. An atom on a value that is missing, or that cannot be
compared, counts as not true. -/
def Expression.holds (binds : List Value) (record : Column → Option Value) : Expression → Bool
  | .constant value => value
  | .compare column op number =>
    (bound? binds number).any (Predicate.comparison op · (record column))
  | .ilike column number => matchesBound (record column) (bound? binds number)
  | .and left right => left.holds binds record && right.holds binds record
  | .or left right => left.holds binds record || right.holds binds record

/-- How tightly the parts of an expression are joined. -/
inductive Level where
  | operand
  | conjunction
  | disjunction

/-- The tokens stand for the expression. -/
inductive Derives : Level → List Token → Expression → Prop
  | truth : Derives .operand [.word .truth] (.constant true)
  | falsity : Derives .operand [.word .falsity] (.constant false)
  | compare (column : Column) (op : Operator) (number : Nat) : Derives .operand
      [.identifier column.table, .dot, .identifier column.name, .operator op, .placeholder number]
      (.compare column op number)
  | ilike (column : Column) (number : Nat) : Derives .operand
      [.identifier column.table, .dot, .identifier column.name, .word .ilike, .placeholder number,
        .word .escape, .literal "\\"]
      (.ilike column number)
  | parenthesized {tokens : List Token} {e : Expression} (h : Derives .disjunction tokens e) :
      Derives .operand (.opening :: (tokens ++ [.closing])) e
  | operand {tokens : List Token} {e : Expression} (h : Derives .operand tokens e) :
      Derives .conjunction tokens e
  | and {before after : List Token} {left right : Expression}
      (hleft : Derives .conjunction before left) (hright : Derives .operand after right) :
      Derives .conjunction (before ++ .word .and :: after) (.and left right)
  | conjunction {tokens : List Token} {e : Expression} (h : Derives .conjunction tokens e) :
      Derives .disjunction tokens e
  | or {before after : List Token} {left right : Expression}
      (hleft : Derives .disjunction before left) (hright : Derives .conjunction after right) :
      Derives .disjunction (before ++ .word .or :: after) (.or left right)

/-- The whole text, divided into tokens, stands for the expression. -/
def Reads (text : String) (e : Expression) : Prop :=
  ∃ tokens, tokens? text = some tokens ∧ Derives .disjunction tokens e

/-- What has been read before an operand, within the same parentheses. -/
structure Pending where
  /-- What the operand is an alternative to. -/
  disjunction : Option Expression := none
  /-- What the operand is joined to more tightly. -/
  conjunction : Option Expression := none

namespace Pending

/-- An expression joined to what stands before it. -/
def joined (join : Expression → Expression → Expression) :
    Option Expression → Expression → Expression
  | none, e => e
  | some before, e => join before e

mutual

/-- Reads on where an operand has to come. -/
def readOperand (pending : Pending) (outer : List Pending) : List Token → Option Expression
  | .word .truth :: rest =>
    readAfter pending.disjunction (joined .and pending.conjunction (.constant true)) outer rest
  | .word .falsity :: rest =>
    readAfter pending.disjunction (joined .and pending.conjunction (.constant false)) outer rest
  | .identifier table :: .dot :: .identifier name :: .operator op :: .placeholder number ::
      rest =>
    readAfter pending.disjunction
      (joined .and pending.conjunction (.compare ⟨table, name⟩ op number)) outer rest
  | .identifier table :: .dot :: .identifier name :: .word .ilike :: .placeholder number ::
      .word .escape :: .literal escape :: rest =>
    if escape = "\\" then
      readAfter pending.disjunction
        (joined .and pending.conjunction (.ilike ⟨table, name⟩ number)) outer rest
    else
      none
  | .opening :: rest => readOperand {} (pending :: outer) rest
  | _ => none

/-- Reads on after an operand, which ends a conjunction of a disjunction. -/
def readAfter (disjunction : Option Expression) (conjunction : Expression)
    (outer : List Pending) : List Token → Option Expression
  | [] => if outer.isEmpty then some (joined .or disjunction conjunction) else none
  | .word .and :: rest => readOperand ⟨disjunction, some conjunction⟩ outer rest
  | .word .or :: rest => readOperand ⟨some (joined .or disjunction conjunction), none⟩ outer rest
  | .closing :: rest =>
    match outer with
    | [] => none
    | pending :: outer =>
      readAfter pending.disjunction
        (joined .and pending.conjunction (joined .or disjunction conjunction)) outer rest
  | _ => none

end

/-- The reader passes tokens as what they stand for, whatever follows. -/
def Passes (tokens : List Token) (e : Expression) : Level → Prop
  | .operand => ∀ pending outer rest, readOperand pending outer (tokens ++ rest) =
      readAfter pending.disjunction (joined .and pending.conjunction e) outer rest
  | .conjunction => ∀ disjunction outer rest, readOperand ⟨disjunction, none⟩ outer
      (tokens ++ rest) = readAfter disjunction e outer rest
  | .disjunction => ∀ outer rest, ∃ disjunction conjunction,
      joined .or disjunction conjunction = e ∧
        readOperand {} outer (tokens ++ rest) = readAfter disjunction conjunction outer rest

private theorem passes_of_derives {level : Level} {tokens : List Token} {e : Expression}
    (h : Derives level tokens e) : Passes tokens e level := by
  induction h with
  | truth =>
    intro pending outer rest
    rfl
  | falsity =>
    intro pending outer rest
    rfl
  | compare column op number =>
    intro pending outer rest
    rfl
  | ilike column number =>
    intro pending outer rest
    rfl
  | parenthesized _ ih =>
    intro pending outer rest
    -- what is pending waits until the parenthesis is closed
    obtain ⟨disjunction, conjunction, rfl, hread⟩ := ih (pending :: outer) (.closing :: rest)
    rw [List.cons_append, List.append_assoc, List.singleton_append, readOperand, hread, readAfter]
  | operand _ ih =>
    intro disjunction outer rest
    exact ih ⟨disjunction, none⟩ outer rest
  | and _ _ hleft hright =>
    intro disjunction outer rest
    rw [List.append_assoc, List.cons_append, hleft, readAfter, hright]
    rfl
  | conjunction _ ih =>
    intro outer rest
    exact ⟨none, _, rfl, ih none outer rest⟩
  | or _ _ hleft hright =>
    intro outer rest
    obtain ⟨disjunction, conjunction, rfl, hread⟩ := hleft outer (.word .or :: (_ ++ rest))
    refine ⟨some _, _, rfl, ?_⟩
    rw [List.append_assoc, List.cons_append, hread, readAfter, hright]

end Pending

/-- A text stands for one expression at most. -/
theorem Reads.unique {text : String} {e other : Expression} (h : Reads text e)
    (hother : Reads text other) : e = other := by
  obtain ⟨tokens, htokens, hderives⟩ := h
  obtain ⟨otherTokens, hotherTokens, hotherDerives⟩ := hother
  obtain rfl := Option.some.inj (htokens.symm.trans hotherTokens)
  have hread {e : Expression} (h : Derives .disjunction tokens e) :
      Pending.readOperand {} [] tokens = some e := by
    obtain ⟨disjunction, conjunction, rfl, hread⟩ := Pending.passes_of_derives h [] []
    rw [List.append_nil] at hread
    rw [hread, Pending.readAfter]
    rfl
  exact Option.some.inj ((hread hderives).symm.trans (hread hotherDerives))

end Bookkeeping.Sql
