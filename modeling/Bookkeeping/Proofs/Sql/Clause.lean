import Bookkeeping.Predicate.Sql
import Bookkeeping.Proofs.Predicate
import Bookkeeping.Proofs.Sql.Grammar
import Mathlib.Data.List.Forall2

/-!
# What the clause of a predicate says

The clause of a predicate, read as SQL, says of every record what the predicate says of it. Every
part of the clause stands in parentheses or is an atom, so that the clause is an operand wherever it
stands; whatever names the columns have, quoting keeps each in one token.
-/

namespace Bookkeeping

open Sql (Keyword Token Expression Lexes Level Derives)

/-- No comparison in the predicate is made with `like`, for which there is a restriction of its
own. -/
inductive Predicate.Proper : Predicate → Prop
  | all : Proper .all
  | compare {column : Column} {op : Operator} {value : Value} (h : op ≠ .like) :
      Proper (.compare column op value)
  | like (column : Column) (pattern : String) : Proper (.like column pattern)
  | allOf {parts : List Predicate} (h : ∀ part ∈ parts, Proper part) : Proper (.allOf parts)
  | anyOf {parts : List Predicate} (h : ∀ part ∈ parts, Proper part) : Proper (.anyOf parts)

namespace Sql

/-- Lists of tokens joined by a keyword, in parentheses. -/
def joinTokens (keyword constant : Keyword) : List (List Token) → List Token
  | [] => [.word constant]
  | first :: others =>
    .opening :: ((first ++ others.flatMap (.word keyword :: ·)) ++ [.closing])

/-- Expressions joined from left to right. -/
def joinExpressions (join : Expression → Expression → Expression) (constant : Expression) :
    List Expression → Expression
  | [] => constant
  | first :: others => others.foldl join first

private theorem holds_joinExpressions_and (binds : List Value) (record : Column → Option Value)
    (parts : List Expression) :
    (joinExpressions .and (.constant true) parts).holds binds record =
      parts.all (·.holds binds record) := by
  have hfold (others : List Expression) (first : Expression) :
      (others.foldl .and first).holds binds record =
        (first.holds binds record && others.all (·.holds binds record)) := by
    induction others generalizing first with
    | nil => simp
    | cons next others ih =>
      rw [List.foldl_cons, ih, Expression.holds, List.all_cons, Bool.and_assoc]
  cases parts with
  | nil => rfl
  | cons first others => exact hfold others first

private theorem holds_joinExpressions_or (binds : List Value) (record : Column → Option Value)
    (parts : List Expression) :
    (joinExpressions .or (.constant false) parts).holds binds record =
      parts.any (·.holds binds record) := by
  have hfold (others : List Expression) (first : Expression) :
      (others.foldl .or first).holds binds record =
        (first.holds binds record || others.any (·.holds binds record)) := by
    induction others generalizing first with
    | nil => simp
    | cons next others ih =>
      rw [List.foldl_cons, ih, Expression.holds, List.any_cons, Bool.or_assoc]
  cases parts with
  | nil => rfl
  | cons first others => exact hfold others first

/-- A keyword that joins an operand to what stands before it joins a list of them one by one. -/
theorem derives_chain {level below : Level} {keyword : Keyword}
    {join : Expression → Expression → Expression}
    (hjoin : ∀ {before after : List Token} {left right : Expression}, Derives level before left →
      Derives below after right → Derives level (before ++ .word keyword :: after)
        (join left right))
    {others : List (List Token)} {rest : List Expression}
    (hothers : List.Forall₂ (Derives below) others rest) {first : List Token} {e : Expression}
    (hfirst : Derives level first e) :
    Derives level (first ++ others.flatMap (.word keyword :: ·)) (rest.foldl join e) := by
  induction hothers generalizing first e with
  | nil =>
    rw [List.flatMap_nil, List.append_nil]
    exact hfirst
  | cons hnext _ ih =>
    have hjoined := ih (hjoin hfirst hnext)
    rw [List.append_assoc] at hjoined
    exact hjoined

section Joined

variable {tokens : List (List Token)} {parts : List Expression}
  (h : List.Forall₂ (Derives .operand) tokens parts)
include h

/-- Operands joined by `AND`, in parentheses, are an operand. -/
theorem derives_joinTokens_and :
    Derives .operand (joinTokens .and .truth tokens)
      (joinExpressions .and (.constant true) parts) := by
  cases h with
  | nil => exact .truth
  | cons hfirst hothers =>
    have hchain := derives_chain .and hothers (.operand hfirst)
    exact .parenthesized (.conjunction hchain)

/-- Operands joined by `OR`, in parentheses, are an operand. -/
theorem derives_joinTokens_or :
    Derives .operand (joinTokens .or .falsity tokens)
      (joinExpressions .or (.constant false) parts) := by
  cases h with
  | nil => exact .falsity
  | cons hfirst hothers =>
    have hraised := hothers.imp fun _ _ => Derives.operand
    have hchain := derives_chain .or hraised (.conjunction (.operand hfirst))
    exact .parenthesized hchain

end Joined

end Sql

namespace Text

/-- The first of joined texts, and before each other one the separator. -/
theorem toList_joinWith_cons (separator first : String) (others : List String) :
    (joinWith separator (first :: others)).toList =
      first.toList ++ others.flatMap fun text => separator.toList ++ text.toList := by
  induction others generalizing first with
  | nil => simp [joinWith]
  | cons next others ih =>
    rw [joinWith, String.toList_append, String.toList_append, ih, List.flatMap_cons,
      List.append_assoc, List.append_assoc]

end Text

namespace Predicate

mutual

/-- The tokens of the predicate's clause, its placeholders numbered from `next`. -/
def tokensFrom (next : Nat) : Predicate → List Token
  | .all => [.word .truth]
  | .compare column op _ =>
    [.identifier column.table, .dot, .identifier column.name, .operator op, .placeholder next]
  | .like column _ =>
    [.identifier column.table, .dot, .identifier column.name, .word .ilike, .placeholder next,
      .word .escape, .literal "\\"]
  | .allOf parts => Sql.joinTokens .and .truth (partTokens next parts)
  | .anyOf parts => Sql.joinTokens .or .falsity (partTokens next parts)

/-- The tokens of the clauses of a list of predicates. -/
def partTokens (next : Nat) : List Predicate → List (List Token)
  | [] => []
  | part :: parts => tokensFrom next part :: partTokens (next + (binds part).length) parts

end

mutual

/-- The expression that the predicate's clause stands for. -/
def expressionFrom (next : Nat) : Predicate → Expression
  | .all => .constant true
  | .compare column op _ => .compare column op next
  | .like column _ => .ilike column next
  | .allOf parts => Sql.joinExpressions .and (.constant true) (partExpressions next parts)
  | .anyOf parts => Sql.joinExpressions .or (.constant false) (partExpressions next parts)

/-- The expressions that the clauses of a list of predicates stand for. -/
def partExpressions (next : Nat) : List Predicate → List Expression
  | [] => []
  | part :: parts => expressionFrom next part :: partExpressions (next + (binds part).length) parts

end

section Lexing

/-- Whatever name is quoted, it is one token. -/
theorem lexes_quoted (name : String) : Lexes (quoted name).toList [.identifier name] := by
  have hdoubled : (fun c : Char => if c = '"' then ['"', '"'] else [c]) =
      fun c => if c = Sql.Quote.double.char then [c, c] else [c] := by
    funext c
    by_cases hc : c = '"'
    · simp [hc, Sql.Quote.char]
    · simp [hc, Sql.Quote.char]
  have htext : (quoted name).toList = '"' :: ((name.toList.flatMap fun c =>
      if c = Sql.Quote.double.char then [c, c] else [c]) ++ ['"']) := by
    simp [quoted, hdoubled]
  rw [htext]
  exact Sql.lexes_quoted .double name

private theorem lexes_quotedColumn (column : Column) : Lexes (quotedColumn column).toList
    [.identifier column.table, .dot, .identifier column.name] := by
  have htext : (quotedColumn column).toList =
      (quoted column.table).toList ++ '.' :: (quoted column.name).toList := by
    rw [quotedColumn, String.toList_append, String.toList_append, List.append_assoc]
    rfl
  rw [htext]
  exact (lexes_quoted column.table).dotted (lexes_quoted column.name)

private theorem lexes_placeholder (number : Nat) :
    Lexes (placeholder number).toList [.placeholder number] := by
  have htext : (placeholder number).toList = '$' :: Text.natDigits number := by
    simp [placeholder, Text.natText]
  rw [htext]
  exact Sql.lexes_placeholder number

private theorem lexes_compare (column : Column) {op : Operator} (hop : op ≠ .like) (value : Value)
    (next : Nat) : Lexes ((compare column op value).clauseFrom next).toList
      ((compare column op value).tokensFrom next) := by
  have htext : ((compare column op value).clauseFrom next).toList = (quotedColumn column).toList ++
      ' ' :: (op.key.toList ++ ' ' :: (placeholder next).toList) := by
    simp [clauseFrom]
  rw [htext, tokensFrom]
  exact (lexes_quotedColumn column).blank
    ((Sql.lexes_operator hop).blank (lexes_placeholder next))

private theorem lexes_like (column : Column) (pattern : String) (next : Nat) :
    Lexes ((like column pattern).clauseFrom next).toList
      ((like column pattern).tokensFrom next) := by
  have htext : ((like column pattern).clauseFrom next).toList = (quotedColumn column).toList ++
      ' ' :: (Keyword.ilike.spelling ++ ' ' :: ((placeholder next).toList ++
        ' ' :: (Keyword.escape.spelling ++ ' ' :: ['\'', '\\', '\'']))) := by
    simp [clauseFrom, Keyword.spelling]
  rw [htext, tokensFrom]
  exact (lexes_quotedColumn column).blank ((Sql.lexes_keyword .ilike).blank
    ((lexes_placeholder next).blank ((Sql.lexes_keyword .escape).blank
      (Sql.lexes_quoted .single "\\"))))

/-- Clauses joined by a keyword are divided as the clauses are. -/
theorem lexes_joinClauses {keyword constant : Keyword} {clauses : List String}
    {tokens : List (List Token)} {separator empty : String}
    (hseparator : separator.toList = ' ' :: (keyword.spelling ++ [' ']))
    (hempty : empty.toList = constant.spelling)
    (h : List.Forall₂ (fun clause tokens => Lexes clause.toList tokens) clauses tokens) :
    Lexes (joinClauses separator empty clauses).toList
      (Sql.joinTokens keyword constant tokens) := by
  have hchain {others : List String} {rest : List (List Token)}
      (hothers : List.Forall₂ (fun clause tokens => Lexes clause.toList tokens) others rest)
      {first : List Char} {before : List Token} (hfirst : Lexes first before) :
      Lexes (first ++ others.flatMap fun text => separator.toList ++ text.toList)
        (before ++ rest.flatMap (.word keyword :: ·)) := by
    induction hothers generalizing first before with
    | nil =>
      rw [List.flatMap_nil, List.flatMap_nil, List.append_nil, List.append_nil]
      exact hfirst
    | cons hnext _ ih =>
      have hjoined := ih (hfirst.blank ((Sql.lexes_keyword keyword).blank hnext))
      simp only [List.flatMap_cons, hseparator, List.append_assoc, List.cons_append,
        List.nil_append] at hjoined ⊢
      exact hjoined
  cases h with
  | nil =>
    rw [joinClauses, hempty]
    exact Sql.lexes_keyword constant
  | cons hfirst hothers =>
    have htext (first : String) (others : List String) :
        (joinClauses separator empty (first :: others)).toList = '(' :: ((first.toList ++
          others.flatMap fun text => separator.toList ++ text.toList) ++ [')']) := by
      simp [joinClauses, Text.toList_joinWith_cons]
    rw [htext]
    exact (hchain hothers hfirst).parenthesized

/-- The clauses of a list of predicates are divided one by one. -/
theorem lexes_parts {parts : List Predicate}
    (h : ∀ part ∈ parts, ∀ next, Lexes (part.clauseFrom next).toList (part.tokensFrom next))
    (next : Nat) :
    List.Forall₂ (fun clause tokens => Lexes clause.toList tokens) (partClauses next parts)
      (partTokens next parts) := by
  induction parts generalizing next with
  | nil => exact .nil
  | cons part parts ih =>
    obtain ⟨hpart, hparts⟩ := List.forall_mem_cons.1 h
    exact .cons (hpart next) (ih hparts _)

/-- The clause of a predicate is divided into its tokens. -/
theorem lexes_clauseFrom {p : Predicate} (h : p.Proper) (next : Nat) :
    Lexes (p.clauseFrom next).toList (p.tokensFrom next) := by
  induction p using part_induction generalizing next with
  | all =>
    rw [clauseFrom, tokensFrom]
    exact Sql.lexes_keyword .truth
  | compare column op value =>
    cases h with
    | compare hop => exact lexes_compare column hop value next
  | like column pattern => exact lexes_like column pattern next
  | allOf parts ih =>
    cases h with
    | allOf hparts =>
      exact lexes_joinClauses rfl rfl
        (lexes_parts (fun part hpart => ih part hpart (hparts part hpart)) next)
  | anyOf parts ih =>
    cases h with
    | anyOf hparts =>
      exact lexes_joinClauses rfl rfl
        (lexes_parts (fun part hpart => ih part hpart (hparts part hpart)) next)

end Lexing

/-- The tokens of the parts' clauses are operands one by one. -/
theorem derives_parts {parts : List Predicate}
    (h : ∀ part ∈ parts, ∀ next, Derives .operand (part.tokensFrom next)
      (part.expressionFrom next)) (next : Nat) :
    List.Forall₂ (Derives .operand) (partTokens next parts) (partExpressions next parts) := by
  induction parts generalizing next with
  | nil => exact .nil
  | cons part parts ih =>
    obtain ⟨hpart, hparts⟩ := List.forall_mem_cons.1 h
    exact .cons (hpart next) (ih hparts _)

/-- The tokens of the clause stand for the expression, and nothing around them can change that. -/
theorem derives_tokensFrom (p : Predicate) (next : Nat) :
    Derives .operand (p.tokensFrom next) (p.expressionFrom next) := by
  induction p using part_induction generalizing next with
  | all => exact .truth
  | compare column op value => exact .compare column op next
  | like column pattern => exact .ilike column next
  | allOf parts ih => exact Sql.derives_joinTokens_and (derives_parts ih next)
  | anyOf parts ih => exact Sql.derives_joinTokens_or (derives_parts ih next)

/-- A placeholder finds the value that stands at its number. -/
theorem bound?_append (before after : List Value) (value : Value) :
    Sql.bound? (before ++ value :: after) (before.length + 1) = some value := by
  simp [Sql.bound?]

/-- The expressions of the parts hold as the parts do, each with the values of its own. -/
theorem map_holds_partExpressions {record : Column → Option Value} {parts : List Predicate}
    (h : ∀ part ∈ parts, ∀ before after : List Value,
      (part.expressionFrom (before.length + 1)).holds (before ++ (part.binds ++ after)) record =
        part.holds record) (before after : List Value) :
    (partExpressions (before.length + 1) parts).map
        (·.holds (before ++ (partBinds parts ++ after)) record) =
      parts.map (·.holds record) := by
  induction parts generalizing before with
  | nil => rfl
  | cons part parts ih =>
    obtain ⟨hpart, hparts⟩ := List.forall_mem_cons.1 h
    have hfirst := hpart before (partBinds parts ++ after)
    have hothers := ih hparts (before ++ part.binds)
    rw [List.length_append, Nat.add_right_comm, List.append_assoc] at hothers
    rw [partExpressions, partBinds, List.map_cons, List.map_cons, List.append_assoc, hfirst,
      hothers]

/-- The expression of a predicate holds as the predicate does, whatever values are bound before and
after its own. -/
theorem holds_expressionFrom (record : Column → Option Value) (p : Predicate)
    (before after : List Value) :
    (p.expressionFrom (before.length + 1)).holds (before ++ (p.binds ++ after)) record =
      p.holds record := by
  induction p using part_induction generalizing before after with
  | all => rw [expressionFrom, Expression.holds, holds]
  | compare column op value =>
    rw [expressionFrom, Expression.holds, binds, List.singleton_append, bound?_append, holds]
    rfl
  | like column pattern =>
    rw [expressionFrom, Expression.holds, binds, List.singleton_append, bound?_append, holds]
    rfl
  | allOf parts ih =>
    have hparts := map_holds_partExpressions ih before after
    have hall := congrArg (List.all · id) hparts
    rw [List.all_map, List.all_map] at hall
    rw [expressionFrom, Sql.holds_joinExpressions_and, binds, holds, holdsAll_eq]
    exact hall
  | anyOf parts ih =>
    have hparts := map_holds_partExpressions ih before after
    have hany := congrArg (List.any · id) hparts
    rw [List.any_map, List.any_map] at hany
    rw [expressionFrom, Sql.holds_joinExpressions_or, binds, holds, holdsAny_eq]
    exact hany

/-- **Clauses say what predicates say.** The clause of a predicate is, as a whole, an expression of
the grammar, and of one expression only. With the predicate's binds that expression holds of the
records that satisfy the predicate, and of no others. -/
theorem toSql_reads {p : Predicate} (h : p.Proper) :
    ∃ e, (∀ other, Sql.Reads p.toSql.clause other ↔ other = e) ∧
      ∀ record, e.holds p.toSql.binds record = p.holds record := by
  have hreads : Sql.Reads p.toSql.clause (p.expressionFrom 1) :=
    ⟨p.tokensFrom 1, (lexes_clauseFrom h 1).tokens?_eq,
      .conjunction (.operand (derives_tokensFrom p 1))⟩
  refine ⟨p.expressionFrom 1, fun other => ⟨fun hother => hother.unique hreads, ?_⟩, ?_⟩
  · rintro rfl
    exact hreads
  · intro record
    have hholds := holds_expressionFrom record p [] []
    rw [List.append_nil, List.nil_append] at hholds
    exact hholds

end Predicate

/-- A predicate on columns whose names have quotes and keywords in them, or are empty, with joints
of none and of one. -/
def Sample.quoting : Predicate :=
  .anyOf [.anyOf [], .compare ⟨"a\"b", "x AND y"⟩ .gte (.int 3),
    .allOf [.like ⟨"", "OR"⟩ "%50\\%%"]]

/-- Its clause says what it says. -/
theorem Predicate.toSql_reads_quoting :
    Sample.quoting.toSql.clause = "(FALSE OR \"a\"\"b\".\"x AND y\" >= $1 OR " ++
      "(\"\".\"OR\" ILIKE $2 ESCAPE '\\'))" ∧
    ∃ e, (∀ other, Sql.Reads Sample.quoting.toSql.clause other ↔ other = e) ∧
      ∀ record, e.holds [.int 3, .text "%50\\%%"] record = Sample.quoting.holds record := by
  have hproper : Sample.quoting.Proper := by
    refine .anyOf fun part hpart => ?_
    simp only [List.mem_cons, List.not_mem_nil, or_false] at hpart
    rcases hpart with rfl | rfl | rfl
    · exact .anyOf (by simp)
    · exact .compare (by decide)
    · refine .allOf fun part hpart => ?_
      rw [List.mem_singleton.1 hpart]
      exact .like _ _
  exact ⟨by decide +kernel, Predicate.toSql_reads hproper⟩

end Bookkeeping
