import Bookkeeping.Job

/-!
# Reports

What applying a rule, or a batch of rules, has come to.
-/

namespace Bookkeeping

open Bookkeeping.Text

/-- How many records one action wrote. -/
structure ActionOutcome where
  actionType : String
  written : Nat

/-- What applying one rule has come to. -/
structure Report where
  rule : String
  /-- How many records the conditions matched, locked or not. -/
  matched : Nat
  /-- One outcome for each action, in order. -/
  outcomes : List ActionOutcome

namespace Report

/-- How many records the first action of a type wrote. -/
def written? (report : Report) (actionType : String) : Option Nat :=
  (report.outcomes.find? (·.actionType == actionType)).map (·.written)

/-- How many records all actions wrote together. -/
def totalWritten (report : Report) : Nat :=
  report.outcomes.foldr (fun outcome total => outcome.written + total) 0

/-- The report as it is shown. -/
def text (report : Report) : String :=
  let parts := report.outcomes.map fun outcome =>
    outcome.actionType ++ "=" ++ natText outcome.written
  "rule '" ++ report.rule ++ "': matched " ++ natText report.matched ++ ", written: [" ++
    Text.joinWith ", " parts ++ "]"

end Report

/-- A rule that a batch passed over. -/
structure SkippedRule where
  rule : String
  cause : Failure

/-- What a batch of rules has come to. -/
structure BatchReport where
  applied : List Report := []
  skipped : List SkippedRule := []
  /-- How many rules were left out because they are not active. -/
  inactive : Nat := 0

namespace BatchReport

/-- How many records all rules wrote together. -/
def totalWritten (batch : BatchReport) : Nat :=
  batch.applied.foldr (fun report total => report.totalWritten + total) 0

/-- The report as it is shown. -/
def text (batch : BatchReport) : String :=
  "applied: " ++ natText batch.applied.length ++ ", skipped: " ++ natText batch.skipped.length ++
    ", inactive: " ++ natText batch.inactive ++ ", written: " ++ natText batch.totalWritten

end BatchReport

end Bookkeeping
