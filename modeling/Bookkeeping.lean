import Bookkeeping.Json.Form
import Bookkeeping.Json.Restored
import Bookkeeping.Predicate.Sql
import Bookkeeping.Rule.Application
import Bookkeeping.RuleText.File
import Bookkeeping.Proofs.Bind
import Bookkeeping.Proofs.Condition.Predicate
import Bookkeeping.Proofs.Like
import Bookkeeping.Proofs.Like.Pieces
import Bookkeeping.Proofs.Like.Course
import Bookkeeping.Proofs.Condition.Satisfaction
import Bookkeeping.Proofs.Condition.Joins
import Bookkeeping.Proofs.Store.Reading
import Bookkeeping.Proofs.Rule.Coverage
import Bookkeeping.Proofs.Condition.Admission
import Bookkeeping.Proofs.Job.Run
import Bookkeeping.Proofs.Job.Failure
import Bookkeeping.Proofs.Rule.Application
import Bookkeeping.Proofs.Job.Interleaving
import Bookkeeping.Proofs.Condition.Rebuilding
import Bookkeeping.Proofs.Condition.Flattening
import Bookkeeping.Proofs.Condition.RoundTrip
import Bookkeeping.Proofs.Condition.Renumbering
import Bookkeeping.Proofs.Condition.Numbering
import Bookkeeping.Proofs.Job.Confinement
import Bookkeeping.Proofs.Rule.Isolation
import Bookkeeping.Proofs.Binary64.Nearest
import Bookkeeping.Proofs.RuleText.Grammar
import Bookkeeping.Proofs.RuleText.Reader
import Bookkeeping.Proofs.RuleText.Layout
import Bookkeeping.Proofs.RuleText.Literal
import Bookkeeping.Proofs.RuleText.Condition
import Bookkeeping.Proofs.RuleText.Rule
import Bookkeeping.Proofs.Rule.Refusal
import Bookkeeping.Proofs.Rule.Batch
import Bookkeeping.Proofs.Rule.Visibility
import Bookkeeping.Proofs.Rule.Vocabulary
import Bookkeeping.Proofs.Rule.Reapplication
import Bookkeeping.Proofs.Sql.Token
import Bookkeeping.Proofs.Sql.Grammar
import Bookkeeping.Proofs.Sql.Clause
import Bookkeeping.Proofs.Sql.Values
import Bookkeeping.Proofs.Job.History
import Bookkeeping.Proofs.Job.Pins
import Bookkeeping.Proofs.Rule.Enrichment
import Bookkeeping.Proofs.Job.Steadiness
import Bookkeeping.Proofs.Rule.Concurrency
import Bookkeeping.Proofs.Date.Text
import Bookkeeping.Proofs.Json.RoundTrip
import Bookkeeping.Proofs.Json.Meaning
import Bookkeeping.Proofs.Condition.Faults
import Bookkeeping.Proofs.RuleText.Place
import Bookkeeping.Proofs.RuleText.Concatenation
import Bookkeeping.Proofs.RuleText.Shape
import Bookkeeping.Proofs.Job.Uses
import Bookkeeping.Proofs.Job.Joins
import Bookkeeping.Proofs.Rule.Joins
import Bookkeeping.Proofs.Rule.Narrowing
import Bookkeeping.Proofs.Binary64.Magnitude
import Bookkeeping.Proofs.Binary64.Rounds
import Bookkeeping.Proofs.Condition.Chaining
import Bookkeeping.Proofs.Binary64.Integers
import Bookkeeping.Proofs.Binary64.Numeral
import Bookkeeping.Proofs.Date.Spelling
import Bookkeeping.Proofs.Value.Amount
import Bookkeeping.Proofs.Value.WholeNumber
