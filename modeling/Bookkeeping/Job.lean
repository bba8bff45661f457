import Bookkeeping.Provider
import Bookkeeping.RuleError
import Bookkeeping.Store

/-!
# Jobs

A job is a computation that calls the record store and the enrichment provider, one call at a
time, and goes on with each answer; a call that fails ends it. What a job asks for is data, so
one job can be run from start to end, against a store that fails from some call on, or taking
turns with other jobs and with edits by hand.
-/

namespace Bookkeeping

/-- Why a job ends without a result. -/
inductive Failure where
  | rule (cause : RuleError)
  | store (cause : StoreError)
  | provider (cause : ProviderError)
  deriving DecidableEq

/-- The wording of a failure is that of its cause. -/
def Failure.message : Failure → String
  | .rule cause => cause.message
  | .store cause => cause.message
  | .provider cause => cause.message

/-- One call to the store or to a provider. -/
inductive Call where
  | pin (collection : Collection)
  | count (collection : Collection)
  | records (collection : Collection)
  | updateAll (collection : Collection) (column : Column) (value : Value) (source : String)
  | updateEach (collection : Collection) (column : Column) (writes : List (Nat × Value))
      (source : String)
  | suggest (provider : Provider) (request : EnrichmentRequest)

/-- What a call that succeeds is answered with. Updates are answered with the number of records
written. -/
abbrev Call.Answer : Call → Type
  | .pin _ => Collection
  | .count _ => Nat
  | .records _ => List Snapshot
  | .updateAll .. => Nat
  | .updateEach .. => Nat
  | .suggest .. => List Suggestion

/-- A computation that makes calls. -/
inductive Job (α : Type) where
  | done (result : α)
  | fail (cause : Failure)
  | ask (call : Call) (next : call.Answer → Job α)

namespace Job

variable {α β : Type}

/-- The job that goes on with the result of another. -/
def bind : Job α → (α → Job β) → Job β
  | .done result, next => next result
  | .fail cause, _ => .fail cause
  | .ask call resume, next => .ask call fun answer => (resume answer).bind next

instance : Monad Job where
  pure := .done
  bind := bind

/-- The job of a single call. -/
def call (call : Call) : Job call.Answer :=
  .ask call .done

/-- A check of a rule as a job that makes no call. -/
def ofRule : Except RuleError α → Job α
  | .ok result => .done result
  | .error cause => .fail (.rule cause)

/-- What comes after a call comes after everything that its answer leads to. -/
@[simp]
theorem bind_ask (call : Call) (resume : call.Answer → Job α) (next : α → Job β) :
    (Job.ask call resume).bind next = .ask call fun answer => (resume answer).bind next :=
  rfl

end Job

end Bookkeeping
