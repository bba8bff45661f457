import Bookkeeping.Catalog

/-!
# Enrichment providers

A provider decides the value of an enrichment action for each record. It sees the records
whose column may be written and answers with suggestions, or not at all. What it suggests
outside a closed list of values is never written.
-/

namespace Bookkeeping

/-- What a provider is asked. -/
structure EnrichmentRequest where
  actionType : String
  /-- The column the suggestions are for. -/
  column : Column
  /-- The value of the action, as an instruction. -/
  directive : Value
  records : List Snapshot
  options : Option (List SelectOption)

/-- A value for one record. -/
structure Suggestion where
  record : Nat
  value : Value

/-- Why a provider does not answer. -/
inductive ProviderError where
  | unavailable (reason : String)
  | rejected (reason : String)
  deriving DecidableEq

/-- The wording of a failure. -/
def ProviderError.message : ProviderError → String
  | .unavailable reason => "enrichment provider unavailable: " ++ reason
  | .rejected reason => "enrichment provider rejected the request: " ++ reason

/-- A provider answers a request in view of the requests before it, latest first. -/
abbrev Provider :=
  List EnrichmentRequest → EnrichmentRequest → Except ProviderError (List Suggestion)

end Bookkeeping
