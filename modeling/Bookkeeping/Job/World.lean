import Bookkeeping.Job

/-!
# Running jobs

A world is a store together with the calls made so far. Running a job answers its calls in
order and keeps the world of the last call, also when the job fails. An outage says which
store calls fail, in view of the calls before them; such a call leaves the store as it is.
-/

namespace Bookkeeping

/-- The kinds of store calls. -/
inductive Operation where
  | pin
  | count
  | records
  | updateAll
  | updateEach
  deriving DecidableEq

/-- Which store calls fail, and with what message, given the calls before, latest first. -/
abbrev Outage := List Operation → Operation → Option String

/-- The store never fails. -/
def Outage.none : Outage := fun _ _ => Option.none

/-- Every call of one kind fails after the first few. -/
def Outage.after (on : Operation) (allowed : Nat) (message : String) : Outage :=
  fun earlier op =>
    if op = on ∧ allowed ≤ earlier.count on then some message else Option.none

/-- A store and the calls made so far, latest first. -/
structure World where
  store : Store
  calls : List Operation := []
  requests : List EnrichmentRequest := []

namespace World

variable {α : Type}

/-- Answers a store call, or lets it fail. -/
def useStore (outage : Outage) (world : World) (op : Operation)
    (use : Store → Except StoreError (α × Store)) : Except Failure α × World :=
  let counted := { world with calls := op :: world.calls }
  match outage world.calls op with
  | some message => (.error (.store (.failed message)), counted)
  | none =>
    match use world.store with
    | .ok (answer, store) => (.ok answer, { counted with store })
    | .error cause => (.error (.store cause), counted)

/-- Answers a call that leaves the store as it is. -/
def readStore (outage : Outage) (world : World) (op : Operation)
    (read : Store → Except StoreError α) : Except Failure α × World :=
  world.useStore outage op fun store => (read store).map (·, store)

/-- Passes a request to a provider. -/
def askProvider (world : World) (provider : Provider) (request : EnrichmentRequest) :
    Except Failure (List Suggestion) × World :=
  ((provider world.requests request).mapError .provider,
    { world with requests := request :: world.requests })

/-- Answers one call. -/
def answer (outage : Outage) (world : World) :
    (call : Call) → Except Failure call.Answer × World
  | .pin collection => world.readStore outage .pin (·.pin collection)
  | .count collection => world.readStore outage .count (·.count collection)
  | .records collection => world.readStore outage .records (·.snapshots collection)
  | .updateAll collection column value source =>
    world.useStore outage .updateAll (·.updateAll collection column value source)
  | .updateEach collection column writes source =>
    world.useStore outage .updateEach (·.updateEach collection column writes source)
  | .suggest provider request => world.askProvider provider request

end World

/-- Runs a job to its end. -/
def Job.run {α : Type} (outage : Outage) : Job α → World → Except Failure α × World
  | .done result, world => (.ok result, world)
  | .fail cause, world => (.error cause, world)
  | .ask call next, world =>
    match world.answer outage call with
    | (.ok answer, after) => (next answer).run outage after
    | (.error cause, after) => (.error cause, after)

end Bookkeeping
