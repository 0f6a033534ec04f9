import Mathlib.Data.Set.Basic
import Mathlib.Logic.Function.Basic
import SettlementRouter.Programs
import SettlementRouter.Provider
import SettlementRouter.Runs

/-! # The mock payout provider

`MockPayoutProvider` of `app/provider.py`.  What it answers for an id depends only
on the position the id was given when it was first initiated.  In memory the
position is a counter; with a session factory it is the identity value of the
row of the id, less one, and the outcome is read back from the row.

The durable path is a program over the statements of one transaction
(`durableOutcome`).  It is run in two ways: by one call after the other
(`MockTable.initiate`), and by any number of calls at once, of any instances of the
provider over one table (`durable`).
-/
namespace SettlementRouter

/-! ## Outcomes -/

/-- What the mock may raise. -/
inductive MockError where
  | runtimeError (message : String)
  | assertionError
  /-- The value is none of the enumeration. -/
  | valueError (value : String)
  | databaseError
  deriving DecidableEq

/-- The string a member of the enumeration stands for. -/
def ProviderResult.value : ProviderResult → String
  | .paid => "PAID"
  | .unpaid => "UNPAID"
  | .ambiguous => "AMBIGUOUS_503"

@[inherit_doc ProviderResult.value]
def ProviderLookup.value : ProviderLookup → String
  | .paid => "PAID"
  | .unpaid => "UNPAID"
  | .unknown => "UNKNOWN"
  | .notFound => "NOT_FOUND"
  | .processing => "PROCESSING"
  | .unavailable => "UNAVAILABLE"

/-- `ProviderResult(value)`. -/
def ProviderResult.ofValue (value : String) : Except MockError ProviderResult :=
  match [paid, unpaid, ambiguous].find? fun result => result.value = value with
  | some result => .ok result
  | none => .error (.valueError value)

/-- `ProviderLookup(value)`. -/
def ProviderLookup.ofValue (value : String) : Except MockError ProviderLookup :=
  match [paid, unpaid, unknown, notFound, processing, unavailable].find?
    fun lookup => lookup.value = value with
  | some lookup => .ok lookup
  | none => .error (.valueError value)

/-- What is kept for an operation: what `initiate` answers, what lookups say, and
whether `initiate` times out instead. -/
structure MockOutcome where
  submission : Option ProviderResult
  authority : ProviderLookup
  timesOut : Bool
  deriving DecidableEq

/-- How a call of `initiate` ends that raises nothing but `PayoutTimeout`. -/
inductive MockAnswer where
  | result (result : ProviderResult)
  | payoutTimeout
  deriving DecidableEq

/-- The end of `initiate`, once the outcome is known. -/
def MockOutcome.answer (outcome : MockOutcome) : Except MockError MockAnswer :=
  if outcome.timesOut then .ok .payoutTimeout
  else match outcome.submission with
    | some result => .ok (.result result)
    | none => .error .assertionError

/-- The arguments an instance is made with, the session factory apart. -/
structure MockPayoutProvider where
  outcomes : Option (List ProviderLookup)
  timeoutLookup : ProviderLookup
  loadMode : Bool

/-- `_ambiguous_authority`. -/
def ambiguousAuthority (position : ℕ) : ProviderLookup :=
  if position % 2 = 0 then .paid else .unpaid

/-- `_outcome_for_position`. -/
def MockPayoutProvider.outcomeForPosition (provider : MockPayoutProvider) (position : ℕ) :
    Except MockError MockOutcome :=
  if provider.loadMode then
    if position < 700 then .ok ⟨some .paid, .paid, false⟩
    else if position < 850 then .ok ⟨some .ambiguous, ambiguousAuthority position, false⟩
    else if position < 1000 then .ok ⟨none, ambiguousAuthority position, true⟩
    else .error (.runtimeError "load provider supports exactly 1000 unique operations")
  else match provider.outcomes with
    | some (first :: rest) =>
      let outcomes := first :: rest
      let outcome := outcomes.getD (position % outcomes.length) first
      if outcome = .unknown then .ok ⟨none, provider.timeoutLookup, true⟩
      else .ok ⟨some (if outcome = .paid then .paid else .unpaid), outcome, false⟩
    -- an empty tuple is as good as none
    | _ =>
      let position := position % 20
      if position < 14 then .ok ⟨some .paid, .paid, false⟩
      else if position < 17 then .ok ⟨some .ambiguous, ambiguousAuthority position, false⟩
      else .ok ⟨none, ambiguousAuthority position, true⟩

/-! ## In memory -/

/-- What the mock keeps without a database: the outcomes by id, and how many there are. -/
structure MockMemory where
  operations : UUID → Option MockOutcome
  operationCount : ℕ

/-- Nothing was initiated. -/
def MockMemory.empty : MockMemory := ⟨fun _ => none, 0⟩

/-- The locked part of `initiate`. -/
def MockMemory.initiate (provider : MockPayoutProvider) (memory : MockMemory)
    (settlementId : UUID) : Except MockError MockOutcome × MockMemory :=
  match memory.operations settlementId with
  | some stored => (.ok stored, memory)
  | none =>
    match provider.outcomeForPosition memory.operationCount with
    | .error error => (.error error, memory)
    | .ok stored =>
      (.ok stored, ⟨Function.update memory.operations settlementId (some stored),
        memory.operationCount + 1⟩)

/-- `lookup`, without a database. -/
def MockMemory.lookup (memory : MockMemory) (settlementId : UUID) : ProviderLookup :=
  match memory.operations settlementId with
  | some stored => stored.authority
  | none => .notFound

/-! ## In the database -/

/-- A row of `mock_provider_operations`. -/
structure MockProviderOperation where
  ordinal : ℕ
  submissionOutcome : String
  authoritativeOutcome : String
  deriving DecidableEq

/-- A statement of the durable mock. -/
inductive MockStatement where
  /-- With `on_conflict_do_nothing`, returning the ordinal. -/
  | insert (operationId : UUID) (submissionOutcome authoritativeOutcome : String)
  | update (operationId : UUID) (submissionOutcome authoritativeOutcome : String)
  | select (operationId : UUID)

/-- What a statement returns. -/
abbrev MockStatement.Reply : MockStatement → Type
  | insert _ _ _ => Option ℕ
  | update _ _ _ => Unit
  | select _ => Option MockProviderOperation

/-- A transaction of the durable mock. -/
abbrev MockProgram := Program MockStatement MockStatement.Reply MockError

/-- The value written for what `initiate` answers. -/
def MockOutcome.submissionValue (outcome : MockOutcome) : Except MockError String :=
  if outcome.timesOut then .ok "TIMEOUT"
  else match outcome.submission with
    | some submission => .ok submission.value
    | none => .error .assertionError

/-- The update of a row that was just inserted. -/
def allocate (provider : MockPayoutProvider) (settlementId : UUID) (ordinal : ℕ) :
    MockProgram Unit := do
  let outcome ← .ofExcept (provider.outcomeForPosition (ordinal - 1))
  let submissionValue ← .ofExcept outcome.submissionValue
  Program.call (MockStatement.update settlementId submissionValue outcome.authority.value)

/-- What is read back from a row. -/
def MockProviderOperation.outcome (operation : MockProviderOperation) :
    Except MockError MockOutcome := do
  let authority ← ProviderLookup.ofValue operation.authoritativeOutcome
  if operation.submissionOutcome = "TIMEOUT" then return ⟨none, authority, true⟩
  let submission ← ProviderResult.ofValue operation.submissionOutcome
  return ⟨some submission, authority, false⟩

/-- The end of the transaction. -/
def readBack (settlementId : UUID) : MockProgram MockOutcome := do
  match ← Program.call (MockStatement.select settlementId) with
  | none => .raise .assertionError
  | some operation => .ofExcept operation.outcome

/-- `_durable_outcome`. -/
def durableOutcome (provider : MockPayoutProvider) (settlementId : UUID) :
    MockProgram MockOutcome := do
  let ordinal ← Program.call
    (MockStatement.insert settlementId "ALLOCATING" ProviderLookup.unknown.value)
  match ordinal with
  | some ordinal => do
    allocate provider settlementId ordinal
    readBack settlementId
  | none => readBack settlementId

/-- Rows of `mock_provider_operations`, by id. -/
abbrev MockRows := UUID → Option MockProviderOperation

/-- The committed rows, and the last value the identity column has drawn. -/
structure MockTable where
  rows : MockRows
  sequence : ℕ

/-- No row was inserted, and no ordinal drawn. -/
def MockTable.empty : MockTable := ⟨fun _ => none, 0⟩

/-- The rows a transaction sees: its own before the committed ones. -/
def MockRows.over (draft rows : MockRows) : MockRows := fun id => (draft id).or (rows id)

/-- What a statement does to the rows the transaction has written, where the
default of an insert was already drawn. -/
def MockStatement.run (ordinal : ℕ) (rows draft : MockRows) :
    (statement : MockStatement) → statement.Reply × MockRows
  | .insert operationId submissionOutcome authoritativeOutcome =>
    match draft.over rows operationId with
    | some _ => (none, draft)
    | none => (some ordinal,
      Function.update draft operationId (some ⟨ordinal, submissionOutcome, authoritativeOutcome⟩))
  | .update operationId submissionOutcome authoritativeOutcome =>
    match draft.over rows operationId with
    | some row => ((), Function.update draft operationId
        (some ⟨row.ordinal, submissionOutcome, authoritativeOutcome⟩))
    | none => ((), draft)
  | .select operationId => (draft.over rows operationId, draft)

/-- The lookup of a row. -/
def MockTable.lookup (table : MockTable) (settlementId : UUID) :
    Except MockError ProviderLookup :=
  match table.rows settlementId with
  | none => .ok .notFound
  | some operation => ProviderLookup.ofValue operation.authoritativeOutcome

/-! ## One call after the other -/

/-- An insert draws its default whether or not it then finds a conflict. -/
def MockTable.draw (table : MockTable) : MockStatement → MockTable
  | .insert _ _ _ => { table with sequence := table.sequence + 1 }
  | _ => table

/-- A transaction with no other beside it. -/
def MockTable.transact (table : MockTable) (draft : MockRows) :
    MockProgram MockOutcome → Except MockError MockOutcome × MockTable
  | .ret outcome => (.ok outcome, { table with rows := draft.over table.rows })
  | .raise error => (.error error, table)
  | .perform statement next =>
    let table := table.draw statement
    let reply := statement.run table.sequence table.rows draft
    transact table reply.2 (next (.ok reply.1))

/-- `initiate` on a database that no other call uses. -/
def MockTable.initiate (provider : MockPayoutProvider) (table : MockTable) (settlementId : UUID) :
    Except MockError MockOutcome × MockTable :=
  table.transact (fun _ => none) (durableOutcome provider settlementId)

example :
    (MockTable.empty.initiate ⟨none, .unknown, false⟩ 7).1 = .ok ⟨some .paid, .paid, false⟩ := by
  decide

/-! ## Any number of calls at once -/

/-- A call of `initiate`. -/
inductive MockCall where
  | idle
  /-- In its transaction, where `drawn` is what the insert it is about to execute has
  drawn, and `draft` what it has written. -/
  | running (settlementId : UUID) (program : MockProgram MockOutcome) (drawn : Option ℕ)
      (draft : MockRows)
  | answering (settlementId : UUID) (outcome : MockOutcome)
  | done

/-- What happened.  An outcome is recorded by the call with this number. -/
inductive MockEvent where
  | recorded (call : ℕ) (settlementId : UUID) (outcome : MockOutcome)
  | initiated (call : ℕ) (settlementId : UUID) (answer : Except MockError MockAnswer)
  | lookedUp (settlementId : UUID) (answer : Except MockError ProviderLookup)

/-- The durable mock between two statements of its calls. -/
structure MockState where
  table : MockTable
  calls : ℕ → MockCall
  /-- The last event first. -/
  trace : List MockEvent

namespace MockState

/-- Another transaction has written a row with this id. -/
def Blocked (s : MockState) (c : ℕ) (operationId : UUID) : Prop :=
  ∃ c' id program drawn draft, c' ≠ c ∧ s.calls c' = .running id program drawn draft ∧
    (draft operationId).isSome

/-- An insert is executed with the value it has drawn, and waits until the row of
another transaction is committed or rolled back. -/
def Ready (s : MockState) (c : ℕ) (drawn : Option ℕ) : MockStatement → Prop
  | .insert operationId _ _ => drawn.isSome ∧ ¬ s.Blocked c operationId
  | _ => True

end MockState

/-- One step of a call, of an instance of the provider, over the table they share. -/
inductive DurableStep (instances : Set MockPayoutProvider) (s : MockState) : MockState → Prop
  | starts {c provider id} : provider ∈ instances → s.calls c = .idle →
      DurableStep instances s { s with
        calls := Function.update s.calls c
          (.running id (durableOutcome provider id) none fun _ => none) }
  | draws {c id operationId submission authority next draft} :
      s.calls c =
        .running id (.perform (.insert operationId submission authority) next) none draft →
      DurableStep instances s { s with
        table := s.table.draw (.insert operationId submission authority)
        calls := Function.update s.calls c
          (.running id (.perform (.insert operationId submission authority) next)
            (some (s.table.sequence + 1)) draft) }
  | executes {c id statement next drawn draft} :
      s.calls c = .running id (.perform statement next) drawn draft →
      s.Ready c drawn statement →
      DurableStep instances s { s with
        calls := Function.update s.calls c
          (.running id (next (.ok (statement.run (drawn.getD 0) s.table.rows draft).1)) none
            (statement.run (drawn.getD 0) s.table.rows draft).2) }
  | commits {c id outcome drawn draft} :
      s.calls c = .running id (.ret outcome) drawn draft →
      DurableStep instances s {
        table := { s.table with rows := draft.over s.table.rows }
        calls := Function.update s.calls c (.answering id outcome)
        trace := if (draft id).isSome then .recorded c id outcome :: s.trace else s.trace }
  | raises {c id error drawn draft} : s.calls c = .running id (.raise error) drawn draft →
      DurableStep instances s { s with
        calls := Function.update s.calls c .done
        trace := .initiated c id (.error error) :: s.trace }
  | fails {c id program drawn draft} : s.calls c = .running id program drawn draft →
      DurableStep instances s { s with
        calls := Function.update s.calls c .done
        trace := .initiated c id (.error .databaseError) :: s.trace }
  | answers {c id outcome} : s.calls c = .answering id outcome →
      DurableStep instances s { s with
        calls := Function.update s.calls c .done
        trace := .initiated c id outcome.answer :: s.trace }
  /-- The commit took effect, but the call saw an error. -/
  | loses {c id outcome} : s.calls c = .answering id outcome →
      DurableStep instances s { s with
        calls := Function.update s.calls c .done
        trace := .initiated c id (.error .databaseError) :: s.trace }
  | looksUp (id : UUID) :
      DurableStep instances s { s with trace := .lookedUp id (s.table.lookup id) :: s.trace }
  | lookupFails (id : UUID) :
      DurableStep instances s { s with trace := .lookedUp id (.error .databaseError) :: s.trace }

/-- Any number of calls, of any of the instances. -/
def durable (instances : Set MockPayoutProvider) : TransitionSystem MockState where
  init s := s = ⟨.empty, fun _ => .idle, []⟩
  step := DurableStep instances

/-- The mock without a database, between two calls. -/
structure MemoryState where
  memory : MockMemory
  calls : ℕ → MockCall
  trace : List MockEvent

end SettlementRouter
