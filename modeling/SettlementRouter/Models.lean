import Mathlib.Data.List.AList
import SettlementRouter.Routing

/-! # The database schema

`app/models.py`: the rows of the tables the settlement service reads and writes.
A table is keyed by its primary key, or, for `accounts`, by its unique
`(owner_id, currency, purpose)`.  What a CHECK constraint says of a row is a
field of the row, so that a row it forbids cannot be built.

Amounts and balances are `Numeric(24, 8)` columns: integers, in units of
`10⁻⁸`.  Times are integers of microseconds, UUIDs natural numbers.
-/
namespace SettlementRouter

/-- Ids are only compared. -/
abbrev UUID := ℕ
/-- Microseconds. -/
abbrev Time := ℤ

/-- A number of units of `10⁻⁸`. -/
abbrev Units := ℤ

/-- On which side an account grows. -/
inductive AccountClass where
  | asset
  | liability
  deriving DecidableEq

/-- What an account is for. -/
inductive AccountPurpose where
  | available
  | reserved
  | omnibus
  deriving DecidableEq

/-- The sides of a journal. -/
inductive PostingSide where
  | debit
  | credit
  deriving DecidableEq

/-- What a journal records. -/
inductive JournalEvent where
  | opening
  | reserve
  | consume
  | release
  deriving DecidableEq

/-- The values of `settlements.status`. -/
inductive SettlementStatus where
  | reserved
  | payoutInProgress
  | success
  | failed
  | pendingReconciliation
  deriving DecidableEq

/-- The payout was submitted and its outcome is not known. -/
def SettlementStatus.InFlight (status : SettlementStatus) : Prop :=
  status = payoutInProgress ∨ status = pendingReconciliation

instance (status : SettlementStatus) : Decidable status.InFlight :=
  inferInstanceAs (Decidable (_ ∨ _))

/-- The outcome was applied to the ledger. -/
def SettlementStatus.Terminal (status : SettlementStatus) : Prop :=
  status = success ∨ status = failed

instance (status : SettlementStatus) : Decidable status.Terminal :=
  inferInstanceAs (Decidable (_ ∨ _))

/-- The strings written to `payout_attempts.state`. -/
inductive AttemptState where
  | submitting
  | claimed
  | reconciling
  | completed
  deriving DecidableEq

/-- The strings written to `payout_attempts.last_outcome`. -/
inductive LastOutcome where
  | paid
  | unpaid
  | ambiguous503
  | unknown
  deriving DecidableEq

/-- The columns of the unique index on accounts. -/
structure AccountKey where
  ownerId : String
  currency : Currency
  purpose : AccountPurpose
  deriving DecidableEq

/-- A row of `accounts`, with its check. -/
structure Account where
  id : UUID
  accountClass : AccountClass
  balance : Units
  balance_nonnegative : 0 ≤ balance

/-- A row of `settlements`, with its checks. -/
structure Settlement (id : UUID) where
  ownerId : String
  idempotencyKey : String
  requestFingerprint : String
  amountUsd : Units
  targetCurrency : Currency
  route : List RouteHop
  snapshotVersion : ℤ
  aggregateRate : Units
  quotedAmount : Units
  providerOperationId : UUID
  status : SettlementStatus
  amount_positive : 0 < amountUsd
  rate_positive : 0 < aggregateRate
  quote_positive : 0 < quotedAmount
  provider_operation_matches_id : providerOperationId = id

namespace Settlement
variable {id : UUID}

/-- The row with another status, which is all that is ever written to it. -/
def withStatus (settlement : Settlement id) (status : SettlementStatus) : Settlement id :=
  { settlement with status }

@[simp] theorem withStatus_status (settlement : Settlement id) (status : SettlementStatus) :
    (settlement.withStatus status).status = status := rfl

end Settlement

/-- A row of `postings`, without its journal. -/
structure Posting where
  accountId : UUID
  currency : Currency
  side : PostingSide
  amount : Units
  amount_positive : 0 < amount

/-- A journal with its postings. -/
structure JournalTransaction where
  settlementId : Option UUID
  event : JournalEvent
  isPosted : Bool
  postings : List Posting
  event_settlement : event = .opening ↔ settlementId = none

/-- A row of `payout_attempts`, without its settlement. -/
structure PayoutAttempt where
  operationId : UUID
  state : AttemptState
  attemptToken : ℕ
  leaseExpiresAt : Time
  lastOutcome : Option LastOutcome
  token_positive : 0 < attemptToken

/-- A committed state of the database. -/
structure Database where
  accounts : AList fun _ : AccountKey => Account
  settlements : AList Settlement
  journals : List JournalTransaction
  attempts : AList fun _ : UUID => PayoutAttempt

namespace Database
variable (db : Database)

/-- The settlement with this id, if there is one, has this status. -/
def status (id : UUID) : Option SettlementStatus := (db.settlements.lookup id).map (·.status)

/-- The balance of the account with this key, if there is one. -/
def balance (key : AccountKey) : Option Units := (db.accounts.lookup key).map (·.balance)

/-- How many journals of this event the settlement has. -/
def journalCount (id : UUID) (event : JournalEvent) : ℕ :=
  db.journals.countP fun journal => journal.settlementId = some id ∧ journal.event = event

end Database

/-! ## Errors -/

/-- The constraints a statement of the service can violate. -/
inductive Constraint where
  | settlementsPkey
  | ownerIdempotencyKey
  | ratePositive
  | quotePositive
  | settlementEvent
  | payoutAttemptsPkey
  | payoutAttemptsOperationId
  deriving DecidableEq

/-- The name the database reports. -/
def Constraint.name : Constraint → String
  | settlementsPkey => "settlements_pkey"
  | ownerIdempotencyKey => "uq_settlements_owner_idempotency_key"
  | ratePositive => "ck_settlements_rate_positive"
  | quotePositive => "ck_settlements_quote_positive"
  | settlementEvent => "uq_journal_transactions_settlement_event"
  | payoutAttemptsPkey => "payout_attempts_pkey"
  | payoutAttemptsOperationId => "payout_attempts_operation_id_key"

/-- `23505` is a unique violation, `23514` a check violation. -/
def Constraint.sqlstate : Constraint → String
  | ratePositive => "23514"
  | quotePositive => "23514"
  | _ => "23505"

/-- The exceptions a call can end with. -/
inductive ServiceError where
  | idempotencyConflict
  | settlementNotFound
  | staleAttemptToken
  | insufficientFunds
  | lookupError
  | routeNotFound
  | assertionError
  | integrityError (constraint : Constraint)
  /-- A value does not fit its column. -/
  | dataError
  /-- The connection or the server failed. -/
  | databaseError
  /-- Any exception of the payout provider. -/
  | providerError
  deriving DecidableEq

end SettlementRouter
