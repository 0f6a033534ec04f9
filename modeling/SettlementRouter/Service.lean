import SettlementRouter.Programs
import SettlementRouter.Transactions

/-! # The settlement service

`app/service.py`: the coroutines.  Between two operations of a coroutine, which
are its await points, any other coroutine can run.  A database transaction is
one operation; so is a call of the provider, which is outside any transaction.
-/
namespace SettlementRouter

/-- What a coroutine awaits, or reads from outside. -/
inductive Operation where
  | transaction (t : Transaction)
  | quote (targetCurrency : Currency)
  | uuid4
  | initiate (settlementId : UUID) (amountUsd : Units) (targetCurrency : Currency)
      (quotedAmount : Units)
  | lookup (settlementId : UUID)
  /-- `asyncio.gather` over the claims of a batch. -/
  | gather (claims : List PayoutClaim)

/-- What an operation returns. -/
abbrev Operation.Reply : Operation → Type
  | transaction t => t.Reply
  | quote _ => RouteQuote
  | uuid4 => UUID
  | initiate _ _ _ _ => ProviderResult
  | lookup _ => ProviderLookup
  | gather _ => Unit

/-- A coroutine of the service. -/
abbrev Service (α : Type) := Program Operation Operation.Reply ServiceError α

/-- A coroutine that awaits one operation. -/
def await (op : Operation) : Service op.Reply := Program.call op

/-- A coroutine that runs one transaction. -/
def transact (t : Transaction) : Service t.Reply := await (.transaction t)

/-- `_is_idempotency_violation`. -/
def isIdempotencyViolation (constraint : Constraint) : Bool :=
  constraint.sqlstate = "23505" && constraint.name = "uq_settlements_owner_idempotency_key"

/-- `provider.initiate`, with the arguments the claim carries. -/
def initiate (claim : PayoutClaim) : Service ProviderResult :=
  await (.initiate claim.settlement.id claim.settlement.amountUsd
    claim.settlement.targetCurrency claim.settlement.quotedAmount)

/-- `provider.initiate` with every exception turned into no result. -/
def tryInitiate (claim : PayoutClaim) : Service (Option ProviderResult) :=
  Program.tryCatch (some <$> initiate claim) fun _ => pure none

/-- The end of `create`: claim the reserved settlement, submit its payout and
apply the result. -/
def submit (settlementId : UUID) : Service SettlementRead := do
  match ← transact (.claimReserved settlementId) with
  | none => transact (.get settlementId)
  | some claim =>
    let result ← tryInitiate claim
    Program.tryCatch (transact (.finalizeAttempt settlementId claim.attemptToken result)) fun
      | .staleAttemptToken => transact (.get settlementId)
      | error => .raise error

/-- `create` for a key that is taken: `_check_fingerprint`, and only a reserved
settlement is gone on with. -/
def replay (existing : Sigma Settlement) (fingerprint : String) : Service SettlementRead :=
  if existing.2.requestFingerprint ≠ fingerprint then .raise .idempotencyConflict
  else if existing.2.status ≠ .reserved then pure (.fromOrmSettlement existing.2)
  else submit existing.1

/-- The inserting transaction of `create`, and what is reloaded if it lost to
another insert of the same key. -/
def insertOrReload (new : NewSettlement) : Service (Option (Sigma Settlement)) :=
  Program.tryCatch (do transact (.insertReserved new); return none) fun
    | .integrityError constraint => do
      if ¬ isIdempotencyViolation constraint then
        .raise (.integrityError constraint)
      else
        match ← transact (.findByKey new.ownerId new.idempotencyKey) with
        | none => .raise .assertionError
        | some winner => return some winner
    | error => .raise error

/-- `create`. -/
def create (settings : Settings) (ownerId idempotencyKey : String) (command : SettlementCreate) :
    Service SettlementRead := do
  let fingerprint := requestFingerprint settings.sha256 ownerId command
  match ← transact (.findByKey ownerId idempotencyKey) with
  | some existing => replay existing fingerprint
  | none =>
    let quote ← await (.quote command.targetCurrency)
    let settlementId ← await .uuid4
    let inserted ← insertOrReload {
      id := settlementId
      ownerId := ownerId
      idempotencyKey := idempotencyKey
      requestFingerprint := fingerprint
      command := command
      quote := quote
      quotedAmount :=
        settings.context.mul (Decimal.ofColumn 8 command.amountUsd) quote.aggregateRate }
    match inserted with
    | none => submit settlementId
    | some winner => replay winner fingerprint

/-- The result a lookup stands for, if it stands for one; where the provider knows
of no operation, the payout is submitted. -/
def resolve (claim : PayoutClaim) : ProviderLookup → Service (Option ProviderResult)
  | .paid => pure (some .paid)
  | .unpaid => pure (some .unpaid)
  | .notFound => tryInitiate claim
  | _ => pure none

/-- `_reconcile_claim`. -/
def reconcileClaim (claim : PayoutClaim) (propagateErrors : Bool) : Service SettlementRead :=
  let settlementId := claim.settlement.id
  Program.tryCatch (do
    let lookup ← await (.lookup settlementId)
    let result ← resolve claim lookup
    transact (.finalizeAttempt settlementId claim.attemptToken result)) fun
  | .staleAttemptToken => transact (.get settlementId)
  | error => do
    Program.tryCatch
      (do let _ ← transact (.finalizeAttempt settlementId claim.attemptToken none)) fun
      | .staleAttemptToken => pure ()
      | error => .raise error
    if propagateErrors then .raise error
    else transact (.get settlementId)

/-- `reconcile`: a claim outside the schedule, and what the provider says now. -/
def reconcile (settlementId : UUID) : Service SettlementRead := do
  let current ← transact (.get settlementId)
  if ¬ current.status.InFlight then return current
  match ← transact (.claimForReconciliation settlementId false) with
  | none => transact (.get settlementId)
  | some claim => reconcileClaim claim true

/-- `run_reconciliation_once`. -/
def runReconciliationOnce (limit : ℕ) : Service ℕ := do
  let claims ← transact (.claimDueBatch limit)
  await (.gather claims)
  return claims.length

/-! ## Calls -/

/-- What a worker is asked to run. The last one is a task of a batch. -/
inductive Call where
  | create (ownerId idempotencyKey : String) (command : SettlementCreate)
  | get (settlementId : UUID)
  | reconcile (settlementId : UUID)
  | runReconciliationOnce (limit : ℕ)
  | reconcileClaim (claim : PayoutClaim)

/-- What a call returns. -/
inductive Response where
  | settlement (read : SettlementRead)
  | count (claims : ℕ)

/-- The coroutine of a call. -/
def Call.program (settings : Settings) : Call → Service Response
  | create ownerId idempotencyKey command =>
    .settlement <$> SettlementRouter.create settings ownerId idempotencyKey command
  | get settlementId => .settlement <$> transact (.get settlementId)
  | reconcile settlementId => .settlement <$> SettlementRouter.reconcile settlementId
  | runReconciliationOnce limit => .count <$> SettlementRouter.runReconciliationOnce limit
  | reconcileClaim claim => .settlement <$> SettlementRouter.reconcileClaim claim false

end SettlementRouter
