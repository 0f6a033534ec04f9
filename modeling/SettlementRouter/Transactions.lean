import SettlementRouter.Ledger
import SettlementRouter.Provider
import SettlementRouter.Schemas

/-! # The transactions of the settlement service

`app/service.py`, the parts that run inside one database transaction.  A
transaction takes a committed state to an error, and is then rolled back, or to
a result and the state it commits.

A transaction reads the wall clock several times: `clock k` is its `k`-th
reading.
-/
namespace SettlementRouter

/-- What a service instance is configured with. -/
structure Settings where
  sha256 : String → String
  /-- The decimal context of the calling task, in which `create` multiplies: any.  The sums
  of `apply_posting` are taken to be exact.  They are in every context of 24 digits or more,
  the default of 28 included, as balances and amounts are column values. -/
  context : Decimal.Context
  /-- `lease_seconds`, in microseconds. -/
  leaseSeconds : Time

/-- `_lease_deadline`, at one reading of the clock. -/
def Settings.leaseDeadline (settings : Settings) (now : Time) : Time :=
  now + settings.leaseSeconds

/-! ## Creating a settlement -/

/-- The settlement of this owner and key, if there is one. -/
def findByKey (db : Database) (ownerId idempotencyKey : String) : Option (Sigma Settlement) :=
  db.settlements.entries.find? fun row =>
    row.2.ownerId = ownerId ∧ row.2.idempotencyKey = idempotencyKey

/-- The settlement `create` is about to insert. -/
structure NewSettlement where
  id : UUID
  ownerId : String
  idempotencyKey : String
  requestFingerprint : String
  command : SettlementCreate
  quote : RouteQuote
  quotedAmount : ℚ

/-- The row its columns hold, if every value fits and passes its check. -/
def NewSettlement.row (new : NewSettlement) : Except ServiceError (Settlement new.id) :=
  match Decimal.toColumn 24 8 new.quote.aggregateRate, Decimal.toColumn 32 8 new.quotedAmount with
  | some rate, some quoted =>
    if new.quote.snapshotVersion < -2 ^ 31 ∨ 2 ^ 31 ≤ new.quote.snapshotVersion then
      .error .dataError
    else if hquoted : 0 < quoted then
      if hrate : 0 < rate then
        .ok {
          ownerId := new.ownerId
          idempotencyKey := new.idempotencyKey
          requestFingerprint := new.requestFingerprint
          amountUsd := new.command.amountUsd
          targetCurrency := new.command.targetCurrency
          route := new.quote.hops
          snapshotVersion := new.quote.snapshotVersion
          aggregateRate := rate
          quotedAmount := quoted
          providerOperationId := new.id
          status := .reserved
          amount_positive := new.command.amount_positive
          rate_positive := hrate
          quote_positive := hquoted
          provider_operation_matches_id := rfl }
      else .error (.integrityError .ratePositive)
    else .error (.integrityError .quotePositive)
  | _, _ => .error .dataError

/-- `session.flush()` of the new settlement, against the unique indexes. -/
def insertSettlement (db : Database) {id : UUID} (row : Settlement id) :
    Except ServiceError Database :=
  if (db.settlements.lookup id).isSome then .error (.integrityError .settlementsPkey)
  else if (findByKey db row.ownerId row.idempotencyKey).isSome then
    .error (.integrityError .ownerIdempotencyKey)
  else .ok { db with settlements := db.settlements.insert id row }

/-- The inserting transaction of `create`. -/
def insertReserved (new : NewSettlement) (db : Database) :
    Except ServiceError (Unit × Database) := do
  let row ← new.row
  let db ← insertSettlement db row
  let db ← reserve db row
  return ((), db)

/-- `get`. -/
def get (settlementId : UUID) (db : Database) : Except ServiceError SettlementRead :=
  match db.settlements.lookup settlementId with
  | none => .error .settlementNotFound
  | some settlement => .ok (.fromOrmSettlement settlement)

/-! ## Claiming a payout -/

/-- A new row of `payout_attempts`, against its unique indexes. -/
def insertAttempt (db : Database) (settlementId : UUID) (attempt : PayoutAttempt) :
    Except ServiceError Database :=
  if (db.attempts.lookup settlementId).isSome then .error (.integrityError .payoutAttemptsPkey)
  else if db.attempts.entries.any fun row => row.2.operationId = attempt.operationId then
    .error (.integrityError .payoutAttemptsOperationId)
  else .ok { db with attempts := db.attempts.insert settlementId attempt }

/-- `_claim_reserved`: the first claim, which makes the attempt. -/
def claimReserved (settings : Settings) (clock : ℕ → Time) (settlementId : UUID) (db : Database) :
    Except ServiceError (Option PayoutClaim × Database) :=
  match db.settlements.lookup settlementId with
  | none => .error .settlementNotFound
  | some settlement =>
    if settlement.status ≠ .reserved then .ok (none, db)
    else do
      let settlement := settlement.withStatus .payoutInProgress
      let db ← insertAttempt
        { db with settlements := db.settlements.insert settlementId settlement } settlementId
        { operationId := settlement.providerOperationId
          state := .submitting
          attemptToken := 1
          leaseExpiresAt := settings.leaseDeadline (clock 0)
          lastOutcome := none
          token_positive := Nat.one_pos }
      return (some ⟨.fromOrmSettlement settlement, 1⟩, db)

/-- The attempt with the next token, claimed until `lease`. -/
def PayoutAttempt.claim (attempt : PayoutAttempt) (lease : Time) : PayoutAttempt :=
  { attempt with
    state := .claimed
    attemptToken := attempt.attemptToken + 1
    leaseExpiresAt := lease
    token_positive := Nat.succ_pos _ }

/-- `_claim_for_reconciliation`: a claim on a payout in flight, unless another one is still
valid or, if the schedule is respected, the attempt is not due. -/
def claimForReconciliation (settings : Settings) (clock : ℕ → Time) (settlementId : UUID)
    (respectSchedule : Bool) (db : Database) :
    Except ServiceError (Option PayoutClaim × Database) :=
  match db.settlements.lookup settlementId with
  | none => .error .settlementNotFound
  | some settlement =>
    if ¬ settlement.status.InFlight then .ok (none, db)
    else
      let now := clock 0
      let lease := settings.leaseDeadline (clock 1)
      match db.attempts.lookup settlementId with
      | none => do
        let db ← insertAttempt db settlementId
          { operationId := settlement.providerOperationId
            state := .claimed
            attemptToken := 1
            leaseExpiresAt := lease
            lastOutcome := none
            token_positive := Nat.one_pos }
        return (some ⟨.fromOrmSettlement settlement, 1⟩, db)
      | some attempt =>
        if attempt.state = .claimed ∧ now < attempt.leaseExpiresAt then .ok (none, db)
        else if respectSchedule ∧ now < attempt.leaseExpiresAt then .ok (none, db)
        else
          let attempt := attempt.claim lease
          .ok (some ⟨.fromOrmSettlement settlement, attempt.attemptToken⟩,
            { db with attempts := db.attempts.insert settlementId attempt })

/-- A settlement with its attempt, as the batch query joins them. -/
structure DueRow where
  id : UUID
  settlement : Settlement id
  attempt : PayoutAttempt

/-- The WHERE clause of the batch query. -/
def DueRow.Due (row : DueRow) (now : Time) : Prop :=
  row.settlement.status.InFlight ∧ row.attempt.leaseExpiresAt ≤ now ∧
    (row.attempt.state = .submitting ∨ row.attempt.state = .reconciling)

instance (row : DueRow) (now : Time) : Decidable (row.Due now) :=
  inferInstanceAs (Decidable (_ ∧ _ ∧ _))

/-- The ORDER BY clause. -/
def DueRow.before (a b : DueRow) : Bool :=
  a.attempt.leaseExpiresAt < b.attempt.leaseExpiresAt ∨
    a.attempt.leaseExpiresAt = b.attempt.leaseExpiresAt ∧ a.id ≤ b.id

/-- The settlements that have an attempt, with it. -/
def joinedRows (db : Database) : List DueRow :=
  db.settlements.entries.filterMap fun row =>
    (db.attempts.lookup row.1).map fun attempt => ⟨row.1, row.2, attempt⟩

/-- The rows of the batch query, in its order. -/
def dueRows (db : Database) (now : Time) : List DueRow :=
  ((joinedRows db).filter fun row => row.Due now).mergeSort DueRow.before

/-- The rows the query locks and returns: a row that is locked is skipped, and
does not count towards the limit. -/
def selectDue (db : Database) (now : Time) (locked : UUID → Bool) (limit : ℕ) : List DueRow :=
  ((dueRows db now).filter fun row => ¬ locked row.id).take limit

/-- The loop over the rows. `k` is the next reading of the clock. -/
def claimRows (settings : Settings) (clock : ℕ → Time) :
    List DueRow → ℕ → Database → List PayoutClaim × Database
  | [], _, db => ([], db)
  | row :: rows, k, db =>
    let attempt := row.attempt.claim (settings.leaseDeadline (clock k))
    let (claims, db) := claimRows settings clock rows (k + 1)
      { db with attempts := db.attempts.insert row.id attempt }
    (⟨.fromOrmSettlement row.settlement, attempt.attemptToken⟩ :: claims, db)

/-- `_claim_due_batch`. -/
def claimDueBatch (settings : Settings) (clock : ℕ → Time) (locked : UUID → Bool) (limit : ℕ)
    (db : Database) : List PayoutClaim × Database :=
  claimRows settings clock (selectDue db (clock 0) locked limit) 1 db

/-! ## Applying an outcome -/

/-- The last outcome written when an attempt's result is not final. -/
def pendingOutcome : Option ProviderResult → LastOutcome
  | some .ambiguous => .ambiguous503
  | _ => .unknown

/-- `_finalize_attempt`: under the attempt's own token, a result moves the funds and ends the
settlement, and without one it is left pending. -/
def finalizeAttempt (clock : ℕ → Time) (settlementId : UUID) (attemptToken : ℕ)
    (result : Option ProviderResult) (db : Database) :
    Except ServiceError (SettlementRead × Database) :=
  match db.settlements.lookup settlementId with
  | none => .error .settlementNotFound
  | some settlement =>
    match db.attempts.lookup settlementId with
    | none => .error .settlementNotFound
    | some attempt =>
      if attempt.attemptToken ≠ attemptToken then .error .staleAttemptToken
      else if settlement.status.Terminal then .ok (.fromOrmSettlement settlement, db)
      else
        -- the rows as written back, with the ledger already moved
        let written (db : Database) (status : SettlementStatus) (attempt : PayoutAttempt) :=
          (SettlementRead.fromOrmSettlement (settlement.withStatus status),
            { db with
              settlements := db.settlements.insert settlementId (settlement.withStatus status)
              attempts := db.attempts.insert settlementId attempt })
        match result with
        | some .paid => do
          let db ← consume db settlement
          return written db .success
            { attempt with state := .completed, lastOutcome := some .paid }
        | some .unpaid => do
          let db ← release db settlement
          return written db .failed
            { attempt with state := .completed, lastOutcome := some .unpaid }
        | _ => .ok (written db .pendingReconciliation
            { attempt with
              state := .reconciling
              lastOutcome := some (pendingOutcome result)
              leaseExpiresAt := clock 0 })

/-! ## All transactions -/

/-- A transaction of the service, with its arguments. -/
inductive Transaction where
  | findByKey (ownerId idempotencyKey : String)
  | insertReserved (new : NewSettlement)
  | get (settlementId : UUID)
  | claimReserved (settlementId : UUID)
  | claimForReconciliation (settlementId : UUID) (respectSchedule : Bool)
  | claimDueBatch (limit : ℕ)
  | finalizeAttempt (settlementId : UUID) (attemptToken : ℕ) (result : Option ProviderResult)

/-- What a transaction returns. -/
abbrev Transaction.Reply : Transaction → Type
  | findByKey _ _ => Option (Sigma Settlement)
  | insertReserved _ => Unit
  | get _ => SettlementRead
  | claimReserved _ => Option PayoutClaim
  | claimForReconciliation _ _ => Option PayoutClaim
  | claimDueBatch _ => List PayoutClaim
  | finalizeAttempt _ _ _ => SettlementRead

/-- What a transaction does, given its readings of the clock and the settlements
whose rows other transactions hold locked. -/
def Transaction.run (settings : Settings) (clock : ℕ → Time) (locked : UUID → Bool) :
    (t : Transaction) → Database → Except ServiceError (t.Reply × Database)
  | .findByKey ownerId idempotencyKey, db =>
    .ok (SettlementRouter.findByKey db ownerId idempotencyKey, db)
  | .insertReserved new, db => SettlementRouter.insertReserved new db
  | .get settlementId, db => (SettlementRouter.get settlementId db).map fun read => (read, db)
  | .claimReserved settlementId, db =>
    SettlementRouter.claimReserved settings clock settlementId db
  | .claimForReconciliation settlementId respectSchedule, db =>
    SettlementRouter.claimForReconciliation settings clock settlementId respectSchedule db
  | .claimDueBatch limit, db =>
    .ok (SettlementRouter.claimDueBatch settings clock locked limit db)
  | .finalizeAttempt settlementId attemptToken result, db =>
    SettlementRouter.finalizeAttempt clock settlementId attemptToken result db

end SettlementRouter
