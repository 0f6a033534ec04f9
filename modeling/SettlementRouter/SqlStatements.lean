import Mathlib.Data.Set.Insert
import SettlementRouter.Locking
import SettlementRouter.TwoPhase

/-! # The statements of the transactions

`app/service.py` and `app/ledger.py`: the transactions of the service, statement by
statement, in the order in which they are sent to the database.  A plain select is a
transaction of its own and takes no lock; all others lock what they read before they
write.

What the unit of work sends at a flush or at the commit is written where the code makes
the change, or, for the two rows an outcome is written to, at the end.  A journal is
inserted with its postings, and as posted: no other transaction sees it before the commit.
-/

/-! ## Writes to a keyed table -/

namespace AList

variable {κ : Type*} {ρ : κ → Type*} [DecidableEq κ] {t : AList ρ} {k k' : κ} {r : ρ k}
  {f : ρ k → ρ k}

/-- A new row, if there is none under its key. -/
def insertNew (t : AList ρ) (k : κ) (r : ρ k) : AList ρ :=
  if (t.lookup k).isSome then t else t.insert k r

/-- The row under this key, changed. -/
def adjust (t : AList ρ) (k : κ) (f : ρ k → ρ k) : AList ρ :=
  match t.lookup k with
  | some r => t.insert k (f r)
  | none => t

theorem insertNew_of_none (h : t.lookup k = none) : t.insertNew k r = t.insert k r := by
  simp [insertNew, h]

theorem adjust_of_some (h : t.lookup k = some r) : t.adjust k f = t.insert k (f r) := by
  simp [adjust, h]

@[simp] theorem lookup_insertNew_self :
    (t.insertNew k r).lookup k = some ((t.lookup k).getD r) := by
  unfold insertNew
  cases h : t.lookup k <;> simp [h]

@[simp] theorem lookup_adjust_self : (t.adjust k f).lookup k = (t.lookup k).map f := by
  unfold adjust
  cases h : t.lookup k <;> simp [h]

theorem lookup_insertNew_ne (hne : k' ≠ k) : (t.insertNew k r).lookup k' = t.lookup k' := by
  unfold insertNew
  split
  · rfl
  · exact lookup_insert_ne hne

theorem lookup_adjust_ne (hne : k' ≠ k) : (t.adjust k f).lookup k' = t.lookup k' := by
  unfold adjust
  split
  · exact lookup_insert_ne hne
  · rfl

/-- A row is found after an insert if it was before, or if it is the new one. -/
theorem exists_lookup_insertNew {P : ∀ k, ρ k → Prop} :
    (∃ k' r', (t.insertNew k r).lookup k' = some r' ∧ P k' r') ↔
      (∃ k' r', t.lookup k' = some r' ∧ P k' r') ∨ t.lookup k = none ∧ P k r := by
  constructor
  · rintro ⟨k', r', hlookup, hP⟩
    by_cases hk : k' = k
    · subst hk
      rw [lookup_insertNew_self] at hlookup
      obtain rfl := Option.some.inj hlookup
      cases hold : t.lookup k' with
      | none => exact .inr ⟨rfl, by simpa [hold] using hP⟩
      | some old => exact .inl ⟨k', old, hold, by simpa [hold] using hP⟩
    · rw [lookup_insertNew_ne hk] at hlookup
      exact .inl ⟨k', r', hlookup, hP⟩
  · rintro (⟨k', r', hlookup, hP⟩ | ⟨hnone, hP⟩)
    · by_cases hk : k' = k
      · subst hk
        exact ⟨k', r', by simp [hlookup], hP⟩
      · exact ⟨k', r', by rw [lookup_insertNew_ne hk, hlookup], hP⟩
    · exact ⟨k, r, by simp [hnone], hP⟩

/-- A change that keeps what is looked for changes nothing about what is found. -/
theorem exists_lookup_adjust {P : ∀ k, ρ k → Prop} (hP : ∀ r, P k (f r) ↔ P k r) :
    (∃ k' r', (t.adjust k f).lookup k' = some r' ∧ P k' r') ↔
      ∃ k' r', t.lookup k' = some r' ∧ P k' r' := by
  constructor
  · rintro ⟨k', r', hlookup, hr'⟩
    by_cases hk : k' = k
    · subst hk
      rw [lookup_adjust_self] at hlookup
      obtain ⟨old, hold, rfl⟩ := Option.map_eq_some_iff.mp hlookup
      exact ⟨k', old, hold, (hP old).mp hr'⟩
    · rw [lookup_adjust_ne hk] at hlookup
      exact ⟨k', r', hlookup, hr'⟩
  · rintro ⟨k', r', hlookup, hr'⟩
    by_cases hk : k' = k
    · subst hk
      exact ⟨k', f r', by simp [hlookup], (hP r').mpr hr'⟩
    · exact ⟨k', r', by rw [lookup_adjust_ne hk, hlookup], hr'⟩

end AList

namespace SettlementRouter

/-- What a transaction sends to the database, or reads from the clock. -/
inductive Statement where
  /-- `SELECT … WHERE id = … FOR UPDATE`, which fails where there is no row. -/
  | lockSettlement (id : UUID)
  | lockAttempt (settlementId : UUID)
  | lockAccounts (debitKey creditKey : String × AccountPurpose)
  | now
  /-- The batch query, with `FOR UPDATE … SKIP LOCKED`. -/
  | selectDue (now : Time) (limit : ℕ)
  | insertSettlement (new : NewSettlement)
  | updateStatus (id : UUID) (status : SettlementStatus)
  | insertAttempt (settlementId : UUID) (attempt : PayoutAttempt)
  | updateAttempt (settlementId : UUID) (attempt : PayoutAttempt)
  | insertJournal (journal : JournalTransaction)
  | updateBalance (key : AccountKey) (account : Account)

/-- What a statement returns. -/
abbrev Statement.Reply : Statement → Type
  | lockSettlement id => Settlement id
  | lockAttempt _ => Option PayoutAttempt
  | lockAccounts _ _ => Account × Account
  | now => Time
  | selectDue _ _ => List DueRow
  | insertSettlement new => Settlement new.id
  | _ => Unit

/-- A transaction, statement by statement. -/
abbrev Sql (α : Type) := Program Statement Statement.Reply ServiceError α

/-- A transaction that executes one statement. -/
def execute (statement : Statement) : Sql statement.Reply := Program.call statement

section Programs
variable (settings : Settings)

/-- `_post`. -/
def postStatements {id : UUID} (settlement : Settlement id) (event : JournalEvent)
    (hevent : event ≠ .opening) (debitKey creditKey : String × AccountPurpose) : Sql Unit := do
  let (debit, credit) ← execute (.lockAccounts debitKey creditKey)
  if debit.balance < settlement.amountUsd then
    .raise .insufficientFunds
  else
    execute (.insertJournal (postedJournal settlement event hevent debit credit))
    let debited ← .ofExcept (applyPosting debit .debit settlement.amountUsd)
    let credited ← .ofExcept (applyPosting credit .credit settlement.amountUsd)
    execute (.updateBalance (usdAccount debitKey) debited)
    execute (.updateBalance (usdAccount creditKey) credited)

/-- `reserve`. -/
def reserveStatements {id : UUID} (settlement : Settlement id) : Sql Unit :=
  postStatements settlement .reserve reserve_ne_opening (settlement.ownerId, .available)
    (settlement.ownerId, .reserved)

/-- `consume`. -/
def consumeStatements {id : UUID} (settlement : Settlement id) : Sql Unit :=
  postStatements settlement .consume consume_ne_opening (settlement.ownerId, .reserved)
    ("system", .omnibus)

/-- `release`. -/
def releaseStatements {id : UUID} (settlement : Settlement id) : Sql Unit :=
  postStatements settlement .release release_ne_opening (settlement.ownerId, .reserved)
    (settlement.ownerId, .available)

/-- The inserting transaction of `create`. -/
def insertReservedStatements (new : NewSettlement) : Sql Unit := do
  let settlement ← execute (.insertSettlement new)
  reserveStatements settlement

/-- `_claim_reserved`. -/
def claimReservedStatements (settlementId : UUID) : Sql (Option PayoutClaim) := do
  let settlement ← execute (.lockSettlement settlementId)
  if settlement.status ≠ .reserved then
    return none
  let now ← execute .now
  execute (.updateStatus settlementId .payoutInProgress)
  execute (.insertAttempt settlementId {
    operationId := settlement.providerOperationId
    state := .submitting
    attemptToken := 1
    leaseExpiresAt := settings.leaseDeadline now
    lastOutcome := none
    token_positive := Nat.one_pos })
  return some ⟨.fromOrmSettlement (settlement.withStatus .payoutInProgress), 1⟩

/-- `_claim_for_reconciliation`. -/
def claimForReconciliationStatements (settlementId : UUID) (respectSchedule : Bool) :
    Sql (Option PayoutClaim) := do
  let settlement ← execute (.lockSettlement settlementId)
  if ¬ settlement.status.InFlight then
    return none
  let attempt ← execute (.lockAttempt settlementId)
  let now ← execute .now
  match attempt with
  | none =>
    let later ← execute .now
    execute (.insertAttempt settlementId {
      operationId := settlement.providerOperationId
      state := .claimed
      attemptToken := 1
      leaseExpiresAt := settings.leaseDeadline later
      lastOutcome := none
      token_positive := Nat.one_pos })
    return some ⟨.fromOrmSettlement settlement, 1⟩
  | some attempt =>
    if attempt.state = .claimed ∧ now < attempt.leaseExpiresAt then
      return none
    if respectSchedule ∧ now < attempt.leaseExpiresAt then
      return none
    let later ← execute .now
    let attempt := attempt.claim (settings.leaseDeadline later)
    execute (.updateAttempt settlementId attempt)
    return some ⟨.fromOrmSettlement settlement, attempt.attemptToken⟩

/-- The loop of `_claim_due_batch`. -/
def claimRowsStatements : List DueRow → Sql (List PayoutClaim)
  | [] => return []
  | row :: rows => do
    let now ← execute .now
    let attempt := row.attempt.claim (settings.leaseDeadline now)
    execute (.updateAttempt row.id attempt)
    let claims ← claimRowsStatements rows
    return ⟨.fromOrmSettlement row.settlement, attempt.attemptToken⟩ :: claims

/-- `_claim_due_batch`. -/
def claimDueBatchStatements (limit : ℕ) : Sql (List PayoutClaim) := do
  let now ← execute .now
  let rows ← execute (.selectDue now limit)
  claimRowsStatements settings rows

/-- `_finalize_attempt`. -/
def finalizeAttemptStatements (settlementId : UUID) (attemptToken : ℕ)
    (result : Option ProviderResult) : Sql SettlementRead := do
  let settlement ← execute (.lockSettlement settlementId)
  match ← execute (.lockAttempt settlementId) with
  | none => .raise .settlementNotFound
  | some attempt =>
    if attempt.attemptToken ≠ attemptToken then
      .raise .staleAttemptToken
    else if settlement.status.Terminal then
      return .fromOrmSettlement settlement
    else
      let write (status : SettlementStatus) (attempt : PayoutAttempt) : Sql SettlementRead := do
        execute (.updateStatus settlementId status)
        execute (.updateAttempt settlementId attempt)
        return .fromOrmSettlement (settlement.withStatus status)
      match result with
      | some .paid => do
        consumeStatements settlement
        write .success { attempt with state := .completed, lastOutcome := some .paid }
      | some .unpaid => do
        releaseStatements settlement
        write .failed { attempt with state := .completed, lastOutcome := some .unpaid }
      | _ => do
        let now ← execute .now
        write .pendingReconciliation { attempt with
          state := .reconciling
          lastOutcome := some (pendingOutcome result)
          leaseExpiresAt := now }

/-- The statements of a transaction that locks; a plain select is one statement. -/
def Transaction.statements : (t : Transaction) → Option (Sql t.Reply)
  | findByKey _ _ => none
  | insertReserved new => some (insertReservedStatements new)
  | get _ => none
  | claimReserved settlementId => some (claimReservedStatements settings settlementId)
  | claimForReconciliation settlementId respectSchedule =>
    some (claimForReconciliationStatements settings settlementId respectSchedule)
  | claimDueBatch limit => some (claimDueBatchStatements settings limit)
  | finalizeAttempt settlementId attemptToken result =>
    some (finalizeAttemptStatements settlementId attemptToken result)

end Programs

/-! ## What the statements do -/

/-- A write of a statement. -/
inductive Change where
  | insertSettlement (id : UUID) (row : Settlement id)
  | updateStatus (id : UUID) (status : SettlementStatus)
  | insertAttempt (settlementId : UUID) (attempt : PayoutAttempt)
  | updateAttempt (settlementId : UUID) (attempt : PayoutAttempt)
  | insertJournal (journal : JournalTransaction)
  | updateBalance (key : AccountKey) (account : Account)

namespace Change

/-- The rows with the change. -/
def apply : Change → Database → Database
  | insertSettlement id row, db => { db with settlements := db.settlements.insertNew id row }
  | updateStatus id status, db =>
    { db with settlements := db.settlements.adjust id (·.withStatus status) }
  | insertAttempt settlementId attempt, db =>
    { db with attempts := db.attempts.insertNew settlementId attempt }
  | updateAttempt settlementId attempt, db =>
    { db with attempts := db.attempts.adjust settlementId fun old =>
        { attempt with operationId := old.operationId } }
  | insertJournal journal, db => { db with journals := journal :: db.journals }
  | updateBalance key account, db =>
    { db with accounts := db.accounts.adjust key fun old =>
        if old.id = account.id then account else old }

/-- The rows and the entries of unique indexes it writes. -/
def written : Change → Set Resource
  | insertSettlement id row => {.settlementsPkey id,
      .ownerIdempotencyKey row.ownerId row.idempotencyKey, .settlement id}
  | updateStatus id _ => {.settlement id}
  | insertAttempt settlementId attempt => {.payoutAttemptsPkey settlementId,
      .payoutAttemptsOperationId attempt.operationId, .payoutAttempt settlementId}
  | updateAttempt settlementId _ => {.payoutAttempt settlementId}
  | insertJournal journal =>
    {r | ∃ id, journal.settlementId = some id ∧ r = .settlementEvent id journal.event}
  | updateBalance _ account => {.account account.id}

end Change

/-- The row, or the entry of the index, is the same in the two databases. -/
def Resource.Same (db db' : Database) : Resource → Prop
  | settlementsPkey id =>
    (db.settlements.lookup id).isSome = (db'.settlements.lookup id).isSome
  | ownerIdempotencyKey ownerId idempotencyKey =>
    (findByKey db ownerId idempotencyKey).isSome = (findByKey db' ownerId idempotencyKey).isSome
  | settlement id => db.settlements.lookup id = db'.settlements.lookup id
  | payoutAttemptsPkey id => (db.attempts.lookup id).isSome = (db'.attempts.lookup id).isSome
  | payoutAttemptsOperationId operationId =>
    (db.attempts.entries.any fun row => row.2.operationId = operationId) =
      db'.attempts.entries.any fun row => row.2.operationId = operationId
  | payoutAttempt id => db.attempts.lookup id = db'.attempts.lookup id
  | account id => ∀ key account, account.id = id →
      (db.accounts.lookup key = some account ↔ db'.accounts.lookup key = some account)
  | settlementEvent id event => db.journalCount id event = db'.journalCount id event

/-- The answer of a statement, its writes, and what it locks.  Which of the due rows the
batch query skips is left open. -/
inductive SqlAnswers (db : Database) :
    (statement : Statement) → statement.Reply → List Change → Set Resource → Prop
  | lockSettlement {id row} : db.settlements.lookup id = some row →
      SqlAnswers db (.lockSettlement id) row [] {.settlement id}
  | lockAttempt {settlementId} :
      SqlAnswers db (.lockAttempt settlementId) (db.attempts.lookup settlementId) []
        {.payoutAttempt settlementId}
  | lockAccounts {debitKey creditKey debit credit} :
      lockedAccounts db debitKey creditKey = .ok (debit, credit) →
      SqlAnswers db (.lockAccounts debitKey creditKey) (debit, credit) []
        {.account debit.id, .account credit.id}
  | now (time : Time) : SqlAnswers db .now time [] ∅
  | selectDue {now limit} (locked : UUID → Bool) :
      SqlAnswers db (.selectDue now limit) (selectDue db now locked limit) []
        {r | ∃ row ∈ selectDue db now locked limit,
          r = .settlement row.id ∨ r = .payoutAttempt row.id}
  | insertSettlement {new row db'} : new.row = .ok row → insertSettlement db row = .ok db' →
      SqlAnswers db (.insertSettlement new) row [.insertSettlement new.id row]
        {.settlementsPkey new.id, .ownerIdempotencyKey new.ownerId new.idempotencyKey,
          .settlement new.id}
  | updateStatus {id status} : (db.settlements.lookup id).isSome →
      SqlAnswers db (.updateStatus id status) () [.updateStatus id status] {.settlement id}
  | insertAttempt {settlementId attempt db'} : insertAttempt db settlementId attempt = .ok db' →
      SqlAnswers db (.insertAttempt settlementId attempt) () [.insertAttempt settlementId attempt]
        {.payoutAttemptsPkey settlementId, .payoutAttemptsOperationId attempt.operationId,
          .payoutAttempt settlementId}
  | updateAttempt {settlementId attempt} :
      SqlAnswers db (.updateAttempt settlementId attempt) () [.updateAttempt settlementId attempt]
        {.payoutAttempt settlementId}
  | insertJournal {journal id} : journal.settlementId = some id →
      db.journalCount id journal.event = 0 →
      SqlAnswers db (.insertJournal journal) () [.insertJournal journal]
        {.settlementEvent id journal.event}
  | updateBalance {key account} : Decimal.Fits 24 account.balance →
      SqlAnswers db (.updateBalance key account) () [.updateBalance key account]
        {.account account.id}

/-- The exceptions of a statement, and the entries it has to wait for first. -/
inductive SqlFails (db : Database) : Statement → ServiceError → Set Resource → Prop
  | lockSettlement {id} : db.settlements.lookup id = none →
      SqlFails db (.lockSettlement id) .settlementNotFound ∅
  | lockAccounts {debitKey creditKey error} : lockedAccounts db debitKey creditKey = .error error →
      SqlFails db (.lockAccounts debitKey creditKey) error ∅
  | values {new error} : new.row = .error error → SqlFails db (.insertSettlement new) error ∅
  | insertSettlement {new row error} : new.row = .ok row → insertSettlement db row = .error error →
      SqlFails db (.insertSettlement new) error
        {.settlementsPkey new.id, .ownerIdempotencyKey new.ownerId new.idempotencyKey}
  | insertAttempt {settlementId attempt error} :
      insertAttempt db settlementId attempt = .error error →
      SqlFails db (.insertAttempt settlementId attempt) error {.payoutAttemptsPkey settlementId,
        .payoutAttemptsOperationId attempt.operationId}
  | insertJournal {journal id} : journal.settlementId = some id →
      0 < db.journalCount id journal.event →
      SqlFails db (.insertJournal journal) (.integrityError .settlementEvent)
        {.settlementEvent id journal.event}
  | updateBalance {key account} : ¬ Decimal.Fits 24 account.balance →
      SqlFails db (.updateBalance key account) .dataError ∅

end SettlementRouter
