import SettlementRouter.Models
import SettlementRouter.Runs

/-! # The ledger tables and their triggers

`alembic/versions/0002_durable_payout_and_ledger_guards.py`: what the database
itself lets a transaction do to `journal_transactions` and `postings`, whoever
runs it.  A transaction is any sequence of statements on single rows.  The row
triggers run before each, `posted_journal_check` at commit, once for every
journal the transaction inserted.

Whether an account or a settlement exists is a parameter: the rows of other
tables are not the ledger's.
-/
namespace SettlementRouter

/-- A row of `journal_transactions`, without its key. -/
structure JournalRow where
  settlementId : Option UUID
  event : JournalEvent
  isPosted : Bool
  createdAt : Time
  event_settlement : event = .opening ↔ settlementId = none

/-- A row of `postings`, without its key. -/
structure PostingRow where
  journalId : UUID
  accountId : UUID
  currency : Currency
  side : PostingSide
  amount : Units
  amount_positive : 0 < amount

/-- The two tables under the guards, by primary key. -/
structure LedgerTables where
  journals : AList fun _ : UUID => JournalRow
  postings : AList fun _ : UUID => PostingRow

/-- Why a statement or a commit is refused. -/
inductive LedgerError where
  /-- `RAISE EXCEPTION`, with `ERRCODE` 23514. -/
  | raised (message : String)
  | uniqueViolation
  | foreignKeyViolation
  deriving DecidableEq

namespace LedgerTables
variable (db : LedgerTables)

/-- The postings that carry this `journal_id`. -/
def postingsOf (journalId : UUID) : List (Sigma fun _ : UUID => PostingRow) :=
  db.postings.entries.filter fun row => row.2.journalId = journalId

/-- The total of a journal's postings in one currency and on one side. -/
def total (journalId : UUID) (currency : Currency) (side : PostingSide) : Units :=
  (((db.postingsOf journalId).filter fun row => row.2.currency = currency ∧ row.2.side = side).map
    (·.2.amount)).sum

/-- `is_posted` of a journal, if there is such a journal. -/
def isPosted (journalId : UUID) : Option Bool := (db.journals.lookup journalId).map (·.isPosted)

end LedgerTables

/-! ## The trigger functions -/

/-- `NEW` and `OLD` of a row trigger: each is missing where the statement has none. -/
structure TriggerRows (α : Type) where
  new : Option α
  old : Option α

/-- `guard_posting_mutation`: the parent is that of the new row, if there is one. -/
def guardPostingMutation (db : LedgerTables) (rows : TriggerRows PostingRow) :
    Except LedgerError Unit :=
  let parent := (rows.new.map (·.journalId)).or (rows.old.map (·.journalId))
  if parent.bind db.isPosted = some true then
    .error (.raised "posted journal postings are immutable")
  else .ok ()

/-- `guard_journal_mutation`, for the old row and, on UPDATE, the new one with its id. -/
def guardJournalMutation (id : UUID) (old : JournalRow) (new : Option (UUID × JournalRow)) :
    Except LedgerError Unit :=
  match new with
  | none =>
    if old.isPosted then .error (.raised "posted journals are immutable")
    else .ok ()
  | some (id', row) =>
    if old.isPosted then .error (.raised "posted journals are immutable")
    else if id' ≠ id ∨ row.settlementId ≠ old.settlementId ∨ row.event ≠ old.event ∨
        row.createdAt ≠ old.createdAt ∨ row.isPosted = false then
      .error (.raised "only journal posting transition is allowed")
    else .ok ()

/-- `check_posted_journal`.  A journal that is gone passes the first test and
fails the second. -/
def checkPostedJournal (db : LedgerTables) (id : UUID) : Except LedgerError Unit :=
  if db.isPosted id = some false then
    .error (.raised "journal must be posted before commit")
  else if (db.postingsOf id).length < 2 then
    .error (.raised "journal requires at least two postings")
  else if (db.postingsOf id).any fun row =>
      db.total id row.2.currency .debit ≠ db.total id row.2.currency .credit then
    .error (.raised "journal is unbalanced")
  else .ok ()

/-! ## Statements and transactions -/

/-- A statement on one row. An UPDATE or DELETE of a row that is not there does nothing. -/
inductive LedgerStatement where
  | insertJournal (id : UUID) (row : JournalRow)
  | updateJournal (id id' : UUID) (row : JournalRow)
  | deleteJournal (id : UUID)
  | insertPosting (id : UUID) (row : PostingRow)
  | updatePosting (id id' : UUID) (row : PostingRow)
  | deletePosting (id : UUID)

/-- What a transaction has written, and the journals to check at commit. -/
structure LedgerTransaction where
  tables : LedgerTables
  inserted : List UUID

section Execution
variable (settlementExists accountExists : UUID → Bool)

/-- The foreign keys of a posting. -/
def postingReferences (db : LedgerTables) (row : PostingRow) : Bool :=
  (db.journals.lookup row.journalId).isSome && accountExists row.accountId

/-- One statement: first its trigger, then the indexes and the foreign keys.  A statement
about a row that is not there does nothing. -/
def LedgerStatement.exec (tx : LedgerTransaction) :
    LedgerStatement → Except LedgerError LedgerTransaction
  | insertJournal id row =>
    if (tx.tables.journals.lookup id).isSome then .error .uniqueViolation
    else if row.settlementId.isSome ∧ tx.tables.journals.entries.any fun other =>
        other.2.settlementId = row.settlementId ∧ other.2.event = row.event then
      .error .uniqueViolation
    else if row.settlementId.any fun settlementId => ¬ settlementExists settlementId then
      .error .foreignKeyViolation
    else .ok {
      tables := { tx.tables with journals := tx.tables.journals.insert id row }
      inserted := id :: tx.inserted }
  | updateJournal id id' row =>
    match tx.tables.journals.lookup id with
    | none => .ok tx
    | some old => do
      guardJournalMutation id old (some (id', row))
      -- the key and the columns under the unique index are the old ones
      return { tx with tables.journals := (tx.tables.journals.erase id).insert id' row }
  | deleteJournal id =>
    match tx.tables.journals.lookup id with
    | none => .ok tx
    | some old => do
      guardJournalMutation id old none
      if tx.tables.postingsOf id ≠ [] then throw .foreignKeyViolation
      return { tx with tables.journals := tx.tables.journals.erase id }
  | insertPosting id row => do
    guardPostingMutation tx.tables ⟨some row, none⟩
    if (tx.tables.postings.lookup id).isSome then throw .uniqueViolation
    if ¬ postingReferences accountExists tx.tables row then throw .foreignKeyViolation
    return { tx with tables.postings := tx.tables.postings.insert id row }
  | updatePosting id id' row =>
    match tx.tables.postings.lookup id with
    | none => .ok tx
    | some old => do
      guardPostingMutation tx.tables ⟨some row, some old⟩
      if id' ≠ id ∧ (tx.tables.postings.lookup id').isSome then throw .uniqueViolation
      if ¬ postingReferences accountExists tx.tables row then throw .foreignKeyViolation
      return { tx with tables.postings := (tx.tables.postings.erase id).insert id' row }
  | deletePosting id =>
    match tx.tables.postings.lookup id with
    | none => .ok tx
    | some old => do
      guardPostingMutation tx.tables ⟨none, some old⟩
      return { tx with tables.postings := tx.tables.postings.erase id }

/-- The statements of a transaction, one after the other. -/
def execAll : List LedgerStatement → LedgerTransaction → Except LedgerError LedgerTransaction
  | [], tx => .ok tx
  | statement :: statements, tx => do
    let tx ← statement.exec settlementExists accountExists tx
    execAll statements tx

/-- A whole transaction, up to its commit. -/
def commitTransaction (statements : List LedgerStatement) (db : LedgerTables) :
    Except LedgerError LedgerTables := do
  let tx ← execAll settlementExists accountExists statements ⟨db, []⟩
  tx.inserted.forM (checkPostedJournal tx.tables)
  return tx.tables

/-- The ledger under committed transactions that meet `P`, from any ledger that
meets `start`. -/
def ledgerSystem (start : LedgerTables → Prop) (P : List LedgerStatement → LedgerTables → Prop) :
    TransitionSystem LedgerTables where
  init := start
  step db db' := ∃ statements, P statements db ∧
    commitTransaction settlementExists accountExists statements db = .ok db'

end Execution

end SettlementRouter
