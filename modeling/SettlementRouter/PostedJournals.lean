import SettlementRouter.LedgerGuards
import SettlementRouter.LedgerInvariants

/-! # The service under the guards of the database

`_post` writes a journal as four statements: the journal, not yet posted; its two
postings; and the update that posts it.  The triggers look at each of them, and the
deferred check at the journal when the transaction commits.

They let all of it through: from tables that hold the journals of the service, and under
whatever fresh keys the rows get, the statements commit, and the tables hold the journals
of the service again (`posts_commits`).  So every run of the service is a run of the guarded
ledger, and what the guards promise of that holds of it (`journals_guarded`).
-/
namespace SettlementRouter

theorem event_settlement_of_ne {event : JournalEvent} (hevent : event ≠ .opening) (id : UUID) :
    event = .opening ↔ some id = none :=
  iff_of_false hevent (Option.some_ne_none id)

/-- The row of a settlement's journal. -/
def eventRow (id : UUID) (event : JournalEvent) (hevent : event ≠ .opening) (isPosted : Bool)
    (createdAt : Time) : JournalRow where
  settlementId := some id
  event
  isPosted
  createdAt
  event_settlement := event_settlement_of_ne hevent id

namespace Settlement
variable {id : UUID} (settlement : Settlement id)

/-- The row of a posting of its amount. -/
def postingRow (journalId : UUID) (account : Account) (side : PostingSide) : PostingRow where
  journalId
  accountId := account.id
  currency := .usd
  side
  amount := settlement.amountUsd
  amount_positive := settlement.amount_positive

/-- The statements of `_post`, in the order in which the session flushes them. -/
def postStatements (event : JournalEvent) (hevent : event ≠ .opening) (debit credit : Account)
    (journalId debitPostingId creditPostingId : UUID) (createdAt : Time) : List LedgerStatement :=
  [.insertJournal journalId (eventRow id event hevent false createdAt),
    .insertPosting debitPostingId (settlement.postingRow journalId debit .debit),
    .insertPosting creditPostingId (settlement.postingRow journalId credit .credit),
    .updateJournal journalId journalId (eventRow id event hevent true createdAt)]

end Settlement

namespace Database
variable (db : Database)

/-- There is a row for the foreign key of a journal. -/
def hasSettlement (id : UUID) : Bool := (db.settlements.lookup id).isSome

/-- There is a row for the foreign key of a posting. -/
def hasAccount (accountId : UUID) : Bool :=
  db.accounts.entries.any fun row => row.2.id = accountId

end Database

/-! ## What a transaction posts -/

/-- A journal was posted, the first of its event. -/
structure Posts (db db' : Database) {id : UUID} (settlement : Settlement id) (event : JournalEvent)
    (hevent : event ≠ .opening) (debit credit : Account) : Prop where
  hasSettlement : db'.hasSettlement id
  hasDebit : db.hasAccount debit.id
  hasCredit : db.hasAccount credit.id
  first : db.journalCount id event = 0
  journals_eq : db'.journals = postedJournal settlement event hevent debit credit :: db.journals

section Transactions
variable {settings : Settings} {clock : ℕ → Time} {locked : UUID → Bool} {db db' db₁ db₂ : Database}
  {id : UUID} {settlement : Settlement id} {event : JournalEvent} {hevent : event ≠ .opening}
  {debitKey creditKey : String × AccountPurpose} {key : AccountKey} {account : Account}

theorem hasAccount_of_lookup (h : db.accounts.lookup key = some account) :
    db.hasAccount account.id :=
  List.any_eq_true.mpr ⟨⟨key, account⟩, AList.mem_lookup_iff.mp h, decide_eq_true rfl⟩

theorem hasAccount_iff {accountId : UUID} :
    db.hasAccount accountId ↔ ∃ key account, db.accounts.lookup key = some account ∧
      account.id = accountId := by
  constructor
  · intro h
    obtain ⟨⟨key, account⟩, hmem, hid⟩ := List.any_eq_true.mp h
    exact ⟨key, account, AList.mem_lookup_iff.mpr hmem, of_decide_eq_true hid⟩
  · rintro ⟨key, account, hlookup, rfl⟩
    exact hasAccount_of_lookup hlookup

/-- A transaction of the service posts a journal, or leaves them alone. -/
inductive PostsOnce (db db' : Database) : Prop
  | none : db'.journals = db.journals → PostsOnce db db'
  | one {id event hevent debit credit} {settlement : Settlement id} :
      Posts db db' settlement event hevent debit credit → PostsOnce db db'

/-- Where the journal is posted beside other rows. -/
theorem PostsOnce.of_post (h : post db₁ settlement event hevent debitKey creditKey = .ok db₂)
    (hbefore : db₁.accounts = db.accounts ∧ db₁.journals = db.journals)
    (hafter : db'.journals = db₂.journals) (hsettlement : db'.hasSettlement id) :
    PostsOnce db db' := by
  unfold post at h
  simp only [bind, Except.bind, throw, throwThe, MonadExceptOf.throw, pure, Except.pure] at h
  split at h
  · cases h
  rename_i accounts haccounts
  obtain ⟨hdebit, hcredit⟩ := lockedAccounts_ok.mp haccounts
  split at h
  · cases h
  split at h
  · cases h
  rename_i hfirst
  rw [hbefore.1] at hdebit hcredit
  rw [Nat.not_lt, Nat.le_zero, Database.journalCount, hbefore.2] at hfirst
  cases hdebited : applyPosting accounts.1 .debit settlement.amountUsd with
  | error error =>
    rw [hdebited] at h
    cases h
  | ok debited =>
    cases hcredited : applyPosting accounts.2 .credit settlement.amountUsd with
    | error error =>
      rw [hdebited, hcredited] at h
      cases h
    | ok credited =>
      simp only [hdebited, hcredited] at h
      split at h
      · cases h
      · cases h
        rw [hbefore.2] at hafter
        exact .one ⟨hsettlement, hasAccount_of_lookup hdebit, hasAccount_of_lookup hcredit,
          hfirst, hafter⟩

theorem insertReserved_posts {new : NewSettlement} {reply : Unit}
    (h : insertReserved new db = .ok (reply, db')) : PostsOnce db db' := by
  unfold insertReserved at h
  cases hrow : new.row with
  | error error => simp [hrow, bind, Except.bind] at h
  | ok row =>
    cases hinsert : insertSettlement db row with
    | error error => simp [hrow, hinsert, bind, Except.bind] at h
    | ok db₁ =>
      cases hreserve : reserve db₁ row with
      | error error => simp [hrow, hinsert, hreserve, bind, Except.bind] at h
      | ok db₂ =>
        simp only [hrow, hinsert, hreserve, bind, Except.bind, pure, Except.pure] at h
        cases h
        obtain ⟨-, -, rfl⟩ := insertSettlement_ok hinsert
        refine .of_post hreserve ⟨rfl, rfl⟩ rfl ?_
        rw [Database.hasSettlement, (post_ok hreserve).settlements_eq]
        exact Option.isSome_iff_exists.mpr ⟨row, AList.lookup_insert _⟩

theorem finalizeAttempt_posts {token : ℕ} {result : Option ProviderResult} {read : SettlementRead}
    (h : finalizeAttempt clock id token result db = .ok (read, db')) : PostsOnce db db' := by
  unfold finalizeAttempt at h
  split at h
  · cases h
  split at h
  · cases h
  split at h
  · cases h
  split at h
  · cases h
    exact .none rfl
  have hsettlement {settlements : AList Settlement} {row : Settlement id} :
      ((settlements.insert id row).lookup id).isSome :=
    Option.isSome_iff_exists.mpr ⟨row, AList.lookup_insert _⟩
  dsimp only at h
  split at h
  · simp only [bind, Except.bind] at h
    split at h
    · cases h
    · rename_i hconsume
      cases h
      exact .of_post hconsume ⟨rfl, rfl⟩ rfl hsettlement
  · simp only [bind, Except.bind] at h
    split at h
    · cases h
    · rename_i hrelease
      cases h
      exact .of_post hrelease ⟨rfl, rfl⟩ rfl hsettlement
  · cases h
    exact .none rfl

/-- **A transaction posts one journal, or none.** -/
theorem Transaction.run_posts {t : Transaction} {reply : t.Reply}
    (h : t.run settings clock locked db = .ok (reply, db')) : PostsOnce db db' := by
  cases t with
  | findByKey ownerId idempotencyKey =>
    cases h
    exact .none rfl
  | insertReserved new => exact insertReserved_posts h
  | get settlementId =>
    obtain ⟨rfl, -⟩ := run_get_ok h
    exact .none rfl
  | claimReserved settlementId => exact .none (claimReserved_ok h).1.ledger.2
  | claimForReconciliation settlementId respectSchedule =>
    exact .none (claimForReconciliation_ok h).1.ledger.2
  | claimDueBatch limit => exact .none (claimDueBatch_claims (Except.ok.inj h)).ledger.2
  | finalizeAttempt settlementId attemptToken result => exact finalizeAttempt_posts h

theorem Step.posts {law : ProviderLaw} {s s' : State} (h : Step settings law s s') :
    PostsOnce s.db s'.db := by
  obtain ⟨-, hdb⟩ | ⟨e, -, hhappens⟩ := h.happens
  · exact .none (congrArg Database.journals hdb)
  · generalize s'.db = db at hhappens
    cases hhappens with
    | commits acknowledged hworker hblocked hrun => exact Transaction.run_posts hrun
    | _ => exact .none rfl

end Transactions

/-! ## The statements are let through -/

section Statements
variable {settlementExists accountExists : UUID → Bool} {tx : LedgerTransaction}
  {tables : LedgerTables} {id journalId : UUID}

theorem exec_insertJournal {row : JournalRow} (hnone : tx.tables.journals.lookup id = none)
    (hindex : ∀ otherId other, tx.tables.journals.lookup otherId = some other →
      ¬ (other.settlementId = row.settlementId ∧ other.event = row.event))
    (hexists : ∀ settlementId ∈ row.settlementId, settlementExists settlementId) :
    (LedgerStatement.insertJournal id row).exec settlementExists accountExists tx = .ok {
      tables := { tx.tables with journals := tx.tables.journals.insert id row }
      inserted := id :: tx.inserted } := by
  have hunique : ¬ tx.tables.journals.entries.any fun other =>
      other.2.settlementId = row.settlementId ∧ other.2.event = row.event := by
    rw [List.any_eq_true]
    rintro ⟨⟨otherId, other⟩, hmem, hsame⟩
    exact hindex otherId other (AList.mem_lookup_iff.mpr hmem) (of_decide_eq_true hsame)
  have hreferences :
      ¬ row.settlementId.any fun settlementId => ¬ settlementExists settlementId := by
    cases hid : row.settlementId with
    | none => exact Bool.false_ne_true
    | some settlementId => simp [hexists settlementId hid]
  simp only [LedgerStatement.exec, hnone]
  rw [if_neg (by simp), if_neg fun hboth => hunique hboth.2, if_neg hreferences]

theorem exec_insertPosting {row : PostingRow}
    (hopen : tx.tables.isPosted row.journalId = some false)
    (hnone : tx.tables.postings.lookup id = none) (haccount : accountExists row.accountId) :
    (LedgerStatement.insertPosting id row).exec settlementExists accountExists tx =
      .ok { tx with tables.postings := tx.tables.postings.insert id row } := by
  have hguard : guardPostingMutation tx.tables ⟨some row, none⟩ = .ok () := by
    refine if_neg ?_
    rw [Option.map_some, Option.map_none, Option.or_none, Option.bind_some, hopen]
    decide
  have hjournal : (tx.tables.journals.lookup row.journalId).isSome := by
    obtain ⟨journal, hjournal, -⟩ := Option.map_eq_some_iff.mp hopen
    exact Option.isSome_iff_exists.mpr ⟨journal, hjournal⟩
  simp [LedgerStatement.exec, hguard, hnone, postingReferences, hjournal, haccount, bind,
    Except.bind, pure, Except.pure]

theorem execAll_cons {statement : LedgerStatement} {statements : List LedgerStatement}
    {tx' : LedgerTransaction}
    (h : statement.exec settlementExists accountExists tx = .ok tx') :
    execAll settlementExists accountExists (statement :: statements) tx =
      execAll settlementExists accountExists statements tx' := by
  rw [execAll, h]
  rfl

/-- The update that posts a journal. -/
theorem exec_post {old row : JournalRow} (hold : tx.tables.journals.lookup id = some old)
    (hopen : old.isPosted = false) (hrow : { old with isPosted := true } = row) :
    (LedgerStatement.updateJournal id id row).exec settlementExists accountExists tx =
      .ok { tx with tables.journals := (tx.tables.journals.erase id).insert id row } := by
  subst hrow
  simp [LedgerStatement.exec, hold, guardJournalMutation, hopen, bind, Except.bind, pure,
    Except.pure]

end Statements

/-! ## Tables that hold the journals -/

/-- The row of a journal, created at this time. -/
def JournalTransaction.row (journal : JournalTransaction) (createdAt : Time) : JournalRow where
  settlementId := journal.settlementId
  event := journal.event
  isPosted := journal.isPosted
  createdAt
  event_settlement := journal.event_settlement

/-- What a row says beside its journal. -/
def PostingRow.posting (row : PostingRow) : Posting where
  accountId := row.accountId
  currency := row.currency
  side := row.side
  amount := row.amount
  amount_positive := row.amount_positive

namespace LedgerTables
variable (tables : LedgerTables)

/-- The journal has this id. -/
structure Shows (id : UUID) (journal : JournalTransaction) : Prop where
  row : ∃ createdAt, tables.journals.lookup id = some (journal.row createdAt)
  postings : ((tables.postingsOf id).map fun row => row.2.posting).Perm journal.postings

/-- The tables hold the journals of the service, and no others. -/
structure Represents (db : Database) : Prop where
  journals : ∃ ids : List UUID, ids.Nodup ∧ List.Forall₂ tables.Shows ids db.journals ∧
    ∀ id, (tables.journals.lookup id).isSome → id ∈ ids
  parents : ∀ id row, tables.postings.lookup id = some row →
    (tables.journals.lookup row.journalId).isSome

/-- The journal and its postings are there now, and the rest as before. -/
structure Gains (tables' : LedgerTables) (journalId : UUID) (row : JournalRow)
    (postings : List (Sigma fun _ : UUID => PostingRow)) : Prop where
  journals : ∀ id, tables'.journals.lookup id =
    if id = journalId then some row else tables.journals.lookup id
  postings : ∀ id, tables'.postingsOf id =
    if id = journalId then postings else tables.postingsOf id

/-- The keys are new. -/
structure Fresh (journalId debitPostingId creditPostingId : UUID) : Prop where
  journal : tables.journals.lookup journalId = none
  debit : tables.postings.lookup debitPostingId = none
  credit : tables.postings.lookup creditPostingId = none
  ne : creditPostingId ≠ debitPostingId

end LedgerTables

section Represents
variable {settlementExists accountExists : UUID → Bool} {tables : LedgerTables}
  {db db' : Database} {id journalId debitPostingId creditPostingId : UUID}
  {settlement : Settlement id} {event : JournalEvent} {hevent : event ≠ .opening}
  {debit credit : Account} {createdAt : Time}

theorem exists_of_forall₂ {α β : Type} {R : α → β → Prop} {as : List α} {bs : List β}
    (h : List.Forall₂ R as bs) {a : α} (ha : a ∈ as) : ∃ b ∈ bs, R a b := by
  induction h with
  | nil => exact absurd ha List.not_mem_nil
  | @cons a' b as bs hab _ ih =>
    rcases List.mem_cons.mp ha with rfl | ha
    · exact ⟨b, List.mem_cons_self, hab⟩
    · obtain ⟨b, hb, hab⟩ := ih ha
      exact ⟨b, List.mem_cons_of_mem _ hb, hab⟩

/-- The first journal of its event is the first in the tables. -/
theorem LedgerTables.Represents.first (h : tables.Represents db)
    (hfirst : db.journalCount id event = 0) (otherId : UUID) (other : JournalRow)
    (hother : tables.journals.lookup otherId = some other) :
    ¬ (other.settlementId = some id ∧ other.event = event) := by
  rintro ⟨hid, hevent⟩
  obtain ⟨ids, -, hshows, hcovers⟩ := h.journals
  obtain ⟨journal, hjournal, hshown⟩ :=
    exists_of_forall₂ hshows (hcovers otherId (Option.isSome_iff_exists.mpr ⟨other, hother⟩))
  obtain ⟨createdAt, hrow⟩ := hshown.row
  obtain rfl := Option.some.inj (hother.symm.trans hrow)
  have hpos : 0 < db.journalCount id event :=
    List.countP_pos_iff.mpr ⟨journal, hjournal, decide_eq_true ⟨hid, hevent⟩⟩
  exact hpos.ne' hfirst

/-- A journal that is not there has no postings. -/
theorem LedgerTables.Represents.postingsOf_eq_nil (h : tables.Represents db)
    (hnone : tables.journals.lookup journalId = none) : tables.postingsOf journalId = [] := by
  refine List.filter_eq_nil_iff.mpr fun ⟨postingId, row⟩ hmem hjournal => ?_
  have hparent := h.parents postingId row (AList.mem_lookup_iff.mpr hmem)
  rw [of_decide_eq_true hjournal, hnone] at hparent
  cases hparent

/-- The tables after the statements. -/
def LedgerTables.insertPosted (tables : LedgerTables) (settlement : Settlement id)
    (event : JournalEvent) (hevent : event ≠ .opening) (debit credit : Account)
    (journalId debitPostingId creditPostingId : UUID) (createdAt : Time) : LedgerTables where
  journals := ((tables.journals.insert journalId
    (eventRow id event hevent false createdAt)).erase journalId).insert journalId
      (eventRow id event hevent true createdAt)
  postings := (tables.postings.insert debitPostingId
    (settlement.postingRow journalId debit .debit)).insert creditPostingId
      (settlement.postingRow journalId credit .credit)

theorem execAll_postStatements (h : tables.Represents db)
    (hposts : Posts db db' settlement event hevent debit credit)
    (hfresh : tables.Fresh journalId debitPostingId creditPostingId)
    (hsettlements : db'.hasSettlement id → settlementExists id)
    (haccounts : ∀ accountId, db.hasAccount accountId → accountExists accountId) :
    execAll settlementExists accountExists (settlement.postStatements event hevent debit credit
        journalId debitPostingId creditPostingId createdAt) ⟨tables, []⟩ =
      .ok ⟨tables.insertPosted settlement event hevent debit credit journalId debitPostingId
        creditPostingId createdAt, [journalId]⟩ := by
  have hopen {journals : AList fun _ : UUID => JournalRow}
      {postings : AList fun _ : UUID => PostingRow} :
      LedgerTables.isPosted ⟨journals.insert journalId (eventRow id event hevent false createdAt),
        postings⟩ journalId = some false := by
    rw [LedgerTables.isPosted, AList.lookup_insert]
    rfl
  refine (execAll_cons (exec_insertJournal hfresh.journal (h.first hposts.first) ?_)).trans ?_
  · rintro settlementId ⟨⟩
    exact hsettlements hposts.hasSettlement
  refine (execAll_cons (exec_insertPosting hopen hfresh.debit
    (haccounts _ hposts.hasDebit))).trans ?_
  refine (execAll_cons (exec_insertPosting hopen ?_ (haccounts _ hposts.hasCredit))).trans ?_
  · rw [AList.lookup_insert_ne hfresh.ne]
    exact hfresh.credit
  exact execAll_cons (exec_post (AList.lookup_insert _) rfl rfl)

theorem gains_insertPosted (settlement : Settlement id) (hevent : event ≠ .opening)
    (debit credit : Account) (createdAt : Time) (h : tables.Represents db)
    (hfresh : tables.Fresh journalId debitPostingId creditPostingId) :
    tables.Gains (tables.insertPosted settlement event hevent debit credit journalId
        debitPostingId creditPostingId createdAt) journalId
      (eventRow id event hevent true createdAt)
      [⟨creditPostingId, settlement.postingRow journalId credit .credit⟩,
        ⟨debitPostingId, settlement.postingRow journalId debit .debit⟩] := by
  constructor
  · intro otherId
    by_cases hid : otherId = journalId
    · subst hid
      rw [if_pos rfl]
      exact AList.lookup_insert _
    · rw [if_neg hid, LedgerTables.insertPosted, AList.lookup_insert_ne hid,
        AList.lookup_erase_ne hid, AList.lookup_insert_ne hid]
  · intro otherId
    have hdebit := AList.lookup_eq_none.mp hfresh.debit
    have hcredit : creditPostingId ∉ tables.postings.insert debitPostingId
        (settlement.postingRow journalId debit .debit) :=
      AList.lookup_eq_none.mp (AList.lookup_insert_eq_none.mpr ⟨hfresh.ne, hfresh.credit⟩)
    have hentries : (tables.insertPosted settlement event hevent debit credit journalId
        debitPostingId creditPostingId createdAt).postings.entries =
          ⟨creditPostingId, settlement.postingRow journalId credit .credit⟩ ::
            ⟨debitPostingId, settlement.postingRow journalId debit .debit⟩ ::
              tables.postings.entries := by
      rw [LedgerTables.insertPosted, AList.entries_insert_of_notMem hcredit,
        AList.entries_insert_of_notMem hdebit]
    rw [LedgerTables.postingsOf, hentries]
    by_cases hid : otherId = journalId
    · subst hid
      have hnone := h.postingsOf_eq_nil hfresh.journal
      rw [LedgerTables.postingsOf] at hnone
      rw [if_pos rfl]
      simp [Settlement.postingRow, hnone]
    · rw [if_neg hid, LedgerTables.postingsOf]
      simp [Settlement.postingRow, Ne.symm hid]

variable {tables' : LedgerTables}

/-- The deferred check lets the journal through. -/
theorem LedgerTables.Gains.check
    (h : tables.Gains tables' journalId (eventRow id event hevent true createdAt)
      [⟨creditPostingId, settlement.postingRow journalId credit .credit⟩,
        ⟨debitPostingId, settlement.postingRow journalId debit .debit⟩]) :
    checkPostedJournal tables' journalId = .ok () := by
  have hposted : tables'.isPosted journalId = some true := by
    rw [LedgerTables.isPosted, h.journals, if_pos rfl]
    rfl
  have hpostings := h.postings journalId
  rw [if_pos rfl] at hpostings
  unfold checkPostedJournal
  rw [hposted, if_neg (by decide), hpostings, if_neg (by simp), if_neg]
  simp [LedgerTables.total, hpostings, Settlement.postingRow]

/-- The journals that were there are there. -/
theorem LedgerTables.Gains.shows {row : JournalRow}
    {postings : List (Sigma fun _ : UUID => PostingRow)} {journal : JournalTransaction}
    {otherId : UUID} (h : tables.Gains tables' journalId row postings)
    (hnone : tables.journals.lookup journalId = none) (hshown : tables.Shows otherId journal) :
    tables'.Shows otherId journal := by
  obtain ⟨createdAt, hrow⟩ := hshown.row
  have hid : otherId ≠ journalId := by
    rintro rfl
    rw [hnone] at hrow
    cases hrow
  constructor
  · refine ⟨createdAt, ?_⟩
    rw [h.journals, if_neg hid, hrow]
  · rw [h.postings, if_neg hid]
    exact hshown.postings

/-- The tables show the journals of the service. -/
theorem LedgerTables.Gains.represents
    (h : tables.Gains tables' journalId (eventRow id event hevent true createdAt)
      [⟨creditPostingId, settlement.postingRow journalId credit .credit⟩,
        ⟨debitPostingId, settlement.postingRow journalId debit .debit⟩])
    (hrepresents : tables.Represents db) (hnone : tables.journals.lookup journalId = none)
    (hjournals : db'.journals = postedJournal settlement event hevent debit credit :: db.journals) :
    tables'.Represents db' := by
  obtain ⟨ids, hnodup, hshows, hcovers⟩ := hrepresents.journals
  have hnotin : journalId ∉ ids := by
    intro hmem
    obtain ⟨journal, -, hshown⟩ := exists_of_forall₂ hshows hmem
    obtain ⟨_, hrow⟩ := hshown.row
    rw [hnone] at hrow
    cases hrow
  constructor
  · refine ⟨journalId :: ids, List.nodup_cons.mpr ⟨hnotin, hnodup⟩, ?_, fun otherId hother => ?_⟩
    · rw [hjournals]
      refine .cons ⟨⟨createdAt, ?_⟩, ?_⟩ ?_
      · rw [h.journals, if_pos rfl]
        rfl
      · rw [h.postings, if_pos rfl]
        exact .swap ..
      · exact hshows.imp fun _ _ hshown => h.shows hnone hshown
    · by_cases hid : otherId = journalId
      · exact hid ▸ List.mem_cons_self
      · rw [h.journals, if_neg hid] at hother
        exact List.mem_cons_of_mem _ (hcovers otherId hother)
  · intro postingId row hrow
    have hmem : (⟨postingId, row⟩ : Sigma fun _ : UUID => PostingRow) ∈
        tables'.postingsOf row.journalId :=
      List.mem_filter.mpr ⟨AList.mem_lookup_iff.mp hrow, decide_eq_true rfl⟩
    rw [h.journals]
    by_cases hid : row.journalId = journalId
    · rw [if_pos hid]
      rfl
    · rw [h.postings, if_neg hid] at hmem
      rw [if_neg hid]
      exact hrepresents.parents postingId row
        (AList.mem_lookup_iff.mpr (List.mem_of_mem_filter hmem))

/-- **What `_post` does is let through**, under any fresh keys, and the tables show it. -/
theorem posts_commits (createdAt : Time) (h : tables.Represents db)
    (hposts : Posts db db' settlement event hevent debit credit)
    (hfresh : tables.Fresh journalId debitPostingId creditPostingId)
    (hsettlements : db'.hasSettlement id → settlementExists id)
    (haccounts : ∀ accountId, db.hasAccount accountId → accountExists accountId) :
    ∃ tables', commitTransaction settlementExists accountExists (settlement.postStatements event
        hevent debit credit journalId debitPostingId creditPostingId createdAt) tables =
          .ok tables' ∧ tables'.Represents db' := by
  have hgains := gains_insertPosted settlement hevent debit credit createdAt h hfresh
  refine ⟨_, ?_, hgains.represents h hfresh.journal hposts.journals_eq⟩
  rw [commitTransaction, execAll_postStatements h hposts hfresh hsettlements haccounts]
  simp [List.forM, hgains.check, bind, Except.bind, pure, Except.pure]

end Represents

/-! ## Runs -/

section Existence
variable {settlementExists settlementExists' accountExists accountExists' : UUID → Bool}
  {statement : LedgerStatement} {statements : List LedgerStatement} {tx tx' : LedgerTransaction}
  {db db' committed : LedgerTables}

/-- A statement that is let through is let through when more rows exist. -/
theorem exec_mono (hsettlements : ∀ id, settlementExists id → settlementExists' id)
    (haccounts : ∀ id, accountExists id → accountExists' id)
    (h : statement.exec settlementExists accountExists tx = .ok tx') :
    statement.exec settlementExists' accountExists' tx = .ok tx' := by
  have hreferences {row : PostingRow} (hrow : postingReferences accountExists tx.tables row) :
      postingReferences accountExists' tx.tables row := by
    rw [postingReferences, Bool.and_eq_true] at hrow ⊢
    exact ⟨hrow.1, haccounts _ hrow.2⟩
  cases statement with
  | insertJournal id row =>
    simp only [LedgerStatement.exec] at h ⊢
    split at h
    · cases h
    · rename_i hnone
      split at h
      · cases h
      · rename_i hunique
        split at h
        · cases h
        · rename_i hexists
          rw [if_neg hnone, if_neg hunique, if_neg]
          · exact h
          · cases hid : row.settlementId with
            | none => exact Bool.false_ne_true
            | some settlementId =>
              rw [hid] at hexists
              have hthere : settlementExists settlementId := by simpa using hexists
              simp [hsettlements settlementId hthere]
  | insertPosting id row =>
    simp only [LedgerStatement.exec] at h ⊢
    obtain ⟨_, hguard, h⟩ := bind_ok h
    split at h
    · cases h
    · rename_i hnone
      split at h
      · cases h
      · rename_i hrow
        rw [hguard]
        simp only [bind, Except.bind, if_neg hnone, hreferences (not_not.mp hrow)]
        exact h
  | updatePosting id id' row =>
    simp only [LedgerStatement.exec] at h ⊢
    split at h
    · exact h
    · obtain ⟨_, hguard, h⟩ := bind_ok h
      split at h
      · cases h
      · rename_i hfree
        split at h
        · cases h
        · rename_i hrow
          rw [hguard]
          simp only [bind, Except.bind, if_neg hfree, hreferences (not_not.mp hrow)]
          exact h
  | _ => exact h

theorem execAll_mono (hsettlements : ∀ id, settlementExists id → settlementExists' id)
    (haccounts : ∀ id, accountExists id → accountExists' id)
    (h : execAll settlementExists accountExists statements tx = .ok tx')
    (hstays : Stays settlementExists accountExists committed statements tx) :
    execAll settlementExists' accountExists' statements tx = .ok tx' ∧
      Stays settlementExists' accountExists' committed statements tx := by
  induction statements generalizing tx with
  | nil => exact ⟨h, hstays⟩
  | cons statement statements ih =>
    obtain ⟨tx₁, hstatement, hrest⟩ := bind_ok h
    have hstatement' := exec_mono hsettlements haccounts hstatement
    obtain ⟨hrest', hstays'⟩ := ih hrest (hstays.2 tx₁ hstatement)
    refine ⟨(execAll_cons hstatement').trans hrest', hstays.1, fun tx₂ htx₂ => ?_⟩
    obtain rfl := Except.ok.inj (hstatement'.symm.trans htx₂)
    exact hstays'

/-- A run of the ledger is one when more rows exist. -/
theorem later_mono (hsettlements : ∀ id, settlementExists id → settlementExists' id)
    (haccounts : ∀ id, accountExists id → accountExists' id)
    (h : (stayingLedger settlementExists accountExists).Later db db') :
    (stayingLedger settlementExists' accountExists').Later db db' := by
  induction h with
  | refl => exact .refl
  | tail _ hstep ih =>
    obtain ⟨statements, hstays, hcommit⟩ := hstep
    obtain ⟨tx, hall, hchecks⟩ := bind_ok hcommit
    obtain ⟨hall', hstays'⟩ := execAll_mono hsettlements haccounts hall hstays
    refine ih.tail ⟨statements, hstays', ?_⟩
    rw [commitTransaction, hall']
    exact hchecks

end Existence

section Runs
variable {settings : Settings} {law : ProviderLaw} {start : Database → Prop} {s s' : State}
  {db db' : Database} {tables tables' : LedgerTables} {id : UUID}

theorem Step.hasSettlement (h : Step settings law s s') (hid : s.db.hasSettlement id) :
    s'.db.hasSettlement id := by
  obtain ⟨row, hrow⟩ := Option.isSome_iff_exists.mp hid
  obtain ⟨status, hrow'⟩ := h.writes.extends id row hrow
  exact Option.isSome_iff_exists.mpr ⟨_, hrow'⟩

theorem Step.hasAccount (h : Step settings law s s') (hid : s.db.hasAccount id) :
    s'.db.hasAccount id := by
  obtain ⟨key, account, haccount, rfl⟩ := hasAccount_iff.mp hid
  have hidentity := h.ledger.identity_eq key
  rw [Database.identity, Database.identity, haccount, Option.map_some] at hidentity
  obtain ⟨account', haccount', heq⟩ := Option.map_eq_some_iff.mp hidentity
  exact hasAccount_iff.mpr ⟨key, account', haccount', congrArg Prod.fst heq⟩

theorem LedgerTables.Represents.of_journals_eq (h : tables.Represents db)
    (hjournals : db'.journals = db.journals) : tables.Represents db' :=
  ⟨hjournals ▸ h.journals, h.parents⟩

/-- There are always keys to draw. -/
theorem exists_fresh (tables : LedgerTables) :
    ∃ journalId debitPostingId creditPostingId,
      tables.Fresh journalId debitPostingId creditPostingId := by
  obtain ⟨journalId, hjournal⟩ := Infinite.exists_notMem_finset tables.journals.keys.toFinset
  obtain ⟨debitPostingId, hdebit⟩ := Infinite.exists_notMem_finset tables.postings.keys.toFinset
  obtain ⟨creditPostingId, hcredit⟩ :=
    Infinite.exists_notMem_finset (debitPostingId :: tables.postings.keys).toFinset
  rw [List.mem_toFinset] at hjournal hdebit
  rw [List.mem_toFinset, List.mem_cons, not_or] at hcredit
  exact ⟨journalId, debitPostingId, creditPostingId, AList.lookup_eq_none.mpr hjournal,
    AList.lookup_eq_none.mpr hdebit, AList.lookup_eq_none.mpr hcredit.2, hcredit.1⟩

theorem stays_postStatements {settlementExists accountExists : UUID → Bool}
    {settlement : Settlement id} {event : JournalEvent} {hevent : event ≠ .opening}
    {debit credit : Account} {journalId debitPostingId creditPostingId : UUID} {createdAt : Time} :
    Stays settlementExists accountExists tables (settlement.postStatements event hevent debit
      credit journalId debitPostingId creditPostingId createdAt) ⟨tables, []⟩ := by
  simp [Stays, Settlement.postStatements, LedgerStatement.Moves]

/-- **A step of the service is a transaction of the guarded ledger, or none.** -/
theorem Step.guarded (h : Step settings law s s') (hrepresents : tables.Represents s.db) :
    ∃ tables', (stayingLedger s'.db.hasSettlement s'.db.hasAccount).Later tables tables' ∧
      tables'.Represents s'.db := by
  cases h.posts with
  | none hjournals => exact ⟨tables, .refl, hrepresents.of_journals_eq hjournals⟩
  | one hposts =>
    obtain ⟨journalId, debitPostingId, creditPostingId, hfresh⟩ := exists_fresh tables
    obtain ⟨tables', hcommit, hrepresents'⟩ :=
      posts_commits 0 hrepresents hposts hfresh id fun _ => h.hasAccount
    exact ⟨tables', .single ⟨_, stays_postStatements, hcommit⟩, hrepresents'⟩

/-- **Every run of the service is a run of the guarded ledger.** -/
theorem guarded_of_later (h : (system settings law start).Later s s')
    (hrepresents : tables.Represents s.db) :
    ∃ tables', (stayingLedger s'.db.hasSettlement s'.db.hasAccount).Later tables tables' ∧
      tables'.Represents s'.db := by
  induction h with
  | refl => exact ⟨tables, .refl, hrepresents⟩
  | @tail t u _ hstep ih =>
    obtain ⟨tables₁, hlater, hrepresents₁⟩ := ih
    have hstep' : Step settings law t u := hstep
    obtain ⟨tables₂, hlater', hrepresents₂⟩ := hstep'.guarded hrepresents₁
    refine ⟨tables₂, .trans ?_ hlater', hrepresents₂⟩
    exact later_mono (fun _ => hstep'.hasSettlement) (fun _ => hstep'.hasAccount) hlater

/-- **The guards let the service through, and keep what it has posted.**  From tables that
hold its journals, guarded, every run of the service is one of the guarded ledger: the
tables it leads to are guarded and hold the journals there are then, and no journal that
was committed has changed.  And whatever transaction commits next posts no journal, or one
whose statements the triggers and the deferred check accept, under any fresh keys. -/
theorem journals_guarded (h : (system settings law start).Later s s')
    (hrepresents : tables.Represents s.db) (hguarded : tables.Guarded) :
    ∃ tables', (stayingLedger s'.db.hasSettlement s'.db.hasAccount).Later tables tables' ∧
      tables'.Represents s'.db ∧ tables'.Guarded ∧
      (∀ id, (tables.journals.lookup id).isSome → SameJournal tables tables' id) ∧
      ∀ s'', Step settings law s' s'' → s''.db.journals = s'.db.journals ∨
        ∃ (id : UUID) (settlement : Settlement id) (event : JournalEvent)
          (hevent : event ≠ .opening) (debit credit : Account),
          s''.db.journals = postedJournal settlement event hevent debit credit :: s'.db.journals ∧
          ∀ journalId debitPostingId creditPostingId createdAt,
            tables'.Fresh journalId debitPostingId creditPostingId →
            ∃ tables'', commitTransaction s''.db.hasSettlement s'.db.hasAccount
                (settlement.postStatements event hevent debit credit journalId debitPostingId
                  creditPostingId createdAt) tables' = .ok tables'' ∧
              tables''.Represents s''.db := by
  obtain ⟨tables', hlater, hrepresents'⟩ := guarded_of_later h hrepresents
  have hstart : (stayingLedger s'.db.hasSettlement s'.db.hasAccount).Reachable tables :=
    .init hguarded
  refine ⟨tables', hlater, hrepresents', guarded_of_reachable (hstart.later hlater),
    same_of_later hstart hlater, fun s'' hstep => ?_⟩
  cases hstep.posts with
  | none hjournals => exact .inl hjournals
  | one hposts =>
    refine .inr ⟨_, _, _, _, _, _, hposts.journals_eq, fun _ _ _ createdAt hfresh => ?_⟩
    exact posts_commits createdAt hrepresents' hposts hfresh id fun _ => id

theorem represents_empty (h : db.journals = []) : (⟨∅, ∅⟩ : LedgerTables).Represents db where
  journals := ⟨[], .nil, h ▸ .nil, fun _ hid => by cases hid⟩
  parents _ _ hrow := by cases hrow

/-- Two journals are posted, and held by the tables. -/
theorem journals_guarded_paid :
    ∃ s s' tables', (system sampleSettings .contract Database.Unused).Later s s' ∧
      (stayingLedger s'.db.hasSettlement s'.db.hasAccount).Later ⟨∅, ∅⟩ tables' ∧
      tables'.Represents s'.db ∧ tables'.Guarded ∧ s'.db.journals.length = 2 := by
  obtain ⟨s, s', -, hstart, hdb, hlater⟩ := sample_later sampleStart_unused
  have hempty : s.db.journals = [] := by
    rw [hstart]
    rfl
  obtain ⟨tables', hrun, hrepresents, hguarded, -⟩ :=
    journals_guarded hlater (represents_empty hempty) guarded_empty
  exact ⟨s, s', tables', hlater, hrun, hrepresents, hguarded, hdb ▸ rfl⟩

end Runs

end SettlementRouter
