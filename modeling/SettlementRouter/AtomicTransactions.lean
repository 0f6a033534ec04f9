import SettlementRouter.RowLocks

/-! # A transaction that runs alone

Executed one after the other, with nothing in between, the statements of a transaction do
what `Transaction.run` says in one step (`Transaction.ends_iff`).
-/
namespace SettlementRouter

open Statements

section Statements
variable {db : Database} {writes : List Change} {id : UUID} {attempt : PayoutAttempt}

/-- The database a transaction has come to. -/
abbrev sqlView (db : Database) (writes : List Change) : Database := sql.view db writes

@[simp] theorem sqlView_nil : sqlView db [] = db := rfl

@[simp] theorem sqlView_cons {change : Change} :
    sqlView db (change :: writes) = change.apply (sqlView db writes) := rfl

theorem ends_lockSettlement {outcome : Except ServiceError (Settlement id × List Change)} :
    sql.Ends db (execute (.lockSettlement id)) writes outcome ↔
      outcome = match (sqlView db writes).settlements.lookup id with
        | some row => .ok (row, writes)
        | none => .error .settlementNotFound := by
  refine ends_call.trans ⟨?_, ?_⟩
  · rintro (⟨row, new, touched, hanswers, rfl⟩ | ⟨e, touched, hfails, rfl⟩)
    · cases hanswers with
      | lockSettlement hrow => rw [hrow]; rfl
    · cases hfails with
      | lockSettlement hnone => rw [hnone]
  · rintro rfl
    cases hrow : (sqlView db writes).settlements.lookup id with
    | some row => exact .inl ⟨row, [], _, .lockSettlement hrow, rfl⟩
    | none => exact .inr ⟨_, _, .lockSettlement hrow, rfl⟩

theorem ends_lockAttempt {outcome : Except ServiceError (Option PayoutAttempt × List Change)} :
    sql.Ends db (execute (.lockAttempt id)) writes outcome ↔
      outcome = .ok ((sqlView db writes).attempts.lookup id, writes) := by
  refine ends_call.trans ⟨?_, ?_⟩
  · rintro (⟨row, new, touched, hanswers, rfl⟩ | ⟨e, touched, hfails, rfl⟩)
    · cases hanswers
      rfl
    · cases hfails
  · rintro rfl
    exact .inl ⟨_, [], _, .lockAttempt, rfl⟩

theorem ends_lockAccounts {debitKey creditKey : String × AccountPurpose}
    {outcome : Except ServiceError ((Account × Account) × List Change)} :
    sql.Ends db (execute (.lockAccounts debitKey creditKey)) writes outcome ↔
      outcome = (lockedAccounts (sqlView db writes) debitKey creditKey).map
        fun accounts => (accounts, writes) := by
  refine ends_call.trans ⟨?_, ?_⟩
  · rintro (⟨row, new, touched, hanswers, rfl⟩ | ⟨e, touched, hfails, rfl⟩)
    · cases hanswers with
      | lockAccounts haccounts => rw [haccounts]; rfl
    · cases hfails with
      | lockAccounts herror => rw [herror]; rfl
  · rintro rfl
    cases haccounts : lockedAccounts (sqlView db writes) debitKey creditKey with
    | ok accounts => exact .inl ⟨accounts, [], _, .lockAccounts haccounts, rfl⟩
    | error error => exact .inr ⟨_, _, .lockAccounts haccounts, rfl⟩

theorem ends_now {outcome : Except ServiceError (Time × List Change)} :
    sql.Ends db (execute .now) writes outcome ↔ ∃ now, outcome = .ok (now, writes) := by
  refine ends_call.trans ⟨?_, ?_⟩
  · rintro (⟨now, new, touched, hanswers, rfl⟩ | ⟨e, touched, hfails, rfl⟩)
    · cases hanswers
      exact ⟨now, rfl⟩
    · cases hfails
  · rintro ⟨now, rfl⟩
    exact .inl ⟨now, [], _, .now now, rfl⟩

/-- What follows a reading of the clock. -/
theorem ends_now_bind {α : Type} {next : Time → Sql α}
    {outcome : Except ServiceError (α × List Change)} :
    sql.Ends db (execute .now >>= next) writes outcome ↔
      ∃ now, sql.Ends db (next now) writes outcome := by
  rw [ends_bind]
  constructor
  · rintro (⟨now, _, hnow, h⟩ | ⟨_, hnow, -⟩)
    · obtain ⟨_, heq⟩ := ends_now.mp hnow
      cases heq
      exact ⟨now, h⟩
    · obtain ⟨_, heq⟩ := ends_now.mp hnow
      cases heq
  · rintro ⟨now, h⟩
    exact .inl ⟨now, writes, ends_now.mpr ⟨now, rfl⟩, h⟩

theorem ends_selectDue {now : Time} {limit : ℕ}
    {outcome : Except ServiceError (List DueRow × List Change)} :
    sql.Ends db (execute (.selectDue now limit)) writes outcome ↔
      ∃ locked, outcome = .ok (selectDue (sqlView db writes) now locked limit, writes) := by
  refine ends_call.trans ⟨?_, ?_⟩
  · rintro (⟨rows, new, touched, hanswers, rfl⟩ | ⟨e, touched, hfails, rfl⟩)
    · cases hanswers with
      | selectDue locked => exact ⟨locked, rfl⟩
    · cases hfails
  · rintro ⟨locked, rfl⟩
    exact .inl ⟨_, [], _, .selectDue locked, rfl⟩

theorem ends_insertSettlement {new : NewSettlement}
    {outcome : Except ServiceError (Settlement new.id × List Change)} :
    sql.Ends db (execute (.insertSettlement new)) writes outcome ↔
      outcome = new.row.bind fun row => (insertSettlement (sqlView db writes) row).map
        fun _ => (row, .insertSettlement new.id row :: writes) := by
  refine ends_call.trans ⟨?_, ?_⟩
  · rintro (⟨row, changes, touched, hanswers, rfl⟩ | ⟨e, touched, hfails, rfl⟩)
    · cases hanswers with
      | insertSettlement hrow hinsert =>
        rw [hrow, Except.bind, hinsert]
        rfl
    · cases hfails with
      | values herror => rw [herror]; rfl
      | insertSettlement hrow herror =>
        rw [hrow, Except.bind, herror]
        rfl
  · rintro rfl
    cases hrow : new.row with
    | error error => exact .inr ⟨_, _, .values hrow, rfl⟩
    | ok row =>
      cases hinsert : insertSettlement (sqlView db writes) row with
      | error error =>
        refine .inr ⟨error, _, .insertSettlement hrow hinsert, ?_⟩
        rw [Except.bind, hinsert]
        rfl
      | ok db' =>
        refine .inl ⟨row, _, _, .insertSettlement hrow hinsert, ?_⟩
        rw [Except.bind, hinsert]
        rfl

theorem ends_updateStatus {status : SettlementStatus}
    {outcome : Except ServiceError (Unit × List Change)}
    (hrow : ((sqlView db writes).settlements.lookup id).isSome) :
    sql.Ends db (execute (.updateStatus id status)) writes outcome ↔
      outcome = .ok ((), .updateStatus id status :: writes) := by
  refine ends_call.trans ⟨?_, ?_⟩
  · rintro (⟨row, new, touched, hanswers, rfl⟩ | ⟨e, touched, hfails, rfl⟩)
    · cases hanswers
      rfl
    · cases hfails
  · rintro rfl
    exact .inl ⟨_, _, _, .updateStatus hrow, rfl⟩

theorem ends_insertAttempt {outcome : Except ServiceError (Unit × List Change)} :
    sql.Ends db (execute (.insertAttempt id attempt)) writes outcome ↔
      outcome = (insertAttempt (sqlView db writes) id attempt).map
        fun _ => ((), .insertAttempt id attempt :: writes) := by
  refine ends_call.trans ⟨?_, ?_⟩
  · rintro (⟨row, new, touched, hanswers, rfl⟩ | ⟨e, touched, hfails, rfl⟩)
    · cases hanswers with
      | insertAttempt hinsert => rw [hinsert]; rfl
    · cases hfails with
      | insertAttempt herror => rw [herror]; rfl
  · rintro rfl
    cases hinsert : insertAttempt (sqlView db writes) id attempt with
    | ok db' => exact .inl ⟨_, _, _, .insertAttempt hinsert, rfl⟩
    | error error => exact .inr ⟨_, _, .insertAttempt hinsert, rfl⟩

theorem ends_updateAttempt {outcome : Except ServiceError (Unit × List Change)} :
    sql.Ends db (execute (.updateAttempt id attempt)) writes outcome ↔
      outcome = .ok ((), .updateAttempt id attempt :: writes) := by
  refine ends_call.trans ⟨?_, ?_⟩
  · rintro (⟨row, new, touched, hanswers, rfl⟩ | ⟨e, touched, hfails, rfl⟩)
    · cases hanswers
      rfl
    · cases hfails
  · rintro rfl
    exact .inl ⟨_, _, _, .updateAttempt, rfl⟩

theorem ends_insertJournal {journal : JournalTransaction}
    {outcome : Except ServiceError (Unit × List Change)} (hid : journal.settlementId = some id) :
    sql.Ends db (execute (.insertJournal journal)) writes outcome ↔
      outcome = if 0 < (sqlView db writes).journalCount id journal.event
        then .error (.integrityError .settlementEvent)
        else .ok ((), .insertJournal journal :: writes) := by
  refine ends_call.trans ⟨?_, ?_⟩
  · rintro (⟨row, new, touched, hanswers, rfl⟩ | ⟨e, touched, hfails, rfl⟩)
    · cases hanswers with
      | insertJournal hid' hnone =>
        obtain rfl := Option.some.inj (hid.symm.trans hid')
        rw [if_neg (by rw [hnone]; exact lt_irrefl 0)]
        rfl
    · cases hfails with
      | insertJournal hid' hsome =>
        obtain rfl := Option.some.inj (hid.symm.trans hid')
        rw [if_pos hsome]
  · rintro rfl
    split
    · exact .inr ⟨_, _, .insertJournal hid ‹_›, rfl⟩
    · exact .inl ⟨_, _, _, .insertJournal hid (Nat.eq_zero_of_not_pos ‹_›), rfl⟩

theorem ends_updateBalance {key : AccountKey} {account : Account}
    {outcome : Except ServiceError (Unit × List Change)} :
    sql.Ends db (execute (.updateBalance key account)) writes outcome ↔
      outcome = if Decimal.Fits 24 account.balance
        then .ok ((), .updateBalance key account :: writes) else .error .dataError := by
  refine ends_call.trans ⟨?_, ?_⟩
  · rintro (⟨row, new, touched, hanswers, rfl⟩ | ⟨e, touched, hfails, rfl⟩)
    · cases hanswers with
      | updateBalance hfits => rw [if_pos hfits]; rfl
    · cases hfails with
      | updateBalance hfits => rw [if_neg hfits]
  · rintro rfl
    split
    · exact .inl ⟨_, _, _, .updateBalance ‹_›, rfl⟩
    · exact .inr ⟨_, _, .updateBalance ‹_›, rfl⟩

end Statements

/-! ## The ledger -/

/-- What a transaction that runs alone leads to. -/
def committed {α : Type} (db : Database) (outcome : Except ServiceError (α × List Change)) :
    Except ServiceError (α × Database) :=
  outcome.map fun ended => (ended.1, sqlView db ended.2)

section Ledger
variable {db : Database} {writes : List Change} {id : UUID} {settlement : Settlement id}
  {event : JournalEvent} {hevent : event ≠ .opening} {debitKey creditKey : String × AccountPurpose}
  {outcome : Except ServiceError (Unit × List Change)}

/-- Updating a balance that was read is writing the account. -/
theorem updateBalance_of_lookup {key : AccountKey} {old account : Account}
    (hold : db.accounts.lookup key = some old) (hid : old.id = account.id) :
    (Change.updateBalance key account).apply db =
      { db with accounts := db.accounts.insert key account } := by
  rw [Change.apply, AList.adjust_of_some hold, if_pos hid]

theorem applyPosting_id {account account' : Account} {side : PostingSide} {amount : Units}
    (h : applyPosting account side amount = .ok account') : account.id = account'.id := by
  unfold applyPosting at h
  split at h
  · cases h
  · cases h
    rfl

@[simp] theorem postedJournal_event {debit credit : Account} :
    (postedJournal settlement event hevent debit credit).event = event := rfl

/-- What the writes of a posting lead to. -/
theorem apply_posting_changes {journal : JournalTransaction}
    {debit credit debited credited : Account}
    (hkeys : debitKey ≠ creditKey) (hdebit : db.accounts.lookup (usdAccount debitKey) = some debit)
    (hcredit : db.accounts.lookup (usdAccount creditKey) = some credit)
    (hdebited : debit.id = debited.id) (hcredited : credit.id = credited.id) :
    sqlView db [.updateBalance (usdAccount creditKey) credited,
      .updateBalance (usdAccount debitKey) debited, .insertJournal journal] =
    { db with
      accounts := (db.accounts.insert (usdAccount debitKey) debited).insert
        (usdAccount creditKey) credited
      journals := journal :: db.journals } := by
  have hfirst : (Change.updateBalance (usdAccount debitKey) debited).apply
      ((Change.insertJournal journal).apply db) =
      { db with
        accounts := db.accounts.insert (usdAccount debitKey) debited
        journals := journal :: db.journals } := updateBalance_of_lookup hdebit hdebited
  have hcredit' : (db.accounts.insert (usdAccount debitKey) debited).lookup
      (usdAccount creditKey) = some credit := by
    rw [AList.lookup_insert_ne (usdAccount_injective.ne hkeys.symm), hcredit]
  rw [sqlView_cons, sqlView_cons, sqlView_cons, sqlView_nil, hfirst]
  exact updateBalance_of_lookup hcredit' hcredited

/-- **Posting.** -/
theorem post_of_ends (hkeys : debitKey ≠ creditKey)
    (h : sql.Ends db (postStatements settlement event hevent debitKey creditKey) writes outcome) :
    post (sqlView db writes) settlement event hevent debitKey creditKey =
      outcome.map fun ended => sqlView db ended.2 := by
  unfold post
  simp only [bind, Except.bind, throw, throwThe, MonadExceptOf.throw, pure, Except.pure]
  -- statement by statement: the lock, the journal, the two postings, the two balances
  unfold postStatements at h
  rw [ends_bind_of fun _ => ends_lockAccounts] at h
  cases hlocked : lockedAccounts (sqlView db writes) debitKey creditKey with
  | error error =>
    rw [hlocked] at h
    cases h
    rfl
  | ok accounts =>
    obtain ⟨debit, credit⟩ := accounts
    rw [hlocked] at h
    dsimp only [Except.map] at h ⊢
    by_cases hfunds : debit.balance < settlement.amountUsd
    · rw [if_pos hfunds] at h ⊢
      cases h
      rfl
    rw [if_neg hfunds] at h ⊢
    rw [ends_bind_of fun _ => ends_insertJournal rfl, postedJournal_event] at h
    by_cases hfirst : 0 < (sqlView db writes).journalCount id event
    · rw [if_pos hfirst] at h ⊢
      cases h
      rfl
    rw [if_neg hfirst] at h ⊢
    dsimp only at h ⊢
    rw [ends_bind_of fun _ => ends_ofExcept] at h
    cases hdebited : applyPosting debit .debit settlement.amountUsd with
    | error error =>
      rw [hdebited] at h
      cases h
      rfl
    | ok debited =>
      rw [hdebited] at h
      dsimp only [Except.map] at h ⊢
      rw [ends_bind_of fun _ => ends_ofExcept] at h
      cases hcredited : applyPosting credit .credit settlement.amountUsd with
      | error error =>
        rw [hcredited] at h
        cases h
        rfl
      | ok credited =>
        rw [hcredited] at h
        dsimp only [Except.map] at h ⊢
        rw [ends_bind_of fun _ => ends_updateBalance] at h
        by_cases hfits : Decimal.Fits 24 debited.balance
        · rw [if_pos hfits] at h
          dsimp only at h
          rw [ends_updateBalance] at h
          by_cases hfits' : Decimal.Fits 24 credited.balance
          · rw [if_pos hfits'] at h
            subst h
            rw [if_neg (by simp [hfits, hfits'])]
            obtain ⟨hdebit, hcredit⟩ := lockedAccounts_ok.mp hlocked
            exact congrArg Except.ok (apply_posting_changes hkeys hdebit hcredit
              (applyPosting_id hdebited) (applyPosting_id hcredited)).symm
          · rw [if_neg hfits'] at h
            subst h
            rw [if_pos (.inr hfits')]
        · rw [if_neg hfits] at h
          cases h
          rw [if_pos (.inl hfits)]

end Ledger

/-! ## The transactions -/

section Transactions
variable {settings : Settings} {db : Database} {id : UUID}

theorem insertReserved_of_ends {new : NewSettlement}
    {outcome : Except ServiceError (Unit × List Change)}
    (h : sql.Ends db (insertReservedStatements new) [] outcome) :
    insertReserved new db = committed db outcome := by
  unfold insertReservedStatements at h
  rw [ends_bind_of fun _ => ends_insertSettlement] at h
  unfold insertReserved
  cases hrow : new.row with
  | error error =>
    rw [hrow] at h
    cases h
    rfl
  | ok row =>
    rw [hrow, Except.bind, sqlView_nil] at h
    cases hinsert : insertSettlement db row with
    | error error =>
      rw [hinsert] at h
      cases h
      simp [hinsert, bind, Except.bind, committed, Except.map]
    | ok db' =>
      rw [hinsert] at h
      obtain ⟨hnone, -, rfl⟩ := insertSettlement_ok hinsert
      have hpost := post_of_ends (by simp) h
      have hview : sqlView db [.insertSettlement new.id row] =
          { db with settlements := db.settlements.insert new.id row } := by
        rw [sqlView_cons, sqlView_nil, Change.apply, AList.insertNew_of_none hnone]
      rw [hview] at hpost
      simp only [bind, Except.bind, hinsert, reserve, hpost]
      cases outcome <;> rfl

theorem insertAttempt_view {writes : List Change} {attempt : PayoutAttempt}
    {reply : Option PayoutClaim} {outcome : Except ServiceError (Option PayoutClaim × List Change)}
    (h : sql.Ends db (do execute (.insertAttempt id attempt); return reply) writes outcome) :
    ((insertAttempt (sqlView db writes) id attempt).map fun db => (reply, db)) =
      committed db outcome := by
  rw [ends_bind_of fun _ => ends_insertAttempt] at h
  cases hinsert : insertAttempt (sqlView db writes) id attempt with
  | error error =>
    rw [hinsert] at h
    cases h
    rfl
  | ok db' =>
    rw [hinsert] at h
    cases h
    obtain ⟨hnone, rfl⟩ := insertAttempt_ok hinsert
    rw [committed, Except.map, Except.map, sqlView_cons, Change.apply,
      AList.insertNew_of_none hnone]

theorem claimReserved_of_ends {outcome : Except ServiceError (Option PayoutClaim × List Change)}
    (h : sql.Ends db (claimReservedStatements settings id) [] outcome) :
    ∃ clock, claimReserved settings clock id db = committed db outcome := by
  unfold claimReservedStatements at h
  rw [ends_bind_of fun _ => ends_lockSettlement, sqlView_nil] at h
  unfold claimReserved
  cases hrow : db.settlements.lookup id with
  | none =>
    rw [hrow] at h
    cases h
    exact ⟨fun _ => 0, rfl⟩
  | some row =>
    rw [hrow] at h
    dsimp only at h ⊢
    by_cases hstatus : row.status ≠ .reserved
    · rw [if_pos hstatus] at h
      simp only [if_pos hstatus]
      cases h
      exact ⟨fun _ => 0, rfl⟩
    rw [if_neg hstatus] at h
    simp only [if_neg hstatus]
    obtain ⟨now, h⟩ := ends_now_bind.mp h
    rw [ends_bind_of fun _ => ends_updateStatus (by simp [hrow])] at h
    have hview : sqlView db [.updateStatus id .payoutInProgress] =
        { db with settlements := db.settlements.insert id (row.withStatus .payoutInProgress) } := by
      rw [sqlView_cons, sqlView_nil, Change.apply, AList.adjust_of_some hrow]
    refine ⟨fun _ => now, ?_⟩
    rw [← insertAttempt_view h, hview]
    rfl

/-- Updating an attempt that was read is writing it. -/
theorem updateAttempt_of_lookup {old attempt : PayoutAttempt}
    (hold : db.attempts.lookup id = some old) (hop : attempt.operationId = old.operationId) :
    (Change.updateAttempt id attempt).apply db =
      { db with attempts := db.attempts.insert id attempt } := by
  rw [Change.apply, AList.adjust_of_some hold]
  cases attempt
  cases hop
  rfl

theorem claimForReconciliation_of_ends {respectSchedule : Bool}
    {outcome : Except ServiceError (Option PayoutClaim × List Change)}
    (h : sql.Ends db (claimForReconciliationStatements settings id respectSchedule) [] outcome) :
    ∃ clock,
      claimForReconciliation settings clock id respectSchedule db = committed db outcome := by
  unfold claimForReconciliationStatements at h
  rw [ends_bind_of fun _ => ends_lockSettlement, sqlView_nil] at h
  unfold claimForReconciliation
  cases hrow : db.settlements.lookup id with
  | none =>
    rw [hrow] at h
    cases h
    exact ⟨fun _ => 0, rfl⟩
  | some row =>
    rw [hrow] at h
    dsimp only at h ⊢
    by_cases hstatus : ¬ row.status.InFlight
    · rw [if_pos hstatus] at h
      simp only [if_pos hstatus]
      cases h
      exact ⟨fun _ => 0, rfl⟩
    rw [if_neg hstatus, ends_bind_of fun _ => ends_lockAttempt, sqlView_nil] at h
    simp only [if_neg hstatus]
    obtain ⟨now, h⟩ := ends_now_bind.mp h
    cases hattempt : db.attempts.lookup id with
    | none =>
      rw [hattempt] at h
      obtain ⟨later, h⟩ := ends_now_bind.mp h
      refine ⟨fun _ => later, ?_⟩
      rw [← insertAttempt_view h, sqlView_nil]
      rfl
    | some attempt =>
      rw [hattempt] at h
      dsimp only at h ⊢
      by_cases hclaimed : attempt.state = .claimed ∧ now < attempt.leaseExpiresAt
      · rw [if_pos hclaimed] at h
        cases h
        exact ⟨fun _ => now, if_pos hclaimed⟩
      rw [if_neg hclaimed] at h
      by_cases hschedule : respectSchedule ∧ now < attempt.leaseExpiresAt
      · rw [if_pos hschedule] at h
        cases h
        exact ⟨fun _ => now, by rw [if_neg hclaimed, if_pos hschedule]; rfl⟩
      rw [if_neg hschedule] at h
      obtain ⟨later, h⟩ := ends_now_bind.mp h
      rw [ends_bind_of fun _ => ends_updateAttempt] at h
      cases h
      have hop : (attempt.claim (settings.leaseDeadline later)).operationId =
        attempt.operationId := rfl
      refine ⟨Function.update (fun _ => later) 0 now, ?_⟩
      rw [Function.update_self, if_neg hclaimed, if_neg hschedule,
        Function.update_of_ne one_ne_zero,
        committed, Except.map, sqlView_cons, sqlView_nil, updateAttempt_of_lookup hattempt hop]

/-- The loop does not look at earlier readings of the clock. -/
theorem claimRows_congr {clock clock' : ℕ → Time} {rows : List DueRow} {k : ℕ}
    (hclock : ∀ i, k ≤ i → clock i = clock' i) :
    claimRows settings clock rows k db = claimRows settings clock' rows k db := by
  induction rows generalizing k db with
  | nil => rfl
  | cons row rows ih =>
    simp only [claimRows, hclock k le_rfl, ih fun i hi => hclock i (Nat.le_of_succ_le hi)]

theorem claimRows_of_ends {rows : List DueRow} {writes : List Change}
    {outcome : Except ServiceError (List PayoutClaim × List Change)} (k : ℕ)
    (hrows : ∀ row ∈ rows, (sqlView db writes).attempts.lookup row.id = some row.attempt)
    (hnodup : (rows.map DueRow.id).Nodup)
    (h : sql.Ends db (claimRowsStatements settings rows) writes outcome) :
    ∃ clock, .ok (claimRows settings clock rows k (sqlView db writes)) = committed db outcome := by
  induction rows generalizing writes outcome k with
  | nil =>
    cases h
    exact ⟨fun _ => 0, rfl⟩
  | cons row rows ih =>
    obtain ⟨hnotin, hnodup⟩ := List.nodup_cons.mp hnodup
    have hrow := hrows row List.mem_cons_self
    unfold claimRowsStatements at h
    obtain ⟨now, h⟩ := ends_now_bind.mp h
    dsimp only at h
    rw [ends_bind_of fun _ => ends_updateAttempt] at h
    dsimp only at h
    set attempt := row.attempt.claim (settings.leaseDeadline now) with hattempt
    have hop : attempt.operationId = row.attempt.operationId := rfl
    have hview : sqlView db (.updateAttempt row.id attempt :: writes) =
        { sqlView db writes with
          attempts := (sqlView db writes).attempts.insert row.id attempt } := by
      rw [sqlView_cons, updateAttempt_of_lookup hrow hop]
    have hothers : ∀ other ∈ rows, (sqlView db (.updateAttempt row.id attempt :: writes)
        ).attempts.lookup other.id = some other.attempt := by
      intro other hother
      have hne : other.id ≠ row.id := fun heq => hnotin (heq ▸ List.mem_map_of_mem hother)
      rw [hview]
      exact (AList.lookup_insert_ne hne).trans (hrows other (List.mem_cons_of_mem _ hother))
    obtain ⟨claims, writes', hclaims, h⟩ | ⟨error, herror, -⟩ := ends_bind.mp h
    · obtain ⟨clock, hclock⟩ := ih (k + 1) hothers hnodup hclaims
      cases h
      have hlater : claimRows settings (Function.update clock k now) rows (k + 1)
          (sqlView db (.updateAttempt row.id attempt :: writes)) =
        (claims, sqlView db writes') := by
        rw [claimRows_congr fun i hi => Function.update_of_ne (Nat.lt_of_succ_le hi).ne' _ _]
        exact Except.ok.inj hclock
      rw [hview] at hlater
      refine ⟨Function.update clock k now, ?_⟩
      simp only [claimRows, Function.update_self, ← hattempt, hlater]
      rfl
    · obtain ⟨clock, hclock⟩ := ih (k + 1) hothers hnodup herror
      cases hclock

theorem claimDueBatch_of_ends {limit : ℕ}
    {outcome : Except ServiceError (List PayoutClaim × List Change)}
    (h : sql.Ends db (claimDueBatchStatements settings limit) [] outcome) :
    ∃ clock locked, .ok (claimDueBatch settings clock locked limit db) = committed db outcome := by
  unfold claimDueBatchStatements at h
  obtain ⟨now, h⟩ := ends_now_bind.mp h
  obtain ⟨rows, writes, hselect, h⟩ | ⟨error, hselect, -⟩ := ends_bind.mp h
  · obtain ⟨locked, heq⟩ := ends_selectDue.mp hselect
    cases heq
    have hsub := selectDue_sublist db now locked limit
    have hrows : ∀ row ∈ selectDue db now locked limit,
        (sqlView db []).attempts.lookup row.id = some row.attempt := by
      intro row hrow
      exact (mem_joinedRows.mp (mem_dueRows.mp (hsub.subset hrow)).1).2
    obtain ⟨clock, hclock⟩ :=
      claimRows_of_ends 1 hrows ((hsub.map DueRow.id).nodup (dueRows_nodup db now)) h
    refine ⟨Function.update clock 0 now, locked, ?_⟩
    rw [← hclock, claimDueBatch, Function.update_self, claimRows_congr fun i hi =>
      Function.update_of_ne (Nat.lt_of_succ_le hi).ne' _ _]
    rfl
  · obtain ⟨_, heq⟩ := ends_selectDue.mp hselect
    cases heq

/-- The end of `_finalize_attempt`: the two rows are written back. -/
theorem written_of_ends {writes : List Change} {row : Settlement id} {old attempt : PayoutAttempt}
    {status : SettlementStatus} {outcome : Except ServiceError (SettlementRead × List Change)}
    (hrow : (sqlView db writes).settlements.lookup id = some row)
    (hold : (sqlView db writes).attempts.lookup id = some old)
    (h : sql.Ends db (do
      execute (.updateStatus id status)
      execute (.updateAttempt id attempt)
      return .fromOrmSettlement (row.withStatus status)) writes outcome)
    (hop : attempt.operationId = old.operationId) :
    committed db outcome = .ok (.fromOrmSettlement (row.withStatus status),
      { sqlView db writes with
        settlements := (sqlView db writes).settlements.insert id (row.withStatus status)
        attempts := (sqlView db writes).attempts.insert id attempt }) := by
  rw [ends_bind_of fun _ => ends_updateStatus (by simp [hrow])] at h
  dsimp only at h
  rw [ends_bind_of fun _ => ends_updateAttempt] at h
  cases h
  have hstatus : (Change.updateStatus id status).apply (sqlView db writes) =
      { sqlView db writes with
        settlements := (sqlView db writes).settlements.insert id (row.withStatus status) } := by
    rw [Change.apply, AList.adjust_of_some hrow]
  have hattempt : (Change.updateAttempt id attempt).apply { sqlView db writes with
        settlements := (sqlView db writes).settlements.insert id (row.withStatus status) } =
      { sqlView db writes with
        settlements := (sqlView db writes).settlements.insert id (row.withStatus status)
        attempts := (sqlView db writes).attempts.insert id attempt } :=
    updateAttempt_of_lookup hold hop
  rw [committed, Except.map, sqlView_cons, sqlView_cons, hstatus, hattempt]

/-- The same, after the ledger has moved. -/
theorem applied_of_ends {row : Settlement id} {old attempt : PayoutAttempt}
    {status : SettlementStatus} {event : JournalEvent} {hevent : event ≠ .opening}
    {creditKey : String × AccountPurpose}
    {outcome : Except ServiceError (SettlementRead × List Change)}
    (hrow : db.settlements.lookup id = some row) (hold : db.attempts.lookup id = some old)
    (h : sql.Ends db (do
      postStatements row event hevent (row.ownerId, .reserved) creditKey
      execute (.updateStatus id status)
      execute (.updateAttempt id attempt)
      return .fromOrmSettlement (row.withStatus status)) [] outcome)
    (hop : attempt.operationId = old.operationId) (hkeys : (row.ownerId, .reserved) ≠ creditKey) :
    committed db outcome = do
      let db' ← post db row event hevent (row.ownerId, .reserved) creditKey
      return (.fromOrmSettlement (row.withStatus status), { db' with
        settlements := db'.settlements.insert id (row.withStatus status)
        attempts := db'.attempts.insert id attempt }) := by
  obtain ⟨_, writes, hpost, h⟩ | ⟨error, hpost, rfl⟩ := ends_bind.mp h
  · have hposted : post db row event hevent (row.ownerId, .reserved) creditKey =
        .ok (sqlView db writes) := post_of_ends hkeys hpost
    have hsettlements := (post_ok hposted).settlements_eq
    have hattempts := (post_ok hposted).attempts_eq
    rw [written_of_ends (hsettlements ▸ hrow) (hattempts ▸ hold) h hop, hposted]
    rfl
  · have hposted : post db row event hevent (row.ownerId, .reserved) creditKey =
        .error error := post_of_ends hkeys hpost
    rw [hposted]
    rfl

theorem finalizeAttempt_of_ends {token : ℕ} {result : Option ProviderResult}
    {outcome : Except ServiceError (SettlementRead × List Change)}
    (h : sql.Ends db (finalizeAttemptStatements id token result) [] outcome) :
    ∃ clock, finalizeAttempt clock id token result db = committed db outcome := by
  unfold finalizeAttemptStatements at h
  rw [ends_bind_of fun _ => ends_lockSettlement, sqlView_nil] at h
  unfold finalizeAttempt
  cases hrow : db.settlements.lookup id with
  | none =>
    rw [hrow] at h
    cases h
    exact ⟨fun _ => 0, rfl⟩
  | some row =>
    rw [hrow] at h
    dsimp only at h ⊢
    rw [ends_bind_of fun _ => ends_lockAttempt, sqlView_nil] at h
    cases hattempt : db.attempts.lookup id with
    | none =>
      rw [hattempt] at h
      cases h
      exact ⟨fun _ => 0, rfl⟩
    | some attempt =>
      rw [hattempt] at h
      dsimp only at h ⊢
      by_cases htoken : attempt.attemptToken ≠ token
      · rw [if_pos htoken] at h
        simp only [if_pos htoken]
        cases h
        exact ⟨fun _ => 0, rfl⟩
      rw [if_neg htoken] at h
      simp only [if_neg htoken]
      by_cases hterminal : row.status.Terminal
      · rw [if_pos hterminal] at h
        simp only [if_pos hterminal]
        cases h
        exact ⟨fun _ => 0, rfl⟩
      rw [if_neg hterminal] at h
      simp only [if_neg hterminal]
      have hrow' : (sqlView db []).settlements.lookup id = some row := hrow
      have hattempt' : (sqlView db []).attempts.lookup id = some attempt := hattempt
      cases result with
      | none =>
        obtain ⟨now, h⟩ := ends_now_bind.mp h
        exact ⟨fun _ => now, (written_of_ends hrow' hattempt' h rfl).symm⟩
      | some result =>
        cases result with
        | paid => exact ⟨fun _ => 0, (applied_of_ends hrow hattempt h rfl (by simp)).symm⟩
        | unpaid => exact ⟨fun _ => 0, (applied_of_ends hrow hattempt h rfl (by simp)).symm⟩
        | ambiguous =>
          obtain ⟨now, h⟩ := ends_now_bind.mp h
          exact ⟨fun _ => now, (written_of_ends hrow' hattempt' h rfl).symm⟩

/-- **A transaction that runs alone** does what it does in one step. -/
theorem Transaction.run_of_ends {t : Transaction} {start : Sql t.Reply}
    {outcome : Except ServiceError (t.Reply × List Change)}
    (hstart : t.statements settings = some start) (h : sql.Ends db start [] outcome) :
    ∃ clock locked, t.run settings clock locked db = committed db outcome := by
  cases t with
  | findByKey ownerId idempotencyKey => cases hstart
  | get settlementId => cases hstart
  | insertReserved new =>
    cases hstart
    exact ⟨fun _ => 0, fun _ => false, insertReserved_of_ends h⟩
  | claimReserved settlementId =>
    cases hstart
    obtain ⟨clock, hclock⟩ := claimReserved_of_ends h
    exact ⟨clock, fun _ => false, hclock⟩
  | claimForReconciliation settlementId respectSchedule =>
    cases hstart
    obtain ⟨clock, hclock⟩ := claimForReconciliation_of_ends h
    exact ⟨clock, fun _ => false, hclock⟩
  | claimDueBatch limit =>
    cases hstart
    exact claimDueBatch_of_ends h
  | finalizeAttempt settlementId attemptToken result =>
    cases hstart
    obtain ⟨clock, hclock⟩ := finalizeAttempt_of_ends h
    exact ⟨clock, fun _ => false, hclock⟩

end Transactions

end SettlementRouter
