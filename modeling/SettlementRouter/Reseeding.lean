import SettlementRouter.Completion
import SettlementRouter.RowOrder
import SettlementRouter.Seeding

/-! # Seeding again

A restart of the container seeds again, on the ledger that its first run left and the
service has used since.  The ledger always adds up, but the auditor adds it up with
rounding and in the order of a query: with one settlement after the other that reserves all
the funds and fails, a ledger is reached which is rejected when all the credits are returned
before the debits (`churned_rejected`).

Where no running sum of the rows is rounded, seeding again succeeds and changes nothing;
whatever the ledger, up to ten thousand postings of one sign (`reseeding_iff`).
-/
namespace SettlementRouter

open Decimal (Fits Number ofColumn)
open Function (update)

/-! ## The ledger of a busy customer -/

/-- A key for each settlement. -/
def churnKey (i : ℕ) : String := String.ofList (List.replicate i 'k')

theorem churnKey_injective : Function.Injective churnKey := by
  intro i j h
  have hlength := congrArg String.length h
  simpa [churnKey] using hlength

/-- All the funds are to be paid out. -/
def churnCommand : SettlementCreate := ⟨maxUnits, .eur, by decide, by decide⟩

/-- At par. -/
def churnQuote : RouteQuote := ⟨1, .eur, 1, [⟨.usd, .eur, "LP_A", 1⟩]⟩

/-- What the `i`-th `create` inserts. -/
abbrev churnNew (i : ℕ) : NewSettlement :=
  churnCommand.new sampleSettings "ada" (churnKey i) churnQuote i

theorem par_positive : (0 : Units) < 100000000 := by decide

/-- The row of the `i`-th settlement. -/
def churnRow (i : ℕ) (status : SettlementStatus) : Settlement i where
  ownerId := "ada"
  idempotencyKey := churnKey i
  requestFingerprint := requestFingerprint sampleSettings.sha256 "ada" churnCommand
  amountUsd := maxUnits
  targetCurrency := .eur
  route := churnQuote.hops
  snapshotVersion := 1
  aggregateRate := 100000000
  quotedAmount := maxUnits
  providerOperationId := i
  status := status
  amount_positive := churnCommand.amount_positive
  rate_positive := par_positive
  quote_positive := churnCommand.amount_positive
  provider_operation_matches_id := rfl

theorem churn_row (i : ℕ) : (churnNew i).row = .ok (churnRow i .reserved) := by
  have hrate : Decimal.toColumn 24 8 (churnNew i).quote.aggregateRate = some 100000000 := by
    show Decimal.toColumn 24 8 1 = some 100000000
    decide +kernel
  have hquoted : Decimal.toColumn 32 8 (churnNew i).quotedAmount = some maxUnits := by
    show Decimal.toColumn 32 8 (sampleSettings.context.mul (ofColumn 8 maxUnits) 1) = some maxUnits
    decide +kernel
  unfold NewSettlement.row
  rw [hrate, hquoted]
  rfl

/-- Ada's AVAILABLE account, with this balance. -/
def churnAvailable (balance : ℕ) : Account := ⟨1, .liability, balance, Int.natCast_nonneg _⟩

/-- Ada's RESERVED account. -/
def churnReserved (balance : ℕ) : Account := ⟨2, .liability, balance, Int.natCast_nonneg _⟩

/-- The journal of the `i`-th reservation. -/
def reservation (i : ℕ) : JournalTransaction :=
  postedJournal (churnRow i .reserved) .reserve reserve_ne_opening
    (churnAvailable (10 ^ 24 - 1)) (churnReserved 0)

/-- The journal of the `i`-th release. -/
def refund (i : ℕ) : JournalTransaction :=
  postedJournal (churnRow i .payoutInProgress) .release release_ne_opening
    (churnReserved (10 ^ 24 - 1)) (churnAvailable 0)

/-- The attempt of the `i`-th payout. -/
def churnAttempt (i : ℕ) (state : AttemptState) (lastOutcome : Option LastOutcome) :
    PayoutAttempt :=
  ⟨i, state, 1, sampleSettings.leaseDeadline 0, lastOutcome, Nat.one_pos⟩

namespace Database
variable (db : Database) (i : ℕ)

/-- All the funds are reserved for the `i`-th settlement. -/
def reserved : Database where
  accounts := (db.accounts.insert (usdAccount ("ada", .available)) (churnAvailable 0)).insert
    (usdAccount ("ada", .reserved)) (churnReserved (10 ^ 24 - 1))
  settlements := db.settlements.insert i (churnRow i .reserved)
  journals := reservation i :: db.journals
  attempts := db.attempts

/-- Its payout is being submitted. -/
def submitting : Database := { db.reserved i with
  settlements := (db.reserved i).settlements.insert i (churnRow i .payoutInProgress)
  attempts := db.attempts.insert i (churnAttempt i .submitting none) }

/-- It has failed. -/
def failed : Database where
  accounts := ((db.submitting i).accounts.insert (usdAccount ("ada", .reserved))
    (churnReserved 0)).insert (usdAccount ("ada", .available)) (churnAvailable (10 ^ 24 - 1))
  settlements := (db.submitting i).settlements.insert i (churnRow i .failed)
  journals := refund i :: (db.submitting i).journals
  attempts := (db.submitting i).attempts.insert i (churnAttempt i .completed (some .unpaid))

end Database

/-- `count` settlements have reserved all the funds, and failed. -/
structure Churned (count : ℕ) (db : Database) : Prop where
  available : db.accounts.lookup (usdAccount ("ada", .available)) =
    some (churnAvailable (10 ^ 24 - 1))
  reserved : db.accounts.lookup (usdAccount ("ada", .reserved)) = some (churnReserved 0)
  settlements : ∀ id row, db.settlements.lookup id = some row →
    id < count ∧ row.idempotencyKey = churnKey id
  attempts : ∀ id attempt, db.attempts.lookup id = some attempt →
    id < count ∧ attempt.operationId = id
  journals : ∀ journal ∈ db.journals, ∀ id, journal.settlementId = some id → id < count
  changes : ∀ account : AuditedAccount, db.changes account.id account.accountClass =
    bookedChanges 3 1 account ++ (List.range count).flatMap fun _ =>
      bookedChanges 1 2 account ++ bookedChanges 2 1 account

section Churned
variable {db : Database} {count : ℕ}

theorem insertReserved_eq {new : NewSettlement} {row : Settlement new.id} {db₁ db₂ : Database}
    (hrow : new.row = .ok row) (hinsert : insertSettlement db row = .ok db₁)
    (hreserve : reserve db₁ row = .ok db₂) : insertReserved new db = .ok ((), db₂) := by
  simp only [insertReserved, hrow, hinsert, hreserve, bind, Except.bind, pure, Except.pure]

theorem Churned.journalCount (h : Churned count db) (event : JournalEvent) :
    db.journalCount count event = 0 := by
  refine List.countP_eq_zero.mpr fun journal hjournal hcounted => ?_
  simp only [decide_eq_true_eq] at hcounted
  exact lt_irrefl count (h.journals journal hjournal count hcounted.1)

theorem Churned.findByKey (h : Churned count db) : findByKey db "ada" (churnKey count) = none := by
  refine findByKey_eq_none.mpr fun id row hrow hkey => ?_
  obtain ⟨hlt, hid⟩ := h.settlements id row hrow
  exact hlt.ne (churnKey_injective (hid.symm.trans hkey.2))

/-- The next settlement reserves all the funds. -/
theorem Churned.insertReserved (h : Churned count db) :
    insertReserved (churnNew count) db = .ok ((), db.reserved count) := by
  have hnone : db.settlements.lookup count = none := by
    by_contra hsome
    obtain ⟨row, hrow⟩ := Option.ne_none_iff_exists'.mp hsome
    exact lt_irrefl count (h.settlements count row hrow).1
  have hinsert : insertSettlement db (churnRow count .reserved) = .ok { db with
      settlements := db.settlements.insert count (churnRow count .reserved) } := by
    have hkey : SettlementRouter.findByKey db (churnRow count .reserved).ownerId
      (churnRow count .reserved).idempotencyKey = none := h.findByKey
    unfold insertSettlement
    rw [hnone, hkey]
    rfl
  have hpost : reserve { db with
      settlements := db.settlements.insert count (churnRow count .reserved) }
      (churnRow count .reserved) = .ok (db.reserved count) :=
    post_eq h.available h.reserved le_rfl (h.journalCount .reserve) rfl rfl (by decide) (by decide)
  exact insertReserved_eq (churn_row count) hinsert hpost

/-- Its payout is submitted. -/
theorem Churned.claimReserved (h : Churned count db) :
    claimReserved sampleSettings (fun _ => 0) count (db.reserved count) =
      .ok (some ⟨.fromOrmSettlement (churnRow count .payoutInProgress), 1⟩,
        db.submitting count) := by
  have hoperations : (db.reserved count).Operations := fun id attempt hattempt =>
    (h.attempts id attempt hattempt).2
  have hnone : (db.reserved count).attempts.lookup count = none := by
    by_contra hsome
    obtain ⟨attempt, hattempt⟩ := Option.ne_none_iff_exists'.mp hsome
    exact lt_irrefl count (h.attempts count attempt hattempt).1
  exact claimReserved_eq sampleSettings (fun _ => 0) hoperations (AList.lookup_insert _) rfl hnone

/-- It fails, and the funds are released. -/
theorem Churned.finalizeAttempt (h : Churned count db) :
    finalizeAttempt (fun _ => 0) count 1 (some .unpaid) (db.submitting count) =
      .ok (.fromOrmSettlement (churnRow count .failed), db.failed count) := by
  have hrow : (db.submitting count).settlements.lookup count =
      some (churnRow count .payoutInProgress) := AList.lookup_insert _
  have hattempt : (db.submitting count).attempts.lookup count =
      some (churnAttempt count .submitting none) := AList.lookup_insert _
  -- the journals of this settlement: its reservation, and no release yet
  have hfirst : (db.submitting count).journalCount count .release = 0 := by
    have hreservation : (db.submitting count).journalCount count .release =
        db.journalCount count .release :=
      List.countP_cons_of_neg (by simp [reservation, postedJournal])
    rw [hreservation, h.journalCount]
  have havailable : (db.submitting count).accounts.lookup (usdAccount ("ada", .available)) =
      some (churnAvailable 0) := by
    show ((db.accounts.insert _ _).insert _ _).lookup _ = _
    rw [AList.lookup_insert_ne (usdAccount_injective.ne (by simp)), AList.lookup_insert]
  have hpost : release (db.submitting count) (churnRow count .payoutInProgress) = .ok
      { db.submitting count with
        accounts := (db.failed count).accounts
        journals := (db.failed count).journals } :=
    post_eq (AList.lookup_insert _) havailable le_rfl hfirst rfl rfl (by decide) (by decide)
  simp only [SettlementRouter.finalizeAttempt, hrow, hattempt, hpost]
  rfl

/-- What a journal over all the funds adds to an account. -/
theorem funds_changes (hmax : 0 < maxUnits) (debitId creditId : UUID) (account : AuditedAccount) :
    (([⟨debitId, .usd, .debit, maxUnits, hmax⟩, ⟨creditId, .usd, .credit, maxUnits, hmax⟩] :
      List Posting).filter fun posting => posting.accountId = account.id).map
        (·.change account.accountClass) = bookedChanges debitId creditId account := by
  unfold bookedChanges
  rw [List.filter_cons, List.filter_singleton]
  by_cases hdebit : debitId = account.id <;>
    by_cases hcredit : creditId = account.id <;> simp [hdebit, hcredit, Posting.change]

theorem reserved_changes (account : AuditedAccount) :
    (db.reserved count).changes account.id account.accountClass =
      db.changes account.id account.accountClass ++ bookedChanges 1 2 account := by
  have hjournals : (db.reserved count).journals = reservation count :: db.journals := rfl
  rw [changes_cons hjournals]
  exact congrArg _ (funds_changes _ 1 2 account)

theorem failed_changes (account : AuditedAccount) :
    (db.failed count).changes account.id account.accountClass =
      (db.reserved count).changes account.id account.accountClass ++
        bookedChanges 2 1 account := by
  have hjournals : (db.failed count).journals =
      refund count :: (db.reserved count).journals := rfl
  rw [changes_cons hjournals]
  exact congrArg _ (funds_changes _ 2 1 account)

/-- **One more settlement has failed.** -/
theorem Churned.failed (h : Churned count db) : Churned (count + 1) (db.failed count) where
  available := AList.lookup_insert _
  reserved := by
    show (((db.submitting count).accounts.insert _ _).insert _ _).lookup _ = _
    rw [AList.lookup_insert_ne (usdAccount_injective.ne (by simp)), AList.lookup_insert]
  settlements := by
    intro id row hrow
    by_cases hid : id = count
    · subst hid
      obtain rfl := Option.some.inj ((AList.lookup_insert _).symm.trans hrow)
      exact ⟨Nat.lt_succ_self _, rfl⟩
    · have hbefore : db.settlements.lookup id = some row := by
        rw [← hrow]
        show _ = (((db.settlements.insert count _).insert count _).insert count _).lookup id
        rw [AList.lookup_insert_ne hid, AList.lookup_insert_ne hid, AList.lookup_insert_ne hid]
      obtain ⟨hlt, hkey⟩ := h.settlements id row hbefore
      exact ⟨Nat.lt_succ_of_lt hlt, hkey⟩
  attempts := by
    intro id attempt hattempt
    by_cases hid : id = count
    · subst hid
      obtain rfl := Option.some.inj ((AList.lookup_insert _).symm.trans hattempt)
      exact ⟨Nat.lt_succ_self _, rfl⟩
    · have hbefore : db.attempts.lookup id = some attempt := by
        rw [← hattempt]
        show _ = ((db.attempts.insert count _).insert count _).lookup id
        rw [AList.lookup_insert_ne hid, AList.lookup_insert_ne hid]
      obtain ⟨hlt, hoperation⟩ := h.attempts id attempt hbefore
      exact ⟨Nat.lt_succ_of_lt hlt, hoperation⟩
  journals := by
    intro journal hjournal id hid
    obtain rfl | hjournal := List.mem_cons.mp hjournal
    · obtain rfl := Option.some.inj hid
      exact Nat.lt_succ_self _
    obtain rfl | hjournal := List.mem_cons.mp hjournal
    · obtain rfl := Option.some.inj hid
      exact Nat.lt_succ_self _
    · exact Nat.lt_succ_of_lt (h.journals journal hjournal id hid)
  changes := by
    intro account
    rw [failed_changes, reserved_changes, h.changes, List.range_succ, List.flatMap_append,
      List.flatMap_singleton, List.append_assoc, List.append_assoc]

end Churned

/-! ## The run -/

/-- The ids the first run draws. -/
def sampleIds : SeedIds := ⟨3, 4, 1, 2⟩

/-- Ada's database after the first run of seeding. -/
def churnStart : Database := seededDatabase sampleIds "ada" maxUnits (by decide)

theorem churned_start : Churned 0 churnStart where
  available := AList.lookup_insert _
  reserved := by
    show (((addAll _ _).accounts.insert _ _).insert _ _).lookup _ = _
    rw [AList.lookup_insert_ne (usdAccount_injective.ne (by simp)),
      AList.lookup_insert_ne (usdAccount_injective.ne (by simp)), lookup_addAll_iff]
    simp [seedAccounts, churnReserved, sampleIds]
  settlements := fun id row hrow => by cases hrow
  attempts := fun id attempt hattempt => by cases hattempt
  journals := by
    intro journal hjournal id hid
    obtain rfl := List.mem_singleton.mp hjournal
    cases hid
  changes := by
    intro account
    have hjournals : churnStart.journals =
        openingJournal sampleIds maxUnits (by decide) :: Database.empty.journals := rfl
    rw [changes_cons hjournals]
    exact (congrArg _ (funds_changes _ 3 1 account)).trans (List.append_nil _).symm

/-- **The run**: one settlement after the other reserves all the funds and fails. -/
theorem churned_reachable (count : ℕ) :
    ∃ s, (system sampleSettings .contract (· = churnStart)).Reachable s ∧ Churned count s.db ∧
      (∀ w, count ≤ w → s.workers w = .idle) ∧ (∀ v new, ¬ s.Inserting v new) ∧
      ∀ id, count ≤ id → s.provider id = none := by
  induction count with
  | zero =>
    refine ⟨⟨⟨churnStart, 0, fun _ => none, [], []⟩, fun _ => .idle⟩,
      .init ⟨rfl, fun _ => rfl, rfl, rfl, rfl⟩, churned_start, fun _ _ => rfl, ?_, fun _ _ => rfl⟩
    rintro v new ⟨call, next, hworker⟩
    cases hworker
  | succ count ih =>
    obtain ⟨s, hs, hchurned, hidle, halone, hprovider⟩ := ih
    -- worker `count` makes the next call: the insert first, then the refused payout
    obtain ⟨s₁, hlater, hdb, hprovider₁, hworkers⟩ := later_reserved churnQuote count
      (hidle count le_rfl) halone hchurned.findByKey hchurned.insertReserved
    have hworker : s₁.workers count = .running (.create "ada" (churnKey count) churnCommand)
        (.settlement <$> submit count) false := by
      rw [hworkers, Function.update_self]
    have hnone : s₁.provider count = none := by
      rw [hprovider₁]
      exact hprovider count le_rfl
    have hclaim := hchurned.claimReserved
    rw [← hdb] at hclaim
    obtain ⟨s₂, hlater', hdb', hprovider₂, hworkers'⟩ :=
      later_failed hworker hnone hclaim hchurned.finalizeAttempt
    refine ⟨s₂, (hs.later hlater).later hlater', ?_, fun w hw => ?_,
      not_inserting (not_inserting halone hworkers) hworkers', fun id hid => ?_⟩
    · rw [hdb']
      exact hchurned.failed
    · have hw' : w ≠ count := by omega
      rw [hworkers', Function.update_of_ne hw', hworkers, Function.update_of_ne hw']
      exact hidle w (by omega)
    · rw [hprovider₂ id (Nat.lt_of_succ_le hid).ne', hprovider₁]
      exact hprovider id (Nat.le_of_succ_le hid)

/-- The last settlement is in flight. -/
theorem churned_reserved (count : ℕ) :
    ∃ s, (system sampleSettings .contract (· = churnStart)).Reachable s ∧
      ⟨2, .liability, maxUnits⟩ ∈ s.db.accountRows ∧
      ∀ account, accountChanges s.db.postingRows account =
        accountChanges ((churnWritten count).flatMap (·.postings)) account := by
  obtain ⟨s, hs, hchurned, hidle, halone, -⟩ := churned_reachable count
  obtain ⟨s', hlater, hdb, -⟩ := later_reserved churnQuote count (hidle count le_rfl) halone
    hchurned.findByKey hchurned.insertReserved
  refine ⟨s', hs.later hlater, ?_, fun account => ?_⟩
  · rw [hdb]
    exact @mem_accountRows_of_lookup _ _ (churnReserved (10 ^ 24 - 1)) (AList.lookup_insert _)
  · rw [accountChanges_postingRows, hdb, reserved_changes, hchurned.changes, written_changes,
      List.append_assoc]

/-! ## The order in which it is rejected -/

/-- The credits before the debits. -/
def creditsFirst (postings : List AuditedPosting) : List AuditedPosting :=
  postings.filter (·.side = .credit) ++ postings.filter fun posting => ¬ posting.side = .credit

theorem creditsFirst_perm (postings : List AuditedPosting) :
    (creditsFirst postings).Perm postings := by
  simpa [creditsFirst] using
    List.filter_append_perm (fun posting => decide (posting.side = .credit)) postings

/-- A query that returns the credits before the debits. -/
def QueryOrder.creditsFirst : QueryOrder := ⟨SettlementRouter.creditsFirst, creditsFirst_perm⟩

section Rejected
variable {db : Database} {order : QueryOrder} {rows : LedgerRows} {count : ℕ}

theorem postingRows_positive : ∀ posting ∈ db.postingRows, 0 < posting.amount := by
  intro posting hposting
  obtain ⟨-, -, -, written, -, rfl⟩ := mem_postingRows hposting
  exact written.amount_positive

/-- A liability is first increased and then decreased. -/
theorem creditsFirst_changes {postings : List AuditedPosting} {account : AuditedAccount}
    (hclass : account.accountClass = .liability)
    (hpositive : ∀ posting ∈ postings, 0 < posting.amount) :
    accountChanges (creditsFirst postings) account =
      (accountChanges postings account).filter (0 < ·) ++
        (accountChanges postings account).filter fun unit => ¬ 0 < unit := by
  have hsign (posting : AuditedPosting) (hposting : posting ∈ accountPostings postings account.id) :
      0 < change account.accountClass posting.side posting.amount ↔ posting.side = .credit := by
    have hamount := hpositive posting (List.mem_of_mem_filter hposting)
    rw [hclass]
    cases hside : posting.side with
    | debit => simp [change, increases, hamount.le]
    | credit => simp [change, increases, hamount]
  unfold accountChanges creditsFirst accountPostings at *
  rw [List.filter_append, List.map_append, List.filter_map, List.filter_map, List.filter_comm,
    List.filter_comm (fun posting : AuditedPosting => decide (posting.accountId = account.id))
      fun posting => decide ¬posting.side = .credit]
  congr 2
  · refine List.filter_congr fun posting hposting => ?_
    exact decide_eq_decide.mpr (hsign posting hposting).symm
  · refine List.filter_congr fun posting hposting => ?_
    exact decide_eq_decide.mpr (not_congr (hsign posting hposting)).symm

/-- The running sum of the reserved funds rises to 10001 times all there are, and falls. -/
theorem creditsFirst_reserved (h : ∀ account, accountChanges db.postingRows account =
      accountChanges ((churnWritten count).flatMap (·.postings)) account) :
    accountChanges (creditsFirst db.postingRows) ⟨2, .liability, maxUnits⟩ =
      List.replicate (count + 1) maxUnits ++ List.replicate count (-maxUnits) := by
  have hopening : bookedChanges 3 1 ⟨2, .liability, maxUnits⟩ = [] := rfl
  have hreserve : bookedChanges 1 2 ⟨2, .liability, maxUnits⟩ = [maxUnits] := rfl
  have hrelease : bookedChanges 2 1 ⟨2, .liability, maxUnits⟩ = [-maxUnits] := rfl
  have hrises : ([maxUnits] ++ [-maxUnits]).filter (0 < ·) = [maxUnits] := by decide
  have hfalls : ([maxUnits] ++ [-maxUnits]).filter (fun unit => ¬ 0 < unit) = [-maxUnits] := by
    decide
  have hlast : [maxUnits].filter (0 < ·) = [maxUnits] := by decide
  have hlast' : [maxUnits].filter (fun unit => ¬ 0 < unit) = [] := by decide
  rw [creditsFirst_changes rfl postingRows_positive, h, written_changes, hopening, hreserve,
    hrelease, List.nil_append, List.filter_append, List.filter_append, List.filter_flatMap,
    List.filter_flatMap, hrises, hfalls, hlast, hlast', range_flatMap_const, range_flatMap_const,
    List.append_nil, List.replicate_succ']

/-- **It is rejected**, though it adds up. -/
theorem creditsFirst_rejected (hreserved : ⟨2, .liability, maxUnits⟩ ∈ db.accountRows)
    (h : ∀ account, accountChanges db.postingRows account =
      accountChanges ((churnWritten 10000).flatMap (·.postings)) account)
    (hrows : rows.Returned .creditsFirst db) :
    assertLedgerInvariants (.prec 28) .creditsFirst db ≠ .ok () := by
  unfold assertLedgerInvariants
  rw [← hrows.accounts, ← hrows.postings]
  intro hok
  obtain ⟨-, -, hmaterialized⟩ := auditLedger_ok.mp hok
  have hbalance := hmaterialized ⟨2, .liability, maxUnits⟩ (hrows.accounts ▸ hreserved)
  have hpostings : rows.postings = creditsFirst db.postingRows := hrows.postings
  rw [LedgerRows.entries_eq (by norm_num), hpostings, creditsFirst_reserved h,
    reserved_total] at hbalance
  exact absurd (Decimal.ofColumn_injective hbalance) (by decide)

/-- No account has more than `count + 1` postings of one sign. -/
theorem churned_atMost (hrecounted : Recounted db)
    (h : ∀ account, accountChanges db.postingRows account =
      accountChanges ((churnWritten count).flatMap (·.postings)) account)
    (hrows : rows.Returned order db) : rows.AtMost (count + 1) := by
  have hpostings : rows.postings.Perm db.postingRows := hrows.postings ▸ order.perm _
  intro units hunits
  cases hunits with
  | journal journalId currency side =>
    have hlength : (journalAmounts rows.postings journalId currency side).length ≤ count + 1 := by
      have hsame : (journalAmounts rows.postings journalId currency side).length =
        (journalAmounts db.postingRows journalId currency side).length :=
          ((hpostings.filter _).map _).length_eq
      rw [hsame]
      exact (hrecounted.journalAmounts_length journalId currency side).trans
        (Nat.le_add_left 1 count)
    exact ⟨List.countP_le_length.trans hlength, List.countP_le_length.trans hlength⟩
  | @account account haccount =>
    have hperm : (accountChanges rows.postings account).Perm
        (accountChanges ((churnReturned count).flatMap (·.postings)) account) := by
      refine ((hpostings.filter _).map _).trans ?_
      have hsame : accountChanges db.postingRows account =
        accountChanges ((churnWritten count).flatMap (·.postings)) account := h account
      unfold accountChanges accountPostings at hsame
      rw [hsame]
      exact (((churn_perm count).flatMap_right _).filter _).map _
    rw [hperm.countP_eq, hperm.countP_eq]
    exact ⟨churn_countP count account _ (by simp), churn_countP count account _ (by simp)⟩

end Rejected

/-! ## When it succeeds -/

/-- A restart succeeds on every ledger of the service with at most `count` postings of one
sign to an account or on one side of a journal. -/
def RestartsUpTo (count : ℕ) : Prop :=
  ∀ (settings : Settings) (law : ProviderLaw) (order order' : QueryOrder) (ids ids' : SeedIds)
    (ownerId : String) (amount : Number) (db : Database) (s : State) (rows : LedgerRows),
    seedDemoAccounts (.prec 28) order ids ownerId amount .empty = .ok db →
    (system settings law (· = db)).Reachable s → rows.Returned order' s.db → rows.AtMost count →
    runSeed (.prec 28) order' ids' ownerId amount s.db = (.ok (), s.db)

section Restarts
variable {settings : Settings} {law : ProviderLaw} {ids : SeedIds} {ownerId : String}
  {amount : Number} {db : Database} {s : State} {order order' : QueryOrder} {rows : LedgerRows}

/-- **Where nothing is rounded a restart succeeds.** -/
theorem runSeed_unrounded (ids' : SeedIds)
    (hfirst : seedDemoAccounts (.prec 28) order ids ownerId amount .empty = .ok db)
    (h : (system settings law (· = db)).Reachable s) (hrows : rows.Returned order' s.db)
    (hunrounded : rows.Unrounded 28) :
    runSeed (.prec 28) order' ids' ownerId amount s.db = (.ok (), s.db) := by
  obtain ⟨units, rfl, hseeded⟩ := seeded_of_reachable (by decide) hfirst h
  have haudit := hseeded.recounted.assertLedgerInvariants hrows hunrounded (by norm_num)
  unfold runSeed
  rw [hseeded.rerun_ok haudit]

/-- A restart changes nothing, and fails if at all with one error. -/
theorem runSeed_or (ids' : SeedIds)
    (hfirst : seedDemoAccounts (.prec 28) order ids ownerId amount .empty = .ok db)
    (h : (system settings law (· = db)).Reachable s) :
    runSeed (.prec 28) order' ids' ownerId amount s.db = (.ok (), s.db) ∨
      runSeed (.prec 28) order' ids' ownerId amount s.db = (.error inconsistent, s.db) := by
  obtain ⟨units, rfl, hseeded⟩ := seeded_of_reachable (by decide) hfirst h
  unfold runSeed
  by_cases haudit : assertLedgerInvariants (.prec 28) order' s.db = .ok ()
  · rw [hseeded.rerun_ok haudit]
    exact .inl rfl
  · rw [hseeded.rerun_rejected haudit]
    exact .inr rfl

/-- **With another owner or another amount it fails.** -/
theorem runSeed_other (ids' : SeedIds) {ownerId' : String} {amount' : Number}
    (hfirst : seedDemoAccounts (.prec 28) order ids ownerId amount .empty = .ok db)
    (h : (system settings law (· = db)).Reachable s)
    (hother : ownerId' ≠ ownerId ∨ amount' ≠ amount) :
    runSeed (.prec 28) order' ids' ownerId' amount' s.db = (.error inconsistent, s.db) := by
  obtain ⟨units, rfl, hseeded⟩ := seeded_of_reachable (by decide) hfirst h
  unfold runSeed
  by_cases howner : ownerId' = ownerId
  · subst howner
    rw [hseeded.rerun_amount (hother.resolve_left fun hne => hne rfl)]
  · rw [hseeded.rerun_other howner]

/-- The first run of the churned ledger. -/
theorem churnStart_seeded : seedDemoAccounts (.prec 28) order sampleIds "ada"
    (.finite (ofColumn 8 maxUnits)) .empty = .ok churnStart :=
  seedDemoAccounts_succeeds (by decide) (by decide) maxUnits_fits

/-- **A ledger that the service leaves**, and the next restart does not accept. -/
theorem churned_fails :
    ∃ s, (system sampleSettings .contract (· = churnStart)).Reachable s ∧
      (∃ rows : LedgerRows, rows.Returned .creditsFirst s.db ∧ rows.AtMost 10001) ∧
      runSeed (.prec 28) .creditsFirst sampleIds "ada" (.finite (ofColumn 8 maxUnits)) s.db =
        (.error inconsistent, s.db) := by
  obtain ⟨s, hs, hreserved, hchanges⟩ := churned_reserved 10000
  have hfirst := @churnStart_seeded .written
  obtain ⟨units, -, hseeded⟩ := seeded_of_reachable (by decide) hfirst hs
  obtain ⟨rows, hrows⟩ := hseeded.recounted.exists_rows .creditsFirst
  refine ⟨s, hs, ⟨rows, hrows, churned_atMost hseeded.recounted hchanges hrows⟩, ?_⟩
  unfold runSeed
  rw [hseeded.rerun_rejected (creditsFirst_rejected hreserved hchanges hrows)]

theorem restartsUpTo_iff {count : ℕ} : RestartsUpTo count ↔ count ≤ 10000 := by
  constructor
  · intro hrestarts
    by_contra hcount
    obtain ⟨s, hs, ⟨rows, hrows, hatMost⟩, hfails⟩ := churned_fails
    have hmore : rows.AtMost count := hatMost.mono (by omega)
    have hok := hrestarts _ _ .written _ _ sampleIds _ _ _ _ _ churnStart_seeded hs hrows hmore
    rw [hfails] at hok
    cases hok
  · intro hcount settings law order order' ids ids' ownerId amount db s rows hfirst h hrows hatMost
    exact runSeed_unrounded ids' hfirst h hrows (hatMost.mono hcount).unrounded

/-- **When seeding is idempotent** over the life of the ledger.  A later run of the same
configuration changes nothing, and succeeds where its queries return rows of which no
running sum is rounded; on every ledger with at most `count` postings of one sign exactly
when `count` is at most ten thousand.  With another owner or another amount it always
fails, and changes nothing either. -/
theorem reseeding_iff
    (hfirst : seedDemoAccounts (.prec 28) order ids ownerId amount .empty = .ok db)
    (h : (system settings law (· = db)).Reachable s) (order' : QueryOrder) (ids' : SeedIds)
    (count : ℕ) :
    (∃ rows : LedgerRows, rows.Returned order' s.db) ∧
      (∀ rows : LedgerRows, rows.Returned order' s.db → rows.Unrounded 28 →
        runSeed (.prec 28) order' ids' ownerId amount s.db = (.ok (), s.db)) ∧
      (runSeed (.prec 28) order' ids' ownerId amount s.db = (.ok (), s.db) ∨
        runSeed (.prec 28) order' ids' ownerId amount s.db = (.error inconsistent, s.db)) ∧
      (∀ ownerId' amount', ownerId' ≠ ownerId ∨ amount' ≠ amount →
        runSeed (.prec 28) order' ids' ownerId' amount' s.db = (.error inconsistent, s.db)) ∧
      (RestartsUpTo count ↔ count ≤ 10000) := by
  obtain ⟨units, -, hseeded⟩ := seeded_of_reachable (by decide) hfirst h
  refine ⟨hseeded.recounted.exists_rows order', fun rows hrows hunrounded => ?_, ?_,
    fun ownerId' amount' hother => ?_, restartsUpTo_iff⟩
  · exact runSeed_unrounded ids' hfirst h hrows hunrounded
  · exact runSeed_or ids' hfirst h
  · exact runSeed_other ids' hfirst h hother

/-- One settlement is in flight, and the credits are returned before the debits. -/
theorem reseeding_iff_reserved :
    ∃ s, (system sampleSettings .contract (· = churnStart)).Reachable s ∧
      ⟨2, .liability, maxUnits⟩ ∈ s.db.accountRows ∧
      runSeed (.prec 28) .creditsFirst sampleIds "ada" (.finite (ofColumn 8 maxUnits)) s.db =
        (.ok (), s.db) ∧
      runSeed (.prec 28) .creditsFirst sampleIds "ada" (.finite 500) s.db =
        (.error inconsistent, s.db) ∧
      runSeed (.prec 28) .creditsFirst sampleIds "bob" (.finite (ofColumn 8 maxUnits)) s.db =
        (.error inconsistent, s.db) := by
  obtain ⟨s, hs, hreserved, hchanges⟩ := churned_reserved 0
  obtain ⟨⟨rows, hrows⟩, hok, -, hother, -⟩ :=
    reseeding_iff (@churnStart_seeded .written) hs .creditsFirst sampleIds 1
  obtain ⟨units, -, hseeded⟩ := seeded_of_reachable (by decide) (@churnStart_seeded .written) hs
  have hone : rows.AtMost 10000 :=
    (churned_atMost hseeded.recounted hchanges hrows).mono (by decide)
  refine ⟨s, hs, hreserved, hok rows hrows hone.unrounded, hother _ _ (.inr ?_),
    hother _ _ (.inl ?_)⟩
  · intro heq
    have hvalue : (500 : ℚ) = ofColumn 8 maxUnits := Number.finite.inj heq
    norm_num [ofColumn, maxUnits] at hvalue
  · decide

/-- Ada has all her funds reserved 10001 times, for settlements of which the first 10000
fail.  In the order in which the postings were written a restart accepts the ledger; with
the credits returned first it fails. -/
theorem reseeding_fails :
    ∃ s, seedDemoAccounts (.prec 28) .written sampleIds "ada" (.finite (ofColumn 8 maxUnits))
        .empty = .ok churnStart ∧
      (system sampleSettings .contract (· = churnStart)).Reachable s ∧
      runSeed (.prec 28) .written sampleIds "ada" (.finite (ofColumn 8 maxUnits)) s.db =
        (.ok (), s.db) ∧
      runSeed (.prec 28) .creditsFirst sampleIds "ada" (.finite (ofColumn 8 maxUnits)) s.db =
        (.error inconsistent, s.db) := by
  obtain ⟨s, hs, -, hfails⟩ := churned_fails
  obtain ⟨units, -, hseeded⟩ := seeded_of_reachable (by decide) (@churnStart_seeded .written) hs
  obtain ⟨rows, hrows⟩ := hseeded.recounted.exists_rows .written
  have hunrounded : rows.Unrounded 28 := hseeded.recounted.unrounded_written hrows (by norm_num)
  exact ⟨s, churnStart_seeded, hs, runSeed_unrounded sampleIds (@churnStart_seeded .written) hs
    hrows hunrounded, hfails⟩

end Restarts

end SettlementRouter
