import Mathlib.Data.Prod.Lex
import SettlementRouter.LockOrder
import SettlementRouter.SystemRuns

/-! # The locks of the transactions

The row locks a transaction of the service takes, in the order in which its statements
take them, and the running system with them.  PostgreSQL holds a lock until the
transaction ends.

* `FOR UPDATE` and an update lock a row exclusively; a foreign key is checked under a
  shared lock of the row it refers to.
* An insert takes an entry in each unique index; an insert of the same entry waits for
  the transaction that holds it.
* A plain select takes no lock.

There is one order for all of this (`Resource.rank`): settlements before attempts,
attempts before accounts, accounts by their ids, and journals last.
-/
namespace SettlementRouter

open Function (update)

/-- What can be locked: rows, and entries of unique indexes.  The ids of journals and
postings are new, so nothing waits for their rows. -/
inductive Resource where
  | settlementsPkey (id : UUID)
  | ownerIdempotencyKey (ownerId idempotencyKey : String)
  | settlement (id : UUID)
  | payoutAttemptsPkey (id : UUID)
  | payoutAttemptsOperationId (operationId : UUID)
  | payoutAttempt (id : UUID)
  | account (id : UUID)
  | settlementEvent (id : UUID) (event : JournalEvent)
  deriving DecidableEq

namespace Resource

/-- The order in which resources are locked, before their ids. -/
def tier : Resource → ℕ
  | settlementsPkey _ => 0
  | ownerIdempotencyKey _ _ => 1
  | settlement _ => 2
  | payoutAttemptsPkey _ => 3
  | payoutAttemptsOperationId _ => 4
  | payoutAttempt _ => 5
  | account _ => 6
  | settlementEvent _ _ => 7

/-- The order in which locks are taken: within a tier only accounts have one. -/
def rank (r : Resource) : ℕ ×ₗ ℕ :=
  toLex (r.tier, match r with
    | account id => id
    | _ => 0)

theorem rank_lt_of_tier {r r' : Resource} (h : r.tier < r'.tier) : r.rank < r'.rank :=
  Prod.Lex.toLex_lt_toLex.mpr (.inl h)

theorem account_rank_strictMono (i j : UUID) (h : i < j) : (account i).rank < (account j).rank :=
  Prod.Lex.toLex_lt_toLex.mpr (.inr ⟨rfl, h⟩)

end Resource

/-! ## The locks of each transaction -/

section Requests

/-- `FOR UPDATE`, an insert into an index, or an update. -/
def lock (r : Resource) : LockRequest Resource := .acquire r .exclusive

/-- The check of a foreign key that refers to this row. -/
def checkForeignKey (r : Resource) : LockRequest Resource := .acquire r .share

/-- The rows `_locked_accounts` selects, by `ORDER BY accounts.id`. -/
def lockedAccountIds (db : Database) (debitKey creditKey : String × AccountPurpose) : List UUID :=
  ([debitKey, creditKey].filterMap fun key =>
    (db.accounts.lookup (usdAccount key)).map (·.id)).mergeSort (· ≤ ·)

/-- `_post`: the accounts, the journal, its postings, and the balances. -/
def postRequests (db : Database) (settlementId : UUID) (event : JournalEvent)
    (debitKey creditKey : String × AccountPurpose) : List (LockRequest Resource) :=
  (lockedAccountIds db debitKey creditKey).map (fun id => lock (.account id)) ++
    match lockedAccounts db debitKey creditKey with
    | .error _ => []
    | .ok (debit, credit) =>
      [lock (.settlementEvent settlementId event), checkForeignKey (.settlement settlementId),
        checkForeignKey (.account debit.id), checkForeignKey (.account credit.id),
        lock (.account debit.id), lock (.account credit.id)]

/-- A new row of `payout_attempts`. -/
def insertAttemptRequests (settlementId operationId : UUID) : List (LockRequest Resource) :=
  [lock (.payoutAttemptsPkey settlementId), lock (.payoutAttemptsOperationId operationId),
    lock (.payoutAttempt settlementId), checkForeignKey (.settlement settlementId)]

/-- The locks of the inserting transaction of `create`. -/
def insertReservedRequests (new : NewSettlement) (db : Database) : List (LockRequest Resource) :=
  [lock (.settlementsPkey new.id), lock (.ownerIdempotencyKey new.ownerId new.idempotencyKey),
    lock (.settlement new.id)] ++
    postRequests db new.id .reserve (new.ownerId, .available) (new.ownerId, .reserved)

/-- The locks of `_claim_reserved`. -/
def claimReservedRequests (settlementId : UUID) (db : Database) : List (LockRequest Resource) :=
  match db.settlements.lookup settlementId with
  | none => []
  | some settlement =>
    lock (.settlement settlementId) ::
      if settlement.status ≠ .reserved then []
      else lock (.settlement settlementId) ::
        insertAttemptRequests settlementId settlement.providerOperationId

/-- The locks of `_claim_for_reconciliation`. -/
def claimForReconciliationRequests (settlementId : UUID) (db : Database) :
    List (LockRequest Resource) :=
  match db.settlements.lookup settlementId with
  | none => []
  | some settlement =>
    lock (.settlement settlementId) ::
      if ¬ settlement.status.InFlight then []
      else match db.attempts.lookup settlementId with
        | none => insertAttemptRequests settlementId settlement.providerOperationId
        | some _ => [lock (.payoutAttempt settlementId), lock (.payoutAttempt settlementId)]

/-- A row of the batch: `FOR UPDATE OF settlements, payout_attempts SKIP LOCKED`, and the
attempt is updated. -/
def DueRow.lockRow (row : DueRow) : LockRow Resource :=
  ⟨[.settlement row.id, .payoutAttempt row.id], [.payoutAttempt row.id]⟩

/-- The locks of the batch query. -/
def claimDueBatchRequests (now : Time) (limit : ℕ) (db : Database) : List (LockRequest Resource) :=
  [.skipLocked ((dueRows db now).map DueRow.lockRow) limit []]

/-- The locks of `_finalize_attempt`, with those of the ledger. -/
def finalizeAttemptRequests (settlementId : UUID) (attemptToken : ℕ)
    (result : Option ProviderResult) (db : Database) : List (LockRequest Resource) :=
  match db.settlements.lookup settlementId with
  | none => []
  | some settlement =>
    lock (.settlement settlementId) ::
      match db.attempts.lookup settlementId with
      | none => []
      | some attempt =>
        lock (.payoutAttempt settlementId) ::
          if attempt.attemptToken ≠ attemptToken ∨ settlement.status.Terminal then []
          else
            (match result with
              | some .paid =>
                postRequests db settlementId .consume (settlement.ownerId, .reserved)
                  ("system", .omnibus)
              | some .unpaid =>
                postRequests db settlementId .release (settlement.ownerId, .reserved)
                  (settlement.ownerId, .available)
              | _ => []) ++
            -- the rows as written back
            [lock (.settlement settlementId), lock (.payoutAttempt settlementId)]

/-- The locks a transaction asks for, on the rows it reads.  An error ends it before it
has asked for all of them. -/
def Transaction.requests (now : Time) (db : Database) : Transaction → List (LockRequest Resource)
  | findByKey _ _ => []
  | insertReserved new => insertReservedRequests new db
  | get _ => []
  | claimReserved settlementId => claimReservedRequests settlementId db
  | claimForReconciliation settlementId _ => claimForReconciliationRequests settlementId db
  | claimDueBatch limit => claimDueBatchRequests now limit db
  | finalizeAttempt settlementId attemptToken result =>
    finalizeAttemptRequests settlementId attemptToken result db

end Requests

/-! ## All of them are ordered -/

section Ordered
variable {db : Database} {held : List (Resource × LockMode)}

/-- A lock of a higher tier. -/
theorem ordered_lock {r : Resource} {rest : List (LockRequest Resource)}
    (htier : ∀ lock ∈ held, lock.1.tier < r.tier)
    (hrest : Ordered Resource.rank ((r, .exclusive) :: held) rest) :
    Ordered Resource.rank held (lock r :: rest) :=
  ⟨.inr fun lock hlock => Resource.rank_lt_of_tier (htier lock hlock), hrest⟩

theorem mem_lockedAccountIds {debitKey creditKey : String × AccountPurpose} {debit credit : Account}
    (h : lockedAccounts db debitKey creditKey = .ok (debit, credit)) :
    debit.id ∈ lockedAccountIds db debitKey creditKey ∧
      credit.id ∈ lockedAccountIds db debitKey creditKey := by
  obtain ⟨hdebit, hcredit⟩ := lockedAccounts_ok.mp h
  simp [lockedAccountIds, hdebit, hcredit]

/-- **Posting asks in order**, where the settlement is locked and no account is. -/
theorem postRequests_ordered {settlementId : UUID} {event : JournalEvent}
    {debitKey creditKey : String × AccountPurpose} {rest : List (LockRequest Resource)}
    (htier : ∀ lock ∈ held, lock.1.tier < 6)
    (hsettlement : (.settlement settlementId, .exclusive) ∈ held)
    (hrest : ∀ held', held ⊆ held' → ∀ request ∈ rest, request.Repeats held') :
    Ordered Resource.rank held
      (postRequests db settlementId event debitKey creditKey ++ rest) := by
  unfold postRequests
  rw [List.append_assoc]
  refine ordered_ascending Resource.account_rank_strictMono ?_
    (fun lock hlock i _ => .inl (Resource.rank_lt_of_tier (htier lock hlock)))
    fun held' hheld' => ?_
  · unfold lockedAccountIds
    exact List.pairwise_mergeSort' _ _
  have hkept : held ⊆ held' := fun request h => (hheld' request).mpr (.inr h)
  cases haccounts : lockedAccounts db debitKey creditKey with
  | error error => exact ordered_of_repeats (hrest held' hkept)
  | ok accounts =>
    obtain ⟨debit, credit⟩ := accounts
    obtain ⟨hdebit, hcredit⟩ := mem_lockedAccountIds haccounts
    have hlocked {id} (hid : id ∈ lockedAccountIds db debitKey creditKey) :
        (.account id, .exclusive) ∈ held' :=
      (hheld' _).mpr (.inl ⟨id, hid, rfl⟩)
    refine ordered_lock (fun lock hlock => ?_) (ordered_of_repeats fun request hmem => ?_)
    · obtain ⟨i, -, rfl⟩ | hlock := (hheld' lock).mp hlock
      · exact Nat.lt_succ_self 6
      · exact (htier lock hlock).trans (Nat.lt_succ_self 6)
    · rw [List.append_eq, List.mem_append] at hmem
      obtain hmem | hmem := hmem
      · simp only [List.mem_cons, List.not_mem_nil, or_false] at hmem
        obtain rfl | rfl | rfl | rfl | rfl := hmem
        · exact List.mem_cons_of_mem _ (hkept hsettlement)
        · exact List.mem_cons_of_mem _ (hlocked hdebit)
        · exact List.mem_cons_of_mem _ (hlocked hcredit)
        · exact List.mem_cons_of_mem _ (hlocked hdebit)
        · exact List.mem_cons_of_mem _ (hlocked hcredit)
      · exact hrest _ (List.subset_cons_of_subset _ hkept) request hmem

theorem insertAttemptRequests_ordered {settlementId operationId : UUID}
    (htier : ∀ lock ∈ held, lock.1.tier < 3)
    (hsettlement : (.settlement settlementId, .exclusive) ∈ held) :
    Ordered Resource.rank held (insertAttemptRequests settlementId operationId) := by
  have htier' {n : ℕ} (hn : 3 ≤ n) : ∀ lock ∈ held, lock.1.tier < n :=
    fun lock hlock => (htier lock hlock).trans_le hn
  refine ordered_lock htier (ordered_lock ?_ (ordered_lock ?_ (ordered_of_repeats ?_)))
  · simpa [Resource.tier] using htier' (by decide)
  · simpa [Resource.tier] using htier' (by decide)
  · simpa [checkForeignKey, LockRequest.Repeats] using hsettlement

theorem insertReservedRequests_ordered (new : NewSettlement) (db : Database) :
    Ordered Resource.rank [] (insertReservedRequests new db) := by
  refine ordered_lock (by simp) (ordered_lock (by simp [Resource.tier])
    (ordered_lock (by simp [Resource.tier]) ?_))
  rw [← List.append_nil (List.append _ _)]
  exact postRequests_ordered (by simp [Resource.tier]) List.mem_cons_self fun _ _ _ h => by cases h

theorem claimReservedRequests_ordered (settlementId : UUID) (db : Database) :
    Ordered Resource.rank [] (claimReservedRequests settlementId db) := by
  unfold claimReservedRequests
  split
  · trivial
  · refine ordered_lock (by simp) ?_
    split
    · trivial
    · refine ⟨.inl ⟨_, List.mem_cons_self, .inr rfl⟩, ?_⟩
      exact insertAttemptRequests_ordered (by simp [Resource.tier]) List.mem_cons_self

theorem claimForReconciliationRequests_ordered (settlementId : UUID) (db : Database) :
    Ordered Resource.rank [] (claimForReconciliationRequests settlementId db) := by
  unfold claimForReconciliationRequests
  split
  · trivial
  · refine ordered_lock (by simp) ?_
    split
    · trivial
    · split
      · exact insertAttemptRequests_ordered (by simp [Resource.tier]) List.mem_cons_self
      · refine ordered_lock (by simp [Resource.tier]) (ordered_of_repeats ?_)
        simp [lock, LockRequest.Repeats]

theorem claimDueBatchRequests_ordered (now : Time) (limit : ℕ) (db : Database) :
    Ordered Resource.rank [] (claimDueBatchRequests now limit db) := by
  refine ⟨rfl, by simp, fun row hrow => ?_⟩
  obtain ⟨dueRow, -, rfl⟩ := List.mem_map.mp hrow
  simp [DueRow.lockRow]

theorem finalizeAttemptRequests_ordered (settlementId : UUID) (attemptToken : ℕ)
    (result : Option ProviderResult) (db : Database) :
    Ordered Resource.rank [] (finalizeAttemptRequests settlementId attemptToken result db) := by
  unfold finalizeAttemptRequests
  split
  · trivial
  · refine ordered_lock (by simp) ?_
    split
    · trivial
    · refine ordered_lock (by simp [Resource.tier]) ?_
      split
      · trivial
      · -- consuming and releasing name their accounts in different orders, and lock them in one
        have hwritten : ∀ held', [(Resource.payoutAttempt settlementId, LockMode.exclusive),
            (.settlement settlementId, .exclusive)] ⊆ held' → ∀ request ∈
            [lock (.settlement settlementId), lock (.payoutAttempt settlementId)],
            request.Repeats held' := by
          intro held' hsub
          simpa [lock, LockRequest.Repeats, and_comm] using hsub
        split
        · exact postRequests_ordered (by simp [Resource.tier]) (by simp) hwritten
        · exact postRequests_ordered (by simp [Resource.tier]) (by simp) hwritten
        · exact ordered_of_repeats (hwritten _ (List.Subset.refl _))

/-- **Every transaction asks in order.** -/
theorem Transaction.requests_ordered (t : Transaction) (now : Time) (db : Database) :
    Ordered Resource.rank [] (t.requests now db) := by
  cases t with
  | findByKey ownerId idempotencyKey => trivial
  | insertReserved new => exact insertReservedRequests_ordered new db
  | get settlementId => trivial
  | claimReserved settlementId => exact claimReservedRequests_ordered settlementId db
  | claimForReconciliation settlementId respectSchedule =>
    exact claimForReconciliationRequests_ordered settlementId db
  | claimDueBatch limit => exact claimDueBatchRequests_ordered now limit db
  | finalizeAttempt settlementId attemptToken result =>
    exact finalizeAttemptRequests_ordered settlementId attemptToken result db

end Ordered

/-! ## What is written is locked -/

section Changed
variable {db db' db'' : Database} {r : Resource} {settings : Settings} {clock : ℕ → Time}
  {locked : UUID → Bool}

/-- The row, or the journal of the event, is not the same in the two databases.  The
entries of indexes come with their rows. -/
def Resource.Changed (db db' : Database) : Resource → Prop
  | settlement id => db'.settlements.lookup id ≠ db.settlements.lookup id
  | payoutAttempt id => db'.attempts.lookup id ≠ db.attempts.lookup id
  | account id => ∃ key account, db.accounts.lookup key = some account ∧ account.id = id ∧
      db'.accounts.lookup key ≠ some account
  | settlementEvent id event => db'.journalCount id event ≠ db.journalCount id event
  | _ => False

namespace Resource.Changed

theorem irrefl : ¬ r.Changed db db := by
  intro h
  cases r with
  | account id =>
    obtain ⟨key, account, haccount, -, hne⟩ := h
    exact hne haccount
  | settlement id => exact h rfl
  | payoutAttempt id => exact h rfl
  | settlementEvent id event => exact h rfl
  | _ => exact h

theorem split (h : r.Changed db db'') (db' : Database) : r.Changed db db' ∨ r.Changed db' db'' := by
  by_contra hsame
  rw [not_or] at hsame
  obtain ⟨hfirst, hsecond⟩ := hsame
  cases r with
  | account id =>
    obtain ⟨key, account, haccount, hid, hne⟩ := h
    have haccount' : db'.accounts.lookup key = some account := by
      by_contra hne'
      exact hfirst ⟨key, account, haccount, hid, hne'⟩
    exact hsecond ⟨key, account, haccount', hid, hne⟩
  | settlement id => exact h ((not_not.mp hsecond).trans (not_not.mp hfirst))
  | payoutAttempt id => exact h ((not_not.mp hsecond).trans (not_not.mp hfirst))
  | settlementEvent id event => exact h ((not_not.mp hsecond).trans (not_not.mp hfirst))
  | _ => exact h

theorem of_settlement {id : UUID} {row : Settlement id}
    (h : r.Changed db { db with settlements := db.settlements.insert id row }) :
    r = .settlement id := by
  cases r with
  | settlement id' =>
    by_contra hne
    exact h (AList.lookup_insert_ne fun heq => hne (congrArg _ heq))
  | account id =>
    obtain ⟨key, account, haccount, -, hne⟩ := h
    exact (hne haccount).elim
  | payoutAttempt id => exact (h rfl).elim
  | settlementEvent id event => exact (h rfl).elim
  | _ => exact h.elim

theorem of_attempt {id : UUID} {attempt : PayoutAttempt}
    (h : r.Changed db { db with attempts := db.attempts.insert id attempt }) :
    r = .payoutAttempt id := by
  cases r with
  | payoutAttempt id' =>
    by_contra hne
    exact h (AList.lookup_insert_ne fun heq => hne (congrArg _ heq))
  | account id =>
    obtain ⟨key, account, haccount, -, hne⟩ := h
    exact (hne haccount).elim
  | settlement id => exact (h rfl).elim
  | settlementEvent id event => exact (h rfl).elim
  | _ => exact h.elim

/-- A posting changes its two accounts, and has the first journal of its event. -/
theorem of_posted {id : UUID} {row : Settlement id} {event : JournalEvent}
    {debitKey creditKey : String × AccountPurpose}
    (hposted : Posted db row event debitKey creditKey db') (h : r.Changed db db') :
    lock r ∈ postRequests db id event debitKey creditKey := by
  obtain ⟨debit, credit, debited, credited, hdebit, hcredit, -, -, -, haccounts⟩ :=
    hposted.accounts_eq
  have hlocked : lockedAccounts db debitKey creditKey = .ok (debit, credit) :=
    lockedAccounts_ok.mpr ⟨hdebit, hcredit⟩
  unfold postRequests
  rw [hlocked]
  refine List.mem_append_right _ ?_
  -- no more than the two accounts and one count of journals has changed
  cases r with
  | settlement id' => exact (h (by rw [hposted.settlements_eq])).elim
  | payoutAttempt id' => exact (h (by rw [hposted.attempts_eq])).elim
  | account id' =>
    obtain ⟨key, account, haccount, rfl, hne⟩ := h
    rw [haccounts] at hne
    by_cases hkey : key = usdAccount creditKey
    · subst hkey
      obtain rfl := Option.some.inj (hcredit.symm.trans haccount)
      simp
    · rw [AList.lookup_insert_ne hkey] at hne
      by_cases hkey' : key = usdAccount debitKey
      · subst hkey'
        obtain rfl := Option.some.inj (hdebit.symm.trans haccount)
        simp
      · rw [AList.lookup_insert_ne hkey'] at hne
        exact (hne haccount).elim
  | settlementEvent id' event' =>
    by_cases hid : id' = id
    · subst hid
      by_cases hevent : event' = event
      · subst hevent
        exact List.mem_cons_self
      · refine (h ?_).elim
        rw [hposted.journalCount]
        exact if_neg hevent
    · exact (h (by rw [hposted.journalCount_of_ne hid])).elim
  | _ => exact h.elim

end Resource.Changed

theorem insertReserved_locks {new : NewSettlement} {reply : Unit}
    (h : insertReserved new db = .ok (reply, db')) (hr : r.Changed db db') :
    lock r ∈ insertReservedRequests new db := by
  obtain ⟨row, hrow, hsettlements, hwrite⟩ := insertReserved_ok h
  obtain ⟨howner, -⟩ := NewSettlement.row_ok hrow
  cases hwrite with
  | reserve hnone hkey hstatus hposted =>
    rename_i row'
    have heq : row' = row := by
      have hlookup :=
        congrArg (AList.lookup new.id) (hposted.settlements_eq.symm.trans hsettlements)
      rw [AList.lookup_insert, AList.lookup_insert] at hlookup
      exact Option.some.inj hlookup
    rw [heq, howner] at hposted
    obtain hr | hr := hr.split { db with settlements := db.settlements.insert new.id row }
    · rw [hr.of_settlement]
      simp [insertReservedRequests]
    · have hpost := hr.of_posted hposted
      exact List.mem_append_right _ hpost

theorem insertAttempt_locks {id : UUID} {attempt : PayoutAttempt}
    (h : insertAttempt db id attempt = .ok db') (hr : r.Changed db db') (operationId : UUID) :
    lock r ∈ insertAttemptRequests id operationId := by
  obtain ⟨-, rfl⟩ := insertAttempt_ok h
  rw [hr.of_attempt]
  simp [insertAttemptRequests]

theorem claimReserved_locks {settlementId : UUID} {reply : Option PayoutClaim}
    (h : claimReserved settings clock settlementId db = .ok (reply, db')) (hr : r.Changed db db') :
    lock r ∈ claimReservedRequests settlementId db := by
  unfold claimReserved at h
  unfold claimReservedRequests
  cases hsettlement : db.settlements.lookup settlementId with
  | none =>
    rw [hsettlement] at h
    cases h
  | some settlement =>
    rw [hsettlement] at h
    dsimp only at h ⊢
    by_cases hstatus : settlement.status ≠ .reserved
    · rw [if_pos hstatus] at h
      cases h
      exact hr.irrefl.elim
    · rw [if_neg hstatus] at h ⊢
      simp only [bind, Except.bind] at h
      split at h
      · cases h
      · rename_i hinsert
        cases h
        obtain hr | hr := hr.split { db with
          settlements :=
            db.settlements.insert settlementId (settlement.withStatus .payoutInProgress) }
        · rw [hr.of_settlement]
          exact List.mem_cons_self
        · refine List.mem_cons_of_mem _ (List.mem_cons_of_mem _ ?_)
          exact insertAttempt_locks hinsert hr _

theorem claimForReconciliation_locks {settlementId : UUID} {respectSchedule : Bool}
    {reply : Option PayoutClaim}
    (h : claimForReconciliation settings clock settlementId respectSchedule db = .ok (reply, db'))
    (hr : r.Changed db db') : lock r ∈ claimForReconciliationRequests settlementId db := by
  unfold claimForReconciliation at h
  unfold claimForReconciliationRequests
  cases hsettlement : db.settlements.lookup settlementId with
  | none =>
    rw [hsettlement] at h
    cases h
  | some settlement =>
    rw [hsettlement] at h
    dsimp only at h ⊢
    refine List.mem_cons_of_mem _ ?_
    by_cases hstatus : ¬ settlement.status.InFlight
    · rw [if_pos hstatus] at h
      cases h
      exact hr.irrefl.elim
    · rw [if_neg hstatus] at h ⊢
      cases hattempt : db.attempts.lookup settlementId with
      | none =>
        rw [hattempt] at h
        simp only [bind, Except.bind] at h
        split at h
        · cases h
        · rename_i hinsert
          cases h
          exact insertAttempt_locks hinsert hr _
      | some attempt =>
        rw [hattempt] at h
        dsimp only at h
        split at h
        · cases h
          exact hr.irrefl.elim
        · split at h
          · cases h
            exact hr.irrefl.elim
          · cases h
            rw [hr.of_attempt]
            exact List.mem_cons_self

/-- The loop over the rows changes their attempts. -/
theorem claimRows_changed {rows : List DueRow} {k : ℕ}
    (hr : r.Changed db (claimRows settings clock rows k db).2) :
    ∃ row ∈ rows, r = .payoutAttempt row.id := by
  induction rows generalizing k db with
  | nil => exact hr.irrefl.elim
  | cons row rows ih =>
    obtain hr | hr := hr.split
      { db with attempts := db.attempts.insert row.id (row.attempt.claim _) }
    · exact ⟨row, List.mem_cons_self, hr.of_attempt⟩
    · obtain ⟨row', hrow', heq⟩ := ih hr
      exact ⟨row', List.mem_cons_of_mem _ hrow', heq⟩

/-- Rows of the batch that are not `locked`. -/
def unlocked (locked : UUID → Bool) (row : LockRow Resource) : Bool :=
  row.locks.all fun
    | .settlement id => ¬ locked id
    | _ => true

theorem claimDueBatch_locks {limit : ℕ} {claims : List PayoutClaim}
    (h : claimDueBatch settings clock locked limit db = (claims, db')) (hr : r.Changed db db') :
    ∃ request ∈ claimDueBatchRequests (clock 0) limit db,
      Locks.Takes (unlocked locked) request (r, .exclusive) := by
  have hdb : db' = (claimRows settings clock (selectDue db (clock 0) locked limit) 1 db).2 :=
    (congrArg Prod.snd h).symm
  rw [hdb] at hr
  obtain ⟨row, hrow, rfl⟩ := claimRows_changed hr
  refine ⟨_, List.mem_cons_self, rfl, row.lockRow, ?_, by simp [DueRow.lockRow]⟩
  rw [List.filter_map, ← List.map_take]
  refine List.mem_map_of_mem ?_
  have hunlocked : unlocked locked ∘ DueRow.lockRow = fun row => decide (¬ locked row.id) := by
    funext row
    simp [unlocked, DueRow.lockRow]
  rw [hunlocked]
  exact hrow

theorem finalizeAttempt_locks {settlementId : UUID} {attemptToken : ℕ}
    {result : Option ProviderResult} {read : SettlementRead}
    (h : finalizeAttempt clock settlementId attemptToken result db = .ok (read, db'))
    (hr : r.Changed db db') :
    lock r ∈ finalizeAttemptRequests settlementId attemptToken result db := by
  obtain ⟨row, attempt, -, hrow, hattempt, htoken, -, -, hwritten⟩ := finalizeAttempt_ok h
  obtain ⟨-, rfl⟩ | ⟨hterminal, hwrite⟩ := hwritten
  · exact hr.irrefl.elim
  unfold finalizeAttemptRequests
  rw [hrow]
  refine List.mem_cons_of_mem _ ?_
  rw [hattempt]
  refine List.mem_cons_of_mem _ ?_
  rw [if_neg (by simp [htoken, hterminal])]
  generalize hstatus : finalStatus result = status at hwrite
  cases hwrite with
  | finalize hrow' hopen hattempt' htoken' hstate happlied =>
    rename_i db₁ _ attempt' _ row'
    obtain rfl := Option.some.inj (hrow.symm.trans hrow')
    have hrows : db₁.settlements = db.settlements ∧ db₁.attempts = db.attempts := by
      cases happlied with
      | pend => exact ⟨rfl, rfl⟩
      | consume hposted => exact ⟨hposted.settlements_eq, hposted.attempts_eq⟩
      | release hposted => exact ⟨hposted.settlements_eq, hposted.attempts_eq⟩
    rw [← hrows.1, ← hrows.2] at hr
    obtain hbefore | hattempts := hr.split { db₁ with
      settlements := db₁.settlements.insert settlementId (row.withStatus status) }
    · obtain hledger | hsettlement := hbefore.split db₁
      · refine List.mem_append_left _ ?_
        cases happlied with
        | pend => exact hledger.irrefl.elim
        | consume hposted =>
          obtain rfl : result = some .paid := by
            unfold finalStatus at hstatus
            split at hstatus <;> simp_all
          exact hledger.of_posted hposted
        | release hposted =>
          obtain rfl : result = some .unpaid := by
            unfold finalStatus at hstatus
            split at hstatus <;> simp_all
          exact hledger.of_posted hposted
      · rw [hsettlement.of_settlement]
        exact List.mem_append_right _ List.mem_cons_self
    · rw [hattempts.of_attempt]
      exact List.mem_append_right _ (List.mem_cons_of_mem _ List.mem_cons_self)

/-- **What a transaction writes it locks**, if it locks the due rows that are not `locked`
by others. -/
theorem Transaction.run_locks {t : Transaction} {reply : t.Reply}
    (h : t.run settings clock locked db = .ok (reply, db')) (hr : r.Changed db db') :
    ∃ request ∈ t.requests (clock 0) db, Locks.Takes (unlocked locked) request (r, .exclusive) := by
  cases t with
  | findByKey ownerId idempotencyKey =>
    cases h
    exact hr.irrefl.elim
  | insertReserved new => exact ⟨_, insertReserved_locks h hr, rfl⟩
  | get settlementId =>
    obtain ⟨rfl, -⟩ := run_get_ok h
    exact hr.irrefl.elim
  | claimReserved settlementId => exact ⟨_, claimReserved_locks h hr, rfl⟩
  | claimForReconciliation settlementId respectSchedule =>
    exact ⟨_, claimForReconciliation_locks h hr, rfl⟩
  | claimDueBatch limit => exact claimDueBatch_locks (Except.ok.inj h) hr
  | finalizeAttempt settlementId attemptToken result => exact ⟨_, finalizeAttempt_locks h hr, rfl⟩

end Changed

/-! ## The running system with its locks -/

/-- The system, and the open transactions of its workers. -/
structure LockedState where
  service : State
  locks : Locks ℕ Resource

/-- The worker is at this transaction. -/
def State.At (s : State) (w : ℕ) (t : Transaction) : Prop :=
  ∃ call next pending, s.workers w = .running call (.perform (.transaction t) next) pending

/-- The worker is inside `provider.initiate` or `provider.lookup`. -/
def State.InsideProvider (s : State) (w : ℕ) : Prop :=
  ∃ call op next pending, s.workers w = .running call (.perform op next) pending ∧
    ((∃ id amountUsd targetCurrency quotedAmount,
      op = .initiate id amountUsd targetCurrency quotedAmount) ∨ ∃ id, op = .lookup id)

/-- The worker has not ended the operation it is at.  Where a worker stops in the middle of
a transaction, it is open until the database has noticed. -/
inductive Worker.Stays : Worker → Worker → Prop
  | same {worker} : Stays worker worker
  | waits {call program pending} :
      Stays (.running call program pending) (.running call program true)
  | stops {call program pending} : Stays (.running call program pending) (.stopped call)

/-- Who was at a transaction is at one, or has stopped. -/
theorem Worker.Stays.at {s s' : State} {w : ℕ} (h : (s.workers w).Stays (s'.workers w))
    (hat : (∃ t, s.At w t) ∨ ∃ call, s.workers w = .stopped call) :
    (∃ t, s'.At w t) ∨ ∃ call, s'.workers w = .stopped call := by
  generalize hworker : s.workers w = worker at h
  generalize hworker' : s'.workers w = worker' at h
  obtain ⟨t, call, next, pending, hrunning⟩ | ⟨call, hstopped⟩ := hat
  · obtain rfl := hworker.symm.trans hrunning
    cases h with
    | same => exact .inl ⟨t, call, next, pending, hworker'⟩
    | waits => exact .inl ⟨t, call, next, true, hworker'⟩
    | stops => exact .inr ⟨call, rfl⟩
  · obtain rfl := hworker.symm.trans hstopped
    cases h
    exact .inr ⟨call, rfl⟩

section Steps
variable (settings : Settings) (law : ProviderLaw)

/-- One step of the service, in which transactions take their locks one after the other. -/
inductive LockedStep : LockedState → LockedState → Prop
  /-- A worker opens its transaction. -/
  | opens {s : LockedState} {w t now db} : s.service.At w t → s.locks w = none →
      LockedStep s { s with locks := update s.locks w (some ⟨[], t.requests now db⟩) }
  | grants {s : LockedState} {w a b} : s.locks w = some a → s.locks.Grants w a b →
      LockedStep s { s with locks := update s.locks w (some b) }
  /-- The system takes a step.  A transaction may end at any time, and ends with its
  operation; it commits once it has all its locks, and has written only what it has locked. -/
  | serves {s : LockedState} {service locks} : Step settings law s.service service →
      (∀ w, locks w = s.locks w ∧ (s.service.workers w).Stays (service.workers w) ∨
        locks w = none) →
      (∀ w t (reply : t.Reply) acknowledged,
        service.trace = ⟨w, .ran t (.ok reply) acknowledged⟩ :: s.service.trace →
        ∃ held, s.locks w = some ⟨held, []⟩ ∧
          ∀ r : Resource, r.Changed s.service.db service.db → (r, .exclusive) ∈ held) →
      LockedStep s ⟨service, locks⟩

/-- The service with its locks, started on a database that meets `start`. -/
def lockedSystem (start : Database → Prop) : TransitionSystem LockedState where
  init s := (system settings law start).init s.service ∧ ∀ w, s.locks w = none
  step := LockedStep settings law

end Steps

section Runs
variable {settings : Settings} {law : ProviderLaw} {start : Database → Prop} {s : LockedState}

/-- A run with locks is a run. -/
theorem service_of_reachable (h : (lockedSystem settings law start).Reachable s) :
    (system settings law start).Reachable s.service := by
  induction h with
  | init hinit => exact .init hinit.1
  | step _ hstep ih =>
    cases hstep with
    | opens hat hnone => exact ih
    | grants hopen hgrants => exact ih
    | serves hservice hlocks hcommits => exact .step ih hservice

theorem reachable_of_opens {service : State} {locks : Locks ℕ Resource} {w : ℕ} {t : Transaction}
    (h : (lockedSystem settings law start).Reachable ⟨service, locks⟩) (hat : service.At w t)
    (hnone : locks w = none) (now : Time) (db : Database) :
    (lockedSystem settings law start).Reachable
      ⟨service, update locks w (some ⟨[], t.requests now db⟩)⟩ :=
  .step h (.opens hat hnone)

/-- A worker whose requests can be granted, has them granted. -/
theorem reachable_of_completes {service : State} {locks : Locks ℕ Resource} {w : ℕ}
    {a b : OpenTransaction Resource}
    (h : (lockedSystem settings law start).Reachable ⟨service, update locks w (some a)⟩)
    (hrun : Relation.ReflTransGen (locks.Grants w) a b) :
    (lockedSystem settings law start).Reachable ⟨service, update locks w (some b)⟩ := by
  induction hrun with
  | refl => exact h
  | @tail b c _ hgrants ih =>
    have hgrants' : Locks.Grants (update locks w (some b)) w b c :=
      hgrants.of_others fun u hu => Function.update_of_ne hu _ _
    have hstep : LockedStep settings law ⟨service, update locks w (some b)⟩
        ⟨service, update (update locks w (some b)) w (some c)⟩ :=
      .grants (Function.update_self _ _ _) hgrants'
    rw [Function.update_idem] at hstep
    exact .step ih hstep

/-- **Every run of the system is one with locks**: the transactions ask for enough. -/
theorem locked_of_reachable {service : State} (h : (system settings law start).Reachable service) :
    (lockedSystem settings law start).Reachable ⟨service, fun _ => none⟩ := by
  induction h with
  | init hinit => exact .init ⟨hinit, fun _ => rfl⟩
  | @step service service' hreach hstep ih =>
    by_cases hcommit : ∃ w t, ∃ (reply : t.Reply) (acknowledged : Bool),
        service'.trace = ⟨w, .ran t (.ok reply) acknowledged⟩ :: service.trace
    · obtain ⟨w, t, reply, acknowledged, htrace⟩ := hcommit
      obtain ⟨hsame, -⟩ | ⟨e, htrace', hhappens⟩ := hstep.happens
      · rw [hsame] at htrace
        exact (List.cons_ne_self _ _ htrace.symm).elim
      rw [htrace] at htrace'
      cases htrace'
      cases hhappens with
      | @commits _ call _ next pending clock locked _ _ _ hworker hblocked hrun =>
        -- open it, let it have all its locks, and commit
        have hopened :=
          reachable_of_opens ih ⟨call, next, pending, hworker⟩ rfl (clock 0) service.db
        obtain ⟨held, hgrants, hheld⟩ := Locks.completes
          (s := fun _ => none) (t := w) (fun r m u a m' _ hu => by cases hu) (unlocked locked)
          (P := fun lock => ∃ request ∈ t.requests (clock 0) service.db,
            Locks.Takes (unlocked locked) request lock) (t.requests (clock 0) service.db)
          fun lock hlock => .inr hlock
        refine .step (reachable_of_completes hopened hgrants)
          (.serves hstep (fun _ => .inr rfl) fun v t' reply' acknowledged' htrace' => ?_)
        rw [htrace] at htrace'
        cases htrace'
        exact ⟨held, by simp, fun r hr => hheld _ (Transaction.run_locks hrun hr)⟩
    · refine .step ih (.serves hstep (fun _ => .inr rfl) fun w t reply acknowledged htrace => ?_)
      exact (hcommit ⟨w, t, reply, acknowledged, htrace⟩).elim

/-- **Locks are taken in order**, in every reachable state. -/
theorem disciplined_of_reachable (h : (lockedSystem settings law start).Reachable s) :
    Disciplined Resource.rank s.locks := by
  refine h.invariant (I := fun s => Disciplined Resource.rank s.locks) ?_ ?_
  · rintro s ⟨-, hnone⟩
    exact {
      exclusion := fun t u a b r m m' _ ht => by rw [hnone] at ht; cases ht
      ordered := fun t a ht => by rw [hnone] at ht; cases ht }
  · intro s s' _ hdisciplined hstep
    cases hstep with
    | opens hat hnone => exact hdisciplined.begins (Transaction.requests_ordered _ _ _)
    | grants hopen hgrants => exact hdisciplined.grant hopen hgrants
    | serves hservice hlocks hcommits =>
      exact hdisciplined.release fun w => (hlocks w).imp_left (·.1)

/-- An open transaction is that of a worker that is at it, or has stopped. -/
theorem at_of_open (h : (lockedSystem settings law start).Reachable s) :
    ∀ w, s.locks w ≠ none →
      (∃ t, s.service.At w t) ∨ ∃ call, s.service.workers w = .stopped call := by
  refine h.invariant (I := fun s => ∀ w, s.locks w ≠ none →
    (∃ t, s.service.At w t) ∨ ∃ call, s.service.workers w = .stopped call) ?_ ?_
  · rintro s ⟨-, hnone⟩ w hopen
    exact (hopen (hnone w)).elim
  · intro s s' _ hs hstep w hopen
    cases hstep with
    | @opens v t now db hat hnone =>
      by_cases hw : w = v
      · subst hw
        exact .inl ⟨t, hat⟩
      · dsimp only at hopen
        rw [Function.update_of_ne hw] at hopen
        exact hs w hopen
    | @grants v a b ha hgrants =>
      by_cases hw : w = v
      · subst hw
        exact hs w (by simp [ha])
      · dsimp only at hopen
        rw [Function.update_of_ne hw] at hopen
        exact hs w hopen
    | serves hservice hlocks hcommits =>
      obtain ⟨hkept, hstays⟩ | hnone := hlocks w
      · dsimp only at hopen ⊢
        rw [hkept] at hopen
        exact hstays.at (hs w hopen)
      · exact (hopen hnone).elim

/-- **No deadlock.**  However the transactions of any number of workers interleave, there
is no cycle of transactions each waiting for the next, and none is open while its worker
is inside a call of the provider. -/
theorem deadlock_free (h : (lockedSystem settings law start).Reachable s) :
    (¬ ∃ w, Relation.TransGen s.locks.Waits w w) ∧
      ∀ w, s.service.InsideProvider w → s.locks w = none := by
  refine ⟨(disciplined_of_reachable h).acyclic, fun w hinside => ?_⟩
  by_contra hopen
  obtain ⟨call, op, next, pending, hworker, hop⟩ := hinside
  obtain ⟨t, call', next', pending', hat⟩ | ⟨call', hstopped⟩ := at_of_open h w hopen
  · rw [hworker] at hat
    cases hat
    obtain ⟨id, amountUsd, targetCurrency, quotedAmount, hop⟩ | ⟨id, hop⟩ := hop
    · cases hop
    · cases hop
  · rw [hworker] at hstopped
    cases hstopped

/-! Two requests with one key: the second waits for the first. -/

/-- The sample's settlement, under another id. -/
def sampleNewWith (id : UUID) : NewSettlement := { sampleNew with id }

/-- The first has both of its index entries, -/
def sampleHolding : OpenTransaction Resource where
  held := [(.ownerIdempotencyKey "ada" "key-1", .exclusive), (.settlementsPkey 7, .exclusive)]
  remaining := (insertReservedRequests (sampleNewWith 7) sampleStart).drop 2

/-- and the second one of its own. -/
def sampleWaiting : OpenTransaction Resource where
  held := [(.settlementsPkey 8, .exclusive)]
  remaining := (insertReservedRequests (sampleNewWith 8) sampleStart).drop 1

theorem sample_inserting : ∃ service : State,
    (system sampleSettings .contract Database.Unused).Reachable service ∧
      service.At 0 (.insertReserved (sampleNewWith 7)) ∧
      service.At 1 (.insertReserved (sampleNewWith 8)) := by
  have h0 : (within sampleSettings .contract Database.Unused fun _ => True).Reachable
      ⟨⟨sampleStart, 0, fun _ => none, [], []⟩, fun _ => .idle⟩ :=
    .init ⟨sampleStart_unused, fun _ => rfl, rfl, rfl, rfl⟩
  have h1 := run_start h0 0 sampleCreate rfl (fun _ heq => by cases heq) trivial
  have h2 := run_commit h1 0 (fun _ => 0) none sampleStart rfl
    (not_blocked fun _ heq => by cases heq) rfl trivial
  have h3 := run_advance h2 0 rfl (.quotes (.ok sampleQuote) fun _ heq => by cases heq) trivial
  have h4 := run_advance h3 0 rfl (.draws 7) trivial
  have h5 := run_start h4 1 sampleCreate rfl (fun _ heq => by cases heq) trivial
  have h6 := run_commit h5 1 (fun _ => 0) none sampleStart rfl
    (not_blocked fun _ heq => by cases heq) rfl trivial
  have h7 := run_advance h6 1 rfl (.quotes (.ok sampleQuote) fun _ heq => by cases heq) trivial
  have h8 := run_advance h7 1 rfl (.draws 8) trivial
  exact ⟨_, h8.of_restrict, ⟨_, _, _, rfl⟩, ⟨_, _, _, rfl⟩⟩

theorem deadlock_free_sample : ∃ s : LockedState,
    (lockedSystem sampleSettings .contract Database.Unused).Reachable s ∧ s.locks.Waits 1 0 ∧
      (¬ ∃ w, Relation.TransGen s.locks.Waits w w) ∧
      ∀ w, s.service.InsideProvider w → s.locks w = none := by
  obtain ⟨service, hservice, hat, hat'⟩ := sample_inserting
  have h0 := reachable_of_opens (locked_of_reachable hservice) hat rfl 0 sampleStart
  have h1 : (lockedSystem sampleSettings .contract Database.Unused).Reachable
      ⟨service, update (fun _ => none) 0 (some sampleHolding)⟩ :=
    reachable_of_completes h0 (.head (.acquires fun _ _ _ _ hu => by cases hu)
      (.single (.acquires fun _ _ _ _ hu => by cases hu)))
  have h2 := reachable_of_opens h1 hat' rfl 0 sampleStart
  have hfree : Locks.Free (update (fun _ => none) 0 (some sampleHolding)) 1 (.settlementsPkey 8)
      .exclusive := by
    intro u a m' hne hu hheld
    by_cases hu0 : u = 0
    · subst hu0
      rw [Function.update_self] at hu
      cases hu
      simp [sampleHolding] at hheld
    · rw [Function.update_of_ne hu0] at hu
      cases hu
  have h3 : (lockedSystem sampleSettings .contract Database.Unused).Reachable
      ⟨service, update (update (fun _ => none) 0 (some sampleHolding)) 1 (some sampleWaiting)⟩ :=
    reachable_of_completes h2 (.single (.acquires hfree))
  refine ⟨_, h3, ⟨by decide, sampleWaiting, sampleHolding, .ownerIdempotencyKey "ada" "key-1",
    .exclusive, .exclusive, sampleWaiting.remaining.drop 1, by simp, rfl, by simp,
    List.mem_cons_self, trivial⟩, deadlock_free h3⟩

end Runs

end SettlementRouter
