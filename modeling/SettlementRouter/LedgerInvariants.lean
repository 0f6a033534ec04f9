import SettlementRouter.Rounding
import SettlementRouter.SystemRuns

/-! # Balances recomputed from the postings

The invariant of the ledger that `assert_ledger_invariants` of `app/ledger.py` is about:
every journal is balanced, and every balance is the sum of the postings to the account
(`Recounted`).

A transaction moves an amount between two accounts or leaves the ledger alone
(`LedgerMove`), and either keeps the invariant.  In the order in which the postings were
written their running sums are the balances the account has had, so they fit the column
of a balance.  What the assertion makes of the rows it is given is another matter
(`auditLedger`): it adds them up in the order of a query.
-/
namespace SettlementRouter

open Decimal (Fits)

/-! ## The changes of an account -/

/-- The history of the ledger: its postings in the order in which they were written, which
no query has to return. -/
def Database.postings (db : Database) : List Posting := db.journals.reverse.flatMap (·.postings)

/-- What a posting to an account of this class adds to it. -/
def Posting.change (posting : Posting) (accountClass : AccountClass) : Units :=
  SettlementRouter.change accountClass posting.side posting.amount

/-- What the postings to an account have added to it, one after the other. -/
def Database.changes (db : Database) (accountId : UUID) (accountClass : AccountClass) :
    List Units :=
  (db.postings.filter fun posting => posting.accountId = accountId).map (·.change accountClass)

/-! ## Moves of the ledger -/

/-- The account after a posting. -/
structure Account.Moved (account account' : Account) (units : Units) : Prop where
  id_eq : account'.id = account.id
  class_eq : account'.accountClass = account.accountClass
  balance_eq : account'.balance = account.balance + units
  fits : Fits 24 account'.balance

/-- A journal of two postings moves an amount from one account to another. -/
structure Transfer (db : Database) (debitKey creditKey : AccountKey) (journal : JournalTransaction)
    (db' : Database) : Prop where
  ne : debitKey ≠ creditKey
  journals_eq : db'.journals = journal :: db.journals
  moved : ∃ (debit credit debited credited : Account) (amount : Units) (hamount : 0 < amount),
    journal.postings =
      [⟨debit.id, .usd, .debit, amount, hamount⟩, ⟨credit.id, .usd, .credit, amount, hamount⟩] ∧
    db.accounts.lookup debitKey = some debit ∧ db.accounts.lookup creditKey = some credit ∧
    debit.Moved debited (change debit.accountClass .debit amount) ∧
    credit.Moved credited (change credit.accountClass .credit amount) ∧
    db'.accounts = (db.accounts.insert debitKey debited).insert creditKey credited

/-- What a transaction of the service does to the ledger. -/
inductive LedgerMove (db db' : Database) : Prop
  | keeps : db'.accounts = db.accounts → db'.journals = db.journals → LedgerMove db db'
  | transfers {debitKey creditKey journal} : Transfer db debitKey creditKey journal db' →
      journal.event ≠ .opening → LedgerMove db db'

section Moves
variable {db db' db₁ db₂ : Database} {id : UUID} {settlement : Settlement id} {event : JournalEvent}
  {hevent : event ≠ .opening} {debitKey creditKey : String × AccountPurpose}
  {account account' : Account} {side : PostingSide} {amount : Units}

theorem applyPosting_moved (h : applyPosting account side amount = .ok account')
    (hfits : Fits 24 account'.balance) :
    account.Moved account' (change account.accountClass side amount) := by
  unfold applyPosting at h
  split at h
  · cases h
  · cases h
    exact ⟨rfl, rfl, rfl, hfits⟩

/-- **Posting is a transfer.** -/
theorem post_transfer (hne : debitKey ≠ creditKey)
    (h : post db settlement event hevent debitKey creditKey = .ok db') :
    ∃ journal, Transfer db (usdAccount debitKey) (usdAccount creditKey) journal db' ∧
      journal.event = event := by
  unfold post at h
  simp only [bind, Except.bind, throw, throwThe, MonadExceptOf.throw, pure, Except.pure] at h
  split at h
  · cases h
  rename_i accounts haccounts
  obtain ⟨hdebit, hcredit⟩ := lockedAccounts_ok.mp haccounts
  split at h
  · cases h
  split at h
  · cases h
  cases hdebited : applyPosting accounts.1 .debit settlement.amountUsd with
  | error error =>
    rw [hdebited] at h
    cases h
  | ok debited =>
    cases hcredited : applyPosting accounts.2 .credit settlement.amountUsd with
    | error error =>
      rw [hdebited, hcredited] at h
      cases h
    | ok credited =>
      simp only [hdebited, hcredited] at h
      split at h
      · cases h
      · rename_i hfits
        rw [not_or, not_not, not_not] at hfits
        cases h
        exact ⟨_, ⟨usdAccount_injective.ne hne, rfl, accounts.1, accounts.2, debited, credited, _,
          settlement.amount_positive, rfl, hdebit, hcredit, applyPosting_moved hdebited hfits.1,
          applyPosting_moved hcredited hfits.2, rfl⟩, rfl⟩

/-- Where the transfer is made beside other rows. -/
theorem LedgerMove.of_post (hne : debitKey ≠ creditKey)
    (hpost : post db₁ settlement event hevent debitKey creditKey = .ok db₂)
    (hbefore : db₁.accounts = db.accounts ∧ db₁.journals = db.journals)
    (hafter : db'.accounts = db₂.accounts ∧ db'.journals = db₂.journals) : LedgerMove db db' := by
  obtain ⟨journal, ⟨hne, hjournal, hmoved⟩, rfl⟩ := post_transfer hne hpost
  rw [hbefore.2, ← hafter.2] at hjournal
  rw [hbefore.1, ← hafter.1] at hmoved
  exact .transfers ⟨hne, hjournal, hmoved⟩ hevent

theorem LedgerMove.refl (db : Database) : LedgerMove db db := .keeps rfl rfl

/-- A claim moves no funds. -/
theorem Write.claim_ledger {token : ℕ} (h : Write id (.claim token) db db') :
    db'.accounts = db.accounts ∧ db'.journals = db.journals := by
  cases h <;> exact ⟨rfl, rfl⟩

theorem Claims.ledger {claims : List PayoutClaim} (h : Claims claims db db') :
    db'.accounts = db.accounts ∧ db'.journals = db.journals := by
  induction h with
  | nil => exact ⟨rfl, rfl⟩
  | cons hwrite _ _ ih =>
    obtain ⟨haccounts, hjournals⟩ := hwrite.claim_ledger
    exact ⟨ih.1.trans haccounts, ih.2.trans hjournals⟩

variable {settings : Settings} {clock : ℕ → Time} {locked : UUID → Bool}

theorem insertReserved_ledger {new : NewSettlement} {reply : Unit}
    (h : insertReserved new db = .ok (reply, db')) : LedgerMove db db' := by
  unfold insertReserved at h
  cases hrow : new.row with
  | error error => simp [hrow, bind, Except.bind] at h
  | ok row =>
    cases hinsert : insertSettlement db row with
    | error error => simp [hrow, hinsert, bind, Except.bind] at h
    | ok db₁ =>
      cases hreserve : reserve db₁ row with
      | error error => simp [hrow, hinsert, hreserve, bind, Except.bind] at h
      | ok db₂ =>
        simp only [hrow, hinsert, hreserve, bind, Except.bind, pure, Except.pure] at h
        cases h
        obtain ⟨-, -, rfl⟩ := insertSettlement_ok hinsert
        exact .of_post (by simp) hreserve ⟨rfl, rfl⟩ ⟨rfl, rfl⟩

theorem finalizeAttempt_ledger {token : ℕ} {result : Option ProviderResult} {read : SettlementRead}
    (h : finalizeAttempt clock id token result db = .ok (read, db')) : LedgerMove db db' := by
  unfold finalizeAttempt at h
  split at h
  · cases h
  split at h
  · cases h
  split at h
  · cases h
  split at h
  · cases h
    exact .refl db
  dsimp only at h
  split at h
  · simp only [bind, Except.bind] at h
    split at h
    · cases h
    · rename_i hconsume
      cases h
      exact .of_post (by simp) hconsume ⟨rfl, rfl⟩ ⟨rfl, rfl⟩
  · simp only [bind, Except.bind] at h
    split at h
    · cases h
    · rename_i hrelease
      cases h
      exact .of_post (by simp) hrelease ⟨rfl, rfl⟩ ⟨rfl, rfl⟩
  · cases h
    exact .keeps rfl rfl

/-- **Every transaction transfers once, or leaves the ledger alone.** -/
theorem Transaction.run_ledger {t : Transaction} {reply : t.Reply}
    (h : t.run settings clock locked db = .ok (reply, db')) : LedgerMove db db' := by
  cases t with
  | findByKey ownerId idempotencyKey =>
    cases h
    exact .refl db
  | insertReserved new => exact insertReserved_ledger h
  | get settlementId =>
    obtain ⟨rfl, -⟩ := run_get_ok h
    exact .refl _
  | claimReserved settlementId =>
    obtain ⟨haccounts, hjournals⟩ := (claimReserved_ok h).1.ledger
    exact .keeps haccounts hjournals
  | claimForReconciliation settlementId respectSchedule =>
    obtain ⟨haccounts, hjournals⟩ := (claimForReconciliation_ok h).1.ledger
    exact .keeps haccounts hjournals
  | claimDueBatch limit =>
    obtain ⟨haccounts, hjournals⟩ := (claimDueBatch_claims (Except.ok.inj h)).ledger
    exact .keeps haccounts hjournals
  | finalizeAttempt settlementId attemptToken result => exact finalizeAttempt_ledger h

theorem Step.ledger {law : ProviderLaw} {s s' : State} (h : Step settings law s s') :
    LedgerMove s.db s'.db := by
  obtain ⟨-, hdb⟩ | ⟨e, -, hhappens⟩ := h.happens
  · rw [hdb]
    exact .refl _
  · generalize s'.db = db at hhappens
    cases hhappens with
    | commits acknowledged hworker hblocked hrun => exact Transaction.run_ledger hrun
    | _ => exact .refl _

end Moves

/-! ## What moves keep -/

namespace Database
variable (db : Database)

/-- The id and the class of an account. -/
def identity (key : AccountKey) : Option (UUID × AccountClass) :=
  (db.accounts.lookup key).map fun account => (account.id, account.accountClass)

/-- The journals of seeding. -/
def openings : List JournalTransaction :=
  db.journals.filter fun journal => journal.event = .opening ∧ journal.settlementId = none

end Database

/-- **The ledger adds up.**  Journals are balanced, every balance is the sum of the
postings to its account, and so were the balances before it. -/
structure Recounted (db : Database) : Prop where
  unique : ∀ key key' account account', db.accounts.lookup key = some account →
    db.accounts.lookup key' = some account' → account.id = account'.id → key = key'
  balanced : ∀ journal ∈ db.journals, ∃ debitId creditId amount hamount, journal.postings =
    [⟨debitId, .usd, .debit, amount, hamount⟩, ⟨creditId, .usd, .credit, amount, hamount⟩]
  posted : ∀ journal ∈ db.journals, ∀ posting ∈ journal.postings, Fits 24 posting.amount ∧
    ∃ key accountClass, db.identity key = some (posting.accountId, accountClass)
  balance : ∀ key account, db.accounts.lookup key = some account →
    account.balance = (db.changes account.id account.accountClass).sum
  fits : ∀ key account, db.accounts.lookup key = some account →
    ∀ earlier, earlier <+: db.changes account.id account.accountClass → Fits 24 earlier.sum

section Invariant
variable {db db' : Database} {debitKey creditKey key : AccountKey} {journal : JournalTransaction}

theorem Transfer.identity_eq (h : Transfer db debitKey creditKey journal db') (key : AccountKey) :
    db'.identity key = db.identity key := by
  obtain ⟨debit, credit, debited, credited, amount, hamount, -, hdebit, hcredit, hdebited,
    hcredited, haccounts⟩ := h.moved
  unfold Database.identity
  rw [haccounts]
  by_cases hkey : key = creditKey
  · rw [hkey, AList.lookup_insert, hcredit]
    simp [hcredited.id_eq, hcredited.class_eq]
  · rw [AList.lookup_insert_ne hkey]
    by_cases hkey' : key = debitKey
    · rw [hkey', AList.lookup_insert, hdebit]
      simp [hdebited.id_eq, hdebited.class_eq]
    · rw [AList.lookup_insert_ne hkey']

/-- Accounts keep their ids and classes. -/
theorem LedgerMove.identity_eq (h : LedgerMove db db') (key : AccountKey) :
    db'.identity key = db.identity key := by
  cases h with
  | keeps haccounts hjournals => rw [Database.identity, haccounts, Database.identity]
  | transfers htransfer hevent => exact htransfer.identity_eq key

/-- The service writes no opening journal. -/
theorem LedgerMove.openings_eq (h : LedgerMove db db') : db'.openings = db.openings := by
  cases h with
  | keeps haccounts hjournals => rw [Database.openings, hjournals, Database.openings]
  | transfers htransfer hevent =>
    rw [Database.openings, htransfer.journals_eq, List.filter_cons_of_neg (by simp [hevent]),
      Database.openings]

/-- The postings of a new journal come last. -/
theorem changes_cons (hjournals : db'.journals = journal :: db.journals) (accountId : UUID)
    (accountClass : AccountClass) :
    db'.changes accountId accountClass = db.changes accountId accountClass ++
      (journal.postings.filter fun posting => posting.accountId = accountId).map
        (·.change accountClass) := by
  simp [Database.changes, Database.postings, hjournals]

theorem Recounted.of_eq (h : Recounted db) (haccounts : db'.accounts = db.accounts)
    (hjournals : db'.journals = db.journals) : Recounted db' := by
  have hchanges : db'.changes = db.changes := by
    funext accountId accountClass
    rw [Database.changes, Database.postings, hjournals]
    rfl
  obtain ⟨hunique, hbalanced, hposted, hbalance, hfits⟩ := h
  constructor
  · rw [haccounts]
    exact hunique
  · rw [hjournals]
    exact hbalanced
  · simp only [Database.identity, hjournals, haccounts]
    exact hposted
  · rw [haccounts, hchanges]
    exact hbalance
  · rw [haccounts, hchanges]
    exact hfits

/-- An account whose last change makes up its new balance. -/
theorem Account.Moved.recounted {account account' : Account} {unit : Units} {changes : List Units}
    (h : account.Moved account' unit) (hbalance : account.balance = changes.sum)
    (hfits : ∀ earlier, earlier <+: changes → Fits 24 earlier.sum) :
    account'.balance = (changes ++ [unit]).sum ∧
      ∀ earlier, earlier <+: changes ++ [unit] → Fits 24 earlier.sum := by
  have hsum : account'.balance = (changes ++ [unit]).sum := by
    rw [h.balance_eq, hbalance, List.sum_append, List.sum_singleton]
  refine ⟨hsum, fun earlier hearlier => ?_⟩
  obtain rfl | hbefore := List.prefix_concat_iff.mp hearlier
  · rw [← hsum]
    exact h.fits
  · exact hfits earlier hbefore

/-- Between two balances of the column there is no more than the column holds. -/
theorem Account.Moved.amount_fits {account account' : Account} {side : PostingSide}
    {amount : Units} (h : account.Moved account' (change account.accountClass side amount))
    (hamount : 0 < amount) (hfits : Fits 24 account.balance) : Fits 24 amount := by
  have hbefore := account.balance_nonnegative
  have hafter := account'.balance_nonnegative
  have hfits' := h.fits
  have hbalance := h.balance_eq
  rw [Fits, abs_of_nonneg hbefore] at hfits
  rw [Fits, abs_of_nonneg hafter] at hfits'
  rw [Fits, abs_of_pos hamount]
  unfold change at hbalance
  split at hbalance
  · linarith
  · linarith

/-- **A transfer keeps the ledger adding up.** -/
theorem Recounted.transfer (h : Recounted db) (ht : Transfer db debitKey creditKey journal db') :
    Recounted db' := by
  obtain ⟨debit, credit, debited, credited, amount, hamount, hpostings, hdebit, hcredit, hdebited,
    hcredited, haccounts⟩ := ht.moved
  have hids : debit.id ≠ credit.id := fun heq => ht.ne (h.unique _ _ _ _ hdebit hcredit heq)
  have hchanges (accountId : UUID) (accountClass : AccountClass) :=
    changes_cons ht.journals_eq accountId accountClass
  -- the account of a key, with the changes it has now
  have haccount : ∀ key account', db'.accounts.lookup key = some account' →
      ∃ account, db.accounts.lookup key = some account ∧ account'.id = account.id ∧
        account'.balance = (db'.changes account'.id account'.accountClass).sum ∧
        ∀ earlier, earlier <+: db'.changes account'.id account'.accountClass →
          Fits 24 earlier.sum := by
    intro key account' hlookup
    rw [haccounts] at hlookup
    by_cases hkey : key = creditKey
    · subst hkey
      rw [AList.lookup_insert] at hlookup
      obtain rfl := Option.some.inj hlookup
      have hnow := hcredited.recounted (h.balance _ _ hcredit) (h.fits _ _ hcredit)
      refine ⟨credit, hcredit, hcredited.id_eq, ?_⟩
      rw [hcredited.id_eq, hcredited.class_eq, hchanges, hpostings]
      simpa [Posting.change, hids] using hnow
    · rw [AList.lookup_insert_ne hkey] at hlookup
      by_cases hkey' : key = debitKey
      · subst hkey'
        rw [AList.lookup_insert] at hlookup
        obtain rfl := Option.some.inj hlookup
        have hnow := hdebited.recounted (h.balance _ _ hdebit) (h.fits _ _ hdebit)
        refine ⟨debit, hdebit, hdebited.id_eq, ?_⟩
        rw [hdebited.id_eq, hdebited.class_eq, hchanges, hpostings]
        simpa [Posting.change, hids.symm] using hnow
      · rw [AList.lookup_insert_ne hkey'] at hlookup
        have hdebitId : debit.id ≠ account'.id := fun heq =>
          hkey' (h.unique _ _ _ _ hlookup hdebit heq.symm)
        have hcreditId : credit.id ≠ account'.id := fun heq =>
          hkey (h.unique _ _ _ _ hlookup hcredit heq.symm)
        refine ⟨account', hlookup, rfl, ?_⟩
        rw [hchanges, hpostings]
        simpa [hdebitId, hcreditId] using ⟨h.balance _ _ hlookup, h.fits _ _ hlookup⟩
  constructor
  · intro key key' account account' hlookup hlookup' heq
    obtain ⟨before, hbefore, hid, -⟩ := haccount _ _ hlookup
    obtain ⟨before', hbefore', hid', -⟩ := haccount _ _ hlookup'
    exact h.unique _ _ _ _ hbefore hbefore' (hid.symm.trans (heq.trans hid'))
  · intro journal' hjournal'
    rw [ht.journals_eq] at hjournal'
    obtain rfl | hjournal' := List.mem_cons.mp hjournal'
    · exact ⟨_, _, _, _, hpostings⟩
    · exact h.balanced _ hjournal'
  · intro journal' hjournal' posting hposting
    simp only [ht.identity_eq]
    rw [ht.journals_eq] at hjournal'
    obtain rfl | hjournal' := List.mem_cons.mp hjournal'
    · have hfits : Fits 24 debit.balance := by
        rw [h.balance _ _ hdebit]
        exact h.fits _ _ hdebit _ List.prefix_rfl
      have hamountFits : Fits 24 amount := hdebited.amount_fits hamount hfits
      rw [hpostings] at hposting
      simp only [List.mem_cons, List.not_mem_nil, or_false] at hposting
      obtain rfl | rfl := hposting
      · exact ⟨hamountFits, debitKey, debit.accountClass, by simp [Database.identity, hdebit]⟩
      · exact ⟨hamountFits, creditKey, credit.accountClass, by simp [Database.identity, hcredit]⟩
    · exact h.posted _ hjournal' posting hposting
  · intro key account' hlookup
    obtain ⟨-, -, -, hbalance, -⟩ := haccount _ _ hlookup
    exact hbalance
  · intro key account' hlookup
    obtain ⟨-, -, -, -, hfits⟩ := haccount _ _ hlookup
    exact hfits

theorem Recounted.move (h : Recounted db) (hmove : LedgerMove db db') : Recounted db' := by
  cases hmove with
  | keeps haccounts hjournals => exact h.of_eq haccounts hjournals
  | transfers htransfer hevent => exact h.transfer htransfer

end Invariant

/-! ## Runs -/

section Runs
variable {settings : Settings} {law : ProviderLaw} {s : State}

/-- **The ledger adds up in every reachable state**, accounts are those of the start, and
so are the opening journals. -/
theorem recounted_of_reachable {db : Database} (hdb : Recounted db)
    (h : (system settings law (· = db)).Reachable s) :
    Recounted s.db ∧ (∀ key, s.db.identity key = db.identity key) ∧
      s.db.openings = db.openings := by
  refine h.invariant (I := fun s => Recounted s.db ∧ (∀ key, s.db.identity key = db.identity key) ∧
    s.db.openings = db.openings) ?_ ?_
  · rintro s ⟨rfl, -⟩
    exact ⟨hdb, fun _ => rfl, rfl⟩
  · rintro s s' - ⟨hrecounted, hidentity, hopenings⟩ hstep
    have hmove := hstep.ledger
    exact ⟨hrecounted.move hmove, fun key => (hmove.identity_eq key).trans (hidentity key),
      hmove.openings_eq.trans hopenings⟩

end Runs

end SettlementRouter
