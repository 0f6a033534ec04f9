import SettlementRouter.Models

/-! # The ledger

`app/ledger.py`: reserving, consuming and releasing funds.  Each posts one
journal of two postings and moves the balances of the two accounts with it.
-/
namespace SettlementRouter

/-- Whether a posting on this side adds to an account of this class. -/
def increases : AccountClass → PostingSide → Bool
  | .asset, .debit => true
  | .liability, .credit => true
  | _, _ => false

/-- What such a posting adds to the balance. -/
def change (accountClass : AccountClass) (side : PostingSide) (amount : Units) : Units :=
  if increases accountClass side then amount else -amount

/-- `apply_posting`, in exact arithmetic. -/
def applyPosting (account : Account) (side : PostingSide) (amount : Units) :
    Except ServiceError Account :=
  if h : account.balance + change account.accountClass side amount < 0 then
    .error .insufficientFunds
  else .ok { account with
    balance := account.balance + change account.accountClass side amount
    balance_nonnegative := not_lt.mp h }

/-- The key of an owner's USD account. -/
def usdAccount (key : String × AccountPurpose) : AccountKey := ⟨key.1, .usd, key.2⟩

/-- `_locked_accounts`, for a debit and a credit key. -/
def lockedAccounts (db : Database) (debitKey creditKey : String × AccountPurpose) :
    Except ServiceError (Account × Account) :=
  match db.accounts.lookup (usdAccount debitKey), db.accounts.lookup (usdAccount creditKey) with
  | some debit, some credit => .ok (debit, credit)
  | _, _ => .error .lookupError

theorem reserve_ne_opening : JournalEvent.reserve ≠ .opening := nofun
theorem consume_ne_opening : JournalEvent.consume ≠ .opening := nofun
theorem release_ne_opening : JournalEvent.release ≠ .opening := nofun

/-- The journal `_post` writes, posted. -/
def postedJournal {id : UUID} (settlement : Settlement id) (event : JournalEvent)
    (hevent : event ≠ .opening) (debit credit : Account) : JournalTransaction where
  settlementId := some id
  event := event
  isPosted := true
  postings :=
    [⟨debit.id, .usd, .debit, settlement.amountUsd, settlement.amount_positive⟩,
      ⟨credit.id, .usd, .credit, settlement.amountUsd, settlement.amount_positive⟩]
  event_settlement := by simp [hevent]

/-- `_post`: the checks in the order of the statements, then the writes. -/
def post (db : Database) {id : UUID} (settlement : Settlement id) (event : JournalEvent)
    (hevent : event ≠ .opening) (debitKey creditKey : String × AccountPurpose) :
    Except ServiceError Database := do
  let (debit, credit) ← lockedAccounts db debitKey creditKey
  if debit.balance < settlement.amountUsd then
    throw .insufficientFunds
  -- the unique index on `(settlement_id, event)`, at the first flush
  if 0 < db.journalCount id event then
    throw (.integrityError .settlementEvent)
  let debited ← applyPosting debit .debit settlement.amountUsd
  let credited ← applyPosting credit .credit settlement.amountUsd
  if ¬ Decimal.Fits 24 debited.balance ∨ ¬ Decimal.Fits 24 credited.balance then
    throw .dataError
  return { db with
    accounts := (db.accounts.insert (usdAccount debitKey) debited).insert
      (usdAccount creditKey) credited
    journals := postedJournal settlement event hevent debit credit :: db.journals }

/-- `reserve`: the funds go on hold. -/
def reserve (db : Database) {id : UUID} (settlement : Settlement id) :
    Except ServiceError Database :=
  post db settlement .reserve (by decide) (settlement.ownerId, .available)
    (settlement.ownerId, .reserved)

/-- `consume`: they leave the bank. -/
def consume (db : Database) {id : UUID} (settlement : Settlement id) :
    Except ServiceError Database :=
  post db settlement .consume (by decide) (settlement.ownerId, .reserved) ("system", .omnibus)

/-- `release`: they are free again. -/
def release (db : Database) {id : UUID} (settlement : Settlement id) :
    Except ServiceError Database :=
  post db settlement .release (by decide) (settlement.ownerId, .reserved)
    (settlement.ownerId, .available)

/-- What a journal of the service did to the ledger: it moved the settlement's
amount between two accounts, and it was the first of its event. -/
structure Posted (db : Database) {id : UUID} (settlement : Settlement id) (event : JournalEvent)
    (debitKey creditKey : String × AccountPurpose) (db' : Database) : Prop where
  settlements_eq : db'.settlements = db.settlements
  attempts_eq : db'.attempts = db.attempts
  first : db.journalCount id event = 0
  journals_eq : ∃ journal : JournalTransaction, db'.journals = journal :: db.journals ∧
    journal.settlementId = some id ∧ journal.event = event
  accounts_eq : ∃ debit credit debited credited : Account,
    db.accounts.lookup (usdAccount debitKey) = some debit ∧
    db.accounts.lookup (usdAccount creditKey) = some credit ∧
    settlement.amountUsd ≤ debit.balance ∧
    applyPosting debit .debit settlement.amountUsd = .ok debited ∧
    applyPosting credit .credit settlement.amountUsd = .ok credited ∧
    db'.accounts = (db.accounts.insert (usdAccount debitKey) debited).insert
      (usdAccount creditKey) credited

section Post
variable {db db' : Database} {id : UUID} {settlement : Settlement id} {event : JournalEvent}
  {hevent : event ≠ .opening} {debitKey creditKey : String × AccountPurpose}
  {account account' : Account} {side : PostingSide} {amount : Units}

theorem applyPosting_ok (h : applyPosting account side amount = .ok account') :
    account'.accountClass = account.accountClass ∧
      account'.balance = account.balance + change account.accountClass side amount := by
  unfold applyPosting at h
  split at h
  · cases h
  · cases h
    exact ⟨rfl, rfl⟩

theorem lockedAccounts_ok {accounts : Account × Account} :
    lockedAccounts db debitKey creditKey = .ok accounts ↔
      db.accounts.lookup (usdAccount debitKey) = some accounts.1 ∧
        db.accounts.lookup (usdAccount creditKey) = some accounts.2 := by
  unfold lockedAccounts
  split <;> simp_all [Prod.ext_iff]

/-- **Posting is one movement of the amount.** -/
theorem post_ok (h : post db settlement event hevent debitKey creditKey = .ok db') :
    Posted db settlement event debitKey creditKey db' := by
  unfold post at h
  simp only [bind, Except.bind, throw, throwThe, MonadExceptOf.throw, pure, Except.pure] at h
  split at h
  · cases h
  rename_i accounts haccounts
  obtain ⟨hdebit, hcredit⟩ := lockedAccounts_ok.mp haccounts
  by_cases hfunds : accounts.1.balance < settlement.amountUsd
  · rw [if_pos hfunds] at h
    cases h
  by_cases hfirst : 0 < db.journalCount id event
  · rw [if_neg hfunds, if_pos hfirst] at h
    cases h
  rw [if_neg hfunds, if_neg hfirst] at h
  cases hdebited : applyPosting accounts.1 .debit settlement.amountUsd with
  | error error =>
    rw [hdebited] at h
    cases h
  | ok debited =>
    cases hcredited : applyPosting accounts.2 .credit settlement.amountUsd with
    | error error =>
      rw [hdebited, hcredited] at h
      cases h
    | ok credited =>
      simp only [hdebited, hcredited] at h
      split at h
      · cases h
      · cases h
        exact ⟨rfl, rfl, Nat.eq_zero_of_not_pos hfirst, ⟨_, rfl, rfl, rfl⟩,
          accounts.1, accounts.2, debited, credited, hdebit, hcredit, not_lt.mp hfunds,
          hdebited, hcredited, rfl⟩

/-- The USD account of this key has this class and balance. -/
def Has (db : Database) (key : String × AccountPurpose) (accountClass : AccountClass)
    (balance : Units) : Prop :=
  ∃ account, db.accounts.lookup (usdAccount key) = some account ∧
    account.accountClass = accountClass ∧ account.balance = balance

variable {key : String × AccountPurpose} {accountClass accountClass' : AccountClass}
  {balance balance' : Units}

/-- What posting leaves, where every check passes. -/
theorem post_eq {debit credit debited credited : Account}
    (hdebit : db.accounts.lookup (usdAccount debitKey) = some debit)
    (hcredit : db.accounts.lookup (usdAccount creditKey) = some credit)
    (hfunds : settlement.amountUsd ≤ debit.balance) (hfirst : db.journalCount id event = 0)
    (hdebited : applyPosting debit .debit settlement.amountUsd = .ok debited)
    (hcredited : applyPosting credit .credit settlement.amountUsd = .ok credited)
    (hfits : Decimal.Fits 24 debited.balance) (hfits' : Decimal.Fits 24 credited.balance) :
    post db settlement event hevent debitKey creditKey = .ok { db with
      accounts := (db.accounts.insert (usdAccount debitKey) debited).insert
        (usdAccount creditKey) credited
      journals := postedJournal settlement event hevent debit credit :: db.journals } := by
  have hlocked : lockedAccounts db debitKey creditKey = .ok (debit, credit) :=
    lockedAccounts_ok.mpr ⟨hdebit, hcredit⟩
  simp only [post, bind, Except.bind, hlocked, if_neg (not_lt.mpr hfunds), hfirst, lt_irrefl,
    if_false, hdebited, hcredited]
  simp [hfits, hfits', pure, Except.pure]

/-- Posting fails for no other reasons than the ones checked. -/
theorem post_succeeds (hdebit : Has db debitKey accountClass balance)
    (hcredit : Has db creditKey accountClass' balance')
    (hfunds : settlement.amountUsd ≤ balance) (hfirst : db.journalCount id event = 0)
    (hdebited : 0 ≤ balance + change accountClass .debit settlement.amountUsd)
    (hcredited : 0 ≤ balance' + change accountClass' .credit settlement.amountUsd)
    (hfits : Decimal.Fits 24 (balance + change accountClass .debit settlement.amountUsd))
    (hfits' : Decimal.Fits 24 (balance' + change accountClass' .credit settlement.amountUsd)) :
    ∃ db', post db settlement event hevent debitKey creditKey = .ok db' := by
  obtain ⟨debit, hdebit, rfl, rfl⟩ := hdebit
  obtain ⟨credit, hcredit, rfl, rfl⟩ := hcredit
  exact ⟨_, post_eq hdebit hcredit hfunds hfirst (dif_neg (not_lt.mpr hdebited))
    (dif_neg (not_lt.mpr hcredited)) hfits hfits'⟩

/-! ## Balances after a posting -/

theorem usdAccount_injective : Function.Injective usdAccount := by
  rintro ⟨owner, purpose⟩ ⟨owner', purpose'⟩ h
  cases h
  rfl

theorem Posted.has_debit (h : Posted db settlement event debitKey creditKey db')
    (hne : debitKey ≠ creditKey) (hkey : Has db debitKey accountClass balance) :
    settlement.amountUsd ≤ balance ∧
      Has db' debitKey accountClass
        (balance + change accountClass .debit settlement.amountUsd) := by
  obtain ⟨debit, credit, debited, credited, hdebit, -, hfunds, hdebited, -, haccounts⟩ :=
    h.accounts_eq
  obtain ⟨account, haccount, rfl, rfl⟩ := hkey
  obtain rfl := Option.some.inj (hdebit.symm.trans haccount)
  obtain ⟨hclass, hbalance⟩ := applyPosting_ok hdebited
  refine ⟨hfunds, debited, ?_, hclass, hbalance⟩
  rw [haccounts, AList.lookup_insert_ne (usdAccount_injective.ne hne), AList.lookup_insert]

theorem Posted.has_credit (h : Posted db settlement event debitKey creditKey db')
    (hkey : Has db creditKey accountClass balance) :
    Has db' creditKey accountClass
      (balance + change accountClass .credit settlement.amountUsd) := by
  obtain ⟨debit, credit, debited, credited, -, hcredit, -, -, hcredited, haccounts⟩ :=
    h.accounts_eq
  obtain ⟨account, haccount, rfl, rfl⟩ := hkey
  obtain rfl := Option.some.inj (hcredit.symm.trans haccount)
  obtain ⟨hclass, hbalance⟩ := applyPosting_ok hcredited
  refine ⟨credited, ?_, hclass, hbalance⟩
  rw [haccounts, AList.lookup_insert]

/-- A posting leaves other accounts alone. -/
theorem Posted.has_of_ne (h : Posted db settlement event debitKey creditKey db')
    (hdebit : key ≠ debitKey) (hcredit : key ≠ creditKey) :
    Has db' key accountClass balance ↔ Has db key accountClass balance := by
  obtain ⟨debit, credit, debited, credited, -, -, -, -, -, haccounts⟩ := h.accounts_eq
  unfold Has
  rw [haccounts, AList.lookup_insert_ne (usdAccount_injective.ne hcredit),
    AList.lookup_insert_ne (usdAccount_injective.ne hdebit)]

end Post

end SettlementRouter
