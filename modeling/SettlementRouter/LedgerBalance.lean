import SettlementRouter.JournalEvents
import SettlementRouter.TableTotals

/-! # Balances are the sums behind them

Every write of the service moves the accounts and the settlements together: the
balance of each account stays a sum over the settlements (`Balanced`).  What is
held for an owner is in its RESERVED account, what was paid has left the ledger
through OMNIBUS, and the rest is AVAILABLE.

That funds held are in the account they are taken from is also why applying an
outcome never fails for want of them (`Balanced.finalize_error`).
-/
namespace SettlementRouter

/-- Funds are held for a settlement until its outcome is applied. -/
def SettlementStatus.Holds (status : SettlementStatus) : Prop :=
  status = .reserved ∨ status.InFlight

instance (status : SettlementStatus) : Decidable status.Holds :=
  inferInstanceAs (Decidable (_ ∨ _))

theorem SettlementStatus.holds_iff {status : SettlementStatus} :
    status.Holds ↔ ¬ status.Terminal := by
  cases status <;> simp [Holds, InFlight, Terminal]

/-- The amount counts, if the settlement is this owner's and has such a status. -/
def share (ownerId : String) (P : SettlementStatus → Prop) [DecidablePred P] (id : UUID)
    (row : Settlement id) : Units :=
  if row.ownerId = ownerId ∧ P row.status then row.amountUsd else 0

namespace Database
variable (db : Database)

/-- The amounts held for an owner's settlements. -/
def held (ownerId : String) : Units := db.settlements.total (share ownerId (·.Holds))

/-- The amounts of an owner's settlements that were paid. -/
def spent (ownerId : String) : Units := db.settlements.total (share ownerId (· = .success))

/-- The amounts of all settlements that were paid. -/
def paid : Units :=
  db.settlements.total fun _ row => if row.status = .success then row.amountUsd else 0

/-- The balance of an owner's USD account, zero without one. -/
def usdBalance (ownerId : String) (purpose : AccountPurpose) : Units :=
  (db.balance (usdAccount (ownerId, purpose))).getD 0

end Database

/-- A database as seeding leaves it: the owners' AVAILABLE accounts were credited
with their opening balances, and OMNIBUS was debited with the total. -/
structure Opening (owners : List String) (opening : String → Units) (db : Database) : Prop where
  unused : db.Unused
  nodup : owners.Nodup
  available : ∀ o ∈ owners, Has db (o, .available) .liability (opening o)
  reserved : ∀ o ∈ owners, Has db (o, .reserved) .liability 0
  omnibus : Has db ("system", .omnibus) .asset (owners.map opening).sum
  customers : ∀ o, (db.accounts.lookup (usdAccount (o, .available))).isSome → o ∈ owners
  opening_fits : ∀ o ∈ owners, Decimal.Fits 24 (opening o)
  total_fits : Decimal.Fits 24 (owners.map opening).sum

/-- **The ledger invariant.** -/
structure Balanced (owners : List String) (opening : String → Units) (db : Database) : Prop where
  nodup : owners.Nodup
  available : ∀ o ∈ owners, Has db (o, .available) .liability (opening o - db.held o - db.spent o)
  reserved : ∀ o ∈ owners, Has db (o, .reserved) .liability (db.held o)
  omnibus : Has db ("system", .omnibus) .asset ((owners.map opening).sum - db.paid)
  customers : ∀ o, (db.accounts.lookup (usdAccount (o, .available))).isSome → o ∈ owners
  owned : ∀ id row, db.settlements.lookup id = some row → row.ownerId ∈ owners
  opening_fits : ∀ o ∈ owners, Decimal.Fits 24 (opening o)
  total_fits : Decimal.Fits 24 (owners.map opening).sum

section Sums
variable {db db' : Database} {id : UUID} {row : Settlement id} {status : SettlementStatus}
  {owners : List String} {opening : String → Units} {o : String}

theorem Opening.balanced (h : Opening owners opening db) : Balanced owners opening db := by
  have hempty := h.unused.settlements_eq
  refine ⟨h.nodup, fun o ho => ?_, fun o ho => ?_, ?_, h.customers, fun id row hrow => ?_,
    h.opening_fits, h.total_fits⟩
  · simpa [Database.held, Database.spent, hempty] using h.available o ho
  · simpa [Database.held, hempty] using h.reserved o ho
  · simpa [Database.paid, hempty] using h.omnibus
  · rw [hempty] at hrow
    cases hrow

/-- A new settlement holds its amount. -/
theorem sums_insert (hnone : db.settlements.lookup id = none) (hstatus : row.status = .reserved)
    (hdb : db'.settlements = db.settlements.insert id row) :
    (∀ o, db'.held o = db.held o + if row.ownerId = o then row.amountUsd else 0) ∧
      (∀ o, db'.spent o = db.spent o) ∧ db'.paid = db.paid := by
  refine ⟨fun o => ?_, fun o => ?_, ?_⟩
  · rw [Database.held, hdb, AList.total_insert_of_lookup_none _ _ hnone]
    simp [Database.held, share, hstatus, SettlementStatus.Holds]
  · rw [Database.spent, hdb, AList.total_insert_of_lookup_none _ _ hnone]
    simp [Database.spent, share, hstatus]
  · rw [Database.paid, hdb, AList.total_insert_of_lookup_none _ _ hnone]
    simp [Database.paid, hstatus]

/-- A held settlement that stays held changes no sum; one that ends no longer
holds its amount, and spends it if it succeeds. -/
theorem sums_update (status : SettlementStatus) (db' : Database)
    (hrow : db.settlements.lookup id = some row) (hholds : row.status.Holds)
    (hdb : db'.settlements = db.settlements.insert id (row.withStatus status)) :
    (∀ o, db'.held o =
      db.held o - if row.ownerId = o ∧ ¬ status.Holds then row.amountUsd else 0) ∧
    (∀ o, db'.spent o =
      db.spent o + if row.ownerId = o ∧ status = .success then row.amountUsd else 0) ∧
    db'.paid = db.paid + if status = .success then row.amountUsd else 0 := by
  have hne : row.status ≠ .success := by
    rintro hs
    simp [hs, SettlementStatus.Holds, SettlementStatus.InFlight] at hholds
  refine ⟨fun o => ?_, fun o => ?_, ?_⟩
  · have hsum := AList.total_insert_of_lookup (share o (·.Holds)) (row.withStatus status) hrow
    rw [← hdb] at hsum
    simp only [share, hholds, Settlement.withStatus] at hsum
    rw [Database.held, Database.held]
    by_cases ho : row.ownerId = o <;> by_cases hs : status.Holds <;>
      simp [ho, hs] at hsum ⊢ <;> linarith
  · have hsum := AList.total_insert_of_lookup (share o (· = .success)) (row.withStatus status) hrow
    rw [← hdb] at hsum
    simp only [share, hne, Settlement.withStatus] at hsum
    rw [Database.spent, Database.spent]
    by_cases ho : row.ownerId = o <;> by_cases hs : status = .success <;>
      simp [ho, hs] at hsum ⊢ <;> linarith
  · have hsum := AList.total_insert_of_lookup
      (fun _ row => if row.status = .success then row.amountUsd else 0) (row.withStatus status) hrow
    rw [← hdb] at hsum
    simp only [hne, Settlement.withStatus] at hsum
    rw [Database.paid, Database.paid]
    by_cases hs : status = .success <;> simp [hs] at hsum ⊢ <;> linarith

theorem share_nonneg (o : String) (P : SettlementStatus → Prop) [DecidablePred P] :
    0 ≤ share o P id row := by
  unfold share
  split
  · exact row.amount_positive.le
  · exact le_rfl

theorem held_nonneg (db : Database) (o : String) : 0 ≤ db.held o :=
  AList.total_nonneg fun _ _ _ => share_nonneg o _

theorem spent_nonneg (db : Database) (o : String) : 0 ≤ db.spent o :=
  AList.total_nonneg fun _ _ _ => share_nonneg o _

theorem paid_nonneg (db : Database) : 0 ≤ db.paid := by
  refine AList.total_nonneg fun id row _ => ?_
  split
  · exact row.amount_positive.le
  · exact le_rfl

/-- A held amount is part of what is held for its owner. -/
theorem amount_le_held (hrow : db.settlements.lookup id = some row) (hholds : row.status.Holds) :
    row.amountUsd ≤ db.held row.ownerId := by
  have hle := AList.le_total (w := share row.ownerId (·.Holds)) (fun _ _ _ => share_nonneg _ _) hrow
  simpa [Database.held, share, hholds] using hle

theorem Has.nonneg {key : String × AccountPurpose} {accountClass : AccountClass} {balance : Units}
    (h : Has db key accountClass balance) : 0 ≤ balance := by
  obtain ⟨account, -, -, rfl⟩ := h
  exact account.balance_nonnegative

theorem Has.balance_eq {key : String × AccountPurpose} {accountClass : AccountClass}
    {balance : Units} (h : Has db key accountClass balance) :
    db.balance (usdAccount key) = some balance := by
  obtain ⟨account, haccount, -, rfl⟩ := h
  rw [Database.balance, haccount, Option.map_some]

theorem Has.usdBalance_eq {purpose : AccountPurpose} {accountClass : AccountClass}
    {balance : Units} (h : Has db (o, purpose) accountClass balance) :
    db.usdBalance o purpose = balance := by
  rw [Database.usdBalance, h.balance_eq, Option.getD_some]

/-- The owners' payments are all the payments. -/
theorem Balanced.sum_spent (h : Balanced owners opening db) :
    (owners.map db.spent).sum = db.paid := by
  have hgroups := AList.sum_total_groups (ρ := Settlement) (fun _ row => row.ownerId)
    (fun _ row => if row.status = .success then row.amountUsd else 0) h.nodup h.owned
  rw [Database.paid, ← hgroups]
  refine congrArg List.sum (List.map_congr_left fun o _ => ?_)
  rw [Database.spent]
  refine AList.total_congr fun id row _ => ?_
  simp only [share, ite_and]

/-- Funds taken for owners are still in their two accounts, unless paid. -/
theorem Balanced.sum_accounts (h : Balanced owners opening db) :
    (owners.map fun o => db.usdBalance o .available + db.usdBalance o .reserved).sum =
      (owners.map opening).sum - db.paid := by
  have heach : ∀ o ∈ owners,
      db.usdBalance o .available + db.usdBalance o .reserved = opening o - db.spent o := by
    intro o ho
    rw [(h.available o ho).usdBalance_eq, (h.reserved o ho).usdBalance_eq]
    ring
  rw [List.map_congr_left heach, ← h.sum_spent]
  exact Multiset.sum_map_sub (m := (owners : Multiset String))

end Sums

/-! ## The invariant across writes -/

section Writes
variable {db db' : Database} {id : UUID} {kind : WriteKind} {row : Settlement id}
  {status : SettlementStatus} {owners : List String} {opening : String → Units}

/-- A write that moves no account and keeps every sum keeps the invariant. -/
theorem Balanced.of_accounts_eq (h : Balanced owners opening db)
    (haccounts : db'.accounts = db.accounts) (hheld : ∀ o, db'.held o = db.held o)
    (hspent : ∀ o, db'.spent o = db.spent o) (hpaid : db'.paid = db.paid)
    (howned : ∀ id row, db'.settlements.lookup id = some row → row.ownerId ∈ owners) :
    Balanced owners opening db' := by
  have hhas : ∀ {key accountClass balance}, Has db key accountClass balance →
      Has db' key accountClass balance := by
    intro key accountClass balance hkey
    unfold Has
    rwa [haccounts]
  refine ⟨h.nodup, fun o ho => ?_, fun o ho => ?_, ?_, fun o ho => ?_, howned, h.opening_fits,
    h.total_fits⟩
  · rw [hheld, hspent]
    exact hhas (h.available o ho)
  · rw [hheld]
    exact hhas (h.reserved o ho)
  · rw [hpaid]
    exact hhas h.omnibus
  · rw [haccounts] at ho
    exact h.customers o ho

/-- A posting makes no new AVAILABLE account. -/
theorem Posted.customers {event : JournalEvent} {debitKey creditKey : String × AccountPurpose}
    (h : Posted db row event debitKey creditKey db') (o : String)
    (ho : (db'.accounts.lookup (usdAccount (o, .available))).isSome) :
    (db.accounts.lookup (usdAccount (o, .available))).isSome := by
  obtain ⟨debit, credit, debited, credited, hdebit, hcredit, -, -, -, haccounts⟩ := h.accounts_eq
  rw [haccounts] at ho
  by_cases hc : usdAccount (o, .available) = usdAccount creditKey
  · rw [hc, hcredit]
    rfl
  · rw [AList.lookup_insert_ne hc] at ho
    by_cases hd : usdAccount (o, .available) = usdAccount debitKey
    · rw [hd, hdebit]
      rfl
    · rwa [AList.lookup_insert_ne hd] at ho

/-- The owners of the settlements stay customers when a row is written. -/
theorem owned_insert (howned : ∀ id row, db.settlements.lookup id = some row → row.ownerId ∈ owners)
    (hrow : row.ownerId ∈ owners) (hdb : db'.settlements = db.settlements.insert id row) :
    ∀ id row, db'.settlements.lookup id = some row → row.ownerId ∈ owners := by
  intro id' row' hrow'
  rw [hdb] at hrow'
  by_cases hid : id' = id
  · subst hid
    rw [AList.lookup_insert] at hrow'
    obtain rfl := Option.some.inj hrow'
    exact hrow
  · rw [AList.lookup_insert_ne hid] at hrow'
    exact howned id' row' hrow'

/-- Reserving moves the amount from AVAILABLE to RESERVED. -/
theorem Balanced.after_reserve (h : Balanced owners opening db)
    (hnone : db.settlements.lookup id = none) (hstatus : row.status = .reserved)
    (hposted : Posted { db with settlements := db.settlements.insert id row } row .reserve
      (row.ownerId, .available) (row.ownerId, .reserved) db') : Balanced owners opening db' := by
  obtain ⟨hheld, hspent, hpaid⟩ := sums_insert hnone hstatus hposted.settlements_eq
  have howner : row.ownerId ∈ owners := by
    obtain ⟨debit, -, -, -, hdebit, -⟩ := hposted.accounts_eq
    apply h.customers
    show (db.accounts.lookup (usdAccount (row.ownerId, .available))).isSome
    exact Option.isSome_iff_exists.mpr ⟨debit, hdebit⟩
  refine ⟨h.nodup, fun o ho => ?_, fun o ho => ?_, ?_, fun o ho => ?_, ?_, h.opening_fits,
    h.total_fits⟩
  · rw [hheld, hspent]
    by_cases howns : row.ownerId = o
    · subst howns
      obtain ⟨-, hdebit⟩ := hposted.has_debit (by simp) (h.available _ ho)
      rw [if_pos rfl]
      convert hdebit using 1
      simp only [change, increases]
      norm_num
      ring
    · rw [if_neg howns, add_zero, hposted.has_of_ne (by simp [Ne.symm howns])
        (by simp)]
      exact h.available o ho
  · rw [hheld]
    by_cases howns : row.ownerId = o
    · subst howns
      rw [if_pos rfl]
      exact hposted.has_credit (h.reserved _ ho)
    · rw [if_neg howns, add_zero, hposted.has_of_ne (by simp) (by simp [Ne.symm howns])]
      exact h.reserved o ho
  · rw [hpaid, hposted.has_of_ne (by simp) (by simp)]
    exact h.omnibus
  · exact h.customers o (hposted.customers o ho)
  · exact owned_insert h.owned howner hposted.settlements_eq

/-- Ending a settlement takes its amount from RESERVED, whichever account gets it. -/
theorem Balanced.debited {event : JournalEvent} {creditKey : String × AccountPurpose}
    (h : Balanced owners opening db)
    (hposted : Posted db row event (row.ownerId, .reserved) creditKey db')
    (hcredit : creditKey.2 ≠ .reserved) (hstatus : ¬ status.Holds) {o : String} (ho : o ∈ owners) :
    Has db' (o, .reserved) .liability
      (db.held o - if row.ownerId = o ∧ ¬ status.Holds then row.amountUsd else 0) := by
  by_cases howns : row.ownerId = o
  · subst howns
    obtain ⟨-, hdebit⟩ :=
      hposted.has_debit (fun heq => hcredit (congrArg Prod.snd heq).symm) (h.reserved _ ho)
    rw [if_pos ⟨rfl, hstatus⟩]
    exact hdebit
  · rw [if_neg (fun hc => howns hc.1), sub_zero, hposted.has_of_ne (by simp [Ne.symm howns])
      (fun heq => hcredit (congrArg Prod.snd heq).symm)]
    exact h.reserved o ho

/-- Consuming takes the amount from RESERVED and OMNIBUS. -/
theorem Balanced.after_consume {attempts : AList fun _ : UUID => PayoutAttempt}
    (h : Balanced owners opening db)
    (hrow : db.settlements.lookup id = some row) (hholds : row.status.Holds)
    (hposted : Posted db row .consume (row.ownerId, .reserved) ("system", .omnibus) db') :
    Balanced owners opening { db' with
      settlements := db.settlements.insert id (row.withStatus .success), attempts } := by
  obtain ⟨hheld, hspent, hpaid⟩ := sums_update .success
    { db' with settlements := db.settlements.insert id (row.withStatus .success), attempts }
    hrow hholds rfl
  have hnot : ¬ SettlementStatus.success.Holds := by decide
  refine ⟨h.nodup, fun o ho => ?_, fun o ho => ?_, ?_, fun o ho => ?_, ?_, h.opening_fits,
    h.total_fits⟩
  · rw [hheld, hspent]
    change Has db' _ _ _
    rw [hposted.has_of_ne (by simp) (by simp)]
    convert h.available o ho using 1
    by_cases howns : row.ownerId = o <;> simp [howns, hnot]
    ring
  · rw [hheld]
    exact h.debited hposted (by simp) hnot ho
  · rw [hpaid, if_pos rfl]
    change Has db' _ _ _
    convert hposted.has_credit h.omnibus using 1
    simp only [change, increases]
    norm_num
    ring
  · exact h.customers o (hposted.customers o ho)
  · have howner : (row.withStatus .success).ownerId ∈ owners := h.owned id row hrow
    exact owned_insert h.owned howner rfl

/-- Releasing moves the amount back to AVAILABLE. -/
theorem Balanced.after_release {attempts : AList fun _ : UUID => PayoutAttempt}
    (h : Balanced owners opening db)
    (hrow : db.settlements.lookup id = some row) (hholds : row.status.Holds)
    (hposted : Posted db row .release (row.ownerId, .reserved) (row.ownerId, .available) db') :
    Balanced owners opening { db' with
      settlements := db.settlements.insert id (row.withStatus .failed), attempts } := by
  obtain ⟨hheld, hspent, hpaid⟩ := sums_update .failed
    { db' with settlements := db.settlements.insert id (row.withStatus .failed), attempts }
    hrow hholds rfl
  have hnot : ¬ SettlementStatus.failed.Holds := by decide
  refine ⟨h.nodup, fun o ho => ?_, fun o ho => ?_, ?_, fun o ho => ?_, ?_, h.opening_fits,
    h.total_fits⟩
  · rw [hheld, hspent]
    change Has db' _ _ _
    by_cases howns : row.ownerId = o
    · subst howns
      convert hposted.has_credit (h.available _ ho) using 1
      simp [change, increases, hnot]
      ring
    · rw [hposted.has_of_ne (by simp) (by simp [Ne.symm howns])]
      convert h.available o ho using 1
      simp [howns]
  · rw [hheld]
    exact h.debited hposted (by simp) hnot ho
  · rw [hpaid, if_neg (by decide), add_zero]
    change Has db' _ _ _
    rw [hposted.has_of_ne (by simp) (by simp)]
    exact h.omnibus
  · exact h.customers o (hposted.customers o ho)
  · have howner : (row.withStatus .failed).ownerId ∈ owners := h.owned id row hrow
    exact owned_insert h.owned howner rfl

/-- A held settlement that stays held keeps the invariant. -/
theorem Balanced.after_hold {attempts : AList fun _ : UUID => PayoutAttempt}
    (h : Balanced owners opening db) (hrow : db.settlements.lookup id = some row)
    (hholds : row.status.Holds) (hstatus : status.Holds) (hne : status ≠ .success) :
    Balanced owners opening { db with
      settlements := db.settlements.insert id (row.withStatus status), attempts } := by
  obtain ⟨hheld, hspent, hpaid⟩ := sums_update status
    { db with settlements := db.settlements.insert id (row.withStatus status), attempts }
    hrow hholds rfl
  have howner : (row.withStatus status).ownerId ∈ owners := h.owned id row hrow
  refine h.of_accounts_eq rfl (fun o => ?_) (fun o => ?_) ?_ (owned_insert h.owned howner rfl)
  · simp [hheld, hstatus]
  · simp [hspent, hne]
  · simp [hpaid, hne]

/-- **Every write keeps the ledger balanced.** -/
theorem Write.balanced (hw : Write id kind db db') (h : Balanced owners opening db) :
    Balanced owners opening db' := by
  cases hw with
  | reserve hnone _ hstatus hposted => exact h.after_reserve hnone hstatus hposted
  | submit hrow hstatus =>
    exact h.after_hold hrow (Or.inl hstatus) (by decide) (by decide)
  | adopt => exact h.of_accounts_eq rfl (fun _ => rfl) (fun _ => rfl) rfl h.owned
  | claim => exact h.of_accounts_eq rfl (fun _ => rfl) (fun _ => rfl) rfl h.owned
  | finalize hrow hstatus _ _ _ happlied =>
    have hholds := SettlementStatus.holds_iff.mpr hstatus
    cases happlied with
    | pend => exact h.after_hold hrow hholds (by decide) (by decide)
    | consume hposted => exact h.after_consume hrow hholds hposted
    | release hposted => exact h.after_release hrow hholds hposted

theorem Writes.balanced (hw : Writes db db') (h : Balanced owners opening db) :
    Balanced owners opening db' := by
  induction hw with
  | refl => exact h
  | tail _ hwrite ih =>
    obtain ⟨id, kind, hw⟩ := hwrite
    exact hw.balanced ih

end Writes

/-! ## Applying an outcome cannot fail -/

section Finalize
variable {db : Database} {id : UUID} {row : Settlement id} {owners : List String}
  {opening : String → Units} {clock : ℕ → Time} {token : ℕ} {result : Option ProviderResult}
  {error : ServiceError}

/-- What is paid leaves what is held in OMNIBUS. -/
theorem Balanced.held_le (h : Balanced owners opening db) {o : String} (ho : o ∈ owners) :
    db.held o ≤ (owners.map opening).sum - db.paid := by
  have hsum := h.sum_accounts
  have hnonneg : ∀ x ∈ owners.map fun o => db.usdBalance o .available + db.usdBalance o .reserved,
      0 ≤ x := by
    intro x hx
    obtain ⟨o, ho, rfl⟩ := List.mem_map.mp hx
    rw [(h.available o ho).usdBalance_eq, (h.reserved o ho).usdBalance_eq]
    exact add_nonneg (h.available o ho).nonneg (held_nonneg db o)
  rw [← hsum]
  refine le_trans ?_ (List.single_le_sum hnonneg _ (List.mem_map.mpr ⟨o, ho, rfl⟩))
  rw [(h.available o ho).usdBalance_eq, (h.reserved o ho).usdBalance_eq]
  have havailable := (h.available o ho).nonneg
  linarith

theorem Balanced.held_fits (h : Balanced owners opening db) {o : String} (ho : o ∈ owners) :
    db.held o ≤ opening o := by
  have havailable := (h.available o ho).nonneg
  have hspent := spent_nonneg db o
  linarith

/-- The reservation of a held settlement can be consumed. -/
theorem Balanced.consume_succeeds (h : Balanced owners opening db)
    (hrow : db.settlements.lookup id = some row) (hholds : row.status.Holds)
    (hfirst : db.journalCount id .consume = 0) : ∃ db', consume db row = .ok db' := by
  have howner := h.owned id row hrow
  have hpos := row.amount_positive
  have hle := amount_le_held hrow hholds
  have hheld := h.held_le howner
  have hopening := h.held_fits howner
  have hpaid := paid_nonneg db
  have hdebit : 0 ≤ db.held row.ownerId - row.amountUsd := by linarith
  have hcredit : 0 ≤ (owners.map opening).sum - db.paid - row.amountUsd := by linarith
  exact post_succeeds (h.reserved _ howner) h.omnibus hle hfirst hdebit hcredit
    ((h.opening_fits _ howner).of_le hdebit (by simp [change, increases]; linarith))
    (h.total_fits.of_le hcredit (by simp [change, increases]; linarith))

/-- The reservation of a held settlement can be released. -/
theorem Balanced.release_succeeds (h : Balanced owners opening db)
    (hrow : db.settlements.lookup id = some row) (hholds : row.status.Holds)
    (hfirst : db.journalCount id .release = 0) : ∃ db', release db row = .ok db' := by
  have howner := h.owned id row hrow
  have hpos := row.amount_positive
  have hle := amount_le_held hrow hholds
  have hopening := h.held_fits howner
  have hspent := spent_nonneg db row.ownerId
  have havailable := (h.available _ howner).nonneg
  have hdebit : 0 ≤ db.held row.ownerId - row.amountUsd := by linarith
  have hcredit : 0 ≤ opening row.ownerId - db.held row.ownerId - db.spent row.ownerId +
      row.amountUsd := by linarith
  exact post_succeeds (h.reserved _ howner) (h.available _ howner) hle hfirst hdebit hcredit
    ((h.opening_fits _ howner).of_le hdebit (by simp [change, increases]; linarith))
    ((h.opening_fits _ howner).of_le hcredit (by simp [change, increases]; linarith))

/-- **Applying an outcome fails only for an unknown settlement or a stale token.** -/
theorem Balanced.finalize_error (h : Balanced owners opening db)
    (hsound : (db.lifecycle id).Sound)
    (herror : finalizeAttempt clock id token result db = .error error) :
    error = .settlementNotFound ∨ error = .staleAttemptToken := by
  unfold finalizeAttempt at herror
  split at herror
  · cases herror
    exact Or.inl rfl
  · rename_i row hrow
    split at herror
    · cases herror
      exact Or.inl rfl
    · rename_i attempt hattempt
      by_cases htoken : attempt.attemptToken = token
      · rw [if_neg (not_not.mpr htoken)] at herror
        by_cases hterminal : row.status.Terminal
        · rw [if_pos hterminal] at herror
          cases herror
        · rw [if_neg hterminal] at herror
          have hholds := SettlementStatus.holds_iff.mpr hterminal
          obtain ⟨-, hconsume, hrelease⟩ := hsound.journals (status_of_lookup hrow)
          rw [if_neg (fun hs => hterminal (Or.inl hs))] at hconsume
          rw [if_neg (fun hs => hterminal (Or.inr hs))] at hrelease
          obtain ⟨db₁, hdb₁⟩ := h.consume_succeeds hrow hholds hconsume
          obtain ⟨db₂, hdb₂⟩ := h.release_succeeds hrow hholds hrelease
          dsimp only at herror
          split at herror
          · rw [hdb₁] at herror
            cases herror
          · rw [hdb₂] at herror
            cases herror
          · cases herror
      · rw [if_pos htoken] at herror
        cases herror
        exact Or.inr rfl

end Finalize

/-- **The ledger is balanced** in every state reached from a seeded database. -/
theorem balanced_of_reachable {settings : Settings} {law : ProviderLaw} {owners : List String}
    {opening : String → Units} {s : State}
    (h : (system settings law (Opening owners opening)).Reachable s) :
    Balanced owners opening s.db := by
  refine h.invariant (I := fun s => Balanced owners opening s.db) (fun s hinit => ?_) ?_
  · exact hinit.1.balanced
  · exact fun s t _ hs hstep => hstep.writes.balanced hs

/-- **Balances.**  In every committed state of every run from a seeded database,
each owner's RESERVED balance is what is held for its settlements, its AVAILABLE
balance the rest of what it has not spent, and OMNIBUS what the owners' accounts
come to.  No balance is negative, and no outcome fails to be applied for want of
funds. -/
theorem balances_of_reachable {settings : Settings} {law : ProviderLaw} {owners : List String}
    {opening : String → Units} {s : State}
    (h : (system settings law (Opening owners opening)).Reachable s) :
    (∀ o ∈ owners,
      s.db.balance (usdAccount (o, .reserved)) = some (s.db.held o) ∧
      s.db.balance (usdAccount (o, .available)) =
        some (opening o - s.db.held o - s.db.spent o)) ∧
    s.db.balance (usdAccount ("system", .omnibus)) =
      some ((owners.map opening).sum - s.db.paid) ∧
    s.db.balance (usdAccount ("system", .omnibus)) =
      some (owners.map fun o =>
        s.db.usdBalance o .available + s.db.usdBalance o .reserved).sum ∧
    (∀ key balance, s.db.balance key = some balance → 0 ≤ balance) ∧
    ∀ clock id token result error,
      finalizeAttempt clock id token result s.db = .error error →
        error = .settlementNotFound ∨ error = .staleAttemptToken := by
  have hbalanced := balanced_of_reachable h
  have hsound : ∀ id, (s.db.lifecycle id).Sound :=
    lifecycle_of_reachable (fun _ _ _ hmove hl => hmove.sound hl) (fun _ hdb => hdb.unused.sound) h
  refine ⟨fun o ho => ?_, ?_, ?_, fun key balance hkey => ?_, ?_⟩
  · exact ⟨(hbalanced.reserved o ho).balance_eq, (hbalanced.available o ho).balance_eq⟩
  · exact hbalanced.omnibus.balance_eq
  · rw [hbalanced.sum_accounts]
    exact hbalanced.omnibus.balance_eq
  · obtain ⟨account, -, rfl⟩ := Option.map_eq_some_iff.mp hkey
    exact account.balance_nonnegative
  · exact fun clock id token result error => hbalanced.finalize_error (hsound id)

theorem sampleStart_opening : Opening ["ada"] (fun _ => 50000000000) sampleStart := by
  have hada : ∀ o ∈ ["ada"], o = "ada" := fun o ho => List.mem_singleton.mp ho
  refine ⟨sampleStart_unused, List.nodup_singleton _, fun o ho => ?_, fun o ho => ?_,
    ⟨_, rfl, rfl, rfl⟩, fun o ho => ?_, fun _ _ => by decide, by decide⟩
  · rw [hada o ho]
    exact ⟨_, rfl, rfl, rfl⟩
  · rw [hada o ho]
    exact ⟨_, rfl, rfl, rfl⟩
  · obtain ⟨account, haccount⟩ := Option.isSome_iff_exists.mp ho
    have hmem := AList.mem_lookup_iff.mp haccount
    rcases List.mem_cons.mp hmem with hkey | hmem
    · cases hkey
    · rcases List.mem_cons.mp hmem with hkey | hmem
      · cases hkey
      · cases List.mem_singleton.mp hmem
        exact List.mem_cons_self

theorem balances_of_reachable_paid :
    ∃ s, (system sampleSettings .contract (Opening ["ada"] fun _ => 50000000000)).Reachable s ∧
      s.db.balance (usdAccount ("ada", .reserved)) = some (s.db.held "ada") ∧
      s.db.balance (usdAccount ("ada", .available)) =
        some (50000000000 - s.db.held "ada" - s.db.spent "ada") ∧
      s.db.held "ada" = 0 ∧ s.db.spent "ada" = 10000000000 := by
  obtain ⟨s, h, hdb, -, -⟩ := sample_run sampleStart_opening
  obtain ⟨hreserved, havailable⟩ := (balances_of_reachable h).1 "ada" List.mem_cons_self
  refine ⟨s, h, hreserved, havailable, ?_, ?_⟩
  · rw [hdb]
    rfl
  · rw [hdb]
    rfl

end SettlementRouter
