import SettlementRouter.Auditor
import SettlementRouter.LedgerBalance

/-! # Seeding the demo accounts

`app/seed.py`.  On an empty database it makes the accounts and funds the customer; on
a seeded one it only looks whether they are as it would have made them, whatever has
been posted since.  A select returns what the columns hold, so that an amount is
compared as it was stored, and it returns the postings in any order: the ledger is audited
in the order of each run.

A run that finds the accounts of its customer there changes nothing.  It succeeds where its
amount is that of the first run and the auditor accepts the ledger (`Seeded.rerun`).
-/
namespace SettlementRouter

open Decimal (Fits Number ofColumn toColumn)

/-- What a run may raise. -/
inductive SeedError where
  | runtimeError (message : String)
  | insufficientFunds
  /-- An ordered comparison with a NaN. -/
  | invalidOperation
  /-- A value does not fit its column. -/
  | dataError
  | integrityError (constraint : String)
  deriving DecidableEq

/-- What a run raises on a database that it would not have made. -/
def inconsistent : SeedError := .runtimeError "seed state is inconsistent"

/-! ## The accounts -/

/-- The ids `uuid4` draws for the accounts. -/
structure SeedIds where
  omnibusUsd : UUID
  omnibusUsdc : UUID
  available : UUID
  reserved : UUID

/-- The ids, in the order of the accounts. -/
def SeedIds.toList (ids : SeedIds) : List UUID :=
  [ids.omnibusUsd, ids.omnibusUsdc, ids.available, ids.reserved]

/-- The keys of the customer's accounts. -/
def customerKeys (ownerId : String) : List AccountKey :=
  [usdAccount (ownerId, .available), usdAccount (ownerId, .reserved)]

/-- The key of the account that no posting is ever made to. -/
def omnibusUsdcKey : AccountKey := ⟨"system", .usdc, .omnibus⟩

/-- `_seed_account_keys`. -/
def seedAccountKeys (ownerId : String) : List AccountKey :=
  customerKeys ownerId ++ [usdAccount ("system", .omnibus), omnibusUsdcKey]

/-- The keys of the accounts `_load_seed_accounts` finds. -/
def loadSeedAccounts (ownerId : String) (db : Database) : List AccountKey :=
  (seedAccountKeys ownerId).filter fun key => (db.accounts.lookup key).isSome

/-! ## Validating -/

/-- What of a posting is compared. -/
abbrev PostingEntry := UUID × Currency × PostingSide × Number

@[inherit_doc PostingEntry]
def Posting.entry (posting : Posting) : PostingEntry :=
  (posting.accountId, posting.currency, posting.side, .finite (ofColumn 8 posting.amount))

/-- `_validate_existing_seed`. Two lists are equal once sorted when they are permutations. -/
def validateExistingSeed (context : Decimal.Context) (order : QueryOrder) (ownerId : String)
    (amount : Number) (db : Database) : Except SeedError Unit :=
  match db.accounts.lookup (usdAccount (ownerId, .available)),
    db.accounts.lookup (usdAccount (ownerId, .reserved)),
    db.accounts.lookup (usdAccount ("system", .omnibus)), db.accounts.lookup omnibusUsdcKey with
  | some available, some reserved, some omnibusUsd, some omnibusUsdc =>
    if available.accountClass ≠ .liability ∨ reserved.accountClass ≠ .liability ∨
        omnibusUsd.accountClass ≠ .asset ∨ omnibusUsdc.accountClass ≠ .asset then
      .error inconsistent
    else match db.openings with
      | [journal] =>
        if ¬ (journal.postings.map Posting.entry).Perm
            [(omnibusUsd.id, .usd, .debit, amount), (available.id, .usd, .credit, amount)] then
          .error inconsistent
        else (assertLedgerInvariants context order db).mapError fun _ => inconsistent
      | _ => .error inconsistent
  | _, _, _, _ => .error inconsistent

/-! ## Seeding -/

/-- The four accounts, with nothing on them. -/
def seedAccounts (ids : SeedIds) (ownerId : String) : List (AccountKey × Account) :=
  [(usdAccount ("system", .omnibus), ⟨ids.omnibusUsd, .asset, 0, le_rfl⟩),
    (omnibusUsdcKey, ⟨ids.omnibusUsdc, .asset, 0, le_rfl⟩),
    (usdAccount (ownerId, .available), ⟨ids.available, .liability, 0, le_rfl⟩),
    (usdAccount (ownerId, .reserved), ⟨ids.reserved, .liability, 0, le_rfl⟩)]

/-- `session.add_all`, of new accounts. -/
def addAll : List (AccountKey × Account) → Database → Database
  | [], db => db
  | (key, account) :: rows, db =>
    addAll rows { db with accounts := db.accounts.insert key account }

theorem opening_settlement : JournalEvent.opening = .opening ↔ (none : Option UUID) = none :=
  iff_of_true rfl rfl

/-- The opening journal, posted. -/
def openingJournal (ids : SeedIds) (amount : Units) (hamount : 0 < amount) :
    JournalTransaction where
  settlementId := none
  event := .opening
  isPosted := true
  postings := [⟨ids.omnibusUsd, .usd, .debit, amount, hamount⟩,
    ⟨ids.available, .usd, .credit, amount, hamount⟩]
  event_settlement := opening_settlement

/-- The opening journal and its two balances, on the new accounts. Both balances grow
from zero, and are rounded by the context before they are stored. -/
def fund (context : Decimal.Context) (ids : SeedIds) (ownerId : String) (amount : Number)
    (db : Database) : Except SeedError Database :=
  match amount with
  | .nan => .error .invalidOperation
  | .infinity negative => .error (if negative then .insufficientFunds else .dataError)
  | .finite value =>
    let balance := context.add 0 value
    if balance < 0 then .error .insufficientFunds
    else match toColumn 24 8 balance, toColumn 24 8 value with
      | some balance, some amount =>
        if hbalance : 0 ≤ balance then
          if hamount : 0 < amount then
            .ok { db with
              accounts := (db.accounts.insert (usdAccount ("system", .omnibus))
                ⟨ids.omnibusUsd, .asset, balance, hbalance⟩).insert
                (usdAccount (ownerId, .available)) ⟨ids.available, .liability, balance, hbalance⟩
              journals := openingJournal ids amount hamount :: db.journals }
          else .error (.integrityError "ck_postings_amount_positive")
        else .error (.integrityError "ck_accounts_balance_nonnegative")
      | _, _ => .error .dataError

/-- `seed_demo_accounts`, in a session whose queries return their rows in this order. -/
def seedDemoAccounts (context : Decimal.Context) (order : QueryOrder) (ids : SeedIds)
    (ownerId : String) (amount : Number) (db : Database) : Except SeedError Database :=
  let accounts := loadSeedAccounts ownerId db
  if ∀ key ∈ customerKeys ownerId, key ∈ accounts then do
    validateExistingSeed context order ownerId amount db
    return db
  else if accounts ≠ [] ∨ 0 < db.journals.countP (·.event = .opening) then
    .error inconsistent
  else if ¬ ids.toList.Nodup ∨ db.accounts.entries.any (·.2.id ∈ ids.toList) then
    .error (.integrityError "accounts_pkey")
  else do
    let db ← fund context ids ownerId amount (addAll (seedAccounts ids ownerId) db)
    validateExistingSeed context order ownerId amount db
    return db

/-- The transaction of `main`: what it raises, if anything, and what it leaves. -/
def runSeed (context : Decimal.Context) (order : QueryOrder) (ids : SeedIds) (ownerId : String)
    (amount : Number) (db : Database) : Except SeedError Unit × Database :=
  match seedDemoAccounts context order ids ownerId amount db with
  | .error error => (.error error, db)
  | .ok db => (.ok (), db)

/-- A database after the migrations. -/
def Database.empty : Database := ⟨∅, ∅, [], ∅⟩

/-! ## The first run -/

section First
variable {db db' : Database} {rows : List (AccountKey × Account)} {key : AccountKey}
  {account : Account} {ids : SeedIds} {ownerId : String} {amount : Number} {n : ℕ}
  {order : QueryOrder}

theorem addAll_lookup_of_notMem (hkey : key ∉ rows.map Prod.fst) :
    (addAll rows db).accounts.lookup key = db.accounts.lookup key := by
  induction rows generalizing db with
  | nil => rfl
  | cons row rows ih =>
    rw [List.map_cons, List.mem_cons, not_or] at hkey
    rw [addAll, ih hkey.2, AList.lookup_insert_ne hkey.1]

theorem addAll_lookup_of_mem (hnodup : (rows.map Prod.fst).Nodup) (hrow : (key, account) ∈ rows) :
    (addAll rows db).accounts.lookup key = some account := by
  induction rows generalizing db with
  | nil => cases hrow
  | cons row rows ih =>
    obtain ⟨hkey, hnodup⟩ := List.nodup_cons.mp hnodup
    obtain rfl | hrow := List.mem_cons.mp hrow
    · rw [addAll, addAll_lookup_of_notMem hkey, AList.lookup_insert]
    · rw [addAll, ih hnodup hrow]

theorem seedAccounts_keys_nodup (ids : SeedIds) (ownerId : String) :
    ((seedAccounts ids ownerId).map Prod.fst).Nodup := by
  simp [seedAccounts, usdAccount, omnibusUsdcKey]

/-- The accounts of a new database. -/
theorem lookup_addAll_iff : (addAll (seedAccounts ids ownerId) .empty).accounts.lookup key =
    some account ↔ (key, account) ∈ seedAccounts ids ownerId := by
  have hnodup := seedAccounts_keys_nodup ids ownerId
  refine ⟨fun h => ?_, addAll_lookup_of_mem hnodup⟩
  by_cases hkey : key ∈ (seedAccounts ids ownerId).map Prod.fst
  · obtain ⟨⟨key, account'⟩, hrow, rfl⟩ := List.mem_map.mp hkey
    rw [addAll_lookup_of_mem hnodup hrow] at h
    obtain rfl := Option.some.inj h
    exact hrow
  · rw [addAll_lookup_of_notMem hkey] at h
    cases h

/-- A database as the first run leaves it. -/
def seededDatabase (ids : SeedIds) (ownerId : String) (amount : Units) (hamount : 0 < amount) :
    Database where
  accounts := ((addAll (seedAccounts ids ownerId) .empty).accounts.insert
    (usdAccount ("system", .omnibus)) ⟨ids.omnibusUsd, .asset, amount, hamount.le⟩).insert
    (usdAccount (ownerId, .available)) ⟨ids.available, .liability, amount, hamount.le⟩
  settlements := ∅
  journals := [openingJournal ids amount hamount]
  attempts := ∅

theorem validateExistingSeed_perm {context : Decimal.Context}
    (h : validateExistingSeed context order ownerId amount db = .ok ()) :
    ∃ omnibusId availableId journal, db.openings = [journal] ∧
      (journal.postings.map Posting.entry).Perm
        [(omnibusId, .usd, .debit, amount), (availableId, .usd, .credit, amount)] := by
  unfold validateExistingSeed at h
  split at h
  · rename_i available reserved omnibusUsd omnibusUsdc _ _ _ _
    split at h
    · cases h
    split at h
    · rename_i journal hopenings
      split at h
      · cases h
      · rename_i hperm
        exact ⟨omnibusUsd.id, available.id, journal, hopenings, not_not.mp hperm⟩
    · cases h
  · cases h

/-- An opening journal that is accepted has the amount in its postings. -/
theorem amount_of_perm {units : Units} {hunits : 0 < units} {omnibusId availableId : UUID}
    (h : ((openingJournal ids units hunits).postings.map Posting.entry).Perm
      [(omnibusId, .usd, .debit, amount), (availableId, .usd, .credit, amount)]) :
    amount = .finite (ofColumn 8 units) := by
  have hmem := h.mem_iff.mp List.mem_cons_self
  simp only [List.mem_cons, List.not_mem_nil, or_false] at hmem
  obtain heq | heq := hmem
  · cases heq
    rfl
  · cases heq

theorem fund_ok {context : Decimal.Context} (h : fund context ids ownerId amount db = .ok db') :
    ∃ (value : ℚ) (balance units : Units) (hbalance : 0 ≤ balance) (hunits : 0 < units),
      amount = .finite value ∧ toColumn 24 8 (context.add 0 value) = some balance ∧
      toColumn 24 8 value = some units ∧
      db' = { db with
        accounts := (db.accounts.insert (usdAccount ("system", .omnibus))
          ⟨ids.omnibusUsd, .asset, balance, hbalance⟩).insert
          (usdAccount (ownerId, .available)) ⟨ids.available, .liability, balance, hbalance⟩
        journals := openingJournal ids units hunits :: db.journals } := by
  unfold fund at h
  split at h
  · cases h
  · cases h
  rename_i value
  dsimp only at h
  split at h
  · cases h
  split at h
  · rename_i balance units hstored hunits
    split at h
    · rename_i hbalance
      split at h
      · rename_i hpositive
        exact ⟨value, balance, units, hbalance, hpositive, rfl, hstored, hunits,
          (Except.ok.inj h).symm⟩
      · cases h
    · cases h
  · cases h

/-- On an empty database the accounts are made and funded. -/
theorem seedDemoAccounts_empty {context : Decimal.Context} :
    seedDemoAccounts context order ids ownerId amount .empty =
      if ¬ ids.toList.Nodup then .error (.integrityError "accounts_pkey")
      else do
        let db ← fund context ids ownerId amount (addAll (seedAccounts ids ownerId) .empty)
        validateExistingSeed context order ownerId amount db
        return db := by
  have hload : loadSeedAccounts ownerId .empty = [] :=
    List.filter_eq_nil_iff.mpr fun key _ hsome => by cases hsome
  have hnone : ¬ ∀ key ∈ customerKeys ownerId, key ∈ ([] : List AccountKey) := fun hall => by
    cases hall (usdAccount (ownerId, .available)) List.mem_cons_self
  unfold seedDemoAccounts
  simp only [hload]
  rw [if_neg hnone, if_neg (by simp [Database.empty])]
  simp [Database.empty]

/-- The context does not round what the columns hold. -/
theorem add_ofColumn {units : Units} (hn : 24 ≤ n) (hfits : Fits 24 units) :
    (Decimal.Context.prec n).add 0 (ofColumn 8 units) = ofColumn 8 units := by
  rw [Decimal.Context.add, zero_add]
  exact Decimal.roundDigits_ofColumn (hfits.mono hn)

/-- **The first run** commits only an amount that the columns hold as it is. -/
theorem seedDemoAccounts_ok (hn : 24 ≤ n)
    (h : seedDemoAccounts (.prec n) order ids ownerId amount .empty = .ok db) :
    ∃ units, ∃ hunits : 0 < units, Fits 24 units ∧ amount = .finite (ofColumn 8 units) ∧
      ids.toList.Nodup ∧ db = seededDatabase ids ownerId units hunits := by
  rw [seedDemoAccounts_empty] at h
  split at h
  · cases h
  rename_i hnodup
  simp only [bind, Except.bind] at h
  split at h
  · cases h
  rename_i db₁ hfund
  split at h
  · cases h
  rename_i hvalid
  cases h
  obtain ⟨value, balance, units, hbalance, hunits, rfl, hstored, hvalue, rfl⟩ := fund_ok hfund
  obtain ⟨omnibusId, availableId, journal, hopenings, hperm⟩ := validateExistingSeed_perm hvalid
  have hjournal : journal = openingJournal ids units hunits := by
    cases hopenings
    rfl
  rw [hjournal] at hperm
  have hamount := amount_of_perm hperm
  have hfits := (Decimal.toColumn_eq_some.mp hvalue).2
  refine ⟨units, hunits, hfits, hamount, not_not.mp hnodup, ?_⟩
  -- the balance was not rounded either
  cases hamount
  rw [add_ofColumn hn hfits, Decimal.toColumn_ofColumn hfits] at hstored
  cases hstored
  rfl

end First

/-! ## Later runs -/

/-- A database that was seeded with an amount, whatever the service has posted since. -/
structure Seeded (ids : SeedIds) (ownerId : String) (units : Units) (db : Database) : Prop where
  recounted : Recounted db
  identity_eq : ∀ key, db.identity key = (addAll (seedAccounts ids ownerId) .empty).identity key
  openings_eq : ∃ hunits, db.openings = [openingJournal ids units hunits]

section Later
variable {db : Database} {ids ids' : SeedIds} {ownerId ownerId' : String} {units : Units}
  {amount : Number} {key : AccountKey} {account : Account} {n : ℕ} {context : Decimal.Context}
  {order : QueryOrder} {rows : LedgerRows}

theorem recounted_seedAccounts (hnodup : ids.toList.Nodup) :
    Recounted (addAll (seedAccounts ids ownerId) .empty) where
  unique := by
    intro key key' account account' hlookup hlookup' hid
    have heq := List.inj_on_of_nodup_map (f := fun row : AccountKey × Account => row.2.id)
      (l := seedAccounts ids ownerId) hnodup (lookup_addAll_iff.mp hlookup)
      (lookup_addAll_iff.mp hlookup') hid
    exact congrArg Prod.fst heq
  balanced := fun journal hjournal => by cases hjournal
  posted := fun journal hjournal => by cases hjournal
  balance := by
    intro key account hlookup
    have hrow := lookup_addAll_iff.mp hlookup
    simp only [seedAccounts, List.mem_cons, List.not_mem_nil, or_false] at hrow
    obtain h | h | h | h := hrow <;> cases h <;> rfl
  fits := by
    intro key account hlookup earlier hearlier
    obtain rfl := List.prefix_nil.mp hearlier
    exact (by decide : Fits 24 0)

theorem seededDatabase_transfer (hunits : 0 < units) (hfits : Fits 24 units) :
    Transfer (addAll (seedAccounts ids ownerId) .empty) (usdAccount ("system", .omnibus))
      (usdAccount (ownerId, .available)) (openingJournal ids units hunits)
      (seededDatabase ids ownerId units hunits) where
  ne := usdAccount_injective.ne (by simp)
  journals_eq := rfl
  moved := by
    refine ⟨⟨ids.omnibusUsd, .asset, 0, le_rfl⟩, ⟨ids.available, .liability, 0, le_rfl⟩,
      ⟨ids.omnibusUsd, .asset, units, hunits.le⟩, ⟨ids.available, .liability, units, hunits.le⟩,
      units, hunits, rfl, lookup_addAll_iff.mpr (by simp [seedAccounts]),
      lookup_addAll_iff.mpr (by simp [seedAccounts]), ⟨rfl, rfl, ?_, hfits⟩, ⟨rfl, rfl, ?_, hfits⟩,
      rfl⟩
    · exact (zero_add units).symm
    · exact (zero_add units).symm

theorem seeded_seededDatabase (hnodup : ids.toList.Nodup) (hunits : 0 < units)
    (hfits : Fits 24 units) : Seeded ids ownerId units (seededDatabase ids ownerId units hunits) :=
  have htransfer := seededDatabase_transfer hunits hfits
  ⟨(recounted_seedAccounts hnodup).transfer htransfer, htransfer.identity_eq, hunits, rfl⟩

theorem Seeded.exists_account (h : Seeded ids ownerId units db)
    (hrow : (key, account) ∈ seedAccounts ids ownerId) :
    ∃ account', db.accounts.lookup key = some account' ∧ account'.id = account.id ∧
      account'.accountClass = account.accountClass := by
  have hidentity := h.identity_eq key
  unfold Database.identity at hidentity
  rw [lookup_addAll_iff.mpr hrow, Option.map_some, Option.map_eq_some_iff] at hidentity
  obtain ⟨account', hlookup, heq⟩ := hidentity
  exact ⟨account', hlookup, congrArg Prod.fst heq, congrArg Prod.snd heq⟩

/-- There are no other accounts. -/
theorem Seeded.mem_of_lookup (h : Seeded ids ownerId units db)
    (hlookup : (db.accounts.lookup key).isSome) :
    key ∈ (seedAccounts ids ownerId).map Prod.fst := by
  have hidentity := congrArg Option.isSome (h.identity_eq key)
  unfold Database.identity at hidentity
  rw [Option.isSome_map, hlookup, Option.isSome_map] at hidentity
  obtain ⟨account, haccount⟩ := Option.isSome_iff_exists.mp hidentity.symm
  exact List.mem_map_of_mem (lookup_addAll_iff.mp haccount)

/-- **Validating compares the amount and audits the ledger**, and nothing else can fail. -/
theorem Seeded.validate (h : Seeded ids ownerId units db) :
    validateExistingSeed context order ownerId amount db =
      if amount = .finite (ofColumn 8 units) then
        (assertLedgerInvariants context order db).mapError fun _ => inconsistent
      else .error inconsistent := by
  obtain ⟨omnibusUsd, homnibusUsd, homnibusUsdId, homnibusUsdClass⟩ := h.exists_account (.head _)
  obtain ⟨omnibusUsdc, homnibusUsdc, -, homnibusUsdcClass⟩ := h.exists_account (.tail _ (.head _))
  obtain ⟨available, havailable, havailableId, havailableClass⟩ :=
    h.exists_account (.tail _ (.tail _ (.head _)))
  obtain ⟨reserved, hreserved, -, hreservedClass⟩ :=
    h.exists_account (.tail _ (.tail _ (.tail _ (.head _))))
  obtain ⟨hunits, hopenings⟩ := h.openings_eq
  unfold validateExistingSeed
  simp only [havailable, hreserved, homnibusUsd, homnibusUsdc, hopenings]
  rw [if_neg (by simp [*]), homnibusUsdId, havailableId]
  by_cases hamount : amount = .finite (ofColumn 8 units)
  · rw [if_pos hamount, if_neg]
    rw [not_not, hamount]
    exact .refl _
  · rw [if_neg hamount, if_pos fun hperm => hamount (amount_of_perm hperm)]

/-- **A second run** for the customer validates, and changes nothing. -/
theorem Seeded.rerun (h : Seeded ids ownerId units db) :
    seedDemoAccounts context order ids' ownerId amount db = (do
      validateExistingSeed context order ownerId amount db
      return db) := by
  have hcustomer : ∀ key ∈ customerKeys ownerId, key ∈ loadSeedAccounts ownerId db := by
    intro key hkey
    refine List.mem_filter.mpr ⟨List.mem_append_left _ hkey, ?_⟩
    obtain rfl | rfl : key = usdAccount (ownerId, .available) ∨
        key = usdAccount (ownerId, .reserved) := by simpa [customerKeys] using hkey
    · obtain ⟨account, haccount, -⟩ := h.exists_account (.tail _ (.tail _ (.head _)))
      exact Option.isSome_of_eq_some haccount
    · obtain ⟨account, haccount, -⟩ := h.exists_account (.tail _ (.tail _ (.tail _ (.head _))))
      exact Option.isSome_of_eq_some haccount
  unfold seedDemoAccounts
  rw [if_pos hcustomer]

/-- It succeeds where the auditor accepts the ledger. -/
theorem Seeded.rerun_ok (h : Seeded ids ownerId units db)
    (haudit : assertLedgerInvariants context order db = .ok ()) :
    seedDemoAccounts context order ids' ownerId (.finite (ofColumn 8 units)) db = .ok db := by
  rw [h.rerun, h.validate, if_pos rfl, haudit]
  rfl

/-- It fails where the auditor does not. -/
theorem Seeded.rerun_rejected (h : Seeded ids ownerId units db)
    (haudit : assertLedgerInvariants context order db ≠ .ok ()) :
    seedDemoAccounts context order ids' ownerId amount db = .error inconsistent := by
  rw [h.rerun, h.validate]
  split
  · cases hverdict : assertLedgerInvariants context order db with
    | error message => rfl
    | ok _ => exact absurd hverdict haudit
  · rfl

/-- It fails for another amount. -/
theorem Seeded.rerun_amount (h : Seeded ids ownerId units db)
    (hamount : amount ≠ .finite (ofColumn 8 units)) :
    seedDemoAccounts context order ids' ownerId amount db = .error inconsistent := by
  rw [h.rerun, h.validate, if_neg hamount]
  rfl

/-- **For another customer** the accounts of the system are there already. -/
theorem Seeded.rerun_other (h : Seeded ids ownerId units db) (hne : ownerId' ≠ ownerId) :
    seedDemoAccounts context order ids' ownerId' amount db = .error inconsistent := by
  have hcustomer : ¬ ∀ key ∈ customerKeys ownerId', key ∈ loadSeedAccounts ownerId' db := by
    intro hall
    have hkey := hall (usdAccount (ownerId', .available)) List.mem_cons_self
    have hmem := h.mem_of_lookup (List.mem_filter.mp hkey).2
    simp [seedAccounts, usdAccount, omnibusUsdcKey, hne] at hmem
  have hloaded : loadSeedAccounts ownerId' db ≠ [] := by
    obtain ⟨account, haccount, -⟩ := h.exists_account (.head _)
    refine List.ne_nil_of_mem (List.mem_filter.mpr ⟨?_, Option.isSome_of_eq_some haccount⟩)
    exact List.mem_append_right _ List.mem_cons_self
  unfold seedDemoAccounts
  rw [if_neg hcustomer, if_pos (.inl hloaded)]

/-- Two postings are accepted in either order. -/
theorem seededDatabase_audit (hnodup : ids.toList.Nodup) (hunits : 0 < units)
    (hfits : Fits 24 units) : assertLedgerInvariants (.prec 28) order
      (seededDatabase ids ownerId units hunits) = .ok () := by
  have hrecounted : Recounted (seededDatabase ids ownerId units hunits) :=
    (seeded_seededDatabase hnodup hunits hfits).recounted
  obtain ⟨rows, hrows⟩ := hrecounted.exists_rows order
  have hlength : rows.postings.length = 2 := by
    rw [hrows.postings, (order.perm _).length_eq]
    rfl
  have hcount : rows.AtMost 10000 := LedgerRows.atMost_length.mono (by omega)
  exact hrecounted.assertLedgerInvariants hrows hcount.unrounded (by norm_num)

/-- **The first run commits** every positive amount that the columns hold as it is. -/
theorem seedDemoAccounts_succeeds (hnodup : ids.toList.Nodup) (hunits : 0 < units)
    (hfits : Fits 24 units) :
    seedDemoAccounts (.prec 28) order ids ownerId (.finite (ofColumn 8 units)) .empty =
      .ok (seededDatabase ids ownerId units hunits) := by
  have hpositive : ¬ ofColumn 8 units < 0 := not_lt.mpr (by unfold ofColumn; positivity)
  have hfund : fund (.prec 28) ids ownerId (.finite (ofColumn 8 units))
      (addAll (seedAccounts ids ownerId) .empty) =
        .ok (seededDatabase ids ownerId units hunits) := by
    unfold fund
    simp only [add_ofColumn (n := 28) (by decide) hfits, Decimal.toColumn_ofColumn hfits,
      if_neg hpositive, dif_pos hunits.le, dif_pos hunits]
    rfl
  have hvalid : validateExistingSeed (.prec 28) order ownerId (.finite (ofColumn 8 units))
      (seededDatabase ids ownerId units hunits) = .ok () := by
    rw [(seeded_seededDatabase hnodup hunits hfits).validate, if_pos rfl,
      seededDatabase_audit hnodup hunits hfits]
    rfl
  rw [seedDemoAccounts_empty, if_neg (not_not.mpr hnodup)]
  simp only [bind, Except.bind, hfund, hvalid]
  rfl

/-- **A seeded database** is what the results about balances start from. -/
theorem seededDatabase_opening (hnodup : ids.toList.Nodup) (hunits : 0 < units)
    (hfits : Fits 24 units) :
    Opening [ownerId] (fun _ => units) (seededDatabase ids ownerId units hunits) where
  unused := ⟨rfl, rfl, fun journal hjournal => by
    obtain rfl := List.mem_singleton.mp hjournal
    rfl⟩
  nodup := List.nodup_singleton _
  available := by
    intro o ho
    obtain rfl := List.mem_singleton.mp ho
    exact ⟨_, AList.lookup_insert _, rfl, rfl⟩
  reserved := by
    intro o ho
    obtain rfl := List.mem_singleton.mp ho
    refine ⟨⟨ids.reserved, .liability, 0, le_rfl⟩, ?_, rfl, rfl⟩
    unfold seededDatabase
    rw [AList.lookup_insert_ne (usdAccount_injective.ne (by simp)),
      AList.lookup_insert_ne (usdAccount_injective.ne (by simp)), lookup_addAll_iff]
    simp [seedAccounts]
  omnibus := by
    refine ⟨⟨ids.omnibusUsd, .asset, units, hunits.le⟩, ?_, rfl, by simp⟩
    unfold seededDatabase
    rw [AList.lookup_insert_ne (usdAccount_injective.ne (by simp)), AList.lookup_insert]
  customers := by
    intro o ho
    have hmem := (seeded_seededDatabase hnodup hunits hfits).mem_of_lookup ho
    simpa [seedAccounts, usdAccount, omnibusUsdcKey] using hmem
  opening_fits := fun _ _ => hfits
  total_fits := by simpa using hfits

end Later

section Runs
variable {settings : Settings} {law : ProviderLaw} {ids : SeedIds} {ownerId : String}
  {amount : Number} {db : Database} {s : State}

theorem seeded_of_reachable {n : ℕ} {order : QueryOrder} (hn : 24 ≤ n)
    (hfirst : seedDemoAccounts (.prec n) order ids ownerId amount .empty = .ok db)
    (h : (system settings law (· = db)).Reachable s) :
    ∃ units, amount = .finite (ofColumn 8 units) ∧ Seeded ids ownerId units s.db := by
  obtain ⟨units, hunits, hfits, hamount, hnodup, rfl⟩ := seedDemoAccounts_ok hn hfirst
  have hseeded : Seeded ids ownerId units (seededDatabase ids ownerId units hunits) :=
    seeded_seededDatabase hnodup hunits hfits
  obtain ⟨hrecounted, hidentity, hopenings⟩ := recounted_of_reachable hseeded.recounted h
  exact ⟨units, hamount, hrecounted, fun key => (hidentity key).trans (hseeded.identity_eq key),
    hunits, hopenings⟩

end Runs

end SettlementRouter
