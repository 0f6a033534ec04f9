import SettlementRouter.LedgerInvariants

/-! # The ledger auditor

`assert_ledger_invariants` row by row: the two queries return the accounts and the
postings, the latter in no particular order, and the sums are accumulated in the
default decimal context of 28 digits.

The verdict is right where a balance is negative, which is found before anything is
added up (`LedgerRows.judged_of_negative`), and as long as no running sum is rounded
(`LedgerRows.Unrounded.judged`).  To round one takes more than ten thousand postings of
one sign (`LedgerRows.AtMost.unrounded`).

The ledger of the service adds up, so it is accepted in every order in which nothing is
rounded (`Recounted.assertLedgerInvariants`); the order in which it was written is one
(`audit_of_reachable`).
-/
namespace SettlementRouter

open Decimal (Fits ofColumn)

/-! ## Rows -/

/-- What is read of an account. -/
structure AuditedAccount where
  id : UUID
  accountClass : AccountClass
  balance : Units
  deriving DecidableEq

/-- What is read of a posting. -/
structure AuditedPosting where
  journalId : UUID
  accountId : UUID
  currency : Currency
  side : PostingSide
  amount : Units
  deriving DecidableEq

/-- What the two queries return, in the order in which they return it. -/
structure LedgerRows where
  accounts : List AuditedAccount
  postings : List AuditedPosting
  primary_key : (accounts.map (·.id)).Nodup
  foreign_key : ∀ posting ∈ postings, ∃ account ∈ accounts, account.id = posting.accountId
  balances_fit : ∀ account ∈ accounts, Fits 24 account.balance
  amounts_fit : ∀ posting ∈ postings, Fits 24 posting.amount

/-! ## The assertion -/

/-- `journal_totals` and `expected_balances`. -/
structure Tally where
  journalTotals : UUID × Currency → PostingSide → ℚ
  expectedBalances : UUID → ℚ

/-- The totals before the loop. -/
def Tally.empty : Tally := ⟨fun _ _ => 0, fun _ => 0⟩

/-- `account_by_id[id]`. -/
def accountById (accounts : List AuditedAccount) (id : UUID) : Option AuditedAccount :=
  accounts.find? fun account => account.id = id

/-- What a posting adds to the balance of an account of this class. -/
def AuditedPosting.entry (context : Decimal.Context) (posting : AuditedPosting)
    (accountClass : AccountClass) : ℚ :=
  if increases accountClass posting.side then ofColumn 8 posting.amount
  else context.neg (ofColumn 8 posting.amount)

/-- One turn of the loop over the postings. -/
def Tally.post (context : Decimal.Context) (accounts : List AuditedAccount) (tally : Tally)
    (posting : AuditedPosting) : Tally where
  journalTotals :=
    let key := (posting.journalId, posting.currency)
    Function.update tally.journalTotals key (Function.update (tally.journalTotals key) posting.side
      (context.add (tally.journalTotals key posting.side) (ofColumn 8 posting.amount)))
  expectedBalances :=
    match accountById accounts posting.accountId with
    -- a `KeyError`, which the foreign key excludes
    | none => tally.expectedBalances
    | some account => Function.update tally.expectedBalances posting.accountId
        (context.add (tally.expectedBalances posting.accountId)
          (posting.entry context account.accountClass))

/-- `assert_ledger_invariants`, of the rows that its two queries return, or the message
of its `AssertionError`.  The accounts it looks at before the queries are among the rows:
the session is flushed in between. -/
def auditRows (context : Decimal.Context) (accounts : List AuditedAccount)
    (postings : List AuditedPosting) : Except String Unit :=
  let tally := postings.foldl (Tally.post context accounts) .empty
  if ¬ ∀ account ∈ accounts, 0 ≤ account.balance then .error "negative account balance"
  else if ¬ ∀ posting ∈ postings,
      tally.journalTotals (posting.journalId, posting.currency) .debit =
        tally.journalTotals (posting.journalId, posting.currency) .credit then
    .error "unbalanced journal currency"
  else if ¬ ∀ account ∈ accounts,
      ofColumn 8 account.balance = tally.expectedBalances account.id then
    .error "materialized account balance mismatch"
  else .ok ()

/-- The same, of rows that keep the constraints of the tables. -/
def auditLedger (context : Decimal.Context) (rows : LedgerRows) : Except String Unit :=
  auditRows context rows.accounts rows.postings

/-! ## What it adds up -/

/-- The amounts on one side of a journal, in a currency. -/
def journalAmounts (postings : List AuditedPosting) (journalId : UUID) (currency : Currency)
    (side : PostingSide) : List Units :=
  (postings.filter fun posting =>
    (posting.journalId, posting.currency) = (journalId, currency) ∧ posting.side = side).map
      (·.amount)

/-- The postings to an account. -/
def accountPostings (postings : List AuditedPosting) (accountId : UUID) : List AuditedPosting :=
  postings.filter fun posting => posting.accountId = accountId

/-- What they add to it. -/
def accountChanges (postings : List AuditedPosting) (account : AuditedAccount) : List Units :=
  (accountPostings postings account.id).map fun posting =>
    change account.accountClass posting.side posting.amount

/-- The sums it takes. -/
inductive LedgerRows.Summed (rows : LedgerRows) : List Units → Prop
  | journal (journalId : UUID) (currency : Currency) (side : PostingSide) :
    Summed rows (journalAmounts rows.postings journalId currency side)
  | account {account : AuditedAccount} : account ∈ rows.accounts →
    Summed rows (accountChanges rows.postings account)

/-- **What it is to find out**, in exact arithmetic. -/
structure LedgerRows.AddsUp (rows : LedgerRows) : Prop where
  nonneg : ∀ account ∈ rows.accounts, 0 ≤ account.balance
  balanced : ∀ journalId currency, (journalAmounts rows.postings journalId currency .debit).sum =
    (journalAmounts rows.postings journalId currency .credit).sum
  materialized : ∀ account ∈ rows.accounts,
    account.balance = (accountChanges rows.postings account).sum

/-- The verdict is right. -/
def Judged (context : Decimal.Context) (rows : LedgerRows) : Prop :=
  auditLedger context rows = .ok () ↔ rows.AddsUp

/-- No running sum, in the order of the rows, needs more than `n` digits. -/
def LedgerRows.Unrounded (n : ℕ) (rows : LedgerRows) : Prop :=
  ∀ units, rows.Summed units → ∀ earlier, earlier <+: units →
    Decimal.roundDigits n (ofColumn 8 earlier.sum) = ofColumn 8 earlier.sum

/-- No sum has more than `count` entries of one sign. -/
def LedgerRows.AtMost (count : ℕ) (rows : LedgerRows) : Prop :=
  ∀ units, rows.Summed units → units.countP (0 < ·) ≤ count ∧ units.countP (· < 0) ≤ count

/-- The same rows, returned in another order. -/
structure LedgerRows.Reordered (rows rows' : LedgerRows) : Prop where
  accounts : rows.accounts.Perm rows'.accounts
  postings : rows.postings.Perm rows'.postings

section Tallies
variable {context : Decimal.Context} {accounts : List AuditedAccount} {tally : Tally}

theorem Tally.post_journalTotals (posting : AuditedPosting) (journalId : UUID)
    (currency : Currency) (side : PostingSide) :
    (tally.post context accounts posting).journalTotals (journalId, currency) side =
      if (posting.journalId, posting.currency) = (journalId, currency) ∧ posting.side = side then
        context.add (tally.journalTotals (journalId, currency) side) (ofColumn 8 posting.amount)
      else tally.journalTotals (journalId, currency) side := by
  unfold Tally.post
  dsimp only
  by_cases hkey : (posting.journalId, posting.currency) = (journalId, currency)
  · by_cases hside : posting.side = side
    · rw [if_pos ⟨hkey, hside⟩, hkey, hside, Function.update_self, Function.update_self]
    · rw [if_neg fun h => hside h.2, hkey, Function.update_self,
        Function.update_of_ne (Ne.symm hside)]
  · rw [if_neg fun h => hkey h.1, Function.update_of_ne (Ne.symm hkey)]

theorem Tally.post_expectedBalances (posting : AuditedPosting) {account : AuditedAccount}
    (haccount : accountById accounts account.id = some account) :
    (tally.post context accounts posting).expectedBalances account.id =
      if posting.accountId = account.id then
        context.add (tally.expectedBalances account.id) (posting.entry context account.accountClass)
      else tally.expectedBalances account.id := by
  unfold Tally.post
  dsimp only
  split_ifs with hid
  · rw [hid, haccount]
    exact Function.update_self _ _ _
  · cases accountById accounts posting.accountId with
    | none => rfl
    | some other => exact Function.update_of_ne (Ne.symm hid) _ _

/-- What the loop leaves in `journal_totals`. -/
theorem tally_journalTotals (postings : List AuditedPosting) (journalId : UUID)
    (currency : Currency) (side : PostingSide) :
    (postings.foldl (Tally.post context accounts) .empty).journalTotals (journalId, currency) side =
      context.total ((journalAmounts postings journalId currency side).map (ofColumn 8)) := by
  induction postings using List.reverseRecOn with
  | nil => rfl
  | append_singleton postings posting ih =>
    rw [List.foldl_append, List.foldl_cons, List.foldl_nil, Tally.post_journalTotals, ih,
      journalAmounts, journalAmounts, List.filter_append]
    split_ifs with hkey
    · rw [List.filter_singleton, decide_eq_true hkey]
      simp [Decimal.Context.total]
    · rw [List.filter_singleton, decide_eq_false hkey]
      simp

/-- What the loop leaves in `expected_balances`. -/
theorem tally_expectedBalances (postings : List AuditedPosting) {account : AuditedAccount}
    (haccount : accountById accounts account.id = some account) :
    (postings.foldl (Tally.post context accounts) .empty).expectedBalances account.id =
      context.total ((accountPostings postings account.id).map
        (·.entry context account.accountClass)) := by
  induction postings using List.reverseRecOn with
  | nil => rfl
  | append_singleton postings posting ih =>
    rw [List.foldl_append, List.foldl_cons, List.foldl_nil, Tally.post_expectedBalances _ haccount,
      ih, accountPostings, accountPostings, List.filter_append]
    split_ifs with hid
    · rw [List.filter_singleton, decide_eq_true hid]
      simp [Decimal.Context.total]
    · rw [List.filter_singleton, decide_eq_false hid]
      simp

end Tallies

section Bounds
variable {units : List Units} {bound : Units}

theorem sum_le_countP_mul (h : ∀ unit ∈ units, unit ≤ bound) :
    units.sum ≤ units.countP (0 < ·) * bound := by
  induction units with
  | nil => simp
  | cons unit units ih =>
    have hrest := ih fun other hother => h other (List.mem_cons_of_mem _ hother)
    have hunit := h unit List.mem_cons_self
    rw [List.sum_cons, List.countP_cons]
    split_ifs with hpositive
    · push_cast
      linarith
    · have hle : unit ≤ 0 := by simpa using hpositive
      push_cast
      linarith

theorem le_sum_of_countP_mul (h : ∀ unit ∈ units, -bound ≤ unit) :
    -(units.countP (· < 0) * bound) ≤ units.sum := by
  have hneg : ∀ unit ∈ units.map (-·), unit ≤ bound := by
    intro unit hunit
    obtain ⟨other, hother, rfl⟩ := List.mem_map.mp hunit
    exact neg_le.mp (h other hother)
  have hsum := sum_le_countP_mul hneg
  have hcount : (units.map (-·)).countP (0 < ·) = units.countP (· < 0) := by
    rw [List.countP_map]
    exact List.countP_congr fun unit _ => by simp
  rw [hcount, ← List.sum_neg] at hsum
  exact neg_le.mp hsum

end Bounds

section Verdicts
variable {context : Decimal.Context} {rows rows' : LedgerRows} {account : AuditedAccount} {n : ℕ}

theorem LedgerRows.accountById_eq (haccount : account ∈ rows.accounts) :
    accountById rows.accounts account.id = some account := by
  obtain ⟨other, hother⟩ : ∃ other, accountById rows.accounts account.id = some other := by
    refine Option.isSome_iff_exists.mp (List.find?_isSome.mpr ⟨account, haccount, ?_⟩)
    exact decide_eq_true rfl
  have hid : other.id = account.id := of_decide_eq_true (List.find?_some hother :)
  rw [hother, List.inj_on_of_nodup_map rows.primary_key (List.mem_of_find?_eq_some hother) haccount
    hid]

/-- The assertion in terms of the sums. -/
theorem auditLedger_ok : auditLedger context rows = .ok () ↔
    (∀ account ∈ rows.accounts, 0 ≤ account.balance) ∧
      (∀ posting ∈ rows.postings,
        context.total ((journalAmounts rows.postings posting.journalId posting.currency .debit).map
            (ofColumn 8)) =
          context.total ((journalAmounts rows.postings posting.journalId posting.currency
            .credit).map (ofColumn 8))) ∧
      ∀ account ∈ rows.accounts, ofColumn 8 account.balance =
        context.total ((accountPostings rows.postings account.id).map
          (·.entry context account.accountClass)) := by
  have hbalances : (∀ account ∈ rows.accounts, ofColumn 8 account.balance =
      (rows.postings.foldl (Tally.post context rows.accounts) .empty).expectedBalances
        account.id) ↔
      ∀ account ∈ rows.accounts, ofColumn 8 account.balance =
        context.total ((accountPostings rows.postings account.id).map
          (·.entry context account.accountClass)) := by
    refine forall₂_congr fun account haccount => ?_
    rw [tally_expectedBalances rows.postings (LedgerRows.accountById_eq haccount)]
  unfold auditLedger auditRows
  dsimp only
  simp only [tally_journalTotals, hbalances]
  split_ifs with hnonneg hbalanced hmaterialized
  · exact iff_of_true rfl ⟨hnonneg, hbalanced, hmaterialized⟩
  · exact iff_of_false (by simp) fun h => hmaterialized h.2.2
  · exact iff_of_false (by simp) fun h => hbalanced h.2.1
  · exact iff_of_false (by simp) fun h => hnonneg h.1

/-- What a column holds is not rounded when its sign changes. -/
theorem AuditedPosting.entry_eq {posting : AuditedPosting} (hn : 24 ≤ n)
    (hfits : Fits 24 posting.amount) (accountClass : AccountClass) :
    posting.entry (.prec n) accountClass =
      ofColumn 8 (change accountClass posting.side posting.amount) := by
  unfold AuditedPosting.entry change
  split_ifs
  · rfl
  · have hneg : -ofColumn 8 posting.amount = ofColumn 8 (-posting.amount) := by
      unfold ofColumn
      push_cast
      ring
    rw [Decimal.Context.neg, hneg]
    refine Decimal.roundDigits_ofColumn (Decimal.Fits.mono ?_ hn)
    rwa [Fits, abs_neg]

theorem LedgerRows.entries_eq (hn : 24 ≤ n) (account : AuditedAccount) :
    (accountPostings rows.postings account.id).map (·.entry (.prec n) account.accountClass) =
      (accountChanges rows.postings account).map (ofColumn 8) := by
  rw [accountChanges, List.map_map]
  refine List.map_congr_left fun posting hposting => ?_
  exact posting.entry_eq hn (rows.amounts_fit posting (List.mem_of_mem_filter hposting)) _

/-- A journal without postings is balanced. -/
theorem journalAmounts_eq_nil {postings : List AuditedPosting} {journalId : UUID}
    {currency : Currency}
    (h : ∀ posting ∈ postings, (posting.journalId, posting.currency) ≠ (journalId, currency))
    (side : PostingSide) : journalAmounts postings journalId currency side = [] := by
  rw [journalAmounts, List.filter_eq_nil_iff.mpr, List.map_nil]
  intro posting hposting hkey
  exact h posting hposting (of_decide_eq_true hkey).1

theorem LedgerRows.balanced_iff :
    (∀ posting ∈ rows.postings,
      (journalAmounts rows.postings posting.journalId posting.currency .debit).sum =
        (journalAmounts rows.postings posting.journalId posting.currency .credit).sum) ↔
      ∀ journalId currency, (journalAmounts rows.postings journalId currency .debit).sum =
        (journalAmounts rows.postings journalId currency .credit).sum := by
  refine ⟨fun h journalId currency => ?_, fun h posting _ => h _ _⟩
  by_cases hposted : ∃ posting ∈ rows.postings,
      (posting.journalId, posting.currency) = (journalId, currency)
  · obtain ⟨posting, hposting, hkey⟩ := hposted
    obtain ⟨rfl, rfl⟩ := Prod.mk.inj hkey
    exact h posting hposting
  · push Not at hposted
    rw [journalAmounts_eq_nil hposted, journalAmounts_eq_nil hposted]

/-- **Without rounding the verdict is right.** -/
theorem LedgerRows.Unrounded.judged (h : rows.Unrounded n) (hn : 24 ≤ n) :
    Judged (.prec n) rows := by
  have htotal (units : List Units) (hunits : rows.Summed units) :
      (Decimal.Context.prec n).total (units.map (ofColumn 8)) = ofColumn 8 units.sum :=
    Decimal.Context.total_eq_of_exact (h units hunits)
  rw [Judged, auditLedger_ok]
  have hbalanced : (∀ posting ∈ rows.postings,
      (Decimal.Context.prec n).total ((journalAmounts rows.postings posting.journalId
          posting.currency .debit).map (ofColumn 8)) =
        (Decimal.Context.prec n).total ((journalAmounts rows.postings posting.journalId
          posting.currency .credit).map (ofColumn 8))) ↔
      ∀ posting ∈ rows.postings,
        (journalAmounts rows.postings posting.journalId posting.currency .debit).sum =
          (journalAmounts rows.postings posting.journalId posting.currency .credit).sum := by
    refine forall₂_congr fun posting hposting => ?_
    rw [htotal _ (.journal _ _ _), htotal _ (.journal _ _ _), Decimal.ofColumn_injective.eq_iff]
  have hmaterialized : (∀ account ∈ rows.accounts, ofColumn 8 account.balance =
      (Decimal.Context.prec n).total ((accountPostings rows.postings account.id).map
        (·.entry (.prec n) account.accountClass))) ↔
      ∀ account ∈ rows.accounts, account.balance = (accountChanges rows.postings account).sum := by
    refine forall₂_congr fun account haccount => ?_
    rw [LedgerRows.entries_eq hn, htotal _ (.account haccount), Decimal.ofColumn_injective.eq_iff]
  rw [hbalanced, hmaterialized, LedgerRows.balanced_iff]
  constructor
  · rintro ⟨hnonneg, hbalanced, hmaterialized⟩
    exact ⟨hnonneg, hbalanced, hmaterialized⟩
  · rintro ⟨hnonneg, hbalanced, hmaterialized⟩
    exact ⟨hnonneg, hbalanced, hmaterialized⟩

/-- A negative balance is found before anything is added up. -/
theorem LedgerRows.judged_of_negative (h : ∃ account ∈ rows.accounts, account.balance < 0) :
    Judged context rows := by
  obtain ⟨account, haccount, hnegative⟩ := h
  rw [Judged, auditLedger_ok]
  constructor
  · intro hok
    exact absurd (hok.1 account haccount) (not_le.mpr hnegative)
  · intro haddsUp
    exact absurd (haddsUp.nonneg account haccount) (not_le.mpr hnegative)

theorem LedgerRows.Summed.fits {units : List Units} (h : rows.Summed units) :
    ∀ unit ∈ units, Fits 24 unit := by
  have hfits (posting : AuditedPosting) (hposting : posting ∈ rows.postings) :=
    rows.amounts_fit posting hposting
  cases h with
  | journal journalId currency side =>
    intro unit hunit
    obtain ⟨posting, hposting, rfl⟩ := List.mem_map.mp hunit
    exact hfits posting (List.mem_of_mem_filter hposting)
  | account haccount =>
    intro unit hunit
    obtain ⟨posting, hposting, rfl⟩ := List.mem_map.mp hunit
    have hposting := hfits posting (List.mem_of_mem_filter hposting)
    unfold change
    split_ifs
    · exact hposting
    · rwa [Fits, abs_neg]

/-- A sum has no more entries than there are postings. -/
theorem LedgerRows.Summed.length_le {units : List Units} (h : rows.Summed units) :
    units.length ≤ rows.postings.length := by
  cases h with
  | journal journalId currency side =>
    rw [journalAmounts, List.length_map]
    exact List.length_filter_le _ _
  | account haccount =>
    rw [accountChanges, List.length_map]
    exact List.length_filter_le _ _

theorem LedgerRows.AtMost.mono {count count' : ℕ} (h : rows.AtMost count) (hle : count ≤ count') :
    rows.AtMost count' := fun units hunits =>
  ⟨(h units hunits).1.trans hle, (h units hunits).2.trans hle⟩

theorem LedgerRows.atMost_length : rows.AtMost rows.postings.length := fun _ hunits =>
  ⟨List.countP_le_length.trans hunits.length_le, List.countP_le_length.trans hunits.length_le⟩

/-- Ten thousand amounts of a column have a sum of no more than 28 digits. -/
theorem LedgerRows.AtMost.unrounded (h : rows.AtMost 10000) : rows.Unrounded 28 := by
  intro units hunits earlier hearlier
  refine Decimal.roundDigits_ofColumn ?_
  obtain ⟨hpositive, hnegative⟩ := h units hunits
  have hfits (unit : Units) (hunit : unit ∈ earlier) : -(10 ^ 24 - 1) ≤ unit ∧
      unit ≤ 10 ^ 24 - 1 := by
    obtain ⟨hlow, hhigh⟩ := abs_lt.mp (hunits.fits unit (hearlier.subset hunit))
    exact ⟨by linarith, by linarith⟩
  have hupper := sum_le_countP_mul fun unit hunit => (hfits unit hunit).2
  have hlower := le_sum_of_countP_mul fun unit hunit => (hfits unit hunit).1
  have hpositive := (hearlier.sublist.countP_le (p := (0 < ·))).trans hpositive
  have hnegative := (hearlier.sublist.countP_le (p := (· < 0))).trans hnegative
  rw [Fits, abs_lt]
  constructor
  · refine lt_of_lt_of_le ?_ hlower
    rw [neg_lt_neg_iff]
    calc (earlier.countP (· < 0) : ℤ) * (10 ^ 24 - 1) ≤ 10000 * (10 ^ 24 - 1) := by
          gcongr
          exact_mod_cast hnegative
      _ < 10 ^ 28 := by norm_num
  · refine lt_of_le_of_lt hupper ?_
    calc (earlier.countP (0 < ·) : ℤ) * (10 ^ 24 - 1) ≤ 10000 * (10 ^ 24 - 1) := by
          gcongr
          exact_mod_cast hpositive
      _ < 10 ^ 28 := by norm_num

/-- **Exactly, the order of the rows is of no importance.** -/
theorem LedgerRows.AddsUp.reordered (h : rows.AddsUp) (hrows : rows.Reordered rows') :
    rows'.AddsUp := by
  have hpostings := hrows.postings
  have hjournal (journalId : UUID) (currency : Currency) (side : PostingSide) :
      (journalAmounts rows.postings journalId currency side).sum =
        (journalAmounts rows'.postings journalId currency side).sum :=
    ((hpostings.filter _).map _).sum_eq
  have haccount (account : AuditedAccount) :
      (accountChanges rows.postings account).sum = (accountChanges rows'.postings account).sum :=
    ((hpostings.filter _).map _).sum_eq
  constructor
  · intro account hmem
    exact h.nonneg account (hrows.accounts.mem_iff.mpr hmem)
  · intro journalId currency
    rw [← hjournal, ← hjournal]
    exact h.balanced journalId currency
  · intro account hmem
    rw [← haccount]
    exact h.materialized account (hrows.accounts.mem_iff.mpr hmem)

end Verdicts

/-! ## The ledger of the service -/

/-- The order in which a query without an `ORDER BY` returns its rows: any. -/
structure QueryOrder where
  rows : List AuditedPosting → List AuditedPosting
  perm : ∀ postings, (rows postings).Perm postings

/-- The order in which the rows were written. -/
def QueryOrder.written : QueryOrder := ⟨id, List.Perm.refl⟩

/-- The table of accounts.  Their order decides nothing. -/
def Database.accountRows (db : Database) : List AuditedAccount :=
  db.accounts.entries.map fun row => ⟨row.2.id, row.2.accountClass, row.2.balance⟩

/-- The table of postings, with the journals' places for their ids. -/
def Database.postingRows (db : Database) : List AuditedPosting :=
  db.journals.reverse.zipIdx.flatMap fun (journal, journalId) =>
    journal.postings.map fun posting =>
      ⟨journalId, posting.accountId, posting.currency, posting.side, posting.amount⟩

/-- `assert_ledger_invariants`, in a session on this database. -/
def assertLedgerInvariants (context : Decimal.Context) (order : QueryOrder) (db : Database) :
    Except String Unit :=
  auditRows context db.accountRows (order.rows db.postingRows)

/-- What the two queries return of a database. -/
structure LedgerRows.Returned (rows : LedgerRows) (order : QueryOrder) (db : Database) : Prop where
  accounts : rows.accounts = db.accountRows
  postings : rows.postings = order.rows db.postingRows

section Service
variable {db : Database} {rows : LedgerRows} {order : QueryOrder} {n : ℕ}

theorem accountChanges_postingRows (account : AuditedAccount) :
    accountChanges db.postingRows account = db.changes account.id account.accountClass := by
  have hjournals : db.journals.reverse.flatMap (fun journal =>
      (journal.postings.filter fun posting => posting.accountId = account.id).map
        (·.change account.accountClass)) = db.changes account.id account.accountClass := by
    rw [Database.changes, Database.postings, List.filter_flatMap, List.map_flatMap]
  rw [← hjournals, ← List.zipIdx_map_fst 0 db.journals.reverse, List.flatMap_map, accountChanges,
    accountPostings, Database.postingRows, List.filter_flatMap, List.map_flatMap]
  congr 1
  funext row
  rw [List.filter_map, List.map_map]
  rfl

/-- The place of a journal is its own. -/
theorem flatMap_of_key {α β : Type} {key : α → ℕ} {f : α → List β} {row : α} :
    ∀ {l : List α}, (l.map key).Nodup → row ∈ l →
      (l.flatMap fun other => if key other = key row then f other else []) = f row
  | [], _, hrow => absurd hrow List.not_mem_nil
  | other :: l, hnodup, hrow => by
    rw [List.map_cons, List.nodup_cons] at hnodup
    obtain ⟨hnotMem, hnodup⟩ := hnodup
    rw [List.flatMap_cons]
    obtain rfl | hrow := List.mem_cons.mp hrow
    · have hrest : (l.flatMap fun other => if key other = key row then f other else []) = [] := by
        refine List.flatMap_eq_nil_iff.mpr fun other hother => ?_
        rw [if_neg fun heq => hnotMem (List.mem_map.mpr ⟨other, hother, heq⟩)]
      rw [if_pos rfl, hrest, List.append_nil]
    · have hne : key other ≠ key row := fun heq =>
        hnotMem (List.mem_map.mpr ⟨row, hrow, heq.symm⟩)
      rw [if_neg hne, flatMap_of_key hnodup hrow, List.nil_append]

/-- The amounts of one journal of the database. -/
theorem journalAmounts_postingRows {journal : JournalTransaction} {journalId : ℕ}
    (hjournal : (journal, journalId) ∈ db.journals.reverse.zipIdx) (currency : Currency)
    (side : PostingSide) :
    journalAmounts db.postingRows journalId currency side =
      (journal.postings.filter fun posting =>
        posting.currency = currency ∧ posting.side = side).map (·.amount) := by
  have hnodup : (db.journals.reverse.zipIdx.map Prod.snd).Nodup := by
    rw [List.zipIdx_map_snd]
    exact List.nodup_range'
  rw [← flatMap_of_key (f := fun row => (row.1.postings.filter fun posting =>
    posting.currency = currency ∧ posting.side = side).map (·.amount)) hnodup hjournal,
    journalAmounts, Database.postingRows, List.filter_flatMap, List.map_flatMap]
  congr 1
  funext ⟨other, otherId⟩
  rw [List.filter_map, List.map_map]
  by_cases hid : otherId = journalId
  · simp [hid, Function.comp_def]
  · simp [hid, Function.comp_def]

theorem mem_postingRows {posting : AuditedPosting} (h : posting ∈ db.postingRows) :
    ∃ journal journalId, (journal, journalId) ∈ db.journals.reverse.zipIdx ∧
      ∃ written ∈ journal.postings, posting =
        ⟨journalId, written.accountId, written.currency, written.side, written.amount⟩ := by
  obtain ⟨⟨journal, journalId⟩, hjournal, hposting⟩ := List.mem_flatMap.mp h
  obtain ⟨written, hwritten, rfl⟩ := List.mem_map.mp hposting
  exact ⟨journal, journalId, hjournal, written, hwritten, rfl⟩

theorem mem_accountRows {account : AuditedAccount} (h : account ∈ db.accountRows) :
    ∃ key row, db.accounts.lookup key = some row ∧
      account = ⟨row.id, row.accountClass, row.balance⟩ := by
  obtain ⟨⟨key, row⟩, hrow, rfl⟩ := List.mem_map.mp h
  exact ⟨key, row, AList.mem_lookup_iff.mpr hrow, rfl⟩

theorem mem_accountRows_of_lookup {key : AccountKey} {account : Account}
    (h : db.accounts.lookup key = some account) :
    ⟨account.id, account.accountClass, account.balance⟩ ∈ db.accountRows :=
  List.mem_map.mpr ⟨⟨key, account⟩, AList.mem_lookup_iff.mp h, rfl⟩

/-- A journal of the service has one posting on each side. -/
theorem Recounted.journalAmounts_length (h : Recounted db) (journalId : UUID) (currency : Currency)
    (side : PostingSide) : (journalAmounts db.postingRows journalId currency side).length ≤ 1 := by
  by_cases hposted : ∃ posting ∈ db.postingRows,
      (posting.journalId, posting.currency) = (journalId, currency)
  · obtain ⟨posting, hposting, hkey⟩ := hposted
    obtain ⟨journal, otherId, hjournal, written, -, rfl⟩ := mem_postingRows hposting
    obtain rfl : otherId = journalId := (Prod.mk.inj hkey).1
    have hmem : journal ∈ db.journals := List.mem_reverse.mp (List.fst_mem_of_mem_zipIdx hjournal)
    obtain ⟨debitId, creditId, amount, hamount, hpostings⟩ := h.balanced journal hmem
    rw [journalAmounts_postingRows hjournal, hpostings, List.length_map]
    by_cases hcurrency : Currency.usd = currency
    · cases side <;> simp [hcurrency]
    · simp [hcurrency]
  · push Not at hposted
    rw [journalAmounts_eq_nil hposted]
    exact Nat.zero_le 1

/-- The rows keep the constraints of the tables, in whatever order they are returned. -/
theorem Recounted.exists_rows (h : Recounted db) (order : QueryOrder) :
    ∃ rows : LedgerRows, rows.Returned order db := by
  have hposted (posting : AuditedPosting) (hposting : posting ∈ order.rows db.postingRows) :
      Fits 24 posting.amount ∧ ∃ account ∈ db.accountRows, account.id = posting.accountId := by
    obtain ⟨journal, journalId, hjournal, written, hwritten, rfl⟩ :=
      mem_postingRows ((order.perm _).mem_iff.mp hposting)
    have hmem : journal ∈ db.journals := List.mem_reverse.mp (List.fst_mem_of_mem_zipIdx hjournal)
    obtain ⟨hfits, key, accountClass, hidentity⟩ := h.posted journal hmem written hwritten
    obtain ⟨account, haccount, heq⟩ := Option.map_eq_some_iff.mp hidentity
    exact ⟨hfits, _, mem_accountRows_of_lookup haccount, congrArg Prod.fst heq⟩
  refine ⟨⟨db.accountRows, order.rows db.postingRows, ?_, ?_, ?_, ?_⟩, rfl, rfl⟩
  · rw [Database.accountRows, List.map_map]
    refine List.Nodup.map_on ?_ db.accounts.nodupKeys.nodup
    rintro ⟨key, account⟩ hrow ⟨key', account'⟩ hrow' hid
    have hlookup := AList.mem_lookup_iff.mpr hrow
    have hlookup' := AList.mem_lookup_iff.mpr hrow'
    obtain rfl := h.unique key key' account account' hlookup hlookup' hid
    obtain rfl := Option.some.inj (hlookup.symm.trans hlookup')
    rfl
  · exact fun posting hposting => (hposted posting hposting).2
  · intro account haccount
    obtain ⟨key, row, hlookup, rfl⟩ := mem_accountRows haccount
    show Fits 24 row.balance
    rw [h.balance key row hlookup]
    exact h.fits key row hlookup _ List.prefix_rfl
  · exact fun posting hposting => (hposted posting hposting).1

/-- The rows of two queries are the same rows. -/
theorem LedgerRows.Returned.reordered {rows' : LedgerRows} {order' : QueryOrder}
    (h : rows.Returned order db) (h' : rows'.Returned order' db) : rows.Reordered rows' where
  accounts := by rw [h.accounts, h'.accounts]
  postings := by
    rw [h.postings, h'.postings]
    exact (order.perm _).trans (order'.perm _).symm

/-- **The ledger of the service adds up**, row by row. -/
theorem Recounted.addsUp_written (h : Recounted db) (hrows : rows.Returned .written db) :
    rows.AddsUp := by
  have hpostings : rows.postings = db.postingRows := hrows.postings
  constructor
  · intro account haccount
    rw [hrows.accounts] at haccount
    obtain ⟨key, row, -, rfl⟩ := mem_accountRows haccount
    exact row.balance_nonnegative
  · rw [← LedgerRows.balanced_iff, hpostings]
    intro posting hposting
    obtain ⟨journal, journalId, hjournal, written, hwritten, rfl⟩ := mem_postingRows hposting
    have hmem : journal ∈ db.journals := List.mem_reverse.mp (List.fst_mem_of_mem_zipIdx hjournal)
    obtain ⟨debitId, creditId, amount, hamount, hbalanced⟩ := h.balanced journal hmem
    rw [journalAmounts_postingRows hjournal, journalAmounts_postingRows hjournal]
    rw [hbalanced] at hwritten ⊢
    simp only [List.mem_cons, List.not_mem_nil, or_false] at hwritten
    obtain rfl | rfl := hwritten
    · simp
    · simp
  · intro account haccount
    rw [hrows.accounts] at haccount
    obtain ⟨key, row, hlookup, rfl⟩ := mem_accountRows haccount
    rw [hpostings, accountChanges_postingRows]
    exact h.balance key row hlookup

/-- In whatever order its rows are returned. -/
theorem Recounted.addsUp (h : Recounted db) (hrows : rows.Returned order db) : rows.AddsUp := by
  obtain ⟨rows', hrows'⟩ := h.exists_rows .written
  exact (h.addsUp_written hrows').reordered (hrows'.reordered hrows)

/-- In the order in which they were written, the running sums of an account are the
balances it has had. -/
theorem Recounted.unrounded_written (h : Recounted db) (hrows : rows.Returned .written db)
    (hn : 24 ≤ n) : rows.Unrounded n := by
  intro units hunits earlier hearlier
  have hpostings : rows.postings = db.postingRows := hrows.postings
  refine Decimal.roundDigits_ofColumn (Decimal.Fits.mono ?_ hn)
  have hfits := hunits.fits
  cases hunits with
  | journal journalId currency side =>
    have hlength := h.journalAmounts_length journalId currency side
    rw [← hpostings] at hlength
    have hone : earlier.length ≤ 1 := hearlier.length_le.trans hlength
    match earlier, hone with
    | [], _ => exact (by decide : Fits 24 0)
    | [unit], _ =>
      rw [List.sum_singleton]
      exact hfits unit (hearlier.subset List.mem_cons_self)
  | account haccount =>
    rw [hrows.accounts] at haccount
    obtain ⟨key, row, hlookup, rfl⟩ := mem_accountRows haccount
    rw [hpostings, accountChanges_postingRows] at hearlier
    exact h.fits key row hlookup earlier hearlier

/-- **The assertion holds** of a ledger that adds up, in every order in which no sum is
rounded. -/
theorem Recounted.assertLedgerInvariants (h : Recounted db) (hrows : rows.Returned order db)
    (hunrounded : rows.Unrounded n) (hn : 24 ≤ n) :
    assertLedgerInvariants (.prec n) order db = .ok () := by
  unfold SettlementRouter.assertLedgerInvariants
  rw [← hrows.accounts, ← hrows.postings]
  exact (hunrounded.judged hn).mpr (h.addsUp hrows)

/-- **The ledger of the service is accepted** in the order in which it was written, and in
any order up to ten thousand postings of one sign. -/
theorem audit_of_reachable {settings : Settings} {law : ProviderLaw} {s : State}
    (hdb : Recounted db) (h : (system settings law (· = db)).Reachable s) :
    assertLedgerInvariants (.prec 28) .written s.db = .ok () ∧
      (rows.Returned order s.db → rows.AtMost 10000 →
        assertLedgerInvariants (.prec 28) order s.db = .ok ()) := by
  obtain ⟨hrecounted, -⟩ := recounted_of_reachable hdb h
  constructor
  · obtain ⟨rows, hrows⟩ := hrecounted.exists_rows .written
    have hunrounded : rows.Unrounded 28 := hrecounted.unrounded_written hrows (by norm_num)
    exact hrecounted.assertLedgerInvariants hrows hunrounded (by norm_num)
  · intro hrows hcount
    exact hrecounted.assertLedgerInvariants hrows hcount.unrounded (by norm_num)

end Service

end SettlementRouter
