import SettlementRouter.Auditor

/-! # The order of the rows

The queries of `assert_ledger_invariants` have no `ORDER BY` on the postings.  Exactly,
their order is of no importance; with rounded sums it is from the ten thousand and first
posting on, where a ledger that adds up is accepted in the order in which it was written
and rejected in another (`churn_rejected`).  Up to there the auditor is exact
(`audit_judged_iff`).
-/
namespace SettlementRouter

open Decimal (Fits ofColumn)

/-! ## A ledger that is rejected -/

/-- The largest amount of a column. -/
def maxUnits : Units := 10 ^ 24 - 1

/-- A journal of this amount. -/
structure Booking where
  journalId : UUID
  debitId : UUID
  creditId : UUID
  deriving DecidableEq

/-- Its two postings. -/
def Booking.postings (booking : Booking) : List AuditedPosting := [
  ⟨booking.journalId, booking.debitId, .usd, .debit, maxUnits⟩,
  ⟨booking.journalId, booking.creditId, .usd, .credit, maxUnits⟩]

/-- The account of the available funds, that of the reserved ones, and the bank's. -/
def churnAccounts : List AuditedAccount :=
  [⟨1, .liability, 0⟩, ⟨2, .liability, maxUnits⟩, ⟨3, .asset, maxUnits⟩]

/-- The customer pays all the funds in. -/
def openingBooking : Booking := ⟨0, 3, 1⟩

/-- The `i`-th settlement reserves all the funds and releases them when it fails. -/
def reserveBooking (i : ℕ) : Booking := ⟨2 * i + 1, 1, 2⟩

@[inherit_doc reserveBooking]
def releaseBooking (i : ℕ) : Booking := ⟨2 * i + 2, 2, 1⟩

/-- The journals as they are written, the last settlement being in flight. -/
def churnWritten (count : ℕ) : List Booking :=
  openingBooking :: ((List.range count).flatMap (fun i => [reserveBooking i, releaseBooking i]) ++
    [reserveBooking count])

/-- The same, with all the reservations first. -/
def churnReturned (count : ℕ) : List Booking :=
  openingBooking ::
    ((List.range (count + 1)).map reserveBooking ++ (List.range count).map releaseBooking)

section Churn
variable {bookings : List Booking} {count : ℕ}

theorem churn_perm (count : ℕ) : (churnWritten count).Perm (churnReturned count) := by
  have hsplit := List.flatMap_append_perm (List.range count) (fun i => [reserveBooking i])
    fun i => [releaseBooking i]
  refine .cons _ ((hsplit.symm.append_right _).trans ?_)
  rw [List.range_succ, List.map_append, List.map_singleton, List.append_assoc, List.append_assoc,
    ← List.map_eq_flatMap, ← List.map_eq_flatMap]
  exact List.perm_append_comm.append_left _

theorem churnReturned_accountId (booking : Booking) (hbooking : booking ∈ churnReturned count) :
    booking.debitId ∈ [1, 2, 3] ∧ booking.creditId ∈ [1, 2, 3] := by
  simp only [churnReturned, List.mem_cons, List.mem_append, List.mem_map] at hbooking
  obtain rfl | ⟨i, -, rfl⟩ | ⟨i, -, rfl⟩ := hbooking
  · decide
  · simp [reserveBooking]
  · simp [releaseBooking]

theorem churnWritten_accountId (booking : Booking) (hbooking : booking ∈ churnWritten count) :
    booking.debitId ∈ [1, 2, 3] ∧ booking.creditId ∈ [1, 2, 3] :=
  churnReturned_accountId booking ((churn_perm count).mem_iff.mp hbooking)

theorem maxUnits_fits : Fits 24 maxUnits := by decide

/-- The rows of these journals. -/
def churnRows (bookings : List Booking)
    (h : ∀ booking ∈ bookings, booking.debitId ∈ [1, 2, 3] ∧ booking.creditId ∈ [1, 2, 3]) :
    LedgerRows where
  accounts := churnAccounts
  postings := bookings.flatMap (·.postings)
  primary_key := by decide
  foreign_key := by
    intro posting hposting
    obtain ⟨booking, hbooking, hposting⟩ := List.mem_flatMap.mp hposting
    obtain ⟨hdebit, hcredit⟩ := h booking hbooking
    simp only [Booking.postings, List.mem_cons, List.not_mem_nil, or_false] at hposting
    obtain rfl | rfl := hposting
    · simpa [churnAccounts, eq_comm] using hdebit
    · simpa [churnAccounts, eq_comm] using hcredit
  balances_fit := by decide
  amounts_fit := by
    intro posting hposting
    obtain ⟨booking, hbooking, hposting⟩ := List.mem_flatMap.mp hposting
    simp only [Booking.postings, List.mem_cons, List.not_mem_nil, or_false] at hposting
    obtain rfl | rfl := hposting
    · exact maxUnits_fits
    · exact maxUnits_fits

/-- The two sides of a journal are the same amounts. -/
theorem journalAmounts_bookings (bookings : List Booking) (journalId : UUID) (currency : Currency)
    (side : PostingSide) :
    journalAmounts (bookings.flatMap (·.postings)) journalId currency side =
      (bookings.filter fun booking => (booking.journalId, Currency.usd) = (journalId, currency)).map
        fun _ => maxUnits := by
  induction bookings with
  | nil => rfl
  | cons booking bookings ih =>
    unfold journalAmounts at ih ⊢
    rw [List.flatMap_cons, List.filter_append, List.map_append, ih, List.filter_cons]
    by_cases hkey : (booking.journalId, Currency.usd) = (journalId, currency)
    · obtain ⟨rfl, rfl⟩ := Prod.mk.inj hkey
      cases side <;> simp [Booking.postings]
    · simp only [Prod.mk.injEq] at hkey
      simp [Booking.postings, hkey]

/-- Every journal is balanced, rounded or not. -/
theorem churnRows_balanced
    (h : ∀ booking ∈ bookings, booking.debitId ∈ [1, 2, 3] ∧ booking.creditId ∈ [1, 2, 3])
    (journalId : UUID) (currency : Currency) :
    journalAmounts (churnRows bookings h).postings journalId currency .debit =
      journalAmounts (churnRows bookings h).postings journalId currency .credit :=
  (journalAmounts_bookings bookings journalId currency .debit).trans
    (journalAmounts_bookings bookings journalId currency .credit).symm

/-- What one of these journals adds to an account. -/
def bookedChanges (debitId creditId : UUID) (account : AuditedAccount) : List Units :=
  (if debitId = account.id then [change account.accountClass .debit maxUnits] else []) ++
    if creditId = account.id then [change account.accountClass .credit maxUnits] else []

theorem accountChanges_bookings (bookings : List Booking) (account : AuditedAccount) :
    accountChanges (bookings.flatMap (·.postings)) account =
      bookings.flatMap fun booking => bookedChanges booking.debitId booking.creditId account := by
  have hbooking (booking : Booking) : (accountPostings booking.postings account.id).map
      (fun posting => change account.accountClass posting.side posting.amount) =
        bookedChanges booking.debitId booking.creditId account := by
    unfold accountPostings bookedChanges
    rw [Booking.postings, List.filter_cons, List.filter_singleton]
    by_cases hdebit : booking.debitId = account.id <;>
      by_cases hcredit : booking.creditId = account.id <;> simp [hdebit, hcredit]
  rw [accountChanges, accountPostings, List.filter_flatMap, List.map_flatMap]
  exact congrArg bookings.flatMap (funext hbooking)

theorem written_changes (count : ℕ) (account : AuditedAccount) :
    accountChanges ((churnWritten count).flatMap (·.postings)) account =
      bookedChanges 3 1 account ++ ((List.range count).flatMap (fun _ =>
        bookedChanges 1 2 account ++ bookedChanges 2 1 account) ++ bookedChanges 1 2 account) := by
  rw [accountChanges_bookings, churnWritten, List.flatMap_cons, List.flatMap_append,
    List.flatMap_assoc]
  simp [openingBooking, reserveBooking, releaseBooking]

theorem returned_changes (count : ℕ) (account : AuditedAccount) :
    accountChanges ((churnReturned count).flatMap (·.postings)) account =
      bookedChanges 3 1 account ++
        ((List.range (count + 1)).flatMap (fun _ => bookedChanges 1 2 account) ++
          (List.range count).flatMap fun _ => bookedChanges 2 1 account) := by
  rw [accountChanges_bookings, churnReturned, List.flatMap_cons, List.flatMap_append,
    List.flatMap_map, List.flatMap_map]
  rfl

theorem sum_flatMap_const {α : Type} (l : List α) (units : List Units) :
    (l.flatMap fun _ => units).sum = l.length * units.sum := by
  induction l with
  | nil => simp
  | cons _ l ih =>
    rw [List.flatMap_cons, List.sum_append, ih, List.length_cons]
    push_cast
    ring

theorem countP_flatMap_const {α : Type} (l : List α) (units : List Units) (p : Units → Bool) :
    (l.flatMap fun _ => units).countP p = l.length * units.countP p := by
  induction l with
  | nil => simp
  | cons _ l ih =>
    rw [List.flatMap_cons, List.countP_append, ih, List.length_cons]
    ring

theorem range_flatMap_const (count : ℕ) (unit : Units) :
    ((List.range count).flatMap fun _ => [unit]) = List.replicate count unit := by
  rw [← List.map_eq_flatMap, List.map_const', List.length_range]

/-- Of the opening journal and a reservation, and of a reservation and its release, an
account has no more than one change of either sign. -/
theorem bookedChanges_countP (account : AuditedAccount) (p : Units → Bool)
    (hp : p ∈ [fun unit : Units => decide (0 < unit), fun unit => decide (unit < 0)]) :
    (bookedChanges 3 1 account).countP p + (bookedChanges 1 2 account).countP p ≤ 1 ∧
      (bookedChanges 1 2 account).countP p + (bookedChanges 2 1 account).countP p ≤ 1 := by
  have hids : ∀ accountClass, ∀ id ∈ [1, 2, 3],
      ∀ p ∈ [fun unit : Units => decide (0 < unit), fun unit => decide (unit < 0)],
        (bookedChanges 3 1 ⟨id, accountClass, 0⟩).countP p +
            (bookedChanges 1 2 ⟨id, accountClass, 0⟩).countP p ≤ 1 ∧
          (bookedChanges 1 2 ⟨id, accountClass, 0⟩).countP p +
            (bookedChanges 2 1 ⟨id, accountClass, 0⟩).countP p ≤ 1 := by
    intro accountClass
    cases accountClass
    · decide
    · decide
  by_cases hid : account.id ∈ [1, 2, 3]
  · exact hids account.accountClass account.id hid p hp
  · -- the journals are about other accounts
    simp only [List.mem_cons, List.not_mem_nil, or_false, not_or] at hid
    obtain ⟨hone, htwo, hthree⟩ := hid
    simp [bookedChanges, Ne.symm hone, Ne.symm htwo, Ne.symm hthree]

/-- An account has `count + 1` postings of one sign. -/
theorem churn_countP (count : ℕ) (account : AuditedAccount) (p : Units → Bool)
    (hp : p ∈ [fun unit : Units => decide (0 < unit), fun unit => decide (unit < 0)]) :
    (accountChanges ((churnReturned count).flatMap (·.postings)) account).countP p ≤
      count + 1 := by
  obtain ⟨hfirst, hrest⟩ := bookedChanges_countP account p hp
  have hrest := Nat.mul_le_mul_left count hrest
  rw [returned_changes, List.countP_append, List.countP_append, countP_flatMap_const,
    countP_flatMap_const, List.length_range, List.length_range]
  linarith

theorem churn_journalIds (count : ℕ) : ((churnReturned count).map (·.journalId)).Nodup := by
  rw [churnReturned, List.map_cons, List.map_append, List.map_map, List.map_map, List.nodup_cons,
    List.nodup_append]
  refine ⟨?_, ?_, ?_, ?_⟩
  · simp [openingBooking, reserveBooking, releaseBooking]
  · refine List.nodup_range.map fun i j hij => ?_
    simpa [reserveBooking] using hij
  · refine List.nodup_range.map fun i j hij => ?_
    simpa [releaseBooking] using hij
  · simp only [List.mem_map, Function.comp_apply, reserveBooking, releaseBooking]
    rintro _ ⟨i, -, rfl⟩ _ ⟨j, -, rfl⟩
    show (2 * i + 1 : ℕ) ≠ 2 * j + 2
    omega

/-- The rows of the ledger in the order in which they were written. -/
abbrev churnWrittenRows (count : ℕ) : LedgerRows :=
  churnRows (churnWritten count) churnWritten_accountId

/-- The same rows with all the reservations first. -/
abbrev churnReturnedRows (count : ℕ) : LedgerRows :=
  churnRows (churnReturned count) churnReturned_accountId

theorem churn_reordered (count : ℕ) :
    (churnWrittenRows count).Reordered (churnReturnedRows count) :=
  ⟨.refl _, (churn_perm count).flatMap_right _⟩

/-- **Exactly, the ledger adds up.** -/
theorem churn_addsUp (count : ℕ) : (churnReturnedRows count).AddsUp := by
  constructor
  · show ∀ account ∈ churnAccounts, 0 ≤ account.balance
    decide
  · intro journalId currency
    rw [churnRows_balanced]
  · intro account haccount
    show account.balance = (accountChanges ((churnReturned count).flatMap (·.postings)) account).sum
    have hbalance : ∀ account ∈ churnAccounts,
        (bookedChanges 1 2 account).sum + (bookedChanges 2 1 account).sum = 0 ∧
          account.balance = (bookedChanges 3 1 account).sum + (bookedChanges 1 2 account).sum := by
      decide
    obtain ⟨hcancel, hbalance⟩ := hbalance account haccount
    rw [returned_changes, List.sum_append, List.sum_append, sum_flatMap_const, sum_flatMap_const,
      List.length_range, List.length_range, hbalance, eq_neg_of_add_eq_zero_right hcancel]
    push_cast
    ring

/-- An account has `count + 1` postings of one sign, a journal one on each side. -/
theorem churn_atMost (count : ℕ) : (churnReturnedRows count).AtMost (count + 1) := by
  intro units hunits
  cases hunits with
  | journal journalId currency side =>
    show (journalAmounts ((churnReturned count).flatMap (·.postings)) _ _ _).countP _ ≤ _ ∧
      (journalAmounts ((churnReturned count).flatMap (·.postings)) _ _ _).countP _ ≤ _
    have hlength : (journalAmounts ((churnReturned count).flatMap (·.postings)) journalId currency
        side).length ≤ count + 1 := by
      rw [journalAmounts_bookings, List.length_map, ← List.countP_eq_length_filter]
      calc (churnReturned count).countP (fun booking =>
            (booking.journalId, Currency.usd) = (journalId, currency))
          ≤ (churnReturned count).countP ((· == journalId) ∘ (·.journalId)) := by
            refine List.countP_mono_left fun booking _ hkey => ?_
            exact beq_iff_eq.mpr (Prod.mk.inj (of_decide_eq_true hkey)).1
        _ = ((churnReturned count).map (·.journalId)).count journalId := List.countP_map.symm
        _ ≤ 1 := List.nodup_iff_count_le_one.mp (churn_journalIds count) journalId
        _ ≤ count + 1 := Nat.le_add_left 1 count
    exact ⟨List.countP_le_length.trans hlength, List.countP_le_length.trans hlength⟩
  | @account account haccount =>
    show (accountChanges ((churnReturned count).flatMap (·.postings)) account).countP _ ≤ _ ∧
      (accountChanges ((churnReturned count).flatMap (·.postings)) account).countP _ ≤ _
    exact ⟨churn_countP count account _ (by simp), churn_countP count account _ (by simp)⟩

theorem foldl_flatMap_const {α β γ : Type} {f : β → α → β} {start : β} {block : List α}
    (h : block.foldl f start = start) (l : List γ) :
    (l.flatMap fun _ => block).foldl f start = start := by
  induction l with
  | nil => rfl
  | cons _ l ih => rw [List.flatMap_cons, List.foldl_append, h, ih]

/-- A settlement that fails leaves an account where it was. -/
theorem churn_settles : ∀ account ∈ churnAccounts,
    let opened := (Decimal.Context.prec 28).total ((bookedChanges 3 1 account).map (ofColumn 8))
    ((bookedChanges 1 2 account ++ bookedChanges 2 1 account).map (ofColumn 8)).foldl
        (Decimal.Context.prec 28).add opened = opened ∧
      ((bookedChanges 1 2 account).map (ofColumn 8)).foldl (Decimal.Context.prec 28).add opened =
        ofColumn 8 account.balance := by
  decide +kernel

/-- **Reservation by reservation, the ledger is accepted**: each account is back where it
was after every settlement. -/
theorem churn_accepted (count : ℕ) :
    auditLedger (.prec 28) (churnWrittenRows count) = .ok () := by
  rw [auditLedger_ok]
  refine ⟨?_, ?_, ?_⟩
  · show ∀ account ∈ churnAccounts, 0 ≤ account.balance
    decide
  · intro posting hposting
    rw [churnRows_balanced]
  · intro account haccount
    rw [LedgerRows.entries_eq (by norm_num)]
    show ofColumn 8 account.balance = (Decimal.Context.prec 28).total
      ((accountChanges ((churnWritten count).flatMap (·.postings)) account).map (ofColumn 8))
    obtain ⟨hback, hlast⟩ := churn_settles account haccount
    rw [written_changes, Decimal.Context.total, List.map_append, List.foldl_append,
      List.map_append, List.foldl_append, List.map_flatMap, ← Decimal.Context.total,
      foldl_flatMap_const hback, hlast]

/-- At 10001 times the amount the running sum has 29 digits, and is rounded up. -/
theorem reserved_total : (Decimal.Context.prec 28).total
    ((List.replicate 10001 maxUnits ++ List.replicate 10000 (-maxUnits)).map (ofColumn 8)) =
      ofColumn 8 (maxUnits + 1) := by
  have hmax : 0 ≤ maxUnits := by decide
  have hfits (units : Units) (hlow : 0 ≤ units) (hhigh : units ≤ 10000 * maxUnits + 1) :
      Fits 28 units := by
    rw [Fits, abs_of_nonneg hlow]
    exact hhigh.trans_lt (by decide)
  have htimes (k m : ℕ) (hk : k ≤ m) : 0 ≤ k * maxUnits ∧ k * maxUnits ≤ m * maxUnits :=
    ⟨by positivity, mul_le_mul_of_nonneg_right (by exact_mod_cast hk) hmax⟩
  -- ten thousand times all the funds still have 28 digits
  have hup : (List.replicate 10000 (ofColumn 8 maxUnits)).foldl (Decimal.Context.prec 28).add
      (ofColumn 8 0) = ofColumn 8 (0 + (10000 : ℕ) * maxUnits) := by
    refine Decimal.Context.foldl_add_replicate 10000 fun k hk => ?_
    obtain ⟨hlow, hhigh⟩ := htimes k 10000 hk
    push_cast at hhigh
    exact hfits _ (by linarith) (by linarith)
  -- once more has 29, and is rounded up by a unit
  have hrounded : (Decimal.Context.prec 28).add (ofColumn 8 (0 + (10000 : ℕ) * maxUnits))
      (ofColumn 8 maxUnits) = ofColumn 8 (10001 * maxUnits + 1) := by
    decide +kernel
  -- which the releases do not take away again
  have hback : (Decimal.Context.prec 28).add (ofColumn 8 (10001 * maxUnits + 1))
      (ofColumn 8 (-maxUnits)) = ofColumn 8 (10000 * maxUnits + 1) := by
    have hsum : 10001 * maxUnits + 1 + -maxUnits = 10000 * maxUnits + 1 := by ring
    rw [Decimal.Context.add, ← Decimal.ofColumn_add, hsum]
    exact Decimal.roundDigits_ofColumn (hfits _ (by linarith) le_rfl)
  have hdown : (List.replicate 9999 (ofColumn 8 (-maxUnits))).foldl (Decimal.Context.prec 28).add
      (ofColumn 8 (10000 * maxUnits + 1)) =
        ofColumn 8 (10000 * maxUnits + 1 + (9999 : ℕ) * -maxUnits) := by
    refine Decimal.Context.foldl_add_replicate 9999 fun k hk => ?_
    obtain ⟨hlow, hhigh⟩ := htimes k 9999 hk
    push_cast at hhigh
    exact hfits _ (by linarith) (by linarith)
  have hzero : (0 : ℚ) = ofColumn 8 0 := by simp [ofColumn]
  rw [Decimal.Context.total, List.map_append, List.foldl_append, List.map_replicate,
    List.map_replicate, hzero, List.replicate_succ', List.foldl_append, hup, List.foldl_cons,
    List.foldl_nil, hrounded, List.replicate_succ, List.foldl_cons, hback, hdown]
  congr 1

/-- **With the reservations first it is rejected.** -/
theorem churn_mismatch :
    auditLedger (.prec 28) (churnReturnedRows 10000) =
      .error "materialized account balance mismatch" := by
  have hreserved : (⟨2, .liability, maxUnits⟩ : AuditedAccount) ∈
      (churnReturnedRows 10000).accounts := by
    simp [churnRows, churnAccounts]
  have hchanges : accountChanges (churnReturnedRows 10000).postings ⟨2, .liability, maxUnits⟩ =
      List.replicate 10001 maxUnits ++ List.replicate 10000 (-maxUnits) := by
    have hopening : bookedChanges 3 1 ⟨2, .liability, maxUnits⟩ = [] := rfl
    have hreserve : bookedChanges 1 2 ⟨2, .liability, maxUnits⟩ = [maxUnits] := rfl
    have hrelease : bookedChanges 2 1 ⟨2, .liability, maxUnits⟩ = [-maxUnits] := rfl
    refine (returned_changes 10000 _).trans ?_
    rw [hopening, hreserve, hrelease, range_flatMap_const, range_flatMap_const, List.nil_append]
  unfold auditLedger auditRows
  dsimp only
  rw [if_neg, if_neg, if_pos]
  · intro h
    have hbalance := h _ hreserved
    rw [tally_expectedBalances _ (LedgerRows.accountById_eq hreserved),
      LedgerRows.entries_eq (by norm_num), hchanges, reserved_total] at hbalance
    exact absurd (Decimal.ofColumn_injective hbalance) (by decide)
  · rw [not_not]
    intro posting hposting
    rw [tally_journalTotals, tally_journalTotals, churnRows_balanced]
  · rw [not_not]
    show ∀ account ∈ churnAccounts, 0 ≤ account.balance
    decide

theorem churn_misjudged : ¬ Judged (.prec 28) (churnReturnedRows 10000) := by
  intro h
  have hok := h.mpr (churn_addsUp 10000)
  rw [churn_mismatch] at hok
  cases hok

end Churn

/-! ## Up to ten thousand postings -/

/-- **When the auditor is exact**: of rows with a negative balance, of which it adds nothing
up, or in an order in which it rounds nothing; and, whatever the order, of every ledger with
at most `count` postings of one sign to an account or on one side of a journal, exactly when
`count` is at most ten thousand. -/
theorem audit_judged_iff (rows : LedgerRows) (count : ℕ) :
    ((∃ account ∈ rows.accounts, account.balance < 0) ∨ rows.Unrounded 28 →
        Judged (.prec 28) rows) ∧
      ((∀ rows : LedgerRows, rows.AtMost count → Judged (.prec 28) rows) ↔ count ≤ 10000) := by
  refine ⟨fun hrows => ?_, fun h => ?_, fun hcount rows hrows => ?_⟩
  · obtain hnegative | hunrounded := hrows
    · exact LedgerRows.judged_of_negative hnegative
    · exact hunrounded.judged (by norm_num)
  · by_contra hcount
    have hmore : (churnReturnedRows 10000).AtMost count := (churn_atMost 10000).mono (by omega)
    exact churn_misjudged (h _ hmore)
  · have hunrounded : rows.Unrounded 28 := (hrows.mono hcount).unrounded
    exact hunrounded.judged (by norm_num)

/-- The reordered rows, and an account with a negative balance. -/
def overdrawnRows (count : ℕ) : LedgerRows where
  accounts := ⟨4, .asset, -1⟩ :: churnAccounts
  postings := (churnReturnedRows count).postings
  primary_key := by decide
  foreign_key := by
    intro posting hposting
    obtain ⟨account, haccount, hid⟩ := (churnReturnedRows count).foreign_key posting hposting
    exact ⟨account, List.mem_cons_of_mem _ haccount, hid⟩
  balances_fit := by decide
  amounts_fit := (churnReturnedRows count).amounts_fit

theorem audit_judged_iff_churn :
    Judged (.prec 28) (churnReturnedRows 9999) ∧
      Judged (.prec 28) (overdrawnRows 10000) ∧
      ∀ rows : LedgerRows, rows.AtMost 10000 → Judged (.prec 28) rows := by
  obtain ⟨hunrounded, hcount⟩ := audit_judged_iff (churnReturnedRows 9999) 10000
  obtain ⟨hnegative, -⟩ := audit_judged_iff (overdrawnRows 10000) 0
  exact ⟨hunrounded (.inr (churn_atMost 9999).unrounded),
    hnegative (.inl ⟨⟨4, .asset, -1⟩, List.mem_cons_self, by decide⟩), hcount.mpr le_rfl⟩

/-- The ledger of all the funds reserved 10001 times is rejected in one order of its rows
and accepted in another, though it adds up. -/
theorem churn_rejected :
    (churnWrittenRows 10000).Reordered (churnReturnedRows 10000) ∧
      (churnReturnedRows 10000).AddsUp ∧
      auditLedger (.prec 28) (churnWrittenRows 10000) = .ok () ∧
      auditLedger (.prec 28) (churnReturnedRows 10000) =
        .error "materialized account balance mismatch" ∧
      ¬ Judged (.prec 28) (churnReturnedRows 10000) :=
  ⟨churn_reordered 10000, churn_addsUp 10000, churn_accepted 10000, churn_mismatch,
    churn_misjudged⟩

end SettlementRouter
