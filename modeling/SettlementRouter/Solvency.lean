import SettlementRouter.LedgerBalance
import SettlementRouter.PayoutDiscipline
import SettlementRouter.ProviderAgreement

/-! # What the provider pays out is covered

The provider keeps its own books, and the service learns of them only through answers
that may be ambiguous, late or missing.  All the same, under the provider's contract
nothing is paid out that was not deposited: every operation of the provider carries the
amounts of a committed settlement (`PayoutOf`), a paid one is of a settlement whose funds
are held or spent, and so what was paid out for an owner lies between what the ledger has
spent for it and what the owner has no longer available (`payouts_covered`).
-/
namespace SettlementRouter

/-- What the provider has paid out for a settlement id. -/
def Shared.paidOut (s : Shared) (id : UUID) : Units :=
  match s.provider id with
  | some ⟨.paid, amountUsd, _, _⟩ => amountUsd
  | _ => 0

/-- What the provider has paid out for an owner's settlements. -/
def Shared.paidOutFor (s : Shared) (ownerId : String) : Units :=
  s.db.settlements.total fun id row => if row.ownerId = ownerId then s.paidOut id else 0

/-- An operation of the provider is the payout of this settlement. -/
structure PayoutOf {id : UUID} (row : Settlement id) (operation : ProviderOperation) : Prop where
  amountUsd : operation.amountUsd = row.amountUsd
  targetCurrency : operation.targetCurrency = row.targetCurrency
  quotedAmount : operation.quotedAmount = row.quotedAmount
  not_failed : operation.outcome = .paid → row.status ≠ .failed
  not_success : operation.outcome = .unpaid → row.status ≠ .success

section Coverage
variable {settings : Settings} {owners : List String} {opening : String → Units} {s : State}
  {id : UUID} {row : Settlement id} {operation : ProviderOperation} {o : String}

/-- **Every operation of the provider is the payout of a committed settlement.** -/
theorem payoutOf_of_recorded (h : (system settings .contract Database.Unused).Reachable s)
    (hoperation : s.provider id = some operation) :
    ∃ row, s.db.settlements.lookup id = some row ∧ PayoutOf row operation := by
  obtain ⟨w, hcalled⟩ := called_of_recorded h id operation hoperation
  obtain ⟨row, hrow, hamount, hcurrency, hquoted⟩ := committed_of_called h hcalled
  have hrecorded : s.recorded id = some operation.outcome := by
    rw [Shared.recorded, hoperation, Option.map_some]
  have hstatus : s.db.status id = some row.status := by
    rw [Database.status, hrow, Option.map_some]
  obtain ⟨hsuccess, hfailed⟩ := ended_agrees h id
  refine ⟨row, hrow, hamount.symm, hcurrency.symm, hquoted.symm, fun hpaid hended => ?_,
    fun hunpaid hended => ?_⟩
  · rw [hended] at hstatus
    have hcontra := hrecorded.symm.trans (hfailed hstatus)
    rw [hpaid] at hcontra
    cases hcontra
  · rw [hended] at hstatus
    have hcontra := hrecorded.symm.trans (hsuccess hstatus)
    rw [hunpaid] at hcontra
    cases hcontra

theorem PayoutOf.paidOut_eq (h : PayoutOf row operation)
    (hoperation : s.provider id = some operation) :
    s.paidOut id = if operation.outcome = .paid then row.amountUsd else 0 := by
  obtain ⟨outcome, amountUsd, targetCurrency, quotedAmount⟩ := operation
  rw [Shared.paidOut, hoperation, ← h.amountUsd]
  cases outcome <;> rfl

/-- What was paid out for a settlement was spent, or is held for it. -/
theorem paidOut_le (h : (system settings .contract Database.Unused).Reachable s)
    (hrow : s.db.settlements.lookup id = some row) :
    s.paidOut id ≤ if row.status = .failed then 0 else row.amountUsd := by
  have hnonneg : 0 ≤ if row.status = .failed then 0 else row.amountUsd := by
    split
    · exact le_rfl
    · exact row.amount_positive.le
  cases hoperation : s.provider id with
  | none =>
    rw [Shared.paidOut, hoperation]
    exact hnonneg
  | some operation =>
    obtain ⟨row', hrow', hpayout⟩ := payoutOf_of_recorded h hoperation
    obtain rfl := Option.some.inj (hrow.symm.trans hrow')
    rw [hpayout.paidOut_eq hoperation]
    by_cases hpaid : operation.outcome = .paid
    · rw [if_pos hpaid, if_neg (hpayout.not_failed hpaid)]
    · rw [if_neg hpaid]
      exact hnonneg

/-- What the ledger has spent was paid out. -/
theorem le_paidOut (h : (system settings .contract Database.Unused).Reachable s)
    (hrow : s.db.settlements.lookup id = some row) (hstatus : row.status = .success) :
    row.amountUsd = s.paidOut id := by
  have hrecorded : s.recorded id = some .paid := by
    refine (ended_agrees h id).1 ?_
    rw [Database.status, hrow, Option.map_some, hstatus]
  obtain ⟨operation, hoperation, houtcome⟩ := Option.map_eq_some_iff.mp hrecorded
  obtain ⟨row', hrow', hpayout⟩ := payoutOf_of_recorded h hoperation
  obtain rfl := Option.some.inj (hrow.symm.trans hrow')
  rw [hpayout.paidOut_eq hoperation, if_pos houtcome]

theorem paidOut_nonneg (h : (system settings .contract Database.Unused).Reachable s) (id : UUID) :
    0 ≤ s.paidOut id := by
  cases hoperation : s.provider id with
  | none => rw [Shared.paidOut, hoperation]
  | some operation =>
    obtain ⟨row, -, hpayout⟩ := payoutOf_of_recorded h hoperation
    rw [hpayout.paidOut_eq hoperation]
    split
    · exact row.amount_positive.le
    · exact le_rfl

/-- What was spent for an owner was paid out for it. -/
theorem spent_le_paidOutFor (h : (system settings .contract Database.Unused).Reachable s)
    (o : String) : s.db.spent o ≤ s.paidOutFor o := by
  refine AList.total_le_total fun id row hrow => ?_
  unfold share
  by_cases howner : row.ownerId = o
  · by_cases hstatus : row.status = .success
    · rw [if_pos ⟨howner, hstatus⟩, if_pos howner, le_paidOut h hrow hstatus]
    · rw [if_neg fun hboth => hstatus hboth.2, if_pos howner]
      exact paidOut_nonneg h id
  · rw [if_neg fun hboth => howner hboth.1, if_neg howner]

/-- What was paid out for an owner was spent, or is held. -/
theorem paidOutFor_le (h : (system settings .contract Database.Unused).Reachable s) (o : String) :
    s.paidOutFor o ≤ s.db.spent o + s.db.held o := by
  rw [Database.spent, Database.held, ← AList.total_add]
  refine AList.total_le_total fun id row hrow => ?_
  have hle := paidOut_le h hrow
  by_cases howner : row.ownerId = o
  · rw [if_pos howner]
    refine hle.trans ?_
    simp only [share, howner, true_and, SettlementStatus.holds_iff]
    cases row.status <;> simp [SettlementStatus.Terminal]
  · simp [share, howner]

/-- The payouts of any settlements are among the owners'. -/
theorem sum_paidOut_le (h : (system settings .contract Database.Unused).Reachable s)
    (hbalanced : Balanced owners opening s.db) (ids : Finset UUID) :
    ∑ id ∈ ids, s.paidOut id ≤ (owners.map s.paidOutFor).sum := by
  have hgroups : (owners.map s.paidOutFor).sum = s.db.settlements.total fun id _ => s.paidOut id :=
    AList.sum_total_groups (fun _ (row : Settlement _) => row.ownerId) (fun id _ => s.paidOut id)
      hbalanced.nodup hbalanced.owned
  rw [hgroups]
  refine AList.sum_le_total (fun id _ _ => paidOut_nonneg h id) (fun id => ?_) ids
  unfold AList.weight
  cases hrow : s.db.settlements.lookup id with
  | some row => exact le_rfl
  | none =>
    -- without a settlement there is no operation
    cases hoperation : s.provider id with
    | none => rw [Shared.paidOut, hoperation, Option.elim_none]
    | some operation =>
      obtain ⟨row, hrow', -⟩ := payoutOf_of_recorded h hoperation
      rw [hrow] at hrow'
      cases hrow'

theorem Balanced.not_available (h : Balanced owners opening s.db) (ho : o ∈ owners) :
    opening o - s.db.usdBalance o .available = s.db.spent o + s.db.held o := by
  rw [(h.available o ho).usdBalance_eq]
  ring

/-- **Payouts are covered.**  In every state of every run from a seeded database, each
operation of the provider is the payout of a committed settlement, with its amounts; what
was paid out for an owner is at least what the ledger has spent for it and at most what
the owner has no longer available, and just that once nothing is held for it; and all
payouts together are at most what all owners have no longer available. -/
theorem payouts_covered (h : (system settings .contract (Opening owners opening)).Reachable s) :
    (∀ id operation, s.provider id = some operation →
      ∃ row, s.db.settlements.lookup id = some row ∧ PayoutOf row operation) ∧
    (∀ o ∈ owners, s.db.spent o ≤ s.paidOutFor o ∧
      s.paidOutFor o ≤ opening o - s.db.usdBalance o .available ∧
      (s.db.held o = 0 → s.paidOutFor o = opening o - s.db.usdBalance o .available)) ∧
    ∀ ids : Finset UUID, ∑ id ∈ ids, s.paidOut id ≤
      (owners.map fun o => opening o - s.db.usdBalance o .available).sum := by
  have hunused := reachable_of_start (fun _ hdb => hdb.unused) h
  have hbalanced := balanced_of_reachable h
  have hle : ∀ o ∈ owners, s.paidOutFor o ≤ opening o - s.db.usdBalance o .available := by
    intro o ho
    rw [hbalanced.not_available ho]
    exact paidOutFor_le hunused o
  refine ⟨fun id operation => payoutOf_of_recorded hunused, fun o ho => ⟨?_, hle o ho, ?_⟩,
    fun ids => ?_⟩
  · exact spent_le_paidOutFor hunused o
  · intro hheld
    refine le_antisymm (hle o ho) ?_
    rw [hbalanced.not_available ho, hheld, add_zero]
    exact spent_le_paidOutFor hunused o
  · exact (sum_paidOut_le hunused hbalanced ids).trans (List.sum_le_sum hle)

theorem payouts_covered_paid :
    ∃ s, (system sampleSettings .contract (Opening ["ada"] fun _ => 50000000000)).Reachable s ∧
      s.db.held "ada" = 0 ∧ s.paidOutFor "ada" = 50000000000 - s.db.usdBalance "ada" .available ∧
      s.db.usdBalance "ada" .available = 40000000000 := by
  obtain ⟨s, h, hdb, -, -⟩ := sample_run sampleStart_opening
  have hheld : s.db.held "ada" = 0 := by
    rw [hdb]
    rfl
  obtain ⟨-, -, hequal⟩ := (payouts_covered h).2.1 "ada" List.mem_cons_self
  refine ⟨s, h, hheld, hequal hheld, ?_⟩
  rw [hdb]
  rfl

end Coverage

end SettlementRouter
