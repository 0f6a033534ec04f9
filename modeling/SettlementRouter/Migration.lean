import SettlementRouter.DueBatch
import SettlementRouter.LedgerBalance

/-! # The upgrade of a service in use

`alembic/versions/0002_durable_payout_and_ledger_guards.py`, as far as it writes rows.  Before
it there were no attempts, and nothing said of a journal that it is posted.  It gives every
settlement in flight an attempt that is due at once, and posts the journals there are.

The settlements that had ended have no attempt, which the service never writes; so what it
keeps of them is a little less (`Lifecycle.Carried`), and enough: whatever runs on the
upgraded database, journals and status agree, no settlement in flight is without an
attempt, and none that had ended is touched again (`upgrade_carries_over`).
-/
namespace SettlementRouter

/-- A journal of revision `0001_initial`. -/
structure OldJournal where
  settlementId : Option UUID
  event : JournalEvent
  postings : List Posting
  event_settlement : event = .opening ↔ settlementId = none

/-- A database of revision `0001_initial`. -/
structure OldDatabase where
  accounts : AList fun _ : AccountKey => Account
  settlements : AList Settlement
  journals : List OldJournal

/-- `UPDATE journal_transactions SET is_posted = true`. -/
def OldJournal.upgrade (journal : OldJournal) : JournalTransaction where
  settlementId := journal.settlementId
  event := journal.event
  isPosted := true
  postings := journal.postings
  event_settlement := journal.event_settlement

/-- The row that the `INSERT` selects for a settlement, if any. -/
def Settlement.backfill (now : Time) {id : UUID} (row : Settlement id) : Option PayoutAttempt :=
  if row.status.InFlight then some {
    operationId := row.providerOperationId
    state := if row.status = .payoutInProgress then .submitting else .reconciling
    attemptToken := 1
    leaseExpiresAt := now
    lastOutcome := none
    token_positive := Nat.one_pos }
  else none

/-- `ON CONFLICT (settlement_id) DO NOTHING`, but `operation_id` is unique as well. -/
def insertBackfilled (attempts : AList fun _ : UUID => PayoutAttempt) :
    List (Sigma fun _ : UUID => PayoutAttempt) →
      Except ServiceError (AList fun _ : UUID => PayoutAttempt)
  | [] => .ok attempts
  | row :: rows =>
    if (attempts.lookup row.1).isSome then insertBackfilled attempts rows
    else if attempts.entries.any fun other => other.2.operationId = row.2.operationId then
      .error (.integrityError .payoutAttemptsOperationId)
    else insertBackfilled (attempts.insert row.1 row.2) rows

namespace OldDatabase
variable (old : OldDatabase)

/-- The rows that the backfill inserts. -/
def backfilled (now : Time) : List (Sigma fun _ : UUID => PayoutAttempt) :=
  old.settlements.entries.filterMap fun row =>
    (row.2.backfill now).map fun attempt => ⟨row.1, attempt⟩

/-- `upgrade`, where `now()` is the time of the transaction. -/
def upgrade (now : Time) : Except ServiceError Database := do
  let attempts ← insertBackfilled ∅ (old.backfilled now)
  return {
    accounts := old.accounts
    settlements := old.settlements
    journals := old.journals.map OldJournal.upgrade
    attempts }

/-- What the old tables say of a settlement. -/
def lifecycle (id : UUID) : Lifecycle where
  status := (old.settlements.lookup id).map (·.status)
  attempt := none
  journals event :=
    old.journals.countP fun journal => journal.settlementId = some id ∧ journal.event = event

end OldDatabase

/-! ## The backfill -/

section Backfill
variable {old : OldDatabase} {now : Time} {id : UUID} {attempt : PayoutAttempt} {db : Database}
  {attempts : AList fun _ : UUID => PayoutAttempt}
  {rows : List (Sigma fun _ : UUID => PayoutAttempt)}

theorem mem_backfilled : (⟨id, attempt⟩ : Sigma fun _ : UUID => PayoutAttempt) ∈
      old.backfilled now ↔
    ∃ row, old.settlements.lookup id = some row ∧ row.backfill now = some attempt := by
  simp only [OldDatabase.backfilled, List.mem_filterMap, Option.map_eq_some_iff]
  constructor
  · rintro ⟨⟨id', row⟩, hmem, attempt', hbackfill, ⟨⟩⟩
    exact ⟨row, AList.mem_lookup_iff.mpr hmem, hbackfill⟩
  · rintro ⟨row, hrow, hbackfill⟩
    exact ⟨⟨id, row⟩, AList.mem_lookup_iff.mp hrow, attempt, hbackfill, rfl⟩

/-- An attempt is made under the id of its settlement. -/
theorem backfill_operationId {row : Settlement id} (h : row.backfill now = some attempt) :
    attempt.operationId = id := by
  unfold Settlement.backfill at h
  split at h
  · cases h
    exact row.provider_operation_matches_id
  · cases h

theorem backfilled_nodup (old : OldDatabase) (now : Time) :
    ((old.backfilled now).map Sigma.fst).Nodup := by
  have hsub : ((old.backfilled now).map Sigma.fst).Sublist
      (old.settlements.entries.map Sigma.fst) := by
    unfold OldDatabase.backfilled
    induction old.settlements.entries with
    | nil => exact .slnil
    | cons row rows ih =>
      cases hbackfill : row.2.backfill now with
      | none => simpa [hbackfill] using ih.cons row.1
      | some attempt => simpa [hbackfill] using ih.cons_cons row.1
  exact hsub.nodup old.settlements.nodupKeys

/-- **The backfill violates no constraint**, and writes all its rows. -/
theorem insertBackfilled_ok (hrows : (rows.map Sigma.fst).Nodup)
    (hown : ∀ row ∈ rows, row.2.operationId = row.1)
    (hattempts : ∀ id attempt, attempts.lookup id = some attempt → attempt.operationId = id)
    (hnew : ∀ row ∈ rows, attempts.lookup row.1 = none) :
    ∃ attempts', insertBackfilled attempts rows = .ok attempts' ∧ ∀ id attempt,
      attempts'.lookup id = some attempt ↔ attempts.lookup id = some attempt ∨
        (⟨id, attempt⟩ : Sigma fun _ : UUID => PayoutAttempt) ∈ rows := by
  induction rows generalizing attempts with
  | nil => exact ⟨attempts, rfl, fun _ _ => by simp⟩
  | cons row rows ih =>
    obtain ⟨hnotin, hrows⟩ := List.nodup_cons.mp hrows
    obtain ⟨hrow, hown⟩ := List.forall_mem_cons.mp hown
    obtain ⟨hnone, hnew⟩ := List.forall_mem_cons.mp hnew
    have hunique : ¬ attempts.entries.any fun other => other.2.operationId = row.2.operationId := by
      rw [List.any_eq_true]
      rintro ⟨⟨otherId, other⟩, hmem, hsame⟩
      have hother := AList.mem_lookup_iff.mpr hmem
      have hid : otherId = row.1 := by
        rw [← hattempts otherId other hother, of_decide_eq_true hsame, hrow]
      rw [hid, hnone] at hother
      cases hother
    have hne : ∀ other ∈ rows, other.1 ≠ row.1 := fun other hother heq =>
      hnotin (heq ▸ List.mem_map_of_mem hother)
    have hlookup : ∀ id attempt, (attempts.insert row.1 row.2).lookup id = some attempt ↔
        attempts.lookup id = some attempt ∨
          (⟨id, attempt⟩ : Sigma fun _ : UUID => PayoutAttempt) = row := by
      intro id attempt
      by_cases hid : id = row.1
      · subst hid
        rw [AList.lookup_insert, hnone]
        simp [Sigma.ext_iff, eq_comm]
      · rw [AList.lookup_insert_ne hid]
        simp [Sigma.ext_iff, hid]
    have hattempts' : ∀ id attempt, (attempts.insert row.1 row.2).lookup id = some attempt →
        attempt.operationId = id := by
      intro id attempt hattempt
      rcases (hlookup id attempt).mp hattempt with hold | rfl
      · exact hattempts id attempt hold
      · exact hrow
    have hnew' : ∀ other ∈ rows, (attempts.insert row.1 row.2).lookup other.1 = none := by
      intro other hother
      rw [AList.lookup_insert_ne (hne other hother)]
      exact hnew other hother
    obtain ⟨attempts', hinsert, hlookup'⟩ := ih hrows hown hattempts' hnew'
    refine ⟨attempts', ?_, fun id attempt => ?_⟩
    · rw [insertBackfilled, hnone, if_neg (by simp), if_neg hunique, hinsert]
    · rw [hlookup', hlookup, List.mem_cons, or_assoc]

/-- **The upgrade succeeds**, and what it leaves. -/
theorem upgrade_ok (old : OldDatabase) (now : Time) :
    ∃ db, old.upgrade now = .ok db ∧ db.accounts = old.accounts ∧
      db.settlements = old.settlements ∧ db.journals = old.journals.map OldJournal.upgrade ∧
      ∀ id attempt, db.attempts.lookup id = some attempt ↔
        ∃ row, old.settlements.lookup id = some row ∧ row.backfill now = some attempt := by
  have hown : ∀ row ∈ old.backfilled now, row.2.operationId = row.1 := by
    rintro ⟨id, attempt⟩ hmem
    obtain ⟨row, -, hbackfill⟩ := mem_backfilled.mp hmem
    exact backfill_operationId hbackfill
  obtain ⟨attempts, hinsert, hlookup⟩ := @insertBackfilled_ok ∅ _ (backfilled_nodup old now) hown
    (fun _ _ hattempt => by cases hattempt) fun _ _ => rfl
  refine ⟨⟨old.accounts, old.settlements, old.journals.map OldJournal.upgrade, attempts⟩, ?_, rfl,
    rfl, rfl, fun id attempt => ?_⟩
  · rw [OldDatabase.upgrade, hinsert]
    rfl
  · rw [hlookup, mem_backfilled]
    exact or_iff_right fun hattempt => by cases hattempt

end Backfill

/-! ## What is kept of a settlement -/

namespace Lifecycle

/-- The journals are those of the status. -/
def Accounted (l : Lifecycle) : Prop :=
  match l.status with
  | none => l.HasJournals 0 0 0
  | some .success => l.HasJournals 1 1 0
  | some .failed => l.HasJournals 1 0 1
  | some _ => l.HasJournals 1 0 0

/-- As much as is sound of a settlement that may be older than the attempts. -/
structure Carried (l : Lifecycle) : Prop where
  accounted : l.Accounted
  unclaimed : l.Unclaimed
  inFlight : ∀ status, l.status = some status → status.InFlight →
    ∃ state token, l.attempt = some (state, token) ∧ state ≠ .completed
  ended : ∀ status, l.status = some status → status.Terminal →
    l.attempt = none ∨ ∃ token, l.attempt = some (.completed, token)

variable {kind : WriteKind} {l l' : Lifecycle}

theorem Move.accounted (h : Move kind l l') (hl : l.Accounted) : l'.Accounted := by
  cases h with
  | reserve hfirst => simp_all [Accounted, HasJournals, addJournal]
  | submit => simp_all [Accounted, HasJournals]
  | adopt => exact hl
  | claim => exact hl
  | @pend status _ _ _ hs =>
    cases status <;> simp_all [Accounted, HasJournals, SettlementStatus.Terminal]
  | @consume status _ _ _ hs =>
    cases status <;> simp_all [Accounted, HasJournals, SettlementStatus.Terminal, addJournal]
  | @release status _ _ _ hs =>
    cases status <;> simp_all [Accounted, HasJournals, SettlementStatus.Terminal, addJournal]

theorem Move.carried (h : Move kind l l') (hl : l.Carried) : l'.Carried := by
  have haccounted := h.accounted hl.accounted
  have hunclaimed := h.unclaimed hl.unclaimed
  cases h with
  | reserve =>
    refine ⟨haccounted, hunclaimed, ?_, ?_⟩
    · rintro _ ⟨⟩ (hs | hs) <;> cases hs
    · rintro _ ⟨⟩ (hs | hs) <;> cases hs
  | submit =>
    refine ⟨haccounted, hunclaimed, fun _ _ _ => ⟨_, _, rfl, by decide⟩, ?_⟩
    rintro _ ⟨⟩ (hs | hs) <;> cases hs
  | adopt hs =>
    refine ⟨haccounted, hunclaimed, fun _ _ _ => ⟨_, _, rfl, by decide⟩, ?_⟩
    rintro _ ⟨⟩ hended
    rcases hs with rfl | rfl <;> rcases hended with hs | hs <;> cases hs
  | claim hs =>
    refine ⟨haccounted, hunclaimed, fun _ _ _ => ⟨_, _, rfl, by decide⟩, ?_⟩
    rintro _ ⟨⟩ hended
    rcases hs with rfl | rfl <;> rcases hended with hs | hs <;> cases hs
  | pend =>
    refine ⟨haccounted, hunclaimed, fun _ _ _ => ⟨_, _, rfl, by decide⟩, ?_⟩
    rintro _ ⟨⟩ (hs | hs) <;> cases hs
  | consume =>
    refine ⟨haccounted, hunclaimed, ?_, fun _ _ _ => .inr ⟨_, rfl⟩⟩
    rintro _ ⟨⟩ (hs | hs) <;> cases hs
  | release =>
    refine ⟨haccounted, hunclaimed, ?_, fun _ _ _ => .inr ⟨_, rfl⟩⟩
    rintro _ ⟨⟩ (hs | hs) <;> cases hs

end Lifecycle

section Upgraded
variable {old : OldDatabase} {now : Time} {db db' : Database} {id : UUID}

/-- The upgrade leaves the statuses and the journals as they are. -/
theorem lifecycle_upgrade (h : old.upgrade now = .ok db) (id : UUID) :
    (db.lifecycle id).status = (old.lifecycle id).status ∧
      (db.lifecycle id).journals = (old.lifecycle id).journals := by
  obtain ⟨db₁, hupgrade, -, hsettlements, hjournals, -⟩ := upgrade_ok old now
  obtain rfl := Except.ok.inj (h.symm.trans hupgrade)
  constructor
  · rw [Database.lifecycle, Database.status, hsettlements]
    rfl
  · funext event
    show db.journalCount id event = _
    rw [Database.journalCount, hjournals, List.countP_map]
    rfl

/-- **The upgrade makes a database the service can carry on with.** -/
theorem carried_upgrade (h : old.upgrade now = .ok db) (hold : ∀ id, (old.lifecycle id).Accounted)
    (id : UUID) : (db.lifecycle id).Carried := by
  obtain ⟨hstatus, hjournals⟩ := lifecycle_upgrade h id
  obtain ⟨db₁, hupgrade, -, hsettlements, -, hattempts⟩ := upgrade_ok old now
  obtain rfl := Except.ok.inj (h.symm.trans hupgrade)
  -- the status of the row, under both names
  have hrow : ∀ row, old.settlements.lookup id = some row →
      (db.lifecycle id).status = some row.status := fun row hlookup => by
    rw [hstatus, OldDatabase.lifecycle, hlookup, Option.map_some]
  have hnone : (∀ status, (db.lifecycle id).status = some status → ¬ status.InFlight) →
      (db.lifecycle id).attempt = none := by
    intro hnotInFlight
    rw [Database.lifecycle, Option.map_eq_none_iff, Option.eq_none_iff_forall_ne_some]
    intro attempt hattempt
    obtain ⟨row, hlookup, hbackfill⟩ := (hattempts id attempt).mp hattempt
    rw [Settlement.backfill, if_neg (hnotInFlight _ (hrow row hlookup))] at hbackfill
    cases hbackfill
  refine ⟨?_, fun hearly => hnone fun status hs hinFlight => ?_, fun status hs hinFlight => ?_,
    fun status hs hended => .inl (hnone fun status' hs' hinFlight => ?_)⟩
  · have hold := hold id
    unfold Lifecycle.Accounted Lifecycle.HasJournals at hold ⊢
    rwa [hstatus, hjournals]
  · rcases hearly with hearly | hearly
    · rw [hearly] at hs
      cases hs
    · rw [hearly] at hs
      cases hs
      rcases hinFlight with hs | hs <;> cases hs
  · rw [hstatus] at hs
    obtain ⟨row, hlookup, rfl⟩ := Option.map_eq_some_iff.mp hs
    have hattempt := (hattempts id _).mpr ⟨row, hlookup, if_pos hinFlight⟩
    refine ⟨_, _, by rw [Database.lifecycle, hattempt]; rfl, ?_⟩
    split <;> exact fun heq => by cases heq
  · obtain rfl := Option.some.inj (hs.symm.trans hs')
    rcases hinFlight with rfl | rfl <;> rcases hended with hs | hs <;> cases hs

/-- Every settlement in flight is due when the upgrade is over, and there is no claim. -/
theorem overdue_upgrade (h : old.upgrade now = .ok db) {row : Settlement id}
    (hrow : old.settlements.lookup id = some row) (hinFlight : row.status.InFlight) {now' : Time}
    (hnow : now ≤ now') : db.Overdue now' id := by
  obtain ⟨db₁, hupgrade, -, hsettlements, -, hattempts⟩ := upgrade_ok old now
  obtain rfl := Except.ok.inj (h.symm.trans hupgrade)
  have hattempt := (hattempts id _).mpr ⟨row, hrow, if_pos hinFlight⟩
  exact ⟨row, _, hsettlements ▸ hrow, hinFlight, hattempt, hnow⟩

theorem picksUp_upgrade (h : old.upgrade now = .ok db) (now' : Time) : PicksUp db now' := by
  obtain ⟨db₁, hupgrade, -, -, -, hattempts⟩ := upgrade_ok old now
  obtain rfl := Except.ok.inj (h.symm.trans hupgrade)
  have hstate : ∀ id attempt, db.attempts.lookup id = some attempt →
      attempt.state = .submitting ∨ attempt.state = .reconciling := by
    intro id attempt hattempt
    obtain ⟨row, -, hbackfill⟩ := (hattempts id attempt).mp hattempt
    unfold Settlement.backfill at hbackfill
    split at hbackfill
    · cases hbackfill
      dsimp only
      split
      · exact .inl rfl
      · exact .inr rfl
    · cases hbackfill
  refine (picksUp_iff_of_open fun id _ attempt _ _ hattempt hcompleted => ?_).mpr ?_
  · rcases hstate id attempt hattempt with hs | hs <;> cases hs.symm.trans hcompleted
  · rintro id lease ⟨-, attempt, -, -, hattempt, hclaimed, -⟩
    rcases hstate id attempt hattempt with hs | hs <;> cases hs.symm.trans hclaimed

/-- A settlement that has ended stays as it is. -/
theorem Write.ended {id' : UUID} {kind : WriteKind} {row : Settlement id}
    (hw : Write id' kind db db') (hrow : db.settlements.lookup id = some row)
    (hended : row.status.Terminal) : db'.settlements.lookup id = some row := by
  by_cases hid : id = id'
  · subst hid
    cases hw with
    | reserve hnone =>
      rw [hrow] at hnone
      cases hnone
    | submit hrow' hstatus =>
      obtain rfl := Option.some.inj (hrow.symm.trans hrow')
      rw [hstatus] at hended
      rcases hended with hs | hs <;> cases hs
    | adopt => exact hrow
    | claim => exact hrow
    | finalize hrow' hstatus =>
      obtain rfl := Option.some.inj (hrow.symm.trans hrow')
      exact absurd hended hstatus
  · exact (hw.rows_of_ne hid).1.trans hrow

theorem Writes.ended {row : Settlement id} (hw : Writes db db')
    (hrow : db.settlements.lookup id = some row) (hended : row.status.Terminal) :
    db'.settlements.lookup id = some row := by
  induction hw with
  | refl => exact hrow
  | tail _ hwrite ih =>
    obtain ⟨id', kind, hw⟩ := hwrite
    exact hw.ended ih hended

end Upgraded

section Runs
variable {old : OldDatabase}

/-- **The upgrade carries a service in use over.**  Where the journals of each settlement
are those of its status, the upgrade succeeds, and the next batches that are large enough
pick up all that was in flight.  Whatever runs from there on, journals and status agree and
none in flight is without an attempt; the settlements are those there were, with only the
status changed, and not even that once they had ended; and a balanced ledger stays so. -/
theorem upgrade_carries_over (now : Time) (hold : ∀ id, (old.lifecycle id).Accounted) :
    ∃ db, old.upgrade now = .ok db ∧
      (∀ now', now ≤ now' → PicksUp db now' ∧ ∀ id row, old.settlements.lookup id = some row →
        row.status.InFlight → db.Overdue now' id) ∧
      ∀ settings law s, (system settings law (· = db)).Reachable s →
        (∀ id, (s.db.lifecycle id).Carried) ∧
        (∀ id row, old.settlements.lookup id = some row →
          (∃ status, s.db.settlements.lookup id = some (row.withStatus status)) ∧
          (row.status.Terminal → s.db.settlements.lookup id = some row)) ∧
        ∀ owners opening, Balanced owners opening db → Balanced owners opening s.db := by
  obtain ⟨db, hupgrade, -, hsettlements, -⟩ := upgrade_ok old now
  refine ⟨db, hupgrade, fun now' hnow => ⟨picksUp_upgrade hupgrade now', fun id row hrow hs =>
    overdue_upgrade hupgrade hrow hs hnow⟩, fun _ _ s h => ?_⟩
  obtain ⟨s₀, ⟨rfl, -⟩, hlater⟩ := h.exists_init
  have hwrites := writes_of_later hlater
  refine ⟨fun id => ?_, fun id row hrow => ?_, fun owners opening hbalanced => ?_⟩
  · exact Writes.lifecycle (fun _ _ _ hmove hl => hmove.carried hl) hwrites
      (carried_upgrade hupgrade hold id)
  · rw [← hsettlements] at hrow
    exact ⟨Writes.extends hwrites id row hrow, Writes.ended hwrites hrow⟩
  · exact Writes.balanced hwrites hbalanced

/-- A settlement is pending, from before there were attempts. -/
def sampleOld : OldDatabase where
  accounts := samplePending.accounts
  settlements := samplePending.settlements
  journals := samplePending.journals.map fun journal =>
    ⟨journal.settlementId, journal.event, journal.postings, journal.event_settlement⟩

theorem sampleOld_accounted (id : UUID) : (sampleOld.lifecycle id).Accounted := by
  by_cases hid : id = 7
  · subst hid
    exact ⟨rfl, rfl, rfl⟩
  · have hrow : sampleOld.settlements.lookup id = none := by
      rw [AList.lookup_eq_none, AList.mem_keys]
      simpa [sampleOld, samplePending, sampleSubmitting, sampleReserved] using hid
    have hcount : (sampleOld.lifecycle id).journals = fun _ => 0 := by
      funext event
      refine List.countP_eq_zero.mpr fun journal hjournal => ?_
      obtain rfl := List.mem_singleton.mp hjournal
      simp [Ne.symm hid, postedJournal]
    unfold Lifecycle.Accounted Lifecycle.HasJournals
    rw [hcount, OldDatabase.lifecycle, hrow]
    exact ⟨rfl, rfl, rfl⟩

theorem upgrade_carries_over_pending :
    ∃ db, sampleOld.upgrade 5 = .ok db ∧ PicksUp db 5 ∧ db.Overdue 5 7 := by
  obtain ⟨db, hupgrade, hpicksUp, -⟩ := upgrade_carries_over 5 sampleOld_accounted
  obtain ⟨hpicks, hoverdue⟩ := hpicksUp 5 le_rfl
  exact ⟨db, hupgrade, hpicks, hoverdue 7 (sampleRow .pendingReconciliation) rfl (.inr rfl)⟩

end Runs

end SettlementRouter
