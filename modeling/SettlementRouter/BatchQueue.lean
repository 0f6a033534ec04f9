import SettlementRouter.RowLocks
import SettlementRouter.Schedule

/-! # No settlement is passed over for long

`_claim_due_batch` takes the due attempts in the order of their leases, `limit` at a time,
and skips those that are locked.  An attempt that is claimed leaves the queue; one that
comes back is due from when it comes back, and so behind all that were due before.

Hence the attempts ahead of one that is due only get fewer (`ahead_subset`), and each
batch that could have taken it and did not takes `limit` of them (`ahead_passed`).  That
bounds how often it is passed over (`bounded_bypass`).
-/
namespace SettlementRouter

/-- The batch query would see the attempt, once its lease has expired. -/
def DueRow.Queued (row : DueRow) : Prop :=
  row.settlement.status.InFlight ∧
    (row.attempt.state = .submitting ∨ row.attempt.state = .reconciling)

instance (row : DueRow) : Decidable row.Queued := inferInstanceAs (Decidable (_ ∧ _))

namespace Database
variable (db : Database)

/-- The queue, in no order. -/
def queue : List DueRow := (joinedRows db).filter fun row => row.Queued

/-- The settlements in the queue ahead of a place. -/
def ahead (place : Time ×ₗ UUID) : List UUID :=
  (db.queue.filter fun row => row.position < place).map DueRow.id

end Database

section Places
variable {db : Database} {place : Time ×ₗ UUID} {row : DueRow} {id : UUID}

theorem mem_queue : row ∈ db.queue ↔ row ∈ joinedRows db ∧ row.Queued := by
  rw [Database.queue, List.mem_filter, decide_eq_true_eq]

theorem mem_ahead : id ∈ db.ahead place ↔ ∃ row ∈ db.queue, row.position < place ∧ row.id = id := by
  simp only [Database.ahead, List.mem_map, List.mem_filter, decide_eq_true_eq, and_assoc]

theorem ahead_nodup (db : Database) (place : Time ×ₗ UUID) : (db.ahead place).Nodup := by
  refine List.Sublist.nodup ?_ (joinedRows_nodup db)
  exact (List.filter_sublist.trans List.filter_sublist).map _

theorem lease_le_of_lt (h : row.position < place) :
    row.attempt.leaseExpiresAt ≤ (ofLex place).1 := by
  rcases Prod.Lex.lt_iff.mp h with hlt | ⟨heq, -⟩
  · exact hlt.le
  · exact heq.le

end Places

/-! ## The queue moves forward -/

section Steps
variable {settings : Settings} {clock : ℕ → Time} {locked : UUID → Bool} {db db' : Database}
  {t : Transaction} {place : Time ×ₗ UUID} {row : DueRow} {limit : ℕ} {T : Time}

/-- Who is in the queue after a commit was there before, or is due later than the clock
was read. -/
theorem Rescheduled.queued (h : Rescheduled settings clock db db' row.id t)
    (hlease : 0 ≤ settings.leaseSeconds) (hrow : row ∈ db'.queue) :
    (∃ k, clock k ≤ row.attempt.leaseExpiresAt) ∨
      ∃ before ∈ db.queue, before.id = row.id ∧ before.attempt = row.attempt := by
  obtain ⟨hjoined, hinFlight, hstate⟩ := mem_queue.mp hrow
  obtain ⟨hsettlement, hattempt⟩ := mem_joinedRows.mp hjoined
  cases h with
  | kept hsame hstatus =>
    right
    rw [hattempt] at hsame
    have hbefore := hstatus row.settlement.status
      (by rw [Database.status, hsettlement, Option.map_some]) hinFlight
    obtain ⟨settlement, hsettlement', hstatus'⟩ := Option.map_eq_some_iff.mp hbefore
    refine ⟨⟨row.id, settlement, row.attempt⟩, mem_queue.mpr ⟨mem_joinedRows.mpr
      ⟨hsettlement', hsame.symm⟩, ?_, hstate⟩, rfl, rfl⟩
    rwa [hstatus']
  | submitted _ hattempt' hdeadline =>
    obtain rfl := Option.some.inj (hattempt.symm.trans hattempt')
    left
    exact ⟨0, hdeadline ▸ le_add_of_nonneg_right hlease⟩
  | claimed k hattempt' hclaimed =>
    obtain rfl := Option.some.inj (hattempt.symm.trans hattempt')
    rw [hclaimed] at hstate
    rcases hstate with hs | hs <;> cases hs
  | pended _ hattempt' _ hnow =>
    obtain rfl := Option.some.inj (hattempt.symm.trans hattempt')
    exact .inl ⟨0, hnow.ge⟩
  | completed _ hattempt' _ hcompleted =>
    obtain rfl := Option.some.inj (hattempt.symm.trans hattempt')
    rw [hcompleted] at hstate
    rcases hstate with hs | hs <;> cases hs

/-- **Nobody gets ahead of an attempt** that was due when the clock was read. -/
theorem ahead_subset (hall : ∀ id, Rescheduled settings clock db db' id t)
    (hlease : 0 ≤ settings.leaseSeconds) (hclock : ∀ k, T ≤ clock k)
    (hplace : (ofLex place).1 < T) : db'.ahead place ⊆ db.ahead place := by
  intro id hid
  obtain ⟨row, hrow, hposition, rfl⟩ := mem_ahead.mp hid
  rcases (hall row.id).queued hlease hrow with ⟨k, hk⟩ | ⟨before, hbefore, hid, hattempt⟩
  · have hle := (hclock k).trans (hk.trans (lease_le_of_lt hposition))
    exact absurd hplace (not_lt.mpr hle)
  · refine mem_ahead.mpr ⟨before, hbefore, ?_, hid⟩
    rwa [DueRow.position, hattempt, hid]

/-- A batch that passes over an attempt it could have taken takes `limit` of those ahead. -/
theorem selectDue_ahead {x : DueRow} (hx : x ∈ db.queue)
    (hdue : x.attempt.leaseExpiresAt ≤ clock 0) (hunlocked : locked x.id = false)
    (hpassed : x ∉ selectDue db (clock 0) locked limit) :
    (selectDue db (clock 0) locked limit).length = limit ∧
      ∀ row ∈ selectDue db (clock 0) locked limit, row ∈ db.queue ∧ row.position < x.position := by
  obtain ⟨hjoined, hinFlight, hstate⟩ := mem_queue.mp hx
  set unlocked := (dueRows db (clock 0)).filter fun row => ¬ locked row.id with hunlockedRows
  have hmem : x ∈ unlocked :=
    List.mem_filter.mpr ⟨mem_dueRows.mpr ⟨hjoined, hinFlight, hdue, hstate⟩, by simp [hunlocked]⟩
  have hselect : selectDue db (clock 0) locked limit = unlocked.take limit := rfl
  rw [hselect] at hpassed ⊢
  have hdrop : x ∈ unlocked.drop limit := by
    rw [← List.take_append_drop limit unlocked] at hmem
    exact (List.mem_append.mp hmem).resolve_left hpassed
  have hlong : limit < unlocked.length := by
    by_contra hshort
    rw [List.drop_eq_nil_of_le (not_lt.mp hshort)] at hdrop
    cases hdrop
  refine ⟨List.length_take_of_le hlong.le, fun row hrow => ?_⟩
  have hrow' := mem_dueRows.mp (List.mem_of_mem_filter (List.mem_of_mem_take hrow))
  refine ⟨mem_queue.mpr ⟨hrow'.1, hrow'.2.1, hrow'.2.2.2⟩, lt_of_le_of_ne ?_ fun heq => ?_⟩
  · -- the batch is in order, and `x` is in the rest
    have hsorted := (dueRows_pairwise db (clock 0)).sublist
      (List.filter_sublist (p := fun row => ¬ locked row.id))
    rw [← hunlockedRows, ← List.take_append_drop limit unlocked, List.pairwise_append] at hsorted
    exact hsorted.2.2 row hrow x hdrop
  · have hid : row.id = x.id := congrArg (fun place => (ofLex place).2) heq
    obtain rfl := List.inj_on_of_nodup_map (joinedRows_nodup db) hrow'.1 hjoined hid
    exact hpassed hrow

theorem claimRows_ids (rows : List DueRow) (k : ℕ) (db : Database) :
    (claimRows settings clock rows k db).1.map (fun claim => claim.settlement.id) =
      rows.map DueRow.id := by
  induction rows generalizing k db with
  | nil => rfl
  | cons row rows ih => exact congrArg (row.id :: ·) (ih (k + 1) _)

/-- **A batch that passes over an attempt takes `limit` of those ahead out of the queue.** -/
theorem ahead_passed {x : DueRow} {claims : List PayoutClaim} (hx : x ∈ db.queue)
    (hrun : claimDueBatch settings clock locked limit db = (claims, db'))
    (hlease : 0 ≤ settings.leaseSeconds) (hclock : ∀ k, T ≤ clock k)
    (hplace : x.attempt.leaseExpiresAt < T) (hunlocked : locked x.id = false)
    (hpassed : ∀ claim ∈ claims, claim.settlement.id ≠ x.id) :
    limit + (db'.ahead x.position).length ≤ (db.ahead x.position).length := by
  set rows := selectDue db (clock 0) locked limit with hrows
  have hids : claims.map (fun claim => claim.settlement.id) = rows.map DueRow.id := by
    have hclaims : (claimRows settings clock rows 1 db).1 = claims := congrArg Prod.fst hrun
    rw [← hclaims]
    exact claimRows_ids rows 1 db
  have hnotin : x ∉ rows := by
    intro hmem
    have hid : x.id ∈ claims.map (fun claim => claim.settlement.id) :=
      hids ▸ List.mem_map_of_mem hmem
    obtain ⟨claim, hclaim, hid⟩ := List.mem_map.mp hid
    exact hpassed claim hclaim hid
  obtain ⟨hlength, hahead⟩ := selectDue_ahead hx (hplace.le.trans (hclock 0)) hunlocked hnotin
  have hnodup : (rows.map DueRow.id).Nodup :=
    ((selectDue_sublist db (clock 0) locked limit).map DueRow.id).nodup
      (dueRows_nodup db (clock 0))
  -- those it takes are claimed, and in the queue no longer
  have hgone : ∀ id ∈ rows.map DueRow.id, id ∉ db'.ahead x.position := by
    intro id hid hstill
    obtain ⟨row, hrow, -, rfl⟩ := mem_ahead.mp hstill
    obtain ⟨hjoined, -, hstate⟩ := mem_queue.mp hrow
    obtain ⟨-, -, hclaimed⟩ := claimRows_attempts settings clock hnodup 1 db row.id
    obtain ⟨k, attempt, hattempt, hclaimed, -⟩ := hclaimed hid
    have hdb : (claimRows settings clock rows 1 db).2 = db' := congrArg Prod.snd hrun
    rw [hdb] at hattempt
    obtain rfl := Option.some.inj ((mem_joinedRows.mp hjoined).2.symm.trans hattempt)
    rw [hclaimed] at hstate
    rcases hstate with hs | hs <;> cases hs
  have hsubset : rows.map DueRow.id ++ db'.ahead x.position ⊆ db.ahead x.position := by
    refine List.append_subset.mpr ⟨fun id hid => ?_, ?_⟩
    · obtain ⟨row, hrow, rfl⟩ := List.mem_map.mp hid
      obtain ⟨hqueued, hposition⟩ := hahead row hrow
      exact mem_ahead.mpr ⟨row, hqueued, hposition, rfl⟩
    · exact ahead_subset (fun id => claimDueBatch_rescheduled hrun) hlease hclock hplace
  have hboth : (rows.map DueRow.id ++ db'.ahead x.position).Nodup :=
    List.nodup_append'.mpr ⟨hnodup, ahead_nodup db' _, fun id hid hid' => hgone id hid hid'⟩
  calc limit + (db'.ahead x.position).length
    _ = (rows.map DueRow.id ++ db'.ahead x.position).length := by
      rw [List.length_append, List.length_map, hlength]
    _ ≤ (db.ahead x.position).length := (hboth.subperm hsubset).length_le

end Steps

/-! ## How often an attempt is passed over -/

section Runs
variable {settings : Settings} {law : ProviderLaw} {limit : ℕ} {T : Time} {place : Time ×ₗ UUID}
  {s s' : State}

/-- A batch of `limit` that could have claimed the attempt at this place has not. -/
def PassesOver (settings : Settings) (limit : ℕ) (T : Time) (place : Time ×ₗ UUID)
    (s s' : State) : Prop :=
  ∃ row ∈ s.db.queue, row.position = place ∧ ∃ w claims acknowledged clock locked,
    s'.trace = ⟨w, .ran (.claimDueBatch limit) (.ok claims) acknowledged⟩ :: s.trace ∧
    (∀ k, T ≤ clock k) ∧ locked row.id = false ∧
    claimDueBatch settings clock locked limit s.db = (claims, s'.db) ∧
    ∀ claim ∈ claims, claim.settlement.id ≠ row.id

/-- A run in which no clock is read before `T`, and the number of batches that pass over
the attempt at this place. -/
inductive PassedOver (settings : Settings) (law : ProviderLaw) (limit : ℕ) (T : Time)
    (place : Time ×ₗ UUID) (s : State) : ℕ → State → Prop
  | refl : PassedOver settings law limit T place s 0 s
  | other {n s' s''} : PassedOver settings law limit T place s n s' → Step settings law s' s'' →
      Reads settings (T ≤ ·) s' s'' → PassedOver settings law limit T place s n s''
  | again {n s' s''} : PassedOver settings law limit T place s n s' → Step settings law s' s'' →
      PassesOver settings limit T place s' s'' →
      PassedOver settings law limit T place s (n + 1) s''

theorem Step.ahead_length (h : Step settings law s s') (hreads : Reads settings (T ≤ ·) s s')
    (hlease : 0 ≤ settings.leaseSeconds) (hplace : (ofLex place).1 < T) :
    (s'.db.ahead place).length ≤ (s.db.ahead place).length := by
  rcases h.rescheduled hreads with hdb | ⟨_, _, _, _, _, _, hclock, hall⟩
  · rw [hdb]
  · have hsubset := ahead_subset hall hlease hclock hplace
    exact ((ahead_nodup s'.db place).subperm hsubset).length_le

/-- **Bounded bypass.**  Once an attempt is due, and in whatever order the workers run, the
batches of `limit` that could claim it pass over it at most once for every `limit`
settlements that are ahead of it: those that come to be due later do not delay it. -/
theorem bounded_bypass {n : ℕ} (h : PassedOver settings law limit T place s n s')
    (hlease : 0 ≤ settings.leaseSeconds) (hplace : (ofLex place).1 < T) :
    n * limit + (s'.db.ahead place).length ≤ (s.db.ahead place).length := by
  induction h with
  | refl => rw [Nat.zero_mul, Nat.zero_add]
  | other _ hstep hreads ih =>
    exact (Nat.add_le_add_left (hstep.ahead_length hreads hlease hplace) _).trans ih
  | @again n s' s'' _ _ hpasses ih =>
    obtain ⟨row, hrow, rfl, w, claims, acknowledged, clock, locked, -, hclock, hunlocked, hrun,
      hpassed⟩ := hpasses
    have hfewer := ahead_passed hrow hrun hlease hclock hplace hunlocked hpassed
    calc (n + 1) * limit + (s''.db.ahead row.position).length
      _ = n * limit + (limit + (s''.db.ahead row.position).length) := by
        rw [Nat.succ_mul, Nat.add_assoc]
      _ ≤ n * limit + (s'.db.ahead row.position).length := Nat.add_le_add_left hfewer _
      _ ≤ (s.db.ahead row.position).length := ih

end Runs

/-! ## Two settlements, and batches of one -/

/-- A second settlement of Ada's. -/
def sampleSecondRow : Settlement 8 where
  ownerId := "ada"
  idempotencyKey := "key-2"
  requestFingerprint := requestFingerprint sampleSettings.sha256 "ada" sampleCommand
  amountUsd := 10000000000
  targetCurrency := .eur
  route := sampleQuote.hops
  snapshotVersion := 1
  aggregateRate := 90000000
  quotedAmount := 9000000000
  providerOperationId := 8
  status := .pendingReconciliation
  amount_positive := (sampleRow .reserved).amount_positive
  rate_positive := (sampleRow .reserved).rate_positive
  quote_positive := (sampleRow .reserved).quote_positive
  provider_operation_matches_id := rfl

/-- Both settlements are pending, and the second is due later. -/
def sampleTwo : Database where
  accounts := sampleAccounts 30000000000 20000000000 50000000000
  settlements := ((∅ : AList Settlement).insert 8 sampleSecondRow).insert 7
    (sampleRow .pendingReconciliation)
  journals := []
  attempts := ((∅ : AList fun _ : UUID => PayoutAttempt).insert 8
    ⟨8, .reconciling, 1, 5, some .unknown, Nat.one_pos⟩).insert 7
    (sampleAttempt .reconciling 0 0 (some .unknown))

/-- The first settlement is claimed. -/
def sampleTwoClaimed : Database := { sampleTwo with
  attempts := sampleTwo.attempts.insert 7
    (sampleAttempt .claimed 1 10000006 (some .unknown)) }

theorem sample_claimOne :
    claimDueBatch sampleSettings (fun _ => 6) (fun _ => false) 1 sampleTwo =
      ([sampleClaim .pendingReconciliation 2], sampleTwoClaimed) := by
  have hrows : (joinedRows sampleTwo).filter (fun row => row.Due 6) =
      [⟨7, sampleRow .pendingReconciliation, sampleAttempt .reconciling 0 0 (some .unknown)⟩,
        ⟨8, sampleSecondRow, ⟨8, .reconciling, 1, 5, some .unknown, Nat.one_pos⟩⟩] := rfl
  unfold claimDueBatch selectDue dueRows
  rw [hrows, List.mergeSort_of_pairwise (by simp [DueRow.before, sampleAttempt])]
  rfl

theorem bounded_bypass_sample :
    ∃ s s', PassedOver sampleSettings .contract 1 6 (toLex (5, 8)) s 1 s' ∧
      (s.db.ahead (toLex (5, 8))).length = 1 ∧
      1 * 1 + (s'.db.ahead (toLex (5, 8))).length ≤ (s.db.ahead (toLex (5, 8))).length := by
  have hpassed : PassedOver sampleSettings .contract 1 6 (toLex (5, 8))
      ⟨⟨sampleTwo, 6, fun _ => none, [], []⟩, fun _ => .running (.runReconciliationOnce 1)
        ((Call.runReconciliationOnce 1).program sampleSettings) false⟩ 1 _ :=
    .again .refl (.advance (w := 1) rfl (.commits true
      (not_blocked fun _ heq => by cases heq) (congrArg Except.ok sample_claimOne)))
      ⟨⟨8, sampleSecondRow, ⟨8, .reconciling, 1, 5, some .unknown, Nat.one_pos⟩⟩,
        List.mem_cons_of_mem _ List.mem_cons_self, rfl, 1, _, true, fun _ => 6, fun _ => false,
        rfl, fun _ => le_rfl, rfl, sample_claimOne, by decide⟩
  exact ⟨_, _, hpassed, by decide, bounded_bypass hpassed (by decide) (by decide)⟩

end SettlementRouter
