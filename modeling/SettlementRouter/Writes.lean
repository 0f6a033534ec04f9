import Mathlib.Logic.Relation
import SettlementRouter.Lifecycle
import SettlementRouter.Transactions

/-! # What the transactions write

Whatever a transaction of the service commits is a sequence of writes, each to
one settlement (`Write`): a new settlement with its reservation, a claim, or the
application of an outcome.  There is one lemma for each transaction that says
which (`claimReserved_ok`, …), and `Transaction.run_writes` for all of them.

To its settlement a write is a `Lifecycle.Move`, and it leaves the life of
every other settlement alone (`Write.move`, `Write.frame`): the database refines
a family of lifecycles.
-/
namespace SettlementRouter

/-- The life of the settlement `id`, as the database has it. -/
def Database.lifecycle (db : Database) (id : UUID) : Lifecycle where
  status := db.status id
  attempt := (db.attempts.lookup id).map fun attempt => (attempt.state, attempt.attemptToken)
  journals := db.journalCount id

/-- The ledger's part in applying an outcome, with the states it leads to. -/
inductive Applied (db : Database) {id : UUID} (row : Settlement id) :
    SettlementStatus → AttemptState → Database → Prop
  | pend : Applied db row .pendingReconciliation .reconciling db
  | consume {db'} :
      Posted db row .consume (row.ownerId, .reserved) ("system", .omnibus) db' →
      Applied db row .success .completed db'
  | release {db'} :
      Posted db row .release (row.ownerId, .reserved) (row.ownerId, .available) db' →
      Applied db row .failed .completed db'

/-- One write of the service, to the settlement `id`. -/
inductive Write (id : UUID) : WriteKind → Database → Database → Prop
  | reserve {db db'} {row : Settlement id} :
      db.settlements.lookup id = none → findByKey db row.ownerId row.idempotencyKey = none →
      row.status = .reserved →
      Posted { db with settlements := db.settlements.insert id row } row .reserve
        (row.ownerId, .available) (row.ownerId, .reserved) db' →
      Write id .reserve db db'
  | submit {db attempt} {row : Settlement id} :
      db.settlements.lookup id = some row → row.status = .reserved →
      db.attempts.lookup id = none → attempt.state = .submitting → attempt.attemptToken = 1 →
      Write id (.claim 1) db { db with
        settlements := db.settlements.insert id (row.withStatus .payoutInProgress)
        attempts := db.attempts.insert id attempt }
  | adopt {db attempt} {row : Settlement id} :
      db.settlements.lookup id = some row → row.status.InFlight →
      db.attempts.lookup id = none → attempt.state = .claimed → attempt.attemptToken = 1 →
      Write id (.claim 1) db { db with attempts := db.attempts.insert id attempt }
  | claim {db attempt lease} {row : Settlement id} :
      db.settlements.lookup id = some row → row.status.InFlight →
      db.attempts.lookup id = some attempt →
      Write id (.claim (attempt.attemptToken + 1)) db
        { db with attempts := db.attempts.insert id (attempt.claim lease) }
  | finalize {db db₁ attempt attempt' status state} {row : Settlement id} :
      db.settlements.lookup id = some row → ¬ row.status.Terminal →
      db.attempts.lookup id = some attempt → attempt'.attemptToken = attempt.attemptToken →
      attempt'.state = state → Applied db row status state db₁ →
      Write id (.finalize attempt.attemptToken status) db { db₁ with
        settlements := db.settlements.insert id (row.withStatus status)
        attempts := db.attempts.insert id attempt' }

/-- A sequence of writes. -/
abbrev Writes : Database → Database → Prop :=
  Relation.ReflTransGen fun db db' => ∃ id kind, Write id kind db db'

/-! ## Writes and lifecycles -/

section Lifecycles
variable {db db' : Database} {id id' : UUID} {kind : WriteKind} {row : Settlement id}
  {event : JournalEvent} {debitKey creditKey : String × AccountPurpose}

theorem Posted.journalCount (h : Posted db row event debitKey creditKey db') :
    db'.journalCount id = Lifecycle.addJournal (db.journalCount id) event := by
  obtain ⟨journal, hjournals, hid, hevent⟩ := h.journals_eq
  funext e
  rw [Database.journalCount, hjournals, List.countP_cons, Lifecycle.addJournal, hid, hevent]
  by_cases he : e = event
  · simp [he, Database.journalCount]
  · simp [he, Ne.symm he, Database.journalCount]

theorem Posted.journalCount_of_ne (h : Posted db row event debitKey creditKey db')
    (hne : id' ≠ id) : db'.journalCount id' = db.journalCount id' := by
  obtain ⟨journal, hjournals, hid, hevent⟩ := h.journals_eq
  funext e
  rw [Database.journalCount, hjournals, List.countP_cons, hid]
  simp [hne.symm, Database.journalCount]

/-- A write leaves the rows of other settlements alone. -/
theorem Write.rows_of_ne (h : Write id kind db db') (hne : id' ≠ id) :
    db'.settlements.lookup id' = db.settlements.lookup id' ∧
      db'.attempts.lookup id' = db.attempts.lookup id' := by
  cases h with
  | reserve _ _ _ hposted =>
    rw [hposted.settlements_eq, hposted.attempts_eq]
    exact ⟨AList.lookup_insert_ne hne, rfl⟩
  | submit => exact ⟨AList.lookup_insert_ne hne, AList.lookup_insert_ne hne⟩
  | adopt => exact ⟨rfl, AList.lookup_insert_ne hne⟩
  | claim => exact ⟨rfl, AList.lookup_insert_ne hne⟩
  | finalize => exact ⟨AList.lookup_insert_ne hne, AList.lookup_insert_ne hne⟩

theorem Write.journalCount_of_ne (h : Write id kind db db') (hne : id' ≠ id) :
    db'.journalCount id' = db.journalCount id' := by
  cases h with
  | reserve _ _ _ hposted => exact hposted.journalCount_of_ne hne
  | submit => rfl
  | adopt => rfl
  | claim => rfl
  | finalize _ _ _ _ _ happlied =>
    cases happlied with
    | pend => rfl
    | consume hposted => exact hposted.journalCount_of_ne hne
    | release hposted => exact hposted.journalCount_of_ne hne

/-- **A write leaves the lives of other settlements alone.** -/
theorem Write.frame (h : Write id kind db db') (hne : id' ≠ id) :
    db'.lifecycle id' = db.lifecycle id' := by
  obtain ⟨hsettlements, hattempts⟩ := h.rows_of_ne hne
  rw [Database.lifecycle, Database.lifecycle, Database.status, Database.status, hsettlements,
    hattempts, h.journalCount_of_ne hne]

/-- **To its own settlement a write is a move of its life.** -/
theorem Write.move (h : Write id kind db db') :
    Lifecycle.Move kind (db.lifecycle id) (db'.lifecycle id) := by
  cases h with
  | @reserve _ _ row hnone _ hstatus hposted =>
    have hl : db.lifecycle id =
        ⟨none, (db.lifecycle id).attempt, db.journalCount id⟩ := by
      simp [Database.lifecycle, Database.status, hnone]
    have hl' : db'.lifecycle id = ⟨some .reserved, (db.lifecycle id).attempt,
        Lifecycle.addJournal (db.journalCount id) .reserve⟩ := by
      simp only [Database.lifecycle, Database.status, hposted.settlements_eq,
        hposted.attempts_eq, hposted.journalCount, AList.lookup_insert, Option.map_some, hstatus]
      rfl
    rw [hl, hl']
    exact .reserve hposted.first
  | @submit _ attempt row hrow hstatus hattempt hstate htoken =>
    simp only [Database.lifecycle, Database.status, hrow, hattempt, AList.lookup_insert,
      Option.map_some, Option.map_none, hstatus, hstate, htoken]
    exact .submit
  | @adopt _ attempt row hrow hstatus hattempt hstate htoken =>
    simp only [Database.lifecycle, Database.status, hrow, hattempt, AList.lookup_insert,
      Option.map_some, Option.map_none, hstate, htoken]
    exact .adopt hstatus
  | @claim _ attempt lease row hrow hstatus hattempt =>
    simp only [Database.lifecycle, Database.status, hrow, hattempt, AList.lookup_insert,
      Option.map_some]
    exact .claim hstatus
  | @finalize _ db₁ attempt attempt' status state row hrow hstatus hattempt htoken hstate
      happlied =>
    have hl : db.lifecycle id = ⟨some row.status, some (attempt.state, attempt.attemptToken),
        db.journalCount id⟩ := by
      simp [Database.lifecycle, Database.status, hrow, hattempt]
    have hl' : ∀ accounts, Database.lifecycle ⟨accounts,
        db.settlements.insert id (row.withStatus status), db₁.journals,
        db.attempts.insert id attempt'⟩ id =
          ⟨some status, some (state, attempt.attemptToken), db₁.journalCount id⟩ := by
      intro accounts
      simp only [Database.lifecycle, Database.status, AList.lookup_insert, Option.map_some,
        htoken, hstate]
      rfl
    rw [hl, hl']
    cases happlied with
    | pend => exact .pend hstatus
    | consume hposted =>
      rw [hposted.journalCount]
      exact .consume hstatus hposted.first
    | release hposted =>
      rw [hposted.journalCount]
      exact .release hstatus hposted.first

/-- What moves keep, writes keep. -/
theorem Writes.lifecycle {P : Lifecycle → Prop}
    (hmove : ∀ kind l l', Lifecycle.Move kind l l' → P l → P l')
    (h : Writes db db') (hdb : P (db.lifecycle id)) : P (db'.lifecycle id) := by
  induction h with
  | refl => exact hdb
  | tail _ hwrite ih =>
    obtain ⟨id', kind, hw⟩ := hwrite
    by_cases hid : id = id'
    · subst hid
      exact hmove _ _ _ hw.move ih
    · rw [hw.frame hid]
      exact ih

end Lifecycles

/-! ## What is never rewritten -/

section Extends
variable {db db' db'' : Database} {id : UUID} {kind : WriteKind}

/-- Every settlement is still there, with only its status changed. -/
def Database.Extends (db db' : Database) : Prop :=
  ∀ id row, db.settlements.lookup id = some row →
    ∃ status, db'.settlements.lookup id = some (row.withStatus status)

theorem Database.Extends.refl (db : Database) : db.Extends db :=
  fun _ row hrow => ⟨row.status, hrow⟩

theorem Database.Extends.trans (h : db.Extends db') (h' : db'.Extends db'') : db.Extends db'' := by
  intro id row hrow
  obtain ⟨status, hrow'⟩ := h id row hrow
  obtain ⟨status', hrow''⟩ := h' id _ hrow'
  exact ⟨status', hrow''⟩

/-- **The quote is frozen**: a write changes nothing of a settlement but its
status. -/
theorem Write.extends (h : Write id kind db db') : db.Extends db' := by
  intro id' row' hrow'
  by_cases hid : id' = id
  · subst hid
    cases h with
    | reserve hnone => exact absurd (hnone.symm.trans hrow') (by simp)
    | submit hrow =>
      obtain rfl := Option.some.inj (hrow.symm.trans hrow')
      exact ⟨.payoutInProgress, AList.lookup_insert _⟩
    | adopt => exact ⟨row'.status, hrow'⟩
    | claim => exact ⟨row'.status, hrow'⟩
    | @finalize _ _ _ _ status _ _ hrow =>
      obtain rfl := Option.some.inj (hrow.symm.trans hrow')
      exact ⟨status, AList.lookup_insert _⟩
  · exact ⟨row'.status, (h.rows_of_ne hid).1.trans hrow'⟩

theorem Writes.extends (h : Writes db db') : db.Extends db' := by
  induction h with
  | refl => exact .refl db
  | tail _ hwrite ih =>
    obtain ⟨id, kind, hw⟩ := hwrite
    exact ih.trans hw.extends

end Extends

/-! ## The transactions -/

section Transactions
variable {settings : Settings} {clock : ℕ → Time} {locked : UUID → Bool}
  {db db' : Database} {id : UUID}

theorem findByKey_eq_some {ownerId idempotencyKey : String} {row : Sigma Settlement}
    (h : findByKey db ownerId idempotencyKey = some row) :
    db.settlements.lookup row.1 = some row.2 ∧ row.2.ownerId = ownerId ∧
      row.2.idempotencyKey = idempotencyKey := by
  have hkey := List.find?_some h
  simp only [decide_eq_true_eq] at hkey
  exact ⟨AList.mem_lookup_iff.mpr (List.mem_of_find?_eq_some h), hkey⟩

theorem findByKey_eq_none {ownerId idempotencyKey : String} :
    findByKey db ownerId idempotencyKey = none ↔ ∀ id row, db.settlements.lookup id = some row →
      ¬ (row.ownerId = ownerId ∧ row.idempotencyKey = idempotencyKey) := by
  simp only [findByKey, List.find?_eq_none, decide_eq_true_eq]
  constructor
  · exact fun h id row hrow => h ⟨id, row⟩ (AList.mem_lookup_iff.mp hrow)
  · exact fun h row hrow => h row.1 row.2 (AList.mem_lookup_iff.mpr hrow)

/-- What the columns hold of the quote. -/
theorem NewSettlement.row_quote {new : NewSettlement} {row : Settlement new.id}
    (h : new.row = .ok row) :
    Decimal.toColumn 24 8 new.quote.aggregateRate = some row.aggregateRate ∧
      Decimal.toColumn 32 8 new.quotedAmount = some row.quotedAmount ∧
      row.route = new.quote.hops := by
  unfold NewSettlement.row at h
  split at h
  · rename_i rate quoted hrate hquoted
    split at h
    · cases h
    split at h
    · split at h
      · cases h
        exact ⟨hrate, hquoted, rfl⟩
      · cases h
    · cases h
  · cases h

/-- What the row of a new settlement keeps of it. -/
theorem NewSettlement.row_ok {new : NewSettlement} {row : Settlement new.id}
    (h : new.row = .ok row) :
    row.ownerId = new.ownerId ∧ row.idempotencyKey = new.idempotencyKey ∧
      row.requestFingerprint = new.requestFingerprint ∧
      row.amountUsd = new.command.amountUsd ∧
      row.targetCurrency = new.command.targetCurrency ∧ row.status = .reserved := by
  unfold NewSettlement.row at h
  split at h
  · split at h
    · cases h
    · split at h
      · split at h
        · cases h
          exact ⟨rfl, rfl, rfl, rfl, rfl, rfl⟩
        · cases h
      · cases h
  · cases h

theorem insertSettlement_ok {row : Settlement id} (h : insertSettlement db row = .ok db') :
    db.settlements.lookup id = none ∧ findByKey db row.ownerId row.idempotencyKey = none ∧
      db' = { db with settlements := db.settlements.insert id row } := by
  unfold insertSettlement at h
  split at h
  · cases h
  · split at h
    · cases h
    · cases h
      simp_all

theorem insertAttempt_ok {attempt : PayoutAttempt} (h : insertAttempt db id attempt = .ok db') :
    db.attempts.lookup id = none ∧
      db' = { db with attempts := db.attempts.insert id attempt } := by
  unfold insertAttempt at h
  split at h
  · cases h
  · split at h
    · cases h
    · cases h
      simp_all

/-- **The inserting transaction of `create`** makes one new settlement. -/
theorem insertReserved_ok {new : NewSettlement} {reply : Unit}
    (h : insertReserved new db = .ok (reply, db')) :
    ∃ row, new.row = .ok row ∧ db'.settlements = db.settlements.insert new.id row ∧
      Write new.id .reserve db db' := by
  unfold insertReserved at h
  cases hrow : new.row with
  | error error => simp [hrow, bind, Except.bind] at h
  | ok row =>
    cases hinsert : insertSettlement db row with
    | error error => simp [hrow, hinsert, bind, Except.bind] at h
    | ok db₁ =>
      cases hreserve : reserve db₁ row with
      | error error => simp [hrow, hinsert, hreserve, bind, Except.bind] at h
      | ok db₂ =>
        simp only [hrow, hinsert, hreserve, bind, Except.bind, pure, Except.pure] at h
        cases h
        obtain ⟨hnone, hkey, rfl⟩ := insertSettlement_ok hinsert
        have hposted := post_ok hreserve
        have hstatus := (NewSettlement.row_ok hrow).2.2.2.2.2
        exact ⟨row, rfl, hposted.settlements_eq, .reserve hnone hkey hstatus hposted⟩

theorem get_ok {read : SettlementRead} (h : get id db = .ok read) :
    ∃ row, db.settlements.lookup id = some row ∧ read = .fromOrmSettlement row := by
  unfold get at h
  split at h
  · cases h
  · cases h
    exact ⟨_, ‹_›, rfl⟩

/-- These claims were issued, one after the other. -/
inductive Claims : List PayoutClaim → Database → Database → Prop
  | nil {db : Database} : Claims [] db db
  | cons {claims id token} {db db₁ db' : Database} {row : Settlement id} :
      Write id (.claim token) db db₁ →
      db₁.settlements.lookup id = some row → Claims claims db₁ db' →
      Claims (⟨.fromOrmSettlement row, token⟩ :: claims) db db'

theorem Claims.writes {claims : List PayoutClaim} (h : Claims claims db db') : Writes db db' := by
  induction h with
  | nil => exact .refl
  | cons hwrite _ _ ih => exact .head ⟨_, _, hwrite⟩ ih

/-- **`_claim_reserved`** moves a reserved settlement to `PAYOUT_IN_PROGRESS`, or
claims nothing. -/
theorem claimReserved_ok {reply : Option PayoutClaim}
    (h : claimReserved settings clock id db = .ok (reply, db')) :
    Claims reply.toList db db' ∧ ∀ claim, reply = some claim →
      claim.settlement.id = id ∧ db.status id = some .reserved ∧
        db'.status id = some .payoutInProgress := by
  unfold claimReserved at h
  split at h
  · cases h
  · rename_i row hrow
    by_cases hstatus : row.status = .reserved
    · rw [if_neg (not_not.mpr hstatus)] at h
      simp only [bind, Except.bind] at h
      split at h
      · cases h
      · rename_i db₁ hinsert
        cases h
        obtain ⟨hnone, rfl⟩ := insertAttempt_ok hinsert
        have hlookup : (db.settlements.insert id (row.withStatus .payoutInProgress)).lookup id =
            some (row.withStatus .payoutInProgress) := AList.lookup_insert _
        refine ⟨.cons (.submit hrow hstatus hnone rfl rfl) hlookup .nil, fun claim hclaim => ?_⟩
        cases hclaim
        refine ⟨rfl, ?_, ?_⟩
        · rw [Database.status, hrow, Option.map_some, hstatus]
        · rw [Database.status, hlookup, Option.map_some, Settlement.withStatus_status]
    · rw [if_pos hstatus] at h
      cases h
      exact ⟨.nil, fun _ heq => by cases heq⟩

/-- **`_claim_for_reconciliation`** claims a settlement in flight, or nothing. -/
theorem claimForReconciliation_ok {respectSchedule : Bool} {reply : Option PayoutClaim}
    (h : claimForReconciliation settings clock id respectSchedule db = .ok (reply, db')) :
    Claims reply.toList db db' ∧ ∀ claim, reply = some claim → claim.settlement.id = id := by
  unfold claimForReconciliation at h
  split at h
  · cases h
  · rename_i row hrow
    by_cases hstatus : row.status.InFlight
    · rw [if_neg (not_not.mpr hstatus)] at h
      dsimp only at h
      cases hattempt : db.attempts.lookup id with
      | none =>
        simp only [hattempt, bind, Except.bind] at h
        split at h
        · cases h
        · rename_i db₁ hinsert
          cases h
          obtain ⟨hnone, rfl⟩ := insertAttempt_ok hinsert
          exact ⟨.cons (.adopt hrow hstatus hnone rfl rfl) hrow .nil, by rintro _ ⟨⟩; rfl⟩
      | some attempt =>
        simp only [hattempt] at h
        split at h
        · cases h
          exact ⟨.nil, fun _ heq => by cases heq⟩
        · split at h
          · cases h
            exact ⟨.nil, fun _ heq => by cases heq⟩
          · cases h
            exact ⟨.cons (.claim hrow hstatus hattempt) hrow .nil, by rintro _ ⟨⟩; rfl⟩
    · rw [if_pos hstatus] at h
      cases h
      exact ⟨.nil, fun _ heq => by cases heq⟩

theorem mem_joinedRows {row : DueRow} :
    row ∈ joinedRows db ↔ db.settlements.lookup row.id = some row.settlement ∧
      db.attempts.lookup row.id = some row.attempt := by
  unfold joinedRows
  rw [List.mem_filterMap]
  constructor
  · rintro ⟨⟨id, settlement⟩, hmem, hrow⟩
    obtain ⟨attempt, hattempt, rfl⟩ := Option.map_eq_some_iff.mp hrow
    exact ⟨AList.mem_lookup_iff.mpr hmem, hattempt⟩
  · rintro ⟨hsettlement, hattempt⟩
    exact ⟨⟨row.id, row.settlement⟩, AList.mem_lookup_iff.mp hsettlement, by rw [hattempt]; rfl⟩

/-- No settlement is joined twice. -/
theorem joinedRows_nodup (db : Database) : ((joinedRows db).map DueRow.id).Nodup := by
  have hsub : ((joinedRows db).map DueRow.id).Sublist (db.settlements.entries.map Sigma.fst) := by
    unfold joinedRows
    induction db.settlements.entries with
    | nil => exact .slnil
    | cons row rows ih =>
      cases hattempt : db.attempts.lookup row.1 with
      | none => simpa [hattempt] using ih.cons row.1
      | some attempt => simpa [hattempt] using ih.cons_cons row.1
  exact hsub.nodup db.settlements.nodupKeys

theorem mem_dueRows {row : DueRow} {now : Time} :
    row ∈ dueRows db now ↔ row ∈ joinedRows db ∧ row.Due now := by
  rw [dueRows, (List.mergeSort_perm _ _).mem_iff, List.mem_filter, decide_eq_true_eq]

theorem dueRows_nodup (db : Database) (now : Time) : ((dueRows db now).map DueRow.id).Nodup := by
  have hperm := (List.mergeSort_perm ((joinedRows db).filter fun row => row.Due now)
    DueRow.before).map DueRow.id
  refine hperm.nodup_iff.mpr (List.Sublist.nodup ?_ (joinedRows_nodup db))
  exact List.filter_sublist.map _

theorem selectDue_sublist (db : Database) (now : Time) (locked : UUID → Bool) (limit : ℕ) :
    (selectDue db now locked limit).Sublist (dueRows db now) :=
  (List.take_sublist _ _).trans List.filter_sublist

/-- The loop claims each of its rows. -/
theorem claimRows_claims {rows : List DueRow} {k : ℕ}
    (hrows : ∀ row ∈ rows, row ∈ joinedRows db ∧ row.settlement.status.InFlight)
    (hnodup : (rows.map DueRow.id).Nodup) :
    Claims (claimRows settings clock rows k db).1 db (claimRows settings clock rows k db).2 := by
  induction rows generalizing k db with
  | nil => exact .nil
  | cons row rows ih =>
    obtain ⟨hrow, hstatus⟩ := hrows row List.mem_cons_self
    obtain ⟨hsettlement, hattempt⟩ := mem_joinedRows.mp hrow
    obtain ⟨hnotin, hnodup⟩ := List.nodup_cons.mp hnodup
    refine .cons (.claim hsettlement hstatus hattempt) hsettlement
      (ih (fun other hother => ?_) hnodup)
    obtain ⟨hjoined, hstatus'⟩ := hrows other (List.mem_cons_of_mem _ hother)
    obtain ⟨hsettlement', hattempt'⟩ := mem_joinedRows.mp hjoined
    have hne : other.id ≠ row.id := fun heq => hnotin (heq ▸ List.mem_map_of_mem hother)
    exact ⟨mem_joinedRows.mpr ⟨hsettlement', (AList.lookup_insert_ne hne).trans hattempt'⟩,
      hstatus'⟩

/-- **`_claim_due_batch`** claims what it selects. -/
theorem claimDueBatch_claims {limit : ℕ} {claims : List PayoutClaim}
    (h : claimDueBatch settings clock locked limit db = (claims, db')) : Claims claims db db' := by
  have hsub := selectDue_sublist db (clock 0) locked limit
  have hrows : ∀ row ∈ selectDue db (clock 0) locked limit,
      row ∈ joinedRows db ∧ row.settlement.status.InFlight := by
    intro row hrow
    obtain ⟨hjoined, hdue⟩ := mem_dueRows.mp (hsub.subset hrow)
    exact ⟨hjoined, hdue.1⟩
  have hnodup := (hsub.map DueRow.id).nodup (dueRows_nodup db (clock 0))
  have hclaims : Claims (claimDueBatch settings clock locked limit db).1 db
      (claimDueBatch settings clock locked limit db).2 := claimRows_claims hrows hnodup
  rwa [h] at hclaims

/-- The status an outcome leads to. -/
def finalStatus : Option ProviderResult → SettlementStatus
  | some .paid => .success
  | some .unpaid => .failed
  | _ => .pendingReconciliation

/-- **`_finalize_attempt`** succeeds under the attempt's token only, and then it
returns a terminal settlement as it is or applies the outcome. -/
theorem finalizeAttempt_ok {token : ℕ} {result : Option ProviderResult} {read : SettlementRead}
    (h : finalizeAttempt clock id token result db = .ok (read, db')) :
    ∃ row attempt row', db.settlements.lookup id = some row ∧
      db.attempts.lookup id = some attempt ∧ attempt.attemptToken = token ∧
      db'.settlements.lookup id = some row' ∧ read = .fromOrmSettlement row' ∧
      (row.status.Terminal ∧ db' = db ∨
        ¬ row.status.Terminal ∧ Write id (.finalize token (finalStatus result)) db db') := by
  unfold finalizeAttempt at h
  split at h
  · cases h
  · rename_i row hrow
    split at h
    · cases h
    · rename_i attempt hattempt
      by_cases htoken : attempt.attemptToken = token
      · subst htoken
        rw [if_neg (not_not.mpr rfl)] at h
        by_cases hterminal : row.status.Terminal
        · rw [if_pos hterminal] at h
          cases h
          exact ⟨row, attempt, row, hrow, hattempt, rfl, hrow, rfl, Or.inl ⟨hterminal, rfl⟩⟩
        · rw [if_neg hterminal] at h
          dsimp only at h
          split at h
          · simp only [bind, Except.bind] at h
            split at h
            · cases h
            · rename_i db₁ hconsume
              cases h
              have hposted := post_ok hconsume
              refine ⟨row, attempt, _, hrow, hattempt, rfl, AList.lookup_insert _, rfl,
                Or.inr ⟨hterminal, ?_⟩⟩
              rw [hposted.settlements_eq, hposted.attempts_eq]
              exact .finalize hrow hterminal hattempt rfl rfl (.consume hposted)
          · simp only [bind, Except.bind] at h
            split at h
            · cases h
            · rename_i db₁ hrelease
              cases h
              have hposted := post_ok hrelease
              refine ⟨row, attempt, _, hrow, hattempt, rfl, AList.lookup_insert _, rfl,
                Or.inr ⟨hterminal, ?_⟩⟩
              rw [hposted.settlements_eq, hposted.attempts_eq]
              exact .finalize hrow hterminal hattempt rfl rfl (.release hposted)
          -- neither paid nor unpaid: the settlement stays pending
          · rename_i hpaid hunpaid
            cases h
            have hfinal : finalStatus result = .pendingReconciliation := by
              unfold finalStatus
              split <;> simp_all
            refine ⟨row, attempt, _, hrow, hattempt, rfl, AList.lookup_insert _, rfl,
              Or.inr ⟨hterminal, ?_⟩⟩
            rw [hfinal]
            exact .finalize hrow hterminal hattempt rfl rfl .pend
      · rw [if_pos htoken] at h
        cases h

theorem run_get_ok {read : SettlementRead}
    (h : (Transaction.get id).run settings clock locked db = .ok (read, db')) :
    db' = db ∧ ∃ row, db.settlements.lookup id = some row ∧ read = .fromOrmSettlement row := by
  simp only [Transaction.run] at h
  cases hget : get id db with
  | error error =>
    rw [hget] at h
    cases h
  | ok read' =>
    rw [hget] at h
    cases h
    exact ⟨rfl, get_ok hget⟩

/-- **Every transaction commits a sequence of writes.** -/
theorem Transaction.run_writes {t : Transaction} {reply : t.Reply}
    (h : t.run settings clock locked db = .ok (reply, db')) : Writes db db' := by
  cases t with
  | findByKey ownerId idempotencyKey =>
    cases h
    exact .refl
  | insertReserved new =>
    obtain ⟨row, -, -, hwrite⟩ := insertReserved_ok h
    exact .single ⟨_, _, hwrite⟩
  | get settlementId =>
    obtain ⟨rfl, -⟩ := run_get_ok h
    exact .refl
  | claimReserved settlementId => exact (claimReserved_ok h).1.writes
  | claimForReconciliation settlementId respectSchedule =>
    exact (claimForReconciliation_ok h).1.writes
  | claimDueBatch limit =>
    exact (claimDueBatch_claims (Except.ok.inj h)).writes
  | finalizeAttempt settlementId attemptToken result =>
    obtain ⟨row, attempt, row', -, -, -, -, -, hcase⟩ := finalizeAttempt_ok h
    rcases hcase with ⟨-, rfl⟩ | ⟨-, hwrite⟩
    · exact .refl
    · exact .single ⟨_, _, hwrite⟩

end Transactions

end SettlementRouter
