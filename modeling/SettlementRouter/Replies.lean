import SettlementRouter.SystemRuns

/-! # Replies stay true

What a committed transaction has answered is about rows that are never deleted
and of which only the status is ever rewritten.  So what a reply says of a
settlement, its status aside, holds in every later state (`Transaction.Reports`),
however long the worker that has it was suspended.
-/
namespace SettlementRouter

/-- The view is of a row of the database, up to its status. -/
def SettlementRead.ViewOf (read : SettlementRead) (db : Database) : Prop :=
  ∃ (row : Settlement read.id) (status : SettlementStatus),
    db.settlements.lookup read.id = some row ∧ read = .fromOrmSettlement (row.withStatus status)

/-- What the reply of a transaction says of the database it has committed. -/
def Transaction.Reports (db : Database) : (t : Transaction) → t.Reply → Prop
  | .findByKey ownerId idempotencyKey, reply => ∀ existing, reply = some existing →
      (∃ status, db.settlements.lookup existing.1 = some (existing.2.withStatus status)) ∧
        existing.2.ownerId = ownerId ∧ existing.2.idempotencyKey = idempotencyKey
  | .insertReserved new, _ => ∃ row status, new.row = .ok row ∧
      db.settlements.lookup new.id = some (row.withStatus status)
  | .get settlementId, read => read.id = settlementId ∧ read.ViewOf db
  | .claimReserved settlementId, reply => ∀ claim, reply = some claim →
      claim.settlement.id = settlementId ∧ claim.settlement.ViewOf db
  | .claimForReconciliation settlementId _, reply => ∀ claim, reply = some claim →
      claim.settlement.id = settlementId ∧ claim.settlement.ViewOf db
  | .claimDueBatch _, claims => ∀ claim ∈ claims, claim.settlement.ViewOf db
  | .finalizeAttempt settlementId _ _, read => read.id = settlementId ∧ read.ViewOf db

section Reports
variable {settings : Settings} {clock : ℕ → Time} {locked : UUID → Bool} {db db' : Database}
  {t : Transaction} {reply : t.Reply}

theorem viewOf_of_lookup {id : UUID} {row : Settlement id}
    (h : db.settlements.lookup id = some row) :
    (SettlementRead.fromOrmSettlement row).ViewOf db :=
  ⟨row, row.status, h, rfl⟩

theorem SettlementRead.ViewOf.extends {read : SettlementRead} (h : read.ViewOf db)
    (hdb : db.Extends db') : read.ViewOf db' := by
  obtain ⟨row, status, hrow, hread⟩ := h
  obtain ⟨status', hrow'⟩ := hdb read.id row hrow
  exact ⟨row.withStatus status', status, hrow', hread⟩

/-- **What was reported stays true.** -/
theorem Transaction.Reports.extends (h : t.Reports db reply) (hdb : db.Extends db') :
    t.Reports db' reply := by
  cases t with
  | findByKey ownerId idempotencyKey =>
    intro existing hreply
    obtain ⟨⟨status, hrow⟩, hkey⟩ := h existing hreply
    obtain ⟨status', hrow'⟩ := hdb _ _ hrow
    exact ⟨⟨status', hrow'⟩, hkey⟩
  | insertReserved new =>
    obtain ⟨row, status, hnew, hrow⟩ := h
    obtain ⟨status', hrow'⟩ := hdb _ _ hrow
    exact ⟨row, status', hnew, hrow'⟩
  | get settlementId => exact ⟨h.1, h.2.extends hdb⟩
  | claimReserved settlementId =>
    exact fun claim hreply => ⟨(h claim hreply).1, (h claim hreply).2.extends hdb⟩
  | claimForReconciliation settlementId respectSchedule =>
    exact fun claim hreply => ⟨(h claim hreply).1, (h claim hreply).2.extends hdb⟩
  | claimDueBatch limit => exact fun claim hmem => (h claim hmem).extends hdb
  | finalizeAttempt settlementId attemptToken result => exact ⟨h.1, h.2.extends hdb⟩

/-- Claims show the rows they were issued for. -/
theorem Claims.viewOf {claims : List PayoutClaim} (h : Claims claims db db') :
    ∀ claim ∈ claims, claim.settlement.ViewOf db' := by
  induction h with
  | nil => exact fun _ hmem => absurd hmem List.not_mem_nil
  | cons _ hrow hclaims ih =>
    intro claim hmem
    rcases List.mem_cons.mp hmem with rfl | hmem
    · exact (viewOf_of_lookup hrow).extends hclaims.writes.extends
    · exact ih claim hmem

/-- **A transaction reports what it has committed.** -/
theorem Transaction.run_reports (h : t.run settings clock locked db = .ok (reply, db')) :
    t.Reports db' reply := by
  cases t with
  | findByKey ownerId idempotencyKey =>
    cases h
    intro existing hreply
    obtain ⟨hrow, hkey⟩ := findByKey_eq_some hreply
    exact ⟨⟨existing.2.status, hrow⟩, hkey⟩
  | insertReserved new =>
    obtain ⟨row, hnew, hdb, -⟩ := insertReserved_ok h
    exact ⟨row, row.status, hnew, hdb ▸ AList.lookup_insert _⟩
  | get settlementId =>
    obtain ⟨rfl, row, hrow, rfl⟩ := run_get_ok h
    exact ⟨rfl, viewOf_of_lookup hrow⟩
  | claimReserved settlementId =>
    obtain ⟨hclaims, hid⟩ := claimReserved_ok h
    exact fun claim hreply => ⟨(hid claim hreply).1,
      hclaims.viewOf claim (Option.mem_toList.mpr hreply)⟩
  | claimForReconciliation settlementId respectSchedule =>
    obtain ⟨hclaims, hid⟩ := claimForReconciliation_ok h
    exact fun claim hreply =>
      ⟨hid claim hreply, hclaims.viewOf claim (Option.mem_toList.mpr hreply)⟩
  | claimDueBatch limit => exact (claimDueBatch_claims (Except.ok.inj h)).viewOf
  | finalizeAttempt settlementId attemptToken result =>
    obtain ⟨_, _, row', -, -, -, hrow', rfl, -⟩ := finalizeAttempt_ok h
    exact ⟨rfl, viewOf_of_lookup hrow'⟩

end Reports

section Runs
variable {settings : Settings} {law : ProviderLaw} {start : Database → Prop} {s : State}
  {w : ℕ} {t : Transaction} {reply : t.Reply} {acknowledged : Bool}

/-- **Every committed reply is true of the database now.** -/
theorem reports_of_reachable (h : (system settings law start).Reachable s)
    (hran : ⟨w, .ran t (.ok reply) acknowledged⟩ ∈ s.trace) : t.Reports s.db reply := by
  refine event_of_reachable (Q := fun e s => ∀ t reply acknowledged,
    e.action = .ran t (.ok reply) acknowledged → t.Reports s.db reply)
    (fun s s' e _ _ _ hhappens => ?_) (fun s s' e _ hstep hs => ?_) h _ hran t reply acknowledged
    rfl
  · intro t reply acknowledged haction
    generalize s'.db = db at hhappens ⊢
    cases hhappens with
    | commits _ _ _ hrun =>
      cases haction
      exact Transaction.run_reports hrun
    | _ => cases haction
  · exact fun t reply acknowledged haction =>
      (hs t reply acknowledged haction).extends hstep.writes.extends

/-- Unless the database failed, a transaction ended as the worker has seen. -/
theorem ended_of_seen {action : Action} {outcome : Except ServiceError t.Reply}
    (h : (system settings law start).Reachable s) (hmem : ⟨w, action⟩ ∈ s.trace)
    (hseen : action.seen = some ⟨.transaction t, outcome⟩) :
    outcome = .error .databaseError ∨ action = .ran t outcome true := by
  cases action with
  | ran t' outcome' acknowledged =>
    cases acknowledged with
    | true =>
      cases hseen
      exact Or.inr rfl
    | false =>
      cases hseen
      exact Or.inl rfl
  | answered op outcome' =>
    cases hseen
    exact Or.inl (answered_of_reachable h hmem)
  | started call => cases hseen
  | called op => cases hseen

theorem ended_of_history {earlier : List Event} {outcome : Except ServiceError t.Reply}
    (h : (system settings law start).Reachable s) (hsuffix : earlier <:+ s.trace)
    (hseen : ⟨.transaction t, outcome⟩ ∈ history w earlier) :
    outcome = .error .databaseError ∨ ⟨w, .ran t outcome true⟩ ∈ earlier := by
  obtain ⟨action, hmem, haction⟩ := mem_history hseen
  rcases ended_of_seen h (hsuffix.subset hmem) haction with hfailed | rfl
  · exact Or.inl hfailed
  · exact Or.inr hmem

/-- A reply a worker has seen was committed. -/
theorem ran_of_history (h : (system settings law start).Reachable s)
    (hseen : ⟨.transaction t, .ok reply⟩ ∈ history w s.trace) :
    ⟨w, .ran t (.ok reply) true⟩ ∈ s.trace :=
  (ended_of_history h (List.suffix_refl _) hseen).resolve_left nofun

theorem reports_of_history (h : (system settings law start).Reachable s)
    (hseen : ⟨.transaction t, .ok reply⟩ ∈ history w s.trace) : t.Reports s.db reply :=
  reports_of_reachable h (ran_of_history h hseen)

end Runs

end SettlementRouter
