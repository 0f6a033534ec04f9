import SettlementRouter.CallConduct
import SettlementRouter.JournalEvents
import SettlementRouter.Replies

/-! # The state machine of a settlement

Four transactions write the status of a settlement, two of them for workers that
read it some transactions ago.  Each writes along one arrow (`Move.arrow`): what
keeps a late writer from going back is that an outcome is applied only where
there is an attempt, so never to a reserved settlement, and only while the
settlement is not terminal.

Everything else of a settlement is frozen when it is inserted, so all views of it
agree but for the status, and a view that was committed later shows a status
further along (`status_moves_forward`).
-/
namespace SettlementRouter

/-- The arrows of the state machine. -/
inductive SettlementStatus.Arrow : SettlementStatus → SettlementStatus → Prop
  | submit : Arrow reserved payoutInProgress
  | succeed : Arrow payoutInProgress success
  | fail : Arrow payoutInProgress failed
  | pend : Arrow payoutInProgress pendingReconciliation
  | reconcilePaid : Arrow pendingReconciliation success
  | reconcileUnpaid : Arrow pendingReconciliation failed

/-- Along arrows from the first to the second, or the same. -/
def SettlementStatus.Forward : SettlementStatus → SettlementStatus → Prop :=
  Relation.ReflTransGen Arrow

theorem SettlementStatus.Arrow.not_terminal {status status' : SettlementStatus}
    (h : Arrow status status') : ¬ status.Terminal := by
  cases h <;> decide

/-- A transaction commits nothing, claims, or one write. -/
inductive Commits (before after : Database) : Prop
  | nothing : after = before → Commits before after
  | claims {claims} : Claims claims before after → Commits before after
  | write {id kind} : Write id kind before after → Commits before after

/-! ## Writes follow the arrows -/

section Writes
variable {db db' : Database} {id id' : UUID} {kind : WriteKind} {token : ℕ}
  {status : SettlementStatus} {settings : Settings} {clock : ℕ → Time} {locked : UUID → Bool}
  {t : Transaction} {reply : t.Reply} {read read' : SettlementRead}

/-- **A move follows an arrow**, or keeps the status.  A reserved settlement has no
attempt, so no outcome is applied to it. -/
theorem Lifecycle.Move.arrow {l l' : Lifecycle} (h : Move kind l l') (hl : l.Sound)
    (hstatus : l.status = some status) :
    ∃ status', l'.status = some status' ∧ (status' = status ∨ status.Arrow status') := by
  have hinFlight : ∀ {a : SettlementStatus} {state token journals},
      (Lifecycle.mk (some a) (some (state, token)) journals).Sound → ¬ a.Terminal → a.InFlight := by
    intro a state token journals hsound hopen
    cases a with
    | reserved => cases hsound.1
    | payoutInProgress => exact Or.inl rfl
    | pendingReconciliation => exact Or.inr rfl
    | success => exact absurd (Or.inl rfl) hopen
    | failed => exact absurd (Or.inr rfl) hopen
  cases h with
  | reserve => cases hstatus
  | submit =>
    cases hstatus
    exact ⟨_, rfl, Or.inr .submit⟩
  | adopt => exact ⟨_, hstatus, Or.inl rfl⟩
  | claim => exact ⟨_, hstatus, Or.inl rfl⟩
  | pend hopen =>
    cases hstatus
    rcases hinFlight hl hopen with rfl | rfl
    · exact ⟨_, rfl, Or.inr .pend⟩
    · exact ⟨_, rfl, Or.inl rfl⟩
  | consume hopen =>
    cases hstatus
    rcases hinFlight hl hopen with rfl | rfl
    · exact ⟨_, rfl, Or.inr .succeed⟩
    · exact ⟨_, rfl, Or.inr .reconcilePaid⟩
  | release hopen =>
    cases hstatus
    rcases hinFlight hl hopen with rfl | rfl
    · exact ⟨_, rfl, Or.inr .fail⟩
    · exact ⟨_, rfl, Or.inr .reconcileUnpaid⟩

theorem Write.arrow (h : Write id' kind db db') (hsound : (db.lifecycle id).Sound)
    (hstatus : db.status id = some status) :
    ∃ status', db'.status id = some status' ∧ (status' = status ∨ status.Arrow status') := by
  by_cases hid : id = id'
  · subst hid
    exact h.move.arrow hsound hstatus
  · have hframe : db'.status id = db.status id := congrArg Lifecycle.status (h.frame hid)
    exact ⟨status, hframe.trans hstatus, Or.inl rfl⟩

/-- A claim leaves its settlement in flight. -/
theorem Write.claim_inFlight (h : Write id (.claim token) db db') :
    ∃ status, db'.status id = some status ∧ status.InFlight := by
  have hmove := h.move
  generalize hl : db.lifecycle id = l at hmove
  generalize hl' : db'.lifecycle id = l' at hmove
  have hstatus : db'.status id = l'.status := congrArg Lifecycle.status hl'
  rw [hstatus]
  cases hmove with
  | submit => exact ⟨_, rfl, Or.inl rfl⟩
  | adopt hinFlight => exact ⟨_, rfl, hinFlight⟩
  | claim hinFlight => exact ⟨_, rfl, hinFlight⟩

/-- A claim changes no status but that of a settlement it submits. -/
theorem Write.claim_status (h : Write id' (.claim token) db db') (id : UUID) :
    db'.status id = db.status id ∨
      db.status id = some .reserved ∧ db'.status id = some .payoutInProgress := by
  by_cases hid : id = id'
  · subst hid
    have hmove := h.move
    generalize hl : db.lifecycle id = l at hmove
    generalize hl' : db'.lifecycle id = l' at hmove
    have hstatus : db.status id = l.status := congrArg Lifecycle.status hl
    have hstatus' : db'.status id = l'.status := congrArg Lifecycle.status hl'
    rw [hstatus, hstatus']
    cases hmove with
    | submit => exact Or.inr ⟨rfl, rfl⟩
    | adopt => exact Or.inl rfl
    | claim => exact Or.inl rfl
  · exact Or.inl (congrArg Lifecycle.status (h.frame hid))

theorem Claims.status_eq {claims : List PayoutClaim} (h : Claims claims db db') (id : UUID) :
    db'.status id = db.status id ∨
      db.status id = some .reserved ∧ db'.status id = some .payoutInProgress := by
  induction h with
  | nil => exact Or.inl rfl
  | cons hwrite _ _ ih =>
    rcases hwrite.claim_status id with hsame | ⟨hreserved, hsubmitted⟩
    · rwa [← hsame]
    · rcases ih with hkept | ⟨hagain, -⟩
      · exact Or.inr ⟨hreserved, hkept.trans hsubmitted⟩
      · cases hsubmitted.symm.trans hagain

/-- The status a claim shows is the one its transaction commits. -/
theorem Claims.shows {claims : List PayoutClaim} (h : Claims claims db db') :
    ∀ claim ∈ claims, db'.status claim.settlement.id = some claim.settlement.status := by
  induction h with
  | nil => exact fun _ hmem => absurd hmem List.not_mem_nil
  | @cons _ id _ _ db₁ _ row hwrite hrow hclaims ih =>
    intro claim hmem
    rcases List.mem_cons.mp hmem with rfl | hmem
    · obtain ⟨status, hstatus, hinFlight⟩ := hwrite.claim_inFlight
      obtain rfl := Option.some.inj (hstatus.symm.trans (status_of_lookup hrow))
      rcases hclaims.status_eq id with hkept | ⟨hreserved, -⟩
      · exact hkept.trans hstatus
      · rw [Option.some.inj (hstatus.symm.trans hreserved)] at hinFlight
        rcases hinFlight with h | h <;> cases h
    · exact ih claim hmem

theorem Transaction.run_commits (h : t.run settings clock locked db = .ok (reply, db')) :
    Commits db db' := by
  cases t with
  | findByKey ownerId idempotencyKey =>
    cases h
    exact .nothing rfl
  | insertReserved new =>
    obtain ⟨row, -, -, hwrite⟩ := insertReserved_ok h
    exact .write hwrite
  | get settlementId => exact .nothing (run_get_ok h).1
  | claimReserved settlementId => exact .claims (claimReserved_ok h).1
  | claimForReconciliation settlementId respectSchedule =>
    exact .claims (claimForReconciliation_ok h).1
  | claimDueBatch limit => exact .claims (claimDueBatch_claims (Except.ok.inj h))
  | finalizeAttempt settlementId attemptToken result =>
    obtain ⟨row, attempt, row', -, -, -, -, -, hcase⟩ := finalizeAttempt_ok h
    rcases hcase with ⟨-, rfl⟩ | ⟨-, hwrite⟩
    · exact .nothing rfl
    · exact .write hwrite

/-- **One transaction, at most one arrow.** -/
theorem Commits.arrow (h : Commits db db') (hsound : (db.lifecycle id).Sound)
    (hstatus : db.status id = some status) :
    ∃ status', db'.status id = some status' ∧ (status' = status ∨ status.Arrow status') := by
  cases h with
  | nothing hdb =>
    rw [hdb]
    exact ⟨status, hstatus, Or.inl rfl⟩
  | claims hclaims =>
    rcases hclaims.status_eq id with hsame | ⟨hreserved, hsubmitted⟩
    · exact ⟨status, hsame.trans hstatus, Or.inl rfl⟩
    · obtain rfl := Option.some.inj (hstatus.symm.trans hreserved)
      exact ⟨_, hsubmitted, Or.inr .submit⟩
  | write hwrite => exact hwrite.arrow hsound hstatus

/-- A settlement that is new is reserved. -/
theorem Lifecycle.Move.born {l l' : Lifecycle} (h : Move kind l l') (hnone : l.status = none)
    (hstatus : l'.status = some status) : status = .reserved := by
  cases h with
  | reserve =>
    cases hstatus
    rfl
  | _ => cases hnone

theorem Commits.born (h : Commits db db') (hnone : db.status id = none)
    (hstatus : db'.status id = some status) : status = .reserved := by
  cases h with
  | nothing hdb =>
    rw [hdb, hnone] at hstatus
    cases hstatus
  | claims hclaims =>
    rcases hclaims.status_eq id with hsame | ⟨hreserved, -⟩
    · rw [hsame, hnone] at hstatus
      cases hstatus
    · cases hnone.symm.trans hreserved
  | @write id' _ hwrite =>
    by_cases hid : id = id'
    · subst hid
      exact hwrite.move.born hnone hstatus
    · have hframe : db'.status id = db.status id := congrArg Lifecycle.status (hwrite.frame hid)
      rw [hframe, hnone] at hstatus
      cases hstatus

/-! ## Views -/

/-- The reply shows this view of a settlement. -/
def Transaction.Shows : (t : Transaction) → t.Reply → SettlementRead → Prop
  | .findByKey _ _, reply, read =>
      ∃ existing, reply = some existing ∧ read = .fromOrmSettlement existing.2
  | .insertReserved _, _, _ => False
  | .get _, reply, read => read = reply
  | .claimReserved _, reply, read => ∃ claim, reply = some claim ∧ read = claim.settlement
  | .claimForReconciliation _ _, reply, read =>
    ∃ claim, reply = some claim ∧ read = claim.settlement
  | .claimDueBatch _, claims, read => ∃ claim ∈ claims, read = claim.settlement
  | .finalizeAttempt _ _ _, reply, read => read = reply

/-- What a true reply shows is a view of the database, up to the status. -/
theorem Transaction.Shows.viewOf (h : t.Shows reply read) (hreports : t.Reports db reply) :
    read.ViewOf db := by
  cases t with
  | findByKey ownerId idempotencyKey =>
    obtain ⟨existing, hreply, rfl⟩ := h
    obtain ⟨⟨status, hrow⟩, -⟩ := hreports existing hreply
    exact ⟨_, existing.2.status, hrow, rfl⟩
  | insertReserved new => exact absurd h not_false
  | get settlementId =>
    obtain rfl := h
    exact hreports.2
  | claimReserved settlementId =>
    obtain ⟨claim, hreply, rfl⟩ := h
    exact (hreports claim hreply).2
  | claimForReconciliation settlementId respectSchedule =>
    obtain ⟨claim, hreply, rfl⟩ := h
    exact (hreports claim hreply).2
  | claimDueBatch limit =>
    obtain ⟨claim, hmem, rfl⟩ := h
    exact hreports claim hmem
  | finalizeAttempt settlementId attemptToken result =>
    obtain rfl := h
    exact hreports.2

/-- The status shown is the one committed. -/
theorem Transaction.Shows.status_eq (h : t.Shows reply read)
    (hrun : t.run settings clock locked db = .ok (reply, db')) :
    db'.status read.id = some read.status := by
  cases t with
  | findByKey ownerId idempotencyKey =>
    cases hrun
    obtain ⟨existing, hreply, rfl⟩ := h
    exact status_of_lookup (findByKey_eq_some hreply).1
  | insertReserved new => exact absurd h not_false
  | get settlementId =>
    obtain rfl := h
    obtain ⟨rfl, row, hrow, rfl⟩ := run_get_ok hrun
    exact status_of_lookup hrow
  | claimReserved settlementId =>
    obtain ⟨claim, hreply, rfl⟩ := h
    exact (claimReserved_ok hrun).1.shows claim (Option.mem_toList.mpr hreply)
  | claimForReconciliation settlementId respectSchedule =>
    obtain ⟨claim, hreply, rfl⟩ := h
    exact (claimForReconciliation_ok hrun).1.shows claim (Option.mem_toList.mpr hreply)
  | claimDueBatch limit =>
    obtain ⟨claim, hmem, rfl⟩ := h
    exact (claimDueBatch_claims (Except.ok.inj hrun)).shows claim hmem
  | finalizeAttempt settlementId attemptToken result =>
    obtain rfl := h
    obtain ⟨_, _, row', -, -, -, hrow', rfl, -⟩ := finalizeAttempt_ok hrun
    exact status_of_lookup hrow'

/-- A view is of the one row there is. -/
theorem SettlementRead.ViewOf.eq {row : Settlement id} (h : read.ViewOf db) (hid : read.id = id)
    (hrow : db.settlements.lookup id = some row) (status : SettlementStatus) :
    { read with status } = SettlementRead.fromOrmSettlement (row.withStatus status) := by
  subst hid
  obtain ⟨row', status', hrow', hread⟩ := h
  obtain rfl := Option.some.inj (hrow.symm.trans hrow')
  simp only [SettlementRead.fromOrmSettlement, SettlementRead.mk.injEq, true_and]
  exact ⟨rfl, congrArg (·.amountUsd) hread, congrArg (·.targetCurrency) hread,
    congrArg (·.quotedAmount) hread, congrArg (·.aggregateRate) hread,
    congrArg (·.snapshotVersion) hread, congrArg (·.route) hread⟩

/-- Two views of one settlement differ in the status only. -/
theorem SettlementRead.ViewOf.agree (h : read.ViewOf db) (h' : read'.ViewOf db)
    (hid : read.id = read'.id) : { read with status := read'.status } = read' := by
  have hview' := h'
  obtain ⟨row', status', hrow', -⟩ := h'
  exact (h.eq hid hrow' read'.status).trans (hview'.eq rfl hrow' read'.status).symm

end Writes

/-! ## What calls return -/

open Program

/-- The view came in a reply the worker has seen. -/
def Seen (h : CallHistory) (read : SettlementRead) : Prop :=
  ∃ (t : Transaction) (reply : t.Reply), ⟨.transaction t, .ok reply⟩ ∈ h ∧ t.Shows reply read

/-- A view that is returned was seen. -/
def ReturnsSeen (h : CallHistory) (r : Except ServiceError SettlementRead) : Prop :=
  ∀ read, r = .ok read → Seen h read

section Calls
variable {settings : Settings} {h : CallHistory} {id : UUID}

theorem transact_seen {t : Transaction} {post : CallHistory → Except ServiceError t.Reply → Prop}
    (hpost : ∀ r, post (⟨.transaction t, r⟩ :: h) r) :
    (transact t).Meets (fun _ _ => True) post h :=
  meets_call.mpr ⟨trivial, hpost⟩

theorem get_seen : (transact (.get id)).Meets (fun _ _ => True) ReturnsSeen h := by
  refine transact_seen fun r read hr => ?_
  rw [hr]
  exact ⟨.get id, read, List.mem_cons_self, rfl⟩

theorem finalize_seen {token : ℕ} {result : Option ProviderResult} :
    (transact (.finalizeAttempt id token result)).Meets (fun _ _ => True) ReturnsSeen h := by
  refine transact_seen fun r read hr => ?_
  rw [hr]
  exact ⟨.finalizeAttempt id token result, read, List.mem_cons_self, rfl⟩

theorem reconcileClaim_seen {claim : PayoutClaim} {propagateErrors : Bool} :
    (reconcileClaim claim propagateErrors).Meets (fun _ _ => True) ReturnsSeen h := by
  have htry : Program.Meets (fun _ _ => True) ReturnsSeen (do
      let lookup ← await (.lookup claim.settlement.id)
      let result ← resolve claim lookup
      transact (.finalizeAttempt claim.settlement.id claim.attemptToken result)) h := by
    refine meets_bind.mpr (meets_call.mpr ⟨trivial, fun r => ?_⟩)
    cases r with
    | error error => exact fun _ heq => by cases heq
    | ok lookup =>
      refine meets_bind.mpr ((meets_true (resolve claim lookup)).mono fun h r _ => ?_)
      cases r with
      | error error => exact fun _ heq => by cases heq
      | ok result => exact finalize_seen
  unfold reconcileClaim
  refine meets_tryCatch.mpr (htry.mono fun h r hr => ?_)
  cases r with
  | ok read => exact hr
  | error error =>
    dsimp only
    split
    · exact get_seen
    · refine meets_bind.mpr ((meets_true _).mono fun h r _ => ?_)
      cases r with
      | error error => exact fun _ heq => by cases heq
      | ok _ =>
        dsimp only
        split
        · exact fun _ heq => by cases heq
        · exact get_seen

theorem reconcile_seen : (reconcile id).Meets (fun _ _ => True) ReturnsSeen h := by
  unfold reconcile
  refine meets_bind.mpr (get_seen.mono fun h r hr => ?_)
  cases r with
  | error error => exact fun _ heq => by cases heq
  | ok current =>
    dsimp only
    split
    · rintro read ⟨⟩
      exact hr _ rfl
    · refine meets_bind.mpr (transact_seen fun r => ?_)
      cases r with
      | error error => exact fun _ heq => by cases heq
      | ok reply =>
        cases reply with
        | none => exact get_seen
        | some claim => exact reconcileClaim_seen

theorem create_seen {ownerId idempotencyKey : String} {command : SettlementCreate} :
    (create settings ownerId idempotencyKey command).Meets (fun _ _ => True) ReturnsSeen [] := by
  have hmeets : (create settings ownerId idempotencyKey command).Meets _ _ [] := create_meets rfl
  refine (hmeets.mono fun h r hends => ?_).weaken fun _ _ _ => trivial
  intro read hr
  cases hends with
  | @returned id read' _ hshown =>
    cases hr
    cases hshown with
    | @found existing hmem => exact ⟨_, _, hmem, existing, rfl, rfl⟩
    | got hmem => exact ⟨_, _, hmem, rfl⟩
    | finalized hmem => exact ⟨_, _, hmem, rfl⟩
  | _ => cases hr

/-- **What a call returns was committed by a transaction it ran.** -/
theorem Call.returns_seen (settings : Settings) (call : Call) :
    (call.program settings).Meets (fun _ _ => True)
      (fun h r => ∀ read, r = .ok (.settlement read) → Seen h read) [] := by
  have hmap : ∀ {p : Service SettlementRead}, p.Meets (fun _ _ => True) ReturnsSeen [] →
      (Response.settlement <$> p).Meets (fun _ _ => True)
        (fun h r => ∀ read, r = .ok (.settlement read) → Seen h read) [] := by
    intro p hp
    refine meets_map.mpr (hp.mono fun h r hr read hread => ?_)
    cases r with
    | error error => cases hread
    | ok read' =>
      cases hread
      exact hr _ rfl
  cases call with
  | create ownerId idempotencyKey command => exact hmap create_seen
  | get settlementId => exact hmap get_seen
  | reconcile settlementId => exact hmap reconcile_seen
  | runReconciliationOnce limit =>
    refine meets_map.mpr ((meets_true _).mono fun h r _ read hread => ?_)
    cases r <;> cases hread
  | reconcileClaim claim => exact hmap reconcileClaim_seen

end Calls

/-! ## Runs -/

/-- The event is a commit whose reply shows the view. -/
def Event.Shows (e : Event) (read : SettlementRead) : Prop :=
  ∃ t reply acknowledged, e.action = .ran t (.ok reply) acknowledged ∧ t.Shows reply read

section Runs
variable {settings : Settings} {law : ProviderLaw} {s s' : State} {id : UUID}
  {status : SettlementStatus}

/-- What happened committed nothing, claims, or one write. -/
theorem Happens.run_commits {e : Event} {db : Database} (h : Happens settings law s e db) :
    Commits s.db db := by
  cases h with
  | commits _ _ _ hrun => exact Transaction.run_commits hrun
  | _ => exact .nothing rfl

theorem Step.commits (h : Step settings law s s') : Commits s.db s'.db := by
  rcases h.happens with ⟨-, hdb⟩ | ⟨e, -, hhappens⟩
  · exact .nothing hdb
  · exact hhappens.run_commits

/-- The status a commit shows is the one it leaves. -/
theorem Happens.shows {e : Event} {db : Database} {read : SettlementRead}
    (h : Happens settings law s e db) (hshows : e.Shows read) :
    db.status read.id = some read.status := by
  obtain ⟨t, reply, acknowledged, haction, hshows⟩ := hshows
  cases h with
  | commits _ _ _ hrun =>
    cases haction
    exact hshows.status_eq hrun
  | _ => cases haction

/-- What was shown is a view of the row as it is now, but for the status. -/
theorem viewOf_of_shown (h : (system settings law Database.Unused).Reachable s) {e : Event}
    (he : e ∈ s.trace) {read : SettlementRead} (hshows : e.Shows read) : read.ViewOf s.db := by
  obtain ⟨w, action⟩ := e
  obtain ⟨t, reply, acknowledged, rfl, hshows⟩ := hshows
  exact hshows.viewOf (reports_of_reachable h he)

/-- **What was shown is behind what is there now.** -/
theorem forward_of_shown (h : (system settings law Database.Unused).Reachable s) {e : Event}
    (he : e ∈ s.trace) {read : SettlementRead} (hshows : e.Shows read) :
    ∃ status, s.db.status read.id = some status ∧ read.status.Forward status := by
  refine event_of_reachable (Q := fun e s => ∀ read, e.Shows read →
    ∃ status, s.db.status read.id = some status ∧ read.status.Forward status)
    (fun s s' e _ _ _ hhappens read hshows => ?_) (fun s s' e hreach hstep hs read hshows => ?_)
    h e he read hshows
  · exact ⟨read.status, hhappens.shows hshows, .refl⟩
  · obtain ⟨status, hstatus, hforward⟩ := hs read hshows
    obtain ⟨status', hstatus', hsame | harrow⟩ :=
      hstep.commits.arrow (sound_of_reachable hreach read.id) hstatus
    · exact ⟨status, hsame ▸ hstatus', hforward⟩
    · exact ⟨status', hstatus', hforward.tail harrow⟩

/-- **Statuses are shown in order.** -/
theorem forward_throughout (h : (system settings law Database.Unused).Reachable s) :
    Trace.Throughout (fun e earlier => ∀ e' ∈ earlier, ∀ read read', e'.Shows read' →
      e.Shows read → read'.id = read.id → read'.status.Forward read.status) s.trace := by
  refine throughout_of_reachable (fun s e db hreach _ hhappens e' he' read read' hshows' hshows hid
    => ?_) h
  obtain ⟨status, hstatus, hforward⟩ := forward_of_shown hreach he' hshows'
  obtain ⟨status', hstatus', hcase⟩ :=
    hhappens.run_commits.arrow (sound_of_reachable hreach read'.id) hstatus
  have hnow := hhappens.shows hshows
  rw [← hid, hstatus'] at hnow
  obtain rfl := Option.some.inj hnow
  rcases hcase with hsame | harrow
  · exact hsame ▸ hforward
  · exact hforward.tail harrow

/-- What a worker has returned it was told by a commit. -/
theorem told_of_returned (h : (system settings law Database.Unused).Reachable s) {w : ℕ}
    {call : Call} {read : SettlementRead} {pending : Bool}
    (hworker : s.workers w = .running call (.ret (.settlement read)) pending) :
    ∃ (t : Transaction) (reply : t.Reply), ⟨w, .ran t (.ok reply) true⟩ ∈ s.trace ∧
      t.Shows reply read := by
  have hmeets := ((tracked_of_reachable h).path w call _ pending hworker).meets
    (call.returns_seen settings)
  obtain ⟨t, reply, hmem, hshows⟩ := hmeets read rfl
  exact ⟨t, reply, ran_of_history h hmem, hshows⟩

theorem shown_of_returned (h : (system settings law Database.Unused).Reachable s) {w : ℕ}
    {call : Call} {read : SettlementRead} {pending : Bool}
    (hworker : s.workers w = .running call (.ret (.settlement read)) pending) :
    ∃ e ∈ s.trace, e.worker = w ∧ e.Shows read := by
  obtain ⟨t, reply, hmem, hshows⟩ := told_of_returned h hworker
  exact ⟨_, hmem, rfl, t, reply, true, rfl, hshows⟩

/-- **The state machine.**  A step changes nothing of a settlement but its status,
and that along one arrow; a new settlement is reserved, and a terminal one is never
left.  Every view a call returns was shown by a transaction it committed; any two
views of a settlement differ in the status only, and the later one is forward of
the earlier. -/
theorem status_moves_forward (h : (system settings law Database.Unused).Reachable s) :
    (∀ s' id row, Step settings law s s' → s.db.settlements.lookup id = some row →
      ∃ status, s'.db.settlements.lookup id = some (row.withStatus status) ∧
        (status = row.status ∨ row.status.Arrow status) ∧
        (row.status.Terminal → status = row.status)) ∧
    (∀ s' id row', Step settings law s s' → s.db.settlements.lookup id = none →
      s'.db.settlements.lookup id = some row' → row'.status = .reserved) ∧
    (∀ w call read pending, s.workers w = .running call (.ret (.settlement read)) pending →
      ∃ e ∈ s.trace, e.worker = w ∧ e.Shows read) ∧
    (∀ e ∈ s.trace, ∀ e' ∈ s.trace, ∀ read read', e.Shows read → e'.Shows read' →
      read.id = read'.id → { read with status := read'.status } = read') ∧
    ∀ later e earlier, s.trace = later ++ e :: earlier → ∀ e' ∈ earlier, ∀ read read',
      e'.Shows read' → e.Shows read → read'.id = read.id → read'.status.Forward read.status := by
  refine ⟨fun s' id row hstep hrow => ?_, fun s' id row' hstep hnone hrow' => ?_,
    fun w call read pending hworker => shown_of_returned h hworker,
    fun e he e' he' read read' hshows hshows' hid => ?_, ?_⟩
  · obtain ⟨status, hrow'⟩ := hstep.writes.extends id row hrow
    obtain ⟨status', hstatus', hcase⟩ :=
      hstep.commits.arrow (sound_of_reachable h id) (status_of_lookup hrow)
    obtain rfl : status = status' :=
      Option.some.inj ((status_of_lookup hrow').symm.trans hstatus')
    refine ⟨status, hrow', hcase, fun hterminal => hcase.resolve_right fun harrow => ?_⟩
    exact harrow.not_terminal hterminal
  · have hstatus : s.db.status id = none := by
      rw [Database.status, hnone, Option.map_none]
    exact hstep.commits.born hstatus (status_of_lookup hrow')
  · exact (viewOf_of_shown h he hshows).agree (viewOf_of_shown h he' hshows') hid
  · exact Trace.throughout_iff.mp (forward_throughout h)

/-- The payout that was not known to be made was found to be. -/
theorem status_moves_forward_paid :
    ∃ s, (system sampleSettings .contract Database.Unused).Reachable s ∧
      (∃ e ∈ s.trace, e.Shows (.fromOrmSettlement (sampleRow .pendingReconciliation))) ∧
      (∃ e ∈ s.trace, e.Shows (.fromOrmSettlement (sampleRow .success))) ∧
      ∀ later e earlier, s.trace = later ++ e :: earlier → ∀ e' ∈ earlier, ∀ read read',
        e'.Shows read' → e.Shows read → read'.id = read.id →
          read'.status.Forward read.status := by
  obtain ⟨s, h, -, -, htrace⟩ := sample_run sampleStart_unused
  refine ⟨s, h, ?_, ?_, (status_moves_forward h).2.2.2.2⟩
  · rw [htrace]
    exact ⟨_, .tail _ (.tail _ (.tail _ (.tail _ (.tail _ (.tail _ (.tail _ (.head _))))))),
      _, _, _, rfl, rfl⟩
  · rw [htrace]
    exact ⟨_, .head _, _, _, _, rfl, rfl⟩

end Runs

end SettlementRouter
