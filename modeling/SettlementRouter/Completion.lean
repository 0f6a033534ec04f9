import SettlementRouter.IdempotentCreation
import SettlementRouter.Insertions
import SettlementRouter.LedgerBalance
import SettlementRouter.SoloRuns

/-! # No settlement is dead

Wherever the workers have stopped, a settlement that is not terminal can be
brought to an end: by `reconcile` once its lease has expired, or by another
`create` with the same key and command while it is only reserved.

Each transaction on the way commits.  The attempt is there, or is not, as the
status says (`Lifecycle.Sound`); no other settlement has its operation id
(`Database.Operations`); the token is the one just issued; and the funds are
where they are taken from (`Balanced`).
-/
namespace SettlementRouter

/-- An outcome that ends a payout, as the provider answers it and as the status
shows it. -/
inductive Settles : ProviderResult → ProviderLookup → SettlementStatus → Prop
  | paid : Settles .paid .paid .success
  | unpaid : Settles .unpaid .unpaid .failed

/-- Every attempt is for the operation of its own settlement. -/
def Database.Operations (db : Database) : Prop :=
  ∀ id attempt, db.attempts.lookup id = some attempt → attempt.operationId = id

section Operations
variable {settings : Settings} {clock : ℕ → Time} {locked : UUID → Bool} {db db' : Database}
  {id : UUID} {attempt : PayoutAttempt}

theorem Database.Operations.insert (h : db.Operations)
    (hdb : db'.attempts = db.attempts.insert id attempt) (hattempt : attempt.operationId = id) :
    db'.Operations := by
  intro id' attempt' hlookup
  rw [hdb] at hlookup
  by_cases hid : id' = id
  · subst hid
    rw [AList.lookup_insert] at hlookup
    obtain rfl := Option.some.inj hlookup
    exact hattempt
  · rw [AList.lookup_insert_ne hid] at hlookup
    exact h id' attempt' hlookup

theorem Database.Operations.of_eq (h : db.Operations) (hdb : db'.attempts = db.attempts) :
    db'.Operations := by
  intro id attempt hlookup
  exact h id attempt (hdb ▸ hlookup)

theorem insertReserved_attempts {new : NewSettlement} {reply : Unit}
    (h : insertReserved new db = .ok (reply, db')) : db'.attempts = db.attempts := by
  simp only [insertReserved, bind, Except.bind, pure, Except.pure] at h
  split at h
  · cases h
  split at h
  · cases h
  rename_i hinsert
  split at h
  · cases h
  rename_i hreserve
  cases h
  obtain ⟨-, -, rfl⟩ := insertSettlement_ok hinsert
  exact (post_ok hreserve).attempts_eq

theorem claimRows_operations {rows : List DueRow} {k : ℕ} (h : db.Operations)
    (hrows : ∀ row ∈ rows, row.attempt.operationId = row.id) :
    (claimRows settings clock rows k db).2.Operations := by
  induction rows generalizing k db with
  | nil => exact h
  | cons row rows ih =>
    obtain ⟨hrow, hrows⟩ := List.forall_mem_cons.mp hrows
    have hclaim : (row.attempt.claim (settings.leaseDeadline (clock k))).operationId = row.id :=
      hrow
    exact ih (h.insert rfl hclaim) hrows

theorem claimReserved_operations {reply : Option PayoutClaim} (h : db.Operations)
    (hrun : claimReserved settings clock id db = .ok (reply, db')) : db'.Operations := by
  unfold claimReserved at hrun
  split at hrun
  · cases hrun
  · rename_i row hrow
    split at hrun
    · cases hrun
      exact h
    · simp only [bind, Except.bind] at hrun
      split at hrun
      · cases hrun
      · rename_i hinsert
        cases hrun
        obtain ⟨-, rfl⟩ := insertAttempt_ok hinsert
        exact h.insert rfl row.provider_operation_matches_id

theorem claimForReconciliation_operations {respectSchedule : Bool} {reply : Option PayoutClaim}
    (h : db.Operations)
    (hrun : claimForReconciliation settings clock id respectSchedule db = .ok (reply, db')) :
    db'.Operations := by
  unfold claimForReconciliation at hrun
  split at hrun
  · cases hrun
  · rename_i row hrow
    split at hrun
    · cases hrun
      exact h
    · dsimp only at hrun
      split at hrun
      · simp only [bind, Except.bind] at hrun
        split at hrun
        · cases hrun
        · rename_i hinsert
          cases hrun
          obtain ⟨-, rfl⟩ := insertAttempt_ok hinsert
          exact h.insert rfl row.provider_operation_matches_id
      · rename_i attempt hattempt
        split at hrun
        · cases hrun
          exact h
        split at hrun
        · cases hrun
          exact h
        cases hrun
        have hclaim : (attempt.claim (settings.leaseDeadline (clock 1))).operationId = id :=
          h id attempt hattempt
        exact h.insert rfl hclaim

theorem finalizeAttempt_operations {token : ℕ} {result : Option ProviderResult}
    {read : SettlementRead} (h : db.Operations)
    (hrun : finalizeAttempt clock id token result db = .ok (read, db')) : db'.Operations := by
  unfold finalizeAttempt at hrun
  split at hrun
  · cases hrun
  split at hrun
  · cases hrun
  rename_i attempt hattempt
  have hoperation := h id attempt hattempt
  split at hrun
  · cases hrun
  split at hrun
  · cases hrun
    exact h
  dsimp only at hrun
  split at hrun
  · simp only [bind, Except.bind] at hrun
    split at hrun
    · cases hrun
    · rename_i hconsume
      cases hrun
      exact (h.of_eq (post_ok hconsume).attempts_eq).insert rfl hoperation
  · simp only [bind, Except.bind] at hrun
    split at hrun
    · cases hrun
    · rename_i hrelease
      cases hrun
      exact (h.of_eq (post_ok hrelease).attempts_eq).insert rfl hoperation
  · cases hrun
    exact h.insert rfl hoperation

/-- **Every transaction keeps operations with their settlements.** -/
theorem Transaction.run_operations {t : Transaction} {reply : t.Reply} (h : db.Operations)
    (hrun : t.run settings clock locked db = .ok (reply, db')) : db'.Operations := by
  cases t with
  | findByKey ownerId idempotencyKey =>
    cases hrun
    exact h
  | insertReserved new => exact h.of_eq (insertReserved_attempts hrun)
  | get settlementId =>
    obtain ⟨rfl, -⟩ := run_get_ok hrun
    exact h
  | claimReserved settlementId => exact claimReserved_operations h hrun
  | claimForReconciliation settlementId respectSchedule =>
    exact claimForReconciliation_operations h hrun
  | claimDueBatch limit =>
    obtain rfl : (SettlementRouter.claimDueBatch settings clock locked limit db).2 = db' :=
      congrArg Prod.snd (Except.ok.inj hrun)
    refine claimRows_operations h fun row hrow => ?_
    have hdue := (selectDue_sublist db (clock 0) locked limit).subset hrow
    exact h _ _ (mem_joinedRows.mp (mem_dueRows.mp hdue).1).2
  | finalizeAttempt settlementId token result => exact finalizeAttempt_operations h hrun

end Operations

theorem operations_of_reachable {settings : Settings} {law : ProviderLaw} {s : State}
    (h : (system settings law Database.Unused).Reachable s) : s.db.Operations := by
  refine h.invariant (I := fun s => s.db.Operations) ?_ ?_
  · rintro s ⟨hunused, -⟩ id attempt hlookup
    rw [hunused.attempts_eq] at hlookup
    cases hlookup
  · intro s s' _ hdb hstep
    rcases hstep.happens with ⟨-, heq⟩ | ⟨e, -, hhappens⟩
    · exact heq ▸ hdb
    · generalize s'.db = db at hhappens
      cases hhappens with
      | commits _ _ _ hrun => exact Transaction.run_operations hdb hrun
      | starts | calls | rollsBack | answers => exact hdb

/-! ## Transactions that commit -/

section Transactions
variable {settings : Settings} {clock : ℕ → Time} {now : Time} {db : Database} {id : UUID}
  {row : Settlement id} {attempt : PayoutAttempt} {owners : List String} {opening : String → Units}

variable (settings clock) in
/-- A reserved settlement can be claimed. -/
theorem claimReserved_eq (hoperations : db.Operations)
    (hrow : db.settlements.lookup id = some row) (hstatus : row.status = .reserved)
    (hnone : db.attempts.lookup id = none) :
    claimReserved settings clock id db =
      .ok (some ⟨.fromOrmSettlement (row.withStatus .payoutInProgress), 1⟩, { db with
        settlements := db.settlements.insert id (row.withStatus .payoutInProgress)
        attempts := db.attempts.insert id ⟨row.providerOperationId, .submitting, 1,
          settings.leaseDeadline (clock 0), none, Nat.one_pos⟩ }) := by
  have hfresh : (db.attempts.entries.any fun row' =>
      row'.2.operationId = (row.withStatus .payoutInProgress).providerOperationId) = false := by
    refine List.any_eq_false.mpr fun entry hentry => ?_
    have hlookup := AList.mem_lookup_iff.mpr hentry
    have hentry' := hoperations _ _ hlookup
    rw [decide_eq_true_eq, hentry', Settlement.provider_operation_matches_id]
    rintro rfl
    rw [hnone] at hlookup
    cases hlookup
  simp [claimReserved, hrow, hstatus, insertAttempt, hnone, hfresh, bind, Except.bind, pure,
    Except.pure]
  rfl

variable (settings) in
/-- Once its lease has expired, a settlement in flight can be claimed. -/
theorem claimForReconciliation_eq (hrow : db.settlements.lookup id = some row)
    (hinflight : row.status.InFlight) (hattempt : db.attempts.lookup id = some attempt)
    (hlease : attempt.leaseExpiresAt ≤ now) (hclock : ∀ k, now ≤ clock k) :
    claimForReconciliation settings clock id false db =
      .ok (some ⟨.fromOrmSettlement row, attempt.attemptToken + 1⟩, { db with
        attempts :=
          db.attempts.insert id (attempt.claim (settings.leaseDeadline (clock 1))) }) := by
  have hexpired : ¬ clock 0 < attempt.leaseExpiresAt := not_lt.mpr (hlease.trans (hclock 0))
  simp only [claimForReconciliation, hrow, hattempt, hinflight, hexpired, not_true_eq_false,
    and_false, if_false]
  rfl

/-- The reservations are the same. -/
def SameReservations (db db' : Database) : Prop :=
  ∀ id, db'.journalCount id .reserve = db.journalCount id .reserve

variable (clock) in
/-- **An outcome that ends a payout is applied**, under the attempt's token. -/
theorem finalizeAttempt_settles {result : ProviderResult} {lookup : ProviderLookup}
    {status : SettlementStatus} (hsettles : Settles result lookup status)
    (hbalanced : Balanced owners opening db) (hsound : (db.lifecycle id).Sound)
    (hrow : db.settlements.lookup id = some row) (hinflight : row.status.InFlight)
    (hattempt : db.attempts.lookup id = some attempt) :
    ∃ read db', finalizeAttempt clock id attempt.attemptToken (some result) db = .ok (read, db') ∧
      read.id = id ∧ read.status = status ∧ db'.status id = some status ∧
      SameReservations db db' := by
  have hholds : row.status.Holds := .inr hinflight
  have hterminal : ¬ row.status.Terminal := SettlementStatus.holds_iff.mp hholds
  obtain ⟨-, hconsume, hrelease⟩ := hsound.journals (status_of_lookup hrow)
  rw [if_neg fun hsuccess => hterminal (.inl hsuccess)] at hconsume
  rw [if_neg fun hfailed => hterminal (.inr hfailed)] at hrelease
  -- the token is that of the attempt, and the ledger has what is held for the settlement
  have hcommits : ∃ reply, finalizeAttempt clock id attempt.attemptToken (some result) db =
      .ok reply := by
    cases hsettles with
    | paid =>
      obtain ⟨db₁, hposted⟩ := hbalanced.consume_succeeds hrow hholds hconsume
      simp [finalizeAttempt, hrow, hattempt, hterminal, hposted, bind, Except.bind, pure,
        Except.pure]
    | unpaid =>
      obtain ⟨db₁, hposted⟩ := hbalanced.release_succeeds hrow hholds hrelease
      simp [finalizeAttempt, hrow, hattempt, hterminal, hposted, bind, Except.bind, pure,
        Except.pure]
  obtain ⟨⟨read, db'⟩, hrun⟩ := hcommits
  refine ⟨read, db', hrun, ?_⟩
  obtain ⟨row₁, attempt₁, row', hrow₁, -, -, hrow', rfl, ⟨hended, -⟩ | ⟨-, hwrite⟩⟩ :=
    finalizeAttempt_ok hrun
  · obtain rfl := Option.some.inj (hrow.symm.trans hrow₁)
    exact absurd hended hterminal
  have hmove := hwrite.move
  have hstatus : (db'.lifecycle id).status = some status := by
    cases hsettles <;>
    · generalize db.lifecycle id = l, db'.lifecycle id = l' at hmove
      cases hmove
      rfl
  have hreserve : (db'.lifecycle id).journals .reserve = (db.lifecycle id).journals .reserve := by
    generalize db.lifecycle id = l, db'.lifecycle id = l', finalStatus (some result) = final
      at hmove
    cases hmove <;> rfl
  refine ⟨rfl, ?_, hstatus, fun id' => ?_⟩
  · exact Option.some.inj ((status_of_lookup hrow').symm.trans hstatus)
  · by_cases hid : id' = id
    · subst hid
      exact hreserve
    · exact congrFun (hwrite.journalCount_of_ne hid) .reserve

end Transactions

/-! ## Calls that end a settlement -/

open Program

/-- The call has returned the settlement with its final status, which is the
committed one; it has reserved nothing, and nothing it did has failed. -/
structure Concludes (id : UUID) (status : SettlementStatus) (before : Database) (h : CallHistory)
    (db : Database) (r : Except ServiceError SettlementRead) : Prop where
  returns : ∃ read, r = .ok read ∧ read.id = id ∧ read.status = status
  status_eq : db.status id = some status
  reservations : SameReservations before db
  unfailed : ∀ entry ∈ h, ∃ reply, entry.2 = .ok reply

section Calls
variable {settings : Settings} {initiates : Option ProviderResult → Prop}
  {looksUp : Option ProviderLookup → Prop} {now : Time} {before db : Database} {id : UUID}
  {row : Settlement id} {attempt : PayoutAttempt} {owners : List String} {opening : String → Units}
  {result : ProviderResult} {lookup : ProviderLookup} {status : SettlementStatus} {h : CallHistory}

theorem finalize_concludes (hsettles : Settles result lookup status)
    (hbalanced : Balanced owners opening db) (hsound : (db.lifecycle id).Sound)
    (hrow : db.settlements.lookup id = some row) (hinflight : row.status.InFlight)
    (hattempt : db.attempts.lookup id = some attempt) (hsame : SameReservations before db)
    (hunfailed : ∀ entry ∈ h, ∃ reply, entry.2 = .ok reply) :
    (transact (.finalizeAttempt id attempt.attemptToken (some result))).Always
      (Exec settings initiates looksUp now) (Concludes id status before) h db := by
  refine always_transact fun clock locked _ => ?_
  obtain ⟨read, db', hrun, hid, hread, hstatus, hsame'⟩ :=
    finalizeAttempt_settles clock hsettles hbalanced hsound hrow hinflight hattempt
  refine ⟨read, db', hrun, ⟨read, rfl, hid, hread⟩, hstatus, fun id' => ?_, ?_⟩
  · exact (hsame' id').trans (hsame id')
  · exact List.forall_mem_cons.mpr ⟨⟨read, rfl⟩, hunfailed⟩

/-- **`reconcile` ends a settlement in flight** whose lease has expired. -/
theorem reconcile_concludes (hsettles : Settles result lookup status)
    (hbalanced : Balanced owners opening db) (hsound : (db.lifecycle id).Sound)
    (hrow : db.settlements.lookup id = some row) (hinflight : row.status.InFlight)
    (hattempt : db.attempts.lookup id = some attempt) (hlease : attempt.leaseExpiresAt ≤ now) :
    (reconcile id).Always (Exec settings initiates (· = some lookup) now)
      (Concludes id status db) [] db := by
  unfold reconcile
  refine always_bind.mpr (always_transact fun clock locked _ => ?_)
  refine ⟨.fromOrmSettlement row, db, by simp [Transaction.run, get, hrow, Except.map], ?_⟩
  have hread : ¬ ¬ (SettlementRead.fromOrmSettlement row).status.InFlight := not_not.mpr hinflight
  dsimp only
  rw [if_neg hread]
  refine always_bind.mpr (always_transact fun clock locked hclock => ?_)
  have hclaim := claimForReconciliation_eq settings hrow hinflight hattempt hlease hclock
  refine ⟨_, _, hclaim, ?_⟩
  have hwrites := (claimForReconciliation_ok hclaim).1.writes
  have hresolve : ∀ claim, resolve claim lookup = pure (some result) := by
    cases hsettles <;> exact fun _ => rfl
  refine always_tryCatch.mpr (always_bind.mpr (always_lookup ?_))
  dsimp only
  rw [hresolve]
  refine (finalize_concludes hsettles (hwrites.balanced hbalanced)
    (hwrites.lifecycle (fun _ _ _ hmove => hmove.sound) hsound) hrow hinflight
    (AList.lookup_insert _) (show SameReservations db _ from fun _ => rfl) ?_).mono
      fun h db' r hr => ?_
  · simp
  · obtain ⟨read, rfl, -⟩ := hr.returns
    exact hr

/-- The end of `create` ends a reserved settlement. -/
theorem submit_concludes (hsettles : Settles result lookup status)
    (hbalanced : Balanced owners opening db) (hsound : (db.lifecycle id).Sound)
    (hoperations : db.Operations) (hrow : db.settlements.lookup id = some row)
    (hstatus : row.status = .reserved) (hunfailed : ∀ entry ∈ h, ∃ reply, entry.2 = .ok reply) :
    (submit id).Always (Exec settings (· = some result) looksUp now)
      (Concludes id status db) h db := by
  have hnone : db.attempts.lookup id = none := by
    unfold Lifecycle.Sound at hsound
    rw [status_of_lookup hrow, hstatus] at hsound
    exact Option.map_eq_none_iff.mp hsound.1
  unfold submit
  refine always_bind.mpr (always_transact fun clock locked _ => ?_)
  have hclaim := claimReserved_eq settings clock hoperations hrow hstatus hnone
  refine ⟨_, _, hclaim, ?_⟩
  have hwrites := (claimReserved_ok hclaim).1.writes
  refine always_bind.mpr (always_tryInitiate (always_tryCatch.mpr ?_))
  refine (finalize_concludes hsettles (hwrites.balanced hbalanced)
    (hwrites.lifecycle (fun _ _ _ hmove => hmove.sound) hsound) (AList.lookup_insert _) (.inl rfl)
    (AList.lookup_insert _) (show SameReservations db _ from fun _ => rfl) ?_).mono
      fun h db' r hr => ?_
  · simpa using hunfailed
  · obtain ⟨read, rfl, -⟩ := hr.returns
    exact hr

/-- **`create` ends a reserved settlement**, for its own key and command. -/
theorem create_concludes {ownerId idempotencyKey : String} {command : SettlementCreate}
    (hsettles : Settles result lookup status)
    (hbalanced : Balanced owners opening db) (hsound : (db.lifecycle id).Sound)
    (hoperations : db.Operations) (hkeys : db.KeyUnique)
    (hrow : db.settlements.lookup id = some row) (hstatus : row.status = .reserved)
    (howner : row.ownerId = ownerId) (hkey : row.idempotencyKey = idempotencyKey)
    (hfingerprint : row.requestFingerprint = requestFingerprint settings.sha256 ownerId command) :
    (create settings ownerId idempotencyKey command).Always
      (Exec settings (· = some result) looksUp now) (Concludes id status db) [] db := by
  have hfound : findByKey db ownerId idempotencyKey = some ⟨id, row⟩ := by
    obtain ⟨⟨id', row'⟩, hfound⟩ := Option.isSome_iff_exists.mp (findByKey_isSome hrow howner hkey)
    obtain ⟨hrow', howner', hkey'⟩ := findByKey_eq_some hfound
    obtain rfl := hkeys id id' row row' hrow hrow' (howner.trans howner'.symm)
      (hkey.trans hkey'.symm)
    obtain rfl := Option.some.inj (hrow.symm.trans hrow')
    exact hfound
  unfold create
  refine always_bind.mpr (always_transact fun clock locked _ => ?_)
  refine ⟨some ⟨id, row⟩, db, by simp [Transaction.run, hfound], ?_⟩
  dsimp only
  unfold replay
  rw [if_neg (not_not.mpr hfingerprint), if_neg (not_not.mpr hstatus)]
  exact submit_concludes hsettles hbalanced hsound hoperations hrow hstatus (by simp)

end Calls

/-! ## Every settlement can be ended -/

open Function (update)

/-- All workers have returned or crashed. -/
def State.Ended (s : State) : Prop :=
  ∀ w, s.workers w = .idle ∨ (∃ call, s.workers w = .stopped call) ∨
    ∃ call program pending, s.workers w = .running call program pending ∧ program.result.isSome

/-- The state in which worker `w` has just begun the call. -/
def State.begin (s : State) (settings : Settings) (w : ℕ) (call : Call) : State :=
  { s.log w (.started call) with
    workers := update s.workers w (.running call (call.program settings) false) }

/-- Worker `w` has returned the settlement with its final status, which is the
committed one; nothing was reserved since `before`, and nothing the worker did has
failed. -/
structure Completed (w : ℕ) (id : UUID) (status : SettlementStatus) (before : Database)
    (s : State) : Prop where
  returned : ∃ call read, s.workers w = .running call (.ret (.settlement read)) false ∧
    read.id = id ∧ read.status = status
  status_eq : s.db.status id = some status
  reservations : SameReservations before s.db
  unfailed : ∀ entry ∈ history w s.trace, ∃ reply, entry.2 = .ok reply

section Runs
variable {settings : Settings} {law : ProviderLaw} {start : Database → Prop}
  {owners : List String} {opening : String → Units} {s : State} {w : ℕ} {id : UUID}

/-- There is always another worker. -/
theorem exists_idle (h : (system settings law start).Reachable s) :
    ∃ n, ∀ w, n ≤ w → s.workers w = .idle := by
  induction h with
  | init hinit => exact ⟨0, fun w _ => hinit.2.1 w⟩
  | step _ hstep ih =>
    obtain ⟨n, hn⟩ := ih
    have hupdate : ∀ {v worker}, ∀ w, max n (v + 1) ≤ w → update _ v worker w = Worker.idle :=
      fun {v _} w hw => by
        rw [Function.update_of_ne (by omega)]
        exact hn w (by omega)
    cases hstep with
    | start => exact ⟨_, hupdate⟩
    | wait => exact ⟨_, hupdate⟩
    | advance => exact ⟨_, hupdate⟩
    | stop => exact ⟨_, hupdate⟩
    | tick => exact ⟨n, hn⟩
    | record => exact ⟨n, hn⟩

/-- A worker that begins when all others have ended is alone. -/
theorem State.Ended.alone (hended : s.Ended) (h : (system settings law start).Reachable s)
    (hidle : s.workers w = .idle) (call : Call) :
    Alone w call s.clock (call.program settings) false [] s.db (s.begin settings w call) where
  worker := Function.update_self _ _ _
  others := by
    rintro v new hv ⟨call', next, hworker⟩
    have hworker : s.workers v = _ := (Function.update_of_ne hv _ _).symm.trans hworker
    rcases hended v with hidle | ⟨call'', hstopped⟩ | ⟨call'', program, pending, hrunning, hresult⟩
    · cases hidle.symm.trans hworker
    · cases hstopped.symm.trans hworker
    · cases hrunning.symm.trans hworker
      cases hresult
  now_le := le_rfl
  history_eq := by
    have habsent := history_of_absent ((tracked_of_reachable h).idle w hidle)
    simpa [State.begin, Shared.log, history_cons_self, Action.seen] using habsent
  db_eq := rfl

/-- What a call concludes on its own is completed in the system. -/
theorem completes_of_concludes {initiates : Option ProviderResult → Prop}
    {looksUp : Option ProviderLookup → Prop} {call : Call} {program : Service SettlementRead}
    {status : SettlementStatus} (hended : s.Ended)
    (h : (system settings law start).Reachable s) (hidle : s.workers w = .idle)
    (hprogram : call.program settings = .settlement <$> program)
    (hconcludes : program.Always (Exec settings initiates looksUp s.clock)
      (Concludes id status s.db) [] s.db) :
    Inevitably (Solo settings (.steady initiates looksUp) w) (Completed w id status s.db)
      (s.begin settings w call) := by
  have halways : (call.program settings).Always (Exec settings initiates looksUp s.clock)
      (fun h db r => ∃ r', r = r'.map .settlement ∧ Concludes id status s.db h db r') [] s.db := by
    rw [hprogram]
    exact always_map.mpr (hconcludes.mono fun h db r hr => ⟨r, rfl, hr⟩)
  refine (inevitably_of_always halways (hended.alone h hidle call)).mono ?_
  rintro t ⟨ended, _, hworker, hresult, r', rfl, hr⟩
  obtain ⟨read, rfl, hid, hstatus⟩ := hr.returns
  refine ⟨⟨call, read, ?_, hid, hstatus⟩, hr.status_eq, hr.reservations, hr.unfailed⟩
  cases ended with
  | ret response =>
    cases hresult
    exact hworker
  | raise error => cases hresult
  | perform op next => cases hresult

/-- **No settlement is dead.**  Where all workers have returned or crashed, there is
a worker left to run another call.  A settlement in flight has an attempt; once
its lease has expired, `reconcile` on its own inevitably returns the settlement
with the outcome the provider's lookup gives.  A reserved settlement was inserted
by some `create`, and the same `create` inevitably returns it with the outcome the
provider gives, without reserving anything.  Nothing these calls do fails. -/
theorem no_settlement_dead (h : (system settings law (Opening owners opening)).Reachable s)
    (hended : s.Ended) :
    (∃ w, s.workers w = .idle) ∧
    ∀ w id row, s.workers w = .idle → s.db.settlements.lookup id = some row →
      (row.status.InFlight → ∃ attempt, s.db.attempts.lookup id = some attempt ∧
        (attempt.leaseExpiresAt ≤ s.clock → ∀ result lookup status initiates,
          Settles result lookup status →
          Inevitably (Solo settings (.steady initiates (· = some lookup)) w)
            (Completed w id status s.db) (s.begin settings w (.reconcile id)))) ∧
      (row.status = .reserved →
        (∃ v ownerId idempotencyKey command new acknowledged,
          ⟨v, .ran (.insertReserved new) (.ok ()) acknowledged⟩ ∈ s.trace ∧ new.id = id ∧
          ⟨v, .started (.create ownerId idempotencyKey command)⟩ ∈ s.trace) ∧
        ∀ v ownerId idempotencyKey command new acknowledged,
          ⟨v, .ran (.insertReserved new) (.ok ()) acknowledged⟩ ∈ s.trace → new.id = id →
          ⟨v, .started (.create ownerId idempotencyKey command)⟩ ∈ s.trace →
          ∀ result lookup status looksUp, Settles result lookup status →
            Inevitably (Solo settings (.steady (· = some result) looksUp) w)
              (Completed w id status s.db)
              (s.begin settings w (.create ownerId idempotencyKey command))) := by
  have hunused := reachable_of_start (fun _ hdb => hdb.unused) h
  refine ⟨?_, fun w id row hidle hrow => ⟨fun hinflight => ?_, fun hstatus => ⟨?_, ?_⟩⟩⟩
  · obtain ⟨n, hn⟩ := exists_idle h
    exact ⟨n, hn n le_rfl⟩
  · have hattempt : ∃ attempt, s.db.attempts.lookup id = some attempt := by
      have hsound := sound_of_reachable hunused id
      unfold Lifecycle.Sound at hsound
      rw [status_of_lookup hrow] at hsound
      rcases hinflight with hstatus | hstatus <;>
      · rw [hstatus] at hsound
        obtain ⟨⟨state, token, hattempt, -⟩, -⟩ := hsound
        obtain ⟨attempt, hlookup, -⟩ := Option.map_eq_some_iff.mp hattempt
        exact ⟨attempt, hlookup⟩
    obtain ⟨attempt, hattempt⟩ := hattempt
    refine ⟨attempt, hattempt, fun hlease result lookup status initiates hsettles => ?_⟩
    exact completes_of_concludes hended h hidle rfl (reconcile_concludes hsettles
      (balanced_of_reachable h) (sound_of_reachable hunused id) hrow hinflight hattempt hlease)
  · obtain ⟨v, ownerId, idempotencyKey, command, new, acknowledged, hran, hnew, hstarted, -⟩ :=
      requested_of_lookup hunused hrow
    exact ⟨v, ownerId, idempotencyKey, command, new, acknowledged, hran, hnew, hstarted⟩
  · rintro v ownerId idempotencyKey command new acknowledged hran rfl hstarted result lookup status
      looksUp hsettles
    -- what the row was inserted with is what the call was asked for
    obtain ⟨ownerId', idempotencyKey', command', hstarted', hrequests⟩ :=
      requested_of_inserted hunused hran
    cases started_unique h hstarted hstarted'
    obtain ⟨row', status', hrow', hlookup⟩ := reports_of_reachable hunused hran
    obtain rfl := Option.some.inj (hrow.symm.trans hlookup)
    obtain ⟨howner, hkey, hfingerprint, -⟩ := NewSettlement.row_ok hrow'
    exact completes_of_concludes hended h hidle rfl (create_concludes hsettles
      (balanced_of_reachable h) (sound_of_reachable hunused _) (operations_of_reachable hunused)
      (keyUnique_of_reachable hunused) hrow hstatus (howner.trans hrequests.ownerId)
      (hkey.trans hrequests.idempotencyKey) (hfingerprint.trans hrequests.fingerprint))

/-- The payout that timed out is reconciled. -/
theorem no_settlement_dead_pending :
    ∃ s t, (system sampleSettings .contract (Opening ["ada"] fun _ => 50000000000)).Reachable s ∧
      s.db.status 7 = some .pendingReconciliation ∧
      (system sampleSettings (.steady (fun _ => True) (· = some .paid)) Database.Unused).Later
        (s.begin sampleSettings 1 (.reconcile 7)) t ∧ t.db.status 7 = some .success := by
  obtain ⟨s, h, hdb, hclock, -, -, -, hworker, hidle⟩ :=
    sample_pending (C := fun _ => True) sampleStart_opening fun _ _ _ => trivial
  have hended : s.Ended := by
    intro w
    by_cases hw : w = 0
    · subst hw
      exact .inr (.inr ⟨_, _, _, hworker, rfl⟩)
    · exact .inl (hidle w hw)
  have hrow : s.db.settlements.lookup 7 = some (sampleRow .pendingReconciliation) := hdb ▸ rfl
  have hlookup : s.db.attempts.lookup 7 = some (sampleAttempt .reconciling 0 0 (some .unknown)) :=
    hdb ▸ rfl
  obtain ⟨-, hdead⟩ := no_settlement_dead h.of_restrict hended
  obtain ⟨attempt, hattempt, hreconcile⟩ := (hdead 1 7 _ (hidle 1 (by decide)) hrow).1 (.inr rfl)
  obtain rfl := Option.some.inj (hlookup.symm.trans hattempt)
  obtain ⟨t, hlater, hcompleted⟩ :=
    (hreconcile hclock.ge .paid .paid .success (fun _ => True) .paid).exists_later
      fun _ _ => Solo.later
  exact ⟨s, t, h.of_restrict, status_of_lookup hrow, hlater, hcompleted.status_eq⟩

end Runs

end SettlementRouter
