import SettlementRouter.SystemRuns

/-! # When an attempt may be taken over

An attempt's lease says until when it is nobody else's business.  What a transaction does to
it is told by `Rescheduled`, with the readings of the clock it is made of: a claim is out
until the deadline, a result that is not final is due again at once, and an attempt that is
claimed is claimed again only when the clock has been read past its lease.

So while the lease of a claim lasts, the claim can only be ended by a transaction with its
own token (`lease_exclusive`).
-/
namespace SettlementRouter

/-- What a commit does to the attempt of the settlement `id`. -/
inductive Rescheduled (settings : Settings) (clock : ℕ → Time) (db db' : Database) (id : UUID) :
    Transaction → Prop
  | kept {t} : db'.attempts.lookup id = db.attempts.lookup id →
      (∀ status, db'.status id = some status → status.InFlight → db.status id = some status) →
      Rescheduled settings clock db db' id t
  | submitted {attempt} : db.attempts.lookup id = none → db'.attempts.lookup id = some attempt →
      attempt.leaseExpiresAt = settings.leaseDeadline (clock 0) →
      Rescheduled settings clock db db' id (.claimReserved id)
  | claimed {t attempt} (k : ℕ) : db'.attempts.lookup id = some attempt →
      attempt.state = .claimed → attempt.leaseExpiresAt = settings.leaseDeadline (clock k) →
      (∀ old, db.attempts.lookup id = some old → old.state = .claimed →
        old.leaseExpiresAt ≤ clock 0) →
      Rescheduled settings clock db db' id t
  | pended {old attempt result} : db.attempts.lookup id = some old →
      db'.attempts.lookup id = some attempt → attempt.attemptToken = old.attemptToken →
      attempt.leaseExpiresAt = clock 0 →
      Rescheduled settings clock db db' id (.finalizeAttempt id old.attemptToken result)
  | completed {old attempt result} : db.attempts.lookup id = some old →
      db'.attempts.lookup id = some attempt → attempt.attemptToken = old.attemptToken →
      attempt.state = .completed →
      Rescheduled settings clock db db' id (.finalizeAttempt id old.attemptToken result)

section Transactions
variable {settings : Settings} {clock : ℕ → Time} {locked : UUID → Bool} {db db' : Database}
  {id id' : UUID} {t : Transaction}

theorem Rescheduled.refl : Rescheduled settings clock db db id t :=
  .kept rfl fun _ hstatus _ => hstatus

/-- A write to another settlement. -/
theorem Rescheduled.of_rows (hsettlement : db'.settlements.lookup id = db.settlements.lookup id)
    (hattempt : db'.attempts.lookup id = db.attempts.lookup id) :
    Rescheduled settings clock db db' id t := by
  refine .kept hattempt fun status hstatus _ => ?_
  rwa [Database.status, hsettlement] at hstatus

theorem Write.rescheduled {kind : WriteKind} (h : Write id' kind db db') (hne : id ≠ id') :
    Rescheduled settings clock db db' id t :=
  .of_rows (h.rows_of_ne hne).1 (h.rows_of_ne hne).2

theorem insertReserved_rescheduled {new : NewSettlement} {reply : Unit}
    (h : insertReserved new db = .ok (reply, db')) :
    Rescheduled settings clock db db' id (.insertReserved new) := by
  obtain ⟨row, -, -, hwrite⟩ := insertReserved_ok h
  by_cases hid : id = new.id
  · subst hid
    cases hwrite with
    | reserve _ _ hstatus hposted =>
      refine .kept (by rw [hposted.attempts_eq]) fun status hstatus' hinFlight => ?_
      rw [Database.status, hposted.settlements_eq, AList.lookup_insert, Option.map_some,
        hstatus] at hstatus'
      cases hstatus'
      rcases hinFlight with heq | heq <;> cases heq
  · exact hwrite.rescheduled hid

theorem claimReserved_rescheduled {reply : Option PayoutClaim}
    (h : claimReserved settings clock id' db = .ok (reply, db')) :
    Rescheduled settings clock db db' id (.claimReserved id') := by
  unfold claimReserved at h
  split at h
  · cases h
  · rename_i row hrow
    by_cases hstatus : row.status = .reserved
    · rw [if_neg (not_not.mpr hstatus)] at h
      simp only [bind, Except.bind] at h
      split at h
      · cases h
      · rename_i db₁ hinsert
        cases h
        obtain ⟨hnone, rfl⟩ := insertAttempt_ok hinsert
        by_cases hid : id = id'
        · subst hid
          exact .submitted hnone (AList.lookup_insert _) rfl
        · exact .of_rows (AList.lookup_insert_ne hid) (AList.lookup_insert_ne hid)
    · rw [if_pos hstatus] at h
      cases h
      exact .refl

theorem claimForReconciliation_rescheduled {respectSchedule : Bool} {reply : Option PayoutClaim}
    (h : claimForReconciliation settings clock id' respectSchedule db = .ok (reply, db')) :
    Rescheduled settings clock db db' id (.claimForReconciliation id' respectSchedule) := by
  unfold claimForReconciliation at h
  split at h
  · cases h
  · rename_i row hrow
    by_cases hstatus : row.status.InFlight
    · rw [if_neg (not_not.mpr hstatus)] at h
      dsimp only at h
      cases hattempt : db.attempts.lookup id' with
      | none =>
        simp only [hattempt, bind, Except.bind] at h
        split at h
        · cases h
        · rename_i db₁ hinsert
          cases h
          obtain ⟨hnone, rfl⟩ := insertAttempt_ok hinsert
          by_cases hid : id = id'
          · subst hid
            refine .claimed 1 (AList.lookup_insert _) rfl rfl fun old hold => ?_
            rw [hnone] at hold
            cases hold
          · exact .of_rows rfl (AList.lookup_insert_ne hid)
      | some attempt =>
        simp only [hattempt] at h
        split at h
        · cases h
          exact .refl
        · rename_i hnotClaimed
          split at h
          · cases h
            exact .refl
          · cases h
            by_cases hid : id = id'
            · subst hid
              refine .claimed 1 (AList.lookup_insert _) rfl rfl fun old hold hstate => ?_
              obtain rfl := Option.some.inj (hattempt.symm.trans hold)
              exact not_lt.mp fun hlt => hnotClaimed ⟨hstate, hlt⟩
            · exact .of_rows rfl (AList.lookup_insert_ne hid)
    · rw [if_pos hstatus] at h
      cases h
      exact .refl

/-- The loop of a batch claims its rows, and no other attempt changes. -/
theorem claimRows_attempts (settings : Settings) (clock : ℕ → Time) {rows : List DueRow}
    (hnodup : (rows.map DueRow.id).Nodup) (k : ℕ) (db : Database) (id : UUID) :
    (claimRows settings clock rows k db).2.settlements = db.settlements ∧
      (id ∉ rows.map DueRow.id →
        (claimRows settings clock rows k db).2.attempts.lookup id = db.attempts.lookup id) ∧
      (id ∈ rows.map DueRow.id → ∃ k' attempt,
        (claimRows settings clock rows k db).2.attempts.lookup id = some attempt ∧
          attempt.state = .claimed ∧
          attempt.leaseExpiresAt = settings.leaseDeadline (clock k')) := by
  induction rows generalizing k db with
  | nil => exact ⟨rfl, fun _ => rfl, fun hmem => absurd hmem List.not_mem_nil⟩
  | cons row rows ih =>
    obtain ⟨hnotin, hnodup⟩ := List.nodup_cons.mp hnodup
    obtain ⟨hsettlements, hother, hclaimed⟩ := ih hnodup (k + 1)
      { db with
        attempts := db.attempts.insert row.id
          (row.attempt.claim (settings.leaseDeadline (clock k))) }
    refine ⟨hsettlements, fun hid => ?_, fun hid => ?_⟩
    · obtain ⟨hne, hrest⟩ := not_or.mp (List.mem_cons.not.mp hid)
      exact (hother hrest).trans (AList.lookup_insert_ne hne)
    · by_cases hrest : id ∈ rows.map DueRow.id
      · exact hclaimed hrest
      · obtain rfl := (List.mem_cons.mp hid).resolve_right hrest
        exact ⟨k, _, (hother hrest).trans (AList.lookup_insert _), rfl, rfl⟩

theorem claimDueBatch_rescheduled {limit : ℕ} {claims : List PayoutClaim}
    (h : claimDueBatch settings clock locked limit db = (claims, db')) :
    Rescheduled settings clock db db' id (.claimDueBatch limit) := by
  obtain rfl : (claimDueBatch settings clock locked limit db).2 = db' := congrArg Prod.snd h
  have hsub := selectDue_sublist db (clock 0) locked limit
  have hnodup := (hsub.map DueRow.id).nodup (dueRows_nodup db (clock 0))
  obtain ⟨hsettlements, hother, hclaimed⟩ := claimRows_attempts settings clock hnodup 1 db id
  by_cases hid : id ∈ (selectDue db (clock 0) locked limit).map DueRow.id
  · obtain ⟨k, attempt, hattempt, hstate, hlease⟩ := hclaimed hid
    refine .claimed k hattempt hstate hlease fun old hold hclaimed' => ?_
    -- what is selected was not claimed
    obtain ⟨row, hrow, rfl⟩ := List.mem_map.mp hid
    obtain ⟨hjoined, -, -, hstates⟩ := mem_dueRows.mp (hsub.subset hrow)
    obtain rfl := Option.some.inj (hold.symm.trans (mem_joinedRows.mp hjoined).2)
    rcases hstates with hs | hs <;> cases hs.symm.trans hclaimed'
  · exact .of_rows (congrArg (AList.lookup id) hsettlements) (hother hid)

theorem finalizeAttempt_rescheduled {token : ℕ} {result : Option ProviderResult}
    {read : SettlementRead} (h : finalizeAttempt clock id' token result db = .ok (read, db')) :
    Rescheduled settings clock db db' id (.finalizeAttempt id' token result) := by
  by_cases hid : id = id'
  · subst hid
    unfold finalizeAttempt at h
    split at h
    · cases h
    · rename_i row _
      split at h
      · cases h
      · rename_i attempt hattempt
        by_cases htoken : attempt.attemptToken = token
        · subst htoken
          rw [if_neg (not_not.mpr rfl)] at h
          by_cases hterminal : row.status.Terminal
          · rw [if_pos hterminal] at h
            cases h
            exact .refl
          · rw [if_neg hterminal] at h
            dsimp only at h
            split at h
            · simp only [bind, Except.bind] at h
              split at h
              · cases h
              · cases h
                exact .completed hattempt (AList.lookup_insert _) rfl rfl
            · simp only [bind, Except.bind] at h
              split at h
              · cases h
              · cases h
                exact .completed hattempt (AList.lookup_insert _) rfl rfl
            · cases h
              exact .pended hattempt (AList.lookup_insert _) rfl rfl
        · rw [if_pos htoken] at h
          cases h
  · obtain ⟨_, _, _, -, -, -, -, -, ⟨-, rfl⟩ | ⟨-, hwrite⟩⟩ := finalizeAttempt_ok h
    · exact .refl
    · exact hwrite.rescheduled hid

/-- **What any transaction does to an attempt.** -/
theorem Transaction.run_rescheduled {reply : t.Reply} (id : UUID)
    (h : t.run settings clock locked db = .ok (reply, db')) :
    Rescheduled settings clock db db' id t := by
  cases t with
  | findByKey ownerId idempotencyKey =>
    cases h
    exact .refl
  | insertReserved new => exact insertReserved_rescheduled h
  | get settlementId =>
    obtain ⟨rfl, -⟩ := run_get_ok h
    exact .refl
  | claimReserved settlementId => exact claimReserved_rescheduled h
  | claimForReconciliation settlementId respectSchedule =>
    exact claimForReconciliation_rescheduled h
  | claimDueBatch limit => exact claimDueBatch_rescheduled (Except.ok.inj h)
  | finalizeAttempt settlementId attemptToken result => exact finalizeAttempt_rescheduled h

end Transactions

/-! ## Leases -/

/-- A transaction that commits in this step has read the clock at readings like these. -/
def Reads (settings : Settings) (readings : Time → Prop) (s s' : State) : Prop :=
  ∀ w t reply acknowledged, s'.trace = ⟨w, .ran t (.ok reply) acknowledged⟩ :: s.trace →
    ∃ clock locked, (∀ k, readings (clock k)) ∧
      t.run settings clock locked s.db = .ok (reply, s'.db)

/-- The system, where no transaction reads a time that is still to come. -/
def timely (settings : Settings) (law : ProviderLaw) (start : Database → Prop) :
    TransitionSystem State :=
  (system settings law start).restrict fun s s' => Reads settings (· ≤ s.clock) s s'

section Leases
variable {settings : Settings} {law : ProviderLaw} {start : Database → Prop} {s s' : State}
  {id : UUID} {attempt : PayoutAttempt}

/-- What a step does to an attempt, where the transactions read the clock like this. -/
theorem Step.rescheduled {readings : Time → Prop} (h : Step settings law s s')
    (hreads : Reads settings readings s s') :
    s'.db = s.db ∨ ∃ w t reply acknowledged clock, s'.trace =
        ⟨w, .ran t (.ok reply) acknowledged⟩ :: s.trace ∧ (∀ k, readings (clock k)) ∧
      ∀ id, Rescheduled settings clock s.db s'.db id t := by
  rcases h.happens with ⟨-, hdb⟩ | ⟨e, htrace, hhappens⟩
  · exact .inl hdb
  · generalize hdb : s'.db = db at hhappens
    cases hhappens with
    | @commits w call t next pending clock' locked' reply db acknowledged =>
      obtain ⟨clock, locked, hclock, hrun⟩ := hreads _ _ _ _ htrace
      rw [← hdb]
      exact .inr ⟨w, t, reply, acknowledged, clock, htrace, hclock,
        fun id => t.run_rescheduled id hrun⟩
    | _ => exact .inl rfl

theorem Step.clock_le (h : Step settings law s s') : s.clock ≤ s'.clock := by
  cases h with
  | wait _ hperforms => cases hperforms <;> exact le_rfl
  | advance _ hperforms => cases hperforms <;> exact le_rfl
  | tick hnow => exact hnow
  | _ => exact le_rfl

/-- The claim was finalized under its token, since this trace. -/
def Finalized (id : UUID) (token : ℕ) (trace : List Event) (s : State) : Prop :=
  ∃ newer w result read acknowledged, s.trace = newer ++ trace ∧
    ⟨w, .ran (.finalizeAttempt id token result) (.ok read) acknowledged⟩ ∈ newer

theorem Finalized.step {token : ℕ} {trace : List Event} (h : Finalized id token trace s)
    (hstep : Step settings law s s') : Finalized id token trace s' := by
  obtain ⟨newer, w, result, read, acknowledged, htrace, hmem⟩ := h
  obtain ⟨newest, hnewest⟩ := hstep.trace_suffix
  refine ⟨newest ++ newer, w, result, read, acknowledged, ?_, List.mem_append_right _ hmem⟩
  rw [← hnewest, htrace, List.append_assoc]

theorem suffix_of_later (h : (timely settings law start).Later s s') : s.trace <:+ s'.trace := by
  induction h with
  | refl => exact List.suffix_rfl
  | tail _ hstep ih => exact ih.trans (Step.trace_suffix hstep.1)

/-- **One step, within the lease**: the claim stays as it is, unless it is finalized. -/
theorem Step.claim_kept (h : (timely settings law start).step s s')
    (hattempt : s.db.attempts.lookup id = some attempt) (hstate : attempt.state = .claimed)
    (hlease : s'.clock < attempt.leaseExpiresAt) :
    s'.db.attempts.lookup id = some attempt ∨ ∃ w result read acknowledged, s'.trace =
      ⟨w, .ran (.finalizeAttempt id attempt.attemptToken result) (.ok read) acknowledged⟩ ::
        s.trace := by
  have hstep : Step settings law s s' := h.1
  have hclock : s.clock ≤ s'.clock := hstep.clock_le
  rcases hstep.rescheduled h.2 with hdb | ⟨w, t, reply, acknowledged, clock, htrace, hreads, hall⟩
  · rw [hdb]
    exact .inl hattempt
  · generalize hdb : s'.db = db at hall
    cases hall id with
    | kept hsame => exact .inl (hsame.trans hattempt)
    | submitted hnone =>
      rw [hattempt] at hnone
      cases hnone
    | claimed k _ _ _ hexpired =>
      have hle := hexpired attempt hattempt hstate
      exact absurd (hle.trans ((hreads 0).trans hclock)) (not_le.mpr hlease)
    | pended hold =>
      obtain rfl := Option.some.inj (hattempt.symm.trans hold)
      exact .inr ⟨w, _, reply, acknowledged, htrace⟩
    | completed hold =>
      obtain rfl := Option.some.inj (hattempt.symm.trans hold)
      exact .inr ⟨w, _, reply, acknowledged, htrace⟩

/-- **A claim is exclusive while its lease lasts.**  In every run in which no transaction
reads a time still to come, and until the clock has reached the lease of a claim, either
the attempt is as it was claimed or a transaction with the token of the claim has
finalized it: no other worker has taken it over, by a batch or by a manual reconcile. -/
theorem lease_exclusive (h : (timely settings law start).Later s s')
    (hattempt : s.db.attempts.lookup id = some attempt) (hstate : attempt.state = .claimed)
    (hlease : s'.clock < attempt.leaseExpiresAt) :
    s'.db.attempts.lookup id = some attempt ∨
      Finalized id attempt.attemptToken s.trace s' := by
  induction h with
  | refl => exact .inl hattempt
  | @tail t u hst hstep ih =>
    have hstep' : Step settings law t u := hstep.1
    rcases ih (hstep'.clock_le.trans_lt hlease) with hkept | hfinalized
    · rcases Step.claim_kept hstep hkept hstate hlease with
        hsame | ⟨w, result, read, acknowledged, htrace⟩
      · exact .inl hsame
      · obtain ⟨newer, hnewer⟩ := suffix_of_later hst
        refine .inr ⟨_ :: newer, w, result, read, acknowledged, ?_, List.mem_cons_self⟩
        rw [htrace, ← hnewer]
        rfl
    · exact .inr (hfinalized.step hstep')

end Leases

/-! ## A manual reconcile within the lease -/

section Sample
variable {settings : Settings} {law : ProviderLaw} {readings : Time → Prop} {s s' : State}
  {w : ℕ} {t : Transaction} {reply : t.Reply} {clock : ℕ → Time} {locked : UUID → Bool}

theorem reads_of_other {action : Action} (htrace : s'.trace = ⟨w, action⟩ :: s.trace)
    (haction : ∀ t outcome acknowledged, action ≠ .ran t outcome acknowledged) :
    Reads settings readings s s' := by
  intro w' t reply acknowledged heq
  rw [htrace] at heq
  injection heq with hevent
  injection hevent with _ hran
  exact absurd hran (haction _ _ _)

theorem reads_of_commit {acknowledged : Bool}
    (htrace : s'.trace = ⟨w, .ran t (.ok reply) acknowledged⟩ :: s.trace)
    (hclock : ∀ k, readings (clock k))
    (hrun : t.run settings clock locked s.db = .ok (reply, s'.db)) :
    Reads settings readings s s' := by
  intro w' t' reply' acknowledged' heq
  rw [htrace] at heq
  injection heq with hevent
  injection hevent with _ hran
  cases hran
  exact ⟨clock, locked, hclock, hrun⟩

theorem lease_exclusive_sample :
    ∃ s s', (timely sampleSettings .contract Database.Unused).Later s s' ∧
      s.db.attempts.lookup 7 = some (sampleAttempt .claimed 1 10000000 (some .unknown)) ∧
      ⟨2, .ran (.claimForReconciliation 7 false) (.ok none) true⟩ ∈ s'.trace ∧
      (s'.db.attempts.lookup 7 = some (sampleAttempt .claimed 1 10000000 (some .unknown)) ∨
        Finalized 7 2 s.trace s') := by
  obtain ⟨⟨⟨db, clock, provider, tasks, trace⟩, workers⟩, -, rfl, rfl, rfl, rfl, rfl, -, hidle⟩ :=
    sample_claimed (C := fun _ => True) sampleStart_unused fun _ _ _ => trivial
  have hrequest : Startable ([] : List PayoutClaim) (.reconcile 7) [] :=
    .request fun _ heq => by cases heq
  have h1 : (timely sampleSettings .contract Database.Unused).Later
      ⟨⟨sampleClaimed, 0, fun _ => none, [], sampleSwept⟩, workers⟩ _ :=
    .single ⟨.start (hidle 2 (by decide) (by decide)) hrequest,
      reads_of_other rfl fun _ _ _ heq => by cases heq⟩
  have hget : (Transaction.get 7).run sampleSettings (fun _ => 0) (fun _ => false) sampleClaimed =
      .ok (.fromOrmSettlement (sampleRow .pendingReconciliation), sampleClaimed) := rfl
  have h2 := h1.tail ⟨.advance (w := 2) rfl (.commits true
    (not_blocked fun _ heq => by cases heq) hget), reads_of_commit rfl (fun _ => le_rfl) hget⟩
  have hclaim : (Transaction.claimForReconciliation 7 false).run sampleSettings (fun _ => 0)
      (fun _ => false) sampleClaimed = .ok (none, sampleClaimed) := rfl
  have h3 := h2.tail ⟨.advance (w := 2) rfl (.commits true
    (not_blocked fun _ heq => by cases heq) hclaim), reads_of_commit rfl (fun _ => le_rfl) hclaim⟩
  have hlease : (0 : Time) < 10000000 := by decide
  exact ⟨_, _, h3, rfl, List.mem_cons_self, lease_exclusive h3 rfl rfl hlease⟩

end Sample

end SettlementRouter
