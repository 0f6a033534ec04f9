import SettlementRouter.CallConduct
import SettlementRouter.JournalEvents
import SettlementRouter.Replies

/-! # Who submits payouts

A call of the provider's `initiate` comes from the worker whose `_claim_reserved`
took the settlement out of `RESERVED`, or from one that holds a later claim and
was just told that the provider knows of no operation.  There is one worker of
the first kind for each settlement, since no settlement goes back to `RESERVED`;
and it submits once, since its history then has the submission in it.

The arguments are those of the committed row, whichever worker calls: every
claim is a view of the row, and of a row only the status is rewritten.
-/
namespace SettlementRouter

/-! ## Claims of reserved settlements -/

/-- The settlement was claimed before. -/
def Lifecycle.Started (l : Lifecycle) : Prop :=
  ∃ status, l.status = some status ∧ status ≠ .reserved

theorem Lifecycle.Move.started {kind : WriteKind} {l l' : Lifecycle} (h : Move kind l l')
    (hl : l.Started) : l'.Started := by
  cases h with
  | reserve =>
    obtain ⟨status, hstatus, -⟩ := hl
    cases hstatus
  | submit => exact ⟨_, rfl, nofun⟩
  | adopt => exact hl
  | claim => exact hl
  | pend => exact ⟨_, rfl, nofun⟩
  | consume => exact ⟨_, rfl, nofun⟩
  | release => exact ⟨_, rfl, nofun⟩

section Claims
variable {settings : Settings} {law : ProviderLaw} {start : Database → Prop} {s : State}
  {v w : ℕ} {id : UUID} {claim claim' : PayoutClaim} {acknowledged acknowledged' : Bool}

theorem started_of_claimed (h : (system settings law start).Reachable s)
    (hclaimed : ⟨w, .ran (.claimReserved id) (.ok (some claim)) acknowledged⟩ ∈ s.trace) :
    (s.db.lifecycle id).Started := by
  refine event_of_reachable (Q := fun e s => ∀ id claim acknowledged,
    e.action = .ran (.claimReserved id) (.ok (some claim)) acknowledged →
      (s.db.lifecycle id).Started)
    (fun s s' e _ _ _ hhappens => ?_) (fun s s' e _ hstep hs => ?_) h _ hclaimed id claim
    acknowledged rfl
  · intro id claim acknowledged haction
    generalize s'.db = db at hhappens ⊢
    cases hhappens with
    | commits _ _ _ hrun =>
      cases haction
      obtain ⟨-, -, hstatus⟩ := (claimReserved_ok hrun).2 claim rfl
      exact ⟨_, hstatus, nofun⟩
    | _ => cases haction
  · exact fun id claim acknowledged haction => hstep.writes.lifecycle
      (fun _ _ _ hmove hl => hmove.started hl) (hs id claim acknowledged haction)

/-- **A reserved settlement is claimed once.** -/
theorem claimed_once (h : (system settings law start).Reachable s) :
    Trace.Throughout (fun e earlier => ∀ v w id claim claim' acknowledged acknowledged',
      e = ⟨v, .ran (.claimReserved id) (.ok (some claim)) acknowledged⟩ →
      ⟨w, .ran (.claimReserved id) (.ok (some claim')) acknowledged'⟩ ∉ earlier) s.trace := by
  refine throughout_of_reachable (fun s e db hreach _ hhappens => ?_) h
  rintro v w id claim claim' acknowledged acknowledged' rfl hmem
  obtain ⟨status, hstatus, hne⟩ := started_of_claimed hreach hmem
  cases hhappens with
  | commits _ _ _ hrun =>
    obtain ⟨-, hreserved, -⟩ := (claimReserved_ok hrun).2 claim rfl
    exact hne (Option.some.inj (hstatus.symm.trans hreserved))

/-- The worker that claimed it is the only one. -/
theorem claimer_unique (h : (system settings law start).Reachable s)
    (hv : ⟨v, .ran (.claimReserved id) (.ok (some claim)) acknowledged⟩ ∈ s.trace)
    (hw : ⟨w, .ran (.claimReserved id) (.ok (some claim')) acknowledged'⟩ ∈ s.trace) : v = w := by
  rcases (claimed_once h).of_mem_mem hv hw with
    heq | ⟨earlier, hmem, honce⟩ | ⟨earlier, hmem, honce⟩
  · cases heq
    rfl
  · exact absurd hmem (honce v w id claim claim' _ _ rfl)
  · exact absurd hmem (honce w v id claim' claim _ _ rfl)

end Claims

/-! ## Calls and their answers -/

section Calls
variable {settings : Settings} {law : ProviderLaw} {start : Database → Prop} {s s' : State}
  {v w : ℕ} {op : Operation} {pending : Bool} {shared : Shared}
  {outcome : Option (Except ServiceError op.Reply)}

theorem Performs.called (h : Performs settings law s w op pending outcome shared)
    {op' : Operation} (hmem : ⟨v, .called op'⟩ ∈ shared.trace) :
    ⟨v, .called op'⟩ ∈ s.trace ∨ v = w ∧ op' = op ∧ outcome = none := by
  cases h with
  | inserts => exact Or.inl hmem
  | submits =>
    rcases List.mem_cons.mp hmem with heq | hmem
    · cases heq
      exact Or.inr ⟨rfl, rfl, rfl⟩
    · exact Or.inl hmem
  | asks =>
    rcases List.mem_cons.mp hmem with heq | hmem
    · cases heq
      exact Or.inr ⟨rfl, rfl, rfl⟩
    · exact Or.inl hmem
  | _ =>
    rcases List.mem_cons.mp hmem with heq | hmem
    · cases heq
    · exact Or.inl hmem

/-- A worker has seen the end of each of its calls, but for the one it is waiting
for. -/
def Answered (s : State) : Prop :=
  ∀ w call program pending, s.workers w = .running call program pending →
    ∀ op, ⟨w, .called op⟩ ∈ s.trace → (∃ r, ⟨op, r⟩ ∈ history w s.trace) ∨
      pending = true ∧ ∃ next, program = .perform op next

theorem answered_of_called (h : (system settings law start).Reachable s) : Answered s := by
  refine h.invariant (I := Answered) (fun s hinit => ?_) (fun s s' hreach hs hstep => ?_)
  · obtain ⟨-, hidle, -⟩ := hinit
    intro w call program pending hw
    rw [hidle w] at hw
    cases hw
  · have hsuffix : s.trace <:+ s'.trace := Step.trace_suffix hstep
    intro v call' program pending' hv op' hcalled
    -- a call that went out before is answered, or waited for where the worker was
    have hold : ∀ call program pending, s.workers v = .running call program pending →
        ⟨v, .called op'⟩ ∈ s.trace → (∃ r, ⟨op', r⟩ ∈ history v s'.trace) ∨
          pending = true ∧ ∃ next, program = .perform op' next := by
      intro call program pending hv hcalled
      exact (hs v call program pending hv op' hcalled).imp_left fun ⟨r, hr⟩ =>
        ⟨r, mem_history_of_suffix hsuffix hr⟩
    cases hstep with
    | @start w call tasks hidle =>
      obtain heq | hbefore := List.mem_cons.mp hcalled
      · cases heq
      by_cases hvw : v = w
      · subst hvw
        exact absurd rfl ((tracked_of_reachable hreach).idle v hidle _ hbefore)
      · exact hold call' program pending' ((Function.update_of_ne hvw _ _).symm.trans hv) hbefore
    | @wait w call op next pending shared hworker hperforms =>
      by_cases hvw : v = w
      · subst hvw
        simp only [Function.update_self, Worker.running.injEq] at hv
        obtain ⟨-, rfl, rfl⟩ := hv
        obtain hbefore | ⟨-, rfl, -⟩ := hperforms.called hcalled
        · exact (hold call _ pending hworker hbefore).imp_right fun hwaiting => ⟨rfl, hwaiting.2⟩
        · exact Or.inr ⟨rfl, next, rfl⟩
      · obtain hbefore | ⟨hvw', -⟩ := hperforms.called hcalled
        · exact hold call' program pending' ((Function.update_of_ne hvw _ _).symm.trans hv) hbefore
        · exact absurd hvw' hvw
    | @advance w call op next pending outcome shared hworker hperforms =>
      obtain hbefore | ⟨-, -, hnone⟩ := hperforms.called hcalled
      · by_cases hvw : v = w
        · subst hvw
          obtain hanswered | ⟨-, next', heq⟩ := hold call _ pending hworker hbefore
          · exact Or.inl hanswered
          · -- the answer is the one this step brings
            cases heq
            obtain ⟨actions, -, hhistory, -⟩ := hperforms.trace
            refine Or.inl ⟨outcome, ?_⟩
            change _ ∈ history v shared.trace
            rw [hhistory]
            exact List.mem_cons_self
        · exact hold call' program pending' ((Function.update_of_ne hvw _ _).symm.trans hv) hbefore
      · cases hnone
    | @stop w call program' pending hworker =>
      by_cases hvw : v = w
      · subst hvw
        simp at hv
      · exact hold call' program pending' ((Function.update_of_ne hvw _ _).symm.trans hv) hcalled
    | tick => exact hold call' program pending' hv hcalled
    | record => exact hold call' program pending' hv hcalled

/-- The tasks to be started were given to `gather`. -/
theorem gathered_of_tasks (h : (system settings law start).Reachable s) :
    ∀ claim ∈ s.tasks, ∃ v claims outcome,
      ⟨v, .answered (.gather claims) outcome⟩ ∈ s.trace ∧ claim ∈ claims := by
  refine h.invariant (I := fun s => ∀ claim ∈ s.tasks, ∃ v claims outcome,
    ⟨v, .answered (.gather claims) outcome⟩ ∈ s.trace ∧ claim ∈ claims) (fun s hinit => ?_) ?_
  · obtain ⟨-, -, -, htasks, -⟩ := hinit
    rw [htasks]
    exact fun claim hclaim => absurd hclaim List.not_mem_nil
  · intro s s' hreach hs hstep claim hclaim
    have hstep' : Step settings law s s' := hstep
    have hold : claim ∈ s.tasks → ∃ v claims outcome,
        ⟨v, .answered (.gather claims) outcome⟩ ∈ s'.trace ∧ claim ∈ claims := by
      intro hclaim
      obtain ⟨v, claims, outcome, hmem, hclaims⟩ := hs claim hclaim
      exact ⟨v, claims, outcome, hstep'.trace_suffix.subset hmem, hclaims⟩
    cases hstep with
    | @start w call tasks _ hstartable =>
      refine hold ?_
      change claim ∈ tasks at hclaim
      generalize s.tasks = waiting at hstartable ⊢
      cases hstartable with
      | request => exact hclaim
      | task =>
        rcases List.mem_append.mp hclaim with hclaim | hclaim
        · exact List.mem_append_left _ hclaim
        · exact List.mem_append_right _ (List.mem_cons_of_mem _ hclaim)
    | wait _ hperforms =>
      cases hperforms <;> exact hold hclaim
    | advance _ hperforms =>
      cases hperforms with
      | @gathers claims _ outcome =>
        rcases List.mem_append.mp hclaim with hclaim | hclaim
        · exact hold hclaim
        · exact ⟨_, claims, outcome, List.mem_cons_self, hclaim⟩
      | _ => exact hold hclaim
    | stop => exact hold hclaim
    | tick => exact hold hclaim
    | record => exact hold hclaim

/-- A task works on a claim a batch has issued. -/
theorem batch_of_task {claim : PayoutClaim} (h : (system settings law start).Reachable s)
    (hstarted : ⟨w, .started (.reconcileClaim claim)⟩ ∈ s.trace) :
    ∃ v limit claims acknowledged,
      ⟨v, .ran (.claimDueBatch limit) (.ok claims) acknowledged⟩ ∈ s.trace ∧ claim ∈ claims := by
  have hgathered : ∃ v claims outcome,
      ⟨v, .answered (.gather claims) outcome⟩ ∈ s.trace ∧ claim ∈ claims := by
    refine event_of_reachable (Q := fun e s => e.action = .started (.reconcileClaim claim) →
      ∃ v claims outcome, ⟨v, .answered (.gather claims) outcome⟩ ∈ s.trace ∧ claim ∈ claims)
      (fun s s' e hreach hstep _ hhappens haction => ?_)
      (fun s s' e _ hstep hs haction => ?_) h _ hstarted rfl
    · have htask : claim ∈ s.tasks := by
        generalize s'.db = db at hhappens
        cases hhappens with
        | @starts w call tasks hidle hstartable =>
          cases haction
          generalize s.tasks = waiting at hstartable ⊢
          cases hstartable with
          | request hcall => exact absurd rfl (hcall claim)
          | task => exact List.mem_append_right _ List.mem_cons_self
        | _ => cases haction
      obtain ⟨v, claims, outcome, hmem, hclaims⟩ := gathered_of_tasks hreach claim htask
      exact ⟨v, claims, outcome, hstep.trace_suffix.subset hmem, hclaims⟩
    · obtain ⟨v, claims, outcome, hmem, hclaims⟩ := hs haction
      exact ⟨v, claims, outcome, hstep.trace_suffix.subset hmem, hclaims⟩
  obtain ⟨v, claims, outcome, hmem, hclaims⟩ := hgathered
  obtain ⟨earlier, hsuffix, hallows⟩ := (allows_of_reachable h).of_mem hmem
  obtain ⟨call, -, hallows⟩ := hallows _ rfl
  cases hallows with
  | gather hbatch =>
    have hseen := mem_history_of_suffix ((List.suffix_cons _ _).trans hsuffix) hbatch
    exact ⟨v, _, claims, true, ran_of_history h hseen, hclaims⟩

end Calls

/-! ## The discipline -/

/-- The worker's own `_claim_reserved` has just claimed the settlement. -/
def Submits (w : ℕ) (id : UUID) (trace : List Event) : Prop :=
  ∃ claim h, history w trace = ⟨.transaction (.claimReserved id), .ok (some claim)⟩ :: h ∧ Quiet h

/-- The worker holds a claim to reconcile the settlement, and its own lookup under
that claim has just found no operation. -/
inductive Resubmits (w : ℕ) (id : UUID) (trace : List Event) : Prop
  | manual {claim h} :
      history w trace = ⟨.lookup id, .ok .notFound⟩ ::
        ⟨.transaction (.claimForReconciliation id false), .ok (some claim)⟩ :: h →
      Quiet h → Resubmits w id trace
  | task {claim v limit claims acknowledged} :
      history w trace = [⟨.lookup id, .ok .notFound⟩] →
      ⟨w, .started (.reconcileClaim claim)⟩ ∈ trace →
      ⟨v, .ran (.claimDueBatch limit) (.ok claims) acknowledged⟩ ∈ trace → claim ∈ claims →
      claim.settlement.id = id → Resubmits w id trace

/-- The arguments of a submission are those of the committed row. -/
def Committed (db : Database) (id : UUID) (amountUsd : Units) (targetCurrency : Currency)
    (quotedAmount : Units) : Prop :=
  ∃ row, db.settlements.lookup id = some row ∧ row.amountUsd = amountUsd ∧
    row.targetCurrency = targetCurrency ∧ row.quotedAmount = quotedAmount

section Discipline
variable {settings : Settings} {law : ProviderLaw} {start : Database → Prop} {s s' : State}
  {w : ℕ} {id : UUID} {amountUsd amountUsd' : Units} {targetCurrency targetCurrency' : Currency}
  {quotedAmount quotedAmount' : Units}

theorem SettlementRead.ViewOf.committed {db : Database} {read : SettlementRead}
    (h : read.ViewOf db) :
    Committed db read.id read.amountUsd read.targetCurrency read.quotedAmount := by
  obtain ⟨row, status, hrow, hread⟩ := h
  exact ⟨row, hrow, (congrArg SettlementRead.amountUsd hread).symm,
    (congrArg SettlementRead.targetCurrency hread).symm,
    (congrArg SettlementRead.quotedAmount hread).symm⟩

theorem Committed.unique {db : Database}
    (h : Committed db id amountUsd targetCurrency quotedAmount)
    (h' : Committed db id amountUsd' targetCurrency' quotedAmount') :
    amountUsd' = amountUsd ∧ targetCurrency' = targetCurrency ∧ quotedAmount' = quotedAmount := by
  obtain ⟨row, hrow, rfl, rfl, rfl⟩ := h
  obtain ⟨row', hrow', rfl, rfl, rfl⟩ := h'
  obtain rfl := Option.some.inj (hrow.symm.trans hrow')
  exact ⟨rfl, rfl, rfl⟩

theorem Committed.extends {db db' : Database}
    (h : Committed db id amountUsd targetCurrency quotedAmount) (hdb : db.Extends db') :
    Committed db' id amountUsd targetCurrency quotedAmount := by
  obtain ⟨row, hrow, hargs⟩ := h
  obtain ⟨status, hrow'⟩ := hdb id row hrow
  exact ⟨row.withStatus status, hrow', hargs⟩

/-- **Every submission is one of the two kinds**, with the arguments of the row. -/
theorem submission_of_step (h : (system settings law start).Reachable s)
    (hstep : Step settings law s s') (hcall : s'.trace =
      ⟨w, .called (.initiate id amountUsd targetCurrency quotedAmount)⟩ :: s.trace) :
    Committed s.db id amountUsd targetCurrency quotedAmount ∧
      (Submits w id s.trace ∨ Resubmits w id s.trace) := by
  have hreach : (system settings law start).Reachable s' := .step h hstep
  have hthroughout := allows_of_reachable hreach
  rw [hcall] at hthroughout
  obtain ⟨call, hstarted, hallows⟩ := hthroughout.1 _ rfl
  dsimp only at hallows hstarted
  -- a claim seen in the history is a view of the row
  have hview : ∀ t claim, ⟨.transaction t, .ok claim⟩ ∈ history w s.trace →
      t.Reports s.db claim := fun t claim => reports_of_history h
  generalize hop : Operation.initiate id amountUsd targetCurrency quotedAmount = op at hallows
  generalize hseen : history w s.trace = seen at hallows hview
  cases hallows with
  | @submit _ _ _ _ h' settlementId claim _ heq hquiet =>
    cases hop
    subst heq
    obtain ⟨rfl, hcommitted⟩ := hview (.claimReserved settlementId) (some claim)
      List.mem_cons_self claim rfl
    exact ⟨hcommitted.committed, Or.inl ⟨claim, h', hseen, hquiet⟩⟩
  | @resubmit _ _ h' claim hclaimed heq =>
    cases hop
    subst heq
    cases hclaimed with
    | task =>
      obtain ⟨v, limit, claims, acknowledged, hbatch, hclaims⟩ := batch_of_task h hstarted
      have hcommitted := reports_of_reachable h hbatch claim hclaims
      exact ⟨hcommitted.committed, Or.inr (.task hseen hstarted hbatch hclaims rfl)⟩
    | @manual settlementId _ h'' hquiet =>
      obtain ⟨rfl, hcommitted⟩ := hview (.claimForReconciliation settlementId false) (some claim)
        (List.mem_cons_of_mem _ List.mem_cons_self) claim rfl
      exact ⟨hcommitted.committed, Or.inr (.manual hseen hquiet)⟩
  | _ => cases hop

/-- All submissions so far carried the arguments of the row. -/
theorem committed_of_called (h : (system settings law start).Reachable s)
    (hcalled : ⟨w, .called (.initiate id amountUsd targetCurrency quotedAmount)⟩ ∈ s.trace) :
    Committed s.db id amountUsd targetCurrency quotedAmount := by
  refine event_of_reachable (Q := fun e s => ∀ id amountUsd targetCurrency quotedAmount,
    e.action = .called (.initiate id amountUsd targetCurrency quotedAmount) →
      Committed s.db id amountUsd targetCurrency quotedAmount)
    (fun s s' e hreach hstep htrace _ => ?_) (fun s s' e _ hstep hs => ?_) h _ hcalled _ _ _ _ rfl
  · rintro id amountUsd targetCurrency quotedAmount haction
    obtain ⟨worker, action⟩ := e
    obtain rfl : action = _ := haction
    exact (submission_of_step hreach hstep htrace).1.extends hstep.writes.extends
  · exact fun id amountUsd targetCurrency quotedAmount haction =>
      (hs id amountUsd targetCurrency quotedAmount haction).extends hstep.writes.extends

/-- What the provider has recorded was submitted. -/
theorem called_of_recorded (h : (system settings law start).Reachable s) :
    ∀ id operation, s.provider id = some operation → ∃ w, ⟨w, .called (.initiate id
      operation.amountUsd operation.targetCurrency operation.quotedAmount)⟩ ∈ s.trace := by
  refine h.invariant (I := fun s => ∀ id operation, s.provider id = some operation →
    ∃ w, ⟨w, .called (.initiate id operation.amountUsd operation.targetCurrency
      operation.quotedAmount)⟩ ∈ s.trace) (fun s hinit => ?_) ?_
  · obtain ⟨-, -, hprovider, -⟩ := hinit
    rw [hprovider]
    nofun
  · intro s s' _ hs hstep id operation hrecorded
    have hstep' : Step settings law s s' := hstep
    have hold : s.provider id = some operation → ∃ w, ⟨w, .called (.initiate id
        operation.amountUsd operation.targetCurrency operation.quotedAmount)⟩ ∈ s'.trace := by
      intro hrecorded
      obtain ⟨w, hmem⟩ := hs id operation hrecorded
      exact ⟨w, hstep'.trace_suffix.subset hmem⟩
    cases hstep with
    | start => exact hold hrecorded
    | wait _ hperforms => exact hold (hperforms.provider ▸ hrecorded)
    | advance _ hperforms => exact hold (hperforms.provider ▸ hrecorded)
    | stop => exact hold hrecorded
    | tick => exact hold hrecorded
    | @record w id' amountUsd targetCurrency quotedAmount outcome hcalled =>
      by_cases hid : id = id'
      · subst hid
        simp only [Function.update_self, Option.some.injEq] at hrecorded
        subst hrecorded
        exact ⟨w, hcalled⟩
      · simp only [Function.update_of_ne hid] at hrecorded
        exact hold hrecorded

/-- A worker that submits has claimed the settlement. -/
theorem Submits.claimed {earlier : List Event} (hsubmits : Submits w id earlier)
    (h : (system settings law start).Reachable s) (hsuffix : earlier <:+ s.trace) :
    ∃ claim, ⟨w, .ran (.claimReserved id) (.ok (some claim)) true⟩ ∈ s.trace := by
  obtain ⟨claim, seen, hseen, -⟩ := hsubmits
  have hmem : ⟨.transaction (.claimReserved id), .ok (some claim)⟩ ∈ history w earlier := by
    rw [hseen]
    exact List.mem_cons_self
  exact ⟨claim, ran_of_history h (mem_history_of_suffix hsuffix hmem)⟩

/-- A worker that claimed the settlement itself calls the provider once. -/
theorem Submits.not_called {op op' : Operation} (hsubmits : Submits w id s.trace)
    (h : (system settings law start).Reachable s) (hstep : Step settings law s s')
    (hcall : s'.trace = ⟨w, .called op⟩ :: s.trace) (hop' : op'.External) :
    ⟨w, .called op'⟩ ∉ s.trace := by
  intro hcalled
  obtain ⟨claim, seen, hseen, hquiet⟩ := hsubmits
  rcases hstep.happens with ⟨hsame, -⟩ | ⟨e, htrace, hhappens⟩
  · exact absurd (hsame.symm.trans hcall) List.ne_cons_self
  · obtain ⟨rfl, -⟩ := List.cons.inj (htrace.symm.trans hcall)
    generalize s'.db = db at hhappens
    cases hhappens with
    | calls hworker =>
      rcases answered_of_called h w _ _ _ hworker op' hcalled with ⟨r, hr⟩ | ⟨hpending, -⟩
      · rw [hseen] at hr
        rcases List.mem_cons.mp hr with heq | hr
        · cases heq
          exact hop'
        · exact hquiet _ hr hop'
      · cases hpending

/-- **Submission discipline.**  A call of `initiate` is made on a committed
reservation and with the arguments of the committed row, as every earlier call
for this settlement was, and as what the provider has recorded for it.  It is the
only one of the worker that took the settlement out of `RESERVED`, or it is made
under a claim by a worker whose lookup has just found no operation.  A worker
that was answered anything else makes no call. -/
theorem submissions_disciplined (h : (system settings law Database.Unused).Reachable s)
    (hstep : Step settings law s s') (hcall : s'.trace =
      ⟨w, .called (.initiate id amountUsd targetCurrency quotedAmount)⟩ :: s.trace) :
    Committed s.db id amountUsd targetCurrency quotedAmount ∧
    s.db.journalCount id .reserve = 1 ∧
    (∀ v amountUsd' targetCurrency' quotedAmount',
      ⟨v, .called (.initiate id amountUsd' targetCurrency' quotedAmount')⟩ ∈ s.trace →
        amountUsd' = amountUsd ∧ targetCurrency' = targetCurrency ∧
          quotedAmount' = quotedAmount) ∧
    (∀ operation, s.provider id = some operation → operation.amountUsd = amountUsd ∧
      operation.targetCurrency = targetCurrency ∧ operation.quotedAmount = quotedAmount) ∧
    (Submits w id s.trace ∧
        (∀ v claim acknowledged,
          ⟨v, .ran (.claimReserved id) (.ok (some claim)) acknowledged⟩ ∈ s.trace → v = w) ∧
        (∀ v amountUsd' targetCurrency' quotedAmount' earlier,
          ⟨v, .called (.initiate id amountUsd' targetCurrency' quotedAmount')⟩ :: earlier <:+
            s.trace → ¬ Submits v id earlier) ∨
      Resubmits w id s.trace) ∧
    ∀ id' r, ⟨.lookup id', r⟩ ∈ history w s.trace → id' = id ∧ r = .ok .notFound := by
  obtain ⟨hcommitted, hkind⟩ := submission_of_step h hstep hcall
  refine ⟨hcommitted, ?_, fun v _ _ _ hcalled => ?_, fun operation hrecorded => ?_, ?_, ?_⟩
  · obtain ⟨row, hrow, -⟩ := hcommitted
    exact ((sound_of_reachable h id).journals (status_of_lookup hrow)).1
  · exact hcommitted.unique (committed_of_called h hcalled)
  · obtain ⟨v, hcalled⟩ := called_of_recorded h id operation hrecorded
    exact hcommitted.unique (committed_of_called h hcalled)
  -- two submissions after a claim share the claim, and the claimer makes one
  · refine hkind.imp_left fun hsubmits => ?_
    obtain ⟨claim, hclaimed⟩ := hsubmits.claimed h (List.suffix_refl _)
    refine ⟨hsubmits, fun v claim' _ hclaimed' => claimer_unique h hclaimed' hclaimed, ?_⟩
    intro v _ _ _ earlier hsuffix hother
    obtain ⟨claim', hclaimed'⟩ := hother.claimed h ((List.suffix_cons _ _).trans hsuffix)
    obtain rfl := claimer_unique h hclaimed' hclaimed
    refine hsubmits.not_called h hstep hcall ?_ (hsuffix.subset List.mem_cons_self)
    trivial
  · intro id' r hr
    -- a submission follows its claim at once; only a retry has looked up before
    rcases hkind with ⟨claim, seen, hseen, hquiet⟩ | hresubmits
    · rw [hseen] at hr
      rcases List.mem_cons.mp hr with heq | hr
      · cases heq
      · exact absurd trivial (hquiet _ hr)
    · cases hresubmits with
      | manual hseen hquiet =>
        rw [hseen] at hr
        rcases List.mem_cons.mp hr with heq | hr
        · cases heq
          exact ⟨rfl, rfl⟩
        · rcases List.mem_cons.mp hr with heq | hr
          · cases heq
          · exact absurd trivial (hquiet _ hr)
      | task hseen =>
        rw [hseen] at hr
        cases List.mem_singleton.mp hr
        exact ⟨rfl, rfl⟩

theorem submissions_disciplined_created :
    ∃ s s', (system sampleSettings .contract Database.Unused).Reachable s ∧
      Step sampleSettings .contract s s' ∧
      s'.trace = ⟨0, .called (.initiate 7 10000000000 .eur 9000000000)⟩ :: s.trace ∧
      Committed s.db 7 10000000000 .eur 9000000000 ∧ s.db.journalCount 7 .reserve = 1 := by
  have hcalled : ⟨0, .called (.initiate 7 10000000000 .eur 9000000000)⟩ ∈ sampleReconciled :=
    List.mem_append_right (sampleReconciled.take 9) List.mem_cons_self
  obtain ⟨s₂, h₂, -, -, htrace⟩ := sample_run sampleStart_unused
  rw [← htrace] at hcalled
  obtain ⟨s, s', h, hstep, hcall⟩ := step_of_event h₂ hcalled
  obtain ⟨hcommitted, hreserve, -⟩ := submissions_disciplined h hstep hcall
  exact ⟨s, s', h, hstep, hcall, hcommitted, hreserve⟩

end Discipline

end SettlementRouter
