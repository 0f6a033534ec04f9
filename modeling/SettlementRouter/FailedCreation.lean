import SettlementRouter.IdempotentCreation
import SettlementRouter.Insertions
import SettlementRouter.LedgerBalance
import SettlementRouter.PayoutDiscipline

/-! # A failed creation leaves nothing

When `create` refuses a command, none of its transactions has committed anything
and it has not called the provider: the transactions that follow the insert do
not end in such an exception, as what the ledger holds for a settlement is always
there to be moved (`Balanced.finalize_error`).

So the call can be taken out of the run.  `State.without` is the state in which
its worker was never used: it is reachable as well, and every run that continues
one of the two continues the other (`failed_creation_atomic`).
-/
namespace SettlementRouter

open Function (update)

/-- The exceptions with which `create` refuses a command. -/
inductive ServiceError.Refusal : ServiceError → Prop
  | idempotencyConflict : Refusal .idempotencyConflict
  | insufficientFunds : Refusal .insufficientFunds
  | routeNotFound : Refusal .routeNotFound
  | lookupError : Refusal .lookupError

/-- The action changes nothing but the trace, and no other worker's steps depend
on it. -/
inductive Action.Silent : Action → Prop
  | started {call} : (∀ claim, call ≠ .reconcileClaim claim) → Silent (.started call)
  | found {ownerId idempotencyKey reply acknowledged} :
      Silent (.ran (.findByKey ownerId idempotencyKey) (.ok reply) acknowledged)
  | rolledBack {t error acknowledged} : Silent (.ran t (.error error) acknowledged)
  | answered {op outcome} : (∀ claims, op ≠ .gather claims) → Silent (.answered op outcome)

/-- What the workers share, without what this one has recorded. -/
def Shared.without (s : Shared) (w : ℕ) : Shared :=
  { s with trace := s.trace.filter fun e => e.worker ≠ w }

/-- The state in which worker `w` was never used. -/
def State.without (s : State) (w : ℕ) : State where
  toShared := s.toShared.without w
  workers := update s.workers w .idle

/-- The worker has ended, and so far it was silent. -/
structure Spent (s : State) (w : ℕ) : Prop where
  ended : (∃ call error pending, s.workers w = .running call (.raise error) pending) ∨
    ∃ call, s.workers w = .stopped call
  silent : ∀ e ∈ s.trace, e.worker = w → e.action.Silent

section Without
variable {settings : Settings} {law : ProviderLaw} {s s' t : State} {v w : ℕ} {action : Action}
  {op : Operation} {pending : Bool} {outcome : Option (Except ServiceError op.Reply)}
  {shared : Shared}

@[simp] theorem Shared.without_log_self (s : Shared) :
    (s.log w action).without w = s.without w := by
  simp [Shared.without, Shared.log]

@[simp] theorem Shared.without_log_of_ne (s : Shared) (hne : v ≠ w) :
    (s.log v action).without w = (s.without w).log v action := by
  simp [Shared.without, Shared.log, hne]

theorem State.without_workers (s : State) (hne : v ≠ w) :
    (s.without w).workers v = s.workers v := Function.update_of_ne hne _ _

theorem State.without_self (s : State) : (s.without w).workers w = .idle :=
  Function.update_self _ _ _

/-- A worker that is not there is in nobody's way. -/
theorem State.Blocked.of_without {transaction : Transaction}
    (h : (s.without w).Blocked v transaction) : s.Blocked v transaction := by
  obtain ⟨new, row, hnew, hrow, u, other, hu, ⟨call, next, hworker⟩, hconflict⟩ := h
  refine ⟨new, row, hnew, hrow, u, other, hu, ⟨call, next, ?_⟩, hconflict⟩
  by_cases huw : u = w
  · subst huw
    rw [s.without_self] at hworker
    cases hworker
  · rwa [s.without_workers huw] at hworker

theorem Spent.not_inserting (hspent : Spent s w) (new : NewSettlement) : ¬ s.Inserting w new := by
  rintro ⟨call, next, hworker⟩
  rcases hspent.ended with ⟨call', error, pending, hended⟩ | ⟨call', hended⟩ <;>
  · rw [hworker] at hended
    cases hended

theorem Spent.blocked_without {transaction : Transaction} (hspent : Spent s w)
    (h : s.Blocked v transaction) : (s.without w).Blocked v transaction := by
  obtain ⟨new, row, hnew, hrow, u, other, hu, hinserting, hconflict⟩ := h
  have huw : u ≠ w := fun huw => hspent.not_inserting other (huw ▸ hinserting)
  obtain ⟨call, next, hworker⟩ := hinserting
  exact ⟨new, row, hnew, hrow, u, other, hu, ⟨call, next, by rwa [s.without_workers huw]⟩,
    hconflict⟩

/-- What a worker performs depends on the trace not at all, and on other workers
only where they block it. -/
theorem Performs.transfer (s₁ : State) (h : Performs settings law s v op pending outcome shared)
    (htrace : s₁.toShared = { s.toShared with trace := s₁.trace })
    (hblocked : ∀ t, s₁.Blocked v t → s.Blocked v t) :
    ∃ actions : List Action, shared.trace = actions.map (Event.mk v) ++ s.trace ∧
      Performs settings law s₁ v op pending outcome
        { shared with trace := actions.map (Event.mk v) ++ s₁.trace } := by
  obtain ⟨⟨db, clock, provider, tasks, trace⟩, workers⟩ := s
  obtain ⟨⟨db₁, clock₁, provider₁, tasks₁, trace₁⟩, workers₁⟩ := s₁
  cases htrace
  cases h with
  | commits acknowledged hnot hrun =>
    exact ⟨[_], rfl, .commits acknowledged (mt (hblocked _) hnot) hrun⟩
  | rollsBack hnot hrun => exact ⟨[_], rfl, .rollsBack (mt (hblocked _) hnot) hrun⟩
  | fails => exact ⟨[_], rfl, .fails⟩
  | inserts hnot hrow hinsert => exact ⟨[], rfl, .inserts (mt (hblocked _) hnot) hrow hinsert⟩
  | quotes outcome hroute => exact ⟨[_], rfl, .quotes outcome hroute⟩
  | draws id => exact ⟨[_], rfl, .draws id⟩
  | submits => exact ⟨[_], rfl, .submits⟩
  | submitted answer hlaw => exact ⟨[_], rfl, .submitted answer hlaw⟩
  | asks => exact ⟨[_], rfl, .asks⟩
  | asked answer hlaw => exact ⟨[_], rfl, .asked answer hlaw⟩
  | gathers outcome => exact ⟨[_], rfl, .gathers outcome⟩

theorem filter_actions (hne : v ≠ w) (actions : List Action) (trace : List Event) :
    (actions.map (Event.mk v) ++ trace).filter (fun e => e.worker ≠ w) =
      actions.map (Event.mk v) ++ trace.filter fun e => e.worker ≠ w := by
  simp [List.filter_append, List.filter_map, Function.comp_def, hne]

/-- What a silent worker performs is not seen by the others. -/
theorem Performs.silent (h : Performs settings law s w op pending outcome shared)
    (hsilent : ∀ e ∈ shared.trace, e.worker = w → e.action.Silent) :
    shared.without w = s.toShared.without w := by
  have hlast : ∀ {action db tasks}, shared = { s.log w action with db, tasks } → action.Silent := by
    rintro action db tasks rfl
    exact hsilent _ List.mem_cons_self rfl
  cases h with
  | commits acknowledged hnot hrun =>
    cases hlast rfl with
    | found =>
      cases hrun
      exact s.toShared.without_log_self
  | inserts => rfl
  | rollsBack | fails | quotes | draws | submitted | asked => exact s.toShared.without_log_self
  | submits => cases hlast rfl
  | asks => cases hlast rfl
  | @gathers claims pending outcome =>
    cases hlast rfl with
    | answered hop => exact absurd rfl (hop claims)

theorem State.without_update (s : State) (shared : Shared) (worker : Worker) (hne : v ≠ w) :
    State.without { shared with workers := update s.workers v worker } w =
      { shared.without w with workers := update (s.without w).workers v worker } :=
  congrArg (State.mk (shared.without w)) (Function.update_comm hne _ _ _)

theorem State.without_update_self (s : State) (shared : Shared) (worker : Worker)
    (hshared : shared.without w = s.toShared.without w) :
    State.without { shared with workers := update s.workers w worker } w = s.without w :=
  congrArg₂ State.mk hshared (Function.update_idem _ _ _)

theorem Startable.tasks_eq {tasks tasks' : List PayoutClaim} {call : Call}
    (h : Startable tasks call tasks') (hcall : ∀ claim, call ≠ .reconcileClaim claim) :
    tasks' = tasks := by
  cases h with
  | request => rfl
  | task => exact absurd rfl (hcall _)

/-- **Without a silent worker, forward**: a step is a step of the others, or the
worker's own and then none at all. -/
theorem Step.without (h : Step settings law s s')
    (hsilent : ∀ e ∈ s'.trace, e.worker = w → e.action.Silent) :
    s'.without w = s.without w ∨ Step settings law (s.without w) (s'.without w) := by
  cases h with
  | @start v call tasks hv hstartable =>
    by_cases hne : v = w
    · subst hne
      left
      -- a task would be missing from the tasks, but it does not start silently
      cases hsilent _ List.mem_cons_self rfl with
      | started hcall =>
        obtain rfl := hstartable.tasks_eq hcall
        exact s.without_update_self _ _ s.toShared.without_log_self
    · right
      have hshared : Shared.without { s.toShared.log v (.started call) with tasks } w =
          { (s.toShared.without w).log v (.started call) with tasks } := by
        simp [Shared.without, Shared.log, hne]
      rw [State.without_update _ { s.toShared.log v (.started call) with tasks } _ hne, hshared]
      exact .start ((s.without_workers hne).trans hv) hstartable
  | @wait v call op next pending shared hv hperforms =>
    by_cases hne : v = w
    · subst hne
      exact .inl (s.without_update_self _ _ (hperforms.silent hsilent))
    · right
      obtain ⟨actions, htrace, hperforms⟩ :=
        hperforms.transfer (s.without w) rfl fun _ => State.Blocked.of_without
      rw [State.without_update _ _ _ hne, Shared.without, htrace, filter_actions hne]
      exact .wait ((s.without_workers hne).trans hv) hperforms
  | @advance v call op next pending outcome shared hv hperforms =>
    by_cases hne : v = w
    · subst hne
      exact .inl (s.without_update_self _ _ (hperforms.silent hsilent))
    · right
      obtain ⟨actions, htrace, hperforms⟩ :=
        hperforms.transfer (s.without w) rfl fun _ => State.Blocked.of_without
      rw [State.without_update _ _ _ hne, Shared.without, htrace, filter_actions hne]
      exact .advance ((s.without_workers hne).trans hv) hperforms
  | @stop v call program pending hv =>
    by_cases hne : v = w
    · subst hne
      exact .inl (s.without_update_self _ _ rfl)
    · right
      rw [State.without_update _ _ _ hne]
      exact .stop ((s.without_workers hne).trans hv)
  | tick hnow => exact .inr (.tick hnow)
  | @record v id amountUsd targetCurrency quotedAmount outcome hcalled hnone =>
    right
    have hne : v ≠ w := fun hne => by cases hsilent _ hcalled hne
    exact .record (s := s.without w) outcome
      (List.mem_filter.mpr ⟨hcalled, decide_eq_true hne⟩) hnone

/-- A run without its silent worker is a run. -/
theorem reachable_without {start : Database → Prop} (h : (system settings law start).Reachable s)
    (hsilent : ∀ e ∈ s.trace, e.worker = w → e.action.Silent) :
    (system settings law start).Reachable (s.without w) := by
  induction h with
  | @init s hinit =>
    refine .init ⟨hinit.1, fun v => ?_, hinit.2.2.1, hinit.2.2.2.1, ?_⟩
    · by_cases hne : v = w
      · exact hne ▸ s.without_self
      · exact (s.without_workers hne).trans (hinit.2.1 v)
    · simp [State.without, Shared.without, hinit.2.2.2.2]
  | step _ hstep ih =>
    have ih := ih fun e he => hsilent e (hstep.trace_suffix.subset he)
    rcases hstep.without hsilent with heq | hstep'
    · exact heq ▸ ih
    · exact .step ih hstep'

theorem Spent.not_running {call : Call} {next} (hspent : Spent s w) :
    s.workers w ≠ .running call (.perform op next) pending := by
  intro hworker
  rcases hspent.ended with ⟨call', error, pending', hended⟩ | ⟨call', hended⟩ <;>
  · rw [hworker] at hended
    cases hended

theorem Spent.not_idle (hspent : Spent s w) : s.workers w ≠ .idle := by
  intro hworker
  rcases hspent.ended with ⟨call, error, pending, hended⟩ | ⟨call, hended⟩ <;>
  · rw [hworker] at hended
    cases hended

/-- A worker that has ended does nothing more. -/
theorem Spent.step (hspent : Spent s w) (h : Step settings law s s') : Spent s' w := by
  -- a step of another worker
  have hother : ∀ {v worker} (shared : Shared) (actions : List Action), v ≠ w →
      shared.trace = actions.map (Event.mk v) ++ s.trace →
      Spent { shared with workers := update s.workers v worker } w := by
    intro v worker shared actions hne htrace
    refine ⟨?_, fun e he hw => ?_⟩
    · simpa only [Function.update_of_ne hne.symm] using hspent.ended
    · rw [htrace] at he
      rcases List.mem_append.mp he with he | he
      · obtain ⟨action, -, rfl⟩ := List.mem_map.mp he
        exact absurd hw hne
      · exact hspent.silent e he hw
  cases h with
  | @start v call tasks hv _ =>
    have hne : v ≠ w := fun hne => hspent.not_idle (hne ▸ hv)
    exact hother { s.log v (.started call) with tasks } [.started call] hne rfl
  | @wait v call op next pending shared hv hperforms =>
    obtain ⟨actions, htrace, -⟩ := hperforms.trace
    exact hother _ actions (fun hne => hspent.not_running (hne ▸ hv)) htrace
  | @advance v call op next pending outcome shared hv hperforms =>
    obtain ⟨actions, htrace, -⟩ := hperforms.trace
    exact hother _ actions (fun hne => hspent.not_running (hne ▸ hv)) htrace
  | @stop v call program pending hv =>
    by_cases hne : v = w
    · subst hne
      exact ⟨.inr ⟨call, Function.update_self _ _ _⟩, hspent.silent⟩
    · exact hother _ [] hne rfl
  | tick _ => exact ⟨hspent.ended, hspent.silent⟩
  | record _ _ _ => exact ⟨hspent.ended, hspent.silent⟩

/-- **Forward**: what follows a silent worker's end follows without it. -/
theorem Spent.later {start : Database → Prop} (hspent : Spent s w)
    (hs : (system settings law start).Reachable s) (h : (system settings law start).Later s s') :
    (system settings law start).Later (s.without w) (s'.without w) := by
  have hstep : ∀ s t u, (system settings law start).Reachable s → Spent s w ∧ u = s.without w →
      (system settings law start).step s t →
      ∃ v, (system settings law start).Later u v ∧ Spent t w ∧ v = t.without w := by
    rintro s t _ - ⟨hspent, rfl⟩ hstep
    have hspent' := hspent.step hstep
    rcases Step.without hstep hspent'.silent with heq | hstep'
    · exact ⟨_, .refl, hspent', heq.symm⟩
    · exact ⟨_, .single hstep', hspent', rfl⟩
  obtain ⟨u, hlater, -, rfl⟩ := h.simulates hstep hs ⟨hspent, rfl⟩
  exact hlater

/-- **Backward**: a step without it is a step with it. -/
theorem Spent.step_back (hspent : Spent s w) (h : Step settings law (s.without w) t)
    (hidle : t.workers w = .idle) : ∃ s', Step settings law s s' ∧ s'.without w = t := by
  -- the step is one of another worker, as the worker itself is idle
  have hback : ∀ {v op pending outcome shared} , v ≠ w →
      Performs settings law (s.without w) v op pending outcome shared →
      ∃ shared', Performs settings law s v op pending outcome shared' ∧
        shared'.without w = shared := by
    intro v op pending outcome shared hne hperforms
    obtain ⟨actions, htrace, hperforms'⟩ :=
      hperforms.transfer s rfl fun _ => hspent.blocked_without
    refine ⟨_, hperforms', ?_⟩
    rw [Shared.without, filter_actions hne]
    exact congrArg (fun trace => { shared with trace }) htrace.symm
  have hother : ∀ {v call program pending},
      (s.without w).workers v = .running call program pending → v ≠ w := by
    rintro v call program pending hv rfl
    rw [s.without_self] at hv
    cases hv
  cases h with
  | @start v call tasks hv hstartable =>
    have hne : v ≠ w := by
      rintro rfl
      cases (Function.update_self _ _ _).symm.trans hidle
    refine ⟨_, .start ((s.without_workers hne).symm.trans hv) hstartable, ?_⟩
    rw [State.without_update _ { s.toShared.log v (.started call) with tasks } _ hne]
    simp [Shared.without, Shared.log, hne, State.without]
  | @wait v call op next pending shared hv hperforms =>
    have hne := hother hv
    obtain ⟨shared', hperforms', rfl⟩ := hback hne hperforms
    exact ⟨_, .wait ((s.without_workers hne).symm.trans hv) hperforms', s.without_update _ _ hne⟩
  | @advance v call op next pending outcome shared hv hperforms =>
    have hne := hother hv
    obtain ⟨shared', hperforms', rfl⟩ := hback hne hperforms
    exact ⟨_, .advance ((s.without_workers hne).symm.trans hv) hperforms',
      s.without_update _ _ hne⟩
  | @stop v call program pending hv =>
    have hne := hother hv
    exact ⟨_, .stop ((s.without_workers hne).symm.trans hv), s.without_update _ _ hne⟩
  | tick hnow => exact ⟨_, .tick hnow, rfl⟩
  | record outcome hcalled hnone =>
    exact ⟨_, .record outcome (List.mem_of_mem_filter hcalled) hnone, rfl⟩

theorem Step.idle (h : Step settings law s s') (hidle : s'.workers w = .idle) :
    s.workers w = .idle := by
  cases h with
  | @start v _ _ hv _ =>
    by_cases hne : w = v
    · exact hne ▸ hv
    · exact (Function.update_of_ne hne _ _).symm.trans hidle
  | @wait v _ _ _ _ _ _ _ | @advance v _ _ _ _ _ _ _ _ | @stop v _ _ _ _ =>
    by_cases hne : w = v
    · subst hne
      cases (Function.update_self _ _ _).symm.trans hidle
    · exact (Function.update_of_ne hne _ _).symm.trans hidle
  | tick _ => exact hidle
  | record _ _ _ => exact hidle

theorem Spent.later_back {start : Database → Prop} (hspent : Spent s w)
    (h : (system settings law start).Later (s.without w) t) (hidle : t.workers w = .idle) :
    ∃ s', (system settings law start).Later s s' ∧ Spent s' w ∧ s'.without w = t := by
  induction h with
  | refl => exact ⟨s, .refl, hspent, rfl⟩
  | tail _ hstep ih =>
    obtain ⟨s', hlater, hspent', rfl⟩ := ih (hstep.idle hidle)
    obtain ⟨s'', hstep', hs''⟩ := hspent'.step_back hstep hidle
    exact ⟨s'', hlater.tail hstep', hspent'.step hstep', hs''⟩

end Without

/-! ## Refusals -/

section Refusals
variable {settings : Settings} {law : ProviderLaw} {owners : List String}
  {opening : String → Units} {s : State} {w : ℕ} {ownerId idempotencyKey : String}
  {command : SettlementCreate} {error : ServiceError} {pending : Bool}

theorem claimReserved_error {clock : ℕ → Time} {id : UUID} {db : Database}
    (h : claimReserved settings clock id db = .error error) : ¬ error.Refusal := by
  unfold claimReserved at h
  split at h
  · cases h
    exact fun hrefusal => by cases hrefusal
  · split at h
    · cases h
    · simp only [bind, Except.bind, insertAttempt, pure, Except.pure] at h
      split at h
      · rename_i hinsert
        cases h
        split at hinsert
        · cases hinsert
          exact fun hrefusal => by cases hrefusal
        · split at hinsert
          · cases hinsert
            exact fun hrefusal => by cases hrefusal
          · cases hinsert
      · cases h

theorem run_get_error {clock : ℕ → Time} {locked : UUID → Bool} {id : UUID} {db : Database}
    (h : (Transaction.get id).run settings clock locked db = .error error) :
    error = .settlementNotFound := by
  have hget : (get id db).map (fun read => (read, db)) = .error error := h
  unfold get at hget
  split at hget <;> cases hget
  rfl

/-- What follows the insert does not end in a refusal. -/
theorem late_error {t : Transaction} (ht : t.Late)
    (h : (system settings law (Opening owners opening)).Reachable s)
    (hseen : ⟨.transaction t, .error error⟩ ∈ history w s.trace) : ¬ error.Refusal := by
  rcases ended_of_history h List.suffix_rfl hseen with hdatabase | hran
  · cases hdatabase
    exact nofun
  obtain ⟨s₁, s₂, hs₁, hstep, htrace⟩ := step_of_event h hran
  rcases hstep.happens with ⟨heq, -⟩ | ⟨e, htrace', hhappens⟩
  · exact absurd (htrace.symm.trans heq) (List.cons_ne_self _ _)
  obtain ⟨rfl, -⟩ := List.cons.inj (htrace.symm.trans htrace')
  generalize s₂.db = db at hhappens
  cases hhappens with
  | rollsBack _ _ hrun =>
    cases ht with
    | claimReserved => exact claimReserved_error hrun
    | get =>
      obtain rfl := run_get_error hrun
      exact nofun
    | @finalizeAttempt id token result =>
      obtain ⟨-, -, -, -, hfinalize⟩ := balances_of_reachable hs₁
      rcases hfinalize _ _ _ _ _ hrun with rfl | rfl <;> exact nofun

/-- Only the provider is called. -/
theorem external_of_called {start : Database → Prop} {v : ℕ} {op : Operation}
    (h : (system settings law start).Reachable s) (hcalled : ⟨v, .called op⟩ ∈ s.trace) :
    op.External := by
  refine h.invariant (I := fun s => ∀ v op, ⟨v, .called op⟩ ∈ s.trace → op.External) ?_ ?_
    v op hcalled
  · rintro s ⟨-, -, -, -, htrace⟩ v op hcalled
    rw [htrace] at hcalled
    cases hcalled
  · intro s s' _ ih hstep v op hcalled
    cases hstep with
    | start =>
      rcases List.mem_cons.mp hcalled with heq | hcalled
      · cases heq
      · exact ih v op hcalled
    | wait _ hperforms =>
      cases hperforms with
      | inserts => exact ih v op hcalled
      | submits | asks =>
        rcases List.mem_cons.mp hcalled with heq | hcalled
        · cases heq
          trivial
        · exact ih v op hcalled
    | advance _ hperforms =>
      rcases hperforms.called hcalled with hcalled | ⟨-, -, hnone⟩
      · exact ih v op hcalled
      · cases hnone
    | stop => exact ih v op hcalled
    | tick => exact ih v op hcalled
    | record => exact ih v op hcalled

/-- How a call of `create` was refused: nothing so far had any effect. -/
theorem barren_of_refused
    (h : (system settings law (Opening owners opening)).Reachable s)
    (hraised : s.workers w =
      .running (.create ownerId idempotencyKey command) (.raise error) pending)
    (herror : error.Refusal) : ∀ entry ∈ history w s.trace, Barren entry := by
  have hmeets : (Call.program settings (.create ownerId idempotencyKey command)).Meets
      (InsertsRequested settings (.create ownerId idempotencyKey command)) Accounted [] := by
    refine Program.meets_map.mpr (create_requests.mono fun h r hr error heq => ?_)
    cases r with
    | ok read => cases heq
    | error error' =>
      cases heq
      exact hr _ rfl
  have haccounted := ((tracked_of_reachable h).path _ _ _ _ hraised).meets hmeets
  cases haccounted error rfl with
  | barren hbarren => exact hbarren
  | late ht hmem => exact absurd herror (late_error ht h hmem)
  | database heq =>
    subst heq
    cases herror

theorem spent_of_refused
    (h : (system settings law (Opening owners opening)).Reachable s)
    (hraised : s.workers w =
      .running (.create ownerId idempotencyKey command) (.raise error) pending)
    (herror : error.Refusal) : Spent s w := by
  refine ⟨.inl ⟨_, _, _, hraised⟩, ?_⟩
  have hbarren := barren_of_refused h hraised herror
  have hseen : ∀ {action entry}, ⟨w, action⟩ ∈ s.trace → action.seen = some entry → Barren entry :=
    fun hmem hseen => hbarren _ (List.mem_filterMap.mpr ⟨_, hmem, by simp [hseen]⟩)
  rintro ⟨v, action⟩ hmem rfl
  cases action with
  | started call =>
    obtain rfl := ((tracked_of_reachable h).call _ _ _ _ hraised call).mp hmem
    exact .started fun _ heq => by cases heq
  | called op =>
    have hexternal := external_of_called h hmem
    rcases answered_of_called h v _ _ _ hraised op hmem with ⟨r, hanswered⟩ | ⟨-, next, hnext⟩
    · cases hbarren _ hanswered <;> cases hexternal
    · cases hnext
  | ran t outcome acknowledged =>
    cases outcome with
    | error error => exact .rolledBack
    | ok reply =>
      cases acknowledged with
      | true =>
        cases hseen hmem rfl with
        | find => exact .found
      | false =>
        cases hseen hmem rfl with
        | find => exact .found
        | insert hdatabase => exact absurd rfl hdatabase
  | answered op outcome =>
    refine .answered fun claims hop => ?_
    subst hop
    cases hseen hmem rfl

/-- **Failed creation is atomic.**  A `create` that has raised one of its refusals
has changed nothing in the database and called no provider.  The run without it is
a run as well, and both go on in the same ways.  Its key is free unless another
call has taken it. -/
theorem failed_creation_atomic
    (h : (system settings law (Opening owners opening)).Reachable s)
    (hraised : s.workers w =
      .running (.create ownerId idempotencyKey command) (.raise error) pending)
    (herror : error.Refusal) :
    (∀ s₁ s₂ action, (system settings law (Opening owners opening)).Reachable s₁ →
      Step settings law s₁ s₂ → (system settings law (Opening owners opening)).Later s₂ s →
      s₂.trace = ⟨w, action⟩ :: s₁.trace →
      s₂.db = s₁.db ∧ ∀ op, op.External → action ≠ .called op) ∧
    (system settings law (Opening owners opening)).Reachable (s.without w) ∧
    (∀ s', (system settings law (Opening owners opening)).Later s s' →
      (system settings law (Opening owners opening)).Later (s.without w) (s'.without w)) ∧
    (∀ t, (system settings law (Opening owners opening)).Later (s.without w) t →
      t.workers w = .idle → ∃ s', (system settings law (Opening owners opening)).Later s s' ∧
        s'.without w = t) ∧
    ((∀ v new acknowledged, v ≠ w →
        ⟨v, .ran (.insertReserved new) (.ok ()) acknowledged⟩ ∈ s.trace →
        ¬ (new.ownerId = ownerId ∧ new.idempotencyKey = idempotencyKey)) →
      findByKey s.db ownerId idempotencyKey = none) := by
  have hspent := spent_of_refused h hraised herror
  refine ⟨fun s₁ s₂ action hs₁ hstep hlater htrace => ?_, reachable_without h hspent.silent,
    fun s' => hspent.later h, fun t hlater hidle => ?_, fun hothers => ?_⟩
  · have hmem : ⟨w, action⟩ ∈ s.trace :=
      (trace_suffix_of_later (hs₁.step hstep) hlater).subset (htrace ▸ List.mem_cons_self)
    have hsilent := hspent.silent _ hmem rfl
    rcases hstep.happens with ⟨heq, -⟩ | ⟨e, htrace', hhappens⟩
    · exact absurd (htrace.symm.trans heq) (List.cons_ne_self _ _)
    obtain ⟨rfl, -⟩ := List.cons.inj (htrace.symm.trans htrace')
    -- no silent action commits a write or calls the provider
    refine ⟨hhappens.db_eq ?_, fun op _ hcalled => ?_⟩
    · cases hsilent with
      | @rolledBack t => cases t <;> exact id
      | started | found | answered => exact id
    · subst hcalled
      cases hsilent
  · obtain ⟨s', hlater', -, hs'⟩ := hspent.later_back hlater hidle
    exact ⟨s', hlater', hs'⟩
  · have hunused := reachable_of_start (fun _ hdb => hdb.unused) h
    refine findByKey_eq_none.mpr fun id row hrow hkey => ?_
    obtain ⟨v, _, _, _, new, acknowledged, hran, rfl, -⟩ := requested_of_lookup hunused hrow
    obtain ⟨row', status, hrow', hlookup⟩ := reports_of_reachable hunused hran
    obtain rfl := Option.some.inj (hrow.symm.trans hlookup)
    obtain ⟨howner, hidempotency, -⟩ := NewSettlement.row_ok hrow'
    -- the call itself has inserted no row, so the row of the key would be another's
    refine hothers v new acknowledged (fun hv => ?_) hran
      ⟨howner.symm.trans hkey.1, hidempotency.symm.trans hkey.2⟩
    subst hv
    cases hspent.silent _ hran rfl

/-- There was no route. -/
theorem failed_creation_atomic_unrouted :
    ∃ s, (system sampleSettings .contract (Opening ["ada"] fun _ => 50000000000)).Reachable s ∧
      s.workers 0 = .running sampleCreate (.raise .routeNotFound) false ∧
      (system sampleSettings .contract (Opening ["ada"] fun _ => 50000000000)).Reachable
        (s.without 0) ∧ findByKey s.db "ada" "key-1" = none := by
  have h0 : (within sampleSettings .contract (Opening ["ada"] fun _ => 50000000000)
      fun _ => True).Reachable ⟨⟨sampleStart, 0, fun _ => none, [], []⟩, fun _ => .idle⟩ :=
    .init ⟨sampleStart_opening, fun _ => rfl, rfl, rfl, rfl⟩
  have h1 := run_start h0 0 sampleCreate rfl (fun _ heq => by cases heq) trivial
  have h2 := run_commit h1 0 (fun _ => 0) none sampleStart rfl
    (not_blocked fun _ heq => by cases heq) rfl trivial
  have h3 := run_advance h2 0 rfl
    (.quotes (.error .routeNotFound) fun _ heq => (Except.error.inj heq).symm) trivial
  obtain ⟨s, h, hworker, hran⟩ : ∃ s,
      (system sampleSettings .contract (Opening ["ada"] fun _ => 50000000000)).Reachable s ∧
      s.workers 0 = .running sampleCreate (.raise .routeNotFound) false ∧
      ∀ v new acknowledged, ⟨v, .ran (.insertReserved new) (.ok ()) acknowledged⟩ ∉ s.trace :=
    ⟨_, h3.of_restrict, rfl, fun v new acknowledged hran => by simp [Shared.log] at hran⟩
  obtain ⟨-, hwithout, -, -, hfree⟩ := failed_creation_atomic h hworker .routeNotFound
  exact ⟨s, h, hworker, hwithout, hfree fun v new acknowledged _ hmem =>
    absurd hmem (hran v new acknowledged)⟩

end Refusals

end SettlementRouter
