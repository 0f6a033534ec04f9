import SettlementRouter.MockContract
import SettlementRouter.PayoutDiscipline
import SettlementRouter.ProviderAgreement

/-! # The service with the mock provider

`create_app` gives the service a `MockPayoutProvider` over its own database.  Here the two
run together (`deployed`): a worker that submits a payout starts a call of the mock, which
executes its statements, commits or fails while the other workers go on, also when its
worker has stopped; and a lookup reads the mock's committed rows.

What the service assumes of a provider is then no assumption any more.  Whatever is
reached in the deployment is reached in `system` under `ProviderLaw.contract`, where the
provider has recorded the authoritative outcomes of the mock's rows (`deployed_refines`).
-/
namespace SettlementRouter

open Function (update)

/-- No provider answers. -/
def ProviderLaw.silent : ProviderLaw where
  initiate _ _ := False
  lookup _ _ := False

/-- What `initiate` returns to the service, none for any exception. -/
def answerResult : Except MockError MockAnswer → Option ProviderResult
  | .ok (.result result) => some result
  | _ => none

/-- The service, with the mock in the place of its provider. -/
structure DeployedState where
  /-- The service, whose `provider` stays empty. -/
  service : State
  mock : MockState
  /-- The call of the mock a worker is waiting for. -/
  serving : ℕ → Option ℕ

section Steps
variable (settings : Settings) (instances : Set MockPayoutProvider)

/-- One step of the two: a call that goes out starts a call of the mock, whose answer is the
one it returns. -/
inductive DeployedStep (d : DeployedState) : DeployedState → Prop
  /-- Anything the service does without an answer of the provider. -/
  | serves {service} : Step settings .silent d.service service →
      service.provider = d.service.provider → DeployedStep d { d with service }
  | initiates {w c call id amountUsd targetCurrency quotedAmount next provider} :
      d.service.workers w =
        .running call (.perform (.initiate id amountUsd targetCurrency quotedAmount) next) true →
      d.serving w = none → provider ∈ instances → d.mock.calls c = .idle →
      DeployedStep d { d with
        mock := { d.mock with
          calls := update d.mock.calls c
            (.running id (durableOutcome provider id) none fun _ => none) }
        serving := update d.serving w (some c) }
  /-- A call of the mock goes on, and no other one starts. -/
  | provides {mock} : DurableStep instances d.mock mock →
      (∀ c, d.mock.calls c = .idle → mock.calls c = .idle) → DeployedStep d { d with mock }
  | submitted {w c call id amountUsd targetCurrency quotedAmount next answer} :
      d.service.workers w =
        .running call (.perform (.initiate id amountUsd targetCurrency quotedAmount) next) true →
      d.serving w = some c → .initiated c id answer ∈ d.mock.trace →
      DeployedStep d { d with
        service := { d.service.log w (.answered (.initiate id amountUsd targetCurrency quotedAmount)
            (answered (answerResult answer))) with
          workers := update d.service.workers w
            (.running call (next (answered (answerResult answer))) false) }
        serving := update d.serving w none }
  | asked {w call id next} (answer : Option ProviderLookup) :
      d.service.workers w = .running call (.perform (.lookup id) next) true →
      (∀ lookup, answer = some lookup → d.mock.table.lookup id = .ok lookup) →
      DeployedStep d { d with
        service := { d.service.log w (.answered (.lookup id) (answered answer)) with
          workers := update d.service.workers w (.running call (next (answered answer)) false) } }

/-- The service and the mock, on empty tables of the mock. -/
def deployed (start : Database → Prop) : TransitionSystem DeployedState where
  init d := (system settings .silent start).init d.service ∧
    (durable instances).init d.mock ∧ ∀ w, d.serving w = none
  step := DeployedStep settings instances

end Steps

/-! ## The mock, seen alone -/

section Mock
variable {settings : Settings} {instances : Set MockPayoutProvider} {start : Database → Prop}
  {d : DeployedState} {m m' : MockState} {c : ℕ} {id : UUID} {outcome : MockOutcome}

/-- The mock does what it does alone. -/
theorem durable_of_reachable (h : (deployed settings instances start).Reachable d) :
    (durable instances).Reachable d.mock := by
  refine h.invariant (I := fun d => (durable instances).Reachable d.mock)
    (fun d hinit => ?_) (fun d d' _ hd hstep => ?_)
  · obtain ⟨-, hmock, -⟩ := hinit
    exact .init hmock
  · cases hstep with
    | serves => exact hd
    | initiates _ _ hprovider hidle => exact hd.step (.starts hprovider hidle)
    | provides hstep => exact hd.step hstep
    | submitted => exact hd
    | asked => exact hd

/-- **Only a commit records an outcome**, and for an id that has none. -/
theorem records_of_step (h : Orderly m.table.rows m.calls) (hstep : DurableStep instances m m') :
    m'.registry.records = m.registry.records ∨
      ∃ c id program drawn draft outcome, m.calls c = .running id program drawn draft ∧
        m.registry.records id = none ∧
        m'.registry.records = update m.registry.records id (some outcome) := by
  cases hstep with
  | @commits c id outcome drawn draft hcall =>
    have hrunning : Running m.calls c id (.ret outcome) draft := ⟨drawn, hcall⟩
    obtain ⟨-, row, hread, rfl | ⟨rfl, -⟩⟩ := (h.phase c id _ draft hrunning).ret
    · have hnone := h.uncommitted c id _ _ id hrunning (by rw [wrote_self]; rfl)
      exact .inr ⟨c, id, _, drawn, _, outcome, hcall, by simp [MockState.registry, hnone],
        records_over_wrote hread⟩
    · left
      simp only [MockState.registry, over_none]
  | _ => exact .inl rfl

/-- What `initiate` answers was recorded. -/
theorem recorded_of_initiated (hpermitted : ∀ provider ∈ instances, provider.Permitted)
    (h : (durable instances).Reachable m) {result : ProviderResult}
    (hmem : .initiated c id (.ok (.result result)) ∈ m.trace) :
    ∃ outcome, m.registry.records id = some outcome ∧ outcome.Sound ∧
      outcome.submission = some result := by
  have hkept := Registry.kept_of_reachable (durable_refines hpermitted h).2
  obtain ⟨earlier, ⟨later, htrace⟩, hinitiated⟩ := hkept.log.initiated.of_mem hmem
  obtain ⟨c', outcome, hearlier, hanswer⟩ := hinitiated c id _ rfl
  have hrecorded : .recorded c' id outcome ∈ m.registry.trace := by
    rw [← htrace]
    exact List.mem_append_right _ (List.mem_cons_of_mem _ hearlier)
  exact ⟨outcome, (hkept.records_iff id outcome).mpr ⟨c', hrecorded⟩, hkept.log.sound hrecorded,
    MockOutcome.submission_of_answer hanswer⟩

end Mock

/-! ## The provider of the service -/

section Provider
variable {settings : Settings} {law : ProviderLaw} {start : Database → Prop} {s s' : State}

/-- Without answers the service does the same, whatever the provider has recorded. -/
theorem Performs.under_provider {w : ℕ} {op : Operation} {pending : Bool}
    {outcome : Option (Except ServiceError op.Reply)} {shared : Shared}
    (h : Performs settings .silent s w op pending outcome shared)
    (provider : UUID → Option ProviderOperation) :
    Performs settings law { s with provider } w op pending outcome { shared with provider } := by
  cases h with
  | commits acknowledged hblocked hrun => exact .commits acknowledged hblocked hrun
  | rollsBack hblocked hrun => exact .rollsBack hblocked hrun
  | fails => exact .fails
  | inserts hblocked hrow hinsert => exact .inserts hblocked hrow hinsert
  | quotes outcome hraised => exact .quotes outcome hraised
  | draws id => exact .draws id
  | submits => exact .submits
  | submitted answer hlaw => exact hlaw.elim
  | asks => exact .asks
  | asked answer hlaw => exact hlaw.elim
  | gathers outcome => exact .gathers outcome

theorem Step.under_provider (h : Step settings .silent s s') (hprovider : s'.provider = s.provider)
    (provider : UUID → Option ProviderOperation) :
    Step settings law { s with provider } { s' with provider } := by
  cases h with
  | start hidle hstartable => exact .start hidle hstartable
  | wait hworker hperforms => exact .wait hworker (hperforms.under_provider provider)
  | advance hworker hperforms => exact .advance hworker (hperforms.under_provider provider)
  | stop hworker => exact .stop hworker
  | tick hnow => exact .tick hnow
  | @record w id amountUsd targetCurrency quotedAmount outcome hcalled hnone =>
    have hsame := congrFun hprovider id
    simp [hnone] at hsame

/-- A worker that waits for the provider has called it. -/
theorem called_of_pending (h : (system settings law start).Reachable s) {w : ℕ} {call : Call}
    {id : UUID} {amountUsd : Units} {targetCurrency : Currency} {quotedAmount : Units} {next}
    (hworker : s.workers w =
      .running call (.perform (.initiate id amountUsd targetCurrency quotedAmount) next) true) :
    ⟨w, .called (.initiate id amountUsd targetCurrency quotedAmount)⟩ ∈ s.trace := by
  have hinv : ∀ w call op next, s.workers w = .running call (.perform op next) true →
      ∀ id amountUsd targetCurrency quotedAmount,
        op = .initiate id amountUsd targetCurrency quotedAmount → ⟨w, .called op⟩ ∈ s.trace := by
    refine h.invariant (I := fun s => ∀ w call op next,
      s.workers w = .running call (.perform op next) true →
      ∀ id amountUsd targetCurrency quotedAmount,
        op = .initiate id amountUsd targetCurrency quotedAmount → ⟨w, .called op⟩ ∈ s.trace)
      (fun s hinit => ?_) (fun s s' _ hs hstep => ?_)
    · obtain ⟨-, hidle, -⟩ := hinit
      intro w call op next hworker
      rw [hidle w] at hworker
      cases hworker
    · have hsuffix : s.trace <:+ s'.trace := Step.trace_suffix hstep
      intro v call op next hv id amountUsd targetCurrency quotedAmount hop
      -- an event that is there stays; only the worker that moves has a new program
      have hold (hv : s.workers v = .running call (.perform op next) true) :
          ⟨v, .called op⟩ ∈ s'.trace :=
        hsuffix.subset (hs v call op next hv id amountUsd targetCurrency quotedAmount hop)
      have hupdate {w : ℕ} {worker : Worker}
          (hv : update s.workers w worker v = .running call (.perform op next) true)
          (hself : v = w → worker = .running call (.perform op next) true →
            ⟨v, .called op⟩ ∈ s'.trace) : ⟨v, .called op⟩ ∈ s'.trace := by
        by_cases hne : v = w
        · refine hself hne ?_
          subst hne
          rwa [Function.update_self] at hv
        · exact hold ((Function.update_of_ne hne _ _).symm.trans hv)
      cases hstep with
      | start => exact hupdate hv fun _ heq => by simp at heq
      | @wait w call' op' next' pending shared hworker hperforms =>
        refine hupdate hv fun hvw heq => ?_
        subst hvw
        simp only [Worker.running.injEq] at heq
        obtain ⟨rfl, hprogram, -⟩ := heq
        cases hprogram
        subst hop
        cases hperforms with
        | submits => exact List.mem_cons_self
      | advance => exact hupdate hv fun _ heq => by simp at heq
      | stop => exact hupdate hv fun _ heq => by cases heq
      | tick => exact hold hv
      | record => exact hold hv
  exact hinv w call _ next hworker id amountUsd targetCurrency quotedAmount rfl

end Provider

/-! ## The deployment refines the system -/

/-- The authoritative outcome in the committed row of an id. -/
def MockTable.authority (table : MockTable) (id : UUID) : Option ProviderLookup :=
  (table.rows id).bind fun row => (ProviderLookup.ofValue row.authoritativeOutcome).toOption

/-- The provider of the service has recorded what the rows say, and all calls of the mock
are for calls of the service. -/
structure DeployedState.Shows (d : DeployedState)
    (provider : UUID → Option ProviderOperation) : Prop where
  recorded : ∀ id, (provider id).map (·.outcome) = (d.mock.registry.records id).map (·.authority)
  called : ∀ c id program drawn draft, d.mock.calls c = .running id program drawn draft →
    ∃ w amountUsd targetCurrency quotedAmount,
      ⟨w, .called (.initiate id amountUsd targetCurrency quotedAmount)⟩ ∈ d.service.trace

section Refinement
variable {settings : Settings} {instances : Set MockPayoutProvider} {start : Database → Prop}
  {d d' : DeployedState} {m m' : MockState} {id : UUID}
  {provider : UUID → Option ProviderOperation}

theorem authority_eq (h : Orderly m.table.rows m.calls) (id : UUID) :
    m.table.authority id = (m.registry.records id).map (·.authority) := by
  show (m.table.rows id).bind _ = ((m.table.rows id).bind fun row => row.outcome.toOption).map _
  cases hrow : m.table.rows id with
  | none => rfl
  | some row =>
    obtain ⟨outcome, hread, -⟩ := h.sound id row hrow
    rw [Option.bind_some, Option.bind_some, authority_of_outcome hread, hread]
    rfl

theorem ProviderLookup.value_of_ofValue {value : String} {lookup : ProviderLookup}
    (h : ProviderLookup.ofValue value = .ok lookup) : value = lookup.value := by
  unfold ProviderLookup.ofValue at h
  split at h
  · next found hfound =>
    cases h
    have hvalue := List.find?_some hfound
    exact (of_decide_eq_true hvalue).symm
  · cases h

theorem row_of_authority {table : MockTable} {lookup : ProviderLookup}
    (h : table.authority id = some lookup) :
    ∃ row, table.rows id = some row ∧ row.authoritativeOutcome = lookup.value := by
  obtain ⟨row, hrow, hvalue⟩ := Option.bind_eq_some_iff.mp h
  refine ⟨row, hrow, ProviderLookup.value_of_ofValue ?_⟩
  cases hlookup : ProviderLookup.ofValue row.authoritativeOutcome with
  | error error =>
    rw [hlookup] at hvalue
    cases hvalue
  | ok found =>
    rw [hlookup] at hvalue
    cases hvalue
    rfl

/-- An answer of the mock is one the contract allows. -/
theorem law_of_initiated (hpermitted : ∀ provider ∈ instances, provider.Permitted)
    (h : (durable instances).Reachable m) {c : ℕ} {answer : Except MockError MockAnswer}
    (hmem : .initiated c id answer ∈ m.trace) :
    ProviderLaw.contract.initiate ((m.registry.records id).map (·.authority))
      (answerResult answer) := by
  have hresult {result : ProviderResult} (heq : answerResult answer = some result) :
      ∃ outcome, m.registry.records id = some outcome ∧ outcome.Sound ∧
        outcome.submission = some result := by
    refine recorded_of_initiated hpermitted h (c := c) ?_
    unfold answerResult at heq
    split at heq
    · cases heq
      exact hmem
    · cases heq
  refine ⟨fun hpaid => ?_, fun hunpaid => ?_⟩
  · obtain ⟨outcome, hrecords, hsound, hsubmission⟩ := hresult hpaid
    rw [hrecords, Option.map_some, hsound.paid hsubmission]
  · obtain ⟨outcome, hrecords, hsound, hsubmission⟩ := hresult hunpaid
    rw [hrecords, Option.map_some, hsound.unpaid hsubmission]

theorem law_of_lookup (h : Orderly m.table.rows m.calls) {answer : Option ProviderLookup}
    (hanswer : ∀ lookup, answer = some lookup → m.table.lookup id = .ok lookup) :
    ProviderLaw.contract.lookup ((m.registry.records id).map (·.authority)) answer := by
  have hresult {lookup : ProviderLookup} (heq : answer = some lookup) (hne : lookup ≠ .notFound) :
      (m.registry.records id).map (·.authority) = some lookup := by
    have hlookup := hanswer lookup heq
    rw [lookup_eq h id] at hlookup
    have hlookup' : m.registry.lookup id = lookup := Except.ok.inj hlookup
    unfold Registry.lookup at hlookup'
    cases hrecords : m.registry.records id with
    | none =>
      rw [hrecords] at hlookup'
      exact absurd hlookup'.symm hne
    | some outcome =>
      rw [hrecords] at hlookup'
      exact congrArg some hlookup'
  exact ⟨fun heq => hresult heq nofun, fun heq => hresult heq nofun⟩

/-- A call of the mock that is under way was under way before, for the same id. -/
theorem running_before {c : ℕ} {program : MockProgram MockOutcome} {drawn : Option ℕ}
    {draft : MockRows} (hstep : DurableStep instances m m')
    (hidle : ∀ c, m.calls c = .idle → m'.calls c = .idle)
    (hcall : m'.calls c = .running id program drawn draft) :
    ∃ program drawn draft, m.calls c = .running id program drawn draft := by
  have hupdate {c' : ℕ} {call : MockCall}
      (hcalls : update m.calls c' call c = .running id program drawn draft)
      (hself : c = c' → call = .running id program drawn draft →
        ∃ program drawn draft, m.calls c = .running id program drawn draft) :
      ∃ program drawn draft, m.calls c = .running id program drawn draft := by
    by_cases hne : c = c'
    · refine hself hne ?_
      subst hne
      rwa [Function.update_self] at hcalls
    · rw [Function.update_of_ne hne] at hcalls
      exact ⟨program, drawn, draft, hcalls⟩
  cases hstep with
  | @starts c' provider id' hprovider hidle' =>
    have hcontra := hidle c' hidle'
    dsimp only at hcontra
    rw [Function.update_self] at hcontra
    cases hcontra
  | draws hcall' =>
    refine hupdate hcall fun hne heq => ?_
    cases heq
    exact ⟨_, _, _, hne ▸ hcall'⟩
  | executes hcall' =>
    refine hupdate hcall fun hne heq => ?_
    cases heq
    exact ⟨_, _, _, hne ▸ hcall'⟩
  | looksUp => exact ⟨_, _, _, hcall⟩
  | lookupFails => exact ⟨_, _, _, hcall⟩
  | _ => exact hupdate hcall fun _ heq => by cases heq

/-- **A step of the mock is hidden, or the provider records an operation.** -/
theorem DeployedState.Shows.provides (hshows : d.Shows provider)
    (h : Orderly d.mock.table.rows d.mock.calls) (hstep : DurableStep instances d.mock m')
    (hidle : ∀ c, d.mock.calls c = .idle → m'.calls c = .idle)
    (hreach : (system settings .contract start).Reachable { d.service with provider }) :
    ∃ provider', (system settings .contract start).Reachable { d.service with
      provider := provider' } ∧ DeployedState.Shows { d with mock := m' } provider' := by
  have hcalled : ∀ c id program drawn draft, m'.calls c = .running id program drawn draft →
      ∃ w amountUsd targetCurrency quotedAmount,
        ⟨w, .called (.initiate id amountUsd targetCurrency quotedAmount)⟩ ∈ d.service.trace := by
    intro c id program drawn draft hcall
    obtain ⟨program', drawn', draft', hbefore⟩ := running_before hstep hidle hcall
    exact hshows.called c id program' drawn' draft' hbefore
  rcases records_of_step h hstep with
    hsame | ⟨c, id, program, drawn, draft, outcome, hcall, hnone, hrecords⟩
  · refine ⟨provider, hreach, fun id => ?_, hcalled⟩
    rw [hshows.recorded id, hsame]
  · obtain ⟨w, amountUsd, targetCurrency, quotedAmount, hmem⟩ :=
      hshows.called c id program drawn draft hcall
    have hfree : provider id = none := by
      have hrecorded := hshows.recorded id
      rw [hnone, Option.map_none] at hrecorded
      exact Option.map_eq_none_iff.mp hrecorded
    refine ⟨_, hreach.step (.record outcome.authority hmem hfree), fun id' => ?_, hcalled⟩
    dsimp only
    rw [hrecords]
    by_cases hid : id' = id
    · subst hid
      rw [Function.update_self, Function.update_self]
      rfl
    · rw [Function.update_of_ne hid, Function.update_of_ne hid]
      exact hshows.recorded id'

theorem DeployedState.Shows.of_trace {s : State} (h : d.Shows provider)
    (hsuffix : d.service.trace <:+ s.trace) (serving : ℕ → Option ℕ) :
    DeployedState.Shows { d with service := s, serving } provider where
  recorded := h.recorded
  called c id program drawn draft hcall := by
    obtain ⟨w, amountUsd, targetCurrency, quotedAmount, hmem⟩ :=
      h.called c id program drawn draft hcall
    exact ⟨w, amountUsd, targetCurrency, quotedAmount, hsuffix.subset hmem⟩

/-- **A step of the deployment is hidden, or a step of the system.** -/
theorem DeployedState.Shows.step (hpermitted : ∀ provider ∈ instances, provider.Permitted)
    (hshows : d.Shows provider) (hmock : (durable instances).Reachable d.mock)
    (hreach : (system settings .contract start).Reachable { d.service with provider })
    (hstep : DeployedStep settings instances d d') :
    ∃ provider', (system settings .contract start).Reachable { d'.service with
      provider := provider' } ∧ d'.Shows provider' := by
  have horderly := (durable_refines hpermitted hmock).1
  cases hstep with
  | serves hstep hsame =>
    exact ⟨provider, hreach.step (hstep.under_provider hsame provider),
      hshows.of_trace hstep.trace_suffix _⟩
  | @initiates w c call id amountUsd targetCurrency quotedAmount next instance' hworker _ _ hidle =>
    refine ⟨provider, hreach, hshows.recorded, fun c' id' program drawn draft hcall => ?_⟩
    by_cases hc : c' = c
    · subst hc
      dsimp only at hcall
      rw [Function.update_self] at hcall
      cases hcall
      exact ⟨w, amountUsd, targetCurrency, quotedAmount, called_of_pending hreach hworker⟩
    · dsimp only at hcall
      rw [Function.update_of_ne hc] at hcall
      exact hshows.called c' id' program drawn draft hcall
  | provides hstep hidle => exact hshows.provides horderly hstep hidle hreach
  | @submitted w c call id amountUsd targetCurrency quotedAmount next answer hworker _ hmem =>
    have hlaw := law_of_initiated hpermitted hmock hmem
    rw [← hshows.recorded id] at hlaw
    exact ⟨provider, hreach.step (.advance hworker (.submitted (answerResult answer) hlaw)),
      hshows.of_trace (List.suffix_cons _ _) _⟩
  | @asked w call id next answer hworker hanswer =>
    have hlaw := law_of_lookup horderly hanswer
    rw [← hshows.recorded id] at hlaw
    exact ⟨provider, hreach.step (.advance hworker (.asked answer hlaw)),
      hshows.of_trace (List.suffix_cons _ _) _⟩

/-- **The deployment refines the system**, with what the rows of the mock say as the
provider's records. -/
theorem refines_of_reachable (hpermitted : ∀ provider ∈ instances, provider.Permitted)
    (h : (deployed settings instances start).Reachable d) :
    ∃ provider, (system settings .contract start).Reachable { d.service with provider } ∧
      ∀ id, (provider id).map (·.outcome) = d.mock.table.authority id := by
  have hinv : ∃ provider, (system settings .contract start).Reachable
      { d.service with provider } ∧ d.Shows provider := by
    refine h.invariant (I := fun d => ∃ provider, (system settings .contract start).Reachable
      { d.service with provider } ∧ d.Shows provider) (fun d hinit => ?_) ?_
    · obtain ⟨⟨hstart, hidle, -, htasks, htrace⟩, hmock, -⟩ := hinit
      have hmock' : d.mock = ⟨.empty, fun _ => .idle, []⟩ := hmock
      refine ⟨fun _ => none, .init ⟨hstart, hidle, rfl, htasks, htrace⟩, fun id => ?_,
        fun c id program drawn draft hcall => ?_⟩
      · rw [hmock']
        rfl
      · rw [hmock'] at hcall
        cases hcall
    · rintro d d' hdeployed ⟨provider, hreach, hshows⟩ hstep
      exact hshows.step hpermitted (durable_of_reachable hdeployed) hreach hstep
  obtain ⟨provider, hreach, hshows⟩ := hinv
  refine ⟨provider, hreach, fun id => ?_⟩
  rw [authority_eq (durable_refines hpermitted (durable_of_reachable h)).1 id]
  exact hshows.recorded id

/-- **The service and the mock agree.**  In every state of every run of the deployment the
service is where it can be under the provider's contract, with what the mock's committed
rows say recorded; and a settlement is SUCCESS only where its row says PAID, FAILED only
where it says UNPAID, and no funds are consumed or released otherwise. -/
theorem deployment_agrees (hpermitted : ∀ provider ∈ instances, provider.Permitted)
    (h : (deployed settings instances Database.Unused).Reachable d) :
    (∃ provider, (system settings .contract Database.Unused).Reachable
        { d.service with provider } ∧
      ∀ id, (provider id).map (·.outcome) = d.mock.table.authority id) ∧
    ∀ id, (d.service.db.status id = some .success ∨ 0 < d.service.db.journalCount id .consume →
        ∃ row, d.mock.table.rows id = some row ∧ row.authoritativeOutcome = "PAID") ∧
      (d.service.db.status id = some .failed ∨ 0 < d.service.db.journalCount id .release →
        ∃ row, d.mock.table.rows id = some row ∧ row.authoritativeOutcome = "UNPAID") := by
  have hrefines := refines_of_reachable hpermitted h
  refine ⟨hrefines, fun id => ?_⟩
  obtain ⟨provider, hreach, hrecorded⟩ := hrefines
  obtain ⟨hsuccess, hfailed⟩ := ended_agrees hreach id
  have hsound := sound_of_reachable hreach id
  have hauthority {lookup : ProviderLookup} (heq : (provider id).map (·.outcome) = some lookup) :
      d.mock.table.authority id = some lookup := (hrecorded id).symm.trans heq
  refine ⟨fun hpaid => row_of_authority (hauthority (hsuccess ?_)),
    fun hunpaid => row_of_authority (hauthority (hfailed ?_))⟩
  · exact hpaid.elim (fun hstatus => hstatus) hsound.ended.1
  · exact hunpaid.elim (fun hstatus => hstatus) hsound.ended.2

end Refinement

/-! ## A run of the deployment -/

section Sample
variable {settings : Settings} {instances : Set MockPayoutProvider} {start : Database → Prop}
  {s : State} {d : DeployedState} {m : MockState}

/-- Until the provider is called the deployment does what the service does. -/
theorem deployed_of_reachable (h : (system settings .silent start).Reachable s)
    (hnone : s.provider = fun _ => none) :
    (deployed settings instances start).Reachable
      ⟨s, ⟨.empty, fun _ => .idle, []⟩, fun _ => none⟩ := by
  induction h with
  | init hinit => exact .init ⟨hinit, rfl, fun _ => rfl⟩
  | @step s t _ hstep ih =>
    have hbefore : s.provider = fun _ => none := by
      funext id
      cases hoperation : s.provider id with
      | none => rfl
      | some operation =>
        have hrecorded : s.recorded id = some operation.outcome := by
          rw [Shared.recorded, hoperation, Option.map_some]
        have hlater := Step.recorded hstep hrecorded
        rw [Shared.recorded, hnone] at hlater
        cases hlater
    exact (ih hbefore).step (.serves hstep (hnone.trans hbefore.symm))

/-- The mock goes on with the one call it is busy with. -/
theorem run_provide {service : State} {serving : ℕ → Option ℕ} {call call' : MockCall}
    {table table' : MockTable} {trace trace' : List MockEvent}
    (h : (deployed settings instances start).Reachable
      ⟨service, ⟨table, update (fun _ => .idle) 0 call, trace⟩, serving⟩)
    (hstep : DurableStep instances ⟨table, update (fun _ => .idle) 0 call, trace⟩
      ⟨table', update (update (fun _ => .idle) 0 call) 0 call', trace'⟩) (hcall : call ≠ .idle) :
    (deployed settings instances start).Reachable
      ⟨service, ⟨table', update (fun _ => .idle) 0 call', trace'⟩, serving⟩ := by
  have hidle : ∀ c, update (fun _ => MockCall.idle) 0 call c = .idle →
      update (update (fun _ => MockCall.idle) 0 call) 0 call' c = .idle := by
    intro c hc
    by_cases hne : c = 0
    · subst hne
      rw [Function.update_self] at hc
      exact absurd hc hcall
    · rw [Function.update_of_ne hne, Function.update_of_ne hne]
  have hstep' := h.step (.provides hstep hidle)
  rwa [Function.update_idem] at hstep'

/-- The first call of the default mock is answered that the payout was made. -/
theorem run_paid {service : State} {serving : ℕ → Option ℕ}
    (h : (deployed settings instances start).Reachable ⟨service, ⟨.empty,
      update (fun _ => .idle) 0 (.running 7 (durableOutcome defaultProvider 7) none fun _ => none),
      []⟩, serving⟩) :
    ∃ m, (deployed settings instances start).Reachable ⟨service, m, serving⟩ ∧
      .initiated 0 7 (.ok (.result .paid)) ∈ m.trace := by
  have hready {call : MockCall} {table : MockTable} {trace : List MockEvent} :
      ¬ (MockState.mk table (update (fun _ => .idle) 0 call) trace).Blocked 0 7 := by
    rintro ⟨c, id, program, drawn, draft, hc, hcall, -⟩
    dsimp only at hcall
    rw [Function.update_of_ne hc] at hcall
    cases hcall
  have h1 := run_provide h (.draws rfl) (fun heq => by cases heq)
  have h2 := run_provide h1 (.executes rfl ⟨rfl, hready⟩) (fun heq => by cases heq)
  have h3 := run_provide h2 (.executes rfl trivial) (fun heq => by cases heq)
  have h4 := run_provide h3 (.executes rfl trivial) (fun heq => by cases heq)
  have h5 := run_provide h4 (.commits rfl) (fun heq => by cases heq)
  have h6 := run_provide h5 (.answers rfl) (fun heq => by cases heq)
  exact ⟨_, h6, List.mem_cons_self⟩

/-- The worker is told the result. -/
theorem run_submitted {w c : ℕ} {call : Call} {id : UUID} {amountUsd quotedAmount : Units}
    {targetCurrency : Currency} {next} {result : ProviderResult}
    (h : (deployed settings instances start).Reachable d)
    (hworker : d.service.workers w =
      .running call (.perform (.initiate id amountUsd targetCurrency quotedAmount) next) true)
    (hserving : d.serving w = some c)
    (hmem : .initiated c id (.ok (.result result)) ∈ d.mock.trace) :
    ∃ d', (deployed settings instances start).Reachable d' ∧ d'.service.db = d.service.db ∧
      d'.service.workers w = .running call (next (.ok result)) false :=
  ⟨_, h.step (.submitted hworker hserving hmem), rfl, Function.update_self ..⟩

/-- The worker that creates the sample settlement waits for the provider. -/
theorem sample_submitted : ∃ s, (system sampleSettings .silent Database.Unused).Reachable s ∧
    s.db = sampleSubmitting ∧ s.provider = (fun _ => none) ∧
    ∃ next next', s.workers 0 =
        .running sampleCreate (.perform (.initiate 7 10000000000 .eur 9000000000) next) true ∧
      next (.ok .paid) = .perform (.transaction (.finalizeAttempt 7 1 (some .paid))) next' := by
  obtain ⟨⟨⟨db, clock, provider, tasks, trace⟩, workers⟩, h0, rfl, rfl, rfl, rfl, rfl,
      hworker, -⟩ :=
    sample_reserved_under (C := fun _ => True) .silent sampleStart_unused fun _ _ _ => trivial
  have h1 := run_commit h0 0 (fun _ => 0) _ sampleSubmitting hworker
    (not_blocked fun _ heq => by cases heq) sample_claimReserved trivial
  have h2 := run_wait h1 0 rfl .submits trivial
  exact ⟨_, h2.of_restrict, rfl, rfl, _, _, rfl, rfl⟩

theorem deployment_agrees_paid :
    ∃ d, (deployed sampleSettings {defaultProvider} Database.Unused).Reachable d ∧
      d.service.db.status 7 = some .success ∧
      ∃ row, d.mock.table.rows 7 = some row ∧ row.authoritativeOutcome = "PAID" := by
  obtain ⟨⟨⟨db, clock, provider, tasks, trace⟩, workers⟩, h, rfl, rfl, next, next', hworker,
    hnext⟩ := sample_submitted
  have h1 : (deployed sampleSettings {defaultProvider} Database.Unused).Reachable _ :=
    deployed_of_reachable h rfl
  have h2 := h1.step (.initiates (w := 0) (c := 0) hworker rfl (Set.mem_singleton _) rfl)
  obtain ⟨m, h3, hanswer⟩ := run_paid h2
  obtain ⟨d, h4, hdb, hworker'⟩ := run_submitted h3 hworker rfl hanswer
  rw [hnext] at hworker'
  have hblocked {s : State} : ¬ s.Blocked 0 (.finalizeAttempt 7 1 (some .paid)) :=
    not_blocked fun _ heq => by cases heq
  obtain ⟨reply, db, hfinalize, hstatus⟩ : ∃ reply db,
      (Transaction.finalizeAttempt 7 1 (some .paid)).run sampleSettings (fun _ => 0)
        (fun _ => false) d.service.db = .ok (reply, db) ∧ db.status 7 = some .success := by
    rw [hdb]
    exact ⟨_, _, rfl, rfl⟩
  have h5 := h4.step (.serves (.advance hworker' (.commits true hblocked hfinalize)) rfl)
  have hpermitted : ∀ provider ∈ ({defaultProvider} : Set MockPayoutProvider),
      provider.Permitted := by
    rintro _ rfl
    exact defaultProvider_permitted
  exact ⟨_, h5, hstatus, ((deployment_agrees hpermitted h5).2 7).1 (.inl hstatus)⟩

end Sample

end SettlementRouter
