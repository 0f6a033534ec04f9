import SettlementRouter.System
import SettlementRouter.Writes

/-! # Runs of the system

The rules by which results about the parts become results about runs.

* A step changes the database by the writes of at most one transaction
  (`Step.writes`), so what lifecycle moves keep holds of every settlement in
  every reachable state (`Reachable.lifecycle`).
* A worker's program is where its own history has taken it (`Tracked`), so what
  a call's program meets holds at every operation performed in a run
  (`Reachable.performs`).
-/
namespace SettlementRouter

open Function (update)

/-! ## What a step records -/

/-- The operation an action is a part of. -/
def Action.operation : Action → Option Operation
  | started _ => none
  | called op => some op
  | ran t _ _ => some (.transaction t)
  | answered op _ => some op

/-- The operation the worker has seen the end of, with its outcome. -/
def Action.seen : Action → Option ((op : Operation) × Except ServiceError op.Reply)
  | started _ => none
  | called _ => none
  | ran t outcome true => some ⟨.transaction t, outcome⟩
  | ran t _ false => some ⟨.transaction t, .error .databaseError⟩
  | answered op outcome => some ⟨op, outcome⟩

/-- The history of worker `w`, as its program has seen it. -/
def history (w : ℕ) (trace : List Event) : History Operation Operation.Reply ServiceError :=
  trace.filterMap fun e => if e.worker = w then e.action.seen else none

section History
variable {v w : ℕ} {action : Action} {trace : List Event}

theorem history_cons_self :
    history w (⟨w, action⟩ :: trace) = action.seen.toList ++ history w trace := by
  cases hseen : action.seen <;> simp [history, hseen]

theorem history_cons_of_ne (hne : v ≠ w) :
    history v (⟨w, action⟩ :: trace) = history v trace := by
  simp [history, hne.symm]

theorem history_of_absent (h : ∀ e ∈ trace, e.worker ≠ w) : history w trace = [] := by
  refine List.filterMap_eq_nil_iff.mpr fun e he => ?_
  rw [if_neg (h e he)]

/-- What is in a worker's history was recorded in the trace. -/
theorem mem_history {entry : (op : Operation) × Except ServiceError op.Reply}
    (h : entry ∈ history w trace) :
    ∃ action, ⟨w, action⟩ ∈ trace ∧ action.seen = some entry := by
  obtain ⟨⟨worker, action⟩, he, hseen⟩ := List.mem_filterMap.mp h
  dsimp only at hseen
  split at hseen
  · rename_i hw
    obtain rfl : worker = w := hw
    exact ⟨action, he, hseen⟩
  · cases hseen

/-- Where in the trace the last entry of a history is. -/
theorem history_eq_cons {entry : (op : Operation) × Except ServiceError op.Reply}
    {rest : History Operation Operation.Reply ServiceError} (h : history w trace = entry :: rest) :
    ∃ later action earlier, trace = later ++ ⟨w, action⟩ :: earlier ∧
      action.seen = some entry ∧ history w earlier = rest := by
  induction trace with
  | nil => cases h
  | cons e trace ih =>
    obtain ⟨v, action⟩ := e
    have hlater : history w trace = entry :: rest → ∃ later action' earlier,
        ⟨v, action⟩ :: trace = later ++ ⟨w, action'⟩ :: earlier ∧
          action'.seen = some entry ∧ history w earlier = rest := by
      intro hrest
      obtain ⟨later, action', earlier, rfl, hseen, hrest⟩ := ih hrest
      exact ⟨⟨v, action⟩ :: later, action', earlier, rfl, hseen, hrest⟩
    by_cases hv : v = w
    · subst hv
      rw [history_cons_self] at h
      cases hseen : action.seen with
      | none =>
        rw [hseen] at h
        exact hlater h
      | some entry' =>
        rw [hseen] at h
        cases h
        exact ⟨[], action, trace, rfl, hseen, rfl⟩
    · rw [history_cons_of_ne (Ne.symm hv)] at h
      exact hlater h

/-- A history is never forgotten. -/
theorem mem_history_of_suffix {earlier : List Event}
    {entry : (op : Operation) × Except ServiceError op.Reply} (h : earlier <:+ trace)
    (hmem : entry ∈ history w earlier) : entry ∈ history w trace :=
  (h.sublist.filterMap _).subset hmem

end History

section Steps
variable (settings : Settings) (law : ProviderLaw)

/-- What an operation may answer when no transaction is committed. -/
def Answers (s : Shared) : (op : Operation) → Except ServiceError op.Reply → Prop
  | .transaction _, outcome => outcome = .error .databaseError
  | .quote _, outcome => ∀ error, outcome = .error error → error = .routeNotFound
  | .uuid4, outcome => ∃ id, outcome = .ok id
  | .initiate id _ _ _, outcome =>
    ∃ answer, law.initiate (s.recorded id) answer ∧ outcome = answered answer
  | .lookup id, outcome => ∃ answer, law.lookup (s.recorded id) answer ∧ outcome = answered answer
  | .gather _, _ => True

/-- The event can happen in this state, and leaves this database. -/
inductive Happens (s : State) : Event → Database → Prop
  | starts {w call tasks} : s.workers w = .idle → Startable s.tasks call tasks →
      Happens s ⟨w, .started call⟩ s.db
  | calls {w call op next} : s.workers w = .running call (.perform op next) false →
      Happens s ⟨w, .called op⟩ s.db
  | commits {w call t next pending clock locked reply db} (acknowledged : Bool) :
      s.workers w = .running call (.perform (.transaction t) next) pending →
      ¬ s.Blocked w t → t.run settings clock locked s.db = .ok (reply, db) →
      Happens s ⟨w, .ran t (.ok reply) acknowledged⟩ db
  | rollsBack {w call t next pending clock locked error} :
      s.workers w = .running call (.perform (.transaction t) next) pending →
      ¬ s.Blocked w t → t.run settings clock locked s.db = .error error →
      Happens s ⟨w, .ran t (.error error) true⟩ s.db
  | answers {w call op next pending outcome} :
      s.workers w = .running call (.perform op next) pending → Answers law s.toShared op outcome →
      Happens s ⟨w, .answered op outcome⟩ s.db

variable {settings : Settings} {law : ProviderLaw} {s s' : State} {e : Event} {db : Database}

/-- **A step records at most one event**, and the database changes only with it. -/
theorem Step.happens (h : Step settings law s s') :
    s'.trace = s.trace ∧ s'.db = s.db ∨
      ∃ e, s'.trace = e :: s.trace ∧ Happens settings law s e s'.db := by
  cases h with
  | start hidle hstartable => exact Or.inr ⟨_, rfl, .starts hidle hstartable⟩
  | wait hworker hperforms =>
    cases hperforms with
    | inserts => exact Or.inl ⟨rfl, rfl⟩
    | submits => exact Or.inr ⟨_, rfl, .calls hworker⟩
    | asks => exact Or.inr ⟨_, rfl, .calls hworker⟩
  | advance hworker hperforms =>
    cases hperforms with
    | commits acknowledged hblocked hrun =>
      exact Or.inr ⟨_, rfl, .commits acknowledged hworker hblocked hrun⟩
    | rollsBack hblocked hrun => exact Or.inr ⟨_, rfl, .rollsBack hworker hblocked hrun⟩
    | fails => exact Or.inr ⟨_, rfl, .answers hworker rfl⟩
    | quotes outcome herror => exact Or.inr ⟨_, rfl, .answers hworker herror⟩
    | draws id => exact Or.inr ⟨_, rfl, .answers hworker ⟨id, rfl⟩⟩
    | submitted answer hlaw => exact Or.inr ⟨_, rfl, .answers hworker ⟨answer, hlaw, rfl⟩⟩
    | asked answer hlaw => exact Or.inr ⟨_, rfl, .answers hworker ⟨answer, hlaw, rfl⟩⟩
    | gathers outcome => exact Or.inr ⟨_, rfl, .answers hworker trivial⟩
  | stop => exact Or.inl ⟨rfl, rfl⟩
  | tick => exact Or.inl ⟨rfl, rfl⟩
  | record => exact Or.inl ⟨rfl, rfl⟩

theorem Happens.writes (h : Happens settings law s e db) : Writes s.db db := by
  cases h with
  | commits _ _ _ hrun => exact Transaction.run_writes hrun
  | _ => exact .refl

/-- **A step commits a sequence of writes.** -/
theorem Step.writes (h : Step settings law s s') : Writes s.db s'.db := by
  rcases h.happens with ⟨-, hdb⟩ | ⟨e, -, hhappens⟩
  · rw [hdb]
  · exact hhappens.writes

theorem Step.trace_suffix (h : Step settings law s s') : s.trace <:+ s'.trace := by
  rcases h.happens with ⟨htrace, -⟩ | ⟨e, htrace, -⟩
  · rw [htrace]
  · rw [htrace]
    exact List.suffix_cons e s.trace

end Steps

/-! ## Runs -/

/-- No settlement was ever created. -/
structure Database.Unused (db : Database) : Prop where
  settlements_eq : db.settlements = ∅
  attempts_eq : db.attempts = ∅
  journals : ∀ journal ∈ db.journals, journal.settlementId = none

theorem Database.Unused.lifecycle {db : Database} (h : db.Unused) (id : UUID) :
    db.lifecycle id = ⟨none, none, fun _ => 0⟩ := by
  have hcount : db.journalCount id = fun _ => 0 := by
    funext event
    refine List.countP_eq_zero.mpr fun journal hjournal => ?_
    simp [h.journals journal hjournal]
  rw [Database.lifecycle, Database.status, h.settlements_eq, h.attempts_eq, hcount]
  rfl

theorem Database.Unused.sound {db : Database} (h : db.Unused) (id : UUID) :
    (db.lifecycle id).Sound := by
  rw [h.lifecycle id]
  exact ⟨rfl, rfl, rfl, rfl⟩

section Runs
variable {settings : Settings} {law : ProviderLaw} {start : Database → Prop} {s s' : State}

/-- Fewer databases to start on, fewer runs. -/
theorem reachable_of_start {start' : Database → Prop} (hstart : ∀ db, start db → start' db)
    (h : (system settings law start).Reachable s) : (system settings law start').Reachable s := by
  induction h with
  | init hinit => exact .init ⟨hstart _ hinit.1, hinit.2⟩
  | step _ hstep ih => exact .step ih hstep

/-- **What moves keep holds of every settlement**, in every reachable state. -/
theorem lifecycle_of_reachable {P : Lifecycle → Prop}
    (hmove : ∀ kind l l', Lifecycle.Move kind l l' → P l → P l')
    (hstart : ∀ db, start db → ∀ id, P (db.lifecycle id))
    (h : (system settings law start).Reachable s) (id : UUID) : P (s.db.lifecycle id) := by
  refine h.invariant (I := fun s => ∀ id, P (s.db.lifecycle id)) ?_ ?_ id
  · exact fun s hinit => hstart s.db hinit.1
  · exact fun s t _ hs hstep id => hstep.writes.lifecycle hmove (hs id)

/-- **Settlements are sound** in every state reached from an unused database. -/
theorem sound_of_reachable (h : (system settings law Database.Unused).Reachable s) (id : UUID) :
    (s.db.lifecycle id).Sound :=
  lifecycle_of_reachable (fun _ _ _ hmove hl => hmove.sound hl) (fun _ hdb => hdb.sound) h id

theorem writes_of_later (h : (system settings law start).Later s s') : Writes s.db s'.db := by
  induction h with
  | refl => exact .refl
  | tail _ hstep ih => exact ih.trans (Step.writes hstep)

theorem trace_suffix_of_later (hs : (system settings law start).Reachable s)
    (h : (system settings law start).Later s s') : s.trace <:+ s'.trace :=
  h.relates (R := fun s s' => s.trace <:+ s'.trace) (fun s => List.suffix_refl s.trace)
    (fun _ _ _ => List.IsSuffix.trans)
    (fun _ _ _ (hstep : Step settings law _ _) => hstep.trace_suffix) hs

/-- **Trace rule.** What holds of every event when it happens holds throughout
the trace of a reachable state. -/
theorem throughout_of_reachable {P : Event → List Event → Prop}
    (hhappens : ∀ s e db, (system settings law start).Reachable s →
      Trace.Throughout P s.trace → Happens settings law s e db → P e s.trace)
    (h : (system settings law start).Reachable s) : Trace.Throughout P s.trace := by
  refine h.invariant (I := fun s => Trace.Throughout P s.trace) (fun s hinit => ?_) ?_
  · obtain ⟨-, -, -, -, htrace⟩ := hinit
    rw [htrace]
    trivial
  · intro s t hreach hs hstep
    rcases hstep.happens with ⟨htrace, -⟩ | ⟨e, htrace, hhappen⟩
    · rwa [htrace]
    · rw [htrace]
      exact ⟨hhappens s e t.db hreach hs hhappen, hs⟩

/-- **Event rule.** What holds of an event once it has happened, and is kept by
every step, holds of every event of the trace. -/
theorem event_of_reachable {Q : Event → State → Prop}
    (hhappens : ∀ s s' e, (system settings law start).Reachable s → Step settings law s s' →
      s'.trace = e :: s.trace → Happens settings law s e s'.db → Q e s')
    (hkeeps : ∀ s s' e, (system settings law start).Reachable s → Step settings law s s' →
      Q e s → Q e s')
    (h : (system settings law start).Reachable s) : ∀ e ∈ s.trace, Q e s := by
  refine h.invariant (I := fun s => ∀ e ∈ s.trace, Q e s) (fun s hinit => ?_) ?_
  · obtain ⟨-, -, -, -, htrace⟩ := hinit
    rw [htrace]
    exact fun e he => absurd he List.not_mem_nil
  · intro s s' hreach hs (hstep : Step settings law s s') e he
    rcases hstep.happens with ⟨htrace, -⟩ | ⟨e', htrace, hhappen⟩
    · exact hkeeps s s' e hreach hstep (hs e (htrace ▸ he))
    · rw [htrace] at he
      rcases List.mem_cons.mp he with rfl | he
      · exact hhappens s s' e hreach hstep htrace hhappen
      · exact hkeeps s s' e hreach hstep (hs e he)

/-- Every event of the trace is that of a step of the run. -/
theorem step_of_event {e : Event} (h : (system settings law start).Reachable s)
    (he : e ∈ s.trace) : ∃ s₁ s₂, (system settings law start).Reachable s₁ ∧
      Step settings law s₁ s₂ ∧ s₂.trace = e :: s₁.trace :=
  event_of_reachable (Q := fun e _ => ∃ s₁ s₂, (system settings law start).Reachable s₁ ∧
    Step settings law s₁ s₂ ∧ s₂.trace = e :: s₁.trace)
    (fun s s' _ hreach hstep htrace _ => ⟨s, s', hreach, hstep, htrace⟩) (fun _ _ _ _ _ => id)
    h e he

/-- A transaction that was not run has failed. -/
theorem answered_of_reachable {w : ℕ} {t : Transaction} {outcome : Except ServiceError t.Reply}
    (h : (system settings law start).Reachable s)
    (hanswered : ⟨w, .answered (.transaction t) outcome⟩ ∈ s.trace) :
    outcome = .error .databaseError := by
  refine event_of_reachable (Q := fun e _ => ∀ t outcome,
    e.action = .answered (.transaction t) outcome → outcome = .error .databaseError)
    (fun s s' e _ _ _ hhappens => ?_) (fun _ _ _ _ _ => id) h _ hanswered t outcome rfl
  intro t outcome haction
  generalize s'.db = db at hhappens
  cases hhappens with
  | answers _ hanswers => cases haction; exact hanswers
  | _ => cases haction

/-! ## Workers and their histories -/

/-- Every worker is where its history has taken the program of its call. -/
structure Tracked (settings : Settings) (s : State) : Prop where
  idle : ∀ w, s.workers w = .idle → ∀ e ∈ s.trace, e.worker ≠ w
  path : ∀ w call program pending, s.workers w = .running call program pending →
    (call.program settings).Path (history w s.trace) program
  call : ∀ w call program pending, s.workers w = .running call program pending →
    ∀ call', ⟨w, .started call'⟩ ∈ s.trace ↔ call' = call

/-- An event of one worker changes nothing for the others. -/
theorem Tracked.of_ne {s s' : State} (hs : Tracked settings s) (w : ℕ) (actions : List Action)
    (htrace : s'.trace = actions.map (Event.mk w) ++ s.trace)
    (hworkers : ∀ v, v ≠ w → s'.workers v = s.workers v)
    (hidle : s'.workers w ≠ .idle)
    (hpath : ∀ call program pending, s'.workers w = .running call program pending →
      (call.program settings).Path (history w s'.trace) program ∧
        ∀ call', ⟨w, .started call'⟩ ∈ s'.trace ↔ call' = call) : Tracked settings s' := by
  have hhistory : ∀ v, v ≠ w → history v s'.trace = history v s.trace := by
    intro v hv
    rw [htrace]
    clear htrace
    induction actions with
    | nil => rfl
    | cons action actions ih => exact (history_cons_of_ne hv).trans ih
  have hmem : ∀ v, v ≠ w → ∀ action, ⟨v, action⟩ ∈ s'.trace ↔ ⟨v, action⟩ ∈ s.trace := by
    intro v hv action
    simp [htrace, hv.symm]
  refine ⟨fun v hv e he => ?_, fun v call program pending hv => ?_,
    fun v call program pending hv => ?_⟩
  · by_cases hvw : v = w
    · exact absurd (hvw ▸ hv) hidle
    · intro hworker
      rw [hworkers v hvw] at hv
      obtain ⟨worker, action⟩ := e
      obtain rfl : worker = v := hworker
      exact hs.idle worker hv _ ((hmem worker hvw action).mp he) rfl
  · by_cases hvw : v = w
    · subst hvw
      exact (hpath call program pending hv).1
    · rw [hhistory v hvw]
      exact hs.path v call program pending (hworkers v hvw ▸ hv)
  · by_cases hvw : v = w
    · subst hvw
      exact (hpath call program pending hv).2
    · intro call'
      rw [hmem v hvw]
      exact hs.call v call program pending (hworkers v hvw ▸ hv) call'

/-- What performing an operation, or a part of it, records. -/
theorem Performs.trace {w : ℕ} {op : Operation} {pending : Bool} {shared : Shared}
    {outcome : Option (Except ServiceError op.Reply)}
    (h : Performs settings law s w op pending outcome shared) :
    ∃ actions : List Action, shared.trace = actions.map (Event.mk w) ++ s.trace ∧
      history w shared.trace = (outcome.map (Sigma.mk op)).toList ++ history w s.trace ∧
      ∀ call, .started call ∉ actions := by
  cases h with
  | commits acknowledged =>
    refine ⟨[_], rfl, ?_, by simp⟩
    cases acknowledged <;> exact history_cons_self
  | inserts => exact ⟨[], rfl, rfl, by simp⟩
  | _ => exact ⟨[_], rfl, history_cons_self, by simp⟩

/-- Only the provider records. -/
theorem Performs.provider {w : ℕ} {op : Operation} {pending : Bool} {shared : Shared}
    {outcome : Option (Except ServiceError op.Reply)}
    (h : Performs settings law s w op pending outcome shared) :
    shared.provider = s.provider := by
  cases h <;> rfl

/-- A worker that performs an operation stays on the path of its call. -/
theorem Tracked.performed {w : ℕ} {call : Call} {op : Operation} {pending pending' : Bool}
    {next : Except ServiceError op.Reply → Service Response}
    {outcome : Option (Except ServiceError op.Reply)} {shared : Shared}
    {program : Service Response} (hs : Tracked settings s)
    (hworker : s.workers w = .running call (.perform op next) pending)
    (hperforms : Performs settings law s w op pending outcome shared)
    (hpath : (call.program settings).Path (history w shared.trace) program) :
    Tracked settings { shared with
      workers := Function.update s.workers w (.running call program pending') } := by
  obtain ⟨actions, htrace, -, hnot⟩ := hperforms.trace
  refine hs.of_ne w actions htrace (fun v hv => Function.update_of_ne hv _ _) (by simp)
    fun call' program' pending'' hw => ?_
  simp only [Function.update_self, Worker.running.injEq] at hw
  obtain ⟨rfl, rfl, -⟩ := hw
  refine ⟨hpath, fun call' => ?_⟩
  change _ ∈ shared.trace ↔ _
  rw [htrace, ← hs.call w call _ pending hworker call']
  simp [hnot]

/-- **Workers are tracked** in every reachable state. -/
theorem tracked_of_reachable (h : (system settings law start).Reachable s) :
    Tracked settings s := by
  refine h.invariant (I := Tracked settings) (fun s hinit => ?_) (fun s t _ hs hstep => ?_)
  · obtain ⟨-, hidle, -, -, htrace⟩ := hinit
    refine ⟨fun w _ e he => ?_, fun w call program pending hw => ?_,
      fun w call program pending hw => ?_⟩
    · rw [htrace] at he
      cases he
    · rw [hidle w] at hw
      cases hw
    · rw [hidle w] at hw
      cases hw
  · cases hstep with
    | @start w call tasks hidle =>
      have habsent := hs.idle w hidle
      refine hs.of_ne w [.started call] rfl
        (fun v hv => Function.update_of_ne hv _ _) (by simp) fun call' program pending hw => ?_
      simp only [Function.update_self, Worker.running.injEq] at hw
      obtain ⟨rfl, rfl, -⟩ := hw
      refine ⟨?_, fun call' => ?_⟩
      -- nothing of an earlier call is left, as a worker makes one call
      · have hempty : history w (⟨w, .started call⟩ :: s.trace) = [] := by
          rw [history_cons_self, history_of_absent habsent]
          rfl
        change (call.program settings).Path (history w (⟨w, .started call⟩ :: s.trace)) _
        rw [hempty]
        exact .refl
      · constructor
        · intro hmem
          rcases List.mem_cons.mp hmem with heq | hmem
          · cases heq
            rfl
          · exact absurd rfl (habsent _ hmem)
        · rintro rfl
          exact List.mem_cons_self
    | @wait w call op next pending shared hworker hperforms =>
      refine hs.performed hworker hperforms ?_
      obtain ⟨-, -, hhistory, -⟩ := hperforms.trace
      rw [hhistory]
      exact hs.path w call _ pending hworker
    | @advance w call op next pending outcome shared hworker hperforms =>
      refine hs.performed hworker hperforms ?_
      obtain ⟨-, -, hhistory, -⟩ := hperforms.trace
      rw [hhistory]
      exact .step outcome (hs.path w call _ pending hworker)
    | @stop w call program pending hworker =>
      exact hs.of_ne w [] rfl (fun v hv => Function.update_of_ne hv _ _)
        (by simp) fun call' program' pending' hw => by simp at hw
    | tick => exact ⟨hs.idle, hs.path, hs.call⟩
    | record => exact ⟨hs.idle, hs.path, hs.call⟩

/-- What a worker does first is to start. -/
theorem started_first (h : (system settings law start).Reachable s) :
    Trace.Throughout (fun e earlier => ∀ w call, e = ⟨w, .started call⟩ →
      ∀ e' ∈ earlier, e'.worker ≠ w) s.trace := by
  refine throughout_of_reachable (fun s e db hreach _ hhappens => ?_) h
  rintro w call rfl
  cases hhappens with
  | starts hidle => exact (tracked_of_reachable hreach).idle w hidle

/-- A worker runs one call. -/
theorem started_unique {w : ℕ} {call call' : Call} (h : (system settings law start).Reachable s)
    (hcall : ⟨w, .started call⟩ ∈ s.trace) (hcall' : ⟨w, .started call'⟩ ∈ s.trace) :
    call = call' := by
  rcases (started_first h).of_mem_mem hcall hcall' with
    heq | ⟨earlier, hmem, hw⟩ | ⟨earlier, hmem, hw⟩
  · cases heq
    rfl
  · exact absurd rfl (hw w call rfl _ hmem)
  · exact absurd rfl (hw w call' rfl _ hmem)

/-- **What programs meet holds throughout a run**: every operation is performed
in accordance with the program of its worker's call. -/
theorem performs_of_reachable
    {pre : Call → History Operation Operation.Reply ServiceError → Operation → Prop}
    (hpre : ∀ call : Call, ∃ post, (call.program settings).Meets (pre call) post [])
    (h : (system settings law start).Reachable s) :
    Trace.Throughout (fun e earlier => ∀ op, e.action.operation = some op →
      ∃ call, ⟨e.worker, .started call⟩ ∈ earlier ∧ pre call (history e.worker earlier) op)
      s.trace := by
  refine throughout_of_reachable (fun s e db hreach _ hhappens op hop => ?_) h
  have htracked := tracked_of_reachable hreach
  have key : ∀ {w call op next pending},
      s.workers w = .running call (.perform op next) pending →
      ∃ call, ⟨w, .started call⟩ ∈ s.trace ∧ pre call (history w s.trace) op := by
    intro w call op next pending hw
    obtain ⟨post, hmeets⟩ := hpre call
    exact ⟨call, (htracked.call w call _ pending hw call).mpr rfl,
      ((htracked.path w call _ pending hw).meets hmeets).1⟩
  cases hhappens with
  | starts => cases hop
  | calls hw => cases hop; exact key hw
  | commits _ hw => cases hop; exact key hw
  | rollsBack hw => cases hop; exact key hw
  | answers hw => cases hop; exact key hw

end Runs

/-! ## A run

One settlement through the system, for the results that need an example of a
run: `create` reserves the funds and submits the payout, which times out; the
background pass claims the settlement; and its task learns that the payout was
made.
-/

section Building
variable {settings : Settings} {law : ProviderLaw} {start : Database → Prop} {C : State → Prop}
  {s : State} {call : Call} {op : Operation} {t : Transaction} {pending : Bool}

/-- The runs that stay in `C`. -/
abbrev within (settings : Settings) (law : ProviderLaw) (start : Database → Prop)
    (C : State → Prop) : TransitionSystem State :=
  (system settings law start).restrict fun _ s' => C s'

theorem run_start (h : (within settings law start C).Reachable s) (w : ℕ) (call : Call)
    (hidle : s.workers w = .idle) (hcall : ∀ claim, call ≠ .reconcileClaim claim)
    (hC : C { s.log w (.started call) with
      workers := update s.workers w (.running call (call.program settings) false) }) :
    (within settings law start C).Reachable { s.log w (.started call) with
      workers := update s.workers w (.running call (call.program settings) false) } :=
  .step h ⟨.start hidle (.request hcall), hC⟩

theorem run_task (h : (within settings law start C).Reachable s) (w : ℕ) (claim : PayoutClaim)
    (hidle : s.workers w = .idle) (htasks : s.tasks = [claim])
    (hC : C { s.log w (.started (.reconcileClaim claim)) with
      tasks := []
      workers := update s.workers w
        (.running (.reconcileClaim claim) ((Call.reconcileClaim claim).program settings) false) }) :
    (within settings law start C).Reachable { s.log w (.started (.reconcileClaim claim)) with
      tasks := []
      workers := update s.workers w
        (.running (.reconcileClaim claim) ((Call.reconcileClaim claim).program settings)
          false) } := by
  have hstartable : Startable ([] ++ claim :: []) (.reconcileClaim claim) ([] ++ []) := .task
  exact .step h ⟨.start hidle (htasks ▸ hstartable), hC⟩

theorem run_commit {next} (h : (within settings law start C).Reachable s) (w : ℕ)
    (clock : ℕ → Time) (reply : t.Reply) (db : Database)
    (hw : s.workers w = .running call (.perform (.transaction t) next) pending)
    (hblocked : ¬ s.Blocked w t)
    (hrun : t.run settings clock (fun _ => false) s.db = .ok (reply, db))
    (hC : C { s.log w (.ran t (.ok reply) true) with
      db
      workers := update s.workers w (.running call (next (.ok reply)) false) }) :
    (within settings law start C).Reachable { s.log w (.ran t (.ok reply) true) with
      db
      workers := update s.workers w (.running call (next (.ok reply)) false) } :=
  .step h ⟨.advance hw (.commits true hblocked hrun), hC⟩

theorem run_advance {next outcome shared} (h : (within settings law start C).Reachable s) (w : ℕ)
    (hw : s.workers w = .running call (.perform op next) pending)
    (hperforms : Performs settings law s w op pending (some outcome) shared)
    (hC : C { shared with workers := update s.workers w (.running call (next outcome) false) }) :
    (within settings law start C).Reachable { shared with
      workers := update s.workers w (.running call (next outcome) false) } :=
  .step h ⟨.advance hw hperforms, hC⟩

theorem run_wait {next shared} (h : (within settings law start C).Reachable s) (w : ℕ)
    (hw : s.workers w = .running call (.perform op next) pending)
    (hperforms : Performs settings law s w op pending none shared)
    (hC : C { shared with
      workers := update s.workers w (.running call (.perform op next) true) }) :
    (within settings law start C).Reachable { shared with
      workers := update s.workers w (.running call (.perform op next) true) } :=
  .step h ⟨.wait hw hperforms, hC⟩

/-- Only an insert is ever blocked. -/
theorem not_blocked {w : ℕ} (ht : ∀ new, t ≠ .insertReserved new) : ¬ s.Blocked w t := by
  rintro ⟨new, -, rfl, -⟩
  exact ht new rfl

/-- A worker that is not waiting is in nobody's way. -/
theorem not_inserting {s' : State} {w : ℕ} {program : Service Response}
    (halone : ∀ v new, ¬ s.Inserting v new)
    (hworkers : s'.workers = update s.workers w (.running call program false)) :
    ∀ v new, ¬ s'.Inserting v new := by
  rintro v new ⟨call', next, hworker⟩
  by_cases hv : v = w
  · rw [hv, hworkers, Function.update_self] at hworker
    cases hworker
  · rw [hworkers, Function.update_of_ne hv] at hworker
    exact halone v new ⟨call', next, hworker⟩

/-- What `create` inserts for a request, under this id and this quote. -/
def SettlementCreate.new (settings : Settings) (ownerId idempotencyKey : String)
    (command : SettlementCreate) (quote : RouteQuote) (id : UUID) : NewSettlement where
  id := id
  ownerId := ownerId
  idempotencyKey := idempotencyKey
  requestFingerprint := requestFingerprint settings.sha256 ownerId command
  command := command
  quote := quote
  quotedAmount := settings.context.mul (Decimal.ofColumn 8 command.amountUsd) quote.aggregateRate

/-- **A settlement is reserved**, by a worker that nobody else is in the way of. -/
theorem later_reserved {w : ℕ} {ownerId idempotencyKey : String} {command : SettlementCreate}
    {db : Database} (quote : RouteQuote) (id : UUID) (hidle : s.workers w = .idle)
    (halone : ∀ v new, ¬ s.Inserting v new) (hkey : findByKey s.db ownerId idempotencyKey = none)
    (hinsert : insertReserved (command.new settings ownerId idempotencyKey quote id) s.db =
      .ok ((), db)) :
    ∃ s', (system settings law start).Later s s' ∧ s'.db = db ∧ s'.provider = s.provider ∧
      s'.workers = update s.workers w (.running (.create ownerId idempotencyKey command)
        (.settlement <$> submit id) false) := by
  have hfind : (Transaction.findByKey ownerId idempotencyKey).run settings (fun _ => 0)
      (fun _ => false) s.db = .ok (none, s.db) := by
    rw [← hkey]
    rfl
  have hstart : Startable s.tasks (.create ownerId idempotencyKey command) s.tasks :=
    .request nofun
  have hreserve : (Transaction.insertReserved
      (command.new settings ownerId idempotencyKey quote id)).run settings (fun _ => 0)
      (fun _ => false) s.db = .ok ((), db) := hinsert
  have h1 : (system settings law start).Later s _ := .single (Step.start hidle hstart)
  have h2 := h1.tail (Step.advance (Function.update_self _ _ _)
    (.commits true (not_blocked nofun) hfind))
  have h3 := h2.tail (Step.advance (Function.update_self _ _ _) (.quotes (.ok quote) nofun))
  have h4 := h3.tail (Step.advance (Function.update_self _ _ _) (.draws id))
  have h5 := h4.tail (Step.advance (Function.update_self _ _ _)
    (.commits true ?_ hreserve))
  · refine ⟨_, h5, rfl, rfl, ?_⟩
    simp only [Function.update_idem]
    rfl
  · rintro ⟨new, row, -, -, v, other, hv, ⟨call, next, hworker⟩, -⟩
    simp only [Function.update_of_ne hv] at hworker
    exact halone v other ⟨call, next, hworker⟩

/-- **Its payout fails**, and the funds are released. -/
theorem later_failed {w : ℕ} {id : UUID} {row : Settlement id} {read : SettlementRead}
    {db db' : Database} (hworker : s.workers w = .running call (.settlement <$> submit id) false)
    (hprovider : s.provider id = none)
    (hclaim : claimReserved settings (fun _ => 0) id s.db =
      .ok (some ⟨.fromOrmSettlement row, 1⟩, db))
    (hfinalize : finalizeAttempt (fun _ => 0) id 1 (some .unpaid) db = .ok (read, db')) :
    ∃ s', (system settings .contract start).Later s s' ∧ s'.db = db' ∧
      (∀ id', id' ≠ id → s'.provider id' = s.provider id') ∧
      s'.workers = update s.workers w (.running call (.ret (.settlement read)) false) := by
  have hsubmit : (Transaction.claimReserved id).run settings (fun _ => 0) (fun _ => false) s.db =
      .ok (some ⟨.fromOrmSettlement row, 1⟩, db) := hclaim
  have happly : (Transaction.finalizeAttempt id 1 (some .unpaid)).run settings (fun _ => 0)
      (fun _ => false) db = .ok (read, db') := hfinalize
  have h1 : (system settings .contract start).Later s _ := .single (Step.advance hworker
    (.commits true (not_blocked nofun) hsubmit))
  have h2 := h1.tail (Step.wait (Function.update_self _ _ _) .submits)
  have h3 := h2.tail (Step.record .unpaid List.mem_cons_self hprovider)
  have h4 := h3.tail (Step.advance (Function.update_self _ _ _) (.submitted (some .unpaid) ?_))
  have h5 := h4.tail (Step.advance (Function.update_self _ _ _)
    (.commits true (not_blocked nofun) happly))
  · refine ⟨_, h5, rfl, fun id' hid' => Function.update_of_ne hid' _ _, ?_⟩
    simp only [Function.update_idem]
    rfl
  · refine ⟨nofun, fun _ => ?_⟩
    show (update s.provider id _ id).map (·.outcome) = some .unpaid
    rw [Function.update_self]
    rfl

end Building

/-- An exact context, and a lease of ten seconds. -/
def sampleSettings : Settings := ⟨id, .exact, 10000000⟩

/-- Ada's AVAILABLE and RESERVED accounts, and OMNIBUS, with these balances. -/
def sampleAccounts (available reserved omnibus : ℕ) : AList fun _ : AccountKey => Account :=
  ((AList.singleton (usdAccount ("ada", .available))
    ⟨1, .liability, available, Int.natCast_nonneg _⟩).insert
    (usdAccount ("ada", .reserved)) ⟨2, .liability, reserved, Int.natCast_nonneg _⟩).insert
    (usdAccount ("system", .omnibus)) ⟨3, .asset, omnibus, Int.natCast_nonneg _⟩

/-- Ada has 500 dollars. -/
def sampleStart : Database := ⟨sampleAccounts 50000000000 0 50000000000, ∅, [], ∅⟩

/-- A hundred dollars, in euros. -/
def sampleCommand : SettlementCreate := ⟨10000000000, .eur, by decide, by decide⟩

/-- At ninety cents. -/
def sampleQuote : RouteQuote := ⟨1, .eur, 9 / 10, [⟨.usd, .eur, "LP_A", 9 / 10⟩]⟩

/-- What `create` inserts. -/
abbrev sampleNew : NewSettlement where
  id := 7
  ownerId := "ada"
  idempotencyKey := "key-1"
  requestFingerprint := requestFingerprint sampleSettings.sha256 "ada" sampleCommand
  command := sampleCommand
  quote := sampleQuote
  quotedAmount :=
    sampleSettings.context.mul (Decimal.ofColumn 8 sampleCommand.amountUsd)
      sampleQuote.aggregateRate

/-- The row of the settlement. -/
def sampleRow (status : SettlementStatus) : Settlement 7 where
  ownerId := "ada"
  idempotencyKey := "key-1"
  requestFingerprint := requestFingerprint sampleSettings.sha256 "ada" sampleCommand
  amountUsd := 10000000000
  targetCurrency := .eur
  route := sampleQuote.hops
  snapshotVersion := 1
  aggregateRate := 90000000
  quotedAmount := 9000000000
  providerOperationId := 7
  status := status
  amount_positive := by decide
  rate_positive := by decide
  quote_positive := by decide
  provider_operation_matches_id := rfl

/-- The attempt of the settlement. -/
def sampleAttempt (state : AttemptState) (token : ℕ) (lease : Time)
    (lastOutcome : Option LastOutcome) : PayoutAttempt :=
  ⟨7, state, token + 1, lease, lastOutcome, Nat.succ_pos _⟩

/-- A claim on its payout. -/
def sampleClaim (status : SettlementStatus) (token : ℕ) : PayoutClaim :=
  ⟨.fromOrmSettlement (sampleRow status), token⟩

/-- The funds are reserved. -/
def sampleReserved : Database where
  accounts := (sampleStart.accounts.insert (usdAccount ("ada", .available))
    ⟨1, .liability, 40000000000, by decide⟩).insert (usdAccount ("ada", .reserved))
    ⟨2, .liability, 10000000000, by decide⟩
  settlements := (∅ : AList Settlement).insert 7 (sampleRow .reserved)
  journals := [postedJournal (sampleRow .reserved) .reserve (fun h => by cases h)
    ⟨1, .liability, 50000000000, by decide⟩ ⟨2, .liability, 0, by decide⟩]
  attempts := ∅

/-- The payout is being submitted. -/
def sampleSubmitting : Database := { sampleReserved with
  settlements := sampleReserved.settlements.insert 7 (sampleRow .payoutInProgress)
  attempts := (∅ : AList fun _ : UUID => PayoutAttempt).insert 7
    (sampleAttempt .submitting 0 10000000 none) }

/-- Nothing came back. -/
def samplePending : Database := { sampleSubmitting with
  settlements := sampleSubmitting.settlements.insert 7 (sampleRow .pendingReconciliation)
  attempts := sampleSubmitting.attempts.insert 7
    (sampleAttempt .reconciling 0 0 (some .unknown)) }

/-- The background pass has claimed the settlement. -/
def sampleClaimed : Database := { samplePending with
  attempts := samplePending.attempts.insert 7
    (sampleAttempt .claimed 1 10000000 (some .unknown)) }

/-- The payout was found to be made. -/
def samplePaid : Database where
  accounts := (sampleClaimed.accounts.insert (usdAccount ("ada", .reserved))
    ⟨2, .liability, 0, by decide⟩).insert (usdAccount ("system", .omnibus))
    ⟨3, .asset, 40000000000, by decide⟩
  settlements := sampleClaimed.settlements.insert 7 (sampleRow .success)
  journals := postedJournal (sampleRow .reserved) .consume (fun h => by cases h)
    ⟨2, .liability, 10000000000, by decide⟩ ⟨3, .asset, 50000000000, by decide⟩ ::
      sampleClaimed.journals
  attempts := sampleClaimed.attempts.insert 7
    (sampleAttempt .completed 1 10000000 (some .paid))

theorem sample_row : sampleNew.row = .ok (sampleRow .reserved) := by
  have hrate : Decimal.toColumn 24 8 sampleNew.quote.aggregateRate = some 90000000 := by
    decide +kernel
  have hquoted : Decimal.toColumn 32 8 sampleNew.quotedAmount = some 9000000000 := by
    decide +kernel
  unfold NewSettlement.row
  rw [hrate, hquoted]
  rfl

theorem sample_insertReserved :
    insertReserved sampleNew sampleStart = .ok ((), sampleReserved) := by
  unfold insertReserved
  rw [sample_row]
  rfl

theorem sample_claimReserved :
    claimReserved sampleSettings (fun _ => 0) 7 sampleReserved =
      .ok (some (sampleClaim .payoutInProgress 1), sampleSubmitting) := rfl

theorem sample_finalizeAttempt :
    finalizeAttempt (fun _ => 0) 7 1 none sampleSubmitting =
      .ok (.fromOrmSettlement (sampleRow .pendingReconciliation), samplePending) := rfl

theorem sample_claimDueBatch :
    claimDueBatch sampleSettings (fun _ => 0) (fun _ => false) 50 samplePending =
      ([sampleClaim .pendingReconciliation 2], sampleClaimed) := by
  have hrows : (joinedRows samplePending).filter (fun row => row.Due 0) =
      [⟨7, sampleRow .pendingReconciliation, sampleAttempt .reconciling 0 0 (some .unknown)⟩] := rfl
  unfold claimDueBatch selectDue dueRows
  rw [hrows, List.mergeSort_singleton]
  rfl

theorem sample_finalizeAttempt_paid :
    finalizeAttempt (fun _ => 0) 7 2 (some .paid) sampleClaimed =
      .ok (.fromOrmSettlement (sampleRow .success), samplePaid) := rfl

/-- The databases of the run. -/
inductive Sampled : Database → Prop
  | start : Sampled sampleStart
  | reserved : Sampled sampleReserved
  | submitting : Sampled sampleSubmitting
  | pending : Sampled samplePending
  | claimed : Sampled sampleClaimed
  | paid : Sampled samplePaid

/-- The call that creates the settlement. -/
abbrev sampleCreate : Call := .create "ada" "key-1" sampleCommand

/-- The task that reconciles it. -/
abbrev sampleTask : Call := .reconcileClaim (sampleClaim .pendingReconciliation 2)

/-- What `create` did. -/
def sampleCreated : List Event := [
  ⟨0, .ran (.finalizeAttempt 7 1 none)
    (.ok (.fromOrmSettlement (sampleRow .pendingReconciliation))) true⟩,
  ⟨0, .answered (.initiate 7 10000000000 .eur 9000000000) (.error .providerError)⟩,
  ⟨0, .called (.initiate 7 10000000000 .eur 9000000000)⟩,
  ⟨0, .ran (.claimReserved 7) (.ok (some (sampleClaim .payoutInProgress 1))) true⟩,
  ⟨0, .ran (.insertReserved sampleNew) (.ok ()) true⟩,
  ⟨0, .answered .uuid4 (.ok 7)⟩,
  ⟨0, .answered (.quote .eur) (.ok sampleQuote)⟩,
  ⟨0, .ran (.findByKey "ada" "key-1") (.ok none) true⟩,
  ⟨0, .started sampleCreate⟩]

/-- What the background pass did, up to its claim. -/
def sampleSwept : List Event :=
  ⟨1, .ran (.claimDueBatch 50) (.ok [sampleClaim .pendingReconciliation 2]) true⟩ ::
    ⟨1, .started (.runReconciliationOnce 50)⟩ :: sampleCreated

/-- What the task of the claim did. -/
def sampleReconciled : List Event :=
  ⟨2, .ran (.finalizeAttempt 7 2 (some .paid)) (.ok (.fromOrmSettlement (sampleRow .success)))
    true⟩ ::
    ⟨2, .answered (.lookup 7) (.ok .paid)⟩ ::
    ⟨2, .called (.lookup 7)⟩ ::
    ⟨2, .started sampleTask⟩ ::
    ⟨1, .answered (.gather [sampleClaim .pendingReconciliation 2]) (.ok ())⟩ :: sampleSwept

section Sample
variable {start : Database → Prop} {C : State → Prop}

/-- `create` has reserved the funds, whatever the provider is like. -/
theorem sample_reserved_under (law : ProviderLaw) (hstart : start sampleStart)
    (hC : ∀ s : State, s.clock = 0 → Sampled s.db → C s) :
    ∃ s, (within sampleSettings law start C).Reachable s ∧
      s.db = sampleReserved ∧ s.clock = 0 ∧ s.provider = (fun _ => none) ∧ s.tasks = [] ∧
      s.trace = sampleCreated.drop 4 ∧
      s.workers 0 = .running sampleCreate (.settlement <$> submit 7) false ∧
      (∀ w, w ≠ 0 → s.workers w = .idle) := by
  have h0 : (within sampleSettings law start C).Reachable
      ⟨⟨sampleStart, 0, fun _ => none, [], []⟩, fun _ => .idle⟩ :=
    .init ⟨hstart, fun _ => rfl, rfl, rfl, rfl⟩
  have h1 := run_start h0 0 sampleCreate rfl (fun _ heq => by cases heq) (hC _ rfl .start)
  have h2 := run_commit h1 0 (fun _ => 0) none sampleStart rfl
    (not_blocked fun _ heq => by cases heq) rfl (hC _ rfl .start)
  have h3 := run_advance h2 0 rfl (.quotes (.ok sampleQuote) fun _ heq => by cases heq)
    (hC _ rfl .start)
  have h4 := run_advance h3 0 rfl (.draws 7) (hC _ rfl .start)
  have h5 := run_commit (t := .insertReserved sampleNew) h4 0 (fun _ => 0) () sampleReserved rfl
    ?_ sample_insertReserved (hC _ rfl .reserved)
  · refine ⟨_, h5, rfl, rfl, rfl, rfl, rfl, rfl, fun w hw => ?_⟩
    simp only [Function.update_of_ne hw]
  · rintro ⟨new, row, -, -, v, other, hv, ⟨call, next, hworker⟩, -⟩
    simp only [Function.update_of_ne hv] at hworker
    cases hworker

/-- `create` has reserved the funds. -/
theorem sample_reserved (hstart : start sampleStart)
    (hC : ∀ s : State, s.clock = 0 → Sampled s.db → C s) :
    ∃ s, (within sampleSettings .contract start C).Reachable s ∧
      s.db = sampleReserved ∧ s.clock = 0 ∧ s.provider = (fun _ => none) ∧ s.tasks = [] ∧
      s.trace = sampleCreated.drop 4 ∧
      s.workers 0 = .running sampleCreate (.settlement <$> submit 7) false ∧
      (∀ w, w ≠ 0 → s.workers w = .idle) :=
  sample_reserved_under .contract hstart hC

/-- `create` is not told whether the payout was made. -/
theorem sample_pending (hstart : start sampleStart)
    (hC : ∀ s : State, s.clock = 0 → Sampled s.db → C s) :
    ∃ s, (within sampleSettings .contract start C).Reachable s ∧
      s.db = samplePending ∧ s.clock = 0 ∧ s.provider = (fun _ => none) ∧ s.tasks = [] ∧
      s.trace = sampleCreated ∧
      s.workers 0 = .running sampleCreate
        (.ret (.settlement (.fromOrmSettlement (sampleRow .pendingReconciliation)))) false ∧
      (∀ w, w ≠ 0 → s.workers w = .idle) := by
  obtain ⟨⟨⟨db, clock, provider, tasks, trace⟩, workers⟩, h0, rfl, rfl, rfl, rfl, rfl, hworker,
    hidle⟩ := sample_reserved hstart hC
  have h1 := run_commit h0 0 (fun _ => 0) _ sampleSubmitting hworker
    (not_blocked fun _ heq => by cases heq) sample_claimReserved (hC _ rfl .submitting)
  have h2 := run_wait h1 0 rfl .submits (hC _ rfl .submitting)
  have h3 := run_advance h2 0 rfl
    (.submitted none ⟨(fun heq => by cases heq), fun heq => by cases heq⟩) (hC _ rfl .submitting)
  have h4 := run_commit h3 0 (fun _ => 0) _ samplePending rfl
    (not_blocked fun _ heq => by cases heq) sample_finalizeAttempt (hC _ rfl .pending)
  refine ⟨_, h4, rfl, rfl, rfl, rfl, rfl, rfl, fun w hw => ?_⟩
  simp only [Function.update_of_ne hw]
  exact hidle w hw

/-- The background pass has a claim on the settlement. -/
theorem sample_claimed (hstart : start sampleStart)
    (hC : ∀ s : State, s.clock = 0 → Sampled s.db → C s) :
    ∃ s, (within sampleSettings .contract start C).Reachable s ∧
      s.db = sampleClaimed ∧ s.clock = 0 ∧ s.provider = (fun _ => none) ∧ s.tasks = [] ∧
      s.trace = sampleSwept ∧
      (∃ next, s.workers 1 = .running (.runReconciliationOnce 50)
        (.perform (.gather [sampleClaim .pendingReconciliation 2]) next) false) ∧
      (∀ w, w ≠ 0 → w ≠ 1 → s.workers w = .idle) := by
  obtain ⟨⟨⟨db, clock, provider, tasks, trace⟩, workers⟩, h0, rfl, rfl, rfl, rfl, rfl, -, hidle⟩ :=
    sample_pending hstart hC
  have h1 := run_start h0 1 (.runReconciliationOnce 50) (hidle 1 (by decide))
    (fun _ heq => by cases heq) (hC _ rfl .pending)
  have h2 := run_commit (t := .claimDueBatch 50) h1 1 (fun _ => 0) _ sampleClaimed
    rfl (not_blocked fun _ heq => by cases heq) (congrArg Except.ok sample_claimDueBatch)
    (hC _ rfl .claimed)
  refine ⟨_, h2, rfl, rfl, rfl, rfl, rfl, ⟨_, rfl⟩, fun w hw hw1 => ?_⟩
  simp only [Function.update_of_ne hw1]
  exact hidle w hw

/-- The task of the claim learns that the payout was made. -/
theorem sample_paid (hstart : start sampleStart)
    (hC : ∀ s : State, s.clock = 0 → Sampled s.db → C s) :
    ∃ s, (within sampleSettings .contract start C).Reachable s ∧
      s.db = samplePaid ∧ s.recorded 7 = some .paid ∧ s.trace = sampleReconciled := by
  obtain ⟨⟨⟨db, clock, provider, tasks, trace⟩, workers⟩, h0, rfl, rfl, rfl, rfl, rfl,
    ⟨next, hworker⟩, hidle⟩ := sample_claimed hstart hC
  have hcalled : ⟨0, .called (.initiate 7 10000000000 .eur 9000000000)⟩ ∈ sampleSwept :=
    .tail _ (.tail _ (.tail _ (.tail _ (.head _))))
  have h1 := run_advance h0 1 hworker (.gathers (.ok ())) (hC _ rfl .claimed)
  have h2 := run_task h1 2 (sampleClaim .pendingReconciliation 2)
    (hidle 2 (by decide) (by decide)) rfl (hC _ rfl .claimed)
  have h3 := run_wait h2 2 rfl .asks (hC _ rfl .claimed)
  have h4 := TransitionSystem.Reachable.step h3
    ⟨.record .paid (.tail _ (.tail _ (.tail _ hcalled))) rfl, hC _ rfl .claimed⟩
  have h5 := run_advance h4 2 rfl (.asked (some .paid) ⟨fun _ => rfl, fun heq => by cases heq⟩)
    (hC _ rfl .claimed)
  have h6 := run_commit (t := .finalizeAttempt 7 2 (some .paid)) h5 2 (fun _ => 0) _ samplePaid
    rfl (not_blocked fun _ heq => by cases heq) sample_finalizeAttempt_paid (hC _ rfl .paid)
  exact ⟨_, h6, rfl, rfl, rfl⟩

/-- The whole run. -/
theorem sample_run (hstart : start sampleStart) :
    ∃ s, (system sampleSettings .contract start).Reachable s ∧
      s.db = samplePaid ∧ s.recorded 7 = some .paid ∧ s.trace = sampleReconciled := by
  obtain ⟨s, h, hs⟩ := sample_paid (C := fun _ => True) hstart fun _ _ _ => trivial
  exact ⟨s, h.of_restrict, hs⟩

/-- Where it starts, and where it ends. -/
theorem sample_later (hstart : start sampleStart) :
    ∃ s s', (system sampleSettings .contract start).Reachable s ∧ s.db = sampleStart ∧
      s'.db = samplePaid ∧ (system sampleSettings .contract start).Later s s' := by
  obtain ⟨s', h, hdb, -⟩ :
      ∃ s', (system sampleSettings .contract fun db => db = sampleStart).Reachable s' ∧
        s'.db = samplePaid ∧ s'.recorded 7 = some .paid ∧ s'.trace = sampleReconciled :=
    sample_run rfl
  obtain ⟨s, ⟨hs, hinit⟩, hlater⟩ := h.exists_init
  exact ⟨s, s', .init ⟨hs ▸ hstart, hinit⟩, hs, hdb, hlater⟩

theorem sampleStart_unused : sampleStart.Unused := ⟨rfl, rfl, nofun⟩

end Sample

end SettlementRouter
