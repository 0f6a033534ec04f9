import SettlementRouter.Publishers

/-! # The lifespan of the application

`lifespan` of `app/main.py` and `reconciliation_loop` of `app/service.py`, for an
application that owns its rates and its provider, as the deployed one does.

The startup publishes the first rates, starts their publisher and makes a recovery pass
before anything is served; then the loop makes a pass after another.  The shutdown waits for
the loop and then for the publisher.  If the recovery pass raises, nothing stops the
publisher.

The coroutine of the lifespan is the only one to start and stop the rates, one after the
other; so no `start` is ever late, and there is never a second publisher, however often the
application is started, shut down and started again (`lifespan_orderly`).
-/
namespace SettlementRouter

open TaskSlot (Slot)

/-- Where `lifespan` stands. -/
inductive LifespanPhase where
  /-- Not entered, or left in good order. -/
  | down
  /-- The startup raised. -/
  | aborted
  /-- It awaits `run_reconciliation_once`. -/
  | recovering
  | serving
  /-- It awaits `reconciliation_task`. -/
  | joining
  /-- It awaits the publisher, in `rates.stop()`. -/
  | closing (publisher : ℕ)
  deriving DecidableEq

/-- Where `reconciliation_loop` stands. -/
inductive LoopPhase where
  | absent
  /-- At `while not stop_event.is_set()`. -/
  | checking
  /-- In `run_reconciliation_once`. -/
  | passing
  /-- In `asyncio.wait_for`. -/
  | waiting
  | ended
  deriving DecidableEq

/-- The application between two steps of the event loop. -/
structure Application where
  phase : LifespanPhase
  loop : LoopPhase
  /-- `reconciliation_stop` is set. -/
  stopEvent : Bool
  rates : Slot Rates

namespace Application
variable (app : Application)

/-- `create_app()`. -/
def created : Application := ⟨.down, .absent, false, .empty .empty⟩

/-- `lifespan`, up to the recovery pass. -/
def startup : Application :=
  match (app.rates.data.book .absent).publish (generateEdges 1) 1 with
  | .error _ => { app with phase := .aborted }
  | .ok book =>
    let rates := { app.rates with data := book.rates }.start (RateBook.body edgeStream)
    { loop := .absent
      stopEvent := false
      rates
      -- the publisher is there, unless `start` has raised
      phase := if rates.Busy then .recovering else .aborted }

/-- The loop goes on: a pass is over, whether or not it has raised, or a wait is, whether or
not it has timed out. -/
def loopTurn : Application :=
  match app.loop with
  | .checking => { app with loop := if app.stopEvent then .ended else .passing }
  | .passing => { app with loop := .waiting }
  | .waiting => { app with loop := .checking }
  | _ => app

/-- The last of `lifespan`: `rates.stop()`, until it waits or is over. -/
def stopRates : Application := { app with
  rates := app.rates.stop
  phase := match app.rates.current with
    | some publisher => if app.rates.Live publisher then .closing publisher else .down
    | none => .down }

/-- What the event loop can do next: go on with the lifespan, with the loop, or with a
publisher. -/
inductive Step (app : Application) : Application → Prop
  | startup : app.phase = .down ∨ app.phase = .aborted → Step app app.startup
  | recovered : app.phase = .recovering →
      Step app { app with phase := .serving, loop := .checking }
  | recoveryRaises : app.phase = .recovering → Step app { app with phase := .aborted }
  | loopTurn : app.loop ≠ .absent → app.loop ≠ .ended → Step app app.loopTurn
  | shutdown : app.phase = .serving → Step app { app with phase := .joining, stopEvent := true }
  | joined : app.phase = .joining → app.loop = .ended → Step app app.stopRates
  | stopped {publisher} : app.phase = .closing publisher → ¬ app.rates.Live publisher →
      Step app { app with phase := .down, rates := app.rates.resume publisher }
  | publisher {i} : app.rates.Live i →
      Step app { app with rates := app.rates.turn (RateBook.body edgeStream) i }

end Application

/-- The lives of an application, from its creation. -/
def application : TransitionSystem Application where
  init app := app = .created
  step := Application.Step

/-! ## The rates -/

section
variable {app app' : Application}

/-- What the application does with its rates is a use of a rate book. -/
theorem publishers_of_application (h : application.Reachable app) :
    (publishers edgeStream).Reachable app.rates := by
  induction h with
  | init hinit =>
    cases hinit
    exact .init ⟨.empty, rfl, rfl⟩
  | @step app app' _ hstep ih =>
    cases hstep with
    | startup =>
      unfold Application.startup
      split
      · exact ih
      · rename_i book hpublish
        exact (ih.step (.other ⟨_, _, book, hpublish, rfl⟩)).step .start
    | recovered => exact ih
    | recoveryRaises => exact ih
    | loopTurn =>
      unfold Application.loopTurn
      split <;> exact ih
    | shutdown => exact ih
    | joined => exact ih.step .stop
    | stopped => exact ih.step (.resume _)
    | publisher => exact ih.step (.turn _)

/-- The rates are those of the stream. -/
def Streamed (rates : Rates) : Prop :=
  ∃ version routes, rates.snapshot = some ⟨version, routes⟩ ∧
    computeRoutes (generateEdges version) version .usd = .ok routes

theorem Streamed.run {rates : Rates} (h : Streamed rates) :
    ∃ rates', RateBook.run edgeStream rates = (rates', true) ∧ Streamed rates' := by
  obtain ⟨version, routes, hsnapshot, -⟩ := h
  obtain ⟨routes', hroutes'⟩ := accepted_edgeStream rates.calls (version + 1)
  have htick : (rates.book .ticking).tick edgeStream =
      ⟨some ⟨version + 1, routes'⟩, .ticking, rates.calls + 1⟩ := by
    rw [Rates.book, hsnapshot]
    exact RateBook.tick_of_accepted hroutes'
  refine ⟨⟨some ⟨version + 1, routes'⟩, rates.calls + 1⟩, ?_, version + 1, routes', rfl, hroutes'⟩
  rw [RateBook.run, htick]
  rfl

/-- There is a publisher in the book, and no one has asked it to stop. -/
structure Publishing (rates : Slot Rates) : Prop where
  running : ∃ i, rates.current = some i ∧ rates.tasks[i]? = some .running
  stops : rates.stops = []
  in_time : rates.late = 0
  streamed : Streamed rates.data

theorem Publishing.busy {rates : Slot Rates} (h : Publishing rates) : rates.Busy :=
  let ⟨i, hcurrent, hi⟩ := h.running
  ⟨i, hcurrent, .inl hi⟩

theorem Publishing.turn {rates : Slot Rates} {i : ℕ} (h : Publishing rates)
    (hi : rates.current = some i) :
    Publishing (rates.turn (RateBook.body edgeStream) i) := by
  obtain ⟨data', hrun, hstreamed⟩ := h.streamed.run
  obtain ⟨j, hcurrent, hj⟩ := h.running
  cases hi.symm.trans hcurrent
  have hturn : rates.turn (RateBook.body edgeStream) i = { rates with data := data' } := by
    have hbody : (RateBook.body edgeStream).turn rates.data = (data', true) := hrun
    rw [Slot.turn, hj]
    dsimp only
    rw [hbody]
  rw [hturn]
  exact ⟨⟨i, hcurrent, hj⟩, h.stops, h.in_time, hstreamed⟩

/-! ## What holds in each phase -/

/-- What holds of an application, by where its lifespan stands. -/
def Application.Orderly (app : Application) : Prop :=
  match app.phase with
  | .down => app.rates.current = none ∧ app.rates.stops = [] ∧ app.rates.late = 0 ∧
      (app.loop = .absent ∨ app.loop = .ended)
  | .aborted => Publishing app.rates ∧ app.loop = .absent
  | .recovering => Publishing app.rates ∧ app.loop = .absent ∧ app.stopEvent = false
  | .serving => Publishing app.rates ∧ app.loop ≠ .absent ∧ app.loop ≠ .ended ∧
      app.stopEvent = false
  | .joining => Publishing app.rates ∧ app.loop ≠ .absent ∧ app.stopEvent = true
  | .closing publisher => app.rates.current = some publisher ∧
      (app.rates.tasks[publisher]? = some .cancelling ∨
        app.rates.tasks[publisher]? = some .cancelled) ∧
      app.rates.stops = [publisher] ∧ app.rates.late = 0 ∧ app.loop = .ended

/-- A task is in the slot after `start`, the one that was there or a new one. -/
theorem publishing_start {rates : Slot Rates} (hstreamed : Streamed rates.data)
    (hstops : rates.stops = []) (hlate : rates.late = 0)
    (h : rates.current = none ∨ ∃ i, rates.current = some i ∧ rates.tasks[i]? = some .running) :
    Publishing (rates.start (RateBook.body edgeStream)) := by
  rcases h with hnone | ⟨i, hcurrent, hi⟩
  · have hidle : ¬ rates.Busy := by
      rintro ⟨i, hi, -⟩
      cases hnone.symm.trans hi
    have hdue : ¬ rates.Due := by
      rintro ⟨i, hi, -⟩
      rw [hstops] at hi
      cases hi
    have henter : (RateBook.body edgeStream).enter rates.data = (rates.data, true) := by
      obtain ⟨version, routes, hsnapshot, -⟩ := hstreamed
      obtain ⟨⟨snapshot, calls⟩, tasks, current, stops, late⟩ := rates
      cases hsnapshot
      rfl
    rw [Slot.start_of_enter hidle henter]
    refine ⟨⟨rates.tasks.length, rfl, List.getElem?_concat_length⟩, hstops, ?_, hstreamed⟩
    show (if rates.Due then rates.late + 1 else rates.late) = 0
    rw [if_neg hdue, hlate]
  · have hbusy : rates.Busy := ⟨i, hcurrent, .inl hi⟩
    rw [Slot.start, if_pos hbusy]
    exact ⟨⟨i, hcurrent, hi⟩, hstops, hlate, hstreamed⟩

theorem orderly_startup (h : app.Orderly) (hphase : app.phase = .down ∨ app.phase = .aborted) :
    app.startup.phase = .recovering ∧ app.startup.Orderly := by
  obtain ⟨routes, hroutes⟩ := accepted_edgeStream 0 1
  have hpublish : (app.rates.data.book .absent).publish (generateEdges 1) 1 =
      .ok ⟨some ⟨1, routes⟩, .absent, app.rates.data.calls⟩ := RateBook.publish_of_accepted hroutes
  have hslot : app.rates.stops = [] ∧ app.rates.late = 0 ∧ (app.rates.current = none ∨
      ∃ i, app.rates.current = some i ∧ app.rates.tasks[i]? = some .running) := by
    rcases hphase with hphase | hphase <;> rw [Application.Orderly, hphase] at h
    · obtain ⟨hcurrent, hstops, hlate, -⟩ := h
      exact ⟨hstops, hlate, .inl hcurrent⟩
    · exact ⟨h.1.stops, h.1.in_time, .inr h.1.running⟩
  obtain ⟨hstops, hlate, hcurrent⟩ := hslot
  have hstreamed : Streamed ⟨some ⟨1, routes⟩, app.rates.data.calls⟩ := ⟨1, routes, rfl, hroutes⟩
  have hpublishing := @publishing_start
    { app.rates with data := ⟨some ⟨1, routes⟩, app.rates.data.calls⟩ } hstreamed hstops hlate
    hcurrent
  unfold Application.startup
  rw [hpublish]
  dsimp only [RateBook.rates]
  rw [if_pos hpublishing.busy]
  exact ⟨rfl, hpublishing, rfl, rfl⟩

/-- Only where the event is set does the loop end. -/
theorem loopTurn_eq (habsent : app.loop ≠ .absent) (hended : app.loop ≠ .ended) :
    ∃ loop, app.loopTurn = { app with loop } ∧ loop ≠ .absent ∧
      (app.stopEvent = false → loop ≠ .ended) := by
  unfold Application.loopTurn
  cases hloop : app.loop with
  | absent => exact absurd hloop habsent
  | ended => exact absurd hloop hended
  | checking =>
    refine ⟨_, rfl, ?_, fun hevent => ?_⟩
    · split <;> nofun
    · rw [hevent]
      nofun
  | passing => exact ⟨_, rfl, nofun, fun _ => nofun⟩
  | waiting => exact ⟨_, rfl, nofun, fun _ => nofun⟩

theorem orderly_loopTurn (h : app.Orderly) (habsent : app.loop ≠ .absent)
    (hended : app.loop ≠ .ended) : app.loopTurn.Orderly := by
  obtain ⟨loop, hturn, habsent', hended'⟩ := loopTurn_eq habsent hended
  rw [hturn]
  unfold Application.Orderly at h ⊢
  cases hphase : app.phase <;> rw [hphase] at h <;> dsimp only at h ⊢
  case down => rcases h.2.2.2 with hloop | hloop <;> contradiction
  case aborted => exact absurd h.2 habsent
  case recovering => exact absurd h.2.1 habsent
  case serving => exact ⟨h.1, habsent', hended' h.2.2.2, h.2.2.2⟩
  case joining => exact ⟨h.1, habsent', h.2.2⟩
  case closing => exact absurd h.2.2.2.2 hended

/-- The publisher that is asked to stop is the one there is. -/
theorem orderly_stopRates (h : app.Orderly) (hphase : app.phase = .joining)
    (hloop : app.loop = .ended) : app.stopRates.Orderly := by
  rw [Application.Orderly, hphase] at h
  obtain ⟨i, hcurrent, hi⟩ := h.1.running
  have hlive : app.rates.Live i := .inl hi
  have hstop : app.rates.stop = app.rates.cancel i := by
    rw [Slot.stop, hcurrent]
    exact if_pos hlive
  unfold Application.stopRates
  rw [hcurrent, hstop]
  dsimp only
  rw [if_pos hlive]
  refine ⟨hcurrent, .inl (List.getElem?_set_self hlive.lt), ?_, h.1.in_time, hloop⟩
  show i :: app.rates.stops = [i]
  rw [h.1.stops]

theorem orderly_stopped {i : ℕ} (h : app.Orderly) (hphase : app.phase = .closing i)
    (hi : ¬ app.rates.Live i) :
    { app with phase := .down, rates := app.rates.resume i : Application }.Orderly := by
  rw [Application.Orderly, hphase] at h
  obtain ⟨-, htask, hstops, hlate, hloop⟩ := h
  have hcancelled := htask.resolve_left fun hcancelling => hi (.inr hcancelling)
  have hresume : app.rates.resume i = { app.rates with stops := [], current := none } := by
    have hwaits : i ∈ app.rates.stops := hstops ▸ List.mem_singleton_self i
    rw [Slot.resume, if_pos ⟨hwaits, hi⟩, Slot.settle, if_neg (by rw [hcancelled]; nofun), hstops]
    simp
  rw [hresume]
  exact ⟨rfl, rfl, hlate, .inr hloop⟩

/-- In `rates.stop()`, the task at work is the publisher that was asked to stop. -/
theorem cancelling_of_closing {i j : ℕ} (hrates : app.rates.Sound) (h : app.Orderly)
    (hphase : app.phase = .closing i) (hj : app.rates.Live j) :
    j = i ∧ app.rates.tasks[i]? = some .cancelling := by
  rw [Application.Orderly, hphase] at h
  obtain ⟨hcurrent, htask, -, hlate, -⟩ := h
  cases hcurrent.symm.trans (hrates.in_slot hlate hj)
  rcases htask with htask | htask
  · exact ⟨rfl, htask⟩
  · exact absurd hj (Slot.not_live_of_cancelled htask)

/-- Where there is a task at work, it is the one in the slot. -/
theorem orderly_publisher {i : ℕ} (hrates : app.rates.Sound) (h : app.Orderly)
    (hi : app.rates.Live i) :
    { app with rates := app.rates.turn (RateBook.body edgeStream) i : Application }.Orderly := by
  have hclosing := fun i hphase => @cancelling_of_closing app i _ hrates h hphase hi
  unfold Application.Orderly at h ⊢
  cases hphase : app.phase <;> rw [hphase] at h <;> dsimp only at h ⊢
  case down => cases h.1.symm.trans (hrates.in_slot h.2.2.1 hi)
  case aborted => exact ⟨h.1.turn (hrates.in_slot h.1.in_time hi), h.2⟩
  case recovering => exact ⟨h.1.turn (hrates.in_slot h.1.in_time hi), h.2⟩
  case serving => exact ⟨h.1.turn (hrates.in_slot h.1.in_time hi), h.2⟩
  case joining => exact ⟨h.1.turn (hrates.in_slot h.1.in_time hi), h.2⟩
  case closing publisher =>
    obtain ⟨rfl, hcancelling⟩ := hclosing publisher hphase
    obtain ⟨hcurrent, -, hstops, hlate, hloop⟩ := h
    have hturn : app.rates.turn (RateBook.body edgeStream) i = app.rates.finish i .cancelled := by
      rw [Slot.turn, hcancelling]
    rw [hturn]
    exact ⟨hcurrent, .inr (List.getElem?_set_self hi.lt), hstops, hlate, hloop⟩

theorem Application.Orderly.step (hrates : app.rates.Sound) (h : app.Orderly)
    (hstep : Application.Step app app') : app'.Orderly := by
  cases hstep with
  | startup hphase => exact (orderly_startup h hphase).2
  | recovered hphase =>
    rw [Application.Orderly, hphase] at h
    exact ⟨h.1, nofun, nofun, h.2.2⟩
  | recoveryRaises hphase =>
    rw [Application.Orderly, hphase] at h
    exact ⟨h.1, h.2.1⟩
  | loopTurn habsent hended => exact orderly_loopTurn h habsent hended
  | shutdown hphase =>
    rw [Application.Orderly, hphase] at h
    exact ⟨h.1, h.2.1, rfl⟩
  | joined hphase hloop => exact orderly_stopRates h hphase hloop
  | stopped hphase hlive => exact orderly_stopped h hphase hlive
  | publisher hi => exact orderly_publisher hrates h hi

theorem orderly_created : Application.created.Orderly := ⟨rfl, rfl, rfl, .inl rfl⟩

theorem orderly_of_reachable (h : application.Reachable app) : app.Orderly := by
  refine h.invariant ?_ fun s t hs horderly hstep => ?_
  · rintro _ rfl
    exact orderly_created
  · exact horderly.step (Slot.sound_of_reachable (publishers_of_application hs)) hstep

/-! ## The shutdown -/

namespace Application

/-- The publisher's turn, while it publishes. -/
def Publication (app app' : Application) : Prop :=
  ∃ i, app.rates.tasks[i]? = some .running ∧
    app' = { app with rates := app.rates.turn (RateBook.body edgeStream) i }

/-- The next step that is no publication. -/
def Onward (app app' : Application) : Prop :=
  ∃ mid, Relation.ReflTransGen Publication app mid ∧ Step mid app' ∧ ¬ Publication mid app'

/-- The lifespan is past `yield`, and has yet to end. -/
def Stopping (app : Application) : Prop := app.phase = .joining ∨ ∃ i, app.phase = .closing i

/-- The steps that are left, at most. -/
def toGo (app : Application) : ℕ :=
  match app.phase with
  | .joining => match app.loop with
    | .passing => 6
    | .waiting => 5
    | .checking => 4
    | _ => 3
  | .closing i => if app.rates.Live i then 2 else 1
  | _ => 0

end Application

theorem step_of_publication (h : app.Publication app') : Application.Step app app' := by
  obtain ⟨i, hi, rfl⟩ := h
  exact .publisher (.inl hi)

/-- Once it is asked to stop, the publisher publishes nothing. -/
theorem not_publication_of_closing {i : ℕ} (h : application.Reachable app)
    (hphase : app.phase = .closing i) : ¬ app.Publication app' := by
  rintro ⟨j, hj, -⟩
  have hsound := Slot.sound_of_reachable (publishers_of_application h)
  obtain ⟨rfl, hcancelling⟩ :=
    cancelling_of_closing hsound (orderly_of_reachable h) hphase (.inl hj)
  cases hj.symm.trans hcancelling

/-- Publications do not hold up a shutdown. -/
theorem stopping_of_publication (h : application.Reachable app) (hstopping : app.Stopping)
    (hpublication : app.Publication app') : app'.Stopping ∧ app'.toGo = app.toGo := by
  rcases hstopping with hphase | ⟨i, hphase⟩
  · obtain ⟨i, -, rfl⟩ := hpublication
    refine ⟨.inl hphase, ?_⟩
    unfold Application.toGo
    rw [hphase]
  · exact absurd hpublication (not_publication_of_closing h hphase)

theorem frame_of_publication (h : app.Publication app') :
    app'.phase = app.phase ∧ app'.loop = app.loop := by
  obtain ⟨i, -, rfl⟩ := h
  exact ⟨rfl, rfl⟩

/-- The loop is on its way out once the event is set. -/
theorem loopTurn_toGo (hphase : app.phase = .joining) (hevent : app.stopEvent = true)
    (habsent : app.loop ≠ .absent) (hended : app.loop ≠ .ended) :
    app.loopTurn.phase = .joining ∧ app.loopTurn.loop ≠ app.loop ∧
      app.loopTurn.toGo < app.toGo := by
  unfold Application.loopTurn Application.toGo
  rw [hphase, hevent]
  cases hloop : app.loop with
  | absent => exact absurd hloop habsent
  | ended => exact absurd hloop hended
  | checking => exact ⟨rfl, by nofun, by simp⟩
  | passing => exact ⟨rfl, by nofun, by simp⟩
  | waiting => exact ⟨rfl, by nofun, by simp⟩

/-- `rates.stop()` is over at once, or waits. -/
theorem stopRates_cases (app : Application) :
    app.stopRates.phase = .down ∨ ∃ i, app.stopRates.phase = .closing i := by
  unfold Application.stopRates
  dsimp only
  split
  · split
    · exact .inr ⟨_, rfl⟩
    · exact .inl rfl
  · exact .inl rfl

theorem toGo_of_closing {i : ℕ} (h : app.phase = .closing i) :
    app.toGo = if app.rates.Live i then 2 else 1 := by
  rw [Application.toGo, h]

/-- **Something is always left to do**, until the application is down. -/
theorem exists_step_of_stopping (h : application.Reachable app) (hstopping : app.Stopping) :
    ∃ app', Application.Step app app' ∧ ¬ app.Publication app' := by
  have horderly := orderly_of_reachable h
  rcases hstopping with hphase | ⟨i, hphase⟩
  · rw [Application.Orderly, hphase] at horderly
    obtain ⟨-, habsent, hevent⟩ := horderly
    by_cases hended : app.loop = .ended
    · refine ⟨_, .joined hphase hended, fun hpublication => ?_⟩
      have hframe := (frame_of_publication hpublication).1
      rw [hphase] at hframe
      rcases stopRates_cases app with hdown | ⟨i, hclosing⟩
      · cases hdown.symm.trans hframe
      · cases hclosing.symm.trans hframe
    · obtain ⟨-, hloop, -⟩ := loopTurn_toGo hphase hevent habsent hended
      exact ⟨_, .loopTurn habsent hended, fun hpublication =>
        hloop (frame_of_publication hpublication).2⟩
  · by_cases hi : app.rates.Live i
    · exact ⟨_, .publisher hi, not_publication_of_closing h hphase⟩
    · exact ⟨_, .stopped hphase hi, not_publication_of_closing h hphase⟩

/-- **Each step that is no publication brings the end nearer.** -/
theorem toGo_step (h : application.Reachable app) (hstopping : app.Stopping)
    (hstep : Application.Step app app') (hnot : ¬ app.Publication app') :
    app'.phase = .down ∨ (app'.Stopping ∧ app'.toGo < app.toGo) := by
  have hsound := Slot.sound_of_reachable (publishers_of_application h)
  have horderly := orderly_of_reachable h
  rcases hstopping with hphase | ⟨i, hphase⟩ <;> rw [Application.Orderly, hphase] at horderly
  · obtain ⟨hpublishing, habsent, hevent⟩ := horderly
    cases hstep with
    | startup hp => rcases hp with hp | hp <;> cases hphase.symm.trans hp
    | recovered hp => cases hphase.symm.trans hp
    | recoveryRaises hp => cases hphase.symm.trans hp
    | shutdown hp => cases hphase.symm.trans hp
    | stopped hp => cases hphase.symm.trans hp
    | loopTurn _ hended =>
      obtain ⟨hphase', -, hlt⟩ := loopTurn_toGo hphase hevent habsent hended
      exact .inr ⟨.inl hphase', hlt⟩
    | joined _ hended =>
      rcases stopRates_cases app with hdown | ⟨i, hclosing⟩
      · exact .inl hdown
      · refine .inr ⟨.inr ⟨i, hclosing⟩, ?_⟩
        have htoGo : app.toGo = 3 := by
          rw [Application.toGo, hphase, hended]
        rw [toGo_of_closing hclosing, htoGo]
        split <;> omega
    | @publisher i hi =>
      -- nobody has asked it to stop, so it publishes
      obtain ⟨j, hcurrent, hj⟩ := hpublishing.running
      cases hcurrent.symm.trans (hsound.in_slot hpublishing.in_time hi)
      exact absurd ⟨i, hj, rfl⟩ hnot
  · obtain ⟨-, -, -, -, hloop⟩ := horderly
    cases hstep with
    | startup hp => rcases hp with hp | hp <;> cases hphase.symm.trans hp
    | recovered hp => cases hphase.symm.trans hp
    | recoveryRaises hp => cases hphase.symm.trans hp
    | shutdown hp => cases hphase.symm.trans hp
    | joined hp => cases hphase.symm.trans hp
    | loopTurn _ hended => exact absurd hloop hended
    | stopped => exact .inl rfl
    | @publisher j hj =>
      obtain ⟨rfl, hcancelling⟩ :=
        cancelling_of_closing hsound (orderly_of_reachable h) hphase hj
      refine .inr ⟨.inr ⟨j, hphase⟩, ?_⟩
      have hover : ¬ (app.rates.turn (RateBook.body edgeStream) j).Live j := by
        rw [Slot.turn, hcancelling]
        exact Slot.not_live_of_cancelled (List.getElem?_set_self hj.lt)
      have htoGo := @toGo_of_closing
        { app with rates := app.rates.turn (RateBook.body edgeStream) j } j hphase
      rw [toGo_of_closing hphase, if_pos hj, htoGo, if_neg hover]
      omega

theorem stopping_of_publications {mid : Application} (h : application.Reachable app)
    (hstopping : app.Stopping) (hmid : Relation.ReflTransGen Application.Publication app mid) :
    application.Reachable mid ∧ mid.Stopping ∧ mid.toGo = app.toGo := by
  induction hmid with
  | refl => exact ⟨h, hstopping, rfl⟩
  | tail _ hpublication ih =>
    obtain ⟨hmid, hstop, heq⟩ := ih
    obtain ⟨hstop', heq'⟩ := stopping_of_publication hmid hstop hpublication
    exact ⟨hmid.step (step_of_publication hpublication), hstop', heq'.trans heq⟩

/-- **A shutdown comes to its end**, however often the rates are published meanwhile. -/
theorem stopping_completes (h : application.Reachable app) (hstopping : app.Stopping) :
    Inevitably Application.Onward (fun app => app.phase = .down) app := by
  refine @Inevitably.of_rank _ _ _ _ (fun app => application.Reachable app ∧ app.Stopping)
    Application.toGo ?_ ?_ ⟨h, hstopping⟩
  · rintro app ⟨h, hstopping⟩
    obtain ⟨app', hstep, hnot⟩ := exists_step_of_stopping h hstopping
    exact ⟨app', app, .refl, hstep, hnot⟩
  · rintro app app' ⟨h, hstopping⟩ ⟨mid, hmid, hstep, hnot⟩
    obtain ⟨hreach, hstop, heq⟩ := stopping_of_publications h hstopping hmid
    rw [← heq]
    rcases toGo_step hreach hstop hstep hnot with hdown | ⟨hstop', hlt⟩
    · exact .inl hdown
    · exact .inr ⟨⟨hreach.step hstep, hstop'⟩, hlt⟩

/-! ## Whole lives of an application -/

theorem Application.Orderly.in_time (h : app.Orderly) : app.rates.late = 0 := by
  unfold Application.Orderly at h
  split at h
  · exact h.2.2.1
  · exact h.1.in_time
  · exact h.1.in_time
  · exact h.1.in_time
  · exact h.1.in_time
  · exact h.2.2.2.1

/-- The rates can be quoted, in every currency but the source's. -/
theorem Streamed.quote {rates : Rates} {target : Currency} (h : Streamed rates)
    (htarget : target ≠ .usd) (publisher : Publisher) :
    ((rates.book publisher).quote target).isSome := by
  obtain ⟨version, routes, hsnapshot, hroutes⟩ := h
  obtain ⟨routes', hroutes', hrouted⟩ := inserts_of_stream version
  cases hroutes.symm.trans hroutes'
  obtain ⟨quote, hquote, -⟩ := hrouted target htarget
  rw [RateBook.quote, Rates.book, hsnapshot, Option.bind_some]
  dsimp only
  rw [hquote]
  rfl

theorem Publishing.live_card {rates : Slot Rates} (hsound : rates.Sound) (h : Publishing rates) :
    rates.live.card = 1 := by
  obtain ⟨i, -, hi⟩ := h.running
  have hpos := Finset.card_pos.mpr ⟨i, Slot.mem_live.mpr (.inl hi)⟩
  have hle := hsound.live_card_le
  rw [h.in_time] at hle
  omega

/-- **The lives of an application are orderly**, however often it is started and shut down,
and whatever comes of its recovery passes.  Its rate book is in a state of the atomic one.
While it serves there is a single publisher, there is a rate for every target, and the loop
goes on.  The loop makes no pass while the startup makes one, nor once the shutdown has
joined it.  When the application is down no publisher is left; where a startup was given up
there is still one.  And a shutdown comes to its end: that a recovery pass it waits for ends
is taken for granted, as a step of the pass. -/
theorem lifespan_orderly (h : application.Reachable app) :
    (books edgeStream).Reachable (.ofAtomic app.rates.view) ∧
    (app.phase = .serving → app.rates.live.card = 1 ∧ app.loop ≠ .absent ∧ app.loop ≠ .ended ∧
      ∀ target, target ≠ .usd → ((RateBook.ofAtomic app.rates.view).quote target).isSome) ∧
    (app.loop = .passing → app.phase = .serving ∨ app.phase = .joining) ∧
    (app.phase = .down → app.rates.live = ∅) ∧
    (app.phase = .aborted → app.rates.live.card = 1) ∧
    (app.Stopping → Inevitably Application.Onward (fun app => app.phase = .down) app) := by
  have hrates := publishers_of_application h
  have hsound : app.rates.Sound := Slot.sound_of_reachable hrates
  have horderly := orderly_of_reachable h
  refine ⟨RateBook.reachable_of_atomic (Slot.atomic_of_slot hrates horderly.in_time),
    fun hphase => ?_, fun hloop => ?_, fun hphase => ?_, fun hphase => ?_, stopping_completes h⟩
  · rw [Application.Orderly, hphase] at horderly
    obtain ⟨hpublishing, habsent, hended, -⟩ := horderly
    exact ⟨hpublishing.live_card hsound, habsent, hended, fun target htarget =>
      hpublishing.streamed.quote htarget _⟩
  · unfold Application.Orderly at horderly
    cases hphase : app.phase <;> rw [hphase] at horderly <;> dsimp only at horderly
    case serving => exact .inl rfl
    case joining => exact .inr rfl
    case down => rcases horderly.2.2.2 with hnot | hnot <;> cases hloop.symm.trans hnot
    case aborted => cases hloop.symm.trans horderly.2
    case recovering => cases hloop.symm.trans horderly.2.1
    case closing => cases hloop.symm.trans horderly.2.2.2.2
  · rw [Application.Orderly, hphase] at horderly
    obtain ⟨hcurrent, -, hlate, -⟩ := horderly
    exact hsound.live_eq_empty hlate hcurrent
  · rw [Application.Orderly, hphase] at horderly
    exact horderly.1.live_card hsound

theorem lifespan_orderly_serving :
    ∃ app : Application, application.Reachable app ∧ app.phase = .serving ∧
      app.rates.live.card = 1 := by
  have h : application.Reachable Application.created.startup :=
    .step (.init rfl) (.startup (.inl rfl))
  have hphase := (orderly_startup orderly_created (.inl rfl)).1
  have hserving := h.step (.recovered hphase)
  obtain ⟨-, hpublishing, -⟩ := lifespan_orderly hserving
  exact ⟨_, hserving, rfl, (hpublishing rfl).1⟩

end

end SettlementRouter
