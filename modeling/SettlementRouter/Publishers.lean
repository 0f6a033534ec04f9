import SettlementRouter.RateBook
import SettlementRouter.RateStream
import SettlementRouter.TaskSlot

/-! # The publishers of a rate book

`RateBook.start`, `stop` and `_run` of `app/routing.py`, as they run on the event loop: the
attribute `_task` is a slot (`TaskSlot`), for the task that publishes.

`start` awaits nothing and `stop` awaits the task.  If a `start` comes after that has ended
and before the `stop` goes on, the `stop` drops the new task from the book, and the next
`start` makes a second publisher (`two_publishers`).  That is the only way
(`publishers_bounded`): without it the book is the one whose operations are atomic, and
after a `stop` nothing publishes.
-/
namespace SettlementRouter

open TaskSlot (Slot)

/-- What a rate book holds besides its task. -/
structure Rates where
  snapshot : Option RateSnapshot
  calls : ℕ

namespace Rates

/-- No snapshot, and the factory not called yet. -/
def empty : Rates := ⟨none, 0⟩

/-- A rate book with this task. -/
def book (rates : Rates) (publisher : Publisher) : RateBook :=
  ⟨rates.snapshot, publisher, rates.calls⟩

end Rates

namespace RateBook

/-- A rate book without its task. -/
def rates (book : RateBook) : Rates := ⟨book.snapshot, book.calls⟩

/-- `stop`, as if at once. -/
def stop (book : RateBook) : RateBook :=
  if book.publisher = .ticking then { book with publisher := .absent } else book

/-- What `start` does before it makes a task. -/
def enter (factory : EdgeFactory) (rates : Rates) : Rates × Bool :=
  match RateBook.start factory (rates.book .absent) with
  | .ok book => (book.rates, true)
  -- the factory was called all the same
  | .error _ => ({ rates with calls := rates.calls + 1 }, false)

/-- One turn of the loop of `_run`, after `asyncio.sleep`. -/
def run (factory : EdgeFactory) (rates : Rates) : Rates × Bool :=
  let book := (rates.book .ticking).tick factory
  (book.rates, book.publisher = .ticking)

/-- The task that publishes, as a slot sees it. -/
def body (factory : EdgeFactory) : TaskSlot.Body Rates := ⟨enter factory, run factory⟩

/-- `publish`, called from outside. -/
def Publishes (rates rates' : Rates) : Prop :=
  ∃ edges version book,
    (rates.book .absent).publish edges version = .ok book ∧ book.rates = rates'

/-- The operations as if each was atomic. -/
inductive Step (factory : EdgeFactory) (book : RateBook) : RateBook → Prop
  | start {book'} : book.start factory = .ok book' → Step factory book book'
  | startRaises {error} : book.start factory = .error error →
      Step factory book { book with calls := book.calls + 1 }
  | stop : Step factory book book.stop
  | tick : Step factory book (book.tick factory)
  | publish {edges version book'} : book.publish edges version = .ok book' →
      Step factory book book'

end RateBook

/-- A rate book on the event loop, under any use. -/
def publishers (factory : EdgeFactory) : TransitionSystem (Slot Rates) :=
  TaskSlot.slots (RateBook.body factory) RateBook.Publishes (· = .empty)

/-- A rate book whose operations are atomic. -/
def books (factory : EdgeFactory) : TransitionSystem RateBook where
  init book := book = .empty
  step := RateBook.Step factory

/-- The publisher that a slot in this phase holds. -/
def Publisher.ofPhase : TaskSlot.Phase → Publisher
  | .idle => .absent
  | .live => .ticking
  | .failed => .failed

/-- The rate book of an atomic slot. -/
def RateBook.ofAtomic (a : TaskSlot.Atomic Rates) : RateBook := a.data.book (.ofPhase a.phase)

/-! ## The atomic slot is the rate book -/

namespace RateBook
variable {factory : EdgeFactory} {rates rates' : Rates} {a a' : TaskSlot.Atomic Rates}
  {book : RateBook} {publisher : Publisher}

theorem book_rates (h : book.publisher = publisher) : book.rates.book publisher = book := by
  subst h
  rfl

theorem publish_book (rates : Rates) (publisher : Publisher) (edges : List Edge) (version : ℤ) :
    (rates.book publisher).publish edges version =
      ((rates.book .absent).publish edges version).map fun book => { book with publisher } := by
  unfold publish
  cases computeRoutes edges version .usd <;> rfl

/-- Whether the book is ticking is all that `start` asks of its publisher. -/
theorem start_book (h : publisher ≠ .ticking) :
    (rates.book publisher).start factory = (rates.book .absent).start factory := by
  have hidle : (rates.book publisher).publisher ≠ .ticking := h
  have habsent : (rates.book .absent).publisher ≠ .ticking := nofun
  unfold start
  rw [if_neg hidle, if_neg habsent]
  dsimp only [Rates.book]
  cases rates.snapshot with
  | some snapshot => rfl
  | none =>
    unfold publish
    cases computeRoutes (factory rates.calls 1) 1 .usd <;> rfl

theorem publisher_of_start {before : RateBook} (h : before.publisher ≠ .ticking)
    (hstart : before.start factory = .ok book) : book.publisher = .ticking := by
  obtain ⟨_, _, rfl⟩ := start_eq h hstart
  rfl

theorem publisher_of_publish {edges : List Edge} {version : ℤ} {before : RateBook}
    (h : before.publish edges version = .ok book) : book.publisher = before.publisher := by
  unfold publish at h
  cases hroutes : computeRoutes edges version .usd with
  | ok routes =>
    rw [hroutes] at h
    cases h
    rfl
  | error error =>
    rw [hroutes] at h
    cases h

theorem publisher_of_tick (h : book.publisher = .ticking) :
    (book.tick factory).publisher = .ticking ∨ (book.tick factory).publisher = .failed := by
  unfold tick
  rw [if_neg (not_not.mpr h)]
  split
  · exact .inr rfl
  · dsimp only
    split
    · rename_i hpublish
      exact .inl ((publisher_of_publish hpublish).trans h)
    · exact .inr rfl

theorem enter_of_ok (h : (rates.book .absent).start factory = .ok book) :
    (body factory).enter rates = (book.rates, true) := by
  show enter factory rates = _
  rw [enter, h]

theorem enter_of_error {error : InvalidRateGraph}
    (h : (rates.book .absent).start factory = .error error) :
    (body factory).enter rates = ({ rates with calls := rates.calls + 1 }, false) := by
  show enter factory rates = _
  rw [enter, h]

theorem turn_body (rates : Rates) : (body factory).turn rates =
    (((rates.book .ticking).tick factory).rates,
      decide (((rates.book .ticking).tick factory).publisher = .ticking)) := rfl

theorem ofPhase_ne {phase : TaskSlot.Phase} (h : phase ≠ .live) :
    Publisher.ofPhase phase ≠ .ticking := by
  cases phase with
  | idle => nofun
  | live => exact absurd rfl h
  | failed => nofun

/-! ### What the atomic slot does, the rate book does -/

theorem step_of_start (a : TaskSlot.Atomic Rates) :
    Step factory (ofAtomic a) (ofAtomic (a.start (body factory))) := by
  obtain ⟨rates, phase⟩ := a
  by_cases hlive : phase = .live
  · subst hlive
    exact .start rfl
  · have hidle := ofPhase_ne hlive
    unfold TaskSlot.Atomic.start
    rw [if_neg hlive]
    cases hstart : (rates.book .absent).start factory with
    | ok book =>
      rw [enter_of_ok hstart]
      refine .start ?_
      rw [ofAtomic, start_book hidle, hstart]
      exact congrArg _ (book_rates (publisher_of_start (by nofun) hstart)).symm
    | error error =>
      rw [enter_of_error hstart]
      exact .startRaises ((start_book hidle).trans hstart)

theorem ofAtomic_stop (a : TaskSlot.Atomic Rates) : ofAtomic a.stop = (ofAtomic a).stop := by
  obtain ⟨rates, phase⟩ := a
  cases phase <;> rfl

theorem ofAtomic_turn (a : TaskSlot.Atomic Rates) :
    ofAtomic (a.turn (body factory)) = (ofAtomic a).tick factory := by
  obtain ⟨rates, phase⟩ := a
  unfold TaskSlot.Atomic.turn
  cases phase with
  | idle => rfl
  | failed => rfl
  | live =>
    rw [if_pos rfl, turn_body]
    have hbook : (rates.book .ticking).publisher = .ticking := rfl
    rcases @publisher_of_tick factory _ hbook with hticks | hfails
    · rw [hticks]
      exact book_rates hticks
    · rw [hfails]
      exact book_rates hfails

theorem step_of_atomic (h : TaskSlot.Atomic.Step (body factory) Publishes a a') :
    Step factory (ofAtomic a) (ofAtomic a') := by
  cases h with
  | start => exact step_of_start a
  | stop => exact ofAtomic_stop a ▸ .stop
  | turn => exact ofAtomic_turn a ▸ .tick
  | other hother =>
    obtain ⟨edges, version, book, hpublish, rfl⟩ := hother
    refine @Step.publish factory _ edges version _ ?_
    rw [ofAtomic, publish_book, hpublish]
    rfl

theorem reachable_of_atomic
    (h : (TaskSlot.atomics (body factory) Publishes (· = .empty)).Reachable a) :
    (books factory).Reachable (ofAtomic a) := by
  induction h with
  | @init a hinit =>
    obtain ⟨hdata, hphase⟩ := hinit
    refine .init ?_
    rw [ofAtomic, hdata, hphase]
    rfl
  | step _ hstep ih => exact ih.step (step_of_atomic hstep)

end RateBook

/-! ## The book on the event loop -/

section
variable {factory : EdgeFactory} {rates rates' : Rates} {s : Slot Rates}

theorem snapshot_of_start {before book : RateBook} (hidle : before.publisher ≠ .ticking)
    (h : before.start factory = .ok book) : book.snapshot.isSome := by
  obtain ⟨_, _, rfl⟩ := RateBook.start_eq hidle h
  rfl

theorem snapshot_of_publish {before book : RateBook} {edges : List Edge} {version : ℤ}
    (h : before.publish edges version = .ok book) : book.snapshot.isSome := by
  unfold RateBook.publish at h
  cases hroutes : computeRoutes edges version .usd with
  | ok routes =>
    rw [hroutes] at h
    cases h
    rfl
  | error error =>
    rw [hroutes] at h
    cases h

theorem snapshot_of_tick {book : RateBook} (h : book.snapshot.isSome) :
    (book.tick factory).snapshot.isSome := by
  unfold RateBook.tick
  split
  · exact h
  · split
    · exact h
    · dsimp only
      split
      · rename_i hpublish
        exact snapshot_of_publish hpublish
      · exact h

/-- **The assertion of `_run` never fails**: a task is made when there is a snapshot. -/
theorem snapshot_of_publishers (h : (publishers factory).Reachable s) (htasks : s.tasks ≠ []) :
    s.data.snapshot.isSome := by
  refine Slot.entered_of_reachable (P := fun rates => rates.snapshot.isSome) ?_ ?_ ?_ h htasks
  · intro rates hrates
    show (RateBook.enter factory rates).1.snapshot.isSome
    unfold RateBook.enter
    cases hstart : (rates.book .absent).start factory with
    | ok book => exact snapshot_of_start (by nofun) hstart
    | error error =>
      rcases hrates with hsome | htrue
      · exact hsome
      · have hfalse : (RateBook.enter factory rates).2 = false := by
          rw [RateBook.enter, hstart]
        cases hfalse.symm.trans htrue
  · exact fun rates hrates => @snapshot_of_tick factory (rates.book .ticking) hrates
  · rintro rates _ - ⟨edges, version, book, hpublish, rfl⟩
    exact snapshot_of_publish hpublish

/-- **There is one publisher, and at most one more for each late `start`**, whoever calls
`start`, `stop` and `publish` and in whatever order the tasks are run.  Each publisher has a
snapshot to go on from.  Without a late `start`, the book is in a state that it reaches by
atomic operations, and no publisher is left where a `stop` has emptied it. -/
theorem publishers_bounded (h : (publishers factory).Reachable s) :
    s.live.card ≤ 1 + s.late ∧ (s.tasks ≠ [] → s.data.snapshot.isSome) ∧
      (s.late = 0 → (books factory).Reachable (.ofAtomic s.view) ∧
        (s.current = none → s.live = ∅)) := by
  have hsound : s.Sound := Slot.sound_of_reachable h
  exact ⟨hsound.live_card_le, snapshot_of_publishers h, fun hlate =>
    ⟨RateBook.reachable_of_atomic (Slot.atomic_of_slot h hlate), hsound.live_eq_empty hlate⟩⟩

/-- A `start` in the wrong moment makes two publishers. -/
theorem two_publishers (h : Accepted (factory 0 1) 1) :
    ∃ s, (publishers factory).Reachable s ∧ s.live.card = 2 ∧ s.late = 1 := by
  obtain ⟨routes, hroutes⟩ := h
  have henter : RateBook.enter factory .empty = (⟨some ⟨1, routes⟩, 1⟩, true) := by
    unfold RateBook.enter RateBook.start
    rw [if_neg (by nofun)]
    simp only [Rates.book, Rates.empty, RateBook.publish_of_accepted hroutes]
    rfl
  exact Slot.exists_stray rfl henter rfl

/-- The edge factory of the service. -/
def edgeStream : EdgeFactory := fun _ version => generateEdges version

theorem accepted_edgeStream (calls : ℕ) (version : ℤ) :
    Accepted (edgeStream calls version) version :=
  let ⟨routes, hroutes, _⟩ := inserts_of_stream version
  ⟨routes, hroutes⟩

theorem publishers_bounded_two : ∃ s : Slot Rates, (publishers edgeStream).Reachable s ∧
    s.late = 1 ∧ s.live.card = 2 ∧ s.live.card ≤ 1 + s.late := by
  obtain ⟨s, hs, hlive, hlate⟩ := two_publishers (accepted_edgeStream 0 1)
  exact ⟨s, hs, hlate, hlive, (publishers_bounded hs).1⟩

end

end SettlementRouter
