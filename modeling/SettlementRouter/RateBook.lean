import SettlementRouter.RouteOptimality

/-! # The rate book

`RateBook` of `app/routing.py`: a task publishes a snapshot of routes in every
tick, from what an edge factory gives it, and quotes read the last one.

`publish` raises before it assigns, so a rejected graph leaves the snapshot as it
was.  The loop of the task catches nothing, though: the exception ends it, and
from then on the quotes are those of the last snapshot (`publisher_survives_iff`).
-/
namespace SettlementRouter

/-- One version of the routes. -/
structure RateSnapshot where
  version : ℤ
  routes : Currency → Option RouteQuote

/-- The task of a rate book. -/
inductive Publisher where
  | absent
  | ticking
  /-- It ended with an exception. -/
  | failed
  deriving DecidableEq

/-- A rate book: its snapshot and its task. -/
structure RateBook where
  snapshot : Option RateSnapshot
  publisher : Publisher
  /-- How often the edge factory was called. -/
  calls : ℕ

/-- What the edge factory gives, by the number of the call and the version it is
asked for. -/
abbrev EdgeFactory := ℕ → ℤ → List Edge

namespace RateBook

/-- `RateBook()`. -/
def empty : RateBook := ⟨none, .absent, 0⟩

/-- `publish`: the new routes, unless the graph is rejected. -/
def publish (book : RateBook) (edges : List Edge) (version : ℤ) :
    Except InvalidRateGraph RateBook := do
  let routes ← computeRoutes edges version .usd
  return { book with snapshot := some ⟨version, routes⟩ }

/-- `quote`, from the last snapshot. -/
def quote (book : RateBook) (target : Currency) : Option RouteQuote :=
  book.snapshot.bind fun snapshot => snapshot.routes target

/-- `start`: a first snapshot where there is none, and a task where none runs. -/
def start (factory : EdgeFactory) (book : RateBook) : Except InvalidRateGraph RateBook :=
  if book.publisher = .ticking then .ok book
  else match book.snapshot with
    | some _ => .ok { book with publisher := .ticking }
    | none => do
      let book ← publish { book with calls := book.calls + 1 } (factory book.calls 1) 1
      return { book with publisher := .ticking }

/-- One turn of the loop of `_run`: an exception leaves the loop. -/
def tick (factory : EdgeFactory) (book : RateBook) : RateBook :=
  if book.publisher ≠ .ticking then book
  else match book.snapshot with
    -- the assertion that there is a snapshot
    | none => { book with publisher := .failed }
    | some snapshot =>
      let version := snapshot.version + 1
      let edges := factory book.calls version
      let book := { book with calls := book.calls + 1 }
      match book.publish edges version with
      | .ok book => book
      | .error _ => { book with publisher := .failed }

/-- The book after `n` turns. -/
def ticks (factory : EdgeFactory) : ℕ → RateBook → RateBook
  | 0, book => book
  | n + 1, book => (ticks factory n book).tick factory

end RateBook

/-- The graph is accepted for routing from USD. -/
def Accepted (edges : List Edge) (version : ℤ) : Prop :=
  ∃ routes, computeRoutes edges version .usd = .ok routes

namespace RateBook

variable {factory : EdgeFactory} {before book : RateBook} {snapshot : RateSnapshot}
  {edges : List Edge} {version : ℤ} {calls k m n : ℕ} {routes : Currency → Option RouteQuote}

theorem publish_of_accepted (h : computeRoutes edges version .usd = .ok routes) :
    book.publish edges version = .ok { book with snapshot := some ⟨version, routes⟩ } := by
  unfold publish
  rw [h]
  rfl

theorem publish_of_rejected (book : RateBook) (h : ¬ Accepted edges version) :
    ∃ error, book.publish edges version = .error error := by
  unfold publish
  cases hroutes : computeRoutes edges version .usd with
  | ok routes => exact absurd ⟨routes, hroutes⟩ h
  | error error => exact ⟨error, rfl⟩

/-- After `start` there is a snapshot, and the task is ticking. -/
theorem start_eq (hidle : before.publisher ≠ .ticking) (h : before.start factory = .ok book) :
    ∃ snapshot calls, book = ⟨some snapshot, .ticking, calls⟩ := by
  unfold start at h
  rw [if_neg hidle] at h
  cases hsnapshot : before.snapshot with
  | some snapshot =>
    rw [hsnapshot] at h
    injection h with h
    exact ⟨snapshot, before.calls, h.symm⟩
  | none =>
    rw [hsnapshot] at h
    by_cases haccepted : Accepted (factory before.calls 1) 1
    · obtain ⟨routes, hroutes⟩ := haccepted
      rw [publish_of_accepted hroutes] at h
      injection h with h
      exact ⟨_, _, h.symm⟩
    · obtain ⟨error, herror⟩ := publish_of_rejected
        { before with calls := before.calls + 1 } haccepted
      rw [hsnapshot] at herror
      simp only [herror] at h
      cases h

/-! ## One turn -/

theorem tick_of_stopped (h : book.publisher ≠ .ticking) : book.tick factory = book := if_pos h

theorem tick_of_accepted
    (h : computeRoutes (factory calls (snapshot.version + 1)) (snapshot.version + 1) .usd =
      .ok routes) :
    tick factory ⟨some snapshot, .ticking, calls⟩ =
      ⟨some ⟨snapshot.version + 1, routes⟩, .ticking, calls + 1⟩ := by
  unfold tick
  simp [publish_of_accepted h]

theorem tick_of_rejected
    (h : ¬ Accepted (factory calls (snapshot.version + 1)) (snapshot.version + 1)) :
    tick factory ⟨some snapshot, .ticking, calls⟩ = ⟨some snapshot, .failed, calls + 1⟩ := by
  obtain ⟨error, herror⟩ := publish_of_rejected ⟨some snapshot, .ticking, calls + 1⟩ h
  unfold tick
  simp [herror]

/-- What one turn should do: publish the graph it is given if that is accepted,
leave the snapshot if it is not, and in both cases go on. -/
structure Survives (factory : EdgeFactory) (book : RateBook) : Prop where
  published : ∀ snapshot routes, book.snapshot = some snapshot →
    computeRoutes (factory book.calls (snapshot.version + 1)) (snapshot.version + 1) .usd =
      .ok routes →
    (book.tick factory).snapshot = some ⟨snapshot.version + 1, routes⟩
  kept : ∀ snapshot, book.snapshot = some snapshot →
    ¬ Accepted (factory book.calls (snapshot.version + 1)) (snapshot.version + 1) →
    (book.tick factory).snapshot = some snapshot
  ticking : (book.tick factory).publisher = .ticking

theorem survives_iff : Survives factory ⟨some snapshot, .ticking, calls⟩ ↔
    Accepted (factory calls (snapshot.version + 1)) (snapshot.version + 1) := by
  constructor
  · intro hsurvives
    by_contra hrejected
    have hticking := hsurvives.ticking
    rw [tick_of_rejected hrejected] at hticking
    cases hticking
  · intro haccepted
    refine ⟨?_, ?_, ?_⟩
    · intro _ routes heq hroutes
      cases heq
      rw [tick_of_accepted hroutes]
    · intro _ heq hrejected
      cases heq
      exact absurd haccepted hrejected
    · obtain ⟨routes, hroutes⟩ := haccepted
      rw [tick_of_accepted hroutes]

theorem not_survives_of_failed (h : book.publisher = .failed) : ¬ Survives factory book := by
  intro hsurvives
  have hticking := hsurvives.ticking
  rw [tick_of_stopped (by simp [h]), h] at hticking
  cases hticking

/-! ## Any number of turns -/

/-- What turn `k` is given, if the ones before it published. -/
def Offered (factory : EdgeFactory) (calls : ℕ) (snapshot : RateSnapshot) (k : ℕ) : Prop :=
  Accepted (factory (calls + k) (snapshot.version + (k + 1))) (snapshot.version + (k + 1))

/-- The snapshot after `k` publications. -/
def Publication (factory : EdgeFactory) (calls : ℕ) (first : RateSnapshot) :
    ℕ → RateSnapshot → Prop
  | 0, snapshot => snapshot = first
  | k + 1, snapshot => snapshot.version = first.version + (k + 1) ∧
    computeRoutes (factory (calls + k) snapshot.version) snapshot.version .usd =
      .ok snapshot.routes

theorem Publication.version_eq {first : RateSnapshot}
    (h : Publication factory calls first k snapshot) : snapshot.version = first.version + k := by
  cases k with
  | zero => rw [show snapshot = first from h]; simp
  | succ k => rw [h.1]; push_cast; rfl

/-- The book after `n` turns: either each published, or one was rejected and
nothing was published after it. -/
theorem ticks_cases (factory : EdgeFactory) (calls : ℕ) (first : RateSnapshot) (n : ℕ) :
    ((∀ k < n, Offered factory calls first k) ∧ ∃ snapshot,
      Publication factory calls first n snapshot ∧
      ticks factory n ⟨some first, .ticking, calls⟩ = ⟨some snapshot, .ticking, calls + n⟩) ∨
    ∃ k < n, (∀ j < k, Offered factory calls first j) ∧ ¬ Offered factory calls first k ∧
      ∃ snapshot, Publication factory calls first k snapshot ∧
      ticks factory n ⟨some first, .ticking, calls⟩ = ⟨some snapshot, .failed, calls + k + 1⟩ := by
  induction n with
  | zero => exact .inl ⟨by simp, first, rfl, rfl⟩
  | succ n ih =>
    obtain ⟨hoffered, snapshot, hpublication, hticks⟩ |
      ⟨k, hk, hoffered, hrejected, snapshot, hpublication, hticks⟩ := ih
    · have hversion : snapshot.version + 1 = first.version + (n + 1) := by
        rw [hpublication.version_eq]
        ring
      by_cases hn : Offered factory calls first n
      · have haccepted := hn
        unfold Offered at haccepted
        rw [← hversion] at haccepted
        obtain ⟨routes, hroutes⟩ := haccepted
        refine .inl ⟨?_, ⟨snapshot.version + 1, routes⟩, ⟨hversion, hroutes⟩, ?_⟩
        · intro k hk
          obtain hk | rfl := Nat.lt_succ_iff_lt_or_eq.mp hk
          · exact hoffered k hk
          · exact hn
        · show (ticks factory n _).tick factory = _
          rw [hticks, tick_of_accepted hroutes, Nat.add_assoc]
      · refine .inr ⟨n, n.lt_succ_self, hoffered, hn, snapshot, hpublication, ?_⟩
        unfold Offered at hn
        rw [← hversion] at hn
        show (ticks factory n _).tick factory = _
        rw [hticks, tick_of_rejected hn]
    · refine .inr ⟨k, hk.trans n.lt_succ_self, hoffered, hrejected, snapshot, hpublication, ?_⟩
      show (ticks factory n _).tick factory = _
      rw [hticks, tick_of_stopped (by simp)]

/-- A turn leaves the snapshot or replaces it by one of the next version. -/
theorem tick_version (factory : EdgeFactory) (book : RateBook) :
    (book.tick factory).snapshot = book.snapshot ∨
      ∃ old new, book.snapshot = some old ∧ (book.tick factory).snapshot = some new ∧
        new.version = old.version + 1 := by
  by_cases hticking : book.publisher = .ticking
  · obtain ⟨_ | old, _, calls⟩ := book
    · refine .inl ?_
      cases hticking
      rfl
    · cases hticking
      by_cases haccepted : Accepted (factory calls (old.version + 1)) (old.version + 1)
      · obtain ⟨routes, hroutes⟩ := haccepted
        exact .inr ⟨old, ⟨old.version + 1, routes⟩, rfl, by rw [tick_of_accepted hroutes], rfl⟩
      · exact .inl (by rw [tick_of_rejected haccepted])
  · exact .inl (by rw [tick_of_stopped hticking])

/-- The snapshot is the same, or one of a greater version. -/
def Advances (earlier later : Option RateSnapshot) : Prop :=
  later = earlier ∨ ∃ old new, earlier = some old ∧ later = some new ∧ old.version < new.version

theorem ticks_advance (factory : EdgeFactory) (book : RateBook) (h : m ≤ n) :
    Advances (ticks factory m book).snapshot (ticks factory n book).snapshot := by
  induction n, h using Nat.le_induction with
  | base => exact .inl rfl
  | succ n _ ih =>
    obtain hsame | ⟨old, new, hold, hnew, hversion⟩ := tick_version factory (ticks factory n book)
    · rw [show (ticks factory (n + 1) book).snapshot = _ from hsame]
      exact ih
    · refine .inr ?_
      rw [hold] at ih
      obtain heq | ⟨first, _, hfirst, heq, hlt⟩ := ih
      · exact ⟨old, new, heq.symm, hnew, by omega⟩
      · cases heq
        exact ⟨first, new, hfirst, hnew, by omega⟩

theorem survives_ticks_iff (first : RateSnapshot) :
    (∀ k < n, Survives factory (ticks factory k ⟨some first, .ticking, calls⟩)) ↔
      ∀ k < n, Offered factory calls first k := by
  constructor
  · intro hsurvives k hk
    have hk' := hsurvives k hk
    obtain ⟨_, snapshot, hpublication, hticks⟩ | ⟨_, _, _, _, snapshot, _, hticks⟩ :=
      ticks_cases factory calls first k
    · rw [hticks, survives_iff, hpublication.version_eq, add_assoc] at hk'
      exact hk'
    · exact absurd hk' (not_survives_of_failed (by rw [hticks]))
  · intro hoffered k hk
    obtain ⟨_, snapshot, hpublication, hticks⟩ | ⟨j, hj, _, hrejected, _⟩ :=
      ticks_cases factory calls first k
    · rw [hticks, survives_iff, hpublication.version_eq, add_assoc]
      exact hoffered k hk
    · exact absurd (hoffered j (hj.trans hk)) hrejected

/-- What a book quotes after `n` turns: a publication, and if not that of the last
turn, then because the graph after it was rejected and the task failed. -/
theorem ticks_quotes (factory : EdgeFactory) (calls : ℕ) (first : RateSnapshot) (n : ℕ) :
    ∃ k ≤ n, ∃ snapshot, Publication factory calls first k snapshot ∧
      (∀ target, (ticks factory n ⟨some first, .ticking, calls⟩).quote target =
        snapshot.routes target) ∧
      (k < n → ¬ Offered factory calls first k ∧
        (ticks factory n ⟨some first, .ticking, calls⟩).publisher = .failed) := by
  obtain ⟨_, snapshot, hpublication, hticks⟩ |
      ⟨k, hk, _, hrejected, snapshot, hpublication, hticks⟩ :=
    ticks_cases factory calls first n
  · exact ⟨n, le_rfl, snapshot, hpublication, fun target => by rw [hticks]; rfl,
      fun hlt => absurd hlt n.lt_irrefl⟩
  · exact ⟨k, hk.le, snapshot, hpublication, fun target => by rw [hticks]; rfl,
      fun _ => ⟨hrejected, by rw [hticks]⟩⟩

end RateBook

open RateBook

/-- **When the publisher survives.**  After `start`, every turn so far did what it
should exactly when every graph so far was accepted.  In any case the quotes are
those of one accepted snapshot, the last there is, and versions only grow; where a
graph was rejected, that is the one before it, for ever. -/
theorem publisher_survives_iff {factory : EdgeFactory} {before book : RateBook}
    (hidle : before.publisher ≠ .ticking) (hstart : before.start factory = .ok book) :
    ∃ first calls, book = ⟨some first, .ticking, calls⟩ ∧
      ∀ n, ((∀ k < n, Survives factory (ticks factory k book)) ↔
          ∀ k < n, Offered factory calls first k) ∧
        (∃ k ≤ n, ∃ snapshot, Publication factory calls first k snapshot ∧
          (∀ target, (ticks factory n book).quote target = snapshot.routes target) ∧
          (k < n → ¬ Offered factory calls first k ∧
            (ticks factory n book).publisher = .failed)) ∧
        ∀ m ≤ n, Advances (ticks factory m book).snapshot (ticks factory n book).snapshot := by
  obtain ⟨first, calls, rfl⟩ := start_eq hidle hstart
  exact ⟨first, calls, rfl, fun n => ⟨survives_ticks_iff first,
    ticks_quotes factory calls first n, fun m hm => ticks_advance factory _ hm⟩⟩

/-- Acceptance does not depend on the version. -/
theorem accepted_iff {edges : List Edge} (version version' : ℤ) :
    Accepted edges version ↔ Accepted edges version' := by
  unfold Accepted computeRoutes computeRoutesIn
  cases collapsedEdges edges with
  | error error => simp
  | ok collapsed =>
    dsimp only
    split_ifs <;> simp

theorem accepted_oneEdge {r : ℚ} (hr : 0 < r) (version : ℤ) : Accepted (oneEdge r) version := by
  obtain ⟨routes, hroutes, _⟩ := computeRoutes_oneEdge hr
  exact (accepted_iff 1 version).mp ⟨routes, hroutes⟩

theorem publisher_survives_iff_constant : ∃ book,
    RateBook.empty.start (fun _ _ => oneEdge 55) = .ok book ∧
    ∀ n, Survives (fun _ _ => oneEdge 55) (ticks (fun _ _ => oneEdge 55) n book) := by
  obtain ⟨routes, hroutes, _⟩ := computeRoutes_oneEdge (r := 55) (by norm_num)
  have hstart : RateBook.empty.start (fun _ _ => oneEdge 55) =
      .ok ⟨some ⟨1, routes⟩, .ticking, 1⟩ := by
    simp [RateBook.start, RateBook.empty, publish_of_accepted hroutes]
  obtain ⟨first, calls, _, hruns⟩ := publisher_survives_iff (by simp [RateBook.empty]) hstart
  exact ⟨_, hstart, fun n => (hruns (n + 1)).1.mpr
    (fun k _ => accepted_oneEdge (by norm_num) _) n n.lt_succ_self⟩

/-! ## One bad graph -/

/-- A factory that gives a rate of zero once. -/
def zeroOnce : EdgeFactory := fun n _ => oneEdge (if n = 1 then 0 else 55)

/-- After it nothing is published, though every graph to come would be accepted. -/
theorem publisher_stops_zeroOnce : ∃ book, RateBook.empty.start zeroOnce = .ok book ∧
    ¬ Accepted (zeroOnce 1 2) 2 ∧
    (∀ k ≥ 2, ∀ version, Accepted (zeroOnce k version) version) ∧
    ∀ n ≥ 1, (ticks zeroOnce n book).publisher = .failed ∧
      (ticks zeroOnce n book).snapshot = book.snapshot := by
  obtain ⟨routes, hroutes, _⟩ := computeRoutes_oneEdge (r := 55) (by norm_num)
  have hrejected : ¬ Accepted (zeroOnce 1 2) 2 := by
    rintro ⟨_, heq⟩
    simp [zeroOnce, computeRoutes, computeRoutesIn, collapsedEdges, oneEdge, collapseFrom,
      Edge.toHop] at heq
  refine ⟨⟨some ⟨1, routes⟩, .ticking, 1⟩, ?_, hrejected, ?_, ?_⟩
  · simp [RateBook.start, RateBook.empty, zeroOnce, publish_of_accepted hroutes]
  · intro k hk version
    rw [zeroOnce, if_neg (by omega)]
    exact accepted_oneEdge (by norm_num) version
  · intro n hn
    induction n, hn using Nat.le_induction with
    | base =>
      show (tick zeroOnce _).publisher = _ ∧ (tick zeroOnce _).snapshot = _
      rw [ticks, tick_of_rejected hrejected]
      exact ⟨rfl, rfl⟩
    | succ n _ ih =>
      show (tick zeroOnce _).publisher = _ ∧ (tick zeroOnce _).snapshot = _
      rw [tick_of_stopped (by simp [ih.1])]
      exact ih

end SettlementRouter
