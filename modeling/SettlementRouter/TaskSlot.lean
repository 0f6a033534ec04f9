import Mathlib.Data.Finset.Card
import Mathlib.Order.Lattice
import SettlementRouter.Runs

/-! # A slot for a background task

On a cooperative scheduler, an object keeps its background task in a slot.  `start` makes a
task, unless the one in the slot is still at work; `stop` asks the task in the slot to stop,
waits until it has, and empties the slot.  The task does one turn of a loop after another,
with a pause before each: where it has been asked to stop, the pause is where it ends.

`start` does not wait, so nothing comes between its steps.  `stop` does: what it finds in
the slot when it goes on may not be what it waited for.  A task made in between is then at
work and in no slot: a stray (`stray`), which no `stop` will ever reach.

How many there can be is exact: at most one for every start that made a task while a
`stop` had still to go on (`Slot.Sound`).  Without such a start there is never a second
task at work, and the slot behaves as one whose operations are atomic (`atomic_of_slot`),
a `stop` taking effect when the task ends.
-/

namespace TaskSlot

/-- What a slot is for. -/
structure Body (σ : Type*) where
  /-- What `start` does before it makes the task, and whether it goes well. -/
  enter : σ → σ × Bool
  /-- One turn of the task, and whether it goes well. -/
  turn : σ → σ × Bool

/-- A task, once it was made. -/
inductive Task where
  | running
  /-- It was asked to stop. -/
  | cancelling
  | cancelled
  | failed
  deriving DecidableEq

/-- A slot for one task, and what it works on. -/
structure Slot (σ : Type*) where
  data : σ
  /-- All the tasks there have been, in the order they were made. -/
  tasks : List Task
  current : Option ℕ
  /-- The stops that wait, each for a task. -/
  stops : List ℕ
  /-- How often a task was made while a stop had still to go on. -/
  late : ℕ

namespace Slot
variable {σ : Type*} (body : Body σ) (s : Slot σ) (i : ℕ)

/-- The task is not done. -/
def Live : Prop := s.tasks[i]? = some .running ∨ s.tasks[i]? = some .cancelling

instance : Decidable (s.Live i) := inferInstanceAs (Decidable (_ ∨ _))

/-- The task in the slot is not done. -/
def Busy : Prop := ∃ i ∈ s.current, s.Live i

/-- A stop has still to go on: what it waited for is done. -/
def Due : Prop := ∃ i ∈ s.stops, ¬ s.Live i

instance : Decidable s.Busy :=
  decidable_of_iff (s.current.any fun i => s.Live i) (by simp [Busy, Option.any_eq_true])

instance : Decidable s.Due := inferInstanceAs (Decidable (∃ i ∈ s.stops, _))

/-- A slot in which no task was made. -/
def empty (data : σ) : Slot σ := ⟨data, [], none, [], 0⟩

/-- A new task, in the slot. -/
def create : Slot σ := { s with
  tasks := s.tasks ++ [.running]
  current := some s.tasks.length
  late := if s.Due then s.late + 1 else s.late }

/-- `start`: nothing while a task is at work, else a new one. -/
def start : Slot σ :=
  if s.Busy then s
  else match body.enter s.data with
    | (data, false) => { s with data }
    | (data, true) => { s with data }.create

/-- The task is asked to stop, and a stop waits for it. -/
def cancel : Slot σ :=
  { s with tasks := s.tasks.set i .cancelling, stops := i :: s.stops }

/-- What a stop does once the task is over: what that raised is raised here, unless that
it was cancelled. -/
def settle : Slot σ :=
  if s.tasks[i]? = some .failed then s else { s with current := none }

/-- `stop`, until it waits or is over. -/
def stop : Slot σ :=
  match s.current with
  | none => s
  | some i => if s.Live i then s.cancel i else s.settle i

/-- The rest of a stop that waited for the task. -/
def resume : Slot σ :=
  if i ∈ s.stops ∧ ¬ s.Live i then { s with stops := s.stops.erase i }.settle i else s

/-- The task is over, like this. -/
def finish (task : Task) : Slot σ := { s with tasks := s.tasks.set i task }

/-- The pause of the task is over. -/
def turn : Slot σ :=
  match s.tasks[i]? with
  | some .running => match body.turn s.data with
    | (data, true) => { s with data }
    | (data, false) => { s with data }.finish i .failed
  | some .cancelling => s.finish i .cancelled
  | _ => s

/-- What anything does; `other` is what is done to the data from outside. -/
inductive Step (other : σ → σ → Prop) (s : Slot σ) : Slot σ → Prop
  | start : Step other s (s.start body)
  | stop : Step other s s.stop
  | resume i : Step other s (s.resume i)
  | turn i : Step other s (s.turn body i)
  | other {data} : other s.data data → Step other s { s with data }

/-- The tasks at work. -/
def live : Finset ℕ := (Finset.range s.tasks.length).filter s.Live

/-- The tasks at work that are not in the slot. -/
def stray : Finset ℕ := s.live.filter fun i => s.current ≠ some i

end Slot

/-- A slot under any use. -/
def slots {σ : Type*} (body : Body σ) (other : σ → σ → Prop) (init : σ → Prop) :
    TransitionSystem (Slot σ) where
  init s := ∃ data, init data ∧ s = .empty data
  step := Slot.Step body other

/-! ## How many tasks are at work -/

namespace Slot
variable {σ : Type*} {body : Body σ} {other : σ → σ → Prop} {s s' : Slot σ} {i j : ℕ}

theorem Live.lt (h : s.Live i) : i < s.tasks.length := by
  rcases h with h | h <;> exact (List.getElem?_eq_some_iff.mp h).1

theorem mem_live : i ∈ s.live ↔ s.Live i := by
  rw [live, Finset.mem_filter, Finset.mem_range, and_iff_right_iff_imp]
  exact Live.lt

theorem mem_stray : i ∈ s.stray ↔ s.Live i ∧ s.current ≠ some i := by
  rw [stray, Finset.mem_filter, mem_live]

/-- **The stray tasks are counted.** -/
structure Sound (s : Slot σ) : Prop where
  current_lt : ∀ i ∈ s.current, i < s.tasks.length
  stops : ∀ i ∈ s.stops, s.tasks[i]? = some .cancelling ∨ s.tasks[i]? = some .cancelled
  /-- A task in the slot that a stop is yet to find there counts as well. -/
  stray_le : s.stray.card + (if s.Busy ∧ s.Due then 1 else 0) ≤ s.late
  in_time : s.late = 0 → ∀ i ∈ s.stops, s.current = some i ∨ s.current = none

theorem sound_empty (data : σ) : (empty data).Sound where
  current_lt _ h := nomatch h
  stops _ h := nomatch h
  stray_le := Nat.le_refl 0
  in_time _ _ h := nomatch h

theorem live_of_append (h : s'.tasks = s.tasks ++ [.running]) (j : ℕ) :
    s'.Live j ↔ s.Live j ∨ j = s.tasks.length := by
  rw [Live, Live, h]
  rcases lt_trichotomy j s.tasks.length with hlt | rfl | hgt
  · rw [List.getElem?_append_left hlt]
    simp [hlt.ne]
  · simp
  · rw [List.getElem?_eq_none (by simpa using Nat.succ_le_of_lt hgt),
      List.getElem?_eq_none hgt.le]
    simp [hgt.ne']

theorem live_of_cancel (h : s'.tasks = s.tasks.set i .cancelling) (hi : s.Live i) (j : ℕ) :
    s'.Live j ↔ s.Live j := by
  by_cases hj : j = i
  · subst hj
    refine iff_of_true ?_ hi
    rw [Live, h, List.getElem?_set_self hi.lt]
    exact .inr rfl
  · rw [Live, Live, h, List.getElem?_set_ne (Ne.symm hj)]

/-- A task that ends is no longer at work, and nothing else changes. -/
theorem live_of_end {task : Task} (h : s'.tasks = s.tasks.set i task)
    (htask : task = .cancelled ∨ task = .failed) (hi : s.Live i) (j : ℕ) :
    s'.Live j ↔ s.Live j ∧ j ≠ i := by
  by_cases hj : j = i
  · subst hj
    refine iff_of_false ?_ fun hlive => hlive.2 rfl
    rw [Live, h, List.getElem?_set_self hi.lt]
    rcases htask with rfl | rfl <;> simp
  · rw [Live, Live, h, List.getElem?_set_ne (Ne.symm hj), and_iff_left hj]

theorem not_live_of_cancelled (h : s.tasks[i]? = some .cancelled) : ¬ s.Live i := by
  rw [Live, h]
  simp

/-- One task at work may be in the slot. -/
theorem live_card_le (s : Slot σ) : s.live.card ≤ s.stray.card + if s.Busy then 1 else 0 := by
  split_ifs with hbusy
  · obtain ⟨i, hi, -⟩ := hbusy
    have hsubset : s.live ⊆ insert i s.stray := by
      intro j hj
      by_cases hij : i = j
      · exact hij ▸ Finset.mem_insert_self i _
      · refine Finset.mem_insert_of_mem (mem_stray.mpr ⟨mem_live.mp hj, ?_⟩)
        rw [hi]
        exact fun heq => hij (Option.some.inj heq)
    exact (Finset.card_le_card hsubset).trans (Finset.card_insert_le _ _)
  · exact Finset.card_le_card fun j hj =>
      mem_stray.mpr ⟨mem_live.mp hj, fun heq => hbusy ⟨j, heq, mem_live.mp hj⟩⟩

/-! ### Every operation keeps the count -/

/-- Nothing looks at the data. -/
theorem Sound.with_data (h : s.Sound) (data : σ) : Sound { s with data } :=
  ⟨h.current_lt, h.stops, h.stray_le, h.in_time⟩

theorem Sound.stops_lt (h : s.Sound) : ∀ i ∈ s.stops, i < s.tasks.length := fun i hi => by
  rcases h.stops i hi with hi | hi <;> exact (List.getElem?_eq_some_iff.mp hi).1

theorem Sound.create (h : s.Sound) (hbusy : ¬ s.Busy) : s.create.Sound := by
  have hlive : ∀ j, s.create.Live j ↔ s.Live j ∨ j = s.tasks.length := live_of_append rfl
  have hdue : s.create.Due ↔ s.Due := by
    refine exists_congr fun i => and_congr_right fun hi => not_congr ?_
    rw [hlive, or_iff_left (h.stops_lt i hi).ne]
  have hstray : s.create.stray = s.stray := by
    ext j
    rw [mem_stray, mem_stray, hlive]
    constructor
    · rintro ⟨hj | rfl, hne⟩
      · exact ⟨hj, fun heq => hbusy ⟨j, heq, hj⟩⟩
      · exact absurd rfl hne
    · rintro ⟨hj, -⟩
      exact ⟨.inl hj, fun heq => hj.lt.ne' (Option.some.inj heq)⟩
  have hcount := h.stray_le
  refine ⟨?_, fun i hi => ?_, ?_, fun hlate i hi => ?_⟩
  · rintro i ⟨⟩
    simp [Slot.create]
  · rw [Slot.create, List.getElem?_append_left (h.stops_lt i hi)]
    exact h.stops i hi
  · rw [hstray]
    simp only [hdue]
    by_cases hd : s.Due
    · have hlate : s.create.late = s.late + 1 := if_pos hd
      split_ifs <;> omega
    · have hlate : s.create.late = s.late := if_neg hd
      rw [if_neg fun hboth => hd hboth.2]
      omega
  · -- a stop that waits finds its task in the slot, or a stray
    exfalso
    by_cases hd : s.Due
    · rw [Slot.create, if_pos hd] at hlate
      cases hlate
    · have hlate : s.late = 0 := (if_neg hd).symm.trans hlate
      have hi' : s.Live i := not_not.mp fun hover => hd ⟨i, hi, hover⟩
      rcases h.in_time hlate i hi with hcurrent | hcurrent
      · exact hbusy ⟨i, hcurrent, hi'⟩
      · have hmem : i ∈ s.stray := mem_stray.mpr ⟨hi', by rw [hcurrent]; nofun⟩
        have := Finset.card_pos.mpr ⟨i, hmem⟩
        omega

theorem Sound.start (h : s.Sound) : (s.start body).Sound := by
  unfold Slot.start
  split
  · exact h
  · rename_i hbusy
    split
    · exact h.with_data _
    · exact (h.with_data _).create hbusy

theorem Sound.cancel (h : s.Sound) (hcurrent : s.current = some i) (hi : s.Live i) :
    (s.cancel i).Sound := by
  have hlive : ∀ j, (s.cancel i).Live j ↔ s.Live j := live_of_cancel rfl hi
  have hdue : (s.cancel i).Due ↔ s.Due := by
    constructor
    · rintro ⟨j, hj, hover⟩
      rw [hlive] at hover
      rcases List.mem_cons.mp hj with rfl | hj
      · exact absurd hi hover
      · exact ⟨j, hj, hover⟩
    · rintro ⟨j, hj, hover⟩
      exact ⟨j, List.mem_cons_of_mem _ hj, (not_congr (hlive j)).mpr hover⟩
  have hbusy : (s.cancel i).Busy ↔ s.Busy :=
    exists_congr fun j => and_congr_right fun _ => hlive j
  have hstray : (s.cancel i).stray = s.stray := by
    ext j
    rw [mem_stray, mem_stray, hlive]
    rfl
  refine ⟨fun j hj => ?_, fun j hj => ?_, ?_, fun hlate j hj => ?_⟩
  · simpa [Slot.cancel] using h.current_lt j hj
  · by_cases hij : j = i
    · subst hij
      exact .inl (List.getElem?_set_self hi.lt)
    · rw [Slot.cancel, List.getElem?_set_ne (Ne.symm hij)]
      exact h.stops j ((List.mem_cons.mp hj).resolve_left hij)
  · simp only [hstray, hbusy, hdue]
    exact h.stray_le
  · rcases List.mem_cons.mp hj with rfl | hj
    · exact .inl hcurrent
    · exact h.in_time hlate j hj

/-- The slot is emptied: what was at work there is a stray. -/
theorem Sound.clear (h : s.Sound) {stops : List ℕ} (hsub : stops ⊆ s.stops)
    (hdue : s.Busy → s.Due) : Sound { s with stops, current := none } where
  current_lt _ hi := nomatch hi
  stops i hi := h.stops i (hsub hi)
  stray_le := by
    have hcount := h.stray_le
    have hcard := s.live_card_le
    have hstray : ({ s with stops, current := none } : Slot σ).stray.card ≤ s.live.card :=
      Finset.card_le_card (Finset.filter_subset _ _)
    have hbusy : ¬ ({ s with stops, current := none } : Slot σ).Busy := by
      rintro ⟨i, hi, -⟩
      cases hi
    rw [if_neg fun hboth => hbusy hboth.1]
    by_cases hb : s.Busy
    · rw [if_pos hb] at hcard
      rw [if_pos ⟨hb, hdue hb⟩] at hcount
      dsimp only
      omega
    · rw [if_neg hb] at hcard
      dsimp only
      omega
  in_time _ _ _ := .inr rfl

theorem Sound.stop (h : s.Sound) : s.stop.Sound := by
  unfold Slot.stop
  split
  · exact h
  · rename_i i hcurrent
    split
    · rename_i hi
      exact h.cancel hcurrent hi
    · rename_i hi
      unfold Slot.settle
      split
      · exact h
      · refine h.clear (List.Subset.refl _) ?_
        rintro ⟨j, hj, hlive⟩
        cases hcurrent.symm.trans hj
        exact absurd hlive hi

theorem Sound.resume (h : s.Sound) (i : ℕ) : (s.resume i).Sound := by
  unfold Slot.resume
  split
  · rename_i hi
    have hcancelled : s.tasks[i]? = some .cancelled :=
      (h.stops i hi.1).resolve_left fun hcancelling => hi.2 (.inr hcancelling)
    unfold Slot.settle
    rw [if_neg (by rw [hcancelled]; nofun)]
    exact h.clear List.erase_subset fun _ => ⟨i, hi⟩
  · exact h

/-- A task ends: a stop that waits for it is due from then on, but a stray is gone. -/
theorem Sound.finish (h : s.Sound) (hi : s.Live i) {task : Task}
    (htask : task = .cancelled ∨ task = .failed) (hstops : task = .failed → i ∉ s.stops) :
    (s.finish i task).Sound := by
  have hlive : ∀ j, (s.finish i task).Live j ↔ s.Live j ∧ j ≠ i := live_of_end rfl htask hi
  have hsub : (s.finish i task).stray ⊆ s.stray.erase i := by
    intro j hj
    obtain ⟨hj, hne⟩ := mem_stray.mp hj
    obtain ⟨hj, hij⟩ := (hlive j).mp hj
    exact Finset.mem_erase.mpr ⟨hij, mem_stray.mpr ⟨hj, hne⟩⟩
  have hcard := Finset.card_le_card hsub
  have hcount := h.stray_le
  have hbusy : (s.finish i task).Busy → s.Busy ∧ s.current ≠ some i := by
    rintro ⟨j, hj, hlive'⟩
    obtain ⟨hlive', hij⟩ := (hlive j).mp hlive'
    exact ⟨⟨j, hj, hlive'⟩, fun heq => hij (Option.some.inj (hj.symm.trans heq))⟩
  refine ⟨fun j hj => ?_, fun j hj => ?_, ?_, h.in_time⟩
  · simpa [Slot.finish] using h.current_lt j hj
  · rw [Slot.finish]
    by_cases hij : j = i
    · subst hij
      rcases htask with rfl | rfl
      · exact .inr (List.getElem?_set_self hi.lt)
      · exact absurd hj (hstops rfl)
    · rw [List.getElem?_set_ne (Ne.symm hij)]
      exact h.stops j hj
  · have hlate : (s.finish i task).late = s.late := rfl
    split_ifs with hboth
    · obtain ⟨hb, hne⟩ := hbusy hboth.1
      have hmem : i ∈ s.stray := mem_stray.mpr ⟨hi, hne⟩
      have hpos := Finset.card_pos.mpr ⟨i, hmem⟩
      rw [Finset.card_erase_of_mem hmem] at hcard
      omega
    · have := Finset.card_le_card (Finset.erase_subset i s.stray)
      omega

theorem Sound.turn (h : s.Sound) (i : ℕ) : (s.turn body i).Sound := by
  unfold Slot.turn
  split
  · rename_i hi
    split
    · exact h.with_data _
    · rename_i data _
      refine (h.with_data data).finish (.inl hi) (.inr rfl) fun _ hmem => ?_
      rcases h.stops i hmem with hstop | hstop <;> cases hi.symm.trans hstop
  · rename_i hi
    exact h.finish (.inr hi) (.inl rfl) nofun
  · exact h

theorem Sound.step (h : s.Sound) (hstep : Step body other s s') : s'.Sound := by
  cases hstep with
  | start => exact h.start
  | stop => exact h.stop
  | resume i => exact h.resume i
  | turn i => exact h.turn i
  | other => exact h.with_data _

theorem sound_of_reachable {init : σ → Prop} (h : (slots body other init).Reachable s) :
    s.Sound := by
  refine h.invariant ?_ fun _ _ _ hs hstep => hs.step hstep
  rintro _ ⟨data, -, rfl⟩
  exact sound_empty data

/-- **There is one task at work, and at most one more for each late start.** -/
theorem Sound.live_card_le (h : s.Sound) : s.live.card ≤ 1 + s.late := by
  have hcard := s.live_card_le
  have hcount := h.stray_le
  split_ifs at hcard with hbusy <;> omega

theorem start_of_enter {data : σ} (hidle : ¬ s.Busy) (henter : body.enter s.data = (data, true)) :
    s.start body = ({ s with data } : Slot σ).create := by
  rw [Slot.start, if_neg hidle, henter]

/-- What a `start` that makes a task brings about, and nothing undoes, holds once there was
a task. -/
theorem entered_of_reachable {init P : σ → Prop}
    (henter : ∀ data, P data ∨ (body.enter data).2 = true → P (body.enter data).1)
    (hturn : ∀ data, P data → P (body.turn data).1)
    (hother : ∀ data data', P data → other data data' → P data')
    (h : (slots body other init).Reachable s) : s.tasks ≠ [] → P s.data := by
  refine h.invariant (I := fun s => s.tasks ≠ [] → P s.data) ?_ ?_
  · rintro _ ⟨data, -, rfl⟩ hne
    exact absurd rfl hne
  intro s s' _ hs hstep
  cases hstep with
  | start =>
    unfold Slot.start
    split
    · exact hs
    · have hentered := henter s.data
      split
      · rename_i heq
        rw [heq] at hentered
        exact fun hne => hentered (.inl (hs hne))
      · rename_i heq
        rw [heq] at hentered
        exact fun _ => hentered (.inr rfl)
  -- neither `stop` nor `resume` touches the data
  | stop =>
    unfold Slot.stop Slot.settle Slot.cancel
    repeat' split
    all_goals first | exact hs | simpa using hs
  | resume i =>
    unfold Slot.resume Slot.settle
    repeat' split
    all_goals exact hs
  | turn i =>
    have hturned := hturn s.data
    unfold Slot.turn
    split
    · rename_i hi
      have hne : s.tasks ≠ [] := fun hnil => by
        rw [hnil] at hi
        cases hi
      split
      · rename_i heq
        rw [heq] at hturned
        exact fun _ => hturned (hs hne)
      · rename_i heq
        rw [heq] at hturned
        exact fun _ => hturned (hs hne)
    · rename_i hi
      simpa [Slot.finish] using hs
    · exact hs
  | other h => exact fun hne => hother _ _ (hs hne) h

/-- The bound is met: a task that was made too early is a stray. -/
theorem exists_stray {init : σ → Prop} {data data' : σ} (hinit : init data)
    (henter : body.enter data = (data', true)) (hagain : body.enter data' = (data', true)) :
    ∃ s, (slots body other init).Reachable s ∧ s.live.card = 2 ∧ s.late = 1 := by
  have h₁ : (slots body other init).Reachable ⟨data', [.running], some 0, [], 0⟩ := by
    have hstart : (empty data).start body = ⟨data', [.running], some 0, [], 0⟩ :=
      start_of_enter (of_decide_eq_false rfl) henter
    exact .step (.init ⟨data, hinit, rfl⟩) (hstart ▸ .start)
  -- it is asked to stop and ends, and the stop has still to go on
  have h₂ : (slots body other init).Reachable ⟨data', [.cancelled], some 0, [0], 0⟩ :=
    (h₁.step .stop).step (.turn 0)
  have h₃ : (slots body other init).Reachable ⟨data', [.cancelled, .running], some 1, [0], 1⟩ := by
    have hstart : Slot.start body ⟨data', [.cancelled], some 0, [0], 0⟩ =
        ⟨data', [.cancelled, .running], some 1, [0], 1⟩ :=
      start_of_enter (of_decide_eq_false rfl) hagain
    exact h₂.step (hstart ▸ .start)
  have h₄ : (slots body other init).Reachable ⟨data', [.cancelled, .running], none, [], 1⟩ :=
    h₃.step (.resume 0)
  have hstart : Slot.start body ⟨data', [.cancelled, .running], none, [], 1⟩ =
      ⟨data', [.cancelled, .running, .running], some 2, [], 1⟩ :=
    start_of_enter (of_decide_eq_false rfl) hagain
  have h₅ : (slots body other init).Reachable
      ⟨data', [.cancelled, .running, .running], some 2, [], 1⟩ := h₄.step (hstart ▸ .start)
  exact ⟨_, h₅, rfl, rfl⟩

end Slot

/-! ## The slot as it was meant -/

/-- Whether the task of a slot is at work. -/
inductive Phase where
  | idle
  | live
  | failed
  deriving DecidableEq

/-- A slot whose operations are atomic. -/
structure Atomic (σ : Type*) where
  data : σ
  phase : Phase

namespace Atomic
variable {σ : Type*} (body : Body σ) (a : Atomic σ)

/-- A task is at work, unless `enter` goes wrong. -/
def start : Atomic σ :=
  if a.phase = .live then a
  else match body.enter a.data with
    | (data, false) => { a with data }
    | (data, true) => ⟨data, .live⟩

/-- No task is at work. -/
def stop : Atomic σ := if a.phase = .live then { a with phase := .idle } else a

/-- A turn of the task, if one is at work. -/
def turn : Atomic σ :=
  if a.phase = .live then match body.turn a.data with
    | (data, true) => { a with data }
    | (data, false) => ⟨data, .failed⟩
  else a

/-- What anything does, each at once. -/
inductive Step (other : σ → σ → Prop) (a : Atomic σ) : Atomic σ → Prop
  | start : Step other a (a.start body)
  | stop : Step other a a.stop
  | turn : Step other a (a.turn body)
  | other {data} : other a.data data → Step other a { a with data }

end Atomic

/-- An atomic slot under any use. -/
def atomics {σ : Type*} (body : Body σ) (other : σ → σ → Prop) (init : σ → Prop) :
    TransitionSystem (Atomic σ) where
  init a := init a.data ∧ a.phase = .idle
  step := Atomic.Step body other

namespace Slot
variable {σ : Type*} {body : Body σ} {other : σ → σ → Prop} {init : σ → Prop} {s s' : Slot σ}
  {i : ℕ}

/-- What the slot holds. -/
def phase (s : Slot σ) : Phase :=
  match s.current.bind (s.tasks[·]?) with
  | none | some .cancelled => .idle
  | some .running | some .cancelling => .live
  | some .failed => .failed

/-- The slot as an atomic one. -/
def view (s : Slot σ) : Atomic σ := ⟨s.data, s.phase⟩

theorem phase_of_current (h : s.current = some i) : s.phase = match s.tasks[i]? with
    | none | some .cancelled => .idle
    | some .running | some .cancelling => .live
    | some .failed => .failed := by
  rw [phase, h, Option.bind_some]

theorem phase_finish (h : s.current = some i) (hi : s.Live i) (task : Task) :
    (s.finish i task).phase = match task with
      | .cancelled => .idle
      | .running | .cancelling => .live
      | .failed => .failed := by
  have hcurrent : (s.finish i task).current = some i := h
  rw [phase_of_current hcurrent, Slot.finish, List.getElem?_set_self hi.lt]
  cases task <;> rfl

theorem phase_eq_live : s.phase = .live ↔ s.Busy := by
  cases hcurrent : s.current with
  | none =>
    rw [phase, hcurrent]
    simp [Busy, hcurrent]
  | some i =>
    have hbusy : s.Busy ↔ s.Live i := by simp [Busy, hcurrent]
    rw [phase_of_current hcurrent, hbusy, Live]
    rcases s.tasks[i]? with _ | _ | _ | _ | _ <;> simp

/-- Where no start was late, nothing is at work but what is in the slot. -/
theorem Sound.in_slot (h : s.Sound) (hlate : s.late = 0) (hi : s.Live i) : s.current = some i := by
  by_contra hne
  have hpos := Finset.card_pos.mpr ⟨i, mem_stray.mpr ⟨hi, hne⟩⟩
  have hcount := h.stray_le
  omega

/-- Then an empty slot means that nothing is at work. -/
theorem Sound.live_eq_empty (h : s.Sound) (hlate : s.late = 0) (hcurrent : s.current = none) :
    s.live = ∅ := by
  rw [Finset.eq_empty_iff_forall_notMem]
  intro i hi
  cases hcurrent.symm.trans (h.in_slot hlate (mem_live.mp hi))

theorem late_le_step (h : Step body other s s') : s.late ≤ s'.late := by
  cases h with
  | start =>
    unfold Slot.start
    split
    · exact le_rfl
    · split
      · exact le_rfl
      · show s.late ≤ if _ then s.late + 1 else s.late
        split
        · exact Nat.le_succ _
        · exact le_rfl
  | stop =>
    unfold Slot.stop Slot.settle
    repeat' split
    all_goals exact le_rfl
  | resume i =>
    unfold Slot.resume Slot.settle
    repeat' split
    all_goals exact le_rfl
  | turn i =>
    unfold Slot.turn
    repeat' split
    all_goals exact le_rfl
  | other => exact le_rfl

theorem view_start (s : Slot σ) : (s.start body).view = s.view.start body := by
  unfold Slot.start Atomic.start
  simp only [view, phase_eq_live]
  split
  · rfl
  · split
    · rfl
    · rw [phase_of_current (i := s.tasks.length) rfl, Slot.create, List.getElem?_concat_length]

/-- A stop by itself changes nothing one could see. -/
theorem view_stop (s : Slot σ) : s.stop.view = s.view := by
  unfold Slot.stop
  split
  · rfl
  · rename_i i hcurrent
    split
    · rename_i hi
      have hbusy : s.Busy := ⟨i, hcurrent, hi⟩
      have hbusy' : (s.cancel i).Busy := ⟨i, hcurrent, (live_of_cancel rfl hi i).mpr hi⟩
      rw [view, view, phase_eq_live.mpr hbusy, phase_eq_live.mpr hbusy']
      rfl
    · rename_i hi
      unfold Slot.settle
      split
      · rfl
      · rename_i hfailed
        rw [view, view, phase_of_current hcurrent]
        rw [Live] at hi
        rcases htask : s.tasks[i]? with _ | _ | _ | _ | _
        all_goals simp_all [phase]

theorem Sound.view_resume (h : s.Sound) (hlate : s.late = 0) (i : ℕ) :
    (s.resume i).view = s.view := by
  unfold Slot.resume
  split
  · rename_i hi
    have hcancelled : s.tasks[i]? = some .cancelled :=
      (h.stops i hi.1).resolve_left fun hcancelling => hi.2 (.inr hcancelling)
    unfold Slot.settle
    rw [if_neg (by rw [hcancelled]; nofun)]
    rcases h.in_time hlate i hi.1 with hcurrent | hcurrent
    · rw [view, view, phase_of_current hcurrent, hcancelled]
      rfl
    · rw [view, view, phase, phase, hcurrent]
  · rfl

/-- The task whose turn it is ends, or goes on. -/
theorem Sound.view_turn (h : s.Sound) (hlate : s.late = 0) (i : ℕ) :
    (s.turn body i).view = s.view ∨ (s.turn body i).view = s.view.turn body ∨
      (s.turn body i).view = s.view.stop := by
  unfold Slot.turn
  split
  · rename_i hi
    have hcurrent := h.in_slot hlate (.inl hi)
    have hlive : s.view.phase = .live := phase_eq_live.mpr ⟨i, hcurrent, .inl hi⟩
    refine .inr (.inl ?_)
    rw [Atomic.turn, if_pos hlive]
    simp only [view]
    split
    · rfl
    · rename_i data _
      rw [phase_finish (s := { s with data }) hcurrent (.inl hi)]
      rfl
  · rename_i hi
    have hcurrent := h.in_slot hlate (.inr hi)
    have hlive : s.view.phase = .live := phase_eq_live.mpr ⟨i, hcurrent, .inr hi⟩
    refine .inr (.inr ?_)
    rw [Atomic.stop, if_pos hlive, view, phase_finish hcurrent (.inr hi)]
    rfl
  · exact .inl rfl

/-- **An operation on the slot is the atomic one, or none.**  A stop counts when its task
ends, and then it has yet to go on. -/
theorem Sound.view_step (h : s.Sound) (hlate : s'.late = 0) (hstep : Step body other s s') :
    s'.view = s.view ∨ Atomic.Step body other s.view s'.view := by
  have hzero : s.late = 0 := Nat.eq_zero_of_le_zero ((late_le_step hstep).trans hlate.le)
  cases hstep with
  | start => exact .inr (view_start s ▸ .start)
  | stop => exact .inl (view_stop s)
  | resume i => exact .inl (h.view_resume hzero i)
  | turn i =>
    rcases h.view_turn hzero i with heq | heq | heq
    · exact .inl heq
    · exact .inr (heq ▸ .turn)
    · exact .inr (heq ▸ .stop)
  | other hother => exact .inr (.other hother)

/-- **Without late starts the slot is atomic.** -/
theorem atomic_of_slot (h : (slots body other init).Reachable s) (hlate : s.late = 0) :
    (atomics body other init).Reachable s.view := by
  induction h with
  | init hinit =>
    obtain ⟨data, hdata, rfl⟩ := hinit
    exact .init ⟨hdata, rfl⟩
  | @step s s' hs hstep ih =>
    have hzero : s.late = 0 := Nat.eq_zero_of_le_zero ((late_le_step hstep).trans hlate.le)
    rcases (sound_of_reachable hs).view_step hlate hstep with heq | hatomic
    · rw [heq]
      exact ih hzero
    · exact (ih hzero).step hatomic

end Slot

end TaskSlot
