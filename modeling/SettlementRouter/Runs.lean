import Mathlib.Logic.Relation

/-! # Runs of a transition system

A system is given by its initial states and its steps.  A state is `Reachable`
when some run ends in it, and `Later` relates a state to every state a
continuation of the run can reach.  The rules below are the only inductions
over runs the development uses: an invariant is kept by each step from a
reachable state (`Reachable.invariant`), and a reflexive and transitive relation
that holds across each step holds across a run (`Later.relates`).

`restrict` keeps the steps that meet a side condition: its runs are the runs
whose steps all meet it.

`Inevitably` is for liveness: whichever steps are taken, a state with the property
is reached, and before that there is always a step to take.

A system may keep a trace of what happened, the last event first.  `Throughout`
says of a trace that every event stands in a relation to the events before it.
-/

/-- A transition system: initial states and steps. -/
structure TransitionSystem (σ : Type*) where
  init : σ → Prop
  step : σ → σ → Prop

namespace TransitionSystem

variable {σ : Type*} (T : TransitionSystem σ)

/-- Some run of the system ends in this state. -/
inductive Reachable : σ → Prop
  | init {s} : T.init s → Reachable s
  | step {s t} : Reachable s → T.step s t → Reachable t

/-- Some continuation of a run in the first state ends in the second. -/
def Later : σ → σ → Prop := Relation.ReflTransGen T.step

/-- The same system, with only the steps that meet `C`. -/
def restrict (C : σ → σ → Prop) : TransitionSystem σ where
  init := T.init
  step s t := T.step s t ∧ C s t

variable {T} {s t : σ}

theorem Reachable.later (hs : T.Reachable s) (h : T.Later s t) : T.Reachable t := by
  induction h with
  | refl => exact hs
  | tail _ hst ih => exact .step ih hst

/-- A run starts somewhere. -/
theorem Reachable.exists_init (h : T.Reachable s) : ∃ s₀, T.init s₀ ∧ T.Later s₀ s := by
  induction h with
  | init hi => exact ⟨_, hi, .refl⟩
  | step _ hst ih =>
    obtain ⟨s₀, hi, hlater⟩ := ih
    exact ⟨s₀, hi, hlater.tail hst⟩

/-- **Invariant rule.** What holds initially and is kept by every step from a
reachable state holds in every reachable state. -/
theorem Reachable.invariant {I : σ → Prop} (h0 : ∀ s, T.init s → I s)
    (hstep : ∀ s t, T.Reachable s → I s → T.step s t → I t) (h : T.Reachable s) : I s := by
  induction h with
  | init hi => exact h0 _ hi
  | step hr hst ih => exact hstep _ _ hr ih hst

/-- A reflexive, transitive relation that holds across every step holds across
every run. -/
theorem Later.relates {R : σ → σ → Prop} (hrefl : ∀ s, R s s)
    (htrans : ∀ s t u, R s t → R t u → R s u)
    (hstep : ∀ s t, T.Reachable s → T.step s t → R s t)
    (hs : T.Reachable s) (h : T.Later s t) : R s t := by
  induction h with
  | refl => exact hrefl _
  | tail hsu hst ih => exact htrans _ _ _ ih (hstep _ _ (hs.later hsu) hst)

/-- **Simulation rule.** Where each step from the first of two related states is
answered by steps from the second, so is each run. -/
theorem Later.simulates {τ : Type*} {U : TransitionSystem τ} {R : σ → τ → Prop}
    (hstep : ∀ s t u, T.Reachable s → R s u → T.step s t → ∃ v, U.Later u v ∧ R t v)
    {u : τ} (hs : T.Reachable s) (h : T.Later s t) (hr : R s u) : ∃ v, U.Later u v ∧ R t v := by
  induction h with
  | refl => exact ⟨u, .refl, hr⟩
  | tail hst hstep' ih =>
    obtain ⟨v, huv, hv⟩ := ih
    obtain ⟨v', hvv', hv'⟩ := hstep _ _ v (hs.later hst) hv hstep'
    exact ⟨v', huv.trans hvv', hv'⟩

/-- A run whose steps meet a side condition is a run. -/
theorem Reachable.of_restrict {C : σ → σ → Prop} (h : (T.restrict C).Reachable s) :
    T.Reachable s := by
  induction h with
  | init hi => exact .init hi
  | step _ hst ih => exact .step ih hst.1

end TransitionSystem

/-! ## What must happen -/

/-- Every way to go on from here by steps of `R` leads to a state with `Q`, and
until then it is possible to go on. -/
inductive Inevitably {σ : Type*} (R : σ → σ → Prop) (Q : σ → Prop) : σ → Prop
  | now {s} : Q s → Inevitably R Q s
  | later {s} : (∃ t, R s t) → (∀ t, R s t → Inevitably R Q t) → Inevitably R Q s

namespace Inevitably
variable {σ : Type*} {R : σ → σ → Prop} {P Q : σ → Prop} {s : σ}

theorem mono (h : Inevitably R P s) (himp : ∀ t, P t → Q t) : Inevitably R Q s := by
  induction h with
  | now hp => exact .now (himp _ hp)
  | later hexists _ ih => exact .later hexists ih

/-- **Rank rule.** It is inevitable where there is always a step to take, and each either
does it or brings it nearer. -/
theorem of_rank {I : σ → Prop} (rank : σ → Nat) (hexists : ∀ s, I s → ∃ t, R s t)
    (hstep : ∀ s t, I s → R s t → Q t ∨ (I t ∧ rank t < rank s)) (hs : I s) :
    Inevitably R Q s := by
  induction hn : rank s using Nat.strongRecOn generalizing s with
  | _ n ih =>
    refine .later (hexists s hs) fun t hst => ?_
    rcases hstep s t hs hst with hq | ⟨ht, hlt⟩
    · exact .now hq
    · exact ih _ (hn ▸ hlt) ht rfl

/-- What is inevitable happens on some way, if the steps are those of a system. -/
theorem exists_later {T : TransitionSystem σ} (hR : ∀ s t, R s t → T.Later s t)
    (h : Inevitably R Q s) : ∃ t, T.Later s t ∧ Q t := by
  induction h with
  | now hq => exact ⟨_, .refl, hq⟩
  | later hexists _ ih =>
    obtain ⟨t, hst⟩ := hexists
    obtain ⟨u, htu, hq⟩ := ih t hst
    exact ⟨u, (hR _ _ hst).trans htu, hq⟩

end Inevitably

/-! ## Traces -/

namespace Trace
variable {η : Type*} {P Q : η → List η → Prop} {trace later earlier : List η} {e : η}

/-- Every event of the trace is related to the events before it. -/
def Throughout (P : η → List η → Prop) : List η → Prop
  | [] => True
  | e :: earlier => P e earlier ∧ Throughout P earlier

theorem Throughout.drop (h : Throughout P (later ++ trace)) : Throughout P trace := by
  induction later with
  | nil => exact h
  | cons e later ih => exact ih h.2

theorem Throughout.of_mem (h : Throughout P trace) (he : e ∈ trace) :
    ∃ earlier, e :: earlier <:+ trace ∧ P e earlier := by
  obtain ⟨later, earlier, rfl⟩ := List.append_of_mem he
  exact ⟨earlier, ⟨later, rfl⟩, h.drop.1⟩

/-- Of two events of a trace, one has the other before it. -/
theorem Throughout.of_mem_mem {d : η} (h : Throughout P trace) (hd : d ∈ trace) (he : e ∈ trace) :
    d = e ∨ (∃ earlier, e ∈ earlier ∧ P d earlier) ∨ ∃ earlier, d ∈ earlier ∧ P e earlier := by
  obtain ⟨later, earlier, rfl⟩ := List.append_of_mem hd
  rcases List.mem_append.mp he with he | he
  · obtain ⟨later, mid, rfl⟩ := List.append_of_mem he
    rw [List.append_assoc] at h
    exact Or.inr (Or.inr
      ⟨mid ++ d :: earlier, List.mem_append_right _ List.mem_cons_self, h.drop.1⟩)
  · rcases List.mem_cons.mp he with rfl | he
    · exact Or.inl rfl
    · exact Or.inr (Or.inl ⟨earlier, he, h.drop.1⟩)

theorem throughout_iff :
    Throughout P trace ↔ ∀ later e earlier, trace = later ++ e :: earlier → P e earlier := by
  constructor
  · rintro h later e earlier rfl
    exact h.drop.1
  · intro h
    induction trace with
    | nil => trivial
    | cons e trace ih =>
      refine ⟨h [] e trace rfl, ih fun later e' earlier heq => ?_⟩
      exact h (e :: later) e' earlier (congrArg (e :: ·) heq)

end Trace
