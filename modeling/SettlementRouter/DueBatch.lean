import SettlementRouter.JournalEvents

/-! # What the background reconciler picks up

`_claim_due_batch` takes attempts that are `SUBMITTING` or `RECONCILING`, and
marks them `CLAIMED`.  A claim whose worker stops, or fails twice to finalize,
stays `CLAIMED`: when its lease has expired the settlement is due, but the batch
query does not see it, and only a manual reconcile takes it up again.

An expired claim is the only way a due settlement is passed over
(`picksUp_iff`), so the batch picks up everything due in the runs in which no
claim outlives its lease (`picksUp_iff_onTime`).
-/
namespace SettlementRouter

/-- The settlement is in flight, and the lease of its attempt has expired. -/
def Database.Overdue (db : Database) (now : Time) (id : UUID) : Prop :=
  ∃ row attempt, db.settlements.lookup id = some row ∧ row.status.InFlight ∧
    db.attempts.lookup id = some attempt ∧ attempt.leaseExpiresAt ≤ now

/-- A batch that is large enough selects every overdue settlement whose rows
nobody has locked. -/
def PicksUp (db : Database) (now : Time) : Prop :=
  ∀ (locked : UUID → Bool) (limit : ℕ), (dueRows db now).length ≤ limit →
    ∀ id, db.Overdue now id → locked id = false →
      ∃ row ∈ selectDue db now locked limit, row.id = id

/-- The settlement is in flight, and its attempt is claimed until `lease`. -/
def Database.ClaimedUntil (db : Database) (id : UUID) (lease : Time) : Prop :=
  ∃ row attempt, db.settlements.lookup id = some row ∧ row.status.InFlight ∧
    db.attempts.lookup id = some attempt ∧ attempt.state = .claimed ∧
    attempt.leaseExpiresAt = lease

/-- Every claim that is out is still within its lease. -/
def Database.OnTime (db : Database) (now : Time) : Prop :=
  ∀ id lease, db.ClaimedUntil id lease → now < lease

section Database
variable {db : Database} {now : Time} {id : UUID} {row : Settlement id} {attempt : PayoutAttempt}

/-- The attempt of a settlement in flight is not completed. -/
theorem state_of_inFlight (hsound : (db.lifecycle id).Sound)
    (hrow : db.settlements.lookup id = some row) (hstatus : row.status.InFlight)
    (hattempt : db.attempts.lookup id = some attempt) : attempt.state ≠ .completed := by
  have hl : (db.lifecycle id).attempt = some (attempt.state, attempt.attemptToken) := by
    rw [Database.lifecycle, hattempt, Option.map_some]
  unfold Lifecycle.Sound at hsound
  rw [status_of_lookup hrow, hl] at hsound
  rcases hstatus with hs | hs
  · rw [hs] at hsound
    obtain ⟨⟨state, token, heq, hne⟩, -⟩ := hsound
    cases heq
    exact hne
  · rw [hs] at hsound
    obtain ⟨⟨state, token, heq, hne⟩, -⟩ := hsound
    cases heq
    exact hne

/-- **A due settlement is passed over exactly when it is an expired claim**, where none in
flight has an attempt that is completed. -/
theorem picksUp_iff_of_open (hopen : ∀ id (row : Settlement id) attempt,
      db.settlements.lookup id = some row → row.status.InFlight →
      db.attempts.lookup id = some attempt → attempt.state ≠ .completed) :
    PicksUp db now ↔ db.OnTime now := by
  constructor
  · intro hpicks id lease hclaimed
    obtain ⟨row, attempt, hrow, hstatus, hattempt, hstate, rfl⟩ := hclaimed
    by_contra hexpired
    obtain ⟨due, hdue, rfl⟩ := hpicks (fun _ => false) _ le_rfl id
      ⟨row, attempt, hrow, hstatus, hattempt, not_lt.mp hexpired⟩ rfl
    have hmem := (selectDue_sublist db now _ _).subset hdue
    obtain ⟨hjoined, -, -, hstates⟩ := mem_dueRows.mp hmem
    obtain rfl := Option.some.inj (hattempt.symm.trans (mem_joinedRows.mp hjoined).2)
    rw [hstate] at hstates
    rcases hstates with hs | hs <;> cases hs
  · intro hclaims locked limit hlimit id hoverdue hunlocked
    obtain ⟨row, attempt, hrow, hstatus, hattempt, hexpired⟩ := hoverdue
    have hnotclaimed : attempt.state ≠ .claimed := fun hstate =>
      absurd (hclaims id _ ⟨row, attempt, hrow, hstatus, hattempt, hstate, rfl⟩)
        (not_lt.mpr hexpired)
    have hnotcompleted := hopen id row attempt hrow hstatus hattempt
    have hstate : attempt.state = .submitting ∨ attempt.state = .reconciling := by
      cases hs : attempt.state <;> simp_all
    refine ⟨⟨id, row, attempt⟩, ?_, rfl⟩
    have hdue : (⟨id, row, attempt⟩ : DueRow) ∈ dueRows db now :=
      mem_dueRows.mpr ⟨mem_joinedRows.mpr ⟨hrow, hattempt⟩, hstatus, hexpired, hstate⟩
    unfold selectDue
    rw [List.take_of_length_le ((List.length_filter_le _ _).trans hlimit), List.mem_filter]
    exact ⟨hdue, by simp [hunlocked]⟩

theorem picksUp_iff (hsound : ∀ id, (db.lifecycle id).Sound) : PicksUp db now ↔ db.OnTime now :=
  picksUp_iff_of_open fun id _ _ => state_of_inFlight (hsound id)

end Database

section Runs
variable {settings : Settings} {law : ProviderLaw} {s s' : State}

theorem Database.Unused.not_claimedUntil {db : Database} (h : db.Unused) (id : UUID)
    (lease : Time) : ¬ db.ClaimedUntil id lease := by
  rintro ⟨row, attempt, hrow, -⟩
  rw [h.settlements_eq] at hrow
  cases hrow

/-- **Crash recovery.**  In every reachable state, and by every reading of the
clock, the batch picks up each overdue settlement exactly when no claim has
outlived its lease.  So it does in each run in which none ever does. -/
theorem picksUp_iff_onTime (h : (system settings law Database.Unused).Reachable s) :
    (∀ now, PicksUp s.db now ↔ s.db.OnTime now) ∧
      (((system settings law Database.Unused).restrict fun _ s' =>
          s'.db.OnTime s'.clock).Reachable s →
        ∀ now ≤ s.clock, PicksUp s.db now) := by
  have hiff : ∀ now, PicksUp s.db now ↔ s.db.OnTime now := fun now =>
    picksUp_iff fun id => sound_of_reachable h id
  refine ⟨hiff, fun hrun now hnow => (hiff now).mpr fun id lease hclaimed => ?_⟩
  have honTime : s.db.OnTime s.clock := by
    refine hrun.invariant (I := fun s => s.db.OnTime s.clock) ?_ ?_
    · exact fun s hinit id lease hclaimed => absurd hclaimed (hinit.1.not_claimedUntil id lease)
    · exact fun _ _ _ _ hstep => hstep.2
  exact hnow.trans_lt (honTime id lease hclaimed)

/-- Waiting longer than the lease for the provider is enough. -/
theorem not_picksUp_expired :
    ∃ s, (system sampleSettings .contract Database.Unused).Reachable s ∧
      s.db.status 7 = some .pendingReconciliation ∧ s.db.Overdue s.clock 7 ∧
      ¬ ∀ now ≤ s.clock, PicksUp s.db now := by
  obtain ⟨⟨⟨db, clock, provider, tasks, trace⟩, workers⟩, h, rfl, rfl, -, -, -,
    ⟨next, hworker⟩, -⟩ :=
    sample_claimed (C := fun _ => True) sampleStart_unused fun _ _ _ => trivial
  have hclock : (0 : Time) ≤ 10000000 := by decide
  have hstop := TransitionSystem.Reachable.step h.of_restrict (Step.stop hworker)
  have htick := TransitionSystem.Reachable.step hstop (Step.tick hclock)
  have hlater : sampleClaimed.ClaimedUntil 7 10000000 :=
    ⟨_, _, rfl, Or.inr rfl, rfl, rfl, rfl⟩
  refine ⟨_, htick, rfl, ⟨_, _, rfl, Or.inr rfl, rfl, le_rfl⟩, fun hpicks => ?_⟩
  have hsound := fun id => sound_of_reachable htick id
  exact lt_irrefl _ ((picksUp_iff hsound).mp (hpicks _ le_rfl) 7 _ hlater)

theorem picksUp_iff_onTime_pending :
    ∃ s, (system sampleSettings .contract Database.Unused).Reachable s ∧
      s.db.Overdue s.clock 7 ∧ ∀ now ≤ s.clock, PicksUp s.db now := by
  have honTime : ∀ s : State, s.clock = 0 → Sampled s.db → s.db.OnTime s.clock := by
    rintro s hclock hs id lease ⟨row, attempt, -, -, hattempt, hstate, rfl⟩
    rw [hclock]
    have hmem := AList.mem_lookup_iff.mp hattempt
    generalize s.db = db at hs hmem
    cases hs with
    | start => cases hmem
    | reserved => cases hmem
    | submitting => cases List.mem_singleton.mp hmem; cases hstate
    | pending => cases List.mem_singleton.mp hmem; cases hstate
    | claimed => cases List.mem_singleton.mp hmem; decide
    | paid => cases List.mem_singleton.mp hmem; cases hstate
  obtain ⟨s, h, hdb, hclock, -⟩ := sample_pending sampleStart_unused honTime
  refine ⟨s, h.of_restrict, ?_, (picksUp_iff_onTime h.of_restrict).2 h⟩
  rw [hdb, hclock]
  exact ⟨_, _, rfl, Or.inr rfl, rfl, le_rfl⟩

end Runs

end SettlementRouter
