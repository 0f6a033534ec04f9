import Mathlib.Data.List.GetD
import SettlementRouter.MockRegistry

/-! # The mock provider keeps its contract

Both ways of storing operations are a registry.  In memory that is plain.  In the
database a transaction inserts a row that says `ALLOCATING`, and only the update
after it writes an outcome; `Phase` says how far a call is, and what it has
written, by the program it has left to run.  Its row is seen by no other call until
it commits (`durable_refines`), and then it holds a sound outcome.
-/
namespace SettlementRouter

/-! ## What is allocated is sound -/

/-- What the constructor is given: the outcomes and the lookup of a timeout are
paid, unpaid or unknown. -/
structure MockPayoutProvider.Permitted (provider : MockPayoutProvider) : Prop where
  outcomes : ∀ outcomes, provider.outcomes = some outcomes → ∀ outcome ∈ outcomes, outcome.Final
  timeoutLookup : provider.timeoutLookup.Final

theorem ambiguousAuthority_final (position : ℕ) : (ambiguousAuthority position).Final := by
  unfold ambiguousAuthority
  split_ifs
  · exact .inl rfl
  · exact .inr (.inl rfl)

section Positions
variable {provider : MockPayoutProvider} {position : ℕ} {outcome : MockOutcome}

theorem sound_paid : MockOutcome.Sound ⟨some .paid, .paid, false⟩ :=
  ⟨by simp, fun _ => rfl, by simp, .inl rfl⟩

theorem sound_ambiguous {authority : ProviderLookup} (h : authority.Final) :
    MockOutcome.Sound ⟨some .ambiguous, authority, false⟩ :=
  ⟨by simp, by simp, by simp, h⟩

theorem sound_timeout {authority : ProviderLookup} (h : authority.Final) :
    MockOutcome.Sound ⟨none, authority, true⟩ :=
  ⟨by simp, by simp, by simp, h⟩

theorem outcomeForPosition_sound (hpermitted : provider.Permitted)
    (h : provider.outcomeForPosition position = .ok outcome) : outcome.Sound := by
  unfold MockPayoutProvider.outcomeForPosition at h
  split_ifs at h
  · cases h
    exact sound_paid
  · cases h
    exact sound_ambiguous (ambiguousAuthority_final position)
  · cases h
    exact sound_timeout (ambiguousAuthority_final position)
  · split at h
    · next first rest houtcomes =>
      dsimp only at h
      have hfinal : ((first :: rest).getD (position % (first :: rest).length) first).Final := by
        rw [List.getD_eq_getElem _ _ (Nat.mod_lt _ (by simp))]
        exact hpermitted.outcomes _ houtcomes _ (List.getElem_mem _)
      split_ifs at h with hunknown hpaid
      · cases h
        exact sound_timeout hpermitted.timeoutLookup
      · cases h
        rw [hpaid]
        exact sound_paid
      · cases h
        exact ⟨by simp, by simp, fun _ => (hfinal.resolve_left hpaid).resolve_right hunknown,
          hfinal⟩
    · dsimp only at h
      split_ifs at h
      · cases h
        exact sound_paid
      · cases h
        exact sound_ambiguous (ambiguousAuthority_final _)
      · cases h
        exact sound_timeout (ambiguousAuthority_final _)

/-- It raises nothing else. -/
theorem outcomeForPosition_error {error : MockError}
    (h : provider.outcomeForPosition position = .error error) :
    ∃ message, error = .runtimeError message := by
  unfold MockPayoutProvider.outcomeForPosition at h
  split_ifs at h
  · cases h
    exact ⟨_, rfl⟩
  · split at h
    · dsimp only at h
      split_ifs at h
    · dsimp only at h
      split_ifs at h

end Positions

/-! ## What is written is read back -/

theorem ProviderLookup.ofValue_value (lookup : ProviderLookup) :
    ofValue lookup.value = .ok lookup := by
  cases lookup <;> rfl

theorem ProviderResult.ofValue_value (result : ProviderResult) :
    ofValue result.value = .ok result := by
  cases result <;> rfl

theorem ProviderResult.value_ne (result : ProviderResult) : result.value ≠ "TIMEOUT" := by
  cases result <;> decide

/-- An outcome that has a result unless it times out. -/
theorem MockOutcome.submissionValue_ok {outcome : MockOutcome}
    (h : outcome.timesOut = true ↔ outcome.submission = none) :
    ∃ value, outcome.submissionValue = .ok value ∧ ∀ ordinal,
      (MockProviderOperation.mk ordinal value outcome.authority.value).outcome = .ok outcome := by
  obtain ⟨submission, authority, timesOut⟩ := outcome
  have hlookup := authority.ofValue_value
  cases timesOut with
  | true =>
    obtain rfl : submission = none := h.mp rfl
    refine ⟨"TIMEOUT", rfl, fun ordinal => ?_⟩
    simp [MockProviderOperation.outcome, hlookup, bind, Except.bind, pure, Except.pure]
  | false =>
    cases submission with
    | none => exact absurd (h.mpr rfl) (by simp)
    | some result =>
      refine ⟨result.value, rfl, fun ordinal => ?_⟩
      simp [MockProviderOperation.outcome, hlookup, bind, Except.bind, pure, Except.pure,
        result.value_ne, result.ofValue_value]

section Memory
variable {provider : MockPayoutProvider} {s t : MemoryState} {memory : MockMemory} {id : UUID}
  {outcome : MockOutcome}

theorem initiate_known (h : memory.operations id = some outcome) :
    memory.initiate provider id = (.ok outcome, memory) := by
  unfold MockMemory.initiate
  rw [h]

theorem initiate_new (h : memory.operations id = none)
    (houtcome : provider.outcomeForPosition memory.operationCount = .ok outcome) :
    memory.initiate provider id = (.ok outcome,
      ⟨Function.update memory.operations id (some outcome), memory.operationCount + 1⟩) := by
  unfold MockMemory.initiate
  rw [h]
  dsimp only
  rw [houtcome]

theorem initiate_rejected {error : MockError} (h : memory.operations id = none)
    (herror : provider.outcomeForPosition memory.operationCount = .error error) :
    memory.initiate provider id = (.error error, memory) := by
  unfold MockMemory.initiate
  rw [h]
  dsimp only
  rw [herror]

/-- A call as the registry sees it: what it does before it has an outcome is hidden. -/
def MockCall.visible : MockCall → RegistryCall
  | .idle => .idle
  | .running _ _ _ _ => .idle
  | .answering settlementId outcome => .answering settlementId outcome
  | .done => .done

theorem visible_update (calls : ℕ → MockCall) (c : ℕ) (call : MockCall) :
    (fun c' => (Function.update calls c call c').visible) =
      Function.update (fun c' => (calls c').visible) c call.visible := by
  funext c'
  by_cases hc : c' = c
  · subst hc
    simp
  · simp [hc]

/-- What the memory records, and what callers have seen of it. -/
def MemoryState.registry (s : MemoryState) : Registry :=
  ⟨s.memory.operations, fun c => (s.calls c).visible, s.trace⟩

end Memory

/-! ## The registry behind the table -/

/-- A transaction that has written this row. -/
def wrote (id : UUID) (row : MockProviderOperation) : MockRows :=
  Function.update (fun _ => none) id (some row)

/-- How far the transaction of a call is: the program it has left to run, and the
rows it has written. -/
inductive Phase (rows : MockRows) (id : UUID) : MockProgram MockOutcome → MockRows → Prop
  | start {provider} : provider.Permitted →
      Phase rows id (durableOutcome provider id) fun _ => none
  | rejected {message row} : Phase rows id (.raise (.runtimeError message)) (wrote id row)
  | allocating {value outcome row} : outcome.Sound →
      (∀ ordinal, (MockProviderOperation.mk ordinal value outcome.authority.value).outcome =
        .ok outcome) →
      Phase rows id (Program.call (MockStatement.update id value outcome.authority.value) >>=
        fun _ => readBack id) (wrote id row)
  | allocated {outcome row} : outcome.Sound → row.outcome = .ok outcome →
      Phase rows id (readBack id) (wrote id row)
  | conflicting {row} : rows id = some row → Phase rows id (readBack id) fun _ => none
  | read {outcome row draft} : outcome.Sound → row.outcome = .ok outcome →
      (draft = wrote id row ∨ (draft = fun _ => none) ∧ rows id = some row) →
      Phase rows id (.ret outcome) draft

section Phases
variable {rows rows' draft : MockRows} {id x : UUID} {program : MockProgram MockOutcome}
  {row : MockProviderOperation} {ordinal : ℕ} {outcome : MockOutcome} {error : MockError}

@[simp] theorem wrote_self : wrote id row id = some row := Function.update_self ..

theorem wrote_of_ne (h : x ≠ id) : wrote id row x = none := Function.update_of_ne h ..

theorem over_none : MockRows.over (fun _ => none) rows = rows := by
  funext x
  simp [MockRows.over]

theorem over_wrote : MockRows.over (wrote id row) rows = Function.update rows id (some row) := by
  funext x
  by_cases hx : x = id
  · subst hx
    simp [MockRows.over]
  · simp [MockRows.over, wrote_of_ne hx, Function.update_of_ne hx]

/-- Rows other calls commit do not matter, but for the row it has found. -/
theorem Phase.mono (h : Phase rows id program draft)
    (hrows : ∀ row, rows id = some row → rows' id = some row) : Phase rows' id program draft := by
  cases h with
  | start hpermitted => exact .start hpermitted
  | rejected => exact .rejected
  | allocating hsound hread => exact .allocating hsound hread
  | allocated hsound hread => exact .allocated hsound hread
  | conflicting hrow => exact .conflicting (hrows _ hrow)
  | read hsound hread hdraft =>
    refine .read hsound hread (hdraft.imp_right fun hfound => ?_)
    exact ⟨hfound.1, hrows _ hfound.2⟩

theorem Phase.ret (h : Phase rows id (.ret outcome) draft) :
    outcome.Sound ∧ ∃ row, row.outcome = .ok outcome ∧
      (draft = wrote id row ∨ (draft = fun _ => none) ∧ rows id = some row) := by
  cases h with
  | read hsound hread hdraft => exact ⟨hsound, _, hread, hdraft⟩

theorem Phase.raise (h : Phase rows id (.raise error) draft) :
    ∃ message, error = .runtimeError message := by
  cases h with
  | rejected => exact ⟨_, rfl⟩

/-- The row is inserted, and its outcome determined. -/
theorem Phase.inserted {provider : MockPayoutProvider} (hpermitted : provider.Permitted) :
    Phase rows id (allocate provider id ordinal >>= fun _ => readBack id) (wrote id row) := by
  unfold allocate
  cases houtcome : provider.outcomeForPosition (ordinal - 1) with
  | error error =>
    obtain ⟨message, rfl⟩ := outcomeForPosition_error houtcome
    exact .rejected
  | ok outcome =>
    have hsound := outcomeForPosition_sound hpermitted houtcome
    obtain ⟨value, hvalue, hread⟩ := MockOutcome.submissionValue_ok hsound.timesOut_iff
    have hallocating : Phase rows id
        (Program.call (MockStatement.update id value outcome.authority.value) >>=
          fun _ => readBack id) (wrote id row) := .allocating hsound hread
    simpa [Program.ofExcept, hvalue] using hallocating

theorem eq_of_wrote (h : (wrote id row x).isSome) : x = id := by
  by_contra hx
  rw [wrote_of_ne hx] at h
  cases h

/-- The row that is read back ends the call, and the select writes nothing. -/
theorem Phase.reads (rows : MockRows) (ordinal : ℕ) {statement : MockStatement}
    {next : Except MockError statement.Reply → MockProgram MockOutcome}
    (hprogram : Program.perform statement next = readBack id) (hsound : outcome.Sound)
    (hread : row.outcome = .ok outcome) (hrow : draft.over rows id = some row)
    (hdraft : draft = wrote id row ∨ (draft = fun _ => none) ∧ rows id = some row) :
    Phase rows id (next (.ok (statement.run ordinal rows draft).1))
      (statement.run ordinal rows draft).2 ∧ (statement.run ordinal rows draft).2 = draft := by
  have hshape : readBack id = .perform _ _ := rfl
  rw [hshape] at hprogram
  cases hprogram
  have hrun : (MockStatement.select id).run ordinal rows draft = (some row, draft) := by
    simp [MockStatement.run, hrow]
  rw [hrun]
  refine ⟨?_, rfl⟩
  show Phase rows id (Program.ofExcept row.outcome) _
  rw [hread]
  exact .read hsound hread hdraft

/-- **A statement takes a call to its next phase.**  Only an insert writes a row that
was not written before, and there is none committed then. -/
theorem Phase.execute (ordinal : ℕ) {statement : MockStatement}
    {next : Except MockError statement.Reply → MockProgram MockOutcome}
    (h : Phase rows id (.perform statement next) draft)
    (hrows : ∀ row, rows id = some row → ∃ outcome, row.outcome = .ok outcome ∧ outcome.Sound) :
    Phase rows id (next (.ok (statement.run ordinal rows draft).1))
      (statement.run ordinal rows draft).2 ∧
    ∀ x, ((statement.run ordinal rows draft).2 x).isSome → (draft x).isSome ∨
      rows x = none ∧ ∃ submission authority, statement = .insert x submission authority := by
  generalize hprogram : Program.perform statement next = program at h
  cases h with
  | @start provider hpermitted =>
    have hshape : durableOutcome provider id = .perform _ _ := rfl
    rw [hshape] at hprogram
    cases hprogram
    cases hrow : rows id with
    | some row =>
      have hrun : (MockStatement.insert id "ALLOCATING" ProviderLookup.unknown.value).run ordinal
          rows (fun _ => none) = (none, fun _ => none) := by
        simp [MockStatement.run, MockRows.over, hrow]
      rw [hrun]
      exact ⟨.conflicting hrow, fun _ hx => .inl hx⟩
    | none =>
      have hrun : (MockStatement.insert id "ALLOCATING" ProviderLookup.unknown.value).run ordinal
          rows (fun _ => none) = (some ordinal,
            wrote id ⟨ordinal, "ALLOCATING", ProviderLookup.unknown.value⟩) := by
        simp [MockStatement.run, MockRows.over, wrote, hrow]
      rw [hrun]
      refine ⟨.inserted hpermitted, fun x hx => .inr ?_⟩
      obtain rfl := eq_of_wrote hx
      exact ⟨hrow, _, _, rfl⟩
  | rejected => cases hprogram
  | @allocating value outcome row hsound hread =>
    cases hprogram
    have hrun : (MockStatement.update id value outcome.authority.value).run ordinal rows
        (wrote id row) = ((), wrote id ⟨row.ordinal, value, outcome.authority.value⟩) := by
      simp [MockStatement.run, MockRows.over, wrote]
    rw [hrun]
    refine ⟨.allocated hsound (hread row.ordinal), fun x hx => .inl ?_⟩
    obtain rfl := eq_of_wrote hx
    rw [wrote_self]
    rfl
  | @allocated outcome row hsound hread =>
    obtain ⟨hphase, hdraft⟩ := Phase.reads rows ordinal hprogram hsound hread
      (by simp [MockRows.over]) (.inl rfl)
    exact ⟨hphase, fun x hx => .inl (hdraft ▸ hx)⟩
  | @conflicting row hrow =>
    obtain ⟨outcome, hread, hsound⟩ := hrows row hrow
    obtain ⟨hphase, hdraft⟩ := Phase.reads rows ordinal hprogram hsound hread
      (by simp [MockRows.over, hrow]) (.inr ⟨rfl, hrow⟩)
    exact ⟨hphase, fun x hx => .inl (hdraft ▸ hx)⟩
  | read => cases hprogram

end Phases

section Transactions
variable {rows : MockRows} {calls : ℕ → MockCall} {call : MockCall} {c c' : ℕ} {id : UUID}
  {program program' : MockProgram MockOutcome} {draft draft' : MockRows} {outcome : MockOutcome}

/-- The call is in its transaction. -/
def Running (calls : ℕ → MockCall) (c : ℕ) (id : UUID) (program : MockProgram MockOutcome)
    (draft : MockRows) : Prop := ∃ drawn, calls c = .running id program drawn draft

/-- What holds of the committed rows and the transactions: a row holds a sound outcome,
every transaction is in some phase, and what it has written is neither committed nor
written by another. -/
structure Orderly (rows : MockRows) (calls : ℕ → MockCall) : Prop where
  sound : ∀ id row, rows id = some row → ∃ outcome, row.outcome = .ok outcome ∧ outcome.Sound
  phase : ∀ c id program draft, Running calls c id program draft → Phase rows id program draft
  uncommitted : ∀ c id program draft x, Running calls c id program draft → (draft x).isSome →
    rows x = none
  apart : ∀ c id program draft c' id' program' draft' x, Running calls c id program draft →
    Running calls c' id' program' draft' → c' ≠ c → (draft x).isSome → draft' x = none

theorem running_update (h : Running (Function.update calls c call) c' id program draft) :
    (c' = c ∧ ∃ drawn, call = .running id program drawn draft) ∨
      c' ≠ c ∧ Running calls c' id program draft := by
  obtain ⟨drawn, h⟩ := h
  by_cases hc : c' = c
  · subst hc
    rw [Function.update_self] at h
    exact .inl ⟨rfl, drawn, h⟩
  · rw [Function.update_of_ne hc] at h
    exact .inr ⟨hc, drawn, h⟩

/-- The call is in no transaction. -/
def MockCall.Outside (call : MockCall) : Prop :=
  ∀ id program drawn draft, call ≠ .running id program drawn draft

theorem running_of_outside (hcall : call.Outside)
    (h : Running (Function.update calls c call) c' id program draft) :
    c' ≠ c ∧ Running calls c' id program draft := by
  obtain ⟨-, drawn, hrunning⟩ | hother := running_update h
  · exact absurd hrunning (hcall _ _ _ _)
  · exact hother

/-- A call that leaves its transaction without a commit changes nothing for the
others. -/
theorem Orderly.leave (h : Orderly rows calls) (hcall : call.Outside) :
    Orderly rows (Function.update calls c call) where
  sound := h.sound
  phase c' id program draft hrunning :=
    h.phase c' id program draft (running_of_outside hcall hrunning).2
  uncommitted c' id program draft x hrunning :=
    h.uncommitted c' id program draft x (running_of_outside hcall hrunning).2
  apart c₁ id₁ program₁ draft₁ c₂ id₂ program₂ draft₂ x h₁ h₂ :=
    h.apart c₁ id₁ program₁ draft₁ c₂ id₂ program₂ draft₂ x (running_of_outside hcall h₁).2
      (running_of_outside hcall h₂).2

/-- A call in its next phase, where what it has written is not written by another. -/
theorem Orderly.advance (h : Orderly rows calls) {drawn : Option ℕ}
    (hphase : Phase rows id program draft) (huncommitted : ∀ x, (draft x).isSome → rows x = none)
    (hapart : ∀ c' id' program' draft' x, Running calls c' id' program' draft' → c' ≠ c →
      (draft x).isSome → draft' x = none) :
    Orderly rows (Function.update calls c (.running id program drawn draft)) where
  sound := h.sound
  phase := by
    intro c' id' program' draft' hrunning
    obtain ⟨rfl, _, heq⟩ | ⟨-, hother⟩ := running_update hrunning
    · cases heq
      exact hphase
    · exact h.phase c' id' program' draft' hother
  uncommitted := by
    intro c' id' program' draft' x hrunning
    obtain ⟨rfl, _, heq⟩ | ⟨-, hother⟩ := running_update hrunning
    · cases heq
      exact huncommitted x
    · exact h.uncommitted c' id' program' draft' x hother
  apart := by
    intro c₁ id₁ program₁ draft₁ c₂ id₂ program₂ draft₂ x h₁ h₂ hne hx
    obtain ⟨rfl, _, heq⟩ | ⟨hc₁, hother₁⟩ := running_update h₁
    · cases heq
      obtain ⟨rfl, -⟩ | ⟨-, hother₂⟩ := running_update h₂
      · exact absurd rfl hne
      · exact hapart c₂ id₂ program₂ draft₂ x hother₂ hne hx
    · obtain ⟨rfl, _, heq⟩ | ⟨-, hother₂⟩ := running_update h₂
      · cases heq
        -- otherwise both have written the row
        rw [← Option.not_isSome_iff_eq_none]
        intro hx₂
        rw [hapart c₁ id₁ program₁ draft₁ x hother₁ hc₁ hx₂] at hx
        cases hx
      · exact h.apart c₁ id₁ program₁ draft₁ c₂ id₂ program₂ draft₂ x hother₁ hother₂ hne hx

/-- A commit. -/
theorem Orderly.commit (h : Orderly rows calls) (hrunning : Running calls c id (.ret outcome) draft)
    (hcall : call.Outside) :
    Orderly (MockRows.over draft rows) (Function.update calls c call) := by
  have hphase := h.phase c id _ draft hrunning
  obtain ⟨hsound, row, hread, hdraft⟩ := hphase.ret
  have hwritten : ∀ x row', draft x = some row' → row' = row := by
    intro x row' hx
    obtain rfl | ⟨rfl, -⟩ := hdraft
    · obtain rfl := eq_of_wrote (Option.isSome_iff_exists.mpr ⟨_, hx⟩)
      rw [wrote_self] at hx
      exact (Option.some.inj hx).symm
    · cases hx
  have hkeeps : ∀ x row', rows x = some row' → MockRows.over draft rows x = some row' := by
    intro x row' hx
    cases hdraft : draft x with
    | none => simp [MockRows.over, hdraft, hx]
    | some row'' =>
      have hnone := h.uncommitted c id _ draft x hrunning (by simp [hdraft])
      rw [hnone] at hx
      cases hx
  have hleave := h.leave (c := c) hcall
  refine ⟨?_, ?_, ?_, hleave.apart⟩
  · intro x row' hx
    cases hdraft : draft x with
    | none => exact h.sound x row' (by simpa [MockRows.over, hdraft] using hx)
    | some row'' =>
      obtain rfl : row'' = row' := by simpa [MockRows.over, hdraft] using hx
      obtain rfl := hwritten x row'' hdraft
      exact ⟨outcome, hread, hsound⟩
  · intro c' id' program' draft' hother
    exact (hleave.phase c' id' program' draft' hother).mono (hkeeps id')
  · intro c' id' program' draft' x hother hx
    obtain ⟨hne, hother'⟩ := running_of_outside hcall hother
    have hnone := h.uncommitted c' id' program' draft' x hother' hx
    have hapart := h.apart c' id' program' draft' c id _ draft x hother' hrunning hne.symm hx
    simp [MockRows.over, hapart, hnone]

end Transactions

/-- What the committed rows record, and what callers have seen of them. -/
def MockState.registry (s : MockState) : Registry :=
  ⟨fun id => (s.table.rows id).bind fun row => row.outcome.toOption,
    fun c => (s.calls c).visible, s.trace⟩

section Durable
variable {instances : Set MockPayoutProvider} {s t : MockState}

theorem outside_done : MockCall.done.Outside := fun _ _ _ _ heq => by cases heq

theorem outside_answering {id : UUID} {outcome : MockOutcome} :
    (MockCall.answering id outcome).Outside := fun _ _ _ _ heq => by cases heq

theorem visible_hidden {calls : ℕ → MockCall} {c : ℕ} {call : MockCall}
    (h : call.visible = (calls c).visible) :
    (fun c' => (Function.update calls c call c').visible) = fun c' => (calls c').visible := by
  rw [visible_update, h]
  exact Function.update_eq_self c _

/-- A row that holds a sound outcome is a record of it. -/
theorem record_of_row {rows : MockRows} {id : UUID} {row : MockProviderOperation}
    {outcome : MockOutcome} (hrow : rows id = some row) (hread : row.outcome = .ok outcome) :
    ((rows id).bind fun row => row.outcome.toOption) = some outcome := by
  rw [hrow, Option.bind_some, hread]
  rfl

theorem authority_of_outcome {row : MockProviderOperation} {outcome : MockOutcome}
    (h : row.outcome = .ok outcome) :
    ProviderLookup.ofValue row.authoritativeOutcome = .ok outcome.authority := by
  unfold MockProviderOperation.outcome at h
  cases hauthority : ProviderLookup.ofValue row.authoritativeOutcome with
  | error error => simp [hauthority, bind, Except.bind] at h
  | ok authority =>
    cases hsubmission : ProviderResult.ofValue row.submissionOutcome with
    | error error =>
      simp only [hauthority, hsubmission, bind, Except.bind, pure, Except.pure] at h
      split_ifs at h
      cases h
      rfl
    | ok submission =>
      simp only [hauthority, hsubmission, bind, Except.bind, pure, Except.pure] at h
      split_ifs at h
      · cases h
        rfl
      · cases h
        rfl

theorem lookup_eq (h : Orderly s.table.rows s.calls) (id : UUID) :
    s.table.lookup id = .ok (s.registry.lookup id) := by
  unfold MockTable.lookup Registry.lookup MockState.registry
  cases hrow : s.table.rows id with
  | none => simp [hrow]
  | some row =>
    obtain ⟨outcome, hread, -⟩ := h.sound id row hrow
    simp only [record_of_row hrow hread]
    exact authority_of_outcome hread

/-- A committed row of an id is the record of its outcome. -/
theorem records_over_wrote {rows : MockRows} {id : UUID} {row : MockProviderOperation}
    {outcome : MockOutcome} (hread : row.outcome = .ok outcome) :
    (fun x => ((wrote id row).over rows x).bind fun row => row.outcome.toOption) =
      Function.update (fun x => (rows x).bind fun row => row.outcome.toOption) id
        (some outcome) := by
  funext x
  by_cases hx : x = id
  · subst hx
    rw [Function.update_self]
    exact record_of_row (by simp [MockRows.over]) hread
  · rw [Function.update_of_ne hx]
    simp [MockRows.over, wrote_of_ne hx]

/-- A commit is a step of the registry: the first to record the outcome, any other to
find it. -/
theorem commit_step (h : Orderly s.table.rows s.calls) {c : ℕ} {id : UUID} {outcome : MockOutcome}
    {drawn : Option ℕ} {draft : MockRows}
    (hcall : s.calls c = .running id (.ret outcome) drawn draft) :
    s.registry.Step (MockState.registry {
      table := { s.table with rows := draft.over s.table.rows }
      calls := Function.update s.calls c (.answering id outcome)
      trace := if (draft id).isSome then .recorded c id outcome :: s.trace else s.trace }) := by
  have hrunning : Running s.calls c id (.ret outcome) draft := ⟨drawn, hcall⟩
  have hidle : s.registry.calls c = .idle := by simp [MockState.registry, hcall, MockCall.visible]
  obtain ⟨hsound, row, hread, rfl | ⟨rfl, hrow⟩⟩ := (h.phase c id _ draft hrunning).ret
  · have hnone := h.uncommitted c id _ _ id hrunning (by rw [wrote_self]; rfl)
    unfold MockState.registry
    rw [visible_update, records_over_wrote hread, wrote_self, if_pos (by rfl)]
    exact .records hidle (by simp [hnone]) hsound
  · unfold MockState.registry
    rw [visible_update, over_none, if_neg (by simp)]
    exact .finds hidle (record_of_row hrow hread)

/-- A step keeps the order, and is hidden from the registry or a step of it. -/
theorem durable_step (hpermitted : ∀ provider ∈ instances, provider.Permitted)
    (h : Orderly s.table.rows s.calls) (hstep : DurableStep instances s t) :
    Orderly t.table.rows t.calls ∧ (t.registry = s.registry ∨ s.registry.Step t.registry) := by
  have hregistry {c id program drawn draft} (hcall : s.calls c = .running id program drawn draft) :
      s.registry.calls c = .idle := by
    simp [MockState.registry, hcall, MockCall.visible]
  cases hstep with
  -- up to the commit nothing is visible; from it on each step is one of the registry
  | @starts c provider id hprovider hidle =>
    refine ⟨h.advance (.start (hpermitted provider hprovider)) (by simp) (by simp), .inl ?_⟩
    unfold MockState.registry
    rw [visible_hidden (by simp [hidle, MockCall.visible])]
  | @draws c id operationId submission authority next draft hcall =>
    have hrunning : Running s.calls c id _ draft := ⟨_, hcall⟩
    refine ⟨h.advance (h.phase c id _ draft hrunning)
      (fun x => h.uncommitted c id _ draft x hrunning)
      (fun c' id' program' draft' x hother hne => h.apart c id _ draft c' id' program' draft' x
        hrunning hother hne), .inl ?_⟩
    unfold MockState.registry
    rw [visible_hidden (by simp [hcall, MockCall.visible])]
    rfl
  | @executes c id statement next drawn draft hcall hready =>
    have hrunning : Running s.calls c id _ draft := ⟨_, hcall⟩
    obtain ⟨hphase, hwritten⟩ := (h.phase c id _ draft hrunning).execute
      (drawn.getD 0) (h.sound id)
    refine ⟨h.advance hphase ?_ ?_, .inl ?_⟩
    · intro x hx
      obtain hbefore | ⟨hnone, -⟩ := hwritten x hx
      · exact h.uncommitted c id _ draft x hrunning hbefore
      · exact hnone
    · intro c' id' program' draft' x hother hne hx
      obtain hbefore | ⟨-, submission, authority, rfl⟩ := hwritten x hx
      · exact h.apart c id _ draft c' id' program' draft' x hrunning hother hne hbefore
      · -- the insert was not blocked
        obtain ⟨drawn', hcall'⟩ := hother
        rw [← Option.not_isSome_iff_eq_none]
        intro hx'
        exact hready.2 ⟨c', id', program', drawn', draft', hne, hcall', hx'⟩
    · unfold MockState.registry
      rw [visible_hidden (by simp [hcall, MockCall.visible])]
  | @commits c id outcome drawn draft hcall =>
    exact ⟨h.commit ⟨drawn, hcall⟩ outside_answering, .inr (commit_step h hcall)⟩
  | @raises c id error drawn draft hcall =>
    refine ⟨h.leave outside_done, .inr ?_⟩
    unfold MockState.registry
    rw [visible_update]
    exact .raises (hregistry hcall) (.inr (h.phase c id _ draft ⟨drawn, hcall⟩).raise)
  | @fails c id program drawn draft hcall =>
    refine ⟨h.leave outside_done, .inr ?_⟩
    unfold MockState.registry
    rw [visible_update]
    exact .raises (hregistry hcall) (.inl rfl)
  | @answers c id outcome hcall =>
    refine ⟨h.leave outside_done, .inr ?_⟩
    unfold MockState.registry
    rw [visible_update]
    exact .answers (by simp [hcall, MockCall.visible])
  | @loses c id outcome hcall =>
    refine ⟨h.leave outside_done, .inr ?_⟩
    have hanswering : s.registry.calls c = .answering id outcome := by
      simp [MockState.registry, hcall, MockCall.visible]
    unfold MockState.registry
    rw [visible_update]
    exact .loses hanswering
  | looksUp id =>
    refine ⟨h, .inr ?_⟩
    rw [lookup_eq h id]
    exact .looksUp id
  | lookupFails id => exact ⟨h, .inr (.lookupFails id)⟩

theorem orderly_empty : Orderly MockTable.empty.rows fun _ => .idle where
  sound _ _ heq := by cases heq
  phase _ _ _ _ hrunning := by cases hrunning.choose_spec
  uncommitted _ _ _ _ _ hrunning := by cases hrunning.choose_spec
  apart _ _ _ _ _ _ _ _ _ hrunning := by cases hrunning.choose_spec

/-- **In the database the provider is a registry**, whichever instances there are and
however their transactions interleave. -/
theorem durable_refines (hpermitted : ∀ provider ∈ instances, provider.Permitted)
    (h : (durable instances).Reachable s) :
    Orderly s.table.rows s.calls ∧ SettlementRouter.registry.Reachable s.registry := by
  refine h.invariant
    (I := fun s => Orderly s.table.rows s.calls ∧ SettlementRouter.registry.Reachable s.registry)
    ?_ ?_
  · rintro _ rfl
    exact ⟨orderly_empty, .init rfl⟩
  · rintro s t - ⟨horderly, hreachable⟩ hstep
    obtain ⟨horderly', hsame | hregistry⟩ := durable_step hpermitted horderly hstep
    · exact ⟨horderly', hsame ▸ hreachable⟩
    · exact ⟨horderly', hreachable.step hregistry⟩

end Durable

/-! ## One call alone -/

section Alone
variable {instances : Set MockPayoutProvider} {s : MockState} {c : ℕ} {id : UUID}
  {draft : MockRows}

/-- No call but this one is in a transaction. -/
def MockState.Alone (s : MockState) (c : ℕ) : Prop := ∀ c', c' ≠ c → (s.calls c').Outside

/-- How a call ends for its caller. -/
def callAnswer (reply : Except MockError MockOutcome) : Except MockError MockAnswer :=
  reply.bind MockOutcome.answer

theorem not_blocked_of_alone (h : s.Alone c) : ¬ s.Blocked c id := by
  rintro ⟨c', _, _, _, _, hne, hcall, -⟩
  exact h c' hne _ _ _ _ hcall

theorem MockState.Alone.update (h : s.Alone c) {table : MockTable} {call : MockCall}
    {trace : List MockEvent} :
    MockState.Alone ⟨table, Function.update s.calls c call, trace⟩ c := by
  intro c' hne
  show (Function.update s.calls c call c').Outside
  rw [Function.update_of_ne hne]
  exact h c' hne

/-- One statement of a transaction with no other beside it. -/
theorem statement_later (instances : Set MockPayoutProvider) (halone : s.Alone c)
    {statement : MockStatement}
    {next : Except MockError statement.Reply → MockProgram MockOutcome}
    (hcall : s.calls c = .running id (.perform statement next) none draft) :
    (durable instances).Later s { s with
      table := s.table.draw statement
      calls := Function.update s.calls c (.running id
        (next (.ok (statement.run (s.table.draw statement).sequence
          (s.table.draw statement).rows draft).1)) none
        (statement.run (s.table.draw statement).sequence
          (s.table.draw statement).rows draft).2) } := by
  cases statement with
  | insert operationId submission authority =>
    have hdraws : DurableStep instances s _ := .draws hcall
    refine (Relation.ReflTransGen.single hdraws).tail ?_
    have hexecutes : DurableStep instances { s with
        table := s.table.draw (.insert operationId submission authority)
        calls := Function.update s.calls c
          (.running id (.perform (.insert operationId submission authority) next)
            (some (s.table.sequence + 1)) draft) } _ :=
      .executes (Function.update_self ..) ⟨rfl, not_blocked_of_alone halone.update⟩
    rw [Function.update_idem] at hexecutes
    exact hexecutes
  | update operationId submission authority => exact .single (.executes hcall trivial)
  | select operationId => exact .single (.executes hcall trivial)

/-- A transaction with no other beside it runs to its end. -/
theorem transact_later (instances : Set MockPayoutProvider) (program : MockProgram MockOutcome) :
    ∀ {s : MockState} {draft : MockRows}, s.calls c = .running id program none draft → s.Alone c →
    ∃ t, (durable instances).Later s t ∧ t.table = (s.table.transact draft program).2 ∧
      t.calls = Function.update s.calls c .done ∧ s.trace ⊆ t.trace ∧
      .initiated c id (callAnswer (s.table.transact draft program).1) ∈ t.trace := by
  induction program with
  | ret outcome =>
    intro s draft hcall _
    have hanswers : DurableStep instances {
        table := { s.table with rows := draft.over s.table.rows }
        calls := Function.update s.calls c (.answering id outcome)
        trace := if (draft id).isSome then .recorded c id outcome :: s.trace else s.trace } _ :=
      .answers (Function.update_self ..)
    rw [Function.update_idem] at hanswers
    refine ⟨_, (Relation.ReflTransGen.single (DurableStep.commits hcall)).tail hanswers, rfl, rfl,
      ?_, List.mem_cons_self⟩
    refine List.Subset.trans ?_ (List.subset_cons_self _ _)
    split_ifs
    · exact List.subset_cons_self _ _
    · exact List.Subset.refl _
  | raise error =>
    intro s draft hcall _
    exact ⟨_, .single (DurableStep.raises hcall), rfl, rfl, List.subset_cons_self _ _,
      List.mem_cons_self⟩
  | perform statement next ih =>
    intro s draft hcall halone
    have hstatement := statement_later instances halone hcall
    obtain ⟨t, hlater, htable, hcalls, htrace, hanswer⟩ := ih _ (Function.update_self ..)
      (s := { s with
        table := s.table.draw statement
        calls := Function.update s.calls c _ }) halone.update
    rw [Function.update_idem] at hcalls
    exact ⟨t, hstatement.trans hlater, htable, hcalls, htrace, hanswer⟩

/-- A call with no other beside it. -/
theorem initiate_later {provider : MockPayoutProvider} (hprovider : provider ∈ instances)
    (hidle : s.calls c = .idle) (halone : s.Alone c) (id : UUID) :
    ∃ t, (durable instances).Later s t ∧ t.table = (s.table.initiate provider id).2 ∧
      t.calls = Function.update s.calls c .done ∧ s.trace ⊆ t.trace ∧
      .initiated c id (callAnswer (s.table.initiate provider id).1) ∈ t.trace := by
  have hstarts : DurableStep instances s { s with
      calls := Function.update s.calls c
        (.running id (durableOutcome provider id) none fun _ => none) } := .starts hprovider hidle
  obtain ⟨t, hlater, htable, hcalls, htrace, hanswer⟩ :=
    transact_later instances (durableOutcome provider id) (Function.update_self ..)
      (s := { s with
        calls := Function.update s.calls c
          (.running id (durableOutcome provider id) none fun _ => none) }) halone.update
  rw [Function.update_idem] at hcalls
  exact ⟨t, (Relation.ReflTransGen.single hstarts).trans hlater, htable, hcalls, htrace, hanswer⟩

end Alone

/-- `MockPayoutProvider()`. -/
def defaultProvider : MockPayoutProvider := ⟨none, .unknown, false⟩

theorem defaultProvider_permitted : defaultProvider.Permitted :=
  ⟨(fun _ heq => by cases heq), .inr (.inr rfl)⟩

end SettlementRouter
