import SettlementRouter.MockProvider

/-! # What a mock provider promises

A `Registry` says what the mock provider is for, without saying how it stores
anything: each id has at most one outcome, recorded by one call and never changed;
calls answer from it and lookups report its authority.  `MockContract` is what a
caller sees of that, over the trace of a run, and every run of a registry keeps it
(`Registry.contract`).
-/
namespace SettlementRouter

/-- The outcomes that are settled, or never will be. -/
def ProviderLookup.Final (lookup : ProviderLookup) : Prop :=
  lookup = .paid ∨ lookup = .unpaid ∨ lookup = .unknown

/-- What the answer says agrees with the authority, which is a final one. -/
structure MockOutcome.Sound (outcome : MockOutcome) : Prop where
  timesOut_iff : outcome.timesOut = true ↔ outcome.submission = none
  paid : outcome.submission = some .paid → outcome.authority = .paid
  unpaid : outcome.submission = some .unpaid → outcome.authority = .unpaid
  final : outcome.authority.Final

/-- What the callers of a mock provider see. -/
structure MockContract (trace : List MockEvent) : Prop where
  /-- An id is recorded once, with a sound outcome. -/
  once : Trace.Throughout (fun e earlier => ∀ c id outcome, e = .recorded c id outcome →
    outcome.Sound ∧ ∀ c' outcome', .recorded c' id outcome' ∉ earlier) trace
  /-- A call that answered found the outcome recorded, or recorded it. -/
  recorded : Trace.Throughout (fun e earlier => ∀ c id answer, e = .initiated c id (.ok answer) →
    ∃ c' outcome, .recorded c' id outcome ∈ earlier ∧ outcome.answer = .ok answer) trace
  same_answer : ∀ c c' id answer answer', .initiated c id (.ok answer) ∈ trace →
    .initiated c' id (.ok answer') ∈ trace → answer = answer'
  /-- A call that raised, and was not merely cut off, recorded nothing. -/
  raised : ∀ c id error, .initiated c id (.error error) ∈ trace → error = .databaseError ∨
    ∃ message, error = .runtimeError message ∧ ∀ id' outcome, .recorded c id' outcome ∉ trace
  same_authority : Trace.Throughout (fun e earlier => ∀ id answer, e = .lookedUp id (.ok answer) →
    ∀ c outcome, .recorded c id outcome ∈ earlier → answer = outcome.authority) trace
  not_found : Trace.Throughout (fun e earlier => ∀ id answer, e = .lookedUp id (.ok answer) →
    (answer = .notFound ↔ ∀ c outcome, .recorded c id outcome ∉ earlier)) trace
  agrees : Trace.Throughout (fun e earlier => ∀ id answer, e = .lookedUp id (.ok answer) → ∀ c,
    (.initiated c id (.ok (.result .paid)) ∈ earlier → answer = .paid) ∧
    (.initiated c id (.ok (.result .unpaid)) ∈ earlier → answer = .unpaid)) trace
  lookup_raised : ∀ id error, .lookedUp id (.error error) ∈ trace → error = .databaseError

/-! ## The registry -/

/-- A call of `initiate`, as its caller sees it. -/
inductive RegistryCall where
  | idle
  | answering (settlementId : UUID) (outcome : MockOutcome)
  | done

/-- Recorded outcomes, the calls that read them, and what was answered. -/
structure Registry where
  records : UUID → Option MockOutcome
  calls : ℕ → RegistryCall
  trace : List MockEvent

namespace Registry

/-- What is recorded for an id. -/
def lookup (s : Registry) (settlementId : UUID) : ProviderLookup :=
  match s.records settlementId with
  | some outcome => outcome.authority
  | none => .notFound

/-- One step of a registry.  An outcome is recorded once, and a call answers what is recorded. -/
inductive Step (s : Registry) : Registry → Prop
  | records {c id outcome} : s.calls c = .idle → s.records id = none → outcome.Sound →
      Step s {
        records := Function.update s.records id (some outcome)
        calls := Function.update s.calls c (.answering id outcome)
        trace := .recorded c id outcome :: s.trace }
  | finds {c id outcome} : s.calls c = .idle → s.records id = some outcome →
      Step s { s with calls := Function.update s.calls c (.answering id outcome) }
  | raises {c id error} : s.calls c = .idle →
      (error = .databaseError ∨ ∃ message, error = .runtimeError message) →
      Step s { s with
        calls := Function.update s.calls c .done
        trace := .initiated c id (.error error) :: s.trace }
  | answers {c id outcome} : s.calls c = .answering id outcome →
      Step s { s with
        calls := Function.update s.calls c .done
        trace := .initiated c id outcome.answer :: s.trace }
  | loses {c id outcome} : s.calls c = .answering id outcome →
      Step s { s with
        calls := Function.update s.calls c .done
        trace := .initiated c id (.error .databaseError) :: s.trace }
  | looksUp (id : UUID) :
      Step s { s with trace := .lookedUp id (.ok (s.lookup id)) :: s.trace }
  | lookupFails (id : UUID) :
      Step s { s with trace := .lookedUp id (.error .databaseError) :: s.trace }

end Registry

/-- A registry, from the start. -/
def registry : TransitionSystem Registry where
  init s := s = ⟨fun _ => none, fun _ => .idle, []⟩
  step := Registry.Step

/-! ## Its runs keep the contract -/

/-- A sound outcome that does not time out has an answer. -/
theorem MockOutcome.Sound.answer_ok {outcome : MockOutcome} (h : outcome.Sound) :
    ∃ answer, outcome.answer = .ok answer := by
  unfold MockOutcome.answer
  split_ifs with htimesOut
  · exact ⟨_, rfl⟩
  · cases hsubmission : outcome.submission with
    | none => exact absurd (h.timesOut_iff.mpr hsubmission) htimesOut
    | some result => exact ⟨_, rfl⟩

theorem MockOutcome.submission_of_answer {outcome : MockOutcome} {result : ProviderResult}
    (h : outcome.answer = .ok (.result result)) : outcome.submission = some result := by
  unfold MockOutcome.answer at h
  split_ifs at h
  · cases h
  · split at h
    · next heq =>
      cases h
      exact heq
    · cases h

theorem ProviderLookup.Final.ne_notFound {lookup : ProviderLookup} (h : lookup.Final) :
    lookup ≠ .notFound := by
  rintro rfl
  obtain h | h | h := h <;> cases h

/-- What each event says is what was recorded before it. -/
structure Recorded (trace : List MockEvent) : Prop where
  once : Trace.Throughout (fun e earlier => ∀ c id outcome, e = .recorded c id outcome →
    outcome.Sound ∧ ∀ c' outcome', .recorded c' id outcome' ∉ earlier) trace
  initiated : Trace.Throughout (fun e earlier => ∀ c id answer, e = .initiated c id (.ok answer) →
    ∃ c' outcome, .recorded c' id outcome ∈ earlier ∧ outcome.answer = .ok answer) trace
  raised : ∀ c id error, .initiated c id (.error error) ∈ trace → error = .databaseError ∨
    ∃ message, error = .runtimeError message ∧ ∀ id' outcome, .recorded c id' outcome ∉ trace
  lookedUp : Trace.Throughout (fun e earlier => ∀ id answer, e = .lookedUp id (.ok answer) →
    (∃ c outcome, .recorded c id outcome ∈ earlier ∧ answer = outcome.authority) ∨
    answer = .notFound ∧ ∀ c outcome, .recorded c id outcome ∉ earlier) trace
  lookup_raised : ∀ id error, .lookedUp id (.error error) ∈ trace → error = .databaseError

namespace Recorded

variable {trace : List MockEvent} {c c' : ℕ} {id : UUID} {outcome outcome' : MockOutcome}

theorem sound (h : Recorded trace) (hmem : .recorded c id outcome ∈ trace) : outcome.Sound := by
  obtain ⟨_, _, hsound⟩ := h.once.of_mem hmem
  exact (hsound c id outcome rfl).1

theorem unique (h : Recorded trace) (hmem : .recorded c id outcome ∈ trace)
    (hmem' : .recorded c' id outcome' ∈ trace) : outcome = outcome' := by
  obtain heq | ⟨earlier, hearlier, honce⟩ | ⟨earlier, hearlier, honce⟩ :=
    h.once.of_mem_mem hmem hmem'
  · injection heq
  · exact absurd hearlier ((honce c id outcome rfl).2 c' outcome')
  · exact absurd hearlier ((honce c' id outcome' rfl).2 c outcome)

/-- A lookup after an outcome was recorded reports its authority. -/
theorem authority (h : Recorded trace) {later earlier : List MockEvent} {answer : ProviderLookup}
    (hsplit : trace = later ++ .lookedUp id (.ok answer) :: earlier)
    (hmem : .recorded c id outcome ∈ earlier) : answer = outcome.authority := by
  have hearlier {e} (he : e ∈ earlier) : e ∈ trace := by
    rw [hsplit]
    exact List.mem_append_right _ (List.mem_cons_of_mem _ he)
  obtain ⟨c', outcome', hmem', rfl⟩ | ⟨-, hnone⟩ :=
    Trace.throughout_iff.mp h.lookedUp later _ earlier hsplit id answer rfl
  · rw [h.unique (hearlier hmem') (hearlier hmem)]
  · exact absurd hmem (hnone c outcome)

/-- The contract is about what was recorded. -/
theorem contract (h : Recorded trace) : MockContract trace where
  once := h.once
  recorded := h.initiated
  raised := h.raised
  lookup_raised := h.lookup_raised
  same_answer := by
    have hrecorded {c id answer} (hmem : .initiated c id (.ok answer) ∈ trace) :
        ∃ c' outcome, .recorded c' id outcome ∈ trace ∧ outcome.answer = .ok answer := by
      obtain ⟨earlier, hsuffix, hinitiated⟩ := h.initiated.of_mem hmem
      obtain ⟨c', outcome, hmem', hanswer⟩ := hinitiated c id answer rfl
      exact ⟨c', outcome, hsuffix.subset (List.mem_cons_of_mem _ hmem'), hanswer⟩
    intro c c' id answer answer' hmem hmem'
    obtain ⟨_, outcome, houtcome, hanswer⟩ := hrecorded hmem
    obtain ⟨_, outcome', houtcome', hanswer'⟩ := hrecorded hmem'
    rw [h.unique houtcome houtcome', hanswer'] at hanswer
    injection hanswer with hanswer
    exact hanswer.symm
  same_authority := by
    refine Trace.throughout_iff.mpr ?_
    rintro later e earlier hsplit id answer rfl c outcome hmem
    exact h.authority hsplit hmem
  not_found := by
    refine Trace.throughout_iff.mpr ?_
    rintro later e earlier hsplit id answer rfl
    obtain ⟨c, outcome, hmem, rfl⟩ | ⟨rfl, hnone⟩ :=
      Trace.throughout_iff.mp h.lookedUp later _ earlier hsplit id answer rfl
    · have hbefore : .recorded c id outcome ∈ trace := by
        rw [hsplit]
        exact List.mem_append_right _ (List.mem_cons_of_mem _ hmem)
      exact iff_of_false (h.sound hbefore).final.ne_notFound fun hnone => hnone c outcome hmem
    · exact iff_of_true rfl hnone
  agrees := by
    refine Trace.throughout_iff.mpr ?_
    rintro later e earlier hsplit id answer rfl c
    have hsubmission {result} (hmem : .initiated c id (.ok (.result result)) ∈ earlier) :
        ∃ outcome : MockOutcome, outcome.Sound ∧ outcome.submission = some result ∧
          answer = outcome.authority := by
      have hrecorded := h.initiated
      rw [hsplit] at hrecorded
      obtain ⟨earlier', hsuffix, hinitiated⟩ := hrecorded.drop.2.of_mem hmem
      obtain ⟨c', outcome, hmem', hanswer⟩ := hinitiated c id _ rfl
      have hbefore := hsuffix.subset (List.mem_cons_of_mem _ hmem')
      have hrecorded' : .recorded c' id outcome ∈ trace := by
        rw [hsplit]
        exact List.mem_append_right _ (List.mem_cons_of_mem _ hbefore)
      exact ⟨outcome, h.sound hrecorded', MockOutcome.submission_of_answer hanswer,
        h.authority hsplit hbefore⟩
    constructor
    · intro hmem
      obtain ⟨outcome, hsound, hpaid, rfl⟩ := hsubmission hmem
      exact hsound.paid hpaid
    · intro hmem
      obtain ⟨outcome, hsound, hunpaid, rfl⟩ := hsubmission hmem
      exact hsound.unpaid hunpaid

/-! One more event. -/

theorem cons_recorded (h : Recorded trace) (hsound : outcome.Sound)
    (hnone : ∀ c' outcome', .recorded c' id outcome' ∉ trace)
    (hfresh : ∀ id' answer, .initiated c id' answer ∉ trace) :
    Recorded (.recorded c id outcome :: trace) where
  once := by
    refine ⟨?_, h.once⟩
    rintro _ _ _ heq
    injection heq with _ hid houtcome
    subst hid houtcome
    exact ⟨hsound, hnone⟩
  initiated := ⟨(fun _ _ _ heq => by cases heq), h.initiated⟩
  raised := by
    intro c' id' error hmem
    obtain heq | hbefore := List.mem_cons.mp hmem
    · cases heq
    · obtain hlost | ⟨message, herror, hrecorded⟩ := h.raised c' id' error hbefore
      · exact .inl hlost
      · refine .inr ⟨message, herror, fun id'' outcome' hmem' => ?_⟩
        obtain heq | hmem' := List.mem_cons.mp hmem'
        · injection heq with hcall
          subst hcall
          exact hfresh _ _ hbefore
        · exact hrecorded id'' outcome' hmem'
  lookedUp := ⟨(fun _ _ heq => by cases heq), h.lookedUp⟩
  lookup_raised := by
    intro id' error hmem
    obtain heq | hmem := List.mem_cons.mp hmem
    · cases heq
    · exact h.lookup_raised id' error hmem

theorem cons_initiated (h : Recorded trace) {answer : Except MockError MockAnswer}
    (hok : ∀ a, answer = .ok a → ∃ c' outcome, .recorded c' id outcome ∈ trace ∧
      outcome.answer = .ok a)
    (herror : ∀ e, answer = .error e → e = .databaseError ∨ ∃ message, e = .runtimeError message ∧
      ∀ id' outcome, .recorded c id' outcome ∉ trace) :
    Recorded (.initiated c id answer :: trace) where
  once := ⟨(fun _ _ _ heq => by cases heq), h.once⟩
  initiated := by
    refine ⟨?_, h.initiated⟩
    rintro _ _ a heq
    injection heq with _ hid hanswer
    subst hid
    exact hok a hanswer
  raised := by
    intro c' id' error hmem
    have hdrop {c'' id'' outcome'} (hmem' : MockEvent.recorded c'' id'' outcome' ∈
        .initiated c id answer :: trace) : .recorded c'' id'' outcome' ∈ trace := by
      obtain heq | hmem' := List.mem_cons.mp hmem'
      · cases heq
      · exact hmem'
    have hcases : error = .databaseError ∨ ∃ message, error = .runtimeError message ∧
        ∀ id'' outcome', .recorded c' id'' outcome' ∉ trace := by
      obtain heq | hmem := List.mem_cons.mp hmem
      · injection heq with hcall _ hanswer
        subst hcall
        exact herror error hanswer.symm
      · exact h.raised c' id' error hmem
    obtain hlost | ⟨message, hmessage, hrecorded⟩ := hcases
    · exact .inl hlost
    · exact .inr ⟨message, hmessage, fun id'' outcome' hmem' => hrecorded _ _ (hdrop hmem')⟩
  lookedUp := ⟨(fun _ _ heq => by cases heq), h.lookedUp⟩
  lookup_raised := by
    intro id' error hmem
    obtain heq | hmem := List.mem_cons.mp hmem
    · cases heq
    · exact h.lookup_raised id' error hmem

theorem cons_lookedUp (h : Recorded trace) {answer : Except MockError ProviderLookup}
    (hok : ∀ l, answer = .ok l →
      (∃ c outcome, .recorded c id outcome ∈ trace ∧ l = outcome.authority) ∨
      l = .notFound ∧ ∀ c outcome, .recorded c id outcome ∉ trace)
    (herror : ∀ e, answer = .error e → e = .databaseError) :
    Recorded (.lookedUp id answer :: trace) where
  once := ⟨(fun _ _ _ heq => by cases heq), h.once⟩
  initiated := ⟨(fun _ _ _ heq => by cases heq), h.initiated⟩
  raised := by
    intro c' id' error hmem
    obtain heq | hmem := List.mem_cons.mp hmem
    · cases heq
    · obtain hlost | ⟨message, hmessage, hrecorded⟩ := h.raised c' id' error hmem
      · exact .inl hlost
      · refine .inr ⟨message, hmessage, fun id'' outcome' hmem' => ?_⟩
        obtain heq | hmem' := List.mem_cons.mp hmem'
        · cases heq
        · exact hrecorded id'' outcome' hmem'
  lookedUp := by
    refine ⟨?_, h.lookedUp⟩
    rintro _ l heq
    injection heq with hid hanswer
    subst hid
    exact hok l hanswer
  lookup_raised := by
    intro id' error hmem
    obtain heq | hmem := List.mem_cons.mp hmem
    · injection heq with _ hanswer
      exact herror error hanswer.symm
    · exact h.lookup_raised id' error hmem

end Recorded

namespace Registry

/-- What a registry keeps: its records are the recorded events, an idle call has no
event, and a call that is about to answer has found its outcome. -/
structure Kept (s : Registry) : Prop where
  log : Recorded s.trace
  records_iff : ∀ id outcome, s.records id = some outcome ↔
    ∃ c, .recorded c id outcome ∈ s.trace
  idle : ∀ c, s.calls c = .idle → (∀ id outcome, .recorded c id outcome ∉ s.trace) ∧
    ∀ id answer, .initiated c id answer ∉ s.trace
  answering : ∀ c id outcome, s.calls c = .answering id outcome → s.records id = some outcome ∧
    ∀ id' answer, .initiated c id' answer ∉ s.trace

variable {s t : Registry} {c : ℕ} {id : UUID}

theorem of_update {f : ℕ → RegistryCall} {new call : RegistryCall} {c' : ℕ}
    (h : Function.update f c new c' = call) : c' = c ∧ new = call ∨ c' ≠ c ∧ f c' = call := by
  by_cases hc : c' = c
  · subst hc
    exact .inl ⟨rfl, by rwa [Function.update_self] at h⟩
  · exact .inr ⟨hc, by rwa [Function.update_of_ne hc] at h⟩

/-- The end of a call. -/
theorem Kept.finish (h : s.Kept) {answer : Except MockError MockAnswer}
    (hlog : Recorded (.initiated c id answer :: s.trace)) :
    Kept { s with
      calls := Function.update s.calls c .done
      trace := .initiated c id answer :: s.trace } where
  log := hlog
  records_iff := by
    intro id' outcome
    rw [h.records_iff]
    simp
  idle := by
    intro c' hidle
    obtain ⟨-, hdone⟩ | ⟨hc, hidle⟩ := of_update hidle
    · cases hdone
    · simpa [hc] using h.idle c' hidle
  answering := by
    intro c' id' outcome hanswering
    obtain ⟨-, hdone⟩ | ⟨hc, hanswering⟩ := of_update hanswering
    · cases hdone
    · simpa [hc] using h.answering c' id' outcome hanswering

theorem Kept.looked (h : s.Kept) {answer : Except MockError ProviderLookup}
    (hlog : Recorded (.lookedUp id answer :: s.trace)) :
    Kept { s with trace := .lookedUp id answer :: s.trace } where
  log := hlog
  records_iff := by simpa using h.records_iff
  idle := by simpa using h.idle
  answering := by simpa using h.answering

/-- An id without a record was never recorded. -/
theorem Kept.not_recorded (h : s.Kept) (hnone : s.records id = none) :
    ∀ c outcome, .recorded c id outcome ∉ s.trace := by
  intro c outcome hmem
  have hsome := (h.records_iff id outcome).mpr ⟨c, hmem⟩
  rw [hnone] at hsome
  cases hsome

/-- A call that records its id. -/
theorem Kept.record (h : s.Kept) {outcome : MockOutcome} (hidle : s.calls c = .idle)
    (hnone : s.records id = none) (hsound : outcome.Sound) :
    Kept ⟨Function.update s.records id (some outcome),
      Function.update s.calls c (.answering id outcome), .recorded c id outcome :: s.trace⟩ where
  log := h.log.cons_recorded hsound (h.not_recorded hnone) (h.idle c hidle).2
  records_iff := by
    intro id' outcome'
    by_cases hid : id' = id
    · subst hid
      simp [Function.update_self, h.not_recorded hnone, eq_comm]
    · simp [h.records_iff, hid]
  idle := by
    intro c' hidle'
    obtain ⟨-, hanswering⟩ | ⟨hc, hidle'⟩ := of_update hidle'
    · cases hanswering
    · simpa [hc] using h.idle c' hidle'
  answering := by
    intro c' id' outcome' hanswering
    obtain ⟨rfl, heq⟩ | ⟨hc, hanswering⟩ := of_update hanswering
    · injection heq with hid houtcome
      subst hid houtcome
      simpa [Function.update_self] using (h.idle c' hidle).2
    · obtain ⟨hrecords, hinitiated⟩ := h.answering c' id' outcome' hanswering
      have hid : id' ≠ id := by
        rintro rfl
        rw [hnone] at hrecords
        cases hrecords
      simpa [Function.update_of_ne hid, hrecords] using hinitiated

/-- A call that finds its id recorded. -/
theorem Kept.find (h : s.Kept) {outcome : MockOutcome} (hidle : s.calls c = .idle)
    (hrecords : s.records id = some outcome) :
    Kept { s with calls := Function.update s.calls c (.answering id outcome) } where
  log := h.log
  records_iff := h.records_iff
  idle := by
    intro c' hidle'
    obtain ⟨-, hanswering⟩ | ⟨-, hidle'⟩ := of_update hidle'
    · cases hanswering
    · exact h.idle c' hidle'
  answering := by
    intro c' id' outcome' hanswering
    obtain ⟨rfl, heq⟩ | ⟨-, hanswering⟩ := of_update hanswering
    · injection heq with hid houtcome
      subst hid houtcome
      exact ⟨hrecords, (h.idle c' hidle).2⟩
    · exact h.answering c' id' outcome' hanswering

/-- What a lookup answers, told by the trace. -/
theorem Kept.lookup_cases (h : s.Kept) (id : UUID) :
    (∃ c outcome, .recorded c id outcome ∈ s.trace ∧ s.lookup id = outcome.authority) ∨
      s.lookup id = .notFound ∧ ∀ c outcome, .recorded c id outcome ∉ s.trace := by
  unfold lookup
  cases hrecords : s.records id with
  | none => exact .inr ⟨rfl, h.not_recorded hrecords⟩
  | some outcome =>
    obtain ⟨c, hmem⟩ := (h.records_iff id outcome).mp hrecords
    exact .inl ⟨c, outcome, hmem, rfl⟩

theorem Kept.step (h : s.Kept) (hstep : s.Step t) : t.Kept := by
  cases hstep with
  | records hidle hnone hsound => exact h.record hidle hnone hsound
  | finds hidle hrecords => exact h.find hidle hrecords
  | @raises c id error hidle herror =>
    refine h.finish (h.log.cons_initiated ?_ ?_)
    · intro answer heq
      cases heq
    · intro _ heq
      cases heq
      obtain hlost | ⟨message, hmessage⟩ := herror
      · exact .inl hlost
      · exact .inr ⟨message, hmessage, (h.idle c hidle).1⟩
  | @answers c id outcome hanswering =>
    obtain ⟨hrecords, -⟩ := h.answering c id outcome hanswering
    obtain ⟨c', hmem⟩ := (h.records_iff id outcome).mp hrecords
    refine h.finish (h.log.cons_initiated ?_ ?_)
    · intro answer heq
      exact ⟨c', outcome, hmem, heq⟩
    · intro error heq
      obtain ⟨answer, hanswer⟩ := (h.log.sound hmem).answer_ok
      rw [hanswer] at heq
      cases heq
  | @loses c id outcome hanswering =>
    refine h.finish (h.log.cons_initiated ?_ ?_)
    · intro answer heq
      cases heq
    · intro _ heq
      cases heq
      exact .inl rfl
  | looksUp id =>
    refine h.looked (h.log.cons_lookedUp ?_ ?_)
    · intro l heq
      cases heq
      exact h.lookup_cases id
    · intro error heq
      cases heq
  | lookupFails id =>
    refine h.looked (h.log.cons_lookedUp ?_ ?_)
    · intro l heq
      cases heq
    · intro _ heq
      cases heq
      rfl

theorem kept_empty : Kept ⟨fun _ => none, fun _ => .idle, []⟩ where
  log := ⟨trivial, trivial, by simp, trivial, by simp⟩
  records_iff := by simp
  idle := by simp
  answering := by simp

theorem kept_of_reachable (h : registry.Reachable s) : s.Kept := by
  refine h.invariant ?_ fun _ _ _ hkept hstep => hkept.step hstep
  rintro _ rfl
  exact kept_empty

/-- **A registry keeps the contract.** -/
theorem contract (h : registry.Reachable s) : MockContract s.trace :=
  (kept_of_reachable h).log.contract

end Registry

end SettlementRouter
