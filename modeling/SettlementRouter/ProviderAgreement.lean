import SettlementRouter.CallConduct
import SettlementRouter.JournalEvents
import SettlementRouter.Replies

/-! # Settlements agree with the provider

A settlement ends in `SUCCESS` only if the provider holds a paid operation for
it, and in `FAILED` only if it holds an unpaid one.  Three things come together:
an answer of the provider is what it has recorded, and stays so, since a record
is never changed (`recorded_of_disclosed`); a worker finalizes with a result only
if the provider has told it, about this settlement (`told_of_finalize`); and only
finalizing ends a settlement (`Transaction.run_terminal`).

So it does not matter in which order answers arrive, or how old they are.
-/
namespace SettlementRouter

/-- The answer discloses the outcome of the settlement's operation. -/
inductive Discloses : ((op : Operation) × Except ServiceError op.Reply) → UUID →
    ProviderLookup → Prop
  | initiatedPaid {id amountUsd targetCurrency quotedAmount} :
      Discloses ⟨.initiate id amountUsd targetCurrency quotedAmount, .ok .paid⟩ id .paid
  | initiatedUnpaid {id amountUsd targetCurrency quotedAmount} :
      Discloses ⟨.initiate id amountUsd targetCurrency quotedAmount, .ok .unpaid⟩ id .unpaid
  | foundPaid {id} : Discloses ⟨.lookup id, .ok .paid⟩ id .paid
  | foundUnpaid {id} : Discloses ⟨.lookup id, .ok .unpaid⟩ id .unpaid

section Answers
variable {settings : Settings} {law : ProviderLaw} {start : Database → Prop} {s s' : State}
  {w : ℕ} {id : UUID} {outcome : ProviderLookup}

/-- **A record is never changed.** -/
theorem Step.recorded (h : Step settings law s s') (hs : s.recorded id = some outcome) :
    s'.recorded id = some outcome := by
  cases h with
  | start => exact hs
  | wait _ h =>
    change ((_ : Shared).provider id).map _ = _
    rw [h.provider]
    exact hs
  | advance _ h =>
    change ((_ : Shared).provider id).map _ = _
    rw [h.provider]
    exact hs
  | stop => exact hs
  | tick => exact hs
  | @record w id' amountUsd targetCurrency quotedAmount outcome' _ hnone =>
    have hne : id ≠ id' := by
      rintro rfl
      rw [Shared.recorded, hnone] at hs
      cases hs
    change (Function.update s.provider id' _ id).map _ = _
    rw [Function.update_of_ne hne]
    exact hs

/-- What an answer under the contract discloses is recorded. -/
theorem Answers.recorded {op : Operation} {reply : Except ServiceError op.Reply}
    (h : Answers .contract s.toShared op reply) (hd : Discloses ⟨op, reply⟩ id outcome) :
    s.recorded id = some outcome := by
  have hsome : ∀ {α : Type} {answer : Option α} {a : α}, answered answer = .ok a →
      answer = some a := by
    intro α answer a h
    cases answer with
    | none => cases h
    | some b => exact congrArg some (Except.ok.inj h)
  cases hd with
  | initiatedPaid =>
    obtain ⟨answer, hlaw, hreply⟩ := h
    exact hlaw.1 (hsome hreply.symm)
  | initiatedUnpaid =>
    obtain ⟨answer, hlaw, hreply⟩ := h
    exact hlaw.2 (hsome hreply.symm)
  | foundPaid =>
    obtain ⟨answer, hlaw, hreply⟩ := h
    exact hlaw.1 (hsome hreply.symm)
  | foundUnpaid =>
    obtain ⟨answer, hlaw, hreply⟩ := h
    exact hlaw.2 (hsome hreply.symm)

/-- **What was disclosed to a worker is recorded**, however long ago that was. -/
theorem recorded_of_disclosed {entry : (op : Operation) × Except ServiceError op.Reply}
    (h : (system settings .contract start).Reachable s) (hseen : entry ∈ history w s.trace)
    (hd : Discloses entry id outcome) : s.recorded id = some outcome := by
  have hinv := event_of_reachable (Q := fun e s => ∀ op reply,
    e.action = .answered op reply → ∀ id outcome, Discloses ⟨op, reply⟩ id outcome →
      s.recorded id = some outcome) (fun s s' e _ hstep _ hhappens => ?_)
    (fun s s' e _ hstep hs op reply haction id outcome hd =>
      hstep.recorded (hs op reply haction id outcome hd)) h
  · obtain ⟨action, hmem, haction⟩ := mem_history hseen
    cases action with
    | started call => cases haction
    | called op => cases haction
    | ran t reply acknowledged => cases acknowledged <;> cases haction <;> cases hd
    | answered op reply =>
      cases haction
      exact hinv _ hmem op reply rfl id outcome hd
  · intro op reply haction id outcome hd
    refine hstep.recorded ?_
    generalize s'.db = db at hhappens
    cases hhappens with
    | answers _ hanswers =>
      cases haction
      exact hanswers.recorded hd
    | _ => cases haction

end Answers

section Finalizing
variable {settings : Settings} {law : ProviderLaw} {start : Database → Prop} {s : State}
  {e : Event} {earlier : List Event} {id : UUID} {token : ℕ} {final : ProviderResult}

/-- **A worker finalizes with what the provider told it** of the settlement. -/
theorem told_of_finalize (h : (system settings law start).Reachable s)
    (hmem : e :: earlier <:+ s.trace)
    (hop : e.action.operation = some (.transaction (.finalizeAttempt id token (some final)))) :
    ∃ claim : PayoutClaim,
      claim.settlement.id = id ∧ Told (history e.worker earlier) claim final := by
  obtain ⟨later, htrace⟩ := hmem
  obtain ⟨call, -, hallows⟩ :=
    Trace.throughout_iff.mp (allows_of_reachable h) later e earlier htrace.symm _ hop
  cases hallows with
  | @finish ownerId idempotencyKey command _ _ claim result _ hclaim htold =>
    have hsuffix : earlier <:+ s.trace := ⟨later ++ [e], by rw [← htrace]; simp⟩
    have hreports := reports_of_history h (mem_history_of_suffix hsuffix hclaim)
    exact ⟨claim, (hreports claim rfl).1, htold final rfl⟩
  | apply _ _ htold => exact ⟨_, rfl, htold final rfl⟩

theorem Told.disclosed {h : CallHistory} {claim : PayoutClaim} (htold : Told h claim final) :
    (final = .paid → ∃ entry ∈ h, Discloses entry claim.settlement.id .paid) ∧
      (final = .unpaid → ∃ entry ∈ h, Discloses entry claim.settlement.id .unpaid) := by
  cases htold with
  | initiated hmem =>
    constructor
    · rintro rfl
      exact ⟨_, hmem, .initiatedPaid⟩
    · rintro rfl
      exact ⟨_, hmem, .initiatedUnpaid⟩
  | paid hmem => exact ⟨fun _ => ⟨_, hmem, .foundPaid⟩, nofun⟩
  | unpaid hmem => exact ⟨nofun, fun _ => ⟨_, hmem, .foundUnpaid⟩⟩

theorem Told.mono {h h' : CallHistory} {claim : PayoutClaim} (htold : Told h claim final)
    (hsub : ∀ entry ∈ h, entry ∈ h') : Told h' claim final := by
  cases htold with
  | initiated hmem => exact .initiated (hsub _ hmem)
  | paid hmem => exact .paid (hsub _ hmem)
  | unpaid hmem => exact .unpaid (hsub _ hmem)

end Finalizing

/-! ## What moves the ledger and ends a settlement -/

section Transactions
variable {settings : Settings} {clock : ℕ → Time} {locked : UUID → Bool} {db db' : Database}
  {id id' : UUID} {kind : WriteKind} {status : SettlementStatus} {t : Transaction}
  {reply : t.Reply}

/-- The writes and the transactions that move funds. -/
def WriteKind.MovesFunds : WriteKind → Prop
  | .reserve => True
  | .claim _ => False
  | .finalize _ status => status ≠ .pendingReconciliation

/-- The transaction posts a journal, if it does anything. -/
def Transaction.MovesFunds : Transaction → Prop
  | .insertReserved _ => True
  | .finalizeAttempt _ _ result => result = some .paid ∨ result = some .unpaid
  | _ => False

theorem Write.ledger_eq (h : Write id kind db db') (hkind : ¬ kind.MovesFunds) :
    db'.accounts = db.accounts ∧ db'.journals = db.journals := by
  cases h with
  | reserve => exact absurd trivial hkind
  | submit => exact ⟨rfl, rfl⟩
  | adopt => exact ⟨rfl, rfl⟩
  | claim => exact ⟨rfl, rfl⟩
  | finalize _ _ _ _ _ happlied =>
    cases happlied with
    | pend => exact ⟨rfl, rfl⟩
    | consume => exact absurd nofun hkind
    | release => exact absurd nofun hkind

theorem Claims.ledger_eq {claims : List PayoutClaim} (h : Claims claims db db') :
    db'.accounts = db.accounts ∧ db'.journals = db.journals := by
  induction h with
  | nil => exact ⟨rfl, rfl⟩
  | cons hwrite _ _ ih =>
    obtain ⟨haccounts, hjournals⟩ := hwrite.ledger_eq id
    exact ⟨ih.1.trans haccounts, ih.2.trans hjournals⟩

/-- **Without a result funds stay where they are.** -/
theorem Transaction.run_ledger_eq (h : t.run settings clock locked db = .ok (reply, db'))
    (ht : ¬ t.MovesFunds) : db'.accounts = db.accounts ∧ db'.journals = db.journals := by
  cases t with
  | findByKey ownerId idempotencyKey =>
    cases h
    exact ⟨rfl, rfl⟩
  | insertReserved new => exact absurd trivial ht
  | get settlementId =>
    obtain ⟨rfl, -⟩ := run_get_ok h
    exact ⟨rfl, rfl⟩
  | claimReserved settlementId => exact (claimReserved_ok h).1.ledger_eq
  | claimForReconciliation settlementId respectSchedule =>
    exact (claimForReconciliation_ok h).1.ledger_eq
  | claimDueBatch limit => exact (claimDueBatch_claims (Except.ok.inj h)).ledger_eq
  | finalizeAttempt settlementId attemptToken result =>
    obtain ⟨_, _, _, -, -, -, -, -, hcase⟩ := finalizeAttempt_ok h
    rcases hcase with ⟨-, rfl⟩ | ⟨-, hwrite⟩
    · exact ⟨rfl, rfl⟩
    · refine hwrite.ledger_eq (not_not.mpr ?_)
      cases result with
      | none => rfl
      | some final =>
        cases final with
        | paid => exact absurd (Or.inl rfl) ht
        | unpaid => exact absurd (Or.inr rfl) ht
        | ambiguous => rfl

theorem Lifecycle.Move.terminal {l l' : Lifecycle} (h : Move kind l l')
    (hstatus : l'.status = some status) (hterminal : status.Terminal) :
    l.status = some status ∨ ∃ token, kind = .finalize token status := by
  cases h with
  | reserve => cases hstatus; rcases hterminal with h | h <;> cases h
  | submit => cases hstatus; rcases hterminal with h | h <;> cases h
  | adopt => exact Or.inl hstatus
  | claim => exact Or.inl hstatus
  | pend => cases hstatus; rcases hterminal with h | h <;> cases h
  | consume => cases hstatus; exact Or.inr ⟨_, rfl⟩
  | release => cases hstatus; exact Or.inr ⟨_, rfl⟩

theorem Write.terminal (h : Write id' kind db db') (hstatus : db'.status id = some status)
    (hterminal : status.Terminal) :
    db.status id = some status ∨ id = id' ∧ ∃ token, kind = .finalize token status := by
  by_cases hid : id = id'
  · subst hid
    exact (h.move.terminal hstatus hterminal).imp_right fun hkind => ⟨rfl, hkind⟩
  · refine Or.inl ?_
    have hframe : db'.status id = db.status id := congrArg Lifecycle.status (h.frame hid)
    rwa [← hframe]

theorem Claims.terminal {claims : List PayoutClaim} (h : Claims claims db db')
    (hstatus : db'.status id = some status) (hterminal : status.Terminal) :
    db.status id = some status := by
  induction h with
  | nil => exact hstatus
  | cons hwrite _ _ ih =>
    rcases hwrite.terminal (ih hstatus) hterminal with h | ⟨-, token, h⟩
    · exact h
    · cases h

/-- **Only finalizing ends a settlement**, in the status its result stands for. -/
theorem Transaction.run_terminal (h : t.run settings clock locked db = .ok (reply, db'))
    (hstatus : db'.status id = some status) (hterminal : status.Terminal) :
    db.status id = some status ∨
      ∃ token result, t = .finalizeAttempt id token result ∧ finalStatus result = status := by
  cases t with
  | findByKey ownerId idempotencyKey =>
    cases h
    exact Or.inl hstatus
  | insertReserved new =>
    obtain ⟨row, -, -, hwrite⟩ := insertReserved_ok h
    rcases hwrite.terminal hstatus hterminal with h | ⟨-, token, h⟩
    · exact Or.inl h
    · cases h
  | get settlementId =>
    obtain ⟨rfl, -⟩ := run_get_ok h
    exact Or.inl hstatus
  | claimReserved settlementId =>
    exact Or.inl ((claimReserved_ok h).1.terminal hstatus hterminal)
  | claimForReconciliation settlementId respectSchedule =>
    exact Or.inl ((claimForReconciliation_ok h).1.terminal hstatus hterminal)
  | claimDueBatch limit =>
    exact Or.inl ((claimDueBatch_claims (Except.ok.inj h)).terminal hstatus hterminal)
  | finalizeAttempt settlementId attemptToken result =>
    obtain ⟨_, _, _, -, -, -, -, -, hcase⟩ := finalizeAttempt_ok h
    rcases hcase with ⟨-, rfl⟩ | ⟨-, hwrite⟩
    · exact Or.inl hstatus
    · rcases hwrite.terminal hstatus hterminal with h | ⟨rfl, token, h⟩
      · exact Or.inl h
      · cases h
        exact Or.inr ⟨_, result, rfl, rfl⟩

end Transactions

/-! ## Agreement -/

section Agreement
variable {settings : Settings} {law : ProviderLaw} {start : Database → Prop} {s s' : State}
  {id : UUID} {status : SettlementStatus}

/-- **A settlement ends with what the provider told** the worker that ends it. -/
theorem told_of_step (h : (system settings law start).Reachable s)
    (hstep : Step settings law s s') (hstatus : s'.db.status id = some status)
    (hterminal : status.Terminal) :
    s.db.status id = some status ∨ ∃ (w : ℕ) (final : ProviderResult) (claim : PayoutClaim),
      finalStatus (some final) = status ∧ claim.settlement.id = id ∧
        Told (history w s'.trace) claim final := by
  have hreach : (system settings law start).Reachable s' := .step h hstep
  rcases hstep.happens with ⟨-, hdb⟩ | ⟨e, htrace, hhappens⟩
  · rw [hdb] at hstatus
    exact Or.inl hstatus
  · generalize s'.db = db at hhappens hstatus
    cases hhappens with
    | commits acknowledged _ _ hrun =>
      rcases Transaction.run_terminal hrun hstatus hterminal with
        hsame | ⟨token, result, rfl, hresult⟩
      · exact Or.inl hsame
      · cases result with
        | none =>
          subst hresult
          rcases hterminal with hs | hs <;> cases hs
        | some final =>
          obtain ⟨claim, hid, htold⟩ := told_of_finalize hreach ⟨[], htrace.symm⟩ rfl
          have hsuffix : s.trace <:+ s'.trace := htrace ▸ List.suffix_cons _ _
          exact Or.inr ⟨_, final, claim, hresult, hid, htold.mono fun entry hmem =>
            mem_history_of_suffix hsuffix hmem⟩
    | starts => exact Or.inl hstatus
    | calls => exact Or.inl hstatus
    | rollsBack => exact Or.inl hstatus
    | answers => exact Or.inl hstatus

theorem ended_agrees (h : (system settings .contract Database.Unused).Reachable s) :
    ∀ id, (s.db.status id = some .success → s.recorded id = some .paid) ∧
      (s.db.status id = some .failed → s.recorded id = some .unpaid) := by
  refine h.invariant (I := fun s => ∀ id,
    (s.db.status id = some .success → s.recorded id = some .paid) ∧
      (s.db.status id = some .failed → s.recorded id = some .unpaid)) ?_ ?_
  · intro s hinit id
    have hnone : s.db.status id = none := congrArg Lifecycle.status (hinit.1.lifecycle id)
    rw [hnone]
    exact ⟨nofun, nofun⟩
  · intro s s' hreach hs (hstep : Step settings .contract s s') id
    have hreach' : (system settings .contract Database.Unused).Reachable s' := .step hreach hstep
    constructor
    · intro hstatus
      rcases told_of_step hreach hstep hstatus (Or.inl rfl) with
        hsame | ⟨w, final, claim, hfinal, rfl, htold⟩
      · exact hstep.recorded ((hs id).1 hsame)
      · have hpaid : final = .paid := by
          cases final <;> first | rfl | cases hfinal
        obtain ⟨entry, hmem, hd⟩ := htold.disclosed.1 hpaid
        exact recorded_of_disclosed hreach' hmem hd
    · intro hstatus
      rcases told_of_step hreach hstep hstatus (Or.inr rfl) with
        hsame | ⟨w, final, claim, hfinal, rfl, htold⟩
      · exact hstep.recorded ((hs id).2 hsame)
      · have hunpaid : final = .unpaid := by
          cases final <;> first | rfl | cases hfinal
        obtain ⟨entry, hmem, hd⟩ := htold.disclosed.2 hunpaid
        exact recorded_of_disclosed hreach' hmem hd

/-- What a transaction that moves funds is based on: nothing, for a reservation,
and otherwise on what the provider has told the worker itself. -/
inductive Grounds (h : CallHistory) : Transaction → Prop
  | reserve {new} : Grounds h (.insertReserved new)
  | consume {claim : PayoutClaim} {attemptToken} : Told h claim .paid →
      Grounds h (.finalizeAttempt claim.settlement.id attemptToken (some .paid))
  | release {claim : PayoutClaim} {attemptToken} : Told h claim .unpaid →
      Grounds h (.finalizeAttempt claim.settlement.id attemptToken (some .unpaid))

/-- **Agreement with the provider.**  Under the contract of the provider alone, and
in every order of events, funds are consumed only for a settlement the provider
holds a paid operation for, and released only where it holds an unpaid one.
Nothing else moves reserved funds: a worker that was told neither, because of a
timeout, an exception or an ambiguous answer, leaves the ledger as it is. -/
theorem status_agrees_with_provider
    (h : (system settings .contract Database.Unused).Reachable s) :
    (∀ id, s.db.status id = some .success ∨ 0 < s.db.journalCount id .consume →
      s.recorded id = some .paid) ∧
    (∀ id, s.db.status id = some .failed ∨ 0 < s.db.journalCount id .release →
      s.recorded id = some .unpaid) ∧
    ∀ s', Step settings .contract s s' →
      (s'.db.accounts = s.db.accounts ∧ s'.db.journals = s.db.journals) ∨
        ∃ w t outcome acknowledged, s'.trace = ⟨w, .ran t outcome acknowledged⟩ :: s.trace ∧
          Grounds (history w s.trace) t := by
  have hagrees := ended_agrees h
  have hsound := sound_of_reachable h
  refine ⟨fun id hid => ?_, fun id hid => ?_, fun s' hstep => ?_⟩
  · rcases hid with hstatus | hconsumed
    · exact (hagrees id).1 hstatus
    · exact (hagrees id).1 ((hsound id).ended.1 hconsumed)
  · rcases hid with hstatus | hreleased
    · exact (hagrees id).2 hstatus
    · exact (hagrees id).2 ((hsound id).ended.2 hreleased)
  · have hreach : (system settings .contract Database.Unused).Reachable s' := .step h hstep
    rcases hstep.happens with ⟨-, hdb⟩ | ⟨e, htrace, hhappens⟩
    · rw [hdb]
      exact Or.inl ⟨rfl, rfl⟩
    · generalize s'.db = db at hhappens
      cases hhappens with
      | @commits w call t next pending clock locked reply db acknowledged _ _ hrun =>
        -- only these transactions touch accounts and journals
        by_cases ht : t.MovesFunds
        · refine Or.inr ⟨w, t, .ok reply, acknowledged, htrace, ?_⟩
          cases t with
          | insertReserved new => exact .reserve
          | finalizeAttempt settlementId attemptToken result =>
            rcases ht with rfl | rfl
            · obtain ⟨claim, rfl, htold⟩ := told_of_finalize hreach ⟨[], htrace.symm⟩ rfl
              exact .consume htold
            · obtain ⟨claim, rfl, htold⟩ := told_of_finalize hreach ⟨[], htrace.symm⟩ rfl
              exact .release htold
          | _ => exact absurd ht id
        · exact Or.inl (Transaction.run_ledger_eq hrun ht)
      | starts => exact Or.inl ⟨rfl, rfl⟩
      | calls => exact Or.inl ⟨rfl, rfl⟩
      | rollsBack => exact Or.inl ⟨rfl, rfl⟩
      | answers => exact Or.inl ⟨rfl, rfl⟩

theorem status_agrees_with_provider_paid :
    ∃ s, (system sampleSettings .contract Database.Unused).Reachable s ∧
      s.db.status 7 = some .success ∧ s.recorded 7 = some .paid := by
  obtain ⟨s, h, hdb, -, -⟩ := sample_run sampleStart_unused
  have hstatus : s.db.status 7 = some .success := by
    rw [hdb]
    rfl
  exact ⟨s, h, hstatus, (status_agrees_with_provider h).1 7 (Or.inl hstatus)⟩

end Agreement

end SettlementRouter
