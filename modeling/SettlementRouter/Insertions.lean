import SettlementRouter.CallConduct
import SettlementRouter.IdempotentCreation
import SettlementRouter.StatusOrder

/-! # What `create` inserts

A second reading of `create`, for what its insert asks for (`Requests`) and for
what an exception says of it: either every operation so far was without effect
(`Barren`), or the exception came from one of the transactions that follow the
insert.

Every row of the database was inserted like that by some `create`
(`requested_of_lookup`): from there on only its status has changed.
-/
namespace SettlementRouter

open Program

/-- The row a `create` asks to insert, after the history `h`. -/
structure Requests (settings : Settings) (owner key : String) (request : SettlementCreate)
    (h : CallHistory) (new : NewSettlement) : Prop where
  ownerId : new.ownerId = owner
  idempotencyKey : new.idempotencyKey = key
  fingerprint : new.requestFingerprint = requestFingerprint settings.sha256 owner request
  command : new.command = request
  quote : ⟨.quote request.targetCurrency, .ok new.quote⟩ ∈ h
  quotedAmount : new.quotedAmount =
    settings.context.mul (Decimal.ofColumn 8 request.amountUsd) new.quote.aggregateRate

/-- Only `create` inserts, and what it was asked for. -/
def InsertsRequested (settings : Settings) (call : Call) (h : CallHistory) (op : Operation) :
    Prop :=
  ∀ new, op = .transaction (.insertReserved new) → ∃ ownerId idempotencyKey command,
    call = .create ownerId idempotencyKey command ∧
      Requests settings ownerId idempotencyKey command h new

/-- An operation of `create` that changed nothing. -/
inductive Barren : (op : Operation) × Except ServiceError op.Reply → Prop
  | find {ownerId idempotencyKey r} : Barren ⟨.transaction (.findByKey ownerId idempotencyKey), r⟩
  | quote {targetCurrency r} : Barren ⟨.quote targetCurrency, r⟩
  | uuid4 {r} : Barren ⟨.uuid4, r⟩
  | insert {new error} : error ≠ .databaseError →
      Barren ⟨.transaction (.insertReserved new), .error error⟩

/-- A transaction that follows the insert. -/
inductive Transaction.Late : Transaction → Prop
  | claimReserved {id} : Late (.claimReserved id)
  | get {id} : Late (.get id)
  | finalizeAttempt {id token result} : Late (.finalizeAttempt id token result)

/-- Where an exception of `create` comes from. -/
inductive RaisedBy (h : CallHistory) (error : ServiceError) : Prop
  | barren : (∀ entry ∈ h, Barren entry) → RaisedBy h error
  | late {t : Transaction} : t.Late → ⟨.transaction t, .error error⟩ ∈ h → RaisedBy h error
  | database : error = .databaseError → RaisedBy h error

/-- Every exception comes from somewhere. -/
def Accounted {α : Type} (h : CallHistory) (r : Except ServiceError α) : Prop :=
  ∀ error, r = .error error → RaisedBy h error

section Walks
variable {settings : Settings} {h : CallHistory} {ownerId idempotencyKey fingerprint : String}
  {command : SettlementCreate} {id : UUID} {pre : CallHistory → Operation → Prop}

theorem RaisedBy.head {t : Transaction} {error : ServiceError} (ht : t.Late) :
    RaisedBy (⟨.transaction t, .error error⟩ :: h) error :=
  .late ht List.mem_cons_self

theorem get_accounted
    (hpre : ∀ h op, (∀ new, op ≠ .transaction (.insertReserved new)) → pre h op) :
    (transact (.get id)).Meets pre Accounted h := by
  refine meets_call.mpr ⟨hpre _ _ (fun _ heq => by cases heq), fun r error hr => ?_⟩
  subst hr
  exact .head .get

theorem finish_accounted {token : ℕ} {result : Option ProviderResult}
    (hpre : ∀ h op, (∀ new, op ≠ .transaction (.insertReserved new)) → pre h op) :
    (Program.tryCatch (transact (.finalizeAttempt id token result)) fun
      | .staleAttemptToken => transact (.get id)
      | error => .raise error).Meets pre Accounted h := by
  refine catchStale_meets (meets_call.mpr ⟨hpre _ _ (fun _ heq => by cases heq), fun r => ?_⟩)
  refine ⟨(fun _ _ _ heq => by cases heq), fun _ => get_accounted hpre, ?_⟩
  rintro error rfl _ ⟨⟩
  exact .head .finalizeAttempt

theorem submit_accounted
    (hpre : ∀ h op, (∀ new, op ≠ .transaction (.insertReserved new)) → pre h op) :
    (submit id).Meets pre Accounted h := by
  unfold submit
  refine meets_bind.mpr (meets_call.mpr ⟨hpre _ _ (fun _ heq => by cases heq), fun r => ?_⟩)
  cases r with
  | error error =>
    rintro _ ⟨⟩
    exact .head .claimReserved
  | ok reply =>
    cases reply with
    | none => exact get_accounted hpre
    | some claim =>
      exact meets_bind.mpr (tryInitiate_meets (hpre _ _ (fun _ heq => by cases heq))
        (fun _ => finish_accounted hpre) fun _ => finish_accounted hpre)

theorem replay_accounted {existing : Sigma Settlement}
    (hpre : ∀ h op, (∀ new, op ≠ .transaction (.insertReserved new)) → pre h op)
    (hbarren : ∀ entry ∈ h, Barren entry) :
    (replay existing fingerprint).Meets pre Accounted h := by
  unfold replay
  split
  · exact fun _ _ => .barren hbarren
  · split
    · exact fun _ heq => by cases heq
    · exact submit_accounted hpre

theorem create_requests :
    (create settings ownerId idempotencyKey command).Meets
      (InsertsRequested settings (.create ownerId idempotencyKey command)) Accounted [] := by
  -- only an insert has to be accounted for
  have hpre : ∀ h op, (∀ new, op ≠ .transaction (.insertReserved new)) →
      InsertsRequested settings (.create ownerId idempotencyKey command) h op :=
    fun _ _ hop new heq => absurd heq (hop new)
  unfold create
  refine meets_bind.mpr (meets_call.mpr ⟨hpre _ _ (fun _ heq => by cases heq), fun r => ?_⟩)
  cases r with
  | error error => exact fun _ _ => .barren (by simp [Barren.find])
  | ok reply =>
    cases reply with
    | some existing => exact replay_accounted hpre (by simp [Barren.find])
    | none =>
      refine meets_bind.mpr (meets_call.mpr ⟨hpre _ _ (fun _ heq => by cases heq), fun r => ?_⟩)
      cases r with
      | error error => exact fun _ _ => .barren (by simp [Barren.find, Barren.quote])
      | ok quote =>
        refine meets_bind.mpr (meets_call.mpr ⟨hpre _ _ (fun _ heq => by cases heq), fun r => ?_⟩)
        cases r with
        | error error =>
          exact fun _ _ => .barren (by simp [Barren.find, Barren.quote, Barren.uuid4])
        | ok settlementId =>
          refine meets_bind.mpr (insertOrReload_meets ?_ ?_ ?_ ?_)
          · rintro new ⟨⟩
            exact ⟨_, _, _, rfl, rfl, rfl, rfl, rfl, .tail _ List.mem_cons_self, rfl⟩
          · exact submit_accounted hpre
          · rintro error - _ ⟨⟩
            by_cases hdatabase : error = .databaseError
            · exact .database hdatabase
            · exact .barren (by
                simp [Barren.find, Barren.quote, Barren.uuid4, Barren.insert hdatabase])
          · rintro constraint h' - rfl
            have hlost : ∀ new, Barren ⟨.transaction (.insertReserved new),
                .error (.integrityError constraint)⟩ := fun _ => .insert fun heq => by cases heq
            refine ⟨hpre _ _ (fun _ heq => by cases heq), fun winner => replay_accounted hpre ?_,
              fun _ _ => .barren ?_,
              fun _ _ _ => .barren ?_⟩
            all_goals simp [Barren.find, Barren.quote, Barren.uuid4, hlost]

/-- **Every call inserts what it was asked for.** -/
theorem Call.inserts_requested (settings : Settings) (call : Call) :
    ∃ post, (call.program settings).Meets (InsertsRequested settings call) post [] := by
  by_cases hcreate : ∃ ownerId idempotencyKey command, call = .create ownerId idempotencyKey command
  · obtain ⟨ownerId, idempotencyKey, command, rfl⟩ := hcreate
    refine ⟨fun _ _ => True, meets_map.mpr ?_⟩
    exact create_requests.mono fun _ _ _ => trivial
  · refine ⟨_, (call.conduct settings).weaken fun h op hallows new hop => ?_⟩
    subst hop
    cases hallows with
    | insert => exact absurd ⟨_, _, _, rfl⟩ hcreate

end Walks

/-! ## Where rows come from -/

section Runs
variable {settings : Settings} {law : ProviderLaw} {s s' : State} {id : UUID} {db db' : Database}

/-- A transaction that inserts no settlement leaves no new one. -/
theorem Transaction.run_keeps {t : Transaction} {reply : t.Reply} {clock : ℕ → Time}
    {locked : UUID → Bool} (ht : ∀ new, t ≠ .insertReserved new)
    (h : t.run settings clock locked db = .ok (reply, db')) (hid : (db'.status id).isSome) :
    (db.status id).isSome := by
  have hclaims : ∀ {claims}, Claims claims db db' → (db.status id).isSome := by
    intro claims hclaims
    rcases hclaims.status_eq id with heq | ⟨hreserved, -⟩
    · rwa [← heq]
    · rw [hreserved]
      rfl
  cases t with
  | findByKey ownerId idempotencyKey =>
    cases h
    exact hid
  | insertReserved new => exact absurd rfl (ht new)
  | get settlementId =>
    obtain ⟨rfl, -⟩ := run_get_ok h
    exact hid
  | claimReserved settlementId => exact hclaims (claimReserved_ok h).1
  | claimForReconciliation settlementId respectSchedule =>
    exact hclaims (claimForReconciliation_ok h).1
  | claimDueBatch limit => exact hclaims (claimDueBatch_claims (Except.ok.inj h))
  | finalizeAttempt settlementId token result =>
    obtain ⟨row, -, -, hrow, -, -, -, -, ⟨-, rfl⟩ | ⟨-, hwrite⟩⟩ := finalizeAttempt_ok h
    · exact hid
    · by_cases heq : id = settlementId
      · subst heq
        simp [Database.status, hrow]
      · rwa [Database.status, ← (hwrite.rows_of_ne heq).1]

/-- **Every settlement was inserted.** -/
theorem inserted_of_status (h : (system settings law Database.Unused).Reachable s)
    (hid : (s.db.status id).isSome) : ∃ w new acknowledged,
      ⟨w, .ran (.insertReserved new) (.ok ()) acknowledged⟩ ∈ s.trace ∧ new.id = id := by
  refine h.invariant (I := fun s => (s.db.status id).isSome → ∃ w new acknowledged,
    ⟨w, .ran (.insertReserved new) (.ok ()) acknowledged⟩ ∈ s.trace ∧ new.id = id) ?_ ?_ hid
  · rintro s ⟨hunused, -⟩ hid
    simp [Database.status, hunused.settlements_eq] at hid
  · intro s s' _ ih hstep hid
    have hold : (s.db.status id).isSome → ∃ w new acknowledged,
        ⟨w, .ran (.insertReserved new) (.ok ()) acknowledged⟩ ∈ s'.trace ∧ new.id = id :=
      fun hid => by
        obtain ⟨w, new, acknowledged, hmem, hnew⟩ := ih hid
        exact ⟨w, new, acknowledged, hstep.trace_suffix.subset hmem, hnew⟩
    rcases hstep.happens with ⟨-, hdb⟩ | ⟨e, htrace, hhappens⟩
    · exact hold (hdb ▸ hid)
    · generalize s'.db = db at hhappens hid
      cases hhappens with
      | @commits w call t next pending clock locked reply db acknowledged hworker hblocked hrun =>
        by_cases ht : ∃ new, t = .insertReserved new
        · obtain ⟨new, rfl⟩ := ht
          obtain ⟨row, -, hrows, -⟩ := insertReserved_ok hrun
          by_cases hnew : id = new.id
          · exact ⟨w, new, acknowledged, htrace ▸ List.mem_cons_self, hnew.symm⟩
          · exact hold (by rwa [Database.status, hrows, AList.lookup_insert_ne hnew] at hid)
        · exact hold (Transaction.run_keeps (fun new heq => ht ⟨new, heq⟩) hrun hid)
      | starts | calls | rollsBack | answers => exact hold hid

/-- What a row was inserted with. -/
theorem requested_of_inserted {w : ℕ} {new : NewSettlement}
    {outcome : Except ServiceError Unit} {acknowledged : Bool}
    (h : (system settings law Database.Unused).Reachable s)
    (hran : ⟨w, .ran (.insertReserved new) outcome acknowledged⟩ ∈ s.trace) :
    ∃ ownerId idempotencyKey command,
      ⟨w, .started (.create ownerId idempotencyKey command)⟩ ∈ s.trace ∧
        Requests settings ownerId idempotencyKey command (history w s.trace) new := by
  obtain ⟨earlier, hsuffix, hperforms⟩ :=
    (performs_of_reachable (Call.inserts_requested settings) h).of_mem hran
  obtain ⟨call, hstarted, hrequests⟩ := hperforms _ rfl
  obtain ⟨ownerId, idempotencyKey, command, rfl, hnew⟩ := hrequests new rfl
  have hearlier : earlier <:+ s.trace := (List.suffix_cons _ _).trans hsuffix
  exact ⟨ownerId, idempotencyKey, command, hearlier.subset hstarted, { hnew with
    quote := mem_history_of_suffix hearlier hnew.quote }⟩

/-- **Where a row comes from**: some `create` inserted it with what it was asked
for, and only its status has changed since. -/
theorem requested_of_lookup {row : Settlement id}
    (h : (system settings law Database.Unused).Reachable s)
    (hrow : s.db.settlements.lookup id = some row) :
    ∃ w ownerId idempotencyKey command new acknowledged,
      ⟨w, .ran (.insertReserved new) (.ok ()) acknowledged⟩ ∈ s.trace ∧ new.id = id ∧
        ⟨w, .started (.create ownerId idempotencyKey command)⟩ ∈ s.trace ∧
        Requests settings ownerId idempotencyKey command (history w s.trace) new := by
  have hid : (s.db.status id).isSome := by simp [Database.status, hrow]
  obtain ⟨w, new, acknowledged, hran, hnew⟩ := inserted_of_status h hid
  obtain ⟨ownerId, idempotencyKey, command, hstarted, hrequests⟩ := requested_of_inserted h hran
  exact ⟨w, ownerId, idempotencyKey, command, new, acknowledged, hran, hnew, hstarted, hrequests⟩

end Runs

end SettlementRouter
