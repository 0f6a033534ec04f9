import SettlementRouter.SystemRuns

/-! # What calls do

One reading of the coroutines, for all results about what the workers do: which
operation a call performs after which history (`Allows`), and how `create` ends
(`CreateEnds`).  Each coroutine has one lemma, and `Call.conduct` puts them
together.

Nothing is assumed here of the replies: what they say of the database is for
`Replies` to establish.  In a run every worker conducts itself like this, at every
operation (`allows_of_reachable`) and at its end (`ends_of_reachable`).
-/
namespace SettlementRouter

open Program

/-- What a call has seen, the last operation first. -/
abbrev CallHistory := History Operation Operation.Reply ServiceError

/-- The call of the provider that submits the payout of a claim. -/
def PayoutClaim.initiation (claim : PayoutClaim) : Operation :=
  .initiate claim.settlement.id claim.settlement.amountUsd claim.settlement.targetCurrency
    claim.settlement.quotedAmount

/-- The provider is called. -/
def Operation.External : Operation → Prop
  | initiate _ _ _ _ => True
  | lookup _ => True
  | _ => False

/-- The provider was not called. -/
def Quiet (h : CallHistory) : Prop := ∀ entry ∈ h, ¬ entry.1.External

/-- A `create` has inserted the settlement, or has found it with its own
fingerprint. -/
inductive Matched (ownerId idempotencyKey fingerprint : String) (h : CallHistory) (id : UUID) : Prop
  | inserted {new : NewSettlement} : ⟨.transaction (.insertReserved new), .ok ()⟩ ∈ h →
      new.id = id → new.ownerId = ownerId → new.idempotencyKey = idempotencyKey →
      new.requestFingerprint = fingerprint → Matched ownerId idempotencyKey fingerprint h id
  | found {existing : Sigma Settlement} :
      ⟨.transaction (.findByKey ownerId idempotencyKey), .ok (some existing)⟩ ∈ h →
      existing.1 = id → existing.2.requestFingerprint = fingerprint →
      Matched ownerId idempotencyKey fingerprint h id

/-- The call has this claim, and has not asked the provider about it yet. -/
inductive Claimed : Call → CallHistory → PayoutClaim → Prop
  | task {claim} : Claimed (.reconcileClaim claim) [] claim
  | manual {settlementId claim h} : Quiet h → Claimed (.reconcile settlementId)
      (⟨.transaction (.claimForReconciliation settlementId false), .ok (some claim)⟩ :: h) claim

/-- The provider has answered with this result under the claim. -/
inductive Told (h : CallHistory) (claim : PayoutClaim) : ProviderResult → Prop
  | initiated {result} : ⟨claim.initiation, .ok result⟩ ∈ h → Told h claim result
  | paid : ⟨.lookup claim.settlement.id, .ok .paid⟩ ∈ h → Told h claim .paid
  | unpaid : ⟨.lookup claim.settlement.id, .ok .unpaid⟩ ∈ h → Told h claim .unpaid

/-- The call may perform the operation next, after this history. -/
inductive Allows (settings : Settings) : Call → CallHistory → Operation → Prop
  | find {ownerId idempotencyKey command h} :
      Allows settings (.create ownerId idempotencyKey command) h
        (.transaction (.findByKey ownerId idempotencyKey))
  | quote {ownerId idempotencyKey command h} :
      Allows settings (.create ownerId idempotencyKey command) h (.quote command.targetCurrency)
  | uuid4 {ownerId idempotencyKey command h} :
      Allows settings (.create ownerId idempotencyKey command) h .uuid4
  | insert {ownerId idempotencyKey command h} {new : NewSettlement} :
      new.ownerId = ownerId → new.idempotencyKey = idempotencyKey →
      new.requestFingerprint = requestFingerprint settings.sha256 ownerId command →
      Allows settings (.create ownerId idempotencyKey command) h
        (.transaction (.insertReserved new))
  | claim {ownerId idempotencyKey command h settlementId} :
      Matched ownerId idempotencyKey (requestFingerprint settings.sha256 ownerId command) h
        settlementId →
      Allows settings (.create ownerId idempotencyKey command) h
        (.transaction (.claimReserved settlementId))
  | submit {ownerId idempotencyKey command h h' settlementId claim} :
      Matched ownerId idempotencyKey (requestFingerprint settings.sha256 ownerId command) h
        settlementId →
      h = ⟨.transaction (.claimReserved settlementId), .ok (some claim)⟩ :: h' → Quiet h' →
      Allows settings (.create ownerId idempotencyKey command) h claim.initiation
  | finish {ownerId idempotencyKey command h settlementId claim result} :
      Matched ownerId idempotencyKey (requestFingerprint settings.sha256 ownerId command) h
        settlementId →
      ⟨.transaction (.claimReserved settlementId), .ok (some claim)⟩ ∈ h →
      (∀ final, result = some final → Told h claim final) →
      Allows settings (.create ownerId idempotencyKey command) h
        (.transaction (.finalizeAttempt settlementId claim.attemptToken result))
  | reload {ownerId idempotencyKey command h settlementId} :
      Matched ownerId idempotencyKey (requestFingerprint settings.sha256 ownerId command) h
        settlementId →
      Allows settings (.create ownerId idempotencyKey command) h (.transaction (.get settlementId))
  | get {settlementId h} : Allows settings (.get settlementId) h (.transaction (.get settlementId))
  | read {settlementId h} :
      Allows settings (.reconcile settlementId) h (.transaction (.get settlementId))
  | claimManually {settlementId h} : Allows settings (.reconcile settlementId) h
      (.transaction (.claimForReconciliation settlementId false))
  | claimBatch {limit h} : Allows settings (.runReconciliationOnce limit) h
      (.transaction (.claimDueBatch limit))
  | gather {limit h claims} : ⟨.transaction (.claimDueBatch limit), .ok claims⟩ ∈ h →
      Allows settings (.runReconciliationOnce limit) h (.gather claims)
  | lookup {call h claim} : Claimed call h claim →
      Allows settings call h (.lookup claim.settlement.id)
  | resubmit {call h h' claim} : Claimed call h' claim →
      h = ⟨.lookup claim.settlement.id, .ok .notFound⟩ :: h' →
      Allows settings call h claim.initiation
  | apply {call h h' claim result} : Claimed call h' claim → h' <:+ h →
      (∀ final, result = some final → Told h claim final) →
      Allows settings call h
        (.transaction (.finalizeAttempt claim.settlement.id claim.attemptToken result))
  | reread {call h h' claim} : Claimed call h' claim → h' <:+ h →
      Allows settings call h (.transaction (.get claim.settlement.id))

/-- The view of the settlement came in one of these replies. -/
inductive Shown (ownerId idempotencyKey : String) (h : CallHistory) (id : UUID) :
    SettlementRead → Prop
  | found {existing : Sigma Settlement} :
      ⟨.transaction (.findByKey ownerId idempotencyKey), .ok (some existing)⟩ ∈ h →
      existing.1 = id → Shown ownerId idempotencyKey h id (.fromOrmSettlement existing.2)
  | got {read} : ⟨.transaction (.get id), .ok read⟩ ∈ h → Shown ownerId idempotencyKey h id read
  | finalized {attemptToken result read} :
      ⟨.transaction (.finalizeAttempt id attemptToken result), .ok read⟩ ∈ h →
      Shown ownerId idempotencyKey h id read

/-- The ways in which `create` ends. -/
inductive CreateEnds (ownerId idempotencyKey fingerprint : String) (h : CallHistory) :
    Except ServiceError SettlementRead → Prop
  | returned {id read} : Matched ownerId idempotencyKey fingerprint h id →
      Shown ownerId idempotencyKey h id read →
      CreateEnds ownerId idempotencyKey fingerprint h (.ok read)
  | failed {id error} : Matched ownerId idempotencyKey fingerprint h id →
      CreateEnds ownerId idempotencyKey fingerprint h (.error error)
  | conflict {existing : Sigma Settlement} :
      ⟨.transaction (.findByKey ownerId idempotencyKey), .ok (some existing)⟩ ∈ h →
      existing.2.requestFingerprint ≠ fingerprint →
      CreateEnds ownerId idempotencyKey fingerprint h (.error .idempotencyConflict)
  | unread {h' error} :
      h = ⟨.transaction (.findByKey ownerId idempotencyKey), .error error⟩ :: h' →
      CreateEnds ownerId idempotencyKey fingerprint h (.error error)
  /-- The key was free, and the insert failed for another reason, if it was tried. -/
  | notInserted {error} :
      ⟨.transaction (.findByKey ownerId idempotencyKey), .ok none⟩ ∈ h →
      (∀ new constraint,
        ⟨.transaction (.insertReserved new), .error (.integrityError constraint)⟩ ∈ h →
        ¬ isIdempotencyViolation constraint) →
      CreateEnds ownerId idempotencyKey fingerprint h (.error error)
  /-- The insert lost, but the winner is not there. -/
  | vanished {h' new constraint} :
      h = ⟨.transaction (.findByKey ownerId idempotencyKey), .ok none⟩ :: h' →
      ⟨.transaction (.insertReserved new), .error (.integrityError constraint)⟩ ∈ h' →
      isIdempotencyViolation constraint → new.ownerId = ownerId →
      new.idempotencyKey = idempotencyKey →
      CreateEnds ownerId idempotencyKey fingerprint h (.error .assertionError)

section Walks
variable {settings : Settings} {call : Call} {h h' : CallHistory} {claim : PayoutClaim}
  {ownerId idempotencyKey fingerprint : String} {id : UUID}
  {entry : (op : Operation) × Except ServiceError op.Reply}

theorem Matched.cons (hmatched : Matched ownerId idempotencyKey fingerprint h id) :
    Matched ownerId idempotencyKey fingerprint (entry :: h) id := by
  cases hmatched with
  | inserted hmem hid howner hkey hfp => exact .inserted (.tail _ hmem) hid howner hkey hfp
  | found hmem hid hfp => exact .found (.tail _ hmem) hid hfp

/-- `provider.initiate`, with no result for an exception. -/
theorem tryInitiate_meets {pre : CallHistory → Operation → Prop}
    {post : CallHistory → Except ServiceError (Option ProviderResult) → Prop}
    (hpre : pre h claim.initiation)
    (hok : ∀ result, post (⟨claim.initiation, .ok result⟩ :: h) (.ok (some result)))
    (herror : ∀ error, post (⟨claim.initiation, .error error⟩ :: h) (.ok none)) :
    (tryInitiate claim).Meets pre post h := by
  unfold tryInitiate
  rw [meets_tryCatch, meets_map]
  refine meets_call.mpr ⟨hpre, fun r => ?_⟩
  cases r with
  | ok result => exact hok result
  | error error => exact herror error

/-- The handlers that take `StaleAttemptToken` for an answer. -/
theorem catchStale_meets {α : Type} {p q : Service α} {pre : CallHistory → Operation → Prop}
    {post : CallHistory → Except ServiceError α → Prop}
    (hp : p.Meets pre (fun h r => (∀ a, r = .ok a → post h (.ok a)) ∧
      (r = .error .staleAttemptToken → q.Meets pre post h) ∧
      ∀ error, r = .error error → post h (.error error)) h) :
    (p.tryCatch fun
      | .staleAttemptToken => q
      | error => .raise error).Meets pre post h := by
  refine meets_tryCatch.mpr (hp.mono fun h r ⟨hok, hstale, herror⟩ => ?_)
  cases r with
  | ok a => exact hok a rfl
  | error error =>
    dsimp only
    split
    · exact hstale rfl
    · exact herror error rfl

section Create
variable {command : SettlementCreate}

/-- The end of `create`, once a claim has been submitted. -/
theorem finish_meets {result : Option ProviderResult}
    (hfp : fingerprint = requestFingerprint settings.sha256 ownerId command)
    (hmatched : Matched ownerId idempotencyKey fingerprint h id)
    (hclaim : ⟨.transaction (.claimReserved id), .ok (some claim)⟩ ∈ h)
    (htold : ∀ final, result = some final → Told h claim final) :
    (Program.tryCatch (transact (.finalizeAttempt id claim.attemptToken result)) fun
      | .staleAttemptToken => transact (.get id)
      | error => .raise error).Meets (Allows settings (.create ownerId idempotencyKey command))
      (CreateEnds ownerId idempotencyKey fingerprint) h := by
  subst hfp
  refine catchStale_meets (meets_call.mpr ⟨.finish hmatched hclaim htold, fun r => ?_⟩)
  refine ⟨?_, fun _ => meets_call.mpr ⟨.reload hmatched.cons, fun r => ?_⟩, ?_⟩
  · rintro read rfl
    exact .returned hmatched.cons (.finalized List.mem_cons_self)
  · cases r with
    | ok read => exact .returned hmatched.cons.cons (.got List.mem_cons_self)
    | error error => exact .failed hmatched.cons.cons
  · rintro error rfl
    exact .failed hmatched.cons

theorem submit_meets (hfp : fingerprint = requestFingerprint settings.sha256 ownerId command)
    (hmatched : Matched ownerId idempotencyKey fingerprint h id) (hquiet : Quiet h) :
    (submit id).Meets (Allows settings (.create ownerId idempotencyKey command))
      (CreateEnds ownerId idempotencyKey fingerprint) h := by
  unfold submit
  rw [meets_bind]
  refine meets_call.mpr ⟨.claim (hfp ▸ hmatched), fun r => ?_⟩
  cases r with
  | error error => exact .failed hmatched.cons
  | ok reply =>
    cases reply with
    | none =>
      refine meets_call.mpr ⟨.reload (hfp ▸ hmatched.cons), fun r => ?_⟩
      cases r with
      | ok read => exact .returned hmatched.cons.cons (.got List.mem_cons_self)
      | error error => exact .failed hmatched.cons.cons
    | some claim =>
      refine meets_bind.mpr (tryInitiate_meets (.submit (hfp ▸ hmatched.cons) rfl hquiet)
        (fun result => ?_) fun error => ?_)
      · refine finish_meets hfp hmatched.cons.cons (.tail _ List.mem_cons_self) ?_
        rintro final ⟨⟩
        exact .initiated List.mem_cons_self
      · exact finish_meets hfp hmatched.cons.cons (.tail _ List.mem_cons_self) nofun

theorem replay_meets {existing : Sigma Settlement}
    (hfp : fingerprint = requestFingerprint settings.sha256 ownerId command)
    (hfound : ⟨.transaction (.findByKey ownerId idempotencyKey), .ok (some existing)⟩ ∈ h)
    (hquiet : Quiet h) :
    (replay existing fingerprint).Meets (Allows settings (.create ownerId idempotencyKey command))
      (CreateEnds ownerId idempotencyKey fingerprint) h := by
  unfold replay
  by_cases hsame : existing.2.requestFingerprint = fingerprint
  · have hmatched := Matched.found hfound rfl hsame
    rw [if_neg (not_not.mpr hsame)]
    split
    · exact .returned hmatched (.found hfound rfl)
    · exact submit_meets hfp hmatched hquiet
  · rw [if_pos hsame]
    exact .conflict hfound hsame

/-- The inserting transaction, and the reload of the winner if it lost. -/
theorem insertOrReload_meets {new : NewSettlement} {pre : CallHistory → Operation → Prop}
    {post : CallHistory → Except ServiceError (Option (Sigma Settlement)) → Prop}
    (hinsert : pre h (.transaction (.insertReserved new)))
    (hinserted : post (⟨.transaction (.insertReserved new), .ok ()⟩ :: h) (.ok none))
    (hfailed : ∀ error, (∀ constraint, error = .integrityError constraint →
        ¬ isIdempotencyViolation constraint) →
      post (⟨.transaction (.insertReserved new), .error error⟩ :: h) (.error error))
    (hlost : ∀ constraint h', isIdempotencyViolation constraint →
      h' = ⟨.transaction (.insertReserved new), .error (.integrityError constraint)⟩ :: h →
      pre h' (.transaction (.findByKey new.ownerId new.idempotencyKey)) ∧
      (∀ winner, post (⟨.transaction (.findByKey new.ownerId new.idempotencyKey),
        .ok (some winner)⟩ :: h') (.ok (some winner))) ∧
      post (⟨.transaction (.findByKey new.ownerId new.idempotencyKey), .ok none⟩ :: h')
        (.error .assertionError) ∧
      ∀ error, post (⟨.transaction (.findByKey new.ownerId new.idempotencyKey),
        .error error⟩ :: h') (.error error)) :
    (insertOrReload new).Meets pre post h := by
  unfold insertOrReload
  rw [meets_tryCatch, meets_bind]
  refine meets_call.mpr ⟨hinsert, fun r => ?_⟩
  cases r with
  | ok reply => exact hinserted
  | error error =>
    dsimp only
    split
    · rename_i constraint
      by_cases hviolation : isIdempotencyViolation constraint
      · -- another insert took the key first, and its row is reloaded
        rw [if_neg (not_not.mpr hviolation), meets_bind]
        obtain ⟨hreload, hwinner, hnone, herror⟩ := hlost constraint _ hviolation rfl
        refine meets_call.mpr ⟨hreload, fun r => ?_⟩
        cases r with
        | error error => exact herror error
        | ok reply =>
          cases reply with
          | none => exact hnone
          | some winner => exact hwinner winner
      · rw [if_pos hviolation]
        refine hfailed _ ?_
        rintro _ ⟨⟩
        exact hviolation
    · rename_i hother
      exact hfailed error fun constraint heq => absurd heq (hother constraint)

theorem create_meets (hfp : fingerprint = requestFingerprint settings.sha256 ownerId command) :
    (create settings ownerId idempotencyKey command).Meets
      (Allows settings (.create ownerId idempotencyKey command))
      (CreateEnds ownerId idempotencyKey fingerprint) [] := by
  unfold create
  rw [← hfp, meets_bind]
  refine meets_call.mpr ⟨.find, fun r => ?_⟩
  cases r with
  | error error => exact .unread rfl
  | ok reply =>
    cases reply with
    | some existing =>
      exact replay_meets hfp List.mem_cons_self (by simp [Quiet, Operation.External])
    | none =>
      refine meets_bind.mpr (meets_call.mpr ⟨.quote, fun r => ?_⟩)
      cases r with
      | error error => exact .notInserted (.tail _ List.mem_cons_self) (by simp)
      | ok quote =>
        refine meets_bind.mpr (meets_call.mpr ⟨.uuid4, fun r => ?_⟩)
        cases r with
        | error error => exact .notInserted (.tail _ (.tail _ List.mem_cons_self)) (by simp)
        | ok settlementId =>
          refine meets_bind.mpr (insertOrReload_meets (.insert rfl rfl hfp) ?_ ?_ ?_)
          · exact submit_meets hfp (.inserted List.mem_cons_self rfl rfl rfl rfl)
              (by simp [Quiet, Operation.External])
          · intro error hother
            refine .notInserted (.tail _ (.tail _ (.tail _ List.mem_cons_self))) ?_
            intro new constraint hmem
            have hlast : .integrityError constraint = error := by
              simp at hmem
              exact hmem.2
            exact hother constraint hlast.symm
          · rintro constraint h' hviolation rfl
            refine ⟨.find, fun winner => ?_, ?_, fun error => ?_⟩
            · exact replay_meets hfp List.mem_cons_self (by simp [Quiet, Operation.External])
            · exact .vanished rfl List.mem_cons_self hviolation rfl rfl
            · exact .unread rfl

end Create

/-! ## Reconciling -/

/-- What the result of a lookup is based on. -/
theorem resolve_meets {lookup : ProviderLookup} (hclaim : Claimed call h claim) :
    (resolve claim lookup).Meets (Allows settings call)
      (fun h' r => h <:+ h' ∧ ∀ final, r = .ok (some final) → Told h' claim final)
      (⟨.lookup claim.settlement.id, .ok lookup⟩ :: h) := by
  have hsuffix : ∀ {entry}, h <:+ entry :: ⟨.lookup claim.settlement.id, .ok lookup⟩ :: h :=
    fun {_} => (List.suffix_cons _ _).trans (List.suffix_cons _ _)
  cases lookup with
  | paid =>
    refine ⟨List.suffix_cons _ _, ?_⟩
    rintro final ⟨⟩
    exact .paid List.mem_cons_self
  | unpaid =>
    refine ⟨List.suffix_cons _ _, ?_⟩
    rintro final ⟨⟩
    exact .unpaid List.mem_cons_self
  | notFound =>
    refine tryInitiate_meets (.resubmit hclaim rfl) (fun result => ⟨hsuffix, ?_⟩)
      fun error => ⟨hsuffix, nofun⟩
    rintro final ⟨⟩
    exact .initiated List.mem_cons_self
  | unknown => exact ⟨List.suffix_cons _ _, nofun⟩
  | processing => exact ⟨List.suffix_cons _ _, nofun⟩
  | unavailable => exact ⟨List.suffix_cons _ _, nofun⟩

/-- Finalizing under the claim, with what the provider has told. -/
theorem finalize_meets (result : Option ProviderResult) (hclaim : Claimed call h claim)
    (hsuffix : h <:+ h') (htold : ∀ final, result = some final → Told h' claim final) :
    (transact (.finalizeAttempt claim.settlement.id claim.attemptToken result)).Meets
      (Allows settings call) (fun h' _ => h <:+ h') h' :=
  meets_call.mpr ⟨.apply hclaim hsuffix htold, fun _ => hsuffix.trans (List.suffix_cons _ _)⟩

theorem reconcileClaim_meets {propagateErrors : Bool} (hclaim : Claimed call h claim) :
    (reconcileClaim claim propagateErrors).Meets (Allows settings call) (fun _ _ => True) h := by
  have hreread : ∀ h', h <:+ h' → (transact (.get claim.settlement.id)).Meets
      (Allows settings call) (fun _ _ => True) h' := fun h' hsuffix =>
    meets_call.mpr ⟨.reread hclaim hsuffix, fun _ => trivial⟩
  have htry : Program.Meets (Allows settings call) (fun h' _ => h <:+ h') (do
      let lookup ← await (.lookup claim.settlement.id)
      let result ← resolve claim lookup
      transact (.finalizeAttempt claim.settlement.id claim.attemptToken result)) h := by
    refine meets_bind.mpr (meets_call.mpr ⟨.lookup hclaim, fun r => ?_⟩)
    cases r with
    | error error => exact List.suffix_cons _ _
    | ok lookup =>
      refine meets_bind.mpr ((resolve_meets hclaim).mono fun h' r hr => ?_)
      cases r with
      | error error => exact hr.1
      | ok result =>
        exact finalize_meets result hclaim hr.1 fun final heq => hr.2 final (by rw [heq])
  unfold reconcileClaim
  refine meets_tryCatch.mpr (htry.mono fun h' r hsuffix => ?_)
  cases r with
  | ok read => trivial
  | error error =>
    dsimp only
    split
    · exact hreread h' hsuffix
    · have hafter : ∀ h'', h <:+ h'' → Program.Meets (Allows settings call) (fun _ _ => True)
          (if propagateErrors then .raise error else transact (.get claim.settlement.id)) h'' := by
        intro h'' hsuffix
        split
        · trivial
        · exact hreread h'' hsuffix
      -- the error path finalizes without a result, under the same claim
      refine meets_bind.mpr (catchStale_meets (meets_bind.mpr ?_))
      refine (finalize_meets none hclaim hsuffix nofun).mono fun h'' r hsuffix => ?_
      cases r with
      | ok read => exact ⟨fun _ _ => hafter h'' hsuffix, nofun, nofun⟩
      | error error' => exact ⟨nofun, fun _ => hafter h'' hsuffix, fun _ _ => trivial⟩

theorem reconcile_meets :
    (reconcile id).Meets (Allows settings (.reconcile id)) (fun _ _ => True) [] := by
  unfold reconcile
  refine meets_bind.mpr (meets_call.mpr ⟨.read, fun r => ?_⟩)
  cases r with
  | error error => trivial
  | ok current =>
    dsimp only
    split
    · trivial
    · refine meets_bind.mpr (meets_call.mpr ⟨.claimManually, fun r => ?_⟩)
      cases r with
      | error error => trivial
      | ok reply =>
        cases reply with
        | none => exact meets_call.mpr ⟨.read, fun _ => trivial⟩
        | some claim => exact reconcileClaim_meets (.manual (by simp [Quiet, Operation.External]))

theorem runReconciliationOnce_meets {limit : ℕ} :
    (runReconciliationOnce limit).Meets (Allows settings (.runReconciliationOnce limit))
      (fun _ _ => True) [] := by
  unfold runReconciliationOnce
  refine meets_bind.mpr (meets_call.mpr ⟨.claimBatch, fun r => ?_⟩)
  cases r with
  | error error => trivial
  | ok claims =>
    refine meets_bind.mpr (meets_call.mpr ⟨.gather List.mem_cons_self, fun r => ?_⟩)
    cases r <;> trivial

/-- How a call ends, as far as it matters: only `create` is followed to its end. -/
def Call.Ends (settings : Settings) : Call → CallHistory → Except ServiceError Response → Prop
  | .create ownerId idempotencyKey command, h, r => ∃ r', r = r'.map .settlement ∧
      CreateEnds ownerId idempotencyKey (requestFingerprint settings.sha256 ownerId command) h r'
  | _, _, _ => True

/-- **The conduct of a call.** -/
theorem Call.conduct (settings : Settings) (call : Call) :
    (call.program settings).Meets (Allows settings call) (call.Ends settings) [] := by
  cases call with
  | create ownerId idempotencyKey command =>
    exact meets_map.mpr ((create_meets rfl).mono fun h r hends => ⟨r, rfl, hends⟩)
  | get settlementId => exact meets_map.mpr (meets_call.mpr ⟨.get, fun _ => trivial⟩)
  | reconcile settlementId => exact meets_map.mpr reconcile_meets
  | runReconciliationOnce limit => exact meets_map.mpr runReconciliationOnce_meets
  | reconcileClaim claim => exact meets_map.mpr (reconcileClaim_meets .task)

end Walks

section Runs
variable {settings : Settings} {law : ProviderLaw} {start : Database → Prop} {s : State} {w : ℕ}

/-- Whatever a worker performs in a run, its call allows after its own history. -/
theorem allows_of_reachable (h : (system settings law start).Reachable s) :
    Trace.Throughout (fun e earlier => ∀ op, e.action.operation = some op →
      ∃ call, ⟨e.worker, .started call⟩ ∈ earlier ∧
        Allows settings call (history e.worker earlier) op) s.trace :=
  performs_of_reachable (fun call => ⟨_, call.conduct settings⟩) h

theorem ends_of_reachable {call : Call} {program : Service Response} {pending : Bool}
    {r : Except ServiceError Response} (h : (system settings law start).Reachable s)
    (hworker : s.workers w = .running call program pending) (hend : program.result = some r) :
    call.Ends settings (history w s.trace) r := by
  have hmeets := ((tracked_of_reachable h).path w call program pending hworker).meets
    (call.conduct settings)
  cases program with
  | ret response =>
    cases hend
    exact hmeets
  | raise error =>
    cases hend
    exact hmeets
  | perform op next => cases hend

end Runs

end SettlementRouter
