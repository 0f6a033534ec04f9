import SettlementRouter.StatusOrder

/-! # The HTTP API

What `app/main.py` makes of the service: the requests about settlements, and the
status code of a response.  A POST answers 202 where the service returns a settlement
in flight, and 200 otherwise.

That is to tell a terminal settlement from a pending one, and does, but for one
status: `reconcile` returns a settlement it finds reserved, as it returns a terminal one,
and the answer is 200.  `create` never returns a reserved settlement, whatever the
other workers do.  So the status codes are right in every run in which no
reconciliation comes upon a reserved settlement, and one is wrong as soon as one does
(`responses_tell_terminal`).
-/
namespace SettlementRouter

/-! ## Requests and responses -/

/-- A request about settlements, once it has passed validation. -/
inductive Request where
  | createSettlement (ownerId idempotencyKey : String) (command : SettlementCreate)
  | getSettlement (settlementId : UUID)
  | reconcileSettlement (settlementId : UUID)

/-- What a response carries. -/
inductive Body where
  | settlement (read : SettlementRead)
  | detail (message : String)
  | text (message : String)

/-- What the client gets. -/
structure HttpResponse where
  statusCode : ℕ
  body : Body

namespace Request

/-- What it awaits of the service. -/
def call : Request → Call
  | createSettlement ownerId idempotencyKey command => .create ownerId idempotencyKey command
  | getSettlement settlementId => .get settlementId
  | reconcileSettlement settlementId => .reconcile settlementId

/-- The request is a POST. -/
def IsPost : Request → Prop
  | createSettlement _ _ _ => True
  | getSettlement _ => False
  | reconcileSettlement _ => True

/-- The response with the settlement the service has returned. -/
def respond : Request → SettlementRead → HttpResponse
  | createSettlement _ _ _, result =>
    ⟨if result.status.InFlight then 202 else 200, .settlement result⟩
  | getSettlement _, result => ⟨200, .settlement result⟩
  | reconcileSettlement _, result =>
    ⟨if result.status.InFlight then 202 else 200, .settlement result⟩

end Request

/-- The exception handlers of the application. -/
def exceptionHandler : ServiceError → HttpResponse
  | .idempotencyConflict =>
    ⟨409, .detail "idempotency key conflicts with existing settlement"⟩
  | .insufficientFunds => ⟨409, .detail "insufficient funds"⟩
  | .settlementNotFound => ⟨404, .detail "settlement not found"⟩
  | .routeNotFound => ⟨422, .detail "no route available"⟩
  -- no handler, so the answer is the server's own
  | _ => ⟨500, .text "Internal Server Error"⟩

/-- The worker's call is that of the request, and has ended with this response. -/
inductive State.Responds (s : State) (w : ℕ) (request : Request) : HttpResponse → Prop
  | returned {read pending} :
    s.workers w = .running request.call (.ret (.settlement read)) pending →
    Responds s w request (request.respond read)
  | raised {error pending} : s.workers w = .running request.call (.raise error) pending →
    Responds s w request (exceptionHandler error)

/-- Where there is a settlement, 200 means terminal and 202 that it is not. -/
def HttpResponse.Tells (response : HttpResponse) : Prop :=
  ∀ read, response.body = .settlement read →
    (response.statusCode = 200 ↔ read.status.Terminal) ∧
      (¬ read.status.Terminal → response.statusCode = 202)

/-- In this step `reconcile` reads its settlement, which is reserved. -/
def FindsReserved (s s' : State) : Prop :=
  ∃ w id read, ⟨w, .started (.reconcile id)⟩ ∈ s.trace ∧
    s'.trace = ⟨w, .ran (.get id) (.ok read) true⟩ :: s.trace ∧ s.db.status id = some .reserved

section Responses
variable {request : Request} {read : SettlementRead}

theorem exceptionHandler_tells (error : ServiceError) : (exceptionHandler error).Tells := by
  intro read hbody
  cases error <;> cases hbody

/-- Only a reserved settlement is taken for a terminal one. -/
theorem Request.respond_tells (hpost : request.IsPost) :
    (request.respond read).Tells ↔ read.status ≠ .reserved := by
  have hrespond : request.respond read =
      ⟨if read.status.InFlight then 202 else 200, .settlement read⟩ := by
    cases request with
    | getSettlement settlementId => exact hpost.elim
    | createSettlement ownerId idempotencyKey command => rfl
    | reconcileSettlement settlementId => rfl
  rw [hrespond]
  constructor
  · intro htells hreserved
    have hcode := (htells read rfl).2 (by rw [hreserved]; decide)
    rw [hreserved] at hcode
    cases hcode
  · rintro hstatus read ⟨⟩
    dsimp only
    cases hcase : read.status with
    | reserved => exact absurd hcase hstatus
    | _ => decide

end Responses

/-! ## Past the reservation -/

/-- The settlement is there, and no longer reserved. -/
def Database.Past (db : Database) (id : UUID) : Prop :=
  ∃ status, db.status id = some status ∧ status ≠ .reserved

/-- The action is possible only where the settlement is not reserved afterwards. -/
inductive Action.Passes : Action → UUID → Prop
  | claimed {id reply acknowledged} : Passes (.ran (.claimReserved id) (.ok reply) acknowledged) id
  | reclaimed {id respectSchedule claim acknowledged} :
    Passes (.ran (.claimForReconciliation id respectSchedule) (.ok (some claim)) acknowledged) id
  | finalized {id token result read acknowledged} :
    Passes (.ran (.finalizeAttempt id token result) (.ok read) acknowledged) id

section Past
variable {settings : Settings} {law : ProviderLaw} {clock : ℕ → Time} {db db' : Database}
  {s s' : State} {id : UUID}

theorem SettlementStatus.InFlight.ne_reserved {status : SettlementStatus} (h : status.InFlight) :
    status ≠ .reserved := by
  rintro rfl
  exact absurd h (by decide)

/-- No arrow leads back. -/
theorem Commits.past (h : Commits db db') (hsound : (db.lifecycle id).Sound) (hpast : db.Past id) :
    db'.Past id := by
  obtain ⟨status, hstatus, hne⟩ := hpast
  obtain ⟨status', hstatus', rfl | harrow⟩ := h.arrow hsound hstatus
  · exact ⟨status', hstatus', hne⟩
  · refine ⟨status', hstatus', ?_⟩
    rintro rfl
    cases harrow

theorem Claims.past {claims : List PayoutClaim} (h : Claims claims db db') :
    ∀ claim ∈ claims, db'.Past claim.settlement.id := by
  induction h with
  | nil => exact fun _ hmem => absurd hmem List.not_mem_nil
  | @cons _ id _ _ db₁ _ row hwrite hrow hclaims ih =>
    intro claim hmem
    rcases List.mem_cons.mp hmem with rfl | hmem
    · obtain ⟨status, hstatus, hinFlight⟩ := hwrite.claim_inFlight
      rcases hclaims.status_eq id with hkept | ⟨hreserved, -⟩
      · exact ⟨status, hkept.trans hstatus, hinFlight.ne_reserved⟩
      · obtain rfl := Option.some.inj (hstatus.symm.trans hreserved)
        exact absurd rfl hinFlight.ne_reserved
    · exact ih claim hmem

/-- `_claim_reserved` leaves no settlement reserved, with or without a claim. -/
theorem claimReserved_past {reply : Option PayoutClaim}
    (h : claimReserved settings clock id db = .ok (reply, db')) : db'.Past id := by
  obtain ⟨hclaims, hreply⟩ := claimReserved_ok h
  cases reply with
  | some claim =>
    obtain ⟨-, -, hstatus⟩ := hreply claim rfl
    exact ⟨_, hstatus, by decide⟩
  | none =>
    unfold claimReserved at h
    split at h
    · cases h
    · rename_i row hrow
      by_cases hstatus : row.status = .reserved
      · rw [if_neg (not_not.mpr hstatus)] at h
        simp only [bind, Except.bind] at h
        split at h
        · cases h
        · cases h
      · rw [if_pos hstatus] at h
        cases h
        exact ⟨row.status, status_of_lookup hrow, hstatus⟩

/-- An outcome is applied only where there is an attempt. -/
theorem finalizeAttempt_past {token : ℕ} {result : Option ProviderResult} {read : SettlementRead}
    (h : finalizeAttempt clock id token result db = .ok (read, db'))
    (hsound : (db.lifecycle id).Sound) : db'.Past id := by
  obtain ⟨row, attempt, -, hrow, hattempt, -, -, -, hcase⟩ := finalizeAttempt_ok h
  have hcommits : Commits db db' := by
    rcases hcase with ⟨-, hsame⟩ | ⟨-, hwrite⟩
    · exact .nothing hsame
    · exact .write hwrite
  refine hcommits.past hsound ⟨row.status, status_of_lookup hrow, fun hreserved => ?_⟩
  have hstatus : (db.lifecycle id).status = some .reserved :=
    hreserved ▸ status_of_lookup hrow
  unfold Lifecycle.Sound at hsound
  rw [hstatus] at hsound
  have hnone : (db.attempts.lookup id).map _ = none := hsound.1
  rw [hattempt] at hnone
  cases hnone

/-- **What passes a settlement leaves it past its reservation.** -/
theorem Happens.past {e : Event} (h : Happens settings law s e db)
    (hsound : (s.db.lifecycle id).Sound) (hpasses : e.action.Passes id) : db.Past id := by
  cases h with
  | commits acknowledged hworker hblocked hrun =>
    cases hpasses with
    | claimed => exact claimReserved_past hrun
    | reclaimed =>
      obtain ⟨hclaims, hid⟩ := claimForReconciliation_ok hrun
      rw [← hid _ rfl]
      exact hclaims.past _ List.mem_cons_self
    | finalized => exact finalizeAttempt_past hrun hsound
  | _ => cases hpasses

theorem past_of_reachable (h : (system settings law Database.Unused).Reachable s) {e : Event}
    (he : e ∈ s.trace) (hpasses : e.action.Passes id) : s.db.Past id := by
  refine event_of_reachable (Q := fun e s => e.action.Passes id → s.db.Past id)
    (fun s s' e hreach _ _ hhappens hpasses => ?_) (fun s s' e hreach hstep hs hpasses => ?_)
    h e he hpasses
  · exact hhappens.past (sound_of_reachable hreach id) hpasses
  · exact hstep.commits.past (sound_of_reachable hreach id) (hs hpasses)

/-- **No reserved settlement is shown** once it was passed, or by what passes it. -/
theorem shown_past (h : (system settings law Database.Unused).Reachable s) :
    Trace.Throughout (fun e earlier => ∀ read, e.Shows read →
      (e.action.Passes read.id ∨ ∃ e' ∈ earlier, e'.action.Passes read.id) →
      read.status ≠ .reserved) s.trace := by
  refine throughout_of_reachable (fun s e db hreach _ hhappens read hshows hpasses => ?_) h
  have hpast : db.Past read.id := by
    rcases hpasses with hpasses | ⟨e', he', hpasses⟩
    · exact hhappens.past (sound_of_reachable hreach read.id) hpasses
    · exact hhappens.run_commits.past (sound_of_reachable hreach read.id)
        (past_of_reachable hreach he' hpasses)
  obtain ⟨status, hstatus, hne⟩ := hpast
  rw [hhappens.shows hshows] at hstatus
  obtain rfl := Option.some.inj hstatus
  exact hne

end Past

/-! ## What create and reconcile return -/

open Program

/-- How `create` comes to return a settlement. -/
inductive Unreserved (h : CallHistory) (read : SettlementRead) : Prop
  | replayed : read.status ≠ .reserved → Unreserved h read
  | reread {id reply h'} : h = ⟨.transaction (.get id), .ok read⟩ :: h' →
    ⟨.transaction (.claimReserved id), .ok reply⟩ ∈ h' → Unreserved h read
  | finalized {id token result} :
    ⟨.transaction (.finalizeAttempt id token result), .ok read⟩ ∈ h → Unreserved h read

/-- Of a settlement that was read in flight, or not at all. -/
def Underway (id : UUID) (h : CallHistory) : Prop :=
  ∀ read, ⟨.transaction (.get id), .ok read⟩ ∈ h → read.status.InFlight

/-- Unless it is in flight, the settlement that was read is returned. -/
def ReturnsUnlessUnderway (id : UUID) (h : CallHistory) (r : Except ServiceError SettlementRead) :
    Prop :=
  ∀ read, ⟨.transaction (.get id), .ok read⟩ ∈ h → read.status.InFlight ∨ r = .ok read

section Calls
variable {settings : Settings} {h : CallHistory} {id id' : UUID}

/-- A settlement that is read after a try to claim it, or finalized. -/
theorem submit_unreserved : (submit id).Meets (fun _ _ => True)
    (fun h r => ∀ read, r = .ok read → Unreserved h read) h := by
  have hreread : ∀ h' reply, ⟨.transaction (.claimReserved id), .ok reply⟩ ∈ h' →
      (transact (.get id)).Meets (fun _ _ => True)
        (fun h r => ∀ read, r = .ok read → Unreserved h read) h' := by
    intro h' reply hclaim
    refine transact_seen fun r read hr => ?_
    rw [hr]
    exact .reread rfl hclaim
  unfold submit
  refine meets_bind.mpr (transact_seen fun r => ?_)
  cases r with
  | error error => exact fun _ heq => by cases heq
  | ok reply =>
    cases reply with
    | none => exact hreread _ _ List.mem_cons_self
    | some claim =>
      have htry : (tryInitiate claim).Meets (fun _ _ => True)
          (fun h' _ => ⟨.transaction (.claimReserved id), .ok (some claim)⟩ ∈ h')
          (⟨.transaction (.claimReserved id), .ok (some claim)⟩ :: h) :=
        tryInitiate_meets trivial (fun _ => .tail _ List.mem_cons_self)
          fun _ => .tail _ List.mem_cons_self
      refine meets_bind.mpr (htry.mono fun h' r hclaim => ?_)
      cases r with
      | error error => exact fun _ heq => by cases heq
      | ok result =>
        refine catchStale_meets (transact_seen fun r => ⟨?_, fun _ => ?_, ?_⟩)
        · rintro read rfl read' ⟨⟩
          exact .finalized List.mem_cons_self
        · exact hreread _ _ (.tail _ hclaim)
        · exact fun _ _ _ heq => by cases heq

theorem replay_unreserved {existing : Sigma Settlement} {fingerprint : String} :
    (replay existing fingerprint).Meets (fun _ _ => True)
      (fun h r => ∀ read, r = .ok read → Unreserved h read) h := by
  unfold replay
  split_ifs with hconflict hstatus
  · exact fun _ heq => by cases heq
  · rintro read ⟨⟩
    exact .replayed hstatus
  · exact submit_unreserved

theorem create_unreserved {ownerId idempotencyKey : String} {command : SettlementCreate} :
    (create settings ownerId idempotencyKey command).Meets (fun _ _ => True)
      (fun h r => ∀ read, r = .ok read → Unreserved h read) [] := by
  unfold create
  refine meets_bind.mpr (transact_seen fun r => ?_)
  cases r with
  | error error => exact fun _ heq => by cases heq
  | ok reply =>
    cases reply with
    | some existing => exact replay_unreserved
    | none =>
      refine meets_bind.mpr ((meets_true _).mono fun h r _ => ?_)
      cases r with
      | error error => exact fun _ heq => by cases heq
      | ok quote =>
        refine meets_bind.mpr ((meets_true _).mono fun h r _ => ?_)
        cases r with
        | error error => exact fun _ heq => by cases heq
        | ok settlementId =>
          refine meets_bind.mpr ((meets_true _).mono fun h r _ => ?_)
          cases r with
          | error error => exact fun _ heq => by cases heq
          | ok inserted =>
            cases inserted with
            | none => exact submit_unreserved
            | some winner => exact replay_unreserved

theorem Underway.cons {op : Operation} {r : Except ServiceError op.Reply} (hunder : Underway id h)
    (hop : op ≠ .transaction (.get id)) : Underway id (⟨op, r⟩ :: h) := by
  intro read hmem
  rcases List.mem_cons.mp hmem with heq | hmem
  · cases heq
    exact absurd rfl hop
  · exact hunder read hmem

theorem Underway.returns (hunder : Underway id h) (r : Except ServiceError SettlementRead) :
    ReturnsUnlessUnderway id h r :=
  fun read hmem => .inl (hunder read hmem)

theorem await_meets {op : Operation} {pre : CallHistory → Prop}
    {post : CallHistory → Except ServiceError op.Reply → Prop} (hpre : pre h)
    (hpost : ∀ r, post (⟨op, r⟩ :: h) r) : (await op).Meets (fun h _ => pre h) post h :=
  meets_call.mpr ⟨hpre, hpost⟩

theorem get_returns (hunder : Underway id h) : (transact (.get id')).Meets
    (fun h _ => Underway id h) (ReturnsUnlessUnderway id) h := by
  refine await_meets hunder fun r read hmem => ?_
  rcases List.mem_cons.mp hmem with heq | hmem
  · cases heq
    exact .inr rfl
  · exact .inl (hunder read hmem)

theorem finalize_underway {token : ℕ} {result : Option ProviderResult} (hunder : Underway id h) :
    (transact (.finalizeAttempt id' token result)).Meets (fun h _ => Underway id h)
      (fun h _ => Underway id h) h :=
  await_meets hunder fun _ => hunder.cons (by simp)

theorem resolve_underway {claim : PayoutClaim} {lookup : ProviderLookup}
    (hunder : Underway id h) : (resolve claim lookup).Meets (fun h _ => Underway id h)
      (fun h _ => Underway id h) h := by
  cases lookup with
  | notFound =>
    have hcons : ∀ r, Underway id (⟨claim.initiation, r⟩ :: h) := fun r => hunder.cons nofun
    exact tryInitiate_meets hunder (fun _ => hcons _) fun _ => hcons _
  | _ => exact hunder

theorem reconcileClaim_returns {claim : PayoutClaim} (hunder : Underway id h) :
    (reconcileClaim claim true).Meets (fun h _ => Underway id h) (ReturnsUnlessUnderway id) h := by
  have htry : Program.Meets (fun h _ => Underway id h) (fun h _ => Underway id h) (do
      let lookup ← await (.lookup claim.settlement.id)
      let result ← resolve claim lookup
      transact (.finalizeAttempt claim.settlement.id claim.attemptToken result)) h := by
    refine meets_bind.mpr (await_meets hunder fun r => ?_)
    have hunder : Underway id (⟨.lookup claim.settlement.id, r⟩ :: h) := hunder.cons nofun
    cases r with
    | error error => exact hunder
    | ok lookup =>
      refine meets_bind.mpr ((resolve_underway hunder).mono fun h r hunder => ?_)
      cases r with
      | error error => exact hunder
      | ok result => exact finalize_underway hunder
  unfold reconcileClaim
  refine meets_tryCatch.mpr (htry.mono fun h r hunder => ?_)
  cases r with
  | ok read => exact hunder.returns _
  | error error =>
    dsimp only
    split
    · exact get_returns hunder
    · -- the error is raised again, whether or not the attempt could be released
      refine meets_bind.mpr (catchStale_meets (meets_bind.mpr ?_))
      refine (finalize_underway hunder).mono fun h r hunder => ?_
      cases r with
      | ok read => exact ⟨fun _ _ => hunder.returns _, nofun, nofun⟩
      | error error' =>
        exact ⟨nofun, fun _ => hunder.returns _, fun _ _ => hunder.returns _⟩

theorem reconcile_returns : (reconcile id).Meets (fun h _ => Underway id h)
    (ReturnsUnlessUnderway id) [] := by
  have hempty : Underway id [] := fun _ hmem => absurd hmem List.not_mem_nil
  unfold reconcile
  refine meets_bind.mpr (await_meets hempty fun r => ?_)
  cases r with
  | error error =>
    intro read hmem
    cases List.mem_singleton.mp hmem
  | ok current =>
    dsimp only
    split
    · intro read hmem
      cases List.mem_singleton.mp hmem
      exact .inr rfl
    · rename_i hinFlight
      have hunder : Underway id [⟨.transaction (.get id), .ok current⟩] := by
        intro read hmem
        cases List.mem_singleton.mp hmem
        exact not_not.mp hinFlight
      refine meets_bind.mpr (await_meets hunder fun r => ?_)
      have hunder : Underway id (⟨.transaction (.claimForReconciliation id false), r⟩ ::
          [⟨.transaction (.get id), .ok current⟩]) := hunder.cons (by simp)
      cases r with
      | error error => exact hunder.returns _
      | ok reply =>
        cases reply with
        | none => exact get_returns hunder
        | some claim => exact reconcileClaim_returns hunder

end Calls

/-! ## Runs -/

section Runs
variable {settings : Settings} {law : ProviderLaw} {s s' : State} {w : ℕ} {id : UUID}
  {read : SettlementRead}

/-- The steps in which no reconciliation finds its settlement reserved. -/
def Clear (s s' : State) : Prop := ¬ FindsReserved s s'

/-- In a clear run no reconciliation has read that its settlement is reserved. -/
theorem read_of_clear (h : ((system settings law Database.Unused).restrict Clear).Reachable s)
    (hread : ⟨w, .ran (.get id) (.ok read) true⟩ ∈ s.trace)
    (hstarted : ⟨w, .started (.reconcile id)⟩ ∈ s.trace) : read.status ≠ .reserved := by
  induction h with
  | init hinit =>
    obtain ⟨-, -, -, -, htrace⟩ := hinit
    rw [htrace] at hread
    cases hread
  | @step s s' hreach hstep ih =>
    obtain ⟨hstep, hclear⟩ := hstep
    rcases Step.happens hstep with ⟨htrace, -⟩ | ⟨e, htrace, hhappens⟩
    · rw [htrace] at hread hstarted
      exact ih hread hstarted
    rw [htrace] at hread hstarted
    generalize hdb : s'.db = db at hhappens
    rcases List.mem_cons.mp hread with rfl | hold
    · -- the settlement is read in this step
      have hstarted := (List.mem_cons.mp hstarted).resolve_left (by simp)
      intro hreserved
      refine hclear ⟨w, id, read, hstarted, htrace, ?_⟩
      cases hhappens with
      | commits acknowledged hworker hblocked hrun =>
        obtain ⟨-, row, hrow, rfl⟩ := run_get_ok hrun
        rw [← hreserved]
        exact status_of_lookup hrow
    · rcases List.mem_cons.mp hstarted with rfl | hbefore
      · cases hhappens with
        | starts hidle =>
          have hunused := (tracked_of_reachable hreach.of_restrict).idle w hidle _ hold
          exact (hunused rfl).elim
      · exact ih hold hbefore

/-- **`create` returns no reserved settlement.** -/
theorem create_past (h : (system settings law Database.Unused).Reachable s)
    {ownerId idempotencyKey : String} {command : SettlementCreate} {pending : Bool}
    (hworker : s.workers w = .running (.create ownerId idempotencyKey command)
      (.ret (.settlement read)) pending) : read.status ≠ .reserved := by
  have hmeets : ((Call.create ownerId idempotencyKey command).program settings).Meets
      (fun _ _ => True) (fun h r => ∀ read, r = .ok (.settlement read) → Unreserved h read) [] := by
    refine meets_map.mpr (create_unreserved.mono fun h r hr read hread => ?_)
    cases r with
    | error error => cases hread
    | ok read' =>
      cases hread
      exact hr _ rfl
  have hunreserved := ((tracked_of_reachable h).path w _ _ pending hworker).meets hmeets read rfl
  cases hunreserved with
  | replayed hstatus => exact hstatus
  | @reread id reply h' hhistory hclaim =>
    obtain ⟨later, action, earlier, htrace, hseen, rfl⟩ := history_eq_cons hhistory
    have hmem : ⟨w, action⟩ ∈ s.trace := by
      rw [htrace]
      exact List.mem_append_right _ List.mem_cons_self
    obtain rfl := (ended_of_seen h hmem hseen).resolve_left nofun
    have hsuffix : earlier <:+ s.trace := by
      rw [htrace]
      exact (List.suffix_cons _ _).trans (List.suffix_append _ _)
    have hran := (ended_of_history h hsuffix hclaim).resolve_left nofun
    obtain ⟨hid, -⟩ := reports_of_reachable h hmem
    have hshown := shown_past h
    rw [htrace] at hshown
    refine hshown.drop.1 read ⟨_, _, _, rfl, rfl⟩ (.inr ⟨_, hran, ?_⟩)
    rw [hid]
    exact .claimed
  | @finalized id token result hmem =>
    have hran := ran_of_history h hmem
    obtain ⟨hid, -⟩ := reports_of_reachable h hran
    obtain ⟨earlier, -, hpast⟩ := (shown_past h).of_mem hran
    refine hpast read ⟨_, _, _, rfl, rfl⟩ (.inl ?_)
    rw [hid]
    exact .finalized

/-- **In a clear run neither does `reconcile`**: all it is shown is its own settlement. -/
theorem reconcile_past (h : ((system settings law Database.Unused).restrict Clear).Reachable s)
    {pending : Bool} (hworker : s.workers w =
      .running (.reconcile id) (.ret (.settlement read)) pending) : read.status ≠ .reserved := by
  have hreach := h.of_restrict
  have hstarted : ∀ call, ⟨w, .started call⟩ ∈ s.trace ↔ call = .reconcile id :=
    (tracked_of_reachable hreach).call w _ _ pending hworker
  have hget : ∀ read, ⟨w, .ran (.get id) (.ok read) true⟩ ∈ s.trace → read.status ≠ .reserved :=
    fun read hread => read_of_clear h hread ((hstarted _).mpr rfl)
  obtain ⟨t, reply, hran, hshows⟩ := told_of_returned hreach hworker
  obtain ⟨_, -, hpast⟩ := (shown_past hreach).of_mem hran
  obtain ⟨earlier, hsuffix, hperforms⟩ := (allows_of_reachable hreach).of_mem hran
  obtain ⟨call, hcall, hallows⟩ := hperforms (.transaction t) rfl
  have hearlier : earlier <:+ s.trace := (List.suffix_cons _ _).trans hsuffix
  obtain rfl := (hstarted call).mp (hearlier.subset hcall)
  cases hallows with
  | read =>
    obtain rfl := hshows
    exact hget _ hran
  | claimManually =>
    obtain ⟨claim, rfl, rfl⟩ := hshows
    refine hpast _ ⟨_, _, _, rfl, claim, rfl, rfl⟩ (.inl ?_)
    rw [(reports_of_reachable hreach hran claim rfl).1]
    exact .reclaimed
  | apply hclaim hsuffix htold =>
    obtain rfl := hshows
    refine hpast _ ⟨_, _, _, rfl, rfl⟩ (.inl ?_)
    rw [(reports_of_reachable hreach hran).1]
    exact .finalized
  | @reread _ _ h' claim hclaim hbefore =>
    obtain rfl := hshows
    cases hclaim with
    | @manual _ _ h'' hquiet =>
      have hclaimed := (ended_of_history hreach hearlier
        (hbefore.subset List.mem_cons_self)).resolve_left nofun
      have hid := (reports_of_reachable hreach (hearlier.subset hclaimed) claim rfl).1
      rw [hid] at hran
      exact hget _ hran

/-- After a commit its worker is running. -/
theorem Step.committed {t : Transaction} {reply : t.Reply} (hstep : Step settings law s s')
    (htrace : s'.trace = ⟨w, .ran t (.ok reply) true⟩ :: s.trace) :
    ∃ call program, s'.workers w = .running call program false := by
  cases hstep with
  | start => cases htrace
  | wait _ hperforms =>
    cases hperforms with
    | inserts => exact absurd htrace.symm (List.cons_ne_self _ _)
    | submits => cases htrace
    | asks => cases htrace
  | advance _ hperforms =>
    cases hperforms with
    | commits acknowledged hblocked hrun =>
      cases htrace
      exact ⟨_, _, Function.update_self _ _ _⟩
    | _ => cases htrace
  | stop => exact absurd htrace.symm (List.cons_ne_self _ _)
  | tick => exact absurd htrace.symm (List.cons_ne_self _ _)
  | record => exact absurd htrace.symm (List.cons_ne_self _ _)

/-- **A reconciliation that finds its settlement reserved returns it.** -/
theorem FindsReserved.returned (hreach : (system settings law Database.Unused).Reachable s)
    (hstep : Step settings law s s') (h : FindsReserved s s') :
    ∃ w id read pending, read.status = .reserved ∧
      s'.workers w = .running (.reconcile id) (.ret (.settlement read)) pending := by
  obtain ⟨w, id, read, hstarted, htrace, hstatus⟩ := h
  have hreach' : (system settings law Database.Unused).Reachable s' := .step hreach hstep
  have hreserved : read.status = .reserved := by
    obtain ⟨hsame, -⟩ | ⟨e, he, hhappens⟩ := hstep.happens
    · exact absurd (htrace.symm.trans hsame) (List.cons_ne_self _ _)
    · obtain ⟨rfl, -⟩ := List.cons.inj (htrace.symm.trans he)
      generalize s'.db = db at hhappens
      cases hhappens with
      | commits acknowledged hworker hblocked hrun =>
        obtain ⟨-, row, hrow, rfl⟩ := run_get_ok hrun
        exact Option.some.inj ((status_of_lookup hrow).symm.trans hstatus)
  obtain ⟨call, program, hworker⟩ := hstep.committed htrace
  have htracked := tracked_of_reachable hreach'
  obtain rfl : Call.reconcile id = call := by
    refine (htracked.call w call program false hworker (.reconcile id)).mp ?_
    rw [htrace]
    exact .tail _ hstarted
  have hread : ⟨.transaction (.get id), .ok read⟩ ∈ history w s'.trace := by
    rw [htrace, history_cons_self]
    exact List.mem_cons_self
  have hnot : ¬ read.status.InFlight := fun hinFlight => hinFlight.ne_reserved hreserved
  have hmeets : ((Call.reconcile id).program settings).Meets (fun h _ => Underway id h)
      (fun h r => ∀ read, ⟨.transaction (.get id), .ok read⟩ ∈ h →
        read.status.InFlight ∨ r = .ok (.settlement read)) [] := by
    refine meets_map.mpr (reconcile_returns.mono fun h r hreturns read hmem => ?_)
    refine (hreturns read hmem).imp_right fun hr => ?_
    rw [hr]
    rfl
  have hhere := (htracked.path w _ program false hworker).meets hmeets
  refine ⟨w, id, read, false, hreserved, ?_⟩
  cases program with
  | ret response =>
    cases (hhere read hread).resolve_left hnot
    exact hworker
  | raise error => cases (hhere read hread).resolve_left hnot
  | perform op next => exact absurd (hhere.1 read hread) hnot

/-- A run without reconciliations is clear. -/
theorem clear_of_unreconciled (h : (system settings law Database.Unused).Reachable s)
    (hnone : ∀ w id, ⟨w, .started (.reconcile id)⟩ ∉ s.trace) :
    ((system settings law Database.Unused).restrict Clear).Reachable s := by
  induction h with
  | init hinit => exact .init hinit
  | @step s s' hreach hstep ih =>
    have hbefore : ∀ w id, ⟨w, .started (.reconcile id)⟩ ∉ s.trace := fun w id hmem =>
      hnone w id ((Step.trace_suffix hstep).subset hmem)
    refine .step (ih hbefore) ⟨hstep, ?_⟩
    rintro ⟨w, id, read, hstarted, -⟩
    exact hbefore w id hstarted

/-- **When the status code tells terminal from pending**: in a run in which no
reconciliation finds its settlement reserved, every response to a POST does; and as soon as
one does find it so, its response does not. -/
theorem responses_tell_terminal (settings : Settings) (law : ProviderLaw) :
    (∀ s, ((system settings law Database.Unused).restrict Clear).Reachable s →
      ∀ w request response, request.IsPost → s.Responds w request response → response.Tells) ∧
    ∀ s s', (system settings law Database.Unused).Reachable s → Step settings law s s' →
      FindsReserved s s' → ∃ w request response, request.IsPost ∧
        s'.Responds w request response ∧ ¬ response.Tells := by
  constructor
  · intro s h w request response hpost hresponds
    cases hresponds with
    | raised hworker => exact exceptionHandler_tells _
    | returned hworker =>
      rw [Request.respond_tells hpost]
      cases request with
      | getSettlement settlementId => exact hpost.elim
      | createSettlement ownerId idempotencyKey command => exact create_past h.of_restrict hworker
      | reconcileSettlement settlementId => exact reconcile_past h hworker
  · intro s s' hreach hstep hfinds
    obtain ⟨w, id, read, pending, hreserved, hworker⟩ := hfinds.returned hreach hstep
    have hpost : (Request.reconcileSettlement id).IsPost := trivial
    refine ⟨w, .reconcileSettlement id, _, hpost, .returned hworker, ?_⟩
    rw [Request.respond_tells hpost, not_not]
    exact hreserved

/-- The response to the POST whose payout is in doubt. -/
theorem responses_tell_terminal_pending :
    ∃ s, ((system sampleSettings .contract Database.Unused).restrict Clear).Reachable s ∧
      ∃ response, s.Responds 0 (.createSettlement "ada" "key-1" sampleCommand) response ∧
        response.Tells ∧ response.statusCode = 202 := by
  obtain ⟨s, h, -, -, -, -, htrace, hworker, -⟩ := sample_pending (C := fun _ => True)
    sampleStart_unused fun _ _ _ => trivial
  have hclear := clear_of_unreconciled h.of_restrict (by simp [htrace, sampleCreated])
  have hresponds : s.Responds 0 (.createSettlement "ada" "key-1" sampleCommand) _ :=
    .returned hworker
  have hpost : (Request.createSettlement "ada" "key-1" sampleCommand).IsPost := trivial
  have htells := (responses_tell_terminal sampleSettings .contract).1 s hclear 0 _ _ hpost
    hresponds
  exact ⟨s, hclear, _, hresponds, htells, (htells _ rfl).2 (by decide)⟩

/-- The worker that has reserved the funds stops for good; another is asked to reconcile
the settlement, and answers that it is terminal. -/
theorem reserved_answered_terminal :
    ∃ s, (system sampleSettings .contract Database.Unused).Reachable s ∧
      s.workers 0 = .stopped sampleCreate ∧ s.db.status 7 = some .reserved ∧
      ∃ response, s.Responds 1 (.reconcileSettlement 7) response ∧
        response.body = .settlement (.fromOrmSettlement (sampleRow .reserved)) ∧
        response.statusCode = 200 ∧ ¬ response.Tells := by
  obtain ⟨⟨⟨db, clock, provider, tasks, trace⟩, workers⟩, h0, rfl, rfl, rfl, rfl, rfl, hworker,
    hidle⟩ := sample_reserved (C := fun _ => True) sampleStart_unused fun _ _ _ => trivial
  have h1 := TransitionSystem.Reachable.step h0 ⟨.stop hworker, trivial⟩
  have h2 := run_start h1 1 (.reconcile 7) (hidle 1 (by decide)) (fun _ heq => by cases heq)
    trivial
  have h3 := run_commit (t := .get 7) h2 1 (fun _ => 0) (.fromOrmSettlement (sampleRow .reserved))
    sampleReserved rfl (not_blocked fun _ heq => by cases heq) rfl trivial
  have hpost : (Request.reconcileSettlement 7).IsPost := trivial
  refine ⟨_, h3.of_restrict, rfl, rfl, _, .returned rfl, rfl, rfl, ?_⟩
  rw [Request.respond_tells hpost, not_not]
  rfl

end Runs

end SettlementRouter
