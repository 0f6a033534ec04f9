import SettlementRouter.SystemRuns

/-! # Attempt tokens fence

Three transactions issue tokens for a settlement.  One inserts the attempt with
token 1, one does so only when the attempt is missing, and otherwise each adds
one to the token it finds.  Since an attempt is inserted only where there is
none and is never deleted, every claim issues a token above all earlier ones
(`Fenced`), from whatever database the run starts.  An outcome is applied only
under the token the attempt carries, so a worker whose claim was superseded
changes nothing.
-/
namespace SettlementRouter

/-- The claims a committed transaction has issued, in order. -/
def Action.issued : Action → List PayoutClaim
  | .ran (.claimReserved _) (.ok claim) _ => claim.toList
  | .ran (.claimForReconciliation _ _) (.ok claim) _ => claim.toList
  | .ran (.claimDueBatch _) (.ok claims) _ => claims
  | _ => []

/-- The tokens of the claims on this settlement, in order. -/
def tokens (id : UUID) (claims : List PayoutClaim) : List ℕ :=
  (claims.filter fun claim => claim.settlement.id = id).map (·.attemptToken)

/-- All tokens issued for a settlement, the last one first. -/
def tokensOf (id : UUID) (trace : List Event) : List ℕ :=
  trace.flatMap fun e => (tokens id e.action.issued).reverse

/-- These tokens, the last one first, were issued in order, and the attempt
carries the last of them. -/
structure Fenced (id : UUID) (issued : List ℕ) (db : Database) : Prop where
  decreasing : issued.Pairwise (· > ·)
  latest : ∀ token, issued.head? = some token → (db.lifecycle id).token = token
  known : issued ≠ [] → (db.status id).isSome

section Fencing
variable {settings : Settings} {law : ProviderLaw} {start : Database → Prop}
  {s s' : State} {e : Event} {db db' : Database} {id id' : UUID} {kind : WriteKind}
  {issued : List ℕ} {token : ℕ}

theorem Fenced.le_token (h : Fenced id issued db) (htoken : token ∈ issued) :
    token ≤ (db.lifecycle id).token := by
  cases issued with
  | nil => cases htoken
  | cons last issued =>
    rw [h.latest last rfl]
    rcases List.mem_cons.mp htoken with rfl | hmem
    · exact le_rfl
    · exact ((List.pairwise_cons.mp h.decreasing).1 token hmem).le

/-- Settlements are not deleted. -/
theorem Writes.status_isSome (h : Writes db db') (hid : (db.status id).isSome) :
    (db'.status id).isSome := by
  obtain ⟨status, hstatus⟩ := Option.isSome_iff_exists.mp hid
  obtain ⟨row, hrow, -⟩ := Option.map_eq_some_iff.mp hstatus
  obtain ⟨status', hrow'⟩ := h.extends id row hrow
  simp [Database.status, hrow']

/-- A write that is no claim leaves the token alone. -/
theorem Write.token_eq (h : Write id' kind db db') (hkind : ∀ token, kind ≠ .claim token) :
    (db'.lifecycle id).token = (db.lifecycle id).token := by
  by_cases hid : id = id'
  · subst hid
    cases kind with
    | reserve =>
      have hmove := h.move
      generalize db.lifecycle id = l at hmove ⊢
      generalize db'.lifecycle id = l' at hmove ⊢
      cases hmove
      rfl
    | claim token => exact absurd rfl (hkind token)
    | finalize token status =>
      obtain ⟨hl, hl'⟩ := h.move.finalize_token
      rw [hl, hl']
  · rw [h.frame hid]

theorem Fenced.write (hf : Fenced id issued db) (h : Write id' kind db db')
    (hkind : ∀ token, kind ≠ .claim token) : Fenced id issued db' := by
  have hwrites : Writes db db' := .single ⟨id', kind, h⟩
  refine ⟨hf.decreasing, fun token hhead => ?_, fun hne => hwrites.status_isSome (hf.known hne)⟩
  rw [h.token_eq hkind]
  exact hf.latest token hhead

/-- **One claim**: its token goes on top. -/
theorem Fenced.claim (hf : Fenced id issued db) (h : Write id (.claim token) db db') :
    Fenced id (token :: issued) db' := by
  obtain ⟨hlt, htoken⟩ := h.move.claim_token
  refine ⟨List.pairwise_cons.mpr ⟨fun t ht => ?_, hf.decreasing⟩, fun t hhead => ?_, fun _ => ?_⟩
  · exact (hf.le_token ht).trans_lt hlt
  · obtain rfl : token = t := Option.some.inj hhead
    exact htoken
  · have hmove := h.move
    show (db'.lifecycle id).status.isSome
    generalize db.lifecycle id = l at hmove
    generalize db'.lifecycle id = l' at hmove ⊢
    cases hmove <;> rfl

/-- A claim on one settlement leaves the tokens of the others alone. -/
theorem Fenced.claim_of_ne (hf : Fenced id issued db) (h : Write id' kind db db')
    (hne : id ≠ id') : Fenced id issued db' := by
  refine ⟨hf.decreasing, fun token hhead => ?_, fun hissued => ?_⟩
  · rw [h.frame hne]
    exact hf.latest token hhead
  · show (db'.lifecycle id).status.isSome
    rw [h.frame hne]
    exact hf.known hissued

/-- **A transaction's claims**, one after the other. -/
theorem Fenced.claims {claims : List PayoutClaim} (hf : Fenced id issued db)
    (h : Claims claims db db') : Fenced id ((tokens id claims).reverse ++ issued) db' := by
  induction h generalizing issued with
  | nil => exact hf
  | @cons claims id' token db db₁ db' row hwrite hrow hclaims ih =>
    by_cases hid : id' = id
    · subst hid
      have hone := ih (hf.claim hwrite)
      rw [List.append_cons] at hone
      simpa [tokens, SettlementRead.fromOrmSettlement] using hone
    · have hone := ih (hf.claim_of_ne hwrite (Ne.symm hid))
      simpa [tokens, SettlementRead.fromOrmSettlement, hid] using hone

/-- **Every event keeps the fence.** -/
theorem Happens.fenced (h : Happens settings law s e db) (hf : Fenced id issued s.db) :
    Fenced id ((tokens id e.action.issued).reverse ++ issued) db := by
  cases h with
  | @commits w call t next pending clock locked reply db acknowledged hworker hblocked hrun =>
    cases t with
    | insertReserved new =>
      obtain ⟨row, -, -, hwrite⟩ := insertReserved_ok hrun
      exact hf.write hwrite nofun
    | claimReserved settlementId => exact hf.claims (claimReserved_ok hrun).1
    | claimForReconciliation settlementId respectSchedule =>
      exact hf.claims (claimForReconciliation_ok hrun).1
    | claimDueBatch limit => exact hf.claims (claimDueBatch_claims (Except.ok.inj hrun))
    | finalizeAttempt settlementId attemptToken result =>
      obtain ⟨row, attempt, row', -, -, -, -, -, hcase⟩ := finalizeAttempt_ok hrun
      rcases hcase with ⟨-, rfl⟩ | ⟨-, hwrite⟩
      · exact hf
      · exact hf.write hwrite nofun
    | findByKey ownerId idempotencyKey =>
      cases hrun
      exact hf
    | get settlementId =>
      obtain ⟨rfl, -⟩ := run_get_ok hrun
      exact hf
  | @rollsBack w call t next pending clock locked error =>
    cases t <;> exact hf
  | starts => exact hf
  | calls => exact hf
  | answers => exact hf

theorem fenced_of_reachable (h : (system settings law start).Reachable s) (id : UUID) :
    Fenced id (tokensOf id s.trace) s.db := by
  refine h.invariant (I := fun s => Fenced id (tokensOf id s.trace) s.db) (fun s hinit => ?_) ?_
  · obtain ⟨-, -, -, -, htrace⟩ := hinit
    rw [htrace]
    exact ⟨.nil, nofun, fun hne => absurd rfl hne⟩
  · intro s t _ hs hstep
    rcases hstep.happens with ⟨htrace, hdb⟩ | ⟨e, htrace, hhappens⟩
    · rwa [htrace, hdb]
    · rw [htrace]
      exact hhappens.fenced hs

/-- A call under a token that is not the attempt's is rejected. -/
theorem finalizeAttempt_stale {clock : ℕ → Time} {result : Option ProviderResult}
    (hid : (db.status id).isSome) (hlt : token < (db.lifecycle id).token) :
    finalizeAttempt clock id token result db = .error .staleAttemptToken := by
  obtain ⟨status, hstatus⟩ := Option.isSome_iff_exists.mp hid
  obtain ⟨row, hrow, -⟩ := Option.map_eq_some_iff.mp hstatus
  cases hattempt : db.attempts.lookup id with
  | none => simp [Database.lifecycle, Lifecycle.token, hattempt] at hlt
  | some attempt =>
    have hne : attempt.attemptToken ≠ token := by
      simp only [Database.lifecycle, Lifecycle.token, hattempt, Option.map_some,
        Option.getD_some] at hlt
      omega
    simp only [finalizeAttempt, hrow, hattempt]
    rw [if_pos hne]

/-- **Fencing.**  The tokens issued for a settlement strictly increase, whichever
claims issue them.  Finalizing, in the normal course or in an error path, changes
the database only under the latest token and while the settlement is not
terminal; under an older token it raises `StaleAttemptToken` and changes nothing. -/
theorem claims_fenced (h : (system settings law start).Reachable s) (id : UUID) :
    (tokensOf id s.trace).Pairwise (· > ·) ∧
      ∀ s' w token result outcome acknowledged, Step settings law s s' →
        s'.trace = ⟨w, .ran (.finalizeAttempt id token result) outcome acknowledged⟩ :: s.trace →
        (s'.db ≠ s.db →
          (s.db.lifecycle id).token = token ∧
            (∀ latest, (tokensOf id s.trace).head? = some latest → latest = token) ∧
            ∃ row, s.db.settlements.lookup id = some row ∧ ¬ row.status.Terminal) ∧
        ((∃ later ∈ tokensOf id s.trace, token < later) →
          outcome = .error .staleAttemptToken ∧ s'.db = s.db) := by
  have hf := fenced_of_reachable h id
  refine ⟨hf.decreasing, fun s' w token result outcome acknowledged hstep htrace => ?_⟩
  rcases hstep.happens with ⟨hsame, -⟩ | ⟨e, he, hhappens⟩
  · rw [hsame] at htrace
    exact absurd htrace List.ne_cons_self
  · obtain ⟨rfl, -⟩ := List.cons.inj (he.symm.trans htrace)
    have hstale : (∃ later ∈ tokensOf id s.trace, token < later) → ∀ clock,
        finalizeAttempt clock id token result s.db = .error .staleAttemptToken := by
      rintro ⟨later, hlater, hlt⟩ clock
      exact finalizeAttempt_stale (hf.known (List.ne_nil_of_mem hlater))
        (hlt.trans_le (hf.le_token hlater))
    generalize hdb : s'.db = db at hhappens
    cases hhappens with
    | commits acknowledged hworker hblocked hrun =>
      obtain ⟨row, attempt, row', hrow, hattempt, rfl, -, -, hcase⟩ := finalizeAttempt_ok hrun
      refine ⟨fun hchanged => ?_, fun holder => ?_⟩
      · rcases hcase with ⟨-, hsame⟩ | ⟨hterminal, hwrite⟩
        · exact absurd hsame hchanged
        · obtain ⟨htoken, -⟩ := hwrite.move.finalize_token
          exact ⟨htoken, fun latest hlatest => (hf.latest latest hlatest).symm.trans htoken,
            row, hrow, hterminal⟩
      · exact absurd (hrun.symm.trans (hstale holder _)) nofun
    | rollsBack hworker hblocked hrun =>
      refine ⟨fun hchanged => absurd rfl hchanged, fun holder => ⟨?_, rfl⟩⟩
      rw [Except.error.inj (hrun.symm.trans (hstale holder _))]

theorem claims_fenced_paid :
    ∃ s, (system sampleSettings .contract Database.Unused).Reachable s ∧
      tokensOf 7 s.trace = [2, 1] ∧ (tokensOf 7 s.trace).Pairwise (· > ·) := by
  obtain ⟨s, h, -, -, htrace⟩ := sample_run sampleStart_unused
  refine ⟨s, h, ?_, (claims_fenced h 7).1⟩
  rw [htrace]
  rfl

end Fencing

end SettlementRouter
