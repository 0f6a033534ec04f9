import SettlementRouter.SystemRuns

/-! # A worker on its own

What a call comes to when nothing else runs: no other worker takes a step, the
database does not fail, and the provider's answers are what they are whatever it
has recorded (`ProviderLaw.steady`).  Time may pass and the provider may record
operations before each of the worker's steps (`Solo`).

The semantics of one operation is then a relation on databases (`Exec`), and a
program that `Always` ends well by it inevitably does so in the system
(`inevitably_of_always`).
-/
namespace SettlementRouter

open Function (update)

/-- A provider whose answers do not depend on what it has recorded. -/
def ProviderLaw.steady (initiates : Option ProviderResult → Prop)
    (looksUp : Option ProviderLookup → Prop) : ProviderLaw where
  initiate _ := initiates
  lookup _ := looksUp

section Steps
variable (settings : Settings) (law : ProviderLaw) (w : ℕ)

/-- Worker `w` takes a step, and the database does not fail it.  Its readings of
the clock are not before the time of the step. -/
inductive Proceeds (s : State) : State → Prop
  | waits {call op next pending shared} :
      s.workers w = .running call (.perform op next) pending →
      Performs settings law s w op pending none shared →
      Proceeds s { shared with
        workers := update s.workers w (.running call (.perform op next) true) }
  | commits {call t next pending clock locked reply db} :
      s.workers w = .running call (.perform (.transaction t) next) pending →
      ¬ s.Blocked w t → (∀ k, s.clock ≤ clock k) →
      t.run settings clock locked s.db = .ok (reply, db) →
      Proceeds s { s.log w (.ran t (.ok reply) true) with
        db
        workers := update s.workers w (.running call (next (.ok reply)) false) }
  | rollsBack {call t next pending clock locked error} :
      s.workers w = .running call (.perform (.transaction t) next) pending →
      ¬ s.Blocked w t → (∀ k, s.clock ≤ clock k) →
      t.run settings clock locked s.db = .error error →
      Proceeds s { s.log w (.ran t (.error error) true) with
        workers := update s.workers w (.running call (next (.error error)) false) }
  | answers {call op next pending outcome shared} :
      s.workers w = .running call (.perform op next) pending → (∀ t, op ≠ .transaction t) →
      Performs settings law s w op pending (some outcome) shared →
      Proceeds s { shared with
        workers := update s.workers w (.running call (next outcome) false) }

/-- Time passes, or the provider records an operation it was asked for. -/
inductive Background (s : State) : State → Prop
  | tick {now} : s.clock ≤ now → Background s { s with clock := now }
  | record {v id amountUsd targetCurrency quotedAmount} (outcome : ProviderLookup) :
      ⟨v, .called (.initiate id amountUsd targetCurrency quotedAmount)⟩ ∈ s.trace →
      s.provider id = none →
      Background s { s with
        provider := update s.provider id
          (some ⟨outcome, amountUsd, targetCurrency, quotedAmount⟩) }

/-- The worker's next step, with whatever happens in the background before it. -/
def Solo (s t : State) : Prop :=
  ∃ s', Relation.ReflTransGen Background s s' ∧ Proceeds settings law w s' t

end Steps

section Solo
variable {settings : Settings} {law : ProviderLaw} {w : ℕ} {s t : State}

theorem Proceeds.step (h : Proceeds settings law w s t) : Step settings law s t := by
  cases h with
  | waits hworker hperforms => exact .wait hworker hperforms
  | commits hworker hblocked _ hrun => exact .advance hworker (.commits true hblocked hrun)
  | rollsBack hworker hblocked _ hrun => exact .advance hworker (.rollsBack hblocked hrun)
  | answers hworker _ hperforms => exact .advance hworker hperforms

theorem Background.step (h : Background s t) : Step settings law s t := by
  cases h with
  | tick hnow => exact .tick hnow
  | record outcome hcalled hnone => exact .record outcome hcalled hnone

/-- A worker on its own is a run of the system. -/
theorem Solo.later {start : Database → Prop} (h : Solo settings law w s t) :
    (system settings law start).Later s t := by
  obtain ⟨s', hbackground, hproceeds⟩ := h
  have hlater : (system settings law start).Later s s' :=
    Relation.ReflTransGen.mono (fun _ _ hstep => Background.step hstep) _ _ hbackground
  exact hlater.tail hproceeds.step

end Solo

/-! ## One operation -/

/-- What an operation can answer, from time `now` on, and what it makes of the
database. -/
inductive Exec (settings : Settings) (initiates : Option ProviderResult → Prop)
    (looksUp : Option ProviderLookup → Prop) (now : Time) (db : Database) :
    (op : Operation) → Except ServiceError op.Reply → Database → Prop
  | commits {t clock locked reply db'} : (∀ k, now ≤ clock k) →
      Transaction.run settings clock locked t db = .ok (reply, db') →
      Exec settings initiates looksUp now db (.transaction t) (.ok reply) db'
  | rollsBack {t clock locked error} : (∀ k, now ≤ clock k) →
      Transaction.run settings clock locked t db = .error error →
      Exec settings initiates looksUp now db (.transaction t) (.error error) db
  | quotes {targetCurrency outcome} :
      (∀ error, outcome = .error error → error = .routeNotFound) →
      Exec settings initiates looksUp now db (.quote targetCurrency) outcome db
  | draws {id} : Exec settings initiates looksUp now db .uuid4 (.ok id) db
  | submitted {id amountUsd targetCurrency quotedAmount answer} : initiates answer →
      Exec settings initiates looksUp now db (.initiate id amountUsd targetCurrency quotedAmount)
        (answered answer) db
  | asked {id answer} : looksUp answer →
      Exec settings initiates looksUp now db (.lookup id) (answered answer) db
  | gathers {claims outcome} : Exec settings initiates looksUp now db (.gather claims) outcome db

section Rules
variable {settings : Settings} {initiates : Option ProviderResult → Prop}
  {looksUp : Option ProviderLookup → Prop} {now : Time} {db : Database} {t : Transaction}
  {h : History Operation Operation.Reply ServiceError}

/-- The rule for a transaction that commits whatever its readings of the clock. -/
theorem always_transact {post : History Operation Operation.Reply ServiceError → Database →
      Except ServiceError t.Reply → Prop}
    (hrun : ∀ clock locked, (∀ k, now ≤ clock k) → ∃ reply db',
      t.run settings clock locked db = .ok (reply, db') ∧
        post (⟨.transaction t, .ok reply⟩ :: h) db' (.ok reply)) :
    (transact t).Always (Exec settings initiates looksUp now) post h db := by
  refine Program.always_call.mpr ⟨?_, fun r db' hexec => ?_⟩
  · obtain ⟨reply, db', hok, -⟩ := hrun (fun _ => now) (fun _ => false) fun _ => le_rfl
    exact ⟨_, _, .commits (fun _ => le_rfl) hok⟩
  · cases hexec with
    | commits hclock hran =>
      obtain ⟨reply, db', hok, hpost⟩ := hrun _ _ hclock
      cases hran.symm.trans hok
      exact hpost
    | rollsBack hclock hran =>
      obtain ⟨reply, db', hok, -⟩ := hrun _ _ hclock
      cases hran.symm.trans hok

/-- The rule for a lookup with one answer. -/
theorem always_lookup {id : UUID} {lookup : ProviderLookup}
    {post : History Operation Operation.Reply ServiceError → Database →
      Except ServiceError ProviderLookup → Prop}
    (hpost : post (⟨.lookup id, .ok lookup⟩ :: h) db (.ok lookup)) :
    (await (.lookup id)).Always (Exec settings initiates (· = some lookup) now) post h db := by
  refine Program.always_call.mpr ⟨⟨_, _, .asked rfl⟩, fun r db' hexec => ?_⟩
  cases hexec with
  | asked hanswer =>
    subst hanswer
    exact hpost

/-- The rule for a submission with one answer. -/
theorem always_tryInitiate {claim : PayoutClaim} {result : ProviderResult}
    {post : History Operation Operation.Reply ServiceError → Database →
      Except ServiceError (Option ProviderResult) → Prop}
    (hpost : post (⟨.initiate claim.settlement.id claim.settlement.amountUsd
      claim.settlement.targetCurrency claim.settlement.quotedAmount, .ok result⟩ :: h) db
      (.ok (some result))) :
    (tryInitiate claim).Always (Exec settings (· = some result) looksUp now) post h db := by
  unfold tryInitiate
  rw [Program.always_tryCatch, Program.always_map]
  refine Program.always_call.mpr ⟨⟨_, _, .submitted rfl⟩, fun r db' hexec => ?_⟩
  cases hexec with
  | submitted hanswer =>
    subst hanswer
    exact hpost

end Rules

/-- Worker `w` has come to `program` after the history `h`, and nothing that could
block it is going on. -/
structure Alone (w : ℕ) (call : Call) (now : Time) (program : Service Response) (pending : Bool)
    (h : History Operation Operation.Reply ServiceError) (db : Database) (s : State) : Prop where
  worker : s.workers w = .running call program pending
  others : ∀ v new, v ≠ w → ¬ s.Inserting v new
  now_le : now ≤ s.clock
  history_eq : history w s.trace = h
  db_eq : s.db = db

section Alone
variable {settings : Settings} {initiates : Option ProviderResult → Prop}
  {looksUp : Option ProviderLookup → Prop} {w : ℕ} {call : Call} {now : Time}
  {program : Service Response} {pending : Bool} {op : Operation}
  {next : Except ServiceError op.Reply → Service Response}
  {h : History Operation Operation.Reply ServiceError} {db : Database} {s t : State}

theorem Alone.not_blocked (ha : Alone w call now program pending h db s) (t : Transaction) :
    ¬ s.Blocked w t := by
  rintro ⟨new, row, -, -, v, other, hv, hinserting, -⟩
  exact ha.others v other hv hinserting

theorem Alone.background (ha : Alone w call now program pending h db s)
    (hs : Relation.ReflTransGen Background s t) : Alone w call now program pending h db t := by
  induction hs with
  | refl => exact ha
  | tail _ hstep ih =>
    cases hstep with
    | tick hnow => exact { ih with now_le := ih.now_le.trans hnow }
    | record outcome hcalled hnone => exact { ih with }

/-- The worker's own step leaves the others as they are. -/
theorem Alone.update {program' : Service Response} {pending' : Bool}
    {h' : History Operation Operation.Reply ServiceError} {db' : Database}
    (ha : Alone w call now program pending h db s)
    (hworkers : t.workers = update s.workers w (.running call program' pending'))
    (hclock : t.clock = s.clock) (hhistory : history w t.trace = h') (hdb : t.db = db') :
    Alone w call now program' pending' h' db' t where
  worker := by rw [hworkers, Function.update_self]
  others := by
    rintro v new hv ⟨call', next, hworker⟩
    rw [hworkers, Function.update_of_ne hv] at hworker
    exact ha.others v new hv ⟨call', next, hworker⟩
  now_le := hclock ▸ ha.now_le
  history_eq := hhistory
  db_eq := hdb

/-- **One step on its own** is the wait for an operation, or its end. -/
theorem Alone.proceeds (ha : Alone w call now (.perform op next) pending h db s)
    (hstep : Proceeds settings (.steady initiates looksUp) w s t) :
    (pending = false ∧ Alone w call now (.perform op next) true h db t) ∨
      ∃ r db', Exec settings initiates looksUp now db op r db' ∧
        Alone w call now (next r) false (⟨op, r⟩ :: h) db' t := by
  obtain rfl := ha.db_eq
  obtain rfl := ha.history_eq
  have hnow : ∀ {clock : ℕ → Time}, (∀ k, s.clock ≤ clock k) → ∀ k, now ≤ clock k :=
    fun hclock k => ha.now_le.trans (hclock k)
  cases hstep with
  | waits hworker hperforms =>
    cases ha.worker.symm.trans hworker
    left
    cases hperforms with
    | inserts => exact ⟨rfl, ha.update rfl rfl rfl rfl⟩
    | submits | asks =>
      exact ⟨rfl, ha.update rfl rfl (by simp [Shared.log, history_cons_self, Action.seen]) rfl⟩
  | commits hworker _ hclock hrun =>
    cases ha.worker.symm.trans hworker
    exact .inr ⟨_, _, .commits (hnow hclock) hrun,
      ha.update rfl rfl
        (by simp [Shared.log, history_cons_self, Action.seen]) rfl⟩
  | rollsBack hworker _ hclock hrun =>
    cases ha.worker.symm.trans hworker
    exact .inr ⟨_, _, .rollsBack (hnow hclock) hrun, ha.update rfl rfl
      (by simp [Shared.log, history_cons_self, Action.seen]) rfl⟩
  | @answers call' op' next' pending' outcome shared hworker hop hperforms =>
    cases ha.worker.symm.trans hworker
    have hhistory : history w shared.trace = ⟨op, outcome⟩ :: history w s.trace := by
      obtain ⟨-, -, hhistory, -⟩ := hperforms.trace
      exact hhistory
    right
    cases hperforms with
    | commits | rollsBack | fails => exact absurd rfl (hop _)
    | quotes _ hroute => exact ⟨_, _, .quotes hroute, ha.update rfl rfl hhistory rfl⟩
    | draws => exact ⟨_, _, .draws, ha.update rfl rfl hhistory rfl⟩
    | submitted _ hlaw => exact ⟨_, _, .submitted hlaw, ha.update rfl rfl hhistory rfl⟩
    | asked _ hlaw => exact ⟨_, _, .asked hlaw, ha.update rfl rfl hhistory rfl⟩
    | gathers => exact ⟨_, _, .gathers, ha.update rfl rfl hhistory rfl⟩

/-- Where an operation has an answer, the worker can go on. -/
theorem Alone.exists_solo (ha : Alone w call now (.perform op next) pending h db s)
    (hexec : ∃ r db', Exec settings initiates looksUp now db op r db') :
    ∃ t, Solo settings (.steady initiates looksUp) w s t := by
  suffices hproceeds : ∃ t, Proceeds settings (.steady initiates looksUp) w s t by
    obtain ⟨t, hstep⟩ := hproceeds
    exact ⟨t, s, .refl, hstep⟩
  obtain ⟨r, db', hexec⟩ := hexec
  cases op with
  | transaction t =>
    cases hrun : t.run settings (fun _ => s.clock) (fun _ => false) s.db with
    | ok reply =>
      obtain ⟨reply, db'⟩ := reply
      exact ⟨_, .commits ha.worker (ha.not_blocked t) (fun _ => le_rfl) hrun⟩
    | error error => exact ⟨_, .rollsBack ha.worker (ha.not_blocked t) (fun _ => le_rfl) hrun⟩
  | quote targetCurrency =>
    exact ⟨_, .answers ha.worker (fun _ heq => by cases heq) (.quotes (.error .routeNotFound)
      fun _ heq => (Except.error.inj heq).symm)⟩
  | uuid4 => exact ⟨_, .answers ha.worker (fun _ heq => by cases heq) (.draws 0)⟩
  | initiate id amountUsd targetCurrency quotedAmount =>
    cases hexec with
    | submitted hanswer =>
      cases pending with
      | false => exact ⟨_, .waits ha.worker .submits⟩
      | true => exact ⟨_, .answers ha.worker (fun _ heq => by cases heq) (.submitted _ hanswer)⟩
  | lookup id =>
    cases hexec with
    | asked hanswer =>
      cases pending with
      | false => exact ⟨_, .waits ha.worker .asks⟩
      | true => exact ⟨_, .answers ha.worker (fun _ heq => by cases heq) (.asked _ hanswer)⟩
  | gather claims => exact ⟨_, .answers ha.worker (fun _ heq => by cases heq) (.gathers (.ok ()))⟩

/-- **One operation on its own**: whatever steps are taken, it ends as `Exec` says. -/
theorem Alone.inevitably_next {Q : State → Prop}
    (ha : Alone w call now (.perform op next) false h db s)
    (hexec : ∃ r db', Exec settings initiates looksUp now db op r db')
    (hnext : ∀ r db' t, Exec settings initiates looksUp now db op r db' →
      Alone w call now (next r) false (⟨op, r⟩ :: h) db' t →
      Inevitably (Solo settings (.steady initiates looksUp) w) Q t) :
    Inevitably (Solo settings (.steady initiates looksUp) w) Q s := by
  refine .later (ha.exists_solo hexec) fun t ⟨s', hbackground, hstep⟩ => ?_
  rcases (ha.background hbackground).proceeds hstep with ⟨-, hwaits⟩ | ⟨r, db', hdone, ha'⟩
  · -- the worker waits: the second step ends the operation
    refine .later (hwaits.exists_solo hexec) fun u ⟨t', hbackground', hstep'⟩ => ?_
    rcases (hwaits.background hbackground').proceeds hstep' with
      ⟨hpending, -⟩ | ⟨r, db', hdone, ha'⟩
    · cases hpending
    · exact hnext r db' u hdone ha'
  · exact hnext r db' t hdone ha'

/-- **Soundness**: what a program always comes to is inevitable. -/
theorem inevitably_of_always
    {post : History Operation Operation.Reply ServiceError → Database →
      Except ServiceError Response → Prop}
    (halways : program.Always (Exec settings initiates looksUp now) post h db)
    (ha : Alone w call now program false h db s) :
    Inevitably (Solo settings (.steady initiates looksUp) w) (fun t => ∃ ended r,
      t.workers w = .running call ended false ∧ ended.result = some r ∧
        post (history w t.trace) t.db r) s := by
  induction program generalizing h db s with
  | ret response =>
    refine .now ⟨_, _, ha.worker, rfl, ?_⟩
    rw [ha.history_eq, ha.db_eq]
    exact halways
  | raise error =>
    refine .now ⟨_, _, ha.worker, rfl, ?_⟩
    rw [ha.history_eq, ha.db_eq]
    exact halways
  | perform op next ih =>
    exact ha.inevitably_next halways.1 fun r db' t hexec ha' =>
      ih r (halways.2 r db' hexec) ha'

end Alone

end SettlementRouter
