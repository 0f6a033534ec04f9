import SettlementRouter.AtomicTransactions

/-! # The system, statement by statement

In `system` a transaction is one step.  Here its statements are executed one after the
other, and between any two of them other workers go on (`interleaved`).  A statement waits
while another open transaction has locked what it touches; a transaction that commits
writes all its changes at once, and locks nothing any more.  A transaction can be lost at
any time, and where its worker stops it stays open until the database has noticed.

Every run of it is a run of `system` (`atomic_of_reachable`): a transaction takes effect
where it commits, or is rolled back, as if it had run alone there.
-/
namespace SettlementRouter

open Function (update)

/-- An open transaction of the service. -/
abbrev OpenSql :=
  Underway Statement Statement.Reply ServiceError Change Resource Transaction.Reply

/-- The system, and the transactions its workers have open. -/
structure InterleavedState where
  service : State
  table : ℕ → Option OpenSql

/-- The worker goes on waiting. -/
def Worker.waiting : Worker → Worker
  | running call program _ => running call program true
  | worker => worker

/-- The system after a statement of worker `w`.  From when its insert holds the entries of
the indexes, the worker is pending. -/
def State.executing (s : State) (w : ℕ) : Statement → State
  | .insertSettlement _ => { s with workers := update s.workers w (s.workers w).waiting }
  | _ => s

/-- The transaction has raised an exception, or its next statement fails. -/
inductive Raises (db : Database) (table : ℕ → Option OpenSql) (w : ℕ) :
    OpenSql → ServiceError → Prop
  | raised {t start writes held error} :
      Raises db table w ⟨t, start, .raise error, writes, held⟩ error
  | fails {t start op next writes held error locks} :
      SqlFails (sqlView db writes) op error locks → Statements.Free table w locks →
      Raises db table w ⟨t, start, .perform op next, writes, held⟩ error

section Steps
variable (settings : Settings) (law : ProviderLaw)

/-- One step of the service, its transactions being executed statement by statement. -/
inductive InterleavedStep : InterleavedState → InterleavedState → Prop
  | opens {s : InterleavedState} {w t start} : s.service.At w t →
      t.statements settings = some start → s.table w = none →
      InterleavedStep s { s with table := update s.table w (some ⟨t, start, start, [], ∅⟩) }
  | executes {s : InterleavedState} {w t start op next writes held reply new locks} :
      s.service.At w t → s.table w = some ⟨t, start, .perform op next, writes, held⟩ →
      SqlAnswers (sqlView s.service.db writes) op reply new locks →
      Statements.Free s.table w locks →
      InterleavedStep s {
        service := s.service.executing w op
        table := update s.table w
          (some ⟨t, start, next (.ok reply), new ++ writes, held ∪ locks⟩) }
  | commits {s : InterleavedState} {w call t next pending start reply writes held}
      (acknowledged : Bool) :
      s.service.workers w = .running call (.perform (.transaction t) next) pending →
      s.table w = some ⟨t, start, .ret reply, writes, held⟩ →
      InterleavedStep s {
        service := { s.service.log w (.ran t (.ok reply) acknowledged) with
          db := sqlView s.service.db writes
          workers := update s.service.workers w (.running call
            (next (if acknowledged then .ok reply else .error .databaseError)) false) }
        table := update s.table w none }
  | rollsBack {s : InterleavedState} {w call pending error} {x : OpenSql} {next} :
      s.service.workers w = .running call (.perform (.transaction x.kind) next) pending →
      s.table w = some x → Raises s.service.db s.table w x error →
      InterleavedStep s {
        service := { s.service.log w (.ran x.kind (.error error) true) with
          workers := update s.service.workers w (.running call (next (.error error)) false) }
        table := update s.table w none }
  | loses {s : InterleavedState} {w call t next pending} :
      s.service.workers w = .running call (.perform (.transaction t) next) pending →
      (t.statements settings).isSome →
      InterleavedStep s {
        service := { s.service.log w (.answered (.transaction t) (.error .databaseError)) with
          workers :=
            update s.service.workers w (.running call (next (.error .databaseError)) false) }
        table := update s.table w none }
  | closes {s : InterleavedState} {w call} : s.service.workers w = .stopped call →
      InterleavedStep s { s with table := update s.table w none }
  /-- Anything else the system does: the workers that are at such a transaction stay
  there, or stop. -/
  | serves {s : InterleavedState} {service} : Step settings law s.service service →
      (∀ w t, s.service.At w t → (t.statements settings).isSome →
        service.workers w = s.service.workers w ∨ ∃ call, service.workers w = .stopped call) →
      InterleavedStep s { s with service }

/-- The system with its transactions interleaved. -/
def interleaved (start : Database → Prop) : TransitionSystem InterleavedState where
  init s := (system settings law start).init s.service ∧ ∀ w, s.table w = none
  step := InterleavedStep settings law

end Steps

/-! ## Only a new settlement is inserted -/

section Inserts
variable {settings : Settings} {h : History Statement Statement.Reply ServiceError}

/-- The statement makes a settlement. -/
def Statement.Inserts : Statement → Prop
  | insertSettlement _ => True
  | _ => False

/-- Nothing the program executes inserts a settlement. -/
abbrev NeverInserts {α : Type} (p : Sql α)
    (h : History Statement Statement.Reply ServiceError) : Prop :=
  p.Meets (fun _ op => ¬ op.Inserts) (fun _ _ => True) h

theorem neverInserts_bind {α β : Type} {p : Sql α} {next : α → Sql β} (hp : NeverInserts p h)
    (hnext : ∀ a h, NeverInserts (next a) h) : NeverInserts (p >>= next) h := by
  refine Program.meets_bind.mpr (hp.mono fun h r _ => ?_)
  cases r with
  | ok a => exact hnext a h
  | error error => trivial

theorem neverInserts_execute {op : Statement} (hop : ¬ op.Inserts) :
    NeverInserts (execute op) h :=
  Program.meets_call.mpr ⟨hop, fun _ => trivial⟩

theorem neverInserts_execute_bind {α : Type} {op : Statement} {next : op.Reply → Sql α}
    (hop : ¬ op.Inserts) (hnext : ∀ reply h, NeverInserts (next reply) h) :
    NeverInserts (execute op >>= next) h :=
  neverInserts_bind (neverInserts_execute hop) hnext

theorem postStatements_neverInserts {id : UUID} (settlement : Settlement id)
    (event : JournalEvent) (hevent : event ≠ .opening)
    (debitKey creditKey : String × AccountPurpose) :
    NeverInserts (postStatements settlement event hevent debitKey creditKey) h := by
  refine neverInserts_execute_bind not_false fun accounts h => ?_
  dsimp only
  split
  · trivial
  refine neverInserts_execute_bind not_false fun _ h => ?_
  cases applyPosting accounts.1 .debit settlement.amountUsd with
  | error error => trivial
  | ok debited =>
    cases applyPosting accounts.2 .credit settlement.amountUsd with
    | error error => trivial
    | ok credited =>
      refine neverInserts_execute_bind not_false fun _ h => ?_
      exact neverInserts_execute not_false

theorem claimRowsStatements_neverInserts (rows : List DueRow) :
    NeverInserts (claimRowsStatements settings rows) h := by
  induction rows generalizing h with
  | nil => trivial
  | cons row rows ih =>
    refine neverInserts_execute_bind not_false fun now h => ?_
    refine neverInserts_execute_bind not_false fun _ h => ?_
    exact neverInserts_bind ih fun _ h => trivial

/-- Only the inserting transaction of `create` inserts a settlement. -/
theorem statements_neverInserts {t : Transaction} {start : Sql t.Reply}
    (hstart : t.statements settings = some start) (ht : ∀ new, t ≠ .insertReserved new) :
    NeverInserts start h := by
  cases t with
  | findByKey ownerId idempotencyKey => cases hstart
  | get settlementId => cases hstart
  | insertReserved new => exact absurd rfl (ht new)
  | claimReserved settlementId =>
    cases hstart
    refine neverInserts_execute_bind not_false fun row h => ?_
    split
    · trivial
    refine neverInserts_execute_bind not_false fun now h => ?_
    refine neverInserts_execute_bind not_false fun _ h => ?_
    exact neverInserts_execute_bind not_false fun _ h => trivial
  | claimForReconciliation settlementId respectSchedule =>
    cases hstart
    refine neverInserts_execute_bind not_false fun row h => ?_
    split
    · trivial
    refine neverInserts_execute_bind not_false fun attempt h => ?_
    refine neverInserts_execute_bind not_false fun now h => ?_
    cases attempt with
    | none =>
      refine neverInserts_execute_bind not_false fun later h => ?_
      exact neverInserts_execute_bind not_false fun _ h => trivial
    | some attempt =>
      dsimp only
      split
      · trivial
      split
      · trivial
      refine neverInserts_execute_bind not_false fun later h => ?_
      exact neverInserts_execute_bind not_false fun _ h => trivial
  | claimDueBatch limit =>
    cases hstart
    refine neverInserts_execute_bind not_false fun now h => ?_
    refine neverInserts_execute_bind not_false fun rows h => ?_
    exact claimRowsStatements_neverInserts rows
  | finalizeAttempt settlementId attemptToken result =>
    cases hstart
    refine neverInserts_execute_bind not_false fun row h => ?_
    refine neverInserts_execute_bind not_false fun attempt h => ?_
    have hwrite (status : SettlementStatus) (attempt : PayoutAttempt)
        (h : History Statement Statement.Reply ServiceError) : NeverInserts (do
          execute (.updateStatus settlementId status)
          execute (.updateAttempt settlementId attempt)
          return SettlementRead.fromOrmSettlement (row.withStatus status)) h :=
      neverInserts_execute_bind not_false fun _ h =>
        neverInserts_execute_bind not_false fun _ h => trivial
    cases attempt with
    | none => trivial
    | some attempt =>
      dsimp only
      split
      · trivial
      split
      · trivial
      split
      · exact neverInserts_bind (postStatements_neverInserts _ _ _ _ _) fun _ h => hwrite _ _ h
      · exact neverInserts_bind (postStatements_neverInserts _ _ _ _ _) fun _ h => hwrite _ _ h
      · exact neverInserts_execute_bind not_false fun now h => hwrite _ _ h

/-- A settlement is inserted by the first statement of that transaction. -/
theorem first_of_inserts {t : Transaction} {start : Sql t.Reply} {op : Statement}
    {next : Except ServiceError op.Reply → Sql t.Reply}
    (hstart : t.statements settings = some start)
    (hpath : Program.Path start h (.perform op next)) (hop : op.Inserts) :
    h = [] ∧ ∃ new, t = .insertReserved new ∧ op = .insertSettlement new := by
  by_cases ht : ∃ new, t = .insertReserved new
  · obtain ⟨new, rfl⟩ := ht
    cases hstart
    have hmeets : (insertReservedStatements new).Meets
        (fun h op => op.Inserts → h = [] ∧ op = .insertSettlement new) (fun _ _ => True) [] := by
      refine ⟨fun _ => ⟨rfl, rfl⟩, fun r => ?_⟩
      cases r with
      | error error => trivial
      | ok row =>
        have hnever : NeverInserts (reserveStatements row) [⟨.insertSettlement new, .ok row⟩] :=
          postStatements_neverInserts _ _ _ _ _
        exact hnever.weaken fun h op hop hinserts => absurd hinserts hop
    obtain ⟨rfl, rfl⟩ := (hpath.meets hmeets).1 hop
    exact ⟨rfl, new, rfl, rfl⟩
  · have hnever : NeverInserts start [] :=
      statements_neverInserts hstart fun new heq => ht ⟨new, heq⟩
    exact absurd hop (hpath.meets hnever).1

end Inserts

/-! ## What holds between the statements -/

/-- **The invariant**: the open transactions are those of the workers that are at them, or
have stopped there; each is where it would be alone, and no two have locked the same. -/
structure Interleaved (settings : Settings) (s : InterleavedState) : Prop where
  isolated : sql.Isolated s.service.db s.table
  started : ∀ w x, s.table w = some x → x.kind.statements settings = some x.start
  present : ∀ w x, s.table w = some x →
    s.service.At w x.kind ∨ ∃ call, s.service.workers w = .stopped call
  inserting : ∀ w new, s.service.Inserting w new → ∃ x, s.table w = some x ∧
    .settlementsPkey new.id ∈ x.held ∧
    .ownerIdempotencyKey new.ownerId new.idempotencyKey ∈ x.held

section Invariant
variable {settings : Settings} {law : ProviderLaw} {s s' : InterleavedState} {w : ℕ}
  {x : OpenSql} {new : NewSettlement}

/-- Once it has inserted the settlement, the transaction holds its index entries. -/
theorem held_of_reaches {db : Database} {h : History Statement Statement.Reply ServiceError}
    {rest : Sql Unit} {writes : List Change} {held : Set Resource}
    (hreach : sql.Reaches db (insertReservedStatements new) h rest writes held) :
    h = [] ∧ rest = insertReservedStatements new ∨ .settlementsPkey new.id ∈ held ∧
      .ownerIdempotencyKey new.ownerId new.idempotencyKey ∈ held := by
  refine hreach.first.imp_right ?_
  rintro ⟨row, changes, touched, hanswers, hheld⟩
  cases hanswers with
  | insertSettlement => exact ⟨hheld (.inl rfl), hheld (.inr (.inl rfl))⟩

/-- Who has index entries that nobody else has, waits for nobody. -/
theorem Interleaved.not_blocked_of_free (hs : Interleaved settings s) {locks : Set Resource}
    (hfree : Statements.Free s.table w locks) (hpkey : .settlementsPkey new.id ∈ locks)
    (hkey : .ownerIdempotencyKey new.ownerId new.idempotencyKey ∈ locks) :
    ¬ s.service.Blocked w (.insertReserved new) := by
  rintro ⟨new', row, heq, -, v, other, hv, hinserting, hconflict⟩
  cases heq
  obtain ⟨y, hy, hpkey', hkey'⟩ := hs.inserting v other hinserting
  have hdisjoint := hfree v y hv hy
  rcases hconflict with hid | ⟨howner, hkeys⟩
  · exact hdisjoint _ hpkey' (hid ▸ hpkey)
  · exact hdisjoint _ hkey' (by rwa [← howner, ← hkeys])

/-- A transaction that has ended is not waiting. -/
theorem Interleaved.not_blocked_of_ended (hs : Interleaved settings s) (hx : s.table w = some x)
    (hended : x.rest.result ≠ none) : ¬ s.service.Blocked w x.kind := by
  obtain ⟨t, start, rest, writes, held⟩ := x
  by_cases ht : ∃ new, t = .insertReserved new
  · obtain ⟨new, rfl⟩ := ht
    obtain ⟨h, hreach⟩ := hs.isolated.reaches w _ hx
    cases hs.started w _ hx
    rcases held_of_reaches hreach with ⟨-, hrest⟩ | ⟨hpkey, hkey⟩
    · cases hrest
      exact absurd rfl hended
    · exact hs.not_blocked_of_free (hs.isolated.exclusive w _ hx) hpkey hkey
  · exact not_blocked fun new heq => ht ⟨new, heq⟩

theorem Interleaved.not_blocked_of_raises (hs : Interleaved settings s) {error : ServiceError}
    (hx : s.table w = some x) (hraises : Raises s.service.db s.table w x error) :
    ¬ s.service.Blocked w x.kind := by
  cases hraises with
  | raised => exact hs.not_blocked_of_ended hx nofun
  | @fails t start op next writes held error locks hfails hfree =>
    by_cases ht : ∃ new, t = .insertReserved new
    · obtain ⟨new, rfl⟩ := ht
      obtain ⟨h, hreach⟩ := hs.isolated.reaches w _ hx
      cases hs.started w _ hx
      rcases held_of_reaches hreach with ⟨-, hrest⟩ | ⟨hpkey, hkey⟩
      · cases hrest
        cases hfails with
        | values herror =>
          rintro ⟨new', row, heq, hrow, -⟩
          cases heq
          rw [herror] at hrow
          cases hrow
        | insertSettlement hrow herror =>
          exact hs.not_blocked_of_free hfree (.inl rfl) (.inr rfl)
      · exact hs.not_blocked_of_free (hs.isolated.exclusive w _ hx) hpkey hkey
    · exact not_blocked fun new heq => ht ⟨new, heq⟩

/-! ## The other steps -/

/-- What a step of the system does to a worker. -/
inductive Worker.Moves : Worker → Worker → Prop
  | stays {worker} : Moves worker worker
  | starts {call program} : Moves .idle (.running call program false)
  | waits {call program pending} :
      Moves (.running call program pending) (.running call program true)
  | advances {call op next pending outcome} :
      Moves (.running call (.perform op next) pending) (.running call (next outcome) false)
  | stops {call program pending} : Moves (.running call program pending) (.stopped call)

theorem Step.moves {s s' : State} (h : Step settings law s s') (v : ℕ) :
    (s.workers v).Moves (s'.workers v) := by
  have hupdate {worker : Worker} {w : ℕ} (hw : (s.workers w).Moves worker) :
      (s.workers v).Moves (update s.workers w worker v) := by
    by_cases hv : v = w
    · subst hv
      rwa [Function.update_self]
    · rw [Function.update_of_ne hv]
      exact .stays
  cases h with
  | start hidle => exact hupdate (hidle ▸ .starts)
  | wait hworker => exact hupdate (hworker ▸ .waits)
  | advance hworker => exact hupdate (hworker ▸ .advances)
  | stop hworker => exact hupdate (hworker ▸ .stops)
  | tick => exact .stays
  | record => exact .stays

/-- A program is not its own continuation. -/
theorem next_ne {op : Operation} {next : Except ServiceError op.Reply → Service Response}
    (outcome : Except ServiceError op.Reply) : next outcome ≠ .perform op next := by
  have hall : ∀ p : Service Response, ∀ op (next : Except ServiceError op.Reply → Service Response),
      p = .perform op next → ∀ outcome, next outcome ≠ p := by
    intro p
    induction p with
    | ret a => exact fun op next heq => by cases heq
    | raise e => exact fun op next heq => by cases heq
    | perform op' next' ih =>
      rintro op next heq outcome hself
      cases heq
      exact ih outcome op' next' hself outcome rfl
  exact hall _ op next rfl outcome

/-- While the workers at transactions that lock stay where they are, nothing is written. -/
theorem db_of_serves {s service : State} (h : Step settings law s service)
    (hstays : ∀ w t, s.At w t → (t.statements settings).isSome →
      service.workers w = s.workers w ∨ ∃ call, service.workers w = .stopped call) :
    service.db = s.db := by
  cases h with
  | wait _ hperforms => cases hperforms <;> rfl
  | @advance w call op next pending outcome shared hworker hperforms =>
    cases hperforms with
    | @commits t _ clock locked reply db acknowledged hblocked hrun =>
      cases t with
      | findByKey ownerId idempotencyKey =>
        cases hrun
        rfl
      | get settlementId => exact (run_get_ok hrun).1
      | _ =>
        rcases hstays w _ ⟨call, next, pending, hworker⟩ rfl with hsame | ⟨call', hstopped⟩
        · dsimp only at hsame
          rw [hworker, Function.update_self] at hsame
          injection hsame with _ hnext
          exact absurd hnext (next_ne _)
        · dsimp only at hstopped
          rw [Function.update_self] at hstopped
          cases hstopped
    | _ => rfl
  | _ => rfl

/-! ## The invariant is kept -/

/-- A worker's transaction is over. -/
theorem Interleaved.ended (hs : Interleaved settings s) {service : State} {worker : Worker}
    (hworkers : service.workers = update s.service.workers w worker)
    (hworker : ∀ call program, worker ≠ .running call program true)
    (hisolated : sql.Isolated service.db (update s.table w none)) :
    Interleaved settings ⟨service, update s.table w none⟩ := by
  refine ⟨hisolated, fun v x hx => hs.started v x (Statements.Isolated.of_update_none hx).2,
    fun v x hx => ?_, fun v new hinserting => ?_⟩
  · obtain ⟨hv, hx⟩ := Statements.Isolated.of_update_none hx
    have hsame : service.workers v = s.service.workers v := by
      rw [hworkers, Function.update_of_ne hv]
    simpa only [State.At, hsame] using hs.present v x hx
  · obtain ⟨call, next, hrunning⟩ := hinserting
    dsimp only at hrunning
    rw [hworkers] at hrunning
    by_cases hv : v = w
    · subst hv
      rw [Function.update_self] at hrunning
      exact absurd hrunning (hworker _ _)
    · rw [Function.update_of_ne hv] at hrunning
      simpa only [Function.update_of_ne hv] using hs.inserting v new ⟨call, next, hrunning⟩

theorem at_executing {s : State} {v w : ℕ} {t : Transaction} {op : Statement} :
    (s.executing w op).At v t ↔ s.At v t := by
  cases op with
  | insertSettlement new =>
    by_cases hv : v = w
    · subst hv
      simp only [State.At, State.executing, Function.update_self]
      cases hworker : s.workers v <;> simp [Worker.waiting]
    · simp only [State.At, State.executing, Function.update_of_ne hv]
  | _ => exact Iff.rfl

theorem stopped_executing {s : State} {v w : ℕ} {call : Call} {op : Statement} :
    (s.executing w op).workers v = .stopped call ↔ s.workers v = .stopped call := by
  cases op with
  | insertSettlement new =>
    by_cases hv : v = w
    · subst hv
      simp only [State.executing, Function.update_self]
      cases hworker : s.workers v <;> simp [Worker.waiting]
    · simp only [State.executing, Function.update_of_ne hv]
  | _ => exact Iff.rfl

@[simp] theorem executing_db {s : State} {w : ℕ} {op : Statement} :
    (s.executing w op).db = s.db := by
  cases op <;> rfl

/-- A worker that executes a statement is inserting if it was, or if it has just inserted. -/
theorem inserting_executing {s : State} {v w : ℕ} {op : Statement}
    (h : (s.executing w op).Inserting v new) :
    s.Inserting v new ∨ v = w ∧ op.Inserts ∧ s.At w (.insertReserved new) := by
  cases op with
  | insertSettlement new' =>
    obtain ⟨call, next, hrunning⟩ := h
    by_cases hv : v = w
    · subst hv
      simp only [State.executing, Function.update_self] at hrunning
      cases hworker : s.workers v with
      | running call' program pending =>
        rw [hworker] at hrunning
        cases hrunning
        exact .inr ⟨rfl, trivial, call, next, pending, hworker⟩
      | _ =>
        rw [hworker] at hrunning
        cases hrunning
    · simp only [State.executing, Function.update_of_ne hv] at hrunning
      exact .inl ⟨call, next, hrunning⟩
  | _ => exact .inl h

/-- **Every step keeps the invariant.** -/
theorem Interleaved.step (hs : Interleaved settings s) (h : InterleavedStep settings law s s') :
    Interleaved settings s' := by
  cases h with
  | @opens w t start hat hstart hnone =>
    refine ⟨hs.isolated.begin start, fun v x hx => ?_, fun v x hx => ?_, fun v new hinserting => ?_⟩
    · obtain ⟨rfl, rfl⟩ | ⟨-, hx⟩ := Statements.Isolated.of_update_some hx
      · exact hstart
      · exact hs.started v x hx
    · obtain ⟨rfl, rfl⟩ | ⟨-, hx⟩ := Statements.Isolated.of_update_some hx
      · exact .inl hat
      · exact hs.present v x hx
    · obtain ⟨x, hx, hheld⟩ := hs.inserting v new hinserting
      have hv : v ≠ w := by
        rintro rfl
        rw [hnone] at hx
        cases hx
      exact ⟨x, (Function.update_of_ne hv _ _).trans hx, hheld⟩
  | @executes w t start op next writes held reply changes locks hat hx hanswers hfree =>
    have hstarted := hs.started w _ hx
    refine ⟨?_, fun v x hx' => ?_, fun v x hx' => ?_, fun v new hinserting => ?_⟩
    · rw [executing_db]
      exact hs.isolated.answer hx hanswers hfree
    · obtain ⟨rfl, rfl⟩ | ⟨-, hx'⟩ := Statements.Isolated.of_update_some hx'
      · exact hstarted
      · exact hs.started v x hx'
    · simp only [at_executing, stopped_executing]
      obtain ⟨rfl, rfl⟩ | ⟨-, hx'⟩ := Statements.Isolated.of_update_some hx'
      · exact .inl hat
      · exact hs.present v x hx'
    · by_cases hv : v = w
      · subst hv
        refine ⟨_, Function.update_self _ _ _, ?_⟩
        rcases inserting_executing hinserting with hold | ⟨-, hop, hat'⟩
        · obtain ⟨x, hx', hpkey, hkey⟩ := hs.inserting v new hold
          obtain rfl := Option.some.inj (hx.symm.trans hx')
          exact ⟨.inl hpkey, .inl hkey⟩
        · obtain ⟨h, hreach⟩ := hs.isolated.reaches v _ hx
          obtain ⟨-, new', rfl, rfl⟩ := first_of_inserts (hs.started v _ hx) hreach.path hop
          obtain ⟨call, next', pending, hworker⟩ := hat
          obtain ⟨call', next'', pending', hworker'⟩ := hat'
          rw [hworker] at hworker'
          cases hworker'
          cases hanswers with
          | insertSettlement => exact ⟨.inr (.inl rfl), .inr (.inr (.inl rfl))⟩
      · rcases inserting_executing hinserting with hold | ⟨heq, -⟩
        · obtain ⟨x, hx', hheld⟩ := hs.inserting v new hold
          exact ⟨x, (Function.update_of_ne hv _ _).trans hx', hheld⟩
        · exact absurd heq hv
  | @commits w call t next pending start reply writes held acknowledged hworker hx =>
    exact hs.ended rfl (fun _ _ heq => by cases heq) (hs.isolated.commit hx)
  | rollsBack hworker hx hraises =>
    exact hs.ended rfl (fun _ _ heq => by cases heq) hs.isolated.close
  | loses hworker hstart => exact hs.ended rfl (fun _ _ heq => by cases heq) hs.isolated.close
  | @closes w call hstopped =>
    refine hs.ended (Function.update_eq_self _ _).symm (fun call program heq => ?_)
      hs.isolated.close
    rw [hstopped] at heq
    cases heq
  | @serves service hstep hstays =>
    refine ⟨?_, hs.started, fun v x hx => ?_, fun v new hinserting => ?_⟩
    · rw [db_of_serves hstep hstays]
      exact hs.isolated
    · have hmoves := hstep.moves v
      rcases hs.present v x hx with hat | ⟨call, hstopped⟩
      · refine (hstays v x.kind hat (by simp [hs.started v x hx])).imp (fun hsame => ?_) id
        simpa only [State.At, hsame] using hat
      · rw [hstopped] at hmoves
        generalize service.workers v = worker at hmoves ⊢
        cases hmoves
        exact .inr ⟨call, rfl⟩
    · obtain ⟨call, next, hrunning⟩ := hinserting
      -- the worker was at its insert before the step
      have hat : s.service.At v (.insertReserved new) := by
        have hmoves := hstep.moves v
        generalize hworker : s.service.workers v = worker at hmoves
        generalize service.workers v = worker' at hmoves hrunning
        cases hmoves with
        | stays => exact ⟨call, next, true, hworker.trans hrunning⟩
        | waits =>
          cases hrunning
          exact ⟨call, next, _, hworker⟩
        | _ => simp at hrunning
      rcases hstays v _ hat rfl with hsame | ⟨call', hstopped⟩
      · exact hs.inserting v new ⟨call, next, hsame ▸ hrunning⟩
      · rw [hrunning] at hstopped
        cases hstopped

theorem interleaved_of_reachable {start : Database → Prop}
    (h : (interleaved settings law start).Reachable s) : Interleaved settings s := by
  refine h.invariant (fun s hinit => ?_) fun s t _ hs hstep => hs.step hstep
  obtain ⟨⟨-, hidle, -⟩, hnone⟩ := hinit
  refine ⟨.empty hnone, fun w x hx => ?_, fun w x hx => ?_, fun w new hinserting => ?_⟩
  · simp [hnone] at hx
  · simp [hnone] at hx
  · obtain ⟨call, next, hrunning⟩ := hinserting
    rw [hidle] at hrunning
    cases hrunning

/-! ## Every run is a run of the system -/

/-- A statement is no step of the system, or the one where the worker begins to wait. -/
theorem Interleaved.executes (hs : Interleaved settings s) {t : Transaction} {start : Sql t.Reply}
    {op : Statement} {next : Except ServiceError op.Reply → Sql t.Reply} {writes : List Change}
    {held : Set Resource} {reply : op.Reply} {changes : List Change} {locks : Set Resource}
    (hat : s.service.At w t) (hx : s.table w = some ⟨t, start, .perform op next, writes, held⟩)
    (hanswers : SqlAnswers (sqlView s.service.db writes) op reply changes locks)
    (hfree : Statements.Free s.table w locks) :
    s.service.executing w op = s.service ∨
      Step settings law s.service (s.service.executing w op) := by
  by_cases hop : op.Inserts
  · obtain ⟨h, hreach⟩ := hs.isolated.reaches w _ hx
    obtain ⟨rfl, new, rfl, rfl⟩ := first_of_inserts (hs.started w _ hx) hreach.path hop
    obtain rfl := hreach.writes_nil
    obtain ⟨call, next', pending, hworker⟩ := hat
    simp only [State.executing, hworker, Worker.waiting]
    cases pending with
    | true =>
      left
      rw [← hworker, Function.update_eq_self]
    | false =>
      right
      cases hanswers with
      | insertSettlement hrow hinsert =>
        have hblocked : ¬ s.service.Blocked w (.insertReserved new) :=
          hs.not_blocked_of_free hfree (.inl rfl) (.inr (.inl rfl))
        exact .wait hworker (.inserts hblocked hrow hinsert)
  · left
    cases op with
    | insertSettlement new => exact absurd trivial hop
    | _ => rfl

/-- What a transaction has run to is what it does alone, where it is. -/
theorem Interleaved.run (hs : Interleaved settings s) (hx : s.table w = some x)
    {outcome : Except ServiceError (x.kind.Reply × List Change)}
    (hends : sql.Ends s.service.db x.rest x.writes outcome) :
    ∃ clock locked,
      x.kind.run settings clock locked s.service.db = committed s.service.db outcome := by
  obtain ⟨h, hreach⟩ := hs.isolated.reaches w x hx
  exact Transaction.run_of_ends (hs.started w x hx) (hreach.ends hends)

/-- **A step is no step of the system, or one.** -/
theorem Interleaved.simulates (hs : Interleaved settings s)
    (h : InterleavedStep settings law s s') :
    s'.service = s.service ∨ Step settings law s.service s'.service := by
  cases h with
  | opens hat hstart hnone => exact .inl rfl
  | executes hat hx hanswers hfree => exact hs.executes hat hx hanswers hfree
  | commits acknowledged hworker hx =>
    right
    obtain ⟨clock, locked, hrun⟩ := hs.run hx rfl
    exact .advance hworker (.commits acknowledged (hs.not_blocked_of_ended hx nofun) hrun)
  | @rollsBack w call pending error x next hworker hx hraises =>
    right
    have hends : sql.Ends s.service.db x.rest x.writes (.error error) := by
      cases hraises with
      | raised => rfl
      | fails hfails => exact .inr ⟨_, _, hfails, rfl⟩
    obtain ⟨clock, locked, hrun⟩ := hs.run hx hends
    exact .advance hworker (.rollsBack (hs.not_blocked_of_raises hx hraises) hrun)
  | loses hworker => exact .inr (.advance hworker .fails)
  | closes hstopped => exact .inl rfl
  | serves hstep hstays => exact .inr hstep

/-- **Transactions are atomic.**  Whatever is reached with the statements of the
transactions interleaved, is reached with each transaction taking effect in one step. -/
theorem atomic_of_reachable {start : Database → Prop}
    (h : (interleaved settings law start).Reachable s) :
    (system settings law start).Reachable s.service := by
  induction h with
  | init hinit => exact .init hinit.1
  | step hreach hstep ih =>
    rcases (interleaved_of_reachable hreach).simulates hstep with hsame | hstep'
    · rwa [hsame]
    · exact .step ih hstep'

end Invariant

/-! ## A run with two transactions open -/

section Sample
variable {start : Database → Prop}

/-- A worker goes on that is not at a transaction that locks. -/
theorem run_serve {settings : Settings} {s : InterleavedState} {service : State} {worker : Worker}
    (h : (interleaved settings .contract start).Reachable s) (w : ℕ)
    (hstep : Step settings .contract s.service service)
    (hworkers : service.workers = update s.service.workers w worker)
    (hnone : ∀ t, s.service.At w t → t.statements settings = none) :
    (interleaved settings .contract start).Reachable { s with service } := by
  refine .step h (.serves hstep fun v t hat hsome => ?_)
  have hv : v ≠ w := by
    rintro rfl
    rw [hnone t hat] at hsome
    cases hsome
  left
  rw [hworkers, Function.update_of_ne hv]

/-- A worker opens its transaction while nobody has locked anything. -/
theorem run_open {settings : Settings} {s : InterleavedState} {t : Transaction}
    {program : Sql t.Reply}
    (h : (interleaved settings .contract start).Reachable s) (w : ℕ) (hat : s.service.At w t)
    (hprogram : t.statements settings = some program) (hnone : s.table w = none)
    (hfree : ∀ locks, Statements.Free s.table w locks) :
    (interleaved settings .contract start).Reachable
        { s with table := update s.table w (some ⟨t, program, program, [], ∅⟩) } ∧
      ∀ locks, Statements.Free (update s.table w (some ⟨t, program, program, [], ∅⟩)) w locks :=
  ⟨.step h (.opens hat hprogram hnone),
    fun locks => Statements.Isolated.free_of_update (hfree locks)⟩

theorem run_execute {settings : Settings} {s : InterleavedState} {w : ℕ} {t : Transaction}
    {program : Sql t.Reply} {op : Statement} {next : Except ServiceError op.Reply → Sql t.Reply}
    {writes : List Change} {held : Set Resource}
    (h : (interleaved settings .contract start).Reachable s ∧
      ∀ locks, Statements.Free s.table w locks)
    (hat : s.service.At w t)
    (hx : s.table w = some ⟨t, program, .perform op next, writes, held⟩) (reply : op.Reply)
    {changes : List Change} {locks : Set Resource}
    (hanswers : SqlAnswers (sqlView s.service.db writes) op reply changes locks) :
    (interleaved settings .contract start).Reachable {
        service := s.service.executing w op
        table := update s.table w
          (some ⟨t, program, next (.ok reply), changes ++ writes, held ∪ locks⟩) } ∧
      ∀ locks', Statements.Free (update s.table w
        (some ⟨t, program, next (.ok reply), changes ++ writes, held ∪ locks⟩)) w locks' :=
  ⟨.step h.1 (.executes hat hx hanswers (h.2 locks)),
    fun locks' => Statements.Isolated.free_of_update (h.2 locks')⟩

/-- The background pass has a transaction open, and worker 0 is about to insert the
settlement. -/
theorem sample_before_insert (hstart : start sampleStart) :
    ∃ s, (interleaved sampleSettings .contract start).Reachable s ∧ s.service.db = sampleStart ∧
      s.table 0 = none ∧ (s.table 1).isSome ∧ (∀ locks, Statements.Free s.table 0 locks) ∧
      ∃ next, s.service.workers 0 =
        .running sampleCreate (.perform (.transaction (.insertReserved sampleNew)) next) false := by
  have h0 : (interleaved sampleSettings .contract start).Reachable
      ⟨⟨⟨sampleStart, 0, fun _ => none, [], []⟩, fun _ => .idle⟩, fun _ => none⟩ :=
    .init ⟨⟨hstart, fun _ => rfl, rfl, rfl, rfl⟩, fun _ => rfl⟩
  have hcreate : Startable [] sampleCreate [] := .request fun _ heq => by cases heq
  have hpass : Startable [] (.runReconciliationOnce 50) [] := .request fun _ heq => by cases heq
  have h1 := run_serve h0 0 (.start rfl hcreate) rfl
    (by rintro t ⟨call, next, pending, hworker⟩; cases hworker)
  have hfind : (Transaction.findByKey "ada" "key-1").run sampleSettings (fun _ => 0)
      (fun _ => false) sampleStart = .ok (none, sampleStart) := rfl
  have h2 := run_serve h1 0
    (.advance rfl (.commits true (not_blocked fun _ heq => by cases heq) hfind)) rfl
    (by rintro t ⟨call, next, pending, hworker⟩; cases hworker; rfl)
  have h3 := run_serve h2 0
    (.advance rfl (.quotes (.ok sampleQuote) fun _ heq => by cases heq)) rfl
    (by rintro t ⟨call, next, pending, hworker⟩; cases hworker)
  have h4 := run_serve h3 0 (.advance rfl (.draws 7)) rfl
    (by rintro t ⟨call, next, pending, hworker⟩; cases hworker)
  have h5 := run_serve h4 1 (.start rfl hpass) rfl
    (by rintro t ⟨call, next, pending, hworker⟩; cases hworker)
  have h6 := run_open (t := .claimDueBatch 50) h5 1 ⟨_, _, _, rfl⟩ rfl rfl
    fun _ _ _ _ hy => by cases hy
  have h7 := run_execute h6 ⟨_, _, _, rfl⟩ rfl 0 (.now 0)
  refine ⟨_, h7.1, rfl, rfl, rfl, fun locks v y hv hy => ?_, _, rfl⟩
  obtain ⟨-, rfl⟩ | ⟨-, hy⟩ := Statements.Isolated.of_update_some hy
  · simp
  · obtain ⟨-, rfl⟩ | ⟨-, hy⟩ := Statements.Isolated.of_update_some hy
    · simp
    · cases hy

/-- The settlement is inserted while the background pass has its transaction open. -/
theorem sample_interleaved (hstart : start sampleStart) :
    ∃ s, (interleaved sampleSettings .contract start).Reachable s ∧ s.service.db = sampleReserved ∧
      (s.table 1).isSome := by
  obtain ⟨⟨⟨⟨db, clock, provider, tasks, trace⟩, workers⟩, table⟩, h0, rfl, hnone, hopen, hfree,
    next, hworker⟩ := sample_before_insert hstart
  have h1 := run_open h0 0 ⟨_, _, _, hworker⟩ rfl hnone hfree
  have h2 := run_execute h1 ⟨_, _, _, hworker⟩ rfl (sampleRow .reserved)
    (.insertSettlement sample_row rfl)
  have hat : (State.executing ⟨⟨sampleStart, clock, provider, tasks, trace⟩, workers⟩ 0
      (.insertSettlement sampleNew)).At 0 (.insertReserved sampleNew) :=
    at_executing.mpr ⟨_, _, _, hworker⟩
  have h3 := run_execute h2 hat rfl _ (.lockAccounts rfl)
  have h4 := run_execute h3 hat rfl () (.insertJournal rfl rfl)
  have h5 := run_execute h4 hat rfl () (.updateBalance (by decide))
  have h6 := run_execute h5 hat rfl () (.updateBalance (by decide))
  have hworker' : (State.executing ⟨⟨sampleStart, clock, provider, tasks, trace⟩, workers⟩ 0
      (.insertSettlement sampleNew)).workers 0 =
        .running sampleCreate (.perform (.transaction (.insertReserved sampleNew)) next) true := by
    show update workers 0 (workers 0).waiting 0 = _
    rw [Function.update_self]
    exact congrArg Worker.waiting hworker
  have h7 := TransitionSystem.Reachable.step h6.1 (.commits true hworker' rfl)
  exact ⟨_, h7, rfl, hopen⟩

theorem atomic_of_sample : ∃ s : InterleavedState, s.service.db = sampleReserved ∧
    (s.table 1).isSome ∧
    (system sampleSettings .contract Database.Unused).Reachable s.service := by
  obtain ⟨s, hs, hdb, hopen⟩ := sample_interleaved sampleStart_unused
  exact ⟨s, hdb, hopen, atomic_of_reachable hs⟩

end Sample

end SettlementRouter
