import Mathlib.Logic.Function.Basic
import SettlementRouter.Runs
import SettlementRouter.Service

/-! # The running system

Any number of workers run calls of the service against one database and one
payout provider, interleaved at every operation.  A worker may stop for good
wherever it is, and any operation on the database may fail; a commit may take
effect although the worker is told it failed.

An operation that waits takes more than one step: a worker becomes `pending`
when its insert holds the entries of the unique indexes, or when its call to the
provider has gone out.  A new settlement that conflicts with the uncommitted one
of another worker waits until that one commits or rolls back (`Blocked`).

Every worker runs one call and is not used again.  What happened is kept in a
trace, the last event first.
-/
namespace SettlementRouter

open Function (update)

/-- A worker, with the call it was given. -/
inductive Worker where
  | idle
  | running (call : Call) (program : Service Response) (pending : Bool)
  | stopped (call : Call)

/-- What a worker did in one step of the system. -/
inductive Action where
  | started (call : Call)
  /-- A call to the provider went out. -/
  | called (op : Operation)
  /-- A transaction ended with this outcome; the worker saw it if acknowledged. -/
  | ran (t : Transaction) (outcome : Except ServiceError t.Reply) (acknowledged : Bool)
  /-- An operation ended, and no transaction was committed. -/
  | answered (op : Operation) (outcome : Except ServiceError op.Reply)

/-- What happened, and who did it. -/
structure Event where
  worker : ℕ
  action : Action

/-- The operation a provider keeps for a settlement id. -/
structure ProviderOperation where
  outcome : ProviderLookup
  amountUsd : Units
  targetCurrency : Currency
  quotedAmount : Units

/-- What the workers share. -/
structure Shared where
  db : Database
  clock : Time
  provider : UUID → Option ProviderOperation
  /-- The claims of batches whose tasks have not started. -/
  tasks : List PayoutClaim
  trace : List Event

/-- A state of the running system. -/
structure State extends Shared where
  workers : ℕ → Worker

/-- The outcome the provider has recorded for an id. -/
def Shared.recorded (s : Shared) (id : UUID) : Option ProviderLookup :=
  (s.provider id).map (·.outcome)

/-- The state with one more event. -/
def Shared.log (s : Shared) (w : ℕ) (action : Action) : Shared :=
  { s with trace := ⟨w, action⟩ :: s.trace }

/-- Two settlements cannot both be inserted. -/
def NewSettlement.Conflicts (a b : NewSettlement) : Prop :=
  a.id = b.id ∨ a.ownerId = b.ownerId ∧ a.idempotencyKey = b.idempotencyKey

/-- Worker `v` has inserted `new` in a transaction it has not ended. -/
def State.Inserting (s : State) (v : ℕ) (new : NewSettlement) : Prop :=
  ∃ call next, s.workers v =
    .running call (.perform (.transaction (.insertReserved new)) next) true

/-- The transaction inserts a settlement that conflicts with an uncommitted one
of another worker. -/
def State.Blocked (s : State) (w : ℕ) (t : Transaction) : Prop :=
  ∃ new row, t = .insertReserved new ∧ new.row = .ok row ∧
    ∃ v other, v ≠ w ∧ s.Inserting v other ∧ new.Conflicts other

section Steps
variable (settings : Settings) (law : ProviderLaw)

/-- Worker `w` performs an operation, or a part of it: there is no outcome yet
when the worker goes on waiting. -/
inductive Performs (s : State) (w : ℕ) : (op : Operation) → (pending : Bool) →
    Option (Except ServiceError op.Reply) → Shared → Prop
  | commits {t pending clock locked reply db} (acknowledged : Bool) :
      ¬ s.Blocked w t → t.run settings clock locked s.db = .ok (reply, db) →
      Performs s w (.transaction t) pending
        (some (if acknowledged then .ok reply else .error .databaseError))
        { s.log w (.ran t (.ok reply) acknowledged) with db }
  | rollsBack {t pending clock locked error} :
      ¬ s.Blocked w t → t.run settings clock locked s.db = .error error →
      Performs s w (.transaction t) pending (some (.error error))
        (s.log w (.ran t (.error error) true))
  | fails {t pending} :
      Performs s w (.transaction t) pending (some (.error .databaseError))
        (s.log w (.answered (.transaction t) (.error .databaseError)))
  | inserts {new row db} :
      ¬ s.Blocked w (.insertReserved new) → new.row = .ok row →
      insertSettlement s.db row = .ok db →
      Performs s w (.transaction (.insertReserved new)) false none s.toShared
  | quotes {targetCurrency pending} (outcome : Except ServiceError RouteQuote) :
      (∀ error, outcome = .error error → error = .routeNotFound) →
      Performs s w (.quote targetCurrency) pending (some outcome)
        (s.log w (.answered (.quote targetCurrency) outcome))
  | draws {pending} (id : UUID) :
      Performs s w .uuid4 pending (some (.ok id)) (s.log w (.answered .uuid4 (.ok id)))
  | submits {id amountUsd targetCurrency quotedAmount} :
      Performs s w (.initiate id amountUsd targetCurrency quotedAmount) false none
        (s.log w (.called (.initiate id amountUsd targetCurrency quotedAmount)))
  | submitted {id amountUsd targetCurrency quotedAmount} (answer : Option ProviderResult) :
      law.initiate (s.recorded id) answer →
      Performs s w (.initiate id amountUsd targetCurrency quotedAmount) true
        (some (answered answer))
        (s.log w (.answered (.initiate id amountUsd targetCurrency quotedAmount) (answered answer)))
  | asks {id} :
      Performs s w (.lookup id) false none (s.log w (.called (.lookup id)))
  | asked {id} (answer : Option ProviderLookup) :
      law.lookup (s.recorded id) answer →
      Performs s w (.lookup id) true (some (answered answer))
        (s.log w (.answered (.lookup id) (answered answer)))
  /-- The tasks start whenever they get to run, and an exception of one of them
  may be raised here. -/
  | gathers {claims pending} (outcome : Except ServiceError Unit) :
      Performs s w (.gather claims) pending (some outcome)
        { s.log w (.answered (.gather claims) outcome) with tasks := s.tasks ++ claims }

/-- The call can start, and leaves these tasks to be started. -/
inductive Startable : List PayoutClaim → Call → List PayoutClaim → Prop
  | request {tasks call} : (∀ claim, call ≠ .reconcileClaim claim) → Startable tasks call tasks
  | task {before after claim} :
      Startable (before ++ claim :: after) (.reconcileClaim claim) (before ++ after)

/-- One step of the system. -/
inductive Step : State → State → Prop
  | start {s : State} {w call tasks} : s.workers w = .idle → Startable s.tasks call tasks →
      Step s { s.log w (.started call) with
        tasks
        workers := update s.workers w (.running call (call.program settings) false) }
  | wait {s : State} {w call op next pending shared} :
      s.workers w = .running call (.perform op next) pending →
      Performs settings law s w op pending none shared →
      Step s { shared with
        workers := update s.workers w (.running call (.perform op next) true) }
  | advance {s : State} {w call op next pending outcome shared} :
      s.workers w = .running call (.perform op next) pending →
      Performs settings law s w op pending (some outcome) shared →
      Step s { shared with
        workers := update s.workers w (.running call (next outcome) false) }
  | stop {s : State} {w call program pending} :
      s.workers w = .running call program pending →
      Step s { s with workers := update s.workers w (.stopped call) }
  | tick {s : State} {now} : s.clock ≤ now → Step s { s with clock := now }
  /-- The provider records an operation it was asked for, sooner or later. -/
  | record {s : State} {w id amountUsd targetCurrency quotedAmount} (outcome : ProviderLookup) :
      ⟨w, .called (.initiate id amountUsd targetCurrency quotedAmount)⟩ ∈ s.trace →
      s.provider id = none →
      Step s { s with
        provider := update s.provider id
          (some ⟨outcome, amountUsd, targetCurrency, quotedAmount⟩) }

/-- The system, started on a database that meets `start`. -/
def system (start : Database → Prop) : TransitionSystem State where
  init s := start s.db ∧ (∀ w, s.workers w = .idle) ∧ s.provider = (fun _ => none) ∧
    s.tasks = [] ∧ s.trace = []
  step := Step settings law

end Steps

end SettlementRouter
