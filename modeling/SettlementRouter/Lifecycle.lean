import SettlementRouter.Models

/-! # The life of one settlement

What the service does to a settlement, seen from that settlement alone: its
status, the state and token of its payout attempt, and how many journals of each
event it has.  A `Move` is one change of these, labelled by what was done: a
reservation, a claim that issues a token, or the application of an outcome
under a token.

A settlement that started out unreserved is always `Sound`: its status tells
which journals there are and whether there is an attempt.  The database is a
family of such machines, one for each id, and every write of the service moves
one of them (`Write.move`, in `Writes`).
-/
namespace SettlementRouter

/-- What a write does to its settlement. -/
inductive WriteKind where
  | reserve
  /-- A claim, which issues this token. -/
  | claim (token : ℕ)
  /-- The application of an outcome, under this token. -/
  | finalize (token : ℕ) (status : SettlementStatus)

/-- A settlement as its journals and its attempt show it. -/
structure Lifecycle where
  status : Option SettlementStatus
  attempt : Option (AttemptState × ℕ)
  journals : JournalEvent → ℕ

namespace Lifecycle

/-- One more journal of this event. -/
def addJournal (journals : JournalEvent → ℕ) (event : JournalEvent) : JournalEvent → ℕ :=
  fun e => if e = event then journals e + 1 else journals e

/-- The token of the attempt, zero without one. -/
def token (l : Lifecycle) : ℕ := (l.attempt.map (·.2)).getD 0

/-- One change of a settlement.  Each is a write of the service, under the conditions the
write checks. -/
inductive Move : WriteKind → Lifecycle → Lifecycle → Prop
  | reserve {attempt journals} : journals .reserve = 0 →
      Move .reserve ⟨none, attempt, journals⟩
        ⟨some .reserved, attempt, addJournal journals .reserve⟩
  | submit {journals} :
      Move (.claim 1) ⟨some .reserved, none, journals⟩
        ⟨some .payoutInProgress, some (.submitting, 1), journals⟩
  | adopt {status journals} : status.InFlight →
      Move (.claim 1) ⟨some status, none, journals⟩ ⟨some status, some (.claimed, 1), journals⟩
  | claim {status state token journals} : status.InFlight →
      Move (.claim (token + 1)) ⟨some status, some (state, token), journals⟩
        ⟨some status, some (.claimed, token + 1), journals⟩
  | pend {status state token journals} : ¬ status.Terminal →
      Move (.finalize token .pendingReconciliation) ⟨some status, some (state, token), journals⟩
        ⟨some .pendingReconciliation, some (.reconciling, token), journals⟩
  | consume {status state token journals} : ¬ status.Terminal → journals .consume = 0 →
      Move (.finalize token .success) ⟨some status, some (state, token), journals⟩
        ⟨some .success, some (.completed, token), addJournal journals .consume⟩
  | release {status state token journals} : ¬ status.Terminal → journals .release = 0 →
      Move (.finalize token .failed) ⟨some status, some (state, token), journals⟩
        ⟨some .failed, some (.completed, token), addJournal journals .release⟩

/-- The journals of a settlement: one reservation, and at most one of the two
events that end it. -/
def HasJournals (l : Lifecycle) (reserve consume release : ℕ) : Prop :=
  l.journals .reserve = reserve ∧ l.journals .consume = consume ∧ l.journals .release = release

/-- The status tells which journals and what attempt there are. -/
def Sound (l : Lifecycle) : Prop :=
  match l.status with
  | none => l.attempt = none ∧ l.HasJournals 0 0 0
  | some .reserved => l.attempt = none ∧ l.HasJournals 1 0 0
  | some .payoutInProgress =>
    (∃ state token, l.attempt = some (state, token) ∧ state ≠ .completed) ∧
      l.HasJournals 1 0 0
  | some .pendingReconciliation =>
      (∃ state token, l.attempt = some (state, token) ∧ state ≠ .completed) ∧ l.HasJournals 1 0 0
  | some .success => (∃ token, l.attempt = some (.completed, token)) ∧ l.HasJournals 1 1 0
  | some .failed => (∃ token, l.attempt = some (.completed, token)) ∧ l.HasJournals 1 0 1

/-- A settlement that was never claimed has no attempt. -/
def Unclaimed (l : Lifecycle) : Prop :=
  l.status = none ∨ l.status = some .reserved → l.attempt = none

variable {kind : WriteKind} {l l' : Lifecycle}

theorem Move.sound (h : Move kind l l') (hl : l.Sound) : l'.Sound := by
  cases h with
  | reserve hfirst => simp_all [Sound, HasJournals, addJournal]
  | submit => simp_all [Sound, HasJournals]
  | adopt hs => rcases hs with rfl | rfl <;> simp_all [Sound]
  | claim hs => rcases hs with rfl | rfl <;> simp_all [Sound, HasJournals]
  | @pend status _ _ _ hs =>
    cases status <;> simp_all [Sound, HasJournals, SettlementStatus.Terminal]
  | @consume status _ _ _ hs =>
    cases status <;> simp_all [Sound, HasJournals, SettlementStatus.Terminal, addJournal]
  | @release status _ _ _ hs =>
    cases status <;> simp_all [Sound, HasJournals, SettlementStatus.Terminal, addJournal]

theorem Move.unclaimed (h : Move kind l l') (hl : l.Unclaimed) : l'.Unclaimed := by
  cases h with
  | reserve _ => exact fun _ => hl (Or.inl rfl)
  | adopt hs => rcases hs with rfl | rfl <;> simp [Unclaimed]
  | claim hs => rcases hs with rfl | rfl <;> simp [Unclaimed]
  | _ => simp [Unclaimed]

/-- **A claim issues a token above every earlier one.** -/
theorem Move.claim_token {token : ℕ} (h : Move (.claim token) l l') :
    l.token < token ∧ l'.token = token := by
  cases h <;> simp [Lifecycle.token]

/-- Only the latest token applies an outcome. -/
theorem Move.finalize_token {token : ℕ} {status : SettlementStatus}
    (h : Move (.finalize token status) l l') : l.token = token ∧ l'.token = token := by
  cases h <;> exact ⟨rfl, rfl⟩

end Lifecycle

end SettlementRouter
