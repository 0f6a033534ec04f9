import SettlementRouter.CallConduct
import SettlementRouter.JournalEvents
import SettlementRouter.Replies

/-! # Creation is idempotent

The optimistic lookup of `create` and its insert are two transactions, and any
number of calls for the same key may be between them.  One insert commits, and
the others lose to it on the unique index or wait for it and go on if it is
rolled back; a call that loses reloads the winner.  Whatever the order, a call
goes on only with a row that has its own fingerprint (`Matched`), and there is
one row for each key (`KeyUnique`), so a call whose fingerprint differs from
that of the row has no effect.
-/
namespace SettlementRouter

/-- No two settlements have the same owner and key. -/
def Database.KeyUnique (db : Database) : Prop :=
  ∀ id id' row row', db.settlements.lookup id = some row → db.settlements.lookup id' = some row' →
    row.ownerId = row'.ownerId → row.idempotencyKey = row'.idempotencyKey → id = id'

section Keys
variable {db db' : Database} {id id' : UUID} {kind : WriteKind}

/-- Where a row comes from: it was there before, or it was just reserved and its key was free. -/
theorem Write.origin (h : Write id kind db db') {row' : Settlement id'}
    (hrow' : db'.settlements.lookup id' = some row') :
    (∃ status, db.settlements.lookup id' = some (row'.withStatus status)) ∨
      id' = id ∧ findByKey db row'.ownerId row'.idempotencyKey = none := by
  by_cases hid : id' = id
  · subst hid
    cases h with
    | reserve _ hkey _ hposted =>
      rw [hposted.settlements_eq, AList.lookup_insert] at hrow'
      cases hrow'
      exact Or.inr ⟨rfl, hkey⟩
    | submit hrow =>
      rw [AList.lookup_insert] at hrow'
      cases hrow'
      exact Or.inl ⟨_, hrow⟩
    | adopt => exact Or.inl ⟨_, hrow'⟩
    | claim => exact Or.inl ⟨_, hrow'⟩
    | finalize hrow =>
      rw [AList.lookup_insert] at hrow'
      cases hrow'
      exact Or.inl ⟨_, hrow⟩
  · rw [(h.rows_of_ne hid).1] at hrow'
    exact Or.inl ⟨row'.status, hrow'⟩

/-- **The unique index**: a write keeps keys unique. -/
theorem Write.keyUnique (h : Write id kind db db') (hdb : db.KeyUnique) : db'.KeyUnique := by
  intro id₁ id₂ row₁ row₂ hrow₁ hrow₂ howner hkey
  rcases h.origin hrow₁ with ⟨status₁, hold₁⟩ | ⟨rfl, hnone₁⟩
  · rcases h.origin hrow₂ with ⟨status₂, hold₂⟩ | ⟨rfl, hnone₂⟩
    · exact hdb id₁ id₂ _ _ hold₁ hold₂ howner hkey
    · exact absurd ⟨howner, hkey⟩ (findByKey_eq_none.mp hnone₂ id₁ _ hold₁)
  · rcases h.origin hrow₂ with ⟨status₂, hold₂⟩ | ⟨rfl, -⟩
    · exact absurd ⟨howner.symm, hkey.symm⟩ (findByKey_eq_none.mp hnone₁ id₂ _ hold₂)
    · rfl

theorem keyUnique_of_reachable {settings : Settings} {law : ProviderLaw} {s : State}
    (h : (system settings law Database.Unused).Reachable s) : s.db.KeyUnique := by
  refine h.invariant (I := fun s => s.db.KeyUnique) (fun s hinit => ?_) ?_
  · intro id id' row row' hrow
    rw [hinit.1.settlements_eq] at hrow
    cases hrow
  · intro s s' _ hs (hstep : Step settings law s s')
    have hwrites := hstep.writes
    generalize s'.db = db at hwrites ⊢
    induction hwrites with
    | refl => exact hs
    | tail _ hwrite ih =>
      obtain ⟨id, kind, hw⟩ := hwrite
      exact hw.keyUnique ih

/-- A key that is taken is found. -/
theorem findByKey_isSome {ownerId idempotencyKey : String} {row : Settlement id}
    (hrow : db.settlements.lookup id = some row) (howner : row.ownerId = ownerId)
    (hkey : row.idempotencyKey = idempotencyKey) :
    (findByKey db ownerId idempotencyKey).isSome := by
  rw [← Option.ne_none_iff_isSome]
  intro hnone
  exact findByKey_eq_none.mp hnone id row hrow ⟨howner, hkey⟩

theorem Database.Extends.findByKey_isSome {ownerId idempotencyKey : String}
    (hdb : db.Extends db') (h : (findByKey db ownerId idempotencyKey).isSome) :
    (findByKey db' ownerId idempotencyKey).isSome := by
  obtain ⟨row, hfound⟩ := Option.isSome_iff_exists.mp h
  obtain ⟨hrow, howner, hkey⟩ := findByKey_eq_some hfound
  obtain ⟨status, hrow'⟩ := hdb _ _ hrow
  exact SettlementRouter.findByKey_isSome hrow' howner hkey

theorem NewSettlement.row_error {new : NewSettlement} {error : ServiceError}
    (h : new.row = .error error) : error ≠ .integrityError .ownerIdempotencyKey := by
  unfold NewSettlement.row at h
  intro hcontra
  cases hcontra
  split at h
  · split at h
    · cases h
    · split at h
      · split at h <;> cases h
      · cases h
  · cases h

theorem applyPosting_error {account : Account} {side : PostingSide} {amount : Units}
    {error : ServiceError} (h : applyPosting account side amount = .error error) :
    error = .insufficientFunds := by
  unfold applyPosting at h
  split at h
  · cases h; rfl
  · cases h

/-- Posting does not touch the index of keys. -/
theorem post_error {row : Settlement id} {event : JournalEvent} {hevent : event ≠ .opening}
    {debitKey creditKey : String × AccountPurpose} {error : ServiceError}
    (h : post db row event hevent debitKey creditKey = .error error) :
    error ≠ .integrityError .ownerIdempotencyKey := by
  rintro rfl
  unfold post at h
  simp only [bind, Except.bind, throw, throwThe, MonadExceptOf.throw, pure, Except.pure] at h
  split at h
  · rename_i hlocked
    cases h
    unfold lockedAccounts at hlocked
    split at hlocked <;> cases hlocked
  · rename_i accounts hlocked
    by_cases hfunds : accounts.1.balance < row.amountUsd
    · rw [if_pos hfunds] at h
      cases h
    by_cases hfirst : 0 < db.journalCount id event
    · rw [if_neg hfunds, if_pos hfirst] at h
      cases h
    rw [if_neg hfunds, if_neg hfirst] at h
    cases hdebited : applyPosting accounts.1 .debit row.amountUsd with
    | error error' =>
      rw [hdebited] at h
      cases h
      cases applyPosting_error hdebited
    | ok debited =>
      cases hcredited : applyPosting accounts.2 .credit row.amountUsd with
      | error error' =>
        rw [hdebited, hcredited] at h
        cases h
        cases applyPosting_error hcredited
      | ok credited =>
        simp only [hdebited, hcredited] at h
        split at h <;> cases h

/-- An insert that loses on the index of keys has found its key taken. -/
theorem insertReserved_lost {new : NewSettlement}
    (h : insertReserved new db = .error (.integrityError .ownerIdempotencyKey)) :
    (findByKey db new.ownerId new.idempotencyKey).isSome := by
  unfold insertReserved at h
  cases hrow : new.row with
  | error error =>
    simp only [hrow, bind, Except.bind] at h
    cases h
    exact absurd rfl (NewSettlement.row_error hrow)
  | ok row =>
    obtain ⟨howner, hkey, -⟩ := NewSettlement.row_ok hrow
    simp only [hrow, bind, Except.bind] at h
    cases hinsert : insertSettlement db row with
    | error error =>
      simp only [hinsert] at h
      cases h
      unfold insertSettlement at hinsert
      split at hinsert
      · cases hinsert
      · split at hinsert
        · rwa [howner, hkey] at *
        · cases hinsert
    | ok db₁ =>
      simp only [hinsert] at h
      cases hreserve : reserve db₁ row with
      | error error =>
        simp only [hreserve] at h
        cases h
        exact absurd rfl (post_error hreserve)
      | ok db₂ =>
        simp only [hreserve] at h
        cases h

end Keys

/-! ## What a call knows of its key -/

/-- The event shows that the key is taken. -/
inductive Action.Takes : Action → String → String → Prop
  | inserted {new acknowledged} : Takes (.ran (.insertReserved new) (.ok ()) acknowledged)
      new.ownerId new.idempotencyKey
  | lost {new acknowledged} : Takes (.ran (.insertReserved new)
      (.error (.integrityError .ownerIdempotencyKey)) acknowledged) new.ownerId new.idempotencyKey

theorem isIdempotencyViolation_iff {constraint : Constraint} :
    isIdempotencyViolation constraint ↔ constraint = .ownerIdempotencyKey := by
  cases constraint <;> decide

section Runs
variable {settings : Settings} {law : ProviderLaw} {start : Database → Prop} {s s' : State}
  {e : Event} {w : ℕ} {id : UUID} {ownerId idempotencyKey fingerprint : String}
  {command : SettlementCreate} {earlier trace : List Event}

/-- **A key that was taken stays taken.** -/
theorem taken_of_takes (h : (system settings law start).Reachable s) (he : e ∈ s.trace)
    (htakes : e.action.Takes ownerId idempotencyKey) :
    (findByKey s.db ownerId idempotencyKey).isSome := by
  refine event_of_reachable (Q := fun e s => ∀ ownerId idempotencyKey,
    e.action.Takes ownerId idempotencyKey → (findByKey s.db ownerId idempotencyKey).isSome)
    (fun s s' e _ _ _ hhappens => ?_) (fun s s' e _ hstep hs ownerId idempotencyKey htakes =>
      hstep.writes.extends.findByKey_isSome (hs ownerId idempotencyKey htakes)) h e he _ _ htakes
  intro ownerId idempotencyKey htakes
  generalize s'.db = db at hhappens ⊢
  cases hhappens with
  | commits _ _ _ hrun =>
    cases htakes with
    | inserted =>
      obtain ⟨row, status, hnew, hrow⟩ := Transaction.run_reports hrun
      obtain ⟨howner, hkey, -⟩ := NewSettlement.row_ok hnew
      exact findByKey_isSome hrow howner hkey
  | rollsBack _ _ hrun =>
    cases htakes with
    | lost => exact insertReserved_lost hrun
  | starts => cases htakes
  | calls => cases htakes
  | answers => cases htakes

/-- A lookup that finds nothing comes before anything that takes the key. -/
theorem free_of_none (h : (system settings law start).Reachable s) :
    Trace.Throughout (fun e earlier => ∀ w ownerId idempotencyKey acknowledged,
      e = ⟨w, .ran (.findByKey ownerId idempotencyKey) (.ok none) acknowledged⟩ →
        ∀ e' ∈ earlier, ¬ e'.action.Takes ownerId idempotencyKey) s.trace := by
  refine throughout_of_reachable (fun s e db hreach _ hhappens => ?_) h
  rintro w ownerId idempotencyKey acknowledged rfl e' he' htakes
  have htaken := taken_of_takes hreach he' htakes
  cases hhappens with
  | commits _ _ _ hrun =>
    have hnone := congrArg Prod.fst (Except.ok.inj hrun)
    dsimp only at hnone
    rw [hnone] at htaken
    cases htaken

/-- The row of a matched settlement has the call's fingerprint. -/
theorem Matched.row (hmatched : Matched ownerId idempotencyKey fingerprint (history w earlier) id)
    (h : (system settings law start).Reachable s) (hsuffix : earlier <:+ s.trace) :
    ∃ row, s.db.settlements.lookup id = some row ∧ row.ownerId = ownerId ∧
      row.idempotencyKey = idempotencyKey ∧ row.requestFingerprint = fingerprint := by
  cases hmatched with
  | inserted hmem hid howner hkey hfp =>
    obtain ⟨row, status, hnew, hrow⟩ := reports_of_history h (mem_history_of_suffix hsuffix hmem)
    obtain ⟨howner', hkey', hfp', -⟩ := NewSettlement.row_ok hnew
    subst hid
    exact ⟨_, hrow, howner'.trans howner, hkey'.trans hkey, hfp'.trans hfp⟩
  | found hmem hid hfp =>
    obtain ⟨⟨status, hrow⟩, howner, hkey⟩ :=
      reports_of_history h (mem_history_of_suffix hsuffix hmem) _ rfl
    subst hid
    exact ⟨_, hrow, howner, hkey, hfp⟩

/-- There is a row for the key, and it has another fingerprint. -/
def Mismatched (db : Database) (ownerId idempotencyKey fingerprint : String) : Prop :=
  ∃ id row, db.settlements.lookup id = some row ∧ row.ownerId = ownerId ∧
    row.idempotencyKey = idempotencyKey ∧ row.requestFingerprint ≠ fingerprint

/-- **There is one row for a key**, so it cannot match and mismatch. -/
theorem not_mismatched (h : (system settings law Database.Unused).Reachable s)
    {row : Settlement id} (hrow : s.db.settlements.lookup id = some row)
    (howner : row.ownerId = ownerId) (hkey : row.idempotencyKey = idempotencyKey)
    (hfp : row.requestFingerprint = fingerprint) :
    ¬ Mismatched s.db ownerId idempotencyKey fingerprint := by
  rintro ⟨id', row', hrow', howner', hkey', hfp'⟩
  obtain rfl := keyUnique_of_reachable h id id' row row' hrow hrow' (howner.trans howner'.symm)
    (hkey.trans hkey'.symm)
  obtain rfl := Option.some.inj (hrow.symm.trans hrow')
  exact hfp' hfp

/-- The action calls the provider, or may change the database. -/
def Action.Effective : Action → Prop
  | .called op => op.External
  | .ran (.findByKey _ _) _ _ => False
  | .ran (.get _) _ _ => False
  | .ran _ (.ok _) _ => True
  | _ => False

theorem Happens.db_eq {db : Database} (h : Happens settings law s e db)
    (heffective : ¬ e.action.Effective) : db = s.db := by
  cases h with
  | @commits w call t next pending clock locked reply db acknowledged _ _ hrun =>
    cases t with
    | findByKey ownerId idempotencyKey =>
      cases hrun
      rfl
    | get settlementId => exact (run_get_ok hrun).1
    | _ => exact absurd trivial heffective
  | _ => rfl

/-- **A mismatched call has no effect.** -/
theorem not_effective (h : (system settings law Database.Unused).Reachable s)
    (hcall : ⟨w, .started (.create ownerId idempotencyKey command)⟩ ∈ s.trace)
    (hmismatch : Mismatched s.db ownerId idempotencyKey
      (requestFingerprint settings.sha256 ownerId command))
    {action : Action} (haction : ⟨w, action⟩ ∈ s.trace) : ¬ action.Effective := by
  intro heffective
  obtain ⟨earlier, hsuffix, hallows⟩ := (allows_of_reachable h).of_mem haction
  have hearlier : earlier <:+ s.trace := (List.suffix_cons _ _).trans hsuffix
  have hmatched : ∀ id, ¬ Matched ownerId idempotencyKey
      (requestFingerprint settings.sha256 ownerId command) (history w earlier) id := by
    intro id hmatched
    obtain ⟨row, hrow, howner, hkey, hfp⟩ := hmatched.row h hearlier
    exact not_mismatched h hrow howner hkey hfp hmismatch
  have hconduct : ∀ op, action.operation = some op → Allows settings
      (.create ownerId idempotencyKey command) (history w earlier) op := by
    intro op hop
    obtain ⟨call, hstarted, hallows⟩ := hallows op hop
    obtain rfl := started_unique h (hearlier.subset hstarted) hcall
    exact hallows
  -- all that a `create` does with an effect, but the insert, is for a row it has matched
  cases action with
  | started call => exact heffective
  | answered op outcome => exact heffective
  | called op =>
    cases hconduct op rfl with
    | submit hm => exact hmatched _ hm
    | lookup hclaimed => cases hclaimed
    | resubmit hclaimed => cases hclaimed
    | _ => exact heffective
  | ran t outcome acknowledged =>
    cases hconduct _ rfl with
    | find => exact heffective
    | claim hm => exact hmatched _ hm
    | finish hm => exact hmatched _ hm
    | reload hm => exact hmatched _ hm
    | insert howner hkey hfp =>
      cases outcome with
      | error error => exact heffective
      | ok reply =>
        -- the inserted row is the committed one
        obtain ⟨row, status, hnew, hrow⟩ := reports_of_reachable h haction
        obtain ⟨howner', hkey', hfp', -⟩ := NewSettlement.row_ok hnew
        exact not_mismatched h hrow (howner'.trans howner) (hkey'.trans hkey) (hfp'.trans hfp)
          hmismatch
    | apply hclaimed => cases hclaimed
    | reread hclaimed => cases hclaimed

/-- The view a call returns is of the settlement it has matched. -/
theorem Shown.id_eq {read : SettlementRead}
    (hshown : Shown ownerId idempotencyKey (history w s.trace) id read)
    (h : (system settings law start).Reachable s) : read.id = id := by
  cases hshown with
  | found _ hid => exact hid
  | got hmem => exact (reports_of_history h hmem).1
  | finalized hmem => exact (reports_of_history h hmem).1

/-- `_find_by_key` fails only with the database. -/
theorem findByKey_error {error : ServiceError} (h : (system settings law start).Reachable s)
    (hmem : ⟨.transaction (.findByKey ownerId idempotencyKey), .error error⟩ ∈ history w s.trace) :
    error = .databaseError := by
  rcases ended_of_history h (List.suffix_refl _) hmem with hfailed | hran
  · exact Except.error.inj hfailed
  · obtain ⟨s₁, s₂, h₁, hstep, htrace⟩ := step_of_event h hran
    rcases hstep.happens with ⟨hsame, -⟩ | ⟨e, he, hhappens⟩
    · exact absurd (hsame.symm.trans htrace) List.ne_cons_self
    · obtain ⟨rfl, -⟩ := List.cons.inj (he.symm.trans htrace)
      generalize s₂.db = db at hhappens
      cases hhappens with
      | rollsBack _ _ hrun => cases hrun

/-- Nothing took the key of a call before the call found it free. -/
theorem not_takes_of_none (h : (system settings law start).Reachable s)
    (hnone : ⟨.transaction (.findByKey ownerId idempotencyKey), .ok none⟩ ∈ history w s.trace)
    {call : Call} (hcall : ⟨w, .started call⟩ :: earlier <:+ s.trace) (he : e ∈ earlier) :
    ¬ e.action.Takes ownerId idempotencyKey := by
  have hran := ran_of_history h hnone
  obtain ⟨later, htrace⟩ := hcall
  rw [← htrace] at hran
  rcases List.mem_append.mp hran with hlater | hearlier
  · obtain ⟨later', mid, rfl⟩ := List.append_of_mem hlater
    rw [List.append_assoc] at htrace
    exact Trace.throughout_iff.mp (free_of_none h) later' _ _ htrace.symm w ownerId idempotencyKey
      true rfl e (List.mem_append_right _ (List.mem_cons_of_mem _ he))
  · rcases List.mem_cons.mp hearlier with heq | hearlier
    · cases heq
    · exact absurd rfl (Trace.throughout_iff.mp (started_first h) later _ earlier htrace.symm
        w call rfl _ hearlier)

/-- The winner of the key is there when the loser reloads it. -/
theorem not_vanished (h : (system settings law start).Reachable s) {seen : CallHistory}
    {new : NewSettlement} (hseen : history w s.trace =
      ⟨.transaction (.findByKey ownerId idempotencyKey), .ok none⟩ :: seen)
    (howner : new.ownerId = ownerId) (hkey : new.idempotencyKey = idempotencyKey) :
    ⟨.transaction (.insertReserved new), .error (.integrityError .ownerIdempotencyKey)⟩ ∉ seen := by
  intro hlost
  obtain ⟨later, action, earlier, htrace, haction, hrest⟩ := history_eq_cons hseen
  have hsuffix : ⟨w, action⟩ :: earlier <:+ s.trace := ⟨later, htrace.symm⟩
  obtain rfl := (ended_of_seen h (hsuffix.subset List.mem_cons_self) haction).resolve_left nofun
  rw [← hrest] at hlost
  have hran := (ended_of_history h ((List.suffix_cons _ _).trans hsuffix) hlost).resolve_left nofun
  exact Trace.throughout_iff.mp (free_of_none h) later _ earlier htrace w ownerId idempotencyKey
    true rfl _ hran (howner ▸ hkey ▸ .lost)

end Runs

/-! ## Idempotent creation -/

section Creation
variable {settings : Settings} {law : ProviderLaw} {s : State}

/-- How a mismatched call ends, if its key was taken before it began or its insert
lost: in a conflict, unless the database failed it. -/
theorem conflict_of_taken {w : ℕ} {ownerId idempotencyKey : String} {command : SettlementCreate}
    {error : ServiceError} (h : (system settings law Database.Unused).Reachable s)
    (hends : CreateEnds ownerId idempotencyKey (requestFingerprint settings.sha256 ownerId command)
      (history w s.trace) (.error error))
    (hmismatch : Mismatched s.db ownerId idempotencyKey
      (requestFingerprint settings.sha256 ownerId command))
    (htaken : (∃ call earlier e, ⟨w, .started call⟩ :: earlier <:+ s.trace ∧ e ∈ earlier ∧
        e.action.Takes ownerId idempotencyKey) ∨
      ∃ new, ⟨.transaction (.insertReserved new),
        .error (.integrityError .ownerIdempotencyKey)⟩ ∈ history w s.trace) :
    error = .idempotencyConflict ∨ ∃ op, ⟨op, .error .databaseError⟩ ∈ history w s.trace := by
  -- where the key was found free, the call's own insert has lost
  have hlost : ⟨.transaction (.findByKey ownerId idempotencyKey), .ok none⟩ ∈ history w s.trace →
      ∃ new, ⟨.transaction (.insertReserved new),
        .error (.integrityError .ownerIdempotencyKey)⟩ ∈ history w s.trace := by
    intro hnone
    rcases htaken with ⟨call, earlier, e, hcall, he, htakes⟩ | hlost
    · exact absurd htakes (not_takes_of_none h hnone hcall he)
    · exact hlost
  generalize hr : Except.error error = r at hends
  cases hends with
  | returned => cases hr
  | failed hmatched =>
    obtain ⟨row, hrow, howner, hkey, hfp⟩ := hmatched.row h (List.suffix_refl _)
    exact absurd hmismatch (not_mismatched h hrow howner hkey hfp)
  | conflict =>
    cases hr
    exact Or.inl rfl
  | @unread seen error' hseen =>
    cases hr
    have hmem : ⟨.transaction (.findByKey ownerId idempotencyKey), .error error⟩ ∈
        history w s.trace := by
      rw [hseen]
      exact List.mem_cons_self
    obtain rfl := findByKey_error h hmem
    exact Or.inr ⟨_, hmem⟩
  | notInserted hnone hother =>
    obtain ⟨new, hmem⟩ := hlost hnone
    exact absurd (isIdempotencyViolation_iff.mpr rfl) (hother new _ hmem)
  | vanished hseen hmem hviolation howner hkey =>
    obtain rfl := isIdempotencyViolation_iff.mp hviolation
    exact absurd hmem (not_vanished h hseen howner hkey)

/-- **Idempotent creation.**  A key has at most one row, with one `RESERVE` journal.
Every `create` for it that returns has the fingerprint of the row and returns its
id.  One with another fingerprint never returns, none of its steps changes the
database or calls the provider, and where the row was there before the call or
the call's own insert lost to it, it raises `IdempotencyConflict` unless the
database fails it. -/
theorem creation_idempotent (h : (system settings law Database.Unused).Reachable s)
    (ownerId idempotencyKey : String) :
    (∀ id id' row row', s.db.settlements.lookup id = some row →
      s.db.settlements.lookup id' = some row' →
      row.ownerId = ownerId ∧ row.idempotencyKey = idempotencyKey →
      row'.ownerId = ownerId ∧ row'.idempotencyKey = idempotencyKey → id = id') ∧
    (∀ id, s.db.journalCount id .reserve =
      if (s.db.settlements.lookup id).isSome then 1 else 0) ∧
    ∀ w command, ⟨w, .started (.create ownerId idempotencyKey command)⟩ ∈ s.trace →
      (∀ call read pending, s.workers w = .running call (.ret (.settlement read)) pending →
        ∃ row, s.db.settlements.lookup read.id = some row ∧ row.ownerId = ownerId ∧
          row.idempotencyKey = idempotencyKey ∧
          row.requestFingerprint = requestFingerprint settings.sha256 ownerId command) ∧
      (Mismatched s.db ownerId idempotencyKey
          (requestFingerprint settings.sha256 ownerId command) →
        (∀ call program pending response, s.workers w = .running call program pending →
          program.result ≠ some (.ok response)) ∧
        (∀ s₁ s₂ action, (system settings law Database.Unused).Reachable s₁ →
          Step settings law s₁ s₂ → (system settings law Database.Unused).Later s₂ s →
          s₂.trace = ⟨w, action⟩ :: s₁.trace →
          s₂.db = s₁.db ∧ ∀ op, op.External → action ≠ .called op) ∧
        ∀ call error pending, s.workers w = .running call (.raise error) pending →
          (∃ earlier v new acknowledged,
            ⟨w, .started (.create ownerId idempotencyKey command)⟩ :: earlier <:+ s.trace ∧
            ⟨v, .ran (.insertReserved new) (.ok ()) acknowledged⟩ ∈ earlier ∧
            new.ownerId = ownerId ∧ new.idempotencyKey = idempotencyKey) ∨
          (∃ new, ⟨.transaction (.insertReserved new),
            .error (.integrityError .ownerIdempotencyKey)⟩ ∈ history w s.trace) →
          error = .idempotencyConflict ∨
            ∃ op, ⟨op, .error .databaseError⟩ ∈ history w s.trace) := by
  refine ⟨?_, fun id => ?_, fun w command hcall => ?_⟩
  · intro id id' row row' hrow hrow' hkeys hkeys'
    exact keyUnique_of_reachable h id id' row row' hrow hrow' (hkeys.1.trans hkeys'.1.symm)
      (hkeys.2.trans hkeys'.2.symm)
  · cases hrow : s.db.settlements.lookup id with
    | none =>
      have hstatus : (s.db.lifecycle id).status = none := by
        rw [Database.lifecycle, Database.status, hrow, Option.map_none]
      exact ((sound_of_reachable h id).no_journals hstatus).1
    | some row => exact ((sound_of_reachable h id).journals (status_of_lookup hrow)).1
  · -- how the worker's call has ended, if it has
    have hends : ∀ call program pending r, s.workers w = .running call program pending →
        program.result = some r → ∃ r', r = r'.map .settlement ∧ CreateEnds ownerId
          idempotencyKey (requestFingerprint settings.sha256 ownerId command)
          (history w s.trace) r' := by
      intro call program pending r hworker hresult
      obtain rfl := ((tracked_of_reachable h).call w call program pending hworker _).mp hcall
      exact ends_of_reachable h hworker hresult
    -- what it has returned is a committed row of its own command
    have hreturned : ∀ call program pending response,
        s.workers w = .running call program pending → program.result = some (.ok response) →
        ∃ read row, response = .settlement read ∧ s.db.settlements.lookup read.id = some row ∧
          row.ownerId = ownerId ∧ row.idempotencyKey = idempotencyKey ∧
          row.requestFingerprint = requestFingerprint settings.sha256 ownerId command := by
      intro call program pending response hworker hresult
      obtain ⟨r', hr, hends⟩ := hends call program pending _ hworker hresult
      cases hends with
      | @returned id read hmatched hshown =>
        cases hr
        obtain ⟨row, hrow, howner, hkey, hfp⟩ := hmatched.row h (List.suffix_refl _)
        obtain rfl := hshown.id_eq h
        exact ⟨read, row, rfl, hrow, howner, hkey, hfp⟩
      | _ => cases hr
    refine ⟨fun call read pending hworker => ?_, fun hmismatch => ⟨?_, ?_, ?_⟩⟩
    · obtain ⟨_, row, hread, hrow⟩ := hreturned call _ pending _ hworker rfl
      cases hread
      exact ⟨row, hrow⟩
    · intro call program pending response hworker hresult
      obtain ⟨read, row, -, hrow, howner, hkey, hfp⟩ :=
        hreturned call program pending response hworker hresult
      exact not_mismatched h hrow howner hkey hfp hmismatch
    · intro s₁ s₂ action h₁ hstep hlater htrace
      have hmem : ⟨w, action⟩ ∈ s.trace :=
        (trace_suffix_of_later (.step h₁ hstep) hlater).subset (htrace ▸ List.mem_cons_self)
      have heffective := not_effective h hcall hmismatch hmem
      refine ⟨?_, fun op hop haction => heffective (haction ▸ hop)⟩
      -- a step that commits nothing leaves the database alone
      rcases hstep.happens with ⟨-, hdb⟩ | ⟨e, he, hhappens⟩
      · exact hdb
      · obtain ⟨rfl, -⟩ := List.cons.inj (he.symm.trans htrace)
        exact hhappens.db_eq heffective
    · intro call error pending hworker htaken
      obtain ⟨r', hr, hends⟩ := hends call _ pending _ hworker rfl
      cases r' with
      | ok read => cases hr
      | error error' =>
        cases hr
        refine conflict_of_taken h hends hmismatch (htaken.imp_left ?_)
        rintro ⟨earlier, v, new, acknowledged, hstarted, hinserted, rfl, rfl⟩
        exact ⟨_, earlier, _, hstarted, hinserted, .inserted⟩

theorem creation_idempotent_returned :
    ∃ s read, (system sampleSettings .contract Database.Unused).Reachable s ∧
      s.workers 0 = .running sampleCreate (.ret (.settlement read)) false ∧
      ∃ row, s.db.settlements.lookup read.id = some row ∧ row.idempotencyKey = "key-1" ∧
        row.requestFingerprint =
          requestFingerprint sampleSettings.sha256 "ada" sampleCommand := by
  obtain ⟨s, h, -, -, -, -, htrace, hworker, -⟩ :=
    sample_pending (C := fun _ => True) sampleStart_unused fun _ _ _ => trivial
  have hcall : ⟨0, .started sampleCreate⟩ ∈ s.trace := by
    rw [htrace]
    exact List.mem_append_right (sampleCreated.take 8) List.mem_cons_self
  obtain ⟨row, hrow, -, hkey, hfp⟩ :=
    ((creation_idempotent h.of_restrict "ada" "key-1").2.2 0 sampleCommand hcall).1 _ _ _ hworker
  exact ⟨s, _, h.of_restrict, hworker, row, hrow, hkey, hfp⟩

end Creation

end SettlementRouter
