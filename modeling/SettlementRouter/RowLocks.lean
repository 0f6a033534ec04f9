import SettlementRouter.SqlStatements

/-! # What a statement has read stays locked

The laws of the statements (`sql`): a change leaves alone what it does not write, and what
a statement answers depends on what it has locked.  That is easily seen of the statements
that lock one row.  An insert depends on entries of unique indexes, and the batch query on
all the rows it could have selected: the rows it did select would be selected again, if the
others were skipped (`selectDue_again`).
-/
namespace SettlementRouter

section Same
variable {db db' db'' : Database} {r : Resource}

theorem Resource.Same.refl (db : Database) (r : Resource) : r.Same db db := by
  cases r with
  | account id => exact fun _ _ _ => Iff.rfl
  | _ => rfl

theorem Resource.Same.trans (h : r.Same db db') (h' : r.Same db' db'') : r.Same db db'' := by
  cases r with
  | account id => exact fun key account hid => (h key account hid).trans (h' key account hid)
  | _ => exact Eq.trans h h'

/-- Whether an entry of the index on `(owner_id, idempotency_key)` is there. -/
theorem findByKey_isSome_iff {ownerId idempotencyKey : String} :
    (findByKey db ownerId idempotencyKey).isSome ↔ ∃ id row,
      db.settlements.lookup id = some row ∧ row.ownerId = ownerId ∧
        row.idempotencyKey = idempotencyKey := by
  rw [← not_iff_not, Option.not_isSome_iff_eq_none, findByKey_eq_none]
  push Not
  rfl

/-- Whether an entry of the index on `operation_id` is there. -/
theorem any_operationId_iff {attempts : AList fun _ : UUID => PayoutAttempt} {operationId : UUID} :
    (attempts.entries.any fun row => row.2.operationId = operationId) ↔
      ∃ id attempt, attempts.lookup id = some attempt ∧ attempt.operationId = operationId := by
  simp only [List.any_eq_true, decide_eq_true_eq]
  constructor
  · rintro ⟨⟨id, attempt⟩, hmem, heq⟩
    exact ⟨id, attempt, AList.mem_lookup_iff.mpr hmem, heq⟩
  · rintro ⟨id, attempt, hattempt, heq⟩
    exact ⟨⟨id, attempt⟩, AList.mem_lookup_iff.mp hattempt, heq⟩

/-! ## The entries of the indexes after a change -/

variable {id : UUID} {row : Settlement id} {status : SettlementStatus} {settlementId : UUID}
  {attempt : PayoutAttempt}

theorem findByKey_insertSettlement {ownerId idempotencyKey : String} :
    (findByKey ((Change.insertSettlement id row).apply db) ownerId idempotencyKey).isSome ↔
      (findByKey db ownerId idempotencyKey).isSome ∨ db.settlements.lookup id = none ∧
        row.ownerId = ownerId ∧ row.idempotencyKey = idempotencyKey := by
  rw [findByKey_isSome_iff, findByKey_isSome_iff]
  exact AList.exists_lookup_insertNew (P := fun id (row : Settlement id) =>
    row.ownerId = ownerId ∧ row.idempotencyKey = idempotencyKey)

theorem findByKey_updateStatus {ownerId idempotencyKey : String} :
    (findByKey ((Change.updateStatus id status).apply db) ownerId idempotencyKey).isSome ↔
      (findByKey db ownerId idempotencyKey).isSome := by
  rw [findByKey_isSome_iff, findByKey_isSome_iff]
  exact AList.exists_lookup_adjust fun _ => Iff.rfl

theorem any_insertAttempt {operationId : UUID} :
    (((Change.insertAttempt settlementId attempt).apply db).attempts.entries.any
        fun row => row.2.operationId = operationId) ↔
      (db.attempts.entries.any fun row => row.2.operationId = operationId) ∨
        db.attempts.lookup settlementId = none ∧ attempt.operationId = operationId := by
  rw [any_operationId_iff, any_operationId_iff]
  exact AList.exists_lookup_insertNew
    (P := fun _ (row : PayoutAttempt) => row.operationId = operationId)

theorem any_updateAttempt {operationId : UUID} :
    (((Change.updateAttempt settlementId attempt).apply db).attempts.entries.any
        fun row => row.2.operationId = operationId) ↔
      db.attempts.entries.any fun row => row.2.operationId = operationId := by
  rw [any_operationId_iff, any_operationId_iff]
  exact AList.exists_lookup_adjust fun _ => Iff.rfl

/-- An account after its balance is written. -/
theorem lookup_updateBalance {key key' : AccountKey} {account account' : Account} :
    ((Change.updateBalance key account).apply db).accounts.lookup key' = some account' ↔
      ∃ old, db.accounts.lookup key' = some old ∧
        account' = if key' = key ∧ old.id = account.id then account else old := by
  simp only [Change.apply]
  by_cases hkey : key' = key
  · subst hkey
    rw [AList.lookup_adjust_self, Option.map_eq_some_iff]
    simp [eq_comm]
  · rw [AList.lookup_adjust_ne hkey]
    simp [hkey, eq_comm]

/-! ## The laws -/

/-- A change leaves alone what it does not write. -/
theorem Change.frame {change : Change} (h : r ∉ change.written) (db : Database) :
    r.Same db (change.apply db) := by
  -- by what is written and what is read: they differ in the table or in the key
  cases change with
  | insertSettlement id row =>
    cases r with
    | settlementsPkey id' =>
      have hne : id' ≠ id := by rintro rfl; exact h (.inl rfl)
      exact congrArg Option.isSome (AList.lookup_insertNew_ne hne).symm
    | settlement id' =>
      have hne : id' ≠ id := by rintro rfl; exact h (.inr (.inr rfl))
      exact (AList.lookup_insertNew_ne hne).symm
    | ownerIdempotencyKey ownerId idempotencyKey =>
      refine Bool.eq_iff_iff.mpr (findByKey_insertSettlement.trans ?_).symm
      refine or_iff_left ?_
      rintro ⟨-, rfl, rfl⟩
      exact h (.inr (.inl rfl))
    | account id' => exact fun _ _ _ => Iff.rfl
    | _ => rfl
  | updateStatus id status =>
    cases r with
    | settlementsPkey id' =>
      by_cases hid : id' = id
      · subst hid
        simp [Resource.Same, Change.apply]
      · exact congrArg Option.isSome (AList.lookup_adjust_ne hid).symm
    | settlement id' =>
      have hne : id' ≠ id := by rintro rfl; exact h rfl
      exact (AList.lookup_adjust_ne hne).symm
    | ownerIdempotencyKey ownerId idempotencyKey =>
      exact Bool.eq_iff_iff.mpr findByKey_updateStatus.symm
    | account id' => exact fun _ _ _ => Iff.rfl
    | _ => rfl
  | insertAttempt settlementId attempt =>
    cases r with
    | payoutAttemptsPkey id' =>
      have hne : id' ≠ settlementId := by rintro rfl; exact h (.inl rfl)
      exact congrArg Option.isSome (AList.lookup_insertNew_ne hne).symm
    | payoutAttempt id' =>
      have hne : id' ≠ settlementId := by rintro rfl; exact h (.inr (.inr rfl))
      exact (AList.lookup_insertNew_ne hne).symm
    | payoutAttemptsOperationId operationId =>
      refine Bool.eq_iff_iff.mpr (any_insertAttempt.trans ?_).symm
      refine or_iff_left ?_
      rintro ⟨-, rfl⟩
      exact h (.inr (.inl rfl))
    | account id' => exact fun _ _ _ => Iff.rfl
    | _ => rfl
  | updateAttempt settlementId attempt =>
    cases r with
    | payoutAttemptsPkey id' =>
      by_cases hid : id' = settlementId
      · subst hid
        simp [Resource.Same, Change.apply]
      · exact congrArg Option.isSome (AList.lookup_adjust_ne hid).symm
    | payoutAttempt id' =>
      have hne : id' ≠ settlementId := by rintro rfl; exact h rfl
      exact (AList.lookup_adjust_ne hne).symm
    | payoutAttemptsOperationId operationId => exact Bool.eq_iff_iff.mpr any_updateAttempt.symm
    | account id' => exact fun _ _ _ => Iff.rfl
    | _ => rfl
  | insertJournal journal =>
    cases r with
    | settlementEvent id' event =>
      have hne : ¬ (journal.settlementId = some id' ∧ journal.event = event) := by
        rintro ⟨hid, rfl⟩
        exact h ⟨id', hid, rfl⟩
      simp [Resource.Same, Change.apply, Database.journalCount, hne]
    | account id' => exact fun _ _ _ => Iff.rfl
    | _ => rfl
  | updateBalance key account =>
    cases r with
    | account id' =>
      intro key' account' hid'
      rw [lookup_updateBalance]
      have hne : account.id ≠ id' := by rintro rfl; exact h rfl
      constructor
      · intro hlookup
        refine ⟨account', hlookup, (if_neg ?_).symm⟩
        rintro ⟨-, heq⟩
        exact hne (heq.symm.trans hid')
      · rintro ⟨old, hlookup, heq⟩
        split at heq
        · exact absurd (heq ▸ hid') hne
        · rwa [heq]
    | _ => rfl

/-- A change leads from rows that are the same to rows that are the same. -/
theorem Change.same {change : Change} (hwritten : ∀ r ∈ change.written, r.Same db db')
    (h : r.Same db db') : r.Same (change.apply db) (change.apply db') := by
  -- the row read is the row written, or neither database's changes
  cases change with
  | insertSettlement id row =>
    have hid : db.settlements.lookup id = db'.settlements.lookup id :=
      hwritten (.settlement id) (.inr (.inr rfl))
    cases r with
    | settlementsPkey id' =>
      by_cases heq : id' = id
      · subst heq
        simp [Resource.Same, Change.apply]
      · simpa only [Resource.Same, Change.apply, AList.lookup_insertNew_ne heq] using h
    | settlement id' =>
      by_cases heq : id' = id
      · subst heq
        simp [Resource.Same, Change.apply, hid]
      · simpa only [Resource.Same, Change.apply, AList.lookup_insertNew_ne heq] using h
    | ownerIdempotencyKey ownerId idempotencyKey =>
      refine Bool.eq_iff_iff.mpr ?_
      rw [findByKey_insertSettlement, findByKey_insertSettlement, hid]
      exact or_congr_left (Bool.eq_iff_iff.mp h)
    | _ => exact h
  | updateStatus id status =>
    have hid : db.settlements.lookup id = db'.settlements.lookup id := hwritten (.settlement id) rfl
    cases r with
    | settlementsPkey id' =>
      by_cases heq : id' = id
      · subst heq
        simp [Resource.Same, Change.apply, hid]
      · simpa only [Resource.Same, Change.apply, AList.lookup_adjust_ne heq] using h
    | settlement id' =>
      by_cases heq : id' = id
      · subst heq
        simp [Resource.Same, Change.apply, hid]
      · simpa only [Resource.Same, Change.apply, AList.lookup_adjust_ne heq] using h
    | ownerIdempotencyKey ownerId idempotencyKey =>
      refine Bool.eq_iff_iff.mpr ?_
      rw [findByKey_updateStatus, findByKey_updateStatus]
      exact Bool.eq_iff_iff.mp h
    | _ => exact h
  | insertAttempt settlementId attempt =>
    have hid : db.attempts.lookup settlementId = db'.attempts.lookup settlementId :=
      hwritten (.payoutAttempt settlementId) (.inr (.inr rfl))
    cases r with
    | payoutAttemptsPkey id' =>
      by_cases heq : id' = settlementId
      · subst heq
        simp [Resource.Same, Change.apply]
      · simpa only [Resource.Same, Change.apply, AList.lookup_insertNew_ne heq] using h
    | payoutAttempt id' =>
      by_cases heq : id' = settlementId
      · subst heq
        simp [Resource.Same, Change.apply, hid]
      · simpa only [Resource.Same, Change.apply, AList.lookup_insertNew_ne heq] using h
    | payoutAttemptsOperationId operationId =>
      refine Bool.eq_iff_iff.mpr ?_
      rw [any_insertAttempt, any_insertAttempt, hid]
      exact or_congr_left (Bool.eq_iff_iff.mp h)
    | _ => exact h
  | updateAttempt settlementId attempt =>
    have hid : db.attempts.lookup settlementId = db'.attempts.lookup settlementId :=
      hwritten (.payoutAttempt settlementId) rfl
    cases r with
    | payoutAttemptsPkey id' =>
      by_cases heq : id' = settlementId
      · subst heq
        simp [Resource.Same, Change.apply, hid]
      · simpa only [Resource.Same, Change.apply, AList.lookup_adjust_ne heq] using h
    | payoutAttempt id' =>
      by_cases heq : id' = settlementId
      · subst heq
        simp [Resource.Same, Change.apply, hid]
      · simpa only [Resource.Same, Change.apply, AList.lookup_adjust_ne heq] using h
    | payoutAttemptsOperationId operationId =>
      refine Bool.eq_iff_iff.mpr ?_
      rw [any_updateAttempt, any_updateAttempt]
      exact Bool.eq_iff_iff.mp h
    | _ => exact h
  | insertJournal journal =>
    cases r with
    | settlementEvent id' event =>
      simp only [Resource.Same, Change.apply, Database.journalCount, List.countP_cons] at h ⊢
      rw [h]
    | _ => exact h
  | updateBalance key account =>
    cases r with
    | account id' =>
      have haccount := hwritten (.account account.id) rfl
      intro key' account' hid'
      rw [lookup_updateBalance, lookup_updateBalance]
      constructor
      · rintro ⟨old, hold, heq⟩
        by_cases hwrites : key' = key ∧ old.id = account.id
        · exact ⟨old, (haccount key' old hwrites.2).mp hold, heq⟩
        · rw [if_neg hwrites] at heq
          subst heq
          exact ⟨account', (h key' account' hid').mp hold, (if_neg hwrites).symm⟩
      · rintro ⟨old, hold, heq⟩
        by_cases hwrites : key' = key ∧ old.id = account.id
        · exact ⟨old, (haccount key' old hwrites.2).mpr hold, heq⟩
        · rw [if_neg hwrites] at heq
          subst heq
          exact ⟨account', (h key' account' hid').mpr hold, (if_neg hwrites).symm⟩
    | _ => exact h

/-! ## The batch query -/

/-- The place of a row in the order of the batch query. -/
def DueRow.position (row : DueRow) : Time ×ₗ UUID := toLex (row.attempt.leaseExpiresAt, row.id)

theorem DueRow.before_iff {a b : DueRow} : a.before b ↔ a.position ≤ b.position := by
  rw [DueRow.before, decide_eq_true_eq, DueRow.position, DueRow.position, Prod.Lex.toLex_le_toLex]

theorem dueRows_pairwise (db : Database) (now : Time) :
    (dueRows db now).Pairwise fun a b => a.position ≤ b.position := by
  have htrans (a b c : DueRow) (hab : a.before b) (hbc : b.before c) : a.before c :=
    DueRow.before_iff.mpr ((DueRow.before_iff.mp hab).trans (DueRow.before_iff.mp hbc))
  have htotal (a b : DueRow) : a.before b || b.before a := by
    rw [Bool.or_eq_true, DueRow.before_iff, DueRow.before_iff]
    exact le_total _ _
  have hsorted := List.pairwise_mergeSort htrans htotal
    ((joinedRows db).filter fun row => row.Due now)
  exact hsorted.imp DueRow.before_iff.mp

/-- **The same rows would be selected again**, if all the others were skipped. -/
theorem selectDue_again {now : Time} {locked : UUID → Bool} {limit : ℕ}
    (hsame : ∀ row ∈ selectDue db now locked limit,
      (Resource.settlement row.id).Same db db' ∧ (Resource.payoutAttempt row.id).Same db db') :
    ∃ locked', selectDue db' now locked' limit = selectDue db now locked limit := by
  set rows := selectDue db now locked limit with hrows
  have hsub : rows.Sublist (dueRows db now) := selectDue_sublist db now locked limit
  have hlength : rows.length ≤ limit := List.length_take_le _ _
  refine ⟨fun id => decide (id ∉ rows.map DueRow.id), ?_⟩
  set again := (dueRows db' now).filter fun row => ¬ decide (row.id ∉ rows.map DueRow.id)
    with hagain
  have hmem : ∀ row, row ∈ again ↔ row ∈ rows := by
    intro row
    have hjoined : row.id ∈ rows.map DueRow.id →
        (row ∈ joinedRows db' ↔ row ∈ joinedRows db) := by
      intro hid
      obtain ⟨other, hother, heq⟩ := List.mem_map.mp hid
      obtain ⟨hsettlement, hattempt⟩ := hsame other hother
      rw [heq] at hsettlement hattempt
      simp only [mem_joinedRows, Resource.Same] at hsettlement hattempt ⊢
      rw [hsettlement, hattempt]
    simp only [hagain, List.mem_filter, mem_dueRows, decide_eq_true_eq, not_not]
    constructor
    · rintro ⟨⟨hrow, -⟩, hid⟩
      obtain ⟨other, hother, heq⟩ := List.mem_map.mp hid
      have hother' := (mem_dueRows.mp (hsub.subset hother)).1
      have hrow' := (hjoined hid).mp hrow
      rwa [List.inj_on_of_nodup_map (joinedRows_nodup db) hrow' hother' heq.symm]
    · intro hrow
      obtain ⟨hrow', hdue⟩ := mem_dueRows.mp (hsub.subset hrow)
      have hid := List.mem_map_of_mem (f := DueRow.id) hrow
      exact ⟨⟨(hjoined hid).mpr hrow', hdue⟩, hid⟩
  have heq : again = rows := by
    have hnodup {db : Database} {l : List DueRow} (hl : l.Sublist (dueRows db now)) : l.Nodup :=
      ((hl.map DueRow.id).nodup (dueRows_nodup db now)).of_map _
    refine List.Perm.eq_of_pairwise (fun a b ha hb hab hba => ?_)
      ((dueRows_pairwise db' now).sublist List.filter_sublist)
      ((dueRows_pairwise db now).sublist hsub)
      ((List.perm_ext_iff_of_nodup (hnodup List.filter_sublist) (hnodup hsub)).mpr hmem)
    have hid : a.id = b.id := congrArg (fun p => (ofLex p).2) (le_antisymm hab hba)
    have ha' := (mem_dueRows.mp (hsub.subset ((hmem a).mp ha))).1
    have hb' := (mem_dueRows.mp (hsub.subset hb)).1
    exact List.inj_on_of_nodup_map (joinedRows_nodup db) ha' hb' hid
  rw [selectDue, ← hagain, heq, List.take_of_length_le hlength]

/-! ## The statements -/

theorem insertSettlement_again {db₁ : Database} (h : insertSettlement db row = .ok db₁)
    (hid : (Resource.settlement id).Same db db')
    (hkey : (Resource.ownerIdempotencyKey row.ownerId row.idempotencyKey).Same db db') :
    ∃ db₂, insertSettlement db' row = .ok db₂ := by
  obtain ⟨hnone, hfree, -⟩ := insertSettlement_ok h
  simp only [Resource.Same, hnone, hfree, Option.isSome_none] at hid hkey
  simp [insertSettlement, ← hid, ← hkey]

theorem insertAttempt_again {db₁ : Database} (h : insertAttempt db settlementId attempt = .ok db₁)
    (hid : (Resource.payoutAttempt settlementId).Same db db')
    (hop : (Resource.payoutAttemptsOperationId attempt.operationId).Same db db') :
    ∃ db₂, insertAttempt db' settlementId attempt = .ok db₂ := by
  unfold insertAttempt at h ⊢
  simp only [Resource.Same] at hid hop
  rw [hid, hop] at h
  split at h
  · cases h
  · rw [if_neg ‹_›]
    split at h
    · cases h
    · rw [if_neg ‹_›]
      exact ⟨_, rfl⟩

/-- **A statement is answered again as it was**, where what it locked is the same. -/
theorem SqlAnswers.again {statement : Statement} {reply : statement.Reply} {changes : List Change}
    {locks : Set Resource} (h : SqlAnswers db statement reply changes locks)
    (hsame : ∀ r ∈ locks, r.Same db db') : SqlAnswers db' statement reply changes locks := by
  cases h with
  | @lockSettlement id row hrow =>
    have hid : db.settlements.lookup id = db'.settlements.lookup id := hsame (.settlement id) rfl
    exact .lockSettlement (hid ▸ hrow)
  | @lockAttempt settlementId =>
    have hid : db.attempts.lookup settlementId = db'.attempts.lookup settlementId :=
      hsame (.payoutAttempt settlementId) rfl
    rw [hid]
    exact .lockAttempt
  | @lockAccounts debitKey creditKey debit credit haccounts =>
    obtain ⟨hdebit, hcredit⟩ := lockedAccounts_ok.mp haccounts
    refine .lockAccounts (lockedAccounts_ok.mpr ⟨?_, ?_⟩)
    · exact (hsame (.account debit.id) (.inl rfl) _ debit rfl).mp hdebit
    · exact (hsame (.account credit.id) (.inr rfl) _ credit rfl).mp hcredit
  | now time => exact .now time
  | @selectDue now limit locked =>
    obtain ⟨locked', heq⟩ : ∃ locked', SettlementRouter.selectDue db' now locked' limit =
        SettlementRouter.selectDue db now locked limit :=
      selectDue_again fun row hrow =>
        ⟨hsame _ ⟨row, hrow, .inl rfl⟩, hsame _ ⟨row, hrow, .inr rfl⟩⟩
    rw [← heq]
    exact .selectDue locked'
  | @insertSettlement new row db₁ hrow hinsert =>
    obtain ⟨howner, hkey, -⟩ := NewSettlement.row_ok hrow
    rw [← howner, ← hkey] at hsame
    obtain ⟨db₂, hinsert'⟩ := insertSettlement_again hinsert
      (hsame _ (.inr (.inr rfl))) (hsame _ (.inr (.inl rfl)))
    exact .insertSettlement hrow hinsert'
  | @updateStatus id status hrow =>
    have hid : db.settlements.lookup id = db'.settlements.lookup id := hsame (.settlement id) rfl
    exact .updateStatus (hid ▸ hrow)
  | insertAttempt hinsert =>
    obtain ⟨db₂, hinsert'⟩ := insertAttempt_again hinsert
      (hsame _ (.inr (.inr rfl))) (hsame _ (.inr (.inl rfl)))
    exact .insertAttempt hinsert'
  | updateAttempt => exact .updateAttempt
  | @insertJournal journal id hid hnone =>
    have hcount : db.journalCount id journal.event = db'.journalCount id journal.event :=
      hsame (.settlementEvent id journal.event) rfl
    exact .insertJournal hid (hcount ▸ hnone)
  | updateBalance hfits => exact .updateBalance hfits

/-- What a statement writes it has locked. -/
theorem SqlAnswers.written {statement : Statement} {reply : statement.Reply}
    {changes : List Change} {locks : Set Resource}
    (h : SqlAnswers db statement reply changes locks) :
    ∀ change ∈ changes, change.written ⊆ locks := by
  intro change hchange
  cases h with
  | insertSettlement hrow hinsert =>
    obtain rfl := List.mem_singleton.mp hchange
    obtain ⟨howner, hkey, -⟩ := NewSettlement.row_ok hrow
    rw [Change.written, howner, hkey]
  | insertJournal hid hnone =>
    obtain rfl := List.mem_singleton.mp hchange
    rintro r ⟨id', hid', rfl⟩
    obtain rfl := Option.some.inj (hid.symm.trans hid')
    rfl
  | updateStatus | insertAttempt | updateAttempt | updateBalance =>
    obtain rfl := List.mem_singleton.mp hchange
    exact Set.Subset.rfl
  | _ => cases hchange

/-- The statements of the service. -/
def sql : Statements Statement Statement.Reply ServiceError Database Change Resource where
  apply := Change.apply
  written := Change.written
  Same r db db' := r.Same db db'
  Answers := SqlAnswers
  Fails := SqlFails
  same_refl r db := .refl db r
  same_trans h h' := h.trans h'
  apply_frame h db := Change.frame h db
  apply_same h h' := Change.same h h'
  answers_same h hsame := h.again hsame
  answers_written h := h.written

end Same

end SettlementRouter
