import SettlementRouter.LedgerTriggers

/-! # What the ledger triggers guard

A journal that is posted cannot be changed or deleted, and nothing can be added
to it: all of that the triggers refuse (`Effect.journal_eq`, `Effect.gain`).  But
`guard_posting_mutation` looks at the journal the new row belongs to, so an
UPDATE that moves a posting out of a posted journal, into one that is open, is
let through; and `posted_journal_check` runs for new journals only.

No other statement touches a committed journal (`Effect.loss`).  So in runs
without such a move journals are final, and a transaction that makes one always
takes something from them (`commit_guarded_iff`).
-/
namespace SettlementRouter

/-- The statement moves a posting out of a journal that was committed. -/
def LedgerStatement.Moves (committed tables : LedgerTables) : LedgerStatement → Prop
  | updatePosting id _ row => ∃ old, tables.postings.lookup id = some old ∧
      row.journalId ≠ old.journalId ∧ (committed.journals.lookup old.journalId).isSome
  | _ => False

/-- What a statement that is let through has done. -/
inductive Effect : LedgerStatement → LedgerTransaction → LedgerTransaction → Prop
  | nothing {statement tx} : (∀ committed, ¬ statement.Moves committed tx.tables) →
      Effect statement tx tx
  | insertJournal {id row tx} : tx.tables.journals.lookup id = none →
      Effect (.insertJournal id row) tx
        { tables := { tx.tables with journals := tx.tables.journals.insert id row }
          inserted := id :: tx.inserted }
  | updateJournal {id row old tx} : tx.tables.journals.lookup id = some old →
      old.isPosted = false → Effect (.updateJournal id id row) tx
        { tx with tables.journals := (tx.tables.journals.erase id).insert id row }
  | deleteJournal {id old tx} : tx.tables.journals.lookup id = some old → old.isPosted = false →
      Effect (.deleteJournal id) tx { tx with tables.journals := tx.tables.journals.erase id }
  | insertPosting {id row tx} : tx.tables.postings.lookup id = none →
      tx.tables.isPosted row.journalId ≠ some true →
      Effect (.insertPosting id row) tx
        { tx with tables.postings := tx.tables.postings.insert id row }
  | updatePosting {id id' row old tx} : tx.tables.postings.lookup id = some old →
      tx.tables.isPosted row.journalId ≠ some true →
      (id' ≠ id → tx.tables.postings.lookup id' = none) →
      Effect (.updatePosting id id' row) tx
        { tx with tables.postings := (tx.tables.postings.erase id).insert id' row }
  | deletePosting {id old tx} : tx.tables.postings.lookup id = some old →
      tx.tables.isPosted old.journalId ≠ some true →
      Effect (.deletePosting id) tx { tx with tables.postings := tx.tables.postings.erase id }

section Statements
variable {settlementExists accountExists : UUID → Bool} {statement : LedgerStatement}
  {tx tx' : LedgerTransaction} {db : LedgerTables}

theorem guardPostingMutation_ok {rows : TriggerRows PostingRow} {parent : UUID} {reply : Unit}
    (h : guardPostingMutation db rows = .ok reply)
    (hparent : (rows.new.map (·.journalId)).or (rows.old.map (·.journalId)) = some parent) :
    db.isPosted parent ≠ some true := by
  unfold guardPostingMutation at h
  dsimp only at h
  rw [hparent] at h
  split at h
  · cases h
  · assumption

theorem guardJournalMutation_ok {id : UUID} {old : JournalRow} {new : Option (UUID × JournalRow)}
    {reply : Unit} (h : guardJournalMutation id old new = .ok reply) :
    old.isPosted = false ∧ ∀ id' row, new = some (id', row) → id' = id := by
  unfold guardJournalMutation at h
  cases new with
  | none =>
    dsimp only at h
    split at h
    · cases h
    · rename_i hposted
      exact ⟨Bool.not_eq_true _ ▸ hposted, nofun⟩
  | some new =>
    dsimp only at h
    split at h
    · cases h
    · rename_i hposted
      split at h
      · cases h
      · rename_i hsame
        refine ⟨Bool.not_eq_true _ ▸ hposted, ?_⟩
        rintro id' row ⟨⟩
        exact not_not.mp fun hne => hsame (Or.inl hne)

theorem bind_ok {α β : Type} {x : Except LedgerError α} {f : α → Except LedgerError β} {b : β}
    (h : x >>= f = .ok b) : ∃ a, x = .ok a ∧ f a = .ok b := by
  cases x with
  | error error => cases h
  | ok a => exact ⟨a, rfl, h⟩

/-- **What a statement can do.** -/
theorem exec_effect (h : statement.exec settlementExists accountExists tx = .ok tx') :
    Effect statement tx tx' := by
  cases statement with
  | insertJournal id row =>
    simp only [LedgerStatement.exec] at h
    split at h
    · cases h
    · rename_i hnone
      split at h
      · cases h
      · split at h
        · cases h
        · cases h
          exact .insertJournal (Option.not_isSome_iff_eq_none.mp hnone)
  | updateJournal id id' row =>
    simp only [LedgerStatement.exec] at h
    split at h
    · cases h
      exact .nothing fun _ => not_false
    · rename_i old hold
      obtain ⟨_, hguard, h⟩ := bind_ok h
      cases h
      obtain ⟨hposted, hid⟩ := guardJournalMutation_ok hguard
      obtain rfl := hid id' row rfl
      exact .updateJournal hold hposted
  | deleteJournal id =>
    simp only [LedgerStatement.exec] at h
    split at h
    · cases h
      exact .nothing fun _ => not_false
    · rename_i old hold
      obtain ⟨_, hguard, h⟩ := bind_ok h
      split at h
      · cases h
      · cases h
        exact .deleteJournal hold (guardJournalMutation_ok hguard).1
  | insertPosting id row =>
    simp only [LedgerStatement.exec] at h
    obtain ⟨_, hguard, h⟩ := bind_ok h
    split at h
    · cases h
    · rename_i hnone
      split at h
      · cases h
      · cases h
        exact .insertPosting (Option.not_isSome_iff_eq_none.mp hnone)
          (guardPostingMutation_ok hguard rfl)
  | updatePosting id id' row =>
    simp only [LedgerStatement.exec] at h
    split at h
    · rename_i hnone
      cases h
      -- no row has this id, so none moves
      refine .nothing fun committed hmoves => ?_
      obtain ⟨old, hold, -⟩ := hmoves
      cases hnone.symm.trans hold
    · rename_i old hold
      obtain ⟨_, hguard, h⟩ := bind_ok h
      split at h
      · cases h
      · rename_i hfree
        split at h
        · cases h
        · cases h
          exact .updatePosting hold (guardPostingMutation_ok hguard rfl) fun hne =>
            Option.not_isSome_iff_eq_none.mp fun hsome => hfree ⟨hne, hsome⟩
  | deletePosting id =>
    simp only [LedgerStatement.exec] at h
    split at h
    · cases h
      exact .nothing fun _ => not_false
    · rename_i old hold
      obtain ⟨_, hguard, h⟩ := bind_ok h
      cases h
      exact .deletePosting hold (guardPostingMutation_ok hguard rfl)

end Statements

/-! ## Committed journals -/

section Effects
variable {statement : LedgerStatement} {tx tx' : LedgerTransaction} {committed : LedgerTables}
  {id journalId : UUID} {row : JournalRow} {posting : PostingRow}

theorem isPosted_of_lookup {db : LedgerTables} (h : db.journals.lookup journalId = some row) :
    db.isPosted journalId = some row.isPosted := by
  rw [LedgerTables.isPosted, h, Option.map_some]

/-- **A posted journal is immutable.** -/
theorem Effect.journal_eq (h : Effect statement tx tx')
    (hrow : tx.tables.journals.lookup journalId = some row) (hposted : row.isPosted = true) :
    tx'.tables.journals.lookup journalId = some row := by
  cases h with
  | nothing => exact hrow
  | @insertJournal id _ _ hnone =>
    have hne : journalId ≠ id := by
      rintro rfl
      rw [hnone] at hrow
      cases hrow
    exact (AList.lookup_insert_ne hne).trans hrow
  | @updateJournal id _ old _ hold hopen =>
    have hne : journalId ≠ id := by
      rintro rfl
      obtain rfl := Option.some.inj (hold.symm.trans hrow)
      rw [hposted] at hopen
      cases hopen
    exact (AList.lookup_insert_ne hne).trans ((AList.lookup_erase_ne hne).trans hrow)
  | @deleteJournal id old _ hold hopen =>
    have hne : journalId ≠ id := by
      rintro rfl
      obtain rfl := Option.some.inj (hold.symm.trans hrow)
      rw [hposted] at hopen
      cases hopen
    exact (AList.lookup_erase_ne hne).trans hrow
  | insertPosting => exact hrow
  | updatePosting => exact hrow
  | deletePosting => exact hrow

/-- **A posted journal gains no posting**, and none of its postings is rewritten. -/
theorem Effect.gain (h : Effect statement tx tx')
    (hposted : tx.tables.isPosted posting.journalId = some true)
    (hposting : tx'.tables.postings.lookup id = some posting) :
    tx.tables.postings.lookup id = some posting := by
  cases h with
  | nothing => exact hposting
  | insertJournal => exact hposting
  | updateJournal => exact hposting
  | deleteJournal => exact hposting
  | @insertPosting id' _ _ _ hopen =>
    by_cases hid : id = id'
    · subst hid
      cases (AList.lookup_insert _).symm.trans hposting
      exact absurd hposted hopen
    · exact (AList.lookup_insert_ne hid).symm.trans hposting
  | @updatePosting id₁ id₂ _ old _ hold hopen =>
    by_cases hid : id = id₂
    · subst hid
      cases (AList.lookup_insert _).symm.trans hposting
      exact absurd hposted hopen
    · have hkept := (AList.lookup_insert_ne hid).symm.trans hposting
      have hne : id ≠ id₁ := by
        rintro rfl
        rw [AList.lookup_erase] at hkept
        cases hkept
      exact (AList.lookup_erase_ne hne).symm.trans hkept
  | @deletePosting id' old _ hold =>
    have hne : id ≠ id' := by
      rintro rfl
      cases (AList.lookup_erase _ _).symm.trans hposting
    exact (AList.lookup_erase_ne hne).symm.trans hposting

/-- **Nor does it lose one**, unless the statement moves it elsewhere. -/
theorem Effect.loss (h : Effect statement tx tx')
    (hposted : tx.tables.isPosted posting.journalId = some true)
    (hcommitted : (committed.journals.lookup posting.journalId).isSome)
    (hmoves : ¬ statement.Moves committed tx.tables)
    (hposting : tx.tables.postings.lookup id = some posting) :
    tx'.tables.postings.lookup id = some posting := by
  cases h with
  | nothing => exact hposting
  | insertJournal => exact hposting
  | updateJournal => exact hposting
  | deleteJournal => exact hposting
  | @insertPosting id' _ _ hnone =>
    have hne : id ≠ id' := by
      rintro rfl
      rw [hnone] at hposting
      cases hposting
    exact (AList.lookup_insert_ne hne).trans hposting
  | @updatePosting id₁ id₂ new old _ hold hopen hfree =>
    have hne : id ≠ id₁ := by
      rintro rfl
      obtain rfl := Option.some.inj (hold.symm.trans hposting)
      by_cases hsame : new.journalId = old.journalId
      · exact hopen (hsame ▸ hposted)
      · exact hmoves ⟨old, hold, hsame, hcommitted⟩
    have hne' : id ≠ id₂ := by
      rintro rfl
      rw [hfree hne] at hposting
      cases hposting
    exact (AList.lookup_insert_ne hne').trans ((AList.lookup_erase_ne hne).trans hposting)
  | @deletePosting id' old _ hold hopen =>
    have hne : id ≠ id' := by
      rintro rfl
      obtain rfl := Option.some.inj (hold.symm.trans hposting)
      exact hopen hposted
    exact (AList.lookup_erase_ne hne).trans hposting

/-- A move takes a posting from a committed journal. -/
theorem Effect.moved (h : Effect statement tx tx') (hmoves : statement.Moves committed tx.tables) :
    ∃ id posting, (committed.journals.lookup posting.journalId).isSome ∧
      tx.tables.postings.lookup id = some posting ∧
      tx'.tables.postings.lookup id ≠ some posting := by
  cases h with
  | nothing hstays => exact absurd hmoves (hstays committed)
  | @updatePosting id₁ id₂ new old _ hold hopen hfree =>
    obtain ⟨old', hold', hmove, hcommitted⟩ := hmoves
    obtain rfl := Option.some.inj (hold.symm.trans hold')
    refine ⟨id₁, old, hcommitted, hold, fun hkept => ?_⟩
    by_cases hid : id₂ = id₁
    · subst hid
      cases (AList.lookup_insert _).symm.trans hkept
      exact hmove rfl
    · have hgone := (AList.lookup_insert_ne (Ne.symm hid)).symm.trans hkept
      rw [AList.lookup_erase] at hgone
      cases hgone
  | _ => exact absurd hmoves not_false

/-- A journal that is new in the tables was inserted. -/
theorem Effect.inserted (h : Effect statement tx tx')
    (hjournal : (tx'.tables.journals.lookup journalId).isSome) :
    (tx.tables.journals.lookup journalId).isSome ∨ journalId ∈ tx'.inserted := by
  cases h with
  | @insertJournal id _ _ hnone =>
    by_cases hid : journalId = id
    · exact Or.inr (hid ▸ List.mem_cons_self)
    · rw [AList.lookup_insert_ne hid] at hjournal
      exact Or.inl hjournal
  | @updateJournal id _ old _ hold =>
    left
    by_cases hid : journalId = id
    · rw [hid, hold]
      rfl
    · rwa [AList.lookup_insert_ne hid, AList.lookup_erase_ne hid] at hjournal
  | @deleteJournal id =>
    left
    have hid : journalId ≠ id := by
      rintro rfl
      rw [AList.lookup_erase] at hjournal
      cases hjournal
    rwa [AList.lookup_erase_ne hid] at hjournal
  | _ => exact Or.inl hjournal

/-- What was to be checked still is. -/
theorem Effect.inserted_subset (h : Effect statement tx tx') : tx.inserted ⊆ tx'.inserted := by
  cases h with
  | insertJournal => exact List.subset_cons_self _ _
  | _ => exact List.Subset.refl _

end Effects

/-! ## A transaction -/

/-- A journal as the database promises it: posted, with at least two postings,
and balanced in every currency. -/
structure LedgerTables.Closed (db : LedgerTables) (id : UUID) : Prop where
  posted : db.isPosted id = some true
  two_postings : 2 ≤ (db.postingsOf id).length
  balanced : ∀ currency, db.total id currency .debit = db.total id currency .credit

/-- Every journal is closed. -/
def LedgerTables.Guarded (db : LedgerTables) : Prop :=
  ∀ id, (db.journals.lookup id).isSome → db.Closed id

theorem guarded_empty : (⟨∅, ∅⟩ : LedgerTables).Guarded := by
  intro id hid
  cases hid

/-- A journal's row and its postings are the same in both. -/
structure SameJournal (db db' : LedgerTables) (id : UUID) : Prop where
  row : db'.journals.lookup id = db.journals.lookup id
  postings : ∀ postingId posting, posting.journalId = id →
    (db'.postings.lookup postingId = some posting ↔ db.postings.lookup postingId = some posting)

/-- What no statement of a transaction can change: the journals that were
committed are there, the others are to be checked, and no committed journal has
gained a posting. -/
structure Extends (db : LedgerTables) (tx : LedgerTransaction) : Prop where
  journals : ∀ id row, db.journals.lookup id = some row → tx.tables.journals.lookup id = some row
  inserted : ∀ id, (tx.tables.journals.lookup id).isSome →
    (db.journals.lookup id).isSome ∨ id ∈ tx.inserted
  postings : ∀ id posting, (db.journals.lookup posting.journalId).isSome →
    tx.tables.postings.lookup id = some posting → db.postings.lookup id = some posting

/-- No committed journal has lost a posting. -/
def Intact (db : LedgerTables) (tx : LedgerTransaction) : Prop :=
  ∀ id posting, (db.journals.lookup posting.journalId).isSome →
    db.postings.lookup id = some posting → tx.tables.postings.lookup id = some posting

section Transaction
variable {settlementExists accountExists : UUID → Bool} {statement : LedgerStatement}
  {statements : List LedgerStatement} {tx tx' : LedgerTransaction} {db db' : LedgerTables}
  {id : UUID}

variable (settlementExists accountExists) in
/-- No statement of the transaction, run from here, moves a posting out of a
journal of `committed`. -/
def Stays (committed : LedgerTables) : List LedgerStatement → LedgerTransaction → Prop
  | [], _ => True
  | statement :: statements, tx => ¬ statement.Moves committed tx.tables ∧
      ∀ tx', statement.exec settlementExists accountExists tx = .ok tx' →
        Stays committed statements tx'

theorem extends_refl : Extends db ⟨db, []⟩ where
  journals _ _ h := h
  inserted _ h := Or.inl h
  postings _ _ _ h := h

/-- A committed journal is still posted. -/
theorem Extends.isPosted (hx : Extends db tx) (hdb : db.Guarded)
    (hid : (db.journals.lookup id).isSome) : tx.tables.isPosted id = some true := by
  obtain ⟨row, hrow⟩ := Option.isSome_iff_exists.mp hid
  have hposted := (hdb id hid).posted
  rw [isPosted_of_lookup hrow] at hposted
  rw [isPosted_of_lookup (hx.journals id row hrow), hposted]

theorem Extends.effect (hx : Extends db tx) (hdb : db.Guarded) (h : Effect statement tx tx') :
    Extends db tx' where
  journals id row hrow := by
    refine h.journal_eq (hx.journals id row hrow) ?_
    have hposted := (hdb id (Option.isSome_iff_exists.mpr ⟨row, hrow⟩)).posted
    rw [isPosted_of_lookup hrow] at hposted
    exact Option.some.inj hposted
  inserted id hid := by
    rcases h.inserted hid with hid | hid
    · exact (hx.inserted id hid).imp_right fun hmem => h.inserted_subset hmem
    · exact Or.inr hid
  postings id posting hjournal hposting :=
    hx.postings id posting hjournal (h.gain (hx.isPosted hdb hjournal) hposting)

/-- **One statement**: the committed journals are whole after it exactly when they
were before and it moves nothing out of them. -/
theorem Extends.intact_iff (hx : Extends db tx) (hdb : db.Guarded) (h : Effect statement tx tx') :
    Intact db tx' ↔ Intact db tx ∧ ¬ statement.Moves db tx.tables := by
  constructor
  · intro hintact
    refine ⟨fun id posting hjournal hposting => ?_, fun hmoves => ?_⟩
    · exact h.gain (hx.isPosted hdb hjournal) (hintact id posting hjournal hposting)
    · obtain ⟨id, posting, hjournal, hposting, hgone⟩ := h.moved hmoves
      exact hgone (hintact id posting hjournal (hx.postings id posting hjournal hposting))
  · rintro ⟨hintact, hstays⟩ id posting hjournal hposting
    exact h.loss (hx.isPosted hdb hjournal) hjournal hstays (hintact id posting hjournal hposting)

/-- **All of them.** -/
theorem Extends.execAll (hx : Extends db tx) (hdb : db.Guarded)
    (h : execAll settlementExists accountExists statements tx = .ok tx') :
    Extends db tx' ∧
      (Intact db tx' ↔ Intact db tx ∧ Stays settlementExists accountExists db statements tx) := by
  induction statements generalizing tx with
  | nil =>
    cases h
    exact ⟨hx, (and_iff_left trivial).symm⟩
  | cons statement statements ih =>
    obtain ⟨tx₁, hstatement, hrest⟩ := bind_ok h
    have heffect := exec_effect hstatement
    obtain ⟨hx', hiff⟩ := ih (hx.effect hdb heffect) hrest
    refine ⟨hx', hiff.trans ?_⟩
    rw [hx.intact_iff hdb heffect, and_assoc]
    refine and_congr_right fun _ => and_congr_right fun _ => ?_
    constructor
    · rintro hstays _ hstatement'
      cases hstatement.symm.trans hstatement'
      exact hstays
    · intro hstays
      exact hstays tx₁ hstatement

/-- The journals are the same in the tables the transaction commits. -/
theorem Extends.same_iff (hx : Extends db tx) :
    (∀ id, (db.journals.lookup id).isSome → SameJournal db tx.tables id) ↔ Intact db tx := by
  constructor
  · intro hsame id posting hjournal hposting
    exact ((hsame _ hjournal).postings id posting rfl).mpr hposting
  · intro hintact id hid
    obtain ⟨row, hrow⟩ := Option.isSome_iff_exists.mp hid
    refine ⟨(hx.journals id row hrow).trans hrow.symm, ?_⟩
    rintro postingId posting rfl
    exact ⟨hx.postings postingId posting hid, hintact postingId posting hid⟩

end Transaction

/-! ## The check at commit -/

section Commit
variable {settlementExists accountExists : UUID → Bool} {statements : List LedgerStatement}
  {db db' db'' : LedgerTables} {id : UUID}

theorem forM_ok {α ε : Type} {f : α → Except ε Unit} {l : List α} (h : l.forM f = .ok ()) :
    ∀ a ∈ l, f a = .ok () := by
  induction l with
  | nil => exact fun a ha => absurd ha List.not_mem_nil
  | cons a l ih =>
    cases hfa : f a with
    | error error =>
      have hfails : (a :: l).forM f = .error error := congrArg (· >>= fun _ => l.forM f) hfa
      cases hfails.symm.trans h
    | ok =>
      have hrest : (a :: l).forM f = l.forM f := congrArg (· >>= fun _ => l.forM f) hfa
      exact List.forall_mem_cons.mpr ⟨hfa, ih (hrest.symm.trans h)⟩

/-- A total that is not zero has a posting. -/
theorem exists_of_total_ne {currency : Currency} {side : PostingSide}
    (h : db.total id currency side ≠ 0) : ∃ row ∈ db.postingsOf id, row.2.currency = currency := by
  by_contra hnone
  push Not at hnone
  refine h ?_
  rw [LedgerTables.total, List.filter_eq_nil_iff.mpr]
  · rfl
  · intro row hrow
    simp [hnone row hrow]

/-- A journal that passes the check is closed. -/
theorem checkPostedJournal_ok (h : checkPostedJournal db id = .ok ())
    (hid : (db.journals.lookup id).isSome) : db.Closed id := by
  unfold checkPostedJournal at h
  split at h
  · cases h
  · rename_i hposted
    split at h
    · cases h
    · rename_i htwo
      split at h
      · cases h
      · rename_i hbalanced
        refine ⟨?_, not_lt.mp htwo, fun currency => ?_⟩
        · obtain ⟨row, hrow⟩ := Option.isSome_iff_exists.mp hid
          rw [isPosted_of_lookup hrow] at hposted ⊢
          simpa using hposted
        · by_contra hne
          have hnonzero : db.total id currency .debit ≠ 0 ∨ db.total id currency .credit ≠ 0 := by
            by_contra hzero
            push Not at hzero
            exact hne (hzero.1.trans hzero.2.symm)
          obtain ⟨row, hrow, rfl⟩ := hnonzero.elim exists_of_total_ne exists_of_total_ne
          exact hbalanced (List.any_eq_true.mpr ⟨row, hrow, decide_eq_true hne⟩)

/-- The postings of a journal are the same rows, in some order. -/
theorem SameJournal.perm (h : SameJournal db db' id) :
    (db'.postingsOf id).Perm (db.postingsOf id) := by
  refine List.mem_ext (db'.postings.nodupKeys.nodup.filter _)
    (db.postings.nodupKeys.nodup.filter _) ?_
  rintro ⟨postingId, posting⟩
  rw [LedgerTables.postingsOf, LedgerTables.postingsOf, List.mem_filter, List.mem_filter,
    ← AList.mem_lookup_iff, ← AList.mem_lookup_iff]
  refine and_congr_left fun hjournal => ?_
  exact h.postings postingId posting (of_decide_eq_true hjournal)

theorem SameJournal.total_eq (h : SameJournal db db' id) (currency : Currency)
    (side : PostingSide) : db'.total id currency side = db.total id currency side :=
  ((h.perm.filter _).map _).sum_eq

theorem SameJournal.closed (h : SameJournal db db' id) (hclosed : db.Closed id) :
    db'.Closed id where
  posted := by
    rw [LedgerTables.isPosted, h.row]
    exact hclosed.posted
  two_postings := h.perm.length_eq ▸ hclosed.two_postings
  balanced currency := by
    rw [h.total_eq, h.total_eq]
    exact hclosed.balanced currency

theorem SameJournal.trans (h : SameJournal db db' id) (h' : SameJournal db' db'' id) :
    SameJournal db db'' id where
  row := h'.row.trans h.row
  postings postingId posting hjournal :=
    (h'.postings postingId posting hjournal).trans (h.postings postingId posting hjournal)

/-- **One transaction**: the ledger it commits is guarded, and the journals that
were there are the same, exactly when no posting is moved out of them. -/
theorem commit_guarded_iff (hdb : db.Guarded)
    (h : commitTransaction settlementExists accountExists statements db = .ok db') :
    (db'.Guarded ∧ ∀ id, (db.journals.lookup id).isSome → SameJournal db db' id) ↔
      Stays settlementExists accountExists db statements ⟨db, []⟩ := by
  obtain ⟨tx, hall, h⟩ := bind_ok h
  obtain ⟨⟨⟩, hchecks, h⟩ := bind_ok h
  cases h
  obtain ⟨hx, hiff⟩ := extends_refl.execAll hdb hall
  have hwhole : Intact db ⟨db, []⟩ := fun _ _ _ hposting => hposting
  rw [and_iff_right hwhole] at hiff
  rw [hx.same_iff, ← hiff]
  refine and_iff_right_of_imp fun hintact id hid => ?_
  rcases hx.inserted id hid with hcommitted | hnew
  · exact (hx.same_iff.mpr hintact id hcommitted).closed (hdb id hcommitted)
  · exact checkPostedJournal_ok (forM_ok hchecks id hnew) hid

end Commit

/-! ## Runs -/

section Runs
variable {settlementExists accountExists : UUID → Bool} {db db' : LedgerTables}

variable (settlementExists accountExists) in
/-- Transactions that move no posting out of a committed journal, from any guarded
ledger: the empty one, for one. -/
def stayingLedger : TransitionSystem LedgerTables :=
  ledgerSystem settlementExists accountExists LedgerTables.Guarded fun statements db =>
    Stays settlementExists accountExists db statements ⟨db, []⟩

theorem guarded_of_reachable (h : (stayingLedger settlementExists accountExists).Reachable db) :
    db.Guarded := by
  refine h.invariant (fun _ hstart => hstart) ?_
  rintro db db' - hdb ⟨statements, hstays, hcommit⟩
  exact ((commit_guarded_iff hdb hcommit).mpr hstays).1

theorem same_of_later (h : (stayingLedger settlementExists accountExists).Reachable db)
    (hlater : (stayingLedger settlementExists accountExists).Later db db') :
    ∀ id, (db.journals.lookup id).isSome → SameJournal db db' id := by
  refine hlater.relates (R := fun db db' =>
    ∀ id, (db.journals.lookup id).isSome → SameJournal db db' id) ?_ ?_ ?_ h
  · exact fun _ _ _ => ⟨rfl, fun _ _ _ => Iff.rfl⟩
  · intro db db' db'' hsame hsame' id hid
    have hid' : (db'.journals.lookup id).isSome := by rwa [(hsame id hid).row]
    exact (hsame id hid).trans (hsame' id hid')
  · rintro db db' hdb ⟨statements, hstays, hcommit⟩
    exact ((commit_guarded_iff (guarded_of_reachable hdb) hcommit).mpr hstays).2

/-- **The guards hold while postings stay where they are.**  Every committed ledger
is guarded and no committed journal ever changes again, in each run whose
transactions move no posting out of a committed journal; and the next transaction
keeps to that exactly when it makes no such move either. -/
theorem ledger_guarded (h : (stayingLedger settlementExists accountExists).Reachable db) :
    db.Guarded ∧
      (∀ db', (stayingLedger settlementExists accountExists).Later db db' →
        ∀ id, (db.journals.lookup id).isSome → SameJournal db db' id) ∧
      ∀ statements db',
        commitTransaction settlementExists accountExists statements db = .ok db' →
        ((db'.Guarded ∧ ∀ id, (db.journals.lookup id).isSome → SameJournal db db' id) ↔
          Stays settlementExists accountExists db statements ⟨db, []⟩) :=
  ⟨guarded_of_reachable h, fun _ hlater => same_of_later h hlater,
    fun _ _ hcommit => commit_guarded_iff (guarded_of_reachable h) hcommit⟩

end Runs

/-! ## A posting moved away -/

/-- An opening journal. -/
def openingRow (isPosted : Bool) : JournalRow where
  settlementId := none
  event := .opening
  isPosted
  createdAt := 0
  event_settlement := iff_of_true rfl rfl

/-- A posting of a thousand units to an account. -/
def openingPosting (journalId accountId : UUID) (side : PostingSide) : PostingRow where
  journalId
  accountId
  currency := .usd
  side
  amount := 1000
  amount_positive := by decide

/-- A journal of two postings, written and posted. -/
def openJournal : List LedgerStatement :=
  [.insertJournal 1 (openingRow false), .insertPosting 1 (openingPosting 1 1 .debit),
    .insertPosting 2 (openingPosting 1 2 .credit), .updateJournal 1 1 (openingRow true)]

/-- Another, to which the postings of the first are moved. -/
def takePostings : List LedgerStatement :=
  [.insertJournal 2 (openingRow false), .updatePosting 1 1 (openingPosting 2 1 .debit),
    .updatePosting 2 2 (openingPosting 2 2 .credit), .updateJournal 2 2 (openingRow true)]

/-- A journal is committed, and closed. -/
theorem ledger_guarded_opened : ∃ db : LedgerTables,
    commitTransaction (fun _ => true) (fun _ => true) openJournal ⟨∅, ∅⟩ = .ok db ∧
      (db.journals.lookup 1).isSome ∧ db.Closed 1 := by
  refine ⟨_, rfl, rfl, ?_⟩
  have hstays : Stays (fun _ => true) (fun _ => true) ⟨∅, ∅⟩ openJournal ⟨⟨∅, ∅⟩, []⟩ := by
    simp [Stays, openJournal, LedgerStatement.Moves]
  exact (ledger_guarded (.step (.init guarded_empty) ⟨openJournal, hstays, rfl⟩)).1 1 rfl

/-- The second transaction is let through, and leaves the first journal posted
without a posting. -/
theorem not_guarded_moved : ∃ db db' : LedgerTables,
    (ledgerSystem (fun _ => true) (fun _ => true) (· = ⟨∅, ∅⟩) fun _ _ => True).Reachable db ∧
    (ledgerSystem (fun _ => true) (fun _ => true) (· = ⟨∅, ∅⟩) fun _ _ => True).step db db' ∧
    (db.journals.lookup 1).isSome ∧ ¬ SameJournal db db' 1 ∧ ¬ db'.Closed 1 := by
  refine ⟨_, _, .step (.init rfl) ⟨openJournal, trivial, rfl⟩, ⟨takePostings, trivial, rfl⟩, rfl,
    fun hsame => ?_, fun hclosed => ?_⟩
  · cases (hsame.postings 1 (openingPosting 1 1 .debit) rfl).mpr rfl
  · exact absurd hclosed.two_postings (by decide)

end SettlementRouter
