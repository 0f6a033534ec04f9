import SettlementRouter.Escrow
import SettlementRouter.LedgerBalance

/-! # The ledger is an escrow

What the service is for, in the terms of `Escrow`: a settlement is a deposit out of its
owner's funds, held until the payout is known to be made or not to be made.  AVAILABLE is
what is free, RESERVED what is held, and OMNIBUS is the safe.

The journals are the history of the book.  Whatever the workers do, in whatever order, and
wherever they stop, the history of a later state is that of an earlier one with entries
added, none of which is refused, and the accounts and settlements are what the entries
make of the earlier book (`history_replays`).  So they depend on which journals were
posted, but not on the order (`book_of_history`).
-/
namespace SettlementRouter

/-- What a status says of the deposit. -/
def SettlementStatus.phase : SettlementStatus → Escrow.Phase
  | success => .paid
  | failed => .refunded
  | _ => .held

/-- What an event of a settlement says of its deposit. -/
def JournalEvent.phase : JournalEvent → Option Escrow.Phase
  | opening => none
  | reserve => some .held
  | consume => some .paid
  | release => some .refunded

namespace Database
variable (db : Database)

/-- The accounts and the settlements, as a book of the escrow. -/
def book : Escrow.Book UUID String Units where
  free ownerId := db.usdBalance ownerId .available
  held ownerId := db.usdBalance ownerId .reserved
  backing := db.usdBalance "system" .omnibus
  deposits id := (db.settlements.lookup id).map fun row =>
    ⟨row.ownerId, row.amountUsd, row.status.phase⟩

@[simp] theorem book_deposits (id : UUID) :
    db.book.deposits id =
      (db.settlements.lookup id).map fun row => ⟨row.ownerId, row.amountUsd, row.status.phase⟩ :=
  rfl

/-- The entry a journal makes, with what the row of its settlement says. -/
def entry (journal : JournalTransaction) : Option (Escrow.Entry UUID String Units) := do
  let id ← journal.settlementId
  let row ← db.settlements.lookup id
  let phase ← journal.event.phase
  return { owner := row.ownerId, amount := row.amountUsd, phase, index := id }

/-- The entries of the journals, the oldest first. -/
def history : List (Escrow.Entry UUID String Units) :=
  db.journals.reverse.filterMap db.entry

/-- Every journal of a settlement is of one that is there. -/
def Attributed : Prop :=
  ∀ journal ∈ db.journals, ∀ id, journal.settlementId = some id →
    ∃ row, db.settlements.lookup id = some row

end Database

/-! ## Histories grow -/

section History
variable {db db' : Database} {id : UUID} {row : Settlement id} {journal : JournalTransaction}

/-- Sound settlements leave no journal without one. -/
theorem attributed_of_sound (hsound : ∀ id, (db.lifecycle id).Sound) : db.Attributed := by
  intro journal hjournal id hid
  cases hrow : db.settlements.lookup id with
  | some row => exact ⟨row, rfl⟩
  | none =>
    have hstatus : (db.lifecycle id).status = none := by
      rw [Database.lifecycle, Database.status, hrow, Option.map_none]
    obtain ⟨hreserve, hconsume, hrelease⟩ := (hsound id).no_journals hstatus
    have hcounted : 0 < db.journalCount id journal.event :=
      List.countP_pos_iff.mpr ⟨journal, hjournal, by simp [hid]⟩
    have hnone : db.journalCount id journal.event = 0 := by
      cases hevent : journal.event with
      | opening =>
        rw [journal.event_settlement.mp hevent] at hid
        cases hid
      | reserve => exact hreserve
      | consume => exact hconsume
      | release => exact hrelease
    omega

theorem entry_of_lookup {phase : Escrow.Phase} (hid : journal.settlementId = some id)
    (hrow : db.settlements.lookup id = some row) (hphase : journal.event.phase = some phase) :
    db.entry journal =
      some { owner := row.ownerId, amount := row.amountUsd, phase, index := id } := by
  simp [Database.entry, hid, hrow, hphase]

/-- A row keeps its owner and its amount, and so its journals their entries. -/
theorem entry_of_extends (h : db.Extends db') (hattributed : db.Attributed)
    (hjournal : journal ∈ db.journals) : db'.entry journal = db.entry journal := by
  unfold Database.entry
  cases hid : journal.settlementId with
  | none => rfl
  | some id =>
    obtain ⟨row, hrow⟩ := hattributed journal hjournal id hid
    obtain ⟨status, hrow'⟩ := h id row hrow
    simp [hrow, hrow', Settlement.withStatus]

theorem entries_of_extends (h : db.Extends db') (hattributed : db.Attributed) :
    db.journals.reverse.filterMap db'.entry = db.history :=
  List.filterMap_congr fun _ hjournal =>
    entry_of_extends h hattributed (List.mem_reverse.mp hjournal)

theorem history_of_journals_eq (h : db.Extends db') (hattributed : db.Attributed)
    (hjournals : db'.journals = db.journals) : db'.history = db.history := by
  rw [Database.history, hjournals, entries_of_extends h hattributed]

theorem history_of_journals_cons {e : Escrow.Entry UUID String Units} (h : db.Extends db')
    (hattributed : db.Attributed) (hjournals : db'.journals = journal :: db.journals)
    (hentry : db'.entry journal = some e) : db'.history = db.history ++ [e] := by
  rw [Database.history, hjournals, List.reverse_cons, List.filterMap_append,
    entries_of_extends h hattributed, List.filterMap_cons_some hentry, List.filterMap_nil]

end History

/-! ## Funds move as entered -/

section Funds
variable {db db' : Database} {id : UUID} {row : Settlement id} {event : JournalEvent}
  {key debitKey creditKey : String × AccountPurpose} {purpose : AccountPurpose} {o : String}
  {balance : Units}

theorem Posted.usdBalance_of_ne (h : Posted db row event debitKey creditKey db')
    (hdebit : (o, purpose) ≠ debitKey) (hcredit : (o, purpose) ≠ creditKey) :
    db'.usdBalance o purpose = db.usdBalance o purpose := by
  obtain ⟨_, _, debited, credited, -, -, -, -, -, haccounts⟩ := h.accounts_eq
  rw [Database.usdBalance, Database.balance, haccounts,
    AList.lookup_insert_ne (usdAccount_injective.ne hcredit),
    AList.lookup_insert_ne (usdAccount_injective.ne hdebit)]
  rfl

/-- No account of this purpose moves. -/
theorem Posted.funds_kept (h : Posted db row event debitKey creditKey db')
    (hdebit : debitKey.2 ≠ purpose) (hcredit : creditKey.2 ≠ purpose) :
    (fun o => db'.usdBalance o purpose) = fun o => db.usdBalance o purpose := by
  funext o
  exact h.usdBalance_of_ne (fun heq => hdebit (congrArg Prod.snd heq).symm)
    fun heq => hcredit (congrArg Prod.snd heq).symm

/-- The accounts of the purpose that is debited. -/
theorem Posted.funds_debited (h : Posted db row event (o, purpose) creditKey db')
    (hcredit : creditKey.2 ≠ purpose) (hkey : Has db (o, purpose) .liability balance) :
    (fun o => db'.usdBalance o purpose) =
      Function.update (fun o => db.usdBalance o purpose) o
        (db.usdBalance o purpose + -row.amountUsd) := by
  have hne : ∀ o, (o, purpose) ≠ creditKey := fun o heq => hcredit (congrArg Prod.snd heq).symm
  funext o'
  by_cases ho : o' = o
  · subst ho
    rw [Function.update_self, hkey.usdBalance_eq]
    exact (h.has_debit (hne o') hkey).2.usdBalance_eq
  · rw [Function.update_of_ne ho]
    exact h.usdBalance_of_ne (fun heq => ho (congrArg Prod.fst heq)) (hne o')

/-- The accounts of the purpose that is credited. -/
theorem Posted.funds_credited (h : Posted db row event debitKey (o, purpose) db')
    (hdebit : debitKey.2 ≠ purpose) (hkey : Has db (o, purpose) .liability balance) :
    (fun o => db'.usdBalance o purpose) =
      Function.update (fun o => db.usdBalance o purpose) o
        (db.usdBalance o purpose + row.amountUsd) := by
  have hne : ∀ o, (o, purpose) ≠ debitKey := fun o heq => hdebit (congrArg Prod.snd heq).symm
  funext o'
  by_cases ho : o' = o
  · subst ho
    rw [Function.update_self, hkey.usdBalance_eq]
    exact (h.has_credit hkey).usdBalance_eq
  · rw [Function.update_of_ne ho]
    exact h.usdBalance_of_ne (hne o') fun heq => ho (congrArg Prod.fst heq)

/-- The row of the settlement is written with this status. -/
theorem deposits_insert (row : Settlement id)
    (hdb : db'.settlements = db.settlements.insert id row) :
    db'.book.deposits = Function.update db.book.deposits id
      (some ⟨row.ownerId, row.amountUsd, row.status.phase⟩) := by
  funext id'
  by_cases hid : id' = id
  · subst hid
    rw [Function.update_self, Database.book_deposits, hdb, AList.lookup_insert, Option.map_some]
  · rw [Function.update_of_ne hid, Database.book_deposits, Database.book_deposits, hdb,
      AList.lookup_insert_ne hid]

end Funds

/-! ## A write is an entry, or none -/

section Writes
variable {db db' : Database} {id : UUID} {kind : WriteKind} {row : Settlement id}
  {status : SettlementStatus} {owners : List String} {opening : String → Units}

/-- The status changes, and the phase does not. -/
theorem deposits_of_phase (hrow : db.settlements.lookup id = some row)
    (hphase : status.phase = row.status.phase)
    (hdb : db'.settlements = db.settlements.insert id (row.withStatus status)) :
    db'.book.deposits = db.book.deposits := by
  rw [deposits_insert _ hdb]
  refine Function.update_eq_self_iff.mpr ?_
  rw [Database.book_deposits, hrow, Option.map_some, ← hphase]
  rfl

theorem SettlementStatus.phase_of_not_terminal (h : ¬ status.Terminal) :
    status.phase = .held := by
  cases status with
  | success => exact absurd (Or.inl rfl) h
  | failed => exact absurd (Or.inr rfl) h
  | _ => rfl

/-- **Every write grows the history by what it makes of the book.** -/
theorem Write.book (hw : Write id kind db db') (h : Balanced owners opening db)
    (hattributed : db.Attributed) :
    ∃ newer, db'.history = db.history ++ newer ∧ db.book.replay newer = some db'.book := by
  have hextends := hw.extends
  have hstutter (hjournals : db'.journals = db.journals) (haccounts : db'.accounts = db.accounts)
      (hdeposits : db'.book.deposits = db.book.deposits) :
      ∃ newer, db'.history = db.history ++ newer ∧ db.book.replay newer = some db'.book := by
    refine ⟨[], ?_, ?_⟩
    · rw [List.append_nil, history_of_journals_eq hextends hattributed hjournals]
    · have hbalance : db'.usdBalance = db.usdBalance := by
        funext o purpose
        rw [Database.usdBalance, Database.balance, haccounts]
        rfl
      rw [Escrow.Book.replay_nil, Option.some_inj]
      apply Escrow.Book.ext
      · exact (congrArg (fun balance o => balance o .available) hbalance).symm
      · exact (congrArg (fun balance o => balance o .reserved) hbalance).symm
      · exact (congrArg (fun balance => balance "system" .omnibus) hbalance).symm
      · exact hdeposits.symm
  cases hw with
  | @reserve _ _ row hnone _ hstatus hposted =>
    obtain ⟨journal, hjournals, hid, hevent⟩ := hposted.journals_eq
    have hrow : db'.settlements.lookup id = some row := by
      rw [hposted.settlements_eq]
      exact AList.lookup_insert _
    have howner : row.ownerId ∈ owners := by
      obtain ⟨debit, -, -, -, hdebit, -⟩ := hposted.accounts_eq
      exact h.customers _ (Option.isSome_iff_exists.mpr ⟨debit, hdebit⟩)
    have havailable := h.available _ howner
    refine ⟨_, history_of_journals_cons hextends hattributed hjournals
      (entry_of_lookup hid hrow (by rw [hevent]; rfl)), Escrow.Book.replay_singleton.mpr ⟨?_, ?_⟩⟩
    · refine (if_pos rfl).mpr ⟨?_, row.amount_positive, ?_⟩
      · rw [Database.book_deposits, hnone, Option.map_none]
      · exact (hposted.has_debit (by simp) havailable).1.trans havailable.usdBalance_eq.ge
    · apply Escrow.Book.ext
      · exact (hposted.funds_debited (by simp) havailable).symm
      · exact (hposted.funds_credited (by simp) (h.reserved _ howner)).symm
      · exact (add_zero _).trans (hposted.usdBalance_of_ne (by simp) (by simp)).symm
      · rw [deposits_insert row hposted.settlements_eq, hstatus]
        rfl
  | @submit attempt _ row hrow hstatus =>
    exact hstutter rfl rfl (deposits_of_phase hrow (by rw [hstatus]; rfl) rfl)
  | adopt => exact hstutter rfl rfl rfl
  | claim => exact hstutter rfl rfl rfl
  | @finalize _ db₁ attempt attempt' status state row hrow hstatus _ _ _ happlied =>
    have hphase := SettlementStatus.phase_of_not_terminal hstatus
    have howner := h.owned id row hrow
    have hreserved := h.reserved _ howner
    -- the entry that ends the deposit finds it held
    have hadmits (phase : Escrow.Phase) (hphase' : phase ≠ .held) :
        db.book.Admits
          { owner := row.ownerId, amount := row.amountUsd, phase, index := id } := by
      refine (if_neg hphase').mpr ?_
      rw [Database.book_deposits, hrow, Option.map_some, hphase]
    cases happlied with
    | pend => exact hstutter rfl rfl (deposits_of_phase hrow (by rw [hphase]; rfl) rfl)
    | consume hposted =>
      obtain ⟨journal, hjournals, hid, hevent⟩ := hposted.journals_eq
      refine ⟨_, history_of_journals_cons hextends hattributed hjournals
        (entry_of_lookup hid (AList.lookup_insert _) (by rw [hevent]; rfl)),
        Escrow.Book.replay_singleton.mpr ⟨hadmits .paid (by decide), ?_⟩⟩
      have hbacking := (hposted.has_credit h.omnibus).usdBalance_eq
      apply Escrow.Book.ext
      · refine Eq.trans ?_ (hposted.funds_kept (by simp) (by simp)).symm
        exact Function.update_eq_self_iff.mpr (add_zero _)
      · exact (hposted.funds_debited (by simp) hreserved).symm
      · refine Eq.trans ?_ hbacking.symm
        exact congrArg (· + -row.amountUsd) h.omnibus.usdBalance_eq
      · exact (deposits_insert _ rfl).symm
    | release hposted =>
      obtain ⟨journal, hjournals, hid, hevent⟩ := hposted.journals_eq
      refine ⟨_, history_of_journals_cons hextends hattributed hjournals
        (entry_of_lookup hid (AList.lookup_insert _) (by rw [hevent]; rfl)),
        Escrow.Book.replay_singleton.mpr ⟨hadmits .refunded (by decide), ?_⟩⟩
      apply Escrow.Book.ext
      · exact (hposted.funds_credited (by simp) (h.available _ howner)).symm
      · exact (hposted.funds_debited (by simp) hreserved).symm
      · exact (add_zero _).trans (hposted.usdBalance_of_ne (by simp) (by simp)).symm
      · exact (deposits_insert _ rfl).symm

theorem Writes.book (hw : Writes db db') (h : Balanced owners opening db)
    (hsound : ∀ id, (db.lifecycle id).Sound) :
    ∃ newer, db'.history = db.history ++ newer ∧ db.book.replay newer = some db'.book := by
  induction hw with
  | refl => exact ⟨[], (List.append_nil _).symm, rfl⟩
  | tail hpast hwrite ih =>
    obtain ⟨newer, hhistory, hreplay⟩ := ih
    obtain ⟨id, kind, hw⟩ := hwrite
    have hsound' := fun id =>
      Writes.lifecycle (fun _ _ _ hmove hl => hmove.sound hl) hpast (hsound id)
    obtain ⟨newest, hhistory', hreplay'⟩ :=
      hw.book (Writes.balanced hpast h) (attributed_of_sound hsound')
    refine ⟨newer ++ newest, ?_, Escrow.Book.replay_append hreplay hreplay'⟩
    rw [hhistory', hhistory, List.append_assoc]

end Writes

/-! ## Runs -/

section Runs
variable {settings settings' : Settings} {law law' : ProviderLaw}
  {owners : List String} {opening : String → Units} {s s' t t' : State}

theorem book_of_later (hs : (system settings law (Opening owners opening)).Reachable s)
    (h : (system settings law (Opening owners opening)).Later s s') :
    ∃ newer, s'.db.history = s.db.history ++ newer ∧
      s.db.book.replay newer = some s'.db.book := by
  have hunused := reachable_of_start (fun _ hdb => hdb.unused) hs
  exact (writes_of_later h).book (balanced_of_reachable hs) (sound_of_reachable hunused)

/-- **The journals replay.**  From every state of every run from a seeded database, and
whatever happens from there on, the history only grows, none of the new entries is refused
by the escrow, and they make of the book just the accounts and settlements there are. -/
theorem history_replays (hs : (system settings law (Opening owners opening)).Reachable s)
    (h : (system settings law (Opening owners opening)).Later s s') :
    ∃ newer, s'.db.history = s.db.history ++ newer ∧
      s.db.book.replay newer = some s'.db.book :=
  book_of_later hs h

theorem history_replays_paid :
    ∃ s s', (system sampleSettings .contract (Opening ["ada"] fun _ => 50000000000)).Later s s' ∧
      s.db.history = [] ∧
      s'.db.history = [⟨⟨"ada", 10000000000, .held⟩, 7⟩, ⟨⟨"ada", 10000000000, .paid⟩, 7⟩] ∧
      s.db.book.replay s'.db.history = some s'.db.book := by
  obtain ⟨s, s', hs, hdb, hdb', hlater⟩ := sample_later sampleStart_opening
  have hempty : s.db.history = [] := by
    rw [hdb]
    rfl
  obtain ⟨newer, hhistory, hreplay⟩ := history_replays hs hlater
  rw [hempty, List.nil_append] at hhistory
  refine ⟨s, s', hlater, hempty, ?_, hhistory ▸ hreplay⟩
  rw [hdb']
  rfl

/-- **The order of the journals does not matter.**  Two runs that go on from the same
database, with any settings and providers, and in which the same journals are posted in
any order, end with the same accounts and settlements. -/
theorem book_of_history (hs : (system settings law (Opening owners opening)).Reachable s)
    (hs' : (system settings' law' (Opening owners opening)).Reachable s') (hdb : s.db = s'.db)
    (h : (system settings law (Opening owners opening)).Later s t)
    (h' : (system settings' law' (Opening owners opening)).Later s' t')
    (hperm : t.db.history.Perm t'.db.history) : t.db.book = t'.db.book := by
  obtain ⟨newer, hhistory, hreplay⟩ := book_of_later hs h
  obtain ⟨newer', hhistory', hreplay'⟩ := book_of_later hs' h'
  rw [hhistory, hhistory', hdb, List.perm_append_left_iff] at hperm
  rw [hdb] at hreplay
  exact Escrow.replay_perm hreplay hreplay' hperm

/-- Another request of Ada's. -/
def smallCommand : SettlementCreate := ⟨4000000000, .eur, by decide, by decide⟩

theorem sampleRate_positive : (0 : Units) < 90000000 := by decide

/-- The row of its settlement. -/
def smallRow : Settlement 9 where
  ownerId := "ada"
  idempotencyKey := "key-2"
  requestFingerprint := requestFingerprint sampleSettings.sha256 "ada" smallCommand
  amountUsd := 4000000000
  targetCurrency := .eur
  route := sampleQuote.hops
  snapshotVersion := 1
  aggregateRate := 90000000
  quotedAmount := 3600000000
  providerOperationId := 9
  status := .reserved
  amount_positive := by decide
  rate_positive := sampleRate_positive
  quote_positive := by decide
  provider_operation_matches_id := rfl

theorem small_row :
    (smallCommand.new sampleSettings "ada" "key-2" sampleQuote 9).row = .ok smallRow := by
  have hrate : Decimal.toColumn 24 8 sampleQuote.aggregateRate = some 90000000 := by
    decide +kernel
  have hquoted : Decimal.toColumn 32 8 (sampleSettings.context.mul
      (Decimal.ofColumn 8 smallCommand.amountUsd) sampleQuote.aggregateRate) =
        some 3600000000 := by
    decide +kernel
  unfold NewSettlement.row SettlementCreate.new
  rw [hrate, hquoted]
  rfl

/-- The state a run of the sample starts in. -/
def sampleInitial : State := ⟨⟨sampleStart, 0, fun _ => none, [], []⟩, fun _ => .idle⟩

/-- Two settlements are reserved, one after the other. -/
theorem later_both {key key' : String} {command command' : SettlementCreate} {id id' : UUID}
    {db db' : Database} (hfind : findByKey sampleStart "ada" key = none)
    (hfirst : insertReserved (command.new sampleSettings "ada" key sampleQuote id) sampleStart =
      .ok ((), db))
    (hfind' : findByKey db "ada" key' = none)
    (hsecond : insertReserved (command'.new sampleSettings "ada" key' sampleQuote id') db =
      .ok ((), db')) :
    ∃ t, (system sampleSettings .contract (Opening ["ada"] fun _ => 50000000000)).Later
      sampleInitial t ∧ t.db = db' := by
  have halone : ∀ v new, ¬ sampleInitial.Inserting v new := by
    rintro v new ⟨call, next, hworker⟩
    cases hworker
  obtain ⟨t₁, hlater, hdb, -, hworkers⟩ := @later_reserved sampleSettings .contract
    (Opening ["ada"] fun _ => 50000000000) sampleInitial 0 "ada" key command db sampleQuote id rfl
    halone hfind hfirst
  rw [← hdb] at hfind' hsecond
  have hidle : t₁.workers 1 = .idle := by
    rw [hworkers, Function.update_of_ne Nat.one_ne_zero]
    rfl
  obtain ⟨t₂, hlater', hdb', -⟩ := @later_reserved sampleSettings .contract
    (Opening ["ada"] fun _ => 50000000000) t₁ 1 "ada" key' command' db' sampleQuote id' hidle
    (not_inserting halone hworkers) hfind' hsecond
  exact ⟨t₂, hlater.trans hlater', hdb'⟩

/-- The reservations of two settlements, in either order. -/
theorem book_of_history_swapped :
    ∃ s t t', (system sampleSettings .contract (Opening ["ada"] fun _ => 50000000000)).Later s t ∧
      (system sampleSettings .contract (Opening ["ada"] fun _ => 50000000000)).Later s t' ∧
      t.db.history = [⟨⟨"ada", 10000000000, .held⟩, 7⟩, ⟨⟨"ada", 4000000000, .held⟩, 9⟩] ∧
      t'.db.history = [⟨⟨"ada", 4000000000, .held⟩, 9⟩, ⟨⟨"ada", 10000000000, .held⟩, 7⟩] ∧
      t.db.book = t'.db.book := by
  have hrow : (sampleCommand.new sampleSettings "ada" "key-1" sampleQuote 7).row =
    .ok (sampleRow .reserved) := sample_row
  obtain ⟨db, db', hfirst, hfind, hsecond, hhistory⟩ : ∃ db db',
      insertReserved (sampleCommand.new sampleSettings "ada" "key-1" sampleQuote 7) sampleStart =
        .ok ((), db) ∧ findByKey db "ada" "key-2" = none ∧
      insertReserved (smallCommand.new sampleSettings "ada" "key-2" sampleQuote 9) db =
        .ok ((), db') ∧
      db'.history = [⟨⟨"ada", 10000000000, .held⟩, 7⟩, ⟨⟨"ada", 4000000000, .held⟩, 9⟩] := by
    unfold insertReserved
    rw [hrow, small_row]
    exact ⟨_, _, rfl, rfl, rfl, rfl⟩
  obtain ⟨db₁, db₁', hfirst', hfind', hsecond', hhistory'⟩ : ∃ db db',
      insertReserved (smallCommand.new sampleSettings "ada" "key-2" sampleQuote 9) sampleStart =
        .ok ((), db) ∧ findByKey db "ada" "key-1" = none ∧
      insertReserved (sampleCommand.new sampleSettings "ada" "key-1" sampleQuote 7) db =
        .ok ((), db') ∧
      db'.history = [⟨⟨"ada", 4000000000, .held⟩, 9⟩, ⟨⟨"ada", 10000000000, .held⟩, 7⟩] := by
    unfold insertReserved
    rw [hrow, small_row]
    exact ⟨_, _, rfl, rfl, rfl, rfl⟩
  obtain ⟨t, hlater, rfl⟩ := later_both rfl hfirst hfind hsecond
  obtain ⟨t', hlater', rfl⟩ := later_both rfl hfirst' hfind' hsecond'
  have hs : (system sampleSettings .contract (Opening ["ada"] fun _ => 50000000000)).Reachable
      sampleInitial := .init ⟨sampleStart_opening, fun _ => rfl, rfl, rfl, rfl⟩
  have hswapped : t.db.history.Perm t'.db.history := by
    rw [hhistory, hhistory']
    exact .swap _ _ _
  exact ⟨sampleInitial, t, t', hlater, hlater', hhistory, hhistory',
    book_of_history hs hs rfl hlater hlater' hswapped⟩

end Runs

end SettlementRouter
