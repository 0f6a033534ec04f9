import SettlementRouter.Insertions
import SettlementRouter.Rounding
import SettlementRouter.RouteOptimality

/-! # The persisted quote

`create` multiplies the amount with the rate in whatever decimal context its task
runs in, and the column then rounds the product to eight decimals.  The routing
module isolates its arithmetic in a context of 38 digits; the product of `create`
is not isolated.

Two roundings of a product are stored as the same value when no halfway point
between two values of the column lies between them (`SameSide`).  Of the contexts
that round half to even, only the one of 38 digits does that for all routes
(`quoted_amount_isolated_iff`).
-/
namespace SettlementRouter

/-- What `create` persists as the quoted amount, in the context of its task. -/
def persistedQuote (context : Decimal.Context) (command : SettlementCreate) (quote : RouteQuote) :
    Option Units :=
  Decimal.toColumn 32 8
    (context.mul (Decimal.ofColumn 8 command.amountUsd) quote.aggregateRate)

/-- The exact product. -/
def exactQuote (command : SettlementCreate) (quote : RouteQuote) : ℚ :=
  Decimal.ofColumn 8 command.amountUsd * quote.aggregateRate

/-- What it would persist in the context of the routing module. -/
def isolatedQuote (command : SettlementCreate) (quote : RouteQuote) : Option Units :=
  persistedQuote routingContext command quote

/-- The point from which the column stores `k` units. -/
def halfway (k : ℤ) : ℚ := (k - 1 / 2) / 10 ^ 8

/-- Rounded in this context and in that of the routing module, the product is on
the same side of every halfway point. -/
def SameSide (context : Decimal.Context) (command : SettlementCreate) (quote : RouteQuote) : Prop :=
  ∀ k, 0 < k →
    (halfway k ≤ context.mul (Decimal.ofColumn 8 command.amountUsd) quote.aggregateRate ↔
      halfway k ≤ routingContext.mul (Decimal.ofColumn 8 command.amountUsd) quote.aggregateRate)

section Columns
variable {context : Decimal.Context} {command : SettlementCreate} {quote : RouteQuote}
  {a b : ℚ} {k units : ℤ} {precision : ℕ}

theorem le_units (hk : 0 < k) : k ≤ Decimal.roundHalfAway (a * 10 ^ 8) ↔ halfway k ≤ a := by
  rw [Decimal.le_roundHalfAway hk, halfway, div_le_iff₀ (by norm_num)]

/-- A positive value is stored like another when no halfway point separates them. -/
theorem units_eq_iff (ha : 0 < Decimal.roundHalfAway (a * 10 ^ 8)) :
    Decimal.roundHalfAway (b * 10 ^ 8) = Decimal.roundHalfAway (a * 10 ^ 8) ↔
      ∀ k, 0 < k → (halfway k ≤ a ↔ halfway k ≤ b) := by
  constructor
  · intro heq k hk
    rw [← le_units hk, ← le_units hk, heq]
  · intro hsame
    have hab := (le_units ha).mpr ((hsame _ ha).mp ((le_units ha).mp le_rfl))
    have hb := ha.trans_le hab
    exact le_antisymm ((le_units hb).mpr ((hsame _ hb).mpr ((le_units hb).mp le_rfl))) hab

/-- **When the persisted quote is the isolated one**: the context keeps the product
on its side of every halfway point. -/
theorem isolatedQuote_eq_iff (hpersisted : persistedQuote context command quote = some units)
    (hunits : 0 < units) (hfits : (isolatedQuote command quote).isSome) :
    isolatedQuote command quote = some units ↔ SameSide context command quote := by
  obtain ⟨isolated, hisolated⟩ := Option.isSome_iff_exists.mp hfits
  obtain ⟨hunits_eq, hunits_fits⟩ := Decimal.toColumn_eq_some.mp hpersisted
  obtain ⟨hisolated_eq, -⟩ := Decimal.toColumn_eq_some.mp hisolated
  rw [hisolated, Option.some_inj, hisolated_eq, hunits_eq]
  exact units_eq_iff (hunits_eq ▸ hunits)

/-- For a context of `n` digits, in terms of the exact product: it reaches the same
halfway points with `n` digits as with 38. -/
theorem sameSide_prec_iff {n : ℕ} : SameSide (.prec n) command quote ↔ ∀ k, 0 < k →
    (Decimal.Reaches n (exactQuote command quote) (halfway k) ↔
      Decimal.Reaches 38 (exactQuote command quote) (halfway k)) := by
  simp only [← Decimal.le_roundDigits]
  rfl

end Columns

/-! ## Contexts of another precision -/

section Precision
variable {r : ℚ} {n : ℕ}

/-- Whatever is asked for and whatever the graph, the persisted quote is the
isolated one. -/
def Isolates (context : Decimal.Context) : Prop :=
  ∀ (command : SettlementCreate) edges version routes quote,
    computeRoutes edges version .usd = .ok routes →
    routes command.targetCurrency = some quote →
    (Decimal.toColumn 24 8 quote.aggregateRate).isSome → (isolatedQuote command quote).isSome →
    persistedQuote context command quote = isolatedQuote command quote

/-- A command for euros. -/
def inEuros (amountUsd : Units) (hpos : 0 < amountUsd) (hfits : Decimal.Fits 24 amountUsd) :
    SettlementCreate := ⟨amountUsd, .eur, hpos, hfits⟩

/-- One dollar. -/
def oneDollar : SettlementCreate := inEuros 100000000 (by decide) (by decide)

/-- Fifty cents. -/
def halfDollar : SettlementCreate := inEuros 50000000 (by decide) (by decide)

/-- Ten digits. -/
def tenDigits : ℚ := 1234567891 / 10 ^ 8

/-- Just below a halfway point, in 38 digits. -/
def belowHalfway : ℚ := 1000000005 / 10 ^ 9 - 1 / 10 ^ 37

/-- Half of it is just below a halfway point, in 39 digits. -/
def belowHalfwayTwice : ℚ := 200000001 / 10 ^ 8 - 1 / 10 ^ 37

/-- A route on which a context of `n` digits persists another value. -/
theorem not_isolates {context : Decimal.Context} {command : SettlementCreate} {units : Units}
    (hr : 0 < r) (htarget : command.targetCurrency = .eur)
    (hrate : (Decimal.toColumn 24 8 (oneQuote r).aggregateRate).isSome)
    (hisolated : isolatedQuote command (oneQuote r) = some units)
    (hpersisted : persistedQuote context command (oneQuote r) ≠ some units) :
    ¬ Isolates context := by
  intro h
  obtain ⟨routes, hroutes, hquote⟩ := computeRoutes_oneEdge hr
  refine hpersisted ((h command _ _ routes _ hroutes (htarget ▸ hquote) hrate ?_).trans hisolated)
  rw [hisolated]
  rfl

/-- Nine digits or fewer lose the last of ten. -/
theorem not_isolates_of_le (h : n ≤ 9) : ¬ Isolates (.prec n) := by
  refine not_isolates (r := tenDigits) (by decide +kernel) rfl (by decide +kernel)
    (show isolatedQuote oneDollar _ = some 1234567891 by decide +kernel) fun hpersisted => ?_
  have hproduct : Decimal.ofColumn 8 oneDollar.amountUsd * (oneQuote tenDigits).aggregateRate =
      tenDigits := by decide +kernel
  have hlog : Int.log 10 tenDigits = 1 := by decide +kernel
  obtain ⟨hunits, -⟩ := Decimal.toColumn_eq_some.mp hpersisted
  rw [Decimal.Context.mul, hproduct] at hunits
  -- the last unit kept is a multiple of ten units of the column
  have hulp : Decimal.ulp n tenDigits * 10 ^ 8 = 10 * 10 ^ (9 - n) := by
    rw [Decimal.ulp_eq (by decide +kernel), hlog, ← zpow_natCast, ← zpow_natCast,
      ← zpow_add₀ (by norm_num), ← zpow_one_add₀ (by norm_num)]
    congr 1
    omega
  have hmultiple : Decimal.roundDigits n tenDigits * 10 ^ 8 =
      ((10 * (Decimal.roundHalfEven (tenDigits / Decimal.ulp n tenDigits) * 10 ^ (9 - n)) : ℤ) :
        ℚ) := by
    rw [Decimal.roundDigits_eq, mul_assoc, hulp]
    push_cast
    ring
  change 1234567891 = Decimal.roundHalfAway (Decimal.roundDigits n tenDigits * 10 ^ 8) at hunits
  rw [hmultiple, Decimal.roundHalfAway_intCast] at hunits
  omega

/-- From ten digits to 37, a product just below a halfway point is rounded up to it. -/
theorem not_isolates_of_between (h : 10 ≤ n) (h' : n ≤ 37) : ¬ Isolates (.prec n) := by
  refine not_isolates (r := belowHalfway) (by decide +kernel) rfl (by decide +kernel)
    (show isolatedQuote oneDollar _ = some 100000000 by decide +kernel) fun hpersisted => ?_
  have hproduct : Decimal.ofColumn 8 oneDollar.amountUsd * (oneQuote belowHalfway).aggregateRate =
      belowHalfway := by decide +kernel
  have hlog : Int.log 10 belowHalfway = 0 := by decide +kernel
  obtain ⟨hunits, -⟩ := Decimal.toColumn_eq_some.mp hpersisted
  rw [Decimal.Context.mul, hproduct] at hunits
  obtain ⟨m, rfl⟩ := Nat.exists_eq_add_of_le h
  have hulp : Decimal.ulp (10 + m) belowHalfway = (10 ^ (9 + m))⁻¹ := by
    rw [Decimal.ulp_eq (by decide +kernel), hlog, ← zpow_natCast, ← zpow_neg]
    congr 1
    push_cast
    ring
  have hreaches : halfway 100000001 ≤ Decimal.roundDigits (10 + m) belowHalfway := by
    have hunit : halfway 100000001 / (10 ^ (9 + m))⁻¹ = ((1000000005 * 10 ^ m : ℤ) : ℚ) := by
      rw [halfway, div_inv_eq_mul, pow_add]
      push_cast
      ring
    have hquotient : belowHalfway / (10 ^ (9 + m))⁻¹ =
        1000000005 * 10 ^ m - 10 ^ m / 10 ^ 28 := by
      rw [belowHalfway, div_inv_eq_mul, pow_add]
      ring
    have hsmall : (10 : ℚ) ^ m ≤ 10 ^ 27 := pow_le_pow_right₀ (by norm_num) (by omega)
    rw [Decimal.le_roundDigits, Decimal.Reaches, hulp, hunit, Int.ceil_intCast, hquotient]
    left
    push_cast
    linarith
  have hle := (le_units (by norm_num)).mpr hreaches
  change 100000000 = Decimal.roundHalfAway (Decimal.roundDigits (10 + m) belowHalfway * 10 ^ 8)
    at hunits
  rw [← hunits] at hle
  omega

/-- From 39 digits on, one is not, where 38 digits round it up. -/
theorem not_isolates_of_ge (h : 39 ≤ n) : ¬ Isolates (.prec n) := by
  refine not_isolates (r := belowHalfwayTwice) (by decide +kernel) rfl (by decide +kernel)
    (show isolatedQuote halfDollar _ = some 100000001 by decide +kernel) fun hpersisted => ?_
  have hproduct : Decimal.ofColumn 8 halfDollar.amountUsd *
      (oneQuote belowHalfwayTwice).aggregateRate = belowHalfwayTwice / 2 := by decide +kernel
  have hlog : Int.log 10 (belowHalfwayTwice / 2) = 0 := by decide +kernel
  obtain ⟨m, rfl⟩ := Nat.exists_eq_add_of_le h
  have hulp : Decimal.ulp (39 + m) (belowHalfwayTwice / 2) = 1 / 10 ^ (38 + m) := by
    rw [Decimal.ulp_eq (by decide +kernel), hlog, one_div, ← zpow_natCast, ← zpow_neg]
    congr 1
    push_cast
    ring
  have hexact : Decimal.roundDigits (39 + m) (belowHalfwayTwice / 2) = belowHalfwayTwice / 2 := by
    refine Decimal.roundDigits_of_multiple (k := (1000000005 * 10 ^ 29 - 5) * 10 ^ m) ?_
    rw [hulp, belowHalfwayTwice]
    push_cast
    rw [pow_add]
    field_simp
    norm_num
  have hstored : persistedQuote (.prec (39 + m)) halfDollar (oneQuote belowHalfwayTwice) =
      Decimal.toColumn 32 8 (belowHalfwayTwice / 2) := by
    rw [persistedQuote, Decimal.Context.mul, hproduct]
    exact congrArg (Decimal.toColumn 32 8) hexact
  rw [hstored] at hpersisted
  revert hpersisted
  decide +kernel

/-- **Half to even, only 38 digits isolate.** -/
theorem isolates_prec_iff : Isolates (.prec n) ↔ n = 38 := by
  constructor
  · intro hisolates
    by_contra hne
    rcases Nat.lt_or_ge n 10 with hlow | hlow
    · exact not_isolates_of_le (by omega) hisolates
    · rcases Nat.lt_or_ge n 38 with hmid | hhigh
      · exact not_isolates_of_between hlow (by omega) hisolates
      · exact not_isolates_of_ge (by omega) hisolates
  · rintro rfl
    intro command edges version routes quote _ _ _ _
    rfl

end Precision

/-! ## The quote of a committed settlement -/

section Runs
variable {settings : Settings} {law : ProviderLaw} {s : State} {id : UUID} {row : Settlement id}

/-- **The persisted quote.**  A committed settlement was inserted by a `create`, and
its quoted amount is that of the call's amount and quote, in the context of the
call.  Where the isolated one fits the column, it is the same exactly when the
context keeps the product on its side of every halfway point; for a context of `n`
digits, when the exact product reaches the same halfway points with `n` digits as
with 38.  Of these contexts only that of 38 digits does so for all commands and
routes. -/
theorem quoted_amount_isolated_iff (h : (system settings law Database.Unused).Reachable s)
    (hrow : s.db.settlements.lookup id = some row) :
    (∃ w ownerId idempotencyKey command new acknowledged,
      ⟨w, .ran (.insertReserved new) (.ok ()) acknowledged⟩ ∈ s.trace ∧ new.id = id ∧
      ⟨w, .started (.create ownerId idempotencyKey command)⟩ ∈ s.trace ∧
      ⟨.quote command.targetCurrency, .ok new.quote⟩ ∈ history w s.trace ∧
      row.amountUsd = command.amountUsd ∧
      persistedQuote settings.context command new.quote = some row.quotedAmount ∧
      ((isolatedQuote command new.quote).isSome →
        (isolatedQuote command new.quote = some row.quotedAmount ↔
          SameSide settings.context command new.quote) ∧
        ∀ n, settings.context = .prec n →
          (isolatedQuote command new.quote = some row.quotedAmount ↔ ∀ k, 0 < k →
            (Decimal.Reaches n (exactQuote command new.quote) (halfway k) ↔
              Decimal.Reaches 38 (exactQuote command new.quote) (halfway k))))) ∧
    ∀ n, Isolates (.prec n) ↔ n = 38 := by
  refine ⟨?_, fun n => isolates_prec_iff⟩
  obtain ⟨w, ownerId, idempotencyKey, command, new, acknowledged, hran, rfl, hstarted, hrequests⟩ :=
    requested_of_lookup h hrow
  obtain ⟨row', status, hrow', hlookup⟩ := reports_of_reachable h hran
  obtain rfl := Option.some.inj (hrow.symm.trans hlookup)
  obtain ⟨-, -, -, hamount, -⟩ := NewSettlement.row_ok hrow'
  have hpersisted : persistedQuote settings.context command new.quote = some row'.quotedAmount := by
    rw [persistedQuote, ← hrequests.quotedAmount]
    exact (NewSettlement.row_quote hrow').2.1
  refine ⟨w, ownerId, idempotencyKey, command, new, acknowledged, hran, rfl, hstarted,
    hrequests.quote, hamount.trans (congrArg _ hrequests.command), hpersisted, fun hfits => ?_⟩
  have hiff := isolatedQuote_eq_iff hpersisted row'.quote_positive hfits
  refine ⟨hiff, fun n hcontext => hiff.trans ?_⟩
  rw [hcontext]
  exact sameSide_prec_iff

end Runs

/-! ## A settlement that was just inserted -/

/-- What a lone `create` inserts. -/
abbrev loneNew (settings : Settings) (command : SettlementCreate) (quote : RouteQuote) :
    NewSettlement where
  id := 7
  ownerId := "ada"
  idempotencyKey := "key-1"
  requestFingerprint := requestFingerprint settings.sha256 "ada" command
  command := command
  quote := quote
  quotedAmount := settings.context.mul (Decimal.ofColumn 8 command.amountUsd) quote.aggregateRate

theorem lone_inserted {settings : Settings} {command : SettlementCreate} {quote : RouteQuote}
    {db : Database}
    (hinsert : insertReserved (loneNew settings command quote) sampleStart = .ok ((), db)) :
    ∃ s, (system settings .contract Database.Unused).Reachable s ∧ s.db = db ∧
      s.trace = [⟨0, .ran (.insertReserved (loneNew settings command quote)) (.ok ()) true⟩,
        ⟨0, .answered .uuid4 (.ok 7)⟩,
        ⟨0, .answered (.quote command.targetCurrency) (.ok quote)⟩,
        ⟨0, .ran (.findByKey "ada" "key-1") (.ok none) true⟩,
        ⟨0, .started (.create "ada" "key-1" command)⟩] := by
  have h0 : (within settings .contract Database.Unused fun _ => True).Reachable
      ⟨⟨sampleStart, 0, fun _ => none, [], []⟩, fun _ => .idle⟩ :=
    .init ⟨sampleStart_unused, fun _ => rfl, rfl, rfl, rfl⟩
  have h1 := run_start h0 0 (.create "ada" "key-1" command) rfl (fun _ heq => by cases heq)
    trivial
  have h2 := run_commit h1 0 (fun _ => 0) none sampleStart rfl
    (not_blocked fun _ heq => by cases heq) rfl trivial
  have h3 := run_advance h2 0 rfl (.quotes (.ok quote) fun _ heq => by cases heq) trivial
  have h4 := run_advance h3 0 rfl (.draws 7) trivial
  have h5 := run_commit (t := .insertReserved (loneNew settings command quote)) h4 0 (fun _ => 0)
    () db rfl ?_ hinsert trivial
  · exact ⟨_, h5.of_restrict, rfl, rfl⟩
  · -- no other worker is running
    rintro ⟨new, row, -, -, v, other, hv, ⟨call, next, hworker⟩, -⟩
    simp only [Function.update_of_ne hv] at hworker
    cases hworker

/-- A service whose tasks run in the default context of 28 digits. -/
def defaultSettings : Settings := ⟨id, .prec 28, 10000000⟩

/-- Nine euros for ten dollars are isolated by 28 digits, though not every quote is. -/
theorem quoted_amount_isolated_iff_default :
    ∃ s row, (system defaultSettings .contract Database.Unused).Reachable s ∧
      s.db.settlements.lookup 7 = some row ∧ row.quotedAmount = 9000000000 ∧
      persistedQuote (.prec 28) sampleCommand sampleQuote = some row.quotedAmount ∧
      isolatedQuote sampleCommand sampleQuote = some row.quotedAmount ∧
      (∀ k, 0 < k → (Decimal.Reaches 28 (exactQuote sampleCommand sampleQuote) (halfway k) ↔
        Decimal.Reaches 38 (exactQuote sampleCommand sampleQuote) (halfway k))) ∧
      ¬ Isolates (.prec 28) := by
  have hrate : Decimal.toColumn 24 8 sampleQuote.aggregateRate = some 90000000 := by
    decide +kernel
  have hquoted : Decimal.toColumn 32 8
      (loneNew defaultSettings sampleCommand sampleQuote).quotedAmount = some 9000000000 := by
    decide +kernel
  have hisolated : isolatedQuote sampleCommand sampleQuote = some 9000000000 := by decide +kernel
  obtain ⟨row, db, hamount, hinsert, hlookup⟩ : ∃ row db, row.quotedAmount = 9000000000 ∧
      insertReserved (loneNew defaultSettings sampleCommand sampleQuote) sampleStart =
        .ok ((), db) ∧ db.settlements.lookup 7 = some row := by
    unfold insertReserved NewSettlement.row
    rw [hrate, hquoted]
    exact ⟨_, _, rfl, rfl, rfl⟩
  obtain ⟨s, h, rfl, htrace⟩ := lone_inserted hinsert
  obtain ⟨⟨w, ownerId, idempotencyKey, command, new, acknowledged, hran, -, hstarted, -, -,
    hpersisted, hiff⟩, hall⟩ := quoted_amount_isolated_iff h hlookup
  -- the trace has one insert and one call
  obtain rfl : new = loneNew defaultSettings sampleCommand sampleQuote := by
    simp only [htrace, List.mem_cons, List.not_mem_nil, or_false, Event.mk.injEq] at hran
    obtain ⟨-, haction⟩ | ⟨-, haction⟩ | ⟨-, haction⟩ | ⟨-, haction⟩ | ⟨-, haction⟩ := hran
    all_goals cases haction
    rfl
  obtain rfl : command = sampleCommand := by
    simp only [htrace, List.mem_cons, List.not_mem_nil, or_false, Event.mk.injEq] at hstarted
    obtain ⟨-, haction⟩ | ⟨-, haction⟩ | ⟨-, haction⟩ | ⟨-, haction⟩ | ⟨-, haction⟩ := hstarted
    all_goals cases haction
    rfl
  have hsame : isolatedQuote sampleCommand sampleQuote = some row.quotedAmount := by
    rw [hisolated, hamount]
  obtain ⟨-, hdigits⟩ := hiff (Option.isSome_of_eq_some hsame)
  refine ⟨s, row, h, hlookup, hamount, hpersisted, hsame, (hdigits 28 rfl).mp hsame, ?_⟩
  rw [hall 28]
  decide

/-! ## A quote that is not the isolated one -/

/-- What `create` inserts at that rate, in the default context. -/
abbrev unisolatedNew : NewSettlement where
  id := 7
  ownerId := "ada"
  idempotencyKey := "key-1"
  requestFingerprint := requestFingerprint defaultSettings.sha256 "ada" oneDollar
  command := oneDollar
  quote := oneQuote belowHalfway
  quotedAmount := defaultSettings.context.mul (Decimal.ofColumn 8 oneDollar.amountUsd)
    (oneQuote belowHalfway).aggregateRate

/-- The quoted amount is persisted a unit too high. -/
theorem not_isolated_default : ∃ s routes row,
    (system defaultSettings .contract Database.Unused).Reachable s ∧
    computeRoutes (oneEdge belowHalfway) 1 .usd = .ok routes ∧
    routes .eur = some (oneQuote belowHalfway) ∧
    ⟨0, .started (.create "ada" "key-1" oneDollar)⟩ ∈ s.trace ∧
    ⟨.quote .eur, .ok (oneQuote belowHalfway)⟩ ∈ history 0 s.trace ∧
    s.db.settlements.lookup 7 = some row ∧ row.quotedAmount = 100000001 ∧
    isolatedQuote oneDollar (oneQuote belowHalfway) = some 100000000 := by
  obtain ⟨routes, hroutes, hquote⟩ := computeRoutes_oneEdge (r := belowHalfway) (by decide +kernel)
  have hrate : Decimal.toColumn 24 8 unisolatedNew.quote.aggregateRate = some 100000000 := by
    decide +kernel
  -- the product was rounded up to 28 digits before
  have hquoted : Decimal.toColumn 32 8 unisolatedNew.quotedAmount = some 100000001 := by
    decide +kernel
  obtain ⟨row, db, hrow, hinsert, hlookup⟩ : ∃ row db, row.quotedAmount = 100000001 ∧
      insertReserved unisolatedNew sampleStart = .ok ((), db) ∧
      db.settlements.lookup 7 = some row := by
    unfold insertReserved NewSettlement.row
    rw [hrate, hquoted]
    exact ⟨_, _, rfl, rfl, rfl⟩
  obtain ⟨s, h, rfl, htrace⟩ := lone_inserted hinsert
  refine ⟨s, routes, row, h, hroutes, hquote, ?_, ?_, hlookup, hrow, by decide +kernel⟩
  · simp [htrace]
  · rw [htrace]
    exact .tail _ (.tail _ (.head _))

end SettlementRouter
