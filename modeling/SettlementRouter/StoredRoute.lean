import SettlementRouter.Numerals
import SettlementRouter.QuotedAmount
import SettlementRouter.RateBook
import SettlementRouter.RoundedRoutes

/-! # The stored route

`create` stores the hops of its quote as JSON, with the rates as text, beside the
aggregate rate.  The hops of a route are quotes of the market, the best ones of their
currency pairs, in a row from the source to the target, and the aggregate rate is
their product from left to right.  Reading the rates back and multiplying them gives
the rate of the row (`stored_quote_rederived`).
-/
namespace SettlementRouter

open Network

/-! ## The hops of a route -/

/-- A quote is what its hops say. -/
structure Derived (edges : List Edge) (source target : Currency) (quote : RouteQuote) : Prop where
  nonempty : quote.hops ≠ []
  starts : ∀ hop ∈ quote.hops.head?, hop.source = source
  ends : ∀ hop ∈ quote.hops.getLast?, hop.target = target
  linked : quote.hops.IsChain fun hop next => hop.target = next.source
  best : ∀ hop ∈ quote.hops, BestQuote edges hop
  product : quote.aggregateRate = (quote.hops.map RouteHop.rate).foldl routingContext.mul 1

theorem derived_of_routed {edges : List Edge} {version : ℤ} {source target : Currency}
    {routes : Currency → Option RouteQuote} {quote : RouteQuote}
    (h : computeRoutes edges version source = .ok routes) (hquote : routes target = some quote) :
    Derived edges source target quote := by
  obtain ⟨htarget, hwalk, hproduct⟩ := bestWalk_of_routed h hquote
  refine ⟨?_, fun hop hhop => hwalk.head hhop, fun hop hhop => hwalk.last hhop, hwalk.isChain,
    fun hop hhop => hwalk.arc_of_mem hhop, hproduct⟩
  intro hempty
  rw [hempty] at hwalk
  exact htarget hwalk.symm

/-! ## The JSON of a route -/

/-- A hop in the `route` column. -/
structure StoredHop where
  source : String
  target : String
  lp : String
  rate : String
  deriving DecidableEq

/-- What `create` stores of a hop, whose rate is this decimal. -/
def storeHop (hop : RouteHop) (rate : Decimal.Numeral) : StoredHop where
  source := hop.source.value
  target := hop.target.value
  lp := hop.lp
  rate := rate.str

/-- `Currency(value)`. -/
def Currency.ofValue (value : String) : Option Currency :=
  [usd, usdc, eur, php, aed].find? fun currency => currency.value = value

/-- `RouteHopRead.model_validate(hop)`. -/
def readHop (stored : StoredHop) : Option RouteHop := do
  let source ← Currency.ofValue stored.source
  let target ← Currency.ofValue stored.target
  let rate ← Decimal.Numeral.parse stored.rate
  return ⟨source, target, stored.lp, rate.value⟩

/-- The rates of the hops are these decimals. -/
def Spells (rates : List Decimal.Numeral) (hops : List RouteHop) : Prop :=
  rates.Forall₂ (fun rate hop => rate.value = hop.rate) hops

/-- The JSON of a route. -/
def storedRoute (rates : List Decimal.Numeral) (hops : List RouteHop) : List StoredHop :=
  List.zipWith storeHop hops rates

/-- The rate of a stored route: the rates read back, multiplied in order, and rounded
to eight decimals. -/
def rederivedRate (route : List StoredHop) : Option Units := do
  let hops ← route.mapM readHop
  Decimal.toColumn 24 8 ((hops.map RouteHop.rate).foldl routingContext.mul 1)

theorem ofValue_value (currency : Currency) : Currency.ofValue currency.value = some currency := by
  cases currency <;> decide

theorem readHop_storeHop {hop : RouteHop} {rate : Decimal.Numeral} (hrate : rate.value = hop.rate) :
    readHop (storeHop hop rate) = some hop := by
  simp [readHop, storeHop, ofValue_value, Decimal.Numeral.parse_str, hrate]

/-- **What was stored is read back.** -/
theorem readRoute_storedRoute {rates : List Decimal.Numeral} {hops : List RouteHop}
    (h : Spells rates hops) : (storedRoute rates hops).mapM readHop = some hops := by
  induction h with
  | nil => rfl
  | cons hrate _ ih =>
    rw [storedRoute, List.zipWith_cons_cons, List.mapM_cons, readHop_storeHop hrate]
    rw [storedRoute] at ih
    simp [ih]

/-! ## Quotes of a rate book -/

/-- The rate books that the service can come to ask, from an empty one. -/
inductive RateBook.Serving (factory : EdgeFactory) : RateBook → Prop
  | empty : Serving factory .empty
  | publish {book book' edges version} : Serving factory book →
      book.publish edges version = .ok book' → Serving factory book'
  | start {book book'} : Serving factory book → book.start factory = .ok book' →
      Serving factory book'
  | tick {book} : Serving factory book → Serving factory (book.tick factory)
  | stop {book} : Serving factory book → Serving factory { book with publisher := .absent }

namespace RateBook
variable {factory : EdgeFactory} {book book' : RateBook}

/-- The snapshot holds what was computed of some edges. -/
def Computed (book : RateBook) : Prop :=
  ∀ snapshot ∈ book.snapshot, ∃ edges,
    computeRoutes edges snapshot.version .usd = .ok snapshot.routes

theorem Computed.publish {edges : List Edge} {version : ℤ}
    (h : book.publish edges version = .ok book') : book'.Computed := by
  unfold RateBook.publish at h
  cases hroutes : computeRoutes edges version .usd with
  | error error =>
    rw [hroutes] at h
    cases h
  | ok routes =>
    rw [hroutes] at h
    cases h
    rintro snapshot ⟨⟩
    exact ⟨edges, hroutes⟩

theorem Computed.of_snapshot (h : book.Computed) (hsnapshot : book'.snapshot = book.snapshot) :
    book'.Computed := by
  intro snapshot hmem
  rw [hsnapshot] at hmem
  exact h snapshot hmem

theorem Computed.start (hbook : book.Computed) (h : book.start factory = .ok book') :
    book'.Computed := by
  unfold RateBook.start at h
  split_ifs at h
  · cases h
    exact hbook
  · split at h
    · cases h
      exact hbook.of_snapshot rfl
    · cases hpublish : RateBook.publish { book with calls := book.calls + 1 }
          (factory book.calls 1) 1 with
      | error error =>
        rw [hpublish] at h
        cases h
      | ok published =>
        rw [hpublish] at h
        cases h
        exact (Computed.publish hpublish).of_snapshot rfl

theorem Computed.tick (hbook : book.Computed) : (book.tick factory).Computed := by
  unfold RateBook.tick
  split_ifs
  · exact hbook
  · split
    · exact hbook.of_snapshot rfl
    · dsimp only
      split
      · exact Computed.publish ‹_›
      · exact hbook.of_snapshot rfl

theorem computed_of_serving (h : Serving factory book) : book.Computed := by
  induction h with
  | empty => exact fun snapshot hsnapshot => nomatch hsnapshot
  | publish _ hpublish => exact .publish hpublish
  | start _ hstart ih => exact ih.start hstart
  | tick _ ih => exact ih.tick
  | stop _ ih => exact ih

/-- What a rate book quotes is a computed route. -/
theorem routed_of_quote (h : Serving factory book) {target : Currency} {quote : RouteQuote}
    (hquote : book.quote target = some quote) : ∃ edges version routes,
      computeRoutes edges version .usd = .ok routes ∧ routes target = some quote := by
  obtain ⟨snapshot, hsnapshot, hquote⟩ := Option.bind_eq_some_iff.mp hquote
  obtain ⟨edges, hroutes⟩ := computed_of_serving h snapshot hsnapshot
  exact ⟨edges, _, _, hroutes, hquote⟩

end RateBook

/-- What the service was quoted, a rate book quoted. -/
def QuotesServed (factory : EdgeFactory) (s : State) : Prop :=
  ∀ w target quote, ⟨.quote target, .ok quote⟩ ∈ history w s.trace →
    ∃ book, RateBook.Serving factory book ∧ book.quote target = some quote

section Runs
variable {settings : Settings} {law : ProviderLaw} {s : State} {id : UUID} {row : Settlement id}
  {factory : EdgeFactory}

/-- A committed settlement holds a computed route and its rate. -/
theorem routed_of_lookup (h : (system settings law Database.Unused).Reachable s)
    (hserved : QuotesServed factory s) (hrow : s.db.settlements.lookup id = some row) :
    ∃ edges version routes target quote, computeRoutes edges version .usd = .ok routes ∧
      routes target = some quote ∧ row.route = quote.hops ∧
      Decimal.toColumn 24 8 quote.aggregateRate = some row.aggregateRate := by
  obtain ⟨w, ownerId, idempotencyKey, command, new, acknowledged, hran, rfl, -, hrequests⟩ :=
    requested_of_lookup h hrow
  obtain ⟨row', status, hrow', hlookup⟩ := reports_of_reachable h hran
  obtain rfl := Option.some.inj (hrow.symm.trans hlookup)
  obtain ⟨hrate, -, hroute⟩ := NewSettlement.row_quote hrow'
  obtain ⟨book, hserving, hquote⟩ := hserved w _ _ hrequests.quote
  obtain ⟨edges, version, routes, hroutes, hrouted⟩ := RateBook.routed_of_quote hserving hquote
  exact ⟨edges, version, routes, _, new.quote, hroutes, hrouted, hroute, hrate⟩

end Runs

/-- **The stored quote can be derived again from the stored route.**  Every route is a
row of best quotes from the source to the target, and its rate their product from left
to right; so the rate that is read from the JSON of a committed settlement, with its
rates spelled in any way, is that of its row. -/
theorem stored_quote_rederived :
    (∀ edges version source routes target quote,
      computeRoutes edges version source = .ok routes → routes target = some quote →
      Derived edges source target quote) ∧
    ∀ settings law factory s id row rates,
      (system settings law Database.Unused).Reachable s → QuotesServed factory s →
      s.db.settlements.lookup id = some row → Spells rates row.route →
      (storedRoute rates row.route).mapM readHop = some row.route ∧
        rederivedRate (storedRoute rates row.route) = some row.aggregateRate := by
  refine ⟨fun edges version source routes target quote => derived_of_routed,
    fun settings law factory s id row rates h hserved hrow hrates => ?_⟩
  have hread := readRoute_storedRoute hrates
  refine ⟨hread, ?_⟩
  obtain ⟨edges, version, routes, target, quote, hroutes, hquote, hroute, hrate⟩ :=
    routed_of_lookup h hserved hrow
  rw [rederivedRate, hread, hroute]
  change Decimal.toColumn 24 8 _ = _
  rw [← (derived_of_routed hroutes hquote).product]
  exact hrate

/-- A settlement that goes over the stablecoin. -/
theorem stored_overUsdc : ∃ s row,
    (system sampleSettings .contract Database.Unused).Reachable s ∧
    QuotesServed (fun _ _ => overUsdc) s ∧ s.db.settlements.lookup 7 = some row ∧
    row.route = overUsdcQuote.hops := by
  obtain ⟨routes, hroutes, hquote⟩ := computeRoutes_overUsdc
  have hrate : Decimal.toColumn 24 8 overUsdcQuote.aggregateRate = some 90000000 := by
    decide +kernel
  have hquoted : Decimal.toColumn 32 8
      (loneNew sampleSettings sampleCommand overUsdcQuote).quotedAmount = some 9000000000 := by
    decide +kernel
  obtain ⟨row, db, hroute, hinsert, hlookup⟩ : ∃ row db, row.route = overUsdcQuote.hops ∧
      insertReserved (loneNew sampleSettings sampleCommand overUsdcQuote) sampleStart =
        .ok ((), db) ∧ db.settlements.lookup 7 = some row := by
    unfold insertReserved NewSettlement.row
    rw [hrate, hquoted]
    exact ⟨_, _, rfl, rfl, rfl⟩
  obtain ⟨s, h, rfl, htrace⟩ := lone_inserted hinsert
  refine ⟨s, row, h, fun w target quote hseen => ?_, hlookup, hroute⟩
  have hstart : RateBook.empty.start (fun _ _ => overUsdc) =
      .ok ⟨some ⟨1, routes⟩, .ticking, 1⟩ := by
    simp [RateBook.start, RateBook.empty, RateBook.publish_of_accepted hroutes]
  refine ⟨_, .start .empty hstart, ?_⟩
  obtain ⟨action, haction, hseen⟩ := mem_history hseen
  rw [htrace] at haction
  simp only [List.mem_cons, List.not_mem_nil, or_false, Event.mk.injEq] at haction
  rcases haction with ⟨-, rfl⟩ | ⟨-, rfl⟩ | ⟨-, rfl⟩ | ⟨-, rfl⟩ | ⟨-, rfl⟩
  · cases hseen
  · cases hseen
  · cases hseen
    exact hquote
  · cases hseen
  · cases hseen

/-- Two hops, the second of them at "0.9". -/
theorem stored_quote_rederived_overUsdc :
    (∃ routes, computeRoutes overUsdc 1 .usd = .ok routes ∧
      Derived overUsdc .usd .eur overUsdcQuote) ∧
    ∃ s row, (system sampleSettings .contract Database.Unused).Reachable s ∧
      s.db.settlements.lookup 7 = some row ∧
      rederivedRate [⟨"USD", "USDC", "LP_A", "1"⟩, ⟨"USDC", "EUR", "LP_A", "0.9"⟩] =
        some row.aggregateRate := by
  obtain ⟨routes, hroutes, hquote⟩ := computeRoutes_overUsdc
  refine ⟨⟨routes, hroutes, stored_quote_rederived.1 _ _ _ _ _ _ hroutes hquote⟩, ?_⟩
  obtain ⟨s, row, h, hserved, hrow, hroute⟩ := stored_overUsdc
  have hrates : Spells [⟨1, 0⟩, ⟨9, -1⟩] row.route := by
    rw [hroute]
    exact .cons (by decide +kernel) (.cons (by decide +kernel) .nil)
  have hstored : storedRoute [⟨1, 0⟩, ⟨9, -1⟩] row.route =
      [⟨"USD", "USDC", "LP_A", "1"⟩, ⟨"USDC", "EUR", "LP_A", "0.9"⟩] := by
    rw [hroute]
    decide +kernel
  have hrederived := (stored_quote_rederived.2 _ _ _ s 7 row _ h hserved hrow hrates).2
  exact ⟨s, row, h, hrow, hstored ▸ hrederived⟩

end SettlementRouter
