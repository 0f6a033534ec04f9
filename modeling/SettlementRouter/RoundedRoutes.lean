import SettlementRouter.RouteOptimality
import SettlementRouter.Rounding

/-! # Routes in rounded arithmetic

With every product rounded, multiplication is monotone but not associative, so a
cycle whose exact product is one can still carry a value to the next one.  What
the relaxation finds is then no longer a simple path, but it is still the best
walk: of the greatest rounded product among all walks, however long
(`computeRoutes_rounded`).  A currency is visited again only where going round
gained.
-/
namespace SettlementRouter

open Network

/-- The rounded products of the simple paths, which an exhaustive search would
compare. -/
def simpleRates (ctx : Decimal.Context) (edges : List Edge) (source target : Currency) : Set ℚ :=
  {rate | ∃ p, (market ctx edges).IsWalk source p target ∧
    ((market ctx edges).nodes source p).Nodup ∧ (market ctx edges).value p = rate}

/-- What a route in rounded arithmetic is. -/
structure IsRoundedRoute (ctx : Decimal.Context) (edges : List Edge) (version : ℤ)
    (source target : Currency) (quote : RouteQuote) : Prop where
  version_eq : quote.snapshotVersion = version
  target_eq : quote.target = target
  walk : (market ctx edges).IsWalk source quote.hops target
  short : quote.hops.length < Fintype.card Currency
  rate_eq : quote.aggregateRate = (market ctx edges).value quote.hops
  maximal : ∀ p, (market ctx edges).IsWalk source p target →
    (market ctx edges).value p ≤ quote.aggregateRate
  gains : ∀ a p q u, quote.hops = a ++ p ++ q → (market ctx edges).IsWalk source a u →
    (market ctx edges).IsWalk u p u → p ≠ [] →
    (market ctx edges).value a < (market ctx edges).value (a ++ p)

/-- No closed walk that the source reaches carries a greater value. -/
def NeverGains (ctx : Decimal.Context) (edges : List Edge) (source : Currency) : Prop :=
  ∀ a p u, (market ctx edges).IsWalk source a u → (market ctx edges).IsWalk u p u →
    (a ++ p).length < Fintype.card Currency →
    (market ctx edges).value (a ++ p) ≤ (market ctx edges).value a

section Routes
variable {ctx : Decimal.Context} {edges : List Edge} {version : ℤ} {source target : Currency}
  {quote : RouteQuote}

theorem IsRoundedRoute.nodup (h : IsRoundedRoute ctx edges version source target quote)
    (hgains : NeverGains ctx edges source) :
    ((market ctx edges).nodes source quote.hops).Nodup := by
  by_contra hnodup
  obtain ⟨a, p, q, u, hsplit, hne, ha, hp, -⟩ := h.walk.exists_cycle hnodup
  refine not_lt.mpr (hgains a p u ha hp ?_) (h.gains a p q u hsplit ha hp hne)
  have hlength := h.short
  rw [hsplit, List.length_append] at hlength
  omega

/-- A simple route has the rate the exhaustive search finds. -/
theorem IsRoundedRoute.isGreatest (h : IsRoundedRoute ctx edges version source target quote)
    (hnodup : ((market ctx edges).nodes source quote.hops).Nodup) :
    IsGreatest (simpleRates ctx edges source target) quote.aggregateRate := by
  refine ⟨⟨quote.hops, h.walk, hnodup, h.rate_eq.symm⟩, ?_⟩
  rintro _ ⟨p, hp, -, rfl⟩
  exact h.maximal p hp

/-- The rate is what the exhaustive search finds unless some walk rounds above all
simple paths. -/
theorem IsRoundedRoute.isGreatest_iff (h : IsRoundedRoute ctx edges version source target quote) :
    IsGreatest (simpleRates ctx edges source target) quote.aggregateRate ↔
      ∀ p, (market ctx edges).IsWalk source p target → ∃ rate ∈ simpleRates ctx edges source target,
        (market ctx edges).value p ≤ rate := by
  constructor
  · intro hgreatest p hp
    exact ⟨quote.aggregateRate, hgreatest.1, h.maximal p hp⟩
  · intro hmatched
    obtain ⟨rate, hrate, hle⟩ := hmatched quote.hops h.walk
    have heq : quote.aggregateRate = rate := by
      apply le_antisymm
      · rw [h.rate_eq]
        exact hle
      · obtain ⟨p, hp, -, rfl⟩ := hrate
        exact h.maximal p hp
    refine ⟨heq ▸ hrate, ?_⟩
    rintro _ ⟨p, hp, -, rfl⟩
    exact h.maximal p hp

end Routes

/-! ## The relaxation in a context that rounds monotonely -/

section Monotone
variable {ctx : Decimal.Context} {edges : List Edge} {version : ℤ} {source target u v : Currency}
  {p : List RouteHop} {collapsed : List RouteHop} {best : Best}

theorem carry_monotone (hround : Monotone ctx.round) (hpos : AllPositive edges) (hop : RouteHop)
    (hhop : BestQuote edges hop) :
    Monotone fun r => (bestMarket ctx edges).carry r hop := by
  intro r r' hle
  exact hround (mul_le_mul_of_nonneg_right hle (hpos.rate_pos hhop.1).le)

/-- A walk over the quotes carries no more than the walk along the best quotes of
the same currency pairs. -/
theorem exists_best_carry (hround : Monotone ctx.round) (hzero : ctx.round 0 = 0)
    (hpos : AllPositive edges) (hp : (market ctx edges).IsWalk u p v) :
    ∃ q, (bestMarket ctx edges).IsWalk u q v ∧ ∀ r r', 0 ≤ r → r ≤ r' →
      p.foldl (market ctx edges).carry r ≤ q.foldl (bestMarket ctx edges).carry r' := by
  refine hp.matched fun hop hhop => ?_
  obtain ⟨best, hbest, hs, ht, hrate⟩ := exists_bestQuote hpos hhop
  exact ⟨best, hbest, hs, ht, fun r r' hr hle =>
    Decimal.Context.mul_le_mul hround hzero hr hle (hpos.rate_pos hhop).le hrate⟩

/-- The extra round of an accepted graph finds nothing better. -/
theorem not_improved {extra : Best} (h : ¬ ∃ target, improved best extra target) :
    ∀ v c', extra v = some c' → ∃ c, best v = some c ∧ c'.1 ≤ c.1 := by
  intro v c' hc'
  have hv := not_exists.mp h v
  unfold improved at hv
  rw [hc'] at hv
  cases hbest : best v with
  | none => simp [hbest] at hv
  | some c =>
    simp only [hbest, decide_eq_true_eq, not_lt] at hv
    exact ⟨c, rfl, hv⟩

/-- Where routes are returned, no rate is bad and a further round finds nothing better. -/
theorem computeRoutesIn_ok {routes : Currency → Option RouteQuote}
    (h : computeRoutesIn ctx edges version source = .ok routes) :
    ∃ collapsed best, collapsedEdges edges = .ok collapsed ∧
      rounds ctx collapsed (Fintype.card Currency - 1) (initialBest source) = best ∧
      (¬ ∃ target, improved best (relax ctx best collapsed) target) ∧
      routes = fun target => if target = source then none
        else (best target).map fun candidate => ⟨version, target, candidate.1, candidate.2⟩ := by
  unfold computeRoutesIn at h
  cases hc : collapsedEdges edges with
  | error error =>
    rw [hc] at h
    cases h
  | ok collapsed =>
    rw [hc] at h
    dsimp only at h
    split_ifs at h with himproved
    injection h with h
    exact ⟨collapsed, _, rfl, rfl, himproved, h.symm⟩

/-- Every walk is matched by the entry of its end. -/
theorem entry_dominates (hround : Monotone ctx.round) (hzero : ctx.round 0 = 0)
    (hc : collapsedEdges edges = .ok collapsed)
    (hbest : rounds ctx collapsed (Fintype.card Currency - 1) (initialBest source) = best)
    (hsettled : ¬ ∃ target, improved best (relax ctx best collapsed) target)
    (hp : (market ctx edges).IsWalk source p target) :
    ∃ candidate, best target = some candidate ∧ (market ctx edges).value p ≤ candidate.1 := by
  have hpos := allPositive_of_collapsed hc
  have hrounds := rounds_spec ctx collapsed (Fintype.card Currency - 1) (initialBest source)
  have hrelaxed := relax_relaxed ctx best collapsed
  rw [hbest, network_collapsed ctx hc] at hrounds
  rw [network_collapsed ctx hc] at hrelaxed
  obtain ⟨q, hq, hle⟩ := exists_best_carry hround hzero hpos hp
  obtain ⟨candidate, hentry, hvalue⟩ := hrelaxed.dominates (carry_monotone hround hpos) hrounds
    (not_improved hsettled) hq
  exact ⟨candidate, hentry, (hle 1 1 zero_le_one le_rfl).trans hvalue⟩

theorem isRoundedRoute_of_entry (hround : Monotone ctx.round) (hzero : ctx.round 0 = 0)
    (hc : collapsedEdges edges = .ok collapsed)
    (hbest : rounds ctx collapsed (Fintype.card Currency - 1) (initialBest source) = best)
    (hsettled : ¬ ∃ target, improved best (relax ctx best collapsed) target)
    {candidate : Candidate} (hentry : best target = some candidate) :
    IsRoundedRoute ctx edges version source target
      ⟨version, target, candidate.1, candidate.2⟩ := by
  obtain ⟨rate, hops⟩ := candidate
  have hrounds := rounds_spec ctx collapsed (Fintype.card Currency - 1) (initialBest source)
  rw [hbest, network_collapsed ctx hc] at hrounds
  obtain ⟨hwalk, hrate, hlength⟩ := hrounds.sound hentry
  refine ⟨rfl, rfl, isWalk_market hwalk, ?_, hrate, ?_, ?_⟩
  · rw [card_currency] at hlength ⊢
    exact Nat.lt_succ_of_le hlength
  · intro p hp
    obtain ⟨candidate, hcandidate, hle⟩ := entry_dominates hround hzero hc hbest hsettled hp
    obtain rfl := Option.some.inj (hentry.symm.trans hcandidate)
    exact hle
  · rintro a p q u rfl ha hp hne
    -- parts of a walk over the best quotes are walks over the best quotes
    obtain ⟨w, hap, -⟩ := isWalk_append.mp hwalk
    obtain ⟨u', ha', hp'⟩ := isWalk_append.mp hap
    obtain rfl := (isWalk_market ha').end_unique ha
    obtain rfl := (isWalk_market hp').end_unique hp
    exact hrounds.gains hentry ha' hp' hne

end Monotone

section Returned
variable {edges : List Edge} {version : ℤ} {source target : Currency} {quote : RouteQuote}
  {routes : Currency → Option RouteQuote}

/-- Routes are returned for the currencies that the source reaches. -/
theorem routed_iff_reaches (h : computeRoutes edges version source = .ok routes) :
    (routes target).isSome ↔
      target ≠ source ∧ (market routingContext edges).Reaches source target := by
  have hround : Monotone routingContext.round := Decimal.roundDigits_monotone (by norm_num)
  obtain ⟨collapsed, best, hc, hbest, hsettled, rfl⟩ := computeRoutesIn_ok h
  by_cases ht : target = source
  · simp [ht]
  · simp only [ht, if_false, Option.isSome_map, ne_eq, not_false_eq_true, true_and]
    constructor
    · intro hsome
      obtain ⟨candidate, hentry⟩ := Option.isSome_iff_exists.mp hsome
      have hroute : IsRoundedRoute routingContext edges version source target _ :=
        isRoundedRoute_of_entry hround Decimal.roundDigits_zero hc hbest hsettled hentry
      exact ⟨candidate.2, hroute.walk⟩
    · rintro ⟨p, hp⟩
      obtain ⟨candidate, hentry, -⟩ :=
        entry_dominates hround Decimal.roundDigits_zero hc hbest hsettled hp
      exact Option.isSome_iff_exists.mpr ⟨candidate, hentry⟩

/-- A route that is returned is a rounded route. -/
theorem isRoundedRoute_of_routed (h : computeRoutes edges version source = .ok routes)
    (hquote : routes target = some quote) :
    IsRoundedRoute routingContext edges version source target quote := by
  obtain ⟨collapsed, best, hc, hbest, hsettled, rfl⟩ := computeRoutesIn_ok h
  dsimp only at hquote
  split_ifs at hquote
  obtain ⟨candidate, hentry, rfl⟩ := Option.map_eq_some_iff.mp hquote
  exact isRoundedRoute_of_entry (Decimal.roundDigits_monotone (by norm_num))
    Decimal.roundDigits_zero hc hbest hsettled hentry

/-- It goes along the best quotes, from the source to another currency, and its rate is
their product, taken from left to right. -/
theorem bestWalk_of_routed (h : computeRoutes edges version source = .ok routes)
    (hquote : routes target = some quote) :
    target ≠ source ∧ (bestMarket routingContext edges).IsWalk source quote.hops target ∧
      quote.aggregateRate = (quote.hops.map RouteHop.rate).foldl routingContext.mul 1 := by
  obtain ⟨collapsed, best, hc, hbest, -, rfl⟩ := computeRoutesIn_ok h
  dsimp only at hquote
  split_ifs at hquote with ht
  obtain ⟨candidate, hentry, rfl⟩ := Option.map_eq_some_iff.mp hquote
  have hrounds := rounds_spec routingContext collapsed (Fintype.card Currency - 1)
    (initialBest source)
  rw [hbest, network_collapsed routingContext hc] at hrounds
  obtain ⟨hwalk, hrate, -⟩ := hrounds.sound hentry
  refine ⟨ht, hwalk, hrate.trans ?_⟩
  rw [List.foldl_map]
  rfl

end Returned

/-- **Rounded routes.**  Of every accepted graph, in the context of 38 digits: the
currencies the source reaches have a route; it is the walk of the greatest rounded
product among all walks, and comes back to a currency only where that gained.  Its
rate is that of the best simple path exactly when no walk rounds above all of them;
where it is a simple path itself that is so, and where no closed walk gains every
route is one. -/
theorem computeRoutes_rounded {edges : List Edge} {version : ℤ} {source : Currency}
    {routes : Currency → Option RouteQuote}
    (h : computeRoutes edges version source = .ok routes) :
    (∀ target, (routes target).isSome ↔
      target ≠ source ∧ (market routingContext edges).Reaches source target) ∧
    ∀ target quote, routes target = some quote →
      IsRoundedRoute routingContext edges version source target quote ∧
      (IsGreatest (simpleRates routingContext edges source target) quote.aggregateRate ↔
        ∀ p, (market routingContext edges).IsWalk source p target →
          ∃ rate ∈ simpleRates routingContext edges source target,
            (market routingContext edges).value p ≤ rate) ∧
      (((market routingContext edges).nodes source quote.hops).Nodup →
        IsGreatest (simpleRates routingContext edges source target) quote.aggregateRate) ∧
      (NeverGains routingContext edges source →
        ((market routingContext edges).nodes source quote.hops).Nodup) := by
  refine ⟨fun target => routed_iff_reaches h, fun target quote hquote => ?_⟩
  have hroute := isRoundedRoute_of_routed h hquote
  exact ⟨hroute, hroute.isGreatest_iff, hroute.isGreatest, hroute.nodup⟩

/-! ## A cycle that gains by rounding -/

/-- A rate of 38 digits. -/
def drifting : ℚ := 3 / 2 + 7 / 10 ^ 37

/-- The cycle between euros and pesos multiplies to one. -/
def roundedCycle : List Edge :=
  [⟨.eur, .php, "LP_A", .finite (4 / 5)⟩, ⟨.php, .eur, "LP_A", .finite (5 / 4)⟩,
    ⟨.usd, .eur, "LP_A", .finite drifting⟩]

/-- Its edges, as they are collapsed. -/
def cycleHops : List RouteHop :=
  [⟨.eur, .php, "LP_A", 4 / 5⟩, ⟨.php, .eur, "LP_A", 5 / 4⟩, ⟨.usd, .eur, "LP_A", drifting⟩]

theorem collapsedEdges_roundedCycle : collapsedEdges roundedCycle = .ok cycleHops := by
  have hsorted : roundedCycle.mergeSort (fun a b => a.key ≤ b.key) = roundedCycle := by
    apply List.mergeSort_of_pairwise
    simp only [roundedCycle, List.pairwise_cons]
    decide +kernel
  unfold collapsedEdges
  rw [hsorted]
  decide +kernel

/-- The route it finds to euros goes on to pesos and back. -/
def cycleQuote : RouteQuote where
  snapshotVersion := 1
  target := .eur
  aggregateRate := 3 / 2 + 8 / 10 ^ 37
  hops := [⟨.usd, .eur, "LP_A", drifting⟩, ⟨.eur, .php, "LP_A", 4 / 5⟩,
    ⟨.php, .eur, "LP_A", 5 / 4⟩]

theorem computeRoutes_roundedCycle : ∃ routes,
    computeRoutes roundedCycle 1 .usd = .ok routes ∧ routes .eur = some cycleQuote := by
  refine computeRoutes_settled collapsedEdges_roundedCycle rfl ?_ ?_ (by decide)
  · decide +kernel
  · decide +kernel

/-- The route comes back to euros, so there are cycles that gain. -/
theorem computeRoutes_rounded_cycle : ∃ routes,
    computeRoutes roundedCycle 1 .usd = .ok routes ∧ routes .eur = some cycleQuote ∧
    (∀ target, (routes target).isSome ↔
      target ≠ .usd ∧ (market routingContext roundedCycle).Reaches .usd target) ∧
    IsRoundedRoute routingContext roundedCycle 1 .usd .eur cycleQuote ∧
    ¬ NeverGains routingContext roundedCycle .usd := by
  obtain ⟨routes, hroutes, hquote⟩ := computeRoutes_roundedCycle
  obtain ⟨hreaches, hrouted⟩ := computeRoutes_rounded hroutes
  obtain ⟨hroute, -, -, hsimple⟩ := hrouted .eur cycleQuote hquote
  refine ⟨routes, hroutes, hquote, hreaches, hroute, fun hnever => ?_⟩
  have hrepeats : ¬ ((market routingContext roundedCycle).nodes .usd cycleQuote.hops).Nodup := by
    decide +kernel
  exact hrepeats (hsimple hnever)

/-- Its only simple path is the direct one. -/
theorem simpleRates_roundedCycle :
    simpleRates routingContext roundedCycle .usd .eur = {drifting} := by
  have hquotes : quotes roundedCycle = cycleHops := by decide +kernel
  have hdirect : (market routingContext roundedCycle).value [⟨.usd, .eur, "LP_A", drifting⟩] =
      drifting := by decide +kernel
  have hwalk : (market routingContext roundedCycle).IsWalk .usd
      [⟨.usd, .eur, "LP_A", drifting⟩] .eur := by
    refine ⟨?_, rfl, rfl⟩
    show _ ∈ quotes roundedCycle
    rw [hquotes]
    decide +kernel
  ext rate
  constructor
  · rintro ⟨p, hp, hnodup, rfl⟩
    cases p with
    | nil => cases hp
    | cons hop p =>
      obtain ⟨hhop, hsource, hrest⟩ := id hp
      have hhop' : hop ∈ cycleHops := by
        rw [← hquotes]
        exact hhop
      -- the direct edge is the only one from dollars, and it ends in euros
      obtain rfl : hop = ⟨.usd, .eur, "LP_A", drifting⟩ := by
        simp only [cycleHops, List.mem_cons, List.not_mem_nil, or_false] at hhop'
        rcases hhop' with rfl | rfl | rfl
        · cases hsource
        · cases hsource
        · rfl
      obtain rfl : p = [] := IsWalk.prefix_eq_of_nodup hp hwalk hnodup
      exact hdirect
  · rintro rfl
    refine ⟨_, hwalk, ?_, hdirect⟩
    decide +kernel

/-- The graph is accepted, and the route to euros comes back to them, at a rate above
that of the only simple path. -/
theorem roundedCycle_not_simple : ∃ routes,
    computeRoutes roundedCycle 1 .usd = .ok routes ∧ routes .eur = some cycleQuote ∧
    ¬ ((market routingContext roundedCycle).nodes .usd cycleQuote.hops).Nodup ∧
    ¬ IsGreatest (simpleRates routingContext roundedCycle .usd .eur)
      cycleQuote.aggregateRate := by
  obtain ⟨routes, hroutes, hquote⟩ := computeRoutes_roundedCycle
  refine ⟨routes, hroutes, hquote, by decide +kernel, ?_⟩
  intro hgreatest
  have hrate := hgreatest.1
  rw [simpleRates_roundedCycle, Set.mem_singleton_iff] at hrate
  revert hrate
  decide +kernel

end SettlementRouter
