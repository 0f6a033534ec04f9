import SettlementRouter.RoutingRounds

/-! # Acceptance and optimality of routes

The router in exact arithmetic.  `computeRoutesIn_rejects_iff` says exactly which
rate graphs are rejected: those with a rate that is not a positive number, and
those with a reachable cycle of product above one.  `computeRoutesIn_optimal`
says what is returned for the others: for each reachable currency a simple route
of the greatest product over all walks, and of several such routes over the best
quotes the one with the least hop keys.

The relaxation sees only the best quotes (`bestMarket`), the statements speak of
every quote (`market`).  A walk over all quotes is no better than some walk over
the best ones (`exists_best_walk`), which carries both results across.
-/
namespace SettlementRouter

open Network

/-- Every quote of the rate graph. -/
def market (ctx : Decimal.Context) (edges : List Edge) :
    Network Currency RouteHop ℚ HopKey := network ctx (quotes edges)

/-- The best quotes of the rate graph. -/
def bestMarket (ctx : Decimal.Context) (edges : List Edge) :
    Network Currency RouteHop ℚ HopKey :=
  { market ctx edges with arc := BestQuote edges }

theorem network_collapsed (ctx : Decimal.Context) {edges : List Edge}
    {collapsed : List RouteHop} (h : collapsedEdges edges = .ok collapsed) :
    network ctx collapsed = bestMarket ctx edges := by
  have harc : (fun hop => hop ∈ collapsed) = BestQuote edges :=
    funext fun hop => propext (mem_collapsed h hop)
  unfold network bestMarket
  rw [harc]
  rfl

section Exact
variable {edges : List Edge} {source : Currency}

/-- Every rate of the graph is a positive number. -/
def AllPositive (edges : List Edge) : Prop := ∀ edge ∈ edges, ¬ edge.Bad

theorem AllPositive.rate_pos (h : AllPositive edges) {hop : RouteHop}
    (hhop : hop ∈ quotes edges) : 0 < hop.rate := by
  obtain ⟨edge, hedge, htoHop⟩ := List.mem_filterMap.mp hhop
  exact not_le.mp fun hle => h edge hedge ((Edge.bad_iff htoHop).mpr hle)

theorem allPositive_of_collapsed {collapsed : List RouteHop}
    (hc : collapsedEdges edges = .ok collapsed) : AllPositive edges := by
  intro edge hedge hbad
  obtain ⟨error, herr⟩ := collapsedEdges_error.mpr ⟨edge, hedge, hbad⟩
  rw [hc] at herr
  cases herr

theorem market_multiplies (h : AllPositive edges) :
    (market .exact edges).Multiplies RouteHop.rate :=
  ⟨rfl, fun _ _ => rfl, fun _ he => h.rate_pos he⟩

theorem bestMarket_multiplies (h : AllPositive edges) :
    (bestMarket .exact edges).Multiplies RouteHop.rate :=
  ⟨rfl, fun _ _ => rfl, fun _ he => h.rate_pos he.1⟩

/-- Keys tell the best quotes apart: there is one for each currency pair. -/
theorem BestQuote.eq_of_key {a b : RouteHop} (ha : BestQuote edges a)
    (hb : BestQuote edges b) (hk : a.key = b.key) : a = b := by
  obtain ⟨hs, ht, -⟩ := RouteHop.key_inj hk
  exact ha.unique hb hs ht

/-- Walks over the best quotes are walks over the quotes. -/
theorem isWalk_market {ctx : Decimal.Context} {u v : Currency} {p : List RouteHop}
    (h : (bestMarket ctx edges).IsWalk u p v) : (market ctx edges).IsWalk u p v := by
  induction p generalizing u with
  | nil => exact h
  | cons e p ih => exact ⟨h.1.1, h.2.1, ih h.2.2⟩

/-- Every quoted currency pair has a best quote. -/
theorem exists_bestQuote (h : AllPositive edges) {hop : RouteHop}
    (hhop : hop ∈ quotes edges) : ∃ best, BestQuote edges best ∧
      best.source = hop.source ∧ best.target = hop.target ∧ hop.rate ≤ best.rate := by
  cases hc : collapsedEdges edges with
  | error error =>
    obtain ⟨edge, hedge, hbad⟩ := collapsedEdges_error.mp ⟨error, hc⟩
    exact absurd hbad (h edge hedge)
  | ok collapsed =>
    obtain ⟨best, hbest, hs, ht⟩ := (selected_collapsed hc).cover hop hhop
    have hbq := (mem_collapsed hc best).mp hbest
    refine ⟨best, hbq, hs, ht, ?_⟩
    rcases hbq.2 hop hhop hs.symm ht.symm with hlt | ⟨heq, -⟩
    · exact hlt.le
    · exact heq.le

/-- A walk over the quotes is no better than the walk along the best quotes of
the same currency pairs. -/
theorem exists_best_walk (h : AllPositive edges) {u v : Currency} {p : List RouteHop}
    (hp : (market .exact edges).IsWalk u p v) :
    ∃ q, (bestMarket .exact edges).IsWalk u q v ∧
      product RouteHop.rate p ≤ product RouteHop.rate q := by
  induction p generalizing u with
  | nil => exact ⟨[], hp, le_rfl⟩
  | cons e p ih =>
    obtain ⟨he, rfl, hrest⟩ := hp
    obtain ⟨q, hq, hle⟩ := ih hrest
    obtain ⟨best, hbest, hs, ht, hrate⟩ := exists_bestQuote h he
    refine ⟨best :: q, ⟨hbest, hs, ?_⟩, ?_⟩
    · change (bestMarket .exact edges).IsWalk best.target q v
      rw [ht]
      exact hq
    · rw [product, product, List.map_cons, List.map_cons, List.prod_cons, List.prod_cons]
      exact mul_le_mul hrate hle ((market_multiplies h).product_pos hrest).le
        ((h.rate_pos he).le.trans hrate)

theorem reaches_bestMarket (h : AllPositive edges) {v : Currency} :
    (bestMarket .exact edges).Reaches source v ↔ (market .exact edges).Reaches source v := by
  constructor
  · rintro ⟨p, hp⟩
    exact ⟨p, isWalk_market hp⟩
  · rintro ⟨p, hp⟩
    obtain ⟨q, hq, -⟩ := exists_best_walk h hp
    exact ⟨q, hq⟩

theorem noGain_bestMarket (h : AllPositive edges) :
    (bestMarket .exact edges).NoGain RouteHop.rate source ↔
      (market .exact edges).NoGain RouteHop.rate source := by
  constructor
  · intro hs u p hu hp
    obtain ⟨q, hq, hle⟩ := exists_best_walk h hp
    exact hle.trans (hs u q ((reaches_bestMarket h).mpr hu) hq)
  · intro hs u p hu hp
    exact hs u p ((reaches_bestMarket h).mp hu) (isWalk_market hp)

theorem card_currency : Fintype.card Currency = 5 := rfl

/-- The extra round improves nothing exactly when no reachable closed walk
gains. -/
theorem improved_iff {collapsed : List RouteHop} {best : Best}
    (h : collapsedEdges edges = .ok collapsed) (hpos : AllPositive edges)
    (hbest : rounds .exact collapsed (Fintype.card Currency - 1) (initialBest source) = best) :
    (∃ target, improved best (relax .exact best collapsed) target) ↔
      ¬ (market .exact edges).NoGain RouteHop.rate source := by
  have hN := bestMarket_multiplies hpos
  have hrounds := rounds_spec .exact collapsed (Fintype.card Currency - 1) (initialBest source)
  have hrelaxed := relax_relaxed .exact best collapsed
  rw [hbest] at hrounds
  rw [network_collapsed _ h] at hrounds hrelaxed
  rw [← not_iff_not, not_not, not_exists]
  have hfix : (∀ target, ¬ improved best (relax .exact best collapsed) target) ↔
      ∀ v c', relax .exact best collapsed v = some c' → ∃ c, best v = some c ∧ c'.1 ≤ c.1 := by
    refine forall_congr' fun v => ?_
    unfold improved
    cases relax .exact best collapsed v <;> cases best v <;> simp
  rw [hfix, ← noGain_bestMarket hpos]
  constructor
  · exact hrelaxed.closed_le_one hN hrounds
  · intro hs v c' hc'
    exact hrounds.settled hN hs (by simp [card_currency]) hrelaxed hc'

end Exact

/-- **Acceptance.**  In exact arithmetic a rate graph is rejected if and only if
some rate, reachable or not, is not a positive number, or some cycle reachable
from the source multiplies to more than one. -/
theorem computeRoutesIn_rejects_iff (edges : List Edge) (version : ℤ) (source : Currency) :
    (∃ error, computeRoutesIn .exact edges version source = .error error) ↔
      (∃ edge ∈ edges, edge.Bad) ∨
      ∃ u cycle, (market .exact edges).Reaches source u ∧
        (market .exact edges).IsCycle u cycle ∧ 1 < product RouteHop.rate cycle := by
  cases hc : collapsedEdges edges with
  | error error =>
    have hbad := collapsedEdges_error.mp ⟨error, hc⟩
    simp [computeRoutesIn, hc, hbad]
  | ok collapsed =>
    have hpos := allPositive_of_collapsed hc
    have hnobad : ¬ ∃ edge ∈ edges, edge.Bad := fun ⟨edge, hedge, hbad⟩ => hpos edge hedge hbad
    have hreject : (∃ error, computeRoutesIn .exact edges version source = .error error) ↔
        ¬ (market .exact edges).NoGain RouteHop.rate source := by
      rw [← improved_iff hc hpos rfl, computeRoutesIn, hc]
      dsimp only
      split
      case isTrue hgain => exact ⟨fun _ => hgain, fun _ => ⟨_, rfl⟩⟩
      case isFalse hgain => exact ⟨nofun, fun h => absurd h hgain⟩
    rw [hreject, or_iff_right hnobad]
    constructor
    · intro hgain
      simp only [NoGain, not_forall, not_le] at hgain
      obtain ⟨u, p, hu, hp, hlt⟩ := hgain
      exact (market_multiplies hpos).exists_cycle hu hp hlt
    · rintro ⟨u, cycle, hu, hcycle, hlt⟩ hs
      exact absurd (hs u cycle hu hcycle.1) (not_le.mpr hlt)


/-! ## Rounding

The 38-digit context computes the exact result as long as no product that the
relaxation forms is rounded.
-/

section Rounding
variable {ctx : Decimal.Context} {edges : List Edge} {collapsed : List RouteHop}
  {source : Currency} {best : Best} {m n : ℕ}

/-- The context rounds no product along a walk of at most `n` hops. -/
def Represents (ctx : Decimal.Context) (edges : List Edge) (source : Currency) (n : ℕ) : Prop :=
  ∀ target p, (market .exact edges).IsWalk source p target → p.length ≤ n →
    ctx.round (product RouteHop.rate p) = product RouteHop.rate p

/-- The table holds walks of at most `m` hops, with their exact products. -/
def ExactTable (edges : List Edge) (source : Currency) (m : ℕ) (best : Best) : Prop :=
  ∀ v c, best v = some c → (market .exact edges).IsWalk source c.2 v ∧
    c.1 = product RouteHop.rate c.2 ∧ c.2.length ≤ m

theorem quote_of_collapsed (hc : collapsedEdges edges = .ok collapsed) {hop : RouteHop}
    (hhop : hop ∈ collapsed) : hop ∈ quotes edges := ((mem_collapsed hc hop).mp hhop).1

theorem ExactTable.relax_exact (h : ExactTable edges source m best)
    (hc : collapsedEdges edges = .ok collapsed) :
    ExactTable edges source (m + 1) (relax .exact best collapsed) := by
  intro v c' hc'
  rcases (relax_relaxed .exact best collapsed).origin v c' hc' with
    hold | ⟨e, c, he, rfl, hsrc, rfl⟩
  · obtain ⟨hw, hv, hl⟩ := h v c' hold
    exact ⟨hw, hv, hl.trans (Nat.le_succ m)⟩
  · obtain ⟨hw, hv, hl⟩ := h _ c hsrc
    refine ⟨isWalk_concat.mpr ⟨hw, quote_of_collapsed hc he, rfl⟩, ?_, ?_⟩
    · show c.1 * e.rate = product RouteHop.rate (c.2 ++ [e])
      rw [hv, product_concat]
    · show (c.2 ++ [e]).length ≤ m + 1
      rw [List.length_append, List.length_singleton]
      omega

theorem ExactTable.relax_eq (h : ExactTable edges source m best)
    (hc : collapsedEdges edges = .ok collapsed) (hrep : Represents ctx edges source (m + 1)) :
    relax ctx best collapsed = relax .exact best collapsed := by
  refine List.foldl_ext _ _ best fun nextBest e he => ?_
  unfold relaxEdge
  cases hsrc : best e.source with
  | none => rfl
  | some c =>
    obtain ⟨hw, hv, hl⟩ := h _ c hsrc
    have hwalk : (market .exact edges).IsWalk source (c.2 ++ [e]) e.target :=
      isWalk_concat.mpr ⟨hw, quote_of_collapsed hc he, rfl⟩
    have hmul : ctx.mul c.1 e.rate = Decimal.Context.exact.mul c.1 e.rate := by
      rw [Decimal.Context.exact_mul, Decimal.Context.mul, hv, ← product_concat]
      refine hrep _ _ hwalk ?_
      rw [List.length_append, List.length_singleton]
      omega
    simp only [hmul]

theorem ExactTable.rounds_eq (h : ExactTable edges source m best)
    (hc : collapsedEdges edges = .ok collapsed) (hrep : Represents ctx edges source (m + n)) :
    rounds ctx collapsed n best = rounds .exact collapsed n best := by
  induction n generalizing m best with
  | zero => rfl
  | succ n ih =>
    have hrelax : relax ctx best collapsed = relax .exact best collapsed :=
      h.relax_eq hc fun v p hp hl => hrep v p hp (by omega)
    unfold rounds
    rw [hrelax]
    dsimp only
    rw [ih (h.relax_exact hc) fun v p hp hl => hrep v p hp (by omega)]

theorem exactTable_initialBest : ExactTable edges source 0 (initialBest source) := by
  intro v c hb
  unfold initialBest at hb
  split at hb
  · obtain rfl := Option.some.inj hb
    exact ⟨Eq.symm ‹_›, rfl, le_rfl⟩
  · cases hb

/-- Where nothing is rounded, a context computes what exact arithmetic does. -/
theorem computeRoutesIn_eq_exact (edges : List Edge) (version : ℤ) (source : Currency)
    (hrep : Represents ctx edges source (Fintype.card Currency)) :
    computeRoutesIn ctx edges version source = computeRoutesIn .exact edges version source := by
  unfold computeRoutesIn
  cases hc : collapsedEdges edges with
  | error error => rfl
  | ok collapsed =>
    have hbest : rounds ctx collapsed (Fintype.card Currency - 1) (initialBest source) =
        rounds .exact collapsed (Fintype.card Currency - 1) (initialBest source) :=
      exactTable_initialBest.rounds_eq hc fun v p hp hl => hrep v p hp (by omega)
    have hrounds := rounds_spec .exact collapsed (Fintype.card Currency - 1) (initialBest source)
    have hmul := bestMarket_multiplies (allPositive_of_collapsed hc)
    have hexact : ExactTable edges source (Fintype.card Currency - 1)
        (rounds .exact collapsed (Fintype.card Currency - 1) (initialBest source)) := by
      rw [network_collapsed _ hc] at hrounds
      intro v c hb
      obtain ⟨hw, hv, hl⟩ := Rounds.sound hrounds hb
      exact ⟨isWalk_market hw, hv.trans (hmul.value_eq c.2), hl⟩
    dsimp only
    rw [hbest, hexact.relax_eq hc hrep]

end Rounding

/-! ## Optimality -/

/-- `quote` is the route to `target` that optimality asks for. -/
structure IsBestRoute (edges : List Edge) (version : ℤ) (source target : Currency)
    (quote : RouteQuote) : Prop where
  version_eq : quote.snapshotVersion = version
  target_eq : quote.target = target
  walk : (market .exact edges).IsWalk source quote.hops target
  simple : ((market .exact edges).nodes source quote.hops).Nodup
  rate_eq : quote.aggregateRate = product RouteHop.rate quote.hops
  maximal : ∀ p, (market .exact edges).IsWalk source p target →
    product RouteHop.rate p ≤ quote.aggregateRate
  best_quotes : ∀ hop ∈ quote.hops, BestQuote edges hop
  keys_least : ∀ p, (bestMarket .exact edges).IsWalk source p target →
    ((bestMarket .exact edges).nodes source p).Nodup →
      product RouteHop.rate p = quote.aggregateRate → hopKey quote.hops ≤ hopKey p

section Optimality
variable {edges : List Edge} {collapsed : List RouteHop} {source target : Currency} {best : Best}

/-- Every entry of the final table is the best route. -/
theorem isBestRoute_of_entry (version : ℤ) (hc : collapsedEdges edges = .ok collapsed)
    (hs : (market .exact edges).NoGain RouteHop.rate source)
    (hbest : rounds .exact collapsed (Fintype.card Currency - 1) (initialBest source) = best)
    {candidate : Candidate} (hentry : best target = some candidate) :
    IsBestRoute edges version source target ⟨version, target, candidate.1, candidate.2⟩ := by
  obtain ⟨rate, hops⟩ := candidate
  have hpos := allPositive_of_collapsed hc
  have hN := bestMarket_multiplies hpos
  have hs' := (noGain_bestMarket hpos).mpr hs
  have hrounds := rounds_spec .exact collapsed (Fintype.card Currency - 1) (initialBest source)
  rw [hbest, network_collapsed _ hc] at hrounds
  obtain ⟨hwalk, hrate, -⟩ := Rounds.sound hrounds hentry
  have hmax : ∀ p, (market .exact edges).IsWalk source p target →
      product RouteHop.rate p ≤ rate := by
    intro p hp
    obtain ⟨q, hq, hle⟩ := exists_best_walk hpos hp
    obtain ⟨c, hc', hle'⟩ := hrounds.maximal hN hs' (by simp [card_currency]) hq
    obtain rfl := Option.some.inj (hc'.symm.trans hentry)
    exact hle.trans hle'
  have hsimple : ((bestMarket .exact edges).nodes source hops).Nodup :=
    hrounds.simple hN hs' hentry
  refine ⟨rfl, rfl, isWalk_market hwalk, hsimple, ?_, hmax,
    fun hop hhop => hwalk.arc_of_mem hhop, fun p hp hnd heq => ?_⟩
  · exact hrate.trans (hN.value_eq hops)
  · refine hrounds.keys_least hN (fun a b ha hb => ha.eq_of_key hb) (by simp [card_currency])
      hentry hp hnd fun q hq => ?_
    rw [heq]
    exact hmax q (isWalk_market hq)

/-- The final table has an entry for exactly the reachable currencies. -/
theorem entry_iff_reaches (hc : collapsedEdges edges = .ok collapsed)
    (hs : (market .exact edges).NoGain RouteHop.rate source)
    (hbest : rounds .exact collapsed (Fintype.card Currency - 1) (initialBest source) = best) :
    (∃ candidate, best target = some candidate) ↔ (market .exact edges).Reaches source target := by
  have hpos := allPositive_of_collapsed hc
  have hrounds := rounds_spec .exact collapsed (Fintype.card Currency - 1) (initialBest source)
  rw [hbest, network_collapsed _ hc] at hrounds
  rw [← reaches_bestMarket hpos]
  constructor
  · rintro ⟨⟨rate, hops⟩, hentry⟩
    exact ⟨hops, (Rounds.sound hrounds hentry).1⟩
  · rintro ⟨p, hp⟩
    obtain ⟨c, hentry, -⟩ := hrounds.maximal (bestMarket_multiplies hpos)
      ((noGain_bestMarket hpos).mpr hs) (by simp [card_currency]) hp
    exact ⟨c, hentry⟩

end Optimality

/-- **Optimality.**  For positive rates without a gaining closed walk reachable
from the source, there is a route to exactly the other currencies that the source
reaches, and each is the best one.  The 38-digit context returns these same
routes whenever it rounds no product along a walk of at most five hops. -/
theorem computeRoutesIn_optimal (edges : List Edge) (version : ℤ) (source : Currency)
    (hpos : AllPositive edges) (hs : (market .exact edges).NoGain RouteHop.rate source) :
    ∃ routes, computeRoutesIn .exact edges version source = .ok routes ∧
      (∀ target, (routes target).isSome ↔
        target ≠ source ∧ (market .exact edges).Reaches source target) ∧
      (∀ target quote, routes target = some quote →
        IsBestRoute edges version source target quote) ∧
      (Represents routingContext edges source 5 →
        computeRoutes edges version source = .ok routes) := by
  cases hc : collapsedEdges edges with
  | error error =>
    obtain ⟨edge, hedge, hbad⟩ := collapsedEdges_error.mp ⟨error, hc⟩
    exact absurd hbad (hpos edge hedge)
  | ok collapsed =>
    generalize hbest : rounds .exact collapsed (Fintype.card Currency - 1)
      (initialBest source) = best
    -- with no gain to be made the last round improves nothing
    have hsettled : ¬ ∃ target, improved best (relax .exact best collapsed) target := by
      rw [improved_iff hc hpos hbest, not_not]
      exact hs
    have hok : computeRoutesIn .exact edges version source = .ok fun target =>
        if target = source then none
        else (best target).map fun candidate => ⟨version, target, candidate.1, candidate.2⟩ := by
      unfold computeRoutesIn
      rw [hc]
      dsimp only
      rw [hbest, if_neg hsettled]
    refine ⟨_, hok, fun target => ?_, fun target quote hquote => ?_, fun hrep => ?_⟩
    · rw [← entry_iff_reaches hc hs hbest]
      by_cases ht : target = source
      · simp [ht]
      · simp [ht, Option.isSome_iff_exists]
    · by_cases ht : target = source
      · simp [ht] at hquote
      · simp only [ht, if_false, Option.map_eq_some_iff] at hquote
        obtain ⟨candidate, hentry, rfl⟩ := hquote
        exact isBestRoute_of_entry version hc hs hbest hentry
    · exact (computeRoutesIn_eq_exact edges version source hrep).trans hok

/-- Rates of at most one leave nothing to gain. -/
theorem noGain_of_le_one {edges : List Edge} (hpos : AllPositive edges)
    (hle : ∀ hop ∈ quotes edges, hop.rate ≤ 1) (source : Currency) :
    (market .exact edges).NoGain RouteHop.rate source := by
  have walk_le {u v p} (hp : (market .exact edges).IsWalk u p v) :
      product RouteHop.rate p ≤ 1 := by
    induction p generalizing u with
    | nil => exact le_rfl
    | cons e p ih =>
      rw [product, List.map_cons, List.prod_cons]
      exact mul_le_one₀ (hle e hp.1) ((market_multiplies hpos).product_pos hp.2.2).le (ih hp.2.2)
  exact fun u p _ hp => walk_le hp

/-- Two providers in a chain with a break-even cycle. -/
def chain : List Edge :=
  [⟨.usd, .usdc, "lp_b", .finite 1⟩, ⟨.usd, .usdc, "lp_a", .finite 1⟩,
    ⟨.usdc, .usd, "lp_a", .finite 1⟩, ⟨.usdc, .eur, "lp_c", .finite (9 / 10)⟩]

theorem chain_allPositive : AllPositive chain := by
  intro edge hedge hbad
  simp only [chain, List.mem_cons, List.not_mem_nil, or_false] at hedge
  rcases hedge with rfl | rfl | rfl | rfl <;> norm_num [Edge.Bad] at hbad

theorem chain_rate_le_one : ∀ hop ∈ quotes chain, hop.rate ≤ 1 := by
  intro hop hhop
  simp only [quotes, chain, Edge.toHop, List.filterMap_cons, List.filterMap_nil, List.mem_cons,
    List.not_mem_nil, or_false] at hhop
  rcases hhop with rfl | rfl | rfl | rfl <;> norm_num

theorem computeRoutesIn_optimal_chain :
    ∃ routes, computeRoutesIn .exact chain 7 .usd = .ok routes ∧
      (∀ target, (routes target).isSome ↔
        target ≠ .usd ∧ (market .exact chain).Reaches .usd target) ∧
      (∀ target quote, routes target = some quote → IsBestRoute chain 7 .usd target quote) ∧
      (Represents routingContext chain .usd 5 → computeRoutes chain 7 .usd = .ok routes) :=
  computeRoutesIn_optimal chain 7 .usd chain_allPositive
    (noGain_of_le_one chain_allPositive chain_rate_le_one .usd)

/-! ## A graph of one edge -/

section OneEdge
variable {r : ℚ}

/-- The hop of the edge. -/
def oneHop (r : ℚ) : RouteHop := ⟨.usd, .eur, "LP_A", r⟩

/-- A graph of one edge. -/
def oneEdge (r : ℚ) : List Edge := [⟨.usd, .eur, "LP_A", .finite r⟩]

/-- What is quoted on it. -/
def oneQuote (r : ℚ) : RouteQuote := ⟨1, .eur, Decimal.roundDigits 38 r, [oneHop r]⟩

theorem computeRoutes_oneEdge (hr : 0 < r) : ∃ routes,
    computeRoutes (oneEdge r) 1 .usd = .ok routes ∧ routes .eur = some (oneQuote r) := by
  have hcollapsed : collapsedEdges (oneEdge r) = .ok [oneHop r] := by
    simp [collapsedEdges, oneEdge, collapseFrom, Edge.toHop, not_le.mpr hr, select, oneHop]
  have hmul : routingContext.mul 1 r = Decimal.roundDigits 38 r := by
    rw [Decimal.Context.mul, one_mul]
    rfl
  -- the first round finds the route, and the second finds no better one
  obtain ⟨best, hbest⟩ : ∃ best, best = Function.update (initialBest .usd) .eur
      (some (Decimal.roundDigits 38 r, [oneHop r])) := ⟨_, rfl⟩
  have husd : best .usd = some (1, []) := by simp [hbest, initialBest]
  have heur : best .eur = some (Decimal.roundDigits 38 r, [oneHop r]) := by simp [hbest]
  have hfirst : relax routingContext (initialBest .usd) [oneHop r] = best := by
    simp [relax, relaxEdge, initialBest, oneHop, isBetter, hmul, hbest]
  have hsecond : relax routingContext best [oneHop r] = best := by
    simp [relax, relaxEdge, oneHop, isBetter, hmul, husd, heur]
  have hne : best ≠ initialBest .usd := fun heq => by
    rw [heq] at heur
    cases heur
  have hrounds : rounds routingContext [oneHop r] (Fintype.card Currency - 1) (initialBest .usd) =
      best := by
    simp [card_currency, rounds, hfirst, hsecond, hne]
  have himproved : ¬ ∃ target, improved best best target := by
    rintro ⟨target, htarget⟩
    unfold improved at htarget
    split at htarget <;> simp_all
  refine ⟨fun target => if target = .usd then none else
    (best target).map fun candidate => ⟨1, target, candidate.1, candidate.2⟩, ?_, ?_⟩
  · simp only [computeRoutes, computeRoutesIn, hcollapsed, hrounds, hsecond, if_neg himproved]
  · simp [heur, oneQuote]

end OneEdge

/-! ## Graphs of several hops -/

/-- Where one more round improves nothing, what the rounds have left is quoted. -/
theorem computeRoutes_settled {edges : List Edge} {hops route : List RouteHop}
    {target : Currency} {rate : ℚ} {best : Best} (hcollapsed : collapsedEdges edges = .ok hops)
    (hrounds : rounds routingContext hops (Fintype.card Currency - 1) (initialBest .usd) = best)
    (hsettled : ¬ ∃ target, improved best (relax routingContext best hops) target)
    (hentry : best target = some (rate, route)) (htarget : target ≠ .usd) :
    ∃ routes, computeRoutes edges 1 .usd = .ok routes ∧
      routes target = some ⟨1, target, rate, route⟩ := by
  refine ⟨fun target => if target = .usd then none else
    (best target).map fun candidate => ⟨1, target, candidate.1, candidate.2⟩, ?_, ?_⟩
  · unfold computeRoutes computeRoutesIn
    rw [hcollapsed]
    dsimp only
    rw [hrounds, if_neg hsettled]
  · simp only [hentry, if_neg htarget]
    rfl

/-- Dollars to euros, over the stablecoin. -/
def overUsdc : List Edge :=
  [⟨.usd, .usdc, "LP_A", .finite 1⟩, ⟨.usdc, .eur, "LP_A", .finite (9 / 10)⟩]

/-- What is quoted on it. -/
def overUsdcQuote : RouteQuote where
  snapshotVersion := 1
  target := .eur
  aggregateRate := 9 / 10
  hops := [⟨.usd, .usdc, "LP_A", 1⟩, ⟨.usdc, .eur, "LP_A", 9 / 10⟩]

theorem computeRoutes_overUsdc : ∃ routes,
    computeRoutes overUsdc 1 .usd = .ok routes ∧ routes .eur = some overUsdcQuote := by
  have hcollapsed : collapsedEdges overUsdc = .ok overUsdcQuote.hops := by
    have hsorted : overUsdc.mergeSort (fun a b => a.key ≤ b.key) = overUsdc := by
      apply List.mergeSort_of_pairwise
      simp only [overUsdc, List.pairwise_cons]
      decide +kernel
    unfold collapsedEdges
    rw [hsorted]
    decide +kernel
  refine computeRoutes_settled hcollapsed rfl ?_ ?_ (by decide)
  · decide +kernel
  · decide +kernel

end SettlementRouter
