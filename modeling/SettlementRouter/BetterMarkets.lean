import SettlementRouter.RoundedRoutes

/-! # Comparing markets

Two tuples of edges, and what the router makes of them.

The order of the edges does not matter, nor do edges that are no better than the
best quote of their currency pair (`computeRoutes_congr`): collapsing leaves the
best quotes, in the order of their currency pairs.  Raising rates and adding edges
makes no route worse (`aggregateRate_mono`): a walk of the first market is matched
arc by arc in the second, and rounding is monotone.
-/
namespace SettlementRouter

open Network

/-! ## The order of the collapsed edges -/

/-- The currency pair of a hop, as its names compare. -/
def RouteHop.pair (hop : RouteHop) : String ×ₗ String :=
  toLex (hop.source.value, hop.target.value)

section Pairs
variable {a b edge : RouteHop} {selected : List RouteHop}

theorem RouteHop.pair_inj : a.pair = b.pair ↔ a.source = b.source ∧ a.target = b.target := by
  constructor
  · intro h
    obtain ⟨hs, ht⟩ := Prod.mk.inj (toLex.injective h)
    exact ⟨Currency.value_injective hs, Currency.value_injective ht⟩
  · rintro ⟨hs, ht⟩
    rw [pair, pair, hs, ht]

theorem RouteHop.pair_le_of_key_le (h : a.key ≤ b.key) : a.pair ≤ b.pair := by
  rw [pair, pair, Prod.Lex.toLex_le_toLex]
  rcases Prod.Lex.toLex_le_toLex.mp h with hs | ⟨hs, hrest⟩
  · exact .inl hs
  · rcases Prod.Lex.toLex_le_toLex.mp hrest with ht | ⟨ht, -⟩
    · exact .inr ⟨hs, ht.le⟩
    · exact .inr ⟨hs, ht.le⟩

/-- An edge of a pair that is not before the selected ones leaves them in order. -/
theorem select_sorted (hsorted : selected.Pairwise fun a b => a.pair < b.pair)
    (hlast : ∀ current ∈ selected, current.pair ≤ edge.pair) :
    (select edge selected).Pairwise fun a b => a.pair < b.pair := by
  induction selected with
  | nil => exact List.pairwise_singleton _ _
  | cons current selected ih =>
    obtain ⟨hcurrent, hrest⟩ := List.pairwise_cons.mp hsorted
    obtain ⟨hle, hlast⟩ := List.forall_mem_cons.mp hlast
    unfold select
    by_cases hsame : current.source = edge.source ∧ current.target = edge.target
    · rw [if_pos hsame]
      have hpair : current.pair = edge.pair := RouteHop.pair_inj.mpr hsame
      split_ifs
      · exact List.pairwise_cons.mpr ⟨hpair ▸ hcurrent, hrest⟩
      · exact hsorted
    · rw [if_neg hsame]
      refine List.pairwise_cons.mpr ⟨fun hop hhop => ?_, ih hrest hlast⟩
      rcases mem_select hhop with rfl | hhop
      · exact lt_of_le_of_ne hle fun heq => hsame (RouteHop.pair_inj.mp heq)
      · exact hcurrent hop hhop

theorem foldl_select_sorted {hops : List RouteHop}
    (hsorted : selected.Pairwise fun a b => a.pair < b.pair)
    (hlast : ∀ hop ∈ hops, ∀ current ∈ selected, current.pair ≤ hop.pair)
    (hhops : hops.Pairwise fun a b => a.key ≤ b.key) :
    (hops.foldl (fun s e => select e s) selected).Pairwise fun a b => a.pair < b.pair := by
  induction hops generalizing selected with
  | nil => exact hsorted
  | cons edge hops ih =>
    obtain ⟨hedge, hlast⟩ := List.forall_mem_cons.mp hlast
    obtain ⟨hfirst, hrest⟩ := List.pairwise_cons.mp hhops
    refine ih (select_sorted hsorted hedge) (fun hop hhop current hcurrent => ?_) hrest
    rcases mem_select hcurrent with rfl | hcurrent
    · exact RouteHop.pair_le_of_key_le (hfirst hop hhop)
    · exact hlast hop hhop current hcurrent

end Pairs

section Collapsed
variable {edges edges' : List Edge} {collapsed : List RouteHop}

/-- The collapsed edges come in the order of their currency pairs. -/
theorem collapsed_sorted (h : collapsedEdges edges = .ok collapsed) :
    collapsed.Pairwise fun a b => a.pair < b.pair := by
  rw [(collapseFrom_ok.mp h).2]
  exact foldl_select_sorted .nil (fun _ _ _ hcurrent => nomatch hcurrent) (quotes_sorted edges)

theorem collapseFrom_badRate {selected : List RouteHop} {error : InvalidRateGraph}
    (h : collapseFrom selected edges = .error error) : error = .badRate := by
  induction edges generalizing selected with
  | nil => cases h
  | cons edge edges ih =>
    unfold collapseFrom at h
    cases hhop : edge.toHop with
    | none =>
      rw [hhop] at h
      cases h
      rfl
    | some hop =>
      rw [hhop] at h
      dsimp only at h
      split_ifs at h
      · cases h
        rfl
      · exact ih h

/-- **Collapsing depends on the best quotes only**, and on whether some rate is bad. -/
theorem collapsedEdges_congr
    (hbad : (∃ edge ∈ edges, edge.Bad) ↔ ∃ edge ∈ edges', edge.Bad)
    (hbest : ∀ hop, BestQuote edges hop ↔ BestQuote edges' hop) :
    collapsedEdges edges = collapsedEdges edges' := by
  cases h : collapsedEdges edges with
  | error error =>
    obtain ⟨error', h'⟩ := collapsedEdges_error.mpr (hbad.mp (collapsedEdges_error.mp ⟨error, h⟩))
    rw [h', collapseFrom_badRate h, collapseFrom_badRate h']
  | ok collapsed =>
    cases h' : collapsedEdges edges' with
    | error error =>
      obtain ⟨error, herror⟩ :=
        collapsedEdges_error.mpr (hbad.mpr (collapsedEdges_error.mp ⟨error, h'⟩))
      rw [h] at herror
      cases herror
    | ok collapsed' =>
      congr 1
      -- the two lists have the same members and are in the same strict order
      refine (collapsed_sorted h).eq_of_mem_iff (collapsed_sorted h') fun hop => ?_
      rw [mem_collapsed h, mem_collapsed h']
      exact hbest hop

end Collapsed

/-! ## The same best quotes -/

/-- An edge that is no better than the best quote of its currency pair: its rate is
lower, or the same and the LP name no smaller. -/
def Edge.Dominated (edges : List Edge) (edge : Edge) : Prop :=
  ∃ hop best, edge.toHop = some hop ∧ 0 < hop.rate ∧ BestQuote edges best ∧
    best.source = hop.source ∧ best.target = hop.target ∧
      (hop.rate < best.rate ∨ hop.rate = best.rate ∧ best.lp ≤ hop.lp)

section Dominated
variable {edges edges' added : List Edge}

theorem mem_quotes_perm (hperm : edges'.Perm (edges ++ added)) {hop : RouteHop} :
    hop ∈ quotes edges' ↔ hop ∈ quotes edges ∨ hop ∈ quotes added := by
  have hquotes : (quotes edges').Perm (quotes (edges ++ added)) := hperm.filterMap _
  rw [hquotes.mem_iff, quotes, List.filterMap_append, List.mem_append]
  rfl

/-- Dominated edges change no best quote. -/
theorem bestQuote_iff_of_dominated (hperm : edges'.Perm (edges ++ added))
    (hdominated : ∀ edge ∈ added, edge.Dominated edges) (hop : RouteHop) :
    BestQuote edges' hop ↔ BestQuote edges hop := by
  have hadded : ∀ hop ∈ quotes added, ∃ best, BestQuote edges best ∧
      best.source = hop.source ∧ best.target = hop.target ∧
        (hop.rate < best.rate ∨ hop.rate = best.rate ∧ best.lp ≤ hop.lp) := by
    intro hop hhop
    obtain ⟨edge, hedge, htoHop⟩ := List.mem_filterMap.mp hhop
    obtain ⟨hop', best, htoHop', -, hbest⟩ := hdominated edge hedge
    obtain rfl := Option.some.inj (htoHop.symm.trans htoHop')
    exact ⟨best, hbest⟩
  have hkept : ∀ hop, BestQuote edges hop → BestQuote edges' hop := by
    intro hop hbest
    refine ⟨(mem_quotes_perm hperm).mpr (.inl hbest.1), fun other hother hs ht => ?_⟩
    rcases (mem_quotes_perm hperm).mp hother with hother | hother
    · exact hbest.2 other hother hs ht
    · obtain ⟨best, hbest', hs', ht', hle⟩ := hadded other hother
      obtain rfl := hbest.unique hbest' (hs.symm.trans hs'.symm) (ht.symm.trans ht'.symm)
      exact hle
  refine ⟨fun hbest => ?_, hkept hop⟩
  rcases (mem_quotes_perm hperm).mp hbest.1 with hmem | hmem
  · exact ⟨hmem, fun other hother => hbest.2 other ((mem_quotes_perm hperm).mpr (.inl hother))⟩
  · -- a dominated quote is the best one only as a copy of it
    obtain ⟨best, hbest', hs, ht, -⟩ := hadded hop hmem
    obtain rfl := hbest.unique (hkept best hbest') hs.symm ht.symm
    exact hbest'

theorem bad_iff_of_dominated (hperm : edges'.Perm (edges ++ added))
    (hdominated : ∀ edge ∈ added, edge.Dominated edges) :
    (∃ edge ∈ edges', edge.Bad) ↔ ∃ edge ∈ edges, edge.Bad := by
  constructor
  · rintro ⟨edge, hedge, hbad⟩
    rcases List.mem_append.mp (hperm.mem_iff.mp hedge) with hedge | hedge
    · exact ⟨edge, hedge, hbad⟩
    · obtain ⟨hop, -, htoHop, hpos, -⟩ := hdominated edge hedge
      exact absurd ((Edge.bad_iff htoHop).mp hbad) hpos.not_ge
  · rintro ⟨edge, hedge, hbad⟩
    exact ⟨edge, hperm.mem_iff.mpr (List.mem_append_left _ hedge), hbad⟩

end Dominated

/-- **Routes depend on the set of quotes only.**  The same edges in another order, with
any number of dominated ones among them, give the same rate and hops for every
target, or are rejected alike. -/
theorem computeRoutes_congr {edges edges' added : List Edge} (version : ℤ) (source : Currency)
    (hperm : edges'.Perm (edges ++ added))
    (hdominated : ∀ edge ∈ added, edge.Dominated edges) :
    computeRoutes edges' version source = computeRoutes edges version source := by
  unfold computeRoutes computeRoutesIn
  rw [collapsedEdges_congr (bad_iff_of_dominated hperm hdominated)
    (bestQuote_iff_of_dominated hperm hdominated)]

/-- Two LPs quote euros. -/
def twoLps : List Edge :=
  [⟨.usd, .eur, "LP_B", .finite 2⟩, ⟨.usd, .php, "LP_A", .finite 55⟩]

/-- A lower rate, and the same rate of a later LP. -/
def worseLps : List Edge :=
  [⟨.usd, .eur, "LP_A", .finite 1⟩, ⟨.usd, .eur, "LP_C", .finite 2⟩]

theorem computeRoutes_congr_twoLps :
    computeRoutes (worseLps ++ twoLps).reverse 1 .usd = computeRoutes twoLps 1 .usd := by
  have hbest : BestQuote twoLps ⟨.usd, .eur, "LP_B", 2⟩ := by
    unfold BestQuote
    decide +kernel
  have hperm : (worseLps ++ twoLps).reverse.Perm (twoLps ++ worseLps) :=
    (List.reverse_perm _).trans List.perm_append_comm
  refine computeRoutes_congr 1 .usd hperm fun edge hedge => ?_
  rcases List.mem_pair.mp hedge with rfl | rfl
  · exact ⟨_, _, rfl, by decide +kernel, hbest, rfl, rfl, .inl (by decide +kernel)⟩
  · exact ⟨_, _, rfl, by decide +kernel, hbest, rfl, rfl, .inr (by decide +kernel)⟩

/-! ## Better quotes -/

/-- The quote of a provider, at a rate that is no lower. -/
def Edge.RaisedTo (edge raised : Edge) : Prop :=
  raised.source = edge.source ∧ raised.target = edge.target ∧ raised.lp = edge.lp ∧
    ∃ rate rate', edge.rate = .finite rate ∧ raised.rate = .finite rate' ∧ rate ≤ rate'

/-- The edges of the second tuple are those of the first, at rates that are no lower,
and any further ones, in any order. -/
def ImprovedTo (edges edges' : List Edge) : Prop :=
  ∃ raised added, edges.Forall₂ Edge.RaisedTo raised ∧ edges'.Perm (raised ++ added)

theorem exists_raised {edges raised : List Edge} (h : edges.Forall₂ Edge.RaisedTo raised)
    {edge : Edge} (hedge : edge ∈ edges) : ∃ edge' ∈ raised, edge.RaisedTo edge' := by
  induction h with
  | nil => cases hedge
  | cons hraised _ ih =>
    rcases List.mem_cons.mp hedge with rfl | hedge
    · exact ⟨_, List.mem_cons_self, hraised⟩
    · obtain ⟨edge', hedge', hraised⟩ := ih hedge
      exact ⟨edge', List.mem_cons_of_mem _ hedge', hraised⟩

/-- Every quote is offered at least as well in the improved market. -/
theorem ImprovedTo.exists_quote {edges edges' : List Edge} (h : ImprovedTo edges edges')
    {hop : RouteHop} (hhop : hop ∈ quotes edges) : ∃ hop' ∈ quotes edges',
      hop'.source = hop.source ∧ hop'.target = hop.target ∧ hop.rate ≤ hop'.rate := by
  obtain ⟨raised, added, hraised, hperm⟩ := h
  obtain ⟨edge, hedge, htoHop⟩ := List.mem_filterMap.mp hhop
  obtain ⟨edge', hedge', hs, ht, -, rate, rate', hrate, hrate', hle⟩ :=
    exists_raised hraised hedge
  have hquotes : (⟨edge'.source, edge'.target, edge'.lp, rate'⟩ : RouteHop) ∈ quotes edges' := by
    refine (mem_quotes_perm hperm).mpr (.inl (List.mem_filterMap.mpr ⟨edge', hedge', ?_⟩))
    rw [Edge.toHop, hrate']
  rw [Edge.toHop, hrate] at htoHop
  obtain rfl := Option.some.inj htoHop
  exact ⟨_, hquotes, hs, ht, hle⟩

/-- **A better market never gives a worse quote.**  Of two accepted graphs, the second
with raised rates and further edges, whatever the first routes the second routes at a
rate that is no lower. -/
theorem aggregateRate_mono {edges edges' : List Edge} {version version' : ℤ}
    {source target : Currency} {routes routes' : Currency → Option RouteQuote}
    {quote : RouteQuote} (himproved : ImprovedTo edges edges')
    (hroutes : computeRoutes edges version source = .ok routes)
    (hroutes' : computeRoutes edges' version' source = .ok routes')
    (hquote : routes target = some quote) :
    ∃ quote', routes' target = some quote' ∧ quote.aggregateRate ≤ quote'.aggregateRate := by
  have hround : Monotone routingContext.round := Decimal.roundDigits_monotone (by norm_num)
  have hzero : routingContext.round 0 = 0 := Decimal.roundDigits_zero
  obtain ⟨collapsed, -, hcollapsed, -⟩ := computeRoutesIn_ok hroutes
  have hpos := allPositive_of_collapsed hcollapsed
  have hroute := isRoundedRoute_of_routed hroutes hquote
  obtain ⟨q, hq, hle⟩ : ∃ q, (market routingContext edges').IsWalk source q target ∧
      ∀ r r', 0 ≤ r → r ≤ r' → quote.hops.foldl (market routingContext edges).carry r ≤
        q.foldl (market routingContext edges').carry r' := by
    refine hroute.walk.matched fun hop hhop => ?_
    obtain ⟨hop', hhop', hs, ht, hrate⟩ := himproved.exists_quote hhop
    exact ⟨hop', hhop', hs, ht, fun r r' hr hr' =>
      Decimal.Context.mul_le_mul hround hzero hr hr' (hpos.rate_pos hhop).le hrate⟩
  have hsource : target ≠ source := ((routed_iff_reaches hroutes).mp (hquote ▸ rfl)).1
  obtain ⟨quote', hquote'⟩ :=
    Option.isSome_iff_exists.mp ((routed_iff_reaches hroutes').mpr ⟨hsource, q, hq⟩)
  refine ⟨quote', hquote', ?_⟩
  calc quote.aggregateRate = (market routingContext edges).value quote.hops := hroute.rate_eq
    _ ≤ (market routingContext edges').value q := hle 1 1 zero_le_one le_rfl
    _ ≤ quote'.aggregateRate := (isRoundedRoute_of_routed hroutes' hquote').maximal q hq

/-- The stablecoin buys more euros, and there are pesos too. -/
def betterUsdc : List Edge :=
  [⟨.usd, .php, "LP_A", .finite 55⟩, ⟨.usd, .usdc, "LP_A", .finite 1⟩,
    ⟨.usdc, .eur, "LP_A", .finite (19 / 20)⟩]

theorem overUsdc_improved : ImprovedTo overUsdc betterUsdc := by
  have hsame : Edge.RaisedTo ⟨.usd, .usdc, "LP_A", .finite 1⟩ ⟨.usd, .usdc, "LP_A", .finite 1⟩ :=
    ⟨rfl, rfl, rfl, 1, 1, rfl, rfl, le_rfl⟩
  have hraised : Edge.RaisedTo ⟨.usdc, .eur, "LP_A", .finite (9 / 10)⟩
      ⟨.usdc, .eur, "LP_A", .finite (19 / 20)⟩ :=
    ⟨rfl, rfl, rfl, 9 / 10, 19 / 20, rfl, rfl, by norm_num⟩
  have hadded : (([⟨.usd, .php, "LP_A", .finite 55⟩] : List Edge) ++ betterUsdc.tail).Perm
      (betterUsdc.tail ++ [⟨.usd, .php, "LP_A", .finite 55⟩]) := List.perm_append_comm
  exact ⟨betterUsdc.tail, _, .cons hsame (.cons hraised .nil), hadded⟩

theorem computeRoutes_betterUsdc : ∃ routes,
    computeRoutes betterUsdc 1 .usd = .ok routes ∧ routes .eur =
      some ⟨1, .eur, 19 / 20, [⟨.usd, .usdc, "LP_A", 1⟩, ⟨.usdc, .eur, "LP_A", 19 / 20⟩]⟩ := by
  have hcollapsed : collapsedEdges betterUsdc = .ok [⟨.usd, .php, "LP_A", 55⟩,
      ⟨.usd, .usdc, "LP_A", 1⟩, ⟨.usdc, .eur, "LP_A", 19 / 20⟩] := by
    have hsorted : betterUsdc.mergeSort (fun a b => a.key ≤ b.key) = betterUsdc := by
      apply List.mergeSort_of_pairwise
      simp only [betterUsdc, List.pairwise_cons]
      decide +kernel
    unfold collapsedEdges
    rw [hsorted]
    decide +kernel
  refine computeRoutes_settled hcollapsed rfl ?_ ?_ (by decide)
  · decide +kernel
  · decide +kernel

theorem aggregateRate_mono_overUsdc : ∃ routes routes' quote',
    computeRoutes overUsdc 1 .usd = .ok routes ∧ computeRoutes betterUsdc 1 .usd = .ok routes' ∧
    routes .eur = some overUsdcQuote ∧ overUsdcQuote.hops.length = 2 ∧
    routes' .eur = some quote' ∧ overUsdcQuote.aggregateRate ≤ quote'.aggregateRate := by
  obtain ⟨routes, hroutes, hquote⟩ := computeRoutes_overUsdc
  obtain ⟨routes', hroutes', -⟩ := computeRoutes_betterUsdc
  obtain ⟨quote', hquote', hle⟩ :=
    aggregateRate_mono overUsdc_improved hroutes hroutes' hquote
  exact ⟨routes, routes', quote', hroutes, hroutes', hquote, rfl, hquote', hle⟩

end SettlementRouter
