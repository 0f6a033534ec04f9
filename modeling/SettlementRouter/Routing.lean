import Mathlib.Data.Fintype.Pi
import Mathlib.Data.Prod.Lex
import Mathlib.Data.String.Basic
import SettlementRouter.Decimal

/-! # FX routing

`app/routing.py`: quotes of three liquidity providers between five currencies
make a graph, and `computeRoutes` finds, for each currency reachable from the
source, the route with the greatest product of rates.

Every product is taken in a decimal context.  `computeRoutesIn` is the
algorithm in any context; `computeRoutes` runs it in the 38-digit context the
module isolates its arithmetic in.
-/
namespace SettlementRouter

/-- `Currency`. -/
inductive Currency where
  | usd
  | usdc
  | eur
  | php
  | aed
  deriving DecidableEq, Repr

instance : Fintype Currency where
  elems := {.usd, .usdc, .eur, .php, .aed}
  complete c := by cases c <;> decide

/-- The string a `Currency` member stands for. -/
def Currency.value : Currency → String
  | .usd => "USD"
  | .usdc => "USDC"
  | .eur => "EUR"
  | .php => "PHP"
  | .aed => "AED"

/-- A liquidity provider's rate between two currencies. -/
structure Edge where
  source : Currency
  target : Currency
  lp : String
  rate : Decimal.Number
  deriving DecidableEq

/-- One hop of a route. Only edges with a finite rate become hops. -/
structure RouteHop where
  source : Currency
  target : Currency
  lp : String
  rate : ℚ
  deriving DecidableEq

/-- `RouteQuote`: the best route to a target. -/
structure RouteQuote where
  snapshotVersion : ℤ
  target : Currency
  aggregateRate : ℚ
  hops : List RouteHop

/-- Why a graph is rejected. -/
inductive InvalidRateGraph where
  | badRate
  | profitableCycle
  deriving DecidableEq

/-- The text of the exception. -/
def InvalidRateGraph.message : InvalidRateGraph → String
  | .badRate => "rates must be positive and finite"
  | .profitableCycle => "profitable cycle is reachable from source"

/-- `(source, target, lp)`, as tuples of strings compare. -/
abbrev HopKey := String ×ₗ String ×ₗ String

/-- What edges are sorted by. -/
def Edge.key (edge : Edge) : HopKey :=
  toLex (edge.source.value, toLex (edge.target.value, edge.lp))

/-- What routes of equal rate are compared by, hop by hop. -/
def RouteHop.key (hop : RouteHop) : HopKey :=
  toLex (hop.source.value, toLex (hop.target.value, hop.lp))

/-- `_hop_key`. -/
def hopKey (hops : List RouteHop) : List HopKey := hops.map RouteHop.key

/-- A rate with the hops it multiplies. -/
abbrev Candidate := ℚ × List RouteHop

/-- The best candidate found so far for each currency. -/
abbrev Best := Currency → Option Candidate

/-- `_is_better`: a higher rate, or the same with hops that come first. -/
def isBetter (candidate : Candidate) : Option Candidate → Bool
  | none => true
  | some current =>
    current.1 < candidate.1 ||
      (candidate.1 = current.1 && hopKey candidate.2 < hopKey current.2)

/-! ## Collapsing parallel edges -/

/-- The hop an edge offers, if its rate is a number. -/
def Edge.toHop (edge : Edge) : Option RouteHop :=
  match edge.rate with
  | .finite rate => some ⟨edge.source, edge.target, edge.lp, rate⟩
  | _ => none

/-- `selected[key] = edge`, unless an edge of the same currency pair with at
least this rate is there already. -/
def select (edge : RouteHop) : List RouteHop → List RouteHop
  | [] => [edge]
  | current :: selected =>
    if current.source = edge.source ∧ current.target = edge.target then
      if current.rate < edge.rate then edge :: selected else current :: selected
    else current :: select edge selected

/-- The loop of `_collapsed_edges`, with what it has selected. -/
def collapseFrom (selected : List RouteHop) :
    List Edge → Except InvalidRateGraph (List RouteHop)
  | [] => .ok selected
  | edge :: edges =>
    match edge.toHop with
    | none => .error .badRate
    | some hop =>
      if hop.rate ≤ 0 then .error .badRate else collapseFrom (select hop selected) edges

/-- `_collapsed_edges`: the best edge of each currency pair. -/
def collapsedEdges (edges : List Edge) : Except InvalidRateGraph (List RouteHop) :=
  collapseFrom [] (edges.mergeSort fun a b => a.key ≤ b.key)

/-! ## Relaxation -/

/-- The loop of `_relax`: the best of the round before, and one hop more. -/
def relaxEdge (ctx : Decimal.Context) (best nextBest : Best) (edge : RouteHop) : Best :=
  match best edge.source with
  | none => nextBest
  | some source =>
    let candidate : Candidate := (ctx.mul source.1 edge.rate, source.2 ++ [edge])
    if isBetter candidate (nextBest edge.target) then
      Function.update nextBest edge.target (some candidate)
    else nextBest

/-- `_relax`: one round over all edges. -/
def relax (ctx : Decimal.Context) (best : Best) (edges : List RouteHop) : Best :=
  edges.foldl (relaxEdge ctx best) best

/-- Rounds of relaxation, stopping early when one changes nothing. -/
def rounds (ctx : Decimal.Context) (edges : List RouteHop) : ℕ → Best → Best
  | 0, best => best
  | n + 1, best =>
    let nextBest := relax ctx best edges
    if nextBest = best then best else rounds ctx edges n nextBest

/-- The extra round found a target not in `best`, or a better rate for it. -/
def improved (best extra : Best) (target : Currency) : Bool :=
  match extra target, best target with
  | none, _ => false
  | some _, none => true
  | some candidate, some current => current.1 < candidate.1

/-- The empty route to the source. -/
def initialBest (source : Currency) : Best :=
  fun target => if target = source then some (1, []) else none

/-- `_compute_routes`, under the decimal context `ctx`. -/
def computeRoutesIn (ctx : Decimal.Context) (edges : List Edge) (version : ℤ)
    (source : Currency) : Except InvalidRateGraph (Currency → Option RouteQuote) :=
  match collapsedEdges edges with
  | .error error => .error error
  | .ok collapsed =>
    let best := rounds ctx collapsed (Fintype.card Currency - 1) (initialBest source)
    let extra := relax ctx best collapsed
    if ∃ target, improved best extra target then .error .profitableCycle
    else .ok fun target =>
      if target = source then none
      else (best target).map fun candidate => ⟨version, target, candidate.1, candidate.2⟩

/-- `ROUTING_CONTEXT`. -/
def routingContext : Decimal.Context := .prec 38

/-- `compute_routes`. -/
def computeRoutes (edges : List Edge) (version : ℤ) (source : Currency) :
    Except InvalidRateGraph (Currency → Option RouteQuote) :=
  computeRoutesIn routingContext edges version source

end SettlementRouter
