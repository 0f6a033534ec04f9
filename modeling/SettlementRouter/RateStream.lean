import SettlementRouter.QuotedAmount
import SettlementRouter.RoundedRoutes

/-! # The built-in rate stream

`generate_edges` derives the rates of all currency pairs from an anchor for each
currency, less a margin for each LP.  In exact arithmetic the anchors cancel along a
walk, so that the direct quote is the best one and no cycle gains.  Here every
division and product is rounded, and what is lost to the margin at each further hop
is still more than any rounding gains (`carry_le_directRate`).
-/
namespace SettlementRouter

open Network

/-! ## Graphs whose direct quotes are the best -/

/-- No quote carries more than the bound of its target, and from the source there is
a direct quote that carries as much. -/
structure DirectBound (ctx : Decimal.Context) (edges : List Edge) (source : Currency)
    (bound : Currency → ℚ) : Prop where
  start : bound source = 1
  arc : ∀ hop ∈ quotes edges, ctx.mul (bound hop.source) hop.rate ≤ bound hop.target
  direct : ∀ target, target ≠ source → ∃ hop ∈ quotes edges,
    hop.source = source ∧ hop.target = target ∧ bound target ≤ ctx.mul 1 hop.rate

section Bounds
variable {ctx : Decimal.Context} {edges : List Edge} {source : Currency} {bound : Currency → ℚ}

/-- Some walk along the best quotes carries the bound, over one quote at most. -/
theorem DirectBound.exists_walk (h : DirectBound ctx edges source bound)
    (hround : Monotone ctx.round) (hpos : AllPositive edges) (target : Currency) :
    ∃ p, (bestMarket ctx edges).IsWalk source p target ∧ p.length ≤ 1 ∧
      bound target ≤ (bestMarket ctx edges).value p := by
  by_cases htarget : target = source
  · subst htarget
    exact ⟨[], rfl, Nat.zero_le _, h.start.le⟩
  · obtain ⟨hop, hhop, hs, ht, hle⟩ := h.direct target htarget
    obtain ⟨best, hbest, hs', ht', hrate⟩ := exists_bestQuote hpos hhop
    refine ⟨[best], ⟨hbest, hs'.trans hs, ht'.trans ht⟩, le_rfl, hle.trans ?_⟩
    exact hround (mul_le_mul_of_nonneg_left hrate zero_le_one)

/-- The table after the rounds holds the bounds. -/
theorem DirectBound.entry (h : DirectBound ctx edges source bound) (hround : Monotone ctx.round)
    (hpos : AllPositive edges) {n : ℕ} {best : Best} (hn : 1 ≤ n)
    (hrounds : (bestMarket ctx edges).Rounds n (initialBest source) best) (target : Currency) :
    ∃ candidate, best target = some candidate ∧ candidate.1 = bound target := by
  have hmono := carry_monotone hround hpos
  obtain ⟨p, hp, hlength, hle⟩ := h.exists_walk hround hpos target
  obtain ⟨⟨rate, hops⟩, hentry, hvalue⟩ := hrounds.dominates hmono hp (hlength.trans hn)
  obtain ⟨hwalk, hrate, -⟩ := hrounds.sound hentry
  refine ⟨_, hentry, le_antisymm ?_ (hle.trans hvalue)⟩
  rw [hrate]
  exact hwalk.value_le hmono h.start.ge fun hop hhop => h.arc hop hhop.1

/-- Such a graph is accepted, at the rates of the bound. -/
theorem DirectBound.routed (h : DirectBound ctx edges source bound) (hround : Monotone ctx.round)
    (hpos : AllPositive edges) (version : ℤ) : ∃ routes,
      computeRoutesIn ctx edges version source = .ok routes ∧
      ∀ target, target ≠ source → ∃ quote, routes target = some quote ∧
        quote.snapshotVersion = version ∧ quote.aggregateRate = bound target := by
  cases hc : collapsedEdges edges with
  | error error =>
    obtain ⟨edge, hedge, hbad⟩ := collapsedEdges_error.mp ⟨error, hc⟩
    exact absurd hbad (hpos edge hedge)
  | ok collapsed =>
    obtain ⟨best, hbest⟩ : ∃ best, best =
        rounds ctx collapsed (Fintype.card Currency - 1) (initialBest source) := ⟨_, rfl⟩
    have hrounds := rounds_spec ctx collapsed (Fintype.card Currency - 1) (initialBest source)
    have hrelaxed := relax_relaxed ctx best collapsed
    rw [← hbest, network_collapsed ctx hc] at hrounds
    rw [network_collapsed ctx hc] at hrelaxed
    have hentry := h.entry hround hpos (by decide) hrounds
    -- the extra round holds the same bounds
    have hextra := h.entry hround hpos (by decide) (.succ hrounds hrelaxed)
    have hsettled : ¬ ∃ target, improved best (relax ctx best collapsed) target := by
      rintro ⟨target, himproved⟩
      obtain ⟨candidate, hcandidate, hrate⟩ := hentry target
      obtain ⟨candidate', hcandidate', hrate'⟩ := hextra target
      simp [improved, hcandidate, hcandidate', hrate, hrate'] at himproved
    refine ⟨fun target => if target = source then none
      else (best target).map fun candidate => ⟨version, target, candidate.1, candidate.2⟩, ?_,
      fun target htarget => ?_⟩
    · unfold computeRoutesIn
      rw [hc]
      dsimp only
      rw [← hbest, if_neg hsettled]
    · obtain ⟨candidate, hcandidate, hrate⟩ := hentry target
      refine ⟨⟨version, target, candidate.1, candidate.2⟩, ?_, rfl, hrate⟩
      dsimp only
      rw [if_neg htarget, hcandidate]
      rfl

end Bounds

/-! ## The rates -/

/-- `base_anchors`. -/
def Currency.baseAnchor : Currency → ℚ
  | .usd => 1
  | .usdc => 1
  | .eur => 92 / 100
  | .php => 55
  | .aed => 367 / 100

/-- `coefficients`. -/
def Currency.coefficient : Currency → ℤ
  | .usd => 1
  | .usdc => 2
  | .eur => 3
  | .php => 4
  | .aed => 5

/-- `lp_factors`. -/
def lpFactors : List (String × ℚ) :=
  [("LP_A", 999 / 1000), ("LP_B", 998 / 1000), ("LP_C", 997 / 1000)]

/-- `list(Currency)`. -/
def Currency.all : List Currency := [.usd, .usdc, .eur, .php, .aed]

/-- The anchor of a currency, which the version moves. -/
def anchor (ctx : Decimal.Context) (version : ℤ) (currency : Currency) : ℚ :=
  let swing : ℤ := version * currency.coefficient % 7 - 3
  ctx.mul currency.baseAnchor (ctx.add 1 (ctx.div swing 10000))

/-- The rate of an LP with this factor. -/
def streamRate (ctx : Decimal.Context) (version : ℤ) (source target : Currency) (factor : ℚ) : ℚ :=
  ctx.mul (ctx.div (anchor ctx version target) (anchor ctx version source)) factor

/-- `_generate_edges`, under the decimal context `ctx`. -/
def generateEdgesIn (ctx : Decimal.Context) (version : ℤ) : List Edge :=
  Currency.all.flatMap fun source =>
    (Currency.all.filter fun target => source ≠ target).flatMap fun target =>
      lpFactors.map fun (lp, factor) =>
        ⟨source, target, lp, .finite (streamRate ctx version source target factor)⟩

/-- `generate_edges`. -/
def generateEdges (version : ℤ) : List Edge := generateEdgesIn routingContext version

theorem mem_all (currency : Currency) : currency ∈ Currency.all := by
  cases currency <;> decide

theorem mem_generateEdges {version : ℤ} {edge : Edge} : edge ∈ generateEdges version ↔
    ∃ source target lp factor, source ≠ target ∧ (lp, factor) ∈ lpFactors ∧
      ⟨source, target, lp, .finite (streamRate routingContext version source target factor)⟩ =
        edge := by
  simp [generateEdges, generateEdgesIn, mem_all]

theorem mem_quotes_generateEdges {version : ℤ} {hop : RouteHop} :
    hop ∈ quotes (generateEdges version) ↔
      ∃ source target lp factor, source ≠ target ∧ (lp, factor) ∈ lpFactors ∧
        ⟨source, target, lp, streamRate routingContext version source target factor⟩ = hop := by
  rw [quotes, List.mem_filterMap]
  constructor
  · rintro ⟨edge, hedge, htoHop⟩
    obtain ⟨source, target, lp, factor, hne, hlp, rfl⟩ := mem_generateEdges.mp hedge
    exact ⟨source, target, lp, factor, hne, hlp, Option.some.inj htoHop⟩
  · rintro ⟨source, target, lp, factor, hne, hlp, rfl⟩
    exact ⟨_, mem_generateEdges.mpr ⟨source, target, lp, factor, hne, hlp, rfl⟩, rfl⟩

/-! ## What rounding does to them -/

/-- A bound on the relative error of an operation, far above that of 38 digits. -/
def slack : ℚ := 1 / 10 ^ 6

section Rates
variable (version : ℤ) (source target : Currency) {currency : Currency} {factor q : ℚ}
  {lp : String}

theorem round_monotone : Monotone routingContext.round := Decimal.roundDigits_monotone (by norm_num)

theorem slack_pos : 0 < 1 - slack ∧ 0 < 1 + slack := by
  norm_num [slack]

theorem round_near (hq : 0 < q) :
    (1 - slack) * q ≤ routingContext.round q ∧ routingContext.round q ≤ (1 + slack) * q := by
  have herror : |routingContext.round q - q| ≤ q / (2 * 10 ^ 37) :=
    Decimal.abs_roundDigits_sub_le (n := 38) (by norm_num) hq
  obtain ⟨hlow, hhigh⟩ := abs_le.mp herror
  have hsmall : q / (2 * 10 ^ 37) ≤ slack * q := by
    rw [slack, div_le_iff₀ (by norm_num)]
    linarith
  constructor <;> linarith

/-- Values that the context does not round bound what it rounds. -/
theorem round_mem {scale : ℕ} {lo hi : ℤ} (hlo : Decimal.Fits 38 lo) (hhi : Decimal.Fits 38 hi)
    (hq : Decimal.ofColumn scale lo ≤ q ∧ q ≤ Decimal.ofColumn scale hi) :
    Decimal.ofColumn scale lo ≤ routingContext.round q ∧
      routingContext.round q ≤ Decimal.ofColumn scale hi := by
  constructor
  · exact (Decimal.roundDigits_ofColumn hlo).symm.le.trans (round_monotone hq.1)
  · exact (round_monotone hq.2).trans (Decimal.roundDigits_ofColumn hhi).le

theorem baseAnchor_mem : 92 / 100 ≤ currency.baseAnchor ∧ currency.baseAnchor ≤ 55 := by
  cases currency <;> norm_num [Currency.baseAnchor]

theorem baseAnchor_pos : 0 < currency.baseAnchor := lt_of_lt_of_le (by norm_num) baseAnchor_mem.1

/-- It is a number of cents. -/
theorem exists_cents (currency : Currency) :
    ∃ cents : ℤ, currency.baseAnchor = Decimal.ofColumn 2 cents ∧ 0 < cents ∧ cents ≤ 5500 := by
  cases currency with
  | usd => exact ⟨100, by norm_num [Currency.baseAnchor, Decimal.ofColumn], by norm_num⟩
  | usdc => exact ⟨100, by norm_num [Currency.baseAnchor, Decimal.ofColumn], by norm_num⟩
  | eur => exact ⟨92, by norm_num [Currency.baseAnchor, Decimal.ofColumn], by norm_num⟩
  | php => exact ⟨5500, by norm_num [Currency.baseAnchor, Decimal.ofColumn], by norm_num⟩
  | aed => exact ⟨367, by norm_num [Currency.baseAnchor, Decimal.ofColumn], by norm_num⟩

theorem swing_mem (currency : Currency) : (-3 : ℚ) ≤ (version * currency.coefficient % 7 - 3 : ℤ) ∧
    ((version * currency.coefficient % 7 - 3 : ℤ) : ℚ) ≤ 3 := by
  have hnonneg := Int.emod_nonneg (version * currency.coefficient) (by norm_num : (7 : ℤ) ≠ 0)
  have hlt := Int.emod_lt_of_pos (version * currency.coefficient) (by norm_num : (0 : ℤ) < 7)
  constructor
  · exact_mod_cast (by omega : -3 ≤ version * currency.coefficient % 7 - 3)
  · exact_mod_cast (by omega : version * currency.coefficient % 7 - 3 ≤ 3)

/-- An anchor stays within three hundredths of a percent of its base. -/
theorem anchor_mem (currency : Currency) :
    currency.baseAnchor * (9997 / 10000) ≤ anchor routingContext version currency ∧
      anchor routingContext version currency ≤ currency.baseAnchor * (10003 / 10000) := by
  obtain ⟨hlow, hhigh⟩ : _ ∧ _ := swing_mem version currency
  unfold anchor
  dsimp only
  generalize (version * currency.coefficient % 7 - 3 : ℤ) = swing at hlow hhigh ⊢
  have hdiv : Decimal.ofColumn 4 (-3) ≤ routingContext.div swing 10000 ∧
      routingContext.div swing 10000 ≤ Decimal.ofColumn 4 3 := by
    refine round_mem (by decide) (by decide) ?_
    norm_num only [Decimal.ofColumn]
    constructor <;> linarith
  have hadd : Decimal.ofColumn 4 9997 ≤ routingContext.add 1 (routingContext.div swing 10000) ∧
      routingContext.add 1 (routingContext.div swing 10000) ≤ Decimal.ofColumn 4 10003 := by
    refine round_mem (by decide) (by decide) ?_
    norm_num only [Decimal.ofColumn] at hdiv ⊢
    constructor <;> linarith [hdiv.1, hdiv.2]
  obtain ⟨cents, hcents, hpos, hle⟩ := exists_cents currency
  have hbase : 0 < currency.baseAnchor := baseAnchor_pos
  have hscaled (percent : ℤ) : currency.baseAnchor * Decimal.ofColumn 4 percent =
      Decimal.ofColumn 6 (cents * percent) := by
    rw [hcents, Decimal.ofColumn, Decimal.ofColumn, Decimal.ofColumn]
    push_cast
    ring
  have hfits (percent : ℤ) (hpercent : 0 ≤ percent ∧ percent ≤ 10003) :
      Decimal.Fits 38 (cents * percent) := by
    rw [Decimal.Fits, abs_of_nonneg (mul_nonneg hpos.le hpercent.1)]
    nlinarith
  have hlow' : (9997 / 10000 : ℚ) = Decimal.ofColumn 4 9997 := by norm_num [Decimal.ofColumn]
  have hhigh' : (10003 / 10000 : ℚ) = Decimal.ofColumn 4 10003 := by norm_num [Decimal.ofColumn]
  rw [hlow', hhigh', hscaled, hscaled]
  refine round_mem (hfits _ (by norm_num)) (hfits _ (by norm_num)) ⟨?_, ?_⟩
  · rw [← hscaled]
    exact mul_le_mul_of_nonneg_left hadd.1 hbase.le
  · rw [← hscaled]
    exact mul_le_mul_of_nonneg_left hadd.2 hbase.le

theorem anchor_pos {version : ℤ} : 0 < anchor routingContext version currency :=
  (mul_pos baseAnchor_pos (by norm_num)).trans_le (anchor_mem version currency).1

/-- The ratio of two anchors, which rates are near to. -/
def ratio (version : ℤ) (source target : Currency) : ℚ :=
  anchor routingContext version target / anchor routingContext version source

theorem ratio_pos {version : ℤ} {source target : Currency} : 0 < ratio version source target := div_pos anchor_pos anchor_pos

/-- Ratios cancel along a walk. -/
theorem ratio_mul_ratio (middle : Currency) :
    ratio version source middle * ratio version middle target = ratio version source target := by
  have hmiddle : anchor routingContext version middle ≠ 0 := anchor_pos.ne'
  rw [ratio, ratio, ratio, mul_comm, div_mul_div_cancel₀ hmiddle]

theorem streamRate_near (hfactor : 0 < factor) :
    (1 - slack) ^ 2 * (ratio version source target * factor) ≤
        streamRate routingContext version source target factor ∧
      streamRate routingContext version source target factor ≤
        (1 + slack) ^ 2 * (ratio version source target * factor) := by
  have hslack : 0 < 1 - slack := slack_pos.1
  have hratio : 0 < ratio version source target := ratio_pos
  obtain ⟨hlow, hhigh⟩ := round_near hratio
  have hdiv : 0 < routingContext.round (ratio version source target) :=
    (mul_pos hslack hratio).trans_le hlow
  obtain ⟨hlow', hhigh'⟩ := round_near (mul_pos hdiv hfactor)
  constructor
  · calc (1 - slack) ^ 2 * (ratio version source target * factor)
        = (1 - slack) * ((1 - slack) * ratio version source target * factor) := by ring
      _ ≤ (1 - slack) * (routingContext.round (ratio version source target) * factor) := by
        gcongr
      _ ≤ _ := hlow'
  · calc streamRate routingContext version source target factor
        ≤ (1 + slack) * (routingContext.round (ratio version source target) * factor) := hhigh'
      _ ≤ (1 + slack) * ((1 + slack) * ratio version source target * factor) := by
        have hslack' : 0 < 1 + slack := slack_pos.2
        gcongr
      _ = _ := by ring

/-! ## The direct quotes bound all routes -/

/-- The rate of the direct quote of the best LP. -/
def directRate (version : ℤ) (target : Currency) : ℚ :=
  if target = .usd then 1
  else routingContext.mul 1 (streamRate routingContext version .usd target (999 / 1000))

theorem factor_mem (h : (lp, factor) ∈ lpFactors) : 0 < factor ∧ factor ≤ 999 / 1000 := by
  simp only [lpFactors, List.mem_cons, Prod.mk.injEq, List.not_mem_nil, or_false] at h
  rcases h with ⟨-, rfl⟩ | ⟨-, rfl⟩ | ⟨-, rfl⟩ <;> norm_num

theorem streamRate_pos {version : ℤ} {source target : Currency} (hfactor : 0 < factor) :
    0 < streamRate routingContext version source target factor := by
  have hslack : 0 < 1 - slack := slack_pos.1
  exact (mul_pos (pow_pos hslack 2) (mul_pos ratio_pos hfactor)).trans_le
    (streamRate_near version source target hfactor).1

theorem le_directRate :
    (1 - slack) ^ 3 * (ratio version .usd target * (999 / 1000)) ≤ directRate version target := by
  unfold directRate
  split_ifs with htarget
  · have hone : ratio version .usd target = 1 := by
      rw [htarget]
      exact div_self anchor_pos.ne'
    rw [hone]
    norm_num [slack]
  · have hslack : 0 < 1 - slack := slack_pos.1
    have hrate := streamRate_near version .usd target
      (by norm_num : (0 : ℚ) < 999 / 1000)
    calc (1 - slack) ^ 3 * (ratio version .usd target * (999 / 1000))
        = (1 - slack) * ((1 - slack) ^ 2 * (ratio version .usd target * (999 / 1000))) := by ring
      _ ≤ (1 - slack) * (1 * streamRate routingContext version .usd target (999 / 1000)) := by
        rw [one_mul]
        gcongr
        exact hrate.1
      _ ≤ _ := (round_near (mul_pos one_pos (streamRate_pos (by norm_num)))).1

theorem directRate_le {target : Currency} (htarget : target ≠ .usd) : directRate version target ≤
    (1 + slack) ^ 3 * (ratio version .usd target * (999 / 1000)) := by
  have hslack : 0 < 1 + slack := slack_pos.2
  have hrate := streamRate_near version .usd target
    (by norm_num : (0 : ℚ) < 999 / 1000)
  rw [directRate, if_neg htarget]
  calc routingContext.mul 1 (streamRate routingContext version .usd target (999 / 1000))
      ≤ (1 + slack) * (1 * streamRate routingContext version .usd target (999 / 1000)) :=
        (round_near (mul_pos one_pos (streamRate_pos (by norm_num)))).2
    _ ≤ (1 + slack) * ((1 + slack) ^ 2 * (ratio version .usd target * (999 / 1000))) := by
      rw [one_mul]
      gcongr
      exact hrate.2
    _ = (1 + slack) ^ 3 * (ratio version .usd target * (999 / 1000)) := by ring

theorem directRate_pos {version : ℤ} {target : Currency} : 0 < directRate version target := by
  have hslack : 0 < 1 - slack := slack_pos.1
  exact (mul_pos (pow_pos hslack 3) (mul_pos ratio_pos (by norm_num))).trans_le
    (le_directRate version target)

/-- **One hop more loses**: what the margin takes is more than any rounding gives. -/
theorem carry_le_directRate {source target : Currency} (hne : source ≠ target) (hfactor : 0 < factor)
    (hmargin : factor ≤ 999 / 1000) :
    routingContext.mul (directRate version source)
      (streamRate routingContext version source target factor) ≤ directRate version target := by
  by_cases hsource : source = .usd
  · -- the direct quote itself, of this LP or of the best one
    subst hsource
    have hdiv : 0 ≤ routingContext.div (anchor routingContext version target)
        (anchor routingContext version .usd) := by
      exact (mul_nonneg slack_pos.1.le ratio_pos.le).trans (round_near ratio_pos).1
    rw [directRate, if_pos rfl, directRate, if_neg hne.symm]
    refine round_monotone (mul_le_mul_of_nonneg_left ?_ zero_le_one)
    exact round_monotone (mul_le_mul_of_nonneg_left hmargin hdiv)
  · have hslack : 0 < 1 + slack := slack_pos.2
    have hratio : 0 < ratio version .usd target := ratio_pos
    have hrate : 0 < streamRate routingContext version source target factor :=
      streamRate_pos hfactor
    have hbound : 0 < directRate version source := directRate_pos
    calc routingContext.mul (directRate version source)
          (streamRate routingContext version source target factor)
        ≤ (1 + slack) * (directRate version source *
            streamRate routingContext version source target factor) := (round_near (mul_pos hbound hrate)).2
      _ ≤ (1 + slack) * ((1 + slack) ^ 3 * (ratio version .usd source * (999 / 1000)) *
            ((1 + slack) ^ 2 * (ratio version source target * (999 / 1000)))) := by
        have hdirect := directRate_le version hsource
        have hnear := (streamRate_near version source target hfactor).2
        have hfirst : 0 < ratio version .usd source := ratio_pos
        have hsecond : 0 < ratio version source target := ratio_pos
        gcongr
        refine hnear.trans ?_
        gcongr
      _ = (1 + slack) ^ 6 * (999 / 1000) *
            (ratio version .usd source * ratio version source target * (999 / 1000)) := by ring
      _ = (1 + slack) ^ 6 * (999 / 1000) * (ratio version .usd target * (999 / 1000)) := by
        rw [ratio_mul_ratio]
      _ ≤ (1 - slack) ^ 3 * (ratio version .usd target * (999 / 1000)) := by
        have hloss : (1 + slack) ^ 6 * (999 / 1000) ≤ (1 - slack) ^ 3 := by norm_num [slack]
        gcongr
      _ ≤ directRate version target := le_directRate version target

theorem allPositive_generateEdges {version : ℤ} : AllPositive (generateEdges version) := by
  intro edge hedge hbad
  obtain ⟨source, target, lp, factor, -, hlp, rfl⟩ := mem_generateEdges.mp hedge
  exact hbad.not_gt (streamRate_pos (factor_mem hlp).1)

theorem directBound_generateEdges :
    DirectBound routingContext (generateEdges version) .usd (directRate version) where
  start := if_pos rfl
  arc hop hhop := by
    obtain ⟨source, target, lp, factor, hne, hlp, rfl⟩ := mem_quotes_generateEdges.mp hhop
    exact carry_le_directRate version hne (factor_mem hlp).1 (factor_mem hlp).2
  direct target htarget := by
    refine ⟨⟨.usd, target, "LP_A", streamRate routingContext version .usd target (999 / 1000)⟩,
      mem_quotes_generateEdges.mpr ⟨.usd, target, "LP_A", 999 / 1000, htarget.symm, .head _, rfl⟩,
      rfl, rfl, ?_⟩
    rw [directRate, if_neg htarget]

/-- The rates are of the size of the anchors. -/
theorem directRate_mem {target : Currency} (htarget : target ≠ .usd) :
    1 / 2 ≤ directRate version target ∧ directRate version target ≤ 60 := by
  have husd : 0 < anchor routingContext version .usd := anchor_pos
  obtain ⟨hlow, hhigh⟩ : _ ∧ _ := anchor_mem version .usd
  obtain ⟨hlow', hhigh'⟩ : _ ∧ _ := anchor_mem version target
  have hbase : 92 / 100 ≤ target.baseAnchor ∧ target.baseAnchor ≤ 55 := baseAnchor_mem
  rw [Currency.baseAnchor, one_mul] at hlow hhigh
  have hratio : 91 / 100 ≤ ratio version .usd target ∧ ratio version .usd target ≤ 56 := by
    constructor
    · rw [ratio, le_div_iff₀ husd]
      linarith [hbase.1]
    · rw [ratio, div_le_iff₀ husd]
      linarith [hbase.2]
  constructor
  · refine le_trans ?_ (le_directRate version target)
    have hloss : 999 / 1000 ≤ (1 - slack) ^ 3 := by norm_num [slack]
    nlinarith [hratio.1]
  · refine (directRate_le version htarget).trans ?_
    have hgain : (1 + slack) ^ 3 ≤ 1001 / 1000 := by norm_num [slack]
    nlinarith [hratio.2]

end Rates

/-! ## The columns -/

/-- A positive value that is not too large is stored as a positive one. -/
theorem toColumn_pos (precision : ℕ) {q : ℚ} (hlow : 1 / (2 * 10 ^ 8) ≤ q)
    (hhigh : q ≤ Decimal.ofColumn 8 (10 ^ precision - 1)) :
    ∃ units, Decimal.toColumn precision 8 q = some units ∧ 0 < units := by
  have hpos : 0 < Decimal.roundHalfAway (q * 10 ^ 8) := by
    refine (Decimal.le_roundHalfAway one_pos).mpr ?_
    push_cast
    linarith
  refine ⟨_, Decimal.toColumn_eq_some.mpr ⟨rfl, ?_⟩, hpos⟩
  rw [Decimal.Fits, abs_of_pos hpos, ← not_le, Decimal.le_roundHalfAway (by positivity)]
  rw [Decimal.ofColumn, le_div_iff₀ (by positivity)] at hhigh
  push_cast at hhigh ⊢
  linarith

/-- The column of the version holds it. -/
def VersionFits (version : ℤ) : Prop := -2 ^ 31 ≤ version ∧ version < 2 ^ 31

/-- The insert of the settlement: the two columns hold positive values, no check fails,
and the row is stored where the version is an integer of 32 bits. -/
structure Inserts (new : NewSettlement) : Prop where
  rate : ∃ rate, Decimal.toColumn 24 8 new.quote.aggregateRate = some rate ∧ 0 < rate
  quoted : ∃ quoted, Decimal.toColumn 32 8 new.quotedAmount = some quoted ∧ 0 < quoted
  checked : ∀ constraint, new.row ≠ .error (.integrityError constraint)
  stored : VersionFits new.quote.snapshotVersion → ∃ row, new.row = .ok row
  overflows : ¬ VersionFits new.quote.snapshotVersion → new.row = .error .dataError

theorem inserts_of_columns {new : NewSettlement} {rate quoted : Units}
    (hrate : Decimal.toColumn 24 8 new.quote.aggregateRate = some rate) (hrate_pos : 0 < rate)
    (hquoted : Decimal.toColumn 32 8 new.quotedAmount = some quoted) (hquoted_pos : 0 < quoted) :
    Inserts new := by
  have hoverflows : ¬ VersionFits new.quote.snapshotVersion → new.row = .error .dataError := by
    intro hversion
    rw [VersionFits, not_and_or, not_le, not_lt] at hversion
    unfold NewSettlement.row
    rw [hrate, hquoted]
    exact if_pos hversion
  have hstored : VersionFits new.quote.snapshotVersion → ∃ row, new.row = .ok row := by
    rintro ⟨hlow, hhigh⟩
    unfold NewSettlement.row
    rw [hrate, hquoted]
    dsimp only
    rw [if_neg (by omega), dif_pos hquoted_pos, dif_pos hrate_pos]
    exact ⟨_, rfl⟩
  refine ⟨⟨rate, hrate, hrate_pos⟩, ⟨quoted, hquoted, hquoted_pos⟩, fun constraint herror => ?_,
    hstored, hoverflows⟩
  by_cases hversion : VersionFits new.quote.snapshotVersion
  · obtain ⟨row, hrow⟩ := hstored hversion
    rw [hrow] at herror
    cases herror
  · rw [hoverflows hversion] at herror
    cases herror

/-- The product of an amount and a rate of the stream fits its column, in whatever
context of decimal digits it is taken. -/
theorem product_mem {n : ℕ} (hn : 1 ≤ n) (command : SettlementCreate) {rate : ℚ}
    (hlow : 1 / 2 ≤ rate) (hhigh : rate ≤ 60) :
    1 / (2 * 10 ^ 8) ≤ (Decimal.Context.prec n).mul (Decimal.ofColumn 8 command.amountUsd) rate ∧
      (Decimal.Context.prec n).mul (Decimal.ofColumn 8 command.amountUsd) rate ≤ 10 ^ 18 := by
  have hunits : (1 : ℚ) ≤ command.amountUsd := by exact_mod_cast command.amount_positive
  have hunits' : (command.amountUsd : ℚ) ≤ 10 ^ 24 := by
    exact_mod_cast (le_abs_self _).trans command.amount_fits.le
  have hamount : 1 / 10 ^ 8 ≤ Decimal.ofColumn 8 command.amountUsd ∧
      Decimal.ofColumn 8 command.amountUsd ≤ 10 ^ 16 := by
    constructor
    · exact div_le_div_of_nonneg_right hunits (by positivity)
    · rw [Decimal.ofColumn, div_le_iff₀ (by positivity)]
      linarith
  have hproduct : 1 / (2 * 10 ^ 8) ≤ Decimal.ofColumn 8 command.amountUsd * rate := by
    calc (1 / (2 * 10 ^ 8) : ℚ) = 1 / 10 ^ 8 * (1 / 2) := by norm_num
      _ ≤ Decimal.ofColumn 8 command.amountUsd * rate :=
        mul_le_mul hamount.1 hlow (by norm_num) (le_trans (by norm_num) hamount.1)
  have hproduct' : Decimal.ofColumn 8 command.amountUsd * rate < ((10 : ℕ) : ℚ) ^ (18 : ℤ) := by
    calc Decimal.ofColumn 8 command.amountUsd * rate ≤ 10 ^ 16 * 60 :=
          mul_le_mul hamount.2 hhigh (le_trans (by norm_num) hlow) (by norm_num)
      _ < ((10 : ℕ) : ℚ) ^ (18 : ℤ) := by norm_num
  constructor
  · -- half a unit of the column has one digit
    have hfits : Decimal.Fits n 5 := by
      have hten : (10 : ℤ) ^ 1 ≤ 10 ^ n := pow_le_pow_right₀ (by norm_num) hn
      exact lt_of_lt_of_le (by norm_num) hten
    have hhalf : Decimal.roundDigits n (Decimal.ofColumn 9 5) = Decimal.ofColumn 9 5 :=
      Decimal.roundDigits_ofColumn hfits
    calc (1 / (2 * 10 ^ 8) : ℚ) = Decimal.roundDigits n (Decimal.ofColumn 9 5) := by
          rw [hhalf, Decimal.ofColumn]
          norm_num
      _ ≤ _ := Decimal.roundDigits_monotone hn (by
          rw [Decimal.ofColumn]
          exact le_trans (by norm_num) hproduct)
  · have hpos : 0 < Decimal.ofColumn 8 command.amountUsd * rate :=
      lt_of_lt_of_le (by norm_num) hproduct
    have hlog := (Int.lt_zpow_iff_log_lt (by norm_num) hpos).mp hproduct'
    calc _ ≤ (10 : ℚ) ^ (Int.log 10 (Decimal.ofColumn 8 command.amountUsd * rate) + 1) :=
          Decimal.roundDigits_le_zpow_log hpos
      _ ≤ 10 ^ (18 : ℤ) := zpow_le_zpow_right₀ (by norm_num) (by omega)
      _ = 10 ^ 18 := by norm_num

/-- A settlement that `create` makes of a quote, multiplying in the context `ctx`. -/
def CreatedFrom (ctx : Decimal.Context) (quote : RouteQuote) (new : NewSettlement) : Prop :=
  new.quote = quote ∧ new.quotedAmount =
    ctx.mul (Decimal.ofColumn 8 new.command.amountUsd) quote.aggregateRate

/-- Every version is routed, at rates with which settlements can be inserted. -/
theorem inserts_of_stream (version : ℤ) : ∃ routes,
    computeRoutes (generateEdges version) version .usd = .ok routes ∧
    ∀ target, target ≠ .usd → ∃ quote, routes target = some quote ∧
      quote.snapshotVersion = version ∧
      ∀ n new, 1 ≤ n → CreatedFrom (.prec n) quote new → Inserts new := by
  obtain ⟨routes, hroutes, hrouted⟩ := (directBound_generateEdges version).routed round_monotone
    allPositive_generateEdges version
  refine ⟨routes, hroutes, fun target htarget => ?_⟩
  obtain ⟨quote, hquote, hversion, hrate⟩ := hrouted target htarget
  refine ⟨quote, hquote, hversion, ?_⟩
  rintro n new hn ⟨hnew, hquoted⟩
  obtain ⟨hlow, hhigh⟩ : _ ∧ _ := directRate_mem version htarget
  rw [← hrate] at hlow hhigh
  obtain ⟨hlow', hhigh'⟩ := product_mem hn new.command hlow hhigh
  rw [← hquoted] at hlow' hhigh'
  rw [← hnew] at hlow hhigh
  obtain ⟨rate, hrate, hrate_pos⟩ := toColumn_pos 24 (le_trans (by norm_num) hlow)
    (hhigh.trans (by rw [Decimal.ofColumn]; norm_num))
  obtain ⟨quoted, hquoted, hquoted_pos⟩ := toColumn_pos 32 hlow'
    (hhigh'.trans (by rw [Decimal.ofColumn]; norm_num))
  exact inserts_of_columns hrate hrate_pos hquoted hquoted_pos

/-- **The rate stream never breaks the creation of a settlement**, while its version is
an integer of 32 bits: the graph of every version is accepted and routes every other
currency; the rate and the product with any amount, in a context of any number of
digits, are stored as positive values, and no check fails. -/
theorem rate_stream_creates (version : ℤ) : ∃ routes,
    computeRoutes (generateEdges version) version .usd = .ok routes ∧
    ∀ target, target ≠ .usd → ∃ quote, routes target = some quote ∧
      quote.snapshotVersion = version ∧
      ∀ n new, 1 ≤ n → CreatedFrom (.prec n) quote new → Inserts new :=
  inserts_of_stream version

/-- From version `2 ^ 31` on, which the stream routes as any other, no settlement is
stored. -/
theorem not_stored_overflow : ∃ routes quote,
    computeRoutes (generateEdges (2 ^ 31)) (2 ^ 31) .usd = .ok routes ∧ routes .eur = some quote ∧
    CreatedFrom (.prec 38) quote (loneNew ⟨id, .prec 38, 10000000⟩ oneDollar quote) ∧
    (loneNew ⟨id, .prec 38, 10000000⟩ oneDollar quote).row = .error .dataError := by
  obtain ⟨routes, hroutes, hrouted⟩ := inserts_of_stream (2 ^ 31)
  obtain ⟨quote, hquote, hversion, hinserts⟩ := hrouted .eur (by decide)
  have hcreated : CreatedFrom (.prec 38) quote
      (loneNew ⟨id, .prec 38, 10000000⟩ oneDollar quote) := ⟨rfl, rfl⟩
  refine ⟨routes, quote, hroutes, hquote, hcreated, ?_⟩
  refine (hinserts 38 _ (by norm_num) hcreated).overflows ?_
  rintro ⟨-, hfits⟩
  rw [hversion] at hfits
  exact lt_irrefl _ hfits

end SettlementRouter
