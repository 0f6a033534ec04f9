import SettlementRouter.BestWalks
import SettlementRouter.Routing

/-! # What the routing code computes

The graph handed to the relaxation has one edge for each quoted currency pair:
the one with the best rate, and of several with that rate the one whose LP name
is least (`BestQuote`, `mem_collapsed`).  The relaxation then is the one of
`BestWalks`, over the `network` of these edges: `relax` meets `Relaxed`, and the
rounds with their early exit are `|Currency| - 1` rounds (`rounds_spec`).
-/
namespace SettlementRouter

open Network

/-- The network of `hops`, multiplying rates in the context `ctx`. -/
def network (ctx : Decimal.Context) (hops : List RouteHop) :
    Network Currency RouteHop ℚ HopKey where
  arc hop := hop ∈ hops
  src := RouteHop.source
  tgt := RouteHop.target
  key := RouteHop.key
  unit := 1
  carry r hop := ctx.mul r hop.rate

/-- The rates quoted, as hops. -/
def quotes (edges : List Edge) : List RouteHop := edges.filterMap Edge.toHop

/-- The rate of an edge is not a positive number. -/
def Edge.Bad (edge : Edge) : Prop :=
  match edge.rate with
  | .finite rate => rate ≤ 0
  | .infinity _ => True
  | .nan => True

/-- `hop` has the best rate quoted for its currency pair, and the least LP name
among the quotes of that rate. -/
def BestQuote (edges : List Edge) (hop : RouteHop) : Prop :=
  hop ∈ quotes edges ∧ ∀ other ∈ quotes edges,
    other.source = hop.source → other.target = hop.target →
      other.rate < hop.rate ∨ other.rate = hop.rate ∧ hop.lp ≤ other.lp

theorem Currency.value_injective : Function.Injective Currency.value := by
  intro c d h
  cases c <;> cases d <;> first | rfl | exact absurd h (by decide)

theorem RouteHop.key_inj {a b : RouteHop} (h : a.key = b.key) :
    a.source = b.source ∧ a.target = b.target ∧ a.lp = b.lp := by
  obtain ⟨hs, ht⟩ := Prod.mk.inj (toLex.injective h)
  obtain ⟨ht, hlp⟩ := Prod.mk.inj (toLex.injective ht)
  exact ⟨Currency.value_injective hs, Currency.value_injective ht, hlp⟩

/-- Between hops of one currency pair, keys compare LP names. -/
theorem RouteHop.lp_le_of_key_le {a b : RouteHop} (h : a.key ≤ b.key)
    (hs : a.source = b.source) (ht : a.target = b.target) : a.lp ≤ b.lp := by
  rw [key, key, hs, ht, Prod.Lex.toLex_le_toLex] at h
  rcases h with h | ⟨-, h⟩
  · exact absurd h (lt_irrefl _)
  · rcases Prod.Lex.toLex_le_toLex.mp h with h | ⟨-, h⟩
    · exact absurd h (lt_irrefl _)
    · exact h

theorem Edge.toHop_key {edge : Edge} {hop : RouteHop} (h : edge.toHop = some hop) :
    hop.key = edge.key := by
  unfold toHop at h
  split at h
  · obtain rfl := Option.some.inj h
    rfl
  · cases h

theorem Edge.bad_of_toHop_none {edge : Edge} (h : edge.toHop = none) : edge.Bad := by
  unfold toHop at h
  unfold Bad
  split <;> simp_all

theorem Edge.bad_iff {edge : Edge} {hop : RouteHop} (h : edge.toHop = some hop) :
    edge.Bad ↔ hop.rate ≤ 0 := by
  unfold toHop at h
  unfold Bad
  split at h
  · rename_i hrate
    obtain rfl := Option.some.inj h
    rw [hrate]
  · cases h

/-! ## Collapsing -/

section Select
variable {edge hop : RouteHop} {selected done : List RouteHop}

theorem mem_select (h : hop ∈ select edge selected) : hop = edge ∨ hop ∈ selected := by
  induction selected with
  | nil => simpa [select] using h
  | cons current selected ih =>
    unfold select at h
    split at h
    · split at h
      · exact (List.mem_cons.mp h).imp_right (List.mem_cons_of_mem _)
      · exact Or.inr h
    · rcases List.mem_cons.mp h with rfl | h
      · exact Or.inr List.mem_cons_self
      · exact (ih h).imp_right (List.mem_cons_of_mem _)

/-- What `selected` holds once the hops `done` have gone through it: each hop
kept is the best of its pair, and every pair is covered. -/
structure Selected (done selected : List RouteHop) : Prop where
  mem : ∀ hop ∈ selected, hop ∈ done
  best : ∀ hop ∈ selected, ∀ other ∈ done,
    other.source = hop.source → other.target = hop.target →
      other.rate < hop.rate ∨ other.rate = hop.rate ∧ hop.lp ≤ other.lp
  cover : ∀ other ∈ done, ∃ hop ∈ selected,
    hop.source = other.source ∧ hop.target = other.target

/-- `select` against the selected hops of its pair: they are all replaced when
they are worse, and all kept when one is at least as good. -/
theorem select_eq (edge : RouteHop) (selected : List RouteHop)
    (huniq : selected.Pairwise fun a b => ¬ (a.source = b.source ∧ a.target = b.target)) :
    (∀ hop, hop ∈ select edge selected ↔
      (hop ∈ selected ∧ ¬ (hop.source = edge.source ∧ hop.target = edge.target ∧
        hop.rate < edge.rate)) ∨
      hop = edge ∧ ∀ current ∈ selected, current.source = edge.source →
        current.target = edge.target → current.rate < edge.rate) ∧
    (select edge selected).Pairwise
      fun a b => ¬ (a.source = b.source ∧ a.target = b.target) := by
  induction selected with
  | nil => simp [select]
  | cons current selected ih =>
    obtain ⟨hcur, hrest⟩ := List.pairwise_cons.mp huniq
    obtain ⟨hmem, hpair⟩ := ih hrest
    unfold select
    by_cases hsame : current.source = edge.source ∧ current.target = edge.target
    · have hother : ∀ hop ∈ selected, ¬ (hop.source = edge.source ∧ hop.target = edge.target) := by
        intro hop hhop h
        exact hcur hop hhop ⟨hsame.1.trans h.1.symm, hsame.2.trans h.2.symm⟩
      rw [if_pos hsame]
      -- at most one entry has the ends of `edge`: here it is the first
      by_cases hlt : current.rate < edge.rate
      · rw [if_pos hlt]
        constructor
        · intro hop
          simp only [List.mem_cons]
          constructor
          · rintro (rfl | h)
            · refine Or.inr ⟨rfl, ?_⟩
              rintro c (rfl | hc) hs ht
              · exact hlt
              · exact absurd ⟨hs, ht⟩ (hother c hc)
            · exact Or.inl ⟨Or.inr h, fun hc => hother hop h ⟨hc.1, hc.2.1⟩⟩
          · rintro (⟨rfl | h, hn⟩ | ⟨rfl, -⟩)
            · exact absurd ⟨hsame.1, hsame.2, hlt⟩ hn
            · exact Or.inr h
            · exact Or.inl rfl
        · refine List.pairwise_cons.mpr ⟨fun hop h hc => hother hop h ⟨hc.1.symm, hc.2.symm⟩, hrest⟩
      · rw [if_neg hlt]
        refine ⟨fun hop => ?_, huniq⟩
        constructor
        · intro h
          refine Or.inl ⟨h, fun hc => ?_⟩
          rcases List.mem_cons.mp h with rfl | h
          · exact hlt hc.2.2
          · exact hother hop h ⟨hc.1, hc.2.1⟩
        · rintro (⟨h, -⟩ | ⟨rfl, h⟩)
          · exact h
          · exact absurd (h current List.mem_cons_self hsame.1 hsame.2) hlt
    -- the first entry has other ends and stays
    · rw [if_neg hsame]
      constructor
      · intro hop
        simp only [List.mem_cons, hmem]
        constructor
        · rintro (rfl | ⟨h, hn⟩ | ⟨rfl, h⟩)
          · exact Or.inl ⟨Or.inl rfl, fun hc => hsame ⟨hc.1, hc.2.1⟩⟩
          · exact Or.inl ⟨Or.inr h, hn⟩
          · refine Or.inr ⟨rfl, ?_⟩
            rintro c (rfl | hc) hs ht
            · exact absurd ⟨hs, ht⟩ hsame
            · exact h c hc hs ht
        · rintro (⟨rfl | h, hn⟩ | ⟨rfl, h⟩)
          · exact Or.inl rfl
          · exact Or.inr (Or.inl ⟨h, hn⟩)
          · exact Or.inr (Or.inr ⟨rfl, fun c hc => h c (Or.inr hc)⟩)
      · refine List.pairwise_cons.mpr ⟨fun hop h => ?_, hpair⟩
        rcases mem_select h with rfl | h
        · exact hsame
        · exact hcur hop h

/-- The next hop of the sorted list goes through `select`. -/
theorem Selected.step (h : Selected done selected)
    (huniq : selected.Pairwise fun a b => ¬ (a.source = b.source ∧ a.target = b.target))
    (hle : ∀ d ∈ done, d.key ≤ edge.key) : Selected (done ++ [edge]) (select edge selected) := by
  have hmem := (select_eq edge selected huniq).1
  refine ⟨fun hop hhop => ?_, fun hop hhop other hother hs ht => ?_, fun other hother => ?_⟩
  · rcases mem_select hhop with rfl | hhop
    · exact List.mem_append_right _ List.mem_cons_self
    · exact List.mem_append_left _ (h.mem hop hhop)
  · rcases (hmem hop).mp hhop with ⟨hsel, hnot⟩ | ⟨rfl, hworse⟩
    · rcases List.mem_append.mp hother with hother | hother
      · exact h.best hop hsel other hother hs ht
      · obtain rfl := List.mem_singleton.mp hother
        rcases lt_trichotomy other.rate hop.rate with hlt | heq | hgt
        · exact Or.inl hlt
        · exact Or.inr ⟨heq, RouteHop.lp_le_of_key_le (hle hop (h.mem hop hsel)) hs.symm ht.symm⟩
        · exact absurd ⟨hs.symm, ht.symm, hgt⟩ hnot
    · rcases List.mem_append.mp hother with hother | hother
      · obtain ⟨c, hc, hcs, hct⟩ := h.cover other hother
        have hlt := hworse c hc (hcs.trans hs) (hct.trans ht)
        rcases h.best c hc other hother hcs.symm hct.symm with hb | ⟨hb, -⟩
        · exact Or.inl (hb.trans hlt)
        · exact Or.inl (hb.trans_lt hlt)
      · obtain rfl := List.mem_singleton.mp hother
        exact Or.inr ⟨rfl, le_rfl⟩
  · by_cases hpair : other.source = edge.source ∧ other.target = edge.target
    · rw [hpair.1, hpair.2]
      by_cases hkept : ∃ c ∈ selected, c.source = edge.source ∧ c.target = edge.target ∧
          ¬ c.rate < edge.rate
      · obtain ⟨c, hc, hcs, hct, hnot⟩ := hkept
        exact ⟨c, (hmem c).mpr (Or.inl ⟨hc, fun hx => hnot hx.2.2⟩), hcs, hct⟩
      · push Not at hkept
        exact ⟨edge, (hmem edge).mpr (Or.inr ⟨rfl, hkept⟩), rfl, rfl⟩
    · have hdone : other ∈ done := by
        rcases List.mem_append.mp hother with hother | hother
        · exact hother
        · obtain rfl := List.mem_singleton.mp hother
          exact absurd ⟨rfl, rfl⟩ hpair
      obtain ⟨c, hc, hcs, hct⟩ := h.cover other hdone
      refine ⟨c, (hmem c).mpr (Or.inl ⟨hc, fun hx => hpair ?_⟩), hcs, hct⟩
      exact ⟨hcs.symm.trans hx.1, hct.symm.trans hx.2.1⟩

theorem Selected.foldl {hops : List RouteHop} (h : Selected done selected)
    (huniq : selected.Pairwise fun a b => ¬ (a.source = b.source ∧ a.target = b.target))
    (hsorted : (done ++ hops).Pairwise fun a b => a.key ≤ b.key) :
    Selected (done ++ hops) (hops.foldl (fun s e => select e s) selected) := by
  induction hops generalizing done selected with
  | nil => simpa using h
  | cons edge hops ih =>
    have hle : ∀ d ∈ done, d.key ≤ edge.key := fun d hd =>
      (List.pairwise_append.mp hsorted).2.2 d hd edge List.mem_cons_self
    rw [List.append_cons] at hsorted ⊢
    exact ih (h.step huniq hle) (select_eq edge selected huniq).2 hsorted

end Select

theorem collapseFrom_ok {selected collapsed : List RouteHop} {edges : List Edge} :
    collapseFrom selected edges = .ok collapsed ↔
      (∀ edge ∈ edges, ¬ edge.Bad) ∧
        collapsed = (quotes edges).foldl (fun s e => select e s) selected := by
  induction edges generalizing selected with
  | nil =>
    simp only [collapseFrom, Except.ok.injEq, quotes]
    exact ⟨fun h => ⟨by simp, h.symm⟩, fun h => h.2.symm⟩
  | cons edge edges ih =>
    cases hop? : edge.toHop with
    | none =>
      simp [collapseFrom, hop?, Edge.bad_of_toHop_none hop?]
    | some hop =>
      have hbad := Edge.bad_iff hop?
      by_cases hpos : hop.rate ≤ 0
      · simp [collapseFrom, hop?, hpos, hbad]
      · have hcons : quotes (edge :: edges) = hop :: quotes edges := by simp [quotes, hop?]
        simp only [collapseFrom, hop?, hpos, if_false, ih, hcons, List.foldl_cons,
          List.forall_mem_cons, hbad, not_false_eq_true, true_and]

/-- Collapsing fails exactly on a rate that is not a positive number. -/
theorem collapsedEdges_error {edges : List Edge} :
    (∃ error, collapsedEdges edges = .error error) ↔ ∃ edge ∈ edges, edge.Bad := by
  have hperm := List.mergeSort_perm edges fun a b => decide (a.key ≤ b.key)
  constructor
  · rintro ⟨error, h⟩
    by_contra hgood
    push Not at hgood
    have hok : collapseFrom [] (edges.mergeSort fun a b => a.key ≤ b.key) = .ok _ :=
      collapseFrom_ok.mpr ⟨fun edge hedge => hgood edge (hperm.mem_iff.mp hedge), rfl⟩
    rw [collapsedEdges, hok] at h
    cases h
  · rintro ⟨edge, hedge, hbad⟩
    cases h : collapsedEdges edges with
    | error error => exact ⟨error, rfl⟩
    | ok collapsed =>
      exact absurd hbad ((collapseFrom_ok.mp h).1 edge (hperm.mem_iff.mpr hedge))

/-- The sorted edges quote in the order of their keys. -/
theorem quotes_sorted (edges : List Edge) :
    (quotes (edges.mergeSort fun a b => a.key ≤ b.key)).Pairwise fun a b => a.key ≤ b.key := by
  have hpw : (edges.mergeSort fun a b => decide (a.key ≤ b.key)).Pairwise
      fun a b => decide (a.key ≤ b.key) = true :=
    List.pairwise_mergeSort
      (fun a b c hab hbc => by simp only [decide_eq_true_eq] at *; exact hab.trans hbc)
      (fun a b => by simpa using le_total a.key b.key) edges
  refine List.Pairwise.filterMap _ (fun a a' hle b hb b' hb' => ?_) hpw
  rw [Edge.toHop_key hb, Edge.toHop_key hb']
  exact of_decide_eq_true hle

/-- Sorting puts the quotes of a pair in the order of their LP names, so that the
collapsed edges are what selecting from all quotes leaves. -/
theorem selected_collapsed {edges : List Edge} {collapsed : List RouteHop}
    (h : collapsedEdges edges = .ok collapsed) : Selected (quotes edges) collapsed := by
  have hperm := List.mergeSort_perm edges fun a b => decide (a.key ≤ b.key)
  have hquotes : ∀ hop, hop ∈ quotes (edges.mergeSort fun a b => a.key ≤ b.key) ↔
      hop ∈ quotes edges := fun hop => (hperm.filterMap _).mem_iff
  have hsel : Selected (quotes (edges.mergeSort fun a b => a.key ≤ b.key)) collapsed := by
    rw [(collapseFrom_ok.mp h).2]
    have hnone : Selected [] [] := ⟨by simp, by simp, by simp⟩
    exact hnone.foldl .nil (quotes_sorted edges)
  exact ⟨fun hop hhop => (hquotes hop).mp (hsel.mem hop hhop),
    fun hop hhop other hother => hsel.best hop hhop other ((hquotes other).mpr hother),
    fun other hother => hsel.cover other ((hquotes other).mpr hother)⟩

/-- A currency pair has one best quote. -/
theorem BestQuote.unique {edges : List Edge} {a b : RouteHop} (ha : BestQuote edges a)
    (hb : BestQuote edges b) (hs : a.source = b.source) (ht : a.target = b.target) : a = b := by
  obtain ⟨hrate, hlp⟩ : a.rate = b.rate ∧ a.lp = b.lp := by
    rcases ha.2 b hb.1 hs.symm ht.symm with hlt | ⟨heq, hle⟩
    · rcases hb.2 a ha.1 hs ht with hlt' | ⟨heq, -⟩
      · exact absurd (hlt.trans hlt') (lt_irrefl _)
      · exact absurd heq hlt.ne'
    · rcases hb.2 a ha.1 hs ht with hlt | ⟨-, hle'⟩
      · exact absurd heq hlt.ne'
      · exact ⟨heq.symm, le_antisymm hle hle'⟩
  cases a
  cases b
  simp_all

/-- **The collapsed edges are the best quotes**, one for each currency pair. -/
theorem mem_collapsed {edges : List Edge} {collapsed : List RouteHop}
    (h : collapsedEdges edges = .ok collapsed) (hop : RouteHop) :
    hop ∈ collapsed ↔ BestQuote edges hop := by
  have hsel := selected_collapsed h
  constructor
  · intro hhop
    exact ⟨hsel.mem hop hhop, hsel.best hop hhop⟩
  · intro hbest
    obtain ⟨c, hc, hs, ht⟩ := hsel.cover hop hbest.1
    obtain rfl := BestQuote.unique ⟨hsel.mem c hc, hsel.best c hc⟩ hbest hs ht
    exact hc

/-! ## Relaxation -/

section Relaxation
variable {ctx : Decimal.Context} {hops : List RouteHop} {best nextBest : Best}

theorem isBetter_iff (candidate current : Candidate) :
    isBetter candidate (some current) = true ↔
      (network ctx hops).rank candidate < (network ctx hops).rank current := by
  rw [← not_le, rank_le_iff]
  simp only [isBetter, Bool.or_eq_true, decide_eq_true_eq, Bool.and_eq_true, not_or, not_lt,
    not_and, not_le]
  change _ ↔ _ ∧ (_ → hopKey candidate.2 < hopKey current.2)
  constructor
  · rintro (h | ⟨h, hk⟩)
    · exact ⟨h.le, fun he => absurd he h.ne'⟩
    · exact ⟨h.ge, fun _ => hk⟩
  · rintro ⟨hle, hk⟩
    rcases hle.lt_or_eq with h | h
    · exact Or.inl h
    · exact Or.inr ⟨h.symm, hk h.symm⟩

/-- One edge offers its target a candidate and touches nothing else. -/
theorem relaxEdge_spec (ctx : Decimal.Context) (hops : List RouteHop) (best nextBest : Best)
    (edge : RouteHop) :
    (∀ v c, nextBest v = some c → ∃ c', relaxEdge ctx best nextBest edge v = some c' ∧
      (network ctx hops).rank c' ≤ (network ctx hops).rank c) ∧
    (∀ c, best edge.source = some c →
      ∃ c', relaxEdge ctx best nextBest edge edge.target = some c' ∧
        (network ctx hops).rank c' ≤
          (network ctx hops).rank ((network ctx hops).extend c edge)) ∧
    (∀ v c', relaxEdge ctx best nextBest edge v = some c' → nextBest v = some c' ∨
      edge.target = v ∧ ∃ c, best edge.source = some c ∧
        c' = (network ctx hops).extend c edge) := by
  unfold relaxEdge
  cases hsrc : best edge.source with
  | none =>
    exact ⟨fun v c h => ⟨c, h, le_rfl⟩, nofun, fun v c' h => Or.inl h⟩
  | some source =>
    dsimp only
    split
    · rename_i hbetter
      refine ⟨fun v c hc => ?_, fun c hc => ?_, fun v c' hc' => ?_⟩
      · by_cases hv : v = edge.target
        · subst hv
          rw [hc] at hbetter
          exact ⟨_, Function.update_self .., ((isBetter_iff _ _).mp hbetter).le⟩
        · exact ⟨c, by rw [Function.update_of_ne hv, hc], le_rfl⟩
      · obtain rfl := Option.some.inj hc
        exact ⟨_, Function.update_self .., le_rfl⟩
      · by_cases hv : v = edge.target
        · subst hv
          rw [Function.update_self] at hc'
          exact Or.inr ⟨rfl, source, rfl, (Option.some.inj hc').symm⟩
        · rw [Function.update_of_ne hv] at hc'
          exact Or.inl hc'
    · rename_i hbetter
      refine ⟨fun v c hc => ⟨c, hc, le_rfl⟩, fun c hc => ?_, fun v c' hc' => Or.inl hc'⟩
      obtain rfl := Option.some.inj hc
      cases hcur : nextBest edge.target with
      | none => exact absurd (by rw [hcur]; rfl) hbetter
      | some current =>
        rw [hcur] at hbetter
        exact ⟨current, rfl, not_lt.mp fun hlt => hbetter ((isBetter_iff _ _).mpr hlt)⟩

/-- What the edges still to come do to the table built so far. -/
theorem foldl_relaxEdge_spec (ctx : Decimal.Context) (hops : List RouteHop) (best : Best)
    (edges : List RouteHop) (nextBest : Best) :
    (∀ v c, nextBest v = some c →
      ∃ c', edges.foldl (relaxEdge ctx best) nextBest v = some c' ∧
        (network ctx hops).rank c' ≤ (network ctx hops).rank c) ∧
    (∀ edge ∈ edges, ∀ c, best edge.source = some c →
      ∃ c', edges.foldl (relaxEdge ctx best) nextBest edge.target = some c' ∧
        (network ctx hops).rank c' ≤
          (network ctx hops).rank ((network ctx hops).extend c edge)) ∧
    (∀ v c', edges.foldl (relaxEdge ctx best) nextBest v = some c' → nextBest v = some c' ∨
      ∃ edge ∈ edges, edge.target = v ∧ ∃ c, best edge.source = some c ∧
        c' = (network ctx hops).extend c edge) := by
  induction edges generalizing nextBest with
  | nil => exact ⟨fun v c h => ⟨c, h, le_rfl⟩, by simp, fun v c' h => Or.inl h⟩
  | cons edge edges ih =>
    obtain ⟨hkeep, hoffer, horigin⟩ := relaxEdge_spec ctx hops best nextBest edge
    obtain ⟨ihkeep, ihoffer, ihorigin⟩ := ih (relaxEdge ctx best nextBest edge)
    rw [List.foldl_cons]
    refine ⟨fun v c hc => ?_, fun e he c hc => ?_, fun v c' hc' => ?_⟩
    · obtain ⟨c₁, hc₁, hle₁⟩ := hkeep v c hc
      obtain ⟨c₂, hc₂, hle₂⟩ := ihkeep v c₁ hc₁
      exact ⟨c₂, hc₂, hle₂.trans hle₁⟩
    · rcases List.mem_cons.mp he with rfl | he
      · obtain ⟨c₁, hc₁, hle₁⟩ := hoffer c hc
        obtain ⟨c₂, hc₂, hle₂⟩ := ihkeep _ c₁ hc₁
        exact ⟨c₂, hc₂, hle₂.trans hle₁⟩
      · exact ihoffer e he c hc
    · rcases ihorigin v c' hc' with h | ⟨e, he, hv, hx⟩
      · rcases horigin v c' h with h | ⟨hv, hx⟩
        · exact Or.inl h
        · exact Or.inr ⟨edge, List.mem_cons_self, hv, hx⟩
      · exact Or.inr ⟨e, List.mem_cons_of_mem _ he, hv, hx⟩

/-- **`_relax` is one round of simultaneous relaxation.** -/
theorem relax_relaxed (ctx : Decimal.Context) (best : Best) (hops : List RouteHop) :
    (network ctx hops).Relaxed best (relax ctx best hops) := by
  obtain ⟨hkeep, hoffer, horigin⟩ := foldl_relaxEdge_spec ctx hops best hops best
  refine ⟨hkeep, fun e c he hc => hoffer e he c hc, fun v c' hc' => ?_⟩
  rcases horigin v c' hc' with h | ⟨e, he, hv, c, hc, heq⟩
  · exact Or.inl h
  · exact Or.inr ⟨e, c, he, hv, hc, heq⟩

/-- Stopping early, at a table that a round leaves as it is, is no different
from going on. -/
theorem rounds_spec (ctx : Decimal.Context) (hops : List RouteHop) (n : ℕ) (best : Best) :
    (network ctx hops).Rounds n best (rounds ctx hops n best) := by
  induction n generalizing best with
  | zero => exact .zero best
  | succ n ih =>
    have hr := relax_relaxed ctx best hops
    unfold rounds
    dsimp only
    split
    · rename_i hfix
      rw [hfix] at hr
      exact Nat.zero_add (n + 1) ▸ Rounds.pad (.zero best) hr (n + 1)
    · exact Nat.add_comm 1 n ▸ Rounds.trans (.succ (.zero best) hr) (ih _)

end Relaxation

end SettlementRouter
