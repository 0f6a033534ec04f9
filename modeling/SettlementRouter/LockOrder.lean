import Mathlib.Logic.Relation
import Mathlib.Logic.Function.Basic
import Mathlib.Order.Basic

/-! # Locks taken in order

Transactions take locks one after the other and hold them until they end.  A request
waits while another transaction holds a conflicting lock; a request that skips what
is locked never waits.

Whatever a waiting transaction holds ranks below what it waits for, if its requests
are `Ordered`: each is for a lock it already has, or ranks above all it holds.  Then
ranks grow along a chain of waiting transactions, and there is no cycle
(`Disciplined.acyclic`).  A transaction that waits for nothing may hold anything, so
what was taken by skipping is under no restriction.
-/

/-- How a resource is locked. -/
inductive LockMode where
  | share
  | exclusive
  deriving DecidableEq

namespace LockMode

/-- Two transactions cannot hold these locks on one resource. -/
def Conflicts : LockMode → LockMode → Prop
  | share, share => False
  | _, _ => True

/-- Who holds the first may take the second. -/
def Covers (held asked : LockMode) : Prop := asked = share ∨ held = exclusive

theorem conflicts_comm {m m' : LockMode} : m.Conflicts m' ↔ m'.Conflicts m := by
  cases m <;> cases m' <;> exact Iff.rfl

theorem Covers.conflicts {held asked other : LockMode} (h : held.Covers asked)
    (hconflict : asked.Conflicts other) : held.Conflicts other := by
  obtain rfl | rfl := h
  · cases held <;> cases other <;> trivial
  · trivial

end LockMode

/-- A row that a query locks if it can: what it locks for it, and what it goes on to
update. -/
structure LockRow (ρ : Type*) where
  locks : List ρ
  updates : List ρ

/-- A lock that a transaction is going to ask for. -/
inductive LockRequest (ρ : Type*) where
  | acquire (resource : ρ) (mode : LockMode)
  /-- Lock up to `limit` more of these rows, skipping those that are locked; the
  updates are those of the rows it has. -/
  | skipLocked (rows : List (LockRow ρ)) (limit : ℕ) (updates : List ρ)

/-- A transaction that has not ended: the locks it holds, and those it is still to ask for. -/
structure OpenTransaction (ρ : Type*) where
  held : List (ρ × LockMode)
  remaining : List (LockRequest ρ)

/-- The open transactions. -/
abbrev Locks (τ ρ : Type*) := τ → Option (OpenTransaction ρ)

namespace Locks

variable {τ ρ : Type*} (s : Locks τ ρ)

/-- No other transaction holds a conflicting lock. -/
def Free (t : τ) (r : ρ) (m : LockMode) : Prop :=
  ∀ u a m', u ≠ t → s u = some a → (r, m') ∈ a.held → ¬ m.Conflicts m'

/-- One request of transaction `t` goes on. -/
inductive Grants (t : τ) : OpenTransaction ρ → OpenTransaction ρ → Prop
  | acquires {held r m rest} : s.Free t r m →
      Grants t ⟨held, .acquire r m :: rest⟩ ⟨(r, m) :: held, rest⟩
  | takes {held row rows limit updates rest} : (∀ r ∈ row.locks, s.Free t r .exclusive) →
      Grants t ⟨held, .skipLocked (row :: rows) (limit + 1) updates :: rest⟩
        ⟨row.locks.map (·, .exclusive) ++ held,
          .skipLocked rows limit (updates ++ row.updates) :: rest⟩
  /-- Another transaction has locked the row, or a part of it; what this one has locked
  of it by then stays locked. -/
  | skips {held row rows limit updates rest taken} : taken <+: row.locks →
      (∀ r ∈ taken, s.Free t r .exclusive) →
      Grants t ⟨held, .skipLocked (row :: rows) (limit + 1) updates :: rest⟩
        ⟨taken.map (·, .exclusive) ++ held, .skipLocked rows (limit + 1) updates :: rest⟩
  | selected {held rows limit updates rest} : rows = [] ∨ limit = 0 →
      Grants t ⟨held, .skipLocked rows limit updates :: rest⟩
        ⟨held, updates.map (.acquire · .exclusive) ++ rest⟩

/-- The next request of transaction `t` is for this resource. -/
def Asks (t : τ) (r : ρ) : Prop :=
  ∃ a m rest, s t = some a ∧ a.remaining = .acquire r m :: rest

/-- Transaction `t` waits for a lock that `u` holds. -/
def Waits (t u : τ) : Prop :=
  t ≠ u ∧ ∃ a b r m m' rest, s t = some a ∧ a.remaining = .acquire r m :: rest ∧
    s u = some b ∧ (r, m') ∈ b.held ∧ m.Conflicts m'

variable {s} {t : τ}

/-- What a transaction does depends on the others only. -/
theorem Grants.of_others {s' : Locks τ ρ} {a b : OpenTransaction ρ} (h : s.Grants t a b)
    (hothers : ∀ u, u ≠ t → s' u = s u) : s'.Grants t a b := by
  have hfree {r m} (hr : s.Free t r m) : s'.Free t r m := by
    intro u c m' hne hu
    rw [hothers u hne] at hu
    exact hr u c m' hne hu
  cases h with
  | acquires hr => exact .acquires (hfree hr)
  | takes hrow => exact .takes fun r hr => hfree (hrow r hr)
  | skips hprefix htaken => exact .skips hprefix fun r hr => hfree (htaken r hr)
  | selected hend => exact .selected hend

/-- What a request locks, if of the rows it may skip those are chosen. -/
def Takes (chosen : LockRow ρ → Bool) : LockRequest ρ → ρ × LockMode → Prop
  | .acquire r m, lock => lock = (r, m)
  | .skipLocked rows limit _, lock =>
    lock.2 = .exclusive ∧ ∃ row ∈ (rows.filter chosen).take limit, lock.1 ∈ row.locks

/-- The transaction can be granted its requests one after the other, and then holds
these locks. -/
def Completes (s : Locks τ ρ) (t : τ) (a : OpenTransaction ρ) (P : ρ × LockMode → Prop) : Prop :=
  ∃ held, Relation.ReflTransGen (s.Grants t) a ⟨held, []⟩ ∧ ∀ lock, P lock → lock ∈ held

theorem Grants.completes {a b : OpenTransaction ρ} {P : ρ × LockMode → Prop}
    (h : s.Grants t a b) (hb : s.Completes t b P) : s.Completes t a P := by
  obtain ⟨held, hrun, hheld⟩ := hb
  exact ⟨held, .head h hrun, hheld⟩

section Completes
variable (hfree : ∀ r m, s.Free t r m) {chosen : LockRow ρ → Bool} {P : ρ × LockMode → Prop}
  {held : List (ρ × LockMode)} {rest : List (LockRequest ρ)}
include hfree

theorem completes_updates
    (hrest : ∀ held, (∀ lock, P lock → lock ∈ held ∨ ∃ request ∈ rest, Takes chosen request lock) →
      s.Completes t ⟨held, rest⟩ P)
    (updates : List ρ)
    (h : ∀ lock, P lock → lock ∈ held ∨ ∃ request ∈ rest, Takes chosen request lock) :
    s.Completes t ⟨held, updates.map (.acquire · .exclusive) ++ rest⟩ P := by
  induction updates generalizing held with
  | nil => exact hrest held h
  | cons r updates ih =>
    refine (Grants.acquires (hfree r .exclusive)).completes (ih fun lock hlock => ?_)
    exact (h lock hlock).imp_left (List.mem_cons_of_mem _)

theorem completes_skipLocked
    (hrest : ∀ held, (∀ lock, P lock → lock ∈ held ∨ ∃ request ∈ rest, Takes chosen request lock) →
      s.Completes t ⟨held, rest⟩ P)
    (rows : List (LockRow ρ)) (limit : ℕ) (updates : List ρ)
    (h : ∀ lock, P lock → lock ∈ held ∨ Takes chosen (.skipLocked rows limit updates) lock ∨
      ∃ request ∈ rest, Takes chosen request lock) :
    s.Completes t ⟨held, .skipLocked rows limit updates :: rest⟩ P := by
  induction rows generalizing held limit updates with
  | nil =>
    refine (Grants.selected (.inl rfl)).completes
      (completes_updates hfree hrest updates fun lock hlock => ?_)
    simpa [Takes] using h lock hlock
  | cons row rows ih =>
    cases limit with
    | zero =>
      refine (Grants.selected (.inr rfl)).completes
        (completes_updates hfree hrest updates fun lock hlock => ?_)
      simpa [Takes] using h lock hlock
    | succ limit =>
      by_cases hrow : chosen row
      · refine (Grants.takes fun r _ => hfree r .exclusive).completes
          (ih limit _ fun lock hlock => ?_)
        obtain hheld | ⟨hmode, row', hrow', hr⟩ | hlater := h lock hlock
        · exact .inl (List.mem_append_right _ hheld)
        · rw [List.filter_cons_of_pos hrow, List.take_succ_cons] at hrow'
          obtain rfl | hrow' := List.mem_cons.mp hrow'
          · exact .inl (List.mem_append_left _ (List.mem_map.mpr ⟨_, hr, Prod.ext rfl hmode.symm⟩))
          · exact .inr (.inl ⟨hmode, row', hrow', hr⟩)
        · exact .inr (.inr hlater)
      · refine (Grants.skips (List.nil_prefix) fun r hr => by cases hr).completes
          (ih (limit + 1) updates fun lock hlock => ?_)
        simpa only [Takes, List.filter_cons_of_neg hrow, List.map_nil, List.nil_append]
          using h lock hlock

/-- **Where nothing is locked, all requests can be granted**, and of the rows that may be
skipped those that are chosen. -/
theorem completes (chosen : LockRow ρ → Bool) (requests : List (LockRequest ρ))
    (h : ∀ lock, P lock → lock ∈ held ∨ ∃ request ∈ requests, Takes chosen request lock) :
    s.Completes t ⟨held, requests⟩ P := by
  induction requests generalizing held with
  | nil => exact ⟨held, .refl, fun lock hlock => (h lock hlock).resolve_right (by simp)⟩
  | cons request rest ih =>
    simp only [List.mem_cons, exists_eq_or_imp] at h
    cases request with
    | acquire r m =>
      refine (Grants.acquires (hfree r m)).completes (ih fun lock hlock => ?_)
      obtain hheld | hlock | hlater := h lock hlock
      · exact .inl (List.mem_cons_of_mem _ hheld)
      · exact .inl (List.mem_cons.mpr (.inl hlock))
      · exact .inr hlater
    | skipLocked rows limit updates =>
      exact completes_skipLocked hfree (fun _ => ih) rows limit updates h

end Completes

end Locks

/-! ## Ordered requests -/

section Order
variable {τ ρ α : Type*} [Preorder α] (rank : ρ → α)

/-- Each request is for a lock that is held, or ranks above all that are held; only the
last skips. -/
def Ordered : List (ρ × LockMode) → List (LockRequest ρ) → Prop
  | _, [] => True
  | held, .acquire r m :: rest =>
    ((∃ m', (r, m') ∈ held ∧ m'.Covers m) ∨ ∀ lock ∈ held, rank lock.1 < rank r) ∧
      Ordered ((r, m) :: held) rest
  | held, .skipLocked rows _ updates :: rest =>
    rest = [] ∧ (∀ r ∈ updates, (r, .exclusive) ∈ held) ∧ ∀ row ∈ rows, row.updates ⊆ row.locks

/-- No two transactions hold conflicting locks, and all requests are ordered. -/
structure Disciplined (s : Locks τ ρ) : Prop where
  exclusion : ∀ t u a b r m m', t ≠ u → s t = some a → s u = some b → (r, m) ∈ a.held →
    (r, m') ∈ b.held → ¬ m.Conflicts m'
  ordered : ∀ t a, s t = some a → Ordered rank a.held a.remaining

variable {rank} {s : Locks τ ρ} {held : List (ρ × LockMode)} {t u v : τ}

/-- The request is for what is held exclusively. -/
def LockRequest.Repeats (held : List (ρ × LockMode)) : LockRequest ρ → Prop
  | .acquire r _ => (r, .exclusive) ∈ held
  | .skipLocked _ _ _ => False

/-- Requests for what is held. -/
theorem ordered_of_repeats {requests : List (LockRequest ρ)}
    (h : ∀ request ∈ requests, request.Repeats held) : Ordered rank held requests := by
  induction requests generalizing held with
  | nil => trivial
  | cons request requests ih =>
    cases request with
    | acquire r m =>
      refine ⟨.inl ⟨.exclusive, h _ List.mem_cons_self, .inr rfl⟩, ih fun request hmem => ?_⟩
      have hrepeats := h request (List.mem_cons_of_mem _ hmem)
      cases request with
      | acquire r' m' => exact List.mem_cons_of_mem _ hrepeats
      | skipLocked rows limit updates => exact hrepeats
    | skipLocked rows limit updates => exact (h _ List.mem_cons_self).elim

/-- **Ascending requests**, for rows `f i` that rank as their `i` do. -/
theorem ordered_ascending {ι : Type*} [PartialOrder ι] {f : ι → ρ}
    (hf : ∀ i j, i < j → rank (f i) < rank (f j)) {is : List ι} (hsorted : is.Pairwise (· ≤ ·))
    {rest : List (LockRequest ρ)}
    (hbelow : ∀ lock ∈ held, ∀ i ∈ is, rank lock.1 < rank (f i) ∨ lock = (f i, .exclusive))
    (hrest : ∀ held', (∀ lock, lock ∈ held' ↔ (∃ i ∈ is, lock = (f i, .exclusive)) ∨ lock ∈ held) →
      Ordered rank held' rest) :
    Ordered rank held (is.map (fun i => .acquire (f i) .exclusive) ++ rest) := by
  induction is generalizing held with
  | nil => exact hrest held fun lock => by simp
  | cons i is ih =>
    obtain ⟨hhead, htail⟩ := List.pairwise_cons.mp hsorted
    refine ⟨?_, ih htail ?_ fun held' hheld' => hrest held' fun lock => ?_⟩
    · by_cases hheld : (f i, .exclusive) ∈ held
      · exact .inl ⟨.exclusive, hheld, .inr rfl⟩
      · refine .inr fun lock hlock => ?_
        refine (hbelow lock hlock i List.mem_cons_self).resolve_right fun heq => ?_
        rw [heq] at hlock
        exact hheld hlock
    · intro lock hlock j hj
      obtain rfl | hlock := List.mem_cons.mp hlock
      · obtain hlt | rfl := (hhead j hj).lt_or_eq
        · exact .inl (hf i j hlt)
        · exact .inr rfl
      · exact hbelow lock hlock j (List.mem_cons_of_mem _ hj)
    · rw [hheld' lock]
      simp only [List.mem_cons, exists_eq_or_imp]
      exact or_left_comm.trans or_assoc.symm

theorem Locks.Waits.asks (h : s.Waits t u) : ∃ r, s.Asks t r := by
  obtain ⟨-, a, -, r, m, -, rest, ha, hnext, -⟩ := h
  exact ⟨r, a, m, rest, ha, hnext⟩

namespace Disciplined

/-- A transaction that is waited for holds the resource, and one that waits holds only
what ranks below the resource it asks for. -/
theorem rank_lt_of_waits (h : Disciplined rank s) (htu : s.Waits t u) (huv : s.Waits u v)
    {r r' : ρ} (hr : s.Asks t r) (hr' : s.Asks u r') : rank r < rank r' := by
  obtain ⟨-, a, b, r₁, m₁, m, rest, ha, hnext, hb, hheld, -⟩ := htu
  obtain ⟨hne, b', c, r₂, m₂, m', rest', hb', hnext', hc, hheld', hconflict⟩ := huv
  obtain ⟨a', m₁', rest₁, ha', hasks⟩ := hr
  obtain ⟨b'', m₂', rest₂, hb'', hasks'⟩ := hr'
  obtain rfl := Option.some.inj (ha.symm.trans ha')
  obtain rfl := Option.some.inj (hb.symm.trans hb')
  obtain rfl := Option.some.inj (hb.symm.trans hb'')
  rw [hnext] at hasks
  rw [hnext'] at hasks'
  cases hasks
  cases hasks'
  have hordered := h.ordered u b hb
  rw [hnext'] at hordered
  obtain ⟨m₀, hm₀, hcovers⟩ | habove := hordered.1
  · -- a lock that `u` has, `v` cannot have
    exact absurd (hcovers.conflicts hconflict) (h.exclusion u v b c _ m₀ m' hne hb hc hm₀ hheld')
  · exact habove _ hheld

/-- **Ranks grow along a chain of waiting transactions.** -/
theorem rank_lt_of_chain (h : Disciplined rank s) (hchain : Relation.TransGen s.Waits t u) :
    ∀ {v r r'}, s.Waits u v → s.Asks t r → s.Asks u r' → rank r < rank r' := by
  induction hchain with
  | single htu => exact fun huv hr hr' => h.rank_lt_of_waits htu huv hr hr'
  | tail _ hwu ih =>
    intro v r r' huv hr hr'
    obtain ⟨r₁, hr₁⟩ := hwu.asks
    exact (ih hwu hr hr₁).trans (h.rank_lt_of_waits hwu huv hr₁ hr')

/-- **No cycle of waiting transactions.** -/
theorem acyclic (h : Disciplined rank s) : ¬ ∃ t, Relation.TransGen s.Waits t t := by
  rintro ⟨t, hcycle⟩
  obtain ⟨u, hfirst, -⟩ := Relation.TransGen.head'_iff.mp hcycle
  obtain ⟨r, hr⟩ := hfirst.asks
  exact lt_irrefl _ (h.rank_lt_of_chain hcycle hfirst hr hr)

/-! The steps. -/

section Steps
variable {a b : OpenTransaction ρ}

/-- What a transaction holds is free for it. -/
theorem free_of_held (h : Disciplined rank s) (ha : s t = some a) {r : ρ} {m : LockMode}
    (hheld : (r, m) ∈ a.held) : s.Free t r m := by
  intro u b m' hne hb hheld'
  exact h.exclusion t u a b r m m' hne.symm ha hb hheld hheld'

variable [DecidableEq τ]

/-- A transaction changes, and takes only locks that are free. -/
theorem update (h : Disciplined rank s) (hordered : Ordered rank b.held b.remaining)
    (hheld : ∀ r m, (r, m) ∈ b.held → s.Free t r m) :
    Disciplined rank (Function.update s t (some b)) where
  exclusion := by
    intro u v c d r m m' hne hu hv hc hd
    by_cases hut : u = t
    · subst hut
      rw [Function.update_self] at hu
      rw [Function.update_of_ne hne.symm] at hv
      cases hu
      exact hheld r m hc v d m' hne.symm hv hd
    · rw [Function.update_of_ne hut] at hu
      by_cases hvt : v = t
      · subst hvt
        rw [Function.update_self] at hv
        cases hv
        rw [LockMode.conflicts_comm]
        exact hheld r m' hd u c m hut hu hc
      · rw [Function.update_of_ne hvt] at hv
        exact h.exclusion u v c d r m m' hne hu hv hc hd
  ordered := by
    intro u c hu
    by_cases hut : u = t
    · subst hut
      rw [Function.update_self] at hu
      cases hu
      exact hordered
    · rw [Function.update_of_ne hut] at hu
      exact h.ordered u c hu

/-- **A granted request keeps the discipline.** -/
theorem grant (h : Disciplined rank s) (ha : s t = some a) (hgrants : s.Grants t a b) :
    Disciplined rank (Function.update s t (some b)) := by
  have hordered := h.ordered t a ha
  have hfree {r m} := h.free_of_held ha (r := r) (m := m)
  cases hgrants with
  | acquires hr =>
    refine h.update hordered.2 fun r' m' hmem => ?_
    obtain heq | hmem := List.mem_cons.mp hmem
    · cases heq
      exact hr
    · exact hfree hmem
  | @takes held row rows limit updates rest hrow =>
    obtain ⟨rfl, hupdates, hrows⟩ := hordered
    -- the updates of the row repeat locks that it has now
    refine h.update ⟨rfl, fun r hr => ?_, fun row' hrow' => ?_⟩ fun r' m' hmem => ?_
    · obtain hr | hr := List.mem_append.mp hr
      · exact List.mem_append_right _ (hupdates r hr)
      · refine List.mem_append_left _ (List.mem_map.mpr ⟨r, ?_, rfl⟩)
        exact hrows row List.mem_cons_self hr
    · exact hrows row' (List.mem_cons_of_mem _ hrow')
    · obtain hmem | hmem := List.mem_append.mp hmem
      · obtain ⟨r, hr, heq⟩ := List.mem_map.mp hmem
        cases heq
        exact hrow _ hr
      · exact hfree hmem
  | @skips held row rows limit updates rest taken hprefix htaken =>
    obtain ⟨rfl, hupdates, hrows⟩ := hordered
    refine h.update ⟨rfl, fun r hr => ?_, fun row' hrow' => ?_⟩ fun r' m' hmem => ?_
    · exact List.mem_append_right _ (hupdates r hr)
    · exact hrows row' (List.mem_cons_of_mem _ hrow')
    · obtain hmem | hmem := List.mem_append.mp hmem
      · obtain ⟨r, hr, heq⟩ := List.mem_map.mp hmem
        cases heq
        exact htaken _ hr
      · exact hfree hmem
  | @selected held rows limit updates rest =>
    obtain ⟨rfl, hupdates, -⟩ := hordered
    -- what is left are the updates, which wait for nothing
    refine h.update ?_ fun r' m' hmem => hfree hmem
    rw [List.append_nil]
    refine ordered_of_repeats fun request hmem => ?_
    obtain ⟨r, hr, rfl⟩ := List.mem_map.mp hmem
    exact hupdates r hr

/-- A transaction opens with nothing held. -/
theorem begins (h : Disciplined rank s) {requests : List (LockRequest ρ)}
    (hordered : Ordered rank [] requests) :
    Disciplined rank (Function.update s t (some ⟨[], requests⟩)) :=
  h.update hordered fun _ _ hmem => by cases hmem

end Steps

/-- Transactions that end release their locks. -/
theorem release (h : Disciplined rank s) {s' : Locks τ ρ}
    (hreleased : ∀ t, s' t = s t ∨ s' t = none) : Disciplined rank s' := by
  have hopen {t a} (ht : s' t = some a) : s t = some a := by
    obtain hsame | hnone := hreleased t
    · rw [← hsame]
      exact ht
    · rw [hnone] at ht
      cases ht
  exact {
    exclusion := fun t u a b r m m' hne ht hu =>
      h.exclusion t u a b r m m' hne (hopen ht) (hopen hu)
    ordered := fun t a ht => h.ordered t a (hopen ht) }

end Disciplined

end Order
