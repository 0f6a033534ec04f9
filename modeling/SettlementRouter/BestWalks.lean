import Mathlib.Data.List.Chain
import Mathlib.Data.List.Lex
import Mathlib.Data.Prod.Lex
import Mathlib.Data.Fintype.Card
import Mathlib.Algebra.Order.Field.Basic
import Mathlib.Tactic.Linarith
import Mathlib.Tactic.Ring

/-! # Best walks by rounds of relaxation

A `Network` has arcs between nodes, each arc with a key, and a value carried
along a walk: a walk starts with the value `unit` and each arc turns the value
carried so far into the next one.  A *table* gives some nodes a candidate: a
value with the walk it came along.  Candidates are ranked by value, greatest
first, and between equal values by the sequence of the arcs' keys, least first
(`rank`).

`Relaxed b b'` says what one round of simultaneous relaxation does, whatever
code computes it: every entry of `b'` is an old entry or an old entry extended
by one arc, and none of these would have ranked better.  `Rounds n b b'` is `n`
such rounds.  The results are about the tables that rounds from the start table
reach.

* Without any arithmetic: entries are walks of at most `n` arcs with the value
  they carry (`Rounds.sound`), entries only improve (`Rounds.improves`), and a
  node met along an entry's walk has an entry at least as good as that part of
  the walk (`Rounds.prefix_entry`), and an entry's walk comes back to a node only
  with a greater value (`Rounds.gains`).
* When carrying is monotone, every walk of at most `n` arcs is matched in value
  (`Rounds.dominates`), and every walk at all by a table that one more round does
  not improve (`Relaxed.dominates`).
* When carrying multiplies by a positive gain and no closed walk reachable from
  the start gains, entries visit no node twice (`Rounds.simple`), one round per
  node suffices (`Rounds.maximal`, `Rounds.settled`), and an entry's walk has
  the least keys among the simple walks of its value (`Rounds.keys_least`).
* Conversely a table that one more round does not improve excludes such closed
  walks (`Relaxed.closed_le_one`).
-/

/-- Arcs between nodes, with a key on each arc and the value carried along. -/
structure Network (V ε R K : Type*) where
  arc : ε → Prop
  src : ε → V
  tgt : ε → V
  key : ε → K
  unit : R
  carry : R → ε → R

namespace Network

variable {V ε R K : Type*} (N : Network V ε R K)

/-- `p` is a walk along arcs from `u` to `v`. -/
def IsWalk : V → List ε → V → Prop
  | u, [], v => u = v
  | u, e :: p, v => N.arc e ∧ N.src e = u ∧ IsWalk (N.tgt e) p v

/-- The nodes a walk from `u` visits, in order. -/
def nodes (u : V) (p : List ε) : List V := u :: p.map N.tgt

/-- The value a walk carries to its end. -/
def value (p : List ε) : R := p.foldl N.carry N.unit

/-- The keys along a walk. -/
def keys (p : List ε) : List K := p.map N.key

/-- `p` is a cycle through `u`: a closed walk that visits no node twice. -/
def IsCycle (u : V) (p : List ε) : Prop := N.IsWalk u p u ∧ p ≠ [] ∧ (p.map N.tgt).Nodup

/-- The nodes a walk from `s` can reach. -/
def Reaches (s v : V) : Prop := ∃ p, N.IsWalk s p v

section Walks
variable {N} {u v w : V} {p q : List ε} {e : ε}

@[simp] theorem isWalk_nil : N.IsWalk u [] v ↔ u = v := Iff.rfl

@[simp] theorem isWalk_cons :
    N.IsWalk u (e :: p) v ↔ N.arc e ∧ N.src e = u ∧ N.IsWalk (N.tgt e) p v := Iff.rfl

theorem isWalk_append : N.IsWalk u (p ++ q) w ↔ ∃ v, N.IsWalk u p v ∧ N.IsWalk v q w := by
  induction p generalizing u with
  | nil => simp
  | cons e p ih => simp [ih, and_assoc]

theorem isWalk_concat :
    N.IsWalk u (p ++ [e]) w ↔ N.IsWalk u p (N.src e) ∧ N.arc e ∧ N.tgt e = w := by
  rw [isWalk_append]
  constructor
  · rintro ⟨v, hp, he, rfl, rfl⟩
    exact ⟨hp, he, rfl⟩
  · rintro ⟨hp, he, rfl⟩
    exact ⟨_, hp, he, rfl, rfl⟩

theorem IsWalk.end_unique (h : N.IsWalk u p v) (h' : N.IsWalk u p w) : v = w := by
  induction p generalizing u with
  | nil => exact h.symm.trans h'
  | cons e p ih => exact ih h.2.2 h'.2.2

theorem IsWalk.arc_of_mem (h : N.IsWalk u p v) (he : e ∈ p) : N.arc e := by
  induction p generalizing u with
  | nil => cases he
  | cons e' p ih =>
    rcases List.mem_cons.mp he with rfl | he
    · exact h.1
    · exact ih h.2.2 he

/-- A walk ends at the last node it visits. -/
theorem IsWalk.end_mem (h : N.IsWalk u p v) : v ∈ N.nodes u p := by
  induction p generalizing u with
  | nil => exact h ▸ List.mem_cons_self
  | cons e p ih => exact List.mem_cons_of_mem _ (ih h.2.2)

/-- A walk splits at every node it visits. -/
theorem IsWalk.split (h : N.IsWalk u p v) (hw : w ∈ N.nodes u p) :
    ∃ a b, p = a ++ b ∧ N.IsWalk u a w ∧ N.IsWalk w b v := by
  induction p generalizing u with
  | nil =>
    obtain rfl : w = u := by simpa [nodes] using hw
    exact ⟨[], [], rfl, rfl, h⟩
  | cons e p ih =>
    by_cases hwu : w = u
    · subst hwu
      exact ⟨[], e :: p, rfl, rfl, h⟩
    · have hw' : w ∈ N.nodes (N.tgt e) p := by simpa [nodes, hwu] using hw
      obtain ⟨a, b, rfl, ha, hb⟩ := ih h.2.2 hw'
      exact ⟨e :: a, b, rfl, ⟨h.1, h.2.1, ha⟩, hb⟩

/-- A walk starts where its first arc does. -/
theorem IsWalk.head (h : N.IsWalk u p v) (he : e ∈ p.head?) : N.src e = u := by
  cases p with
  | nil => cases he
  | cons e' p =>
    obtain rfl := Option.some.inj he
    exact h.2.1

/-- It ends where its last arc does. -/
theorem IsWalk.last (h : N.IsWalk u p v) (he : e ∈ p.getLast?) : N.tgt e = v := by
  rw [← List.dropLast_append_getLast? e he] at h
  exact (isWalk_concat.mp h).2.2

/-- Each arc of a walk starts where the one before it ends. -/
theorem IsWalk.isChain (h : N.IsWalk u p v) : p.IsChain fun e e' => N.tgt e = N.src e' := by
  induction p generalizing u with
  | nil => exact .nil
  | cons e p ih =>
    exact (ih h.2.2).cons fun e' he' => (h.2.2.head he').symm

theorem nodes_append (u : V) (p q : List ε) :
    N.nodes u (p ++ q) = N.nodes u p ++ q.map N.tgt := by simp [nodes]

/-- In a walk without repeated nodes, no shorter part already ends where the
walk ends. -/
theorem IsWalk.prefix_eq_of_nodup (h : N.IsWalk u (p ++ q) v) (hp : N.IsWalk u p v)
    (hnd : (N.nodes u (p ++ q)).Nodup) : q = [] := by
  by_contra hq
  rw [nodes_append] at hnd
  obtain ⟨x, hpx, hqx⟩ := isWalk_append.mp h
  obtain rfl := hpx.end_unique hp
  obtain ⟨q', e, rfl⟩ := List.eq_nil_or_concat q |>.resolve_left hq
  have hend : N.tgt e = x := by
    rw [List.concat_eq_append] at hqx
    exact (isWalk_concat.mp hqx).2.2
  exact (List.nodup_append.mp hnd).2.2 x hp.end_mem x (by simp [hend]) rfl

/-- A walk that visits a node twice contains a closed walk. -/
theorem IsWalk.exists_cycle (h : N.IsWalk u p v) (hnd : ¬ (N.nodes u p).Nodup) :
    ∃ a b c w, p = a ++ b ++ c ∧ b ≠ [] ∧
      N.IsWalk u a w ∧ N.IsWalk w b w ∧ N.IsWalk w c v := by
  induction p generalizing u with
  | nil => exact absurd (List.nodup_singleton u) hnd
  | cons e p ih =>
    by_cases hu : u ∈ N.nodes (N.tgt e) p
    · obtain ⟨a, b, rfl, ha, hb⟩ := h.2.2.split hu
      exact ⟨[], e :: a, b, u, rfl, List.cons_ne_nil _ _, rfl, ⟨h.1, h.2.1, ha⟩, hb⟩
    · have hnd' : ¬ (N.nodes (N.tgt e) p).Nodup := fun hn =>
        hnd (List.nodup_cons.mpr ⟨hu, hn⟩)
      obtain ⟨a, b, c, w, rfl, hb, ha, hbw, hc⟩ := ih h.2.2 hnd'
      exact ⟨e :: a, b, c, w, rfl, hb, ⟨h.1, h.2.1, ha⟩, hbw, hc⟩

/-- A walk without repeated nodes is shorter than the number of nodes. -/
theorem length_lt_card [Fintype V] (hnd : (N.nodes u p).Nodup) :
    p.length < Fintype.card V := by
  classical
  simpa [nodes, Nat.succ_le_iff] using hnd.length_le_card

/-- Where keys determine arcs, a prefix of the keys is a prefix of the walk. -/
theorem prefix_of_keys (hinj : ∀ e e', N.arc e → N.arc e' → N.key e = N.key e' → e = e')
    (hp : ∀ e ∈ p, N.arc e) (hq : ∀ e ∈ q, N.arc e) (h : N.keys p <+: N.keys q) : p <+: q := by
  induction p generalizing q with
  | nil => exact List.nil_prefix
  | cons e p ih =>
    cases q with
    | nil => exact absurd h (by simp [keys])
    | cons e' q =>
      obtain ⟨hk, hrest⟩ := List.cons_prefix_cons.mp h
      obtain rfl := hinj e e' (hp e List.mem_cons_self) (hq e' List.mem_cons_self) hk
      refine List.cons_prefix_cons.mpr ⟨rfl, ih ?_ ?_ hrest⟩
      · exact fun a ha => hp a (List.mem_cons_of_mem _ ha)
      · exact fun a ha => hq a (List.mem_cons_of_mem _ ha)

theorem value_concat (p : List ε) (e : ε) : N.value (p ++ [e]) = N.carry (N.value p) e := by
  simp [value]

/-- **Matched arc by arc.**  Where each arc of one network has an arc of another between
the same nodes that carries no less, so has each walk. -/
theorem IsWalk.matched {ε' K' : Type*} [Preorder R] {N' : Network V ε' R K'} {good : R → Prop}
    (hmatch : ∀ e, N.arc e → ∃ e', N'.arc e' ∧ N'.src e' = N.src e ∧ N'.tgt e' = N.tgt e ∧
      ∀ r r', good r → r ≤ r' → good (N.carry r e) ∧ N.carry r e ≤ N'.carry r' e')
    (hp : N.IsWalk u p v) :
    ∃ q, N'.IsWalk u q v ∧ ∀ r r', good r → r ≤ r' → p.foldl N.carry r ≤ q.foldl N'.carry r' := by
  induction p generalizing u with
  | nil => exact ⟨[], hp, fun r r' _ hle => hle⟩
  | cons e p ih =>
    obtain ⟨he, rfl, hrest⟩ := hp
    obtain ⟨q, hq, hle⟩ := ih hrest
    obtain ⟨e', he', hs, ht, hcarry⟩ := hmatch e he
    refine ⟨e' :: q, ⟨he', hs, ht ▸ hq⟩, fun r r' hr hr' => ?_⟩
    obtain ⟨hgood, hstep⟩ := hcarry r r' hr hr'
    exact hle _ _ hgood hstep

/-- **A bound that no arc exceeds bounds every walk.** -/
theorem IsWalk.value_le [Preorder R] {bound : V → R} {s : V}
    (hmono : ∀ e, N.arc e → Monotone fun r => N.carry r e) (hstart : N.unit ≤ bound s)
    (harc : ∀ e, N.arc e → N.carry (bound (N.src e)) e ≤ bound (N.tgt e))
    (h : N.IsWalk s p v) : N.value p ≤ bound v := by
  induction p using List.reverseRecOn generalizing v with
  | nil =>
    obtain rfl : s = v := h
    exact hstart
  | append_singleton p e ih =>
    obtain ⟨hp, he, rfl⟩ := isWalk_concat.mp h
    rw [value_concat]
    exact (hmono e he (ih hp)).trans (harc e he)

end Walks

section Keys
variable [LinearOrder K]

theorem lt_append_of_ne_nil {l x : List K} (hx : x ≠ []) : l < l ++ x := by
  induction l with
  | nil =>
    obtain ⟨y, x, rfl⟩ := List.exists_cons_of_ne_nil hx
    exact List.nil_lt_cons y x
  | cons y l ih => exact List.cons_lt_cons_iff.mpr (Or.inr ⟨rfl, ih⟩)

/-- Two lists that already differ keep their order whatever follows them. -/
theorem append_lt_append {l l' : List K} (h : l < l') (hp : ¬ l <+: l') (x y : List K) :
    l ++ x < l' ++ y := by
  induction l generalizing l' with
  | nil => exact absurd List.nil_prefix hp
  | cons a l ih =>
    cases l' with
    | nil => exact absurd h (List.not_lt_nil _)
    | cons a' l' =>
      rw [List.cons_append, List.cons_append]
      rcases List.cons_lt_cons_iff.mp h with hlt | ⟨rfl, hlt⟩
      · exact List.cons_lt_cons_iff.mpr (Or.inl hlt)
      · refine List.cons_lt_cons_iff.mpr (Or.inr ⟨rfl, ih hlt fun hpre => hp ?_⟩)
        exact List.cons_prefix_cons.mpr ⟨rfl, hpre⟩

end Keys

/-! ## Tables and rounds -/

/-- A value and the walk it was carried along. -/
abbrev Candidate (R ε : Type*) := R × List ε

section Rounds
variable [LinearOrder R] [LinearOrder K]

/-- Candidates in order of preference: greatest value first, then least keys. -/
def rank (c : Candidate R ε) : Rᵒᵈ ×ₗ List K := toLex (OrderDual.toDual c.1, N.keys c.2)

/-- A candidate carried along one more arc. -/
def extend (c : Candidate R ε) (e : ε) : Candidate R ε := (N.carry c.1 e, c.2 ++ [e])

/-- The table before the first round: only the start node has an entry. -/
def start [DecidableEq V] (s : V) : V → Option (Candidate R ε) :=
  fun v => if v = s then some (N.unit, []) else none

/-- **One round of simultaneous relaxation**, from the table `b` to `b'`. -/
structure Relaxed (b b' : V → Option (Candidate R ε)) : Prop where
  keeps : ∀ v c, b v = some c → ∃ c', b' v = some c' ∧ N.rank c' ≤ N.rank c
  offers : ∀ e c, N.arc e → b (N.src e) = some c →
    ∃ c', b' (N.tgt e) = some c' ∧ N.rank c' ≤ N.rank (N.extend c e)
  origin : ∀ v c', b' v = some c' → b v = some c' ∨
    ∃ e c, N.arc e ∧ N.tgt e = v ∧ b (N.src e) = some c ∧ c' = N.extend c e

/-- `n` rounds. -/
inductive Rounds : ℕ → (V → Option (Candidate R ε)) → (V → Option (Candidate R ε)) → Prop
  | zero (b) : Rounds 0 b b
  | succ {n b b' b''} : Rounds n b b' → N.Relaxed b' b'' → Rounds (n + 1) b b''

variable {N} {b b' b'' : V → Option (Candidate R ε)} {n : ℕ} {s u v : V}
  {p q : List ε} {r : R} {c : Candidate R ε}

theorem rank_le_iff {c d : Candidate R ε} :
    N.rank c ≤ N.rank d ↔ d.1 < c.1 ∨ d.1 = c.1 ∧ N.keys c.2 ≤ N.keys d.2 := by
  rw [rank, rank, Prod.Lex.toLex_le_toLex]
  simp only [OrderDual.toDual_lt_toDual, OrderDual.toDual_inj]
  constructor
  · rintro (h | ⟨h, hk⟩)
    · exact Or.inl h
    · exact Or.inr ⟨h.symm, hk⟩
  · rintro (h | ⟨h, hk⟩)
    · exact Or.inl h
    · exact Or.inr ⟨h.symm, hk⟩

theorem value_le_of_rank_le {c d : Candidate R ε} (h : N.rank c ≤ N.rank d) : d.1 ≤ c.1 := by
  rcases rank_le_iff.mp h with h | ⟨h, -⟩
  · exact h.le
  · exact h.le

/-- Rounds from a table that a round leaves as it is stay there. -/
theorem Rounds.pad (h : N.Rounds n b b') (hfix : N.Relaxed b' b') (m : ℕ) :
    N.Rounds (n + m) b b' := by
  induction m with
  | zero => exact h
  | succ m ih => exact .succ ih hfix

theorem Rounds.trans {m : ℕ} (h : N.Rounds n b b') (h' : N.Rounds m b' b'') :
    N.Rounds (n + m) b b'' := by
  induction h' with
  | zero => exact h
  | succ _ hr ih => exact .succ (ih h) hr

/-- Entries only improve. -/
theorem Rounds.improves (h : N.Rounds n b b') (hb : b v = some c) :
    ∃ c', b' v = some c' ∧ N.rank c' ≤ N.rank c := by
  induction h with
  | zero => exact ⟨c, hb, le_rfl⟩
  | succ _ hr ih =>
    obtain ⟨c', hc', hle⟩ := ih hb
    obtain ⟨c'', hc'', hle'⟩ := hr.keeps v c' hc'
    exact ⟨c'', hc'', hle'.trans hle⟩

variable [DecidableEq V]

/-- Entries are walks from the start, with the value they carry. -/
theorem Rounds.sound (h : N.Rounds n (N.start s) b) (hb : b v = some (r, p)) :
    N.IsWalk s p v ∧ r = N.value p ∧ p.length ≤ n := by
  generalize hs : N.start s = b₀ at h
  induction h generalizing v r p with
  | zero =>
    subst hs
    unfold start at hb
    split at hb
    · cases hb
      exact ⟨Eq.symm ‹_›, rfl, le_rfl⟩
    · cases hb
  | succ _ hr ih =>
    rcases hr.origin v (r, p) hb with hold | ⟨e, ⟨r', p'⟩, he, rfl, hsrc, heq⟩
    · obtain ⟨hw, hv, hl⟩ := ih hold hs
      exact ⟨hw, hv, hl.trans (Nat.le_succ _)⟩
    · obtain ⟨hw, rfl, hl⟩ := ih hsrc hs
      cases heq
      exact ⟨isWalk_concat.mpr ⟨hw, he, rfl⟩, (value_concat p' e).symm, by simpa using hl⟩

/-- The start node keeps an entry. -/
theorem Rounds.start_entry (h : N.Rounds n (N.start s) b) : ∃ c, b s = some c := by
  obtain ⟨c, hc, -⟩ := h.improves (v := s) (c := (N.unit, [])) (by simp [start])
  exact ⟨c, hc⟩

/-- A node met along an entry's walk has an entry at least as good as the part
of the walk that led to it. -/
theorem Rounds.prefix_entry (h : N.Rounds n (N.start s) b) (hb : b v = some (r, p ++ q))
    (hp : N.IsWalk s p u) : ∃ c, b u = some c ∧ N.rank c ≤ N.rank (N.value p, p) := by
  generalize hs : N.start s = b₀ at h
  induction h generalizing v r q with
  | zero =>
    subst hs
    unfold start at hb
    split at hb
    · obtain ⟨-, hpq⟩ := Prod.mk.inj (Option.some.inj hb)
      obtain ⟨rfl, rfl⟩ := List.append_eq_nil_iff.mp hpq.symm
      obtain rfl : s = u := hp
      exact ⟨(N.unit, []), by simp [start], le_rfl⟩
    · cases hb
  | @succ n b₀ b₁ b₂ hrounds hr ih =>
    have keep : (∃ c, b₁ u = some c ∧ N.rank c ≤ N.rank (N.value p, p)) →
        ∃ c, b₂ u = some c ∧ N.rank c ≤ N.rank (N.value p, p) := by
      rintro ⟨c, hc, hle⟩
      obtain ⟨c', hc', hle'⟩ := hr.keeps u c hc
      exact ⟨c', hc', hle'.trans hle⟩
    rcases hr.origin v _ hb with hold | ⟨e, ⟨r', p'⟩, he, rfl, hsrc, heq⟩
    · exact keep (ih hold hs)
    · obtain ⟨rfl, hpq⟩ := Prod.mk.inj heq
      rcases List.eq_nil_or_concat q with rfl | ⟨q', e', rfl⟩
      · -- the part is the whole walk, and the new entry is that walk itself
        rw [List.append_nil] at hpq
        subst hpq
        rw [List.append_nil] at hb
        have hw : N.IsWalk s (p' ++ [e]) (N.tgt e) := by
          have := (Rounds.sound (hs ▸ hrounds) hsrc).1
          exact isWalk_concat.mpr ⟨this, he, rfl⟩
        obtain rfl := hw.end_unique hp
        have hval := (Rounds.sound (.succ (hs ▸ hrounds) hr) hb).2.1
        exact ⟨_, hb, by rw [hval]⟩
      · rw [List.concat_eq_append, ← List.append_assoc] at hpq
        obtain ⟨rfl, -⟩ := List.append_inj' hpq rfl
        exact keep (ih hsrc hs)

/-- **Every walk of at most `n` arcs is matched in value** after `n` rounds, when
a better value stays better along each arc. -/
theorem Rounds.dominates (hmono : ∀ e, N.arc e → Monotone fun r => N.carry r e)
    (h : N.Rounds n (N.start s) b) (hw : N.IsWalk s p v) (hl : p.length ≤ n) :
    ∃ c, b v = some c ∧ N.value p ≤ c.1 := by
  have hnil {m : ℕ} {b : V → Option (Candidate R ε)} (h : N.Rounds m (N.start s) b) :
      ∃ c, b s = some c ∧ N.value [] ≤ c.1 := by
    obtain ⟨c, hc, hle⟩ := h.improves (v := s) (c := (N.unit, [])) (by simp [start])
    exact ⟨c, hc, value_le_of_rank_le hle⟩
  generalize hs : N.start s = b₀ at h
  induction h generalizing v p with
  | zero =>
    subst hs
    obtain rfl := List.length_eq_zero_iff.mp (Nat.le_zero.mp hl)
    obtain rfl : s = v := hw
    exact hnil (.zero _)
  | succ hrounds hr ih =>
    rcases List.eq_nil_or_concat p with rfl | ⟨p', e, rfl⟩
    · obtain rfl : s = v := hw
      exact hnil (hs ▸ Rounds.succ hrounds hr)
    · rw [List.concat_eq_append] at hw hl ⊢
      obtain ⟨hp', he, rfl⟩ := isWalk_concat.mp hw
      obtain ⟨c, hc, hle⟩ := ih hp' (by simpa using hl) hs
      obtain ⟨c', hc', hrank⟩ := hr.offers e c he hc
      refine ⟨c', hc', ?_⟩
      rw [value_concat]
      exact (hmono e he hle).trans (value_le_of_rank_le hrank)

/-- **Where a walk came back it gained**: an entry's walk goes round a closed walk
only if that carried a greater value.  Otherwise the node's own entry would rank
better, in value or by its keys. -/
theorem Rounds.gains (h : N.Rounds n (N.start s) b) {a : List ε}
    (hb : b v = some (r, a ++ p ++ q)) (ha : N.IsWalk s a u) (hp : N.IsWalk u p u)
    (hne : p ≠ []) : N.value a < N.value (a ++ p) := by
  generalize hs : N.start s = b₀ at h
  induction h generalizing v r q with
  | zero =>
    subst hs
    unfold start at hb
    split at hb
    · obtain ⟨-, heq⟩ := Prod.mk.inj (Option.some.inj hb)
      simp [hne] at heq
    · cases hb
  | succ hrounds hr ih =>
    rcases hr.origin v _ hb with hold | ⟨e, ⟨r', p'⟩, he, rfl, hsrc, heq⟩
    · exact ih hold hs
    · obtain ⟨rfl, hpq⟩ := Prod.mk.inj heq
      rcases List.eq_nil_or_concat q with rfl | ⟨q', e', rfl⟩
      · -- the walk just came back: its candidate replaced the entry it left
        rw [List.append_nil] at hpq hb
        have hwalk := (Rounds.sound (.succ (hs ▸ hrounds) hr) hb).1
        obtain rfl := hwalk.end_unique (isWalk_append.mpr ⟨u, ha, hp⟩)
        have hvalue := (Rounds.sound (.succ (hs ▸ hrounds) hr) hb).2.1
        obtain ⟨p'', rfl⟩ : ∃ p'', p' = a ++ p'' := by
          obtain ⟨p'', e'', rfl⟩ := (List.eq_nil_or_concat p).resolve_left hne
          rw [List.concat_eq_append, ← List.append_assoc] at hpq
          exact ⟨p'', (List.append_inj' hpq rfl).1.symm⟩
        obtain ⟨c, hc, hle⟩ := Rounds.prefix_entry (hs ▸ hrounds) hsrc ha
        obtain ⟨c', hc', hle'⟩ := hr.keeps _ c hc
        obtain rfl := Option.some.inj (hb.symm.trans hc')
        have hrank := hle'.trans hle
        rw [hvalue] at hrank
        refine (rank_le_iff.mp hrank).resolve_right ?_
        rintro ⟨-, hkeys⟩
        refine not_lt.mpr hkeys ?_
        rw [keys, keys, List.map_append]
        exact lt_append_of_ne_nil (by simpa using hne)
      · rw [List.concat_eq_append, ← List.append_assoc] at hpq
        obtain ⟨rfl, -⟩ := List.append_inj' hpq rfl
        exact ih hsrc hs

/-- **A table that a round does not improve matches every walk**, however long. -/
theorem Relaxed.dominates (hmono : ∀ e, N.arc e → Monotone fun r => N.carry r e)
    (h : N.Rounds n (N.start s) b) (hr : N.Relaxed b b')
    (hfix : ∀ v c', b' v = some c' → ∃ c, b v = some c ∧ c'.1 ≤ c.1) (hw : N.IsWalk s p v) :
    ∃ c, b v = some c ∧ N.value p ≤ c.1 := by
  induction p using List.reverseRecOn generalizing v with
  | nil => exact h.dominates hmono hw (Nat.zero_le n)
  | append_singleton p e ih =>
    obtain ⟨hp, he, rfl⟩ := isWalk_concat.mp hw
    obtain ⟨c, hc, hle⟩ := ih hp
    obtain ⟨c', hc', hrank⟩ := hr.offers e c he hc
    obtain ⟨d, hd, hle'⟩ := hfix _ c' hc'
    refine ⟨d, hd, ?_⟩
    rw [value_concat]
    exact (hmono e he hle).trans ((value_le_of_rank_le hrank).trans hle')

end Rounds

/-! ## Walks that multiply gains -/

section Exact

/-- The product of the gains along a walk. -/
def product [Monoid R] (gain : ε → R) (p : List ε) : R := (p.map gain).prod

theorem product_append [Monoid R] (gain : ε → R) (p q : List ε) :
    product gain (p ++ q) = product gain p * product gain q := by simp [product]

theorem product_concat [Monoid R] (gain : ε → R) (p : List ε) (e : ε) :
    product gain (p ++ [e]) = product gain p * gain e := by simp [product]

variable [Field R] [LinearOrder R] [IsStrictOrderedRing R]

/-- The value carried along a walk is the exact product of positive gains. -/
structure Multiplies (gain : ε → R) : Prop where
  unit_eq : N.unit = 1
  carry_eq : ∀ r e, N.carry r e = r * gain e
  gain_pos : ∀ e, N.arc e → 0 < gain e

/-- No closed walk that the start can reach multiplies to more than one. -/
def NoGain (gain : ε → R) (s : V) : Prop :=
  ∀ u p, N.Reaches s u → N.IsWalk u p u → product gain p ≤ 1

variable {N} {gain : ε → R} {b b' : V → Option (Candidate R ε)} {n : ℕ} {s u v : V}
  {p q : List ε} {r : R}

omit [IsStrictOrderedRing R] in
theorem Multiplies.value_eq (hN : N.Multiplies gain) (p : List ε) :
    N.value p = product gain p := by
  induction p using List.reverseRecOn with
  | nil => simp [value, product, hN.unit_eq]
  | append_singleton p e ih => rw [value_concat, ih, hN.carry_eq, product_concat]

theorem Multiplies.product_pos (hN : N.Multiplies gain) (h : N.IsWalk u p v) :
    0 < product gain p := by
  induction p generalizing u with
  | nil => exact one_pos
  | cons e p ih =>
    rw [product, List.map_cons, List.prod_cons]
    exact mul_pos (hN.gain_pos e h.1) (ih h.2.2)

theorem Multiplies.monotone (hN : N.Multiplies gain) (e : ε) (he : N.arc e) :
    Monotone fun r => N.carry r e := by
  intro r r' h
  simp only [hN.carry_eq]
  exact mul_le_mul_of_nonneg_right h (hN.gain_pos e he).le

/-- Without gaining closed walks, leaving closed walks out loses nothing. -/
theorem NoGain.exists_nodup (hN : N.Multiplies gain) (hs : N.NoGain gain s)
    (h : N.IsWalk s p v) :
    ∃ q, N.IsWalk s q v ∧ (N.nodes s q).Nodup ∧ product gain p ≤ product gain q := by
  induction hlen : p.length using Nat.strong_induction_on generalizing p with
  | _ m ih =>
    by_cases hnd : (N.nodes s p).Nodup
    · exact ⟨p, h, hnd, le_rfl⟩
    · obtain ⟨x, y, z, w, rfl, hy, hx, hyw, hz⟩ := h.exists_cycle hnd
      have hshort : (x ++ z).length < m := by
        have := List.length_pos_iff.mpr hy
        simp only [List.length_append] at hlen ⊢
        omega
      obtain ⟨q, hq, hqnd, hle⟩ := ih _ hshort (isWalk_append.mpr ⟨w, hx, hz⟩) rfl
      refine ⟨q, hq, hqnd, le_trans ?_ hle⟩
      have hone : product gain y ≤ 1 := hs w y ⟨x, hx⟩ hyw
      have hpos : 0 < product gain x * product gain z :=
        mul_pos (hN.product_pos hx) (hN.product_pos hz)
      calc product gain (x ++ y ++ z)
          = product gain x * product gain z * product gain y := by
            rw [product_append, product_append]; ring
        _ ≤ product gain x * product gain z * 1 := mul_le_mul_of_nonneg_left hone hpos.le
        _ = product gain (x ++ z) := by rw [mul_one, product_append]

/-- A closed walk that gains goes through a cycle that gains. -/
theorem Multiplies.exists_cycle (hN : N.Multiplies gain) (hu : N.Reaches s u)
    (h : N.IsWalk u p u) (hgain : 1 < product gain p) :
    ∃ w q, N.Reaches s w ∧ N.IsCycle w q ∧ 1 < product gain q := by
  induction hlen : p.length using Nat.strong_induction_on generalizing u p with
  | _ m ih =>
    by_cases hnd : (p.map N.tgt).Nodup
    · refine ⟨u, p, hu, ⟨h, ?_, hnd⟩, hgain⟩
      rintro rfl
      exact lt_irrefl _ hgain
    · cases p with
      | nil => exact absurd List.nodup_nil hnd
      | cons e p =>
        obtain ⟨he, hsrc, hp⟩ := h
        obtain ⟨a, b, c, w, rfl, hb, ha, hbw, hc⟩ := hp.exists_cycle hnd
        simp only [List.length_cons, List.length_append] at hlen
        have hbpos := List.length_pos_iff.mpr hb
        obtain ⟨x, hx⟩ := hu
        have hew : N.IsWalk u (e :: a) w := ⟨he, hsrc, ha⟩
        by_cases hbgain : 1 < product gain b
        · exact ih b.length (by omega) ⟨x ++ (e :: a), isWalk_append.mpr ⟨u, hx, hew⟩⟩
            hbw hbgain rfl
        · -- leaving out the part that does not gain leaves a closed walk that does
          refine ih (e :: a ++ c).length ?_ ⟨x, hx⟩ (isWalk_append.mpr ⟨w, hew, hc⟩) ?_ rfl
          · simp only [List.length_cons, List.length_append]
            omega
          · have hpos := mul_pos (hN.product_pos hew) (hN.product_pos hc)
            calc 1 < product gain (e :: (a ++ b ++ c)) := hgain
              _ = product gain (e :: a) * product gain c * product gain b := by
                rw [← List.cons_append, ← List.cons_append, product_append, product_append]
                ring
              _ ≤ product gain (e :: a) * product gain c :=
                mul_le_of_le_one_right hpos.le (not_lt.mp hbgain)
              _ = product gain (e :: a ++ c) := (product_append gain _ _).symm

variable [DecidableEq V] [LinearOrder K]

/-- **Entries visit no node twice.**  Were the new arc to come back to a node of
the walk, that node's own entry would rank better: no smaller in value, and
with a proper prefix of the keys. -/
theorem Rounds.simple (hN : N.Multiplies gain) (hs : N.NoGain gain s)
    (h : N.Rounds n (N.start s) b) (hb : b v = some (r, p)) : (N.nodes s p).Nodup := by
  generalize hst : N.start s = b₀ at h
  induction h generalizing v r p with
  | zero =>
    subst hst
    obtain ⟨-, -, hl⟩ := Rounds.sound (.zero _) hb
    obtain rfl := List.length_eq_zero_iff.mp (Nat.le_zero.mp hl)
    exact List.nodup_singleton s
  | succ hrounds hr ih =>
    rcases hr.origin v _ hb with hold | ⟨e, ⟨r', p'⟩, he, rfl, hsrc, heq⟩
    · exact ih hold hst
    · obtain ⟨-, rfl⟩ := Prod.mk.inj heq
      have hnd := ih hsrc hst
      rw [nodes_append, List.map_singleton]
      refine List.nodup_append.mpr ⟨hnd, List.nodup_singleton _, ?_⟩
      rintro x hx y hy rfl
      obtain rfl := List.mem_singleton.mp hy
      have hp' := (Rounds.sound (hst ▸ hrounds) hsrc).1
      obtain ⟨x, z, rfl, hx, hz⟩ := hp'.split hx
      obtain ⟨c, hc, hrank⟩ := Rounds.prefix_entry (hst ▸ hrounds) hsrc hx
      obtain ⟨c', hc', hrank'⟩ := hr.keeps _ c hc
      obtain rfl : c' = (r, x ++ z ++ [e]) := Option.some.inj (hc'.symm.trans hb)
      have hval := (Rounds.sound (.succ (hst ▸ hrounds) hr) hb).2.1
      have hclosed : N.IsWalk (N.tgt e) (z ++ [e]) (N.tgt e) :=
        isWalk_concat.mpr ⟨hz, he, rfl⟩
      have hone := hs _ _ ⟨x, hx⟩ hclosed
      have hle : r ≤ N.value x := by
        rw [hval, hN.value_eq, hN.value_eq, List.append_assoc, product_append]
        exact mul_le_of_le_one_right (hN.product_pos hx).le hone
      rcases rank_le_iff.mp (hrank'.trans hrank) with hlt | ⟨-, hkeys⟩
      · exact absurd hlt (not_lt.mpr hle)
      · refine absurd hkeys (not_le.mpr ?_)
        simp only [keys, List.append_assoc, List.map_append]
        exact lt_append_of_ne_nil (by simp)

/-- **One round per node suffices**: every walk from the start is matched. -/
theorem Rounds.maximal [Fintype V] (hN : N.Multiplies gain) (hs : N.NoGain gain s)
    (hn : Fintype.card V ≤ n + 1) (h : N.Rounds n (N.start s) b) (hw : N.IsWalk s p v) :
    ∃ c, b v = some c ∧ product gain p ≤ c.1 := by
  obtain ⟨q, hq, hnd, hle⟩ := hs.exists_nodup hN hw
  have hlen : q.length ≤ n := by
    have := length_lt_card hnd
    omega
  obtain ⟨c, hc, hval⟩ := h.dominates hN.monotone hq hlen
  exact ⟨c, hc, hle.trans (hN.value_eq q ▸ hval)⟩

/-- A further round finds no new node and no better value. -/
theorem Rounds.settled [Fintype V] (hN : N.Multiplies gain) (hs : N.NoGain gain s)
    (hn : Fintype.card V ≤ n + 1) (h : N.Rounds n (N.start s) b) (hr : N.Relaxed b b')
    {c' : Candidate R ε} (hb : b' v = some c') : ∃ c, b v = some c ∧ c'.1 ≤ c.1 := by
  obtain ⟨r, p⟩ := c'
  obtain ⟨hw, rfl, -⟩ := Rounds.sound (.succ h hr) hb
  obtain ⟨c, hc, hle⟩ := h.maximal hN hs hn hw
  exact ⟨c, hc, by rwa [hN.value_eq]⟩

/-- An entry ranks at least as well as any simple walk of maximal value. The
walk is followed arc by arc: each prefix of it is maximal too, and the entry
found for the prefix either has the same keys or differs from it before its
end, so that the arc added last cannot reverse their order. -/
theorem Rounds.rank_le (hN : N.Multiplies gain)
    (hinj : ∀ e e', N.arc e → N.arc e' → N.key e = N.key e' → e = e')
    (h : N.Rounds n (N.start s) b) (hq : N.IsWalk s q v) (hl : q.length ≤ n)
    (hnd : (N.nodes s q).Nodup)
    (hmax : ∀ p, N.IsWalk s p v → product gain p ≤ product gain q) :
    ∃ c, b v = some c ∧ N.rank c ≤ N.rank (N.value q, q) := by
  have hnil {m : ℕ} {b : V → Option (Candidate R ε)} (h : N.Rounds m (N.start s) b) :
      ∃ c, b s = some c ∧ N.rank c ≤ N.rank (N.value [], []) :=
    h.improves (v := s) (c := (N.unit, [])) (by simp [start])
  generalize hst : N.start s = b₀ at h
  induction h generalizing v q with
  | zero =>
    subst hst
    obtain rfl := List.length_eq_zero_iff.mp (Nat.le_zero.mp hl)
    obtain rfl : s = v := hq
    exact hnil (.zero _)
  | succ hrounds hr ih =>
    rcases List.eq_nil_or_concat q with rfl | ⟨q', e, rfl⟩
    · obtain rfl : s = v := hq
      exact hnil (hst ▸ Rounds.succ hrounds hr)
    rw [List.concat_eq_append] at hq hl hnd hmax ⊢
    obtain ⟨hq', he, rfl⟩ := isWalk_concat.mp hq
    rw [nodes_append] at hnd
    have hpos := hN.gain_pos e he
    have hmax' : ∀ p, N.IsWalk s p (N.src e) → product gain p ≤ product gain q' := by
      intro p hp
      have := hmax (p ++ [e]) (isWalk_concat.mpr ⟨hp, he, rfl⟩)
      rw [product_concat, product_concat] at this
      exact le_of_mul_le_mul_right this hpos
    -- a part of a walk of greatest product has the greatest product, and ranks by its keys
    obtain ⟨⟨r, p⟩, hp, hrank⟩ := ih hq' (by simpa using hl) hnd.of_append_left hmax' hst
    obtain ⟨hpw, rfl, -⟩ := Rounds.sound (hst ▸ hrounds) hp
    obtain ⟨hval, hkeys⟩ : N.value q' = N.value p ∧ N.keys p ≤ N.keys q' := by
      rcases rank_le_iff.mp hrank with hlt | hkeys
      · rw [hN.value_eq, hN.value_eq] at hlt
        exact absurd hlt (not_lt.mpr (hmax' p hpw))
      · exact hkeys
    obtain ⟨c, hc, hoffer⟩ := hr.offers e _ he hp
    refine ⟨c, hc, hoffer.trans (rank_le_iff.mpr (Or.inr ⟨?_, ?_⟩))⟩
    · simp only [extend, value_concat, hval]
    · simp only [extend, keys, List.map_append]
      rcases hkeys.lt_or_eq with hlt | heq
      · refine (append_lt_append hlt (fun hpre => ?_) _ _).le
        -- keys determine arcs, so `p` would be a part of `q'` ending at the same node
        have hpq : p <+: q' := prefix_of_keys hinj (fun a ha => hpw.arc_of_mem ha)
          (fun a ha => hq'.arc_of_mem ha) hpre
        obtain ⟨z, rfl⟩ := hpq
        obtain rfl := hq'.prefix_eq_of_nodup hpw hnd.of_append_left
        rw [List.append_nil] at hlt
        exact lt_irrefl _ hlt
      · exact (congrArg (· ++ [e].map N.key) heq).le

/-- **The tie-break.**  After one round per node, an entry's keys are the least
among the simple walks of maximal value. -/
theorem Rounds.keys_least [Fintype V] (hN : N.Multiplies gain)
    (hinj : ∀ e e', N.arc e → N.arc e' → N.key e = N.key e' → e = e')
    (hn : Fintype.card V ≤ n + 1) (h : N.Rounds n (N.start s) b) (hb : b v = some (r, p))
    (hq : N.IsWalk s q v) (hnd : (N.nodes s q).Nodup)
    (hmax : ∀ p, N.IsWalk s p v → product gain p ≤ product gain q) :
    N.keys p ≤ N.keys q := by
  have hlen : q.length ≤ n := by
    have := length_lt_card hnd
    omega
  obtain ⟨c, hc, hrank⟩ := h.rank_le hN hinj hq hlen hnd hmax
  obtain rfl : c = (r, p) := Option.some.inj (hc.symm.trans hb)
  obtain ⟨hw, rfl, -⟩ := h.sound hb
  rcases rank_le_iff.mp hrank with hlt | ⟨-, hkeys⟩
  · rw [hN.value_eq, hN.value_eq] at hlt
    exact absurd hlt (not_lt.mpr (hmax p hw))
  · exact hkeys

/-- **A table that a round does not improve excludes gaining closed walks**: its
values grow along every arc by at least the gain, so going round a closed walk
multiplies to at most one. -/
theorem Relaxed.closed_le_one (hN : N.Multiplies gain) (h : N.Rounds n (N.start s) b)
    (hr : N.Relaxed b b')
    (hfix : ∀ v c', b' v = some c' → ∃ c, b v = some c ∧ c'.1 ≤ c.1) : N.NoGain gain s := by
  have along : ∀ {u v p c}, N.IsWalk u p v → b u = some c →
      ∃ d, b v = some d ∧ c.1 * product gain p ≤ d.1 := by
    intro u v p c hp hc
    induction p generalizing u c with
    | nil =>
      obtain rfl : u = v := hp
      exact ⟨c, hc, by simp [product]⟩
    | cons e p ih =>
      obtain ⟨he, rfl, hrest⟩ := hp
      obtain ⟨c', hc', hrank⟩ := hr.offers e c he hc
      obtain ⟨d, hd, hle⟩ := hfix _ c' hc'
      obtain ⟨d', hd', hle'⟩ := ih hrest hd
      refine ⟨d', hd', le_trans ?_ hle'⟩
      have hstep : c.1 * gain e ≤ d.1 := by
        rw [← hN.carry_eq]
        exact (value_le_of_rank_le hrank).trans hle
      calc c.1 * product gain (e :: p) = c.1 * gain e * product gain p := by
            simp [product, mul_assoc]
        _ ≤ d.1 * product gain p :=
            mul_le_mul_of_nonneg_right hstep (hN.product_pos hrest).le
  rintro u p ⟨q, hq⟩ hp
  obtain ⟨c₀, hc₀⟩ := h.start_entry
  obtain ⟨⟨r, w⟩, hc, -⟩ := along hq hc₀
  obtain ⟨hw, rfl, -⟩ := h.sound hc
  obtain ⟨d, hd, hle⟩ := along hp hc
  obtain rfl : d = _ := Option.some.inj (hd.symm.trans hc)
  have hpos : 0 < N.value w := hN.value_eq w ▸ hN.product_pos hw
  exact (mul_le_iff_le_one_right hpos).mp hle

end Exact

end Network
