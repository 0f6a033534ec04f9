import Mathlib.Data.List.AList
import Mathlib.Algebra.BigOperators.Group.Finset.Piecewise
import Mathlib.Algebra.Order.BigOperators.Group.Finset
import Mathlib.Algebra.Order.BigOperators.Group.List
import Mathlib.Tactic.Abel

/-! # Totals over a keyed table

A database table with a primary key is an `AList`: a list of rows no two of
which share a key.  `AList.total w` sums a weight over its rows.  What a write
does to a total is one equation: the new row's weight replaces the old row's
(`total_insert_of_lookup`), or is added when the key is new
(`total_insert_of_lookup_none`).  A ledger that keeps running balances beside a
table of the amounts behind them is verified with these two.
-/
namespace AList

variable {κ : Type*} {ρ : κ → Type*} [DecidableEq κ]
variable {M : Type*} [AddCommMonoid M]

/-- The sum of the weight `w` over all rows. -/
def total (w : ∀ k, ρ k → M) (t : AList ρ) : M :=
  (t.entries.map fun e => w e.1 e.2).sum

omit [DecidableEq κ] in
@[simp] theorem total_empty (w : ∀ k, ρ k → M) : (∅ : AList ρ).total w = 0 := rfl

/-- Taking a row out of a list of rows takes its weight out of the sum. -/
private theorem sum_kerase (w : ∀ k, ρ k → M) {k : κ} {r : ρ k} {l : List (Sigma ρ)}
    (h : l.dlookup k = some r) :
    ((l.kerase k).map fun e => w e.1 e.2).sum + w k r = (l.map fun e => w e.1 e.2).sum := by
  induction l with
  | nil => cases h
  | cons e l ih =>
    obtain ⟨k', r'⟩ := e
    by_cases hk : k = k'
    · subst hk
      obtain rfl : r' = r := by simpa using h
      rw [List.kerase_cons_eq (s := ⟨k, r'⟩) rfl, List.map_cons, List.sum_cons, add_comm]
    · rw [List.dlookup_cons_ne _ _ hk] at h
      rw [List.kerase_cons_ne (s := ⟨k', r'⟩) hk, List.map_cons, List.map_cons,
        List.sum_cons, List.sum_cons, add_assoc, ih h]

/-- Inserting under a new key adds the row's weight. -/
theorem total_insert_of_lookup_none (w : ∀ k, ρ k → M) {t : AList ρ} {k : κ} (r : ρ k)
    (h : t.lookup k = none) : (t.insert k r).total w = t.total w + w k r := by
  have hk : k ∉ t := lookup_eq_none.mp h
  rw [total, entries_insert_of_notMem hk, List.map_cons, List.sum_cons, add_comm]
  rfl

/-- Writing under an existing key puts the new row's weight in the old one's
place. -/
theorem total_insert_of_lookup (w : ∀ k, ρ k → M) {t : AList ρ} {k : κ} {old : ρ k}
    (r : ρ k) (h : t.lookup k = some old) :
    (t.insert k r).total w + w k old = t.total w + w k r := by
  have hsum := sum_kerase w (l := t.entries) h
  rw [total, entries_insert, List.map_cons, List.sum_cons, total, ← hsum]
  abel

/-- A total depends only on the weights of the rows in the table. -/
theorem total_congr {w w' : ∀ k, ρ k → M} {t : AList ρ}
    (h : ∀ k r, t.lookup k = some r → w k r = w' k r) : t.total w = t.total w' := by
  refine congrArg List.sum (List.map_congr_left fun e he => h e.1 e.2 ?_)
  exact mem_lookup_iff.mpr he

omit [DecidableEq κ] in
theorem total_add (w w' : ∀ k, ρ k → M) (t : AList ρ) :
    t.total (fun k r => w k r + w' k r) = t.total w + t.total w' :=
  List.sum_map_add

/-- Summing the shares of every group gives the whole total, when each row
belongs to exactly one of the groups. -/
theorem sum_total_groups {γ : Type*} [DecidableEq γ] (group : ∀ k, ρ k → γ)
    (w : ∀ k, ρ k → M) {t : AList ρ} {groups : List γ} (hnd : groups.Nodup)
    (hmem : ∀ k r, t.lookup k = some r → group k r ∈ groups) :
    (groups.map fun g => t.total fun k r => if group k r = g then w k r else 0).sum =
      t.total w := by
  have hmem' : ∀ e ∈ t.entries, group e.1 e.2 ∈ groups :=
    fun e he => hmem e.1 e.2 (mem_lookup_iff.mpr he)
  unfold total
  generalize t.entries = l at hmem'
  induction l with
  | nil => simp
  | cons e l ih =>
    simp only [List.map_cons, List.sum_cons, List.sum_map_add]
    rw [ih fun e' he' => hmem' e' (List.mem_cons_of_mem _ he')]
    congr 1
    have hg := hmem' e List.mem_cons_self
    rw [← List.sum_toFinset _ hnd, Finset.sum_ite_eq, if_pos (List.mem_toFinset.mpr hg)]

section Ordered
variable [PartialOrder M] [IsOrderedAddMonoid M]

theorem total_nonneg {w : ∀ k, ρ k → M} {t : AList ρ}
    (hw : ∀ k r, t.lookup k = some r → 0 ≤ w k r) : 0 ≤ t.total w := by
  refine List.sum_nonneg fun x hx => ?_
  obtain ⟨e, he, rfl⟩ := List.mem_map.mp hx
  exact hw e.1 e.2 (mem_lookup_iff.mpr he)

/-- With no negative weights, one row weighs at most the total. -/
theorem le_total {w : ∀ k, ρ k → M} {t : AList ρ}
    (hw : ∀ k r, t.lookup k = some r → 0 ≤ w k r) {k : κ} {r : ρ k}
    (h : t.lookup k = some r) : w k r ≤ t.total w := by
  refine List.single_le_sum (fun x hx => ?_) _ (List.mem_map.mpr ⟨⟨k, r⟩, ?_, rfl⟩)
  · obtain ⟨e, he, rfl⟩ := List.mem_map.mp hx
    exact hw e.1 e.2 (mem_lookup_iff.mpr he)
  · exact mem_lookup_iff.mp h

theorem total_le_total {w w' : ∀ k, ρ k → M} {t : AList ρ}
    (hw : ∀ k r, t.lookup k = some r → w k r ≤ w' k r) : t.total w ≤ t.total w' :=
  List.sum_le_sum fun e he => hw e.1 e.2 (mem_lookup_iff.mpr he)

/-- The weight of the row under the key, zero without one. -/
def weight (w : ∀ k, ρ k → M) (t : AList ρ) (k : κ) : M :=
  (t.lookup k).elim 0 (w k)

omit [PartialOrder M] [IsOrderedAddMonoid M] in
theorem total_eq_sum (w : ∀ k, ρ k → M) (t : AList ρ) :
    t.total w = ∑ k ∈ t.keys.toFinset, t.weight w k := by
  rw [List.sum_toFinset _ t.keys_nodup, keys, List.keys, List.map_map]
  refine congrArg List.sum (List.map_congr_left fun e he => ?_)
  have hlookup : t.lookup e.1 = some e.2 := mem_lookup_iff.mpr he
  rw [Function.comp_apply, weight, hlookup, Option.elim_some]

/-- A sum over any keys is at most the total, where no key counts more than its row. -/
theorem sum_le_total {w : ∀ k, ρ k → M} {t : AList ρ} {f : κ → M}
    (hw : ∀ k r, t.lookup k = some r → 0 ≤ w k r) (hf : ∀ k, f k ≤ t.weight w k)
    (chosen : Finset κ) : ∑ k ∈ chosen, f k ≤ t.total w := by
  have hnonneg : ∀ k, 0 ≤ t.weight w k := by
    intro k
    unfold weight
    cases hrow : t.lookup k with
    | none => exact le_rfl
    | some r => exact hw k r hrow
  have houtside : ∀ k ∈ chosen ∪ t.keys.toFinset, k ∉ t.keys.toFinset → t.weight w k = 0 := by
    intro k _ hk
    have hnone : t.lookup k = none :=
      lookup_eq_none.mpr fun hmem => hk (List.mem_toFinset.mpr (mem_keys.mp hmem))
    rw [weight, hnone, Option.elim_none]
  calc ∑ k ∈ chosen, f k
    _ ≤ ∑ k ∈ chosen, t.weight w k := Finset.sum_le_sum fun k _ => hf k
    _ ≤ ∑ k ∈ chosen ∪ t.keys.toFinset, t.weight w k :=
      Finset.sum_le_sum_of_subset_of_nonneg Finset.subset_union_left fun k _ _ => hnonneg k
    _ = ∑ k ∈ t.keys.toFinset, t.weight w k :=
      (Finset.sum_subset Finset.subset_union_right houtside).symm
    _ = t.total w := (total_eq_sum w t).symm

end Ordered

end AList
