import Mathlib.Algebra.BigOperators.Group.List.Basic
import Mathlib.Logic.Function.Basic
import Mathlib.Order.Lattice

/-! # Escrow

Owners have free funds.  A deposit takes an amount out of them and holds it until it is
paid out, or refunded to its owner; what is free or held is backed by what is in the
safe.  A book is entered one step of a deposit at a time, and an entry that is out of
order, or not covered, is refused.

Each entry moves the funds by what is written in it, whatever the book.  So the funds of
a book are sums over its history (`replay_free`), its deposits are told by the last
entries about them (`replay_ended`, `replay_held`, `replay_untouched`), and two histories
of the same entries make the same book, in whatever order they were entered
(`replay_perm`).
-/
namespace Escrow

variable {ι ο α : Type*}

/-- What has become of a deposit. -/
inductive Phase where
  | held
  | paid
  | refunded
  deriving DecidableEq

/-- Funds that an owner has put aside. -/
structure Deposit (ο α : Type*) where
  owner : ο
  amount : α
  phase : Phase
  deriving DecidableEq

/-- A deposit is now like this. -/
structure Entry (ι ο α : Type*) extends Deposit ο α where
  index : ι

/-- What each owner has, free and on hold, what backs it, and the deposits there are. -/
@[ext]
structure Book (ι ο α : Type*) where
  free : ο → α
  held : ο → α
  backing : α
  deposits : ι → Option (Deposit ο α)

/-! ## Entering -/

section Entering
variable [AddCommGroup α]

namespace Phase

/-- What the free funds of the owner gain. -/
def free : Phase → α → α
  | held, amount => -amount
  | paid, _ => 0
  | refunded, amount => amount

/-- What the held funds of the owner gain. -/
def onHold : Phase → α → α
  | held, amount => amount
  | paid, amount => -amount
  | refunded, amount => -amount

/-- What the safe gains. -/
def backing : Phase → α → α
  | held, _ => 0
  | paid, amount => -amount
  | refunded, _ => 0

end Phase

variable [DecidableEq ι] [DecidableEq ο]

namespace Book

/-- The book with one more entry. -/
def record (b : Book ι ο α) (e : Entry ι ο α) : Book ι ο α where
  free := Function.update b.free e.owner (b.free e.owner + e.phase.free e.amount)
  held := Function.update b.held e.owner (b.held e.owner + e.phase.onHold e.amount)
  backing := b.backing + e.phase.backing e.amount
  deposits := Function.update b.deposits e.index (some e.toDeposit)

variable [LinearOrder α]

/-- A deposit is new and covered, and ends once. -/
def Admits (b : Book ι ο α) (e : Entry ι ο α) : Prop :=
  if e.phase = .held then
    b.deposits e.index = none ∧ 0 < e.amount ∧ e.amount ≤ b.free e.owner
  else b.deposits e.index = some ⟨e.owner, e.amount, .held⟩

instance (b : Book ι ο α) (e : Entry ι ο α) : Decidable (b.Admits e) :=
  inferInstanceAs (Decidable (ite _ _ _))

/-- The book with one more entry, unless it is refused. -/
def enter (b : Book ι ο α) (e : Entry ι ο α) : Option (Book ι ο α) :=
  if b.Admits e then some (b.record e) else none

/-- The book after these entries, if none of them is refused. -/
def replay (b : Book ι ο α) : List (Entry ι ο α) → Option (Book ι ο α)
  | [] => some b
  | e :: es => (b.enter e).bind fun b => b.replay es

variable {b b' b'' : Book ι ο α} {e : Entry ι ο α} {es es' : List (Entry ι ο α)} {i : ι} {o : ο}

theorem enter_eq_some : b.enter e = some b' ↔ b.Admits e ∧ b.record e = b' := by
  unfold enter
  split <;> simp_all

@[simp] theorem replay_nil : b.replay [] = some b := rfl

theorem replay_cons :
    b.replay (e :: es) = some b' ↔ b.Admits e ∧ (b.record e).replay es = some b' := by
  simp only [replay, Option.bind_eq_some_iff, enter_eq_some, and_assoc]
  constructor
  · rintro ⟨_, hadmits, rfl, hrest⟩
    exact ⟨hadmits, hrest⟩
  · rintro ⟨hadmits, hrest⟩
    exact ⟨_, hadmits, rfl, hrest⟩

theorem replay_singleton : b.replay [e] = some b' ↔ b.Admits e ∧ b.record e = b' := by
  rw [replay_cons, replay_nil, Option.some_inj]

theorem replay_append (h : b.replay es = some b') (h' : b'.replay es' = some b'') :
    b.replay (es ++ es') = some b'' := by
  induction es generalizing b with
  | nil =>
    obtain rfl := Option.some.inj h
    exact h'
  | cons e es ih =>
    obtain ⟨hadmits, hrest⟩ := replay_cons.mp h
    exact replay_cons.mpr ⟨hadmits, ih hrest⟩

end Book
end Entering

/-! ## What a history makes of a book -/

section Gains
variable [AddCommGroup α] [DecidableEq ο] {es es' : List (Entry ι ο α)}

/-- A sum over the entries of an owner. -/
def gains (gain : Phase → α → α) (es : List (Entry ι ο α)) (o : ο) : α :=
  (es.map fun e => if e.owner = o then gain e.phase e.amount else 0).sum

theorem update_gains (gain : Phase → α → α) (funds : ο → α) (e : Entry ι ο α)
    (es : List (Entry ι ο α)) (o : ο) :
    Function.update funds e.owner (funds e.owner + gain e.phase e.amount) o + gains gain es o =
      funds o + gains gain (e :: es) o := by
  unfold gains
  rw [List.map_cons, List.sum_cons, ← add_assoc]
  congr 1
  by_cases ho : o = e.owner
  · subst ho
    rw [Function.update_self, if_pos rfl]
  · rw [Function.update_of_ne ho, if_neg (Ne.symm ho), add_zero]

theorem gains_perm (gain : Phase → α → α) (h : es.Perm es') : gains gain es = gains gain es' :=
  funext fun _ => (h.map _).sum_eq

end Gains

section Replay
variable [AddCommGroup α] [LinearOrder α] [DecidableEq ι] [DecidableEq ο]
  {b b' b₁ b₂ : Book ι ο α} {e : Entry ι ο α} {es es' : List (Entry ι ο α)} {i : ι}

theorem replay_free (h : b.replay es = some b') (o : ο) :
    b'.free o = b.free o + gains Phase.free es o := by
  induction es generalizing b with
  | nil =>
    obtain rfl := Option.some.inj h
    exact (add_zero _).symm
  | cons e es ih => rw [ih (Book.replay_cons.mp h).2, Book.record, update_gains]

theorem replay_onHold (h : b.replay es = some b') (o : ο) :
    b'.held o = b.held o + gains Phase.onHold es o := by
  induction es generalizing b with
  | nil =>
    obtain rfl := Option.some.inj h
    exact (add_zero _).symm
  | cons e es ih => rw [ih (Book.replay_cons.mp h).2, Book.record, update_gains]

theorem replay_backing (h : b.replay es = some b') :
    b'.backing = b.backing + (es.map fun e => e.phase.backing e.amount).sum := by
  induction es generalizing b with
  | nil =>
    obtain rfl := Option.some.inj h
    exact (add_zero _).symm
  | cons e es ih =>
    rw [ih (Book.replay_cons.mp h).2, Book.record, List.map_cons, List.sum_cons, add_assoc]

/-- A deposit that nothing was entered about is as it was. -/
theorem replay_untouched (h : b.replay es = some b') (hes : ∀ e ∈ es, e.index ≠ i) :
    b'.deposits i = b.deposits i := by
  induction es generalizing b with
  | nil =>
    obtain rfl := Option.some.inj h
    rfl
  | cons e es ih =>
    obtain ⟨hne, hes⟩ := List.forall_mem_cons.mp hes
    rw [ih (Book.replay_cons.mp h).2 hes, Book.record]
    exact Function.update_of_ne hne.symm _ _

omit [DecidableEq ι] [DecidableEq ο] in
/-- An entry about a deposit ends it. -/
theorem Book.Admits.ends {d : Deposit ο α} (h : b.Admits e) (hd : b.deposits e.index = some d) :
    d.phase = .held ∧ e.phase ≠ .held := by
  unfold Book.Admits at h
  split at h
  · rw [h.1] at hd
    cases hd
  · rename_i hends
    rw [h] at hd
    cases hd
    exact ⟨rfl, hends⟩

/-- **A deposit stays as it is until it is ended**, and for ever after that. -/
theorem replay_kept {d : Deposit ο α} (h : b.replay es = some b') (hd : b.deposits i = some d)
    (hes : ∀ e ∈ es, e.index = i → d.phase = .held → e.phase = .held) :
    b'.deposits i = some d := by
  induction es generalizing b with
  | nil =>
    obtain rfl := Option.some.inj h
    exact hd
  | cons e es ih =>
    obtain ⟨hadmits, hrest⟩ := Book.replay_cons.mp h
    obtain ⟨hends, hes⟩ := List.forall_mem_cons.mp hes
    have hne : i ≠ e.index := by
      rintro rfl
      obtain ⟨hheld, hended⟩ := hadmits.ends hd
      exact hended (hends rfl hheld)
    exact ih hrest ((Function.update_of_ne hne _ _).trans hd) hes

/-- The entry that ends a deposit is the last one about it. -/
theorem replay_ended (h : b.replay es = some b') (he : e ∈ es) (hended : e.phase ≠ .held) :
    b'.deposits e.index = some e.toDeposit := by
  induction es generalizing b with
  | nil => exact absurd he List.not_mem_nil
  | cons e' es ih =>
    obtain ⟨-, hrest⟩ := Book.replay_cons.mp h
    rcases List.mem_cons.mp he with rfl | he
    · exact replay_kept hrest (Function.update_self ..) fun _ _ _ hheld => absurd hheld hended
    · exact ih hrest he

/-- A deposit that was only opened is held. -/
theorem replay_held (h : b.replay es = some b') (he : e ∈ es)
    (hheld : ∀ e' ∈ es, e'.index = e.index → e'.phase = .held) :
    b'.deposits e.index = some e.toDeposit := by
  induction es generalizing b with
  | nil => exact absurd he List.not_mem_nil
  | cons e' es ih =>
    obtain ⟨-, hrest⟩ := Book.replay_cons.mp h
    obtain ⟨-, hlater⟩ := List.forall_mem_cons.mp hheld
    rcases List.mem_cons.mp he with rfl | he
    · exact replay_kept hrest (Function.update_self ..) fun e he hindex _ => hlater e he hindex
    · exact ih hrest he hlater

/-- **The order does not matter.**  Two histories of the same entries, neither of them
refused, make the same book. -/
theorem replay_perm (h₁ : b.replay es = some b₁) (h₂ : b.replay es' = some b₂)
    (hperm : es.Perm es') : b₁ = b₂ := by
  have hmem : ∀ e, e ∈ es ↔ e ∈ es' := fun e => hperm.mem_iff
  apply Book.ext
  · funext o
    rw [replay_free h₁, replay_free h₂, gains_perm _ hperm]
  · funext o
    rw [replay_onHold h₁, replay_onHold h₂, gains_perm _ hperm]
  · rw [replay_backing h₁, replay_backing h₂, (hperm.map _).sum_eq]
  · funext i
    by_cases hended : ∃ e ∈ es, e.index = i ∧ e.phase ≠ .held
    · obtain ⟨e, he, rfl, hended⟩ := hended
      rw [replay_ended h₁ he hended, replay_ended h₂ ((hmem e).mp he) hended]
    · have hheld : ∀ e ∈ es, e.index = i → e.phase = .held := fun e he hindex =>
        by_contra fun hphase => hended ⟨e, he, hindex, hphase⟩
      by_cases htouched : ∃ e ∈ es, e.index = i
      · obtain ⟨e, he, rfl⟩ := htouched
        rw [replay_held h₁ he hheld, replay_held h₂ ((hmem e).mp he) fun e' he' =>
          hheld e' ((hmem e').mpr he')]
      · have huntouched : ∀ e ∈ es, e.index ≠ i := fun e he hindex => htouched ⟨e, he, hindex⟩
        rw [replay_untouched h₁ huntouched, replay_untouched h₂ fun e he =>
          huntouched e ((hmem e).mpr he)]

end Replay
end Escrow
