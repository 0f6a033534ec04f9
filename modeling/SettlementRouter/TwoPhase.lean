import Mathlib.Data.Set.Lattice
import SettlementRouter.Programs

/-! # Transactions that lock what they touch

A transaction is a program of statements, and keeps its writes to itself until it
commits.  A statement is answered from the committed state with the transaction's own
writes over it.  It touches some keys; it waits until no other transaction has touched
one of them, and from then on they are locked until the transaction ends.

Other transactions can then commit between its statements without changing what the
transaction has read: what has been answered would be answered again (`Reaches.same`).
So at the moment it commits, the transaction has run as it would have run alone on
the state it commits to (`Reaches.ends`).
-/

/-- What statements answer and write, and where.  A write changes what it is said to
change and no more; what a statement answers depends on what it touches, and it writes
nowhere else. -/
structure Statements (Op : Type) (Reply : Op → Type) (ε σ ω κ : Type) where
  apply : ω → σ → σ
  written : ω → Set κ
  /-- The two states have the same under the key. -/
  Same : κ → σ → σ → Prop
  /-- In this state the statement can be answered like this, with these writes, the last
  one first, and touches these keys. -/
  Answers : σ → (op : Op) → Reply op → List ω → Set κ → Prop
  /-- In this state the statement can fail, and the transaction with it. -/
  Fails : σ → Op → ε → Set κ → Prop
  same_refl : ∀ k s, Same k s s
  same_trans : ∀ {k s t u}, Same k s t → Same k t u → Same k s u
  apply_frame : ∀ {w k}, k ∉ written w → ∀ s, Same k s (apply w s)
  apply_same : ∀ {w k s t}, (∀ k ∈ written w, Same k s t) → Same k s t →
    Same k (apply w s) (apply w t)
  answers_same : ∀ {s t op r ws touched}, Answers s op r ws touched →
    (∀ k ∈ touched, Same k s t) → Answers t op r ws touched
  answers_written : ∀ {s op r ws touched}, Answers s op r ws touched → ∀ w ∈ ws,
    written w ⊆ touched

namespace Statements

variable {Op : Type} {Reply : Op → Type} {ε σ ω κ α β : Type} (S : Statements Op Reply ε σ ω κ)

/-- The state with these writes, the last one first. -/
def view (s : σ) (writes : List ω) : σ := writes.foldr S.apply s

/-- Run from the state `s`, the program has performed the statements of the history, has
become the program `rest`, and holds these writes and locks. -/
inductive Reaches (s : σ) (start : Program Op Reply ε α) :
    History Op Reply ε → Program Op Reply ε α → List ω → Set κ → Prop
  | start : Reaches s start [] start [] ∅
  | answer {h op next writes held r new touched} :
      Reaches s start h (.perform op next) writes held →
      S.Answers (S.view s writes) op r new touched →
      Reaches s start (⟨op, .ok r⟩ :: h) (next (.ok r)) (new ++ writes) (held ∪ touched)

/-- Run alone from the state `s` with these writes, the program can end like this. -/
def Ends (s : σ) : Program Op Reply ε α → List ω → Except ε (α × List ω) → Prop
  | .ret a, writes, outcome => outcome = .ok (a, writes)
  | .raise e, _, outcome => outcome = .error e
  | .perform op next, writes, outcome =>
    (∃ r new touched, S.Answers (S.view s writes) op r new touched ∧
      Ends s (next (.ok r)) (new ++ writes) outcome) ∨
    ∃ e touched, S.Fails (S.view s writes) op e touched ∧ outcome = .error e

variable {S} {s t : σ} {start rest : Program Op Reply ε α} {h : History Op Reply ε}
  {writes : List ω} {held : Set κ} {outcome : Except ε (α × List ω)}

/-! ## What is locked stays the same -/

/-- Writes elsewhere do not change a key. -/
theorem view_frame {k : κ} (hk : ∀ w ∈ writes, k ∉ S.written w) : S.Same k s (S.view s writes) := by
  induction writes with
  | nil => exact S.same_refl k s
  | cons w writes ih =>
    have hbefore := ih fun w hw => hk w (List.mem_cons_of_mem _ hw)
    exact S.same_trans hbefore (S.apply_frame (hk w List.mem_cons_self) _)

/-- The same writes keep two states the same, where they agree on what is written. -/
theorem view_same (hwrites : ∀ w ∈ writes, ∀ k ∈ S.written w, S.Same k s t) {k : κ}
    (hk : S.Same k s t) : S.Same k (S.view s writes) (S.view t writes) := by
  induction writes generalizing k with
  | nil => exact hk
  | cons w writes ih =>
    have hbefore : ∀ {k}, S.Same k s t → S.Same k (S.view s writes) (S.view t writes) :=
      fun hk => ih (fun w hw => hwrites w (List.mem_cons_of_mem _ hw)) hk
    exact S.apply_same (fun k hw => hbefore (hwrites w List.mem_cons_self k hw)) (hbefore hk)

namespace Reaches

/-- What has been written is locked. -/
theorem written (hreach : S.Reaches s start h rest writes held) :
    ∀ w ∈ writes, S.written w ⊆ held := by
  induction hreach with
  | start => nofun
  | answer hreach hanswers ih =>
    intro w hw
    rcases List.mem_append.mp hw with hw | hw
    · exact (S.answers_written hanswers w hw).trans Set.subset_union_right
    · exact (ih w hw).trans Set.subset_union_left

/-- **What has been answered would be answered again**, where what is locked is the same. -/
theorem same (hreach : S.Reaches s start h rest writes held) (hsame : ∀ k ∈ held, S.Same k s t) :
    S.Reaches t start h rest writes held := by
  induction hreach with
  | start => exact .start
  | @answer h op next writes held r new touched hreach hanswers ih =>
    have hheld : ∀ k ∈ held, S.Same k s t := fun k hk => hsame k (.inl hk)
    refine .answer (ih hheld) (S.answers_same hanswers fun k hk => ?_)
    exact view_same (fun w hw k hk => hheld k (hreach.written w hw hk)) (hsame k (.inr hk))

theorem path (hreach : S.Reaches s start h rest writes held) : Program.Path start h rest := by
  induction hreach with
  | start => exact .refl
  | answer _ _ ih => exact .step _ ih

/-- Before its first statement a transaction has written nothing. -/
theorem writes_nil (hreach : S.Reaches s start [] rest writes held) : writes = [] := by
  cases hreach
  rfl

/-- The first statement was answered from the state itself, and what it touched is locked. -/
theorem first {op : Op} {next : Except ε (Reply op) → Program Op Reply ε α}
    (hreach : S.Reaches s (.perform op next) h rest writes held) :
    h = [] ∧ rest = .perform op next ∨
      ∃ r new touched, S.Answers s op r new touched ∧ touched ⊆ held := by
  induction hreach with
  | start => exact .inl ⟨rfl, rfl⟩
  | @answer h op' next' writes held r new touched hreach hanswers ih =>
    right
    rcases ih with ⟨rfl, hop⟩ | ⟨r', new', touched', hfirst, hheld⟩
    · cases hop
      obtain rfl := hreach.writes_nil
      exact ⟨r, new, touched, hanswers, Set.subset_union_right⟩
    · exact ⟨r', new', touched', hfirst, hheld.trans Set.subset_union_left⟩

/-- Where the rest can end, the whole can. -/
theorem ends (hreach : S.Reaches s start h rest writes held)
    (hends : S.Ends s rest writes outcome) :
    S.Ends s start [] outcome := by
  induction hreach with
  | start => exact hends
  | answer _ hanswers ih => exact ih (.inl ⟨_, _, _, hanswers, hends⟩)

end Reaches

/-! ## What a program alone does -/

@[simp] theorem ends_ret {a : α} :
    S.Ends s (.ret a) writes outcome ↔ outcome = .ok (a, writes) := Iff.rfl

@[simp] theorem ends_raise {e : ε} :
    S.Ends s (.raise e) writes outcome ↔ outcome = .error e := Iff.rfl

/-- The rule for one statement. -/
theorem ends_call {op : Op} {outcome : Except ε (Reply op × List ω)} :
    S.Ends s (Program.call op) writes outcome ↔
      (∃ r new touched, S.Answers (S.view s writes) op r new touched ∧
        outcome = .ok (r, new ++ writes)) ∨
      ∃ e touched, S.Fails (S.view s writes) op e touched ∧ outcome = .error e := Iff.rfl

theorem ends_ofExcept {x : Except ε α} :
    S.Ends s (Program.ofExcept x) writes outcome ↔ outcome = x.map fun a => (a, writes) := by
  cases x <;> exact Iff.rfl

/-- The rule for sequencing. -/
theorem ends_bind {p : Program Op Reply ε α} {f : α → Program Op Reply ε β}
    {outcome : Except ε (β × List ω)} :
    S.Ends s (p >>= f) writes outcome ↔
      (∃ a writes', S.Ends s p writes (.ok (a, writes')) ∧ S.Ends s (f a) writes' outcome) ∨
      ∃ e, S.Ends s p writes (.error e) ∧ outcome = .error e := by
  induction p generalizing writes with
  | ret a => simp
  | raise e => simp
  | perform op next ih =>
    simp only [Program.perform_bind, Ends, ih]
    constructor
    · rintro (⟨r, new, touched, hanswers, ⟨a, writes', hp, hf⟩ | ⟨e, hp, rfl⟩⟩ |
        ⟨e, touched, hfails, rfl⟩)
      · exact .inl ⟨a, writes', .inl ⟨r, new, touched, hanswers, hp⟩, hf⟩
      · exact .inr ⟨e, .inl ⟨r, new, touched, hanswers, hp⟩, rfl⟩
      · exact .inr ⟨e, .inr ⟨e, touched, hfails, rfl⟩, rfl⟩
    · rintro (⟨a, writes', ⟨r, new, touched, hanswers, hp⟩ | ⟨e, touched, hfails, heq⟩, hf⟩ |
        ⟨e, ⟨r, new, touched, hanswers, hp⟩ | ⟨e', touched, hfails, heq⟩, rfl⟩)
      · exact .inl ⟨r, new, touched, hanswers, .inl ⟨a, writes', hp, hf⟩⟩
      · cases heq
      · exact .inl ⟨r, new, touched, hanswers, .inr ⟨e, hp, rfl⟩⟩
      · cases heq
        exact .inr ⟨e, touched, hfails, rfl⟩

/-- The rule for sequencing after a program that can only end in one way. -/
theorem ends_bind_of {p : Program Op Reply ε α} {f : α → Program Op Reply ε β}
    {outcome : Except ε (β × List ω)} {x : Except ε (α × List ω)} :
    (∀ outcome, S.Ends s p writes outcome ↔ outcome = x) →
    (S.Ends s (p >>= f) writes outcome ↔ match x with
      | .ok (a, writes') => S.Ends s (f a) writes' outcome
      | .error e => outcome = .error e) := by
  intro hp
  rw [ends_bind]
  simp only [hp]
  cases x with
  | ok ended =>
    obtain ⟨a, writes'⟩ := ended
    simp
  | error e => simp

end Statements

/-! ## Transactions under way -/

/-- A transaction under way: the program it started as, what is left of it, its writes,
and what it has locked.  `Kind` says which transaction it is. -/
structure Underway (Op : Type) (Reply : Op → Type) (ε ω κ : Type) {Kind : Type}
    (Ret : Kind → Type) where
  kind : Kind
  start : Program Op Reply ε (Ret kind)
  rest : Program Op Reply ε (Ret kind)
  writes : List ω
  held : Set κ

namespace Statements

open Function (update)

variable {Op : Type} {Reply : Op → Type} {ε σ ω κ τ Kind : Type} {Ret : Kind → Type}
  (S : Statements Op Reply ε σ ω κ)

/-- Nobody else has locked one of these keys. -/
def Free (table : τ → Option (Underway Op Reply ε ω κ Ret)) (u : τ) (touched : Set κ) : Prop :=
  ∀ v y, v ≠ u → table v = some y → ∀ k ∈ y.held, k ∉ touched

/-- Every transaction is where running alone from the present state would have taken it,
and no two have locked the same key. -/
structure Isolated (s : σ) (table : τ → Option (Underway Op Reply ε ω κ Ret)) : Prop where
  reaches : ∀ u x, table u = some x → ∃ h, S.Reaches s x.start h x.rest x.writes x.held
  exclusive : ∀ u x, table u = some x → Free table u x.held

namespace Isolated

variable {S} [DecidableEq τ] {s : σ} {table : τ → Option (Underway Op Reply ε ω κ Ret)} {u v : τ}
  {kind : Kind} {start : Program Op Reply ε (Ret kind)} {writes : List ω} {held : Set κ}

theorem of_update_some {x y : Underway Op Reply ε ω κ Ret}
    (h : update table u (some x) v = some y) :
    v = u ∧ x = y ∨ v ≠ u ∧ table v = some y := by
  by_cases hv : v = u
  · subst hv
    rw [Function.update_self] at h
    exact .inl ⟨rfl, Option.some.inj h⟩
  · rw [Function.update_of_ne hv] at h
    exact .inr ⟨hv, h⟩

theorem of_update_none {y : Underway Op Reply ε ω κ Ret} (h : update table u none v = some y) :
    v ≠ u ∧ table v = some y := by
  by_cases hv : v = u
  · subst hv
    rw [Function.update_self] at h
    cases h
  · rw [Function.update_of_ne hv] at h
    exact ⟨hv, h⟩

omit [DecidableEq τ] in
theorem empty (hnone : ∀ u, table u = none) : S.Isolated s table where
  reaches u x hx := by simp [hnone] at hx
  exclusive u x hx := by simp [hnone] at hx

theorem free_of_update {x : Option (Underway Op Reply ε ω κ Ret)} {touched : Set κ}
    (hfree : Free table u touched) : Free (update table u x) u touched := by
  intro v y hv hy
  rw [Function.update_of_ne hv] at hy
  exact hfree v y hv hy

/-- A transaction is put where it can be, with locks nobody else has. -/
theorem set (hs : S.Isolated s table) (x : Underway Op Reply ε ω κ Ret)
    (hreach : ∃ h, S.Reaches s x.start h x.rest x.writes x.held) (hfree : Free table u x.held) :
    S.Isolated s (update table u (some x)) where
  reaches v y hy := by
    obtain ⟨rfl, rfl⟩ | ⟨-, hy⟩ := of_update_some hy
    · exact hreach
    · exact hs.reaches v y hy
  exclusive v y hy := by
    obtain ⟨rfl, rfl⟩ | ⟨hv, hy'⟩ := of_update_some hy
    · exact free_of_update hfree
    · intro w z hw hz
      obtain ⟨rfl, rfl⟩ | ⟨-, hz'⟩ := of_update_some hz
      · exact fun k hk hk' => hfree v y hv hy' k hk' hk
      · exact hs.exclusive v y hy' w z hw hz'

theorem begin (hs : S.Isolated s table) (start : Program Op Reply ε (Ret kind)) :
    S.Isolated s (update table u (some ⟨kind, start, start, [], ∅⟩)) :=
  hs.set _ ⟨[], .start⟩ fun _ _ _ _ k _ => Set.notMem_empty k

/-- A statement is answered. -/
theorem answer {op : Op} {next : Except ε (Reply op) → Program Op Reply ε (Ret kind)}
    {r : Reply op} {new : List ω} {touched : Set κ} (hs : S.Isolated s table)
    (hx : table u = some ⟨kind, start, .perform op next, writes, held⟩)
    (hanswers : S.Answers (S.view s writes) op r new touched) (hfree : Free table u touched) :
    S.Isolated s (update table u
      (some ⟨kind, start, next (.ok r), new ++ writes, held ∪ touched⟩)) := by
  obtain ⟨h, hreach⟩ := hs.reaches u _ hx
  refine hs.set _ ⟨_, hreach.answer hanswers⟩ fun v y hv hy k hk hk' => ?_
  rcases hk' with hk' | hk'
  · exact hs.exclusive u _ hx v y hv hy k hk hk'
  · exact hfree v y hv hy k hk hk'

theorem close (hs : S.Isolated s table) : S.Isolated s (update table u none) where
  reaches v y hy := hs.reaches v y (of_update_none hy).2
  exclusive v y hy w z hw hz :=
    hs.exclusive v y (of_update_none hy).2 w z hw (of_update_none hz).2

/-- **A commit leaves the others where they are**: it changes nothing they have locked. -/
theorem commit {x : Underway Op Reply ε ω κ Ret} (hs : S.Isolated s table) (hx : table u = some x) :
    S.Isolated (S.view s x.writes) (update table u none) where
  exclusive := hs.close.exclusive
  reaches v y hy := by
    obtain ⟨hv, hy⟩ := of_update_none hy
    obtain ⟨h, hreach⟩ := hs.reaches v y hy
    obtain ⟨h', hreach'⟩ := hs.reaches u x hx
    refine ⟨h, hreach.same fun k hk => view_frame fun w hw hwritten => ?_⟩
    exact hs.exclusive v y hy u x (Ne.symm hv) hx k (hreach'.written w hw hwritten) hk

end Isolated

end Statements
