/-! # Programs that perform operations

A `Program` returns a value, raises an exception, or performs an operation and
goes on with its outcome.  Nothing is said here of what operations do: that is
the business of the system the program runs in, where other programs run
between any two operations.

What can be said of a program alone is the sequence of operations it performs,
given their outcomes.  `Path start h p` says that the program `start`, having
performed the operations of `h`, has become `p`.  `Meets` is the rule for
proving things about all paths: a precondition for each operation and a
postcondition for the end, both stated about the history so far, and computed
through the program's text by `meets_bind` and `meets_tryCatch`.

`Always` is the rule for a program that runs alone: given what operations do to a
state, it ends, and ends in its postcondition.
-/

/-- A program over the operations `Op`, with exceptions of type `ε`. -/
inductive Program (Op : Type) (Reply : Op → Type) (ε α : Type) where
  | ret (a : α)
  | raise (e : ε)
  | perform (op : Op) (next : Except ε (Reply op) → Program Op Reply ε α)

namespace Program

variable {Op : Type} {Reply : Op → Type} {ε α β : Type}

/-- `p`, and then `f` with the value it returned. -/
def bind : Program Op Reply ε α → (α → Program Op Reply ε β) → Program Op Reply ε β
  | ret a, f => f a
  | raise e, _ => raise e
  | perform op next, f => perform op fun r => (next r).bind f

/-- `p`, with its exceptions handled by `handler`. -/
def tryCatch : Program Op Reply ε α → (ε → Program Op Reply ε α) → Program Op Reply ε α
  | ret a, _ => ret a
  | raise e, handler => handler e
  | perform op next, handler => perform op fun r => (next r).tryCatch handler

instance : Monad (Program Op Reply ε) where
  pure := ret
  bind := bind

/-- The program that performs one operation. -/
def call (op : Op) : Program Op Reply ε (Reply op) :=
  perform op fun
    | .ok a => ret a
    | .error e => raise e

/-- An outcome that is already known. -/
def ofExcept : Except ε α → Program Op Reply ε α
  | .ok a => ret a
  | .error e => raise e

@[simp] theorem pure_eq (a : α) : (pure a : Program Op Reply ε α) = ret a := rfl

@[simp] theorem ret_bind (a : α) (f : α → Program Op Reply ε β) : ret a >>= f = f a := rfl

@[simp] theorem raise_bind (e : ε) (f : α → Program Op Reply ε β) :
    (raise e : Program Op Reply ε α) >>= f = raise e := rfl

@[simp] theorem perform_bind (op : Op) (next : Except ε (Reply op) → Program Op Reply ε α)
    (f : α → Program Op Reply ε β) :
    perform op next >>= f = perform op fun r => next r >>= f := rfl

/-- What a program ends with, if it has ended. -/
def result : Program Op Reply ε α → Option (Except ε α)
  | ret a => some (.ok a)
  | raise e => some (.error e)
  | perform _ _ => none

end Program

/-- The operations performed, the last one first, with their outcomes. -/
abbrev History (Op : Type) (Reply : Op → Type) (ε : Type) :=
  List ((op : Op) × Except ε (Reply op))

namespace Program

variable {Op : Type} {Reply : Op → Type} {ε α β : Type}
  {start p : Program Op Reply ε α} {h : History Op Reply ε}

/-- `start` has performed `h` and become the program in the last argument. -/
inductive Path (start : Program Op Reply ε α) :
    History Op Reply ε → Program Op Reply ε α → Prop
  | refl : Path start [] start
  | step {h op next} (r : Except ε (Reply op)) :
      Path start h (perform op next) → Path start (⟨op, r⟩ :: h) (next r)

/-- Every operation `p` goes on to perform, after the history `h`, meets `pre`,
and if it ends it ends in `post`. -/
def Meets (pre : History Op Reply ε → Op → Prop)
    (post : History Op Reply ε → Except ε α → Prop) :
    Program Op Reply ε α → History Op Reply ε → Prop
  | ret a, h => post h (.ok a)
  | raise e, h => post h (.error e)
  | perform op next, h => pre h op ∧ ∀ r, Meets pre post (next r) (⟨op, r⟩ :: h)

section Rules
variable {pre : History Op Reply ε → Op → Prop}
  {post post' : History Op Reply ε → Except ε α → Prop}

@[simp] theorem meets_ret {a : α} : (ret a).Meets pre post h ↔ post h (.ok a) := Iff.rfl

@[simp] theorem meets_raise {e : ε} :
    (raise e : Program Op Reply ε α).Meets pre post h ↔ post h (.error e) := Iff.rfl

@[simp] theorem meets_perform {op : Op} {next : Except ε (Reply op) → Program Op Reply ε α} :
    (perform op next).Meets pre post h ↔
      pre h op ∧ ∀ r, (next r).Meets pre post (⟨op, r⟩ :: h) := Iff.rfl

theorem Meets.mono (hp : p.Meets pre post h) (himp : ∀ h r, post h r → post' h r) :
    p.Meets pre post' h := by
  induction p generalizing h with
  | ret a => exact himp _ _ hp
  | raise e => exact himp _ _ hp
  | perform op next ih => exact ⟨hp.1, fun r => ih r (hp.2 r)⟩

theorem Meets.weaken {pre' : History Op Reply ε → Op → Prop} (hp : p.Meets pre post h)
    (himp : ∀ h op, pre h op → pre' h op) : p.Meets pre' post h := by
  induction p generalizing h with
  | ret a => exact hp
  | raise e => exact hp
  | perform op next ih => exact ⟨himp _ _ hp.1, fun r => ih r (hp.2 r)⟩

theorem meets_true (p : Program Op Reply ε α) :
    p.Meets (fun _ _ => True) (fun _ _ => True) h := by
  induction p generalizing h with
  | ret a => trivial
  | raise e => trivial
  | perform op next ih => exact ⟨trivial, fun r => ih r⟩

/-- The rule for one operation. -/
theorem meets_call {op : Op} {post : History Op Reply ε → Except ε (Reply op) → Prop} :
    (call op : Program Op Reply ε (Reply op)).Meets pre post h ↔
      pre h op ∧ ∀ r, post (⟨op, r⟩ :: h) r := by
  refine and_congr_right fun _ => forall_congr' fun r => ?_
  cases r <;> rfl

/-- The rule for sequencing: what follows starts from the history so far. -/
theorem meets_bind {f : α → Program Op Reply ε β}
    {post : History Op Reply ε → Except ε β → Prop} :
    (p >>= f).Meets pre post h ↔ p.Meets pre (fun h r => match r with
      | .ok a => (f a).Meets pre post h
      | .error e => post h (.error e)) h := by
  induction p generalizing h with
  | ret a => exact Iff.rfl
  | raise e => exact Iff.rfl
  | perform op next ih => exact and_congr_right fun _ => forall_congr' fun r => ih r

/-- The rule for a function applied to the result. -/
theorem meets_map {f : α → β} {post : History Op Reply ε → Except ε β → Prop} :
    (f <$> p).Meets pre post h ↔ p.Meets pre (fun h r => post h (r.map f)) h := by
  induction p generalizing h with
  | ret a => exact Iff.rfl
  | raise e => exact Iff.rfl
  | perform op next ih => exact and_congr_right fun _ => forall_congr' fun r => ih r

/-- The rule for handlers. -/
theorem meets_tryCatch {handler : ε → Program Op Reply ε α} :
    (p.tryCatch handler).Meets pre post h ↔ p.Meets pre (fun h r => match r with
      | .ok a => post h (.ok a)
      | .error e => (handler e).Meets pre post h) h := by
  induction p generalizing h with
  | ret a => exact Iff.rfl
  | raise e => exact Iff.rfl
  | perform op next ih => exact and_congr_right fun _ => forall_congr' fun r => ih r

/-- **Soundness**: a program that meets its conditions meets them wherever it
has come to. -/
theorem Path.meets (hpath : Path start h p) (hstart : start.Meets pre post []) :
    p.Meets pre post h := by
  induction hpath with
  | refl => exact hstart
  | step r _ ih => exact ih.2 r

end Rules

/-! ## Total correctness -/

section Total
variable {σ : Type} {exec : σ → (op : Op) → Except ε (Reply op) → σ → Prop}
  {post post' : History Op Reply ε → σ → Except ε α → Prop} {s : σ}

/-- Run alone, where `exec` says what an operation can answer and what state it
leaves, the program never gets stuck and ends in `post`. -/
def Always (exec : σ → (op : Op) → Except ε (Reply op) → σ → Prop)
    (post : History Op Reply ε → σ → Except ε α → Prop) :
    Program Op Reply ε α → History Op Reply ε → σ → Prop
  | ret a, h, s => post h s (.ok a)
  | raise e, h, s => post h s (.error e)
  | perform op next, h, s => (∃ r s', exec s op r s') ∧
      ∀ r s', exec s op r s' → Always exec post (next r) (⟨op, r⟩ :: h) s'

theorem Always.mono (hp : p.Always exec post h s) (himp : ∀ h s r, post h s r → post' h s r) :
    p.Always exec post' h s := by
  induction p generalizing h s with
  | ret a => exact himp _ _ _ hp
  | raise e => exact himp _ _ _ hp
  | perform op next ih => exact ⟨hp.1, fun r s' hexec => ih r (hp.2 r s' hexec)⟩

theorem always_call {op : Op} {post : History Op Reply ε → σ → Except ε (Reply op) → Prop} :
    (call op : Program Op Reply ε (Reply op)).Always exec post h s ↔
      (∃ r s', exec s op r s') ∧ ∀ r s', exec s op r s' → post (⟨op, r⟩ :: h) s' r := by
  refine and_congr_right fun _ => forall_congr' fun r => ?_
  cases r <;> rfl

theorem always_bind {f : α → Program Op Reply ε β}
    {post : History Op Reply ε → σ → Except ε β → Prop} :
    (p >>= f).Always exec post h s ↔ p.Always exec (fun h s r => match r with
      | .ok a => (f a).Always exec post h s
      | .error e => post h s (.error e)) h s := by
  induction p generalizing h s with
  | ret a => exact Iff.rfl
  | raise e => exact Iff.rfl
  | perform op next ih =>
    exact and_congr_right fun _ => forall_congr' fun r => forall_congr' fun _ => imp_congr_right
      fun _ => ih r

theorem always_map {f : α → β} {post : History Op Reply ε → σ → Except ε β → Prop} :
    (f <$> p).Always exec post h s ↔ p.Always exec (fun h s r => post h s (r.map f)) h s := by
  induction p generalizing h s with
  | ret a => exact Iff.rfl
  | raise e => exact Iff.rfl
  | perform op next ih =>
    exact and_congr_right fun _ => forall_congr' fun r => forall_congr' fun _ => imp_congr_right
      fun _ => ih r

theorem always_tryCatch {handler : ε → Program Op Reply ε α} :
    (p.tryCatch handler).Always exec post h s ↔ p.Always exec (fun h s r => match r with
      | .ok a => post h s (.ok a)
      | .error e => (handler e).Always exec post h s) h s := by
  induction p generalizing h s with
  | ret a => exact Iff.rfl
  | raise e => exact Iff.rfl
  | perform op next ih =>
    exact and_congr_right fun _ => forall_congr' fun r => forall_congr' fun _ => imp_congr_right
      fun _ => ih r

end Total

end Program
