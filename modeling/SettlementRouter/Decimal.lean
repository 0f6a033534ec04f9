import Mathlib.Data.Int.Log
import Mathlib.Data.Rat.Floor
import Mathlib.Algebra.Order.Floor.Ring

/-! # Decimal arithmetic

Values of Python's `decimal.Decimal` and of PostgreSQL's `numeric` are
rationals here; what the two types add is when a result is rounded.

* A `Context` rounds the exact result of every operation.  `Context.prec n`
  keeps `n` significant digits, half to even, as `decimal.Context(prec=n)`
  does; `Context.exact` never rounds.
* A column `Numeric(p, s)` keeps `s` digits after the point.  It holds an
  integer number of units of `10⁻ˢ`, of absolute value below `10ᵖ`.  Storing a
  value rounds it once, half away from zero, and fails when it does not fit
  (`toColumn`).
-/
namespace Decimal

/-- The nearest integer, ties to the even one. -/
def roundHalfEven (q : ℚ) : ℤ :=
  let below := ⌊q⌋
  if q - below < 1 / 2 then below
  else if 1 / 2 < q - below then below + 1
  else if below % 2 = 0 then below
  else below + 1

/-- The nearest integer, ties away from zero. -/
def roundHalfAway (q : ℚ) : ℤ :=
  if 0 ≤ q then ⌊q + 1 / 2⌋ else -⌊-q + 1 / 2⌋

/-- `q` rounded to `prec` significant digits, half to even. -/
def roundDigits (prec : ℕ) (q : ℚ) : ℚ :=
  let ulp : ℚ := 10 ^ (Int.log 10 |q| + 1 - prec)
  roundHalfEven (q / ulp) * ulp

/-- A `decimal.Decimal`, of which the infinities and NaNs are not numbers. -/
inductive Number where
  | finite (value : ℚ)
  | infinity (negative : Bool)
  | nan
  deriving DecidableEq

/-- An arithmetic context: how the exact result of an operation is rounded. -/
structure Context where
  round : ℚ → ℚ

namespace Context

/-- Arithmetic without rounding. -/
def exact : Context := ⟨id⟩

/-- `decimal.Context(prec=n, rounding=ROUND_HALF_EVEN)`. -/
def prec (n : ℕ) : Context := ⟨roundDigits n⟩

/-- The product as the context computes it. -/
def mul (c : Context) (a b : ℚ) : ℚ := c.round (a * b)

/-- The sum as the context computes it. -/
def add (c : Context) (a b : ℚ) : ℚ := c.round (a + b)

/-- The quotient as the context computes it. -/
def div (c : Context) (a b : ℚ) : ℚ := c.round (a / b)

/-- The unary minus, which rounds as well. -/
def neg (c : Context) (a : ℚ) : ℚ := c.round (-a)

/-- The sum of the values, added one after the other. -/
def total (c : Context) (values : List ℚ) : ℚ := values.foldl c.add 0

@[simp] theorem exact_mul (a b : ℚ) : exact.mul a b = a * b := rfl

end Context

/-- The value of a column with `scale` decimals. -/
def ofColumn (scale : ℕ) (units : ℤ) : ℚ := units / 10 ^ scale

/-- A number of units fits a column of `precision` digits. -/
def Fits (precision : ℕ) (units : ℤ) : Prop := |units| < 10 ^ precision

instance (precision : ℕ) (units : ℤ) : Decidable (Fits precision units) :=
  inferInstanceAs (Decidable (_ < _))

theorem Fits.of_le {precision : ℕ} {a b : ℤ} (h : Fits precision b) (ha : 0 ≤ a) (hle : a ≤ b) :
    Fits precision a := by
  unfold Fits at h ⊢
  rw [abs_of_nonneg ha]
  rw [abs_of_nonneg (ha.trans hle)] at h
  exact hle.trans_lt h

theorem Fits.mono {precision precision' : ℕ} {units : ℤ} (h : Fits precision units)
    (hle : precision ≤ precision') : Fits precision' units :=
  h.trans_le (pow_le_pow_right₀ (by norm_num) hle)

/-- What a column `Numeric(precision, scale)` stores of a value, in units of
its last digit; `none` on a numeric overflow. -/
def toColumn (precision scale : ℕ) (q : ℚ) : Option ℤ :=
  let units := roundHalfAway (q * 10 ^ scale)
  if Fits precision units then some units else none

/-- Trailing zeros moved from the coefficient to the exponent, as `normalize`
does. -/
def normalize (coefficient : ℕ) (exponent : ℤ) : ℕ × ℤ :=
  if coefficient = 0 then (0, 0)
  else if coefficient % 10 = 0 then normalize (coefficient / 10) (exponent + 1)
  else (coefficient, exponent)
termination_by coefficient
decreasing_by omega

/-- `str` of the decimal `coefficient * 10 ^ exponent`: plain notation where it
needs no more than five leading zeros, scientific notation otherwise. -/
def display (coefficient : ℕ) (exponent : ℤ) : String :=
  let digits := Nat.toDigits 10 coefficient
  let leftDigits : ℤ := exponent + digits.length
  let plain := exponent ≤ 0 ∧ -6 < leftDigits
  let dotPlace : ℤ := if plain then leftDigits else 1
  let number : List Char :=
    if dotPlace ≤ 0 then '0' :: '.' :: (List.replicate (-dotPlace).toNat '0' ++ digits)
    else if digits.length ≤ dotPlace then
      digits ++ List.replicate (dotPlace - digits.length).toNat '0'
    else digits.take dotPlace.toNat ++ '.' :: digits.drop dotPlace.toNat
  let power := leftDigits - dotPlace
  String.ofList number ++
    if power = 0 then "" else if 0 < power then s!"E+{power}" else s!"E{power}"

example : Context.mul (Context.prec 3) (1 / 3) 1 = 333 / 1000 := by decide +kernel

example : toColumn 24 8 (5 / 1000000000) = some 1 := by decide +kernel

example : display 15 2 = "1.5E+3" := by decide +kernel

end Decimal
